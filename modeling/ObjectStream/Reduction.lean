import ObjectStream.Error
import ObjectStream.Host

/-!
Reductions given as tuples.

A tuple of two to six items describes how an object is built again: a callable, the tuple of its
arguments, then state, items, entries and a state setter, each of which may be `None` or missing.
-/

namespace ObjectStream

namespace Reduction

variable {H : Type}

/-- The failure of items or entries that are no sequence. -/
def badSlot (what : String) : EncodeError := .reduce "reduction" (what ++ " must be a sequence")

/-- The items of a list or tuple. -/
def sequence? (s : Store H) (v : Value) : Option (List Value) :=
  (s.tuple? v).or ((s.list? v).map Array.toList)

/-- The two items of a pair. -/
def pair? (s : Store H) (v : Value) : Option (Value × Value) :=
  match s.tuple? v with
  | some [key, content] => some (key, content)
  | _ => none

/-- The entries of a dictionary or of a sequence of pairs. -/
def entries? (s : Store H) (v : Value) : Option (List (Value × Value)) :=
  match s.dict? v with
  | some d => some d.entries.toList
  | none => sequence? s v >>= List.mapM (pair? s)

/-- The item at a place of the tuple, unless it is missing or `None`. -/
def slot? (parts : List Value) (i : Nat) : Option Value :=
  match parts[i]? with
  | some .none => none
  | v => v

/-- The reduction that a tuple describes. -/
def ofValue (s : Store H) (v : Value) : Except EncodeError Reduction := do
  match s.tuple? v with
  | none => .error .reductionNotTuple
  | some parts =>
    match parts with
    | callable :: args :: rest =>
      if 4 < rest.length then .error (.reductionLength parts.length)
      else if (s.global? callable).isNone then .error .callableNotGlobal
      else if (s.tuple? args).isNone then .error .argumentsNotTuple
      else
        let listItems ← (slot? parts 3).mapM fun items =>
          match sequence? s items with
          | some items => .ok items
          | none => .error (badSlot "list items")
        let dictItems ← (slot? parts 4).mapM fun entries =>
          match entries? s entries with
          | some entries => .ok entries
          | none => .error (badSlot "dict items")
        .ok { callable, args, state := slot? parts 2, listItems, dictItems
              stateSetter := slot? parts 5 }
    | _ => .error (.reductionLength parts.length)

end Reduction

end ObjectStream
