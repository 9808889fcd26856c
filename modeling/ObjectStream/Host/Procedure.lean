import ObjectStream.Host.Record

/-!
Functions of a host of records, and state hooks of its classes.
-/

namespace ObjectStream

/-- A function of the host. -/
abbrev Procedure := List Value → Action Record Value

namespace Procedure

/-- The tuple of the arguments. -/
def tuple : Procedure := Action.allocTuple

/-- The list of the arguments. -/
def list : Procedure := fun args => Action.alloc (.list args.toArray)

/-- Nothing at all. -/
def nothing : Procedure := fun _ => pure .none

/-- The first argument, if there is one. -/
def first : Procedure := fun args => pure (args.headD .none)

/-- The number of arguments. -/
def count : Procedure := fun args => pure (.ofInt args.length)

/-- The sum of the arguments as words. -/
def wordSum (args : List Value) : Option Int64 :=
  args.foldlM (fun n v => v.toWord?.map fun m => n + Int64.ofInt m) 0

/-- The sum of the arguments, which wraps around. -/
def sum : Procedure := fun args =>
  match wordSum args with
  | some n => pure (.int n)
  | none => .fail "expected an int"

/-- A failure whatever the arguments are. -/
def failure (text : String) : Procedure := fun _ => .fail text

/-- A global that was not resolved. -/
def named (module qualname : String) : Procedure := fun _ =>
  Action.alloc (.global (.named module qualname))

/-- Gives the second argument to the first: as an attribute of this name to an instance, and as its
    state to a record. -/
def setState (name : String) : Procedure
  | [target, state] => do
    match target, (← get).cell? target with
    | .ref id, some (.inst _ _) => discard (Action.putEntry id (.str name) state)
    | .ref id, some (.object _) => Record.takeState id state
    | _, _ => .fail "cannot set state"
    pure .none
  | _ => .fail "setter expects two arguments"

/-- A record whose payload is the tuple of the arguments. -/
def record (kind : RecordType) : Procedure := fun args => do
  Record.make kind (← Action.allocTuple args)

/-- A record whose payload is the only argument. -/
def wrapper (kind : RecordType) : Procedure
  | [v] => Record.make kind v
  | _ => .fail "expected one argument"

end Procedure

namespace ClassHooks

/-- The attributes of the instance with this number. -/
def attributes (id : Nat) (s : Store Record) : Dict :=
  match s.cells[id]? with
  | some cell => cell.entries
  | none => .empty

/-- A state of two parts: a new dictionary of the attributes, in which keys that have become equal
    are one, and a slot with this content. -/
def slotted (slot : String) (content : Value) (id : Nat) (s : Store Record) :
    Value × Store Record :=
  let dict (entries : List (Value × Value)) := (s.dictOf entries).toOption.getD .empty
  let slots := dict [(.str slot, content)]
  let (first, s) := s.alloc (.dict (dict (attributes id s).entries.toList))
  let (second, s) := s.alloc (.dict slots)
  s.allocTuple [first, second]

/-- The list of the contents of the attributes. -/
def contents (id : Nat) (s : Store Record) : Value × Store Record :=
  s.alloc (.list ((attributes id s).entries.map Prod.snd))

end ClassHooks

end ObjectStream
