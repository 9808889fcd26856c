import ObjectStream.Host.Procedure
import ObjectStream.Registry

/-!
Words for the functions and hooks of a host of records, so that a host can be described in words.
-/

namespace ObjectStream

/-- Record types, found by the short names of their types. -/
abbrev RecordTypes := List RecordType

namespace RecordTypes

/-- The first type with this short name. -/
def find? (types : RecordTypes) (name : String) : Option RecordType :=
  List.find? (fun kind => kind.type.shortName == name) types

/-- The function that words stand for. -/
def procedure? (types : RecordTypes) (words : String) : Option Procedure :=
  match words.splitOn " " with
  | ["args"] => some Procedure.tuple
  | ["list"] => some Procedure.list
  | ["none"] => some Procedure.nothing
  | ["first"] => some Procedure.first
  | ["count"] => some Procedure.count
  | ["sum"] => some Procedure.sum
  | ["error"] => some (Procedure.failure "boom")
  | ["global"] => some (Procedure.named "made" "up")
  | ["setter"] => some (Procedure.setState "via_setter")
  | ["make", name] => (types.find? name).map Procedure.record
  | _ => none

/-- The way to describe objects of a type that words stand for. -/
def reduceHook? (types : RecordTypes) (kind : RecordType) (words : String) :
    Option (ReduceHook Record) :=
  match words.splitOn " " with
  | ["self"] => some fun _ r _ => r.reductionBy (.ofType kind.type)
  | ["to", name] =>
    (types.find? name).map fun other _ r _ => r.reductionBy (.ofType other.type)
  | ["own"] => some fun _ r _ => r.ownReduction.getD (.fail "no own reduction")
  | ["protocol"] => some fun _ _ protocol =>
    Record.reductionBy (.ofType kind.type) { kind, payload := .ofInt protocol.val }
  | ["error"] => some fun _ _ _ => .fail "reduce refused"
  | _ => none

end RecordTypes

namespace RecordType

/-- The way to build objects of a type again that a word stands for. -/
def reconstruct? (kind : RecordType) (word : String) : Option Procedure :=
  match word with
  | "one" => some (Procedure.wrapper kind)
  | "args" => some (Procedure.record kind)
  | "list" => some Procedure.list
  | "error" => some (Procedure.failure "reconstruct refused")
  | _ => none

end RecordType

/-- The way to give state to a record that a word stands for. -/
def StateHook.ofWord? (word : String) : Option (StateHook Record) :=
  match word with
  | "in_place" => some (.inPlace fun id _ state => Record.takeState id state)
  | "in_place_error" => some (.inPlace fun _ _ _ => .fail "state refused")
  | "replace" => some (.replace fun _ r state => Action.allocTuple [r.payload, state])
  | "replace_state" => some (.replace fun _ _ state => pure state)
  | "replace_error" => some (.replace fun _ _ _ => .fail "replacement refused")
  | _ => none

namespace ClassHooks

/-- The state of instances that a word stands for. -/
def getState? (word : String) : Option (Nat → Store Record → Value × Store Record) :=
  match word with
  | "none" => some fun _ s => (.none, s)
  | "pair" => some (slotted "slot" (.int 1))
  | "values" => some contents
  | "text" => some fun _ s => (.str "state!", s)
  | _ => none

/-- The way to give state to instances that a word stands for. -/
def setState? (word : String) : Option (Nat → Value → Action Record Unit) :=
  match word with
  | "wrap" => some fun id state => discard (Action.putEntry id (.str "wrapped") state)
  | "error" => some fun _ _ => .fail "set_state refused"
  | _ => none

/-- The hooks that words stand for. -/
def ofWords (getState setState : Option String) : ClassHooks Record :=
  { getState := getState.bind getState?, setState := setState.bind setState? }

end ClassHooks

end ObjectStream
