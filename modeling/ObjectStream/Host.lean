import ObjectStream.Namespace
import ObjectStream.Protocol
import ObjectStream.Store

/-!
What the host brings: its object types, its functions and the hooks of its classes.

The codec never looks into a host object. It asks the type class `HostObject` what the object is and
tells it what was decoded. What the host does on such a call is an `Action`: it may change the store
and may fail.
-/

namespace ObjectStream

/-- Why a call does not return. -/
inductive CallError where
  | failed (text : String)
  /-- It asks for a comparison without an answer. -/
  | endless
  deriving DecidableEq

/-- The wording of the failure. -/
def CallError.message : CallError → String
  | .failed text => text
  | .endless => "comparison of cyclic objects does not end"

/-- The failure of a call that uses a value as a key. -/
def CallError.ofKey : KeyError → CallError
  | .endless => .endless
  | error => .failed error.message

/-- What happens when a callable or the host is called. -/
abbrev Action (H α : Type) := EStateM CallError (Store H) α

/-- A call that fails with a text. -/
def Action.fail {H α : Type} (text : String) : Action H α := throw (.failed text)

/-- Makes a new object. -/
def Action.alloc {H : Type} (cell : Cell H) : Action H Value := do
  let id := (← get).size
  modify fun s => s.push cell
  pure (.ref id)

/-- Makes a tuple of the items. -/
def Action.allocTuple {H : Type} (items : List Value) : Action H Value :=
  match items with
  | [] => pure .emptyTuple
  | _ => Action.alloc (.tuple items)

/-- How an object is built again: a call, and what happens to the result. -/
structure Reduction where
  /-- The global that is called. -/
  callable : Value
  /-- The tuple of its arguments. -/
  args : Value
  /-- State given to the result. -/
  state : Option Value := none
  /-- Items appended to the result. -/
  listItems : Option (List Value) := none
  /-- Entries stored in the result. -/
  dictItems : Option (List (Value × Value)) := none
  /-- A callable that takes the result and the state, in place of the usual way. -/
  stateSetter : Option Value := none

/-- What the codec may ask of the contents of host objects, and the order that the tables of the host
    keep to. A hook that is absent is `none`; the number handed to a hook is that of the object. -/
class HostObject (H : Type) where
  /-- The type of the object. -/
  type : H → HostType
  /-- The object as shown to a reader. -/
  text : H → String
  /-- The pairs that have to be equal for two objects of one type to be equal; `none` if they never
      are. -/
  same : H → H → Option (List (Value × Value))
  /-- Describes how the object is built again. -/
  reduce : Nat → H → Protocol → Option (Action H Reduction)
  /-- Takes decoded state. -/
  setState : Nat → H → Value → Option (Action H Unit)
  /-- Takes a decoded item. -/
  append : Nat → H → Value → Option (Action H Unit)
  /-- Takes a decoded entry. -/
  setItem : Nat → H → Value → Value → Option (Action H Unit)
  /-- How look-ups go through keys with one image. -/
  probing : Probing := .filed

/-- The same host with another order among keys with one image. -/
@[reducible]
def HostObject.on {H : Type} (host : HostObject H) (probing : Probing) : HostObject H :=
  { host with probing := probing }

/-- A host without object types. -/
instance : HostObject Empty where
  type := nofun
  text := nofun
  same := nofun
  reduce := nofun
  setState := nofun
  append := nofun
  setItem := nofun

/-- What a class does in place of the usual handling of the attributes of its instances. -/
structure ClassHooks (H : Type) where
  /-- The state that is written for an instance. -/
  getState : Option (Nat → Store H → Value × Store H) := none
  /-- Gives decoded state to an instance. -/
  setState : Option (Nat → Value → Action H Unit) := none

/-- The behaviour behind the numbers of callables, classes and registries. -/
structure Host (H : Type) where
  /-- Calls a function of the host. -/
  call : Nat → List Value → Action H Value := fun _ _ => .fail "unknown function"
  /-- The hooks of a class. -/
  hooks : ClassKey → ClassHooks H := fun _ => {}
  /-- The namespace of a registry. -/
  namespaceOf : Nat → Option Namespace := fun _ => none

namespace Store

variable {H : Type} [HostObject H]

/-- The name of the type of an object. -/
def cellTypeName : Cell H → String
  | .bytearray _ => "bytearray"
  | .list _ => "list"
  | .tuple _ => "tuple"
  | .dict _ => "dict"
  | .set _ => "set"
  | .frozenset _ => "frozenset"
  | .global _ => "type"
  | .inst _ _ => "object"
  | .object content => (HostObject.type content).shortName

/-- The name of the type of a value. -/
def typeName (s : Store H) : Value → String
  | .none => "NoneType"
  | .bool _ => "bool"
  | .int _ | .long _ => "int"
  | .float _ => "float"
  | .complex _ _ => "complex"
  | .str _ => "str"
  | .bytes _ => "bytes"
  | .emptyTuple => "tuple"
  | .ref id =>
    match s.cells[id]? with
    | some cell => cellTypeName cell
    | none => "object"

end Store

end ObjectStream
