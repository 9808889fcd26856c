import ObjectStream.Equality
import ObjectStream.Reduction

/-!
A host whose objects are records: a payload, items, entries and state.

The types of records differ in what their objects do by themselves. A silent type leaves everything
to its registration, an able one has every hook, and an unwilling one fails in each.
-/

namespace ObjectStream

/-- What the objects of a type do by themselves. -/
inductive Conduct where
  | silent
  | able
  /-- The failures begin with this name. -/
  | unwilling (name : String)
  deriving DecidableEq

/-- A type of records. -/
structure RecordType where
  type : HostType
  conduct : Conduct := .silent
  deriving DecidableEq

/-- What a record says when it is asked how it is built again. -/
inductive Recipe where
  | failure (text : String)
  /-- A tuple that describes a reduction. -/
  | tuple (v : Value)
  | reduction (r : Reduction)

/-- An object of the host. -/
structure Record where
  kind : RecordType
  payload : Value := .none
  items : Array Value := #[]
  entries : Array (Value × Value) := #[]
  state : Option Value := none
  recipe : Option Recipe := none

namespace Record

/-- The reduction by the record's own recipe. -/
def ownReduction (r : Record) : Option (Action Record Reduction) :=
  r.recipe.map fun
    | .failure text => .fail text
    | .tuple v => do
      match Reduction.ofValue (← get) v with
      | .ok reduction => pure reduction
      | .error e => .fail e.message
    | .reduction reduction => pure reduction

/-- The reduction to a call of a global with the payload, and everything else that the record
    holds. -/
def reductionBy (callable : Global) (r : Record) : Action Record Reduction := do
  let callable ← Action.alloc (.global callable)
  let args ← Action.allocTuple [r.payload]
  pure { callable, args, state := r.state
         listItems := if r.items.isEmpty then none else some r.items.toList
         dictItems := if r.entries.isEmpty then none else some r.entries.toList }

/-- Changes the record with this number. -/
def change (id : Nat) (f : Record → Record) : Action Record Unit :=
  modify fun s => s.modify id fun
    | .object r => .object (f r)
    | cell => cell

/-- Lets the record with this number hold a state. -/
def takeState (id : Nat) (state : Value) : Action Record Unit :=
  change id fun r => { r with state := some state }

/-- Makes a record with a payload. -/
def make (kind : RecordType) (payload : Value) : Action Record Value :=
  Action.alloc (.object { kind := kind, payload := payload })

/-- The pairs that stand at the same places of two sequences of one length. -/
def pairUp (a b : List Value) : Option (List (Value × Value)) :=
  if a.length = b.length then some (a.zip b) else none

/-- The keys and contents of entries in turn. -/
def inTurn (entries : List (Value × Value)) : List Value :=
  entries.flatMap fun (key, content) => [key, content]

/-- The pairs that have to be equal for two records to have equal contents, in the order in which
    they are compared. -/
def sameContents (a b : Record) : Option (List (Value × Value)) := do
  let items ← pairUp a.items.toList b.items.toList
  let entries ← pairUp (inTurn a.entries.toList) (inTurn b.entries.toList)
  let state ← pairUp a.state.toList b.state.toList
  pure ((a.payload, b.payload) :: items ++ entries ++ state)

/-- A hook of a record: absent in a silent type, and a failure in an unwilling one. -/
def hook {α : Type} (r : Record) (refusal : String) (able : Option (Action Record α)) :
    Option (Action Record α) :=
  match r.kind.conduct with
  | .silent => none
  | .able => able
  | .unwilling name => some (.fail (name ++ " refuses " ++ refusal))

instance : HostObject Record where
  type r := r.kind.type
  text r := "<" ++ r.kind.type.shortName ++ ">"
  same a b := if a.kind.conduct = .able then sameContents a b else none
  reduce _ r _ := r.hook "to reduce" r.ownReduction
  setState id r state := r.hook "state" (takeState id state)
  append id r item := r.hook "item" (change id fun r => { r with items := r.items.push item })
  setItem id r key content :=
    r.hook "entry" (change id fun r => { r with entries := r.entries.push (key, content) })

end Record

end ObjectStream
