import ObjectStream.Opcode

/-!
What coding reports while it runs: instructions, and scopes that open and close.

An observer names the kinds of events it wants; the others are not recorded. `Balanced` says when a
list of events opens and closes its scopes in order.
-/

namespace ObjectStream

/-- A span of work that is reported when it begins and when it ends. -/
inductive Scope where
  /-- The bytes of a frame. -/
  | frame
  /-- The call of something the stream names. -/
  | call
  /-- The description of a host object. -/
  | reduce
  deriving DecidableEq

/-- The name of the kind of span. -/
def Scope.name : Scope → String
  | .frame => "frame"
  | .call => "call"
  | .reduce => "reduce"

/-- The kind of span with this name. -/
def Scope.ofName? (name : String) : Option Scope :=
  [Scope.frame, .call, .reduce].find? fun s => s.name == name

/-- One report. Offsets count bytes of the stream. -/
inductive Event where
  /-- An instruction, with the nesting depth while writing and the stack height while reading. -/
  | instruction (offset : Nat) (op : Opcode) (depth : Nat)
  | enter (scope : Scope) (label : String) (offset : Nat)
  | exit (scope : Scope) (offset : Nat)
  deriving DecidableEq

/-- The kinds of events an observer wants. -/
structure TraceMask where
  instruction : Bool := false
  frame : Bool := false
  call : Bool := false
  reduce : Bool := false
  deriving DecidableEq

namespace TraceMask

/-- No events at all. -/
def none : TraceMask := {}

/-- The mask of the kinds with these names. -/
def ofNames (names : List String) : TraceMask :=
  { instruction := names.contains "opcode", frame := names.contains Scope.frame.name
    call := names.contains Scope.call.name, reduce := names.contains Scope.reduce.name }

/-- Whether the mask has the events of a scope. -/
def hasScope (m : TraceMask) : Scope → Bool
  | .frame => m.frame
  | .call => m.call
  | .reduce => m.reduce

/-- The mask as a number with one bit for each kind. -/
def bits (m : TraceMask) : Nat :=
  m.instruction.toNat + 2 * m.frame.toNat + 4 * m.call.toNat + 8 * m.reduce.toNat

end TraceMask

/-- The reports of a run to an observer, if one is attached. -/
structure Trace where
  observer : Option TraceMask := none
  events : Array Event := #[]

namespace Trace

/-- The kinds of events that are recorded. -/
def mask (t : Trace) : TraceMask := t.observer.getD .none

/-- Reports an instruction. -/
def instruction (t : Trace) (offset : Nat) (op : Opcode) (depth : Nat) : Trace :=
  if t.mask.instruction then { t with events := t.events.push (.instruction offset op depth) }
  else t

/-- Reports the beginning of a scope. -/
def enter (t : Trace) (scope : Scope) (label : String) (offset : Nat) : Trace :=
  if t.mask.hasScope scope then { t with events := t.events.push (.enter scope label offset) }
  else t

/-- Reports the end of a scope. -/
def exit (t : Trace) (scope : Scope) (offset : Nat) : Trace :=
  if t.mask.hasScope scope then { t with events := t.events.push (.exit scope offset) } else t

/-- The same observer before any event. -/
def restarted (t : Trace) : Trace := { t with events := #[] }

/-- The tracer as shown to a reader. -/
def text (t : Trace) : String :=
  "Tracer \x7b attached: " ++ toString t.observer.isSome ++ ", mask: TraceMask(" ++
    toString t.mask.bits ++ ") \x7d"

end Trace

/-- Whether events, met with these scopes open, innermost first, close each scope in its turn and
    leave none open. -/
def Balanced : (openScopes : List Scope) → List Event → Prop
  | openScopes, [] => openScopes = []
  | openScopes, .instruction .. :: rest => Balanced openScopes rest
  | openScopes, .enter scope .. :: rest => Balanced (scope :: openScopes) rest
  | scope :: openScopes, .exit closed _ :: rest => closed = scope ∧ Balanced openScopes rest
  | [], .exit .. :: _ => False

end ObjectStream
