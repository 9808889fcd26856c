import ObjectStream.Text.Capital
import ObjectStream.Trace

/-!
Profiles: the zones that are open while coding runs.

A zone opens and closes with the scope that it stands for, and carries a label. A naming may choose
the labels of calls and reductions; a frame is always labelled by its offset. When a scope closes
that is not the innermost one, all zones close, so none is left open for ever.
-/

namespace ObjectStream

/-- How zones are labelled. -/
inductive Naming where
  /-- By the names that the codec reports. -/
  | reported
  /-- Calls by the last segment of their name, after the class that holds it if there is one. -/
  | short
  deriving DecidableEq

namespace Naming

/-- The last segment of a dotted name, and the segment before it if that is not the first. -/
def lastSegments (name : List Char) : List Char × Option (List Char) :=
  let last := (name.reverse.takeWhile (· != '.')).reverse
  match name.reverse.dropWhile (· != '.') with
  | [] => (last, none)
  | _ :: path => (last, if path.contains '.' then some (path.takeWhile (· != '.')).reverse else none)

/-- A name without the path of its module: the last segment, and the one before it if that is not
    the first and begins with an upper-case letter. -/
def shortName (name : String) : String :=
  match lastSegments name.toList with
  | (last, some (c :: owner)) =>
    if Text.isCapital c then String.ofList (c :: owner ++ '.' :: last) else String.ofList last
  | (last, _) => String.ofList last

/-- The label that the naming gives to a call. -/
def callLabel (naming : Naming) (callable : String) : Option String :=
  match naming with
  | .reported => none
  | .short => some ("call:" ++ shortName callable)

/-- The label that the naming gives to a reduction. -/
def reduceLabel (naming : Naming) (_typeName : String) : Option String :=
  match naming with
  | .reported | .short => none

/-- The label of a zone. -/
def label (naming : Naming) (scope : Scope) (name : String) (offset : Nat) : String :=
  match scope with
  | .frame => "frame@" ++ toString offset
  | .call => (naming.callLabel name).getD ("call:" ++ name)
  | .reduce => (naming.reduceLabel name).getD ("reduce:" ++ name)

end Naming

/-- An open zone. -/
structure Zone where
  scope : Scope
  label : String
  deriving DecidableEq

/-- The open zones, innermost first. -/
structure Profile where
  naming : Naming := .reported
  zones : List Zone := []

namespace Profile

/-- A profile wants the events of all scopes, and no instructions. -/
def mask : TraceMask := { frame := true, call := true, reduce := true }

/-- The number of open zones. -/
def depth (p : Profile) : Nat := p.zones.length

/-- Opens a zone. -/
def enter (p : Profile) (scope : Scope) (name : String) (offset : Nat) : Profile :=
  { p with zones := ⟨scope, p.naming.label scope name offset⟩ :: p.zones }

/-- Closes the innermost zone, or all zones if that one is of another kind. -/
def exit (p : Profile) (scope : Scope) : Profile :=
  match p.zones with
  | zone :: rest => { p with zones := if zone.scope = scope then rest else [] }
  | [] => p

/-- Takes an event in. -/
def record (p : Profile) : Event → Profile
  | .instruction .. => p
  | .enter scope name offset => p.enter scope name offset
  | .exit scope _ => p.exit scope

/-- Takes events in, in order. -/
def recordAll (p : Profile) (events : List Event) : Profile := events.foldl record p

/-- A profile as shown to a reader. -/
def shown (p : Profile) : String :=
  "ProfilingTraceSink \x7b stack_depth: " ++ toString p.depth ++ ", .. \x7d"

end Profile

end ObjectStream
