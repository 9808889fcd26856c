import Std.Data.HashMap
import ObjectStream.Value

/-!
Tables of entries under distinct keys, in the order of insertion.

An index from images to places finds a key without a scan. How keys are told apart is not settled
here: each operation takes the image of its key and a test of sameness with it. The test may fail to
answer, because keys may contain objects whose comparison has no end.

Keys that differed when they were put in may have become equal since. Which of them a look-up meets
first is up to the hash table behind the index (`Probing`).
-/

namespace ObjectStream

/-- Why a key cannot be looked up. -/
inductive KeyError where
  /-- A value of this type is no key. -/
  | unhashable (typeName : String)
  /-- The comparison with a key in the table has no answer: it has no end, or it comes to an object
      that is being filled. The program does not survive either. -/
  | endless
  deriving DecidableEq

/-- The wording of the failure. -/
def KeyError.message : KeyError → String
  | .unhashable typeName => "unhashable type: '" ++ typeName ++ "'"
  | .endless => "comparison of cyclic objects does not end"

/-- Entries in the order of insertion, and an index from the image of a key to the places of the
    keys with that image. -/
structure Keyed (α : Type) where
  entries : Array (Value × α) := #[]
  index : Std.HashMap (Array UInt8) (List Nat) := ∅

/-- In which order a look-up meets the places under one image, among all places that are filed. A hash
    table draws a seed, and where the seed sends the images settles the order; nothing more is known
    of it. -/
structure Probing where
  order : (filed : Array UInt8 → List Nat) → (image : Array UInt8) → List Nat
  /-- Every place is met once. -/
  perm : ∀ filed image, (order filed image).Perm (filed image)

/-- The places are met as they were filed. -/
def Probing.filed : Probing where
  order filed image := filed image
  perm _ _ := .refl _

namespace Keyed

variable {α : Type}

/-- The table without entries. -/
def empty : Keyed α := {}

/-- The number of entries. -/
def size (t : Keyed α) : Nat := t.entries.size

/-- The keys in order. -/
def keys (t : Keyed α) : List Value := t.entries.toList.map Prod.fst

/-- The table of the same keys with changed contents. -/
def map {β : Type} (f : α → β) (t : Keyed α) : Keyed β :=
  { entries := t.entries.map fun (key, content) => (key, f content), index := t.index }

/-- The first of the places that passes the test. -/
def firstPlace (passes : Nat → Option Bool) : List Nat → Option (Option Nat)
  | [] => some none
  | i :: rest =>
    match passes i with
    | some true => some (some i)
    | some false => firstPlace passes rest
    | none => none

/-- The places under an image, in the order in which a look-up meets them. -/
def met (t : Keyed α) (probing : Probing) (image : Array UInt8) : List Nat :=
  probing.order (fun image => t.index.getD image []) image

/-- The place of the first key met with this image that `same` accepts. The outer `none` is a test
    without an answer, the inner one a key that is not there. -/
def find (t : Keyed α) (probing : Probing) (image : Array UInt8) (same : Value → Option Bool) :
    Option (Option Nat) :=
  firstPlace (fun i => match t.entries[i]? with
    | some entry => same entry.1
    | none => some false) (t.met probing image)

/-- The entry at a place. -/
def at? (t : Keyed α) (place : Nat) : Option α := t.entries[place]?.map Prod.snd

/-- Replaces the content at `place`, or appends a new entry if there is no place. -/
def put (t : Keyed α) (place : Option Nat) (image : Array UInt8) (key : Value) (content : α) :
    Keyed α :=
  match place with
  | some i => { t with entries := t.entries.modify i fun entry => (entry.1, content) }
  | none =>
    let places := t.index.getD image [] ++ [t.entries.size]
    { entries := t.entries.push (key, content), index := t.index.insert image places }

end Keyed

end ObjectStream
