import ObjectStream.Bytes

/-!
Where bytes come from and where they go.

A source hands out its bytes from the front; a sink takes bytes at its end. Both may be given a
place from which they fail. An operation that fails moves nothing.
-/

namespace ObjectStream

/-- A stream of bytes to be read. -/
structure Source where
  /-- The bytes not read yet. -/
  unread : Bytes
  /-- How many bytes were read. -/
  taken : Nat := 0
  /-- A place that no read may pass, and what a read that would pass it fails with. -/
  fault : Option (Nat × String) := none

namespace Source

/-- The source of a byte string. -/
def ofBytes (bs : Bytes) : Source := { unread := bs }

/-- Hands out `got`, behind which `rest` remains. -/
def advance (s : Source) (got rest : Bytes) : Except String (Bytes × Source) :=
  let taken := s.taken + got.length
  let next := (got, { s with unread := rest, taken := taken })
  match s.fault with
  | some (place, text) => if place < taken then .error text else .ok next
  | none => .ok next

/-- Reads up to `n` bytes; fewer only at the end. -/
def read (s : Source) (n : Nat) : Except String (Bytes × Source) :=
  let (got, rest) := s.unread.splitAt n
  s.advance got rest

/-- Reads a line with its newline; without one, everything that is left. -/
def readLine (s : Source) : Except String (Bytes × Source) :=
  let (got, rest) := Bytes.splitLine s.unread
  s.advance got rest

end Source

/-- A stream of bytes being written. -/
structure Sink where
  written : Array UInt8 := #[]
  /-- The most bytes it takes, and what a write beyond that fails with. -/
  fault : Option (Nat × String) := none

namespace Sink

/-- What a write of `count` bytes fails with. -/
def refusal? (s : Sink) (count : Nat) : Option String :=
  match s.fault with
  | some (place, text) => if place < s.written.size + count then some text else none
  | none => none

/-- The sink with further bytes. -/
def append (s : Sink) (bs : Bytes) : Sink := { s with written := s.written ++ bs }

/-- Writes all the bytes or none. -/
def write (s : Sink) (bs : Bytes) : Except String Sink :=
  match s.refusal? bs.length with
  | some text => .error text
  | none => .ok (s.append bs)

end Sink

end ObjectStream
