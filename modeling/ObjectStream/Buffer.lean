import ObjectStream.Bytes

/-!
A byte buffer with a position, read and written like a file in memory.

The position may lie behind the end. A write there fills the gap with zeros; a read there comes back
to the end and finds nothing.
-/

namespace ObjectStream

/-- Bytes and a position among them. -/
structure Buffer where
  data : Bytes := []
  position : Nat := 0
  deriving DecidableEq

namespace Buffer

/-- What a position is counted from. -/
inductive Whence where
  | start
  | current
  | finish
  deriving DecidableEq

/-- The place with this name. -/
def Whence.ofName? (name : String) : Option Whence :=
  match name with
  | "start" => some .start
  | "current" => some .current
  | "end" => some .finish
  | _ => none

/-- Reads up to `n` bytes from the position on, and moves behind them. -/
def read (b : Buffer) (n : Nat) : Bytes × Buffer :=
  let start := min b.position b.data.length
  let got := (b.data.drop start).take n
  (got, { b with position := start + got.length })

/-- Reads a line with its newline, or what is left. -/
def readLine (b : Buffer) : Bytes × Buffer :=
  b.read (Bytes.splitLine (b.data.drop b.position)).1.length

/-- Lays bytes over the data at the position, and moves behind them. -/
def write (b : Buffer) (bs : Bytes) : Buffer :=
  let before := b.data.take b.position ++ List.replicate (b.position - b.data.length) 0
  { data := before ++ bs ++ b.data.drop (b.position + bs.length)
    position := b.position + bs.length }

/-- Moves to an offset from the start, the position or the end. A position before the start, or one
    that a signed word does not hold, is refused. -/
def seek (b : Buffer) (offset : Int) (whence : Whence) : Except String Buffer :=
  let base : Int := match whence with
    | .start => 0
    | .current => b.position
    | .finish => b.data.length
  let target := base + offset
  if 0 ≤ target ∧ target < 2 ^ 63 then .ok { b with position := target.toNat }
  else .error "negative seek position"

end Buffer

end ObjectStream
