import ObjectStream.Error
import ObjectStream.Source

/-!
Frames while reading.

A loaded frame hands out its bytes before the source hands out more. No read crosses the end of a
frame that has bytes left; a frame without bytes left is dropped by the next read.
-/

namespace ObjectStream.Frame

/-- A source behind a loaded frame. -/
structure Reader where
  source : Source
  /-- The unread bytes of the frame. -/
  frame : Bytes := []
  /-- Whether a frame is open; it may have no bytes left. -/
  inFrame : Bool := false
  /-- The offset of the next unread byte, frame headers included. -/
  position : Nat := 0

namespace Reader

/-- The reader of a source that nothing was read from. -/
def ofSource (s : Source) : Reader := { source := s }

/-- Forgets what is left of the frame. -/
def dropFrame (r : Reader) : Reader :=
  match r.frame with
  | [] => r
  | frame => { r with frame := [], position := r.position + frame.length }

/-- Reads from the source by `action`, past any frame. -/
def readSource (action : Source → Except String (Bytes × Source)) : EStateM Error Reader Bytes :=
  fun r =>
    let r := r.dropFrame
    match action r.source with
    | .error text => .error (.io text) r
    | .ok (got, source) => .ok got { r with source := source, position := r.position + got.length }

/-- Reads up to `n` bytes. Inside a frame all of them have to be there. -/
def read (n : Nat) : EStateM Error Reader Bytes := fun r =>
  if r.inFrame then
    if r.frame.isEmpty && n != 0 then
      readSource (·.read n) { r with inFrame := false }
    else
      let (got, rest) := r.frame.splitAt n
      if got.length < n then .error (.decode .frameExhausted) r
      else .ok got { r with frame := rest, position := r.position + n }
  else readSource (·.read n) r

/-- Reads a line with its newline; at the end of the source the newline may be missing. -/
def readLine : EStateM Error Reader Bytes := fun r =>
  if r.inFrame then
    if r.frame.isEmpty then readSource Source.readLine { r with inFrame := false }
    else
      let (got, rest) := Bytes.splitLine r.frame
      if got.getLast? = some 0x0a then
        .ok got { r with frame := rest, position := r.position + got.length }
      else .error (.decode .frameExhausted) r
  else readSource Source.readLine r

/-- Loads a frame of `length` bytes. -/
def loadFrame (length : Nat) : EStateM Error Reader Unit := fun r =>
  if r.inFrame && !r.frame.isEmpty then .error (.decode .frameOverlap) r
  else
    let r := r.dropFrame
    match r.source.read length with
    | .error text => .error (.io text) r
    | .ok (got, source) =>
      let r := { r with source := source, frame := got }
      if got.length < length then .error (.decode .frameExhausted) r
      else .ok () { r with inFrame := true }

/-- How many bytes can still be read at most. -/
def remaining (r : Reader) : Nat :=
  r.frame.length + r.source.unread.length

end Reader

end ObjectStream.Frame
