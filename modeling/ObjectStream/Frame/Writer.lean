import ObjectStream.Opcode
import ObjectStream.Protocol
import ObjectStream.Source

/-!
Frames while writing.

While framing is on, bytes gather in a pending frame. The frame goes to the sink once it has reached
the target size, or when it is forced; a header of its length goes before it unless it is too short
to be worth one. Large payloads go to the sink between two frames.
-/

namespace ObjectStream.Frame

/-- A sink behind a pending frame. -/
structure Writer where
  sink : Sink
  /-- The frame that is gathering; absent while framing is off. -/
  pending : Option (Array UInt8) := none

/-- The header of a frame with a payload of this length. -/
def header (length : Nat) : Bytes :=
  Opcode.frame.byte :: Bytes.ofNatLE 8 length

namespace Writer

/-- Writes past the pending frame. -/
def put (bs : Bytes) : EStateM String Writer Unit := fun w =>
  match w.sink.refusal? bs.length with
  | some text => .error text w
  | none => .ok () { w with sink := w.sink.append bs }

/-- Begins an empty frame. A frame that is still pending is forgotten. -/
def start : EStateM String Writer Unit :=
  modify fun w => { w with pending := some #[] }

/-- Sends the pending frame to the sink if it has reached the target size or is forced. -/
def commit (force : Bool) : EStateM String Writer Unit := do
  match (← get).pending with
  | none => pure ()
  | some frame =>
    if frame.isEmpty || (frame.size < frameSizeTarget && !force) then pure ()
    else
      if frameSizeMin ≤ frame.size then put (header frame.size)
      put frame.toList
      modify fun w => { w with pending := some #[] }

/-- Sends what is pending and stops framing. -/
def finish : EStateM String Writer Unit := do
  commit true
  modify fun w => { w with pending := none }

/-- Writes bytes into the pending frame, or to the sink while framing is off. -/
def write (bs : Bytes) : EStateM String Writer Unit := fun w =>
  match w with
  | ⟨sink, some frame⟩ => .ok () ⟨sink, some (frame ++ bs)⟩
  | ⟨sink, none⟩ => put bs ⟨sink, none⟩

/-- Writes a payload and what stands before it outside of any frame. -/
def writeLarge (head payload : Bytes) : EStateM String Writer Unit := do
  commit true
  put head
  put payload

/-- Whether a frame is gathering. -/
def isFraming (w : Writer) : Bool := w.pending.isSome

end Writer

end ObjectStream.Frame
