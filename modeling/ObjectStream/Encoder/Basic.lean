import ObjectStream.Frame.Writer
import ObjectStream.Instruction
import ObjectStream.Registry
import ObjectStream.Trace

/-!
The state of an encoder, and the emission of single instructions.

Every instruction is counted and reported when its bytes have been handed to the frame writer. The
memo gives the objects that were written so far their ids, in the order of their first writing.
-/

namespace ObjectStream

/-- What the memo of an encoder remembers by identity. The class of an instance is written as a
    global that is no object of the store. -/
inductive Identity where
  | object (id : Nat)
  | ofClass (key : ClassKey)
  deriving DecidableEq, Hashable

namespace Encoder

/-- What an encoder is given before it writes anything. -/
structure Config (H : Type) where
  registry : Registry H
  host : Host H
  protocol : Protocol := .standard
  limits : Limits := {}
  /-- Whether the first three protocols write the old spellings of global names. -/
  fixImports : Bool := true
  /-- Gives the id under which a value is stored elsewhere; other values are written. -/
  persistentId : Option (Value → Store H → Option Value × Store H) := none

/-- What an encoder has written and remembers. -/
structure State (H : Type) where
  store : Store H
  memo : Std.HashMap Identity Nat := ∅
  frames : Frame.Writer
  /-- The bytes of all instructions so far, without frame headers. -/
  offset : Nat := 0
  /-- The nesting depth of the value that is being written. -/
  depth : Nat := 0
  trace : Trace := {}

end Encoder

/-- Writing, which changes the state of an encoder and may fail. What was written before a failure
    stays written. -/
abbrev Encode (H α : Type) := EStateM Error (Encoder.State H) α

namespace Encoder

variable {H : Type}

/-- Fails for a cause. -/
def fail {α : Type} (cause : EncodeError) : Encode H α := throw (.encode cause)

/-- Lets the frame writer act. -/
def framed (action : EStateM String Frame.Writer Unit) : Encode H Unit := fun st =>
  let frames := st.frames
  let st := { st with frames := ⟨{}, none⟩ }
  match action frames with
  | .ok _ frames => .ok () { st with frames := frames }
  | .error text frames => .error (.io text) { st with frames := frames }

/-- Lets the host act on the store; a failure is handed back. -/
def hosted {α : Type} (action : Action H α) : Encode H (Except String α) := fun st =>
  let store := st.store
  let st : State H := { st with store := .empty }
  match action store with
  | .ok a store => .ok (.ok a) { st with store := store }
  | .error (.failed text) store => .ok (.error text) { st with store := store }
  | .error .endless store => .error .endless { st with store := store }

/-- Makes a new object. -/
def alloc (cell : Cell H) : Encode H Value := do
  let id := (← get).store.size
  modify fun st => { st with store := st.store.push cell }
  pure (.ref id)

/-- Makes a tuple of the items. -/
def allocTuple (items : List Value) : Encode H Value :=
  match items with
  | [] => pure .emptyTuple
  | _ => alloc (.tuple items)

/-- Makes a global that was not resolved. -/
def allocNamed (module qualname : String) : Encode H Value :=
  alloc (.global (.named module qualname))

/-- Counts and reports an instruction of `length` bytes. -/
def advance (op : Opcode) (length : Nat) : Encode H Unit :=
  modify fun st => { st with
    offset := st.offset + length
    trace := st.trace.instruction st.offset op st.depth }

/-- Writes an instruction. -/
def emit (op : Opcode) (operand : op.shape.Operand) : Encode H Unit := do
  let bytes := (Instruction.mk op operand).bytes
  framed (Frame.Writer.write bytes)
  advance op bytes.length

/-- Writes an instruction whose payload stays out of frames if it is large. -/
def emitPayload (op : Opcode) (operand : op.shape.Operand) : Encode H Unit := do
  let i := Instruction.mk op operand
  if i.payload.length < frameSizeTarget then emit op operand
  else
    framed (Frame.Writer.writeLarge i.head i.payload)
    advance op (i.head.length + i.payload.length)

/-- Writes the same instruction without operand several times. -/
def emitTimes (count : Nat) (op : Opcode) (operand : op.shape.Operand) : Encode H Unit :=
  match count with
  | 0 => pure ()
  | count + 1 => do
    emit op operand
    emitTimes count op operand

/-- A number in decimal, as the operand of a line instruction. -/
def decimalLine (n : Int) : Bytes := Bytes.ascii (Digits.signedText n)

/-- Remembers the top of the reader's stack under an id. -/
def emitPut (p : Protocol) (id : Nat) : Encode H Unit :=
  if 4 ≤ p.val then emit .memoize ()
  else if p.isBinary then
    if id < 256 then emit .binPut (UInt8.ofNat id) else emit .longBinPut (UInt32.ofNat id)
  else emit .put (decimalLine id)

/-- Fetches what is remembered under an id. -/
def emitGet (p : Protocol) (id : Nat) : Encode H Unit :=
  if p.isBinary then
    if id < 256 then emit .binGet (UInt8.ofNat id) else emit .longBinGet (UInt32.ofNat id)
  else emit .get (decimalLine id)

/-- The memo id of something that was written. -/
def memoized (identity : Identity) : Encode H (Option Nat) := do
  pure (← get).memo[identity]?

/-- Gives the next memo id to something that was just written. -/
def memoizeAs (p : Protocol) (identity : Identity) : Encode H Unit := do
  let id := (← get).memo.size
  if id < 2 ^ 32 then
    modify fun st => { st with memo := st.memo.insert identity id }
    emitPut p id
  else fail .memoOverflow

/-- Gives the next memo id to a value that was just written, if the value is an object. -/
def memoize (p : Protocol) (v : Value) : Encode H Unit :=
  match v.identity? with
  | some id => memoizeAs p (.object id)
  | none => pure ()

/-- The memo id of a value that was written. -/
def memoizedValue (v : Value) : Encode H (Option Nat) :=
  match v.identity? with
  | some id => memoized (.object id)
  | none => pure none

end Encoder

end ObjectStream
