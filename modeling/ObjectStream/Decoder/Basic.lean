import ObjectStream.Frame.Reader
import ObjectStream.Number.Double
import ObjectStream.Registry
import ObjectStream.Trace

/-!
The state of a decoder, and its smallest steps: the operand stack, the memo and the input.

The decoder is a stack machine. A mark saves the operand stack and starts an empty one, and taking
the marked items restores the saved stack. The height of the stack counts the saved items too.
-/

namespace ObjectStream

/-- How the byte strings of the first three protocols are read. -/
inductive StringReading where
  /-- As text in this encoding. -/
  | text (encoding : Encoding)
  /-- As the bytes that they are. -/
  | bytes
  deriving DecidableEq

/-- The reading with this name: that of an encoding, or `bytes`. -/
def StringReading.ofName? (name : String) : Option StringReading :=
  if name = "bytes" then some .bytes else (Encoding.ofName? name).map .text

/-- The reading as shown to a reader. -/
def StringReading.shown : StringReading → String
  | .text .ascii => "Ascii"
  | .text .latin1 => "Latin1"
  | .text .utf8 => "Utf8"
  | .bytes => "Bytes"

namespace Decoder

/-- What a decoder is given before it reads anything. -/
structure Config (H : Type) where
  registry : Registry H
  host : Host H
  limits : Limits := {}
  strings : StringReading := .text .ascii
  /-- Whether the first three protocols may use the old spellings of global names. -/
  fixImports : Bool := true
  /-- Finds the value that is stored elsewhere under an id. -/
  persistentLoad : Option (Value → Action H Value) := none

/-- The machine that reads a stream. -/
structure State (H : Type) where
  input : Frame.Reader
  store : Store H
  memo : Std.HashMap Nat Value := ∅
  /-- The operand stack above the last mark, the top at the end. -/
  stack : Array Value := #[]
  /-- The stacks that the marks have saved, the last one first. -/
  marks : List (Array Value) := []
  /-- The number of saved items. -/
  marked : Nat := 0
  /-- The buffers that the stream may refer to, in order. -/
  buffers : Option (List Value) := none
  /-- The protocol that the stream has announced. -/
  protocol : Nat := 0
  /-- Whether a frame was reported and not closed yet. -/
  frameOpen : Bool := false
  trace : Trace := {}

/-- The number of items on the stack, saved ones included. -/
def State.height {H : Type} (st : State H) : Nat := st.stack.size + st.marked

end Decoder

/-- Reading, which changes the state of a decoder and may fail. -/
abbrev Decode (H α : Type) := EStateM Error (Decoder.State H) α

namespace Decoder

variable {H : Type}

/-- Fails for a cause. -/
def fail {α : Type} (cause : DecodeError) : Decode H α := throw (.decode cause)

/-- Reads from the input. -/
def reading {α : Type} (action : EStateM Error Frame.Reader α) : Decode H α := fun st =>
  match action st.input with
  | .ok a input => .ok a { st with input := input }
  | .error e input => .error e { st with input := input }

/-- Lets the host act on the store; a failure is handed back. -/
def hosted {α : Type} (action : Action H α) : Decode H (Except String α) := fun st =>
  let store := st.store
  let st : State H := { st with store := .empty }
  match action store with
  | .ok a store => .ok (.ok a) { st with store := store }
  | .error (.failed text) store => .ok (.error text) { st with store := store }
  | .error .endless store => .error .endless { st with store := store }

/-- Goes on with the outcome of using a value as a key. -/
def keyed {α : Type} : Except KeyError α → Decode H α
  | .ok a => pure a
  | .error (.unhashable typeName) => fail (.unhashable typeName)
  | .error .endless => throw .endless

/-- Makes a new object. -/
def alloc (cell : Cell H) : Decode H Value := do
  let id := (← get).store.size
  modify fun st => { st with store := st.store.push cell }
  pure (.ref id)

/-- Makes a tuple of the items. -/
def allocTuple (items : List Value) : Decode H Value :=
  match items with
  | [] => pure .emptyTuple
  | _ => alloc (.tuple items)

/-! ## The operand stack -/

/-- Puts a value on the stack. -/
def push (cfg : Config H) (v : Value) : Decode H Unit := do
  if cfg.limits.maxStack ≤ (← get).height then fail (.limitExceeded .stackHeight)
  modify fun st => { st with stack := st.stack.push v }

/-- Takes the top off the stack. -/
def pop (op : Opcode) : Decode H Value := do
  match (← get).stack.back? with
  | some v =>
    modify fun st => { st with stack := st.stack.pop }
    pure v
  | none => fail (.stackUnderflow op)

/-- The top of the stack. -/
def top (op : Opcode) : Decode H Value := do
  match (← get).stack.back? with
  | some v => pure v
  | none => fail (.stackUnderflow op)

/-- Replaces the top of the stack. -/
def replaceTop (op : Opcode) (v : Value) : Decode H Unit := do
  let _ ← top op
  modify fun st => { st with stack := st.stack.pop.push v }

/-- Takes items off the stack, one after the other, and puts each before those that are `taken`
    already. -/
def popOnto (op : Opcode) (taken : List Value) : (count : Nat) → Decode H (List Value)
  | 0 => pure taken
  | count + 1 => do popOnto op ((← pop op) :: taken) count

/-- Takes the last `count` items off the stack, the top at the end; nothing if there are fewer. -/
def popMany (op : Opcode) (count : Nat) : Decode H (List Value) := do
  if (← get).stack.size < count then fail (.stackUnderflow op)
  popOnto op [] count

/-- Saves the stack and starts an empty one. -/
def mark : Decode H Unit :=
  modify fun st => { st with
    marked := st.marked + st.stack.size
    marks := st.stack :: st.marks
    stack := #[] }

/-- Takes all items above the last mark, and restores the stack below it. -/
def popMark (op : Opcode) : Decode H (Array Value) := do
  let st ← get
  match st.marks with
  | [] => fail (.markNotFound op)
  | saved :: marks =>
    set { st with marked := st.marked - saved.size, marks := marks, stack := saved }
    pure st.stack

/-- The items of a sequence as keys and contents, one after the other. -/
def pairs (op : Opcode) : List Value → Except DecodeError (List (Value × Value))
  | items =>
    if items.length % 2 = 0 then .ok (go [] items) else .error (.stackUnderflow op)
where
  /-- Pairs up the items behind those that are paired already, which stand in reverse. -/
  go (paired : List (Value × Value)) : List Value → List (Value × Value)
    | key :: content :: rest => go ((key, content) :: paired) rest
    | _ => paired.reverse

/-! ## The memo -/

/-- Pushes the value that is remembered under an id. -/
def fetchMemo (cfg : Config H) (id : Nat) : Decode H Unit := do
  match (← get).memo[id]? with
  | some v => push cfg v
  | none => fail (.missingMemo id)

/-- Remembers the top of the stack under an id. -/
def putMemo (cfg : Config H) (op : Opcode) (id : Nat) : Decode H Unit := do
  let v ← top op
  let memo := (← get).memo
  if !memo.contains id && cfg.limits.maxMemo ≤ memo.size then fail (.limitExceeded .memoSize)
  modify fun st => { st with memo := st.memo.insert id v }

/-- Lets every memo entry that refers to an object refer to another value. -/
def replaceMemo (old : Nat) (new : Value) : Decode H Unit :=
  modify fun st => { st with
    memo := st.memo.map fun _ v => if v.identity? = some old then new else v }

/-! ## The input -/

/-- The offset of the next byte. -/
def position : Decode H Nat := do
  pure (← get).input.position

/-- Reads exactly `count` bytes of an operand. -/
def readExactly (op : Opcode) (count : Nat) : Decode H Bytes := do
  let bs ← reading (Frame.Reader.read count)
  if bs.length < count then fail (.truncated op)
  pure bs

/-- Reads a line of an operand, without its newline. -/
def readLine (op : Opcode) : Decode H Bytes := do
  let line ← reading Frame.Reader.readLine
  if line.getLast? = some 0x0a then pure line.dropLast else fail (.truncated op)

/-- Reads an unsigned byte. -/
def readWord8 (op : Opcode) : Decode H UInt8 := do
  pure (UInt8.ofNat (← readExactly op 1).toNatLE)

/-- Reads two bytes, unsigned, least significant first. -/
def readWord16 (op : Opcode) : Decode H UInt16 := do
  pure (UInt16.ofNat (← readExactly op 2).toNatLE)

/-- Reads four bytes, unsigned, least significant first. -/
def readWord32 (op : Opcode) : Decode H UInt32 := do
  pure (UInt32.ofNat (← readExactly op 4).toNatLE)

/-- Reads four bytes, two's complement, least significant first. -/
def readSigned32 (op : Opcode) : Decode H Int32 := do
  pure (UInt32.ofNat (← readExactly op 4).toNatLE).toInt32

/-- Reads eight bytes, unsigned, least significant first. -/
def readWord64 (op : Opcode) : Decode H UInt64 := do
  pure (UInt64.ofNat (← readExactly op 8).toNatLE)

/-- Reads eight bytes of a binary float, most significant first. -/
def readDouble (op : Opcode) : Decode H Double := do
  pure (Double.ofBytes (← readExactly op 8))

/-- Reads an unsigned count of `width` bytes. -/
def readCount (op : Opcode) (width : Nat) : Decode H Nat := do
  pure (← readExactly op width).toNatLE

/-- Reads a signed count of four bytes, which must not be negative. -/
def readSignedCount (op : Opcode) : Decode H Nat := do
  let count ← readCount op 4
  if 2 ^ 31 ≤ count then fail (.negativeLength op)
  pure count

/-- Reads a payload of `count` bytes, if the limits allow that many. -/
def readPayload (cfg : Config H) (op : Opcode) (count : Nat) : Decode H Bytes := do
  if cfg.limits.maxFrameLength < count then fail (.limitExceeded .operandLength)
  readExactly op count

/-! ## Reports -/

/-- Reports the beginning of a call. -/
def enterCall (label : String) : Decode H Unit :=
  modify fun st => { st with trace := st.trace.enter .call label st.input.position }

/-- Reports the end of a call. -/
def exitCall : Decode H Unit :=
  modify fun st => { st with trace := st.trace.exit .call st.input.position }

end Decoder

end ObjectStream
