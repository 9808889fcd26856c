import ObjectStream.Decoder.Object
import ObjectStream.Number.FloatText
import ObjectStream.Text.ByteLiteral
import ObjectStream.Text.RawUnicode

/-!
The decoder: carrying out the instructions of a stream up to its `STOP`.

The handler of an opcode reads the operand itself, before it does anything else. Every step takes at
least the opcode byte from the input, so the number of bytes left bounds the number of steps.
-/

namespace ObjectStream.Decoder

variable {H : Type} [HostObject H] (cfg : Config H)

/-- Goes on with what a line or a payload spells. -/
def spelled {α : Type} (cause : DecodeError) : Option α → Decode H α
  | some a => pure a
  | none => fail cause

/-- Reads a line of a global name. -/
def readName (op : Opcode) : Decode H String := do
  spelled (.badText op) (Text.ofUtf8? (← readLine op))

/-- Reads a line with an unsigned decimal number. -/
def readDecimal (op : Opcode) : Decode H Nat := do
  spelled (.badLiteral op) (Literal.index? (← readLine op))

/-- Pushes a new object. -/
def pushNew (cell : Cell H) : Decode H Unit := do push cfg (← alloc cell)

/-- The items of a tuple that an instruction expects. -/
def tupleItems (op : Opcode) (v : Value) : Decode H (List Value) := do
  match (← get).store.tuple? v with
  | some items => pure items
  | none => fail (.wrongType op "tuple")

/-- The value of a byte string of the first three protocols. -/
def legacyString (op : Opcode) (raw : Bytes) : Decode H Value :=
  match cfg.strings with
  | .bytes => pure (.bytes raw)
  | .text encoding => do
    let text ← spelled (.badText op) (encoding.decode? raw)
    pure (.str text)

/-- The value of the bytes of an integer. -/
def integerValue (bytes : Bytes) : Value :=
  match TwosComplement.decodeWord? bytes with
  | some n => .int n
  | none => .ofInt (TwosComplement.decode bytes)

/-- The value of an integer line. Two of the lines spell truth values. -/
def lineValue (op : Opcode) (line : Bytes) : Decode H Value :=
  if line = [0x30, 0x30] then pure (.bool false)
  else if line = [0x30, 0x31] then pure (.bool true)
  else do
    let n ← spelled (.badLiteral op) (Literal.int? line)
    pure (.ofInt n)

/-- The value of a line with a long integer, which may end in an `L`. -/
def longLineValue (op : Opcode) (line : Bytes) : Decode H Value := do
  let digits := if line.getLast? = some 0x4c then line.dropLast else line
  let n ← spelled (.badLiteral op) (Literal.int? digits)
  pure (.ofInt n)

/-- What stands between the quotes of a line. -/
def unquoted? (line : Bytes) : Option Bytes :=
  match line with
  | quote :: rest =>
    if (quote = 0x22 ∨ quote = 0x27) ∧ rest.getLast? = some quote then some rest.dropLast else none
  | [] => none

/-- The text that a payload spells. -/
def payloadText (op : Opcode) (payload : Bytes) : Decode H Value := do
  let text ← spelled (.badText op) (Text.ofUtf8? payload)
  pure (.str text)

/-- The value of a line with a float. -/
def floatLineValue (line : Bytes) : Decode H Value := do
  let x ← spelled (.badLiteral .float) (Double.ofLine? line)
  pure (.float x)

/-- The value of a line with a quoted byte string. -/
def quotedLineValue (line : Bytes) : Decode H Value := do
  let quoted ← spelled (.badLiteral .string) (unquoted? line)
  let raw ← spelled (.badLiteral .string) (ByteLiteral.read quoted).toOption
  legacyString cfg .string raw

/-- The text of a line with escapes. -/
def escapedLineValue (line : Bytes) : Decode H Value := do
  let text ← spelled (.badText .unicode) (RawUnicode.decode? line)
  pure (.str text)

/-- The value that is stored elsewhere under the id of a line. -/
def persistentLineValue (line : Bytes) : Decode H Value := do
  let pid ← spelled (.badText .persId) (Encoding.ascii.decode? line)
  persistentLoad cfg (.str pid)

/-- Takes note of the protocol of the stream. -/
def announce (protocol : UInt8) : Decode H Unit := do
  if Protocol.highest.val < protocol.toNat then fail (.unsupportedProtocol protocol.toNat)
  modify fun st => { st with protocol := protocol.toNat }

/-- Pushes the global of an extension code, which must not be negative. -/
def pushSignedExtension (code : Int32) : Decode H Unit := do
  if Int32.toInt code < 0 then fail (.badLiteral .ext4)
  pushExtension cfg .ext4 (Int32.toInt code).toNat

/-- Loads a frame, and reports the end of the one before it and its beginning. -/
def openFrame (length : Nat) : Decode H Unit := do
  if cfg.limits.maxFrameLength < length then fail (.limitExceeded .frameLength)
  let place ← position
  reading (Frame.Reader.loadFrame length)
  modify fun st =>
    let trace := if st.frameOpen then st.trace.exit .frame place else st.trace
    { st with frameOpen := true, trace := trace.enter .frame "frame" place }

/-- Takes the next buffer that is supplied apart from the stream. -/
def nextBuffer : Decode H Value := do
  match (← get).buffers with
  | some (buffer :: rest) =>
    modify fun st => { st with buffers := some rest }
    pure buffer
  | _ => fail .noBuffers

/-- Turns a byte array on top of the stack into a byte string. -/
def freezeTop (op : Opcode) : Decode H Unit := do
  let v ← top op
  match (← get).store.cell? v with
  | some (.bytearray data) => replaceTop op (.bytes data)
  | _ => pure ()

/-- Pushes a tuple of the last items. -/
def pushShortTuple (op : Opcode) (length : Nat) : Decode H Unit := do
  let items ← popMany op length
  push cfg (← allocTuple items)

/-- Reads the operand of an opcode and carries the instruction out. -/
def dispatch (op : Opcode) : Decode H Unit := do
  match op with
  | .proto => announce (← readWord8 .proto)
  | .frame => openFrame cfg (← readWord64 .frame).toNat
  | .persId => push cfg (← persistentLineValue cfg (← readLine .persId))
  | .binPersId =>
    let pid ← pop .binPersId
    push cfg (← persistentLoad cfg pid)
  | .none => push cfg .none
  | .newFalse => push cfg (.bool false)
  | .newTrue => push cfg (.bool true)
  | .int => push cfg (← lineValue .int (← readLine .int))
  | .binInt => push cfg (.int (← readSigned32 .binInt).toInt64)
  | .binInt1 => push cfg (.int (Int64.ofNat (← readWord8 .binInt1).toNat))
  | .binInt2 => push cfg (.int (Int64.ofNat (← readWord16 .binInt2).toNat))
  | .long => push cfg (← longLineValue .long (← readLine .long))
  | .long1 =>
    let count ← readCount .long1 1
    push cfg (integerValue (← readPayload cfg .long1 count))
  | .long4 =>
    let count ← readSignedCount .long4
    push cfg (integerValue (← readPayload cfg .long4 count))
  | .float => push cfg (← floatLineValue (← readLine .float))
  | .binFloat => push cfg (.float (← readDouble .binFloat))
  | .string => push cfg (← quotedLineValue cfg (← readLine .string))
  | .binString =>
    let count ← readSignedCount .binString
    push cfg (← legacyString cfg .binString (← readPayload cfg .binString count))
  | .shortBinString =>
    let count ← readCount .shortBinString 1
    push cfg (← legacyString cfg .shortBinString (← readPayload cfg .shortBinString count))
  | .binBytes =>
    let count ← readCount .binBytes 4
    push cfg (.bytes (← readPayload cfg .binBytes count))
  | .shortBinBytes =>
    let count ← readCount .shortBinBytes 1
    push cfg (.bytes (← readPayload cfg .shortBinBytes count))
  | .binBytes8 =>
    let count ← readCount .binBytes8 8
    push cfg (.bytes (← readPayload cfg .binBytes8 count))
  | .byteArray8 =>
    let count ← readCount .byteArray8 8
    pushNew cfg (.bytearray (← readPayload cfg .byteArray8 count))
  | .unicode => push cfg (← escapedLineValue (← readLine .unicode))
  | .binUnicode =>
    let count ← readCount .binUnicode 4
    push cfg (← payloadText .binUnicode (← readPayload cfg .binUnicode count))
  | .shortBinUnicode =>
    let count ← readCount .shortBinUnicode 1
    push cfg (← payloadText .shortBinUnicode (← readPayload cfg .shortBinUnicode count))
  | .binUnicode8 =>
    let count ← readCount .binUnicode8 8
    push cfg (← payloadText .binUnicode8 (← readPayload cfg .binUnicode8 count))
  | .nextBuffer => push cfg (← nextBuffer)
  | .readOnlyBuffer => freezeTop .readOnlyBuffer
  | .emptyTuple => push cfg .emptyTuple
  | .tuple =>
    let items ← popMark .tuple
    push cfg (← allocTuple items.toList)
  | .tuple1 => pushShortTuple cfg .tuple1 1
  | .tuple2 => pushShortTuple cfg .tuple2 2
  | .tuple3 => pushShortTuple cfg .tuple3 3
  | .emptyList => pushNew cfg (.list #[])
  | .list =>
    let items ← popMark .list
    pushNew cfg (.list items)
  | .emptyDict => pushNew cfg (.dict .empty)
  | .dict =>
    let items ← popMark .dict
    match pairs .dict items.toList with
    | .error cause => fail cause
    | .ok entries =>
      let d ← keyed ((← get).store.dictOf entries)
      pushNew cfg (.dict d)
  | .emptySet => pushNew cfg (.set .empty)
  | .frozenSet =>
    let items ← popMark .frozenSet
    let members ← keyed ((← get).store.membersOf items.toList)
    pushNew cfg (.frozenset members)
  | .append =>
    let item ← pop .append
    appendItems .append #[item]
  | .appends =>
    let items ← popMark .appends
    appendItems .appends items
  | .setItem =>
    let content ← pop .setItem
    let key ← pop .setItem
    setItems .setItem [(key, content)]
  | .setItems =>
    let items ← popMark .setItems
    match pairs .setItems items.toList with
    | .error cause => fail cause
    | .ok entries => setItems .setItems entries
  | .addItems =>
    let items ← popMark .addItems
    addItems .addItems items.toList
  | .global =>
    let module ← readName .global
    let name ← readName .global
    push cfg (← findGlobal cfg module name)
  | .stackGlobal =>
    let name ← pop .stackGlobal
    let module ← pop .stackGlobal
    match module, name with
    | .str module, .str name => push cfg (← findGlobal cfg module name)
    | _, _ => fail (.wrongType .stackGlobal "str")
  | .ext1 => pushExtension cfg .ext1 (← readWord8 .ext1).toNat
  | .ext2 => pushExtension cfg .ext2 (← readWord16 .ext2).toNat
  | .ext4 => pushSignedExtension cfg (← readSigned32 .ext4)
  | .reduce =>
    let args ← pop .reduce
    let function ← pop .reduce
    let args ← tupleItems .reduce args
    push cfg (← call cfg .reduce function args)
  | .newObj =>
    let args ← pop .newObj
    let cls ← pop .newObj
    let args ← tupleItems .newObj args
    push cfg (← instantiate cfg cls args)
  | .newObjEx =>
    let keywords ← pop .newObjEx
    let args ← pop .newObjEx
    let cls ← pop .newObjEx
    let args ← tupleItems .newObjEx args
    let store := (← get).store
    match store.dict? keywords with
    | none => fail (.wrongType .newObjEx "dict")
    | some d =>
      if d.size != 0 && !isClass store cls then
        called cls (.error "keyword arguments are not supported")
      push cfg (← instantiate cfg cls args)
  | .obj =>
    let items ← popMark .obj
    match items.toList with
    | [] => fail (.stackUnderflow .obj)
    | cls :: args => push cfg (← instantiateOrCall cfg .obj cls args)
  | .inst =>
    let module ← readName .inst
    let name ← readName .inst
    let cls ← findGlobal cfg module name
    let args ← popMark .inst
    push cfg (← instantiateOrCall cfg .inst cls args.toList)
  | .build =>
    let state ← pop .build
    build cfg .build state
  | .mark => mark
  | .pop =>
    if (← get).stack.isEmpty then
      let _ ← popMark .pop
    else
      let _ ← pop .pop
  | .popMark =>
    let _ ← popMark .popMark
  | .dup => push cfg (← top .dup)
  | .get => fetchMemo cfg (← readDecimal .get)
  | .binGet => fetchMemo cfg (← readWord8 .binGet).toNat
  | .longBinGet => fetchMemo cfg (← readWord32 .longBinGet).toNat
  | .put => putMemo cfg .put (← readDecimal .put)
  | .binPut => putMemo cfg .binPut (← readWord8 .binPut).toNat
  | .longBinPut => putMemo cfg .longBinPut (← readWord32 .longBinPut).toNat
  | .memoize => putMemo cfg .memoize (← get).memo.size
  | .stop => pure ()

/-- Reads an opcode and reports it. -/
def readOpcode : Decode H Opcode := do
  let offset ← position
  match ← reading (Frame.Reader.read 1) with
  | [] => throw .endOfInput
  | byte :: _ =>
    match Opcode.ofByte? byte with
    | none => fail (.unknownOpcode byte offset)
    | some op =>
      modify fun st => { st with trace := st.trace.instruction offset op st.height }
      pure op

/-- Reads an instruction and carries it out. `STOP` hands back the value of the stream. -/
def step : Decode H (Option Value) := do
  let op ← readOpcode
  if op = .stop then some <$> pop .stop
  else
    dispatch cfg op
    pure none

/-- Carries out at most `fuel` instructions. -/
def run : (fuel : Nat) → Decode H Value
  | 0 => throw .endless
  | fuel + 1 => do
    match ← step cfg with
    | some v => pure v
    | none => run fuel

/-- Closes the report of a frame that is still open. -/
def closeFrame (st : State H) : State H :=
  if st.frameOpen then
    { st with frameOpen := false, trace := st.trace.exit .frame st.input.position }
  else st

/-- Reads one stream and hands back its value. The memo goes on from the streams before. -/
def load : Decode H Value := fun st =>
  let st := { st with stack := #[], marks := [], marked := 0, protocol := 0 }
  match run cfg (st.input.remaining + 1) st with
  | .ok v st => .ok v (closeFrame st)
  | .error e st => .error e (closeFrame st)

/-- A decoder that has read nothing. -/
def State.ofSource (store : Store H) (source : Source) (buffers : Option (List Value))
    (trace : Trace) : State H :=
  { input := .ofSource source, store, buffers, trace }

/-- The state after every memo entry is forgotten. -/
def State.clearMemo (st : State H) : State H := { st with memo := ∅ }

/-- A decoder as shown to a reader. -/
def State.shown (st : State H) (cfg : Config H) : String :=
  "Unpickler \x7b protocol: " ++ toString st.protocol ++ ", stack: " ++ toString st.stack.size ++
    ", marks: " ++ toString st.marks.length ++ ", memo: " ++ toString st.memo.size ++
    ", limits: " ++ cfg.limits.shown ++ ", string_encoding: " ++ cfg.strings.shown ++
    ", fix_imports: " ++ toString cfg.fixImports ++
    ", persistent_load: " ++ toString cfg.persistentLoad.isSome ++
    ", buffers: " ++ toString st.buffers.isSome ++ ", tracer: " ++ st.trace.text ++ ", .. \x7d"

/-- The value of a byte string that holds a stream, and the store with what was made. -/
def loads (cfg : Config H) (store : Store H) (bs : Bytes) : Except Error Value × Store H :=
  match load cfg (State.ofSource store (.ofBytes bs) none {}) with
  | .ok v st => (.ok v, st.store)
  | .error e st => (.error e, st.store)

end ObjectStream.Decoder
