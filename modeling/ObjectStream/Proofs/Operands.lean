import ObjectStream.Decoder
import ObjectStream.Instruction

/-!
Handlers read the operands that the instruction table lays out.

The table gives every opcode the shape of its operand, and a listing reads operands by their shapes. A
decoder does not look at the table: the handler of an opcode reads what it needs. Both read the same
(`dispatch_eq`): a handler is the plan of the opcode's shape, answered from the input, followed by what
the instruction does with its operand (`execute`).
-/

namespace ObjectStream.Decoder

variable {H : Type}

/-- Answers a request from the input. -/
def answer (op : Opcode) {α : Type} : Request α → Decode H α
  | .done a => pure a
  | .fail cause => fail cause
  | .take count next => do
    let bs ← readExactly op count
    answer op (next bs)
  | .line next => do
    let line ← readLine op
    answer op (next line)

section
variable {α : Type} (cfg : Config H) (op : Opcode) (width : Nat)

theorem answer_line (next : Bytes → Decode H α) :
    (answer op (.line .done) >>= next) = readLine op >>= next := by
  simp only [answer, bind_assoc, pure_bind]

/-- A payload behind its count is read in two steps. -/
theorem answer_counted (next : Bytes → Decode H α) :
    (answer op (Request.counted width cfg.limits.maxFrameLength) >>= next) =
      (do
        let count ← readCount op width
        next (← readPayload cfg op count)) := by
  simp only [Request.counted, answer, readCount, readPayload, bind_assoc, pure_bind]
  refine bind_congr fun bs => ?_
  split
  · rfl
  · simp only [answer, bind_assoc, pure_bind]

/-- A negative count is refused before the payload is asked for. -/
theorem answer_countedSigned (next : Bytes → Decode H α) :
    (answer op (Request.countedSigned op cfg.limits.maxFrameLength) >>= next) =
      (do
        let count ← readSignedCount op
        next (← readPayload cfg op count)) := by
  simp only [Request.countedSigned, answer, readSignedCount, readCount, bind_assoc, pure_bind]
  refine bind_congr fun bs => ?_
  split
  · rfl
  · simp only [readPayload, pure_bind]
    split
    · rfl
    · simp only [answer, bind_assoc, pure_bind]

/-- Both lines of a name are decoded as they are read, so they can be decoded again behind it. -/
theorem answer_lines2 (next : String → String → Decode H α) :
    (answer op (Request.lines2 op true) >>= fun lines => do
        let module ← spelled (.badText op) (Text.ofUtf8? lines.1)
        let name ← spelled (.badText op) (Text.ofUtf8? lines.2)
        next module name) =
      (do
        let module ← readName op
        let name ← readName op
        next module name) := by
  simp only [Request.lines2, answer, readName, bind_assoc]
  refine bind_congr fun first => ?_
  cases module : Text.ofUtf8? first with
  | none => rfl
  | some module =>
    simp only [Bool.true_and, Option.isNone_some, Bool.false_eq_true, if_false, answer, spelled,
      pure_bind, bind_assoc]
    refine bind_congr fun second => ?_
    cases name : Text.ofUtf8? second with
    | none => rfl
    | some name =>
      simp only [Option.isNone_some, Bool.false_eq_true, if_false, answer, pure_bind, module, name]

end

variable [HostObject H] (cfg : Config H)

/-- A global named by two lines. -/
def lineGlobal (op : Opcode) (module name : Bytes) : Decode H Value := do
  let module ← spelled (.badText op) (Text.ofUtf8? module)
  let name ← spelled (.badText op) (Text.ofUtf8? name)
  findGlobal cfg module name

/-- What an instruction does once its operand is read. -/
def execute (op : Opcode) (operand : op.shape.Operand) : Decode H Unit := do
  match op, operand with
  | .proto, p => announce p
  | .frame, length => openFrame cfg length.toNat
  | .persId, line => push cfg (← persistentLineValue cfg line)
  | .int, line => push cfg (← lineValue .int line)
  | .binInt, n => push cfg (.int n.toInt64)
  | .binInt1, n => push cfg (.int (Int64.ofNat n.toNat))
  | .binInt2, n => push cfg (.int (Int64.ofNat n.toNat))
  | .long, line => push cfg (← longLineValue .long line)
  | .long1, bytes => push cfg (integerValue bytes)
  | .long4, bytes => push cfg (integerValue bytes)
  | .float, line => push cfg (← floatLineValue line)
  | .binFloat, x => push cfg (.float x)
  | .string, line => push cfg (← quotedLineValue cfg line)
  | .binString, raw => push cfg (← legacyString cfg .binString raw)
  | .shortBinString, raw => push cfg (← legacyString cfg .shortBinString raw)
  | .binBytes, payload => push cfg (.bytes payload)
  | .shortBinBytes, payload => push cfg (.bytes payload)
  | .binBytes8, payload => push cfg (.bytes payload)
  | .byteArray8, payload => pushNew cfg (.bytearray payload)
  | .unicode, line => push cfg (← escapedLineValue line)
  | .binUnicode, payload => push cfg (← payloadText .binUnicode payload)
  | .shortBinUnicode, payload => push cfg (← payloadText .shortBinUnicode payload)
  | .binUnicode8, payload => push cfg (← payloadText .binUnicode8 payload)
  | .global, (module, name) => push cfg (← lineGlobal cfg .global module name)
  | .ext1, code => pushExtension cfg .ext1 code.toNat
  | .ext2, code => pushExtension cfg .ext2 code.toNat
  | .ext4, code => pushSignedExtension cfg code
  | .inst, (module, name) =>
    let cls ← lineGlobal cfg .inst module name
    let args ← popMark .inst
    push cfg (← instantiateOrCall cfg .inst cls args.toList)
  | .get, line => fetchMemo cfg (← spelled (.badLiteral .get) (Literal.index? line))
  | .binGet, id => fetchMemo cfg id.toNat
  | .longBinGet, id => fetchMemo cfg id.toNat
  | .put, line => putMemo cfg .put (← spelled (.badLiteral .put) (Literal.index? line))
  | .binPut, id => putMemo cfg .binPut id.toNat
  | .longBinPut, id => putMemo cfg .longBinPut id.toNat
  -- the others have no operand, so their handlers read nothing
  | op, _ => dispatch cfg op

/-- The handler of an opcode reads the operand of its shape, and carries the instruction out. -/
theorem dispatch_eq (op : Opcode) :
    dispatch cfg op = answer op (Request.operand op cfg.limits.maxFrameLength true) >>=
      execute cfg op := by
  cases op with
  | long1 | shortBinString | shortBinBytes | shortBinUnicode => exact (answer_counted cfg _ 1 _).symm
  | binBytes | binUnicode => exact (answer_counted cfg _ 4 _).symm
  | binBytes8 | binUnicode8 | byteArray8 => exact (answer_counted cfg _ 8 _).symm
  | long4 | binString => exact (answer_countedSigned cfg _ _).symm
  | persId | int | long | float | string | unicode => exact (answer_line _ _).symm
  | get =>
    exact (bind_assoc (readLine .get) _ (fetchMemo cfg)).trans (answer_line .get _).symm
  | put =>
    exact (bind_assoc (readLine .put) _ (putMemo cfg .put)).trans (answer_line .put _).symm
  | global =>
    refine (answer_lines2 .global fun module name => do
      push cfg (← findGlobal cfg module name)).symm.trans (bind_congr fun lines => ?_)
    show _ = lineGlobal cfg .global lines.1 lines.2 >>= push cfg
    simp only [lineGlobal, bind_assoc]
  | inst =>
    refine (answer_lines2 .inst fun module name => do
      let cls ← findGlobal cfg module name
      let args ← popMark .inst
      push cfg (← instantiateOrCall cfg .inst cls args.toList)).symm.trans (bind_congr fun lines => ?_)
    show _ = lineGlobal cfg .inst lines.1 lines.2 >>= _
    simp only [lineGlobal, bind_assoc]
  | _ => rfl

/-- A step, with the operand read by its shape. -/
theorem step_eq : step cfg = (do
    let op ← readOpcode
    if op = .stop then some <$> pop .stop
    else
      let operand ← answer op (Request.operand op cfg.limits.maxFrameLength true)
      execute cfg op operand
      pure none) := by
  simp only [step, dispatch_eq, bind_assoc]

end ObjectStream.Decoder
