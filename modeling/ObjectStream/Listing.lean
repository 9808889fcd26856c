import ObjectStream.Instruction
import ObjectStream.Number.FloatText
import ObjectStream.Number.TwosComplement
import ObjectStream.Text.ByteLiteral
import ObjectStream.Text.RawUnicode

/-!
Listings: the instructions of a stream one after the other, without carrying them out.

A frame is listed as an instruction, and the instructions inside it follow.
-/

namespace ObjectStream

/-- The input of a listing: the bytes not listed yet and the offset of the first of them. -/
structure Cursor where
  rest : Bytes
  offset : Nat := 0

/-- Answers a request from a byte string. Input that ends too soon truncates `op`. -/
def Cursor.answer (op : Opcode) {α : Type} : Cursor → Request α → Except Error (α × Cursor)
  | c, .done a => .ok (a, c)
  | _, .fail e => .error (.decode e)
  | c, .take n next =>
    let (got, rest) := c.rest.splitAt n
    if got.length < n then .error (.decode (.truncated op))
    else Cursor.answer op ⟨rest, c.offset + n⟩ (next got)
  | c, .line next =>
    let (got, rest) := Bytes.splitLine c.rest
    if got.getLast? = some 0x0a then
      Cursor.answer op ⟨rest, c.offset + got.length⟩ (next got.dropLast)
    else .error (.decode (.truncated op))

namespace Listing

/-- An operand as it is listed. -/
inductive Argument where
  | none
  | int (n : Int)
  | uint (n : Nat)
  /-- An integer with more bytes than a word has. -/
  | long (n : Int)
  | float (x : Double)
  | text (s : String)
  | global (module name : String)
  | bytes (bs : Bytes)
  deriving DecidableEq

/-- An integer payload. -/
def Argument.ofInteger (bs : Bytes) : Argument :=
  match TwosComplement.decodeWord? bs with
  | some n => .int n.toInt
  | Option.none => .long (TwosComplement.decode bs)

/-- A counted payload: text, an integer or plain bytes, as the opcode says. -/
def Argument.ofPayload (op : Opcode) (bs : Bytes) : Argument :=
  match op with
  | .long1 | .long4 => ofInteger bs
  | .shortBinUnicode | .binUnicode | .binUnicode8 => .text (Text.ofUtf8Lossy bs)
  | _ => .bytes bs

/-- A line: an escaped text for the opcode that has one, and otherwise its characters. -/
def Argument.ofLine (op : Opcode) (bs : Bytes) : Argument :=
  let escaped := if op = .unicode then RawUnicode.decode? bs else Option.none
  .text (escaped.getD (Text.ofUtf8Lossy bs))

/-- The operand of `op` as it is listed. -/
def Argument.ofOperand (op : Opcode) : (shape : Shape) → shape.Operand → Argument
  | .nothing, _ => .none
  | .word8, n => .uint n.toNat
  | .word16, n => .uint n.toNat
  | .signed32, n => .int n.toInt
  | .word32, n => .uint n.toNat
  | .word64, n => .uint n.toNat
  | .double, x => .float x
  | .line, bs => ofLine op bs
  | .lines2, (module, name) => .global (Text.ofUtf8Lossy module) (Text.ofUtf8Lossy name)
  | .counted8, bs => ofPayload op bs
  | .counted32, bs => ofPayload op bs
  | .countedSigned32, bs => ofPayload op bs
  | .counted64, bs => ofPayload op bs

/-- One listed instruction and the offset of its opcode byte. -/
structure Line where
  offset : Nat
  op : Opcode
  argument : Argument

/-- Lists on from the cursor, at most `fuel` instructions; `lines` are listed already, in reverse.
    A listing ends behind the first `STOP`. -/
def listFrom : (fuel : Nat) → Cursor → (lines : List Line) → Except Error (List Line)
  | 0, _, _ => .error .endOfInput
  | fuel + 1, c, lines =>
    match c.rest with
    | [] => .error .endOfInput
    | byte :: rest =>
      match Opcode.ofByte? byte with
      | none => .error (.decode (.unknownOpcode byte c.offset))
      | some op =>
        match Cursor.answer op ⟨rest, c.offset + 1⟩ (Request.operand op (2 ^ 64) false) with
        | .error e => .error e
        | .ok (operand, next) =>
          let lines := ⟨c.offset, op, .ofOperand op op.shape operand⟩ :: lines
          if op = .stop then .ok lines.reverse else listFrom fuel next lines

/-- The instructions of a stream up to and with its first `STOP`; bytes behind it do not matter. -/
def ofBytes (bs : Bytes) : Except Error (List Line) :=
  listFrom (bs.length + 1) ⟨bs, 0⟩ []

/-- Text filled up with blanks on its left. -/
def padLeft (width : Nat) (s : String) : String :=
  String.ofList (List.replicate (width - s.length) ' ') ++ s

/-- Text filled up with blanks on its right. -/
def padRight (width : Nat) (s : String) : String :=
  s ++ String.ofList (List.replicate (width - s.length) ' ')

/-- The operand as text. -/
def Argument.toText : Argument → String
  | .none => ""
  | .int n => toString n
  | .uint n => toString n
  | .long n => Digits.signedText n
  | .float x => x.text
  | .text s => Text.quoted s
  | .global module name => "'" ++ module ++ " " ++ name ++ "'"
  | .bytes bs => ByteLiteral.write ByteLiteral.hexEscape bs

/-- The opcode byte as a sign, or in hexadecimal if it has no visible sign. -/
def byteText (b : UInt8) : String :=
  if 0x21 ≤ b ∧ b ≤ 0x7e then padRight 4 (String.singleton (Char.ofNat b.toNat))
  else "\\x" ++ String.ofList (hexPadded 2 b.toNat)

/-- The instruction as text. -/
def Line.toText (line : Line) : String :=
  padLeft 5 (toString line.offset) ++ ": " ++ byteText line.op.byte ++ " " ++
    match line.argument with
    | .none => line.op.name
    | argument => padRight 16 line.op.name ++ " " ++ argument.toText

/-- The listing as text, one instruction on a line. -/
def render (lines : List Line) : String :=
  String.join (lines.map fun line => line.toText ++ "\n")

end Listing

end ObjectStream
