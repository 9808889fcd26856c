import ObjectStream.Encoder.Basic
import ObjectStream.Number.FloatText
import ObjectStream.Text.RawUnicode

/-!
How atoms are written.

Each atom is written in the shortest form that its protocol has.
-/

namespace ObjectStream.Encoder

variable {H : Type}

/-- A truth value; the first protocols spell it as a number of two digits. -/
def saveBool (p : Protocol) (b : Bool) : Encode H Unit :=
  if 2 ≤ p.val then
    if b then emit .newTrue () else emit .newFalse ()
  else emit .int (Bytes.ascii (if b then "01" else "00"))

/-- The bytes of an integer behind their count. They never leave the frame. -/
def saveIntegerBytes (bytes : Bytes) : Encode H Unit :=
  if bytes.length < 256 then emit .long1 bytes
  else if bytes.length < 2 ^ 31 then emit .long4 bytes
  else fail (.tooLarge "int")

/-- An integer that a word holds. -/
def saveWord (p : Protocol) (n : Int64) : Encode H Unit :=
  let i := n.toInt
  if p.isBinary && 0 ≤ i && i < 2 ^ 8 then emit .binInt1 (UInt8.ofNat i.toNat)
  else if p.isBinary && 0 ≤ i && i < 2 ^ 16 then emit .binInt2 (UInt16.ofNat i.toNat)
  else if p.isBinary && -(2 ^ 31) ≤ i && i < 2 ^ 31 then emit .binInt (Int32.ofInt i)
  else if 2 ≤ p.val then saveIntegerBytes (TwosComplement.encodeWord n)
  else if -(2 ^ 31) ≤ i && i < 2 ^ 31 then emit .int (decimalLine i)
  else emit .long (decimalLine i ++ [0x4c])

/-- An integer of any size. -/
def saveLong (p : Protocol) (n : Int) : Encode H Unit :=
  if fitsWord n then saveWord p (Int64.ofInt n)
  else if 2 ≤ p.val then saveIntegerBytes (TwosComplement.encode n)
  else emit .long (decimalLine n ++ [0x4c])

/-- A double, in binary or as the shortest text that reads back. -/
def saveFloat (p : Protocol) (x : Double) : Encode H Unit :=
  if p.isBinary then emit .binFloat x else emit .float (Bytes.ascii x.lineText)

/-- A text. -/
def saveText (p : Protocol) (text : String) : Encode H Unit :=
  if !p.isBinary then emit .unicode (RawUnicode.lineOf text)
  else
    let bytes := Text.utf8 text
    if 4 ≤ p.val && bytes.length < 2 ^ 8 then emitPayload .shortBinUnicode bytes
    else if bytes.length < 2 ^ 32 then emitPayload .binUnicode bytes
    else if 4 ≤ p.val then emitPayload .binUnicode8 bytes
    else fail (.tooLarge "str")

/-- A byte string, in the protocols that have an instruction for it. -/
def saveBinary (p : Protocol) (bytes : Bytes) : Encode H Unit :=
  if bytes.length < 2 ^ 8 then emitPayload .shortBinBytes bytes
  else if bytes.length < 2 ^ 32 then emitPayload .binBytes bytes
  else if 4 ≤ p.val then emitPayload .binBytes8 bytes
  else fail (.tooLarge "bytes")

end ObjectStream.Encoder
