import ObjectStream.Bytes

/-!
Byte strings in hexadecimal: two lower-case digits for each byte.
-/

namespace ObjectStream.Bytes

/-- The digits of the bytes. -/
def toHex (bs : Bytes) : String :=
  bs.foldl (fun s b => (s.push (hexDigit (b.toNat / 16))).push (hexDigit (b.toNat % 16))) ""

/-- The bytes that pairs of digits spell, behind those read before, which stand in reverse. -/
def ofDigits? (read : Bytes) : List Char → Option Bytes
  | high :: low :: rest =>
    match hexValue? (UInt8.ofNat high.toNat), hexValue? (UInt8.ofNat low.toNat) with
    | some h, some l => ofDigits? (UInt8.ofNat (16 * h + l) :: read) rest
    | _, _ => none
  | [_] => none
  | [] => some read.reverse

/-- The bytes that a text spells. -/
def ofHex? (text : String) : Option Bytes := ofDigits? [] text.toList

end ObjectStream.Bytes
