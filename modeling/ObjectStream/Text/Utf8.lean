import ObjectStream.Bytes

/-!
UTF-8: the bytes of a text, and the text of bytes.

`ofUtf8?` refuses bytes that are no UTF-8; `ofUtf8Lossy` shows every longest well-formed beginning
of a broken character as one replacement character. `ofUtf8?_utf8` says that a text reads back.
-/

namespace ObjectStream.Text

/-- The UTF-8 bytes of a text. -/
def utf8 (text : String) : Bytes :=
  text.toByteArray.data.toList

/-- The text whose UTF-8 bytes these are. -/
def ofUtf8? (bs : Bytes) : Option String :=
  String.fromUTF8? ⟨bs.toArray⟩

theorem ofUtf8?_utf8 (text : String) : ofUtf8? (utf8 text) = some text := by
  simp [ofUtf8?, utf8, String.fromUTF8?, String.fromUTF8, text.isValidUTF8]

/-- The character shown for bytes that are no UTF-8. -/
def replacement : Char := Char.ofNat 0xfffd

/-- Whether a byte continues a character. -/
def isContinuation (b : UInt8) : Bool :=
  0x80 ≤ b && b ≤ 0xbf

/-- Whether `b` may follow the first byte `lead` of a character of three or four bytes: it must not
    spell a number that a shorter form spells, a surrogate, or a number above U+10FFFF. -/
def mayFollow (lead b : UInt8) : Bool :=
  if lead = 0xe0 then 0xa0 ≤ b && b ≤ 0xbf
  else if lead = 0xed then 0x80 ≤ b && b ≤ 0x9f
  else if lead = 0xf0 then 0x90 ≤ b && b ≤ 0xbf
  else if lead = 0xf4 then 0x80 ≤ b && b ≤ 0x8f
  else isContinuation b

/-- The low six bits of a continuation byte. -/
def continuationBits (b : UInt8) : Nat := b.toNat % 64

/-- The first character of bytes that start with `lead`, and how many of the bytes behind `lead`
    belong to it. Bytes that break off are taken as far as they could begin a character. -/
def firstChar (lead : UInt8) (rest : Bytes) : Char × Nat :=
  if lead < 0x80 then (Char.ofNat lead.toNat, 0)
  else if 0xc2 ≤ lead && lead ≤ 0xdf then
    match rest with
    | b :: _ =>
      if isContinuation b then (Char.ofNat (lead.toNat % 32 * 64 + continuationBits b), 1)
      else (replacement, 0)
    | [] => (replacement, 0)
  else if 0xe0 ≤ lead && lead ≤ 0xef then
    match rest with
    | b :: c :: _ =>
      if !mayFollow lead b then (replacement, 0)
      else if isContinuation c then
        (Char.ofNat (lead.toNat % 16 * 4096 + continuationBits b * 64 + continuationBits c), 2)
      else (replacement, 1)
    | [b] => (replacement, if mayFollow lead b then 1 else 0)
    | [] => (replacement, 0)
  else if 0xf0 ≤ lead && lead ≤ 0xf4 then
    match rest with
    | b :: c :: d :: _ =>
      if !mayFollow lead b then (replacement, 0)
      else if !isContinuation c then (replacement, 1)
      else if isContinuation d then
        (Char.ofNat (lead.toNat % 8 * 262144 + continuationBits b * 4096 +
          continuationBits c * 64 + continuationBits d), 3)
      else (replacement, 2)
    | [b, c] =>
      (replacement, if !mayFollow lead b then 0 else if isContinuation c then 2 else 1)
    | [b] => (replacement, if mayFollow lead b then 1 else 0)
    | [] => (replacement, 0)
  else (replacement, 0)

/-- The characters of `bs` behind those already read, which stand in `read` in reverse. -/
def lossyFrom (read : List Char) : Bytes → List Char
  | [] => read.reverse
  | lead :: rest =>
    let (c, used) := firstChar lead rest
    lossyFrom (c :: read) (rest.drop used)
termination_by bs => bs.length
decreasing_by simp only [List.length_drop, List.length_cons]; omega

/-- The text of the bytes, with a replacement character for each part that is no UTF-8. -/
def ofUtf8Lossy (bs : Bytes) : String :=
  match ofUtf8? bs with
  | some text => text
  | none => String.ofList (lossyFrom [] bs)

end ObjectStream.Text
