import ObjectStream.Bytes

/-!
Byte strings as text between quotes.

Two writers put a byte string into quotes: one with short escapes for newline, return and tab, one
that writes every control in hexadecimal. One reader takes both back. The reader also knows the
other short escapes and octal escapes, and keeps a backslash before any other character.
-/

namespace ObjectStream.ByteLiteral

/-- The bytes that show one byte inside quotes, where the common controls have short escapes. -/
def shortEscape (b : UInt8) : Bytes :=
  if b = 0x5c ∨ b = 0x27 then [0x5c, b]
  else if b = 0x0a then [0x5c, 0x6e]
  else if b = 0x0d then [0x5c, 0x72]
  else if b = 0x09 then [0x5c, 0x74]
  else if 0x20 ≤ b ∧ b ≤ 0x7e then [b]
  else [0x5c, 0x78] ++ Bytes.ascii (String.ofList (hexPadded 2 b.toNat))

/-- The bytes that show one byte inside quotes, where every control is written in hexadecimal. -/
def hexEscape (b : UInt8) : Bytes :=
  if b = 0x5c ∨ b = 0x27 then [0x5c, b]
  else if 0x20 ≤ b ∧ b ≤ 0x7e then [b]
  else [0x5c, 0x78] ++ Bytes.ascii (String.ofList (hexPadded 2 b.toNat))

/-- A text of ASCII bytes. -/
def asciiText (bs : Bytes) : String :=
  String.ofList (bs.map fun b => Char.ofNat b.toNat)

/-- The literal of a byte string, each byte written by `escape`. -/
def write (escape : UInt8 → Bytes) (bs : Bytes) : String :=
  "b'" ++ asciiText (bs.flatMap escape) ++ "'"

/-- The byte that a backslash and one letter or sign stand for. -/
def named? (b : UInt8) : Option UInt8 :=
  if b = 0x5c ∨ b = 0x27 ∨ b = 0x22 then some b
  else if b = 0x61 then some 0x07
  else if b = 0x62 then some 0x08
  else if b = 0x66 then some 0x0c
  else if b = 0x6e then some 0x0a
  else if b = 0x72 then some 0x0d
  else if b = 0x74 then some 0x09
  else if b = 0x76 then some 0x0b
  else none

/-- Whether a byte is an octal digit. -/
def isOctal (b : UInt8) : Bool := 0x30 ≤ b && b ≤ 0x37

/-- What the bytes behind a backslash stand for, and how many of them the escape takes. Fails at
    the end of the text and at an `x` that two hexadecimal digits do not follow. -/
def escape? : Bytes → Option (Bytes × Nat)
  | [] => none
  | b :: rest =>
    if b = 0x0a then some ([], 1)
    else if isOctal b then
      let digits := b :: (rest.take 2).takeWhile isOctal
      some ([UInt8.ofNat (digits.foldl (fun n d => 8 * n + (d.toNat - 0x30)) 0)], digits.length)
    else if b = 0x78 then
      match rest with
      | high :: low :: _ =>
        match hexValue? high, hexValue? low with
        | some h, some l => some ([UInt8.ofNat (16 * h + l)], 3)
        | _, _ => none
      | _ => none
    else match named? b with
      | some byte => some ([byte], 1)
      | none => some ([0x5c, b], 1)

/-- Reads on at `offset`; `read` holds the bytes read before, in reverse. A failure is the offset
    of its backslash. -/
def readFrom (offset : Nat) (read : Bytes) : Bytes → Except Nat Bytes
  | [] => .ok read.reverse
  | b :: rest =>
    if b = 0x5c then
      match escape? rest with
      | none => .error offset
      | some (bytes, used) => readFrom (offset + 1 + used) (bytes.reverse ++ read) (rest.drop used)
    else readFrom (offset + 1) (b :: read) rest
termination_by bs => bs.length
decreasing_by all_goals (simp only [List.length_drop, List.length_cons]; omega)

/-- The byte string that the text between the quotes stands for. -/
def read (text : Bytes) : Except Nat Bytes :=
  readFrom 0 [] text

end ObjectStream.ByteLiteral
