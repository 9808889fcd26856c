import ObjectStream.Bytes

/-!
Text on one line: characters up to U+00FF are single bytes, others are written by their code point.

`lineOf` writes the text of a line-oriented instruction. It also escapes the backslash and the
characters that a reader of lines would stumble over. The reader takes backslashes in pairs, so an
escape begins only at a backslash that no backslash before it has taken.
-/

namespace ObjectStream.RawUnicode

/-- The escape that gives a character by its code point. -/
def codeEscape (c : Char) : Bytes :=
  if c.toNat < 0x10000 then [0x5c, 0x75] ++ Bytes.ascii (String.ofList (hexPadded 4 c.toNat))
  else [0x5c, 0x55] ++ Bytes.ascii (String.ofList (hexPadded 8 c.toNat))

/-- The bytes of one character. -/
def ofChar (c : Char) : Bytes :=
  if c.toNat < 0x100 then [UInt8.ofNat c.toNat] else codeEscape c

/-- The bytes of a text. -/
def encode (text : String) : Bytes :=
  text.toList.flatMap ofChar

/-- Whether a line must not hold the character as itself: the backslash, NUL, the two line ends
    and the end mark 0x1A. -/
def breaksLine (c : Char) : Bool :=
  c == '\\' || c == '\x00' || c == '\n' || c == '\r' || c == '\x1a'

/-- The bytes of one character on a line. -/
def lineChar (c : Char) : Bytes :=
  if breaksLine c then codeEscape c else ofChar c

/-- The bytes of a text on a line, without the newline at its end. -/
def lineOf (text : String) : Bytes :=
  text.toList.flatMap lineChar

/-- The number that `count` hexadecimal digits at the front spell, and the bytes behind them. -/
def hexRun? : (count value : Nat) → Bytes → Option (Nat × Bytes)
  | 0, value, rest => some (value, rest)
  | _ + 1, _, [] => none
  | count + 1, value, b :: rest =>
    match hexValue? b with
    | some digit => hexRun? count (16 * value + digit) rest
    | none => none

theorem hexRun?_length {count value n : Nat} {bs rest : Bytes}
    (h : hexRun? count value bs = some (n, rest)) : rest.length + count = bs.length := by
  induction count generalizing value bs with
  | zero => simp only [hexRun?, Option.some.injEq, Prod.mk.injEq] at h; simp [h.2]
  | succ c ih =>
    cases bs with
    | nil => simp [hexRun?] at h
    | cons b r =>
      simp only [hexRun?] at h
      split at h
      · have := ih h
        simp only [List.length_cons]
        omega
      · cases h

/-- The character of a code point. -/
def char? (n : Nat) : Option Char :=
  if n.isValidChar then some (Char.ofNat n) else none

/-- Reads on; `read` holds the characters read before, in reverse. -/
def decodeFrom (read : List Char) : Bytes → Option (List Char)
  | [] => some read.reverse
  | [b] => some (Char.ofNat b.toNat :: read).reverse
  | b :: next :: rest =>
    if b = 0x5c ∧ next = 0x5c then decodeFrom ('\\' :: '\\' :: read) rest
    else if b = 0x5c ∧ (next = 0x75 ∨ next = 0x55) then
      match h : hexRun? (if next = 0x75 then 4 else 8) 0 rest with
      | none => none
      | some (code, rest') =>
        match char? code with
        | none => none
        | some c =>
          have : rest'.length ≤ rest.length := by have := hexRun?_length h; omega
          decodeFrom (c :: read) rest'
    else decodeFrom (Char.ofNat b.toNat :: read) (next :: rest)
termination_by bs => bs.length
decreasing_by all_goals (simp only [List.length_cons]; omega)

/-- The text that the bytes spell; fails at an escape that is cut short or names no character. -/
def decode? (bs : Bytes) : Option String :=
  (decodeFrom [] bs).map String.ofList

end ObjectStream.RawUnicode
