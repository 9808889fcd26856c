import ObjectStream.Number.Digits
import ObjectStream.Text.Blank
import ObjectStream.Text.Utf8

/-!
Decimal literals of whole numbers.

A literal stands on a line of its own and may have blanks around it. An integer is an optional
sign, a digit, and then digits and underscores; an index is an optional plus sign and digits.
-/

namespace ObjectStream.Literal

/-- The value of a decimal digit. -/
def digit? (c : Char) : Option Nat :=
  if c.isDigit then some (c.toNat - 48) else none

/-- The digits of a text, the last one first, behind the digits `before` it. Underscores count for
    nothing. -/
def digitsBehind? (before : List Nat) : List Char → Option (List Nat)
  | [] => some before
  | c :: rest =>
    if c = '_' then digitsBehind? before rest
    else match digit? c with
      | some d => digitsBehind? (d :: before) rest
      | none => none

/-- A number that begins with a digit. -/
def unsigned? : List Char → Option Nat
  | [] => none
  | c :: rest =>
    match digit? c with
    | some d => (digitsBehind? [d] rest).map (Digits.value 10)
    | none => none

/-- A number with an optional sign. -/
def signed? : List Char → Option Int
  | '-' :: rest => (unsigned? rest).map fun n => -(n : Int)
  | '+' :: rest => (unsigned? rest).map Int.ofNat
  | text => (unsigned? text).map Int.ofNat

/-- The characters of a line without the blanks around them. -/
def trimmed? (line : Bytes) : Option (List Char) :=
  (Text.ofUtf8? line).map fun text => Text.trim text.toList

/-- The integer that a line spells. -/
def int? (line : Bytes) : Option Int :=
  trimmed? line >>= signed?

/-- The index below `2^64` that a line spells. -/
def index? (line : Bytes) : Option Nat := do
  let text ← trimmed? line
  let digits := match text with
    | '+' :: rest => rest
    | _ => text
  if digits.contains '_' then none
  else
    let n ← unsigned? digits
    if n < 2 ^ 64 then some n else none

end ObjectStream.Literal
