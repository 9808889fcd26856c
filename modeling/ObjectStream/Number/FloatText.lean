import ObjectStream.Number.Decimal
import ObjectStream.Number.Literal

/-!
Doubles as text.

Two layouts write the shortest decimal of a double. The line layout is that of the text protocol:
positional for exponents from -4 to 15, else with a signed exponent of at least two digits. The
plain layout shows doubles to a reader: positional for magnitudes from 10^-4 below 10^16, else with
a bare exponent. One reader takes both.
-/

namespace ObjectStream

namespace Decimal

/-- Positional notation, with at least one digit on each side of the point. -/
def positional (x : Decimal) : List Char :=
  let point := x.exponent + 1
  if point ≤ 0 then ['0', '.'] ++ List.replicate (-point).toNat '0' ++ x.digits
  else
    let whole := point.toNat
    if x.digits.length ≤ whole then
      x.digits ++ List.replicate (whole - x.digits.length) '0' ++ ['.', '0']
    else x.digits.take whole ++ '.' :: x.digits.drop whole

/-- The digits of scientific notation; the point stands only before further digits. -/
def mantissa (x : Decimal) : List Char :=
  match x.digits with
  | [] => []
  | [d] => [d]
  | d :: rest => d :: '.' :: rest

/-- The decimal digits of `n`, at least two. -/
def twoDigits (n : Nat) : List Char :=
  if n < 10 then '0' :: Nat.toDigits 10 n else Nat.toDigits 10 n

/-- The line layout. -/
def lineText (x : Decimal) : List Char :=
  if -4 ≤ x.exponent ∧ x.exponent < 16 then x.positional
  else x.mantissa ++ ['e', if x.exponent < 0 then '-' else '+'] ++ twoDigits x.exponent.natAbs

/-- The plain layout. -/
def plainText (x : Decimal) : List Char :=
  if -4 ≤ x.exponent ∧ x.exponent < 16 then x.positional
  else x.mantissa ++ 'e' :: (toString x.exponent).toList

end Decimal

namespace Double

/-- The shortest decimal of the magnitude of a finite double. -/
def decimal (x : Double) : Decimal := Decimal.shortest x.significand x.scale

/-- A minus sign for negative doubles, and otherwise `plus`. -/
def signText (x : Double) (plus : List Char) : List Char :=
  if x.isNegative then ['-'] else plus

/-- The double on a line of the text protocol. -/
def lineText (x : Double) : String :=
  if x.isNaN then "nan"
  else if x.isInfinite then String.ofList (x.signText [] ++ ['i', 'n', 'f'])
  else String.ofList (x.signText [] ++ x.decimal.lineText)

/-- The double as shown to a reader, with `plus` before numbers that are not negative. -/
def textWith (plus : List Char) (x : Double) : String :=
  if x.isNaN then "NaN"
  else if x.isInfinite then String.ofList (x.signText plus ++ ['i', 'n', 'f'])
  else String.ofList (x.signText plus ++ x.decimal.plainText)

/-- The double as shown to a reader. -/
def text (x : Double) : String := x.textWith []

/-- The double as shown to a reader, always with a sign. -/
def signedText (x : Double) : String := x.textWith ['+']

/-- Splits a text behind the decimal digits at its front. -/
def splitDigits (text : List Char) : List Char × List Char :=
  text.span Char.isDigit

/-- The number that decimal digits spell. -/
def digitsValue (digits : List Char) : Nat :=
  Digits.value 10 (digits.reverse.map fun c => c.toNat - 48)

/-- The number that the digits of an exponent spell. Digits behind a number of 65536 or more are
    skipped: such an exponent is out of range for any mantissa of ordinary length. -/
def exponentValue (digits : List Char) : Nat :=
  digits.foldl (fun n c => if n < 65536 then 10 * n + (c.toNat - 48) else n) 0

/-- The exponent behind the mantissa: nothing, or an `e`, an optional sign and digits. -/
def readExponent? : List Char → Option Int
  | [] => some 0
  | c :: rest =>
    if c = 'e' ∨ c = 'E' then
      let (negative, digits) := match rest with
        | '-' :: r => (true, r)
        | '+' :: r => (false, r)
        | r => (false, r)
      match splitDigits digits with
      | ([], _) => none
      | (ds, []) => some (if negative then -(exponentValue ds : Int) else exponentValue ds)
      | _ => none
    else none

/-- The double nearest to the number that the digits spell, the first of them not zero, times
    `10 ^ exponent`. Beyond the range of doubles the power is not formed. -/
def ofDigits (negative : Bool) (digits : List Char) (exponent : Int) : Double :=
  if digits.isEmpty then pack negative 0 (-1074)
  else if 400 < exponent + digits.length then infinity negative
  else if exponent + digits.length < -400 then pack negative 0 (-1074)
  else
    let (n, d) := Decimal.powerOfTen exponent
    ofQuotient negative (digitsValue digits * n) d

/-- A decimal number without sign: digits with a point somewhere among them, and an exponent. -/
def readUnsigned? (negative : Bool) (text : List Char) : Option Double := do
  let (whole, rest) := splitDigits text
  let (fraction, rest) := match rest with
    | '.' :: r => splitDigits r
    | r => ([], r)
  let digits := whole ++ fraction
  if digits.isEmpty then none
  else
    let exponent ← readExponent? rest
    some (ofDigits negative (digits.dropWhile (· == '0')) (exponent - fraction.length))

/-- The double of a text: a number, an infinity or not-a-number, with an optional sign. The case of
    letters does not matter. -/
def ofText? (text : List Char) : Option Double :=
  let (negative, body) := match text with
    | '-' :: r => (true, r)
    | '+' :: r => (false, r)
    | r => (false, r)
  let word := String.ofList (body.map Char.toLower)
  if word = "nan" then some (quietNaN negative)
  else if word = "inf" ∨ word = "infinity" then some (infinity negative)
  else readUnsigned? negative body

/-- The double that a line spells; blanks around it are skipped. -/
def ofLine? (line : Bytes) : Option Double :=
  Literal.trimmed? line >>= ofText?

end Double

end ObjectStream
