import ObjectStream.Bytes

/-!
Binary floating point numbers of 64 bits, as their bits.

A finite double is a whole number of at most 53 bits times a power of two. Comparison with
integers and rounding are exact arithmetic on those two parts.
-/

namespace ObjectStream

/-- A double, given by its sign, exponent and fraction bits. -/
structure Double where
  bits : UInt64
  deriving DecidableEq

namespace Double

/-- The sign bit. -/
def isNegative (x : Double) : Bool := 0x8000000000000000 ≤ x.bits

/-- The eleven exponent bits. -/
def exponentBits (x : Double) : Nat := x.bits.toNat / 2 ^ 52 % 2048

/-- The fifty-two fraction bits. -/
def fractionBits (x : Double) : Nat := x.bits.toNat % 2 ^ 52

/-- Neither infinite nor not-a-number. -/
def isFinite (x : Double) : Bool := x.exponentBits != 2047

/-- Not-a-number, with any payload. -/
def isNaN (x : Double) : Bool := x.exponentBits == 2047 && x.fractionBits != 0

/-- An infinity of either sign. -/
def isInfinite (x : Double) : Bool := x.exponentBits == 2047 && x.fractionBits == 0

/-- The whole number `m` of the magnitude `m * 2 ^ e`. -/
def significand (x : Double) : Nat :=
  if x.exponentBits = 0 then x.fractionBits else x.fractionBits + 2 ^ 52

/-- The exponent `e` of the magnitude `m * 2 ^ e`. -/
def scale (x : Double) : Int :=
  (max x.exponentBits 1 : Nat) - 1075

/-- A zero of either sign. -/
def isZero (x : Double) : Bool := x.exponentBits == 0 && x.fractionBits == 0

/-- Equality of numbers: not-a-number equals nothing and the two zeros are equal. -/
def same (x y : Double) : Bool :=
  !x.isNaN && !y.isNaN && (x == y || (x.isZero && y.isZero))

/-- The magnitude, if it is a whole number. -/
def wholeMagnitude? (x : Double) : Option Nat :=
  if !x.isFinite then none
  else if 0 ≤ x.scale then some (x.significand * 2 ^ x.scale.toNat)
  else
    let unit := 2 ^ (-x.scale).toNat
    if x.significand % unit = 0 then some (x.significand / unit) else none

/-- The integer that the double is, if it is one. -/
def toInt? (x : Double) : Option Int :=
  x.wholeMagnitude?.map fun n => if x.isNegative then -(n : Int) else n

/-- The sign bit of a negative number. -/
def signBits (negative : Bool) : Nat := if negative then 2 ^ 63 else 0

/-- The double with the magnitude `m * 2 ^ e`, where `m` has at most 53 bits, and exactly that many
    unless `e` is the least exponent; infinity if it is too large. A full significand carries its
    top bit into the exponent. -/
def pack (negative : Bool) (m : Nat) (e : Int) : Double :=
  let magnitude := (e + 1074).toNat * 2 ^ 52 + m
  ⟨UInt64.ofNat (signBits negative + min magnitude (2047 * 2 ^ 52))⟩

/-- The zero without sign. -/
def zero : Double := ⟨0⟩

/-- An infinity. -/
def infinity (negative : Bool) : Double :=
  ⟨UInt64.ofNat (signBits negative + 0x7ff0000000000000)⟩

/-- The not-a-number without a payload. -/
def quietNaN (negative : Bool) : Double :=
  ⟨UInt64.ofNat (signBits negative + 0x7ff8000000000000)⟩

/-- The double itself, where the not-a-number without a payload stands for all of them. -/
def settled (x : Double) : Double := if x.isNaN then quietNaN false else x

/-- A quotient rounded to the nearest whole number, a half to the even one. -/
def roundQuotient (num den : Nat) : Nat :=
  let q := num / den
  let twice := 2 * (num % den)
  if twice < den then q
  else if twice = den then q + q % 2
  else q + 1

/-- `num / den` times `2 ^ -e`, as a fraction. -/
def scaled (num den : Nat) (e : Int) : Nat × Nat :=
  if 0 ≤ e then (num, den * 2 ^ e.toNat) else (num * 2 ^ (-e).toNat, den)

/-- The exponent of the largest power of two that is not above `num / den`. -/
def binaryExponent (num den : Nat) : Int :=
  let guess : Int := (num.log2 : Int) - den.log2
  let (n, d) := scaled num den guess
  if d ≤ n then guess else guess - 1

/-- The double nearest to `num / den`, of two the one with the even significand. -/
def ofQuotient (negative : Bool) (num den : Nat) : Double :=
  if num = 0 then pack negative 0 (-1074)
  else
    let e := max (binaryExponent num den - 52) (-1074)
    let (n, d) := scaled num den e
    pack negative (roundQuotient n d) e

/-- The double nearest to an integer. -/
def ofInt (n : Int) : Double :=
  ofQuotient (n < 0) n.natAbs 1

/-- Whether one of the `count` words that `n` ends in has a bit among its lowest `low` bits. -/
def endsInBits (low : Nat) : (count n : Nat) → Bool
  | 0, _ => false
  | count + 1, n => n % 2 ^ low != 0 || endsInBits low count (n / 2 ^ 64)

/-- The first 64 bits of a number of more than 64 bits, at their place. The last of them is set as
    well if the words below the first have a bit that is looked at: in each word, as many low bits
    are as the first word has bits. -/
def leading (n : Nat) : Nat :=
  let below := n.log2 / 64
  let sticky := endsInBits (n.log2 % 64 + 1) below n
  let unit := 2 ^ (n.log2 - 63)
  (n / unit ||| sticky.toNat) * unit

/-- The double for an integer of any size. One of more than 64 bits is rounded from its first 64
    bits, one of them standing for the rest. -/
def ofWide (n : Int) : Double :=
  if n.natAbs < 2 ^ 64 then ofInt n
  else ofQuotient (n < 0) (leading n.natAbs) 1

/-- The eight bytes, most significant first. -/
def toBytes (x : Double) : Bytes := Bytes.ofNatBE 8 x.bits.toNat

/-- The double that eight bytes spell, most significant first. -/
def ofBytes (bs : Bytes) : Double := ⟨UInt64.ofNat bs.toNatBE⟩

end Double

end ObjectStream
