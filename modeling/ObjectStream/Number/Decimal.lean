import ObjectStream.Number.Double

/-!
The shortest decimal of a double.

A decimal in scientific form is a string of digits, the first of them before the point, and a power
of ten. The shortest decimal of a double is the one with the fewest digits among those that lie in
the interval of the numbers that round to the double, and of those the nearest to it.
-/

namespace ObjectStream

/-- The number `d.ddd * 10 ^ exponent` with the digits `ddd…`, the first not zero. -/
structure Decimal where
  digits : List Char
  exponent : Int

namespace Decimal

/-- The magnitudes that round to one double: a fraction `num / den` of that double, and the ends
    `low / den` and `high / den`, which belong to the interval if `closed`. -/
structure Interval where
  low : Nat
  num : Nat
  high : Nat
  den : Nat
  closed : Bool

/-- The interval of the double with magnitude `m * 2 ^ e`. Below a power of two the doubles lie
    closer together. -/
def intervalOf (m : Nat) (e : Int) : Interval :=
  let (up, down) : Nat × Nat := if 0 ≤ e - 2 then (2 ^ (e - 2).toNat, 1) else (1, 2 ^ (2 - e).toNat)
  let below := if m = 2 ^ 52 ∧ -1074 < e then 1 else 2
  ⟨(4 * m - below) * up, 4 * m * up, (4 * m + 2) * up, down, m % 2 = 0⟩

/-- Whether `n / d` lies in the interval. -/
def Interval.has (i : Interval) (n d : Nat) : Bool :=
  if i.closed then i.low * d ≤ n * i.den && n * i.den ≤ i.high * d
  else i.low * d < n * i.den && n * i.den < i.high * d

/-- `10 ^ e` as a fraction. -/
def powerOfTen (e : Int) : Nat × Nat :=
  if 0 ≤ e then (10 ^ e.toNat, 1) else (1, 10 ^ (-e).toNat)

/-- Whether `10 ^ e` is at most `num / den`. -/
def reaches (num den : Nat) (e : Int) : Bool :=
  let (n, d) := powerOfTen e
  n * den ≤ num * d

/-- The exponent of the largest power of ten that is not above `num / den`. The guess from the
    binary exponent is at most two too small. -/
def decimalExponent (num den : Nat) : Int :=
  let guess := Int.fdiv ((Double.binaryExponent num den - 1) * 30103) 100000
  let next := if reaches num den (guess + 1) then guess + 1 else guess
  if reaches num den (next + 1) then next + 1 else next

/-- The multiple of the grid `10 ^ g` that lies in the interval next to its double, if one does.
    Of two the nearer is taken, at the same distance the larger. -/
def onGrid? (i : Interval) (g : Int) : Option Nat :=
  let (n, d) := powerOfTen g
  let below := i.num * d / (i.den * n)
  let above := below + 1
  match i.has (below * n) d, i.has (above * n) d with
  | false, false => none
  | true, false => some below
  | false, true => some above
  | true, true =>
    if 2 * i.num * d < (below + above) * n * i.den then some below else some above

/-- The multiple in the interval on the coarsest grid that has one, and the number of places of that
    grid; searches the grids of `places` places and finer, `fuel` more of them. -/
def search (i : Interval) (exponent : Int) : (fuel places : Nat) → Nat × Nat
  | 0, places =>
    let (n, d) := powerOfTen (exponent - places + 1)
    (i.num * d / (i.den * n), places)
  | fuel + 1, places =>
    match onGrid? i (exponent - places + 1) with
    | some count => (count, places)
    | none => search i exponent fuel (places + 1)

/-- Digits without the zeros at their end; the first digit stays. -/
def dropFinalZeros (digits : List Char) : List Char :=
  match (digits.reverse.dropWhile (· == '0')).reverse with
  | [] => digits.take 1
  | kept => kept

/-- The shortest decimal of the double with magnitude `m * 2 ^ e`. Zero is `0 * 10 ^ 0`. A count
    with a digit more than its grid has places was carried into the next power of ten. -/
def shortest (m : Nat) (e : Int) : Decimal :=
  if m = 0 then ⟨['0'], 0⟩
  else
    let i := intervalOf m e
    let exponent := decimalExponent i.num i.den
    let (count, places) := search i exponent 17 1
    let digits := Nat.toDigits 10 count
    ⟨dropFinalZeros digits, exponent + digits.length - places⟩

end Decimal

end ObjectStream
