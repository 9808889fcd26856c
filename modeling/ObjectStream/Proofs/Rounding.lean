import Mathlib.Algebra.Order.Field.Power
import Mathlib.Tactic.FieldSimp
import Mathlib.Tactic.Linarith
import Mathlib.Tactic.Positivity
import Mathlib.Tactic.Ring
import ObjectStream.Number.Decimal

/-!
Rounding to doubles.

A fraction that lies in the interval of a double is rounded to that double (`ofQuotient_eq`). The
interval ends half way to the neighbours; below a power of two the lower neighbour is nearer, and a
fraction between the two is rounded at the finer grid and carried up.
-/

namespace ObjectStream

namespace Double

/-! ## Parts of a double -/

section
variable {x : Double}

theorem fractionBits_lt (x : Double) : x.fractionBits < 2 ^ 52 := Nat.mod_lt _ (by decide)

theorem exponentBits_lt (finite : x.isFinite = true) : x.exponentBits < 2047 := by
  have bound : x.exponentBits < 2048 := Nat.mod_lt _ (by decide)
  simp only [isFinite, bne_iff_ne, ne_eq] at finite
  omega

theorem bits_eq (x : Double) :
    x.bits.toNat = signBits x.isNegative + x.exponentBits * 2 ^ 52 + x.fractionBits := by
  have bound := x.bits.toNat_lt
  simp only [isNegative, exponentBits, fractionBits, signBits, UInt64.le_iff_toNat_le, decide_eq_true_eq,
    show (0x8000000000000000 : UInt64).toNat = 2 ^ 63 from rfl]
  split <;> omega

/-- A significand and a scale that a finite double can have. -/
structure Fits (m : Nat) (e : Int) : Prop where
  small : m < 2 ^ 53
  least : -1074 ≤ e
  most : e ≤ 971
  full : 2 ^ 52 ≤ m ∨ e = -1074

theorem fits_parts (finite : x.isFinite = true) : Fits x.significand x.scale := by
  have fraction := x.fractionBits_lt
  have exponent := exponentBits_lt finite
  simp only [significand, scale]
  split
  · next least => exact ⟨by omega, by omega, by omega, .inr (by omega)⟩
  · exact ⟨by omega, by omega, by omega, .inl (by omega)⟩

/-- The parts of a finite double make it up again. -/
theorem pack_parts (finite : x.isFinite = true) :
    pack x.isNegative x.significand x.scale = x := by
  have fraction := x.fractionBits_lt
  have exponent := exponentBits_lt finite
  have magnitude : (x.scale + 1074).toNat * 2 ^ 52 + x.significand =
      x.exponentBits * 2 ^ 52 + x.fractionBits := by
    simp only [significand, scale]
    split <;> omega
  obtain ⟨bits⟩ := x
  simp only [pack, mk.injEq]
  rw [magnitude, Nat.min_eq_left (by omega), ← Nat.add_assoc, ← bits_eq, UInt64.ofNat_toNat]

/-- A full significand is carried into the exponent. -/
theorem pack_carry (negative : Bool) {e : Int} (least : -1074 ≤ e) :
    pack negative (2 ^ 53) e = pack negative (2 ^ 52) (e + 1) := by
  have same : (e + 1074).toNat * 2 ^ 52 + 2 ^ 53 = (e + 1 + 1074).toNat * 2 ^ 52 + 2 ^ 52 := by
    have : (e + 1 + 1074).toNat = (e + 1074).toNat + 1 := by omega
    omega
  rw [pack, pack, same]

end

/-! ## Quotients -/

section
variable {num den : Nat}

/-- The fraction is scaled exactly. -/
theorem scaled_eq (num : Nat) (positive : 0 < den) (e : Int) :
    0 < (scaled num den e).2 ∧
      ((scaled num den e).1 : ℚ) / (scaled num den e).2 = num / den * 2 ^ (-e) := by
  unfold scaled
  split
  · next h =>
    refine ⟨by positivity, ?_⟩
    obtain ⟨k, rfl⟩ := Int.eq_ofNat_of_zero_le h
    simp only [Int.toNat_natCast, Nat.cast_mul, Nat.cast_pow, Nat.cast_ofNat, zpow_neg, zpow_natCast]
    rw [div_mul_eq_div_div, div_eq_mul_inv _ ((2 : ℚ) ^ k)]
  · next h =>
    refine ⟨positive, ?_⟩
    obtain ⟨k, hk⟩ := Int.eq_ofNat_of_zero_le (show 0 ≤ -e by omega)
    simp only [hk, Int.toNat_natCast, Nat.cast_mul, Nat.cast_pow, Nat.cast_ofNat, zpow_natCast]
    rw [mul_div_right_comm]

theorem two_zpow_pos (e : Int) : (0 : ℚ) < 2 ^ e := by positivity

theorem two_zpow_add (a b : Int) : (2 : ℚ) ^ (a + b) = 2 ^ a * 2 ^ b :=
  zpow_add₀ (by norm_num) a b

theorem log2_bounds (positive : 0 < num) :
    (2 : ℚ) ^ (num.log2 : Int) ≤ num ∧ (num : ℚ) < 2 ^ ((num.log2 : Int) + 1) := by
  constructor
  · exact_mod_cast Nat.log2_self_le positive.ne'
  · exact_mod_cast Nat.lt_log2_self (n := num)

/-- The binary exponent is that of the largest power of two that is not above the fraction. -/
theorem binaryExponent_bounds (top : 0 < num) (bottom : 0 < den) :
    (2 : ℚ) ^ binaryExponent num den ≤ num / den ∧
      (num : ℚ) / den < 2 ^ (binaryExponent num den + 1) := by
  obtain ⟨low, high⟩ := log2_bounds top
  obtain ⟨low', high'⟩ := log2_bounds bottom
  have den_pos : (0 : ℚ) < den := by exact_mod_cast bottom
  obtain ⟨positive, same⟩ := scaled_eq num bottom ((num.log2 : Int) - den.log2)
  have above : (2 : ℚ) ^ ((num.log2 : Int) - den.log2 - 1) ≤ num / den := by
    rw [le_div_iff₀ den_pos]
    refine le_trans ?_ low
    calc (2 : ℚ) ^ ((num.log2 : Int) - den.log2 - 1) * den
        ≤ 2 ^ ((num.log2 : Int) - den.log2 - 1) * 2 ^ ((den.log2 : Int) + 1) :=
          mul_le_mul_of_nonneg_left high'.le (two_zpow_pos _).le
      _ = 2 ^ (num.log2 : Int) := by rw [← two_zpow_add]; congr 1; ring
  have below : (num : ℚ) / den < 2 ^ ((num.log2 : Int) - den.log2 + 1) := by
    rw [div_lt_iff₀ den_pos]
    refine lt_of_lt_of_le high ?_
    calc (2 : ℚ) ^ ((num.log2 : Int) + 1)
        = 2 ^ ((num.log2 : Int) - den.log2 + 1) * 2 ^ (den.log2 : Int) := by
          rw [← two_zpow_add]; congr 1; ring
      _ ≤ 2 ^ ((num.log2 : Int) - den.log2 + 1) * den :=
          mul_le_mul_of_nonneg_left low' (two_zpow_pos _).le
  have positive' : (0 : ℚ) < (scaled num den ((num.log2 : Int) - den.log2)).2 := by
    exact_mod_cast positive
  simp only [binaryExponent]
  split
  · next enough =>
    refine ⟨?_, below⟩
    have one : (1 : ℚ) ≤ num / den * 2 ^ (-((num.log2 : Int) - den.log2)) := by
      rw [← same, le_div_iff₀ positive', one_mul]
      exact_mod_cast enough
    rwa [zpow_neg, ← div_eq_mul_inv, le_div_iff₀ (two_zpow_pos _), one_mul] at one
  · next short =>
    refine ⟨above, ?_⟩
    have one : (num : ℚ) / den * 2 ^ (-((num.log2 : Int) - den.log2)) < 1 := by
      rw [← same, div_lt_iff₀ positive', one_mul]
      exact_mod_cast Nat.lt_of_not_le short
    rw [zpow_neg, ← div_eq_mul_inv, div_lt_iff₀ (two_zpow_pos _), one_mul] at one
    rwa [sub_add_cancel]

/-- Only one exponent has its power of two that near. -/
theorem binaryExponent_eq {b : Int} (top : 0 < num) (bottom : 0 < den)
    (low : (2 : ℚ) ^ b ≤ num / den) (high : (num : ℚ) / den < 2 ^ (b + 1)) :
    binaryExponent num den = b := by
  obtain ⟨low', high'⟩ := binaryExponent_bounds top bottom
  have one : (1 : ℚ) < 2 := by norm_num
  have less := (zpow_lt_zpow_iff_right₀ one).1 (lt_of_le_of_lt low high')
  have less' := (zpow_lt_zpow_iff_right₀ one).1 (lt_of_le_of_lt low' high)
  omega

/-- A quotient within a half of a whole number is rounded to it, at a distance of a half if it is
    even. -/
theorem roundQuotient_eq {m : Nat} (bottom : 0 < den) (low : (m : ℚ) - 1 / 2 ≤ num / den)
    (high : (num : ℚ) / den ≤ m + 1 / 2)
    (tie : m % 2 = 0 ∨ ((m : ℚ) - 1 / 2 ≠ num / den ∧ (num : ℚ) / den ≠ m + 1 / 2)) :
    roundQuotient num den = m := by
  have den_pos : (0 : ℚ) < den := by exact_mod_cast bottom
  have low' : 2 * m * den ≤ 2 * num + den := by
    rw [le_div_iff₀ den_pos] at low
    have : (2 * m * den : ℚ) ≤ 2 * num + den := by linarith
    exact_mod_cast this
  have high' : 2 * num ≤ 2 * m * den + den := by
    rw [div_le_iff₀ den_pos] at high
    have : (2 * num : ℚ) ≤ 2 * m * den + den := by linarith
    exact_mod_cast this
  have tie' : m % 2 = 0 ∨ (2 * m * den ≠ 2 * num + den ∧ 2 * num ≠ 2 * m * den + den) := by
    refine tie.imp_right fun ⟨apart, apart'⟩ => ⟨fun same => apart ?_, fun same => apart' ?_⟩
    · have : (2 * m * den : ℚ) = 2 * num + den := by exact_mod_cast same
      rw [eq_div_iff den_pos.ne']
      linarith
    · have : (2 * num : ℚ) = 2 * m * den + den := by exact_mod_cast same
      rw [div_eq_iff den_pos.ne']
      linarith
  clear low high tie
  have split := Nat.div_add_mod num den
  have rest := Nat.mod_lt num bottom
  simp only [roundQuotient]
  generalize num / den = q at split ⊢
  generalize num % den = r at split rest ⊢
  subst split
  -- The quotient is `m` or one less, since the rest is smaller than the divisor.
  have cases_ : q = m ∨ q + 1 = m := by
    rcases Nat.lt_trichotomy q m with less | same | more
    · refine .inr (Nat.le_antisymm less ?_)
      by_contra far
      have := Nat.mul_le_mul_right den (show q + 2 ≤ m by omega)
      nlinarith
    · exact .inl same
    · have := Nat.mul_le_mul_right den (show m + 1 ≤ q by omega)
      nlinarith
  rcases cases_ with rfl | rfl
  · have half : 2 * r ≤ den := by nlinarith
    split
    · rfl
    split
    · next even =>
      rcases tie' with parity | ⟨-, apart⟩
      · omega
      · exact absurd (by nlinarith) apart
    · omega
  · have half : den ≤ 2 * r := by nlinarith
    split
    · omega
    split
    · next even =>
      rcases tie' with parity | ⟨apart, -⟩
      · omega
      · exact absurd (by nlinarith) apart
    · rfl

/-! ## Intervals -/

/-- How far the interval of a double reaches below its significand. -/
def gap (m : Nat) (e : Int) : ℚ := if m = 2 ^ 52 ∧ -1074 < e then 1 / 4 else 1 / 2

/-- The number lies in the interval of the double with magnitude `m * 2 ^ e`. The ends belong to the
    interval if the significand is even. -/
structure Near (m : Nat) (e : Int) (q : ℚ) : Prop where
  low : (m - gap m e) * 2 ^ e ≤ q
  high : q ≤ (m + 1 / 2) * 2 ^ e
  tie : m % 2 = 0 ∨ ((m - gap m e) * 2 ^ e ≠ q ∧ q ≠ (m + 1 / 2) * 2 ^ e)

variable {m : Nat} {e : Int} {q : ℚ} {negative : Bool}

theorem gap_bounds (m : Nat) (e : Int) : 1 / 4 ≤ gap m e ∧ gap m e ≤ 1 / 2 := by
  unfold gap
  split <;> norm_num

theorem Near.pos (near : Near m e q) (positive : 0 < m) : 0 < q := by
  refine lt_of_lt_of_le (mul_pos ?_ (two_zpow_pos e)) near.low
  have one : (1 : ℚ) ≤ m := by exact_mod_cast positive
  have := (gap_bounds m e).2
  linarith

/-- A fraction in the interval is rounded to the significand, on the grid of the double. -/
theorem roundQuotient_near (bottom : 0 < den) (near : Near m e (num / den))
    (half : gap m e = 1 / 2 ∨ (m : ℚ) * 2 ^ e ≤ num / den) :
    roundQuotient (scaled num den e).1 (scaled num den e).2 = m := by
  obtain ⟨bottom', same⟩ := scaled_eq num bottom e
  have power := two_zpow_pos e
  rw [zpow_neg, ← div_eq_mul_inv] at same
  refine roundQuotient_eq bottom' ?_ ?_ (near.tie.imp_right fun ⟨apart, apart'⟩ => ⟨?_, ?_⟩)
  · rw [same, le_div_iff₀ power]
    rcases half with half | half
    · exact half ▸ near.low
    · exact le_trans (mul_le_mul_of_nonneg_right (by linarith) power.le) half
  · rw [same, div_le_iff₀ power]
    exact near.high
  · rw [same, ne_eq, eq_div_iff power.ne']
    rcases half with half | half
    · exact half ▸ apart
    · exact (lt_of_lt_of_le (mul_lt_mul_of_pos_right (by linarith) power) half).ne
  · rw [same, ne_eq, div_eq_iff power.ne']
    exact apart'

/-- Below a power of two the fraction is rounded on the finer grid, up to a full significand. -/
theorem roundQuotient_below (bottom : 0 < den) (low : ((2 : ℚ) ^ 53 - 1 / 2) * 2 ^ e ≤ num / den)
    (high : (num : ℚ) / den < 2 ^ 53 * 2 ^ e) :
    roundQuotient (scaled num den e).1 (scaled num den e).2 = 2 ^ 53 := by
  obtain ⟨bottom', same⟩ := scaled_eq num bottom e
  have power := two_zpow_pos e
  rw [zpow_neg, ← div_eq_mul_inv] at same
  refine roundQuotient_eq bottom' ?_ ?_ (.inl (by norm_num))
  · rw [same, le_div_iff₀ power]
    exact_mod_cast low
  · rw [same, div_le_iff₀ power]
    push_cast
    nlinarith

/-- The grid on which a fraction is rounded. -/
theorem ofQuotient_grid (top : 0 < num) (least : -1074 ≤ e)
    (grid : binaryExponent num den = e + 52 ∨ (e = -1074 ∧ binaryExponent num den ≤ e + 52)) :
    ofQuotient negative num den =
      pack negative (roundQuotient (scaled num den e).1 (scaled num den e).2) e := by
  have chosen : max (binaryExponent num den - 52) (-1074) = e := by omega
  simp only [ofQuotient, if_neg top.ne', chosen]

theorem whole_zpow (k : ℕ) (e : Int) : (2 : ℚ) ^ k * 2 ^ e = 2 ^ (e + k) := by
  rw [two_zpow_add, zpow_natCast, mul_comm]

/-- The double and the fraction lie on one grid. -/
theorem ofQuotient_above (fits : Fits m e) (top : 0 < num) (bottom : 0 < den)
    (near : Near m e (num / den)) (above : (2 : ℚ) ^ 52 * 2 ^ e ≤ num / den) :
    ofQuotient negative num den = pack negative m e := by
  have small : (m : ℚ) + 1 ≤ 2 ^ 53 := by exact_mod_cast fits.small
  have high : (num : ℚ) / den < 2 ^ 53 * 2 ^ e :=
    lt_of_le_of_lt near.high (mul_lt_mul_of_pos_right (by linarith) (two_zpow_pos e))
  have exponent : binaryExponent num den = e + 52 := by
    rw [whole_zpow] at above high
    exact binaryExponent_eq top bottom above (by rwa [add_assoc])
  rw [ofQuotient_grid top fits.least (.inl exponent), roundQuotient_near bottom near]
  by_cases finer : m = 2 ^ 52 ∧ -1074 < e
  · refine .inr ?_
    rw [finer.1]
    exact_mod_cast above
  · exact .inl (if_neg finer)

/-- Below the least power of two of the full significands there is one grid. -/
theorem ofQuotient_lowest (top : 0 < num) (bottom : 0 < den) (near : Near m (-1074) (num / den))
    (below : (num : ℚ) / den < 2 ^ 52 * 2 ^ (-1074 : Int)) :
    ofQuotient negative num den = pack negative m (-1074) := by
  have exponent : binaryExponent num den ≤ -1074 + 52 := by
    by_contra far
    have reach : (2 : ℚ) ^ (-1074 + (52 : ℕ) : Int) ≤ 2 ^ binaryExponent num den :=
      zpow_le_zpow_right₀ (by norm_num) (by push_cast; omega)
    rw [← whole_zpow] at reach
    exact absurd (lt_of_le_of_lt (binaryExponent_bounds top bottom).1 below) (not_lt.2 reach)
  rw [ofQuotient_grid top (by omega) (.inr ⟨rfl, exponent⟩), roundQuotient_near bottom near]
  exact .inl (if_neg fun h => absurd h.2 (by omega))

/-- Just below a power of two a fraction is rounded to a full significand of the finer grid. -/
theorem ofQuotient_below (least : -1074 < e) (top : 0 < num) (bottom : 0 < den)
    (near : Near (2 ^ 52) e (num / den)) (below : (num : ℚ) / den < 2 ^ 52 * 2 ^ e) :
    ofQuotient negative num den = pack negative (2 ^ 52) e := by
  have power := two_zpow_pos (e - 1)
  have halve : (2 : ℚ) ^ e = 2 * 2 ^ (e - 1) := by
    rw [← zpow_one_add₀ (by norm_num : (2 : ℚ) ≠ 0), add_sub_cancel]
  have low := near.low
  rw [show gap (2 ^ 52) e = 1 / 4 from if_pos ⟨rfl, least⟩, halve] at low
  rw [halve] at below
  push_cast at low
  have low' : ((2 : ℚ) ^ 53 - 1 / 2) * 2 ^ (e - 1) ≤ num / den := by linarith
  have high' : (num : ℚ) / den < 2 ^ 53 * 2 ^ (e - 1) := by linarith
  have exponent : binaryExponent num den = e - 1 + 52 := by
    have reach : (2 : ℚ) ^ 52 * 2 ^ (e - 1) ≤ num / den := by linarith
    rw [whole_zpow] at reach high'
    exact binaryExponent_eq top bottom reach (by rwa [add_assoc])
  rw [ofQuotient_grid top (by omega) (.inl exponent), roundQuotient_below bottom low' high',
    pack_carry negative (by omega), sub_add_cancel]

/-- A fraction in the interval of a double is rounded to that double. -/
theorem ofQuotient_eq (fits : Fits m e) (positive : 0 < m) (bottom : 0 < den)
    (near : Near m e (num / den)) : ofQuotient negative num den = pack negative m e := by
  have top : 0 < num := by
    have quotient := near.pos positive
    rw [lt_div_iff₀ (by exact_mod_cast bottom), zero_mul] at quotient
    exact_mod_cast quotient
  rcases le_or_gt ((2 : ℚ) ^ 52 * 2 ^ e) ((num : ℚ) / den) with above | below
  · exact ofQuotient_above fits top bottom near above
  rcases Int.lt_or_eq_of_le fits.least with least | rfl
  · -- The fraction is below a power of two, and the significand is full: it is that power.
    have exact_ : m = 2 ^ 52 := by
      have less := lt_of_mul_lt_mul_right (lt_of_le_of_lt near.low below) (two_zpow_pos e).le
      have half := (gap_bounds m e).2
      have : (m : ℚ) < (2 ^ 52 + 1 : ℕ) := by push_cast; linarith
      have : m < 2 ^ 52 + 1 := by exact_mod_cast this
      rcases fits.full with full | lowest <;> omega
    rw [exact_] at near ⊢
    exact ofQuotient_below least top bottom near below
  · exact ofQuotient_lowest top bottom near below

end

end Double

end ObjectStream
