import Mathlib.Data.List.TakeWhile
import Mathlib.Data.Rat.Floor
import ObjectStream.Proofs.Rounding
import ObjectStream.Proofs.Spelling

/-!
The shortest decimal lies in the interval.

The interval of a double is longer than one unit in the seventeenth place of the double, so the
search for a multiple of a power of ten in it succeeds at seventeen places at the latest
(`near_search`). The digits that are found are those of the decimal, up to zeros at the end
(`near_shortest`).
-/

namespace ObjectStream

namespace Decimal

open Double (Fits Near gap)

variable {m : Nat} {e g : Int} {i : Interval}

theorem ten_zpow_pos (g : Int) : (0 : ℚ) < 10 ^ g := by positivity

theorem powerOfTen_eq (g : Int) :
    0 < (powerOfTen g).1 ∧ 0 < (powerOfTen g).2 ∧
      ((powerOfTen g).1 : ℚ) / (powerOfTen g).2 = 10 ^ g := by
  unfold powerOfTen
  split
  · next h =>
    obtain ⟨k, rfl⟩ := Int.eq_ofNat_of_zero_le h
    exact ⟨by positivity, Nat.one_pos, by simp⟩
  · next h =>
    obtain ⟨k, hk⟩ := Int.eq_ofNat_of_zero_le (show 0 ≤ -g by omega)
    refine ⟨Nat.one_pos, by positivity, ?_⟩
    rw [hk, show g = -(k : Int) by omega]
    simp

/-! ## Intervals -/

/-- The interval of the double: its number and its two ends, over one denominator. -/
theorem intervalOf_eq (positive : 0 < m) (e : Int) :
    0 < (intervalOf m e).den ∧ ((intervalOf m e).num : ℚ) / (intervalOf m e).den = m * 2 ^ e ∧
      ((intervalOf m e).low : ℚ) / (intervalOf m e).den = (m - gap m e) * 2 ^ e ∧
      ((intervalOf m e).high : ℚ) / (intervalOf m e).den = (m + 1 / 2) * 2 ^ e := by
  have below : ((4 * m - (if m = 2 ^ 52 ∧ -1074 < e then 1 else 2) : ℕ) : ℚ) = 4 * (m - gap m e) := by
    rw [gap]
    split <;> rw [Nat.cast_sub (by omega)] <;> push_cast <;> ring
  have quarter : (2 : ℚ) ^ e = 4 * 2 ^ (e - 2) := by
    rw [show (4 : ℚ) = 2 ^ (2 : Int) by norm_num, ← Double.two_zpow_add, add_sub_cancel]
  obtain ⟨up, down, unit, positive', same⟩ : ∃ up down : Nat,
      (if 0 ≤ e - 2 then (2 ^ (e - 2).toNat, 1) else (1, 2 ^ (2 - e).toNat)) = (up, down) ∧
        0 < down ∧ (up : ℚ) / down = 2 ^ (e - 2) := by
    split
    · next h =>
      obtain ⟨k, hk⟩ := Int.eq_ofNat_of_zero_le h
      exact ⟨_, _, rfl, Nat.one_pos, by simp [hk]⟩
    · next h =>
      obtain ⟨k, hk⟩ := Int.eq_ofNat_of_zero_le (show 0 ≤ 2 - e by omega)
      refine ⟨_, _, rfl, by positivity, ?_⟩
      rw [hk, show e - 2 = -(k : Int) by omega]
      simp
  rw [quarter, ← same]
  simp only [intervalOf, unit, Nat.cast_mul, below, Nat.cast_add, Nat.cast_ofNat]
  exact ⟨positive', by ring, by ring, by ring⟩

/-- The test of an interval says whether the fraction lies in it. -/
theorem has_intervalOf (positive : 0 < m) {n d : Nat} (bottom : 0 < d) :
    (intervalOf m e).has n d = true ↔ Near m e (n / d) := by
  obtain ⟨den, -, low, high⟩ := intervalOf_eq positive e
  have den' : (0 : ℚ) < (intervalOf m e).den := by exact_mod_cast den
  have bottom' : (0 : ℚ) < d := by exact_mod_cast bottom
  have closed : (intervalOf m e).closed = decide (m % 2 = 0) := rfl
  have lower : (intervalOf m e).low * d ≤ n * (intervalOf m e).den ↔
      (m - gap m e) * 2 ^ e ≤ (n : ℚ) / d := by
    rw [← low, div_le_div_iff₀ den' bottom']
    exact_mod_cast Iff.rfl
  have upper : n * (intervalOf m e).den ≤ (intervalOf m e).high * d ↔
      (n : ℚ) / d ≤ (m + 1 / 2) * 2 ^ e := by
    rw [← high, div_le_div_iff₀ bottom' den']
    exact_mod_cast Iff.rfl
  have lower' : (intervalOf m e).low * d < n * (intervalOf m e).den ↔
      (m - gap m e) * 2 ^ e < (n : ℚ) / d := by
    rw [← low, div_lt_div_iff₀ den' bottom']
    exact_mod_cast Iff.rfl
  have upper' : n * (intervalOf m e).den < (intervalOf m e).high * d ↔
      (n : ℚ) / d < (m + 1 / 2) * 2 ^ e := by
    rw [← high, div_lt_div_iff₀ bottom' den']
    exact_mod_cast Iff.rfl
  unfold Interval.has
  rw [closed]
  split
  · next even =>
    simp only [Bool.and_eq_true, decide_eq_true_eq, lower, upper]
    exact ⟨fun ⟨l, h⟩ => ⟨l, h, .inl (of_decide_eq_true even)⟩, fun near => ⟨near.low, near.high⟩⟩
  · next odd =>
    simp only [Bool.and_eq_true, decide_eq_true_eq, lower', upper']
    refine ⟨fun ⟨l, h⟩ => ⟨l.le, h.le, .inr ⟨l.ne, h.ne⟩⟩, fun near => ?_⟩
    rcases near.tie with even | ⟨apart, apart'⟩
    · exact absurd (decide_eq_true even) odd
    · exact ⟨lt_of_le_of_ne near.low apart, lt_of_le_of_ne near.high apart'⟩

/-- A number between two of the interval lies in it. -/
theorem near_between {a b q : ℚ} (first : Near m e a) (last : Near m e b) (low : a ≤ q)
    (high : q ≤ b) : Near m e q where
  low := first.low.trans low
  high := high.trans last.high
  tie := by
    rcases first.tie with even | ⟨apart, -⟩
    · exact .inl even
    rcases last.tie with even | ⟨-, apart'⟩
    · exact .inl even
    exact .inr ⟨(lt_of_lt_of_le (lt_of_le_of_ne first.low apart) low).ne,
      (lt_of_le_of_lt high (lt_of_le_of_ne last.high apart')).ne⟩

/-- The double lies in its own interval, not at an end. -/
theorem near_self (m : Nat) (e : Int) : Near m e (m * 2 ^ e) := by
  have power := Double.two_zpow_pos e
  have part := (Double.gap_bounds m e).1
  have low : (m - gap m e) * 2 ^ e < m * 2 ^ e := mul_lt_mul_of_pos_right (by linarith) power
  have high : (m : ℚ) * 2 ^ e < (m + 1 / 2) * 2 ^ e := mul_lt_mul_of_pos_right (by linarith) power
  exact ⟨low.le, high.le, .inr ⟨low.ne, high.ne⟩⟩

/-! ## Grids -/

/-- The multiples of the grid on both sides of the double. -/
theorem grid_bounds (positive : 0 < m) (e g : Int) :
    let below := (intervalOf m e).num * (powerOfTen g).2 / ((intervalOf m e).den * (powerOfTen g).1)
    (below : ℚ) * 10 ^ g ≤ m * 2 ^ e ∧ (m : ℚ) * 2 ^ e < (below + 1) * 10 ^ g := by
  obtain ⟨top, bottom, power⟩ := powerOfTen_eq g
  obtain ⟨den, value, -⟩ := intervalOf_eq positive e
  have bottom' : (0 : ℚ) < (powerOfTen g).2 := by exact_mod_cast bottom
  have den' : (0 : ℚ) < (intervalOf m e).den := by exact_mod_cast den
  have unit : 0 < (intervalOf m e).den * (powerOfTen g).1 := Nat.mul_pos den top
  intro below
  rw [← power, ← value, mul_div_assoc', mul_div_assoc', div_le_div_iff₀ bottom' den',
    div_lt_div_iff₀ den' bottom']
  constructor
  · have := Nat.div_mul_le_self ((intervalOf m e).num * (powerOfTen g).2)
      ((intervalOf m e).den * (powerOfTen g).1)
    rw [← mul_assoc, mul_right_comm] at this
    exact_mod_cast this
  · have := Nat.lt_mul_div_succ ((intervalOf m e).num * (powerOfTen g).2) unit
    have : (intervalOf m e).num * (powerOfTen g).2 <
        (below + 1) * (powerOfTen g).1 * (intervalOf m e).den := by
      refine this.trans_eq ?_
      ring
    exact_mod_cast this

/-- The test of a multiple of the grid. -/
theorem has_grid (positive : 0 < m) (count : Nat) (g : Int) :
    (intervalOf m e).has (count * (powerOfTen g).1) (powerOfTen g).2 = true ↔
      Near m e (count * 10 ^ g) := by
  obtain ⟨-, bottom, power⟩ := powerOfTen_eq g
  rw [has_intervalOf positive bottom, ← power, Nat.cast_mul, mul_div_assoc']

/-- What is found on a grid lies in the interval. -/
theorem near_onGrid (positive : 0 < m) {count : Nat} (h : onGrid? (intervalOf m e) g = some count) :
    Near m e (count * 10 ^ g) := by
  rw [← has_grid positive]
  simp only [onGrid?] at h
  split at h
  · cases h
  · next below _ => cases h; exact below
  · next _ above => cases h; exact above
  · next below above =>
    split at h <;> cases h
    · exact below
    · exact above

/-- If a multiple of the grid lies in the interval, one is found. -/
theorem onGrid_isSome (positive : 0 < m) {count : Nat} (near : Near m e (count * 10 ^ g)) :
    (onGrid? (intervalOf m e) g).isSome = true := by
  have power := ten_zpow_pos g
  have bounds := grid_bounds positive e g
  simp only at bounds
  obtain ⟨low, high⟩ := bounds
  have self := near_self m e
  simp only [onGrid?]
  generalize (intervalOf m e).num * (powerOfTen g).2 / ((intervalOf m e).den * (powerOfTen g).1) =
    below at low high
  by_cases side : count ≤ below
  · have here : (intervalOf m e).has (below * (powerOfTen g).1) (powerOfTen g).2 = true := by
      rw [has_grid positive]
      refine near_between near self (mul_le_mul_of_nonneg_right ?_ power.le) low
      exact_mod_cast side
    rw [here]
    cases (intervalOf m e).has ((below + 1) * (powerOfTen g).1) (powerOfTen g).2 with
    | false => rfl
    | true => simp only; split <;> rfl
  · have here : (intervalOf m e).has ((below + 1) * (powerOfTen g).1) (powerOfTen g).2 = true := by
      rw [has_grid positive]
      refine near_between self near (by exact_mod_cast high.le)
        (mul_le_mul_of_nonneg_right ?_ power.le)
      exact_mod_cast Nat.lt_of_not_le side
    rw [here]
    cases (intervalOf m e).has (below * (powerOfTen g).1) (powerOfTen g).2 with
    | false => rfl
    | true => simp only; split <;> rfl

/-! ## The search -/

theorem near_search (positive : 0 < m) (exponent : Int) (fuel places : Nat)
    (exists_ : ∃ more < fuel, ∃ count : Nat,
      Near m e (count * 10 ^ (exponent - (places + more : Nat) + 1))) :
    Near m e ((search (intervalOf m e) exponent fuel places).1 *
      10 ^ (exponent - (search (intervalOf m e) exponent fuel places).2 + 1)) := by
  induction fuel generalizing places with
  | zero =>
    obtain ⟨_, none, -⟩ := exists_
    cases none
  | succ fuel ih =>
    rw [search]
    split
    · next count found => exact near_onGrid positive found
    · next missing =>
      obtain ⟨more, bound, count, near⟩ := exists_
      cases more with
      | zero =>
        have found := onGrid_isSome positive near
        rw [Nat.add_zero, missing] at found
        cases found
      | succ more =>
        refine ih (places + 1) ⟨more, by omega, count, ?_⟩
        rwa [show places + 1 + more = places + (more + 1) by omega]

/-- The interval is longer than a unit in the seventeenth place. -/
theorem near_seventeen (fits : Fits m e) (positive : 0 < m) {exponent : Int}
    (reach : (10 : ℚ) ^ exponent ≤ m * 2 ^ e) :
    ∃ count : Nat, Near m e (count * 10 ^ (exponent - 16)) := by
  have power := Double.two_zpow_pos e
  have unit := ten_zpow_pos (exponent - 16)
  have small : (m : ℚ) < 2 ^ 53 := by exact_mod_cast fits.small
  have one : (1 : ℚ) ≤ m := by exact_mod_cast positive
  obtain ⟨-, part'⟩ := Double.gap_bounds m e
  have step : (10 : ℚ) ^ (exponent - 16) * 10 ^ 16 ≤ m * 2 ^ e := by
    have : (10 : ℚ) ^ (exponent - 16) * 10 ^ (16 : Int) = 10 ^ exponent := by
      rw [← zpow_add₀ (by norm_num), sub_add_cancel]
    exact_mod_cast this.trans_le reach
  have wide : (10 : ℚ) ^ (exponent - 16) < (1 / 2 + gap m e) * 2 ^ e := by
    unfold gap
    split
    · next full => rw [full.1] at step; push_cast at step; nlinarith
    · nlinarith
  obtain ⟨below, before, behind⟩ : ∃ below : Nat,
      (below : ℚ) * 10 ^ (exponent - 16) ≤ (m - gap m e) * 2 ^ e ∧
        (m - gap m e) * 2 ^ e < (below + 1) * 10 ^ (exponent - 16) := by
    have low : 0 ≤ (m - gap m e) * (2 : ℚ) ^ e / 10 ^ (exponent - 16) :=
      div_nonneg (mul_nonneg (by linarith) power.le) unit.le
    refine ⟨Nat.floor ((m - gap m e) * (2 : ℚ) ^ e / 10 ^ (exponent - 16)), ?_, ?_⟩
    · exact (le_div_iff₀ unit).1 (Nat.floor_le low)
    · exact (div_lt_iff₀ unit).1 (Nat.lt_floor_add_one _)
  -- The first multiple behind the lower end lies before the upper end.
  refine ⟨below + 1, ?_⟩
  push_cast
  have last : ((below : ℚ) + 1) * 10 ^ (exponent - 16) < (m + 1 / 2) * 2 ^ e := by linarith
  exact ⟨behind.le, last.le, .inr ⟨behind.ne, last.ne⟩⟩

/-! ## The exponent -/

theorem reaches_iff {num den : Nat} (bottom : 0 < den) (g : Int) :
    reaches num den g = true ↔ (10 : ℚ) ^ g ≤ num / den := by
  obtain ⟨-, bottom', power⟩ := powerOfTen_eq g
  have positive : (0 : ℚ) < den := by exact_mod_cast bottom
  have positive' : (0 : ℚ) < (powerOfTen g).2 := by exact_mod_cast bottom'
  rw [← power, div_le_div_iff₀ positive' positive, reaches]
  simp only [decide_eq_true_eq]
  exact_mod_cast Iff.rfl

/-- The guess from the binary exponent is not too large for any exponent of a double: `10 ^ 59` is
    just below `2 ^ 196`, and `10 ^ 28` just above `2 ^ 93`. -/
theorem guess_reaches {b : Int} (least : -1074 ≤ b) (most : b ≤ 1023) :
    (10 : ℚ) ^ Int.fdiv ((b - 1) * 30103) 100000 ≤ 2 ^ b := by
  have product : Int.fdiv ((b - 1) * 30103) 100000 * 100000 ≤ (b - 1) * 30103 := by
    rw [Int.fdiv_eq_ediv_of_nonneg _ (by decide)]
    exact Int.ediv_mul_le _ (by decide)
  generalize Int.fdiv ((b - 1) * 30103) 100000 = g at product
  have swap : ∀ (a : ℚ) (k : Int) (n : Nat), (a ^ k) ^ n = (a ^ n) ^ k := fun a k n => by
    rw [← zpow_natCast, ← zpow_natCast, zpow_comm]
  have power : ∀ (n : Nat) (k : Int), ((2 : ℚ) ^ n) ^ k = 2 ^ ((n : Int) * k) := fun n k => by
    rw [← zpow_natCast, zpow_mul]
  have one : (1 : ℚ) ≤ 2 := by norm_num
  rcases le_total 0 g with positive | negative
  · refine (pow_le_pow_iff_left₀ (by positivity) (by positivity) (by decide : 59 ≠ 0)).1 ?_
    calc ((10 : ℚ) ^ g) ^ 59 = (10 ^ 59) ^ g := swap 10 g 59
      _ ≤ (2 ^ 196) ^ g := zpow_le_zpow_left₀ positive (by positivity) (by norm_num)
      _ = 2 ^ ((196 : ℕ) * g) := power 196 g
      _ ≤ 2 ^ ((59 : ℕ) * b) := zpow_le_zpow_right₀ one (by push_cast; omega)
      _ = ((2 : ℚ) ^ b) ^ 59 := by rw [swap, power]
  · refine (pow_le_pow_iff_left₀ (by positivity) (by positivity) (by decide : 28 ≠ 0)).1 ?_
    have flip : ((10 : ℚ) ^ 28) ^ g ≤ (2 ^ 93) ^ g := by
      rw [← neg_neg g, zpow_neg, zpow_neg _ (-g)]
      refine inv_anti₀ (by positivity) ?_
      exact zpow_le_zpow_left₀ (by omega) (by positivity) (by norm_num)
    calc ((10 : ℚ) ^ g) ^ 28 = (10 ^ 28) ^ g := swap 10 g 28
      _ ≤ (2 ^ 93) ^ g := flip
      _ = 2 ^ ((93 : ℕ) * g) := power 93 g
      _ ≤ 2 ^ ((28 : ℕ) * b) := zpow_le_zpow_right₀ one (by push_cast; omega)
      _ = ((2 : ℚ) ^ b) ^ 28 := by rw [swap, power]

/-- The power of ten is not above the double. -/
theorem decimalExponent_le (fits : Fits m e) (positive : 0 < m) :
    (10 : ℚ) ^ decimalExponent (intervalOf m e).num (intervalOf m e).den ≤ m * 2 ^ e := by
  obtain ⟨den, value, -⟩ := intervalOf_eq positive e
  have power := Double.two_zpow_pos e
  have one : (1 : ℚ) ≤ m := by exact_mod_cast positive
  have small : (m : ℚ) < 2 ^ 53 := by exact_mod_cast fits.small
  have num : 0 < (intervalOf m e).num := by
    have some_ : (0 : ℚ) < (intervalOf m e).num / (intervalOf m e).den := by
      rw [value]
      positivity
    rw [lt_div_iff₀ (by exact_mod_cast den), zero_mul] at some_
    exact_mod_cast some_
  obtain ⟨low, high⟩ := Double.binaryExponent_bounds num den
  rw [value] at low high
  have two : (1 : ℚ) < 2 := by norm_num
  have least : -1074 ≤ Double.binaryExponent (intervalOf m e).num (intervalOf m e).den := by
    have : (2 : ℚ) ^ e < 2 ^ (Double.binaryExponent (intervalOf m e).num (intervalOf m e).den + 1) :=
      lt_of_le_of_lt (by nlinarith) high
    have := (zpow_lt_zpow_iff_right₀ two).1 this
    have := fits.least
    omega
  have most : Double.binaryExponent (intervalOf m e).num (intervalOf m e).den ≤ 1023 := by
    have : (2 : ℚ) ^ Double.binaryExponent (intervalOf m e).num (intervalOf m e).den <
        2 ^ (53 + e) := by
      refine lt_of_le_of_lt low ?_
      rw [Double.two_zpow_add]
      exact_mod_cast mul_lt_mul_of_pos_right small power
    have := (zpow_lt_zpow_iff_right₀ two).1 this
    have := fits.most
    omega
  have guess := (guess_reaches least most).trans low
  simp only [decimalExponent]
  generalize Int.fdiv _ 100000 = g at guess
  have step : ∀ g : Int, (10 : ℚ) ^ g ≤ m * 2 ^ e →
      (10 : ℚ) ^ (if reaches (intervalOf m e).num (intervalOf m e).den (g + 1) then g + 1 else g) ≤
        m * 2 ^ e := by
    intro g here
    split
    · next more =>
      rw [reaches_iff den, value] at more
      exact more
    · exact here
  exact step _ (step g guess)

/-! ## Digits -/

/-- The number that the decimal stands for. -/
def value (x : Decimal) : ℚ :=
  Nat.ofDigitChars 10 x.digits 0 * 10 ^ (x.exponent + 1 - x.digits.length)

/-- Digits, the first of them not zero. -/
structure WellFormed (x : Decimal) : Prop where
  digits : ∀ c ∈ x.digits, c.isDigit = true
  first : ∃ d rest, x.digits = d :: rest ∧ d ≠ '0'

/-- Zeros at the end of digits that do not begin with one. -/
theorem dropFinalZeros_spec {digits : List Char} {d : Char} {rest : List Char}
    (split : digits = d :: rest) (first : d ≠ '0') :
    ∃ count rest', dropFinalZeros digits = d :: rest' ∧
      digits = dropFinalZeros digits ++ List.replicate count '0' := by
  obtain ⟨count, zeros⟩ : ∃ count, digits =
      (digits.reverse.dropWhile (· == '0')).reverse ++ List.replicate count '0' := by
    refine ⟨(digits.reverse.takeWhile (· == '0')).length, ?_⟩
    have same : digits.reverse.takeWhile (· == '0') =
        List.replicate (digits.reverse.takeWhile (· == '0')).length '0' := by
      refine List.eq_replicate_of_mem fun c mem => ?_
      simpa using List.mem_takeWhile_imp mem
    have whole := congrArg List.reverse (List.takeWhile_append_dropWhile (p := (· == '0'))
      (l := digits.reverse))
    rw [List.reverse_append, List.reverse_reverse] at whole
    rw [← List.reverse_replicate, ← same, whole]
  rw [dropFinalZeros]
  generalize (digits.reverse.dropWhile (· == '0')).reverse = kept at zeros
  cases kept with
  | nil =>
    cases count with
    | zero => rw [split] at zeros; cases zeros
    | succ count =>
      rw [split, List.nil_append, List.replicate_succ] at zeros
      exact absurd (List.cons.inj zeros).1 first
  | cons k rest' =>
    obtain rfl : k = d := by
      rw [split, List.cons_append] at zeros
      exact (List.cons.inj zeros).1.symm
    exact ⟨count, rest', rfl, zeros⟩

/-- The digits of a positive number do not begin with zero. -/
theorem toDigits_first {n : Nat} (positive : 0 < n) :
    ∃ d rest, Nat.toDigits 10 n = d :: rest ∧ d ≠ '0' := by
  induction n using Nat.strong_induction_on with
  | _ n ih =>
    rcases Nat.lt_or_ge n 10 with small | large
    · refine ⟨n.digitChar, [], Nat.toDigits_of_lt_base small, fun zero => ?_⟩
      have := Nat.digitChar_eq_zero.1 zero
      omega
    · obtain ⟨d, rest, split, first⟩ := ih (n / 10) (by omega) (by omega)
      refine ⟨d, rest ++ [(n % 10).digitChar], ?_, first⟩
      rw [Nat.toDigits_of_base_le (by decide) large, split, List.cons_append]

/-- Digits without the zeros at their end, at the same place, stand for the same number. -/
theorem value_dropFinalZeros {digits : List Char} {count : Nat} (exponent : Int)
    (zeros : digits = dropFinalZeros digits ++ List.replicate count '0') :
    value ⟨dropFinalZeros digits, exponent⟩ = value ⟨digits, exponent⟩ := by
  rw [value, value]
  simp only
  generalize dropFinalZeros digits = kept at zeros
  subst zeros
  rw [Nat.ofDigitChars_append, Nat.ofDigitChars_replicate_zero, List.length_append,
    List.length_replicate, Nat.cast_mul, Nat.cast_pow, Nat.cast_ofNat, Nat.cast_add,
    show exponent + 1 - (kept.length : Int) =
      (count : Int) + (exponent + 1 - (kept.length + count)) by ring,
    zpow_add₀ (by norm_num), zpow_natCast]
  ring

/-- The shortest decimal of a double lies in its interval. -/
theorem near_shortest (fits : Fits m e) (positive : 0 < m) :
    Near m e (shortest m e).value ∧ (shortest m e).WellFormed := by
  have reach := decimalExponent_le fits positive
  rw [shortest, if_neg positive.ne']
  simp only
  generalize decimalExponent (intervalOf m e).num (intervalOf m e).den = exponent at reach
  have near := near_search positive exponent 17 1 (by
    obtain ⟨count, near⟩ := near_seventeen fits positive reach
    refine ⟨16, by decide, count, ?_⟩
    rwa [show exponent - ((1 + 16 : Nat) : Int) + 1 = exponent - 16 by push_cast; ring])
  generalize search (intervalOf m e) exponent 17 1 = found at near
  obtain ⟨count, places⟩ := found
  simp only at near ⊢
  have some_ : 0 < count := by
    have := near.pos positive
    rw [mul_pos_iff_of_pos_right (ten_zpow_pos _)] at this
    exact_mod_cast this
  obtain ⟨d, rest, split, first⟩ := toDigits_first some_
  obtain ⟨zeros, rest', split', whole⟩ := dropFinalZeros_spec split first
  have digits : ∀ c ∈ dropFinalZeros (Nat.toDigits 10 count), c.isDigit = true := by
    intro c mem
    have mem' : c ∈ Nat.toDigits 10 count := by
      rw [whole]
      exact List.mem_append_left _ mem
    exact isDigit_of_mem_toDigits mem'
  refine ⟨?_, digits, d, rest', split', first⟩
  rw [value_dropFinalZeros _ whole, value]
  simp only [Nat.ofDigitChars_ten_toDigits]
  rwa [show exponent + ((Nat.toDigits 10 count).length : Int) - places + 1 -
    (Nat.toDigits 10 count).length = exponent - places + 1 by ring]

end Decimal

end ObjectStream
