import ObjectStream.Proofs.Keys
import ObjectStream.Proofs.Shortest

/-!
Numbers by their value.

A double that is a whole number is the double nearest to that integer (`Double.ofInt_of_toInt?`), so
two doubles that are one integer are equal. Hence numbers of all types can be told apart by two
parts, each an integer if it is one and a double otherwise (`Number.parts`). Without a not-a-number,
they are equal if and only if these parts are (`Number.same_iff`).

The image of a number is that of its parts, with one exception: the image of a complex number that is
not real spells its bits, and there the two zeros differ (`Number.Split`, `Number.image_congr`).
-/

namespace ObjectStream

namespace Double

variable {x y : Double}

/-! ## Whole doubles -/

/-- The magnitude of a double that is a whole number. -/
theorem magnitude_of_whole {m : Nat} (h : x.wholeMagnitude? = some m) :
    x.isFinite = true ∧ (m : ℚ) = x.significand * 2 ^ x.scale := by
  unfold wholeMagnitude? at h
  cases finite : x.isFinite with
  | false => simp [finite] at h
  | true =>
    refine ⟨rfl, ?_⟩
    simp only [finite, Bool.not_true, Bool.false_eq_true, if_false] at h
    split at h
    · next above =>
      obtain ⟨k, scale⟩ := Int.eq_ofNat_of_zero_le above
      cases h
      rw [scale]
      simp
    · next below =>
      obtain ⟨k, scale⟩ := Int.eq_ofNat_of_zero_le (show 0 ≤ -x.scale by omega)
      have scale' : x.scale = -(k : Int) := by omega
      simp only [scale, Int.toNat_natCast] at h
      split at h
      -- the unit of the significand is a fraction that divides it
      · next divides =>
        cases h
        have power : (2 : ℚ) ^ k ≠ 0 := by positivity
        have quotient : ((x.significand / 2 ^ k : ℕ) : ℚ) * 2 ^ k = x.significand := by
          exact_mod_cast Nat.div_mul_cancel (Nat.dvd_of_mod_eq_zero divides)
        calc ((x.significand / 2 ^ k : ℕ) : ℚ)
            = (x.significand / 2 ^ k : ℕ) * 2 ^ k * (2 ^ k)⁻¹ := by
              rw [mul_assoc, mul_inv_cancel₀ power, mul_one]
          _ = x.significand * (2 ^ k)⁻¹ := by rw [quotient]
          _ = x.significand * 2 ^ x.scale := by rw [scale', zpow_neg, zpow_natCast]
      · cases h

theorem whole_of_toInt? {n : Int} (h : x.toInt? = some n) :
    ∃ m, x.wholeMagnitude? = some m ∧ (if x.isNegative then -(m : Int) else m) = n := by
  unfold toInt? at h
  cases whole : x.wholeMagnitude? with
  | none => simp [whole] at h
  | some m =>
    refine ⟨m, rfl, ?_⟩
    simpa [whole] using h

/-- The double that is an integer other than zero is the one nearest to it. -/
theorem ofInt_of_toInt? {n : Int} (h : x.toInt? = some n) (nonzero : n ≠ 0) : ofInt n = x := by
  obtain ⟨m, whole, signed⟩ := whole_of_toInt? h
  obtain ⟨finite, magnitude⟩ := magnitude_of_whole whole
  have size : n.natAbs = m ∧ decide (n < 0) = x.isNegative := by
    cases negative : x.isNegative with
    | false =>
      simp only [negative, Bool.false_eq_true, if_false] at signed
      exact ⟨by omega, by simp; omega⟩
    | true =>
      simp only [negative, if_true] at signed
      exact ⟨by omega, by simp; omega⟩
  have positive : 0 < x.significand := by
    by_contra zero
    have none : x.significand = 0 := Nat.le_zero.1 (Nat.le_of_not_lt zero)
    rw [none, Nat.cast_zero, zero_mul, Nat.cast_eq_zero] at magnitude
    omega
  have near : Near x.significand x.scale ((m : ℕ) / (1 : ℕ)) := by
    rw [Nat.cast_one, div_one, magnitude]
    exact Decimal.near_self _ _
  rw [ofInt, size.1, size.2, ofQuotient_eq (fits_parts finite) positive Nat.one_pos near]
  exact pack_parts finite

/-- Of the doubles only the zeros are the integer zero. -/
theorem toInt?_eq_zero : x.toInt? = some 0 ↔ x.isZero = true := by
  constructor
  · intro h
    obtain ⟨m, whole, signed⟩ := whole_of_toInt? h
    obtain ⟨finite, magnitude⟩ := magnitude_of_whole whole
    have none : m = 0 := by split at signed <;> omega
    have power : (2 : ℚ) ^ x.scale ≠ 0 := (two_zpow_pos _).ne'
    rw [none, Nat.cast_zero, eq_comm, mul_eq_zero, or_iff_left power, Nat.cast_eq_zero] at magnitude
    -- a significand of zero has no hidden bit
    unfold significand at magnitude
    split at magnitude
    · next least => simp [isZero, least, magnitude]
    · omega
  · intro zero
    simp only [isZero, Bool.and_eq_true, beq_iff_eq] at zero
    have significand : x.significand = 0 := by simp [significand, zero]
    have finite : x.isFinite = true := by simp [isFinite, zero.1]
    simp [toInt?, wholeMagnitude?, finite, significand]

/-- Doubles are equal as numbers if they are the same, or zeros. -/
theorem same_iff_eq (hx : x.isNaN = false) (hy : y.isNaN = false) :
    x.same y = true ↔ x = y ∨ (x.isZero = true ∧ y.isZero = true) := by
  simp [same, hx, hy]

/-- The integer that a double is, or else the double. -/
def reduced (x : Double) : Int ⊕ Double :=
  match x.toInt? with
  | some n => .inl n
  | none => .inr x

theorem reduced_of_zero (h : x.isZero = true) : x.reduced = .inl 0 := by
  rw [reduced, toInt?_eq_zero.2 h]

theorem reduced_eq_inl {n : Int} : x.reduced = .inl n ↔ x.toInt? = some n := by
  unfold reduced
  cases x.toInt? <;> simp

theorem inl_eq_reduced {n : Int} : .inl n = x.reduced ↔ x.toInt? = some n :=
  eq_comm.trans reduced_eq_inl

/-- Doubles that are one integer are the same, or zeros. -/
theorem same_iff_reduced (hx : x.isNaN = false) (hy : y.isNaN = false) :
    x.same y = true ↔ x.reduced = y.reduced := by
  rw [same_iff_eq hx hy]
  constructor
  · rintro (rfl | ⟨zero, zero'⟩)
    · rfl
    · rw [reduced_of_zero zero, reduced_of_zero zero']
  · intro h
    cases whole : x.toInt? with
    | none =>
      left
      cases whole' : y.toInt? with
      | none =>
        simp only [reduced, whole, whole', Sum.inr.injEq] at h
        exact h
      | some n => simp [reduced, whole, whole'] at h
    | some n =>
      have whole' : y.toInt? = some n := by
        rw [← reduced_eq_inl, ← h, reduced_eq_inl, whole]
      by_cases zero : n = 0
      · right
        rw [zero] at whole whole'
        exact ⟨toInt?_eq_zero.1 whole, toInt?_eq_zero.1 whole'⟩
      · left
        rw [← ofInt_of_toInt? whole zero, ← ofInt_of_toInt? whole' zero]

theorem not_nan_of_same (h : x.same y = true) : x.isNaN = false ∧ y.isNaN = false := by
  simp only [same, Bool.and_eq_true, Bool.not_eq_true'] at h
  exact h.1

theorem not_nan_of_toInt? {n : Int} (h : x.toInt? = some n) : x.isNaN = false := by
  by_contra nan
  rw [toInt?_of_isNaN (Bool.not_eq_false _ ▸ nan)] at h
  cases h

theorem not_nan_of_isZero (h : x.isZero = true) : x.isNaN = false :=
  not_nan_of_toInt? (toInt?_eq_zero.2 h)

end Double

/-! ## Numbers of all types -/

namespace Number

variable {x y : Number}

/-- The real and the imaginary part. -/
def parts : Number → (Int ⊕ Double) × (Int ⊕ Double)
  | .int n => (.inl n, .inl 0)
  | .float x => (x.reduced, .inl 0)
  | .complex re im => (re.reduced, im.reduced)

/-- No part is a not-a-number. -/
def Proper : Number → Prop
  | .int _ => True
  | .float x => x.isNaN = false
  | .complex re im => re.isNaN = false ∧ im.isNaN = false

/-- Proper numbers are equal if and only if their parts are. -/
theorem same_iff (hx : x.Proper) (hy : y.Proper) : x.same y = true ↔ x.parts = y.parts := by
  cases x with
  | int m =>
    cases y with
    | int n => simp [same, sameReal, parts]
    | float y => simp [same, sameReal, parts, Double.inl_eq_reduced]
    | complex re im =>
      simp [same, sameReal, parts, Double.inl_eq_reduced, Double.toInt?_eq_zero, and_comm]
  | float x =>
    cases y with
    | int n => simp [same, sameReal, parts, Double.reduced_eq_inl]
    | float y => simp [same, sameReal, parts, Double.same_iff_reduced hx hy]
    | complex re im =>
      simp [same, sameReal, parts, Double.inl_eq_reduced, Double.toInt?_eq_zero,
        Double.same_iff_reduced hy.1 hx, and_comm, eq_comm (b := x.reduced)]
  | complex re im =>
    cases y with
    | int n =>
      simp [same, sameReal, parts, Double.reduced_eq_inl, Double.toInt?_eq_zero, and_comm]
    | float y =>
      simp [same, sameReal, parts, Double.reduced_eq_inl, Double.toInt?_eq_zero,
        Double.same_iff_reduced hx.1 hy, and_comm]
    | complex re' im' =>
      simp [same, parts, Double.same_iff_reduced hx.1 hy.1, Double.same_iff_reduced hx.2 hy.2]

/-- A number that equals one is proper. -/
theorem proper_of_same (h : x.same y = true) : x.Proper ∧ y.Proper := by
  cases x with
  | int m =>
    cases y with
    | int n => exact ⟨trivial, trivial⟩
    | float y => exact ⟨trivial, Double.not_nan_of_toInt? (by simpa [same, sameReal] using h)⟩
    | complex re im =>
      simp only [same, sameReal, Bool.and_eq_true, beq_iff_eq] at h
      exact ⟨trivial, Double.not_nan_of_toInt? h.2, Double.not_nan_of_isZero h.1⟩
  | float x =>
    cases y with
    | int n => exact ⟨Double.not_nan_of_toInt? (by simpa [same, sameReal] using h), trivial⟩
    | float y => exact Double.not_nan_of_same h
    | complex re im =>
      simp only [same, sameReal, Bool.and_eq_true] at h
      obtain ⟨real, proper⟩ := Double.not_nan_of_same h.2
      exact ⟨proper, real, Double.not_nan_of_isZero h.1⟩
  | complex re im =>
    cases y with
    | int n =>
      simp only [same, sameReal, Bool.and_eq_true, beq_iff_eq] at h
      exact ⟨⟨Double.not_nan_of_toInt? h.2, Double.not_nan_of_isZero h.1⟩, trivial⟩
    | float y =>
      simp only [same, sameReal, Bool.and_eq_true] at h
      obtain ⟨real, proper⟩ := Double.not_nan_of_same h.2
      exact ⟨⟨real, Double.not_nan_of_isZero h.1⟩, proper⟩
    | complex re' im' =>
      simp only [same, Bool.and_eq_true] at h
      have real := Double.not_nan_of_same h.1
      have imaginary := Double.not_nan_of_same h.2
      exact ⟨⟨real.1, imaginary.1⟩, real.2, imaginary.2⟩

theorem parts_of_same (h : x.same y = true) : x.parts = y.parts := by
  obtain ⟨hx, hy⟩ := proper_of_same h
  exact (same_iff hx hy).1 h

/-! ## Images -/

/-- The image of a number. -/
def image : Number → Bytes
  | .int n => Image.ofInt n
  | .float x => Image.ofDouble x
  | .complex re im => Image.ofComplex re im

/-- The image of a part. -/
def partImage : Int ⊕ Double → Bytes
  | .inl n => Image.ofInt n
  | .inr x => 3 :: Bytes.ofNatLE 8 x.settled.bits.toNat

theorem ofDouble_eq (x : Double) : Image.ofDouble x = partImage x.reduced := by
  unfold Image.ofDouble Double.reduced
  cases x.toInt? <;> rfl

/-- A real number has the image of its real part. -/
theorem image_of_real (h : x.parts.2 = .inl 0) : x.image = partImage x.parts.1 := by
  cases x with
  | int n => rfl
  | float x => exact ofDouble_eq x
  | complex re im =>
    have real : im.isZero = true := Double.toInt?_eq_zero.1 (Double.reduced_eq_inl.1 h)
    rw [image, Image.ofComplex, if_pos real, ofDouble_eq]
    rfl

/-- Two complex numbers, neither real, that differ in the sign of a zero. -/
inductive Split : Number → Number → Prop
  | intro {re re' im : Double} (imaginary : im.isZero = false) (zero : re.isZero = true)
      (zero' : re'.isZero = true) (differ : re ≠ re') : Split (.complex re im) (.complex re' im)

/-- Equal numbers have the same image, except for the two zeros in a complex number. -/
theorem image_congr (h : x.same y = true) (whole : ¬x.Split y) : x.image = y.image := by
  have parts := parts_of_same h
  by_cases real : x.parts.2 = .inl 0
  · rw [image_of_real real, image_of_real (parts ▸ real), parts]
  -- only a complex number has an imaginary part other than zero
  · have real' : y.parts.2 ≠ .inl 0 := parts ▸ real
    cases x with
    | int | float => exact absurd rfl real
    | complex re im =>
      cases y with
      | int | float => exact absurd rfl real'
      | complex re' im' =>
        have imaginary : im.isZero ≠ true := fun zero => real (Double.reduced_of_zero zero)
        simp only [same, Bool.and_eq_true] at h
        obtain ⟨hre, hre'⟩ := Double.not_nan_of_same h.1
        obtain ⟨him, him'⟩ := Double.not_nan_of_same h.2
        rcases (Double.same_iff_eq him him').1 h.2 with rfl | ⟨zero, -⟩
        · rcases (Double.same_iff_eq hre hre').1 h.1 with rfl | ⟨zero, zero'⟩
          · rfl
          · have sign : re = re' := by
              by_contra differ
              exact whole (.intro (Bool.not_eq_true _ ▸ imaginary) zero zero' differ)
            rw [sign]
        · exact absurd zero imaginary

end Number

end ObjectStream
