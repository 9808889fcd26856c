import ObjectStream.Number.FloatText
import ObjectStream.Proofs.Shortest

/-!
Lines of doubles.

The digits of the shortest decimal stand on the line with a point among them or with an exponent
behind them, and the reader finds the same decimal there. It lies in the interval of the double, so
the line reads back as that double (`Double.ofLine?_lineText`).
-/

namespace ObjectStream

/-! ## Characters -/

namespace Decimal

/-- The characters that the line of a double consists of. -/
def IsLineChar (c : Char) : Prop := c.isDigit = true ∨ c ∈ ['.', 'e', '+', '-', 'n', 'a', 'i', 'f']

theorem IsLineChar.on_line {c : Char} (h : IsLineChar c) :
    c.toNat < 0x80 ∧ c ≠ '\n' ∧ Text.isBlank c = false := by
  rcases h with digit | sign
  · obtain ⟨low, high⟩ := Char.bounds_of_isDigit digit
    refine ⟨by omega, ?_, ?_⟩
    · rintro rfl
      cases digit
    · simp only [Text.isBlank, Bool.or_eq_false_iff, Bool.and_eq_false_imp, decide_eq_true_eq,
        decide_eq_false_iff_not, beq_eq_false_iff_ne, ne_eq]
      omega
  · simp only [List.mem_cons, List.not_mem_nil, or_false] at sign
    rcases sign with rfl | rfl | rfl | rfl | rfl | rfl | rfl | rfl <;> decide

theorem isDigit_shortest {m : Nat} {e : Int} {c : Char} (h : c ∈ (shortest m e).digits) :
    c.isDigit = true := by
  rw [shortest] at h
  split at h
  · rw [List.mem_singleton.1 h]
    rfl
  · next some_ =>
    have dropped : ∀ digits : List Char, c ∈ dropFinalZeros digits → c ∈ digits := by
      intro digits h
      rw [dropFinalZeros] at h
      split at h
      · exact List.mem_of_mem_take h
      · have kept := List.mem_reverse.1 h
        exact List.mem_reverse.1 ((List.dropWhile_sublist _).subset kept)
    exact isDigit_of_mem_toDigits (dropped _ h)

section
variable {x : Decimal} {c : Char}

theorem isLineChar_positional (digits : ∀ c ∈ x.digits, c.isDigit = true) (h : c ∈ x.positional) :
    IsLineChar c := by
  have zero : ∀ count, c ∈ List.replicate count '0' → IsLineChar c := by
    intro count h
    rw [List.eq_of_mem_replicate h]
    exact .inl rfl
  rw [positional] at h
  split at h
  · simp only [List.mem_append, List.mem_cons, List.not_mem_nil, or_false] at h
    rcases h with ((rfl | rfl) | h) | h
    · exact .inl rfl
    · exact .inr (by simp)
    · exact zero _ h
    · exact .inl (digits c h)
  · simp only at h
    split at h
    · simp only [List.mem_append, List.mem_cons, List.not_mem_nil, or_false] at h
      rcases h with (h | h) | rfl | rfl
      · exact .inl (digits c h)
      · exact zero _ h
      · exact .inr (by simp)
      · exact .inl rfl
    · simp only [List.mem_append, List.mem_cons] at h
      rcases h with h | rfl | h
      · exact .inl (digits c (List.mem_of_mem_take h))
      · exact .inr (by simp)
      · exact .inl (digits c (List.mem_of_mem_drop h))

theorem isLineChar_mantissa (digits : ∀ c ∈ x.digits, c.isDigit = true) (h : c ∈ x.mantissa) :
    IsLineChar c := by
  rw [mantissa] at h
  split at h
  · cases h
  · next d only => exact .inl (digits c (only ▸ h))
  · next d rest more =>
    simp only [List.mem_cons] at h
    rcases h with rfl | rfl | h
    · exact .inl (digits c (more ▸ List.mem_cons_self ..))
    · exact .inr (by simp)
    · exact .inl (digits c (more ▸ List.mem_cons_of_mem _ h))

theorem isLineChar_lineText (digits : ∀ c ∈ x.digits, c.isDigit = true) (h : c ∈ x.lineText) :
    IsLineChar c := by
  rw [lineText] at h
  split at h
  · exact isLineChar_positional digits h
  · simp only [List.mem_append, List.mem_cons, List.not_mem_nil, or_false] at h
    rcases h with (h | rfl | rfl) | h
    · exact isLineChar_mantissa digits h
    · exact .inr (by simp)
    · split <;> exact .inr (by simp)
    · rw [twoDigits] at h
      split at h
      · rcases List.mem_cons.1 h with rfl | h
        · exact .inl rfl
        · exact .inl (isDigit_of_mem_toDigits h)
      · exact .inl (isDigit_of_mem_toDigits h)

end

end Decimal

/-! ## Sizes -/

namespace Decimal

variable {ds : List Char} {x : Decimal}

theorem ofDigitChars_lt (digits : ∀ c ∈ ds, c.isDigit = true) :
    Nat.ofDigitChars 10 ds 0 < 10 ^ ds.length := by
  induction ds with
  | nil => simp
  | cons c rest ih =>
    obtain ⟨low, high⟩ := Char.bounds_of_isDigit (digits c (List.mem_cons_self ..))
    have below := ih fun d mem => digits d (List.mem_cons_of_mem _ mem)
    have digit : c.toNat - '0'.toNat ≤ 9 := by
      rw [show '0'.toNat = 48 from rfl]
      omega
    rw [Nat.ofDigitChars_cons, Nat.ofDigitChars_eq_ofDigitChars_zero, List.length_cons, pow_succ]
    nlinarith [Nat.mul_le_mul_left (10 ^ rest.length) digit]

theorem le_ofDigitChars {d : Char} (rest : List Char) (digit : d.isDigit = true) (first : d ≠ '0') :
    10 ^ rest.length ≤ Nat.ofDigitChars 10 (d :: rest) 0 := by
  obtain ⟨low, high⟩ := Char.bounds_of_isDigit digit
  have some_ : 1 ≤ d.toNat - '0'.toNat := by
    have other : d.toNat ≠ '0'.toNat := fun same => first (Char.toNat_inj.1 same)
    rw [show '0'.toNat = 48 from rfl] at other ⊢
    omega
  rw [Nat.ofDigitChars_cons, Nat.ofDigitChars_eq_ofDigitChars_zero]
  nlinarith [Nat.mul_le_mul_left (10 ^ rest.length) some_]

/-- A decimal lies between two powers of ten. -/
theorem value_bounds {d : Char} {rest : List Char} (digits : ∀ c ∈ d :: rest, c.isDigit = true)
    (first : d ≠ '0') (k : Int) :
    (10 : ℚ) ^ (k + rest.length) ≤ Nat.ofDigitChars 10 (d :: rest) 0 * 10 ^ k ∧
      (Nat.ofDigitChars 10 (d :: rest) 0 : ℚ) * 10 ^ k < 10 ^ (k + rest.length + 1) := by
  have power := ten_zpow_pos k
  have low := le_ofDigitChars rest (digits d (List.mem_cons_self ..)) first
  have high := ofDigitChars_lt digits
  rw [List.length_cons] at high
  constructor
  · rw [add_comm, zpow_add₀ (by norm_num), zpow_natCast]
    refine mul_le_mul_of_nonneg_right ?_ power.le
    exact_mod_cast low
  · rw [add_assoc, add_comm, zpow_add₀ (by norm_num)]
    refine mul_lt_mul_of_pos_right ?_ power
    exact_mod_cast high

end Decimal

namespace Double

open Decimal

variable {m : Nat} {e : Int} {q : ℚ} {negative : Bool}

/-- The numbers in intervals of doubles are neither too large nor too small. -/
theorem near_bounds (fits : Fits m e) (positive : 0 < m) (near : Near m e q) :
    (10 : ℚ) ^ (-400 : Int) < q ∧ q < 10 ^ (400 : Int) := by
  have one : (1 : ℚ) ≤ m := by exact_mod_cast positive
  have small : (m : ℚ) + 1 ≤ 2 ^ 53 := by exact_mod_cast fits.small
  have part := (gap_bounds m e).2
  have power := two_zpow_pos e
  have block : (2 : ℚ) ^ 128 ≤ 10 ^ 39 := by norm_num
  constructor
  · have least : (2 : ℚ) ^ (-1152 : Int) ≤ q := by
      refine le_trans ?_ near.low
      have grid : (2 : ℚ) ^ (-1152 : Int) ≤ 2 ^ (-1 + e) :=
        zpow_le_zpow_right₀ (by norm_num) (by have := fits.least; omega)
      refine grid.trans ?_
      rw [two_zpow_add]
      refine mul_le_mul_of_nonneg_right ?_ power.le
      norm_num
      linarith
    refine lt_of_lt_of_le ?_ least
    have blocks : (2 : ℚ) ^ (-1152 : Int) = ((2 ^ 128) ^ 9)⁻¹ := by
      rw [← pow_mul]
      norm_num
    have blocks' : (10 : ℚ) ^ (-400 : Int) = (10 ^ 400)⁻¹ := by norm_num
    rw [blocks, blocks']
    refine inv_strictAnti₀ (by positivity) ?_
    calc ((2 : ℚ) ^ 128) ^ 9 ≤ (10 ^ 39) ^ 9 := pow_le_pow_left₀ (by positivity) block 9
      _ = 10 ^ 351 := by rw [← pow_mul]
      _ < 10 ^ 400 := pow_lt_pow_right₀ (by norm_num) (by norm_num)
  · have most : q < (2 : ℚ) ^ (1024 : Int) := by
      refine lt_of_le_of_lt near.high ?_
      have grid : (2 : ℚ) ^ (53 + e) ≤ 2 ^ (1024 : Int) :=
        zpow_le_zpow_right₀ (by norm_num) (by have := fits.most; omega)
      refine lt_of_lt_of_le ?_ grid
      rw [two_zpow_add]
      refine mul_lt_mul_of_pos_right ?_ power
      norm_num at small ⊢
      linarith
    refine lt_of_lt_of_le most ?_
    have blocks : (2 : ℚ) ^ (1024 : Int) = (2 ^ 128) ^ 8 := by
      rw [← pow_mul]
      norm_num
    have blocks' : (10 : ℚ) ^ (400 : Int) = 10 ^ 400 := by norm_num
    rw [blocks, blocks']
    calc ((2 : ℚ) ^ 128) ^ 8 ≤ (10 ^ 39) ^ 8 := pow_le_pow_left₀ (by positivity) block 8
      _ = 10 ^ 312 := by rw [← pow_mul]
      _ ≤ 10 ^ 400 := pow_le_pow_right₀ (by norm_num) (by norm_num)

theorem digitsValue_eq (ds : List Char) : digitsValue ds = Nat.ofDigitChars 10 ds 0 := by
  rw [digitsValue, Digits.value_eq_evaluate, List.map_reverse, Literal.evaluate_reverse]

/-- Digits in the interval of a double are read as that double. -/
theorem ofDigits_near (fits : Fits m e) (positive : 0 < m) {d : Char} {rest : List Char} {k : Int}
    (digits : ∀ c ∈ d :: rest, c.isDigit = true) (first : d ≠ '0')
    (near : Near m e (Nat.ofDigitChars 10 (d :: rest) 0 * 10 ^ k)) :
    ofDigits negative (d :: rest) k = pack negative m e := by
  obtain ⟨low, high⟩ := value_bounds digits first k
  obtain ⟨least, most⟩ := near_bounds fits positive near
  have ten : (1 : ℚ) < 10 := by norm_num
  have above := (zpow_lt_zpow_iff_right₀ ten).1 (low.trans_lt most)
  have below := (zpow_lt_zpow_iff_right₀ ten).1 (least.trans high)
  obtain ⟨-, bottom, power⟩ := powerOfTen_eq k
  rw [ofDigits, if_neg (by simp), List.length_cons, if_neg (by push_cast; omega),
    if_neg (by push_cast; omega)]
  refine ofQuotient_eq fits positive bottom ?_
  show Near m e ((digitsValue (d :: rest) * (powerOfTen k).1 : Nat) / (powerOfTen k).2)
  rwa [digitsValue_eq, Nat.cast_mul, mul_div_assoc, power]

/-! ## Reading a line -/

theorem splitDigits_append {ds : List Char} (digits : ∀ c ∈ ds, c.isDigit = true) (rest : List Char)
    (stop : ∀ c ∈ rest.head?, c.isDigit = false) : splitDigits (ds ++ rest) = (ds, rest) := by
  rw [splitDigits, List.span_eq_takeWhile_dropWhile, List.takeWhile_append_of_pos digits,
    List.dropWhile_append_of_pos digits]
  cases rest with
  | nil => simp
  | cons c rest =>
    have other := stop c rfl
    rw [List.takeWhile_cons_of_neg (by simp [other]), List.dropWhile_cons_of_neg (by simp [other]),
      List.append_nil]

variable {whole fraction tail : List Char} {k : Int}

/-- Digits with a point among them. -/
theorem readUnsigned?_point (digits : ∀ c ∈ whole ++ fraction, c.isDigit = true)
    (some_ : whole ++ fraction ≠ []) (stop : ∀ c ∈ tail.head?, c.isDigit = false)
    (exponent : readExponent? tail = some k) :
    readUnsigned? negative (whole ++ '.' :: (fraction ++ tail)) =
      some (ofDigits negative ((whole ++ fraction).dropWhile (· == '0')) (k - fraction.length)) := by
  have front := splitDigits_append (fun c mem => digits c (List.mem_append_left _ mem))
    ('.' :: (fraction ++ tail)) (by simp [Char.isDigit])
  have back := splitDigits_append (fun c mem => digits c (List.mem_append_right _ mem)) tail stop
  simp only [readUnsigned?, front, back, exponent, List.isEmpty_eq_false_iff.2 some_]
  rfl

/-- Digits without a point, before an exponent. -/
theorem readUnsigned?_whole (negative : Bool) (digits : ∀ c ∈ whole, c.isDigit = true) (some_ : whole ≠ [])
    (exponent : readExponent? ('e' :: tail) = some k) :
    readUnsigned? negative (whole ++ 'e' :: tail) =
      some (ofDigits negative (whole.dropWhile (· == '0')) k) := by
  have front := splitDigits_append digits ('e' :: tail) (by simp [Char.isDigit])
  rw [readUnsigned?, front]
  show (if (whole ++ []).isEmpty then none
    else (readExponent? ('e' :: tail)).bind fun exponent =>
      some (ofDigits negative ((whole ++ []).dropWhile (· == '0')) (exponent - (0 : Nat)))) = _
  rw [List.append_nil, if_neg (by simpa using some_), exponent, Option.bind_some, Nat.cast_zero,
    sub_zero]

/-- The exponents of doubles are read. -/
theorem readExponent?_twoDigits {k : Int} (small : k.natAbs ≤ 400) :
    readExponent? ('e' :: (if k < 0 then '-' else '+') :: twoDigits k.natAbs) = some k := by
  have all : ∀ n : Nat, n ≤ 400 → (twoDigits n).isEmpty = false ∧
      (twoDigits n).all Char.isDigit = true ∧ exponentValue (twoDigits n) = n := by
    decide +kernel
  obtain ⟨nonempty, digits, value⟩ := all k.natAbs small
  have split := splitDigits_append (List.all_eq_true.1 digits) [] nofun
  rw [List.append_nil] at split
  cases digits : twoDigits k.natAbs with
  | nil => rw [digits] at nonempty; cases nonempty
  | cons c rest =>
    rw [digits] at split value
    by_cases negative : k < 0
    · simp only [if_pos negative, readExponent?, split, value, true_or, if_true]
      have back : -(k.natAbs : Int) = k := by omega
      rw [back]
    · simp only [if_neg negative, readExponent?, split, value, true_or, if_true]
      have back : (k.natAbs : Int) = k := by omega
      rw [if_neg (by decide), back]

/-! ## Layouts -/

/-- The reader finds digits in the text that stand for the decimal. -/
def Spells (text : List Char) (x : Decimal) : Prop :=
  ∀ negative, ∃ d rest k, readUnsigned? negative text = some (ofDigits negative (d :: rest) k) ∧
    (∀ c ∈ d :: rest, c.isDigit = true) ∧ d ≠ '0' ∧
    (Nat.ofDigitChars 10 (d :: rest) 0 * 10 ^ k : ℚ) = x.value

section
variable {x : Decimal} {d : Char} {rest : List Char} {count : Nat}

theorem isDigit_of_mem_zeros {c : Char} (h : c ∈ List.replicate count '0') : c.isDigit = true := by
  rw [List.eq_of_mem_replicate h]
  rfl

/-- Zeros at the front are skipped. -/
theorem readUnsigned?_zeros (negative : Bool) (whole fraction tail : List Char) (count : Nat)
    (digits : ∀ c ∈ d :: rest, c.isDigit = true) (first : d ≠ '0')
    (zeros : whole ++ fraction = List.replicate count '0' ++ d :: rest)
    (stop : ∀ c ∈ tail.head?, c.isDigit = false) (exponent : readExponent? tail = some k) :
    readUnsigned? negative (whole ++ '.' :: (fraction ++ tail)) =
      some (ofDigits negative (d :: rest) (k - fraction.length)) := by
  have all : ∀ c ∈ whole ++ fraction, c.isDigit = true := by
    intro c mem
    rw [zeros] at mem
    rcases List.mem_append.1 mem with mem | mem
    · exact isDigit_of_mem_zeros mem
    · exact digits c mem
  rw [readUnsigned?_point all (by simp [zeros]) stop exponent, zeros,
    List.dropWhile_append_of_pos fun c mem => by simp [List.eq_of_mem_replicate mem],
    List.dropWhile_cons_of_neg (by simpa using first)]

/-- The point stands before the digits. -/
theorem spells_before (formed : x.WellFormed) (before : x.exponent + 1 ≤ 0) :
    Spells (['0', '.'] ++ List.replicate (-(x.exponent + 1)).toNat '0' ++ x.digits) x := by
  obtain ⟨digits, d, rest, split, first⟩ := formed
  intro negative
  have read := readUnsigned?_zeros negative ['0']
    (List.replicate (-(x.exponent + 1)).toNat '0' ++ x.digits) []
    ((-(x.exponent + 1)).toNat + 1) (split ▸ digits) first
    (by rw [split, List.replicate_succ]; rfl) nofun rfl
  rw [List.append_nil, List.length_append, List.length_replicate] at read
  refine ⟨d, rest, _, read, split ▸ digits, first, ?_⟩
  rw [value, split]
  congr 2
  push_cast
  omega

/-- Zeros stand between the digits and the point. -/
theorem spells_behind (formed : x.WellFormed) (short : x.digits.length ≤ (x.exponent + 1).toNat) :
    Spells (x.digits ++ List.replicate ((x.exponent + 1).toNat - x.digits.length) '0' ++
      ['.', '0']) x := by
  obtain ⟨digits, d, rest, split, first⟩ := formed
  rw [split] at digits short ⊢
  generalize gap : (x.exponent + 1).toNat - (d :: rest).length = zeros
  have all : ∀ c ∈ d :: (rest ++ List.replicate (zeros + 1) '0'), c.isDigit = true := by
    intro c mem
    rcases List.mem_append.1 (List.cons_append ▸ mem) with mem | mem
    · exact digits c mem
    · exact isDigit_of_mem_zeros mem
  intro negative
  have read := readUnsigned?_zeros negative (d :: rest ++ List.replicate zeros '0') ['0'] [] 0
    all first
    (by rw [List.replicate_succ', List.append_assoc]; rfl) nofun rfl
  refine ⟨d, _, _, read, all, first, ?_⟩
  rw [← List.cons_append, Nat.ofDigitChars_append, Nat.ofDigitChars_replicate_zero, value, split,
    Nat.cast_mul, Nat.cast_pow, Nat.cast_ofNat, mul_comm (_ ^ _), mul_assoc, ← zpow_natCast,
    ← zpow_add₀ (by norm_num)]
  congr 2
  simp only [List.length_cons, List.length_nil] at gap short ⊢
  push_cast
  omega

/-- The point stands among the digits. -/
theorem spells_among (formed : x.WellFormed) (after : ¬ x.exponent + 1 ≤ 0)
    (long : ¬ x.digits.length ≤ (x.exponent + 1).toNat) :
    Spells (x.digits.take (x.exponent + 1).toNat ++ '.' :: x.digits.drop (x.exponent + 1).toNat)
      x := by
  obtain ⟨digits, d, rest, split, first⟩ := formed
  intro negative
  have read := readUnsigned?_zeros negative (x.digits.take (x.exponent + 1).toNat)
    (x.digits.drop (x.exponent + 1).toNat) [] 0 (split ▸ digits) first
    (by rw [List.take_append_drop, split]; rfl) nofun rfl
  rw [List.append_nil, List.length_drop] at read
  refine ⟨d, rest, _, read, split ▸ digits, first, ?_⟩
  rw [value, ← split]
  congr 2
  omega

theorem positional_spells (formed : x.WellFormed) : Spells x.positional x := by
  rw [positional]
  split
  · next before => exact spells_before formed before
  · next after =>
    simp only
    split
    · next short => exact spells_behind formed short
    · next long => exact spells_among formed after long

theorem scientific_spells (formed : x.WellFormed) (small : x.exponent.natAbs ≤ 400) :
    Spells (x.mantissa ++ ['e', if x.exponent < 0 then '-' else '+'] ++
      twoDigits x.exponent.natAbs) x := by
  obtain ⟨digits, d, rest, split, first⟩ := formed
  have exponent := readExponent?_twoDigits small
  intro negative
  rw [split] at digits
  refine ⟨d, rest, x.exponent - rest.length, ?_, digits, first, ?_⟩
  · rw [mantissa, split, List.append_assoc]
    cases rest with
    | nil =>
      have read := readUnsigned?_whole negative digits (by simp) exponent
      rw [List.dropWhile_cons_of_neg (by simpa using first)] at read
      rw [List.length_nil, Nat.cast_zero, sub_zero]
      exact read
    | cons d' rest =>
      exact readUnsigned?_zeros negative [d] (d' :: rest) _ 0 digits first rfl (by simp [Char.isDigit]) exponent
  · rw [value, split, List.length_cons]
    congr 2
    push_cast
    ring

theorem lineText_spells (formed : x.WellFormed) (small : x.exponent.natAbs ≤ 400) :
    Spells x.lineText x := by
  rw [Decimal.lineText]
  split
  · exact positional_spells formed
  · exact scientific_spells formed small

end

/-- The decimal in the interval of a double has a small exponent. -/
theorem near_exponent (fits : Fits m e) (positive : 0 < m) {x : Decimal} (formed : x.WellFormed)
    (near : Near m e x.value) : x.exponent.natAbs ≤ 400 := by
  obtain ⟨digits, d, rest, split, first⟩ := formed
  rw [value, split] at near
  obtain ⟨low, high⟩ := value_bounds (split ▸ digits) first
    (x.exponent + 1 - ((d :: rest).length : Int))
  obtain ⟨least, most⟩ := near_bounds fits positive near
  have ten : (1 : ℚ) < 10 := by norm_num
  have above := (zpow_lt_zpow_iff_right₀ ten).1 (low.trans_lt most)
  have below := (zpow_lt_zpow_iff_right₀ ten).1 (least.trans high)
  rw [List.length_cons] at above below
  push_cast at above below
  omega

/-- The line of the shortest decimal is read as the double. -/
theorem readUnsigned?_shortest (fits : Fits m e) :
    readUnsigned? negative (shortest m e).lineText = some (pack negative m e) := by
  rcases Nat.eq_zero_or_pos m with rfl | positive
  · obtain rfl : e = -1074 := fits.full.resolve_left (by decide)
    rfl
  · obtain ⟨near, formed⟩ := near_shortest fits positive
    obtain ⟨d, rest, k, read, digits, first, same⟩ :=
      lineText_spells formed (near_exponent fits positive formed near) negative
    rw [read, ofDigits_near fits positive digits first (same ▸ near)]

/-! ## Signs -/

theorem lineText_first (fits : Fits m e) :
    ∃ c rest, (shortest m e).lineText = c :: rest ∧ c.isDigit = true := by
  rcases Nat.eq_zero_or_pos m with rfl | positive
  · exact ⟨'0', ['.', '0'], rfl, rfl⟩
  · obtain ⟨digits, d, rest, split, -⟩ := (near_shortest fits positive).2
    have digit := digits d (split ▸ List.mem_cons_self ..)
    rw [Decimal.lineText]
    split
    · rw [positional]
      split
      · exact ⟨'0', _, rfl, rfl⟩
      · next after =>
        simp only
        split
        · exact ⟨d, _, by rw [split]; rfl, digit⟩
        · obtain ⟨n, succ⟩ : ∃ n, ((shortest m e).exponent + 1).toNat = n + 1 :=
            ⟨((shortest m e).exponent + 1).toNat - 1, by omega⟩
          exact ⟨d, _, by rw [split, succ]; rfl, digit⟩
    · rw [mantissa, split]
      cases rest with
      | nil => exact ⟨d, _, rfl, digit⟩
      | cons => exact ⟨d, _, rfl, digit⟩

/-- The text of a number is none of the words. -/
theorem ofText?_digit {c : Char} (rest : List Char) (digit : c.isDigit = true) :
    ofText? (c :: rest) = readUnsigned? false (c :: rest) ∧
      ofText? ('-' :: c :: rest) = readUnsigned? true (c :: rest) := by
  obtain ⟨low, high⟩ := Char.bounds_of_isDigit digit
  have lower : c.toLower = c := by
    refine dif_neg (e := fun _ => c) fun upper => ?_
    have above : 65 ≤ c.toNat := UInt32.le_iff_toNat_le.1 upper.1
    omega
  have word : ∀ w : List Char, w.head?.any Char.isDigit = false →
      ¬ String.ofList ((c :: rest).map Char.toLower) = String.ofList w := by
    intro w other same
    rw [← String.ofList_inj.1 same, List.map_cons, lower] at other
    exact absurd digit (by simpa using other)
  have unsigned : ∀ negative,
      (if String.ofList ((c :: rest).map Char.toLower) = "nan" then some (quietNaN negative)
        else if String.ofList ((c :: rest).map Char.toLower) = "inf" ∨
          String.ofList ((c :: rest).map Char.toLower) = "infinity" then some (infinity negative)
        else readUnsigned? negative (c :: rest)) = readUnsigned? negative (c :: rest) := by
    intro negative
    rw [if_neg (word ['n', 'a', 'n'] rfl), if_neg]
    rintro (same | same)
    · exact word ['i', 'n', 'f'] rfl same
    · exact word ['i', 'n', 'f', 'i', 'n', 'i', 't', 'y'] rfl same
  refine ⟨?_, unsigned true⟩
  rw [ofText?]
  · exact unsigned false
  · rintro r ⟨⟩
    cases digit
  · rintro r ⟨⟩
    cases digit

theorem infinity_isNegative {x : Double} (infinite : x.isInfinite = true) :
    infinity x.isNegative = x := by
  simp only [isInfinite, Bool.and_eq_true, beq_iff_eq] at infinite
  have bits := x.bits_eq
  rw [infinite.1, infinite.2] at bits
  have same : infinity x.isNegative = ⟨UInt64.ofNat x.bits.toNat⟩ := by
    rw [bits]
    rfl
  rw [same, UInt64.ofNat_toNat]

theorem isLineChar_lineText {x : Double} {c : Char} (h : c ∈ x.lineText.toList) :
    Decimal.IsLineChar c := by
  have sign : c ∈ x.signText [] → Decimal.IsLineChar c := by
    intro h
    rw [signText] at h
    split at h
    · rw [List.mem_singleton.1 h]
      exact .inr (by simp)
    · cases h
  rw [lineText] at h
  split at h
  · have chars : c ∈ ['n', 'a', 'n'] := h
    simp only [List.mem_cons, List.not_mem_nil, or_false] at chars
    rcases chars with rfl | rfl | rfl <;> exact .inr (by simp)
  split at h
  · simp only [String.toList_ofList, List.mem_append, List.mem_cons, List.not_mem_nil,
      or_false] at h
    rcases h with h | rfl | rfl | rfl
    · exact sign h
    · exact .inr (by simp)
    · exact .inr (by simp)
    · exact .inr (by simp)
  · simp only [String.toList_ofList, List.mem_append] at h
    rcases h with h | h
    · exact sign h
    · exact Decimal.isLineChar_lineText (fun c => Decimal.isDigit_shortest) h

theorem onLine_lineText (x : Double) : Text.OnLine x.lineText.toList := by
  intro c h
  obtain ⟨low, line, -⟩ := (isLineChar_lineText h).on_line
  exact ⟨low, line⟩

theorem trimmed?_lineText (x : Double) :
    Literal.trimmed? (Bytes.ascii x.lineText) = some x.lineText.toList := by
  rw [Literal.trimmed?, Text.ofUtf8?_ascii fun c h => (x.onLine_lineText c h).1, Option.map_some,
    Text.trim_of_no_blank fun c h => (isLineChar_lineText h).on_line.2.2]

/-- The line of a double is read as that double. -/
theorem ofLine?_lineText {x : Double} (ordinary : x.isNaN = false) :
    ofLine? (Bytes.ascii x.lineText) = some x := by
  rw [ofLine?, trimmed?_lineText]
  show ofText? x.lineText.toList = some x
  rw [lineText, if_neg (by simp [ordinary])]
  split
  · next infinite =>
    rw [String.toList_ofList, signText, ← congrArg some (infinity_isNegative infinite)]
    cases x.isNegative <;> rfl
  · next ends =>
    have finite : x.isFinite = true := by
      simp only [isNaN, isInfinite, isFinite, Bool.and_eq_true, Bool.and_eq_false_imp, beq_iff_eq,
        bne_iff_ne, ne_eq] at ordinary ends ⊢
      grind
    have fits := fits_parts finite
    obtain ⟨c, rest, first, digit⟩ := lineText_first fits
    have read : readUnsigned? x.isNegative (c :: rest) = some x := by
      rw [← first, readUnsigned?_shortest fits, pack_parts finite]
    rw [String.toList_ofList, decimal, first, signText]
    cases negative : x.isNegative with
    | false => rw [← read, negative]; exact (ofText?_digit rest digit).1
    | true => rw [← read, negative]; exact (ofText?_digit rest digit).2

/-- The line of a not-a-number is read as the one without a payload. -/
theorem ofLine?_nan : ofLine? (Bytes.ascii "nan") = some (quietNaN false) := by
  have text : (quietNaN false).lineText = "nan" := rfl
  rw [ofLine?, ← text, trimmed?_lineText]
  rfl

end Double

end ObjectStream
