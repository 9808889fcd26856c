import ObjectStream.Proofs.FloatLines

/-!
The number on the line of a double.

A numeral has digits on both sides of a point, or one digit, a point before further digits, and a power
of ten. Numerals that are spelled alike are the same (`Numeral.spelled_inj`), so a text that spells one
denotes one number. What stands on a line for a sign, digits and a power of ten is a numeral of just
that number, without a power of ten from -4 to 15 and with one outside, and the digits are cut only
where there are some (`Decimal.lineText_numeral`).
-/

namespace ObjectStream

/-! ## Numerals -/

/-- A nonempty string of decimal digits. -/
@[ext]
structure DigitString where
  chars : List Char
  digits : ∀ c ∈ chars, c.isDigit = true
  nonempty : chars ≠ []

namespace DigitString

/-- The number that the digits spell. -/
def number (ds : DigitString) : Nat := Nat.ofDigitChars 10 ds.chars 0

/-- A single zero. -/
def zero : DigitString := ⟨['0'], List.forall_mem_singleton.2 rfl, List.cons_ne_nil _ _⟩

/-- The digits behind `before` zeros and in front of `behind` zeros. -/
def padded (ds : DigitString) (before behind : Nat) : DigitString where
  chars := List.replicate before '0' ++ ds.chars ++ List.replicate behind '0'
  digits := by
    intro c mem
    simp only [List.mem_append] at mem
    rcases mem with (mem | mem) | mem
    · exact Double.isDigit_of_mem_zeros mem
    · exact ds.digits c mem
    · exact Double.isDigit_of_mem_zeros mem
  nonempty := by simp [ds.nonempty]

/-- The first digits. -/
def front (ds : DigitString) (place : Nat) (some_ : 0 < place) : DigitString where
  chars := ds.chars.take place
  digits := fun c mem => ds.digits c (List.mem_of_mem_take mem)
  nonempty := by
    have positive := List.length_pos_iff.2 ds.nonempty
    rw [← List.length_pos_iff, List.length_take]
    omega

/-- The digits behind a place among them. -/
def back (ds : DigitString) (place : Nat) (inside : place < ds.chars.length) : DigitString where
  chars := ds.chars.drop place
  digits := fun c mem => ds.digits c (List.mem_of_mem_drop mem)
  nonempty := by
    rw [← List.length_pos_iff, List.length_drop]
    omega

end DigitString

/-- A decimal number as it is spelled, apart from its sign. -/
inductive Numeral where
  /-- Digits on both sides of a point. -/
  | positional (whole fraction : DigitString)
  /-- One digit, the others behind a point if there are some, and a power of ten with its sign and at
      least two digits. -/
  | scientific (lead : Char) (digit : lead.isDigit = true) (fraction : Option DigitString)
      (negative : Bool) (exponent : DigitString) (two : 2 ≤ exponent.chars.length)

namespace Numeral

/-- Whether there is a point and no power of ten. -/
def isPositional : Numeral → Bool
  | positional .. => true
  | scientific .. => false

/-- The point and the digits behind it. -/
def fractionText : Option DigitString → List Char
  | none => []
  | some ds => '.' :: ds.chars

/-- The digits behind the point. -/
def fractionDigits : Option DigitString → List Char
  | none => []
  | some ds => ds.chars

/-- The characters of a numeral. -/
def text : Numeral → List Char
  | positional whole fraction => whole.chars ++ '.' :: fraction.chars
  | scientific lead _ fraction negative exponent _ =>
    lead :: (fractionText fraction ++ 'e' :: (if negative then '-' else '+') :: exponent.chars)

/-- The characters of a numeral behind its sign, which stands only before negative numbers. -/
def spelled (negative : Bool) (n : Numeral) : List Char :=
  (if negative then ['-'] else []) ++ n.text

/-- The number with these digits in front of a point and behind it. -/
def placed (whole fraction : List Char) : ℚ :=
  Nat.ofDigitChars 10 whole 0 + Nat.ofDigitChars 10 fraction 0 / 10 ^ fraction.length

/-- The number that a numeral stands for. -/
def value : Numeral → ℚ
  | positional whole fraction => placed whole.chars fraction.chars
  | scientific lead _ fraction negative exponent _ =>
    placed [lead] (fractionDigits fraction) *
      10 ^ (if negative then -(exponent.number : Int) else exponent.number)

/-- The number that a numeral under a sign stands for. -/
def number (negative : Bool) (n : Numeral) : ℚ := if negative then -n.value else n.value

/-! ## One reading -/

/-- Digits and what stands behind them are found in the text. -/
theorem digits_inj {ds es rest tail : List Char} (first : ∀ c ∈ ds, c.isDigit = true)
    (second : ∀ c ∈ es, c.isDigit = true) (stop : ∀ c ∈ rest.head?, c.isDigit = false)
    (stop' : ∀ c ∈ tail.head?, c.isDigit = false) (same : ds ++ rest = es ++ tail) :
    ds = es ∧ rest = tail := by
  have split := congrArg Double.splitDigits same
  rw [Double.splitDigits_append first _ stop, Double.splitDigits_append second _ stop'] at split
  exact Prod.mk.inj split

/-- Positional notation has no letter. -/
theorem letter_not_mem_positional (whole fraction : DigitString) :
    'e' ∉ (positional whole fraction).text := by
  intro mem
  simp only [text, List.mem_append, List.mem_cons] at mem
  rcases mem with mem | same | mem
  · exact absurd (whole.digits _ mem) (by decide)
  · exact absurd same (by decide)
  · exact absurd (fraction.digits _ mem) (by decide)

theorem letter_mem_scientific (lead : Char) (digit : lead.isDigit = true)
    (fraction : Option DigitString) (negative : Bool) (exponent : DigitString)
    (two : 2 ≤ exponent.chars.length) :
    'e' ∈ (scientific lead digit fraction negative exponent two).text := by
  simp [text]

/-- The fraction ends where the power of ten begins. -/
theorem fractionText_inj {f g : Option DigitString} {rest tail : List Char}
    (same : fractionText f ++ 'e' :: rest = fractionText g ++ 'e' :: tail) :
    f = g ∧ rest = tail := by
  cases f with
  | none =>
    cases g with
    | none => simpa [fractionText] using same
    | some es => simp [fractionText] at same
  | some ds =>
    cases g with
    | none => simp [fractionText] at same
    | some es =>
      simp only [fractionText, List.cons_append, List.cons.injEq, true_and] at same
      obtain ⟨chars, behind⟩ := digits_inj ds.digits es.digits (by simp [Char.isDigit])
        (by simp [Char.isDigit]) same
      exact ⟨congrArg some (DigitString.ext chars), (List.cons.inj behind).2⟩

/-- Numerals with the same characters are the same. -/
theorem text_inj {n m : Numeral} (same : n.text = m.text) : n = m := by
  cases n with
  | positional whole fraction =>
    cases m with
    | positional whole' fraction' =>
      obtain ⟨chars, behind⟩ := digits_inj whole.digits whole'.digits (by simp [Char.isDigit])
        (by simp [Char.isDigit]) same
      rw [DigitString.ext chars, DigitString.ext (List.cons.inj behind).2]
    -- only one of the two notations has the letter
    | scientific lead digit fraction' negative exponent two =>
      have letter := letter_mem_scientific lead digit fraction' negative exponent two
      rw [← same] at letter
      exact absurd letter (letter_not_mem_positional whole fraction)
  | scientific lead digit fraction negative exponent two =>
    cases m with
    | positional whole fraction' =>
      have letter := letter_mem_scientific lead digit fraction negative exponent two
      rw [same] at letter
      exact absurd letter (letter_not_mem_positional whole fraction')
    | scientific lead' digit' fraction' negative' exponent' two' =>
      simp only [text, List.cons.injEq] at same
      obtain ⟨rfl, same⟩ := same
      obtain ⟨rfl, behind⟩ := fractionText_inj same
      obtain ⟨sign, chars⟩ := List.cons.inj behind
      obtain rfl : exponent = exponent' := DigitString.ext chars
      have signs : negative = negative' := by
        cases negative <;> cases negative' <;> simp at sign ⊢
      rw [signs]

/-- A numeral begins with a digit. -/
theorem head?_text (n : Numeral) : ∃ c ∈ n.text.head?, c.isDigit = true := by
  cases n with
  | positional whole fraction =>
    obtain ⟨c, rest, split⟩ := List.exists_cons_of_ne_nil whole.nonempty
    refine ⟨c, by simp [text, split], whole.digits c ?_⟩
    rw [split]
    exact List.mem_cons_self
  | scientific lead digit fraction negative exponent two => exact ⟨lead, rfl, digit⟩

theorem text_ne_minus {n : Numeral} {rest : List Char} : n.text ≠ '-' :: rest := by
  intro same
  obtain ⟨c, mem, digit⟩ := n.head?_text
  rw [same, List.head?_cons, Option.mem_some_iff] at mem
  subst mem
  exact absurd digit (by decide)

/-- A text spells one numeral under one sign at most. -/
theorem spelled_inj {a b : Bool} {n m : Numeral} :
    n.spelled a = m.spelled b ↔ a = b ∧ n = m := by
  constructor
  · intro same
    cases a with
    | false =>
      cases b with
      | false => exact ⟨rfl, text_inj same⟩
      | true => exact absurd same text_ne_minus
    | true =>
      cases b with
      | false => exact absurd same.symm text_ne_minus
      | true => exact ⟨rfl, text_inj (List.cons.inj same).2⟩
  · rintro ⟨rfl, rfl⟩
    rfl

/-! ## Places -/

/-- Digits around a point stand for the number of all of them, moved by the places behind it. -/
theorem placed_eq (whole fraction : List Char) :
    placed whole fraction =
      Nat.ofDigitChars 10 (whole ++ fraction) 0 * 10 ^ (-(fraction.length : Int)) := by
  have power : (10 : ℚ) ^ fraction.length ≠ 0 := by positivity
  calc placed whole fraction
      = (10 ^ fraction.length * Nat.ofDigitChars 10 whole 0 + Nat.ofDigitChars 10 fraction 0) /
          10 ^ fraction.length := by
        rw [placed, add_div, mul_div_cancel_left₀ _ power]
    _ = (10 ^ fraction.length * Nat.ofDigitChars 10 whole 0 + Nat.ofDigitChars 10 fraction 0 : Nat) *
          10 ^ (-(fraction.length : Int)) := by
        rw [zpow_neg, zpow_natCast, div_eq_mul_inv]
        push_cast
        rfl
    _ = Nat.ofDigitChars 10 (whole ++ fraction) 0 * 10 ^ (-(fraction.length : Int)) := by
        rw [Nat.ofDigitChars_append, ← Nat.ofDigitChars_eq_ofDigitChars_zero]

/-- Zeros in front of digits do not count. -/
theorem ofDigitChars_zeros (count : Nat) (ds : List Char) :
    Nat.ofDigitChars 10 (List.replicate count '0' ++ ds) 0 = Nat.ofDigitChars 10 ds 0 := by
  rw [Nat.ofDigitChars_append, Nat.ofDigitChars_replicate_zero, Nat.mul_zero]

/-- Around its point the decimal has its first digit and the others. -/
theorem placed_first {x : Decimal} (some_ : x.digits ≠ []) :
    placed (x.digits.take 1) (x.digits.drop 1) * 10 ^ x.exponent = x.value := by
  have positive := List.length_pos_iff.2 some_
  rw [placed_eq, List.take_append_drop, Decimal.value, mul_assoc, ← zpow_add₀ (by norm_num),
    List.length_drop]
  congr 2
  omega

end Numeral

namespace Decimal

open Numeral

/-! ## Layouts -/

/-- The text is that of a numeral with this number, which has a power of ten or has none. -/
def Spelt (text : List Char) (positional : Bool) (q : ℚ) : Prop :=
  ∃ n : Numeral, n.text = text ∧ n.isPositional = positional ∧ n.value = q

section
variable (digits : DigitString) {exponent : Int}

/-- The point stands before the digits. -/
theorem spelt_before (before : exponent + 1 ≤ 0) :
    Spelt (['0', '.'] ++ List.replicate (-(exponent + 1)).toNat '0' ++ digits.chars) true
      (value ⟨digits.chars, exponent⟩) := by
  refine ⟨.positional .zero (digits.padded (-(exponent + 1)).toNat 0), ?_, rfl, ?_⟩
  · simp [text, DigitString.zero, DigitString.padded]
  -- the zero before the point joins those behind it, and the places behind it are counted
  · have zeros : DigitString.zero.chars ++ (digits.padded (-(exponent + 1)).toNat 0).chars =
        List.replicate ((-(exponent + 1)).toNat + 1) '0' ++ digits.chars := by
      simp [DigitString.zero, DigitString.padded, List.replicate_succ]
    have places : (digits.padded (-(exponent + 1)).toNat 0).chars.length =
        (-(exponent + 1)).toNat + digits.chars.length := by
      simp [DigitString.padded]
    rw [Numeral.value, placed_eq, zeros, ofDigitChars_zeros, places, value]
    congr 2
    push_cast
    omega

/-- Zeros stand between the digits and the point. -/
theorem spelt_behind (short : digits.chars.length ≤ (exponent + 1).toNat) :
    Spelt (digits.chars ++ List.replicate ((exponent + 1).toNat - digits.chars.length) '0' ++
      ['.', '0']) true (value ⟨digits.chars, exponent⟩) := by
  have positive := List.length_pos_iff.2 digits.nonempty
  generalize gap : (exponent + 1).toNat - digits.chars.length = zeros
  refine ⟨.positional (digits.padded 0 zeros) .zero, ?_, rfl, ?_⟩
  · simp [text, DigitString.zero, DigitString.padded]
  -- the zero behind the point takes one power of ten back
  · have all : (digits.padded 0 zeros).chars ++ DigitString.zero.chars =
        digits.chars ++ List.replicate (zeros + 1) '0' := by
      simp [DigitString.zero, DigitString.padded, List.replicate_succ']
    have place : exponent + 1 - digits.chars.length = zeros := by omega
    have one : DigitString.zero.chars.length = 1 := rfl
    calc placed (digits.padded 0 zeros).chars DigitString.zero.chars
        = (10 ^ (zeros + 1) * Nat.ofDigitChars 10 digits.chars 0 : Nat) * 10 ^ (-1 : Int) := by
          rw [placed_eq, all, Nat.ofDigitChars_append, Nat.ofDigitChars_replicate_zero, one]
          rfl
      _ = Nat.ofDigitChars 10 digits.chars 0 * 10 ^ (zeros : Int) := by
          push_cast
          rw [zpow_natCast, pow_succ]
          ring
      _ = value ⟨digits.chars, exponent⟩ := by rw [value, place]

/-- The point stands among the digits. -/
theorem spelt_among (after : ¬ exponent + 1 ≤ 0)
    (long : ¬ digits.chars.length ≤ (exponent + 1).toNat) :
    Spelt (digits.chars.take (exponent + 1).toNat ++ '.' ::
      digits.chars.drop (exponent + 1).toNat) true (value ⟨digits.chars, exponent⟩) := by
  refine ⟨.positional (digits.front (exponent + 1).toNat (by omega))
    (digits.back (exponent + 1).toNat (by omega)), rfl, rfl, ?_⟩
  rw [Numeral.value, placed_eq]
  simp only [DigitString.front, DigitString.back, List.take_append_drop, List.length_drop, value]
  congr 2
  omega

theorem spelt_positional :
    Spelt (positional ⟨digits.chars, exponent⟩) true (value ⟨digits.chars, exponent⟩) := by
  rw [positional]
  split
  · next before => exact spelt_before digits before
  · next after =>
    simp only
    split
    · next short => exact spelt_behind digits short
    · next long => exact spelt_among digits after long

/-- An exponent has two digits or more, and they spell it. -/
theorem twoDigits_spec (n : Nat) : (∀ c ∈ twoDigits n, c.isDigit = true) ∧
    2 ≤ (twoDigits n).length ∧ Nat.ofDigitChars 10 (twoDigits n) 0 = n := by
  have digits : ∀ c ∈ Nat.toDigits 10 n, c.isDigit = true := fun c => isDigit_of_mem_toDigits
  rw [twoDigits]
  split
  · next small =>
    refine ⟨List.forall_mem_cons.2 ⟨rfl, digits⟩, ?_, ?_⟩
    · have positive := Nat.length_toDigits_pos (b := 10) (n := n)
      simp only [List.length_cons]
      omega
    · have zeros := ofDigitChars_zeros 1 (Nat.toDigits 10 n)
      rwa [Nat.ofDigitChars_ten_toDigits] at zeros
  · next large =>
    refine ⟨digits, ?_, Nat.ofDigitChars_ten_toDigits⟩
    have positive := Nat.length_toDigits_pos (b := 10) (n := n / 10)
    rw [Nat.toDigits_of_base_le (by decide) (Nat.le_of_not_lt large), List.length_append,
      List.length_singleton]
    omega

/-- One digit, the others behind a point, and the power of ten. -/
theorem spelt_scientific :
    Spelt (mantissa ⟨digits.chars, exponent⟩ ++ ['e', if exponent < 0 then '-' else '+'] ++
      twoDigits exponent.natAbs) false (value ⟨digits.chars, exponent⟩) := by
  obtain ⟨all, two, spelled⟩ := twoDigits_spec exponent.natAbs
  have some_ : twoDigits exponent.natAbs ≠ [] := by
    rw [← List.length_pos_iff]
    omega
  let power : DigitString := ⟨twoDigits exponent.natAbs, all, some_⟩
  have number : (if decide (exponent < 0) then -(power.number : Int) else power.number) =
      exponent := by
    have spelled : power.number = exponent.natAbs := spelled
    rw [spelled]
    by_cases negative : exponent < 0
    · rw [if_pos (decide_eq_true negative)]
      omega
    · rw [if_neg (by simpa using negative)]
      omega
  have first := placed_first (x := ⟨digits.chars, exponent⟩) digits.nonempty
  obtain ⟨lead, rest, split⟩ := List.exists_cons_of_ne_nil digits.nonempty
  have digit : lead.isDigit = true := digits.digits lead (by simp [split])
  simp only [split] at first ⊢
  cases rest with
  | nil =>
    refine ⟨.scientific lead digit none (decide (exponent < 0)) power two, ?_, rfl, ?_⟩
    · simp [text, fractionText, mantissa, power]
    · rw [Numeral.value, number]
      exact first
  | cons next rest =>
    have more : ∀ c ∈ next :: rest, c.isDigit = true := fun c mem =>
      digits.digits c (by rw [split]; exact List.mem_cons_of_mem lead mem)
    let fraction : DigitString := ⟨next :: rest, more, by simp⟩
    refine ⟨.scientific lead digit (some fraction) (decide (exponent < 0)) power two, ?_, rfl, ?_⟩
    · simp [text, fractionText, mantissa, power, fraction]
    · rw [Numeral.value, number]
      exact first

/-- The line spells the number of its digits; the power of ten is left out from -4 to 15. -/
theorem spelt_lineText :
    Spelt (lineText ⟨digits.chars, exponent⟩) (decide (-4 ≤ exponent ∧ exponent ≤ 15))
      (value ⟨digits.chars, exponent⟩) := by
  have ends : exponent < 16 ↔ exponent ≤ 15 := by omega
  rw [lineText]
  simp only [ends]
  split
  · next inside =>
    rw [decide_eq_true inside]
    exact spelt_positional digits
  · next outside =>
    rw [decide_eq_false outside]
    exact spelt_scientific digits

end

/-! ## Cuts -/

/-- The digits before a place and those behind it. Fails if the digits end before the place. -/
def cut? (digits : List Char) (place : Nat) : Option (List Char × List Char) :=
  if place ≤ digits.length then some (digits.take place, digits.drop place) else none

/-- The line layout, where every cut of the digits may fail. -/
def cutLine? (x : Decimal) : Option (List Char) :=
  if -4 ≤ x.exponent ∧ x.exponent < 16 then
    let point := x.exponent + 1
    if point ≤ 0 then some (['0', '.'] ++ List.replicate (-point).toNat '0' ++ x.digits)
    else
      let whole := point.toNat
      if x.digits.length ≤ whole then
        some (x.digits ++ List.replicate (whole - x.digits.length) '0' ++ ['.', '0'])
      else (cut? x.digits whole).map fun (front, back) => front ++ '.' :: back
  else
    (cut? x.digits 1).map fun (lead, rest) =>
      lead ++ (if 1 < x.digits.length then '.' :: rest else []) ++
        ['e', if x.exponent < 0 then '-' else '+'] ++ twoDigits x.exponent.natAbs

/-- The first digit is cut off where there is one. -/
theorem cut?_one {x : Decimal} (some_ : x.digits ≠ []) :
    (cut? x.digits 1).map (fun (lead, rest) =>
      lead ++ if 1 < x.digits.length then '.' :: rest else []) = some x.mantissa := by
  rw [mantissa]
  cases split : x.digits with
  | nil => exact absurd split some_
  | cons d rest => cases rest <;> simp [cut?]

/-- No cut of the line layout fails if there is a digit. -/
theorem cutLine?_eq {x : Decimal} (some_ : x.digits ≠ []) : x.cutLine? = some x.lineText := by
  rw [cutLine?, lineText]
  by_cases inside : -4 ≤ x.exponent ∧ x.exponent < 16
  · rw [if_pos inside, if_pos inside, positional]
    by_cases before : x.exponent + 1 ≤ 0
    · simp only [if_pos before]
    · by_cases short : x.digits.length ≤ (x.exponent + 1).toNat
      · simp only [if_neg before, if_pos short]
      · have reaches : (x.exponent + 1).toNat ≤ x.digits.length := by omega
        simp only [if_neg before, if_neg short, cut?, if_pos reaches, Option.map_some]
  · rw [if_neg inside, if_neg inside]
    obtain ⟨⟨lead, rest⟩, cut, front⟩ := Option.map_eq_some_iff.1 (cut?_one some_)
    rw [cut, ← front]
    rfl

/-- A line without digits would be cut behind its end. -/
example : cutLine? ⟨[], 16⟩ = none := rfl

end Decimal

/-! ## Lines -/

/-- A finite double has digits, and its line is laid out from them. -/
theorem Double.lineText_digits {x : Double} (finite : x.isFinite = true) :
    ∃ digits : DigitString, x.decimal = ⟨digits.chars, x.decimal.exponent⟩ ∧
      x.lineText.toList = (if x.isNegative then ['-'] else []) ++ x.decimal.lineText := by
  have some_ : x.decimal.digits ≠ [] := by
    rcases Nat.eq_zero_or_pos x.significand with zero | positive
    · rw [decimal, Decimal.shortest, if_pos zero]
      simp
    · obtain ⟨-, -, d, rest, split, -⟩ := Decimal.near_shortest (fits_parts finite) positive
      rw [decimal, split]
      simp
  have ordinary : ¬ x.isNaN = true ∧ ¬ x.isInfinite = true := by
    simp only [isFinite, isNaN, isInfinite, Bool.and_eq_true, bne_iff_ne, beq_iff_eq] at finite ⊢
    omega
  refine ⟨⟨x.decimal.digits, fun c => Decimal.isDigit_shortest, some_⟩, rfl, ?_⟩
  rw [lineText, if_neg ordinary.1, if_neg ordinary.2, String.toList_ofList, signText]

/-- The line for a sign, digits and a power of ten cuts the digits nowhere behind their end. It spells
    one numeral under one sign: that sign, and the number with the first digit before a point and the
    others behind it, times the power of ten. The numeral is positional from -4 to 15 and nowhere else.
    The lines of finite doubles are laid out so. -/
theorem Decimal.lineText_numeral (negative : Bool) (digits : DigitString) (exponent : Int) :
    let x : Decimal := ⟨digits.chars, exponent⟩
    let line := (if negative then ['-'] else []) ++ x.lineText
    x.cutLine? = some x.lineText ∧
      (∃ n : Numeral, (∀ sign (m : Numeral), m.spelled sign = line ↔ sign = negative ∧ m = n) ∧
        n.number negative = (if negative then -1 else 1) *
          (Numeral.placed (digits.chars.take 1) (digits.chars.drop 1) * 10 ^ exponent) ∧
        (n.isPositional = true ↔ -4 ≤ exponent ∧ exponent ≤ 15)) ∧
      ∀ f : Double, f.isFinite = true → ∃ ds : DigitString,
        f.decimal = ⟨ds.chars, f.decimal.exponent⟩ ∧
        f.lineText.toList = (if f.isNegative then ['-'] else []) ++ f.decimal.lineText := by
  intro x line
  obtain ⟨n, text, form, value⟩ := Decimal.spelt_lineText digits
  refine ⟨Decimal.cutLine?_eq digits.nonempty, ⟨n, ?_, ?_, ?_⟩, fun f => Double.lineText_digits⟩
  · intro sign m
    have same : line = n.spelled negative := by rw [Numeral.spelled, text]
    rw [same]
    exact Numeral.spelled_inj
  · rw [Numeral.placed_first (x := x) digits.nonempty, Numeral.number, value]
    cases negative <;> simp [x]
  · rw [form, decide_eq_true_iff]

/-- The first power of ten that is not written out. -/
theorem Decimal.lineText_numeral_border : ∃ f : Double, f.lineText = "1e+16" ∧
    f.isFinite = true ∧ ∃ ds : DigitString, f.decimal = ⟨ds.chars, f.decimal.exponent⟩ ∧
      f.lineText.toList = (if f.isNegative then ['-'] else []) ++ f.decimal.lineText :=
  ⟨⟨0x4341c37937e08000⟩, by decide +kernel, by decide,
    (Decimal.lineText_numeral false ⟨['1'], List.forall_mem_singleton.2 rfl, by simp⟩ 16).2.2 _ (by decide)⟩

end ObjectStream
