/-!
Positional digits of natural numbers in any base.

A number is spelled by its digits, the least significant first. `expand` and `evaluate` are the
schoolbook rules that go from digit to digit. `low` and `value` give the same answers
(`low_eq_expand`, `value_eq_evaluate`) and halve the work at every step, so that a number of a
hundred thousand digits costs a few large divisions instead of as many as it has digits.
`value_low` says that digits read back, and `text_eq_repr` that the decimal text is the usual one.
-/

namespace ObjectStream.Digits

/-- The `count` low digits of `n`, taken one at a time. -/
def expand (base : Nat) : (count n : Nat) → List Nat
  | 0, _ => []
  | count + 1, n => n % base :: expand base count (n / base)

/-- The number with these digits, added up one at a time. -/
def evaluate (base : Nat) (ds : List Nat) : Nat :=
  ds.foldr (fun d n => d + base * n) 0

/-- The `2 ^ level` low digits of `n` in front of `rest`: those of the remainder by
    `base ^ 2 ^ (level - 1)`, then those of the quotient. -/
def split (base : Nat) : (level n : Nat) → List Nat → List Nat
  | 0, n, rest => n % base :: rest
  | level + 1, n, rest =>
    let half := base ^ 2 ^ level
    split base level (n % half) (split base level (n / half) rest)

/-- The `count` low digits of `n`. -/
def low (base count n : Nat) : List Nat :=
  if count ≤ 64 then expand base count n
  else (split base (count.log2 + 1) n []).take count

/-- Joins neighbouring digits in base `base` to digits in its square. -/
def paired (base : Nat) : List Nat → List Nat
  | a :: b :: rest => (a + base * b) :: paired base rest
  | ds => ds

theorem length_paired_le (base : Nat) : (ds : List Nat) → (paired base ds).length ≤ ds.length
  | [] => Nat.le_refl _
  | [_] => Nat.le_refl _
  | _ :: _ :: rest => by
    have := length_paired_le base rest
    simp only [paired, List.length_cons]
    omega

/-- The number with these digits. -/
def value (base : Nat) : List Nat → Nat
  | [] => 0
  | [d] => d
  | a :: b :: rest => value (base * base) ((a + base * b) :: paired base rest)
termination_by ds => ds.length
decreasing_by
  have := length_paired_le base rest
  simp only [List.length_cons]
  omega

/-- The decimal text of a natural number. -/
def text (n : Nat) : String :=
  if n = 0 then "0"
  else String.ofList
    (((low 10 (n.log2 + 1) n).reverse.dropWhile (· == 0)).map Nat.digitChar)

/-- The decimal text of an integer, with a minus sign before the digits of a negative one. -/
def signedText : Int → String
  | .ofNat n => text n
  | .negSucc n => "-" ++ text (n + 1)

theorem expand_add (base j k n : Nat) :
    expand base (j + k) n = expand base j n ++ expand base k (n / base ^ j) := by
  induction j generalizing n with
  | zero => simp [expand]
  | succ j ih =>
    have power : base ^ (j + 1) = base * base ^ j := by rw [Nat.pow_succ, Nat.mul_comm]
    rw [Nat.add_right_comm, expand, expand, ih, Nat.div_div_eq_div_mul, power, List.cons_append]

@[simp] theorem length_expand (base count n : Nat) : (expand base count n).length = count := by
  induction count generalizing n with
  | zero => rfl
  | succ count ih => simp [expand, ih]

/-- The low digits of a number are those of its remainder. -/
theorem expand_mod (base j n : Nat) : expand base j (n % base ^ j) = expand base j n := by
  induction j generalizing n with
  | zero => rfl
  | succ j ih =>
    have power : base ^ (j + 1) = base * base ^ j := by rw [Nat.pow_succ, Nat.mul_comm]
    rw [expand, expand, power, Nat.mod_mul_right_mod, Nat.mod_mul_right_div_self, ih]

@[simp] theorem expand_zero (base count : Nat) :
    expand base count 0 = List.replicate count 0 := by
  induction count with
  | zero => rfl
  | succ count ih => simp [expand, ih, List.replicate_succ]

theorem split_eq_expand (base level n : Nat) (rest : List Nat) :
    split base level n rest = expand base (2 ^ level) n ++ rest := by
  induction level generalizing n rest with
  | zero => simp [split, expand]
  | succ level ih =>
    have two : 2 ^ (level + 1) = 2 ^ level + 2 ^ level := by omega
    simp only [split]
    rw [ih, ih, expand_mod, two, expand_add, List.append_assoc]

/-- Halving gives the digits that going from digit to digit gives. -/
theorem low_eq_expand (base count n : Nat) : low base count n = expand base count n := by
  unfold low
  split
  · rfl
  · obtain ⟨more, enough⟩ : ∃ more, 2 ^ (count.log2 + 1) = count + more :=
      ⟨_, (Nat.add_sub_of_le (Nat.le_of_lt Nat.lt_log2_self)).symm⟩
    rw [split_eq_expand, List.append_nil, enough, expand_add,
      List.take_left' (length_expand base count n)]

theorem evaluate_cons (base d : Nat) (ds : List Nat) :
    evaluate base (d :: ds) = d + base * evaluate base ds := rfl

/-- Joining neighbouring digits keeps the number. -/
theorem evaluate_paired (base : Nat) : (ds : List Nat) →
    evaluate (base * base) (paired base ds) = evaluate base ds
  | [] => rfl
  | [_] => by simp [paired, evaluate]
  | a :: b :: rest => by
    rw [paired, evaluate_cons, evaluate_cons, evaluate_cons, evaluate_paired base rest,
      Nat.mul_add, ← Nat.mul_assoc, Nat.add_assoc]

/-- Joining neighbours gives the number that going from digit to digit gives. -/
theorem value_eq_evaluate (base : Nat) (ds : List Nat) : value base ds = evaluate base ds := by
  fun_induction value base ds with
  | case1 => rfl
  | case2 => simp [evaluate]
  | case3 base a b rest ih => exact ih.trans (evaluate_paired base (a :: b :: rest))

theorem evaluate_expand (base count n : Nat) :
    evaluate base (expand base count n) = n % base ^ count := by
  induction count generalizing n with
  | zero => simp [expand, evaluate, Nat.mod_one]
  | succ count ih =>
    rw [expand, evaluate_cons, ih, Nat.pow_succ, Nat.mul_comm (base ^ count) base, Nat.mod_mul]

/-- The low digits of a number are worth the number modulo the range of so many digits. -/
theorem value_low (base count n : Nat) : value base (low base count n) = n % base ^ count := by
  rw [value_eq_evaluate, low_eq_expand, evaluate_expand]

/-- Enough decimal digits, without the zeros at the top, are the digits of core's text. -/
theorem digits_eq_toDigits {count n : Nat} (positive : 0 < n) (enough : n < 10 ^ count) :
    ((expand 10 count n).reverse.dropWhile (· == 0)).map Nat.digitChar = Nat.toDigits 10 n := by
  induction count generalizing n with
  | zero => simp at enough; omega
  | succ count ih =>
    rw [expand, List.reverse_cons, List.dropWhile_append]
    by_cases small : n < 10
    · have quotient : n / 10 = 0 := by omega
      have digit : n % 10 = n := by omega
      have nonzero : (n == 0) = false := by simp; omega
      rw [quotient, digit, expand_zero, Nat.toDigits_of_lt_base small]
      simp [nonzero]
    · have step := ih (n := n / 10) (by omega) (by rw [Nat.pow_succ] at enough; omega)
      rw [Nat.toDigits_of_base_le (by omega) (by omega), ← step]
      have filled : ((expand 10 count (n / 10)).reverse.dropWhile (· == 0)).isEmpty = false := by
        rw [Bool.eq_false_iff]
        intro empty
        rw [List.isEmpty_iff.1 empty] at step
        exact Nat.toDigits_ne_nil step.symm
      simp [filled]

/-- The decimal text is core's. -/
theorem text_eq_repr (n : Nat) : text n = Nat.repr n := by
  unfold text
  split
  · next zero => rw [zero]; rfl
  · next nonzero =>
    have enough : n < 10 ^ (n.log2 + 1) :=
      Nat.lt_of_lt_of_le Nat.lt_log2_self (Nat.pow_le_pow_left (by omega) _)
    rw [low_eq_expand, digits_eq_toDigits (by omega) enough, Nat.repr_eq_ofList_toDigits]

/-- The decimal text of an integer is core's. -/
theorem signedText_eq_repr (n : Int) : signedText n = Int.repr n := by
  cases n <;> simp [signedText, Int.repr, text_eq_repr]

end ObjectStream.Digits
