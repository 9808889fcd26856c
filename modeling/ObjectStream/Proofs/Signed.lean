import Mathlib.Tactic.Ring
import ObjectStream.Proofs.Atoms

/-!
The shortest two's complement strings.

The value of a byte string is given by recursion (`value`): every byte counts 256 times the one before
it, and the last carries the sign. `decode` gives this value for every string, and `encode` the one
string of the value that is no longer than any other (`eq_encode_or_longer`). The codec for words is
the same codec on strings of up to eight bytes (`encodeWord_eq_encode`, `decodeWord?_of_length_le`), so
that the value of an integer's bytes does not depend on their number (`codec_shortest`).
-/

namespace ObjectStream.TwosComplement

/-- What the last byte of a string counts for. -/
def signed (b : UInt8) : Int := if b < 0x80 then b.toNat else b.toNat - 256

/-- The integer that a byte string spells. -/
def value : Bytes → Int
  | [] => 0
  | [b] => signed b
  | b :: next :: rest => b.toNat + 256 * value (next :: rest)

/-! ## Bounds -/

theorem signed_of_lt {b : UInt8} (h : b < 0x80) : signed b = b.toNat := if_pos h

theorem signed_of_le {b : UInt8} (h : 0x80 ≤ b) : signed b = b.toNat - 256 :=
  if_neg (UInt8.not_lt.2 h)

theorem signed_cases (b : UInt8) :
    b.toNat < 128 ∧ signed b = b.toNat ∨ 128 ≤ b.toNat ∧ signed b = b.toNat - 256 := by
  by_cases small : b < 0x80
  · exact .inl ⟨UInt8.lt_iff_toNat_lt.1 small, signed_of_lt small⟩
  · have large := UInt8.not_lt.1 small
    exact .inr ⟨UInt8.le_iff_toNat_le.1 large, signed_of_le large⟩

theorem value_bounds (b : UInt8) (rest : Bytes) :
    -(128 * (256 ^ rest.length : Nat)) ≤ value (b :: rest) ∧
      value (b :: rest) < 128 * (256 ^ rest.length : Nat) := by
  have byte : b.toNat < 256 := b.toNat_lt
  induction rest generalizing b with
  | nil =>
    rw [value, List.length_nil, Nat.pow_zero]
    rcases signed_cases b with ⟨small, same⟩ | ⟨large, same⟩ <;> omega
  | cons next rest ih =>
    obtain ⟨lower, upper⟩ := ih next next.toNat_lt
    rw [value, List.length_cons, Nat.pow_succ]
    generalize 256 ^ rest.length = unit at *
    omega

/-- The range of a width takes in what shorter strings spell. -/
theorem value_bounds_of_length_le {bs : Bytes} {k : Nat} (h : bs.length ≤ k + 1) :
    -(128 * (256 ^ k : Nat)) ≤ value bs ∧ value bs < 128 * (256 ^ k : Nat) := by
  cases bs with
  | nil =>
    have positive : 0 < 256 ^ k := Nat.pow_pos (by decide)
    rw [value]
    omega
  | cons b rest =>
    have power : 256 ^ rest.length ≤ 256 ^ k :=
      Nat.pow_le_pow_right (by decide) (Nat.le_of_succ_le_succ h)
    have bounds := value_bounds b rest
    omega

/-- Strings of one length have different values. -/
theorem eq_of_value {as bs : Bytes} (length : as.length = bs.length) (h : value as = value bs) :
    as = bs := by
  induction as generalizing bs with
  | nil => exact (List.length_eq_zero_iff.1 length.symm).symm
  | cons a as ih =>
    obtain ⟨b, bs, rfl⟩ := List.exists_cons_of_length_eq_add_one length.symm
    have small : a.toNat < 256 := a.toNat_lt
    have small' : b.toNat < 256 := b.toNat_lt
    have lengths : as.length = bs.length := Nat.succ.inj length
    cases as with
    | nil =>
      obtain rfl := List.length_eq_zero_iff.1 lengths.symm
      have byte : a = b := by
        apply UInt8.toNat_inj.1
        rw [value, value] at h
        rcases signed_cases a with ⟨_, same⟩ | ⟨_, same⟩ <;>
          rcases signed_cases b with ⟨_, same'⟩ | ⟨_, same'⟩ <;> omega
      rw [byte]
    | cons next as =>
      obtain ⟨next', bs, rfl⟩ := List.exists_cons_of_length_eq_add_one lengths.symm
      rw [value, value] at h
      have byte : a = b := UInt8.toNat_inj.1 (by omega)
      have rest : value (next :: as) = value (next' :: bs) := by omega
      rw [byte, ih lengths rest]

/-! ## Reading -/

theorem isNegative_cons (b next : UInt8) (rest : Bytes) :
    isNegative (b :: next :: rest) = isNegative (next :: rest) := by
  rw [isNegative, isNegative, List.getLast?_cons_cons]

theorem decode_eq_value (bs : Bytes) : decode bs = value bs := by
  induction bs with
  | nil => simp [decode, isNegative, unsigned_eq_toNatLE, value]
  | cons b rest ih =>
    rw [decode, unsigned_eq_toNatLE] at ih ⊢
    cases rest with
    | nil =>
      have negative : isNegative [b] = decide (0x80 ≤ b) := rfl
      rw [negative, value, signed, Bytes.toNatLE_cons, Bytes.toNatLE_nil, List.length_singleton]
      by_cases small : b < 0x80
      · rw [if_pos small, if_neg (by simpa using UInt8.not_le.2 small)]
        omega
      · rw [if_neg small, if_pos (by simpa using UInt8.not_lt.1 small)]
        omega
    | cons next rest =>
      rw [isNegative_cons, value, ← ih, Bytes.toNatLE_cons, List.length_cons, Nat.pow_succ]
      split <;> omega

/-! ## Writing -/

theorem magnitude_lt_iff {n : Int} {bound : Nat} :
    magnitude n < bound ↔ -bound ≤ n ∧ n < bound := by
  rw [magnitude]
  split <;> omega

theorem bitLength_le {m digits : Nat} (h : m < 2 ^ digits) : bitLength m ≤ digits := by
  rw [bitLength]
  split
  · exact Nat.zero_le _
  · next nonzero => exact (Nat.log2_lt nonzero).2 h

theorem length_encode_eq_width (n : Int) : (encode n).length = width n := by
  rw [encode, lowBytes_eq_ofNatLE, Bytes.length_ofNatLE]

theorem width_le {n : Int} {k : Nat} (h : magnitude n < 128 * 256 ^ k) : width n ≤ k + 1 := by
  have power : (128 : Nat) * 256 ^ k = 2 ^ (7 + 8 * k) := by
    rw [Nat.pow_add, Nat.pow_mul]
  rw [power] at h
  have digits := bitLength_le h
  rw [width]
  split
  · exact Nat.zero_le _
  · rw [magnitude] at digits
    omega

theorem encode_zero : encode 0 = [] := by
  rw [← List.length_eq_zero_iff, length_encode_eq_width, width, if_pos rfl]

theorem value_encode (n : Int) : value (encode n) = n := by
  by_cases zero : n = 0
  · rw [zero, encode_zero, value]
  · rw [← decode_eq_value, decode_encode zero]

/-- No string of the value is shorter. -/
theorem length_encode_le (bs : Bytes) : (encode (value bs)).length ≤ bs.length := by
  cases bs with
  | nil => rw [value, encode_zero]
  | cons b rest =>
    rw [length_encode_eq_width, List.length_cons]
    apply width_le
    rw [magnitude_lt_iff]
    have bounds := value_bounds b rest
    omega

/-- No other string of the value is as short. -/
theorem eq_encode_or_longer (bs : Bytes) :
    bs = encode (value bs) ∨ (encode (value bs)).length < bs.length := by
  rcases Nat.lt_or_eq_of_le (length_encode_le bs) with shorter | same
  · exact .inr shorter
  · exact .inl (eq_of_value same.symm (value_encode _).symm)

/-! ## Words -/

theorem value_append (low : Bytes) {high : Bytes} (h : high ≠ []) :
    value (low ++ high) = low.toNatLE + (256 ^ low.length : Nat) * value high := by
  induction low with
  | nil => simp
  | cons b low ih =>
    obtain ⟨next, rest, tail⟩ := List.exists_cons_of_ne_nil
      (List.append_ne_nil_of_right_ne_nil low h)
    rw [List.cons_append, tail, value, ← tail, ih, Bytes.toNatLE_cons, List.length_cons,
      Nat.pow_succ]
    push_cast
    ring

/-- The last byte only repeats the sign of the byte before it. -/
def Redundant (next last : UInt8) : Prop :=
  (last = 0x00 ∧ next < 0x80) ∨ (last = 0xff ∧ 0x80 ≤ next)

/-- The last two bytes spell an integer that one byte does not hold. -/
theorem value_pair {next last : UInt8} (h : ¬Redundant next last) :
    value [next, last] < -128 ∨ 128 ≤ value [next, last] := by
  have byte : next.toNat < 256 := next.toNat_lt
  rw [Redundant, UInt8.lt_iff_toNat_lt, UInt8.le_iff_toNat_le, ← UInt8.toNat_inj,
    ← UInt8.toNat_inj] at h
  obtain ⟨zero, full, half⟩ : UInt8.toNat 0x00 = 0 ∧ UInt8.toNat 0xff = 255 ∧ UInt8.toNat 0x80 = 128 := by
    decide
  rw [zero, full, half] at h
  have top : last.toNat < 256 := last.toNat_lt
  rw [value, value]
  rcases signed_cases last with ⟨small, same⟩ | ⟨large, same⟩ <;> omega

/-- A string whose last byte is needed is among the shortest of its value. -/
theorem le_length_encode {next last : UInt8} (low : Bytes) (h : ¬Redundant next last) :
    (low ++ [next, last]).length ≤ (encode (value (low ++ [next, last]))).length := by
  have low_lt : low.toNatLE < 256 ^ low.length := low.toNatLE_lt
  have whole := value_append low (List.cons_ne_nil next [last])
  by_contra short
  rw [List.length_append, List.length_cons, List.length_singleton] at short
  have shorter : (encode (value (low ++ [next, last]))).length ≤ low.length + 1 := by omega
  have bounds := value_bounds_of_length_le shorter
  rw [value_encode, whole] at bounds
  generalize 256 ^ low.length = unit at *
  rcases value_pair h with below | above
  · have product : (unit : Int) * value [next, last] ≤ unit * (-129) := by
      apply Int.mul_le_mul_of_nonneg_left <;> omega
    omega
  · have product : (unit : Int) * 128 ≤ unit * value [next, last] := by
      apply Int.mul_le_mul_of_nonneg_left <;> omega
    omega

theorem dropSignBytes_needed {bs rest : Bytes} {last next : UInt8}
    (h : dropSignBytes bs = last :: next :: rest) : ¬Redundant next last := by
  fun_induction dropSignBytes bs with
  | case1 last' next' rest' sign ih => exact ih h
  | case2 last' next' rest' needed =>
    cases h
    exact needed
  | case3 bs short => exact absurd h (short _ _ _)

/-! ### Filling up -/

theorem value_replicate_zero (count : Nat) : value (List.replicate count 0x00) = 0 := by
  induction count with
  | zero => rfl
  | succ count ih =>
    cases count with
    | zero => decide
    | succ count =>
      rw [List.replicate_succ] at ih
      rw [List.replicate_succ, List.replicate_succ, value, ih]
      decide

theorem value_replicate_full (count : Nat) : value (List.replicate (count + 1) 0xff) = -1 := by
  induction count with
  | zero => decide
  | succ count ih =>
    rw [List.replicate_succ] at ih
    rw [List.replicate_succ, List.replicate_succ, value, ih]
    decide

/-- Bytes that repeat the sign do not count. -/
theorem value_filled (bs : Bytes) (count : Nat) :
    value (bs ++ List.replicate count (if isNegative bs then 0xff else 0x00)) = value bs := by
  induction bs with
  | nil => exact value_replicate_zero count
  | cons b rest ih =>
    cases rest with
    | nil =>
      have negative : isNegative [b] = decide (0x80 ≤ b) := rfl
      cases count with
      | zero => simp
      | succ count =>
        have spelled : ∀ sign, value ([b] ++ List.replicate (count + 1) sign) =
            b.toNat + 256 * value (List.replicate (count + 1) sign) := fun sign => by
          rw [List.replicate_succ, List.singleton_append, value]
        rw [spelled, negative, value]
        by_cases small : b < 0x80
        · rw [if_neg (by simpa using small), value_replicate_zero, signed_of_lt small]
          omega
        · have large := UInt8.not_lt.1 small
          rw [if_pos (by simpa using large), value_replicate_full, signed_of_le large]
          omega
    | cons next rest =>
      rw [isNegative_cons, List.cons_append, List.cons_append, value, ← List.cons_append, ih, value]

/-- Eight bytes spell a word. -/
theorem toInt_word {bs : Bytes} (h : bs.length = 8) :
    (UInt64.ofNat bs.toNatLE).toInt64.toInt = value bs := by
  have word : (UInt64.ofNat bs.toNatLE).toInt64.toInt = (bs.toNatLE : Int).bmod (2 ^ 64) :=
    BitVec.toInt_ofNat ..
  have eight : bs.length ≤ 7 + 1 := h.le
  have bounds := value_bounds_of_length_le eight
  have range : value bs = (value bs).bmod (2 ^ 64) :=
    (Int.bmod_eq_of_le (by omega) (by omega)).symm
  rw [word, range, ← decode_eq_value, decode, unsigned_eq_toNatLE, h]
  split
  · exact (Int.sub_bmod_right ..).symm
  · rfl

/-- Up to eight bytes are read as the word of their value, and more are not. -/
theorem decodeWord?_of_length_le {bs : Bytes} (h : bs.length ≤ 8) :
    ∃ n, decodeWord? bs = some n ∧ n.toInt = value bs := by
  refine ⟨_, if_neg (Nat.not_lt.2 h), ?_⟩
  rw [toInt_word, value_filled]
  rw [List.length_append, List.length_replicate]
  omega

/-- A word is written as the integer that it holds. -/
theorem encodeWord_eq_encode (n : Int64) : encodeWord n = encode n.toInt := by
  have same : value (encodeWord n) = n.toInt := by
    have read := decodeWord?_encodeWord n
    have length : (encodeWord n).length ≤ 8 := by
      by_contra long
      rw [decodeWord?, if_pos (by omega)] at read
      cases read
    obtain ⟨n', read', spelled⟩ := decodeWord?_of_length_le length
    rw [read] at read'
    rw [← spelled, Option.some.inj read']
  have short : (encodeWord n).length ≤ (encode (value (encodeWord n))).length := by
    rw [encodeWord] at same ⊢
    split
    · exact Nat.zero_le _
    · next nonzero =>
      rw [if_neg nonzero] at same
      generalize kept : dropSignBytes (Bytes.ofNatLE 8 n.toUInt64.toNat).reverse = bs at same ⊢
      rcases bs with _ | ⟨last, _ | ⟨next, rest⟩⟩
      · exact Nat.zero_le _
      · by_contra empty
        have none : encode (value [last].reverse) = [] := by
          apply List.length_eq_zero_iff.1
          rw [List.length_reverse, List.length_singleton] at empty
          omega
        have zero := value_encode (value [last].reverse)
        rw [none, same] at zero
        exact nonzero (Int64.toInt_inj.1 zero.symm)
      · have needed := dropSignBytes_needed kept
        rw [List.reverse_cons, List.reverse_cons, List.append_assoc]
        exact le_length_encode rest.reverse needed
  rcases eq_encode_or_longer (encodeWord n) with shortest | longer
  · rw [shortest, same]
  · omega

end ObjectStream.TwosComplement

namespace ObjectStream

open TwosComplement

/-- However many bytes an integer is spelled with, its value is that of the string. -/
theorem Decoder.integerValue_eq_ofInt (bs : Bytes) : Decoder.integerValue bs = .ofInt (decode bs) := by
  rw [Decoder.integerValue]
  by_cases short : bs.length ≤ 8
  · obtain ⟨n, word, same⟩ := decodeWord?_of_length_le short
    rw [word, decode_eq_value, ← same, Encoder.ofInt_toInt]
  · rw [decodeWord?, if_pos (Nat.not_le.1 short)]

/-- An integer is written as the shortest string of its value, nothing for zero, and reads back; every
    other string of the value is longer. Words are written and read as the integers that they hold,
    up to eight bytes of them, and the value of an integer's bytes is the integer that they spell. -/
theorem TwosComplement.codec_shortest :
    (encode 0 = [] ∧ ∀ n, value (encode n) = n ∧ decode (encode n) = n) ∧
      (∀ bs, decode bs = value bs ∧
        (bs = encode (value bs) ∨ (encode (value bs)).length < bs.length)) ∧
      (∀ n : Int64, encodeWord n = encode n.toInt) ∧
      ∀ bs, (decodeWord? bs).map Int64.toInt = (if bs.length ≤ 8 then some (decode bs) else none) ∧
        Decoder.integerValue bs = .ofInt (decode bs) := by
  refine ⟨⟨encode_zero, fun n => ⟨value_encode n, ?_⟩⟩,
    fun bs => ⟨decode_eq_value bs, eq_encode_or_longer bs⟩, encodeWord_eq_encode,
    fun bs => ⟨?_, Decoder.integerValue_eq_ofInt bs⟩⟩
  · rw [decode_eq_value, value_encode]
  · by_cases short : bs.length ≤ 8
    · obtain ⟨n, word, same⟩ := decodeWord?_of_length_le short
      rw [word, if_pos short, Option.map_some, same, decode_eq_value]
    · rw [decodeWord?, if_pos (Nat.not_le.1 short), if_neg short, Option.map_none]

end ObjectStream
