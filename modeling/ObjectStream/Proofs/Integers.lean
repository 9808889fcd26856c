import Mathlib.Tactic.Positivity
import ObjectStream.Decoder

/-!
Integers that read back from their two's complement bytes.

A word reads back from the bytes that `encodeWord` keeps of it, and an integer that no word holds
takes more than eight bytes and reads back from them (`integerValue_encodeWord`,
`integerValue_encode`).
-/

namespace ObjectStream.TwosComplement

/-! ## Words -/

/-- The byte that repeats the sign of the byte below it. -/
def signByte (b : UInt8) : UInt8 := if 0x80 ≤ b then 0xff else 0x00

/-- The bytes that are dropped repeat the sign of the first byte that is kept. -/
theorem dropSignBytes_spec (b : UInt8) (rest : Bytes) : ∃ top kept count,
    dropSignBytes (b :: rest) = top :: kept ∧
      b :: rest = List.replicate count (signByte top) ++ top :: kept := by
  induction rest generalizing b with
  | nil => exact ⟨b, [], 0, rfl, rfl⟩
  | cons next rest ih =>
    rw [dropSignBytes]
    split
    · next sign =>
      obtain ⟨top, kept, count, drop, same⟩ := ih next
      have upper : b = signByte top := by
        have head : next = signByte top ∨ next = top := by
          cases count with
          | zero => exact .inr (List.cons.inj same).1
          | succ count => exact .inl (List.cons.inj same).1
        have signs : ∀ top : UInt8, (0x80 ≤ signByte top) = (0x80 ≤ top) := by
          intro top
          rw [signByte]
          split
          · next large => exact propext ⟨fun _ => large, fun _ => by decide⟩
          · next small => exact propext ⟨fun h => absurd h (by decide), fun h => absurd h small⟩
        have negative : (0x80 ≤ next) = (0x80 ≤ top) := by
          rcases head with rfl | rfl
          · exact signs top
          · rfl
        rcases sign with ⟨rfl, small⟩ | ⟨rfl, large⟩
        · rw [signByte, if_neg (negative ▸ UInt8.not_le.2 small)]
        · rw [signByte, if_pos (negative ▸ large)]
      exact ⟨top, kept, count + 1, drop, by rw [same, upper, List.replicate_succ, List.cons_append]⟩
    · exact ⟨b, next :: rest, 0, rfl, rfl⟩

theorem reverse_ofNatLE_ne_nil (n : Nat) : ∃ b rest, (Bytes.ofNatLE 8 n).reverse = b :: rest :=
  List.exists_cons_of_ne_nil (by simp [Bytes.ofNatLE])

/-- A word reads back. -/
theorem decodeWord?_encodeWord (n : Int64) : decodeWord? (encodeWord n) = some n := by
  rw [encodeWord]
  split
  · next zero => rw [zero]; decide
  · obtain ⟨b, rest, bytes⟩ := reverse_ofNatLE_ne_nil n.toUInt64.toNat
    obtain ⟨top, kept, count, drop, same⟩ := dropSignBytes_spec b rest
    have length : count + (kept.length + 1) = 8 := by
      have := congrArg List.length (bytes.trans same)
      simpa [eq_comm] using this
    have negative : isNegative (top :: kept).reverse = decide (0x80 ≤ top) := by
      simp [isNegative]
    have filled : (top :: kept).reverse ++ List.replicate count (signByte top) =
        Bytes.ofNatLE 8 n.toUInt64.toNat := by
      rw [← List.reverse_reverse (Bytes.ofNatLE 8 n.toUInt64.toNat), bytes, same]
      simp
    have whole : n.toUInt64.toNat % 256 ^ 8 = n.toUInt64.toNat :=
      Nat.mod_eq_of_lt n.toUInt64.toNat_lt
    have short : ¬8 < (top :: kept).reverse.length := by
      simp only [List.length_reverse, List.length_cons]
      omega
    have missing : 8 - (top :: kept).reverse.length = count := by
      simp only [List.length_reverse, List.length_cons]
      omega
    rw [bytes, drop, decodeWord?, if_neg short, missing, negative]
    simp only [decide_eq_true_eq]
    rw [show (if 0x80 ≤ top then (0xff : UInt8) else 0x00) = signByte top from rfl, filled,
      Bytes.toNatLE_ofNatLE, whole, UInt64.ofNat_toNat]
    rfl

/-! ## Integers of any size -/

theorem getLast?_ofNatLE (width n : Nat) :
    (Bytes.ofNatLE (width + 1) n).getLast? = some (UInt8.ofNat (n / 256 ^ width)) := by
  induction width generalizing n with
  | zero => simp [Bytes.ofNatLE]
  | succ width ih =>
    rw [Bytes.ofNatLE, List.getLast?_cons, ih, Nat.div_div_eq_div_mul, Nat.pow_succ,
      Nat.mul_comm 256]
    rfl

/-- The sign is that of the highest byte. -/
theorem isNegative_ofNatLE {width n : Nat} (h : n < 256 ^ (width + 1)) :
    isNegative (Bytes.ofNatLE (width + 1) n) = decide (128 * 256 ^ width ≤ n) := by
  have top : n / 256 ^ width < 256 := by
    rw [Nat.div_lt_iff_lt_mul (Nat.pow_pos (by decide)), Nat.mul_comm, ← Nat.pow_succ]
    exact h
  rw [isNegative, getLast?_ofNatLE, decide_eq_decide, UInt8.le_iff_toNat_le,
    UInt8.toNat_ofNat_of_lt' top, ← Nat.le_div_iff_mul_le (Nat.pow_pos (by decide))]
  exact Iff.rfl

/-- The magnitude whose binary digits set the width. -/
def magnitude (n : Int) : Nat := if 0 ≤ n then n.toNat else (-n - 1).toNat

theorem lt_two_pow_bitLength (n : Nat) : n < 2 ^ bitLength n := by
  rw [bitLength]
  split
  · next zero => simp [zero]
  · exact Nat.lt_log2_self

theorem magnitude_lt {n : Int} {width : Nat} (h : TwosComplement.width n = width + 1) :
    magnitude n < 128 * 256 ^ width := by
  have digits : bitLength (magnitude n) / 8 = width := by
    rw [TwosComplement.width] at h
    split at h
    · cases h
    · rw [magnitude]
      omega
  have power : (128 : Nat) * 256 ^ width = 2 ^ (7 + 8 * width) := by
    rw [Nat.pow_add, Nat.pow_mul]
  rw [power]
  exact Nat.lt_of_lt_of_le (lt_two_pow_bitLength _) (Nat.pow_le_pow_right (by decide) (by omega))

/-- An integer other than zero reads back. -/
theorem decode_encode {n : Int} (nonzero : n ≠ 0) : decode (encode n) = n := by
  obtain ⟨width, hw⟩ : ∃ width, TwosComplement.width n = width + 1 := by
    rw [TwosComplement.width, if_neg nonzero]
    exact ⟨_, rfl⟩
  have bound := magnitude_lt hw
  have power : 256 ^ (width + 1) = 256 * 256 ^ width := by rw [Nat.pow_succ, Nat.mul_comm]
  have small : (n % (256 ^ (width + 1) : Nat)).toNat < 256 ^ (width + 1) := by
    have := Int.emod_lt_of_pos n (b := (256 ^ (width + 1) : Nat)) (by positivity)
    have := Int.emod_nonneg n (b := (256 ^ (width + 1) : Nat)) (by positivity)
    omega
  rw [encode, hw, lowBytes_eq_ofNatLE, decode, isNegative_ofNatLE small, unsigned_eq_toNatLE,
    Bytes.toNatLE_ofNatLE, Nat.mod_eq_of_lt small, Bytes.length_ofNatLE]
  rw [magnitude] at bound
  generalize 256 ^ (width + 1) = range at *
  generalize 256 ^ width = unit at *
  split at bound
  · next positive =>
    have same : n % (range : Int) = n := Int.emod_eq_of_lt positive (by omega)
    rw [same, if_neg (by simp only [decide_eq_true_eq]; omega)]
    omega
  · next negative =>
    have same : n % (range : Int) = n + range := by
      rw [← Int.add_emod_right]
      exact Int.emod_eq_of_lt (by omega) (by omega)
    rw [same, if_pos (by simp only [decide_eq_true_eq]; omega)]
    omega

/-- An integer that no word holds takes more bytes than a word. -/
theorem length_encode {n : Int} (h : fitsWord n = false) : 8 < (encode n).length := by
  rw [encode, lowBytes_eq_ofNatLE, Bytes.length_ofNatLE]
  by_contra short
  have nonzero : n ≠ 0 := by
    rintro rfl
    cases h
  obtain ⟨width, hw⟩ : ∃ width, TwosComplement.width n = width + 1 := by
    rw [TwosComplement.width, if_neg nonzero]
    exact ⟨_, rfl⟩
  have bound := magnitude_lt hw
  have power : 256 ^ width ≤ 256 ^ 7 := Nat.pow_le_pow_right (by decide) (by omega)
  have fits : fitsWord n = true := by
    simp only [fitsWord, Bool.and_eq_true, decide_eq_true_eq]
    rw [magnitude] at bound
    split at bound <;> omega
  rw [fits] at h
  cases h

end TwosComplement

namespace Decoder

theorem integerValue_encodeWord (n : Int64) :
    integerValue (TwosComplement.encodeWord n) = .int n := by
  rw [integerValue, TwosComplement.decodeWord?_encodeWord]

theorem integerValue_encode {n : Int} (h : fitsWord n = false) :
    integerValue (TwosComplement.encode n) = .ofInt n := by
  have nonzero : n ≠ 0 := by
    rintro rfl
    cases h
  rw [integerValue, TwosComplement.decodeWord?, if_pos (TwosComplement.length_encode h)]
  simp only [TwosComplement.decode_encode nonzero]

end Decoder

end ObjectStream
