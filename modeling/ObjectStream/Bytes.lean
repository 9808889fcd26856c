/-!
Byte strings and the fixed-width unsigned numbers inside them.

A byte string is a list of bytes. Numbers stand in it least significant byte first, save for the
binary float, whose eight bytes stand most significant first. `toNatLE_ofNatLE` says that a number
that fits its width reads back.
-/

namespace ObjectStream

-- Powers of whole numbers are those of the core library, whichever further instances are in scope.
attribute [instance (high + 1), default_instance (high + 1)] instPowNat

/-- A finite string of bytes. -/
abbrev Bytes := List UInt8

namespace Bytes

/-- The `width` low bytes of `n`, least significant first. -/
def ofNatLE : (width n : Nat) → Bytes
  | 0, _ => []
  | width + 1, n => UInt8.ofNat n :: ofNatLE width (n / 256)

/-- The number whose bytes these are, least significant first. -/
def toNatLE (bs : Bytes) : Nat :=
  bs.foldr (fun b n => b.toNat + 256 * n) 0

/-- The `width` low bytes of `n`, most significant first. -/
def ofNatBE (width n : Nat) : Bytes :=
  (ofNatLE width n).reverse

/-- The number whose bytes these are, most significant first. -/
def toNatBE (bs : Bytes) : Nat :=
  bs.foldl (fun n b => 256 * n + b.toNat) 0

@[simp] theorem length_ofNatLE (width n : Nat) : (ofNatLE width n).length = width := by
  induction width generalizing n with
  | zero => rfl
  | succ w ih => simp [ofNatLE, ih]

@[simp] theorem length_ofNatBE (width n : Nat) : (ofNatBE width n).length = width := by
  simp [ofNatBE]

@[simp] theorem toNatLE_nil : toNatLE [] = 0 := rfl

@[simp] theorem toNatLE_cons (b : UInt8) (r : Bytes) :
    toNatLE (b :: r) = b.toNat + 256 * toNatLE r := rfl

/-- A number reads back as itself modulo the range of its width. -/
theorem toNatLE_ofNatLE (width n : Nat) : toNatLE (ofNatLE width n) = n % 256 ^ width := by
  induction width generalizing n with
  | zero => simp [ofNatLE, Nat.mod_one]
  | succ w ih =>
    have byte : (UInt8.ofNat n).toNat = n % 256 := UInt8.toNat_ofNat'
    simp only [ofNatLE, toNatLE_cons, ih, byte]
    rw [Nat.pow_succ 256 w, Nat.mul_comm (256 ^ w) 256, Nat.mod_mul]

theorem toNatLE_lt (bs : Bytes) : toNatLE bs < 256 ^ bs.length := by
  induction bs with
  | nil => simp
  | cons b r ih =>
    have hb : b.toNat < 256 := b.toNat_lt
    simp only [toNatLE_cons, List.length_cons, Nat.pow_succ]
    omega

/-- Splits a byte string behind its first newline: the line with its newline, and the rest.
    Without a newline the line is the whole string. -/
def splitLine (bs : Bytes) : Bytes × Bytes :=
  match bs.span (· != 0x0a) with
  | (line, newline :: rest) => (line ++ [newline], rest)
  | (line, []) => (line, [])

/-- The ASCII bytes of a text that holds only ASCII characters; other characters lose their high
    bits. -/
def ascii (text : String) : Bytes :=
  text.toList.map fun c => UInt8.ofNat c.toNat

end Bytes

/-- The lower-case hexadecimal digit of a number below sixteen. -/
def hexDigit (n : Nat) : Char :=
  if n < 10 then Char.ofNat (48 + n) else Char.ofNat (87 + n)

/-- The hexadecimal digits of `n`, without leading zeros. -/
def hexDigits (n : Nat) : List Char :=
  if n < 16 then [hexDigit n] else hexDigits (n / 16) ++ [hexDigit (n % 16)]

/-- The hexadecimal digits of `n`, filled up with zeros to `width` digits. -/
def hexPadded (width n : Nat) : List Char :=
  let digits := hexDigits n
  List.replicate (width - digits.length) '0' ++ digits

/-- The value of a hexadecimal digit in ASCII. -/
def hexValue? (b : UInt8) : Option Nat :=
  if 48 ≤ b ∧ b ≤ 57 then some (b.toNat - 48)
  else if 97 ≤ b ∧ b ≤ 102 then some (b.toNat - 87)
  else if 65 ≤ b ∧ b ≤ 70 then some (b.toNat - 55)
  else none

end ObjectStream
