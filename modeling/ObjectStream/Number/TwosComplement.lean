import ObjectStream.Bytes
import ObjectStream.Number.Digits

/-!
Integers as two's complement byte strings, least significant byte first.

`encode` writes the shortest string and nothing for zero; `decode` reads strings of any length.
Bytes are the digits of a number in base 256; `unsigned_eq_toNatLE` and `lowBytes_eq_ofNatLE` say so.
`encodeWord` and `decodeWord?` are the same codec for 64-bit words, on which no big number is made.
-/

namespace ObjectStream.TwosComplement

/-- The number of binary digits of `n`. -/
def bitLength (n : Nat) : Nat :=
  if n = 0 then 0 else n.log2 + 1

/-- The fewest bytes whose two's complement range holds `n`; zero needs none. -/
def width (n : Int) : Nat :=
  if n = 0 then 0
  else bitLength (if 0 ≤ n then n.toNat else (-n - 1).toNat) / 8 + 1

/-- The `count` low bytes of `n`, least significant first. -/
def lowBytes (count n : Nat) : Bytes :=
  (Digits.low 256 count n).map UInt8.ofNat

/-- The number with these bytes, least significant first. -/
def unsigned (bs : Bytes) : Nat :=
  Digits.value 256 (bs.map UInt8.toNat)

theorem lowBytes_eq_ofNatLE (count n : Nat) : lowBytes count n = Bytes.ofNatLE count n := by
  rw [lowBytes, Digits.low_eq_expand]
  induction count generalizing n with
  | zero => rfl
  | succ count ih =>
    have byte : UInt8.ofNat (n % 256) = UInt8.ofNat n := by
      apply UInt8.toNat_inj.1
      simp
    simp [Digits.expand, Bytes.ofNatLE, ih, byte]

theorem unsigned_eq_toNatLE (bs : Bytes) : unsigned bs = bs.toNatLE := by
  rw [unsigned, Digits.value_eq_evaluate]
  induction bs with
  | nil => rfl
  | cons b rest ih => rw [List.map_cons, Digits.evaluate_cons, ih, Bytes.toNatLE_cons]

/-- The shortest byte string with the value `n`. -/
def encode (n : Int) : Bytes :=
  lowBytes (width n) (n % (256 ^ width n : Nat)).toNat

/-- Whether the top bit of the last byte is set. -/
def isNegative (bs : Bytes) : Bool :=
  match bs.getLast? with
  | some b => 0x80 ≤ b
  | none => false

/-- The value of a byte string: its unsigned value, less the range of its width if the top bit is
    set. -/
def decode (bs : Bytes) : Int :=
  if isNegative bs then (unsigned bs : Int) - (256 ^ bs.length : Nat) else unsigned bs

/-- Drops final bytes, given in reverse order, that only repeat the sign bit of the byte before
    them. -/
def dropSignBytes : Bytes → Bytes
  | last :: next :: rest =>
    if (last = 0x00 ∧ next < 0x80) ∨ (last = 0xff ∧ 0x80 ≤ next) then
      dropSignBytes (next :: rest)
    else last :: next :: rest
  | bs => bs

/-- The shortest byte string with the value of a word. -/
def encodeWord (n : Int64) : Bytes :=
  if n = 0 then []
  else (dropSignBytes (Bytes.ofNatLE 8 n.toUInt64.toNat).reverse).reverse

/-- The word that at most eight bytes spell, filled up with their sign. -/
def decodeWord? (bs : Bytes) : Option Int64 :=
  if 8 < bs.length then none
  else
    let sign : UInt8 := if isNegative bs then 0xff else 0x00
    some (UInt64.ofNat (bs ++ List.replicate (8 - bs.length) sign).toNatLE).toInt64

end ObjectStream.TwosComplement
