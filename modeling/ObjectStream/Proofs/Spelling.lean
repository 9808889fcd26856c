import Mathlib.Data.List.Basic
import Mathlib.Tactic.Ring
import ObjectStream.Encoder.Atom
import ObjectStream.Text.Encoding

/-!
Lines that read back.

Decimal numbers, and texts with escapes for the characters that a line cannot hold, read back from
their lines (`Literal.int?_decimalLine`, `RawUnicode.decode?_lineOf`). None of these lines holds a
newline.
-/

namespace ObjectStream

/-! ## ASCII -/

/-- Only ASCII characters, and no newline. -/
def Text.OnLine (text : List Char) : Prop := ∀ c ∈ text, c.toNat < 0x80 ∧ c ≠ '\n'

theorem Text.OnLine.unbroken {text : List Char} (h : Text.OnLine text) : '\n' ∉ text :=
  fun mem => (h _ mem).2 rfl

instance (text : List Char) : Decidable (Text.OnLine text) :=
  List.decidableBAll (fun c : Char => c.toNat < 0x80 ∧ c ≠ '\n') text

namespace Text

variable {text : String}

theorem utf8_eq_flatMap (text : String) :
    utf8 text = text.toList.flatMap String.utf8EncodeChar := by
  rw [utf8, ← String.utf8Encode_toList, List.utf8Encode]
  simp

/-- An ASCII text has one byte for each character. -/
theorem utf8_eq_ascii (h : ∀ c ∈ text.toList, c.toNat < 0x80) : utf8 text = Bytes.ascii text := by
  rw [utf8_eq_flatMap, Bytes.ascii, List.map_eq_flatMap]
  refine List.flatMap_congr fun c hc => ?_
  have small : c.utf8Size = 1 := by
    rw [Char.utf8Size_eq_one_iff, UInt32.le_iff_toNat_le]
    exact Nat.le_of_lt_succ (h c hc)
  rw [String.utf8EncodeChar_eq_singleton small]
  rfl

theorem ofUtf8?_ascii (h : ∀ c ∈ text.toList, c.toNat < 0x80) :
    ofUtf8? (Bytes.ascii text) = some text := by
  rw [← utf8_eq_ascii h, ofUtf8?_utf8]

theorem newline_not_mem_ascii (h : OnLine text.toList) : 0x0a ∉ Bytes.ascii text := by
  intro newline
  obtain ⟨c, hc, byte⟩ := List.mem_map.1 newline
  obtain ⟨small, other⟩ := h c hc
  have code : (UInt8.ofNat c.toNat).toNat = c.toNat :=
    UInt8.toNat_ofNat_of_lt' (Nat.lt_trans small (by decide))
  rw [byte] at code
  exact other (Char.toNat_inj.1 code.symm)

theorem newline_not_mem_utf8EncodeChar {c : Char} (h : c ≠ '\n') :
    0x0a ∉ String.utf8EncodeChar c := by
  have other : c.toNat ≠ 10 := fun same => h (Char.toNat_inj.1 same)
  have code : c.val.toNat = c.toNat := rfl
  intro newline
  have byte : ∃ b ∈ String.utf8EncodeChar c, b.toNat = 10 := ⟨_, newline, rfl⟩
  simp only [String.utf8EncodeChar] at byte
  -- the bytes of a longer character are all above ASCII
  split at byte
  · simp at byte; omega
  split at byte
  · simp at byte; omega
  split at byte <;> simp at byte <;> omega

/-- Only the newline has the byte of a newline. -/
theorem newline_not_mem_utf8 (h : '\n' ∉ text.toList) : 0x0a ∉ utf8 text := by
  rw [utf8_eq_flatMap, List.mem_flatMap]
  rintro ⟨c, mem, newline⟩
  exact newline_not_mem_utf8EncodeChar (fun same => h (same ▸ mem)) newline

end Text

/-! ## Decimal numbers -/

theorem Digits.toList_text (n : Nat) : (Digits.text n).toList = Nat.toDigits 10 n := by
  rw [Digits.text_eq_repr, Nat.repr_eq_ofList_toDigits, String.toList_ofList]

theorem isDigit_of_mem_toDigits {n : Nat} {c : Char} (h : c ∈ Nat.toDigits 10 n) :
    c.isDigit = true :=
  Nat.isDigit_of_mem_toDigits (by decide) (by decide) h

theorem Char.bounds_of_isDigit {c : Char} (h : c.isDigit = true) : 48 ≤ c.toNat ∧ c.toNat ≤ 57 := by
  simpa [Char.isDigit, UInt32.le_iff_toNat_le] using h

namespace Literal

variable {cs : List Char}

theorem digitsBehind?_digits (before : List Nat) (h : ∀ c ∈ cs, c.isDigit = true) :
    digitsBehind? before cs = some ((cs.map fun c => c.toNat - 48).reverse ++ before) := by
  induction cs generalizing before with
  | nil => rfl
  | cons c rest ih =>
    have digit := h c (List.mem_cons_self ..)
    have other : c ≠ '_' := by
      rintro rfl
      cases digit
    simp only [digitsBehind?, if_neg other, digit?, digit, if_true]
    rw [ih _ fun d hd => h d (List.mem_cons_of_mem c hd)]
    simp

theorem evaluate_reverse (cs : List Char) :
    Digits.evaluate 10 (cs.map fun c => c.toNat - 48).reverse = Nat.ofDigitChars 10 cs 0 := by
  rw [Digits.evaluate, List.foldr_reverse, List.foldl_map, Nat.ofDigitChars_eq_foldl]
  congr 1
  funext n c
  rw [Nat.add_comm]
  rfl

theorem unsigned?_digits (nonempty : cs ≠ []) (h : ∀ c ∈ cs, c.isDigit = true) :
    unsigned? cs = some (Nat.ofDigitChars 10 cs 0) := by
  cases cs with
  | nil => exact absurd rfl nonempty
  | cons c rest =>
    simp only [unsigned?, digit?, h c (List.mem_cons_self ..), if_true]
    rw [digitsBehind?_digits _ fun d hd => h d (List.mem_cons_of_mem c hd), Option.map_some,
      Digits.value_eq_evaluate, ← evaluate_reverse (c :: rest)]
    simp

theorem unsigned?_toDigits (n : Nat) : unsigned? (Nat.toDigits 10 n) = some n := by
  rw [unsigned?_digits Nat.toDigits_ne_nil fun c => isDigit_of_mem_toDigits,
    Nat.ofDigitChars_ten_toDigits]

/-- The characters of an integer: digits, behind a sign if it is negative. -/
theorem toList_signedText (n : Int) : (Digits.signedText n).toList =
    if 0 ≤ n then Nat.toDigits 10 n.toNat else '-' :: Nat.toDigits 10 n.natAbs := by
  cases n with
  | ofNat n => simp [Digits.signedText, Digits.toList_text]
  | negSucc n =>
    rw [if_neg (by omega)]
    simp [Digits.signedText, Digits.toList_text]

theorem mem_signedText {n : Int} {c : Char} (h : c ∈ (Digits.signedText n).toList) :
    c.isDigit = true ∨ c = '-' := by
  rw [toList_signedText] at h
  split at h
  · exact .inl (isDigit_of_mem_toDigits h)
  · rcases List.mem_cons.1 h with rfl | h
    · exact .inr rfl
    · exact .inl (isDigit_of_mem_toDigits h)

theorem onLine_signedText (n : Int) : Text.OnLine (Digits.signedText n).toList := by
  intro c hc
  rcases mem_signedText hc with digit | rfl
  · obtain ⟨low, high⟩ := Char.bounds_of_isDigit digit
    refine ⟨by omega, ?_⟩
    rintro rfl
    cases digit
  · decide

theorem newline_not_mem_decimalLine (n : Int) : 0x0a ∉ Encoder.decimalLine n :=
  Text.newline_not_mem_ascii (onLine_signedText n)

theorem trimmed?_decimalLine (n : Int) :
    trimmed? (Encoder.decimalLine n) = some (Digits.signedText n).toList := by
  have plain : ∀ c ∈ (Digits.signedText n).toList, Text.isBlank c = false := by
    intro c hc
    rcases mem_signedText hc with digit | rfl
    · obtain ⟨low, high⟩ := Char.bounds_of_isDigit digit
      simp only [Text.isBlank, Bool.or_eq_false_iff, Bool.and_eq_false_imp, decide_eq_true_eq,
        decide_eq_false_iff_not, beq_eq_false_iff_ne, ne_eq]
      omega
    · decide
  rw [trimmed?, Encoder.decimalLine, Text.ofUtf8?_ascii fun c hc => (onLine_signedText n c hc).1,
    Option.map_some, Text.trim_of_no_blank plain]

/-- A decimal line spells its number. -/
theorem int?_decimalLine (n : Int) : int? (Encoder.decimalLine n) = some n := by
  rw [int?, trimmed?_decimalLine]
  show signed? (Digits.signedText n).toList = some n
  rw [toList_signedText]
  split
  · next positive =>
    have first : ∀ c rest, Nat.toDigits 10 n.toNat = c :: rest → c ≠ '-' ∧ c ≠ '+' := by
      intro c rest split
      have digit : c.isDigit = true := isDigit_of_mem_toDigits (split ▸ List.mem_cons_self ..)
      constructor <;> rintro rfl <;> cases digit
    rw [signed?.eq_3, unsigned?_toDigits]
    · simp only [Option.map_some, Option.some.injEq]
      exact Int.toNat_of_nonneg positive
    · exact fun rest split => (first _ _ split).1 rfl
    · exact fun rest split => (first _ _ split).2 rfl
  · next negative =>
    rw [signed?, unsigned?_toDigits]
    show some (-(n.natAbs : Int)) = some n
    congr 1
    omega

theorem index?_decimalLine {n : Nat} (h : n < 2 ^ 64) :
    index? (Encoder.decimalLine n) = some n := by
  have digits : ∀ c ∈ Nat.toDigits 10 n, c.isDigit = true := fun c => isDigit_of_mem_toDigits
  have trimmed : trimmed? (Encoder.decimalLine n) = some (Nat.toDigits 10 n) := by
    rw [trimmed?_decimalLine, toList_signedText, if_pos (Int.natCast_nonneg n), Int.toNat_natCast]
  have plain : (Nat.toDigits 10 n).contains '_' = false := by
    rw [Bool.eq_false_iff]
    intro found
    have digit := digits '_' (List.contains_iff_mem.1 found)
    cases digit
  have value := unsigned?_toDigits n
  rw [index?, trimmed]
  generalize Nat.toDigits 10 n = text at digits plain value
  simp only [bind, Option.bind]
  split
  · next rest =>
    have digit := digits '+' (List.mem_cons_self ..)
    cases digit
  · simp only [plain, value, h, if_true, Bool.false_eq_true, if_false]

/-- The lines of the two truth values are no lines of numbers. -/
theorem decimalLine_ne {n : Int} {b : UInt8} (h : b = 0x30 ∨ b = 0x31) :
    Encoder.decimalLine n ≠ [0x30, b] := by
  intro same
  have chars : ∀ c : Char, c.isDigit = true → ∀ d : Nat, d < 256 →
      UInt8.ofNat c.toNat = UInt8.ofNat d → c.toNat = d := by
    intro c digit d small e
    have code := congrArg UInt8.toNat e
    obtain ⟨_, high⟩ := Char.bounds_of_isDigit digit
    rwa [UInt8.toNat_ofNat_of_lt' (show c.toNat < 256 by omega),
      UInt8.toNat_ofNat_of_lt' small] at code
  rw [Encoder.decimalLine, Bytes.ascii, toList_signedText] at same
  split at same
  · have digits : ∀ c ∈ Nat.toDigits 10 n.toNat, c.isDigit = true :=
      fun c => isDigit_of_mem_toDigits
    have value := Nat.ofDigitChars_ten_toDigits (n := n.toNat)
    have length := congrArg List.length same
    generalize split : Nat.toDigits 10 n.toNat = cs at same digits value length
    obtain ⟨c, d, rfl⟩ : ∃ c d, cs = [c, d] := by
      match cs, length with
      | [c, d], _ => exact ⟨c, d, rfl⟩
    have first := chars c (digits c (by simp)) 48 (by decide) (List.cons.inj same).1
    have second : d.toNat = 48 ∨ d.toNat = 49 := by
      have e := (List.cons.inj (List.cons.inj same).2).1
      rcases h with rfl | rfl
      · exact .inl (chars d (digits d (by simp)) 48 (by decide) e)
      · exact .inr (chars d (digits d (by simp)) 49 (by decide) e)
    have small : n.toNat < 10 := by
      simp only [Nat.ofDigitChars_eq_foldl, List.foldl_cons, List.foldl_nil, first] at value
      have zero : '0'.toNat = 48 := rfl
      omega
    rw [Nat.toDigits_of_lt_base small] at split
    cases split
  · cases same

end Literal

/-! ## Text with escapes -/

/-- The value of a hexadecimal digit reads back from its character. -/
theorem hexValue?_hexDigit : ∀ n < 16, hexValue? (UInt8.ofNat (hexDigit n).toNat) = some n := by
  decide

theorem hexDigit_ne_newline : ∀ n < 16, UInt8.ofNat (hexDigit n).toNat ≠ 0x0a := by
  decide

/-- The bytes of ASCII characters. -/
def charBytes (cs : List Char) : Bytes := cs.map fun c => UInt8.ofNat c.toNat

theorem ascii_ofList (cs : List Char) : Bytes.ascii (String.ofList cs) = charBytes cs := by
  rw [Bytes.ascii, String.toList_ofList]
  rfl

theorem newline_not_mem_hexDigits (n : Nat) : 0x0a ∉ charBytes (hexDigits n) := by
  induction n using Nat.strongRecOn with
  | ind n ih =>
    rw [hexDigits]
    split
    · next small =>
      simpa [charBytes] using (hexDigit_ne_newline n small).symm
    · next large =>
      have quotient := ih (n / 16) (by omega)
      have last := (hexDigit_ne_newline (n % 16) (Nat.mod_lt _ (by decide))).symm
      simp only [charBytes, List.map_append, List.mem_append, not_or] at quotient ⊢
      exact ⟨quotient, by simpa using last⟩

theorem length_hexDigits_le {n : Nat} (width : Nat) (h : n < 16 ^ (width + 1)) :
    (hexDigits n).length ≤ width + 1 := by
  induction width generalizing n with
  | zero => rw [hexDigits, if_pos (by simpa using h)]; simp
  | succ width ih =>
    rw [hexDigits]
    split
    · simp
    · have := ih (n := n / 16) (by rw [Nat.pow_succ] at h; omega)
      simp only [List.length_append, List.length_singleton]
      omega

namespace RawUnicode

theorem hexRun?_hexDigits (n count value : Nat) (rest : Bytes) :
    hexRun? ((hexDigits n).length + count) value (charBytes (hexDigits n) ++ rest) =
      hexRun? count (16 ^ (hexDigits n).length * value + n) rest := by
  induction n using Nat.strongRecOn generalizing count rest with
  | ind n ih =>
    rw [hexDigits]
    split
    · next small =>
      rw [List.length_singleton, Nat.add_comm 1 count]
      simp only [charBytes, List.map_cons, List.map_nil, List.cons_append, List.nil_append, hexRun?,
        hexValue?_hexDigit n small, Nat.pow_one]
    · next large =>
      have last := hexValue?_hexDigit (n % 16) (Nat.mod_lt _ (by decide))
      rw [List.length_append, List.length_singleton, Nat.add_assoc, charBytes, List.map_append,
        List.append_assoc]
      refine (ih (n / 16) (by omega) (1 + count) _).trans ?_
      rw [Nat.add_comm 1 count]
      simp only [List.map_cons, List.map_nil, List.cons_append, List.nil_append, hexRun?, last,
        Nat.pow_succ]
      congr 1
      rw [Nat.mul_add, Nat.add_assoc, Nat.div_add_mod]
      ring

theorem hexRun?_zeros (zeros count : Nat) (rest : Bytes) :
    hexRun? (zeros + count) 0 (List.replicate zeros 0x30 ++ rest) = hexRun? count 0 rest := by
  induction zeros with
  | zero => simp
  | succ zeros ih =>
    have zero : hexValue? 0x30 = some 0 := by decide
    rw [Nat.add_right_comm, List.replicate_succ, List.cons_append, hexRun?, zero]
    exact ih

/-- Padded digits spell their number. -/
theorem hexRun?_hexPadded {width n : Nat} (h : (hexDigits n).length ≤ width) (rest : Bytes) :
    hexRun? width 0 (charBytes (hexPadded width n) ++ rest) = some (n, rest) := by
  obtain ⟨zeros, rfl⟩ : ∃ zeros, width = zeros + ((hexDigits n).length + 0) :=
    ⟨width - (hexDigits n).length, by omega⟩
  have bytes : charBytes (hexPadded (zeros + ((hexDigits n).length + 0)) n) =
      List.replicate zeros 0x30 ++ charBytes (hexDigits n) := by
    simp only [hexPadded, charBytes, List.map_append, List.map_replicate, Nat.add_zero,
      Nat.add_sub_cancel]
    rfl
  rw [bytes, List.append_assoc, hexRun?_zeros, hexRun?_hexDigits, hexRun?, Nat.mul_zero,
    Nat.zero_add]

theorem char?_toNat (c : Char) : char? c.toNat = some c := by
  have valid : c.toNat.isValidChar := c.valid
  rw [char?, if_pos valid, Char.ofNat_toNat]

theorem decodeFrom_escape {letter : UInt8} {code : Nat} {c : Char} {bs rest : Bytes}
    (read : List Char) (known : letter = 0x75 ∨ letter = 0x55)
    (run : hexRun? (if letter = 0x75 then 4 else 8) 0 bs = some (code, rest))
    (char : char? code = some c) :
    decodeFrom read (0x5c :: letter :: bs) = decodeFrom (c :: read) rest := by
  have other : letter ≠ 0x5c := by rcases known with rfl | rfl <;> decide
  rw [decodeFrom, if_neg (fun h => other h.2), if_pos ⟨rfl, known⟩]
  split
  · next failed => rw [run] at failed; cases failed
  · next code' rest' found =>
    rw [run] at found
    cases found
    simp only [char]

/-- An escape reads back as its character. -/
theorem decodeFrom_codeEscape (c : Char) (read : List Char) (rest : Bytes) :
    decodeFrom read (codeEscape c ++ rest) = decodeFrom (c :: read) rest := by
  have run : ∀ width, (hexDigits c.toNat).length ≤ width →
      hexRun? width 0 (Bytes.ascii (String.ofList (hexPadded width c.toNat)) ++ rest) =
        some (c.toNat, rest) := by
    intro width enough
    rw [ascii_ofList]
    exact hexRun?_hexPadded enough rest
  have range : c.toNat < 16 ^ 8 := Nat.lt_of_lt_of_le c.val.toNat_lt (by decide)
  rw [codeEscape]
  split
  · next short =>
    exact decodeFrom_escape read (.inl rfl) (run 4 (length_hexDigits_le 3 short))
      (char?_toNat c)
  · exact decodeFrom_escape read (.inr rfl) (run 8 (length_hexDigits_le 7 range))
      (char?_toNat c)

theorem ofNat_toNat_byte {c : Char} (h : c.toNat < 0x100) :
    Char.ofNat (UInt8.ofNat c.toNat).toNat = c := by
  rw [UInt8.toNat_ofNat_of_lt' h, Char.ofNat_toNat]

/-- The bytes of a character on a line read back as the character. -/
theorem decodeFrom_lineChar (c : Char) (read : List Char) (rest : Bytes) :
    decodeFrom read (lineChar c ++ rest) = decodeFrom (c :: read) rest := by
  rw [lineChar]
  split
  · exact decodeFrom_codeEscape c read rest
  · next plain =>
    rw [ofChar]
    split
    · next small =>
      have other : UInt8.ofNat c.toNat ≠ 0x5c := by
        intro e
        have char := ofNat_toNat_byte small
        rw [e] at char
        rw [← char] at plain
        exact plain rfl
      cases rest with
      | nil =>
        rw [List.append_nil, decodeFrom.eq_1, decodeFrom.eq_2, ofNat_toNat_byte small]
      | cons next rest =>
        rw [List.cons_append, List.nil_append, decodeFrom, if_neg (fun h => other h.1),
          if_neg (fun h => other h.1), ofNat_toNat_byte small]
    · exact decodeFrom_codeEscape c read rest

/-- A text reads back from its line. -/
theorem decode?_lineOf (text : String) : decode? (lineOf text) = some text := by
  have all : ∀ (cs read : List Char),
      decodeFrom read (cs.flatMap lineChar) = some (read.reverse ++ cs) := by
    intro cs
    induction cs with
    | nil => intro read; simp [decodeFrom]
    | cons c rest ih =>
      intro read
      rw [List.flatMap_cons, decodeFrom_lineChar, ih]
      simp
  rw [decode?, lineOf, all]
  simp

theorem newline_not_mem_codeEscape (c : Char) : 0x0a ∉ codeEscape c := by
  have padded : ∀ width, 0x0a ∉ Bytes.ascii (String.ofList (hexPadded width c.toNat)) := by
    intro width
    have digits := newline_not_mem_hexDigits c.toNat
    rw [ascii_ofList, hexPadded]
    simp only [charBytes, List.map_append, List.map_replicate, List.mem_append, not_or] at digits ⊢
    exact ⟨fun zero => absurd (List.eq_of_mem_replicate zero) (by decide), digits⟩
  rw [codeEscape]
  split <;> simp [padded]

theorem newline_not_mem_lineOf (text : String) : 0x0a ∉ lineOf text := by
  intro newline
  obtain ⟨c, -, hc⟩ := List.mem_flatMap.1 newline
  rw [lineChar] at hc
  split at hc
  · exact newline_not_mem_codeEscape c hc
  · next plain =>
    rw [ofChar] at hc
    split at hc
    · next small =>
      have char := ofNat_toNat_byte small
      rw [← List.mem_singleton.1 hc] at char
      rw [← char] at plain
      exact plain rfl
    · exact newline_not_mem_codeEscape c hc

end RawUnicode

/-! ## Encodings -/

namespace Encoding

/-- The bytes of a string of bytes, taken as characters, are these bytes. -/
theorem encode_ofLatin1 (bs : Bytes) : encode .latin1 (ofLatin1 bs) = .ok bs := by
  have all : ∀ (bs written : Bytes) (position : Nat),
      encodeBytes .latin1 0x100 position written (bs.map fun b => Char.ofNat b.toNat) =
        .ok (written.reverse ++ bs) := by
    intro bs
    induction bs with
    | nil => intro written position; simp [encodeBytes]
    | cons b rest ih =>
      intro written position
      have small : b.toNat < 0x100 := b.toNat_lt
      have valid : b.toNat.isValidChar := .inl (by omega)
      have code : (Char.ofNat b.toNat).toNat = b.toNat := by
        rw [Char.ofNat, dif_pos valid]
        exact UInt32.toNat_ofNatLT ..
      simp only [List.map_cons, encodeBytes, code, if_pos small, ih, UInt8.ofNat_toNat]
      simp
  simpa [encode, ofLatin1] using all bs [] 0

theorem decode?_ascii {text : String} (plain : Text.OnLine text.toList) :
    ascii.decode? (Bytes.ascii text) = some text := by
  have small : ∀ c ∈ text.toList, (UInt8.ofNat c.toNat).toNat = c.toNat := fun c mem =>
    UInt8.toNat_ofNat_of_lt' (Nat.lt_trans (plain c mem).1 (by decide))
  have low : (Bytes.ascii text).all (· < 0x80) = true := by
    simp only [Bytes.ascii, List.all_map, List.all_eq_true, Function.comp, decide_eq_true_eq]
    intro c mem
    rw [UInt8.lt_iff_toNat_lt, small c mem]
    exact (plain c mem).1
  have back : (Bytes.ascii text).map (fun b => Char.ofNat b.toNat) = text.toList := by
    rw [Bytes.ascii, List.map_map]
    refine (List.map_congr_left fun c mem => ?_).trans (List.map_id _)
    show Char.ofNat (UInt8.ofNat c.toNat).toNat = c
    rw [small c mem, Char.ofNat_toNat]
  rw [decode?, if_pos low, ofLatin1, back, String.ofList_toList]

end Encoding

end ObjectStream
