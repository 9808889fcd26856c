import ObjectStream.Listing
import ObjectStream.Proofs.Running
import ObjectStream.Proofs.Spelling
import ObjectStream.Shown

/-!
Byte strings between quotes.

The text between quotes consists of bytes that stand for themselves and of escapes, an octal one with all
the digits that it can have (`Spells`). The reader hands out what the text spells (`read_eq_ok_iff`). It
fails just where a backslash ends the text or an `x` behind it lacks its two digits, with the offset of
that backslash (`read_eq_error_iff`). Both writers put one piece for each byte, which no byte behind it
can change, and never a newline (`Shows`). So what they write reads back, from the text and from the
line of an instruction (`literals_read_back`).
-/

namespace ObjectStream

namespace ByteLiteral

/-! ## Escapes -/

/-- The number that octal digits spell. -/
def octalValue (digits : Bytes) : Nat := digits.foldl (fun n d => 8 * n + (d.toNat - 0x30)) 0

/-- The bytes behind a backslash stand for these bytes. -/
inductive Escape : Bytes → Bytes → Prop
  /-- A line goes on behind its end. -/
  | continued : Escape [0x0a] []
  | named {b byte : UInt8} (known : named? b = some byte) : Escape [b] [byte]
  | octal {digits : Bytes} (octal : ∀ d ∈ digits, isOctal d = true) (some_ : digits ≠ [])
      (few : digits.length ≤ 3) : Escape digits [UInt8.ofNat (octalValue digits)]
  | hex {high low : UInt8} {h l : Nat} (first : hexValue? high = some h)
      (second : hexValue? low = some l) : Escape [0x78, high, low] [UInt8.ofNat (16 * h + l)]
  /-- A backslash before any other byte stands for itself. -/
  | kept {b : UInt8} (line : b ≠ 0x0a) (octal : isOctal b = false) (hex : b ≠ 0x78)
      (unknown : named? b = none) : Escape [b] [0x5c, b]

/-- An octal escape of fewer than three digits does not go on in the text behind it. -/
def Complete (letters text : Bytes) : Prop :=
  (∀ d ∈ letters, isOctal d = true) → letters.length < 3 → ∀ b ∈ text.head?, isOctal b = false

/-- A backslash cannot stand before these bytes. -/
inductive Broken : Bytes → Prop
  | ended : Broken []
  | digits {text : Bytes} (lack : ∀ high low rest, text = high :: low :: rest →
      hexValue? high = none ∨ hexValue? low = none) : Broken (0x78 :: text)

/-- The text spells the bytes, piece by piece from the left. -/
inductive Spells : Bytes → Bytes → Prop
  | nil : Spells [] []
  | plain {b : UInt8} {text bytes : Bytes} (other : b ≠ 0x5c) (tail : Spells text bytes) :
      Spells (b :: text) (b :: bytes)
  | escape {letters value text bytes : Bytes} (piece : Escape letters value)
      (complete : Complete letters text) (tail : Spells text bytes) :
      Spells (0x5c :: (letters ++ text)) (value ++ bytes)

/-- The letters of short escapes are no octal digits and begin no other escape. -/
theorem named?_spec {b byte : UInt8} (known : named? b = some byte) :
    b ≠ 0x0a ∧ isOctal b = false ∧ b ≠ 0x78 := by
  have letter : b ∈ [0x5c, 0x27, 0x22, 0x61, 0x62, 0x66, 0x6e, 0x72, 0x74, 0x76] := by
    by_contra other
    simp only [List.mem_cons, List.not_mem_nil, or_false, not_or] at other
    simp [named?, other] at known
  have all : ∀ b ∈ ([0x5c, 0x27, 0x22, 0x61, 0x62, 0x66, 0x6e, 0x72, 0x74, 0x76] : Bytes),
      b ≠ 0x0a ∧ isOctal b = false ∧ b ≠ 0x78 := by decide +kernel
  exact all b letter

theorem complete_of_mem {letters text : Bytes} {b : UInt8} (mem : b ∈ letters)
    (other : isOctal b = false) : Complete letters text := by
  intro octal
  rw [octal b mem] at other
  cases other

/-- The digits of an octal escape are all that the reader takes. -/
theorem takeWhile_octal {d : UInt8} {ds text : Bytes} (octal : ∀ b ∈ d :: ds, isOctal b = true)
    (few : (d :: ds).length ≤ 3) (complete : Complete (d :: ds) text) :
    ((ds ++ text).take 2).takeWhile isOctal = ds := by
  have digits : ∀ b ∈ ds, isOctal b = true := fun b mem => octal b (List.mem_cons_of_mem d mem)
  have short : ds.length ≤ 2 := Nat.le_of_succ_le_succ few
  rw [List.take_append, List.take_of_length_le short, List.takeWhile_append_of_pos digits]
  by_cases full : ds.length = 2
  · simp [full]
  · have stop := complete octal (by simp only [List.length_cons]; omega)
    cases text with
    | nil => simp
    | cons b rest =>
      obtain ⟨room, more⟩ : ∃ room, 2 - ds.length = room + 1 := ⟨1 - ds.length, by omega⟩
      have other := stop b rfl
      simp [more, other]

/-- The reader finds the escape behind a backslash. -/
theorem Escape.escape? {letters value text : Bytes} (piece : Escape letters value)
    (complete : Complete letters text) :
    escape? (letters ++ text) = some (value, letters.length) := by
  cases piece with
  | continued => rfl
  | named known =>
    obtain ⟨line, octal, hex⟩ := named?_spec known
    simp [ByteLiteral.escape?, line, octal, hex, known]
  | octal octal some_ few =>
    cases letters with
    | nil => exact absurd rfl some_
    | cons d ds =>
      have first := octal d List.mem_cons_self
      have line : d ≠ 0x0a := by
        rintro rfl
        cases first
      simp only [List.cons_append, ByteLiteral.escape?.eq_def, if_neg line, if_pos first,
        takeWhile_octal octal few complete]
      rfl
  | hex first second =>
    have octal : isOctal 0x78 = false := by decide
    simp [ByteLiteral.escape?, octal, first, second]
  | kept line octal hex unknown => simp [ByteLiteral.escape?, line, octal, hex, unknown]

/-- The octal digits at the front of a text, no more than `count` of them. -/
theorem exists_octal (count : Nat) (text : Bytes) : ∃ ds rest, text = ds ++ rest ∧
    (∀ d ∈ ds, isOctal d = true) ∧ ds.length ≤ count ∧
    (ds.length < count → ∀ b ∈ rest.head?, isOctal b = false) := by
  induction count generalizing text with
  | zero => exact ⟨[], text, rfl, by simp, by simp, by simp⟩
  | succ count ih =>
    cases text with
    | nil => exact ⟨[], [], rfl, by simp, by simp, by simp⟩
    | cons b text =>
      cases octal : isOctal b with
      | false => exact ⟨[], b :: text, rfl, by simp, by simp, by simp [octal]⟩
      | true =>
        obtain ⟨ds, rest, split, digits, few, stop⟩ := ih text
        refine ⟨b :: ds, rest, by rw [split, List.cons_append], ?_, ?_, ?_⟩
        · exact List.forall_mem_cons.2 ⟨octal, digits⟩
        · exact Nat.succ_le_succ few
        · intro short
          exact stop (Nat.lt_of_succ_lt_succ short)

/-- Two hexadecimal digits stand behind an `x`, or it is broken. -/
theorem hex_or_broken (text : Bytes) : (∃ high low rest byte, text = high :: low :: rest ∧
    Escape [0x78, high, low] [byte]) ∨ Broken (0x78 :: text) := by
  by_cases digits : ∃ high low rest h l, text = high :: low :: rest ∧
      hexValue? high = some h ∧ hexValue? low = some l
  · obtain ⟨high, low, rest, h, l, split, first, second⟩ := digits
    exact .inl ⟨high, low, rest, _, split, .hex first second⟩
  · refine .inr (.digits ?_)
    intro high low rest split
    cases first : hexValue? high with
    | none => exact .inl rfl
    | some h =>
      cases second : hexValue? low with
      | none => exact .inr rfl
      | some l => exact absurd ⟨high, low, rest, h, l, split, first, second⟩ digits

/-- Behind a backslash stands an escape, or the text is broken. -/
theorem escape_or_broken (text : Bytes) :
    (∃ letters value rest, text = letters ++ rest ∧ Escape letters value ∧
      Complete letters rest) ∨ Broken text := by
  cases text with
  | nil => exact .inr .ended
  | cons b rest =>
    by_cases line : b = 0x0a
    · subst line
      exact .inl ⟨[0x0a], [], rest, rfl, .continued, complete_of_mem (b := 0x0a) (by simp) rfl⟩
    cases octal : isOctal b with
    | true =>
      obtain ⟨ds, tail, rfl, digits, few, stop⟩ := exists_octal 2 rest
      refine .inl ⟨b :: ds, _, tail, rfl, .octal ?_ (by simp) ?_, ?_⟩
      · exact List.forall_mem_cons.2 ⟨octal, digits⟩
      · exact Nat.succ_le_succ few
      · intro _ short
        exact stop (Nat.lt_of_succ_lt_succ short)
    | false =>
      by_cases hex : b = 0x78
      · subst hex
        rcases hex_or_broken rest with ⟨high, low, tail, byte, rfl, piece⟩ | broken
        · exact .inl ⟨[0x78, high, low], [byte], tail, rfl, piece,
            complete_of_mem (b := 0x78) (by simp) octal⟩
        · exact .inr broken
      · have alone : Complete [b] rest := complete_of_mem (b := b) (by simp) octal
        cases known : named? b with
        | some byte => exact .inl ⟨[b], [byte], rest, rfl, .named known, alone⟩
        | none => exact .inl ⟨[b], [0x5c, b], rest, rfl, .kept line octal hex known, alone⟩

theorem Broken.escape? {text : Bytes} (broken : Broken text) : escape? text = none := by
  cases broken with
  | ended => rfl
  | @digits rest lack =>
    have octal : isOctal 0x78 = false := by decide
    simp only [ByteLiteral.escape?.eq_def, octal]
    cases rest with
    | nil => rfl
    | cons high rest =>
      cases rest with
      | nil => rfl
      | cons low tail =>
        rcases lack high low tail rfl with first | second
        · simp [first]
        · simp [second]

/-! ## The reader -/

section
variable {offset : Nat} {read : Bytes}

theorem readFrom_plain {b : UInt8} (other : b ≠ 0x5c) (rest : Bytes) :
    readFrom offset read (b :: rest) = readFrom (offset + 1) (b :: read) rest := by
  rw [readFrom, if_neg other]

theorem readFrom_escape {letters value rest : Bytes} (piece : Escape letters value)
    (complete : Complete letters rest) :
    readFrom offset read (0x5c :: (letters ++ rest)) =
      readFrom (offset + 1 + letters.length) (value.reverse ++ read) rest := by
  rw [readFrom, if_pos rfl, piece.escape? complete]
  simp only [List.drop_left]

theorem readFrom_broken {rest : Bytes} (broken : Broken rest) :
    readFrom offset read (0x5c :: rest) = .error offset := by
  rw [readFrom, if_pos rfl, broken.escape?]

theorem Complete.append {letters text rest : Bytes} (complete : Complete letters text)
    (stop : ∀ b ∈ rest.head?, isOctal b = false) : Complete letters (text ++ rest) := by
  intro octal few
  cases text with
  | nil => exact stop
  | cons b text => exact complete octal few

/-- What is spelled is read, and the reader goes on behind it. An octal digit there could belong to
    the last escape. -/
theorem Spells.readFrom {text bytes rest : Bytes} (h : Spells text bytes)
    (stop : ∀ b ∈ rest.head?, isOctal b = false) :
    readFrom offset read (text ++ rest) =
      readFrom (offset + text.length) (bytes.reverse ++ read) rest := by
  induction h generalizing offset read with
  | nil => rfl
  | @plain b text bytes other _ ih =>
    rw [List.cons_append, readFrom_plain other, ih, List.length_cons, List.reverse_cons,
      List.append_assoc, Nat.add_assoc, Nat.add_comm 1]
    rfl
  | @escape letters value text bytes piece complete _ ih =>
    rw [List.cons_append, List.append_assoc, readFrom_escape piece (complete.append stop), ih]
    simp [Nat.add_assoc, Nat.add_comm, Nat.add_left_comm]

end

/-- Scanning from the left meets a backslash at this offset that no escape follows. -/
def BreaksAt (text : Bytes) (offset : Nat) : Prop :=
  ∃ front bytes rest, text = front ++ 0x5c :: rest ∧ Spells front bytes ∧ Broken rest ∧
    offset = front.length

/-- A text spells bytes or breaks somewhere. -/
theorem spells_or_breaks (text : Bytes) :
    (∃ bytes, Spells text bytes) ∨ ∃ offset, BreaksAt text offset := by
  -- behind an escape the scan goes on with a text that is shorter by all of its letters
  induction length : text.length using Nat.strongRecOn generalizing text with
  | ind n ih =>
    subst length
    cases text with
    | nil => exact .inl ⟨[], .nil⟩
    | cons b rest =>
      by_cases slash : b = 0x5c
      · subst slash
        rcases escape_or_broken rest with ⟨letters, value, tail, rfl, piece, complete⟩ | broken
        · have shorter : tail.length < (0x5c :: (letters ++ tail)).length := by
            simp only [List.length_cons, List.length_append]
            omega
          rcases ih tail.length shorter tail rfl with ⟨bytes, spells⟩ | breaks
          · exact .inl ⟨value ++ bytes, .escape piece complete spells⟩
          · obtain ⟨-, front, bytes, back, rfl, spells, broken, -⟩ := breaks
            -- up to the broken backslash the letters are followed by less text, or by none
            have before : Complete letters front := by
              intro octal few
              cases front with
              | nil => simp
              | cons b front => exact complete octal few
            exact .inr ⟨_, 0x5c :: (letters ++ front), value ++ bytes, back, by simp,
              .escape piece before spells, broken, rfl⟩
        · exact .inr ⟨0, [], [], rest, rfl, .nil, broken, rfl⟩
      · rcases ih rest.length (by simp) rest rfl with ⟨bytes, spells⟩ | breaks
        · exact .inl ⟨b :: bytes, .plain slash spells⟩
        · obtain ⟨-, front, bytes, back, rfl, spells, broken, -⟩ := breaks
          exact .inr ⟨_, b :: front, b :: bytes, back, rfl, .plain slash spells, broken, rfl⟩

theorem Spells.read {text bytes : Bytes} (h : Spells text bytes) : read text = .ok bytes := by
  have whole : ByteLiteral.readFrom 0 [] (text ++ []) = _ := h.readFrom (by simp)
  rw [List.append_nil, List.append_nil] at whole
  rw [ByteLiteral.read, whole, ByteLiteral.readFrom, List.reverse_reverse]

theorem BreaksAt.read {text : Bytes} {offset : Nat} (h : BreaksAt text offset) :
    read text = .error offset := by
  obtain ⟨front, bytes, rest, rfl, spells, broken, rfl⟩ := h
  have stop : isOctal 0x5c = false := by decide
  rw [ByteLiteral.read, spells.readFrom (by simp [stop]), readFrom_broken broken, Nat.zero_add]

/-- The reader hands out just what the text spells. -/
theorem read_eq_ok_iff {text bytes : Bytes} : read text = .ok bytes ↔ Spells text bytes := by
  constructor
  · intro done
    rcases spells_or_breaks text with ⟨others, spells⟩ | ⟨offset, breaks⟩
    · rw [spells.read] at done
      exact Except.ok.inj done ▸ spells
    · rw [breaks.read] at done
      cases done
  · exact Spells.read

/-- The reader fails just where the text breaks. -/
theorem read_eq_error_iff {text : Bytes} {offset : Nat} :
    read text = .error offset ↔ BreaksAt text offset := by
  constructor
  · intro failed
    rcases spells_or_breaks text with ⟨bytes, spells⟩ | ⟨place, breaks⟩
    · rw [spells.read] at failed
      cases failed
    · rw [breaks.read] at failed
      exact Except.error.inj failed ▸ breaks
  · exact BreaksAt.read

/-! ## The writers -/

/-- The written bytes are one piece, which stands for the byte whatever follows, and none of them is a
    control or beyond ASCII. -/
structure Shows (written : Bytes) (b : UInt8) : Prop where
  piece : (b ≠ 0x5c ∧ written = [b]) ∨
    ∃ letters, written = 0x5c :: letters ∧ Escape letters [b] ∧ ∀ text, Complete letters text
  visible : ∀ c ∈ written, 0x20 ≤ c ∧ c ≤ 0x7e

theorem shows_plain {b : UInt8} (other : b ≠ 0x5c) (visible : 0x20 ≤ b ∧ b ≤ 0x7e) :
    Shows [b] b where
  piece := .inl ⟨other, rfl⟩
  visible := by
    intro c mem
    rw [List.mem_singleton.1 mem]
    exact visible

theorem shows_named {letter b : UInt8} (known : named? letter = some b)
    (visible : 0x20 ≤ letter ∧ letter ≤ 0x7e) : Shows [0x5c, letter] b where
  piece := .inr ⟨[letter], rfl, .named known, fun text =>
    complete_of_mem (b := letter) (by simp) (named?_spec known).2.1⟩
  visible := by
    intro c mem
    simp only [List.mem_cons, List.not_mem_nil, or_false] at mem
    rcases mem with rfl | rfl
    · decide
    · exact visible

/-- A byte in hexadecimal has two digits. -/
theorem hexPadded_two {n : Nat} (small : n < 256) :
    hexPadded 2 n = [hexDigit (n / 16), hexDigit (n % 16)] := by
  by_cases single : n < 16
  · have zero : hexDigit (n / 16) = '0' := by
      rw [Nat.div_eq_of_lt single]
      rfl
    rw [hexPadded, hexDigits, if_pos single, zero, Nat.mod_eq_of_lt single]
    rfl
  · have high : n / 16 < 16 := by omega
    rw [hexPadded, hexDigits, if_neg single, hexDigits, if_pos high]
    rfl

theorem visible_hexDigit : ∀ n < 16, 0x20 ≤ UInt8.ofNat (hexDigit n).toNat ∧
    UInt8.ofNat (hexDigit n).toNat ≤ 0x7e := by
  decide

theorem shows_hex (b : UInt8) :
    Shows ([0x5c, 0x78] ++ Bytes.ascii (String.ofList (hexPadded 2 b.toNat))) b := by
  have high : b.toNat / 16 < 16 := by
    have := b.toNat_lt
    omega
  have low : b.toNat % 16 < 16 := Nat.mod_lt _ (by decide)
  have whole : UInt8.ofNat (16 * (b.toNat / 16) + b.toNat % 16) = b := by
    rw [Nat.div_add_mod, UInt8.ofNat_toNat]
  have piece := Escape.hex (hexValue?_hexDigit _ high) (hexValue?_hexDigit _ low)
  rw [whole] at piece
  rw [ascii_ofList, hexPadded_two b.toNat_lt]
  refine ⟨.inr ⟨_, rfl, piece, fun text => complete_of_mem (b := 0x78) (by simp) (by decide)⟩, ?_⟩
  intro c mem
  simp only [charBytes, List.map_cons, List.map_nil, List.cons_append, List.nil_append,
    List.mem_cons, List.not_mem_nil, or_false] at mem
  rcases mem with rfl | rfl | rfl | rfl
  · decide
  · decide
  · exact visible_hexDigit _ high
  · exact visible_hexDigit _ low

theorem shows_hexEscape (b : UInt8) : Shows (hexEscape b) b := by
  rw [hexEscape]
  split
  · next sign =>
    rcases sign with rfl | rfl
    · exact shows_named rfl (by decide)
    · exact shows_named rfl (by decide)
  · next other =>
    split
    · next visible => exact shows_plain (fun slash => other (.inl slash)) visible
    · exact shows_hex b

theorem shows_shortEscape (b : UInt8) : Shows (shortEscape b) b := by
  -- beside the three short escapes the writers agree
  by_cases newline : b = 0x0a
  · subst newline
    exact shows_named rfl (by decide)
  by_cases return_ : b = 0x0d
  · subst return_
    exact shows_named rfl (by decide)
  by_cases tab : b = 0x09
  · subst tab
    exact shows_named rfl (by decide)
  have same : shortEscape b = hexEscape b := by
    simp only [shortEscape, hexEscape, if_neg newline, if_neg return_, if_neg tab]
  rw [same]
  exact shows_hexEscape b

section
variable {escape : UInt8 → Bytes} (shows_ : ∀ b, Shows (escape b) b)
include shows_

theorem spells_flatMap (bs : Bytes) : Spells (bs.flatMap escape) bs := by
  induction bs with
  | nil => exact .nil
  | cons b rest ih =>
    rw [List.flatMap_cons]
    rcases (shows_ b).piece with ⟨other, plain⟩ | ⟨letters, escaped, piece, complete⟩
    · rw [plain]
      exact .plain other ih
    · rw [escaped]
      exact .escape piece (complete _) ih

theorem visible_flatMap {bs : Bytes} {c : UInt8} (mem : c ∈ bs.flatMap escape) :
    0x20 ≤ c ∧ c ≤ 0x7e := by
  obtain ⟨b, -, mem⟩ := List.mem_flatMap.1 mem
  exact (shows_ b).visible c mem

theorem newline_not_mem_flatMap (bs : Bytes) : 0x0a ∉ bs.flatMap escape := by
  intro newline
  exact absurd (visible_flatMap shows_ newline).1 (by decide)

/-- The literal is the bytes of the pieces, in quotes behind a letter. -/
theorem utf8_write (bs : Bytes) :
    Text.utf8 (write escape bs) = 0x62 :: 0x27 :: (bs.flatMap escape ++ [0x27]) := by
  -- characters below 0x80 are their own encoding
  have code : ∀ b ∈ bs.flatMap escape, (Char.ofNat b.toNat).toNat = b.toNat ∧ b.toNat < 0x80 := by
    intro b mem
    have high := UInt8.le_iff_toNat_le.1 (visible_flatMap shows_ mem).2
    have small : b.toNat < 0x80 := Nat.lt_of_le_of_lt high (by decide)
    have valid : b.toNat.isValidChar := .inl (by omega)
    refine ⟨?_, small⟩
    rw [Char.ofNat, dif_pos valid]
    exact UInt32.toNat_ofNatLT ..
  have chars : (write escape bs).toList =
      'b' :: '\'' :: ((bs.flatMap escape).map (fun b => Char.ofNat b.toNat) ++ ['\'']) := by
    simp [write, asciiText]
  rw [Text.utf8_eq_ascii, Bytes.ascii, chars]
  · simp only [List.map_cons, List.map_append, List.map_map, List.map_nil]
    have back : (bs.flatMap escape).map ((fun c => UInt8.ofNat c.toNat) ∘ fun b : UInt8 =>
        Char.ofNat b.toNat) = bs.flatMap escape := by
      refine (List.map_congr_left fun b mem => ?_).trans (List.map_id _)
      simp only [Function.comp, (code b mem).1, UInt8.ofNat_toNat, id]
    rw [back]
    rfl
  · intro c mem
    rw [chars] at mem
    simp only [List.mem_cons, List.mem_append, List.mem_map, List.not_mem_nil, or_false] at mem
    rcases mem with rfl | rfl | ⟨b, mem, rfl⟩ | rfl
    · decide
    · decide
    · rw [(code b mem).1]
      exact (code b mem).2
    · decide

end

end ByteLiteral

/-! ## The instruction -/

namespace Decoder

variable {H : Type} [HostObject H] {cfg : Config H}

theorem unquoted?_quoted (body : Bytes) : unquoted? (0x27 :: (body ++ [0x27])) = some body := by
  simp [unquoted?]

/-- A quoted line pushes the bytes that it spells. -/
theorem execute_string (strings : cfg.strings = .bytes) {body bytes : Bytes}
    (spells : ByteLiteral.Spells body bytes) :
    execute cfg .string (0x27 :: (body ++ [0x27])) = push cfg (.bytes bytes) := by
  have quoted := unquoted?_quoted body
  have raw : (ByteLiteral.read body).toOption = some bytes := by
    rw [spells.read]
    rfl
  have value : legacyString cfg .string bytes = pure (.bytes bytes) := by
    rw [legacyString, strings]
  simp only [execute, quotedLineValue, quoted, spelled, pure_bind, raw, value]

/-- A stream of one such line and a `STOP` is read as what the line pushes. -/
theorem loads_string (store : Store H) (room : 0 < cfg.limits.maxStack) {line : Bytes} {v : Value}
    (newline : 0x0a ∉ line) (pushes : execute cfg .string line = push cfg v) :
    loads cfg store (0x53 :: (line ++ [0x0a, 0x2e])) = (.ok v, store) := by
  let source : State H := .ofSource store (.ofBytes (0x53 :: (line ++ [0x0a, 0x2e]))) none {}
  let start : State H := { source with stack := #[], marks := [], marked := 0, protocol := 0 }
  have place : start.input.At
      (Instruction.bytes ⟨.string, line⟩ ++ (Instruction.bytes ⟨.stop, ()⟩ ++ [])) [] := by
    refine ⟨rfl, .inr ⟨rfl, ?_⟩⟩
    show 0x53 :: (line ++ [0x0a, 0x2e]) = 0x53 :: (line ++ [0x0a] ++ [] ++ [0x2e]) ++ []
    simp
  have empty : (Instruction.payload ⟨.string, line⟩).length = 0 := rfl
  obtain ⟨r, trace, behind, stepped⟩ := step_ok (i := ⟨.string, line⟩) newline nofun
    (empty ▸ Nat.zero_le cfg.limits.maxFrameLength) (empty ▸ by decide) place
  rw [pushes] at stepped
  let read : State H := { start with input := r, trace := trace }
  have does : Does True (push cfg v) read.machine fun _ m => m = read.machine.push v :=
    does_push room rfl
  obtain ⟨⟨⟩, st, pushed, -, input, machine⟩ | ⟨partly, -⟩ := does read rfl rfl
  · have behind : st.input.At (Instruction.bytes ⟨.stop, ()⟩ ++ []) [] := by
      rw [show st.input = r from input]
      exact behind
    have single : st.machine.stack = [] ++ [v] := by
      rw [machine]
      rfl
    obtain ⟨st', stopped, machine', -⟩ := step_stop cfg behind single
    have fuel : start.input.remaining + 1 = line.length + 2 + 1 + 1 := by
      show (Frame.Reader.ofSource _).remaining + 1 = _
      rw [remaining_ofSource]
      simp
    have ran : run cfg (start.input.remaining + 1) start = .ok v st' := by
      rw [fuel, run_executed stepped pushed, run, bind_ok stopped]
      rfl
    have kept : (closeFrame st').store = store := by
      have same := congrArg Machine.store ((closeFrame_machine st').trans machine')
      rw [machine] at same
      exact same
    have loaded : load cfg source = .ok v (closeFrame st') := by rw [load, ran]
    rw [loads, loaded]
    exact congrArg _ kept
  · exact absurd trivial partly

/-- A literal in quotes reads back, from its text and from the line of an instruction. -/
theorem write_reads_back (store : Store H) (strings : cfg.strings = .bytes)
    (room : 0 < cfg.limits.maxStack) {escape : UInt8 → Bytes}
    (shows_ : ∀ b, ByteLiteral.Shows (escape b) b) (bs : Bytes) :
    ∃ body, Text.utf8 (ByteLiteral.write escape bs) = 0x62 :: 0x27 :: (body ++ [0x27]) ∧
      ByteLiteral.read body = .ok bs ∧ 0x0a ∉ body ∧
      execute cfg .string (0x27 :: (body ++ [0x27])) = push cfg (.bytes bs) ∧
      loads cfg store (0x53 :: 0x27 :: (body ++ [0x27, 0x0a, 0x2e])) = (.ok (.bytes bs), store) := by
  have spells := ByteLiteral.spells_flatMap shows_ bs
  have newline := ByteLiteral.newline_not_mem_flatMap shows_ bs
  have quoted : 0x0a ∉ 0x27 :: (bs.flatMap escape ++ [0x27]) := by simpa using newline
  have pushes := execute_string strings spells
  have loaded := loads_string store room quoted pushes
  rw [List.cons_append, List.append_assoc] at loaded
  exact ⟨_, ByteLiteral.utf8_write shows_ bs, spells.read, newline, pushes, loaded⟩

end Decoder

/-- What is shown of a byte string, as a value or in a listing, is a literal in quotes. The text between
    them has no newline and reads back as the byte string, and as the line of an instruction it is read
    as this byte string wherever strings are read as bytes. The reader refuses a text just where a
    backslash that no escape follows is met from the left, and elsewhere hands out what the text
    spells. -/
theorem ByteLiteral.literals_read_back {H : Type} [HostObject H] (cfg : Decoder.Config H)
    (store : Store H) (strings : cfg.strings = .bytes) (room : 0 < cfg.limits.maxStack) :
    (∀ bs : Bytes, ∀ shown ∈ [store.shown (.bytes bs), (Listing.Argument.bytes bs).toText],
      ∃ body, Text.utf8 shown = 0x62 :: 0x27 :: (body ++ [0x27]) ∧
        ByteLiteral.read body = .ok bs ∧ 0x0a ∉ body ∧
        Decoder.execute cfg .string (0x27 :: (body ++ [0x27])) = Decoder.push cfg (.bytes bs) ∧
        Decoder.loads cfg store (0x53 :: 0x27 :: (body ++ [0x27, 0x0a, 0x2e])) =
          (.ok (.bytes bs), store)) ∧
      ∀ text : Bytes,
        (∀ offset, ByteLiteral.read text = .error offset ↔ BreaksAt text offset) ∧
        ∀ bytes, ByteLiteral.read text = .ok bytes ↔ ByteLiteral.Spells text bytes := by
  constructor
  · intro bs shown mem
    simp only [List.mem_cons, List.not_mem_nil, or_false] at mem
    rcases mem with rfl | rfl
    · exact Decoder.write_reads_back store strings room shows_shortEscape bs
    · exact Decoder.write_reads_back store strings room shows_hexEscape bs
  · intro text
    exact ⟨fun offset => read_eq_error_iff, fun bytes => read_eq_ok_iff⟩

/-- A backslash and an `x`, a quote, a newline, a zero before a digit, and a byte beyond ASCII. -/
theorem ByteLiteral.literals_read_back_mixed :
    let cfg : Decoder.Config Empty := { registry := .seeded 0, host := {}, strings := .bytes }
    let bs : Bytes := [0x5c, 0x78, 0x27, 0x0a, 0x00, 0x37, 0xff]
    cfg.strings = .bytes ∧ 0 < cfg.limits.maxStack ∧
      ∃ body, Text.utf8 (Store.shown ({} : Store Empty) (.bytes bs)) =
          0x62 :: 0x27 :: (body ++ [0x27]) ∧
        ByteLiteral.read body = .ok bs ∧ 0x0a ∉ body ∧
        Decoder.execute cfg .string (0x27 :: (body ++ [0x27])) = Decoder.push cfg (.bytes bs) ∧
        Decoder.loads cfg {} (0x53 :: 0x27 :: (body ++ [0x27, 0x0a, 0x2e])) =
          (.ok (.bytes bs), {}) :=
  ⟨rfl, by decide, (ByteLiteral.literals_read_back _ {} rfl (by decide)).1 _ _ (by simp)⟩

/-- Two digits have to follow an `x`; an octal escape takes what it finds. -/
example : ByteLiteral.read [0x61, 0x5c, 0x78, 0x34] = .error 1 ∧
    ByteLiteral.read [0x5c, 0x31, 0x38] = .ok [0x01, 0x38] := by decide +kernel

end ObjectStream
