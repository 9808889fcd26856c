import ObjectStream.Proofs.Atoms
import ObjectStream.Proofs.Intake

/-!
Text on one line.

The line of a text holds escapes, characters that stand for themselves, and backslashes. Which
backslash begins an escape depends on the run that it stands in: in front of the letters `u` and `U` the
last backslash of an odd run does, and no other (`Spells`). The reader takes backslashes in pairs and
finds the same text (`decode?_eq_some_iff`). The writer escapes every backslash and the ends of lines,
so that the line that it writes ends where it should and spells the text, whatever the text holds
(`saveText_line`).
-/

namespace ObjectStream

namespace RawUnicode

/-- The bytes spell the characters, taken run by run. -/
inductive Spells : Bytes → List Char → Prop
  | nil : Spells [] []
  | plain {b : UInt8} {rest : Bytes} {cs : List Char} (other : b ≠ 0x5c) (tail : Spells rest cs) :
      Spells (b :: rest) (Char.ofNat b.toNat :: cs)
  /-- An even run of backslashes, or one that no letter of an escape follows. -/
  | slashes {run : Nat} {rest : Bytes} {cs : List Char} (ends : rest.head? ≠ some 0x5c)
      (literal : run % 2 = 1 → rest.head? ≠ some 0x75 ∧ rest.head? ≠ some 0x55)
      (tail : Spells rest cs) :
      Spells (List.replicate run 0x5c ++ rest) (List.replicate run '\\' ++ cs)
  /-- An odd run of backslashes, the last of which begins an escape of four or eight digits. -/
  | escape {run : Nat} {letter : UInt8} {digits rest : Bytes} {code : Nat} {c : Char}
      {cs : List Char} (odd : run % 2 = 1) (known : letter = 0x75 ∨ letter = 0x55)
      (number : hexRun? (if letter = 0x75 then 4 else 8) 0 digits = some (code, rest))
      (char : char? code = some c) (tail : Spells rest cs) :
      Spells (List.replicate run 0x5c ++ letter :: digits)
        (List.replicate (run - 1) '\\' ++ c :: cs)

/-! ## Reading run by run -/

theorem decodeFrom_plain {b : UInt8} (other : b ≠ 0x5c) (read : List Char) (rest : Bytes) :
    decodeFrom read (b :: rest) = decodeFrom (Char.ofNat b.toNat :: read) rest := by
  cases rest with
  | nil => rw [decodeFrom, decodeFrom]
  | cons next rest => rw [decodeFrom, if_neg (fun h => other h.1), if_neg (fun h => other h.1)]

/-- Pairs of backslashes are read as they stand. -/
theorem decodeFrom_pairs (pairs : Nat) (read : List Char) (rest : Bytes) :
    decodeFrom read (List.replicate (2 * pairs) 0x5c ++ rest) =
      decodeFrom (List.replicate (2 * pairs) '\\' ++ read) rest := by
  induction pairs generalizing read with
  | zero => rfl
  | succ pairs ih =>
    have count : 2 * (pairs + 1) = 2 * pairs + 1 + 1 := by omega
    rw [count, List.replicate_succ, List.replicate_succ, List.cons_append, List.cons_append,
      decodeFrom, if_pos ⟨rfl, rfl⟩, ih, List.replicate_succ', List.replicate_succ']
    simp only [List.append_assoc, List.cons_append, List.nil_append]

/-- The last backslash of an odd run stands for itself if no letter of an escape follows. -/
theorem decodeFrom_slash {rest : Bytes} (ends : rest.head? ≠ some 0x5c)
    (literal : rest.head? ≠ some 0x75 ∧ rest.head? ≠ some 0x55) (read : List Char) :
    decodeFrom read (0x5c :: rest) = decodeFrom ('\\' :: read) rest := by
  have slash : Char.ofNat (0x5c : UInt8).toNat = '\\' := rfl
  cases rest with
  | nil => rw [decodeFrom, decodeFrom, slash]
  | cons next rest =>
    have other : next ≠ 0x5c := fun h => ends (congrArg some h)
    have plain : ¬(next = 0x75 ∨ next = 0x55) := by
      rintro (rfl | rfl)
      · exact literal.1 rfl
      · exact literal.2 rfl
    rw [decodeFrom, if_neg (fun h => other h.2), if_neg (fun h => plain h.2), slash]

theorem decodeFrom_slashes {run : Nat} {rest : Bytes} (ends : rest.head? ≠ some 0x5c)
    (literal : run % 2 = 1 → rest.head? ≠ some 0x75 ∧ rest.head? ≠ some 0x55)
    (read : List Char) :
    decodeFrom read (List.replicate run 0x5c ++ rest) =
      decodeFrom (List.replicate run '\\' ++ read) rest := by
  rcases Nat.even_or_odd' run with ⟨pairs, rfl | rfl⟩
  · exact decodeFrom_pairs pairs read rest
  · rw [List.replicate_succ', List.append_assoc, decodeFrom_pairs, List.singleton_append,
      decodeFrom_slash ends (literal (by omega)), List.replicate_succ, List.cons_append]

/-- What is spelled is read. -/
theorem Spells.decodeFrom {bs : Bytes} {cs : List Char} (h : Spells bs cs) (read : List Char) :
    decodeFrom read bs = some (read.reverse ++ cs) := by
  induction h generalizing read with
  | nil => rw [RawUnicode.decodeFrom, List.append_nil]
  | plain other _ ih =>
    rw [decodeFrom_plain other, ih, List.reverse_cons, List.append_assoc, List.singleton_append]
  | slashes ends literal _ ih =>
    rw [decodeFrom_slashes ends literal, ih, List.reverse_append, List.reverse_replicate,
      List.append_assoc]
  | @escape run letter digits rest code c cs odd known number char _ ih =>
    obtain ⟨pairs, rfl⟩ : ∃ pairs, run = 2 * pairs + 1 := ⟨run / 2, by omega⟩
    rw [List.replicate_succ', List.append_assoc, decodeFrom_pairs, List.singleton_append,
      decodeFrom_escape _ known number char, ih]
    simp

/-- A run of backslashes in front, and what follows it. -/
theorem exists_run (bs : Bytes) : ∃ run rest,
    bs = List.replicate run 0x5c ++ rest ∧ rest.head? ≠ some 0x5c := by
  induction bs with
  | nil => exact ⟨0, [], rfl, nofun⟩
  | cons b rest ih =>
    by_cases slash : b = 0x5c
    · obtain ⟨run, tail, rfl, ends⟩ := ih
      exact ⟨run + 1, tail, by rw [slash, List.replicate_succ, List.cons_append], ends⟩
    · exact ⟨0, b :: rest, rfl, fun h => slash (Option.some.inj h)⟩

/-- What is read is spelled. -/
theorem spells_of_decodeFrom {bs : Bytes} {read out : List Char}
    (h : decodeFrom read bs = some out) : ∃ cs, Spells bs cs ∧ out = read.reverse ++ cs := by
  induction length : bs.length using Nat.strongRecOn generalizing bs read with
  | ind n ih =>
    subst length
    obtain ⟨run, rest, rfl, ends⟩ := exists_run bs
    by_cases literal : run % 2 = 1 → rest.head? ≠ some 0x75 ∧ rest.head? ≠ some 0x55
    · rw [decodeFrom_slashes ends literal] at h
      cases rest with
      | nil =>
        rw [decodeFrom, Option.some.injEq] at h
        exact ⟨_, .slashes ends literal .nil, by simp [← h]⟩
      | cons b rest =>
        have other : b ≠ 0x5c := fun slash => ends (congrArg some slash)
        rw [decodeFrom_plain other] at h
        obtain ⟨cs, tail, rfl⟩ := ih rest.length (by simp; omega) h rfl
        exact ⟨_, .slashes ends literal (.plain other tail), by simp⟩
    · obtain ⟨odd, letters⟩ := Classical.not_imp.1 literal
      obtain ⟨pairs, rfl⟩ : ∃ pairs, run = 2 * pairs + 1 := ⟨run / 2, by omega⟩
      obtain ⟨letter, digits, rfl, known⟩ : ∃ letter digits, rest = letter :: digits ∧
          (letter = 0x75 ∨ letter = 0x55) := by
        cases rest with
        | nil => simp at letters
        | cons letter digits =>
          refine ⟨letter, digits, rfl, ?_⟩
          simpa [Classical.or_iff_not_imp_left] using letters
      have other : letter ≠ 0x5c := by rcases known with rfl | rfl <;> decide
      rw [List.replicate_succ', List.append_assoc, decodeFrom_pairs, List.singleton_append,
        decodeFrom, if_neg (fun slash => other slash.2), if_pos ⟨rfl, known⟩] at h
      split at h
      · cases h
      · next code rest number =>
        split at h
        · cases h
        · next c char =>
          have shorter := hexRun?_length number
          obtain ⟨cs, tail, rfl⟩ := ih rest.length (by simp; omega) h rfl
          exact ⟨_, .escape odd known number char tail, by simp⟩

theorem decode?_eq_some_iff {bs : Bytes} {text : String} :
    decode? bs = some text ↔ Spells bs text.toList := by
  constructor
  · intro h
    obtain ⟨out, decoded, rfl⟩ := Option.map_eq_some_iff.1 h
    obtain ⟨cs, spells, rfl⟩ := spells_of_decodeFrom decoded
    simpa using spells
  · intro h
    rw [decode?, h.decodeFrom]
    simp

end RawUnicode

/-- A text at protocol 0 is one instruction: the letter `V`, a line without a newline inside, and a
    newline. A reader of lines takes up that line, which spells the text and nothing else; and the text
    is what is pushed by a decoder that stands before the line. -/
theorem Encoder.saveText_line {H : Type} [HostObject H] (cfg : Decoder.Config H) (text : String)
    (rest : Bytes) :
    let line := RawUnicode.lineOf text
    (Encoder.saveText 0 text : Encode H Unit) = Encoder.emit .unicode line ∧
      (Instruction.mk .unicode line).bytes = 0x56 :: (line ++ [0x0a]) ∧
      0x0a ∉ line ∧
      Bytes.splitLine (line ++ 0x0a :: rest) = (line ++ [0x0a], rest) ∧
      RawUnicode.decode? line = some text ∧
      (∀ cs, RawUnicode.Spells line cs ↔ cs = text.toList) ∧
      Decoder.execute cfg .unicode line = Decoder.push cfg (.str text) ∧
      ∀ (st : Decoder.State H) (next later : Bytes), st.input.At (line ++ 0x0a :: next) later →
        ∃ r, r.At next later ∧
          Decoder.dispatch cfg .unicode st = Decoder.push cfg (.str text) { st with input := r } := by
  intro line
  have newline : 0x0a ∉ line := RawUnicode.newline_not_mem_lineOf text
  have decoded : RawUnicode.decode? line = some text := RawUnicode.decode?_lineOf text
  have spelled : ∀ cs, RawUnicode.Spells line cs ↔ cs = text.toList := by
    intro cs
    have same : RawUnicode.Spells line cs ↔ RawUnicode.decode? line = some (String.ofList cs) := by
      rw [RawUnicode.decode?_eq_some_iff, String.toList_ofList]
    rw [same, decoded, Option.some.injEq]
    constructor
    · intro text_eq
      rw [text_eq, String.toList_ofList]
    · intro cs_eq
      rw [cs_eq, String.ofList_toList]
  have pushes : Decoder.execute cfg .unicode line = Decoder.push cfg (.str text) :=
    (Decoder.utters_textInstruction 0 text).run
  refine ⟨rfl, List.append_nil _, newline, Bytes.splitLine_newline newline, decoded, spelled, pushes,
    fun st next later place => ?_⟩
  obtain ⟨r, run, place⟩ := Decoder.readLine_ok .unicode place newline
  refine ⟨r, place, ?_⟩
  rw [← pushes]
  exact bind_ok run

end ObjectStream
