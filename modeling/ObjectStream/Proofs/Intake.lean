import Mathlib.Data.List.TakeWhile
import ObjectStream.Proofs.Reading

/-!
What a reader takes in.

A reader hands out the bytes before it in order, whether they lie in a frame or in the source
(`read_full`, `readLine_full`), and a frame is loaded without a change of these bytes
(`loadFrame_full`). A decoder that answers a request has read exactly the bytes that the request takes
(`answer_full`).
-/

namespace ObjectStream

/-! ## Lines -/

theorem Bytes.splitLine_of_not_mem {bs : Bytes} (h : 0x0a ∉ bs) :
    Bytes.splitLine bs = (bs, []) := by
  have keep : ∀ b ∈ bs, (b != 0x0a) = true := fun b mem => by
    simp only [bne_iff_ne]
    exact fun e => h (e ▸ mem)
  rw [splitLine, List.span_eq_takeWhile_dropWhile, List.dropWhile_eq_nil_iff.2 keep,
    List.takeWhile_eq_self_iff.2 keep]

/-- The first line ends with a newline, or the bytes hold none. -/
theorem Bytes.splitLine_cases (bs : Bytes) :
    (∃ line rest, 0x0a ∉ line ∧ bs = line ++ 0x0a :: rest ∧
      Bytes.splitLine bs = (line ++ [0x0a], rest)) ∨
      0x0a ∉ bs ∧ Bytes.splitLine bs = (bs, []) := by
  by_cases mem : (0x0a : UInt8) ∈ bs
  · obtain ⟨line, rest, rfl, newline⟩ := List.eq_append_cons_of_mem mem
    exact .inl ⟨line, rest, newline, rfl, splitLine_newline newline⟩
  · exact .inr ⟨mem, splitLine_of_not_mem mem⟩

theorem Bytes.splitLine_append (bs : Bytes) : (splitLine bs).1 ++ (splitLine bs).2 = bs := by
  rcases splitLine_cases bs with ⟨line, rest, -, same, split⟩ | ⟨-, split⟩
  · rw [split, same, List.append_assoc]
    rfl
  · rw [split, List.append_nil]

theorem Bytes.getLast?_ne_newline {bs : Bytes} (h : 0x0a ∉ bs) : bs.getLast? ≠ some 0x0a :=
  fun last => h (List.mem_of_getLast? last)

/-! ## Sources -/

namespace Source

variable {s : Source}

/-- The source behind the next `n` bytes. -/
def skip (s : Source) (n : Nat) : Source :=
  { s with unread := s.unread.drop n, taken := s.taken + (s.unread.take n).length }

theorem read_faultless (h : s.fault = none) (n : Nat) :
    s.read n = .ok (s.unread.take n, s.skip n) := by
  simp [read, advance, h, skip]

theorem readLine_faultless (h : s.fault = none) :
    s.readLine = .ok ((Bytes.splitLine s.unread).1,
      { s with
        unread := (Bytes.splitLine s.unread).2
        taken := s.taken + (Bytes.splitLine s.unread).1.length }) := by
  simp [readLine, advance, h]

end Source

/-! ## Readers -/

namespace Frame.Reader

variable {r r' : Reader} {got : Bytes} {n : Nat}

/-- The source fails nowhere, and outside of frames nothing is left of one. -/
structure Sound (r : Reader) : Prop where
  faultless : r.source.fault = none
  outside : r.inFrame = false → r.frame = []

/-- The bytes before the reader. -/
def upcoming (r : Reader) : Bytes := r.frame ++ r.source.unread

theorem sound_ofSource (bs : Bytes) : (ofSource (.ofBytes bs)).Sound := ⟨rfl, fun _ => rfl⟩

/-- A read either stays in a frame or goes to the source. -/
theorem Sound.cases (h : r.Sound) (n : Nat) :
    (r.inFrame = true ∧ (r.frame ≠ [] ∨ n = 0)) ∨
      r.frame = [] ∧ (r.inFrame = true → n ≠ 0) := by
  by_cases frame : r.frame = []
  · by_cases inside : r.inFrame = true ∧ n = 0
    · exact .inl ⟨inside.1, .inr inside.2⟩
    · exact .inr ⟨frame, fun inFrame zero => inside ⟨inFrame, zero⟩⟩
  · have inFrame : r.inFrame = true := by
      by_contra out
      exact frame (h.outside (Bool.eq_false_iff.2 out))
    exact .inl ⟨inFrame, .inl frame⟩

theorem read_held (inFrame : r.inFrame = true) (held : r.frame ≠ [] ∨ n = 0) :
    read n r = if r.frame.length < n then .error (.decode .frameExhausted) r
      else .ok (r.frame.take n) { r with frame := r.frame.drop n, position := r.position + n } := by
  have stays : (r.frame.isEmpty && n != 0) = false := by
    rcases held with held | rfl
    · simp [held]
    · simp
  have short : (r.frame.take n).length < n ↔ r.frame.length < n := by
    rw [List.length_take]
    omega
  simp only [read, if_pos inFrame, stays, Bool.false_eq_true, if_false, List.splitAt_eq, short]

/-- The reader behind `got`, which it took from the source. -/
def fetched (r : Reader) (got : Bytes) (source : Source) : Reader :=
  { r with inFrame := false, source := source, position := r.position + got.length }

theorem read_source (sound : r.Sound) (frame : r.frame = []) (held : r.inFrame = true → n ≠ 0) :
    read n r = .ok (r.source.unread.take n)
      (r.fetched (r.source.unread.take n) (r.source.skip n)) := by
  have took := Source.read_faultless sound.faultless n
  by_cases inFrame : r.inFrame = true
  · have leaves : (r.frame.isEmpty && n != 0) = true := by simp [frame, held inFrame]
    rw [read, if_pos inFrame, if_pos leaves]
    exact readSource_ok (r := { r with inFrame := false }) frame took
  · have out : r.inFrame = false := Bool.eq_false_iff.2 inFrame
    rw [read, if_neg inFrame, readSource_ok frame took, fetched, out]

theorem readLine_held (inFrame : r.inFrame = true) (held : r.frame ≠ []) :
    readLine r = if 0x0a ∈ r.frame then
        .ok (Bytes.splitLine r.frame).1 { r with
          frame := (Bytes.splitLine r.frame).2
          position := r.position + (Bytes.splitLine r.frame).1.length }
      else .error (.decode .frameExhausted) r := by
  have stays : r.frame.isEmpty = false := by simpa using held
  simp only [readLine, if_pos inFrame, stays, Bool.false_eq_true, if_false]
  rcases Bytes.splitLine_cases r.frame with ⟨line, rest, -, same, split⟩ | ⟨newline, split⟩
  · have mem : (0x0a : UInt8) ∈ r.frame := by simp [same]
    rw [split, if_pos (List.getLast?_concat ..), if_pos mem]
  · rw [split, if_neg (Bytes.getLast?_ne_newline newline), if_neg newline]

theorem readLine_source (sound : r.Sound) (frame : r.frame = []) :
    readLine r = .ok (Bytes.splitLine r.source.unread).1
      (r.fetched (Bytes.splitLine r.source.unread).1
        { r.source with
          unread := (Bytes.splitLine r.source.unread).2
          taken := r.source.taken + (Bytes.splitLine r.source.unread).1.length }) := by
  have took := Source.readLine_faultless sound.faultless
  by_cases inFrame : r.inFrame = true
  · have leaves : r.frame.isEmpty = true := by simp [frame]
    rw [readLine, if_pos inFrame, if_pos leaves]
    exact readSource_ok (r := { r with inFrame := false }) frame took
  · have out : r.inFrame = false := Bool.eq_false_iff.2 inFrame
    rw [readLine, if_neg inFrame, readSource_ok frame took, fetched, out]

theorem loadFrame_held (sound : r.Sound) (held : r.frame ≠ []) :
    loadFrame n r = .error (.decode .frameOverlap) r := by
  have inFrame : r.inFrame = true := by
    by_contra out
    exact held (sound.outside (Bool.eq_false_iff.2 out))
  rw [loadFrame, if_pos (by simp [inFrame, held])]

theorem loadFrame_source (sound : r.Sound) (frame : r.frame = []) :
    loadFrame n r =
      if r.source.unread.length < n then
        .error (.decode .frameExhausted)
          { r with source := r.source.skip n, frame := r.source.unread.take n }
      else .ok () { r with
        source := r.source.skip n, frame := r.source.unread.take n, inFrame := true } := by
  have short : (r.source.unread.take n).length < n ↔ r.source.unread.length < n := by
    rw [List.length_take]
    omega
  simp only [loadFrame, dropFrame, frame, Source.read_faultless sound.faultless n, short]
  simp

/-! ## What was taken -/

/-- The reader has handed out `got`, and is sound again. -/
structure Passed (r r' : Reader) (got : Bytes) : Prop where
  sound : r'.Sound
  upcoming : r.upcoming = got ++ r'.upcoming
  position : r'.position = r.position + got.length

theorem Passed.refl (sound : r.Sound) : r.Passed r [] := ⟨sound, rfl, rfl⟩

theorem Passed.trans {r'' : Reader} {got' : Bytes} (h : r.Passed r' got)
    (h' : r'.Passed r'' got') : r.Passed r'' (got ++ got') where
  sound := h'.sound
  upcoming := by rw [h.upcoming, h'.upcoming, List.append_assoc]
  position := by rw [h'.position, h.position, List.length_append, Nat.add_assoc]

/-- A read hands out the next bytes, and fewer of them than it was asked for only at the end. -/
theorem read_passed (sound : r.Sound) (run : read n r = .ok got r') :
    r.Passed r' got ∧ (got.length = n ∨ got.length < n ∧ r'.upcoming = []) := by
  rcases sound.cases n with ⟨inFrame, held⟩ | ⟨frame, held⟩
  · rw [read_held inFrame held] at run
    split at run
    · cases run
    · next enough =>
      cases run
      have length : (r.frame.take n).length = n := List.length_take_of_le (Nat.le_of_not_lt enough)
      refine ⟨⟨⟨sound.faultless, fun out => ?_⟩, ?_, by rw [length]⟩, .inl length⟩
      · exact absurd (inFrame.symm.trans out) (by decide)
      · simp only [Reader.upcoming, ← List.append_assoc, List.take_append_drop]
  · rw [read_source sound frame held] at run
    cases run
    refine ⟨⟨⟨sound.faultless, fun _ => frame⟩, ?_, rfl⟩, ?_⟩
    · simp only [Reader.upcoming, fetched, Source.skip, frame, List.nil_append,
        List.take_append_drop]
    · rcases Nat.lt_or_ge r.source.unread.length n with short | enough
      · right
        simp only [Reader.upcoming, fetched, Source.skip, frame, List.nil_append, List.length_take,
          List.drop_eq_nil_iff]
        omega
      · exact .inl (List.length_take_of_le enough)

/-- A line that was read is the next one, and it lacks its newline only at the end. -/
theorem readLine_passed (sound : r.Sound) (run : readLine r = .ok got r') :
    r.Passed r' got ∧
      ((∃ line, 0x0a ∉ line ∧ got = line ++ [0x0a]) ∨ 0x0a ∉ got ∧ r'.upcoming = []) := by
  rcases sound.cases 1 with ⟨inFrame, held⟩ | ⟨frame, -⟩
  · rw [readLine_held inFrame (held.resolve_right (by decide))] at run
    split at run
    · next mem =>
      cases run
      refine ⟨⟨⟨sound.faultless, fun out => ?_⟩, ?_, rfl⟩, .inl ?_⟩
      · exact absurd (inFrame.symm.trans out) (by decide)
      · simp only [Reader.upcoming, ← List.append_assoc, Bytes.splitLine_append]
      · rcases Bytes.splitLine_cases r.frame with ⟨line, rest, newline, -, split⟩ | ⟨newline, -⟩
        · exact ⟨line, newline, by rw [split]⟩
        · exact absurd mem newline
    · cases run
  · rw [readLine_source sound frame] at run
    cases run
    refine ⟨⟨⟨sound.faultless, fun _ => frame⟩, ?_, rfl⟩, ?_⟩
    · simp only [Reader.upcoming, fetched, frame, List.nil_append, Bytes.splitLine_append]
    · rcases Bytes.splitLine_cases r.source.unread with
        ⟨line, rest, newline, -, split⟩ | ⟨newline, split⟩
      · exact .inl ⟨line, newline, by rw [split]⟩
      · refine .inr ⟨by rwa [split], ?_⟩
        simp only [Reader.upcoming, fetched, frame, split, List.append_nil]

/-- A read that was not short handed out the next bytes. -/
theorem read_full (sound : r.Sound) (run : read n r = .ok got r') (full : ¬got.length < n) :
    got.length = n ∧ r.Passed r' got := by
  obtain ⟨passed, length | ⟨short, -⟩⟩ := read_passed sound run
  · exact ⟨length, passed⟩
  · exact absurd short full

/-- A line that was not short is the next one. -/
theorem readLine_full (sound : r.Sound) (run : readLine r = .ok got r')
    (full : got.getLast? = some 0x0a) :
    ∃ line, 0x0a ∉ line ∧ got = line ++ [0x0a] ∧ r.Passed r' got := by
  obtain ⟨passed, ⟨line, newline, same⟩ | ⟨newline, -⟩⟩ := readLine_passed sound run
  · exact ⟨line, newline, same, passed⟩
  · exact absurd full (Bytes.getLast?_ne_newline newline)

/-- Behind the header of a frame the bytes to come are the same. -/
theorem loadFrame_full (sound : r.Sound) (run : loadFrame n r = .ok () r') : r.Passed r' [] := by
  by_cases frame : r.frame = []
  · rw [loadFrame_source sound frame] at run
    split at run
    · cases run
    · cases run
      refine ⟨⟨sound.faultless, fun out => by cases out⟩, ?_, rfl⟩
      simp only [Reader.upcoming, Source.skip, frame, List.nil_append, List.take_append_drop]
  · rw [loadFrame_held sound frame] at run
    cases run

end Frame.Reader

/-! ## Reading behind a decoder -/

namespace Decoder

variable {H α β : Type} {st st' : State H} {op : Opcode}

theorem reading_eq_ok {action : EStateM Error Frame.Reader α} {a : α}
    (h : reading action st = .ok a st') :
    ∃ input, action st.input = .ok a input ∧ st' = { st with input := input } := by
  unfold reading at h
  split at h
  · next a' input run =>
    cases h
    exact ⟨input, run, rfl⟩
  · cases h

theorem reading_eq_error {action : EStateM Error Frame.Reader α} {e : Error}
    (h : reading action st = .error e st') :
    ∃ input, action st.input = .error e input ∧ st' = { st with input := input } := by
  unfold reading at h
  split at h
  · cases h
  · next e' input run =>
    cases h
    exact ⟨input, run, rfl⟩

/-- An operand that was read is whole. -/
theorem readExactly_full {n : Nat} {bs : Bytes} (sound : st.input.Sound)
    (run : readExactly op n st = .ok bs st') :
    bs.length = n ∧ ∃ r, st' = { st with input := r } ∧ st.input.Passed r bs := by
  obtain ⟨got, st₁, first, rest⟩ := bind_eq_ok run
  obtain ⟨r, read, rfl⟩ := reading_eq_ok first
  dsimp only at rest
  split at rest
  · cases rest
  · next full =>
    cases rest
    obtain ⟨length, passed⟩ := Frame.Reader.read_full sound read full
    exact ⟨length, r, rfl, passed⟩

/-- A line that was read is whole. -/
theorem readLine_full {line : Bytes} (sound : st.input.Sound)
    (run : readLine op st = .ok line st') :
    0x0a ∉ line ∧ ∃ r, st' = { st with input := r } ∧ st.input.Passed r (line ++ [0x0a]) := by
  obtain ⟨got, st₁, first, rest⟩ := bind_eq_ok run
  obtain ⟨r, read, rfl⟩ := reading_eq_ok first
  split at rest
  · next full =>
    cases rest
    obtain ⟨line, newline, rfl, passed⟩ := Frame.Reader.readLine_full sound read full
    rw [List.dropLast_concat]
    exact ⟨newline, r, rfl, passed⟩
  · cases rest

/-- The decoder has read exactly the bytes that the request takes. -/
theorem answer_full {request : Request α} {a : α} (sound : st.input.Sound)
    (run : answer op request st = .ok a st') :
    ∃ bs r, request.Takes bs a ∧ st' = { st with input := r } ∧ st.input.Passed r bs := by
  induction request generalizing st with
  | done =>
    cases run
    exact ⟨[], _, .done _, rfl, .refl sound⟩
  | fail cause => cases run
  | take count next ih =>
    obtain ⟨bs, st₁, read, rest⟩ := bind_eq_ok run
    obtain ⟨length, r, rfl, passed⟩ := readExactly_full sound read
    obtain ⟨bs', r', takes, rfl, passed'⟩ := ih bs passed.sound rest
    exact ⟨bs ++ bs', r', .take length takes, rfl, passed.trans passed'⟩
  | line next ih =>
    obtain ⟨line, st₁, read, rest⟩ := bind_eq_ok run
    obtain ⟨newline, r, rfl, passed⟩ := readLine_full sound read
    obtain ⟨bs', r', takes, rfl, passed'⟩ := ih line passed.sound rest
    refine ⟨line ++ 0x0a :: bs', r', .line newline takes, rfl, ?_⟩
    have whole := passed.trans passed'
    rwa [List.append_assoc] at whole

theorem reading_error {action : EStateM Error Frame.Reader α} {f : α → Decode H β} {e : Error}
    (still : ∀ a st e st', f a st = .error e st' → st' = st)
    (run : (reading action >>= f) st = .error e st') : ∃ r, st' = { st with input := r } := by
  rcases bind_eq_error run with first | ⟨a, st₁, first, rest⟩
  · obtain ⟨r, -, rfl⟩ := reading_eq_error first
    exact ⟨r, rfl⟩
  · obtain ⟨r, -, rfl⟩ := reading_eq_ok first
    exact ⟨r, still _ _ _ _ rest⟩

/-- An operand that cannot be read changes nothing but the input. -/
theorem answer_error {request : Request α} {e : Error} (sound : st.input.Sound)
    (run : answer op request st = .error e st') : ∃ r, st' = { st with input := r } := by
  induction request generalizing st with
  | done => cases run
  | fail cause =>
    cases run
    exact ⟨_, rfl⟩
  | take count next ih =>
    rcases bind_eq_error run with short | ⟨bs, st₁, first, rest⟩
    · refine reading_error (fun got st e st' short => ?_) short
      split at short
      · cases short
        rfl
      · cases short
    · obtain ⟨-, r, rfl, passed⟩ := readExactly_full sound first
      obtain ⟨r', rfl⟩ := ih bs passed.sound rest
      exact ⟨r', rfl⟩
  | line next ih =>
    rcases bind_eq_error run with short | ⟨line, st₁, first, rest⟩
    · refine reading_error (fun got st e st' short => ?_) short
      split at short
      · cases short
      · cases short
        rfl
    · obtain ⟨-, r, rfl, passed⟩ := readLine_full sound first
      obtain ⟨r', rfl⟩ := ih line passed.sound rest
      exact ⟨r', rfl⟩

end Decoder

end ObjectStream
