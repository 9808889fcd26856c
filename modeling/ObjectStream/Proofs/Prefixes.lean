import ObjectStream.Proofs.Answers
import ObjectStream.Proofs.Orders

/-!
Streams and their prefixes.

An action that runs through has taken certain bytes from the source. It needs exactly these (`Needs`):
before any bytes that begin with them it goes the same way, and before a proper prefix of them it
reports that the input is incomplete. Reads are like this, blind actions need nothing, and sequences of
such actions are such actions (`Steady`). So a decoder never looks behind the stream it has read, and no
proper prefix of a stream is a stream (`load_prefix`).
-/

namespace ObjectStream

/-- The input ended too soon; more of it may still make a stream. -/
def Error.Incomplete : Error → Prop
  | .endOfInput | .decode (.truncated _) | .decode .frameExhausted => True
  | _ => False

/-! ## Readers -/

namespace Frame.Reader

variable {α : Type} {r r' : Reader} {n : Nat}

/-- The reader with other bytes before it in the source. -/
def before (r : Reader) (bs : Bytes) : Reader :=
  { r with source := { r.source with unread := bs } }

theorem before_unread (r : Reader) : r.before r.source.unread = r := rfl

theorem Sound.before (h : r.Sound) (bs : Bytes) : (r.before bs).Sound := ⟨h.faultless, h.outside⟩

/-- The reader has taken `bs` from the source. -/
structure Took (r r' : Reader) (bs : Bytes) : Prop where
  sound : r'.Sound
  unread : r.source.unread = bs ++ r'.source.unread
  taken : r'.source.taken = r.source.taken + bs.length

theorem Took.refl (sound : r.Sound) : r.Took r [] := ⟨sound, rfl, rfl⟩

theorem Took.trans {r'' : Reader} {bs bs' : Bytes} (h : r.Took r' bs) (h' : r'.Took r'' bs') :
    r.Took r'' (bs ++ bs') where
  sound := h'.sound
  unread := by rw [h.unread, h'.unread, List.append_assoc]
  taken := by rw [h'.taken, h.taken, List.length_append, Nat.add_assoc]

/-- Reading needs exactly these bytes of the source. Before fewer of them it is short, or exhausts a
    frame. -/
structure Needs (action : EStateM Error Reader α) (full : α → Prop) (r : Reader) (a : α)
    (r' : Reader) (bs : Bytes) : Prop where
  took : r.Took r' bs
  same : ∀ rest, action (r.before (bs ++ rest)) = .ok a (r'.before rest)
  short : ∀ got, got <+: bs → got ≠ bs →
    (∃ a' r'', action (r.before got) = .ok a' r'' ∧ ¬full a') ∨
      ∃ r'', action (r.before got) = .error (.decode .frameExhausted) r''

theorem ne_of_prefix_nil {got : Bytes} {p : Prop} (h : got <+: []) (other : got ≠ []) : p :=
  absurd (List.prefix_nil.1 h) other

theorem length_lt_of_prefix {got bs : Bytes} (h : got <+: bs) (other : got ≠ bs) :
    got.length < bs.length :=
  Nat.lt_of_le_of_ne h.length_le fun same => other (h.eq_of_length same)

theorem read_needs {got : Bytes} (sound : r.Sound) (run : read n r = .ok got r')
    (full : ¬got.length < n) :
    ∃ bs, Needs (read n) (fun got => ¬got.length < n) r got r' bs := by
  rcases sound.cases n with ⟨inFrame, held⟩ | ⟨frame, held⟩
  · have reads : ∀ bs, read n (r.before bs) = if r.frame.length < n then
        .error (.decode .frameExhausted) (r.before bs)
      else .ok (r.frame.take n)
        (before { r with frame := r.frame.drop n, position := r.position + n } bs) :=
      fun bs => read_held (r := r.before bs) inFrame held
    rw [← r.before_unread, reads] at run
    split at run
    · cases run
    · next enough =>
      cases run
      refine ⟨[], ⟨⟨sound.faultless, fun out => absurd (inFrame.symm.trans out) nofun⟩, rfl, rfl⟩,
        fun rest => ?_, fun got before other => ne_of_prefix_nil before other⟩
      rw [List.nil_append, reads, if_neg enough]
      rfl
  · have reads : ∀ bs, read n (r.before bs) = .ok (bs.take n)
        ((r.before bs).fetched (bs.take n) ((r.before bs).source.skip n)) :=
      fun bs => read_source (sound.before bs) frame held
    rw [← r.before_unread, reads] at run
    cases run
    have length : (r.source.unread.take n).length = n := by
      have := List.length_take_le n r.source.unread
      omega
    refine ⟨r.source.unread.take n,
      ⟨⟨sound.faultless, fun _ => frame⟩, (List.take_append_drop ..).symm, rfl⟩,
      fun rest => ?_, fun got before other => .inl ?_⟩
    · rw [reads, List.take_left' length]
      simp only [fetched, Source.skip, Reader.before, List.take_left' length, List.drop_left' length]
    · have less := length_lt_of_prefix before other
      exact ⟨_, _, reads got, fun whole => whole (by rw [List.length_take]; omega)⟩

theorem readLine_needs {got : Bytes} (sound : r.Sound) (run : readLine r = .ok got r')
    (full : got.getLast? = some 0x0a) :
    ∃ bs, Needs readLine (fun got => got.getLast? = some 0x0a) r got r' bs := by
  rcases sound.cases 1 with ⟨inFrame, held⟩ | ⟨frame, -⟩
  · have reads : ∀ bs, readLine (r.before bs) = if 0x0a ∈ r.frame then
        .ok (Bytes.splitLine r.frame).1 (before { r with
          frame := (Bytes.splitLine r.frame).2
          position := r.position + (Bytes.splitLine r.frame).1.length } bs)
      else .error (.decode .frameExhausted) (r.before bs) :=
      fun bs => readLine_held (r := r.before bs) inFrame (held.resolve_right (by decide))
    rw [← r.before_unread, reads] at run
    split at run
    · next newline =>
      cases run
      refine ⟨[], ⟨⟨sound.faultless, fun out => absurd (inFrame.symm.trans out) nofun⟩, rfl, rfl⟩,
        fun rest => ?_, fun got before other => ne_of_prefix_nil before other⟩
      rw [List.nil_append, reads, if_pos newline]
      rfl
    · cases run
  · have reads : ∀ bs, readLine (r.before bs) = .ok (Bytes.splitLine bs).1
        ((r.before bs).fetched (Bytes.splitLine bs).1
          { r.source with
            unread := (Bytes.splitLine bs).2
            taken := r.source.taken + (Bytes.splitLine bs).1.length }) :=
      fun bs => readLine_source (sound.before bs) frame
    rw [← r.before_unread, reads] at run
    cases run
    rcases Bytes.splitLine_cases r.source.unread with
      ⟨line, rest, newline, same, split⟩ | ⟨newline, split⟩
    · rw [split]
      refine ⟨line ++ [0x0a], ⟨⟨sound.faultless, fun _ => frame⟩, ?_, rfl⟩, fun rest => ?_,
        fun got before other => .inl ?_⟩
      · rw [same, List.append_assoc]
        rfl
      · have again : Bytes.splitLine (line ++ [0x0a] ++ rest) = (line ++ [0x0a], rest) := by
          rw [List.append_assoc]
          exact Bytes.splitLine_newline newline
        rw [reads, again]
        rfl
      · -- a proper prefix of the line ends before its newline
        have within : got <+: line := by
          rcases List.prefix_concat_iff.1 before with whole | within
          · exact absurd whole other
          · exact within
        have missing : 0x0a ∉ got := fun mem => newline (within.subset mem)
        refine ⟨_, _, reads got, fun whole => ?_⟩
        rw [Bytes.splitLine_of_not_mem missing] at whole
        exact Bytes.getLast?_ne_newline missing whole
    · rw [split] at full
      exact absurd full (Bytes.getLast?_ne_newline newline)

theorem loadFrame_needs (sound : r.Sound) (run : loadFrame n r = .ok () r') :
    ∃ bs, Needs (loadFrame n) (fun _ => True) r () r' bs := by
  by_cases frame : r.frame = []
  · have loads : ∀ bs, loadFrame n (r.before bs) = if bs.length < n then
        .error (.decode .frameExhausted)
          { r.before bs with source := (r.before bs).source.skip n, frame := bs.take n }
      else .ok () { r.before bs with
        source := (r.before bs).source.skip n, frame := bs.take n, inFrame := true } :=
      fun bs => loadFrame_source (sound.before bs) frame
    rw [← r.before_unread, loads] at run
    split at run
    · cases run
    · next enough =>
      cases run
      have length : (r.source.unread.take n).length = n :=
        List.length_take_of_le (Nat.le_of_not_lt enough)
      refine ⟨r.source.unread.take n,
        ⟨⟨sound.faultless, fun out => by cases out⟩, (List.take_append_drop ..).symm, rfl⟩,
        fun rest => ?_, fun got before other => .inr ?_⟩
      · have enough' : ¬(r.source.unread.take n ++ rest).length < n := by
          rw [List.length_append]
          omega
        rw [loads, if_neg enough']
        simp only [Source.skip, Reader.before, List.take_left' length, List.drop_left' length]
      · have less := length_lt_of_prefix before other
        rw [loads, if_pos (by omega)]
        exact ⟨_, rfl⟩
  · rw [loadFrame_held sound frame] at run
    cases run

end Frame.Reader

/-! ## Actions -/

namespace Decoder

variable {H α β : Type} {st st' st'' : State H} {a : α} {b : β} {bs bs' : Bytes}

/-- The action needs exactly these bytes of the source to run through from one state to the other. It
    does so under every surface before them, and before fewer of them the input is incomplete. -/
structure Needs (x : Decode H α) (st : State H) (a : α) (st' : State H) (bs : Bytes) : Prop where
  took : st.input.Took st'.input bs
  same : ∀ rest (s : Surface), s.input = st.input.before (bs ++ rest) →
    ∃ s' : Surface, x (st.under s) = .ok a (st'.under s') ∧ s'.input = st'.input.before rest
  short : ∀ got (s : Surface), s.input = st.input.before got → got <+: bs → got ≠ bs →
    ∃ e st'', x (st.under s) = .error e st'' ∧ e.Incomplete

/-- A sequence needs what its parts need. It is enough that too few bytes for the first part make the
    whole sequence fail. -/
theorem Needs.behind {x : Decode H α} {f : α → Decode H β} (took : st.input.Took st'.input bs)
    (same : ∀ rest (s : Surface), s.input = st.input.before (bs ++ rest) →
      ∃ s' : Surface, x (st.under s) = .ok a (st'.under s') ∧ s'.input = st'.input.before rest)
    (short : ∀ got (s : Surface), s.input = st.input.before got → got <+: bs → got ≠ bs →
      ∃ e st'', (x >>= f) (st.under s) = .error e st'' ∧ e.Incomplete)
    (h : Needs (f a) st' b st'' bs') : Needs (x >>= f) st b st'' (bs ++ bs') where
  took := took.trans h.took
  same rest s place := by
    rw [List.append_assoc] at place
    obtain ⟨s', run, place'⟩ := same (bs' ++ rest) s place
    obtain ⟨s'', run', place''⟩ := h.same rest s' place'
    exact ⟨s'', by rw [bind_ok run, run'], place''⟩
  short got s place before other := by
    -- either the first part gets its bytes, and the second one too few, or the first one breaks off
    by_cases enough : bs <+: got
    · obtain ⟨got', rfl⟩ := enough
      obtain ⟨s', run, place'⟩ := same got' s place
      obtain ⟨e, st'', run', incomplete⟩ := h.short got' s' place'
        ((List.prefix_append_right_inj bs).1 before) fun whole => other (by rw [whole])
      exact ⟨e, st'', by rw [bind_ok run, run'], incomplete⟩
    · have within : got <+: bs :=
        (List.prefix_or_prefix_of_prefix before (List.prefix_append bs bs')).resolve_right enough
      exact short got s place within fun whole => enough (by rw [whole])

theorem Needs.bind {x : Decode H α} {f : α → Decode H β} (h : Needs x st a st' bs)
    (h' : Needs (f a) st' b st'' bs') : Needs (x >>= f) st b st'' (bs ++ bs') := by
  refine .behind h.took h.same (fun got s place before other => ?_) h'
  obtain ⟨e, st'', run, incomplete⟩ := h.short got s place before other
  exact ⟨e, st'', by rw [bind_apply, run], incomplete⟩

/-- Whenever the action runs through, it needs the bytes it has taken, and no others. -/
def Steady (x : Decode H α) : Prop :=
  ∀ st a st', st.input.Sound → x st = .ok a st' → ∃ bs, Needs x st a st' bs

/-- A blind action needs nothing. -/
theorem Blind.steady {x : Decode H α} (h : Blind x) : Steady x := by
  intro st a st' sound run
  have still : st'.input = st.input := (h.quiet_ok run).input
  refine ⟨[], ⟨?_, fun rest s place => ?_, fun got s _ before other =>
    Frame.Reader.ne_of_prefix_nil before other⟩⟩
  · rw [still]
    exact .refl sound
  · obtain ⟨s', quiet, same⟩ := h st s
    rw [run] at same
    exact ⟨s', same, by rw [quiet.input, place, still, List.nil_append]⟩

namespace Steady

theorem bind {x : Decode H α} {f : α → Decode H β} (h : Steady x) (h' : ∀ a, Steady (f a)) :
    Steady (x >>= f) := by
  intro st b st'' sound run
  obtain ⟨a, st', first, rest⟩ := bind_eq_ok run
  obtain ⟨bs, needs⟩ := h st a st' sound first
  obtain ⟨bs', needs'⟩ := h' a st' b st'' needs.took.sound rest
  exact ⟨bs ++ bs', needs.bind needs'⟩

/-- Reading is followed by a check whether everything was read. -/
theorem reading {action : EStateM Error Frame.Reader α} {full : α → Prop} {f : α → Decode H β}
    (needs : ∀ r a r', r.Sound → action r = .ok a r' → full a →
      ∃ bs, Frame.Reader.Needs action full r a r' bs)
    (whole : ∀ a, full a → Steady (f a))
    (short : ∀ a, ¬full a → ∀ st, ∃ e st', f a st = .error e st' ∧ e.Incomplete) :
    Steady (Decoder.reading action >>= f) := by
  intro st b st'' sound run
  obtain ⟨a, st', first, rest⟩ := bind_eq_ok run
  obtain ⟨r, read, rfl⟩ := reading_eq_ok first
  by_cases enough : full a
  · obtain ⟨bs, need⟩ := needs st.input a r sound read enough
    obtain ⟨bs', needs'⟩ := whole a enough _ b st'' need.took.sound rest
    refine ⟨bs ++ bs', .behind need.took (fun rest s place => ?_)
      (fun got s place before other => ?_) needs'⟩
    · have read : action (st.under s).input = .ok a (r.before rest) := by
        rw [← need.same rest, ← place]
        rfl
      exact ⟨{ s with input := r.before rest }, by rw [Decoder.reading, read]; rfl, rfl⟩
    · rcases need.short got before other with ⟨a', r', read, few⟩ | ⟨r', read⟩
      · -- the read is short, and the check behind it finds that
        obtain ⟨e, st', fails, incomplete⟩ := short a' few { st.under s with input := r' }
        have read : action (st.under s).input = .ok a' r' := by
          rw [← read, ← place]
          rfl
        refine ⟨e, st', ?_, incomplete⟩
        rw [bind_apply, Decoder.reading, read]
        exact fails
      · have read : action (st.under s).input = .error (.decode .frameExhausted) r' := by
          rw [← read, ← place]
          rfl
        refine ⟨.decode .frameExhausted, { st.under s with input := r' }, ?_, trivial⟩
        rw [bind_apply, Decoder.reading, read]
  · obtain ⟨e, st', fails, -⟩ := short a enough { st with input := r }
    rw [fails] at rest
    cases rest

/-- A change of the surface that leaves the input as it is. -/
theorem modify {f : State H → State H} (still : ∀ st, (f st).input = st.input)
    (same : ∀ st s, ∃ s' : Surface, f (st.under s) = (f st).under s' ∧ s'.input = s.input) :
    Steady (modify f : Decode H Unit) := by
  rintro st a st' sound ⟨⟩
  refine ⟨[], ⟨?_, fun rest s place => ?_, fun got s _ before other =>
    Frame.Reader.ne_of_prefix_nil before other⟩⟩
  · rw [still]
    exact .refl sound
  · obtain ⟨s', same, place'⟩ := same st s
    refine ⟨s', ?_, by rw [place', place, still, List.nil_append]⟩
    show EStateM.Result.ok () (f (st.under s)) = _
    rw [same]

/-- The offset does not depend on the bytes to come. -/
theorem position : Steady (position : Decode H Nat) := by
  rintro st a st' sound ⟨⟩
  refine ⟨[], ⟨.refl sound, fun rest s place => ⟨s, ?_, by rw [place, List.nil_append]⟩,
    fun got s _ before other => Frame.Reader.ne_of_prefix_nil before other⟩⟩
  show EStateM.Result.ok s.input.position (st.under s) = _
  rw [place]
  rfl

theorem readExactly (op : Opcode) (count : Nat) : Steady (readExactly op count : Decode H Bytes) := by
  refine .reading (fun r a r' => Frame.Reader.read_needs) (fun bs full => ?_) fun bs few st => ?_
  · rw [if_neg full]
    exact (Blind.pure bs).steady
  · exact ⟨.decode (.truncated op), st, by rw [if_pos (Decidable.not_not.1 few)]; rfl, trivial⟩

theorem readLine (op : Opcode) : Steady (readLine op : Decode H Bytes) := by
  refine .reading (fun r a r' => Frame.Reader.readLine_needs) (fun line full => ?_)
    fun line few st => ?_
  · rw [if_pos full]
    exact (Blind.pure _).steady
  · exact ⟨.decode (.truncated op), st, by rw [if_neg few]; rfl, trivial⟩

theorem readOpcode : Steady (readOpcode : Decode H Opcode) := by
  refine .bind .position fun offset => .reading (fun r a r' => Frame.Reader.read_needs)
    (fun bs full => ?_) fun bs few st => ?_
  · cases bs with
    | nil => exact absurd (by decide) full
    | cons byte rest =>
      dsimp only
      cases Opcode.ofByte? byte with
      | none => exact (Blind.fail _).steady
      | some op =>
        exact .bind (.modify (fun _ => rfl) fun st s => ⟨{ s with trace := _ }, rfl, rfl⟩) fun _ =>
          (Blind.pure op).steady
  · cases bs with
    | nil => exact ⟨.endOfInput, st, rfl, trivial⟩
    | cons byte rest => exact absurd (by simp) few

theorem answer (op : Opcode) (request : Request α) : Steady (answer op request : Decode H α) := by
  induction request with
  | done a => exact (Blind.pure a).steady
  | fail cause => exact (Blind.fail cause).steady
  | take count next ih => exact .bind (.readExactly op count) ih
  | line next ih => exact .bind (.readLine op) ih

variable {cfg : Config H}

theorem openFrame (length : Nat) : Steady (openFrame cfg length) := by
  unfold Decoder.openFrame
  split
  · exact (Blind.fail _).steady
  · refine .bind .position fun place => .reading (fun r a r' sound run _ =>
      Frame.Reader.loadFrame_needs sound run) (fun _ _ => ?_) fun _ few => absurd trivial few
    exact .modify (fun _ => rfl) fun st s => ⟨⟨s.input, true, _⟩, rfl, rfl⟩

variable [HostObject H]

theorem execute (op : Opcode) (operand : op.shape.Operand) : Steady (execute cfg op operand) := by
  by_cases frame : op = .frame
  · subst frame
    exact .openFrame _
  · exact (Blind.execute op operand frame).steady

theorem step : Steady (step cfg) := by
  rw [step_eq]
  refine .bind .readOpcode fun op => ?_
  split
  · exact ((Blind.pop .stop).map some).steady
  · exact .bind (.answer op _) fun operand => .bind (.execute op operand) fun _ =>
      (Blind.pure none).steady

theorem run (fuel : Nat) : Steady (run cfg fuel) := by
  induction fuel with
  | zero => exact (Blind.throw _).steady
  | succ fuel ih =>
    refine .bind .step fun found => ?_
    cases found with
    | some v => exact (Blind.pure v).steady
    | none => exact ih

end Steady

/-! ## Streams -/

variable [HostObject H] {cfg : Config H}

variable {store : Store H} {data : Bytes} {buffers : Option (List Value)} {trace : Trace}
  {v : Value}

/-- A run needs the bytes it has taken, with any number of steps that is enough. -/
theorem run_needs {last : State H} {fuel : Nat} (enough : data.length < fuel)
    (ran : run cfg (data.length + 1) (.ofSource store (.ofBytes data) buffers trace) = .ok v last) :
    Needs (run cfg fuel) (.ofSource store (.ofBytes data) buffers trace) v last
      (data.take last.input.source.taken) := by
  let st : State H := .ofSource store (.ofBytes data) buffers trace
  have remaining : st.input.remaining = data.length := remaining_ofSource data
  have ran' : run cfg fuel st = .ok v last := (run_enough cfg (by omega) (by omega)).trans ran
  obtain ⟨bs, needs⟩ := Steady.run fuel st v last (Frame.Reader.sound_ofSource data) ran'
  have unread : data = bs ++ last.input.source.unread := needs.took.unread
  have taken : last.input.source.taken = bs.length := needs.took.taken.trans (Nat.zero_add _)
  rwa [show data.take last.input.source.taken = bs by
    rw [taken, congrArg (List.take bs.length) unread, List.take_left]]

/-- What was taken is read to the same value whatever follows it, and all that follows is left unread. -/
theorem load_followed {st : State H}
    (loaded : load cfg (.ofSource store (.ofBytes data) buffers trace) = .ok v st) (tail : Bytes) :
    ∃ s : Surface, s.input.source.unread = tail ∧
      load cfg (.ofSource store (.ofBytes (data.take st.input.source.taken ++ tail)) buffers trace) =
        .ok v (st.under s) := by
  obtain ⟨last, ran, rfl⟩ := load_eq_ok loaded
  have remaining : (State.ofSource store (.ofBytes data) buffers trace).input.remaining = data.length :=
    remaining_ofSource data
  rw [remaining] at ran
  rw [show (closeFrame last).input = last.input from closeFrame_input last]
  obtain ⟨s, ran', place⟩ :=
    (run_needs (Nat.lt_add_left tail.length (Nat.lt_succ_self _)) ran).same tail
      ⟨.ofSource (.ofBytes (data.take last.input.source.taken ++ tail)), false, trace⟩ rfl
  -- the last frame may still be open; closing it is seen on the surface only
  obtain ⟨s', input, closed⟩ := closeFrame_under (last.under s)
  obtain ⟨s'', -, closed'⟩ := closeFrame_under last
  refine ⟨s', by rw [input]; exact congrArg (fun r => r.source.unread) place, ?_⟩
  rw [closed', State.under_under, ← State.under_under last s, ← closed]
  have enough : (data.take last.input.source.taken ++ tail).length <
      tail.length + (data.length + 1) := by
    have := List.length_take_le' last.input.source.taken data
    rw [List.length_append]
    omega
  rw [load_of_run cfg store buffers trace enough]
  exact congrArg Decoder.closed ran'

/-- Less than what was taken is incomplete. -/
theorem load_shortened {st : State H}
    (loaded : load cfg (.ofSource store (.ofBytes data) buffers trace) = .ok v st) {j : Nat}
    (less : j < st.input.source.taken) : ∃ e st',
      load cfg (.ofSource store (.ofBytes (data.take j)) buffers trace) = .error e st' ∧
        e.Incomplete := by
  obtain ⟨last, ran, rfl⟩ := load_eq_ok loaded
  have remaining : (State.ofSource store (.ofBytes data) buffers trace).input.remaining = data.length :=
    remaining_ofSource data
  rw [remaining] at ran
  rw [show (closeFrame last).input = last.input from closeFrame_input last] at less
  have needs := run_needs (Nat.lt_succ_self _) ran
  have length : (data.take last.input.source.taken).length = last.input.source.taken :=
    (needs.took.taken.trans (Nat.zero_add _)).symm
  have shorter : data.take j <+: data.take last.input.source.taken :=
    List.take_prefix_take_left less.le
  have proper : data.take j ≠ data.take last.input.source.taken := by
    intro same
    have := congrArg List.length same
    rw [length, List.length_take] at this
    omega
  obtain ⟨e, st', ran', incomplete⟩ :=
    needs.short (data.take j) ⟨.ofSource (.ofBytes (data.take j)), false, trace⟩ rfl shorter proper
  refine ⟨e, closeFrame st', ?_, incomplete⟩
  rw [load_of_run cfg store buffers trace (Nat.lt_succ_of_le (List.length_take_le' j data))]
  exact congrArg Decoder.closed ran'

end Decoder

end ObjectStream
