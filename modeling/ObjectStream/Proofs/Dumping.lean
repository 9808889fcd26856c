import ObjectStream.Encoder
import ObjectStream.Proofs.Writing

/-!
The parts of a dump.

A dump announces its protocol, walks over the value and ends with a `STOP` (`dump_ok`). On each level
of the walk the depth is counted and a full frame is sent off, which leaves no instruction behind. Then
the host is asked for an id of the value (`save_steps`), and without one the value itself is written
(`save_ok`).
-/

namespace ObjectStream.Encoder

variable {H : Type} {cfg : Config H} {st st' : State H} {v : Value}

/-- What is counted on the way is not written. -/
theorem emitted_depth (st : State H) (depth : Nat) : Emitted st { st with depth := depth } [] :=
  ⟨rfl, rfl, Silent.wrote ⟨rfl, rfl, rfl⟩⟩

/-- Outside of frames an instruction leaves no frame behind. -/
theorem pending_of_emit {op : Opcode} {operand : op.shape.Operand}
    (h : emit op operand st = .ok () st') (bare : st.frames.pending = none) :
    st'.frames.pending = none := by
  obtain ⟨_, st₁, write, advance⟩ := bind_eq_ok h
  obtain ⟨frames, run, rfl⟩ := framed_ok write
  cases advance
  have whole : st.frames = ⟨st.frames.sink, none⟩ := by rw [← bare]
  rw [whole] at run
  show frames.pending = none
  rw [Frame.Writer.put_ok run]

theorem start_ok (bare : st.frames.pending = none)
    (h : framed Frame.Writer.start st = .ok () st') : Emitted st st' [] := by
  obtain ⟨frames, run, rfl⟩ := framed_ok h
  refine ⟨rfl, rfl, fun log held => ?_, rfl, .refl _⟩
  rw [List.append_nil]
  exact held.start bare run

theorem finish_ok (h : framed Frame.Writer.finish st = .ok () st') :
    Emitted st st' [] ∧ st'.frames.pending = none := by
  obtain ⟨frames, run, rfl⟩ := framed_ok h
  refine ⟨⟨rfl, rfl, fun log held => ?_, rfl, .refl _⟩, Frame.Writer.finish_pending run⟩
  rw [List.append_nil]
  exact held.finish run

/-- The instructions that announce the protocol. -/
def Config.announcement (cfg : Config H) : List Instruction :=
  if 2 ≤ cfg.protocol.val then [⟨.proto, UInt8.ofNat cfg.protocol.val⟩] else []

/-- From protocol 2 on the protocol is announced. -/
theorem announce_ok (bare : st.frames.pending = none)
    (h : (if 2 ≤ cfg.protocol.val then emit .proto (UInt8.ofNat cfg.protocol.val) else pure ())
      { st with depth := 0 } = .ok () st') :
    Emitted st st' cfg.announcement ∧ st'.frames.pending = none := by
  unfold Config.announcement
  split at h
  · rw [if_pos ‹_›]
    exact ⟨(emitted_depth st 0).trans (emit_ok h), pending_of_emit h bare⟩
  · rw [if_neg ‹_›]
    cases h
    exact ⟨emitted_depth st 0, bare⟩

/-- From protocol 4 on a frame begins. -/
theorem begin_ok (bare : st.frames.pending = none)
    (h : (if 4 ≤ cfg.protocol.val then framed Frame.Writer.start else pure ()) st = .ok () st') :
    Emitted st st' [] := by
  split at h
  · exact start_ok bare h
  · cases h
    exact ⟨rfl, rfl, (Silent.refl _).wrote⟩

/-! ## Levels of the walk -/

theorem askPersistentId_eq {hook : Value → Store H → Option Value × Store H}
    (given : cfg.persistentId = some hook) (st : State H) : askPersistentId cfg v st =
      .ok (hook v st.store).1 { st with store := (hook v st.store).2 } := by
  rw [askPersistentId, given]
  rfl

variable [HostObject H] {room : Nat} {persistent : Bool}

/-- The steps of writing a value: the host is asked for an id first, if it is to be asked. -/
theorem save_steps (h : save cfg (room + 1) persistent v st = .ok () st') :
    ∃ st₁ id st₂ st₃, Emitted st st₁ [] ∧
      (if persistent then askPersistentId cfg v else pure none) st₁ = .ok id st₂ ∧
      (match id with
        | some pid => savePersistentId cfg (save cfg room false) pid
        | none => saveContent cfg (save cfg room true) v) st₂ = .ok () st₃ ∧
      Emitted st₃ st' [] := by
  simp only [save] at h
  obtain ⟨_, s₀, get, h⟩ := bind_eq_ok h
  cases get
  obtain ⟨_, s₁, deeper, h⟩ := bind_eq_ok h
  cases deeper
  obtain ⟨_, s₂, commit, h⟩ := bind_eq_ok h
  have opened := (emitted_depth st _).trans (commit_ok commit)
  cases persistent with
  | true =>
    obtain ⟨id, s₃, asked, h⟩ := bind_eq_ok h
    cases id with
    | some pid =>
      obtain ⟨_, s₄, written, back⟩ := bind_eq_ok h
      cases back
      exact ⟨s₂, some pid, s₃, s₄, opened, asked, written, emitted_depth s₄ _⟩
    | none =>
      obtain ⟨_, s₄, written, back⟩ := bind_eq_ok h
      cases back
      exact ⟨s₂, none, s₃, s₄, opened, asked, written, emitted_depth s₄ _⟩
  | false =>
    obtain ⟨_, s₄, written, back⟩ := bind_eq_ok (show (saveContent cfg (save cfg room true) v >>= _) s₂ =
      .ok () st' from h)
    cases back
    exact ⟨s₂, none, s₂, s₄, opened, rfl, written, emitted_depth s₄ _⟩

/-- Without persistent ids a value is written as it is. -/
theorem save_ok (plain : cfg.persistentId = none)
    (h : save cfg (room + 1) persistent v st = .ok () st') :
    ∃ st₁ st₂, Emitted st st₁ [] ∧ saveContent cfg (save cfg room true) v st₁ = .ok () st₂ ∧
      Emitted st₂ st' [] := by
  obtain ⟨st₁, id, st₂, st₃, before, asked, written, after⟩ := save_steps h
  have none : (if persistent then askPersistentId cfg v else pure none) = pure none := by
    rw [askPersistentId, plain, ite_self]
  rw [none] at asked
  cases asked
  exact ⟨st₁, st₃, before, written, after⟩

/-! ## Dumps -/

/-- A dump announces its protocol, begins a frame from protocol 4 on, walks over the value and writes
    a `STOP`. -/
theorem dump_runs (h : dump cfg v st = .ok () st') :
    ∃ st₀ st₁ st₂ st₃ : State H,
      (if 2 ≤ cfg.protocol.val then emit .proto (UInt8.ofNat cfg.protocol.val) else pure ())
        { st with depth := 0 } = .ok () st₀ ∧
      (if 4 ≤ cfg.protocol.val then framed Frame.Writer.start else pure ()) st₀ = .ok () st₁ ∧
      save cfg cfg.limits.maxDepth true v st₁ = .ok () st₂ ∧
      emit .stop () st₂ = .ok () st₃ ∧ framed Frame.Writer.finish st₃ = .ok () st' := by
  obtain ⟨st₀, announce, h⟩ : ∃ st₀ : State H,
      (if 2 ≤ cfg.protocol.val then emit .proto (UInt8.ofNat cfg.protocol.val) else pure ())
        { st with depth := 0 } = .ok () st₀ ∧ (do
        if 4 ≤ cfg.protocol.val then framed Frame.Writer.start
        save cfg cfg.limits.maxDepth true v
        emit .stop ()
        framed Frame.Writer.finish : Encode H Unit) st₀ = .ok () st' := by
    simp only [dump] at h
    obtain ⟨_, s₀, start, h⟩ := bind_eq_ok h
    cases start
    split at h
    · obtain ⟨_, st₀, announce, h⟩ := bind_eq_ok h
      exact ⟨st₀, by rw [if_pos ‹_›]; exact announce, h⟩
    · exact ⟨_, by rw [if_neg ‹_›]; rfl, h⟩
  obtain ⟨st₁, start, h⟩ : ∃ st₁ : State H,
      (if 4 ≤ cfg.protocol.val then framed Frame.Writer.start else pure ()) st₀ = .ok () st₁ ∧ (do
        save cfg cfg.limits.maxDepth true v
        emit .stop ()
        framed Frame.Writer.finish : Encode H Unit) st₁ = .ok () st' := by
    split at h
    · obtain ⟨_, st₁, start, h⟩ := bind_eq_ok h
      exact ⟨st₁, by rw [if_pos ‹_›]; exact start, h⟩
    · exact ⟨_, by rw [if_neg ‹_›]; rfl, h⟩
  obtain ⟨_, st₂, saved, h⟩ := bind_eq_ok h
  obtain ⟨_, st₃, stop, finish⟩ := bind_eq_ok h
  exact ⟨st₀, st₁, st₂, st₃, announce, start, saved, stop, finish⟩

/-- A stream is the announcement, what the walk writes, and a `STOP`. -/
theorem dump_ok (bare : st.frames.pending = none) (h : dump cfg v st = .ok () st') :
    ∃ st₁ st₂, Emitted st st₁ cfg.announcement ∧
      save cfg cfg.limits.maxDepth true v st₁ = .ok () st₂ ∧
      Emitted st₂ st' [⟨.stop, ()⟩] ∧ st'.frames.pending = none := by
  obtain ⟨st₀, st₁, st₂, st₃, announce, start, saved, stop, finish⟩ := dump_runs h
  obtain ⟨announced, bare₀⟩ := announce_ok bare announce
  have started := announced.trans (begin_ok bare₀ start)
  rw [List.append_nil] at started
  obtain ⟨finished, bare'⟩ := finish_ok finish
  exact ⟨st₁, st₂, started, saved, (emit_ok stop).trans finished, bare'⟩

/-- The bytes of a dump are those of a run that succeeds. -/
theorem dumps_ok {s s' : Store H} {bytes : Bytes} (h : dumps cfg s v = (.ok bytes, s')) :
    ∃ st', dump cfg v (.ofSink s {} {}) = .ok () st' ∧ st'.store = s' ∧
      st'.frames.sink.written.toList = bytes := by
  unfold dumps at h
  split at h
  · next st' run =>
    cases h
    exact ⟨st', run, rfl, rfl⟩
  · cases h

end ObjectStream.Encoder
