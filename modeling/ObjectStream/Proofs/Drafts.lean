import ObjectStream.Proofs.Dumping
import ObjectStream.Proofs.Spelling

/-!
What the encoder writes for given objects.

Outside of frames a run of the encoder depends on the objects, on what is remembered and on the
instructions so far (`Draft`). `Drafts` follows a run from one draft to the next, and `Fails` one that
ends in a failure. With them the stream of a given graph is found step by step, without a look into
the tables of the memo.
-/

namespace ObjectStream.Encoder

open Instruction

variable {H α β : Type}

/-- The part of an encoder that writing outside of frames depends on. -/
structure Draft (H : Type) where
  store : Store H
  /-- What is remembered, the last first. -/
  memo : List (Identity × Nat)
  log : List Instruction

/-- The draft with a further instruction. -/
def Draft.add (d : Draft H) (op : Opcode) (operand : op.shape.Operand) : Draft H :=
  { d with log := d.log ++ [⟨op, operand⟩] }

/-- The encoder stands where the draft says. -/
structure State.Shows (st : State H) (d : Draft H) : Prop where
  store : st.store = d.store
  memo : ∀ a : Identity, st.memo[a]? = d.memo.lookup a
  size : st.memo.size = d.memo.length
  bare : st.frames.pending = none
  willing : st.frames.sink.fault = none
  written : st.frames.sink.written.toList = allBytes d.log

theorem State.Shows.withDepth {st : State H} {d : Draft H} (here : st.Shows d) (depth : Nat) :
    ({ st with depth := depth } : State H).Shows d :=
  ⟨here.store, here.memo, here.size, here.bare, here.willing, here.written⟩

theorem State.Shows.unframed {st : State H} {d : Draft H} (here : st.Shows d) : st.Unframed :=
  ⟨here.bare, here.willing⟩

/-- The action runs through from every encoder that stands there, to a place that satisfies the
    condition. -/
def Drafts (x : Encode H α) (d : Draft H) (Q : α → Draft H → Prop) : Prop :=
  ∀ st : State H, st.Shows d → ∃ a st' d', x st = .ok a st' ∧ st'.Shows d' ∧ Q a d'

variable {d : Draft H} {Q : α → Draft H → Prop} {P : Unit → Draft H → Prop}

theorem Drafts.pure {a : α} (h : Q a d) : Drafts (pure a) d Q :=
  fun st here => ⟨a, st, d, rfl, here, h⟩

theorem Drafts.bind {x : Encode H β} {f : β → Encode H α}
    (h : Drafts x d fun b d' => Drafts (f b) d' Q) : Drafts (x >>= f) d Q := by
  intro st here
  obtain ⟨b, st', d', run, there, rest⟩ := h st here
  rw [bind_ok run]
  exact rest st' there

theorem Drafts.mono {x : Encode H α} {R : α → Draft H → Prop} (h : Drafts x d R)
    (hR : ∀ a d', R a d' → Q a d') : Drafts x d Q := by
  intro st here
  obtain ⟨a, st', d', run, there, r⟩ := h st here
  exact ⟨a, st', d', run, there, hR a d' r⟩

theorem drafts_get {f : State H → Encode H α}
    (h : ∀ st : State H, st.Shows d → Drafts (f st) d Q) : Drafts (get >>= f) d Q :=
  fun st here => h st here st here

theorem drafts_emit {op : Opcode} {operand : op.shape.Operand} (h : P () (d.add op operand)) :
    Drafts (emit op operand) d P := by
  intro st here
  obtain ⟨st', run, there, sink⟩ := here.unframed.emit op operand
  have emitted := emit_ok run
  refine ⟨(), st', d.add op operand, run, ⟨emitted.store.trans here.store, fun a => ?_, ?_,
    there.bare, there.willing, ?_⟩, h⟩
  · rw [emitted.memo]
    exact here.memo a
  · rw [emitted.memo]
    exact here.size
  · rw [sink, Frame.Writer.written_append, here.written, Draft.add, allBytes_append]
    simp

theorem drafts_emitPayload {op : Opcode} {operand : op.shape.Operand}
    (short : (Instruction.mk op operand).payload.length < frameSizeTarget)
    (h : P () (d.add op operand)) : Drafts (emitPayload op operand) d P := by
  unfold emitPayload
  simp only [if_pos short]
  exact drafts_emit h

/-- A text of few ASCII characters, before protocol 4. -/
theorem drafts_text {p : Protocol} {text : String} (binary : p.isBinary = true) (early : p.val < 4)
    (plain : Text.OnLine text.toList) (short : text.toList.length < frameSizeTarget)
    (h : P () (d.add .binUnicode (Bytes.ascii text))) : Drafts (saveText p text) d P := by
  have length : (Bytes.ascii text).length < frameSizeTarget := by
    rwa [Bytes.ascii, List.length_map]
  have word : frameSizeTarget ≤ 2 ^ 32 := by decide
  have late : ¬4 ≤ p.val := Nat.not_le.2 early
  simp only [saveText, binary, Text.utf8_eq_ascii fun c mem => (plain c mem).1, late,
    if_pos (Nat.lt_of_lt_of_le length word)]
  exact drafts_emitPayload length h

theorem drafts_memoized {Q : Option Nat → Draft H → Prop} {a : Identity}
    (h : Q (d.memo.lookup a) d) : Drafts (memoized a) d Q :=
  fun st here => ⟨_, st, d, rfl, here, (here.memo a).symm ▸ h⟩

/-- The next number is that of the entries so far. -/
theorem drafts_memoizeAs {p : Protocol} {a : Identity} (room : d.memo.length < 2 ^ 32)
    (new : d.memo.lookup a = none)
    (h : Drafts (emitPut p d.memo.length) { d with memo := (a, d.memo.length) :: d.memo } P) :
    Drafts (memoizeAs p a) d P := by
  refine drafts_get fun st here => ?_
  simp only [here.size, if_pos room]
  refine Drafts.bind fun st here => ?_
  refine ⟨(), _, { d with memo := (a, d.memo.length) :: d.memo }, rfl, ?_, h⟩
  refine ⟨here.store, fun b => ?_, ?_, here.bare, here.willing, here.written⟩
  · simp only [Std.HashMap.getElem?_insert, List.lookup_cons, here.memo]
    by_cases same : a = b
    · simp [same]
    · rw [if_neg (by simpa using same), beq_false_of_ne (Ne.symm same)]
  · rw [Std.HashMap.size_insert, if_neg, here.size]
    · rfl
    · rw [Std.HashMap.mem_iff_isSome_getElem?, here.memo, new]
      exact nofun

theorem drafts_alloc {Q : Value → Draft H → Prop} {cell : Cell H}
    (h : Q (.ref d.store.size) { d with store := d.store.push cell }) :
    Drafts (alloc cell) d Q := by
  intro st here
  refine ⟨.ref st.store.size, { st with store := st.store.push cell },
    { d with store := d.store.push cell }, rfl, ?_, ?_⟩
  · refine ⟨?_, here.memo, here.size, here.bare, here.willing, here.written⟩
    rw [← here.store]
  · rw [here.store]
    exact h

variable [HostObject H] {cfg : Config H} {v : Value}

/-- A value that is not stored elsewhere is written with one level of nesting less. -/
theorem save_run {room : Nat} {st st' : State H} (plain : cfg.persistentId = none)
    (idle : framed (Frame.Writer.commit false) { st with depth := st.depth + 1 } =
      .ok () { st with depth := st.depth + 1 })
    (content : saveContent cfg (save cfg room true) v { st with depth := st.depth + 1 } =
      .ok () st') :
    save cfg (room + 1) true v st = .ok () { st' with depth := st.depth } := by
  simp only [save, bind_apply, get_apply, modify_apply, idle, askPersistentId, plain, pure_apply,
    if_true, content]

theorem drafts_save {room : Nat} (plain : cfg.persistentId = none)
    (h : Drafts (saveContent cfg (save cfg room true) v) d P) :
    Drafts (save cfg (room + 1) true v) d P := by
  intro st here
  obtain ⟨_, st', d', run, there, p⟩ := h _ (here.withDepth (st.depth + 1))
  have idle := (here.withDepth (st.depth + 1)).unframed.commit false
  exact ⟨(), _, d', save_run plain idle run, there.withDepth st.depth, p⟩

/-- An object that is remembered is fetched. -/
theorem drafts_known {room i n : Nat} (plain : cfg.persistentId = none)
    (known : d.memo.lookup (.object i) = some n) (h : Drafts (emitGet cfg.protocol n) d P) :
    Drafts (save cfg (room + 1) true (.ref i)) d P := by
  refine drafts_save plain (Drafts.bind (drafts_memoized ?_))
  rw [known]
  exact h

theorem drafts_object {save : Value → Encode H Unit} {i : Nat} {cell : Cell H}
    (new : d.memo.lookup (.object i) = none) (found : d.store.cells[i]? = some cell)
    (h : Drafts (saveCell cfg save i cell) d P) : Drafts (saveObject cfg save i) d P := by
  refine Drafts.bind (drafts_memoized ?_)
  rw [new]
  refine drafts_get fun st here => ?_
  simp only [here.store, found]
  exact h

/-- An object that is met for the first time is written. -/
theorem drafts_new {room i : Nat} {cell : Cell H} (plain : cfg.persistentId = none)
    (new : d.memo.lookup (.object i) = none) (found : d.store.cells[i]? = some cell)
    (h : Drafts (saveCell cfg (save cfg room true) i cell) d P) :
    Drafts (save cfg (room + 1) true (.ref i)) d P :=
  drafts_save plain (drafts_object new found h)

/-- The id decides what is written for a value. -/
theorem drafts_offered {room : Nat} {persistent : Bool}
    (h : Drafts (if persistent then askPersistentId cfg v else pure none) d fun id d' =>
      Drafts (match id with
        | some pid => savePersistentId cfg (save cfg room false) pid
        | none => saveContent cfg (save cfg room true) v) d' P) :
    Drafts (save cfg (room + 1) persistent v) d P := by
  refine drafts_get fun st _ => .bind fun st₁ here => ?_
  have here := here.withDepth (st.depth + 1)
  refine ⟨(), _, d, rfl, here, .bind fun st₂ here => ⟨(), _, d, here.unframed.commit false, here, ?_⟩⟩
  have back : ∀ d, P () d → Drafts (modify fun st' : State H => { st' with depth := st.depth }) d P :=
    fun d p st' here => ⟨(), _, d, rfl, here.withDepth _, p⟩
  cases persistent with
  | true =>
    refine .bind (h.mono fun id d' written => ?_)
    cases id with
    | none => exact .bind (written.mono fun _ => back)
    | some pid => exact .bind (written.mono fun _ => back)
  | false =>
    refine .bind (h.mono fun id d' written => ?_)
    cases id with
    | none => exact .bind (written.mono fun _ => back)
    | some pid => exact .bind (written.mono fun _ => back)

theorem drafts_asked {room : Nat} {hook : Value → Store H → Option Value × Store H}
    (given : cfg.persistentId = some hook) {id : Option Value} {s : Store H}
    (answer : hook v d.store = (id, s))
    (h : Drafts (match id with
      | some pid => savePersistentId cfg (save cfg room false) pid
      | none => saveContent cfg (save cfg room true) v) { d with store := s } P) :
    Drafts (save cfg (room + 1) true v) d P := by
  refine drafts_offered fun st here => ⟨id, { st with store := s }, { d with store := s }, ?_, ?_, h⟩
  · rw [if_pos rfl, askPersistentId_eq given, here.store, answer]
  · exact ⟨rfl, here.memo, here.size, here.bare, here.willing, here.written⟩

/-- The host is not asked for the id of an id. -/
theorem drafts_unasked {room : Nat} (h : Drafts (saveContent cfg (save cfg room true) v) d P) :
    Drafts (save cfg (room + 1) false v) d P :=
  drafts_offered (.pure h)

section
variable {save : Value → Encode H Unit}

omit [HostObject H] in
theorem drafts_batches {α : Type} {items : List α} {write : List α → Encode H Unit}
    (short : items.length < batchSize) (h : Drafts (write items) d P) :
    Drafts ((batches items).forM write) d P := by
  rw [batches, if_pos short]
  exact Drafts.bind fun st here =>
    have ⟨_, st', d', run, there, p⟩ := h st here
    ⟨(), st', d', run, there, Drafts.pure p⟩

omit [HostObject H] in
/-- Few items make one batch. -/
theorem drafts_appendItems {items : List Value} (binary : cfg.protocol.isBinary = true)
    (short : items.length < batchSize) (h : Drafts (appendBatch save items) d P) :
    Drafts (appendItems cfg save items) d P := by
  rw [appendItems, if_pos binary]
  exact drafts_batches short h

omit [HostObject H] in
/-- Few entries make one batch. -/
theorem drafts_storeEntries {entries : List (Value × Value)}
    (binary : cfg.protocol.isBinary = true) (short : entries.length < batchSize)
    (h : Drafts (storeBatch save entries) d P) : Drafts (storeEntries cfg save entries) d P := by
  rw [storeEntries, if_pos binary]
  exact drafts_batches short h

end

/-- A global that is met for the first time, where its name has lines of its own. -/
theorem drafts_global {save : Value → Encode H Unit} {g : Global} {i : Nat} (name : Name)
    (operand : Shape.lines2.Operand) (wire : wireName cfg g = .ok name)
    (lines : writeGlobal cfg save name = (emit .global operand >>= fun _ => pure true))
    (room : d.memo.length < 2 ^ 32) (new : d.memo.lookup (.object i) = none)
    (h : Drafts (emitPut cfg.protocol d.memo.length)
      { d.add .global operand with memo := (.object i, d.memo.length) :: d.memo } P) :
    Drafts (saveCell cfg save i (.global g)) d P := by
  simp only [saveCell, saveGlobal, wire, lines, bind_assoc, pure_bind, if_true]
  exact Drafts.bind (drafts_emit (drafts_memoizeAs room new h))

/-- The draft behind the announcement of a stream. -/
def Draft.announced (d : Draft H) (p : Protocol) : Draft H :=
  if 2 ≤ p.val then d.add .proto (UInt8.ofNat p.val) else d

/-- Before protocol 4 a stream consists of the announcement, what the walk writes, and a `STOP`. -/
theorem drafts_dump (early : cfg.protocol.val < 4)
    (h : Drafts (save cfg cfg.limits.maxDepth true v) (d.announced cfg.protocol)
      fun _ d' => P () (d'.add .stop ())) : Drafts (dump cfg v) d P := by
  refine Drafts.bind fun st here => ⟨(), _, d, rfl, here.withDepth 0, ?_⟩
  have rest : Drafts (save cfg cfg.limits.maxDepth true v >>= fun _ => do
      emit .stop ()
      framed Frame.Writer.finish) (d.announced cfg.protocol) P := by
    refine Drafts.bind fun st here => ?_
    obtain ⟨_, st', d', run, there, p⟩ := h st here
    refine ⟨_, st', d', run, there, Drafts.bind (drafts_emit fun st here => ?_)⟩
    refine ⟨(), _, _, ?_, here, p⟩
    obtain ⟨store, memo, ⟨sink, pending⟩, offset, depth, trace⟩ := st
    obtain rfl : pending = none := here.bare
    rfl
  have late : ¬4 ≤ cfg.protocol.val := Nat.not_le.2 early
  unfold Draft.announced at rest
  by_cases recent : 2 ≤ cfg.protocol.val
  · rw [if_pos recent] at rest
    simp only [if_pos recent, if_neg late]
    exact Drafts.bind (drafts_emit rest)
  · rw [if_neg recent] at rest
    simp only [if_neg recent, if_neg late]
    exact rest

omit [HostObject H] in
theorem shows_ofSink (s : Store H) : (State.ofSink s {} {}).Shows ⟨s, [], []⟩ :=
  ⟨rfl, fun _ => Std.HashMap.getElem?_empty, rfl, rfl, rfl, rfl⟩

theorem dumps_of_drafts {s s' : Store H} (memo : List (Identity × Nat)) (log : List Instruction)
    (early : cfg.protocol.val < 4)
    (h : Drafts (save cfg cfg.limits.maxDepth true v)
      (Draft.announced ⟨s, [], []⟩ cfg.protocol) fun _ d => d = ⟨s', memo, log⟩) :
    dumps cfg s v = (.ok (allBytes (log ++ [⟨.stop, ()⟩])), s') := by
  have whole : Drafts (dump cfg v) ⟨s, [], []⟩
      fun _ d => d = ⟨s', memo, log ++ [⟨.stop, ()⟩]⟩ :=
    drafts_dump early (h.mono fun _ _ same => by rw [same]; rfl)
  obtain ⟨_, st, d, run, here, rfl⟩ := whole _ (shows_ofSink s)
  simp only [dumps, run, here.written, here.store]

/-! ## Failures -/

section
variable {d' : Draft H} {e : Error}

/-- The action fails from every encoder that stands at the first draft, and leaves it at the second. -/
def Fails (x : Encode H α) (d : Draft H) (e : Error) (d' : Draft H) : Prop :=
  ∀ st : State H, st.Shows d → ∃ st', x st = .error e st' ∧ st'.Shows d'

omit [HostObject H] in
theorem Drafts.fails {x : Encode H β} {f : β → Encode H α}
    (h : Drafts x d fun b d₁ => Fails (f b) d₁ e d') : Fails (x >>= f) d e d' := by
  intro st here
  obtain ⟨b, st₁, d₁, run, there, rest⟩ := h st here
  rw [bind_ok run]
  exact rest st₁ there

omit [HostObject H] in
theorem Fails.bind {x : Encode H β} {f : β → Encode H α} (h : Fails x d e d') :
    Fails (x >>= f) d e d' := by
  intro st here
  obtain ⟨st', run, there⟩ := h st here
  exact ⟨st', by rw [bind_apply, run], there⟩

/-- A walk that fails inside a value ends there, one level down. -/
theorem fails_save {room : Nat} (plain : cfg.persistentId = none)
    (h : Fails (saveContent cfg (save cfg room true) v) d e d') :
    Fails (save cfg (room + 1) true v) d e d' := by
  intro st here
  have here := here.withDepth (st.depth + 1)
  obtain ⟨st', run, there⟩ := h _ here
  refine ⟨st', ?_, there⟩
  simp only [save, bind_apply, get_apply, modify_apply, here.unframed.commit, askPersistentId, plain,
    pure_apply, if_true, run]

theorem fails_new {room i : Nat} {cell : Cell H} (plain : cfg.persistentId = none)
    (new : d.memo.lookup (.object i) = none) (found : d.store.cells[i]? = some cell)
    (h : Fails (saveCell cfg (save cfg room true) i cell) d e d') :
    Fails (save cfg (room + 1) true (.ref i)) d e d' := by
  refine fails_save plain (Drafts.fails (drafts_memoized ?_))
  rw [new]
  intro st here
  obtain ⟨st', run, there⟩ := h st here
  refine ⟨st', ?_, there⟩
  simp only [bind_apply, get_apply, here.store, found, run]

/-- Before protocol 4 nothing is written behind the walk that failed. -/
theorem fails_dump (early : cfg.protocol.val < 4)
    (h : Fails (save cfg cfg.limits.maxDepth true v) (d.announced cfg.protocol) e d') :
    Fails (dump cfg v) d e d' := by
  refine Drafts.fails fun st here => ⟨(), _, d, rfl, here.withDepth 0, ?_⟩
  have late : ¬4 ≤ cfg.protocol.val := Nat.not_le.2 early
  unfold Draft.announced at h
  by_cases recent : 2 ≤ cfg.protocol.val
  · rw [if_pos recent] at h
    simp only [if_pos recent, if_neg late]
    exact Drafts.fails (drafts_emit h.bind)
  · rw [if_neg recent] at h
    simp only [if_neg recent, if_neg late]
    exact h.bind

end

end ObjectStream.Encoder
