import ObjectStream.Encoder.Object
import ObjectStream.Proofs.Action

/-!
What a writer has been given.

A byte string spells a list of instructions if it consists of their bytes, with frames put around
runs of them (`Spells`). A frame writer holds a log of instructions when its sink and its pending
frame together spell them. Every write appends to the log and nothing else does, so an action of the
encoder is described by the instructions it appends. They are counted and reported as well: three
records of one list of instructions are kept in step (`Wrote`). A name can be written in four ways, and
they are told apart here once (`writeGlobal_cases`).
-/

namespace ObjectStream

theorem Instruction.bytes_ne_nil (i : Instruction) : i.bytes ≠ [] := by
  simp [Instruction.bytes, Instruction.head]

/-- The bytes of instructions, one after the other. -/
def Instruction.allBytes (is : List Instruction) : Bytes := is.flatMap Instruction.bytes

open Instruction

@[simp] theorem Instruction.allBytes_nil : allBytes [] = [] := rfl

@[simp] theorem Instruction.allBytes_cons (i : Instruction) (is : List Instruction) :
    allBytes (i :: is) = i.bytes ++ allBytes is := rfl

theorem Instruction.allBytes_append (is js : List Instruction) :
    allBytes (is ++ js) = allBytes is ++ allBytes js := by
  simp [allBytes]

theorem Instruction.allBytes_eq_nil {is : List Instruction} : allBytes is = [] ↔ is = [] := by
  cases is with
  | nil => simp
  | cons i is => simp [i.bytes_ne_nil]

/-- Every instruction takes at least one byte. -/
theorem Instruction.length_le_allBytes (is : List Instruction) : is.length ≤ (allBytes is).length := by
  induction is with
  | nil => exact Nat.le_refl _
  | cons i is ih =>
    have := List.length_pos_iff.2 i.bytes_ne_nil
    simp only [allBytes_cons, List.length_cons, List.length_append]
    omega

theorem Instruction.payload_le_allBytes {is : List Instruction} {i : Instruction} (mem : i ∈ is) :
    i.payload.length ≤ (allBytes is).length := by
  obtain ⟨before, behind, rfl⟩ := List.append_of_mem mem
  simp only [allBytes_append, allBytes_cons, Instruction.bytes, List.length_append]
  omega

/-- A header is an instruction as well. -/
theorem Frame.header_eq_bytes {length : Nat} (word : length < 2 ^ 64) :
    Frame.header length = Instruction.bytes ⟨.frame, UInt64.ofNat length⟩ := by
  have small : (UInt64.ofNat length).toNat = length := UInt64.toNat_ofNat_of_lt' word
  show _ :: Bytes.ofNatLE 8 length = _ :: Bytes.ofNatLE 8 (UInt64.ofNat length).toNat ++ []
  rw [small, List.append_nil]

/-- The bytes spell the instructions, some runs of them in frames that are worth a header. -/
inductive Spells : List Instruction → Bytes → Prop
  | done : Spells [] []
  | bare {i is bs} (rest : Spells is bs) : Spells (i :: is) (i.bytes ++ bs)
  | framed {js is bs} (long : frameSizeMin ≤ (allBytes js).length) (rest : Spells is bs) :
      Spells (js ++ is) (Frame.header (allBytes js).length ++ (allBytes js ++ bs))

namespace Spells

variable {is js : List Instruction} {bs cs : Bytes}

theorem append (h : Spells is bs) (h' : Spells js cs) : Spells (is ++ js) (bs ++ cs) := by
  induction h with
  | done => exact h'
  | bare _ ih => rw [List.append_assoc]; exact .bare ih
  | framed long _ ih => simp only [List.append_assoc]; exact .framed long ih

theorem all (is : List Instruction) : Spells is (allBytes is) := by
  induction is with
  | nil => exact .done
  | cons i is ih => exact .bare ih

theorem frame {js : List Instruction} (long : frameSizeMin ≤ (allBytes js).length) :
    Spells js (Frame.header (allBytes js).length ++ allBytes js) := by
  have whole : Spells (js ++ []) (Frame.header (allBytes js).length ++ (allBytes js ++ [])) :=
    .framed long .done
  simpa using whole

theorem length_le (h : Spells is bs) : is.length ≤ bs.length := by
  induction h with
  | done => exact Nat.le_refl _
  | @bare i _ _ _ ih =>
    have := List.length_pos_iff.2 i.bytes_ne_nil
    simp only [List.length_cons, List.length_append]
    omega
  | @framed js _ _ _ _ ih =>
    have := length_le_allBytes js
    simp only [List.length_append]
    omega

theorem allBytes_le (h : Spells is bs) : (allBytes is).length ≤ bs.length := by
  induction h with
  | done => exact Nat.le_refl _
  | bare _ ih =>
    simp only [allBytes_cons, List.length_append]
    omega
  | framed _ _ ih =>
    simp only [allBytes_append, List.length_append]
    omega

/-- Bytes that have no room for headers are those of the instructions. -/
theorem eq_allBytes (h : Spells is bs) (short : bs.length ≤ (allBytes is).length) :
    bs = allBytes is := by
  induction h with
  | done => rfl
  | bare _ ih =>
    simp only [allBytes_cons, List.length_append] at short
    rw [allBytes_cons, ih (by omega)]
  | @framed js _ _ _ rest _ =>
    have := rest.allBytes_le
    have header : 0 < (Frame.header (allBytes js).length).length := Nat.zero_lt_succ _
    simp only [allBytes_append, List.length_append] at short
    omega

end Spells

namespace Frame.Writer

/-- The sink and the pending frame together spell the log. -/
def Holds (w : Writer) (log : List Instruction) : Prop :=
  ∃ sent gathering, log = sent ++ gathering ∧ Spells sent w.sink.written.toList ∧
    (w.pending.getD #[]).toList = allBytes gathering

variable {w w' : Writer} {log : List Instruction} {bs : Bytes}

theorem put_ok (h : put bs w = .ok () w') : w' = { w with sink := w.sink.append bs } := by
  unfold put at h
  split at h
  · cases h
  · cases h; rfl

theorem written_append (sink : Sink) (bs : Bytes) :
    (sink.append bs).written.toList = sink.written.toList ++ bs := by
  simp [Sink.append]

theorem Holds.nothing : (⟨{}, none⟩ : Writer).Holds [] :=
  ⟨[], [], rfl, .done, rfl⟩

/-- Nothing is gathering when the pending frame is empty. -/
theorem Holds.spells (h : w.Holds log) (empty : (w.pending.getD #[]).toList = []) :
    Spells log w.sink.written.toList := by
  obtain ⟨sent, gathering, rfl, spelled, pending⟩ := h
  rw [empty, eq_comm, allBytes_eq_nil] at pending
  rwa [pending, List.append_nil]

theorem Holds.of_spells (h : Spells log w.sink.written.toList)
    (empty : (w.pending.getD #[]).toList = []) : w.Holds log :=
  ⟨log, [], (List.append_nil _).symm, h, empty⟩

theorem Holds.write {i : Instruction} (h : w.Holds log) (run : Writer.write i.bytes w = .ok () w') :
    w'.Holds (log ++ [i]) := by
  obtain ⟨sink, pending⟩ := w
  cases pending with
  | some frame =>
    cases run
    obtain ⟨sent, gathering, rfl, spelled, pending⟩ := h
    refine ⟨sent, gathering ++ [i], by simp, spelled, ?_⟩
    simp only [Option.getD_some] at pending
    simp [pending, allBytes_append]
  | none =>
    rw [put_ok run]
    refine .of_spells ?_ rfl
    rw [written_append]
    simpa using (h.spells rfl).append (Spells.all [i])

/-- A commit moves the pending frame and spells the same log; a forced one leaves nothing. -/
theorem Holds.commit {force : Bool} (h : w.Holds log) (run : Writer.commit force w = .ok () w') :
    w'.Holds log ∧ (force = true → (w'.pending.getD #[]).toList = []) := by
  simp only [Writer.commit, bind_apply, get_apply] at run
  cases pending : w.pending with
  | none =>
    rw [pending] at run
    cases run
    exact ⟨h, fun _ => by simp [pending]⟩
  | some frame =>
    simp only [pending] at run
    split at run
    · next kept =>
      cases run
      refine ⟨h, fun forced => ?_⟩
      simpa [pending, forced] using kept
    · obtain ⟨sent, gathering, rfl, spelled, gathered⟩ := h
      rw [pending, Option.getD_some] at gathered
      have length : frame.size = (allBytes gathering).length := by rw [← gathered]; simp
      split at run
      · next long =>
        obtain ⟨_, w₁, header, run⟩ := bind_eq_ok run
        obtain ⟨_, w₂, payload, run⟩ := bind_eq_ok run
        cases run
        rw [put_ok header] at payload
        rw [put_ok payload]
        refine ⟨.of_spells ?_ rfl, fun _ => rfl⟩
        simp only [written_append, List.append_assoc]
        rw [length] at long
        rw [gathered, length]
        exact spelled.append (Spells.frame long)
      · obtain ⟨_, w₂, payload, run⟩ := bind_eq_ok run
        cases run
        rw [put_ok payload]
        refine ⟨.of_spells ?_ rfl, fun _ => rfl⟩
        simp only [written_append]
        rw [gathered]
        exact spelled.append (Spells.all gathering)

theorem Holds.writeLarge {i : Instruction} (h : w.Holds log)
    (run : Writer.writeLarge i.head i.payload w = .ok () w') : w'.Holds (log ++ [i]) := by
  simp only [Writer.writeLarge] at run
  obtain ⟨_, w₁, commit, run⟩ := bind_eq_ok run
  obtain ⟨_, w₂, head, payload⟩ := bind_eq_ok run
  obtain ⟨held, empty⟩ := h.commit commit
  have spelled := held.spells (empty rfl)
  rw [put_ok head] at payload
  rw [put_ok payload]
  refine .of_spells ?_ (empty rfl)
  simp only [written_append, List.append_assoc]
  simpa [Instruction.bytes] using spelled.append (Spells.all [i])

/-- Framing begins where nothing is gathering. -/
theorem Holds.start (h : w.Holds log) (empty : w.pending = none)
    (run : Writer.start w = .ok () w') : w'.Holds log := by
  cases run
  exact .of_spells (h.spells (by simp [empty])) rfl

/-- Behind the last frame the sink spells the whole log. -/
theorem Holds.finish (h : w.Holds log) (run : Writer.finish w = .ok () w') : w'.Holds log := by
  simp only [Writer.finish] at run
  obtain ⟨_, w₁, commit, run⟩ := bind_eq_ok run
  cases run
  obtain ⟨held, empty⟩ := h.commit commit
  exact .of_spells (held.spells (empty rfl)) rfl

theorem finish_pending (run : Writer.finish w = .ok () w') : w'.pending = none := by
  simp only [Writer.finish] at run
  obtain ⟨_, w₁, commit, run⟩ := bind_eq_ok run
  cases run
  rfl

end Frame.Writer

/-! ## Reports -/

/-- The opcodes of instructions, each with its offset if the first one stands at `offset`. -/
def Instruction.placed (offset : Nat) : List Instruction → List (Nat × Opcode)
  | [] => []
  | i :: is => (offset, i.op) :: placed (offset + i.bytes.length) is

theorem Instruction.placed_append (offset : Nat) (is js : List Instruction) :
    placed offset (is ++ js) = placed offset is ++ placed (offset + (allBytes is).length) js := by
  induction is generalizing offset with
  | nil => rfl
  | cons i is ih => simp [placed, ih, Nat.add_assoc]

/-- The offset and the opcode, if an instruction is reported. -/
def Event.instruction? : Event → Option (Nat × Opcode)
  | .instruction offset op _ => some (offset, op)
  | _ => none

namespace Trace

/-- The instructions that were reported so far. -/
def instructions (t : Trace) : List (Nat × Opcode) := t.events.toList.filterMap Event.instruction?

/-- An observer that wants instructions was told of these, and of no others, since. -/
structure Reported (t t' : Trace) (entries : List (Nat × Opcode)) : Prop where
  observer : t'.observer = t.observer
  entries : t.mask.instruction = true → t'.instructions = t.instructions ++ entries

namespace Reported

variable {t t' t'' : Trace} {entries entries' : List (Nat × Opcode)}

theorem refl (t : Trace) : Reported t t [] := ⟨rfl, fun _ => (List.append_nil _).symm⟩

theorem trans (h : Reported t t' entries) (h' : Reported t' t'' entries') :
    Reported t t'' (entries ++ entries') := by
  refine ⟨h'.observer.trans h.observer, fun wanted => ?_⟩
  have wanted' : t'.mask.instruction = true := by rwa [mask, h.observer]
  rw [h'.entries wanted', h.entries wanted, List.append_assoc]

theorem instruction (t : Trace) (offset : Nat) (op : Opcode) (depth : Nat) :
    Reported t (t.instruction offset op depth) [(offset, op)] := by
  unfold Trace.instruction
  split
  · exact ⟨rfl, fun _ => by simp [instructions, Event.instruction?]⟩
  · next unwanted => exact ⟨rfl, fun wanted => absurd wanted unwanted⟩

theorem enter (t : Trace) (scope : Scope) (label : String) (offset : Nat) :
    Reported t (t.enter scope label offset) [] := by
  unfold Trace.enter
  split
  · exact ⟨rfl, fun _ => by simp [instructions, Event.instruction?]⟩
  · exact .refl t

theorem exit (t : Trace) (scope : Scope) (offset : Nat) :
    Reported t (t.exit scope offset) [] := by
  unfold Trace.exit
  split
  · exact ⟨rfl, fun _ => by simp [instructions, Event.instruction?]⟩
  · exact .refl t

end Reported

end Trace

/-- The old spelling of a name. -/
def Name.legacy (n : Name) : Name :=
  ⟨(LegacyName.toLegacy n.module n.qualname).1, (LegacyName.toLegacy n.module n.qualname).2⟩

/-- Before protocol 4 the bytes of a text that is counted are fewer than a count of four bytes tells. -/
def Protocol.Counts (p : Protocol) (text : String) : Prop :=
  p.isBinary = true → p.val < 4 → (Text.utf8 text).length < 2 ^ 32

namespace Encoder

variable {H : Type} {st st' st'' : State H} {is js : List Instruction}

/-- Between the two states these instructions were appended to the log, counted and reported. -/
structure Wrote (st st' : State H) (is : List Instruction) : Prop where
  held : ∀ log, st.frames.Holds log → st'.frames.Holds (log ++ is)
  offset : st'.offset = st.offset + (allBytes is).length
  reported : st.trace.Reported st'.trace (placed st.offset is)

theorem Wrote.trans (h : Wrote st st' is) (h' : Wrote st' st'' js) :
    Wrote st st'' (is ++ js) where
  held log held := by
    rw [← List.append_assoc]
    exact h'.held _ (h.held _ held)
  offset := by rw [h'.offset, h.offset, allBytes_append, List.length_append, Nat.add_assoc]
  reported := by
    rw [placed_append, ← h.offset]
    exact h.reported.trans h'.reported

/-- A sink behind which nothing is gathering spells what was written since it was empty. -/
theorem Wrote.spells (h : Wrote st st' is) (empty : st.frames.Holds [])
    (bare : st'.frames.pending = none) : Spells is st'.frames.sink.written.toList :=
  (h.held [] empty).spells (by rw [bare]; rfl)

/-- Nothing was written, counted or reported between the two states. -/
structure Silent (st st' : State H) : Prop where
  frames : st'.frames = st.frames
  offset : st'.offset = st.offset
  trace : st'.trace = st.trace

theorem Silent.refl (st : State H) : Silent st st := ⟨rfl, rfl, rfl⟩

theorem Silent.trans (h : Silent st st') (h' : Silent st' st'') : Silent st st'' :=
  ⟨h'.frames.trans h.frames, h'.offset.trans h.offset, h'.trace.trans h.trace⟩

theorem Silent.wrote (h : Silent st st') : Wrote st st' [] where
  held log held := by rwa [h.frames, List.append_nil]
  offset := h.offset
  reported := h.trace ▸ .refl _

/-- Between the two states these instructions were written, and nothing else changed that later
    writing depends on. -/
structure Emitted (st st' : State H) (is : List Instruction) : Prop where
  store : st'.store = st.store
  memo : st'.memo = st.memo
  wrote : Wrote st st' is

theorem Emitted.trans (h : Emitted st st' is) (h' : Emitted st' st'' js) :
    Emitted st st'' (is ++ js) :=
  ⟨h'.store.trans h.store, h'.memo.trans h.memo, h.wrote.trans h'.wrote⟩

theorem memoized_ok (a : Identity) (st : State H) : memoized a st = .ok st.memo[a]? st := rfl

theorem framed_ok {action : EStateM String Frame.Writer Unit} (h : framed action st = .ok () st') :
    ∃ frames, action st.frames = .ok () frames ∧ st' = { st with frames := frames } := by
  unfold framed at h
  simp only at h
  split at h
  · next a frames run => cases h; exact ⟨frames, run, rfl⟩
  · cases h

theorem emit_ok {op : Opcode} {operand : op.shape.Operand} (h : emit op operand st = .ok () st') :
    Emitted st st' [⟨op, operand⟩] := by
  simp only [emit] at h
  obtain ⟨_, st₁, write, advance⟩ := bind_eq_ok h
  obtain ⟨frames, run, rfl⟩ := framed_ok write
  cases advance
  exact ⟨rfl, rfl, ⟨fun log held => held.write run, by simp, .instruction ..⟩⟩

theorem emitPayload_ok {op : Opcode} {operand : op.shape.Operand}
    (h : emitPayload op operand st = .ok () st') : Emitted st st' [⟨op, operand⟩] := by
  simp only [emitPayload] at h
  split at h
  · exact emit_ok h
  · obtain ⟨_, st₁, write, advance⟩ := bind_eq_ok h
    obtain ⟨frames, run, rfl⟩ := framed_ok write
    cases advance
    exact ⟨rfl, rfl, ⟨fun log held => held.writeLarge (i := ⟨op, operand⟩) run,
      by simp [Instruction.bytes], .instruction ..⟩⟩

theorem emitTimes_ok {count : Nat} {op : Opcode} {operand : op.shape.Operand}
    (h : emitTimes count op operand st = .ok () st') :
    Emitted st st' (List.replicate count ⟨op, operand⟩) := by
  induction count generalizing st with
  | zero => cases h; exact ⟨rfl, rfl, (Silent.refl _).wrote⟩
  | succ count ih =>
    obtain ⟨_, st₁, first, rest⟩ := bind_eq_ok h
    exact (emit_ok first).trans (ih rest)

theorem commit_ok {force : Bool} (h : framed (Frame.Writer.commit force) st = .ok () st') :
    Emitted st st' [] := by
  obtain ⟨frames, run, rfl⟩ := framed_ok h
  refine ⟨rfl, rfl, ⟨fun log held => ?_, rfl, .refl _⟩⟩
  rw [List.append_nil]
  exact (held.commit run).1

/-! ## The instructions of the memo -/

/-- The instruction that remembers the top of the reader's stack under an id. -/
def putInstruction (p : Protocol) (id : Nat) : Instruction :=
  if 4 ≤ p.val then ⟨.memoize, ()⟩
  else if p.isBinary then
    if id < 256 then ⟨.binPut, UInt8.ofNat id⟩ else ⟨.longBinPut, UInt32.ofNat id⟩
  else ⟨.put, decimalLine id⟩

/-- The instruction that fetches what is remembered under an id. -/
def getInstruction (p : Protocol) (id : Nat) : Instruction :=
  if p.isBinary then
    if id < 256 then ⟨.binGet, UInt8.ofNat id⟩ else ⟨.longBinGet, UInt32.ofNat id⟩
  else ⟨.get, decimalLine id⟩

theorem putInstruction_protocol (p : Protocol) (id : Nat) : (putInstruction p id).op.protocol ≤ p.val := by
  unfold putInstruction
  split
  · assumption
  split
  · next binary => split <;> exact of_decide_eq_true binary
  · exact Nat.zero_le _

theorem getInstruction_protocol (p : Protocol) (id : Nat) : (getInstruction p id).op.protocol ≤ p.val := by
  unfold getInstruction
  split
  · next binary => split <;> exact of_decide_eq_true binary
  · exact Nat.zero_le _

theorem emitPut_eq (p : Protocol) (id : Nat) : (emitPut p id : Encode H Unit) =
    emit (putInstruction p id).op (putInstruction p id).operand := by
  let run (i : Instruction) : Encode H Unit := emit i.op i.operand
  show _ = run (putInstruction p id)
  rw [putInstruction, apply_ite run, apply_ite run, apply_ite run]
  rfl

theorem emitGet_eq (p : Protocol) (id : Nat) : (emitGet p id : Encode H Unit) =
    emit (getInstruction p id).op (getInstruction p id).operand := by
  let run (i : Instruction) : Encode H Unit := emit i.op i.operand
  show _ = run (getInstruction p id)
  rw [getInstruction, apply_ite run, apply_ite run]
  rfl

theorem emitGet_ok {p : Protocol} {id : Nat} (h : emitGet p id st = .ok () st') :
    Emitted st st' [getInstruction p id] := by
  rw [emitGet_eq] at h
  exact emit_ok h

/-- Something that gets a number gets the number of entries so far. -/
theorem memoizeAs_run {p : Protocol} {a : Identity} (h : memoizeAs p a st = .ok () st') :
    st.memo.size < 2 ^ 32 ∧
      emit (putInstruction p st.memo.size).op (putInstruction p st.memo.size).operand
        { st with memo := st.memo.insert a st.memo.size } = .ok () st' := by
  obtain ⟨_, st₁, get, h⟩ := bind_eq_ok h
  cases get
  dsimp only at h
  split at h
  · next room =>
    obtain ⟨_, st₂, note, put⟩ := bind_eq_ok h
    cases note
    rw [emitPut_eq] at put
    exact ⟨room, put⟩
  · cases h

theorem memoizeAs_emits {p : Protocol} {a : Identity} (h : memoizeAs p a st = .ok () st') :
    st.memo.size < 2 ^ 32 ∧ st'.store = st.store ∧ st'.memo = st.memo.insert a st.memo.size ∧
      Wrote st st' [putInstruction p st.memo.size] := by
  obtain ⟨room, put⟩ := memoizeAs_run h
  have emitted := emit_ok put
  have silent : Silent st { st with memo := st.memo.insert a st.memo.size } := ⟨rfl, rfl, rfl⟩
  exact ⟨room, emitted.store, emitted.memo, silent.wrote.trans emitted.wrote⟩

/-! ## The instructions of texts and names -/

/-- The instruction that pushes a text. -/
def textInstruction (p : Protocol) (text : String) : Instruction :=
  if !p.isBinary then ⟨.unicode, RawUnicode.lineOf text⟩
  else if 4 ≤ p.val && (Text.utf8 text).length < 2 ^ 8 then ⟨.shortBinUnicode, Text.utf8 text⟩
  else if (Text.utf8 text).length < 2 ^ 32 then ⟨.binUnicode, Text.utf8 text⟩
  else ⟨.binUnicode8, Text.utf8 text⟩

/-- The instruction that refers to an extension code. -/
def extensionInstruction (code : Nat) : Instruction :=
  if code < 2 ^ 8 then ⟨.ext1, UInt8.ofNat code⟩
  else if code < 2 ^ 16 then ⟨.ext2, UInt16.ofNat code⟩
  else ⟨.ext4, Int32.ofNat code⟩

theorem saveText_ok {p : Protocol} {text : String} (h : saveText p text st = .ok () st') :
    Emitted st st' [textInstruction p text] ∧ p.Counts text := by
  unfold textInstruction
  simp only [saveText] at h
  split at h
  · next lines =>
    rw [if_pos lines]
    exact ⟨emit_ok h, fun binary => absurd binary (by simpa using lines)⟩
  split at h
  · next late =>
    rw [if_neg ‹_›, if_pos late]
    rw [Bool.and_eq_true, decide_eq_true_eq] at late
    exact ⟨emitPayload_ok h, fun _ early => absurd late.1 (Nat.not_le.2 early)⟩
  split at h
  · next short =>
    rw [if_neg ‹_›, if_neg ‹_›, if_pos short]
    exact ⟨emitPayload_ok h, fun _ _ => short⟩
  split at h
  · next late =>
    rw [if_neg ‹_›, if_neg ‹_›, if_neg ‹_›]
    exact ⟨emitPayload_ok h, fun _ early => absurd late (Nat.not_le.2 early)⟩
  · cases h

/-- The shortest instruction that has room for the code is taken. -/
theorem extensionInstruction_cases (code : Nat) :
    code < 2 ^ 8 ∧ extensionInstruction code = ⟨.ext1, UInt8.ofNat code⟩ ∨
    (2 ^ 8 ≤ code ∧ code < 2 ^ 16) ∧ extensionInstruction code = ⟨.ext2, UInt16.ofNat code⟩ ∨
    2 ^ 16 ≤ code ∧ extensionInstruction code = ⟨.ext4, Int32.ofNat code⟩ := by
  unfold extensionInstruction
  split
  · next one => exact .inl ⟨one, rfl⟩
  split
  · next more two => exact .inr (.inl ⟨⟨Nat.not_lt.1 more, two⟩, rfl⟩)
  · next more => exact .inr (.inr ⟨Nat.not_lt.1 more, rfl⟩)

theorem emitExtension_eq (code : Nat) : emitExtension (H := H) code =
    emit (extensionInstruction code).op (extensionInstruction code).operand := by
  rw [emitExtension]
  obtain ⟨one, same⟩ | ⟨⟨more, two⟩, same⟩ | ⟨more, same⟩ := extensionInstruction_cases code
  · rw [if_pos one, same]
  · rw [if_neg (Nat.not_lt.2 more), if_pos two, same]
  · rw [if_neg (by omega), if_neg (Nat.not_lt.2 more), same]

theorem emitExtension_ok {code : Nat} (h : emitExtension code st = .ok () st') :
    Emitted st st' [extensionInstruction code] := by
  rw [emitExtension_eq] at h
  exact emit_ok h

namespace Config

variable (cfg : Config H)

/-- The spelling that the lines of a name have. -/
def lineName (name : Name) : Name :=
  if cfg.protocol.val < 3 && cfg.fixImports then name.legacy else name

/-- The lines of a name. -/
def lines (name : Name) : Shape.lines2.Operand :=
  (Text.utf8 (cfg.lineName name).module, Text.utf8 (cfg.lineName name).qualname)

end Config

theorem emitGlobalLines_ok {cfg : Config H} {name : Name}
    (h : emitGlobalLines cfg name st = .ok () st') : Emitted st st' [⟨.global, cfg.lines name⟩] := by
  have spelling : (if cfg.protocol.val < 3 && cfg.fixImports then
      LegacyName.toLegacy name.module name.qualname else (name.module, name.qualname)) =
      ((cfg.lineName name).module, (cfg.lineName name).qualname) := by
    unfold Config.lineName
    split <;> rfl
  simp only [emitGlobalLines, spelling] at h
  split at h
  · cases h
  · exact emit_ok h

/-! ## How a name is written -/

section
variable {cfg : Config H} {save : Value → Encode H Unit} {name : Name}

theorem writeGlobal_extension {code : Nat} (late : 2 ≤ cfg.protocol.val)
    (known : cfg.registry.extensionCode? name = some code) :
    writeGlobal cfg save name = (emitExtension code >>= fun _ => pure false) := by
  simp only [writeGlobal, if_pos late, known]

theorem writeGlobal_texts (uncoded : 2 ≤ cfg.protocol.val → cfg.registry.extensionCode? name = none)
    (late : 4 ≤ cfg.protocol.val) :
    writeGlobal cfg save name = (do
      saveText cfg.protocol name.module
      saveText cfg.protocol name.qualname
      emit .stackGlobal ()
      pure true) := by
  simp only [writeGlobal, if_pos (show 2 ≤ cfg.protocol.val by omega), uncoded (by omega), if_pos late]

theorem writeGlobal_lines (uncoded : 2 ≤ cfg.protocol.val → cfg.registry.extensionCode? name = none)
    (early : cfg.protocol.val < 4) (undotted : dottedSplits name.qualname = []) :
    writeGlobal cfg save name = (emitGlobalLines cfg name >>= fun _ => pure true) := by
  have code : (if 2 ≤ cfg.protocol.val then cfg.registry.extensionCode? name else none) = none :=
    ite_eq_right_iff.2 uncoded
  simp only [writeGlobal, code, if_neg (Nat.not_le.2 early), undotted]

/-- The global before the last dot, and the text behind it, are given to `getattr`. -/
def writeCall (save : Value → Encode H Unit) (module parent last : String) : Encode H Unit := do
  let owner ← allocNamed module parent
  let args ← allocTuple [owner, .str last]
  let getter ← allocNamed "builtins" "getattr"
  save getter
  save args
  emit .reduce ()

theorem writeGlobal_call (uncoded : 2 ≤ cfg.protocol.val → cfg.registry.extensionCode? name = none)
    (early : cfg.protocol.val < 4) {parent last : String} {rest : List (String × String)}
    (dotted : dottedSplits name.qualname = (parent, last) :: rest) :
    writeGlobal cfg save name = (writeCall save name.module parent last >>= fun _ => pure true) := by
  have code : (if 2 ≤ cfg.protocol.val then cfg.registry.extensionCode? name else none) = none :=
    ite_eq_right_iff.2 uncoded
  simp only [writeGlobal, code, if_neg (Nat.not_le.2 early), dotted, writeCall, bind_assoc]

/-- A name is written as an extension code, as texts, on lines, or as a call. -/
theorem writeGlobal_cases {given : Bool} (h : writeGlobal cfg save name st = .ok given st') :
    (∃ code, 2 ≤ cfg.protocol.val ∧ cfg.registry.extensionCode? name = some code ∧ given = false ∧
      Emitted st st' [extensionInstruction code]) ∨
    (4 ≤ cfg.protocol.val ∧ given = true ∧ Emitted st st' [textInstruction cfg.protocol name.module,
      textInstruction cfg.protocol name.qualname, ⟨.stackGlobal, ()⟩]) ∨
    (cfg.protocol.val < 4 ∧ dottedSplits name.qualname = [] ∧ given = true ∧
      Emitted st st' [⟨.global, cfg.lines name⟩]) ∨
    cfg.protocol.val < 4 ∧ given = true ∧ ∃ parent last rest,
      dottedSplits name.qualname = (parent, last) :: rest ∧
      writeCall save name.module parent last st = .ok () st' := by
  by_cases coded : ∃ code, 2 ≤ cfg.protocol.val ∧ cfg.registry.extensionCode? name = some code
  · obtain ⟨code, late, known⟩ := coded
    rw [writeGlobal_extension late known] at h
    obtain ⟨_, st₁, extension, h⟩ := bind_eq_ok h
    cases h
    exact .inl ⟨code, late, known, rfl, emitExtension_ok extension⟩
  have uncoded : 2 ≤ cfg.protocol.val → cfg.registry.extensionCode? name = none := fun late =>
    Option.eq_none_iff_forall_ne_some.2 fun code known => coded ⟨code, late, known⟩
  by_cases late : 4 ≤ cfg.protocol.val
  · rw [writeGlobal_texts uncoded late] at h
    obtain ⟨_, st₁, module, h⟩ := bind_eq_ok h
    obtain ⟨_, st₂, qualname, h⟩ := bind_eq_ok h
    obtain ⟨_, st₃, make, h⟩ := bind_eq_ok h
    cases h
    have texts := (saveText_ok module).1.trans (saveText_ok qualname).1
    exact .inr (.inl ⟨late, rfl, texts.trans (emit_ok make)⟩)
  have early := Nat.not_le.1 late
  cases dotted : dottedSplits name.qualname with
  | nil =>
    rw [writeGlobal_lines uncoded early dotted] at h
    obtain ⟨_, st₁, lines, h⟩ := bind_eq_ok h
    cases h
    exact .inr (.inr (.inl ⟨early, rfl, rfl, emitGlobalLines_ok lines⟩))
  | cons split rest =>
    rw [writeGlobal_call uncoded early dotted] at h
    obtain ⟨_, st₁, call, h⟩ := bind_eq_ok h
    cases h
    exact .inr (.inr (.inr ⟨early, rfl, _, _, _, rfl, call⟩))

end

/-! ## Writing without frames -/

/-- Nothing is gathering, and the sink takes whatever comes. -/
structure State.Unframed (st : State H) : Prop where
  bare : st.frames.pending = none
  willing : st.frames.sink.fault = none

namespace State.Unframed

/-- Every action that only puts bytes succeeds. -/
theorem put {action : EStateM String Frame.Writer Unit} {bs : Bytes} (h : st.Unframed)
    (same : action st.frames = Frame.Writer.put bs st.frames) :
    framed action st = .ok () { st with frames := ⟨st.frames.sink.append bs, none⟩ } := by
  have accepts : st.frames.sink.refusal? bs.length = none := by
    rw [Sink.refusal?, h.willing]
  rw [framed]
  simp only [same, Frame.Writer.put, accepts, ← h.bare]

theorem emit (h : st.Unframed) (op : Opcode) (operand : op.shape.Operand) :
    ∃ st', Encoder.emit op operand st = .ok () st' ∧ st'.Unframed ∧
      st'.frames.sink = st.frames.sink.append (Instruction.mk op operand).bytes := by
  let bytes := (Instruction.mk op operand).bytes
  let after : State H := { st with
    frames := ⟨st.frames.sink.append bytes, none⟩
    offset := st.offset + bytes.length
    trace := st.trace.instruction st.offset op st.depth }
  have same : Frame.Writer.write bytes st.frames = Frame.Writer.put bytes st.frames := by
    rw [show st.frames = ⟨st.frames.sink, none⟩ by rw [← h.bare]]
    rfl
  refine ⟨after, ?_, ⟨rfl, h.willing⟩, rfl⟩
  rw [Encoder.emit, bind_ok (h.put same)]
  rfl

/-- There is nothing to commit. -/
theorem commit (h : st.Unframed) (force : Bool) :
    framed (Frame.Writer.commit force) st = .ok () st := by
  simp only [framed, Frame.Writer.commit, bind_apply, get_apply, h.bare]
  rfl

theorem finish (h : st.Unframed) : framed Frame.Writer.finish st = .ok () st := by
  have whole : st.frames = ⟨st.frames.sink, none⟩ := by rw [← h.bare]
  have run : Frame.Writer.finish st.frames = .ok () st.frames := by
    rw [whole]
    rfl
  rw [framed]
  simp only [run]

end State.Unframed

end Encoder

end ObjectStream
