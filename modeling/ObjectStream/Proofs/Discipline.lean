import ObjectStream.Host.Record
import ObjectStream.Listing
import ObjectStream.Proofs.Coverage
import ObjectStream.Proofs.Drafts

/-!
The instructions of a protocol.

A dump writes instructions of its protocol and of earlier ones, so a reader that knows its protocol knows
them all (`dump_allowed`). There is one exception: a callable that takes the state of a host object gets
the object and the state as a pair, and the pair is made by an instruction of protocol 2 in every protocol
(`dumps_setter`).

What is written does not depend on the bytes that are in the sink already. A condition on writers that
every single move keeps is kept by the whole dump (`dump_keeps`), and one such condition is that a writer
goes on from some bytes as an empty one would (`Beyond`).
-/

namespace ObjectStream

open Instruction

namespace Frame.Writer

/-! ## Behind other bytes -/

/-- The one writer has what the other has, behind some bytes. The other takes whatever comes. -/
structure Behind (base : Bytes) (w u : Writer) : Prop where
  written : w.sink.written.toList = base ++ u.sink.written.toList
  pending : u.pending = w.pending
  willing : u.sink.fault = none

/-- Where the action succeeds behind some bytes, it succeeds without them and does the same. -/
def Moves (x : EStateM String Writer Unit) : Prop :=
  ∀ (base : Bytes) (w u w' : Writer), Behind base w u → x w = .ok () w' →
    ∃ u', x u = .ok () u' ∧ Behind base w' u'

theorem Behind.empty (w : Writer) : Behind w.sink.written.toList w ⟨{}, w.pending⟩ :=
  ⟨(List.append_nil _).symm, rfl, rfl⟩

namespace Moves

variable {x y : EStateM String Writer Unit} {bs : Bytes}

theorem pure : Moves (pure ()) := fun _ _ _ _ behind run => by
  cases run
  exact ⟨_, rfl, behind⟩

theorem bind (h : Moves x) (h' : Moves y) : Moves (x >>= fun _ => y) := fun base w u w' behind run => by
  obtain ⟨_, w₁, first, second⟩ := bind_eq_ok run
  obtain ⟨u₁, first', behind⟩ := h _ _ _ _ behind first
  obtain ⟨u', second', behind⟩ := h' _ _ _ _ behind second
  exact ⟨u', by rw [bind_ok first', second'], behind⟩

theorem ite {c : Prop} [Decidable c] (h : Moves x) (h' : Moves y) : Moves (if c then x else y) := by
  split
  · exact h
  · exact h'

theorem put (bs : Bytes) : Moves (put bs) := fun base w u w' behind run => by
  rw [put_ok run]
  refine ⟨{ u with sink := u.sink.append bs }, ?_, ?_, behind.pending, behind.willing⟩
  · rw [Writer.put, Sink.refusal?, behind.willing]
  · simp only [written_append, behind.written, List.append_assoc]

theorem setPending (pending : Option (Array UInt8)) :
    Moves (modify fun w => { w with pending := pending }) := fun _ _ _ _ behind run => by
  cases run
  exact ⟨_, rfl, behind.written, rfl, behind.willing⟩

theorem commit (force : Bool) : Moves (commit force) := fun base w u w' behind run => by
  simp only [Writer.commit, bind_apply, get_apply] at run ⊢
  rw [behind.pending]
  cases pending : w.pending with
  | none =>
    rw [pending] at run
    exact Moves.pure _ _ _ _ behind run
  | some frame =>
    simp only [pending] at run
    refine (Moves.ite .pure ?_) _ _ _ _ behind run
    split
    · exact .bind (.put _) (.bind (.put _) (.setPending _))
    · exact .bind (.put _) (.setPending _)

theorem write (bs : Bytes) : Moves (write bs) := fun base w u w' behind run => by
  obtain ⟨sink, pending⟩ := w
  obtain ⟨sink', pending'⟩ := u
  obtain rfl : pending' = pending := behind.pending
  cases pending' with
  | none => exact Moves.put bs _ _ _ _ behind run
  | some frame =>
    cases run
    exact ⟨_, rfl, behind.written, rfl, behind.willing⟩

theorem writeLarge (head payload : Bytes) : Moves (writeLarge head payload) :=
  .bind (.commit true) (.bind (.put head) (.put payload))

theorem finish : Moves finish := .bind (.commit true) (.setPending none)

end Moves

/-- The writer has gone on from some bytes as an empty one that holds the log. -/
def Beyond (base : Bytes) (w : Writer) (log : List Instruction) : Prop :=
  ∃ u, Behind base w u ∧ u.Holds log

/-! ## What every move keeps -/

/-- Whatever an encoder of the protocol does with a writer keeps the condition on it and its log. -/
structure Keeps (p : Protocol) (P : Writer → List Instruction → Prop) : Prop where
  write : ∀ {w w' log} {i : Instruction}, P w log → write i.bytes w = .ok () w' → P w' (log ++ [i])
  writeLarge : ∀ {w w' log} {i : Instruction}, P w log →
    writeLarge i.head i.payload w = .ok () w' → P w' (log ++ [i])
  commit : ∀ {w w' log}, P w log → commit false w = .ok () w' → P w' log
  start : ∀ {w w' log}, 4 ≤ p.val → w.pending = none → P w log → start w = .ok () w' → P w' log
  finish : ∀ {w w' log}, P w log → finish w = .ok () w' → P w' log

theorem keeps_beyond (p : Protocol) (base : Bytes) : Keeps p (Beyond base) where
  write := by
    rintro w w' log i ⟨u, behind, held⟩ run
    obtain ⟨u', run', behind'⟩ := Moves.write _ _ _ _ _ behind run
    exact ⟨u', behind', held.write run'⟩
  writeLarge := by
    rintro w w' log i ⟨u, behind, held⟩ run
    obtain ⟨u', run', behind'⟩ := Moves.writeLarge _ _ _ _ _ _ behind run
    exact ⟨u', behind', held.writeLarge run'⟩
  commit := by
    rintro w w' log ⟨u, behind, held⟩ run
    obtain ⟨u', run', behind'⟩ := Moves.commit _ _ _ _ _ behind run
    exact ⟨u', behind', (held.commit run').1⟩
  start := by
    rintro w w' log - bare ⟨u, behind, held⟩ run
    obtain ⟨u', run', behind'⟩ := Moves.setPending (some #[]) _ _ _ _ behind run
    exact ⟨u', behind', held.start (behind.pending.trans bare) run'⟩
  finish := by
    rintro w w' log ⟨u, behind, held⟩ run
    obtain ⟨u', run', behind'⟩ := Moves.finish _ _ _ _ behind run
    exact ⟨u', behind', held.finish run'⟩

/-- Outside of frames the bytes of the log stand in the sink as they are. -/
def Plain (base : Bytes) (w : Writer) (log : List Instruction) : Prop :=
  w.pending = none ∧ w.sink.written.toList = base ++ allBytes log

/-- Before protocol 4 there are no frames. -/
theorem keeps_plain {p : Protocol} (early : p.val < 4) (base : Bytes) : Keeps p (Plain base) := by
  have idle : ∀ {w w' : Writer} {force : Bool}, w.pending = none → Writer.commit force w = .ok () w' →
      w' = w := by
    intro w w' force bare run
    simp only [Writer.commit, bind_apply, get_apply, bare] at run
    cases run
    rfl
  constructor
  · rintro w w' log i ⟨bare, written⟩ run
    obtain ⟨sink, pending⟩ := w
    obtain rfl : pending = none := bare
    rw [put_ok run]
    refine ⟨rfl, ?_⟩
    rw [written_append, written, allBytes_append, List.append_assoc]
    simp
  · rintro w w' log i ⟨bare, written⟩ run
    obtain ⟨_, w₁, commit, run⟩ := bind_eq_ok run
    obtain ⟨_, w₂, head, payload⟩ := bind_eq_ok run
    rw [idle bare commit] at head
    rw [put_ok head] at payload
    rw [put_ok payload]
    refine ⟨bare, ?_⟩
    simp only [written_append, written, allBytes_append, List.append_assoc]
    simp [Instruction.bytes]
  · rintro w w' log ⟨bare, written⟩ run
    rw [idle bare run]
    exact ⟨bare, written⟩
  · intro w w' log late
    exact absurd late (Nat.not_le.2 early)
  · rintro w w' log ⟨bare, written⟩ run
    obtain ⟨_, w₁, commit, run⟩ := bind_eq_ok run
    cases run
    rw [idle bare commit]
    exact ⟨rfl, written⟩

end Frame.Writer

namespace Encoder

open Frame.Writer (Keeps Beyond Plain)

variable {H : Type} {st st' : State H} {P : Frame.Writer → List Instruction → Prop}
  {log : List Instruction}

theorem emit_keeps {p : Protocol} (keeps : Keeps p P) {op : Opcode} {operand : op.shape.Operand}
    (h : emit op operand st = .ok () st') (here : P st.frames log) :
    P st'.frames (log ++ [⟨op, operand⟩]) := by
  obtain ⟨_, st₁, write, advance⟩ := bind_eq_ok h
  obtain ⟨frames, run, rfl⟩ := framed_ok write
  cases advance
  exact keeps.write here run

theorem emitPayload_keeps {p : Protocol} (keeps : Keeps p P) {op : Opcode}
    {operand : op.shape.Operand} (h : emitPayload op operand st = .ok () st') (here : P st.frames log) :
    P st'.frames (log ++ [⟨op, operand⟩]) := by
  simp only [emitPayload] at h
  split at h
  · exact emit_keeps keeps h here
  · obtain ⟨_, st₁, write, advance⟩ := bind_eq_ok h
    obtain ⟨frames, run, rfl⟩ := framed_ok write
    cases advance
    exact keeps.writeLarge (i := ⟨op, operand⟩) here run

variable [HostObject H] {cfg : Config H} {v : Value}

/-- What every move keeps is kept on the whole way. -/
theorem Course.keeps {s : Subject} {notes : List Note} (h : Course cfg s st notes st')
    (keeps : Keeps cfg.protocol P) (here : P st.frames log) :
    P st'.frames (log ++ notes.map Note.instruction) := by
  induction h generalizing log with
  | trans _ _ ih ih' =>
    rw [List.map_append, ← List.append_assoc]
    exact ih' (ih here)
  | commit run =>
    rw [List.map_nil, List.append_nil]
    obtain ⟨frames, commit, rfl⟩ := framed_ok run
    exact keeps.commit here commit
  | write _ _ run => exact emit_keeps keeps run here
  | payload _ _ run => exact emitPayload_keeps keeps run here
  | number _ _ run => exact emit_keeps keeps (memoizeAs_run run).2 here
  | fetch _ _ run =>
    rw [emitGet_eq] at run
    exact emit_keeps keeps run here
  | inside _ _ ih => exact ih here
  | ofClass _ _ ih => exact ih here
  | _ =>
    rw [List.map_nil, List.append_nil]
    exact here

/-! ## Dumps -/

/-- The instructions of a dump are allowed, and what every move keeps is kept by the dump. -/
theorem dump_keeps (bare : st.frames.pending = none) (h : dump cfg v st = .ok () st') :
    ∃ is, Wrote st st' is ∧ (∀ i ∈ is, cfg.Allows i.op) ∧ st'.frames.pending = none ∧
      ∀ P, Keeps cfg.protocol P → ∀ log, P st.frames log → P st'.frames (log ++ is) := by
  obtain ⟨st₀, st₁, st₂, st₃, announce, start, saved, stop, finish⟩ := dump_runs h
  obtain ⟨notes, course⟩ := course_of_save saved
  obtain ⟨announced, bare₀⟩ := announce_ok bare announce
  have started := (announced.trans (begin_ok bare₀ start)).wrote.trans course.wrote
  obtain ⟨finished, bare'⟩ := finish_ok finish
  refine ⟨_, started.trans ((emit_ok stop).trans finished).wrote, ?_, bare', ?_⟩
  · simp only [List.append_nil, List.forall_mem_append, List.forall_mem_map]
    refine ⟨⟨?_, course.allowed⟩, List.forall_mem_singleton.2 (.inl (Nat.zero_le _))⟩
    unfold Config.announcement
    split
    · next recent => exact List.forall_mem_singleton.2 (.inl recent)
    · exact List.forall_mem_nil _
  · intro P keeps log here
    have first : P st₀.frames (log ++ cfg.announcement) := by
      unfold Config.announcement
      split at announce
      · rw [if_pos ‹_›]
        exact emit_keeps keeps announce here
      · rw [if_neg ‹_›, List.append_nil]
        cases announce
        exact here
    have second : P st₁.frames (log ++ cfg.announcement) := by
      split at start
      · obtain ⟨frames, run, rfl⟩ := framed_ok start
        exact keeps.start ‹_› bare₀ first run
      · cases start
        exact first
    obtain ⟨frames, run, rfl⟩ := framed_ok finish
    simp only [List.append_nil, ← List.append_assoc]
    exact keeps.finish (emit_keeps keeps stop (course.keeps keeps second)) run

/-- Every instruction that a dump adds to a sink belongs to its protocol or to an earlier one, save the
    pairs that callables take a state in. From protocol 4 on there are frames around some of them. -/
theorem dump_allowed (bare : st.frames.pending = none) (h : dump cfg v st = .ok () st') :
    ∃ is bs, Wrote st st' is ∧
      st'.frames.sink.written.toList = st.frames.sink.written.toList ++ bs ∧ Spells is bs ∧
      (cfg.protocol.val < 4 → bs = allBytes is) ∧
      ∀ i ∈ is, i.op.protocol ≤ cfg.protocol.val ∨
        (i.op = .tuple2 ∧ cfg.protocol.val < 2 ∧ cfg.HasSetters) := by
  obtain ⟨is, wrote, allowed, bare', kept⟩ := dump_keeps bare h
  obtain ⟨u, behind, held⟩ := kept _ (Frame.Writer.keeps_beyond _ st.frames.sink.written.toList) []
    ⟨_, .empty _, by rw [bare]; exact .nothing⟩
  have spelled := held.spells (by rw [behind.pending, bare']; rfl)
  refine ⟨is, _, wrote, behind.written, spelled, fun early => ?_, fun i mem => ?_⟩
  · obtain ⟨-, written⟩ := kept _ (Frame.Writer.keeps_plain early st.frames.sink.written.toList) []
      ⟨bare, (List.append_nil _).symm⟩
    rw [behind.written] at written
    exact List.append_cancel_left written
  · by_cases known : i.op.protocol ≤ cfg.protocol.val
    · exact .inl known
    · obtain ⟨pair, setters⟩ := (allowed i mem).resolve_left known
      rw [pair] at known
      exact .inr ⟨pair, Nat.not_le.1 known, setters⟩

/-! ## A callable that takes the state -/

/-- Two functions, and a record that is built by the one and gets its state from the other. -/
def setterStore : Store Record :=
  let reduction : Reduction :=
    { callable := .ref 0, args := .emptyTuple, state := some (.str "s"), stateSetter := some (.ref 1) }
  let record : Record :=
    { kind := { type := ⟨"Beta"⟩, conduct := .able }, recipe := some (.reduction reduction) }
  ⟨#[.global (.named "m" "f"), .global (.named "m" "g"), .object record]⟩

/-- An encoder of records. -/
def recorder (p : Protocol) : Config Record :=
  { registry := .seeded 0, host := {}, protocol := p }

theorem drafts_describe {cfg : Config H} {id : Nat} {content : H} {r : Reduction} {d : Draft H}
    {Q : Reduction → Draft H → Prop} (hook : reduceHook cfg id content = some (pure r)) (h : Q r d) :
    Drafts (describe cfg id content) d Q := by
  intro st here
  rw [describe, hook]
  exact ⟨r, _, d, rfl, ⟨here.store, here.memo, here.size, here.bare, here.willing, here.written⟩, h⟩

/-- What is written of the record, with the pair of itself and its state. -/
def setterStream : List Instruction :=
  [⟨.global, ([0x6d], [0x66])⟩, ⟨.binPut, (0 : UInt8)⟩, ⟨.emptyTuple, ()⟩, ⟨.reduce, ()⟩,
    ⟨.binPut, (1 : UInt8)⟩, ⟨.global, ([0x6d], [0x67])⟩, ⟨.binPut, (2 : UInt8)⟩,
    ⟨.binGet, (1 : UInt8)⟩, ⟨.binUnicode, [0x73]⟩, ⟨.tuple2, ()⟩, ⟨.reduce, ()⟩, ⟨.pop, ()⟩]

theorem drafts_setter :
    Drafts (save (recorder 1) (recorder 1).limits.maxDepth true (.ref 2)) ⟨setterStore, [], []⟩ fun _ d =>
      d = ⟨setterStore, [(.object 1, 2), (.object 2, 1), (.object 0, 0)], setterStream⟩ := by
  refine drafts_new rfl rfl rfl ?_
  refine Drafts.bind (drafts_describe rfl ?_)
  refine drafts_get fun st here => ?_
  simp only [here.store]
  refine Drafts.bind ?_
  -- the call
  refine Drafts.bind (drafts_new rfl rfl rfl ?_)
  refine drafts_global ⟨"m", "f"⟩ ([0x6d], [0x66]) rfl rfl (by decide) rfl (drafts_emit ?_)
  refine Drafts.bind (drafts_save rfl (drafts_emit ?_))
  refine drafts_emit ?_
  refine Drafts.bind (Drafts.bind (drafts_memoized (drafts_memoizeAs (by decide) rfl (drafts_emit ?_))))
  -- the state
  refine Drafts.bind (drafts_new rfl rfl rfl ?_)
  refine drafts_global ⟨"m", "g"⟩ ([0x6d], [0x67]) rfl rfl (by decide) rfl (drafts_emit ?_)
  refine Drafts.bind (drafts_known rfl rfl (drafts_emit ?_))
  refine Drafts.bind (drafts_save rfl (drafts_text rfl (by decide) (by decide) (by decide) ?_))
  refine Drafts.bind (drafts_emit (Drafts.bind (drafts_emit (drafts_emit ?_))))
  rfl

/-- At protocol 1 the record is written with the pair of itself and its state. -/
theorem dump_allowed_setter :
    ∃ st' is, dump (recorder 1) (.ref 2) (.ofSink setterStore {} {}) = .ok () st' ∧
      Wrote (.ofSink setterStore {} {}) st' is ∧
      st'.frames.sink.written.toList = allBytes (setterStream ++ [⟨.stop, ()⟩]) ∧
      st'.frames.sink.written.toList = allBytes is ∧
      ∀ i ∈ is, i.op.protocol ≤ 1 ∨ (i.op = .tuple2 ∧ 1 < 2 ∧ (recorder 1).HasSetters) := by
  have whole : Drafts (dump (recorder 1) (.ref 2)) ⟨setterStore, [], []⟩ fun _ d =>
      d.log = setterStream ++ [⟨.stop, ()⟩] :=
    drafts_dump (by decide) (drafts_setter.mono fun _ _ same => by rw [same]; rfl)
  obtain ⟨_, st', d, dumped, here, log⟩ := whole _ (shows_ofSink setterStore)
  obtain ⟨is, bs, wrote, behind, -, plain, allowed⟩ := dump_allowed rfl dumped
  rw [plain (by decide)] at behind
  exact ⟨st', is, dumped, wrote, by rw [here.written, log], behind, allowed⟩

theorem dumps_setter :
    dumps (recorder 1) setterStore (.ref 2) = (.ok [0x63, 0x6d, 0x0a, 0x66, 0x0a, 0x71, 0, 0x29, 0x52,
      0x71, 1, 0x63, 0x6d, 0x0a, 0x67, 0x0a, 0x71, 2, 0x68, 1, 0x58, 1, 0, 0, 0, 0x73, 0x86, 0x52, 0x30,
      0x2e], setterStore) :=
  dumps_of_drafts _ setterStream (by decide) drafts_setter

/-- The pair stands in a stream of protocol 1. -/
theorem dumps_setter_pair :
    ∃ bytes lines, dumps (recorder 1) setterStore (.ref 2) = (.ok bytes, setterStore) ∧
      Listing.ofBytes bytes = .ok lines ∧ ∃ line ∈ lines, line.op = .tuple2 ∧ 1 < line.op.protocol :=
  ⟨_, _, dumps_setter, rfl, _, List.mem_of_getElem? (i := 9) rfl, rfl, by decide⟩

end Encoder

end ObjectStream
