import Mathlib.Data.Finset.Card
import ObjectStream.Proofs.Drafts
import ObjectStream.Proofs.Steps
import ObjectStream.Proofs.Writing

/-!
Dumps after failures.

A dump that fails leaves behind what it has written and what it remembers. Before protocol 4 there are
no frames: what was written is in the sink, and whatever has a number in the memo has it there as well
(`Honest`). Every step of writing keeps it so, whether the walk goes on or fails. So a later dump that
succeeds begins with its own announcement, and it fetches only what a reader of the sink remembers
(`dump_after_failures`). From protocol 4 on this fails: the next dump forgets the frame that a failed
one has left behind, and writes its announcement into it (`dump_stale`).
-/

namespace ObjectStream

open Instruction

/-! ## What a reader remembers -/

/-- The numbers that a reader of the instruction has given out behind it. An instruction without
    operand takes the number of those so far. -/
def Instruction.remembered (held : Finset Nat) : Instruction → Finset Nat
  | ⟨.put, line⟩ => (Literal.index? line).elim held (insert · held)
  | ⟨.binPut, n⟩ => insert n.toNat held
  | ⟨.longBinPut, n⟩ => insert n.toNat held
  | ⟨.memoize, _⟩ => insert held.card held
  | _ => held

/-- The number that the instruction fetches. -/
def Instruction.fetched? : Instruction → Option Nat
  | ⟨.get, line⟩ => Literal.index? line
  | ⟨.binGet, n⟩ => some n.toNat
  | ⟨.longBinGet, n⟩ => some n.toNat
  | _ => none

/-- The numbers that a reader has given out behind all the instructions. -/
def allRemembered (held : Finset Nat) (is : List Instruction) : Finset Nat :=
  is.foldl Instruction.remembered held

/-- A reader that has given out these numbers finds what the instructions fetch. -/
def Backed : Finset Nat → List Instruction → Prop
  | _, [] => True
  | held, i :: is => (∀ n, i.fetched? = some n → n ∈ held) ∧ Backed (i.remembered held) is

theorem subset_remembered (held : Finset Nat) (i : Instruction) : held ⊆ i.remembered held := by
  unfold Instruction.remembered
  split
  · next line =>
    cases Literal.index? line with
    | none => exact Finset.Subset.refl _
    | some n => exact Finset.subset_insert n held
  all_goals first | exact Finset.subset_insert .. | exact Finset.Subset.refl _

theorem allRemembered_append (held : Finset Nat) (is js : List Instruction) :
    allRemembered held (is ++ js) = allRemembered (allRemembered held is) js :=
  List.foldl_append

theorem subset_allRemembered (held : Finset Nat) (is : List Instruction) :
    held ⊆ allRemembered held is := by
  induction is generalizing held with
  | nil => exact Finset.Subset.refl _
  | cons i is ih => exact (subset_remembered held i).trans (ih _)

theorem Backed.append {held : Finset Nat} {is js : List Instruction} (h : Backed held is)
    (h' : Backed (allRemembered held is) js) : Backed held (is ++ js) := by
  induction is generalizing held with
  | nil => exact h'
  | cons i is ih => exact ⟨h.1, ih h.2 h'⟩

theorem fetched?_of_quiet {op : Opcode} {operand : op.shape.Operand} (quiet : op.isQuiet = true) :
    Instruction.fetched? ⟨op, operand⟩ = none := by
  cases op <;> first | rfl | cases quiet

namespace Encoder

variable {H : Type} {st st' : State H} {log : List Instruction}

/-- A large payload goes to the sink as well. -/
theorem State.Unframed.emitPayload (h : st.Unframed) (op : Opcode) (operand : op.shape.Operand) :
    ∃ st', Encoder.emitPayload op operand st = .ok () st' ∧ st'.Unframed ∧
      st'.frames.sink.written.toList =
        st.frames.sink.written.toList ++ (Instruction.mk op operand).bytes := by
  let i := Instruction.mk op operand
  simp only [Encoder.emitPayload]
  split
  · obtain ⟨st', run, unframed, sink⟩ := h.emit op operand
    exact ⟨st', run, unframed, by rw [sink, Frame.Writer.written_append]⟩
  · have accepts : ∀ (sink : Sink) (bs : Bytes), sink.fault = none →
        Frame.Writer.put bs ⟨sink, none⟩ = .ok () ⟨sink.append bs, none⟩ := by
      intro sink bs willing
      rw [Frame.Writer.put, Sink.refusal?, willing]
    have run : Frame.Writer.writeLarge i.head i.payload st.frames =
        .ok () ⟨(st.frames.sink.append i.head).append i.payload, none⟩ := by
      rw [show st.frames = ⟨st.frames.sink, none⟩ by rw [← h.bare]]
      simp only [Frame.Writer.writeLarge, Frame.Writer.commit, bind_apply, get_apply, pure_apply,
        accepts st.frames.sink i.head h.willing,
        accepts (st.frames.sink.append i.head) i.payload h.willing]
    let after : State H := { st with
      frames := ⟨(st.frames.sink.append i.head).append i.payload, none⟩
      offset := st.offset + (i.head.length + i.payload.length)
      trace := st.trace.instruction st.offset op st.depth }
    refine ⟨after, ?_, ⟨rfl, h.willing⟩, ?_⟩
    · simp only [bind_apply, framed, run, i]
      rfl
    · simp [after, Frame.Writer.written_append, Instruction.bytes, i]

/-! ## What is left behind -/

/-- The sink holds the bytes of the log, a reader of the log finds what it fetches, and it has given
    out the number of everything in the memo. -/
structure Honest (st : State H) (log : List Instruction) : Prop where
  unframed : st.Unframed
  written : st.frames.sink.written.toList = allBytes log
  backed : Backed ∅ log
  known : ∀ (a : Identity) n, st.memo[a]? = some n → n < 2 ^ 32 ∧ n ∈ allRemembered ∅ log

/-- Between the two states instructions were written that keep the log honest. -/
def Continues (st st' : State H) : Prop :=
  ∀ log, Honest st log → ∃ is, Wrote st st' is ∧ Honest st' (log ++ is)

/-- An instruction is written that fetches nothing unknown, and every new number in the memo is one that
    it gives out. -/
theorem Honest.next {i : Instruction} (h : Honest st log) (unframed : st'.Unframed)
    (written : st'.frames.sink.written.toList = st.frames.sink.written.toList ++ i.bytes)
    (backed : ∀ n, i.fetched? = some n → n ∈ allRemembered ∅ log)
    (memo : ∀ (a : Identity) n, st'.memo[a]? = some n → st.memo[a]? = some n ∨
      (n < 2 ^ 32 ∧ n ∈ i.remembered (allRemembered ∅ log))) : Honest st' (log ++ [i]) where
  unframed := unframed
  written := by rw [written, h.written, allBytes_append, allBytes_cons, allBytes_nil, List.append_nil]
  backed := h.backed.append ⟨backed, trivial⟩
  known a n here := by
    rw [allRemembered_append]
    rcases memo a n here with former | new
    · obtain ⟨small, given⟩ := h.known a n former
      exact ⟨small, subset_remembered _ i given⟩
    · exact new

theorem Honest.emit (h : Honest st log) (op : Opcode) (operand : op.shape.Operand)
    (backed : ∀ n, Instruction.fetched? ⟨op, operand⟩ = some n → n ∈ allRemembered ∅ log) :
    ∃ st', Encoder.emit op operand st = .ok () st' ∧ Wrote st st' [⟨op, operand⟩] ∧
      Honest st' (log ++ [⟨op, operand⟩]) := by
  obtain ⟨st', run, unframed, sink⟩ := h.unframed.emit op operand
  have emitted := emit_ok run
  refine ⟨st', run, emitted.wrote, h.next unframed ?_ backed fun a n here => .inl ?_⟩
  · rw [sink, Frame.Writer.written_append]
  · rwa [emitted.memo] at here

/-- Changes beside the stream and the memo keep the log honest. -/
theorem Honest.silent (h : Honest st log) (silent : st'.frames = st.frames)
    (memo : st'.memo = st.memo) : Honest st' log where
  unframed := ⟨by rw [silent]; exact h.unframed.bare, by rw [silent]; exact h.unframed.willing⟩
  written := by rw [silent]; exact h.written
  backed := h.backed
  known a n here := h.known a n (by rwa [memo] at here)

/-! ## Numbers -/

/-- Before protocol 4 a number is written out where it is given. -/
theorem remembered_putInstruction {p : Protocol} {id : Nat} (early : p.val < 4) (small : id < 2 ^ 32)
    (held : Finset Nat) : (putInstruction p id).remembered held = insert id held := by
  unfold putInstruction
  rw [if_neg (Nat.not_le.2 early)]
  split
  · split
    · next byte => exact congrArg (insert · held) (UInt8.toNat_ofNat_of_lt' byte)
    · exact congrArg (insert · held) (UInt32.toNat_ofNat_of_lt' small)
  · show (Literal.index? (decimalLine id)).elim held (insert · held) = _
    rw [Literal.index?_decimalLine (by omega)]
    rfl

theorem fetched?_putInstruction (p : Protocol) (id : Nat) : (putInstruction p id).fetched? = none := by
  unfold putInstruction
  split
  · rfl
  split
  · split <;> rfl
  · rfl

theorem fetched?_getInstruction {id : Nat} (p : Protocol) (small : id < 2 ^ 32) :
    (getInstruction p id).fetched? = some id := by
  unfold getInstruction
  split
  · split
    · next byte => exact congrArg some (UInt8.toNat_ofNat_of_lt' byte)
    · exact congrArg some (UInt32.toNat_ofNat_of_lt' small)
  · exact Literal.index?_decimalLine (by omega)

/-- What gets a number gets it in the sink as well. -/
theorem Honest.memoizeAs {p : Protocol} (h : Honest st log) (early : p.val < 4)
    (small : st.memo.size < 2 ^ 32) (a : Identity) :
    ∃ st' is, Encoder.memoizeAs p a st = .ok () st' ∧ Wrote st st' is ∧
      Honest st' (log ++ is) := by
  let i := putInstruction p st.memo.size
  let noted : State H := { st with memo := st.memo.insert a st.memo.size }
  have unframed : noted.Unframed := ⟨h.unframed.bare, h.unframed.willing⟩
  obtain ⟨st', run, unframed', sink⟩ := unframed.emit i.op i.operand
  have emitted := emit_ok run
  have silent : Silent st noted := ⟨rfl, rfl, rfl⟩
  refine ⟨st', [i], ?_, silent.wrote.trans emitted.wrote, h.next unframed' ?_ ?_ ?_⟩
  · show (if st.memo.size < 2 ^ 32 then _ else _ : Encode H Unit) st = _
    rw [if_pos small, bind_ok (modify_apply ..), emitPut_eq]
    exact run
  · rw [sink, Frame.Writer.written_append]
  · intro n fetched
    rw [fetched?_putInstruction] at fetched
    cases fetched
  · intro b n here
    rw [emitted.memo, Std.HashMap.getElem?_insert] at here
    split at here
    · cases here
      refine .inr ⟨small, ?_⟩
      rw [remembered_putInstruction early small]
      exact Finset.mem_insert_self ..
    · exact .inl here

/-! ## Every step -/

theorem ends_continues {α : Type} {r : EStateM.Result Error (State H) α}
    (h : ∀ log, Honest st log → Ends (fun st' => ∃ is, Wrote st st' is ∧ Honest st' (log ++ is)) r) :
    Ends (Continues st) r := by
  cases r with
  | ok a st' => exact fun log honest => h log honest
  | error e st' =>
    cases e with
    | endless => trivial
    | _ => exact fun log honest => h log honest

/-- Before protocol 4 every step of writing keeps the log honest. -/
theorem stepwise_continues {p : Protocol} (early : p.val < 4) :
    Stepwise p (Continues : State H → State H → Prop) where
  refl st log h := ⟨[], (Silent.refl st).wrote, by rwa [List.append_nil]⟩
  trans first second log h := by
    obtain ⟨is, wrote, h⟩ := first log h
    obtain ⟨js, wrote', h⟩ := second _ h
    exact ⟨is ++ js, wrote.trans wrote', by rwa [← List.append_assoc]⟩
  beside st store depth log h := by
    refine ⟨[], Silent.wrote ⟨rfl, rfl, rfl⟩, ?_⟩
    rw [List.append_nil]
    exact h.silent rfl rfl
  described st label log h := by
    have reported := (Trace.Reported.enter st.trace .reduce label st.offset).trans
      (.exit _ .reduce st.offset)
    refine ⟨[], ⟨fun log held => by rwa [List.append_nil], rfl, reported⟩, ?_⟩
    rw [List.append_nil]
    exact h.silent rfl rfl
  write quiet operand st := ends_continues fun log h => by
    obtain ⟨st', run, wrote, h⟩ := h.emit _ operand fun n fetched => by
      rw [fetched?_of_quiet quiet] at fetched
      cases fetched
    rw [run]
    exact ⟨_, wrote, h⟩
  writePayload quiet operand st := ends_continues fun log h => by
    obtain ⟨st', run, unframed, written⟩ := h.unframed.emitPayload _ operand
    have emitted := emitPayload_ok run
    rw [run]
    refine ⟨_, emitted.wrote, h.next unframed written ?_ fun a n here => .inl ?_⟩
    · intro n fetched
      rw [fetched?_of_quiet quiet] at fetched
      cases fetched
    · rwa [emitted.memo] at here
  commit st := ends_continues fun log h => by
    rw [h.unframed.commit]
    exact ⟨[], (Silent.refl st).wrote, by rwa [List.append_nil]⟩
  number a st := ends_continues fun log h => by
    by_cases small : st.memo.size < 2 ^ 32
    · obtain ⟨st', is, run, wrote, h⟩ := h.memoizeAs early small a
      rw [run]
      exact ⟨is, wrote, h⟩
    · show Ends _ ((if st.memo.size < 2 ^ 32 then _ else _ : Encode H Unit) st)
      rw [if_neg small]
      exact ⟨[], (Silent.refl st).wrote, by rwa [List.append_nil]⟩
  fetch {_ _ n} known st' since := ends_continues fun log h => by
    obtain ⟨small, given⟩ := h.known _ _ known
    obtain ⟨is, wrote, h⟩ := since log h
    let i := getInstruction p n
    obtain ⟨st'', run, wrote', h⟩ := h.emit i.op i.operand fun n fetched => by
      cases Option.some.inj ((fetched?_getInstruction p small).symm.trans fetched)
      rw [allRemembered_append]
      exact subset_allRemembered _ _ given
    rw [emitGet_eq, run]
    exact ⟨is ++ [i], wrote.trans wrote', by rwa [← List.append_assoc]⟩

/-! ## Dumps -/

section
variable [HostObject H] {cfg : Config H} {v : Value}

/-- Before protocol 4 a dump writes its announcement first, and keeps the log honest whether it
    succeeds or fails. -/
theorem dump_continues (early : cfg.protocol.val < 4) (v : Value) (h : Honest st log) :
    Ends (fun st' => ∃ is, Wrote st st' is ∧ Honest st' (log ++ is) ∧
      (2 ≤ cfg.protocol.val → is.head? = some ⟨.proto, UInt8.ofNat cfg.protocol.val⟩))
      (dump cfg v st) := by
  have steps : Stepwise cfg.protocol (Continues : State H → State H → Prop) :=
    stepwise_continues early
  have finish : ∀ st : State H, Ends (Continues st) (framed Frame.Writer.finish st) := fun st =>
    ends_continues fun log h => by
      rw [h.unframed.finish]
      exact ⟨[], (Silent.refl st).wrote, by rwa [List.append_nil]⟩
  have rest : Across Continues (save cfg cfg.limits.maxDepth true v >>= fun _ => do
      emit .stop ()
      framed Frame.Writer.finish) :=
    .bind (steps.across_save _ true v) fun _ => .bind (steps.across_emit rfl) fun _ =>
      steps.across finish
  have late : ¬4 ≤ cfg.protocol.val := Nat.not_le.2 early
  let st₀ : State H := { st with depth := 0 }
  have h₀ : Honest st₀ log := h.silent rfl rfl
  have silent : Silent st st₀ := ⟨rfl, rfl, rfl⟩
  rw [dump, bind_ok (modify_apply ..)]
  simp only [if_neg late]
  by_cases recent : 2 ≤ cfg.protocol.val
  · obtain ⟨st₁, run, wrote, h₁⟩ := h₀.emit .proto (UInt8.ofNat cfg.protocol.val)
      fun n fetched => by cases fetched
    rw [if_pos recent, bind_ok run]
    refine (rest st₁ st₁ (steps.refl st₁)).mono fun st' continues => ?_
    obtain ⟨is, wrote', h'⟩ := continues _ h₁
    refine ⟨_, silent.wrote.trans (wrote.trans wrote'), ?_, fun _ => rfl⟩
    rw [List.append_assoc] at h'
    exact h'
  · rw [if_neg recent]
    refine (rest st₀ st₀ (steps.refl st₀)).mono fun st' continues => ?_
    obtain ⟨is, wrote, h'⟩ := continues _ h₀
    exact ⟨is, silent.wrote.trans wrote, h', fun recent' => absurd recent' recent⟩

/-- Dumps were tried one after the other, each with objects as they were then, and some of them
    failed. -/
inductive Attempts (cfg : Config H) (st : State H) : State H → Prop
  | none : Attempts cfg st st
  | success {st' st'' : State H} {s : Store H} {v : Value} (before : Attempts cfg st st')
      (run : dump cfg v { st' with store := s } = .ok () st'') : Attempts cfg st st''
  | failure {st' st'' : State H} {s : Store H} {v : Value} {e : Error}
      (before : Attempts cfg st st') (run : dump cfg v { st' with store := s } = .error e st'')
      (ends : e ≠ .endless) : Attempts cfg st st''

/-- Attempts keep the log honest. -/
theorem Attempts.honest (early : cfg.protocol.val < 4) (tried : Attempts cfg st st')
    (h : Honest st log) : ∃ is, Honest st' (log ++ is) := by
  have step : ∀ {st st' : State H} {is : List Instruction}, Honest st (log ++ is) →
      (∃ js, Wrote st st' js ∧ Honest st' ((log ++ is) ++ js) ∧
        (2 ≤ cfg.protocol.val → js.head? = some ⟨.proto, UInt8.ofNat cfg.protocol.val⟩)) →
      ∃ is, Honest st' (log ++ is) := by
    rintro st st' is h ⟨js, -, h', -⟩
    exact ⟨is ++ js, by rwa [← List.append_assoc]⟩
  induction tried with
  | none => exact ⟨[], by rwa [List.append_nil]⟩
  | @success st₁ st₂ s v before run ih =>
    obtain ⟨is, h₁⟩ := ih
    have here : Honest { st₁ with store := s } (log ++ is) := h₁.silent rfl rfl
    have ends := dump_continues early v here
    rw [run] at ends
    exact step here ends
  | @failure st₁ st₂ s v e before run ends ih =>
    obtain ⟨is, h₁⟩ := ih
    have here : Honest { st₁ with store := s } (log ++ is) := h₁.silent rfl rfl
    have failed := dump_continues early v here
    rw [run] at failed
    cases e with
    | endless => exact absurd rfl ends
    | _ => exact step here failed

/-- Before protocol 4 a dump that succeeds after others, failed ones among them, begins with its own
    announcement, and whatever it fetches was given its number in the sink before. Neither a frame nor
    a number that is not in the sink was left behind. -/
theorem dump_after_failures {s₀ s : Store H} {trace : Trace} (early : cfg.protocol.val < 4)
    (tried : Attempts cfg (.ofSink s₀ {} trace) st)
    (dumped : dump cfg v { st with store := s } = .ok () st') :
    ∃ log is, Honest st log ∧ Wrote { st with store := s } st' is ∧ Honest st' (log ++ is) ∧
      (2 ≤ cfg.protocol.val → is.head? = some ⟨.proto, UInt8.ofNat cfg.protocol.val⟩) := by
  have fresh : Honest (.ofSink s₀ {} trace : State H) [] :=
    ⟨⟨rfl, rfl⟩, rfl, trivial, fun a n here => by
      rw [show (State.ofSink s₀ {} trace : State H).memo[a]? = none from
        Std.HashMap.getElem?_empty] at here
      cases here⟩
  obtain ⟨log, h⟩ := tried.honest early fresh
  rw [List.nil_append] at h
  have ends := dump_continues early v (h.silent rfl rfl : Honest { st with store := s } log)
  rw [dumped] at ends
  obtain ⟨is, wrote, h', first⟩ := ends
  exact ⟨log, is, h, wrote, h', first⟩

end

/-- An encoder that may not write values inside others. -/
def shallow (p : Protocol) : Config Empty :=
  { registry := .seeded 0, host := {}, protocol := p, limits := { maxDepth := 1 } }

/-- What it leaves behind when it fails at a complex number, which is written as a call. -/
def refused (frames : Frame.Writer) : State Empty where
  store := ⟨#[.global (.named "builtins" "complex"), .tuple [.float .zero, .float .zero]]⟩
  frames := frames
  offset := 2
  depth := 1

/-- A list with an item that such an encoder may not write. -/
def burdened : Store Empty := ⟨#[.list #[.int 1000]]⟩

/-- The list has its number by the time its item is refused. -/
theorem fails_burdened :
    Fails (dump (shallow 2) (.ref 0)) ⟨burdened, [], []⟩ (.encode .recursionLimit)
      ⟨burdened, [(.object 0, 0)],
        [⟨.proto, (2 : UInt8)⟩, ⟨.emptyList, ()⟩, ⟨.binPut, (0 : UInt8)⟩]⟩ := by
  refine fails_dump (by decide) (fails_new rfl rfl rfl ?_)
  refine Drafts.fails (drafts_emit (Drafts.fails ?_))
  refine drafts_memoizeAs (by decide) rfl (drafts_emit ?_)
  show Fails ((batches _).forM _) _ _ _
  rw [batches, if_pos (by decide)]
  exact Fails.bind (Fails.bind fun st here => ⟨st, rfl, here⟩)

/-- The dump that failed leaves the list in the memo, and the later one fetches it from there. -/
theorem dump_after_failures_shallow :
    ∃ st st', dump (shallow 2) (.ref 0) (.ofSink burdened {} {}) =
        .error (.encode .recursionLimit) st ∧
      dump (shallow 2) (.ref 0) { st with store := burdened } = .ok () st' ∧
      st.memo[Identity.object 0]? = some 0 ∧
      ∃ log is, Honest st log ∧ Wrote { st with store := burdened } st' is ∧
        Honest st' (log ++ is) ∧ is.head? = some ⟨.proto, (2 : UInt8)⟩ ∧
        allBytes (log ++ is) = [0x80, 2, 0x5d, 0x71, 0, 0x80, 2, 0x68, 0, 0x2e] := by
  let log : List Instruction := [⟨.proto, (2 : UInt8)⟩, ⟨.emptyList, ()⟩, ⟨.binPut, (0 : UInt8)⟩]
  have again : Drafts (dump (shallow 2) (.ref 0)) ⟨burdened, [(.object 0, 0)], log⟩
      fun _ d => d.log = log ++ [⟨.proto, (2 : UInt8)⟩, ⟨.binGet, (0 : UInt8)⟩, ⟨.stop, ()⟩] :=
    drafts_dump (by decide) (drafts_known rfl rfl (drafts_emit rfl))
  obtain ⟨st, failed, left⟩ := fails_burdened _ (shows_ofSink burdened)
  obtain ⟨_, st', d, dumped, here, written⟩ := again { st with store := burdened }
    ⟨rfl, left.memo, left.size, left.bare, left.willing, left.written⟩
  have tried : Attempts (shallow 2) (.ofSink burdened {} {}) st := .failure .none failed nofun
  obtain ⟨log, is, h, wrote, h', first⟩ := dump_after_failures (by decide) tried dumped
  refine ⟨st, st', failed, dumped, left.memo (.object 0), log, is, h, wrote, h',
    first (by decide), ?_⟩
  rw [← h'.written, here.written, written]
  rfl

/-- From protocol 4 on the announcement behind a failure is lost: the stream that is added begins with
    its frame. -/
theorem dump_stale :
    let st := refused ⟨⟨#[0x80, 4], none⟩, some #[]⟩
    dump (shallow 4) (.complex .zero .zero) (.ofSink .empty {} {}) =
        .error (.encode .recursionLimit) st ∧
      ∃ st', dump (shallow 4) (.int 1000) st = .ok () st' ∧
        st'.frames.sink.written.toList = st.frames.sink.written.toList ++
          [0x95, 4, 0, 0, 0, 0, 0, 0, 0, 0x4d, 0xe8, 3, 0x2e] :=
  ⟨rfl, _, rfl, rfl⟩

end Encoder

end ObjectStream
