import ObjectStream.Proofs.Coverage
import ObjectStream.Proofs.Drafts
import ObjectStream.Proofs.Recovery

/-!
The numbers of a memo.

From the moment a memo is empty, what is written gives the numbers 0, 1, 2 and so on, each to something
that has none yet, and what is fetched is fetched by the number that it has got (`Numbers`). Every course
of writing goes on like this, since the entries of the memo are what was given numbers so far, in order
(`State.Counts`). So it is for a number of dumps one after the other (`dumps_numbers`).
-/

namespace ObjectStream.Encoder

open Instruction

/-! ## Numbers in turn -/

/-- The notes give numbers to further identities, in turn, and fetch by the numbers that were given: the
    identity at a place of the list has the number of the place. -/
inductive Numbers : List Identity → List Note → List Identity → Prop
  | done {given} : Numbers given [] given
  | plain {given given' notes} {i : Instruction} (quiet : i.op.isQuiet = true)
      (rest : Numbers given notes given') : Numbers given (.plain i :: notes) given'
  /-- A reader that has given out all the numbers before gives out the next one. -/
  | number {given given' notes} {a : Identity} {i : Instruction} (new : a ∉ given)
      (next : i.remembered (Finset.range given.length) = Finset.range (given.length + 1))
      (rest : Numbers (given ++ [a]) notes given') : Numbers given (.number a i :: notes) given'
  | fetch {given given' notes} {a : Identity} {i : Instruction} {n : Nat} (fetches : i.fetched? = some n)
      (known : given[n]? = some a) (rest : Numbers given notes given') :
      Numbers given (.fetch a i :: notes) given'

namespace Numbers

variable {given given' given'' : List Identity} {notes notes' : List Note}

theorem append (h : Numbers given notes given') (h' : Numbers given' notes' given'') :
    Numbers given (notes ++ notes') given'' := by
  induction h with
  | done => exact h'
  | plain quiet _ ih => exact .plain quiet (ih h')
  | number new next _ ih => exact .number new next (ih h')
  | fetch fetches known _ ih => exact .fetch fetches known (ih h')

/-- Nothing gets a second number. -/
theorem nodup (h : Numbers given notes given') (once : given.Nodup) : given'.Nodup := by
  induction h with
  | done => exact once
  | plain _ _ ih => exact ih once
  | number new _ _ ih => exact ih (List.nodup_append.2 ⟨once, List.nodup_singleton _, by grind⟩)
  | fetch _ _ _ ih => exact ih once

theorem quiet {is : List Instruction} (quiet : ∀ i ∈ is, i.op.isQuiet = true) :
    Numbers given (is.map .plain) given := by
  induction is with
  | nil => exact .done
  | cons i is ih =>
    rw [List.forall_mem_cons] at quiet
    exact .plain quiet.1 (ih quiet.2)

end Numbers

/-- The instruction that gives the next number to something. -/
theorem remembered_next {p : Protocol} {id : Nat} (small : id < 2 ^ 32) :
    (putInstruction p id).remembered (Finset.range id) = Finset.range (id + 1) := by
  rw [Finset.range_add_one]
  by_cases late : 4 ≤ p.val
  · rw [putInstruction, if_pos late]
    exact congrArg (insert · (Finset.range id)) (Finset.card_range id)
  · exact remembered_putInstruction (Nat.not_le.1 late) small _

variable {H : Type} {st st' : State H} {given : List Identity}

/-- The entries of the memo are what was given numbers, in order. -/
structure State.Counts (st : State H) (given : List Identity) : Prop where
  size : st.memo.size = given.length
  small : given.length ≤ 2 ^ 32
  known : ∀ (a : Identity) (n : Nat), st.memo[a]? = some n ↔ given[n]? = some a

namespace State.Counts

theorem of_memo (h : st.Counts given) (memo : st'.memo = st.memo) : st'.Counts given :=
  ⟨by rw [memo]; exact h.size, h.small, fun a n => by rw [memo]; exact h.known a n⟩

theorem empty (memo : st.memo = ∅) : st.Counts [] := by
  refine ⟨by rw [memo]; rfl, Nat.zero_le _, fun a n => ?_⟩
  rw [memo, Std.HashMap.getElem?_empty, List.getElem?_nil]
  exact ⟨nofun, nofun⟩

theorem not_mem {a : Identity} (h : st.Counts given) (new : st.memo[a]? = none) : a ∉ given := by
  intro mem
  obtain ⟨n, here⟩ := List.mem_iff_getElem?.1 mem
  rw [(h.known a n).2 here] at new
  cases new

/-- The next entry gets the next place. -/
theorem insert {a : Identity} (h : st.Counts given) (new : st.memo[a]? = none)
    (room : st.memo.size < 2 ^ 32) (memo : st'.memo = st.memo.insert a st.memo.size) :
    st'.Counts (given ++ [a]) := by
  have absent := h.not_mem new
  refine ⟨?_, ?_, fun b n => ?_⟩
  · rw [memo, Std.HashMap.size_insert, if_neg, h.size, List.length_append, List.length_singleton]
    rw [Std.HashMap.mem_iff_isSome_getElem?, new]
    exact nofun
  · rw [List.length_append, List.length_singleton, ← h.size]
    exact room
  · rw [memo, Std.HashMap.getElem?_insert, List.getElem?_append, h.size]
    by_cases same : a = b
    · subst same
      rw [if_pos (beq_self_eq_true a)]
      constructor
      · intro last
        obtain rfl := Option.some.inj last
        simp
      · intro here
        split at here
        · exact absurd (List.mem_of_getElem? here) absent
        · next behind =>
          have : n - given.length = 0 := by
            by_contra other
            simp [other] at here
          rw [show n = given.length by omega]
    · rw [if_neg (by simpa using same), h.known]
      constructor
      · intro here
        rw [if_pos (List.getElem?_eq_some_iff.1 here).1]
        exact here
      · intro here
        split at here
        · exact here
        · have last := List.mem_singleton.1 (List.mem_of_getElem? here)
          exact absurd last.symm same

end State.Counts

variable [HostObject H] {cfg : Config H} {s : Subject} {notes : List Note}

/-- A course of writing gives out the next numbers and fetches by those that were given. -/
theorem Course.numbers (steady : cfg.Steady) (h : Course cfg s st notes st') (counts : st.Counts given) :
    ∃ given', Numbers given notes given' ∧ st'.Counts given' := by
  induction h generalizing given with
  | stay => exact ⟨given, .done, counts⟩
  | trans _ _ ih ih' =>
    obtain ⟨given₁, first, counts₁⟩ := ih counts
    obtain ⟨given', second, counts'⟩ := ih' counts₁
    exact ⟨given', first.append second, counts'⟩
  | beside store depth => exact ⟨given, .done, counts.of_memo rfl⟩
  | described label => exact ⟨given, .done, counts.of_memo rfl⟩
  | commit run => exact ⟨given, .done, counts.of_memo (commit_ok run).memo⟩
  | write quiet _ run => exact ⟨given, .plain quiet .done, counts.of_memo (emit_ok run).memo⟩
  | payload quiet _ run => exact ⟨given, .plain quiet .done, counts.of_memo (emitPayload_ok run).memo⟩
  | @number _ st _ a _ new run =>
    obtain ⟨room, -, memo, -⟩ := memoizeAs_emits run
    have unknown := new steady
    refine ⟨given ++ [a], .number (counts.not_mem unknown) ?_ .done, counts.insert unknown room memo⟩
    rw [counts.size] at room ⊢
    exact remembered_next room
  | @fetch _ _ _ a n _ known run =>
    have here := (counts.known a n).1 known
    have small : n < 2 ^ 32 :=
      Nat.lt_of_lt_of_le (List.getElem?_eq_some_iff.1 here).1 counts.small
    exact ⟨given, .fetch (fetched?_getInstruction _ small) here .done,
      counts.of_memo (emitGet_ok run).memo⟩
  | inside _ _ ih => exact ih counts
  | ofClass _ _ ih => exact ih counts

/-! ## Dumps one after the other -/

/-- Dumps succeeded one after the other, each with objects as they were then. -/
inductive Dumps (cfg : Config H) (st : State H) : State H → Prop
  | none : Dumps cfg st st
  | next {st' st'' : State H} {s : Store H} {v : Value} (before : Dumps cfg st st')
      (run : dump cfg v { st' with store := s } = .ok () st'') : Dumps cfg st st''

/-- These notes are those of dumps one after the other: for each value its course of writing, between an
    announcement and a `STOP`. -/
inductive Account (cfg : Config H) (st : State H) : List Note → State H → Prop
  | none : Account cfg st [] st
  | next {st' st₁ st₂ st'' : State H} {notes walk : List Note} {s : Store H} {v : Value}
      (before : Account cfg st notes st')
      (run : dump cfg v { st' with store := s } = .ok () st'')
      (announced : Emitted { st' with store := s } st₁ cfg.announcement)
      (saved : save cfg cfg.limits.maxDepth true v st₁ = .ok () st₂)
      (course : Course cfg (.value v) st₁ walk st₂) (ended : Emitted st₂ st'' [⟨.stop, ()⟩]) :
      Account cfg st (notes ++ (cfg.announcement.map .plain ++ walk ++ [.plain ⟨.stop, ()⟩])) st''

omit [HostObject H] in
theorem Config.quiet_announcement (cfg : Config H) : ∀ i ∈ cfg.announcement, i.op.isQuiet = true := by
  unfold Config.announcement
  split
  · exact List.forall_mem_singleton.2 rfl
  · exact List.forall_mem_nil _

theorem account_of_dumps (h : Dumps cfg st st') (bare : st.frames.pending = none) :
    st'.frames.pending = none ∧ ∃ notes, Account cfg st notes st' := by
  induction h with
  | none => exact ⟨bare, [], .none⟩
  | @next st' st'' s v _ run ih =>
    obtain ⟨bare, notes, account⟩ := ih
    have bare₀ : ({ st' with store := s } : State H).frames.pending = none := bare
    obtain ⟨st₁, st₂, announced, saved, ended, bare'⟩ := dump_ok bare₀ run
    obtain ⟨walk, course⟩ := course_of_save saved
    exact ⟨bare', _, .next account run announced saved course ended⟩

theorem Account.wrote (h : Account cfg st notes st') : Wrote st st' (notes.map Note.instruction) := by
  induction h with
  | none => exact (Silent.refl _).wrote
  | @next st' _ _ _ _ _ s _ _ _ announced _ course ended ih =>
    have silent : Silent st' { st' with store := s } := ⟨rfl, rfl, rfl⟩
    have plain : ∀ is : List Instruction, (is.map Note.plain).map Note.instruction = is := fun is => by
      simp [Note.instruction, Function.comp_def]
    simp only [List.map_append, plain]
    exact ih.trans (silent.wrote.trans ((announced.wrote.trans course.wrote).trans ended.wrote))

theorem Account.numbers (steady : cfg.Steady) (h : Account cfg st notes st') (counts : st.Counts given) :
    ∃ given', Numbers given notes given' ∧ st'.Counts given' := by
  induction h with
  | none => exact ⟨given, .done, counts⟩
  | next _ _ announced _ course ended ih =>
    obtain ⟨given₁, before, counts₁⟩ := ih
    obtain ⟨given', walk, counts'⟩ := course.numbers steady (counts₁.of_memo announced.memo)
    have opening : Numbers given₁ (cfg.announcement.map .plain) given₁ :=
      .quiet cfg.quiet_announcement
    exact ⟨given', before.append ((opening.append walk).append (.plain rfl .done)),
      counts'.of_memo ended.memo⟩

/-- Since the memo was empty, dumps have given the numbers 0, 1, 2 and so on, each to an identity that
    had none, and have fetched every value and every class by the number that its identity had got. -/
theorem dumps_numbers (steady : cfg.Steady) (bare : st.frames.pending = none) (clear : st.memo = ∅)
    (h : Dumps cfg st st') :
    ∃ notes given, Account cfg st notes st' ∧ Wrote st st' (notes.map Note.instruction) ∧
      Numbers [] notes given ∧ given.Nodup ∧
      ∀ (a : Identity) (n : Nat), st'.memo[a]? = some n ↔ given[n]? = some a := by
  obtain ⟨-, notes, account⟩ := account_of_dumps h bare
  obtain ⟨given, numbers, counts⟩ := account.numbers steady (.empty clear)
  exact ⟨notes, given, account, account.wrote, numbers, numbers.nodup List.nodup_nil, counts.known⟩

/-- An empty list. -/
def listStore : Store Empty := ⟨#[.list #[]]⟩

/-- When the list is dumped again, it is fetched by its number. -/
theorem dumps_numbers_list :
    ∃ st' notes given, Dumps (shallow 2) (.ofSink listStore {} {}) st' ∧
      st'.frames.sink.written.toList =
        [0x80, 2, 0x5d, 0x71, 0, 0x2e, 0x80, 2, 0x68, 0, 0x2e] ∧
      Account (shallow 2) (.ofSink listStore {} {}) notes st' ∧
      Wrote (.ofSink listStore {} {}) st' (notes.map Note.instruction) ∧
      Numbers [] notes given ∧ given.Nodup ∧
      ∀ (a : Identity) (n : Nat), st'.memo[a]? = some n ↔ given[n]? = some a := by
  let log : List Instruction :=
    [⟨.proto, (2 : UInt8)⟩, ⟨.emptyList, ()⟩, ⟨.binPut, (0 : UInt8)⟩, ⟨.stop, ()⟩]
  have first : Drafts (dump (shallow 2) (.ref 0)) ⟨listStore, [], []⟩
      fun _ d => d = ⟨listStore, [(.object 0, 0)], log⟩ := by
    refine drafts_dump (by decide) (drafts_new rfl rfl rfl ?_)
    refine Drafts.bind (drafts_emit ?_)
    refine Drafts.bind (drafts_memoizeAs (by decide) rfl (drafts_emit ?_))
    exact drafts_appendItems rfl (by decide) (Drafts.pure rfl)
  have second : Drafts (dump (shallow 2) (.ref 0)) ⟨listStore, [(.object 0, 0)], log⟩
      fun _ d => d = ⟨listStore, [(.object 0, 0)],
        log ++ [⟨.proto, (2 : UInt8)⟩, ⟨.binGet, (0 : UInt8)⟩, ⟨.stop, ()⟩]⟩ := by
    exact drafts_dump (by decide) (drafts_known rfl rfl (drafts_emit rfl))
  obtain ⟨_, st₁, _, run, there, rfl⟩ := first _ (shows_ofSink listStore)
  obtain ⟨_, st', _, run', here, rfl⟩ := second _ there
  have store : st₁.store = listStore := there.store
  have same : { st₁ with store := listStore } = st₁ := by rw [← store]
  have dumped : Dumps (shallow 2) (.ofSink listStore {} {}) st' :=
    .next (s := listStore) (.next (s := listStore) .none run) (by rw [same]; exact run')
  have steady : (shallow 2).Steady := ⟨rfl, nofun⟩
  obtain ⟨notes, given, account⟩ := dumps_numbers steady rfl rfl dumped
  exact ⟨st', notes, given, dumped, here.written, account⟩

end ObjectStream.Encoder
