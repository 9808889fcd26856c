import ObjectStream.Proofs.Bounds
import ObjectStream.Proofs.Guards
import ObjectStream.Proofs.Running

/-!
Instructions one after the other.

A run carries out the instructions of its stream one after the other, and fails as one of them does
(`run_executeAll`). So a load that returns has carried them out, from its first state on
(`executeAll_of_loads`), and a load returns whose instructions are carried out and leave a value
(`loads_of_executeAll`). The frames around them do not matter, and looser limits change no load that
returns (`loads_within`).
-/

namespace ObjectStream.Decoder

variable {H : Type} [HostObject H] {cfg : Config H} {st st' : State H} {is js : List Instruction}

/-- Carries instructions out, one after the other. -/
def executeAll (cfg : Config H) (is : List Instruction) : Decode H Unit :=
  is.forM fun i => execute cfg i.op i.operand

theorem executeAll_append (cfg : Config H) (is js : List Instruction) :
    executeAll cfg (is ++ js) = (executeAll cfg is >>= fun _ => executeAll cfg js) := by
  induction is with
  | nil => rfl
  | cons i is ih =>
    show (execute cfg i.op i.operand >>= fun _ => executeAll cfg (is ++ js)) =
      (execute cfg i.op i.operand >>= fun _ => executeAll cfg is) >>= fun _ => executeAll cfg js
    rw [ih, bind_assoc]

theorem Blind.executeAll (ordinary : ∀ i ∈ is, i.Ordinary) : Blind (executeAll cfg is) := by
  induction is with
  | nil => exact .pure ()
  | cons i is ih =>
    obtain ⟨first, rest⟩ := List.forall_mem_cons.1 ordinary
    exact .bind (.execute i.op i.operand first.not_frame) fun _ => ih rest

/-- The `STOP` hands back the top of the stack and leaves the objects. -/
theorem step_stop_ok {next later : Bytes} {found : Option Value}
    (place : st.input.At (Instruction.bytes ⟨.stop, ()⟩ ++ next) later)
    (stepped : step cfg st = .ok found st') : found.isSome ∧ st'.store = st.store := by
  obtain ⟨r, trace, read, -⟩ := readOpcode_ok .stop place
  rw [step, bind_ok read, if_pos rfl, map_apply] at stepped
  simp only [pop, bind_apply, get_apply] at stepped
  cases last : st.stack.back? with
  | none => rw [last] at stepped; cases stepped
  | some v => rw [last] at stepped; cases stepped; exact ⟨rfl, rfl⟩

/-- A run carries out what stands before the `STOP`, and then stands before it; or it fails as one of
    the instructions does. -/
theorem run_executeAll {rest : List Instruction} {fuel : Nat} (good : st.Bounded cfg.limits)
    (ordinary : ∀ i ∈ is, i.Ordinary) (ready : st.input.Ready (is ++ ⟨.stop, ()⟩ :: rest))
    (enough : st.input.remaining < fuel) (bounded : st.input.remaining ≤ cfg.limits.maxFrameLength)
    (word : st.input.remaining < 2 ^ 64) :
    (∃ st₁ fuel' s next later, executeAll cfg is st = .ok () st₁ ∧
        run cfg fuel st = run cfg (fuel' + 1) (st₁.under s) ∧
        s.input.At (Instruction.bytes ⟨.stop, ()⟩ ++ next) later) ∨
      ∃ e st₁ st', executeAll cfg is st = .error e st₁ ∧ run cfg fuel st = .error e st' := by
  induction is generalizing st fuel with
  | nil =>
    obtain ⟨fuel', s, continues, next, later, place, -⟩ :=
      run_ready cfg good.counted ready enough bounded word
    exact .inl ⟨st, fuel', s, next, later, rfl, continues.run, place⟩
  | cons i is ih =>
    obtain ⟨first, others⟩ := List.forall_mem_cons.1 ordinary
    obtain ⟨fuel', s, continues, next, later, place, after⟩ :=
      run_ready cfg good.counted ready enough bounded word
    have place : (st.under s).input.At (i.bytes ++ next) later := place
    have fewer := continues.passed.remaining
    obtain ⟨r, trace, place', stepped⟩ := step_ordinary cfg first (by omega) (by omega) place
    have length := place.remaining
    have some_bytes := List.length_pos_iff.2 i.bytes_ne_nil
    rw [List.length_append] at length
    rw [continues.run]
    -- the instruction does under this surface what it does under that of `st`
    have blind : Blind (execute cfg i.op i.operand) := .execute i.op i.operand first.not_frame
    obtain ⟨s', quiet, same⟩ := blind st ⟨r, s.frameOpen, trace⟩
    have safe := (bounding_observed cfg).goes_execute i.op i.operand good
    have whole : executeAll cfg (i :: is) st =
        (execute cfg i.op i.operand >>= fun _ => executeAll cfg is) st := rfl
    cases executed : execute cfg i.op i.operand st with
    | error e st₁ =>
      rw [executed] at same
      refine .inr ⟨e, st₁, _, ?_, run_failed stepped same⟩
      rw [whole, bind_apply, executed]
    | ok _ st₁ =>
      rw [executed] at same safe
      rw [run_executed stepped same, whole, bind_ok executed]
      have left : s'.input.remaining = next.length + later.length := by
        rw [quiet.input]
        exact place'.remaining
      have enough' := continues.enough
      have left : (st₁.under s').input.remaining = next.length + later.length := left
      have good' : (st₁.under s').Bounded cfg.limits := ⟨safe.1.counted, safe.1.height, safe.1.memo⟩
      have ready' : (st₁.under s').input.Ready (is ++ ⟨.stop, ()⟩ :: rest) := by
        show s'.input.Ready _
        rw [quiet.input]
        exact after r place'
      have sighted : Blind (Decoder.executeAll cfg is) := .executeAll others
      have less : (st₁.under s').input.remaining < fuel' := by omega
      rcases ih good' others ready' less (by omega) (by omega) with
        ⟨st₂, fuel'', s₂, next', later', behind, ran, place₂⟩ | ⟨e, st₂, st', behind, ran⟩
      · obtain ⟨st₃, s₃, behind', rfl, -⟩ := sighted.ok_of_under behind
        exact .inl ⟨st₃, fuel'', s₂, next', later', behind', ran, place₂⟩
      · obtain ⟨s₃, -, same'⟩ := sighted st₁ s'
        rw [behind] at same'
        cases behind' : executeAll cfg is st₁ with
        | ok _ st₃ => rw [behind'] at same'; cases same'
        | error e' st₃ =>
          rw [behind'] at same'
          cases same'
          exact .inr ⟨e, st₃, st', rfl, ran⟩

section
variable {rest : List Instruction} {fuel : Nat} {w : Value} (good : st.Bounded cfg.limits)
  (ordinary : ∀ i ∈ is, i.Ordinary) (ready : st.input.Ready (is ++ ⟨.stop, ()⟩ :: rest))
  (enough : st.input.remaining < fuel) (bounded : st.input.remaining ≤ cfg.limits.maxFrameLength)
  (word : st.input.remaining < 2 ^ 64)
include good ordinary ready enough bounded word

/-- A run that returns has carried out what stands before the `STOP`. -/
theorem executeAll_of_run (ran : run cfg fuel st = .ok w st') :
    ∃ st₁, executeAll cfg is st = .ok () st₁ ∧ st'.store = st₁.store := by
  rcases run_executeAll good ordinary ready enough bounded word with
    ⟨st₁, fuel', s, next, later, executed, continues, place⟩ | ⟨e, st₁, st'', -, fails⟩
  · rw [continues, run] at ran
    obtain ⟨found, st₂, stepped, last⟩ := bind_eq_ok ran
    have place : (st₁.under s).input.At _ _ := place
    obtain ⟨some_value, store⟩ := step_stop_ok place stepped
    cases found with
    | none => cases some_value
    | some v => cases last; exact ⟨st₁, executed, store⟩
  · rw [fails] at ran
    cases ran

/-- Where what stands before the `STOP` is carried out and leaves a value on top of the stack, the run
    hands that value back. -/
theorem run_of_executeAll {st₁ : State H} (executed : executeAll cfg is st = .ok () st₁)
    (top : st₁.stack.back? = some w) :
    ∃ st', run cfg fuel st = .ok w st' ∧ st'.store = st₁.store := by
  rcases run_executeAll good ordinary ready enough bounded word with
    ⟨st₂, fuel', s, next, later, executed', continues, place⟩ | ⟨e, st₂, st'', fails, -⟩
  · rw [executed] at executed'
    cases executed'
    have place : (st₁.under s).input.At _ _ := place
    obtain ⟨below, items⟩ := Array.back?_eq_some_iff.1 top
    have stack : (st₁.under s).machine.stack = below.toList ++ [w] := by
      show st₁.stack.toList = _
      rw [items, Array.toList_push]
    obtain ⟨st', stopped, machine, -⟩ := step_stop cfg place stack
    refine ⟨st', ?_, congrArg Machine.store machine⟩
    rw [continues, run, bind_ok stopped]
    rfl
  · rw [executed] at fails
    cases fails

end

section
variable {base base' : Store H} {bytes : Bytes} {w : Value}

/-- Looser limits change no load that returns. -/
theorem loads_within {loose : Limits} (le : cfg.limits ≤ loose)
    (loaded : loads cfg base bytes = (.ok w, base')) :
    loads (cfg.within loose) base bytes = (.ok w, base') := by
  unfold loads at loaded ⊢
  cases run : load cfg (.ofSource base (.ofBytes bytes) none {}) with
  | error e st' => rw [run] at loaded; cases loaded
  | ok v st' =>
    rw [run] at loaded
    rw [(Guarded.load le).eq_ok run]
    exact loaded

/-- There are limits that let every frame of a stream through. -/
theorem exists_framing (limits : Limits) (size : Nat) :
    ∃ loose : Limits, limits ≤ loose ∧ size ≤ loose.maxFrameLength :=
  ⟨{ limits with maxFrameLength := max limits.maxFrameLength size },
    ⟨Nat.le_refl _, Nat.le_refl _, Nat.le_refl _, Nat.le_max_left _ _⟩, Nat.le_max_right _ _⟩

section
variable (ordinary : ∀ i ∈ is, i.Ordinary) (spelled : Spells (is ++ [⟨.stop, ()⟩]) bytes)
  (word : bytes.length < 2 ^ 64) (bounded : bytes.length ≤ cfg.limits.maxFrameLength)
include ordinary spelled word bounded

/-- A load that returns has carried out the instructions of its stream. -/
theorem executeAll_of_loads (loaded : loads cfg base bytes = (.ok w, base')) :
    ∃ st, base' = st.store ∧
      executeAll cfg is (.ofSource base (.ofBytes bytes) none {}) = .ok () st := by
  let start : State H := .ofSource base (.ofBytes bytes) none {}
  have length : start.input.remaining = bytes.length := remaining_ofSource bytes
  unfold loads at loaded
  cases run : load cfg start with
  | error e st' => rw [run] at loaded; cases loaded
  | ok v st' =>
    rw [run] at loaded
    cases loaded
    obtain ⟨st'', ran, rfl⟩ := load_eq_ok run
    have good : start.Bounded cfg.limits := ⟨rfl, Nat.zero_le _, Nat.zero_le _⟩
    obtain ⟨st, executed, store⟩ := executeAll_of_run good ordinary
      (ready_ofSource spelled) (Nat.lt_succ_self _) (length ▸ bounded) (length ▸ word) ran
    refine ⟨st, ?_, executed⟩
    rw [← store]
    exact congrArg Machine.store (closeFrame_machine st'')

/-- A load whose instructions are carried out and leave a value on top of the stack returns it. -/
theorem loads_of_executeAll {st : State H}
    (executed : executeAll cfg is (.ofSource base (.ofBytes bytes) none {}) = .ok () st)
    (top : st.stack.back? = some w) : loads cfg base bytes = (.ok w, st.store) := by
  let start : State H := .ofSource base (.ofBytes bytes) none {}
  have length : start.input.remaining = bytes.length := remaining_ofSource bytes
  have good : start.Bounded cfg.limits := ⟨rfl, Nat.zero_le _, Nat.zero_le _⟩
  obtain ⟨st', ran, store⟩ := run_of_executeAll good ordinary (ready_ofSource spelled)
    (Nat.lt_succ_self _) (length ▸ bounded) (length ▸ word) executed top
  have ran : run cfg (start.input.remaining + 1)
      { start with stack := #[], marks := [], marked := 0, protocol := 0 } = .ok w st' := ran
  have loaded : load cfg start = .ok w (closeFrame st') := by rw [load, ran]
  rw [loads, loaded, ← store]
  exact congrArg (Prod.mk _) (congrArg Machine.store (closeFrame_machine st'))

end

end

end ObjectStream.Decoder
