import ObjectStream.Proofs.Atoms
import ObjectStream.Proofs.Ledger
import ObjectStream.Proofs.Sequence

/-!
References to what is stored elsewhere.

Instructions recall an id if they push what is found under it and do nothing else (`Recalls`). A list
of instructions refers to ids (`References`) if it consists of instructions that look nothing up and of
others that recall the ids, in order. A decoder whose hook notes the ids that it is asked for notes
exactly these when it carries the list out (`References.noted`), and so does every load of it that
returns (`noted_of_loads`).
-/

namespace ObjectStream

namespace Decoder

variable {H : Type} {cfg : Config H} {L : Ledger H}

/-- The hook notes the ids under which it finds something. -/
def Config.Notes (cfg : Config H) (L : Ledger H) : Prop :=
  ∀ hook, cfg.persistentLoad = some hook → ∀ pid s w s', hook pid s = .ok w s' →
    L.read s' = L.read s ++ [pid]

theorem leaves_height_persistentLoad (cfg : Config H) (pid : Value) :
    Leaves State.height (persistentLoad cfg pid) := by
  unfold persistentLoad
  cases cfg.persistentLoad with
  | none => exact leaves_fail _
  | some hook =>
    refine .bind (leaves_hosted fun _ => rfl) fun outcome => ?_
    cases outcome with
    | ok v => exact .pure v
    | error text => exact leaves_fail _

/-- What is found under an id was asked for, and nothing else was. -/
theorem noted_of_persistentLoad {st st' : State H} {pid w : Value} (notes : cfg.Notes L)
    (run : persistentLoad cfg pid st = .ok w st') : st'.noted L = st.noted L ++ [pid] := by
  unfold persistentLoad at run
  cases hooked : cfg.persistentLoad with
  | none => rw [hooked] at run; cases run
  | some hook =>
    rw [hooked] at run
    obtain ⟨outcome, st₁, asked, answered⟩ := bind_eq_ok run
    simp only [hosted] at asked
    cases acted : hook pid st.store with
    | error e store => rw [acted] at asked; cases e <;> cases asked; cases answered
    | ok v store =>
      rw [acted] at asked
      cases asked
      cases answered
      exact notes hook hooked pid _ _ _ acted

variable [HostObject H] {is js : List Instruction} {ids ids' : List Value} {st st' : State H}
  {pid : Value}

/-- The instructions push what is found under the id, and that is all they do. -/
structure Recalls (cfg : Config H) (is : List Instruction) (pid : Value) : Prop where
  ordinary : ∀ i ∈ is, i.Ordinary
  run : ∀ st st', executeAll cfg is st = .ok () st' ↔
    (do push cfg (← persistentLoad cfg pid)) st = .ok () st'

theorem recalls_line {line : Bytes} {text : String} (fits : 0x0a ∉ line)
    (spelled : Encoding.ascii.decode? line = some text) :
    Recalls cfg [⟨.persId, line⟩] (.str text) where
  ordinary := List.forall_mem_singleton.2 (.of fits rfl)
  run st st' := by
    have same : executeAll cfg [⟨.persId, line⟩] = (do push cfg (← persistentLoad cfg (.str text))) := by
      show (execute cfg .persId line >>= fun _ => pure ()) = _
      simp only [bind_pure_unit, execute, persistentLineValue, spelled, Decoder.spelled, pure_bind]
    rw [same]

/-- The id is pushed and popped again, which takes no more room than what is found under it. -/
theorem recalls_operand {i : Instruction} (utters : Utters cfg i pid) :
    Recalls cfg [i, ⟨.binPersId, ()⟩] pid where
  ordinary := List.forall_mem_cons.2 ⟨utters.ordinary, List.forall_mem_singleton.2 (.of trivial rfl)⟩
  run st st' := by
    have same : executeAll cfg [i, ⟨.binPersId, ()⟩] = (do
        push cfg pid
        push cfg (← persistentLoad cfg (← pop .binPersId))) := by
      show (execute cfg i.op i.operand >>= fun _ => (execute cfg .binPersId () >>= fun _ => pure ())) = _
      rw [utters.run, bind_pure_unit]
      rfl
    rw [same]
    by_cases full : cfg.limits.maxStack ≤ st.height
    · have refused : ∀ st₁ : State H, st₁.height = st.height → ∀ v st', push cfg v st₁ ≠ .ok () st' := by
        intro st₁ same v st'
        simp only [push, bind_apply, get_apply, same, if_pos full]
        intro same
        cases same
      refine ⟨fun run => ?_, fun run => ?_⟩
      · obtain ⟨_, st₁, pushed, -⟩ := bind_eq_ok run
        exact absurd pushed (refused st rfl pid st₁)
      · obtain ⟨w, st₁, found, pushed⟩ := bind_eq_ok run
        have same := leaves_height_persistentLoad cfg pid st
        rw [found] at same
        exact absurd pushed (refused st₁ same w st')
    · have pushed : push cfg pid st = .ok () { st with stack := st.stack.push pid } := by
        simp only [push, bind_apply, get_apply, if_neg full]
        rfl
      have popped : pop .binPersId { st with stack := st.stack.push pid } = .ok pid st := by
        simp only [pop, bind_apply, get_apply, Array.back?_push]
        show EStateM.Result.ok pid { st with stack := (st.stack.push pid).pop } = _
        rw [Array.pop_push]
      rw [bind_ok pushed, bind_ok popped]

/-- The instructions look up these ids, one after the other. -/
inductive References (cfg : Config H) : List Instruction → List Value → Prop
  | nil : References cfg [] []
  | apart {i : Instruction} {is : List Instruction} {ids : List Value} (ordinary : i.Ordinary)
      (other : i.op.looksUp = false) (rest : References cfg is ids) : References cfg (i :: is) ids
  | utter {i : Instruction} {is : List Instruction} {ids : List Value} {v : Value}
      (utters : Utters cfg i v) (rest : References cfg is ids) : References cfg (i :: is) ids
  | ask {js is : List Instruction} {pid : Value} {ids : List Value} (recalls : Recalls cfg js pid)
      (rest : References cfg is ids) : References cfg (js ++ is) (pid :: ids)

namespace References

theorem append (h : References cfg is ids) (h' : References cfg js ids') :
    References cfg (is ++ js) (ids ++ ids') := by
  induction h with
  | nil => exact h'
  | apart ordinary other _ ih => exact .apart ordinary other ih
  | utter utters _ ih => exact .utter utters ih
  | ask recalls _ ih => rw [List.append_assoc]; exact .ask recalls ih

theorem ordinary (h : References cfg is ids) : ∀ i ∈ is, i.Ordinary := by
  induction h with
  | nil => exact List.forall_mem_nil _
  | apart ordinary _ _ ih => exact List.forall_mem_cons.2 ⟨ordinary, ih⟩
  | utter utters _ ih => exact List.forall_mem_cons.2 ⟨utters.ordinary, ih⟩
  | ask recalls _ ih => exact List.forall_mem_append.2 ⟨recalls.ordinary, ih⟩

/-- The ids are noted in the order in which they are looked up. -/
theorem noted (h : References cfg is ids) (spares : L.Spares cfg) (notes : cfg.Notes L)
    (run : executeAll cfg is st = .ok () st') : st'.noted L = st.noted L ++ ids := by
  induction h generalizing st with
  | nil =>
    cases run
    exact (List.append_nil _).symm
  | @apart i is ids _ other _ ih =>
    obtain ⟨_, st₁, first, rest⟩ := bind_eq_ok (show (execute cfg i.op i.operand >>= fun _ =>
      executeAll cfg is) st = .ok () st' from run)
    rw [ih rest, noted_of_execute spares other first]
  | @utter i is ids v utters _ ih =>
    obtain ⟨_, st₁, first, rest⟩ := bind_eq_ok (show (execute cfg i.op i.operand >>= fun _ =>
      executeAll cfg is) st = .ok () st' from run)
    have same := leaves_push (aloof_noted L) cfg v st
    rw [← utters.run, first] at same
    rw [ih rest]
    exact congrArg (· ++ ids) same
  | ask recalls _ ih =>
    rw [executeAll_append] at run
    obtain ⟨_, st₁, first, rest⟩ := bind_eq_ok run
    obtain ⟨w, st₂, found, pushed⟩ := bind_eq_ok ((recalls.run st st₁).1 first)
    have same := leaves_push (aloof_noted L) cfg w st₂
    rw [pushed] at same
    rw [ih rest, show st₁.noted L = st₂.noted L from same, noted_of_persistentLoad notes found,
      List.append_assoc]
    rfl

end References

/-- A load that returns has asked for the ids that its stream refers to, in order. -/
theorem noted_of_loads {base base' : Store H} {bytes : Bytes} {w : Value}
    (refers : References cfg is ids) (spares : L.Spares cfg) (notes : cfg.Notes L)
    (spelled : Spells (is ++ [⟨.stop, ()⟩]) bytes)
    (word : bytes.length < 2 ^ 64) (bounded : bytes.length ≤ cfg.limits.maxFrameLength)
    (loaded : loads cfg base bytes = (.ok w, base')) : L.read base' = L.read base ++ ids := by
  obtain ⟨st, rfl, executed⟩ := executeAll_of_loads refers.ordinary spelled word bounded loaded
  exact refers.noted spares notes executed

end Decoder

end ObjectStream
