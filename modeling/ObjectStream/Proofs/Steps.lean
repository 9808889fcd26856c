import ObjectStream.Proofs.Coverage

/-!
Steps of writing.

A relation between states that holds across each kind of move of an encoder (`Stepwise`) holds across
the whole walk over a value (`across_save`), whether the walk succeeds or fails: a run of the walk is
made of such moves, up to one that may fail.
-/

namespace ObjectStream.Encoder

variable {H α β : Type}

/-- The run has ended in a state that satisfies the condition. Nothing is said of a run without end. -/
def Ends (Q : State H → Prop) : EStateM.Result Error (State H) α → Prop
  | .ok _ st => Q st
  | .error .endless _ => True
  | .error _ st => Q st

theorem Ends.mono {P Q : State H → Prop} {r : EStateM.Result Error (State H) α} (h : Ends P r)
    (hQ : ∀ st, P st → Q st) : Ends Q r := by
  cases r with
  | ok _ st => exact hQ st h
  | error e st =>
    cases e with
    | endless => trivial
    | _ => exact hQ st h

/-- The relation holds across every kind of step. -/
structure Stepwise (p : Protocol) (R : State H → State H → Prop) : Prop where
  refl (st : State H) : R st st
  trans {st st' st'' : State H} (h : R st st') (h' : R st' st'') : R st st''
  /-- Hooks change objects, and the walk counts its depth. -/
  beside (st : State H) (store : Store H) (depth : Nat) :
    R st { st with store := store, depth := depth }
  /-- The host describes an object. -/
  described (st : State H) (label : String) :
    R st { st with trace := (st.trace.enter .reduce label st.offset).exit .reduce st.offset }
  write {op : Opcode} (quiet : op.isQuiet = true) (operand : op.shape.Operand) (st : State H) :
    Ends (R st) (emit op operand st)
  writePayload {op : Opcode} (quiet : op.isQuiet = true) (operand : op.shape.Operand) (st : State H) :
    Ends (R st) (emitPayload op operand st)
  commit (st : State H) : Ends (R st) (framed (Frame.Writer.commit false) st)
  number (a : Identity) (st : State H) : Ends (R st) (memoizeAs p a st)
  /-- What had a number at an earlier state is fetched by this number. -/
  fetch {st : State H} {a : Identity} {n : Nat} (known : st.memo[a]? = some n) (st' : State H)
    (since : R st st') : Ends (R st) (emitGet p n st')

/-- The relation holds across every run of the action. -/
def Across (R : State H → State H → Prop) (x : Encode H α) : Prop :=
  ∀ st st', R st st' → Ends (R st) (x st')

theorem Across.bind {R : State H → State H → Prop} {x : Encode H α} {f : α → Encode H β}
    (h : Across R x) (h' : ∀ a, Across R (f a)) : Across R (x >>= f) := by
  intro st st' since
  have ends := h st st' since
  rw [bind_apply]
  cases run : x st' with
  | ok a st'' =>
    rw [run] at ends
    exact h' a st st'' ends
  | error e st'' =>
    rw [run] at ends
    cases e <;> exact ends

namespace Stepwise

variable {p : Protocol} {R : State H → State H → Prop} (steps : Stepwise p R)
include steps

theorem across {x : Encode H α} (h : ∀ st, Ends (R st) (x st)) : Across R x :=
  fun _ st' since => (h st').mono fun _ => steps.trans since

theorem across_emit {op : Opcode} {operand : op.shape.Operand} (quiet : op.isQuiet = true) :
    Across R (emit op operand) :=
  steps.across (steps.write quiet operand)

end Stepwise

/-! ## The walk -/

theorem Ends.ok {Q : State H → Prop} {x : EStateM.Result Error (State H) α} (h : Ends Q x) {a : α}
    {st : State H} (run : x = .ok a st) : Q st := by
  rw [run] at h
  exact h

theorem Ends.error {Q : State H → Prop} {x : EStateM.Result Error (State H) α} (h : Ends Q x)
    {e : Error} {st : State H} (ends : e ≠ .endless) (run : x = .error e st) : Q st := by
  rw [run] at h
  cases e with
  | endless => exact absurd rfl ends
  | _ => exact h

namespace Stepwise

variable [HostObject H] {cfg : Config H} {R : State H → State H → Prop}
  (steps : Stepwise cfg.protocol R) {s : Subject} {st st' : State H} {notes : List Note}
include steps

theorem of_course (h : Course cfg s st notes st') : R st st' := by
  induction h with
  | stay => exact steps.refl _
  | trans _ _ ih ih' => exact steps.trans ih ih'
  | beside store depth => exact steps.beside _ store depth
  | described label => exact steps.described _ label
  | commit run => exact (steps.commit _).ok run
  | write quiet _ run => exact (steps.write quiet _ _).ok run
  | payload quiet _ run => exact (steps.writePayload quiet _ _).ok run
  | number _ _ run => exact (steps.number _ _).ok run
  | fetch _ known run => exact (steps.fetch known _ (steps.refl _)).ok run
  | inside _ _ ih => exact ih
  | ofClass _ _ ih => exact ih

theorem of_broken (h : Broken cfg st st') : R st st' := by
  induction h with
  | off => exact steps.refl _
  | behind course _ ih => exact steps.trans (steps.of_course course) ih
  | commit ends run => exact (steps.commit _).error ends run
  | write ends quiet run => exact (steps.write quiet _ _).error ends run
  | payload ends quiet run => exact (steps.writePayload quiet _ _).error ends run
  | number ends run => exact (steps.number _ _).error ends run
  | fetch ends known run => exact (steps.fetch known _ (steps.refl _)).error ends run

/-- The relation holds across the walk over a value. -/
theorem across_save (room : Nat) (persistent : Bool) (v : Value) :
    Across R (save cfg room persistent v) := by
  refine steps.across fun st => ?_
  have tracks : Tracks cfg (.value v) st (save cfg room persistent v st) := charts_save room persistent v st
  cases run : save cfg room persistent v st with
  | ok a st' =>
    rw [run] at tracks
    obtain ⟨notes, course⟩ := tracks
    exact steps.of_course course
  | error e st' =>
    rw [run] at tracks
    cases e with
    | endless => trivial
    | _ => exact steps.of_broken tracks

end Stepwise

end ObjectStream.Encoder
