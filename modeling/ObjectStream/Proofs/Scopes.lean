import ObjectStream.Profile
import ObjectStream.Proofs.Bounds
import ObjectStream.Proofs.Steps
import ObjectStream.Proofs.Untouched

/-!
Scopes that close in order.

A run reports scopes that open and close. Which ones are open is told from the events alone
(`openAfter`), as long as only the innermost one closes. Between two traces the open scopes change from
some to others (`Trace.Nests`), whatever is open outside. The calls of a decoder close what they open,
and between two steps it has the scope of its frame open or none (`Decoder.State.scopes`). So every load
that returns, with a value or an error, and every dump closes its scopes in order (`scopes_close`), and
a profile that takes them in has no zone open between them.
-/

namespace ObjectStream

/-! ## Open scopes -/

/-- The scopes that are open behind events, innermost first; none if one closes that is not the innermost
    one. -/
def openAfter : List Scope → List Event → Option (List Scope)
  | scopes, [] => some scopes
  | scopes, .instruction .. :: rest => openAfter scopes rest
  | scopes, .enter scope .. :: rest => openAfter (scope :: scopes) rest
  | scope :: scopes, .exit closed _ :: rest => if closed = scope then openAfter scopes rest else none
  | [], .exit .. :: _ => none

theorem balanced_iff {scopes : List Scope} {events : List Event} :
    Balanced scopes events ↔ openAfter scopes events = some [] := by
  fun_induction openAfter scopes events with
  | case1 scopes => simp [Balanced]
  | case2 scopes _ _ _ rest ih => rw [Balanced, ih]
  | case3 scopes scope _ _ rest ih => rw [Balanced, ih]
  | case4 scopes scope _ rest ih => simp [Balanced, ih]
  | case5 scope scopes closed _ rest apart => simp [Balanced, apart]
  | case6 => simp [Balanced]

theorem openAfter_append (scopes : List Scope) (events events' : List Event) :
    openAfter scopes (events ++ events') =
      (openAfter scopes events).bind fun scopes => openAfter scopes events' := by
  fun_induction openAfter scopes events with
  | case1 => rfl
  | case2 scopes _ _ _ rest ih => rw [List.cons_append, openAfter, ih]
  | case3 scopes scope _ _ rest ih => rw [List.cons_append, openAfter, ih]
  | case4 scopes scope _ rest ih => rw [List.cons_append, openAfter, if_pos rfl, ih]
  | case5 scope scopes closed _ rest apart =>
    rw [List.cons_append, openAfter, if_neg apart, Option.bind_none]
  | case6 => rfl

namespace Trace

variable {t t' t'' : Trace} {scopes scopes' scopes'' : List Scope}

/-- The scope, if the observer wants it. -/
def shown (t : Trace) (scope : Scope) : List Scope := if t.mask.hasScope scope then [scope] else []

/-- Between the traces events were recorded that change the scopes which are open, innermost first, and
    leave those outside as they are. -/
structure Nests (scopes scopes' : List Scope) (t t' : Trace) : Prop where
  observer : t'.observer = t.observer
  recorded : ∃ events, t'.events.toList = t.events.toList ++ events ∧
    ∀ outer, openAfter (scopes ++ outer) events = some (scopes' ++ outer)

theorem Nests.refl (scopes : List Scope) (t : Trace) : Nests scopes scopes t t :=
  ⟨rfl, [], (List.append_nil _).symm, fun _ => rfl⟩

theorem Nests.trans (h : Nests scopes scopes' t t') (h' : Nests scopes' scopes'' t' t'') :
    Nests scopes scopes'' t t'' := by
  obtain ⟨observer, events, recorded, follows⟩ := h
  obtain ⟨observer', events', recorded', follows'⟩ := h'
  refine ⟨observer'.trans observer, events ++ events', ?_, fun outer => ?_⟩
  · rw [recorded', recorded, List.append_assoc]
  · rw [openAfter_append, follows, Option.bind_some, follows']

/-- What happens inside open scopes. -/
theorem Nests.inside (h : Nests scopes scopes' t t') (outer : List Scope) :
    Nests (scopes ++ outer) (scopes' ++ outer) t t' := by
  obtain ⟨observer, events, recorded, follows⟩ := h
  refine ⟨observer, events, recorded, fun outer' => ?_⟩
  rw [List.append_assoc, List.append_assoc]
  exact follows (outer ++ outer')

theorem Nests.shown (h : Nests scopes scopes' t t') (scope : Scope) : t'.shown scope = t.shown scope := by
  rw [Trace.shown, Trace.shown, mask, mask, h.observer]

theorem nests_instruction (t : Trace) (offset : Nat) (op : Opcode) (depth : Nat) :
    Nests [] [] t (t.instruction offset op depth) := by
  unfold instruction
  split
  · exact ⟨rfl, [.instruction offset op depth], Array.toList_push, fun _ => rfl⟩
  · exact .refl [] t

theorem nests_enter (t : Trace) (scope : Scope) (label : String) (offset : Nat) :
    Nests [] (t.shown scope) t (t.enter scope label offset) := by
  unfold enter Trace.shown
  split
  · exact ⟨rfl, [.enter scope label offset], Array.toList_push, fun _ => rfl⟩
  · exact .refl [] t

theorem nests_exit (t : Trace) (scope : Scope) (offset : Nat) :
    Nests (t.shown scope) [] t (t.exit scope offset) := by
  unfold exit Trace.shown
  split
  · refine ⟨rfl, [.exit scope offset], Array.toList_push, fun outer => ?_⟩
    rw [List.singleton_append, openAfter, if_pos rfl, openAfter, List.nil_append]
  · exact .refl [] t

end Trace

/-! ## Reading -/

namespace Decoder

variable {H α β : Type}

/-- The scopes that a decoder has open between its steps. -/
def State.scopes (st : State H) : List Scope := if st.frameOpen then st.trace.shown .frame else []

/-- What a decoder has reported. -/
def State.reports (st : State H) : Trace × Bool := (st.trace, st.frameOpen)

theorem aloof_reports : Aloof (State.reports (H := H)) := fun _ _ _ trace frameOpen => by
  rw [State.reports, trace, frameOpen, State.reports]

/-- The scopes that are open change in order. A run that never returns may leave more of them open. -/
def scoping : Discipline H where
  Good _ := True
  Later st st' := Trace.Nests st.scopes st'.scopes st.trace st'.trace
  Knows _ _ := True
  Fits _ _ := True
  Breaks st e st' := (∃ scopes, Trace.Nests st.scopes scopes st.trace st'.trace) ∧
    (e ≠ .endless → Trace.Nests st.scopes st'.scopes st.trace st'.trace)

theorem scoping_lawful : (scoping : Discipline H).Lawful where
  refl st := .refl st.scopes st.trace
  trans h h' := h.trans h'
  breaks {st _} _ _ := ⟨⟨_, .refl st.scopes st.trace⟩, fun _ => .refl st.scopes st.trace⟩
  breaks_later later := fun ⟨⟨scopes, nests⟩, ends⟩ =>
    ⟨⟨scopes, later.trans nests⟩, fun returns => later.trans (ends returns)⟩
  knows_later _ _ := trivial

/-- The trace may change, if the scopes change in order. -/
theorem scoping_of_nests {x : Decode H α} {Q : α → State H → Prop} {st : State H}
    (all : ∀ a st', Q a st')
    (h : Trace.Nests st.scopes (behind (x st)).scopes st.trace (behind (x st)).trace) :
    scoping.Goes st x Q := by
  intro _
  cases run : x st with
  | ok a st' =>
    rw [run] at h
    exact ⟨trivial, h, all a st'⟩
  | error e st' =>
    rw [run] at h
    exact ⟨⟨_, h⟩, fun _ => h⟩

/-- What reports nothing opens and closes nothing. -/
theorem scoping_of_leaves {x : Decode H α} {Q : α → State H → Prop} (h : Leaves State.reports x)
    (all : ∀ a st, Q a st) (st : State H) : scoping.Goes st x Q := by
  obtain ⟨trace, frameOpen⟩ := Prod.mk.inj (h st)
  refine scoping_of_nests all ?_
  rw [State.scopes, State.scopes, trace, frameOpen]
  exact .refl _ _

/-- The host hands its failures back. -/
theorem endless_of_hosted {action : Action H α} {st st' : State H} {e : Error}
    (run : hosted action st = .error e st') : e = .endless := by
  simp only [hosted] at run
  cases acted : action st.store with
  | ok a store => rw [acted] at run; cases run
  | error e store => cases e <;> rw [acted] at run <;> cases run; rfl

/-- A call closes the scope that it has opened, also if it fails. -/
theorem scoping_reported {Q : Except String α → State H → Prop} (label : String)
    (action : Action H α) (all : ∀ outcome st, Q outcome st) (st : State H) :
    scoping.Goes st (reported label action) Q := by
  intro _
  let opened : State H := { st with trace := st.trace.enter .call label st.input.position }
  have enters := (st.trace.nests_enter .call label st.input.position).inside st.scopes
  rw [List.nil_append] at enters
  have entered : enterCall label st = .ok () opened := rfl
  rw [reported, bind_ok entered, bind_apply]
  obtain ⟨trace, frameOpen⟩ := Prod.mk.inj (leaves_hosted (fun _ => rfl) opened : _ = State.reports opened)
  cases run : hosted action opened with
  | error e st' =>
    rw [run] at trace
    have endless := endless_of_hosted run
    refine ⟨⟨st.trace.shown .call ++ st.scopes, ?_⟩, fun returns => absurd endless returns⟩
    rw [show st'.trace = opened.trace from trace]
    exact enters
  | ok outcome st' =>
    rw [run] at trace frameOpen
    let closed : State H := { st' with trace := st'.trace.exit .call st'.input.position }
    have same : st'.trace = opened.trace := trace
    have exits := (st'.trace.nests_exit .call st'.input.position).inside st.scopes
    rw [same, enters.shown] at exits
    have nests : Trace.Nests st.scopes st.scopes st.trace closed.trace := by
      rw [show closed.trace = opened.trace.exit .call st'.input.position from same ▸ rfl]
      exact enters.trans exits
    have scopes : closed.scopes = st.scopes := by
      rw [State.scopes, State.scopes, show closed.frameOpen = st.frameOpen from frameOpen, nests.shown]
    have later : scoping.Later st closed := by
      show Trace.Nests _ closed.scopes _ _
      rw [scopes]
      exact nests
    exact ⟨trivial, later, all _ _⟩

/-- A frame closes the one before it. -/
theorem scoping_openFrame (cfg : Config H) (length : Nat) (st : State H) :
    scoping.Safe st (openFrame cfg length) := by
  unfold openFrame
  refine scoping_lawful.goes_check (scoping_lawful.goes_bind (P := fun _ _ => True)
    (Discipline.Lawful.goes_get fun _ => scoping_lawful.goes_pure trivial) fun place st₁ _ _ => ?_)
  refine scoping_lawful.goes_bind
    (scoping_of_leaves (leaves_reading aloof_reports _) (fun _ _ => trivial) st₁) fun _ st₂ _ _ => ?_
  refine Discipline.Lawful.goes_modify fun _ => ⟨trivial, ?_, trivial⟩
  let between := if st₂.frameOpen then st₂.trace.exit .frame place else st₂.trace
  have closes : Trace.Nests st₂.scopes [] st₂.trace between := by
    rw [State.scopes]
    cases opened : st₂.frameOpen with
    | false => simp only [between, opened]; exact .refl _ _
    | true => simp only [between, opened, if_true]; exact st₂.trace.nests_exit .frame place
  have opens := between.nests_enter .frame "frame" place
  have nests := closes.trans opens
  show Trace.Nests _ (if true then _ else []) _ _
  rw [if_pos rfl, opens.shown]
  exact nests

/-- A step reports its instruction. -/
theorem scoping_readOpcode (st : State H) : scoping.Safe st readOpcode := by
  refine scoping_lawful.goes_bind (P := fun _ _ => True)
    (Discipline.Lawful.goes_get fun _ => scoping_lawful.goes_pure trivial) fun offset st₁ _ _ => ?_
  refine scoping_lawful.goes_bind
    (scoping_of_leaves (leaves_reading aloof_reports _) (fun _ _ => trivial) st₁) fun bs st₂ _ _ => ?_
  cases bs with
  | nil => exact scoping_of_leaves (.throw _) (fun _ _ => trivial) st₂
  | cons byte _ =>
    dsimp only
    cases Opcode.ofByte? byte with
    | none => exact scoping_lawful.goes_fail _
    | some op =>
      refine scoping_lawful.goes_bind (P := fun _ _ => True)
        (Discipline.Lawful.goes_modify fun _ => ⟨trivial, ?_, trivial⟩)
        fun _ _ _ _ => scoping_lawful.goes_pure trivial
      have nests := (st₂.trace.nests_instruction offset op st₂.height).inside st₂.scopes
      rw [List.nil_append] at nests
      show Trace.Nests _ (if st₂.frameOpen then Trace.shown _ .frame else []) _ _
      rw [nests.shown]
      exact nests

variable [HostObject H]

/-- Whatever the host does, scopes close in order. -/
theorem scoping_observed (cfg : Config H) : scoping.Observed cfg where
  toLawful := scoping_lawful
  atom _ := trivial
  held _ _ _ _ := trivial
  fits _ _ _ := trivial
  dict _ _ _ _ := trivial
  dict_endless {st _} _ _ _ := ⟨⟨_, .refl st.scopes st.trace⟩, fun _ => .refl st.scopes st.trace⟩
  frozenset _ _ _ _ := trivial
  frozenset_endless {st _} _ _ _ := ⟨⟨_, .refl st.scopes st.trace⟩, fun _ => .refl st.scopes st.trace⟩
  alloc _ := scoping_of_leaves (leaves_alloc fun _ => rfl) (fun _ _ => trivial) _
  push _ := scoping_of_leaves (leaves_push aloof_reports cfg _) (fun _ _ => trivial) _
  pop st op := scoping_of_leaves (leaves_pop aloof_reports op) (fun _ _ => trivial) st
  top st op := scoping_of_leaves (leaves_top op) (fun _ _ => trivial) st
  replaceTop op _ := scoping_of_leaves (leaves_replaceTop aloof_reports op _) (fun _ _ => trivial) _
  mark st := scoping_of_leaves (leaves_mark aloof_reports) (fun _ _ => trivial) st
  popMark st op := scoping_of_leaves (leaves_popMark aloof_reports op) (fun _ _ _ _ => trivial) st
  fetchMemo st id := scoping_of_leaves (leaves_fetchMemo aloof_reports cfg id) (fun _ _ => trivial) st
  putMemo st op id := scoping_of_leaves (leaves_putMemo aloof_reports cfg op id) (fun _ _ => trivial) st
  replaceMemo _ _ := scoping_of_leaves (leaves_replaceMemo aloof_reports _ _) (fun _ _ => trivial) _
  extend _ _ := scoping_of_leaves (.modify fun _ => rfl) (fun _ _ => trivial) _
  storeEntry _ _ _ := scoping_of_leaves (leaves_storeEntry _ _ fun _ _ => rfl) (fun _ _ => trivial) _
  addMember _ _ := scoping_of_leaves (leaves_addMember _ fun _ _ => rfl) (fun _ _ => trivial) _
  readExactly st op count :=
    scoping_of_leaves (leaves_readExactly aloof_reports op count) (fun _ _ => trivial) st
  readLine st op := scoping_of_leaves (leaves_readLine aloof_reports op) (fun _ _ => trivial) st
  readOpcode st := scoping_readOpcode st
  openFrame st length := scoping_openFrame cfg length st
  announce st p := scoping_of_leaves (leaves_announce aloof_reports p) (fun _ _ => trivial) st
  nextBuffer st := scoping_of_leaves (leaves_nextBuffer aloof_reports) (fun _ _ => trivial) st
  callSymbol label _ _ := scoping_reported label _ (fun _ _ _ _ => trivial) _
  create label _ _ := scoping_reported label _ (fun _ _ _ _ => trivial) _
  setState _ _ _ := scoping_reported _ _ (fun _ _ => trivial) _
  stateAction label _ _ _ := scoping_reported label _ (fun _ _ _ _ => trivial) _
  append _ _ _ := scoping_of_leaves (leaves_hosted fun _ => rfl) (fun _ _ => trivial) _
  setItem _ _ _ _ := scoping_of_leaves (leaves_hosted fun _ => rfl) (fun _ _ => trivial) _
  persistentLoad _ _ := scoping_of_leaves (leaves_hosted fun _ => rfl) (fun _ _ _ _ => trivial) _

omit [HostObject H] in
theorem nests_closeFrame (st : State H) : Trace.Nests st.scopes [] st.trace (closeFrame st).trace ∧
    (closeFrame st).frameOpen = false := by
  unfold closeFrame State.scopes
  split
  · exact ⟨st.trace.nests_exit .frame st.input.position, rfl⟩
  · next idle => exact ⟨.refl [] st.trace, Bool.eq_false_iff.2 idle⟩

/-- However far a run goes, what it has reported until then is nested. -/
theorem nests_run (cfg : Config H) (fuel : Nat) (st : State H) :
    (∃ scopes, Trace.Nests st.scopes scopes st.trace (behind (run cfg fuel st)).trace) ∧
    ((∀ st', run cfg fuel st ≠ .error .endless st') →
      Trace.Nests st.scopes (behind (run cfg fuel st)).scopes st.trace (behind (run cfg fuel st)).trace) := by
  have goes : scoping.Goes st (run cfg fuel) fun v st' => scoping.Knows st' v :=
    (scoping_observed cfg).goes_run fun _ st _ => ⟨⟨_, .refl _ _⟩, fun ends => absurd rfl ends⟩
  have ends := goes trivial
  cases ran : run cfg fuel st with
  | ok v st' =>
    rw [ran] at ends
    exact ⟨⟨_, ends.2.1⟩, fun _ => ends.2.1⟩
  | error e st' =>
    rw [ran] at ends
    exact ⟨ends.1, fun returns => ends.2 fun same => returns st' (same ▸ rfl)⟩

/-- A load that returns, with a value or with an error, has closed every scope that it opened. -/
theorem nests_load (cfg : Config H) {st : State H} (idle : st.frameOpen = false)
    (returns : ∀ st', load cfg st ≠ .error .endless st') :
    Trace.Nests [] [] st.trace (behind (load cfg st)).trace := by
  have none : st.begun.scopes = [] := if_neg (Bool.eq_false_iff.1 idle)
  obtain ⟨-, nests⟩ := nests_run cfg (st.input.remaining + 1) st.begun
  rw [none] at nests
  rw [behind_load]
  refine (nests fun st' endless => returns (closeFrame st') ?_).trans (nests_closeFrame _).1
  unfold load
  unfold State.begun at endless
  simp only [endless]

theorem idle_load (cfg : Config H) (st : State H) : (behind (load cfg st)).frameOpen = false := by
  rw [behind_load]
  exact (nests_closeFrame _).2

end Decoder

/-! ## Writing -/

namespace Encoder

variable {H α : Type}

/-- No scope is open before or after. -/
def Settles (st st' : State H) : Prop := Trace.Nests [] [] st.trace st'.trace

theorem across_settles {x : Encode H α} (h : ∀ st, Ends (Settles st) (x st)) :
    Across (Settles : State H → State H → Prop) x :=
  fun _ st' before => (h st').mono fun _ after => before.trans after

theorem across_framed (action : EStateM String Frame.Writer Unit) :
    Across (Settles : State H → State H → Prop) (framed action) := by
  refine across_settles fun st => ?_
  unfold framed
  dsimp only
  cases action st.frames <;> exact Trace.Nests.refl [] st.trace

theorem across_advance (op : Opcode) (length : Nat) :
    Across (Settles : State H → State H → Prop) (advance op length) :=
  across_settles fun st => st.trace.nests_instruction st.offset op st.depth

theorem across_emit (op : Opcode) (operand : op.shape.Operand) :
    Across (Settles : State H → State H → Prop) (emit op operand) :=
  .bind (across_framed _) fun _ => across_advance op _

theorem across_emitPut (p : Protocol) (id : Nat) :
    Across (Settles : State H → State H → Prop) (emitPut p id) := by
  unfold emitPut
  split
  · exact across_emit _ _
  split
  · split <;> exact across_emit _ _
  · exact across_emit _ _

/-- A description closes its scope, and the other steps of writing open none. -/
theorem stepwise_settles (p : Protocol) : Stepwise p (Settles : State H → State H → Prop) where
  refl st := .refl [] st.trace
  trans h h' := h.trans h'
  beside st _ _ := .refl [] st.trace
  described st label := by
    have enters := st.trace.nests_enter .reduce label st.offset
    have exits := (st.trace.enter .reduce label st.offset).nests_exit .reduce st.offset
    rw [enters.shown] at exits
    exact enters.trans exits
  write _ operand st := across_emit _ operand st st (.refl [] st.trace)
  writePayload {op} _ operand st := by
    have whole : Across (Settles : State H → State H → Prop) (emitPayload op operand) := by
      unfold emitPayload
      dsimp only
      split
      · exact across_emit _ _
      · exact .bind (across_framed _) fun _ => across_advance op _
    exact whole st st (.refl [] st.trace)
  commit st := across_framed _ st st (.refl [] st.trace)
  number a st := by
    unfold memoizeAs
    rw [bind_apply, get_apply]
    dsimp only
    split
    · exact across_emitPut p _ _ _ (.refl [] st.trace)
    · exact Trace.Nests.refl [] st.trace
  fetch {_ _ n} _ st' since := by
    have get : Across (Settles : State H → State H → Prop) (emitGet p n) := by
      unfold emitGet
      split
      · split <;> exact across_emit _ _
      · exact across_emit _ _
    exact get _ st' since

/-- A dump that returns, with or without an error, has closed every scope that it opened. -/
theorem settles_dump [HostObject H] (cfg : Config H) (v : Value) (st : State H) :
    Ends (Settles st) (dump cfg v st) := by
  have steps : Stepwise cfg.protocol (Settles : State H → State H → Prop) := stepwise_settles _
  have rest : Across (Settles : State H → State H → Prop) (save cfg cfg.limits.maxDepth true v >>=
      fun _ => emit .stop () >>= fun _ => framed Frame.Writer.finish) :=
    .bind (steps.across_save _ true v) fun _ => .bind (across_emit _ _) fun _ => across_framed _
  have whole : Across (Settles : State H → State H → Prop) (dump cfg v) := by
    unfold dump
    refine .bind (across_settles fun st => Trace.Nests.refl [] st.trace) fun _ => ?_
    by_cases announced : 2 ≤ cfg.protocol.val
    · rw [if_pos announced]
      refine .bind (across_emit _ _) fun _ => ?_
      by_cases buffered : 4 ≤ cfg.protocol.val
      · rw [if_pos buffered]
        exact .bind (across_framed _) fun _ => rest
      · rw [if_neg buffered]
        exact rest
    · rw [if_neg announced, if_neg (by omega)]
      exact rest
  exact whole st st (.refl [] st.trace)

end Encoder

/-! ## Profiles -/

namespace Profile

variable {p : Profile} {scopes : List Scope}

/-- A profile has the zones of the scopes that are open. -/
theorem scopes_recordAll {events : List Event}
    (h : openAfter (p.zones.map Zone.scope) events = some scopes) :
    (p.recordAll events).zones.map Zone.scope = scopes := by
  induction events generalizing p with
  | nil => exact Option.some.inj h
  | cons event rest ih =>
    cases event with
    | instruction _ _ _ => exact ih h
    | enter scope name offset => exact ih h
    | exit scope offset =>
      cases zones : p.zones with
      | nil =>
        rw [zones] at h
        cases h
      | cons zone outer =>
        rw [zones, List.map_cons, openAfter] at h
        split at h
        · next same =>
          refine ih (p := p.exit scope) ?_
          rw [exit, zones]
          simpa only [same, if_true] using h
        · cases h

/-- Every scope that closes is that of the innermost zone. -/
theorem innermost_of_openAfter {before after : List Event} {scope : Scope} {offset : Nat}
    (h : openAfter (p.zones.map Zone.scope) (before ++ .exit scope offset :: after) = some scopes) :
    ∃ zone rest, (p.recordAll before).zones = zone :: rest ∧ zone.scope = scope := by
  rw [openAfter_append] at h
  obtain ⟨scopes', first, second⟩ := Option.bind_eq_some_iff.1 h
  have zones := scopes_recordAll first
  cases scopes' with
  | nil => cases second
  | cons innermost outer =>
    rw [openAfter] at second
    split at second
    · next same =>
      obtain ⟨zone, rest, here, kind, -⟩ := List.map_eq_cons_iff.1 zones
      exact ⟨zone, rest, here, kind.trans same.symm⟩
    · cases second

end Profile

/-- What a load or a dump that returns, with or without an error, reports to an observer of all scopes. -/
inductive Reports (H : Type) [HostObject H] (events : List Event) : Prop
  | load {cfg : Decoder.Config H} {st : Decoder.State H} (idle : st.frameOpen = false)
      (observed : st.trace.observer = some Profile.mask)
      (returns : ∀ st', Decoder.load cfg st ≠ .error .endless st')
      (reported : (behind (Decoder.load cfg st)).trace.events.toList = st.trace.events.toList ++ events)
  | dump {cfg : Encoder.Config H} {v : Value} {st : Encoder.State H}
      (observed : st.trace.observer = some Profile.mask)
      (returns : ∀ st', Encoder.dump cfg v st ≠ .error .endless st')
      (reported : (behind (Encoder.dump cfg v st)).trace.events.toList = st.trace.events.toList ++ events)

variable {H : Type}

theorem Encoder.Ends.behind {α : Type} {Q : State H → Prop} {r : EStateM.Result Error (State H) α}
    (h : Ends Q r) (returns : ∀ st', r ≠ .error .endless st') : Q (ObjectStream.behind r) := by
  cases r with
  | ok a st => exact h
  | error e st =>
    cases e with
    | endless => exact absurd rfl (returns st)
    | _ => exact h

variable [HostObject H]

theorem Reports.closed {events : List Event} (h : Reports H events) : openAfter [] events = some [] := by
  have alike {t t' : Trace} (nests : Trace.Nests [] [] t t')
      (same : t'.events.toList = t.events.toList ++ events) : openAfter [] events = some [] := by
    obtain ⟨-, recorded, here, follows⟩ := nests
    obtain rfl := List.append_cancel_left (same.symm.trans here)
    exact follows []
  cases h with
  | load idle _ returns reported => exact alike (Decoder.nests_load _ idle returns) reported
  | dump _ returns reported => exact alike ((Encoder.settles_dump _ _ _).behind returns) reported

theorem closed_of_reports {calls : List (List Event)} (all : ∀ events ∈ calls, Reports H events) :
    openAfter [] calls.flatten = some [] := by
  induction calls with
  | nil => rfl
  | cons events rest ih =>
    rw [List.flatten_cons, openAfter_append, (all events (List.mem_cons_self ..)).closed]
    exact ih fun events mem => all events (List.mem_cons_of_mem _ mem)

/-- What a load has reported is nested at every time. When it returns, with a value or with an error, all
    scopes are closed, and no frame is left open for the next load; so they are when a dump returns. A
    profile that takes in what any loads and dumps report, one after the other, has no zone open behind
    each of them, and never closes a scope that is not that of its innermost zone. -/
theorem scopes_close :
    (∀ (cfg : Decoder.Config H) (st : Decoder.State H), st.frameOpen = false →
      (∀ fuel, ∃ events scopes, (behind (Decoder.run cfg fuel st.begun)).trace.events.toList =
        st.trace.events.toList ++ events ∧ openAfter [] events = some scopes) ∧
      (behind (Decoder.load cfg st)).frameOpen = false ∧
      ((∀ st', Decoder.load cfg st ≠ .error .endless st') →
        ∃ events, (behind (Decoder.load cfg st)).trace.events.toList =
          st.trace.events.toList ++ events ∧ Balanced [] events)) ∧
    (∀ (cfg : Encoder.Config H) (v : Value) (st : Encoder.State H),
      (∀ st', Encoder.dump cfg v st ≠ .error .endless st') →
      ∃ events, (behind (Encoder.dump cfg v st)).trace.events.toList =
        st.trace.events.toList ++ events ∧ Balanced [] events) ∧
    ∀ calls : List (List Event), (∀ events ∈ calls, Reports H events) →
      ∀ p : Profile, p.zones = [] →
        (∀ n, (p.recordAll (calls.take n).flatten).depth = 0) ∧
        ∀ before scope offset after, calls.flatten = before ++ .exit scope offset :: after →
          ∃ zone rest, (p.recordAll before).zones = zone :: rest ∧ zone.scope = scope := by
  refine ⟨fun cfg st idle => ⟨fun fuel => ?_, Decoder.idle_load cfg st, fun returns => ?_⟩,
    fun cfg v st returns => ?_, fun calls all p none => ⟨fun n => ?_, ?_⟩⟩
  · obtain ⟨⟨scopes, -, events, recorded, follows⟩, -⟩ := Decoder.nests_run cfg fuel st.begun
    have open_ := follows []
    rw [show st.begun.scopes = [] from if_neg (Bool.eq_false_iff.1 idle)] at open_
    exact ⟨events, _, recorded, open_⟩
  · obtain ⟨-, events, recorded, follows⟩ := Decoder.nests_load cfg idle returns
    exact ⟨events, recorded, balanced_iff.2 (follows [])⟩
  · obtain ⟨-, events, recorded, follows⟩ := (Encoder.settles_dump cfg v st).behind returns
    exact ⟨events, recorded, balanced_iff.2 (follows [])⟩
  · have closed := closed_of_reports fun events mem => all events (List.mem_of_mem_take (i := n) mem)
    have zones := Profile.scopes_recordAll (p := p) (by rw [none]; exact closed)
    rw [Profile.depth, ← List.length_map Zone.scope, zones]
    rfl
  · intro before scope offset after split
    have closed := closed_of_reports all
    rw [split] at closed
    exact Profile.innermost_of_openAfter (p := p) (by rw [none]; exact closed)

/-- A decoder in front of two frames, with a profile as its observer. The second one creates an object of
    a class, and then one of `None`, which is no class. -/
def framedCalls : Decoder.State Empty :=
  .ofSource .empty
    (.ofBytes [0x80, 4, 0x95, 19, 0, 0, 0, 0, 0, 0, 0, 0x8c, 8, 0x62, 0x75, 0x69, 0x6c, 0x74, 0x69, 0x6e,
      0x73, 0x8c, 6, 0x6f, 0x62, 0x6a, 0x65, 0x63, 0x74, 0x93, 0x95, 6, 0, 0, 0, 0, 0, 0, 0, 0x29, 0x81,
      0x4e, 0x29, 0x81, 0x2e]) none { observer := some Profile.mask }

def seededReader : Decoder.Config Empty :=
  { registry := .seeded 0, host := (Registry.seeded 0 : Registry Empty).host }

/-- What the load of the two frames reports, which fails. -/
def framedCallsReports : List Event :=
  [.enter .frame "frame" 11, .exit .frame 39, .enter .frame "frame" 39, .enter .call "object" 41,
    .exit .call 41, .enter .call "NoneType" 44, .exit .call 44, .exit .frame 44]

theorem scopes_close_framedCalls :
    (behind (Decoder.load seededReader framedCalls)).trace.events.toList = framedCallsReports ∧
      (∀ v st', Decoder.load seededReader framedCalls ≠ .ok v st') ∧ Balanced [] framedCallsReports ∧
      (({} : Profile).recordAll framedCallsReports).depth = 0 := by
  have reported : (behind (Decoder.load seededReader framedCalls)).trace.events.toList =
      framedCallsReports := by decide +kernel
  have fails : (match Decoder.load seededReader framedCalls with
    | .error (.decode _) _ => true
    | _ => false) = true := by decide +kernel
  have returns (st' : Decoder.State Empty) :
      Decoder.load seededReader framedCalls ≠ .error .endless st' := by
    intro same
    rw [same] at fails
    cases fails
  obtain ⟨loads, -, profiles⟩ := scopes_close (H := Empty)
  obtain ⟨-, -, closes⟩ := loads seededReader framedCalls rfl
  obtain ⟨events, recorded, balanced⟩ := closes returns
  have same : framedCallsReports = events := reported.symm.trans recorded
  have reports : ∀ events ∈ [framedCallsReports], Reports Empty events := by
    intro events mem
    rw [List.mem_singleton.1 mem]
    exact .load rfl rfl returns reported
  obtain ⟨depths, -⟩ := profiles [framedCallsReports] reports {} rfl
  refine ⟨reported, fun v st' same => ?_, same ▸ balanced, depths 1⟩
  rw [same] at fails
  cases fails

end ObjectStream
