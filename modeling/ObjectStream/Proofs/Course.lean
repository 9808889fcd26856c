import ObjectStream.Proofs.Nesting

/-!
Courses of writing.

Whatever an encoder is given, a run of it is made of a few kinds of moves: an instruction is written,
something gets a number or is fetched by the number it has, a frame is committed, and hooks change
objects. A `Course` lists what the moves of a successful run have written. It tells for each number on
whose account it was given or used: that of the value, or the class, that is being written there. A run
that fails has followed such moves up to one that failed (`Broken`). An action charts a subject if every
run of it is of this kind (`Charts`).
-/

namespace ObjectStream

/-- Whether the instruction neither fetches nor remembers. -/
def Opcode.isQuiet : Opcode → Bool
  | .put | .binPut | .longBinPut | .memoize | .get | .binGet | .longBinGet => false
  | _ => true

namespace Encoder

variable {H α β : Type}

/-! ## Moves -/

/-- What is being written. -/
inductive Subject where
  | value (v : Value)
  /-- The class of an instance. -/
  | ofClass (c : Class)

/-- What the memo knows the subject by. -/
def Subject.identity? : Subject → Option Identity
  | .value v => v.identity?.map .object
  | .ofClass c => some (.ofClass c.key)

/-- An instruction that was written, and on whose account if it has to do with numbers. -/
inductive Note where
  | plain (i : Instruction)
  | number (a : Identity) (i : Instruction)
  | fetch (a : Identity) (i : Instruction)

/-- The instruction that was written. -/
def Note.instruction : Note → Instruction
  | .plain i | .number _ i | .fetch _ i => i

/-- Nothing is stored elsewhere, and the hooks of classes take no object away. -/
structure Config.Steady (cfg : Config H) : Prop where
  plain : cfg.persistentId = none
  keeps : ∀ key getState, (cfg.host.hooks key).getState = some getState →
    ∀ id s, s.size ≤ (getState id s).2.size

section
variable [HostObject H]

/-- Some host object is described with a state and a callable that takes it. -/
def Config.HasSetters (cfg : Config H) : Prop :=
  ∃ id content action s r s', reduceHook cfg id content = some action ∧ action s = .ok r s' ∧
    r.state ≠ none ∧ r.stateSetter ≠ none

/-- The instruction is one of the protocol, or the pair that a callable takes a state in. -/
def Config.Allows (cfg : Config H) (op : Opcode) : Prop :=
  op.protocol ≤ cfg.protocol.val ∨ (op = .tuple2 ∧ cfg.HasSetters)

/-- What was written on the way from one state to the other, in order, while the subject was written. -/
inductive Course (cfg : Config H) : Subject → State H → List Note → State H → Prop
  | stay {s st} : Course cfg s st [] st
  | trans {s st st' st'' notes notes'} (h : Course cfg s st notes st')
      (h' : Course cfg s st' notes' st'') : Course cfg s st (notes ++ notes') st''
  /-- Hooks change objects, and the walk counts its depth. -/
  | beside {s st} (store : Store H) (depth : Nat) :
      Course cfg s st [] { st with store := store, depth := depth }
  /-- The host describes an object. -/
  | described {s st} (label : String) :
      Course cfg s st []
        { st with trace := (st.trace.enter .reduce label st.offset).exit .reduce st.offset }
  | commit {s st st'} (run : framed (Frame.Writer.commit false) st = .ok () st') :
      Course cfg s st [] st'
  | write {s st st'} {op : Opcode} {operand : op.shape.Operand} (quiet : op.isQuiet = true)
      (allowed : cfg.Allows op) (run : emit op operand st = .ok () st') :
      Course cfg s st [.plain ⟨op, operand⟩] st'
  | payload {s st st'} {op : Opcode} {operand : op.shape.Operand} (quiet : op.isQuiet = true)
      (allowed : cfg.Allows op) (run : emitPayload op operand st = .ok () st') :
      Course cfg s st [.plain ⟨op, operand⟩] st'
  /-- The subject gets the next number. -/
  | number {s st st'} {a : Identity} (own : s.identity? = some a)
      (new : cfg.Steady → st.memo[a]? = none) (run : memoizeAs cfg.protocol a st = .ok () st') :
      Course cfg s st [.number a (putInstruction cfg.protocol st.memo.size)] st'
  /-- The subject is fetched by the number it has. -/
  | fetch {s st st'} {a : Identity} {n : Nat} (own : s.identity? = some a)
      (known : st.memo[a]? = some n) (run : emitGet cfg.protocol n st = .ok () st') :
      Course cfg s st [.fetch a (getInstruction cfg.protocol n)] st'
  /-- Another value is written for the subject. -/
  | inside {s st st' notes} {room : Nat} {persistent : Bool} {v : Value}
      (run : save cfg room persistent v st = .ok () st')
      (course : Course cfg (.value v) st notes st') : Course cfg s st notes st'
  /-- Its class is written for an instance. -/
  | ofClass {s st st' notes} {room : Nat} {c : Class}
      (run : saveClass cfg (save cfg room true) c st = .ok () st')
      (course : Course cfg (.ofClass c) st notes st') : Course cfg s st notes st'

/-- A run was broken off behind some moves, by a move that failed or without one. -/
inductive Broken (cfg : Config H) : State H → State H → Prop
  | off {st} : Broken cfg st st
  | behind {s st st' st'' notes} (course : Course cfg s st notes st') (broken : Broken cfg st' st'') :
      Broken cfg st st''
  | commit {st st' e} (ends : e ≠ .endless)
      (run : framed (Frame.Writer.commit false) st = .error e st') : Broken cfg st st'
  | write {st st' e} {op : Opcode} {operand : op.shape.Operand} (ends : e ≠ .endless)
      (quiet : op.isQuiet = true) (run : emit op operand st = .error e st') : Broken cfg st st'
  | payload {st st' e} {op : Opcode} {operand : op.shape.Operand} (ends : e ≠ .endless)
      (quiet : op.isQuiet = true) (run : emitPayload op operand st = .error e st') : Broken cfg st st'
  | number {st st' e} {a : Identity} (ends : e ≠ .endless)
      (run : memoizeAs cfg.protocol a st = .error e st') : Broken cfg st st'
  | fetch {st st' e} {a : Identity} {n : Nat} (ends : e ≠ .endless)
      (known : st.memo[a]? = some n) (run : emitGet cfg.protocol n st = .error e st') :
      Broken cfg st st'

/-- A run that has ended was made of moves for the subject. -/
def Tracks (cfg : Config H) (s : Subject) (st : State H) : EStateM.Result Error (State H) α → Prop
  | .ok _ st' => ∃ notes, Course cfg s st notes st'
  | .error .endless _ => True
  | .error _ st' => Broken cfg st st'

/-- Every run of the action that ends is made of moves for the subject. -/
def Charts (cfg : Config H) (s : Subject) (x : Encode H α) : Prop :=
  ∀ st, Tracks cfg s st (x st)

/-! ## Runs -/

variable {cfg : Config H} {s : Subject} {st st' : State H}

theorem Tracks.of_error {e : Error} (h : e ≠ .endless → Broken cfg st st') :
    Tracks cfg s st (.error e st' : EStateM.Result Error (State H) α) := by
  cases e with
  | endless => trivial
  | _ => exact h nofun

theorem Tracks.bind {x : Encode H α} {f : α → Encode H β} (h : Tracks cfg s st (x st))
    (h' : ∀ a st', x st = .ok a st' → Tracks cfg s st' (f a st')) :
    Tracks cfg s st ((x >>= f) st) := by
  rw [bind_apply]
  cases run : x st with
  | error e st' =>
    rw [run] at h
    cases e <;> exact h
  | ok a st' =>
    rw [run] at h
    obtain ⟨notes, course⟩ := h
    have rest := h' a st' run
    show Tracks cfg s st (f a st')
    cases run' : f a st' with
    | ok b st'' =>
      rw [run'] at rest
      obtain ⟨notes', course'⟩ := rest
      exact ⟨_, course.trans course'⟩
    | error e st'' =>
      rw [run'] at rest
      cases e <;> first | trivial | exact .behind course rest

theorem Tracks.ite {c : Prop} [Decidable c] {x y : Encode H α} (h : c → Tracks cfg s st (x st))
    (h' : ¬c → Tracks cfg s st (y st)) : Tracks cfg s st ((if c then x else y) st) := by
  by_cases holds : c
  · rw [if_pos holds]
    exact h holds
  · rw [if_neg holds]
    exact h' holds

namespace Charts

theorem pure (a : α) : Charts cfg s (pure a : Encode H α) := fun _ => ⟨[], .stay⟩

theorem fail (cause : EncodeError) : Charts cfg s (fail cause : Encode H α) := fun _ => .off

theorem bind {x : Encode H α} {f : α → Encode H β} (h : Charts cfg s x)
    (h' : ∀ a, Charts cfg s (f a)) : Charts cfg s (x >>= f) :=
  fun st => .bind (h st) fun a st' _ => h' a st'

theorem ite {c : Prop} [Decidable c] {x y : Encode H α} (h : c → Charts cfg s x)
    (h' : ¬c → Charts cfg s y) : Charts cfg s (if c then x else y) :=
  fun st => .ite (fun holds => h holds st) fun fails => h' fails st

theorem get {f : State H → Encode H α} (h : ∀ st, Charts cfg s (f st)) :
    Charts cfg s (get >>= f) :=
  fun st => h st st

theorem optional {γ : Type} {item : Option γ} {f : γ → Encode H Unit}
    (h : ∀ a, item = some a → Charts cfg s (f a)) : Charts cfg s (item.forM f) := by
  cases item with
  | none => exact .pure ()
  | some a => exact h a rfl

theorem forM {γ : Type} {items : List γ} {f : γ → Encode H Unit}
    (h : ∀ item, Charts cfg s (f item)) : Charts cfg s (items.forM f) := by
  induction items with
  | nil => exact .pure ()
  | cons item rest ih => exact .bind (h item) fun _ => ih

end Charts

/-- Nothing about numbers is known yet of the subject. -/
def State.Unmet (st : State H) (s : Subject) : Prop :=
  ∀ a, s.identity? = some a → st.memo[a]? = none

theorem charts_write {op : Opcode} {operand : op.shape.Operand} (allowed : cfg.Allows op)
    (quiet : op.isQuiet = true) : Charts cfg s (emit op operand) := by
  intro st
  cases run : emit op operand st with
  | ok _ st' => exact ⟨_, .write quiet allowed run⟩
  | error e st' => exact .of_error fun ends => .write ends quiet run

theorem charts_emit {op : Opcode} {operand : op.shape.Operand} (legal : op.protocol ≤ cfg.protocol.val)
    (quiet : op.isQuiet = true) : Charts cfg s (emit op operand) :=
  charts_write (.inl legal) quiet

theorem charts_emitPayload {op : Opcode} {operand : op.shape.Operand}
    (legal : op.protocol ≤ cfg.protocol.val) (quiet : op.isQuiet = true) :
    Charts cfg s (emitPayload op operand) := by
  intro st
  cases run : emitPayload op operand st with
  | ok _ st' => exact ⟨_, .payload quiet (.inl legal) run⟩
  | error e st' => exact .of_error fun ends => .payload ends quiet run

theorem charts_emitTimes (count : Nat) {op : Opcode} {operand : op.shape.Operand}
    (legal : op.protocol ≤ cfg.protocol.val) (quiet : op.isQuiet = true) :
    Charts cfg s (emitTimes count op operand) := by
  induction count with
  | zero => exact .pure ()
  | succ count ih => exact .bind (charts_emit legal quiet) fun _ => ih

theorem charts_commit : Charts cfg s (framed (Frame.Writer.commit false)) := by
  intro st
  cases run : framed (Frame.Writer.commit false) st with
  | ok _ st' => exact ⟨_, .commit run⟩
  | error e st' => exact .of_error fun ends => .commit ends run

theorem charts_modify {f : State H → State H}
    (beside : ∀ st, ∃ store depth, f st = { st with store := store, depth := depth }) :
    Charts cfg s (modify f) := by
  intro st
  obtain ⟨store, depth, same⟩ := beside st
  exact ⟨[], (same ▸ .beside store depth : Course cfg s st [] (f st))⟩

theorem charts_alloc (cell : Cell H) : Charts cfg s (alloc cell) :=
  .get fun _ => .bind (charts_modify fun st => ⟨st.store.push cell, st.depth, rfl⟩) fun _ => .pure _

theorem charts_allocTuple (items : List Value) : Charts cfg s (allocTuple items) := by
  cases items with
  | nil => exact .pure _
  | cons first rest => exact charts_alloc _

theorem charts_allocNamed (module qualname : String) : Charts cfg s (allocNamed module qualname) :=
  charts_alloc _

/-! ## Numbers -/

theorem tracks_memoizeAs {a : Identity} (own : s.identity? = some a)
    (new : cfg.Steady → st.memo[a]? = none) : Tracks cfg s st (memoizeAs cfg.protocol a st) := by
  cases run : memoizeAs cfg.protocol a st with
  | ok _ st' => exact ⟨_, .number own new run⟩
  | error e st' => exact .of_error fun ends => .number ends run

theorem tracks_memoize {v : Value} (new : cfg.Steady → st.Unmet (.value v)) :
    Tracks cfg (.value v) st (memoize cfg.protocol v st) := by
  cases v with
  | ref id => exact tracks_memoizeAs rfl fun steady => new steady _ rfl
  | _ => exact ⟨[], .stay⟩

theorem tracks_emitGet {a : Identity} {n : Nat} (own : s.identity? = some a)
    (known : st.memo[a]? = some n) : Tracks cfg s st (emitGet cfg.protocol n st) := by
  cases run : emitGet cfg.protocol n st with
  | ok _ st' => exact ⟨_, .fetch own known run⟩
  | error e st' => exact .of_error fun ends => .fetch ends known run

/-- Something that was found is dropped first and then fetched. -/
theorem tracks_drop {x : Encode H Unit} {a : Identity} {n : Nat} (own : s.identity? = some a)
    (known : st.memo[a]? = some n) (drops : Charts cfg s x)
    (same : ∀ {st'}, x st = .ok () st' → st'.memo = st.memo) :
    Tracks cfg s st ((x >>= fun _ => emitGet cfg.protocol n) st) := by
  refine .bind (drops st) fun _ st' run => tracks_emitGet own ?_
  rw [same run]
  exact known

/-- Something that has just been made gets its number. -/
theorem tracks_made {v : Value} {x : Encode H Unit} (new : cfg.Steady → st.Unmet (.value v))
    (makes : Charts cfg (.value v) x) (same : ∀ {st'}, x st = .ok () st' → st'.memo = st.memo) :
    Tracks cfg (.value v) st ((x >>= fun _ => memoize cfg.protocol v) st) := by
  refine .bind (makes st) fun _ st' run => tracks_memoize fun steady a own => ?_
  rw [same run]
  exact new steady a own

/-- Behind a look-up the subject is known by its number, or it is unknown. -/
theorem tracks_memoized {a : Identity} {f : Option Nat → Encode H α}
    (known : ∀ n, st.memo[a]? = some n → Tracks cfg s st (f (some n) st))
    (new : st.memo[a]? = none → Tracks cfg s st (f none st)) :
    Tracks cfg s st ((memoized a >>= f) st) := by
  show Tracks cfg s st (f st.memo[a]? st)
  cases here : st.memo[a]? with
  | none => exact new here
  | some n => exact known n here

theorem tracks_memoizedValue {v : Value} {f : Option Nat → Encode H α}
    (known : ∀ a n, (Subject.value v).identity? = some a → st.memo[a]? = some n →
      Tracks cfg s st (f (some n) st))
    (new : st.Unmet (.value v) → Tracks cfg s st (f none st)) :
    Tracks cfg s st ((memoizedValue v >>= f) st) := by
  cases v with
  | ref id =>
    refine tracks_memoized (fun n here => known _ n rfl here) fun none => new fun a same => ?_
    cases same
    exact none
  | _ => exact new nofun

/-- A container gets its number as soon as it is there. -/
theorem tracks_opened {v : Value} {op : Opcode} {operand : op.shape.Operand} {rest : Encode H Unit}
    (new : cfg.Steady → st.Unmet (.value v)) (legal : op.protocol ≤ cfg.protocol.val)
    (quiet : op.isQuiet = true) (filled : Charts cfg (.value v) rest) :
    Tracks cfg (.value v) st
      ((do emit op operand; memoize cfg.protocol v; rest : Encode H Unit) st) := by
  rw [← bind_assoc]
  exact .bind (tracks_made new (charts_emit legal quiet) fun run => (emit_ok run).memo)
    fun _ st' _ => filled st'

/-- The containers of protocol 0 are made behind a mark. -/
theorem tracks_marked {v : Value} {op : Opcode} {operand : op.shape.Operand} {rest : Encode H Unit}
    (new : cfg.Steady → st.Unmet (.value v)) (legal : op.protocol ≤ cfg.protocol.val)
    (quiet : op.isQuiet = true) (filled : Charts cfg (.value v) rest) :
    Tracks cfg (.value v) st
      ((do emit .mark (); emit op operand; memoize cfg.protocol v; rest : Encode H Unit) st) := by
  refine .bind (charts_emit (Nat.zero_le _) rfl st) fun _ st₁ run => ?_
  refine tracks_opened (fun steady a own => ?_) legal quiet filled
  rw [(emit_ok run).memo]
  exact new steady a own

/-! ## What was written -/

theorem Course.wrote {notes : List Note} (h : Course cfg s st notes st') :
    Wrote st st' (notes.map Note.instruction) := by
  induction h with
  | stay => exact (Silent.refl _).wrote
  | trans _ _ ih ih' =>
    rw [List.map_append]
    exact ih.trans ih'
  | beside store depth => exact Silent.wrote ⟨rfl, rfl, rfl⟩
  | @described _ st label =>
    have reported := (Trace.Reported.enter st.trace .reduce label st.offset).trans
      (.exit _ .reduce st.offset)
    exact ⟨fun log held => by rwa [List.map_nil, List.append_nil], rfl, reported⟩
  | commit run => exact (commit_ok run).wrote
  | write _ _ run => exact (emit_ok run).wrote
  | payload _ _ run => exact (emitPayload_ok run).wrote
  | number _ _ run => exact (memoizeAs_emits run).2.2.2
  | fetch _ _ run => exact (emitGet_ok run).wrote
  | inside _ _ ih => exact ih
  | ofClass _ _ ih => exact ih

theorem Course.allowed {notes : List Note} (h : Course cfg s st notes st') :
    ∀ note ∈ notes, cfg.Allows note.instruction.op := by
  induction h with
  | trans _ _ ih ih' => exact List.forall_mem_append.2 ⟨ih, ih'⟩
  | write _ allowed => exact List.forall_mem_singleton.2 allowed
  | payload _ allowed => exact List.forall_mem_singleton.2 allowed
  | number => exact List.forall_mem_singleton.2 (.inl (putInstruction_protocol ..))
  | fetch => exact List.forall_mem_singleton.2 (.inl (getInstruction_protocol ..))
  | inside _ _ ih => exact ih
  | ofClass _ _ ih => exact ih
  | _ => exact List.forall_mem_nil _

end

end Encoder

end ObjectStream
