import ObjectStream.Proofs.Operands
import ObjectStream.Proofs.Writing

/-!
What instructions do not see.

A decoder has a surface: the bytes it reads from, and what it has reported. An action is blind if it
goes the same way under every surface, reads nothing and reports no instruction (`Blind`). Reading an
instruction and loading a frame work on the surface; everything else is blind (`Blind.execute`), with
one lemma for each function of the decoder. So the bytes decide which instructions are carried out, and
nothing about what they do.
-/

namespace ObjectStream.Decoder

variable {H α β : Type}

/-- Where the bytes of a decoder come from, and what was reported. -/
structure Surface where
  input : Frame.Reader
  frameOpen : Bool
  trace : Trace

/-- The surface of a decoder. -/
def State.surface (st : State H) : Surface := ⟨st.input, st.frameOpen, st.trace⟩

/-- The decoder with another surface. -/
def State.under (st : State H) (s : Surface) : State H :=
  { st with input := s.input, frameOpen := s.frameOpen, trace := s.trace }

theorem State.under_under (st : State H) (s s' : Surface) : (st.under s).under s' = st.under s' := rfl

/-- Closing a frame is seen on the surface only. -/
theorem closeFrame_under (st : State H) :
    ∃ s : Surface, s.input = st.input ∧ closeFrame st = st.under s := by
  unfold closeFrame
  split
  · exact ⟨⟨st.input, false, _⟩, rfl, rfl⟩
  · exact ⟨st.surface, rfl, rfl⟩

/-- The outcome of a run, with another surface of the decoder behind it. -/
def under (r : EStateM.Result Error (State H) α) (s : Surface) :
    EStateM.Result Error (State H) α :=
  match r with
  | .ok a st => .ok a (st.under s)
  | .error e st => .error e (st.under s)

/-- Nothing was read, and no instruction was reported. -/
structure Surface.Quiet (s s' : Surface) : Prop where
  input : s'.input = s.input
  frameOpen : s'.frameOpen = s.frameOpen
  reported : s.trace.Reported s'.trace []

namespace Surface.Quiet

variable {s s' s'' : Surface}

theorem refl (s : Surface) : s.Quiet s := ⟨rfl, rfl, .refl s.trace⟩

theorem trans (h : s.Quiet s') (h' : s'.Quiet s'') : s.Quiet s'' :=
  ⟨h'.input.trans h.input, h'.frameOpen.trans h.frameOpen, h.reported.trans h'.reported⟩

end Surface.Quiet

/-- The action goes the same way under every surface, and leaves it quiet. -/
def Blind (x : Decode H α) : Prop :=
  ∀ (st : State H) (s : Surface), ∃ s', s.Quiet s' ∧ x (st.under s) = under (x st) s'

namespace Blind

theorem quiet_ok {x : Decode H α} {st st' : State H} {a : α} (h : Blind x)
    (run : x st = .ok a st') : st.surface.Quiet st'.surface := by
  obtain ⟨s, quiet, same⟩ := h st st.surface
  rw [show st.under st.surface = st from rfl, run] at same
  injection same with _ same
  rwa [show st'.surface = s from congrArg State.surface same]

theorem quiet_error {x : Decode H α} {st st' : State H} {e : Error} (h : Blind x)
    (run : x st = .error e st') : st.surface.Quiet st'.surface := by
  obtain ⟨s, quiet, same⟩ := h st st.surface
  rw [show st.under st.surface = st from rfl, run] at same
  injection same with _ same
  rwa [show st'.surface = s from congrArg State.surface same]

/-- What succeeds under one surface succeeds under every other. -/
theorem ok_of_under {x : Decode H α} {st st' : State H} {s : Surface} {a : α} (h : Blind x)
    (run : x (st.under s) = .ok a st') :
    ∃ st'' s', x st = .ok a st'' ∧ st' = st''.under s' ∧ s'.input = s.input := by
  obtain ⟨s', quiet, same⟩ := h st s
  rw [run] at same
  cases run' : x st with
  | error e st'' => rw [run'] at same; cases same
  | ok b st'' =>
    rw [run'] at same
    cases same
    exact ⟨st'', s', rfl, rfl, quiet.input⟩

/-! ## Sequences -/

theorem pure (a : α) : Blind (pure a : Decode H α) := fun _ s => ⟨s, .refl s, rfl⟩

theorem throw (e : Error) : Blind (throw e : Decode H α) := fun _ s => ⟨s, .refl s, rfl⟩

theorem fail (cause : DecodeError) : Blind (fail cause : Decode H α) := .throw _

theorem bind {x : Decode H α} {f : α → Decode H β} (h : Blind x) (h' : ∀ a, Blind (f a)) :
    Blind (x >>= f) := by
  intro st s
  obtain ⟨s', quiet, first⟩ := h st s
  rw [bind_apply, bind_apply, first]
  cases x st with
  | error e st' => exact ⟨s', quiet, rfl⟩
  | ok a st' =>
    obtain ⟨s'', quiet', second⟩ := h' a st' s'
    exact ⟨s'', quiet.trans quiet', second⟩

theorem map {x : Decode H α} (f : α → β) (h : Blind x) : Blind (f <$> x) := by
  intro st s
  obtain ⟨s', quiet, run⟩ := h st s
  refine ⟨s', quiet, ?_⟩
  rw [map_apply, map_apply, run]
  cases x st <;> rfl

/-- An action that first looks at the state, but not at its surface. -/
theorem get {f : State H → Decode H α} (same : ∀ st s, f (st.under s) = f st)
    (h : ∀ st, Blind (f st)) : Blind (get >>= f) := by
  intro st s
  obtain ⟨s', quiet, run⟩ := h st st s
  refine ⟨s', quiet, ?_⟩
  show f (st.under s) (st.under s) = _
  rw [same]
  exact run

theorem modify {f : State H → State H} (same : ∀ st s, f (st.under s) = (f st).under s) :
    Blind (modify f : Decode H Unit) := fun st s => ⟨s, .refl s, by
  show EStateM.Result.ok () (f (st.under s)) = _
  rw [same]
  rfl⟩

theorem ite {c : Prop} [Decidable c] {x y : Decode H α} (h : Blind x) (h' : Blind y) :
    Blind (if c then x else y) := by
  by_cases holds : c
  · rwa [if_pos holds]
  · rwa [if_neg holds]

/-- An action behind a check. -/
theorem check {c : Prop} [Decidable c] {cause : DecodeError} {f : Unit → Decode H α}
    (h : Blind (f ())) : Blind (if c then Decoder.fail cause >>= f else f ()) :=
  .ite (.bind (.fail cause) fun _ => h) h

theorem forM {γ : Type} {items : List γ} {f : γ → Decode H Unit} (h : ∀ item, Blind (f item)) :
    Blind (items.forM f) := by
  induction items with
  | nil => exact .pure ()
  | cons item rest ih => exact .bind (h item) fun _ => ih

theorem keyed (outcome : Except KeyError α) : Blind (keyed outcome : Decode H α) := by
  cases outcome with
  | ok a => exact .pure a
  | error e => cases e <;> exact .throw _

theorem spelled (cause : DecodeError) (spelling : Option α) :
    Blind (spelled cause spelling : Decode H α) := by
  cases spelling with
  | none => exact .fail cause
  | some a => exact .pure a

/-! ## The host -/

theorem hosted (action : Action H α) : Blind (hosted action) := by
  intro st s
  refine ⟨s, .refl s, ?_⟩
  have same : (st.under s).store = st.store := rfl
  simp only [Decoder.hosted, same]
  cases action st.store with
  | ok a store => rfl
  | error e store => cases e <;> rfl

theorem enterCall (label : String) : Blind (enterCall label : Decode H Unit) := fun _ s =>
  ⟨⟨s.input, s.frameOpen, s.trace.enter .call label s.input.position⟩, ⟨rfl, rfl, .enter ..⟩, rfl⟩

theorem exitCall : Blind (exitCall : Decode H Unit) := fun _ s =>
  ⟨⟨s.input, s.frameOpen, s.trace.exit .call s.input.position⟩, ⟨rfl, rfl, .exit ..⟩, rfl⟩

theorem reported (label : String) (action : Action H α) : Blind (reported label action) :=
  .bind (.enterCall label) fun _ => .bind (.hosted action) fun _ => .bind .exitCall fun _ => .pure _

theorem called [HostObject H] (callee : Value) (outcome : Except String α) :
    Blind (called callee outcome : Decode H α) := by
  cases outcome with
  | ok a => exact .pure a
  | error text => exact .get (fun _ _ => rfl) fun _ => .fail _

/-! ## The stack, the memo and the objects -/

theorem alloc (cell : Cell H) : Blind (alloc cell) :=
  .get (fun _ _ => rfl) fun _ => .bind (.modify fun _ _ => rfl) fun _ => .pure _

theorem allocTuple (items : List Value) : Blind (allocTuple items : Decode H Value) := by
  cases items with
  | nil => exact .pure _
  | cons item rest => exact .alloc _

theorem push (cfg : Config H) (v : Value) : Blind (push cfg v) :=
  .get (fun _ _ => rfl) fun _ => .check (.modify fun _ _ => rfl)

theorem pushed {cfg : Config H} {x : Decode H Value} (h : Blind x) :
    Blind (x >>= Decoder.push cfg) :=
  .bind h fun _ => .push cfg _

theorem pop (op : Opcode) : Blind (pop op : Decode H Value) := by
  refine .get (fun _ _ => rfl) fun st => ?_
  cases st.stack.back? with
  | none => exact .fail _
  | some v => exact .bind (.modify fun _ _ => rfl) fun _ => .pure v

theorem top (op : Opcode) : Blind (top op : Decode H Value) := by
  refine .get (fun _ _ => rfl) fun st => ?_
  cases st.stack.back? with
  | none => exact .fail _
  | some v => exact .pure v

theorem replaceTop (op : Opcode) (v : Value) : Blind (replaceTop op v : Decode H Unit) :=
  .bind (.top op) fun _ => .modify fun _ _ => rfl

theorem popOnto (op : Opcode) (taken : List Value) (count : Nat) :
    Blind (popOnto op taken count : Decode H (List Value)) := by
  induction count generalizing taken with
  | zero => exact .pure taken
  | succ count ih => exact .bind (.pop op) fun _ => ih _

theorem popMany (op : Opcode) (count : Nat) : Blind (popMany op count : Decode H (List Value)) :=
  .get (fun _ _ => rfl) fun _ => .check (.popOnto op [] count)

theorem mark : Blind (mark : Decode H Unit) := .modify fun _ _ => rfl

theorem popMark (op : Opcode) : Blind (popMark op : Decode H (Array Value)) := by
  intro st s
  refine ⟨s, .refl s, ?_⟩
  have same : (st.under s).marks = st.marks := rfl
  simp only [Decoder.popMark, bind_apply, get_apply, same]
  cases st.marks <;> rfl

theorem fetchMemo (cfg : Config H) (id : Nat) : Blind (fetchMemo cfg id) := by
  refine .get (fun _ _ => rfl) fun st => ?_
  cases st.memo[id]? with
  | none => exact .fail _
  | some v => exact .push cfg v

theorem putMemo (cfg : Config H) (op : Opcode) (id : Nat) : Blind (putMemo cfg op id) :=
  .bind (.top op) fun _ => .get (fun _ _ => rfl) fun _ => .check (.modify fun _ _ => rfl)

theorem replaceMemo (old : Nat) (new : Value) : Blind (replaceMemo old new : Decode H Unit) :=
  .modify fun _ _ => rfl

theorem nextBuffer : Blind (nextBuffer : Decode H Value) := by
  refine .get (fun _ _ => rfl) fun st => ?_
  rcases st.buffers with _ | _ | ⟨buffer, rest⟩
  · exact .fail _
  · exact .fail _
  · exact .bind (.modify fun _ _ => rfl) fun _ => .pure buffer

theorem tupleItems (op : Opcode) (v : Value) :
    Blind (tupleItems op v : Decode H (List Value)) := by
  refine .get (fun _ _ => rfl) fun st => ?_
  cases st.store.tuple? v with
  | none => exact .fail _
  | some items => exact .pure items

theorem freezeTop (op : Opcode) : Blind (freezeTop op : Decode H Unit) := by
  refine .bind (.top op) fun v => .get (fun _ _ => rfl) fun st => ?_
  cases st.store.cell? v with
  | none => exact .pure ()
  | some cell =>
    cases cell with
    | bytearray data => exact .replaceTop op _
    | _ => exact .pure ()

section
variable {cfg : Config H}

theorem pushNew (cell : Cell H) : Blind (pushNew cfg cell) := .pushed (.alloc cell)

theorem pushShortTuple (op : Opcode) (length : Nat) : Blind (pushShortTuple cfg op length) :=
  .bind (.popMany op length) fun items => .pushed (.allocTuple items)

/-! ## Operands -/

theorem lineValue (op : Opcode) (line : Bytes) : Blind (lineValue op line : Decode H Value) :=
  .ite (.pure _) (.ite (.pure _) (.bind (.spelled _ _) fun _ => .pure _))

theorem longLineValue (op : Opcode) (line : Bytes) :
    Blind (longLineValue op line : Decode H Value) :=
  .bind (.spelled _ _) fun _ => .pure _

theorem payloadText (op : Opcode) (payload : Bytes) :
    Blind (payloadText op payload : Decode H Value) :=
  .bind (.spelled _ _) fun _ => .pure _

theorem legacyString (op : Opcode) (raw : Bytes) : Blind (legacyString cfg op raw) := by
  unfold Decoder.legacyString
  cases cfg.strings with
  | bytes => exact .pure _
  | text encoding => exact .bind (.spelled _ _) fun _ => .pure _

theorem floatLineValue (line : Bytes) : Blind (floatLineValue line : Decode H Value) :=
  .bind (.spelled _ _) fun _ => .pure _

theorem quotedLineValue (line : Bytes) : Blind (quotedLineValue cfg line) :=
  .bind (.spelled _ _) fun _ => .bind (.spelled _ _) fun _ => .legacyString _ _

theorem escapedLineValue (line : Bytes) : Blind (escapedLineValue line : Decode H Value) :=
  .bind (.spelled _ _) fun _ => .pure _

theorem announce (protocol : UInt8) : Blind (announce protocol : Decode H Unit) := by
  unfold Decoder.announce
  exact .check (.modify fun _ _ => rfl)

/-! ## Globals -/

theorem findGlobal (module qualname : String) : Blind (findGlobal cfg module qualname) := by
  refine .get (fun _ _ => rfl) fun st => ?_
  obtain ⟨module, qualname⟩ : String × String :=
    if st.protocol < 3 && cfg.fixImports then LegacyName.toCurrent module qualname
    else (module, qualname)
  dsimp only
  cases cfg.registry.decodeGlobal? ⟨module, qualname⟩ with
  | some g => exact .alloc _
  | none =>
    cases cfg.registry.resolve ⟨module, qualname⟩ with
    | found symbol => exact .alloc _
    | missingModule => exact .fail _
    | missingAttribute => exact .fail _

theorem lineGlobal (op : Opcode) (module name : Bytes) : Blind (lineGlobal cfg op module name) :=
  .bind (.spelled _ _) fun _ => .bind (.spelled _ _) fun _ => .findGlobal _ _

theorem pushExtension (op : Opcode) (code : Nat) : Blind (pushExtension cfg op code) := by
  unfold Decoder.pushExtension
  refine .check ?_
  cases cfg.registry.extension? code with
  | none => exact .fail _
  | some name => exact .pushed (.findGlobal _ _)

theorem persistentLoad (pid : Value) : Blind (Decoder.persistentLoad cfg pid) := by
  unfold Decoder.persistentLoad
  cases cfg.persistentLoad with
  | none => exact .fail _
  | some hook =>
    refine .bind (.hosted _) fun outcome => ?_
    cases outcome with
    | ok v => exact .pure v
    | error text => exact .fail _

theorem persistentLineValue (line : Bytes) : Blind (persistentLineValue cfg line) :=
  .bind (.spelled _ _) fun _ => .persistentLoad _

theorem pushSignedExtension (code : Int32) : Blind (pushSignedExtension cfg code) := by
  unfold Decoder.pushSignedExtension
  exact .check (.pushExtension _ _)

end

section
variable [HostObject H] {cfg : Config H}

/-! ## Filling objects -/

theorem storeEntry (id : Nat) (key content : Value) :
    Blind (storeEntry id key content : Decode H Unit) := by
  refine .get (fun _ _ => rfl) fun st => .bind (.keyed _) fun image => ?_
  dsimp only
  split
  · exact .throw _
  · exact .modify fun _ _ => rfl

theorem storeEntries (id : Nat) (entries : List (Value × Value)) :
    Blind (storeEntries id entries : Decode H Unit) := by
  induction entries with
  | nil => exact .pure ()
  | cons e rest ih => exact .bind (.storeEntry id _ _) fun _ => ih

theorem addMember (id : Nat) (member : Value) : Blind (addMember id member : Decode H Unit) := by
  refine .get (fun _ _ => rfl) fun st => .bind (.keyed _) fun image => ?_
  dsimp only
  split
  · exact .throw _
  · exact .ite (.modify fun _ _ => rfl) (.pure ())

theorem addMembers (id : Nat) (members : List Value) :
    Blind (addMembers id members : Decode H Unit) := by
  induction members with
  | nil => exact .pure ()
  | cons member rest ih => exact .bind (.addMember id member) fun _ => ih

theorem callHook (op : Opcode) (id : Nat) (hook : H → Option (Action H Unit)) :
    Blind (callHook op id hook) := by
  refine .get (fun _ _ => rfl) fun st => ?_
  cases st.store.object? (.ref id) with
  | none => exact .pure ()
  | some content =>
    dsimp only
    cases hook content with
    | none => exact .called _ _
    | some action => exact .bind (.hosted action) fun _ => .called _ _

theorem appendItems (op : Opcode) (items : Array Value) :
    Blind (appendItems op items : Decode H Unit) := by
  refine .bind (.top op) fun target => .get (fun _ _ => rfl) fun st => ?_
  cases target with
  | ref id =>
    cases st.store.cell? (.ref id) with
    | none => exact .fail _
    | some cell =>
      cases cell with
      | list former => exact .modify fun _ _ => rfl
      | object content => exact .forM fun _ => .callHook op id _
      | _ => exact .fail _
  | _ => exact .fail _

theorem setItems (op : Opcode) (entries : List (Value × Value)) :
    Blind (setItems op entries : Decode H Unit) := by
  refine .bind (.top op) fun target => .get (fun _ _ => rfl) fun st => ?_
  cases target with
  | ref id =>
    cases st.store.cell? (.ref id) with
    | none => exact .fail _
    | some cell =>
      cases cell with
      | dict former => exact .storeEntries id entries
      | object content => exact .forM fun _ => .callHook op id _
      | _ => exact .fail _
  | _ => exact .fail _

theorem addItems (op : Opcode) (members : List Value) :
    Blind (addItems op members : Decode H Unit) := by
  refine .bind (.top op) fun target => .get (fun _ _ => rfl) fun st => ?_
  cases target with
  | ref id =>
    cases st.store.cell? (.ref id) with
    | none => exact .fail _
    | some cell =>
      cases cell with
      | set former => exact .addMembers id members
      | _ => exact .fail _
  | _ => exact .fail _

/-! ## Calls -/

theorem call (op : Opcode) (function : Value) (args : List Value) :
    Blind (call cfg op function args) := by
  refine .get (fun _ _ => rfl) fun st => ?_
  cases st.store.global? function with
  | none => exact .fail _
  | some g =>
    dsimp only
    cases g.symbol with
    | none => exact .called _ _
    | some symbol => exact .bind (.reported _ _) fun _ => .called _ _

theorem instantiate (cls : Value) (args : List Value) : Blind (instantiate cfg cls args) :=
  .get (fun _ _ => rfl) fun _ => .bind (.reported _ _) fun _ => .called _ _

theorem instantiateOrCall (op : Opcode) (cls : Value) (args : List Value) :
    Blind (instantiateOrCall cfg op cls args) :=
  .get (fun _ _ => rfl) fun _ => .ite (.instantiate cls args) (.call op cls args)

/-! ## State -/

theorem mergeState (op : Opcode) (id : Nat) (state : Value) :
    Blind (mergeState op id state : Decode H Unit) := by
  refine .get (fun _ _ => rfl) fun st => ?_
  cases st.store.dict? state with
  | some d =>
    cases state with
    | none => exact .pure ()
    | _ => exact .storeEntries id _
  | none =>
    cases state with
    | none => exact .pure ()
    | _ => exact .fail _

theorem buildInstance (op : Opcode) (id : Nat) (c : Class) (state : Value) :
    Blind (buildInstance cfg op id c state) := by
  unfold Decoder.buildInstance
  cases (cfg.host.hooks c.key).setState with
  | some hook => exact .bind (.reported _ _) fun _ => .called _ _
  | none =>
    refine .get (fun _ _ => rfl) fun st => ?_
    rcases st.store.tuple? state with _ | _ | ⟨first, _ | ⟨second, _ | ⟨third, rest⟩⟩⟩
    case some.cons.cons.nil =>
      exact .bind (.mergeState op id first) fun _ => .mergeState op id second
    all_goals exact .mergeState op id state

theorem buildObject (op : Opcode) (id : Nat) (content : H) (state : Value) :
    Blind (buildObject cfg op id content state) := by
  refine .bind (.reported _ _) fun outcome => .bind (.called _ _) fun replacement => ?_
  cases replacement with
  | none => exact .pure ()
  | some v => exact .bind (.replaceMemo id v) fun _ => .replaceTop op v

theorem build (op : Opcode) (state : Value) : Blind (build cfg op state) := by
  refine .bind (.top op) fun target => .get (fun _ _ => rfl) fun st => ?_
  cases target with
  | ref id =>
    cases st.store.cell? (.ref id) with
    | none => exact .fail _
    | some cell =>
      cases cell with
      | inst c attributes => exact .buildInstance op id c state
      | object content => exact .buildObject op id content state
      | _ => exact .fail _
  | _ => exact .fail _

/-! ## Instructions -/

/-- Every instruction but the one that loads a frame is blind. -/
theorem execute (op : Opcode) (operand : op.shape.Operand) (other : op ≠ .frame) :
    Blind (execute cfg op operand) := by
  cases op with
  | frame => exact absurd rfl other
  | proto => exact .announce _
  | persId => exact .pushed (.persistentLineValue _)
  | binPersId => exact .bind (.pop _) fun _ => .pushed (.persistentLoad _)
  | int => exact .pushed (.lineValue _ _)
  | long => exact .pushed (.longLineValue _ _)
  | float => exact .pushed (.floatLineValue _)
  | string => exact .pushed (.quotedLineValue _)
  | binString | shortBinString => exact .pushed (.legacyString _ _)
  | unicode => exact .pushed (.escapedLineValue _)
  | binUnicode | shortBinUnicode | binUnicode8 => exact .pushed (.payloadText _ _)
  | nextBuffer => exact .pushed .nextBuffer
  | readOnlyBuffer => exact .freezeTop _
  | tuple => exact .bind (.popMark _) fun _ => .pushed (.allocTuple _)
  | tuple1 | tuple2 | tuple3 => exact .pushShortTuple _ _
  | list => exact .bind (.popMark _) fun _ => .pushNew _
  | dict =>
    refine .bind (.popMark .dict) fun items => ?_
    cases pairs .dict items.toList with
    | error cause => exact .fail cause
    | ok entries =>
      exact .get (fun _ _ => rfl) fun _ => .bind (.keyed _) fun _ => .pushNew _
  | frozenSet =>
    exact .bind (.popMark _) fun _ => .get (fun _ _ => rfl) fun _ =>
      .bind (.keyed _) fun _ => .pushNew _
  | append => exact .bind (.pop _) fun _ => .appendItems _ _
  | appends => exact .bind (.popMark _) fun _ => .appendItems _ _
  | setItem => exact .bind (.pop _) fun _ => .bind (.pop _) fun _ => .setItems _ _
  | setItems =>
    refine .bind (.popMark .setItems) fun items => ?_
    cases pairs .setItems items.toList with
    | error cause => exact .fail cause
    | ok entries => exact .setItems _ entries
  | addItems => exact .bind (.popMark _) fun _ => .addItems _ _
  | global => exact .pushed (.lineGlobal _ _ _)
  | stackGlobal =>
    refine .bind (.pop _) fun name => .bind (.pop _) fun module => ?_
    cases module with
    | str module =>
      cases name with
      | str name => exact .pushed (.findGlobal _ _)
      | _ => exact .fail _
    | _ => exact .fail _
  | ext1 | ext2 => exact .pushExtension _ _
  | ext4 => exact .pushSignedExtension _
  | reduce =>
    exact .bind (.pop _) fun _ => .bind (.pop _) fun _ => .bind (.tupleItems _ _) fun _ =>
      .pushed (.call _ _ _)
  | newObj =>
    exact .bind (.pop _) fun _ => .bind (.pop _) fun _ => .bind (.tupleItems _ _) fun _ =>
      .pushed (.instantiate _ _)
  | newObjEx =>
    refine .bind (.pop _) fun keywords => .bind (.pop _) fun args => .bind (.pop _) fun cls => ?_
    refine .bind (.tupleItems _ _) fun items => .get (fun _ _ => rfl) fun st => ?_
    dsimp only
    cases st.store.dict? keywords with
    | none => exact .fail _
    | some d =>
      exact .ite (.bind (.called _ _) fun _ => .pushed (.instantiate _ _))
        (.pushed (.instantiate _ _))
  | obj =>
    refine .bind (.popMark _) fun items => ?_
    cases items.toList with
    | nil => exact .fail _
    | cons cls args => exact .pushed (.instantiateOrCall _ _ _)
  | inst =>
    exact .bind (.lineGlobal _ _ _) fun _ => .bind (.popMark _) fun _ =>
      .pushed (.instantiateOrCall _ _ _)
  | build => exact .bind (.pop _) fun _ => .build _ _
  | mark => exact .mark
  | pop =>
    exact .get (fun _ _ => rfl) fun _ => .ite (.bind (.popMark _) fun _ => .pure ())
      (.bind (.pop _) fun _ => .pure ())
  | popMark => exact .bind (.popMark _) fun _ => .pure ()
  | dup => exact .pushed (.top _)
  | get => exact .bind (.spelled _ _) fun _ => .fetchMemo cfg _
  | binGet | longBinGet => exact .fetchMemo cfg _
  | put => exact .bind (.spelled _ _) fun _ => .putMemo cfg _ _
  | binPut | longBinPut => exact .putMemo cfg _ _
  | memoize => exact .get (fun _ _ => rfl) fun _ => .putMemo cfg _ _
  | stop => exact .pure ()
  | byteArray8 | emptyList | emptyDict | emptySet => exact .pushNew _
  | none | newFalse | newTrue | binInt | binInt1 | binInt2 | long1 | long4 | binFloat | binBytes
  | shortBinBytes | binBytes8 | emptyTuple => exact .push cfg _

end

end Blind

end ObjectStream.Decoder
