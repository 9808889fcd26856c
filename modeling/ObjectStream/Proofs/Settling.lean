import ObjectStream.Proofs.Answers
import ObjectStream.Proofs.Filling
import ObjectStream.Proofs.Sparse
import ObjectStream.Proofs.Untouched

/-!
Loads that are settled.

A load in one order goes side by side with the load in another order as long as their look-ups have no
choice. Whether they had one is told from the end: no step takes keys away (`adding_observed`), so where
the tables are sparse in the end they were sparse all along. There is one lemma for each function that
looks keys up or calls one that does, and each says of the two orders that they concur (`Concurs`). They
lead to the whole load (`settled_of_sparse`).
-/

namespace ObjectStream

/-- The first action never leads to fine states from others. Where it succeeds in a fine state, the second
    one does the same. -/
structure Concurs {ε σ α : Type} (fine : σ → Prop) (x y : EStateM ε σ α) : Prop where
  back (s : σ) : fine (behind (x s)) → fine s
  ok {s s' : σ} {a : α} : x s = .ok a s' → fine s' → y s = .ok a s'

namespace Concurs

variable {ε σ α β : Type} {fine : σ → Prop} {x y : EStateM ε σ α}

theorem refl (back : ∀ s, fine (behind (x s)) → fine s) : Concurs fine x x := ⟨back, fun run _ => run⟩

theorem pure (a : α) : Concurs fine (pure a : EStateM ε σ α) (pure a) := refl fun _ => id

theorem throw (e : ε) : Concurs fine (throw e : EStateM ε σ α) (throw e) := refl fun _ => id

theorem bind {f g : α → EStateM ε σ β} (h : Concurs fine x y) (h' : ∀ a, Concurs fine (f a) (g a)) :
    Concurs fine (x >>= f) (y >>= g) where
  back s after := by
    rw [bind_apply] at after
    refine h.back s ?_
    cases run : x s with
    | error e s' =>
      rw [run] at after
      exact after
    | ok a s' =>
      rw [run] at after
      exact (h' a).back s' after
  ok {s s' b} run after := by
    obtain ⟨a, s₁, first, second⟩ := bind_eq_ok run
    have between : fine s₁ := (h' a).back s₁ (by rw [second]; exact after)
    rw [bind_ok (h.ok first between)]
    exact (h' a).ok second after

/-- An action that goes on in the same way from a fine state. -/
theorem look {f g : σ → EStateM ε σ α} (self : ∀ s, Concurs fine (f s) (f s))
    (same : ∀ s, fine s → g s = f s) : Concurs fine (get >>= f) (get >>= g) where
  back := (bind (refl fun _ => id) self).back
  ok {s s' a} run after := by
    have here : fine s := (self s).back s (by rw [show f s s = .ok a s' from run]; exact after)
    rw [bind_apply, get_apply]
    dsimp only
    rw [same s here]
    exact run

theorem get {f g : σ → EStateM ε σ α} (h : ∀ s, Concurs fine (f s) (g s)) :
    Concurs fine (get >>= f) (get >>= g) :=
  bind (refl fun _ => id) h

theorem ite {c : Prop} [Decidable c] {x' y' : EStateM ε σ α} (h : Concurs fine x y)
    (h' : Concurs fine x' y') : Concurs fine (if c then x else x') (if c then y else y') := by
  split
  · exact h
  · exact h'

end Concurs

variable {H : Type}

/-! ## Calls -/

/-- The action takes no keys away. -/
def Action.Adds {α : Type} (action : Action H α) : Prop := ∀ s, (behind (action s)).Sparse → s.Sparse

theorem concurs_alloc (cell : Cell H) :
    Concurs Store.Sparse (Action.alloc cell) (Action.alloc cell) :=
  .refl fun _ after => after.of_push.1

theorem concurs_reading {α : Type} (outcome : Store H → Except String α) :
    Concurs Store.Sparse (Builtin.reading outcome) (Builtin.reading outcome) := by
  refine .get fun s => ?_
  cases outcome s with
  | ok a => exact .pure a
  | error text => exact .throw _

section
variable [host : HostObject H] {p : Probing}

/-- A new object with a sparse table is made in the same way. -/
theorem concurs_keying {α : Type} {entries : List (Value × α)} {cell : Keyed α → Cell H}
    (table : ∀ t, (cell t).Sparse → t.Sparse) : Concurs Store.Sparse
      (Builtin.keying (·.insertAll .empty entries) >>= fun t => Action.alloc (cell t))
      (Builtin.keying (@Store.insertAll H (host.on p) α · .empty entries) >>= fun t =>
        Action.alloc (cell t)) where
  back s after := by
    simp only [Builtin.keying, bind_apply, get_apply] at after
    cases made : s.insertAll .empty entries with
    | error e =>
      rw [made] at after
      exact after
    | ok t =>
      rw [made] at after
      exact after.of_push.1
  ok {s s' v} run after := by
    simp only [Builtin.keying, bind_apply, get_apply] at run ⊢
    cases made : s.insertAll .empty entries with
    | error e =>
      rw [made] at run
      cases run
    | ok t =>
      rw [made] at run
      cases run
      obtain ⟨sparse, here⟩ := after.of_push
      rw [(Store.insertAll_on sparse made (table t here)).2]
      rfl

theorem concurs_run (ns : Option Namespace) (function : Builtin) (args : List Value) :
    Concurs Store.Sparse (function.run ns args : Action H Value)
      (@Builtin.run H (host.on p) ns function args) := by
  cases function with
  | complex | bytes | encode => exact .bind (concurs_reading _) fun _ => .pure _
  | bytearray | list | getattr => exact .bind (concurs_reading _) fun _ => concurs_alloc _
  | tuple =>
    refine .bind (concurs_reading _) fun items => ?_
    cases items with
    | nil => exact .pure _
    | cons item rest => exact concurs_alloc _
  | set | frozenset | dict => exact .bind (concurs_reading _) fun _ => concurs_keying fun _ => id
  | newobj | newobjEx | reconstructor => exact .throw _

/-- Where a call leads is found without a look-up. -/
theorem forward_on : @Store.forward H (host.on p) = Store.forward := by
  delta Store.forward Store.forward._unary
  rfl

variable {h : Host H} (adds : ∀ number args, Action.Adds (h.call number args))
include adds

theorem concurs_carryOut (target : Store H → Except String Target) :
    Concurs Store.Sparse (h.carryOut target) (@Host.carryOut H (host.on p) h target) := by
  refine .bind (concurs_reading _) fun t => ?_
  cases t with
  | create c => exact concurs_alloc _
  | run callable args =>
    cases callable with
    | host number => exact .refl (adds number args)
    | builtin registry function => exact concurs_run _ function args

theorem concurs_callSymbol (symbol : Symbol) (args : List Value) :
    Concurs Store.Sparse (h.callSymbol symbol args)
      (@Host.callSymbol H (host.on p) h symbol args) := by
  have target : @Store.callTarget H (host.on p) = Store.callTarget := by
    unfold Store.callTarget
    rw [forward_on]
  unfold Host.callSymbol
  rw [target]
  exact concurs_carryOut adds _

theorem concurs_create (cls : Value) (args : List Value) :
    Concurs Store.Sparse (h.create cls args) (@Host.create H (host.on p) h cls args) := by
  have target : @Store.creationTarget H (host.on p) = Store.creationTarget := by
    unfold Store.creationTarget
    rw [forward_on]
    rfl
  unfold Host.create
  rw [target]
  exact concurs_carryOut adds _

end

namespace Decoder

variable {α β : Type}

/-! ## Steps without a look-up -/

/-- No two keys of a table are filed under one image. -/
def State.Sparse (st : State H) : Prop := st.store.Sparse

theorem aloof_store : Aloof (State.store (H := H)) := .of_store fun _ _ store => store

theorem concurs_of_leaves {x : Decode H α} (h : Leaves State.store x) : Concurs State.Sparse x x :=
  .refl fun st after => by rwa [State.Sparse, h st] at after

theorem concurs_push (cfg : Config H) (v : Value) : Concurs State.Sparse (push cfg v) (push cfg v) :=
  concurs_of_leaves (leaves_push aloof_store cfg v)

/-- Values that two orders agree on are pushed. -/
theorem concurs_pushed (cfg : Config H) {x y : Decode H Value} (h : Concurs State.Sparse x y) :
    Concurs State.Sparse (x >>= push cfg) (y >>= push cfg) :=
  .bind h (concurs_push cfg)

theorem concurs_pop (op : Opcode) : Concurs State.Sparse (pop op : Decode H Value) (pop op) :=
  concurs_of_leaves (leaves_pop aloof_store op)

theorem concurs_top (op : Opcode) : Concurs State.Sparse (top op : Decode H Value) (top op) :=
  concurs_of_leaves (leaves_top op)

theorem concurs_popMark (op : Opcode) :
    Concurs State.Sparse (popMark op : Decode H (Array Value)) (popMark op) :=
  concurs_of_leaves (leaves_popMark aloof_store op)

theorem concurs_tupleItems (op : Opcode) (v : Value) :
    Concurs State.Sparse (tupleItems op v : Decode H (List Value)) (tupleItems op v) :=
  concurs_of_leaves (leaves_tupleItems op v)

theorem concurs_new (cell : Cell H) :
    Concurs State.Sparse (alloc cell : Decode H Value) (alloc cell) :=
  .refl fun _ after => (Store.Sparse.of_push after).1

theorem concurs_pushNew (cfg : Config H) (cell : Cell H) :
    Concurs State.Sparse (pushNew cfg cell) (pushNew cfg cell) :=
  concurs_pushed cfg (concurs_new cell)

theorem concurs_enterCall (label : String) :
    Concurs State.Sparse (enterCall label : Decode H Unit) (enterCall label) :=
  concurs_of_leaves (.modify fun _ => rfl)

theorem concurs_exitCall : Concurs State.Sparse (exitCall : Decode H Unit) exitCall :=
  concurs_of_leaves (.modify fun _ => rfl)

theorem back_hosted {action : Action H α} (adds : action.Adds) (st : State H) :
    (behind (hosted action st)).Sparse → st.Sparse := by
  intro after
  refine adds st.store ?_
  unfold hosted at after
  dsimp only at after
  cases run : action st.store with
  | ok a s =>
    rw [run] at after
    exact after
  | error e s =>
    rw [run] at after
    cases e <;> exact after

theorem back_reported {action : Action H α} (adds : action.Adds) (label : String) (st : State H) :
    (behind (reported label action st)).Sparse → st.Sparse :=
  (Concurs.bind (concurs_enterCall label) fun _ => .bind (.refl (back_hosted adds)) fun outcome =>
    .bind concurs_exitCall fun _ => .pure outcome).back st

theorem back_extend (id : Nat) (items : Array Value) (st : State H) :
    (st.store.modify id (extended items)).Sparse → st.store.Sparse :=
  Store.Sparse.of_modify Cell.Sparse.of_extended

/-- What follows a call fails if the call has failed, so only a call that succeeds has to be the same. -/
theorem concurs_hosted {x y : Action H α} (h : Concurs Store.Sparse x y)
    {f g : Except String α → Decode H β} (fails : ∀ text st b st', f (.error text) st ≠ .ok b st')
    (h' : ∀ outcome, Concurs State.Sparse (f outcome) (g outcome)) :
    Concurs State.Sparse (hosted x >>= f) (hosted y >>= g) where
  back := (Concurs.bind (.refl (back_hosted h.back)) fun outcome => .refl (h' outcome).back).back
  ok {st st' b} run after := by
    cases acted : x st.store with
    | ok a s =>
      have here : hosted x st = .ok (.ok a) { st with store := s } := by simp only [hosted, acted]
      rw [bind_ok here] at run
      have between := (h' (.ok a)).back _ (by rw [run]; exact after)
      have here' : hosted y st = .ok (.ok a) { st with store := s } := by
        simp only [hosted, h.ok acted between]
      rw [bind_ok here']
      exact (h' (.ok a)).ok run after
    | error e s =>
      cases e with
      | failed text =>
        have here : hosted x st = .ok (.error text) { st with store := s } := by
          simp only [hosted, acted]
        rw [bind_ok here] at run
        exact absurd run (fails text _ b st')
      | endless =>
        have here : hosted x st = .error .endless { st with store := s } := by
          simp only [hosted, acted]
        rw [bind_apply, here] at run
        cases run

section
variable [host : HostObject H] {p : Probing}

/-! ## Steps that look keys up -/

theorem concurs_called (callee : Value) (outcome : Except String α) :
    Concurs State.Sparse (called callee outcome) (@called H (host.on p) α callee outcome) :=
  concurs_of_leaves (leaves_called callee outcome)

/-- A call that succeeds does what the other one does. -/
theorem concurs_reported {x y : Action H α} (h : Concurs Store.Sparse x y) (label : String)
    (callee : Value) : Concurs State.Sparse (reported label x >>= called callee)
      (reported label y >>= @called H (host.on p) α callee) := by
  simp only [reported, bind_assoc, pure_bind]
  refine .bind (concurs_enterCall label) fun _ => concurs_hosted h ?_ fun outcome =>
    .bind concurs_exitCall fun _ => concurs_called callee outcome
  intro text st b st' same
  cases same

theorem concurs_storeEntry (id : Nat) (key content : Value) :
    Concurs State.Sparse (storeEntry id key content) (@storeEntry H (host.on p) id key content) := by
  refine .look (fun st => .bind (concurs_of_leaves (leaves_keyed _)) fun image => ?_) fun st sparse => ?_
  · dsimp only
    split
    · exact .throw _
    · exact .refl fun st after =>
        Store.Sparse.of_modify (Cell.Sparse.of_withEntries fun _ => Keyed.Sparse.of_put) after
  · simp only [Store.image_on, Store.equalFor_on sparse]
    refine bind_congr fun image => ?_
    cases found : st.store.cells[id]? with
    | none =>
      dsimp only
      rw [Store.find_on p Keyed.sparse_empty]
    | some cell =>
      dsimp only
      rw [Store.find_on p (sparse id cell found).entries]

theorem concurs_storeEntries (id : Nat) (entries : List (Value × Value)) :
    Concurs State.Sparse (storeEntries id entries) (@storeEntries H (host.on p) id entries) := by
  induction entries with
  | nil => exact .pure _
  | cons e rest ih => exact .bind (concurs_storeEntry id e.1 e.2) fun _ => ih

theorem concurs_addMember (id : Nat) (member : Value) :
    Concurs State.Sparse (addMember id member) (@addMember H (host.on p) id member) := by
  refine .look (fun st => .bind (concurs_of_leaves (leaves_keyed _)) fun image => ?_) fun st sparse => ?_
  · dsimp only
    split
    · exact .throw _
    · refine .ite (.refl fun st after => ?_) (.pure ())
      exact Store.Sparse.of_modify (Cell.Sparse.of_withMembers fun _ => Keyed.Sparse.of_put) after
  · simp only [Store.image_on, Store.equalFor_on sparse]
    refine bind_congr fun image => ?_
    cases found : st.store.cells[id]? with
    | none =>
      dsimp only
      rw [Store.find_on p Keyed.sparse_empty]
    | some cell =>
      cases cell with
      | set members =>
        dsimp only
        rw [Store.find_on p (sparse id _ found : members.Sparse)]
      | _ =>
        dsimp only
        rw [Store.find_on p Keyed.sparse_empty]

theorem concurs_addMembers (id : Nat) (members : List Value) :
    Concurs State.Sparse (addMembers id members) (@addMembers H (host.on p) id members) := by
  induction members with
  | nil => exact .pure _
  | cons member rest ih => exact .bind (concurs_addMember id member) fun _ => ih

/-- A new object with a sparse table is pushed in the same way. -/
theorem concurs_keyed (cfg : Config H) {entries : List (Value × α)} {cell : Keyed α → Cell H}
    (table : ∀ t, (cell t).Sparse → t.Sparse) : Concurs State.Sparse
      (get >>= fun st => keyed (st.store.insertAll .empty entries) >>= fun t => pushNew cfg (cell t))
      (get >>= fun st => keyed (@Store.insertAll H (host.on p) α st.store .empty entries) >>=
        fun t => pushNew cfg (cell t)) := by
  have self (st : State H) : Concurs State.Sparse
      (keyed (st.store.insertAll .empty entries) >>= fun t => pushNew cfg (cell t))
      (keyed (st.store.insertAll .empty entries) >>= fun t => pushNew cfg (cell t)) :=
    .bind (concurs_of_leaves (leaves_keyed _)) fun t => concurs_pushNew cfg (cell t)
  refine ⟨(Concurs.get self).back, fun {st st' _} run after => ?_⟩
  rw [bind_apply, get_apply] at run ⊢
  dsimp only at run ⊢
  have sparse : st.Sparse := (self st).back st (by rw [run]; exact after)
  obtain ⟨t, st₁, first, second⟩ := bind_eq_ok run
  cases made : st.store.insertAll .empty entries with
  | error e =>
    rw [made] at first
    cases e <;> cases first
  | ok t' =>
    rw [made] at first
    cases first
    -- the new object is among the objects in the end
    have left : (behind (pushNew cfg (cell t) st)).store = st.store.push (cell t) :=
      leaves_push aloof_store cfg (.ref st.store.size)
        { st with store := st.store.push (cell t) }
    rw [second] at left
    have there : (st.store.push (cell t)).Sparse := left ▸ after
    rw [(Store.insertAll_on sparse made (table t there.of_push.2)).2]
    exact second

/-! ## No step takes keys away -/

/-- No function and no hook of the host takes keys away. -/
structure Config.Adds (cfg : Config H) : Prop where
  call (number : Nat) (args : List Value) : Action.Adds (cfg.host.call number args)
  setState {key : ClassKey} {hook : Nat → Value → Action H Unit} (id : Nat) (state : Value)
    (hooked : (cfg.host.hooks key).setState = some hook) : Action.Adds (hook id state)
  stateAction (op : Opcode) (id : Nat) (content : H) (state : Value) :
    Action.Adds (stateAction cfg op id content state)
  append {id : Nat} {content : H} {item : Value} {action : Action H Unit}
    (hooked : HostObject.append id content item = some action) : action.Adds
  setItem {id : Nat} {content : H} {key value : Value} {action : Action H Unit}
    (hooked : HostObject.setItem id content key value = some action) : action.Adds
  persistentLoad {hook : Value → Action H Value} (pid : Value)
    (hooked : cfg.persistentLoad = some hook) : Action.Adds (hook pid)

/-- What is sparse behind a step was sparse in front of it. -/
def adding : Discipline H where
  Good _ := True
  Later st st' := st'.Sparse → st.Sparse
  Knows _ _ := True
  Fits _ _ := True
  Breaks st _ st' := st'.Sparse → st.Sparse

omit host in
theorem adding_of_back {x : Decode H α} {Q : α → State H → Prop}
    (back : ∀ st, (behind (x st)).Sparse → st.Sparse) (all : ∀ a st, Q a st) (st : State H) :
    adding.Goes st x Q := by
  intro _
  have former := back st
  cases run : x st with
  | ok a st' =>
    rw [run] at former
    exact ⟨trivial, former, all a st'⟩
  | error e st' =>
    rw [run] at former
    exact former

omit host in
theorem adding_of_leaves {x : Decode H α} {Q : α → State H → Prop} (h : Leaves State.store x)
    (all : ∀ a st, Q a st) (st : State H) : adding.Goes st x Q :=
  adding_of_back (concurs_of_leaves h).back all st

omit host in
theorem concurs_of_goes {x : Decode H α} {Q : α → State H → Prop} (h : ∀ st, adding.Goes st x Q) :
    Concurs State.Sparse x x := .refl fun st after => by
  have ends := h st trivial
  cases run : x st with
  | ok a st' =>
    rw [run] at ends after
    exact ends.2.1 after
  | error e st' =>
    rw [run] at ends after
    exact ends after

variable {cfg : Config H} (adds : cfg.Adds)
include adds

theorem adding_observed : adding.Observed cfg where
  refl _ after := after
  trans h h' after := h (h' after)
  breaks _ _ after := after
  breaks_later later h after := later (h after)
  knows_later _ _ := trivial
  atom _ := trivial
  held _ _ _ _ := trivial
  fits _ _ _ := trivial
  dict _ _ _ _ := trivial
  dict_endless _ _ _ after := after
  frozenset _ _ _ _ := trivial
  frozenset_endless _ _ _ after := after
  alloc _ := adding_of_back (concurs_new _).back (fun _ _ => trivial) _
  push _ := adding_of_back (concurs_push cfg _).back (fun _ _ => trivial) _
  pop st op := adding_of_back (concurs_pop op).back (fun _ _ => trivial) st
  top st op := adding_of_back (concurs_top op).back (fun _ _ => trivial) st
  replaceTop op _ :=
    adding_of_leaves (leaves_replaceTop aloof_store op _) (fun _ _ => trivial) _
  mark st := adding_of_leaves (leaves_mark aloof_store) (fun _ _ => trivial) st
  popMark st op := adding_of_back (concurs_popMark op).back (fun _ _ _ _ => trivial) st
  fetchMemo st id :=
    adding_of_leaves (leaves_fetchMemo aloof_store cfg id) (fun _ _ => trivial) st
  putMemo st op id :=
    adding_of_leaves (leaves_putMemo aloof_store cfg op id) (fun _ _ => trivial) st
  replaceMemo _ _ :=
    adding_of_leaves (leaves_replaceMemo aloof_store _ _) (fun _ _ => trivial) _
  extend id _ := adding_of_back (back_extend id _) (fun _ _ => trivial) _
  storeEntry id _ _ :=
    adding_of_back (concurs_storeEntry (p := .filed) id _ _).back (fun _ _ => trivial) _
  addMember id _ := adding_of_back (concurs_addMember (p := .filed) id _).back (fun _ _ => trivial) _
  readExactly st op count :=
    adding_of_leaves (leaves_readExactly aloof_store op count) (fun _ _ => trivial) st
  readLine st op :=
    adding_of_leaves (leaves_readLine aloof_store op) (fun _ _ => trivial) st
  readOpcode st := adding_of_leaves (leaves_readOpcode fun _ _ => id) (fun _ _ => trivial) st
  openFrame st length :=
    adding_of_leaves (leaves_openFrame (fun _ _ => id) cfg length) (fun _ _ => trivial) st
  announce st p := adding_of_leaves (leaves_announce aloof_store p) (fun _ _ => trivial) st
  nextBuffer st := adding_of_leaves (leaves_nextBuffer aloof_store) (fun _ _ => trivial) st
  callSymbol label symbol _ := adding_of_back
    (back_reported (concurs_callSymbol (p := .filed) adds.call symbol _).back label)
    (fun _ _ _ _ => trivial) _
  create label _ _ := adding_of_back
    (back_reported (concurs_create (p := .filed) adds.call _ _).back label) (fun _ _ _ _ => trivial) _
  setState id hooked _ :=
    adding_of_back (back_reported (adds.setState id _ hooked) _) (fun _ _ => trivial) _
  stateAction label op _ _ :=
    adding_of_back (back_reported (adds.stateAction op _ _ _) label) (fun _ _ _ _ => trivial) _
  append _ hooked _ := adding_of_back (back_hosted (adds.append hooked)) (fun _ _ => trivial) _
  setItem _ hooked _ _ := adding_of_back (back_hosted (adds.setItem hooked)) (fun _ _ => trivial) _
  persistentLoad hooked _ :=
    adding_of_back (back_hosted (adds.persistentLoad _ hooked)) (fun _ _ _ _ => trivial) _

/-! ## Instructions -/

theorem concurs_call (op : Opcode) (function : Value) (args : List Value) : Concurs State.Sparse
    (call cfg op function args) (@call H (host.on p) cfg op function args) := by
  refine .get fun st => ?_
  cases st.store.global? function with
  | none => exact .throw _
  | some g =>
    dsimp only
    cases g.symbol with
    | none => exact concurs_called function _
    | some symbol =>
      exact concurs_reported (concurs_callSymbol adds.call symbol args) g.qualname function

theorem concurs_instantiate (cls : Value) (args : List Value) :
    Concurs State.Sparse (instantiate cfg cls args) (@instantiate H (host.on p) cfg cls args) :=
  .get fun _ => concurs_reported (concurs_create adds.call cls args) _ cls

theorem concurs_instantiateOrCall (op : Opcode) (cls : Value) (args : List Value) :
    Concurs State.Sparse (instantiateOrCall cfg op cls args)
      (@instantiateOrCall H (host.on p) cfg op cls args) :=
  .get fun _ => .ite (concurs_instantiate adds cls args) (concurs_call adds op cls args)

theorem concurs_setItems (op : Opcode) (entries : List (Value × Value)) :
    Concurs State.Sparse (setItems op entries) (@setItems H (host.on p) op entries) := by
  refine .bind (concurs_top op) fun target => .get fun st => ?_
  have rules := adding_observed adds
  cases target with
  | ref id =>
    cases st.store.cell? (.ref id) with
    | none => exact .throw _
    | some cell =>
      cases cell with
      | dict former => exact concurs_storeEntries id entries
      | object content =>
        refine concurs_of_goes fun st => rules.goes_forM (P := fun _ _ => True) (fun _ _ => trivial)
          (fun _ _ => trivial) fun st item _ => ?_
        exact rules.goes_callHook fun _ _ object hooked =>
          rules.setItem object hooked trivial trivial
      | _ => exact .throw _
  | _ => exact .throw _

omit adds in
theorem concurs_addItems (op : Opcode) (members : List Value) :
    Concurs State.Sparse (addItems op members) (@addItems H (host.on p) op members) := by
  refine .bind (concurs_top op) fun target => .get fun st => ?_
  cases target with
  | ref id =>
    cases st.store.cell? (.ref id) with
    | none => exact .throw _
    | some cell =>
      cases cell with
      | set former => exact concurs_addMembers id members
      | _ => exact .throw _
  | _ => exact .throw _

omit adds in
theorem concurs_mergeState (op : Opcode) (id : Nat) (state : Value) :
    Concurs State.Sparse (mergeState op id state) (@mergeState H (host.on p) op id state) := by
  refine .get fun st => ?_
  cases st.store.dict? state with
  | some d =>
    cases state with
    | none => exact .pure _
    | _ => exact concurs_storeEntries id d.entries.toList
  | none =>
    cases state with
    | none => exact .pure _
    | _ => exact .throw _

theorem concurs_buildInstance (op : Opcode) (id : Nat) (c : Class) (state : Value) :
    Concurs State.Sparse (buildInstance cfg op id c state)
      (@buildInstance H (host.on p) cfg op id c state) := by
  unfold buildInstance
  cases hooked : (cfg.host.hooks c.key).setState with
  | some hook =>
    exact .bind (.refl (back_reported (adds.setState id state hooked) c.qualname)) fun outcome =>
      concurs_called (.ref id) outcome
  | none =>
    refine .get fun st => ?_
    rcases st.store.tuple? state with _ | _ | ⟨first, _ | ⟨second, _ | ⟨third, rest⟩⟩⟩
    case some.cons.cons.nil =>
      exact .bind (concurs_mergeState op id first) fun _ => concurs_mergeState op id second
    all_goals exact concurs_mergeState op id state

theorem concurs_buildObject (op : Opcode) (id : Nat) (content : H) (state : Value) :
    Concurs State.Sparse (buildObject cfg op id content state)
      (@buildObject H (host.on p) cfg op id content state) := by
  refine .bind (.refl (back_reported (adds.stateAction op id content state) _)) fun outcome =>
    .bind (concurs_called (.ref id) outcome) fun replacement => ?_
  cases replacement with
  | none => exact .pure ()
  | some v =>
    exact concurs_of_leaves (.bind (leaves_replaceMemo aloof_store id v) fun _ =>
      leaves_replaceTop aloof_store op v)

theorem concurs_build (op : Opcode) (state : Value) :
    Concurs State.Sparse (build cfg op state) (@build H (host.on p) cfg op state) := by
  refine .bind (concurs_top op) fun target => .get fun st => ?_
  cases target with
  | ref id =>
    cases st.store.cell? (.ref id) with
    | none => exact .throw _
    | some cell =>
      cases cell with
      | inst c attributes => exact concurs_buildInstance adds op id c state
      | object content => exact concurs_buildObject adds op id content state
      | _ => exact .throw _
  | _ => exact .throw _

theorem concurs_execute (op : Opcode) (operand : op.shape.Operand) :
    Concurs State.Sparse (execute cfg op operand) (@execute H (host.on p) cfg op operand) := by
  have rules := adding_observed adds
  cases op with
  | dict =>
    refine .bind (concurs_popMark .dict) fun items => ?_
    cases pairs .dict items.toList with
    | error cause => exact .throw _
    | ok entries => exact concurs_keyed cfg fun _ => id
  | frozenSet =>
    exact .bind (concurs_popMark .frozenSet) fun items => concurs_keyed cfg fun _ => id
  | setItem =>
    exact .bind (concurs_pop .setItem) fun content => .bind (concurs_pop .setItem) fun key =>
      concurs_setItems adds .setItem [(key, content)]
  | setItems =>
    refine .bind (concurs_popMark .setItems) fun items => ?_
    cases pairs .setItems items.toList with
    | error cause => exact .throw _
    | ok entries => exact concurs_setItems adds .setItems entries
  | addItems =>
    exact .bind (concurs_popMark .addItems) fun items => concurs_addItems .addItems items.toList
  | reduce =>
    exact .bind (concurs_pop .reduce) fun args => .bind (concurs_pop .reduce) fun function =>
      .bind (concurs_tupleItems .reduce args) fun items =>
        concurs_pushed cfg (concurs_call adds .reduce function items)
  | newObj =>
    exact .bind (concurs_pop .newObj) fun args => .bind (concurs_pop .newObj) fun cls =>
      .bind (concurs_tupleItems .newObj args) fun items =>
        concurs_pushed cfg (concurs_instantiate adds cls items)
  | newObjEx =>
    refine .bind (concurs_pop .newObjEx) fun keywords => .bind (concurs_pop .newObjEx) fun args =>
      .bind (concurs_pop .newObjEx) fun cls => .bind (concurs_tupleItems .newObjEx args) fun items =>
        .get fun st => ?_
    dsimp only
    cases st.store.dict? keywords with
    | none => exact .throw _
    | some d =>
      have made := concurs_pushed cfg (concurs_instantiate (p := p) adds cls items)
      exact .ite (.bind (concurs_called cls _) fun _ => made) made
  | obj =>
    refine .bind (concurs_popMark .obj) fun items => ?_
    cases items.toList with
    | nil => exact .throw _
    | cons cls args => exact concurs_pushed cfg (concurs_instantiateOrCall adds .obj cls args)
  | inst =>
    refine .bind (concurs_of_goes fun st => rules.goes_lineGlobal .inst _ _) fun cls =>
      .bind (concurs_popMark .inst) fun args => ?_
    exact concurs_pushed cfg (concurs_instantiateOrCall adds .inst cls args.toList)
  | build =>
    exact .bind (concurs_pop .build) fun state => concurs_build adds .build state
  -- the others look nothing up, so in both orders they are one and the same
  | _ => exact concurs_of_goes fun st => rules.goes_execute _ operand

/-! ## Loads -/

theorem concurs_step : Concurs State.Sparse (step cfg) (@step H (host.on p) cfg) := by
  have rules := adding_observed adds
  rw [step_eq, @step_eq H (host.on p)]
  refine .bind (concurs_of_goes rules.readOpcode) fun op => .ite ?_ ?_
  · exact .bind (concurs_pop .stop) fun v => .pure (some v)
  · exact .bind (concurs_of_goes fun st => rules.goes_answer op _) fun operand =>
      .bind (concurs_execute adds op operand) fun _ => .pure none

theorem concurs_runs (fuel : Nat) : Concurs State.Sparse (run cfg fuel) (@run H (host.on p) cfg fuel) := by
  induction fuel with
  | zero => exact .throw _
  | succ fuel ih =>
    refine .bind (concurs_step adds) fun found => ?_
    cases found with
    | none => exact ih
    | some v => exact .pure v

/-- A load that leaves no two keys of a table under one image is settled: none of its look-ups had a
    choice. -/
theorem settled_of_sparse {st st' : State H} {v : Value} (loaded : load cfg st = .ok v st')
    (sparse : st'.Sparse) : Settled cfg st := by
  intro probing
  obtain ⟨st'', ran, rfl⟩ := load_eq_ok loaded
  have sparse : st''.Sparse := by
    rwa [State.Sparse, show (closeFrame st'').store = st''.store from
      congrArg Machine.store (closeFrame_machine st'')] at sparse
  have ran' := (concurs_runs (p := probing) adds _).ok ran sparse
  rw [loaded]
  unfold loadBy load
  dsimp only
  rw [ran']

end

/-- A host without objects that does not interfere takes no keys away. -/
theorem Config.Idle.adds {cfg : Config Empty} (idle : cfg.Idle) : cfg.Adds where
  call number args s sparse := by
    obtain ⟨text, fails⟩ := idle.mute number args s
    rwa [fails] at sparse
  setState _ _ hooked := absurd ((idle.hooks _).symm.trans hooked) fun same => by cases same
  stateAction _ _ content := content.elim
  append {_ content} := content.elim
  setItem {_ content} := content.elim
  persistentLoad _ hooked := absurd (idle.elsewhere.symm.trans hooked) fun same => by cases same

/-! ## A dictionary of two entries -/

/-- The image of a word. -/
def wordImage (n : Int64) : Array UInt8 := (#[] : Array UInt8) ++ Image.ofInt n.toInt

/-- Two entries under different words. -/
def wordDict : Dict :=
  (Keyed.empty.put none (wordImage 1) (.int 1) .none).put none (wordImage 2) (.int 2) .none

theorem fresh_wordDict : (Keyed.empty.put none (wordImage 1) (.int 1) Value.none).index.getD
    (wordImage 2) [] = [] := by
  have apart : wordImage 1 ≠ wordImage 2 := by decide +kernel
  simp [Keyed.put, Keyed.empty, Std.HashMap.getD_insert, apart]

theorem sparse_wordDict : wordDict.Sparse :=
  (Keyed.sparse_empty.put (by simp [Keyed.empty]) _ _).put fresh_wordDict _ _

/-- What makes a dictionary of them. -/
def wordDictStream : List Instruction :=
  [⟨.emptyDict, ()⟩, ⟨.mark, ()⟩, ⟨.binInt1, (1 : UInt8)⟩, ⟨.none, ()⟩, ⟨.binInt1, (2 : UInt8)⟩,
    ⟨.none, ()⟩, ⟨.setItems, ()⟩]

/-- The two keys have different images, so the second one meets no other. -/
theorem leads_wordDict [HostObject H] {cfg : Config H} :
    Leads cfg True wordDictStream ⟨{}, ∅, [], [], 0⟩ fun m =>
      ∃ below v, m.stack = below ++ [v] ∧ v = .ref 0 ∧ (m.withStack below).store.Sparse := by
  have hash (s : Store H) (n : Int64) : s.image (some 0) (.int n) = .ok (wordImage n) := rfl
  refine Leads.cons (leads_pushNew (.of trivial rfl) rfl (Leads.cons (leads_mark ?_)))
  refine Leads.cons (leads_push (.of trivial rfl) rfl (Leads.cons (leads_push (.of trivial rfl) rfl ?_)))
  refine Leads.cons (leads_push (.of trivial rfl) rfl (Leads.cons (leads_push (.of trivial rfl) rfl ?_)))
  refine leads_setItems (show _ = flatten [(.int 1, .none), (.int 2, .none)] from rfl)
    (show [[_]] = ([] ++ [Value.ref 0]) :: [] from rfl) rfl ?_
  refine Keeps.bind (keeps_storeEntry none rfl (hash _ 1) (.inl (Keyed.find_empty ..)) fun _ => ?_)
  refine Keeps.bind (keeps_storeEntry none rfl (hash _ 2) (.inl ?_) fun _ => ?_)
  · exact (congrArg (Keyed.firstPlace _) (Keyed.met_nil fresh_wordDict)).trans rfl
  · refine Does.pure ⟨_, rfl, [], .ref 0, rfl, rfl, fun i cell found => ?_⟩
    have only : (#[Cell.dict wordDict] : Array (Cell H))[i]? = some cell := found
    obtain rfl : cell = .dict wordDict := by simpa using Array.mem_of_getElem? only
    exact sparse_wordDict

theorem load_wordDict [HostObject H] {cfg : Config H} (usual : cfg.limits = {}) :
    ∃ st, load cfg (.ofSource .empty
        (.ofBytes [0x7d, 0x28, 0x4b, 1, 0x4e, 0x4b, 2, 0x4e, 0x75, 0x2e]) none {}) =
      .ok (.ref 0) st ∧ st.Sparse := by
  let start : State H := .ofSource .empty
    (.ofBytes [0x7d, 0x28, 0x4b, 1, 0x4e, 0x4b, 2, 0x4e, 0x75, 0x2e]) none {}
  have ready : start.input.Ready (wordDictStream ++ [⟨.stop, ()⟩]) := ready_ofSource (Spells.all _)
  have remaining : start.input.remaining = 10 := remaining_ofSource _
  have memo : start.memo.size = 0 := Std.HashMap.size_empty
  obtain ⟨_, st, loaded, -, rfl, sparse⟩ | ⟨partly, -⟩ :=
    load_of_leads (Q := fun v m => v = .ref 0 ∧ m.store.Sparse) ready
      (by rw [remaining, usual]; decide) (by rw [remaining]; decide) (by rw [usual]; decide)
      (by rw [memo, usual]; decide) (leads_wordDict : Leads cfg True _ _ _)
  · exact ⟨st, loaded, sparse⟩
  · exact absurd trivial partly

end Decoder

end ObjectStream
