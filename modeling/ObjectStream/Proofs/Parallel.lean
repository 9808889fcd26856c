import Mathlib.Order.Basic
import ObjectStream.Encoder
import ObjectStream.Proofs.Action
import ObjectStream.Proofs.Graph

/-!
Two walks side by side.

Two encoders that write the same graph out of different stores number their objects differently, and
those that they make on the way as well. They are twins along a correspondence of objects if the
corresponding objects hold corresponding values, have the same memo ids, and both have written the same
bytes (`Twins`). Two actions are parallel if they keep encoders twins, along more and more objects, or
fail with the same error (`Parallel`). Every elementary action of the encoder is parallel to itself.
-/

namespace ObjectStream

/-! ## The same graph -/

/-- The value itself, where an integer that a word holds is that word. -/
def Value.reduced : Value → Value
  | .long n => .ofInt n
  | v => v

/-- The same value, where `R` is a correspondence of objects. -/
inductive Value.Same (R : Nat → Nat → Prop) : Value → Value → Prop
  | ref {i j : Nat} (h : R i j) : Same R (.ref i) (.ref j)
  | atom {v w : Value} (atom : v.identity? = Option.none) (same : v.reduced = w.reduced) : Same R v w

/-- The same entry of a dictionary. -/
def Value.SameEntry (R : Nat → Nat → Prop) (e e' : Value × Value) : Prop :=
  Same R e.1 e'.1 ∧ Same R e.2 e'.2

variable {H : Type}

/-- An object of a built-in kind with the same contents in the same order. A name that was not resolved
    is counted among the kinds here, since encoders make such objects. -/
inductive Cell.Same (R : Nat → Nat → Prop) : Cell H → Cell H → Prop
  | bytearray (data : Bytes) : Same R (.bytearray data) (.bytearray data)
  | list {a b : Array Value} (items : List.Forall₂ (Value.Same R) a.toList b.toList) :
      Same R (.list a) (.list b)
  | tuple {a b : List Value} (items : List.Forall₂ (Value.Same R) a b) :
      Same R (.tuple a) (.tuple b)
  | dict {a b : Dict}
      (entries : List.Forall₂ (Value.SameEntry R) a.entries.toList b.entries.toList) :
      Same R (.dict a) (.dict b)
  | set {a b : Members} (keys : List.Forall₂ (Value.Same R) a.keys b.keys) :
      Same R (.set a) (.set b)
  | frozenset {a b : Members} (keys : List.Forall₂ (Value.Same R) a.keys b.keys) :
      Same R (.frozenset a) (.frozenset b)
  | named (module qualname : String) :
      Same R (.global (.named module qualname)) (.global (.named module qualname))

/-- The graphs behind two values are the same: the objects that one reaches correspond one to one to
    those that the other reaches, and hold the same. -/
def SameGraph (s s' : Store H) (v w : Value) : Prop :=
  ∃ f : Nat → Nat,
    Set.BijOn f {i | s.Reaches v (.ref i)} {j | s'.Reaches w (.ref j)} ∧
    Value.Same (fun i j => f i = j) v w ∧
    ∀ i, s.Reaches v (.ref i) → ∃ cell cell',
      s.cells[i]? = some cell ∧ s'.cells[f i]? = some cell' ∧
        cell.Same (fun i j => f i = j) cell'

section
variable {R R' : Nat → Nat → Prop} {v w : Value}

theorem Value.reduced_ofInt (n : Int) : (Value.ofInt n).reduced = .ofInt n := by
  by_cases fits : fitsWord n
  · simp only [Value.ofInt, if_pos fits, reduced]
  · simp only [Value.ofInt, if_neg fits, reduced]

theorem Value.identity?_reduced (v : Value) : v.reduced.identity? = v.identity? := by
  cases v with
  | long n =>
    by_cases fits : fitsWord n
    · simp only [reduced, ofInt, if_pos fits, identity?]
    · simp only [reduced, ofInt, if_neg fits]
  | _ => rfl

/-- Both values are corresponding objects, or neither is an object. -/
theorem Value.Same.identity (h : Value.Same R v w) : Option.Rel R v.identity? w.identity? := by
  cases h with
  | ref h => exact .some h
  | atom atom same =>
    have atom' : w.identity? = Option.none := by
      rw [← identity?_reduced, ← same, identity?_reduced, atom]
    rw [atom, atom']
    exact .none

/-- Only the objects among the values matter. -/
theorem Value.Same.congr (h : Value.Same R v w) (grow : ∀ i j, v = .ref i → R i j → R' i j) :
    Value.Same R' v w := by
  cases h with
  | ref h => exact .ref (grow _ _ rfl h)
  | atom atom same => exact .atom atom same

theorem Value.Same.mono (h : Value.Same R v w) (grow : R ≤ R') : Value.Same R' v w :=
  h.congr fun i j _ => grow i j

/-- Only the objects among the children matter. -/
theorem Cell.Same.congr {cell cell' : Cell H} (h : cell.Same R cell')
    (grow : ∀ i j, .ref i ∈ cell.children → R i j → R' i j) : cell.Same R' cell' := by
  have one : ∀ {v w : Value}, v ∈ cell.children → Value.Same R v w → Value.Same R' v w := by
    intro v w held same
    refine same.congr ?_
    rintro i j rfl
    exact grow i j held
  have all : ∀ {vs ws : List Value}, List.Forall₂ (Value.Same R) vs ws →
      (∀ v ∈ vs, v ∈ cell.children) → List.Forall₂ (Value.Same R') vs ws :=
    fun same inside => (forall₂_mem same).imp fun v w ⟨same, mem, _⟩ => one (inside v mem) same
  cases h with
  | bytearray data => exact .bytearray data
  | list items => exact .list (all items fun v mem => Cell.mem_children.2 (.inr mem))
  | tuple items => exact .tuple (all items fun v mem => Cell.mem_children.2 (.inr mem))
  | dict entries =>
    refine .dict ((forall₂_mem entries).imp fun e e' ⟨same, mem, _⟩ => ?_)
    exact ⟨one (Cell.mem_children.2 (.inl (List.mem_map_of_mem mem))) same.1,
      one (Cell.mem_children.2 (.inr (List.mem_map_of_mem mem))) same.2⟩
  | set keys => exact .set (all keys fun v mem => Cell.mem_children.2 (.inl mem))
  | frozenset keys => exact .frozenset (all keys fun v mem => Cell.mem_children.2 (.inl mem))
  | named module qualname => exact .named module qualname

theorem Cell.Same.mono {cell cell' : Cell H} (h : cell.Same R cell') (grow : R ≤ R') :
    cell.Same R' cell' :=
  h.congr fun i j _ => grow i j

end

namespace Encoder

variable {α β α' β' : Type}

/-! ## Twins -/

/-- The encoders have written the same bytes, and corresponding objects, which are the same, have the
    same memo ids. -/
structure Twins (R : Nat → Nat → Prop) (st st' : State H) : Prop where
  objects : ∀ i j, R i j → ∃ cell cell', st.store.cells[i]? = some cell ∧
    st'.store.cells[j]? = some cell' ∧ cell.Same R cell'
  functional : ∀ i j j', R i j → R i j' → j = j'
  injective : ∀ i i' j, R i j → R i' j → i = i'
  memo : ∀ i j, R i j → st.memo[Identity.object i]? = st'.memo[Identity.object j]?
  remembered : ∀ i, Identity.object i ∈ st.memo → i < st.store.size
  remembered' : ∀ j, Identity.object j ∈ st'.memo → j < st'.store.size
  count : st.memo.size = st'.memo.size
  frames : st.frames = st'.frames

namespace Twins

variable {R : Nat → Nat → Prop} {st st' : State H}

/-- What is counted and reported does not matter. -/
theorem congr {last last' : State H} (h : Twins R st st') (store : last.store = st.store)
    (store' : last'.store = st'.store) (memo : last.memo = st.memo) (memo' : last'.memo = st'.memo)
    (frames : last.frames = last'.frames) : Twins R last last' where
  objects := by rw [store, store']; exact h.objects
  functional := h.functional
  injective := h.injective
  memo := by rw [memo, memo']; exact h.memo
  remembered := by rw [store, memo]; exact h.remembered
  remembered' := by rw [store', memo']; exact h.remembered'
  count := by rw [memo, memo']; exact h.count
  frames := frames

/-- The objects of two stores, and one more object of each. -/
def further (R : Nat → Nat → Prop) (s s' : Store H) (i j : Nat) : Prop :=
  R i j ∨ i = s.size ∧ j = s'.size

theorem le_further (s s' : Store H) : R ≤ further R s s' := fun _ _ h => .inl h

theorem lt_left {i j : Nat} (h : Twins R st st') (related : R i j) : i < st.store.size := by
  obtain ⟨cell, cell', found, -⟩ := h.objects i j related
  exact Store.lt_size_of_cell found

theorem lt_right {i j : Nat} (h : Twins R st st') (related : R i j) : j < st'.store.size := by
  obtain ⟨cell, cell', -, found, -⟩ := h.objects i j related
  exact Store.lt_size_of_cell found

/-- Objects that both make correspond from then on. -/
theorem push {cell cell' : Cell H} (h : Twins R st st') (same : cell.Same R cell') :
    Twins (further R st.store st'.store) { st with store := st.store.push cell }
      { st' with store := st'.store.push cell' } where
  objects := by
    rintro i j (related | ⟨rfl, rfl⟩)
    · obtain ⟨old, old', found, found', held⟩ := h.objects i j related
      exact ⟨old, old', Store.Grown.push _ _ _ _ found, Store.Grown.push _ _ _ _ found',
        held.mono (le_further _ _)⟩
    · exact ⟨cell, cell', Store.cell_push_last .., Store.cell_push_last ..,
        same.mono (le_further _ _)⟩
  functional := by
    -- a new object is none of those that correspond already
    rintro i j j' (related | ⟨rfl, rfl⟩) (related' | ⟨same', rfl⟩)
    · exact h.functional i j j' related related'
    · exact absurd (h.lt_left related) (same' ▸ Nat.lt_irrefl _)
    · exact absurd (h.lt_left related') (Nat.lt_irrefl _)
    · rfl
  injective := by
    rintro i i' j (related | ⟨rfl, rfl⟩) (related' | ⟨rfl, same'⟩)
    · exact h.injective i i' j related related'
    · exact absurd (h.lt_right related) (same' ▸ Nat.lt_irrefl _)
    · exact absurd (h.lt_right related') (Nat.lt_irrefl _)
    · rfl
  memo := by
    rintro i j (related | ⟨rfl, rfl⟩)
    · exact h.memo i j related
    · -- neither of the new objects is in a memo
      rw [Std.HashMap.getElem?_eq_none fun mem => Nat.lt_irrefl _ (h.remembered _ mem),
        Std.HashMap.getElem?_eq_none fun mem => Nat.lt_irrefl _ (h.remembered' _ mem)]
  remembered i mem := by
    rw [Store.size_push]
    exact Nat.lt_succ_of_lt (h.remembered i mem)
  remembered' j mem := by
    rw [Store.size_push]
    exact Nat.lt_succ_of_lt (h.remembered' j mem)
  count := h.count
  frames := h.frames

/-- Corresponding objects that get the same memo id. -/
theorem insert {i j : Nat} (h : Twins R st st') (related : R i j) (id : Nat) :
    Twins R { st with memo := st.memo.insert (.object i) id }
      { st' with memo := st'.memo.insert (.object j) id } where
  objects := h.objects
  functional := h.functional
  injective := h.injective
  memo k l related' := by
    -- the insertion is at `k` exactly if it is at `l`
    have here : k = i ↔ l = j :=
      ⟨fun same => h.functional k l j related' (same ▸ related),
        fun same => h.injective k i l related' (same ▸ related)⟩
    rw [Std.HashMap.getElem?_insert, Std.HashMap.getElem?_insert]
    by_cases same : k = i
    · rw [here.1 same, same]
      simp
    · have other : l ≠ j := fun eq => same (here.2 eq)
      simp [Ne.symm same, Ne.symm other, h.memo k l related']
  remembered k mem := by
    rcases Std.HashMap.mem_insert.1 mem with same | mem
    · cases eq_of_beq same
      exact h.lt_left related
    · exact h.remembered k mem
  remembered' k mem := by
    rcases Std.HashMap.mem_insert.1 mem with same | mem
    · cases eq_of_beq same
      exact h.lt_right related
    · exact h.remembered' k mem
  count := by
    have both : Identity.object i ∈ st.memo ↔ Identity.object j ∈ st'.memo := by
      rw [Std.HashMap.mem_iff_isSome_getElem?, Std.HashMap.mem_iff_isSome_getElem?, h.memo i j related]
    simp only [Std.HashMap.size_insert, both, h.count]
  frames := h.frames

end Twins

/-- Encoders that have written nothing are twins along the correspondence of their graphs. -/
theorem twins_of_sameGraph {s s' : Store H} {v w : Value} (h : SameGraph s s' v w) :
    ∃ R, Twins R (State.ofSink s {} {}) (State.ofSink s' {} {}) ∧ Value.Same R v w := by
  obtain ⟨f, bijective, same, objects⟩ := h
  refine ⟨fun i j => f i = j ∧ s.Reaches v (.ref i), ?_, ?_⟩
  · refine ⟨?_, ?_, ?_, fun _ _ _ => ?_, fun _ mem => ?_, fun _ mem => ?_, rfl, rfl⟩
    · rintro i j ⟨rfl, reach⟩
      obtain ⟨cell, cell', found, found', held⟩ := objects i reach
      exact ⟨cell, cell', found, found',
        held.congr fun k l mem here => ⟨here, .child reach found mem⟩⟩
    · rintro i j j' ⟨rfl, -⟩ ⟨rfl, -⟩
      rfl
    · rintro i i' j ⟨rfl, reach⟩ ⟨here, reach'⟩
      exact (bijective.injOn reach' reach here).symm
    · exact Std.HashMap.getElem?_empty.trans Std.HashMap.getElem?_empty.symm
    · exact absurd mem Std.HashMap.not_mem_empty
    · exact absurd mem Std.HashMap.not_mem_empty
  · refine same.congr ?_
    rintro i j rfl here
    exact ⟨here, .self⟩

/-! ## Parallel actions -/

/-- Both runs ended as `Q` says, or both failed with the same error. -/
inductive Agree (Q : α → State H → β → State H → Prop) :
    EStateM.Result Error (State H) α → EStateM.Result Error (State H) β → Prop
  | ok {a : α} {b : β} {st st' : State H} (h : Q a st b st') : Agree Q (.ok a st) (.ok b st')
  | error (e : Error) (st st' : State H) : Agree Q (.error e st) (.error e st')

theorem Agree.mono {P Q : α → State H → β → State H → Prop} {r : EStateM.Result Error (State H) α}
    {r' : EStateM.Result Error (State H) β} (h : Agree P r r')
    (hQ : ∀ a st b st', P a st b st' → Q a st b st') : Agree Q r r' := by
  cases h with
  | ok h => exact .ok (hQ _ _ _ _ h)
  | error e st st' => exact .error e st st'

/-- From twins along `R` or more, the actions fail alike or lead to twins along more, and their results
    are related by `Q`. -/
def Parallel (R : Nat → Nat → Prop) (x : Encode H α) (x' : Encode H β)
    (Q : (Nat → Nat → Prop) → α → β → Prop) : Prop :=
  ∀ R' st st', R ≤ R' → Twins R' st st' →
    Agree (fun a s b s' => ∃ R'', R' ≤ R'' ∧ Twins R'' s s' ∧ Q R'' a b) (x st) (x' st')

/-- The actions are parallel, and say nothing. -/
def Abreast (R : Nat → Nat → Prop) (x x' : Encode H Unit) : Prop :=
  Parallel R x x' fun _ _ _ => True

section
variable {R R' : Nat → Nat → Prop} {Q : (Nat → Nat → Prop) → α → β → Prop}
  {P : (Nat → Nat → Prop) → α' → β' → Prop}

theorem Parallel.mono {x : Encode H α} {x' : Encode H β} (h : Parallel R x x' Q) (grow : R ≤ R') :
    Parallel R' x x' Q :=
  fun R'' st st' le twins => h R'' st st' (grow.trans le) twins

theorem Parallel.pure {a : α} {b : β} (h : ∀ R', R ≤ R' → Q R' a b) :
    Parallel (H := H) R (pure a) (pure b) Q :=
  fun R' _ _ le twins => .ok ⟨R', le_refl R', twins, h R' le⟩

theorem Parallel.throw (e : Error) : Parallel (H := H) R (throw e) (throw e) Q :=
  fun _ st st' _ _ => .error e st st'

theorem Parallel.fail (cause : EncodeError) : Parallel (H := H) R (fail cause) (fail cause) Q :=
  .throw _

theorem Parallel.bind {x : Encode H α} {x' : Encode H β} {f : α → Encode H α'} {f' : β → Encode H β'}
    (h : Parallel R x x' Q) (h' : ∀ R' a b, R ≤ R' → Q R' a b → Parallel R' (f a) (f' b) P) :
    Parallel R (x >>= f) (x' >>= f') P := by
  intro R' st st' le twins
  have first := h R' st st' le twins
  rw [bind_apply, bind_apply]
  generalize x st = r, x' st' = r' at first
  cases first with
  | error e => exact .error e _ _
  | ok ended =>
    obtain ⟨R'', le', twins', related⟩ := ended
    refine (h' R'' _ _ (le.trans le') related R'' _ _ (le_refl _) twins').mono ?_
    exact fun _ _ _ _ ⟨R₃, le₃, further⟩ => ⟨R₃, le'.trans le₃, further⟩

/-- Actions that follow actions without a result. -/
theorem Parallel.after {x x' : Encode H Unit} {y : Encode H α} {y' : Encode H β}
    (h : Abreast R x x') (h' : Parallel R y y' Q) :
    Parallel R (x >>= fun _ => y) (x' >>= fun _ => y') Q :=
  .bind h fun _ _ _ le _ => h'.mono le

/-- Actions that first look at the state. -/
theorem Parallel.get {f : State H → Encode H α} {f' : State H → Encode H β}
    (h : ∀ R' st st', R ≤ R' → Twins R' st st' → Parallel R' (f st) (f' st') Q) :
    Parallel R (get >>= f) (get >>= f') Q :=
  fun R' st st' le twins => h R' st st' le twins R' st st' (le_refl R') twins

theorem Parallel.ite {c : Prop} [Decidable c] {x y : Encode H α} {x' y' : Encode H β}
    (h : Parallel R x x' Q) (h' : Parallel R y y' Q) :
    Parallel R (if c then x else y) (if c then x' else y') Q := by
  by_cases holds : c
  · rwa [if_pos holds, if_pos holds]
  · rwa [if_neg holds, if_neg holds]

theorem Abreast.done : Abreast (H := H) R (pure ()) (pure ()) := .pure fun _ _ => trivial

/-- Changes that leave objects, memo and frames as they are. -/
theorem Abreast.change {f f' : State H → State H}
    (store : ∀ st, (f st).store = st.store ∧ (f' st).store = st.store)
    (memo : ∀ st, (f st).memo = st.memo ∧ (f' st).memo = st.memo)
    (frames : ∀ st, (f st).frames = st.frames ∧ (f' st).frames = st.frames) :
    Abreast R (modify f) (modify f') :=
  fun R' st st' _ twins => .ok ⟨R', le_refl R', twins.congr (store st).1 (store st').2 (memo st).1
    (memo st').2 (by rw [(frames st).1, (frames st').2, twins.frames]), trivial⟩

/-- The depth of nesting does not matter. -/
theorem Abreast.deepen (depth depth' : Nat) :
    Abreast R (modify fun st : State H => { st with depth := depth })
      (modify fun st : State H => { st with depth := depth' }) :=
  Abreast.change (fun _ => ⟨rfl, rfl⟩) (fun _ => ⟨rfl, rfl⟩) fun _ => ⟨rfl, rfl⟩

/-- The frames do the same on both sides. -/
theorem Abreast.framed (action : EStateM String Frame.Writer Unit) :
    Abreast (H := H) R (framed action) (framed action) := by
  intro R' st st' _ twins
  simp only [Encoder.framed, twins.frames]
  cases action st'.frames with
  | ok _ frames => exact .ok ⟨R', le_refl R', twins.congr rfl rfl rfl rfl rfl, trivial⟩
  | error text frames => exact .error _ _ _

theorem Abreast.advance (op : Opcode) (length : Nat) :
    Abreast (H := H) R (advance op length) (advance op length) :=
  Abreast.change (fun _ => ⟨rfl, rfl⟩) (fun _ => ⟨rfl, rfl⟩) fun _ => ⟨rfl, rfl⟩

theorem Abreast.forM {γ δ : Type} {items : List γ} {items' : List δ} {f : γ → Encode H Unit}
    {f' : δ → Encode H Unit} {T : γ → δ → Prop} (same : List.Forall₂ T items items')
    (h : ∀ a b, T a b → Abreast R (f a) (f' b)) : Abreast R (items.forM f) (items'.forM f') := by
  induction same with
  | nil => exact .done
  | cons head _ ih => exact .after (h _ _ head) ih

/-! ## Instructions -/

theorem Abreast.emit (op : Opcode) (operand : op.shape.Operand) :
    Abreast (H := H) R (emit op operand) (emit op operand) :=
  .after (Abreast.framed _) (Abreast.advance _ _)

theorem Abreast.emitPayload (op : Opcode) (operand : op.shape.Operand) :
    Abreast (H := H) R (emitPayload op operand) (emitPayload op operand) :=
  .ite (Abreast.emit op operand) (.after (Abreast.framed _) (Abreast.advance _ _))

theorem Abreast.emitTimes (count : Nat) (op : Opcode) (operand : op.shape.Operand) :
    Abreast (H := H) R (emitTimes count op operand) (emitTimes count op operand) := by
  induction count with
  | zero => exact .done
  | succ count ih => exact .after (Abreast.emit op operand) ih

theorem Abreast.emitPut (p : Protocol) (id : Nat) :
    Abreast (H := H) R (emitPut p id) (emitPut p id) :=
  .ite (Abreast.emit _ _) <| .ite (.ite (Abreast.emit _ _) (Abreast.emit _ _)) (Abreast.emit _ _)

theorem Abreast.emitGet (p : Protocol) (id : Nat) :
    Abreast (H := H) R (emitGet p id) (emitGet p id) :=
  .ite (.ite (Abreast.emit _ _) (Abreast.emit _ _)) (Abreast.emit _ _)

/-! ## Objects and their memo ids -/

variable {cell cell' : Cell H} {v w : Value} {items items' : List Value}

/-- New objects that are the same are taken for each other from then on. -/
theorem Parallel.alloc (same : cell.Same R cell') :
    Parallel R (alloc cell) (alloc cell') Value.Same :=
  fun R' st st' le twins => .ok ⟨Twins.further R' st.store st'.store, Twins.le_further _ _,
    twins.push (same.mono le), .ref (.inr ⟨rfl, rfl⟩)⟩

theorem Parallel.allocTuple (same : List.Forall₂ (Value.Same R) items items') :
    Parallel (H := H) R (allocTuple items) (allocTuple items') Value.Same := by
  cases same with
  | nil => exact .pure fun _ _ => .atom rfl rfl
  | cons head rest => exact .alloc (.tuple (.cons head rest))

theorem Parallel.allocNamed (module qualname : String) :
    Parallel (H := H) R (allocNamed module qualname) (allocNamed module qualname) Value.Same :=
  .alloc (.named module qualname)

/-- Corresponding objects are both in the memo, under one id, or neither is. -/
theorem Abreast.memoized {i j : Nat} {f f' : Option Nat → Encode H Unit} (related : R i j)
    (h : ∀ id, Abreast R (f id) (f' id)) :
    Abreast R (memoized (.object i) >>= f) (memoized (.object j) >>= f') := by
  refine .bind (.get fun _ _ _ le twins => .pure fun _ _ => twins.memo i j (le _ _ related)) ?_
  intro R' id _ le here
  subst here
  exact (h id).mono le

theorem Abreast.memoizedValue {f f' : Option Nat → Encode H Unit} (same : Value.Same R v w)
    (h : ∀ id, Abreast R (f id) (f' id)) :
    Abreast R (memoizedValue v >>= f) (memoizedValue w >>= f') := by
  have both := same.identity
  unfold Encoder.memoizedValue
  generalize v.identity? = a, w.identity? = b at both
  cases both with
  | none => exact h none
  | some related => exact Abreast.memoized related h

/-- Corresponding objects get the same memo id. -/
theorem Abreast.memoizeAs {i j : Nat} (p : Protocol) (related : R i j) :
    Abreast (H := H) R (memoizeAs p (.object i)) (memoizeAs p (.object j)) := by
  refine .get fun R' st st' le twins => ?_
  dsimp only
  -- memos of the same size give the same next id, or are both full
  rw [twins.count]
  refine .ite (.after ?_ (Abreast.emitPut p _)) (.fail _)
  exact fun R'' last last' le' twins' =>
    .ok ⟨R'', le_refl R'', twins'.insert (le' _ _ (le _ _ related)) _, trivial⟩

theorem Abreast.memoize (p : Protocol) (same : Value.Same R v w) :
    Abreast (H := H) R (memoize p v) (memoize p w) := by
  have both := same.identity
  unfold Encoder.memoize
  generalize v.identity? = a, w.identity? = b at both
  cases both with
  | none => exact .done
  | some related => exact Abreast.memoizeAs p related

/-! ## Atoms -/

theorem Abreast.saveBool (p : Protocol) (b : Bool) :
    Abreast (H := H) R (saveBool p b) (saveBool p b) :=
  .ite (.ite (Abreast.emit _ _) (Abreast.emit _ _)) (Abreast.emit _ _)

theorem Abreast.saveIntegerBytes (bytes : Bytes) :
    Abreast (H := H) R (saveIntegerBytes bytes) (saveIntegerBytes bytes) :=
  .ite (Abreast.emit _ _) <| .ite (Abreast.emit _ _) (.fail _)

theorem Abreast.saveWord (p : Protocol) (n : Int64) :
    Abreast (H := H) R (saveWord p n) (saveWord p n) :=
  .ite (Abreast.emit _ _) <| .ite (Abreast.emit _ _) <| .ite (Abreast.emit _ _) <|
    .ite (Abreast.saveIntegerBytes _) <| .ite (Abreast.emit _ _) (Abreast.emit _ _)

theorem Abreast.saveLong (p : Protocol) (n : Int) :
    Abreast (H := H) R (saveLong p n) (saveLong p n) :=
  .ite (Abreast.saveWord p _) <| .ite (Abreast.saveIntegerBytes _) (Abreast.emit _ _)

theorem Abreast.saveFloat (p : Protocol) (x : Double) :
    Abreast (H := H) R (saveFloat p x) (saveFloat p x) :=
  .ite (Abreast.emit _ _) (Abreast.emit _ _)

theorem Abreast.saveText (p : Protocol) (text : String) :
    Abreast (H := H) R (saveText p text) (saveText p text) :=
  .ite (Abreast.emit _ _) <| .ite (Abreast.emitPayload _ _) <|
    .ite (Abreast.emitPayload _ _) <| .ite (Abreast.emitPayload _ _) (.fail _)

theorem Abreast.saveBinary (p : Protocol) (bytes : Bytes) :
    Abreast (H := H) R (saveBinary p bytes) (saveBinary p bytes) :=
  .ite (Abreast.emitPayload _ _) <| .ite (Abreast.emitPayload _ _) <|
    .ite (Abreast.emitPayload _ _) (.fail _)

end

end Encoder

end ObjectStream
