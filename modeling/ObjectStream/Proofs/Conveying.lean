import ObjectStream.Proofs.Calling
import ObjectStream.Proofs.GlobalLines
import ObjectStream.Proofs.References

/-!
Writing in the order of the asking.

A hook of the encoder that notes the ids it gives leaves as many notes as it has given ids. An action
conveys them if what it writes refers to the ids that are given meanwhile, in order (`Conveys`). Asking
and writing of the reference stand next to each other, so it is enough that nothing else that is written
for an object of a built-in kind refers to an id or changes notes: one lemma for each function of the
encoder that such an object meets (`conveys_saveContent`).
-/

namespace ObjectStream

variable {H : Type}

/-- A global of a name that has its lines to itself, or an object of another built-in kind. -/
def Cell.Native : Cell H → Prop
  | .global g => ∃ name : Name, g = .named name.module name.qualname ∧ name.Unbroken
  | cell => cell.Plain fun _ => False

theorem Cell.Native.content? {cell : Cell H} (h : cell.Native) : cell.content? = none := by
  cases cell with
  | object => exact h.elim
  | _ => rfl

namespace Store

variable {s s' s'' : Store H} {u v : Value} {i : Nat} {cell : Cell H}

/-- Every object but those of the host is kept as it is. -/
def Kept (s s' : Store H) : Prop :=
  ∀ (i : Nat) (cell : Cell H), s.cells[i]? = some cell → cell.content? = none →
    s'.cells[i]? = some cell

theorem Kept.refl (s : Store H) : s.Kept s := fun _ _ found _ => found

theorem Kept.trans (h : s.Kept s') (h' : s'.Kept s'') : s.Kept s'' :=
  fun i cell found kind => h' i cell (h i cell found kind) kind

theorem Grown.kept (h : s.Grown s') : s.Kept s' := fun i cell found _ => h i cell found

/-- Every object that the value reaches is of a built-in kind. -/
def Native (s : Store H) (v : Value) : Prop :=
  ∀ i, s.Reaches v (.ref i) → ∃ cell, s.cells[i]? = some cell ∧ cell.Native

namespace Native

theorem of_atom (atom : v.identity? = none) : s.Native v := by
  intro i reach
  rw [← reach.eq_of_atom fun j same => by rw [same] at atom; cases atom] at atom
  cases atom

theorem child (h : s.Native (.ref i)) (found : s.cells[i]? = some cell) (held : u ∈ cell.children) :
    s.Native u := fun j inside => h j (.of_child found held inside)

theorem kept (h : s.Native v) (kept : s.Kept s') : s'.Native v := by
  have back : ∀ {w}, s'.Reaches v w → s.Reaches v w := by
    intro w reach
    induction reach with
    | self => exact .self
    | child _ found held ih =>
      obtain ⟨cell, found', native⟩ := h _ ih
      obtain rfl := Option.some.inj (found.symm.trans (kept _ _ found' native.content?))
      exact .child ih found' held
  intro i reach
  obtain ⟨cell, found, native⟩ := h i (back reach)
  exact ⟨cell, kept i cell found native.content?, native⟩

/-- A new object holds values that were there before. -/
theorem push (native : cell.Native) (held : ∀ u ∈ cell.children, s.Native u) :
    (s.push cell).Native (.ref s.size) := by
  intro i reach
  rcases reach.ref_cases (cell_push_last s cell) with same | ⟨u, mem, inside⟩
  · cases same
    exact ⟨cell, cell_push_last s cell, native⟩
  · exact (held u mem).kept (Grown.push s cell).kept i inside

end Native

end Store

/-- A reader makes a word of an integer that a word holds. -/
def Value.reread : Value → Value
  | .long n => .ofInt n
  | v => v

variable [HostObject H]

namespace Decoder.References

variable {cfg : Config H}

theorem single {op : Opcode} {operand : op.shape.Operand} (fits : op.shape.Fits operand)
    (other : op.isBracket = false ∧ op.looksUp = false) : References cfg [⟨op, operand⟩] [] :=
  .apart (.of fits other.1) other.2 .nil

theorem pops (count : Nat) : References cfg (List.replicate count ⟨.pop, ()⟩) [] := by
  induction count with
  | zero => exact .nil
  | succ count ih => exact .apart (.of trivial rfl) rfl ih

theorem getInstruction (p : Protocol) (id : Nat) : References cfg [Encoder.getInstruction p id] [] := by
  unfold Encoder.getInstruction
  split
  · split
    · exact single trivial ⟨rfl, rfl⟩
    · exact single trivial ⟨rfl, rfl⟩
  · exact single (Literal.newline_not_mem_decimalLine _) ⟨rfl, rfl⟩

theorem putInstruction (p : Protocol) (id : Nat) : References cfg [Encoder.putInstruction p id] [] := by
  unfold Encoder.putInstruction
  split
  · exact single trivial ⟨rfl, rfl⟩
  split
  · split
    · exact single trivial ⟨rfl, rfl⟩
    · exact single trivial ⟨rfl, rfl⟩
  · exact single (Literal.newline_not_mem_decimalLine _) ⟨rfl, rfl⟩

theorem extensionInstruction (code : Nat) : References cfg [Encoder.extensionInstruction code] [] := by
  unfold Encoder.extensionInstruction
  split
  · exact single trivial ⟨rfl, rfl⟩
  split
  · exact single trivial ⟨rfl, rfl⟩
  · exact single trivial ⟨rfl, rfl⟩

end Decoder.References

namespace Encoder

open Decoder (References)

variable {α β : Type} {dc : Decoder.Config H} {L : Ledger H} {st st' st'' : State H}
  {is : List Instruction} {vs : List Value}

/-- What was written between the two states refers to the ids that were noted meanwhile, in order, and
    the objects of built-in kinds are still what they were. -/
structure Sends (dc : Decoder.Config H) (L : Ledger H) (st st' : State H) : Prop where
  kept : st.store.Kept st'.store
  refers : ∃ is ids, Wrote st st' is ∧ References dc is (ids.map Value.reread) ∧
    L.read st'.store = L.read st.store ++ ids

namespace Sends

theorem trans (h : Sends dc L st st') (h' : Sends dc L st' st'') : Sends dc L st st'' := by
  obtain ⟨is, ids, wrote, refers, noted⟩ := h.refers
  obtain ⟨js, ids', wrote', refers', noted'⟩ := h'.refers
  refine ⟨h.kept.trans h'.kept, is ++ js, ids ++ ids', wrote.trans wrote', ?_, ?_⟩
  · rw [List.map_append]
    exact refers.append refers'
  · rw [noted', noted, List.append_assoc]

/-- Nothing was noted, and nothing that was written refers to an id. -/
theorem of_wrote (grown : st.store.Grown st'.store) (wrote : Wrote st st' is)
    (refers : References dc is []) (same : L.read st'.store = L.read st.store) : Sends dc L st st' :=
  ⟨grown.kept, is, [], wrote, refers, by rw [same, List.append_nil]⟩

theorem of_emitted (emitted : Emitted st st' is) (refers : References dc is []) : Sends dc L st st' :=
  of_wrote (emitted.store ▸ .refl _) emitted.wrote refers (by rw [emitted.store])

end Sends

/-- Whatever the action writes refers to the ids that are noted meanwhile, in order, if these values
    reach objects of built-in kinds only. -/
def Conveys (dc : Decoder.Config H) (L : Ledger H) (vs : List Value) (x : Encode H α) : Prop :=
  ∀ st a st', (∀ v ∈ vs, st.store.Native v) → x st = .ok a st' → Sends dc L st st'

namespace Conveys

theorem pure (a : α) : Conveys dc L vs (pure a : Encode H α) := by
  intro st a st' _ run
  cases run
  exact .of_emitted ⟨rfl, rfl, (Silent.refl _).wrote⟩ .nil

theorem bind {x : Encode H α} {f : α → Encode H β} (h : Conveys dc L vs x)
    (h' : ∀ a, Conveys dc L vs (f a)) : Conveys dc L vs (x >>= f) := by
  intro st b st' native run
  obtain ⟨a, st₁, first, rest⟩ := bind_eq_ok run
  have sends := h st a st₁ native first
  exact sends.trans (h' a st₁ b st' (fun v mem => (native v mem).kept sends.kept) rest)

theorem get {f : State H → Encode H α} (h : ∀ st, Conveys dc L vs (f st)) :
    Conveys dc L vs (get >>= f) :=
  fun st => h st st

theorem ite {c : Prop} [Decidable c] {x y : Encode H α} (h : c → Conveys dc L vs x)
    (h' : ¬c → Conveys dc L vs y) : Conveys dc L vs (if c then x else y) := by
  split
  · next holds => exact h holds
  · next fails => exact h' fails

theorem forM {γ : Type} {items : List γ} {f : γ → Encode H Unit}
    (h : ∀ item ∈ items, Conveys dc L vs (f item)) : Conveys dc L vs (items.forM f) := by
  induction items with
  | nil => exact .pure ()
  | cons item rest ih =>
    obtain ⟨first, others⟩ := List.forall_mem_cons.1 h
    exact .bind first fun _ => ih others

theorem of_emitted {x : Encode H Unit} (h : ∀ {st st'}, x st = .ok () st' → Emitted st st' is)
    (refers : References dc is []) : Conveys dc L vs x :=
  fun _ _ _ _ run => .of_emitted (h run) refers

theorem of_writes {x : Encode H Unit} (h : ∀ {st st'}, x st = .ok () st' → ∃ v, Writes dc st st' v) :
    Conveys dc L vs x := by
  intro st _ st' _ run
  obtain ⟨v, i, emitted, utters⟩ := h run
  exact .of_emitted emitted (.utter utters .nil)

/-- Behind the making of an object the values reach that object as well. -/
theorem alloc {cell : Cell H} {f : Value → Encode H α} (native : cell.Native)
    (held : ∀ u ∈ cell.children, u ∈ vs ∨ u.identity? = none)
    (h : ∀ v, Conveys dc L (v :: vs) (f v)) : Conveys dc L vs (alloc cell >>= f) := by
  intro st b st' natives run
  have kind := native.content?
  obtain ⟨v, st₁, make, rest⟩ := bind_eq_ok run
  obtain ⟨rfl, store, -, silent⟩ := alloc_ok make
  have grown : st.store.Grown st₁.store := by
    rw [store]
    exact .push _ _
  have sends : Sends dc L st st₁ :=
    .of_wrote grown silent.wrote .nil (by rw [store, L.read_push kind])
  have made : st₁.store.Native (.ref st.store.size) := by
    rw [store]
    exact .push native fun u mem => (held u mem).elim (natives u) .of_atom
  refine sends.trans (h _ st₁ b st' (List.forall_mem_cons.2 ⟨made, fun u mem => ?_⟩) rest)
  exact (natives u mem).kept sends.kept

theorem allocNamed {module qualname : String} {f : Value → Encode H α}
    (unbroken : Name.Unbroken ⟨module, qualname⟩) (h : ∀ v, Conveys dc L (v :: vs) (f v)) :
    Conveys dc L vs (allocNamed module qualname >>= f) :=
  .alloc ⟨⟨module, qualname⟩, rfl, unbroken⟩ (List.forall_mem_nil _) h

theorem atom {v : Value} {x : Encode H α} (atom : v.identity? = none)
    (h : Conveys dc L (v :: vs) x) : Conveys dc L vs x :=
  fun st a st' native run => h st a st' (List.forall_mem_cons.2 ⟨.of_atom atom, native⟩) run

theorem allocTuple {items : List Value} {f : Value → Encode H α}
    (held : ∀ u ∈ items, u ∈ vs ∨ u.identity? = none) (h : ∀ v, Conveys dc L (v :: vs) (f v)) :
    Conveys dc L vs (allocTuple items >>= f) := by
  cases items with
  | nil => exact .atom rfl (h _)
  | cons first rest => exact .alloc nofun held h

end Conveys

/-! ## Instructions -/

theorem conveys_emit {op : Opcode} {operand : op.shape.Operand} (fits : op.shape.Fits operand)
    (other : op.isBracket = false ∧ op.looksUp = false) : Conveys dc L vs (emit op operand) :=
  .of_emitted emit_ok (.single fits other)

theorem conveys_pops (count : Nat) : Conveys dc L vs (emitTimes count .pop ()) :=
  .of_emitted emitTimes_ok (.pops count)

theorem conveys_emitGet (p : Protocol) (id : Nat) : Conveys dc L vs (emitGet p id) :=
  .of_emitted emitGet_ok (.getInstruction p id)

theorem conveys_memoizeAs (p : Protocol) (a : Identity) : Conveys dc L vs (memoizeAs p a) := by
  intro st _ st' _ run
  obtain ⟨-, store, -, wrote⟩ := memoizeAs_emits run
  exact .of_wrote (store ▸ .refl _) wrote (.putInstruction ..) (by rw [store])

theorem conveys_memoize (p : Protocol) (v : Value) : Conveys dc L vs (memoize p v) := by
  cases v with
  | ref id => exact conveys_memoizeAs p _
  | _ => exact .pure ()

/-- Either something is fetched, or it is written. -/
theorem conveys_memoizedValue {v : Value} {f : Option Nat → Encode H α}
    (known : ∀ id, Conveys dc L vs (f (some id))) (new : Conveys dc L vs (f none)) :
    Conveys dc L vs (memoizedValue v >>= f) := by
  cases v with
  | ref id =>
    refine .get fun st => ?_
    show Conveys dc L vs (f st.memo[Identity.object id]?)
    cases st.memo[Identity.object id]? with
    | none => exact new
    | some n => exact known n
  | _ => exact new

theorem conveys_memoizeBuilt (cfg : Config H) (v : Value) : Conveys dc L vs (memoizeBuilt cfg v) :=
  conveys_memoizedValue
    (fun id => .bind (conveys_emit trivial ⟨rfl, rfl⟩) fun _ => conveys_emitGet _ id)
    (conveys_memoize _ v)

/-! ## Items and entries -/

section
variable {cfg : Config H} {save : Value → Encode H Unit}
  (inner : ∀ vs, ∀ v ∈ vs, Conveys dc L vs (save v)) {items : List Value} {entries : List (Value × Value)}
include inner

theorem conveys_saveAll (held : items ⊆ vs) : Conveys dc L vs (saveAll save items) := by
  induction items with
  | nil => exact .pure ()
  | cons v rest ih =>
    obtain ⟨first, others⟩ := List.cons_subset.1 held
    exact .bind (inner vs v first) fun _ => ih others

theorem conveys_saveEntries (held : ∀ e ∈ entries, e.1 ∈ vs ∧ e.2 ∈ vs) :
    Conveys dc L vs (saveEntries save entries) := by
  induction entries with
  | nil => exact .pure ()
  | cons e rest ih =>
    obtain ⟨⟨key, content⟩, others⟩ := List.forall_mem_cons.1 held
    exact .bind (inner vs _ key) fun _ => .bind (inner vs _ content) fun _ => ih others

theorem conveys_appendBatch (held : items ⊆ vs) : Conveys dc L vs (appendBatch save items) := by
  rcases items with _ | ⟨v, _ | ⟨w, rest⟩⟩
  · exact .pure ()
  · exact .bind (inner vs v (held (List.mem_cons_self ..))) fun _ => conveys_emit trivial ⟨rfl, rfl⟩
  · exact .bind (conveys_emit trivial ⟨rfl, rfl⟩) fun _ => .bind (conveys_saveAll inner held) fun _ =>
      conveys_emit trivial ⟨rfl, rfl⟩

theorem conveys_appendItems (held : items ⊆ vs) : Conveys dc L vs (appendItems cfg save items) := by
  refine .ite (fun _ => .forM fun piece mem => conveys_appendBatch inner fun v inside => held ?_)
    fun _ => ?_
  · rw [← Trip.flatten_batches items]
    exact List.mem_flatten_of_mem mem inside
  · induction items with
    | nil => exact .pure ()
    | cons v rest ih =>
      obtain ⟨first, others⟩ := List.cons_subset.1 held
      exact .bind (inner vs v first) fun _ => .bind (conveys_emit trivial ⟨rfl, rfl⟩) fun _ => ih others

theorem conveys_storeBatch (held : ∀ e ∈ entries, e.1 ∈ vs ∧ e.2 ∈ vs) :
    Conveys dc L vs (storeBatch save entries) := by
  rcases entries with _ | ⟨⟨key, content⟩, _ | ⟨e, rest⟩⟩
  · exact .pure ()
  · obtain ⟨first, second⟩ := held _ (List.mem_cons_self ..)
    exact .bind (inner vs _ first) fun _ => .bind (inner vs _ second) fun _ =>
      conveys_emit trivial ⟨rfl, rfl⟩
  · exact .bind (conveys_emit trivial ⟨rfl, rfl⟩) fun _ =>
      .bind (conveys_saveEntries inner held) fun _ => conveys_emit trivial ⟨rfl, rfl⟩

theorem conveys_storeEntries (held : ∀ e ∈ entries, e.1 ∈ vs ∧ e.2 ∈ vs) :
    Conveys dc L vs (storeEntries cfg save entries) := by
  refine .ite (fun _ => .forM fun piece mem => conveys_storeBatch inner fun e inside => held e ?_)
    fun _ => ?_
  · rw [← Trip.flatten_batches entries]
    exact List.mem_flatten_of_mem mem inside
  · induction entries with
    | nil => exact .pure ()
    | cons e rest ih =>
      obtain ⟨⟨key, content⟩, others⟩ := List.forall_mem_cons.1 held
      exact .bind (inner vs _ key) fun _ => .bind (inner vs _ content) fun _ =>
        .bind (conveys_emit trivial ⟨rfl, rfl⟩) fun _ => ih others

theorem conveys_addBatch (held : items ⊆ vs) : Conveys dc L vs (addBatch save items) := by
  cases items with
  | nil => exact .pure ()
  | cons v rest =>
    exact .bind (conveys_emit trivial ⟨rfl, rfl⟩) fun _ => .bind (conveys_saveAll inner held) fun _ =>
      conveys_emit trivial ⟨rfl, rfl⟩

/-! ## Globals and calls -/

theorem conveys_writeGlobal {name : Name} (unbroken : name.Unbroken) :
    Conveys dc L vs (writeGlobal cfg save name) := by
  intro st given st' native run
  obtain ⟨code, -, -, -, emitted⟩ | ⟨-, -, emitted⟩ | ⟨-, undotted, -, emitted⟩ |
    ⟨-, -, parent, last, rest, dotted, call⟩ := writeGlobal_cases run
  · exact .of_emitted emitted (.extensionInstruction code)
  · refine .of_emitted emitted (.utter (Decoder.utters_textInstruction ..) ?_)
    exact .utter (Decoder.utters_textInstruction ..) (.single trivial ⟨rfl, rfl⟩)
  · have whole := firstSegment_of_undotted undotted
    exact .of_emitted emitted
      (.single (cfg.fits_lines unbroken.module (whole ▸ unbroken.first)) ⟨rfl, rfl⟩)
  · have owner : Name.Unbroken ⟨name.module, parent⟩ :=
      ⟨unbroken.module, (firstSegment_parent dotted).symm ▸ unbroken.first⟩
    have conveys : Conveys dc L vs (writeCall save name.module parent last) := by
      refine .allocNamed owner fun owner => .allocTuple (fun u mem => ?_) fun args =>
        .allocNamed ⟨by decide, by decide⟩ fun getter => ?_
      · rcases List.mem_cons.1 mem with rfl | mem
        · exact .inl (List.mem_cons_self ..)
        · exact .inr (List.mem_singleton.1 mem ▸ rfl)
      · exact .bind (inner _ getter (by simp)) fun _ => .bind (inner _ args (by simp)) fun _ =>
          conveys_emit trivial ⟨rfl, rfl⟩
    exact conveys st () st' native call

theorem conveys_saveGlobal {v : Value} {name : Name} (unbroken : name.Unbroken) :
    Conveys dc L vs (saveGlobal cfg save v (.named name.module name.qualname)) := by
  refine .bind (conveys_writeGlobal inner unbroken) fun given => ?_
  cases given with
  | false => exact .pure ()
  | true => exact conveys_memoize _ v

/-- The call of a global that is no object creation. -/
theorem conveys_saveNamedCall {module qualname : String} {args : List Value} {obj : Option Value}
    (plain : qualname ≠ "__newobj_ex__" ∧ qualname ≠ "__newobj__")
    (unbroken : Name.Unbroken ⟨module, qualname⟩)
    (held : ∀ u ∈ args, u ∈ vs ∨ u.identity? = none) :
    Conveys dc L vs (saveNamedCall cfg save module qualname args obj) := by
  rw [saveNamedCall_eq plain]
  refine .allocNamed unbroken fun f => .allocTuple (fun u mem => ?_) fun a => ?_
  · exact (held u mem).imp (List.mem_cons_of_mem _) id
  refine .bind (inner _ f (by simp)) fun _ => .bind (inner _ a (by simp)) fun _ =>
    .bind (conveys_emit trivial ⟨rfl, rfl⟩) fun _ => ?_
  cases obj with
  | none => exact .pure ()
  | some v => exact conveys_memoizeBuilt cfg v

/-! ## Kinds of objects -/

theorem conveys_saveBytes (bytes : Bytes) : Conveys dc L vs (saveBytes cfg save bytes) := by
  refine .ite (fun _ => .of_writes fun run => ⟨_, saveBinary_writes run⟩) fun _ => .ite (fun _ => ?_)
    fun _ => ?_
  · exact conveys_saveNamedCall inner (by decide) ⟨by decide, by decide⟩ (List.forall_mem_nil _)
  · refine conveys_saveNamedCall inner (by decide) ⟨by decide, by decide⟩ fun u mem => .inr ?_
    simp only [List.mem_cons, List.not_mem_nil, or_false] at mem
    rcases mem with rfl | rfl <;> rfl

theorem conveys_saveByteArray (v : Value) (data : Bytes) :
    Conveys dc L vs (saveByteArray cfg save v data) := by
  refine .ite (fun _ => .bind (.of_emitted emitPayload_ok (.single trivial ⟨rfl, rfl⟩)) fun _ =>
    conveys_memoize _ v) fun _ => ?_
  refine conveys_saveNamedCall inner (by decide) ⟨by decide, by decide⟩ fun u mem => .inr ?_
  split at mem
  · cases mem
  · exact List.mem_singleton.1 mem ▸ rfl

theorem conveys_saveList (v : Value) (held : items ⊆ vs) :
    Conveys dc L vs (saveList cfg save v items) := by
  have rest : Conveys dc L vs (memoize cfg.protocol v >>= fun _ => appendItems cfg save items) :=
    .bind (conveys_memoize _ v) fun _ => conveys_appendItems inner held
  exact .ite (fun _ => .bind (conveys_emit trivial ⟨rfl, rfl⟩) fun _ => rest) fun _ =>
    .bind (conveys_emit trivial ⟨rfl, rfl⟩) fun _ =>
      .bind (conveys_emit trivial ⟨rfl, rfl⟩) fun _ => rest

theorem conveys_saveDict (v : Value) (held : ∀ e ∈ entries, e.1 ∈ vs ∧ e.2 ∈ vs) :
    Conveys dc L vs (saveDict cfg save v entries) := by
  have rest : Conveys dc L vs (memoize cfg.protocol v >>= fun _ => storeEntries cfg save entries) :=
    .bind (conveys_memoize _ v) fun _ => conveys_storeEntries inner held
  exact .ite (fun _ => .bind (conveys_emit trivial ⟨rfl, rfl⟩) fun _ => rest) fun _ =>
    .bind (conveys_emit trivial ⟨rfl, rfl⟩) fun _ =>
      .bind (conveys_emit trivial ⟨rfl, rfl⟩) fun _ => rest

/-- The items of a tuple are written once more if they lead back to the tuple. -/
theorem conveys_saveTuple (v : Value) (held : items ⊆ vs) :
    Conveys dc L vs (saveTuple cfg save v items) := by
  refine .ite (fun _ => .bind (conveys_saveAll inner held) fun _ => ?_) fun _ =>
    .bind (conveys_emit trivial ⟨rfl, rfl⟩) fun _ => .bind (conveys_saveAll inner held) fun _ => ?_
  · refine conveys_memoizedValue (fun id => ?_) (.bind ?_ fun _ => conveys_memoize _ v)
    · exact .bind (conveys_pops _) fun _ => conveys_emitGet _ id
    · rcases items with _ | ⟨_, _ | ⟨_, _ | _⟩⟩
      all_goals exact conveys_emit trivial ⟨rfl, rfl⟩
  · refine conveys_memoizedValue (fun id => .ite (fun _ => ?_) fun _ => ?_) ?_
    · exact .bind (conveys_emit trivial ⟨rfl, rfl⟩) fun _ => conveys_emitGet _ id
    · exact .bind (conveys_pops _) fun _ => conveys_emitGet _ id
    · exact .bind (conveys_emit trivial ⟨rfl, rfl⟩) fun _ => conveys_memoize _ v

/-- Before protocol 4 a set is the call of its kind with a new list of its members. -/
theorem conveys_saveMembers {v : Value} {qualname : String}
    (plain : qualname ≠ "__newobj_ex__" ∧ qualname ≠ "__newobj__")
    (unbroken : Name.Unbroken ⟨"builtins", qualname⟩) (held : items ⊆ vs) :
    Conveys dc L vs (alloc (.list items.toArray) >>= fun list =>
      saveNamedCall cfg save "builtins" qualname [list] (some v)) := by
  refine .alloc trivial (fun u mem => .inl (held ?_)) fun list => ?_
  · simpa [Cell.children, Cell.keys, Cell.contents] using mem
  · refine conveys_saveNamedCall inner plain unbroken fun u mem => .inl ?_
    exact List.mem_singleton.1 mem ▸ List.mem_cons_self ..

theorem conveys_saveSet (v : Value) (held : items ⊆ vs) :
    Conveys dc L vs (saveSet cfg save v items) := by
  refine .ite (fun _ => ?_) fun _ =>
    conveys_saveMembers inner (by decide) ⟨by decide, by decide⟩ held
  refine .bind (conveys_emit trivial ⟨rfl, rfl⟩) fun _ => .bind (conveys_memoize _ v) fun _ =>
    .forM fun piece mem => conveys_addBatch inner fun u inside => held ?_
  rw [← Trip.flatten_batches items]
  exact List.mem_flatten_of_mem mem inside

theorem conveys_saveFrozenSet (v : Value) (held : items ⊆ vs) :
    Conveys dc L vs (saveFrozenSet cfg save v items) := by
  refine .ite (fun _ => .bind (conveys_emit trivial ⟨rfl, rfl⟩) fun _ =>
    .bind (conveys_saveAll inner held) fun _ => ?_) fun _ =>
    conveys_saveMembers inner (by decide) ⟨by decide, by decide⟩ held
  exact conveys_memoizedValue
    (fun id => .bind (conveys_emit trivial ⟨rfl, rfl⟩) fun _ => conveys_emitGet _ id)
    (.bind (conveys_emit trivial ⟨rfl, rfl⟩) fun _ => conveys_memoize _ v)

theorem conveys_saveCell (i : Nat) {cell : Cell H} (native : cell.Native) (held : cell.children ⊆ vs) :
    Conveys dc L vs (saveCell cfg save i cell) := by
  cases cell with
  | bytearray data => exact conveys_saveByteArray inner _ data
  | list items => exact conveys_saveList inner _ fun u mem => held (Cell.mem_children.2 (.inr mem))
  | tuple items => exact conveys_saveTuple inner _ fun u mem => held (Cell.mem_children.2 (.inr mem))
  | dict entries =>
    refine conveys_saveDict inner _ fun e mem => ⟨held (Cell.mem_children.2 (.inl ?_)),
      held (Cell.mem_children.2 (.inr ?_))⟩
    · exact List.mem_map_of_mem mem
    · exact List.mem_map_of_mem mem
  | set members => exact conveys_saveSet inner _ fun u mem => held (Cell.mem_children.2 (.inl mem))
  | frozenset members =>
    exact conveys_saveFrozenSet inner _ fun u mem => held (Cell.mem_children.2 (.inl mem))
  | global g =>
    obtain ⟨name, rfl, unbroken⟩ := native
    exact conveys_saveGlobal inner unbroken
  | inst => exact native.elim
  | object => exact native.elim

theorem conveys_saveObject {i : Nat} (mem : .ref i ∈ vs) :
    Conveys dc L vs (saveObject cfg save i) := by
  intro st a st' natives run
  rw [saveObject, bind_ok (memoized_ok ..)] at run
  cases known : st.memo[Identity.object i]? with
  | some n =>
    rw [known] at run
    exact conveys_emitGet _ n st a st' natives run
  | none =>
    obtain ⟨cell, found, native⟩ := natives _ mem i .self
    rw [known] at run
    simp only [bind_ok (get_apply st), found] at run
    have conveys : Conveys dc L cell.children (saveCell cfg save i cell) :=
      conveys_saveCell inner i native (List.Subset.refl _)
    exact conveys st a st' (fun u held => (natives _ mem).child found held) run

theorem conveys_saveContent {v : Value} (mem : v ∈ vs) :
    Conveys dc L vs (saveContent cfg save v) := by
  cases v with
  | none => exact conveys_emit trivial ⟨rfl, rfl⟩
  | bool b => exact .of_writes fun run => ⟨_, saveBool_writes run⟩
  | int n => exact .of_writes fun run => ⟨_, saveWord_writes run⟩
  | long n => exact .of_writes fun run => ⟨_, saveLong_writes run⟩
  | float x =>
    refine .of_writes fun run => ?_
    obtain ⟨y, -, writes⟩ := saveFloat_writes run
    exact ⟨_, writes⟩
  | complex re im =>
    refine conveys_saveNamedCall inner (by decide) ⟨by decide, by decide⟩ fun u mem => .inr ?_
    simp only [List.mem_cons, List.not_mem_nil, or_false] at mem
    rcases mem with rfl | rfl <;> rfl
  | str text => exact .of_writes fun run => ⟨_, saveText_writes run⟩
  | bytes bytes => exact conveys_saveBytes inner bytes
  | emptyTuple =>
    exact .ite (fun _ => conveys_emit trivial ⟨rfl, rfl⟩) fun _ =>
      .bind (conveys_emit trivial ⟨rfl, rfl⟩) fun _ => conveys_emit trivial ⟨rfl, rfl⟩
  | ref i => exact conveys_saveObject inner mem

end

end Encoder

end ObjectStream
