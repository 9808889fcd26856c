import ObjectStream.Proofs.Dumping
import ObjectStream.Proofs.Instances

/-!
The walk over the graph.

Every kind of value is carried if the values inside of it are, so by induction on the levels of
nesting that are allowed every value is carried (`Trip.save_saver`). Nothing is said about the order of the
walk: the memos of both sides are the whole of what one part of the walk leaves to another.
-/

namespace ObjectStream

open Decoder (Machine Leads After resolved)
open Encoder

variable {H : Type} [HostObject H]

namespace Trip

variable {x : Trip H} {st st₁ st₂ st' : Encoder.State H} {save : Value → Encode H Unit} {i : Nat}
  {cell : Cell H} {v : Value} {vs : List Value}

/-! ## Objects -/

section
variable (saver : x.Saver save) (agrees : x.Agrees)
include saver agrees

theorem saveCell_carries (found : st.store.cells[i]? = some cell)
    (new : st.memo[Identity.object i]? = none) (sound : x.Sound st.store (.ref i))
    (h : saveCell x.encoder save i cell st = .ok () st') : x.Carries st st' [.ref i] := by
  have plain := (sound.object found).plain
  cases cell with
  | bytearray data => exact saveByteArray_carries saver agrees found new sound h
  | list items => exact saveList_carries saver.carrier found new sound h
  | tuple items =>
    refine saveTuple_carries found plain sound.closed (fun store _ saved => ?_) h
    refine saveAll_carries saver.carrier saved fun v mem => ?_
    rw [store]
    exact sound.child found (Cell.mem_children.2 (.inr mem))
  | dict entries => exact saveDict_carries saver.carrier found new sound h
  | set members =>
    by_cases recent : 4 ≤ x.encoder.protocol.val
    · exact saveSet_carries saver.carrier found new sound recent h
    · have known := agrees.seeds ⟨"builtins", "set"⟩ _ (List.mem_of_getElem? (i := 6) rfl)
      simp only [saveCell, saveSet, if_neg recent] at h
      exact membersCall_carries .set saver known found sound h
  | frozenset members =>
    by_cases recent : 4 ≤ x.encoder.protocol.val
    · exact saveFrozenSet_carries saver.carrier found sound recent h
    · have known := agrees.seeds ⟨"builtins", "frozenset"⟩ _ (List.mem_of_getElem? (i := 7) rfl)
      simp only [saveCell, saveFrozenSet, if_neg recent] at h
      exact membersCall_carries .frozenset saver known found sound h
  | global g => exact plain.elim
  | inst c attributes => exact saveInstance_carries saver agrees found new sound h
  | object content => exact plain.elim

theorem saveObject_carries (sound : x.Sound st.store (.ref i))
    (h : saveObject x.encoder save i st = .ok () st') : x.Carries st st' [.ref i] := by
  obtain ⟨cell, found, -⟩ := sound.inside _ .self
  rw [saveObject, bind_ok (memoized_ok ..)] at h
  cases new : st.memo[Identity.object i]? with
  | some id =>
    simp only [new] at h
    exact carries_fetch h new
  | none =>
    simp only [new] at h
    obtain ⟨_, st₁, get, h⟩ := bind_eq_ok h
    cases get
    simp only [found] at h
    exact saveCell_carries saver agrees found new sound h

end

/-! ## Values -/

theorem saveEmptyTuple_emits (h : saveEmptyTuple x.encoder st = .ok () st') :
    x.Emits st st' fun m Q => Q (m.push .emptyTuple) := by
  rw [saveEmptyTuple] at h
  split at h
  · exact .of_emitted (emit_ok h) fun m Q q => Decoder.leads_push (.of trivial rfl) rfl q
  · obtain ⟨_, st₁, mark, make⟩ := bind_eq_ok h
    refine .of_emitted ((emit_ok mark).trans (emit_ok make)) fun m Q q => ?_
    exact Leads.append (Decoder.leads_mark (Decoder.leads_emptyTuple_mark rfl rfl q))

theorem carries_emptyTuple (h : x.Emits st st' fun m Q => Q (m.push .emptyTuple)) :
    x.Carries st st' [.emptyTuple] := by
  refine ⟨h.sent, h.performs.mono fun m Q ⟨busy, linked, _, q⟩ => q _ [.emptyTuple] ?_⟩
  exact ⟨linked.congr h.store h.memo rfl rfl rfl, .of_eq rfl rfl rfl, rfl, .cons .emptyTuple .nil⟩

theorem saveContent_carries (saver : x.Saver save) (agrees : x.Agrees)
    (sound : x.Sound st.store v) (h : saveContent x.encoder save v st = .ok () st') :
    x.Carries st st' [v] := by
  cases v with
  | none => exact carries_atom (writes_emit h (.of trivial rfl) rfl) fun R => .none
  | bool b => exact carries_atom (saveBool_writes h) fun R => .bool b
  | int n => exact carries_atom (saveWord_writes h) fun R => .int n
  | long n => exact carries_atom (saveLong_writes h) fun R => .long n
  | float d =>
    obtain ⟨y, same, writes⟩ := saveFloat_writes h
    exact carries_atom writes fun R => .float same
  | complex re im => exact saveComplex_carries saver agrees sound h
  | str text => exact carries_atom (saveText_writes h) fun R => .str text
  | bytes bytes => exact saveBytes_carries saver agrees sound h
  | emptyTuple => exact carries_emptyTuple (saveEmptyTuple_emits h)
  | ref i => exact saveObject_carries saver agrees sound h

/-! ## Levels of nesting -/

/-- States between which nothing was written can be taken for each other. -/
theorem Carries.within (before : Emitted st st₁ []) (h : x.Carries st₁ st₂ vs)
    (after : Emitted st₂ st' []) : x.Carries st st' vs := by
  have begun : x.Emits st st₁ fun m Q => Q m := .of_emitted before fun _ _ q => q
  have ended : x.Emits st₂ st' fun m Q => Q m := .of_emitted after fun _ _ q => q
  refine ⟨begun.sent.trans (h.sent.trans ended.sent),
    (begun.performs.trans (h.performs.trans ended.performs)).mono ?_⟩
  rintro m Q ⟨busy, linked, clear, q⟩
  refine ⟨busy, linked.congr begun.store begun.memo rfl rfl rfl, ?_, fun m' ws pushed => q m' ws ?_⟩
  · rw [begun.store]
    exact clear
  · refine ⟨pushed.linked.congr ended.store ended.memo rfl rfl rfl, pushed.after, pushed.stack, ?_⟩
    rw [ended.memo]
    exact pushed.same

theorem Names.within {unmet : List Nat} {g : Global} (before : Emitted st st₁ [])
    (h : x.Names st₁ st₂ unmet g) (after : Emitted st₂ st' []) : x.Names st st' unmet g := by
  have begun : x.Emits st st₁ fun m Q => Q m := .of_emitted before fun _ _ q => q
  have ended : x.Emits st₂ st' fun m Q => Q m := .of_emitted after fun _ _ q => q
  refine ⟨begun.sent.trans (h.sent.trans ended.sent), fun i below apart => ?_,
    (begun.performs.trans (h.performs.trans ended.performs)).mono ?_⟩
  · rw [ended.memo, h.only i (by rw [begun.store]; exact below) apart, begun.memo]
  · rintro m Q ⟨busy, linked, unmet, q⟩
    refine ⟨busy, linked.congr begun.store begun.memo rfl rfl rfl, ?_,
      fun m' j linked' after stack here => ?_⟩
    · rw [begun.memo]
      exact unmet
    · exact q m' j (linked'.congr ended.store ended.memo rfl rfl rfl) after stack here

section
variable {g : Global} {name : Name} {symbol : Symbol} (agrees : x.Agrees)
  (named : x.NamesAt st.store i g name symbol) (h : saveObject x.encoder save i st = .ok () st')
include agrees named h

/-- A global that was not met before is written. -/
theorem saveObject_names : x.Names st st' [i] (resolved name symbol) := by
  rw [saveObject, bind_ok (memoized_ok ..)] at h
  cases new : st.memo[Identity.object i]? with
  | some id =>
    simp only [new] at h
    have emits := emitGet_emits (x := x) h
    refine ⟨emits.sent, fun k _ _ => by rw [emits.memo], emits.performs.mono ?_⟩
    rintro m Q ⟨busy, linked, unmet, q⟩
    rw [unmet i (List.mem_singleton.2 rfl)] at new
    cases new
  | none =>
    simp only [new] at h
    obtain ⟨_, st₁, get, h⟩ := bind_eq_ok h
    cases get
    simp only [named.found] at h
    exact saveGlobal_names named agrees.imports new h

/-- Before protocol 2 a global is carried as other objects are. -/
theorem saveObject_global (early : x.encoder.protocol.val < 2) : x.Carries st st' [.ref i] := by
  rw [saveObject, bind_ok (memoized_ok ..)] at h
  cases new : st.memo[Identity.object i]? with
  | some id =>
    simp only [new] at h
    exact carries_fetch h new
  | none =>
    simp only [new] at h
    obtain ⟨_, st₁, get, h⟩ := bind_eq_ok h
    cases get
    simp only [named.found] at h
    exact saveGlobal_carries named agrees.imports new h early

end

theorem saveContent_operand (saver : x.Saver save) (agrees : x.Agrees)
    (operand : x.Operand st.store v) (h : saveContent x.encoder save v st = .ok () st') :
    x.Carries st st' [v] := by
  cases operand with
  | sound sound => exact saveContent_carries saver agrees sound h
  | global early named => exact saveObject_global agrees named h early

/-- The arguments of a call are carried if each of them is. -/
theorem saveObject_arguments {items : List Value} (saver : x.Saver save)
    (found : st.store.cells[i]? = some (.tuple items)) (some : items ≠ [])
    (operands : ∀ v ∈ items, x.Operand st.store v)
    (h : saveObject x.encoder save i st = .ok () st') : x.Carries st st' [.ref i] := by
  rw [saveObject, bind_ok (memoized_ok ..)] at h
  cases new : st.memo[Identity.object i]? with
  | some id =>
    simp only [new] at h
    exact carries_fetch h new
  | none =>
    simp only [new] at h
    obtain ⟨_, st₁, get, h⟩ := bind_eq_ok h
    cases get
    simp only [found] at h
    have closed : ∀ v ∈ items, st.store.Closed v := fun v mem => (operands v mem).closed
    refine saveTuple_carries found some (Store.closed_of_cell found closed)
      (fun store _ saved => ?_) h
    rw [← store] at closed operands
    exact saveAll_carries_each saved closed fun v mem st₀ st₁ grown run =>
      saver.operand run ((operands v mem).grown grown)

/-- Whatever levels of nesting are left, the walk carries the values that it writes. -/
theorem save_saver (agrees : x.Agrees) (room : Nat) :
    x.Saver (Encoder.save x.encoder room true) := by
  induction room with
  | zero =>
    constructor
    · intro v st st' h
      cases h
    · intro i g name symbol st st' h
      cases h
    · intro v st st' h
      cases h
    · intro i items st st' h
      cases h
    · intro st st' h
      cases h
  | succ room ih =>
    constructor
    · intro v st st' h sound
      obtain ⟨st₁, st₂, before, content, after⟩ := save_ok agrees.plain h
      rw [← before.store] at sound
      exact (saveContent_carries ih agrees sound content).within before after
    · intro i g name symbol st st' h named
      obtain ⟨st₁, st₂, before, content, after⟩ := save_ok agrees.plain h
      rw [← before.store] at named
      exact (saveObject_names agrees named content).within before after
    · intro v st st' h operand
      obtain ⟨st₁, st₂, before, content, after⟩ := save_ok agrees.plain h
      rw [← before.store] at operand
      exact (saveContent_operand ih agrees operand content).within before after
    · intro i items st st' h found some operands
      obtain ⟨st₁, st₂, before, content, after⟩ := save_ok agrees.plain h
      rw [← before.store] at found operands
      exact (saveObject_arguments ih found some operands content).within before after
    · intro st st' h
      obtain ⟨st₁, st₂, before, content, after⟩ := save_ok agrees.plain h
      have begun : x.Emits st st₁ fun m Q => Q m := .of_emitted before fun _ _ q => q
      have ended : x.Emits st₂ st' fun m Q => Q m := .of_emitted after fun _ _ q => q
      exact begun.trans ((saveEmptyTuple_emits content).trans ended)

end Trip

end ObjectStream
