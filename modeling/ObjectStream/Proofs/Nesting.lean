import Mathlib.Data.List.TakeWhile
import ObjectStream.Proofs.DottedPaths
import ObjectStream.Proofs.Dumping
import ObjectStream.Proofs.Graph

/-!
Names that are written.

A dotted name has no line of its own before protocol 4. It is written as the call of `getattr` with the
global before the last dot, which may be dotted again, so one name can take several globals. `Spelling`
says which instructions a name takes. The objects that the encoder makes for them are new: of those that
were there before, a global gives a number to itself only (`Spares`), and to nothing that refers to it.
-/

namespace ObjectStream

/-! ## The first segment -/

/-- What stands before the first dot of a name. -/
def firstSegment (name : String) : String :=
  String.ofList (name.toList.takeWhile (· ≠ '.'))

theorem firstSegment_of_undotted {name : String} (h : dottedSplits name = []) :
    firstSegment name = name := by
  have all : name.toList.takeWhile (· ≠ '.') = name.toList := by
    refine List.takeWhile_eq_self_iff.2 fun c mem => decide_eq_true ?_
    rintro rfl
    exact dottedSplits_eq_nil.1 h mem
  rw [firstSegment, all, String.ofList_toList]

/-- A dotted name begins with the segment that the name before its last dot begins with. -/
theorem firstSegment_parent {name parent last : String} {rest : List (String × String)}
    (h : dottedSplits name = (parent, last) :: rest) : firstSegment parent = firstSegment name := by
  have whole : name.toList = parent.toList ++ '.' :: last.toList := by
    rw [(dottedSplits_cons h).1]
    simp
  rw [firstSegment, firstSegment, whole, List.takeWhile_append]
  split
  · next undotted =>
    rw [(List.takeWhile_prefix _).eq_of_length undotted, List.takeWhile_cons_of_neg (by simp),
      List.append_nil]
  · rfl

namespace Encoder

variable {H : Type}

/-! ## Spellings -/

namespace Config

variable (cfg : Config H)

/-- What stands before the two arguments of `getattr`, if anything does. -/
def opening : List Instruction := if 2 ≤ cfg.protocol.val then [] else [⟨.mark, ()⟩]

/-- The instruction that makes a tuple of two values. -/
def pairing : Instruction := if 2 ≤ cfg.protocol.val then ⟨.tuple2, ()⟩ else ⟨.tuple, ()⟩

/-- What stands behind something that was written, if it is given a number. -/
def numbering (given : Bool) (id : Nat) : List Instruction :=
  if given then [putInstruction cfg.protocol id] else []

/-- The instructions spell the name. What they leave on the stack of the reader is given a number
    behind them, unless they are an extension code. -/
inductive Spelling : Name → Bool → List Instruction → Prop
  | extension {name : Name} {code : Nat} (late : 2 ≤ cfg.protocol.val)
      (known : cfg.registry.extensionCode? name = some code) :
      Spelling name false [extensionInstruction code]
  | texts {name : Name} (late : 4 ≤ cfg.protocol.val) :
      Spelling name true [textInstruction cfg.protocol name.module,
        textInstruction cfg.protocol name.qualname, ⟨.stackGlobal, ()⟩]
  | lines {name : Name} (early : cfg.protocol.val < 4) (undotted : dottedSplits name.qualname = []) :
      Spelling name true [⟨.global, cfg.lines name⟩]
  | nested {name : Name} {parent last : String} {rest : List (String × String)}
      {is js : List Instruction} {given given' : Bool} (early : cfg.protocol.val < 4)
      (dotted : dottedSplits name.qualname = (parent, last) :: rest)
      (getter : Spelling ⟨"builtins", "getattr"⟩ given is)
      (owner : Spelling ⟨name.module, parent⟩ given' js) (counts : cfg.protocol.Counts last)
      {first second third : Nat} (numbers : first < 2 ^ 32 ∧ second < 2 ^ 32 ∧ third < 2 ^ 32) :
      Spelling name true (is ++ cfg.numbering given first ++ (cfg.opening ++
        (js ++ cfg.numbering given' second ++ [textInstruction cfg.protocol last]) ++
        [cfg.pairing, putInstruction cfg.protocol third]) ++ [⟨.reduce, ()⟩])

/-- The instructions spell the name, and give what they push a number if it can have one. -/
def Names (name : Name) (is : List Instruction) : Prop :=
  ∃ given id js, id < 2 ^ 32 ∧ cfg.Spelling name given js ∧ is = js ++ cfg.numbering given id

end Config

/-! ## What is given a number -/

/-- Everything that has a number is in the store. -/
def State.Present (st : State H) : Prop :=
  ∀ (j n : Nat), st.memo[Identity.object j]? = some n → j < st.store.size

/-- Objects were made and none changed, and of what there was before only the objects in `only` can
    have been given a number. -/
structure Spares (st st' : State H) (only : List Nat) : Prop where
  grown : st.store.Grown st'.store
  memo : ∀ a : Identity, (∀ j, a = .object j → j < st.store.size ∧ j ∉ only) →
    st'.memo[a]? = st.memo[a]?

/-- Between the two states only these objects and new ones were given numbers. If none of them had one,
    the instructions that were written satisfy the condition. -/
structure Gives (st st' : State H) (only : List Nat) (P : List Instruction → Prop) : Prop where
  spares : Spares st st' only
  wrote : st.Present → (∀ j ∈ only, st.memo[Identity.object j]? = none) →
    ∃ is, Wrote st st' is ∧ P is ∧ st'.Present

section
variable {st st₁ st₂ st' : State H} {only only' : List Nat} {is : List Instruction}
  {P Q : List Instruction → Prop}

theorem State.Present.of_emitted (h : st.Present) (emitted : Emitted st st' is) : st'.Present := by
  intro j n here
  rw [emitted.memo] at here
  rw [emitted.store]
  exact h j n here

theorem Spares.of_emitted (h : Emitted st st' is) (only : List Nat) : Spares st st' only :=
  ⟨by rw [h.store]; exact .refl _, fun a _ => by rw [h.memo]⟩

theorem Spares.mono (h : Spares st st' only)
    (sub : ∀ j ∈ only, j ∈ only' ∨ st.store.size ≤ j) : Spares st st' only' := by
  refine ⟨h.grown, fun a apart => h.memo a fun j same => ?_⟩
  obtain ⟨below, other⟩ := apart j same
  refine ⟨below, fun mem => ?_⟩
  rcases sub j mem with mem | above
  · exact other mem
  · omega

theorem Spares.trans (h : Spares st st₁ only) (h' : Spares st₁ st' only') :
    Spares st st' (only ++ only') := by
  refine ⟨h.grown.trans h'.grown, fun a apart => ?_⟩
  have before : st₁.memo[a]? = st.memo[a]? := h.memo a fun j same =>
    ⟨(apart j same).1, fun mem => (apart j same).2 (List.mem_append_left _ mem)⟩
  rw [← before]
  refine h'.memo a fun j same => ⟨?_, fun mem => (apart j same).2 (List.mem_append_right _ mem)⟩
  exact Nat.lt_of_lt_of_le (apart j same).1 h.grown.size_le

/-- An object that is not among those that may be given a number keeps what it had. -/
theorem Spares.object (h : Spares st st' only) {i : Nat} (below : i < st.store.size)
    (other : i ∉ only) : st'.memo[Identity.object i]? = st.memo[Identity.object i]? :=
  h.memo _ fun j same => by
    cases same
    exact ⟨below, other⟩

theorem Gives.of_emitted (h : Emitted st st' is) (only : List Nat) (holds : P is) :
    Gives st st' only P :=
  ⟨.of_emitted h only, fun present _ => ⟨is, h.wrote, holds, present.of_emitted h⟩⟩

theorem Gives.mono (h : Gives st st' only P) (holds : ∀ is, P is → Q is) : Gives st st' only Q :=
  ⟨h.spares, fun present unmet => by
    obtain ⟨is, wrote, p, present'⟩ := h.wrote present unmet
    exact ⟨is, wrote, holds is p, present'⟩⟩

/-- One piece of writing behind another, which gives numbers to other objects. -/
theorem Gives.trans (h : Gives st st₁ only P) (h' : Gives st₁ st' only' Q)
    (apart : ∀ j ∈ only', j < st.store.size ∧ j ∉ only) :
    Gives st st' (only ++ only') fun is => ∃ js ks, is = js ++ ks ∧ P js ∧ Q ks := by
  refine ⟨h.spares.trans h'.spares, fun present unmet => ?_⟩
  obtain ⟨js, wrote, p, present₁⟩ := h.wrote present fun j mem => unmet j (List.mem_append_left _ mem)
  obtain ⟨ks, wrote', q, present'⟩ := h'.wrote present₁ fun j mem => by
    rw [h.spares.object (apart j mem).1 (apart j mem).2]
    exact unmet j (List.mem_append_right _ mem)
  exact ⟨js ++ ks, wrote.trans wrote', ⟨js, ks, rfl, p, q⟩, present'⟩

/-- Nothing is written on the way to a value and back. -/
theorem Gives.within (before : Emitted st st₁ []) (h : Gives st₁ st₂ only P)
    (after : Emitted st₂ st' []) : Gives st st' only P := by
  constructor
  · have spares := ((Spares.of_emitted before []).trans h.spares).trans (.of_emitted after [])
    exact spares.mono fun j mem => .inl (by simpa using mem)
  · intro present unmet
    obtain ⟨is, wrote, p, present'⟩ := h.wrote (present.of_emitted before) fun j mem => by
      rw [before.memo]
      exact unmet j mem
    refine ⟨is, ?_, p, present'.of_emitted after⟩
    simpa using (before.wrote.trans wrote).trans after.wrote

theorem alloc_ok {cell : Cell H} {v : Value} (h : alloc cell st = .ok v st') :
    v = .ref st.store.size ∧ st'.store = st.store.push cell ∧ st'.memo = st.memo ∧ Silent st st' := by
  cases h
  exact ⟨rfl, rfl, rfl, ⟨rfl, rfl, rfl⟩⟩

/-- What is given a number may be an object that was made for it. -/
theorem Gives.made {cell : Cell H} {v : Value} (make : alloc cell st = .ok v st₁)
    (h : Gives st₁ st' only' P) (new : ∀ j ∈ only', j ∈ only ∨ j = st.store.size) :
    Gives st st' only P := by
  obtain ⟨-, store, memo, silent⟩ := alloc_ok make
  have grown : st.store.Grown st₁.store := by
    rw [store]
    exact .push _ _
  constructor
  · refine ⟨grown.trans h.spares.grown, fun a apart => ?_⟩
    rw [← memo]
    refine h.spares.memo a fun j same => ?_
    obtain ⟨below, other⟩ := apart j same
    refine ⟨Nat.lt_of_lt_of_le below grown.size_le, fun mem => ?_⟩
    rcases new j mem with mem | rfl
    · exact other mem
    · exact Nat.lt_irrefl _ below
  · intro present unmet
    have present₁ : st₁.Present := fun j n here =>
      Nat.lt_of_lt_of_le (present j n (memo ▸ here)) grown.size_le
    obtain ⟨is, wrote, p, present'⟩ := h.wrote present₁ fun j mem => by
      rw [memo]
      rcases new j mem with mem | rfl
      · exact unmet j mem
      · exact Option.eq_none_iff_forall_ne_some.2 fun n known => Nat.lt_irrefl _ (present _ n known)
    exact ⟨is, silent.wrote.trans wrote, p, present'⟩

/-- An object that has a number by now had one before, or was given one on the way. -/
theorem Gives.known {t n : Nat} (h : Gives st st₁ only P) (known : st₁.memo[Identity.object t]? = some n)
    (below : t < st.store.size) (other : t ∉ only) (emitted : Emitted st₁ st' is) :
    Gives st st' (only ++ [t]) Q := by
  refine ⟨h.spares.trans (.of_emitted emitted [t]), fun _ unmet => ?_⟩
  have former := unmet t (List.mem_append_right _ (List.mem_singleton_self t))
  rw [h.spares.object below other, former] at known
  cases known

/-- An object gets its number behind what was written for it. -/
theorem Gives.numbered {p : Protocol} {i : Nat} (h : Gives st st₁ only P) (below : i < st.store.size)
    (memo : memoizeAs p (.object i) st₁ = .ok () st') :
    Gives st st' (only ++ [i]) fun is =>
      ∃ js id, id < 2 ^ 32 ∧ is = js ++ [putInstruction p id] ∧ P js := by
  obtain ⟨room, store, sent, wrote⟩ := memoizeAs_emits memo
  constructor
  · refine h.spares.trans ⟨by rw [store]; exact .refl _, fun a apart => ?_⟩
    rw [sent, Std.HashMap.getElem?_insert, if_neg]
    intro same
    exact (apart i (eq_of_beq same).symm).2 (List.mem_singleton_self i)
  · intro present unmet
    obtain ⟨js, wrote', q, present₁⟩ := h.wrote present fun j mem => unmet j (List.mem_append_left _ mem)
    refine ⟨_, wrote'.trans wrote, ⟨js, _, room, rfl, q⟩, fun j n here => ?_⟩
    rw [sent, Std.HashMap.getElem?_insert] at here
    rw [store]
    split at here
    · next same =>
      obtain rfl := Identity.object.inj (eq_of_beq same)
      exact Nat.lt_of_lt_of_le below h.spares.grown.size_le
    · exact present₁ j n here

end

/-! ## Globals -/

/-- The instructions make a tuple of the global of a name and a text, and give it a number. -/
def Config.Pairs (cfg : Config H) (name : Name) (last : String) (is : List Instruction) : Prop :=
  cfg.protocol.Counts last ∧ ∃ js id, id < 2 ^ 32 ∧ cfg.Names name js ∧
    is = cfg.opening ++ (js ++ [textInstruction cfg.protocol last]) ++
      [cfg.pairing, putInstruction cfg.protocol id]

/-- What the walk does for the values that the encoder makes to write a name. -/
structure Speller (cfg : Config H) (save : Value → Encode H Unit) : Prop where
  texts : ∀ {text : String} {st st' : State H}, save (.str text) st = .ok () st' →
    Emitted st st' [textInstruction cfg.protocol text] ∧ cfg.protocol.Counts text
  names : ∀ {i : Nat} {module qualname : String} {st st' : State H},
    st.store.cells[i]? = some (.global (.named module qualname)) → save (.ref i) st = .ok () st' →
    Gives st st' [i] (cfg.Names ⟨module, qualname⟩)
  pairs : ∀ {owner i : Nat} {module qualname last : String} {st st' : State H},
    st.store.cells[owner]? = some (.global (.named module qualname)) →
    st.store.cells[i]? = some (.tuple [.ref owner, .str last]) → save (.ref i) st = .ok () st' →
    Gives st st' [owner, i] (cfg.Pairs ⟨module, qualname⟩ last)
  empty : ∀ {st st' : State H}, save .emptyTuple st = .ok () st' → ∃ is, Emitted st st' is

section
variable {cfg : Config H} {save : Value → Encode H Unit} {st st' : State H} {i : Nat}
  {module qualname : String}

theorem Speller.items (speller : Speller cfg save) {owner : Nat} {last : String}
    (found : st.store.cells[owner]? = some (.global (.named module qualname)))
    (h : saveAll save [.ref owner, .str last] st = .ok () st') :
    Gives st st' [owner] fun is => cfg.protocol.Counts last ∧ ∃ js, cfg.Names ⟨module, qualname⟩ js ∧
      is = js ++ [textInstruction cfg.protocol last] := by
  obtain ⟨_, st₁, global, h⟩ := bind_eq_ok h
  obtain ⟨_, st₂, text, done⟩ := bind_eq_ok h
  cases done
  obtain ⟨written, counts⟩ := speller.texts text
  have second : Gives st₁ st' [] (· = [textInstruction cfg.protocol last]) :=
    .of_emitted written [] rfl
  refine ((speller.names found global).trans second (List.forall_mem_nil _)).mono ?_
  rintro is ⟨js, ks, rfl, named, rfl⟩
  exact ⟨counts, js, named, rfl⟩

/-- A tuple that is still unknown behind its items is made, and one that is known is fetched. -/
theorem Speller.tuple (speller : Speller cfg save) {owner : Nat} {last : String}
    (global : st.store.cells[owner]? = some (.global (.named module qualname)))
    (found : st.store.cells[i]? = some (.tuple [.ref owner, .str last]))
    (h : saveTuple cfg save (.ref i) [.ref owner, .str last] st = .ok () st') :
    Gives st st' [owner, i] (cfg.Pairs ⟨module, qualname⟩ last) := by
  have below := Store.lt_size_of_cell found
  have other : i ∉ [owner] := by
    intro same
    rw [List.mem_singleton.1 same, global] at found
    cases found
  simp only [saveTuple, List.length_cons, List.length_nil] at h
  by_cases late : 2 ≤ cfg.protocol.val
  · simp only [late, decide_true, Bool.and_true] at h
    obtain ⟨_, st₁, items, h⟩ := bind_eq_ok h
    have gives := speller.items global items
    obtain ⟨_, _, look, h⟩ := bind_eq_ok h
    cases look
    cases known : st₁.memo[Identity.object i]? with
    | some n =>
      simp only [known] at h
      obtain ⟨_, st₂, pops, get⟩ := bind_eq_ok h
      exact gives.known known below other ((emitTimes_ok pops).trans (emitGet_ok get))
    | none =>
      simp only [known] at h
      obtain ⟨_, st₂, make, number⟩ := bind_eq_ok h
      have made : Gives st₁ st₂ [] (· = [⟨.tuple2, ()⟩]) := .of_emitted (emit_ok make) [] rfl
      refine ((gives.trans made (List.forall_mem_nil _)).numbered below number).mono ?_
      rintro is ⟨_, id, small, rfl, _, _, rfl, ⟨counts, js, named, rfl⟩, rfl⟩
      refine ⟨counts, js, id, small, named, ?_⟩
      simp [Config.opening, Config.pairing, late]
  · simp only [late, decide_false, Bool.and_false, Bool.false_eq_true, if_false] at h
    obtain ⟨_, st₀, mark, h⟩ := bind_eq_ok h
    obtain ⟨_, st₁, items, h⟩ := bind_eq_ok h
    have opened : Gives st st₀ [] (· = [⟨.mark, ()⟩]) := .of_emitted (emit_ok mark) [] rfl
    have inside := speller.items (by rw [(emit_ok mark).store]; exact global) items
    have gives := opened.trans inside fun j mem => by
      rw [List.mem_singleton.1 mem]
      exact ⟨Store.lt_size_of_cell global, List.not_mem_nil⟩
    obtain ⟨_, _, look, h⟩ := bind_eq_ok h
    cases look
    cases known : st₁.memo[Identity.object i]? with
    | some n =>
      simp only [known] at h
      split at h
      all_goals obtain ⟨_, st₂, pops, get⟩ := bind_eq_ok h
      · exact gives.known known below other ((emit_ok pops).trans (emitGet_ok get))
      · exact gives.known known below other ((emitTimes_ok pops).trans (emitGet_ok get))
    | none =>
      simp only [known] at h
      obtain ⟨_, st₂, make, number⟩ := bind_eq_ok h
      have made : Gives st₁ st₂ [] (· = [⟨.tuple, ()⟩]) := .of_emitted (emit_ok make) [] rfl
      refine ((gives.trans made (List.forall_mem_nil _)).numbered below number).mono ?_
      rintro is ⟨_, id, small, rfl, _, _, rfl, ⟨_, _, rfl, rfl, counts, js, named, rfl⟩, rfl⟩
      refine ⟨counts, js, id, small, named, ?_⟩
      simp [Config.opening, Config.pairing, late]

/-- The call of `getattr` with the global before the last dot and the text behind it. -/
theorem Speller.nested (speller : Speller cfg save) {name : Name} {parent last : String}
    {rest : List (String × String)} {owner args getter : Nat} (early : cfg.protocol.val < 4)
    (dotted : dottedSplits name.qualname = (parent, last) :: rest)
    (made : st.store.cells[owner]? = some (.global (.named name.module parent)) ∧
      st.store.cells[args]? = some (.tuple [.ref owner, .str last]) ∧
      st.store.cells[getter]? = some (.global (.named "builtins" "getattr")))
    (apart : owner ≠ getter ∧ args ≠ getter)
    {st₁ st₂ : State H} (first : save (.ref getter) st = .ok () st₁)
    (second : save (.ref args) st₁ = .ok () st₂) (call : emit .reduce () st₂ = .ok () st') :
    Gives st st' [getter, owner, args] (cfg.Spelling name true) := by
  obtain ⟨foundOwner, foundArgs, foundGetter⟩ := made
  have gives := speller.names foundGetter first
  have grown := gives.spares.grown
  have gives' := speller.pairs (grown _ _ foundOwner) (grown _ _ foundArgs) second
  have called : Gives st₂ st' [] (· = [⟨.reduce, ()⟩]) := .of_emitted (emit_ok call) [] rfl
  refine ((gives.trans gives' fun j mem => ?_).trans called (List.forall_mem_nil _)).mono ?_
  · simp only [List.mem_cons, List.not_mem_nil, or_false] at mem
    rcases mem with rfl | rfl
    · exact ⟨Store.lt_size_of_cell foundOwner, by simpa using apart.1⟩
    · exact ⟨Store.lt_size_of_cell foundArgs, by simpa using apart.2⟩
  · rintro is ⟨_, _, rfl, ⟨_, _, rfl, ⟨_, n, is, small, getting, rfl⟩, counts, js, id, small'',
      ⟨_, n', ks, small', owning, rfl⟩, rfl⟩, rfl⟩
    exact .nested early dotted getting owning counts ⟨small, small', small''⟩

/-- The objects that the call is written with are made for it. -/
theorem Speller.call (speller : Speller cfg save) {name : Name} {parent last : String}
    {rest : List (String × String)} (early : cfg.protocol.val < 4)
    (dotted : dottedSplits name.qualname = (parent, last) :: rest)
    (h : writeCall save name.module parent last st = .ok () st') :
    Gives st st' [] (cfg.Spelling name true) := by
  obtain ⟨owner, st₁, makeOwner, h⟩ := bind_eq_ok h
  obtain ⟨args, st₂, makeArgs, h⟩ := bind_eq_ok h
  obtain ⟨getter, st₃, makeGetter, h⟩ := bind_eq_ok h
  obtain ⟨_, st₄, first, h⟩ := bind_eq_ok h
  obtain ⟨_, st₅, second, call⟩ := bind_eq_ok h
  obtain ⟨rfl, store₁, -⟩ := alloc_ok makeOwner
  obtain ⟨rfl, store₂, -⟩ := alloc_ok makeArgs
  obtain ⟨rfl, store₃, -⟩ := alloc_ok makeGetter
  have size₁ : st₁.store.size = st.store.size + 1 := by rw [store₁, Store.size_push]
  have size₂ : st₂.store.size = st₁.store.size + 1 := by rw [store₂, Store.size_push]
  have grown₃ : st₂.store.Grown st₃.store := by rw [store₃]; exact .push _ _
  have grown₂ : st₁.store.Grown st₃.store := .trans (by rw [store₂]; exact .push _ _) grown₃
  have foundOwner := grown₂ _ _ (store₁ ▸ Store.cell_push_last ..)
  have foundArgs := grown₃ _ _ (store₂ ▸ Store.cell_push_last ..)
  have foundGetter := store₃ ▸ Store.cell_push_last st₂.store _
  have gives := speller.nested early dotted ⟨foundOwner, foundArgs, foundGetter⟩
    ⟨by omega, by omega⟩ first second call
  have gives : Gives st₂ st' [st.store.size, st₁.store.size] (cfg.Spelling name true) :=
    .made makeGetter gives fun j mem => (List.mem_cons.1 mem).symm
  have gives : Gives st₁ st' [st.store.size] (cfg.Spelling name true) :=
    .made makeArgs gives fun j mem => by simpa using mem
  exact .made makeOwner gives fun j mem => .inr (List.mem_singleton.1 mem)

/-- Writing a name spells it. The objects that are made for it are new. -/
theorem Speller.name (speller : Speller cfg save) {name : Name} {given : Bool}
    (h : writeGlobal cfg save name st = .ok given st') :
    Gives st st' [] (cfg.Spelling name given) := by
  obtain ⟨code, late, known, rfl, emitted⟩ | ⟨late, rfl, emitted⟩ | ⟨early, undotted, rfl, emitted⟩ |
    ⟨early, rfl, _, _, _, dotted, call⟩ := writeGlobal_cases h
  · exact .of_emitted emitted [] (.extension late known)
  · exact .of_emitted emitted [] (.texts late)
  · exact .of_emitted emitted [] (.lines early undotted)
  · exact speller.call early dotted call

end

/-! ## The walk -/

variable {cfg : Config H} {st st' : State H} {i : Nat}

/-- A global spells the name that it is written under. -/
theorem Speller.global {g : Global} {save : Value → Encode H Unit} (speller : Speller cfg save)
    (below : i < st.store.size) (h : saveGlobal cfg save (.ref i) g st = .ok () st') :
    ∃ name, wireName cfg g = .ok name ∧ Gives st st' [i] (cfg.Names name) := by
  unfold saveGlobal at h
  cases wire : wireName cfg g with
  | error e =>
    rw [wire] at h
    cases h
  | ok name =>
    simp only [wire] at h
    obtain ⟨given, st₁, write, h⟩ := bind_eq_ok h
    have gives := speller.name write
    refine ⟨name, rfl, ?_⟩
    cases given with
    | true =>
      refine (gives.numbered below h).mono ?_
      rintro is ⟨js, id, small, rfl, spelling⟩
      exact ⟨true, id, js, small, spelling, rfl⟩
    | false =>
      cases h
      refine ⟨gives.spares.mono (List.forall_mem_nil _), fun present _ => ?_⟩
      obtain ⟨is, wrote, spelling, present'⟩ := gives.wrote present (List.forall_mem_nil _)
      exact ⟨is, wrote, ⟨false, 0, is, Nat.two_pow_pos 32, spelling, (List.append_nil is).symm⟩, present'⟩

variable [HostObject H]

/-- A known object is fetched, and another one is written. -/
theorem Gives.object {save : Value → Encode H Unit} {only : List Nat} {cell : Cell H}
    {P : List Instruction → Prop} (found : st.store.cells[i]? = some cell) (mem : i ∈ only)
    (written : saveCell cfg save i cell st = .ok () st' → Gives st st' only P)
    (h : saveObject cfg save i st = .ok () st') : Gives st st' only P := by
  rw [saveObject, bind_ok (memoized_ok ..)] at h
  cases known : st.memo[Identity.object i]? with
  | some n =>
    simp only [known] at h
    refine ⟨.of_emitted (emitGet_ok h) only, fun _ unmet => ?_⟩
    rw [unmet i mem] at known
    cases known
  | none =>
    simp only [known] at h
    obtain ⟨_, st₁, get, h⟩ := bind_eq_ok h
    cases get
    simp only [found] at h
    exact written h

omit [HostObject H] in
theorem saveEmptyTuple_ok (h : saveEmptyTuple cfg st = .ok () st') : ∃ is, Emitted st st' is := by
  unfold saveEmptyTuple at h
  split at h
  · exact ⟨_, emit_ok h⟩
  · obtain ⟨_, st₁, mark, make⟩ := bind_eq_ok h
    exact ⟨_, (emit_ok mark).trans (emit_ok make)⟩

/-- Whatever levels of nesting are left, the walk spells names. -/
theorem speller_save (plain : cfg.persistentId = none) (room : Nat) :
    Speller cfg (save cfg room true) := by
  induction room with
  | zero => exact ⟨nofun, fun _ => nofun, fun _ _ => nofun, nofun⟩
  | succ room ih =>
    constructor
    · intro text st st' h
      obtain ⟨st₁, st₂, before, content, after⟩ := save_ok plain h
      obtain ⟨written, counts⟩ := saveText_ok content
      exact ⟨(before.trans written).trans after, counts⟩
    · intro i module qualname st st' found h
      obtain ⟨st₁, st₂, before, content, after⟩ := save_ok plain h
      rw [← before.store] at found
      refine .within before (.object found (List.mem_singleton_self i) (fun run => ?_) content) after
      have written : saveGlobal cfg (save cfg room true) (.ref i) (.named module qualname) st₁ =
        .ok () st₂ := run
      obtain ⟨name, wire, gives⟩ := ih.global (Store.lt_size_of_cell found) written
      obtain rfl : ⟨module, qualname⟩ = name := Except.ok.inj wire
      exact gives
    · intro owner i module qualname last st st' global found h
      obtain ⟨st₁, st₂, before, content, after⟩ := save_ok plain h
      rw [← before.store] at global found
      have mem : i ∈ [owner, i] := List.mem_cons_of_mem _ (List.mem_singleton_self i)
      exact .within before (.object found mem (ih.tuple global found) content) after
    · intro st st' h
      obtain ⟨st₁, st₂, before, content, after⟩ := save_ok plain h
      obtain ⟨is, emitted⟩ := saveEmptyTuple_ok content
      exact ⟨_, (before.trans emitted).trans after⟩

end Encoder

end ObjectStream
