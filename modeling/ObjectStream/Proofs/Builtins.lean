import ObjectStream.Builtin
import ObjectStream.Proofs.Action
import ObjectStream.Proofs.Solid

/-!
What the callables of every registry do to the objects.

A call keeps a store neat (`Store.Tame`): it hands back a value that is there, or fails with a text,
and it goes on for ever only where there are instances.
-/

namespace ObjectStream

variable {H α β : Type}

/-- The action ends on the store as it should: the store stays neat and grows, and the value satisfies
    the condition. Only where there are instances it may go on for ever. -/
def Store.Tame (s : Store H) (x : Action H α) (Q : α → Store H → Prop) : Prop :=
  s.Neat → match x s with
    | .ok a s' => s'.Neat ∧ s.Follows s' ∧ Q a s'
    | .error (.failed _) s' => s'.Neat ∧ s.Follows s'
    | .error .endless s' => s'.Peopled

namespace Store

variable {s : Store H} {Q : β → Store H → Prop} {v : Value}

theorem tame_pure {b : β} (h : Q b s) : s.Tame (pure b) Q :=
  fun neat => ⟨neat, .refl s, h⟩

theorem tame_fail (text : String) : s.Tame (Action.fail text) Q :=
  fun neat => ⟨neat, .refl s⟩

theorem tame_alloc {cell : Cell H} (admits : s.Neat → s.Admits cell) :
    s.Tame (Action.alloc cell) fun v s' => s'.Has v := by
  intro neat
  refine ⟨neat.push (admits neat), .push s cell, ?_⟩
  rintro _ ⟨⟩
  exact Nat.lt_of_lt_of_eq (Nat.lt_succ_self _) (size_push s cell).symm

/-- An object without keys. -/
theorem tame_allocPlain {cell : Cell H} (kind : ∀ content, cell ≠ .object content)
    (keys : cell.keys = []) (has : s.Neat → ∀ v ∈ cell.contents, s.Has v) :
    s.Tame (Action.alloc cell) fun v s' => s'.Has v := by
  refine tame_alloc fun neat => ⟨kind, fun v mem => ?_, fun key mem => ?_⟩
  · rw [Cell.children, keys] at mem
    exact has neat v mem
  · rw [keys] at mem
    cases mem

theorem tame_allocTuple {items : List Value} (has : s.Neat → ∀ v ∈ items, s.Has v) :
    s.Tame (Action.allocTuple items) fun v s' => s'.Has v := by
  cases items with
  | nil => exact tame_pure (has_atom fun i same => by cases same)
  | cons item rest => exact tame_allocPlain (fun _ same => by cases same) rfl has

/-- An outcome that only reads the store, and what is done with it. -/
theorem tame_reading {outcome : Store H → Except String α} {f : α → Action H β}
    (h : ∀ a, outcome s = .ok a → s.Tame (f a) Q) : s.Tame (Builtin.reading outcome >>= f) Q := by
  intro neat
  cases read : outcome s with
  | ok a =>
    have run : Builtin.reading outcome s = .ok a s := by
      simp only [Builtin.reading, bind_apply, get_apply, read]
      rfl
    rw [bind_ok run]
    exact h a read neat
  | error text =>
    have run : Builtin.reading outcome s = .error (.failed text) s := by
      simp only [Builtin.reading, bind_apply, get_apply, read]
      rfl
    rw [bind_apply, run]
    exact ⟨neat, .refl s⟩

/-- An outcome that uses values as keys, and what is done with it. -/
theorem tame_keying {outcome : Store H → Except KeyError α} {f : α → Action H β}
    (h : ∀ a, outcome s = .ok a → s.Tame (f a) Q)
    (h' : s.Neat → outcome s = .error .endless → s.Peopled) :
    s.Tame (Builtin.keying outcome >>= f) Q := by
  intro neat
  cases asked : outcome s with
  | ok a =>
    have run : Builtin.keying outcome s = .ok a s := by
      simp only [Builtin.keying, bind_apply, get_apply, asked]
      rfl
    rw [bind_ok run]
    exact h a asked neat
  | error e =>
    have run : Builtin.keying outcome s = .error (.ofKey e) s := by
      simp only [Builtin.keying, bind_apply, get_apply, asked]
      rfl
    rw [bind_apply, run]
    cases e with
    | unhashable name => exact ⟨neat, .refl s⟩
    | endless => exact h' neat asked

/-! ## What calls are given -/

theorem has_of_tuple? {items : List Value} (neat : s.Neat) (h : s.tuple? v = some items) :
    ∀ u ∈ items, s.Has u := by
  rcases cell_of_tuple? h with rfl | found
  · exact fun _ none => by cases none
  · exact neat.held found

theorem has_of_dict? {d : Dict} (neat : s.Neat) (h : s.dict? v = some d) :
    ∀ e ∈ d.entries.toList, s.Has e.1 ∧ s.Has e.2 := by
  have held := neat.held (cell_of_dict? h)
  intro e mem
  exact ⟨held e.1 (Cell.mem_children.2 (.inl (List.mem_map_of_mem mem))),
    held e.2 (Cell.mem_children.2 (.inr (List.mem_map_of_mem mem)))⟩

variable [HostObject H]

/-- The elements of a value are atoms, or its object holds them. -/
theorem has_of_elements {vs : List Value} (neat : s.Neat) (h : s.elements v = .ok vs) :
    ∀ u ∈ vs, s.Has u := by
  have ofBytes : ∀ bs : Bytes, ∀ u ∈ elements.ofBytes bs, s.Has u := by
    intro bs u mem
    obtain ⟨b, -, rfl⟩ := List.mem_map.1 mem
    exact has_atom fun i same => by cases same
  cases v with
  | emptyTuple =>
    cases h
    exact fun _ none => by cases none
  | bytes bs =>
    cases h
    exact ofBytes bs
  | str text =>
    cases h
    intro u mem
    obtain ⟨c, -, rfl⟩ := List.mem_map.1 mem
    exact has_atom fun i same => by cases same
  | ref i =>
    simp only [elements] at h
    cases found : s.cell? (.ref i) with
    | none =>
      rw [found] at h
      cases h
    | some cell =>
      rw [found] at h
      have held := neat.held found
      cases cell with
      | list items | tuple items =>
        cases h
        exact held
      | set members | frozenset members =>
        cases h
        exact fun u mem => held u (Cell.mem_children.2 (.inl mem))
      | dict entries =>
        cases h
        exact fun u mem => held u (Cell.mem_children.2 (.inl mem))
      | bytearray data =>
        cases h
        exact ofBytes data
      | _ => cases h
  | _ => cases h

/-- What a check lets through. -/
theorem ok_of_checked {γ : Type} {check : Except String Unit} {rest : Except String γ} {c : γ}
    (h : (check >>= fun _ => rest) = .ok c) : rest = .ok c := by
  cases check with
  | error text => cases h
  | ok _ => exact h

theorem has_of_optionalElements {args vs : List Value} (neat : s.Neat)
    (h : s.optionalElements args = .ok vs) : ∀ u ∈ vs, s.Has u := by
  have elements := ok_of_checked h
  cases args with
  | nil =>
    cases elements
    exact fun _ none => by cases none
  | cons v rest => exact has_of_elements neat elements

/-- What is collected from a list comes from its items. -/
theorem mem_of_mapM {γ δ : Type} {f : γ → Except String δ} {items : List γ} {results : List δ}
    (h : items.mapM f = .ok results) : ∀ d ∈ results, ∃ item ∈ items, f item = .ok d := by
  induction items generalizing results with
  | nil =>
    cases h
    exact fun _ none => by cases none
  | cons item rest ih =>
    rw [List.mapM_cons] at h
    cases first : f item with
    | error text =>
      rw [first] at h
      cases h
    | ok d =>
      rw [first] at h
      cases others : rest.mapM f with
      | error text =>
        rw [others] at h
        cases h
      | ok ds =>
        rw [others] at h
        cases h
        intro d' mem
        rcases List.mem_cons.1 mem with rfl | mem
        · exact ⟨item, List.mem_cons_self .., first⟩
        · obtain ⟨item', mem', here⟩ := ih others d' mem
          exact ⟨item', List.mem_cons_of_mem _ mem', here⟩

omit [HostObject H] in
theorem pairOf_eq_some {v : Value} {e : Value × Value} :
    s.pairOf v = some e ↔ s.tuple? v = some [e.1, e.2] := by
  rw [pairOf]
  split
  · next first second tuple => simp [tuple, Prod.ext_iff]
  · next other => exact iff_of_false nofun (other e.1 e.2)

theorem has_of_dictArguments {args : List Value} {entries : List (Value × Value)} (neat : s.Neat)
    (h : s.dictArguments args = .ok entries) : ∀ e ∈ entries, s.Has e.1 ∧ s.Has e.2 := by
  have given := ok_of_checked h
  cases args with
  | nil =>
    cases given
    exact fun _ none => by cases none
  | cons v rest =>
    dsimp only at given
    cases dict : s.dict? v with
    | some d =>
      rw [dict] at given
      cases given
      exact has_of_dict? neat dict
    | none =>
      rw [dict] at given
      cases elements : s.elements v with
      | error text =>
        rw [elements] at given
        cases given
      | ok vs =>
        rw [elements] at given
        intro e mem
        obtain ⟨pair, -, made⟩ := mem_of_mapM given e mem
        cases two : s.pairOf pair with
        | none =>
          rw [two] at made
          cases made
        | some entry =>
          rw [two] at made
          cases made
          have has := has_of_tuple? neat (pairOf_eq_some.1 two)
          exact ⟨has _ (List.mem_cons_self ..),
            has _ (List.mem_cons_of_mem _ (List.mem_cons_self ..))⟩

/-! ## Calls -/

/-- The callables of every registry. -/
theorem tame_run (ns : Option Namespace) (function : Builtin) (args : List Value) :
    s.Tame (function.run ns args) fun v s' => s'.Has v := by
  cases function with
  | complex =>
    exact tame_reading fun _ _ => tame_pure (has_atom fun i same => by cases same)
  | bytes =>
    exact tame_reading fun _ _ => tame_pure (has_atom fun i same => by cases same)
  | encode =>
    exact tame_reading fun _ _ => tame_pure (has_atom fun i same => by cases same)
  | bytearray =>
    exact tame_reading fun _ _ => tame_allocPlain (fun _ same => by cases same) rfl
      fun _ _ none => by cases none
  | getattr =>
    exact tame_reading fun _ _ => tame_allocPlain (fun _ same => by cases same) rfl
      fun _ _ none => by cases none
  | list =>
    exact tame_reading fun _ items => tame_allocPlain (fun _ same => by cases same) rfl
      fun neat => has_of_optionalElements neat items
  | tuple =>
    exact tame_reading fun _ items => tame_allocTuple fun neat => has_of_optionalElements neat items
  | set =>
    exact tame_reading fun vs items => tame_keying
      (fun t made => tame_alloc fun neat =>
        ((membersOf_cases neat (has_of_optionalElements neat items)).1 t made).1)
      fun neat => (membersOf_cases neat (has_of_optionalElements neat items)).2
  | frozenset =>
    exact tame_reading fun vs items => tame_keying
      (fun t made => tame_alloc fun neat =>
        ((membersOf_cases neat (has_of_optionalElements neat items)).1 t made).2)
      fun neat => (membersOf_cases neat (has_of_optionalElements neat items)).2
  | dict =>
    exact tame_reading fun entries given => tame_keying
      (fun d made => tame_alloc fun neat =>
        (dictOf_cases neat (has_of_dictArguments neat given)).1 d made)
      fun neat => (dictOf_cases neat (has_of_dictArguments neat given)).2
  | newobj => exact tame_fail _
  | newobjEx => exact tame_fail _
  | reconstructor => exact tame_fail _

end Store

/-- The host has no functions of its own: whatever is called in it fails. -/
def Host.Mute (host : Host H) : Prop :=
  ∀ number args (s : Store H), ∃ text, host.call number args s = .error (.failed text) s

namespace Store

variable [HostObject H] {s : Store H} {host : Host H} {v : Value}

/-- A call leads to a new instance, to a callable of every registry, or to a host that fails. -/
theorem tame_carryOut (mute : host.Mute) (target : Store H → Except String Target) :
    s.Tame (host.carryOut target) fun v s' => s'.Has v := by
  refine tame_reading fun t _ => ?_
  cases t with
  | create c =>
    exact tame_allocPlain (fun _ same => by cases same) rfl fun _ _ none => by cases none
  | run callable args =>
    cases callable with
    | host number =>
      intro neat
      obtain ⟨text, run⟩ := mute number args s
      dsimp only
      rw [run]
      exact ⟨neat, .refl s⟩
    | builtin registry function => exact tame_run _ function args

end Store

end ObjectStream
