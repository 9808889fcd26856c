import ObjectStream.Proofs.Comparison
import ObjectStream.Proofs.Tidy

/-!
Keys whose comparison ends.

A decoder builds objects from objects that are there already (`Store.Neat`). What it accepts as a key
is made of tuples and frozen sets around atoms, globals and instances (`Store.Solid`), and a tuple
holds only objects older than itself. So the image of a key is always found (`image_ne_endless`), and
the comparison of two keys ends unless it comes upon instances (`comparable_of_solid`): instances are
the only keys that can hold themselves, and the only ones that can be closed.
-/

namespace ObjectStream

variable {H : Type}

/-! ## Stores that grow -/

/-- What a key may be is still the same, but for the attributes of an instance. -/
def Cell.Lasts : Cell H → Cell H → Prop
  | .tuple items, cell => cell = .tuple items
  | .frozenset members, cell => cell = .frozenset members
  | .global g, cell => cell = .global g
  | .inst c _, cell => ∃ t, cell = .inst c t
  | _, _ => True

theorem Cell.Lasts.refl (cell : Cell H) : cell.Lasts cell := by
  cases cell with
  | inst c t => exact ⟨t, rfl⟩
  | tuple | frozenset | global => rfl
  | _ => trivial

theorem Cell.Lasts.trans {x y z : Cell H} (h : x.Lasts y) (h' : y.Lasts z) : x.Lasts z := by
  cases x with
  | inst c t =>
    obtain ⟨t', rfl⟩ := h
    exact h'
  | tuple | frozenset | global =>
    cases h
    exact h'
  | _ => trivial

namespace Store

variable {s s' s'' : Store H} {v : Value}

/-- The object that the value refers to is there. -/
def Has (s : Store H) (v : Value) : Prop := ∀ i, v = .ref i → i < s.size

theorem has_atom (h : ∀ i, v ≠ .ref i) : s.Has v := fun i same => absurd same (h i)

/-- An instance is there. -/
def Peopled (s : Store H) : Prop := ∃ (i : Nat) (c : Class) (t : Dict), s.cells[i]? = some (.inst c t)

/-- All objects are still there, and what may be a key is still the same. -/
def Follows (s s' : Store H) : Prop :=
  ∀ (i : Nat) (cell : Cell H), s.cells[i]? = some cell →
    ∃ cell', s'.cells[i]? = some cell' ∧ cell.Lasts cell'

/-- A value that can be told from others: an atom, a global or an instance, or a tuple or a frozen set
    of such values. -/
inductive Solid (s : Store H) : Value → Prop
  | atom {v : Value} (h : ∀ i, v ≠ .ref i) : s.Solid v
  | tuple {i : Nat} {items : List Value} (found : s.cells[i]? = some (.tuple items))
      (inside : ∀ v ∈ items, s.Solid v) : s.Solid (.ref i)
  | frozenset {i : Nat} {members : Members} (found : s.cells[i]? = some (.frozenset members))
      (inside : ∀ v ∈ members.keys, s.Solid v) : s.Solid (.ref i)
  | global {i : Nat} {g : Global} (found : s.cells[i]? = some (.global g)) : s.Solid (.ref i)
  | inst {i : Nat} {c : Class} {t : Dict} (found : s.cells[i]? = some (.inst c t)) : s.Solid (.ref i)

namespace Follows

theorem refl (s : Store H) : s.Follows s := fun _ cell found => ⟨cell, found, .refl cell⟩

theorem trans (h : s.Follows s') (h' : s'.Follows s'') : s.Follows s'' := by
  intro i cell found
  obtain ⟨cell', found', lasts⟩ := h i cell found
  obtain ⟨cell'', found'', lasts'⟩ := h' i cell' found'
  exact ⟨cell'', found'', lasts.trans lasts'⟩

theorem size_le (h : s.Follows s') : s.size ≤ s'.size := by
  by_contra less
  obtain ⟨cell, found⟩ := cell_of_lt_size (Nat.lt_of_not_le less)
  obtain ⟨cell', found', -⟩ := h _ cell found
  exact Nat.lt_irrefl _ (lt_size_of_cell found')

theorem has (h : s.Follows s') (here : s.Has v) : s'.Has v :=
  fun i same => Nat.lt_of_lt_of_le (here i same) h.size_le

theorem solid (h : s.Follows s') (here : s.Solid v) : s'.Solid v := by
  induction here with
  | atom atom => exact .atom atom
  | tuple found _ ih =>
    obtain ⟨_, found', rfl⟩ := h _ _ found
    exact .tuple found' ih
  | frozenset found _ ih =>
    obtain ⟨_, found', rfl⟩ := h _ _ found
    exact .frozenset found' ih
  | global found =>
    obtain ⟨_, found', rfl⟩ := h _ _ found
    exact .global found'
  | inst found =>
    obtain ⟨_, found', t, rfl⟩ := h _ _ found
    exact .inst found'

theorem push (s : Store H) (cell : Cell H) : s.Follows (s.push cell) :=
  fun i cell' found => ⟨cell', Grown.push s cell i cell' found, .refl cell'⟩

theorem modify (s : Store H) (id : Nat) {change : Cell H → Cell H}
    (lasts : ∀ cell : Cell H, cell.Lasts (change cell)) : s.Follows (s.modify id change) := by
  intro i cell found
  simp only [Store.modify, Array.getElem?_modify, found]
  by_cases same : id = i
  · exact ⟨change cell, by rw [if_pos same]; rfl, lasts cell⟩
  · exact ⟨cell, if_neg same, .refl cell⟩

end Follows

/-- The object may be added: what it holds is there, and its keys are solid. -/
structure Admits (s : Store H) (cell : Cell H) : Prop where
  kind : ∀ content, cell ≠ .object content
  has : ∀ v ∈ cell.children, s.Has v
  solid : ∀ key ∈ cell.keys, s.Solid key

theorem Admits.later {cell : Cell H} (h : s.Admits cell) (later : s.Follows s') : s'.Admits cell :=
  ⟨h.kind, fun v mem => later.has (h.has v mem), fun key mem => later.solid (h.solid key mem)⟩

/-- A store without host objects, as a decoder builds it. -/
structure Neat (s : Store H) : Prop where
  admits : ∀ (i : Nat) (cell : Cell H), s.cells[i]? = some cell → s.Admits cell
  older : ∀ (i : Nat) (cell : Cell H), s.cells[i]? = some cell → cell.Older i

namespace Neat

theorem empty : ({} : Store H).Neat := by
  have nothing : ∀ (i : Nat) (cell : Cell H), ({} : Store H).cells[i]? ≠ some cell := by simp
  exact ⟨fun i cell found => absurd found (nothing i cell),
    fun i cell found => absurd found (nothing i cell)⟩

theorem held {cell : Cell H} (h : s.Neat) (found : s.cell? v = some cell) :
    ∀ u ∈ cell.children, s.Has u := by
  cases v with
  | ref i => exact (h.admits i cell found).has
  | _ => cases found

theorem push {cell : Cell H} (h : s.Neat) (admits : s.Admits cell) : (s.push cell).Neat := by
  have later := Follows.push s cell
  have cases_of : ∀ (i : Nat) (cell' : Cell H), (s.push cell).cells[i]? = some cell' →
      s.cells[i]? = some cell' ∨ (i = s.size ∧ cell' = cell) := by
    intro i cell' found
    have inside := lt_size_of_cell found
    rw [size_push] at inside
    by_cases last : i = s.size
    · subst last
      rw [cell_push_last] at found
      exact .inr ⟨rfl, (Option.some.inj found).symm⟩
    · rw [cell_push_lt (by omega)] at found
      exact .inl found
  constructor
  · intro i cell' found
    rcases cases_of i cell' found with former | ⟨rfl, rfl⟩
    · exact (h.admits i cell' former).later later
    · exact admits.later later
  · intro i cell' found
    rcases cases_of i cell' found with former | ⟨rfl, rfl⟩
    · exact h.older i cell' former
    · -- the new tuple holds what was there before it
      cases cell' with
      | tuple items => exact fun j mem => admits.has (.ref j) mem j rfl
      | _ => trivial

theorem modify {id : Nat} {change : Cell H → Cell H} (h : s.Neat)
    (lasts : ∀ cell : Cell H, cell.Lasts (change cell))
    (admits : ∀ cell, s.cells[id]? = some cell → s.Admits (change cell))
    (older : ∀ cell : Cell H, cell.Older id → (change cell).Older id) : (s.modify id change).Neat := by
  have later := Follows.modify s id lasts
  have cases_of : ∀ (i : Nat) (cell : Cell H), (s.modify id change).cells[i]? = some cell →
      s.cells[i]? = some cell ∨
        (i = id ∧ ∃ former, s.cells[id]? = some former ∧ cell = change former) := by
    intro i cell found
    simp only [Store.modify, Array.getElem?_modify] at found
    by_cases same : id = i
    · subst same
      rw [if_pos rfl] at found
      obtain ⟨former, found', rfl⟩ := Option.map_eq_some_iff.1 found
      exact .inr ⟨rfl, former, found', rfl⟩
    · rw [if_neg same] at found
      exact .inl found
  constructor
  · intro i cell found
    rcases cases_of i cell found with former | ⟨rfl, former, found', rfl⟩
    · exact (h.admits i cell former).later later
    · exact (admits former found').later later
  · intro i cell found
    rcases cases_of i cell found with former | ⟨rfl, former, found', rfl⟩
    · exact h.older i cell former
    · exact older former (h.older i former found')

end Neat

end Store

/-! ## Images -/

namespace Store

variable [HostObject H] {s : Store H} {v a b : Value} {holder : Option Nat}

/-- A fold that fails does so at one of the items. -/
theorem foldlM_error {α σ ε : Type} {f : σ → α → Except ε σ} {items : List α} {x : σ} {e : ε}
    (h : items.foldlM f x = .error e) : ∃ item ∈ items, ∃ y, f y item = .error e := by
  induction items generalizing x with
  | nil => cases h
  | cons item rest ih =>
    rw [List.foldlM_cons] at h
    cases first : f x item with
    | error e' =>
      rw [first] at h
      cases h
      exact ⟨item, List.mem_cons_self .., x, first⟩
    | ok y =>
      rw [first] at h
      obtain ⟨other, mem, fails⟩ := ih h
      exact ⟨other, List.mem_cons_of_mem _ mem, fails⟩

/-- A fold that succeeds does so at every item. -/
theorem foldlM_inside {α σ ε : Type} {f : σ → α → Except ε σ} {P : α → Prop} {items : List α}
    {x z : σ} (step : ∀ item y y', f y item = .ok y' → P item) (h : items.foldlM f x = .ok z) :
    ∀ item ∈ items, P item := by
  induction items generalizing x with
  | nil => exact fun _ none => by cases none
  | cons item rest ih =>
    rw [List.foldlM_cons] at h
    cases first : f x item with
    | error e =>
      rw [first] at h
      cases h
    | ok y =>
      rw [first] at h
      intro other mem
      rcases List.mem_cons.1 mem with rfl | mem
      · exact step other x y first
      · exact ih h other mem

theorem imageWithin_ne_endless (neat : s.Neat) {fuel : Nat} {before : Array UInt8}
    (deep : ∀ i, v = .ref i → i < fuel ∨ s.size ≤ i) :
    s.imageWithin holder fuel before v ≠ .error .endless := by
  induction fuel generalizing before v with
  | zero =>
    cases v with
    | ref i =>
      have outside : s.cells[i]? = none :=
        Array.getElem?_eq_none ((deep i rfl).resolve_left (Nat.not_lt_zero i))
      rw [Mirror.imageWithin_ref, outside]
      exact fun same => by cases same
    | _ => exact fun same => by cases same
  | succ fuel ih =>
    cases v with
    | ref i =>
      rw [Mirror.imageWithin_ref]
      cases found : s.cells[i]? with
      | none => exact fun same => by cases same
      | some cell =>
        cases cell with
        | tuple items =>
          -- the items are older than the tuple, so they are nested less deep
          intro fails
          obtain ⟨item, mem, x, fails⟩ := foldlM_error fails
          refine ih (fun j same => .inl ?_) fails
          subst same
          have := neat.older i _ found j mem
          have := deep i rfl
          have := lt_size_of_cell found
          omega
        | _ => exact fun same => by cases same
    | _ => exact fun same => by cases same

/-- Whether a value is a key is always found out. -/
theorem image_ne_endless (neat : s.Neat) : s.image holder v ≠ .error .endless :=
  imageWithin_ne_endless neat fun i _ => by omega

/-- A value with an image is solid. -/
theorem solid_of_imageWithin (neat : s.Neat) {fuel : Nat} {before image : Array UInt8}
    (h : s.imageWithin holder fuel before v = .ok image) : s.Solid v := by
  induction fuel using Nat.strong_induction_on generalizing before image v with
  | _ fuel ih =>
    cases v with
    | ref i =>
      rw [Mirror.imageWithin_ref] at h
      cases found : s.cells[i]? with
      | none =>
        rw [found] at h
        cases h
      | some cell =>
        rw [found] at h
        cases cell with
        | tuple items =>
          cases fuel with
          | zero => cases h
          | succ fuel =>
            exact .tuple found (foldlM_inside (fun item x y here => ih fuel (Nat.lt_succ_self _) here) h)
        | frozenset members => exact .frozenset found (neat.admits i _ found).solid
        | global g => exact .global found
        | inst c t => exact .inst found
        | object content => exact absurd rfl ((neat.admits i _ found).kind content)
        | _ => cases h
    | _ => exact .atom fun i same => by cases same

theorem solid_of_image (neat : s.Neat) {image : Array UInt8} (h : s.image holder v = .ok image) :
    s.Solid v :=
  solid_of_imageWithin neat h

/-! ## Comparisons -/

/-- The comparison of the values has an answer, whichever is asked first. -/
def Comparable (s : Store H) (holder : Option Nat) (a b : Value) : Prop :=
  s.equalFor holder a b ≠ none ∧ s.equalFor holder b a ≠ none

theorem allPass_ne_none {α : Type} {test : α → Option Bool} {items : List α}
    (h : ∀ item ∈ items, test item ≠ none) : allPass test items ≠ none := by
  induction items with
  | nil => exact fun same => by cases same
  | cons item rest ih =>
    rw [allPass]
    cases answer : test item with
    | none => exact absurd answer (h item (List.mem_cons_self ..))
    | some passes =>
      cases passes with
      | false => exact fun same => by cases same
      | true => exact ih fun other mem => h other (List.mem_cons_of_mem _ mem)

theorem sameItems_ne_none {as bs : List Value} (h : ∀ a ∈ as, ∀ b ∈ bs, s.equalFor holder a b ≠ none) :
    sameItems (s.equalFor holder) as bs ≠ none := by
  unfold sameItems
  split
  · refine allPass_ne_none fun pair mem => ?_
    exact h pair.1 (List.of_mem_zip mem).1 pair.2 (List.of_mem_zip mem).2
  · exact fun same => by cases same

/-- A look-up without an answer has met a comparison without one. -/
theorem exists_of_find_eq_none {α : Type} {t : Keyed α} {p : Probing} {image : Array UInt8}
    {same : Value → Option Bool} (h : t.find p image same = none) :
    ∃ key ∈ t.keys, same key = none := by
  unfold Keyed.find at h
  generalize t.met p image = places at h
  induction places with
  | nil => cases h
  | cons i rest ih =>
    rw [Keyed.firstPlace] at h
    cases entry : t.entries[i]? with
    | none =>
      simp only [entry] at h
      exact ih h
    | some e =>
      simp only [entry] at h
      cases answer : same e.1 with
      | none =>
        refine ⟨e.1, List.mem_map_of_mem ?_, answer⟩
        exact Array.mem_toList_iff.2 (Array.mem_of_getElem? entry)
      | some found =>
        rw [answer] at h
        cases found with
        | true => cases h
        | false => exact ih h

theorem sameMembersFor_ne_none (neat : s.Neat) {x y : Members}
    (h : ∀ a ∈ x.keys, ∀ b ∈ y.keys, s.equalFor holder b a ≠ none) :
    s.sameMembersFor holder (s.equalFor holder) x y ≠ none := by
  unfold sameMembersFor
  split
  · refine allPass_ne_none fun key mem => ?_
    cases place : s.keyPlace holder (s.equalFor holder) y key with
    | some found => exact fun same => by cases same
    | none =>
      exfalso
      unfold keyPlace placeBy at place
      cases image : s.image holder key with
      | error e =>
        cases e with
        | unhashable name =>
          rw [image] at place
          cases place
        | endless => exact image_ne_endless neat image
      | ok bytes =>
        simp only [image, bind, Except.bind] at place
        cases found : y.find (HostObject.probing H) bytes (fun old => s.equalFor holder old key) with
        | some place' =>
          rw [found] at place
          cases place
        | none =>
          obtain ⟨old, mem', unanswered⟩ := exists_of_find_eq_none found
          exact h key mem old mem' unanswered
  · exact fun same => by cases same

/-- The comparison of two objects that are not opened ends if that of their contents does. -/
theorem comparable_refs {i j : Nat} {x y : Cell H} (found : s.cells[i]? = some x)
    (found' : s.cells[j]? = some y) (shut : opened x y = false ∧ opened y x = false)
    (h : s.sameCells holder (s.equalFor holder) x y ≠ none ∧
      s.sameCells holder (s.equalFor holder) y x ≠ none) :
    s.Comparable holder (.ref i) (.ref j) := by
  have inside : ∀ {i j : Nat} {x y : Cell H}, s.cells[i]? = some x → s.cells[j]? = some y →
      opened x y = false → s.sameCells holder (s.equalFor holder) x y ≠ none →
        s.equalFor holder (.ref i) (.ref j) ≠ none := by
    intro i j x y found found' shut h unanswered
    -- with one more fuel, the comparison asks for that of the contents
    have deeper : s.sameBy holder (s.equalFor holder) (.ref i) (.ref j) = none :=
      equalFor_eq_none_iff.1 unanswered (s.size * s.size + 2 + 1)
    simp only [sameBy, found, found', shut, Bool.false_eq_true, and_false, if_false] at deeper
    split at deeper
    · cases deeper
    · exact h deeper
  exact ⟨inside found found' shut.1 h.1, inside found' found shut.2 h.2⟩

/-- Objects whose contents are told apart without a look at values. -/
theorem comparable_at_once {i j : Nat} {x y : Cell H} {r r' : Bool} (found : s.cells[i]? = some x)
    (found' : s.cells[j]? = some y) (shut : opened x y = false ∧ opened y x = false)
    (h : s.sameCells holder (s.equalFor holder) x y = some r)
    (h' : s.sameCells holder (s.equalFor holder) y x = some r') :
    s.Comparable holder (.ref i) (.ref j) := by
  refine comparable_refs found found' shut ⟨?_, ?_⟩
  · rw [h]
    exact Option.some_ne_none r
  · rw [h']
    exact Option.some_ne_none r'

theorem comparable_of_atom (h : (∀ i, a ≠ .ref i) ∨ ∀ i, b ≠ .ref i) : s.Comparable holder a b := by
  have answered : ∀ a b, (∀ i j, a = .ref i → b ≠ .ref j) → s.equalFor holder a b ≠ none := by
    intro a b apart unanswered
    rcases s.equalWithin_cases holder a b with ⟨r, answer⟩ | ⟨i, j, left, right, -⟩
    · exact absurd ((answer (s.size * s.size + 1)).symm.trans unanswered) (fun same => by cases same)
    · exact apart i j left right
  rcases h with atom | atom
  · exact ⟨answered a b fun i _ same => absurd same (atom i),
      answered b a fun _ j _ same => absurd same (atom j)⟩
  · exact ⟨answered a b fun _ j _ same => absurd same (atom j),
      answered b a fun i _ same => absurd same (atom i)⟩

/-- The comparison of solid values ends where there are no instances. -/
theorem comparable_of_solid (neat : s.Neat) (bare : ¬s.Peopled) (solid : s.Solid a)
    (solid' : s.Solid b) : s.Comparable holder a b := by
  induction solid generalizing b with
  | atom atom => exact comparable_of_atom (.inl atom)
  | inst found => exact absurd ⟨_, _, _, found⟩ bare
  | @tuple i items found _ ih =>
    cases solid' with
    | atom atom => exact comparable_of_atom (.inr atom)
    | inst found' => exact absurd ⟨_, _, _, found'⟩ bare
    | tuple found' inside' =>
      exact comparable_refs found found' ⟨rfl, rfl⟩
        ⟨sameItems_ne_none fun x mem y mem' => (ih x mem (inside' y mem')).1,
          sameItems_ne_none fun y mem' x mem => (ih x mem (inside' y mem')).2⟩
    | frozenset found' => exact comparable_at_once found found' ⟨rfl, rfl⟩ rfl rfl
    | global found' => exact comparable_at_once found found' ⟨rfl, rfl⟩ rfl rfl
  | @frozenset i members found _ ih =>
    cases solid' with
    | atom atom => exact comparable_of_atom (.inr atom)
    | inst found' => exact absurd ⟨_, _, _, found'⟩ bare
    | tuple found' => exact comparable_at_once found found' ⟨rfl, rfl⟩ rfl rfl
    | frozenset found' inside' =>
      -- each side looks its members up among those of the other
      exact comparable_refs found found' ⟨rfl, rfl⟩
        ⟨sameMembersFor_ne_none neat fun x mem y mem' => (ih x mem (inside' y mem')).2,
          sameMembersFor_ne_none neat fun y mem' x mem => (ih x mem (inside' y mem')).1⟩
    | global found' => exact comparable_at_once found found' ⟨rfl, rfl⟩ rfl rfl
  | global found =>
    cases solid' with
    | atom atom => exact comparable_of_atom (.inr atom)
    | inst found' => exact absurd ⟨_, _, _, found'⟩ bare
    | tuple found' => exact comparable_at_once found found' ⟨rfl, rfl⟩ rfl rfl
    | frozenset found' => exact comparable_at_once found found' ⟨rfl, rfl⟩ rfl rfl
    | global found' => exact comparable_at_once found found' ⟨rfl, rfl⟩ rfl rfl

/-- A look-up of a solid key among solid keys ends, unless there are instances. -/
theorem peopled_of_find {α : Type} {t : Keyed α} {image : Array UInt8} {key : Value}
    (neat : s.Neat) (solid : ∀ k ∈ t.keys, s.Solid k) (solid' : s.Solid key)
    (fails : t.find (HostObject.probing H) image
      (fun old => s.equalFor holder old key) = none) : s.Peopled := by
  obtain ⟨old, mem, unanswered⟩ := exists_of_find_eq_none fails
  by_contra bare
  exact (comparable_of_solid neat bare (solid old mem) solid').1 unanswered

end Store

/-! ## Tables -/

namespace Keyed

variable {α : Type} {s : Store H} {t t' : Keyed α} {place : Option Nat} {image : Array UInt8}
  {key k : Value} {content c : α} {Q : α → Prop}

theorem mem_keys_put (mem : k ∈ (t.put place image key content).keys) : k ∈ t.keys ∨ k = key := by
  cases place with
  | some i =>
    rw [keys_put_some] at mem
    exact .inl mem
  | none =>
    rw [keys_put] at mem
    exact (List.mem_append.1 mem).imp_right List.mem_singleton.1

theorem mem_contents_put (mem : c ∈ (t.put place image key content).contents) :
    c ∈ t.contents ∨ c = content := by
  cases place with
  | none =>
    rw [contents_put] at mem
    exact (List.mem_append.1 mem).imp_right List.mem_singleton.1
  | some i =>
    obtain ⟨e, inside, rfl⟩ := List.mem_map.1 mem
    obtain ⟨j, found⟩ := List.mem_iff_getElem?.1 inside
    simp only [put, Array.getElem?_toList, Array.getElem?_modify] at found
    have former : ∀ e : Value × α, t.entries[j]? = some e → e.2 ∈ t.contents := fun e found =>
      List.mem_map_of_mem (Array.mem_toList_iff.2 (Array.mem_of_getElem? found))
    split at found
    · obtain ⟨e', -, rfl⟩ := Option.map_eq_some_iff.1 found
      exact .inr rfl
    · exact .inl (former e found)

/-- The keys are solid and there, and so are the contents as far as they are values. -/
structure Stocked (t : Keyed α) (s : Store H) (Q : α → Prop) : Prop where
  solid : ∀ k ∈ t.keys, s.Solid k
  has : ∀ k ∈ t.keys, s.Has k
  contents : ∀ c ∈ t.contents, Q c

theorem stocked_empty : (Keyed.empty : Keyed α).Stocked s Q :=
  ⟨fun _ none => (by cases none), fun _ none => (by cases none), fun _ none => (by cases none)⟩

theorem Stocked.put (h : t.Stocked s Q) (place : Option Nat) (image : Array UInt8)
    (solid : s.Solid key) (has : s.Has key) (here : Q content) :
    (t.put place image key content).Stocked s Q := by
  refine ⟨fun k mem => ?_, fun k mem => ?_, fun c mem => ?_⟩
  · rcases mem_keys_put mem with former | rfl
    · exact h.solid k former
    · exact solid
  · rcases mem_keys_put mem with former | rfl
    · exact h.has k former
    · exact has
  · rcases mem_contents_put mem with former | rfl
    · exact h.contents c former
    · exact here

variable [HostObject H]

/-- Entries are put into a table one after the other: it stays as it should be, and the look-ups end
    unless there are instances. -/
theorem Stocked.insertAll (neat : s.Neat) {es : List (Value × α)} (h : t.Stocked s Q)
    (known : ∀ e ∈ es, s.Has e.1 ∧ Q e.2) :
    (∀ t', s.insertAll t es = .ok t' → t'.Stocked s Q) ∧
      (s.insertAll t es = .error .endless → s.Peopled) := by
  induction es generalizing t with
  | nil =>
    refine ⟨fun t' run => ?_, fun run => by cases run⟩
    cases run
    exact h
  | cons e rest ih =>
    obtain ⟨key, content⟩ := e
    obtain ⟨has, here⟩ := known _ (List.mem_cons_self ..)
    cases hash : s.image none key with
    | error cause =>
      rw [Store.insertAll_refused hash]
      refine ⟨fun t' run => (by cases run), fun run => ?_⟩
      cases run
      exact absurd hash (Store.image_ne_endless neat)
    | ok image =>
      have solid := Store.solid_of_image neat hash
      cases found : t.find (HostObject.probing H) image (fun old => s.equal? old key) with
      | none =>
        rw [Store.insertAll_endless hash found]
        exact ⟨fun t' run => (by cases run), fun _ => Store.peopled_of_find neat h.solid solid found⟩
      | some place =>
        rw [Store.insertAll_found hash found]
        exact ih (h.put place image solid has here) fun e mem => known e (List.mem_cons_of_mem _ mem)

omit [HostObject H]

theorem Stocked.admits_dict {d : Dict} (h : d.Stocked s s.Has) : s.Admits (.dict d) :=
  ⟨fun _ same => (by cases same),
    fun v mem => (Cell.mem_children.1 mem).elim (h.has v) (h.contents v), h.solid⟩

theorem Stocked.admits_inst {d : Dict} (h : d.Stocked s s.Has) (c : Class) :
    s.Admits (.inst c d) :=
  ⟨fun _ same => (by cases same),
    fun v mem => (Cell.mem_children.1 mem).elim (h.has v) (h.contents v), h.solid⟩

theorem Stocked.admits_set {t : Members} (h : t.Stocked s fun _ => True) : s.Admits (.set t) :=
  ⟨fun _ same => (by cases same),
    fun v mem => (Cell.mem_children.1 mem).elim (h.has v) (fun none => by cases none), h.solid⟩

theorem Stocked.admits_frozenset {t : Members} (h : t.Stocked s fun _ => True) :
    s.Admits (.frozenset t) :=
  ⟨fun _ same => (by cases same),
    fun v mem => (Cell.mem_children.1 mem).elim (h.has v) (fun none => by cases none), h.solid⟩

end Keyed

namespace Store

variable {s : Store H}

/-- The table of an object that is there. -/
theorem Admits.stocked {cell : Cell H} (h : s.Admits cell) : cell.entries.Stocked s s.Has := by
  have table : ∀ d : Dict, (∀ v ∈ d.keys ++ d.contents, s.Has v) → (∀ k ∈ d.keys, s.Solid k) →
      d.Stocked s s.Has := fun d has solid =>
    ⟨solid, fun k mem => has k (List.mem_append_left _ mem),
      fun v mem => has v (List.mem_append_right _ mem)⟩
  cases cell with
  | dict d => exact table d h.has h.solid
  | inst c d => exact table d h.has h.solid
  | _ => exact Keyed.stocked_empty

theorem Admits.stocked_set {t : Members} (h : s.Admits (.set t)) : t.Stocked s fun _ => True :=
  ⟨h.solid, fun k mem => h.has k (Cell.mem_children.2 (.inl mem)), fun _ _ => trivial⟩

variable [HostObject H]

theorem dictOf_cases (neat : s.Neat) {entries : List (Value × Value)}
    (known : ∀ e ∈ entries, s.Has e.1 ∧ s.Has e.2) :
    (∀ d, s.dictOf entries = .ok d → s.Admits (.dict d)) ∧
      (s.dictOf entries = .error .endless → s.Peopled) := by
  obtain ⟨made, fails⟩ := Keyed.stocked_empty.insertAll neat known
  exact ⟨fun d run => (made d run).admits_dict, fails⟩

theorem membersOf_cases (neat : s.Neat) {members : List Value} (known : ∀ v ∈ members, s.Has v) :
    (∀ t, s.membersOf members = .ok t → s.Admits (.set t) ∧ s.Admits (.frozenset t)) ∧
      (s.membersOf members = .error .endless → s.Peopled) := by
  have each : ∀ e ∈ members.map fun v => (v, ()), s.Has e.1 ∧ True := by
    intro e mem
    obtain ⟨v, here, rfl⟩ := List.mem_map.1 mem
    exact ⟨known v here, trivial⟩
  obtain ⟨made, fails⟩ := Keyed.stocked_empty.insertAll (Q := fun _ : Unit => True) neat each
  exact ⟨fun t run => ⟨(made t run).admits_set, (made t run).admits_frozenset⟩, fails⟩

end Store

end ObjectStream
