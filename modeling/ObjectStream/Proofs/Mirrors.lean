import ObjectStream.Proofs.Keys

/-!
Graphs that mirror each other.

A pairing of objects that is closed under what they hold makes out a correspondence: all that one of two
paired values reaches has its copy behind the other one, and nothing else is there
(`Paired.corresponds`). Mirrored objects are paired, and two copies of one graph mirror each other
(`Mirror.join`).
-/

namespace ObjectStream

variable {H : Type}

/-! ## Two copies of one value -/

section
variable {R R' : Nat → Nat → Prop} {u v w : Value}

/-- The objects that are copies of one. -/
def Joined (R R' : Nat → Nat → Prop) (j k : Nat) : Prop := ∃ i, R i j ∧ R' i k

theorem Match.join (h : Match R u v) (h' : Match R' u w) : Match (Joined R R') v w := by
  cases h with
  | none => cases h'; exact .none
  | bool b => cases h'; exact .bool b
  | int n => cases h'; exact .int n
  | long n =>
    cases h'
    by_cases small : fitsWord n = true
    · have same : Value.ofInt n = .int (Int64.ofInt n) := if_pos small
      rw [same]
      exact .int _
    · have same : Value.ofInt n = .long n := if_neg small
      have copy : Match (Joined R R') (.long n) (.ofInt n) := .long n
      rwa [← same] at copy
  | float same =>
    cases h' with
    | float same' => exact .float (same'.trans same.symm)
  | complex re im =>
    cases h' with
    | complex re' im' => exact .complex (re'.trans re.symm) (im'.trans im.symm)
  | str text => cases h'; exact .str text
  | bytes bs => cases h'; exact .bytes bs
  | emptyTuple => cases h'; exact .emptyTuple
  | ref left =>
    cases h' with
    | ref right => exact .ref ⟨_, left, right⟩

theorem matchAll_join {us vs ws : List Value} (h : List.Forall₂ (Match R) us vs)
    (h' : List.Forall₂ (Match R') us ws) : List.Forall₂ (Match (Joined R R')) vs ws := by
  induction h generalizing ws with
  | nil => cases h'; exact .nil
  | cons head _ ih =>
    cases h' with
    | cons head' tail' => exact .cons (head.join head') (ih tail')

theorem Cell.Matches.join {a b c : Cell H} (h : a.Matches R b) (h' : a.Matches R' c) :
    b.Matches (Joined R R') c := by
  have keys := matchAll_join h.keys h'.keys
  have contents := matchAll_join h.contents h'.contents
  cases h with
  | bytearray data => cases h'; exact .bytearray data
  | list _ => cases h'; exact .list contents
  | tuple _ => cases h'; exact .tuple contents
  | dict _ _ => cases h'; exact .dict keys contents
  | set _ => cases h'; exact .set keys
  | frozenset _ => cases h'; exact .frozenset keys
  | inst c _ _ => cases h'; exact .inst c keys contents

end

/-- A correspondence that gives every object at most one copy is a map. -/
theorem exists_functional {R : Nat → Nat → Prop} (right : ∀ i j j', R i j → R i j' → j = j') :
    ∃ f : Nat → Nat, ∀ i j, R i j → f i = j := by
  have some_copy : ∀ i, ∃ j, ∀ k, R i k → j = k := by
    intro i
    by_cases copied : ∃ j, R i j
    · obtain ⟨j, r⟩ := copied
      exact ⟨j, fun k r' => right i j k r r'⟩
    · exact ⟨0, fun k r => absurd ⟨k, r⟩ copied⟩
  exact Classical.axiomOfChoice some_copy

/-! ## Graphs -/

/-- A pairing of the objects of two stores that is one to one and closed under what they hold. -/
structure Paired (s s' : Store H) (R : Nat → Nat → Prop) : Prop where
  object : ∀ i j, R i j → ∃ cell cell', s.cells[i]? = some cell ∧ s'.cells[j]? = some cell' ∧
    cell.Matches R cell'
  right : ∀ i j j', R i j → R i j' → j = j'
  left : ∀ i i' j, R i j → R i' j → i = i'

namespace Paired

variable {s s' : Store H} {R : Nat → Nat → Prop} {v w : Value}

section
variable (paired : Paired s s' R) (same : Match R v w)
include paired same

/-- Every value behind the one has its copy behind the other. -/
theorem exists_copy {u : Value} (reach : s.Reaches v u) :
    ∃ u', s'.Reaches w u' ∧ Match R u u' := by
  induction reach with
  | self => exact ⟨w, .self, same⟩
  | @child i cell u above found held ih =>
    obtain ⟨_, reach', same'⟩ := ih
    cases same' with
    | @ref _ j r =>
      obtain ⟨_, cell', found', here, copy⟩ := paired.object i j r
      obtain rfl := Option.some.inj (found.symm.trans found')
      obtain ⟨u', held', child⟩ := forall₂_left copy.children held
      exact ⟨u', .child reach' here held', child⟩

/-- Every value behind the copy is a copy of one behind the other. -/
theorem exists_original {u' : Value} (reach : s'.Reaches w u') :
    ∃ u, s.Reaches v u ∧ Match R u u' := by
  induction reach with
  | self => exact ⟨v, .self, same⟩
  | @child j cell' u' above here held ih =>
    obtain ⟨_, reach', same'⟩ := ih
    obtain ⟨i, rfl, r⟩ := same'.of_ref
    obtain ⟨cell, _, found, here', copy⟩ := paired.object i j r
    obtain rfl := Option.some.inj (here.symm.trans here')
    obtain ⟨u, held', child⟩ := forall₂_left copy.children.flip held
    exact ⟨u, .child reach' found held', child⟩

end

/-- The graphs behind values that are paired correspond. -/
theorem corresponds {f : Nat → Nat} {vs ws : List Value} (paired : Paired s s' R)
    (same : List.Forall₂ (Match R) vs ws) (map : ∀ i j, R i j → f i = j) :
    Corresponds f s s' vs ws := by
  have copied : ∀ v ∈ vs, ∀ i, s.Reaches v (.ref i) →
      R i (f i) ∧ ∃ w ∈ ws, s'.Reaches w (.ref (f i)) := by
    intro v mem i reach
    obtain ⟨w, held, match_⟩ := forall₂_left same mem
    obtain ⟨_, reach', same'⟩ := paired.exists_copy match_ reach
    cases same' with
    | @ref _ j r =>
      rw [map i j r]
      exact ⟨r, w, held, reach'⟩
  refine ⟨⟨fun i inside => ?_, fun i inside i' inside' equal => ?_, fun j inside => ?_⟩,
    matchAll_mono same map, fun v mem i reach => ?_⟩
  · obtain ⟨v, mem, reach⟩ := inside
    exact (copied v mem i reach).2
  · obtain ⟨v, mem, reach⟩ := inside
    obtain ⟨v', mem', reach'⟩ := inside'
    have r := (copied v mem i reach).1
    rw [equal] at r
    exact paired.left i i' _ r (copied v' mem' i' reach').1
  · obtain ⟨w, held, reach'⟩ := inside
    obtain ⟨v, mem, match_⟩ := forall₂_left same.flip held
    obtain ⟨_, reach, same'⟩ := paired.exists_original match_ reach'
    obtain ⟨i, rfl, r⟩ := same'.of_ref
    exact ⟨i, ⟨v, mem, reach⟩, map i j r⟩
  · obtain ⟨cell, cell', found, here, copy⟩ := paired.object i _ (copied v mem i reach).1
    exact ⟨cell, cell', found, here, copy.mono map⟩

theorem isomorphic (paired : Paired s s' R) (same : Match R v w) : Isomorphic s s' v w := by
  obtain ⟨f, map⟩ := exists_functional paired.right
  exact (paired.corresponds (.cons same .nil) map).isomorphic

/-- The objects of a pair are there. -/
theorem lt_size (paired : Paired s s' R) {i j : Nat} (r : R i j) : i < s.size ∧ j < s'.size := by
  obtain ⟨_, _, found, found', -⟩ := paired.object i j r
  exact ⟨Store.lt_size_of_cell found, Store.lt_size_of_cell found'⟩

/-- Two objects that are in no pair and hold paired values are a further pair. -/
theorem add {a b : Nat} {cell cell' : Cell H} (paired : Paired s s' R)
    (found : s.cells[a]? = some cell) (found' : s'.cells[b]? = some cell')
    (same : cell.Matches R cell') (fresh : ∀ i j, R i j → i ≠ a) (fresh' : ∀ i j, R i j → j ≠ b) :
    Paired s s' fun i j => R i j ∨ (i = a ∧ j = b) where
  object := by
    rintro i j (r | ⟨rfl, rfl⟩)
    · obtain ⟨old, old', here, here', copy⟩ := paired.object i j r
      exact ⟨old, old', here, here', copy.mono fun _ _ => .inl⟩
    · exact ⟨cell, cell', found, found', same.mono fun _ _ => .inl⟩
  right := by
    rintro i j j' (r | ⟨new, rfl⟩) (r' | ⟨new', rfl⟩)
    · exact paired.right i j j' r r'
    · exact absurd new' (fresh i j r)
    · exact absurd new (fresh i j' r')
    · rfl
  left := by
    rintro i i' j (r | ⟨rfl, new⟩) (r' | ⟨rfl, new'⟩)
    · exact paired.left i i' j r r'
    · exact absurd new' (fresh' i j r)
    · exact absurd new (fresh' i' j r')
    · rfl

/-- Two new objects that hold paired values are a further pair. -/
theorem push {cell cell' : Cell H} (paired : Paired s s' R) (same : cell.Matches R cell') :
    Paired (s.push cell) (s'.push cell') fun i j => R i j ∨ (i = s.size ∧ j = s'.size) := by
  have grown : Paired (s.push cell) (s'.push cell') R := by
    refine ⟨fun i j r => ?_, paired.right, paired.left⟩
    obtain ⟨old, old', found, found', copy⟩ := paired.object i j r
    exact ⟨old, old', Store.Grown.push s cell _ _ found, Store.Grown.push s' cell' _ _ found', copy⟩
  exact grown.add (s.cell_push_last cell) (s'.cell_push_last cell') same
    (fun _ _ r => Nat.ne_of_lt (paired.lt_size r).1) fun _ _ r => Nat.ne_of_lt (paired.lt_size r).2

/-- New objects that hold paired values are alike. -/
theorem isomorphic_push {cell cell' : Cell H} (paired : Paired s s' R)
    (same : cell.Matches R cell') :
    Isomorphic (s.push cell) (s'.push cell') (.ref s.size) (.ref s'.size) :=
  (paired.push same).isomorphic (.ref (.inr ⟨rfl, rfl⟩))

end Paired

variable [HostObject H]

namespace Mirror

variable {s s' s₁ s₂ : Store H} {R R' : Nat → Nat → Prop}

theorem paired (mirror : Mirror s s' R) : Paired s s' R where
  object i j r := by
    obtain ⟨cell, cell', found, found', copy, -⟩ := mirror.object i j r
    exact ⟨cell, cell', found, found', copy⟩
  right := mirror.right
  left := mirror.left

/-- The keys of mirrored objects have the same images. -/
theorem imageOf_keys {keys keys' : List Value} (mirror : Mirror s s' R)
    (same : List.Forall₂ (Match R) keys keys')
    (hashable : ∀ key ∈ keys, ∃ image, s.image none key = .ok image) :
    keys'.map s'.imageOf = keys.map s.imageOf := by
  induction same with
  | nil => rfl
  | cons head _ ih =>
    obtain ⟨image, hash⟩ := hashable _ (List.mem_cons_self ..)
    have hash' := image_mirror none mirror (fun _ _ _ => nofun) hash head
    rw [List.map_cons, List.map_cons, Store.imageOf_eq hash, Store.imageOf_eq hash',
      ih fun key mem => hashable key (.tail _ mem)]

/-- Two copies of the same objects mirror each other. -/
theorem join (h : Mirror s s₁ R) (h' : Mirror s s₂ R') :
    Mirror s₁ s₂ (Joined R R') where
  object := by
    rintro j k ⟨i, r, r'⟩
    obtain ⟨cell, cell₁, found, found₁, copy, -, files₁, -, hashable⟩ := h.object i j r
    obtain ⟨_, cell₂, found', found₂, copy', -, files₂, older, -⟩ := h'.object i k r'
    obtain rfl := Option.some.inj (found.symm.trans found')
    have images := h.imageOf_keys copy.keys hashable
    refine ⟨cell₁, cell₂, found₁, found₂, ?_, images ▸ files₁, images ▸ files₂, older, ?_⟩
    · exact copy.join copy'
    · intro key mem
      obtain ⟨key₀, mem₀, same⟩ := forall₂_left copy.keys.flip mem
      obtain ⟨image, hash⟩ := hashable key₀ mem₀
      exact ⟨image, image_mirror none h (fun _ _ _ => nofun) hash same⟩
  right := by
    rintro j k k' ⟨i, r, r'⟩ ⟨i', q, q'⟩
    obtain rfl := h.left i i' j r q
    exact h'.right i k k' r' q'
  left := by
    rintro j j' k ⟨i, r, r'⟩ ⟨i', q, q'⟩
    obtain rfl := h'.left i i' k r' q'
    exact h.right i j j' r q

end Mirror

end ObjectStream
