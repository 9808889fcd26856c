import ObjectStream.Proofs.Instructions
import ObjectStream.Proofs.Keys

/-!
Filling copied tables.

The decoder stores entries one after the other in the object that holds the table. While it does so
the keys stay as they are, because none of them leads back to that object. So the entries end up in
the table in their order, none of them lost.
-/

namespace ObjectStream

variable {H : Type}

/-- One object was replaced, and nothing else changed. -/
structure Store.Replaced (s s' : Store H) (id : Nat) (cell : Cell H) : Prop where
  size : s'.size = s.size
  cell : s'.cells[id]? = some cell
  other : ∀ i, i ≠ id → s'.cells[i]? = s.cells[i]?

namespace Store.Replaced

variable {s s' s'' : Store H} {id : Nat} {cell cell' : Cell H}

theorem refl (h : s.cells[id]? = some cell) : s.Replaced s id cell := ⟨rfl, h, fun _ _ => rfl⟩

theorem trans (h : s.Replaced s' id cell) (h' : s'.Replaced s'' id cell') :
    s.Replaced s'' id cell' :=
  ⟨h'.size.trans h.size, h'.cell, fun i apart => (h'.other i apart).trans (h.other i apart)⟩

theorem modify (h : s.cells[id]? = some cell) (change : Cell H → Cell H) :
    s.Replaced (s.modify id change) id (change cell) := by
  refine ⟨Array.size_modify, ?_, fun i apart => ?_⟩
  · simp only [Store.modify, Array.getElem?_modify, h]
    rfl
  · simp only [Store.modify, Array.getElem?_modify, if_neg (Ne.symm apart)]

end Store.Replaced

variable [HostObject H]

/-- A mirror does not depend on objects outside of it. -/
theorem Mirror.replaced {s s' s'' : Store H} {R : Nat → Nat → Prop} {id : Nat} {cell : Cell H}
    (mirror : Mirror s s' R) (apart : ∀ i j, R i j → j ≠ id) (h : s'.Replaced s'' id cell) :
    Mirror s s'' R where
  object i j r := by
    obtain ⟨x, x', found, found', rest⟩ := mirror.object i j r
    exact ⟨x, x', found, (h.other j (apart i j r)).trans found', rest⟩
  right := mirror.right
  left := mirror.left

namespace Decoder

variable {total : Prop} {m : Machine H} {Q : Machine H → Prop} {id : Nat} {image : Array UInt8}

omit [HostObject H] in
theorem does_endless {α : Type} {Q : α → Machine H → Prop} (partly : ¬total) :
    Does total (throw .endless) m Q := fun st _ _ => .inr ⟨partly, st, rfl⟩

omit [HostObject H] in
theorem Keeps.bind {x y : Decode H Unit} (h : Keeps total x m fun m' => Keeps total y m' Q) :
    Keeps total (x >>= fun _ => y) m Q := by
  refine Does.bind (h.mono fun _ m' ⟨store, same, rest⟩ => rest.mono fun _ m'' ⟨store', same', q⟩ =>
    ⟨store', ?_, q⟩)
  rw [same', same]
  rfl

/-- An entry is stored at its place. -/
theorem keeps_storeEntry {cell : Cell H} {key content : Value} (place : Option Nat)
    (here : m.store.cells[id]? = some cell) (hashable : m.store.image (some id) key = .ok image)
    (found : cell.entries.find (HostObject.probing H) image
        (fun old => m.store.equalFor (some id) old key) = some place ∨
      (¬total ∧ cell.entries.find (HostObject.probing H) image
        (fun old => m.store.equalFor (some id) old key) = none))
    (h : cell.entries.find (HostObject.probing H) image
        (fun old => m.store.equalFor (some id) old key) = some place →
      Q (m.withStore (m.store.modify id
        (Cell.withEntries fun d => d.put place image key content)))) :
    Keeps total (storeEntry id key content) m Q := by
  refine Does.get fun st machine counted => ?_
  have store : st.store = m.store := by rw [show st.store = st.machine.store from rfl, machine]
  simp only [store, hashable, here]
  refine Does.bind (does_keyed (.inl ⟨image, rfl, ?_⟩))
  rcases found with found | ⟨partly, found⟩
  · simp only [found]
    exact does_modifyStore
      (fun s => s.modify id (Cell.withEntries fun d => d.put place image key content))
      ⟨_, rfl, h found⟩
  · simp only [found]
    exact does_endless partly

/-- A new member is added behind the others. -/
theorem keeps_addMember {members : Members} {member : Value}
    (here : m.store.cells[id]? = some (.set members))
    (hashable : m.store.image (some id) member = .ok image)
    (fresh : members.find (HostObject.probing H) image
        (fun old => m.store.equalFor (some id) old member) = some none ∨
      (¬total ∧ members.find (HostObject.probing H) image
        (fun old => m.store.equalFor (some id) old member) = none))
    (h : Q (m.withStore (m.store.modify id (withMembers fun t => t.put none image member ())))) :
    Keeps total (addMember id member) m Q := by
  refine Does.get fun st machine counted => ?_
  have store : st.store = m.store := by rw [show st.store = st.machine.store from rfl, machine]
  simp only [store, hashable, here]
  refine Does.bind (does_keyed (.inl ⟨image, rfl, ?_⟩))
  rcases fresh with fresh | ⟨partly, fresh⟩
  · simp only [fresh]
    exact does_modifyStore
      (fun s => s.modify id (withMembers fun t => t.put none image member ())) ⟨_, rfl, h⟩
  · simp only [fresh]
    exact does_endless partly

section
variable {s : Store H} {R : Nat → Nat → Prop} {ps ks : List Value}

/-- Further entries are stored in the copy of a table, one after the other. `make` is the object that
    holds the table. -/
theorem keeps_storeEntries {make : Dict → Cell H} {t : Dict} {es : List (Value × Value)}
    (made : ∀ t, (make t).entries = t)
    (change : ∀ t f, (make t).withEntries f = make (f t))
    (mirror : Mirror s m.store R) (apart : ∀ i j, R i j → j ≠ id)
    (here : m.store.cells[id]? = some (make t)) (files : t.Files (ps.map s.imageOf))
    (keys : List.Forall₂ (Match R) ps t.keys)
    (new : List.Forall₂ (Match R) ks (es.map Prod.fst))
    (hashable : ∀ k ∈ ks, ∃ image, s.image none k = .ok image)
    (differ : (ps ++ ks).Pairwise (s.Differ total))
    (h : ∀ store t', m.store.Replaced store id (make t') → t'.keys = t.keys ++ es.map Prod.fst →
      t'.contents = t.contents ++ es.map Prod.snd → t'.Files ((ps ++ ks).map s.imageOf) →
      Q (m.withStore store)) :
    Keeps total (storeEntries id es) m Q := by
  induction es generalizing m ps ks t with
  | nil =>
    cases new
    refine Does.pure ⟨m.store, rfl, h m.store t (.refl here) (by simp) (by simp) ?_⟩
    simpa using files
  | cons e es ih =>
    obtain ⟨k', content⟩ := e
    cases new with
    | @cons k _ ks _ key new =>
      obtain ⟨image, hash⟩ := hashable k (List.mem_cons_self ..)
      have outside : ∀ i j, R i j → some id ≠ some j := fun i j r same =>
        apart i j r (Option.some.inj same).symm
      have hash' := mirror.image_mirror (some id) outside hash key
      have earlier : ∀ p ∈ ps, s.Differ total p k := fun p mem =>
        (List.pairwise_append.1 differ).2.2 p mem k (List.mem_cons_self ..)
      have split : ps ++ k :: ks = (ps ++ [k]) ++ ks := by simp
      rw [split] at differ h
      have step := Store.Replaced.modify here
        (Cell.withEntries fun d => d.put none image k' content)
      rw [change] at step
      refine Keeps.bind (keeps_storeEntry none here hash' ?_ fun _ => ?_)
      · rw [made]
        exact Mirror.find_copy outside mirror files keys key hash earlier
      · refine ih (mirror.replaced apart step) step.cell
          (Mirror.files_put files keys hash k' content) ?_ new
          (fun k mem => hashable k (List.mem_cons_of_mem _ mem)) differ ?_
        · rw [Keyed.keys_put]
          exact List.rel_append keys (.cons key .nil)
        · intro store t' replaced keys' contents' files'
          refine h store t' (step.trans replaced) ?_ ?_ files'
          · simpa using keys'
          · simpa using contents'

/-- Further members are added to the copy of a set, one after the other. -/
theorem keeps_addMembers {t : Members} {vs : List Value}
    (mirror : Mirror s m.store R) (apart : ∀ i j, R i j → j ≠ id)
    (here : m.store.cells[id]? = some (.set t)) (files : t.Files (ps.map s.imageOf))
    (keys : List.Forall₂ (Match R) ps t.keys) (new : List.Forall₂ (Match R) ks vs)
    (hashable : ∀ k ∈ ks, ∃ image, s.image none k = .ok image)
    (differ : (ps ++ ks).Pairwise (s.Differ total))
    (h : ∀ store t', m.store.Replaced store id (.set t') → t'.keys = t.keys ++ vs →
      t'.Files ((ps ++ ks).map s.imageOf) → Q (m.withStore store)) :
    Keeps total (addMembers id vs) m Q := by
  induction vs generalizing m ps ks t with
  | nil =>
    cases new
    refine Does.pure ⟨m.store, rfl, h m.store t (.refl here) (by simp) ?_⟩
    simpa using files
  | cons k' vs ih =>
    cases new with
    | @cons k _ ks _ key new =>
      obtain ⟨image, hash⟩ := hashable k (List.mem_cons_self ..)
      have outside : ∀ i j, R i j → some id ≠ some j := fun i j r same =>
        apart i j r (Option.some.inj same).symm
      have hash' := mirror.image_mirror (some id) outside hash key
      have earlier : ∀ p ∈ ps, s.Differ total p k := fun p mem =>
        (List.pairwise_append.1 differ).2.2 p mem k (List.mem_cons_self ..)
      have split : ps ++ k :: ks = (ps ++ [k]) ++ ks := by simp
      rw [split] at differ h
      have step := Store.Replaced.modify here (withMembers fun t => t.put none image k' ())
      refine Keeps.bind (keeps_addMember here hash'
        (Mirror.find_copy outside mirror files keys key hash earlier) ?_)
      refine ih (mirror.replaced apart step) step.cell
        (Mirror.files_put files keys hash k' ()) ?_ new
        (fun k mem => hashable k (List.mem_cons_of_mem _ mem)) differ ?_
      · rw [Keyed.keys_put]
        exact List.rel_append keys (.cons key .nil)
      · intro store t' replaced keys' files'
        refine h store t' (step.trans replaced) ?_ files'
        simpa using keys'

end

end Decoder

end ObjectStream
