import ObjectStream.Proofs.Trip

/-!
Graphs as programs build them.

A tuple or a frozen set is made from objects that are there already, and a table tells all its keys
apart that were put into it one after the other (`Keyed.Orderly.insertAll`): such graphs are tidy
(`Store.Tidy`). A key without instances consists of tuples and frozen sets, so what it leads to gets
older and older, and it never leads back to the table that holds it (`Store.Tidy.apart`). A tidy
graph with such keys can be carried (`Trip.sound_of_tidy`).
-/

namespace ObjectStream

variable {H : Type}

/-! ## Tables -/

namespace Keyed

variable {α : Type} {f : Nat → Option Bool}

theorem firstPlace_eq_none {l : List Nat} (h : firstPlace f l = some none) :
    ∀ i ∈ l, f i = some false := by
  induction l with
  | nil => exact fun _ mem => nomatch mem
  | cons i rest ih =>
    rw [firstPlace] at h
    intro j mem
    split at h
    · cases h
    · next no =>
      rcases List.mem_cons.1 mem with rfl | mem
      · exact no
      · exact ih h j mem
    · cases h

@[simp] theorem keys_put_some (t : Keyed α) (place : Nat) (image : Array UInt8) (key : Value)
    (content : α) : (t.put (some place) image key content).keys = t.keys := by
  refine List.ext_getElem? fun i => ?_
  simp only [put, keys, List.getElem?_map, Array.getElem?_toList, Array.getElem?_modify]
  split <;> cases t.entries[i]? <;> rfl

variable [HostObject H]

/-- The keys are keys, filed under their images, and no look-up takes one for another. -/
structure Orderly (t : Keyed α) (s : Store H) (total : Prop) : Prop where
  hashable : ∀ key ∈ t.keys, ∃ image, s.image none key = .ok image
  filed : t.Files (t.keys.map s.imageOf)
  distinct : t.keys.Pairwise (s.Differ total)

namespace Orderly

variable {s : Store H} {total : Prop} {t t' : Keyed α}

theorem empty : (Keyed.empty : Keyed α).Orderly s total :=
  ⟨nofun, files_empty, .nil⟩

/-- An insertion that succeeds keeps the keys apart. -/
theorem insert {key : Value} {content : α} {old : Option α} (h : t.Orderly s total)
    (run : s.insert t key content = .ok (old, t')) : t'.Orderly s total := by
  simp only [Store.insert, Store.insertFor] at run
  cases hash : s.image none key with
  | error e => rw [hash] at run; cases run
  | ok image =>
    have here := Store.imageOf_eq hash
    simp only [hash, bind, Except.bind] at run
    split at run
    · cases run
    · next place found =>
      cases run
      cases place with
      | some place =>
        refine ⟨?_, ?_, ?_⟩
        · rw [keys_put_some]
          exact h.hashable
        · rw [keys_put_some]
          exact h.filed
        · rw [keys_put_some]
          exact h.distinct
      | none =>
        refine ⟨?_, ?_, ?_⟩
        · intro k mem
          rw [keys_put] at mem
          rcases List.mem_append.1 mem with mem | mem
          · exact h.hashable k mem
          · rw [List.mem_singleton.1 mem]
            exact ⟨image, hash⟩
        · rw [keys_put, List.map_append, List.map_singleton, here]
          exact h.filed.put (by rw [List.length_map, length_keys]) _ _ _
        · rw [keys_put]
          refine List.pairwise_append.2
            ⟨h.distinct, List.pairwise_singleton _ _, fun k mem k' mem' => ?_⟩
          rw [List.mem_singleton.1 mem']
          by_cases same : s.imageOf k = s.imageOf key
          · obtain ⟨i, inside, rfl⟩ := List.getElem_of_mem mem
            have refused := firstPlace_eq_none found i (by
              rw [mem_met, h.filed]
              refine mem_places.2 ?_
              rw [List.getElem?_map, List.getElem?_eq_getElem inside, Option.map_some, same, here])
            rw [length_keys] at inside
            simp only [Array.getElem?_eq_getElem inside] at refused
            simp only [keys, List.getElem_map, Array.getElem_toList]
            exact .inr (.inl refused)
          · exact .inl same

/-- A table is orderly if its entries were put into it one after the other. -/
theorem insertAll {es : List (Value × α)} (h : t.Orderly s total)
    (run : s.insertAll t es = .ok t') : t'.Orderly s total := by
  induction es generalizing t with
  | nil => cases run; exact h
  | cons e rest ih =>
    obtain ⟨key, content⟩ := e
    rw [Store.insertAll, List.foldlM_cons] at run
    cases first : s.insert t key content with
    | error e => simp only [first] at run; cases run
    | ok found =>
      simp only [first] at run
      exact ih (h.insert first) run

end Orderly
end Keyed

/-- An object without keys has nothing to tell apart. -/
theorem Cell.orderly_of_no_keys [HostObject H] {s : Store H} {total : Prop} {cell : Cell H}
    (none : cell.keys = []) (files : cell.Files []) : cell.Orderly s total := by
  refine ⟨?_, ?_, ?_⟩ <;> simp [none, files]

/-- A dictionary that was made from a list of entries is orderly. -/
theorem Store.orderly_dictOf [HostObject H] {s : Store H} {total : Prop}
    {entries : List (Value × Value)} {t : Dict} (made : s.dictOf entries = .ok t) :
    (Cell.dict t : Cell H).Orderly s total := by
  have orderly : t.Orderly s total := Keyed.Orderly.empty.insertAll made
  exact ⟨orderly.hashable, orderly.filed, orderly.distinct⟩

/-- A set and a frozen set that were made from a list of members are orderly. -/
theorem Store.orderly_membersOf [HostObject H] {s : Store H} {total : Prop}
    {members : List Value} {t : Members} (made : s.membersOf members = .ok t) :
    (Cell.set t : Cell H).Orderly s total ∧ (Cell.frozenset t : Cell H).Orderly s total := by
  have orderly : t.Orderly s total := Keyed.Orderly.empty.insertAll made
  exact ⟨⟨orderly.hashable, orderly.filed, orderly.distinct⟩,
    ⟨orderly.hashable, orderly.filed, orderly.distinct⟩⟩

/-! ## Tidy graphs -/

/-- What a tuple or a frozen set holds was there before it. -/
def Cell.Grounded (id : Nat) : Cell H → Prop
  | .tuple items => ∀ j, .ref j ∈ items → j < id
  | .frozenset members => ∀ j, .ref j ∈ members.keys → j < id
  | _ => True

theorem Cell.Grounded.older {id : Nat} {cell : Cell H} (h : cell.Grounded id) : cell.Older id := by
  cases cell with
  | tuple items => exact h
  | _ => trivial

/-- No instance is inside a key. -/
def Store.KeysBare (s : Store H) (v : Value) : Prop :=
  ∀ i cell, s.Reaches v (.ref i) → s.cells[i]? = some cell → ∀ key ∈ cell.keys,
    ∀ j c t, s.Reaches key (.ref j) → s.cells[j]? ≠ some (.inst c t)

/-- No key leads back to the object that holds it. -/
def Store.KeysApart (s : Store H) (v : Value) : Prop :=
  ∀ i cell, s.Reaches v (.ref i) → s.cells[i]? = some cell → ∀ key ∈ cell.keys,
    ¬s.Reaches key (.ref i)

variable [HostObject H]

/-- A graph of objects that are all there, instances of the classes among them, as a program builds
    it. -/
def Store.Tidy (s : Store H) (total : Prop) (classes : Class → Prop) (v : Value) : Prop :=
  ∀ i, s.Reaches v (.ref i) → ∃ cell, s.cells[i]? = some cell ∧ cell.Plain classes ∧
    cell.Grounded i ∧ cell.Orderly s total

namespace Store

variable {s : Store H} {v w : Value} {total : Prop} {classes : Class → Prop}

/-- Tidy objects that hold only objects of the same kind make up a tidy graph. -/
theorem tidy_of_cells
    (cells : ∀ (i : Nat) (cell : Cell H), s.cells[i]? = some cell →
      (cell.Plain classes ∧ cell.Grounded i ∧ cell.Orderly s total) ∧
        ∀ j, Value.ref j ∈ cell.children → j < s.size)
    (root : ∀ i, v = .ref i → i < s.size) : s.Tidy total classes v := by
  have bound : ∀ w, s.Reaches v w → ∀ i, w = .ref i → i < s.size := by
    intro w reach
    induction reach with
    | self => exact root
    | child above found held =>
      rintro j rfl
      exact (cells _ _ found).2 j held
  intro i reach
  obtain ⟨cell, found⟩ := cell_of_lt_size (bound _ reach i rfl)
  exact ⟨cell, found, (cells i cell found).1⟩

/-! ## Keys -/

/-- The value has an image, alone or as a part of another. -/
def Imaged (s : Store H) (v : Value) : Prop :=
  ∃ fuel before image, s.imageWithin none fuel before v = .ok image

theorem imaged_of_image {image : Array UInt8} (h : s.image none v = .ok image) : s.Imaged v :=
  ⟨_, _, _, h⟩

/-- The items of a tuple with an image have images. -/
theorem imaged_of_foldlM {fuel : Nat} {items : List Value} {before image : Array UInt8}
    (h : items.foldlM (s.imageWithin none fuel) before = .ok image) :
    ∀ item ∈ items, s.Imaged item := by
  induction items generalizing before with
  | nil => exact fun _ mem => nomatch mem
  | cons first rest ih =>
    rw [List.foldlM_cons] at h
    cases here : s.imageWithin none fuel before first with
    | error e => rw [here] at h; cases h
    | ok next =>
      rw [here] at h
      intro item mem
      rcases List.mem_cons.1 mem with rfl | mem
      · exact ⟨fuel, before, next, here⟩
      · exact ih h item mem

/-- An object with an image and without instances is a tuple or a frozen set. -/
theorem Imaged.object {i : Nat} {cell : Cell H} (h : s.Imaged (.ref i))
    (found : s.cells[i]? = some cell) (plain : cell.Plain classes)
    (bare : ∀ c t, s.cells[i]? ≠ some (.inst c t)) :
    (∃ items, cell = .tuple items ∧ ∀ item ∈ items, s.Imaged item) ∨
      ∃ members, cell = .frozenset members := by
  obtain ⟨fuel, before, image, run⟩ := h
  rw [Mirror.imageWithin_ref, found] at run
  cases cell with
  | tuple items =>
    cases fuel with
    | zero => cases run
    | succ fuel => exact .inl ⟨items, rfl, imaged_of_foldlM run⟩
  | frozenset members => exact .inr ⟨members, rfl⟩
  | inst c t => exact absurd found (bare c t)
  | global g => exact plain.elim
  | object content => exact plain.elim
  | bytearray data => cases run
  | list items => cases run
  | dict entries => cases run
  | set members => cases run

namespace Tidy

theorem of_atom (atom : v.identity? = none) : s.Tidy total classes v := by
  intro i reach
  rw [← reach.eq_of_atom fun j same => by rw [same] at atom; cases atom] at atom
  cases atom

/-- A tidy object that holds tidy values. -/
theorem of_cell {i : Nat} {cell : Cell H} (found : s.cells[i]? = some cell) (plain : cell.Plain classes)
    (grounded : cell.Grounded i) (orderly : cell.Orderly s total)
    (children : ∀ u ∈ cell.children, s.Tidy total classes u) : s.Tidy total classes (.ref i) := by
  intro j reach
  rcases reach.ref_cases found with same | ⟨u, held, inside⟩
  · cases same
    exact ⟨cell, found, plain, grounded, orderly⟩
  · exact children u held j inside

/-- A graph without instances has none in its keys. -/
theorem bare (tidy : s.Tidy total (fun _ => False) v) : s.KeysBare v := by
  intro i cell reach found key mem j c t inside here
  have held : key ∈ cell.children := Cell.mem_children.2 (.inl mem)
  obtain ⟨cell', found', plain, -⟩ := tidy j ((Store.Reaches.child reach found held).trans inside)
  obtain rfl := Option.some.inj (here.symm.trans found')
  exact plain

variable (tidy : s.Tidy total classes v)
include tidy

theorem reaches (reach : s.Reaches v w) : s.Tidy total classes w :=
  fun i inside => tidy i (reach.trans inside)

/-- A value with an image and without instances is a key in all its parts, and its objects get older
    and older. -/
theorem imaged_inside (image : s.Imaged v)
    (bare : ∀ j c t, s.Reaches v (.ref j) → s.cells[j]? ≠ some (.inst c t))
    (reach : s.Reaches v w) :
    s.Imaged w ∧ ∀ j, w = .ref j → ∃ i, v = .ref i ∧ j ≤ i := by
  induction reach with
  | self => exact ⟨image, fun j same => ⟨j, same, Nat.le_refl j⟩⟩
  | @child k cell w above found held ih =>
    obtain ⟨here, back⟩ := ih
    obtain ⟨i, same, bound⟩ := back k rfl
    obtain ⟨cell', found', plain, grounded, orderly⟩ := tidy k above
    obtain rfl := Option.some.inj (found.symm.trans found')
    rcases here.object found plain (fun c t => bare k c t above) with
      ⟨items, rfl, parts⟩ | ⟨members, rfl⟩
    · refine ⟨parts w held, ?_⟩
      rintro j rfl
      exact ⟨i, same, Nat.le_trans (Nat.le_of_lt (grounded j held)) bound⟩
    · have key : w ∈ members.keys := by
        simpa [Cell.children, Cell.keys, Cell.contents] using held
      obtain ⟨_, hash⟩ := orderly.hashable w key
      refine ⟨imaged_of_image hash, ?_⟩
      rintro j rfl
      exact ⟨i, same, Nat.le_trans (Nat.le_of_lt (grounded j key)) bound⟩

/-- A key without instances does not lead back to the object that holds it. -/
theorem apart (bare : s.KeysBare v) : s.KeysApart v := by
  intro i cell reach found key mem back
  obtain ⟨cell', found', plain, grounded, orderly⟩ := tidy i reach
  obtain rfl := Option.some.inj (found.symm.trans found')
  have held : key ∈ cell.children := Cell.mem_children.2 (.inl mem)
  obtain ⟨_, hash⟩ := orderly.hashable key mem
  obtain ⟨image, older⟩ := (tidy.reaches (.child reach found held)).imaged_inside
    (imaged_of_image hash) (fun j c t => bare i cell reach found key mem j c t) back
  obtain ⟨k, rfl, bound⟩ := older i rfl
  -- The object has an image, so it is a frozen set, and its members are older than itself.
  rcases image.object found plain (fun c t => bare i cell reach found _ mem i c t back) with
    ⟨items, rfl, -⟩ | ⟨members, rfl⟩
  · cases mem
  · exact Nat.not_lt.2 bound (grounded k mem)

end Tidy

end Store

namespace Trip

variable {x : Trip H} {v : Value}

/-- A tidy graph whose keys do not lead back can be carried. -/
theorem sound_of_tidy (tidy : x.source.Tidy x.total x.classes v) (apart : x.source.KeysApart v) :
    x.Sound x.source v := by
  refine ⟨Nat.le_refl _, fun i reach => ?_⟩
  obtain ⟨cell, found, plain, grounded, orderly⟩ := tidy i reach
  refine ⟨cell, found, plain, grounded.older, orderly, fun key mem j inside => ?_,
    fun key mem => apart i cell reach found key mem⟩
  have held : key ∈ cell.children := Cell.mem_children.2 (.inl mem)
  obtain ⟨cell', found', -⟩ := tidy j ((Store.Reaches.child reach found held).trans inside)
  exact Store.lt_size_of_cell found'

end Trip

end ObjectStream
