import Mathlib.Data.List.Forall2
import Mathlib.Data.Set.Function
import ObjectStream.Equality

/-!
Graphs of values.

A value reaches what the objects behind it hold. Two graphs are alike if their objects correspond one
to one, so that corresponding objects are of one kind and hold corresponding values in the same order
(`Isomorphic`). A correspondence leaves out what no reader can tell: the payload of a not-a-number,
and whether a small integer was stored as a long one.
-/

namespace ObjectStream

namespace Keyed

variable {α : Type}

/-- The contents in order. -/
def contents (t : Keyed α) : List α := t.entries.toList.map Prod.snd

/-- The places of an image in a list of images. -/
def places (images : List (Array UInt8)) (image : Array UInt8) : List Nat :=
  (List.range images.length).filter fun place => images[place]? = some image

/-- The index files the entries under these images, the image of each entry at its place. -/
def Files (t : Keyed α) (images : List (Array UInt8)) : Prop :=
  ∀ image, t.index.getD image [] = places images image

end Keyed

variable {H : Type}

namespace Cell

/-- The keys that an object holds. -/
def keys : Cell H → List Value
  | .dict t | .inst _ t => t.keys
  | .set t | .frozenset t => t.keys
  | _ => []

/-- What an object holds beside its keys. -/
def contents : Cell H → List Value
  | .list items => items.toList
  | .tuple items => items
  | .dict t | .inst _ t => t.contents
  | _ => []

/-- The values that an object holds. -/
def children (cell : Cell H) : List Value := cell.keys ++ cell.contents

/-- The table of the object, if it has one, files its keys under these images. -/
def Files (images : List (Array UInt8)) : Cell H → Prop
  | .dict t | .inst _ t => t.Files images
  | .set t | .frozenset t => t.Files images
  | _ => True

theorem mem_children {cell : Cell H} {v : Value} :
    v ∈ cell.children ↔ v ∈ cell.keys ∨ v ∈ cell.contents := List.mem_append

end Cell

/-! ## Reachability -/

namespace Store

/-- The values that a value reaches. -/
inductive Reaches (s : Store H) (v : Value) : Value → Prop
  | self : s.Reaches v v
  | child {i : Nat} {cell : Cell H} {w : Value} (above : s.Reaches v (.ref i))
      (found : s.cells[i]? = some cell) (held : w ∈ cell.children) : s.Reaches v w

namespace Reaches

variable {s : Store H} {u v w : Value}

theorem trans (h : s.Reaches u v) (h' : s.Reaches v w) : s.Reaches u w := by
  induction h' with
  | self => exact h
  | child _ found held ih => exact .child ih found held

theorem of_child {i : Nat} {cell : Cell H} (found : s.cells[i]? = some cell)
    (held : v ∈ cell.children) (h : s.Reaches v w) : s.Reaches (.ref i) w :=
  (Reaches.child .self found held).trans h

/-- A value that is no object reaches only itself. -/
theorem eq_of_atom (h : s.Reaches v w) (atom : ∀ i, v ≠ .ref i) : w = v := by
  induction h with
  | self => rfl
  | child above _ _ ih => exact absurd ih.symm (atom _)

/-- What an object reaches, one of its children reaches. -/
theorem ref_cases {i : Nat} {cell : Cell H} (h : s.Reaches (.ref i) w)
    (found : s.cells[i]? = some cell) :
    w = .ref i ∨ ∃ u ∈ cell.children, s.Reaches u w := by
  induction h with
  | self => exact .inl rfl
  | @child j cell' w above found' held ih =>
    rcases ih with same | ⟨u, mem, inside⟩
    · cases same
      obtain rfl : cell = cell' := Option.some.inj (found.symm.trans found')
      exact .inr ⟨w, held, .self⟩
    · exact .inr ⟨u, mem, .child inside found' held⟩

end Reaches

/-- Every object is kept as it is. -/
def Grown (s s' : Store H) : Prop :=
  ∀ (i : Nat) (cell : Cell H), s.cells[i]? = some cell → s'.cells[i]? = some cell

theorem lt_size_of_cell {s : Store H} {i : Nat} {cell : Cell H} (h : s.cells[i]? = some cell) :
    i < s.size := (Array.getElem?_eq_some_iff.1 h).1

theorem cell_of_lt_size {s : Store H} {i : Nat} (h : i < s.size) :
    ∃ cell, s.cells[i]? = some cell := ⟨_, Array.getElem?_eq_getElem h⟩

theorem tuple?_of_cell {s : Store H} {i : Nat} {items : List Value}
    (h : s.cells[i]? = some (.tuple items)) : s.tuple? (.ref i) = some items := by
  simp only [tuple?, cell?, h]

theorem global?_of_cell {s : Store H} {i : Nat} {g : Global} (h : s.cells[i]? = some (.global g)) :
    s.global? (.ref i) = some g := by
  simp only [global?, cell?, h]

theorem cell_of_tuple? {s : Store H} {v : Value} {items : List Value}
    (h : s.tuple? v = some items) : items = [] ∨ s.cell? v = some (.tuple items) := by
  unfold tuple? at h
  split at h
  · exact .inl (Option.some.inj h).symm
  · split at h
    · next found =>
      cases h
      exact .inr found
    · cases h

theorem cell_of_dict? {s : Store H} {v : Value} {d : Dict} (h : s.dict? v = some d) :
    s.cell? v = some (.dict d) := by
  unfold dict? at h
  split at h
  · next found =>
    cases h
    exact found
  · cases h

@[simp] theorem size_push (s : Store H) (cell : Cell H) : (s.push cell).size = s.size + 1 :=
  Array.size_push ..

theorem cell_push_last (s : Store H) (cell : Cell H) :
    (s.push cell).cells[s.size]? = some cell := Array.getElem?_push_size

theorem cell_push_lt {s : Store H} {cell : Cell H} {i : Nat} (h : i < s.size) :
    (s.push cell).cells[i]? = s.cells[i]? := by
  simp only [push, Array.getElem?_push]
  exact if_neg (Nat.ne_of_lt h)

namespace Grown

variable {s s' s'' : Store H}

theorem refl (s : Store H) : s.Grown s := fun _ _ h => h

theorem trans (h : s.Grown s') (h' : s'.Grown s'') : s.Grown s'' :=
  fun i cell found => h' i cell (h i cell found)

theorem push (s : Store H) (cell : Cell H) : s.Grown (s.push cell) := fun _ _ found => by
  rw [cell_push_lt (lt_size_of_cell found)]
  exact found

theorem size_le (h : s.Grown s') : s.size ≤ s'.size := by
  by_contra less
  obtain ⟨cell, found⟩ := cell_of_lt_size (Nat.lt_of_not_le less)
  exact Nat.lt_irrefl _ (lt_size_of_cell (h _ _ found))

theorem reaches (h : s.Grown s') {v w : Value} (reach : s.Reaches v w) : s'.Reaches v w := by
  induction reach with
  | self => exact .self
  | child _ found held ih => exact .child ih (h _ _ found) held

/-- A graph whose objects are all there stays as it is. -/
theorem reaches_iff (h : s.Grown s') {v w : Value}
    (closed : ∀ i, s.Reaches v (.ref i) → i < s.size) : s'.Reaches v w ↔ s.Reaches v w := by
  refine ⟨fun reach => ?_, h.reaches⟩
  induction reach with
  | self => exact .self
  | child _ found held ih =>
    obtain ⟨cell, kept⟩ := cell_of_lt_size (closed _ ih)
    obtain rfl := Option.some.inj ((h _ _ kept).symm.trans found)
    exact .child ih kept held

end Grown

end Store

/-! ## Correspondence -/

/-- Corresponding values, where `R` is a correspondence of objects. An integer that fits a word
    corresponds to that word, and a not-a-number to every other. -/
inductive Match (R : Nat → Nat → Prop) : Value → Value → Prop
  | none : Match R .none .none
  | bool (b : Bool) : Match R (.bool b) (.bool b)
  | int (n : Int64) : Match R (.int n) (.int n)
  | long (n : Int) : Match R (.long n) (.ofInt n)
  | float {x y : Double} (same : y.settled = x.settled) : Match R (.float x) (.float y)
  | complex {re im re' im' : Double} (same : re'.settled = re.settled)
      (same' : im'.settled = im.settled) : Match R (.complex re im) (.complex re' im')
  | str (text : String) : Match R (.str text) (.str text)
  | bytes (bs : Bytes) : Match R (.bytes bs) (.bytes bs)
  | emptyTuple : Match R .emptyTuple .emptyTuple
  | ref {i j : Nat} (h : R i j) : Match R (.ref i) (.ref j)

/-- Corresponding objects: of one kind, with corresponding values in the same order. -/
inductive Cell.Matches (R : Nat → Nat → Prop) : Cell H → Cell H → Prop
  | bytearray (data : Bytes) : Matches R (.bytearray data) (.bytearray data)
  | list {a b : Array Value} (items : List.Forall₂ (Match R) a.toList b.toList) :
      Matches R (.list a) (.list b)
  | tuple {a b : List Value} (items : List.Forall₂ (Match R) a b) :
      Matches R (.tuple a) (.tuple b)
  | dict {a b : Dict} (keys : List.Forall₂ (Match R) a.keys b.keys)
      (contents : List.Forall₂ (Match R) a.contents b.contents) : Matches R (.dict a) (.dict b)
  | set {a b : Members} (keys : List.Forall₂ (Match R) a.keys b.keys) :
      Matches R (.set a) (.set b)
  | frozenset {a b : Members} (keys : List.Forall₂ (Match R) a.keys b.keys) :
      Matches R (.frozenset a) (.frozenset b)
  | inst {a b : Dict} (c : Class) (keys : List.Forall₂ (Match R) a.keys b.keys)
      (contents : List.Forall₂ (Match R) a.contents b.contents) :
      Matches R (.inst c a) (.inst c b)

/-- The graphs behind two values are alike: the objects that one reaches correspond one to one to
    those that the other reaches. -/
def Isomorphic (s s' : Store H) (v w : Value) : Prop :=
  ∃ f : Nat → Nat,
    Set.BijOn f {i | s.Reaches v (.ref i)} {j | s'.Reaches w (.ref j)} ∧
    Match (fun i j => f i = j) v w ∧
    ∀ i, s.Reaches v (.ref i) → ∃ cell cell',
      s.cells[i]? = some cell ∧ s'.cells[f i]? = some cell' ∧
        cell.Matches (fun i j => f i = j) cell'

/-- The joint graphs behind two lists of values correspond along `f`. -/
structure Corresponds (f : Nat → Nat) (s s' : Store H) (vs ws : List Value) : Prop where
  bijective : Set.BijOn f {i | ∃ v ∈ vs, s.Reaches v (.ref i)} {j | ∃ w ∈ ws, s'.Reaches w (.ref j)}
  values : List.Forall₂ (Match fun i j => f i = j) vs ws
  objects : ∀ v ∈ vs, ∀ i, s.Reaches v (.ref i) → ∃ cell cell',
    s.cells[i]? = some cell ∧ s'.cells[f i]? = some cell' ∧ cell.Matches (fun i j => f i = j) cell'

theorem Corresponds.isomorphic {f : Nat → Nat} {s s' : Store H} {v w : Value}
    (h : Corresponds f s s' [v] [w]) : Isomorphic s s' v w := by
  refine ⟨f, by simpa using h.bijective, ?_, h.objects v (List.mem_singleton_self v)⟩
  cases h.values with
  | cons same _ => exact same

section
variable {R R' : Nat → Nat → Prop} {v w : Value}

/-- Only the objects among the values matter. -/
theorem Match.congr (h : Match R v w) (grow : ∀ i j, v = .ref i → R i j → R' i j) :
    Match R' v w := by
  cases h with
  | ref h => exact .ref (grow _ _ rfl h)
  | none => exact .none
  | bool b => exact .bool b
  | int n => exact .int n
  | long n => exact .long n
  | float same => exact .float same
  | complex same same' => exact .complex same same'
  | str text => exact .str text
  | bytes bs => exact .bytes bs
  | emptyTuple => exact .emptyTuple

theorem Match.mono (h : Match R v w) (grow : ∀ i j, R i j → R' i j) : Match R' v w :=
  h.congr fun i j _ => grow i j

/-- Pairs of two lists are members of them. -/
theorem forall₂_mem {α β : Type} {P : α → β → Prop} {as : List α} {bs : List β}
    (h : List.Forall₂ P as bs) : List.Forall₂ (fun a b => P a b ∧ a ∈ as ∧ b ∈ bs) as bs := by
  induction h with
  | nil => exact .nil
  | cons head _ ih =>
    refine .cons ⟨head, List.mem_cons_self .., List.mem_cons_self ..⟩ (ih.imp ?_)
    exact fun _ _ ⟨p, left, right⟩ =>
      ⟨p, List.mem_cons_of_mem _ left, List.mem_cons_of_mem _ right⟩

theorem forall₂_left {α β : Type} {P : α → β → Prop} {as : List α} {bs : List β}
    (h : List.Forall₂ P as bs) {a : α} (mem : a ∈ as) : ∃ b ∈ bs, P a b := by
  induction h with
  | nil => cases mem
  | cons head _ ih =>
    rcases List.mem_cons.1 mem with rfl | mem
    · exact ⟨_, List.mem_cons_self .., head⟩
    · obtain ⟨b, held, p⟩ := ih mem
      exact ⟨b, List.mem_cons_of_mem _ held, p⟩

theorem matchAll_mono {vs ws : List Value} (h : List.Forall₂ (Match R) vs ws)
    (grow : ∀ i j, R i j → R' i j) : List.Forall₂ (Match R') vs ws :=
  h.imp fun _ _ m => m.mono grow

theorem ofInt_ne_ref (n : Int) (i : Nat) : Value.ofInt n ≠ .ref i := by
  unfold Value.ofInt
  split <;> exact nofun

theorem Match.of_ref {j : Nat} (h : Match R v (.ref j)) : ∃ i, v = .ref i ∧ R i j := by
  generalize same : Value.ref j = w at h
  cases h with
  | long n => exact absurd same.symm (ofInt_ne_ref n j)
  | ref h => cases same; exact ⟨_, rfl, h⟩
  | _ => cases same

namespace Cell.Matches

variable {cell cell' : Cell H}

theorem keys (h : cell.Matches R cell') : List.Forall₂ (Match R) cell.keys cell'.keys := by
  cases h with
  | dict keys contents => exact keys
  | set keys => exact keys
  | frozenset keys => exact keys
  | inst c keys contents => exact keys
  | _ => exact .nil

theorem contents (h : cell.Matches R cell') :
    List.Forall₂ (Match R) cell.contents cell'.contents := by
  cases h with
  | list items => exact items
  | tuple items => exact items
  | dict keys contents => exact contents
  | inst c keys contents => exact contents
  | _ => exact .nil

theorem children (h : cell.Matches R cell') :
    List.Forall₂ (Match R) cell.children cell'.children :=
  List.rel_append h.keys h.contents

/-- Only the objects among the children matter. -/
theorem congr (h : cell.Matches R cell')
    (grow : ∀ i j, .ref i ∈ cell.children → R i j → R' i j) : cell.Matches R' cell' := by
  have keep : ∀ {vs ws : List Value}, List.Forall₂ (Match R) vs ws →
      (∀ v ∈ vs, v ∈ cell.children) → List.Forall₂ (Match R') vs ws := by
    intro vs ws same inside
    refine (forall₂_mem same).imp fun v w ⟨m, mem, _⟩ => m.congr ?_
    rintro i j rfl
    exact grow i j (inside _ mem)
  have keys := keep h.keys fun v mem => Cell.mem_children.2 (.inl mem)
  have contents := keep h.contents fun v mem => Cell.mem_children.2 (.inr mem)
  cases h with
  | bytearray data => exact .bytearray data
  | list items => exact .list contents
  | tuple items => exact .tuple contents
  | dict _ _ => exact .dict keys contents
  | set _ => exact .set keys
  | frozenset _ => exact .frozenset keys
  | inst c _ _ => exact .inst c keys contents

theorem mono (h : cell.Matches R cell') (grow : ∀ i j, R i j → R' i j) :
    cell.Matches R' cell' :=
  h.congr fun i j _ => grow i j

end Cell.Matches

end

end ObjectStream
