import ObjectStream.Proofs.Atoms
import ObjectStream.Proofs.Filling

/-!
Graphs that can be carried from an encoder to a decoder.

Every object of the graph is of a built-in kind or an instance of a known class, its keys are told
apart, and no key leads back to its own container (`Trip.Sound`). While containers are being filled,
no key of what is still to be carried may lead to one of them (`Trip.Clear`): a sound graph stays
clear of each container that is entered (`Trip.Clear.enter`).
-/

namespace ObjectStream

variable {H : Type}

/-- The two ends of a trip, and the graph that is carried. -/
structure Trip (H : Type) where
  encoder : Encoder.Config H
  decoder : Decoder.Config H
  /-- The objects before the writing. -/
  source : Store H
  /-- Comparisons of keys are known to end. -/
  total : Prop
  /-- The classes of the instances. -/
  classes : Class → Prop
  /-- The globals that are written besides those that only have a name. -/
  globals : Global → Prop := fun _ => False

/-- Neither a global nor a host object; a tuple has items, and an instance is of one of these
    classes. -/
def Cell.Plain (classes : Class → Prop) : Cell H → Prop
  | .global _ => False
  | .object _ => False
  | .tuple items => items ≠ []
  | .inst c _ => classes c
  | _ => True

namespace Trip

/-- The encoder may write the global. -/
def Meets (x : Trip H) (g : Global) : Prop :=
  (∃ module qualname, g = .named module qualname) ∨ x.globals g

theorem meets_named (x : Trip H) (module qualname : String) : x.Meets (.named module qualname) :=
  .inl ⟨module, qualname, rfl⟩

/-- No key in the graph leads to one of the objects. -/
def Clear (x : Trip H) (s : Store H) (busy : List Nat) (v : Value) : Prop :=
  ∀ i cell, s.Reaches v (.ref i) → s.cells[i]? = some cell →
    ∀ key ∈ cell.keys, ∀ b ∈ busy, ¬x.source.Reaches key (.ref b)

namespace Clear

variable {x : Trip H} {s : Store H} {busy : List Nat} {v w : Value} {i : Nat} {cell : Cell H}

theorem nil (v : Value) : x.Clear s [] v := fun _ _ _ _ _ _ _ mem => nomatch mem

theorem reaches (h : x.Clear s busy v) (reach : s.Reaches v w) : x.Clear s busy w :=
  fun i cell inside => h i cell (reach.trans inside)

theorem child (h : x.Clear s busy (.ref i)) (found : s.cells[i]? = some cell)
    (held : v ∈ cell.children) : x.Clear s busy v :=
  h.reaches (.child .self found held)

theorem of_atom (atom : ∀ i, v ≠ .ref i) : x.Clear s busy v :=
  fun i _ reach => absurd (reach.eq_of_atom atom).symm (atom i)

theorem of_cell (found : s.cells[i]? = some cell)
    (keys : ∀ key ∈ cell.keys, ∀ b ∈ busy, ¬x.source.Reaches key (.ref b))
    (children : ∀ u ∈ cell.children, x.Clear s busy u) : x.Clear s busy (.ref i) := by
  intro j cell' reach found'
  rcases reach.ref_cases found with same | ⟨u, held, inside⟩
  · cases same
    obtain rfl := Option.some.inj (found.symm.trans found')
    exact keys
  · exact children u held j cell' inside found'

end Clear

end Trip

/-- Every object that the value reaches is there. -/
def Store.Closed (s : Store H) (v : Value) : Prop := ∀ i, s.Reaches v (.ref i) → i < s.size

theorem Store.Closed.grown {s s' : Store H} {v : Value} (h : s.Closed v) (grown : s.Grown s') :
    s'.Closed v := fun i reach =>
  Nat.lt_of_lt_of_le (h i ((grown.reaches_iff h).1 reach)) grown.size_le

theorem Store.closed_of_cell {s : Store H} {i : Nat} {cell : Cell H}
    (found : s.cells[i]? = some cell) (closed : ∀ v ∈ cell.children, s.Closed v) :
    s.Closed (.ref i) := by
  intro j reach
  rcases reach.ref_cases found with same | ⟨v, held, inside⟩
  · cases same
    exact Store.lt_size_of_cell found
  · exact closed v held j inside

variable [HostObject H]

/-- The keys of the object are keys, filed under their images, and no look-up takes one for another. -/
structure Cell.Orderly (s : Store H) (total : Prop) (cell : Cell H) : Prop where
  hashable : ∀ key ∈ cell.keys, ∃ image, s.image none key = .ok image
  filed : cell.Files (cell.keys.map s.imageOf)
  distinct : cell.keys.Pairwise (s.Differ total)

namespace Trip

variable (x : Trip H)

/-- An object that can be carried. -/
structure SoundCell (id : Nat) (cell : Cell H) : Prop where
  plain : cell.Plain x.classes
  older : cell.Older id
  orderly : cell.Orderly x.source x.total
  /-- The keys hold only objects that were there before the writing. -/
  closed : ∀ key ∈ cell.keys, ∀ j, x.source.Reaches key (.ref j) → j < x.source.size
  /-- No key leads back to the object. -/
  apart : ∀ key ∈ cell.keys, ¬x.source.Reaches key (.ref id)

/-- A graph that can be carried. -/
structure Sound (s : Store H) (v : Value) : Prop where
  later : x.source.size ≤ s.size
  inside : ∀ i, s.Reaches v (.ref i) → ∃ cell, s.cells[i]? = some cell ∧ x.SoundCell i cell

section
variable {x} {s s' : Store H} {busy : List Nat} {v w : Value} {i : Nat} {cell : Cell H}

namespace Sound

theorem reaches (h : x.Sound s v) (reach : s.Reaches v w) : x.Sound s w :=
  ⟨h.later, fun i inside => h.inside i (reach.trans inside)⟩

theorem child (h : x.Sound s (.ref i)) (found : s.cells[i]? = some cell)
    (held : v ∈ cell.children) : x.Sound s v :=
  h.reaches (.child .self found held)

theorem object (h : x.Sound s (.ref i)) (found : s.cells[i]? = some cell) : x.SoundCell i cell := by
  obtain ⟨cell', found', sound⟩ := h.inside i .self
  obtain rfl := Option.some.inj (found.symm.trans found')
  exact sound

theorem closed (h : x.Sound s v) : s.Closed v := by
  intro i reach
  obtain ⟨cell, found, -⟩ := h.inside i reach
  exact Store.lt_size_of_cell found

theorem grown (h : x.Sound s v) (grown : s.Grown s') : x.Sound s' v := by
  refine ⟨Nat.le_trans h.later grown.size_le, fun i reach => ?_⟩
  obtain ⟨cell, found, sound⟩ := h.inside i ((grown.reaches_iff h.closed).1 reach)
  exact ⟨cell, grown i cell found, sound⟩

theorem of_atom (later : x.source.size ≤ s.size) (atom : ∀ i, v ≠ .ref i) : x.Sound s v :=
  ⟨later, fun i reach => absurd (reach.eq_of_atom atom).symm (atom i)⟩

/-- An object is sound if it is so itself and holds sound values. -/
theorem of_cell (later : x.source.size ≤ s.size) (found : s.cells[i]? = some cell)
    (sound : x.SoundCell i cell) (children : ∀ u ∈ cell.children, x.Sound s u) :
    x.Sound s (.ref i) := by
  refine ⟨later, fun j reach => ?_⟩
  rcases reach.ref_cases found with same | ⟨u, held, inside⟩
  · cases same
    exact ⟨cell, found, sound⟩
  · exact (children u held).inside j inside

end Sound

namespace Clear

omit [HostObject H] in
theorem grown (h : x.Clear s busy v) (closed : s.Closed v) (grown : s.Grown s') :
    x.Clear s' busy v := by
  intro i cell reach found
  have before := (grown.reaches_iff closed).1 reach
  obtain ⟨cell', kept⟩ := Store.cell_of_lt_size (closed i before)
  obtain rfl := Option.some.inj ((grown i cell' kept).symm.trans found)
  exact h i cell' before kept

/-- The keys behind an object that is being filled do not lead to it: it leads to them. -/
theorem enter (h : x.Clear s busy (.ref i)) (source : x.source.Grown s)
    (sound : x.Sound s (.ref i)) (found : s.cells[i]? = some cell) (held : v ∈ cell.children) :
    x.Clear s (i :: busy) v := by
  intro j cell' reach found' key mem b here
  have inside : s.Reaches (.ref i) (.ref j) := .of_child found held reach
  have keyed := (sound.reaches inside).object found'
  rcases List.mem_cons.1 here with rfl | here
  · intro back
    have closed : ∀ k, x.source.Reaches (.ref b) (.ref k) → k < x.source.size :=
      fun k further => keyed.closed key mem k (back.trans further)
    exact keyed.apart key mem (back.trans ((source.reaches_iff closed).1 inside))
  · exact h j cell' inside found' key mem b here

end Clear

end

end Trip

end ObjectStream
