import ObjectStream.Proofs.Keys
import ObjectStream.Proofs.Orders

/-!
Tables that leave no choice.

A look-up has a choice only if several keys are filed under one image. A table is sparse if no two of its
keys are (`Keyed.Sparse`). Then there is nothing to put in an order, so comparisons come to the same in
every order (`Store.equalFor_on`). Entries that are put into a table take none away. So a table that is
sparse in the end was sparse before each of them, and is made in the same way in every order
(`Store.insertAll_on`).
-/

namespace ObjectStream

/-! ## Tables -/

namespace Keyed

variable {α : Type} {t : Keyed α}

/-- No two keys of the table are filed under one image. -/
def Sparse (t : Keyed α) : Prop := ∀ image, (t.index.getD image []).length ≤ 1

@[simp] theorem sparse_empty : (Keyed.empty : Keyed α).Sparse := fun image => by simp [Keyed.empty]

/-- Under one image there is at most one place, so there is one order. -/
theorem Sparse.find_eq (h : t.Sparse) (p q : Probing) (image : Array UInt8)
    (same : Value → Option Bool) : t.find p image same = t.find q image same := by
  have met : t.met p image = t.met q image := by
    have few := h image
    rcases places : t.index.getD image [] with _ | ⟨i, _ | ⟨j, rest⟩⟩
    · rw [met_nil places, met_nil places]
    · rw [met_single places, met_single places]
    · rw [places, List.length_cons, List.length_cons] at few
      omega
  rw [find, find, met]

/-- An entry that is put in takes no place away. -/
theorem Sparse.of_put {place : Option Nat} {image : Array UInt8} {key : Value} {content : α}
    (h : (t.put place image key content).Sparse) : t.Sparse := by
  cases place with
  | some i => exact h
  | none =>
    intro other
    have few := h other
    simp only [put, Std.HashMap.getD_insert, beq_iff_eq] at few
    split at few
    · next same =>
      rw [List.length_append, List.length_singleton] at few
      rw [← same]
      omega
    · exact few

/-- A table stays sparse if nothing was filed under the image of the new entry. -/
theorem Sparse.put {image : Array UInt8} (h : t.Sparse) (fresh : t.index.getD image [] = [])
    (key : Value) (content : α) : (t.put none image key content).Sparse := by
  intro other
  simp only [Keyed.put, Std.HashMap.getD_insert, beq_iff_eq, fresh]
  split
  · exact Nat.le_refl 1
  · exact h other

end Keyed

/-! ## Objects -/

variable {H : Type}

/-- The table of the object, if it has one, is sparse. -/
def Cell.Sparse : Cell H → Prop
  | .dict t | .inst _ t => t.Sparse
  | .set t | .frozenset t => t.Sparse
  | _ => True

theorem Cell.Sparse.entries {cell : Cell H} (h : cell.Sparse) : cell.entries.Sparse := by
  cases cell with
  | dict t | inst c t => exact h
  | _ => exact Keyed.sparse_empty

theorem Cell.Sparse.of_withEntries {change : Dict → Dict}
    (back : ∀ t : Dict, (change t).Sparse → t.Sparse) (cell : Cell H)
    (h : (cell.withEntries change).Sparse) : cell.Sparse := by
  cases cell with
  | dict t | inst c t => exact back t h
  | _ => exact h

theorem Cell.Sparse.of_withMembers {change : Members → Members}
    (back : ∀ t : Members, (change t).Sparse → t.Sparse) (cell : Cell H)
    (h : (Decoder.withMembers change cell).Sparse) : cell.Sparse := by
  cases cell with
  | set t => exact back t h
  | _ => exact h

theorem Cell.Sparse.of_extended {items : Array Value} (cell : Cell H)
    (h : (Decoder.extended items cell).Sparse) : cell.Sparse := by
  cases cell <;> exact h

namespace Store

variable {s : Store H}

/-- All tables are sparse. -/
def Sparse (s : Store H) : Prop :=
  ∀ (i : Nat) (cell : Cell H), s.cells[i]? = some cell → cell.Sparse

theorem Sparse.of_push {cell : Cell H} (h : (s.push cell).Sparse) : s.Sparse ∧ cell.Sparse := by
  refine ⟨fun i old found => h i old ?_, h s.size cell (cell_push_last s cell)⟩
  rw [cell_push_lt (lt_size_of_cell found), found]

theorem Sparse.of_modify {id : Nat} {change : Cell H → Cell H}
    (back : ∀ cell, (change cell).Sparse → cell.Sparse) (h : (s.modify id change).Sparse) :
    s.Sparse := by
  intro i cell found
  by_cases here : id = i
  · refine back cell (h i _ ?_)
    simp [modify, Array.getElem?_modify, here, found]
  · refine h i cell ?_
    simp [modify, Array.getElem?_modify, here, found]

variable [host : HostObject H] (p : Probing)

/-! ## Keys of sparse tables -/

theorem find_on {α : Type} {t : Keyed α} (sparse : t.Sparse) (image : Array UInt8)
    (same : Value → Option Bool) : t.find (@HostObject.probing H (host.on p)) image same =
      t.find (HostObject.probing H) image same :=
  sparse.find_eq ..

/-- The order of look-ups has no part in images. -/
theorem imageWithin_on : @imageWithin H (host.on p) = imageWithin := by
  delta imageWithin
  rfl

theorem image_on (holder : Option Nat) (v : Value) :
    @image H (host.on p) s holder v = s.image holder v := by
  unfold image
  rw [imageWithin_on]

variable {p} {holder : Option Nat} {same : Value → Value → Option Bool} {a b : Value}

theorem keyPlace_on {α : Type} {t : Keyed α} (sparse : t.Sparse) (key : Value) :
    @keyPlace H (host.on p) α s holder same t key = s.keyPlace holder same t key := by
  unfold keyPlace placeBy
  simp only [image_on, find_on p sparse]

theorem sameDictFor_on {t u : Dict} (sparse : u.Sparse) :
    @sameDictFor H (host.on p) s holder same t u = s.sameDictFor holder same t u := by
  simp only [sameDictFor, keyPlace_on sparse]

theorem sameMembersFor_on {t u : Members} (sparse : u.Sparse) :
    @sameMembersFor H (host.on p) s holder same t u = s.sameMembersFor holder same t u := by
  simp only [sameMembersFor, keyPlace_on sparse]

theorem sameCells_on {x y : Cell H} (hx : x.Sparse) (hy : y.Sparse) :
    @sameCells H (host.on p) s holder same x y = s.sameCells holder same x y := by
  cases x with
  | dict t =>
    cases y with
    | dict u => exact sameDictFor_on hy
    | _ => rfl
  | set t =>
    cases y with
    | set u | frozenset u => exact sameMembersFor_on hy
    | _ => rfl
  | frozenset t =>
    cases y with
    -- the set is asked for the members of the frozen set, whatever comes first
    | set u => exact sameMembersFor_on hx
    | frozenset u => exact sameMembersFor_on hy
    | _ => rfl
  | inst c t =>
    cases y with
    | inst d u => simp only [sameCells, sameDictFor_on hy]
    | _ => rfl
  | _ => cases y <;> rfl

theorem sameBy_on (sparse : s.Sparse) :
    @sameBy H (host.on p) s holder same a b = s.sameBy holder same a b := by
  cases a with
  | ref i =>
    cases b with
    | ref j =>
      simp only [sameBy]
      cases found : s.cells[i]? with
      | none => rfl
      | some x =>
        cases found' : s.cells[j]? with
        | none => rfl
        | some y => simp only [sameCells_on (sparse i x found) (sparse j y found')]
    | _ => rfl
  | _ => cases b <;> rfl

theorem equalWithin_on (sparse : s.Sparse) (fuel : Nat) (a b : Value) :
    @equalWithin H (host.on p) s holder fuel a b = s.equalWithin holder fuel a b := by
  induction fuel generalizing a b with
  | zero => rfl
  | succ fuel ih =>
    have inside : @equalWithin H (host.on p) s holder fuel = s.equalWithin holder fuel :=
      funext fun a => funext fun b => ih a b
    unfold equalWithin
    rw [inside, sameBy_on sparse]

theorem equalFor_on (sparse : s.Sparse) (a b : Value) :
    @equalFor H (host.on p) s holder a b = s.equalFor holder a b :=
  equalWithin_on sparse _ a b

/-! ## Tables that are made -/

/-- A table that comes out sparse is made of the entries in the same way in every order. -/
theorem insertAll_on {α : Type} {t t' : Keyed α} {entries : List (Value × α)} (sparse : s.Sparse)
    (made : s.insertAll t entries = .ok t') (sparse' : t'.Sparse) :
    t.Sparse ∧ @insertAll H (host.on p) α s t entries = .ok t' := by
  induction entries generalizing t with
  | nil =>
    cases made
    exact ⟨sparse', rfl⟩
  | cons e rest ih =>
    obtain ⟨key, content⟩ := e
    cases hash : s.image none key with
    | error e =>
      rw [insertAll_refused hash] at made
      cases made
    | ok image =>
      cases found : t.find (HostObject.probing H) image (fun old => s.equal? old key) with
      | none =>
        rw [insertAll_endless hash found] at made
        cases made
      | some place =>
        rw [insertAll_found hash found] at made
        obtain ⟨after, made'⟩ := ih made
        have before : t.Sparse := after.of_put
        refine ⟨before, ?_⟩
        rw [@insertAll_found H (host.on p) α s t key image rest content place]
        · exact made'
        · rw [image_on, hash]
        · simp only [equal?, equalFor_on sparse]
          exact (find_on p before image _).trans found

end Store

end ObjectStream
