import ObjectStream.Decoder.Object
import ObjectStream.Proofs.Comparison
import ObjectStream.Proofs.Graph

/-!
Keys that were copied.

A mirror is a correspondence of objects closed under what they hold (`Mirror`). Across a mirror a key
keeps its image (`image_mirror`), and a comparison of two keys gives the same answer with the same
fuel (`equalWithin_mirror`). So a look-up among copied keys finds what the look-up among the former
keys would, and a table whose keys are told apart is copied entry by entry (`find_copy`, `put_copy`).
-/

namespace ObjectStream

/-! ## Numbers -/

namespace Double

theorem settled_of_isNaN {x : Double} (h : x.isNaN = false) : x.settled = x := by
  rw [settled, h]
  rfl

theorem isNaN_settled (x : Double) : x.settled.isNaN = x.isNaN := by
  cases h : x.isNaN with
  | true => rw [settled, if_pos h]; decide
  | false => rw [settled_of_isNaN h, h]

/-- Two doubles that correspond are the same unless both are not-a-number. -/
theorem eq_or_isNaN {x y : Double} (h : y.settled = x.settled) :
    y = x ∨ (x.isNaN = true ∧ y.isNaN = true) := by
  have nan : y.isNaN = x.isNaN := by rw [← isNaN_settled, h, isNaN_settled]
  cases hx : x.isNaN with
  | true => exact .inr ⟨rfl, nan.trans hx⟩
  | false =>
    rw [settled_of_isNaN hx, settled_of_isNaN (nan.trans hx)] at h
    exact .inl h

theorem toInt?_of_isNaN {x : Double} (h : x.isNaN = true) : x.toInt? = none := by
  simp only [isNaN, Bool.and_eq_true, beq_iff_eq] at h
  simp [toInt?, wholeMagnitude?, isFinite, h.1]

theorem isZero_of_isNaN {x : Double} (h : x.isNaN = true) : x.isZero = false := by
  simp only [isNaN, Bool.and_eq_true, beq_iff_eq] at h
  simp [isZero, h.1]

section
variable {x y x' y' : Double}

theorem toInt?_congr (h : y.settled = x.settled) : y.toInt? = x.toInt? := by
  rcases eq_or_isNaN h with rfl | ⟨hx, hy⟩
  · rfl
  · rw [toInt?_of_isNaN hx, toInt?_of_isNaN hy]

theorem isZero_congr (h : y.settled = x.settled) : y.isZero = x.isZero := by
  rcases eq_or_isNaN h with rfl | ⟨hx, hy⟩
  · rfl
  · rw [isZero_of_isNaN hx, isZero_of_isNaN hy]

theorem same_congr (h : x'.settled = x.settled) (h' : y'.settled = y.settled) :
    x'.same y' = x.same y := by
  rcases eq_or_isNaN h with rfl | ⟨hx, hx'⟩
  · rcases eq_or_isNaN h' with rfl | ⟨hy, hy'⟩
    · rfl
    · simp [same, hy, hy']
  · simp [same, hx, hx']

end

end Double

namespace Number

/-- Numbers up to the payload of a not-a-number. -/
inductive Alike : Number → Number → Prop
  | int (n : Int) : Alike (.int n) (.int n)
  | float {x y : Double} (same : y.settled = x.settled) : Alike (.float x) (.float y)
  | complex {re im re' im' : Double} (same : re'.settled = re.settled)
      (same' : im'.settled = im.settled) : Alike (.complex re im) (.complex re' im')

variable {x x' y y' : Number}

theorem Alike.sameReal_eq (h : x.Alike x') (h' : y.Alike y') : x'.sameReal y' = x.sameReal y := by
  cases h with
  | int n =>
    cases h' with
    | float same => rw [sameReal, sameReal, Double.toInt?_congr same]
    | _ => rfl
  | float same =>
    cases h' with
    | int m => rw [sameReal, sameReal, Double.toInt?_congr same]
    | float same' => exact Double.same_congr same same'
    | complex => rfl
  | complex => rfl

theorem Alike.same_eq (h : x.Alike x') (h' : y.Alike y') : x'.same y' = x.same y := by
  cases h with
  | int n =>
    cases h' with
    | int m => rfl
    | float same => exact (Alike.int n).sameReal_eq (.float same)
    | complex same same' =>
      rw [Number.same, Number.same, Double.isZero_congr same',
        (Alike.float same).sameReal_eq (.int n)]
      all_goals exact nofun
  | @float x y real =>
    cases h' with
    | int m => exact (Alike.float real).sameReal_eq (.int m)
    | float same => exact (Alike.float real).sameReal_eq (.float same)
    | complex same same' =>
      rw [Number.same, Number.same, Double.isZero_congr same',
        (Alike.float same).sameReal_eq (.float real)]
      all_goals exact nofun
  | complex same same' =>
    cases h' with
    | int m =>
      rw [Number.same, Number.same, Double.isZero_congr same',
        (Alike.float same).sameReal_eq (.int m)]
      all_goals exact nofun
    | float real =>
      rw [Number.same, Number.same, Double.isZero_congr same',
        (Alike.float same).sameReal_eq (.float real)]
      all_goals exact nofun
    | complex other other' =>
      rw [Number.same, Number.same, Double.same_congr same other, Double.same_congr same' other']

/-- Corresponding values are both numbers, and alike, or both no numbers. -/
theorem ofValue?_match {R : Nat → Nat → Prop} {v w : Value} (h : Match R v w) :
    (∃ x y, ofValue? v = some x ∧ ofValue? w = some y ∧ x.Alike y) ∨
      (ofValue? v = none ∧ ofValue? w = none) := by
  cases h with
  | bool b => exact .inl ⟨_, _, rfl, rfl, .int _⟩
  | int n => exact .inl ⟨_, _, rfl, rfl, .int _⟩
  | long n =>
    refine .inl ⟨_, .int n, rfl, ?_, .int n⟩
    rw [Value.ofInt]
    split
    · next fits =>
      simp only [fitsWord, Bool.and_eq_true, decide_eq_true_eq] at fits
      rw [ofValue?, Int64.toInt_ofInt_of_le (by omega) (by omega)]
    · rfl
  | float same => exact .inl ⟨_, _, rfl, rfl, .float same⟩
  | complex same same' => exact .inl ⟨_, _, rfl, rfl, .complex same same'⟩
  | _ => exact .inr ⟨rfl, rfl⟩

end Number

/-! ## Tables and images -/

namespace Keyed

variable {α : Type} {t : Keyed α} {p : Probing} {images : List (Array UInt8)}
  {image : Array UInt8}

/-- A look-up meets every place under the image. -/
@[simp] theorem mem_met {i : Nat} : i ∈ t.met p image ↔ i ∈ t.index.getD image [] :=
  (p.perm _ image).mem_iff

/-- One place is met whatever the order. -/
theorem met_single {i : Nat} (h : t.index.getD image [] = [i]) : t.met p image = [i] := by
  have perm := p.perm (fun image => t.index.getD image []) image
  rw [h] at perm
  exact List.perm_singleton.1 perm

theorem met_nil (h : t.index.getD image [] = []) : t.met p image = [] := by
  have perm := p.perm (fun image => t.index.getD image []) image
  rw [h] at perm
  exact perm.eq_nil

/-- Tables that file under the same images are met in the same order. -/
theorem met_congr {β : Type} {t' : Keyed β} (index : t.Files images) (index' : t'.Files images) :
    t.met p image = t'.met p image := by
  rw [met, met, funext index, funext index']

theorem places_append (images : List (Array UInt8)) (last image : Array UInt8) :
    places (images ++ [last]) image =
      places images image ++ if last = image then [images.length] else [] := by
  have former : (List.range images.length).filter
      (fun place => (images ++ [last])[place]? = some image) = places images image := by
    refine List.filter_congr fun place inside => ?_
    rw [List.getElem?_append_left (List.mem_range.1 inside)]
  rw [places, List.length_append, List.length_singleton, List.range_succ, List.filter_append,
    former]
  congr 1
  by_cases same : last = image <;> simp [same]

theorem mem_places {place : Nat} :
    place ∈ places images image ↔ images[place]? = some image := by
  simp only [places, List.mem_filter, List.mem_range, decide_eq_true_eq, and_iff_right_iff_imp]
  exact fun h => (List.getElem?_eq_some_iff.1 h).1

theorem files_empty : (Keyed.empty : Keyed α).Files [] := by
  intro image
  simp [Keyed.empty, places]

theorem length_keys (t : Keyed α) : t.keys.length = t.entries.size := by
  simp [keys]

/-- A new entry is filed behind the others. -/
theorem Files.put (h : t.Files images) (all : images.length = t.entries.size)
    (image : Array UInt8) (key : Value) (content : α) :
    (t.put none image key content).Files (images ++ [image]) := by
  intro other
  rw [places_append]
  simp only [Keyed.put, Std.HashMap.getD_insert, beq_iff_eq]
  split
  · next same => rw [h, all, same]
  · rw [h, List.append_nil]

@[simp] theorem keys_put (t : Keyed α) (image : Array UInt8) (key : Value) (content : α) :
    (t.put none image key content).keys = t.keys ++ [key] := by
  simp [Keyed.put, keys]

@[simp] theorem contents_put (t : Keyed α) (image : Array UInt8) (key : Value) (content : α) :
    (t.put none image key content).contents = t.contents ++ [content] := by
  simp [Keyed.put, contents]

theorem firstPlace_congr {f g : Nat → Option Bool} {l : List Nat} (h : ∀ i ∈ l, f i = g i) :
    firstPlace f l = firstPlace g l := by
  induction l with
  | nil => rfl
  | cons i rest ih =>
    rw [firstPlace, firstPlace, h i (List.mem_cons_self ..),
      ih fun j hj => h j (List.mem_cons_of_mem i hj)]

/-- A look-up depends on the keys filed under its image. -/
theorem find_congr {β : Type} {t' : Keyed β} {f g : Value → Option Bool}
    (index : t.Files images) (index' : t'.Files images)
    (keys : List.Forall₂ (fun v w => f v = g w) t.keys t'.keys) :
    t.find p image f = t'.find p image g := by
  unfold find
  rw [met_congr index index']
  refine firstPlace_congr fun i _ => ?_
  have length := keys.length_eq
  rw [length_keys, length_keys] at length
  by_cases inside : i < t.entries.size
  · have inside' : i < t'.entries.size := length ▸ inside
    have same := keys.get (by rwa [length_keys]) (by rwa [length_keys]) (i := i)
    simpa [inside, inside', Keyed.keys] using same
  · have outside : ¬i < t'.entries.size := length ▸ inside
    simp [inside, outside]

theorem firstPlace_none {f : Nat → Option Bool} {l : List Nat} {total : Prop}
    (refuse : ∀ i ∈ l, f i = some false ∨ (¬total ∧ f i = none)) :
    firstPlace f l = some none ∨ (¬total ∧ firstPlace f l = none) := by
  induction l with
  | nil => exact .inl rfl
  | cons i rest ih =>
    rw [firstPlace]
    rcases refuse i (List.mem_cons_self ..) with no | ⟨partly, no⟩
    · simp only [no]
      exact ih fun j mem => refuse j (List.mem_cons_of_mem i mem)
    · refine .inr ⟨partly, ?_⟩
      simp only [no]

/-- A look-up that the keys with its image all refuse finds nothing. -/
theorem find_none {f : Value → Option Bool} {total : Prop} (index : t.Files images)
    (all : images.length = t.entries.size)
    (refuse : ∀ (i : Nat) (key : Value), images[i]? = some image → t.keys[i]? = some key →
      f key = some false ∨ (¬total ∧ f key = none)) :
    t.find p image f = some none ∨ (¬total ∧ t.find p image f = none) := by
  refine firstPlace_none fun i mem => ?_
  rw [mem_met, index] at mem
  have here := mem_places.1 mem
  have inside : i < t.entries.size := all ▸ (List.getElem?_eq_some_iff.1 here).1
  have key : t.keys[i]? = some t.entries[i].1 := by simp [keys, inside]
  simpa [inside] using refuse i _ here key

theorem find_empty (image : Array UInt8) (same : Value → Option Bool) :
    (Keyed.empty : Keyed α).find p image same = some none := by
  rw [find, met_nil (by simp [Keyed.empty])]
  rfl

/-- A look-up in a table with one key meets that key. -/
theorem find_single (image : Array UInt8) (key : Value) (content : α)
    (same : Value → Option Bool) :
    ((Keyed.empty : Keyed α).put none image key content).find p image same =
      (same key).map fun found => if found then some 0 else none := by
  have index : ((Keyed.empty : Keyed α).put none image key content).index.getD image [] = [0] := by
    simp [put, Keyed.empty]
  rw [find, met_single index]
  have entry : ((Keyed.empty : Keyed α).put none image key content).entries[0]? =
      some (key, content) := rfl
  simp only [firstPlace, entry]
  cases same key with
  | none => rfl
  | some found => cases found <;> rfl

/-- The entries of corresponding tables. -/
theorem entries_match {β : Type} {P : Value → Value → Prop} {Q : α → β → Prop} {t' : Keyed β}
    (keys : List.Forall₂ P t.keys t'.keys)
    (contents : List.Forall₂ Q t.contents t'.contents) :
    List.Forall₂ (fun e e' => P e.1 e'.1 ∧ Q e.2 e'.2) t.entries.toList t'.entries.toList := by
  rw [Keyed.keys, Keyed.keys, List.forall₂_map_left_iff, List.forall₂_map_right_iff] at keys
  rw [Keyed.contents, Keyed.contents, List.forall₂_map_left_iff, List.forall₂_map_right_iff]
    at contents
  generalize t.entries.toList = entries at keys contents ⊢
  generalize t'.entries.toList = entries' at keys contents ⊢
  induction keys with
  | nil => exact .nil
  | cons head _ ih =>
    cases contents with
    | cons head' tail' => exact .cons ⟨head, head'⟩ (ih tail')

end Keyed

variable {H : Type} [HostObject H]

namespace Store

/-- The image of a key. -/
def imageOf (s : Store H) (key : Value) : Array UInt8 := (s.image none key).toOption.getD #[]

/-- A look-up does not take the second key for the first: they are filed apart, or they are not
    equal. Unless `total`, their comparison may have no end. -/
def Differ (s : Store H) (total : Prop) (a b : Value) : Prop :=
  s.imageOf a ≠ s.imageOf b ∨ s.equal? a b = some false ∨ (¬total ∧ s.equal? a b = none)

theorem imageOf_eq {s : Store H} {key : Value} {image : Array UInt8}
    (h : s.image none key = .ok image) : s.imageOf key = image := by
  rw [imageOf, h]
  rfl

section
variable {α : Type} {s : Store H} {t : Keyed α} {k : Value} {image : Array UInt8}
  {es : List (Value × α)} {c : α}

theorem insertAll_found {place : Option Nat} (hashable : s.image none k = .ok image)
    (found : t.find (HostObject.probing H) image (fun old => s.equal? old k) = some place) :
    s.insertAll t ((k, c) :: es) = s.insertAll (t.put place image k c) es := by
  rw [insertAll, List.foldlM_cons]
  simp only [insert, insertFor, hashable, bind, Except.bind, equalFor_none, found]
  rfl

theorem insertAll_endless (hashable : s.image none k = .ok image)
    (found : t.find (HostObject.probing H) image (fun old => s.equal? old k) = none) :
    s.insertAll t ((k, c) :: es) = .error .endless := by
  rw [insertAll, List.foldlM_cons]
  simp only [insert, insertFor, hashable, bind, Except.bind, equalFor_none, found]
  rfl

theorem insertAll_refused {e : KeyError} (refused : s.image none k = .error e) :
    s.insertAll t ((k, c) :: es) = .error e := by
  rw [insertAll, List.foldlM_cons]
  simp only [insert, insertFor, refused, bind, Except.bind]
  rfl

end

end Store

/-- The items of a tuple are objects before it. -/
def Cell.Older (id : Nat) : Cell H → Prop
  | .tuple items => ∀ j, .ref j ∈ items → j < id
  | _ => True

/-- A correspondence of objects of two stores that is one to one and closed under what the objects
    hold, where both sides file their keys under the images of the first. -/
structure Mirror (s s' : Store H) (R : Nat → Nat → Prop) : Prop where
  object : ∀ i j, R i j → ∃ cell cell', s.cells[i]? = some cell ∧ s'.cells[j]? = some cell' ∧
    cell.Matches R cell' ∧ cell.Files (cell.keys.map s.imageOf) ∧
    cell'.Files (cell.keys.map s.imageOf) ∧ cell'.Older j ∧
    ∀ key ∈ cell.keys, ∃ image, s.image none key = .ok image
  right : ∀ i j j', R i j → R i j' → j = j'
  left : ∀ i i' j, R i j → R i' j → i = i'

theorem Image.ofDouble_congr {x y : Double} (h : y.settled = x.settled) :
    Image.ofDouble y = Image.ofDouble x := by
  rw [Image.ofDouble, Image.ofDouble, Double.toInt?_congr h, h]

theorem Image.ofComplex_congr {re im re' im' : Double} (h : re'.settled = re.settled)
    (h' : im'.settled = im.settled) : Image.ofComplex re' im' = Image.ofComplex re im := by
  rw [Image.ofComplex, Image.ofComplex, Double.isZero_congr h', Image.ofDouble_congr h, h, h']

namespace Mirror

variable {s s' : Store H} {R : Nat → Nat → Prop} {holder : Option Nat}

/-- The image of an atom does not depend on the objects. -/
theorem imageWithin_atom {holder' : Option Nat} {fuel fuel' : Nat} {before : Array UInt8}
    {v w : Value} (h : Match R v w) (atom : ∀ i, v ≠ .ref i) :
    s'.imageWithin holder' fuel' before w = s.imageWithin holder fuel before v := by
  have rest : ∀ u : Value, (∀ i, u ≠ .ref i) → 
      s'.imageWithin holder' fuel' before u = s.imageWithin holder fuel before u := by
    intro u atom
    cases u with
    | ref i => exact absurd rfl (atom i)
    | _ => cases fuel <;> cases fuel' <;> rfl
  cases h with
  | ref h => exact absurd rfl (atom _)
  | long n =>
    rw [← rest (.long n) fun _ => nofun, Value.ofInt]
    split
    · next fits =>
      simp only [fitsWord, Bool.and_eq_true, decide_eq_true_eq] at fits
      cases fuel' <;> simp only [Store.imageWithin] <;> rw [Int64.toInt_ofInt_of_le (by omega) (by omega)]
    · rfl
  | @float x y same =>
    rw [← rest (.float x) fun _ => nofun]
    cases fuel' <;> simp only [Store.imageWithin, Image.ofDouble_congr same]
  | @complex re im re' im' same same' =>
    rw [← rest (.complex re im) fun _ => nofun]
    cases fuel' <;> simp only [Store.imageWithin, Image.ofComplex_congr same same']
  | _ => exact rest _ fun _ => nofun

omit [HostObject H] in
theorem foldlM_ok {α β ε σ : Type} {f : σ → α → Except ε σ} {g : σ → β → Except ε σ}
    {P : α → β → Prop} {as : List α} {bs : List β} (h : List.Forall₂ P as bs)
    (step : ∀ a b x y, P a b → f x a = .ok y → g x b = .ok y) {x y : σ}
    (run : as.foldlM f x = .ok y) : bs.foldlM g x = .ok y := by
  induction h generalizing x with
  | nil => exact run
  | @cons a b as bs head tail ih =>
    rw [List.foldlM_cons] at run ⊢
    cases first : f x a with
    | error e => rw [first] at run; cases run
    | ok z =>
      rw [first] at run
      rw [step a b x z head first]
      exact ih run

theorem imageWithin_ref (s : Store H) (holder : Option Nat) (fuel : Nat) (before : Array UInt8)
    (id : Nat) : s.imageWithin holder fuel before (.ref id) =
      match s.cells[id]? with
      | some (.tuple items) =>
        match fuel with
        | 0 => .error .endless
        | fuel + 1 =>
          items.foldlM (s.imageWithin holder fuel) (before.push 7 ++ Bytes.ofNatLE 8 items.length)
      | some (.frozenset members) => .ok (before.push 8 ++ Bytes.ofNatLE 8 members.size)
      | some (.global g) => .ok (before.push 9 ++ Text.utf8 g.qualname)
      | some (.inst cls _) =>
        .ok (before.push 10 ++ if holder = some id then [] else Text.utf8 cls.qualname)
      | some (.object content) => .ok (before.push 11 ++ Text.utf8 (HostObject.type content).path)
      | _ => .error (.unhashable (s.typeName (.ref id))) := by
  cases h : s.cells[id]? with
  | none => cases fuel <;> simp only [Store.imageWithin, h]
  | some cell => cases cell <;> cases fuel <;> simp only [Store.imageWithin, h]

theorem imageWithin_mirror (mirror : Mirror s s' R) (apart : ∀ i j, R i j → holder ≠ some j)
    {fuel fuel' : Nat} {before image : Array UInt8} {k k' : Value}
    (h : s.imageWithin none fuel before k = .ok image) (key : Match R k k')
    (deep : ∀ j, k' = .ref j → j < fuel') :
    s'.imageWithin holder fuel' before k' = .ok image := by
  by_cases atom : ∀ i, k ≠ .ref i
  · rw [← h]
    exact imageWithin_atom key atom
  induction fuel using Nat.strong_induction_on generalizing fuel' before image k k' with
  | _ fuel ih =>
    cases key with
    | @ref i j r =>
      obtain ⟨cell, cell', found, found', same, -, -, older, -⟩ := mirror.object i j r
      rw [imageWithin_ref, found] at h
      rw [imageWithin_ref, found']
      cases same with
      | frozenset keys =>
        have size := keys.length_eq
        rw [Keyed.length_keys, Keyed.length_keys] at size
        simp only [Keyed.size, size] at h ⊢
        exact h
      | inst c keys contents =>
        simp only [if_neg (apart i j r)]
        exact h
      | @tuple a b items =>
        cases fuel with
        | zero => cases h
        | succ fuel =>
          obtain ⟨fuel', rfl⟩ := Nat.exists_eq_succ_of_ne_zero (Nat.ne_zero_of_lt (deep j rfl))
          simp only at h ⊢
          rw [← items.length_eq]
          refine foldlM_ok (forall₂_mem items) ?_ h
          rintro v w before image ⟨item, -, mem⟩ run
          by_cases atom : ∀ i, v ≠ .ref i
          · rw [← run]
            exact imageWithin_atom item atom
          refine ih fuel (Nat.lt_succ_self fuel) run item ?_ atom
          rintro j' rfl
          exact Nat.lt_of_lt_of_le (older j' mem) (Nat.lt_succ_iff.1 (deep j rfl))
      | bytearray data => cases h
      | list items => cases h
      | dict keys contents => cases h
      | set keys => cases h
    | _ => exact absurd (fun _ => nofun) atom

omit [HostObject H] in
/-- No object is filled. -/
theorem apart_none (R : Nat → Nat → Prop) : ∀ i j, R i j → (none : Option Nat) ≠ some j :=
  fun _ _ _ => nofun

/-- A key keeps its image. -/
theorem image_mirror (holder : Option Nat) (mirror : Mirror s s' R) (apart : ∀ i j, R i j → holder ≠ some j)
    {k k' : Value} {image : Array UInt8} (h : s.image none k = .ok image) (key : Match R k k') :
    s'.image holder k' = .ok image := by
  refine imageWithin_mirror mirror apart h key ?_
  rintro j rfl
  obtain ⟨i, -, r⟩ := key.of_ref
  obtain ⟨-, cell', -, found, -⟩ := mirror.object i j r
  exact Nat.lt_succ_of_lt (Store.lt_size_of_cell found)

/-! ## Comparisons -/

omit [HostObject H] in
theorem allPass_congr {α β : Type} {f : α → Option Bool} {g : β → Option Bool} {as : List α}
    {bs : List β} (h : List.Forall₂ (fun a b => f a = g b) as bs) : allPass f as = allPass g bs := by
  induction h with
  | nil => rfl
  | cons head _ ih => rw [allPass, allPass, head, ih]

/-- Two tests agree on corresponding values. -/
def Agree (R : Nat → Nat → Prop) (f g : Value → Value → Option Bool) : Prop :=
  ∀ v v' w w', Match R v v' → Match R w w' → g v' w' = f v w

section
variable {f g : Value → Value → Option Bool} (apart : ∀ i j, R i j → holder ≠ some j)

omit [HostObject H] in
theorem sameItems_mirror (agree : Agree R f g) {a a' b b' : List Value}
    (first : List.Forall₂ (Match R) a a') (second : List.Forall₂ (Match R) b b') :
    Store.sameItems g a' b' = Store.sameItems f a b := by
  rw [Store.sameItems, Store.sameItems, first.length_eq, second.length_eq]
  congr 1
  refine (allPass_congr ?_).symm
  induction first generalizing b b' with
  | nil => exact .nil
  | cons head _ ih =>
    cases second with
    | nil => exact .nil
    | cons head' tail' => exact .cons (agree _ _ _ _ head head').symm (ih tail')

include apart

theorem keyPlace_mirror (mirror : Mirror s s' R) (agree : Agree R f g) {α β : Type} {t : Keyed α}
    {t' : Keyed β} (keys : List.Forall₂ (Match R) t.keys t'.keys)
    (files : t.Files (t.keys.map s.imageOf)) (files' : t'.Files (t.keys.map s.imageOf))
    {k k' : Value} (hashable : ∃ image, s.image none k = .ok image) (key : Match R k k') :
    s'.keyPlace holder g t' k' = s.keyPlace none f t k := by
  obtain ⟨image, hashable⟩ := hashable
  have hashable' := image_mirror holder mirror apart hashable key
  have found : t.find (HostObject.probing H) image (fun old => f old k) =
      t'.find (HostObject.probing H) image (fun old => g old k') :=
    Keyed.find_congr files files' (keys.imp fun v w m => (agree v w k k' m key).symm)
  simp only [Store.keyPlace, Store.placeBy, hashable, hashable', bind, Except.bind, found]

omit [HostObject H] apart in
/-- The contents at one place of corresponding tables. -/
theorem at?_match {α β : Type} {P : α → β → Prop} {t : Keyed α} {t' : Keyed β}
    (contents : List.Forall₂ P t.contents t'.contents) (i : Nat) :
    (∃ a b, t.at? i = some a ∧ t'.at? i = some b ∧ P a b) ∨ (t.at? i = none ∧ t'.at? i = none) := by
  have length := contents.length_eq
  simp only [Keyed.contents, List.length_map, Array.length_toList] at length
  by_cases inside : i < t.entries.size
  · have inside' : i < t'.entries.size := length ▸ inside
    have here := contents.get (i := i) (by simpa [Keyed.contents]) (by simpa [Keyed.contents])
    exact .inl ⟨t.entries[i].2, t'.entries[i].2, by simp [Keyed.at?, inside],
      by simp [Keyed.at?, inside'], by simpa [Keyed.contents] using here⟩
  · have outside : ¬i < t'.entries.size := length ▸ inside
    exact .inr ⟨by simp [Keyed.at?, inside], by simp [Keyed.at?, outside]⟩

theorem sameDictFor_mirror (mirror : Mirror s s' R) (agree : Agree R f g) {a a' b b' : Dict}
    (keys : List.Forall₂ (Match R) a.keys a'.keys)
    (contents : List.Forall₂ (Match R) a.contents a'.contents)
    (hashable : ∀ key ∈ a.keys, ∃ image, s.image none key = .ok image)
    (keys' : List.Forall₂ (Match R) b.keys b'.keys)
    (contents' : List.Forall₂ (Match R) b.contents b'.contents)
    (files : b.Files (b.keys.map s.imageOf)) (files' : b'.Files (b.keys.map s.imageOf)) :
    s'.sameDictFor holder g a' b' = s.sameDictFor none f a b := by
  have size := keys.length_eq
  have size' := keys'.length_eq
  rw [Keyed.length_keys, Keyed.length_keys] at size size'
  rw [Store.sameDictFor, Store.sameDictFor, Keyed.size, Keyed.size, Keyed.size, Keyed.size, size, size']
  split
  · refine (allPass_congr ((forall₂_mem (Keyed.entries_match keys contents)).imp ?_)).symm
    rintro ⟨k, c⟩ ⟨k', c'⟩ ⟨⟨key, content⟩, mem, -⟩
    have known : k ∈ a.keys := List.mem_map_of_mem (f := Prod.fst) mem
    simp only
    rw [keyPlace_mirror apart mirror agree keys' files files' (hashable k known) key]
    cases s.keyPlace none f b k with
    | none => rfl
    | some place =>
      cases place with
      | none => rfl
      | some i =>
        rcases at?_match contents' i with ⟨v, v', here, here', content'⟩ | ⟨here, here'⟩
        · simp only [here, here']
          exact (agree _ _ _ _ content' content).symm
        · simp only [here, here']
  · rfl

theorem sameMembersFor_mirror (mirror : Mirror s s' R) (agree : Agree R f g) {a a' b b' : Members}
    (keys : List.Forall₂ (Match R) a.keys a'.keys)
    (hashable : ∀ key ∈ a.keys, ∃ image, s.image none key = .ok image)
    (keys' : List.Forall₂ (Match R) b.keys b'.keys)
    (files : b.Files (b.keys.map s.imageOf)) (files' : b'.Files (b.keys.map s.imageOf)) :
    s'.sameMembersFor holder g a' b' = s.sameMembersFor none f a b := by
  have size := keys.length_eq
  have size' := keys'.length_eq
  rw [Keyed.length_keys, Keyed.length_keys] at size size'
  rw [Store.sameMembersFor, Store.sameMembersFor, Keyed.size, Keyed.size, Keyed.size, Keyed.size, size,
    size']
  split
  · refine (allPass_congr ((forall₂_mem keys).imp ?_)).symm
    rintro k k' ⟨key, mem, -⟩
    rw [keyPlace_mirror apart mirror agree keys' files files' (hashable k mem) key]
  · rfl

theorem sameCells_mirror (mirror : Mirror s s' R) (agree : Agree R f g) {i i' j j' : Nat}
    {x x' y y' : Cell H} (r : R i i') (r' : R j j') (hx : s.cells[i]? = some x)
    (hx' : s'.cells[i']? = some x') (hy : s.cells[j]? = some y) (hy' : s'.cells[j']? = some y') :
    s'.sameCells holder g x' y' = s.sameCells none f x y := by
  obtain ⟨x₀, x₁, known, known', first, files, files', -, hashable⟩ := mirror.object i i' r
  obtain rfl := Option.some.inj (hx.symm.trans known)
  obtain rfl := Option.some.inj (hx'.symm.trans known')
  obtain ⟨y₀, y₁, known, known', second, filed, filed', -, hashable'⟩ := mirror.object j j' r'
  obtain rfl := Option.some.inj (hy.symm.trans known)
  obtain rfl := Option.some.inj (hy'.symm.trans known')
  cases first with
  | bytearray data => cases second <;> rfl
  | list items =>
    cases second with
    | list items' => exact sameItems_mirror agree items items'
    | _ => rfl
  | tuple items =>
    cases second with
    | tuple items' => exact sameItems_mirror agree items items'
    | _ => rfl
  | dict keys contents =>
    cases second with
    | dict keys' contents' =>
      exact sameDictFor_mirror apart mirror agree keys contents hashable keys' contents' filed filed'
    | _ => rfl
  | set keys =>
    cases second with
    | set keys' => exact sameMembersFor_mirror apart mirror agree keys hashable keys' filed filed'
    | frozenset keys' => exact sameMembersFor_mirror apart mirror agree keys hashable keys' filed filed'
    | _ => rfl
  | frozenset keys =>
    cases second with
    | set keys' => exact sameMembersFor_mirror apart mirror agree keys' hashable' keys files files'
    | frozenset keys' => exact sameMembersFor_mirror apart mirror agree keys hashable keys' filed filed'
    | _ => rfl
  | inst c keys contents =>
    cases second with
    | inst d keys' contents' =>
      rw [Store.sameCells, Store.sameCells,
        sameDictFor_mirror apart mirror agree keys contents hashable keys' contents' filed filed']
    | _ => rfl

omit apart in
/-- A number is not compared by content. -/
theorem sameBy_number {v w : Value} {x : Number}
    (h : Number.ofValue? v = some x ∨ Number.ofValue? w = some x) :
    s.sameBy holder f v w = some false := by
  rcases h with h | h
  · cases v <;> first | rfl | cases h
  · cases v <;> cases w <;> first | rfl | cases h

theorem sameBy_mirror (mirror : Mirror s s' R) (agree : Agree R f g) :
    Agree R (s.sameBy none f) (s'.sameBy holder g) := by
  intro v v' w w' first second
  rcases Number.ofValue?_match first with ⟨x, x', hx, hx', -⟩ | ⟨hx, hx'⟩
  · rw [sameBy_number (.inl hx), sameBy_number (.inl hx')]
  rcases Number.ofValue?_match second with ⟨x, x', hy, hy', -⟩ | ⟨hy, hy'⟩
  · rw [sameBy_number (.inr hy), sameBy_number (.inr hy')]
  cases first with
  | @ref i i' r =>
    obtain ⟨x, x', found, found', same, -⟩ := mirror.object i i' r
    cases second with
    | @ref j j' r' =>
      obtain ⟨y, y', known, known', -⟩ := mirror.object j j' r'
      have one : i' = j' ↔ i = j :=
        ⟨fun h => mirror.left i j i' r (h ▸ r'), fun h => mirror.right i i' j' r (h ▸ r')⟩
      simp only [Store.sameBy, found, found', known, known', one, apart i i' r, apart j j' r',
        reduceCtorEq, or_self, false_and, if_false,
        sameCells_mirror apart mirror agree r r' found found' known known']
    | bytes bs => cases same <;> simp only [Store.sameBy, found, found']
    | _ => first | rfl | cases hy
  | bytes bs =>
    cases second with
    | @ref j j' r' =>
      obtain ⟨y, y', found, found', same, -⟩ := mirror.object j j' r'
      cases same <;> simp only [Store.sameBy, found, found']
    | _ => first | rfl | cases hy
  | none => cases second <;> first | rfl | cases hy
  | str text => cases second <;> first | rfl | cases hy
  | emptyTuple => cases second <;> first | rfl | cases hy
  | _ => cases hx

end

/-- The comparison of corresponding values gives the same answer with the same fuel. -/
theorem equalWithin_mirror (apart : ∀ i j, R i j → holder ≠ some j) (mirror : Mirror s s' R)
    (n : Nat) : Agree R (s.equalWithin none n) (s'.equalWithin holder n) := by
  induction n with
  | zero => exact fun _ _ _ _ _ _ => rfl
  | succ n ih =>
    intro v v' w w' first second
    rw [Store.equalWithin, Store.equalWithin]
    rcases Number.ofValue?_match first with ⟨x, x', hx, hx', alike⟩ | ⟨hx, hx'⟩
    · rcases Number.ofValue?_match second with ⟨y, y', hy, hy', alike'⟩ | ⟨hy, hy'⟩
      · simp only [hx, hx', hy, hy', alike.same_eq alike']
      · simp only [hx, hx', hy, hy']
        exact sameBy_mirror apart mirror ih _ _ _ _ first second
    · simp only [hx, hx']
      exact sameBy_mirror apart mirror ih _ _ _ _ first second

/-- Corresponding values compare alike, also while an object outside of the mirror is filled. -/
theorem equalFor_mirror (apart : ∀ i j, R i j → holder ≠ some j) (mirror : Mirror s s' R) :
    Agree R s.equal? (s'.equalFor holder) := by
  intro v v' w w' first second
  cases h : s.equal? v w with
  | some r =>
    obtain ⟨fuel, h⟩ := Store.equal?_eq_some_iff.1 h
    exact Store.equalFor_eq_some_iff.2
      ⟨fuel, (equalWithin_mirror apart mirror fuel _ _ _ _ first second).trans h⟩
  | none =>
    have h := Store.equal?_eq_none_iff.1 h
    exact Store.equalFor_eq_none_iff.2 fun fuel =>
      (equalWithin_mirror apart mirror fuel _ _ _ _ first second).trans (h fuel)

theorem equal?_mirror (mirror : Mirror s s' R) : Agree R s.equal? s'.equal? :=
  equalFor_mirror (apart_none R) mirror

/-! ## Tables -/

section
variable {α : Type} {total : Prop} {t : Keyed α} {ps : List Value} {k k' : Value}
  {image : Array UInt8}

/-- A key that differs from those in the table is not found in the copy. -/
theorem find_copy (apart : ∀ i j, R i j → holder ≠ some j) (mirror : Mirror s s' R)
    (files : t.Files (ps.map s.imageOf))
    (keys : List.Forall₂ (Match R) ps t.keys) (key : Match R k k')
    (hashable : s.image none k = .ok image) (differ : ∀ p ∈ ps, s.Differ total p k) :
    t.find (HostObject.probing H) image (fun old => s'.equalFor holder old k') = some none ∨
      (¬total ∧
        t.find (HostObject.probing H) image (fun old => s'.equalFor holder old k') = none) := by
  have length := keys.length_eq
  refine Keyed.find_none files ?_ fun i old filed here => ?_
  · rw [List.length_map, length, Keyed.length_keys]
  rw [List.getElem?_map, Option.map_eq_some_iff] at filed
  obtain ⟨p, there, filed⟩ := filed
  obtain ⟨inside, rfl⟩ := List.getElem?_eq_some_iff.1 there
  obtain ⟨inside', rfl⟩ := List.getElem?_eq_some_iff.1 here
  have answer := equalFor_mirror apart mirror _ _ _ _ (keys.get inside inside') key
  simp only [List.get_eq_getElem] at answer
  rw [answer]
  rcases differ _ (List.getElem_mem inside) with other | differ
  · exact absurd (filed.trans (Store.imageOf_eq hashable).symm) other
  · exact differ

theorem files_put (files : t.Files (ps.map s.imageOf)) (keys : List.Forall₂ (Match R) ps t.keys)
    (hashable : s.image none k = .ok image) (key : Value) (c : α) :
    (t.put none image key c).Files ((ps ++ [k]).map s.imageOf) := by
  rw [List.map_append, List.map_singleton, Store.imageOf_eq hashable]
  refine files.put ?_ image key c
  rw [List.length_map, keys.length_eq, Keyed.length_keys]

/-- Further keys are put into the copy one after the other. -/
theorem insertAll_copy (mirror : Mirror s s' R) {ks : List Value} {es : List (Value × α)}
    (files : t.Files (ps.map s.imageOf)) (keys : List.Forall₂ (Match R) ps t.keys)
    (new : List.Forall₂ (Match R) ks (es.map Prod.fst))
    (hashable : ∀ k ∈ ks, ∃ image, s.image none k = .ok image)
    (differ : (ps ++ ks).Pairwise (s.Differ total)) :
    (∃ t', s'.insertAll t es = .ok t' ∧ t'.keys = t.keys ++ es.map Prod.fst ∧
      t'.contents = t.contents ++ es.map Prod.snd ∧ t'.Files ((ps ++ ks).map s.imageOf)) ∨
      (¬total ∧ s'.insertAll t es = .error .endless) := by
  induction es generalizing ps ks t with
  | nil =>
    cases new
    exact .inl ⟨t, rfl, by simp, by simp, by simpa using files⟩
  | cons e es ih =>
    cases new with
    | @cons k _ ks _ key new =>
      obtain ⟨image, hash⟩ := hashable k (List.mem_cons_self ..)
      have hash' := image_mirror none mirror (apart_none R) hash key
      have split : ps ++ k :: ks = (ps ++ [k]) ++ ks := by simp
      have earlier : ∀ p ∈ ps, s.Differ total p k := fun p mem =>
        (List.pairwise_append.1 differ).2.2 p mem k (List.mem_cons_self ..)
      rcases find_copy (apart_none R) mirror files keys key hash earlier with found | ⟨partly, found⟩
      · rw [Store.insertAll_found hash' found, split]
        rw [split] at differ
        have keys' : List.Forall₂ (Match R) (ps ++ [k]) (t.put none image e.1 e.2).keys := by
          rw [Keyed.keys_put]
          exact List.rel_append keys (.cons key .nil)
        simpa using ih (files_put files keys hash e.1 e.2) keys' new
          (fun k mem => hashable k (List.mem_cons_of_mem _ mem)) differ
      · exact .inr ⟨partly, Store.insertAll_endless hash' found⟩

end

end Mirror

end ObjectStream
