import ObjectStream.Proofs.Canonical
import ObjectStream.Proofs.Tidy

/-!
Look-ups under equal keys.

A table files a key under its image and is asked for it under another key that equals it. That finds
the entry if the two keys have one image. Equal keys have one (`image_of_equal`) unless they are
confused (`Store.Confused`): two complex numbers that differ in the sign of a zero, two globals of
one host type under different names, two instances one of which is the object that is being filled,
or tuples that hold such items. Otherwise a key is found under every key that equals it
(`found_under_equal`).
-/

namespace ObjectStream

/-! ## Outcomes of a look-up -/

namespace Keyed

variable {α : Type} {t : Keyed α} {p : Probing} {f : Nat → Option Bool} {l : List Nat}

theorem firstPlace_cases {place : Option (Option Nat)} (run : firstPlace f l = place) :
    (∃ i ∈ l, place = some (some i) ∧ f i = some true) ∨
      (place = some none ∧ ∀ i ∈ l, f i = some false) ∨
      (place = none ∧ ∃ i ∈ l, f i = none) := by
  subst run
  induction l with
  | nil => exact .inr (.inl ⟨rfl, fun _ mem => nomatch mem⟩)
  | cons i rest ih =>
    rw [firstPlace]
    cases answer : f i with
    | none => exact .inr (.inr ⟨rfl, i, List.mem_cons_self .., answer⟩)
    | some passes =>
      cases passes with
      | true => exact .inl ⟨i, List.mem_cons_self .., rfl, answer⟩
      | false =>
        simp only
        rcases ih with ⟨j, mem, found, passed⟩ | ⟨found, refused⟩ | ⟨found, j, mem, unanswered⟩
        · exact .inl ⟨j, List.mem_cons_of_mem i mem, found, passed⟩
        · refine .inr (.inl ⟨found, fun j mem => ?_⟩)
          rcases List.mem_cons.1 mem with rfl | mem
          · exact answer
          · exact refused j mem
        · exact .inr (.inr ⟨found, j, List.mem_cons_of_mem i mem, unanswered⟩)

theorem getElem?_keys (t : Keyed α) (i : Nat) : t.keys[i]? = t.entries[i]?.map Prod.fst := by
  simp [keys]

/-- A look-up meets the keys that are filed under the image, up to the first that is accepted. -/
theorem find_cases {imageOf : Value → Array UInt8} (files : t.Files (t.keys.map imageOf))
    (image : Array UInt8) (same : Value → Option Bool) :
    (∃ i e, t.find p image same = some (some i) ∧ t.entries[i]? = some e ∧ imageOf e.1 = image ∧
        same e.1 = some true) ∨
      (t.find p image same = some none ∧ ∀ k ∈ t.keys, imageOf k = image → same k = some false) ∨
      (t.find p image same = none ∧ ∃ k ∈ t.keys, imageOf k = image ∧ same k = none) := by
  have filed : ∀ i, i ∈ t.met p image ↔
      ∃ e, t.entries[i]? = some e ∧ imageOf e.1 = image := by
    intro i
    rw [mem_met, files, mem_places, List.getElem?_map, getElem?_keys]
    cases t.entries[i]? <;> simp
  rcases firstPlace_cases (show firstPlace _ _ = t.find p image same from rfl) with
    ⟨i, mem, found, passed⟩ | ⟨found, refused⟩ | ⟨found, i, mem, unanswered⟩
  · obtain ⟨e, here, known⟩ := (filed i).1 mem
    simp only [here] at passed
    exact .inl ⟨i, e, found, here, known, passed⟩
  · refine .inr (.inl ⟨found, fun k mem known => ?_⟩)
    obtain ⟨i, here⟩ := List.mem_iff_getElem?.1 mem
    rw [getElem?_keys, Option.map_eq_some_iff] at here
    obtain ⟨e, here, rfl⟩ := here
    simpa only [here] using refused i ((filed i).2 ⟨e, here, known⟩)
  · obtain ⟨e, here, known⟩ := (filed i).1 mem
    simp only [here] at unanswered
    refine .inr (.inr ⟨found, e.1, List.mem_iff_getElem?.2 ⟨i, ?_⟩, known, unanswered⟩)
    rw [getElem?_keys, here]
    rfl

end Keyed

variable {H : Type} [HostObject H]

namespace Store

variable {s : Store H} {holder : Option Nat} {a b : Value}

/-! ## Values that are equal -/

/-- The key of a class is its identity: no two classes of instances share one. -/
def Classed (s : Store H) : Prop :=
  ∀ {i j : Nat} {c d : Class} {t u : Dict}, s.cells[i]? = some (.inst c t) →
    s.cells[j]? = some (.inst d u) → c.key = d.key → c = d

/-- Equal values are the same, or one is a byte array, or they are objects with equal contents. -/
theorem sameBy_cases {f : Value → Value → Option Bool} (h : s.sameBy none f a b = some true) :
    a = b ∨ (∃ i data, (a = .ref i ∨ b = .ref i) ∧ s.cells[i]? = some (.bytearray data)) ∨
      ∃ i j x y, a = .ref i ∧ b = .ref j ∧ i ≠ j ∧ s.cells[i]? = some x ∧ s.cells[j]? = some y ∧
        s.sameCells none f x y = some true := by
  unfold sameBy at h
  split at h
  · exact .inl rfl
  · next x y =>
    obtain rfl : x = y := by simpa using h
    exact .inl rfl
  · next x y =>
    obtain rfl : x = y := by simpa using h
    exact .inl rfl
  · exact .inl rfl
  · next j =>
    split at h
    · next found => exact .inr (.inl ⟨j, _, .inr rfl, found⟩)
    · cases h
  · next i _ =>
    split at h
    · next found => exact .inr (.inl ⟨i, _, .inl rfl, found⟩)
    · cases h
  · next i j =>
    split at h
    · next same => exact .inl (same ▸ rfl)
    · next apart =>
      split at h
      · next x y found found' =>
        simp only [reduceCtorEq, false_or, false_and, if_false] at h
        exact .inr (.inr ⟨i, j, x, y, rfl, rfl, apart, found, found', h⟩)
      · cases h
  · cases h

omit [HostObject H] in
theorem allPass_eq_true {α : Type} {test : α → Option Bool} {items : List α} :
    allPass test items = some true ↔ ∀ item ∈ items, test item = some true := by
  induction items with
  | nil => simp [allPass]
  | cons item rest ih =>
    rw [allPass, List.forall_mem_cons, ← ih]
    cases test item with
    | none => simp
    | some passes => cases passes <;> simp

omit [HostObject H] in
theorem sameItems_eq_true {f : Value → Value → Option Bool} {as bs : List Value} :
    sameItems f as bs = some true ↔ List.Forall₂ (fun a b => f a b = some true) as bs := by
  unfold sameItems
  rw [List.forall₂_iff_zip]
  split
  · next length =>
    rw [allPass_eq_true]
    exact ⟨fun h => ⟨length, fun pair => h _ pair⟩, fun h pair mem => h.2 mem⟩
  · next length => simp [length]

theorem size_of_sameMembersFor {f : Value → Value → Option Bool} {t u : Members}
    (h : s.sameMembersFor holder f t u = some true) : t.size = u.size := by
  by_contra differ
  simp [sameMembersFor, differ] at h

/-- Equal instances are of one class, or of classes with the same name. -/
theorem qualname_of_instances (classed : s.Classed) {f : Value → Value → Option Bool} {i j : Nat}
    {c d : Class} {t u : Dict} (found : s.cells[i]? = some (.inst c t))
    (found' : s.cells[j]? = some (.inst d u))
    (h : s.sameCells none f (.inst c t) (.inst d u) = some true) : c.qualname = d.qualname := by
  by_contra differ
  have other : c.key ≠ d.key := fun key => differ (classed found found' key ▸ rfl)
  simp [sameCells, differ, other] at h

theorem type_of_objects {f : Value → Value → Option Bool} {x y : H}
    (h : s.sameCells none f (.object x) (.object y) = some true) :
    HostObject.type x = HostObject.type y := by
  by_contra differ
  simp [sameCells, differ] at h

/-- Globals are equal by name, or else by type. -/
theorem qualname_of_same {g h : Global} (same : g.same h = true) :
    g.qualname = h.qualname ∨ (g.type ≠ none ∧ g.type = h.type) := by
  unfold Global.same at same
  split at same
  · next s t type type' => exact .inr ⟨by simp [type], by simpa [type, type'] using same⟩
  · rw [Bool.and_eq_true, beq_iff_eq] at same
    exact .inl same.1

/-! ## Images -/

/-- Keys that may have different images for the object `holder` although they are equal. -/
inductive Confused (s : Store H) (holder : Option Nat) : Value → Value → Prop
  | numbers {a b : Value} {x y : Number} (ha : Number.ofValue? a = some x)
      (hb : Number.ofValue? b = some y) (split : x.Split y) : s.Confused holder a b
  | globals {i j : Nat} {g h : Global} (found : s.cells[i]? = some (.global g))
      (found' : s.cells[j]? = some (.global h)) (typed : g.type ≠ none) (type : g.type = h.type)
      (differ : g.qualname ≠ h.qualname) : s.Confused holder (.ref i) (.ref j)
  | filled {i j : Nat} {c d : Class} {t u : Dict} (found : s.cells[i]? = some (.inst c t))
      (found' : s.cells[j]? = some (.inst d u)) (apart : i ≠ j)
      (held : holder = some i ∨ holder = some j) : s.Confused holder (.ref i) (.ref j)
  | items {i j : Nat} {as bs : List Value} {a b : Value} (found : s.cells[i]? = some (.tuple as))
      (found' : s.cells[j]? = some (.tuple bs)) (pair : (a, b) ∈ as.zip bs)
      (inside : s.Confused holder a b) : s.Confused holder (.ref i) (.ref j)

theorem imageWithin_number {x : Number} {v : Value} (h : Number.ofValue? v = some x) (fuel : Nat)
    (before : Array UInt8) : s.imageWithin holder fuel before v = .ok (before ++ x.image) := by
  cases v with
  | bool | int | long | float | complex => cases h; cases fuel <;> rfl
  | _ => cases h

/-- A byte array is no key. -/
theorem imageWithin_bytearray {i fuel : Nat} {data : Bytes} {before image : Array UInt8}
    (found : s.cells[i]? = some (.bytearray data)) :
    s.imageWithin holder fuel before (.ref i) ≠ .ok image := by
  rw [Mirror.imageWithin_ref, found]
  exact nofun

omit [HostObject H] in
/-- Two folds over items that agree one by one come to the same. -/
theorem foldlM_agree {α σ ε : Type} {f : σ → α → Except ε σ} {as bs : List α}
    (h : List.Forall₂ (fun a b => ∀ x y z, f x a = .ok y → f x b = .ok z → y = z) as bs) {x y z : σ}
    (run : as.foldlM f x = .ok y) (run' : bs.foldlM f x = .ok z) : y = z := by
  induction h generalizing x with
  | nil => exact Except.ok.inj (run.symm.trans run')
  | @cons a b as bs head tail ih =>
    rw [List.foldlM_cons] at run run'
    cases first : f x a with
    | error e => rw [first] at run; cases run
    | ok w =>
      cases first' : f x b with
      | error e => rw [first'] at run'; cases run'
      | ok w' =>
        rw [first] at run
        rw [first'] at run'
        obtain rfl := head x w w' first first'
        exact ih run run'

/-- Equal keys that are not confused have the same image behind the same bytes. -/
theorem imageWithin_of_equal (classed : s.Classed) {fuel : Nat} {before image image' : Array UInt8}
    (same : s.equal? a b = some true) (clear : ¬s.Confused holder a b)
    (hash : s.imageWithin holder fuel before a = .ok image)
    (hash' : s.imageWithin holder fuel before b = .ok image') : image = image' := by
  -- tuples are the only keys whose image asks for other images, with less fuel
  induction fuel using Nat.strong_induction_on generalizing before image image' a b with
  | _ fuel ih =>
  by_cases numbers : Number.ofValue? a = none ∨ Number.ofValue? b = none
  · rw [equal?_eq_sameBy numbers] at same
    -- of a byte array there is no image, so different equal keys are objects of one kind
    rcases sameBy_cases same with rfl | ⟨i, data, taken, found⟩ |
      ⟨i, j, x, y, rfl, rfl, apart, found, found', same⟩
    · exact Except.ok.inj (hash.symm.trans hash')
    · rcases taken with rfl | rfl
      · exact absurd hash (imageWithin_bytearray found)
      · exact absurd hash' (imageWithin_bytearray found)
    · rw [Mirror.imageWithin_ref, found] at hash
      rw [Mirror.imageWithin_ref, found'] at hash'
      cases x with
      | bytearray | list | dict | set => cases hash
      | tuple as =>
        cases y with
        | tuple bs =>
          cases fuel with
          | zero => cases hash
          | succ fuel =>
            have items := sameItems_eq_true.1 same
            simp only [items.length_eq] at hash
            refine foldlM_agree (List.forall₂_iff_zip.2 ⟨items.length_eq, ?_⟩) hash hash'
            intro a b pair before image image' hash hash'
            have same := (List.forall₂_iff_zip.1 items).2 pair
            have clear : ¬s.Confused holder a b :=
              fun inside => clear (.items found found' pair inside)
            exact ih fuel (Nat.lt_succ_self fuel) same clear hash hash'
        | _ => cases same
      | frozenset t =>
        cases y with
        | frozenset u =>
          simp only [size_of_sameMembersFor same] at hash
          exact Except.ok.inj (hash.symm.trans hash')
        | set u => cases hash'
        | _ => cases same
      | global g =>
        cases y with
        | global h =>
          rcases qualname_of_same (Option.some.inj same) with name | ⟨typed, type⟩
          · simp only [name] at hash
            exact Except.ok.inj (hash.symm.trans hash')
          -- one type under two names
          · by_contra differ
            refine clear (.globals found found' typed type fun name => differ ?_)
            simp only [name] at hash
            exact Except.ok.inj (hash.symm.trans hash')
        | _ => cases same
      | inst c t =>
        cases y with
        | inst d u =>
          have name := qualname_of_instances classed found found' same
          -- the image leaves out the name of the class only for the object that is being filled
          have outside : holder ≠ some i ∧ holder ≠ some j :=
            ⟨fun held => clear (.filled found found' apart (.inl held)),
              fun held => clear (.filled found found' apart (.inr held))⟩
          simp only [if_neg outside.1, name] at hash
          simp only [if_neg outside.2] at hash'
          exact Except.ok.inj (hash.symm.trans hash')
        | _ => cases same
      | object x =>
        cases y with
        | object y =>
          simp only [type_of_objects same] at hash
          exact Except.ok.inj (hash.symm.trans hash')
        | _ => cases same
  · simp only [not_or, ← ne_eq, ← Option.isSome_iff_ne_none, Option.isSome_iff_exists] at numbers
    obtain ⟨⟨x, hx⟩, y, hy⟩ := numbers
    rw [imageWithin_number hx] at hash
    rw [imageWithin_number hy] at hash'
    rw [equal?_of_numbers hx hy] at same
    have whole : ¬x.Split y := fun split => clear (.numbers hx hy split)
    rw [Number.image_congr (Option.some.inj same) whole] at hash
    exact Except.ok.inj (hash.symm.trans hash')

theorem image_of_equal (classed : s.Classed) {image image' : Array UInt8}
    (same : s.equal? a b = some true) (clear : ¬s.Confused holder a b)
    (hash : s.image holder a = .ok image) (hash' : s.image holder b = .ok image') :
    image = image' :=
  imageWithin_of_equal classed same clear hash hash'

/-! ## Look-ups -/

/-- Equal keys have the same image, whatever object they are put into, unless they are confused. And
    a table that files its keys under their images, the one among them, finds under the other a key
    that equals it, unless another key in the table is compared with it without an end. -/
theorem found_under_equal (classed : s.Classed) (same : s.equal? a b = some true) :
    (∀ {holder image image'}, s.image holder a = .ok image → s.image holder b = .ok image' →
      ¬s.Confused holder a b → image = image') ∧
    ∀ {α : Type} {t : Keyed α} {image image' : Array UInt8}, t.Files (t.keys.map s.imageOf) →
      a ∈ t.keys → s.image none a = .ok image → s.image none b = .ok image' →
      ¬s.Confused none a b →
      (∃ i k c, s.place t b = .ok (some i) ∧ t.entries[i]? = some (k, c) ∧ s.equal? k b = some true ∧
          s.lookup? t b = .ok (some c)) ∨
        (s.place t b = .error .endless ∧ ∃ k ∈ t.keys, s.equal? k b = none) := by
  refine ⟨fun hash hash' clear => image_of_equal classed same clear hash hash', ?_⟩
  intro α t image image' files mem hash hash' clear
  obtain rfl := image_of_equal classed same clear hash hash'
  rcases Keyed.find_cases (p := HostObject.probing H) files image (fun old => s.equal? old b) with
    ⟨i, ⟨k, c⟩, found, here, -, passed⟩ | ⟨-, refused⟩ | ⟨found, k, mem, -, unanswered⟩
  · have place : s.place t b = .ok (some i) := by
      simp only [Store.place, placeBy, hash', found, bind, Except.bind]
    refine .inl ⟨i, k, c, place, here, passed, ?_⟩
    simp only [lookup?, place, Option.bind_some, Keyed.at?, here, Option.map_some]
  -- the key itself is filed there, and equals the other
  · rw [refused a mem (imageOf_eq hash)] at same
    cases same
  · refine .inr ⟨?_, k, mem, unanswered⟩
    simp only [Store.place, placeBy, hash', found, bind, Except.bind]

end Store

/-- Two equal tuples, one of an integer and one of a double. -/
def twins : Store Empty := { cells := #[.tuple [.int 1], .tuple [.float ⟨0x3ff0000000000000⟩]] }

/-- A dictionary with the first of them as its key. -/
def twin : Dict := Keyed.empty.put none (twins.imageOf (.ref 0)) (.ref 0) (.str "x")

theorem twins_cell {i : Nat} {cell : Cell Empty} (found : twins.cells[i]? = some cell) :
    (i = 0 ∧ cell = .tuple [.int 1]) ∨ (i = 1 ∧ cell = .tuple [.float ⟨0x3ff0000000000000⟩]) := by
  match i, found with
  | 0, found => exact .inl ⟨rfl, (Option.some.inj found).symm⟩
  | 1, found => exact .inr ⟨rfl, (Option.some.inj found).symm⟩

theorem found_under_equal_tuple : twins.equal? (.ref 0) (.ref 1) = some true ∧
    twins.lookup? twin (.ref 1) = .ok (some (.str "x")) := by
  have same : twins.equal? (.ref 0) (.ref 1) = some true := by decide +kernel
  have classed : twins.Classed := by
    intro i j c d t u found
    rcases twins_cell found with ⟨-, other⟩ | ⟨-, other⟩ <;> cases other
  have clear : ¬twins.Confused none (.ref 0) (.ref 1) := by
    intro confused
    cases confused with
    | numbers ha => cases ha
    | globals found => cases found
    | filled found => cases found
    | items found found' pair inside =>
      cases found
      cases found'
      cases List.mem_singleton.1 pair
      -- the items are numbers, and neither is complex
      cases inside with
      | numbers ha hb split =>
        cases ha
        cases split
  have files : twin.Files (twin.keys.map twins.imageOf) :=
    Keyed.files_empty.put rfl (twins.imageOf (.ref 0)) (.ref 0) (.str "x")
  have hash : twins.image none (.ref 0) = .ok (twins.imageOf (.ref 0)) := rfl
  have hash' : twins.image none (.ref 1) = .ok (twins.imageOf (.ref 1)) := rfl
  refine ⟨same, ?_⟩
  rcases (Store.found_under_equal classed same).2 files (List.mem_cons_self ..) hash hash' clear with
    ⟨i, k, c, -, here, -, found⟩ | ⟨-, k, mem, unanswered⟩
  · match i, here with
    | 0, here =>
      cases here
      exact found
  · cases List.mem_singleton.1 mem
    rw [same] at unanswered
    cases unanswered

/-- The zeros are equal and the complex numbers are, but a table does not find the one under the
    other. -/
theorem split_keys : ∃ t : Dict,
    ({} : Store Empty).dictOf [(.complex ⟨0⟩ ⟨0x3ff0000000000000⟩, .str "x")] = .ok t ∧
      ({} : Store Empty).equal? (.complex ⟨0⟩ ⟨0x3ff0000000000000⟩)
        (.complex ⟨0x8000000000000000⟩ ⟨0x3ff0000000000000⟩) = some true ∧
      ({} : Store Empty).lookup? t (.complex ⟨0x8000000000000000⟩ ⟨0x3ff0000000000000⟩) =
        .ok none := by
  have hash : ∀ re im : Double, ({} : Store Empty).image none (.complex re im) =
      .ok (#[] ++ Image.ofComplex re im) := fun re im => rfl
  refine ⟨_, Store.insertAll_found (hash _ _) (Keyed.find_empty _ _), by decide +kernel, ?_⟩
  have apart : Image.ofComplex ⟨0⟩ ⟨0x3ff0000000000000⟩ ≠
      Image.ofComplex ⟨0x8000000000000000⟩ ⟨0x3ff0000000000000⟩ := by decide +kernel
  simp only [Store.lookup?, Store.place, Store.placeBy, hash, bind, Except.bind]
  rw [Keyed.find, Keyed.met_nil]
  · rfl
  · simp [Keyed.put, Keyed.empty, Std.HashMap.getD_insert, apart]

end ObjectStream
