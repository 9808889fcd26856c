import ObjectStream.Proofs.Forms

/-!
Elementary keys.

Most keys are atoms, tuples and frozen sets of such keys. Leave out the complex numbers, which split
under one image, and they are elementary (`Store.Elementary`). An elementary key always has an image,
and a comparison of two of them always ends. A not-a-number equals nothing, not even itself, but
equality is symmetric and transitive all the same (`coherent_elementary`), and equal elementary keys
have one image (`Elementary.imageOf_eq`): what a table needs to tell its keys apart.
-/

namespace ObjectStream

namespace Number

variable {x y z : Number}

theorem same_symm (h : x.same y = true) : y.same x = true := by
  obtain ⟨hx, hy⟩ := proper_of_same h
  exact (same_iff hy hx).2 (parts_of_same h).symm

theorem same_trans (h : x.same y = true) (h' : y.same z = true) : x.same z = true := by
  obtain ⟨hx, -⟩ := proper_of_same h
  obtain ⟨-, hz⟩ := proper_of_same h'
  exact (same_iff hx hz).2 ((parts_of_same h).trans (parts_of_same h'))

end Number

variable {H : Type} [HostObject H] {s : Store H} {P : Value → Prop} {a b c : Value}

namespace Store

/-- A key that is built from atoms other than complex numbers with tuples and frozen sets. What these
    hold was there before them, and a frozen set tells its members apart. -/
inductive Elementary (s : Store H) : Value → Prop
  | atom {v : Value} (atom : ∀ i, v ≠ .ref i) (real : ∀ re im, v ≠ .complex re im) : s.Elementary v
  | tuple {i : Nat} {items : List Value} (found : s.cells[i]? = some (.tuple items))
      (older : ∀ j, .ref j ∈ items → j < i) (inside : ∀ v ∈ items, s.Elementary v) :
      s.Elementary (.ref i)
  | frozenset {i : Nat} {members : Members} (found : s.cells[i]? = some (.frozenset members))
      (orderly : members.Orderly s True) (older : ∀ j, .ref j ∈ members.keys → j < i)
      (inside : ∀ v ∈ members.keys, s.Elementary v) : s.Elementary (.ref i)

/-! ## One level of keys -/

/-- The value is an atom other than a complex number, or a tuple or a frozen set of values with `P`. -/
inductive KeyOver (s : Store H) (P : Value → Prop) : Value → Prop
  | atom {v : Value} (atom : ∀ i, v ≠ .ref i) (real : ∀ re im, v ≠ .complex re im) : s.KeyOver P v
  | tuple {i : Nat} {items : List Value} (found : s.cells[i]? = some (.tuple items))
      (inside : ∀ v ∈ items, P v) : s.KeyOver P (.ref i)
  | frozenset {i : Nat} {members : Members} (found : s.cells[i]? = some (.frozenset members))
      (settled : members.Settled s P fun _ => True) : s.KeyOver P (.ref i)

/-- Keys are equal as numbers, as one value, or as objects that hold equal keys. -/
inductive KeySame (s : Store H) (P : Value → Prop) : Value → Value → Prop
  | number {a b : Value} {x y : Number} (ha : Number.ofValue? a = some x)
      (hb : Number.ofValue? b = some y) (same : x.same y = true) : s.KeySame P a b
  | self {v : Value} (other : Number.ofValue? v = none) : s.KeySame P v v
  | tuple {i j : Nat} {as bs : List Value} (found : s.cells[i]? = some (.tuple as))
      (found' : s.cells[j]? = some (.tuple bs)) (items : List.Forall₂ (s.Same P) as bs) :
      s.KeySame P (.ref i) (.ref j)
  | frozenset {i j : Nat} {t u : Members} (found : s.cells[i]? = some (.frozenset t))
      (found' : s.cells[j]? = some (.frozenset u)) (settled : t.Settled s P fun _ => True)
      (settled' : u.Settled s P fun _ => True) (matched : Matched s P (fun _ _ => True) t u) :
      s.KeySame P (.ref i) (.ref j)

namespace KeySame

theorem symm (coherent : s.Coherent P) (h : s.KeySame P a b) : s.KeySame P b a := by
  cases h with
  | number ha hb same => exact .number hb ha (Number.same_symm same)
  | self other => exact .self other
  | tuple found found' items => exact .tuple found' found (coherent.forall₂_symm items)
  | frozenset found found' settled settled' matched =>
    exact .frozenset found' found settled' settled
      (matched.symm coherent settled fun _ _ _ => trivial)

theorem trans (coherent : s.Coherent P) (h : s.KeySame P a b) (h' : s.KeySame P b c) :
    s.KeySame P a c := by
  cases h with
  | number ha hb same =>
    cases h' with
    | number hb' hc same' =>
      obtain rfl := Option.some.inj (hb.symm.trans hb')
      exact .number ha hc (Number.same_trans same same')
    | self other =>
      rw [hb] at other
      cases other
    | tuple | frozenset => cases hb
  | self other => exact h'
  | tuple found found' items =>
    cases h' with
    | number hb => cases hb
    | self other => exact .tuple found found' items
    | tuple here found'' items' =>
      cases found'.symm.trans here
      exact .tuple found found'' (coherent.forall₂_trans items items')
    | frozenset here => cases found'.symm.trans here
  | frozenset found found' settled settled' matched =>
    cases h' with
    | number hb => cases hb
    | self other => exact .frozenset found found' settled settled' matched
    | tuple here => cases found'.symm.trans here
    | frozenset here found'' _ settled'' matched' =>
      cases found'.symm.trans here
      exact .frozenset found found'' settled settled''
        (matched.trans coherent (fun _ _ _ _ _ => trivial) matched')

end KeySame

/-- Atoms that are not both numbers are equal if they are one value. -/
theorem decides_atoms {f : Value → Value → Option Bool} (ha : ∀ i, a ≠ .ref i)
    (hb : ∀ i, b ≠ .ref i) (numbers : Number.ofValue? a = none ∨ Number.ofValue? b = none) :
    Decides (s.sameBy none f a b) (a = b) := by
  cases a with
  | ref i => exact absurd rfl (ha i)
  | none =>
    cases b with
    | none => exact .yes rfl
    | ref j => exact absurd rfl (hb j)
    | _ => exact .no nofun
  | str x =>
    cases b with
    | str y => exact (Decides.bool _).congr (by simp)
    | ref j => exact absurd rfl (hb j)
    | _ => exact .no nofun
  | bytes x =>
    cases b with
    | bytes y => exact (Decides.bool _).congr (by simp)
    | ref j => exact absurd rfl (hb j)
    | _ => exact .no nofun
  | emptyTuple =>
    cases b with
    | emptyTuple => exact .yes rfl
    | ref j => exact absurd rfl (hb j)
    | _ => exact .no nofun
  | _ =>
    rw [Mirror.sameBy_number (.inl rfl)]
    refine .no ?_
    rintro rfl
    rcases numbers with none | none <;> cases none

/-- An atom equals no tuple and no frozen set. -/
theorem sameBy_atom {f : Value → Value → Option Bool} {i : Nat} {cell : Cell H}
    (found : s.cells[i]? = some cell) (other : ∀ data, cell ≠ .bytearray data)
    (atom : ∀ i, a ≠ .ref i) :
    s.sameBy none f a (.ref i) = some false ∧ s.sameBy none f (.ref i) a = some false := by
  cases a with
  | ref j => exact absurd rfl (atom j)
  | bytes x =>
    cases cell with
    | bytearray data => exact absurd rfl (other data)
    | _ => simp only [sameBy, found, and_self]
  | _ => exact ⟨rfl, rfl⟩

/-- A key that is an object is no byte array. -/
theorem KeyOver.object {i : Nat} (h : s.KeyOver P (.ref i)) :
    ∃ cell, s.cells[i]? = some cell ∧ ∀ data, cell ≠ .bytearray data := by
  cases h with
  | atom atom => exact absurd rfl (atom i)
  | tuple found => exact ⟨_, found, fun _ => nofun⟩
  | frozenset found => exact ⟨_, found, fun _ => nofun⟩

namespace KeySame

/-- A value that is no object is the same only as itself, or as a number. -/
theorem eq_of_atom (h : s.KeySame P a b) (other : Number.ofValue? a = none ∨ Number.ofValue? b = none)
    (atom : (∀ i, a ≠ .ref i) ∨ ∀ i, b ≠ .ref i) : a = b := by
  cases h with
  | number ha hb =>
    rw [ha, hb] at other
    rcases other with none | none <;> cases none
  | self => rfl
  | tuple | frozenset => rcases atom with atom | atom <;> exact absurd rfl (atom _)

theorem of_numbers {x y : Number} (h : s.KeySame P a b) (ha : Number.ofValue? a = some x)
    (hb : Number.ofValue? b = some y) : x.same y = true := by
  cases h with
  | number ha' hb' same =>
    obtain rfl := Option.some.inj (ha.symm.trans ha')
    obtain rfl := Option.some.inj (hb.symm.trans hb')
    exact same
  | self other =>
    rw [ha] at other
    cases other
  | tuple | frozenset => cases ha

/-- Different objects that are the same hold the same. -/
theorem of_objects {i j : Nat} (h : s.KeySame P (.ref i) (.ref j)) (apart : i ≠ j) :
    (∃ as bs, s.cells[i]? = some (.tuple as) ∧ s.cells[j]? = some (.tuple bs) ∧
        List.Forall₂ (s.Same P) as bs) ∨
      ∃ t u, s.cells[i]? = some (.frozenset t) ∧ s.cells[j]? = some (.frozenset u) ∧
        Matched s P (fun _ _ => True) t u := by
  cases h with
  | number ha => cases ha
  | self => exact absurd rfl apart
  | tuple found found' items => exact .inl ⟨_, _, found, found', items⟩
  | frozenset found found' _ _ matched => exact .inr ⟨_, _, found, found', matched⟩

end KeySame

/-- Different tuples and frozen sets are compared by what they hold. -/
theorem decides_objects {i j : Nat} (coherent : s.Coherent P) (apart : i ≠ j)
    (ha : s.KeyOver P (.ref i)) (hb : s.KeyOver P (.ref j)) :
    Decides (s.sameBy none s.equal? (.ref i) (.ref j)) (s.KeySame P (.ref i) (.ref j)) := by
  cases ha with
  | atom atom => exact absurd rfl (atom i)
  | tuple found inside =>
    cases hb with
    | atom atom => exact absurd rfl (atom j)
    | tuple found' inside' =>
      rw [sameBy_none_refs apart found found']
      refine (coherent.decides_sameItems inside inside').congr ⟨.tuple found found', fun same => ?_⟩
      rcases same.of_objects apart with ⟨as, bs, here, here', items⟩ | ⟨_, _, here, -⟩
      · cases found.symm.trans here
        cases found'.symm.trans here'
        exact items
      · cases found.symm.trans here
    | frozenset found' settled =>
      rw [sameBy_none_refs apart found found']
      refine .no fun same => ?_
      rcases same.of_objects apart with ⟨_, _, -, here, -⟩ | ⟨_, _, here, -⟩
      · cases found'.symm.trans here
      · cases found.symm.trans here
  | frozenset found settled =>
    cases hb with
    | atom atom => exact absurd rfl (atom j)
    | tuple found' inside =>
      rw [sameBy_none_refs apart found found']
      refine .no fun same => ?_
      rcases same.of_objects apart with ⟨_, _, here, -⟩ | ⟨_, _, -, here, -⟩
      · cases found.symm.trans here
      · cases found'.symm.trans here
    | frozenset found' settled' =>
      rw [sameBy_none_refs apart found found']
      refine (decides_sameMembers coherent settled settled').congr
        ⟨.frozenset found found' settled settled', fun same => ?_⟩
      rcases same.of_objects apart with ⟨_, _, here, -⟩ | ⟨_, _, here, here', matched⟩
      · cases found.symm.trans here
      · cases found.symm.trans here
        cases found'.symm.trans here'
        exact matched

/-- The comparison of two keys decides whether they are the same. -/
theorem decides_key (coherent : s.Coherent P) (ha : s.KeyOver P a) (hb : s.KeyOver P b) :
    Decides (s.equal? a b) (s.KeySame P a b) := by
  by_cases numbers : Number.ofValue? a = none ∨ Number.ofValue? b = none
  · rw [equal?_eq_sameBy numbers]
    by_cases first : ∀ i, a ≠ .ref i
    · by_cases second : ∀ j, b ≠ .ref j
      · refine (decides_atoms first second numbers).congr ⟨?_, fun same =>
          same.eq_of_atom numbers (.inl first)⟩
        rintro rfl
        exact .self (numbers.elim id id)
      · obtain ⟨j, rfl⟩ := not_forall_not.1 second
        obtain ⟨cell, found, other⟩ := hb.object
        rw [(sameBy_atom found other first).1]
        exact .no fun same => first j (same.eq_of_atom numbers (.inl first))
    · obtain ⟨i, rfl⟩ := not_forall_not.1 first
      by_cases second : ∀ j, b ≠ .ref j
      · obtain ⟨cell, found, other⟩ := ha.object
        rw [(sameBy_atom found other second).2]
        exact .no fun same => second i (same.eq_of_atom numbers (.inr second)).symm
      · obtain ⟨j, rfl⟩ := not_forall_not.1 second
        by_cases apart : i = j
        · subst apart
          simp only [sameBy, if_true]
          exact .yes (.self rfl)
        · exact decides_objects coherent apart ha hb
  · simp only [not_or, ← ne_eq, ← Option.isSome_iff_ne_none, Option.isSome_iff_exists] at numbers
    obtain ⟨⟨x, hx⟩, y, hy⟩ := numbers
    rw [equal?_of_numbers hx hy]
    exact (Decides.bool _).congr ⟨.number hx hy, fun same => same.of_numbers hx hy⟩

/-- Equality is symmetric and transitive one level further up. -/
theorem Coherent.over (coherent : s.Coherent P) : s.Coherent (s.KeyOver P) where
  ends ha hb := (decides_key coherent ha hb).ne_none
  symm := by
    rintro a b ⟨ha, hb, same⟩
    have same := (decides_key coherent ha hb).eq_true_iff.1 same
    exact ⟨hb, ha, (decides_key coherent hb ha).eq_true_iff.2 (same.symm coherent)⟩
  trans := by
    rintro a b c ⟨ha, hb, same⟩ ⟨-, hc, same'⟩
    have same := (decides_key coherent ha hb).eq_true_iff.1 same
    have same' := (decides_key coherent hb hc).eq_true_iff.1 same'
    exact ⟨ha, hc, (decides_key coherent ha hc).eq_true_iff.2 (same.trans coherent same')⟩

/-! ## All levels -/

theorem Coherent.mono {Q : Value → Prop} (coherent : s.Coherent P) (h : ∀ v, Q v → P v) :
    s.Coherent Q where
  ends ha hb := coherent.ends (h _ ha) (h _ hb)
  symm same := ⟨same.2.1, same.1, (coherent.symm ⟨h _ same.1, h _ same.2.1, same.2.2⟩).2.2⟩
  trans same same' := ⟨same.1, same'.2.1, (coherent.trans ⟨h _ same.1, h _ same.2.1, same.2.2⟩
    ⟨h _ same'.1, h _ same'.2.1, same'.2.2⟩).2.2⟩

/-- The elementary keys among the first objects. -/
def ElementaryBelow (s : Store H) (n : Nat) (v : Value) : Prop :=
  s.Elementary v ∧ ∀ i, v = .ref i → i < n

theorem ElementaryBelow.over {n : Nat} (h : s.ElementaryBelow (n + 1) a) :
    s.KeyOver (s.ElementaryBelow n) a := by
  obtain ⟨elementary, below⟩ := h
  cases elementary with
  | atom atom real => exact .atom atom real
  | tuple found older inside =>
    have last := below _ rfl
    refine .tuple found fun v mem => ⟨inside v mem, ?_⟩
    rintro j rfl
    have := older j mem
    omega
  | @frozenset i members found orderly older inside =>
    have last := below _ rfl
    refine .frozenset found ⟨orderly, fun e mem => ?_, fun _ _ => trivial⟩
    have mem : e.1 ∈ members.keys := List.mem_map_of_mem mem
    refine ⟨inside e.1 mem, fun j same => ?_⟩
    have := older j (same ▸ mem)
    omega

theorem coherent_elementaryBelow (s : Store H) (n : Nat) : s.Coherent (s.ElementaryBelow n) := by
  induction n with
  | zero =>
    -- no objects are left, only atoms
    have atoms : s.Coherent fun _ => False :=
      ⟨fun ha => ha.elim, fun h => h.1.elim, fun h => h.1.elim⟩
    refine atoms.over.mono fun v h => ?_
    obtain ⟨elementary, below⟩ := h
    cases elementary with
    | atom atom real => exact .atom atom real
    | tuple | frozenset => exact absurd (below _ rfl) (Nat.not_lt_zero _)
  | succ n ih => exact ih.over.mono fun v h => h.over

theorem Elementary.known (h : s.Elementary a) : s.ElementaryBelow s.size a := by
  refine ⟨h, ?_⟩
  rintro i rfl
  cases h with
  | atom atom => exact absurd rfl (atom i)
  | tuple found => exact lt_size_of_cell found
  | frozenset found => exact lt_size_of_cell found

/-- On elementary keys every comparison ends, and equality is symmetric and transitive. -/
theorem coherent_elementary (s : Store H) : s.Coherent s.Elementary :=
  (s.coherent_elementaryBelow s.size).mono fun _ h => h.known

/-! ## Images -/

/-- A fold succeeds if every step does. -/
theorem foldlM_ok {α σ ε : Type} {f : σ → α → Except ε σ} {items : List α}
    (h : ∀ a ∈ items, ∀ x, ∃ y, f x a = .ok y) (x : σ) : ∃ y, items.foldlM f x = .ok y := by
  induction items generalizing x with
  | nil => exact ⟨x, rfl⟩
  | cons a rest ih =>
    obtain ⟨y, run⟩ := h a (List.mem_cons_self ..) x
    rw [List.foldlM_cons, run]
    exact ih (fun b mem => h b (List.mem_cons_of_mem a mem)) y

namespace Elementary

theorem imageWithin_ok (ha : s.Elementary a) {holder : Option Nat} {fuel : Nat}
    (deep : ∀ i, a = .ref i → i < fuel) (before : Array UInt8) :
    ∃ image, s.imageWithin holder fuel before a = .ok image := by
  induction ha generalizing fuel before with
  | @atom v atom real =>
    cases v with
    | ref i => exact absurd rfl (atom i)
    | _ => cases fuel <;> exact ⟨_, rfl⟩
  | tuple found older inside ih =>
    rw [Mirror.imageWithin_ref, found]
    have last := deep _ rfl
    obtain ⟨fuel, rfl⟩ := Nat.exists_eq_succ_of_ne_zero (Nat.ne_zero_of_lt last)
    refine foldlM_ok (fun v mem x => ih v mem (fun j same => ?_) x) _
    have := older j (same ▸ mem)
    omega
  | frozenset found =>
    rw [Mirror.imageWithin_ref, found]
    exact ⟨_, rfl⟩

/-- An elementary key is a key. -/
theorem hashable (ha : s.Elementary a) (holder : Option Nat) :
    ∃ image, s.image holder a = .ok image :=
  ha.imageWithin_ok (fun i same => Nat.lt_succ_of_lt (ha.known.2 i same)) #[]

theorem keyOver (ha : s.Elementary a) : s.KeyOver s.Elementary a := by
  cases ha with
  | atom atom real => exact .atom atom real
  | tuple found _ inside => exact .tuple found inside
  | frozenset found orderly _ inside =>
    exact .frozenset found
      ⟨orderly, fun e mem => inside e.1 (List.mem_map_of_mem mem), fun _ _ => trivial⟩

theorem keySame (ha : s.Elementary a) (hb : s.Elementary b) (same : s.equal? a b = some true) :
    s.KeySame s.Elementary a b :=
  (decides_key s.coherent_elementary ha.keyOver hb.keyOver).eq_true_iff.1 same

/-- Equal elementary keys have the same image behind the same bytes. -/
theorem imageWithin_eq (ha : s.Elementary a) (hb : s.Elementary b) {holder : Option Nat} {fuel : Nat}
    {before image image' : Array UInt8} (same : s.equal? a b = some true)
    (hash : s.imageWithin holder fuel before a = .ok image)
    (hash' : s.imageWithin holder fuel before b = .ok image') : image = image' := by
  -- tuples are the only keys whose image asks for other images
  induction ha generalizing b fuel before image image' with
  | @atom v atom real =>
    cases keySame (.atom atom real) hb same with
    | @number _ _ x y hx hy same =>
      rw [imageWithin_number hx] at hash
      rw [imageWithin_number hy] at hash'
      have whole : ¬x.Split y := by
        rintro ⟨⟩
        cases v with
        | complex => exact real _ _ rfl
        | _ => cases hx
      rw [Number.image_congr same whole] at hash
      exact Except.ok.inj (hash.symm.trans hash')
    | self => exact Except.ok.inj (hash.symm.trans hash')
    | tuple | frozenset => exact absurd rfl (atom _)
  | @tuple i as found older inside ih =>
    cases keySame (.tuple found older inside) hb same with
    | number hx => cases hx
    | self => exact Except.ok.inj (hash.symm.trans hash')
    | frozenset here => cases found.symm.trans here
    | @tuple _ _ _ bs here found' items =>
      cases found.symm.trans here
      rw [Mirror.imageWithin_ref, found] at hash
      rw [Mirror.imageWithin_ref, found'] at hash'
      cases fuel with
      | zero => cases hash
      | succ fuel =>
        simp only [items.length_eq] at hash
        refine foldlM_agree (List.forall₂_iff_zip.2 ⟨items.length_eq, fun {a b} pair => ?_⟩) hash hash'
        obtain ⟨-, hb, same⟩ := (List.forall₂_iff_zip.1 items).2 pair
        exact fun before image image' => ih a (List.of_mem_zip pair).1 hb same
  | @frozenset i t found orderly older inside =>
    cases keySame (.frozenset found orderly older inside) hb same with
    | number hx => cases hx
    | self => exact Except.ok.inj (hash.symm.trans hash')
    | tuple here => cases found.symm.trans here
    | frozenset here found' _ _ matched =>
      cases found.symm.trans here
      rw [Mirror.imageWithin_ref, found] at hash
      rw [Mirror.imageWithin_ref, found'] at hash'
      simp only [matched.1] at hash
      exact Except.ok.inj (hash.symm.trans hash')

/-- Equal elementary keys have one image. -/
theorem imageOf_eq (ha : s.Elementary a) (hb : s.Elementary b) (same : s.equal? a b = some true) :
    s.imageOf a = s.imageOf b := by
  obtain ⟨image, hash⟩ := ha.hashable none
  obtain ⟨image', hash'⟩ := hb.hashable none
  rw [Store.imageOf_eq hash, Store.imageOf_eq hash']
  exact ha.imageWithin_eq hb same hash hash'

end Elementary

end Store

end ObjectStream
