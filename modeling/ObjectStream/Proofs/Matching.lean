import ObjectStream.Proofs.Lookups

/-!
Tables that match.

Two tables are compared by their sizes and by a look-up in the second for every key of the first.
Where equality is symmetric and transitive on what the tables hold (`Store.Coherent`), this decides
whether every entry of the first meets one of the second (`decides_sameDict`, `decides_sameMembers`). A
table tells its keys apart, so different entries meet different ones, and among as many there is none
left over: matching is symmetric and transitive as well (`Matched.symm`, `Matched.trans`). A value that
is not equal to itself, a not-a-number, is no obstacle; without such values (`Store.Lawful`) both are
equivalences.
-/

namespace ObjectStream

/-! ## Tests that are answered -/

/-- The test is answered, and its answer is whether the proposition holds. -/
def Decides (answer : Option Bool) (p : Prop) : Prop :=
  (answer = some true ∧ p) ∨ (answer = some false ∧ ¬p)

namespace Decides

variable {answer : Option Bool} {p q : Prop}

theorem yes (h : p) : Decides (some true) p := .inl ⟨rfl, h⟩

theorem no (h : ¬p) : Decides (some false) p := .inr ⟨rfl, h⟩

theorem congr (h : Decides answer p) (same : p ↔ q) : Decides answer q := by
  rwa [Decides, ← same]

theorem eq_true_iff (h : Decides answer p) : answer = some true ↔ p := by
  rcases h with ⟨rfl, yes⟩ | ⟨rfl, no⟩
  · simp [yes]
  · simp [no]

theorem ne_none (h : Decides answer p) : answer ≠ none := by
  rcases h with ⟨rfl, -⟩ | ⟨rfl, -⟩ <;> exact nofun

theorem bool (b : Bool) : Decides (some b) (b = true) := by
  cases b with
  | true => exact yes rfl
  | false => exact no nofun

theorem guard {c : Prop} [Decidable c] (h : Decides answer p) :
    Decides (if c then answer else some false) (c ∧ p) := by
  split
  · next holds => exact h.congr (by simp [holds])
  · next fails => exact no fun both => fails both.1

theorem allPass {α : Type} {test : α → Option Bool} {passes : α → Prop} {items : List α}
    (h : ∀ a ∈ items, Decides (test a) (passes a)) :
    Decides (allPass test items) (∀ a ∈ items, passes a) := by
  induction items with
  | nil => exact yes fun _ none => nomatch none
  | cons a rest ih =>
    rw [ObjectStream.allPass]
    rcases h a (List.mem_cons_self ..) with ⟨answer, yes⟩ | ⟨answer, no⟩
    · rw [answer]
      refine (ih fun b mem => h b (List.mem_cons_of_mem a mem)).congr ?_
      rw [List.forall_mem_cons, and_iff_right yes]
    · rw [answer]
      exact .no fun all => no (all a (List.mem_cons_self ..))

end Decides

/-! ## One entry for another -/

/-- Where every item of the one list has a partner in the other, which is as long, and no two have
    the same partner, every item of the other is a partner. -/
theorem exists_of_partners {α β : Type} {R : α → β → Prop} {as : List α} {bs : List β}
    (length : as.length = bs.length) (partner : ∀ a ∈ as, ∃ b ∈ bs, R a b)
    (apart : as.Pairwise fun a a' => ∀ b, R a b → ¬R a' b) : ∀ b ∈ bs, ∃ a ∈ as, R a b := by
  induction as generalizing bs with
  | nil =>
    rw [List.length_nil, eq_comm, List.length_eq_zero_iff] at length
    exact fun b mem => by rw [length] at mem; cases mem
  | cons a rest ih =>
    obtain ⟨b, mem, meets⟩ := partner a (List.mem_cons_self ..)
    obtain ⟨before, after, rfl⟩ := List.append_of_mem mem
    obtain ⟨first, later⟩ := List.pairwise_cons.1 apart
    -- the others have their partners beside that of the first
    have others : ∀ a' ∈ rest, ∃ b' ∈ before ++ after, R a' b' := by
      intro a' mem'
      obtain ⟨b', held, meets'⟩ := partner a' (List.mem_cons_of_mem a mem')
      refine ⟨b', ?_, meets'⟩
      rcases List.mem_append.1 held with held | held
      · exact List.mem_append_left _ held
      · rcases List.mem_cons.1 held with rfl | held
        · exact absurd meets' (first a' mem' b' meets)
        · exact List.mem_append_right _ held
    simp only [List.length_append, List.length_cons] at length
    have found := ih (by rw [List.length_append]; omega) others later
    intro b' held
    rcases List.mem_append.1 held with held | held
    · obtain ⟨a', mem', meets'⟩ := found b' (List.mem_append_left _ held)
      exact ⟨a', List.mem_cons_of_mem a mem', meets'⟩
    · rcases List.mem_cons.1 held with rfl | held
      · exact ⟨a, List.mem_cons_self .., meets⟩
      · obtain ⟨a', mem', meets'⟩ := found b' (List.mem_append_right _ held)
        exact ⟨a', List.mem_cons_of_mem a mem', meets'⟩

/-! ## Lawful values -/

variable {H : Type} [HostObject H] {s : Store H} {P : Value → Prop} {a b c : Value}

namespace Store

/-- The values are among these, and equal. -/
def Same (s : Store H) (P : Value → Prop) (a b : Value) : Prop :=
  P a ∧ P b ∧ s.equal? a b = some true

/-- On these values every comparison ends, and equality is symmetric and transitive. -/
structure Coherent (s : Store H) (P : Value → Prop) : Prop where
  ends : ∀ {a b}, P a → P b → s.equal? a b ≠ none
  symm : ∀ {a b}, s.Same P a b → s.Same P b a
  trans : ∀ {a b c}, s.Same P a b → s.Same P b c → s.Same P a c

/-- On these values every comparison ends, and equality is an equivalence. -/
structure Lawful (s : Store H) (P : Value → Prop) : Prop extends s.Coherent P where
  refl : ∀ {a}, P a → s.Same P a a

/-- A look-up takes the second key for the first. -/
def Meets (s : Store H) (P : Value → Prop) (old key : Value) : Prop :=
  s.imageOf old = s.imageOf key ∧ s.Same P old key

theorem Lawful.meets_refl (lawful : s.Lawful P) (ha : P a) : s.Meets P a a := ⟨rfl, lawful.refl ha⟩

namespace Coherent

variable (coherent : s.Coherent P)
include coherent

theorem decides (ha : P a) (hb : P b) : Decides (s.equal? a b) (s.Same P a b) := by
  cases answer : s.equal? a b with
  | none => exact absurd answer (coherent.ends ha hb)
  | some same =>
    refine (Decides.bool same).congr ⟨?_, ?_⟩
    · rintro rfl
      exact ⟨ha, hb, answer⟩
    · exact fun same' => Option.some.inj (answer.symm.trans same'.2.2)

theorem equal?_comm (ha : P a) (hb : P b) : s.equal? a b = s.equal? b a := by
  rcases coherent.decides ha hb with ⟨answer, same⟩ | ⟨answer, differ⟩
  · rw [answer, (coherent.symm same).2.2]
  · rcases coherent.decides hb ha with ⟨answer', same⟩ | ⟨answer', -⟩
    · exact absurd (coherent.symm same) differ
    · rw [answer, answer']

theorem equal?_congr (same : s.Same P a b) (hc : P c) :
    s.equal? a c = s.equal? b c := by
  rcases coherent.decides same.1 hc with ⟨answer, same'⟩ | ⟨answer, differ⟩
  · rw [answer, (coherent.trans (coherent.symm same) same').2.2]
  · rcases coherent.decides same.2.1 hc with ⟨answer', same'⟩ | ⟨answer', -⟩
    · exact absurd (coherent.trans same same') differ
    · rw [answer, answer']

theorem meets_symm (h : s.Meets P a b) : s.Meets P b a := ⟨h.1.symm, coherent.symm h.2⟩

theorem meets_trans (h : s.Meets P a b) (h' : s.Meets P b c) : s.Meets P a c :=
  ⟨h.1.trans h'.1, coherent.trans h.2 h'.2⟩

/-- Two keys that a table tells apart are not met by the same key. -/
theorem not_meets_both (differ : s.Differ True a b) (h : s.Meets P c a) : ¬s.Meets P c b := by
  intro h'
  obtain ⟨image, -, -, same⟩ := coherent.meets_trans (coherent.meets_symm h) h'
  rcases differ with apart | apart | ⟨partly, -⟩
  · exact apart image
  · rw [apart] at same
    cases same
  · exact partly trivial

end Coherent

end Store

/-! ## Tables -/

/-- The table tells its keys apart, and its keys and contents are among these. -/
structure Keyed.Settled {α : Type} (t : Keyed α) (s : Store H) (P : Value → Prop) (Q : α → Prop) :
    Prop where
  orderly : t.Orderly s True
  keys : ∀ e ∈ t.entries.toList, P e.1
  contents : ∀ e ∈ t.entries.toList, Q e.2

/-- The tables are of one size, and every entry of the first meets one of the second. -/
def Matched {α : Type} (s : Store H) (P : Value → Prop) (R : α → α → Prop) (t u : Keyed α) : Prop :=
  t.size = u.size ∧ ∀ e ∈ t.entries.toList, ∃ e' ∈ u.entries.toList, s.Meets P e'.1 e.1 ∧ R e'.2 e.2

section
variable {α : Type} {t u w : Keyed α} {Q : α → Prop} {R : α → α → Prop}

/-- Of the entries of a table at most one meets a key. -/
theorem Keyed.Settled.unique (h : t.Settled s P Q) (coherent : s.Coherent P) {key : Value}
    {e e' : Value × α} (mem : e ∈ t.entries.toList) (mem' : e' ∈ t.entries.toList)
    (meets : s.Meets P e.1 key) (meets' : s.Meets P e'.1 key) : e = e' := by
  have differ := h.orderly.distinct
  rw [Keyed.keys, List.pairwise_map] at differ
  obtain ⟨i, inside, rfl⟩ := List.getElem_of_mem mem
  obtain ⟨j, inside', rfl⟩ := List.getElem_of_mem mem'
  have pair := List.pairwise_iff_getElem.1 differ
  have back := coherent.meets_symm meets
  have back' := coherent.meets_symm meets'
  -- keys at different places are told apart, whichever of them was put in first
  rcases Nat.lt_trichotomy i j with less | rfl | less
  · exact absurd back' (coherent.not_meets_both (pair i j inside inside' less) back)
  · rfl
  · exact absurd back (coherent.not_meets_both (pair j i inside' inside less) back')

namespace Matched

theorem refl (lawful : s.Lawful P) (h : t.Settled s P Q) (refl : ∀ c, Q c → R c c) :
    Matched s P R t t :=
  ⟨rfl, fun e mem => ⟨e, mem, lawful.meets_refl (h.keys e mem), refl e.2 (h.contents e mem)⟩⟩

theorem symm (coherent : s.Coherent P) (h : t.Settled s P Q) (symm : ∀ c d, R c d → R d c)
    (matched : Matched s P R t u) : Matched s P R u t := by
  have differ := h.orderly.distinct
  rw [Keyed.keys, List.pairwise_map] at differ
  refine ⟨matched.1.symm, fun e mem => ?_⟩
  obtain ⟨e', mem', meets, same⟩ := exists_of_partners matched.1 matched.2
    (differ.imp fun apart e meets meets' => coherent.not_meets_both apart meets.1 meets'.1) e mem
  exact ⟨e', mem', coherent.meets_symm meets, symm _ _ same⟩

theorem trans (coherent : s.Coherent P) (trans : ∀ c d e, R c d → R d e → R c e)
    (matched : Matched s P R t u) (matched' : Matched s P R u w) : Matched s P R t w := by
  refine ⟨matched.1.trans matched'.1, fun e mem => ?_⟩
  obtain ⟨e', mem', meets, same⟩ := matched.2 e mem
  obtain ⟨e'', mem'', meets', same'⟩ := matched'.2 e' mem'
  exact ⟨e'', mem'', coherent.meets_trans meets' meets, trans _ _ _ same' same⟩

/-- The order of the entries does not matter. -/
theorem of_perm (lawful : s.Lawful P) (h : t.Settled s P Q) (refl : ∀ c, Q c → R c c)
    (perm : t.entries.toList.Perm u.entries.toList) : Matched s P R t u :=
  ⟨by simpa [Keyed.size] using perm.length_eq, fun e mem =>
    ⟨e, perm.mem_iff.1 mem, lawful.meets_refl (h.keys e mem), refl e.2 (h.contents e mem)⟩⟩

end Matched

namespace Store

/-- A look-up ends at the entry that meets the key, if there is one. -/
theorem keyPlace_cases (coherent : s.Coherent P) (h : t.Settled s P Q) {key : Value} (known : P key)
    (hashable : ∃ image, s.image none key = .ok image) :
    (∃ i e, s.keyPlace none s.equal? t key = some (some i) ∧ t.entries[i]? = some e ∧
        e ∈ t.entries.toList ∧ s.Meets P e.1 key) ∨
      (s.keyPlace none s.equal? t key = some none ∧ ∀ e ∈ t.entries.toList, ¬s.Meets P e.1 key) := by
  obtain ⟨image, hash⟩ := hashable
  rcases Keyed.find_cases (p := HostObject.probing H) h.orderly.filed image
      (fun old => s.equal? old key) with
    ⟨i, e, found, here, filed, same⟩ | ⟨found, refused⟩ | ⟨-, k, mem, -, unanswered⟩
  · have held : e ∈ t.entries.toList := Array.mem_toList_iff.2 (Array.mem_of_getElem? here)
    have filed : s.imageOf e.1 = s.imageOf key := filed.trans (imageOf_eq hash).symm
    refine .inl ⟨i, e, ?_, here, held, filed, h.keys e held, known, same⟩
    simp only [keyPlace, placeBy, hash, found, bind, Except.bind]
  · refine .inr ⟨?_, fun e mem meets => ?_⟩
    · simp only [keyPlace, placeBy, hash, found, bind, Except.bind]
    · have refused := refused e.1 (List.mem_map_of_mem mem) (meets.1.trans (imageOf_eq hash))
      rw [meets.2.2.2] at refused
      cases refused
  · obtain ⟨e, held, rfl⟩ := List.mem_map.1 mem
    exact absurd unanswered (coherent.ends (h.keys e held) known)

theorem decides_sameDict (coherent : s.Coherent P) {t u : Dict} (ht : t.Settled s P P)
    (hu : u.Settled s P P) : Decides (s.sameDict s.equal? t u) (Matched s P (s.Same P) t u) := by
  refine Decides.guard (Decides.allPass fun e mem => ?_)
  have hashable := ht.orderly.hashable e.1 (List.mem_map_of_mem mem)
  rcases keyPlace_cases coherent hu (ht.keys e mem) hashable with
    ⟨i, e', place, here, held, meets⟩ | ⟨place, alone⟩
  · simp only [place, Keyed.at?, here, Option.map_some]
    refine (coherent.decides (hu.contents e' held) (ht.contents e mem)).congr ⟨?_, ?_⟩
    · exact fun same => ⟨e', held, meets, same⟩
    -- the entry that was found is the only one that meets the key
    · rintro ⟨e'', held', meets', same⟩
      rwa [hu.unique coherent held held' meets meets']
  · simp only [place]
    refine .no ?_
    rintro ⟨e', held, meets, -⟩
    exact alone e' held meets

theorem decides_sameMembers (coherent : s.Coherent P) {t u : Members}
    (ht : t.Settled s P fun _ => True) (hu : u.Settled s P fun _ => True) :
    Decides (s.sameMembers s.equal? t u) (Matched s P (fun _ _ => True) t u) := by
  refine Decides.guard (Decides.congr
    (p := ∀ k ∈ t.keys, ∃ e' ∈ u.entries.toList, s.Meets P e'.1 k ∧ True)
    (Decides.allPass fun k mem => ?_) ?_)
  · obtain ⟨e, held, rfl⟩ := List.mem_map.1 mem
    rcases keyPlace_cases coherent hu (ht.keys e held) (ht.orderly.hashable e.1 mem) with
      ⟨i, e', place, -, held, meets⟩ | ⟨place, alone⟩
    · simp only [place]
      exact .yes ⟨e', held, meets, trivial⟩
    · simp only [place]
      refine .no ?_
      rintro ⟨e', held, meets, -⟩
      exact alone e' held meets
  · rw [Keyed.keys, List.forall_mem_map]

end Store

end

end ObjectStream
