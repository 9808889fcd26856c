import Mathlib.Data.Finset.Card
import Mathlib.Data.Finset.Prod
import ObjectStream.Equality

/-!
The fuel of comparisons.

A comparison with more fuel keeps its answers (`equalWithin_mono`). Two objects are compared inside
their own comparison as soon as it goes deeper than there are pairs of objects, so `equalFor` answers
whenever any fuel does (`equalFor_eq_some_iff`), and where it gives no answer no fuel does
(`equalFor_eq_none_iff`). So it is a fixed point of a step of the comparison (`equalFor_eq_sameBy`).
-/

namespace ObjectStream

/-- Whatever `f` answers, `g` answers the same. -/
def Extends (f g : Value → Value → Option Bool) : Prop :=
  ∀ a b r, f a b = some r → g a b = some r

theorem allPass_mono {α : Type} {f g : α → Option Bool} {items : List α} {r : Bool}
    (hfg : ∀ a ∈ items, ∀ x, f a = some x → g a = some x) (h : allPass f items = some r) :
    allPass g items = some r := by
  induction items with
  | nil => exact h
  | cons a rest ih =>
    have later := ih fun b hb => hfg b (List.mem_cons_of_mem a hb)
    simp only [allPass] at h ⊢
    cases hf : f a with
    | none => rw [hf] at h; cases h
    | some x =>
      rw [hfg a (List.mem_cons_self ..) x hf]
      rw [hf] at h
      cases x with
      | false => exact h
      | true => exact later h

theorem Keyed.firstPlace_mono {f g : Nat → Option Bool} {places : List Nat} {r : Option Nat}
    (hfg : ∀ i ∈ places, ∀ x, f i = some x → g i = some x) (h : firstPlace f places = some r) :
    firstPlace g places = some r := by
  induction places with
  | nil => exact h
  | cons i rest ih =>
    have later := ih fun j hj => hfg j (List.mem_cons_of_mem i hj)
    simp only [firstPlace] at h ⊢
    cases hf : f i with
    | none => rw [hf] at h; cases h
    | some x =>
      rw [hfg i (List.mem_cons_self ..) x hf]
      rw [hf] at h
      cases x with
      | false => exact later h
      | true => exact h

theorem Keyed.find_mono {α : Type} {t : Keyed α} {p : Probing} {image : Array UInt8}
    {f g : Value → Option Bool} {r : Option Nat} (hfg : ∀ v x, f v = some x → g v = some x)
    (h : t.find p image f = some r) : t.find p image g = some r := by
  refine firstPlace_mono (fun i _ x hx => ?_) h
  split at hx
  · exact hfg _ x hx
  · exact hx

namespace Store

variable {H : Type} [HostObject H] {s : Store H} {holder : Option Nat}

theorem keyPlace_mono {α : Type} {f g : Value → Value → Option Bool} (hfg : Extends f g)
    {t : Keyed α} {key : Value} {r : Option Nat} (h : s.keyPlace holder f t key = some r) :
    s.keyPlace holder g t key = some r := by
  unfold keyPlace placeBy at h ⊢
  cases hi : s.image holder key with
  | error e => rw [hi] at h; exact h
  | ok image =>
    simp only [hi, bind, Except.bind] at h ⊢
    cases hf : t.find (HostObject.probing H) image (fun old => f old key) with
    | none => rw [hf] at h; cases h
    | some place =>
      rw [hf] at h
      rw [Keyed.find_mono (fun v x => hfg v key x) hf]
      exact h

theorem sameItems_mono {f g : Value → Value → Option Bool} (hfg : Extends f g)
    {a b : List Value} {r : Bool} (h : sameItems f a b = some r) : sameItems g a b = some r := by
  unfold sameItems at h ⊢
  split at h
  · next hl => rw [if_pos hl]; exact allPass_mono (fun p _ x hx => hfg p.1 p.2 x hx) h
  · next hl => rw [if_neg hl]; exact h

theorem sameDictFor_mono {f g : Value → Value → Option Bool} (hfg : Extends f g)
    {a b : Dict} {r : Bool} (h : s.sameDictFor holder f a b = some r) :
    s.sameDictFor holder g a b = some r := by
  unfold sameDictFor at h ⊢
  split at h
  · next hs =>
    rw [if_pos hs]
    refine allPass_mono (fun e _ x hx => ?_) h
    cases hk : s.keyPlace holder f b e.1 with
    | none => simp only [hk] at hx; cases hx
    | some place =>
      simp only [hk, keyPlace_mono hfg hk] at hx ⊢
      cases place with
      | none => exact hx
      | some i =>
        simp only at hx ⊢
        cases hc : b.at? i with
        | none => simpa only [hc] using hx
        | some other => simp only [hc] at hx ⊢; exact hfg other e.2 x hx
  · next hs => rw [if_neg hs]; exact h

theorem sameMembersFor_mono {f g : Value → Value → Option Bool} (hfg : Extends f g)
    {a b : Members} {r : Bool} (h : s.sameMembersFor holder f a b = some r) :
    s.sameMembersFor holder g a b = some r := by
  unfold sameMembersFor at h ⊢
  split at h
  · next hs =>
    rw [if_pos hs]
    refine allPass_mono (fun key _ x hx => ?_) h
    cases hk : s.keyPlace holder f b key with
    | none => simp only [hk] at hx; cases hx
    | some place => simp only [hk, keyPlace_mono hfg hk] at hx ⊢; exact hx
  · next hs => rw [if_neg hs]; exact h

theorem sameCells_mono {f g : Value → Value → Option Bool} (hfg : Extends f g)
    {x y : Cell H} {r : Bool} (h : s.sameCells holder f x y = some r) :
    s.sameCells holder g x y = some r := by
  unfold sameCells at h ⊢
  split at h
  · exact h
  · exact sameItems_mono hfg h
  · exact sameItems_mono hfg h
  · exact sameDictFor_mono hfg h
  · exact sameMembersFor_mono hfg h
  · exact sameMembersFor_mono hfg h
  · exact sameMembersFor_mono hfg h
  · exact sameMembersFor_mono hfg h
  · exact h
  · split at h
    · next hc => rw [if_pos hc]; exact sameDictFor_mono hfg h
    · next hc => rw [if_neg hc]; exact h
  · split at h
    · next ht =>
      rw [if_pos ht]
      split at h
      · exact allPass_mono (fun p _ x hx => hfg p.1 p.2 x hx) h
      · exact h
    · next ht => rw [if_neg ht]; exact h
  · exact h

theorem sameBy_mono {f g : Value → Value → Option Bool} (hfg : Extends f g)
    {a b : Value} {r : Bool} (h : s.sameBy holder f a b = some r) : s.sameBy holder g a b = some r := by
  unfold sameBy at h ⊢
  split at h <;> try exact h
  · split at h
    · next hij => rw [if_pos hij]; exact h
    · next hij =>
      rw [if_neg hij]
      split at h
      · split at h
        · cases h
        · next free =>
          rw [if_neg free]
          exact sameCells_mono hfg h
      · exact h

/-! ## More fuel keeps every answer -/

theorem equalWithin_succ {n : Nat} : Extends (s.equalWithin holder n) (s.equalWithin holder (n + 1)) := by
  induction n with
  | zero => intro a b r h; cases h
  | succ n ih =>
    intro a b r h
    unfold equalWithin at h ⊢
    split at h
    · exact h
    · exact sameBy_mono ih h

theorem equalWithin_mono {n m : Nat} (h : n ≤ m) :
    Extends (s.equalWithin holder n) (s.equalWithin holder m) := by
  induction m, h using Nat.le_induction with
  | base => exact fun _ _ _ h => h
  | succ m _ ih => exact fun a b r h => equalWithin_succ a b r (ih a b r h)

/-- Two amounts of fuel never give different answers. -/
theorem equalWithin_unique {n m : Nat} {a b : Value} {x y : Bool}
    (hx : s.equalWithin holder n a b = some x) (hy : s.equalWithin holder m a b = some y) : x = y := by
  have hx := equalWithin_mono (Nat.le_max_left n m) a b x hx
  have hy := equalWithin_mono (Nat.le_max_right n m) a b y hy
  exact Option.some.inj (hx.symm.trans hy)

/-! ## Enough fuel -/

/-- The pairs of objects whose comparison ends within the fuel. -/
def answered (s : Store H) (holder : Option Nat) (fuel : Nat) : Finset (Nat × Nat) :=
  (Finset.range s.size ×ˢ Finset.range s.size).filter fun p =>
    (s.equalWithin holder fuel (.ref p.1) (.ref p.2)).isSome

theorem answered_succ (s : Store H) (holder : Option Nat) (n : Nat) :
    s.answered holder n ⊆ s.answered holder (n + 1) := by
  intro p hp
  simp only [answered, Finset.mem_filter] at hp ⊢
  refine ⟨hp.1, ?_⟩
  obtain ⟨r, hr⟩ := Option.isSome_iff_exists.1 hp.2
  rw [equalWithin_succ _ _ r hr]
  rfl

theorem card_answered_le (s : Store H) (holder : Option Nat) (n : Nat) :
    (s.answered holder n).card ≤ s.size * s.size := by
  have h := Finset.card_le_card (Finset.filter_subset
    (fun p : Nat × Nat => (s.equalWithin holder n (.ref p.1) (.ref p.2)).isSome)
    (Finset.range s.size ×ˢ Finset.range s.size))
  simpa [answered, Finset.card_product] using h

/-- Only the comparison of two objects in the store looks at comparisons inside it. -/
theorem equalWithin_cases (s : Store H) (holder : Option Nat) (a b : Value) :
    (∃ r, ∀ n, s.equalWithin holder (n + 1) a b = some r) ∨
      ∃ i j, a = .ref i ∧ b = .ref j ∧ i < s.size ∧ j < s.size := by
  by_cases pair : ∃ i j, a = .ref i ∧ b = .ref j
  · obtain ⟨i, j, rfl, rfl⟩ := pair
    by_cases range : i < s.size ∧ j < s.size
    · exact .inr ⟨i, j, rfl, rfl, range⟩
    · left
      by_cases hij : i = j
      · exact ⟨true, fun n => by simp [equalWithin, Number.ofValue?, sameBy, hij]⟩
      · refine ⟨false, fun n => ?_⟩
        have missing : s.cells[i]? = none ∨ s.cells[j]? = none := by
          simp only [Array.getElem?_eq_none_iff, Store.size] at range ⊢
          omega
        rcases missing with hi | hj
        · simp [equalWithin, Number.ofValue?, sameBy, hij, hi]
        · simp [equalWithin, Number.ofValue?, sameBy, hij, hj]
  · left
    cases hx : Number.ofValue? a with
    | some x =>
      cases hy : Number.ofValue? b with
      | some y => exact ⟨x.same y, fun n => by simp [equalWithin, hx, hy]⟩
      | none => cases a <;> cases b <;> simp_all [equalWithin, Number.ofValue?, sameBy]
    | none =>
      cases a <;> cases b <;> simp_all [equalWithin, Number.ofValue?, sameBy]
      all_goals
        split
        · simp only [Option.some.injEq, beq_eq_false_iff_ne, beq_iff_eq]
          exact (Classical.em _).symm
        · simp

/-- If more fuel answers no further pair of objects, it answers nothing further. -/
theorem equalWithin_congr {n m : Nat} (hnm : n ≤ m)
    (h : s.answered holder (n + 1) = s.answered holder (m + 1)) :
    s.equalWithin holder (n + 1) = s.equalWithin holder (m + 1) := by
  funext a b
  rcases s.equalWithin_cases holder a b with ⟨r, hr⟩ | ⟨i, j, rfl, rfl, hi, hj⟩
  · rw [hr n, hr m]
  · cases hm : s.equalWithin holder (m + 1) (.ref i) (.ref j) with
    | some r =>
      have later : (i, j) ∈ s.answered holder (m + 1) := by simp [answered, hi, hj, hm]
      rw [← h] at later
      obtain ⟨x, hx⟩ := Option.isSome_iff_exists.1 (Finset.mem_filter.1 later).2
      rw [hx, ← hm]
      exact (equalWithin_mono (Nat.succ_le_succ hnm) _ _ x hx).symm
    | none =>
      cases hn : s.equalWithin holder (n + 1) (.ref i) (.ref j) with
      | none => rfl
      | some r =>
        rw [equalWithin_mono (Nat.succ_le_succ hnm) _ _ r hn] at hm
        cases hm

/-- One step of fuel that answers nothing further is followed by no other. -/
theorem equalWithin_stable {n : Nat} (h : s.equalWithin holder n = s.equalWithin holder (n + 1)) {m : Nat}
    (hm : n ≤ m) : s.equalWithin holder m = s.equalWithin holder n := by
  have step : ∀ k, s.equalWithin holder (n + k) = s.equalWithin holder (n + k + 1) := by
    intro k
    induction k with
    | zero => exact h
    | succ k ih =>
      funext a b
      rw [← Nat.add_assoc, equalWithin, equalWithin, ← ih]
  obtain ⟨k, rfl⟩ := Nat.exists_eq_add_of_le hm
  induction k with
  | zero => rfl
  | succ k ih => rw [← Nat.add_assoc, ← step k, ih (Nat.le_add_right n k)]

/-- The answered pairs stop growing before there are more of them than pairs of objects. -/
theorem exists_answered_eq (s : Store H) (holder : Option Nat) :
    ∃ n ≤ s.size * s.size, s.answered holder (n + 1) = s.answered holder (n + 2) := by
  by_contra grows
  push Not at grows
  have count : ∀ n ≤ s.size * s.size + 1, n ≤ (s.answered holder (n + 1)).card := by
    intro n hn
    induction n with
    | zero => exact Nat.zero_le _
    | succ n ih =>
      have more := Finset.card_lt_card
        ((s.answered_succ holder (n + 1)).ssubset_of_ne (grows n (by omega)))
      have := ih (by omega)
      omega
  have := count (s.size * s.size + 1) (Nat.le_refl _)
  have := s.card_answered_le holder (s.size * s.size + 1 + 1)
  omega

/-- The fuel of `equalFor` is where one step more answers nothing further. -/
theorem exists_equalWithin_eq (s : Store H) (holder : Option Nat) : ∃ n,
    s.equalFor holder = s.equalWithin holder n ∧
      s.equalWithin holder n = s.equalWithin holder (n + 1) := by
  obtain ⟨n, hn, same⟩ := s.exists_answered_eq holder
  have stop := equalWithin_congr (Nat.le_succ n) same
  refine ⟨n + 1, ?_, stop⟩
  funext a b
  unfold equalFor
  rw [equalWithin_stable stop (by omega)]

/-- The fuel of `equalFor` is enough: it answers as any fuel does. -/
theorem equalFor_eq_some_iff {a b : Value} {r : Bool} :
    s.equalFor holder a b = some r ↔ ∃ fuel, s.equalWithin holder fuel a b = some r := by
  refine ⟨fun h => ⟨_, h⟩, fun ⟨fuel, h⟩ => ?_⟩
  obtain ⟨n, enough, stop⟩ := s.exists_equalWithin_eq holder
  rw [enough]
  by_cases hf : fuel ≤ n
  · exact equalWithin_mono hf a b r h
  · rwa [← equalWithin_stable stop (Nat.le_of_not_le hf)]

/-- Where `equalFor` gives no answer, no fuel does. -/
theorem equalFor_eq_none_iff {a b : Value} :
    s.equalFor holder a b = none ↔ ∀ fuel, s.equalWithin holder fuel a b = none := by
  constructor
  · intro h fuel
    cases hf : s.equalWithin holder fuel a b with
    | none => rfl
    | some r => rw [equalFor_eq_some_iff.2 ⟨fuel, hf⟩] at h; cases h
  · exact fun h => h _

/-! ## One step of a comparison -/

/-- Values that are not both numbers are compared by what they hold, with `equalFor` itself. -/
theorem equalFor_eq_sameBy {a b : Value}
    (h : Number.ofValue? a = none ∨ Number.ofValue? b = none) :
    s.equalFor holder a b = s.sameBy holder (s.equalFor holder) a b := by
  obtain ⟨n, enough, stop⟩ := s.exists_equalWithin_eq holder
  calc s.equalFor holder a b = s.equalWithin holder (n + 1) a b := by rw [enough, stop]
    _ = s.sameBy holder (s.equalWithin holder n) a b := by
      rw [equalWithin]
      rcases h with h | h
      · simp only [h]
      · cases Number.ofValue? a <;> simp only [h]
    _ = s.sameBy holder (s.equalFor holder) a b := by rw [enough]

theorem equal?_of_numbers {a b : Value} {x y : Number} (ha : Number.ofValue? a = some x)
    (hb : Number.ofValue? b = some y) : s.equal? a b = some (x.same y) := by
  simp only [equal?, equalFor, equalWithin, ha, hb]

/-- Nothing is filled where values are asked whether they are equal. -/
@[simp] theorem equalFor_none (s : Store H) : s.equalFor none = s.equal? := rfl

@[simp] theorem sameBy_none_refs {same : Value → Value → Option Bool} {i j : Nat} {x y : Cell H}
    (apart : i ≠ j) (here : s.cells[i]? = some x) (there : s.cells[j]? = some y) :
    s.sameBy none same (.ref i) (.ref j) = s.sameCells none same x y := by
  simp only [sameBy, if_neg apart, here, there, reduceCtorEq, false_or, false_and, if_false]

theorem equal?_eq_some_iff {a b : Value} {r : Bool} :
    s.equal? a b = some r ↔ ∃ fuel, s.equalWithin none fuel a b = some r := equalFor_eq_some_iff

theorem equal?_eq_none_iff {a b : Value} :
    s.equal? a b = none ↔ ∀ fuel, s.equalWithin none fuel a b = none := equalFor_eq_none_iff

theorem equal?_eq_sameBy {a b : Value} (h : Number.ofValue? a = none ∨ Number.ofValue? b = none) :
    s.equal? a b = s.sameBy none s.equal? a b := equalFor_eq_sameBy h

end Store

end ObjectStream
