import Mathlib.Data.List.Permutation
import Mathlib.Data.Set.Card
import ObjectStream.Proofs.Forms
import ObjectStream.Proofs.Knots

/-!
Equality is an equivalence.

A value is regular if no object behind it leads back to itself, there is no not-a-number, global or
host object among them, and their tables tell their keys apart (`Store.Regular`). Objects are sorted
into levels by what they hold (`Store.Stratum`): where equality is an equivalence on one level, it is
on the next (`Lawful.above`), and every regular value is on some level (`Regular.stratum`). So on
regular values equality is an equivalence, whatever the order of insertion (`equal?_equivalence`).

A key that is changed while it is in a table may come to equal another one there, and a key that is
put into a table while it is being filled is filed where no look-up meets it. In both cases a
comparison depends on which side is asked (`equal?_lopsided`).
-/

namespace ObjectStream

variable {H : Type} [HostObject H] {s : Store H} {P : Value → Prop} {a b c : Value}

namespace Store

theorem Above.agree_refl (lawful : s.Lawful P) (ha : s.Above P a) :
    Form.Agree s P (s.form a) (s.form a) := by
  cases a with
  | none => exact .none
  | bool | int | long | float | complex => exact .number rfl
  | str text => exact .text text
  | bytes data => exact .bytes data
  | emptyTuple => exact .tuple .nil
  | ref i =>
    obtain ⟨cell, found, level⟩ := ha.object i rfl
    rw [form_of_cell found]
    exact level.agree_refl lawful

/-- Equality is an equivalence one level further up. -/
theorem Lawful.above (classed : s.Classed) (lawful : s.Lawful P) : s.Lawful (s.Above P) where
  ends ha hb := (decides_equal? classed lawful ha hb).ne_none
  refl ha := ⟨ha, ha, (decides_equal? classed lawful ha ha).eq_true_iff.2 (ha.agree_refl lawful)⟩
  symm := by
    rintro a b ⟨ha, hb, same⟩
    have agree := (decides_equal? classed lawful ha hb).eq_true_iff.1 same
    exact ⟨hb, ha, (decides_equal? classed lawful hb ha).eq_true_iff.2 (agree.symm lawful.toCoherent)⟩
  trans := by
    rintro a b c ⟨ha, hb, same⟩ ⟨-, hc, same'⟩
    have agree := (decides_equal? classed lawful ha hb).eq_true_iff.1 same
    have agree' := (decides_equal? classed lawful hb hc).eq_true_iff.1 same'
    exact ⟨ha, hc,
      (decides_equal? classed lawful ha hc).eq_true_iff.2 (agree.trans lawful.toCoherent agree')⟩

/-! ## Levels of objects -/

/-- The values whose objects are nested less than `n` deep. -/
def Stratum (s : Store H) : Nat → Value → Prop
  | 0 => fun _ => False
  | n + 1 => s.Above (s.Stratum n)

theorem Above.mono {Q : Value → Prop} (h : ∀ v, P v → Q v) (ha : s.Above P a) : s.Above Q a where
  object i same := by
    obtain ⟨cell, found, level⟩ := ha.object i same
    exact ⟨cell, found, level.plain, level.orderly, fun v mem => h v (level.children v mem)⟩
  proper := ha.proper

theorem Stratum.mono {n m : Nat} (h : n ≤ m) (ha : s.Stratum n a) : s.Stratum m a := by
  induction n generalizing m a with
  | zero => exact absurd ha id
  | succ n ih =>
    obtain ⟨m, rfl⟩ := Nat.exists_eq_succ_of_ne_zero (Nat.ne_zero_of_lt h)
    exact Above.mono (fun v => ih (Nat.le_of_succ_le_succ h)) ha

theorem lawful_stratum (classed : s.Classed) (n : Nat) : s.Lawful (s.Stratum n) := by
  induction n with
  | zero => exact ⟨⟨fun ha => absurd ha id, fun h => absurd h.1 id, fun h => absurd h.1 id⟩,
      fun ha => absurd ha id⟩
  | succ n ih => exact ih.above classed

/-- An acyclic graph without a not-a-number, a global or a host object, whose tables tell their keys
    apart. -/
structure Regular (s : Store H) (v : Value) : Prop where
  object : ∀ i, s.Reaches v (.ref i) →
    ∃ cell, s.cells[i]? = some cell ∧ cell.Plain (fun _ => True) ∧ cell.Orderly s True
  acyclic : ∀ {i cell u}, s.Reaches v (.ref i) → s.cells[i]? = some cell → u ∈ cell.children →
    ¬s.Reaches u (.ref i)
  proper : ∀ {w x}, s.Reaches v w → Number.ofValue? w = some x → x.Proper

namespace Regular

theorem reaches (h : s.Regular a) (reach : s.Reaches a b) : s.Regular b :=
  ⟨fun i inside => h.object i (reach.trans inside),
    fun inside found held => h.acyclic (reach.trans inside) found held,
    fun inside number => h.proper (reach.trans inside) number⟩

theorem reached_subset (h : s.Regular a) :
    {i | s.Reaches a (.ref i)} ⊆ (Finset.range s.size : Set Nat) := by
  intro i inside
  obtain ⟨cell, found, -⟩ := h.object i inside
  exact Finset.mem_coe.2 (Finset.mem_range.2 (lt_size_of_cell found))

theorem of_atom (atom : ∀ i, a ≠ .ref i) (proper : ∀ x, Number.ofValue? a = some x → x.Proper) :
    s.Regular a where
  object i inside := absurd (inside.eq_of_atom atom).symm (atom i)
  acyclic inside := absurd (inside.eq_of_atom atom).symm (atom _)
  proper inside number := by
    rw [inside.eq_of_atom atom] at number
    exact proper _ number

/-- An object is regular if it is so itself, and holds regular values that do not lead back to it. -/
theorem of_cell {i : Nat} {cell : Cell H} (found : s.cells[i]? = some cell)
    (plain : cell.Plain fun _ => True) (orderly : cell.Orderly s True)
    (children : ∀ u ∈ cell.children, s.Regular u ∧ ¬s.Reaches u (.ref i)) : s.Regular (.ref i) where
  object j inside := by
    rcases inside.ref_cases found with same | ⟨u, held, inside⟩
    · cases same
      exact ⟨cell, found, plain, orderly⟩
    · exact (children u held).1.object j inside
  acyclic inside found' held' := by
    rcases inside.ref_cases found with same | ⟨u, held, inside⟩
    · cases same
      obtain rfl := Option.some.inj (found.symm.trans found')
      exact (children _ held').2
    · exact (children u held).1.acyclic inside found' held'
  proper inside number := by
    rcases inside.ref_cases found with rfl | ⟨u, held, inside⟩
    · cases number
    · exact (children u held).1.proper inside number

/-- A regular value is on the level that counts the objects it reaches. -/
theorem stratum (h : s.Regular a) : s.Stratum ({i | s.Reaches a (.ref i)}.ncard + 1) a := by
  generalize count : {i | s.Reaches a (.ref i)}.ncard = n
  induction n using Nat.strong_induction_on generalizing a with
  | _ n ih =>
    refine ⟨?_, fun x number => h.proper .self number⟩
    rintro i rfl
    obtain ⟨cell, found, plain, orderly⟩ := h.object i .self
    refine ⟨cell, found, plain, orderly, fun u held => ?_⟩
    -- the object itself is no more among those that a child reaches
    have fewer : {j | s.Reaches u (.ref j)}.ncard < n := by
      rw [← count]
      refine Set.ncard_lt_ncard ⟨fun j inside => .of_child found held inside, fun all => ?_⟩
        ((Finset.finite_toSet _).subset h.reached_subset)
      exact h.acyclic .self found held (all .self)
    exact (ih _ fewer (h.reaches (.child .self found held)) rfl).mono fewer

/-- All regular values are on the level above as many objects as there are. -/
theorem top (h : s.Regular a) : s.Stratum (s.size + 1) a := by
  refine h.stratum.mono (Nat.succ_le_succ ?_)
  have most := Set.ncard_le_ncard h.reached_subset (Finset.finite_toSet _)
  rwa [Set.ncard_coe_finset, Finset.card_range] at most

end Regular

end Store

/-! ## Tables with two keys -/

namespace Keyed

variable {α : Type} {p : Probing} {i j : Array UInt8} {e e' : Value × α}

/-- Two entries, put into a table one after the other. -/
def pair (i j : Array UInt8) (e e' : Value × α) : Keyed α :=
  (Keyed.empty.put none i e.1 e.2).put none j e'.1 e'.2

theorem orderly_pair (hash : s.image none e.1 = .ok i) (hash' : s.image none e'.1 = .ok j)
    (differ : s.Differ True e.1 e'.1) : (pair i j e e').Orderly s True := by
  have keys : (pair i j e e').keys = [e.1, e'.1] := rfl
  refine ⟨?_, ?_, ?_⟩
  · rw [keys]
    rintro key mem
    rcases List.mem_pair.1 mem with rfl | rfl
    · exact ⟨i, hash⟩
    · exact ⟨j, hash'⟩
  · rw [keys, List.map_cons, List.map_singleton, Store.imageOf_eq hash, Store.imageOf_eq hash']
    exact (files_empty.put rfl i e.1 e.2).put rfl j e'.1 e'.2
  · rw [keys, List.pairwise_pair]
    exact differ

/-- Keys with one image are asked in one order or the other. -/
theorem met_pair : (pair i i e e').met p i = [0, 1] ∨ (pair i i e e').met p i = [1, 0] := by
  have perm := p.perm (fun image => (pair i i e e').index.getD image []) i
  have index : (pair i i e e').index.getD i [] = [0, 1] := by simp [pair, put, Keyed.empty]
  rw [index] at perm
  exact List.perm_pair.1 perm

/-- The first key is refused, and the second one settles what is found. -/
theorem find_pair {same : Value → Option Bool} (h : same e.1 = some false) :
    (pair i i e e').find p i same = (same e'.1).map fun found => if found then some 1 else none := by
  have first : (pair i i e e').entries[0]? = some e := rfl
  have second : (pair i i e e').entries[1]? = some e' := rfl
  rcases (met_pair : (pair i i e e').met p i = _ ∨ _) with order | order <;>
    rw [find, order] <;> simp only [firstPlace, first, second, h]
  all_goals
    cases same e'.1 with
    | none => rfl
    | some found => cases found <;> rfl

/-- The first key is accepted, and the second one may be met before it. -/
theorem find_pair_first {same : Value → Option Bool} {answer : Bool} (h : same e.1 = some true)
    (h' : same e'.1 = some answer) : ∃ place, (pair i i e e').find p i same = some (some place) := by
  have first : (pair i i e e').entries[0]? = some e := rfl
  have second : (pair i i e e').entries[1]? = some e' := rfl
  rcases (met_pair : (pair i i e e').met p i = _ ∨ _) with order | order <;>
    rw [find, order] <;> simp only [firstPlace, first, second, h, h']
  · exact ⟨0, rfl⟩
  · cases answer with
    | true => exact ⟨1, rfl⟩
    | false => exact ⟨0, rfl⟩

end Keyed

/-! ## The equivalence -/

namespace Store

/-- On regular values a comparison always ends, equality is reflexive, symmetric and transitive, and
    it does not depend on the order in which entries were put into a table. -/
theorem equal?_equivalence (classed : s.Classed) (ha : s.Regular a) (hb : s.Regular b)
    (hc : s.Regular c) :
    s.equal? a b ≠ none ∧ s.equal? a a = some true ∧ s.equal? a b = s.equal? b a ∧
      (s.equal? a b = some true → s.equal? b c = some true → s.equal? a c = some true) ∧
      ((s.form a).Shuffled (s.form b) → s.equal? a b = some true ∧ s.equal? a c = s.equal? b c) := by
  have below := lawful_stratum classed s.size
  have lawful := lawful_stratum classed (s.size + 1)
  refine ⟨lawful.ends ha.top hb.top, (lawful.refl ha.top).2.2,
    lawful.equal?_comm ha.top hb.top, ?_, ?_⟩
  · exact fun same same' => (lawful.trans ⟨ha.top, hb.top, same⟩ ⟨hb.top, hc.top, same'⟩).2.2
  · intro shuffled
    have agree := shuffled.agree below (ha.top.agree_refl below) (hb.top.agree_refl below)
    have same := (decides_equal? classed below ha.top hb.top).eq_true_iff.2 agree
    exact ⟨same, lawful.equal?_congr ⟨ha.top, hb.top, same⟩ hc.top⟩

end Store

/-- The image of the number one. -/
def oneImage : Array UInt8 := (#[] : Array UInt8) ++ Image.ofInt 1

/-- A dictionary with two entries, and one with the same entries in the other order. -/
def ledgers : Store Empty :=
  { cells := #[.dict (Keyed.pair oneImage tiedImage (.int 1, .str "p") (.str "x", .str "q")),
      .dict (Keyed.pair tiedImage oneImage (.str "x", .str "q") (.int 1, .str "p"))] }

theorem regular_ledger {i : Nat} (inside : i < 2) : ledgers.Regular (.ref i) := by
  have hash : ledgers.image none (.int 1) = .ok oneImage := rfl
  have hash' : ledgers.image none (.str "x") = .ok tiedImage := image_name _ _
  have apart : ledgers.imageOf (.int 1) ≠ ledgers.imageOf (.str "x") := by
    rw [Store.imageOf_eq hash, Store.imageOf_eq hash']
    decide +kernel
  have atoms : ∀ u ∈ ([.int 1, .str "x", .str "p", .str "q"] : List Value),
      ledgers.Regular u ∧ ¬ledgers.Reaches u (.ref i) := by
    intro u mem
    have atom : ∀ j, u ≠ .ref j := by
      rintro j rfl
      simp at mem
    refine ⟨.of_atom atom fun x number => ?_, fun reach => atom i (reach.eq_of_atom atom).symm⟩
    simp only [List.mem_cons, List.not_mem_nil, or_false] at mem
    rcases mem with rfl | rfl | rfl | rfl <;> cases number
    trivial
  match i, inside with
  | 0, _ =>
    have orderly : Keyed.Orderly (Keyed.pair oneImage tiedImage (.int 1, Value.str "p")
        (.str "x", .str "q")) ledgers True := Keyed.orderly_pair hash hash' (.inl apart)
    refine .of_cell rfl trivial ⟨orderly.hashable, orderly.filed, orderly.distinct⟩ fun u held => ?_
    exact atoms u held
  | 1, _ =>
    have orderly : Keyed.Orderly (Keyed.pair tiedImage oneImage (.str "x", Value.str "q")
        (.int 1, .str "p")) ledgers True := Keyed.orderly_pair hash' hash (.inl apart.symm)
    refine .of_cell rfl trivial ⟨orderly.hashable, orderly.filed, orderly.distinct⟩ fun u held => ?_
    have held : u ∈ ([.str "x", .int 1, .str "q", .str "p"] : List Value) := held
    refine atoms u ?_
    simp only [List.mem_cons, List.not_mem_nil, or_false] at held ⊢
    tauto

/-- The two are equal, whichever is asked. -/
theorem equal?_equivalence_ledgers : ledgers.equal? (.ref 0) (.ref 1) = some true ∧
    ledgers.equal? (.ref 1) (.ref 0) = some true := by
  have classed : ledgers.Classed := by
    intro i j c d t u found
    match i, found with
    | 0, found => cases found
    | 1, found => cases found
  have first := regular_ledger (i := 0) (by decide)
  have second := regular_ledger (i := 1) (by decide)
  obtain ⟨-, -, symm, -, shuffled⟩ := Store.equal?_equivalence classed first second first
  obtain ⟨same, -⟩ := shuffled (.dict (List.Perm.swap _ _ _))
  exact ⟨same, symm ▸ same⟩

/-! ## Keys that are changed -/

/-- The attributes of an instance that holds a number. -/
def holding (n : Int64) : Dict := Keyed.empty.put none tiedImage (.str "x") (.int n)

theorem equalFor_name (s : Store H) (holder : Option Nat) :
    s.equalFor holder (.str "x") (.str "x") = some true := by
  rw [Store.equalFor_eq_sameBy (.inl rfl)]
  rfl

theorem equal?_name (s : Store H) : s.equal? (.str "x") (.str "x") = some true :=
  equalFor_name s none

theorem equal?_self (s : Store H) (i : Nat) : s.equal? (.ref i) (.ref i) = some true := by
  rw [Store.equal?_eq_sameBy (.inl rfl)]
  simp only [Store.sameBy, if_true]

/-- Instances of one class are equal if they hold the same number. -/
theorem equal?_holding {i j : Nat} {cls : Class} {m n : Int64} (apart : i ≠ j)
    (here : s.cells[i]? = some (.inst cls (holding m)))
    (there : s.cells[j]? = some (.inst cls (holding n))) :
    s.equal? (.ref i) (.ref j) = some (n.toInt == m.toInt) := by
  have place : s.keyPlace none s.equal? (holding n) (.str "x") = some (some 0) := by
    simp only [Store.keyPlace, Store.placeBy, image_name, bind, Except.bind, holding,
      Keyed.find_single, equal?_name, Option.map_some, if_true]
  have sizes : (holding m).size = (holding n).size := rfl
  have entries : (holding m).entries.toList = [(.str "x", .int m)] := rfl
  have content : (holding n).at? 0 = some (.int n) := rfl
  have numbers : s.equal? (.int n) (.int m) = some (n.toInt == m.toInt) :=
    Store.equal?_of_numbers (x := .int n.toInt) (y := .int m.toInt) rfl rfl
  rw [Store.equal?_eq_sameBy (.inl rfl), Store.sameBy_none_refs apart here there]
  simp only [Store.sameCells, true_or, if_true, Store.sameDictFor, if_pos sizes, entries, allPass, place,
    content, numbers]
  cases n.toInt == m.toInt <;> rfl

/-- A class. -/
def guild : Class := ⟨.declared 0, "m", "K"⟩

/-- The image of its instances. -/
def guildImage : Array UInt8 := (#[] : Array UInt8).push 10 ++ Text.utf8 "K"

/-- The set of two of its instances. -/
def couple (i j : Nat) : Members := Keyed.pair guildImage guildImage (.ref i, ()) (.ref j, ())

section
variable {i j k : Nat} {m n : Int64}

theorem membersOf_couple (apart : i ≠ j) (here : s.cells[i]? = some (.inst guild (holding m)))
    (there : s.cells[j]? = some (.inst guild (holding n))) (differ : n.toInt ≠ m.toInt) :
    s.membersOf [.ref i, .ref j] = .ok (couple i j) := by
  have hash : s.image none (.ref i) = .ok guildImage := image_inst here nofun
  have hash' : s.image none (.ref j) = .ok guildImage := image_inst there nofun
  have answer : s.equal? (.ref i) (.ref j) = some false := by
    rw [equal?_holding apart here there, beq_eq_false_iff_ne.2 differ]
  have found : ((Keyed.empty : Members).put none guildImage (.ref i) ()).find
      (HostObject.probing H) guildImage (fun old => s.equal? old (.ref j)) = some none := by
    rw [Keyed.find_single, answer]
    rfl
  rw [Store.membersOf, List.map_cons, List.map_singleton,
    Store.insertAll_found hash (Keyed.find_empty _ _), Store.insertAll_found hash' found]
  rfl

theorem keyPlace_couple (here : s.cells[k]? = some (.inst guild (holding m)))
    (differ : s.equal? (.ref i) (.ref k) = some false) {same : Bool}
    (answer : s.equal? (.ref j) (.ref k) = some same) :
    s.keyPlace none s.equal? (couple i j) (.ref k) = some (if same then some 1 else none) := by
  have hash : s.image none (.ref k) = .ok guildImage := image_inst here nofun
  have found : (couple i j).find (HostObject.probing H) guildImage
      (fun old => s.equal? old (.ref k)) = some (if same then some 1 else none) := by
    rw [couple, Keyed.find_pair differ, answer]
    rfl
  simp only [Store.keyPlace, Store.placeBy, hash, bind, Except.bind, found]

theorem keyPlace_couple_first (here : s.cells[k]? = some (.inst guild (holding m)))
    (answer : s.equal? (.ref i) (.ref k) = some true) {same : Bool}
    (answer' : s.equal? (.ref j) (.ref k) = some same) :
    ∃ place, s.keyPlace none s.equal? (couple i j) (.ref k) = some (some place) := by
  have hash : s.image none (.ref k) = .ok guildImage := image_inst here nofun
  obtain ⟨place, found⟩ : ∃ place, (couple i j).find (HostObject.probing H) guildImage
      (fun old => s.equal? old (.ref k)) = some (some place) := Keyed.find_pair_first answer answer'
  refine ⟨place, ?_⟩
  simp only [Store.keyPlace, Store.placeBy, hash, bind, Except.bind, couple] at found ⊢
  rw [found]

end

/-- Three instances, with the second holding `n`, and two sets that share the first. -/
def couples (n : Int64) : Store Empty :=
  { cells := #[.inst guild (holding 1), .inst guild (holding n), .inst guild (holding 3),
      .set (couple 0 1), .set (couple 0 2)] }

/-- The image of an instance while it is being filled. -/
def blankImage : Array UInt8 := (#[] : Array UInt8).push 10 ++ ([] : List UInt8)

/-- A dictionary with one key, which is filed under this image. -/
def filedUnder (image : Array UInt8) : Dict := Keyed.empty.put none image (.ref 0) .none

/-- An instance, a dictionary that took it for a key while it was being filled, and one that took it
    afterwards. -/
def strays : Store Empty :=
  { cells := #[.inst guild .empty, .dict (filedUnder blankImage), .dict (filedUnder guildImage)] }

/-- Two sets are made of instances that are told apart. Then the attribute of one is changed, so that
    the first set holds two equal members: it equals the second set, and the second does not equal
    it. -/
theorem couples_lopsided :
    (couples 2).membersOf [.ref 0, .ref 1] = .ok (couple 0 1) ∧
      (couples 2).membersOf [.ref 0, .ref 2] = .ok (couple 0 2) ∧
      (couples 2).insertFor (some 1) (holding 2) (.str "x") (.int 1) =
        .ok (some (.int 2), holding 1) ∧
      (couples 1).equal? (.ref 3) (.ref 4) = some true ∧
      (couples 1).equal? (.ref 4) (.ref 3) = some false := by
  have first : ∀ n, (couples n).cells[0]? = some (.inst guild (holding 1)) := fun _ => rfl
  have second : ∀ n, (couples n).cells[1]? = some (.inst guild (holding n)) := fun _ => rfl
  have third : ∀ n, (couples n).cells[2]? = some (.inst guild (holding 3)) := fun _ => rfl
  have differ : (couples 1).equal? (.ref 0) (.ref 2) = some false :=
    equal?_holding (by decide) (first 1) (third 1)
  refine ⟨membersOf_couple (by decide) (first 2) (second 2) (by decide),
    membersOf_couple (by decide) (first 2) (third 2) (by decide), ?_, ?_, ?_⟩
  · have found : (holding 2).find (HostObject.probing Empty) tiedImage
        (fun old => (couples 2).equalFor (some 1) old (.str "x")) = some (some 0) := by
      rw [holding, Keyed.find_single, equalFor_name]
      rfl
    simp only [Store.insertFor, image_name, bind, Except.bind, found]
    rfl
  · have same : (couples 1).equal? (.ref 0) (.ref 1) = some true :=
      equal?_holding (by decide) (first 1) (second 1)
    have differ' : (couples 1).equal? (.ref 2) (.ref 0) = some false :=
      equal?_holding (by decide) (third 1) (first 1)
    have differ'' : (couples 1).equal? (.ref 2) (.ref 1) = some false :=
      equal?_holding (by decide) (third 1) (second 1)
    obtain ⟨place, found⟩ := keyPlace_couple_first (first 1) (equal?_self _ 0) differ'
    obtain ⟨place', found'⟩ := keyPlace_couple_first (second 1) same differ''
    have sizes : (couple 0 1).size = (couple 0 2).size := rfl
    have keys : (couple 0 1).keys = [.ref 0, .ref 1] := rfl
    rw [Store.equal?_eq_sameBy (.inl rfl)]
    show (couples 1).sameMembersFor none _ (couple 0 1) (couple 0 2) = some true
    simp only [Store.sameMembersFor, if_pos sizes, keys, allPass, found, found', Option.isSome_some]
  · have differ' : (couples 1).equal? (.ref 1) (.ref 2) = some false :=
      equal?_holding (by decide) (second 1) (third 1)
    have same : (couples 1).equal? (.ref 1) (.ref 0) = some true :=
      equal?_holding (by decide) (second 1) (first 1)
    obtain ⟨place, found⟩ := keyPlace_couple_first (first 1) (equal?_self _ 0) same
    have sizes : (couple 0 2).size = (couple 0 1).size := rfl
    have keys : (couple 0 2).keys = [.ref 0, .ref 2] := rfl
    have alone : (couples 1).keyPlace none (couples 1).equal? (couple 0 1) (.ref 2) = some none :=
      keyPlace_couple (third 1) differ differ'
    rw [Store.equal?_eq_sameBy (.inl rfl)]
    show (couples 1).sameMembersFor none _ (couple 0 2) (couple 0 1) = some false
    simp only [Store.sameMembersFor, if_pos sizes, keys, allPass, found, alone, Option.isSome_some,
      Option.isSome_none]

/-- A dictionary takes an instance for a key while that is being filled, and files it without the name
    of its class. It equals a dictionary that took the same key afterwards, and that one does not find
    the key in it. -/
theorem strays_lopsided :
    strays.insertFor (some 0) .empty (.ref 0) Value.none = .ok (none, filedUnder blankImage) ∧
      strays.insertFor none .empty (.ref 0) Value.none = .ok (none, filedUnder guildImage) ∧
      strays.equal? (.ref 1) (.ref 2) = some true ∧
      strays.equal? (.ref 2) (.ref 1) = some false := by
  have hash : strays.image none (.ref 0) = .ok guildImage := rfl
  have hash' : strays.image (some 0) (.ref 0) = .ok blankImage := rfl
  refine ⟨?_, ?_, ?_, ?_⟩
  · simp only [Store.insertFor, hash', bind, Except.bind, Keyed.find_empty]
    rfl
  · simp only [Store.insertFor, hash, bind, Except.bind, Keyed.find_empty]
    rfl
  · rw [Store.equal?_eq_sameBy (.inl rfl)]
    show strays.sameDictFor none _ (filedUnder blankImage) (filedUnder guildImage) = some true
    have place : strays.keyPlace none strays.equal? (filedUnder guildImage) (.ref 0) =
        some (some 0) := by
      simp only [Store.keyPlace, Store.placeBy, hash, bind, Except.bind, filedUnder,
        Keyed.find_single, equal?_self, Option.map_some, if_true]
    have sizes : (filedUnder blankImage).size = (filedUnder guildImage).size := rfl
    have entries : (filedUnder blankImage).entries.toList = [(.ref 0, .none)] := rfl
    have content : (filedUnder guildImage).at? 0 = some .none := rfl
    have same : strays.equal? .none .none = some true := rfl
    simp only [Store.sameDictFor, if_pos sizes, entries, allPass, place, content, same]
  · rw [Store.equal?_eq_sameBy (.inl rfl)]
    show strays.sameDictFor none _ (filedUnder guildImage) (filedUnder blankImage) = some false
    have apart : blankImage ≠ guildImage := by decide +kernel
    have place : strays.keyPlace none strays.equal? (filedUnder blankImage) (.ref 0) =
        some none := by
      have nowhere : (filedUnder blankImage).index.getD guildImage [] = [] := by
        simp [filedUnder, Keyed.put, Keyed.empty, Std.HashMap.getD_insert, apart]
      simp only [Store.keyPlace, Store.placeBy, hash, bind, Except.bind, Keyed.find,
        Keyed.met_nil nowhere, Keyed.firstPlace]
    have sizes : (filedUnder guildImage).size = (filedUnder blankImage).size := rfl
    have entries : (filedUnder guildImage).entries.toList = [(.ref 0, .none)] := rfl
    simp only [Store.sameDictFor, if_pos sizes, entries, allPass, place]

/-- Where a key has come to equal another one, or is not filed under its image, it depends on the side
    that is asked whether two tables are equal. -/
theorem equal?_lopsided :
    ((couples 2).membersOf [.ref 0, .ref 1] = .ok (couple 0 1) ∧
      (couples 2).membersOf [.ref 0, .ref 2] = .ok (couple 0 2) ∧
      (couples 2).insertFor (some 1) (holding 2) (.str "x") (.int 1) =
        .ok (some (.int 2), holding 1) ∧
      (couples 1).equal? (.ref 3) (.ref 4) = some true ∧
      (couples 1).equal? (.ref 4) (.ref 3) = some false) ∧
    strays.insertFor (some 0) .empty (.ref 0) Value.none = .ok (none, filedUnder blankImage) ∧
      strays.insertFor none .empty (.ref 0) Value.none = .ok (none, filedUnder guildImage) ∧
      strays.equal? (.ref 1) (.ref 2) = some true ∧
      strays.equal? (.ref 2) (.ref 1) = some false :=
  ⟨couples_lopsided, strays_lopsided⟩

end ObjectStream
