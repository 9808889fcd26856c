import ObjectStream.Proofs.Builtins
import ObjectStream.Proofs.Mirrors
import ObjectStream.Proofs.NewObjects
import ObjectStream.Proofs.Tidy

/-!
What is made of copies.

Nothing that every registry brings along tells values from their copies: what it makes of the copies is
alike to what it makes of the values, be it a class or a callable (`Host.create_copy`). So copies of
arguments create the same, unless a function of the host tells them apart (`Host.Respects`).
-/

namespace ObjectStream

variable {H α : Type}

/-- Where the one action succeeds on its store, the other one succeeds on the other store, and the values
    are alike. -/
def Store.Repeats (s s' : Store H) (x x' : Action H Value) : Prop :=
  ∀ v t, x s = .ok v t → ∃ w t', x' s' = .ok w t' ∧ Isomorphic t t' v w

/-! ## Tables -/

theorem forall₂_modify {β γ : Type} {P : β → γ → Prop} {f : β → β} {g : γ → γ} {as : List β}
    {bs : List γ} (h : List.Forall₂ P as bs) (step : ∀ a b, P a b → P (f a) (g b)) (i : Nat) :
    List.Forall₂ P (as.modify i f) (bs.modify i g) := by
  induction h generalizing i with
  | nil => simp
  | cons head tail ih =>
    cases i with
    | zero => exact .cons (step _ _ head) tail
    | succ i => exact .cons head (ih i)

theorem rel_getElem? {β γ : Type} {P : β → γ → Prop} {as : List β} {bs : List γ}
    (h : List.Forall₂ P as bs) (i : Nat) : Option.Rel P as[i]? bs[i]? := by
  induction h generalizing i with
  | nil => exact .none
  | cons head _ ih =>
    cases i with
    | zero => exact .some head
    | succ i => exact ih i

/-- What is collected from a list is collected from its copy. -/
theorem mapM_copy {β γ δ ζ ε : Type} {P : β → γ → Prop} {Q : δ → ζ → Prop} {f : β → Except ε δ}
    {g : γ → Except ε ζ} {as : List β} {bs : List γ} (h : List.Forall₂ P as bs)
    (step : ∀ a b d, P a b → f a = .ok d → ∃ z, g b = .ok z ∧ Q d z) {ds : List δ}
    (run : as.mapM f = .ok ds) : ∃ zs, bs.mapM g = .ok zs ∧ List.Forall₂ Q ds zs := by
  induction h generalizing ds with
  | nil =>
    cases run
    exact ⟨[], rfl, .nil⟩
  | @cons a b as bs head tail ih =>
    rw [List.mapM_cons] at run ⊢
    cases first : f a with
    | error e =>
      rw [first] at run
      cases run
    | ok d =>
      rw [first] at run
      cases others : as.mapM f with
      | error e =>
        rw [others] at run
        cases run
      | ok ds' =>
        rw [others] at run
        cases run
        obtain ⟨z, first', same⟩ := step a b d head first
        obtain ⟨zs, others', sames⟩ := ih others
        refine ⟨z :: zs, ?_, .cons same sames⟩
        rw [first', others']
        rfl

namespace Value

variable {R : Nat → Nat → Prop} {v w : Value}

theorem toInt?_match (h : Match R v w) : w.toInt? = v.toInt? := by
  cases h with
  | long n =>
    rw [ofInt]
    split
    · next fits =>
      simp only [fitsWord, Bool.and_eq_true, decide_eq_true_eq] at fits
      simp only [toInt?]
      rw [Int64.toInt_ofInt_of_le (by omega) (by omega)]
    · rfl
  | _ => rfl

theorem toWord?_match (h : Match R v w) : w.toWord? = v.toWord? := by
  rw [toWord?, toWord?, toInt?_match h]

theorem text?_match (h : Match R v w) : w.text? = v.text? := by
  cases h with
  | long n =>
    rw [ofInt]
    split <;> rfl
  | _ => rfl

/-- An integer that a word holds has the same double as the word. -/
theorem ofWide_of_fitsWord {n : Int} (fits : fitsWord n = true) : Double.ofWide n = Double.ofInt n := by
  simp only [fitsWord, Bool.and_eq_true, decide_eq_true_eq] at fits
  rw [Double.ofWide, if_pos (by omega)]

theorem toDouble?_match (h : Match R v w) {x : Double} (double : v.toDouble? = some x) :
    ∃ y, w.toDouble? = some y ∧ y.settled = x.settled := by
  cases h with
  | float same =>
    cases double
    exact ⟨_, rfl, same⟩
  | long n =>
    cases double
    refine ⟨_, ?_, rfl⟩
    by_cases fits : fitsWord n = true
    · have word : ofInt n = .int (Int64.ofInt n) := if_pos fits
      have copy : (ofInt n).toInt? = some n := toInt?_match (R := fun _ _ => True) (.long n)
      rw [ofWide_of_fitsWord fits, word] at *
      exact congrArg (Option.map Double.ofInt) copy
    · have long : ofInt n = .long n := if_neg fits
      rw [long]
      rfl
  | bool | int | none | complex | str | bytes | emptyTuple | ref => exact ⟨x, double, rfl⟩

end Value


variable [HostObject H]

namespace Mirror

variable {s s' : Store H} {R : Nat → Nat → Prop} {v w : Value} {args args' vs : List Value}

/-! ## Tables -/

/-- Tables of paired entries, both filed under the images of the first. -/
structure Tables (s : Store H) (R : Nat → Nat → Prop) (P : α → α → Prop) (t t' : Keyed α) : Prop where
  entries : List.Forall₂ (fun e e' => Match R e.1 e'.1 ∧ P e.2 e'.2) t.entries.toList t'.entries.toList
  files : t.Files (t.keys.map s.imageOf)
  files' : t'.Files (t.keys.map s.imageOf)

namespace Tables

variable {P : α → α → Prop} {t t' : Keyed α} {c c' : α}

theorem keys (h : Tables s R P t t') : List.Forall₂ (Match R) t.keys t'.keys :=
  List.rel_map (fun _ _ same => same.1) h.entries

theorem contents (h : Tables s R P t t') : List.Forall₂ P t.contents t'.contents :=
  List.rel_map (fun _ _ same => same.2) h.entries

theorem empty : Tables s R P (.empty : Keyed α) .empty :=
  ⟨.nil, Keyed.files_empty, Keyed.files_empty⟩

theorem put (h : Tables s R P t t') {k k' : Value} {image : Array UInt8}
    (hash : s.image none k = .ok image) (key : Match R k k') (content : P c c') (place : Option Nat) :
    Tables s R P (t.put place image k c) (t'.put place image k' c') := by
  cases place with
  | some i =>
    refine ⟨?_, ?_, ?_⟩
    · simp only [Keyed.put, Array.toList_modify]
      refine forall₂_modify h.entries ?_ i
      exact fun _ _ same => ⟨same.1, content⟩
    · rw [Keyed.keys_put_some]
      exact h.files
    · rw [Keyed.keys_put_some]
      exact h.files'
  | none =>
    have all : (t.keys.map s.imageOf).length = t.entries.size := by
      rw [List.length_map, Keyed.length_keys]
    have all' : (t.keys.map s.imageOf).length = t'.entries.size := by
      rw [List.length_map, h.keys.length_eq, Keyed.length_keys]
    have keys : ((t.put none image k c).keys).map s.imageOf = t.keys.map s.imageOf ++ [image] := by
      rw [Keyed.keys_put, List.map_append, List.map_singleton, Store.imageOf_eq hash]
    refine ⟨?_, ?_, ?_⟩
    · simp only [Keyed.put, Array.toList_push]
      exact List.rel_append h.entries (.cons ⟨key, content⟩ .nil)
    · rw [keys]
      exact h.files.put all image k c
    · rw [keys]
      exact h.files'.put all' image k' c'

/-- Entries that are put into the one table can be put into the other. -/
theorem insertAll (mirror : Mirror s s' R) {es es' : List (Value × α)}
    (given : List.Forall₂ (fun e e' => Match R e.1 e'.1 ∧ P e.2 e'.2) es es') {u : Keyed α}
    (h : Tables s R P t t') (run : s.insertAll t es = .ok u) :
    ∃ u', s'.insertAll t' es' = .ok u' ∧ Tables s R P u u' := by
  induction given generalizing t t' with
  | nil =>
    cases run
    exact ⟨t', rfl, h⟩
  | @cons e e' es es' head _ ih =>
    obtain ⟨key, content⟩ := head
    cases hash : s.image none e.1 with
    | error error =>
      simp only [Store.insertAll, List.foldlM_cons, Store.insert, Store.insertFor, hash] at run
      cases run
    | ok image =>
      have hash' := image_mirror none mirror (by simp) hash key
      have same : t.find (HostObject.probing H) image (fun old => s.equal? old e.1) =
          t'.find (HostObject.probing H) image (fun old => s'.equal? old e'.1) :=
        Keyed.find_congr h.files h.files' <| h.keys.imp fun k k' known =>
          (equal?_mirror mirror k k' e.1 e'.1 known key).symm
      cases found : t.find (HostObject.probing H) image (fun old => s.equal? old e.1) with
      | none =>
        rw [Store.insertAll_endless hash found] at run
        cases run
      | some place =>
        rw [Store.insertAll_found hash found] at run
        rw [Store.insertAll_found hash' (same.symm.trans found)]
        exact ih (h.put hash key content place) run

end Tables

/-! ## Arguments -/

section
variable (mirror : Mirror s s' R)
include mirror

/-- Paired values refer to matching objects, or to none. -/
theorem cell?_match (same : Match R v w) :
    (∃ cell cell', s.cell? v = some cell ∧ s'.cell? w = some cell' ∧ cell.Matches R cell') ∨
      (s.cell? v = none ∧ s'.cell? w = none) := by
  cases same with
  | @ref i j r =>
    obtain ⟨cell, cell', found, found', copy, -⟩ := mirror.object i j r
    exact .inl ⟨cell, cell', found, found', copy⟩
  | long n =>
    refine .inr ⟨rfl, ?_⟩
    rw [Value.ofInt]
    split <;> rfl
  | _ => exact .inr ⟨rfl, rfl⟩

/-- What has a copy is no global. -/
theorem global?_eq_none (same : Match R v w) : s.global? v = none := by
  rw [Store.global?]
  rcases mirror.cell?_match same with ⟨cell, cell', found, -, copy⟩ | ⟨found, -⟩
  · rw [found]
    cases copy <;> rfl
  · rw [found]

theorem tuple?_match (same : Match R v w) :
    (∃ vs ws, s.tuple? v = some vs ∧ s'.tuple? w = some ws ∧ List.Forall₂ (Match R) vs ws) ∨
      (s.tuple? v = none ∧ s'.tuple? w = none) := by
  cases same with
  | emptyTuple => exact .inl ⟨[], [], rfl, rfl, .nil⟩
  | @ref i j r =>
    obtain ⟨cell, cell', found, found', copy, -⟩ := mirror.object i j r
    simp only [Store.tuple?, Store.cell?, found, found']
    cases copy with
    | tuple items => exact .inl ⟨_, _, rfl, rfl, items⟩
    | _ => exact .inr ⟨rfl, rfl⟩
  | long n =>
    refine .inr ⟨rfl, ?_⟩
    rw [Value.ofInt]
    split <;> rfl
  | _ => exact .inr ⟨rfl, rfl⟩

/-- A pair is copied as a pair. -/
theorem pairOf_match (same : Match R v w) :
    (∃ e e', s.pairOf v = some e ∧ s'.pairOf w = some e' ∧ Match R e.1 e'.1 ∧ Match R e.2 e'.2) ∨
      (s.pairOf v = none ∧ s'.pairOf w = none) := by
  rw [Store.pairOf, Store.pairOf]
  rcases mirror.tuple?_match same with ⟨vs, ws, tuple, tuple', items⟩ | ⟨none, none'⟩
  · rw [tuple, tuple']
    rcases items with _ | ⟨first, _ | ⟨second, _ | _⟩⟩
    · exact .inr ⟨rfl, rfl⟩
    · exact .inr ⟨rfl, rfl⟩
    · exact .inl ⟨_, _, rfl, rfl, first, second⟩
    · exact .inr ⟨rfl, rfl⟩
  · rw [none, none']
    exact .inr ⟨rfl, rfl⟩

theorem dict?_match (same : Match R v w) :
    (∃ d d', s.dict? v = some d ∧ s'.dict? w = some d' ∧ List.Forall₂ (Match R) d.keys d'.keys ∧
      List.Forall₂ (Match R) d.contents d'.contents) ∨ (s.dict? v = none ∧ s'.dict? w = none) := by
  rw [Store.dict?, Store.dict?]
  rcases mirror.cell?_match same with ⟨cell, cell', found, found', copy⟩ | ⟨found, found'⟩
  · rw [found, found']
    cases copy with
    | dict keys contents => exact .inl ⟨_, _, rfl, rfl, keys, contents⟩
    | _ => exact .inr ⟨rfl, rfl⟩
  · rw [found, found']
    exact .inr ⟨rfl, rfl⟩

omit [HostObject H] mirror in
/-- Atoms are copies of themselves. -/
theorem forall₂_match_map {β : Type} (f : β → Value) (items : List β)
    (same : ∀ b, Match R (f b) (f b)) : List.Forall₂ (Match R) (items.map f) (items.map f) := by
  rw [List.forall₂_map_left_iff, List.forall₂_map_right_iff]
  exact List.forall₂_same.2 fun b _ => same b

/-- The elements of a copy are copies. -/
theorem elements_copy (same : Match R v w) (elements : s.elements v = .ok vs) :
    ∃ ws, s'.elements w = .ok ws ∧ List.Forall₂ (Match R) vs ws := by
  cases same with
  | emptyTuple =>
    cases elements
    exact ⟨[], rfl, .nil⟩
  | bytes bs =>
    cases elements
    exact ⟨_, rfl, forall₂_match_map _ bs fun _ => .int _⟩
  | str text =>
    cases elements
    exact ⟨_, rfl, forall₂_match_map _ text.toList fun _ => .str _⟩
  | @ref i j r =>
    obtain ⟨cell, cell', found, found', copy, -⟩ := mirror.object i j r
    simp only [Store.elements, Store.cell?, found, found'] at elements ⊢
    cases copy with
    | bytearray data =>
      cases elements
      exact ⟨_, rfl, forall₂_match_map _ data fun _ => .int _⟩
    | list items | tuple items | set items | frozenset items | dict items _ =>
      cases elements
      exact ⟨_, rfl, items⟩
    | inst => cases elements
  | _ => cases elements

end

omit [HostObject H] in
/-- Copies are as many as the arguments, so what is behind a check of their number is all that counts. -/
theorem checked {β : Type} {name : String} {least most : Nat} {x : Except String β} {b : β}
    (same : List.Forall₂ (Match R) args args')
    (h : (checkArity name args least most >>= fun _ => x) = .ok b) :
    x = .ok b ∧ ∀ {γ : Type} (y : Except String γ),
      (checkArity name args' least most >>= fun _ => y) = y := by
  refine ⟨Store.ok_of_checked h, fun {γ} y => ?_⟩
  have arity : checkArity name args' least most = checkArity name args least most := by
    rw [checkArity, checkArity, same.length_eq]
  rw [arity]
  cases check : checkArity name args least most with
  | error text =>
    rw [check] at h
    cases h
  | ok => rfl

omit [HostObject H] in
theorem mapM_byteOf_copy {bs : Bytes} (same : List.Forall₂ (Match R) args args')
    (bytes : args.mapM Store.byteOf = .ok bs) : args'.mapM Store.byteOf = .ok bs := by
  have step : ∀ a b d, Match R a b → Store.byteOf a = .ok d →
      ∃ d', Store.byteOf b = .ok d' ∧ d = d' := by
    intro a b d one byte
    refine ⟨d, ?_, rfl⟩
    rw [← byte]
    simp only [Store.byteOf, Value.toWord?_match one]
  obtain ⟨bs', bytes', eq⟩ := mapM_copy same step bytes
  rw [List.forall₂_eq_eq_eq] at eq
  rw [bytes', eq]

section
variable (mirror : Mirror s s' R)
include mirror

theorem byteElements_copy {bs : Bytes} (same : Match R v w) (bytes : s.byteElements v = .ok bs) :
    s'.byteElements w = .ok bs := by
  have other : (s.elements v >>= fun items => items.mapM Store.byteOf) = .ok bs →
      (s'.elements w >>= fun items => items.mapM Store.byteOf) = .ok bs := by
    intro run
    cases elements : s.elements v with
    | error text =>
      rw [elements] at run
      cases run
    | ok items =>
      rw [elements] at run
      obtain ⟨items', elements', copies⟩ := mirror.elements_copy same elements
      rw [elements']
      exact mapM_byteOf_copy copies run
  cases same with
  | @ref i j r =>
    obtain ⟨cell, cell', found, found', copy, -⟩ := mirror.object i j r
    have here : s.cell? (.ref i) = some cell := found
    have here' : s'.cell? (.ref j) = some cell' := found'
    simp only [Store.byteElements, here, here'] at bytes ⊢
    cases copy with
    | bytearray data => exact bytes
    | _ => exact other bytes
  | bytes data => exact bytes
  | long n =>
    cases bytes
  | _ => exact other bytes

variable (same : List.Forall₂ (Match R) args args')
include same

theorem optionalElements_copy (elements : s.optionalElements args = .ok vs) :
    ∃ ws, s'.optionalElements args' = .ok ws ∧ List.Forall₂ (Match R) vs ws := by
  obtain ⟨given, skip⟩ := checked same elements
  cases same with
  | nil =>
    cases given
    exact ⟨[], rfl, .nil⟩
  | cons head _ =>
    obtain ⟨ws, elements', copies⟩ := mirror.elements_copy head given
    exact ⟨ws, (skip _).trans elements', copies⟩

theorem byteArguments_copy {name : String} {bs : Bytes} (bytes : s.byteArguments name args = .ok bs) :
    s'.byteArguments name args' = .ok bs := by
  obtain ⟨given, skip⟩ := checked same bytes
  refine (skip _).trans ?_
  cases same with
  | nil => exact given
  | cons head tail =>
    cases tail with
    | nil =>
      have one : s.byteElements _ = .ok bs → s'.byteElements _ = .ok bs :=
        mirror.byteElements_copy head
      cases head with
      | str | long => cases given
      | _ => exact one given
    | cons head' tail =>
      cases tail with
      | nil =>
        cases head with
        | str text =>
          simp only [Store.encodingOf, Value.text?_match head'] at given ⊢
          exact given
        | _ => cases given
      | cons => cases head <;> cases given

theorem dictArguments_copy {es : List (Value × Value)} (entries : s.dictArguments args = .ok es) :
    ∃ es', s'.dictArguments args' = .ok es' ∧
      List.Forall₂ (fun e e' => Match R e.1 e'.1 ∧ Match R e.2 e'.2) es es' := by
  obtain ⟨given, skip⟩ := checked same entries
  cases same with
  | nil =>
    cases given
    exact ⟨[], rfl, .nil⟩
  | @cons v w _ _ head _ =>
    dsimp only at given
    rcases mirror.dict?_match head with ⟨d, d', dict, dict', keys, contents⟩ | ⟨dict, dict'⟩
    · rw [dict] at given
      cases given
      refine ⟨d'.entries.toList, (skip _).trans ?_, Keyed.entries_match keys contents⟩
      simp only [dict']
    · rw [dict] at given
      cases elements : s.elements v with
      | error text =>
        rw [elements] at given
        cases given
      | ok items =>
        rw [elements] at given
        obtain ⟨items', elements', copies⟩ := mirror.elements_copy head elements
        suffices copied : ∃ es', _ = Except.ok es' ∧ List.Forall₂ _ es es' by
          obtain ⟨es', run, entries⟩ := copied
          refine ⟨es', (skip _).trans ?_, entries⟩
          simp only [dict', elements']
          exact run
        refine mapM_copy copies (fun pair pair' e one made => ?_) given
        rcases mirror.pairOf_match one with ⟨entry, entry', two, two', same⟩ | ⟨none, -⟩
        · rw [two] at made
          cases made
          exact ⟨entry', by rw [two'], same⟩
        · rw [none] at made
          cases made

omit mirror in
theorem encodeArguments_copy {bs : Bytes} (bytes : Store.encodeArguments args = .ok bs) :
    Store.encodeArguments args' = .ok bs := by
  obtain ⟨given, skip⟩ := checked same bytes
  refine (skip _).trans ?_
  cases same with
  | nil => cases given
  | cons head tail =>
    cases head with
    | str text =>
      cases tail with
      | nil => exact given
      | cons head _ =>
        simp only [Store.encodingOf, Value.text?_match head] at given ⊢
        exact given
    | _ => cases given

omit mirror same in
theorem realPart_copy {x : Double} {v w : Option Value} (same : Option.Rel (Match R) v w)
    (part : Store.realPart v = .ok x) : ∃ y, Store.realPart w = .ok y ∧ y.settled = x.settled := by
  cases same with
  | none =>
    cases part
    exact ⟨_, rfl, rfl⟩
  | @some v w same =>
    simp only [Store.realPart] at part ⊢
    cases double : v.toDouble? with
    | none =>
      rw [double] at part
      cases part
    | some x =>
      rw [double] at part
      cases part
      obtain ⟨y, double', settled⟩ := Value.toDouble?_match same double
      exact ⟨y, by rw [double'], settled⟩

/-- What has a copy has no attributes that can be asked for. -/
theorem attributeOf_error (ns : Option Namespace) : ∃ text, s.attributeOf ns args = .error text := by
  cases run : s.attributeOf ns args with
  | error text => exact ⟨text, rfl⟩
  | ok g =>
    have given := (checked same run).1
    split at given
    · next parent name =>
      cases same with
      | cons head _ =>
        rw [mirror.global?_eq_none head] at given
        cases given
    · cases given

end

end Mirror

/-! ## Actions -/

namespace Store

section
omit [HostObject H]

/-- What creates is one of the arguments of the call. -/
theorem cls_mem_of_creation? {s : Store H} {age : Nat} {f : Builtin} {args : List Value}
    {next : Creation} (made : s.creation? age f args = some (.ok next)) : next.cls ∈ args := by
  cases f with
  | newobj =>
    match args with
    | cls :: rest =>
      cases made
      exact List.mem_cons_self ..
  | reconstructor =>
    have given := Store.ok_of_checked (Option.some.inj made)
    split at given
    · cases given
      exact List.mem_cons_self ..
    · cases given
  | newobjEx =>
    have given := Store.ok_of_checked (Option.some.inj made)
    split at given
    · next cls positional keywords =>
      cases tuple : s.tuple? positional with
      | none =>
        rw [tuple] at given
        cases given
      | some items =>
        rw [tuple] at given
        cases Store.ok_of_checked given
        exact List.mem_cons_self ..
    · cases given
  | _ => cases made
variable {s s' : Store H} {R : Nat → Nat → Prop} {v w : Value} {β : Type}

theorem repeats_pure (paired : Paired s s' R) (same : Match R v w) :
    s.Repeats s' (pure v) (pure w) := by
  intro _ _ run
  cases run
  exact ⟨w, s', rfl, paired.isomorphic same⟩

theorem repeats_alloc {cell cell' : Cell H} (paired : Paired s s' R) (same : cell.Matches R cell') :
    s.Repeats s' (Action.alloc cell) (Action.alloc cell') := by
  intro _ _ run
  cases run
  exact ⟨_, _, rfl, paired.isomorphic_push same⟩

theorem repeats_reading {outcome : Store H → Except String α} {outcome' : Store H → Except String β}
    {f : α → Action H Value} {g : β → Action H Value}
    (h : ∀ a, outcome s = .ok a → ∃ b, outcome' s' = .ok b ∧ s.Repeats s' (f a) (g b)) :
    s.Repeats s' (Builtin.reading outcome >>= f) (Builtin.reading outcome' >>= g) := by
  intro v t run
  simp only [Builtin.reading, bind_apply, get_apply] at run ⊢
  cases read : outcome s with
  | error text =>
    rw [read] at run
    cases run
  | ok a =>
    rw [read] at run
    obtain ⟨b, read', repeats⟩ := h a read
    rw [read']
    exact repeats v t run

theorem repeats_keying {outcome : Store H → Except KeyError α} {outcome' : Store H → Except KeyError β}
    {f : α → Action H Value} {g : β → Action H Value}
    (h : ∀ a, outcome s = .ok a → ∃ b, outcome' s' = .ok b ∧ s.Repeats s' (f a) (g b)) :
    s.Repeats s' (Builtin.keying outcome >>= f) (Builtin.keying outcome' >>= g) := by
  intro v t run
  simp only [Builtin.keying, bind_apply, get_apply] at run ⊢
  cases read : outcome s with
  | error e =>
    rw [read] at run
    cases run
  | ok a =>
    rw [read] at run
    obtain ⟨b, read', repeats⟩ := h a read
    rw [read']
    exact repeats v t run

end

end Store

namespace Mirror

variable {s s' : Store H} {R : Nat → Nat → Prop} {args args' vs ws : List Value}

section
variable (mirror : Mirror s s' R)
include mirror

theorem membersOf_copy (same : List.Forall₂ (Match R) vs ws) {t : Members}
    (made : s.membersOf vs = .ok t) :
    ∃ t', s'.membersOf ws = .ok t' ∧ List.Forall₂ (Match R) t.keys t'.keys := by
  have given : List.Forall₂ (fun e e' : Value × Unit => Match R e.1 e'.1 ∧ True)
      (vs.map fun v => (v, ())) (ws.map fun v => (v, ())) := by
    rw [List.forall₂_map_left_iff, List.forall₂_map_right_iff]
    exact same.imp fun _ _ same => ⟨same, trivial⟩
  obtain ⟨t', made', tables⟩ := Tables.insertAll mirror (P := fun _ _ => True) given .empty made
  exact ⟨t', made', tables.keys⟩

theorem dictOf_copy {es es' : List (Value × Value)}
    (same : List.Forall₂ (fun e e' => Match R e.1 e'.1 ∧ Match R e.2 e'.2) es es') {d : Dict}
    (made : s.dictOf es = .ok d) :
    ∃ d', s'.dictOf es' = .ok d' ∧ (Cell.dict d : Cell H).Matches R (.dict d') := by
  obtain ⟨d', made', tables⟩ := Tables.insertAll mirror same .empty made
  exact ⟨d', made', .dict tables.keys tables.contents⟩

theorem repeats_allocTuple (same : List.Forall₂ (Match R) vs ws) :
    s.Repeats s' (Action.allocTuple vs) (Action.allocTuple ws) := by
  cases same with
  | nil => exact Store.repeats_pure mirror.paired .emptyTuple
  | cons head tail => exact Store.repeats_alloc mirror.paired (.tuple (.cons head tail))

theorem repeats_members {make : Members → Cell H} (same : List.Forall₂ (Match R) vs ws)
    (copy : ∀ t t', List.Forall₂ (Match R) (Keyed.keys t) (Keyed.keys t') →
      (make t).Matches R (make t')) :
    s.Repeats s' (Builtin.keying (·.membersOf vs) >>= fun t => Action.alloc (make t))
      (Builtin.keying (·.membersOf ws) >>= fun t => Action.alloc (make t)) := by
  refine Store.repeats_keying fun t made => ?_
  obtain ⟨t', made', keys⟩ := mirror.membersOf_copy same made
  exact ⟨t', made', Store.repeats_alloc mirror.paired (copy t t' keys)⟩

/-- The callables of every registry make the same of copies. -/
theorem repeats_run (ns : Option Namespace) (function : Builtin)
    (same : List.Forall₂ (Match R) args args') :
    s.Repeats s' (function.run ns args) (function.run ns args') := by
  have paired := mirror.paired
  cases function with
  | complex =>
    refine Store.repeats_reading fun parts given => ?_
    obtain ⟨given, skip⟩ := checked same given
    cases first : Store.realPart args[0]? with
    | error text =>
      rw [first] at given
      cases given
    | ok re =>
      cases second : Store.realPart args[1]? with
      | error text =>
        rw [first, second] at given
        cases given
      | ok im =>
        rw [first, second] at given
        cases given
        obtain ⟨re', first', real⟩ := realPart_copy (rel_getElem? same 0) first
        obtain ⟨im', second', imaginary⟩ := realPart_copy (rel_getElem? same 1) second
        refine ⟨(re', im'), (skip _).trans ?_, Store.repeats_pure paired (.complex real imaginary)⟩
        rw [first', second']
        rfl
  | bytes =>
    exact Store.repeats_reading fun bs given =>
      ⟨bs, mirror.byteArguments_copy same given, Store.repeats_pure paired (.bytes bs)⟩
  | encode =>
    exact Store.repeats_reading fun bs given =>
      ⟨bs, encodeArguments_copy same given, Store.repeats_pure paired (.bytes bs)⟩
  | bytearray =>
    exact Store.repeats_reading fun bs given =>
      ⟨bs, mirror.byteArguments_copy same given, Store.repeats_alloc paired (.bytearray bs)⟩
  | getattr =>
    refine Store.repeats_reading fun g given => ?_
    obtain ⟨text, none⟩ := mirror.attributeOf_error same ns
    rw [none] at given
    cases given
  | list =>
    refine Store.repeats_reading fun items given => ?_
    obtain ⟨items', given', copies⟩ := mirror.optionalElements_copy same given
    exact ⟨items', given', Store.repeats_alloc paired (.list (by simpa using copies))⟩
  | tuple =>
    refine Store.repeats_reading fun items given => ?_
    obtain ⟨items', given', copies⟩ := mirror.optionalElements_copy same given
    exact ⟨items', given', mirror.repeats_allocTuple copies⟩
  | set =>
    refine Store.repeats_reading fun items given => ?_
    obtain ⟨items', given', copies⟩ := mirror.optionalElements_copy same given
    exact ⟨items', given', mirror.repeats_members copies fun _ _ => .set⟩
  | frozenset =>
    refine Store.repeats_reading fun items given => ?_
    obtain ⟨items', given', copies⟩ := mirror.optionalElements_copy same given
    exact ⟨items', given', mirror.repeats_members copies fun _ _ => .frozenset⟩
  | dict =>
    refine Store.repeats_reading fun entries given => ?_
    obtain ⟨entries', given', copies⟩ := mirror.dictArguments_copy same given
    refine ⟨entries', given', Store.repeats_keying fun d made => ?_⟩
    obtain ⟨d', made', copy⟩ := mirror.dictOf_copy copies made
    exact ⟨d', made', Store.repeats_alloc paired copy⟩
  | newobj | newobjEx | reconstructor => exact nofun

/-- A call with copies leads to itself: to lead to a creation it would have to be given a global. -/
theorem forward_copy (same : List.Forall₂ (Match R) args args') {age : Nat} {callable : Callable}
    {target : Target} (leads : s.forward age callable args = .ok target) :
    target = .run callable args ∧
      ∀ age', s'.forward age' callable args' = .ok (.run callable args') := by
  cases callable with
  | host number =>
    rw [Store.forward] at leads
    cases leads
    exact ⟨rfl, fun age' => by rw [Store.forward]⟩
  | builtin number function =>
    rw [Store.forward] at leads
    cases made : s.creation? age function args with
    | none =>
      simp only [made] at leads
      cases leads
      have made' (age' : Nat) : s'.creation? age' function args' = none := by
        cases function <;> first | rfl | cases made
      refine ⟨rfl, fun age' => ?_⟩
      rw [Store.forward]
      simp only [made']
    | some next =>
      cases next with
      | error text =>
        simp only [made] at leads
        cases leads
      | ok next =>
        obtain ⟨_, -, copy⟩ := forall₂_left same (Store.cls_mem_of_creation? made)
        have refused : s.creator next.cls =
            .error ("cannot instantiate a " ++ s.typeName next.cls ++ " object") := by
          simp only [Store.creator, mirror.global?_eq_none copy]
        simp only [made, refused] at leads
        cases leads

end

end Mirror

/-- A function of the host that does not tell values from their copies. -/
def Host.Respects (host : Host H) (number : Nat) : Prop :=
  ∀ (s s' : Store H) (R : Nat → Nat → Prop) (args args' : List Value), Mirror s s' R →
    List.Forall₂ (Match R) args args' →
    s.Repeats s' (host.call number args) (host.call number args')

/-- What is created from copies of the arguments is alike. -/
theorem Host.create_copy {host : Host H} {symbol : Symbol}
    (respects : ∀ number, symbol = .function (.host number) → host.Respects number) {s s' : Store H}
    {R : Nat → Nat → Prop} {args args' : List Value} (mirror : Mirror s s' R)
    (same : List.Forall₂ (Match R) args args') {cls cls' : Value} (creates : s.creator cls = .ok symbol)
    (creates' : s'.creator cls' = .ok symbol) :
    s.Repeats s' (host.create cls args) (host.create cls' args') := by
  refine Store.repeats_reading fun target leads => ?_
  rw [Store.creationTarget] at leads ⊢
  simp only [creates] at leads
  simp only [creates']
  cases symbol with
  | ofClass c =>
    cases leads
    exact ⟨_, rfl, Store.repeats_alloc mirror.paired (.inst c .nil .nil)⟩
  | function callable =>
    obtain ⟨rfl, leads'⟩ := mirror.forward_copy same leads
    refine ⟨_, leads' _, ?_⟩
    cases callable with
    | host number => exact respects number rfl s s' R args args' mirror same
    | builtin number function => exact mirror.repeats_run _ function same

end ObjectStream
