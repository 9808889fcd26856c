import ObjectStream.Proofs.Matching

/-!
What values are compared by.

Equality takes a byte array for the byte string and a frozen set for the set of the same content, and
numbers by value; otherwise values of different types differ. So a value is compared by its form
(`Form`), and forms agree by their kinds and by what they hold (`Form.Agree`). Where equality is an
equivalence on what two values hold, agreement of forms is one (`Form.Agree.symm`,
`Form.Agree.trans`), it does not depend on the order of entries (`Form.Shuffled.agree`), and it is
what the comparison of the two values decides (`decides_equal?`).
-/

namespace ObjectStream

variable {H : Type}

/-! ## What values are compared by -/

/-- What a value is compared by. A global and a host object have no such form. -/
inductive Form where
  | none
  | number (x : Number)
  | text (text : String)
  | bytes (data : Bytes)
  | list (items : List Value)
  | tuple (items : List Value)
  | dict (entries : Dict)
  | members (members : Members)
  | inst (module qualname : String) (attributes : Dict)
  | other

/-- A byte array is compared like a byte string, and a set like a frozen set. -/
def Cell.form : Cell H → Form
  | .bytearray data => .bytes data
  | .list items => .list items.toList
  | .tuple items => .tuple items
  | .dict entries => .dict entries
  | .set members => .members members
  | .frozenset members => .members members
  | .inst cls attributes => .inst cls.module cls.qualname attributes
  | .global _ => .other
  | .object _ => .other

/-- The form of a value. -/
def Store.form (s : Store H) : Value → Form
  | .none => .none
  | .bool b => .number (.int b.toInt)
  | .int n => .number (.int n.toInt)
  | .long n => .number (.int n)
  | .float x => .number (.float x)
  | .complex re im => .number (.complex re im)
  | .str text => .text text
  | .bytes data => .bytes data
  | .emptyTuple => .tuple []
  | .ref i => (s.cells[i]?.map Cell.form).getD .other

namespace Store

variable {s : Store H} {v : Value}

theorem form_of_number {x : Number} (h : Number.ofValue? v = some x) : s.form v = .number x := by
  cases v with
  | bool | int | long | float | complex => cases h; rfl
  | _ => cases h

theorem form_of_cell {i : Nat} {cell : Cell H} (found : s.cells[i]? = some cell) :
    s.form (.ref i) = cell.form := by
  simp [form, found]

theorem ofValue?_of_form {x : Number} (h : s.form v = .number x) : Number.ofValue? v = some x := by
  cases v with
  | bool | int | long | float | complex => cases h; rfl
  | ref i =>
    cases found : s.cells[i]? with
    | none => simp [form, found] at h
    | some cell => cases cell <;> simp [form, found, Cell.form] at h
  | _ => cases h

end Store

variable [HostObject H] {s : Store H} {P : Value → Prop} {a b c : Value}

namespace Store.Coherent

variable (coherent : s.Coherent P) {as bs cs : List Value}
include coherent

theorem forall₂_symm (same : List.Forall₂ (s.Same P) as bs) : List.Forall₂ (s.Same P) bs as :=
  (same.imp fun _ _ => coherent.symm).flip

theorem forall₂_trans (first : List.Forall₂ (s.Same P) as bs)
    (second : List.Forall₂ (s.Same P) bs cs) : List.Forall₂ (s.Same P) as cs := by
  induction first generalizing cs with
  | nil => exact second
  | cons head _ ih =>
    cases second with
    | cons head' tail' => exact .cons (coherent.trans head head') (ih tail')

theorem decides_sameItems (ha : ∀ a ∈ as, P a) (hb : ∀ b ∈ bs, P b) :
    Decides (Store.sameItems s.equal? as bs) (List.Forall₂ (s.Same P) as bs) := by
  rw [List.forall₂_iff_zip]
  refine (Decides.guard (p := ∀ pair ∈ as.zip bs, s.Same P pair.1 pair.2)
    (Decides.allPass fun pair mem => ?_)).congr
    (and_congr_right fun _ => ⟨fun h a b => h (a, b), fun h _ => h⟩)
  exact coherent.decides (ha _ (List.of_mem_zip mem).1) (hb _ (List.of_mem_zip mem).2)

end Store.Coherent

/-- Forms of equal values; what they hold is among the values with `P`. -/
inductive Form.Agree (s : Store H) (P : Value → Prop) : Form → Form → Prop
  | none : Agree s P .none .none
  | number {x y : Number} (parts : x.parts = y.parts) : Agree s P (.number x) (.number y)
  | text (text : String) : Agree s P (.text text) (.text text)
  | bytes (data : Bytes) : Agree s P (.bytes data) (.bytes data)
  | list {as bs : List Value} (items : List.Forall₂ (s.Same P) as bs) :
      Agree s P (.list as) (.list bs)
  | tuple {as bs : List Value} (items : List.Forall₂ (s.Same P) as bs) :
      Agree s P (.tuple as) (.tuple bs)
  | dict {t u : Dict} (settled : t.Settled s P P) (settled' : u.Settled s P P)
      (matched : Matched s P (s.Same P) t u) : Agree s P (.dict t) (.dict u)
  | members {t u : Members} (settled : t.Settled s P fun _ => True)
      (settled' : u.Settled s P fun _ => True) (matched : Matched s P (fun _ _ => True) t u) :
      Agree s P (.members t) (.members u)
  | inst {module qualname : String} {t u : Dict} (settled : t.Settled s P P)
      (settled' : u.Settled s P P) (matched : Matched s P (s.Same P) t u) :
      Agree s P (.inst module qualname t) (.inst module qualname u)

namespace Form.Agree

variable {f g h : Form} {as bs : List Value} {t u : Dict} {ms ns : Members}

theorem number_iff {x y : Number} : Agree s P (.number x) (.number y) ↔ x.parts = y.parts := by
  refine ⟨fun agree => ?_, .number⟩
  cases agree with
  | number parts => exact parts

theorem of_number {x : Number} (agree : Agree s P (.number x) f) : ∃ y, f = .number y := by
  cases agree with
  | number parts => exact ⟨_, rfl⟩

theorem text_iff {text text' : String} : Agree s P (.text text) (.text text') ↔ text = text' := by
  constructor
  · rintro ⟨⟩
    rfl
  · rintro rfl
    exact .text text

theorem bytes_iff {data data' : Bytes} :
    Agree s P (.bytes data) (.bytes data') ↔ data = data' := by
  constructor
  · rintro ⟨⟩
    rfl
  · rintro rfl
    exact .bytes data

theorem list_iff : Agree s P (.list as) (.list bs) ↔ List.Forall₂ (s.Same P) as bs := by
  refine ⟨fun agree => ?_, .list⟩
  cases agree with
  | list items => exact items

theorem tuple_iff : Agree s P (.tuple as) (.tuple bs) ↔ List.Forall₂ (s.Same P) as bs := by
  refine ⟨fun agree => ?_, .tuple⟩
  cases agree with
  | tuple items => exact items

theorem dict_iff (settled : t.Settled s P P) (settled' : u.Settled s P P) :
    Agree s P (.dict t) (.dict u) ↔ Matched s P (s.Same P) t u := by
  refine ⟨fun agree => ?_, .dict settled settled'⟩
  cases agree with
  | dict _ _ matched => exact matched

theorem members_iff (settled : ms.Settled s P fun _ => True)
    (settled' : ns.Settled s P fun _ => True) :
    Agree s P (.members ms) (.members ns) ↔ Matched s P (fun _ _ => True) ms ns := by
  refine ⟨fun agree => ?_, .members settled settled'⟩
  cases agree with
  | members _ _ matched => exact matched

theorem inst_iff {module module' name name' : String} (settled : t.Settled s P P)
    (settled' : u.Settled s P P) : Agree s P (.inst module name t) (.inst module' name' u) ↔
      (module = module' ∧ name = name') ∧ Matched s P (s.Same P) t u := by
  constructor
  · intro agree
    cases agree with
    | inst _ _ matched => exact ⟨⟨rfl, rfl⟩, matched⟩
  · rintro ⟨⟨rfl, rfl⟩, matched⟩
    exact .inst settled settled' matched

theorem symm (coherent : s.Coherent P) (agree : Agree s P f g) : Agree s P g f := by
  cases agree with
  | none => exact .none
  | number parts => exact .number parts.symm
  | text text => exact .text text
  | bytes data => exact .bytes data
  | list same => exact .list (coherent.forall₂_symm same)
  | tuple same => exact .tuple (coherent.forall₂_symm same)
  | dict settled settled' matched =>
    exact .dict settled' settled (matched.symm coherent settled fun _ _ => coherent.symm)
  | members settled settled' matched =>
    exact .members settled' settled (matched.symm coherent settled fun _ _ _ => trivial)
  | inst settled settled' matched =>
    exact .inst settled' settled (matched.symm coherent settled fun _ _ => coherent.symm)

theorem trans (coherent : s.Coherent P) (first : Agree s P f g) (second : Agree s P g h) :
    Agree s P f h := by
  cases first with
  | none => exact second
  | number parts =>
    cases second with
    | number parts' => exact .number (parts.trans parts')
  | text text => exact second
  | bytes data => exact second
  | list items =>
    cases second with
    | list items' => exact .list (coherent.forall₂_trans items items')
  | tuple items =>
    cases second with
    | tuple items' => exact .tuple (coherent.forall₂_trans items items')
  | dict settled _ matched =>
    cases second with
    | dict _ settled' matched' =>
      exact .dict settled settled' (matched.trans coherent (fun _ _ _ => coherent.trans) matched')
  | members settled _ matched =>
    cases second with
    | members _ settled' matched' =>
      exact .members settled settled' (matched.trans coherent (fun _ _ _ _ _ => trivial) matched')
  | inst settled _ matched =>
    cases second with
    | inst _ settled' matched' =>
      exact .inst settled settled' (matched.trans coherent (fun _ _ _ => coherent.trans) matched')

end Form.Agree

/-- The tables hold the same entries, perhaps in another order. -/
inductive Form.Shuffled : Form → Form → Prop
  | dict {t u : Dict} (perm : t.entries.toList.Perm u.entries.toList) : Shuffled (.dict t) (.dict u)
  | members {t u : Members} (perm : t.entries.toList.Perm u.entries.toList) :
      Shuffled (.members t) (.members u)
  | inst {module qualname : String} {t u : Dict} (perm : t.entries.toList.Perm u.entries.toList) :
      Shuffled (.inst module qualname t) (.inst module qualname u)

theorem Form.Shuffled.agree {f g : Form} (shuffled : f.Shuffled g) (lawful : s.Lawful P)
    (agree : Agree s P f f) (agree' : Agree s P g g) : Agree s P f g := by
  cases shuffled with
  | dict perm =>
    cases agree with
    | dict settled =>
      cases agree' with
      | dict settled' =>
        exact .dict settled settled' (.of_perm lawful settled (fun _ => lawful.refl) perm)
  | members perm =>
    cases agree with
    | members settled =>
      cases agree' with
      | members settled' =>
        exact .members settled settled' (.of_perm lawful settled (fun _ _ => trivial) perm)
  | inst perm =>
    cases agree with
    | inst settled =>
      cases agree' with
      | inst settled' =>
        exact .inst settled settled' (.of_perm lawful settled (fun _ => lawful.refl) perm)

/-! ## One level of objects -/

/-- The object is neither a global nor a host object, tells its keys apart, and holds values
    with `P`. -/
structure Cell.Over (s : Store H) (P : Value → Prop) (cell : Cell H) : Prop where
  plain : cell.Plain fun _ => True
  orderly : cell.Orderly s True
  children : ∀ v ∈ cell.children, P v

/-- The value is an atom without a not-a-number, or an object that holds values with `P`. -/
structure Store.Above (s : Store H) (P : Value → Prop) (v : Value) : Prop where
  object : ∀ i, v = .ref i → ∃ cell, s.cells[i]? = some cell ∧ cell.Over s P
  proper : ∀ x, Number.ofValue? v = some x → x.Proper

namespace Cell.Over

variable {i j : Nat} {x y : Cell H}

theorem settled_dict {t : Dict} (level : (Cell.dict t : Cell H).Over s P) : t.Settled s P P := by
  refine ⟨⟨level.orderly.hashable, level.orderly.filed, level.orderly.distinct⟩, ?_, ?_⟩
  · exact fun e mem => level.children e.1 (mem_children.2 (.inl (List.mem_map_of_mem mem)))
  · exact fun e mem => level.children e.2 (mem_children.2 (.inr (List.mem_map_of_mem mem)))

theorem settled_inst {c : Class} {t : Dict} (level : (Cell.inst c t : Cell H).Over s P) :
    t.Settled s P P :=
  settled_dict ⟨trivial, ⟨level.orderly.hashable, level.orderly.filed, level.orderly.distinct⟩,
    level.children⟩

theorem settled_set {t : Members} (level : (Cell.set t : Cell H).Over s P) :
    t.Settled s P fun _ => True := by
  refine ⟨⟨level.orderly.hashable, level.orderly.filed, level.orderly.distinct⟩, ?_, ?_⟩
  · exact fun e mem => level.children e.1 (mem_children.2 (.inl (List.mem_map_of_mem mem)))
  · exact fun _ _ => trivial

theorem settled_frozenset {t : Members} (level : (Cell.frozenset t : Cell H).Over s P) :
    t.Settled s P fun _ => True :=
  settled_set ⟨trivial, ⟨level.orderly.hashable, level.orderly.filed, level.orderly.distinct⟩,
    level.children⟩

theorem agree_refl (lawful : s.Lawful P) (level : x.Over s P) : Form.Agree s P x.form x.form := by
  have items : ∀ {vs : List Value}, (∀ v ∈ vs, P v) → List.Forall₂ (s.Same P) vs vs :=
    fun inside => List.forall₂_same.2 fun v mem => lawful.refl (inside v mem)
  have held : ∀ v ∈ x.contents, P v := fun v mem => level.children v (mem_children.2 (.inr mem))
  cases x with
  | bytearray data => exact .bytes data
  | list vs => exact .list (items held)
  | tuple vs => exact .tuple (items held)
  | dict t =>
    have settled := level.settled_dict
    exact .dict settled settled (.refl lawful settled fun _ => lawful.refl)
  | set t =>
    have settled := level.settled_set
    exact .members settled settled (.refl lawful settled fun _ _ => trivial)
  | frozenset t =>
    have settled := level.settled_frozenset
    exact .members settled settled (.refl lawful settled fun _ _ => trivial)
  | inst c t =>
    have settled := level.settled_inst
    exact .inst settled settled (.refl lawful settled fun _ => lawful.refl)
  | global g => exact absurd level.plain id
  | object content => exact absurd level.plain id

/-- The comparison of two objects by content decides whether their forms agree. -/
theorem decides_sameCells (classed : s.Classed) (lawful : s.Lawful P)
    (found : s.cells[i]? = some x) (found' : s.cells[j]? = some y) (hx : x.Over s P)
    (hy : y.Over s P) :
    Decides (s.sameCells none s.equal? x y) (Form.Agree s P x.form y.form) := by
  have held : ∀ v ∈ x.contents, P v := fun v mem => hx.children v (mem_children.2 (.inr mem))
  have held' : ∀ v ∈ y.contents, P v := fun v mem => hy.children v (mem_children.2 (.inr mem))
  cases y with
  | global | object => exact absurd hy.plain id
  | bytearray data' =>
    cases x with
    | global | object => exact absurd hx.plain id
    | bytearray data => exact (Decides.bool _).congr (beq_iff_eq.trans Form.Agree.bytes_iff.symm)
    | _ => exact .no (by rintro ⟨⟩)
  | list bs =>
    cases x with
    | global | object => exact absurd hx.plain id
    | list as => exact (lawful.decides_sameItems held held').congr Form.Agree.list_iff.symm
    | _ => exact .no (by rintro ⟨⟩)
  | tuple bs =>
    cases x with
    | global | object => exact absurd hx.plain id
    | tuple as => exact (lawful.decides_sameItems held held').congr Form.Agree.tuple_iff.symm
    | _ => exact .no (by rintro ⟨⟩)
  | dict u =>
    cases x with
    | global | object => exact absurd hx.plain id
    | dict t =>
      have agree := Form.Agree.dict_iff hx.settled_dict hy.settled_dict
      exact (Store.decides_sameDict lawful.toCoherent hx.settled_dict hy.settled_dict).congr agree.symm
    | _ => exact .no (by rintro ⟨⟩)
  | set u =>
    cases x with
    | global | object => exact absurd hx.plain id
    | set t =>
      have agree := Form.Agree.members_iff hx.settled_set hy.settled_set
      exact (Store.decides_sameMembers lawful.toCoherent hx.settled_set hy.settled_set).congr agree.symm
    | frozenset t =>
      -- the set on the right is asked
      have agree := Form.Agree.members_iff hy.settled_set hx.settled_frozenset
      exact (Store.decides_sameMembers lawful.toCoherent hy.settled_set hx.settled_frozenset).congr
        (agree.symm.trans ⟨.symm lawful.toCoherent, .symm lawful.toCoherent⟩)
    | _ => exact .no (by rintro ⟨⟩)
  | frozenset u =>
    cases x with
    | global | object => exact absurd hx.plain id
    | set t =>
      have agree := Form.Agree.members_iff hx.settled_set hy.settled_frozenset
      exact (Store.decides_sameMembers lawful.toCoherent hx.settled_set hy.settled_frozenset).congr agree.symm
    | frozenset t =>
      have agree := Form.Agree.members_iff hx.settled_frozenset hy.settled_frozenset
      exact (Store.decides_sameMembers lawful.toCoherent hx.settled_frozenset hy.settled_frozenset).congr
        agree.symm
    | _ => exact .no (by rintro ⟨⟩)
  | inst d u =>
    cases x with
    | global | object => exact absurd hx.plain id
    | inst c t =>
      have names : (c.key = d.key ∨ (c.module = d.module ∧ c.qualname = d.qualname)) ↔
          c.module = d.module ∧ c.qualname = d.qualname := by
        refine ⟨?_, .inr⟩
        rintro (key | names)
        · rw [classed found found' key]
          exact ⟨rfl, rfl⟩
        · exact names
      exact (Store.decides_sameDict lawful.toCoherent hx.settled_inst hy.settled_inst).guard.congr
        ((and_congr_left' names).trans
          (Form.Agree.inst_iff hx.settled_inst hy.settled_inst).symm)
    | _ => exact .no (by rintro ⟨⟩)

end Cell.Over

/-! ## Values -/

namespace Store

/-- The comparison of two values decides whether their forms agree. -/
theorem decides_equal? (classed : s.Classed) (lawful : s.Lawful P) (ha : s.Above P a)
    (hb : s.Above P b) : Decides (s.equal? a b) (Form.Agree s P (s.form a) (s.form b)) := by
  by_cases numbers : Number.ofValue? a = none ∨ Number.ofValue? b = none
  · rw [equal?_eq_sameBy numbers]
    cases a with
    | none =>
      cases b with
      | none => exact .yes .none
      | ref j =>
        obtain ⟨y, found, -⟩ := hb.object j rfl
        rw [form_of_cell found]
        exact .no (by cases y <;> rintro ⟨⟩)
      | _ => exact .no (by rintro ⟨⟩)
    | str x =>
      cases b with
      | str y => exact (Decides.bool _).congr (beq_iff_eq.trans Form.Agree.text_iff.symm)
      | ref j =>
        obtain ⟨y, found, -⟩ := hb.object j rfl
        rw [form_of_cell found]
        exact .no (by cases y <;> rintro ⟨⟩)
      | _ => exact .no (by rintro ⟨⟩)
    | bytes x =>
      cases b with
      | bytes y => exact (Decides.bool _).congr (beq_iff_eq.trans Form.Agree.bytes_iff.symm)
      | ref j =>
        obtain ⟨y, found, -⟩ := hb.object j rfl
        simp only [form_of_cell found, sameBy, found]
        cases y with
        | bytearray y => exact (Decides.bool _).congr (beq_iff_eq.trans Form.Agree.bytes_iff.symm)
        | _ => exact .no (by rintro ⟨⟩)
      | _ => exact .no (by rintro ⟨⟩)
    | emptyTuple =>
      cases b with
      | emptyTuple => exact .yes (.tuple .nil)
      | ref j =>
        obtain ⟨y, found, level⟩ := hb.object j rfl
        rw [form_of_cell found]
        cases y with
        | tuple bs =>
          refine .no fun agree => level.plain ?_
          exact List.forall₂_nil_left_iff.1 (Form.Agree.tuple_iff.1 agree)
        | _ => exact .no (by rintro ⟨⟩)
      | _ => exact .no (by rintro ⟨⟩)
    | ref i =>
      obtain ⟨x, found, level⟩ := ha.object i rfl
      cases b with
      | ref j =>
        obtain ⟨y, found', level'⟩ := hb.object j rfl
        rw [form_of_cell found, form_of_cell found']
        by_cases apart : i = j
        · subst apart
          obtain rfl := Option.some.inj (found.symm.trans found')
          simp only [sameBy, if_true]
          exact .yes (level.agree_refl lawful)
        · rw [sameBy_none_refs apart found found']
          exact Cell.Over.decides_sameCells classed lawful found found' level level'
      | bytes y =>
        simp only [form_of_cell found, sameBy, found]
        cases x with
        | bytearray x => exact (Decides.bool _).congr (beq_iff_eq.trans Form.Agree.bytes_iff.symm)
        | _ => exact .no (by rintro ⟨⟩)
      | emptyTuple =>
        rw [form_of_cell found]
        cases x with
        | tuple as =>
          refine .no fun agree => level.plain ?_
          exact List.forall₂_nil_right_iff.1 (Form.Agree.tuple_iff.1 agree)
        | _ => exact .no (by rintro ⟨⟩)
      | _ =>
        rw [form_of_cell found]
        exact .no (by cases x <;> rintro ⟨⟩)
    | _ =>
      -- `a` is a number, and `b` is none
      rw [Mirror.sameBy_number (.inl rfl)]
      refine .no fun agree => ?_
      obtain ⟨y, form⟩ := agree.of_number
      rw [ofValue?_of_form form] at numbers
      simp [Number.ofValue?] at numbers
  · simp only [not_or, ← ne_eq, ← Option.isSome_iff_ne_none, Option.isSome_iff_exists] at numbers
    obtain ⟨⟨x, hx⟩, y, hy⟩ := numbers
    rw [equal?_of_numbers hx hy, form_of_number hx, form_of_number hy]
    have parts := Number.same_iff (ha.proper x hx) (hb.proper y hy)
    exact (Decides.bool _).congr (parts.trans Form.Agree.number_iff.symm)

end Store

end ObjectStream
