import ObjectStream.Proofs.Bindings
import ObjectStream.Proofs.DottedPaths

/-!
Placeholders.

Whatever is bound in a namespace, the modules above a module are modules too, and a module that binds
nothing has modules below it (`Namespace.WellFormed`). A placeholder may bring modules along. They are
the last ones of the lineage of its module, so those that are empty again when it is removed, from the
longest path to the first module that has bindings or other modules below it, are the ones that it
brought along: its removal restores the namespace (`Namespace.removePlaceholder_inject`). The module
paths ascend, so the first one from a path and a dot on tells whether there are modules below the path
(`Namespace.hasSubmodules_eq_nextIsBelow`).
-/

namespace ObjectStream

/-! ## Lineages -/

/-- These are the modules above the path, the longest first. -/
structure Lineage (path : String) (upper : List String) : Prop where
  mem : ∀ {module}, module ∈ upper ↔ Above module path
  order : upper.Pairwise fun lower higher => Above higher lower

namespace Lineage

variable {path parent : String} {rest : List String}

theorem parent_above (h : Lineage path (parent :: rest)) : Above parent path :=
  h.mem.1 (List.mem_cons_self ..)

/-- The modules above the first one are the others. -/
theorem tail (h : Lineage path (parent :: rest)) : Lineage parent rest where
  mem {module} := by
    obtain ⟨first, -⟩ := List.pairwise_cons.1 h.order
    constructor
    · exact first module
    · intro above
      have listed : module ∈ parent :: rest := h.mem.2 (above.trans h.parent_above)
      exact (List.mem_cons.1 listed).resolve_left above.ne
  order := (List.pairwise_cons.1 h.order).2

end Lineage

theorem lineage_parents (path : String) : Lineage path (Namespace.parents path).reverse where
  mem {module} := by
    rw [Namespace.parents, List.reverse_reverse, List.mem_map]
    constructor
    · rintro ⟨⟨_, rest⟩, mem, rfl⟩
      exact ⟨rest, mem_dottedSplits.1 mem⟩
    · rintro ⟨rest, whole⟩
      exact ⟨(module, rest), mem_dottedSplits.2 whole, rfl⟩
  order := by
    rw [Namespace.parents, List.reverse_reverse]
    exact List.pairwise_map.2 (pairwise_dottedSplits path)

namespace Namespace

variable {ns : Namespace} {n : Name} {b : Binding} {path module : String} {upper paths : List String}

theorem mem_parents : module ∈ parents path ↔ Above module path := by
  rw [← List.mem_reverse, (lineage_parents path).mem]

/-! ## Modules -/

theorem hasModule_iff : ns.hasModule path = true ↔ ∃ bindings, ns.modules.find? path = some bindings :=
  Option.isSome_iff_exists

theorem hasSubmodules_iff :
    ns.hasSubmodules path = true ↔ ∃ lower, Above path lower ∧ ns.hasModule lower = true := by
  have below (k : String) : (path ++ ".").toList.isPrefixOf k.toList = true ↔ Above path k := by
    simp only [List.isPrefixOf_iff_prefix, List.IsPrefix, Above, eq_dotted_iff]
    constructor
    · rintro ⟨rest, whole⟩
      exact ⟨String.ofList rest, by simpa using whole.symm⟩
    · rintro ⟨rest, whole⟩
      exact ⟨rest.toList, by simpa using whole.symm⟩
  simp only [hasSubmodules, List.any_eq_true, below, hasModule, Directory.isSome_find?]
  constructor
  · rintro ⟨entry, mem, lower⟩
    exact ⟨entry.1, lower, entry, mem, rfl⟩
  · rintro ⟨_, lower, entry, mem, rfl⟩
    exact ⟨entry, mem, lower⟩

/-- What comes between a text and one that begins with it begins with it as well. -/
theorem prefix_of_between {front text rest : List Char} (low : ¬text < front)
    (high : ¬front ++ rest < text) : front <+: text := by
  induction front generalizing text with
  | nil => exact List.nil_prefix
  | cons c front ih =>
    cases text with
    | nil => exact absurd (List.nil_lt_cons ..) low
    | cons d text =>
      rw [List.cons_lt_cons_iff, not_or, not_and] at low
      rw [List.cons_append, List.cons_lt_cons_iff, not_or, not_and] at high
      -- neither character may be the smaller one
      have same : c = d := Std.le_antisymm (Std.not_lt.1 low.1) (Std.not_lt.1 high.1)
      exact same ▸ (List.prefix_cons_inj c).2 (ih (low.2 same.symm) (high.2 same))

/-- Whether the first module path in order from `path` and a dot on begins with them. -/
def nextIsBelow (ns : Namespace) (path : String) : Bool :=
  (List.find? (fun entry => !decide (entry.1 < path ++ ".")) ns.modules).any fun entry =>
    (path ++ ".").toList.isPrefixOf entry.1.toList

/-- The modules below a path follow it in order, so the first one tells. -/
theorem hasSubmodules_eq_nextIsBelow (h : Directory.Ascending ns.modules) (path : String) :
    ns.hasSubmodules path = ns.nextIsBelow path := by
  rw [Bool.eq_iff_iff, hasSubmodules, nextIsBelow, List.any_eq_true, Option.any_eq_true]
  constructor
  · rintro ⟨entry, mem, below⟩
    obtain ⟨rest, whole⟩ := List.isPrefixOf_iff_prefix.1 below
    have behind : (!decide (entry.1 < path ++ ".")) = true := by
      rw [Bool.not_eq_true', decide_eq_false_iff_not, String.lt_iff, ← whole]
      exact List.not_lt.2 List.le_append_left
    have some : (List.find? (fun entry => !decide (entry.1 < path ++ ".")) ns.modules).isSome = true :=
      List.find?_isSome.2 ⟨entry, mem, behind⟩
    obtain ⟨first, found⟩ := Option.isSome_iff_exists.1 some
    refine ⟨first, found, ?_⟩
    -- the module below the path is not among those that were passed over
    obtain ⟨start, before, after, split, passed⟩ := List.find?_eq_some_iff_append.1 found
    rw [split] at h mem
    rcases List.mem_append.1 mem with earlier | here
    · have none := passed entry earlier
      rw [behind] at none
      cases none
    rcases List.mem_cons.1 here with rfl | later
    · exact below
    · have order : first.1 < entry.1 :=
        (List.pairwise_cons.1 (List.pairwise_append.1 h).2.1).1 entry later
      rw [Bool.not_eq_true', decide_eq_false_iff_not, String.lt_iff] at start
      have high : ¬entry.1.toList < first.1.toList := fun back =>
        String.lt_irrefl _ (String.lt_trans order (String.lt_iff.2 back))
      exact List.isPrefixOf_iff_prefix.2 (prefix_of_between start (whole ▸ high))
  · rintro ⟨entry, found, below⟩
    exact ⟨entry, List.mem_of_find?_eq_some found, below⟩

/-- The modules ascend, those above a module are modules too, and a module that binds nothing has
    modules below it. -/
structure WellFormed (ns : Namespace) : Prop where
  ascending : Directory.Ascending ns.modules
  closed : ∀ {module path}, Above module path → ns.hasModule path = true → ns.hasModule module = true
  occupied : ∀ {path}, ns.modules.find? path = some [] → ns.hasSubmodules path = true

theorem wellFormed_empty : empty.WellFormed := ⟨.nil, nofun, nofun⟩

/-! ## Binding -/

theorem find?_ensureOne (ns : Namespace) (path other : String) :
    (ns.ensureOne path).modules.find? other =
      (ns.modules.find? other).or (if other = path then some [] else none) := by
  unfold ensureOne
  split
  · next there =>
    obtain ⟨bindings, found⟩ := hasModule_iff.1 there
    by_cases same : other = path
    · simp [same, found]
    · simp [same]
  · next missing =>
    rw [Directory.find?_insert]
    by_cases same : other = path
    · rw [Bool.not_eq_true, hasModule_eq_false] at missing
      simp [same, missing]
    · simp [same]

theorem find?_foldl_ensureOne (ns : Namespace) (paths : List String) (other : String) :
    (paths.foldl ensureOne ns).modules.find? other =
      (ns.modules.find? other).or (if other ∈ paths then some [] else none) := by
  induction paths generalizing ns with
  | nil => simp
  | cons first rest ih =>
    rw [List.foldl_cons, ih, find?_ensureOne, Option.or_assoc]
    by_cases same : other = first <;> simp [same]

theorem ascending_foldl_ensureOne (h : Directory.Ascending ns.modules) (paths : List String) :
    Directory.Ascending (paths.foldl ensureOne ns).modules := by
  induction paths generalizing ns with
  | nil => exact h
  | cons first rest ih =>
    refine ih ?_
    unfold ensureOne
    split
    · exact h
    · exact h.insert _ _

theorem find?_ensureModule (ns : Namespace) (module other : String) :
    (ns.ensureModule module).modules.find? other = (ns.modules.find? other).or
      (if other ∈ parents module ++ [module] then some [] else none) :=
  find?_foldl_ensureOne ..

/-- A binding is put into its module, and the modules above that are there then. -/
theorem find?_bind (ns : Namespace) (n : Name) (b : Binding) (path : String) :
    (ns.bind n b).modules.find? path =
      if path = n.module then
        some (Directory.insert n.qualname b ((ns.modules.find? n.module).getD []))
      else (ns.modules.find? path).or (if path ∈ parents n.module then some [] else none) := by
  have former : ((ns.ensureModule n.module).modules.find? n.module).getD [] =
      (ns.modules.find? n.module).getD [] := by
    rw [find?_ensureModule]
    cases ns.modules.find? n.module <;> simp
  simp only [bind, Directory.find?_insert, former]
  by_cases same : path = n.module
  · rw [if_pos same, if_pos same]
  · rw [if_neg same, if_neg same, find?_ensureModule]
    simp [same]

theorem hasModule_bind : (ns.bind n b).hasModule path = true ↔
    ns.hasModule path = true ∨ path = n.module ∨ Above path n.module := by
  rw [← mem_parents]
  simp only [hasModule, find?_bind]
  by_cases same : path = n.module
  · simp [same]
  · by_cases upper : path ∈ parents n.module <;> simp [same, upper]

theorem insert_ne_nil {α : Type} (key : String) (content : α) (d : Directory α) :
    Directory.insert key content d ≠ [] := by
  intro none
  have found := Directory.find?_insert d key content key
  rw [none, if_pos rfl] at found
  cases found

theorem WellFormed.bind (h : ns.WellFormed) (n : Name) (b : Binding) : (ns.bind n b).WellFormed where
  ascending := (ascending_foldl_ensureOne h.ascending _).insert _ _
  closed {upper path} above has := by
    rw [hasModule_bind] at has ⊢
    rcases has with former | rfl | between
    · exact .inl (h.closed above former)
    · exact .inr (.inr above)
    · exact .inr (.inr (above.trans between))
  occupied {path} found := by
    rw [find?_bind] at found
    split at found
    · exact absurd (Option.some.inj found) (insert_ne_nil _ _ _)
    rw [hasSubmodules_iff]
    cases former : ns.modules.find? path with
    | some bindings =>
      rw [former, Option.some_or] at found
      obtain ⟨lower, above, has⟩ := hasSubmodules_iff.1 (h.occupied (former.trans found))
      exact ⟨lower, above, hasModule_bind.2 (.inl has)⟩
    | none =>
      -- a new module is above the one that the name is bound in
      rw [former, Option.none_or] at found
      split at found
      · next upper => exact ⟨n.module, mem_parents.1 upper, hasModule_bind.2 (.inr (.inl rfl))⟩
      · cases found

theorem WellFormed.inject (h : ns.WellFormed) (n : Name) (symbol : Symbol) :
    (ns.inject n symbol).2.WellFormed := by
  unfold Namespace.inject
  split
  · exact h
  · exact h.bind _ _

/-! ## Dropping modules -/

/-- Only a module that is empty and has none below it is dropped. -/
theorem dropEmpty_stays (rest : List String)
    (h : ns.modules.find? path = some [] → ns.hasSubmodules path = true) :
    ns.dropEmpty (path :: rest) = ns := by
  rw [dropEmpty]
  split
  · next empty => rw [if_pos (h empty)]
  · rfl

theorem dropEmpty_goes (rest : List String) (empty : ns.modules.find? path = some [])
    (alone : ns.hasSubmodules path = false) :
    ns.dropEmpty (path :: rest) = dropEmpty { modules := ns.modules.erase path } rest := by
  rw [dropEmpty, empty]
  simp [alone]

theorem stays_or_goes (ns : Namespace) (path : String) :
    (ns.modules.find? path = some [] → ns.hasSubmodules path = true) ∨
      ns.modules.find? path = some [] ∧ ns.hasSubmodules path = false := by
  cases ns.hasSubmodules path
  · by_cases empty : ns.modules.find? path = some []
    · exact .inr ⟨empty, rfl⟩
    · exact .inl fun empty' => absurd empty' empty
  · exact .inl fun _ => rfl

theorem binding?_dropEmpty (ns : Namespace) (paths : List String) (module name : String) :
    (ns.dropEmpty paths).binding? module name = ns.binding? module name := by
  induction paths generalizing ns with
  | nil => rfl
  | cons path rest ih =>
    obtain stays | ⟨empty, alone⟩ := ns.stays_or_goes path
    · rw [dropEmpty_stays rest stays]
    · rw [dropEmpty_goes rest empty alone, ih]
      simp only [binding?, Directory.find?_erase]
      split
      · next same => rw [same, empty]; rfl
      · rfl

/-- The namespace is well-formed, but this module may be empty with none below it. -/
structure Nearly (ns : Namespace) (spared : String) : Prop where
  ascending : Directory.Ascending ns.modules
  closed : ∀ {module path}, Above module path → ns.hasModule path = true → ns.hasModule module = true
  occupied : ∀ {path}, path ≠ spared → ns.modules.find? path = some [] → ns.hasSubmodules path = true

theorem Nearly.wellFormed (h : ns.Nearly path)
    (stays : ns.modules.find? path = some [] → ns.hasSubmodules path = true) : ns.WellFormed where
  ascending := h.ascending
  closed := h.closed
  occupied {other} found := by
    by_cases same : other = path
    · exact same ▸ stays (same ▸ found)
    · exact h.occupied same found

theorem Nearly.dropEmpty_stays (h : ns.Nearly path)
    (stays : ns.modules.find? path = some [] → ns.hasSubmodules path = true) (rest : List String) :
    (ns.dropEmpty (path :: rest)).WellFormed := by
  rw [Namespace.dropEmpty_stays rest stays]
  exact h.wellFormed stays

theorem hasModule_erase : hasModule { modules := ns.modules.erase path } module = true ↔
    module ≠ path ∧ ns.hasModule module = true := by
  simp only [hasModule, Directory.find?_erase]
  by_cases same : module = path <;> simp [same]

/-- Without an empty module with none below it, the modules above a module are still there. What had no
    other module below it is above the one that is gone. -/
theorem Nearly.erase (h : ns.Nearly path) (alone : ns.hasSubmodules path = false) :
    Directory.Ascending (ns.modules.erase path) ∧
    (∀ {module lower}, Above module lower → hasModule { modules := ns.modules.erase path } lower = true →
      hasModule { modules := ns.modules.erase path } module = true) ∧
    ∀ {other}, Directory.find? (ns.modules.erase path) other = some [] →
      hasSubmodules { modules := ns.modules.erase path } other = true ∨
        Above other path ∧ ns.hasModule path = true := by
  refine ⟨h.ascending.erase _, fun above has => ?_, fun {other} found => ?_⟩
  · rw [hasModule_erase] at has ⊢
    refine ⟨?_, h.closed above has.2⟩
    rintro rfl
    have below := hasSubmodules_iff.2 ⟨_, above, has.2⟩
    rw [alone] at below
    cases below
  · rw [Directory.find?_erase] at found
    split at found
    · cases found
    next other' =>
    obtain ⟨lower, above, has⟩ := hasSubmodules_iff.1 (h.occupied other' found)
    by_cases gone : lower = path
    · exact .inr (gone ▸ ⟨above, has⟩)
    · exact .inl (hasSubmodules_iff.2 ⟨lower, above, hasModule_erase.2 ⟨gone, has⟩⟩)

/-- Modules are dropped until the namespace is well-formed: what a dropped module leaves empty is the
    next one above it. -/
theorem Nearly.dropEmpty (h : ns.Nearly path) (lineage : Lineage path upper) :
    (ns.dropEmpty (path :: upper)).WellFormed := by
  -- along the lineage, where only the first module may be empty with none below it
  induction upper generalizing ns path with
  | nil =>
    obtain stays | ⟨empty, alone⟩ := ns.stays_or_goes path
    · exact h.dropEmpty_stays stays []
    · rw [dropEmpty_goes [] empty alone]
      obtain ⟨ascending, closed, occupied⟩ := h.erase alone
      refine ⟨ascending, closed, fun found => (occupied found).resolve_right ?_⟩
      rintro ⟨above, -⟩
      exact absurd (lineage.mem.2 above) List.not_mem_nil
  | cons parent rest ih =>
    obtain stays | ⟨empty, alone⟩ := ns.stays_or_goes path
    · exact h.dropEmpty_stays stays _
    · rw [dropEmpty_goes _ empty alone]
      obtain ⟨ascending, closed, occupied⟩ := h.erase alone
      refine ih ⟨ascending, closed, fun {other} apart found => ?_⟩ lineage.tail
      refine (occupied found).elim id ?_
      rintro ⟨above, has⟩
      -- the next module above is below every other one
      have between : Above other parent :=
        lineage.tail.mem.1 ((List.mem_cons.1 (lineage.mem.2 above)).resolve_left apart)
      have parent_ne := lineage.parent_above.ne
      exact hasSubmodules_iff.2 ⟨parent, between,
        hasModule_erase.2 ⟨parent_ne, h.closed lineage.parent_above has⟩⟩

/-! ## Removing -/

/-- Whether a placeholder is bound to the name. -/
def standsIn (ns : Namespace) (n : Name) : Bool :=
  (ns.binding? n.module n.qualname).any Binding.placeholder

/-- A removal drops the modules that the placeholder has left empty; without a placeholder it does
    nothing. -/
theorem removePlaceholder_cases (ns : Namespace) (n : Name) :
    ns.standsIn n = false ∧ ns.removePlaceholder n = ns ∨
    ns.standsIn n = true ∧ ∃ bindings, ns.modules.find? n.module = some bindings ∧
      ns.removePlaceholder n =
        dropEmpty { modules := ns.modules.insert n.module (bindings.erase n.qualname) }
          (n.module :: (parents n.module).reverse) := by
  unfold removePlaceholder standsIn binding?
  cases ns.modules.find? n.module with
  | none => exact .inl ⟨rfl, rfl⟩
  | some bindings =>
    dsimp only [Option.bind_some]
    cases bindings.find? n.qualname with
    | none => exact .inl ⟨rfl, rfl⟩
    | some b =>
      obtain ⟨symbol, _ | _⟩ := b
      · exact .inl ⟨rfl, rfl⟩
      · exact .inr ⟨rfl, bindings, rfl, rfl⟩

theorem WellFormed.removePlaceholder (h : ns.WellFormed) (n : Name) :
    (ns.removePlaceholder n).WellFormed := by
  obtain ⟨-, same⟩ | ⟨-, bindings, found, removed⟩ := removePlaceholder_cases ns n
  · rw [same]
    exact h
  rw [removed]
  -- the modules are the same as before
  have has (path : String) : hasModule
      { modules := ns.modules.insert n.module (bindings.erase n.qualname) } path = ns.hasModule path := by
    simp only [hasModule, Directory.find?_insert]
    split
    · next same => rw [same, found]; rfl
    · rfl
  refine Nearly.dropEmpty ⟨h.ascending.insert _ _, fun {module path} above => ?_, fun apart empty => ?_⟩
    (lineage_parents _)
  · rw [has, has]
    exact h.closed above
  · rw [Directory.find?_insert, if_neg apart] at empty
    obtain ⟨lower, above, there⟩ := hasSubmodules_iff.1 (h.occupied empty)
    exact hasSubmodules_iff.2 ⟨lower, above, by rwa [has]⟩

/-- A removal takes the placeholder of that name away, and no other binding. -/
theorem binding?_removePlaceholder (ns : Namespace) (n other : Name) :
    (ns.removePlaceholder n).binding? other.module other.qualname =
      if other = n ∧ ns.standsIn n = true then none
      else ns.binding? other.module other.qualname := by
  obtain ⟨real, same⟩ | ⟨stands, bindings, found, removed⟩ := removePlaceholder_cases ns n
  · rw [same, real, if_neg (by simp)]
  rw [removed, binding?_dropEmpty, stands]
  obtain ⟨module, name⟩ := n
  obtain ⟨module', name'⟩ := other
  simp only [binding?, Directory.find?_insert, Name.mk.injEq, and_true]
  by_cases same : module' = module
  · subst same
    simp only [if_true, true_and, found, Option.bind_some, Directory.find?_erase]
  · simp only [same, false_and, if_false]

/-! ## Placeholders that come and go -/

/-- A well-formed namespace has nothing to drop. -/
theorem WellFormed.dropEmpty (h : ns.WellFormed) (paths : List String) : ns.dropEmpty paths = ns := by
  cases paths with
  | nil => rfl
  | cons path rest => exact dropEmpty_stays rest h.occupied

theorem foldl_ensureOne_of_has (h : ∀ path ∈ paths, ns.hasModule path = true) :
    paths.foldl ensureOne ns = ns := by
  induction paths with
  | nil => rfl
  | cons first rest ih =>
    rw [List.foldl_cons, ensureOne, if_pos (h first (List.mem_cons_self ..))]
    exact ih fun path mem => h path (List.mem_cons_of_mem _ mem)

/-- The last module of a lineage is dropped again if it was not there. -/
theorem WellFormed.dropEmpty_last (h : ns.WellFormed) (lineage : Lineage path upper) :
    ((upper.reverse ++ [path]).foldl ensureOne ns).dropEmpty (path :: upper) =
      (upper.reverse.foldl ensureOne ns).dropEmpty upper := by
  rw [List.foldl_append, List.foldl_cons, List.foldl_nil]
  cases has : ns.hasModule path with
  | true =>
    -- then those above it were there too
    have former : upper.reverse.foldl ensureOne ns = ns := foldl_ensureOne_of_has fun other mem =>
      h.closed (lineage.mem.1 (List.mem_reverse.1 mem)) has
    rw [former, ensureOne, if_pos has, h.dropEmpty, h.dropEmpty]
  | false =>
    have absent : (upper.reverse.foldl ensureOne ns).modules.find? path = none := by
      have apart : path ∉ upper := fun mem => (lineage.mem.1 mem).ne rfl
      rw [find?_foldl_ensureOne, hasModule_eq_false.1 has, if_neg (by simpa using apart)]
      rfl
    have added : (upper.reverse.foldl ensureOne ns).ensureOne path =
        { modules := (upper.reverse.foldl ensureOne ns).modules.insert path [] } := by
      rw [ensureOne, hasModule, absent]
      rfl
    have empty : Directory.find?
        ((upper.reverse.foldl ensureOne ns).modules.insert path []) path = some [] := by
      rw [Directory.find?_insert, if_pos rfl]
    rw [added, dropEmpty_goes upper empty, Directory.erase_insert absent]
    -- a module below it would have had it above, or would be one of those above it
    rw [Bool.eq_false_iff]
    intro below
    obtain ⟨lower, above, there⟩ := hasSubmodules_iff.1 below
    simp only [hasModule, Directory.find?_insert, if_neg above.ne.symm, find?_foldl_ensureOne,
      Option.isSome_or, Bool.or_eq_true] at there
    rcases there with former | between
    · rw [h.closed above former] at has
      cases has
    · have upward : Above lower path := by
        refine lineage.mem.1 ?_
        by_contra other
        rw [if_neg (by simpa using other)] at between
        cases between
      exact (above.trans upward).ne rfl

/-- The modules of a lineage that were not there are dropped again, and no others. -/
theorem WellFormed.dropEmpty_foldl (h : ns.WellFormed) (lineage : Lineage path upper) :
    ((upper.reverse ++ [path]).foldl ensureOne ns).dropEmpty (path :: upper) = ns := by
  induction upper generalizing path with
  | nil => exact h.dropEmpty_last lineage
  | cons parent rest ih =>
    rw [h.dropEmpty_last lineage, List.reverse_cons]
    exact ih lineage.tail

/-- A name that is not bound directly gets a placeholder and loses it, and nothing else is left of it. -/
theorem WellFormed.removePlaceholder_bind (h : ns.WellFormed) (n : Name) (symbol : Symbol)
    (unbound : ns.binding? n.module n.qualname = none) :
    (ns.bind n { symbol := symbol, placeholder := true }).removePlaceholder n = ns := by
  have ascending : Directory.Ascending (ns.ensureModule n.module).modules :=
    ascending_foldl_ensureOne h.ascending _
  obtain ⟨bindings, found⟩ : ∃ bindings,
      (ns.ensureModule n.module).modules.find? n.module = some bindings := by
    rw [find?_ensureModule]
    cases ns.modules.find? n.module <;> simp
  have free : Directory.find? bindings n.qualname = none := by
    rw [← binding?_ensureModule ns n.module, binding?, found] at unbound
    exact unbound
  -- without the placeholder the module binds what it bound before
  simp only [Namespace.bind, found, Option.getD_some, Namespace.removePlaceholder,
    Directory.find?_insert, if_true]
  rw [Directory.erase_insert free, Directory.insert_insert, ascending.insert_self found]
  have last := h.dropEmpty_foldl (lineage_parents n.module)
  rwa [List.reverse_reverse] at last

theorem removePlaceholder_inject (h : ns.WellFormed) (n : Name) (symbol : Symbol)
    (unresolved : (ns.resolve n).symbol? = none) :
    (ns.inject n symbol).2.removePlaceholder n = ns := by
  have unbound : ns.binding? n.module n.qualname = none := by
    by_contra bound
    obtain ⟨b, bound⟩ := Option.ne_none_iff_exists'.1 bound
    rw [resolve_of_binding bound] at unresolved
    cases unresolved
  unfold Namespace.inject
  split
  · next existing found =>
    rw [found] at unresolved
    cases unresolved
  · exact h.removePlaceholder_bind n symbol unbound

/-- What an injection hands back is what the name stands for then. -/
theorem resolve_inject (ns : Namespace) (n : Name) (symbol : Symbol) :
    (ns.inject n symbol).2.resolve n = .found (ns.inject n symbol).1 := by
  unfold Namespace.inject
  split
  · next existing found => exact found
  · have bound := ns.binding?_bind n { symbol := symbol, placeholder := true } n
    rw [if_pos rfl] at bound
    exact resolve_of_binding bound

theorem inject_of_found {existing : Symbol} (found : ns.resolve n = .found existing)
    (symbol : Symbol) : ns.inject n symbol = (existing, ns) := by
  rw [Namespace.inject, found]

/-! ## Edits one after the other -/

/-- What may be done to a namespace. -/
inductive Edit where
  | define (n : Name) (symbol : Symbol)
  | inject (n : Name) (symbol : Symbol)
  | injectClass (n : Name) (number : Nat)
  | removePlaceholder (n : Name)

/-- The namespace behind an edit. -/
def edit (ns : Namespace) : Edit → Namespace
  | .define n symbol => ns.define n symbol
  | .inject n symbol => (ns.inject n symbol).2
  | .injectClass n number => (ns.injectClass n number).2
  | .removePlaceholder n => ns.removePlaceholder n

theorem WellFormed.edit (h : ns.WellFormed) (e : Edit) : (ns.edit e).WellFormed := by
  cases e with
  | define n symbol => exact h.bind n _
  | inject n symbol => exact h.inject n symbol
  | injectClass n number => exact h.inject n _
  | removePlaceholder n => exact h.removePlaceholder n

theorem WellFormed.edits (h : ns.WellFormed) (edits : List Edit) :
    (edits.foldl Namespace.edit ns).WellFormed := by
  induction edits generalizing ns with
  | nil => exact h
  | cons e rest ih => exact ih (h.edit e)

/-- Behind any edits of an empty namespace: every dotted prefix of a module path is a module, and a
    module that binds nothing has a module below it. A placeholder for a name that does not resolve is
    removed without a trace. A name that was injected resolves, and injecting it again hands back the
    same symbol and changes nothing. The first module from a path and a dot on tells whether there are
    modules below the path. A removal takes the placeholder of that name away, if there is one,
    and leaves every other binding as it is. -/
theorem lifecycle (edits : List Edit) :
    let ns := edits.foldl edit empty
    (∀ path module rest, ns.hasModule path = true → path = module ++ "." ++ rest →
      ns.hasModule module = true) ∧
    (∀ path, ns.modules.find? path = some [] → ∃ rest, ns.hasModule (path ++ "." ++ rest) = true) ∧
    (∀ n symbol, (ns.resolve n).symbol? = none → (ns.inject n symbol).2.removePlaceholder n = ns) ∧
    (∀ n symbol symbol', (ns.inject n symbol).2.resolve n = .found (ns.inject n symbol).1 ∧
      (ns.inject n symbol).2.inject n symbol' = ns.inject n symbol) ∧
    (∀ path, ns.hasSubmodules path = ns.nextIsBelow path) ∧
    ∀ n other, (ns.removePlaceholder n).binding? other.module other.qualname =
      if other = n ∧ ns.standsIn n = true then none
      else ns.binding? other.module other.qualname := by
  intro ns
  have formed : ns.WellFormed := wellFormed_empty.edits edits
  refine ⟨?_, ?_, ?_, ?_, hasSubmodules_eq_nextIsBelow formed.ascending, ns.binding?_removePlaceholder⟩
  · intro path module rest has whole
    exact formed.closed ⟨rest, whole⟩ has
  · intro path empty
    obtain ⟨lower, ⟨rest, rfl⟩, has⟩ := hasSubmodules_iff.1 (formed.occupied empty)
    exact ⟨rest, has⟩
  · intro n symbol unresolved
    exact removePlaceholder_inject formed n symbol unresolved
  · intro n symbol symbol'
    have found := ns.resolve_inject n symbol
    exact ⟨found, inject_of_found found symbol'⟩

/-- A function in `a.b`, and a placeholder for a class in `a..c`, which comes with `a.`. -/
def strayDots : List Edit := [.define ⟨"a.b", "x"⟩ (.function (.host 0)), .injectClass ⟨"a..c", "P"⟩ 0]

theorem lifecycle_strayDots :
    hasModule (strayDots.foldl edit empty) "a." = true ∧
    (∃ rest, hasModule (strayDots.foldl edit empty) ("a" ++ "." ++ rest) = true) ∧
    removePlaceholder (inject (strayDots.foldl edit empty) ⟨"a..c.d", "Q"⟩ (.function (.host 1))).2
      ⟨"a..c.d", "Q"⟩ = strayDots.foldl edit empty := by
  obtain ⟨above, empty, restored, -⟩ := lifecycle strayDots
  exact ⟨above "a..c" "a." "c" rfl rfl, empty "a" rfl, restored ⟨"a..c.d", "Q"⟩ _ rfl⟩

end Namespace

end ObjectStream
