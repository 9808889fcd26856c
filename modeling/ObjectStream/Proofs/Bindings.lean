import Mathlib.Data.List.Induction
import ObjectStream.Namespace

/-!
What a namespace binds.

A directory finds under a key what was put there last, and putting or erasing one key leaves the others
alone. So a module that is added binds nothing, and binding a name changes what that name stands for
and nothing else (`Namespace.binding?_bind`).
-/

namespace ObjectStream

/-! ## Directories -/

namespace Directory

variable {α : Type}

theorem find?_cons (key : String) (content : α) (rest : Directory α) (other : String) :
    Directory.find? ((key, content) :: rest) other =
      if other = key then some content else Directory.find? rest other := by
  by_cases same : other = key
  · simp [Directory.find?, same]
  · simp only [Directory.find?, List.lookup_cons, beq_false_of_ne same, if_neg same]

/-- A content is put under one key. -/
theorem find?_insert (d : Directory α) (key : String) (content : α) (other : String) :
    Directory.find? (Directory.insert key content d) other =
      if other = key then some content else Directory.find? d other := by
  induction d with
  | nil => exact find?_cons key content [] other
  | cons entry rest ih =>
    obtain ⟨k, a⟩ := entry
    rw [Directory.insert]
    split
    · exact find?_cons key content _ other
    split
    · next same =>
      subst same
      simp only [find?_cons]
      split <;> rfl
    · next apart =>
      simp only [find?_cons, ih]
      by_cases here : other = k
      · rw [if_pos here, if_neg fun same => apart (same.symm.trans here), if_pos here]
      · simp only [if_neg here]

theorem find?_erase (d : Directory α) (key other : String) :
    Directory.find? (Directory.erase d key) other =
      if other = key then none else Directory.find? d other := by
  induction d with
  | nil => simp [Directory.erase, Directory.find?]
  | cons entry rest ih =>
    obtain ⟨k, a⟩ := entry
    have step : Directory.erase ((k, a) :: rest) key =
        if k = key then Directory.erase rest key else (k, a) :: Directory.erase rest key := by
      by_cases same : k = key <;> simp [Directory.erase, same]
    rw [step, find?_cons]
    by_cases here : k = key
    · rw [if_pos here, ih, here]
      split <;> rfl
    · rw [if_neg here, find?_cons, ih]
      by_cases asked : other = k
      · rw [if_pos asked, if_neg fun same => here (asked.symm.trans same), if_pos asked]
      · simp only [if_neg asked]

theorem find?_eq_none {d : Directory α} {key : String} :
    Directory.find? d key = none ↔ ∀ entry ∈ d, key ≠ entry.1 := by
  simp [Directory.find?, List.lookup_eq_none_iff]

theorem isSome_find? {d : Directory α} {key : String} :
    (Directory.find? d key).isSome ↔ ∃ entry ∈ d, entry.1 = key := by
  rw [← not_iff_not, Bool.not_eq_true, Option.isSome_eq_false_iff, Option.isNone_iff_eq_none,
    find?_eq_none]
  simp only [not_exists, not_and, ne_eq, eq_comm]

/-- A key that was put in anew can be taken out again. -/
theorem erase_insert {d : Directory α} {key : String} (absent : Directory.find? d key = none)
    (content : α) : Directory.erase (Directory.insert key content d) key = d := by
  rw [find?_eq_none] at absent
  have kept : Directory.erase d key = d :=
    List.filter_eq_self.2 fun entry mem => by simpa using (absent entry mem).symm
  induction d with
  | nil => simp [Directory.insert, Directory.erase]
  | cons entry rest ih =>
    obtain ⟨k, a⟩ := entry
    have other : key ≠ k := absent _ (List.mem_cons_self ..)
    have absent' := fun entry mem => absent entry (List.mem_cons_of_mem (k, a) mem)
    rw [Directory.insert]
    split
    · simpa [Directory.erase] using kept
    · have kept' : Directory.erase rest key = rest :=
        List.filter_eq_self.2 fun entry mem => by simpa using (absent' entry mem).symm
      simpa [Directory.erase, other, Ne.symm other] using ih absent' kept'

/-- Of two contents under one key the last counts. -/
theorem insert_insert (d : Directory α) (key : String) (first last : α) :
    Directory.insert key last (Directory.insert key first d) = Directory.insert key last d := by
  have replaced (content : α) (rest : Directory α) :
      Directory.insert key last ((key, content) :: rest) = (key, last) :: rest := by
    rw [Directory.insert, if_neg (String.lt_irrefl key), if_pos rfl]
  induction d with
  | nil => exact replaced first []
  | cons entry rest ih =>
    obtain ⟨k, a⟩ := entry
    by_cases before : key < k
    · simp only [Directory.insert, if_pos before, replaced]
    by_cases same : key = k
    · subst same
      rw [Directory.insert, if_neg before, if_pos rfl, replaced, replaced]
    · simp only [Directory.insert, if_neg before, if_neg same, ih]

/-- The keys ascend. -/
def Ascending (d : Directory α) : Prop := d.Pairwise fun entry entry' => entry.1 < entry'.1

theorem Ascending.erase {d : Directory α} (h : Ascending d) (key : String) :
    Ascending (Directory.erase d key) := List.Pairwise.filter _ h

theorem mem_insert {d : Directory α} {key : String} {content : α} {entry : String × α}
    (mem : entry ∈ Directory.insert key content d) : entry = (key, content) ∨ entry ∈ d := by
  induction d with
  | nil => exact .inl (List.mem_singleton.1 mem)
  | cons former rest ih =>
    obtain ⟨k, a⟩ := former
    rw [Directory.insert] at mem
    split at mem
    · exact List.mem_cons.1 mem
    split at mem
    · exact (List.mem_cons.1 mem).imp id (List.mem_cons_of_mem _)
    · rcases List.mem_cons.1 mem with rfl | later
      · exact .inr (List.mem_cons_self ..)
      · exact (ih later).imp id (List.mem_cons_of_mem _)

theorem Ascending.insert {d : Directory α} (h : Ascending d) (key : String) (content : α) :
    Ascending (Directory.insert key content d) := by
  induction d with
  | nil => exact List.pairwise_singleton ..
  | cons entry rest ih =>
    obtain ⟨k, a⟩ := entry
    obtain ⟨first, others⟩ := List.pairwise_cons.1 h
    rw [Directory.insert]
    split
    · next before =>
      refine List.pairwise_cons.2 ⟨List.forall_mem_cons.2 ⟨before, fun entry mem => ?_⟩, h⟩
      exact String.lt_trans before (first entry mem)
    split
    · next same =>
      subst same
      exact List.pairwise_cons.2 ⟨first, others⟩
    · next before apart =>
      refine List.pairwise_cons.2 ⟨fun entry mem => ?_, ih others⟩
      rcases mem_insert mem with rfl | former
      · exact Std.lt_of_le_of_ne (String.not_lt.1 before) (Ne.symm apart)
      · exact first entry former

/-- Putting in what is there already changes nothing. -/
theorem Ascending.insert_self {d : Directory α} (h : Ascending d) {key : String} {content : α}
    (found : Directory.find? d key = some content) : Directory.insert key content d = d := by
  induction d with
  | nil => cases found
  | cons entry rest ih =>
    obtain ⟨k, a⟩ := entry
    obtain ⟨first, others⟩ := List.pairwise_cons.1 h
    rw [find?_cons] at found
    rw [Directory.insert]
    split
    · next before =>
      -- all keys come behind this one, so it cannot have been found
      have apart : key ≠ k := fun same => String.lt_irrefl k (same ▸ before)
      rw [if_neg apart] at found
      obtain ⟨entry, mem, same⟩ := isSome_find?.1 (Option.isSome_of_eq_some found)
      exact absurd (String.lt_trans before (first entry mem)) (same ▸ String.lt_irrefl _)
    split
    · next same =>
      rw [if_pos same] at found
      rw [Option.some.inj found, same]
    · next apart =>
      rw [if_neg apart] at found
      rw [ih others found]

end Directory

/-! ## Bindings -/

namespace Namespace

variable {ns : Namespace} {n : Name} {b : Binding}

theorem hasModule_eq_false {path : String} :
    ns.hasModule path = false ↔ ns.modules.find? path = none := by
  rw [hasModule, Option.isSome_eq_false_iff, Option.isNone_iff_eq_none]

/-- A new module binds nothing. -/
theorem binding?_ensureOne (ns : Namespace) (path module name : String) :
    (ns.ensureOne path).binding? module name = ns.binding? module name := by
  unfold ensureOne
  split
  · rfl
  · next missing =>
    rw [Bool.not_eq_true, hasModule_eq_false] at missing
    simp only [binding?, Directory.find?_insert]
    split
    · next same => rw [same, missing]; rfl
    · rfl

theorem binding?_ensureModule (ns : Namespace) (path module name : String) :
    (ns.ensureModule path).binding? module name = ns.binding? module name := by
  unfold ensureModule
  generalize parents path ++ [path] = paths
  induction paths generalizing ns with
  | nil => rfl
  | cons first rest ih => rw [List.foldl_cons, ih, binding?_ensureOne]

/-- A binding is that of one name. -/
theorem binding?_bind (ns : Namespace) (n : Name) (b : Binding) (other : Name) :
    (ns.bind n b).binding? other.module other.qualname =
      if other = n then some b else ns.binding? other.module other.qualname := by
  rw [← binding?_ensureModule ns n.module other.module other.qualname]
  simp only [bind, binding?, Directory.find?_insert]
  obtain ⟨module, qualname⟩ := n
  obtain ⟨module', qualname'⟩ := other
  by_cases same : module' = module
  · subst same
    simp only [if_true, Option.bind_some, Directory.find?_insert, Name.mk.injEq, true_and]
    cases (ns.ensureModule module').modules.find? module' <;> rfl
  · simp only [Name.mk.injEq, same, false_and, if_false]

theorem resolve_of_binding (h : ns.binding? n.module n.qualname = some b) :
    ns.resolve n = .found b.symbol := by
  unfold binding? at h
  unfold resolve
  cases found : ns.modules.find? n.module with
  | none => rw [found] at h; cases h
  | some bindings =>
    rw [found] at h
    simp only [show bindings.find? n.qualname = some b from h]

/-- A name without dots is bound in its module itself. -/
theorem binding?_of_resolve {symbol : Symbol} (undotted : dottedSplits n.qualname = [])
    (h : ns.resolve n = .found symbol) :
    ∃ b, ns.binding? n.module n.qualname = some b ∧ b.symbol = symbol := by
  unfold resolve at h
  unfold binding?
  cases found : ns.modules.find? n.module with
  | none => rw [found] at h; cases h
  | some bindings =>
    simp only [found, undotted, List.findSome?_nil] at h
    cases bound : bindings.find? n.qualname with
    | none => rw [bound] at h; cases h
    | some b =>
      rw [bound] at h
      exact ⟨b, bound, Lookup.found.inj h⟩

/-- Names that are defined one after the other are all bound, if none of them is defined twice. -/
theorem binding?_foldl {names : List (Name × Symbol)} (once : (names.map Prod.fst).Nodup)
    {symbol : Symbol} (mem : (n, symbol) ∈ names) :
    (names.foldl (fun ns (name, symbol) => ns.define name symbol) ns).binding? n.module n.qualname =
      some { symbol := symbol } := by
  induction names using List.reverseRecOn with
  | nil => cases mem
  | append_singleton former last ih =>
    obtain ⟨name, symbol'⟩ := last
    rw [List.map_append, List.nodup_append] at once
    simp only [List.foldl_append, List.foldl_cons, List.foldl_nil]
    rw [define, binding?_bind]
    rcases List.mem_append.1 mem with earlier | last
    · rw [if_neg, ih once.1 earlier]
      rintro rfl
      exact once.2.2 _ (List.mem_map_of_mem (f := Prod.fst) earlier) n (by simp) rfl
    · cases List.mem_singleton.1 last
      exact if_pos rfl

end Namespace

end ObjectStream
