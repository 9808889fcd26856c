import ObjectStream.Proofs.Bindings
import ObjectStream.Proofs.Naming

/-!
What registries bind.

A fresh registry resolves every name that it brings along (`Registry.intact_seeded`), and goes on to do
so while other names are bound (`Registry.Intact.define`). A registry gives out extension codes one to
one (`Registry.Coded`). Every protocol can spell the names that every registry binds, and all names that
have no old spelling (`Name.portable_of_plain`).
-/

namespace ObjectStream

/-! ## Portable names -/

instance (n : Name) : Decidable n.OnLines :=
  inferInstanceAs (Decidable (Text.OnLine n.module.toList ∧ Text.OnLine n.qualname.toList))

/-- No old or new spelling of another name mentions the name, and its module has only one spelling. -/
structure Name.Plain (n : Name) : Prop where
  modules : ∀ spellings ∈ LegacyName.modules, n.module ≠ spellings.1 ∧ n.module ≠ spellings.2
  names : ∀ spellings ∈ LegacyName.names ++ LegacyName.namesReadOnly,
    (n.module, n.qualname) ≠ spellings.1 ∧ (n.module, n.qualname) ≠ spellings.2

namespace Name

theorem lookup_eq_none {α β : Type} [BEq α] [LawfulBEq α] {table : List (α × β)} {a : α}
    (h : ∀ entry ∈ table, a ≠ entry.1) : table.lookup a = none := by
  induction table with
  | nil => rfl
  | cons entry rest ih =>
    obtain ⟨key, content⟩ := entry
    simp only [List.lookup_cons, beq_false_of_ne (h (key, content) (List.mem_cons_self ..))]
    exact ih fun entry mem => h entry (List.mem_cons_of_mem _ mem)

variable {n : Name}

theorem Plain.current (h : n.Plain) : n.current = n := by
  have names := lookup_eq_none fun entry mem => (h.names entry mem).1
  have modules := lookup_eq_none fun entry mem => (h.modules entry mem).1
  simp only [Name.current, LegacyName.toCurrent, names, modules, Option.getD_none]

theorem Plain.legacy (h : n.Plain) : n.legacy = n := by
  have names : (LegacyName.names.map Prod.swap).lookup (n.module, n.qualname) = none := by
    refine lookup_eq_none fun swapped mem => ?_
    obtain ⟨entry, listed, rfl⟩ := List.mem_map.1 mem
    exact (h.names entry (List.mem_append_left _ listed)).2
  have modules : (LegacyName.modules.map Prod.swap).lookup n.module = none := by
    refine lookup_eq_none fun swapped mem => ?_
    obtain ⟨entry, listed, rfl⟩ := List.mem_map.1 mem
    exact (h.modules entry listed).2
  simp only [Name.legacy, LegacyName.toLegacy, names, modules, Option.getD_none]

/-- A name on lines that has no old spelling is portable. -/
theorem portable_of_plain (h : n.Plain) (undotted : dottedSplits n.qualname = [])
    (onLines : n.OnLines) : n.Portable where
  undotted := undotted
  onLines := ⟨onLines, h.legacy.symm ▸ onLines⟩
  spelled := by rw [h.legacy, h.current]; exact ⟨rfl, rfl⟩

end Name

/-! ## Registries -/

namespace Registry

variable {H : Type} {r r' : Registry H} {name : Name} {code : Nat}

/-- The names that every registry brings along are neither bound anew nor taken by host types. -/
def Intact (r : Registry H) : Prop :=
  ∀ name symbol, (name, symbol) ∈ seeds r.number →
    r.resolve name = .found symbol ∧ r.decodeGlobal? name = none

/-- Every extension code is within its bounds and leads back to its name. -/
def Coded (r : Registry H) : Prop :=
  ∀ name code, r.extensionCode? name = some code →
    0 < code ∧ code ≤ maxExtensionCode ∧ r.extension? code = some name

/-- The names of the seeds do not depend on the number of the registry. -/
theorem seeds_names (number : Nat) : (seeds number).map Prod.fst = (seeds 0).map Prod.fst := rfl

theorem seeds_nodup (number : Nat) : ((seeds number).map Prod.fst).Nodup := by
  rw [seeds_names]
  decide +kernel

theorem seeds_portable {number : Nat} {symbol : Symbol} (mem : (name, symbol) ∈ seeds number) :
    name.Portable := by
  have all : ∀ name ∈ (seeds 0).map Prod.fst, dottedSplits name.qualname = [] ∧
      (name.OnLines ∧ name.legacy.OnLines) ∧ name.legacy.current = name ∧ name.current = name := by
    decide +kernel
  rw [← seeds_names number] at all
  obtain ⟨undotted, onLines, spelled⟩ := all name (List.mem_map_of_mem (f := Prod.fst) mem)
  exact ⟨undotted, onLines, spelled⟩

theorem intact_seeded (number : Nat) : (seeded number : Registry H).Intact :=
  fun _ _ mem => ⟨Namespace.resolve_of_binding (Namespace.binding?_foldl (seeds_nodup number) mem),
    rfl⟩

theorem resolve_define (r : Registry H) (name : Name) (symbol : Symbol) :
    (r.define name symbol).resolve name = .found symbol := by
  refine Namespace.resolve_of_binding (b := { symbol := symbol }) ?_
  rw [define, Namespace.define, Namespace.binding?_bind, if_pos rfl]

/-- A further name leaves alone the other names without dots. -/
theorem resolve_define_of_ne {other : Name} {symbol' : Symbol} (apart : other ≠ name)
    (undotted : dottedSplits other.qualname = []) (h : r.resolve other = .found symbol')
    (symbol : Symbol) : (r.define name symbol).resolve other = .found symbol' := by
  obtain ⟨b, bound, rfl⟩ := Namespace.binding?_of_resolve undotted h
  refine Namespace.resolve_of_binding ?_
  rw [define, Namespace.define, Namespace.binding?_bind, if_neg apart, bound]

/-- A further name leaves alone the names that the registry brings along. -/
theorem Intact.define (h : r.Intact) (new : name ∉ (seeds r.number).map Prod.fst) (symbol : Symbol) :
    (r.define name symbol).Intact := by
  intro seed symbol' mem
  obtain ⟨resolved, unregistered⟩ := h seed symbol' mem
  constructor
  · refine resolve_define_of_ne ?_ (seeds_portable mem).undotted resolved symbol
    rintro rfl
    exact new (List.mem_map_of_mem (f := Prod.fst) mem)
  · simp only [decodeGlobal?, Option.map_eq_none_iff] at unregistered ⊢
    exact unregistered

theorem extensionCode?_of_nil (uncoded : r.extensions = []) (name : Name) :
    r.extensionCode? name = none := by
  rw [extensionCode?, uncoded]
  rfl

theorem namespaceOf_host (r : Registry H) : r.host.namespaceOf r.number = some r.namespace :=
  if_pos rfl

theorem coded_seeded (number : Nat) : (seeded number : Registry H).Coded := nofun

theorem Coded.congr (h : r.Coded) (same : r'.extensions = r.extensions) : r'.Coded := by
  intro name code found
  simp only [extensionCode?, extension?, same] at found ⊢
  exact h name code found

/-- A pair whose code is within the bounds is entered if neither part of it is taken, and nothing has to be
    done if it was entered before. -/
theorem addExtension_eq (r : Registry H) (name : Name) (code : Nat) : r.addExtension name code =
    if code = 0 ∨ maxExtensionCode < code then .error (.badExtensionCode code)
    else if r.extensionCode? name = some code ∧ r.extension? code = some name then .ok r
    else if r.extensionCode? name = none ∧ r.extension? code = none then
      .ok { r with extensions := r.extensions ++ [(name, code)] }
    else .error (.extensionConflict code) := by
  unfold addExtension
  cases r.extensionCode? name <;> cases r.extension? code <;> simp

theorem extensionCode?_append (added : r'.extensions = r.extensions ++ [(name, code)]) (other : Name) :
    r'.extensionCode? other = (r.extensionCode? other).or (if name = other then some code else none) := by
  simp only [extensionCode?, added, List.find?_append, List.find?_singleton, Option.map_or, beq_iff_eq]
  split <;> rfl

theorem extension?_append (added : r'.extensions = r.extensions ++ [(name, code)]) (other : Nat) :
    r'.extension? other = (r.extension? other).or (if code = other then some name else none) := by
  simp only [extension?, added, List.find?_append, List.find?_singleton, Option.map_or, beq_iff_eq]
  split <;> rfl

/-- Look-ups that lead back still do behind a further pair whose second part was free. -/
theorem leadsBack_append {α β : Type} [DecidableEq α] [DecidableEq β] {there : α → Option β}
    {back : β → Option α} {a a' : α} {b b' : β} (h : ∀ a b, there a = some b → back b = some a)
    (free : back b = none) (found : (there a').or (if a = a' then some b else none) = some b') :
    (back b').or (if b = b' then some a else none) = some a' := by
  cases former : there a' with
  | some c =>
    -- a former pair is found before the new one
    rw [former] at found
    cases found
    rw [h a' b' former, Option.some_or]
  | none =>
    rw [former, Option.none_or] at found
    split at found
    · next same =>
      cases found
      rw [free, if_pos rfl, Option.none_or, same]
    · cases found

/-- A further code keeps the codes one to one. -/
theorem Coded.addExtension (h : r.Coded) (added : r.addExtension name code = .ok r') : r'.Coded := by
  rw [addExtension_eq] at added
  split at added
  · cases added
  next inside =>
  split at added
  · cases added
    exact h
  split at added
  · next free =>
    cases added
    intro name' code' found
    rw [extensionCode?_append rfl] at found
    have bounds : 0 < code' ∧ code' ≤ maxExtensionCode := by
      rcases Option.or_eq_some_iff.1 found with former | ⟨-, new⟩
      · exact ⟨(h name' code' former).1, (h name' code' former).2.1⟩
      · split at new
        · cases new
          omega
        · cases new
    rw [extension?_append rfl]
    exact ⟨bounds.1, bounds.2, leadsBack_append (fun _ _ former => (h _ _ former).2.2) free.2 found⟩
  · cases added

end Registry

end ObjectStream
