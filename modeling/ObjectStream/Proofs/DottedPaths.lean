import Mathlib.Tactic.ByContra
import ObjectStream.Namespace

/-!
Dotted paths.

A path has a split at each of its dots (`mem_dottedSplits`), and the splits come with the longest module
path first (`pairwise_dottedSplits`). A look-up in a module may fall back on the modules below it. Where
a whole path is looked up, these modules have been tried already, so the answer is the binding in the
longest module path that has one itself (`Namespace.resolveDotted_longest`).
-/

namespace ObjectStream

/-! ## Splitting at dots -/

theorem splitsAtDots_eq_nil {cs : List Char} : splitsAtDots cs = [] ↔ '.' ∉ cs := by
  induction cs with
  | nil => simp [splitsAtDots]
  | cons c cs ih =>
    by_cases dot : c = '.'
    · simp [splitsAtDots, dot]
    · simp [splitsAtDots, dot, ih, Ne.symm dot]

/-- The last split of a text is at its last dot, and the others are those of the text before it. -/
theorem splitsAtDots_append {cs ds : List Char} (undotted : '.' ∉ ds) :
    splitsAtDots (cs ++ '.' :: ds) =
      ((splitsAtDots cs).map fun split => (split.1, split.2 ++ '.' :: ds)) ++ [(cs, ds)] := by
  induction cs with
  | nil => simp [splitsAtDots, splitsAtDots_eq_nil.2 undotted]
  | cons c cs ih =>
    by_cases dot : c = '.'
    · simp [splitsAtDots, dot, ih, Function.comp_def]
    · simp [splitsAtDots, dot, ih, Function.comp_def]

/-- The splits are at the dots, and there is one at each. -/
theorem mem_splitsAtDots {cs before after : List Char} :
    (before, after) ∈ splitsAtDots cs ↔ cs = before ++ '.' :: after := by
  induction cs generalizing before with
  | nil => simp [splitsAtDots]
  | cons c cs ih =>
    have later : (before, after) ∈ ((splitsAtDots cs).map fun split => (c :: split.1, split.2)) ↔
        ∃ front, before = c :: front ∧ cs = front ++ '.' :: after := by
      simp only [List.mem_map, Prod.mk.injEq, Prod.exists, ← ih]
      constructor
      · rintro ⟨front, _, mem, rfl, rfl⟩
        exact ⟨front, rfl, mem⟩
      · rintro ⟨front, rfl, mem⟩
        exact ⟨front, _, mem, rfl, rfl⟩
    rw [splitsAtDots]
    -- a split in front of the first character needs a dot there, and the others go behind it
    cases before with
    | nil =>
      by_cases dot : c = '.'
      · simp [dot, eq_comm]
      · simp [dot, later]
    | cons d front =>
      have behind : (d :: front, after) ∈ ((splitsAtDots cs).map fun split => (c :: split.1, split.2)) ↔
          c :: cs = d :: front ++ '.' :: after := by
        rw [later]
        constructor
        · rintro ⟨_, ⟨rfl, rfl⟩, rfl⟩
          rfl
        · rintro ⟨rfl, rfl⟩
          exact ⟨front, rfl, rfl⟩
      rw [← behind]
      split
      · simp
      · rfl

/-- From one split to the next the front part gets longer. -/
theorem pairwise_splitsAtDots (cs : List Char) :
    (splitsAtDots cs).Pairwise fun split split' => ∃ more, split'.1 = split.1 ++ '.' :: more := by
  induction cs with
  | nil => exact .nil
  | cons c cs ih =>
    have later : ((splitsAtDots cs).map fun split => (c :: split.1, split.2)).Pairwise
        fun split split' => ∃ more, split'.1 = split.1 ++ '.' :: more := by
      refine List.pairwise_map.2 (ih.imp fun ⟨more, longer⟩ => ⟨more, ?_⟩)
      rw [longer, List.cons_append]
    rw [splitsAtDots]
    split
    · next dot =>
      refine List.pairwise_cons.2 ⟨fun split mem => ?_, later⟩
      obtain ⟨inner, -, rfl⟩ := List.mem_map.1 mem
      exact ⟨inner.1, by rw [dot, List.nil_append]⟩
    · exact later

theorem dottedSplits_eq_nil {name : String} : dottedSplits name = [] ↔ '.' ∉ name.toList := by
  rw [← splitsAtDots_eq_nil, dottedSplits, List.map_eq_nil_iff, List.reverse_eq_nil_iff]

/-- The parts of a dotted name before and behind its last dot. The name before it has the other
    splits, up to what stands behind the dot. -/
theorem dottedSplits_cons {name parent last : String} {rest : List (String × String)}
    (h : dottedSplits name = (parent, last) :: rest) :
    name = parent ++ "." ++ last ∧ rest.map Prod.fst = (dottedSplits parent).map Prod.fst := by
  have dotted : '.' ∈ name.toList := by
    by_contra undotted
    rw [dottedSplits_eq_nil.2 undotted] at h
    cases h
  -- the last dot is the first one of the reversed text
  obtain ⟨after, before, split, undotted⟩ := List.eq_append_cons_of_mem (List.mem_reverse.2 dotted)
  have whole : name.toList = before.reverse ++ '.' :: after.reverse := by
    rw [← List.reverse_reverse name.toList, split]
    simp
  rw [dottedSplits, whole, splitsAtDots_append (by simpa using undotted)] at h
  simp only [List.reverse_append, List.reverse_singleton, List.singleton_append, List.map_cons,
    List.cons.injEq, Prod.mk.injEq] at h
  obtain ⟨⟨rfl, rfl⟩, rfl⟩ := h
  constructor
  · apply String.toList_inj.1
    rw [whole]
    simp
  · simp [dottedSplits, Function.comp_def]

/-- A dotted name is its two parts with a dot between them. -/
theorem eq_dotted_iff {path front last : String} :
    path = front ++ "." ++ last ↔ path.toList = front.toList ++ '.' :: last.toList := by
  rw [← String.toList_inj]
  simp

theorem mem_dottedSplits {path front last : String} :
    (front, last) ∈ dottedSplits path ↔ path = front ++ "." ++ last := by
  rw [eq_dotted_iff, ← mem_splitsAtDots, dottedSplits, List.mem_map]
  constructor
  · rintro ⟨⟨before, after⟩, mem, same⟩
    cases same
    simpa using mem
  · intro mem
    exact ⟨_, List.mem_reverse.2 mem, by simp⟩

/-! ## Modules above a path -/

/-- The path goes on with a dot behind the module. -/
def Above (module path : String) : Prop := ∃ rest, path = module ++ "." ++ rest

namespace Above

variable {module path path' : String}

theorem length_lt (h : Above module path) : module.length < path.length := by
  obtain ⟨rest, rfl⟩ := h
  simp only [String.length_append]
  have dot : ".".length = 1 := rfl
  omega

theorem ne (h : Above module path) : module ≠ path := by
  rintro rfl
  exact Nat.lt_irrefl _ h.length_lt

theorem trans (h : Above module path) (h' : Above path path') : Above module path' := by
  obtain ⟨rest, rfl⟩ := h
  obtain ⟨rest', rfl⟩ := h'
  exact ⟨rest ++ "." ++ rest', by simp only [String.append_assoc]⟩

end Above

/-- The longest module path comes first. -/
theorem pairwise_dottedSplits (path : String) :
    (dottedSplits path).Pairwise fun split split' => Above split'.1 split.1 := by
  refine List.pairwise_map.2 (List.pairwise_reverse.2 ((pairwise_splitsAtDots _).imp ?_))
  rintro ⟨before, _⟩ ⟨before', _⟩ ⟨more, rfl⟩
  exact ⟨String.ofList more, eq_dotted_iff.2 (by simp)⟩

/-! ## Looking up a path -/

/-- Two searches find the same if they agree wherever the second one has found nothing before. -/
theorem findSome?_congr_first {α β : Type} {f g : α → Option β} {as : List α}
    (h : ∀ before a after, as = before ++ a :: after → (∀ a' ∈ before, g a' = none) → f a = g a) :
    as.findSome? f = as.findSome? g := by
  induction as with
  | nil => rfl
  | cons a rest ih =>
    have here : f a = g a := h [] a rest rfl nofun
    cases found : g a with
    | some b => simp [here, found]
    | none =>
      simp only [List.findSome?_cons, here, found]
      refine ih fun before a' after same none => h (a :: before) a' after (by rw [same]; rfl) ?_
      exact List.forall_mem_cons.2 ⟨found, none⟩

namespace Namespace

variable {ns : Namespace} {n : Name} {path : String}

/-- Looks a dotted path up in the modules that bind what is behind them themselves, with the longest
    module path first. -/
def resolveDirect (ns : Namespace) (path : String) : Option Symbol :=
  (dottedSplits path).findSome? fun (module, name) => (ns.binding? module name).map Binding.symbol

/-- A look-up in a module gives what the module binds, unless a module below it binds the rest of the
    name. -/
theorem symbol?_resolve (outer : ∀ front last, n.qualname = front ++ "." ++ last →
      ns.binding? (n.module ++ "." ++ front) last = none) :
    (ns.resolve n).symbol? = (ns.binding? n.module n.qualname).map Binding.symbol := by
  have inner : (dottedSplits n.qualname).findSome? (fun split =>
      ns.binding? (n.module ++ "." ++ split.1) split.2) = none :=
    List.findSome?_eq_none_iff.2 fun split mem => outer _ _ (mem_dottedSplits.1 mem)
  have direct : ns.binding? n.module n.qualname =
      (ns.modules.find? n.module).bind (·.find? n.qualname) := rfl
  rw [resolve, direct]
  cases ns.modules.find? n.module with
  | none => rfl
  | some bindings =>
    dsimp only [Option.bind_some]
    cases bindings.find? n.qualname with
    | some b => rfl
    | none =>
      simp only [inner]
      rfl

/-- Where a look-up falls back on the modules below one, nothing is bound in them. -/
theorem resolveDotted_eq (ns : Namespace) (path : String) :
    ns.resolveDotted path = ns.resolveDirect path := by
  refine findSome?_congr_first ?_
  rintro before ⟨module, name⟩ after splits unbound
  refine symbol?_resolve fun front last same => ?_
  -- the split at the later dot comes before this one
  have whole : path = module ++ "." ++ name :=
    mem_dottedSplits.1 (splits ▸ List.mem_append_right _ (List.mem_cons_self ..))
  have lower : Above module (module ++ "." ++ front) := ⟨front, rfl⟩
  have later : (module ++ "." ++ front, last) ∈ dottedSplits path :=
    mem_dottedSplits.2 (by rw [whole, show name = _ from same]; simp only [String.append_assoc])
  have order := pairwise_dottedSplits path
  rw [splits, List.pairwise_append, List.pairwise_cons] at order
  rw [splits, List.mem_append, List.mem_cons] at later
  obtain earlier | here | behind := later
  · exact Option.map_eq_none_iff.1 (unbound _ earlier)
  · exact absurd (congrArg Prod.fst here).symm lower.ne
  · have upper : Above (module ++ "." ++ front) module := order.2.1.1 _ behind
    exact absurd lower.length_lt (Nat.lt_asymm upper.length_lt)

theorem resolveDirect_eq_none : ns.resolveDirect path = none ↔
    ∀ module name, path = module ++ "." ++ name → ns.binding? module name = none := by
  simp only [resolveDirect, List.findSome?_eq_none_iff, Prod.forall, mem_dottedSplits,
    Option.map_eq_none_iff]

theorem resolveDirect_eq_some {symbol : Symbol} : ns.resolveDirect path = some symbol ↔
    ∃ module name b, path = module ++ "." ++ name ∧ ns.binding? module name = some b ∧
      b.symbol = symbol ∧ ∀ module' name', path = module' ++ "." ++ name' →
        ns.binding? module' name' ≠ none → module'.length ≤ module.length := by
  have order := pairwise_dottedSplits path
  rw [resolveDirect, List.findSome?_eq_some_iff]
  constructor
  · rintro ⟨before, ⟨module, name⟩, after, splits, found, unbound⟩
    obtain ⟨b, bound, symbol⟩ := Option.map_eq_some_iff.1 found
    have whole : (module, name) ∈ dottedSplits path := by simp [splits]
    refine ⟨module, name, b, mem_dottedSplits.1 whole, bound, symbol, fun module' name' same held => ?_⟩
    have other : (module', name') ∈ dottedSplits path := mem_dottedSplits.2 same
    rw [splits, List.pairwise_append, List.pairwise_cons] at order
    rw [splits, List.mem_append, List.mem_cons] at other
    obtain earlier | here | behind := other
    · exact absurd (Option.map_eq_none_iff.1 (unbound _ earlier)) held
    · exact Nat.le_of_eq (congrArg (fun split => split.1.length) here)
    · exact Nat.le_of_lt (order.2.1.1 _ behind).length_lt
  · rintro ⟨module, name, b, same, bound, symbol, longest⟩
    obtain ⟨before, after, splits⟩ := List.append_of_mem (mem_dottedSplits.2 same)
    refine ⟨before, (module, name), after, splits, by simp [bound, symbol], ?_⟩
    rintro ⟨module', name'⟩ earlier
    have other : (module', name') ∈ dottedSplits path := by simp [splits, earlier]
    -- an earlier split has a longer module path
    rw [splits, List.pairwise_append] at order
    have longer : Above module module' := order.2.2 _ earlier _ (List.mem_cons_self ..)
    refine Option.map_eq_none_iff.2 ?_
    by_contra held
    exact absurd (longest _ _ (mem_dottedSplits.1 other) held) (Nat.not_le.2 longer.length_lt)

/-- A dotted path stands for what the longest module path in front of a dot binds itself under the rest
    of it, and for nothing if no such module binds the rest. That a look-up in one module falls back on
    those below it makes no difference. -/
theorem resolveDotted_longest (ns : Namespace) (path : String) :
    (∀ symbol, ns.resolveDotted path = some symbol ↔
      ∃ module name b, path = module ++ "." ++ name ∧ ns.binding? module name = some b ∧
        b.symbol = symbol ∧ ∀ module' name', path = module' ++ "." ++ name' →
          ns.binding? module' name' ≠ none → module'.length ≤ module.length) ∧
    (ns.resolveDotted path = none ↔
      ∀ module name, path = module ++ "." ++ name → ns.binding? module name = none) ∧
    ns.resolveDotted path = ns.resolveDirect path := by
  rw [resolveDotted_eq]
  exact ⟨fun symbol => resolveDirect_eq_some, resolveDirect_eq_none, rfl⟩

/-- The path `a.b.c` has two bindings, and nothing in front of its last dot binds `d`. -/
def twice : Namespace :=
  (Namespace.empty.define ⟨"a", "b.c"⟩ (.function (.host 0))).define ⟨"a.b", "c"⟩ (.function (.host 1))

/-- The binding in the longer module path counts, though the shorter one binds the rest as well. -/
theorem resolveDotted_longest_twice :
    twice.resolveDotted "a.b.c" = some (.function (.host 1)) ∧
    twice.resolve ⟨"a", "b.c"⟩ = .found (.function (.host 0)) ∧
    twice.resolveDotted "a.b.d" = none := by
  have splits {path module name : String} (same : path = module ++ "." ++ name) :
      (module, name) ∈ dottedSplits path := mem_dottedSplits.2 same
  refine ⟨?_, by decide +kernel, ?_⟩
  · refine ((resolveDotted_longest twice "a.b.c").1 _).2
      ⟨"a.b", "c", _, rfl, rfl, rfl, ?_⟩
    intro module name same _
    have short : ∀ split ∈ dottedSplits "a.b.c", split.1.length ≤ "a.b".length := by decide +kernel
    exact short _ (splits same)
  · refine (resolveDotted_longest twice "a.b.d").2.1.2 fun module name same => ?_
    have unbound : ∀ split ∈ dottedSplits "a.b.d", twice.binding? split.1 split.2 = none := by
      decide +kernel
    exact unbound _ (splits same)

end Namespace

end ObjectStream
