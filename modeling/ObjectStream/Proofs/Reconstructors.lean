import ObjectStream.Proofs.Registries
import ObjectStream.Proofs.Window

/-!
Names that are made up for functions.

A type that can be built again, and is given no name for the function that does it, gets one in a module
of its own: a plain name, or the first number behind it that no entry has taken. There are more names to
try than entries, so the search ends (`Registry.freeName_isTaken`). The name is bound to the function
when the type is entered. Later entries take other names, so the binding stays (`Registry.Holds.registerAll`).

A registry hands back a new registry or none. A `Catalogue` is changed in place, binding by binding, and
finds the entry of a type by an index. Whatever is registered, it holds the same as the registry, and
what was refused has not touched it (`Catalogue.register_eq`).
-/

namespace ObjectStream

/-! ## The search for a name -/

namespace Registry

variable {H : Type} {r r' : Registry H}

/-- No name is tried twice. -/
theorem candidate_injective (base : String) {m n : Nat} (hm : 1 ≤ m) (hn : 1 ≤ n)
    (same : candidate base m = candidate base n) : m = n := by
  have numbered (k : Nat) : base ++ "_" ++ toString k ≠ base := by
    intro plain
    have length := congrArg String.length plain
    simp only [String.length_append] at length
    have : "_".length = 1 := rfl
    omega
  unfold candidate at same
  split at same
  · split at same
    · omega
    · exact absurd same.symm (numbered n)
  · split at same
    · exact absurd same (numbered m)
    · have digits := congrArg String.toList ((String.append_right_inj _).1 same)
      simp only [Nat.toString_eq_ofList_toDigits, String.toList_ofList] at digits
      rw [← Nat.ofDigitChars_toDigits (n := m) (b := 10) (by decide) (by decide), digits]
      exact Nat.ofDigitChars_toDigits (by decide) (by decide)

/-- The search stops at the first name that is not taken, if it may pass over those before it. -/
theorem freeName_eq {taken : String → Bool} {base : String} {fuel start n : Nat} (low : start ≤ n)
    (high : n ≤ start + fuel) (free : taken (candidate base n) = false)
    (passed : ∀ m, start ≤ m → m < n → taken (candidate base m) = true) :
    freeName taken base fuel start = candidate base n := by
  induction fuel generalizing start with
  | zero => rw [freeName, Nat.le_antisymm low high]
  | succ fuel ih =>
    rw [freeName]
    rcases Nat.eq_or_lt_of_le low with rfl | further
    · rw [if_neg (Bool.eq_false_iff.1 free)]
    · rw [if_pos (passed start (Nat.le_refl _) further)]
      exact ih further (by omega) fun m after => passed m (by omega)

theorem isTaken_iff {qualname : String} : r.isTaken qualname = true ↔
    ∃ e ∈ r.entries, e.reconstructor = some ⟨reconstructModule, qualname⟩ := by
  simp only [isTaken, List.any_eq_true, beq_iff_eq]

theorem isTaken_eq_false {qualname : String} : r.isTaken qualname = false ↔
    ∀ e ∈ r.entries, e.reconstructor ≠ some ⟨reconstructModule, qualname⟩ := by
  rw [← Bool.not_eq_true, isTaken_iff]
  exact ⟨fun free e mem same => free ⟨e, mem, same⟩, fun free ⟨e, mem, same⟩ => free e mem same⟩

/-- Of as many names as there are entries, and one more, one is free. -/
theorem exists_free (r : Registry H) (base : String) :
    ∃ n, 1 ≤ n ∧ n ≤ r.entries.length + 1 ∧ r.isTaken (candidate base n) = false := by
  by_contra none
  have all : ∀ n, 1 ≤ n → n ≤ r.entries.length + 1 → r.isTaken (candidate base n) = true := by
    intro n positive bound
    by_contra free
    exact none ⟨n, positive, bound, Bool.not_eq_true _ ▸ free⟩
  -- each name would have an entry of its own
  let tried := (List.range' 1 (r.entries.length + 1)).map fun n =>
    some (⟨reconstructModule, candidate base n⟩ : Name)
  have once : tried.Nodup := by
    refine List.pairwise_map.2 (List.Pairwise.imp_of_mem ?_ List.nodup_range')
    intro m n hm hn apart same
    refine apart (candidate_injective base (List.mem_range'_1.1 hm).1 (List.mem_range'_1.1 hn).1 ?_)
    exact congrArg Name.qualname (Option.some.inj same)
  have held : tried ⊆ r.entries.map Entry.reconstructor := by
    intro name mem
    obtain ⟨n, inside, rfl⟩ := List.mem_map.1 mem
    obtain ⟨low, high⟩ := List.mem_range'_1.1 inside
    obtain ⟨e, listed, same⟩ := isTaken_iff.1 (all n low (by omega))
    exact List.mem_map.2 ⟨e, listed, same⟩
  have count := once.length_le_of_subset held
  simp only [tried, List.length_map, List.length_range'] at count
  omega

/-- The search for a name ends at the first one that no entry has taken, if it may try as many as there
    are entries, and one more. -/
theorem freeName_isTaken (r : Registry H) (base : String) :
    ∃ n, 1 ≤ n ∧ n ≤ r.entries.length + 1 ∧ r.isTaken (candidate base n) = false ∧
      (∀ m, 1 ≤ m → m < n → r.isTaken (candidate base m) = true) ∧
      ∀ fuel, r.entries.length ≤ fuel → freeName r.isTaken base fuel 1 = candidate base n := by
  have some_ := r.exists_free base
  obtain ⟨low, high, free⟩ := Nat.find_spec some_
  have passed : ∀ m, 1 ≤ m → m < Nat.find some_ → r.isTaken (candidate base m) = true := by
    intro m positive before
    by_contra unused
    exact Nat.find_min some_ before ⟨positive, by omega, Bool.not_eq_true _ ▸ unused⟩
  exact ⟨_, low, high, free, passed, fun fuel enough => freeName_eq low (by omega) free passed⟩

theorem synthesize_ne (r : Registry H) (t : HostType) :
    ∀ e ∈ r.entries, e.reconstructor ≠ some (r.synthesize t) := by
  obtain ⟨n, -, -, free, -, ends⟩ := r.freeName_isTaken ("reconstruct_" ++ t.shortName)
  rw [synthesize, ends _ (Nat.le_refl _)]
  exact isTaken_eq_false.1 free

end Registry

/-! ## Entries -/

/-- The names that a registration asks for. -/
structure EntryNames where
  own : Name
  remote : Option Name
  remoteReconstructor : Option Name
  reconstructor : Option Name

namespace Registration

variable {H : Type}

/-- The names of a registration, all of which have to be well formed. -/
def names? (registration : Registration H) : Except RegistryError EntryNames := do
  let own ← Registry.declaredName registration
  let remote ← Registry.remoteNameOf registration
  let remoteReconstructor ← registration.remoteReconstructor.mapM Name.ofPath
  let reconstructor ← registration.reconstructor.mapM Name.ofPath
  .ok { own, remote, remoteReconstructor, reconstructor }

/-- The number of the function that no name is given for. -/
def nameless? (registration : Registration H) : Option Nat :=
  match registration.reconstructor with
  | some _ => none
  | none => registration.reconstruct

/-- The entry of a registration, with a name that was made up if none is given. -/
def entry (registration : Registration H) (names : EntryNames) (madeUp : Option Name) : Entry H where
  type := registration.type
  name := names.own
  reconstructor := names.reconstructor.or madeUp
  remoteName := names.remote
  remoteReconstructor := names.remoteReconstructor
  reduce := registration.reduce
  reconstruct := registration.reconstruct
  state := registration.state

/-- A function without a name is one of the registration, which gives no name. -/
theorem nameless?_eq_some {registration : Registration H} {number : Nat} :
    registration.nameless? = some number ↔
      registration.reconstructor = none ∧ registration.reconstruct = some number := by
  unfold nameless?
  cases registration.reconstructor <;> simp

theorem reconstructor_of_names? {registration : Registration H} {names : EntryNames}
    (h : registration.names? = .ok names) (none : registration.reconstructor = none) :
    names.reconstructor = Option.none := by
  unfold names? at h
  simp only [none] at h
  cases own : Registry.declaredName registration with
  | error _ => rw [own] at h; cases h
  | ok own' =>
    cases remote : Registry.remoteNameOf registration with
    | error _ => rw [own, remote] at h; cases h
    | ok remote' =>
      cases callable : registration.remoteReconstructor.mapM Name.ofPath with
      | error _ => rw [own, remote, callable] at h; cases h
      | ok _ => rw [own, remote, callable] at h; cases h; rfl

end Registration

namespace Registry

variable {H : Type} {r r' : Registry H}

/-- The registry with a type entered. A function that has no name gets one. -/
def enter (r : Registry H) (registration : Registration H) (names : EntryNames) : Registry H :=
  match registration.nameless? with
  | none => { r with entries := r.entries ++ [registration.entry names none] }
  | some number =>
    let path := r.synthesize registration.type
    { r.define path (.function (.host number)) with
      entries := r.entries ++ [registration.entry names (some path)] }

/-- Whether a type is entered depends on its names alone. -/
theorem register_eq (r : Registry H) (registration : Registration H) :
    r.register registration = registration.names?.map (r.enter registration) := by
  unfold register Registration.names?
  cases declaredName registration with
  | error _ => rfl
  | ok own =>
    cases remoteNameOf registration with
    | error _ => rfl
    | ok remote =>
      cases registration.remoteReconstructor.mapM Name.ofPath with
      | error _ => rfl
      | ok remoteReconstructor =>
        unfold enter Registration.nameless? Registration.entry
        cases registration.reconstructor with
        | none => cases registration.reconstruct <;> rfl
        | some path =>
          rw [show Option.mapM Name.ofPath (some path) = (Name.ofPath path).map some from rfl]
          cases Name.ofPath path <;> rfl

/-- Asks for types, one after the other. What is refused changes nothing. -/
def registerAll (r : Registry H) (asked : List (Registration H)) : Registry H :=
  asked.foldl (fun r registration => (r.register registration).toOption.getD r) r

/-- An entry goes by the name, and the name is bound to the symbol. -/
structure Holds (r : Registry H) (name : Name) (symbol : Symbol) : Prop where
  taken : ∃ e ∈ r.entries, e.reconstructor = some name
  bound : r.namespace.binding? name.module name.qualname = some { symbol := symbol }

theorem Holds.resolve {name : Name} {symbol : Symbol} (h : r.Holds name symbol) :
    r.resolve name = .found symbol :=
  Namespace.resolve_of_binding h.bound

/-- The name that is made up for a function is bound to it. -/
theorem holds_enter {registration : Registration H} {names : EntryNames} {number : Nat}
    (spelled : registration.names? = .ok names) (nameless : registration.nameless? = some number) :
    (r.enter registration names).Holds (r.synthesize registration.type) (.function (.host number)) := by
  have given := registration.reconstructor_of_names? spelled (Registration.nameless?_eq_some.1 nameless).1
  simp only [enter, nameless]
  refine ⟨⟨_, List.mem_append_right _ (List.mem_singleton.2 rfl), ?_⟩, ?_⟩
  · simp only [Registration.entry, given, Option.none_or]
  · simp only [define, Namespace.define, Namespace.binding?_bind, if_pos]

/-- A further entry takes another name. -/
theorem Holds.enter {name : Name} {symbol : Symbol} (h : r.Holds name symbol)
    (registration : Registration H) (names : EntryNames) :
    (r.enter registration names).Holds name symbol := by
  obtain ⟨⟨e, mem, taken⟩, bound⟩ := h
  unfold Registry.enter
  cases registration.nameless? with
  | none => exact ⟨⟨e, List.mem_append_left _ mem, taken⟩, bound⟩
  | some number =>
    refine ⟨⟨e, List.mem_append_left _ mem, taken⟩, ?_⟩
    have apart : name ≠ r.synthesize registration.type := by
      rintro rfl
      exact r.synthesize_ne registration.type e mem taken
    simp only [define, Namespace.define, Namespace.binding?_bind, if_neg apart, bound]

theorem Holds.registerAll {name : Name} {symbol : Symbol} (h : r.Holds name symbol)
    (asked : List (Registration H)) : (r.registerAll asked).Holds name symbol := by
  induction asked generalizing r with
  | nil => exact h
  | cons registration rest ih =>
    rw [Registry.registerAll, List.foldl_cons, register_eq]
    cases registration.names? with
    | error _ => exact ih h
    | ok names => exact ih (h.enter registration names)

theorem entries_enter (r : Registry H) (registration : Registration H) (names : EntryNames) :
    (r.enter registration names).entries = r.entries ++
      [registration.entry names (registration.nameless?.map fun _ => r.synthesize registration.type)] := by
  unfold enter
  cases registration.nameless? <;> rfl

/-- Entries are added behind those that are there. -/
theorem entries_registerAll (r : Registry H) (asked : List (Registration H)) :
    r.entries <+: (r.registerAll asked).entries := by
  induction asked generalizing r with
  | nil => exact List.prefix_rfl
  | cons registration rest ih =>
    rw [registerAll, List.foldl_cons, register_eq]
    cases registration.names? with
    | error _ => exact ih r
    | ok names =>
      refine List.IsPrefix.trans ?_ (ih (r.enter registration names))
      rw [entries_enter]
      exact List.prefix_append _ _

end Registry

/-! ## The index of types -/

instance : Hashable HostType := ⟨fun t => hash t.path⟩

/-- A registry that is changed in place, and the place of the first entry of each type. -/
structure Catalogue (H : Type) where
  registry : Registry H
  byType : Std.HashMap HostType Nat := ∅

namespace Catalogue

variable {H : Type} {c : Catalogue H} {r : Registry H}

/-- Hands a refusal on. -/
def checked {α : Type} : Except RegistryError α → EStateM RegistryError (Catalogue H) α
  | .ok a => pure a
  | .error e => throw e

/-- Enters a type: its names are checked, a name that was made up is bound, and then the entry is added
    and indexed. -/
def register (registration : Registration H) : EStateM RegistryError (Catalogue H) Unit := do
  let names ← checked registration.names?
  let madeUp ← match registration.nameless? with
    | none => pure none
    | some number => do
      let path := (← get).registry.synthesize registration.type
      modify fun c => { c with registry := c.registry.define path (.function (.host number)) }
      pure (some path)
  let place := (← get).registry.entries.length
  modify fun c => { c with registry :=
    { c.registry with entries := c.registry.entries ++ [registration.entry names madeUp] } }
  modify fun c => { c with byType := c.byType.insertIfNew registration.type place }

/-- Asks for types, one after the other. -/
def registerAll (c : Catalogue H) (asked : List (Registration H)) : Catalogue H :=
  asked.foldl (fun c registration => behind (register registration c)) c

/-- The entry that the index has for a type. -/
def find? (c : Catalogue H) (t : HostType) : Option (Entry H) :=
  c.byType[t]?.bind (c.registry.entries[·]?)

/-- The index leads to the first entry of each type. -/
def Indexed (c : Catalogue H) : Prop :=
  ∀ t, c.byType[t]? = c.registry.entries.findIdx? fun e => e.type == t

theorem indexed_of_nil (unused : c.registry.entries = []) (unindexed : c.byType = ∅) : c.Indexed := by
  intro t
  rw [unused, unindexed, Std.HashMap.getElem?_empty, List.findIdx?_nil]

theorem Indexed.find? (h : c.Indexed) (t : HostType) : c.find? t = c.registry.find? t := by
  rw [Catalogue.find?, h t, Registry.find?, List.find?_eq_bind_findIdx?_getElem?]

/-- A new entry is found by its type, if there is no earlier one. -/
theorem Indexed.append (h : c.Indexed) {r : Registry H} {e : Entry H}
    (same : r.entries = c.registry.entries ++ [e]) :
    Indexed { registry := r, byType := c.byType.insertIfNew e.type c.registry.entries.length } := by
  intro t
  simp only [same, Std.HashMap.getElem?_insertIfNew, Std.HashMap.mem_iff_isSome_getElem?,
    List.findIdx?_append, ← h t, List.findIdx?_singleton, beq_iff_eq]
  by_cases here : e.type = t
  · subst here
    cases c.byType[e.type]? <;> simp
  · simp [here]

/-- The catalogue with a type entered. -/
def enter (c : Catalogue H) (registration : Registration H) (names : EntryNames) : Catalogue H where
  registry := c.registry.enter registration names
  byType := c.byType.insertIfNew registration.type c.registry.entries.length

/-- A type is entered as in a registry. One that is refused has touched nothing. -/
theorem register_eq (registration : Registration H) (c : Catalogue H) : register registration c =
    match registration.names? with
    | .error e => .error e c
    | .ok names => .ok () (c.enter registration names) := by
  unfold register
  cases registration.names? with
  | error e => rfl
  | ok names =>
    cases nameless : registration.nameless? with
    | none => simp only [enter, Registry.enter, nameless]; rfl
    | some number => simp only [enter, Registry.enter, nameless]; rfl

theorem Indexed.enter (h : c.Indexed) (registration : Registration H) (names : EntryNames) :
    (c.enter registration names).Indexed := by
  rw [Catalogue.enter]
  exact h.append (c.registry.entries_enter registration names)

theorem registerAll_registry (c : Catalogue H) (asked : List (Registration H)) :
    (c.registerAll asked).registry = c.registry.registerAll asked := by
  induction asked generalizing c with
  | nil => rfl
  | cons registration rest ih =>
    rw [registerAll, Registry.registerAll, List.foldl_cons, List.foldl_cons, register_eq,
      Registry.register_eq]
    cases registration.names? with
    | error _ => exact ih c
    | ok names => exact ih (c.enter registration names)

theorem Indexed.registerAll (h : c.Indexed) (asked : List (Registration H)) :
    (c.registerAll asked).Indexed := by
  induction asked generalizing c with
  | nil => exact h
  | cons registration rest ih =>
    rw [Catalogue.registerAll, List.foldl_cons, register_eq]
    cases registration.names? with
    | error _ => exact ih h
    | ok names => exact ih (h.enter registration names)

end Catalogue

namespace Registry

variable {H : Type}

/-- Whatever was asked for, refused or not, a registry and a catalogue that is changed in place hold the
    same and find the same, and what is refused next has touched nothing. A function that is entered
    without a name gets the first name that no entry has, whichever entries made theirs up; the search
    for it is over after as many names as there are entries, and one more. Whatever is asked for after
    that, the name is that of the entry and leads to the function of the entry. -/
theorem reconstructors_stand (fresh : Registry H) (unused : fresh.entries = [])
    (asked : List (Registration H)) :
    let r := fresh.registerAll asked
    let c := ({ registry := fresh } : Catalogue H).registerAll asked
    (c.registry = r ∧ ∀ t, c.find? t = r.find? t) ∧
    (∀ registration e c', Catalogue.register registration c = .error e c' →
      c' = c ∧ r.register registration = .error e) ∧
    ∀ registration number r', registration.reconstruct = some number →
      registration.reconstructor = none → r.register registration = .ok r' →
      let base := "reconstruct_" ++ registration.type.shortName
      ∃ n entry, 1 ≤ n ∧ n ≤ r.entries.length + 1 ∧
        (∀ fuel, r.entries.length ≤ fuel → freeName r.isTaken base fuel 1 = candidate base n) ∧
        (∀ m, 1 ≤ m → m < n → r.isTaken (candidate base m) = true) ∧
        r'.entries = r.entries ++ [entry] ∧
        entry.type = registration.type ∧ entry.reconstruct = some number ∧
        entry.reconstructor = some ⟨"internal_reconstruct", candidate base n⟩ ∧
        (∀ e ∈ r.entries, e.reconstructor ≠ entry.reconstructor) ∧
        ∀ later, let r'' := r'.registerAll later
          r'.entries <+: r''.entries ∧
          r''.resolve ⟨"internal_reconstruct", candidate base n⟩ = .found (.function (.host number)) := by
  intro r c
  have same : c.registry = r := Catalogue.registerAll_registry _ asked
  have indexed : c.Indexed := (Catalogue.indexed_of_nil unused rfl).registerAll asked
  refine ⟨⟨same, fun t => same ▸ indexed.find? t⟩, fun registration e c' refused => ?_, ?_⟩
  · rw [Catalogue.register_eq] at refused
    rw [register_eq]
    cases spelled : registration.names? with
    | ok _ => rw [spelled] at refused; cases refused
    | error _ => rw [spelled] at refused; cases refused; exact ⟨rfl, rfl⟩
  · intro registration number r' function unnamed entered base
    have nameless : registration.nameless? = some number :=
      Registration.nameless?_eq_some.2 ⟨unnamed, function⟩
    rw [register_eq] at entered
    cases spelled : registration.names? with
    | error _ => rw [spelled] at entered; cases entered
    | ok names =>
      rw [spelled] at entered
      cases entered
      obtain ⟨n, low, high, -, passed, ends⟩ := r.freeName_isTaken base
      have path : r.synthesize registration.type = ⟨reconstructModule, candidate base n⟩ :=
        congrArg (Name.mk reconstructModule) (ends _ (Nat.le_refl _))
      have called : (registration.entry names (some (r.synthesize registration.type))).reconstructor =
          some ⟨reconstructModule, candidate base n⟩ := by
        simp only [Registration.entry, registration.reconstructor_of_names? spelled unnamed,
          Option.none_or, path]
      refine ⟨n, _, low, high, ends, passed, r.entries_enter registration names, rfl, function, ?_,
        fun e mem => ?_, fun later => ⟨?_, ?_⟩⟩
      · rw [nameless]
        exact called
      · rw [nameless, Option.map_some, called, ← path]
        exact r.synthesize_ne registration.type e mem
      · exact entries_registerAll _ later
      · have holds := (holds_enter (r := r) spelled nameless).registerAll later
        rw [path] at holds
        exact holds.resolve

/-- A type, another one whose short name ends in a number, and one that is refused. -/
def namesakes : List (Registration Empty) :=
  [{ type := ⟨"a::X"⟩, name := some ⟨"a", "X"⟩, reconstruct := some 1 },
    { type := ⟨"X_2"⟩, name := some ⟨"b", "X_2"⟩, reconstruct := some 2 },
    { type := ⟨"a::X"⟩, name := some ⟨"", "X"⟩, reconstruct := some 3 }]

theorem reconstructors_namesakes :
    (({ number := 0 } : Registry Empty).registerAll namesakes).entries.map Entry.reconstructor =
      [some ⟨"internal_reconstruct", "reconstruct_X"⟩,
        some ⟨"internal_reconstruct", "reconstruct_X_2"⟩] := by
  have first : (⟨"a::X"⟩ : HostType).shortName = "X" := rfl
  have second : (⟨"X_2"⟩ : HostType).shortName = "X_2" := rfl
  have names : namesakes.map Registration.names? =
      [.ok ⟨⟨"a", "X"⟩, none, none, none⟩, .ok ⟨⟨"b", "X_2"⟩, none, none, none⟩, .error .emptyName] := rfl
  simp only [namesakes, List.map_cons, List.map_nil, List.cons.injEq, and_true] at names
  simp only [registerAll, namesakes, List.foldl, register_eq, names, Except.map, Except.toOption,
    Option.getD, enter, Registration.nameless?, synthesize, first, second]
  rfl

/-- A third type with the short name of the first passes over both names. -/
theorem reconstructors_stand_namesakes :
    let r := ({ number := 0 } : Registry Empty).registerAll namesakes
    let asked : Registration Empty :=
      { type := ⟨"c::X"⟩, name := some ⟨"c", "X"⟩, reconstruct := some 4 }
    let name : Name := ⟨"internal_reconstruct", "reconstruct_X_3"⟩
    ∃ r' entry, r.register asked = .ok r' ∧ r'.entries = r.entries ++ [entry] ∧
      entry.reconstructor = some name ∧
      ∀ later, (r'.registerAll later).resolve name = .found (.function (.host 4)) := by
  intro r asked name
  have entered : r.register asked = .ok (r.enter asked ⟨⟨"c", "X"⟩, none, none, none⟩) := by
    rw [register_eq]
    rfl
  obtain ⟨-, -, named⟩ := reconstructors_stand ({ number := 0 } : Registry Empty) rfl namesakes
  obtain ⟨n, entry, -, -, ends, -, entries, -, -, called, -, stands⟩ := named _ 4 _ rfl rfl entered
  have taken (q : String) : r.isTaken q = [some ⟨"internal_reconstruct", "reconstruct_X"⟩,
      some ⟨"internal_reconstruct", "reconstruct_X_2"⟩].any (· == some (⟨reconstructModule, q⟩ : Name)) := by
    rw [← reconstructors_namesakes, List.any_map]
    rfl
  have length : r.entries.length = 2 := by
    rw [← List.length_map Entry.reconstructor, reconstructors_namesakes]
    rfl
  have short : (⟨"c::X"⟩ : HostType).shortName = "X" := rfl
  have third : candidate ("reconstruct_" ++ asked.type.shortName) n = "reconstruct_X_3" := by
    have tried : freeName r.isTaken ("reconstruct_" ++ asked.type.shortName) 2 1 = _ := ends 2 length.le
    rw [← tried, short]
    simp only [freeName, taken]
    rfl
  rw [third] at called stands
  exact ⟨_, entry, entered, entries, called, fun later => (stands later).2⟩

end Registry

end ObjectStream
