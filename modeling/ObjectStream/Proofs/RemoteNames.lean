import ObjectStream.Proofs.NestedNames

/-!
Types under remote names.

A registry looks at its entries one after the other, and the first that goes by a name decides what it
stands for: the type of the entry, under its remote name or its own (`Registry.decodeGlobal?_of_types`).
So what a remote name is read to depends on the entries in front. If none of them declares the name for
another type, it stands for the type whose remote name it is, and from protocol 4 on the stream of the
type is read to the type again (`loads_dumps_remote`). But an entry in front that declares the name takes
it: the type is written under a name that is read to another type (`decodeGlobal?_shadowed`).
-/

namespace ObjectStream

open Decoder (Machine Leads Stands)
open Encoder

variable {H : Type}

/-! ## Names of types -/

namespace Entry

/-- The type of the entry goes by the name, for the other side or on this one. -/
def GoesBy (e : Entry H) (n : Name) : Prop := e.remoteName = some n ∨ e.name = n

instance (e : Entry H) (n : Name) : Decidable (e.GoesBy n) := inferInstanceAs (Decidable (_ ∨ _))

/-- The type of the entry, under the name. -/
def typed (e : Entry H) (n : Name) : Global :=
  { Global.named n.module n.qualname with type := some e.type, symbol := e.reconstructSymbol }

/-- No function that builds objects of the type again goes by the name. -/
def Frees (e : Entry H) (n : Name) : Prop :=
  e.remoteReconstructor ≠ some n ∧ e.reconstructor ≠ some n

instance (e : Entry H) (n : Name) : Decidable (e.Frees n) := inferInstanceAs (Decidable (_ ∧ _))

theorem Frees.roleOf? {e : Entry H} {n : Name} (free : e.Frees n) :
    Registry.roleOf? e n = if e.GoesBy n then some .type else none := by
  rw [Registry.roleOf?, if_neg free.1, if_neg free.2]
  by_cases remote : e.remoteName = some n
  · rw [if_pos remote, if_pos (show e.GoesBy n from .inl remote)]
  by_cases declared : e.name = n
  · rw [if_neg remote, if_pos declared, if_pos (show e.GoesBy n from .inr declared)]
  · have other : ¬e.GoesBy n := not_or.2 ⟨remote, declared⟩
    rw [if_neg remote, if_neg declared, if_neg other]

end Entry

namespace Registry

variable {r r' : Registry H} {n : Name} {t : HostType} {e : Entry H}

/-- If no function goes by the name, it stands for the first type that goes by it. -/
theorem decodeGlobal?_of_types (free : ∀ e ∈ r.entries, e.Frees n) :
    r.decodeGlobal? n = (r.entries.find? fun e => e.GoesBy n).map fun e => e.typed n := by
  have roles : ∀ es : List (Entry H), (∀ e ∈ es, e.Frees n) →
      (es.findSome? fun e => (roleOf? e n).map fun role => (e, role)) =
        (es.find? fun e => e.GoesBy n).map fun e => (e, NameRole.type) := by
    intro es free
    induction es with
    | nil => rfl
    | cons e es ih =>
      obtain ⟨first, others⟩ := List.forall_mem_cons.1 free
      rw [List.findSome?_cons, List.find?_cons, first.roleOf?]
      by_cases goes : e.GoesBy n
      · simp only [goes, if_true, decide_true, Option.map_some]
      · simp only [goes, if_false, decide_false, Option.map_none]
        exact ih others
  rw [decodeGlobal?, roles r.entries free, Option.map_map]
  rfl

/-- The name is the remote name of no other type, and no function goes by it. -/
structure Sole (r : Registry H) (t : HostType) (n : Name) : Prop where
  types : ∀ e ∈ r.entries, e.remoteName = some n → e.type = t
  free : ∀ e ∈ r.entries, e.Frees n

/-- The remote name of a type stands for the type, or else for that of an entry in front that declares
    the name. -/
theorem Sole.decodeGlobal? {before behind : List (Entry H)} (sole : r.Sole e.type n)
    (entries : r.entries = before ++ e :: behind) (remote : e.remoteName = some n) :
    ∃ e', r.decodeGlobal? n = some (e'.typed n) ∧
      (e'.type = e.type ∨ e' ∈ before ∧ e'.name = n) := by
  have goes : e.GoesBy n := .inl remote
  rw [decodeGlobal?_of_types sole.free, entries, List.find?_append]
  cases found : before.find? fun e => e.GoesBy n with
  | none =>
    refine ⟨e, ?_, .inl rfl⟩
    rw [Option.none_or, List.find?_cons_of_pos (by exact decide_eq_true goes), Option.map_some]
  | some e' =>
    refine ⟨e', rfl, ?_⟩
    have mem := List.mem_of_find?_eq_some found
    have goes' : e'.GoesBy n := by simpa using List.find?_some found
    rcases goes' with remote' | declared
    · exact .inl (sole.types e' (by simp [entries, mem]) remote')
    · exact .inr ⟨mem, declared⟩

/-- A registration binds no extension code. -/
theorem Coded.register {registration : Registration H} (h : r.Coded)
    (registered : r.register registration = .ok r') : r'.Coded := by
  refine h.congr ?_
  unfold Registry.register at registered
  simp only [bind, Except.bind] at registered
  repeat' split at registered
  all_goals first
    | cases registered
  all_goals rfl

end Registry

/-! ## Streams -/

/-- From protocol 3 on a name stands for what is registered under it. -/
theorem Registry.stands {cfg : Decoder.Config H} {protocol : Nat} {n : Name} {g : Global}
    (late : 3 ≤ protocol) (registered : cfg.registry.decodeGlobal? n = some g) :
    Stands cfg protocol n g := by
  rintro st rfl
  have kept : (st.protocol < 3 && cfg.fixImports) = false := by
    rw [decide_eq_false (Nat.not_lt.2 late), Bool.false_and]
  simp only [Decoder.findGlobal, bind_apply, get_apply, kept, Bool.false_eq_true, if_false, registered]

variable [HostObject H]

/-- From protocol 4 on a name is written in one piece, and read to what is registered under it. -/
theorem Trip.leads_registered {x : Trip H} {n : Name} {g : Global} {given : Bool}
    {is : List Instruction} {m : Machine H} (late : 4 ≤ x.encoder.protocol.val)
    (shared : x.decoder.registry = x.encoder.registry) (coded : x.encoder.registry.Coded)
    (registered : x.encoder.registry.decodeGlobal? n = some g)
    (spelling : x.encoder.Spelling n given is) (protocol : m.protocol = x.announced) :
    Leads x.decoder x.total is m fun m' => m.Gains m' (.global g) := by
  have recent : 3 ≤ m.protocol := by
    rw [protocol, Trip.announced, if_pos (by omega)]
    omega
  have stands : Stands x.decoder m.protocol n g := Registry.stands recent (shared ▸ registered)
  cases spelling with
  | extension _ known =>
    obtain ⟨positive, bound, named⟩ := coded n _ known
    exact Decoder.leads_extensionInstruction positive bound (shared ▸ named) stands (m.gains_pushNew _)
  | texts =>
    refine Leads.cons (Decoder.pushes_textInstruction _ _ _ _ _ ?_)
    refine Leads.cons (Decoder.pushes_textInstruction _ _ _ _ _ ?_)
    exact Decoder.leads_stackGlobal stands rfl (m.gains_pushNew _)
  | lines early => exact absurd late (Nat.not_le.2 early)
  | nested early => exact absurd late (Nat.not_le.2 early)

/-- From protocol 4 on the stream of a global is read to what is registered under its name. -/
theorem gives_registered (cfg : Encoder.Config H) {s s' : Store H} {id : Nat} {written g : Global}
    {n : Name} {bytes : Bytes} (coded : cfg.registry.Coded) (plain : cfg.persistentId = none)
    (late : 4 ≤ cfg.protocol.val) (found : s.cells[id]? = some (.global written))
    (wire : wireName cfg written = .ok n) (registered : cfg.registry.decodeGlobal? n = some g)
    (dumped : dumps cfg s (.ref id) = (.ok bytes, s')) (word : bytes.length < 2 ^ 64) :
    cfg.decoder.Gives bytes g := by
  intro base
  let x : Trip H :=
    { encoder := cfg, decoder := cfg.decoder, source := s, total := True, classes := fun _ => False }
  exact x.arrives_spelled base trivial plain found wire
    (fun _ _ _ spelling protocol => x.leads_registered late rfl coded registered spelling protocol)
    dumped rfl word

/-- The remote name of a type stands for the type, if no entry in front declares the name for another
    one. From protocol 4 on the stream of a global that is written under the remote name is read to the
    type. -/
theorem loads_dumps_remote (r : Registry H) (coded : r.Coded) {before behind : List (Entry H)}
    {e : Entry H} {n : Name} (entries : r.entries = before ++ e :: behind)
    (remote : e.remoteName = some n) (sole : r.Sole e.type n)
    (clear : ∀ e' ∈ before, e'.name = n → e'.type = e.type) :
    ∃ g : Global, g.type = some e.type ∧ g.module = some n.module ∧ g.qualname = n.qualname ∧
      r.decodeGlobal? n = some g ∧
      ∀ (cfg : Encoder.Config H) (s s' : Store H) (id : Nat) (written : Global) (bytes : Bytes),
        cfg.registry = r → cfg.persistentId = none → 4 ≤ cfg.protocol.val →
        s.cells[id]? = some (.global written) → written.type = some e.type →
        (r.find? e.type).map Entry.typeWireName = some n →
        dumps cfg s (.ref id) = (.ok bytes, s') → bytes.length < 2 ^ 64 →
        cfg.decoder.Gives bytes g := by
  obtain ⟨e', registered, alike⟩ := sole.decodeGlobal? entries remote
  have same : e'.type = e.type := by
    rcases alike with same | ⟨mem, declared⟩
    · exact same
    · exact clear e' mem declared
  refine ⟨e'.typed n, congrArg some same, rfl, rfl, registered, ?_⟩
  rintro cfg s s' id written bytes rfl plain late found typed first dumped word
  have wire : wireName cfg written = .ok n := by
    obtain ⟨e₁, found, named⟩ := Option.map_eq_some_iff.1 first
    simp only [wireName, typed, found, named]
  exact gives_registered cfg coded plain late found wire registered dumped word

/-! ## Two types and one name -/

/-- A type that declares the name. -/
def ownRegistration : Registration Empty := { type := ⟨"m::Alpha"⟩, name := some ⟨"m", "R"⟩ }

/-- A type whose remote name it is. -/
def remoteRegistration : Registration Empty :=
  { type := ⟨"n::Beta"⟩, name := some ⟨"n", "B"⟩, remoteName := some ⟨"m", "R"⟩ }

def ownEntry : Entry Empty := ⟨⟨"m::Alpha"⟩, ⟨"m", "R"⟩, none, none, none, none, none, none⟩

def remoteEntry : Entry Empty :=
  ⟨⟨"n::Beta"⟩, ⟨"n", "B"⟩, none, some ⟨"m", "R"⟩, none, none, none, none⟩

def remoteStore : Store Empty := ⟨#[.global (.ofType ⟨"n::Beta"⟩)]⟩

/-- The stream of the second type in protocol 4. -/
def remoteBytes : Bytes :=
  [0x80, 4, 0x95, 9, 0, 0, 0, 0, 0, 0, 0, 0x8c, 1, 0x6d, 0x8c, 1, 0x52, 0x93, 0x94, 0x2e]

theorem dumps_remote {r : Registry Empty} (uncoded : r.extensions = [])
    (wire : wireName { registry := r, host := r.host, protocol := 4 } (.ofType ⟨"n::Beta"⟩) =
      .ok ⟨"m", "R"⟩) :
    dumps { registry := r, host := r.host, protocol := 4 } remoteStore (.ref 0) =
      (.ok remoteBytes, remoteStore) :=
  dumps_global_texts (show 4 ≤ (4 : Protocol).val by decide) rfl (show 256 ≠ 0 by decide) rfl wire
    (Registry.extensionCode?_of_nil uncoded _) (by decide)

/-- The type with the remote name is registered first. -/
def remoteRegistry : Registry Empty :=
  { (Registry.seeded 0 : Registry Empty) with entries := [remoteEntry, ownEntry] }

theorem loads_dumps_remote_first :
    ∃ g : Global, g.type = some ⟨"n::Beta"⟩ ∧ remoteRegistry.decodeGlobal? ⟨"m", "R"⟩ = some g ∧
      dumps { registry := remoteRegistry, host := remoteRegistry.host, protocol := 4 } remoteStore
        (.ref 0) = (.ok remoteBytes, remoteStore) ∧
      Decoder.Config.Gives { registry := remoteRegistry, host := remoteRegistry.host } remoteBytes
        g := by
  have coded : remoteRegistry.Coded := nofun
  have sole : remoteRegistry.Sole remoteEntry.type ⟨"m", "R"⟩ := ⟨by decide, by decide⟩
  have dumped := dumps_remote (r := remoteRegistry) rfl rfl
  have entries : remoteRegistry.entries = [] ++ remoteEntry :: [ownEntry] := rfl
  obtain ⟨g, typed, -, -, registered, gives⟩ :=
    loads_dumps_remote remoteRegistry coded entries rfl sole (List.forall_mem_nil _)
  exact ⟨g, typed, registered, dumped, gives { registry := remoteRegistry, host := remoteRegistry.host }
    remoteStore remoteStore 0 _ remoteBytes rfl rfl (show 4 ≤ (4 : Protocol).val by decide) rfl rfl rfl
    dumped (by decide)⟩

/-- The other way round the type that declares the name takes it. The type with the remote name is
    written under it all the same, and read to the other type. -/
theorem decodeGlobal?_shadowed :
    ∃ r₁ r : Registry Empty, (Registry.seeded 0).register ownRegistration = .ok r₁ ∧
      r₁.register remoteRegistration = .ok r ∧
      (∃ e ∈ r.entries, e.type = ⟨"n::Beta"⟩ ∧ e.remoteName = some ⟨"m", "R"⟩) ∧
      r.Sole ⟨"n::Beta"⟩ ⟨"m", "R"⟩ ∧
      r.decodeGlobal? ⟨"m", "R"⟩ = some (ownEntry.typed ⟨"m", "R"⟩) ∧
      (ownEntry.typed ⟨"m", "R"⟩).type = some ⟨"m::Alpha"⟩ ∧
      dumps { registry := r, host := r.host, protocol := 4 } remoteStore (.ref 0) =
        (.ok remoteBytes, remoteStore) ∧
      Decoder.Config.Gives { registry := r, host := r.host } remoteBytes
        (ownEntry.typed ⟨"m", "R"⟩) := by
  have late : 4 ≤ (4 : Protocol).val := by decide
  refine ⟨_, _, rfl, rfl, ⟨remoteEntry, List.mem_append_right _ (List.mem_singleton.2 rfl), rfl, rfl⟩,
    ⟨by decide, by decide⟩, rfl, rfl, dumps_remote rfl rfl, ?_⟩
  have coded := (Registry.coded_seeded 0).register
    (show (Registry.seeded 0).register ownRegistration = .ok _ from rfl)
  have coded' := coded.register (show Registry.register _ remoteRegistration = .ok _ from rfl)
  exact gives_registered { registry := _, host := _, protocol := 4 } coded' rfl late rfl rfl rfl
    (dumps_remote rfl rfl) (by decide)

end ObjectStream
