import ObjectStream.Proofs.Delivery
import ObjectStream.Proofs.Drafts
import ObjectStream.Proofs.Registries
import ObjectStream.Proofs.Tidy

/-!
Round trips.

What an encoder writes for a tidy graph of built-in kinds, a fresh decoder reads to a graph that is
alike, under every protocol (`loads_dumps`). With instances both sides need the same registry, which
binds their classes under their own names (`loads_dumps_instances`).
-/

namespace ObjectStream

open Encoder

variable {H : Type}

/-- The class goes by its own name: the registry binds it there, no registered host type takes the
    name, and every protocol can spell it. -/
structure Registry.Binds (r : Registry H) (c : Class) : Prop where
  bound : r.resolve ⟨c.module, c.qualname⟩ = .found (.ofClass c)
  unregistered : r.decodeGlobal? ⟨c.module, c.qualname⟩ = none
  portable : Name.Portable ⟨c.module, c.qualname⟩

/-- The class leaves the state of its instances to the codec. -/
def Host.Leaves (host : Host H) (c : Class) : Prop :=
  (host.hooks c.key).getState = none ∧ (host.hooks c.key).setState = none

namespace Trip

variable {x : Trip H}

/-- Both ends agree if their registries do. -/
theorem agrees_of_registries (plain : x.encoder.persistentId = none)
    (imports : x.decoder.fixImports = x.encoder.fixImports)
    (intact : x.decoder.registry.Intact)
    (coded : ∀ name code, x.encoder.registry.extensionCode? name = some code →
      0 < code ∧ code ≤ maxExtensionCode ∧ x.decoder.registry.extension? code = some name)
    (binds : ∀ c, x.classes c → x.decoder.registry.Binds c)
    (identity : ∀ c d, x.classes c → x.classes d → d.key = c.key → d = c)
    (hooks : ∀ c, x.classes c → (x.encoder.host.hooks c.key).getState = none ∧
      (x.decoder.host.hooks c.key).setState = none) : x.Agrees where
  plain := plain
  imports := imports
  seeds name symbol mem := by
    obtain ⟨bound, unregistered⟩ := intact name symbol mem
    exact ⟨bound, unregistered, Registry.seeds_portable mem, coded name⟩
  classes c known :=
    have binds := binds c known
    ⟨binds.bound, binds.unregistered, binds.portable, coded _⟩
  identity := identity
  hooks := hooks

end Trip

variable [HostObject H] {s s' base : Store H} {v : Value} {p : Protocol} {bytes : Bytes}
  {total : Prop}

/-- Under the usual limits a stream that was written arrives if comparisons of keys end. -/
theorem Trip.arrives {x : Trip H} (base : Store H) (known : x.total) (agrees : x.Agrees)
    (sound : x.Sound x.source v) (dumped : Encoder.dumps x.encoder x.source v = (.ok bytes, s'))
    (usual : x.decoder.limits = {}) (word : bytes.length < 2 ^ 64) :
    ∃ w base', Decoder.loads x.decoder base bytes = (.ok w, base') ∧
      Isomorphic x.source base' v w := by
  have short : bytes.length ≤ 2 ^ 64 - 1 := by omega
  rcases x.delivers base agrees sound dumped (usual ▸ short) word (usual ▸ short)
    (usual ▸ short) with arrives | ⟨partly, -⟩
  · exact arrives
  · exact absurd known partly

namespace Trip

/-- A trip of built-in kinds between two fresh registries. -/
def builtIn (n n' : Nat) (host host' : Host H) (p : Protocol) (s : Store H) : Trip H where
  encoder := { registry := .seeded n, host := host, protocol := p }
  decoder := { registry := .seeded n', host := host' }
  source := s
  total := True
  classes _ := False

variable {n n' : Nat} {host host' : Host H}

omit [HostObject H] in
theorem builtIn_agrees : (builtIn n n' host host' p s).Agrees :=
  agrees_of_registries rfl rfl (Registry.intact_seeded n') nofun (fun _ => False.elim)
    (fun _ _ => False.elim) fun _ => False.elim

theorem builtIn_sound (tidy : s.Tidy True (fun _ => False) v) :
    (builtIn n n' host host' p s).Sound s v :=
  sound_of_tidy tidy (tidy.apart tidy.bare)

/-- A trip of instances between two ends that share a registry. -/
def shared (r : Registry H) (host : Host H) (p : Protocol) (s : Store H) (total : Prop)
    (classes : Class → Prop) : Trip H where
  encoder := { registry := r, host := host, protocol := p }
  decoder := { registry := r, host := host }
  source := s
  total := total
  classes := classes

omit [HostObject H] in
theorem shared_agrees {r : Registry H} {classes : Class → Prop} (intact : r.Intact)
    (coded : r.Coded) (binds : ∀ c, classes c → r.Binds c) (leaves : ∀ c, classes c → host.Leaves c)
    (identity : ∀ c d, classes c → classes d → d.key = c.key → d = c) :
    (shared r host p s total classes).Agrees :=
  agrees_of_registries rfl rfl intact coded binds identity leaves

end Trip

/-- A graph of built-in kinds that was written is read back, its objects alike one by one. -/
theorem loads_dumps {n n' : Nat} {host host' : Host H} (tidy : s.Tidy True (fun _ => False) v)
    (dumped : Encoder.dumps { registry := .seeded n, host := host, protocol := p } s v =
      (.ok bytes, s')) (word : bytes.length < 2 ^ 64) :
    ∃ w base', Decoder.loads { registry := .seeded n', host := host' } base bytes =
      (.ok w, base') ∧ Isomorphic s base' v w := by
  let x : Trip H := .builtIn n n' host host' p s
  have agrees : x.Agrees := Trip.builtIn_agrees
  have sound : x.Sound x.source v := Trip.builtIn_sound tidy
  exact x.arrives base trivial agrees sound dumped rfl word

/-- A tuple that its own list leads back to. -/
def knot : Store Empty := ⟨#[.list #[.ref 1], .tuple [.ref 0]]⟩

/-- What an encoder of protocol 2 has written and remembers behind the walk over the tuple. -/
def knotDraft : Draft Empty where
  store := knot
  memo := [(.object 1, 1), (.object 0, 0)]
  log := [⟨.proto, (2 : UInt8)⟩, ⟨.emptyList, ()⟩, ⟨.binPut, (0 : UInt8)⟩, ⟨.binGet, (0 : UInt8)⟩,
    ⟨.tuple1, ()⟩, ⟨.binPut, (1 : UInt8)⟩, ⟨.append, ()⟩, ⟨.pop, ()⟩, ⟨.binGet, (1 : UInt8)⟩]

/-- The list is fetched while the tuple is written, so the tuple is dropped and fetched as well. -/
theorem drafts_knot {host : Host Empty} :
    Drafts (save { registry := .seeded 0, host := host, protocol := 2 } (Limits.maxDepth {}) true (.ref 1))
      (Draft.announced ⟨knot, [], []⟩ 2) fun _ d => d = knotDraft := by
  refine drafts_new rfl rfl rfl ?_
  refine Drafts.bind ?_
  refine Drafts.bind ?_
  refine drafts_new rfl rfl rfl ?_
  refine Drafts.bind (drafts_emit ?_)
  refine Drafts.bind (drafts_memoizeAs (by decide) rfl (drafts_emit ?_))
  refine drafts_appendItems rfl (by decide) ?_
  refine Drafts.bind ?_
  refine drafts_new rfl rfl rfl ?_
  refine Drafts.bind (Drafts.bind ?_)
  refine drafts_known rfl rfl (drafts_emit ?_)
  refine Drafts.pure ?_
  refine Drafts.bind (drafts_memoized ?_)
  refine Drafts.bind (drafts_emit ?_)
  refine (drafts_memoizeAs (by decide) rfl (drafts_emit ?_))
  refine drafts_emit ?_
  refine Drafts.pure ?_
  refine Drafts.bind (drafts_memoized ?_)
  refine Drafts.bind (Drafts.bind (drafts_emit ?_))
  refine Drafts.pure ?_
  refine drafts_emit ?_
  rfl

theorem dumps_knot :
    Encoder.dumps { registry := .seeded 0, host := {}, protocol := 2 } knot (.ref 1) =
      (.ok [0x80, 2, 0x5d, 0x71, 0, 0x68, 0, 0x85, 0x71, 1, 0x61, 0x30, 0x68, 1, 0x2e], knot) :=
  dumps_of_drafts knotDraft.memo knotDraft.log (by decide) drafts_knot

theorem tidy_knot : knot.Tidy True (fun _ => False) (.ref 1) := by
  refine Store.tidy_of_cells (fun i cell found => ?_) (fun i same => ?_)
  · match i, found with
    | 0, rfl =>
      refine ⟨⟨trivial, trivial, Cell.orderly_of_no_keys rfl trivial⟩, fun j mem => ?_⟩
      cases List.mem_singleton.1 mem
      decide
    | 1, rfl =>
      refine ⟨⟨nofun, fun j mem => ?_, Cell.orderly_of_no_keys rfl trivial⟩, fun j mem => ?_⟩
      all_goals
        cases List.mem_singleton.1 mem
        decide
  · cases same
    decide

theorem loads_dumps_knot : knot.Tidy True (fun _ => False) (.ref 1) ∧ ∃ w base',
    Decoder.loads { registry := .seeded 1, host := {} } ({} : Store Empty)
      [0x80, 2, 0x5d, 0x71, 0, 0x68, 0, 0x85, 0x71, 1, 0x61, 0x30, 0x68, 1, 0x2e] =
      (.ok w, base') ∧ Isomorphic knot base' (.ref 1) w :=
  ⟨tidy_knot, loads_dumps tidy_knot dumps_knot (by decide)⟩

/-- A graph with instances, none of them in a key, is read back with the same classes. -/
theorem loads_dumps_instances {r : Registry H} {host : Host H} {classes : Class → Prop}
    (intact : r.Intact) (coded : r.Coded) (binds : ∀ c, classes c → r.Binds c)
    (leaves : ∀ c, classes c → host.Leaves c)
    (identity : ∀ c d, classes c → classes d → d.key = c.key → d = c)
    (tidy : s.Tidy True classes v) (bare : s.KeysBare v)
    (dumped : Encoder.dumps { registry := r, host := host, protocol := p } s v = (.ok bytes, s'))
    (word : bytes.length < 2 ^ 64) :
    ∃ w base', Decoder.loads { registry := r, host := host } base bytes = (.ok w, base') ∧
      Isomorphic s base' v w := by
  let x : Trip H := .shared r host p s True classes
  have agrees : x.Agrees := Trip.shared_agrees intact coded binds leaves identity
  have sound : x.Sound x.source v := Trip.sound_of_tidy tidy (tidy.apart bare)
  exact x.arrives base trivial agrees sound dumped rfl word

/-- The class of the next example. -/
def loopClass : Class := ⟨.declared 0, "m", "K"⟩

def loopNames : Registry Empty := (Registry.seeded 0).define ⟨"m", "K"⟩ (.ofClass loopClass)

/-- A registry that binds the class and has an extension code for its name. -/
def loopRegistry : Registry Empty := { loopNames with extensions := [(⟨"m", "K"⟩, 5)] }

theorem bound_loop :
    loopRegistry.Intact ∧ loopRegistry.Coded ∧ ∀ c, c = loopClass → loopRegistry.Binds c := by
  have new : (⟨"m", "K"⟩ : Name) ∉ (Registry.seeds 0).map Prod.fst := by decide
  have intact : loopRegistry.Intact := (Registry.intact_seeded 0).define new _
  have bound : loopRegistry.resolve ⟨"m", "K"⟩ = .found (.ofClass loopClass) :=
    Registry.resolve_define (.seeded 0) _ _
  have plain : Name.Plain ⟨"m", "K"⟩ := ⟨by decide +kernel, by decide +kernel⟩
  have former : loopNames.Coded := (Registry.coded_seeded 0).congr rfl
  have added : loopNames.addExtension ⟨"m", "K"⟩ 5 = .ok loopRegistry := rfl
  refine ⟨intact, former.addExtension added, ?_⟩
  rintro c rfl
  exact ⟨bound, rfl, Name.portable_of_plain plain rfl (by decide)⟩

def loopAttributes : Dict :=
  Keyed.empty.put none ((Store.empty : Store Empty).imageOf (.str "x")) (.str "x") (.ref 0)

/-- An instance that is its own attribute. -/
def loop : Store Empty := ⟨#[.inst loopClass loopAttributes]⟩

theorem dumps_loop :
    Encoder.dumps { registry := loopRegistry, host := {}, protocol := 2 } loop (.ref 0) =
      (.ok [0x80, 2, 0x82, 5, 0x29, 0x81, 0x71, 0, 0x7d, 0x71, 1, 0x58, 1, 0, 0, 0, 0x78, 0x68, 0,
        0x73, 0x62, 0x2e], loop.push (.dict loopAttributes)) := by
  refine dumps_of_drafts [(.object 1, 1), (.object 0, 0)]
    [⟨.proto, (2 : UInt8)⟩, ⟨.ext1, (5 : UInt8)⟩, ⟨.emptyTuple, ()⟩, ⟨.newObj, ()⟩,
      ⟨.binPut, (0 : UInt8)⟩, ⟨.emptyDict, ()⟩, ⟨.binPut, (1 : UInt8)⟩,
      ⟨.binUnicode, ([0x78] : Bytes)⟩, ⟨.binGet, (0 : UInt8)⟩, ⟨.setItem, ()⟩, ⟨.build, ()⟩]
    (by decide) ?_
  refine drafts_new rfl rfl rfl ?_
  refine Drafts.bind (Drafts.bind (drafts_alloc (Drafts.pure ?_)))
  -- the class
  refine Drafts.bind (Drafts.bind (Drafts.bind (drafts_memoized ?_)))
  refine Drafts.bind (Drafts.bind (drafts_emit (Drafts.pure ?_)))
  refine Drafts.pure ?_
  refine Drafts.bind (drafts_save rfl (drafts_emit ?_))
  refine drafts_emit ?_
  refine Drafts.bind (drafts_memoizeAs (by decide) rfl (drafts_emit ?_))
  -- the state
  refine Drafts.bind ?_
  refine drafts_new rfl rfl rfl ?_
  refine Drafts.bind (drafts_emit ?_)
  refine Drafts.bind (drafts_memoizeAs (by decide) rfl (drafts_emit ?_))
  refine drafts_storeEntries rfl (by decide) ?_
  refine Drafts.bind (drafts_save rfl (drafts_text rfl (by decide) (by decide) (by decide) ?_))
  refine Drafts.bind (drafts_known rfl rfl (drafts_emit ?_))
  refine drafts_emit ?_
  refine drafts_emit ?_
  rfl

theorem tidy_loop : loop.Tidy True (· = loopClass) (.ref 0) := by
  refine Store.tidy_of_cells (fun i cell found => ?_) (fun i same => ?_)
  · match i, found with
    | 0, rfl =>
      refine ⟨⟨rfl, trivial, ?_⟩, fun j mem => ?_⟩
      · refine ⟨fun key mem => ?_, Keyed.files_empty.put rfl _ _ _, List.pairwise_singleton _ _⟩
        cases List.mem_singleton.1 mem
        exact ⟨_, rfl⟩
      · rcases List.mem_pair.1 mem with same | same
        · cases same
        · cases same
          decide
  · cases same
    decide

theorem bare_loop : loop.KeysBare (.ref 0) := by
  intro i cell _ found key mem j c t inside
  match i, found with
  | 0, rfl =>
    cases List.mem_singleton.1 mem
    cases inside.eq_of_atom nofun

theorem loads_dumps_loop : ∃ w base',
    Decoder.loads { registry := loopRegistry, host := {} } ({} : Store Empty)
      [0x80, 2, 0x82, 5, 0x29, 0x81, 0x71, 0, 0x7d, 0x71, 1, 0x58, 1, 0, 0, 0, 0x78, 0x68, 0, 0x73,
        0x62, 0x2e] = (.ok w, base') ∧ Isomorphic loop base' (.ref 0) w := by
  obtain ⟨intact, coded, binds⟩ := bound_loop
  exact loads_dumps_instances intact coded binds (fun _ _ => ⟨rfl, rfl⟩)
    (fun c d known known' _ => known'.trans known.symm) tidy_loop bare_loop dumps_loop (by decide)

/-- A graph with instances also in keys, none of which leads back to the object that holds it, is read
    back with all its entries, unless a comparison of keys has no end. -/
theorem loads_dumps_keys {r : Registry H} {host : Host H} {classes : Class → Prop}
    (intact : r.Intact) (coded : r.Coded) (binds : ∀ c, classes c → r.Binds c)
    (leaves : ∀ c, classes c → host.Leaves c)
    (identity : ∀ c d, classes c → classes d → d.key = c.key → d = c)
    (tidy : s.Tidy False classes v) (apart : s.KeysApart v)
    (dumped : Encoder.dumps { registry := r, host := host, protocol := p } s v = (.ok bytes, s'))
    (word : bytes.length < 2 ^ 64) :
    (∃ w base', Decoder.loads { registry := r, host := host } base bytes = (.ok w, base') ∧
        Isomorphic s base' v w) ∨
      ∃ base', Decoder.loads { registry := r, host := host } base bytes =
        (.error .endless, base') := by
  let x : Trip H := .shared r host p s False classes
  have agrees : x.Agrees := Trip.shared_agrees intact coded binds leaves identity
  have sound : x.Sound x.source v := Trip.sound_of_tidy tidy apart
  have short : bytes.length ≤ 2 ^ 64 - 1 := by omega
  exact (x.delivers base agrees sound dumped short word short short).imp_right And.right

def badgeAttributes : Dict :=
  Keyed.empty.put none ((Store.empty : Store Empty).imageOf (.str "x")) (.str "x") .none

/-- Two instances of one class, of which the second one has an attribute. -/
def holders : Store Empty := ⟨#[.inst loopClass Keyed.empty, .inst loopClass badgeAttributes]⟩

def badges : Dict :=
  (Keyed.empty.put none (holders.imageOf (.ref 0)) (.ref 0) (.bool true)).put none
    (holders.imageOf (.ref 1)) (.ref 1) (.bool false)

/-- A dictionary with both as its keys. -/
def badge : Store Empty := holders.push (.dict badges)

theorem dumps_badge :
    Encoder.dumps { registry := loopRegistry, host := {}, protocol := 2 } badge (.ref 2) =
      (.ok [0x80, 2, 0x7d, 0x71, 0, 0x28, 0x82, 5, 0x29, 0x81, 0x71, 1, 0x88, 0x82, 5, 0x29, 0x81,
        0x71, 2, 0x7d, 0x71, 3, 0x58, 1, 0, 0, 0, 0x78, 0x4e, 0x73, 0x62, 0x89, 0x75, 0x2e],
        badge.push (.dict badgeAttributes)) := by
  refine dumps_of_drafts [(.object 3, 3), (.object 1, 2), (.object 0, 1), (.object 2, 0)]
    [⟨.proto, (2 : UInt8)⟩, ⟨.emptyDict, ()⟩, ⟨.binPut, (0 : UInt8)⟩, ⟨.mark, ()⟩,
      ⟨.ext1, (5 : UInt8)⟩, ⟨.emptyTuple, ()⟩, ⟨.newObj, ()⟩, ⟨.binPut, (1 : UInt8)⟩, ⟨.newTrue, ()⟩,
      ⟨.ext1, (5 : UInt8)⟩, ⟨.emptyTuple, ()⟩, ⟨.newObj, ()⟩, ⟨.binPut, (2 : UInt8)⟩,
      ⟨.emptyDict, ()⟩, ⟨.binPut, (3 : UInt8)⟩, ⟨.binUnicode, ([0x78] : Bytes)⟩, ⟨.none, ()⟩,
      ⟨.setItem, ()⟩, ⟨.build, ()⟩, ⟨.newFalse, ()⟩, ⟨.setItems, ()⟩]
    (by decide) ?_
  refine drafts_new rfl rfl rfl ?_
  refine Drafts.bind (drafts_emit ?_)
  refine Drafts.bind (drafts_memoizeAs (by decide) rfl (drafts_emit ?_))
  refine drafts_storeEntries rfl (by decide) ?_
  refine Drafts.bind (drafts_emit ?_)
  -- the first key
  refine Drafts.bind (Drafts.bind ?_)
  refine drafts_new rfl rfl rfl ?_
  refine Drafts.bind (Drafts.pure ?_)
  refine Drafts.bind (Drafts.bind (Drafts.bind (drafts_memoized ?_)))
  refine Drafts.bind (Drafts.bind (drafts_emit (Drafts.pure ?_)))
  refine Drafts.pure ?_
  refine Drafts.bind (drafts_save rfl (drafts_emit ?_))
  refine drafts_emit ?_
  refine Drafts.bind (drafts_memoizeAs (by decide) rfl (drafts_emit ?_))
  refine Drafts.pure ?_
  refine Drafts.bind (drafts_save rfl (drafts_emit ?_))
  -- the second key
  refine Drafts.bind ?_
  refine drafts_new rfl rfl rfl ?_
  refine Drafts.bind (Drafts.bind (drafts_alloc (Drafts.pure ?_)))
  refine Drafts.bind (Drafts.bind (Drafts.bind (drafts_memoized ?_)))
  refine Drafts.bind (Drafts.bind (drafts_emit (Drafts.pure ?_)))
  refine Drafts.pure ?_
  refine Drafts.bind (drafts_save rfl (drafts_emit ?_))
  refine drafts_emit ?_
  refine Drafts.bind (drafts_memoizeAs (by decide) rfl (drafts_emit ?_))
  refine Drafts.bind ?_
  refine drafts_new rfl rfl rfl ?_
  refine Drafts.bind (drafts_emit ?_)
  refine Drafts.bind (drafts_memoizeAs (by decide) rfl (drafts_emit ?_))
  refine drafts_storeEntries rfl (by decide) ?_
  refine Drafts.bind (drafts_save rfl (drafts_text rfl (by decide) (by decide) (by decide) ?_))
  refine Drafts.bind (drafts_save rfl (drafts_emit ?_))
  refine drafts_emit ?_
  refine drafts_emit ?_
  refine Drafts.bind (drafts_save rfl (drafts_emit ?_))
  refine Drafts.pure ?_
  refine drafts_emit ?_
  rfl

theorem tidy_badge : badge.Tidy False (· = loopClass) (.ref 2) := by
  refine Store.tidy_of_cells (fun i cell found => ?_) (fun i same => ?_)
  · match i, found with
    | 0, rfl => exact ⟨⟨rfl, trivial, Cell.orderly_of_no_keys rfl Keyed.files_empty⟩, nofun⟩
    | 1, rfl =>
      refine ⟨⟨rfl, trivial, ?_⟩, fun j mem => ?_⟩
      · refine ⟨fun key mem => ?_, Keyed.files_empty.put rfl _ _ _, List.pairwise_singleton _ _⟩
        cases List.mem_singleton.1 mem
        exact ⟨_, rfl⟩
      · rcases List.mem_pair.1 mem with same | same <;> cases same
    | 2, rfl =>
      refine ⟨⟨trivial, trivial, ?_⟩, fun j mem => ?_⟩
      · refine ⟨fun key mem => ?_, (Keyed.files_empty.put rfl _ _ _).put rfl _ _ _, ?_⟩
        · rcases List.mem_pair.1 mem with rfl | rfl <;> exact ⟨_, rfl⟩
        -- the keys have one image, and are told apart by their attributes
        · exact List.pairwise_pair.2 (.inr (.inl rfl))
      · have mem : Value.ref j ∈ [.ref 0, .ref 1, .bool true, .bool false] := mem
        simp only [List.mem_cons, Value.ref.injEq, reduceCtorEq, List.not_mem_nil, or_false] at mem
        rcases mem with rfl | rfl <;> decide
  · cases same
    decide

theorem apart_badge : badge.KeysApart (.ref 2) := by
  intro i cell _ found key mem back
  match i, found with
  | 0, rfl => cases mem
  | 1, rfl =>
    cases List.mem_singleton.1 mem
    cases back.eq_of_atom nofun
  | 2, rfl =>
    have first : badge.cells[0]? = some (.inst loopClass Keyed.empty) := rfl
    have second : badge.cells[1]? = some (.inst loopClass badgeAttributes) := rfl
    rcases List.mem_pair.1 mem with rfl | rfl
    · rcases back.ref_cases first with same | ⟨u, held, -⟩
      · cases same
      · cases held
    · rcases back.ref_cases second with same | ⟨u, held, inside⟩
      · cases same
      · rcases List.mem_pair.1 held with rfl | rfl <;> cases inside.eq_of_atom nofun

theorem loads_dumps_badge : (∃ w base',
      Decoder.loads { registry := loopRegistry, host := {} } ({} : Store Empty)
        [0x80, 2, 0x7d, 0x71, 0, 0x28, 0x82, 5, 0x29, 0x81, 0x71, 1, 0x88, 0x82, 5, 0x29, 0x81, 0x71, 2,
          0x7d, 0x71, 3, 0x58, 1, 0, 0, 0, 0x78, 0x4e, 0x73, 0x62, 0x89, 0x75, 0x2e] =
        (.ok w, base') ∧ Isomorphic badge base' (.ref 2) w) ∨
      ∃ base', Decoder.loads { registry := loopRegistry, host := {} } ({} : Store Empty)
        [0x80, 2, 0x7d, 0x71, 0, 0x28, 0x82, 5, 0x29, 0x81, 0x71, 1, 0x88, 0x82, 5, 0x29, 0x81, 0x71, 2,
          0x7d, 0x71, 3, 0x58, 1, 0, 0, 0, 0x78, 0x4e, 0x73, 0x62, 0x89, 0x75, 0x2e] =
        (.error .endless, base') := by
  obtain ⟨intact, coded, binds⟩ := bound_loop
  exact loads_dumps_keys intact coded binds (fun _ _ => ⟨rfl, rfl⟩)
    (fun c d known known' _ => known'.trans known.symm) tidy_badge apart_badge dumps_badge
    (by decide)

end ObjectStream
