import ObjectStream.Proofs.GlobalLines
import ObjectStream.Proofs.OneFrame

/-!
Nested names.

Before protocol 4 a dotted name is written as the call of `getattr` with the global before its last
dot. A decoder then looks up every name in front of it, one dot after the other
(`Trip.leads_spelling`); from protocol 4 on it looks up the whole name only. If the registry binds the
names in front too, both streams are read to the same global (`loads_dumps_nested`). But the encoder
makes sure only that the whole name is bound: where nothing is bound to a name in front of it, it writes
a stream that no decoder can read (`loads_dumps_lone`).
-/

namespace ObjectStream

open Decoder (Machine Leads resolved)
open Encoder

variable {H : Type}

namespace Decoder

/-- Behind `m` the machine `m'` has an object with this content on top of the stack of `m`, and all the
    objects of `m`. -/
structure Machine.Gains (m m' : Machine H) (cell : Cell H) : Prop where
  grown : m.store.Grown m'.store
  top : ∃ j, m'.stack = m.stack ++ [.ref j] ∧ m'.store.cells[j]? = some cell
  marks : m'.marks = m.marks
  protocol : m'.protocol = m.protocol

variable {m m' : Machine H} {cell : Cell H}

theorem Machine.gains_pushNew (m : Machine H) (cell : Cell H) : m.Gains (m.pushNew cell) cell :=
  ⟨.push _ _, ⟨_, rfl, Store.cell_push_last ..⟩, rfl, rfl⟩

theorem Machine.Gains.remember (h : m.Gains m' cell) (n : Nat) (v : Value) :
    m.Gains (m'.remember n v) cell :=
  ⟨h.grown, h.top, h.marks, h.protocol⟩

variable [HostObject H]

/-- `getattr` looks the name of the attribute up, behind the name of the global. -/
theorem callSymbol_getattr {host : Host H} {number : Nat} {ns : Namespace} {s : Store H}
    {owner : Value} {n : Name} {symbol symbol' : Symbol} {last : String}
    (global : s.global? owner = some (resolved n symbol'))
    (own : host.namespaceOf number = some ns)
    (bound : ns.resolve ⟨n.module, n.qualname ++ "." ++ last⟩ = .found symbol) :
    host.callSymbol (.function (.builtin number .getattr)) [owner, .str last] s =
      .ok (.ref s.size)
        (s.push (.global (resolved ⟨n.module, n.qualname ++ "." ++ last⟩ symbol))) := by
  have target : s.callTarget (.function (.builtin number .getattr)) [owner, .str last] =
      .ok (.run (.builtin number .getattr) [owner, .str last]) := by
    rw [Store.callTarget, Store.forward]
    rfl
  have looked : s.attributeOf (some ns) [owner, .str last] =
      .ok (resolved ⟨n.module, n.qualname ++ "." ++ last⟩ symbol) := by
    have lookup : (ns.resolve ⟨n.module, n.qualname ++ "." ++ last⟩).symbol? = some symbol := by
      rw [bound]
      rfl
    simp only [Store.attributeOf, global, resolved, Global.named, Option.getD_some, Option.bind_some,
      lookup]
    rfl
  simp only [Host.callSymbol, Host.carryOut, Builtin.reading, bind_apply, get_apply, target,
    pure_apply, own, Builtin.run, looked]
  rfl

end Decoder

variable [HostObject H]

namespace Trip

variable {x : Trip H} {m : Machine H} {cell : Cell H} {is : List Instruction} {given : Bool}
  {id : Nat} {last : String} {name : Name} {symbol : Symbol}

/-- Giving a number changes neither the stack nor the objects. -/
theorem leads_numbered (small : id < 2 ^ 32)
    (h : Leads x.decoder x.total is m fun m' => m.Gains m' cell) :
    Leads x.decoder x.total (is ++ x.encoder.numbering given id) m fun m' => m.Gains m' cell := by
  cases given with
  | false =>
    rw [Config.numbering, if_neg Bool.false_ne_true, List.append_nil]
    exact h
  | true =>
    refine h.bind fun m' gains => ?_
    obtain ⟨j, stack, -⟩ := gains.top
    exact Decoder.leads_put small stack (gains.remember _ _)

/-- The arguments of `getattr` are put into a tuple, between marks or not. -/
theorem leads_pair (last : String) (small : id < 2 ^ 32)
    (owner : ∀ m : Machine H, m.protocol = x.announced →
      Leads x.decoder x.total is m fun m' => m.Gains m' cell)
    (protocol : m.protocol = x.announced) :
    Leads x.decoder x.total (x.encoder.opening ++
      (is ++ [textInstruction x.encoder.protocol last]) ++
      [x.encoder.pairing, putInstruction x.encoder.protocol id]) m
      fun m' => ∃ o, m'.store.cells[o]? = some cell ∧ m.Gains m' (.tuple [.ref o, .str last]) := by
  unfold Config.opening Config.pairing
  split
  · rw [List.nil_append, List.append_assoc]
    refine (owner m protocol).bind fun m₁ gains => ?_
    obtain ⟨o, stack, found⟩ := gains.top
    refine Leads.cons (Decoder.pushes_textInstruction _ _ _ _ _ (Leads.cons ?_))
    have items : (m₁.push (.str last)).stack = m.stack ++ [.ref o, .str last] := by
      rw [Machine.push, stack, List.append_assoc]
      rfl
    refine Decoder.leads_shortTuple (.of trivial rfl) rfl items rfl (Decoder.leads_put small rfl ?_)
    refine ⟨o, Store.Grown.push _ _ _ _ found, ?_⟩
    exact ⟨gains.grown.trans (.push _ _), ⟨_, rfl, Store.cell_push_last ..⟩, gains.marks,
      gains.protocol⟩
  · rw [List.append_assoc, List.append_assoc]
    refine Leads.cons (Decoder.leads_mark ?_)
    refine (owner m.mark protocol).bind fun m₁ gains => ?_
    obtain ⟨o, stack, found⟩ := gains.top
    refine Leads.cons (Decoder.pushes_textInstruction _ _ _ _ _ (Leads.cons ?_))
    have items : (m₁.push (.str last)).stack = [.ref o, .str last] := by
      rw [Machine.push, stack]
      rfl
    refine Decoder.leads_tuple items gains.marks (Decoder.leads_put small rfl ?_)
    refine ⟨o, Store.Grown.push _ _ _ _ found, ?_⟩
    exact ⟨gains.grown.trans (.push _ _), ⟨_, rfl, Store.cell_push_last ..⟩, rfl, gains.protocol⟩

/-- The call of `getattr` puts the global of the whole name in place of what it was given. -/
theorem leads_getattr {m₁ m₂ : Machine H} {number owner : Nat} {n getter : Name} {symbol' : Symbol}
    {ns : Namespace} (own : x.decoder.host.namespaceOf number = some ns)
    (function : m.Gains m₁ (.global (resolved getter (.function (.builtin number .getattr)))))
    (args : m₁.Gains m₂ (.tuple [.ref owner, .str last]))
    (found : m₂.store.cells[owner]? = some (.global (resolved n symbol')))
    (bound : ns.resolve ⟨n.module, n.qualname ++ "." ++ last⟩ = .found symbol) :
    Leads x.decoder x.total [⟨.reduce, ()⟩] m₂
      fun m' => m.Gains m' (.global (resolved ⟨n.module, n.qualname ++ "." ++ last⟩ symbol)) := by
  obtain ⟨f, stack, called⟩ := function.top
  obtain ⟨t, stack', tuple⟩ := args.top
  have items : m₂.stack = m.stack ++ [.ref f] ++ [.ref t] := by rw [stack', stack]
  have called := args.grown _ _ called
  refine Decoder.leads_reduce items (Store.tuple?_of_cell tuple) (Store.global?_of_cell called) rfl
    (.inl ⟨_, _, Decoder.callSymbol_getattr (Store.global?_of_cell found) own bound, ?_⟩)
  exact ⟨(function.grown.trans args.grown).trans (.push _ _), ⟨_, rfl, Store.cell_push_last ..⟩,
    args.marks.trans function.marks, args.protocol.trans function.protocol⟩

/-- What spells a name puts its global on the stack, if the decoder reads the name and, before
    protocol 4, every name in front of it. -/
theorem leads_spelling (agrees : x.Agrees)
    (own : x.decoder.host.namespaceOf x.decoder.registry.number = some x.decoder.registry.namespace)
    (spelling : x.encoder.Spelling name given is) (reads : x.Reads name symbol)
    (fronts : x.encoder.protocol.val < 4 → ∀ front ∈ (dottedSplits name.qualname).map Prod.fst,
      ∃ symbol, x.Reads ⟨name.module, front⟩ symbol)
    (protocol : m.protocol = x.announced) :
    Leads x.decoder x.total is m fun m' => m.Gains m' (.global (resolved name symbol)) := by
  -- each dot is a call, and the global before it was spelled with one dot less
  induction spelling generalizing symbol m with
  | extension _ known => exact reads.leads_extension known ⟨protocol, m.gains_pushNew _⟩
  | texts => exact reads.leads_texts ⟨protocol, m.gains_pushNew _⟩
  | lines => exact reads.leads_lines agrees.imports ⟨protocol, m.gains_pushNew _⟩
  | @nested name parent last rest is js given given' early dotted _ _ _ first second third numbers
      getter owner =>
    obtain ⟨whole, firsts⟩ := dottedSplits_cons dotted
    rw [dotted, List.map_cons, firsts, List.forall_mem_cons] at fronts
    obtain ⟨symbol', parentReads⟩ := (fronts early).1
    have seed : (⟨"builtins", "getattr"⟩, .function (.builtin x.decoder.registry.number .getattr)) ∈
        Registry.seeds x.decoder.registry.number := by simp [Registry.seeds]
    have owning : ∀ m : Machine H, m.protocol = x.announced →
        Leads x.decoder x.total (js ++ x.encoder.numbering given' second) m fun m' =>
          m.Gains m' (.global (resolved ⟨name.module, parent⟩ symbol')) := fun m told =>
      leads_numbered numbers.2.1 (owner parentReads (fun early => (fronts early).2) told)
    have called := getter (agrees.seeds _ _ seed).reads (fun _ => List.forall_mem_nil _) protocol
    rw [List.append_assoc]
    refine (leads_numbered numbers.1 called).bind fun m₁ function => ?_
    have pair := leads_pair last numbers.2.2 owning (function.protocol.trans protocol)
    refine pair.bind fun m₂ ⟨o, found, args⟩ => ?_
    have bound : x.decoder.registry.namespace.resolve ⟨name.module, parent ++ "." ++ last⟩ =
        .found symbol := whole ▸ reads.bound
    have call := leads_getattr own function args found bound
    rw [← whole] at call
    exact call

/-- The stream of a global is read to `g'`, if everything that spells its name is. -/
theorem arrives_spelled {s s' : Store H} {g g' : Global} {bytes : Bytes} (base : Store H)
    (ends : x.total) (plain : x.encoder.persistentId = none)
    (found : s.cells[id]? = some (.global g)) (wire : wireName x.encoder g = .ok name)
    (spelled : ∀ (given : Bool) (is : List Instruction) (m : Machine H),
      x.encoder.Spelling name given is → m.protocol = x.announced →
        Leads x.decoder x.total is m fun m' => m.Gains m' (.global g'))
    (dumped : dumps x.encoder s (.ref id) = (.ok bytes, s')) (usual : x.decoder.limits = {})
    (word : bytes.length < 2 ^ 64) :
    ∃ j base', Decoder.loads x.decoder base bytes = (.ok (.ref j), base') ∧
      base'.cells[j]? = some (.global g') := by
  obtain ⟨name', _, wire', ⟨given, n, is, small, spelling, rfl⟩, spells, -⟩ :=
    dumps_global_ok plain found dumped
  obtain rfl := Except.ok.inj (wire.symm.trans wire')
  let Q (v : Value) (m : Machine H) : Prop := ∃ j, v = .ref j ∧ m.store.cells[j]? = some (.global g')
  have leads : Leads x.decoder x.total
      (x.encoder.announcement ++ (is ++ x.encoder.numbering given n)) ⟨base, ∅, [], [], 0⟩
      fun m => ∃ below v, m.stack = below ++ [v] ∧ Q v (m.withStack below) := by
    refine Leads.append (leads_announcement rfl ?_)
    refine (leads_numbered small (spelled given is _ spelling rfl)).mono ?_
    intro m gains
    obtain ⟨j, stack, there⟩ := gains.top
    exact ⟨_, _, stack, j, rfl, there⟩
  have short : bytes.length ≤ 2 ^ 64 - 1 := by omega
  rcases Decoder.loads_of_leads spells (usual ▸ short) word (usual ▸ short) (usual ▸ short) leads with
    ⟨v, m, run, j, rfl, there⟩ | ⟨partly, -⟩
  · exact ⟨j, m.store, run, there⟩
  · exact absurd ends partly

/-- The stream of a global is read to a global with its name and what the decoder finds there. -/
theorem arrives_global {s s' : Store H} {g : Global} {bytes : Bytes} (base : Store H) (ends : x.total)
    (agrees : x.Agrees)
    (own : x.decoder.host.namespaceOf x.decoder.registry.number = some x.decoder.registry.namespace)
    (found : s.cells[id]? = some (.global g)) (wire : wireName x.encoder g = .ok name)
    (reads : x.Reads name symbol)
    (fronts : x.encoder.protocol.val < 4 → ∀ front ∈ (dottedSplits name.qualname).map Prod.fst,
      ∃ symbol, x.Reads ⟨name.module, front⟩ symbol)
    (dumped : dumps x.encoder s (.ref id) = (.ok bytes, s')) (usual : x.decoder.limits = {})
    (word : bytes.length < 2 ^ 64) :
    ∃ j base', Decoder.loads x.decoder base bytes = (.ok (.ref j), base') ∧
      base'.cells[j]? = some (.global (resolved name symbol)) :=
  x.arrives_spelled base ends agrees.plain found wire
    (fun _ _ _ spelling protocol => leads_spelling agrees own spelling reads fronts protocol)
    dumped usual word

end Trip

/-! ## Every protocol -/

/-- The name is ASCII and has no old spelling, and no registered host type goes by it. -/
structure Registry.Common (r : Registry H) (n : Name) : Prop where
  onLines : n.OnLines
  plain : n.Plain
  unregistered : r.decodeGlobal? n = none

/-- Such a name is bound. -/
structure Registry.Opens (r : Registry H) (n : Name) : Prop extends r.Common n where
  bound : ∃ symbol, r.resolve n = .found symbol

/-- A decoder for the streams of the encoder. -/
def Encoder.Config.decoder (cfg : Encoder.Config H) : Decoder.Config H where
  registry := cfg.registry
  host := cfg.host
  fixImports := cfg.fixImports

/-- The bytes are read to the global, whatever objects there were before. -/
def Decoder.Config.Gives (cfg : Decoder.Config H) (bytes : Bytes) (g : Global) : Prop :=
  ∀ base, ∃ j base', Decoder.loads cfg base bytes = (.ok (.ref j), base') ∧
    base'.cells[j]? = some (.global g)

omit [HostObject H] in
/-- Names that the registry binds are read by everyone who shares it. -/
theorem Trip.reads_of_common {x : Trip H} {name : Name} {symbol : Symbol}
    (shared : x.decoder.registry = x.encoder.registry) (coded : x.encoder.registry.Coded)
    (common : x.encoder.registry.Common name)
    (bound : x.encoder.registry.resolve name = .found symbol) : x.Reads name symbol where
  bound := shared ▸ bound
  unregistered := shared ▸ common.unregistered
  onLines := by rw [common.plain.legacy]; exact ⟨common.onLines, common.onLines⟩
  spelled := by rw [common.plain.legacy]; exact ⟨common.plain.current, common.plain.current⟩
  extension := shared ▸ coded name

section
variable {cfg : Encoder.Config H} {s s' s'' : Store H} {id : Nat} {g : Global} {symbol : Symbol}
  {bytes bytes' : Bytes}

omit [HostObject H] in
/-- What the encoder writes under a name goes by it: it has made sure of that, unless a host type goes
    by the name. -/
theorem resolve_of_wireName {name : Name} (untyped : g.type = none) (bound : g.symbol = some symbol)
    (unregistered : cfg.registry.decodeGlobal? ⟨cfg.registry.moduleOf g, g.qualname⟩ = none)
    (wire : wireName cfg g = .ok name) :
    name = ⟨cfg.registry.moduleOf g, g.qualname⟩ ∧
      ∃ found, cfg.registry.resolve name = .found found ∧ found.same symbol = true := by
  simp only [wireName, untyped, bound, unregistered, Option.isSome_none, Bool.or_false] at wire
  split at wire
  · next found resolve =>
    split at wire
    · next same =>
      cases wire
      exact ⟨rfl, found, resolve, same⟩
    · cases wire
  · cases wire

/-- The stream of a global is read to what its symbol stands for. Before protocol 4 the names in front
    of its own have to be bound too. -/
theorem gives_of_dumps (cfg : Encoder.Config H) (plain : cfg.persistentId = none)
    (intact : cfg.registry.Intact) (coded : cfg.registry.Coded)
    (own : cfg.host.namespaceOf cfg.registry.number = some cfg.registry.namespace)
    (found : s.cells[id]? = some (.global g)) (untyped : g.type = none)
    (bound : g.symbol = some symbol)
    (common : cfg.registry.Common ⟨cfg.registry.moduleOf g, g.qualname⟩)
    (opens : cfg.protocol.val < 4 → ∀ front ∈ (dottedSplits g.qualname).map Prod.fst,
      cfg.registry.Opens ⟨cfg.registry.moduleOf g, front⟩)
    (dumped : dumps cfg s (.ref id) = (.ok bytes, s')) (word : bytes.length < 2 ^ 64) :
    ∃ target, cfg.registry.resolve ⟨cfg.registry.moduleOf g, g.qualname⟩ = .found target ∧
      target.same symbol = true ∧
      cfg.decoder.Gives bytes (resolved ⟨cfg.registry.moduleOf g, g.qualname⟩ target) := by
  let x : Trip H :=
    { encoder := cfg, decoder := cfg.decoder, source := s, total := True, classes := fun _ => False }
  have agrees : x.Agrees := Trip.agrees_of_registries plain rfl intact coded (fun _ => False.elim)
    (fun _ _ => False.elim) fun _ => False.elim
  obtain ⟨name, is, wire, -⟩ := dumps_global_ok plain found dumped
  obtain ⟨rfl, target, resolve, same⟩ := resolve_of_wireName untyped bound common.unregistered wire
  have reads : x.Reads ⟨cfg.registry.moduleOf g, g.qualname⟩ target :=
    Trip.reads_of_common rfl coded common resolve
  refine ⟨target, resolve, same, fun base => ?_⟩
  refine x.arrives_global base trivial agrees own found wire reads (fun early front mem => ?_) dumped
    rfl word
  have opens := opens early front mem
  obtain ⟨symbol, bound⟩ := opens.bound
  exact ⟨symbol, Trip.reads_of_common rfl coded opens.toCommon bound⟩

/-- Two streams of one global, the second of protocol 4 or a later one: both are read to one global,
    with the symbol that was written, if what stands in front of the dots of its name is bound as well.
    The second stream does not need that. -/
theorem loads_dumps_nested (cfg : Encoder.Config H) {p q : Protocol} (late : 4 ≤ q.val)
    (plain : cfg.persistentId = none) (intact : cfg.registry.Intact) (coded : cfg.registry.Coded)
    (own : cfg.host.namespaceOf cfg.registry.number = some cfg.registry.namespace)
    (found : s.cells[id]? = some (.global g)) (untyped : g.type = none)
    (bound : g.symbol = some symbol)
    (common : cfg.registry.Common ⟨cfg.registry.moduleOf g, g.qualname⟩)
    (dumped : dumps { cfg with protocol := p } s (.ref id) = (.ok bytes, s'))
    (dumped' : dumps { cfg with protocol := q } s (.ref id) = (.ok bytes', s''))
    (word : bytes.length < 2 ^ 64) (word' : bytes'.length < 2 ^ 64) :
    ∃ target, target.same symbol = true ∧
      cfg.decoder.Gives bytes' (resolved ⟨cfg.registry.moduleOf g, g.qualname⟩ target) ∧
      ((∀ front ∈ (dottedSplits g.qualname).map Prod.fst,
          cfg.registry.Opens ⟨cfg.registry.moduleOf g, front⟩) →
        cfg.decoder.Gives bytes (resolved ⟨cfg.registry.moduleOf g, g.qualname⟩ target)) := by
  let cfg₁ : Encoder.Config H := { cfg with protocol := p }
  let cfg₂ : Encoder.Config H := { cfg with protocol := q }
  obtain ⟨target, resolve, same, gives⟩ := gives_of_dumps cfg₂ plain intact coded own found
    untyped bound common (fun early => absurd late (Nat.not_le.2 early)) dumped' word'
  refine ⟨target, same, gives, fun opens => ?_⟩
  obtain ⟨target', resolve', -, gives'⟩ := gives_of_dumps cfg₁ plain intact coded own found
    untyped bound common (fun _ => opens) dumped word
  obtain rfl := Lookup.found.inj (resolve.symm.trans resolve')
  exact gives'

end

/-! ## A name with nothing in front -/

/-- A class with a dotted name. -/
def innerClass : Class := ⟨.declared 0, "m", "A.b"⟩

def innerStore : Store Empty := ⟨#[.global (.ofClass innerClass)]⟩

/-- The stream of the class in protocol 3. -/
def innerBytes : Bytes :=
  [0x80, 3, 0x63, 0x62, 0x75, 0x69, 0x6c, 0x74, 0x69, 0x6e, 0x73, 0x0a, 0x67, 0x65, 0x74, 0x61,
    0x74, 0x74, 0x72, 0x0a, 0x71, 0, 0x63, 0x6d, 0x0a, 0x41, 0x0a, 0x71, 1, 0x58, 1, 0, 0, 0, 0x62,
    0x86, 0x71, 2, 0x52, 0x71, 3, 0x2e]

/-- The stream of the class in protocol 4. -/
def innerFramed : Bytes :=
  [0x80, 4, 0x95, 11, 0, 0, 0, 0, 0, 0, 0, 0x8c, 1, 0x6d, 0x8c, 3, 0x41, 0x2e, 0x62, 0x93, 0x94, 0x2e]

section
variable {r : Registry Empty} (bound : r.resolve ⟨"m", "A.b"⟩ = .found (.ofClass innerClass))
  (uncoded : r.extensions = [])

include bound in
theorem wireName_inner (p : Protocol) :
    wireName { registry := r, host := r.host, protocol := p } (.ofClass innerClass) =
      .ok ⟨"m", "A.b"⟩ := by
  simp only [wireName, Registry.moduleOf, Global.ofClass, innerClass, bound]
  rfl

include bound uncoded

theorem dumps_inner :
    dumps { registry := r, host := r.host, protocol := 3 } innerStore (.ref 0) =
      (.ok innerBytes, ((innerStore.push (.global (.named "m" "A"))).push
        (.tuple [.ref 1, .str "b"])).push (.global (.named "builtins" "getattr"))) := by
  let cfg : Encoder.Config Empty := { registry := r, host := r.host, protocol := 3 }
  have codes (name : Name) : 2 ≤ cfg.protocol.val → r.extensionCode? name = none := fun _ =>
    Registry.extensionCode?_of_nil uncoded name
  have early : cfg.protocol.val < 4 := show (3 : Protocol).val < 4 by decide
  have whole (save) : saveCell cfg save 0 (.global (.ofClass innerClass)) =
      (writeCall save "m" "A" "b" >>= fun _ => memoizeAs 3 (.object 0)) := by
    have call : writeGlobal cfg save ⟨"m", "A.b"⟩ = (writeCall save "m" "A" "b" >>= fun _ => pure true) :=
      writeGlobal_call (codes _) early rfl
    simp only [cfg, saveCell, saveGlobal, wireName_inner bound, call, bind_assoc, pure_bind, if_true]
    rfl
  refine dumps_of_drafts [(.object 0, 3), (.object 2, 2), (.object 1, 1), (.object 3, 0)]
    [⟨.proto, (3 : UInt8)⟩, ⟨.global, (Bytes.ascii "builtins", Bytes.ascii "getattr")⟩,
      ⟨.binPut, (0 : UInt8)⟩, ⟨.global, (Bytes.ascii "m", Bytes.ascii "A")⟩, ⟨.binPut, (1 : UInt8)⟩,
      ⟨.binUnicode, ([0x62] : Bytes)⟩, ⟨.tuple2, ()⟩, ⟨.binPut, (2 : UInt8)⟩, ⟨.reduce, ()⟩,
      ⟨.binPut, (3 : UInt8)⟩]
    (show 3 < 4 by decide) ?_
  have found : innerStore.cells[0]? = some (.global (.ofClass innerClass)) := rfl
  refine drafts_new rfl rfl found ?_
  rw [whole]
  refine Drafts.bind (Drafts.bind (drafts_alloc (Drafts.bind (drafts_alloc (Drafts.bind (drafts_alloc ?_))))))
  -- the function
  refine Drafts.bind (drafts_new rfl rfl rfl ?_)
  refine drafts_global ⟨"builtins", "getattr"⟩ _ rfl (writeGlobal_lines (codes _) early rfl)
    (show 0 < 2 ^ 32 by decide) rfl (drafts_emit ?_)
  -- the arguments
  refine Drafts.bind (drafts_new rfl rfl rfl ?_)
  refine Drafts.bind (Drafts.bind (drafts_new rfl rfl rfl ?_))
  refine drafts_global ⟨"m", "A"⟩ _ rfl (writeGlobal_lines (codes _) early rfl)
    (show 1 < 2 ^ 32 by decide) rfl (drafts_emit ?_)
  refine Drafts.bind (drafts_save rfl
    (drafts_text rfl (show 3 < 4 by decide) (by decide) (by decide) ?_))
  refine Drafts.pure (Drafts.bind (drafts_memoized ?_))
  refine Drafts.bind (drafts_emit ?_)
  refine drafts_memoizeAs (show 2 < 2 ^ 32 by decide) rfl (drafts_emit (drafts_emit ?_))
  refine drafts_memoizeAs (show 3 < 2 ^ 32 by decide) rfl (drafts_emit ?_)
  rfl

theorem dumps_inner_framed :
    dumps { registry := r, host := r.host, protocol := 4 } innerStore (.ref 0) =
      (.ok innerFramed, innerStore) :=
  dumps_global_texts (show 4 ≤ (4 : Protocol).val by decide) rfl (show 256 ≠ 0 by decide) rfl
    (wireName_inner bound 4) (Registry.extensionCode?_of_nil uncoded _) (by decide)

end

/-- A registry that binds the class, and what stands in front of the dot of its name. -/
def nestedRegistry : Registry Empty :=
  ((Registry.seeded 0).define ⟨"m", "A"⟩ (.ofClass ⟨.declared 1, "m", "A"⟩)).define ⟨"m", "A.b"⟩
    (.ofClass innerClass)

theorem loads_dumps_nested_inner :
    ∃ target, target.same (.ofClass innerClass) = true ∧
      (Decoder.Config.Gives { registry := nestedRegistry, host := nestedRegistry.host } innerFramed
        (resolved ⟨"m", "A.b"⟩ target)) ∧
      Decoder.Config.Gives { registry := nestedRegistry, host := nestedRegistry.host } innerBytes
        (resolved ⟨"m", "A.b"⟩ target) := by
  have intact : nestedRegistry.Intact :=
    ((Registry.intact_seeded 0).define (by decide) _).define (by decide) _
  have coded : nestedRegistry.Coded := nofun
  have bound : nestedRegistry.resolve ⟨"m", "A.b"⟩ = .found (.ofClass innerClass) :=
    Registry.resolve_define ..
  have front : nestedRegistry.resolve ⟨"m", "A"⟩ = .found (.ofClass ⟨.declared 1, "m", "A"⟩) :=
    Registry.resolve_define_of_ne (by decide) rfl (Registry.resolve_define ..) _
  have fronts : (dottedSplits (Global.ofClass innerClass).qualname).map Prod.fst = ["A"] := rfl
  have common : nestedRegistry.Common ⟨"m", "A.b"⟩ :=
    ⟨by decide, ⟨by decide +kernel, by decide +kernel⟩, rfl⟩
  have opens : nestedRegistry.Opens ⟨"m", "A"⟩ :=
    ⟨⟨by decide, ⟨by decide +kernel, by decide +kernel⟩, rfl⟩, _, front⟩
  have found : innerStore.cells[0]? = some (.global (.ofClass innerClass)) := rfl
  obtain ⟨target, same, late, early⟩ :=
    loads_dumps_nested { registry := nestedRegistry, host := nestedRegistry.host }
      (show 4 ≤ (4 : Protocol).val by decide) rfl intact coded (Registry.namespaceOf_host _) found rfl
      rfl common (dumps_inner bound rfl) (dumps_inner_framed bound rfl) (by decide) (by decide)
  refine ⟨target, same, late, early fun name mem => ?_⟩
  rw [fronts] at mem
  rw [List.mem_singleton.1 mem]
  exact opens

/-- A registry that binds the class only. -/
def loneRegistry : Registry Empty := (Registry.seeded 0).define ⟨"m", "A.b"⟩ (.ofClass innerClass)

/-- Nothing goes by what stands in front of the dot. The class is written in both protocols all the
    same, but in protocol 3 a decoder looks for it. -/
theorem loads_dumps_lone :
    loneRegistry.Intact ∧ loneRegistry.Common ⟨"m", "A.b"⟩ ∧
      loneRegistry.resolve ⟨"m", "A.b"⟩ = .found (.ofClass innerClass) ∧
      (dumps { registry := loneRegistry, host := loneRegistry.host, protocol := 3 } innerStore
        (.ref 0)).1 = .ok innerBytes ∧
      (dumps { registry := loneRegistry, host := loneRegistry.host, protocol := 4 } innerStore
        (.ref 0)).1 = .ok innerFramed ∧
      (Decoder.loads { registry := loneRegistry, host := loneRegistry.host } Store.empty
        innerBytes).1 = .error (.decode (.unresolvedGlobal "m" "A" .attribute)) := by
  have bound : loneRegistry.resolve ⟨"m", "A.b"⟩ = .found (.ofClass innerClass) :=
    Registry.resolve_define ..
  refine ⟨(Registry.intact_seeded 0).define (by decide) _,
    ⟨by decide, ⟨by decide +kernel, by decide +kernel⟩, rfl⟩, bound, ?_, ?_, by decide +kernel⟩
  · rw [dumps_inner bound rfl]
  · rw [dumps_inner_framed bound rfl]

end ObjectStream
