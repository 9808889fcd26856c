import ObjectStream.Proofs.Completion
import ObjectStream.Proofs.Delivery
import ObjectStream.Proofs.NestedNames

/-!
Host objects that are created anew.

A host may describe an object by the call of `copyreg.__newobj__` or `copyreg.__newobj_ex__`, which
creates by a class or a callable. The stream is read to what the creation makes of a copy of the
arguments (`Trip.created_outcome`). If a class makes an instance of it, items, entries and a state may
follow, and the instance takes them, or the load fails (`Trip.completed_outcome`). Two copies make alike
objects, so it does not matter which protocol the object was written with (`loads_dumps_created`).
-/

namespace ObjectStream

open Decoder (Machine Leads)
open Encoder

variable {H : Type} [HostObject H]

/-! ## Host objects -/

/-- Nothing is done with the value of the call. -/
structure Reduction.Bare (r : Reduction) : Prop where
  listItems : r.listItems = none
  dictItems : r.dictItems = none
  state : r.state = none

namespace Encoder

variable {cfg : Config H} {save : Value → Encode H Unit} {st st' : State H} {id : Nat} {content : H}
  {r : Reduction} {s : Store H} {action : Action H Reduction} {v : Value}

omit [HostObject H] in
theorem complete_bare (bare : r.Bare) : complete cfg save r v = pure () := by
  simp only [complete, bare.listItems, bare.dictItems, bare.state, Option.getD_none, appendItems_nil,
    storeEntries_nil, pure_bind]

theorem describe_runs (hook : reduceHook cfg id content = some action)
    (run : action st.store = .ok r s) {r' : Reduction}
    (h : describe cfg id content st = .ok r' st') :
    r' = r ∧ st'.store = s ∧ st'.memo = st.memo ∧ Wrote st st' [] := by
  simp only [describe, hook, bind_apply, modify_apply, hosted, run] at h
  cases h
  refine ⟨rfl, rfl, rfl, fun log held => ?_, rfl, ?_⟩
  · rw [List.append_nil]
    exact held
  · exact (Trace.Reported.enter ..).trans (.exit ..)

/-- A host object is written as the host describes it. -/
theorem saveObject_described (found : st.store.cells[id]? = some (.object content))
    (new : st.memo[Identity.object id]? = none) (hook : reduceHook cfg id content = some action)
    (run : action st.store = .ok r s) (h : saveObject cfg save id st = .ok () st') :
    ∃ st₁, st₁.store = s ∧ st₁.memo = st.memo ∧ Wrote st st₁ [] ∧
      saveReduction cfg save r (some (.ref id)) st₁ = .ok () st' := by
  rw [saveObject, bind_ok (memoized_ok ..)] at h
  simp only [new] at h
  obtain ⟨_, st₀, get, h⟩ := bind_eq_ok h
  cases get
  simp only [found, saveCell, saveHostObject] at h
  obtain ⟨r', st₁, described, h⟩ := bind_eq_ok h
  obtain ⟨rfl, store, memo, wrote⟩ := describe_runs hook run described
  exact ⟨st₁, store, memo, wrote, h⟩

/-- Asked how the object is built again, the host describes a call and what is done with its value.
    What the host makes for the purpose is in the later store. -/
structure Describes (cfg : Config H) (s : Store H) (id : Nat) (r : Reduction) (s' : Store H) :
    Prop where
  content : ∃ content action, s.cells[id]? = some (.object content) ∧
    reduceHook cfg id content = some action ∧ action s = .ok r s'
  kept : ∃ content, s'.cells[id]? = some (.object content)

/-- A dump of such an object writes the call behind the announcement, and then what is done with its
    value. -/
theorem dump_described (plain : cfg.persistentId = none) (bare : st.frames.pending = none)
    (fresh : st.memo = ∅) (described : Describes cfg st.store id r s)
    (h : dump cfg (.ref id) st = .ok () st') :
    ∃ room g items st₁ st₂ st₃ st₄, Wrote st st₁ cfg.announcement ∧ st₁.store = s ∧ st₁.memo = ∅ ∧
      s.global? r.callable = some g ∧ s.tuple? r.args = some items ∧
      saveCall cfg (Encoder.save cfg room true) r.callable g r.args items st₁ = .ok () st₂ ∧
      memoizeBuilt cfg (.ref id) st₂ = .ok () st₃ ∧
      complete cfg (Encoder.save cfg room true) r (.ref id) st₃ = .ok () st₄ ∧
      Wrote st₄ st' [⟨.stop, ()⟩] ∧ st'.frames.pending = none := by
  obtain ⟨s₁, s₂, begun, saved, ended, bare'⟩ := dump_ok bare h
  obtain ⟨room, depth⟩ : ∃ room, cfg.limits.maxDepth = room + 1 := by
    cases depth : cfg.limits.maxDepth with
    | zero => rw [depth] at saved; cases saved
    | succ room => exact ⟨room, rfl⟩
  rw [depth] at saved
  obtain ⟨s₃, s₄, before, content, after⟩ := save_ok plain saved
  obtain ⟨⟨c, action, found, hook, run⟩, -⟩ := described
  have store : s₃.store = st.store := before.store.trans begun.store
  have memo : s₃.memo = ∅ := before.memo.trans (begun.memo.trans fresh)
  rw [← store] at found run
  obtain ⟨s₅, store', memo', wrote, call⟩ :=
    saveObject_described found (by rw [memo]; simp) hook run content
  obtain ⟨g, items, s₆, s₇, global, tuple, call, built, completed⟩ := saveReduction_ok call
  rw [store'] at global tuple
  refine ⟨room, g, items, s₅, s₆, s₇, s₄, ?_, store', memo'.trans memo, global, tuple, call, built,
    completed, after.wrote.trans ended.wrote, bare'⟩
  have announced := begun.wrote.trans (before.wrote.trans wrote)
  simpa only [List.append_nil] using announced

end Encoder

/-! ## What is read -/

namespace Decoder

/-- What the decoder makes of the stream is what the creation makes of copies of the items. -/
def Makes (cfg : Config H) (source base : Store H) (symbol : Symbol) (count : Nat)
    (items : List Value) (bytes : Bytes) : Prop :=
  ∃ R s cls ws, Mirror source s R ∧ List.Forall₂ (Match R) items ws ∧ s.creator cls = .ok symbol ∧
    (∀ v t, cfg.host.createPlain count cls ws s = .ok v t → loads cfg base bytes = (.ok v, t)) ∧
    ∀ e t, cfg.host.createPlain count cls ws s = .error e t →
      ∃ e' t', loads cfg base bytes = (.error e', t')

/-- What the decoder makes of the stream is an instance with copies of the attributes, or nothing if
    there are none. -/
def Embodies (cfg : Config H) (source base : Store H) (c : Class) (attributes : Option Dict)
    (bytes : Bytes) : Prop :=
  match attributes with
  | some attributes =>
    ∃ j t, loads cfg base bytes = (.ok (.ref j), t) ∧ source.Embodies t c attributes j
  | none => ∃ e t, loads cfg base bytes = (.error e, t)

end Decoder

namespace Trip

variable {x : Trip H} {st st₁ st₂ st' : Encoder.State H} {m m' : Machine H} {f c k id : Nat} {v w : Value}
  {g gc : Global} {name fname : Name} {symbol fsymbol : Symbol} {items ws : List Value} {count : Nat}
  {save : Value → Encode H Unit}

/-- The items can be carried if the arguments can. -/
theorem Creating.sound {cls : Value} {qualname : String} {builtin : Builtin} {argItems : List Value}
    (h : Creating x.source cls items qualname builtin argItems count)
    (sound : ∀ v ∈ argItems.tail, x.Sound x.source v) : ∀ v ∈ items, x.Sound x.source v := by
  cases h with
  | newobj => exact sound
  | @newobjEx positional _ _ tuple dict =>
    have whole : x.Sound x.source positional := sound _ (List.mem_cons_self ..)
    intro v mem
    cases positional with
    | ref k =>
      have found := (Store.cell_of_tuple? tuple).resolve_left (List.ne_nil_of_mem mem)
      exact whole.child found (Cell.mem_children.2 (.inr mem))
    | emptyTuple => cases tuple; cases mem
    | _ => cases tuple

section
variable {s₀ s' : Store H} {r : Reduction} {bytes : Bytes} {qualname : String} {number : Nat}
  {builtin : Builtin} {argItems : List Value}
  (agrees : x.Agrees) (described : Describes x.encoder s₀ id r x.source)
  (function : r.callable = .ref f)
  (callee : x.NamesAt x.source f g ⟨"copyreg", qualname⟩ (.function (.builtin number builtin)))
  (untyped : g.type = none) (cls : x.NamesAt x.source c gc name symbol)
  (creating : Creating x.source (.ref c) items qualname builtin argItems count)
  (tuple : x.source.tuple? r.args = some argItems)
  (minded : count = 0 ∨ ∃ callable, symbol = .function callable)
  (sound : ∀ v ∈ argItems.tail, x.Sound x.source v)
  (dumped : dumps x.encoder s₀ (.ref id) = (.ok bytes, s'))
include agrees described function callee untyped cls creating tuple minded sound dumped

/-- The stages of such a dump: the creation, the memo id, and what is done with the object then. -/
theorem created_stages : ∃ room s₁ s₂ s₃ s₄, s₁.store = x.source ∧ s₁.memo = ∅ ∧
    x.Prepares symbol items count s₁ s₂ ∧ memoizeBuilt x.encoder (.ref id) s₂ = .ok () s₃ ∧
    complete x.encoder (Encoder.save x.encoder room true) r (.ref id) s₃ = .ok () s₄ ∧
    ∀ is, Wrote s₁ s₄ is → Spells (x.encoder.announcement ++ is ++ [⟨.stop, ()⟩]) bytes := by
  obtain ⟨st', run, -, written⟩ := dumps_ok dumped
  obtain ⟨room, g', items', s₁, s₂, s₃, s₄, begun, store, memo, global, tuple', call, built,
    completed, ended, bare⟩ := dump_described agrees.plain rfl rfl described run
  rw [function] at global call
  obtain rfl := Option.some.inj ((Store.global?_of_cell callee.found).symm.trans global)
  obtain rfl := Option.some.inj (tuple.symm.trans tuple')
  rw [← store] at callee cls creating tuple sound
  refine ⟨room, s₁, s₂, s₃, s₄, store, memo, ?_, built, completed, fun is wrote => ?_⟩
  · exact saveCall_prepares (save_saver agrees room) memo callee untyped cls creating tuple minded
      sound call
  · rw [← written, List.append_assoc]
    exact (begun.trans (wrote.trans ended)).spells .nothing bare

/-- Whatever the protocol, what a decoder makes of the stream is what the creation makes of a copy of the
    arguments, if nothing is done with its value. -/
theorem created_outcome (base : Store H) (known : x.total) (bare : r.Bare)
    (usual : x.decoder.limits = {}) (word : bytes.length < 2 ^ 64) :
    Decoder.Makes x.decoder x.source base symbol count items bytes := by
  obtain ⟨room, s₁, s₂, s₃, s₄, store, memo, ⟨s₅, i, sent, emitted, is, wrote, leads⟩, built,
    completed, spells⟩ := created_stages agrees described function callee untyped cls creating tuple
      minded sound dumped
  rw [complete_bare bare] at completed
  cases completed
  obtain ⟨-, js, wrote', remembers⟩ := memoizeBuilt_wrote built
  have spelled := spells _ (wrote.trans (emitted.wrote.trans wrote'))
  have total : x.total = True := eq_true known
  have arrives : Leads x.decoder x.total (x.encoder.announcement ++ is) ⟨base, ∅, [], [], 0⟩
      (x.Poised symbol items count s₅ i) := by
    refine Leads.append (leads_announcement rfl (leads _ _ ?_))
    exact ⟨linked_start store memo base, rfl, fun m poised => poised⟩
  have short : bytes.length ≤ 2 ^ 64 - 1 := by omega
  rw [total] at arrives
  have spelled : Spells (x.encoder.announcement ++ is ++ i :: (js ++ [⟨.stop, ()⟩])) bytes := by
    simpa only [List.append_assoc, List.cons_append, List.nil_append] using spelled
  obtain ⟨m, ⟨linked, cls', ws, creator, same, enacts⟩, succeeds, fails⟩ :=
    Decoder.loads_behind spelled (usual ▸ short) word (usual ▸ short) (usual ▸ short) arrives
  have mirror := linked.mirror_of_sound (Creating.sound creating sound)
    fun _ _ => List.forall_mem_nil _
  refine ⟨_, m.store, cls', ws, mirror, match_keyLink same fun _ mem => mem, creator,
    fun v t made => ?_, fun e t refused => ?_⟩
  · obtain ⟨content, found⟩ := described.kept
    have unmet : s₂.memo[Identity.object id]? = none := by
      rw [emitted.memo]
      exact linked.unmet_object (linked.source _ _ found)
    have behind : Leads x.decoder x.total js ((m.withStack []).withStore t |>.push v) fun m' =>
        ∃ below v', m'.stack = below ++ [v'] ∧ v' = v ∧ (m'.withStack below).store = t := by
      refine (remembers unmet).2 _ _ ?_ ⟨[], v, rfl, [], v, rfl, rfl, rfl⟩
      rw [emitted.memo]
      exact linked.numbers.size
    rw [total] at behind
    obtain ⟨_, m', run, rfl, rfl⟩ := succeeds (fun v' m' => v' = v ∧ m'.store = t)
      (Leads.cons (enacts.succeeds made behind))
    exact run
  · obtain ⟨e', t', run, -⟩ := fails (fun _ => True) enacts.ordinary fun st here counted => by
      obtain ⟨e', st', run⟩ := enacts.fails refused st here counted
      exact ⟨e', st', run, trivial⟩
    exact ⟨e', t', run⟩

/-- Whatever the protocol, a decoder makes an instance with the attributes that are made of what it is
    given, or it refuses what it is given. -/
theorem completed_outcome {cl : Class} (base : Store H) (known : x.total)
    (made : symbol = .ofClass cl) (hooks : (x.decoder.host.hooks cl.key).setState = none)
    (setter : r.stateSetter = none) (given : ∀ v ∈ r.given, x.Sound x.source v)
    (usual : x.decoder.limits = {}) (word : bytes.length < 2 ^ 64) :
    Decoder.Embodies x.decoder x.source base cl (r.attributes? x.source) bytes := by
  subst made
  obtain rfl : count = 0 := minded.resolve_right nofun
  obtain ⟨room, s₁, s₂, s₃, s₄, store, memo, prepared, built, completed, spells⟩ :=
    created_stages agrees described function callee untyped cls creating tuple minded sound dumped
  obtain ⟨content, object⟩ := described.kept
  have creates := creation_performs known prepared built object
  have source : x.source.Grown s₃.store := by
    obtain ⟨s₅, i, sent, emitted, -⟩ := prepared
    rw [(memoizeBuilt_wrote built).1, emitted.store, ← store]
    exact sent.store
  have saver := save_saver agrees room
  have total : x.total = True := eq_true known
  have short : bytes.length ≤ 2 ^ 64 - 1 := by omega
  have frame : bytes.length ≤ x.decoder.limits.maxFrameLength := usual ▸ short
  have stack : bytes.length ≤ x.decoder.limits.maxStack := usual ▸ short
  have numbers : bytes.length ≤ x.decoder.limits.maxMemo := usual ▸ short
  have linked := linked_start store memo base
  cases attributes : r.attributes? x.source with
  | some a =>
    obtain ⟨is, wrote, leads⟩ :=
      creates.trans (complete_performs saver hooks setter source given completed attributes)
    let Q (v : Value) (m : Machine H) : Prop := ∃ j, v = .ref j ∧ x.source.Embodies m.store cl a j
    have whole : Leads x.decoder x.total (x.encoder.announcement ++ is) ⟨base, ∅, [], [], 0⟩
        fun m => ∃ below v, m.stack = below ++ [v] ∧ Q v (m.withStack below) := by
      refine Leads.append (leads_announcement rfl (leads _ _ ⟨linked, rfl, fun m awaits => ⟨awaits, ?_⟩⟩))
      rintro m' ⟨below, j, stack, embodies⟩
      exact ⟨below, .ref j, stack, j, rfl, embodies⟩
    obtain ⟨_, m, run, j, rfl, embodies⟩ | ⟨partly, -⟩ :=
      Decoder.loads_of_leads (spells _ wrote) frame word stack numbers whole
    · exact ⟨j, m.store, run, embodies⟩
    · exact absurd known partly
  | none =>
    obtain ⟨is, i, js, wrote, ordinary, leads⟩ :=
      creates.dooms (complete_dooms saver hooks setter source given completed attributes)
    have spelled : Spells (x.encoder.announcement ++ is ++ i :: (js ++ [⟨.stop, ()⟩])) bytes := by
      simpa only [List.append_assoc, List.cons_append] using spells _ wrote
    have arrives : Leads x.decoder x.total (x.encoder.announcement ++ is) ⟨base, ∅, [], [], 0⟩
        (Decoder.Refuses (Decoder.execute x.decoder i.op i.operand)) :=
      Leads.append (leads_announcement rfl (leads _ ⟨linked, rfl, fun m awaits => awaits⟩))
    rw [total] at arrives
    obtain ⟨m, refuses, -, fails⟩ := Decoder.loads_behind spelled frame word stack numbers arrives
    obtain ⟨e, t, run, -⟩ := fails (fun _ => True) ordinary fun st here counted => by
      obtain ⟨e, st', run⟩ := refuses st here counted
      exact ⟨e, st', run, trivial⟩
    exact ⟨e, t, run⟩

end

end Trip

/-! ## Two protocols -/

/-- With copies of the arguments the creation has the same outcome. -/
theorem Host.createPlain_copy {host : Host H} {symbol : Symbol}
    (respects : ∀ number, symbol = .function (.host number) → host.Respects number) (count : Nat)
    {s s' : Store H} {R : Nat → Nat → Prop} {args args' : List Value} (mirror : Mirror s s' R)
    (same : List.Forall₂ (Match R) args args') {cls cls' : Value} (creates : s.creator cls = .ok symbol)
    (creates' : s'.creator cls' = .ok symbol) :
    s.Repeats s' (host.createPlain count cls args) (host.createPlain count cls' args') := by
  rw [createPlain, createPlain]
  split
  · exact create_copy respects mirror same creates creates'
  · intro v u refused
    cases refused

/-- Both streams are read to alike values, whatever objects there were before, or neither is read. -/
def Decoder.Config.Agree (cfg : Decoder.Config H) (bytes bytes' : Bytes) : Prop :=
  ∀ base base' : Store H,
    (∃ v s w t, Decoder.loads cfg base bytes = (.ok v, s) ∧
      Decoder.loads cfg base' bytes' = (.ok w, t) ∧ Isomorphic s t v w) ∨
    ∃ e s e' t, Decoder.loads cfg base bytes = (.error e, s) ∧
      Decoder.loads cfg base' bytes' = (.error e', t)

namespace Decoder

variable {cfg : Config H} {source : Store H} {symbol : Symbol} {count : Nat} {items : List Value}
  {c : Class} {attributes : Option Dict} {bytes bytes' : Bytes}

/-- Streams of which the same is made by a creation are read alike. -/
theorem agree_of_makes
    (respects : ∀ number, symbol = .function (.host number) → cfg.host.Respects number)
    (h : ∀ base, Makes cfg source base symbol count items bytes)
    (h' : ∀ base, Makes cfg source base symbol count items bytes') : cfg.Agree bytes bytes' := by
  intro base base'
  obtain ⟨R, t, k, ws, mirror, same, creates, made, failed⟩ := h base
  obtain ⟨R', t', k', ws', mirror', same', creates', made', failed'⟩ := h' base'
  have forth := Host.createPlain_copy respects count (mirror.join mirror') (matchAll_join same same')
    creates creates'
  have back := Host.createPlain_copy respects count (mirror'.join mirror) (matchAll_join same' same)
    creates' creates
  cases run : cfg.host.createPlain count k ws t with
  | ok v u =>
    obtain ⟨w, u', run', alike⟩ := forth v u run
    exact .inl ⟨v, u, w, u', made v u run, made' w u' run', alike⟩
  | error e u =>
    obtain ⟨e₁, u₁, refused⟩ := failed e u run
    cases run' : cfg.host.createPlain count k' ws' t' with
    | ok w u' =>
      obtain ⟨_, _, impossible, -⟩ := back w u' run'
      rw [run] at impossible
      cases impossible
    | error e' u' =>
      obtain ⟨e₂, u₂, refused'⟩ := failed' e' u' run'
      exact .inr ⟨e₁, u₁, e₂, u₂, refused, refused'⟩

/-- Streams of which the same instance is made are read alike. -/
theorem agree_of_embodies (h : ∀ base, Embodies cfg source base c attributes bytes)
    (h' : ∀ base, Embodies cfg source base c attributes bytes') : cfg.Agree bytes bytes' := by
  intro base base'
  cases attributes with
  | some attributes =>
    obtain ⟨j, t, run, embodies⟩ := h base
    obtain ⟨j', t', run', embodies'⟩ := h' base'
    exact .inl ⟨_, t, _, t', run, run', embodies.isomorphic embodies'⟩
  | none =>
    obtain ⟨e, t, run⟩ := h base
    obtain ⟨e', t', run'⟩ := h' base'
    exact .inr ⟨e, t, e', t', run, run'⟩

end Decoder

/-- The registry binds the name to the symbol, no registered host type takes the name, and every protocol
    can spell it. -/
structure Registry.Offers (r : Registry H) (name : Name) (symbol : Symbol) : Prop where
  bound : r.resolve name = .found symbol
  unregistered : r.decodeGlobal? name = none
  portable : name.Portable

/-- The object is a global of no host type that is written under the name. -/
def Encoder.Config.Writes (cfg : Encoder.Config H) (s : Store H) (i : Nat) (name : Name) : Prop :=
  ∃ g, s.cells[i]? = some (.global g) ∧ g.type = none ∧ wireName cfg g = .ok name

omit [HostObject H] in
theorem Creating.seed {s : Store H} {cls : Value} {items args : List Value} {qualname : String}
    {builtin : Builtin} {count : Nat} (h : Creating s cls items qualname builtin args count)
    (number : Nat) :
    (⟨"copyreg", qualname⟩, .function (.builtin number builtin)) ∈ Registry.seeds number := by
  cases h <;> simp [Registry.seeds]

/-- What is done with the object behind its creation by the symbol: nothing, or a class makes an instance
    without hooks of its own, and what it is given can be carried. -/
def Reduction.Completes (r : Reduction) (s : Store H) (classes : Class → Prop) (host : Host H)
    (symbol : Symbol) : Prop :=
  r.Bare ∨ r.stateSetter = none ∧ (∃ c, symbol = .ofClass c ∧ (host.hooks c.key).setState = none) ∧
    ∀ v ∈ r.given, s.Tidy True classes v ∧ s.KeysBare v

/-- A host object that is created by a class or a callable is read alike whatever the protocol was:
    by the call of `__newobj__` or `__newobj_ex__`, by `NEWOBJ`, or by `NEWOBJ_EX`. The keyword arguments
    are a dictionary, and an empty one if a class creates. An instance that a class creates may be given
    items, entries and a state. -/
theorem loads_dumps_created (cfg : Encoder.Config H) {p q : Protocol} {classes : Class → Prop}
    {s s₁ s' s'' : Store H} {id f c count : Nat} {r : Reduction} {name : Name} {symbol : Symbol}
    {qualname : String} {builtin : Builtin} {items argItems : List Value} {bytes bytes' : Bytes}
    (plain : cfg.persistentId = none) (intact : cfg.registry.Intact) (coded : cfg.registry.Coded)
    (binds : ∀ c, classes c → cfg.registry.Binds c) (leaves : ∀ c, classes c → cfg.host.Leaves c)
    (identity : ∀ c d, classes c → classes d → d.key = c.key → d = c)
    (described : ∀ o : Protocol, o = p ∨ o = q → Describes { cfg with protocol := o } s id r s₁)
    (function : r.callable = .ref f) (callee : cfg.Writes s₁ f ⟨"copyreg", qualname⟩)
    (cls : cfg.Writes s₁ c name) (offers : cfg.registry.Offers name symbol)
    (tuple : s₁.tuple? r.args = some argItems)
    (creating : Creating s₁ (.ref c) items qualname builtin argItems count)
    (minded : count = 0 ∨ ∃ callable, symbol = .function callable)
    (tidy : ∀ v ∈ argItems.tail, s₁.Tidy True classes v ∧ s₁.KeysBare v)
    (completes : r.Completes s₁ classes cfg.host symbol)
    (respects : ∀ number, symbol = .function (.host number) → cfg.host.Respects number)
    (dumped : dumps { cfg with protocol := p } s (.ref id) = (.ok bytes, s'))
    (dumped' : dumps { cfg with protocol := q } s (.ref id) = (.ok bytes', s''))
    (word : bytes.length < 2 ^ 64) (word' : bytes'.length < 2 ^ 64) :
    cfg.decoder.Agree bytes bytes' := by
  obtain ⟨g, foundF, untyped, wireF⟩ := callee
  obtain ⟨gc, foundC, -, wireC⟩ := cls
  let trip (o : Protocol) : Trip H :=
    { encoder := { cfg with protocol := o }, decoder := cfg.decoder, source := s₁, total := True,
      classes, globals := fun _ => True }
  have agrees (o : Protocol) : (trip o).Agrees :=
    Trip.agrees_of_registries plain rfl intact coded binds identity leaves
  have callee (o : Protocol) : (trip o).NamesAt s₁ f g ⟨"copyreg", qualname⟩
      (.function (.builtin cfg.registry.number builtin)) :=
    ⟨foundF, .inr trivial, wireF, (agrees o).seeds _ _ (creating.seed _)⟩
  have cls (o : Protocol) : (trip o).NamesAt s₁ c gc name symbol :=
    ⟨foundC, .inr trivial, wireC, offers.bound, offers.unregistered, offers.portable, coded name⟩
  have sound (o : Protocol) {v : Value} (tidy : s₁.Tidy True classes v ∧ s₁.KeysBare v) :
      (trip o).Sound s₁ v := Trip.sound_of_tidy tidy.1 (tidy.1.apart tidy.2)
  rcases completes with bare | ⟨setter, ⟨cl, made, hooks⟩, given⟩
  · have makes {o : Protocol} {bytes : Bytes} {t : Store H} (either : o = p ∨ o = q)
        (dumped : dumps { cfg with protocol := o } s (.ref id) = (.ok bytes, t))
        (word : bytes.length < 2 ^ 64) (base : Store H) :
        Decoder.Makes cfg.decoder s₁ base symbol count items bytes :=
      Trip.created_outcome (agrees o) (described o either) function (callee o) untyped (cls o) creating
        tuple minded (fun v mem => sound o (tidy v mem)) dumped base trivial bare rfl word
    exact Decoder.agree_of_makes respects (makes (.inl rfl) dumped word) (makes (.inr rfl) dumped' word')
  · have embodies {o : Protocol} {bytes : Bytes} {t : Store H} (either : o = p ∨ o = q)
        (dumped : dumps { cfg with protocol := o } s (.ref id) = (.ok bytes, t))
        (word : bytes.length < 2 ^ 64) (base : Store H) :
        Decoder.Embodies cfg.decoder s₁ base cl (r.attributes? s₁) bytes :=
      Trip.completed_outcome (agrees o) (described o either) function (callee o) untyped (cls o) creating
        tuple minded (fun v mem => sound o (tidy v mem)) dumped base trivial made hooks setter
        (fun v mem => sound o (given v mem)) rfl word
    exact Decoder.agree_of_embodies (embodies (.inl rfl) dumped word) (embodies (.inr rfl) dumped' word')

/-! ## A record with a state -/

open Instruction

def stateAttributes : Dict :=
  Keyed.empty.put none ((Store.empty : Store Record).imageOf (.str "x")) (.str "x") .none

/-- A record that is created by a class, with an empty dictionary for the keyword arguments, and is given
    an attribute then. -/
def statefulStore : Store Record :=
  let record : Record :=
    { kind := { type := ⟨"Beta"⟩, conduct := .able }
      recipe := some (.reduction { callable := .ref 0, args := .ref 3, state := some (.ref 5) }) }
  ⟨#[.global (.named "copyreg" "__newobj_ex__"), .global (.named "builtins" "object"), .dict .empty,
    .tuple [.ref 1, .emptyTuple, .ref 2], .object record, .dict stateAttributes]⟩

/-- What is written of the state, if the dictionary gets this number. -/
def stateStream (slot : Nat) : List Instruction :=
  [⟨.emptyDict, ()⟩, ⟨.binPut, UInt8.ofNat slot⟩, ⟨.binUnicode, Bytes.ascii "x"⟩, ⟨.none, ()⟩,
    ⟨.setItem, ()⟩, ⟨.build, ()⟩]

/-- What protocol 1 writes for the record: a call, and the state. -/
def statefulCall : List Instruction :=
  [globalLines newobjExName, ⟨.binPut, (0 : UInt8)⟩, ⟨.mark, ()⟩, globalLines baseName,
    ⟨.binPut, (1 : UInt8)⟩, ⟨.emptyTuple, ()⟩, ⟨.emptyDict, ()⟩, ⟨.binPut, (2 : UInt8)⟩, ⟨.tuple, ()⟩,
    ⟨.binPut, (3 : UInt8)⟩, ⟨.reduce, ()⟩, ⟨.binPut, (4 : UInt8)⟩] ++ stateStream 5

/-- What protocol 2 writes for the record: a creation, and the state. -/
def statefulCreation : List Instruction := creationStream ++ stateStream 2

/-- The state behind a record that is remembered. -/
theorem drafts_state {p : Protocol} {d : Draft Record} {P : Unit → Draft Record → Prop} {room : Nat}
    (binary : p.isBinary = true) (early : p.val < 4) (few : d.memo.length < 2 ^ 8)
    (new : d.memo.lookup (.object 5) = none) (found : d.store.cells[5]? = some (.dict stateAttributes))
    (h : P () { d with
      memo := (.object 5, d.memo.length) :: d.memo, log := d.log ++ stateStream d.memo.length }) :
    Drafts (do save (recorder p) (room + 2) true (.ref 5); emit .build ()) d P := by
  have put {d' : Draft Record} {Q : Unit → Draft Record → Prop}
      (h : Q () (d'.add .binPut (UInt8.ofNat d.memo.length))) : Drafts (emitPut p d.memo.length) d' Q := by
    simp only [emitPut, binary, if_neg (Nat.not_le.2 early), if_pos few]
    exact drafts_emit h
  refine Drafts.bind (drafts_new rfl new found ?_)
  simp only [saveCell, saveDict, recorder, binary, if_true]
  refine Drafts.bind (drafts_emit ?_)
  refine Drafts.bind (drafts_memoizeAs (Nat.lt_trans few (by decide)) new (put ?_))
  refine drafts_storeEntries binary (by decide) ?_
  refine Drafts.bind (drafts_save rfl (drafts_text binary early (by decide) (by decide) ?_))
  refine Drafts.bind (drafts_save rfl (drafts_emit (drafts_emit (drafts_emit ?_))))
  simpa [Draft.add, stateStream] using h

theorem dumps_statefulCall : dumps (recorder 1) statefulStore (.ref 4) =
    (.ok (allBytes (statefulCall ++ [⟨.stop, ()⟩])), statefulStore) := by
  refine dumps_of_drafts [(.object 5, 5), (.object 4, 4), (.object 3, 3), (.object 2, 2), (.object 1, 1),
    (.object 0, 0)] statefulCall (by decide) ?_
  refine drafts_new rfl rfl rfl ?_
  refine Drafts.bind (drafts_describe rfl ?_)
  refine drafts_get fun st here => ?_
  simp only [here.store]
  refine Drafts.bind ?_
  -- the function
  refine Drafts.bind (drafts_new rfl rfl rfl ?_)
  refine drafts_global ⟨"copyreg", "__newobj_ex__"⟩
    (Text.utf8 "copy_reg", Text.utf8 "__newobj_ex__") rfl rfl (show 0 < 2 ^ 32 by decide) rfl
    (drafts_emit ?_)
  -- the arguments
  refine Drafts.bind (drafts_new rfl rfl rfl ?_)
  refine Drafts.bind (drafts_emit (Drafts.bind (Drafts.bind (drafts_new rfl rfl rfl ?_))))
  refine drafts_global ⟨"builtins", "object"⟩
    (Text.utf8 "__builtin__", Text.utf8 "object") rfl rfl (show 1 < 2 ^ 32 by decide) rfl
    (drafts_emit ?_)
  refine Drafts.bind (drafts_save rfl (drafts_emit ?_))
  refine Drafts.bind (drafts_new rfl rfl rfl (Drafts.bind (drafts_emit ?_)))
  refine Drafts.bind (drafts_memoizeAs (by decide) rfl (drafts_emit ?_))
  refine drafts_storeEntries rfl (by decide) (Drafts.pure (Drafts.pure ?_))
  refine Drafts.bind (drafts_memoized (Drafts.bind (drafts_emit ?_)))
  refine drafts_memoizeAs (by decide) rfl (drafts_emit (drafts_emit ?_))
  refine Drafts.bind (Drafts.bind (drafts_memoized ?_))
  refine drafts_memoizeAs (by decide) rfl (drafts_emit ?_)
  exact drafts_state rfl (by decide) (by decide) rfl rfl rfl

theorem dumps_statefulCreation : dumps (recorder 2) statefulStore (.ref 4) =
    (.ok (allBytes (statefulCreation ++ [⟨.stop, ()⟩])), statefulStore) := by
  refine dumps_of_drafts [(.object 5, 2), (.object 4, 1), (.object 1, 0)] statefulCreation (by decide) ?_
  refine drafts_new rfl rfl rfl ?_
  refine Drafts.bind (drafts_describe rfl ?_)
  refine drafts_get fun st here => ?_
  simp only [here.store]
  refine Drafts.bind ?_
  -- the class, and no arguments
  refine Drafts.bind (drafts_get fun st here => ?_)
  simp only [here.store]
  refine Drafts.pure (drafts_get fun st here => ?_)
  simp only [here.store]
  refine Drafts.bind (drafts_new rfl rfl rfl ?_)
  refine drafts_global ⟨"builtins", "object"⟩
    (Text.utf8 "__builtin__", Text.utf8 "object") rfl rfl (by decide) rfl (drafts_emit ?_)
  refine Drafts.bind (drafts_save rfl (drafts_emit ?_))
  refine drafts_emit ?_
  refine Drafts.bind (Drafts.bind (drafts_memoized ?_))
  refine drafts_memoizeAs (by decide) rfl (drafts_emit ?_)
  exact drafts_state rfl (by decide) (by decide) rfl rfl rfl

/-- Protocol 1 has a call, and protocol 2 a creation, and the state follows them. -/
theorem loads_dumps_created_state : ∃ bytes bytes',
    dumps (recorder 1) statefulStore (.ref 4) = (.ok bytes, statefulStore) ∧
      dumps (recorder 2) statefulStore (.ref 4) = (.ok bytes', statefulStore) ∧
      Decoder.plain.Agree bytes bytes' := by
  let r : Reduction := { callable := .ref 0, args := .ref 3, state := some (.ref 5) }
  have described (o : Protocol) :
      Describes { recorder 1 with protocol := o } statefulStore 4 r statefulStore :=
    ⟨⟨_, _, rfl, rfl, rfl⟩, _, rfl⟩
  have offers : (recorder 1).registry.Offers ⟨"builtins", "object"⟩ (.ofClass (.base 0)) := by
    have seed : (⟨"builtins", "object"⟩, .ofClass (.base 0)) ∈ Registry.seeds 0 :=
      List.mem_cons_self ..
    obtain ⟨bound, unregistered⟩ := Registry.intact_seeded 0 _ _ seed
    exact ⟨bound, unregistered, Registry.seeds_portable seed⟩
  have creating : Creating statefulStore (.ref 1) [] "__newobj_ex__" .newobjEx
      [.ref 1, .emptyTuple, .ref 2] (Keyed.empty : Dict).size := .newobjEx rfl rfl
  have emptyDict : statefulStore.Tidy True (fun _ => False) (.ref 2) :=
    .of_cell (show statefulStore.cells[2]? = some (.dict .empty) from rfl) trivial trivial
      (Cell.orderly_of_no_keys rfl Keyed.files_empty) (List.forall_mem_nil _)
  have tidy : ∀ v ∈ [Value.emptyTuple, .ref 2], statefulStore.Tidy True (fun _ => False) v ∧
      statefulStore.KeysBare v := by
    have atom : statefulStore.Tidy True (fun _ => False) .emptyTuple := .of_atom rfl
    exact List.forall_mem_cons.2 ⟨⟨atom, atom.bare⟩,
      List.forall_mem_singleton.2 ⟨emptyDict, emptyDict.bare⟩⟩
  have state : statefulStore.Tidy True (fun _ => False) (.ref 5) := by
    have found : statefulStore.cells[5]? = some (.dict stateAttributes) := rfl
    refine .of_cell found trivial trivial ?_ ?_
    · refine ⟨fun key mem => ?_, Keyed.files_empty.put rfl _ _ _, List.pairwise_singleton _ _⟩
      cases List.mem_singleton.1 mem
      exact ⟨_, rfl⟩
    · exact List.forall_mem_cons.2 ⟨.of_atom rfl, List.forall_mem_singleton.2 (.of_atom rfl)⟩
  have completes : r.Completes statefulStore (fun _ => False) (recorder 1).host (.ofClass (.base 0)) :=
    .inr ⟨rfl, ⟨.base 0, rfl, rfl⟩, List.forall_mem_singleton.2 ⟨state, state.bare⟩⟩
  have dumped := dumps_statefulCall
  have dumped' := dumps_statefulCreation
  exact ⟨_, _, dumped, dumped', loads_dumps_created (recorder 1) rfl (Registry.intact_seeded 0) nofun
    (fun _ => False.elim) (fun _ => False.elim) (fun _ _ => False.elim) (fun o _ => described o) rfl
    ⟨_, rfl, rfl, rfl⟩ ⟨_, rfl, rfl, rfl⟩ offers rfl creating (.inl rfl) tidy completes nofun dumped
    dumped' (by decide) (by decide)⟩

end ObjectStream
