import ObjectStream.Proofs.Calling

/-!
How instances are carried.

An instance is created by its class without attributes, then remembered, and then given a dictionary
with its attributes. So its attributes may lead back to it. The dictionary is made by the encoder for
the purpose.
-/

namespace ObjectStream

open Decoder (Machine Leads After Acts resolved)
open Encoder

variable {H : Type} [HostObject H]

namespace Trip

variable {x : Trip H} {st st₁ st₂ st' : Encoder.State H} {save : Value → Encode H Unit} {c : Class}
  {i : Nat} {attributes : Dict}

/-! ## Creation -/

omit [HostObject H] in
/-- The encoder makes a global for its own use. -/
theorem allocNamed_ok {module qualname : String} {v : Value}
    (h : allocNamed module qualname st = .ok v st') :
    v = .ref st.store.size ∧
      st'.store = st.store.push (.global (.named module qualname)) ∧ st'.memo = st.memo ∧
      Silent st st' := by
  cases h
  exact ⟨rfl, rfl, rfl, ⟨rfl, rfl, rfl⟩⟩

/-- A name that the encoder makes a global for is written and found. -/
theorem allocNamed_names {module qualname : String} {symbol : Symbol} {v : Value}
    (saver : x.Saver save) (known : x.Known ⟨module, qualname⟩ symbol)
    (make : allocNamed module qualname st = .ok v st₁) (h : save v st₁ = .ok () st') :
    x.Names st st' [] (resolved ⟨module, qualname⟩ symbol) := by
  obtain ⟨rfl, store, memo, silent⟩ := allocNamed_ok make
  have grown : st.store.Grown st₁.store := by
    rw [store]
    exact .push _ _
  have found : st₁.store.cells[st.store.size]? = some (.global (.named module qualname)) := by
    rw [store]
    exact Store.cell_push_last ..
  have names := saver.names h ⟨found, x.meets_named .., rfl, known⟩
  refine ⟨.trans ⟨grown, fun _ _ here => by rw [memo]; exact here⟩ names.sent, fun i below _ => ?_,
    ((Performs.of_silent silent).trans names.performs).mono ?_⟩
  · rw [names.only i (Nat.lt_of_lt_of_le below grown.size_le), memo]
    exact fun mem => Nat.lt_irrefl _ (List.mem_singleton.1 mem ▸ below)
  · rintro m Q ⟨busy, linked, -, q⟩
    refine ⟨busy, linked.alloc grown memo, fun i mem => ?_, q⟩
    rw [List.mem_singleton.1 mem, memo]
    exact linked.unmet (Nat.le_refl _)

/-- What the writing of a new instance does. -/
structure Instantiates (x : Trip H) (st st' : Encoder.State H) (c : Class) : Prop where
  creates : x.Creates st st' [] fun _ store j => store.cells[j]? = some (.inst c .empty)
  only : ∀ i < st.store.size, st'.memo[Identity.object i]? = st.memo[Identity.object i]?

/-- From protocol 2 on an instance is created by its class and no arguments. -/
theorem newObj_instantiates (saver : x.Saver save)
    (names : x.Names st st₁ [] (resolved ⟨c.module, c.qualname⟩ (.ofClass c)))
    (args : save .emptyTuple st₁ = .ok () st₂) (make : emit .newObj () st₂ = .ok () st') :
    x.Instantiates st st' c := by
  have emits := saver.emptyTuple args
  have made : x.Emits st₂ st' fun m Q => Leads x.decoder x.total [⟨.newObj, ()⟩] m Q :=
    .of_emitted (emit_ok make) fun _ _ h => h
  have tail := emits.trans made
  refine ⟨⟨names.sent.trans tail.sent, (names.performs.trans tail.performs).mono ?_⟩, ?_⟩
  · rintro m Q ⟨busy, linked, -, q⟩
    refine ⟨busy, linked, List.forall_mem_nil _, fun m' j linked' after stack here => ?_⟩
    have stack' : (m'.push .emptyTuple).stack = m.stack ++ [.ref j] ++ [.emptyTuple] := by
      rw [← stack]
      rfl
    have global : (m'.push .emptyTuple).store.global? (.ref j) =
        some (resolved ⟨c.module, c.qualname⟩ (.ofClass c)) := Store.global?_of_cell here
    have gathered : x.Gathered st' busy m (m'.withStack m.stack) [] [] :=
      ⟨linked'.congr tail.store tail.memo rfl rfl rfl, after.trans (.of_eq rfl rfl rfl), rfl, .nil⟩
    exact Decoder.leads_newObj stack' global rfl
      (q _ _ (gathered.created (Store.cell_push_last _ _)))
  · intro i below
    rw [tail.memo]
    exact names.only i below List.not_mem_nil

theorem callSymbol_reconstructor {host : Host H} {number : Nat} {s : Store H} {cls base : Value}
    {g : Global} (global : s.global? cls = some g) (bound : g.symbol = some (.ofClass c)) :
    host.callSymbol (.function (.builtin number .reconstructor)) [cls, base, .none] s =
      .ok (.ref s.size) (s.push (.inst c .empty)) := by
  have creator : s.creator cls = .ok (.ofClass c) := by
    simp only [Store.creator, global, bound]
  have creation : s.creation? s.size .reconstructor [cls, base, .none] =
      some (.ok ⟨cls, [], s.size⟩) := rfl
  have target : s.callTarget (.function (.builtin number .reconstructor)) [cls, base, .none] =
      .ok (.create c) := by
    rw [Store.callTarget, Store.forward]
    simp only [creation, creator]
  simp only [Host.callSymbol, Host.carryOut, Builtin.reading, bind_apply, get_apply, target,
    pure_apply]
  rfl

/-- Before protocol 2 an instance is created by the call of a function with its class. -/
theorem reconstructor_instantiates {s₁ s₂ s₃ s₄ s₅ s₆ : Encoder.State H} {number : Nat} {base : Class}
    (names₁ : x.Names st s₁ []
      (resolved ⟨"copyreg", "_reconstructor"⟩ (.function (.builtin number .reconstructor))))
    (mark : emit .mark () s₁ = .ok () s₂)
    (names₂ : x.Names s₂ s₃ [] (resolved ⟨c.module, c.qualname⟩ (.ofClass c)))
    (names₃ : x.Names s₃ s₄ [] (resolved ⟨"builtins", "object"⟩ (.ofClass base)))
    (none : emit .none () s₄ = .ok () s₅) (tuple : emit .tuple () s₅ = .ok () s₆)
    (reduce : emit .reduce () s₆ = .ok () st') : x.Instantiates st st' c := by
  have marks : x.Emits s₁ s₂ fun m Q => Q m.mark :=
    .of_emitted (emit_ok mark) fun m Q q => Decoder.leads_mark q
  have pushes : x.Emits s₄ s₅ fun m Q => Q (m.push .none) :=
    .of_emitted (emit_ok none) fun m Q q => Decoder.leads_push (.of trivial rfl) rfl q
  have makes : x.Emits s₅ s₆ fun m Q => Leads x.decoder x.total [⟨.tuple, ()⟩] m Q :=
    .of_emitted (emit_ok tuple) fun _ _ h => h
  have calls : x.Emits s₆ st' fun m Q => Leads x.decoder x.total [⟨.reduce, ()⟩] m Q :=
    .of_emitted (emit_ok reduce) fun _ _ h => h
  have tail := pushes.trans (makes.trans calls)
  have begun := names₁.sent.trans (marks.sent.trans names₂.sent)
  refine ⟨⟨begun.trans (names₃.sent.trans tail.sent), ?_⟩, fun i below => ?_⟩
  · refine (names₁.performs.trans (marks.performs.trans (names₂.performs.trans
      (names₃.performs.trans tail.performs)))).mono ?_
    rintro m Q ⟨busy, linked, -, q⟩
    refine ⟨busy, linked, List.forall_mem_nil _, fun m₁ f linked₁ after₁ stack₁ function => ?_⟩
    refine ⟨busy, linked₁.congr marks.store marks.memo rfl rfl rfl, List.forall_mem_nil _,
      fun m₂ j linked₂ after₂ stack₂ cls => ?_⟩
    refine ⟨busy, linked₂, List.forall_mem_nil _, fun m₃ k linked₃ after₃ stack₃ _ => ?_⟩
    have items : (m₃.push .none).stack = .ref j :: [.ref k, .none] := by
      show m₃.stack ++ [.none] = _
      rw [stack₃, stack₂]
      rfl
    have saved : (m₃.push .none).marks = (m.stack ++ [.ref f]) :: m.marks := by
      rw [← stack₁, ← after₁.marks]
      exact after₃.marks.trans after₂.marks
    have later := after₂.trans after₃
    have gathered : x.Gathered st' busy m { m₃ with stack := m.stack, marks := m.marks } [] [] :=
      ⟨linked₃.congr tail.store tail.memo rfl rfl rfl,
        after₁.trans ⟨later.size, later.cells, later.memo, after₁.marks.symm⟩, rfl, .nil⟩
    have args := gathered.created (c := .tuple [.ref j, .ref k, .none])
      (P := fun _ _ _ => True) trivial
    have tuple : (m₃.store.push (.tuple [.ref j, .ref k, .none])).tuple? (.ref m₃.store.size) =
        some [.ref j, .ref k, .none] := Store.tuple?_of_cell (Store.cell_push_last ..)
    have global : ∀ {a : Nat} {g : Global}, m₃.store.cells[a]? = some (.global g) →
        (m₃.store.push (.tuple [.ref j, .ref k, .none])).global? (.ref a) = some g :=
      fun here => Store.global?_of_cell (Store.Grown.push _ _ _ _ here)
    have built : x.Gathered st' busy m
        ((({ m₃ with stack := m.stack, marks := m.marks } : Machine H).pushNew
          (.tuple [.ref j, .ref k, .none])).withStack m.stack) [] [] :=
      ⟨args.linked.congr rfl rfl rfl rfl rfl, args.after.trans (.of_eq rfl rfl rfl), rfl, .nil⟩
    exact Decoder.leads_tuple items saved
      (Decoder.leads_reduce rfl tuple (global (later.cell function)) rfl
        (.inl ⟨_, _, callSymbol_reconstructor (global (after₃.cell cls)) rfl,
          q _ _ (built.created (Store.cell_push_last _ _))⟩))
  · have size₁ := names₁.sent.store.size_le
    have size₂ := begun.store.size_le
    rw [tail.memo, names₃.only i (by omega) List.not_mem_nil, names₂.only i ?_ List.not_mem_nil, marks.memo,
      names₁.only i below List.not_mem_nil]
    rw [marks.store]
    omega

theorem saveNewInstance_instantiates (saver : x.Saver save) (agrees : x.Agrees)
    (carried : x.classes c) (h : saveNewInstance x.encoder save c st = .ok () st') :
    x.Instantiates st st' c := by
  have class_names : ∀ {s s' : Encoder.State H}, saveClass x.encoder save c s = .ok () s' →
      x.Names s s' [] (resolved ⟨c.module, c.qualname⟩ (.ofClass c)) := fun h =>
    saveClass_names (agrees.classes c carried) agrees.imports carried
      (fun d other => agrees.identity c d carried other) h
  rw [saveNewInstance] at h
  split at h
  · obtain ⟨_, s₁, cls, h⟩ := bind_eq_ok h
    obtain ⟨_, s₂, args, make⟩ := bind_eq_ok h
    exact newObj_instantiates saver (class_names cls) args make
  · obtain ⟨f, s₀, function, h⟩ := bind_eq_ok h
    obtain ⟨_, s₁, saved, h⟩ := bind_eq_ok h
    obtain ⟨_, s₂, mark, h⟩ := bind_eq_ok h
    obtain ⟨_, s₃, cls, h⟩ := bind_eq_ok h
    obtain ⟨b, s₄, base, h⟩ := bind_eq_ok h
    obtain ⟨_, s₅, saved', h⟩ := bind_eq_ok h
    obtain ⟨_, s₆, none, h⟩ := bind_eq_ok h
    obtain ⟨_, s₇, tuple, reduce⟩ := bind_eq_ok h
    have known := agrees.seeds ⟨"copyreg", "_reconstructor"⟩ _ (List.mem_of_getElem? (i := 10) rfl)
    have known' := agrees.seeds ⟨"builtins", "object"⟩ _ (List.mem_of_getElem? (i := 0) rfl)
    exact reconstructor_instantiates (allocNamed_names saver known function saved) mark
      (class_names cls) (allocNamed_names saver known' base saved') none tuple reduce

/-! ## State -/

theorem copied_empty_inst {R : Nat → Nat → Prop} {store : Store H} {j : Nat}
    (found : store.cells[j]? = some (.inst c .empty)) :
    x.Copied R store j ((tableFilling (holds_inst c)).cell []) :=
  ⟨_, found, .inst c .nil .nil, Keyed.files_empty, trivial⟩

theorem Creates.mono {P P' : (Nat → Nat → Prop) → Store H → Nat → Prop} {vs : List Value}
    (h : x.Creates st st' vs P) (le : ∀ R store j, P R store j → P' R store j) :
    x.Creates st st' vs P' := by
  refine ⟨h.sent, h.performs.mono fun m Q ⟨busy, linked, clear, q⟩ => ?_⟩
  refine ⟨busy, linked, clear, fun m' j created => q m' j { created with made := ?_ }⟩
  exact le _ _ _ created.made

/-- The dictionary of the attributes can be carried as the instance can. -/
theorem sound_state {d : Nat} (sound : x.Sound st.store (.ref i))
    (found : st.store.cells[i]? = some (.inst c attributes)) (later : st.store.size ≤ d)
    (grown : st.store.Grown st₁.store) (state : st₁.store.cells[d]? = some (.dict attributes)) :
    x.Sound st₁.store (.ref d) := by
  have inside := sound.object found
  refine .of_cell (Nat.le_trans sound.later grown.size_le) state
    ⟨trivial, trivial, ⟨inside.orderly.hashable, inside.orderly.filed, inside.orderly.distinct⟩,
      inside.closed, fun key mem back => ?_⟩ fun v held => ?_
  · have := inside.closed key mem d back
    have := sound.later
    omega
  · exact (sound.child found held).grown grown

/-- The attributes of the state are taken over into the new instance. -/
theorem Open.built {m m₁ : Machine H} {busy : List Nat} {below : List Value} {j d dj : Nat}
    (opened : x.Open (tableFilling (holds_inst c)) st m busy below i j []) (sent : Further st st₁)
    (pushed : x.Pushed st₁ busy m m₁ [.ref d] [.ref dj]) (free : d ∉ busy)
    (state : st₁.store.cells[d]? = some (.dict attributes))
    (hooks : (x.decoder.host.hooks c.key).setState = none)
    (usable : x.Usable st₁.store busy attributes.keys) {Q : Machine H → Prop}
    (q : ∀ m', x.Open (tableFilling (holds_inst c)) st₁ m' busy below i j
      attributes.entries.toList → After (some j) m m' → Q m') :
    Leads x.decoder x.total [⟨.build, ()⟩] m₁ Q := by
  have link : Link st₁.memo m₁.memo d dj := by
    cases pushed.same with
    | cons head tail =>
      cases head with
      | ref link => exact link
  obtain ⟨_, here, same, -⟩ := pushed.linked.copied link free state trivial
  have stack : m₁.stack = below ++ [.ref j] ++ [.ref dj] := by
    rw [pushed.stack, opened.stack]
  have after : After none m (m₁.withStack (below ++ [.ref j])) :=
    pushed.after.trans (.of_eq rfl rfl rfl)
  have still : x.Open (tableFilling (holds_inst c)) st₁ (m₁.withStack (below ++ [.ref j])) busy below
      i j [] :=
    opened.still sent (pushed.linked.congr rfl rfl rfl rfl rfl) after opened.stack.symm
  obtain ⟨former, target, -⟩ := still.table
  cases same with
  | @dict _ t keys contents =>
    refine Decoder.leads_build stack target hooks here ?_
    have keys : List.Forall₂ (Match (Link st₁.memo m₁.memo))
        (attributes.entries.toList.map Prod.fst) (t.entries.toList.map Prod.fst) := keys
    exact still.stored usable keys contents fun store opened' filled =>
      q _ opened' (after.weaken.trans filled)

/-- An instance is created, remembered, and given its attributes. -/
theorem saveInstance_carries (saver : x.Saver save) (agrees : x.Agrees)
    (found : st.store.cells[i]? = some (.inst c attributes))
    (new : st.memo[Identity.object i]? = none) (sound : x.Sound st.store (.ref i))
    (h : saveInstance x.encoder save i c attributes st = .ok () st') :
    x.Carries st st' [.ref i] := by
  have carried : x.classes c := (sound.object found).plain
  have shape := tableFilling_shapes (H := H) (holds_inst c) attributes rfl
  have known := Store.lt_size_of_cell found
  simp only [saveInstance, instanceState, (agrees.hooks c carried).1] at h
  split at h
  · next empty =>
    obtain ⟨_, st₀, none, h⟩ := bind_eq_ok h
    cases none
    obtain ⟨_, st₁, create, h⟩ := bind_eq_ok h
    obtain ⟨_, st₂, memo, done⟩ := bind_eq_ok h
    cases done
    obtain ⟨creates, only⟩ := saveNewInstance_instantiates saver agrees carried create
    have none : attributes.entries.toList = [] := by
      simpa [Keyed.size] using empty
    rw [none] at shape
    rw [← only i known] at new
    exact (creates.mono fun _ _ _ => copied_empty_inst).filled (List.forall_mem_nil _) new found memo
      sound shape
      (.nil rfl rfl (.refl _))
  · obtain ⟨state, st₁, make, h⟩ := bind_eq_ok h
    obtain ⟨rfl, store₁, memo₁, silent⟩ : state = some (.ref st.store.size) ∧
        st₁.store = st.store.push (.dict attributes) ∧ st₁.memo = st.memo ∧
        Silent st st₁ := by
      cases make
      exact ⟨rfl, rfl, rfl, ⟨rfl, rfl, rfl⟩⟩
    obtain ⟨_, st₂, create, h⟩ := bind_eq_ok h
    obtain ⟨_, st₃, memo, h⟩ := bind_eq_ok h
    obtain ⟨_, st₄, saved, build⟩ := bind_eq_ok h
    have grown : st.store.Grown st₁.store := by
      rw [store₁]
      exact .push _ _
    have dict : st₁.store.cells[st.store.size]? = some (.dict attributes) := by
      rw [store₁]
      exact Store.cell_push_last ..
    obtain ⟨creates, only⟩ := saveNewInstance_instantiates saver agrees carried create
    rw [← memo₁, ← only i (Nat.lt_of_lt_of_le known grown.size_le)] at new
    obtain ⟨room, store₃, sent, performs⟩ := memoizeAs_ok (x := x) memo
    have further : Further st₁ st₃ := creates.sent.trans (.of_insert new store₃ sent)
    have begun : Further st st₃ :=
      .trans ⟨grown, fun _ _ here => by rw [memo₁]; exact here⟩ further
    have dict := further.store _ _ dict
    have carries := saver.carrier _ _ _ saved
      (sound_state sound found (Nat.le_refl _) begun.store dict)
    have built : x.Emits st₄ st' fun m Q => Leads x.decoder x.total [⟨.build, ()⟩] m Q :=
      .of_emitted (emit_ok build) fun _ _ h => h
    refine ⟨begun.trans (carries.sent.trans built.sent),
      ((Performs.of_silent silent).trans (creates.performs.trans (performs.trans
        (carries.performs.trans built.performs)))).mono ?_⟩
    rintro m Q ⟨busy, linked, clear, q⟩
    have clear := clear _ (List.mem_singleton.2 rfl)
    have sound₃ := sound.grown begun.store
    have found₃ := begun.store i _ found
    have clear₃ := clear.grown sound.closed begun.store
    have usable := sound₃.usable_inside found₃ clear₃
    refine ⟨busy, linked.alloc grown memo₁, List.forall_mem_nil _, fun m₂ j created => ?_⟩
    refine ⟨created.linked.numbers.size, m.stack, .ref j, created.stack, ?_⟩
    have opened := Created.opened (F := tableFilling (holds_inst c))
      { created with made := copied_empty_inst created.made } new
      (Store.lt_size_of_cell (creates.sent.store i _ (grown i _ found))) memo
    refine ⟨i :: busy, opened.linked, fun v mem => ?_, fun m₄ ws pushed => ?_⟩
    · rw [List.mem_singleton.1 mem]
      exact .of_cell dict usable.free fun v held =>
        clear₃.enter (linked.source.trans begun.store) sound₃ found₃ held
    · obtain ⟨dj, rfl⟩ : ∃ dj, ws = [.ref dj] := by
        cases pushed.same with
        | cons head tail =>
          cases head with
          | ref link => cases tail; exact ⟨_, rfl⟩
      have free : st.store.size ∉ i :: busy := by
        intro mem
        rcases List.mem_cons.1 mem with same | mem
        · omega
        · exact Nat.lt_irrefl _ (linked.busy_lt mem)
      refine opened.built carries.sent pushed free (carries.sent.store _ _ dict)
        (agrees.hooks c carried).2 (usable.grown carries.sent.store) fun m' opened' filled => ?_
      refine q m' [.ref j] ((opened'.emitted built).pushed shape ?_ ?_ created.new filled)
      · rw [built.store]
        exact carries.sent.store i _ found₃
      · exact created.after.trans (.remember created.linked.numbers _)

end Trip

end ObjectStream
