import ObjectStream.Proofs.Course

/-!
Every run of the walk takes a course.

One lemma for each function of the encoder (`charts_save`). Where an instruction is written, it is
checked that the protocol has it: the pair of an object and its state is the only one that is written
without a look at the protocol. Where a number is given, it is checked that nothing had one: either the
memo was just asked, or what was written since gives numbers to other objects only.
-/

namespace ObjectStream.Encoder

variable {H : Type}

section
variable [HostObject H] {cfg : Config H} {s : Subject} {st st' : State H}

/-! ## Atoms -/

omit [HostObject H] in
theorem one_le_of_isBinary (binary : cfg.protocol.isBinary = true) : 1 ≤ cfg.protocol.val :=
  of_decide_eq_true binary

theorem charts_saveBool (b : Bool) : Charts cfg s (saveBool cfg.protocol b) :=
  .ite (fun recent => .ite (fun _ => charts_emit recent rfl) fun _ => charts_emit recent rfl)
    fun _ => charts_emit (Nat.zero_le _) rfl

theorem charts_saveIntegerBytes (recent : 2 ≤ cfg.protocol.val) (bytes : Bytes) :
    Charts cfg s (saveIntegerBytes bytes) :=
  .ite (fun _ => charts_emit recent rfl) fun _ => .ite (fun _ => charts_emit recent rfl) fun _ => .fail _

theorem charts_saveWord (n : Int64) : Charts cfg s (saveWord cfg.protocol n) := by
  have binary : ∀ {b b' : Bool}, (cfg.protocol.isBinary && b && b') = true → 1 ≤ cfg.protocol.val := by
    intro b b' range
    simp only [Bool.and_eq_true] at range
    exact one_le_of_isBinary range.1.1
  refine .ite (fun range => charts_emit (binary range) rfl) fun _ => ?_
  refine .ite (fun range => charts_emit (binary range) rfl) fun _ => ?_
  refine .ite (fun range => charts_emit (binary range) rfl) fun _ => ?_
  refine .ite (fun recent => charts_saveIntegerBytes recent _) fun _ => ?_
  exact .ite (fun _ => charts_emit (Nat.zero_le _) rfl) fun _ => charts_emit (Nat.zero_le _) rfl

theorem charts_saveLong (n : Int) : Charts cfg s (saveLong cfg.protocol n) :=
  .ite (fun _ => charts_saveWord _) fun _ =>
    .ite (fun recent => charts_saveIntegerBytes recent _) fun _ => charts_emit (Nat.zero_le _) rfl

theorem charts_saveFloat (x : Double) : Charts cfg s (saveFloat cfg.protocol x) :=
  .ite (fun binary => charts_emit (one_le_of_isBinary binary) rfl) fun _ => charts_emit (Nat.zero_le _) rfl

theorem charts_saveText (text : String) : Charts cfg s (saveText cfg.protocol text) := by
  refine .ite (fun _ => charts_emit (Nat.zero_le _) rfl) fun binary => ?_
  simp only [Bool.not_eq_true', Bool.not_eq_false] at binary
  refine .ite (fun range => charts_emitPayload ?_ rfl) fun _ => ?_
  · simp only [Bool.and_eq_true, decide_eq_true_eq] at range
    exact range.1
  refine .ite (fun _ => charts_emitPayload (one_le_of_isBinary binary) rfl) fun _ => ?_
  exact .ite (fun late => charts_emitPayload late rfl) fun _ => .fail _

theorem charts_saveBinary (later : 3 ≤ cfg.protocol.val) (bytes : Bytes) :
    Charts cfg s (saveBinary cfg.protocol bytes) :=
  .ite (fun _ => charts_emitPayload later rfl) fun _ => .ite (fun _ => charts_emitPayload later rfl) fun _ =>
    .ite (fun late => charts_emitPayload late rfl) fun _ => .fail _

/-! ## Objects without contents -/

theorem charts_checkClass (v : Value) : Charts cfg s (checkClass v) :=
  .get fun _ => .ite (fun _ => .fail _) fun _ => .pure ()

theorem charts_emitExtension (recent : 2 ≤ cfg.protocol.val) (code : Nat) :
    Charts cfg s (emitExtension code) :=
  .ite (fun _ => charts_emit recent rfl) fun _ => .ite (fun _ => charts_emit recent rfl) fun _ =>
    charts_emit recent rfl

theorem charts_emitGlobalLines (name : Name) : Charts cfg s (emitGlobalLines cfg name) :=
  .ite (fun _ => .fail _) fun _ => charts_emit (Nat.zero_le _) rfl

theorem charts_saveEmptyTuple : Charts cfg s (saveEmptyTuple cfg) :=
  .ite (fun binary => charts_emit (one_le_of_isBinary binary) rfl) fun _ =>
    .bind (charts_emit (Nat.zero_le _) rfl) fun _ => charts_emit (Nat.zero_le _) rfl

theorem charts_emitShortTuple (recent : 2 ≤ cfg.protocol.val) (length : Nat) :
    Charts cfg s (emitShortTuple length) := by
  rcases length with _ | _ | _ | length
  all_goals exact charts_emit recent rfl

theorem charts_memoizeBuilt (v : Value) : Charts cfg (.value v) (memoizeBuilt cfg v) := by
  intro st
  refine tracks_memoizedValue (fun a n own known => ?_) fun unmet => tracks_memoize fun _ => unmet
  exact tracks_drop own known (charts_emit (Nat.zero_le _) rfl) fun run => (emit_ok run).memo

theorem charts_instanceState (id : Nat) (c : Class) (attributes : Dict) :
    Charts cfg s (instanceState cfg id c attributes) := by
  unfold instanceState
  cases (cfg.host.hooks c.key).getState with
  | some getState =>
    refine .get fun st => .bind (charts_modify fun st => ⟨.empty, st.depth, rfl⟩) fun _ => ?_
    exact .bind (charts_modify fun st => ⟨_, st.depth, rfl⟩) fun _ => .pure _
  | none => exact .ite (fun _ => .pure _) fun _ => .bind (charts_alloc _) fun _ => .pure _

/-! ## Items and entries -/

section
variable {save : Value → Encode H Unit} (inner : ∀ s v, Charts cfg s (save v))
include inner

theorem charts_saveAll (items : List Value) : Charts cfg s (saveAll save items) := by
  induction items with
  | nil => exact .pure ()
  | cons v rest ih => exact .bind (inner _ v) fun _ => ih

theorem charts_saveEntries (entries : List (Value × Value)) :
    Charts cfg s (saveEntries save entries) := by
  induction entries with
  | nil => exact .pure ()
  | cons e rest ih => exact .bind (inner _ _) fun _ => .bind (inner _ _) fun _ => ih

theorem charts_appendBatch (binary : 1 ≤ cfg.protocol.val) (items : List Value) :
    Charts cfg s (appendBatch save items) := by
  rcases items with _ | ⟨v, _ | ⟨w, rest⟩⟩
  · exact .pure ()
  · exact .bind (inner _ v) fun _ => charts_emit (Nat.zero_le _) rfl
  · exact .bind (charts_emit (Nat.zero_le _) rfl) fun _ => .bind (charts_saveAll inner _) fun _ =>
      charts_emit binary rfl

theorem charts_appendItems (items : List Value) : Charts cfg s (appendItems cfg save items) := by
  refine .ite (fun binary => .forM (charts_appendBatch inner (one_le_of_isBinary binary))) fun _ => ?_
  induction items with
  | nil => exact .pure ()
  | cons v rest ih => exact .bind (inner _ v) fun _ => .bind (charts_emit (Nat.zero_le _) rfl) fun _ => ih

theorem charts_storeBatch (binary : 1 ≤ cfg.protocol.val) (entries : List (Value × Value)) :
    Charts cfg s (storeBatch save entries) := by
  rcases entries with _ | ⟨⟨key, content⟩, _ | ⟨e, rest⟩⟩
  · exact .pure ()
  · exact .bind (inner _ key) fun _ => .bind (inner _ content) fun _ => charts_emit (Nat.zero_le _) rfl
  · exact .bind (charts_emit (Nat.zero_le _) rfl) fun _ => .bind (charts_saveEntries inner _) fun _ =>
      charts_emit binary rfl

theorem charts_storeEntries (entries : List (Value × Value)) :
    Charts cfg s (storeEntries cfg save entries) := by
  refine .ite (fun binary => .forM (charts_storeBatch inner (one_le_of_isBinary binary))) fun _ => ?_
  induction entries with
  | nil => exact .pure ()
  | cons e rest ih =>
    exact .bind (inner _ _) fun _ => .bind (inner _ _) fun _ =>
      .bind (charts_emit (Nat.zero_le _) rfl) fun _ => ih

theorem charts_addBatch (late : 4 ≤ cfg.protocol.val) (members : List Value) :
    Charts cfg s (addBatch save members) := by
  cases members with
  | nil => exact .pure ()
  | cons v rest =>
    exact .bind (charts_emit (Nat.zero_le _) rfl) fun _ => .bind (charts_saveAll inner _) fun _ =>
      charts_emit late rfl

/-! ## Globals and reductions -/

theorem charts_writeGlobal (name : Name) : Charts cfg s (writeGlobal cfg save name) := by
  unfold writeGlobal
  dsimp only
  cases code : if 2 ≤ cfg.protocol.val then cfg.registry.extensionCode? name else none with
  | some code' =>
    split at code
    · next recent => exact .bind (charts_emitExtension recent code') fun _ => .pure false
    · cases code
  | none =>
    refine .ite (fun late => ?_) fun _ => ?_
    · exact .bind (charts_saveText _) fun _ => .bind (charts_saveText _) fun _ =>
        .bind (charts_emit late rfl) fun _ => .pure true
    · rcases dottedSplits name.qualname with _ | ⟨⟨parent, last⟩, _⟩
      · exact .bind (charts_emitGlobalLines name) fun _ => .pure true
      · refine .bind (charts_allocNamed _ _) fun owner => ?_
        refine .bind (charts_allocTuple _) fun args => ?_
        refine .bind (charts_allocNamed _ _) fun getter => ?_
        exact .bind (inner _ getter) fun _ => .bind (inner _ args) fun _ =>
          .bind (charts_emit (Nat.zero_le _) rfl) fun _ => .pure true

theorem charts_saveNewObjectEx (recent : 2 ≤ cfg.protocol.val) (args : List Value) :
    Charts cfg s (saveNewObjectEx cfg save args) := by
  rcases args with _ | ⟨cls, _ | ⟨positional, _ | ⟨keywords, _ | ⟨_, _⟩⟩⟩⟩
  case cons.cons.cons.nil =>
    refine .bind (charts_checkClass cls) fun _ => .get fun st => ?_
    dsimp only
    cases st.store.tuple? positional with
    | none => exact .fail _
    | some items =>
      cases keywordCount? st.store keywords with
      | none => exact .fail _
      | some count =>
        refine .bind (inner _ cls) fun _ => .bind (inner _ positional) fun _ =>
          .ite (fun late => ?_) fun _ => ?_
        · exact .bind (inner _ keywords) fun _ => charts_emit late rfl
        · exact .ite (fun _ => charts_emit recent rfl) fun _ => .fail _
  all_goals exact .fail _

theorem charts_saveNewObject (recent : 2 ≤ cfg.protocol.val) (args : List Value) :
    Charts cfg s (saveNewObject save args) := by
  cases args with
  | nil => exact .fail _
  | cons cls positional =>
    exact .bind (charts_checkClass cls) fun _ => .bind (inner _ cls) fun _ =>
      .bind (charts_allocTuple positional) fun made => .bind (inner _ made) fun _ =>
        charts_emit recent rfl

theorem charts_saveCall (callable : Value) (g : Global) (args : Value) (items : List Value) :
    Charts cfg s (saveCall cfg save callable g args items) := by
  have recent : ∀ {b : Bool}, (decide (2 ≤ cfg.protocol.val) && b) = true → 2 ≤ cfg.protocol.val := by
    intro b creation
    simp only [Bool.and_eq_true, decide_eq_true_eq] at creation
    exact creation.1
  refine .ite (fun creation => charts_saveNewObjectEx inner (recent creation) items) fun _ => ?_
  refine .ite (fun creation => charts_saveNewObject inner (recent creation) items) fun _ => ?_
  have called : Charts cfg s (do save args; emit .reduce ()) :=
    .bind (inner _ args) fun _ => charts_emit (Nat.zero_le _) rfl
  cases reconstructorOf cfg g with
  | some name =>
    exact .bind (charts_allocNamed _ _) fun made => .bind (inner _ made) fun _ => called
  | none => exact .bind (inner _ callable) fun _ => called

/-- Only for the pair of an object and its state the protocol is not asked. -/
theorem charts_saveState (obj : Option Value) (state : Value) {setter : Option Value}
    (known : setter ≠ none → cfg.HasSetters) : Charts cfg s (saveState save obj state setter) := by
  cases setter with
  | none => exact .bind (inner _ state) fun _ => charts_emit (Nat.zero_le _) rfl
  | some setter =>
    refine .bind (inner _ setter) fun _ => .bind (inner _ _) fun _ => .bind (inner _ state) fun _ => ?_
    exact .bind (charts_write (.inr ⟨rfl, known nofun⟩) rfl) fun _ =>
      .bind (charts_emit (Nat.zero_le _) rfl) fun _ => charts_emit (Nat.zero_le _) rfl

theorem charts_saveReduction {r : Reduction} {obj : Option Value}
    (own : ∀ v, obj = some v → s = .value v)
    (known : r.state ≠ none → r.stateSetter ≠ none → cfg.HasSetters) :
    Charts cfg s (saveReduction cfg save r obj) := by
  refine .get fun st => ?_
  obtain ⟨callable, args, state, listItems, dictItems, setter⟩ := r
  dsimp only
  cases st.store.global? callable with
  | none => exact .fail _
  | some g =>
    cases st.store.tuple? args with
    | none => exact .fail _
    | some items =>
      refine .bind (charts_saveCall inner _ _ _ _) fun _ => ?_
      -- the parts behind the call, each of which may be absent
      have built : Charts cfg s (obj.forM (memoizeBuilt cfg)) := .optional fun v same => by
        rw [own v same]
        exact charts_memoizeBuilt v
      have parts : Charts cfg s (do
          obj.forM (memoizeBuilt cfg)
          listItems.forM (appendItems cfg save)
          dictItems.forM (storeEntries cfg save)
          state.forM fun state => saveState save obj state setter) :=
        .bind built fun _ =>
        .bind (.optional fun _ _ => charts_appendItems inner _) fun _ =>
        .bind (.optional fun _ _ => charts_storeEntries inner _) fun _ =>
        .optional fun state' same => charts_saveState inner obj state' <| known <| by
          rw [same]
          exact nofun
      cases obj <;> cases listItems <;> cases dictItems <;> cases state
      all_goals exact parts

theorem charts_saveNamedCall (module qualname : String) (args : List Value) {obj : Option Value}
    (own : ∀ v, obj = some v → s = .value v) :
    Charts cfg s (saveNamedCall cfg save module qualname args obj) :=
  .bind (charts_allocNamed _ _) fun _ => .bind (charts_allocTuple _) fun _ =>
    charts_saveReduction inner own fun _ absent => absurd rfl absent

/-! ## Kinds of objects -/

theorem charts_saveBytes (bytes : Bytes) : Charts cfg s (saveBytes cfg save bytes) :=
  .ite (fun later => charts_saveBinary later _) fun _ =>
    .ite (fun _ => charts_saveNamedCall inner _ _ _ nofun) fun _ =>
      charts_saveNamedCall inner _ _ _ nofun

theorem tracks_saveByteArray {v : Value} {data : Bytes} (new : cfg.Steady → st.Unmet (.value v)) :
    Tracks cfg (.value v) st (saveByteArray cfg save v data st) := by
  refine .ite (fun latest => ?_) fun _ => ?_
  · exact tracks_made new (charts_emitPayload latest rfl) fun run => (emitPayload_ok run).memo
  · exact charts_saveNamedCall inner _ _ _ (fun w same => by rw [Option.some.inj same]) st

theorem tracks_saveList {v : Value} {items : List Value} (new : cfg.Steady → st.Unmet (.value v)) :
    Tracks cfg (.value v) st (saveList cfg save v items st) :=
  .ite
    (fun binary => tracks_opened new (one_le_of_isBinary binary) rfl (charts_appendItems inner items))
    fun _ => tracks_marked new (Nat.zero_le _) rfl (charts_appendItems inner items)

theorem tracks_saveDict {v : Value} {entries : List (Value × Value)}
    (new : cfg.Steady → st.Unmet (.value v)) :
    Tracks cfg (.value v) st (saveDict cfg save v entries st) :=
  .ite
    (fun binary => tracks_opened new (one_le_of_isBinary binary) rfl
      (charts_storeEntries inner entries))
    fun _ => tracks_marked new (Nat.zero_le _) rfl (charts_storeEntries inner entries)

/-- Behind its items a tuple is unknown, or it has met itself among them. -/
theorem charts_saveTuple (v : Value) (items : List Value) :
    Charts cfg (.value v) (saveTuple cfg save v items) := by
  refine .ite (fun short => .bind (charts_saveAll inner items) fun _ st => ?_)
    fun _ => .bind (charts_emit (Nat.zero_le _) rfl) fun _ =>
      .bind (charts_saveAll inner items) fun _ st => ?_
  · simp only [Bool.and_eq_true, decide_eq_true_eq] at short
    refine tracks_memoizedValue (fun a n own known => ?_) fun unmet => ?_
    · exact tracks_drop own known (charts_emitTimes _ (Nat.zero_le _) rfl)
        fun run => (emitTimes_ok run).memo
    · refine tracks_made (fun _ => unmet) (charts_emitShortTuple short.2 _) fun run => ?_
      rcases items with _ | ⟨_, _ | ⟨_, _ | _⟩⟩
      all_goals exact (emit_ok run).memo
  · refine tracks_memoizedValue (fun a n own known => .ite (fun binary => ?_) fun _ => ?_)
      fun unmet => ?_
    · exact tracks_drop own known (charts_emit (one_le_of_isBinary binary) rfl)
        fun run => (emit_ok run).memo
    · exact tracks_drop own known (charts_emitTimes _ (Nat.zero_le _) rfl)
        fun run => (emitTimes_ok run).memo
    · exact tracks_made (fun _ => unmet) (charts_emit (Nat.zero_le _) rfl)
        fun run => (emit_ok run).memo

theorem tracks_saveSet {v : Value} {members : List Value} (new : cfg.Steady → st.Unmet (.value v)) :
    Tracks cfg (.value v) st (saveSet cfg save v members st) := by
  refine .ite (fun late => ?_) fun _ => ?_
  · exact tracks_opened new late rfl (.forM (charts_addBatch inner late))
  · refine (Charts.bind (charts_alloc _) fun _ => ?_) st
    exact charts_saveNamedCall inner _ _ _ fun w same => by rw [Option.some.inj same]

theorem charts_saveFrozenSet (v : Value) (members : List Value) :
    Charts cfg (.value v) (saveFrozenSet cfg save v members) := by
  refine .ite (fun late => ?_) fun _ => ?_
  · refine .bind (charts_emit (Nat.zero_le _) rfl) fun _ => .bind (charts_saveAll inner members) fun _ st => ?_
    refine tracks_memoizedValue (fun a n own known => ?_) fun unmet => ?_
    · exact tracks_drop own known (charts_emit (Nat.le_trans (by decide) late) rfl)
        fun run => (emit_ok run).memo
    · exact tracks_made (fun _ => unmet) (charts_emit late rfl) fun run => (emit_ok run).memo
  · refine .bind (charts_alloc _) fun _ => ?_
    exact charts_saveNamedCall inner _ _ _ fun w same => by rw [Option.some.inj same]

/-- The objects that are made for a name are new, so a global is as unknown behind its name as before. -/
theorem tracks_saveGlobal {i : Nat} {g : Global} (spells : cfg.Steady → Speller cfg save)
    (below : i < st.store.size) (new : cfg.Steady → st.Unmet (.value (.ref i))) :
    Tracks cfg (.value (.ref i)) st (saveGlobal cfg save (.ref i) g st) := by
  unfold saveGlobal
  cases wireName cfg g with
  | error e => exact .off
  | ok name =>
    refine .bind (charts_writeGlobal inner name st) fun given st' run => .ite (fun _ => ?_) fun _ => ?_
    · refine tracks_memoize fun steady a own => ?_
      obtain rfl := Option.some.inj own
      rw [((spells steady).name run).spares.object below List.not_mem_nil]
      exact new steady _ rfl
    · exact ⟨[], .stay⟩

/-- The class is written on its own account. -/
theorem charts_saveClass_own (spells : cfg.Steady → Speller cfg save) (c : Class) :
    Charts cfg (.ofClass c) (saveClass cfg save c) := by
  intro st
  refine tracks_memoized (fun n known => tracks_emitGet rfl known) fun new => ?_
  dsimp only
  cases wireName cfg (.ofClass c) with
  | error e => exact .off
  | ok name =>
    refine .bind (charts_writeGlobal inner name st) fun given st' run => .ite (fun _ => ?_) fun _ => ?_
    · refine tracks_memoizeAs rfl fun steady => ?_
      rw [((spells steady).name run).spares.memo (.ofClass c.key) fun _ same => nomatch same]
      exact new
    · exact ⟨[], .stay⟩

end

end

/-! ## Instances -/

/-- Objects were made and none changed, and no object that was there before was given a number. -/
structure Skips (st st' : State H) : Prop where
  grown : st.store.Grown st'.store
  memo : ∀ i < st.store.size, st'.memo[Identity.object i]? = st.memo[Identity.object i]?

section
variable {st st₁ st' : State H}

theorem Skips.trans (h : Skips st st₁) (h' : Skips st₁ st') : Skips st st' :=
  ⟨h.grown.trans h'.grown, fun i below => by
    rw [h'.memo i (Nat.lt_of_lt_of_le below h.grown.size_le), h.memo i below]⟩

theorem Emitted.skips {is : List Instruction} (h : Emitted st st' is) : Skips st st' :=
  ⟨by rw [h.store]; exact .refl _, fun _ _ => by rw [h.memo]⟩

theorem Spares.skips (h : Spares st st' []) : Skips st st' :=
  ⟨h.grown, fun _ below => h.object below List.not_mem_nil⟩

end

section
variable {cfg : Config H} {save : Value → Encode H Unit} {st st₁ st' : State H} {c : Class}

/-- A global that the encoder has made for its own use. -/
theorem Speller.skips (speller : Speller cfg save) {module qualname : String} {v : Value}
    (make : allocNamed module qualname st = .ok v st₁) (h : save v st₁ = .ok () st') :
    Skips st st' := by
  obtain ⟨rfl, store, -⟩ := alloc_ok make
  have found := store ▸ Store.cell_push_last st.store _
  have gives : Gives st st' [] _ := .made make (speller.names found h) fun j mem =>
    .inr (List.mem_singleton.1 mem)
  exact gives.spares.skips

theorem Speller.class_skips (speller : Speller cfg save) (h : saveClass cfg save c st = .ok () st') :
    Skips st st' := by
  rw [saveClass, bind_ok (memoized_ok ..)] at h
  cases known : st.memo[Identity.ofClass c.key]? with
  | some n =>
    simp only [known] at h
    exact (emitGet_ok h).skips
  | none =>
    simp only [known] at h
    cases wire : wireName cfg (.ofClass c) with
    | error e => simp only [wire] at h; cases h
    | ok name =>
      simp only [wire] at h
      obtain ⟨given, st₁, write, h⟩ := bind_eq_ok h
      have skips := (speller.name write).spares.skips
      cases given with
      | false => cases h; exact skips
      | true =>
        obtain ⟨-, store, sent, -⟩ := memoizeAs_emits h
        refine skips.trans ⟨by rw [store]; exact .refl _, fun i _ => ?_⟩
        rw [sent, Std.HashMap.getElem?_insert, if_neg]
        exact fun same => nomatch eq_of_beq same

/-- What is written for a new instance gives a number to none of the objects that were there. -/
theorem Speller.newInstance_skips (speller : Speller cfg save)
    (h : saveNewInstance cfg save c st = .ok () st') : Skips st st' := by
  unfold saveNewInstance at h
  split at h
  · obtain ⟨_, st₁, cls, h⟩ := bind_eq_ok h
    obtain ⟨_, st₂, args, h⟩ := bind_eq_ok h
    obtain ⟨is, emitted⟩ := speller.empty args
    exact (speller.class_skips cls).trans (emitted.skips.trans (emit_ok h).skips)
  · obtain ⟨_, st₁, make, h⟩ := bind_eq_ok h
    obtain ⟨_, st₂, reconstructor, h⟩ := bind_eq_ok h
    obtain ⟨_, st₃, mark, h⟩ := bind_eq_ok h
    obtain ⟨_, st₄, cls, h⟩ := bind_eq_ok h
    obtain ⟨_, st₅, make', h⟩ := bind_eq_ok h
    obtain ⟨_, st₆, base, h⟩ := bind_eq_ok h
    obtain ⟨_, st₇, none, h⟩ := bind_eq_ok h
    obtain ⟨_, st₈, tuple, reduce⟩ := bind_eq_ok h
    have before := (speller.skips make reconstructor).trans (emit_ok mark).skips
    have inside := (speller.class_skips cls).trans (speller.skips make' base)
    have behind := ((emit_ok none).trans (emit_ok tuple)).trans (emit_ok reduce)
    exact before.trans (inside.trans behind.skips)

/-- The hooks of classes leave the objects where they are. -/
theorem instanceState_ok (steady : cfg.Steady) {id : Nat} {attributes : Dict} {state : Option Value}
    (h : instanceState cfg id c attributes st = .ok state st') :
    st.store.size ≤ st'.store.size ∧ st'.memo = st.memo := by
  unfold instanceState at h
  cases hook : (cfg.host.hooks c.key).getState with
  | some getState =>
    simp only [hook] at h
    cases h
    exact ⟨steady.keeps c.key getState hook id st.store, rfl⟩
  | none =>
    simp only [hook] at h
    split at h
    · cases h
      exact ⟨Nat.le_refl _, rfl⟩
    · obtain ⟨_, st₁, make, h⟩ := bind_eq_ok h
      cases h
      obtain ⟨-, store, memo, -⟩ := alloc_ok make
      exact ⟨by rw [store]; exact (Store.Grown.push _ _).size_le, memo⟩

end

/-! ## The walk -/

variable [HostObject H] {cfg : Config H} {s : Subject} {st : State H}

/-- A value may be written for whatever holds it. -/
theorem Tracks.inside {room : Nat} {persistent : Bool} {v : Value}
    (h : Tracks cfg (.value v) st (save cfg room persistent v st)) :
    Tracks cfg s st (save cfg room persistent v st) := by
  cases run : save cfg room persistent v st with
  | ok _ st' =>
    rw [run] at h
    obtain ⟨notes, course⟩ := h
    exact ⟨notes, .inside run course⟩
  | error e st' =>
    rw [run] at h
    cases e <;> exact h

/-- What the host says of an object is said by its hook. -/
theorem describe_ok {id : Nat} {content : H} {r : Reduction} {st' : State H}
    (h : describe cfg id content st = .ok r st') :
    ∃ action s s', reduceHook cfg id content = some action ∧ action s = .ok r s' := by
  unfold describe at h
  cases hook : reduceHook cfg id content with
  | none =>
    simp only [hook] at h
    cases h
  | some action =>
    simp only [hook, bind_apply, modify_apply, hosted] at h
    cases run : action st.store with
    | ok r' store =>
      simp only [run] at h
      cases h
      exact ⟨action, st.store, store, rfl, run⟩
    | error e store =>
      cases e with
      | endless => simp only [run] at h; cases h
      | failed text => simp only [run] at h; cases h

/-- The description of a host object opens and closes its scope, unless the host does not end. -/
theorem charts_describe (id : Nat) (content : H) : Charts cfg s (describe cfg id content) := by
  intro st
  have idle : ∀ store : Store H, Course cfg s st [] { st with
      store := store
      trace := (st.trace.enter .reduce (HostObject.type content).shortName st.offset).exit
        .reduce st.offset } := fun store =>
    .trans (.described (HostObject.type content).shortName) (.beside store st.depth)
  unfold describe
  cases reduceHook cfg id content with
  | none => exact .behind (s := s) (idle st.store) .off
  | some action =>
    cases run : action st.store with
    | ok r store =>
      simp only [bind_apply, modify_apply, hosted, run]
      exact ⟨_, idle store⟩
    | error e store =>
      cases e with
      | endless =>
        simp only [bind_apply, modify_apply, hosted, run]
        trivial
      | failed text =>
        simp only [bind_apply, modify_apply, hosted, run]
        exact .behind (s := s) (idle store) .off

section
variable {room : Nat} (inner : ∀ s v, Charts cfg s (save cfg room true v))
include inner

theorem charts_saveClass (c : Class) : Charts cfg s (saveClass cfg (save cfg room true) c) := by
  intro st
  have own := charts_saveClass_own inner (fun steady => speller_save steady.plain room) c st
  cases run : saveClass cfg (save cfg room true) c st with
  | ok _ st' =>
    rw [run] at own
    obtain ⟨notes, course⟩ := own
    exact ⟨notes, .ofClass run course⟩
  | error e st' =>
    rw [run] at own
    cases e <;> exact own

theorem charts_saveNewInstance (c : Class) :
    Charts cfg s (saveNewInstance cfg (save cfg room true) c) := by
  refine .ite (fun recent => ?_) fun _ => ?_
  · exact .bind (charts_saveClass inner c) fun _ => .bind (inner _ _) fun _ => charts_emit recent rfl
  · refine .bind (charts_allocNamed _ _) fun reconstructor => .bind (inner _ reconstructor) fun _ => ?_
    refine .bind (charts_emit (Nat.zero_le _) rfl) fun _ => .bind (charts_saveClass inner c) fun _ => ?_
    refine .bind (charts_allocNamed _ _) fun base => .bind (inner _ base) fun _ => ?_
    exact .bind (charts_emit (Nat.zero_le _) rfl) fun _ => .bind (charts_emit (Nat.zero_le _) rfl)
      fun _ => charts_emit (Nat.zero_le _) rfl

theorem tracks_saveInstance {i : Nat} {c : Class} {attributes : Dict} (below : i < st.store.size)
    (new : cfg.Steady → st.Unmet (.value (.ref i))) :
    Tracks cfg (.value (.ref i)) st (saveInstance cfg (save cfg room true) i c attributes st) := by
  refine .bind (charts_instanceState i c attributes st) fun state st₁ asked => ?_
  refine .bind (charts_saveNewInstance inner c st₁) fun _ st₂ made => ?_
  refine .bind (tracks_memoize fun steady a own => ?_) fun _ st₃ _ => ?_
  · obtain rfl := Option.some.inj own
    obtain ⟨kept, memo⟩ := instanceState_ok steady asked
    have skips := (speller_save steady.plain room).newInstance_skips made
    rw [skips.memo i (Nat.lt_of_lt_of_le below kept), memo]
    exact new steady _ rfl
  · cases state with
    | none => exact ⟨[], .stay⟩
    | some state => exact (Charts.bind (inner _ state) fun _ => charts_emit (Nat.zero_le _) rfl) st₃

theorem charts_saveHostObject (id : Nat) (content : H) :
    Charts cfg (.value (.ref id)) (saveHostObject cfg (save cfg room true) id content) := by
  intro st
  refine .bind (charts_describe id content st) fun r st' run => charts_saveReduction inner
    (fun v same => by rw [Option.some.inj same]) (fun state setter => ?_) st'
  obtain ⟨action, store, store', hook, described⟩ := describe_ok run
  exact ⟨id, content, action, store, r, store', hook, described, state, setter⟩

theorem tracks_saveCell {i : Nat} (cell : Cell H) (below : i < st.store.size)
    (new : cfg.Steady → st.Unmet (.value (.ref i))) :
    Tracks cfg (.value (.ref i)) st (saveCell cfg (save cfg room true) i cell st) := by
  cases cell with
  | bytearray data => exact tracks_saveByteArray inner new
  | list items => exact tracks_saveList inner new
  | tuple items => exact charts_saveTuple inner _ _ st
  | dict entries => exact tracks_saveDict inner new
  | set members => exact tracks_saveSet inner new
  | frozenset members => exact charts_saveFrozenSet inner _ _ st
  | global g =>
    exact tracks_saveGlobal inner (fun steady => speller_save steady.plain room) below new
  | inst c attributes => exact tracks_saveInstance inner below new
  | object content => exact charts_saveHostObject inner i content st

theorem charts_saveObject (id : Nat) :
    Charts cfg (.value (.ref id)) (saveObject cfg (save cfg room true) id) := by
  intro st
  refine tracks_memoized (fun n known => tracks_emitGet rfl known) fun unmet => ?_
  dsimp only
  rw [bind_ok (get_apply st)]
  cases found : st.store.cells[id]? with
  | none => exact .off
  | some cell =>
    refine tracks_saveCell inner cell (Store.lt_size_of_cell found) fun _ a own => ?_
    obtain rfl := Option.some.inj own
    exact unmet

theorem charts_saveContent (v : Value) :
    Charts cfg (.value v) (saveContent cfg (save cfg room true) v) := by
  cases v with
  | none => exact charts_emit (Nat.zero_le _) rfl
  | bool b => exact charts_saveBool b
  | int n => exact charts_saveWord n
  | long n => exact charts_saveLong n
  | float x => exact charts_saveFloat x
  | complex re im => exact charts_saveNamedCall inner _ _ _ nofun
  | str text => exact charts_saveText text
  | bytes bytes => exact charts_saveBytes inner bytes
  | emptyTuple => exact charts_saveEmptyTuple
  | ref id => exact charts_saveObject inner id

end

theorem charts_askPersistentId (v : Value) : Charts cfg s (askPersistentId cfg v) := by
  unfold askPersistentId
  cases cfg.persistentId with
  | none => exact .pure none
  | some hook =>
    refine .get fun st => .bind (charts_modify fun st => ⟨.empty, st.depth, rfl⟩) fun _ => ?_
    exact .bind (charts_modify fun st => ⟨_, st.depth, rfl⟩) fun _ => .pure _

theorem charts_savePersistentId {savePlain : Value → Encode H Unit}
    (inner : ∀ v, Charts cfg s (savePlain v)) (pid : Value) :
    Charts cfg s (savePersistentId cfg savePlain pid) := by
  refine .ite (fun binary => ?_) fun _ => ?_
  · exact .bind (inner pid) fun _ => charts_emit (one_le_of_isBinary binary) rfl
  · cases persistentLine? pid with
    | none => exact .fail _
    | some line => exact charts_emit (Nat.zero_le _) rfl

/-- Every run of the walk over a value takes a course. -/
theorem charts_save (room : Nat) (persistent : Bool) (v : Value) :
    Charts cfg (.value v) (save cfg room persistent v) := by
  induction room generalizing persistent v with
  | zero => exact .fail _
  | succ room ih =>
    have inner : ∀ s persistent v, Charts cfg s (save cfg room persistent v) :=
      fun _ persistent v st => (ih persistent v st).inside
    refine .get fun st => ?_
    refine .bind (charts_modify fun st => ⟨st.store, _, rfl⟩) fun _ => ?_
    refine .bind charts_commit fun _ => ?_
    have back : Charts cfg (.value v) (modify fun s : State H => { s with depth := st.depth }) :=
      charts_modify fun s => ⟨s.store, st.depth, rfl⟩
    refine .ite (fun _ => .bind (charts_askPersistentId v) fun pid => ?_)
      fun _ => .bind (.pure none) fun pid => ?_
    all_goals
      cases pid with
      | none => exact .bind (charts_saveContent (inner · true ·) v) fun _ => back
      | some pid => exact .bind (charts_savePersistentId (inner _ false) pid) fun _ => back

theorem course_of_save {room : Nat} {persistent : Bool} {v : Value} {a : Unit}
    (h : save cfg room persistent v st = .ok a st') : ∃ notes, Course cfg (.value v) st notes st' := by
  have tracks : Tracks cfg (.value v) st (save cfg room persistent v st) := charts_save room persistent v st
  rwa [h] at tracks

end ObjectStream.Encoder
