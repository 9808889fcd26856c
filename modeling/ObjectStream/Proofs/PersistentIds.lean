import ObjectStream.Proofs.Conveying
import ObjectStream.Proofs.Drafts

/-!
Ids of what is stored elsewhere.

A hook of the encoder may give a value the id under which the value is stored elsewhere. The id is
written in its place, and a hook of the decoder finds the value by the id. If one instruction spells each
id, the decoder asks for the ids in the order in which they were given, as equal values, and what it
finds under an id is all that stands in the place of the value (`persistentIds_delivered`). Parts of an
id that is spelled as a call are given ids themselves: then other ids are asked for
(`persistentIds_complex`).
-/

namespace ObjectStream

variable {H : Type}

/-- One instruction spells the id. -/
def Value.Whole (p : Protocol) : Value → Prop
  | .complex _ _ | .ref _ => False
  | .bytes _ => 3 ≤ p.val
  | _ => True

namespace Encoder

open Decoder (Recalls References)

section
variable [HostObject H] {cfg : Config H} {L : Ledger H} {st st' : State H}
  {v pid : Value} {id : Option Value} {room : Nat}

/-- The hook notes the ids that it gives, and it leaves the objects alone that are not the host's. One
    instruction spells each id, unless the ids stand on lines. -/
structure Config.Asks (cfg : Config H) (L : Ledger H) : Prop where
  kept {hook} (given : cfg.persistentId = some hook) (v : Value) (s : Store H) : s.Kept (hook v s).2
  noted {hook} (given : cfg.persistentId = some hook) (v : Value) (s : Store H) :
    L.read (hook v s).2 = L.read s ++ (hook v s).1.toList
  whole {hook} (given : cfg.persistentId = some hook) {v pid : Value} {s : Store H}
    (answer : (hook v s).1 = some pid) (binary : cfg.protocol.isBinary = true) :
    pid.Whole cfg.protocol

omit [HostObject H] in
/-- Asking writes nothing. What it notes is the id that is given, if one is. -/
theorem Config.Asks.answer (asks : cfg.Asks L) (h : askPersistentId cfg v st = .ok id st') :
    Silent st st' ∧ st.store.Kept st'.store ∧ L.read st'.store = L.read st.store ++ id.toList ∧
      ∀ pid, id = some pid → cfg.protocol.isBinary = true → pid.Whole cfg.protocol := by
  cases given : cfg.persistentId with
  | none =>
    rw [askPersistentId, given] at h
    cases h
    exact ⟨.refl _, .refl _, (List.append_nil _).symm, fun _ same => by cases same⟩
  | some hook =>
    rw [askPersistentId_eq given] at h
    cases h
    exact ⟨⟨rfl, rfl, rfl⟩, asks.kept given v _, asks.noted given v _, fun _ => asks.whole given⟩

/-! ## Ids -/

/-- What is written for the content of an id is the instruction that spells it. -/
theorem saveContent_writes (dc : Decoder.Config H) {save : Value → Encode H Unit}
    (binary : cfg.protocol.isBinary = true) (whole : pid.Whole cfg.protocol)
    (h : saveContent cfg save pid st = .ok () st') :
    Writes dc st st' pid.reread := by
  cases pid with
  | none => exact writes_emit h (.of trivial rfl) rfl
  | bool b => exact saveBool_writes h
  | int n => exact saveWord_writes h
  | long n => exact saveLong_writes h
  | float x =>
    rw [saveContent, saveFloat, if_pos binary] at h
    exact writes_emit h (.of trivial rfl) rfl
  | complex => exact whole.elim
  | str text => exact saveText_writes h
  | bytes bytes =>
    rw [saveContent, saveBytes, if_pos (show 3 ≤ cfg.protocol.val from whole)] at h
    exact saveBinary_writes h
  | emptyTuple =>
    rw [saveContent, saveEmptyTuple, if_pos binary] at h
    exact writes_emit h (.of trivial rfl) rfl
  | ref => exact whole.elim

theorem save_writes (dc : Decoder.Config H) (binary : cfg.protocol.isBinary = true)
    (whole : pid.Whole cfg.protocol) (h : save cfg room false pid st = .ok () st') :
    Writes dc st st' pid.reread := by
  cases room with
  | zero => cases h
  | succ room =>
    obtain ⟨st₁, id, st₂, st₃, before, asked, written, after⟩ := save_steps h
    cases asked
    obtain ⟨i, emitted, utters⟩ := saveContent_writes dc binary whole written
    exact ⟨i, by simpa using (before.trans emitted).trans after, utters⟩

theorem persistentLine?_eq_some {line : Bytes} (h : persistentLine? pid = some line) :
    ∃ text, pid = .str text ∧ line = Bytes.ascii text ∧ Text.OnLine text.toList := by
  cases pid with
  | str text =>
    rw [persistentLine?] at h
    split at h
    · next plain =>
      cases h
      simp only [isAscii, Bool.and_eq_true, List.all_eq_true, decide_eq_true_eq, Bool.not_eq_true',
        List.contains_eq_mem, decide_eq_false_iff_not] at plain
      refine ⟨text, rfl, rfl, fun c mem => ⟨plain.1 c mem, ?_⟩⟩
      rintro rfl
      exact plain.2 mem
    · cases h
  | _ => cases h

/-- What is written for an id recalls it. -/
theorem savePersistentId_ok (dc : Decoder.Config H)
    (whole : cfg.protocol.isBinary = true → pid.Whole cfg.protocol)
    (h : savePersistentId cfg (save cfg room false) pid st = .ok () st') :
    ∃ is, Emitted st st' is ∧ Recalls dc is pid.reread := by
  rw [savePersistentId] at h
  split at h
  · next binary =>
    obtain ⟨_, st₁, first, second⟩ := bind_eq_ok h
    obtain ⟨i, emitted, utters⟩ := save_writes dc binary (whole binary) first
    exact ⟨_, emitted.trans (emit_ok second), Decoder.recalls_operand utters⟩
  · cases spelled : persistentLine? pid with
    | none =>
      rw [spelled] at h
      cases h
    | some line =>
      rw [spelled] at h
      obtain ⟨text, rfl, rfl, plain⟩ := persistentLine?_eq_some spelled
      exact ⟨_, emit_ok h, Decoder.recalls_line (Text.newline_not_mem_ascii plain)
        (Encoding.decode?_ascii plain)⟩

/-! ## Values -/

/-- A value with an id is written as what recalls the id. -/
theorem save_given (dc : Decoder.Config H) (asks : cfg.Asks L)
    {hook : Value → Store H → Option Value × Store H} (given : cfg.persistentId = some hook)
    (answer : (hook v st.store).1 = some pid) (h : save cfg (room + 1) true v st = .ok () st') :
    ∃ is, Wrote st st' is ∧ Recalls dc is pid.reread := by
  obtain ⟨st₁, id, st₂, st₃, before, asked, written, after⟩ := save_steps h
  have asked : askPersistentId cfg v st₁ = .ok id st₂ := asked
  obtain ⟨silent, -, -, whole⟩ := asks.answer asked
  rw [askPersistentId_eq given, before.store, answer] at asked
  cases asked
  obtain ⟨is, emitted, recalls⟩ := savePersistentId_ok dc (whole pid rfl) written
  refine ⟨is, ?_, recalls⟩
  simpa using ((before.wrote.trans silent.wrote).trans emitted.wrote).trans after.wrote

theorem conveys_save (dc : Decoder.Config H) (asks : cfg.Asks L) (room : Nat) :
    ∀ vs, ∀ v ∈ vs, Conveys dc L vs (save cfg room true v) := by
  induction room with
  | zero => intro vs v _ st a st' _ h; cases h
  | succ room ih =>
    intro vs v mem st _ st' native h
    obtain ⟨st₁, id, st₂, st₃, before, asked, written, after⟩ := save_steps h
    obtain ⟨silent, kept, noted, whole⟩ := asks.answer asked
    rw [before.store] at kept noted
    cases id with
    | none =>
      have quiet : Sends dc L st st₂ :=
        ⟨kept, [], [], before.wrote.trans silent.wrote, .nil, noted⟩
      have inside : Sends dc L st₂ st₃ :=
        conveys_saveContent ih mem st₂ () st₃ (fun u held => (native u held).kept kept) written
      exact (quiet.trans inside).trans (.of_emitted after .nil)
    | some pid =>
      obtain ⟨is, emitted, recalls⟩ := savePersistentId_ok dc (whole pid rfl) written
      have wrote := (before.wrote.trans silent.wrote).trans (emitted.wrote.trans after.wrote)
      refine ⟨?_, is ++ [], [pid], wrote, .ask recalls .nil, ?_⟩
      · rw [after.store, emitted.store]
        exact kept
      · rw [after.store, emitted.store, noted]
        rfl

/-- The stream of a dump refers to the ids that were given meanwhile, in order. -/
theorem dumps_refers (dc : Decoder.Config H) {s s' : Store H} {bytes : Bytes} (asks : cfg.Asks L)
    (native : s.Native v) (dumped : dumps cfg s v = (.ok bytes, s')) :
    ∃ is ids, Spells (is ++ [⟨.stop, ()⟩]) bytes ∧ References dc is (ids.map Value.reread) ∧
      L.read s' = L.read s ++ ids := by
  obtain ⟨st', run, rfl, rfl⟩ := dumps_ok dumped
  obtain ⟨st₁, st₂, announced, saved, ended, bare⟩ := dump_ok rfl run
  have quiet : References dc cfg.announcement [] := by
    unfold Config.announcement
    split
    · exact .single trivial ⟨rfl, rfl⟩
    · exact .nil
  have same : st₁.store = s := announced.store
  obtain ⟨-, is, ids, wrote, refers, noted⟩ := conveys_save dc asks _ [v] v
    (List.mem_singleton_self v) st₁ () st₂ (by rw [same]; exact List.forall_mem_singleton.2 native) saved
  refine ⟨cfg.announcement ++ is, ids, ?_, quiet.append refers, ?_⟩
  · exact ((announced.wrote.trans wrote).trans ended.wrote).spells .nothing bare
  · rw [ended.store, noted, same]

end

end Encoder

section
variable [HostObject H] {enc : Encoder.Config H} {dec : Decoder.Config H} {L L' : Ledger H}
  {s s' base base' : Store H} {v w : Value} {bytes : Bytes}

/-- Let the encoder's hook note the ids that it gives, each of which one instruction spells, and the
    decoder's hook those that it is asked for. If the dump of a graph of built-in kinds and the load of
    its stream succeed, the decoder was asked for the ids that were given, in that order, and for no
    others; only a long integer that a word holds was asked for as a word. Wherever the walk meets a value
    that is given an id, what it writes pushes what the decoder's hook finds under the id, and does
    nothing else. -/
theorem persistentIds_delivered (asks : enc.Asks L) (notes : dec.Notes L') (spares : L'.Spares dec)
    (native : s.Native v) (dumped : Encoder.dumps enc s v = (.ok bytes, s'))
    (word : bytes.length < 2 ^ 64) (loaded : Decoder.loads dec base bytes = (.ok w, base')) :
    (∃ ids, L.read s' = L.read s ++ ids ∧ L'.read base' = L'.read base ++ ids.map Value.reread) ∧
      ∀ hook, enc.persistentId = some hook → ∀ (u id : Value) (room : Nat) (st st' : Encoder.State H),
        (hook u st.store).1 = some id → Encoder.save enc (room + 1) true u st = .ok () st' →
          ∃ is, Encoder.Wrote st st' is ∧ Decoder.Recalls dec is id.reread := by
  refine ⟨?_, fun hook given u id room st st' answer saved =>
    Encoder.save_given dec asks given answer saved⟩
  obtain ⟨loose, le, bounded⟩ := Decoder.exists_framing dec.limits bytes.length
  obtain ⟨is, ids, spelled, refers, noted⟩ :=
    Encoder.dumps_refers (dec.within loose) asks native dumped
  have spares' : L'.Spares (dec.within loose) :=
    ⟨spares.call, spares.setState, spares.stateAction, spares.append, spares.setItem⟩
  exact ⟨ids, noted, Decoder.noted_of_loads refers spares' notes spelled word bounded
    (Decoder.loads_within le loaded)⟩

end

/-! ## Notes of a host -/

/-- A note of an id. -/
structure Slip where
  id : Value

instance : HostObject Slip where
  type _ := ⟨"Slip"⟩
  text _ := "Slip"
  same _ _ := none
  reduce _ _ _ := none
  setState _ _ _ := none
  append _ _ _ := none
  setItem _ _ _ _ := none

theorem filterMap_eq_of_getElem? {α β : Type} {f : α → Option β} {as bs : List α}
    (same : ∀ i : Nat, as[i]?.bind f = bs[i]?.bind f) : as.filterMap f = bs.filterMap f := by
  induction as generalizing bs with
  | nil =>
    refine (List.filterMap_eq_nil_iff.2 fun b mem => ?_).symm
    obtain ⟨i, here⟩ := List.getElem?_of_mem mem
    have := same i
    rw [here] at this
    exact this.symm
  | cons a as ih =>
    cases bs with
    | nil =>
      refine List.filterMap_eq_nil_iff.2 fun b mem => ?_
      obtain ⟨i, here⟩ := List.getElem?_of_mem mem
      have := same i
      rw [here] at this
      exact this
    | cons b bs =>
      have head : f a = f b := same 0
      have tail := ih fun i => same (i + 1)
      rw [List.filterMap_cons, List.filterMap_cons, head, tail]

/-- The ids on the slips of a store, in order. -/
def slips : Ledger Slip where
  read s := (s.cells.toList.filterMap Cell.content?).map Slip.id
  hosted {s s'} same := by
    refine congrArg (List.map Slip.id) (filterMap_eq_of_getElem? fun i => ?_)
    have here := same (.ref i)
    rw [Store.object?_eq, Store.object?_eq] at here
    simpa [Store.cell?] using here

theorem slips_push (s : Store Slip) (id : Value) :
    slips.read (s.push (.object ⟨id⟩)) = slips.read s ++ [id] := by
  simp [slips, Store.push, Cell.content?]

/-- An encoder that gives these ids and notes them. -/
def giving (p : Protocol) (answer : Value → Option Value) : Encoder.Config Slip where
  registry := .seeded 0
  host := {}
  protocol := p
  persistentId := some fun v s => match answer v with
    | some id => (some id, s.push (.object ⟨id⟩))
    | none => (none, s)

theorem asks_giving {p : Protocol} {answer : Value → Option Value}
    (whole : ∀ v id, answer v = some id → id.Whole p) : (giving p answer).Asks slips where
  kept given v s := by
    cases given
    dsimp only
    split
    · exact (Store.Grown.push _ _).kept
    · exact .refl s
  noted given v s := by
    cases given
    dsimp only
    split
    · exact slips_push ..
    · exact (List.append_nil _).symm
  whole {hook} given {v pid s} answered _ := by
    cases given
    dsimp only at answered
    split at answered
    · next here =>
      cases answered
      exact whole _ _ here
    · cases answered

/-- A decoder that finds these values and notes the ids. -/
def finding (find : Value → Value) : Decoder.Config Slip where
  registry := .seeded 0
  host := {}
  persistentLoad := some fun id s => .ok (find id) (s.push (.object ⟨id⟩))

theorem notes_finding (find : Value → Value) : (finding find).Notes slips := by
  intro hook given pid s w s' run
  cases given
  cases run
  exact slips_push ..

theorem spares_finding (find : Value → Value) : slips.Spares (finding find) where
  call _ _ := .throw _
  setState _ _ hooked := by cases hooked
  stateAction _ _ _ _ := .throw _
  append hooked := by cases hooked
  setItem hooked := by cases hooked

/-- A tuple of three numbers. -/
def tripleStore : Store Slip := ⟨#[.tuple [.int 5, .int 6, .int 7]]⟩

/-- Two of them have an id. -/
def tripleId : Value → Option Value
  | .int 5 => some (.str "five")
  | .int 7 => some (.int 1)
  | _ => none

def tripleBytes : Bytes :=
  [0x80, 2, 0x58, 4, 0, 0, 0, 0x66, 0x69, 0x76, 0x65, 0x51, 0x4b, 6, 0x4b, 1, 0x51, 0x87, 0x71, 0, 0x2e]

namespace Encoder

theorem dumps_triple : dumps (giving 2 tripleId) tripleStore (.ref 0) = (.ok tripleBytes,
    (tripleStore.push (.object ⟨.str "five"⟩)).push (.object ⟨.int 1⟩)) := by
  refine dumps_of_drafts [(.object 0, 0)]
    [⟨.proto, (2 : UInt8)⟩, ⟨.binUnicode, Bytes.ascii "five"⟩, ⟨.binPersId, ()⟩, ⟨.binInt1, (6 : UInt8)⟩,
      ⟨.binInt1, (1 : UInt8)⟩, ⟨.binPersId, ()⟩, ⟨.tuple3, ()⟩, ⟨.binPut, (0 : UInt8)⟩]
    (show 2 < 4 by decide) ?_
  refine drafts_asked rfl rfl (drafts_object rfl rfl ?_)
  refine Drafts.bind (Drafts.bind (drafts_asked rfl rfl ?_))
  refine Drafts.bind (drafts_unasked (drafts_text rfl (show 2 < 4 by decide) (by decide) (by decide) ?_))
  refine drafts_emit (Drafts.bind (drafts_asked rfl rfl (drafts_emit ?_)))
  refine Drafts.bind (drafts_asked rfl rfl (Drafts.bind (drafts_unasked (drafts_emit (drafts_emit ?_)))))
  refine Drafts.pure (Drafts.bind (drafts_memoized ?_))
  exact Drafts.bind (drafts_emit (drafts_memoizeAs (show 0 < 2 ^ 32 by decide) rfl (drafts_emit rfl)))

end Encoder

def tripleFind : Value → Value
  | .int 1 => .str "seven"
  | _ => .none

theorem persistentIds_delivered_triple :
    slips.read (Decoder.loads (finding tripleFind) {} tripleBytes).2 = [.str "five", .int 1] ∧
      ∀ room st st', Encoder.save (giving 2 tripleId) (room + 1) true (.int 5) st = .ok () st' →
        ∃ is, Encoder.Wrote st st' is ∧ Decoder.Recalls (finding tripleFind) is (.str "five") := by
  have native : tripleStore.Native (.ref 0) := by
    have native : (Cell.tuple [.int 5, .int 6, .int 7] : Cell Slip).Native := List.cons_ne_nil _ _
    refine Store.Native.push native (s := {}) fun u mem => .of_atom ?_
    simp only [Cell.children, Cell.keys, Cell.contents, List.nil_append, List.mem_cons, List.not_mem_nil,
      or_false] at mem
    rcases mem with rfl | rfl | rfl <;> rfl
  have whole : ∀ v id, tripleId v = some id → id.Whole (2 : Protocol) := by
    intro v id answer
    unfold tripleId at answer
    split at answer <;> cases answer <;> trivial
  have found : (Decoder.loads (finding tripleFind) {} tripleBytes).1 = .ok (.ref 2) := by decide +kernel
  generalize loaded : Decoder.loads (finding tripleFind) {} tripleBytes = outcome at found ⊢
  obtain ⟨answer, base⟩ := outcome
  obtain rfl : answer = .ok (.ref 2) := found
  obtain ⟨⟨ids, given, asked⟩, places⟩ := persistentIds_delivered (asks_giving whole)
    (notes_finding tripleFind) (spares_finding tripleFind) native Encoder.dumps_triple (by decide) loaded
  obtain rfl : [.str "five", .int 1] = ids := given
  refine ⟨asked, fun room st st' saved => ?_⟩
  exact places _ rfl (.int 5) (.str "five") room st st' rfl saved

/-- A store with an empty list. -/
def rootStore : Store Slip := ⟨#[.list #[]]⟩

def doubleOne : Double := ⟨0x3ff0000000000000⟩

def doubleTwo : Double := ⟨0x4000000000000000⟩

def doubleFive : Double := ⟨0x4014000000000000⟩

/-- The list has a complex number as its id, and the real part of that has an id as well. -/
def partId (v : Value) : Option Value :=
  if v = .ref 0 then some (.complex doubleOne doubleTwo)
  else if v = .float doubleOne then some (.str "one")
  else none

def partFind (id : Value) : Value :=
  if id = .str "one" then .float doubleFive
  else if id = .complex doubleOne doubleTwo then .str "right"
  else .str "wrong"

def partBytes : Bytes :=
  [0x80, 2, 0x63, 0x5f, 0x5f, 0x62, 0x75, 0x69, 0x6c, 0x74, 0x69, 0x6e, 0x5f, 0x5f, 0x0a, 0x63, 0x6f,
    0x6d, 0x70, 0x6c, 0x65, 0x78, 0x0a, 0x71, 0, 0x58, 3, 0, 0, 0, 0x6f, 0x6e, 0x65, 0x51, 0x47, 0x40,
    0, 0, 0, 0, 0, 0, 0, 0x86, 0x71, 1, 0x52, 0x51, 0x2e]

theorem Encoder.dumps_part : dumps (giving 2 partId) rootStore (.ref 0) = (.ok partBytes,
    (((rootStore.push (.object ⟨.complex doubleOne doubleTwo⟩)).push
      (.global (.named "builtins" "complex"))).push
      (.tuple [.float doubleOne, .float doubleTwo])).push (.object ⟨.str "one"⟩)) := by
  refine dumps_of_drafts [(.object 3, 1), (.object 2, 0)]
    [⟨.proto, (2 : UInt8)⟩, ⟨.global, (Bytes.ascii "__builtin__", Bytes.ascii "complex")⟩,
      ⟨.binPut, (0 : UInt8)⟩, ⟨.binUnicode, Bytes.ascii "one"⟩, ⟨.binPersId, ()⟩, ⟨.binFloat, doubleTwo⟩,
      ⟨.tuple2, ()⟩, ⟨.binPut, (1 : UInt8)⟩, ⟨.reduce, ()⟩, ⟨.binPersId, ()⟩]
    (show 2 < 4 by decide) ?_
  refine drafts_asked rfl rfl (Drafts.bind (drafts_unasked ?_))
  show Drafts (saveNamedCall _ _ "builtins" "complex" _ _) _ _
  rw [saveNamedCall_eq (by decide)]
  refine Drafts.bind (drafts_alloc (Drafts.bind (drafts_alloc ?_)))
  refine Drafts.bind (drafts_asked rfl rfl (drafts_object rfl rfl ?_))
  refine drafts_global ⟨"builtins", "complex"⟩ _ rfl
    (writeGlobal_lines (fun _ => Registry.extensionCode?_of_nil rfl _) (show 2 < 4 by decide) rfl)
    (show 0 < 2 ^ 32 by decide) rfl (drafts_emit ?_)
  refine Drafts.bind (drafts_asked rfl rfl (drafts_object rfl rfl ?_))
  refine Drafts.bind (Drafts.bind (drafts_asked rfl rfl ?_))
  refine Drafts.bind (drafts_unasked (drafts_text rfl (show 2 < 4 by decide) (by decide) (by decide) ?_))
  refine drafts_emit (Drafts.bind (drafts_asked rfl rfl (drafts_emit ?_)))
  refine Drafts.pure (Drafts.bind (drafts_memoized (Drafts.bind (drafts_emit ?_))))
  refine drafts_memoizeAs (show 1 < 2 ^ 32 by decide) rfl (drafts_emit ?_)
  exact Drafts.bind (drafts_emit (Drafts.pure (drafts_emit rfl)))

namespace Decoder

section
variable [HostObject H] {cfg : Config H} {total : Prop} {m : Machine H} {Q : Machine H → Prop}
  {below : List Value} {v w : Value} {s : Store H}

theorem leads_binPersId {hook : Value → Action H Value} (stack : m.stack = below ++ [v])
    (hooked : cfg.persistentLoad = some hook) (found : hook v m.store = .ok w s)
    (h : Q (((m.withStack below).withStore s).push w)) : Leads cfg total [⟨.binPersId, ()⟩] m Q := by
  have height : (m.withStack below).height ≤ m.height := Machine.height_withStack_le (by simp [stack])
  refine .one (.of trivial rfl) fun room => Does.bind (does_pop stack (Does.bind ?_))
  have := room.1
  intro st machine counted
  refine .inl ⟨w, { st with store := s }, ?_, counted, rfl, ?_⟩
  · rw [← show st.store = m.store from congrArg Machine.store machine] at found
    simp only [persistentLoad, hooked, bind_apply, hosted, found, pure_apply]
  · have same : ({ st with store := s } : State H).machine = (m.withStack below).withStore s := by
      rw [← machine]
      rfl
    rw [same]
    refine does_push ?_ ⟨.of_eq ?_ rfl, h⟩
    · rw [Machine.height_withStore]
      omega
    · rw [Machine.height_push, Machine.height_withStore]
      omega

end

/-- The name that old protocols have for the function. -/
def complexName : Name := ⟨"__builtin__", "complex"⟩

/-- The function that is called, as it is found. -/
def complexGlobal : Global := resolved ⟨"builtins", "complex"⟩ (.function (.builtin 0 .complex))

theorem stands_complex : Stands (finding partFind) 2 complexName complexGlobal := by
  obtain ⟨bound, unregistered⟩ := Registry.intact_seeded 0 ⟨"builtins", "complex"⟩
    (.function (.builtin 0 .complex)) (List.mem_of_getElem? (i := 1) rfl)
  have finds : Finds (finding partFind) 2 complexName ⟨"builtins", "complex"⟩
    (.function (.builtin 0 .complex)) := ⟨by decide, unregistered, bound⟩
  exact finds.stands

def partStream : List Instruction :=
  [⟨.proto, (2 : UInt8)⟩, ⟨.global, (Text.utf8 complexName.module, Text.utf8 complexName.qualname)⟩,
    ⟨.binPut, (0 : UInt8)⟩, ⟨.binUnicode, Text.utf8 "one"⟩, ⟨.binPersId, ()⟩, ⟨.binFloat, doubleTwo⟩,
    ⟨.tuple2, ()⟩, ⟨.binPut, (1 : UInt8)⟩, ⟨.reduce, ()⟩, ⟨.binPersId, ()⟩]

theorem leads_partStream : Leads (finding partFind) True partStream ⟨{}, ∅, [], [], 0⟩ fun m =>
    m.stack = [.str "wrong"] ∧ slips.read m.store = [.str "one", .complex doubleFive doubleTwo] := by
  have one : Utters (finding partFind) ⟨.binUnicode, Text.utf8 "one"⟩ (.str "one") :=
    utters_textInstruction 2 "one"
  refine Leads.cons (leads_proto (by decide) ?_)
  refine Leads.cons (leads_global stands_complex (by decide) ?_)
  refine Leads.cons (leads_remember (.of trivial rfl) (fun _ _ => rfl)
    (show _ = [] ++ [.ref 0] from rfl) ?_)
  -- the id of the real part
  refine Leads.cons (leads_push one.ordinary one.run ?_)
  refine Leads.cons (leads_binPersId (show _ = [.ref 0] ++ [.str "one"] from rfl) rfl rfl ?_)
  refine Leads.cons (leads_push (.of trivial rfl) rfl ?_)
  refine Leads.cons (leads_shortTuple (.of trivial rfl) rfl
    (show _ = [.ref 0] ++ [.float doubleFive, .float doubleTwo] from rfl) rfl ?_)
  refine Leads.cons (leads_remember (.of trivial rfl) (fun _ _ => rfl)
    (show _ = [.ref 0] ++ [.ref 2] from rfl) ?_)
  refine Leads.cons (leads_reduce (show _ = [] ++ [.ref 0] ++ [.ref 2] from rfl) rfl rfl rfl
    (.inl ⟨_, _, (Trip.callSymbol_builtin fun _ => rfl).trans (Trip.run_complex _ _), ?_⟩))
  refine leads_binPersId (show _ = [] ++ [.complex doubleFive doubleTwo] from rfl) rfl rfl ?_
  exact ⟨rfl, rfl⟩

end Decoder

/-- Where a complex number is an id, the parts of it may have ids that come before it in the stream, and
    then another number than the one that was given is asked for. -/
theorem persistentIds_complex :
    ∃ s' s'', Encoder.dumps (giving 2 partId) rootStore (.ref 0) = (.ok partBytes, s') ∧
      slips.read s' = [.complex doubleOne doubleTwo, .str "one"] ∧
      Decoder.loads (finding partFind) {} partBytes = (.ok (.str "wrong"), s'') ∧
      slips.read s'' = [.str "one", .complex doubleFive doubleTwo] := by
  have spelled : Spells (Decoder.partStream ++ [⟨.stop, ()⟩]) partBytes := Spells.all _
  rcases Decoder.loads_of_leads (Q := fun v m => v = .str "wrong" ∧ slips.read m.store = _) spelled
    (by decide) (by decide) (by decide) (by decide)
    (Decoder.leads_partStream.mono fun m h => ⟨[], .str "wrong", h.1, rfl, h.2⟩) with
    ⟨v, m, run, rfl, noted⟩ | ⟨partly, -⟩
  · exact ⟨_, m.store, Encoder.dumps_part, rfl, run, noted⟩
  · exact (partly trivial).elim

end ObjectStream
