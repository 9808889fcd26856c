import ObjectStream.Proofs.Builtins
import ObjectStream.Proofs.Consuming
import ObjectStream.Proofs.Running

/-!
Streams that get an answer.

A run is not cut off before its end, as each of its steps takes a byte. A step by itself ends unless it
compares keys for ever. Without a host that interferes all objects are built from objects that are there
already (`State.Neat`), so only instances can be compared for ever: a byte string whose decoding makes
no instance is answered with a value or with an error (`loads_answers`).
-/

namespace ObjectStream

/-! ## Reads that end -/

namespace Frame.Reader

theorem readSource_ne_endless (f : Source → Except String (Bytes × Source)) (r r' : Reader) :
    readSource f r ≠ .error .endless r' := by
  unfold readSource
  dsimp only
  split <;> exact fun same => by cases same

theorem read_ne_endless (n : Nat) (r r' : Reader) : read n r ≠ .error .endless r' := by
  unfold read
  split
  · split
    · exact readSource_ne_endless _ _ r'
    · dsimp only
      split <;> exact fun same => by cases same
  · exact readSource_ne_endless _ _ r'

theorem readLine_ne_endless (r r' : Reader) : readLine r ≠ .error .endless r' := by
  unfold readLine
  split
  · split
    · exact readSource_ne_endless _ _ r'
    · dsimp only
      split <;> exact fun same => by cases same
  · exact readSource_ne_endless _ _ r'

theorem loadFrame_ne_endless (length : Nat) (r r' : Reader) :
    loadFrame length r ≠ .error .endless r' := by
  unfold loadFrame
  split
  · exact fun same => by cases same
  · dsimp only
    split
    · exact fun same => by cases same
    · split <;> exact fun same => by cases same

end Frame.Reader

namespace Decoder

variable {H α β : Type}

/-! ## Objects from earlier objects -/

/-- The objects are built from earlier ones, and whatever the decoder holds is there. -/
structure State.Neat (st : State H) : Prop where
  store : st.store.Neat
  stack : ∀ v ∈ st.stack, st.store.Has v
  marks : ∀ saved ∈ st.marks, ∀ v ∈ saved, st.store.Has v
  memo : ∀ (id : Nat) v, st.memo[id]? = some v → st.store.Has v
  buffers : ∀ vs, st.buffers = some vs → ∀ v ∈ vs, st.store.Has v

/-- The state stays neat, and only instances make a run go on for ever. -/
def building : Discipline H where
  Good st := st.Neat
  Later st st' := st.store.Follows st'.store
  Knows st v := st.store.Has v
  Fits st cell := st.store.Admits cell
  Breaks _ e st' := e = .endless → st'.store.Peopled

theorem building_lawful : (building : Discipline H).Lawful where
  refl st := .refl st.store
  trans h h' := h.trans h'
  breaks _ ends same := absurd same ends
  breaks_later _ h := h
  knows_later later h := later.has h

namespace State.Neat

variable {st : State H} {s : Store H} {v : Value}

/-- The objects are replaced by later ones. -/
theorem withStore (h : st.Neat) (neat : s.Neat) (later : st.store.Follows s) :
    ({ st with store := s } : State H).Neat where
  store := neat
  stack v mem := later.has (h.stack v mem)
  marks saved mem v mem' := later.has (h.marks saved mem v mem')
  memo id v found := later.has (h.memo id v found)
  buffers vs same v mem := later.has (h.buffers vs same v mem)

theorem withStack {stack : Array Value} (h : st.Neat) (has : ∀ v ∈ stack, st.store.Has v) :
    ({ st with stack := stack } : State H).Neat :=
  { h with stack := has }

theorem push (h : st.Neat) (has : st.store.Has v) :
    ({ st with stack := st.stack.push v } : State H).Neat :=
  h.withStack fun u mem => by
    rcases Array.mem_push.1 mem with former | rfl
    · exact h.stack u former
    · exact has

theorem pop (h : st.Neat) : ({ st with stack := st.stack.pop } : State H).Neat :=
  h.withStack fun u mem => by
    rw [← Array.mem_toList_iff, Array.toList_pop] at mem
    exact h.stack u (Array.mem_toList_iff.1 (List.mem_of_mem_dropLast mem))

theorem back (h : st.Neat) (found : st.stack.back? = some v) : st.store.Has v :=
  h.stack v (Array.mem_of_back? found)

end State.Neat

section
variable {st : State H} {v : Value}

theorem building_alloc {cell : Cell H} (admits : st.store.Admits cell) :
    building.Gives st (alloc cell) := by
  intro neat
  have later := Store.Follows.push st.store cell
  refine ⟨neat.withStore (neat.store.push admits) later, later, ?_⟩
  rintro _ ⟨⟩
  exact Nat.lt_of_lt_of_eq (Nat.lt_succ_self _) (Store.size_push st.store cell).symm

theorem building_push {cfg : Config H} (has : st.store.Has v) : building.Safe st (push cfg v) :=
  Discipline.Lawful.goes_get fun _ => building_lawful.goes_check
    (Discipline.Lawful.goes_modify fun neat => ⟨neat.push has, .refl _, trivial⟩)

theorem building_top (op : Opcode) : building.Gives st (top op) := by
  refine Discipline.Lawful.goes_get fun neat => ?_
  cases found : st.stack.back? with
  | none => exact building_lawful.goes_fail _
  | some v => exact building_lawful.goes_pure (neat.back found)

theorem building_pop (op : Opcode) : building.Gives st (pop op) := by
  refine Discipline.Lawful.goes_get fun neat => ?_
  cases found : st.stack.back? with
  | none => exact building_lawful.goes_fail _
  | some v => exact fun _ => ⟨neat.pop, .refl _, neat.back found⟩

theorem building_replaceTop (op : Opcode) (has : st.store.Has v) :
    building.Safe st (replaceTop op v) := by
  refine building_lawful.goes_bind (building_top op) fun _ st' later _ => ?_
  exact Discipline.Lawful.goes_modify fun neat =>
    ⟨neat.pop.push (later.has has), .refl _, trivial⟩

theorem building_mark : building.Safe st mark :=
  Discipline.Lawful.goes_modify fun neat => ⟨{ neat with
    stack := fun v mem => absurd mem (Array.not_mem_empty v)
    marks := fun saved mem => by
      rcases List.mem_cons.1 mem with rfl | mem
      · exact neat.stack
      · exact neat.marks saved mem }, .refl _, trivial⟩

theorem building_popMark (op : Opcode) :
    building.Goes st (popMark op) fun items st' => building.KnowsAll st' items.toList := by
  refine Discipline.Lawful.goes_get fun neat => ?_
  cases marks : st.marks with
  | nil => exact building_lawful.goes_fail _
  | cons saved rest =>
    intro _
    refine ⟨{ neat with stack := ?_, marks := ?_ }, .refl _, fun v mem => ?_⟩
    · exact neat.marks saved (by rw [marks]; exact List.mem_cons_self ..)
    · exact fun other mem => neat.marks other (by rw [marks]; exact List.mem_cons_of_mem _ mem)
    · exact neat.stack v (Array.mem_toList_iff.1 mem)

theorem building_fetchMemo (cfg : Config H) (id : Nat) : building.Safe st (fetchMemo cfg id) := by
  refine Discipline.Lawful.goes_get fun neat => ?_
  cases found : st.memo[id]? with
  | none => exact building_lawful.goes_fail _
  | some v => exact building_push (neat.memo id v found)

theorem building_putMemo (cfg : Config H) (op : Opcode) (id : Nat) :
    building.Safe st (putMemo cfg op id) := by
  refine building_lawful.goes_bind (building_top op) fun v st' _ has => ?_
  refine Discipline.Lawful.goes_get fun _ => building_lawful.goes_check ?_
  refine Discipline.Lawful.goes_modify fun neat => ⟨{ neat with memo := ?_ }, .refl _, trivial⟩
  intro id' u found
  rw [Std.HashMap.getElem?_insert] at found
  split at found
  · cases found
    exact has
  · exact neat.memo id' u found

theorem building_replaceMemo (old : Nat) (has : st.store.Has v) :
    building.Safe st (replaceMemo old v) := by
  refine Discipline.Lawful.goes_modify fun neat => ⟨{ neat with memo := ?_ }, .refl _, trivial⟩
  intro id u found
  rw [Std.HashMap.getElem?_map] at found
  obtain ⟨former, found', rfl⟩ := Option.map_eq_some_iff.1 found
  split
  · exact has
  · exact neat.memo id former found'

/-- What a call leaves behind. -/
theorem building_hosted {action : Action H α} {Q : α → Store H → Prop}
    (tame : st.store.Tame action Q) : building.Goes st (hosted action) fun outcome st' =>
      ∀ a, outcome = .ok a → Q a st'.store := by
  intro neat
  have ends := tame neat.store
  cases run : action st.store with
  | ok a s =>
    have called : hosted action st = .ok (.ok a) { st with store := s } := by
      simp only [hosted, run]
    rw [run] at ends
    rw [called]
    obtain ⟨neat', later, here⟩ := ends
    refine ⟨neat.withStore neat' later, later, ?_⟩
    rintro _ ⟨⟩
    exact here
  | error e s =>
    rw [run] at ends
    cases e with
    | endless =>
      have called : hosted action st = .error .endless { st with store := s } := by
        simp only [hosted, run]
      rw [called]
      exact fun _ => ends
    | failed text =>
      have called : hosted action st = .ok (.error text) { st with store := s } := by
        simp only [hosted, run]
      rw [called]
      exact ⟨neat.withStore ends.1 ends.2, ends.2, fun _ fails => by cases fails⟩

theorem building_reported {action : Action H α} {Q : α → Store H → Prop} (label : String)
    (tame : st.store.Tame action Q) : building.Goes st (reported label action) fun outcome st' =>
      ∀ a, outcome = .ok a → Q a st'.store := by
  have trace : ∀ (st : State H) (f : State H → Trace),
      building.Goes st (modify fun st => { st with trace := f st }) fun _ st' =>
        st'.store = st.store := fun st f =>
    Discipline.Lawful.goes_modify fun neat => ⟨{ neat with }, .refl _, rfl⟩
  refine building_lawful.goes_bind (trace st _) fun _ st₁ _ same => ?_
  refine building_lawful.goes_bind (building_hosted (same ▸ tame)) fun outcome st₂ _ here => ?_
  refine building_lawful.goes_bind (trace st₂ _) fun _ st₃ _ same' => ?_
  refine building_lawful.goes_pure fun a fine => ?_
  rw [same']
  exact here a fine

theorem building_keyed {outcome : Except KeyError α}
    (fails : st.Neat → outcome = .error .endless → st.store.Peopled) :
    building.Goes st (keyed outcome) fun a st' => st' = st ∧ outcome = .ok a := by
  cases outcome with
  | ok a => exact building_lawful.goes_pure ⟨rfl, rfl⟩
  | error e =>
    cases e with
    | unhashable name => exact building_lawful.goes_fail _
    | endless => exact fun neat _ => fails neat rfl

/-- The objects after one of them has changed. -/
theorem building_modify {id : Nat} {change : Cell H → Cell H}
    (lasts : ∀ cell : Cell H, cell.Lasts (change cell))
    (admits : st.store.Neat → ∀ cell, st.store.cells[id]? = some cell → st.store.Admits (change cell))
    (older : ∀ cell : Cell H, cell.Older id → (change cell).Older id) :
    building.Safe st (modify fun st => { st with store := st.store.modify id change }) := by
  refine Discipline.Lawful.goes_modify fun neat => ?_
  have later := Store.Follows.modify st.store id lasts
  exact ⟨neat.withStore (neat.store.modify lasts (admits neat.store) older) later, later, trivial⟩

theorem building_extend {items : Array Value} (id : Nat)
    (has : ∀ v ∈ items.toList, st.store.Has v) : building.Safe st
      (modify fun st => { st with store := st.store.modify id (extended items) }) := by
  refine building_modify (fun cell => ?_) (fun neat cell found => ?_) (fun cell older => ?_)
  · cases cell with
    | list former => trivial
    | _ => exact .refl _
  · have admits := neat.admits id cell found
    cases cell with
    | list former =>
      refine ⟨fun _ same => (by cases same), fun v mem => ?_, admits.solid⟩
      have mem : v ∈ (former ++ items).toList := mem
      rw [Array.toList_append] at mem
      rcases List.mem_append.1 mem with mem | mem
      · exact admits.has v mem
      · exact has v mem
    | _ => exact admits
  · cases cell with
    | list former => trivial
    | _ => exact older

theorem building_putEntry {image : Array UInt8} {key content : Value} (id : Nat)
    (place : Option Nat) (has : st.store.Has key) (solid : st.store.Solid key)
    (has' : st.store.Has content) : building.Safe st (modify fun st => { st with
      store := st.store.modify id (Cell.withEntries fun d => d.put place image key content) }) := by
  refine building_modify (fun cell => ?_) (fun neat cell found => ?_) (fun cell older => ?_)
  · cases cell with
    | inst c t => exact ⟨_, rfl⟩
    | dict d => trivial
    | _ => exact .refl _
  · have admits := neat.admits id cell found
    have put := admits.stocked.put place image solid has has'
    cases cell with
    | inst c t => exact put.admits_inst c
    | dict d => exact put.admits_dict
    | _ => exact admits
  · cases cell with
    | inst c t => trivial
    | dict d => trivial
    | _ => exact older

theorem building_putMember {image : Array UInt8} {member : Value} (id : Nat)
    (has : st.store.Has member) (solid : st.store.Solid member) :
    building.Safe st (modify fun st => { st with
      store := st.store.modify id (withMembers fun m => m.put none image member ()) }) := by
  refine building_modify (fun cell => ?_) (fun neat cell found => ?_) (fun cell older => ?_)
  · cases cell with
    | set members => trivial
    | _ => exact .refl _
  · have admits := neat.admits id cell found
    cases cell with
    | set members => exact (admits.stocked_set.put none image solid has trivial).admits_set
    | _ => exact admits
  · cases cell with
    | set members => trivial
    | _ => exact older

variable [HostObject H]

/-- An entry is stored among the others. -/
theorem building_storeEntry {key content : Value} (id : Nat) (has : st.store.Has key)
    (has' : st.store.Has content) : building.Safe st (storeEntry id key content) := by
  refine Discipline.Lawful.goes_get fun _ => building_lawful.goes_bind
    (building_keyed fun neat fails => absurd fails (Store.image_ne_endless neat.store)) ?_
  rintro image st _ ⟨rfl, hash⟩
  intro neat
  have solid := Store.solid_of_image neat.store hash
  cases found : st.store.cells[id]? with
  | none =>
    dsimp only
    cases lookup : (Keyed.empty : Dict).find (HostObject.probing H) image
        fun old => st.store.equalFor (some id) old key with
    | none => exact fun _ => Store.peopled_of_find neat.store (fun _ none => by cases none) solid lookup
    | some place => exact building_putEntry id place has solid has' neat
  | some cell =>
    dsimp only
    cases lookup : cell.entries.find (HostObject.probing H) image
        fun old => st.store.equalFor (some id) old key with
    | none =>
      exact fun _ => Store.peopled_of_find neat.store (neat.store.admits id cell found).stocked.solid
        solid lookup
    | some place => exact building_putEntry id place has solid has' neat

/-- A member is added unless it is there already. -/
theorem building_addMember {member : Value} (id : Nat) (has : st.store.Has member) :
    building.Safe st (addMember id member) := by
  refine Discipline.Lawful.goes_get fun _ => building_lawful.goes_bind
    (building_keyed fun neat fails => absurd fails (Store.image_ne_endless neat.store)) ?_
  rintro image st _ ⟨rfl, hash⟩
  intro neat
  have solid := Store.solid_of_image neat.store hash
  have added : ∀ place : Option Nat, building.Safe st (if place.isNone then modify fun st => { st with
      store := st.store.modify id (withMembers fun m => m.put none image member ()) } else pure ()) :=
    fun place => Discipline.Lawful.goes_ite (building_putMember id has solid)
      (building_lawful.goes_pure trivial)
  have none : ∀ k ∈ (Keyed.empty : Members).keys, st.store.Solid k := fun _ none => by cases none
  cases found : st.store.cells[id]? with
  | none =>
    dsimp only
    cases lookup : (Keyed.empty : Members).find (HostObject.probing H) image
        fun old => st.store.equalFor (some id) old member with
    | none => exact fun _ => Store.peopled_of_find neat.store none solid lookup
    | some place => exact added place neat
  | some cell =>
    cases cell with
    | set members =>
      dsimp only
      cases lookup : members.find (HostObject.probing H) image
          fun old => st.store.equalFor (some id) old member with
      | none =>
        exact fun _ => Store.peopled_of_find neat.store (neat.store.admits id _ found).solid solid lookup
      | some place => exact added place neat
    | _ =>
      dsimp only
      cases lookup : (Keyed.empty : Members).find (HostObject.probing H) image
        fun old => st.store.equalFor (some id) old member with
      | none => exact fun _ => Store.peopled_of_find neat.store none solid lookup
      | some place => exact added place neat

omit [HostObject H] in
/-- What is read does not touch the objects. -/
theorem building_reading {action : EStateM Error Frame.Reader α}
    (ends : ∀ r r', action r ≠ .error .endless r') (st : State H) :
    building.Safe st (reading action) := by
  intro neat
  cases run : action st.input with
  | ok a input =>
    have read : reading action st = .ok a { st with input := input } := by
      simp only [reading, run]
    rw [read]
    exact ⟨{ neat with }, .refl _, trivial⟩
  | error e input =>
    have read : reading action st = .error e { st with input := input } := by
      simp only [reading, run]
    rw [read]
    rintro rfl
    exact absurd run (ends _ _)

omit [HostObject H] in
theorem building_readOpcode (st : State H) : building.Safe st readOpcode := by
  refine building_lawful.goes_bind (P := fun _ _ => True)
    (Discipline.Lawful.goes_get fun _ => building_lawful.goes_pure trivial) fun offset st₁ _ _ => ?_
  refine building_lawful.goes_bind
    (building_reading (Frame.Reader.read_ne_endless 1) st₁) fun bs st₂ _ _ => ?_
  cases bs with
  | nil => exact fun _ same => by cases same
  | cons byte rest =>
    dsimp only
    cases Opcode.ofByte? byte with
    | none => exact building_lawful.goes_fail _
    | some op =>
      exact building_lawful.goes_bind (P := fun _ _ => True)
        (Discipline.Lawful.goes_modify fun neat => ⟨{ neat with }, .refl _, trivial⟩)
        fun _ _ _ _ => building_lawful.goes_pure trivial

omit [HostObject H] in
theorem building_openFrame (cfg : Config H) (st : State H) (length : Nat) :
    building.Safe st (openFrame cfg length) := by
  unfold openFrame
  refine building_lawful.goes_check (building_lawful.goes_bind (P := fun _ _ => True)
    (Discipline.Lawful.goes_get fun _ => building_lawful.goes_pure trivial) fun place st₁ _ _ => ?_)
  refine building_lawful.goes_bind
    (building_reading (Frame.Reader.loadFrame_ne_endless length) st₁) fun _ st₂ _ _ => ?_
  exact Discipline.Lawful.goes_modify fun neat => ⟨{ neat with }, .refl _, trivial⟩

omit [HostObject H] in
theorem building_nextBuffer (st : State H) : building.Gives st nextBuffer := by
  refine Discipline.Lawful.goes_get fun neat => ?_
  have known := neat.buffers
  rcases buffers : st.buffers with _ | _ | ⟨buffer, rest⟩
  · exact building_lawful.goes_fail _
  · exact building_lawful.goes_fail _
  · refine fun _ => ⟨{ neat with buffers := ?_ }, .refl _, ?_⟩
    · rintro _ ⟨⟩ v mem
      exact known _ buffers v (List.mem_cons_of_mem _ mem)
    · exact known _ buffers buffer (List.mem_cons_self ..)

/-- The host does not interfere: it has no functions of its own, does not set the state of instances,
    and stores no values elsewhere. -/
structure Config.Idle (cfg : Config H) : Prop where
  mute : cfg.host.Mute
  hooks : ∀ key, (cfg.host.hooks key).setState = none
  elsewhere : cfg.persistentLoad = none

omit [HostObject H] in
theorem State.Neat.no_object {id : Nat} {content : H} (neat : st.Neat) :
    st.store.object? (.ref id) ≠ some content := by
  intro object
  unfold Store.object? at object
  split at object
  · next found => exact (neat.store.admits id _ found).kind _ rfl
  · cases object

/-- Where the host does not interfere, a run keeps the objects neat. -/
theorem building_observed {cfg : Config H} (idle : cfg.Idle) : building.Observed cfg where
  toLawful := building_lawful
  atom := Store.has_atom
  held neat found := neat.store.held found
  fits kind keys contents := by
    refine ⟨kind, fun v mem => ?_, fun key mem => ?_⟩
    · rw [Cell.children, keys] at mem
      exact contents v mem
    · rw [keys] at mem
      cases mem
  dict neat known d made := (Store.dictOf_cases neat.store known).1 d made
  dict_endless neat known fails _ := (Store.dictOf_cases neat.store known).2 fails
  frozenset neat known t made := ((Store.membersOf_cases neat.store known).1 t made).2
  frozenset_endless neat known fails _ := (Store.membersOf_cases neat.store known).2 fails
  alloc := building_alloc
  push := building_push
  pop _ op := building_pop op
  top _ op := building_top op
  replaceTop := building_replaceTop
  mark _ := building_mark
  popMark _ op := building_popMark op
  fetchMemo _ id := building_fetchMemo cfg id
  putMemo _ op id := building_putMemo cfg op id
  replaceMemo := building_replaceMemo
  extend := building_extend
  storeEntry := building_storeEntry
  addMember := building_addMember
  readExactly st op count :=
    building_lawful.goes_bind (building_reading (Frame.Reader.read_ne_endless count) st)
      fun bs _ _ _ => building_lawful.goes_check (f := fun _ => pure bs)
        (building_lawful.goes_pure trivial)
  readLine st op :=
    building_lawful.goes_bind (building_reading Frame.Reader.readLine_ne_endless st)
      fun _ _ _ _ => Discipline.Lawful.goes_ite (building_lawful.goes_pure trivial)
        (building_lawful.goes_fail _)
  readOpcode := building_readOpcode
  openFrame := building_openFrame cfg
  announce _ _ := Discipline.Lawful.goes_modify fun neat => ⟨{ neat with }, .refl _, trivial⟩
  nextBuffer := building_nextBuffer
  callSymbol label _ _ := building_reported label (Store.tame_carryOut idle.mute _)
  create label _ _ := building_reported label (Store.tame_carryOut idle.mute _)
  setState _ hooked _ := absurd ((idle.hooks _).symm.trans hooked) fun same => by cases same
  stateAction _ _ object _ neat := absurd object neat.no_object
  append object _ _ neat := absurd object neat.no_object
  setItem object _ _ _ neat := absurd object neat.no_object
  persistentLoad hooked _ := absurd (idle.elsewhere.symm.trans hooked) fun same => by cases same

end

/-! ## Byte strings -/

/-- A decoder that has read nothing. -/
theorem State.neat_ofSource (source : Source) (trace : Trace) :
    (State.ofSource ({} : Store H) source none trace).Neat where
  store := Store.Neat.empty
  stack v mem := absurd mem (Array.not_mem_empty v)
  marks saved mem := by cases mem
  memo id v found := by
    rw [show (State.ofSource ({} : Store H) source none trace).memo = ∅ from rfl,
      Std.HashMap.getElem?_empty] at found
    cases found
  buffers vs same := by cases same

section
variable [HostObject H]

variable {bs : Bytes} {fuel : Nat}

/-- The outcome of a run, with the frame behind it closed. -/
def closed (r : EStateM.Result Error (State H) Value) : EStateM.Result Error (State H) Value :=
  match r with
  | .ok v st => .ok v (closeFrame st)
  | .error e st => .error e (closeFrame st)

/-- A byte string is answered with what enough steps lead to. -/
theorem load_of_run (cfg : Config H) (store : Store H) (buffers : Option (List Value))
    (trace : Trace) (enough : bs.length < fuel) :
    load cfg (.ofSource store (.ofBytes bs) buffers trace) =
      closed (run cfg fuel (.ofSource store (.ofBytes bs) buffers trace)) := by
  let st : State H := .ofSource store (.ofBytes bs) buffers trace
  have remaining : st.input.remaining = bs.length := remaining_ofSource bs
  show closed (run cfg (st.input.remaining + 1) st) = closed (run cfg fuel st)
  rw [run_enough cfg (Nat.lt_succ_self _) (remaining ▸ enough)]

/-- A load that goes on for ever has made an instance. It is not cut off, as it has enough steps. -/
theorem peopled_of_endless {cfg : Config H} (idle : cfg.Idle) {st st' : State H} (neat : st.Neat)
    (h : load cfg st = .error .endless st') : st'.store.Peopled := by
  obtain ⟨st'', run, rfl⟩ := load_eq_error h
  let start : State H := { st with stack := #[], marks := [], marked := 0, protocol := 0 }
  have begun : start.Neat := { neat with
    stack := fun v mem => absurd mem (Array.not_mem_empty v)
    marks := fun saved mem => by cases mem }
  have goes : building.Goes start _ _ :=
    (building_observed idle).goes_run fun few => absurd few (Nat.not_succ_le_self _)
  have ends := goes begun
  rw [run] at ends
  rw [show (closeFrame st'').store = st''.store from congrArg Machine.store (closeFrame_machine st'')]
  exact ends rfl

/-- Every byte string is answered: one step for each byte is enough, so that no run is cut off, and each
    step ends, unless the decoding has made an instance. -/
theorem loads_answers {cfg : Config H} (idle : cfg.Idle) (bs : Bytes) :
    (∀ fuel, bs.length < fuel →
      run cfg fuel (.ofSource {} (.ofBytes bs) none {}) =
        run cfg (bs.length + 1) (.ofSource {} (.ofBytes bs) none {})) ∧
    ∀ s, loads cfg {} bs = (.error .endless, s) →
      ∃ (i : Nat) (c : Class) (t : Dict), s.cells[i]? = some (.inst c t) := by
  let st : State H := .ofSource {} (.ofBytes bs) none {}
  have remaining : st.input.remaining = bs.length := remaining_ofSource bs
  constructor
  · intro fuel enough
    apply run_enough cfg
    · rw [remaining]
      exact enough
    · rw [remaining]
      exact Nat.lt_succ_self _
  · intro s broken
    unfold loads at broken
    split at broken
    · cases broken
    · next loaded =>
      cases broken
      exact peopled_of_endless idle (State.neat_ofSource _ _) loaded

end

/-- An item of a dictionary may have a tuple as its key. -/
theorem loads_answers_key :
    let cfg : Config Empty := { registry := .seeded 0, host := {} }
    let bs : Bytes := [0x80, 2, 0x7d, 0x4b, 1, 0x85, 0x4e, 0x73, 0x2e]
    cfg.Idle ∧ (∀ fuel, bs.length < fuel →
      run cfg fuel (.ofSource {} (.ofBytes bs) none {}) =
        run cfg (bs.length + 1) (.ofSource {} (.ofBytes bs) none {})) ∧
    ∀ s, loads cfg {} bs = (.error .endless, s) →
      ∃ (i : Nat) (c : Class) (t : Dict), s.cells[i]? = some (.inst c t) :=
  have idle : Config.Idle { registry := .seeded 0, host := {} } :=
    ⟨fun _ _ _ => ⟨_, rfl⟩, fun _ => rfl, rfl⟩
  ⟨idle, loads_answers idle [0x80, 2, 0x7d, 0x4b, 1, 0x85, 0x4e, 0x73, 0x2e]⟩

end Decoder

end ObjectStream
