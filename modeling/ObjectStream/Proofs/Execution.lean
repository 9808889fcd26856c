import ObjectStream.Proofs.Action
import ObjectStream.Proofs.Graph
import ObjectStream.Proofs.Operands

/-!
Steps of the decoder.

Instructions only move values between the stack, the memo and the objects, whatever the stream is. A
`Discipline` says what is kept meanwhile: which states are good, which values a good state may hold,
and in what a run may break off. `Observed` lists the basic steps that have to keep to it. Then every
instruction does (`goes_execute`), and so does every step (`goes_step`): one lemma for each function of
the decoder, and none of them looks at the discipline.
-/

namespace ObjectStream.Decoder

variable {H α β : Type}

/-- What is kept along the runs of a decoder. -/
structure Discipline (H : Type) where
  /-- The state may stand between two steps. -/
  Good : State H → Prop
  /-- The first state may lead to the second. -/
  Later : State H → State H → Prop
  /-- The state may hold the value. -/
  Knows : State H → Value → Prop
  /-- The object may be added to the objects of the state. -/
  Fits : State H → Cell H → Prop
  /-- A run from the first state may fail with the error in the second. -/
  Breaks : State H → Error → State H → Prop

namespace Discipline

variable (D : Discipline H)

/-- The state may hold all the values. -/
def KnowsAll (st : State H) (vs : List Value) : Prop := ∀ v ∈ vs, D.Knows st v

/-- The state may hold the keys and the contents of all the entries. -/
def KnowsEntries (st : State H) (entries : List (Value × Value)) : Prop :=
  ∀ e ∈ entries, D.Knows st e.1 ∧ D.Knows st e.2

/-- A run from `st` has ended in a good state and a value that satisfy the condition, or has broken
    off as it may. -/
def Ends (st : State H) (Q : α → State H → Prop) : EStateM.Result Error (State H) α → Prop
  | .ok a st' => D.Good st' ∧ D.Later st st' ∧ Q a st'
  | .error e st' => D.Breaks st e st'

/-- The run of the action from a good state ends as it should. -/
def Goes (st : State H) (x : Decode H α) (Q : α → State H → Prop) : Prop :=
  D.Good st → D.Ends st Q (x st)

/-- The action goes through without a value of interest. -/
abbrev Safe (st : State H) (x : Decode H α) : Prop := D.Goes st x fun _ _ => True

/-- The action hands back a value that the state behind it may hold. -/
abbrev Gives (st : State H) (x : Decode H Value) : Prop := D.Goes st x fun v st' => D.Knows st' v

/-- The action hands back values that the state behind it may hold. -/
abbrev GivesAll (st : State H) (x : Decode H (List Value)) : Prop :=
  D.Goes st x fun vs st' => D.KnowsAll st' vs

/-- The call hands back a value that the state behind it may hold, unless it fails. -/
abbrev Returns (st : State H) (x : Decode H (Except String Value)) : Prop :=
  D.Goes st x fun outcome st' => ∀ v, outcome = .ok v → D.Knows st' v

/-- What the discipline asks of single states carries over to sequences of steps. -/
structure Lawful : Prop where
  refl (st : State H) : D.Later st st
  trans {st st' st'' : State H} (h : D.Later st st') (h' : D.Later st' st'') : D.Later st st''
  breaks {st : State H} {e : Error} (good : D.Good st) (ends : e ≠ .endless) : D.Breaks st e st
  breaks_later {st st' st'' : State H} {e : Error} (later : D.Later st st')
    (h : D.Breaks st' e st'') : D.Breaks st e st''
  knows_later {st st' : State H} {v : Value} (later : D.Later st st') (h : D.Knows st v) :
    D.Knows st' v

/-- The basic steps of a decoder keep to the discipline. -/
structure Observed [HostObject H] (cfg : Config H) : Prop extends D.Lawful where
  /-- A value that is no object may be held by any state. -/
  atom {st : State H} {v : Value} (h : ∀ i, v ≠ .ref i) : D.Knows st v
  /-- A good state may hold what its objects hold. -/
  held {st : State H} {v : Value} {cell : Cell H} (good : D.Good st)
    (found : st.store.cell? v = some cell) : D.KnowsAll st cell.children
  /-- An object without keys fits if it holds what the state may hold. -/
  fits {st : State H} {cell : Cell H} (kind : ∀ content, cell ≠ .object content)
    (keys : cell.keys = []) (contents : D.KnowsAll st cell.contents) : D.Fits st cell
  dict {st : State H} {entries : List (Value × Value)} (good : D.Good st)
    (known : D.KnowsEntries st entries) {d : Dict} (made : st.store.dictOf entries = .ok d) :
    D.Fits st (.dict d)
  dict_endless {st : State H} {entries : List (Value × Value)} (good : D.Good st)
    (known : D.KnowsEntries st entries) (fails : st.store.dictOf entries = .error .endless) :
    D.Breaks st .endless st
  frozenset {st : State H} {vs : List Value} (good : D.Good st) (known : D.KnowsAll st vs)
    {t : Members} (made : st.store.membersOf vs = .ok t) : D.Fits st (.frozenset t)
  frozenset_endless {st : State H} {vs : List Value} (good : D.Good st) (known : D.KnowsAll st vs)
    (fails : st.store.membersOf vs = .error .endless) : D.Breaks st .endless st
  -- the stack, the memo and the objects
  alloc {st : State H} {cell : Cell H} (fits : D.Fits st cell) : D.Gives st (alloc cell)
  push {st : State H} {v : Value} (known : D.Knows st v) : D.Safe st (push cfg v)
  pop (st : State H) (op : Opcode) : D.Gives st (pop op)
  top (st : State H) (op : Opcode) : D.Gives st (top op)
  replaceTop {st : State H} {v : Value} (op : Opcode) (known : D.Knows st v) :
    D.Safe st (replaceTop op v)
  mark (st : State H) : D.Safe st mark
  popMark (st : State H) (op : Opcode) :
    D.Goes st (popMark op) fun items st' => D.KnowsAll st' items.toList
  fetchMemo (st : State H) (id : Nat) : D.Safe st (fetchMemo cfg id)
  putMemo (st : State H) (op : Opcode) (id : Nat) : D.Safe st (putMemo cfg op id)
  replaceMemo {st : State H} {v : Value} (old : Nat) (known : D.Knows st v) :
    D.Safe st (replaceMemo old v)
  extend {st : State H} {items : Array Value} (id : Nat) (known : D.KnowsAll st items.toList) :
    D.Safe st (modify fun st => { st with store := st.store.modify id (extended items) })
  storeEntry {st : State H} {key content : Value} (id : Nat) (known : D.Knows st key)
    (known' : D.Knows st content) : D.Safe st (storeEntry id key content)
  addMember {st : State H} {member : Value} (id : Nat) (known : D.Knows st member) :
    D.Safe st (addMember id member)
  -- the input
  readExactly (st : State H) (op : Opcode) (count : Nat) : D.Safe st (readExactly op count)
  readLine (st : State H) (op : Opcode) : D.Safe st (readLine op)
  readOpcode (st : State H) : D.Safe st readOpcode
  openFrame (st : State H) (length : Nat) : D.Safe st (openFrame cfg length)
  announce (st : State H) (p : Nat) : D.Safe st (modify fun st => { st with protocol := p })
  nextBuffer (st : State H) : D.Gives st nextBuffer
  -- the host
  callSymbol {st : State H} {args : List Value} (label : String) (symbol : Symbol)
    (known : D.KnowsAll st args) :
    D.Returns st (reported label (cfg.host.callSymbol symbol args))
  create {st : State H} {cls : Value} {args : List Value} (label : String) (known : D.Knows st cls)
    (known' : D.KnowsAll st args) : D.Returns st (reported label (cfg.host.create cls args))
  setState {st : State H} {c : Class} {hook : Nat → Value → Action H Unit} {state : Value}
    (id : Nat) (hooked : (cfg.host.hooks c.key).setState = some hook) (known : D.Knows st state) :
    D.Safe st (reported c.qualname (hook id state))
  stateAction {st : State H} {id : Nat} {content : H} {state : Value} (label : String) (op : Opcode)
    (object : st.store.object? (.ref id) = some content) (known : D.Knows st state) :
    D.Goes st (reported label (stateAction cfg op id content state)) fun outcome st' =>
      ∀ v, outcome = .ok (some v) → D.Knows st' v
  append {st : State H} {id : Nat} {content : H} {item : Value} {action : Action H Unit}
    (object : st.store.object? (.ref id) = some content)
    (hooked : HostObject.append id content item = some action) (known : D.Knows st item) :
    D.Safe st (hosted action)
  setItem {st : State H} {id : Nat} {content : H} {key value : Value} {action : Action H Unit}
    (object : st.store.object? (.ref id) = some content)
    (hooked : HostObject.setItem id content key value = some action) (known : D.Knows st key)
    (known' : D.Knows st value) : D.Safe st (hosted action)
  persistentLoad {st : State H} {pid : Value} {hook : Value → Action H Value}
    (hooked : cfg.persistentLoad = some hook) (known : D.Knows st pid) :
    D.Returns st (hosted (hook pid))

variable {D} {st st' : State H}

namespace Lawful

variable (laws : D.Lawful)
include laws

/-! ## Sequences -/

theorem all_later {vs : List Value} (later : D.Later st st') (h : D.KnowsAll st vs) :
    D.KnowsAll st' vs :=
  fun v mem => laws.knows_later later (h v mem)

theorem entries_later {entries : List (Value × Value)} (later : D.Later st st')
    (h : D.KnowsEntries st entries) : D.KnowsEntries st' entries :=
  fun e mem => ⟨laws.knows_later later (h e mem).1, laws.knows_later later (h e mem).2⟩

theorem goes_pure {Q : α → State H → Prop} {a : α} (h : Q a st) : D.Goes st (pure a) Q :=
  fun good => ⟨good, laws.refl st, h⟩

theorem goes_fail {Q : α → State H → Prop} (cause : DecodeError) : D.Goes st (fail cause) Q :=
  fun good => laws.breaks good (fun same => by cases same)

theorem goes_bind {P : α → State H → Prop} {Q : β → State H → Prop} {x : Decode H α}
    {f : α → Decode H β} (h : D.Goes st x P)
    (h' : ∀ a st', D.Later st st' → P a st' → D.Goes st' (f a) Q) : D.Goes st (x >>= f) Q := by
  intro good
  have first := h good
  rw [bind_apply]
  cases run : x st with
  | error e st' =>
    rw [run] at first
    exact first
  | ok a st' =>
    rw [run] at first
    obtain ⟨good', later, here⟩ := first
    have second := h' a st' later here good'
    show D.Ends st Q (f a st')
    cases run' : f a st' with
    | error e st'' =>
      rw [run'] at second
      exact laws.breaks_later later second
    | ok b st'' =>
      rw [run'] at second
      exact ⟨second.1, laws.trans later second.2.1, second.2.2⟩

omit laws in
/-- An action that first looks at the state sees a good state. -/
theorem goes_get {Q : α → State H → Prop} {f : State H → Decode H α}
    (h : D.Good st → D.Goes st (f st) Q) : D.Goes st (get >>= f) Q :=
  fun good => h good good

omit laws in
theorem goes_ite {Q : α → State H → Prop} {c : Prop} [Decidable c] {x y : Decode H α}
    (h : D.Goes st x Q) (h' : D.Goes st y Q) : D.Goes st (if c then x else y) Q := by
  by_cases holds : c
  · rwa [if_pos holds]
  · rwa [if_neg holds]

omit laws in
theorem goes_modify {Q : Unit → State H → Prop} {f : State H → State H}
    (h : D.Good st → D.Good (f st) ∧ D.Later st (f st) ∧ Q () (f st)) : D.Goes st (modify f) Q :=
  fun good => h good

/-- An action behind a check. -/
theorem goes_check {Q : α → State H → Prop} {c : Prop} [Decidable c] {cause : DecodeError}
    {f : Unit → Decode H α} (h : D.Goes st (f ()) Q) :
    D.Goes st (if c then fail cause >>= f else f ()) Q :=
  goes_ite (laws.goes_bind (P := fun _ _ => False) (laws.goes_fail cause)
    fun _ _ _ none => none.elim) h

theorem goes_forM {γ : Type} {items : List γ} {f : γ → Decode H Unit} {P : State H → γ → Prop}
    (last : ∀ {st st' : State H} {item : γ}, D.Later st st' → P st item → P st' item)
    (known : ∀ item ∈ items, P st item)
    (each : ∀ (st : State H) item, P st item → D.Safe st (f item)) : D.Safe st (items.forM f) := by
  induction items generalizing st with
  | nil => exact laws.goes_pure trivial
  | cons item rest ih =>
    refine laws.goes_bind (each st item (known item (List.mem_cons_self ..))) ?_
    intro _ st' later _
    exact ih fun item mem => last later (known item (List.mem_cons_of_mem _ mem))

theorem goes_spelled {cause : DecodeError} (spelling : Option α) :
    D.Safe st (spelled cause spelling) := by
  cases spelling with
  | none => exact laws.goes_fail cause
  | some a => exact laws.goes_pure trivial

/-- Goes on with the outcome of a call. -/
theorem goes_called [HostObject H] {Q : α → State H → Prop} {outcome : Except String α}
    (callee : Value) (h : ∀ a, outcome = .ok a → Q a st) : D.Goes st (called callee outcome) Q := by
  cases outcome with
  | ok a => exact laws.goes_pure (h a rfl)
  | error text => exact goes_get fun _ => laws.goes_fail _

end Lawful

namespace Observed

open Lawful

variable [HostObject H] {cfg : Config H} (rules : D.Observed cfg)
include rules

/-! ## Operands and atoms -/

theorem goes_answer (op : Opcode) (request : Request α) : D.Safe st (answer op request) := by
  induction request generalizing st with
  | done a => exact rules.goes_pure trivial
  | fail cause => exact rules.goes_fail cause
  | take count next ih =>
    exact rules.goes_bind (rules.readExactly st op count) fun bs _ _ _ => ih bs
  | line next ih => exact rules.goes_bind (rules.readLine st op) fun line _ _ _ => ih line

theorem knows_ofInt (n : Int) : D.Knows st (.ofInt n) := rules.atom (ofInt_ne_ref n)

theorem knows_integerValue (bytes : Bytes) : D.Knows st (integerValue bytes) := by
  unfold integerValue
  cases TwosComplement.decodeWord? bytes with
  | none => exact rules.knows_ofInt _
  | some n => exact rules.atom fun i same => by cases same

theorem goes_lineValue (op : Opcode) (line : Bytes) : D.Gives st (lineValue op line) := by
  apply goes_ite
  · exact rules.goes_pure (rules.atom fun i same => by cases same)
  · apply goes_ite
    · exact rules.goes_pure (rules.atom fun i same => by cases same)
    · exact rules.goes_bind (rules.goes_spelled _) fun n _ _ _ =>
        rules.goes_pure (rules.knows_ofInt n)

theorem goes_longLineValue (op : Opcode) (line : Bytes) : D.Gives st (longLineValue op line) :=
  rules.goes_bind (rules.goes_spelled _) fun n _ _ _ => rules.goes_pure (rules.knows_ofInt n)

theorem goes_payloadText (op : Opcode) (payload : Bytes) : D.Gives st (payloadText op payload) :=
  rules.goes_bind (rules.goes_spelled _) fun _ _ _ _ =>
    rules.goes_pure (rules.atom fun i same => by cases same)

theorem goes_legacyString (op : Opcode) (raw : Bytes) : D.Gives st (legacyString cfg op raw) := by
  unfold legacyString
  cases cfg.strings with
  | bytes => exact rules.goes_pure (rules.atom fun i same => by cases same)
  | text encoding =>
    exact rules.goes_bind (rules.goes_spelled _) fun _ _ _ _ =>
      rules.goes_pure (rules.atom fun i same => by cases same)

theorem goes_floatLineValue (line : Bytes) : D.Gives st (floatLineValue line) :=
  rules.goes_bind (rules.goes_spelled _) fun _ _ _ _ =>
    rules.goes_pure (rules.atom fun i same => by cases same)

theorem goes_quotedLineValue (line : Bytes) : D.Gives st (quotedLineValue cfg line) :=
  rules.goes_bind (rules.goes_spelled _) fun _ _ _ _ =>
    rules.goes_bind (rules.goes_spelled _) fun _ _ _ _ => rules.goes_legacyString _ _

theorem goes_escapedLineValue (line : Bytes) : D.Gives st (escapedLineValue line) :=
  rules.goes_bind (rules.goes_spelled _) fun _ _ _ _ =>
    rules.goes_pure (rules.atom fun i same => by cases same)

theorem goes_announce (p : UInt8) : D.Safe st (Decoder.announce p) := by
  unfold Decoder.announce
  exact rules.goes_check (rules.announce st _)

/-- A value that was computed from an operand is pushed. -/
theorem goes_pushed {x : Decode H Value} (h : D.Gives st x) :
    D.Safe st (x >>= Decoder.push cfg) :=
  rules.goes_bind h fun _ _ _ known => rules.push known

theorem goes_pushAtom {v : Value} (h : ∀ i, v ≠ .ref i) : D.Safe st (Decoder.push cfg v) :=
  rules.push (rules.atom h)

/-! ## Items of the stack -/

theorem goes_popOnto {op : Opcode} {taken : List Value} (count : Nat)
    (known : D.KnowsAll st taken) : D.GivesAll st (popOnto op taken count) := by
  induction count generalizing st taken with
  | zero => exact rules.goes_pure known
  | succ count ih =>
    refine rules.goes_bind (rules.pop st op) ?_
    intro v st' later here
    apply ih
    intro u mem
    rcases List.mem_cons.1 mem with rfl | mem
    · exact here
    · exact rules.all_later later known u mem

theorem goes_popMany (op : Opcode) (count : Nat) : D.GivesAll st (popMany op count) :=
  goes_get fun _ => rules.goes_check (rules.goes_popOnto count fun _ none => by cases none)

theorem goes_allocTuple {items : List Value} (known : D.KnowsAll st items) :
    D.Gives st (allocTuple items) := by
  cases items with
  | nil => exact rules.goes_pure (rules.atom fun i same => by cases same)
  | cons item rest => exact rules.alloc (rules.fits (fun _ same => by cases same) rfl known)

theorem goes_pushNew {cell : Cell H} (fits : D.Fits st cell) : D.Safe st (pushNew cfg cell) :=
  rules.goes_pushed (rules.alloc fits)

theorem goes_pushShortTuple (op : Opcode) (length : Nat) :
    D.Safe st (pushShortTuple cfg op length) :=
  rules.goes_bind (rules.goes_popMany op length) fun _ _ _ known =>
    rules.goes_pushed (rules.goes_allocTuple known)

theorem goes_tupleItems (op : Opcode) (v : Value) : D.GivesAll st (tupleItems op v) := by
  refine goes_get fun good => ?_
  cases tuple : st.store.tuple? v with
  | none => exact rules.goes_fail _
  | some items =>
    apply rules.goes_pure
    rcases Store.cell_of_tuple? tuple with rfl | found
    · exact fun _ none => by cases none
    · exact rules.held good found

theorem goes_freezeTop (op : Opcode) : D.Safe st (freezeTop op) := by
  refine rules.goes_bind (rules.top st op) fun v st' _ _ => goes_get fun _ => ?_
  cases st'.store.cell? v with
  | none => exact rules.goes_pure trivial
  | some cell =>
    cases cell with
    | bytearray data => exact rules.replaceTop op (rules.atom fun i same => by cases same)
    | _ => exact rules.goes_pure trivial

/-! ## Filling objects -/

theorem goes_storeEntries {entries : List (Value × Value)} (id : Nat)
    (known : D.KnowsEntries st entries) : D.Safe st (storeEntries id entries) := by
  induction entries generalizing st with
  | nil => exact rules.goes_pure trivial
  | cons e rest ih =>
    obtain ⟨key, content⟩ := known e (List.mem_cons_self ..)
    refine rules.goes_bind (rules.storeEntry id key content) ?_
    intro _ st' later _
    exact ih (rules.entries_later later fun e mem => known e (List.mem_cons_of_mem _ mem))

theorem goes_addMembers {members : List Value} (id : Nat) (known : D.KnowsAll st members) :
    D.Safe st (addMembers id members) := by
  induction members generalizing st with
  | nil => exact rules.goes_pure trivial
  | cons member rest ih =>
    refine rules.goes_bind (rules.addMember id (known member (List.mem_cons_self ..))) ?_
    intro _ st' later _
    exact ih (rules.all_later later fun v mem => known v (List.mem_cons_of_mem _ mem))

theorem goes_callHook {op : Opcode} {id : Nat} {hook : H → Option (Action H Unit)}
    (h : ∀ content action, st.store.object? (.ref id) = some content →
      hook content = some action → D.Safe st (hosted action)) :
    D.Safe st (callHook op id hook) := by
  refine goes_get fun _ => ?_
  cases object : st.store.object? (.ref id) with
  | none => exact rules.goes_pure trivial
  | some content =>
    dsimp only
    cases hooked : hook content with
    | none => exact rules.goes_called _ fun _ _ => trivial
    | some action =>
      exact rules.goes_bind (h content action object hooked) fun _ _ _ _ =>
        rules.goes_called _ fun _ _ => trivial

theorem goes_appendItems {items : Array Value} (op : Opcode) (known : D.KnowsAll st items.toList) :
    D.Safe st (appendItems op items) := by
  refine rules.goes_bind (rules.top st op) fun target st' later _ => goes_get fun _ => ?_
  have known' := rules.all_later later known
  cases target with
  | ref id =>
    cases st'.store.cell? (.ref id) with
    | none => exact rules.goes_fail _
    | some cell =>
      cases cell with
      | list former => exact rules.extend id known'
      | object content =>
        exact rules.goes_forM (P := D.Knows) rules.knows_later known' fun st item here =>
          rules.goes_callHook fun _ _ object hooked => rules.append object hooked here
      | _ => exact rules.goes_fail _
  | _ => exact rules.goes_fail _

theorem goes_setItems {entries : List (Value × Value)} (op : Opcode)
    (known : D.KnowsEntries st entries) : D.Safe st (setItems op entries) := by
  refine rules.goes_bind (rules.top st op) fun target st' later _ => goes_get fun _ => ?_
  have known' := rules.entries_later later known
  cases target with
  | ref id =>
    cases st'.store.cell? (.ref id) with
    | none => exact rules.goes_fail _
    | some cell =>
      cases cell with
      | dict former => exact rules.goes_storeEntries id known'
      | object content =>
        refine rules.goes_forM (P := fun st e => D.Knows st e.1 ∧ D.Knows st e.2)
          (fun later h => ⟨rules.knows_later later h.1, rules.knows_later later h.2⟩) known'
          fun st e here => ?_
        exact rules.goes_callHook fun _ _ object hooked =>
          rules.setItem object hooked here.1 here.2
      | _ => exact rules.goes_fail _
  | _ => exact rules.goes_fail _

theorem goes_addItems {members : List Value} (op : Opcode) (known : D.KnowsAll st members) :
    D.Safe st (addItems op members) := by
  refine rules.goes_bind (rules.top st op) fun target st' later _ => goes_get fun _ => ?_
  cases target with
  | ref id =>
    cases st'.store.cell? (.ref id) with
    | none => exact rules.goes_fail _
    | some cell =>
      cases cell with
      | set former => exact rules.goes_addMembers id (rules.all_later later known)
      | _ => exact rules.goes_fail _
  | _ => exact rules.goes_fail _

/-! ## Globals and calls -/

theorem goes_allocGlobal (g : Global) : D.Gives st (Decoder.alloc (.global g)) :=
  rules.alloc (rules.fits (fun _ same => by cases same) rfl fun _ none => by cases none)

theorem goes_findGlobal (module qualname : String) :
    D.Gives st (findGlobal cfg module qualname) := by
  refine goes_get fun _ => ?_
  obtain ⟨module, qualname⟩ : String × String :=
    if st.protocol < 3 && cfg.fixImports then LegacyName.toCurrent module qualname
    else (module, qualname)
  dsimp only
  cases cfg.registry.decodeGlobal? ⟨module, qualname⟩ with
  | some g => exact rules.goes_allocGlobal g
  | none =>
    cases cfg.registry.resolve ⟨module, qualname⟩ with
    | found symbol => exact rules.goes_allocGlobal _
    | missingModule => exact rules.goes_fail _
    | missingAttribute => exact rules.goes_fail _

theorem goes_lineGlobal (op : Opcode) (module name : Bytes) :
    D.Gives st (lineGlobal cfg op module name) :=
  rules.goes_bind (rules.goes_spelled _) fun _ _ _ _ =>
    rules.goes_bind (rules.goes_spelled _) fun _ _ _ _ => rules.goes_findGlobal _ _

theorem goes_pushExtension (op : Opcode) (code : Nat) :
    D.Safe st (pushExtension cfg op code) := by
  unfold pushExtension
  refine rules.goes_check ?_
  cases cfg.registry.extension? code with
  | none => exact rules.goes_fail _
  | some name => exact rules.goes_pushed (rules.goes_findGlobal _ _)

theorem goes_pushSignedExtension (code : Int32) :
    D.Safe st (pushSignedExtension cfg code) := by
  unfold pushSignedExtension
  exact rules.goes_check (rules.goes_pushExtension _ _)

theorem goes_call {args : List Value} (op : Opcode) (function : Value)
    (known : D.KnowsAll st args) : D.Gives st (call cfg op function args) := by
  refine goes_get fun _ => ?_
  cases st.store.global? function with
  | none => exact rules.goes_fail _
  | some g =>
    dsimp only
    cases g.symbol with
    | none => exact rules.goes_called _ fun _ fails => by cases fails
    | some symbol =>
      exact rules.goes_bind (rules.callSymbol _ symbol known) fun _ _ _ returned =>
        rules.goes_called _ returned

theorem goes_instantiate {cls : Value} {args : List Value} (known : D.Knows st cls)
    (known' : D.KnowsAll st args) : D.Gives st (instantiate cfg cls args) :=
  goes_get fun _ => rules.goes_bind (rules.create _ known known') fun _ _ _ returned =>
    rules.goes_called _ returned

theorem goes_instantiateOrCall {cls : Value} {args : List Value} (op : Opcode)
    (known : D.Knows st cls) (known' : D.KnowsAll st args) :
    D.Gives st (instantiateOrCall cfg op cls args) :=
  goes_get fun _ => goes_ite (rules.goes_instantiate known known') (rules.goes_call op cls known')

theorem goes_persistentLoad {pid : Value} (known : D.Knows st pid) :
    D.Gives st (Decoder.persistentLoad cfg pid) := by
  unfold Decoder.persistentLoad
  cases hooked : cfg.persistentLoad with
  | none => exact rules.goes_fail _
  | some hook =>
    refine rules.goes_bind (rules.persistentLoad hooked known) fun outcome st' _ returned => ?_
    cases outcome with
    | ok v => exact rules.goes_pure (returned v rfl)
    | error text => exact rules.goes_fail _

theorem goes_persistentLineValue (line : Bytes) : D.Gives st (persistentLineValue cfg line) :=
  rules.goes_bind (rules.goes_spelled _) fun _ _ _ _ =>
    rules.goes_persistentLoad (rules.atom fun i same => by cases same)

/-! ## State -/

theorem known_entries {d : Dict} {v : Value} (good : D.Good st)
    (found : st.store.dict? v = some d) : D.KnowsEntries st d.entries.toList := by
  have children := rules.held good (Store.cell_of_dict? found)
  intro e mem
  exact ⟨children e.1 (Cell.mem_children.2 (.inl (List.mem_map_of_mem mem))),
    children e.2 (Cell.mem_children.2 (.inr (List.mem_map_of_mem mem)))⟩

theorem goes_mergeState (op : Opcode) (id : Nat) (state : Value) :
    D.Safe st (mergeState op id state) := by
  refine goes_get fun good => ?_
  cases found : st.store.dict? state with
  | some d =>
    cases state with
    | none => exact rules.goes_pure trivial
    | _ => exact rules.goes_storeEntries id (rules.known_entries good found)
  | none =>
    cases state with
    | none => exact rules.goes_pure trivial
    | _ => exact rules.goes_fail _

theorem goes_buildInstance {state : Value} (op : Opcode) (id : Nat) (c : Class)
    (known : D.Knows st state) : D.Safe st (buildInstance cfg op id c state) := by
  unfold buildInstance
  cases hooked : (cfg.host.hooks c.key).setState with
  | some hook =>
    exact rules.goes_bind (rules.setState id hooked known) fun _ _ _ _ =>
      rules.goes_called _ fun _ _ => trivial
  | none =>
    refine goes_get fun _ => ?_
    rcases st.store.tuple? state with _ | _ | ⟨first, _ | ⟨second, _ | ⟨third, rest⟩⟩⟩
    case some.cons.cons.nil =>
      exact rules.goes_bind (rules.goes_mergeState op id first) fun _ _ _ _ =>
        rules.goes_mergeState op id second
    all_goals exact rules.goes_mergeState op id state

theorem goes_buildObject {content : H} {state : Value} {id : Nat} (op : Opcode)
    (object : st.store.object? (.ref id) = some content) (known : D.Knows st state) :
    D.Safe st (buildObject cfg op id content state) := by
  refine rules.goes_bind (rules.stateAction _ op object known) fun outcome st' _ returned => ?_
  refine rules.goes_bind (P := fun replacement st => ∀ v, replacement = some v → D.Knows st v)
    (rules.goes_called _ fun replacement same v here => returned v (here ▸ same)) ?_
  intro replacement st' _ replaced
  cases replacement with
  | none => exact rules.goes_pure trivial
  | some v =>
    have known := replaced v rfl
    exact rules.goes_bind (rules.replaceMemo id known) fun _ _ later _ =>
      rules.replaceTop op (rules.knows_later later known)

theorem goes_build {state : Value} (op : Opcode) (known : D.Knows st state) :
    D.Safe st (build cfg op state) := by
  refine rules.goes_bind (rules.top st op) fun target st' later _ => goes_get fun _ => ?_
  have known' := rules.knows_later later known
  cases target with
  | ref id =>
    cases found : st'.store.cell? (.ref id) with
    | none => exact rules.goes_fail _
    | some cell =>
      cases cell with
      | inst c attributes => exact rules.goes_buildInstance op id c known'
      | object content =>
        refine rules.goes_buildObject op ?_ known'
        rw [Store.object?, found]
      | _ => exact rules.goes_fail _
  | _ => exact rules.goes_fail _

/-! ## Keys -/

omit [HostObject H] rules in
theorem known_pairsGo {items : List Value} {paired : List (Value × Value)}
    (before : D.KnowsEntries st paired) (known : D.KnowsAll st items) :
    D.KnowsEntries st (pairs.go paired items) := by
  fun_induction pairs.go paired items with
  | case1 paired key content rest ih =>
    refine ih ?_ fun v mem => known v (List.mem_cons_of_mem _ (List.mem_cons_of_mem _ mem))
    intro e mem
    rcases List.mem_cons.1 mem with rfl | mem
    · exact ⟨known key (List.mem_cons_self ..),
        known content (List.mem_cons_of_mem _ (List.mem_cons_self ..))⟩
    · exact before e mem
  | case2 paired items _ => exact fun e mem => before e (List.mem_reverse.1 mem)

omit [HostObject H] rules in
theorem known_pairs {op : Opcode} {items : List Value} {entries : List (Value × Value)}
    (known : D.KnowsAll st items) (paired : pairs op items = .ok entries) :
    D.KnowsEntries st entries := by
  dsimp only [pairs] at paired
  split at paired
  · cases paired
    exact known_pairsGo (fun _ none => by cases none) known
  · cases paired

theorem goes_dictOf {entries : List (Value × Value)} (good : D.Good st)
    (known : D.KnowsEntries st entries) :
    D.Goes st (keyed (st.store.dictOf entries)) fun d st' => D.Fits st' (.dict d) := by
  cases made : st.store.dictOf entries with
  | ok d => exact rules.goes_pure (rules.dict good known made)
  | error e =>
    cases e with
    | unhashable name => exact rules.goes_fail _
    | endless => exact fun _ => rules.dict_endless good known made

theorem goes_membersOf {vs : List Value} (good : D.Good st) (known : D.KnowsAll st vs) :
    D.Goes st (keyed (st.store.membersOf vs)) fun t st' => D.Fits st' (.frozenset t) := by
  cases made : st.store.membersOf vs with
  | ok t => exact rules.goes_pure (rules.frozenset good known made)
  | error e =>
    cases e with
    | unhashable name => exact rules.goes_fail _
    | endless => exact fun _ => rules.frozenset_endless good known made

/-! ## Instructions -/

/-- Every instruction keeps to the discipline. -/
theorem goes_execute (op : Opcode) (operand : op.shape.Operand) :
    D.Safe st (execute cfg op operand) := by
  cases op with
  | proto => exact rules.goes_announce _
  | frame => exact rules.openFrame st _
  | persId => exact rules.goes_pushed (rules.goes_persistentLineValue _)
  | binPersId =>
    exact rules.goes_bind (rules.pop st _) fun _ _ _ known => rules.goes_pushed
      (rules.goes_persistentLoad known)
  | int => exact rules.goes_pushed (rules.goes_lineValue _ _)
  | long => exact rules.goes_pushed (rules.goes_longLineValue _ _)
  | long1 => exact rules.push (rules.knows_integerValue _)
  | long4 => exact rules.push (rules.knows_integerValue _)
  | float => exact rules.goes_pushed (rules.goes_floatLineValue _)
  | string => exact rules.goes_pushed (rules.goes_quotedLineValue _)
  | binString => exact rules.goes_pushed (rules.goes_legacyString _ _)
  | shortBinString => exact rules.goes_pushed (rules.goes_legacyString _ _)
  | unicode => exact rules.goes_pushed (rules.goes_escapedLineValue _)
  | binUnicode => exact rules.goes_pushed (rules.goes_payloadText _ _)
  | shortBinUnicode => exact rules.goes_pushed (rules.goes_payloadText _ _)
  | binUnicode8 => exact rules.goes_pushed (rules.goes_payloadText _ _)
  | nextBuffer => exact rules.goes_pushed (rules.nextBuffer st)
  | readOnlyBuffer => exact rules.goes_freezeTop _
  | tuple =>
    exact rules.goes_bind (rules.popMark st _) fun _ _ _ known =>
      rules.goes_pushed (rules.goes_allocTuple known)
  | tuple1 => exact rules.goes_pushShortTuple _ 1
  | tuple2 => exact rules.goes_pushShortTuple _ 2
  | tuple3 => exact rules.goes_pushShortTuple _ 3
  | list =>
    exact rules.goes_bind (rules.popMark st _) fun _ _ _ known =>
      rules.goes_pushNew (rules.fits (fun _ same => by cases same) rfl known)
  | dict =>
    refine rules.goes_bind (rules.popMark st .dict) fun items st' _ known => ?_
    cases paired : pairs .dict items.toList with
    | error cause => exact rules.goes_fail cause
    | ok entries =>
      exact goes_get fun good => rules.goes_bind
        (rules.goes_dictOf good (known_pairs known paired)) fun _ _ _ fits => rules.goes_pushNew fits
  | frozenSet =>
    exact rules.goes_bind (rules.popMark st _) fun _ _ _ known => goes_get fun good =>
      rules.goes_bind (rules.goes_membersOf good known) fun _ _ _ fits => rules.goes_pushNew fits
  | append =>
    refine rules.goes_bind (rules.pop st .append) fun item st' _ known => ?_
    refine rules.goes_appendItems .append fun v mem => ?_
    rwa [List.mem_singleton.1 mem]
  | appends =>
    exact rules.goes_bind (rules.popMark st _) fun _ _ _ known => rules.goes_appendItems _ known
  | setItem =>
    refine rules.goes_bind (rules.pop st .setItem) fun content st₁ _ known => ?_
    refine rules.goes_bind (rules.pop st₁ .setItem) fun key st₂ later known' => ?_
    refine rules.goes_setItems .setItem fun e mem => ?_
    rw [List.mem_singleton.1 mem]
    exact ⟨known', rules.knows_later later known⟩
  | setItems =>
    refine rules.goes_bind (rules.popMark st .setItems) fun items st' _ known => ?_
    cases paired : pairs .setItems items.toList with
    | error cause => exact rules.goes_fail cause
    | ok entries => exact rules.goes_setItems _ (known_pairs known paired)
  | addItems =>
    exact rules.goes_bind (rules.popMark st _) fun _ _ _ known => rules.goes_addItems _ known
  | global => exact rules.goes_pushed (rules.goes_lineGlobal _ _ _)
  | stackGlobal =>
    refine rules.goes_bind (rules.pop st .stackGlobal) fun name st₁ _ _ => ?_
    refine rules.goes_bind (rules.pop st₁ .stackGlobal) fun module st₂ _ _ => ?_
    cases module with
    | str module =>
      cases name with
      | str name => exact rules.goes_pushed (rules.goes_findGlobal _ _)
      | _ => exact rules.goes_fail _
    | _ => exact rules.goes_fail _
  | ext1 => exact rules.goes_pushExtension _ _
  | ext2 => exact rules.goes_pushExtension _ _
  | ext4 => exact rules.goes_pushSignedExtension _
  | reduce =>
    refine rules.goes_bind (rules.pop st .reduce) fun args st₁ _ _ => ?_
    refine rules.goes_bind (rules.pop st₁ .reduce) fun function st₂ _ _ => ?_
    refine rules.goes_bind (rules.goes_tupleItems .reduce args) fun items st₃ _ known => ?_
    exact rules.goes_pushed (rules.goes_call _ _ known)
  | newObj =>
    refine rules.goes_bind (rules.pop st .newObj) fun args st₁ _ _ => ?_
    refine rules.goes_bind (rules.pop st₁ .newObj) fun cls st₂ _ known => ?_
    refine rules.goes_bind (rules.goes_tupleItems .newObj args) fun items st₃ later known' => ?_
    exact rules.goes_pushed (rules.goes_instantiate (rules.knows_later later known) known')
  | newObjEx =>
    refine rules.goes_bind (rules.pop st .newObjEx) fun keywords st₁ _ _ => ?_
    refine rules.goes_bind (rules.pop st₁ .newObjEx) fun args st₂ _ _ => ?_
    refine rules.goes_bind (rules.pop st₂ .newObjEx) fun cls st₃ _ known => ?_
    refine rules.goes_bind (rules.goes_tupleItems .newObjEx args) fun items st₄ later known' => ?_
    refine goes_get fun _ => ?_
    dsimp only
    cases st₄.store.dict? keywords with
    | none => exact rules.goes_fail _
    | some d =>
      have made := rules.goes_pushed
        (rules.goes_instantiate (rules.knows_later later known) known')
      exact goes_ite (rules.goes_bind (P := fun _ _ => False)
        (rules.goes_called _ fun _ fails => by cases fails) fun _ _ _ none => none.elim) made
  | obj =>
    refine rules.goes_bind (rules.popMark st .obj) fun items st' _ known => ?_
    cases shape : items.toList with
    | nil => exact rules.goes_fail _
    | cons cls args =>
      rw [shape] at known
      exact rules.goes_pushed (rules.goes_instantiateOrCall .obj
        (known cls (List.mem_cons_self ..)) fun v mem => known v (List.mem_cons_of_mem _ mem))
  | inst =>
    refine rules.goes_bind (rules.goes_lineGlobal _ _ _) fun cls st₁ _ known => ?_
    refine rules.goes_bind (rules.popMark st₁ .inst) fun args st₂ later known' => ?_
    exact rules.goes_pushed
      (rules.goes_instantiateOrCall .inst (rules.knows_later later known) known')
  | build =>
    exact rules.goes_bind (rules.pop st _) fun _ _ _ known => rules.goes_build _ known
  | mark => exact rules.mark st
  | pop =>
    exact goes_get fun _ => goes_ite
      (rules.goes_bind (rules.popMark st _) fun _ _ _ _ => rules.goes_pure trivial)
      (rules.goes_bind (rules.pop st _) fun _ _ _ _ => rules.goes_pure trivial)
  | popMark => exact rules.goes_bind (rules.popMark st _) fun _ _ _ _ => rules.goes_pure trivial
  | dup => exact rules.goes_pushed (rules.top st _)
  | get =>
    exact rules.goes_bind (rules.goes_spelled _) fun _ st' _ _ => rules.fetchMemo st' _
  | binGet => exact rules.fetchMemo st _
  | longBinGet => exact rules.fetchMemo st _
  | put =>
    exact rules.goes_bind (rules.goes_spelled _) fun _ st' _ _ => rules.putMemo st' _ _
  | binPut => exact rules.putMemo st _ _
  | longBinPut => exact rules.putMemo st _ _
  | memoize => exact goes_get fun _ => rules.putMemo st _ _
  | stop => exact rules.goes_pure trivial
  | byteArray8 | emptyList | emptyDict | emptySet =>
    exact rules.goes_pushNew
      (rules.fits (fun _ same => by cases same) rfl fun _ none => by cases none)
  | none | newFalse | newTrue | binInt | binInt1 | binInt2 | binFloat | binBytes | shortBinBytes
  | binBytes8 | emptyTuple => exact rules.goes_pushAtom fun i same => by cases same

/-! ## Steps -/

/-- What a step does behind its opcode. -/
theorem goes_behind (op : Opcode) :
    D.Goes st (if op = .stop then some <$> Decoder.pop .stop else do
      dispatch cfg op
      pure none) fun found st' => ∀ v, found = some v → D.Knows st' v := by
  rw [dispatch_eq]
  apply goes_ite
  · refine rules.goes_bind (rules.pop st .stop) fun v st' _ known => rules.goes_pure ?_
    rintro _ ⟨⟩
    exact known
  · refine rules.goes_bind (P := fun _ _ => True) (rules.goes_bind (rules.goes_answer op _)
      fun operand st' _ _ => rules.goes_execute op operand) fun _ _ _ _ => ?_
    exact rules.goes_pure fun _ none => by cases none

/-- A step keeps to the discipline, and so does what it hands back. -/
theorem goes_step :
    D.Goes st (step cfg) fun found st' => ∀ v, found = some v → D.Knows st' v :=
  rules.goes_bind (rules.readOpcode st) fun op _ _ _ => rules.goes_behind op

end Observed

end Discipline

end ObjectStream.Decoder
