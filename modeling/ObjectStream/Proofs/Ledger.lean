import ObjectStream.Proofs.Execution
import ObjectStream.Proofs.Untouched

/-!
Notes in the objects of the host.

What a host is asked can be told from notes that it takes. A `Ledger` reads them off the objects of
the host, so that nothing shows in them that is done to other objects. Only looking up what is stored
elsewhere is to be noted: if the other functions of the host spare the notes (`Ledger.Spares`), every
instruction but the two that look something up leaves them alone (`noted_of_execute`).
-/

namespace ObjectStream

/-- Whether the instruction looks up what is stored elsewhere. -/
def Opcode.looksUp : Opcode → Bool
  | .persId | .binPersId => true
  | _ => false

variable {H : Type}

/-- The content of a host object. -/
def Cell.content? : Cell H → Option H
  | .object content => some content
  | _ => none

theorem Cell.content?_extended (items : Array Value) (cell : Cell H) :
    (Decoder.extended items cell).content? = cell.content? := by
  cases cell <;> rfl

theorem Cell.content?_withEntries (change : Dict → Dict) (cell : Cell H) :
    (cell.withEntries change).content? = cell.content? := by
  cases cell <;> rfl

theorem Cell.content?_withMembers (change : Members → Members) (cell : Cell H) :
    (Decoder.withMembers change cell).content? = cell.content? := by
  cases cell <;> rfl

theorem Store.object?_eq (s : Store H) (v : Value) : s.object? v = (s.cell? v).bind Cell.content? := by
  unfold object?
  cases s.cell? v with
  | none => rfl
  | some cell => cases cell <;> rfl

/-- Notes that the host takes in its objects. -/
structure Ledger (H : Type) where
  read : Store H → List Value
  /-- The other objects do not matter. -/
  hosted {s s' : Store H} (same : ∀ v, s'.object? v = s.object? v) : read s' = read s

namespace Ledger

variable (L : Ledger H)

theorem read_push {cell : Cell H} (kind : cell.content? = none) (s : Store H) :
    L.read (s.push cell) = L.read s := by
  refine L.hosted fun v => ?_
  rw [Store.object?_eq, Store.object?_eq]
  cases v with
  | ref id =>
    show (s.cells.push cell)[id]?.bind _ = s.cells[id]?.bind _
    rw [Array.getElem?_push]
    split
    · next last =>
      rw [last, Array.getElem?_eq_none (Nat.le_refl _)]
      exact kind
    · rfl
  | _ => rfl

theorem read_modify {change : Cell H → Cell H} (kept : ∀ cell, (change cell).content? = cell.content?)
    (s : Store H) (id : Nat) : L.read (s.modify id change) = L.read s := by
  refine L.hosted fun v => ?_
  rw [Store.object?_eq, Store.object?_eq]
  cases v with
  | ref i =>
    show (s.cells.modify id change)[i]?.bind _ = s.cells[i]?.bind _
    rw [Array.getElem?_modify]
    split
    · cases s.cells[i]? with
      | none => rfl
      | some cell => exact kept cell
    · rfl
  | _ => rfl

/-! ## Calls -/

theorem leaves_alloc {cell : Cell H} (kind : cell.content? = none) :
    Leaves L.read (Action.alloc cell) :=
  .get fun _ => .bind (.modify (L.read_push kind)) fun _ => .pure _

theorem leaves_reading [HostObject H] {α : Type} (outcome : Store H → Except String α) :
    Leaves L.read (Builtin.reading outcome) := by
  refine .get fun s => ?_
  cases outcome s with
  | ok a => exact .pure a
  | error text => exact .throw _

theorem leaves_keying [HostObject H] {α : Type} (outcome : Store H → Except KeyError α) :
    Leaves L.read (Builtin.keying outcome) := by
  refine .get fun s => ?_
  cases outcome s with
  | ok a => exact .pure a
  | error e => exact .throw _

/-- The callables of every registry make no host objects. -/
theorem leaves_run [HostObject H] (ns : Option Namespace) (function : Builtin) (args : List Value) :
    Leaves L.read (function.run ns args : Action H Value) := by
  cases function with
  | complex | bytes | encode => exact .bind (L.leaves_reading _) fun _ => .pure _
  | bytearray | list | getattr => exact .bind (L.leaves_reading _) fun _ => L.leaves_alloc rfl
  | tuple =>
    refine .bind (L.leaves_reading _) fun items => ?_
    cases items with
    | nil => exact .pure _
    | cons item rest => exact L.leaves_alloc rfl
  | set | frozenset | dict =>
    exact .bind (L.leaves_reading _) fun _ => .bind (L.leaves_keying _) fun _ => L.leaves_alloc rfl
  | newobj | newobjEx | reconstructor => exact .throw _

/-- Whatever the host does for a decoder, apart from looking up what is stored elsewhere, spares the
    notes. -/
structure Spares [HostObject H] (cfg : Decoder.Config H) : Prop where
  call (number : Nat) (args : List Value) : Leaves L.read (cfg.host.call number args)
  setState {key : ClassKey} {hook : Nat → Value → Action H Unit} (id : Nat) (state : Value)
    (hooked : (cfg.host.hooks key).setState = some hook) : Leaves L.read (hook id state)
  stateAction (op : Opcode) (id : Nat) (content : H) (state : Value) :
    Leaves L.read (Decoder.stateAction cfg op id content state)
  append {id : Nat} {content : H} {item : Value} {action : Action H Unit}
    (hooked : HostObject.append id content item = some action) : Leaves L.read action
  setItem {id : Nat} {content : H} {key value : Value} {action : Action H Unit}
    (hooked : HostObject.setItem id content key value = some action) : Leaves L.read action

variable {L}

theorem Spares.carryOut [HostObject H] {cfg : Decoder.Config H} (spares : L.Spares cfg)
    (target : Store H → Except String Target) : Leaves L.read (cfg.host.carryOut target) := by
  refine .bind (L.leaves_reading _) fun t => ?_
  cases t with
  | create c => exact L.leaves_alloc rfl
  | run callable args =>
    cases callable with
    | host number => exact spares.call number args
    | builtin registry function => exact L.leaves_run _ function args

end Ledger

/-! ## Instructions -/

namespace Decoder

variable {α : Type} {L : Ledger H} {st : State H}

/-- What is noted in the objects of a decoder. -/
def State.noted (L : Ledger H) (st : State H) : List Value := L.read st.store

theorem noted_of_store (L : Ledger H) (st st' : State H) (store : st'.store = st.store) :
    st'.noted L = st.noted L := congrArg L.read store

theorem aloof_noted (L : Ledger H) : Aloof (State.noted L) := .of_store (noted_of_store L)

/-- The notes stay as they are. -/
def noting (L : Ledger H) : Discipline H where
  Good _ := True
  Later st st' := st'.noted L = st.noted L
  Knows _ _ := True
  Fits _ cell := cell.content? = none
  Breaks _ _ _ := True

theorem noting_of_leaves {x : Decode H α} {Q : α → State H → Prop} (h : Leaves (State.noted L) x)
    (all : ∀ a st, Q a st) (st : State H) : (noting L).Goes st x Q := by
  intro _
  have same := h st
  cases run : x st with
  | error e st' => trivial
  | ok a st' =>
    rw [run] at same
    exact ⟨trivial, same, all a st'⟩

theorem leaves_noted {action : Action H α} (h : Leaves L.read action) :
    Leaves (State.noted L) (hosted action) :=
  leaves_hosted fun st => h st.store

theorem leaves_reported {label : String} {action : Action H α} (h : Leaves L.read action) :
    Leaves (State.noted L) (reported label action) :=
  .bind (.modify fun _ => rfl) fun _ => .bind (leaves_noted h) fun _ => .bind (.modify fun _ => rfl)
    fun _ => .pure _

theorem leaves_extend (id : Nat) (items : Array Value) : Leaves (State.noted L)
    (modify fun st => { st with store := st.store.modify id (extended items) } : Decode H Unit) :=
  fun st => L.read_modify (Cell.content?_extended items) st.store id

variable [HostObject H]

/-- A decoder without a hook for what is stored elsewhere keeps the notes. -/
theorem noting_observed {cfg : Config H} (spares : L.Spares cfg) (plain : cfg.persistentLoad = none) :
    (noting L).Observed cfg where
  refl _ := rfl
  trans h h' := h'.trans h
  breaks _ _ := trivial
  breaks_later _ _ := trivial
  knows_later _ _ := trivial
  atom _ := trivial
  held _ _ _ _ := trivial
  fits {_ cell} kind _ _ := by
    cases cell with
    | object content => exact absurd rfl (kind content)
    | _ => rfl
  dict _ _ _ _ := rfl
  dict_endless _ _ _ := trivial
  frozenset _ _ _ _ := rfl
  frozenset_endless _ _ _ := trivial
  alloc kind :=
    noting_of_leaves (leaves_alloc fun st => L.read_push kind st.store) (fun _ _ => trivial) _
  push _ := noting_of_leaves (leaves_push (aloof_noted L) cfg _) (fun _ _ => trivial) _
  pop st op := noting_of_leaves (leaves_pop (aloof_noted L) op) (fun _ _ => trivial) st
  top st op := noting_of_leaves (leaves_top op) (fun _ _ => trivial) st
  replaceTop op _ := noting_of_leaves (leaves_replaceTop (aloof_noted L) op _) (fun _ _ => trivial) _
  mark st := noting_of_leaves (leaves_mark (aloof_noted L)) (fun _ _ => trivial) st
  popMark st op := noting_of_leaves (leaves_popMark (aloof_noted L) op) (fun _ _ _ _ => trivial) st
  fetchMemo st id := noting_of_leaves (leaves_fetchMemo (aloof_noted L) cfg id) (fun _ _ => trivial) st
  putMemo st op id := noting_of_leaves (leaves_putMemo (aloof_noted L) cfg op id) (fun _ _ => trivial) st
  replaceMemo _ _ := noting_of_leaves (leaves_replaceMemo (aloof_noted L) _ _) (fun _ _ => trivial) _
  extend id _ := noting_of_leaves (leaves_extend id _) (fun _ _ => trivial) _
  storeEntry id _ _ := noting_of_leaves
    (leaves_storeEntry _ _ fun st change => L.read_modify (Cell.content?_withEntries change) st.store id)
    (fun _ _ => trivial) _
  addMember id _ := noting_of_leaves
    (leaves_addMember _ fun st change => L.read_modify (Cell.content?_withMembers change) st.store id)
    (fun _ _ => trivial) _
  readExactly st op count :=
    noting_of_leaves (leaves_readExactly (aloof_noted L) op count) (fun _ _ => trivial) st
  readLine st op := noting_of_leaves (leaves_readLine (aloof_noted L) op) (fun _ _ => trivial) st
  readOpcode st := noting_of_leaves (leaves_readOpcode (noted_of_store L)) (fun _ _ => trivial) st
  openFrame st length :=
    noting_of_leaves (leaves_openFrame (noted_of_store L) cfg length) (fun _ _ => trivial) st
  announce st p := noting_of_leaves (leaves_announce (aloof_noted L) p) (fun _ _ => trivial) st
  nextBuffer st := noting_of_leaves (leaves_nextBuffer (aloof_noted L)) (fun _ _ => trivial) st
  callSymbol _ _ _ := noting_of_leaves (leaves_reported (spares.carryOut _)) (fun _ _ _ _ => trivial) _
  create _ _ _ := noting_of_leaves (leaves_reported (spares.carryOut _)) (fun _ _ _ _ => trivial) _
  setState id hooked _ :=
    noting_of_leaves (leaves_reported (spares.setState id _ hooked)) (fun _ _ => trivial) _
  stateAction _ op _ _ :=
    noting_of_leaves (leaves_reported (spares.stateAction op _ _ _)) (fun _ _ _ _ => trivial) _
  append _ hooked _ := noting_of_leaves (leaves_noted (spares.append hooked)) (fun _ _ => trivial) _
  setItem _ hooked _ _ := noting_of_leaves (leaves_noted (spares.setItem hooked)) (fun _ _ => trivial) _
  persistentLoad hooked _ := by
    rw [plain] at hooked
    cases hooked

/-- Every other instruction leaves the notes alone. -/
theorem noted_of_execute {cfg : Config H} (spares : L.Spares cfg) {op : Opcode}
    {operand : op.shape.Operand} (other : op.looksUp = false) {st' : State H}
    (run : execute cfg op operand st = .ok () st') : st'.noted L = st.noted L := by
  let bare : Config H := { cfg with persistentLoad := none }
  have same : execute bare op operand = execute cfg op operand := by
    cases op <;> first | rfl | cases other
  have spares : L.Spares bare :=
    ⟨spares.call, spares.setState, spares.stateAction, spares.append, spares.setItem⟩
  have safe : (noting L).Safe st (execute bare op operand) :=
    (noting_observed spares rfl).goes_execute op operand
  have goes := safe trivial
  rw [same, run] at goes
  exact goes.2.1

end Decoder

end ObjectStream
