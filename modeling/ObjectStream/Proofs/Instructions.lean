import ObjectStream.Proofs.Machine
import ObjectStream.Proofs.Spelling
import ObjectStream.Proofs.Writing

/-!
What instructions lead to.

One lemma for each instruction that the encoder writes: if the condition holds of the machine behind
the instruction, the instruction leads there. Callers compose them and never look into `execute`.
-/

namespace ObjectStream

/-- An instruction that the decoder carries out: not the end of the stream, no frame, and its operand
    has a spelling. -/
structure Instruction.Ordinary (i : Instruction) : Prop where
  not_stop : i.op ≠ .stop
  not_frame : i.op ≠ .frame
  fits : i.op.shape.Fits i.operand

/-- The end of the stream, and what begins a frame. -/
def Opcode.isBracket : Opcode → Bool
  | .stop | .frame => true
  | _ => false

theorem Instruction.Ordinary.of {op : Opcode} {operand : op.shape.Operand}
    (fits : op.shape.Fits operand) (other : op.isBracket = false) : Instruction.Ordinary ⟨op, operand⟩ where
  not_stop := by
    rintro rfl
    cases other
  not_frame := by
    rintro rfl
    cases other
  fits := fits

namespace Decoder

variable {H : Type}

namespace Machine

/-- At most one value was added to the stack, and at most one to the memo. -/
def Grows (m m' : Machine H) : Prop :=
  m'.height ≤ m.height + 1 ∧ m'.memo.size ≤ m.memo.size + 1

/-- The limits allow `count` further instructions. -/
def Room (cfg : Config H) (m : Machine H) (count : Nat) : Prop :=
  m.height + count ≤ cfg.limits.maxStack ∧ m.memo.size + count ≤ cfg.limits.maxMemo

variable {cfg : Config H} {m m' : Machine H} {count : Nat}

theorem Room.of_le {more : Nat} (h : m.Room cfg more) (le : count ≤ more) : m.Room cfg count :=
  ⟨Nat.le_trans (Nat.add_le_add_left le _) h.1, Nat.le_trans (Nat.add_le_add_left le _) h.2⟩

theorem Room.step (h : m.Room cfg (count + 1)) (grows : m.Grows m') : m'.Room cfg count := by
  obtain ⟨height, memo⟩ := h
  obtain ⟨height', memo'⟩ := grows
  constructor <;> omega

theorem Grows.of_eq (height : m'.height ≤ m.height + 1) (memo : m'.memo = m.memo) :
    m.Grows m' :=
  ⟨height, by rw [memo]; omega⟩

@[simp] theorem height_push (v : Value) : (m.push v).height = m.height + 1 := by
  simp only [push, height, List.length_append, List.length_singleton]
  omega

@[simp] theorem height_withStore (store : Store H) : (m.withStore store).height = m.height := rfl

theorem height_withStack_le {stack : List Value} (shorter : stack.length ≤ m.stack.length) :
    (m.withStack stack).height ≤ m.height := by
  simp only [withStack, height]
  omega

/-- What stood behind the last mark is gone, and the mark. -/
theorem height_unmark_le {below : List Value} {marks : List (List Value)}
    (saved : m.marks = below :: marks) :
    ({ m with stack := below, marks := marks } : Machine H).height ≤ m.height := by
  simp only [height, saved, List.map_cons, List.sum_cons]
  omega

end Machine

variable [HostObject H]

/-- Carrying the instructions out ends in a machine that satisfies the condition, as far as the limits
    allow. -/
def Leads (cfg : Config H) (total : Prop) :
    List Instruction → Machine H → (Machine H → Prop) → Prop
  | [], m, Q => Q m
  | i :: is, m, Q => i.Ordinary ∧ (m.Room cfg (is.length + 1) →
      Does total (execute cfg i.op i.operand) m fun _ m' => m.Grows m' ∧ Leads cfg total is m' Q)

namespace Leads

variable {cfg : Config H} {total : Prop} {m : Machine H} {Q R : Machine H → Prop}
  {is js : List Instruction}

theorem mono (h : Leads cfg total is m R) (hR : ∀ m', R m' → Q m') : Leads cfg total is m Q := by
  induction is generalizing m with
  | nil => exact hR m h
  | cons i is ih =>
    exact ⟨h.1, fun room => (h.2 room).mono fun _ _ ⟨grows, rest⟩ => ⟨grows, ih rest⟩⟩

theorem append (h : Leads cfg total is m fun m' => Leads cfg total js m' Q) :
    Leads cfg total (is ++ js) m Q := by
  induction is generalizing m with
  | nil => exact h
  | cons i is ih =>
    refine ⟨h.1, fun room => (h.2 (room.of_le ?_)).mono fun _ _ ⟨grows, rest⟩ => ⟨grows, ih rest⟩⟩
    simp

theorem cons {i : Instruction} (h : Leads cfg total [i] m fun m' => Leads cfg total js m' Q) :
    Leads cfg total (i :: js) m Q :=
  append h

/-- First one list of instructions, then another. -/
theorem bind (h : Leads cfg total is m R) (hR : ∀ m', R m' → Leads cfg total js m' Q) :
    Leads cfg total (is ++ js) m Q :=
  append (h.mono hR)

theorem one {i : Instruction} (ordinary : i.Ordinary)
    (h : m.Room cfg 1 →
      Does total (execute cfg i.op i.operand) m fun _ m' => m.Grows m' ∧ Q m') :
    Leads cfg total [i] m Q :=
  ⟨ordinary, h⟩

end Leads

section Instructions
variable {cfg : Config H} {total : Prop} {m : Machine H} {Q : Machine H → Prop}
  {below items : List Value} {v : Value} {op : Opcode} {operand : op.shape.Operand}

/-! ## Values -/

theorem leads_push (ordinary : Instruction.Ordinary ⟨op, operand⟩)
    (run : execute cfg op operand = push cfg v) (h : Q (m.push v)) :
    Leads cfg total [⟨op, operand⟩] m Q := by
  refine .one ordinary fun room => ?_
  rw [run]
  have := room.1
  exact does_push (by omega) ⟨.of_eq (Nat.le_of_eq (Machine.height_push v)) rfl, h⟩

omit [HostObject H] in
/-- A new object is put on a stack that is no higher than before. -/
theorem does_pushNew {former : Machine H} {c : Cell H} (room : former.Room cfg 1)
    (height : m.height ≤ former.height) (memo : m.memo = former.memo) (h : Q (m.pushNew c)) :
    Does total (alloc c) m fun v m' =>
      Does total (push cfg v) m' fun _ m' => former.Grows m' ∧ Q m' := by
  have := room.1
  refine does_alloc (does_push ?_ ⟨.of_eq ?_ memo, h⟩)
  · rw [Machine.height_withStore]
    omega
  · rw [Machine.height_push, Machine.height_withStore]
    omega

theorem leads_pushNew {c : Cell H} (ordinary : Instruction.Ordinary ⟨op, operand⟩)
    (run : execute cfg op operand = pushNew cfg c) (h : Q (m.pushNew c)) :
    Leads cfg total [⟨op, operand⟩] m Q := by
  refine .one ordinary fun room => ?_
  rw [run]
  exact Does.bind (does_pushNew room (Nat.le_refl _) rfl h)

/-! ## The stack -/

theorem leads_mark (h : Q m.mark) : Leads cfg total [⟨.mark, ()⟩] m Q := by
  refine .one (.of trivial rfl) fun _ => does_mark ⟨.of_eq ?_ rfl, h⟩
  simp only [Machine.height, Machine.mark, List.map_cons, List.sum_cons, List.length_nil]
  omega

theorem leads_pop (stack : m.stack = below ++ [v]) (h : Q (m.withStack below)) :
    Leads cfg total [⟨.pop, ()⟩] m Q := by
  refine .one (.of trivial rfl) fun _ => Does.get fun st machine counted => ?_
  have items := stack_of_machine machine stack
  rw [if_neg (by simp [items])]
  have height : (m.withStack below).height ≤ m.height := Machine.height_withStack_le (by simp [stack])
  exact Does.bind (does_pop stack (Does.pure ⟨.of_eq (Nat.le_succ_of_le height) rfl, h⟩))

theorem leads_pops (stack : m.stack = below ++ items) (h : Q (m.withStack below)) :
    Leads cfg total (List.replicate items.length ⟨.pop, ()⟩) m Q := by
  induction items using List.reverseRecOn generalizing m with
  | nil =>
    rw [List.append_nil] at stack
    rw [← stack] at h
    exact h
  | append_singleton items v ih =>
    rw [List.length_append, List.length_singleton, List.replicate_succ]
    rw [← List.append_assoc] at stack
    exact Leads.append (leads_pop stack (ih (m := m.withStack (below ++ items)) rfl h))

/-- On an empty stack a `POP` drops the mark. -/
theorem leads_pop_mark {marks : List (List Value)} (stack : m.stack = [])
    (saved : m.marks = below :: marks) (h : Q { m with stack := below, marks := marks }) :
    Leads cfg total [⟨.pop, ()⟩] m Q := by
  refine .one (.of trivial rfl) fun _ => Does.get fun st machine counted => ?_
  have empty : st.stack.isEmpty = true := by
    have items : st.stack.toList = m.stack := by rw [← machine]; rfl
    simpa [stack] using items
  rw [if_pos empty]
  have height := Machine.height_unmark_le saved
  exact Does.bind (does_popMark saved (Does.pure ⟨.of_eq (Nat.le_succ_of_le height) rfl, h⟩))

theorem leads_popMark {marks : List (List Value)} (saved : m.marks = below :: marks)
    (h : Q { m with stack := below, marks := marks }) :
    Leads cfg total [⟨.popMark, ()⟩] m Q := by
  refine .one (.of trivial rfl) fun _ => ?_
  have height := Machine.height_unmark_le saved
  exact Does.bind (does_popMark saved (Does.pure ⟨.of_eq (Nat.le_succ_of_le height) rfl, h⟩))

/-! ## The memo -/

theorem leads_fetch {id : Nat} (ordinary : Instruction.Ordinary ⟨op, operand⟩)
    (run : execute cfg op operand = fetchMemo cfg id) (found : m.memo[id]? = some v)
    (h : Q (m.push v)) : Leads cfg total [⟨op, operand⟩] m Q := by
  refine .one ordinary fun room => ?_
  rw [run]
  have := room.1
  exact does_fetchMemo found (by omega) ⟨.of_eq (Nat.le_of_eq (Machine.height_push v)) rfl, h⟩

theorem leads_remember {name : Opcode} {id : Nat} (ordinary : Instruction.Ordinary ⟨op, operand⟩)
    (run : ∀ st : State H, st.machine = m →
      execute cfg op operand st = putMemo cfg name id st)
    (stack : m.stack = below ++ [v]) (h : Q (m.remember id v)) :
    Leads cfg total [⟨op, operand⟩] m Q := by
  refine .one ordinary fun room st machine counted => ?_
  rw [run st machine]
  have := room.2
  have done : Does total (putMemo cfg name id) m fun _ m' => m.Grows m' ∧ Q m' :=
    does_putMemo stack (by omega) ⟨⟨Nat.le_succ _, Std.HashMap.size_insert_le⟩, h⟩
  exact done st machine counted

/-- What is remembered under the id is pushed. -/
theorem leads_get {p : Protocol} {id : Nat} (small : id < 2 ^ 32) (found : m.memo[id]? = some v)
    (h : Q (m.push v)) : Leads cfg total [Encoder.getInstruction p id] m Q := by
  unfold Encoder.getInstruction
  split
  · split
    · next short =>
      refine leads_fetch (.of trivial rfl) ?_ found h
      show fetchMemo cfg (UInt8.ofNat id).toNat = _
      rw [UInt8.toNat_ofNat_of_lt' short]
    · refine leads_fetch (.of trivial rfl) ?_ found h
      show fetchMemo cfg (UInt32.ofNat id).toNat = _
      rw [UInt32.toNat_ofNat_of_lt' small]
  · refine leads_fetch (.of (Literal.newline_not_mem_decimalLine _) rfl) ?_ found h
    show spelled (.badLiteral .get) (Literal.index? (Encoder.decimalLine id)) >>= fetchMemo cfg = _
    rw [Literal.index?_decimalLine (show id < 2 ^ 64 by omega)]
    rfl

/-- The top of the stack is remembered under the id. From protocol 4 on the id is not written: it is
    the next one. -/
theorem leads_put {p : Protocol} {id : Nat} (small : id < 2 ^ 32) (stack : m.stack = below ++ [v])
    (h : Q (m.remember (if 4 ≤ p.val then m.memo.size else id) v)) :
    Leads cfg total [Encoder.putInstruction p id] m Q := by
  unfold Encoder.putInstruction
  split at h
  · rw [if_pos ‹_›]
    have run : ∀ st : State H, st.machine = m →
        execute cfg .memoize () st = putMemo cfg .memoize m.memo.size st := by
      rintro st rfl
      rfl
    exact leads_remember (.of trivial rfl) run stack h
  rw [if_neg ‹_›]
  split
  · split
    · next short =>
      have run : execute cfg .binPut (UInt8.ofNat id) = putMemo cfg .binPut id := by
        show putMemo cfg .binPut (UInt8.ofNat id).toNat = _
        rw [UInt8.toNat_ofNat_of_lt' short]
      exact leads_remember (.of trivial rfl) (fun st _ => congrFun run st) stack h
    · have run : execute cfg .longBinPut (UInt32.ofNat id) = putMemo cfg .longBinPut id := by
        show putMemo cfg .longBinPut (UInt32.ofNat id).toNat = _
        rw [UInt32.toNat_ofNat_of_lt' small]
      exact leads_remember (.of trivial rfl) (fun st _ => congrFun run st) stack h
  · have run : execute cfg .put (Encoder.decimalLine id) = putMemo cfg .put id := by
      show spelled (.badLiteral .put) (Literal.index? (Encoder.decimalLine id)) >>= putMemo cfg .put = _
      rw [Literal.index?_decimalLine (show id < 2 ^ 64 by omega)]
      rfl
    have fits := Literal.newline_not_mem_decimalLine id
    exact leads_remember (.of fits rfl) (fun st _ => congrFun run st) stack h

/-! ## Containers -/

theorem leads_tuple {marks : List (List Value)} (stack : m.stack = v :: items)
    (saved : m.marks = below :: marks)
    (h : Q ({ m with stack := below, marks := marks }.pushNew (.tuple (v :: items)))) :
    Leads cfg total [⟨.tuple, ()⟩] m Q := by
  refine .one (.of trivial rfl) fun room => ?_
  refine Does.bind (does_popMark saved (Does.bind ?_))
  simp only [stack, allocTuple]
  exact does_pushNew room (Machine.height_unmark_le saved) rfl h

theorem leads_emptyTuple_mark {marks : List (List Value)} (stack : m.stack = [])
    (saved : m.marks = below :: marks)
    (h : Q ({ m with stack := below, marks := marks }.push .emptyTuple)) :
    Leads cfg total [⟨.tuple, ()⟩] m Q := by
  refine .one (.of trivial rfl) fun room => ?_
  refine Does.bind (does_popMark saved (Does.bind ?_))
  simp only [stack, allocTuple]
  have height := Machine.height_unmark_le saved
  have := room.1
  refine Does.pure (does_push (by omega) ⟨.of_eq ?_ rfl, h⟩)
  rw [Machine.height_push]
  omega

theorem leads_list_mark {marks : List (List Value)} (stack : m.stack = [])
    (saved : m.marks = below :: marks)
    (h : Q ({ m with stack := below, marks := marks }.pushNew (.list #[]))) :
    Leads cfg total [⟨.list, ()⟩] m Q := by
  refine .one (.of trivial rfl) fun room => ?_
  refine Does.bind (does_popMark saved (Does.bind ?_))
  rw [stack]
  exact does_pushNew room (Machine.height_unmark_le saved) rfl h

theorem leads_dict_mark {marks : List (List Value)} (stack : m.stack = [])
    (saved : m.marks = below :: marks)
    (h : Q ({ m with stack := below, marks := marks }.pushNew (.dict .empty))) :
    Leads cfg total [⟨.dict, ()⟩] m Q := by
  refine .one (.of trivial rfl) fun room => ?_
  refine Does.bind (does_popMark saved ?_)
  rw [stack]
  refine Does.get fun st _ _ => Does.bind (Does.pure ?_)
  exact Does.bind (does_pushNew room (Machine.height_unmark_le saved) rfl h)

theorem leads_shortTuple {count : Nat} (ordinary : Instruction.Ordinary ⟨op, operand⟩)
    {name : Opcode} (run : execute cfg op operand = pushShortTuple cfg name count)
    (stack : m.stack = below ++ v :: items) (length : (v :: items).length = count)
    (h : Q ((m.withStack below).pushNew (.tuple (v :: items)))) :
    Leads cfg total [⟨op, operand⟩] m Q := by
  refine .one ordinary fun room => ?_
  rw [run]
  refine Does.bind (does_popMany stack length (Does.bind ?_))
  simp only [allocTuple]
  exact does_pushNew room (Machine.height_withStack_le (by simp [stack])) rfl h

/-! ## Contents of containers -/

/-- An action that is given the objects only. -/
def Keeps (total : Prop) (x : Decode H Unit) (m : Machine H) (Q : Machine H → Prop) : Prop :=
  Does total x m fun _ m' => ∃ store, m' = m.withStore store ∧ Q m'

omit [HostObject H] in
theorem Keeps.grows {x : Decode H Unit} {former : Machine H} (h : Keeps total x m Q)
    (height : m.height ≤ former.height) (memo : m.memo = former.memo) :
    Does total x m fun _ m' => former.Grows m' ∧ Q m' := by
  refine h.mono fun _ m' ⟨store, same, q⟩ => ⟨.of_eq ?_ ?_, q⟩
  · rw [same, Machine.height_withStore]
    omega
  · rw [same]
    exact memo

theorem keeps_appendItems {id : Nat} {former : Array Value} {items : Array Value}
    (stack : m.stack = below ++ [.ref id]) (cell : m.store.cells[id]? = some (.list former))
    (h : Q (m.withStore (m.store.modify id (extended items)))) :
    Keeps total (appendItems op items) m Q := by
  refine Does.bind (does_top stack (Does.get fun st machine counted => ?_))
  have cell' : st.store.cell? (.ref id) = some (.list former) := by rw [← cell, ← machine]; rfl
  simp only [cell']
  exact does_modifyStore (fun s => s.modify id (extended items)) ⟨_, rfl, h⟩

theorem leads_append {id : Nat} {former : Array Value}
    (stack : m.stack = below ++ [.ref id] ++ [v]) (cell : m.store.cells[id]? = some (.list former))
    (h : Q ((m.withStack (below ++ [.ref id])).withStore
      (m.store.modify id (extended #[v])))) :
    Leads cfg total [⟨.append, ()⟩] m Q := by
  refine .one (.of trivial rfl) fun _ => Does.bind (does_pop stack ?_)
  exact Keeps.grows (keeps_appendItems rfl cell h) (Machine.height_withStack_le (by simp [stack])) rfl

theorem leads_appends {id : Nat} {former : Array Value} {marks : List (List Value)}
    (saved : m.marks = (below ++ [.ref id]) :: marks)
    (cell : m.store.cells[id]? = some (.list former))
    (h : Q (({ m with stack := below ++ [.ref id], marks := marks } : Machine H).withStore
      (m.store.modify id (extended m.stack.toArray)))) :
    Leads cfg total [⟨.appends, ()⟩] m Q := by
  refine .one (.of trivial rfl) fun _ => Does.bind (does_popMark saved ?_)
  exact Keeps.grows (keeps_appendItems rfl cell h) (Machine.height_unmark_le saved) rfl

theorem keeps_setItems {id : Nat} {former : Dict} {entries : List (Value × Value)}
    (stack : m.stack = below ++ [.ref id]) (cell : m.store.cells[id]? = some (.dict former))
    (h : Keeps total (storeEntries id entries) m Q) :
    Keeps total (setItems op entries) m Q := by
  refine Does.bind (does_top stack (Does.get fun st machine counted => ?_))
  have cell' : st.store.cell? (.ref id) = some (.dict former) := by rw [← cell, ← machine]; rfl
  simp only [cell']
  exact h

theorem leads_setItem {id : Nat} {former : Dict} {key content : Value}
    (stack : m.stack = below ++ [.ref id] ++ [key] ++ [content])
    (cell : m.store.cells[id]? = some (.dict former))
    (h : Keeps total (storeEntries id [(key, content)]) (m.withStack (below ++ [.ref id])) Q) :
    Leads cfg total [⟨.setItem, ()⟩] m Q := by
  refine .one (.of trivial rfl) fun _ =>
    Does.bind (does_pop stack (Does.bind (does_pop rfl ?_)))
  have height : (m.withStack (below ++ [.ref id])).height ≤ m.height :=
    Machine.height_withStack_le (by simp [stack])
  exact Keeps.grows (keeps_setItems rfl cell h) height rfl

/-- Keys and contents in the order in which they lie on the stack. -/
def flatten (entries : List (Value × Value)) : List Value :=
  entries.flatMap fun entry => [entry.1, entry.2]

theorem pairs_go_flatten (paired entries : List (Value × Value)) :
    pairs.go paired (flatten entries) = paired.reverse ++ entries := by
  induction entries generalizing paired with
  | nil => simp [flatten, pairs.go]
  | cons entry rest ih =>
    have step : flatten (entry :: rest) = entry.1 :: entry.2 :: flatten rest := rfl
    rw [step, pairs.go, ih]
    simp

theorem pairs_flatten (op : Opcode) (entries : List (Value × Value)) :
    pairs op (flatten entries) = .ok entries := by
  have even : (flatten entries).length % 2 = 0 := by
    induction entries with
    | nil => rfl
    | cons entry rest ih =>
      have step : flatten (entry :: rest) = entry.1 :: entry.2 :: flatten rest := rfl
      rw [step]
      simp only [List.length_cons]
      omega
  rw [pairs, if_pos even, pairs_go_flatten]
  rfl

theorem leads_setItems {id : Nat} {former : Dict} {marks : List (List Value)}
    {entries : List (Value × Value)} (stack : m.stack = flatten entries)
    (saved : m.marks = (below ++ [.ref id]) :: marks)
    (cell : m.store.cells[id]? = some (.dict former))
    (h : Keeps total (storeEntries id entries)
      { m with stack := below ++ [.ref id], marks := marks } Q) :
    Leads cfg total [⟨.setItems, ()⟩] m Q := by
  refine .one (.of trivial rfl) fun _ => Does.bind (does_popMark saved ?_)
  simp only [stack, pairs_flatten]
  exact Keeps.grows (keeps_setItems rfl cell h) (Machine.height_unmark_le saved) rfl

theorem keeps_addItems {id : Nat} {former : Members} {members : List Value}
    (stack : m.stack = below ++ [.ref id]) (cell : m.store.cells[id]? = some (.set former))
    (h : Keeps total (addMembers id members) m Q) :
    Keeps total (addItems op members) m Q := by
  refine Does.bind (does_top stack (Does.get fun st machine counted => ?_))
  have cell' : st.store.cell? (.ref id) = some (.set former) := by rw [← cell, ← machine]; rfl
  simp only [cell']
  exact h

theorem leads_addItems {id : Nat} {former : Members} {marks : List (List Value)}
    (saved : m.marks = (below ++ [.ref id]) :: marks)
    (cell : m.store.cells[id]? = some (.set former))
    (h : Keeps total (addMembers id m.stack)
      { m with stack := below ++ [.ref id], marks := marks } Q) :
    Leads cfg total [⟨.addItems, ()⟩] m Q := by
  refine .one (.of trivial rfl) fun _ => Does.bind (does_popMark saved ?_)
  exact Keeps.grows (keeps_addItems rfl cell h) (Machine.height_unmark_le saved) rfl

omit [HostObject H] in
/-- The outcome of using values as keys. -/
theorem does_keyed {α : Type} {Q : α → Machine H → Prop} {outcome : Except KeyError α}
    (h : (∃ a, outcome = .ok a ∧ Q a m) ∨ (¬total ∧ outcome = .error .endless)) :
    Does total (keyed outcome) m Q := by
  rcases h with ⟨a, rfl, q⟩ | ⟨partly, rfl⟩
  · exact Does.pure q
  · exact fun st _ _ => .inr ⟨partly, st, rfl⟩

theorem leads_frozenSet {marks : List (List Value)} (saved : m.marks = below :: marks)
    (h : (∃ members, m.store.membersOf m.stack = .ok members ∧
        Q ({ m with stack := below, marks := marks }.pushNew (.frozenset members))) ∨
      (¬total ∧ m.store.membersOf m.stack = .error .endless)) :
    Leads cfg total [⟨.frozenSet, ()⟩] m Q := by
  refine .one (.of trivial rfl) fun room => Does.bind (does_popMark saved ?_)
  refine Does.get fun st machine counted => Does.bind (does_keyed ?_)
  have store : st.store = m.store := by rw [show st.store = st.machine.store from rfl, machine]
  rw [store]
  rcases h with ⟨members, outcome, q⟩ | broken
  · have height := Machine.height_unmark_le saved
    exact .inl ⟨members, outcome, Does.bind (does_pushNew room height rfl q)⟩
  · exact .inr broken

/-! ## Globals -/

/-- What a name of the stream leads to while `protocol` is announced: the symbol that is bound to
    `name`, the current spelling of it. -/
structure Finds (cfg : Config H) (protocol : Nat) (wire name : Name) (symbol : Symbol) : Prop where
  spelling : (if protocol < 3 && cfg.fixImports
    then LegacyName.toCurrent wire.module wire.qualname else (wire.module, wire.qualname)) =
      (name.module, name.qualname)
  unregistered : cfg.registry.decodeGlobal? name = none
  bound : cfg.registry.resolve name = .found symbol

/-- The global of a name that was resolved. -/
def resolved (name : Name) (symbol : Symbol) : Global :=
  { Global.named name.module name.qualname with symbol := some symbol }

/-- While `protocol` is announced, a name of the stream stands for the global. -/
def Stands (cfg : Config H) (protocol : Nat) (wire : Name) (g : Global) : Prop :=
  ∀ st : State H, st.protocol = protocol →
    findGlobal cfg wire.module wire.qualname st = alloc (.global g) st

omit [HostObject H] in
theorem Finds.stands {protocol : Nat} {wire name : Name} {symbol : Symbol}
    (finds : Finds cfg protocol wire name symbol) :
    Stands cfg protocol wire (resolved name symbol) := by
  rintro st rfl
  simp only [findGlobal, bind_apply, get_apply]
  rw [finds.spelling]
  simp only [finds.unregistered, finds.bound]
  rfl

section
variable {wire name : Name} {g : Global}

omit [HostObject H] in
theorem does_pushGlobal {find : Decode H Value}
    (run : find = findGlobal cfg wire.module wire.qualname) (stands : Stands cfg m.protocol wire g)
    (room : m.height < cfg.limits.maxStack) (h : Q (m.pushNew (.global g))) :
    Does total (find >>= push cfg) m fun _ m' => m'.height ≤ m.height + 1 ∧
      m'.memo = m.memo ∧ Q m' := by
  have found : Does total find m fun v m' =>
      Does total (push cfg v) m' fun _ m' => m'.height ≤ m.height + 1 ∧ m'.memo = m.memo ∧ Q m' := by
    intro st machine counted
    have protocol : st.protocol = m.protocol := congrArg Machine.protocol machine
    have created : Does total (alloc (.global g)) m fun v m' =>
        Does total (push cfg v) m' fun _ m' => m'.height ≤ m.height + 1 ∧ m'.memo = m.memo ∧ Q m' := by
      refine does_alloc (does_push room ⟨Nat.le_of_eq ?_, rfl, h⟩)
      rw [Machine.height_push, Machine.height_withStore]
    rw [run, stands st protocol]
    exact created st machine counted
  exact Does.bind found

theorem leads_global (stands : Stands cfg m.protocol wire g)
    (lines : 0x0a ∉ Text.utf8 wire.module ∧ 0x0a ∉ Text.utf8 wire.qualname)
    (h : Q (m.pushNew (.global g))) :
    Leads cfg total [⟨.global, (Text.utf8 wire.module, Text.utf8 wire.qualname)⟩] m Q := by
  refine .one ⟨nofun, nofun, lines, ?_⟩ fun room => ?_
  · simp [Text.ofUtf8?_utf8]
  · have := room.1
    refine (does_pushGlobal ?_ stands (by omega) h).mono fun _ _ h => ⟨.of_eq h.1 h.2.1, h.2.2⟩
    simp only [lineGlobal, Text.ofUtf8?_utf8, spelled, pure_bind]

theorem leads_stackGlobal (stands : Stands cfg m.protocol wire g)
    (stack : m.stack = below ++ [.str wire.module] ++ [.str wire.qualname])
    (h : Q ((m.withStack below).pushNew (.global g))) :
    Leads cfg total [⟨.stackGlobal, ()⟩] m Q := by
  refine .one (.of trivial rfl) fun room =>
    Does.bind (does_pop stack (Does.bind (does_pop rfl ?_)))
  have height : (m.withStack below).height ≤ m.height := Machine.height_withStack_le (by simp [stack])
  have := room.1
  refine (does_pushGlobal (m := m.withStack below) rfl stands (by omega) h).mono
    fun _ _ h => ⟨.of_eq ?_ h.2.1, h.2.2⟩
  have := h.1
  omega

theorem ordinary_extensionInstruction (code : Nat) :
    (Encoder.extensionInstruction code).Ordinary := by
  obtain ⟨-, same⟩ | ⟨-, same⟩ | ⟨-, same⟩ := Encoder.extensionInstruction_cases code <;>
    exact same ▸ .of trivial rfl

/-- The instruction that is chosen for a code stands for that code. The widest operand has a sign, and no
    extension code reaches it. -/
theorem execute_extensionInstruction (cfg : Config H) {code : Nat} (bound : code ≤ maxExtensionCode) :
    execute cfg (Encoder.extensionInstruction code).op (Encoder.extensionInstruction code).operand =
      pushExtension cfg (Encoder.extensionInstruction code).op code := by
  obtain ⟨one, same⟩ | ⟨⟨-, two⟩, same⟩ | ⟨-, same⟩ := Encoder.extensionInstruction_cases code
  · rw [same]
    show pushExtension cfg .ext1 (UInt8.ofNat code).toNat = _
    rw [UInt8.toNat_ofNat_of_lt' one]
  · rw [same]
    show pushExtension cfg .ext2 (UInt16.ofNat code).toNat = _
    rw [UInt16.toNat_ofNat_of_lt' two]
  · unfold maxExtensionCode at bound
    have read : (Int32.ofNat code).toInt = code := Int32.toInt_ofNat_of_lt (by omega)
    rw [same]
    simp only [execute, pushSignedExtension, read]
    rw [if_neg (by omega)]
    rfl

omit [HostObject H] in
/-- The name of a code is looked up as a name of the stream is. -/
theorem pushExtension_of_known {code : Nat} (op : Opcode) (positive : 0 < code)
    (known : cfg.registry.extension? code = some name) : pushExtension cfg op code =
      (findGlobal cfg name.module name.qualname >>= push cfg) := by
  rw [pushExtension, if_neg (Nat.ne_of_gt positive)]
  simp only [known]

theorem leads_extensionInstruction {code : Nat} (positive : 0 < code)
    (bound : code ≤ maxExtensionCode) (known : cfg.registry.extension? code = some name)
    (stands : Stands cfg m.protocol name g) (h : Q (m.pushNew (.global g))) :
    Leads cfg total [Encoder.extensionInstruction code] m Q := by
  refine .one (ordinary_extensionInstruction code) fun room => ?_
  rw [execute_extensionInstruction cfg bound, pushExtension_of_known _ positive known]
  have := room.1
  exact (does_pushGlobal rfl stands (by omega) h).mono fun _ _ h => ⟨.of_eq h.1 h.2.1, h.2.2⟩

end

/-! ## Calls -/

/-- The outcome of an action of the host on the objects. -/
def Acts (total : Prop) {α : Type} (action : Action H α) (store : Store H)
    (Q : α → Store H → Prop) : Prop :=
  (∃ a store', action store = .ok a store' ∧ Q a store') ∨
    (¬total ∧ ∃ store', action store = .error .endless store')

omit [HostObject H] in
theorem does_reported {α : Type} {Q : Except String α → Machine H → Prop} {label : String}
    {action : Action H α}
    (h : Acts total action m.store fun a store => Q (.ok a) (m.withStore store)) :
    Does total (reported label action) m Q := by
  intro st machine counted
  subst machine
  rcases h with ⟨a, store, run, q⟩ | ⟨partly, store, run⟩
  · refine .inl ⟨.ok a, { st with
      store := store
      trace := (st.trace.enter .call label st.input.position).exit .call st.input.position },
      ?_, counted, rfl, q⟩
    simp only [reported, enterCall, exitCall, hosted, bind_apply, modify_apply]
    rw [show st.store = st.machine.store from rfl, run]
    rfl
  · refine .inr ⟨partly, { st with
      store := store, trace := st.trace.enter .call label st.input.position }, ?_⟩
    simp only [reported, enterCall, hosted, bind_apply, modify_apply]
    rw [show st.store = st.machine.store from rfl, run]

/-- The value of a call is pushed in the place of what the call takes. -/
theorem does_called {former : Machine H} {label : String} {callee : Value} {action : Action H Value}
    (room : former.Room cfg 1) (height : m.height ≤ former.height) (memo : m.memo = former.memo)
    (h : Acts total action m.store fun v store => Q ((m.withStore store).push v)) :
    Does total (reported label action >>= called callee) m fun v m' =>
      Does total (push cfg v) m' fun _ m' => former.Grows m' ∧ Q m' := by
  have := room.1
  refine Does.bind (does_reported ?_)
  rcases h with ⟨v, store, run, q⟩ | broken
  · refine .inl ⟨v, store, run, Does.pure (does_push ?_ ⟨.of_eq ?_ memo, q⟩)⟩
    · rw [Machine.height_withStore]
      omega
    · rw [Machine.height_push, Machine.height_withStore]
      omega
  · exact .inr broken

theorem leads_reduce {function args : Value} {g : Global} {symbol : Symbol}
    (stack : m.stack = below ++ [function] ++ [args]) (tuple : m.store.tuple? args = some items)
    (global : m.store.global? function = some g) (bound : g.symbol = some symbol)
    (h : Acts total (cfg.host.callSymbol symbol items) m.store fun v store =>
      Q (((m.withStack below).withStore store).push v)) :
    Leads cfg total [⟨.reduce, ()⟩] m Q := by
  refine .one (.of trivial rfl) fun room =>
    Does.bind (does_pop stack (Does.bind (does_pop rfl (Does.bind ?_))))
  have height : (m.withStack below).height ≤ m.height := Machine.height_withStack_le (by simp [stack])
  refine does_tupleItems tuple (Does.bind (Does.get fun st machine counted => ?_))
  have found : st.store.global? function = some g := by
    rw [← global, show st.store = st.machine.store from rfl, machine]
    rfl
  simp only [found, bound]
  exact does_called room height rfl h

/-! ## Instances -/

section
variable {cls args keywords : Value} (tuple : m.store.tuple? args = some items)
  (h : Acts total (cfg.host.create cls items) m.store fun v store =>
    Q (((m.withStack below).withStore store).push v))
include tuple h

theorem leads_creation (stack : m.stack = below ++ [cls] ++ [args]) :
    Leads cfg total [⟨.newObj, ()⟩] m Q := by
  refine .one (.of trivial rfl) fun room =>
    Does.bind (does_pop stack (Does.bind (does_pop rfl (Does.bind ?_))))
  have height : (m.withStack below).height ≤ m.height := Machine.height_withStack_le (by simp [stack])
  refine does_tupleItems tuple (Does.bind (Does.get fun st machine counted => ?_))
  exact does_called room height rfl h

/-- Keyword arguments are allowed if there are none, or if a class ignores them. -/
theorem leads_newObjEx {d : Dict} (stack : m.stack = below ++ [cls] ++ [args] ++ [keywords])
    (dict : m.store.dict? keywords = some d) (allowed : d.size = 0 ∨ isClass m.store cls = true) :
    Leads cfg total [⟨.newObjEx, ()⟩] m Q := by
  refine .one (.of trivial rfl) fun room =>
    Does.bind (does_pop stack (Does.bind (does_pop rfl (Does.bind (does_pop rfl (Does.bind ?_))))))
  have height : (m.withStack below).height ≤ m.height := Machine.height_withStack_le (by simp [stack])
  refine does_tupleItems tuple (Does.get fun st machine counted => ?_)
  have store : st.store = m.store := by
    rw [show st.store = st.machine.store from rfl, machine]
    rfl
  have plain : (d.size != 0 && !isClass st.store cls) = false := by
    rw [store]
    rcases allowed with none | ignored <;> simp [*]
  have dict : st.store.dict? keywords = some d := by rw [store, dict]
  simp only [dict, plain]
  refine Does.bind (Does.get fun st machine counted => ?_)
  exact does_called room height rfl h

end

theorem leads_newObj {cls : Value} {g : Global} {c : Class}
    (stack : m.stack = below ++ [cls] ++ [.emptyTuple]) (global : m.store.global? cls = some g)
    (bound : g.symbol = some (.ofClass c))
    (h : Q ((m.withStack below).pushNew (.inst c .empty))) :
    Leads cfg total [⟨.newObj, ()⟩] m Q := by
  refine leads_creation rfl (.inl ⟨.ref m.store.size, m.store.push (.inst c .empty), ?_, h⟩) stack
  simp only [Host.create, Host.carryOut, Builtin.reading, bind_apply, get_apply,
    Store.creationTarget, Store.creator, global, bound]
  rfl

theorem leads_build {id state : Nat} {c : Class} {former d : Dict}
    (stack : m.stack = below ++ [.ref id] ++ [.ref state])
    (cell : m.store.cells[id]? = some (.inst c former))
    (hooks : (cfg.host.hooks c.key).setState = none)
    (given : m.store.cells[state]? = some (.dict d))
    (h : Keeps total (storeEntries id d.entries.toList) (m.withStack (below ++ [.ref id])) Q) :
    Leads cfg total [⟨.build, ()⟩] m Q := by
  refine .one (.of trivial rfl) fun room => Does.bind (does_pop stack ?_)
  refine Keeps.grows (Does.bind (does_top rfl (Does.get fun st machine counted => ?_))) ?_ rfl
  · have store : st.store = m.store := by
      rw [show st.store = st.machine.store from rfl, machine]
      rfl
    have cell' : st.store.cell? (.ref id) = some (.inst c former) := by rw [store]; exact cell
    simp only [cell', buildInstance, hooks]
    refine Does.get fun st machine counted => ?_
    have store : st.store = m.store := by
      rw [show st.store = st.machine.store from rfl, machine]
      rfl
    have given' : st.store.cell? (.ref state) = some (.dict d) := by rw [store]; exact given
    have tuple : st.store.tuple? (.ref state) = none := by simp only [Store.tuple?, given']
    simp only [tuple]
    refine Does.get fun st machine counted => ?_
    have store : st.store = m.store := by
      rw [show st.store = st.machine.store from rfl, machine]
      rfl
    have dict : st.store.dict? (.ref state) = some d := by
      rw [store, Store.dict?, show m.store.cell? (.ref state) = some (.dict d) from given]
    simp only [dict]
    exact h
  · show (m.withStack (below ++ [.ref id])).height ≤ _
    exact Machine.height_withStack_le (by simp [stack])

theorem leads_proto {p : UInt8} (known : p.toNat ≤ 5) (h : Q { m with protocol := p.toNat }) :
    Leads cfg total [⟨.proto, p⟩] m Q := by
  refine .one (.of trivial rfl) fun _ => ?_
  intro st machine counted
  subst machine
  refine .inl ⟨(), { st with protocol := p.toNat }, ?_, counted, rfl,
    .of_eq (Nat.le_succ _) rfl, h⟩
  have allowed : ¬Protocol.highest.val < p.toNat := Nat.not_lt.2 known
  simp only [execute, announce, if_neg allowed]
  rfl

end Instructions

end Decoder

end ObjectStream
