import Mathlib.Algebra.GroupWithZero.Nat
import Mathlib.Data.List.Induction
import ObjectStream.Proofs.Reading

/-!
The machine behind the decoder.

What instructions do depends on the objects, the memo and the stack; where the bytes come from and
what is reported does not matter. `Machine` is that part of a decoder, and `Does` says that an action
ends on every decoder with that part, in a value and a machine that satisfy a condition. Where `total`
does not hold the action may also meet a comparison that has no end. `Leads` says the same of a list
of instructions. The bounds on the height of the stack and the size of the memo stay inside `Leads`:
an instruction adds at most one to either.
-/

namespace ObjectStream.Decoder

variable {H : Type}

/-- The part of a decoder that instructions work on. -/
structure Machine (H : Type) where
  store : Store H
  memo : Std.HashMap Nat Value
  /-- The stack above the last mark, the top at the end. -/
  stack : List Value
  /-- The stacks that the marks have saved, the last one first. -/
  marks : List (List Value)
  protocol : Nat

namespace Machine

/-- The number of items on the stack, saved ones included. -/
def height (m : Machine H) : Nat := m.stack.length + (m.marks.map List.length).sum

/-- The machine with a further value on its stack. -/
def push (m : Machine H) (v : Value) : Machine H := { m with stack := m.stack ++ [v] }

/-- The machine with another stack. -/
def withStack (m : Machine H) (stack : List Value) : Machine H := { m with stack := stack }

/-- The machine with other objects. -/
def withStore (m : Machine H) (store : Store H) : Machine H := { m with store := store }

/-- The machine with a further object, which lies on its stack. -/
def pushNew (m : Machine H) (cell : Cell H) : Machine H :=
  (m.withStore (m.store.push cell)).push (.ref m.store.size)

/-- The machine behind a mark. -/
def mark (m : Machine H) : Machine H := { m with stack := [], marks := m.stack :: m.marks }

/-- The machine that remembers a value. -/
def remember (m : Machine H) (id : Nat) (v : Value) : Machine H :=
  { m with memo := m.memo.insert id v }

end Machine

/-- The machine of a decoder. -/
def State.machine (st : State H) : Machine H where
  store := st.store
  memo := st.memo
  stack := st.stack.toList
  marks := st.marks.map Array.toList
  protocol := st.protocol

/-- The saved items are counted. -/
def State.Counted (st : State H) : Prop := st.marked = (st.marks.map Array.size).sum

theorem State.height_eq {st : State H} (h : st.Counted) : st.height = st.machine.height := by
  have sizes : (st.marks.map Array.size).sum = ((st.marks.map Array.toList).map List.length).sum := by
    simp [Function.comp_def]
  simp [State.height, Machine.height, State.machine, h.trans sizes]

/-- The action ends on every decoder with this machine, in a value and a machine that satisfy the
    condition, and reads nothing. Unless `total`, it may also compare without end. -/
def Does (total : Prop) {α : Type} (x : Decode H α) (m : Machine H) (Q : α → Machine H → Prop) :
    Prop :=
  ∀ st : State H, st.machine = m → st.Counted →
    (∃ a st', x st = .ok a st' ∧ st'.Counted ∧ st'.input = st.input ∧ Q a st'.machine) ∨
      (¬total ∧ ∃ st', x st = .error .endless st')

namespace Does

variable {total : Prop} {α β : Type} {m : Machine H} {Q : α → Machine H → Prop}

theorem mono {x : Decode H α} {R : α → Machine H → Prop} (h : Does total x m R)
    (hR : ∀ a m', R a m' → Q a m') : Does total x m Q := by
  intro st machine counted
  rcases h st machine counted with ⟨a, st', run, counted', input, r⟩ | broken
  · exact .inl ⟨a, st', run, counted', input, hR _ _ r⟩
  · exact .inr broken

theorem pure {a : α} (h : Q a m) : Does total (pure a) m Q :=
  fun st machine counted => .inl ⟨a, st, rfl, counted, rfl, machine ▸ h⟩

theorem bind {x : Decode H β} {f : β → Decode H α}
    (h : Does total x m fun b m' => Does total (f b) m' Q) : Does total (x >>= f) m Q := by
  intro st machine counted
  rcases h st machine counted with ⟨b, st', run, counted', input, rest⟩ | ⟨partly, st', run⟩
  · rw [bind_ok run]
    rcases rest st' rfl counted' with ⟨a, st'', run', counted'', input', q⟩ | broken
    · exact .inl ⟨a, st'', run', counted'', input'.trans input, q⟩
    · exact .inr broken
  · exact .inr ⟨partly, st', by rw [bind_apply, run]⟩

/-- An action that ends need not be allowed to compare without end. -/
theorem ends {x : Decode H α} (h : Does True x m Q) : Does total x m Q := fun st machine counted =>
  .inl ((h st machine counted).resolve_right fun ⟨partly, _⟩ => partly trivial)

/-- An action that first looks at the state sees the machine. -/
theorem get {f : State H → Decode H α}
    (h : ∀ st : State H, st.machine = m → st.Counted → Does total (f st) m Q) :
    Does total (get >>= f) m Q :=
  fun st machine counted => h st machine counted st machine counted

end Does

/-- The action fails on every decoder with this machine. -/
def Refuses {α : Type} (x : Decode H α) (m : Machine H) : Prop :=
  ∀ st : State H, st.machine = m → st.Counted → ∃ e st', x st = .error e st'

section
variable {α β : Type} {m : Machine H}

theorem refuses_fail (cause : DecodeError) : Refuses (fail cause : Decode H α) m :=
  fun st _ _ => ⟨_, st, rfl⟩

theorem Refuses.bind {x : Decode H α} {f : α → Decode H β} (h : Refuses x m) :
    Refuses (x >>= f) m := by
  intro st machine counted
  obtain ⟨e, st', fails⟩ := h st machine counted
  exact ⟨e, st', by rw [bind_apply, fails]⟩

theorem Refuses.get {f : State H → Decode H α}
    (h : ∀ st : State H, st.machine = m → Refuses (f st) m) : Refuses (get >>= f) m :=
  fun st machine counted => h st machine st machine counted

/-- What comes behind an action may be refused. -/
theorem Does.refuses {x : Decode H α} {f : α → Decode H β}
    (h : Does True x m fun a m' => Refuses (f a) m') : Refuses (x >>= f) m := by
  intro st machine counted
  obtain ⟨a, st', run, counted', -, refuses⟩ | ⟨partly, -⟩ := h st machine counted
  · obtain ⟨e, st'', fails⟩ := refuses st' rfl counted'
    exact ⟨e, st'', by rw [bind_ok run, fails]⟩
  · exact absurd trivial partly

end

/-! ## The operand stack and the memo -/

section Basic
variable {total : Prop} {α : Type} {m : Machine H} {cfg : Config H} {op : Opcode} {v : Value}
  {below items : List Value}

theorem does_alloc {Q : Value → Machine H → Prop} {cell : Cell H}
    (h : Q (.ref m.store.size) (m.withStore (m.store.push cell))) :
    Does total (alloc cell) m Q := by
  intro st machine counted
  subst machine
  exact .inl ⟨_, _, rfl, counted, rfl, h⟩

theorem does_push {Q : Unit → Machine H → Prop} (room : m.height < cfg.limits.maxStack)
    (h : Q () (m.push v)) : Does total (push cfg v) m Q := by
  intro st machine counted
  have fits : ¬cfg.limits.maxStack ≤ st.height := by
    rw [State.height_eq counted, machine]
    omega
  refine .inl ⟨(), { st with stack := st.stack.push v }, ?_, counted, rfl, ?_⟩
  · simp [push, bind_apply, get_apply, fits, modify_apply]
  · subst machine
    simpa [State.machine, Machine.push] using h

theorem stack_of_machine {st : State H} (machine : st.machine = m)
    (stack : m.stack = below ++ [v]) : st.stack = below.toArray.push v := by
  rw [← machine] at stack
  apply Array.toList_inj.1
  simpa [State.machine] using stack

theorem does_pop {Q : Value → Machine H → Prop} (stack : m.stack = below ++ [v])
    (h : Q v (m.withStack below)) : Does total (pop op) m Q := by
  intro st machine counted
  have items := stack_of_machine machine stack
  have back : st.stack.back? = some v := by rw [items, Array.back?_push]
  refine .inl ⟨v, { st with stack := st.stack.pop }, ?_, counted, rfl, ?_⟩
  · simp only [pop, bind_apply, get_apply, back]
    rfl
  · subst machine
    simpa [State.machine, Machine.withStack, items] using h

theorem does_top {Q : Value → Machine H → Prop} (stack : m.stack = below ++ [v])
    (h : Q v m) : Does total (top op) m Q := by
  intro st machine counted
  have items := stack_of_machine machine stack
  refine .inl ⟨v, st, ?_, counted, rfl, machine ▸ h⟩
  simp [top, bind_apply, get_apply, items, pure_apply]

theorem does_popOnto {Q : List Value → Machine H → Prop} (taken : List Value)
    (stack : m.stack = below ++ items) (h : Q (items ++ taken) (m.withStack below)) :
    Does total (popOnto op taken items.length) m Q := by
  induction items using List.reverseRecOn generalizing m taken with
  | nil =>
    refine Does.pure ?_
    rw [List.append_nil] at stack
    simpa [Machine.withStack, ← stack] using h
  | append_singleton items v ih =>
    rw [List.length_append, List.length_singleton]
    have stack' : m.stack = (below ++ items) ++ [v] := by simp [stack]
    refine Does.bind (does_pop stack' ?_)
    exact ih (v :: taken) rfl (by simpa [Machine.withStack] using h)

theorem does_popMany {Q : List Value → Machine H → Prop} {count : Nat}
    (stack : m.stack = below ++ items) (length : items.length = count)
    (h : Q items (m.withStack below)) : Does total (popMany op count) m Q := by
  subst length
  refine Does.get fun st machine counted => ?_
  have enough : ¬st.stack.size < items.length := by
    have size : st.stack.toList = m.stack := by rw [← machine]; rfl
    rw [← Array.length_toList, size, stack, List.length_append]
    omega
  rw [if_neg enough]
  exact does_popOnto [] stack (by simpa using h)

theorem does_mark {Q : Unit → Machine H → Prop} (h : Q () m.mark) : Does total mark m Q := by
  intro st machine counted
  subst machine
  refine .inl ⟨(), _, rfl, ?_, rfl, ?_⟩
  · simp only [State.Counted, List.map_cons, List.sum_cons] at counted ⊢
    omega
  · simpa [State.machine, Machine.mark] using h

theorem does_popMark {Q : Array Value → Machine H → Prop} {marks : List (List Value)}
    (saved : m.marks = below :: marks)
    (h : Q m.stack.toArray { m with stack := below, marks := marks }) :
    Does total (popMark op) m Q := by
  intro st machine counted
  subst machine
  obtain ⟨former, others, marks', rfl, rfl⟩ :
      ∃ former others, st.marks = former :: others ∧ former.toList = below ∧
        others.map Array.toList = marks := by
    cases held : st.marks with
    | nil => simp [State.machine, held] at saved
    | cons former others =>
      simp only [State.machine, held, List.map_cons, List.cons.injEq] at saved
      exact ⟨former, others, rfl, saved⟩
  refine .inl ⟨st.stack,
    { st with marked := st.marked - former.size, marks := others, stack := former }, ?_, ?_, rfl,
    by simpa [State.machine] using h⟩
  · simp only [popMark, bind_apply, get_apply, marks']
    rfl
  · simp only [State.Counted, marks', List.map_cons, List.sum_cons] at counted ⊢
    omega

theorem does_fetchMemo {Q : Unit → Machine H → Prop} {id : Nat} (found : m.memo[id]? = some v)
    (room : m.height < cfg.limits.maxStack) (h : Q () (m.push v)) :
    Does total (fetchMemo cfg id) m Q := by
  refine Does.get fun st machine counted => ?_
  have found' : st.memo[id]? = some v := by rw [← found, ← machine]; rfl
  simp only [found']
  exact does_push room h

theorem does_putMemo {Q : Unit → Machine H → Prop} {id : Nat} (stack : m.stack = below ++ [v])
    (room : m.memo.size < cfg.limits.maxMemo) (h : Q () (m.remember id v)) :
    Does total (putMemo cfg op id) m Q := by
  refine Does.bind (does_top stack (Does.get fun st machine counted => ?_))
  have fits : ¬cfg.limits.maxMemo ≤ st.memo.size := by
    have same : st.memo = m.memo := by rw [← machine]; rfl
    rw [same]
    omega
  rw [if_neg (by simp [fits])]
  intro st machine counted
  subst machine
  exact .inl ⟨(), _, rfl, counted, rfl, h⟩

theorem does_tupleItems {Q : List Value → Machine H → Prop}
    (tuple : m.store.tuple? v = some items) (h : Q items m) :
    Does total (tupleItems op v) m Q := by
  refine Does.get fun st machine counted => ?_
  have tuple' : st.store.tuple? v = some items := by rw [← tuple, ← machine]; rfl
  simp only [tuple']
  exact Does.pure h

/-- An action that changes only the objects. -/
theorem does_modifyStore {Q : Unit → Machine H → Prop} (change : Store H → Store H)
    (h : Q () (m.withStore (change m.store))) :
    Does total (modify fun st => { st with store := change st.store }) m Q := by
  intro st machine counted
  subst machine
  exact .inl ⟨(), _, rfl, counted, rfl, h⟩

end Basic

end ObjectStream.Decoder
