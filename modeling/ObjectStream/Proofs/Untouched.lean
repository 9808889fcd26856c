import ObjectStream.Decoder
import ObjectStream.Proofs.Window

/-!
What actions leave alone.

An action leaves a part of the state alone if that part is afterwards what it was before, whether the
action fails or not (`Leaves`). The basic steps of a decoder work on its input, its stack, its memo and
its objects. A part that depends on the objects and the reports only (`Aloof`) is left alone by those
that do not touch objects, and by the others if the change of the objects does not show in it. Those
that report something leave alone what depends on the objects only.
-/

namespace ObjectStream

section
variable {ε σ α β γ : Type} {f : σ → γ}

/-- The action does not change what `f` shows of the state, whether it fails or not. -/
def Leaves (f : σ → γ) (x : EStateM ε σ α) : Prop := ∀ s, f (behind (x s)) = f s

namespace Leaves

theorem pure (a : α) : Leaves f (pure a : EStateM ε σ α) := fun _ => rfl

theorem throw (e : ε) : Leaves f (throw e : EStateM ε σ α) := fun _ => rfl

theorem bind {x : EStateM ε σ α} {g : α → EStateM ε σ β} (h : Leaves f x) (h' : ∀ a, Leaves f (g a)) :
    Leaves f (x >>= g) := by
  intro s
  have first := h s
  rw [bind_apply]
  cases run : x s with
  | error e s' =>
    rw [run] at first
    exact first
  | ok a s' =>
    rw [run] at first
    exact (h' a s').trans first

theorem get {g : σ → EStateM ε σ α} (h : ∀ s, Leaves f (g s)) : Leaves f (get >>= g) :=
  fun s => h s s

theorem modify {g : σ → σ} (same : ∀ s, f (g s) = f s) : Leaves f (modify g : EStateM ε σ Unit) := same

theorem ite {c : Prop} [Decidable c] {x y : EStateM ε σ α} (h : Leaves f x) (h' : Leaves f y) :
    Leaves f (if c then x else y) := by
  split
  · exact h
  · exact h'

theorem forM {δ : Type} {items : List δ} {g : δ → EStateM ε σ PUnit} (h : ∀ item, Leaves f (g item)) :
    Leaves f (items.forM g) := by
  induction items with
  | nil => exact .pure _
  | cons item rest ih => exact .bind (h item) fun _ => ih

end Leaves

end

namespace Decoder

variable {H α γ : Type}

/-- What is shown of a decoder depends on its objects and its reports only. -/
def Aloof (f : State H → γ) : Prop :=
  ∀ st st' : State H, st'.store = st.store → st'.trace = st.trace → st'.frameOpen = st.frameOpen →
    f st' = f st

variable {f : State H → γ}

theorem leaves_fail (cause : DecodeError) : Leaves f (fail cause : Decode H α) := .throw _

theorem leaves_check {c : Prop} [Decidable c] {cause : DecodeError} {g : Unit → Decode H α}
    (h : Leaves f (g ())) : Leaves f (if c then fail cause >>= g else g ()) :=
  .ite (.bind (leaves_fail cause) fun _ => h) h

theorem leaves_keyed (outcome : Except KeyError α) : Leaves f (keyed outcome : Decode H α) := by
  cases outcome with
  | ok a => exact .pure a
  | error e => cases e <;> exact .throw _

theorem leaves_spelled (cause : DecodeError) (o : Option α) :
    Leaves f (spelled cause o : Decode H α) := by
  cases o with
  | none => exact leaves_fail _
  | some a => exact .pure a

theorem leaves_tupleItems (op : Opcode) (v : Value) :
    Leaves f (tupleItems op v : Decode H (List Value)) := by
  refine .get fun st => ?_
  cases st.store.tuple? v with
  | none => exact leaves_fail _
  | some items => exact .pure items

theorem leaves_called [HostObject H] (callee : Value) (outcome : Except String α) :
    Leaves f (called callee outcome : Decode H α) := by
  cases outcome with
  | ok a => exact .pure a
  | error text => exact .get fun _ => leaves_fail _

/-! ## The objects -/

/-- A host that does not change what is shown of the objects. -/
theorem leaves_hosted {action : Action H α}
    (same : ∀ st, f { st with store := behind (action st.store) } = f st) :
    Leaves f (hosted action) := by
  intro st
  have shown := same st
  rw [hosted]
  dsimp only
  cases run : action st.store with
  | ok a store =>
    rw [run] at shown
    exact shown
  | error e store =>
    rw [run] at shown
    cases e <;> exact shown

theorem leaves_alloc {cell : Cell H} (same : ∀ st, f { st with store := st.store.push cell } = f st) :
    Leaves f (alloc cell) :=
  .get fun _ => .bind (.modify same) fun _ => .pure _

theorem leaves_storeEntry [HostObject H] {id : Nat} (key content : Value)
    (same : ∀ st change, f { st with store := st.store.modify id (Cell.withEntries change) } = f st) :
    Leaves f (storeEntry id key content) := by
  refine .get fun st => .bind (leaves_keyed _) fun image => ?_
  dsimp only
  split
  · exact .throw _
  · exact .modify fun st => same st _

theorem leaves_addMember [HostObject H] {id : Nat} (member : Value)
    (same : ∀ st change, f { st with store := st.store.modify id (withMembers change) } = f st) :
    Leaves f (addMember id member) := by
  refine .get fun st => .bind (leaves_keyed _) fun image => ?_
  dsimp only
  split
  · exact .throw _
  · exact .ite (.modify fun st => same st _) (.pure ())

/-! ## The stack, the memo and the input -/

variable (aloof : Aloof f)
include aloof

theorem leaves_push (cfg : Config H) (v : Value) : Leaves f (push cfg v) :=
  .get fun _ => leaves_check (.modify fun _ => aloof _ _ rfl rfl rfl)

theorem leaves_pop (op : Opcode) : Leaves f (pop op : Decode H Value) := by
  refine .get fun st => ?_
  cases st.stack.back? with
  | none => exact leaves_fail _
  | some v => exact .bind (.modify fun _ => aloof _ _ rfl rfl rfl) fun _ => .pure v

omit aloof in
theorem leaves_top (op : Opcode) : Leaves f (top op : Decode H Value) := by
  refine .get fun st => ?_
  cases st.stack.back? with
  | none => exact leaves_fail _
  | some v => exact .pure v

theorem leaves_replaceTop (op : Opcode) (v : Value) : Leaves f (replaceTop op v : Decode H Unit) :=
  .bind (leaves_top op) fun _ => .modify fun _ => aloof _ _ rfl rfl rfl

theorem leaves_mark : Leaves f (mark : Decode H Unit) := .modify fun _ => aloof _ _ rfl rfl rfl

theorem leaves_popMark (op : Opcode) : Leaves f (popMark op : Decode H (Array Value)) := by
  intro st
  simp only [popMark, bind_apply, get_apply]
  cases st.marks
  · rfl
  · exact aloof _ _ rfl rfl rfl

theorem leaves_fetchMemo (cfg : Config H) (id : Nat) : Leaves f (fetchMemo cfg id) := by
  refine .get fun st => ?_
  cases st.memo[id]? with
  | none => exact leaves_fail _
  | some v => exact leaves_push aloof cfg v

theorem leaves_putMemo (cfg : Config H) (op : Opcode) (id : Nat) : Leaves f (putMemo cfg op id) :=
  .bind (leaves_top op) fun _ => .get fun _ => leaves_check (.modify fun _ => aloof _ _ rfl rfl rfl)

theorem leaves_replaceMemo (old : Nat) (new : Value) : Leaves f (replaceMemo old new : Decode H Unit) :=
  .modify fun _ => aloof _ _ rfl rfl rfl

theorem leaves_nextBuffer : Leaves f (nextBuffer : Decode H Value) := by
  refine .get fun st => ?_
  rcases st.buffers with _ | _ | ⟨buffer, rest⟩
  · exact leaves_fail _
  · exact leaves_fail _
  · exact .bind (.modify fun _ => aloof _ _ rfl rfl rfl) fun _ => .pure buffer

theorem leaves_announce (p : Nat) :
    Leaves f (modify fun st => { st with protocol := p } : Decode H Unit) :=
  .modify fun _ => aloof _ _ rfl rfl rfl

theorem leaves_reading (action : EStateM Error Frame.Reader α) :
    Leaves f (reading action : Decode H α) := by
  intro st
  unfold reading
  cases action st.input <;> exact aloof _ _ rfl rfl rfl

theorem leaves_readExactly (op : Opcode) (count : Nat) :
    Leaves f (readExactly op count : Decode H Bytes) :=
  .bind (leaves_reading aloof _) fun bs => leaves_check (g := fun _ => pure bs) (.pure bs)

theorem leaves_readLine (op : Opcode) : Leaves f (readLine op : Decode H Bytes) :=
  .bind (leaves_reading aloof _) fun _ => .ite (.pure _) (leaves_fail _)

/-! ## The reports -/

section
variable (bare : ∀ st st' : State H, st'.store = st.store → f st' = f st)
omit aloof
include bare

theorem Aloof.of_store : Aloof f := fun st st' store _ _ => bare st st' store

theorem leaves_readOpcode : Leaves f (readOpcode : Decode H Opcode) := by
  refine .get fun st => .bind (leaves_reading (.of_store bare) _) fun bs => ?_
  cases bs with
  | nil => exact .throw _
  | cons byte rest =>
    dsimp only
    cases Opcode.ofByte? byte with
    | none => exact leaves_fail _
    | some op => exact .bind (.modify fun _ => bare _ _ rfl) fun _ => .pure _

theorem leaves_openFrame (cfg : Config H) (length : Nat) : Leaves f (openFrame cfg length) := by
  unfold openFrame
  refine leaves_check (.bind (.get fun st => .pure _) fun place => ?_)
  exact .bind (leaves_reading (.of_store bare) _) fun _ => .modify fun _ => bare _ _ rfl

end

end Decoder

end ObjectStream
