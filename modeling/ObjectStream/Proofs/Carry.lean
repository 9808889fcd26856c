import ObjectStream.Proofs.Link
import ObjectStream.Proofs.Running

/-!
What the encoder writes and the decoder then does.

Between two states of the encoder instructions are written. They perform a transformer `T` if they
lead from every machine with `T m Q` to one with `Q` (`Trip.Performs`): so two pieces of writing are
put together by putting their transformers together, and nothing is said about instructions after
that. Values are carried if what was written pushes corresponding values and changes no object that
the decoder had before (`Trip.Carries`).
-/

namespace ObjectStream

open Decoder (Machine Leads)
open Encoder (Emitted Silent Wrote)

variable {H : Type}

namespace Encoder

/-- The later state still has all objects and remembers what the earlier one did. -/
structure Further (st st' : State H) : Prop where
  store : st.store.Grown st'.store
  memo : ∀ (a : Identity) (n : Nat), st.memo[a]? = some n → st'.memo[a]? = some n

namespace Further

variable {st st' st'' : State H}

theorem trans (h : Further st st') (h' : Further st' st'') : Further st st'' :=
  ⟨h.store.trans h'.store, fun a n here => h'.memo a n (h.memo a n here)⟩

theorem of_eq (store : st'.store = st.store) (memo : st'.memo = st.memo) : Further st st' :=
  ⟨store ▸ .refl _, fun _ _ here => memo ▸ here⟩

end Further

end Encoder

open Encoder (Further)

namespace Decoder

/-- The later machine has all objects of the earlier one, unchanged unless their number is `except`,
    and the same marks, and remembers what the earlier one did. -/
structure After (except : Option Nat) (m m' : Machine H) : Prop where
  size : m.store.size ≤ m'.store.size
  cells : ∀ i < m.store.size, except ≠ some i → m'.store.cells[i]? = m.store.cells[i]?
  memo : ∀ (n : Nat) (w : Value), m.memo[n]? = some w → m'.memo[n]? = some w
  marks : m'.marks = m.marks

namespace After

variable {except : Option Nat} {m m' m'' : Machine H}

theorem refl (m : Machine H) : After except m m :=
  ⟨Nat.le_refl _, fun _ _ _ => rfl, fun _ _ here => here, rfl⟩

theorem trans (h : After except m m') (h' : After except m' m'') : After except m m'' where
  size := Nat.le_trans h.size h'.size
  cells i known apart :=
    (h'.cells i (Nat.lt_of_lt_of_le known h.size) apart).trans (h.cells i known apart)
  memo n w here := h'.memo n w (h.memo n w here)
  marks := h'.marks.trans h.marks

theorem weaken (h : After none m m') : After except m m' :=
  ⟨h.size, fun i known _ => h.cells i known nofun, h.memo, h.marks⟩

/-- An object that was not there before may be filled. -/
theorem narrow {j : Nat} (h : After (some j) m m') (new : m.store.size ≤ j) : After none m m' :=
  ⟨h.size, fun i known _ => h.cells i known (by rintro ⟨⟩; omega), h.memo, h.marks⟩

theorem of_eq (store : m'.store = m.store) (memo : m'.memo = m.memo) (marks : m'.marks = m.marks) :
    After except m m' :=
  ⟨by rw [store], fun _ _ _ => by rw [store], fun _ _ here => by rw [memo]; exact here, marks⟩

theorem cell (h : After none m m') {i : Nat} {cell : Cell H}
    (found : m.store.cells[i]? = some cell) : m'.store.cells[i]? = some cell :=
  (h.cells i (Store.lt_size_of_cell found) nofun).trans found

end After

end Decoder

open Decoder (After)

theorem Link.grow {st st' : Encoder.State H} {m m' : Machine H} {except : Option Nat} {i j : Nat}
    (h : Link st.memo m.memo i j) (sent : Further st st') (got : After except m m') :
    Link st'.memo m'.memo i j := by
  obtain ⟨n, here, there⟩ := h
  exact ⟨n, sent.memo _ n here, got.memo n _ there⟩

namespace Trip

variable [HostObject H] (x : Trip H)

/-- What was written between the two states performs the transformer. -/
def Performs (st st' : Encoder.State H) (T : Machine H → (Machine H → Prop) → Prop) : Prop :=
  ∃ is, Wrote st st' is ∧ ∀ m Q, T m Q → Leads x.decoder x.total is m Q

variable {x} {st st' st'' : Encoder.State H}
  {T T' : Machine H → (Machine H → Prop) → Prop}

namespace Performs

theorem trans (h : x.Performs st st' T) (h' : x.Performs st' st'' T') :
    x.Performs st st'' fun m Q => T m fun m' => T' m' Q := by
  obtain ⟨is, wrote, leads⟩ := h
  obtain ⟨js, wrote', leads'⟩ := h'
  exact ⟨is ++ js, wrote.trans wrote', fun m Q start =>
    (leads m _ start).bind fun m' next => leads' m' Q next⟩

theorem mono (h : x.Performs st st' T) (le : ∀ m Q, T' m Q → T m Q) : x.Performs st st' T' := by
  obtain ⟨is, wrote, leads⟩ := h
  exact ⟨is, wrote, fun m Q start => leads m Q (le m Q start)⟩

theorem of_emitted {is : List Instruction} (h : Emitted st st' is)
    (leads : ∀ m Q, T m Q → Leads x.decoder x.total is m Q) : x.Performs st st' T :=
  ⟨is, h.wrote, leads⟩

/-- Where nothing was written, nothing happens. -/
theorem of_silent (h : Silent st st') : x.Performs st st' fun m Q => Q m :=
  ⟨[], h.wrote, fun _ _ q => q⟩

end Performs

/-- Instructions were written that perform the transformer, and the encoder made and remembered
    nothing. -/
structure Emits (x : Trip H) (st st' : Encoder.State H)
    (T : Machine H → (Machine H → Prop) → Prop) : Prop where
  store : st'.store = st.store
  memo : st'.memo = st.memo
  performs : x.Performs st st' T

namespace Emits

theorem of_emitted {is : List Instruction} (h : Emitted st st' is)
    (leads : ∀ m Q, T m Q → Leads x.decoder x.total is m Q) : x.Emits st st' T :=
  ⟨h.store, h.memo, .of_emitted h leads⟩

theorem trans (h : x.Emits st st' T) (h' : x.Emits st' st'' T') :
    x.Emits st st'' fun m Q => T m fun m' => T' m' Q :=
  ⟨h'.store.trans h.store, h'.memo.trans h.memo, h.performs.trans h'.performs⟩

theorem sent (h : x.Emits st st' T) : Further st st' := .of_eq h.store h.memo

end Emits

/-- Behind `m` the machine `m'` has pushed the values `ws` for the values `vs`. -/
structure Pushed (x : Trip H) (st' : Encoder.State H) (busy : List Nat) (m m' : Machine H)
    (vs ws : List Value) : Prop where
  linked : x.Linked st' m' busy
  after : After none m m'
  stack : m'.stack = m.stack ++ ws
  same : List.Forall₂ (Match (Link st'.memo m'.memo)) vs ws

/-- What was written between the two states carries the values. -/
structure Carries (x : Trip H) (st st' : Encoder.State H) (vs : List Value) : Prop where
  sent : Further st st'
  performs : x.Performs st st' fun m Q => ∃ busy, x.Linked st m busy ∧
    (∀ v ∈ vs, x.Clear st.store busy v) ∧ ∀ m' ws, x.Pushed st' busy m m' vs ws → Q m'

namespace Carries

theorem nil (store : st'.store = st.store) (memo : st'.memo = st.memo)
    (silent : Silent st st') : x.Carries st st' [] where
  sent := .of_eq store memo
  performs := (Performs.of_silent silent).mono fun m _ ⟨_, linked, _, q⟩ =>
    q m [] ⟨linked.congr store memo rfl rfl rfl, .refl m, (List.append_nil _).symm, .nil⟩

theorem trans {vs vs' : List Value} (h : x.Carries st st' vs) (h' : x.Carries st' st'' vs')
    (closed : ∀ v ∈ vs', st.store.Closed v) : x.Carries st st'' (vs ++ vs') where
  sent := h.sent.trans h'.sent
  performs := by
    refine (h.performs.trans h'.performs).mono fun m Q ⟨busy, linked, clear, q⟩ => ?_
    refine ⟨busy, linked, fun v mem => clear v (List.mem_append_left _ mem), fun m' ws pushed => ?_⟩
    refine ⟨busy, pushed.linked, fun v mem => ?_, fun m'' ws' pushed' => q m'' (ws ++ ws') ?_⟩
    · exact (clear v (List.mem_append_right _ mem)).grown (closed v mem) h.sent.store
    · refine ⟨pushed'.linked, pushed.after.trans pushed'.after, ?_, List.rel_append ?_ pushed'.same⟩
      · rw [pushed'.stack, pushed.stack, List.append_assoc]
      · exact matchAll_mono pushed.same fun i j link => link.grow h'.sent pushed'.after

end Carries

end Trip

/-! ## Values on the stack -/

/-- The machine with values on top of its stack. -/
def Decoder.Machine.above (m : Machine H) (ws : List Value) : Machine H :=
  m.withStack (m.stack ++ ws)

/-- The machine with values behind a mark. -/
def Decoder.Machine.behindMark (m : Machine H) (ws : List Value) : Machine H :=
  { m with stack := ws, marks := m.stack :: m.marks }

namespace Trip

variable [HostObject H] {x : Trip H} {st st' st'' : Encoder.State H}

/-- Behind `m` the machine `m'` has copies `ws` of the values `vs` at hand, and the stack of `m`. -/
structure Gathered (x : Trip H) (st' : Encoder.State H) (busy : List Nat) (m m' : Machine H)
    (vs ws : List Value) : Prop where
  linked : x.Linked st' m' busy
  after : After none m m'
  stack : m'.stack = m.stack
  same : List.Forall₂ (Match (Link st'.memo m'.memo)) vs ws

/-- What was written between the two states puts copies of the values where `stacked` says. -/
structure Gathers (x : Trip H) (stacked : Machine H → List Value → Machine H)
    (st st' : Encoder.State H) (vs : List Value) : Prop where
  sent : Further st st'
  performs : x.Performs st st' fun m Q => ∃ busy, x.Linked st m busy ∧
    (∀ v ∈ vs, x.Clear st.store busy v) ∧
    ∀ m' ws, x.Gathered st' busy m m' vs ws → Q (stacked m' ws)

theorem Carries.gathers {vs : List Value} (h : x.Carries st st' vs) :
    x.Gathers Machine.above st st' vs where
  sent := h.sent
  performs := h.performs.mono fun m Q ⟨busy, linked, clear, q⟩ => by
    refine ⟨busy, linked, clear, fun m' ws pushed => ?_⟩
    have back : m' = (m'.withStack m.stack).above ws := by
      rw [Machine.above, Machine.withStack, Machine.withStack, ← pushed.stack]
    rw [back]
    refine q (m'.withStack m.stack) ws ⟨pushed.linked.congr rfl rfl rfl rfl rfl, ?_, rfl, pushed.same⟩
    exact pushed.after.trans (.of_eq rfl rfl rfl)

theorem Carries.behindMark {vs : List Value} (mark : Encoder.emit .mark () st = .ok () st')
    (h : x.Carries st' st'' vs) : x.Gathers Machine.behindMark st st'' vs := by
  have marks : x.Emits st st' fun m Q => Q m.mark :=
    .of_emitted (Encoder.emit_ok mark) fun m Q q => Decoder.leads_mark q
  refine ⟨marks.sent.trans h.sent, (marks.performs.trans h.performs).mono ?_⟩
  rintro m Q ⟨busy, linked, clear, q⟩
  refine ⟨busy, linked.congr marks.store marks.memo rfl rfl rfl, ?_, fun m' ws pushed => ?_⟩
  · rw [marks.store]
    exact clear
  have stack : m'.stack = ws := pushed.stack
  have saved : m'.marks = m.stack :: m.marks := pushed.after.marks
  have back : m' = { m' with stack := m.stack, marks := m.marks : Machine H }.behindMark ws := by
    rw [Machine.behindMark, ← stack, ← saved]
  rw [back]
  refine q _ ws ⟨pushed.linked.congr rfl rfl rfl rfl rfl, ?_, rfl, pushed.same⟩
  exact ⟨pushed.after.size, pushed.after.cells, pushed.after.memo, rfl⟩

/-! ## The memo -/

variable {p : Protocol} {id i : Nat} {v w : Value}

/-- What is remembered under the id is pushed. -/
theorem emitGet_emits (h : Encoder.emitGet p id st = .ok () st') :
    x.Emits st st' fun m Q => id < 2 ^ 32 ∧ ∃ w, m.memo[id]? = some w ∧ Q (m.push w) :=
  .of_emitted (Encoder.emitGet_ok h) fun _ _ ⟨small, _, found, q⟩ =>
    Decoder.leads_get small found q

/-- What was just written gets the next number on both sides. -/
theorem memoizeAs_ok {a : Identity} (h : Encoder.memoizeAs p a st = .ok () st') :
    st.memo.size < 2 ^ 32 ∧ st'.store = st.store ∧ st'.memo = st.memo.insert a st.memo.size ∧
      x.Performs st st' fun m Q => m.memo.size = st.memo.size ∧
        ∃ below w, m.stack = below ++ [w] ∧ Q (m.remember st.memo.size w) := by
  obtain ⟨small, store, memo, wrote⟩ := Encoder.memoizeAs_emits h
  refine ⟨small, store, memo, _, wrote, fun m Q ⟨next, below, w, stack, q⟩ => ?_⟩
  refine Decoder.leads_put small stack ?_
  rw [next, ite_self]
  exact q

/-- An atom that is pushed is carried. -/
theorem carries_atom (h : Encoder.Writes x.decoder st st' w) (same : ∀ R, Match R v w) :
    x.Carries st st' [v] := by
  obtain ⟨i, emitted, utters⟩ := h
  refine ⟨.of_eq emitted.store emitted.memo, .of_emitted emitted ?_⟩
  rintro m Q ⟨busy, linked, -, q⟩
  refine utters.pushes x.total m Q (q _ [w] ⟨linked.congr emitted.store emitted.memo rfl rfl rfl, ?_, rfl,
    .cons (same _) .nil⟩)
  exact .of_eq rfl rfl rfl

/-- An object that is remembered is carried by a reference to it. -/
theorem carries_fetch (h : Encoder.emitGet p id st = .ok () st')
    (known : st.memo[Identity.object i]? = some id) : x.Carries st st' [.ref i] := by
  have emits := emitGet_emits (x := x) h
  refine ⟨emits.sent, emits.performs.mono fun m Q ⟨busy, linked, _, q⟩ => ?_⟩
  obtain ⟨j, link, found⟩ := linked.exists_link known
  have small := Nat.lt_of_lt_of_le (linked.numbers.sent_lt _ id known) linked.numbers.small
  refine ⟨small, _, found, q _ [.ref j] ⟨?_, .of_eq rfl rfl rfl, rfl, ?_⟩⟩
  · exact linked.congr emits.store emits.memo rfl rfl rfl
  · rw [emits.memo]
    exact .cons (.ref link) .nil

end Trip

end ObjectStream
