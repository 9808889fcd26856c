import ObjectStream.Proofs.Consuming
import ObjectStream.Proofs.Machine
import ObjectStream.Proofs.Window

/-!
The limits of a decoder are kept.

A bounded decoder counts the items that its marks have saved, and its stack and its memo are within
the limits (`State.Bounded`). Its input is used by reading and by loading frames within the limit
only (`State.Fed`). Each basic step keeps to both, whether it fails or not (`bounding_observed`), and
so does every run. Hence they hold between any two instructions, over any loads one after the other,
failed ones included (`visited_bounded`).
-/

namespace ObjectStream.Decoder

open ObjectStream.Frame

variable {H α β : Type}

/-- The saved items are counted, and the stack and the memo are within the limits. -/
structure State.Bounded (limits : Limits) (st : State H) : Prop where
  counted : st.Counted
  height : st.height ≤ limits.maxStack
  memo : st.memo.size ≤ limits.maxMemo

/-- The second state comes from the first by reading, and by loading frames within the limit. -/
def State.Fed (limit : Nat) (st st' : State H) : Prop :=
  ∃ acts : List Act, (∀ act ∈ acts, act.Within limit) ∧ st'.input = acts.foldl Reader.after st.input

namespace State.Fed

variable {limit : Nat} {st st' st'' : State H}

theorem unread (h : st'.input = st.input) : st.Fed limit st' := ⟨[], nofun, h⟩

theorem act {act : Act} (within : act.Within limit) (h : st'.input = st.input.after act) :
    st.Fed limit st' :=
  ⟨[act], fun _ mem => List.mem_singleton.1 mem ▸ within, h⟩

theorem trans (h : st.Fed limit st') (h' : st'.Fed limit st'') : st.Fed limit st'' := by
  obtain ⟨acts, within, fed⟩ := h
  obtain ⟨acts', within', fed'⟩ := h'
  refine ⟨acts ++ acts', fun act mem => ?_, by rw [fed', fed, List.foldl_append]⟩
  rcases List.mem_append.1 mem with mem | mem
  · exact within act mem
  · exact within' act mem

end State.Fed

/-- The bounds are kept, whether a run fails or not. -/
def bounding (limits : Limits) : Discipline H where
  Good st := st.Bounded limits
  Later st st' := st.Fed limits.maxFrameLength st'
  Knows _ _ := True
  Fits _ _ := True
  Breaks st _ st' := st'.Bounded limits ∧ st.Fed limits.maxFrameLength st'

theorem bounding_lawful (limits : Limits) : (bounding limits : Discipline H).Lawful where
  refl _ := .unread rfl
  trans h h' := h.trans h'
  breaks good _ := ⟨good, .unread rfl⟩
  breaks_later later h := ⟨h.1, later.trans h.2⟩
  knows_later _ _ := trivial

/-! ## Actions beside the bounds -/

/-- The stacks and the input are the same, and the memo has as many entries. -/
structure State.Beside (st st' : State H) : Prop where
  input : st'.input = st.input
  stack : st'.stack = st.stack
  marks : st'.marks = st.marks
  marked : st'.marked = st.marked
  memo : st'.memo.size = st.memo.size

theorem State.Beside.refl (st : State H) : st.Beside st := ⟨rfl, rfl, rfl, rfl, rfl⟩

theorem State.Beside.bounded {limits : Limits} {st st' : State H} (h : st.Beside st')
    (good : st.Bounded limits) : st'.Bounded limits where
  counted := by
    rw [State.Counted, h.marked, h.marks]
    exact good.counted
  height := by
    rw [State.height, h.stack, h.marked]
    exact good.height
  memo := h.memo ▸ good.memo

/-- The action changes nothing that is bounded, whether it fails or not. -/
def Aside (x : Decode H α) : Prop := ∀ st : State H, st.Beside (behind (x st))

namespace Aside

theorem pure (a : α) : Aside (pure a : Decode H α) := fun st => .refl st

theorem throw (e : Error) : Aside (throw e : Decode H α) := fun st => .refl st

theorem bind {x : Decode H α} {f : α → Decode H β} (h : Aside x) (h' : ∀ a, Aside (f a)) :
    Aside (x >>= f) := by
  intro st
  have first := h st
  rw [bind_apply]
  cases run : x st with
  | error e st' =>
    rw [run] at first
    exact first
  | ok a st' =>
    rw [run] at first
    have second := h' a st'
    exact ⟨second.input.trans first.input, second.stack.trans first.stack,
      second.marks.trans first.marks, second.marked.trans first.marked, second.memo.trans first.memo⟩

theorem get {f : State H → Decode H α} (h : ∀ st, Aside (f st)) : Aside (get >>= f) :=
  fun st => h st st

theorem modify {f : State H → State H} (h : ∀ st : State H, st.Beside (f st)) :
    Aside (modify f : Decode H Unit) := h

theorem ite {c : Prop} [Decidable c] {x y : Decode H α} (h : Aside x) (h' : Aside y) :
    Aside (if c then x else y) := by
  split
  · exact h
  · exact h'

theorem keyed (outcome : Except KeyError α) : Aside (keyed outcome : Decode H α) := by
  cases outcome with
  | ok a => exact .pure a
  | error e => cases e <;> exact .throw _

theorem hosted (action : Action H α) : Aside (hosted action) := by
  intro st
  unfold Decoder.hosted
  dsimp only
  cases action st.store with
  | ok a store => exact ⟨rfl, rfl, rfl, rfl, rfl⟩
  | error e store => cases e <;> exact ⟨rfl, rfl, rfl, rfl, rfl⟩

theorem reported (label : String) (action : Action H α) : Aside (reported label action) :=
  .bind (.modify fun _ => ⟨rfl, rfl, rfl, rfl, rfl⟩) fun _ => .bind (.hosted action) fun _ =>
    .bind (.modify fun _ => ⟨rfl, rfl, rfl, rfl, rfl⟩) fun _ => .pure _

theorem alloc (cell : Cell H) : Aside (alloc cell) :=
  .get fun _ => .bind (.modify fun _ => ⟨rfl, rfl, rfl, rfl, rfl⟩) fun _ => .pure _

theorem storeEntry [HostObject H] (id : Nat) (key content : Value) :
    Aside (storeEntry id key content : Decode H Unit) := by
  refine .get fun st => .bind (.keyed _) fun image => ?_
  dsimp only
  split
  · exact .throw _
  · exact .modify fun _ => ⟨rfl, rfl, rfl, rfl, rfl⟩

theorem addMember [HostObject H] (id : Nat) (member : Value) :
    Aside (addMember id member : Decode H Unit) := by
  refine .get fun st => .bind (.keyed _) fun image => ?_
  dsimp only
  split
  · exact .throw _
  · exact .ite (.modify fun _ => ⟨rfl, rfl, rfl, rfl, rfl⟩) (.pure ())

theorem nextBuffer : Aside (nextBuffer : Decode H Value) := by
  refine .get fun st => ?_
  rcases st.buffers with _ | _ | ⟨buffer, rest⟩
  · exact .throw _
  · exact .throw _
  · exact .bind (.modify fun _ => ⟨rfl, rfl, rfl, rfl, rfl⟩) fun _ => .pure buffer

theorem replaceMemo (old : Nat) (new : Value) : Aside (replaceMemo old new : Decode H Unit) :=
  .modify fun _ => ⟨rfl, rfl, rfl, rfl, Std.HashMap.size_map⟩

/-- An action beside the bounds keeps them. -/
theorem goes {limits : Limits} {x : Decode H α} {Q : α → State H → Prop} (h : Aside x)
    (all : ∀ a st, Q a st) (st : State H) : (bounding limits).Goes st x Q := by
  intro good
  have beside := h st
  cases run : x st with
  | ok a st' =>
    rw [run] at beside
    exact ⟨beside.bounded good, .unread beside.input, all a st'⟩
  | error e st' =>
    rw [run] at beside
    exact ⟨beside.bounded good, .unread beside.input⟩

end Aside

/-! ## The stack and the memo -/

section
variable {limits : Limits} {st : State H}

theorem State.Bounded.withStack {stack : Array Value} (h : st.Bounded limits)
    (lower : stack.size ≤ st.stack.size) :
    ({ st with stack := stack } : State H).Bounded limits where
  counted := h.counted
  height := (Nat.add_le_add_right lower _).trans h.height
  memo := h.memo

theorem bounding_pop (op : Opcode) : (bounding limits).Goes st (pop op) fun _ _ => True := by
  intro good
  simp only [pop, bind_apply, get_apply]
  cases st.stack.back? with
  | none => exact ⟨good, .unread rfl⟩
  | some v => exact ⟨good.withStack (by simp), .unread rfl, trivial⟩

theorem bounding_top (op : Opcode) : (bounding limits).Goes st (top op) fun _ _ => True := by
  refine Aside.goes (.get fun st => ?_) (fun _ _ => trivial) st
  cases st.stack.back? with
  | none => exact .throw _
  | some v => exact .pure v

/-- Only a stack with a top is changed. -/
theorem bounding_replaceTop (op : Opcode) (v : Value) :
    (bounding limits).Goes st (replaceTop op v) fun _ _ => True := by
  intro good
  simp only [replaceTop, top, bind_apply, get_apply]
  cases last : st.stack.back? with
  | none => exact ⟨good, .unread rfl⟩
  | some u =>
    have inhabited : 0 < st.stack.size := by
      by_contra empty
      simp [Array.back?, Nat.le_zero.1 (Nat.le_of_not_lt empty)] at last
    refine ⟨good.withStack ?_, .unread rfl, trivial⟩
    simp only [Array.size_push, Array.size_pop]
    omega

theorem bounding_mark : (bounding limits).Goes st mark fun _ _ => True := by
  intro good
  refine ⟨⟨?_, ?_, good.memo⟩, .unread rfl, trivial⟩
  · have counted : st.marked = (st.marks.map Array.size).sum := good.counted
    simp only [State.Counted, List.map_cons, List.sum_cons]
    omega
  · have height := good.height
    simp only [State.height] at height ⊢
    simp
    omega

/-- The saved items are among those that are counted, so that their number can be taken off. -/
theorem State.Bounded.saved_le {saved : Array Value} (h : st.Bounded limits)
    (mem : saved ∈ st.marks) : saved.size ≤ st.marked := by
  have counted : st.marked = (st.marks.map Array.size).sum := h.counted
  obtain ⟨above, below, split⟩ := List.append_of_mem mem
  simp only [split, List.map_append, List.map_cons, List.sum_append, List.sum_cons] at counted
  omega

theorem bounding_popMark (op : Opcode) : (bounding limits).Goes st (popMark op) fun items st' =>
    (bounding limits).KnowsAll st' items.toList := by
  intro good
  simp only [popMark, bind_apply, get_apply]
  cases marks : st.marks with
  | nil => exact ⟨good, .unread rfl⟩
  | cons saved rest =>
    have fewer : saved.size ≤ st.marked := good.saved_le (by simp [marks])
    have counted : st.marked = saved.size + (rest.map Array.size).sum := by
      have counted : st.marked = (st.marks.map Array.size).sum := good.counted
      rw [counted, marks, List.map_cons, List.sum_cons]
    have height := good.height
    -- the saved items are the stack again, and no more among those that are marked
    refine ⟨⟨?_, ?_, good.memo⟩, .unread rfl, fun _ _ => trivial⟩
    · show st.marked - saved.size = (rest.map Array.size).sum
      omega
    · show saved.size + (st.marked - saved.size) ≤ limits.maxStack
      simp only [State.height] at height
      omega

end

section
variable {cfg : Config H} {st : State H}

theorem bounding_push (v : Value) : (bounding cfg.limits).Goes st (push cfg v) fun _ _ => True := by
  intro good
  simp only [push, bind_apply, get_apply]
  by_cases full : cfg.limits.maxStack ≤ st.height
  · rw [if_pos full]
    exact ⟨good, .unread rfl⟩
  · rw [if_neg full]
    refine ⟨⟨good.counted, ?_, good.memo⟩, .unread rfl, trivial⟩
    simp only [State.height] at full ⊢
    simp
    omega

theorem bounding_fetchMemo (id : Nat) :
    (bounding cfg.limits).Goes st (fetchMemo cfg id) fun _ _ => True := by
  refine Discipline.Lawful.goes_get fun _ => ?_
  cases st.memo[id]? with
  | none => exact (bounding_lawful _).goes_fail _
  | some v => exact bounding_push v

/-- An entry is added below the limit, or replaced. -/
theorem bounding_putMemo (op : Opcode) (id : Nat) :
    (bounding cfg.limits).Goes st (putMemo cfg op id) fun _ _ => True := by
  refine (bounding_lawful _).goes_bind (bounding_top op) fun v st' _ _ => ?_
  intro good
  simp only [bind_apply, get_apply]
  by_cases full : (!st'.memo.contains id && decide (cfg.limits.maxMemo ≤ st'.memo.size)) = true
  · rw [if_pos full]
    exact ⟨good, .unread rfl⟩
  · rw [if_neg full]
    refine ⟨⟨good.counted, good.height, ?_⟩, .unread rfl, trivial⟩
    have memo := good.memo
    show (st'.memo.insert id v).size ≤ cfg.limits.maxMemo
    rw [Std.HashMap.size_insert]
    -- a new id was let in, so there are fewer than the limit
    split
    · exact memo
    · next new =>
      simp only [Std.HashMap.mem_iff_contains] at new
      simp [new] at full
      omega

end

/-! ## The input -/

section
variable {limits : Limits} {st : State H}

theorem State.Bounded.withInput {input : Reader} (h : st.Bounded limits) :
    ({ st with input := input } : State H).Bounded limits :=
  ⟨h.counted, h.height, h.memo⟩

/-- An act of the reader that the limit allows. -/
theorem bounding_reading {action : EStateM Error Reader α} (act : Act)
    (within : act.Within limits.maxFrameLength)
    (same : ∀ r : Reader, behind (action r) = r.after act) :
    (bounding limits).Goes st (reading action) fun _ _ => True := by
  intro good
  have after := same st.input
  unfold reading
  cases run : action st.input with
  | ok a input =>
    rw [run] at after
    exact ⟨good.withInput, .act within after, trivial⟩
  | error e input =>
    rw [run] at after
    exact ⟨good.withInput, .act within after⟩

theorem bounding_readExactly (op : Opcode) (count : Nat) :
    (bounding limits).Goes st (readExactly op count) fun _ _ => True := by
  refine (bounding_lawful _).goes_bind
    (bounding_reading (.read count) trivial fun _ => rfl) fun bs st' _ _ => ?_
  exact Aside.goes (.ite (.throw _) (.pure bs)) (fun _ _ => trivial) st'

theorem bounding_readLine (op : Opcode) :
    (bounding limits).Goes st (readLine op) fun _ _ => True := by
  refine (bounding_lawful _).goes_bind
    (bounding_reading .readLine trivial fun _ => rfl) fun line st' _ _ => ?_
  exact Aside.goes (.ite (.pure _) (.throw _)) (fun _ _ => trivial) st'

theorem bounding_readOpcode : (bounding limits).Goes st readOpcode fun _ _ => True := by
  refine Discipline.Lawful.goes_get fun _ => ?_
  refine (bounding_lawful _).goes_bind
    (bounding_reading (.read 1) trivial fun _ => rfl) fun bs st' _ _ => ?_
  refine Aside.goes ?_ (fun _ _ => trivial) st'
  cases bs with
  | nil => exact .throw _
  | cons byte rest =>
    dsimp only
    cases Opcode.ofByte? byte with
    | none => exact .throw _
    | some op => exact .bind (.modify fun _ => ⟨rfl, rfl, rfl, rfl, rfl⟩) fun _ => .pure op

end

/-- The length of a frame is checked before it is loaded. -/
theorem bounding_openFrame {cfg : Config H} {st : State H} (length : Nat) :
    (bounding cfg.limits).Goes st (openFrame cfg length) fun _ _ => True := by
  unfold openFrame
  by_cases long : cfg.limits.maxFrameLength < length
  · rw [if_pos long]
    exact fun good => ⟨good, .unread rfl⟩
  · rw [if_neg long]
    refine Discipline.Lawful.goes_get fun _ => ?_
    refine (bounding_lawful _).goes_bind (bounding_reading (.loadFrame length)
      (Nat.le_of_not_lt long) fun _ => rfl) fun _ st' _ _ => ?_
    exact Discipline.Lawful.goes_modify fun good =>
      ⟨⟨good.counted, good.height, good.memo⟩, .unread rfl, trivial⟩

/-! ## Runs -/

/-- The decoder in which a load begins. -/
def State.begun (st : State H) : State H :=
  { st with stack := #[], marks := [], marked := 0, protocol := 0 }

section
variable {limits : Limits} {st start : State H}

/-- The bounds hold, and the input has been fed on since the decoder was made. -/
def State.Kept (limits : Limits) (start st : State H) : Prop :=
  st.Bounded limits ∧ start.Fed limits.maxFrameLength st

/-- A run keeps the bounds, and leaves them behind where it breaks off. -/
theorem State.Kept.of_goes {x : Decode H α} {Q : α → State H → Prop} (h : start.Kept limits st)
    (goes : (bounding limits).Goes st x Q) : start.Kept limits (behind (x st)) := by
  have ends := goes h.1
  cases run : x st with
  | ok a st' =>
    rw [run] at ends
    exact ⟨ends.1, h.2.trans ends.2.1⟩
  | error e st' =>
    rw [run] at ends
    exact ⟨ends.1, h.2.trans ends.2⟩

theorem State.Kept.begun (h : start.Kept limits st) : start.Kept limits st.begun :=
  ⟨⟨rfl, Nat.zero_le _, h.1.memo⟩, h.2⟩

theorem State.Kept.closeFrame (h : start.Kept limits st) : start.Kept limits (closeFrame st) := by
  unfold Decoder.closeFrame
  split
  · exact ⟨⟨h.1.counted, h.1.height, h.1.memo⟩, h.2⟩
  · exact h

end

section
variable [HostObject H] {cfg : Config H}

/-- Whatever the host does, every basic step keeps the bounds. -/
theorem bounding_observed (cfg : Config H) : (bounding cfg.limits).Observed cfg where
  toLawful := bounding_lawful cfg.limits
  atom _ := trivial
  held _ _ _ _ := trivial
  fits _ _ _ := trivial
  dict _ _ _ _ := trivial
  dict_endless good _ _ := ⟨good, .unread rfl⟩
  frozenset _ _ _ _ := trivial
  frozenset_endless good _ _ := ⟨good, .unread rfl⟩
  alloc _ := (Aside.alloc _).goes (fun _ _ => trivial) _
  push _ := bounding_push _
  pop _ op := bounding_pop op
  top _ op := bounding_top op
  replaceTop op _ := bounding_replaceTop op _
  mark _ := bounding_mark
  popMark _ op := bounding_popMark op
  fetchMemo _ id := bounding_fetchMemo id
  putMemo _ op id := bounding_putMemo op id
  replaceMemo old _ := (Aside.replaceMemo old _).goes (fun _ _ => trivial) _
  extend _ _ := Discipline.Lawful.goes_modify fun good =>
    ⟨⟨good.counted, good.height, good.memo⟩, .unread rfl, trivial⟩
  storeEntry id _ _ := (Aside.storeEntry id _ _).goes (fun _ _ => trivial) _
  addMember id _ := (Aside.addMember id _).goes (fun _ _ => trivial) _
  readExactly _ op count := bounding_readExactly op count
  readLine _ op := bounding_readLine op
  readOpcode _ := bounding_readOpcode
  openFrame _ length := bounding_openFrame length
  announce _ _ := Discipline.Lawful.goes_modify fun good =>
    ⟨⟨good.counted, good.height, good.memo⟩, .unread rfl, trivial⟩
  nextBuffer st := Aside.nextBuffer.goes (fun _ _ => trivial) st
  callSymbol label _ _ := (Aside.reported label _).goes (fun _ _ _ _ => trivial) _
  create label _ _ := (Aside.reported label _).goes (fun _ _ _ _ => trivial) _
  setState _ _ _ := (Aside.reported _ _).goes (fun _ _ => trivial) _
  stateAction label _ _ _ := (Aside.reported label _).goes (fun _ _ _ _ => trivial) _
  append _ _ _ := (Aside.hosted _).goes (fun _ _ => trivial) _
  setItem _ _ _ _ := (Aside.hosted _).goes (fun _ _ => trivial) _
  persistentLoad _ _ := (Aside.hosted _).goes (fun _ _ _ _ => trivial) _

/-- The states of a decoder between its loads, each of which may have failed. The memo may be cleared
    meanwhile, and the objects may be changed. -/
inductive Rests (cfg : Config H) (start : State H) : State H → Prop
  | fresh : Rests cfg start start
  | load {st : State H} (h : Rests cfg start st) : Rests cfg start (behind (load cfg st))
  | clearMemo {st : State H} (h : Rests cfg start st) : Rests cfg start st.clearMemo
  | change {st : State H} (store : Store H) (h : Rests cfg start st) :
    Rests cfg start { st with store := store }

/-- The states of a decoder between two instructions of a load. -/
inductive Visits (cfg : Config H) (start : State H) : State H → Prop
  | begin {st : State H} (h : Rests cfg start st) : Visits cfg start st.begun
  | step {st st' : State H} (h : Visits cfg start st) (run : step cfg st = .ok none st') :
    Visits cfg start st'

variable {st start : State H}

theorem behind_load (st : State H) :
    behind (load cfg st) = closeFrame (behind (run cfg (st.input.remaining + 1) st.begun)) := by
  unfold load State.begun
  dsimp only
  split
  · next run =>
    rw [run]
    rfl
  · next run =>
    rw [run]
    rfl

/-- The memo goes on from one load to the next, and so do its bound and the input. -/
theorem Rests.kept (h : Rests cfg start st) (fresh : start.Bounded cfg.limits) :
    start.Kept cfg.limits st := by
  induction h with
  | fresh => exact ⟨fresh, .unread rfl⟩
  | load _ ih =>
    rw [behind_load]
    exact (ih.begun.of_goes ((bounding_observed cfg).goes_run
      fun _ _ good => ⟨good, .unread rfl⟩)).closeFrame
  | clearMemo _ ih =>
    exact ⟨⟨ih.1.counted, ih.1.height, Nat.zero_le _⟩, ih.2⟩
  | change _ _ ih => exact ⟨⟨ih.1.counted, ih.1.height, ih.1.memo⟩, ih.2⟩

theorem Visits.kept (h : Visits cfg start st) (fresh : start.Bounded cfg.limits) :
    start.Kept cfg.limits st := by
  induction h with
  | begin h => exact (h.kept fresh).begun
  | step _ run ih =>
    have kept := ih.of_goes (bounding_observed cfg).goes_step
    rwa [run] at kept

/-! ## Operands -/

omit [HostObject H] in
/-- Exactly the bytes that were asked for are handed out, or none. -/
theorem length_of_readExactly {op : Opcode} {count : Nat} {bs : Bytes} {st' : State H}
    (run : readExactly op count st = .ok bs st') : bs.length = count := by
  obtain ⟨got, st₁, first, rest⟩ := bind_eq_ok run
  obtain ⟨input, read, rfl⟩ := reading_eq_ok first
  have most := Reader.length_le_of_read read
  dsimp only at rest
  split at rest
  · cases rest
  · cases rest
    omega

omit [HostObject H] in
/-- A payload is read if its count is within the limit. -/
theorem length_of_readPayload {cfg : Config H} {op : Opcode} {count : Nat} {bs : Bytes}
    {st' : State H} (run : readPayload cfg op count st = .ok bs st') :
    bs.length = count ∧ count ≤ cfg.limits.maxFrameLength := by
  unfold readPayload at run
  split at run
  · cases run
  · next short => exact ⟨length_of_readExactly run, Nat.not_lt.1 short⟩

omit [HostObject H] in
/-- A counted payload is read behind its count, if that is within the limit. -/
theorem length_le_of_answer {op : Opcode} {limit count : Nat} {payload : Bytes} {st' : State H}
    (run : answer op (if limit < count then .fail (.limitExceeded .operandLength)
      else .take count .done) st = .ok payload st') : payload.length ≤ limit := by
  by_cases long : limit < count
  · rw [if_pos long] at run
    cases run
  · rw [if_neg long] at run
    obtain ⟨bs, st₁, read, rest⟩ := bind_eq_ok run
    cases rest
    rw [length_of_readExactly read]
    exact Nat.le_of_not_lt long

omit [HostObject H] in
theorem length_payload_le {op : Opcode} {limit : Nat} {shape : Shape} {operand : shape.Operand}
    {st' : State H} (run : answer op (Request.ofShape op limit true shape) st = .ok operand st') :
    (shape.bytes operand).2.length ≤ limit := by
  cases shape with
  | counted8 | counted32 | counted64 =>
    obtain ⟨count, st₁, _, rest⟩ := bind_eq_ok run
    exact length_le_of_answer rest
  | countedSigned32 =>
    obtain ⟨count, st₁, _, rest⟩ := bind_eq_ok run
    dsimp only at rest
    split at rest
    · cases rest
    · exact length_le_of_answer rest
  | _ => exact Nat.zero_le _

end

/-- Between any two instructions, and before and behind any load, a decoder of a byte string that may
    fail at some place has its marked items counted and its stack and memo within the limits. What
    was done to its input a frame with a cursor carries out in range, the frame being within the
    limit and among the bytes taken; and what is read next is neither shorter than asked for nor
    beyond the limit, be it a payload behind its count or the operand of the next instruction. -/
theorem visited_bounded [HostObject H] {cfg : Config H} {store : Store H} {bs : Bytes}
    {fault : Option (Nat × String)} {buffers : Option (List Value)} {trace : Trace} {st : State H}
    (visited : Visits cfg (.ofSource store { unread := bs, fault := fault } buffers trace) st ∨
      Rests cfg (.ofSource store { unread := bs, fault := fault } buffers trace) st) :
    let limit := cfg.limits.maxFrameLength
    let source : Source := { unread := bs, fault := fault }
    st.marked = (st.marks.map Array.size).sum ∧
    (∀ saved ∈ st.marks, saved.size ≤ st.marked) ∧
    st.stack.size + st.marked ≤ cfg.limits.maxStack ∧
    st.memo.size ≤ cfg.limits.maxMemo ∧
    (∃ (acts : List Act) (w : Window), (∀ act ∈ acts, act.Within limit) ∧
      acts.foldl Reader.after (.ofSource source) = st.input ∧
      acts.foldlM Window.after? (.ofSource source) = some w ∧
      w.view = st.input ∧ w.position? = some st.input.position ∧
      w.cursor ≤ w.frame.length ∧ w.frame.length ≤ w.consumed ∧ w.consumed = w.source.taken ∧
      w.frame.length ≤ limit) ∧
    (∀ op count bs st', readExactly op count st = .ok bs st' → bs.length = count) ∧
    (∀ op count bs st', readPayload cfg op count st = .ok bs st' → bs.length = count ∧ count ≤ limit) ∧
    ∀ op st₁ operand st₂, readOpcode st = .ok op st₁ →
      answer op (Request.operand op limit true) st₁ = .ok operand st₂ →
      (Instruction.mk op operand).payload.length ≤ limit := by
  intro limit source
  have fresh : (State.ofSource store source buffers trace).Bounded cfg.limits :=
    ⟨rfl, Nat.zero_le _, Nat.zero_le _⟩
  have kept : State.Kept cfg.limits (.ofSource store source buffers trace) st := by
    rcases visited with visits | rests
    · exact visits.kept fresh
    · exact rests.kept fresh
  obtain ⟨bounds, acts, within, fed⟩ := kept
  have sound : (Window.ofSource source).Sound limit := Window.sound_ofSource rfl
  obtain ⟨w, carried, ends, same⟩ := sound.carries within
  have view : w.view = st.input := same.trans fed.symm
  refine ⟨bounds.counted, fun _ => bounds.saved_le, bounds.height, bounds.memo, ?_, ?_, ?_, ?_⟩
  · exact ⟨acts, w, within, fed.symm, carried, view, view ▸ ends.position?, ends.cursor, ends.frame,
      ends.taken, ends.short⟩
  · intro op count bs st' run
    exact length_of_readExactly run
  · intro op count bs st' run
    exact length_of_readPayload run
  · intro op st₁ operand st₂ _ run
    exact length_payload_le run

/-- Behind the first of two instructions in a frame, with no room left on the stack. -/
theorem visited_bounded_framed :
    let cfg : Config Empty :=
      { registry := .seeded 0, host := {}, limits := { maxStack := 1, maxFrameLength := 2 } }
    let start : State Empty :=
      .ofSource {} (.ofBytes [0x95, 2, 0, 0, 0, 0, 0, 0, 0, 0x4e, 0x2e]) none {}
    ∃ st, Visits cfg start st ∧ st.input.frame = [0x2e] ∧ st.stack.size + st.marked ≤ 1 ∧
      ∃ w : Window, w.view = st.input ∧ w.position? = some 10 ∧ w.cursor ≤ w.frame.length ∧
        w.frame.length ≤ 2 := by
  intro cfg start
  obtain ⟨st₁, opened⟩ : ∃ st, step cfg start.begun = .ok none st := ⟨_, rfl⟩
  obtain ⟨st, run, unread, position⟩ : ∃ st, step cfg st₁ = .ok none st ∧ st.input.frame = [0x2e] ∧
      st.input.position = 10 := by
    cases opened
    exact ⟨_, rfl, rfl, rfl⟩
  have visited : Visits cfg start st := .step (.step (.begin .fresh) opened) run
  obtain ⟨-, -, height, -, ⟨acts, w, -, -, -, view, place, cursor, -, -, short⟩, -⟩ :=
    visited_bounded (.inl visited)
  exact ⟨st, visited, unread, height, w, view, position ▸ place, cursor, short⟩

end ObjectStream.Decoder
