import ObjectStream.Proofs.Blind
import ObjectStream.Proofs.Instructions

/-!
Running a stream.

A reader is ready for a list of instructions when the bytes before it spell them. A decoder that is
ready for instructions and a `STOP` hands back the value that the instructions leave on top of the
stack (`load_of_leads`). Frames on the way change no machine.
-/

namespace ObjectStream

open Instruction

/-- The bytes before the reader spell the instructions, the first of them in a frame that may be open
    already. -/
def Frame.Reader.Ready (r : Frame.Reader) (is : List Instruction) : Prop :=
  ∃ js ks later, is = js ++ ks ∧ r.At (allBytes js) later ∧ Spells ks later

namespace Decoder

variable {H : Type} {st : State H} {next later : Bytes}

/-- The next instruction lies before the reader, or a frame does. -/
theorem ready_cases {r : Frame.Reader} {i : Instruction} {is : List Instruction}
    (h : r.Ready (i :: is)) :
    (∃ next later, r.At (i.bytes ++ next) later ∧
        ∀ r' : Frame.Reader, r'.At next later → r'.Ready is) ∨
      ∃ js rest, r.At (Frame.header (allBytes js).length) (allBytes js ++ rest) ∧
        ∀ r' : Frame.Reader, r'.At (allBytes js) rest → r'.Ready (i :: is) := by
  obtain ⟨js, ks, later, same, place, spelled⟩ := h
  cases js with
  | cons j js =>
    obtain ⟨rfl, rfl⟩ : i = j ∧ is = js ++ ks := by simpa using same
    exact .inl ⟨allBytes js, later, place, fun r' place' => ⟨js, ks, later, rfl, place', spelled⟩⟩
  | nil =>
    cases spelled with
    | done => cases same
    | bare rest =>
      obtain ⟨rfl, rfl⟩ := List.cons.inj same
      refine .inl ⟨[], _, ?_, fun r' place' => ⟨[], is, _, rfl, place', rest⟩⟩
      rw [List.append_nil]
      exact place.enter
    | @framed js ks bs _ rest =>
      exact .inr ⟨js, bs, place.enter, fun r' place' => ⟨js, ks, bs, same, place', rest⟩⟩

theorem readOpcode_ok (op : Opcode) (h : st.input.At (op.byte :: next) later) :
    ∃ r trace, readOpcode st = .ok op { st with input := r, trace := trace } ∧
      r.At next later := by
  obtain ⟨r, run, place⟩ :=
    Frame.Reader.read_ok (show st.input.At ([op.byte] ++ next) later from h)
  refine ⟨r, st.trace.instruction st.input.position op st.height, ?_, place⟩
  simp only [readOpcode, position, bind_apply, get_apply, pure_apply, reading]
  rw [show ([op.byte] : Bytes).length = 1 from rfl] at run
  simp only [run, Opcode.ofByte?_byte]
  rfl

theorem readOpcode_ended (h : st.input.At [] []) :
    ∃ r, readOpcode st = .error .endOfInput { st with input := r } := by
  obtain ⟨r, read⟩ := Frame.Reader.read_ended h
  refine ⟨r, ?_⟩
  simp only [readOpcode, position, bind_apply, get_apply, pure_apply, reading, read]
  rfl

variable [HostObject H] {cfg : Config H} {total : Prop}

/-- The handler of an opcode reads its operand whole and then carries the instruction out. -/
theorem dispatch_ok {i : Instruction} (fits : i.op.shape.Fits i.operand)
    (bounded : i.payload.length ≤ cfg.limits.maxFrameLength) (word : i.payload.length < 2 ^ 64)
    (h : st.input.At ((i.op.shape.bytes i.operand).1 ++ i.payload ++ next) later) :
    ∃ r, r.At next later ∧
      dispatch cfg i.op st = execute cfg i.op i.operand { st with input := r } := by
  have takes := Request.takes_ofShape i.op true i.op.shape i.operand fits bounded word
  obtain ⟨r, run, place⟩ := answer_ok i.op takes h
  refine ⟨r, place, ?_⟩
  rw [dispatch_eq]
  exact bind_ok run

/-- A step reads an instruction whole and then carries it out. -/
theorem step_ok {i : Instruction} (fits : i.op.shape.Fits i.operand) (stop : i.op ≠ .stop)
    (bounded : i.payload.length ≤ cfg.limits.maxFrameLength) (word : i.payload.length < 2 ^ 64)
    (h : st.input.At (i.bytes ++ next) later) :
    ∃ r trace, r.At next later ∧ step cfg st =
      (execute cfg i.op i.operand >>= fun _ => pure none) { st with input := r, trace := trace } := by
  simp only [Instruction.bytes, Instruction.head, List.cons_append] at h
  obtain ⟨r, trace, run, place⟩ := readOpcode_ok i.op h
  have place : ({ st with input := r, trace := trace } : State H).input.At _ later := place
  obtain ⟨r', place', run'⟩ := dispatch_ok fits bounded word place
  refine ⟨r', trace, place', ?_⟩
  rw [step, bind_ok run, if_neg stop, bind_apply, run', bind_apply]

theorem step_ordinary (cfg : Config H) {i : Instruction} (ordinary : i.Ordinary)
    (bounded : st.input.remaining ≤ cfg.limits.maxFrameLength) (word : st.input.remaining < 2 ^ 64)
    (h : st.input.At (i.bytes ++ next) later) :
    ∃ r trace, r.At next later ∧ step cfg st =
      (execute cfg i.op i.operand >>= fun _ => pure none) { st with input := r, trace := trace } := by
  have length := h.remaining
  rw [List.length_append, Instruction.bytes, List.length_append] at length
  have allowed : i.payload.length ≤ cfg.limits.maxFrameLength := by omega
  exact step_ok ordinary.fits ordinary.not_stop allowed (by omega) h

theorem step_stop (cfg : Config H) {v : Value} {below : List Value}
    (h : st.input.At (Instruction.bytes ⟨.stop, ()⟩ ++ next) later)
    (stack : st.machine.stack = below ++ [v]) :
    ∃ st', step cfg st = .ok (some v) st' ∧ st'.machine = st.machine.withStack below ∧
      st'.input.At next later := by
  obtain ⟨r, trace, run, place⟩ := readOpcode_ok .stop h
  refine ⟨{ st with input := r, trace := trace, stack := st.stack.pop }, ?_, ?_, place⟩
  · have back : st.stack.back? = some v := by rw [stack_of_machine rfl stack, Array.back?_push]
    rw [step, bind_ok run, if_pos rfl]
    simp only [map_apply, pop, bind_apply, get_apply, back]
    rfl
  · have rest : st.stack.pop.toList = below := by
      rw [stack_of_machine rfl stack, Array.pop_push]
    simp only [State.machine, Machine.withStack, rest]

/-- A frame is loaded without a change of the machine. -/
theorem step_frame {bs rest : Bytes} (bounded : bs.length ≤ cfg.limits.maxFrameLength)
    (word : bs.length < 2 ^ 64) (h : st.input.At (Frame.header bs.length) (bs ++ rest)) :
    ∃ r trace, r.At bs rest ∧
      step cfg st = .ok none { st with input := r, frameOpen := true, trace := trace } := by
  have small : (UInt64.ofNat bs.length).toNat = bs.length := UInt64.toNat_ofNat_of_lt' word
  rw [Frame.header_eq_bytes word, ← List.append_nil (Instruction.bytes _)] at h
  obtain ⟨r, trace, place, run⟩ := step_ok (i := ⟨.frame, UInt64.ofNat bs.length⟩) trivial nofun
    (Nat.zero_le _) (by decide : (0 : Nat) < 2 ^ 64) h
  obtain ⟨r', load, place'⟩ := Frame.Reader.loadFrame_ok place
  rw [run]
  simp only [execute, openFrame, small, if_neg (Nat.not_lt.2 bounded), position, reading, bind_apply,
    get_apply, pure_apply, load, modify_apply]
  exact ⟨_, _, place', rfl⟩

/-- The later decoder is ready for `rest`. Behind `count` instructions it remembers at most as many
    further values. -/
structure State.Passed (st st' : State H) (count : Nat) (rest : List Instruction) : Prop where
  ready : st'.input.Ready rest
  remaining : st'.input.remaining ≤ st.input.remaining
  memo : st'.memo.size ≤ st.memo.size + count

omit [HostObject H] in
theorem State.Passed.trans {st' st'' : State H} {count more : Nat} {rest rest' : List Instruction}
    (h : st.Passed st' count rest) (h' : st'.Passed st'' more rest') :
    st.Passed st'' (count + more) rest' where
  ready := h'.ready
  remaining := Nat.le_trans h'.remaining h.remaining
  memo := by
    rw [← Nat.add_assoc]
    exact Nat.le_trans h'.memo (Nat.add_le_add_right h.memo more)

section
variable {st₁ st₂ : State H} {x : Decode H Unit} {fuel : Nat}

theorem run_executed (stepped : step cfg st = (x >>= fun _ => pure none) st₁)
    (executed : x st₁ = .ok () st₂) : run cfg (fuel + 1) st = run cfg fuel st₂ := by
  rw [run, bind_apply, stepped, bind_ok executed]
  rfl

theorem run_failed {e : Error} (stepped : step cfg st = (x >>= fun _ => pure none) st₁)
    (failed : x st₁ = .error e st₂) : run cfg (fuel + 1) st = .error e st₂ := by
  rw [run, bind_apply, stepped, bind_apply, failed]

end

/-- The later decoder has `fuel'` steps left of `fuel`, enough for its bytes, and ends as the former. -/
structure Continues (cfg : Config H) (fuel : Nat) (st : State H) (fuel' : Nat) (st' : State H)
    (count : Nat) (rest : List Instruction) : Prop where
  passed : st.Passed st' count rest
  counted : st'.Counted
  enough : st'.input.remaining < fuel'
  run : run cfg fuel st = run cfg fuel' st'

section
variable {fuel more : Nat} {is rest : List Instruction}

theorem Continues.trans {st' st'' : State H} {fuel' fuel'' count more : Nat}
    (h : Continues cfg fuel st fuel' st' count is)
    (h' : Continues cfg fuel' st' fuel'' st'' more rest) :
    Continues cfg fuel st fuel'' st'' (count + more) rest :=
  ⟨h.passed.trans h'.passed, h'.counted, h'.enough, h.run.trans h'.run⟩

/-- A decoder opens the frames before an instruction, and then stands right before it. -/
theorem run_ready (cfg : Config H) {i : Instruction} (counted : st.Counted)
    (ready : st.input.Ready (i :: rest))
    (enough : st.input.remaining < fuel) (bounded : st.input.remaining ≤ cfg.limits.maxFrameLength)
    (word : st.input.remaining < 2 ^ 64) :
    ∃ fuel' s, Continues cfg fuel st (fuel' + 1) (st.under s) 0 (i :: rest) ∧
      ∃ next later, s.input.At (i.bytes ++ next) later ∧
        ∀ r : Frame.Reader, r.At next later → r.Ready rest := by
  induction fuel generalizing st with
  | zero => omega
  | succ fuel ih =>
    rcases ready_cases ready with ⟨next, later, place, after⟩ | ⟨js, later, place, after⟩
    · exact ⟨fuel, st.surface, ⟨⟨ready, Nat.le_refl _, Nat.le_refl _⟩, counted, enough, rfl⟩, next,
        later, place, after⟩
    · have length := place.remaining
      simp only [List.length_append, Frame.header, List.length_cons] at length
      have allowed : (allBytes js).length ≤ cfg.limits.maxFrameLength := by omega
      obtain ⟨r, trace, place', opened⟩ := step_frame allowed (by omega) place
      let st' : State H := { st with input := r, frameOpen := true, trace := trace }
      have left : st'.input.remaining = (allBytes js).length + later.length := place'.remaining
      have ready' : st'.input.Ready (i :: rest) := after _ place'
      obtain ⟨fuel', s, continues, before⟩ :=
        ih (show st'.Counted from counted) ready' (by omega) (by omega) (by omega)
      have first : Continues cfg (fuel + 1) st fuel st' 0 (i :: rest) :=
        ⟨⟨ready', by omega, Nat.le_refl _⟩, counted, by omega, by rw [run, bind_ok opened]⟩
      exact ⟨fuel', s, first.trans continues, before⟩

/-- Instructions are carried out one after the other, up to where they lead. There is room for as many
    more as there was before them. -/
theorem run_reaches {Q : Machine H → Prop} (counted : st.Counted)
    (ready : st.input.Ready (is ++ rest)) (enough : st.input.remaining < fuel)
    (bounded : st.input.remaining ≤ cfg.limits.maxFrameLength)
    (word : st.input.remaining < 2 ^ 64) (room : st.machine.Room cfg (is.length + more))
    (h : Leads cfg total is st.machine Q) :
    (∃ fuel' st', Continues cfg fuel st fuel' st' is.length rest ∧ Q st'.machine ∧
      st'.machine.Room cfg more) ∨ (¬total ∧ ∃ st', run cfg fuel st = .error .endless st') := by
  induction is generalizing st fuel with
  | nil =>
    refine .inl ⟨fuel, st, ⟨⟨ready, Nat.le_refl _, Nat.le_refl _⟩, counted, enough, rfl⟩, h, ?_⟩
    exact room.of_le (by omega)
  | cons i is ih =>
    obtain ⟨fuel', s, continues, next, later, place, after⟩ :=
      run_ready cfg counted ready enough bounded word
    have place : (st.under s).input.At (i.bytes ++ next) later := place
    obtain ⟨ordinary, does⟩ := h
    rw [List.length_cons, Nat.succ_add] at room
    have fewer := continues.passed.remaining
    obtain ⟨r, trace, place', stepped⟩ := step_ordinary cfg ordinary (by omega) (by omega) place
    have length := place.remaining
    have some_bytes := List.length_pos_iff.2 i.bytes_ne_nil
    rw [List.length_append] at length
    rcases does (room.of_le (by omega)) { st.under s with input := r, trace := trace } rfl
      continues.counted with ⟨_, st'', executed, counted'', input, grows, led⟩ | ⟨partly, st'', executed⟩
    · have left : st''.input.remaining = next.length + later.length := by
        rw [input]
        exact place'.remaining
      have ready'' : st''.input.Ready (is ++ rest) := by
        rw [input]
        exact after r place'
      have memo : st''.memo.size ≤ st.memo.size + 1 := grows.2
      have enough' := continues.enough
      have first : Continues cfg fuel st fuel' st'' 1 (is ++ rest) :=
        ⟨⟨ready'', by omega, memo⟩, counted'', by omega,
          continues.run.trans (run_executed stepped executed)⟩
      rw [List.length_cons, Nat.add_comm]
      rcases ih counted'' ready'' first.enough (by omega) (by omega) (room.step grows) led with
        ⟨fuel'', st₃, further, q⟩ | ⟨partly, st₃, endless⟩
      · exact .inl ⟨fuel'', st₃, first.trans further, q⟩
      · exact .inr ⟨partly, st₃, first.run.trans endless⟩
    · exact .inr ⟨partly, st'', continues.run.trans (run_failed stepped executed)⟩

/-- The decoder stands right before the instruction behind them then. -/
theorem run_arrives {Q : Machine H → Prop} {i : Instruction} (counted : st.Counted)
    (ready : st.input.Ready (is ++ i :: rest)) (enough : st.input.remaining < fuel)
    (bounded : st.input.remaining ≤ cfg.limits.maxFrameLength)
    (word : st.input.remaining < 2 ^ 64) (room : st.machine.Room cfg (is.length + more))
    (h : Leads cfg total is st.machine Q) :
    (∃ fuel' st', Continues cfg fuel st (fuel' + 1) st' is.length (i :: rest) ∧
      (Q st'.machine ∧ st'.machine.Room cfg more) ∧
      ∃ next later, st'.input.At (i.bytes ++ next) later ∧
        ∀ r : Frame.Reader, r.At next later → r.Ready rest) ∨
      (¬total ∧ ∃ st', run cfg fuel st = .error .endless st') := by
  refine (run_reaches counted ready enough bounded word room h).imp ?_ id
  rintro ⟨fuel', st', reached, q⟩
  have fewer := reached.passed.remaining
  obtain ⟨fuel'', s, continues, before⟩ :=
    run_ready cfg reached.counted reached.passed.ready reached.enough (by omega) (by omega)
  exact ⟨fuel'', st'.under s, reached.trans continues, q, before⟩

/-- Instructions that lead to a value on top of the stack, with a `STOP` behind them, make the decoder
    hand that value back. It stands behind the `STOP` then. -/
theorem run_of_leads {Q : Value → Machine H → Prop} (counted : st.Counted)
    (ready : st.input.Ready (is ++ ⟨.stop, ()⟩ :: rest)) (enough : st.input.remaining < fuel)
    (bounded : st.input.remaining ≤ cfg.limits.maxFrameLength)
    (word : st.input.remaining < 2 ^ 64) (room : st.machine.Room cfg is.length)
    (h : Leads cfg total is st.machine fun m =>
      ∃ below v, m.stack = below ++ [v] ∧ Q v (m.withStack below)) :
    (∃ v st', run cfg fuel st = .ok v st' ∧ st.Passed st' is.length rest ∧ Q v st'.machine) ∨
      (¬total ∧ ∃ st', run cfg fuel st = .error .endless st') := by
  have room : st.machine.Room cfg (is.length + 0) := room
  refine (run_arrives counted ready enough bounded word room h).imp ?_ id
  rintro ⟨fuel', st', reached, ⟨⟨below, v, stack, q⟩, -⟩, next, later, place, after⟩
  obtain ⟨st'', stopped, machine, place'⟩ := step_stop cfg place stack
  have left := place.remaining
  rw [List.length_append] at left
  have left' := place'.remaining
  have fewer := reached.passed.remaining
  have memo : st''.memo = st'.memo := congrArg Machine.memo machine
  have ended : run cfg (fuel' + 1) st' = .ok v st'' := by
    rw [run, bind_ok stopped]
    rfl
  refine ⟨v, st'', reached.run.trans ended, ⟨after _ place', by omega, ?_⟩, machine ▸ q⟩
  rw [memo]
  exact reached.passed.memo

end

/-! ## Streams -/

omit [HostObject H] in
theorem closeFrame_machine (st : State H) : (closeFrame st).machine = st.machine := by
  unfold closeFrame
  split <;> rfl

omit [HostObject H] in
theorem closeFrame_input (st : State H) : (closeFrame st).input = st.input := by
  unfold closeFrame
  split <;> rfl

theorem load_eq_ok {v : Value} {st' : State H} (h : load cfg st = .ok v st') :
    ∃ st'', run cfg (st.input.remaining + 1)
      { st with stack := #[], marks := [], marked := 0, protocol := 0 } = .ok v st'' ∧
        st' = closeFrame st'' := by
  unfold load at h
  dsimp only at h
  split at h
  · next v' st'' run =>
    cases h
    exact ⟨st'', run, rfl⟩
  · cases h

theorem load_eq_error {e : Error} {st' : State H} (h : load cfg st = .error e st') :
    ∃ st'', run cfg (st.input.remaining + 1)
      { st with stack := #[], marks := [], marked := 0, protocol := 0 } = .error e st'' ∧
        st' = closeFrame st'' := by
  unfold load at h
  dsimp only at h
  split at h
  · cases h
  · next e' st'' run =>
    cases h
    exact ⟨st'', run, rfl⟩

/-- The machine before the next stream. -/
def Machine.fresh (m : Machine H) : Machine H := { m with stack := [], marks := [], protocol := 0 }

omit [HostObject H] in
theorem Machine.room_fresh (m : Machine H) {count : Nat} (stack : count ≤ cfg.limits.maxStack)
    (memo : m.memo.size + count ≤ cfg.limits.maxMemo) : m.fresh.Room cfg count := by
  refine ⟨?_, memo⟩
  show 0 + count ≤ _
  omega

/-- A decoder that is ready for instructions and a `STOP` reads them to the value that they lead to. -/
theorem load_of_leads {Q : Value → Machine H → Prop} {is rest : List Instruction}
    (ready : st.input.Ready (is ++ ⟨.stop, ()⟩ :: rest))
    (bounded : st.input.remaining ≤ cfg.limits.maxFrameLength)
    (word : st.input.remaining < 2 ^ 64) (stack : is.length ≤ cfg.limits.maxStack)
    (memo : st.memo.size + is.length ≤ cfg.limits.maxMemo)
    (h : Leads cfg total is st.machine.fresh fun m =>
      ∃ below v, m.stack = below ++ [v] ∧ Q v (m.withStack below)) :
    (∃ v st', load cfg st = .ok v st' ∧ st.Passed st' is.length rest ∧ Q v st'.machine) ∨
      (¬total ∧ ∃ st', load cfg st = .error .endless st') := by
  let start : State H := { st with stack := #[], marks := [], marked := 0, protocol := 0 }
  have counted : start.Counted := rfl
  have room : start.machine.Room cfg is.length := Machine.room_fresh st.machine stack memo
  rcases run_of_leads counted ready (Nat.lt_succ_self _) bounded word room h with
    ⟨v, st', run, passed, q⟩ | ⟨partly, st', run⟩
  · refine .inl ⟨v, closeFrame st', by rw [load, run], ?_, by rw [closeFrame_machine]; exact q⟩
    have same : (closeFrame st').memo = st'.memo := congrArg Machine.memo (closeFrame_machine st')
    refine ⟨?_, ?_, ?_⟩
    · rw [closeFrame_input]
      exact passed.ready
    · rw [closeFrame_input]
      exact passed.remaining
    · rw [same]
      exact passed.memo
  · exact .inr ⟨partly, closeFrame st', by rw [load, run]⟩

/-- Instructions that lead nowhere make it compare keys for ever, whatever stands behind them. -/
theorem load_of_leads_nowhere {is rest : List Instruction} (ready : st.input.Ready (is ++ rest))
    (bounded : st.input.remaining ≤ cfg.limits.maxFrameLength)
    (word : st.input.remaining < 2 ^ 64) (stack : is.length ≤ cfg.limits.maxStack)
    (memo : st.memo.size + is.length ≤ cfg.limits.maxMemo)
    (h : Leads cfg False is st.machine.fresh fun _ => False) :
    ∃ st', load cfg st = .error .endless st' := by
  let start : State H := { st with stack := #[], marks := [], marked := 0, protocol := 0 }
  have counted : start.Counted := rfl
  have room : start.machine.Room cfg (is.length + 0) := Machine.room_fresh st.machine stack memo
  rcases run_reaches counted ready (Nat.lt_succ_self _) bounded word room h with
    ⟨_, _, _, impossible, _⟩ | ⟨-, st', run⟩
  · exact impossible.elim
  · exact ⟨closeFrame st', by rw [load, run]⟩

/-- A source of bytes that spell the instructions is ready for them. -/
theorem ready_ofSource {bs : Bytes} {is : List Instruction} (spelled : Spells is bs) :
    (Frame.Reader.ofSource (.ofBytes bs)).Ready is :=
  ⟨[], is, bs, rfl, ⟨rfl, .inr ⟨rfl, rfl⟩⟩, spelled⟩

theorem remaining_ofSource (bs : Bytes) :
    (Frame.Reader.ofSource (.ofBytes bs)).remaining = bs.length := by
  simp [Frame.Reader.remaining, Frame.Reader.ofSource, Source.ofBytes]

/-- A byte string that spells instructions and a `STOP` is read to the value that they lead to. -/
theorem loads_of_leads {Q : Value → Machine H → Prop} {store : Store H} {bs : Bytes}
    {is : List Instruction} (spelled : Spells (is ++ [⟨.stop, ()⟩]) bs)
    (bounded : bs.length ≤ cfg.limits.maxFrameLength) (word : bs.length < 2 ^ 64)
    (stack : bs.length ≤ cfg.limits.maxStack) (memo : bs.length ≤ cfg.limits.maxMemo)
    (h : Leads cfg total is ⟨store, ∅, [], [], 0⟩ fun m =>
      ∃ below v, m.stack = below ++ [v] ∧ Q v (m.withStack below)) :
    (∃ v m, loads cfg store bs = (.ok v, m.store) ∧ Q v m) ∨
      (¬total ∧ ∃ store', loads cfg store bs = (.error .endless, store')) := by
  have short := spelled.length_le
  rw [List.length_append, List.length_singleton] at short
  rw [← remaining_ofSource bs] at bounded word
  let start : State H := .ofSource store (.ofBytes bs) none {}
  have ready : start.input.Ready (is ++ [⟨.stop, ()⟩]) := ready_ofSource spelled
  rcases load_of_leads ready bounded word (by omega) (by show 0 + is.length ≤ _; omega) h with
    ⟨v, st', run, -, q⟩ | ⟨partly, st', run⟩
  · exact .inl ⟨v, st'.machine, by rw [loads, run]; rfl, q⟩
  · exact .inr ⟨partly, st'.store, by rw [loads, run]⟩

/-- A decoder that reads a byte string stands at a machine to which instructions lead. From there it
    reads the value that the others lead to, or it fails with the first of them. -/
theorem loads_behind {Q : Machine H → Prop} {store : Store H} {bs : Bytes} {is rest : List Instruction}
    {i : Instruction} (spelled : Spells (is ++ i :: (rest ++ [⟨.stop, ()⟩])) bs)
    (bounded : bs.length ≤ cfg.limits.maxFrameLength) (word : bs.length < 2 ^ 64)
    (stack : bs.length ≤ cfg.limits.maxStack) (memo : bs.length ≤ cfg.limits.maxMemo)
    (h : Leads cfg True is ⟨store, ∅, [], [], 0⟩ Q) : ∃ m, Q m ∧
      (∀ R : Value → Machine H → Prop, (Leads cfg True (i :: rest) m fun m' =>
        ∃ below v, m'.stack = below ++ [v] ∧ R v (m'.withStack below)) →
        ∃ v m', loads cfg store bs = (.ok v, m'.store) ∧ R v m') ∧
      ∀ P : Error → Prop, i.Ordinary → (∀ st : State H, st.machine = m → st.Counted →
        ∃ e st', execute cfg i.op i.operand st = .error e st' ∧ P e) →
        ∃ e store', loads cfg store bs = (.error e, store') ∧ P e := by
  have short := spelled.length_le
  simp only [List.length_append, List.length_cons, List.length_nil] at short
  rw [← remaining_ofSource bs] at bounded word
  let source : State H := .ofSource store (.ofBytes bs) none {}
  let start : State H := { source with stack := #[], marks := [], marked := 0, protocol := 0 }
  have room : start.machine.Room cfg (is.length + (i :: rest).length) :=
    Machine.room_fresh source.machine (by simp only [List.length_cons]; omega)
      (by show 0 + _ ≤ _; simp only [List.length_cons]; omega)
  have counted : start.Counted := rfl
  obtain ⟨fuel', st', reached, ⟨q, room'⟩, next, later, place, -⟩ | ⟨partly, -⟩ :=
    run_arrives counted (ready_ofSource spelled) (Nat.lt_succ_self _) bounded word room h
  · have fewer : st'.input.remaining ≤ (Frame.Reader.ofSource (.ofBytes bs)).remaining :=
      reached.passed.remaining
    have kept (st : State H) : (closeFrame st).store = st.store :=
      congrArg Machine.store (closeFrame_machine st)
    have loaded {v : Value} {st'' : State H} (run : run cfg (fuel' + 1) st' = .ok v st'') :
        load cfg source = .ok v (closeFrame st'') := by
      rw [← reached.run] at run
      rw [load, run]
    have refused {e : Error} {st'' : State H} (run : run cfg (fuel' + 1) st' = .error e st'') :
        load cfg source = .error e (closeFrame st'') := by
      rw [← reached.run] at run
      rw [load, run]
    refine ⟨st'.machine, q, fun R led => ?_, fun P ordinary fails => ?_⟩
    · obtain ⟨v, st'', run, -, r⟩ | ⟨partly, -⟩ := run_of_leads reached.counted reached.passed.ready
        reached.enough (by omega) (by omega) room' led
      · refine ⟨v, st''.machine, ?_, r⟩
        rw [loads, loaded run]
        exact congrArg _ (kept st'')
      · exact (partly trivial).elim
    · obtain ⟨r, trace, -, stepped⟩ := step_ordinary cfg ordinary (by omega) (by omega) place
      obtain ⟨e, st'', failed, p⟩ :=
        fails { st' with input := r, trace := trace } rfl reached.counted
      refine ⟨e, st''.store, ?_, p⟩
      rw [loads, refused (run_failed stepped failed)]
      exact congrArg _ (kept st'')
  · exact (partly trivial).elim

end Decoder

end ObjectStream
