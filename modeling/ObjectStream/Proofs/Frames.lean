import ObjectStream.Proofs.Answers
import ObjectStream.Proofs.Settling

/-!
Frames do not show.

Whole instructions may be cut into groups, and any of the groups may be put into frames (`Group`). Two
decoders that stand before the same instructions, with different frames around them, and are the same
below the surface stay so: each step reads the same instruction (`Alike`), and the step that loads a
frame changes only the surface. So they hand back the same value, or fail with the same error
(`load_framed`).
-/

namespace ObjectStream

open Instruction

/-! ## Whole instructions -/

/-- The operand has bytes: its count fits the width and its lines hold no newline. Lines of names need
    not be text. -/
def Shape.Whole : (shape : Shape) → shape.Operand → Prop
  | .line, text => 0x0a ∉ text
  | .lines2, (first, second) => 0x0a ∉ first ∧ 0x0a ∉ second
  | .counted8, payload => payload.length < 2 ^ 8
  | .counted32, payload => payload.length < 2 ^ 32
  | .countedSigned32, payload => payload.length < 2 ^ 31
  | .counted64, payload => payload.length < 2 ^ 64
  | _, _ => True

/-- The request is answered or refused once these bytes are read. -/
inductive Request.Fed {α : Type} : Request α → Bytes → Prop
  | done (a : α) : Fed (.done a) []
  | fail (cause : DecodeError) (bs : Bytes) : Fed (.fail cause) bs
  | take {count : Nat} {more : Bytes → Request α} {bs rest : Bytes} (length : bs.length = count)
      (h : Fed (more bs) rest) : Fed (.take count more) (bs ++ rest)
  | line {more : Bytes → Request α} {bs rest : Bytes} (newline : 0x0a ∉ bs)
      (h : Fed (more bs) rest) : Fed (.line more) (bs ++ 0x0a :: rest)

namespace Request

variable {α : Type} {op : Opcode} {bs : Bytes}

theorem Takes.fed {request : Request α} {a : α} (h : request.Takes bs a) : request.Fed bs := by
  induction h with
  | done a => exact .done a
  | take length _ ih => exact .take length ih
  | line newline _ ih => exact .line newline ih

/-- A payload that is too long for the limit is refused behind its count. -/
theorem fed_counted {width : Nat} (limit : Nat) (fits : bs.length < 256 ^ width) :
    (counted width limit).Fed (Bytes.ofNatLE width bs.length ++ bs) := by
  refine .take (Bytes.length_ofNatLE ..) ?_
  simp only [Bytes.toNatLE_ofNatLE, Nat.mod_eq_of_lt fits]
  split
  · exact .fail ..
  · exact (takes_fixed id rfl rfl).fed

theorem fed_countedSigned (limit : Nat) (fits : bs.length < 2 ^ 31) :
    (countedSigned op limit).Fed (Bytes.ofNatLE 4 bs.length ++ bs) := by
  refine .take (Bytes.length_ofNatLE ..) ?_
  simp only [Bytes.toNatLE_ofNatLE, Nat.mod_eq_of_lt (show bs.length < 256 ^ 4 by omega),
    if_neg (Nat.not_le.2 fits)]
  split
  · exact .fail ..
  · exact (takes_fixed id rfl rfl).fed

/-- Names that are not text are refused behind their line. -/
theorem fed_lines2 (checked : Bool) {first second : Bytes}
    (whole : Shape.lines2.Whole (first, second)) :
    (lines2 op checked).Fed (first ++ 0x0a :: second ++ [0x0a]) := by
  rw [List.append_assoc, List.cons_append]
  refine .line whole.1 ?_
  split
  · exact .fail ..
  · refine .line whole.2 ?_
    split
    · exact .fail ..
    · exact .done _

/-- A whole operand is all that its request needs. -/
theorem fed_ofShape (op : Opcode) (limit : Nat) (checked : Bool) (shape : Shape)
    (operand : shape.Operand) (whole : shape.Whole operand) :
    (ofShape op limit checked shape).Fed
      ((shape.bytes operand).1 ++ (shape.bytes operand).2) := by
  cases shape with
  | lines2 =>
    rw [Shape.bytes, List.append_nil]
    exact fed_lines2 checked whole
  | counted8 => exact fed_counted limit whole
  | counted32 => exact fed_counted limit whole
  | countedSigned32 => exact fed_countedSigned limit whole
  | counted64 => exact fed_counted limit whole
  | line => exact (takes_ofShape op checked .line operand whole (Nat.zero_le _) (by simp [Shape.bytes])).fed
  | nothing | word8 | word16 | signed32 | word32 | word64 | double =>
    exact (takes_ofShape op checked _ operand trivial (Nat.zero_le _) (by simp [Shape.bytes])).fed

end Request

/-- All bytes of the instruction are there, and it loads no frame. -/
structure Instruction.Whole (i : Instruction) : Prop where
  operand : i.op.shape.Whole i.operand
  not_frame : i.op ≠ .frame

namespace Decoder

variable {H α β : Type}

/-! ## Decoders that differ in their surface -/

/-- The readers hand out `next` and `next'` without crossing the end of a frame; `later` and `later'`
    lie behind. -/
def Standing (next later next' later' : Bytes) (s s' : Surface) : Prop :=
  s.input.At next later ∧ s'.input.At next' later'

/-- Decoders that differ in their surface, as `P` says, still do so behind the action, as `Q` says. -/
def Alike (P Q : Surface → Surface → Prop) (x : Decode H α) : Prop :=
  ∀ (st : State H) (s : Surface), P st.surface s → ∃ s', x (st.under s) = under (x st) s' ∧
    ∀ a st', x st = .ok a st' → Q st'.surface s'

variable {next later next' later' : Bytes}

theorem Alike.bind {P Q R : Surface → Surface → Prop} {x : Decode H α} {f : α → Decode H β}
    (h : Alike P Q x) (h' : ∀ a, Alike Q R (f a)) : Alike P R (x >>= f) := by
  intro st s related
  obtain ⟨s', first, behind⟩ := h st s related
  rw [bind_apply, bind_apply, first]
  cases run : x st with
  | error e st' => exact ⟨s', rfl, fun b st' fine => by cases fine⟩
  | ok a st' => exact h' a st' s' (behind a st' run)

/-- A blind action leaves both readers where they stand. -/
theorem Blind.alike {x : Decode H α} (h : Blind x) :
    Alike (Standing next later next' later') (Standing next later next' later') x := by
  intro st s standing
  obtain ⟨s', quiet, same⟩ := h st s
  refine ⟨s', same, fun a st' run => ⟨?_, ?_⟩⟩
  · rw [show st'.surface.input = st.input from (h.quiet_ok run).input]
    exact standing.1
  · rw [quiet.input]
    exact standing.2

/-- Both decoders give a request the same answer. -/
theorem alike_answer {request : Request α} {bs : Bytes} (op : Opcode) (fed : request.Fed bs) :
    Alike (H := H) (Standing (bs ++ next) later (bs ++ next') later')
      (Standing next later next' later') (answer op request) := by
  induction fed with
  | done a => exact (Blind.pure a).alike
  | fail cause bs => exact fun st s _ => ⟨s, rfl, fun a st' fine => by cases fine⟩
  | @take count more bs rest length _ ih =>
    rintro st s ⟨place, place'⟩
    rw [List.append_assoc] at place place'
    obtain ⟨r, run, place⟩ := readExactly_ok op place
    have place' : (st.under s).input.At _ _ := place'
    obtain ⟨r', run', place'⟩ := readExactly_ok op place'
    rw [length] at run run'
    rw [answer, bind_ok run, bind_ok run']
    exact ih { st with input := r } { s with input := r' } ⟨place, place'⟩
  | @line more bs rest newline _ ih =>
    rintro st s ⟨place, place'⟩
    rw [List.append_assoc, List.cons_append] at place place'
    obtain ⟨r, run, place⟩ := readLine_ok op place newline
    have place' : (st.under s).input.At _ _ := place'
    obtain ⟨r', run', place'⟩ := readLine_ok op place' newline
    rw [answer, bind_ok run, bind_ok run']
    exact ih { st with input := r } { s with input := r' } ⟨place, place'⟩

variable [HostObject H] {cfg : Config H}

/-- Behind an opcode both decoders read the same operand and carry the instruction out. -/
theorem alike_operand {i : Instruction} (whole : i.Whole) :
    Alike (Standing ((i.op.shape.bytes i.operand).1 ++ (i.op.shape.bytes i.operand).2 ++ next) later
        ((i.op.shape.bytes i.operand).1 ++ (i.op.shape.bytes i.operand).2 ++ next') later')
      (Standing next later next' later')
      (answer i.op (Request.operand i.op cfg.limits.maxFrameLength true) >>= fun operand =>
        execute cfg i.op operand >>= fun _ => pure (none : Option Value)) := by
  have fed := Request.fed_ofShape i.op cfg.limits.maxFrameLength true _ _ whole.operand
  exact (alike_answer i.op fed).bind fun operand =>
    (Blind.execute i.op operand whole.not_frame).alike.bind fun _ => (Blind.pure none).alike

/-- Both decoders carry the same instruction out. -/
theorem alike_step {i : Instruction} (whole : i.Whole) :
    Alike (Standing (i.bytes ++ next) later (i.bytes ++ next') later')
      (Standing next later next' later') (step cfg) := by
  rintro st s ⟨place, place'⟩
  simp only [Instruction.bytes, head, payload, List.cons_append] at place place'
  obtain ⟨r, trace, run, place⟩ := readOpcode_ok i.op place
  have place' : (st.under s).input.At _ _ := place'
  obtain ⟨r', trace', run', place'⟩ := readOpcode_ok i.op place'
  rw [step, bind_ok run, bind_ok run']
  by_cases stop : i.op = .stop
  · obtain ⟨op, operand⟩ := i
    cases stop
    exact ((Blind.pop .stop).map some).alike { st with input := r, trace := trace }
      ⟨r', s.frameOpen, trace'⟩ ⟨place, place'⟩
  · rw [if_neg stop, dispatch_eq, bind_assoc]
    exact alike_operand whole { st with input := r, trace := trace } ⟨r', s.frameOpen, trace'⟩
      ⟨place, place'⟩

/-! ## Runs -/

/-- With enough steps both decoders come to the same end. -/
def EndAlike (cfg : Config H) (st : State H) (s : Surface) : Prop :=
  ∀ fuel fuel', st.input.remaining < fuel → s.input.remaining < fuel' →
    ∃ s', run cfg fuel' (st.under s) = under (run cfg fuel st) s'

/-- They come to the same end if they do behind one step. -/
theorem EndAlike.step {P Q : Surface → Surface → Prop} {st : State H} {s : Surface}
    (h : Alike P Q (Decoder.step cfg)) (related : P st.surface s)
    (behind : ∀ st' s', Q st'.surface s' → EndAlike cfg st' s') : EndAlike cfg st s := by
  intro fuel fuel' enough enough'
  cases fuel with
  | zero => exact absurd enough (Nat.not_lt_zero _)
  | succ fuel =>
    cases fuel' with
    | zero => exact absurd enough' (Nat.not_lt_zero _)
    | succ fuel' =>
      -- each side has its own bound, which the bytes of the step leave large enough
      obtain ⟨s', same, related'⟩ := h st s related
      rw [run, run, bind_apply, bind_apply, same]
      cases first : Decoder.step cfg st with
      | error e st' => exact ⟨s', rfl⟩
      | ok found st' =>
        cases found with
        | some v => exact ⟨s', rfl⟩
        | none =>
          rw [first] at same
          have less := remaining_step first
          have less' : s'.input.remaining < s.input.remaining := remaining_step same
          exact behind st' s' (related' none st' first) fuel fuel' (by omega) (by omega)

/-- They come to the same end if they do behind some instructions. -/
theorem EndAlike.instructions {is : List Instruction} (whole : ∀ i ∈ is, i.Whole)
    {st : State H} {s : Surface}
    (standing : Standing (allBytes is ++ next) later (allBytes is ++ next') later' st.surface s)
    (behind : ∀ st s, Standing next later next' later' st.surface s → EndAlike cfg st s) :
    EndAlike cfg st s := by
  induction is generalizing st s with
  | nil => exact behind st s standing
  | cons i is ih =>
    rw [List.forall_mem_cons] at whole
    rw [allBytes_cons, List.append_assoc, List.append_assoc] at standing
    exact .step (alike_step whole.1) standing fun st s standing => ih whole.2 standing

/-- At the end of the input both fail. -/
theorem EndAlike.ended {st : State H} {s : Surface} (standing : Standing [] [] [] [] st.surface s) :
    EndAlike cfg st s := by
  intro fuel fuel' enough enough'
  obtain ⟨fuel, rfl⟩ := Nat.exists_eq_add_one.2 (Nat.zero_lt_of_lt enough)
  obtain ⟨fuel', rfl⟩ := Nat.exists_eq_add_one.2 (Nat.zero_lt_of_lt enough')
  have place : st.input.At [] [] := standing.1
  have place' : (st.under s).input.At [] [] := standing.2
  obtain ⟨r, ended⟩ := readOpcode_ended place
  obtain ⟨r', ended'⟩ := readOpcode_ended place'
  refine ⟨{ s with input := r' }, ?_⟩
  simp only [run, Decoder.step, bind_apply, ended, ended']
  rfl

/-- They come to the same end if the second one first loads a frame. -/
theorem EndAlike.frame {st : State H} {s : Surface} {bs rest : Bytes}
    (bounded : bs.length ≤ cfg.limits.maxFrameLength) (word : bs.length < 2 ^ 64)
    (place : s.input.At (Frame.header bs.length) (bs ++ rest))
    (behind : ∀ s', s'.input.At bs rest → EndAlike cfg st s') : EndAlike cfg st s := by
  intro fuel fuel' enough enough'
  obtain ⟨fuel', rfl⟩ := Nat.exists_eq_add_one.2 (Nat.zero_lt_of_lt enough')
  have place : (st.under s).input.At _ _ := place
  -- only the second decoder makes this step, and nothing below its surface changes
  obtain ⟨r, trace, place', loads⟩ := step_frame bounded word place
  have less : r.remaining < s.input.remaining := remaining_step loads
  rw [run, bind_ok loads]
  exact behind ⟨r, true, trace⟩ place' fuel fuel' enough (by show r.remaining < _; omega)

end Decoder

/-! ## Groups -/

/-- Instructions that lie together, in a frame of their own or in none. The length of a frame has eight
    bytes. -/
structure Group where
  framed : Bool
  instructions : List Instruction
  word : framed = true → (allBytes instructions).length < 2 ^ 64

/-- The bytes of the instructions, behind the header of their frame if they have one. -/
def Group.bytes (g : Group) : Bytes :=
  if g.framed then Frame.header (allBytes g.instructions).length ++ allBytes g.instructions
  else allBytes g.instructions

namespace Decoder

variable {H : Type} [HostObject H] {cfg : Config H} {st : State H} {s : Surface}
  {groups : List Group}

/-- A decoder that reads the groups comes to the same end as one that reads their instructions. -/
theorem endAlike_groups (bounded : 2 ^ 64 - 1 ≤ cfg.limits.maxFrameLength)
    (whole : ∀ g ∈ groups, ∀ i ∈ g.instructions, i.Whole)
    (standing : Standing (allBytes (groups.flatMap Group.instructions)) [] [] (groups.flatMap Group.bytes)
      st.surface s) : EndAlike cfg st s := by
  induction groups generalizing st s with
  | nil => exact .ended standing
  | cons g groups ih =>
    rw [List.forall_mem_cons] at whole
    rw [List.flatMap_cons, List.flatMap_cons, allBytes_append] at standing
    obtain ⟨place, place'⟩ := standing
    -- inside of a frame or not, the instructions of the group come first and then the other groups
    have inside : ∀ s : Surface,
        s.input.At (allBytes g.instructions) (groups.flatMap Group.bytes) → EndAlike cfg st s := by
      intro s place'
      rw [← List.append_nil (allBytes g.instructions)] at place'
      exact .instructions whole.1 ⟨place, place'⟩ fun st s standing => ih whole.2 standing
    by_cases framed : g.framed = true
    · have word := g.word framed
      rw [Group.bytes, if_pos framed, List.append_assoc] at place'
      exact .frame (by omega) word place'.enter inside
    · rw [Group.bytes, if_neg framed] at place'
      exact inside s place'.enter

omit [HostObject H] in
/-- Closing the last frame is seen on the surface only. -/
theorem closed_under (r : EStateM.Result Error (State H) Value) (s : Surface) :
    ∃ s', closed (under r s) = under (closed r) s' := by
  have one : ∀ st : State H, ∃ s', closeFrame (st.under s) = (closeFrame st).under s' := by
    intro st
    obtain ⟨s', -, same⟩ := closeFrame_under st
    obtain ⟨s'', -, same'⟩ := closeFrame_under (st.under s)
    exact ⟨s'', by rw [same, same', State.under_under, State.under_under]⟩
  cases r with
  | ok v st =>
    obtain ⟨s', same⟩ := one st
    exact ⟨s', congrArg (EStateM.Result.ok v) same⟩
  | error e st =>
    obtain ⟨s', same⟩ := one st
    exact ⟨s', congrArg (EStateM.Result.error e) same⟩

/-- Decoders that come to the same end hand back the same. -/
theorem load_endAlike {store : Store H} {bs bs' : Bytes} {buffers : Option (List Value)}
    {trace : Trace}
    (h : EndAlike cfg (.ofSource store (.ofBytes bs) buffers trace)
      ⟨.ofSource (.ofBytes bs'), false, trace⟩) :
    ∃ s, load cfg (.ofSource store (.ofBytes bs') buffers trace) =
      under (load cfg (.ofSource store (.ofBytes bs) buffers trace)) s := by
  obtain ⟨s, same⟩ := h (bs.length + 1) (bs'.length + 1)
    (Nat.lt_succ_of_le (remaining_ofSource bs).le) (Nat.lt_succ_of_le (remaining_ofSource bs').le)
  rw [load_of_run cfg store buffers trace (Nat.lt_succ_self bs.length),
    load_of_run cfg store buffers trace (Nat.lt_succ_self bs'.length)]
  obtain ⟨s', closes⟩ := closed_under
    (run cfg (bs.length + 1) (.ofSource store (.ofBytes bs) buffers trace)) s
  exact ⟨s', by rw [← closes, ← same]; rfl⟩

/-- A decoder of groups comes to the same end as one of their instructions. -/
theorem load_groups (usual : cfg.limits = {}) (whole : ∀ g ∈ groups, ∀ i ∈ g.instructions, i.Whole)
    (store : Store H) (buffers : Option (List Value)) (trace : Trace) :
    ∃ s, load cfg (.ofSource store (.ofBytes (groups.flatMap Group.bytes)) buffers trace) =
      under (load cfg (.ofSource store
        (.ofBytes (allBytes (groups.flatMap Group.instructions))) buffers trace)) s := by
  have bounded : 2 ^ 64 - 1 ≤ cfg.limits.maxFrameLength := by rw [usual]
  exact load_endAlike (endAlike_groups bounded whole
    ⟨⟨rfl, .inr ⟨rfl, (List.append_nil _).symm⟩⟩, ⟨rfl, .inr ⟨rfl, rfl⟩⟩⟩)

end Decoder

end ObjectStream
