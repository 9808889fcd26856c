import Mathlib.Data.List.TakeDrop
import ObjectStream.Proofs.Action
import ObjectStream.Proofs.Operands

/-!
Reading instructions back.

A request takes an operand from the bytes that spell it, whoever answers it (`Request.Takes`). A
reader that stands before the bytes of an instruction hands out the opcode and the operand that were
written, whether the bytes lie in a loaded frame or in the source (`readOpcode_ok`, `answer_ok`).
Only the input of the decoder moves.
-/

namespace ObjectStream

/-! ## Numbers and doubles -/

theorem Bytes.toNatBE_append (a b : Bytes) :
    (a ++ b).toNatBE = b.foldl (fun n x => 256 * n + x.toNat) a.toNatBE := by
  simp [Bytes.toNatBE, List.foldl_append]

theorem Bytes.toNatBE_reverse (bs : Bytes) : Bytes.toNatBE bs.reverse = bs.toNatLE := by
  induction bs with
  | nil => rfl
  | cons b rest ih =>
    rw [List.reverse_cons, Bytes.toNatBE_append, ih, Bytes.toNatLE_cons]
    simp [Nat.add_comm]

theorem Double.ofBytes_toBytes (x : Double) : Double.ofBytes x.toBytes = x := by
  have fits : x.bits.toNat % 256 ^ 8 = x.bits.toNat := Nat.mod_eq_of_lt x.bits.toNat_lt
  rw [Double.ofBytes, Double.toBytes, Bytes.ofNatBE, Bytes.toNatBE_reverse,
    Bytes.toNatLE_ofNatLE, fits, UInt64.ofNat_toNat]

/-! ## Sources and readers -/

theorem Bytes.splitLine_newline {line rest : Bytes} (h : 0x0a ∉ line) :
    Bytes.splitLine (line ++ 0x0a :: rest) = (line ++ [0x0a], rest) := by
  have keep : ∀ b ∈ line, (b != 0x0a) = true := fun b hb => by
    simp only [bne_iff_ne]
    exact fun e => h (e ▸ hb)
  rw [Bytes.splitLine, List.span_eq_takeWhile_dropWhile, List.takeWhile_append_of_pos keep,
    List.dropWhile_append_of_pos keep]
  simp

namespace Source

variable {s : Source} {bs rest : Bytes}

theorem read_append (fault : s.fault = none) (unread : s.unread = bs ++ rest) :
    s.read bs.length = .ok (bs, { s with unread := rest, taken := s.taken + bs.length }) := by
  simp [Source.read, Source.advance, fault, unread]

theorem readLine_newline (fault : s.fault = none) (unread : s.unread = bs ++ 0x0a :: rest)
    (h : 0x0a ∉ bs) : s.readLine = .ok (bs ++ [0x0a],
      { s with unread := rest, taken := s.taken + (bs ++ [0x0a]).length }) := by
  simp [Source.readLine, Source.advance, fault, unread, Bytes.splitLine_newline h]

end Source

namespace Frame.Reader

/-- The reader hands out the bytes `next` without crossing the end of a frame; `later` lies behind
    them in the source. -/
structure At (r : Reader) (next later : Bytes) : Prop where
  faultless : r.source.fault = none
  place : (r.inFrame = true ∧ r.frame = next ∧ r.source.unread = later) ∨
    (r.frame = [] ∧ r.source.unread = next ++ later)

variable {r : Reader} {bs next later : Bytes}

theorem At.empty (h : r.At [] later) : r.frame = [] ∧ r.source.unread = later := by
  rcases h.place with ⟨_, frame, unread⟩ | ⟨frame, unread⟩
  · exact ⟨frame, unread⟩
  · exact ⟨frame, unread⟩

/-- Behind the last byte of a frame the source goes on. -/
theorem At.enter (h : r.At [] (next ++ later)) : r.At next later :=
  ⟨h.faultless, .inr h.empty⟩

theorem At.remaining (h : r.At next later) : r.remaining = next.length + later.length := by
  rcases h.place with ⟨_, frame, unread⟩ | ⟨frame, unread⟩ <;>
    simp [Reader.remaining, frame, unread]

/-- A read from the source behind a frame without bytes left. -/
theorem readSource_ok {f : Source → Except String (Bytes × Source)} {source : Source}
    (frame : r.frame = []) (h : f r.source = .ok (bs, source)) :
    readSource f r =
      .ok bs { r with source := source, position := r.position + bs.length } := by
  simp only [readSource, dropFrame, frame, h]

theorem read_ok (h : r.At (bs ++ next) later) :
    ∃ r', read bs.length r = .ok bs r' ∧ r'.At next later := by
  rcases h.place with ⟨inFrame, frame, unread⟩ | ⟨frame, unread⟩
  · refine ⟨{ r with frame := next, position := r.position + bs.length }, ?_,
      h.faultless, .inl ⟨inFrame, rfl, unread⟩⟩
    have held : (r.frame.isEmpty && bs.length != 0) = false := by
      rw [frame]
      cases bs <;> simp
    rw [read, if_pos inFrame, held, frame]
    simp
  · rw [List.append_assoc] at unread
    have source := Source.read_append h.faultless unread
    by_cases inFrame : r.inFrame
    · by_cases empty : bs = []
      · subst empty
        exact ⟨{ r with frame := [], position := r.position + 0 }, by simp [read, inFrame, frame],
          h.faultless, .inr ⟨rfl, unread⟩⟩
      · have run := readSource_ok (r := { r with inFrame := false })
          (f := (·.read bs.length)) frame source
        rw [read, if_pos inFrame, if_pos (by simp [frame, empty]), run]
        exact ⟨_, rfl, h.faultless, .inr ⟨frame, rfl⟩⟩
    · rw [read, if_neg inFrame, readSource_ok frame source]
      exact ⟨_, rfl, h.faultless, .inr ⟨frame, rfl⟩⟩

/-- At the end nothing is handed out. -/
theorem read_ended (h : r.At [] []) : ∃ r', read 1 r = .ok [] r' := by
  obtain ⟨frame, unread⟩ := h.empty
  have source : r.source.read 1 = .ok ([], { r.source with
      unread := [], taken := r.source.taken + 0 }) := by
    simp [Source.read, Source.advance, h.faultless, unread]
  by_cases inFrame : r.inFrame
  · have run := readSource_ok (r := { r with inFrame := false }) (f := (·.read 1)) frame source
    rw [read, if_pos inFrame, if_pos (by simp [frame]), run]
    exact ⟨_, rfl⟩
  · rw [read, if_neg inFrame, readSource_ok frame source]
    exact ⟨_, rfl⟩

theorem readLine_ok (h : r.At (bs ++ 0x0a :: next) later) (newline : 0x0a ∉ bs) :
    ∃ r', readLine r = .ok (bs ++ [0x0a]) r' ∧ r'.At next later := by
  rcases h.place with ⟨inFrame, frame, unread⟩ | ⟨frame, unread⟩
  · refine ⟨{ r with frame := next, position := r.position + (bs ++ [0x0a]).length }, ?_,
      h.faultless, .inl ⟨inFrame, rfl, unread⟩⟩
    simp [readLine, inFrame, frame, Bytes.splitLine_newline newline]
  · rw [List.append_assoc, List.cons_append] at unread
    have source := Source.readLine_newline h.faultless unread newline
    by_cases inFrame : r.inFrame
    · have run := readSource_ok (r := { r with inFrame := false }) frame source
      rw [readLine, if_pos inFrame, if_pos (by simp [frame]), run]
      exact ⟨_, rfl, h.faultless, .inr ⟨frame, rfl⟩⟩
    · rw [readLine, if_neg inFrame, readSource_ok frame source]
      exact ⟨_, rfl, h.faultless, .inr ⟨frame, rfl⟩⟩

theorem loadFrame_ok (h : r.At [] (next ++ later)) :
    ∃ r', loadFrame next.length r = .ok () r' ∧ r'.At next later := by
  obtain ⟨frame, unread⟩ := h.empty
  refine ⟨{ r with
    source := { r.source with unread := later, taken := r.source.taken + next.length }
    frame := next, inFrame := true }, ?_, h.faultless, .inl ⟨rfl, rfl, rfl⟩⟩
  simp [loadFrame, dropFrame, frame, Source.read_append h.faultless unread]

end Frame.Reader

/-! ## Operands -/

/-- The operand has a spelling: its count fits the width, its lines hold no newline, and its names
    are UTF-8. No byte string in memory is too long for a count of eight bytes. -/
def Shape.Fits : (shape : Shape) → shape.Operand → Prop
  | .line, text => 0x0a ∉ text
  | .lines2, (first, second) => (0x0a ∉ first ∧ 0x0a ∉ second) ∧
      (Text.ofUtf8? first).isSome ∧ (Text.ofUtf8? second).isSome
  | .counted8, payload => payload.length < 2 ^ 8
  | .counted32, payload => payload.length < 2 ^ 32
  | .countedSigned32, payload => payload.length < 2 ^ 31
  | _, _ => True

/-- The request takes exactly these bytes and ends in the value. -/
inductive Request.Takes {α : Type} : Request α → Bytes → α → Prop
  | done (a : α) : Takes (.done a) [] a
  | take {count : Nat} {more : Bytes → Request α} {bs rest : Bytes} {a : α}
      (length : bs.length = count) (h : Takes (more bs) rest a) :
      Takes (.take count more) (bs ++ rest) a
  | line {more : Bytes → Request α} {bs rest : Bytes} {a : α} (newline : 0x0a ∉ bs)
      (h : Takes (more bs) rest a) : Takes (.line more) (bs ++ 0x0a :: rest) a

namespace Request

variable {α : Type} {op : Opcode} {bs : Bytes} {a : α}

/-- An operand of fixed width reads back if its bytes spell it. -/
theorem takes_fixed {count : Nat} (parse : Bytes → α) (length : bs.length = count)
    (spelled : parse bs = a) : (Request.take count fun bs => .done (parse bs)).Takes bs a := by
  have h : (Request.take count fun bs => .done (parse bs)).Takes (bs ++ []) (parse bs) :=
    .take length (.done _)
  rwa [List.append_nil, spelled] at h

theorem takes_counted {width limit : Nat} (fits : bs.length < 256 ^ width)
    (bounded : bs.length ≤ limit) :
    (counted width limit).Takes (Bytes.ofNatLE width bs.length ++ bs) bs := by
  refine .take (Bytes.length_ofNatLE ..) ?_
  simp only [Bytes.toNatLE_ofNatLE, Nat.mod_eq_of_lt fits, if_neg (Nat.not_lt.2 bounded)]
  exact takes_fixed id rfl rfl

theorem takes_countedSigned {limit : Nat} (fits : bs.length < 2 ^ 31)
    (bounded : bs.length ≤ limit) :
    (countedSigned op limit).Takes (Bytes.ofNatLE 4 bs.length ++ bs) bs := by
  refine .take (Bytes.length_ofNatLE ..) ?_
  simp only [Bytes.toNatLE_ofNatLE, Nat.mod_eq_of_lt (show bs.length < 256 ^ 4 by omega),
    if_neg (Nat.not_le.2 fits), if_neg (Nat.not_lt.2 bounded)]
  exact takes_fixed id rfl rfl

theorem takes_lines2 (checked : Bool) {first second : Bytes}
    (fits : Shape.lines2.Fits (first, second)) :
    (lines2 op checked).Takes (first ++ 0x0a :: second ++ [0x0a]) (first, second) := by
  obtain ⟨⟨newline, newline'⟩, text, text'⟩ := fits
  rw [List.append_assoc, List.cons_append]
  refine .line newline ?_
  rw [if_neg (by simp [Option.isNone_eq_false_iff.2 text])]
  refine .line newline' ?_
  rw [if_neg (by simp [Option.isNone_eq_false_iff.2 text'])]
  exact .done _

/-- Every operand that fits reads back. -/
theorem takes_ofShape (op : Opcode) {limit : Nat} (checked : Bool) (shape : Shape)
    (operand : shape.Operand) (fits : shape.Fits operand)
    (bounded : (shape.bytes operand).2.length ≤ limit)
    (word : (shape.bytes operand).2.length < 2 ^ 64) :
    (ofShape op limit checked shape).Takes
      ((shape.bytes operand).1 ++ (shape.bytes operand).2) operand := by
  cases shape with
  | nothing => exact .done ()
  | word8 => exact takes_fixed (fun bs => UInt8.ofNat bs.toNatLE) rfl (by simp [Shape.bytes])
  | word16 =>
    refine takes_fixed (fun bs => UInt16.ofNat bs.toNatLE) (by simp [Shape.bytes]) ?_
    simp [Shape.bytes, Bytes.toNatLE_ofNatLE]
  | signed32 =>
    refine takes_fixed (fun bs => (UInt32.ofNat bs.toNatLE).toInt32) (by simp [Shape.bytes]) ?_
    simp [Shape.bytes, Bytes.toNatLE_ofNatLE]
  | word32 =>
    refine takes_fixed (fun bs => UInt32.ofNat bs.toNatLE) (by simp [Shape.bytes]) ?_
    simp [Shape.bytes, Bytes.toNatLE_ofNatLE]
  | word64 =>
    refine takes_fixed (fun bs => UInt64.ofNat bs.toNatLE) (by simp [Shape.bytes]) ?_
    simp [Shape.bytes, Bytes.toNatLE_ofNatLE]
  | double =>
    refine takes_fixed Double.ofBytes (by simp [Shape.bytes, Double.toBytes]) ?_
    simp [Shape.bytes, Double.ofBytes_toBytes]
  | line =>
    have h : (Request.line .done).Takes (operand ++ 0x0a :: []) operand := .line fits (.done operand)
    rwa [← List.append_nil (operand ++ _)] at h
  | lines2 =>
    have h : (lines2 op checked).Takes _ operand := takes_lines2 checked fits
    rwa [← List.append_nil (operand.1 ++ _ ++ _)] at h
  | counted8 => exact takes_counted fits bounded
  | counted32 => exact takes_counted fits bounded
  | countedSigned32 => exact takes_countedSigned fits bounded
  | counted64 => exact takes_counted word bounded

end Request

namespace Decoder

variable {H : Type} {st : State H} {bs next later : Bytes}

theorem readExactly_ok (op : Opcode) (h : st.input.At (bs ++ next) later) :
    ∃ r, readExactly op bs.length st = .ok bs { st with input := r } ∧ r.At next later := by
  obtain ⟨r, run, place⟩ := Frame.Reader.read_ok h
  refine ⟨r, ?_, place⟩
  simp [readExactly, bind_apply, reading, run, pure_apply]

theorem readLine_ok (op : Opcode) (h : st.input.At (bs ++ 0x0a :: next) later)
    (newline : 0x0a ∉ bs) :
    ∃ r, readLine op st = .ok bs { st with input := r } ∧ r.At next later := by
  obtain ⟨r, run, place⟩ := Frame.Reader.readLine_ok h newline
  refine ⟨r, ?_, place⟩
  simp [readLine, bind_apply, reading, run, pure_apply]

/-- The decoder answers a request from its input, whatever follows the bytes that are taken. -/
theorem answer_ok {α : Type} {request : Request α} {a : α} (op : Opcode) (h : request.Takes bs a)
    (place : st.input.At (bs ++ next) later) :
    ∃ r, answer op request st = .ok a { st with input := r } ∧ r.At next later := by
  induction h generalizing st with
  | done a => exact ⟨_, rfl, place⟩
  | take length _ ih =>
    rw [List.append_assoc] at place
    obtain ⟨r, run, place⟩ := readExactly_ok op place
    have place : ({ st with input := r } : State H).input.At _ _ := place
    obtain ⟨r', run', place⟩ := ih place
    rw [length] at run
    exact ⟨r', by rw [answer, bind_ok run, run'], place⟩
  | line newline _ ih =>
    rw [List.append_assoc, List.cons_append] at place
    obtain ⟨r, run, place⟩ := readLine_ok op place newline
    have place : ({ st with input := r } : State H).input.At _ _ := place
    obtain ⟨r', run', place⟩ := ih place
    exact ⟨r', by rw [answer, bind_ok run, run'], place⟩

end Decoder

end ObjectStream
