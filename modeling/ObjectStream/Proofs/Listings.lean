import ObjectStream.Listing
import ObjectStream.Proofs.RoundTrip

/-!
Listings of streams that were written.

A stream is the bytes of instructions once each header is taken for an instruction of its own
(`Framed`). A listing finds these instructions one by one, where they stand (`listFrom_ok`). So it
tells what the encoder has reported: without the frames, and with every offset lowered by the headers
before it, the listing is the trace (`ofBytes_dump`).
-/

namespace ObjectStream

open Encoder Instruction

/-! ## Headers as instructions -/

/-- The instructions with a further one before each run of them that lies in a frame. -/
inductive Framed : List Instruction → List Instruction → Prop
  | done : Framed [] []
  | bare {i is full} (rest : Framed is full) : Framed (i :: is) (i :: full)
  | framed {js is full} (long : frameSizeMin ≤ (allBytes js).length)
      (word : (allBytes js).length < 2 ^ 64) (rest : Framed is full) :
      Framed (js ++ is) (⟨.frame, UInt64.ofNat (allBytes js).length⟩ :: (js ++ full))

/-- A stream that spells instructions is the bytes of these and of an instruction for each frame. -/
theorem Spells.exists_framed {is : List Instruction} {bs : Bytes} (h : Spells is bs)
    (word : bs.length < 2 ^ 64) : ∃ full, Framed is full ∧ bs = allBytes full := by
  induction h with
  | done => exact ⟨[], .done, rfl⟩
  | bare _ ih =>
    rw [List.length_append] at word
    obtain ⟨full, framed, rfl⟩ := ih (by omega)
    exact ⟨_, .bare framed, rfl⟩
  | @framed js is bs long _ ih =>
    simp only [List.length_append] at word
    have short : (allBytes js).length < 2 ^ 64 := by omega
    obtain ⟨full, framed, rfl⟩ := ih (by omega)
    refine ⟨_, .framed long short framed, ?_⟩
    rw [Frame.header_eq_bytes short, allBytes_cons, allBytes_append]

namespace Framed

variable {is full : List Instruction} {i : Instruction}

/-- The instructions of the frames are all that was added. -/
theorem filter_eq (h : Framed is full) (other : ∀ i ∈ is, i.op ≠ .frame) :
    full.filter (fun i => i.op ≠ .frame) = is := by
  induction h with
  | done => rfl
  | bare _ ih =>
    rw [List.forall_mem_cons] at other
    rw [List.filter_cons_of_pos (by simpa using other.1), ih other.2]
  | framed _ _ _ ih =>
    rw [List.forall_mem_append] at other
    rw [List.filter_cons_of_neg (by simp), List.filter_append, ih other.2,
      List.filter_eq_self.2 (by simpa using other.1)]

/-- Behind a header there is something in the frame, so the last instruction stays the last. -/
theorem getLast?_eq (h : Framed is full) : full.getLast? = is.getLast? := by
  induction h with
  | done => rfl
  | bare _ ih => rw [List.getLast?_cons, List.getLast?_cons, ih]
  | @framed js is full long _ _ ih =>
    have held : js.getLast? ≠ none := by
      rw [ne_eq, List.getLast?_eq_none_iff]
      rintro rfl
      exact absurd long (by decide)
    obtain ⟨j, last⟩ := Option.ne_none_iff_exists'.1 held
    rw [List.getLast?_cons, List.getLast?_append, List.getLast?_append, ih, last]
    cases is.getLast? <;> rfl

/-- One `STOP` at the end of ordinary instructions stays the only one. -/
theorem ends (h : Framed (is ++ [⟨.stop, ()⟩]) full) (ordinary : ∀ i ∈ is, i.Ordinary) :
    ∃ body, full = body ++ [⟨.stop, ()⟩] ∧
      ∀ i ∈ body, i.op ≠ .stop ∧ i.op.shape.Fits i.operand := by
  have other : ∀ i ∈ is ++ [⟨.stop, ()⟩], i.op ≠ .frame := by
    intro i mem
    rcases List.mem_append.1 mem with mem | mem
    · exact (ordinary i mem).not_frame
    · rw [List.mem_singleton.1 mem]
      decide
  have last : full.getLast? = some ⟨.stop, ()⟩ := by
    rw [h.getLast?_eq, List.getLast?_append]
    rfl
  obtain ⟨body, rfl⟩ := List.getLast?_eq_some_iff.1 last
  refine ⟨body, rfl, fun i mem => ?_⟩
  have same := h.filter_eq other
  rw [List.filter_append] at same
  have same : body.filter (fun i => i.op ≠ .frame) = is := List.append_cancel_right same
  by_cases frame : i.op = .frame
  · obtain ⟨op, operand⟩ := i
    cases frame
    refine ⟨?_, trivial⟩
    show Opcode.frame ≠ .stop
    decide
  · have mem : i ∈ is := by
      rw [← same]
      exact List.mem_filter.2 ⟨mem, by simpa using frame⟩
    exact ⟨(ordinary i mem).not_stop, (ordinary i mem).fits⟩

end Framed

/-! ## Listing instructions -/

/-- A listing answers a request from the bytes before the cursor, whatever follows them. -/
theorem Cursor.answer_ok {α : Type} {request : Request α} {a : α} {bs rest : Bytes} {offset : Nat}
    (op : Opcode) (h : request.Takes bs a) :
    Cursor.answer op ⟨bs ++ rest, offset⟩ request = .ok (a, ⟨rest, offset + bs.length⟩) := by
  induction h generalizing offset with
  | done a => rfl
  | @take count more bs bs' a length h ih =>
    have split : (bs ++ bs' ++ rest).splitAt count = (bs, bs' ++ rest) := by
      rw [List.append_assoc, ← length, List.splitAt_eq, List.take_left, List.drop_left]
    simp only [Cursor.answer, split, if_neg (Nat.not_lt.2 (Nat.le_of_eq length.symm)), ih]
    rw [List.length_append, length, Nat.add_assoc]
  | @line more bs bs' a newline h ih =>
    have split : Bytes.splitLine (bs ++ 0x0a :: bs' ++ rest) = (bs ++ [0x0a], bs' ++ rest) := by
      rw [List.append_assoc, List.cons_append, Bytes.splitLine_newline newline]
    simp only [Cursor.answer, split, List.getLast?_concat, if_true, List.dropLast_concat, ih]
    simp only [List.length_append, List.length_cons, List.length_nil]
    congr 3
    omega

namespace Listing

/-- The listed instruction. -/
def Line.of (offset : Nat) (i : Instruction) : Line :=
  ⟨offset, i.op, .ofOperand i.op i.op.shape i.operand⟩

/-- The listed instructions, the first of which stands at `offset`. -/
def lines (offset : Nat) : List Instruction → List Line
  | [] => []
  | i :: is => Line.of offset i :: lines (offset + i.bytes.length) is

theorem lines_append (offset : Nat) (is js : List Instruction) :
    lines offset (is ++ js) = lines offset is ++ lines (offset + (allBytes is).length) js := by
  induction is generalizing offset with
  | nil => rfl
  | cons i is ih => simp [lines, ih, Nat.add_assoc]

variable {is full : List Instruction} {i : Instruction} {rest : Bytes} {before : List Line}
  {fuel offset : Nat}

/-- One instruction is listed, and the listing goes on unless it is a `STOP`. -/
theorem listFrom_cons (fits : i.op.shape.Fits i.operand) (word : i.payload.length < 2 ^ 64) :
    listFrom (fuel + 1) ⟨i.bytes ++ rest, offset⟩ before =
      if i.op = .stop then .ok (Line.of offset i :: before).reverse
      else listFrom fuel ⟨rest, offset + i.bytes.length⟩ (Line.of offset i :: before) := by
  have takes := Request.takes_ofShape i.op false i.op.shape i.operand fits (Nat.le_of_lt word) word
  have answer := @Cursor.answer_ok _ _ _ _ rest (offset + 1) i.op takes
  have length : i.bytes.length =
      1 + ((i.op.shape.bytes i.operand).1 ++ (i.op.shape.bytes i.operand).2).length := by
    simp only [Instruction.bytes, Instruction.head, Instruction.payload, List.length_append,
      List.length_cons]
    omega
  rw [length, ← Nat.add_assoc]
  simp only [Instruction.bytes, Instruction.head, Instruction.payload, List.cons_append]
  simp only [listFrom, Opcode.ofByte?_byte, Request.operand, answer]
  rfl

/-- The bytes of instructions up to a `STOP` are listed as these instructions. -/
theorem listFrom_ok (ordinary : ∀ i ∈ is, i.op ≠ .stop ∧ i.op.shape.Fits i.operand)
    (word : ∀ i ∈ is, i.payload.length < 2 ^ 64) (enough : is.length < fuel) :
    listFrom fuel ⟨allBytes (is ++ [⟨.stop, ()⟩]) ++ rest, offset⟩ before =
      .ok (before.reverse ++ lines offset (is ++ [⟨.stop, ()⟩])) := by
  induction is generalizing fuel offset before with
  | nil =>
    obtain ⟨fuel, rfl⟩ := Nat.exists_eq_add_one.2 enough
    rw [List.nil_append, allBytes_cons, allBytes_nil, List.append_nil,
      listFrom_cons (i := ⟨.stop, ()⟩) trivial (by decide), if_pos rfl, List.reverse_cons]
    rfl
  | cons i is ih =>
    obtain ⟨fuel, rfl⟩ := Nat.exists_eq_add_one.2 (Nat.zero_lt_of_lt enough)
    rw [List.forall_mem_cons] at ordinary word
    obtain ⟨⟨other, fits⟩, ordinary⟩ := ordinary
    rw [List.length_cons] at enough
    rw [List.cons_append, allBytes_cons, List.append_assoc, listFrom_cons fits word.1,
      if_neg other, ih ordinary word.2 (by omega)]
    simp [lines]

/-- Without frames the bytes up to a `STOP` are listed as the instructions they are. -/
theorem ofBytes_allBytes (ordinary : ∀ i ∈ is, i.op ≠ .stop ∧ i.op.shape.Fits i.operand)
    (word : ∀ i ∈ is, i.payload.length < 2 ^ 64) :
    ofBytes (allBytes (is ++ [⟨.stop, ()⟩])) = .ok (lines 0 (is ++ [⟨.stop, ()⟩])) := by
  have enough : is.length < (allBytes (is ++ [⟨.stop, ()⟩])).length + 1 := by
    have := length_le_allBytes (is ++ [⟨.stop, ()⟩])
    rw [List.length_append] at this
    omega
  rw [ofBytes, ← List.append_nil (allBytes _)]
  exact listFrom_ok ordinary word (by rwa [List.append_nil])

/-- The last line of such a listing is that of the `STOP`, which ends at the last byte. -/
theorem lines_stop (is : List Instruction) :
    ∃ last, (lines 0 (is ++ [⟨.stop, ()⟩])).getLast? = some last ∧ last.op = .stop ∧
      last.offset + 1 = (allBytes (is ++ [⟨.stop, ()⟩])).length := by
  refine ⟨Line.of (allBytes is).length ⟨.stop, ()⟩, ?_, rfl, ?_⟩
  · rw [lines_append, List.getLast?_append, Nat.zero_add]
    rfl
  · rw [allBytes_append, List.length_append]
    rfl

/-! ## Frames in a listing -/

/-- The offsets and opcodes of a listing behind so many headers, as they were before framing: each
    header takes nine bytes. -/
def unframed : (headers : Nat) → List Line → List (Nat × Opcode)
  | _, [] => []
  | headers, line :: rest =>
    if line.op = .frame then unframed (headers + 1) rest
    else (line.offset - 9 * headers, line.op) :: unframed headers rest

theorem unframed_lines {headers : Nat} {rest : List Line} (other : ∀ i ∈ is, i.op ≠ .frame) :
    unframed headers (lines (offset + 9 * headers) is ++ rest) =
      placed offset is ++ unframed headers rest := by
  induction is generalizing offset with
  | nil => rfl
  | cons i is ih =>
    rw [List.forall_mem_cons] at other
    have next : offset + 9 * headers + i.bytes.length = offset + i.bytes.length + 9 * headers := by
      omega
    simp only [lines, List.cons_append, unframed, Line.of, if_neg other.1, placed, next,
      ih other.2, Nat.add_sub_cancel]

/-- Deleting the frames leaves the instructions where they stood without headers. -/
theorem unframed_framed {headers : Nat} (h : Framed is full) (other : ∀ i ∈ is, i.op ≠ .frame) :
    unframed headers (lines (offset + 9 * headers) full) = placed offset is := by
  induction h generalizing offset headers with
  | done => rfl
  | @bare i is full _ ih =>
    rw [List.forall_mem_cons] at other
    have next : offset + 9 * headers + i.bytes.length = offset + i.bytes.length + 9 * headers := by
      omega
    simp only [lines, unframed, Line.of, if_neg other.1, placed, next, ih other.2,
      Nat.add_sub_cancel]
  | @framed js is full _ _ _ ih =>
    rw [List.forall_mem_append] at other
    have behind : offset + 9 * headers +
        (Instruction.bytes ⟨.frame, UInt64.ofNat (allBytes js).length⟩).length =
        offset + 9 * (headers + 1) := by
      show _ + (1 + 8) = _
      omega
    have next : offset + 9 * (headers + 1) + (allBytes js).length =
        offset + (allBytes js).length + 9 * (headers + 1) := by
      omega
    rw [lines, behind, unframed, Line.of, if_pos rfl, lines_append, unframed_lines other.1, next,
      ih other.2, placed_append]

/-- A frame in a listing of `size` bytes is worth its header, and behind it one of the lines begins or
    the bytes end. -/
def Line.EndsAmong (line : Line) (lines : List Line) (size : Nat) : Prop :=
  line.op = .frame → ∃ n, line.argument = .uint n ∧ 4 ≤ n ∧
    (line.offset + 9 + n = size ∨ ∃ next ∈ lines, next.offset = line.offset + 9 + n)

/-- Every frame of the listing ends where an instruction begins or where the bytes end. -/
def FramesEnd (lines : List Line) (size : Nat) : Prop :=
  ∀ line ∈ lines, line.EndsAmong lines size

theorem FramesEnd.append {former later : List Line} {size : Nat}
    (own : ∀ line ∈ former, line.EndsAmong later size) (h : FramesEnd later size) :
    FramesEnd (former ++ later) size := by
  have ends : ∀ line ∈ former ++ later, line.EndsAmong later size := by
    intro line mem
    exact (List.mem_append.1 mem).elim (own line) (h line)
  intro line mem frame
  obtain ⟨n, argument, long, place⟩ := ends line mem frame
  exact ⟨n, argument, long, place.imp_right fun ⟨next, held, here⟩ =>
    ⟨next, List.mem_append_right _ held, here⟩⟩

theorem op_of_mem_lines {line : Line} (mem : line ∈ lines offset is) : ∃ i ∈ is, line.op = i.op := by
  induction is generalizing offset with
  | nil => cases mem
  | cons i is ih =>
    rcases List.mem_cons.1 mem with rfl | mem
    · exact ⟨i, List.mem_cons_self .., rfl⟩
    · obtain ⟨j, held, same⟩ := ih mem
      exact ⟨j, List.mem_cons_of_mem _ held, same⟩

theorem endsAmong_of_unframed (other : ∀ i ∈ is, i.op ≠ .frame) {later : List Line} {size : Nat} :
    ∀ line ∈ lines offset is, line.EndsAmong later size := by
  intro line mem frame
  obtain ⟨i, held, same⟩ := op_of_mem_lines mem
  exact absurd (same.symm.trans frame) (other i held)

/-- Behind the run that a header announces the next instruction begins. -/
theorem endsAmong_header {js : List Instruction} (long : frameSizeMin ≤ (allBytes js).length)
    (word : (allBytes js).length < 2 ^ 64) :
    (Line.of offset ⟨.frame, UInt64.ofNat (allBytes js).length⟩).EndsAmong
      (lines (offset + 9) (js ++ full))
      (offset + 9 + (allBytes js).length + (allBytes full).length) := by
  intro _
  refine ⟨(allBytes js).length, congrArg Argument.uint (UInt64.toNat_ofNat_of_lt' word), long, ?_⟩
  cases full with
  | nil => exact .inl rfl
  | cons i full =>
    refine .inr ⟨Line.of (offset + 9 + (allBytes js).length) i, ?_, rfl⟩
    rw [lines_append]
    exact List.mem_append_right _ (List.mem_cons_self ..)

theorem framesEnd_lines (h : Framed is full) (other : ∀ i ∈ is, i.op ≠ .frame) :
    FramesEnd (lines offset full) (offset + (allBytes full).length) := by
  induction h generalizing offset with
  | done => exact List.forall_mem_nil _
  | @bare i is full _ ih =>
    rw [List.forall_mem_cons] at other
    rw [allBytes_cons, List.length_append, ← Nat.add_assoc]
    have alone : ∀ j ∈ [i], j.op ≠ .frame := List.forall_mem_singleton.2 other.1
    exact FramesEnd.append (endsAmong_of_unframed alone) (ih other.2)
  | @framed js is full long word _ ih =>
    rw [List.forall_mem_append] at other
    have inside : FramesEnd (lines (offset + 9) (js ++ full))
        (offset + 9 + (allBytes js).length + (allBytes full).length) := by
      rw [lines_append]
      exact FramesEnd.append (endsAmong_of_unframed other.1) (ih other.2)
    have size : offset + (9 + ((allBytes js).length + (allBytes full).length)) =
        offset + 9 + (allBytes js).length + (allBytes full).length := by omega
    have wide : (Instruction.bytes ⟨.frame, UInt64.ofNat (allBytes js).length⟩).length = 9 := rfl
    rw [allBytes_cons, allBytes_append, List.length_append, List.length_append, wide, size]
    exact FramesEnd.append (List.forall_mem_singleton.2 (endsAmong_header long word)) inside

/-- The listing of a stream of `size` bytes tells these instructions, given by their offsets without
    headers. -/
structure Tells (lines : List Line) (size : Nat) (entries : List (Nat × Opcode)) : Prop where
  /-- The last instruction is a `STOP`, which ends at the last byte. -/
  stop : ∃ last, lines.getLast? = some last ∧ last.op = .stop ∧ last.offset + 1 = size
  entries : unframed 0 lines = entries
  frames : FramesEnd lines size

/-- A stream of ordinary instructions up to a `STOP` is listed to its end. -/
theorem ofBytes_spells {bs : Bytes} (spelled : Spells (is ++ [⟨.stop, ()⟩]) bs)
    (ordinary : ∀ i ∈ is, i.Ordinary) (word : bs.length < 2 ^ 64) :
    ∃ lines, ofBytes bs = .ok lines ∧
      Tells lines bs.length (placed 0 (is ++ [⟨.stop, ()⟩])) := by
  have other : ∀ i ∈ is ++ [⟨.stop, ()⟩], i.op ≠ .frame :=
    List.forall_mem_append.2 ⟨fun i mem => (ordinary i mem).not_frame,
      List.forall_mem_singleton.2 (by decide)⟩
  obtain ⟨full, framed, rfl⟩ := spelled.exists_framed word
  obtain ⟨body, rfl, spellings⟩ := framed.ends ordinary
  have short : ∀ i ∈ body, i.payload.length < 2 ^ 64 := fun i mem => by
    have := payload_le_allBytes (List.mem_append_left [⟨.stop, ()⟩] mem)
    omega
  refine ⟨_, ofBytes_allBytes spellings short, lines_stop body, unframed_framed framed other, ?_⟩
  rw [← Nat.zero_add (allBytes _).length]
  exact framesEnd_lines framed other

end Listing

/-! ## What is listed -/

variable {H : Type} [HostObject H]

/-- The instructions of a stream that leads somewhere have spellings. -/
theorem Decoder.Leads.ordinary {cfg : Decoder.Config H} {total : Prop} {Q : Decoder.Machine H → Prop}
    {is : List Instruction} {st : Decoder.State H} (known : total) (counted : st.Counted)
    (room : st.machine.Room cfg is.length) (h : Leads cfg total is st.machine Q) :
    ∀ i ∈ is, i.Ordinary := by
  induction is generalizing st with
  | nil => exact List.forall_mem_nil _
  | cons i is ih =>
    obtain ⟨ordinary, does⟩ := h
    rcases does room st rfl counted with ⟨_, st', -, counted', -, grows, led⟩ | ⟨partly, -⟩
    · exact List.forall_mem_cons.2 ⟨ordinary, ih counted' (room.step grows) led⟩
    · exact absurd known partly

variable {s : Store H} {v : Value} {p : Protocol} {st : Encoder.State H} {mask : TraceMask}

/-- What an encoder writes for a graph of built-in kinds is listed to its end, and the listing tells
    what the encoder has reported. -/
theorem Listing.ofBytes_dump {n : Nat} {host : Host H} (wanted : mask.instruction = true)
    (tidy : s.Tidy True (fun _ => False) v)
    (dumped : dump { registry := .seeded n, host := host, protocol := p } v
      (.ofSink s {} { observer := some mask }) = .ok () st)
    (word : st.frames.sink.written.toList.length < 2 ^ 64) :
    ∃ lines, Listing.ofBytes st.frames.sink.written.toList = .ok lines ∧
      Listing.Tells lines st.frames.sink.written.toList.length st.trace.instructions := by
  let x : Trip H := .builtIn n 0 host {} p s
  obtain ⟨is, streams⟩ := x.dump_streams Trip.builtIn_agrees rfl (Trip.builtIn_sound tidy) dumped
  have spelled := streams.wrote.spells .nothing streams.bare
  -- a decoder that reads the stream finds only instructions that have a spelling
  have ordinary : ∀ i ∈ is, i.Ordinary := by
    let reader : Decoder.State H := .ofSource s (.ofBytes []) none {}
    have short := spelled.length_le
    rw [List.length_append, List.length_singleton] at short
    have room : reader.machine.Room x.decoder is.length := by
      constructor
      · show 0 + is.length ≤ 2 ^ 64 - 1
        omega
      · show 0 + is.length ≤ 2 ^ 64 - 1
        omega
    have counted : reader.Counted := rfl
    have leads := streams.leads reader.machine (fun _ => True) (Trip.linked_start rfl rfl s)
      fun _ _ _ => trivial
    exact leads.ordinary trivial counted room
  have reported := streams.wrote.reported.entries wanted
  rw [show st.trace.instructions = _ from reported]
  exact Listing.ofBytes_spells spelled ordinary word

/-- A number whose stream has a frame. -/
theorem ofBytes_dump_framed :
    ∃ st lines, dump { registry := .seeded 0, host := ({} : Host Empty), protocol := 4 } (.int 1000)
        (.ofSink .empty {} { observer := some { instruction := true } }) = .ok () st ∧
      st.frames.sink.written.toList =
        [0x80, 4, 0x95, 4, 0, 0, 0, 0, 0, 0, 0, 0x4d, 0xe8, 3, 0x2e] ∧
      Listing.ofBytes st.frames.sink.written.toList = .ok lines ∧
      Listing.Tells lines 15 st.trace.instructions := by
  obtain ⟨st, dumped, written⟩ : ∃ st : Encoder.State Empty,
      dump { registry := .seeded 0, host := ({} : Host Empty), protocol := 4 } (.int 1000)
        (.ofSink .empty {} { observer := some { instruction := true } }) = .ok () st ∧
      st.frames.sink.written.toList =
        [0x80, 4, 0x95, 4, 0, 0, 0, 0, 0, 0, 0, 0x4d, 0xe8, 3, 0x2e] := ⟨_, rfl, rfl⟩
  have tidy : (Store.empty : Store Empty).Tidy True (fun _ => False) (.int 1000) := by
    intro i inside
    cases inside.eq_of_atom nofun
  have word : st.frames.sink.written.toList.length < 2 ^ 64 := by
    rw [written]
    decide
  obtain ⟨lines, listed, tells⟩ := Listing.ofBytes_dump rfl tidy dumped word
  rw [show st.frames.sink.written.toList.length = 15 by rw [written]; rfl] at tells
  exact ⟨st, lines, dumped, written, listed, tells⟩

end ObjectStream
