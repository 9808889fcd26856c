import ObjectStream.Proofs.Answers
import ObjectStream.Proofs.Knots
import ObjectStream.Proofs.Listings

/-!
The decoder and the listing read the same instructions.

A decoder that stands before certain bytes and a listing that stands before the same bytes stay side by
side: an operand that the decoder reads the listing reads as well (`answer_full`, `Takes.lenient`),
nothing else moves the decoder on, and a frame is loaded without a change of the bytes to come
(`execute_full`). So what a decoder reports is what a listing meets, as far as the decoder gets; one
that reaches its `STOP` has reported the whole listing (`load_reports`).
-/

namespace ObjectStream

open Frame.Reader (Passed)

/-! ## What a listing meets -/

namespace Listing

/-- The offset and the opcode of a line. -/
def Line.place (line : Line) : Nat × Opcode := (line.offset, line.op)

/-- The offsets and the opcodes of the instructions that a listing meets from the cursor on, at most
    `fuel` of them. If it fails at an operand, the opcode before that operand is the last one. -/
def metFrom : (fuel : Nat) → Cursor → List (Nat × Opcode)
  | 0, _ => []
  | fuel + 1, c =>
    match c.rest with
    | [] => []
    | byte :: rest =>
      match Opcode.ofByte? byte with
      | none => []
      | some op =>
        (c.offset, op) ::
          match Cursor.answer op ⟨rest, c.offset + 1⟩ (Request.operand op (2 ^ 64) false) with
          | .error _ => []
          | .ok (_, next) => if op = .stop then [] else metFrom fuel next

/-- The offsets and the opcodes of the instructions of a stream that its listing meets. -/
def met (bs : Bytes) : List (Nat × Opcode) := metFrom (bs.length + 1) ⟨bs, 0⟩

/-- A listing that does not fail has met the instructions it lists. -/
theorem metFrom_of_listFrom {fuel : Nat} {c : Cursor} {before lines : List Line}
    (h : listFrom fuel c before = .ok lines) :
    lines.map Line.place = before.reverse.map Line.place ++ metFrom fuel c := by
  induction fuel generalizing c before with
  | zero => cases h
  | succ fuel ih =>
    obtain ⟨rest, offset⟩ := c
    cases rest with
    | nil => cases h
    | cons byte rest =>
      simp only [listFrom] at h
      simp only [metFrom]
      cases known : Opcode.ofByte? byte with
      | none =>
        rw [known] at h
        cases h
      | some op =>
        simp only [known] at h ⊢
        cases answered :
            Cursor.answer op ⟨rest, offset + 1⟩ (Request.operand op (2 ^ 64) false) with
        | error e =>
          rw [answered] at h
          cases h
        | ok found =>
          obtain ⟨operand, next⟩ := found
          simp only [answered] at h ⊢
          by_cases stop : op = .stop
          · rw [if_pos stop] at h ⊢
            cases h
            rw [List.reverse_cons, List.map_append]
            rfl
          · rw [if_neg stop] at h ⊢
            rw [ih h, List.reverse_cons, List.map_append, List.append_assoc]
            rfl

/-- The opcode before the cursor is met, whatever follows it. -/
theorem prefix_metFrom (fuel offset : Nat) (op : Opcode) (rest : Bytes) :
    [(offset, op)] <+: metFrom (fuel + 1) ⟨op.byte :: rest, offset⟩ := by
  simp only [metFrom, Opcode.ofByte?_byte]
  exact ⟨_, rfl⟩

variable {op : Opcode} {operand : op.shape.Operand} {bs rest : Bytes} {fuel offset : Nat}

/-- Behind an instruction that is whole the listing goes on, unless it is a `STOP`. -/
theorem metFrom_cons (takes : (Request.operand op (2 ^ 64) false).Takes bs operand) :
    metFrom (fuel + 1) ⟨op.byte :: (bs ++ rest), offset⟩ =
      (offset, op) ::
        if op = .stop then [] else metFrom fuel ⟨rest, offset + 1 + bs.length⟩ := by
  simp only [metFrom, Opcode.ofByte?_byte, Cursor.answer_ok op takes]

theorem listFrom_whole (before : List Line)
    (takes : (Request.operand op (2 ^ 64) false).Takes bs operand) :
    listFrom (fuel + 1) ⟨op.byte :: (bs ++ rest), offset⟩ before =
      if op = .stop then .ok (⟨offset, op, .ofOperand op op.shape operand⟩ :: before).reverse
      else listFrom fuel ⟨rest, offset + 1 + bs.length⟩
        (⟨offset, op, .ofOperand op op.shape operand⟩ :: before) := by
  simp only [listFrom, Opcode.ofByte?_byte, Cursor.answer_ok op takes]

end Listing

/-! ## Operands -/

/-- An operand that is read under bounds and checks is read without them. -/
theorem Request.Takes.lenient {op : Opcode} {limit : Nat} {checked : Bool} {shape : Shape} {bs : Bytes}
    {operand : shape.Operand} (h : (Request.ofShape op limit checked shape).Takes bs operand) :
    (Request.ofShape op (2 ^ 64) false shape).Takes bs operand := by
  have word : ∀ {count : Bytes}, count.length ≤ 8 → ¬2 ^ 64 < count.toNatLE := by
    intro count short
    have := Bytes.toNatLE_lt count
    have : 256 ^ count.length ≤ 256 ^ 8 := Nat.pow_le_pow_right (by decide) short
    omega
  have counted : ∀ {width : Nat} {payload : Bytes}, width ≤ 8 →
      (Request.counted width limit).Takes bs payload →
      (Request.counted width (2 ^ 64)).Takes bs payload := by
    intro width payload short takes
    cases takes with
    | @take _ _ count rest _ length more =>
      refine .take length ?_
      rw [if_neg (word (length.trans_le short))]
      dsimp only at more
      split at more
      · cases more
      · exact more
  cases shape with
  | counted8 => exact counted (by decide) h
  | counted32 => exact counted (by decide) h
  | counted64 => exact counted (by decide) h
  | countedSigned32 =>
    cases h with
    | @take _ _ count rest _ length more =>
      refine .take length ?_
      dsimp only at more ⊢
      split at more
      · cases more
      · next sign =>
        rw [if_neg sign, if_neg (word (by omega))]
        split at more
        · cases more
        · exact more
  | lines2 =>
    cases h with
    | line newline more =>
      refine .line newline ?_
      dsimp only at more ⊢
      split at more
      · cases more
      · cases more with
        | line newline' more' =>
          refine .line newline' ?_
          dsimp only at more' ⊢
          split at more'
          · cases more'
          · exact more'
  | _ => exact h

namespace Decoder

variable {H : Type} {st st' : State H}

/-! ## Steps -/

/-- An opcode is the next byte, and it is reported where it stands. -/
theorem readOpcode_full {op : Opcode} (sound : st.input.Sound)
    (run : readOpcode st = .ok op st') :
    ∃ r, st.input.Passed r [op.byte] ∧
      st' = { st with input := r, trace := st.trace.instruction st.input.position op st.height } := by
  obtain ⟨offset, _, ⟨⟩, run⟩ := bind_eq_ok run
  obtain ⟨bs, st₁, first, rest⟩ := bind_eq_ok run
  obtain ⟨r, read, rfl⟩ := reading_eq_ok first
  cases bs with
  | nil => cases rest
  | cons byte more =>
    obtain ⟨length, passed⟩ := Frame.Reader.read_full sound read (by simp)
    obtain rfl : more = [] := by simpa using length
    dsimp only at rest
    cases known : Opcode.ofByte? byte with
    | none =>
      rw [known] at rest
      cases rest
    | some op' =>
      rw [known] at rest
      cases rest
      rw [← Opcode.byte_of_ofByte? known] at passed
      exact ⟨r, passed, rfl⟩

/-- Where no opcode can be read nothing is reported. -/
theorem readOpcode_error {e : Error} (run : readOpcode st = .error e st') :
    st'.trace = st.trace := by
  obtain ⟨⟨⟩, _⟩ | ⟨offset, _, ⟨⟩, run⟩ := bind_eq_error run
  have same : ∃ r, st' = { st with input := r } := by
    refine reading_error (fun bs st e st' rest => ?_) run
    cases bs with
    | nil =>
      cases rest
      rfl
    | cons byte more =>
      dsimp only at rest
      cases known : Opcode.ofByte? byte with
      | none =>
        rw [known] at rest
        cases rest
        rfl
      | some op =>
        rw [known] at rest
        cases rest
  obtain ⟨r, rfl⟩ := same
  rfl

variable {cfg : Config H}

/-- A frame is loaded with the next bytes of the source. -/
theorem openFrame_full {n : Nat} (sound : st.input.Sound) (run : openFrame cfg n st = .ok () st') :
    st.input.Passed st'.input [] ∧ st.trace.Reported st'.trace [] := by
  unfold openFrame at run
  split at run
  · cases run
  · obtain ⟨place, _, ⟨⟩, run⟩ := bind_eq_ok run
    obtain ⟨_, st₁, first, rest⟩ := bind_eq_ok run
    obtain ⟨r, load, rfl⟩ := reading_eq_ok first
    cases rest
    refine ⟨Frame.Reader.loadFrame_full sound load, ?_⟩
    dsimp only
    split
    · exact (Trace.Reported.exit ..).trans (.enter ..)
    · exact .enter ..

theorem openFrame_error {n : Nat} {e : Error} (run : openFrame cfg n st = .error e st') :
    st'.trace = st.trace := by
  unfold openFrame at run
  split at run
  · cases run
    rfl
  · obtain ⟨⟨⟩, _⟩ | ⟨place, _, ⟨⟩, run⟩ := bind_eq_error run
    obtain ⟨r, rfl⟩ := reading_error (fun _ _ _ _ rest => by cases rest) run
    rfl

variable [HostObject H]

/-- Carrying an instruction out keeps the bytes to come and reports no instruction. -/
theorem execute_full {op : Opcode} {operand : op.shape.Operand} (sound : st.input.Sound)
    (run : execute cfg op operand st = .ok () st') :
    st.input.Passed st'.input [] ∧ st.trace.Reported st'.trace [] := by
  by_cases frame : op = .frame
  · subst frame
    exact openFrame_full sound run
  · have quiet := (Blind.execute op operand frame).quiet_ok run
    refine ⟨?_, quiet.reported⟩
    rw [show st'.input = st.input from quiet.input]
    exact .refl sound

theorem execute_error {op : Opcode} {operand : op.shape.Operand} {e : Error}
    (run : execute cfg op operand st = .error e st') : st.trace.Reported st'.trace [] := by
  by_cases frame : op = .frame
  · subst frame
    rw [openFrame_error run]
    exact .refl _
  · exact ((Blind.execute op operand frame).quiet_error run).reported

/-- A step that ran through has read one instruction, which a listing reads as well, and has reported
    it where it stands. -/
theorem step_full {found : Option Value} (sound : st.input.Sound)
    (run : step cfg st = .ok found st') : ∃ (op : Opcode) (bs : Bytes) (operand : op.shape.Operand),
      (Request.operand op (2 ^ 64) false).Takes bs operand ∧
      st.input.Passed st'.input (op.byte :: bs) ∧
      st.trace.Reported st'.trace [(st.input.position, op)] ∧ (op = .stop ↔ found ≠ none) := by
  rw [step_eq] at run
  obtain ⟨op, st₁, first, rest⟩ := bind_eq_ok run
  obtain ⟨r, passed, rfl⟩ := readOpcode_full sound first
  have told := Trace.Reported.instruction st.trace st.input.position op st.height
  by_cases stop : op = .stop
  · -- a `STOP` has no operand, and takes its value from the stack
    subst stop
    rw [if_pos rfl] at rest
    obtain ⟨v, popped, rfl⟩ := map_eq_ok rest
    have quiet := (Blind.pop .stop).quiet_ok popped
    refine ⟨.stop, [], (), .done (), ?_, told.trans quiet.reported, by simp⟩
    rw [show st'.input = r from quiet.input]
    exact passed
  · rw [if_neg stop] at rest
    obtain ⟨operand, st₂, answered, rest⟩ := bind_eq_ok rest
    obtain ⟨bs, r', takes, rfl, passed'⟩ := answer_full passed.sound answered
    obtain ⟨⟨⟩, st₃, carried, rest⟩ := bind_eq_ok rest
    cases rest
    obtain ⟨passed'', silent⟩ := execute_full passed'.sound carried
    refine ⟨op, bs, operand, takes.lenient, ?_, told.trans silent, by simp [stop]⟩
    have whole := (passed.trans passed').trans passed''
    rwa [List.append_nil] at whole

/-- A step that failed has reported at most the opcode before it. -/
theorem step_error {e : Error} (sound : st.input.Sound) (run : step cfg st = .error e st') :
    st.trace.Reported st'.trace [] ∨ ∃ op rest, st.input.upcoming = op.byte :: rest ∧
      st.trace.Reported st'.trace [(st.input.position, op)] := by
  rw [step_eq] at run
  rcases bind_eq_error run with first | ⟨op, st₁, first, rest⟩
  · rw [readOpcode_error first]
    exact .inl (.refl _)
  · obtain ⟨r, passed, rfl⟩ := readOpcode_full sound first
    have told := Trace.Reported.instruction st.trace st.input.position op st.height
    -- the opcode was reported; what fails behind it reports no further one
    refine .inr ⟨op, r.upcoming, passed.upcoming, ?_⟩
    split at rest
    · exact told.trans ((Blind.pop .stop).quiet_error (map_eq_error rest)).reported
    · rcases bind_eq_error rest with short | ⟨operand, st₂, answered, rest⟩
      · obtain ⟨r', rfl⟩ := answer_error passed.sound short
        exact told
      · obtain ⟨bs, r', -, rfl, -⟩ := answer_full passed.sound answered
        rcases bind_eq_error rest with failed | ⟨⟨⟩, st₃, -, rest⟩
        · exact told.trans (execute_error failed)
        · cases rest

/-! ## Runs -/

/-- The cursor of a listing that stands where the decoder stands. -/
def State.cursor (st : State H) : Cursor := ⟨st.input.upcoming, st.input.position⟩

omit [HostObject H] in
/-- Behind an instruction both stand at the next one. -/
theorem cursor_of_passed {op : Opcode} {bs : Bytes}
    (passed : st.input.Passed st'.input (op.byte :: bs)) :
    st.cursor = ⟨op.byte :: (bs ++ st'.input.upcoming), st.input.position⟩ ∧
      st'.cursor = ⟨st'.input.upcoming, st.input.position + 1 + bs.length⟩ := by
  have position := passed.position
  rw [List.length_cons] at position
  refine ⟨?_, ?_⟩
  · rw [State.cursor, passed.upcoming]
    rfl
  · rw [State.cursor, position]
    congr 1
    omega

/-- A run that reaches its `STOP` has reported everything that the listing lists. -/
theorem run_reports {fuel : Nat} {v : Value} (sound : st.input.Sound)
    (h : run cfg fuel st = .ok v st') (before : List Listing.Line) :
    (∃ lines, Listing.listFrom fuel st.cursor before = .ok lines) ∧
      st.trace.Reported st'.trace (Listing.metFrom fuel st.cursor) := by
  induction fuel generalizing st before with
  | zero => cases h
  | succ fuel ih =>
    obtain ⟨found, st₁, first, rest⟩ := bind_eq_ok h
    obtain ⟨op, bs, operand, takes, passed, told, last⟩ := step_full sound first
    obtain ⟨here, there⟩ := cursor_of_passed passed
    rw [here, Listing.listFrom_whole before takes, Listing.metFrom_cons takes, ← there]
    cases found with
    | some v =>
      cases rest
      rw [if_pos (last.2 (by simp)), if_pos (last.2 (by simp))]
      exact ⟨⟨_, rfl⟩, told⟩
    | none =>
      have other : op ≠ .stop := fun stop => last.1 stop rfl
      rw [if_neg other, if_neg other]
      obtain ⟨listed, told'⟩ := ih passed.sound rest _
      exact ⟨listed, told.trans told'⟩

/-- A run that fails has reported the beginning of what the listing meets. -/
theorem run_reports_error {fuel : Nat} {e : Error} (sound : st.input.Sound)
    (h : run cfg fuel st = .error e st') :
    ∃ seen, seen <+: Listing.metFrom fuel st.cursor ∧ st.trace.Reported st'.trace seen := by
  induction fuel generalizing st with
  | zero =>
    cases h
    exact ⟨[], List.nil_prefix, .refl _⟩
  | succ fuel ih =>
    rcases bind_eq_error h with first | ⟨found, st₁, first, rest⟩
    · rcases step_error sound first with told | ⟨op, rest, upcoming, told⟩
      · exact ⟨[], List.nil_prefix, told⟩
      · refine ⟨_, ?_, told⟩
        rw [State.cursor, upcoming]
        exact Listing.prefix_metFrom ..
    · obtain ⟨op, bs, operand, takes, passed, told, last⟩ := step_full sound first
      obtain ⟨here, there⟩ := cursor_of_passed passed
      cases found with
      | some v => cases rest
      | none =>
        have other : op ≠ .stop := fun stop => last.1 stop rfl
        obtain ⟨seen, meets, told'⟩ := ih passed.sound rest
        refine ⟨_, ?_, told.trans told'⟩
        rw [here, Listing.metFrom_cons takes, if_neg other, ← there]
        exact (List.prefix_cons_inj _).2 meets

/-! ## Streams -/

omit [HostObject H] in
/-- Closing a frame reports no instruction. -/
theorem closeFrame_reported (st : State H) : st.trace.Reported (closeFrame st).trace [] := by
  unfold closeFrame
  split
  · exact .exit ..
  · exact .refl _

variable {mask : TraceMask} {store : Store H} {buffers : Option (List Value)} {bs : Bytes}

/-- A decoder of a byte string, whose observer wants the instructions. -/
def State.traced (store : Store H) (bs : Bytes) (buffers : Option (List Value))
    (mask : TraceMask) : State H :=
  .ofSource store (.ofBytes bs) buffers { observer := some { mask with instruction := true } }

omit [HostObject H] in
/-- What was reported to the observer since the start. -/
theorem State.instructions_of_traced {seen : List (Nat × Opcode)}
    (told : (State.traced store bs buffers mask).trace.Reported st.trace seen) :
    (closeFrame st).trace.instructions = seen := by
  have entries := (told.trans (closeFrame_reported st)).entries rfl
  rwa [List.append_nil] at entries

/-- A decoder reports the instructions that the listing of its bytes meets. One that fails has
    reported the first of them; one that hands back a value has reported all of them, and the listing
    lists them. So where there is no listing there is no value either: the decoder fails, unless it
    compares keys for ever. If the host does not interfere, it does so only where it has made an
    instance. -/
theorem load_reports (cfg : Config H) (store : Store H) (bs : Bytes)
    (buffers : Option (List Value)) (mask : TraceMask) :
    (∀ e st, load cfg (.traced store bs buffers mask) = .error e st →
      st.trace.instructions <+: Listing.met bs) ∧
    (∀ v st, load cfg (.traced store bs buffers mask) = .ok v st →
      st.trace.instructions = Listing.met bs ∧
        ∃ lines, Listing.ofBytes bs = .ok lines ∧ Listing.met bs = lines.map Listing.Line.place) ∧
    ∀ e, Listing.ofBytes bs = .error e →
      ∃ e' st, load cfg (.traced store bs buffers mask) = .error e' st ∧
        (cfg.Idle → (State.traced store bs buffers mask).Neat → e' = .endless →
          st.store.Peopled) := by
  have sound : (State.traced store bs buffers mask).input.Sound := Frame.Reader.sound_ofSource bs
  have remaining : (State.traced store bs buffers mask).input.remaining = bs.length :=
    remaining_ofSource bs
  have listed : ∀ v st, load cfg (.traced store bs buffers mask) = .ok v st →
      st.trace.instructions = Listing.met bs ∧
        ∃ lines, Listing.ofBytes bs = .ok lines ∧
          Listing.met bs = lines.map Listing.Line.place := by
    intro v st loaded
    obtain ⟨st, ran, rfl⟩ := load_eq_ok loaded
    rw [remaining] at ran
    obtain ⟨⟨lines, listed⟩, told⟩ := run_reports sound ran []
    exact ⟨State.instructions_of_traced told, lines, listed,
      (Listing.metFrom_of_listFrom listed).symm⟩
  refine ⟨fun e st loaded => ?_, listed, fun e unlisted => ?_⟩
  · obtain ⟨st, ran, rfl⟩ := load_eq_error loaded
    rw [remaining] at ran
    obtain ⟨seen, meets, told⟩ := run_reports_error sound ran
    rwa [State.instructions_of_traced told]
  · cases loaded : load cfg (.traced store bs buffers mask) with
    | ok v st =>
      obtain ⟨-, lines, fine, -⟩ := listed v st loaded
      rw [unlisted] at fine
      cases fine
    | error e' st =>
      refine ⟨e', st, rfl, fun idle neat endless => ?_⟩
      subst endless
      exact peopled_of_endless idle neat loaded

/-- A stream of one value, and one whose second `POP` finds nothing: what follows it is listed, but
    never reported, and the listing fails behind it. -/
theorem load_reports_pops :
    let cfg : Config Empty := { registry := .seeded 0, host := {} }
    (∃ st, load cfg (.traced .empty [0x4e, 0x2e] none {}) = .ok .none st ∧
      st.trace.instructions = Listing.met [0x4e, 0x2e] ∧
      Listing.met [0x4e, 0x2e] = [(0, .none), (1, .stop)]) ∧
    (∃ e st, load cfg (.traced .empty [0x4e, 0x30, 0x30, 0x4b] none {}) = .error e st ∧
      st.trace.instructions <+: [(0, .none), (1, .pop), (2, .pop), (3, .binInt1)]) ∧
    Listing.ofBytes [0x4e, 0x30, 0x30, 0x4b] = .error (.decode (.truncated .binInt1)) ∧
    ∃ e st, load cfg (.traced .empty [0x4e, 0x30, 0x30, 0x4b] none {}) = .error e st ∧
      (e = .endless → st.store.Peopled) := by
  intro cfg
  have idle : cfg.Idle := ⟨fun _ _ _ => ⟨_, rfl⟩, fun _ => rfl, rfl⟩
  have neat : (State.traced (.empty : Store Empty) [0x4e, 0x30, 0x30, 0x4b] none {}).Neat :=
    State.neat_ofSource _ _
  refine ⟨⟨_, rfl, ?_, rfl⟩, ⟨_, _, rfl, ?_⟩, rfl, ?_⟩
  · exact ((load_reports cfg .empty [0x4e, 0x2e] none {}).2.1 _ _ rfl).1
  · exact (load_reports cfg .empty [0x4e, 0x30, 0x30, 0x4b] none {}).1 _ _ rfl
  · obtain ⟨e, st, fails, ends⟩ :=
      (load_reports cfg .empty [0x4e, 0x30, 0x30, 0x4b] none {}).2.2 _ rfl
    exact ⟨e, st, fails, ends idle neat⟩

/-- A stream that ends without a `STOP`. The listing gets to the end, but the decoder does not: it
    compares two keys that hold themselves. -/
theorem load_unlisted_knots :
    let cfg : Config Empty := { registry := .seeded 0, host := {} }
    let bs : Bytes := [0x80, 2, 0x7d, 0x28, 0x63, 0x62, 0x75, 0x69, 0x6c, 0x74, 0x69, 0x6e, 0x73, 0x0a,
      0x6f, 0x62, 0x6a, 0x65, 0x63, 0x74, 0x0a, 0x29, 0x81, 0x71, 0, 0x7d, 0x58, 1, 0, 0, 0, 0x78, 0x68,
      0, 0x73, 0x62, 0x4e, 0x63, 0x62, 0x75, 0x69, 0x6c, 0x74, 0x69, 0x6e, 0x73, 0x0a, 0x6f, 0x62, 0x6a,
      0x65, 0x63, 0x74, 0x0a, 0x29, 0x81, 0x71, 1, 0x7d, 0x58, 1, 0, 0, 0, 0x78, 0x68, 1, 0x73, 0x62,
      0x4e, 0x75]
    Listing.ofBytes bs = .error .endOfInput ∧
      ∃ st, load cfg (.traced .empty bs none {}) = .error .endless st := by
  intro cfg bs
  have spelled : Spells (knots ++ []) bs := Spells.all knots
  have remaining : (State.traced (.empty : Store Empty) bs none {}).input.remaining = 71 :=
    remaining_ofSource bs
  refine ⟨rfl, load_of_leads_nowhere (ready_ofSource spelled) ?_ ?_ (by decide) ?_
    (leads_knots finds_object rfl)⟩
  · rw [remaining]
    decide
  · rw [remaining]
    decide
  · show 0 + _ ≤ _
    decide

end Decoder

end ObjectStream
