import ObjectStream.Proofs.Action
import ObjectStream.Frame.Writer

/-!
What a frame writer makes of the bytes it is given.

A frame writer takes five kinds of calls. What they send to the sink is a sequence of chunks: bytes
that go past the frames, and frames that are committed, which have a header if they are worth one
(`Chunk.head`). On a sink that refuses nothing every call runs through (`runs`), sends the chunks
that its state is due (`Writer.sends`), and neither loses a byte nor changes the order of two. So
after any sequence of calls that opens no region inside another, the contents of the chunks and what
is still gathering are the bytes that were given, one call after the other (`runAll_chunks`).
-/

namespace ObjectStream

theorem Sink.append_append (s : Sink) (bs bs' : Bytes) :
    (s.append bs).append bs' = s.append (bs ++ bs') := by
  have written : s.written ++ bs ++ bs' = s.written ++ (bs ++ bs') := by
    apply Array.toList_inj.1
    simp
  rw [Sink.append, Sink.append, Sink.append, written]

namespace Frame

/-! ## Chunks -/

/-- A piece of the output. -/
inductive Chunk where
  /-- Bytes that went past the frames. -/
  | direct (bytes : Bytes)
  /-- A frame that was committed. -/
  | committed (frame : Bytes)

namespace Chunk

/-- What was given to the writer. -/
def content : Chunk → Bytes
  | .direct bs => bs
  | .committed frame => frame

/-- What the writer puts in front of it. -/
def head : Chunk → Bytes
  | .direct _ => []
  | .committed frame => if frameSizeMin ≤ frame.length then header frame.length else []

/-- The chunk as the sink has it. -/
def bytes (c : Chunk) : Bytes := c.head ++ c.content

/-- A frame of at least four bytes has a header of its length, and no other chunk has one. -/
theorem head_cases (c : Chunk) :
    (c.head = 0x95 :: Bytes.ofNatLE 8 c.content.length ∧
        ∃ frame, c = .committed frame ∧ 4 ≤ frame.length) ∨
      (c.head = [] ∧ ∀ frame, c = .committed frame → frame.length < 4) := by
  cases c with
  | direct bs => exact .inr ⟨rfl, nofun⟩
  | committed frame =>
    by_cases long : 4 ≤ frame.length
    · exact .inl ⟨if_pos long, frame, rfl, long⟩
    · refine .inr ⟨if_neg long, fun frame' same => ?_⟩
      cases same
      omega

end Chunk

/-! ## Calls -/

/-- A call on a frame writer. -/
inductive Call where
  | start
  | finish
  | commit (force : Bool)
  | write (bs : Bytes)
  | writeLarge (head payload : Bytes)

namespace Call

/-- Carries the call out. -/
def run : Call → EStateM String Writer Unit
  | .start => Writer.start
  | .finish => Writer.finish
  | .commit force => Writer.commit force
  | .write bs => Writer.write bs
  | .writeLarge head payload => Writer.writeLarge head payload

/-- Carries calls out, one after the other. -/
def runAll : List Call → EStateM String Writer Unit
  | [] => pure ()
  | c :: rest => do
    c.run
    runAll rest

/-- The bytes that are given with the call. -/
def given : Call → Bytes
  | .write bs => bs
  | .writeLarge head payload => head ++ payload
  | _ => []

/-- Whether a region is open after the call. -/
def after : Call → (isOpen : Bool) → Bool
  | .start, _ => true
  | .finish, _ => false
  | _, isOpen => isOpen

/-- No region is opened while one is open. -/
def legal : (isOpen : Bool) → List Call → Bool
  | _, [] => true
  | isOpen, .start :: rest => !isOpen && legal true rest
  | isOpen, c :: rest => legal (c.after isOpen) rest

theorem legal_cons {c : Call} {rest : List Call} {isOpen : Bool}
    (h : legal isOpen (c :: rest) = true) :
    (c = .start → isOpen = false) ∧ legal (c.after isOpen) rest = true := by
  cases c with
  | start =>
    simp only [legal, Bool.and_eq_true, Bool.not_eq_true'] at h
    exact ⟨fun _ => h.1, h.2⟩
  | _ => exact ⟨nofun, h⟩

end Call

namespace Writer

/-- The bytes that are gathering. -/
def gathering (w : Writer) : Bytes := (w.pending.getD #[]).toList

/-- Nothing is gathering, or it is short and the commit is not forced. -/
def Stays (w : Writer) (force : Bool) : Prop :=
  w.gathering = [] ∨ (w.gathering.length < 65536 ∧ force = false)

instance (w : Writer) (force : Bool) : Decidable (w.Stays force) :=
  inferInstanceAs (Decidable (_ ∨ _))

/-- The frame that a commit sends. -/
def due (w : Writer) (force : Bool) : List Chunk :=
  if w.Stays force then [] else [.committed w.gathering]

/-- The chunks that a call sends. -/
def sends (w : Writer) : Call → List Chunk
  | .start => []
  | .finish => w.due true
  | .commit force => w.due force
  | .write bs => if w.isFraming then [] else [.direct bs]
  | .writeLarge head payload => w.due true ++ [.direct head, .direct payload]

/-- The chunks that calls send, one after the other. -/
def sent : Writer → List Call → List Chunk
  | _, [] => []
  | w, c :: rest =>
    w.sends c ++ match c.run w with
      | .ok _ w' => w'.sent rest
      | .error _ _ => []

end Writer

/-! ## One call -/

/-- Between the two writers these chunks were sent and these bytes given, and the sink goes on
    refusing nothing. -/
structure Passes (w : Writer) (chunks : List Chunk) (given : Bytes) (w' : Writer) : Prop where
  willing : w'.sink.fault = none
  sent : w'.sink.written.toList = w.sink.written.toList ++ chunks.flatMap Chunk.bytes
  kept : w.gathering ++ given = chunks.flatMap Chunk.content ++ w'.gathering

namespace Passes

variable {w w' w'' : Writer} {chunks chunks' : List Chunk} {bs bs' : Bytes}

theorem refl (willing : w.sink.fault = none) : Passes w [] [] w :=
  ⟨willing, by simp, by simp⟩

theorem trans (h : Passes w chunks bs w') (h' : Passes w' chunks' bs' w'') :
    Passes w (chunks ++ chunks') (bs ++ bs') w'' := by
  refine ⟨h'.willing, ?_, ?_⟩
  · rw [h'.sent, h.sent, List.flatMap_append, List.append_assoc]
  · calc w.gathering ++ (bs ++ bs')
        = (w.gathering ++ bs) ++ bs' := (List.append_assoc ..).symm
      _ = chunks.flatMap Chunk.content ++ (w'.gathering ++ bs') := by
        rw [h.kept, List.append_assoc]
      _ = (chunks ++ chunks').flatMap Chunk.content ++ w''.gathering := by
        rw [h'.kept, List.flatMap_append, List.append_assoc]

end Passes

namespace Writer

variable {w : Writer}

/-- A sink that refuses nothing takes what goes past the frames. -/
theorem put_willing (willing : w.sink.fault = none) (bs : Bytes) :
    put bs w = .ok () { w with sink := w.sink.append bs } := by
  simp [put, Sink.refusal?, willing]

theorem passes_put (willing : w.sink.fault = none) (nothing : w.gathering = []) (bs : Bytes) :
    Passes w [.direct bs] bs { w with sink := w.sink.append bs } := by
  refine ⟨willing, ?_, ?_⟩
  · simp [Sink.append, Chunk.bytes, Chunk.head, Chunk.content]
  · have same : gathering { w with sink := w.sink.append bs } = [] := nothing
    rw [nothing, same]
    simp [Chunk.content]

/-- The test that a commit makes. -/
theorem stays_iff (sink : Sink) (frame : Array UInt8) (force : Bool) :
    (⟨sink, some frame⟩ : Writer).Stays force ↔
      (frame.isEmpty || (frame.size < frameSizeTarget && !force)) = true := by
  have target : frameSizeTarget = 65536 := rfl
  simp only [Stays, gathering, Option.getD_some, Array.length_toList, Bool.or_eq_true,
    Bool.and_eq_true, decide_eq_true_eq, target]
  simp

theorem commit_stays {force : Bool} (stays : w.Stays force) : commit force w = .ok () w := by
  obtain ⟨sink, pending⟩ := w
  cases pending with
  | none => rfl
  | some frame =>
    rw [stays_iff] at stays
    simp only [commit, bind_apply, get_apply, stays, if_true, pure_apply]

theorem commit_goes (willing : w.sink.fault = none) {force : Bool} (goes : ¬w.Stays force) :
    commit force w = .ok () ⟨w.sink.append (Chunk.committed w.gathering).bytes, some #[]⟩ := by
  obtain ⟨sink, pending⟩ := w
  cases pending with
  | none => exact absurd (.inl rfl) goes
  | some frame =>
    rw [stays_iff] at goes
    simp only [commit, bind_apply, get_apply, if_neg goes]
    split
    · next long =>
      have headed : (Chunk.committed frame.toList).bytes = header frame.size ++ frame.toList := by
        simp [Chunk.bytes, Chunk.head, Chunk.content, long]
      rw [bind_ok (put_willing willing _), bind_ok (put_willing (by exact willing) _), modify_apply]
      simp only [gathering, Option.getD_some, headed, Sink.append_append]
    · next short =>
      have bare : (Chunk.committed frame.toList).bytes = frame.toList := by
        simp [Chunk.bytes, Chunk.head, Chunk.content, short]
      rw [bind_ok (put_willing willing _), modify_apply]
      simp only [gathering, Option.getD_some, bare]

/-- A commit sends what is due and leaves the region open or closed. A forced one leaves nothing
    that is gathering. -/
theorem commit_runs (willing : w.sink.fault = none) (force : Bool) :
    ∃ w', commit force w = .ok () w' ∧ Passes w (w.due force) [] w' ∧
      w'.isFraming = w.isFraming ∧ (force = true → w'.gathering = []) := by
  by_cases stays : w.Stays force
  · refine ⟨w, commit_stays stays, ?_, rfl, fun forced => ?_⟩
    · rw [due, if_pos stays]
      exact .refl willing
    · simpa [Stays, forced] using stays
  · refine ⟨_, commit_goes willing stays, ⟨willing, ?_, ?_⟩, ?_, fun _ => rfl⟩
    · simp [due, stays, Sink.append]
    · simp [due, stays, gathering, Chunk.content]
    · have open_ : w.pending ≠ none := fun closed => stays (.inl (by simp [gathering, closed]))
      simp [isFraming, Option.isSome_iff_ne_none.2 open_]

end Writer

/-- Every call runs through, and sends what its state is due. -/
theorem Call.runs (c : Call) {w : Writer} (willing : w.sink.fault = none)
    (outside : c = .start → w.isFraming = false) :
    ∃ w', c.run w = .ok () w' ∧ Passes w (w.sends c) c.given w' ∧
      w'.isFraming = c.after w.isFraming := by
  cases c with
  | start =>
    have closed : w.pending = none := by simpa [Writer.isFraming] using outside rfl
    refine ⟨{ w with pending := some #[] }, rfl, ⟨willing, ?_, ?_⟩, rfl⟩
    · simp [Writer.sends]
    · simp [Writer.sends, Call.given, Writer.gathering, closed]
  | finish =>
    obtain ⟨w₁, run, passes, -, nothing⟩ := Writer.commit_runs willing true
    refine ⟨{ w₁ with pending := none }, ?_, ⟨passes.willing, passes.sent, ?_⟩, rfl⟩
    · rw [Call.run, Writer.finish, bind_ok run]
      rfl
    · exact passes.kept.trans (congrArg _ (nothing rfl))
  | commit force =>
    obtain ⟨w', run, passes, same, -⟩ := Writer.commit_runs willing force
    exact ⟨w', run, passes, same⟩
  | write bs =>
    obtain ⟨sink, pending⟩ := w
    cases pending with
    | some frame =>
      refine ⟨⟨sink, some (frame ++ bs)⟩, rfl, ⟨willing, ?_, ?_⟩, rfl⟩
      · simp [Writer.sends, Writer.isFraming]
      · simp [Writer.sends, Writer.isFraming, Writer.gathering, Call.given]
    | none => exact ⟨_, Writer.put_willing willing bs, Writer.passes_put willing rfl bs, rfl⟩
  | writeLarge head payload =>
    obtain ⟨w₁, run, passes, same, nothing⟩ := Writer.commit_runs willing true
    have first := Writer.passes_put passes.willing (nothing rfl) head
    have second := Writer.passes_put first.willing (nothing rfl) payload
    refine ⟨_, ?_, passes.trans (first.trans second), same⟩
    rw [Call.run, Writer.writeLarge, bind_ok run, bind_ok (Writer.put_willing passes.willing head)]
    exact Writer.put_willing first.willing payload

/-- Calls run through, one after the other, and send what their states are due. -/
theorem Call.runAll_runs {calls : List Call} {w : Writer} (willing : w.sink.fault = none)
    (legal : Call.legal w.isFraming calls = true) :
    ∃ w', Call.runAll calls w = .ok () w' ∧ Passes w (w.sent calls) (calls.flatMap Call.given) w' ∧
      w'.isFraming = calls.foldl (fun isOpen c => c.after isOpen) w.isFraming := by
  induction calls generalizing w with
  | nil => exact ⟨w, rfl, .refl willing, rfl⟩
  | cons c rest ih =>
    obtain ⟨outside, others⟩ := Call.legal_cons legal
    obtain ⟨w₁, first, passes, framing⟩ := c.runs willing outside
    obtain ⟨w', later, passes', framing'⟩ := ih passes.willing (framing ▸ others)
    refine ⟨w', ?_, ?_, ?_⟩
    · rw [Call.runAll, bind_ok first, later]
    · rw [Writer.sent, first]
      exact passes.trans passes'
    · rw [framing', framing, List.foldl_cons]

/-- Whatever calls a writer takes, on a sink that refuses nothing and no region inside another: the
    sink has the chunks that the calls send, each behind its header if it has one. Their contents and
    what is gathering are the bytes that were given, in the order of the calls. A region that was
    ended has nothing gathering, and a commit that is not forced leaves less than 64 KiB as it is. -/
theorem runAll_chunks (sink : Sink) (willing : sink.fault = none) (calls : List Call)
    (legal : Call.legal false calls = true) :
    ∃ w, Call.runAll calls ⟨sink, none⟩ = .ok () w ∧
      w.sink.written.toList =
        sink.written.toList ++ (Writer.sent ⟨sink, none⟩ calls).flatMap Chunk.bytes ∧
      (Writer.sent ⟨sink, none⟩ calls).flatMap Chunk.content ++ (w.pending.getD #[]).toList =
        calls.flatMap Call.given ∧
      (∀ c ∈ Writer.sent ⟨sink, none⟩ calls,
        (c.head = 0x95 :: Bytes.ofNatLE 8 c.content.length ∧
            ∃ frame, c = .committed frame ∧ 4 ≤ frame.length) ∨
          (c.head = [] ∧ ∀ frame, c = .committed frame → frame.length < 4)) ∧
      w.pending.isSome = calls.foldl (fun isOpen c => c.after isOpen) false ∧
      (∀ frame, w.pending = some frame → frame.size < 64 * 1024 →
        Writer.commit false w = .ok () w) := by
  obtain ⟨w, run, passes, framing⟩ := Call.runAll_runs (w := ⟨sink, none⟩) willing legal
  refine ⟨w, run, passes.sent, passes.kept.symm, fun c _ => c.head_cases, framing, ?_⟩
  intro frame pending short
  apply Writer.commit_stays
  exact .inr ⟨by simpa [Writer.gathering, pending] using short, rfl⟩

/-- A frame with a header, a large payload past the frames, and a frame that is too short for a
    header. -/
theorem runAll_chunks_framed : ∃ w,
    Call.runAll [.start, .write [1, 2, 3], .write [4], .writeLarge [5] [6, 7], .write [8], .finish]
      ⟨{}, none⟩ = .ok () w ∧
    w.sink.written.toList = [0x95, 4, 0, 0, 0, 0, 0, 0, 0, 1, 2, 3, 4, 5, 6, 7, 8] := by
  obtain ⟨w, run, sent, -⟩ := runAll_chunks {} rfl
    [.start, .write [1, 2, 3], .write [4], .writeLarge [5] [6, 7], .write [8], .finish] rfl
  exact ⟨w, run, sent.trans (by decide +kernel)⟩

end Frame

end ObjectStream
