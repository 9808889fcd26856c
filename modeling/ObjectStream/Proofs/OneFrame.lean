import ObjectStream.Proofs.Chunks
import ObjectStream.Proofs.Drafts

/-!
What the encoder writes in one frame.

While a frame is open and short, instructions gather in it (`Fills`), and the end of the stream sends it
behind a header of its length. So from protocol 4 on the stream of a global with a short name is known
byte by byte (`dumps_global_texts`).
-/

namespace ObjectStream.Encoder

open ObjectStream.Frame

variable {H : Type}

/-- Nothing was refused so far; what was sent, and what is gathering in the open frame. -/
structure State.Gathers (st : State H) (sent frame : Bytes) : Prop where
  willing : st.frames.sink.fault = none
  sent : st.frames.sink.written.toList = sent
  pending : st.frames.pending = some frame.toArray

/-- Inside a frame the action runs through, and adds nothing but these bytes. -/
def Fills (x : Encode H Unit) (bs : Bytes) : Prop :=
  ∀ (st : State H) (sent frame : Bytes), st.Gathers sent frame →
    ∃ st', x st = .ok () st' ∧ st'.store = st.store ∧ st'.memo = st.memo ∧
      st'.Gathers sent (frame ++ bs)

theorem Fills.andThen {x y : Encode H Unit} {bs bs' : Bytes} (hx : Fills x bs) (hy : Fills y bs') :
    Fills (x >>= fun _ => y) (bs ++ bs') := by
  intro st sent frame here
  obtain ⟨st₁, first, store, memo, here⟩ := hx st sent frame here
  obtain ⟨st₂, second, store', memo', here⟩ := hy st₁ sent _ here
  refine ⟨st₂, ?_, store'.trans store, memo'.trans memo, ?_⟩
  · rw [bind_ok first, second]
  · rw [← List.append_assoc]
    exact here

theorem fills_emit (op : Opcode) (operand : op.shape.Operand) :
    Fills (emit op operand : Encode H Unit) (Instruction.mk op operand).bytes := by
  intro st sent frame here
  obtain ⟨store, memo, ⟨sink, pending⟩, offset, depth, trace⟩ := st
  obtain ⟨willing, written, rfl⟩ := here
  refine ⟨_, rfl, rfl, rfl, willing, written, ?_⟩
  simp

/-- The bytes of a short text. -/
def shortText (text : String) : Bytes :=
  0x8c :: UInt8.ofNat (Text.utf8 text).length :: Text.utf8 text

theorem fills_text {p : Protocol} {text : String} (late : 4 ≤ p.val)
    (short : (Text.utf8 text).length < 256) :
    Fills (saveText p text : Encode H Unit) (shortText text) := by
  have binary : p.isBinary = true := decide_eq_true (by omega)
  have small : (Instruction.mk .shortBinUnicode (Text.utf8 text)).payload.length < frameSizeTarget :=
    Nat.lt_trans short (by decide)
  have whole : (saveText p text : Encode H Unit) = emit .shortBinUnicode (Text.utf8 text) := by
    simp only [saveText, binary, late, short, emitPayload, if_pos small]
    rfl
  rw [whole]
  exact fills_emit _ _

/-- A frame of some size is sent behind a header. -/
theorem State.Gathers.finish {st : State H} {sent frame : Bytes} (here : st.Gathers sent frame)
    (long : 4 ≤ frame.length) :
    ∃ st', framed Frame.Writer.finish st = .ok () st' ∧ st'.store = st.store ∧
      st'.frames.sink.written.toList = sent ++ (header frame.length ++ frame) := by
  obtain ⟨store, memo, ⟨sink, pending⟩, offset, depth, trace⟩ := st
  obtain ⟨willing, rfl, rfl⟩ := here
  have goes : ¬(⟨sink, some frame.toArray⟩ : Writer).Stays true := by
    rintro (nothing | ⟨-, ⟨⟩⟩)
    obtain rfl : frame = [] := by simpa [Writer.gathering] using nothing
    cases long
  simp only [framed, Writer.finish, bind_ok (Writer.commit_goes willing goes)]
  refine ⟨_, rfl, rfl, ?_⟩
  simp [Sink.append, Writer.gathering, Chunk.bytes, Chunk.head, Chunk.content, frameSizeMin, long]

variable [HostObject H] {cfg : Config H} {s : Store H} {id : Nat} {g : Global} {name : Name}

omit [HostObject H] in
/-- A name without an extension code is written as two texts. -/
theorem fills_writeGlobal (save : Value → Encode H Unit) {st : State H} {sent frame : Bytes}
    (late : 4 ≤ cfg.protocol.val) (uncoded : cfg.registry.extensionCode? name = none)
    (short : (Text.utf8 name.module).length < 256 ∧ (Text.utf8 name.qualname).length < 256)
    (here : st.Gathers sent frame) :
    ∃ st', writeGlobal cfg save name st = .ok true st' ∧ st'.store = st.store ∧ st'.memo = st.memo ∧
      st'.Gathers sent (frame ++ (shortText name.module ++ shortText name.qualname ++ [0x93])) := by
  obtain ⟨st', texts, store, memo, here⟩ :=
    (((fills_text late short.1).andThen (fills_text late short.2)).andThen
      (fills_emit .stackGlobal ())) st sent frame here
  refine ⟨st', ?_, store, memo, here⟩
  have whole : writeGlobal cfg save name = (((saveText cfg.protocol name.module >>= fun _ =>
      saveText cfg.protocol name.qualname) >>= fun _ => emit .stackGlobal ()) >>= fun _ => pure true) := by
    rw [writeGlobal_texts (fun _ => uncoded) late]
    simp only [bind_assoc]
  rw [whole, bind_ok texts]
  rfl

/-- An object that is met for the first time in a frame, and written as its name. -/
theorem saveObject_texts (save : Value → Encode H Unit) {st : State H} {sent frame : Bytes}
    (late : 4 ≤ cfg.protocol.val) (found : st.store.cells[id]? = some (.global g))
    (wire : wireName cfg g = .ok name) (uncoded : cfg.registry.extensionCode? name = none)
    (short : (Text.utf8 name.module).length < 256 ∧ (Text.utf8 name.qualname).length < 256)
    (here : st.Gathers sent frame) (fresh : st.memo = ∅) :
    ∃ st', saveObject cfg save id st = .ok () st' ∧ st'.store = st.store ∧
      st'.Gathers sent (frame ++ (shortText name.module ++ shortText name.qualname ++ [0x93, 0x94])) := by
  obtain ⟨st₁, written, store, memo, here⟩ := fills_writeGlobal save late uncoded short here
  let st₂ : State H := { st₁ with memo := st₁.memo.insert (.object id) st₁.memo.size }
  obtain ⟨st', number, store', -, here⟩ :=
    fills_emit .memoize () st₂ _ _ ⟨here.willing, here.sent, here.pending⟩
  refine ⟨st', ?_, store'.trans store, ?_⟩
  · have unknown : st.memo[Identity.object id]? = none := by
      rw [fresh]
      exact Std.HashMap.getElem?_empty
    have room : st₁.memo.size < 2 ^ 32 := by
      rw [memo, fresh]
      exact Nat.two_pow_pos 32
    simp only [saveObject, bind_ok (memoized_ok ..), unknown, bind_apply, get_apply, found, saveCell,
      saveGlobal, wire, written, if_true, memoize, Value.identity?, memoizeAs, if_pos room,
      modify_apply, emitPut, if_pos late]
    exact number
  · simpa [show (Instruction.mk .memoize ()).bytes = [0x94] from rfl] using here

/-- From protocol 4 on a global with a short name and no extension code is written in one frame. -/
theorem dumps_global_texts (late : 4 ≤ cfg.protocol.val) (plain : cfg.persistentId = none)
    (deep : cfg.limits.maxDepth ≠ 0) (found : s.cells[id]? = some (.global g))
    (wire : wireName cfg g = .ok name) (uncoded : cfg.registry.extensionCode? name = none)
    (short : (Text.utf8 name.module).length < 256 ∧ (Text.utf8 name.qualname).length < 256) :
    let frame := shortText name.module ++ shortText name.qualname ++ [0x93, 0x94, 0x2e]
    dumps cfg s (.ref id) =
      (.ok (0x80 :: UInt8.ofNat cfg.protocol.val :: header frame.length ++ frame), s) := by
  intro frame
  obtain ⟨room, deep⟩ := Nat.exists_eq_succ_of_ne_zero deep
  -- the announcement is sent, and everything else waits in the frame
  let st (depth : Nat) : State H := { State.ofSink s {} {} with
    frames := ⟨{ written := #[0x80, UInt8.ofNat cfg.protocol.val] }, some #[]⟩
    offset := 2
    depth := depth }
  have there : (st 1).store.cells[id]? = some (.global g) := found
  obtain ⟨st₁, content, store₁, here⟩ := saveObject_texts (save cfg room true) late there wire uncoded
    short (show (st 1).Gathers _ [] from ⟨rfl, rfl, rfl⟩) rfl
  obtain ⟨st₂, stop, store₂, -, here⟩ := fills_emit .stop () { st₁ with depth := 0 } _ _
    ⟨here.willing, here.sent, here.pending⟩
  have whole : [] ++ (shortText name.module ++ shortText name.qualname ++ [0x93, 0x94]) ++
      (Instruction.mk .stop ()).bytes = frame := by
    simp [frame, show (Instruction.mk .stop ()).bytes = [0x2e] from rfl]
  rw [whole] at here
  obtain ⟨st₃, finish, store₃, sent⟩ := here.finish (by simp [frame, shortText]; omega)
  have run : dump cfg (.ref id) (.ofSink s {} {}) = .ok () st₃ := by
    have saved : save cfg cfg.limits.maxDepth true (.ref id) (st 0) =
        .ok () { st₁ with depth := 0 } := by
      rw [deep]
      exact save_run (v := .ref id) plain rfl content
    have proto : emit .proto (UInt8.ofNat cfg.protocol.val) (.ofSink s {} {}) =
        .ok () { st 0 with frames := { (st 0).frames with pending := none } } := rfl
    have start : framed Frame.Writer.start
        { st 0 with frames := { (st 0).frames with pending := none } } = .ok () (st 0) := rfl
    have recent : 2 ≤ cfg.protocol.val := by omega
    simp only [dump, if_pos recent, if_pos late]
    show (emit .proto (UInt8.ofNat cfg.protocol.val) >>= fun _ => framed Frame.Writer.start >>=
      fun _ => save cfg cfg.limits.maxDepth true (.ref id) >>= fun _ => emit .stop () >>=
        fun _ => framed Frame.Writer.finish) (.ofSink s {} {}) = _
    rw [bind_ok proto, bind_ok start, bind_ok saved, bind_ok stop, finish]
  have store : st₃.store = s := by
    rw [store₃, store₂, store₁]
    rfl
  simp only [dumps, run, sent, store]
  rfl

end ObjectStream.Encoder
