import ObjectStream.Proofs.FloatLines
import ObjectStream.Proofs.Integers
import ObjectStream.Proofs.Running
import ObjectStream.Proofs.Spelling

/-!
Atoms that read back.

What the encoder writes for an atom pushes the atom on the stack of the reader, in every protocol. An
integer comes back as a word if a word holds it. A double comes back, but a not-a-number in text
without its payload.
-/

namespace ObjectStream

namespace Decoder

variable {H : Type} [HostObject H]

/-- All that the instruction does is to push the value. -/
structure Utters (cfg : Config H) (i : Instruction) (v : Value) : Prop where
  ordinary : i.Ordinary
  run : execute cfg i.op i.operand = push cfg v

/-- The instructions push the value and change nothing else. -/
def Pushes (cfg : Config H) (is : List Instruction) (v : Value) : Prop :=
  ∀ (total : Prop) (m : Machine H) (Q : Machine H → Prop), Q (m.push v) → Leads cfg total is m Q

variable {cfg : Config H} {v : Value}

theorem Utters.pushes {i : Instruction} (h : Utters cfg i v) : Pushes cfg [i] v :=
  fun _ _ _ q => leads_push h.ordinary h.run q

theorem utters_textInstruction (p : Protocol) (text : String) :
    Utters cfg (Encoder.textInstruction p text) (.str text) := by
  have payload : ∀ op, payloadText (H := H) op (Text.utf8 text) = pure (.str text) := by
    intro op
    simp only [payloadText, Text.ofUtf8?_utf8, spelled, pure_bind]
  unfold Encoder.textInstruction
  split
  · refine ⟨.of (RawUnicode.newline_not_mem_lineOf text) rfl, ?_⟩
    simp only [execute, escapedLineValue, RawUnicode.decode?_lineOf, spelled, pure_bind]
  split
  · next short =>
    simp only [Bool.and_eq_true, decide_eq_true_eq] at short
    refine ⟨.of short.2 rfl, ?_⟩
    simp only [execute, payload, pure_bind]
  split
  · next short =>
    refine ⟨.of short rfl, ?_⟩
    simp only [execute, payload, pure_bind]
  · refine ⟨.of trivial rfl, ?_⟩
    simp only [execute, payload, pure_bind]

theorem pushes_textInstruction (p : Protocol) (text : String) :
    Pushes cfg [Encoder.textInstruction p text] (.str text) :=
  (utters_textInstruction p text).pushes

end Decoder

namespace Encoder

open Decoder (Utters)

variable {H : Type} [HostObject H] {st st' : State H} {dc : Decoder.Config H} {p : Protocol}

/-- Between the two states one instruction was written, and all it does is to push the value. -/
def Writes (dc : Decoder.Config H) (st st' : State H) (v : Value) : Prop :=
  ∃ i, Emitted st st' [i] ∧ Utters dc i v

theorem writes_emit {op : Opcode} {operand : op.shape.Operand} {v : Value}
    (h : emit op operand st = .ok () st') (ordinary : Instruction.Ordinary ⟨op, operand⟩)
    (run : Decoder.execute dc op operand = Decoder.push dc v) : Writes dc st st' v :=
  ⟨_, emit_ok h, ordinary, run⟩

theorem writes_emitPayload {op : Opcode} {operand : op.shape.Operand} {v : Value}
    (h : emitPayload op operand st = .ok () st') (ordinary : Instruction.Ordinary ⟨op, operand⟩)
    (run : Decoder.execute dc op operand = Decoder.push dc v) : Writes dc st st' v :=
  ⟨_, emitPayload_ok h, ordinary, run⟩

/-! ## Integers -/

theorem saveBool_writes {b : Bool} (h : saveBool p b st = .ok () st') :
    Writes dc st st' (.bool b) := by
  rw [saveBool] at h
  split at h
  · cases b
    · exact writes_emit h (.of trivial rfl) rfl
    · exact writes_emit h (.of trivial rfl) rfl
  · cases b
    · exact writes_emit h (.of (show 0x0a ∉ Bytes.ascii "00" by decide) rfl) rfl
    · exact writes_emit h (.of (show 0x0a ∉ Bytes.ascii "01" by decide) rfl) rfl

theorem saveIntegerBytes_writes {bytes : Bytes} (h : saveIntegerBytes bytes st = .ok () st') :
    Writes dc st st' (Decoder.integerValue bytes) := by
  rw [saveIntegerBytes] at h
  split at h
  · next short => exact writes_emit h (.of short rfl) rfl
  · split at h
    · next short => exact writes_emit h (.of short rfl) rfl
    · cases h

theorem ofInt_toInt (n : Int64) : Value.ofInt n.toInt = .int n := by
  have low := n.le_toInt
  have high := n.toInt_lt
  have fits : fitsWord n.toInt = true := by
    simp only [fitsWord, Bool.and_eq_true, decide_eq_true_eq]
    omega
  rw [Value.ofInt, if_pos fits, Int64.ofInt_toInt]

theorem writes_int {n : Int} (h : emit .int (decimalLine n) st = .ok () st') :
    Writes dc st st' (.ofInt n) := by
  refine writes_emit h (.of (Literal.newline_not_mem_decimalLine n) rfl) ?_
  simp only [Decoder.execute, Decoder.lineValue, if_neg (Literal.decimalLine_ne (.inl rfl)),
    if_neg (Literal.decimalLine_ne (.inr rfl)), Literal.int?_decimalLine, Decoder.spelled, pure_bind]

omit [HostObject H] in
theorem longLineValue_decimalLine (n : Int) :
    Decoder.longLineValue (H := H) .long (decimalLine n ++ [0x4c]) = pure (.ofInt n) := by
  have last : (decimalLine n ++ [0x4c]).getLast? = some 0x4c := List.getLast?_concat
  rw [Decoder.longLineValue, if_pos last, List.dropLast_concat, Literal.int?_decimalLine]
  rfl

theorem writes_long {n : Int} (h : emit .long (decimalLine n ++ [0x4c]) st = .ok () st') :
    Writes dc st st' (.ofInt n) := by
  refine writes_emit h (.of ?_ rfl) ?_
  · intro newline
    rcases List.mem_append.1 newline with newline | newline
    · exact Literal.newline_not_mem_decimalLine n newline
    · exact absurd (List.mem_singleton.1 newline) (by decide)
  · show (do Decoder.push dc (← Decoder.longLineValue .long (decimalLine n ++ [0x4c]))) = _
    rw [longLineValue_decimalLine, pure_bind]

theorem saveWord_writes {n : Int64} (h : saveWord p n st = .ok () st') :
    Writes dc st st' (.int n) := by
  have small : ∀ k : Nat, k < 2 ^ 63 → (k : Int) = n.toInt → Int64.ofNat k = n := by
    intro k bound same
    apply Int64.toInt_inj.1
    rw [← same, Int64.toInt_ofNat_of_lt bound]
  simp only [saveWord] at h
  split at h
  · next range =>
    simp only [Bool.and_eq_true, decide_eq_true_eq] at range
    refine writes_emit h (.of trivial rfl) ?_
    have byte : (UInt8.ofNat n.toInt.toNat).toNat = n.toInt.toNat :=
      UInt8.toNat_ofNat_of_lt' (show _ < 256 by omega)
    simp only [Decoder.execute, byte, small n.toInt.toNat (by omega) (by omega)]
  split at h
  · next range =>
    simp only [Bool.and_eq_true, decide_eq_true_eq] at range
    refine writes_emit h (.of trivial rfl) ?_
    have pair : (UInt16.ofNat n.toInt.toNat).toNat = n.toInt.toNat :=
      UInt16.toNat_ofNat_of_lt' (show _ < 65536 by omega)
    simp only [Decoder.execute, pair, small n.toInt.toNat (by omega) (by omega)]
  split at h
  · next range =>
    simp only [Bool.and_eq_true, decide_eq_true_eq] at range
    refine writes_emit h (.of trivial rfl) ?_
    have word : (Int32.ofInt n.toInt).toInt64 = n := by
      apply Int64.toInt_inj.1
      rw [Int32.toInt_toInt64, Int32.toInt_ofInt_of_le (by omega) (by omega)]
    simp only [Decoder.execute, word]
  split at h
  · rw [← Decoder.integerValue_encodeWord]
    exact saveIntegerBytes_writes h
  split at h
  · rw [← ofInt_toInt]
    exact writes_int h
  · rw [← ofInt_toInt]
    exact writes_long h

/-- An integer that fits a word comes back as a word. -/
theorem saveLong_writes {n : Int} (h : saveLong p n st = .ok () st') :
    Writes dc st st' (.ofInt n) := by
  rw [saveLong] at h
  split at h
  · next fits =>
    rw [Value.ofInt, if_pos fits]
    exact saveWord_writes h
  · next wide =>
    split at h
    · rw [← Decoder.integerValue_encode (Bool.eq_false_iff.2 wide)]
      exact saveIntegerBytes_writes h
    · exact writes_long h

/-! ## Texts and byte strings -/

theorem saveText_writes {text : String} (h : saveText p text st = .ok () st') :
    Writes dc st st' (.str text) :=
  ⟨_, (saveText_ok h).1, Decoder.utters_textInstruction p text⟩

theorem saveBinary_writes {bytes : Bytes} (h : saveBinary p bytes st = .ok () st') :
    Writes dc st st' (.bytes bytes) := by
  rw [saveBinary] at h
  split at h
  · next short => exact writes_emitPayload h (.of short rfl) rfl
  split at h
  · next short => exact writes_emitPayload h (.of short rfl) rfl
  split at h
  · exact writes_emitPayload h (.of trivial rfl) rfl
  · cases h

end Encoder

/-! ## Doubles -/

namespace Encoder

variable {H : Type} [HostObject H] {st st' : State H} {dc : Decoder.Config H} {p : Protocol}

/-- A double comes back up to the payload of a not-a-number. -/
theorem saveFloat_writes {x : Double} (h : saveFloat p x st = .ok () st') :
    ∃ y : Double, y.settled = x.settled ∧ Writes dc st st' (.float y) := by
  rw [saveFloat] at h
  split at h
  · exact ⟨x, rfl, writes_emit h (.of trivial rfl) rfl⟩
  · have fits := Text.newline_not_mem_ascii x.onLine_lineText
    have writes : ∀ y, Double.ofLine? (Bytes.ascii x.lineText) = some y →
        Writes dc st st' (.float y) := by
      intro y read
      refine writes_emit h (.of fits rfl) ?_
      simp only [Decoder.execute, Decoder.floatLineValue, read, Decoder.spelled, pure_bind]
    cases nan : x.isNaN with
    | false => exact ⟨x, rfl, writes x (Double.ofLine?_lineText nan)⟩
    | true =>
      refine ⟨Double.quietNaN false, ?_, writes _ ?_⟩
      · rw [Double.settled, Double.settled, nan]
        rfl
      · rw [Double.lineText, nan]
        exact Double.ofLine?_nan

end Encoder

end ObjectStream
