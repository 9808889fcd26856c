import ObjectStream.Error
import ObjectStream.Number.Double

/-!
Instructions and their bytes.

An instruction is an opcode with an operand of the opcode's shape. Writing one gives its bytes.
Reading one is a `Request` for bytes, which does not say where they come from. The listing answers it
from a byte string. A decoder reads operands without looking at shapes.
-/

namespace ObjectStream

/-- The operands of a shape. Counted operands are given without their count. -/
abbrev Shape.Operand : Shape → Type
  | .nothing => Unit
  | .word8 => UInt8
  | .word16 => UInt16
  | .signed32 => Int32
  | .word32 => UInt32
  | .word64 => UInt64
  | .double => Double
  | .line => Bytes
  | .lines2 => Bytes × Bytes
  | .counted8 => Bytes
  | .counted32 => Bytes
  | .countedSigned32 => Bytes
  | .counted64 => Bytes

/-- The bytes of an operand: what stands before a counted payload, and the payload. -/
def Shape.bytes : (shape : Shape) → shape.Operand → Bytes × Bytes
  | .nothing, _ => ([], [])
  | .word8, n => ([n], [])
  | .word16, n => (Bytes.ofNatLE 2 n.toNat, [])
  | .signed32, n => (Bytes.ofNatLE 4 n.toUInt32.toNat, [])
  | .word32, n => (Bytes.ofNatLE 4 n.toNat, [])
  | .word64, n => (Bytes.ofNatLE 8 n.toNat, [])
  | .double, x => (x.toBytes, [])
  | .line, text => (text ++ [0x0a], [])
  | .lines2, (first, second) => (first ++ 0x0a :: second ++ [0x0a], [])
  | .counted8, payload => (Bytes.ofNatLE 1 payload.length, payload)
  | .counted32, payload => (Bytes.ofNatLE 4 payload.length, payload)
  | .countedSigned32, payload => (Bytes.ofNatLE 4 payload.length, payload)
  | .counted64, payload => (Bytes.ofNatLE 8 payload.length, payload)

/-- An opcode with its operand. -/
structure Instruction where
  op : Opcode
  operand : op.shape.Operand

namespace Instruction

/-- The bytes up to a counted payload. -/
def head (i : Instruction) : Bytes :=
  i.op.byte :: (i.op.shape.bytes i.operand).1

/-- The counted payload, if the operand has one. -/
def payload (i : Instruction) : Bytes :=
  (i.op.shape.bytes i.operand).2

/-- All bytes of the instruction. -/
def bytes (i : Instruction) : Bytes := i.head ++ i.payload

end Instruction

/-- A plan for reading: what to take next from the input, depending on what was taken before. -/
inductive Request (α : Type) where
  | done (result : α)
  | fail (cause : DecodeError)
  /-- Exactly `count` bytes. -/
  | take (count : Nat) (next : Bytes → Request α)
  /-- A line, handed on without its newline. -/
  | line (next : Bytes → Request α)

namespace Request

/-- Reads a count of `width` bytes, and then as many bytes, which may not be more than `limit`. -/
def counted (width limit : Nat) : Request Bytes :=
  .take width fun count =>
    let n := count.toNatLE
    if limit < n then .fail (.limitExceeded .operandLength) else .take n .done

/-- Reads a signed count of four bytes, and then as many bytes. -/
def countedSigned (op : Opcode) (limit : Nat) : Request Bytes :=
  .take 4 fun count =>
    let n := count.toNatLE
    if 2 ^ 31 ≤ n then .fail (.negativeLength op)
    else if limit < n then .fail (.limitExceeded .operandLength)
    else .take n .done

/-- Reads two lines. Where names are to be `checked`, each line has to be UTF-8. -/
def lines2 (op : Opcode) (checked : Bool) : Request (Bytes × Bytes) :=
  .line fun first =>
    if checked && (Text.ofUtf8? first).isNone then .fail (.badText op)
    else .line fun second =>
      if checked && (Text.ofUtf8? second).isNone then .fail (.badText op)
      else .done (first, second)

/-- Reads an operand of the shape, which stands behind `op`. -/
def ofShape (op : Opcode) (limit : Nat) (checked : Bool) : (shape : Shape) → Request shape.Operand
  | .nothing => .done ()
  | .word8 => .take 1 fun bs => .done (UInt8.ofNat bs.toNatLE)
  | .word16 => .take 2 fun bs => .done (UInt16.ofNat bs.toNatLE)
  | .signed32 => .take 4 fun bs => .done (UInt32.ofNat bs.toNatLE).toInt32
  | .word32 => .take 4 fun bs => .done (UInt32.ofNat bs.toNatLE)
  | .word64 => .take 8 fun bs => .done (UInt64.ofNat bs.toNatLE)
  | .double => .take 8 fun bs => .done (Double.ofBytes bs)
  | .line => .line .done
  | .lines2 => lines2 op checked
  | .counted8 => counted 1 limit
  | .counted32 => counted 4 limit
  | .countedSigned32 => countedSigned op limit
  | .counted64 => counted 8 limit

/-- Reads the operand of an opcode. -/
def operand (op : Opcode) (limit : Nat) (checked : Bool) : Request op.shape.Operand :=
  ofShape op limit checked op.shape

end Request

end ObjectStream
