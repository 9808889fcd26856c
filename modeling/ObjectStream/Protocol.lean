/-!
Protocols and the fixed numbers of the format.
-/

namespace ObjectStream

/-- A version of the format. Higher protocols define more instructions. -/
abbrev Protocol := Fin 6

namespace Protocol

/-- The newest protocol. -/
def highest : Protocol := 5

/-- The protocol written when none is asked for. -/
def standard : Protocol := 4

/-- The protocol of a number. -/
def ofInt? (n : Int) : Option Protocol :=
  if h : 0 ≤ n ∧ n ≤ 5 then some ⟨n.toNat, by omega⟩ else none

/-- Whether instructions have binary operands. -/
def isBinary (p : Protocol) : Bool := 1 ≤ p.val

end Protocol

/-- The version of the format that the standard protocol belongs to. -/
def formatVersion : String := "4.0"

/-- The versions of the format that can be read. -/
def compatibleVersions : List String :=
  ["1.0", "1.1", "1.2", "1.3", "2.0", "3.0", "4.0", "5.0"]

/-- The shortest payload that is worth a frame header. -/
def frameSizeMin : Nat := 4

/-- The payload at which a frame is closed, and from which a single operand goes without one. -/
def frameSizeTarget : Nat := 64 * 1024

/-- The length of a frame header: the opcode and eight bytes of length. -/
def frameHeaderLength : Nat := 9

/-- The number of items that are written behind one mark. -/
def batchSize : Nat := 1000

/-- Bounds on what coding may use up. -/
structure Limits where
  /-- The deepest nesting that is written. -/
  maxDepth : Nat := 256
  /-- The highest operand stack, marked items included, while reading. -/
  maxStack : Nat := 2 ^ 64 - 1
  /-- The most memo entries while reading. -/
  maxMemo : Nat := 2 ^ 64 - 1
  /-- The longest frame and the longest counted operand while reading. -/
  maxFrameLength : Nat := 2 ^ 64 - 1

/-- The limits that have numbers under their names; the others are the usual ones. -/
def Limits.ofNames (find? : String → Option Nat) : Limits :=
  let usual : Limits := {}
  { maxDepth := (find? "max_depth").getD usual.maxDepth
    maxStack := (find? "max_stack").getD usual.maxStack
    maxMemo := (find? "max_memo").getD usual.maxMemo
    maxFrameLength := (find? "max_frame_len").getD usual.maxFrameLength }

/-- Limits as shown to a reader. -/
def Limits.shown (l : Limits) : String :=
  "Limits \x7b max_depth: " ++ toString l.maxDepth ++ ", max_stack: " ++ toString l.maxStack ++
    ", max_memo: " ++ toString l.maxMemo ++ ", max_frame_len: " ++ toString l.maxFrameLength ++
    " \x7d"

end ObjectStream
