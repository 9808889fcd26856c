/-!
The instruction set of the stream.

An opcode has a byte, a mnemonic, a shape of its inline operand, and the lowest protocol that
defines it. `ofByte?_byte` and `byte_of_ofByte?` say that bytes and opcodes name each other.
-/

namespace ObjectStream

/-- How the operand of an instruction is laid out behind its opcode byte. -/
inductive Shape where
  /-- No operand. -/
  | nothing
  /-- One unsigned byte. -/
  | word8
  /-- Two bytes, unsigned, least significant first. -/
  | word16
  /-- Four bytes, two's complement, least significant first. -/
  | signed32
  /-- Four bytes, unsigned, least significant first. -/
  | word32
  /-- Eight bytes, unsigned, least significant first. -/
  | word64
  /-- Eight bytes of a binary float, most significant first. -/
  | double
  /-- Text up to a newline. -/
  | line
  /-- Two texts, each up to a newline. -/
  | lines2
  /-- A one-byte count and that many bytes. -/
  | counted8
  /-- A four-byte count and that many bytes. -/
  | counted32
  /-- A four-byte signed count, which must not be negative, and that many bytes. -/
  | countedSigned32
  /-- An eight-byte count and that many bytes. -/
  | counted64
  deriving DecidableEq

/-- The short name of the shape. -/
def Shape.name : Shape → String
  | .nothing => "None"
  | .word8 => "U8"
  | .word16 => "U16"
  | .signed32 => "I32"
  | .word32 => "U32"
  | .word64 => "U64"
  | .double => "F64"
  | .line => "Line"
  | .lines2 => "TwoLines"
  | .counted8 => "Bytes1"
  | .counted32 => "Bytes4"
  | .countedSigned32 => "SignedBytes4"
  | .counted64 => "Bytes8"

/-- The instructions of the stream. -/
inductive Opcode where
  | mark | stop | pop | popMark | dup | float | int | binInt | binInt1 | long | binInt2 | none
  | persId | binPersId | reduce | string | binString | shortBinString | unicode | binUnicode
  | append | build | global | dict | emptyDict | appends | get | binGet | inst | longBinGet
  | list | emptyList | obj | put | binPut | longBinPut | setItem | tuple | emptyTuple | setItems
  | binFloat | proto | newObj | ext1 | ext2 | ext4 | tuple1 | tuple2 | tuple3 | newTrue
  | newFalse | long1 | long4 | binBytes | shortBinBytes | shortBinUnicode | binUnicode8
  | binBytes8 | emptySet | addItems | frozenSet | newObjEx | stackGlobal | memoize | frame
  | byteArray8 | nextBuffer | readOnlyBuffer
  deriving DecidableEq

namespace Opcode

/-- What the format fixes about one opcode. -/
structure Spec where
  /-- The byte that stands for it in a stream. -/
  byte : UInt8
  /-- Its mnemonic. -/
  name : String
  /-- The layout of its operand. -/
  shape : Shape
  /-- The lowest protocol that defines it. -/
  protocol : Nat

/-- The instruction table. -/
def spec : Opcode → Spec
  | .mark => ⟨0x28, "MARK", .nothing, 0⟩
  | .stop => ⟨0x2e, "STOP", .nothing, 0⟩
  | .pop => ⟨0x30, "POP", .nothing, 0⟩
  | .popMark => ⟨0x31, "POP_MARK", .nothing, 1⟩
  | .dup => ⟨0x32, "DUP", .nothing, 0⟩
  | .float => ⟨0x46, "FLOAT", .line, 0⟩
  | .int => ⟨0x49, "INT", .line, 0⟩
  | .binInt => ⟨0x4a, "BININT", .signed32, 1⟩
  | .binInt1 => ⟨0x4b, "BININT1", .word8, 1⟩
  | .long => ⟨0x4c, "LONG", .line, 0⟩
  | .binInt2 => ⟨0x4d, "BININT2", .word16, 1⟩
  | .none => ⟨0x4e, "NONE", .nothing, 0⟩
  | .persId => ⟨0x50, "PERSID", .line, 0⟩
  | .binPersId => ⟨0x51, "BINPERSID", .nothing, 1⟩
  | .reduce => ⟨0x52, "REDUCE", .nothing, 0⟩
  | .string => ⟨0x53, "STRING", .line, 0⟩
  | .binString => ⟨0x54, "BINSTRING", .countedSigned32, 1⟩
  | .shortBinString => ⟨0x55, "SHORT_BINSTRING", .counted8, 1⟩
  | .unicode => ⟨0x56, "UNICODE", .line, 0⟩
  | .binUnicode => ⟨0x58, "BINUNICODE", .counted32, 1⟩
  | .append => ⟨0x61, "APPEND", .nothing, 0⟩
  | .build => ⟨0x62, "BUILD", .nothing, 0⟩
  | .global => ⟨0x63, "GLOBAL", .lines2, 0⟩
  | .dict => ⟨0x64, "DICT", .nothing, 0⟩
  | .emptyDict => ⟨0x7d, "EMPTY_DICT", .nothing, 1⟩
  | .appends => ⟨0x65, "APPENDS", .nothing, 1⟩
  | .get => ⟨0x67, "GET", .line, 0⟩
  | .binGet => ⟨0x68, "BINGET", .word8, 1⟩
  | .inst => ⟨0x69, "INST", .lines2, 0⟩
  | .longBinGet => ⟨0x6a, "LONG_BINGET", .word32, 1⟩
  | .list => ⟨0x6c, "LIST", .nothing, 0⟩
  | .emptyList => ⟨0x5d, "EMPTY_LIST", .nothing, 1⟩
  | .obj => ⟨0x6f, "OBJ", .nothing, 1⟩
  | .put => ⟨0x70, "PUT", .line, 0⟩
  | .binPut => ⟨0x71, "BINPUT", .word8, 1⟩
  | .longBinPut => ⟨0x72, "LONG_BINPUT", .word32, 1⟩
  | .setItem => ⟨0x73, "SETITEM", .nothing, 0⟩
  | .tuple => ⟨0x74, "TUPLE", .nothing, 0⟩
  | .emptyTuple => ⟨0x29, "EMPTY_TUPLE", .nothing, 1⟩
  | .setItems => ⟨0x75, "SETITEMS", .nothing, 1⟩
  | .binFloat => ⟨0x47, "BINFLOAT", .double, 1⟩
  | .proto => ⟨0x80, "PROTO", .word8, 2⟩
  | .newObj => ⟨0x81, "NEWOBJ", .nothing, 2⟩
  | .ext1 => ⟨0x82, "EXT1", .word8, 2⟩
  | .ext2 => ⟨0x83, "EXT2", .word16, 2⟩
  | .ext4 => ⟨0x84, "EXT4", .signed32, 2⟩
  | .tuple1 => ⟨0x85, "TUPLE1", .nothing, 2⟩
  | .tuple2 => ⟨0x86, "TUPLE2", .nothing, 2⟩
  | .tuple3 => ⟨0x87, "TUPLE3", .nothing, 2⟩
  | .newTrue => ⟨0x88, "NEWTRUE", .nothing, 2⟩
  | .newFalse => ⟨0x89, "NEWFALSE", .nothing, 2⟩
  | .long1 => ⟨0x8a, "LONG1", .counted8, 2⟩
  | .long4 => ⟨0x8b, "LONG4", .countedSigned32, 2⟩
  | .binBytes => ⟨0x42, "BINBYTES", .counted32, 3⟩
  | .shortBinBytes => ⟨0x43, "SHORT_BINBYTES", .counted8, 3⟩
  | .shortBinUnicode => ⟨0x8c, "SHORT_BINUNICODE", .counted8, 4⟩
  | .binUnicode8 => ⟨0x8d, "BINUNICODE8", .counted64, 4⟩
  | .binBytes8 => ⟨0x8e, "BINBYTES8", .counted64, 4⟩
  | .emptySet => ⟨0x8f, "EMPTY_SET", .nothing, 4⟩
  | .addItems => ⟨0x90, "ADDITEMS", .nothing, 4⟩
  | .frozenSet => ⟨0x91, "FROZENSET", .nothing, 4⟩
  | .newObjEx => ⟨0x92, "NEWOBJ_EX", .nothing, 4⟩
  | .stackGlobal => ⟨0x93, "STACK_GLOBAL", .nothing, 4⟩
  | .memoize => ⟨0x94, "MEMOIZE", .nothing, 4⟩
  | .frame => ⟨0x95, "FRAME", .word64, 4⟩
  | .byteArray8 => ⟨0x96, "BYTEARRAY8", .counted64, 5⟩
  | .nextBuffer => ⟨0x97, "NEXT_BUFFER", .nothing, 5⟩
  | .readOnlyBuffer => ⟨0x98, "READONLY_BUFFER", .nothing, 5⟩

/-- The byte that stands for the opcode. -/
def byte (op : Opcode) : UInt8 := op.spec.byte

/-- The mnemonic of the opcode. -/
def name (op : Opcode) : String := op.spec.name

/-- The layout of the operand behind the opcode. -/
abbrev shape (op : Opcode) : Shape := op.spec.shape

/-- The lowest protocol that defines the opcode. -/
def protocol (op : Opcode) : Nat := op.spec.protocol

/-- All opcodes. -/
def all : List Opcode := [
  .mark, .stop, .pop, .popMark, .dup, .float, .int, .binInt, .binInt1, .long, .binInt2, .none,
  .persId, .binPersId, .reduce, .string, .binString, .shortBinString, .unicode, .binUnicode,
  .append, .build, .global, .dict, .emptyDict, .appends, .get, .binGet, .inst, .longBinGet,
  .list, .emptyList, .obj, .put, .binPut, .longBinPut, .setItem, .tuple, .emptyTuple, .setItems,
  .binFloat, .proto, .newObj, .ext1, .ext2, .ext4, .tuple1, .tuple2, .tuple3, .newTrue,
  .newFalse, .long1, .long4, .binBytes, .shortBinBytes, .shortBinUnicode, .binUnicode8,
  .binBytes8, .emptySet, .addItems, .frozenSet, .newObjEx, .stackGlobal, .memoize, .frame,
  .byteArray8, .nextBuffer, .readOnlyBuffer]

/-- The opcode that a byte stands for. -/
def ofByte? (b : UInt8) : Option Opcode :=
  all.find? fun op => op.byte == b

theorem mem_all (op : Opcode) : op ∈ all := by
  cases op <;> decide

/-- The byte of an opcode names that opcode. -/
theorem ofByte?_byte (op : Opcode) : ofByte? op.byte = some op := by
  cases op <;> rfl

/-- A byte that names an opcode is the byte of that opcode. -/
theorem byte_of_ofByte? {b : UInt8} {op : Opcode} (h : ofByte? b = some op) : op.byte = b := by
  simpa using List.find?_some h

end Opcode

end ObjectStream
