import ObjectStream.Opcode
import ObjectStream.Protocol
import ObjectStream.Text.Encoding

/-!
Why coding fails, and the wording of each cause.
-/

namespace ObjectStream

/-- Why a value cannot be written. -/
inductive EncodeError where
  /-- A host object that nothing describes. -/
  | unsupported (typeName : String)
  /-- A reduction tuple of the wrong length. -/
  | reductionLength (length : Nat)
  | reductionNotTuple
  | argumentsNotTuple
  | callableNotGlobal
  /-- A global that its name does not lead back to. -/
  | unresolvableGlobal (module qualname : String)
  /-- A name that the old protocols have no bytes for. -/
  | nonAsciiGlobal (qualname : String)
  | recursionLimit
  /-- Arguments of object creation that do not begin with a class. -/
  | newObjectArguments
  | unencodable (cause : Encoding.Unencodable)
  | persistentIdNotAscii
  /-- The host failed to describe an object. -/
  | reduce (typeName text : String)
  | memoOverflow
  | tooLarge (typeName : String)
  deriving DecidableEq

/-- The wording of the cause. -/
def EncodeError.message : EncodeError → String
  | .unsupported typeName => "cannot pickle " ++ typeName ++ " object"
  | .reductionLength length =>
    "tuple returned by reduce must contain 2 through 6 elements, got " ++ toString length
  | .reductionNotTuple => "reduce must return a tuple"
  | .argumentsNotTuple => "second item of the reduction must be a tuple"
  | .callableNotGlobal => "first item of the reduction must be a global reference"
  | .unresolvableGlobal module qualname =>
    "cannot pickle " ++ qualname ++ ": it's not found as " ++ module ++ "." ++ qualname
  | .nonAsciiGlobal qualname =>
    "cannot pickle " ++ qualname ++ ": name is not ASCII for protocol < 3"
  | .recursionLimit => "maximum recursion depth exceeded while pickling"
  | .newObjectArguments => "__newobj__ arglist must start with a class"
  | .unencodable cause => cause.message
  | .persistentIdNotAscii => "persistent ids in protocol 0 must be ASCII strings"
  | .reduce typeName text => "reducing " ++ typeName ++ " failed: " ++ text
  | .memoOverflow => "memo id exceeds the 4-byte range"
  | .tooLarge typeName =>
    "cannot serialize a " ++ typeName ++ " larger than 4 GiB with this protocol"

/-- The short name of the cause. -/
def EncodeError.kind : EncodeError → String
  | .unsupported _ => "Unsupported"
  | .reductionLength _ => "BadReductionArity"
  | .reductionNotTuple => "ReductionNotTuple"
  | .argumentsNotTuple => "ArgsNotTuple"
  | .callableNotGlobal => "CallableNotGlobal"
  | .unresolvableGlobal _ _ => "UnresolvableGlobal"
  | .nonAsciiGlobal _ => "NonAsciiGlobal"
  | .recursionLimit => "RecursionLimit"
  | .newObjectArguments => "BadNewObjArgs"
  | .unencodable _ => "Encode"
  | .persistentIdNotAscii => "PersistentIdNotAscii"
  | .reduce _ _ => "Reduce"
  | .memoOverflow => "MemoOverflow"
  | .tooLarge _ => "TooLarge"

/-- Which part of a global name is unknown. -/
inductive MissingName where
  | module
  | attribute
  deriving DecidableEq

/-- A bound of `Limits` that reading would exceed. -/
inductive Bound where
  | frameLength
  | operandLength
  | stackHeight
  | memoSize
  deriving DecidableEq

/-- The wording of the bound. -/
def Bound.message : Bound → String
  | .frameLength => "frame length"
  | .operandLength => "argument length"
  | .stackHeight => "stack height"
  | .memoSize => "memo size"

/-- Why a stream cannot be read. -/
inductive DecodeError where
  | unknownOpcode (byte : UInt8) (offset : Nat)
  | stackUnderflow (op : Opcode)
  | markNotFound (op : Opcode)
  /-- The input ends inside an operand. -/
  | truncated (op : Opcode)
  /-- A frame ends inside an instruction, or before its announced length. -/
  | frameExhausted
  /-- A frame begins inside another. -/
  | frameOverlap
  | missingMemo (id : Nat)
  | unresolvedGlobal (module qualname : String) (missing : MissingName)
  | unsupportedProtocol (protocol : Nat)
  | badLiteral (op : Opcode)
  | badText (op : Opcode)
  | negativeLength (op : Opcode)
  | wrongType (op : Opcode) (expected : String)
  | unhashable (typeName : String)
  /-- A callable failed. -/
  | call (callable text : String)
  | noPersistentLoad
  | noBuffers
  | unregisteredExtension (code : Nat)
  | limitExceeded (bound : Bound)
  deriving DecidableEq

/-- The wording of the cause. -/
def DecodeError.message : DecodeError → String
  | .unknownOpcode byte offset =>
    "invalid load key 0x" ++ String.ofList (hexPadded 2 byte.toNat) ++ " at offset " ++
      toString offset
  | .stackUnderflow op => "unpickling stack underflow in " ++ op.name
  | .markNotFound op => "could not find MARK for " ++ op.name
  | .truncated op => "truncated argument for " ++ op.name
  | .frameExhausted => "pickle exhausted before end of frame"
  | .frameOverlap => "beginning of a new frame before end of current frame"
  | .missingMemo id => "memo value not found at index " ++ toString id
  | .unresolvedGlobal module qualname .module =>
    "no module named " ++ module ++ " (for " ++ qualname ++ ")"
  | .unresolvedGlobal module qualname .attribute =>
    "module " ++ module ++ " has no attribute " ++ qualname
  | .unsupportedProtocol protocol => "unsupported pickle protocol: " ++ toString protocol
  | .badLiteral op => "malformed literal for " ++ op.name
  | .badText op => "undecodable text for " ++ op.name
  | .negativeLength op => "negative byte count for " ++ op.name
  | .wrongType op expected => op.name ++ " expected " ++ expected
  | .unhashable typeName => "unhashable type: " ++ typeName
  | .call callable text => "calling " ++ callable ++ " failed: " ++ text
  | .noPersistentLoad =>
    "a load persistent id instruction was encountered, but no persistent_load hook was set"
  | .noBuffers => "pickle stream refers to out-of-band data but no buffer is available"
  | .unregisteredExtension code => "unregistered extension code " ++ toString code
  | .limitExceeded bound => "limit exceeded: " ++ bound.message

/-- The short name of the cause. -/
def DecodeError.kind : DecodeError → String
  | .unknownOpcode _ _ => "UnknownOpcode"
  | .stackUnderflow _ => "StackUnderflow"
  | .markNotFound _ => "MarkNotFound"
  | .truncated _ => "Truncated"
  | .frameExhausted => "FrameExhausted"
  | .frameOverlap => "FrameOverlap"
  | .missingMemo _ => "MissingMemo"
  | .unresolvedGlobal _ _ _ => "UnresolvedGlobal"
  | .unsupportedProtocol _ => "UnsupportedProtocol"
  | .badLiteral _ => "BadLiteral"
  | .badText _ => "BadText"
  | .negativeLength _ => "NegativeLength"
  | .wrongType _ _ => "WrongType"
  | .unhashable _ => "Unhashable"
  | .call _ _ => "Call"
  | .noPersistentLoad => "NoPersistentLoad"
  | .noBuffers => "NoBuffers"
  | .unregisteredExtension _ => "UnregisteredExtension"
  | .limitExceeded _ => "LimitExceeded"

/-- Why writing or reading a stream fails. -/
inductive Error where
  | encode (cause : EncodeError)
  | decode (cause : DecodeError)
  /-- The input ends where an instruction is expected. -/
  | endOfInput
  | invalidProtocol (number : Int)
  /-- The byte source or sink failed. -/
  | io (text : String)
  /-- No failure that is reported: a comparison has no answer, because it runs around cyclic objects
      for ever or has to open an object that is being filled. A run that is cut off before its end
      stands for one that goes on for ever, and ends in this as well. -/
  | endless
  deriving DecidableEq

/-- The wording of the failure. -/
def Error.message : Error → String
  | .encode cause => "pickling error: " ++ cause.message
  | .decode cause => "unpickling error: " ++ cause.message
  | .endOfInput => "ran out of input"
  | .invalidProtocol number =>
    "pickle protocol must be <= " ++ toString Protocol.highest.val ++ ", got " ++ toString number
  | .io text => "i/o error: " ++ text
  | .endless => "comparison of cyclic objects does not end"

/-- The short name of the failure. -/
def Error.kind : Error → String
  | .encode cause => "Pickling." ++ cause.kind
  | .decode cause => "Unpickling." ++ cause.kind
  | .endOfInput => "Eof"
  | .invalidProtocol _ => "InvalidProtocol"
  | .io _ => "Io"
  | .endless => "Endless"

/-- The protocol asked for, or the standard one. -/
def Protocol.check : Option Int → Except Error Protocol
  | none => .ok standard
  | some n =>
    match ofInt? n with
    | some p => .ok p
    | none => .error (.invalidProtocol n)

/-- Why a registration is refused. -/
inductive RegistryError where
  | emptyName
  | badReconstructorPath (path : String)
  | partialRemoteName
  | badExtensionCode (code : Nat)
  | extensionConflict (code : Nat)
  deriving DecidableEq

/-- The wording of the refusal. -/
def RegistryError.message : RegistryError → String
  | .emptyName => "registered names must be non-empty"
  | .badReconstructorPath path =>
    "reconstructor path " ++ Text.quoted path ++ " must be a dotted module.name"
  | .partialRemoteName => "remote module and qualified name must be given together"
  | .badExtensionCode code => "extension code " ++ toString code ++ " out of range"
  | .extensionConflict code =>
    "extension code " ++ toString code ++ " conflicts with an existing registration"

/-- The short name of the refusal. -/
def RegistryError.kind : RegistryError → String
  | .emptyName => "EmptyName"
  | .badReconstructorPath _ => "BadReconstructorPath"
  | .partialRemoteName => "PartialRemoteName"
  | .badExtensionCode _ => "BadExtensionCode"
  | .extensionConflict _ => "ExtensionConflict"

end ObjectStream
