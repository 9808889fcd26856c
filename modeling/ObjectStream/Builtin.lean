import ObjectStream.Equality
import ObjectStream.Text.Encoding

/-!
The callables that every registry brings along.

Three of them create objects by calling a class or a callable that they are given. `forward` follows
such calls to their end, so that carrying a call out needs no recursion: it makes an instance, or it
runs a constructor or a function of the host.
-/

namespace ObjectStream

/-- Where a call leads in the end. -/
inductive Target where
  /-- A new instance without attributes. -/
  | create (cls : Class)
  | run (callable : Callable) (args : List Value)

/-- The failure of a global that stands for nothing that can be called. -/
def Global.notCallable (g : Global) : String :=
  g.module.getD "?" ++ "." ++ g.qualname ++ " is not callable"

/-- Refuses a number of arguments outside of the bounds. -/
def checkArity (name : String) (args : List Value) (least most : Nat) : Except String Unit :=
  if least ≤ args.length ∧ args.length ≤ most then .ok ()
  else .error (name ++ "() takes " ++ toString least ++ " to " ++ toString most ++
    " arguments (" ++ toString args.length ++ " given)")

namespace Store

variable {H : Type} [HostObject H]

/-- What a value stands for when it is called to create an object. -/
def creator (s : Store H) (cls : Value) : Except String Symbol :=
  match s.global? cls with
  | none => .error ("cannot instantiate a " ++ s.typeName cls ++ " object")
  | some g =>
    match g.symbol with
    | some symbol => .ok symbol
    | none => .error g.notCallable

/-- Refuses keyword arguments that are not an empty dictionary. -/
def checkKeywords (s : Store H) (keywords : Value) : Except String Unit :=
  match s.dict? keywords with
  | some d => if d.size = 0 then .ok () else .error "keyword arguments are not supported"
  | none => .error "keyword arguments are not supported"

/-- A creation that a call stands for: what is called, with which arguments, and the number of the
    tuple that they come from. -/
structure Creation where
  cls : Value
  args : List Value
  age : Nat

/-- The creation that the call of `function` stands for, if it is one of the creating callables. Its
    own arguments come from a tuple with the number `age`, or from the stack if that is the size of
    the store. -/
def creation? (s : Store H) (age : Nat) (function : Builtin) (args : List Value) :
    Option (Except String Creation) :=
  match function with
  | .newobj => some <|
    match args with
    | [] => .error "__newobj__() requires a class"
    | cls :: rest => .ok ⟨cls, rest, age⟩
  | .newobjEx => some do
    checkArity "__newobj_ex__" args 3 3
    match args with
    | [cls, positional, keywords] =>
      match s.tuple? positional with
      | some items =>
        s.checkKeywords keywords
        .ok ⟨cls, items, positional.identity?.getD 0⟩
      | none => .error "__newobj_ex__() args must be a tuple"
    | _ => .error "__newobj_ex__() args must be a tuple"
  | .reconstructor => some do
    checkArity "_reconstructor" args 3 3
    match args with
    | [cls, _, .none] => .ok ⟨cls, [], age⟩
    | _ => .error "_reconstructor() only supports a None base state"
  | _ => none

/-- Follows the call of a callable to its end. This ends because a creation has fewer arguments, or
    takes them from a tuple inside the former tuple, and a tuple holds only older objects. -/
def forward (s : Store H) (age : Nat) (callable : Callable) (args : List Value) :
    Except String Target :=
  match callable with
  | .host _ => .ok (.run callable args)
  | .builtin _ function =>
    match s.creation? age function args with
    | none => .ok (.run callable args)
    | some (.error text) => .error text
    | some (.ok next) =>
      match s.creator next.cls with
      | .error text => .error text
      | .ok (.ofClass c) => .ok (.create c)
      | .ok (.function callable) =>
        if _smaller : next.age < age ∨ (next.age = age ∧ next.args.length < args.length) then
          forward s next.age callable next.args
        else .error "a tuple holds itself"
termination_by (age, args.length)
decreasing_by
  rcases _smaller with h | ⟨h, h'⟩
  · exact Prod.Lex.left _ _ h
  · rw [h]; exact Prod.Lex.right _ h'

/-- What creating an object by `cls` leads to. A class ignores the arguments. -/
def creationTarget (s : Store H) (cls : Value) (args : List Value) : Except String Target :=
  match s.creator cls with
  | .error text => .error text
  | .ok (.ofClass c) => .ok (.create c)
  | .ok (.function callable) => s.forward s.size callable args

/-- What calling a symbol leads to. A class takes no arguments. -/
def callTarget (s : Store H) (symbol : Symbol) (args : List Value) : Except String Target :=
  match symbol with
  | .function callable => s.forward s.size callable args
  | .ofClass c =>
    if args.isEmpty then .ok (.create c) else .error (c.qualname ++ "() takes no arguments")

/-- The elements of a value that has elements. -/
def elements (s : Store H) (v : Value) : Except String (List Value) :=
  match v with
  | .emptyTuple => .ok []
  | .bytes bs => .ok (ofBytes bs)
  | .str text => .ok (text.toList.map fun c => .str (String.singleton c))
  | _ =>
    match s.cell? v with
    | some (.list items) => .ok items.toList
    | some (.tuple items) => .ok items
    | some (.set members) => .ok members.keys
    | some (.frozenset members) => .ok members.keys
    | some (.dict entries) => .ok entries.keys
    | some (.bytearray data) => .ok (ofBytes data)
    | _ => .error ("'" ++ s.typeName v ++ "' object is not iterable")
where
  /-- The bytes as integers. -/
  ofBytes (bs : Bytes) : List Value := bs.map fun b => .int (Int64.ofNat b.toNat)

/-- The elements of the argument of a constructor that takes at most one. -/
def optionalElements (s : Store H) (args : List Value) : Except String (List Value) := do
  checkArity "constructor" args 0 1
  match args with
  | v :: _ => s.elements v
  | [] => .ok []

/-- A part of a complex number. -/
def realPart (v : Option Value) : Except String Double :=
  match v with
  | none => .ok .zero
  | some v =>
    match v.toDouble? with
    | some x => .ok x
    | none => .error "complex() arguments must be real numbers"

/-- The byte that an element of a byte string gives. -/
def byteOf (v : Value) : Except String UInt8 :=
  match v.toWord? with
  | some n =>
    if 0 ≤ n ∧ n < 256 then .ok (UInt8.ofNat n.toNat) else .error "bytes must be in range(0, 256)"
  | none => .error "bytes must be in range(0, 256)"

/-- The bytes that a value gives. -/
def byteElements (s : Store H) (v : Value) : Except String Bytes :=
  match v, s.cell? v with
  | .bytes bs, _ => .ok bs
  | _, some (.bytearray data) => .ok data
  | _, _ => do (← s.elements v).mapM byteOf

/-- The encoding that a value names. -/
def encodingOf (v : Value) : Except String Encoding :=
  match v.text?.bind Encoding.ofName? with
  | some encoding => .ok encoding
  | none => .error "unknown encoding"

/-- The bytes of a text under an encoding. -/
def encoded (encoding : Encoding) (text : String) : Except String Bytes :=
  (encoding.encode text).mapError Encoding.Unencodable.message

/-- The content of a new byte string or byte array. -/
def byteArguments (s : Store H) (name : String) (args : List Value) : Except String Bytes := do
  checkArity name args 0 2
  match args with
  | [] => .ok []
  | [.str text, encoding] => encoded (← encodingOf encoding) text
  | [.str _] => .error "string argument without an encoding"
  | [v] => s.byteElements v
  | _ => .error (name ++ "() encoding must be a str")

/-- The entry that a pair gives. -/
def pairOf (s : Store H) (v : Value) : Option (Value × Value) :=
  match s.tuple? v with
  | some [key, content] => some (key, content)
  | _ => none

/-- The entries of a new dictionary. -/
def dictArguments (s : Store H) (args : List Value) : Except String (List (Value × Value)) := do
  checkArity "dict" args 0 1
  match args with
  | [] => .ok []
  | v :: _ =>
    match s.dict? v with
    | some d => .ok d.entries.toList
    | none => do
      (← s.elements v).mapM fun pair =>
        match s.pairOf pair with
        | some entry => .ok entry
        | none => .error "dictionary update sequence element has wrong length"

/-- The attribute of a global that `getattr` is asked for, as a global of its own. -/
def attributeOf (s : Store H) (ns : Option Namespace) (args : List Value) : Except String Global := do
  checkArity "getattr" args 2 2
  match args with
  | [parent, .str name] =>
    match s.global? parent with
    | some g =>
      let module := g.module.getD "builtins"
      let qualname := g.qualname ++ "." ++ name
      match ns.bind fun ns => (ns.resolve ⟨module, qualname⟩).symbol? with
      | some symbol => .ok { Global.named module qualname with symbol := some symbol }
      | none => .error ("module " ++ module ++ " has no attribute " ++ qualname)
    | none => .error "getattr() expects a global and an attribute name"
  | _ => .error "getattr() expects a global and an attribute name"

/-- The bytes of a text, in UTF-8 unless another encoding is named. -/
def encodeArguments (args : List Value) : Except String Bytes := do
  checkArity "encode" args 1 2
  match args with
  | .str text :: rest =>
    match rest with
    | encoding :: _ => encoded (← encodingOf encoding) text
    | [] => encoded .utf8 text
  | _ => .error "encode() argument must be str"

end Store

namespace Builtin

variable {H : Type} [HostObject H]

/-- An outcome that only reads the store. -/
def reading {α : Type} (outcome : Store H → Except String α) : Action H α := do
  match outcome (← get) with
  | .ok a => pure a
  | .error text => .fail text

/-- An outcome that uses values as keys. -/
def keying {α : Type} (outcome : Store H → Except KeyError α) : Action H α := do
  match outcome (← get) with
  | .ok a => pure a
  | .error e => throw (.ofKey e)

/-- Runs a constructor or a function of the registry with the namespace `ns`. -/
def run (ns : Option Namespace) (function : Builtin) (args : List Value) : Action H Value := do
  match function with
  | .complex =>
    let (re, im) ← reading fun _ => do
      checkArity "complex" args 0 2
      let re ← Store.realPart args[0]?
      let im ← Store.realPart args[1]?
      .ok (re, im)
    pure (.complex re im)
  | .bytes =>
    let data ← reading (·.byteArguments "bytes" args)
    pure (.bytes data)
  | .bytearray =>
    let data ← reading (·.byteArguments "bytearray" args)
    Action.alloc (.bytearray data)
  | .list =>
    let items ← reading (·.optionalElements args)
    Action.alloc (.list items.toArray)
  | .tuple =>
    let items ← reading (·.optionalElements args)
    Action.allocTuple items
  | .set =>
    let items ← reading (·.optionalElements args)
    let members ← keying (·.membersOf items)
    Action.alloc (.set members)
  | .frozenset =>
    let items ← reading (·.optionalElements args)
    let members ← keying (·.membersOf items)
    Action.alloc (.frozenset members)
  | .dict =>
    let entries ← reading (·.dictArguments args)
    let d ← keying (·.dictOf entries)
    Action.alloc (.dict d)
  | .getattr =>
    let g ← reading (·.attributeOf ns args)
    Action.alloc (.global g)
  | .encode =>
    let data ← reading fun _ => Store.encodeArguments args
    pure (.bytes data)
  | .newobj | .newobjEx | .reconstructor => .fail "not a constructor"

end Builtin

namespace Host

variable {H : Type} [HostObject H]

/-- Carries a call out. -/
def carryOut (host : Host H) (target : Store H → Except String Target) : Action H Value := do
  match ← Builtin.reading target with
  | .create cls => Action.alloc (.inst cls .empty)
  | .run (.host number) args => host.call number args
  | .run (.builtin registry function) args => function.run (host.namespaceOf registry) args

/-- Calls a symbol. -/
def callSymbol (host : Host H) (symbol : Symbol) (args : List Value) : Action H Value :=
  host.carryOut fun s => s.callTarget symbol args

/-- Creates an object by a class or a callable. -/
def create (host : Host H) (cls : Value) (args : List Value) : Action H Value :=
  host.carryOut fun s => s.creationTarget cls args

end Host

end ObjectStream
