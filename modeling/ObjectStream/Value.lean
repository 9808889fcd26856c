import ObjectStream.Bytes
import ObjectStream.Number.Double

/-!
Values, and the names and symbols that values refer to.

An atom stands for itself. Everything that can be shared or can contain something is an object with
an identity, and a value refers to it by number; the objects are kept in a `Store`. The empty tuple
has no identity.
-/

namespace ObjectStream

/-- A type of the host, known by its full path: segments set off by `::`, and type arguments in
    angle brackets. -/
structure HostType where
  path : String
  deriving DecidableEq, Inhabited

namespace HostType

/-- The segments of a path, the first of which begins with what was read already, in reverse. -/
def segmentsFrom : (read : List Char) → List Char → List (List Char)
  | read, [] => [read.reverse]
  | read, ':' :: ':' :: rest => read.reverse :: segmentsFrom [] rest
  | read, c :: rest => segmentsFrom (c :: read) rest

/-- The segments of the path without type arguments. -/
def segments (t : HostType) : List String :=
  (segmentsFrom [] (t.path.toList.takeWhile (· != '<'))).map String.ofList

/-- The last segment of the path. -/
def shortName (t : HostType) : String :=
  t.segments.getLast?.getD t.path

/-- The segments before the last, with dots between them. -/
def modulePath? (t : HostType) : Option String :=
  match t.segments with
  | first :: second :: rest => some (".".intercalate (first :: second :: rest).dropLast)
  | _ => none

end HostType

/-- The identity of a class: the base class that a registry brings along, or a declared one. -/
inductive ClassKey where
  | base (registry : Nat)
  | declared (number : Nat)
  deriving DecidableEq, Hashable

/-- A class whose instances carry attributes. Its key tells it from other classes of its name. -/
structure Class where
  key : ClassKey
  module : String
  qualname : String
  deriving DecidableEq

/-- The base class of a registry. -/
def Class.base (registry : Nat) : Class := ⟨.base registry, "builtins", "object"⟩

/-- The callables that every registry brings along. -/
inductive Builtin where
  | complex
  | bytes
  | bytearray
  | list
  | tuple
  | set
  | frozenset
  | dict
  /-- An attribute of a global. -/
  | getattr
  /-- Object creation before protocol 2. -/
  | reconstructor
  /-- Object creation with positional arguments. -/
  | newobj
  /-- Object creation with keyword arguments. -/
  | newobjEx
  /-- The bytes of a text. -/
  | encode
  deriving DecidableEq

/-- The identity of a callable. -/
inductive Callable where
  | builtin (registry : Nat) (function : Builtin)
  | host (number : Nat)
  deriving DecidableEq

/-- Something a global name can stand for. -/
inductive Symbol where
  | function (callable : Callable)
  | ofClass (cls : Class)
  deriving DecidableEq

/-- Whether two symbols are the same callable or the same class. -/
def Symbol.same : Symbol → Symbol → Bool
  | .function a, .function b => a == b
  | .ofClass a, .ofClass b => a.key == b.key
  | _, _ => false

/-- A name in a module: a class, a callable or a host type. -/
structure Global where
  /-- The module, if it is known. -/
  module : Option String
  qualname : String
  /-- The host type that is named. -/
  type : Option HostType := none
  /-- What the name stands for, once it was resolved. -/
  symbol : Option Symbol := none
  deriving DecidableEq

namespace Global

/-- A name that was not resolved. -/
def named (module qualname : String) : Global := { module := some module, qualname := qualname }

/-- The global of a host type; its registry knows how it is written. -/
def ofType (t : HostType) : Global :=
  { module := none, qualname := t.shortName, type := some t }

/-- The global of a class. -/
def ofClass (c : Class) : Global :=
  { module := some c.module, qualname := c.qualname, symbol := some (.ofClass c) }

/-- The class that the global was resolved to. -/
def class? (g : Global) : Option Class :=
  match g.symbol with
  | some (.ofClass c) => some c
  | _ => none

/-- Equality of globals: by type where both have one, otherwise by name. An unknown module agrees
    with every module. -/
def same (a b : Global) : Bool :=
  match a.type, b.type with
  | some s, some t => s == t
  | _, _ =>
    a.qualname == b.qualname &&
      match a.module, b.module with
      | some m, some n => m == n
      | _, _ => true

end Global

/-- A value. -/
inductive Value where
  | none
  | bool (b : Bool)
  /-- An integer that a word holds. -/
  | int (n : Int64)
  /-- An integer of any size. -/
  | long (n : Int)
  | float (x : Double)
  | complex (re im : Double)
  | str (s : String)
  | bytes (bs : Bytes)
  | emptyTuple
  /-- An object, by its number in the store. -/
  | ref (id : Nat)
  deriving DecidableEq, Inhabited

/-- Whether a word holds the integer. -/
def fitsWord (n : Int) : Bool := -(2 ^ 63) ≤ n && n < 2 ^ 63

namespace Value

/-- The integer as a word if one holds it. -/
def ofInt (n : Int) : Value :=
  if fitsWord n then .int (Int64.ofInt n) else .long n

/-- The integer that the value is; truth values count as one and zero. -/
def toInt? : Value → Option Int
  | .bool b => some b.toInt
  | .int n => some n.toInt
  | .long n => some n
  | _ => Option.none

/-- The integer that the value is, if a word holds it. -/
def toWord? (v : Value) : Option Int :=
  match v.toInt? with
  | some n => if fitsWord n then some n else Option.none
  | Option.none => Option.none

/-- The double for a real number. -/
def toDouble? : Value → Option Double
  | .float x => some x
  | .long n => some (Double.ofWide n)
  | v => v.toInt?.map Double.ofInt

/-- The text that the value is. -/
def text? : Value → Option String
  | .str s => some s
  | _ => Option.none

/-- The number of the object that the value refers to. -/
def identity? : Value → Option Nat
  | .ref id => some id
  | _ => Option.none

/-- Whether two values are the same object. -/
def isSame (a b : Value) : Bool :=
  match a, b with
  | .ref i, .ref j => i == j
  | _, _ => false

end Value

end ObjectStream
