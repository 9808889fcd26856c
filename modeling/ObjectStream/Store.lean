import ObjectStream.Keyed

/-!
The store: all objects that values refer to.

An object is a cell with a number. Numbers are given out once, in ascending order, so an object is
never mistaken for an earlier one. The content of a cell may change, its kind does not. Host objects
have contents of a type `H` that the host chooses.
-/

namespace ObjectStream

/-- A mapping from keys to values. -/
abbrev Dict := Keyed Value

/-- The members of a set. -/
abbrev Members := Keyed Unit

/-- An object. -/
inductive Cell (H : Type) where
  | bytearray (data : Bytes)
  | list (items : Array Value)
  /-- A tuple with at least one item. -/
  | tuple (items : List Value)
  | dict (entries : Dict)
  | set (members : Members)
  | frozenset (members : Members)
  | global (g : Global)
  /-- An instance of a class, with its attributes. -/
  | inst (cls : Class) (attributes : Dict)
  /-- An object of the host. -/
  | object (content : H)

namespace Cell

variable {H : Type}

/-- The entries of a dictionary, or the attributes of an instance. -/
def entries : Cell H → Dict
  | .dict entries => entries
  | .inst _ attributes => attributes
  | _ => .empty

/-- The object with its entries or attributes changed. -/
def withEntries (change : Dict → Dict) : Cell H → Cell H
  | .dict entries => .dict (change entries)
  | .inst cls attributes => .inst cls (change attributes)
  | cell => cell

end Cell

/-- The objects, each at the place of its number. -/
structure Store (H : Type) where
  cells : Array (Cell H) := #[]

namespace Store

variable {H : Type}

/-- The store without objects. -/
def empty : Store H := {}

/-- The number of objects. -/
def size (s : Store H) : Nat := s.cells.size

/-- The object that a value refers to. -/
def cell? (s : Store H) : Value → Option (Cell H)
  | .ref id => s.cells[id]?
  | _ => none

/-- The store with a further object, whose number is the former size. -/
def push (s : Store H) (cell : Cell H) : Store H :=
  { s with cells := s.cells.push cell }

/-- Makes a new object. -/
def alloc (s : Store H) (cell : Cell H) : Value × Store H := (.ref s.size, s.push cell)

/-- Changes the content of an object. -/
def modify (s : Store H) (id : Nat) (change : Cell H → Cell H) : Store H :=
  { s with cells := s.cells.modify id change }

/-- A tuple of the items; the empty one is no object. -/
def allocTuple (s : Store H) (items : List Value) : Value × Store H :=
  match items with
  | [] => (.emptyTuple, s)
  | _ => s.alloc (.tuple items)

/-- The items of a tuple. -/
def tuple? (s : Store H) (v : Value) : Option (List Value) :=
  match v with
  | .emptyTuple => some []
  | _ => match s.cell? v with
    | some (.tuple items) => some items
    | _ => none

/-- The items of a list. -/
def list? (s : Store H) (v : Value) : Option (Array Value) :=
  match s.cell? v with
  | some (.list items) => some items
  | _ => none

/-- The entries of a dictionary. -/
def dict? (s : Store H) (v : Value) : Option Dict :=
  match s.cell? v with
  | some (.dict entries) => some entries
  | _ => none

/-- The global that the value is. -/
def global? (s : Store H) (v : Value) : Option Global :=
  match s.cell? v with
  | some (.global g) => some g
  | _ => none

/-- The class and the attributes of an instance. -/
def instance? (s : Store H) (v : Value) : Option (Class × Dict) :=
  match s.cell? v with
  | some (.inst cls attributes) => some (cls, attributes)
  | _ => none

/-- The content of a host object. -/
def object? (s : Store H) (v : Value) : Option H :=
  match s.cell? v with
  | some (.object content) => some content
  | _ => none

/-- Makes a global. -/
def allocGlobal (s : Store H) (g : Global) : Value × Store H := s.alloc (.global g)

end Store

end ObjectStream
