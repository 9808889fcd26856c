import ObjectStream.Value

/-!
Namespaces: modules, the symbols bound in them, and how names are looked up.

A module is known by its whole dotted path, and every prefix of the path is a module too. A name may
be dotted itself. It is looked up as it stands first, and then with its front segments as further
segments of the module path.
-/

namespace ObjectStream

/-- Contents under text keys, in ascending order of the keys. -/
abbrev Directory (α : Type) := List (String × α)

namespace Directory

variable {α : Type}

/-- The content under a key. -/
def find? (d : Directory α) (key : String) : Option α :=
  d.lookup key

/-- Puts a content under a key, in place of any other. -/
def insert (key : String) (content : α) : Directory α → Directory α
  | [] => [(key, content)]
  | (k, a) :: rest =>
    if key < k then (key, content) :: (k, a) :: rest
    else if key = k then (key, content) :: rest
    else (k, a) :: insert key content rest

/-- The directory without a key. -/
def erase (d : Directory α) (key : String) : Directory α :=
  d.filter fun entry => entry.1 != key

end Directory

/-- The ways to split a text at a dot, from the first dot to the last. -/
def splitsAtDots : List Char → List (List Char × List Char)
  | [] => []
  | c :: rest =>
    let later := (splitsAtDots rest).map fun (before, after) => (c :: before, after)
    if c = '.' then ([], rest) :: later else later

/-- The ways to split a dotted name, those with the longest front part first. -/
def dottedSplits (name : String) : List (String × String) :=
  (splitsAtDots name.toList).reverse.map fun (before, after) =>
    (String.ofList before, String.ofList after)

/-- A name in a module. -/
structure Name where
  module : String
  qualname : String
  deriving DecidableEq, Hashable

/-- A symbol under a name of a module. -/
structure Binding where
  symbol : Symbol
  /-- Whether it only stands in for something that was missing. -/
  placeholder : Bool := false

/-- What a look-up finds. -/
inductive Lookup where
  | found (symbol : Symbol)
  | missingModule
  | missingAttribute
  deriving DecidableEq

/-- The symbol that was found. -/
def Lookup.symbol? : Lookup → Option Symbol
  | .found symbol => some symbol
  | _ => none

/-- Modules by path, each with its bindings. -/
structure Namespace where
  modules : Directory (Directory Binding) := []

namespace Namespace

/-- The namespace without modules. -/
def empty : Namespace := {}

/-- Whether there is a module of this path. -/
def hasModule (ns : Namespace) (module : String) : Bool := (ns.modules.find? module).isSome

/-- What a module binds directly under a name. -/
def binding? (ns : Namespace) (module name : String) : Option Binding :=
  (ns.modules.find? module).bind (·.find? name)

/-- Looks a name up in a module. -/
def resolve (ns : Namespace) (n : Name) : Lookup :=
  match ns.modules.find? n.module with
  | none => .missingModule
  | some bindings =>
    match bindings.find? n.qualname with
    | some b => .found b.symbol
    | none =>
      let inner := (dottedSplits n.qualname).findSome? fun (front, last) =>
        ns.binding? (n.module ++ "." ++ front) last
      match inner with
      | some b => .found b.symbol
      | none => .missingAttribute

/-- Looks a dotted path up, with the longest module path first. -/
def resolveDotted (ns : Namespace) (path : String) : Option Symbol :=
  (dottedSplits path).findSome? fun (module, name) => (ns.resolve ⟨module, name⟩).symbol?

/-- The first module in order that binds the symbol under a name. -/
def moduleOf? (ns : Namespace) (qualname : String) (symbol : Symbol) : Option String :=
  ns.modules.findSome? fun (path, bindings) =>
    match bindings.find? qualname with
    | some b => if b.symbol.same symbol then some path else none
    | none => none

/-- The proper prefixes of a module path, shortest first. -/
def parents (module : String) : List String :=
  ((dottedSplits module).map Prod.fst).reverse

/-- Adds a module without bindings unless it is there. -/
def ensureOne (ns : Namespace) (module : String) : Namespace :=
  if ns.hasModule module then ns else { ns with modules := ns.modules.insert module [] }

/-- Adds a module and its parents unless they are there. -/
def ensureModule (ns : Namespace) (module : String) : Namespace :=
  (parents module ++ [module]).foldl ensureOne ns

/-- Binds a name, in place of any other binding of it. -/
def bind (ns : Namespace) (n : Name) (b : Binding) : Namespace :=
  let ns := ns.ensureModule n.module
  let bindings := (ns.modules.find? n.module).getD []
  { ns with modules := ns.modules.insert n.module (bindings.insert n.qualname b) }

/-- Binds a name to a symbol. -/
def define (ns : Namespace) (n : Name) (symbol : Symbol) : Namespace :=
  ns.bind n { symbol := symbol }

/-- Makes a name resolve: unless it does already, it is bound to `symbol` as a placeholder. Hands
    back what the name then stands for. -/
def inject (ns : Namespace) (n : Name) (symbol : Symbol) : Symbol × Namespace :=
  match ns.resolve n with
  | .found existing => (existing, ns)
  | _ => (symbol, ns.bind n { symbol := symbol, placeholder := true })

/-- Makes a name resolve; what stands in for a missing symbol is a new class of that name. -/
def injectClass (ns : Namespace) (n : Name) (number : Nat) : Symbol × Namespace :=
  ns.inject n (.ofClass ⟨.declared number, n.module, n.qualname⟩)

/-- Whether there are modules below a path. -/
def hasSubmodules (ns : Namespace) (path : String) : Bool :=
  ns.modules.any fun (k, _) => (path ++ ".").toList.isPrefixOf k.toList

/-- Drops modules, one after the other, up to the first that has bindings or submodules. -/
def dropEmpty (ns : Namespace) : List String → Namespace
  | [] => ns
  | path :: rest =>
    match ns.modules.find? path with
    | some [] =>
      if ns.hasSubmodules path then ns
      else dropEmpty { ns with modules := ns.modules.erase path } rest
    | _ => ns

/-- Removes a placeholder, and the modules that become empty by that. -/
def removePlaceholder (ns : Namespace) (n : Name) : Namespace :=
  match ns.modules.find? n.module with
  | none => ns
  | some bindings =>
    match bindings.find? n.qualname with
    | some { placeholder := true, .. } =>
      let ns := { ns with modules := ns.modules.insert n.module (bindings.erase n.qualname) }
      ns.dropEmpty (n.module :: (parents n.module).reverse)
    | _ => ns

/-- The module paths in ascending order. -/
def modulePaths (ns : Namespace) : List String := ns.modules.map Prod.fst

end Namespace

end ObjectStream
