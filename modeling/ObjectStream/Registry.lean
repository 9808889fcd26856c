import ObjectStream.Builtin
import ObjectStream.Error
import ObjectStream.Shown

/-!
Registries: host types and the names they are written under, the namespace, and extension codes.

A host type has a declared name, and may have a remote name that the other side knows it by. Writing
prefers the remote name; reading takes both, and looks at remote names first. A type that has a
function to build it again also has a name for that function, made up if none is given.
-/

namespace ObjectStream

namespace Name

/-- The name that a dotted path spells; both parts have to be there. -/
def ofPath (path : String) : Except RegistryError Name :=
  match dottedSplits path with
  | (module, qualname) :: _ =>
    if module = "" ∨ qualname = "" then .error (.badReconstructorPath path)
    else .ok ⟨module, qualname⟩
  | [] => .error (.badReconstructorPath path)

/-- A name as shown to a reader. -/
def shown (n : Name) : String :=
  "Name \x7b module: " ++ Text.quoted n.module ++ ", qualname: " ++ Text.quoted n.qualname ++ " \x7d"

end Name

/-- How decoded state is given to an object of a registered type. -/
inductive StateHook (H : Type) where
  /-- The object takes the state. -/
  | inPlace (apply : Nat → H → Value → Action H Unit)
  /-- A new value takes the place of the object. -/
  | replace (apply : Nat → H → Value → Action H Value)

/-- Describes an object of a registered type. -/
abbrev ReduceHook (H : Type) := Nat → H → Protocol → Action H Reduction

/-- What a host asks to register. -/
structure Registration (H : Type) where
  type : HostType
  reduce : Option (ReduceHook H) := none
  /-- The number of the host function that builds an object again. -/
  reconstruct : Option Nat := none
  state : Option (StateHook H) := none
  name : Option Name := none
  /-- The dotted path of the function that builds an object again. -/
  reconstructor : Option String := none
  remoteName : Option Name := none
  remoteReconstructor : Option String := none

/-- A registered host type. -/
structure Entry (H : Type) where
  type : HostType
  name : Name
  reconstructor : Option Name
  remoteName : Option Name
  remoteReconstructor : Option Name
  reduce : Option (ReduceHook H)
  reconstruct : Option Nat
  state : Option (StateHook H)

namespace Entry

variable {H : Type}

/-- The name the type is written under. -/
def typeWireName (e : Entry H) : Name := e.remoteName.getD e.name

/-- The name that the function which builds an object again is written under. -/
def callableWireName (e : Entry H) : Option Name := e.remoteReconstructor.or e.reconstructor

/-- The function that builds an object again. -/
def reconstructSymbol (e : Entry H) : Option Symbol :=
  e.reconstruct.map fun number => .function (.host number)

/-- An entry as shown to a reader. -/
def shown (e : Entry H) : String :=
  "RegistryEntry \x7b type_name: " ++ Text.quoted e.type.path ++ ", name: " ++ e.name.shown ++
    ", reconstructor: " ++ shownOption (e.reconstructor.map Name.shown) ++
    ", remote_name: " ++ shownOption (e.remoteName.map Name.shown) ++
    ", remote_reconstructor: " ++ shownOption (e.remoteReconstructor.map Name.shown) ++
    ", reduce: " ++ toString e.reduce.isSome ++ ", reconstruct: " ++ toString e.reconstruct.isSome ++
    ", state: " ++ toString e.state.isSome ++ ", .. \x7d"

end Entry

/-- Host types, names and extension codes. -/
structure Registry (H : Type) where
  /-- Tells the registry, and what it brings along, from other registries. -/
  number : Nat
  entries : List (Entry H) := []
  «namespace» : Namespace := .empty
  /-- Names and their extension codes. -/
  extensions : List (Name × Nat) := []

/-- The module of the synthesized names. -/
def reconstructModule : String := "internal_reconstruct"

/-- The largest extension code. -/
def maxExtensionCode : Nat := 0x7fffffff

namespace Registry

variable {H : Type}

/-- The names that every registry binds. -/
def seeds (number : Nat) : List (Name × Symbol) :=
  let function (f : Builtin) : Symbol := .function (.builtin number f)
  [(⟨"builtins", "object"⟩, .ofClass (.base number)),
   (⟨"builtins", "complex"⟩, function .complex),
   (⟨"builtins", "bytes"⟩, function .bytes),
   (⟨"builtins", "bytearray"⟩, function .bytearray),
   (⟨"builtins", "list"⟩, function .list),
   (⟨"builtins", "tuple"⟩, function .tuple),
   (⟨"builtins", "set"⟩, function .set),
   (⟨"builtins", "frozenset"⟩, function .frozenset),
   (⟨"builtins", "dict"⟩, function .dict),
   (⟨"builtins", "getattr"⟩, function .getattr),
   (⟨"copyreg", "_reconstructor"⟩, function .reconstructor),
   (⟨"copyreg", "__newobj__"⟩, function .newobj),
   (⟨"copyreg", "__newobj_ex__"⟩, function .newobjEx),
   (⟨"_codecs", "encode"⟩, function .encode)]

/-- A registry that holds only what every registry brings along. -/
def seeded (number : Nat) : Registry H where
  number := number
  «namespace» := (seeds number).foldl
    (fun ns (name, symbol) => ns.define name symbol) .empty

/-- The first entry of a type. -/
def find? (r : Registry H) (t : HostType) : Option (Entry H) :=
  r.entries.find? fun e => e.type == t

/-- The first entry with a remote name. -/
def findRemote? (r : Registry H) (name : Name) : Option (Entry H) :=
  r.entries.find? fun e => e.remoteName == some name

/-- Whether an entry has this reconstructor name in the module of the synthesized names. -/
def isTaken (r : Registry H) (qualname : String) : Bool :=
  r.entries.any fun e => e.reconstructor == some ⟨reconstructModule, qualname⟩

/-- The `n`-th name to try: the plain one, and then the plain one with a number. -/
def candidate (base : String) (n : Nat) : String :=
  if n ≤ 1 then base else base ++ "_" ++ toString n

/-- The first name from the `n`-th on that is not taken; at most `fuel` of them are passed over. -/
def freeName (taken : String → Bool) (base : String) : (fuel n : Nat) → String
  | 0, n => candidate base n
  | fuel + 1, n =>
    if taken (candidate base n) then freeName taken base fuel (n + 1) else candidate base n

/-- A reconstructor name for a type that no entry has. Each entry takes at most one name, so one
    more try than there are entries finds a free one. -/
def synthesize (r : Registry H) (t : HostType) : Name :=
  ⟨reconstructModule,
    freeName r.isTaken ("reconstruct_" ++ t.shortName) r.entries.length 1⟩

/-- The declared name of a registration: the one given, or the path of the type. -/
def declaredName (registration : Registration H) : Except RegistryError Name :=
  match registration.name with
  | some n => if n.module = "" ∨ n.qualname = "" then .error .emptyName else .ok n
  | none =>
    .ok ⟨registration.type.modulePath?.getD "builtins", registration.type.shortName⟩

/-- The remote name of a registration. -/
def remoteNameOf (registration : Registration H) : Except RegistryError (Option Name) :=
  match registration.remoteName with
  | none => .ok none
  | some n =>
    if n.module = "" ∧ n.qualname = "" then .error .emptyName
    else if n.module = "" ∨ n.qualname = "" then .error .partialRemoteName
    else .ok (some n)

/-- Registers a host type. A type may be registered more than once; the first entry is the one that
    is found by type. -/
def register (r : Registry H) (registration : Registration H) :
    Except RegistryError (Registry H) := do
  let name ← declaredName registration
  let remoteName ← remoteNameOf registration
  let remoteReconstructor ← registration.remoteReconstructor.mapM Name.ofPath
  let explicit ← registration.reconstructor.mapM Name.ofPath
  let (reconstructor, ns) := match explicit, registration.reconstruct with
    | some path, _ => (some path, r.namespace)
    | none, some number =>
      let path := r.synthesize registration.type
      (some path, r.namespace.define path (.function (.host number)))
    | none, none => (none, r.namespace)
  let entry : Entry H :=
    { type := registration.type, name, reconstructor, remoteName, remoteReconstructor
      reduce := registration.reduce, reconstruct := registration.reconstruct
      state := registration.state }
  .ok { r with entries := r.entries ++ [entry], «namespace» := ns }

/-- Binds a name to a symbol. -/
def define (r : Registry H) (n : Name) (symbol : Symbol) : Registry H :=
  { r with «namespace» := r.namespace.define n symbol }

/-- Makes a name resolve; see `Namespace.inject`. -/
def inject (r : Registry H) (n : Name) (symbol : Symbol) : Symbol × Registry H :=
  let (symbol, ns) := r.namespace.inject n symbol
  (symbol, { r with «namespace» := ns })

/-- Makes a name resolve, with a new class if need be; see `Namespace.injectClass`. -/
def injectClass (r : Registry H) (n : Name) (number : Nat) : Symbol × Registry H :=
  let (symbol, ns) := r.namespace.injectClass n number
  (symbol, { r with «namespace» := ns })

/-- Removes a placeholder; see `Namespace.removePlaceholder`. -/
def removePlaceholder (r : Registry H) (n : Name) : Registry H :=
  { r with «namespace» := r.namespace.removePlaceholder n }

/-- Looks a name up in its module. -/
def resolve (r : Registry H) (n : Name) : Lookup := r.namespace.resolve n

/-- The extension code of a name. -/
def extensionCode? (r : Registry H) (name : Name) : Option Nat :=
  (r.extensions.find? fun e => e.1 == name).map Prod.snd

/-- The name of an extension code. -/
def extension? (r : Registry H) (code : Nat) : Option Name :=
  (r.extensions.find? fun e => e.2 == code).map Prod.fst

/-- Binds an extension code to a name. Binding the same pair again changes nothing. -/
def addExtension (r : Registry H) (name : Name) (code : Nat) :
    Except RegistryError (Registry H) :=
  if code = 0 ∨ maxExtensionCode < code then .error (.badExtensionCode code)
  else match r.extensionCode? name, r.extension? code with
    | some c, some n =>
      if c = code ∧ n = name then .ok r else .error (.extensionConflict code)
    | none, none => .ok { r with extensions := r.extensions ++ [(name, code)] }
    | _, _ => .error (.extensionConflict code)

/-- The module that a global is written with: its own, that of its registered type, one that binds
    its symbol, or else the module of the builtins. -/
def moduleOf (r : Registry H) (g : Global) : String :=
  match g.module with
  | some m => m
  | none =>
    match g.type.bind r.find? with
    | some e => e.name.module
    | none => (g.symbol.bind (r.namespace.moduleOf? g.qualname)).getD "builtins"

/-- What a name of an entry stands for. -/
inductive NameRole where
  | remoteReconstructor
  | type
  | localReconstructor

/-- What a name stands for in an entry. -/
def roleOf? (e : Entry H) (name : Name) : Option NameRole :=
  if e.remoteReconstructor = some name then some .remoteReconstructor
  else if e.remoteName = some name then some .type
  else if e.reconstructor = some name then some .localReconstructor
  else if e.name = name then some .type
  else none

/-- The global that a name of a registered type stands for. The first entry with that name decides.
    The name of a reconstructor stands for a callable, that of a type for the type, which can be
    called if it has a function to build it again. -/
def decodeGlobal? (r : Registry H) (name : Name) : Option Global :=
  let bound := (r.resolve name).symbol?
  let found := r.entries.findSome? fun e => (roleOf? e name).map fun role => (e, role)
  found.map fun (e, role) =>
    let global := Global.named name.module name.qualname
    match role with
    | .remoteReconstructor => { global with symbol := e.reconstructSymbol.or bound }
    | .localReconstructor => { global with symbol := bound.or e.reconstructSymbol }
    | .type => { global with type := some e.type, symbol := e.reconstructSymbol }

/-- A registry as shown to a reader. -/
def shown (r : Registry H) : String :=
  "Registry \x7b entries: [" ++ commaed (r.entries.map Entry.shown) ++ "], extensions: " ++
    toString r.extensions.length ++ ", .. \x7d"

/-- A host that knows only the namespace of this registry. -/
def host (r : Registry H) : Host H where
  namespaceOf number := if number = r.number then some r.namespace else none

end Registry

end ObjectStream
