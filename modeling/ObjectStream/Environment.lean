import ObjectStream.Decoder
import ObjectStream.Encoder

/-!
Environments: what the numbers in values stand for.

An environment holds the objects, the registries, the functions of the host and the hooks of the
classes, each at the place of its number. Registries and classes also go by names. Coding runs in an
environment: it finds the registry as it is at that time, leaves the objects it makes, and reports
the events of one run.
-/

namespace ObjectStream

/-- Objects, registries, functions and class hooks by number. -/
structure Environment (H : Type) where
  store : Store H := .empty
  registries : Array (Registry H) := #[]
  functions : Array (List Value → Action H Value) := #[]
  hooks : Array (ClassHooks H) := #[]
  /-- The numbers of the registries that go by names. -/
  names : List (String × Nat) := []
  /-- The classes that go by names. -/
  classes : Std.HashMap Name Class := ∅

namespace Environment

variable {H : Type}

/-- The registry with this number. -/
def registry (e : Environment H) (number : Nat) : Registry H :=
  e.registries.getD number (.seeded number)

/-- Makes a registry. -/
def addRegistry (e : Environment H) : Registry H × Environment H :=
  let r := .seeded e.registries.size
  (r, { e with registries := e.registries.push r })

/-- The registry that goes by a name; it is made when it is first asked for. -/
def registryNamed (e : Environment H) (name : String) : Registry H × Environment H :=
  match e.names.lookup name with
  | some number => (e.registry number, e)
  | none =>
    let (r, e) := e.addRegistry
    (r, { e with names := (name, r.number) :: e.names })

/-- Puts a changed registry in the place of the former one. -/
def setRegistry (e : Environment H) (r : Registry H) : Environment H :=
  { e with registries := e.registries.setIfInBounds r.number r }

/-- Makes a function of the host, and hands back its number. -/
def addFunction (e : Environment H) (f : List Value → Action H Value) : Nat × Environment H :=
  (e.functions.size, { e with functions := e.functions.push f })

/-- Makes a class. -/
def addClass (e : Environment H) (n : Name) (hooks : ClassHooks H) : Class × Environment H :=
  (⟨.declared e.hooks.size, n.module, n.qualname⟩, { e with hooks := e.hooks.push hooks })

/-- Lets a class go by its name. -/
def nameClass (e : Environment H) (c : Class) : Environment H :=
  { e with classes := e.classes.insert ⟨c.module, c.qualname⟩ c }

/-- The class that goes by a name; it is made without hooks when it is first asked for. -/
def classNamed (e : Environment H) (n : Name) : Class × Environment H :=
  match e.classes[n]? with
  | some c => (c, e)
  | none =>
    let (c, e) := e.addClass n {}
    (c, e.nameClass c)

/-- The hooks of a class; the base class of a registry has none. -/
def hooksOf (hooks : Array (ClassHooks H)) : ClassKey → ClassHooks H
  | .declared number => hooks.getD number {}
  | .base _ => {}

/-- The behaviour behind the numbers. -/
def host (e : Environment H) : Host H :=
  let functions := e.functions
  let hooks := e.hooks
  let namespaces := e.registries.map Registry.namespace
  { call := fun number args =>
      match functions[number]? with
      | some f => f args
      | none => .fail "unknown function"
    hooks := hooksOf hooks
    namespaceOf := fun number => namespaces[number]? }

/-- Lets an action work on the objects. -/
def act {α : Type} (e : Environment H) (action : Action H α) :
    Except CallError α × Environment H :=
  let store := e.store
  let e := { e with store := .empty }
  match action store with
  | .ok a store => (.ok a, { e with store := store })
  | .error cause store => (.error cause, { e with store := store })

/-- Makes a new object. -/
def alloc (e : Environment H) (cell : Cell H) : Value × Environment H :=
  (.ref e.store.size, { e with store := e.store.push cell })

variable [HostObject H]

/-- Calls a symbol. -/
def call (e : Environment H) (symbol : Symbol) (args : List Value) :
    Except CallError Value × Environment H :=
  let host := e.host
  e.act (host.callSymbol symbol args)

/-- The configuration with its registry as it is now. -/
def encoder (e : Environment H) (cfg : Encoder.Config H) : Encoder.Config H :=
  { cfg with registry := e.registry cfg.registry.number, host := e.host }

/-- The configuration with its registry as it is now. -/
def decoder (e : Environment H) (cfg : Decoder.Config H) : Decoder.Config H :=
  { cfg with registry := e.registry cfg.registry.number, host := e.host }

/-- Writes one stream, and hands back the encoder without its objects. -/
def encode (e : Environment H) (cfg : Encoder.Config H) (st : Encoder.State H) (v : Value) :
    (Option Error × Encoder.State H) × Environment H :=
  let cfg := e.encoder cfg
  let store := e.store
  let e := { e with store := .empty }
  match Encoder.dump cfg v { st with store := store, trace := st.trace.restarted } with
  | .ok _ st => ((none, { st with store := .empty }), { e with store := st.store })
  | .error cause st => ((some cause, { st with store := .empty }), { e with store := st.store })

/-- Reads one stream, and hands back the decoder without its objects. -/
def decode (e : Environment H) (cfg : Decoder.Config H) (st : Decoder.State H) :
    (Except Error Value × Decoder.State H) × Environment H :=
  let cfg := e.decoder cfg
  let store := e.store
  let e := { e with store := .empty }
  match Decoder.load cfg { st with store := store, trace := st.trace.restarted } with
  | .ok v st => ((.ok v, { st with store := .empty }), { e with store := st.store })
  | .error cause st => ((.error cause, { st with store := .empty }), { e with store := st.store })

/-- The bytes of one stream with one value. -/
def dumps (e : Environment H) (r : Registry H) (protocol : Protocol) (v : Value) :
    Except Error Bytes × Environment H :=
  let cfg : Encoder.Config H := { registry := r, host := e.host, protocol := protocol }
  let store := e.store
  let e := { e with store := .empty }
  let (outcome, store) := Encoder.dumps cfg store v
  (outcome, { e with store := store })

/-- The value of a byte string that holds a stream. -/
def loads (e : Environment H) (r : Registry H) (bs : Bytes) : Except Error Value × Environment H :=
  let cfg : Decoder.Config H := { registry := r, host := e.host }
  let store := e.store
  let e := { e with store := .empty }
  let (outcome, store) := Decoder.loads cfg store bs
  (outcome, { e with store := store })

end Environment

end ObjectStream
