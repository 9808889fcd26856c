import ObjectStream.Decoder.Basic
import ObjectStream.LegacyName

/-!
What instructions do to objects: filling containers, finding globals, calling, and giving state.

Items, entries and members are taken over one after the other, so a failure leaves those before it
in place.
-/

namespace ObjectStream.Decoder

variable {H : Type} [HostObject H] (cfg : Config H)

/-! ## Containers -/

/-- A list with further items. -/
def extended (items : Array Value) : Cell H → Cell H
  | .list former => .list (former ++ items)
  | cell => cell

/-- A set whose members are changed. -/
def withMembers (change : Members → Members) : Cell H → Cell H
  | .set members => .set (change members)
  | cell => cell

/-- Stores one entry in the dictionary or the instance with this number. -/
def storeEntry (id : Nat) (key content : Value) : Decode H Unit := do
  let store := (← get).store
  let image ← keyed (store.image (some id) key)
  let entries := match store.cells[id]? with
    | some cell => cell.entries
    | none => .empty
  match entries.find (HostObject.probing H) image (fun old => store.equalFor (some id) old key) with
  | none => throw .endless
  | some place =>
    modify fun st => { st with
      store := st.store.modify id (Cell.withEntries fun d => d.put place image key content) }

/-- Stores entries in the dictionary or the instance with this number. -/
def storeEntries (id : Nat) : List (Value × Value) → Decode H Unit
  | [] => pure ()
  | (key, content) :: rest => do
    storeEntry id key content
    storeEntries id rest

/-- Adds one member to the set with this number. -/
def addMember (id : Nat) (member : Value) : Decode H Unit := do
  let store := (← get).store
  let image ← keyed (store.image (some id) member)
  let members := match store.cells[id]? with
    | some (.set members) => members
    | _ => .empty
  match members.find (HostObject.probing H) image
      (fun old => store.equalFor (some id) old member) with
  | none => throw .endless
  | some place =>
    if place.isNone then
      modify fun st => { st with
        store := st.store.modify id (withMembers fun m => m.put none image member ()) }

/-- Adds members to the set with this number. -/
def addMembers (id : Nat) : List Value → Decode H Unit
  | [] => pure ()
  | member :: rest => do
    addMember id member
    addMembers id rest

/-! ## Calls -/

/-- What a failed call is named after. -/
def callName (s : Store H) (v : Value) : String :=
  match s.cell? v with
  | some (.global g) => g.module.getD "?" ++ "." ++ g.qualname
  | some (.object content) => (HostObject.type content).shortName
  | some (.inst cls _) => cls.qualname
  | _ => s.typeName v

/-- Goes on with the outcome of a call, which is named after a value. -/
def called {α : Type} (callee : Value) : Except String α → Decode H α
  | .ok a => pure a
  | .error text => do fail (.call (callName (← get).store callee) text)

/-- Carries out a call and reports its beginning and its end. -/
def reported {α : Type} (label : String) (action : Action H α) : Decode H (Except String α) := do
  enterCall label
  let outcome ← hosted action
  exitCall
  pure outcome

/-- Calls a global. -/
def call (op : Opcode) (function : Value) (args : List Value) : Decode H Value := do
  match (← get).store.global? function with
  | none => fail (.wrongType op "callable")
  | some g =>
    match g.symbol with
    | none => called function (.error g.notCallable)
    | some symbol => do
      called function (← reported g.qualname (cfg.host.callSymbol symbol args))

/-- Creates an object. -/
def instantiate (cls : Value) (args : List Value) : Decode H Value := do
  let store := (← get).store
  let label := match store.global? cls with
    | some g => g.qualname
    | none => store.typeName cls
  called cls (← reported label (cfg.host.create cls args))

/-- Whether a value is a global that was resolved to a class. -/
def isClass (s : Store H) (v : Value) : Bool := ((s.global? v).bind Global.class?).isSome

/-- Creates an object if a class is given no arguments, and calls in every other case. -/
def instantiateOrCall (op : Opcode) (cls : Value) (args : List Value) : Decode H Value := do
  if isClass (← get).store cls && args.isEmpty then instantiate cfg cls args
  else call cfg op cls args

/-- The failure of a host object that does not support an instruction. -/
def unsupportedHook (content : H) (op : Opcode) : String :=
  (HostObject.type content).shortName ++ " does not support " ++ op.name

/-- Calls a hook of the host object with this number. -/
def callHook (op : Opcode) (id : Nat) (hook : H → Option (Action H Unit)) : Decode H Unit := do
  match (← get).store.object? (.ref id) with
  | none => pure ()
  | some content =>
    match hook content with
    | some action => do called (.ref id) (← hosted action)
    | none => called (.ref id) (.error (unsupportedHook content op))

/-- Appends items to the top of the stack. -/
def appendItems (op : Opcode) (items : Array Value) : Decode H Unit := do
  let target ← top op
  match target, (← get).store.cell? target with
  | .ref id, some (.list _) =>
    modify fun st => { st with store := st.store.modify id (extended items) }
  | .ref id, some (.object _) =>
    items.toList.forM fun item => callHook op id fun content => HostObject.append id content item
  | _, _ => fail (.wrongType op "list")

/-- Stores entries in the top of the stack. -/
def setItems (op : Opcode) (entries : List (Value × Value)) : Decode H Unit := do
  let target ← top op
  match target, (← get).store.cell? target with
  | .ref id, some (.dict _) => storeEntries id entries
  | .ref id, some (.object _) =>
    entries.forM fun (key, content) =>
      callHook op id fun self => HostObject.setItem id self key content
  | _, _ => fail (.wrongType op "dict")

/-- Adds members to the set on top of the stack. -/
def addItems (op : Opcode) (members : List Value) : Decode H Unit := do
  let target ← top op
  match target, (← get).store.cell? target with
  | .ref id, some (.set _) => addMembers id members
  | _, _ => fail (.wrongType op "set")

/-! ## Globals -/

/-- The global that a name of the stream stands for. -/
def findGlobal (module qualname : String) : Decode H Value := do
  let (module, qualname) :=
    if (← get).protocol < 3 && cfg.fixImports then LegacyName.toCurrent module qualname
    else (module, qualname)
  match cfg.registry.decodeGlobal? ⟨module, qualname⟩ with
  | some g => alloc (.global g)
  | none =>
    match cfg.registry.resolve ⟨module, qualname⟩ with
    | .found symbol =>
      alloc (.global { Global.named module qualname with symbol := some symbol })
    | .missingModule => fail (.unresolvedGlobal module qualname .module)
    | .missingAttribute => fail (.unresolvedGlobal module qualname .attribute)

/-- Pushes the global of an extension code. -/
def pushExtension (op : Opcode) (code : Nat) : Decode H Unit := do
  if code = 0 then fail (.badLiteral op)
  match cfg.registry.extension? code with
  | none => fail (.unregisteredExtension code)
  | some name => do push cfg (← findGlobal cfg name.module name.qualname)

/-- The value that is stored elsewhere under an id. -/
def persistentLoad (pid : Value) : Decode H Value := do
  match cfg.persistentLoad with
  | none => fail .noPersistentLoad
  | some hook =>
    match ← hosted (hook pid) with
    | .ok v => pure v
    | .error text => fail (.call "persistent_load" text)

/-! ## State -/

/-- Takes the entries of a state over into the attributes of an instance. -/
def mergeState (op : Opcode) (id : Nat) (state : Value) : Decode H Unit := do
  match state, (← get).store.dict? state with
  | .none, _ => pure ()
  | _, some d => storeEntries id d.entries.toList
  | _, none => fail (.wrongType op "dict")

/-- Gives state to an instance. A pair holds two states, one taken over after the other. -/
def buildInstance (op : Opcode) (id : Nat) (c : Class) (state : Value) : Decode H Unit := do
  match (cfg.host.hooks c.key).setState with
  | some setState => do
    called (.ref id) (← reported c.qualname (setState id state))
  | none =>
    match (← get).store.tuple? state with
    | some [first, second] =>
      mergeState op id first
      mergeState op id second
    | _ => mergeState op id state

/-- Gives state to a host object, and says what takes its place if anything does. The hook of its
    registration goes before its own. -/
def stateAction (op : Opcode) (id : Nat) (content : H) (state : Value) :
    Action H (Option Value) :=
  match (cfg.registry.find? (HostObject.type content)).bind Entry.state with
  | some (.inPlace apply) => do
    apply id content state
    pure none
  | some (.replace apply) => some <$> apply id content state
  | none =>
    match HostObject.setState id content state with
    | some action => do
      action
      pure none
    | none => .fail (unsupportedHook content op)

/-- Gives state to a host object. A value that takes its place also does so in the memo. -/
def buildObject (op : Opcode) (id : Nat) (content : H) (state : Value) : Decode H Unit := do
  let outcome ←
    reported (HostObject.type content).shortName (stateAction cfg op id content state)
  match ← called (.ref id) outcome with
  | none => pure ()
  | some replacement =>
    replaceMemo id replacement
    replaceTop op replacement

/-- Gives state to the top of the stack. -/
def build (op : Opcode) (state : Value) : Decode H Unit := do
  let target ← top op
  match target, (← get).store.cell? target with
  | .ref id, some (.object content) => buildObject cfg op id content state
  | .ref id, some (.inst c _) => buildInstance cfg op id c state
  | _, _ => fail (.wrongType op "object with settable state")

end ObjectStream.Decoder
