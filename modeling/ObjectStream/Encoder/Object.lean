import ObjectStream.Encoder.Atom
import ObjectStream.LegacyName
import ObjectStream.Reduction

/-!
How objects are written.

Each function writes one kind of object and takes `save`, which writes the values inside it. An
object gets its memo id as soon as the reader has it, which for containers that can change is before
their contents: so an object that contains itself is written once. A tuple or a frozen set can meet
itself only while its contents are written; then the contents are dropped again and the finished
object is fetched.
-/

namespace ObjectStream.Encoder

variable {H : Type} [HostObject H] (cfg : Config H) (save : Value → Encode H Unit)

/-- Writes values one after the other. -/
def saveAll : List Value → Encode H Unit
  | [] => pure ()
  | v :: rest => do
    save v
    saveAll rest

/-- Writes keys and contents one after the other. -/
def saveEntries : List (Value × Value) → Encode H Unit
  | [] => pure ()
  | (key, content) :: rest => do
    save key
    save content
    saveEntries rest

/-- Cuts a list into pieces of the batch size and a shorter last one, which may be empty. -/
def batches {α : Type} (items : List α) : List (List α) :=
  if items.length < batchSize then [items]
  else items.take batchSize :: batches (items.drop batchSize)
termination_by items.length
decreasing_by
  simp only [batchSize, List.length_drop] at *
  omega

/-- Appends items to the object on the stack, one after the other. -/
def appendEach : List Value → Encode H Unit
  | [] => pure ()
  | v :: rest => do
    save v
    emit .append ()
    appendEach rest

/-- Appends one batch of items. -/
def appendBatch (items : List Value) : Encode H Unit :=
  match items with
  | [] => pure ()
  | [v] => do
    save v
    emit .append ()
  | items => do
    emit .mark ()
    saveAll save items
    emit .appends ()

/-- Appends items to the object on the stack. -/
def appendItems (items : List Value) : Encode H Unit :=
  if cfg.protocol.isBinary then (batches items).forM (appendBatch save)
  else appendEach save items

/-- Stores entries in the object on the stack, one after the other. -/
def storeEach : List (Value × Value) → Encode H Unit
  | [] => pure ()
  | (key, content) :: rest => do
    save key
    save content
    emit .setItem ()
    storeEach rest

/-- Stores one batch of entries. -/
def storeBatch (entries : List (Value × Value)) : Encode H Unit :=
  match entries with
  | [] => pure ()
  | [(key, content)] => do
    save key
    save content
    emit .setItem ()
  | entries => do
    emit .mark ()
    saveEntries save entries
    emit .setItems ()

/-- Stores entries in the object on the stack. -/
def storeEntries (entries : List (Value × Value)) : Encode H Unit :=
  if cfg.protocol.isBinary then (batches entries).forM (storeBatch save)
  else storeEach save entries

/-- Adds one batch of members to the set on the stack. -/
def addBatch (members : List Value) : Encode H Unit :=
  match members with
  | [] => pure ()
  | members => do
    emit .mark ()
    saveAll save members
    emit .addItems ()

/-! ## Globals -/

/-- The name a global is written under. A symbol has to be what the name leads to. -/
def wireName (g : Global) : Except EncodeError Name :=
  let module := cfg.registry.moduleOf g
  match g.type with
  | some t =>
    match cfg.registry.find? t with
    | some e => .ok e.typeWireName
    | none => .error (.unresolvableGlobal module g.qualname)
  | none =>
    let name : Name := ⟨module, g.qualname⟩
    match g.symbol with
    | none => .ok name
    | some symbol =>
      let found := match cfg.registry.resolve ⟨module, g.qualname⟩ with
        | .found other => other.same symbol
        | _ => false
      if found || (cfg.registry.decodeGlobal? name).isSome then .ok name
      else .error (.unresolvableGlobal module g.qualname)

/-- Whether a text holds only ASCII characters. -/
def isAscii (text : String) : Bool := text.toList.all fun c => c.toNat < 0x80

/-- The reference to an extension code. -/
def emitExtension (code : Nat) : Encode H Unit :=
  if code < 2 ^ 8 then emit .ext1 (UInt8.ofNat code)
  else if code < 2 ^ 16 then emit .ext2 (UInt16.ofNat code)
  else emit .ext4 (Int32.ofNat code)

/-- The two lines of a global. The first three protocols have only ASCII names. -/
def emitGlobalLines (name : Name) : Encode H Unit :=
  let (module, qualname) :=
    if cfg.protocol.val < 3 && cfg.fixImports then LegacyName.toLegacy name.module name.qualname
    else (name.module, name.qualname)
  if cfg.protocol.val < 3 && !(isAscii module && isAscii qualname) then
    fail (.nonAsciiGlobal qualname)
  else emit .global (Text.utf8 module, Text.utf8 qualname)

/-- Writes a name, and says whether it gets a memo id. -/
def writeGlobal (name : Name) : Encode H Bool := do
  let code := if 2 ≤ cfg.protocol.val then cfg.registry.extensionCode? name else none
  match code with
  | some code =>
    emitExtension code
    pure false
  | none =>
    if 4 ≤ cfg.protocol.val then
      saveText cfg.protocol name.module
      saveText cfg.protocol name.qualname
      emit .stackGlobal ()
    else
      match dottedSplits name.qualname with
      | (parent, last) :: _ =>
        let owner ← allocNamed name.module parent
        let args ← allocTuple [owner, .str last]
        save (← allocNamed "builtins" "getattr")
        save args
        emit .reduce ()
      | [] => emitGlobalLines cfg name
    pure true

/-- Writes a global. -/
def saveGlobal (v : Value) (g : Global) : Encode H Unit :=
  match wireName cfg g with
  | .error e => fail e
  | .ok name => do
    if ← writeGlobal cfg save name then memoize cfg.protocol v

/-- Writes the class of an instance. -/
def saveClass (c : Class) : Encode H Unit := do
  match ← memoized (.ofClass c.key) with
  | some id => emitGet cfg.protocol id
  | none =>
    match wireName cfg (.ofClass c) with
    | .error e => fail e
    | .ok name =>
      if ← writeGlobal cfg save name then memoizeAs cfg.protocol (.ofClass c.key)

/-! ## Reductions -/

/-- A global of a host type in the place of a callable names the function that builds the type. -/
def reconstructorOf (g : Global) : Option Name :=
  (g.type.bind cfg.registry.find?).bind Entry.callableWireName

/-- Refuses a value that is no global where a class is expected. -/
def checkClass (v : Value) : Encode H Unit := do
  if ((← get).store.global? v).isNone then fail .newObjectArguments

/-- The number of keyword arguments, if the value holds keyword arguments. -/
def keywordCount? (s : Store H) (v : Value) : Option Nat :=
  match v with
  | .none => some 0
  | _ => (s.dict? v).map Keyed.size

/-- Writes the creation of an object with keyword arguments. Only from protocol 4 on they can be
    written if there are any. -/
def saveNewObjectEx (args : List Value) : Encode H Unit := do
  match args with
  | [cls, positional, keywords] =>
    checkClass cls
    let store := (← get).store
    match store.tuple? positional, keywordCount? store keywords with
    | some _, some count =>
      save cls
      save positional
      if 4 ≤ cfg.protocol.val then
        save keywords
        emit .newObjEx ()
      else if count = 0 then emit .newObj ()
      else fail .newObjectArguments
    | _, _ => fail .newObjectArguments
  | _ => fail .newObjectArguments

/-- Writes the creation of an object with positional arguments. -/
def saveNewObject (args : List Value) : Encode H Unit := do
  match args with
  | cls :: positional =>
    checkClass cls
    save cls
    save (← allocTuple positional)
    emit .newObj ()
  | [] => fail .newObjectArguments

/-- Writes the call of a reduction. -/
def saveCall (callable : Value) (g : Global) (args : Value) (items : List Value) :
    Encode H Unit := do
  if 2 ≤ cfg.protocol.val && g.qualname == "__newobj_ex__" then saveNewObjectEx cfg save items
  else if 2 ≤ cfg.protocol.val && g.qualname == "__newobj__" then saveNewObject save items
  else
    match reconstructorOf cfg g with
    | some name => save (← allocNamed name.module name.qualname)
    | none => save callable
    save args
    emit .reduce ()

/-- Gives the built object its memo id. If its arguments have written the object already, the copy
    is dropped and the earlier one fetched. -/
def memoizeBuilt (v : Value) : Encode H Unit := do
  match ← memoizedValue v with
  | some id =>
    emit .pop ()
    emitGet cfg.protocol id
  | none => memoize cfg.protocol v

/-- Writes the state that the built object is given. -/
def saveState (obj : Option Value) (state : Value) (setter : Option Value) : Encode H Unit := do
  match setter with
  | none =>
    save state
    emit .build ()
  | some setter =>
    save setter
    save (obj.getD .none)
    save state
    emit .tuple2 ()
    emit .reduce ()
    emit .pop ()

/-- Writes a reduction: the call, then items, entries and state for the result. -/
def saveReduction (r : Reduction) (obj : Option Value) : Encode H Unit := do
  let store := (← get).store
  match store.global? r.callable, store.tuple? r.args with
  | none, _ => fail .callableNotGlobal
  | _, none => fail .argumentsNotTuple
  | some g, some items =>
    saveCall cfg save r.callable g r.args items
    match obj with
    | some v => memoizeBuilt cfg v
    | none => pure ()
    match r.listItems with
    | some items => appendItems cfg save items
    | none => pure ()
    match r.dictItems with
    | some entries => storeEntries cfg save entries
    | none => pure ()
    match r.state with
    | some state => saveState save obj state r.stateSetter
    | none => pure ()

/-- Writes the call of a global with the arguments. -/
def saveNamedCall (module qualname : String) (args : List Value) (obj : Option Value) :
    Encode H Unit := do
  let callable ← allocNamed module qualname
  let args ← allocTuple args
  saveReduction cfg save { callable, args } obj

/-! ## Kinds of objects -/

/-- A byte string; the first three protocols spell it as an encoded text. -/
def saveBytes (bytes : Bytes) : Encode H Unit :=
  if 3 ≤ cfg.protocol.val then saveBinary cfg.protocol bytes
  else if bytes.isEmpty then saveNamedCall cfg save "builtins" "bytes" [] none
  else saveNamedCall cfg save "_codecs" "encode"
    [.str (Encoding.ofLatin1 bytes), .str "latin1"] none

/-- A byte array. -/
def saveByteArray (v : Value) (data : Bytes) : Encode H Unit := do
  if 5 ≤ cfg.protocol.val then
    emitPayload .byteArray8 data
    memoize cfg.protocol v
  else
    let args := if data.isEmpty then [] else [Value.bytes data]
    saveNamedCall cfg save "builtins" "bytearray" args (some v)

/-- A list. -/
def saveList (v : Value) (items : List Value) : Encode H Unit := do
  if cfg.protocol.isBinary then emit .emptyList ()
  else
    emit .mark ()
    emit .list ()
  memoize cfg.protocol v
  appendItems cfg save items

/-- The empty tuple. -/
def saveEmptyTuple : Encode H Unit := do
  if cfg.protocol.isBinary then emit .emptyTuple ()
  else
    emit .mark ()
    emit .tuple ()

/-- The instruction that makes a short tuple. -/
def emitShortTuple (length : Nat) : Encode H Unit :=
  match length with
  | 1 => emit .tuple1 ()
  | 2 => emit .tuple2 ()
  | _ => emit .tuple3 ()

/-- A tuple with at least one item. -/
def saveTuple (v : Value) (items : List Value) : Encode H Unit := do
  if items.length ≤ 3 && 2 ≤ cfg.protocol.val then
    saveAll save items
    match ← memoizedValue v with
    | some id =>
      emitTimes items.length .pop ()
      emitGet cfg.protocol id
    | none =>
      emitShortTuple items.length
      memoize cfg.protocol v
  else
    emit .mark ()
    saveAll save items
    match ← memoizedValue v with
    | some id =>
      if cfg.protocol.isBinary then emit .popMark ()
      else emitTimes (items.length + 1) .pop ()
      emitGet cfg.protocol id
    | none =>
      emit .tuple ()
      memoize cfg.protocol v

/-- A dictionary. -/
def saveDict (v : Value) (entries : List (Value × Value)) : Encode H Unit := do
  if cfg.protocol.isBinary then emit .emptyDict ()
  else
    emit .mark ()
    emit .dict ()
  memoize cfg.protocol v
  storeEntries cfg save entries

/-- A set; the protocols before 4 spell it as a call with a list. -/
def saveSet (v : Value) (members : List Value) : Encode H Unit := do
  if 4 ≤ cfg.protocol.val then
    emit .emptySet ()
    memoize cfg.protocol v
    (batches members).forM (addBatch save)
  else
    let items ← alloc (.list members.toArray)
    saveNamedCall cfg save "builtins" "set" [items] (some v)

/-- A frozen set; the protocols before 4 spell it as a call with a list. -/
def saveFrozenSet (v : Value) (members : List Value) : Encode H Unit := do
  if 4 ≤ cfg.protocol.val then
    emit .mark ()
    saveAll save members
    match ← memoizedValue v with
    | some id =>
      emit .popMark ()
      emitGet cfg.protocol id
    | none =>
      emit .frozenSet ()
      memoize cfg.protocol v
  else
    let items ← alloc (.list members.toArray)
    saveNamedCall cfg save "builtins" "frozenset" [items] (some v)

/-- The state that is written for an instance: what its class says, or else its attributes. -/
def instanceState (id : Nat) (c : Class) (attributes : Dict) : Encode H (Option Value) := do
  match (cfg.host.hooks c.key).getState with
  | some getState =>
    let store := (← get).store
    modify fun st => { st with store := .empty }
    let (state, store) := getState id store
    modify fun st => { st with store := store }
    pure (if state = .none then none else some state)
  | none =>
    if attributes.size = 0 then pure none
    else
      let state ← alloc (.dict attributes)
      pure (some state)

/-- The creation of an instance without attributes. -/
def saveNewInstance (c : Class) : Encode H Unit := do
  if 2 ≤ cfg.protocol.val then
    saveClass cfg save c
    save .emptyTuple
    emit .newObj ()
  else
    save (← allocNamed "copyreg" "_reconstructor")
    emit .mark ()
    saveClass cfg save c
    save (← allocNamed "builtins" "object")
    emit .none ()
    emit .tuple ()
    emit .reduce ()

/-- An instance. -/
def saveInstance (id : Nat) (c : Class) (attributes : Dict) : Encode H Unit := do
  let state ← instanceState cfg id c attributes
  saveNewInstance cfg save c
  memoize cfg.protocol (.ref id)
  match state with
  | some state =>
    save state
    emit .build ()
  | none => pure ()

/-- The hook that describes a host object: that of its registration before its own. -/
def reduceHook (id : Nat) (content : H) : Option (Action H Reduction) :=
  match (cfg.registry.find? (HostObject.type content)).bind Entry.reduce with
  | some reduce => some (reduce id content cfg.protocol)
  | none => HostObject.reduce id content cfg.protocol

/-- Asks the host how an object is built again. -/
def describe (id : Nat) (content : H) : Encode H Reduction := do
  let label := (HostObject.type content).shortName
  modify fun st => { st with trace := st.trace.enter .reduce label st.offset }
  let described ← match reduceHook cfg id content with
    | some action => do pure (some (← hosted action))
    | none => pure none
  modify fun st => { st with trace := st.trace.exit .reduce st.offset }
  match described with
  | some (.ok r) => pure r
  | some (.error text) => fail (.reduce label text)
  | none => fail (.unsupported label)

/-- A host object. -/
def saveHostObject (id : Nat) (content : H) : Encode H Unit := do
  let r ← describe cfg id content
  saveReduction cfg save r (some (.ref id))

/-- An object that is met for the first time. -/
def saveCell (id : Nat) : Cell H → Encode H Unit
  | .bytearray data => saveByteArray cfg save (.ref id) data
  | .list items => saveList cfg save (.ref id) items.toList
  | .tuple items => saveTuple cfg save (.ref id) items
  | .dict entries => saveDict cfg save (.ref id) entries.entries.toList
  | .set members => saveSet cfg save (.ref id) members.keys
  | .frozenset members => saveFrozenSet cfg save (.ref id) members.keys
  | .global g => saveGlobal cfg save (.ref id) g
  | .inst c attributes => saveInstance cfg save id c attributes
  | .object content => saveHostObject cfg save id content

/-- An object: a reference to its memo id if it has one. -/
def saveObject (id : Nat) : Encode H Unit := do
  match ← memoized (.object id) with
  | some memoId => emitGet cfg.protocol memoId
  | none =>
    match (← get).store.cells[id]? with
    | some cell => saveCell cfg save id cell
    | none => fail (.unsupported "unknown")

/-- A value that is written out. -/
def saveContent (v : Value) : Encode H Unit :=
  match v with
  | .none => emit .none ()
  | .bool b => saveBool cfg.protocol b
  | .int n => saveWord cfg.protocol n
  | .long n => saveLong cfg.protocol n
  | .float x => saveFloat cfg.protocol x
  | .complex re im =>
    saveNamedCall cfg save "builtins" "complex" [.float re, .float im] none
  | .str text => saveText cfg.protocol text
  | .bytes bytes => saveBytes cfg save bytes
  | .emptyTuple => saveEmptyTuple cfg
  | .ref id => saveObject cfg save id

end ObjectStream.Encoder
