import ObjectStream.Encoder.Object

/-!
The encoder: writing a value and everything it refers to as one stream.

The graph of values is walked depth first. Each object is written when it is met first and is
fetched from the memo when it is met again. The walk goes no deeper than the configuration allows,
and this bound is what the recursion runs on.
-/

namespace ObjectStream.Encoder

variable {H : Type} [HostObject H]

/-- The id under which a value is stored elsewhere, if the host gives one. -/
def askPersistentId (cfg : Config H) (v : Value) : Encode H (Option Value) := do
  match cfg.persistentId with
  | none => pure none
  | some hook =>
    let store := (← get).store
    modify fun st => { st with store := .empty }
    let (id, store) := hook v store
    modify fun st => { st with store := store }
    pure id

/-- The line that spells a persistent id in protocol 0. -/
def persistentLine? (pid : Value) : Option Bytes :=
  match pid with
  | .str text =>
    if isAscii text && !text.toList.contains '\n' then some (Bytes.ascii text) else none
  | _ => none

/-- A reference to a value that is stored elsewhere. -/
def savePersistentId (cfg : Config H) (savePlain : Value → Encode H Unit) (pid : Value) :
    Encode H Unit := do
  if cfg.protocol.isBinary then
    savePlain pid
    emit .binPersId ()
  else
    match persistentLine? pid with
    | some line => emit .persId line
    | none => fail .persistentIdNotAscii

/-- Writes a value with at most `room` further levels of nesting. Unless it is itself a persistent
    id, the host is asked for one first. -/
def save (cfg : Config H) : (room : Nat) → (persistent : Bool) → Value → Encode H Unit
  | 0, _, _ => fail .recursionLimit
  | room + 1, persistent, v => do
    let depth := (← get).depth
    modify fun st => { st with depth := depth + 1 }
    framed (Frame.Writer.commit false)
    let pid ← if persistent then askPersistentId cfg v else pure none
    match pid with
    | some pid => savePersistentId cfg (save cfg room false) pid
    | none => saveContent cfg (save cfg room true) v
    modify fun st => { st with depth := depth }

/-- Writes one stream with one value. The memo goes on from the streams before. -/
def dump (cfg : Config H) (v : Value) : Encode H Unit := do
  modify fun st => { st with depth := 0 }
  if 2 ≤ cfg.protocol.val then emit .proto (UInt8.ofNat cfg.protocol.val)
  if 4 ≤ cfg.protocol.val then framed Frame.Writer.start
  save cfg cfg.limits.maxDepth true v
  emit .stop ()
  framed Frame.Writer.finish

/-- An encoder that has written nothing. -/
def State.ofSink (store : Store H) (sink : Sink) (trace : Trace) : State H :=
  { store := store, frames := { sink := sink }, trace := trace }

/-- The state after every memoized object is forgotten. -/
def State.clearMemo (st : State H) : State H := { st with memo := ∅ }

/-- An encoder as shown to a reader. -/
def State.shown (st : State H) (cfg : Config H) : String :=
  "Pickler \x7b protocol: " ++ toString cfg.protocol.val ++ ", memo: " ++ toString st.memo.size ++
    ", limits: " ++ cfg.limits.shown ++ ", fix_imports: " ++ toString cfg.fixImports ++
    ", persistent_id: " ++ toString cfg.persistentId.isSome ++ ", tracer: " ++ st.trace.text ++
    ", .. \x7d"

/-- The bytes of one stream with one value, and the store with what was made on the way. -/
def dumps (cfg : Config H) (store : Store H) (v : Value) : Except Error Bytes × Store H :=
  match dump cfg v (State.ofSink store {} {}) with
  | .ok _ st => (.ok st.frames.sink.written.toList, st.store)
  | .error e st => (.error e, st.store)

end ObjectStream.Encoder
