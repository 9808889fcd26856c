import ObjectStream.Encoder
import ObjectStream.Proofs.Action
import ObjectStream.Proofs.Operands
import ObjectStream.Proofs.Orders

/-!
Limits are guards.

Coding looks at its limits in five places: before a value is pushed, a memo entry is made, a counted
operand is read, a frame is loaded, and a nested value is written. Two runs that differ in their
limits alone do the same until the tighter ones stop one of them (`Guarded`): there is one lemma for
each function that looks at a limit or calls one that does (`Guarded.execute`,
`Guarded.saveContent`), and `Guarded.run`, `Guarded.save` carry them through whole runs. So looser
limits change neither what is read nor what is written (`looser_limits_agree`).
-/

namespace ObjectStream

/-- The first action does what the second one does, unless it stops for one of these causes. -/
def Guarded {ε σ α : Type} (stop : ε → Prop) (x y : EStateM ε σ α) : Prop :=
  ∀ s, (∃ e s', x s = .error e s' ∧ stop e) ∨ y s = x s

namespace Guarded

variable {ε σ α β : Type} {stop : ε → Prop} {x y : EStateM ε σ α}

theorem refl (x : EStateM ε σ α) : Guarded stop x x := fun _ => .inr rfl

theorem stops {e : ε} (h : stop e) : Guarded stop (throw e) y := fun s => .inl ⟨e, s, rfl, h⟩

theorem eq_ok {s s' : σ} {a : α} (h : Guarded stop x y) (run : x s = .ok a s') : y s = .ok a s' := by
  obtain ⟨e, s'', fails, _⟩ | same := h s
  · rw [run] at fails
    cases fails
  · rw [same, run]

theorem eq_error {s s' : σ} {e : ε} (h : Guarded stop x y) (run : x s = .error e s')
    (other : ¬stop e) : y s = .error e s' := by
  obtain ⟨e', s'', fails, stopped⟩ | same := h s
  · rw [run] at fails
    cases fails
    exact absurd stopped other
  · rw [same, run]

theorem bind {f g : α → EStateM ε σ β} (h : Guarded stop x y) (h' : ∀ a, Guarded stop (f a) (g a)) :
    Guarded stop (x >>= f) (y >>= g) := by
  intro s
  simp only [bind_apply]
  obtain ⟨e, s', fails, stopped⟩ | same := h s
  · left
    exact ⟨e, s', by rw [fails], stopped⟩
  · rw [same]
    cases x s with
    | error e s' => exact .inr rfl
    | ok a s' => exact h' a s'

/-- The first part of a sequence is the same on both sides. -/
theorem next {f g : α → EStateM ε σ β} (h : ∀ a, Guarded stop (f a) (g a)) :
    Guarded stop (x >>= f) (x >>= g) :=
  bind (refl x) h

theorem ite {c : Prop} [Decidable c] {x' y' : EStateM ε σ α} (h : Guarded stop x y)
    (h' : Guarded stop x' y') : Guarded stop (if c then x else x') (if c then y else y') := by
  split
  · exact h
  · exact h'

/-- The guard of the second side lets through whatever that of the first side does. -/
theorem guard {c d : Prop} [Decidable c] [Decidable d] {e : ε} {f g : Unit → EStateM ε σ α}
    (looser : d → c) (h : stop e) (h' : Guarded stop (f ()) (g ())) :
    Guarded stop (if c then throw e >>= f else f ()) (if d then throw e >>= g else g ()) := by
  by_cases hit : c
  · intro s
    left
    exact ⟨e, s, by rw [if_pos hit]; rfl, h⟩
  · rwa [if_neg hit, if_neg fun hit' => hit (looser hit')]

theorem forM {γ : Type} {items : List γ} {f g : γ → EStateM ε σ PUnit}
    (h : ∀ item, Guarded stop (f item) (g item)) : Guarded stop (items.forM f) (items.forM g) := by
  induction items with
  | nil => exact refl _
  | cons item rest ih => exact bind (h item) fun _ => ih

theorem optional {γ : Type} {o : Option γ} {f g : γ → EStateM ε σ PUnit}
    (h : ∀ c, Guarded stop (f c) (g c)) : Guarded stop (o.forM f) (o.forM g) := by
  cases o with
  | none => exact refl _
  | some c => exact h c

end Guarded

/-- Every limit is at least as loose. -/
instance : LE Limits where
  le tight loose := tight.maxDepth ≤ loose.maxDepth ∧ tight.maxStack ≤ loose.maxStack ∧
    tight.maxMemo ≤ loose.maxMemo ∧ tight.maxFrameLength ≤ loose.maxFrameLength

namespace Limits

instance (tight loose : Limits) : Decidable (tight ≤ loose) :=
  inferInstanceAs (Decidable (_ ∧ _ ∧ _ ∧ _))

variable {tight loose : Limits} (le : tight ≤ loose)
include le

theorem maxDepth_le : tight.maxDepth ≤ loose.maxDepth := le.1

theorem maxStack_le : tight.maxStack ≤ loose.maxStack := le.2.1

theorem maxMemo_le : tight.maxMemo ≤ loose.maxMemo := le.2.2.1

theorem maxFrameLength_le : tight.maxFrameLength ≤ loose.maxFrameLength := le.2.2.2

end Limits

namespace Decoder

variable {H : Type}

/-- The configuration with other limits. -/
abbrev Config.within (cfg : Config H) (limits : Limits) : Config H := { cfg with limits := limits }

/-- Reading has hit one of the limits. -/
def LimitHit (e : Error) : Prop := ∃ bound, e = .decode (.limitExceeded bound)

end Decoder

namespace Guarded

open Decoder

section
variable {H α : Type} {cfg : Decoder.Config H} {loose : Limits} (le : cfg.limits ≤ loose)
include le

/-! ## Reading -/

theorem push (v : Value) : Guarded LimitHit (push cfg v) (push (cfg.within loose) v) :=
  next fun _ => guard (Nat.le_trans (Limits.maxStack_le le)) ⟨_, rfl⟩ (refl _)

/-- A value that was computed in the same way is pushed. -/
theorem pushed (x : Decode H Value) :
    Guarded LimitHit (x >>= Decoder.push cfg) (x >>= Decoder.push (cfg.within loose)) :=
  next fun v => push le v

theorem pushNew (cell : Cell H) :
    Guarded LimitHit (pushNew cfg cell) (pushNew (cfg.within loose) cell) :=
  pushed le (alloc cell)

theorem pushShortTuple (op : Opcode) (length : Nat) : Guarded LimitHit
    (pushShortTuple cfg op length) (pushShortTuple (cfg.within loose) op length) :=
  next fun items => pushed le (allocTuple items)

theorem fetchMemo (id : Nat) :
    Guarded LimitHit (fetchMemo cfg id) (fetchMemo (cfg.within loose) id) := by
  refine next fun st => ?_
  cases st.memo[id]? with
  | none => exact refl _
  | some v => exact push le v

theorem putMemo (op : Opcode) (id : Nat) :
    Guarded LimitHit (putMemo cfg op id) (putMemo (cfg.within loose) op id) := by
  refine next fun v => next fun st => guard ?_ ⟨_, rfl⟩ (refl _)
  simp only [Bool.and_eq_true, decide_eq_true_eq]
  rintro ⟨new, full⟩
  exact ⟨new, Nat.le_trans (Limits.maxMemo_le le) full⟩

theorem pushExtension (op : Opcode) (code : Nat) :
    Guarded LimitHit (pushExtension cfg op code) (pushExtension (cfg.within loose) op code) := by
  refine ite (refl _) ?_
  cases found : cfg.registry.extension? code with
  | none => exact refl _
  | some name => exact pushed le _

theorem pushSignedExtension (code : Int32) :
    Guarded LimitHit (pushSignedExtension cfg code)
      (pushSignedExtension (cfg.within loose) code) := by
  unfold Decoder.pushSignedExtension
  exact ite (refl _) (pushExtension le _ _)

/-- A frame that is loaded under the tighter limit is loaded under the looser one. -/
theorem openFrame (length : Nat) :
    Guarded LimitHit (openFrame cfg length) (openFrame (cfg.within loose) length) := by
  unfold Decoder.openFrame
  refine guard ?_ ⟨.frameLength, rfl⟩ (refl _)
  exact Nat.lt_of_le_of_lt (Limits.maxFrameLength_le le)

/-- A counted payload behind its count. -/
theorem payload (op : Opcode) (count : Nat) : Guarded LimitHit
    (answer (H := H) op
      (if cfg.limits.maxFrameLength < count then .fail (.limitExceeded .operandLength)
      else .take count .done))
    (answer op
      (if loose.maxFrameLength < count then .fail (.limitExceeded .operandLength)
      else .take count .done)) := by
  by_cases long : cfg.limits.maxFrameLength < count
  · rw [if_pos long]
    exact stops ⟨.operandLength, rfl⟩
  · have short : ¬loose.maxFrameLength < count := fun long' =>
      long (Nat.lt_of_le_of_lt (Limits.maxFrameLength_le le) long')
    rw [if_neg long, if_neg short]
    exact refl _

theorem operand (op : Opcode) : Guarded LimitHit
    (answer (H := H) op (Request.operand op cfg.limits.maxFrameLength true))
    (answer op (Request.operand op loose.maxFrameLength true)) := by
  unfold Request.operand
  cases op.shape with
  | counted8 | counted32 | counted64 => exact next fun count => payload le op count.toNatLE
  | countedSigned32 =>
    refine next fun count => ?_
    dsimp only
    by_cases negative : 2 ^ 31 ≤ count.toNatLE
    · rw [if_pos negative, if_pos negative]
      exact refl _
    · rw [if_neg negative, if_neg negative]
      exact payload le op count.toNatLE
  | _ => exact refl _

variable [HostObject H]

/-- One instruction under two limits. Whatever is not listed pushes no more than one value. -/
theorem execute (op : Opcode) (operand : op.shape.Operand) :
    Guarded LimitHit (execute cfg op operand) (execute (cfg.within loose) op operand) := by
  cases op with
  | frame => exact openFrame le _
  | tuple1 | tuple2 | tuple3 => exact pushShortTuple le _ _
  | dict =>
    refine next fun items => ?_
    cases pairs .dict items.toList with
    | error cause => exact refl _
    | ok entries => exact next fun st => next fun d => pushNew le _
  | stackGlobal =>
    refine next fun name => next fun module => ?_
    cases module with
    | str module =>
      cases name with
      | str name => exact pushed le _
      | _ => exact refl _
    | _ => exact refl _
  | ext1 | ext2 => exact pushExtension le _ _
  | ext4 => exact pushSignedExtension le _
  | newObjEx =>
    refine next fun keywords => next fun args => next fun cls => next fun items => next fun st => ?_
    dsimp only
    cases st.store.dict? keywords with
    | none => exact refl _
    | some d => exact ite (next fun _ => pushed le _) (pushed le _)
  | obj =>
    refine next fun items => ?_
    cases items.toList with
    | nil => exact refl _
    | cons cls args => exact pushed le _
  | get => exact next fun id => fetchMemo le id
  | binGet | longBinGet => exact fetchMemo le _
  | put => exact next fun id => putMemo le _ id
  | binPut | longBinPut => exact putMemo le _ _
  | memoize => exact next fun st => putMemo le _ _
  | binPersId => exact next fun pid => pushed le _
  | tuple => exact next fun items => pushed le _
  | list => exact next fun items => pushNew le _
  | frozenSet => exact next fun items => next fun st => next fun members => pushNew le _
  | reduce => exact next fun args => next fun function => next fun items => pushed le _
  | newObj => exact next fun args => next fun cls => next fun items => pushed le _
  | inst => exact next fun cls => next fun args => pushed le _
  | byteArray8 | emptyList | emptyDict | emptySet => exact pushNew le _
  | none | newFalse | newTrue | binInt | binInt1 | binInt2 | long1 | long4 | binFloat | binBytes
  | shortBinBytes | binBytes8 | emptyTuple => exact push le _
  | persId | int | long | float | string | binString | shortBinString | unicode | binUnicode
  | shortBinUnicode | binUnicode8 | nextBuffer | global | dup => exact pushed le _
  | proto | readOnlyBuffer | append | appends | setItem | setItems | addItems | build | mark | pop
  | popMark | stop => exact refl _

theorem step : Guarded LimitHit (step cfg) (step (cfg.within loose)) := by
  rw [step_eq, step_eq]
  exact next fun op => ite (refl _) (bind (operand le op) fun bytes =>
    bind (execute le op bytes) fun _ => refl _)

theorem run (fuel : Nat) : Guarded LimitHit (run cfg fuel) (run (cfg.within loose) fuel) := by
  induction fuel with
  | zero => exact refl _
  | succ fuel ih =>
    refine bind (step le) fun found => ?_
    cases found with
    | none => exact ih
    | some v => exact refl _

theorem load : Guarded LimitHit (load cfg) (load (cfg.within loose)) := by
  intro st
  have same := run le (st.input.remaining + 1)
    { st with stack := #[], marks := [], marked := 0, protocol := 0 }
  unfold Decoder.load
  dsimp only
  -- the end of a load closes the frame, whatever happened before
  obtain ⟨e, st', fails, stopped⟩ | same := same
  · rw [fails]
    exact .inl ⟨e, closeFrame st', rfl, stopped⟩
  · rw [same]
    exact .inr rfl

end

end Guarded

namespace Encoder

variable {H : Type}

/-- The configuration with other limits. -/
abbrev Config.within (cfg : Config H) (limits : Limits) : Config H := { cfg with limits := limits }

/-- Writing has come to the deepest level. -/
def TooDeep (e : Error) : Prop := e = .encode .recursionLimit

end Encoder

namespace Guarded

open Encoder

/-! ## Writing -/

section
variable {H : Type} {save save' : Value → Encode H Unit}
  (inner : ∀ v, Guarded TooDeep (save v) (save' v))
include inner

theorem saveAll (items : List Value) :
    Guarded TooDeep (saveAll save items) (saveAll save' items) := by
  induction items with
  | nil => exact refl _
  | cons v rest ih => exact bind (inner v) fun _ => ih

theorem saveEntries (entries : List (Value × Value)) :
    Guarded TooDeep (saveEntries save entries) (saveEntries save' entries) := by
  induction entries with
  | nil => exact refl _
  | cons e rest ih => exact bind (inner e.1) fun _ => bind (inner e.2) fun _ => ih

theorem appendEach (items : List Value) :
    Guarded TooDeep (appendEach save items) (appendEach save' items) := by
  induction items with
  | nil => exact refl _
  | cons v rest ih => exact bind (inner v) fun _ => next fun _ => ih

theorem appendBatch (items : List Value) :
    Guarded TooDeep (appendBatch save items) (appendBatch save' items) := by
  rcases items with _ | ⟨v, _ | ⟨w, rest⟩⟩
  · exact refl _
  · exact bind (inner v) fun _ => refl _
  · exact next fun _ => bind (saveAll inner _) fun _ => refl _

theorem storeEach (entries : List (Value × Value)) :
    Guarded TooDeep (storeEach save entries) (storeEach save' entries) := by
  induction entries with
  | nil => exact refl _
  | cons e rest ih =>
    exact bind (inner e.1) fun _ => bind (inner e.2) fun _ => next fun _ => ih

theorem storeBatch (entries : List (Value × Value)) :
    Guarded TooDeep (storeBatch save entries) (storeBatch save' entries) := by
  rcases entries with _ | ⟨e, _ | ⟨e', rest⟩⟩
  · exact refl _
  · exact bind (inner e.1) fun _ => bind (inner e.2) fun _ => refl _
  · exact next fun _ => bind (saveEntries inner _) fun _ => refl _

theorem addBatch (members : List Value) :
    Guarded TooDeep (addBatch save members) (addBatch save' members) := by
  cases members with
  | nil => exact refl _
  | cons v rest => exact next fun _ => bind (saveAll inner _) fun _ => refl _

theorem saveState (obj : Option Value) (state : Value) (setter : Option Value) :
    Guarded TooDeep (saveState save obj state setter) (saveState save' obj state setter) := by
  cases setter with
  | none => exact bind (inner state) fun _ => refl _
  | some setter =>
    exact bind (inner setter) fun _ => bind (inner _) fun _ => bind (inner state) fun _ => refl _

variable {cfg : Encoder.Config H} {loose : Limits}

theorem appendItems (items : List Value) :
    Guarded TooDeep (appendItems cfg save items) (appendItems (cfg.within loose) save' items) :=
  ite (forM (appendBatch inner)) (appendEach inner items)

theorem storeEntries (entries : List (Value × Value)) :
    Guarded TooDeep (storeEntries cfg save entries)
      (storeEntries (cfg.within loose) save' entries) :=
  ite (forM (storeBatch inner)) (storeEach inner entries)

theorem writeGlobal (name : Name) :
    Guarded TooDeep (writeGlobal cfg save name) (writeGlobal (cfg.within loose) save' name) := by
  unfold Encoder.writeGlobal
  dsimp only
  cases (if 2 ≤ cfg.protocol.val then cfg.registry.extensionCode? name else none) with
  | some code => exact refl _
  | none =>
    refine ite (refl _) ?_
    rcases dottedSplits name.qualname with _ | ⟨⟨parent, last⟩, rest⟩
    · exact refl _
    · exact next fun owner => next fun args => next fun getter => bind (inner getter) fun _ =>
        bind (inner args) fun _ => refl _

theorem saveNewObjectEx (args : List Value) :
    Guarded TooDeep (saveNewObjectEx cfg save args)
      (saveNewObjectEx (cfg.within loose) save' args) := by
  unfold Encoder.saveNewObjectEx
  split
  case h_2 => exact refl _
  case h_1 cls positional keywords =>
    refine next fun _ => next fun st => ?_
    dsimp only
    split
    · exact bind (inner cls) fun _ => bind (inner positional) fun _ =>
        ite (bind (inner keywords) fun _ => refl _) (refl _)
    · exact refl _

theorem saveList (v : Value) (items : List Value) :
    Guarded TooDeep (saveList cfg save v items) (saveList (cfg.within loose) save' v items) := by
  have rest : Guarded TooDeep (do memoize cfg.protocol v; Encoder.appendItems cfg save items)
      (do memoize cfg.protocol v; Encoder.appendItems (cfg.within loose) save' items) :=
    next fun _ => appendItems inner items
  exact ite (next fun _ => rest) (next fun _ => next fun _ => rest)

theorem saveDict (v : Value) (entries : List (Value × Value)) :
    Guarded TooDeep (saveDict cfg save v entries) (saveDict (cfg.within loose) save' v entries) := by
  have rest : Guarded TooDeep (do memoize cfg.protocol v; Encoder.storeEntries cfg save entries)
      (do memoize cfg.protocol v; Encoder.storeEntries (cfg.within loose) save' entries) :=
    next fun _ => storeEntries inner entries
  exact ite (next fun _ => rest) (next fun _ => next fun _ => rest)

/-- Whether a tuple is in the memo behind its items does not depend on the room that they had. -/
theorem saveTuple (v : Value) (items : List Value) :
    Guarded TooDeep (saveTuple cfg save v items) (saveTuple (cfg.within loose) save' v items) :=
  ite (bind (saveAll inner items) fun _ => refl _)
    (next fun _ => bind (saveAll inner items) fun _ => refl _)

theorem savePersistentId (pid : Value) :
    Guarded TooDeep (savePersistentId cfg save pid)
      (savePersistentId (cfg.within loose) save' pid) :=
  ite (bind (inner pid) fun _ => refl _) (refl _)

theorem saveNewObject (args : List Value) :
    Guarded TooDeep (saveNewObject save args) (saveNewObject save' args) := by
  cases args with
  | nil => exact refl _
  | cons cls positional =>
    refine next fun _ => bind (inner cls) fun _ => next fun tuple => ?_
    exact bind (inner tuple) fun _ => refl _

theorem saveGlobal (v : Value) (g : Global) :
    Guarded TooDeep (saveGlobal cfg save v g) (saveGlobal (cfg.within loose) save' v g) := by
  unfold Encoder.saveGlobal
  rw [show wireName (cfg.within loose) g = wireName cfg g from rfl]
  cases wireName cfg g with
  | error e => exact refl _
  | ok name => exact bind (writeGlobal inner name) fun again => refl _

theorem saveClass (c : Class) :
    Guarded TooDeep (saveClass cfg save c) (saveClass (cfg.within loose) save' c) := by
  refine next fun known => ?_
  cases known with
  | some id => exact refl _
  | none =>
    dsimp only
    rw [show wireName (cfg.within loose) (.ofClass c) = wireName cfg (.ofClass c) from rfl]
    cases wireName cfg (.ofClass c) with
    | error e => exact refl _
    | ok name => exact bind (writeGlobal inner name) fun again => refl _

theorem saveCall (callable : Value) (g : Global) (args : Value) (items : List Value) :
    Guarded TooDeep (saveCall cfg save callable g args items)
      (saveCall (cfg.within loose) save' callable g args items) := by
  have rest : Guarded TooDeep (do save args; emit .reduce ()) (do save' args; emit .reduce ()) :=
    bind (inner args) fun _ => refl _
  refine ite (saveNewObjectEx inner items) (ite (saveNewObject inner items) ?_)
  dsimp only
  rw [show reconstructorOf (cfg.within loose) g = reconstructorOf cfg g from rfl]
  cases reconstructorOf cfg g with
  | some name => exact next fun f => bind (inner f) fun _ => rest
  | none => exact bind (inner callable) fun _ => rest

theorem saveNewInstance (c : Class) :
    Guarded TooDeep (saveNewInstance cfg save c) (saveNewInstance (cfg.within loose) save' c) :=
  ite (bind (saveClass inner c) fun _ => bind (inner _) fun _ => refl _) <|
    next fun f => bind (inner f) fun _ => next fun _ => bind (saveClass inner c) fun _ =>
      next fun base => bind (inner base) fun _ => refl _

theorem saveReduction (r : Reduction) (obj : Option Value) :
    Guarded TooDeep (saveReduction cfg save r obj)
      (saveReduction (cfg.within loose) save' r obj) := by
  refine next fun st => ?_
  obtain ⟨callable, args, state, listItems, dictItems, setter⟩ := r
  dsimp only
  cases st.store.global? callable with
  | none => exact refl _
  | some g =>
    cases st.store.tuple? args with
    | none => exact refl _
    | some items =>
      refine bind (saveCall inner _ _ _ _) fun _ => ?_
      -- the parts behind the call, each of which may be absent
      have parts : Guarded TooDeep
          (do
            obj.forM (memoizeBuilt cfg)
            listItems.forM (Encoder.appendItems cfg save)
            dictItems.forM (Encoder.storeEntries cfg save)
            state.forM fun state => Encoder.saveState save obj state setter)
          (do
            obj.forM (memoizeBuilt cfg)
            listItems.forM (Encoder.appendItems (cfg.within loose) save')
            dictItems.forM (Encoder.storeEntries (cfg.within loose) save')
            state.forM fun state => Encoder.saveState save' obj state setter) :=
        next fun _ =>
        bind (optional fun _ => appendItems inner _) fun _ =>
        bind (optional fun _ => storeEntries inner _) fun _ =>
        optional fun state => saveState inner obj state setter
      cases obj <;> cases listItems <;> cases dictItems <;> cases state
      all_goals exact parts

theorem saveNamedCall (module qualname : String) (args : List Value) (obj : Option Value) :
    Guarded TooDeep (saveNamedCall cfg save module qualname args obj)
      (saveNamedCall (cfg.within loose) save' module qualname args obj) :=
  next fun _ => next fun _ => saveReduction inner _ obj

theorem saveBytes (bytes : Bytes) :
    Guarded TooDeep (saveBytes cfg save bytes) (saveBytes (cfg.within loose) save' bytes) :=
  ite (refl _) (ite (saveNamedCall inner _ _ _ _) (saveNamedCall inner _ _ _ _))

theorem saveByteArray (v : Value) (data : Bytes) :
    Guarded TooDeep (saveByteArray cfg save v data)
      (saveByteArray (cfg.within loose) save' v data) :=
  ite (refl _) (saveNamedCall inner _ _ _ _)

theorem saveSet (v : Value) (members : List Value) :
    Guarded TooDeep (saveSet cfg save v members) (saveSet (cfg.within loose) save' v members) :=
  ite (next fun _ => next fun _ => forM (addBatch inner))
    (next fun _ => saveNamedCall inner _ _ _ _)

theorem saveFrozenSet (v : Value) (members : List Value) :
    Guarded TooDeep (saveFrozenSet cfg save v members)
      (saveFrozenSet (cfg.within loose) save' v members) :=
  ite (next fun _ => bind (saveAll inner members) fun _ => refl _)
    (next fun _ => saveNamedCall inner _ _ _ _)

theorem saveInstance (id : Nat) (c : Class) (attributes : Dict) :
    Guarded TooDeep (saveInstance cfg save id c attributes)
      (saveInstance (cfg.within loose) save' id c attributes) := by
  refine next fun state => bind (saveNewInstance inner c) fun _ => next fun _ => ?_
  cases state with
  | none => exact refl _
  | some state => exact bind (inner state) fun _ => refl _

variable [HostObject H]

theorem saveCell (id : Nat) (cell : Cell H) :
    Guarded TooDeep (saveCell cfg save id cell) (saveCell (cfg.within loose) save' id cell) := by
  cases cell with
  | bytearray data => exact saveByteArray inner _ data
  | list items => exact saveList inner _ _
  | tuple items => exact saveTuple inner _ items
  | dict entries => exact saveDict inner _ _
  | set members => exact saveSet inner _ _
  | frozenset members => exact saveFrozenSet inner _ _
  | global g => exact saveGlobal inner _ g
  | inst c attributes => exact saveInstance inner id c attributes
  | object content => exact next fun r => saveReduction inner r _

theorem saveObject (id : Nat) :
    Guarded TooDeep (saveObject cfg save id) (saveObject (cfg.within loose) save' id) := by
  refine next fun known => ?_
  cases known with
  | some memoId => exact refl _
  | none =>
    refine next fun st => ?_
    cases st.store.cells[id]? with
    | some cell => exact saveCell inner id cell
    | none => exact refl _

theorem saveContent (v : Value) :
    Guarded TooDeep (saveContent cfg save v) (saveContent (cfg.within loose) save' v) := by
  cases v with
  | complex re im => exact saveNamedCall inner _ _ _ _
  | bytes bytes => exact saveBytes inner bytes
  | ref id => exact saveObject inner id
  | _ => exact refl _

end

section
variable {H : Type} [HostObject H] {cfg : Encoder.Config H}

/-- The walk with less room. The induction is on the room of the first side. -/
theorem save {loose : Limits} {room room' : Nat} (le : room ≤ room') (persistent : Bool)
    (v : Value) :
    Guarded TooDeep (save cfg room persistent v) (save (cfg.within loose) room' persistent v) := by
  induction room generalizing room' persistent v with
  | zero => exact stops rfl
  | succ room ih =>
    cases room' with
    | zero => omega
    | succ room' =>
      have inner (persistent : Bool) (v : Value) := ih (Nat.le_of_succ_le_succ le) persistent v
      refine next fun st => next fun _ => next fun _ => ?_
      -- both sides ask the host for a persistent id, and get the same answer
      refine ite (next fun pid => ?_) (next fun pid => ?_)
      all_goals
        cases pid with
        | some pid => exact bind (savePersistentId (inner false) pid) fun _ => refl _
        | none => exact bind (saveContent (inner true) v) fun _ => refl _

theorem dump {loose : Limits} (le : cfg.limits.maxDepth ≤ loose.maxDepth) (v : Value) :
    Guarded TooDeep (dump cfg v) (dump (cfg.within loose) v) := by
  have walk : Guarded TooDeep
      (do Encoder.save cfg cfg.limits.maxDepth true v; emit .stop (); framed Frame.Writer.finish)
      (do
        Encoder.save (cfg.within loose) loose.maxDepth true v
        emit .stop ()
        framed Frame.Writer.finish) :=
    bind (save le true v) fun _ => refl _
  -- the two instructions in front of the value depend on the protocol alone
  refine next fun _ => ite (next fun _ => ?_) ?_
  all_goals exact ite (next fun _ => walk) walk

end

end Guarded

end ObjectStream
