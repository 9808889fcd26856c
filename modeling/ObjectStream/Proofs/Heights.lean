import ObjectStream.Proofs.Guards
import ObjectStream.Proofs.Sequence
import ObjectStream.Proofs.Untouched

/-!
Heights of stacks.

An outline gives the height of the open stack and those of the stacks that marks have saved. What an
instruction does to it depends on the opcode only (`Opcode.effect`), and where the outline behind an
instruction is no higher than a limit, a decoder with this limit carries the instruction out as well
(`follows_execute`). So it is enough to count: instructions that lead from one outline to another and
pass no outline above a limit (`Climbs`) are carried out under this limit as they are without it
(`Climbs.executed`), and a stream of them is loaded under it (`Climbs.loads_capped`).
-/

namespace ObjectStream

/-- What an instruction does to the heights of the stacks. -/
inductive Effect where
  /-- Items are taken off the open stack, and others put on it. -/
  | exchange (taken given : Nat)
  /-- The open stack is saved. -/
  | mark
  /-- The items above the mark are taken, and others put on the stack below it. -/
  | gather (given : Nat)
  /-- One item is taken, or the mark if there is none above it. -/
  | drop
  deriving DecidableEq

/-- The outline behind an instruction, the open stack first. -/
def Effect.apply : Effect → List Nat → List Nat
  | .exchange taken given, n :: saved => (n - taken + given) :: saved
  | .mark, outline => 0 :: outline
  | .gather given, _ :: n :: saved => (n + given) :: saved
  | .drop, 0 :: n :: saved => n :: saved
  | .drop, (n + 1) :: saved => n :: saved
  | _, outline => outline

/-- The effect of the instructions with this opcode. Those that are not listed put one item on the
    stack. -/
def Opcode.effect : Opcode → Effect
  | .proto | .frame | .readOnlyBuffer | .put | .binPut | .longBinPut | .memoize | .stop =>
    .exchange 0 0
  | .append | .build => .exchange 1 0
  | .setItem => .exchange 2 0
  | .binPersId | .tuple1 => .exchange 1 1
  | .tuple2 | .stackGlobal | .reduce | .newObj => .exchange 2 1
  | .tuple3 | .newObjEx => .exchange 3 1
  | .mark => .mark
  | .appends | .setItems | .addItems | .popMark => .gather 0
  | .tuple | .list | .dict | .frozenSet | .obj | .inst => .gather 1
  | .pop => .drop
  | _ => .exchange 0 1

namespace Decoder

variable {H α β : Type} {limit : Nat} {e : Effect}

/-- The heights of the stacks, the open one first. -/
def State.outline (st : State H) : List Nat := st.stack.size :: st.marks.map Array.size

theorem State.height_eq_sum {st : State H} (counted : st.Counted) : st.height = st.outline.sum := by
  rw [State.height, counted, State.outline, List.sum_cons]

/-- The configuration with another limit for the height of the stack. -/
abbrev Config.capped (cfg : Config H) (limit : Nat) : Config H :=
  cfg.within { cfg.limits with maxStack := limit }

/-! ## Actions -/

/-- Where the action succeeds, it has this effect. -/
def Shifts (e : Effect) (x : Decode H α) : Prop :=
  ∀ ⦃st : State H⦄ ⦃a : α⦄ ⦃st' : State H⦄, st.Counted → x st = .ok a st' →
    st'.Counted ∧ st'.outline = e.apply st.outline

/-- The first action has this effect, and the second one does the same where it ends within the
    limit. -/
def Follows (limit : Nat) (e : Effect) (x y : Decode H α) : Prop :=
  ∀ ⦃st : State H⦄ ⦃a : α⦄ ⦃st' : State H⦄, st.Counted → x st = .ok a st' →
    (st'.Counted ∧ st'.outline = e.apply st.outline) ∧
      (st'.outline.sum ≤ limit → y st = .ok a st')

theorem Shifts.follows {x : Decode H α} (h : Shifts e x) : Follows limit e x x :=
  fun _ _ _ counted run => ⟨h counted run, fun _ => run⟩

theorem Follows.shifts {x y : Decode H α} (h : Follows limit e x y) : Shifts e x :=
  fun _ _ _ counted run => (h counted run).1

/-- Items are taken first, and then further ones. -/
theorem Follows.exchange {taken more given : Nat} {x : Decode H β} {f g : β → Decode H α}
    (first : Shifts (.exchange taken 0) x)
    (rest : ∀ b, Follows limit (.exchange more given) (f b) (g b)) :
    Follows limit (.exchange (more + taken) given) (x >>= f) (x >>= g) := by
  intro st a st' counted run
  obtain ⟨b, st₁, before, after⟩ := bind_eq_ok run
  obtain ⟨counted₁, outline₁⟩ := first counted before
  obtain ⟨⟨counted', outline'⟩, within⟩ := rest b counted₁ after
  refine ⟨⟨counted', ?_⟩, fun room => ?_⟩
  · rw [outline', outline₁, State.outline, Effect.apply, Effect.apply, Effect.apply]
    congr 1
    omega
  · rw [bind_ok before]
    exact within room

/-- What leaves the heights alone comes first. -/
theorem Follows.still {x : Decode H β} {f g : β → Decode H α} (first : Shifts (.exchange 0 0) x)
    (rest : ∀ b, Follows limit e (f b) (g b)) : Follows limit e (x >>= f) (x >>= g) := by
  intro st a st' counted run
  obtain ⟨b, st₁, before, after⟩ := bind_eq_ok run
  obtain ⟨counted₁, outline₁⟩ := first counted before
  obtain ⟨⟨counted', outline'⟩, within⟩ := rest b counted₁ after
  rw [outline₁] at outline'
  refine ⟨⟨counted', outline'⟩, fun room => ?_⟩
  rw [bind_ok before]
  exact within room

theorem Follows.ite {c : Prop} [Decidable c] {x y x' y' : Decode H α} (h : Follows limit e x y)
    (h' : Follows limit e x' y') : Follows limit e (if c then x else x') (if c then y else y') := by
  split
  · exact h
  · exact h'

theorem follows_fail {y : Decode H α} (cause : DecodeError) : Follows limit e (fail cause) y := by
  intro st a st' counted run
  cases run

theorem follows_check {c : Prop} [Decidable c] {cause : DecodeError} {f g : Unit → Decode H α}
    (h : Follows limit e (f ()) (g ())) :
    Follows limit e (if c then fail cause >>= f else f ()) (if c then fail cause >>= g else g ()) := by
  refine .ite ?_ h
  intro st a st' counted run
  cases run

/-! ## Actions that leave the heights alone -/

/-- The stacks as far as their heights depend on them. -/
def State.sizes (st : State H) : Nat × List (Array Value) × Nat := (st.stack.size, st.marks, st.marked)

theorem Shifts.of_leaves {x : Decode H α} (h : Leaves State.sizes x) : Shifts (.exchange 0 0) x := by
  intro st a st' counted run
  have same := h st
  rw [run] at same
  have same : st'.sizes = st.sizes := same
  simp only [State.sizes, Prod.mk.injEq] at same
  obtain ⟨size, marks, marked⟩ := same
  refine ⟨?_, ?_⟩
  · rw [State.Counted, marked, marks]
    exact counted
  · rw [State.outline, size, marks]
    rfl

theorem leaves_allocTuple (items : List Value) :
    Leaves State.sizes (allocTuple items : Decode H Value) := by
  cases items with
  | nil => exact .pure _
  | cons first rest => exact leaves_alloc fun _ => rfl

theorem leaves_sizes_replaceTop (op : Opcode) (v : Value) :
    Leaves State.sizes (replaceTop op v : Decode H Unit) := by
  intro st
  simp only [replaceTop, top, bind_apply, get_apply]
  cases last : st.stack.back? with
  | none => rfl
  | some u =>
    have inhabited : st.stack.size ≠ 0 := by
      intro empty
      rw [Array.size_eq_zero_iff.1 empty] at last
      cases last
    show ((st.stack.pop.push v).size, st.marks, st.marked) = st.sizes
    rw [Array.size_push, Array.size_pop, Nat.sub_add_cancel (Nat.pos_of_ne_zero inhabited)]
    rfl

theorem leaves_sizes_reported (label : String) (action : Action H α) :
    Leaves State.sizes (reported label action) :=
  .bind (.modify fun _ => rfl) fun _ => .bind (leaves_hosted fun _ => rfl) fun _ =>
    .bind (.modify fun _ => rfl) fun _ => .pure _

theorem leaves_findGlobal (cfg : Config H) (module qualname : String) :
    Leaves State.sizes (findGlobal cfg module qualname) := by
  refine .get fun st => ?_
  dsimp only
  split
  · exact leaves_alloc fun _ => rfl
  · split
    · exact leaves_alloc fun _ => rfl
    · exact leaves_fail _
    · exact leaves_fail _

theorem leaves_persistentLoad (cfg : Config H) (pid : Value) :
    Leaves State.sizes (persistentLoad cfg pid) := by
  unfold persistentLoad
  cases cfg.persistentLoad with
  | none => exact leaves_fail _
  | some hook =>
    refine .bind (leaves_hosted fun _ => rfl) fun outcome => ?_
    cases outcome with
    | ok v => exact .pure v
    | error text => exact leaves_fail _

theorem leaves_lineGlobal (cfg : Config H) (op : Opcode) (module name : Bytes) :
    Leaves State.sizes (lineGlobal cfg op module name) :=
  .bind (leaves_spelled _ _) fun _ => .bind (leaves_spelled _ _) fun _ => leaves_findGlobal cfg _ _

section
variable [HostObject H] (cfg : Config H)

theorem leaves_call (op : Opcode) (function : Value) (args : List Value) :
    Leaves State.sizes (call cfg op function args) := by
  refine .get fun st => ?_
  cases st.store.global? function with
  | none => exact leaves_fail _
  | some g =>
    dsimp only
    cases g.symbol with
    | none => exact leaves_called _ _
    | some symbol => exact .bind (leaves_sizes_reported _ _) fun _ => leaves_called _ _

theorem leaves_instantiate (cls : Value) (args : List Value) :
    Leaves State.sizes (instantiate cfg cls args) :=
  .get fun _ => .bind (leaves_sizes_reported _ _) fun _ => leaves_called _ _

theorem leaves_instantiateOrCall (op : Opcode) (cls : Value) (args : List Value) :
    Leaves State.sizes (instantiateOrCall cfg op cls args) :=
  .get fun _ => .ite (leaves_instantiate cfg cls args) (leaves_call cfg op cls args)

theorem leaves_callHook (op : Opcode) (id : Nat) (hook : H → Option (Action H Unit)) :
    Leaves State.sizes (callHook op id hook) := by
  refine .get fun st => ?_
  cases st.store.object? (.ref id) with
  | none => exact .pure ()
  | some content =>
    dsimp only
    cases hook content with
    | none => exact leaves_called _ _
    | some action => exact .bind (leaves_hosted fun _ => rfl) fun _ => leaves_called _ _

theorem leaves_appendItems (op : Opcode) (items : Array Value) :
    Leaves State.sizes (appendItems op items : Decode H Unit) := by
  refine .bind (leaves_top op) fun target => .get fun st => ?_
  split
  · exact .modify fun _ => rfl
  · exact .forM fun item => leaves_callHook op _ _
  · exact leaves_fail _

theorem leaves_storeEntries (id : Nat) (entries : List (Value × Value)) :
    Leaves State.sizes (storeEntries id entries : Decode H Unit) := by
  induction entries with
  | nil => exact .pure ()
  | cons e rest ih => exact .bind (leaves_storeEntry _ _ fun _ _ => rfl) fun _ => ih

theorem leaves_addMembers (id : Nat) (members : List Value) :
    Leaves State.sizes (addMembers id members : Decode H Unit) := by
  induction members with
  | nil => exact .pure ()
  | cons member rest ih => exact .bind (leaves_addMember _ fun _ _ => rfl) fun _ => ih

theorem leaves_setItems (op : Opcode) (entries : List (Value × Value)) :
    Leaves State.sizes (setItems op entries : Decode H Unit) := by
  refine .bind (leaves_top op) fun target => .get fun st => ?_
  split
  · exact leaves_storeEntries _ entries
  · exact .forM fun e => leaves_callHook op _ _
  · exact leaves_fail _

theorem leaves_addItems (op : Opcode) (members : List Value) :
    Leaves State.sizes (addItems op members : Decode H Unit) := by
  refine .bind (leaves_top op) fun target => .get fun st => ?_
  split
  · exact leaves_addMembers _ members
  · exact leaves_fail _

theorem leaves_mergeState (op : Opcode) (id : Nat) (state : Value) :
    Leaves State.sizes (mergeState op id state : Decode H Unit) := by
  refine .get fun st => ?_
  split
  · exact .pure ()
  · exact leaves_storeEntries _ _
  · exact leaves_fail _

theorem leaves_buildInstance (op : Opcode) (id : Nat) (c : Class) (state : Value) :
    Leaves State.sizes (buildInstance cfg op id c state) := by
  unfold buildInstance
  cases (cfg.host.hooks c.key).setState with
  | some setState => exact .bind (leaves_sizes_reported _ _) fun _ => leaves_called _ _
  | none =>
    refine .get fun st => ?_
    split
    · exact .bind (leaves_mergeState op id _) fun _ => leaves_mergeState op id _
    · exact leaves_mergeState op id state

theorem leaves_build (op : Opcode) (state : Value) : Leaves State.sizes (build cfg op state) := by
  refine .bind (leaves_top op) fun target => .get fun st => ?_
  split
  · refine .bind (leaves_sizes_reported _ _) fun outcome => .bind (leaves_called _ _) fun result => ?_
    cases result with
    | none => exact .pure ()
    | some replacement => exact .bind (.modify fun _ => rfl) fun _ => leaves_sizes_replaceTop op _
  · exact leaves_buildInstance cfg op _ _ state
  · exact leaves_fail _

end

theorem leaves_sizes_reading (action : EStateM Error Frame.Reader α) :
    Leaves State.sizes (reading action : Decode H α) := by
  intro st
  unfold reading
  cases action st.input <;> rfl

theorem leaves_sizes_openFrame (cfg : Config H) (length : Nat) :
    Leaves State.sizes (openFrame cfg length) := by
  unfold openFrame
  exact leaves_check (.get fun _ => .bind (leaves_sizes_reading _) fun _ => .modify fun _ => rfl)

theorem leaves_sizes_putMemo (cfg : Config H) (op : Opcode) (id : Nat) :
    Leaves State.sizes (putMemo cfg op id) :=
  .bind (leaves_top op) fun _ => .get fun _ => leaves_check (.modify fun _ => rfl)

theorem leaves_freezeTop (op : Opcode) : Leaves State.sizes (freezeTop op : Decode H Unit) := by
  refine .bind (leaves_top op) fun v => .get fun st => ?_
  split
  · exact leaves_sizes_replaceTop op _
  · exact .pure ()

/-! ## The operand stack -/

/-- What is pushed below the limit is pushed under the limit. -/
theorem follows_push (cfg : Config H) (v : Value) :
    Follows limit (.exchange 0 1) (push cfg v) (push (cfg.capped limit) v) := by
  intro st _ st' counted run
  simp only [push, bind_apply, get_apply] at run ⊢
  by_cases full : cfg.limits.maxStack ≤ st.height
  · rw [if_pos full] at run
    cases run
  · rw [if_neg full] at run
    cases run
    have outline : ({ st with stack := st.stack.push v } : State H).outline =
        Effect.apply (.exchange 0 1) st.outline := by
      rw [State.outline, Array.size_push]
      rfl
    refine ⟨⟨counted, outline⟩, fun room => ?_⟩
    have below : ¬limit ≤ st.height := by
      rw [outline, State.outline, Effect.apply, List.sum_cons] at room
      rw [State.height_eq_sum counted, State.outline, List.sum_cons]
      omega
    rw [if_neg below]
    rfl

theorem shifts_pop (op : Opcode) : Shifts (.exchange 1 0) (pop op : Decode H Value) := by
  intro st v st' counted run
  simp only [pop, bind_apply, get_apply] at run
  cases last : st.stack.back? with
  | none => rw [last] at run; cases run
  | some u =>
    rw [last] at run
    cases run
    refine ⟨counted, ?_⟩
    rw [State.outline, Array.size_pop]
    rfl

theorem shifts_popOnto (op : Opcode) (taken : List Value) (count : Nat) :
    Shifts (.exchange count 0) (popOnto op taken count : Decode H (List Value)) := by
  induction count generalizing taken with
  | zero => exact .of_leaves (.pure taken)
  | succ count ih =>
    have follows : Follows 0 (.exchange (count + 1) 0) (popOnto op taken (count + 1) : Decode H _)
        (popOnto op taken (count + 1)) :=
      .exchange (shifts_pop op) fun v => (ih (v :: taken)).follows
    exact follows.shifts

theorem shifts_popMany (op : Opcode) (count : Nat) :
    Shifts (.exchange count 0) (popMany op count : Decode H (List Value)) := by
  intro st items st' counted run
  simp only [popMany, bind_apply, get_apply] at run
  split at run
  · cases run
  · exact shifts_popOnto op [] count counted run

theorem shifts_mark : Shifts .mark (mark : Decode H Unit) := by
  intro st _ st' counted run
  cases run
  refine ⟨?_, rfl⟩
  have counted : st.marked = (st.marks.map Array.size).sum := counted
  show st.marked + st.stack.size = ((st.stack :: st.marks).map Array.size).sum
  rw [counted, List.map_cons, List.sum_cons, Nat.add_comm]

/-- The marked items are taken, and then others put on the stack below the mark. -/
theorem Follows.gather {op : Opcode} {given : Nat} {f g : Array Value → Decode H α}
    (rest : ∀ items, Follows limit (.exchange 0 given) (f items) (g items)) :
    Follows limit (.gather given) (popMark op >>= f) (popMark op >>= g) := by
  intro st a st' counted run
  obtain ⟨items, st₁, before, after⟩ := bind_eq_ok run
  have gathered := before
  simp only [popMark, bind_apply, get_apply] at before
  cases marks : st.marks with
  | nil => rw [marks] at before; cases before
  | cons saved others =>
    rw [marks] at before
    cases before
    have counted : st.marked = (st.marks.map Array.size).sum := counted
    rw [marks, List.map_cons, List.sum_cons] at counted
    have fewer : st.marked - saved.size = (others.map Array.size).sum := by omega
    let st₁ : State H := { st with marked := st.marked - saved.size, marks := others, stack := saved }
    have counted₁ : st₁.Counted := fewer
    obtain ⟨⟨counted', outline'⟩, within⟩ := rest st.stack counted₁ after
    refine ⟨⟨counted', ?_⟩, fun room => ?_⟩
    · rw [outline', State.outline, State.outline, marks]
      rfl
    · rw [bind_ok gathered]
      exact within room

/-! ## Instructions -/

theorem follows_pushNew (cfg : Config H) (cell : Cell H) :
    Follows limit (.exchange 0 1) (pushNew cfg cell) (pushNew (cfg.capped limit) cell) :=
  .still (.of_leaves (leaves_alloc fun _ => rfl)) fun v => follows_push cfg v

/-- A value that is computed without a change of the heights is pushed. -/
theorem follows_pushed (cfg : Config H) {x : Decode H Value} (h : Leaves State.sizes x) :
    Follows limit (.exchange 0 1) (x >>= push cfg) (x >>= push (cfg.capped limit)) :=
  .still (.of_leaves h) fun v => follows_push cfg v

theorem follows_pushShortTuple (cfg : Config H) (op : Opcode) (length : Nat) :
    Follows limit (.exchange length 1) (pushShortTuple cfg op length)
      (pushShortTuple (cfg.capped limit) op length) := by
  have follows : Follows limit (.exchange (0 + length) 1) (pushShortTuple cfg op length)
      (pushShortTuple (cfg.capped limit) op length) :=
    .exchange (shifts_popMany op length) fun items => follows_pushed cfg (leaves_allocTuple items)
  rwa [Nat.zero_add] at follows

theorem follows_fetchMemo (cfg : Config H) (id : Nat) :
    Follows limit (.exchange 0 1) (fetchMemo cfg id) (fetchMemo (cfg.capped limit) id) := by
  refine .still (.of_leaves (x := get) fun _ => rfl) fun st => ?_
  cases st.memo[id]? with
  | none => exact follows_fail _
  | some v => exact follows_push cfg v

theorem follows_pushExtension (cfg : Config H) (op : Opcode) (code : Nat) :
    Follows limit (.exchange 0 1) (pushExtension cfg op code)
      (pushExtension (cfg.capped limit) op code) := by
  unfold pushExtension
  refine follows_check ?_
  dsimp only
  cases cfg.registry.extension? code with
  | none => exact follows_fail _
  | some name => exact follows_pushed cfg (leaves_findGlobal cfg _ _)

theorem follows_pushSignedExtension (cfg : Config H) (code : Int32) :
    Follows limit (.exchange 0 1) (pushSignedExtension cfg code)
      (pushSignedExtension (cfg.capped limit) code) := by
  unfold pushSignedExtension
  exact follows_check (follows_pushExtension cfg _ _)

theorem leaves_sizes_announce (p : UInt8) : Leaves State.sizes (announce p : Decode H Unit) := by
  unfold announce
  exact leaves_check (.modify fun _ => rfl)

theorem leaves_lineValue (op : Opcode) (line : Bytes) :
    Leaves State.sizes (lineValue op line : Decode H Value) := by
  unfold lineValue
  exact .ite (.pure _) (.ite (.pure _) (.bind (leaves_spelled _ _) fun _ => .pure _))

theorem leaves_legacyString (cfg : Config H) (op : Opcode) (raw : Bytes) :
    Leaves State.sizes (legacyString cfg op raw) := by
  unfold legacyString
  cases cfg.strings with
  | bytes => exact .pure _
  | text encoding => exact .bind (leaves_spelled _ _) fun _ => .pure _

theorem leaves_payloadText (op : Opcode) (payload : Bytes) :
    Leaves State.sizes (payloadText op payload : Decode H Value) :=
  .bind (leaves_spelled _ _) fun _ => .pure _

theorem leaves_sizes_nextBuffer : Leaves State.sizes (nextBuffer : Decode H Value) := by
  refine .get fun st => ?_
  split
  · exact .bind (.modify fun _ => rfl) fun _ => .pure _
  · exact leaves_fail _

variable [HostObject H] (cfg : Config H)

/-- An item is taken if there is one above the last mark, and else the mark. -/
theorem shifts_drop : Shifts .drop (execute cfg .pop () : Decode H Unit) := by
  intro st _ st' counted run
  have run : (if st.stack.isEmpty then popMark .pop >>= fun _ => pure ()
      else pop .pop >>= fun _ => pure () : Decode H Unit) st = .ok () st' := run
  split at run
  · next empty =>
    have gathers : Follows 0 (.gather 0) (popMark .pop >>= fun _ => pure () : Decode H Unit)
        (popMark .pop >>= fun _ => pure ()) := .gather fun _ => (Shifts.of_leaves (.pure ())).follows
    obtain ⟨counted', outline⟩ := gathers.shifts counted run
    refine ⟨counted', outline.trans ?_⟩
    have size : st.stack.size = 0 := Array.isEmpty_iff_size_eq_zero.1 empty
    rw [State.outline, size]
    cases st.marks <;> rfl
  · next inhabited =>
    have takes : Follows 0 (.exchange 1 0) (pop .pop >>= fun _ => pure () : Decode H Unit)
        (pop .pop >>= fun _ => pure ()) :=
      .exchange (shifts_pop _) fun _ => (Shifts.of_leaves (.pure ())).follows
    obtain ⟨counted', outline⟩ := takes.shifts counted run
    refine ⟨counted', outline.trans ?_⟩
    have size : st.stack.size ≠ 0 := fun zero => inhabited (Array.isEmpty_iff_size_eq_zero.2 zero)
    obtain ⟨n, height⟩ := Nat.exists_eq_succ_of_ne_zero size
    rw [State.outline, height]
    rfl

/-- An instruction has the effect of its opcode, whatever the limit is. -/
theorem follows_execute (op : Opcode) (operand : op.shape.Operand) :
    Follows limit op.effect (execute cfg op operand) (execute (cfg.capped limit) op operand) := by
  cases op with
  | proto => exact (Shifts.of_leaves (leaves_sizes_announce _)).follows
  | frame => exact (Shifts.of_leaves (leaves_sizes_openFrame cfg _)).follows
  -- instructions that push
  | none | newFalse | newTrue | binInt | binInt1 | binInt2 | long1 | long4 | binFloat | binBytes
  | shortBinBytes | binBytes8 | emptyTuple => exact follows_push cfg _
  | byteArray8 | emptyList | emptyDict | emptySet => exact follows_pushNew cfg _
  | int => exact follows_pushed cfg (leaves_lineValue _ _)
  | long => exact follows_pushed cfg (.bind (leaves_spelled _ _) fun _ => .pure _)
  | float | unicode => exact follows_pushed cfg (.bind (leaves_spelled _ _) fun _ => .pure _)
  | string =>
    exact follows_pushed cfg (.bind (leaves_spelled _ _) fun _ => .bind (leaves_spelled _ _) fun _ =>
      leaves_legacyString cfg _ _)
  | binString | shortBinString => exact follows_pushed cfg (leaves_legacyString cfg _ _)
  | binUnicode | shortBinUnicode | binUnicode8 => exact follows_pushed cfg (leaves_payloadText _ _)
  | nextBuffer => exact follows_pushed cfg leaves_sizes_nextBuffer
  | global => exact follows_pushed cfg (leaves_lineGlobal cfg _ _ _)
  | ext1 | ext2 => exact follows_pushExtension cfg _ _
  | ext4 => exact follows_pushSignedExtension cfg _
  | dup => exact follows_pushed cfg (leaves_top _)
  | get => exact .still (.of_leaves (leaves_spelled _ _)) fun id => follows_fetchMemo cfg id
  | binGet | longBinGet => exact follows_fetchMemo cfg _
  | persId =>
    exact follows_pushed cfg (.bind (leaves_spelled _ _) fun _ => leaves_persistentLoad cfg _)
  -- instructions that take items from the top
  | binPersId =>
    exact .exchange (shifts_pop _) fun pid => follows_pushed cfg (leaves_persistentLoad cfg pid)
  | tuple1 | tuple2 | tuple3 => exact follows_pushShortTuple cfg _ _
  | stackGlobal =>
    refine .exchange (shifts_pop _) fun name => .exchange (shifts_pop _) fun module => ?_
    cases module with
    | str module =>
      cases name with
      | str name => exact follows_pushed cfg (leaves_findGlobal cfg _ _)
      | _ => exact follows_fail _
    | _ => exact follows_fail _
  | reduce =>
    exact .exchange (shifts_pop _) fun args => .exchange (shifts_pop _) fun function =>
      .still (.of_leaves (leaves_tupleItems _ _)) fun items =>
        follows_pushed cfg (leaves_call cfg _ _ _)
  | newObj =>
    exact .exchange (shifts_pop _) fun args => .exchange (shifts_pop _) fun cls =>
      .still (.of_leaves (leaves_tupleItems _ _)) fun items =>
        follows_pushed cfg (leaves_instantiate cfg _ _)
  | newObjEx =>
    refine .exchange (shifts_pop _) fun keywords => .exchange (shifts_pop _) fun args =>
      .exchange (shifts_pop _) fun cls => .still (.of_leaves (leaves_tupleItems _ _)) fun items =>
        .still (.of_leaves (x := get) fun _ => rfl) fun st => ?_
    dsimp only
    cases st.store.dict? keywords with
    | none => exact follows_fail _
    | some d =>
      have created : Follows limit (.exchange 0 1) (instantiate cfg cls items >>= push cfg)
          (instantiate cfg cls items >>= push (cfg.capped limit)) :=
        follows_pushed cfg (leaves_instantiate cfg cls items)
      exact .ite (.still (.of_leaves (leaves_called _ _)) fun _ => created) created
  | append =>
    exact (Follows.exchange (shifts_pop _) fun item =>
      (Shifts.of_leaves (leaves_appendItems _ _)).follows)
  | setItem =>
    exact .exchange (shifts_pop _) fun content => .exchange (shifts_pop _) fun key =>
      (Shifts.of_leaves (leaves_setItems _ _)).follows
  | build =>
    exact .exchange (shifts_pop _) fun state => (Shifts.of_leaves (leaves_build cfg _ state)).follows
  -- instructions at a mark
  | mark => exact shifts_mark.follows
  | popMark => exact .gather fun _ => (Shifts.of_leaves (.pure ())).follows
  | tuple => exact .gather fun items => follows_pushed cfg (leaves_allocTuple _)
  | list => exact .gather fun items => follows_pushNew cfg _
  | dict =>
    refine .gather fun items => ?_
    cases pairs .dict items.toList with
    | error cause => exact follows_fail _
    | ok entries =>
      exact .still (.of_leaves (x := get) fun _ => rfl) fun st =>
        .still (.of_leaves (leaves_keyed _)) fun d => follows_pushNew cfg _
  | frozenSet =>
    exact .gather fun items => .still (.of_leaves (x := get) fun _ => rfl) fun st =>
      .still (.of_leaves (leaves_keyed _)) fun members => follows_pushNew cfg _
  | appends => exact .gather fun items => (Shifts.of_leaves (leaves_appendItems _ _)).follows
  | setItems =>
    refine .gather fun items => ?_
    cases pairs .setItems items.toList with
    | error cause => exact follows_fail _
    | ok entries => exact (Shifts.of_leaves (leaves_setItems _ _)).follows
  | addItems => exact .gather fun items => (Shifts.of_leaves (leaves_addItems _ _)).follows
  | obj =>
    refine .gather fun items => ?_
    cases items.toList with
    | nil => exact follows_fail _
    | cons cls args => exact follows_pushed cfg (leaves_instantiateOrCall cfg _ _ _)
  | inst =>
    exact .still (.of_leaves (leaves_lineGlobal cfg _ _ _)) fun cls =>
      .gather fun args => follows_pushed cfg (leaves_instantiateOrCall cfg _ _ _)
  | pop => exact (shifts_drop cfg).follows
  -- instructions that only look at the top, or not at the stack at all
  | readOnlyBuffer => exact (Shifts.of_leaves (leaves_freezeTop _)).follows
  | put =>
    exact .still (.of_leaves (leaves_spelled _ _)) fun id =>
      (Shifts.of_leaves (leaves_sizes_putMemo cfg _ id)).follows
  | binPut | longBinPut => exact (Shifts.of_leaves (leaves_sizes_putMemo cfg _ _)).follows
  | memoize => exact (Shifts.of_leaves (.get fun st => leaves_sizes_putMemo cfg _ _)).follows
  | stop => exact (Shifts.of_leaves (.pure ())).follows

end Decoder

/-! ## Lists of instructions -/

/-- The instructions lead from one outline to another and pass none above the limit. -/
inductive Climbs (limit : Nat) : List Nat → List Instruction → List Nat → Prop
  | nil (outline : List Nat) : Climbs limit outline [] outline
  | cons {i : Instruction} {is : List Instruction} {outline last : List Nat} (ordinary : i.Ordinary)
      (room : (i.op.effect.apply outline).sum ≤ limit)
      (rest : Climbs limit (i.op.effect.apply outline) is last) : Climbs limit outline (i :: is) last

namespace Climbs

variable {limit : Nat} {is js : List Instruction} {outline middle last : List Nat}

theorem append (h : Climbs limit outline is middle) (h' : Climbs limit middle js last) :
    Climbs limit outline (is ++ js) last := by
  induction h with
  | nil => exact h'
  | cons ordinary room _ ih => exact .cons ordinary room (ih h')

theorem ordinary (h : Climbs limit outline is last) : ∀ i ∈ is, i.Ordinary := by
  induction h with
  | nil => exact nofun
  | cons ordinary _ _ ih => exact List.forall_mem_cons.2 ⟨ordinary, ih⟩

section
variable {n taken given : Nat} {saved : List Nat} {i : Instruction}

theorem single (ordinary : i.Ordinary) (leads : i.op.effect.apply outline = last)
    (room : last.sum ≤ limit) : Climbs limit outline [i] last := by
  subst leads
  exact .cons ordinary room (.nil _)

theorem exchange (ordinary : i.Ordinary) (effect : i.op.effect = .exchange taken given)
    (room : n + given + saved.sum ≤ limit) :
    Climbs limit ((n + taken) :: saved) [i] ((n + given) :: saved) := by
  refine .single ordinary ?_ (by simpa only [List.sum_cons] using room)
  rw [effect, Effect.apply, Nat.add_sub_cancel]

/-- One item is put on the stack. -/
theorem push (ordinary : i.Ordinary) (effect : i.op.effect = .exchange 0 1)
    (room : n + saved.sum + 1 ≤ limit) : Climbs limit (n :: saved) [i] ((n + 1) :: saved) :=
  .exchange ordinary effect (by omega)

/-- The stack is only looked at. -/
theorem still (ordinary : i.Ordinary) (effect : i.op.effect = .exchange 0 0)
    (room : n + saved.sum ≤ limit) : Climbs limit (n :: saved) [i] (n :: saved) :=
  .exchange ordinary effect room

theorem pops (count : Nat) (room : n + count + saved.sum ≤ limit) :
    Climbs limit ((n + count) :: saved) (List.replicate count ⟨.pop, ()⟩) (n :: saved) := by
  induction count with
  | zero => exact .nil _
  | succ count ih =>
    refine .cons (.of trivial rfl) ?_ (ih (by omega))
    show n + count + saved.sum ≤ limit
    omega

end

open Decoder

variable {H : Type} [HostObject H] {cfg : Config H}

/-- What is carried out without the limit is carried out under the limit. -/
theorem executed {st st' : State H} (h : Climbs limit st.outline is last) (counted : st.Counted)
    (run : executeAll cfg is st = .ok () st') :
    executeAll (cfg.capped limit) is st = .ok () st' ∧ st'.outline = last := by
  induction is generalizing st with
  | nil =>
    cases h
    cases run
    exact ⟨rfl, rfl⟩
  | cons i is ih =>
    have run : (execute cfg i.op i.operand >>= fun _ => executeAll cfg is) st = .ok () st' := run
    obtain ⟨_, st₁, first, others⟩ := bind_eq_ok run
    have follows : Follows limit i.op.effect (execute cfg i.op i.operand)
        (execute (cfg.capped limit) i.op i.operand) := follows_execute cfg i.op i.operand
    obtain ⟨⟨counted₁, outline⟩, within⟩ := follows counted first
    cases h with
    | cons ordinary room rest =>
      rw [← outline] at room rest
      obtain ⟨ran, ended⟩ := ih rest counted₁ others
      refine ⟨?_, ended⟩
      show (execute (cfg.capped limit) i.op i.operand >>= fun _ =>
        executeAll (cfg.capped limit) is) st = _
      rw [bind_ok (within room), ran]

/-- A stream that is loaded without the limit, and whose instructions do not climb above it, is loaded
    under the limit. -/
theorem loads_capped {base base' : Store H} {bytes : Bytes} {w : Value} {n : Nat} {saved : List Nat}
    (h : Climbs limit [0] is ((n + 1) :: saved)) (spelled : Spells (is ++ [⟨.stop, ()⟩]) bytes)
    (word : bytes.length < 2 ^ 64) (bounded : bytes.length ≤ cfg.limits.maxFrameLength)
    (loaded : loads cfg base bytes = (.ok w, base')) :
    loads (cfg.capped limit) base bytes = (.ok w, base') := by
  obtain ⟨st, rfl, run⟩ := executeAll_of_loads h.ordinary spelled word bounded loaded
  let start : State H := .ofSource base (.ofBytes bytes) none {}
  have climbs : Climbs limit start.outline is ((n + 1) :: saved) := h
  have counted : start.Counted := rfl
  obtain ⟨within, outline⟩ := climbs.executed counted run
  obtain ⟨v, top⟩ : ∃ v, st.stack.back? = some v := by
    have size : st.stack.size = n + 1 := (List.cons.inj outline).1
    exact ⟨_, Array.back?_eq_getElem? ▸ Array.getElem?_eq_getElem (by omega)⟩
  have same := loads_of_executeAll h.ordinary spelled word bounded run top
  rw [loaded] at same
  cases same
  have bounded : bytes.length ≤ (cfg.capped limit).limits.maxFrameLength := bounded
  exact loads_of_executeAll h.ordinary spelled word bounded within top

end Climbs

end ObjectStream
