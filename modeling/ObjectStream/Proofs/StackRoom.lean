import ObjectStream.Proofs.Calling
import ObjectStream.Proofs.GlobalLines
import ObjectStream.Proofs.Heights
import ObjectStream.Proofs.RoundTrip

/-!
Room on the reader's stack.

An encoder fills a container batch by batch, and takes each batch in before the next one begins. So the
stack of the reader holds no more of a container than the container and one batch, however long it is.
How much room that takes depends on what the container holds (`Store.Suffices`), and one lemma for each
function of the encoder shows that what it writes climbs no higher (`lifts_save`). For containers in
containers the room grows with the depth only, and a limit of the stack that follows from the depth is
enough for reading the whole stream (`loads_dumps_batched`).
-/

namespace ObjectStream

variable {H : Type}

/-! ## Room for values -/

/-- The room that an atom takes. Before protocol 3 a byte string is the call of a global with two texts,
    and a complex number always is one with two numbers. -/
def Value.room : Value → Nat
  | .complex .. | .bytes _ => 3
  | _ => 1

/-- A name that one instruction looks up in every protocol. -/
structure Name.Undotted (n : Name) : Prop where
  unbroken : n.Unbroken
  whole : dottedSplits n.qualname = []

/-- Room for `room` items is enough for writing the object if `inner` is enough for each value that it
    holds. Other kinds of objects are written without batches, or as the host likes. -/
def Cell.Suffices (inner room : Nat) : Cell H → Prop
  | .bytearray _ => 4 ≤ room
  | .list _ => batchSize + inner ≤ room
  -- a tuple takes the place of its first item
  | .tuple items => items ≠ [] ∧ items.length + inner ≤ room + 1
  | .dict _ => 2 * batchSize + inner ≤ room
  -- before protocol 4 a set is called with a list of its members
  | .set _ => 1 + (batchSize + inner) ≤ room
  | .global g => 2 ≤ room ∧ ∃ n : Name, n.Undotted ∧ g = .named n.module n.qualname
  | _ => False

theorem batchSize_pos : 0 < batchSize := by decide

namespace Store

variable {s s' : Store H} {room : Nat} {v : Value}

/-- Room for this many items on the reader's stack is enough for writing the value. -/
inductive Suffices (s : Store H) : Nat → Value → Prop
  | atom {room : Nat} {v : Value} (atom : v.identity? = none) (enough : v.room ≤ room) :
      s.Suffices room v
  | object {inner room i : Nat} {cell : Cell H} (found : s.cells[i]? = some cell)
      (enough : cell.Suffices inner room) (inside : ∀ u ∈ cell.children, s.Suffices inner u) :
      s.Suffices room (.ref i)

namespace Suffices

theorem pos (h : s.Suffices room v) : 0 < room := by
  induction h with
  | atom _ enough =>
    refine Nat.lt_of_lt_of_le ?_ enough
    unfold Value.room
    split <;> decide
  | @object inner room i cell found enough inside ih =>
    have batch := batchSize_pos
    cases cell with
    | tuple items =>
      obtain ⟨some_item, enough⟩ := enough
      have first := ih _ (Cell.mem_children.2 (.inr (List.head_mem some_item)))
      have length := List.length_pos_iff.2 some_item
      omega
    | global g => exact Nat.lt_of_lt_of_le Nat.zero_lt_two enough.1
    | bytearray | list | dict | set =>
      simp only [Cell.Suffices] at enough
      omega
    | frozenset | inst | object => exact enough.elim

theorem grown (h : s.Suffices room v) (grown : s.Grown s') : s'.Suffices room v := by
  induction h with
  | atom atom enough => exact .atom atom enough
  | object found enough _ ih => exact .object (grown _ _ found) enough ih

end Suffices

end Store

/-! ## Instructions that only push -/

/-- An instruction that leaves one item more on three items takes none of them. -/
theorem Opcode.effect_of_apply {op : Opcode} (h : op.effect.apply [3] = [4]) :
    op.effect = .exchange 0 1 := by
  revert h
  cases op <;> decide

theorem Decoder.Utters.effect [HostObject H] {dc : Decoder.Config H} {i : Instruction} {v : Value}
    (h : Decoder.Utters dc i v) (deep : 3 < dc.limits.maxStack) : i.op.effect = .exchange 0 1 := by
  -- three items are as many as an instruction takes without a mark
  let st : Decoder.State H :=
    { Decoder.State.ofSource {} (.ofBytes []) none {} with stack := #[.none, .none, .none] }
  have counted : st.Counted := rfl
  have run : Decoder.execute dc i.op i.operand st = .ok () { st with stack := st.stack.push v } := by
    have below : ¬dc.limits.maxStack ≤ st.height := Nat.not_le.2 deep
    rw [h.run]
    simp only [Decoder.push, bind_apply, get_apply, if_neg below]
    rfl
  have follows : Decoder.Follows 0 i.op.effect (Decoder.execute dc i.op i.operand)
      (Decoder.execute (dc.capped 0) i.op i.operand) := Decoder.follows_execute dc i.op i.operand
  exact Opcode.effect_of_apply (follows.shifts counted run).2.symm

/-- A reader for instructions that only push. -/
def Decoder.Config.plain : Decoder.Config H := { registry := .seeded 0, host := {} }

theorem Climbs.utter [HostObject H] {limit n : Nat} {saved : List Nat} {i : Instruction} {v : Value}
    (h : Decoder.Utters (H := H) .plain i v) (room : n + saved.sum + 1 ≤ limit) :
    Climbs limit (n :: saved) [i] ((n + 1) :: saved) :=
  .push h.ordinary (h.effect (show 3 < Limits.maxStack {} by decide)) room

namespace Encoder

variable {α β : Type} {limit n k c : Nat} {saved o o' o'' : List Nat} {s s' : Store H}
  {is : List Instruction} {v : Value} {items : List Value}

/-- Whatever the action writes when the objects of the store are there leads the reader's stack from one
    outline to the other, and climbs no higher than the limit. -/
def Lifts (limit : Nat) (s : Store H) (o o' : List Nat) (x : Encode H α) : Prop :=
  ∀ ⦃st : State H⦄ ⦃a : α⦄ ⦃st' : State H⦄, s.Grown st.store → x st = .ok a st' →
    st.store.Grown st'.store ∧ ∃ is, Wrote st st' is ∧ Climbs limit o is o'

namespace Lifts

theorem pure (a : α) : Lifts limit s o o (pure a : Encode H α) := by
  intro st _ st' _ run
  cases run
  exact ⟨.refl _, [], (Silent.refl _).wrote, .nil o⟩

theorem bind {x : Encode H α} {f : α → Encode H β} (h : Lifts limit s o o' x)
    (h' : ∀ a, Lifts limit s o' o'' (f a)) : Lifts limit s o o'' (x >>= f) := by
  intro st b st' grown run
  obtain ⟨a, st₁, first, rest⟩ := bind_eq_ok run
  obtain ⟨kept, is, wrote, climbs⟩ := h grown first
  obtain ⟨kept', js, wrote', climbs'⟩ := h' a (grown.trans kept) rest
  exact ⟨kept.trans kept', is ++ js, wrote.trans wrote', climbs.append climbs'⟩

theorem ite {p : Prop} [Decidable p] {x y : Encode H α} (h : p → Lifts limit s o o' x)
    (h' : ¬p → Lifts limit s o o' y) : Lifts limit s o o' (if p then x else y) := by
  split
  · next holds => exact h holds
  · next fails => exact h' fails

/-- Steps that each lead back to where they began. -/
theorem forM {γ : Type} {pieces : List γ} {f : γ → Encode H Unit}
    (h : ∀ piece ∈ pieces, Lifts limit s o o (f piece)) : Lifts limit s o o (pieces.forM f) := by
  induction pieces with
  | nil => exact .pure ()
  | cons piece rest ih =>
    obtain ⟨first, others⟩ := List.forall_mem_cons.1 h
    exact .bind first fun _ => ih others

theorem of_emitted {x : Encode H Unit}
    (h : ∀ {st st'}, x st = .ok () st' → ∃ is, Emitted st st' is ∧ Climbs limit o is o') :
    Lifts limit s o o' x := by
  intro st _ st' _ run
  obtain ⟨is, emitted, climbs⟩ := h run
  exact ⟨emitted.store ▸ .refl _, is, emitted.wrote, climbs⟩

/-- An atom that one instruction spells. -/
theorem of_writes [HostObject H] {x : Encode H Unit}
    (h : ∀ {st st'}, x st = .ok () st' → ∃ u, Writes (H := H) .plain st st' u)
    (room : n + saved.sum + 1 ≤ limit) : Lifts limit s (n :: saved) ((n + 1) :: saved) x := by
  refine .of_emitted fun run => ?_
  obtain ⟨u, i, emitted, utters⟩ := h run
  exact ⟨[i], emitted, .utter utters room⟩

/-- Making an object writes nothing. -/
theorem alloc {cell : Cell H} {f : Value → Encode H α}
    (h : ∀ s' i, s.Grown s' → s'.cells[i]? = some cell → Lifts limit s' o o' (f (.ref i))) :
    Lifts limit s o o' (alloc cell >>= f) := by
  intro st b st' grown run
  obtain ⟨u, st₁, make, rest⟩ := bind_eq_ok run
  obtain ⟨rfl, store, -, silent⟩ := alloc_ok make
  have kept : st.store.Grown st₁.store := by
    rw [store]
    exact .push _ _
  have found : st₁.store.cells[st.store.size]? = some cell := by
    rw [store]
    exact Store.cell_push_last ..
  obtain ⟨kept', is, wrote, climbs⟩ := h _ _ (grown.trans kept) found (.refl _) rest
  exact ⟨kept.trans kept', is, silent.wrote.trans wrote, climbs⟩

theorem allocNamed {module qualname : String} {f : Value → Encode H α}
    (undotted : Name.Undotted ⟨module, qualname⟩)
    (h : ∀ s' u, s.Grown s' → s'.Suffices 2 u → Lifts limit s' o o' (f u)) :
    Lifts limit s o o' (allocNamed module qualname >>= f) := by
  refine .alloc fun s' i grown found => h s' _ grown ?_
  have enough : (Cell.global (.named module qualname) : Cell H).Suffices 0 2 :=
    ⟨Nat.le_refl 2, ⟨module, qualname⟩, undotted, rfl⟩
  exact .object found enough (List.forall_mem_nil _)

theorem allocTuple {f : Value → Encode H α} (each : ∀ u ∈ items, s.Suffices c u)
    (enough : items.length + c ≤ k + 1) (some_room : 0 < k)
    (h : ∀ s' u, s.Grown s' → s'.Suffices k u → Lifts limit s' o o' (f u)) :
    Lifts limit s o o' (allocTuple items >>= f) := by
  cases items with
  | nil => exact h s _ (.refl s) (.atom rfl some_room)
  | cons first rest =>
    refine .alloc fun s' i grown found => h s' _ grown (.object found ⟨nofun, enough⟩ ?_)
    exact fun u held => (each u held).grown grown

end Lifts

/-! ## Single instructions -/

theorem lifts_emit {op : Opcode} {operand : op.shape.Operand}
    (ordinary : Instruction.Ordinary ⟨op, operand⟩) (leads : op.effect.apply o = n :: saved)
    (room : n + saved.sum ≤ limit) : Lifts limit s o (n :: saved) (emit op operand) :=
  .of_emitted fun run => ⟨_, emit_ok run, .single ordinary leads room⟩

theorem lifts_mark (room : n + saved.sum ≤ limit) :
    Lifts limit s (n :: saved) (0 :: n :: saved) (emit .mark ()) := by
  refine lifts_emit (.of trivial rfl) rfl ?_
  rwa [List.sum_cons, Nat.zero_add]

theorem lifts_pops (count : Nat) (room : n + count + saved.sum ≤ limit) :
    Lifts limit s ((n + count) :: saved) (n :: saved) (emitTimes count .pop ()) :=
  .of_emitted fun run => ⟨_, emitTimes_ok run, .pops count room⟩

/-- The items behind a mark are dropped, and the mark. -/
theorem lifts_popsMark (count : Nat) (room : n + count + saved.sum ≤ limit) :
    Lifts limit s ((0 + count) :: n :: saved) (n :: saved) (emitTimes (count + 1) .pop ()) := by
  refine .of_emitted fun run => ⟨_, emitTimes_ok run, ?_⟩
  rw [List.replicate_succ']
  refine (Climbs.pops count ?_).append (.single (.of trivial rfl) rfl ?_)
  · rw [List.sum_cons]
    omega
  · rw [List.sum_cons]
    omega

theorem lifts_emitGet (p : Protocol) (id : Nat) (room : n + saved.sum + 1 ≤ limit) :
    Lifts limit s (n :: saved) ((n + 1) :: saved) (emitGet p id) := by
  refine .of_emitted fun run => ⟨_, emitGet_ok run, ?_⟩
  unfold getInstruction
  split
  · split
    · exact .push (.of trivial rfl) rfl room
    · exact .push (.of trivial rfl) rfl room
  · exact .push (.of (Literal.newline_not_mem_decimalLine _) rfl) rfl room

theorem climbs_putInstruction (p : Protocol) (id : Nat) (room : n + saved.sum ≤ limit) :
    Climbs limit (n :: saved) [putInstruction p id] (n :: saved) := by
  unfold putInstruction
  split
  · exact .still (.of trivial rfl) rfl room
  split
  · split
    · exact .still (.of trivial rfl) rfl room
    · exact .still (.of trivial rfl) rfl room
  · exact .still (.of (Literal.newline_not_mem_decimalLine _) rfl) rfl room

theorem climbs_extensionInstruction (code : Nat) (room : n + saved.sum + 1 ≤ limit) :
    Climbs limit (n :: saved) [extensionInstruction code] ((n + 1) :: saved) := by
  obtain ⟨-, same⟩ | ⟨-, same⟩ | ⟨-, same⟩ := extensionInstruction_cases code
  all_goals
    rw [same]
    exact .push (.of trivial rfl) rfl room

theorem lifts_memoize (p : Protocol) (v : Value) (room : n + saved.sum ≤ limit) :
    Lifts limit s (n :: saved) (n :: saved) (memoize p v) := by
  cases v with
  | ref id =>
    intro st _ st' _ run
    obtain ⟨-, store, -, wrote⟩ := memoizeAs_emits run
    exact ⟨store ▸ .refl _, _, wrote, climbs_putInstruction p _ room⟩
  | _ => exact .pure ()

/-- Either something is fetched, or it is written. -/
theorem lifts_memoizedValue {f : Option Nat → Encode H α}
    (known : ∀ id, Lifts limit s o o' (f (some id))) (new : Lifts limit s o o' (f none)) :
    Lifts limit s o o' (memoizedValue v >>= f) := by
  intro st a st' grown run
  cases v with
  | ref i =>
    have run : (memoized (.object i) >>= f) st = .ok a st' := run
    rw [bind_ok (memoized_ok (.object i) st)] at run
    cases found : st.memo[Identity.object i]? with
    | none =>
      rw [found] at run
      exact new grown run
    | some id =>
      rw [found] at run
      exact known id grown run
  | _ => exact new grown run

theorem lifts_memoizeBuilt (cfg : Config H) (v : Value) (room : n + saved.sum + 1 ≤ limit) :
    Lifts limit s ((n + 1) :: saved) ((n + 1) :: saved) (memoizeBuilt cfg v) := by
  have known : ∀ id, Lifts limit s ((n + 1) :: saved) ((n + 1) :: saved)
      (emit .pop () >>= fun _ => emitGet cfg.protocol id) := fun id =>
    .bind (lifts_emit (.of trivial rfl) rfl (by omega)) fun _ => lifts_emitGet _ id room
  exact lifts_memoizedValue known (lifts_memoize _ v (by omega))

/-! ## Batches -/

theorem length_le_batchSize {γ : Type} (list : List γ) :
    ∀ piece ∈ batches list, piece.length ≤ batchSize := by
  induction list using batches.induct with
  | case1 list short =>
    rw [batches, if_pos short]
    exact List.forall_mem_singleton.2 (Nat.le_of_lt short)
  | case2 list long ih =>
    rw [batches, if_neg long]
    exact List.forall_mem_cons.2 ⟨List.length_take_le .., ih⟩

/-- A container that takes in each batch before the next one begins. -/
theorem lifts_batches {γ : Type} {list : List γ} {f : List γ → Encode H Unit} {P : γ → Prop}
    (each : ∀ a ∈ list, P a)
    (h : ∀ piece : List γ, (∀ a ∈ piece, P a) → piece.length ≤ batchSize → Lifts limit s o o (f piece)) :
    Lifts limit s o o ((batches list).forM f) := by
  refine .forM fun piece mem => h piece (fun a inside => each a ?_) (length_le_batchSize list piece mem)
  rw [← Trip.flatten_batches list]
  exact List.mem_flatten_of_mem mem inside

/-! ## Items and entries -/

/-- What suffices for a value suffices when this action writes it. -/
def Raises (limit : Nat) (save : Value → Encode H Unit) : Prop :=
  ∀ ⦃s : Store H⦄ ⦃k : Nat⦄ ⦃v : Value⦄ ⦃n : Nat⦄ ⦃saved : List Nat⦄, s.Suffices k v →
    n + saved.sum + k ≤ limit → Lifts limit s (n :: saved) ((n + 1) :: saved) (save v)

section
variable {cfg : Config H} {save : Value → Encode H Unit} (raises : Raises limit save)
  {entries : List (Value × Value)}
include raises

theorem lifts_saveAll (each : ∀ u ∈ items, s.Suffices c u)
    (room : n + saved.sum + (items.length + c) ≤ limit + 1) :
    Lifts limit s (n :: saved) ((n + items.length) :: saved) (saveAll save items) := by
  induction items generalizing n with
  | nil => exact .pure ()
  | cons v rest ih =>
    obtain ⟨first, others⟩ := List.forall_mem_cons.1 each
    rw [List.length_cons] at room ⊢
    have later : Lifts limit s ((n + 1) :: saved) ((n + 1 + rest.length) :: saved) (saveAll save rest) :=
      ih others (by omega)
    rw [Nat.add_assoc, Nat.add_comm 1] at later
    exact .bind (raises first (by omega)) fun _ => later

theorem lifts_saveEntries (each : ∀ e ∈ entries, s.Suffices c e.1 ∧ s.Suffices c e.2)
    (room : n + saved.sum + (2 * entries.length + c) ≤ limit + 1) :
    Lifts limit s (n :: saved) ((n + 2 * entries.length) :: saved) (saveEntries save entries) := by
  induction entries generalizing n with
  | nil => exact .pure ()
  | cons e rest ih =>
    obtain ⟨⟨key, content⟩, others⟩ := List.forall_mem_cons.1 each
    rw [List.length_cons] at room ⊢
    have first : Lifts limit s (n :: saved) ((n + 1) :: saved) (save e.1) := raises key (by omega)
    have second : Lifts limit s ((n + 1) :: saved) ((n + 1 + 1) :: saved) (save e.2) :=
      raises content (by omega)
    have later : Lifts limit s ((n + 1 + 1) :: saved) ((n + 1 + 1 + 2 * rest.length) :: saved)
        (saveEntries save rest) := ih others (by omega)
    have height : n + 1 + 1 + 2 * rest.length = n + 2 * (rest.length + 1) := by omega
    rw [height] at later
    exact .bind first fun _ => .bind second fun _ => later

/-- A batch is gathered behind a mark, above the container that takes it in. -/
theorem lifts_gathered {op : Opcode} {operand : op.shape.Operand}
    (ordinary : Instruction.Ordinary ⟨op, operand⟩) (effect : op.effect = .gather 0)
    (each : ∀ u ∈ items, s.Suffices c u) (short : items.length ≤ batchSize)
    (room : n + saved.sum + (batchSize + c) ≤ limit) :
    Lifts limit s ((n + 1) :: saved) ((n + 1) :: saved)
      (emit .mark () >>= fun _ => saveAll save items >>= fun _ => emit op operand) := by
  have batch := batchSize_pos
  have gathered : Lifts limit s (0 :: (n + 1) :: saved) ((0 + items.length) :: (n + 1) :: saved)
      (saveAll save items) := by
    apply lifts_saveAll raises each
    rw [List.sum_cons]
    omega
  have leads : op.effect.apply ((0 + items.length) :: (n + 1) :: saved) = (n + 1) :: saved := by
    rw [effect, Effect.apply]
  have taken : Lifts limit s ((0 + items.length) :: (n + 1) :: saved) ((n + 1) :: saved)
      (emit op operand) := lifts_emit ordinary leads (by omega)
  exact .bind (lifts_mark (by omega)) fun _ => .bind gathered fun _ => taken

theorem lifts_appendBatch (each : ∀ u ∈ items, s.Suffices c u) (short : items.length ≤ batchSize)
    (room : n + saved.sum + (batchSize + c) ≤ limit) :
    Lifts limit s ((n + 1) :: saved) ((n + 1) :: saved) (appendBatch save items) := by
  have batch := batchSize_pos
  rcases items with _ | ⟨v, _ | ⟨w, rest⟩⟩
  · exact .pure ()
  · refine .bind (raises (each v (List.mem_cons_self ..)) ?_) fun _ => lifts_emit (.of trivial rfl) rfl ?_
    all_goals omega
  · exact lifts_gathered raises (.of trivial rfl) rfl each short room

theorem lifts_appendItems (each : ∀ u ∈ items, s.Suffices c u)
    (room : n + saved.sum + (batchSize + c) ≤ limit) :
    Lifts limit s ((n + 1) :: saved) ((n + 1) :: saved) (appendItems cfg save items) := by
  have batch := batchSize_pos
  refine .ite (fun _ => ?_) fun _ => ?_
  · exact lifts_batches each fun piece held short => lifts_appendBatch raises held short room
  · -- protocol 0 takes in each item by itself
    induction items with
    | nil => exact .pure ()
    | cons v rest ih =>
      obtain ⟨first, others⟩ := List.forall_mem_cons.1 each
      have item : Lifts limit s ((n + 1) :: saved) ((n + 1 + 1) :: saved) (save v) :=
        raises first (by omega)
      exact .bind item fun _ => .bind (lifts_emit (.of trivial rfl) rfl (by omega)) fun _ => ih others

/-- A key and its content are on the stack together. -/
theorem lifts_storeEntry {e : Value × Value} {x : Encode H α} (key : s.Suffices c e.1)
    (content : s.Suffices c e.2) (room : n + saved.sum + (2 * batchSize + c) ≤ limit)
    (rest : Lifts limit s ((n + 1 + 1 + 1) :: saved) o' x) :
    Lifts limit s ((n + 1) :: saved) o' (save e.1 >>= fun _ => save e.2 >>= fun _ => x) := by
  have batch := batchSize_pos
  have first : Lifts limit s ((n + 1) :: saved) ((n + 1 + 1) :: saved) (save e.1) :=
    raises key (by omega)
  have second : Lifts limit s ((n + 1 + 1) :: saved) ((n + 1 + 1 + 1) :: saved) (save e.2) :=
    raises content (by omega)
  exact .bind first fun _ => .bind second fun _ => rest

theorem lifts_storeBatch (each : ∀ e ∈ entries, s.Suffices c e.1 ∧ s.Suffices c e.2)
    (short : entries.length ≤ batchSize) (room : n + saved.sum + (2 * batchSize + c) ≤ limit) :
    Lifts limit s ((n + 1) :: saved) ((n + 1) :: saved) (storeBatch save entries) := by
  have batch := batchSize_pos
  rcases entries with _ | ⟨e, _ | ⟨e', rest⟩⟩
  · exact .pure ()
  · obtain ⟨key, content⟩ := each e (List.mem_cons_self ..)
    exact lifts_storeEntry raises key content room (lifts_emit (.of trivial rfl) rfl (by omega))
  · have gathered : Lifts limit s (0 :: (n + 1) :: saved)
        ((0 + 2 * (e :: e' :: rest).length) :: (n + 1) :: saved) (saveEntries save (e :: e' :: rest)) := by
      apply lifts_saveEntries raises each
      rw [List.sum_cons]
      omega
    exact .bind (lifts_mark (by omega)) fun _ => .bind gathered fun _ =>
      lifts_emit (.of trivial rfl) rfl (by omega)

theorem lifts_storeEntries (each : ∀ e ∈ entries, s.Suffices c e.1 ∧ s.Suffices c e.2)
    (room : n + saved.sum + (2 * batchSize + c) ≤ limit) :
    Lifts limit s ((n + 1) :: saved) ((n + 1) :: saved) (storeEntries cfg save entries) := by
  have batch := batchSize_pos
  refine .ite (fun _ => ?_) fun _ => ?_
  · exact lifts_batches each fun piece held short => lifts_storeBatch raises held short room
  · induction entries with
    | nil => exact .pure ()
    | cons e rest ih =>
      obtain ⟨⟨key, content⟩, others⟩ := List.forall_mem_cons.1 each
      exact lifts_storeEntry raises key content room
        (.bind (lifts_emit (.of trivial rfl) rfl (by omega)) fun _ => ih others)

theorem lifts_addBatch (each : ∀ u ∈ items, s.Suffices c u) (short : items.length ≤ batchSize)
    (room : n + saved.sum + (batchSize + c) ≤ limit) :
    Lifts limit s ((n + 1) :: saved) ((n + 1) :: saved) (addBatch save items) := by
  cases items with
  | nil => exact .pure ()
  | cons v rest => exact lifts_gathered raises (.of trivial rfl) rfl each short room

end

/-! ## Globals, tuples and calls -/

section
variable {cfg : Config H} {save : Value → Encode H Unit} {name : Name}

/-- A name without dots is written as a code, as two texts or on two lines. -/
theorem lifts_writeGlobal [HostObject H] (undotted : name.Undotted) (room : n + saved.sum + 2 ≤ limit) :
    Lifts limit s (n :: saved) ((n + 1) :: saved) (writeGlobal cfg save name) := by
  intro st given st' _ run
  obtain ⟨is, emitted, climbs⟩ : ∃ is, Emitted st st' is ∧
      Climbs limit (n :: saved) is ((n + 1) :: saved) := by
    obtain ⟨code, -, -, -, emitted⟩ | ⟨-, -, emitted⟩ | ⟨-, -, -, emitted⟩ |
      ⟨-, -, parent, last, rest, dotted, -⟩ := writeGlobal_cases run
    · exact ⟨_, emitted, climbs_extensionInstruction code (by omega)⟩
    · have module : Climbs limit (n :: saved) [textInstruction cfg.protocol name.module]
          ((n + 1) :: saved) := .utter (H := H) (Decoder.utters_textInstruction ..) (by omega)
      have qualname : Climbs limit ((n + 1) :: saved) [textInstruction cfg.protocol name.qualname]
          ((n + 1 + 1) :: saved) := .utter (H := H) (Decoder.utters_textInstruction ..) (by omega)
      have made : Climbs limit ((n + 1 + 1) :: saved) [⟨.stackGlobal, ()⟩] ((n + 1) :: saved) := by
        refine .single (.of trivial rfl) rfl ?_
        rw [List.sum_cons]
        omega
      exact ⟨_, emitted, module.append (qualname.append made)⟩
    · have first := firstSegment_of_undotted undotted.whole
      have fits := cfg.fits_lines undotted.unbroken.module (first ▸ undotted.unbroken.first)
      exact ⟨_, emitted, .push (.of fits rfl) rfl (by omega)⟩
    · rw [undotted.whole] at dotted
      cases dotted
  exact ⟨emitted.store ▸ .refl _, is, emitted.wrote, climbs⟩

theorem lifts_saveGlobal [HostObject H] (undotted : name.Undotted) (room : n + saved.sum + 2 ≤ limit) :
    Lifts limit s (n :: saved) ((n + 1) :: saved)
      (saveGlobal cfg save v (.named name.module name.qualname)) := by
  refine .bind (lifts_writeGlobal undotted room) fun given => ?_
  cases given with
  | false => exact .pure ()
  | true => exact lifts_memoize _ v (by omega)

end

section
variable {cfg : Config H} {save : Value → Encode H Unit} (raises : Raises limit save)
  {entries : List (Value × Value)}
include raises

/-- The items are dropped again if they have led back to the tuple. -/
theorem lifts_saveTuple (some_item : items ≠ []) (each : ∀ u ∈ items, s.Suffices c u)
    (enough : items.length + c ≤ k + 1) (room : n + saved.sum + k ≤ limit) :
    Lifts limit s (n :: saved) ((n + 1) :: saved) (saveTuple cfg save v items) := by
  have first := (each _ (List.head_mem some_item)).pos
  have length := List.length_pos_iff.2 some_item
  refine .ite (fun short => ?_) fun _ => ?_
  · simp only [Bool.and_eq_true, decide_eq_true_eq] at short
    obtain ⟨few, -⟩ := short
    refine .bind (lifts_saveAll raises each (by omega)) fun _ => lifts_memoizedValue (fun id => ?_) ?_
    · exact .bind (lifts_pops _ (by omega)) fun _ => lifts_emitGet _ id (by omega)
    · refine .bind ?_ fun _ => lifts_memoize _ v (by omega)
      -- each length up to three has an instruction of its own
      rcases items with _ | ⟨_, _ | ⟨_, _ | ⟨_, _ | _⟩⟩⟩
      · exact absurd rfl some_item
      · exact lifts_emit (.of trivial rfl) rfl (by omega)
      · exact lifts_emit (.of trivial rfl) rfl (by omega)
      · exact lifts_emit (.of trivial rfl) rfl (by omega)
      · simp only [List.length_cons] at few
        omega
  · have gathered : Lifts limit s (0 :: n :: saved) ((0 + items.length) :: n :: saved)
        (saveAll save items) := by
      refine lifts_saveAll raises each ?_
      rw [List.sum_cons]
      omega
    refine .bind (lifts_mark (by omega)) fun _ => .bind gathered fun _ =>
      lifts_memoizedValue (fun id => .ite (fun _ => ?_) fun _ => ?_) ?_
    · exact .bind (lifts_emit (.of trivial rfl) rfl (by omega)) fun _ => lifts_emitGet _ id (by omega)
    · exact .bind (lifts_popsMark _ (by omega)) fun _ => lifts_emitGet _ id (by omega)
    · exact .bind (lifts_emit (.of trivial rfl) rfl (by omega)) fun _ => lifts_memoize _ v (by omega)

/-- The global and its arguments make way for what the call gives. -/
theorem lifts_saveNamedCall {module qualname : String} {obj : Option Value}
    (plain : qualname ≠ "__newobj_ex__" ∧ qualname ≠ "__newobj__")
    (undotted : Name.Undotted ⟨module, qualname⟩) (each : ∀ u ∈ items, s.Suffices c u)
    (enough : items.length + c ≤ k + 1) (some_room : 0 < k) (room : n + saved.sum + (1 + k) ≤ limit) :
    Lifts limit s (n :: saved) ((n + 1) :: saved)
      (saveNamedCall cfg save module qualname items obj) := by
  rw [saveNamedCall_eq plain]
  -- the global and the tuple are made first, and what is written later finds them
  refine .allocNamed undotted fun s₁ function grown₁ named => ?_
  have each₁ : ∀ u ∈ items, s₁.Suffices c u := fun u mem => (each u mem).grown grown₁
  refine .allocTuple each₁ enough some_room fun s₂ args grown₂ tuple => ?_
  have first : Lifts limit s₂ (n :: saved) ((n + 1) :: saved) (save function) :=
    raises (named.grown grown₂) (by omega)
  have second : Lifts limit s₂ ((n + 1) :: saved) ((n + 1 + 1) :: saved) (save args) :=
    raises tuple (by omega)
  have called : Lifts limit s₂ ((n + 1 + 1) :: saved) ((n + 1) :: saved) (emit .reduce ()) :=
    lifts_emit (.of trivial rfl) rfl (by omega)
  refine .bind first fun _ => .bind second fun _ => .bind called fun _ => ?_
  cases obj with
  | none => exact .pure ()
  | some v => exact lifts_memoizeBuilt cfg v (by omega)

/-! ## Kinds of objects -/

theorem lifts_saveBytes [HostObject H] (bytes : Bytes) (room : n + saved.sum + 3 ≤ limit) :
    Lifts limit s (n :: saved) ((n + 1) :: saved) (saveBytes cfg save bytes) := by
  refine .ite (fun _ => ?_) fun _ => .ite (fun _ => ?_) fun _ => ?_
  · exact .of_writes (fun run => ⟨_, saveBinary_writes run⟩) (by omega)
  · exact lifts_saveNamedCall raises (k := 1) (c := 1) (by decide) ⟨⟨by decide, by decide⟩, by decide⟩
      (List.forall_mem_nil _) (by decide) (by decide) (by omega)
  · refine lifts_saveNamedCall raises (k := 2) (c := 1) (by decide) ⟨⟨by decide, by decide⟩, by decide⟩
      (fun u mem => ?_) (Nat.le_refl 3) (by decide) room
    rcases List.mem_pair.1 mem with rfl | rfl
    · exact .atom rfl (Nat.le_refl 1)
    · exact .atom rfl (Nat.le_refl 1)

theorem lifts_saveByteArray (v : Value) (data : Bytes) (room : n + saved.sum + 4 ≤ limit) :
    Lifts limit s (n :: saved) ((n + 1) :: saved) (saveByteArray cfg save v data) := by
  refine .ite (fun _ => ?_) fun _ => ?_
  · have payload : Lifts limit s (n :: saved) ((n + 1) :: saved) (emitPayload .byteArray8 data) :=
      .of_emitted fun run => ⟨_, emitPayload_ok run, .push (.of trivial rfl) rfl (by omega)⟩
    exact .bind payload fun _ => lifts_memoize _ v (by omega)
  · have each : ∀ u ∈ if data.isEmpty then [] else [Value.bytes data], s.Suffices 3 u := by
      intro u mem
      split at mem
      · cases mem
      · rw [List.mem_singleton.1 mem]
        exact .atom rfl (Nat.le_refl 3)
    have enough : (if data.isEmpty then [] else [Value.bytes data]).length + 3 ≤ 3 + 1 := by
      split
      · decide
      · exact Nat.le_refl 4
    exact lifts_saveNamedCall raises (by decide) ⟨⟨by decide, by decide⟩, by decide⟩ each enough
      (by decide) room

/-- A list that is not batched is made at a mark. -/
theorem lifts_saveList (v : Value) (each : ∀ u ∈ items, s.Suffices c u)
    (room : n + saved.sum + (batchSize + c) ≤ limit) :
    Lifts limit s (n :: saved) ((n + 1) :: saved) (saveList cfg save v items) := by
  have batch := batchSize_pos
  have rest : Lifts limit s ((n + 1) :: saved) ((n + 1) :: saved)
      (memoize cfg.protocol v >>= fun _ => appendItems cfg save items) :=
    .bind (lifts_memoize _ v (by omega)) fun _ => lifts_appendItems raises each room
  refine .ite (fun _ => ?_) fun _ => ?_
  · exact .bind (lifts_emit (.of trivial rfl) rfl (by omega)) fun _ => rest
  · exact .bind (lifts_mark (by omega)) fun _ =>
      .bind (lifts_emit (.of trivial rfl) rfl (by omega)) fun _ => rest

theorem lifts_saveDict (v : Value) (each : ∀ e ∈ entries, s.Suffices c e.1 ∧ s.Suffices c e.2)
    (room : n + saved.sum + (2 * batchSize + c) ≤ limit) :
    Lifts limit s (n :: saved) ((n + 1) :: saved) (saveDict cfg save v entries) := by
  have batch := batchSize_pos
  have rest : Lifts limit s ((n + 1) :: saved) ((n + 1) :: saved)
      (memoize cfg.protocol v >>= fun _ => storeEntries cfg save entries) :=
    .bind (lifts_memoize _ v (by omega)) fun _ => lifts_storeEntries raises each room
  refine .ite (fun _ => ?_) fun _ => ?_
  · exact .bind (lifts_emit (.of trivial rfl) rfl (by omega)) fun _ => rest
  · exact .bind (lifts_mark (by omega)) fun _ =>
      .bind (lifts_emit (.of trivial rfl) rfl (by omega)) fun _ => rest

/-- Before protocol 4 the list of the members stands above the global that is called. -/
theorem lifts_saveSet (v : Value) (each : ∀ u ∈ items, s.Suffices c u)
    (room : n + saved.sum + (1 + (batchSize + c)) ≤ limit) :
    Lifts limit s (n :: saved) ((n + 1) :: saved) (saveSet cfg save v items) := by
  have batch := batchSize_pos
  refine .ite (fun _ => ?_) fun _ => ?_
  · refine .bind (lifts_emit (.of trivial rfl) rfl ?_) fun _ => .bind (lifts_memoize _ v ?_) fun _ =>
      lifts_batches each fun piece held short => lifts_addBatch raises held short ?_
    all_goals omega
  · refine .alloc fun s' i grown found => ?_
    have list : s'.Suffices (batchSize + c) (.ref i) := by
      refine .object found (Nat.le_refl _) fun u held => (each u ?_).grown grown
      simpa [Cell.children, Cell.keys, Cell.contents] using held
    exact lifts_saveNamedCall raises (by decide) ⟨⟨by decide, by decide⟩, by decide⟩
      (List.forall_mem_singleton.2 list) (Nat.le_of_eq (Nat.add_comm ..)) (by omega) room

theorem lifts_saveCell [HostObject H] (i : Nat) {cell : Cell H} (enough : cell.Suffices c k)
    (inside : ∀ u ∈ cell.children, s.Suffices c u) (room : n + saved.sum + k ≤ limit) :
    Lifts limit s (n :: saved) ((n + 1) :: saved) (saveCell cfg save i cell) := by
  cases cell with
  | bytearray data =>
    have enough : 4 ≤ k := enough
    exact lifts_saveByteArray raises _ data (by omega)
  | list items =>
    have enough : batchSize + c ≤ k := enough
    refine lifts_saveList raises _ (fun u held => inside u ?_) (by omega)
    exact Cell.mem_children.2 (.inr held)
  | tuple items =>
    obtain ⟨some_item, enough⟩ := enough
    refine lifts_saveTuple raises some_item (fun u held => inside u ?_) enough room
    exact Cell.mem_children.2 (.inr held)
  | dict entries =>
    have enough : 2 * batchSize + c ≤ k := enough
    refine lifts_saveDict raises _ (fun e held => ⟨inside _ ?_, inside _ ?_⟩) (by omega)
    · exact Cell.mem_children.2 (.inl (List.mem_map_of_mem held))
    · exact Cell.mem_children.2 (.inr (List.mem_map_of_mem held))
  | set members =>
    have enough : 1 + (batchSize + c) ≤ k := enough
    refine lifts_saveSet raises _ (fun u held => inside u ?_) (by omega)
    exact Cell.mem_children.2 (.inl held)
  | global g =>
    obtain ⟨enough, name, undotted, rfl⟩ := enough
    exact lifts_saveGlobal undotted (by omega)
  | frozenset | inst | object => exact enough.elim

theorem lifts_saveContent [HostObject H] (enough : s.Suffices k v) (room : n + saved.sum + k ≤ limit) :
    Lifts limit s (n :: saved) ((n + 1) :: saved) (saveContent cfg save v) := by
  have some_room := enough.pos
  cases enough with
  | @object inner _ i cell found enough inside =>
    intro st a st' grown run
    -- an object that was written before is fetched
    have run : (memoized (.object i) >>= _) st = .ok a st' := run
    rw [bind_ok (memoized_ok ..)] at run
    cases known : st.memo[Identity.object i]? with
    | some id =>
      rw [known] at run
      have fetched : Lifts limit s (n :: saved) ((n + 1) :: saved) (emitGet cfg.protocol id) :=
        lifts_emitGet _ id (by omega)
      exact fetched grown run
    | none =>
      rw [known] at run
      simp only [bind_ok (get_apply st), grown _ _ found] at run
      exact lifts_saveCell raises i enough inside room grown run
  | atom atom enough =>
    cases v with
    | none => exact lifts_emit (.of trivial rfl) rfl (by omega)
    | bool b => exact .of_writes (fun run => ⟨_, saveBool_writes run⟩) (by omega)
    | int m => exact .of_writes (fun run => ⟨_, saveWord_writes run⟩) (by omega)
    | long m => exact .of_writes (fun run => ⟨_, saveLong_writes run⟩) (by omega)
    | float x =>
      refine .of_writes (fun run => ?_) (by omega)
      obtain ⟨y, -, writes⟩ := saveFloat_writes run
      exact ⟨_, writes⟩
    | complex re im =>
      have enough : 3 ≤ k := enough
      refine lifts_saveNamedCall raises (k := 2) (c := 1) (by decide) ⟨⟨by decide, by decide⟩, by decide⟩
        (fun u mem => ?_) (Nat.le_refl 3) (by decide) (by omega)
      rcases List.mem_pair.1 mem with rfl | rfl
      · exact .atom rfl (Nat.le_refl 1)
      · exact .atom rfl (Nat.le_refl 1)
    | str text => exact .of_writes (fun run => ⟨_, saveText_writes run⟩) (by omega)
    | bytes bytes =>
      have enough : 3 ≤ k := enough
      exact lifts_saveBytes raises bytes (by omega)
    | emptyTuple =>
      refine .ite (fun _ => lifts_emit (.of trivial rfl) rfl (by omega)) fun _ => ?_
      exact .bind (lifts_mark (by omega)) fun _ => lifts_emit (.of trivial rfl) rfl (by omega)
    | ref i => cases atom

end

/-! ## Whole values -/

/-- Whatever room suffices for a value, its stream climbs no higher above what is on the stack before
    it, and leaves one item there. -/
theorem lifts_save [HostObject H] {cfg : Config H} (plain : cfg.persistentId = none) (room : Nat)
    (persistent : Bool) : Raises limit (save cfg room persistent) := by
  induction room generalizing persistent with
  | zero =>
    intro s k v n saved _ _ st a st' _ run
    cases run
  | succ room ih =>
    intro s k v n saved enough within st _ st' grown run
    obtain ⟨st₁, st₂, before, written, after⟩ := save_ok plain run
    have grown₁ : s.Grown st₁.store := by rwa [before.store]
    obtain ⟨kept, is, wrote, climbs⟩ := lifts_saveContent (ih true) enough within grown₁ written
    refine ⟨?_, [] ++ (is ++ []), before.wrote.trans (wrote.trans after.wrote), ?_⟩
    · rw [after.store, ← before.store]
      exact kept
    · rwa [List.nil_append, List.append_nil]

/-- A dump begins on an empty stack. -/
theorem dumps_climbs [HostObject H] {cfg : Config H} {bytes : Bytes} (plain : cfg.persistentId = none)
    (enough : s.Suffices limit v) (dumped : dumps cfg s v = (.ok bytes, s')) :
    ∃ is, Spells (is ++ [⟨.stop, ()⟩]) bytes ∧ Climbs limit [0] is [1] := by
  obtain ⟨st', run, rfl, rfl⟩ := dumps_ok dumped
  obtain ⟨st₁, st₂, announced, saved, ended, bare⟩ := dump_ok rfl run
  have announces : Climbs limit [0] cfg.announcement [0] := by
    unfold Config.announcement
    split
    · exact .still (.of trivial rfl) rfl (Nat.zero_le _)
    · exact .nil _
  have grown : s.Grown st₁.store := by
    rw [announced.store]
    exact .refl s
  have within : 0 + List.sum [] + limit ≤ limit := by simp
  obtain ⟨-, is, wrote, climbs⟩ := lifts_save plain _ true enough within grown saved
  refine ⟨cfg.announcement ++ is, ?_, announces.append climbs⟩
  exact ((announced.wrote.trans wrote).trans ended.wrote).spells .nothing bare

end Encoder

/-! ## Containers in containers -/

open Encoder

/-- The object is a list, a dictionary or a set. -/
def Cell.Container : Cell H → Prop
  | .list _ | .dict _ | .set _ => True
  | _ => False

section
variable [HostObject H] {s s' base : Store H} {v : Value} {d : Nat} {bytes : Bytes}

/-- The value is built from atoms and byte arrays with lists, dictionaries and sets, at most `d` of them
    inside each other. Dictionaries and sets tell their keys apart. -/
inductive Store.Nested (s : Store H) : Nat → Value → Prop
  | atom {d : Nat} {v : Value} (atom : v.identity? = none) : s.Nested d v
  | bytearray {d i : Nat} {data : Bytes} (found : s.cells[i]? = some (.bytearray data)) :
      s.Nested d (.ref i)
  | container {d i : Nat} {cell : Cell H} (found : s.cells[i]? = some cell) (kind : cell.Container)
      (orderly : cell.Orderly s True) (inside : ∀ u ∈ cell.children, s.Nested d u) :
      s.Nested (d + 1) (.ref i)

namespace Store.Nested

theorem tidy (h : s.Nested d v) : s.Tidy True (fun _ => False) v := by
  induction h with
  | atom atom => exact .of_atom atom
  | bytearray found =>
    exact .of_cell found trivial trivial (Cell.orderly_of_no_keys rfl trivial) (List.forall_mem_nil _)
  | @container d i cell found kind orderly _ ih =>
    refine .of_cell found ?_ ?_ orderly ih
    all_goals
      cases cell with
      | list | dict | set => trivial
      | _ => exact kind.elim

/-- Each level takes a batch of entries at most, and what is innermost four items. -/
theorem suffices_room (h : s.Nested d v) : s.Suffices (2000 * d + 4) v := by
  induction h with
  | @atom d v atom =>
    refine .atom atom ?_
    unfold Value.room
    split
    all_goals omega
  | @bytearray d i data found =>
    have enough : (Cell.bytearray data : Cell H).Suffices 0 (2000 * d + 4) := Nat.le_add_left ..
    exact .object found enough (List.forall_mem_nil _)
  | @container d i cell found kind _ _ ih =>
    refine .object found ?_ ih
    have batch : batchSize = 1000 := rfl
    cases cell with
    | list | dict | set =>
      simp only [Cell.Suffices, batch]
      omega
    | _ => exact kind.elim

end Store.Nested

/-- A stream of containers in containers, `d` of them inside each other at most, is read back under a
    limit of the stack that depends on `d` only: the containers may be as long as they like. -/
theorem loads_dumps_batched {p : Protocol} {limits : Limits} {n n' : Nat} {host host' : Host H}
    (nested : s.Nested d v)
    (dumped : Encoder.dumps { registry := .seeded n, host := host, protocol := p, limits := limits } s v =
      (.ok bytes, s')) (word : bytes.length < 2 ^ 64) :
    ∃ w base', Decoder.loads
        { registry := .seeded n', host := host', limits := { maxStack := 2000 * d + 4 } } base bytes =
          (.ok w, base') ∧ Isomorphic s base' v w := by
  let x : Trip H :=
    { encoder := { registry := .seeded n, host := host, protocol := p, limits := limits }
      decoder := { registry := .seeded n', host := host' }
      source := s
      total := True
      classes := fun _ => False }
  have agrees : x.Agrees :=
    Trip.agrees_of_registries rfl rfl (Registry.intact_seeded n') nofun (fun _ => False.elim)
      (fun _ _ => False.elim) fun _ => False.elim
  have tidy := nested.tidy
  have sound : x.Sound x.source v := Trip.sound_of_tidy tidy (tidy.apart tidy.bare)
  obtain ⟨w, base', loaded, alike⟩ := x.arrives base trivial agrees sound dumped rfl word
  obtain ⟨is, spelled, climbs⟩ := Encoder.dumps_climbs rfl nested.suffices_room dumped
  have bounded : bytes.length ≤ x.decoder.limits.maxFrameLength :=
    show bytes.length ≤ 2 ^ 64 - 1 by omega
  have within : Decoder.loads (x.decoder.capped (2000 * d + 4)) base bytes = (.ok w, base') :=
    climbs.loads_capped spelled word bounded loaded
  exact ⟨w, base', within, alike⟩

/-- An empty list in a list, with an atom behind it. -/
def nest : Store Empty := ⟨#[.list #[.ref 1, .none], .list #[]]⟩

theorem dumps_nest :
    Encoder.dumps { registry := .seeded 0, host := {}, protocol := 2 } nest (.ref 0) =
      (.ok [0x80, 2, 0x5d, 0x71, 0, 0x28, 0x5d, 0x71, 1, 0x4e, 0x65, 0x2e], nest) := by
  refine dumps_of_drafts [(.object 1, 1), (.object 0, 0)]
    [⟨.proto, (2 : UInt8)⟩, ⟨.emptyList, ()⟩, ⟨.binPut, (0 : UInt8)⟩, ⟨.mark, ()⟩, ⟨.emptyList, ()⟩,
      ⟨.binPut, (1 : UInt8)⟩, ⟨.none, ()⟩, ⟨.appends, ()⟩] (by decide) ?_
  refine drafts_new rfl rfl rfl ?_
  refine Drafts.bind (drafts_emit ?_)
  refine Drafts.bind (drafts_memoizeAs (by decide) rfl (drafts_emit ?_))
  refine drafts_appendItems rfl (by decide) ?_
  refine Drafts.bind (drafts_emit ?_)
  -- the items
  refine Drafts.bind (Drafts.bind ?_)
  refine drafts_new rfl rfl rfl ?_
  refine Drafts.bind (drafts_emit ?_)
  refine Drafts.bind (drafts_memoizeAs (by decide) rfl (drafts_emit ?_))
  refine drafts_appendItems rfl (by decide) (Drafts.pure ?_)
  refine Drafts.bind (drafts_save rfl (drafts_emit ?_))
  refine Drafts.pure ?_
  refine drafts_emit ?_
  rfl

theorem nested_nest : nest.Nested 2 (.ref 0) := by
  have inner : nest.Nested 1 (.ref 1) :=
    .container rfl trivial (Cell.orderly_of_no_keys rfl trivial) (List.forall_mem_nil _)
  refine .container rfl trivial (Cell.orderly_of_no_keys rfl trivial) fun u held => ?_
  rcases List.mem_pair.1 held with rfl | rfl
  · exact inner
  · exact .atom rfl

theorem loads_dumps_nest : nest.Nested 2 (.ref 0) ∧ ∃ w base',
    Decoder.loads { registry := .seeded 1, host := {}, limits := { maxStack := 2000 * 2 + 4 } } {}
      [0x80, 2, 0x5d, 0x71, 0, 0x28, 0x5d, 0x71, 1, 0x4e, 0x65, 0x2e] = (.ok w, base') ∧
      Isomorphic nest base' (.ref 0) w :=
  ⟨nested_nest, loads_dumps_batched nested_nest dumps_nest (by decide)⟩

end

end ObjectStream
