import ObjectStream.Proofs.Batches

/-!
Objects that come into being on both sides.

A piece of writing creates an object if the decoder pushes a new one (`Trip.Creates`). A finished
object is remembered and then carried. A container is remembered empty, filled while it lies on the
stack, and then carried. A tuple or frozen set that was written inside itself is dropped, and the one
that was remembered is fetched.
-/

namespace ObjectStream

open Decoder (Machine Leads After)
open Encoder (Further)

variable {H ι : Type}

theorem Encoder.Further.of_insert {st st' : Encoder.State H} {a : Identity}
    (new : st.memo[a]? = none) (store : st'.store = st.store)
    (memo : st'.memo = st.memo.insert a st.memo.size) : Further st st' := by
  refine ⟨store ▸ .refl _, fun b n here => ?_⟩
  rw [memo, Std.HashMap.getElem?_insert, if_neg]
  · exact here
  · intro same
    rw [eq_of_beq same, here] at new
    cases new

theorem Decoder.After.remember {except : Option Nat} {sent : Std.HashMap Identity Nat}
    {m : Machine H} (numbers : Numbered sent m.memo) (w : Value) :
    After except m (m.remember sent.size w) := by
  refine ⟨Nat.le_refl _, fun _ _ _ => rfl, fun n v here => ?_, rfl⟩
  have below : n < sent.size := by
    by_contra above
    rw [numbers.got_none n (Nat.le_of_not_lt above)] at here
    cases here
  exact (Numbered.got_insert _ _ below).trans here

variable [HostObject H]

namespace Trip

variable {x : Trip H} {st st₁ st₂ st' : Encoder.State H} {m m' : Machine H} {busy : List Nat}
  {i j : Nat} {vs ws : List Value} {cell cell' : Cell H} {F : Filling H ι} {items : List ι}

/-- Behind `m` the machine `m'` has pushed a new object, of which `P` holds. -/
structure Created (x : Trip H) (P : (Nat → Nat → Prop) → Store H → Nat → Prop)
    (st' : Encoder.State H) (busy : List Nat) (m m' : Machine H) (j : Nat) : Prop where
  linked : x.Linked st' m' busy
  after : After none m m'
  stack : m'.stack = m.stack ++ [.ref j]
  new : m.store.size ≤ j
  known : j < m'.store.size
  fresh : ∀ i, ¬Link st'.memo m'.memo i j
  made : P (Link st'.memo m'.memo) m'.store j

/-- What was written between the two states creates an object, of which `P` holds, while the values
    are clear. -/
structure Creates (x : Trip H) (st st' : Encoder.State H) (vs : List Value)
    (P : (Nat → Nat → Prop) → Store H → Nat → Prop) : Prop where
  sent : Further st st'
  performs : x.Performs st st' fun m Q => ∃ busy, x.Linked st m busy ∧
    (∀ v ∈ vs, x.Clear st.store busy v) ∧ ∀ m' j, x.Created P st' busy m m' j → Q m'

/-- A new object is pushed behind copies of values, in the place of these. -/
theorem Gathered.created {P : (Nat → Nat → Prop) → Store H → Nat → Prop}
    {c : Cell H} (h : x.Gathered st busy m m' vs ws)
    (made : P (Link st.memo m'.memo) (m'.store.push c) m'.store.size) :
    x.Created P st busy m (m'.pushNew c) m'.store.size where
  linked := (h.linked.grow (.push m'.store c)).congr rfl rfl rfl rfl rfl
  after := by
    refine h.after.trans ⟨?_, fun k known _ => Store.cell_push_lt known, fun _ _ here => here, rfl⟩
    exact (Store.Grown.push m'.store c).size_le
  stack := by rw [← h.stack]; rfl
  new := h.after.size
  known := by
    show _ < (m'.store.push c).size
    rw [Store.size_push]
    exact Nat.lt_succ_self _
  fresh _ link := Nat.lt_irrefl _ (h.linked.lt_size link).2
  made := made

/-- Nothing was at hand before. -/
theorem Linked.gathered (h : x.Linked st m busy) : x.Gathered st busy m m [] [] :=
  ⟨h, .refl m, rfl, .nil⟩

/-- Instructions that push a new object create it. -/
theorem Emits.creates {P : (Nat → Nat → Prop) → Store H → Nat → Prop}
    {T : Machine H → (Machine H → Prop) → Prop} (h : x.Emits st st' T)
    (pushes : ∀ m Q, m.protocol = x.announced → Q (m.pushNew cell) → T m Q)
    (made : ∀ R store j, store.cells[j]? = some cell → P R store j) : x.Creates st st' [] P := by
  refine ⟨h.sent, h.performs.mono fun m Q ⟨busy, linked, _, q⟩ => pushes m Q linked.protocol ?_⟩
  refine q _ m.store.size ?_
  exact (linked.congr h.store h.memo rfl rfl rfl).gathered.created
    (made _ _ _ (Store.cell_push_last _ _))

/-- An instruction that makes a new object of values creates it. -/
theorem Gathers.creates {stacked : Machine H → List Value → Machine H} {op : Opcode}
    {operand : op.shape.Operand} (gathers : x.Gathers stacked st st₁ cell.children)
    (found : st.store.cells[i]? = some cell) (make : Encoder.emit op operand st₁ = .ok () st')
    (leads : ∀ m busy ws Q, x.Linked st₁ m busy → x.Clear st₁.store busy (.ref i) →
      List.Forall₂ (Match (Link st₁.memo m.memo)) cell.children ws →
      (∀ cell', cell.Matches (Link st₁.memo m.memo) cell' →
        cell'.Files (cell.keys.map x.source.imageOf) → cell'.Older m.store.size →
        Q (m.pushNew cell')) →
      Leads x.decoder x.total [⟨op, operand⟩] (stacked m ws) Q)
    (closed : st.store.Closed (.ref i)) :
    x.Creates st st' [.ref i] fun R store j => x.Copied R store j cell := by
  have made : x.Emits st₁ st' fun m Q => Leads x.decoder x.total [⟨op, operand⟩] m Q :=
    .of_emitted (Encoder.emit_ok make) fun _ _ h => h
  refine ⟨gathers.sent.trans made.sent, (gathers.performs.trans made.performs).mono ?_⟩
  rintro m Q ⟨busy, linked, clear, q⟩
  have clear := clear (.ref i) (List.mem_singleton.2 rfl)
  refine ⟨busy, linked, fun v held => clear.child found held, fun m' ws gathered => ?_⟩
  refine leads m' busy ws Q gathered.linked (clear.grown closed gathers.sent.store) gathered.same ?_
  intro cell' same files older
  refine q _ m'.store.size ?_
  have here : x.Gathered st' busy m m' cell.children ws := by
    refine ⟨gathered.linked.congr made.store made.memo rfl rfl rfl, gathered.after, gathered.stack, ?_⟩
    rw [made.memo]
    exact gathered.same
  refine here.created ⟨cell', Store.cell_push_last _ _, ?_, files, older⟩
  rw [made.memo]
  exact same

/-! ## Values that are dropped -/

/-- What `stacked` put on the stack is taken off it again. -/
def Drops (stacked : Machine H → List Value → Machine H) (count : Nat) (m : Machine H)
    (Q : Machine H → Prop) : Prop :=
  ∃ former ws, m = stacked former ws ∧ ws.length = count ∧ Q former

theorem pops_drop {count : Nat} (h : Encoder.emitTimes count .pop () st = .ok () st') :
    x.Emits st st' (Drops Machine.above count) := by
  refine .of_emitted (Encoder.emitTimes_ok h) ?_
  rintro _ Q ⟨former, ws, rfl, rfl, q⟩
  exact Decoder.leads_pops rfl q

theorem popMark_drops {count : Nat} (h : Encoder.emit .popMark () st = .ok () st') :
    x.Emits st st' (Drops Machine.behindMark count) := by
  refine .of_emitted (Encoder.emit_ok h) ?_
  rintro _ Q ⟨former, ws, rfl, -, q⟩
  exact Decoder.leads_popMark rfl q

/-- One `POP` more than there are values also drops the mark. -/
theorem pops_drop_mark {count : Nat} (h : Encoder.emitTimes (count + 1) .pop () st = .ok () st') :
    x.Emits st st' (Drops Machine.behindMark count) := by
  refine .of_emitted (Encoder.emitTimes_ok h) ?_
  rintro _ Q ⟨former, ws, rfl, rfl, q⟩
  rw [List.replicate_succ']
  exact Leads.append (Decoder.leads_pops (List.nil_append ws).symm
    (Decoder.leads_pop_mark rfl rfl q))

/-! ## Objects that are finished -/

/-- A finished object is remembered. -/
theorem Creates.memoized {p : Protocol}
    (creates : x.Creates st st₁ vs fun R store j => x.Copied R store j cell)
    (needs : ∀ v ∈ vs, v = .ref i) (new : st₁.memo[Identity.object i]? = none)
    (found : st₁.store.cells[i]? = some cell)
    (memo : Encoder.memoize p (.ref i) st₁ = .ok () st') : x.Carries st st' [.ref i] := by
  obtain ⟨room, store, sent, performs⟩ := memoizeAs_ok (x := x) memo
  refine ⟨creates.sent.trans (.of_insert new store sent), (creates.performs.trans performs).mono ?_⟩
  rintro m Q ⟨busy, linked, clear, q⟩
  have clear : ∀ v ∈ vs, x.Clear st.store busy v := fun v mem => by
    rw [needs v mem]
    exact clear _ (List.mem_singleton.2 rfl)
  refine ⟨busy, linked, clear, fun m' j created => ?_⟩
  have numbers := created.linked.numbers
  refine ⟨numbers.size, m.stack, .ref j, created.stack, ?_⟩
  have known := Store.lt_size_of_cell found
  have opened := created.linked.open_ new room known created.known created.fresh store sent
  have link : Link st'.memo (m'.remember st₁.memo.size (.ref j)).memo i j := by
    rw [sent]
    exact (numbers.link_insert new).2 (.inl ⟨rfl, rfl⟩)
  have closed := opened.close fun j' cell' link' found' => by
    obtain rfl := link.right link'
    rw [store, found] at found'
    obtain rfl := Option.some.inj found'
    refine .copy (Copied.mono created.made (fun a b former => ?_) fun _ here => here)
    rw [sent]
    exact (numbers.link_insert new).2 (.inr former)
  exact q _ [.ref j] ⟨closed, created.after.trans (.remember numbers _), created.stack,
    .cons (.ref link) .nil⟩

/-- An instruction that makes a finished object of values carries it. -/
theorem Gathers.carries {stacked : Machine H → List Value → Machine H} {op : Opcode}
    {operand : op.shape.Operand} {p : Protocol}
    (gathers : x.Gathers stacked st st₁ cell.children)
    (found : st.store.cells[i]? = some cell) (closed : st.store.Closed (.ref i))
    (new : st₁.memo[Identity.object i]? = none) (make : Encoder.emit op operand st₁ = .ok () st₂)
    (memo : Encoder.memoize p (.ref i) st₂ = .ok () st')
    (leads : ∀ m busy ws Q, x.Linked st₁ m busy → x.Clear st₁.store busy (.ref i) →
      List.Forall₂ (Match (Link st₁.memo m.memo)) cell.children ws →
      (∀ cell', cell.Matches (Link st₁.memo m.memo) cell' →
        cell'.Files (cell.keys.map x.source.imageOf) → cell'.Older m.store.size →
        Q (m.pushNew cell')) →
      Leads x.decoder x.total [⟨op, operand⟩] (stacked m ws) Q) : x.Carries st st' [.ref i] := by
  have made := Encoder.emit_ok make
  refine (gathers.creates found make leads closed).memoized (fun v => List.mem_singleton.1) ?_ ?_ memo
  · rw [made.memo]
    exact new
  · rw [made.store]
    exact gathers.sent.store i cell found

/-- Where the object is remembered already, what was written for it is dropped. -/
theorem Gathers.again {stacked : Machine H → List Value → Machine H} {p : Protocol} {id : Nat}
    (gathers : x.Gathers stacked st st₁ vs) (drop : x.Emits st₁ st₂ (Drops stacked vs.length))
    (fetch : Encoder.emitGet p id st₂ = .ok () st')
    (known : st₁.memo[Identity.object i]? = some id)
    (needs : ∀ busy, x.Clear st.store busy (.ref i) → ∀ v ∈ vs, x.Clear st.store busy v) :
    x.Carries st st' [.ref i] := by
  have fetched := emitGet_emits (x := x) fetch
  have emits := drop.trans fetched
  refine ⟨gathers.sent.trans emits.sent, (gathers.performs.trans emits.performs).mono ?_⟩
  rintro m Q ⟨busy, linked, clear, q⟩
  refine ⟨busy, linked, needs busy (clear _ (List.mem_singleton.2 rfl)), fun m' ws gathered => ?_⟩
  obtain ⟨j, link, found⟩ := gathered.linked.exists_link known
  have numbers := gathered.linked.numbers
  have small := Nat.lt_of_lt_of_le (numbers.sent_lt _ id known) numbers.small
  refine ⟨m', ws, rfl, gathered.same.length_eq.symm, small, _, found, q _ [.ref j] ?_⟩
  refine ⟨gathered.linked.congr emits.store emits.memo rfl rfl rfl, ?_, ?_, ?_⟩
  · exact gathered.after.trans (.of_eq rfl rfl rfl)
  · rw [← gathered.stack]
    rfl
  · rw [emits.memo]
    exact .cons (.ref link) .nil

/-- A new object is dropped where it is remembered already. -/
theorem Creates.again {P : (Nat → Nat → Prop) → Store H → Nat → Prop} {p : Protocol} {id : Nat}
    (creates : x.Creates st st₁ vs P) (needs : ∀ v ∈ vs, v = .ref i)
    (pop : Encoder.emit .pop () st₁ = .ok () st₂) (fetch : Encoder.emitGet p id st₂ = .ok () st')
    (known : st₁.memo[Identity.object i]? = some id) : x.Carries st st' [.ref i] := by
  have popped : x.Emits st₁ st₂ fun m Q => Leads x.decoder x.total [⟨.pop, ()⟩] m Q :=
    .of_emitted (Encoder.emit_ok pop) fun _ _ h => h
  have emits := popped.trans (emitGet_emits (x := x) fetch)
  refine ⟨creates.sent.trans emits.sent, (creates.performs.trans emits.performs).mono ?_⟩
  rintro m Q ⟨busy, linked, clear, q⟩
  have clear : ∀ v ∈ vs, x.Clear st.store busy v := fun v mem => by
    rw [needs v mem]
    exact clear _ (List.mem_singleton.2 rfl)
  refine ⟨busy, linked, clear, fun m' _ created => ?_⟩
  obtain ⟨j, link, found⟩ := created.linked.exists_link known
  have numbers := created.linked.numbers
  have small := Nat.lt_of_lt_of_le (numbers.sent_lt _ id known) numbers.small
  refine Decoder.leads_pop created.stack ⟨small, _, found, q _ [.ref j] ⟨?_, ?_, rfl, ?_⟩⟩
  · exact created.linked.congr emits.store emits.memo rfl rfl rfl
  · exact created.after.trans (.of_eq rfl rfl rfl)
  · rw [emits.memo]
    exact .cons (.ref link) .nil

/-! ## Objects that are filled -/

section
variable {s : Store H}

/-- The keys of an object can be used while it is not there yet. -/
theorem Sound.usable (sound : x.Sound s (.ref i)) (found : s.cells[i]? = some cell)
    (clear : x.Clear s busy (.ref i)) : x.Usable s busy cell.keys where
  hashable := (sound.object found).orderly.hashable
  distinct := (sound.object found).orderly.distinct
  closed := (sound.object found).closed
  free := clear i cell .self found
  sound _ mem := sound.child found (Cell.mem_children.2 (.inl mem))

/-- The keys of an object can be used while it is being filled. -/
theorem Sound.usable_inside (sound : x.Sound s (.ref i)) (found : s.cells[i]? = some cell)
    (clear : x.Clear s busy (.ref i)) : x.Usable s (i :: busy) cell.keys := by
  refine { sound.usable found clear with free := fun key mem b here => ?_ }
  rcases List.mem_cons.1 here with rfl | here
  · exact (sound.object found).apart key mem
  · exact (sound.usable found clear).free key mem b here

end

/-- A new object is remembered, and has taken in no items. -/
theorem Created.opened {p : Protocol}
    (created : x.Created (fun R store j => x.Copied R store j (F.cell [])) st₁ busy m m' j)
    (new : st₁.memo[Identity.object i]? = none) (known : i < st₁.store.size)
    (memo : Encoder.memoize p (.ref i) st₁ = .ok () st₂) :
    x.Open F st₂ (m'.remember st₁.memo.size (.ref j)) (i :: busy) m.stack i j [] := by
  obtain ⟨room, store, sent, -⟩ := memoizeAs_ok (x := x) memo
  have numbers := created.linked.numbers
  refine ⟨created.linked.open_ new room known created.known created.fresh store sent,
    List.mem_cons_self .., ?_, created.stack, ?_⟩
  · rw [sent]
    exact (numbers.link_insert new).2 (.inl ⟨rfl, rfl⟩)
  · refine Copied.mono created.made (fun a b former => ?_) fun _ here => here
    rw [sent]
    exact (numbers.link_insert new).2 (.inr former)

/-- An object that has taken in all items is carried. -/
theorem Open.pushed {st₂ : Encoder.State H} {former : Machine H}
    (opened : x.Open F st₂ m' (i :: busy) m.stack i j items) (shape : F.Shapes cell items)
    (found : st₂.store.cells[i]? = some cell) (after : After none m former)
    (new : m.store.size ≤ j) (filled : After (some j) former m') :
    x.Pushed st₂ busy m m' [.ref i] [.ref j] := by
  refine ⟨opened.linked.close fun j' cell' link found' => ?_, ?_, opened.stack,
    .cons (.ref opened.link) .nil⟩
  · obtain rfl := opened.link.right link
    rw [found] at found'
    obtain rfl := Option.some.inj found'
    obtain ⟨copy, here, same, files, older⟩ := opened.copied
    rw [F.keys_cell, ← shape.keys] at files
    exact .copy ⟨copy, here, shape.same _ _ same, files, older⟩
  · exact (after.weaken.trans filled).narrow new

/-- A container is created, remembered and filled. -/
theorem Creates.filled {p : Protocol}
    (creates : x.Creates st st₁ vs fun R store j => x.Copied R store j (F.cell []))
    (needs : ∀ v ∈ vs, v = .ref i) (new : st₁.memo[Identity.object i]? = none)
    (found : st.store.cells[i]? = some cell)
    (memo : Encoder.memoize p (.ref i) st₁ = .ok () st₂)
    (sound : x.Sound st.store (.ref i)) (shape : F.Shapes cell items)
    (fills : x.Fills F st₂ st' items) : x.Carries st st' [.ref i] := by
  obtain ⟨room, store, sent, performs⟩ := memoizeAs_ok (x := x) memo
  have begun : Further st st₂ := creates.sent.trans (.of_insert new store sent)
  refine ⟨begun.trans fills.sent, (creates.performs.trans (performs.trans fills.performs)).mono ?_⟩
  rintro m Q ⟨busy, linked, clear, q⟩
  have clear := clear _ (List.mem_singleton.2 rfl)
  refine ⟨busy, linked, fun v mem => by rw [needs v mem]; exact clear, fun m' j created => ?_⟩
  refine ⟨created.linked.numbers.size, m.stack, .ref j, created.stack, ?_⟩
  have found₂ := begun.store i cell found
  have sound₂ := sound.grown begun.store
  have clear₂ := clear.grown sound.closed begun.store
  have known := Store.lt_size_of_cell (creates.sent.store i cell found)
  refine ⟨i :: busy, m.stack, i, j, [], created.opened new known memo, ?_, fun v mem => ?_,
    fun m'' opened filled => q m'' [.ref j] ?_⟩
  · rw [List.nil_append, ← shape.keys]
    exact sound₂.usable_inside found₂ clear₂
  · exact clear₂.enter (linked.source.trans begun.store) sound₂ found₂ (shape.values v mem)
  · rw [List.nil_append] at opened
    exact opened.pushed shape (fills.sent.store i cell found₂)
      (created.after.trans (.remember created.linked.numbers _)) created.new filled

end Trip

end ObjectStream
