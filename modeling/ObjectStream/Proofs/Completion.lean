import ObjectStream.Proofs.Attributes
import ObjectStream.Proofs.Enactment
import ObjectStream.Proofs.Instances

/-!
Instances that are created and then completed.

A host may describe an object by the creation of an instance and by what the instance is given then:
items, entries and a state. The encoder writes them behind the creation. The decoder gives its instance
copies of the attributes that can be made of the description (`Reduction.attributes?`), or it comes to an
instruction that it refuses (`Trip.complete_dooms`, `Trip.complete_performs`).
-/

namespace ObjectStream

open Decoder (Machine Leads After Refuses)
open Encoder
open Mirror (Tables)

variable {H : Type} [HostObject H]

/-- The attributes of an instance that is given all that the reduction says. It can take no items and
    no entries. -/
def Reduction.attributes? (s : Store H) (r : Reduction) : Option Dict :=
  match r.listItems.getD [], r.dictItems.getD [], r.state with
  | [], [], none => some .empty
  | [], [], some state => s.stateAttributes? state
  | _, _, _ => none

/-- What is given to the object behind its creation. -/
def Reduction.given (r : Reduction) : List Value :=
  r.listItems.getD [] ++ (Decoder.flatten (r.dictItems.getD []) ++ r.state.toList)

omit [HostObject H] in
theorem Reduction.mem_given {r : Reduction} {v : Value} : v ∈ r.given ↔
    v ∈ r.listItems.getD [] ∨ v ∈ Decoder.flatten (r.dictItems.getD []) ∨ r.state = some v := by
  simp only [given, List.mem_append, Option.mem_toList]

theorem Reduction.attributes?_eq_some {r : Reduction} {s : Store H} {attributes : Dict}
    (h : r.attributes? s = some attributes) :
    r.listItems.getD [] = [] ∧ r.dictItems.getD [] = [] ∧
      ((r.state = none ∧ attributes = .empty) ∨
        ∃ state, r.state = some state ∧ s.stateAttributes? state = some attributes) := by
  unfold attributes? at h
  split at h
  · next items entries state =>
    cases h
    exact ⟨items, entries, .inl ⟨state, rfl⟩⟩
  · next given items entries state => exact ⟨items, entries, .inr ⟨given, state, h⟩⟩
  · cases h

namespace Encoder

variable {cfg : Config H} {save : Value → Encode H Unit} {st st' : State H} {r : Reduction} {v : Value}

section
omit [HostObject H]

theorem batches_nil {α : Type} : batches ([] : List α) = [[]] := by
  rw [batches]
  rfl

/-- Items lie in a first batch and the others. -/
theorem batches_cons {α : Type} {items : List α} (some : items ≠ []) :
    ∃ first rest, batches items = first :: rest ∧ first ≠ [] := by
  rw [batches]
  split
  · exact ⟨items, [], rfl, some⟩
  · next long =>
    refine ⟨_, _, rfl, fun none => ?_⟩
    have length := congrArg List.length none
    rw [List.length_take, List.length_nil] at length
    have : batchSize ≠ 0 := by decide
    have := List.length_pos_iff.2 some
    omega

theorem appendItems_nil : appendItems cfg save [] = (pure () : Encode H Unit) := by
  rw [appendItems, batches_nil]
  split <;> rfl

theorem storeEntries_nil : storeEntries cfg save [] = (pure () : Encode H Unit) := by
  rw [storeEntries, batches_nil]
  split <;> rfl

end

/-- What is written behind the creation of an object. -/
def complete (cfg : Config H) (save : Value → Encode H Unit) (r : Reduction) (v : Value) :
    Encode H Unit := do
  appendItems cfg save (r.listItems.getD [])
  storeEntries cfg save (r.dictItems.getD [])
  match r.state with
  | some state => saveState save (some v) state r.stateSetter
  | none => pure ()

omit [HostObject H] in
/-- A reduction is a call, and what is done with its value. -/
theorem saveReduction_ok (h : saveReduction cfg save r (some v) st = .ok () st') :
    ∃ g items st₁ st₂, st.store.global? r.callable = some g ∧ st.store.tuple? r.args = some items ∧
      saveCall cfg save r.callable g r.args items st = .ok () st₁ ∧
      memoizeBuilt cfg v st₁ = .ok () st₂ ∧ complete cfg save r v st₂ = .ok () st' := by
  obtain ⟨callable, args, state, items, entries, setter⟩ := r
  simp only [saveReduction] at h
  obtain ⟨_, st₀, get, h⟩ := bind_eq_ok h
  cases get
  cases global : st.store.global? callable with
  | none => simp only [global] at h; cases h
  | some g =>
    cases tuple : st.store.tuple? args with
    | none => simp only [global, tuple] at h; cases h
    | some operands =>
      simp only [global, tuple] at h
      obtain ⟨_, st₁, call, h⟩ := bind_eq_ok h
      obtain ⟨_, st₂, memo, h⟩ := bind_eq_ok h
      refine ⟨g, operands, st₁, st₂, rfl, rfl, call, memo, ?_⟩
      rw [complete]
      cases items <;> cases entries <;> cases state <;>
        simpa only [Option.getD_none, Option.getD_some, appendItems_nil, storeEntries_nil, pure_bind]
          using h

end Encoder

namespace Trip

variable {x : Trip H} {st st₁ st₂ st' st'' : Encoder.State H} {m : Machine H} {c : Class}
  {save : Value → Encode H Unit} {T T' : Machine H → Prop} {v : Value} {vs ws : List Value}

/-! ## Instructions that are refused -/

/-- What was written between the two states comes to an instruction that is refused. -/
def Dooms (x : Trip H) (st st' : Encoder.State H) (T : Machine H → Prop) : Prop :=
  ∃ is i js, Wrote st st' (is ++ i :: js) ∧ i.Ordinary ∧ ∀ m, T m → Leads x.decoder x.total is m
    (Refuses (Decoder.execute x.decoder i.op i.operand))

namespace Dooms

theorem mono (h : x.Dooms st st' T) (le : ∀ m, T' m → T m) : x.Dooms st st' T' := by
  obtain ⟨is, i, js, wrote, ordinary, leads⟩ := h
  exact ⟨is, i, js, wrote, ordinary, fun m start => leads m (le m start)⟩

/-- Whatever is written behind the instruction does not matter. -/
theorem later {ks : List Instruction} (h : x.Dooms st st' T) (wrote : Wrote st' st'' ks) :
    x.Dooms st st'' T := by
  obtain ⟨is, i, js, first, ordinary, leads⟩ := h
  refine ⟨is, i, js ++ ks, ?_, ordinary, leads⟩
  simpa only [List.append_assoc, List.cons_append] using first.trans wrote

theorem performs {P : Machine H → (Machine H → Prop) → Prop} (h : x.Dooms st st' T)
    (next : x.Performs st' st'' P) : x.Dooms st st'' T := by
  obtain ⟨_, wrote, -⟩ := next
  exact h.later wrote

end Dooms

theorem Performs.dooms {P : Machine H → (Machine H → Prop) → Prop} (h : x.Performs st st' P)
    (next : x.Dooms st' st'' T) : x.Dooms st st'' fun m => P m T := by
  obtain ⟨is, wrote, leads⟩ := h
  obtain ⟨js, i, ks, wrote', ordinary, leads'⟩ := next
  refine ⟨is ++ js, i, ks, ?_, ordinary, fun m start => (leads m _ start).bind leads'⟩
  rw [List.append_assoc]
  exact wrote.trans wrote'

/-- A new instance of the class lies on top of the decoder's stack, to which the host object is linked. -/
def Awaits (x : Trip H) (c : Class) (st : Encoder.State H) (m : Machine H) : Prop :=
  ∃ i content below j, x.source.cells[i]? = some (.object content) ∧
    x.Open (tableFilling (holds_inst c)) st m [i] below i j []

/-- The instruction refuses so many values if an instance is to take them. -/
def Spurns (x : Trip H) (c : Class) (stacked : Machine H → List Value → Machine H) (count : Nat)
    (i : Instruction) : Prop :=
  ∀ (m : Machine H) below j t ws, m.stack = below ++ [.ref j] →
    m.store.cells[j]? = some (.inst c t) → ws.length = count →
    Refuses (Decoder.execute x.decoder i.op i.operand) (stacked m ws)

theorem spurns_append : x.Spurns c Machine.above 1 ⟨.append, ()⟩ := by
  intro m below j t ws stack here one
  obtain ⟨w, rfl⟩ := List.length_eq_one_iff.1 one
  exact Decoder.Does.refuses (Decoder.does_pop rfl (Decoder.refuses_appendItems stack here _ _))

theorem spurns_appends (count : Nat) : x.Spurns c Machine.behindMark count ⟨.appends, ()⟩ := by
  intro m below j t ws stack here _
  exact Decoder.Does.refuses (Decoder.does_popMark rfl (Decoder.refuses_appendItems stack here _ _))

theorem spurns_setItem : x.Spurns c Machine.above 2 ⟨.setItem, ()⟩ := by
  intro m below j t ws stack here two
  obtain ⟨key, content, rfl⟩ := List.length_eq_two.1 two
  have split : (m.above [key, content]).stack = m.stack ++ [key] ++ [content] := by
    rw [List.append_assoc]
    rfl
  exact Decoder.Does.refuses (Decoder.does_pop split (Decoder.Does.refuses (Decoder.does_pop rfl
    (Decoder.refuses_setItems stack here _ _))))

theorem spurns_setItems (count : Nat) : x.Spurns c Machine.behindMark count ⟨.setItems, ()⟩ := by
  intro m below j t ws stack here _
  refine Decoder.Does.refuses (Decoder.does_popMark rfl ?_)
  split
  · exact Decoder.refuses_fail _
  · exact Decoder.refuses_setItems stack here _ _

/-! ## Host objects -/

section
variable {s : Store H} {content : H} {i : Nat}

/-- Sound values do not lead to host objects. -/
theorem Sound.unhosted (sound : x.Sound s v) (found : s.cells[i]? = some (.object content)) :
    ¬s.Reaches v (.ref i) := by
  intro reach
  obtain ⟨cell, here, inside⟩ := sound.inside i reach
  obtain rfl := Option.some.inj (here.symm.trans found)
  exact inside.plain

/-- Sound values are clear of a host object. -/
theorem Sound.clear_object (sound : x.Sound s v) (source : x.source.Grown s)
    (found : x.source.cells[i]? = some (.object content)) : x.Clear s [i] v := by
  intro k cell reach here key mem b busy back
  obtain rfl := List.mem_singleton.1 busy
  have inside : s.Reaches v key := .child reach here (Cell.mem_children.2 (.inl mem))
  exact sound.unhosted (source b _ found) (inside.trans (source.reaches back))

end

/-- Values are written, and then an instruction that refuses them. -/
theorem Gathers.dooms {stacked : Machine H → List Value → Machine H} {op : Opcode}
    {operand : op.shape.Operand} (gathers : x.Gathers stacked st st₁ vs)
    (take : emit op operand st₁ = .ok () st') (ordinary : Instruction.Ordinary ⟨op, operand⟩)
    (spurns : x.Spurns c stacked vs.length ⟨op, operand⟩) (sound : ∀ v ∈ vs, x.Sound st.store v) :
    x.Dooms st st' (x.Awaits c st) := by
  have refused : x.Dooms st₁ st' (Refuses (Decoder.execute x.decoder op operand)) :=
    ⟨[], ⟨op, operand⟩, [], (emit_ok take).wrote, ordinary, fun _ refuses => refuses⟩
  refine (gathers.performs.dooms refused).mono ?_
  rintro m ⟨i, content, below, j, object, opened⟩
  refine ⟨[i], opened.linked, fun v mem => (sound v mem).clear_object opened.linked.source object,
    fun m' ws gathered => ?_⟩
  obtain ⟨t, here, -⟩ := opened.table
  exact spurns m' below j t ws (gathered.stack.trans opened.stack) (gathered.after.cell here)
    gathered.same.length_eq.symm

/-! ## Items and entries -/

/-- If the first batch is refused, it does not matter what the others are. -/
theorem dooms_batches {ι : Type} {F : Filling H ι} {items : List ι} {f : List ι → Encode H Unit}
    (piece : ∀ items st st', f items st = .ok () st' →
      (∀ v ∈ items.flatMap F.values, x.Sound st.store v) → x.Fills F st st' items)
    (first : ∀ items st st', items ≠ [] → f items st = .ok () st' →
      (∀ v ∈ items.flatMap F.values, x.Sound st.store v) → x.Dooms st st' (x.Awaits c st))
    (some : items ≠ []) (h : (batches items).forM f st = .ok () st')
    (sound : ∀ v ∈ items.flatMap F.values, x.Sound st.store v) : x.Dooms st st' (x.Awaits c st) := by
  obtain ⟨batch, rest, split, filled⟩ := batches_cons some
  have whole : items = batch ++ rest.flatten := by rw [← flatten_batches items, split]; rfl
  rw [split] at h
  rw [whole, List.flatMap_append] at sound
  obtain ⟨_, st₁, begun, h⟩ := bind_eq_ok (show (f batch >>= fun _ => rest.forM f) st = _ from h)
  have soundBatch : ∀ v ∈ batch.flatMap F.values, x.Sound st.store v :=
    fun v mem => sound v (List.mem_append_left _ mem)
  have sent := (piece batch st st₁ begun soundBatch).sent
  have rests := fills_forM piece h fun v mem => (sound v (List.mem_append_right _ mem)).grown sent.store
  exact (first batch st st₁ filled begun soundBatch).performs rests.performs

section
variable (carrier : x.Carrier save)
include carrier

theorem appendItem_dooms (first : save v st = .ok () st₁) (take : emit .append () st₁ = .ok () st')
    (sound : x.Sound st.store v) : x.Dooms st st' (x.Awaits c st) :=
  (carrier v st st₁ first sound).gathers.dooms take (.of trivial rfl) spurns_append
    (List.forall_mem_singleton.2 sound)

theorem appendBatch_dooms (items : List Value) (st st' : Encoder.State H) (some : items ≠ [])
    (h : appendBatch save items st = .ok () st')
    (sound : ∀ v ∈ items.flatMap (listFilling (H := H)).values, x.Sound st.store v) :
    x.Dooms st st' (x.Awaits c st) := by
  have all : items.flatMap (listFilling (H := H)).values = items := by simp [listFilling]
  rw [all] at sound
  unfold appendBatch at h
  split at h
  · exact absurd rfl some
  · next v =>
    obtain ⟨_, st₁, first, take⟩ := bind_eq_ok h
    exact appendItem_dooms carrier first take (sound v (List.mem_singleton.2 rfl))
  · obtain ⟨_, st₁, mark, h⟩ := bind_eq_ok h
    obtain ⟨_, st₂, saved, take⟩ := bind_eq_ok h
    have marked := emit_ok mark
    have carries := saveAll_carries carrier saved fun v mem => by
      rw [marked.store]
      exact sound v mem
    exact (carries.behindMark mark).dooms take (.of trivial rfl) (spurns_appends _) sound

theorem appendItems_dooms {items : List Value} (some : items ≠ [])
    (h : appendItems x.encoder save items st = .ok () st') (sound : ∀ v ∈ items, x.Sound st.store v) :
    x.Dooms st st' (x.Awaits c st) := by
  unfold appendItems at h
  split at h
  · refine dooms_batches (appendBatch_fills carrier) (appendBatch_dooms carrier) some h ?_
    simpa [listFilling] using sound
  · cases items with
    | nil => exact absurd rfl some
    | cons v rest =>
      obtain ⟨_, st₁, first, h⟩ := bind_eq_ok h
      obtain ⟨_, st₂, take, h⟩ := bind_eq_ok h
      have here := sound v (List.mem_cons_self ..)
      have sent := (appendItem_fills carrier first take here).sent
      have rests := appendEach_fills carrier h fun v mem =>
        (sound v (List.mem_cons_of_mem _ mem)).grown sent.store
      exact (appendItem_dooms carrier first take here).performs rests.performs

theorem storeEntry_dooms {key content : Value} (first : save key st = .ok () st₁)
    (second : save content st₁ = .ok () st₂) (take : emit .setItem () st₂ = .ok () st')
    (sound : x.Sound st.store key) (sound' : x.Sound st.store content) :
    x.Dooms st st' (x.Awaits c st) := by
  have carries := carrier key st st₁ first sound
  have carries' := carrier content st₁ st₂ second (sound'.grown carries.sent.store)
  refine (Carries.gathers (carries.trans carries' ?_)).dooms take (.of trivial rfl) spurns_setItem ?_
  · simpa using sound'.closed
  · simpa using ⟨sound, sound'⟩

theorem storeBatch_dooms (entries : List (Value × Value)) (st st' : Encoder.State H)
    (some : entries ≠ []) (h : storeBatch save entries st = .ok () st')
    (sound : ∀ v ∈ Decoder.flatten entries, x.Sound st.store v) : x.Dooms st st' (x.Awaits c st) := by
  unfold storeBatch at h
  split at h
  · exact absurd rfl some
  · next key content =>
    obtain ⟨_, st₁, first, h⟩ := bind_eq_ok h
    obtain ⟨_, st₂, second, take⟩ := bind_eq_ok h
    exact storeEntry_dooms carrier first second take (sound key (by simp [Decoder.flatten]))
      (sound content (by simp [Decoder.flatten]))
  · obtain ⟨_, st₁, mark, h⟩ := bind_eq_ok h
    obtain ⟨_, st₂, saved, take⟩ := bind_eq_ok h
    have marked := emit_ok mark
    have carries := saveEntries_carries carrier saved fun v mem => by
      rw [marked.store]
      exact sound v mem
    exact (carries.behindMark mark).dooms take (.of trivial rfl) (spurns_setItems _) sound

theorem storeEntries_dooms {entries : List (Value × Value)} (some : entries ≠ [])
    (h : storeEntries x.encoder save entries st = .ok () st')
    (sound : ∀ v ∈ Decoder.flatten entries, x.Sound st.store v) :
    x.Dooms st st' (x.Awaits c st) := by
  unfold storeEntries at h
  split at h
  · exact dooms_batches (F := tableFilling holds_dict) (storeBatch_fills carrier)
      (storeBatch_dooms carrier) some h sound
  · cases entries with
    | nil => exact absurd rfl some
    | cons entry rest =>
      obtain ⟨key, content⟩ := entry
      obtain ⟨_, st₁, first, h⟩ := bind_eq_ok h
      obtain ⟨_, st₂, second, h⟩ := bind_eq_ok h
      obtain ⟨_, st₃, take, h⟩ := bind_eq_ok h
      have key_sound := sound key (by simp [Decoder.flatten])
      have content_sound := sound content (by simp [Decoder.flatten])
      have sent := (storeEntry_fills carrier first second take key_sound content_sound).sent
      have rests := storeEach_fills carrier h fun v mem =>
        (sound v (List.mem_cons_of_mem _ (List.mem_cons_of_mem _ mem))).grown sent.store
      exact (storeEntry_dooms carrier first second take key_sound content_sound).performs
        rests.performs

end

end Trip

/-! ## Creation -/

namespace Trip

variable {x : Trip H} {st st₁ st₂ st' : Encoder.State H} {m : Machine H} {c : Class} {id : Nat}
  {content : H} {items : List Value}

/-- The object that was created gets its memo id. -/
theorem memoizeBuilt_wrote (h : memoizeBuilt x.encoder (.ref id) st = .ok () st') :
    st'.store = st.store ∧ ∃ js, Wrote st st' js ∧ (st.memo[Identity.object id]? = none →
      memoize x.encoder.protocol (.ref id) st = .ok () st' ∧ ∀ m Q, m.memo.size = st.memo.size →
        (∃ below w, m.stack = below ++ [w] ∧ Q (m.remember st.memo.size w)) →
          Leads x.decoder x.total js m Q) := by
  rcases memoized_cases h with ⟨n, known, h⟩ | ⟨new, memo⟩
  · obtain ⟨_, st₁, pop, fetch⟩ := bind_eq_ok h
    have emitted := (emit_ok pop).trans (emitGet_ok fetch)
    refine ⟨emitted.store, _, emitted.wrote, fun new => ?_⟩
    rw [known] at new
    cases new
  · obtain ⟨-, store, -, js, wrote, leads⟩ := memoizeAs_ok (x := x) memo
    exact ⟨store, js, wrote, fun _ => ⟨memo, fun m Q next q => leads m Q ⟨next, q⟩⟩⟩

/-- No host object is remembered. -/
theorem Linked.unmet_object (linked : x.Linked st m [])
    (found : st.store.cells[id]? = some (.object content)) :
    st.memo[Identity.object id]? = none := by
  cases known : st.memo[Identity.object id]? with
  | none => rfl
  | some n =>
    obtain ⟨j, link, -⟩ := linked.exists_link known
    cases linked.remembered id j _ link List.not_mem_nil found with
    | copy copied =>
      obtain ⟨_, _, same, -⟩ := copied
      cases same

/-- A class creates an instance without attributes, whatever the arguments are. -/
theorem createPlain_ofClass {host : Host H} {cls : Value} {ws : List Value} {s : Store H}
    (creator : s.creator cls = .ok (.ofClass c)) :
    host.createPlain 0 cls ws s = .ok (.ref s.size) (s.push (.inst c .empty)) := by
  simp only [Host.createPlain, if_true, Host.create, Host.carryOut, Builtin.reading, bind_apply,
    get_apply, Store.creationTarget, creator]
  rfl

/-- An instance is created and remembered in the place of the host object. -/
theorem creation_performs (known : x.total) (prepared : x.Prepares (.ofClass c) items 0 st st₁)
    (built : memoizeBuilt x.encoder (.ref id) st₁ = .ok () st₂)
    (object : x.source.cells[id]? = some (.object content)) :
    x.Performs st st₂ fun m Q =>
      x.Linked st m [] ∧ m.stack = [] ∧ ∀ m', x.Awaits c st₂ m' → Q m' := by
  obtain ⟨s, i, sent, emitted, is, wrote, leads⟩ := prepared
  obtain ⟨store, js, wrote', remembers⟩ := memoizeBuilt_wrote built
  have total : x.total = True := eq_true known
  refine ⟨is ++ (i :: js), wrote.trans (emitted.wrote.trans wrote'), fun m Q ⟨linked, stack, q⟩ => ?_⟩
  refine (leads m _ ⟨linked, stack, fun m' poised => poised⟩).bind fun m' poised => ?_
  obtain ⟨linked, cls, ws, creator, -, enacts⟩ := poised
  have found := linked.source id _ object
  have unmet : st₁.memo[Identity.object id]? = none := by
    rw [emitted.memo]
    exact linked.unmet_object found
  have bare : x.Linked st₁ (m'.withStack []) [] :=
    linked.congr emitted.store emitted.memo rfl rfl rfl
  have created := bare.gathered.created (c := .inst c .empty)
    (P := fun R store j => x.Copied R store j ((tableFilling (holds_inst c)).cell []))
    (copied_empty_inst (Store.cell_push_last ..))
  obtain ⟨memo, remembers⟩ := remembers unmet
  rw [← emitted.store] at found
  have opened := created.opened unmet (Store.lt_size_of_cell found) memo
  rw [total]
  refine Leads.cons (enacts.succeeds (createPlain_ofClass creator) ?_)
  rw [← total]
  exact remembers _ _ created.linked.numbers.size ⟨[], _, rfl, q _ ⟨id, content, [], _, object, opened⟩⟩

end Trip

/-! ## Attributes -/

/-- The object is an instance of the class that has a copy of the attributes. -/
def Store.Embodies (s t : Store H) (c : Class) (attributes : Dict) (j : Nat) : Prop :=
  ∃ R own, Mirror s t R ∧ (∀ i k, R i k → k ≠ j) ∧ t.cells[j]? = some (.inst c own) ∧
    Tables s R (Match R) attributes own

/-- Two instances with copies of the same attributes are alike. -/
theorem Store.Embodies.isomorphic {s t t' : Store H} {c : Class} {attributes : Dict} {j j' : Nat}
    (h : s.Embodies t c attributes j) (h' : s.Embodies t' c attributes j') :
    Isomorphic t t' (.ref j) (.ref j') := by
  obtain ⟨R, own, mirror, apart, here, tables⟩ := h
  obtain ⟨R', own', mirror', apart', here', tables'⟩ := h'
  have same : (Cell.inst c own : Cell H).Matches (Joined R R') (.inst c own') :=
    .inst c (matchAll_join tables.keys tables'.keys) (matchAll_join tables.contents tables'.contents)
  have paired := (mirror.join mirror').paired.add here here' same
    (fun k _ ⟨i, r, _⟩ => apart i k r) fun _ k ⟨i, _, r⟩ => apart' i k r
  exact paired.isomorphic (.ref (.inr ⟨rfl, rfl⟩))

namespace Trip

variable {x : Trip H} {st st₁ st₂ st' : Encoder.State H} {m m' : Machine H} {c : Class}
  {save : Value → Encode H Unit} {v w state : Value} {attributes : Dict}

/-- The instance on top of the decoder's stack has a copy of the attributes. -/
def Completed (x : Trip H) (c : Class) (attributes : Dict) (m : Machine H) : Prop :=
  ∃ below j, m.stack = below ++ [.ref j] ∧ x.source.Embodies m.store c attributes j

theorem Open.bare {busy : List Nat} {below : List Value} {i j : Nat} (R : Nat → Nat → Prop)
    (opened : x.Open (tableFilling (holds_inst c)) st m busy below i j []) :
    ∃ t, m.store.cells[j]? = some (.inst c t) ∧ Tables x.source R (Match R) (.empty : Dict) t := by
  obtain ⟨t, here, files, keys, -⟩ := opened.table
  refine ⟨t, here, ?_, Keyed.files_empty, files⟩
  have none : t.entries.toList = [] := List.map_eq_nil_iff.1 (List.forall₂_nil_left_iff.1 keys)
  rw [none]
  exact .nil

/-- An instance without a state has no attributes. -/
theorem Awaits.completed (h : x.Awaits c st m) : x.Completed c .empty m := by
  obtain ⟨i, content, below, j, -, opened⟩ := h
  obtain ⟨t, here, tables⟩ := opened.bare fun _ _ => False
  exact ⟨below, j, opened.stack, _, t, ⟨nofun, nofun, nofun⟩, nofun, here, tables⟩

section
variable {b : Nat} {content : H} {below : List Value} {j : Nat}

/-- Behind a copy of the state the decoder is about to give it to the instance. -/
theorem Open.turns (object : x.source.cells[b]? = some (.object content))
    (opened : x.Open (tableFilling (holds_inst c)) st m [b] below b j []) (sent : Further st st₁)
    (pushed : x.Pushed st₁ [b] m m' [state] [w]) (sound : x.Sound x.source state)
    (hooks : (x.decoder.host.hooks c.key).setState = none) :
    m'.stack = below ++ [.ref j] ++ [w] ∧ ∃ R, Mirror x.source m'.store R ∧ (∀ i k, R i k → k ≠ j) ∧
      Decoder.Turns x.source R c j (m'.withStack (below ++ [.ref j]))
        (Decoder.build x.decoder .build w) (x.source.stateAttributes? state) := by
  have free : ∀ v ∈ [state], ∀ i ∈ [b], ¬x.source.Reaches v (.ref i) := by
    intro v mem i busy
    rw [List.mem_singleton.1 mem, List.mem_singleton.1 busy]
    exact sound.unhosted object
  have mirror := pushed.linked.mirror_of_sound (List.forall_mem_singleton.2 sound) free
  have link := opened.link.grow sent pushed.after
  have apart : ∀ i k, x.KeyLink [state] st₁ m' i k → k ≠ j :=
    fun i k r => keyLink_apart pushed.linked free (List.mem_singleton.2 rfl) link r
  have same := match_keyLink (x := x) pushed.same fun _ mem => mem
  have still : x.Open (tableFilling (holds_inst c)) st₁ (m'.withStack (below ++ [.ref j])) [b] below
      b j [] :=
    opened.still sent (pushed.linked.congr rfl rfl rfl rfl rfl)
      (pushed.after.trans (.of_eq rfl rfl rfl)) opened.stack.symm
  obtain ⟨t, here, tables⟩ := still.bare (x.KeyLink [state] st₁ m')
  refine ⟨by rw [pushed.stack, opened.stack], _, mirror, apart, ?_⟩
  cases same with
  | cons same _ =>
    exact Decoder.turns_build (m := m'.withStack (below ++ [.ref j])) mirror hooks apart here tables
      same .build rfl

end

/-! ## The whole -/

section
variable (saver : x.Saver save) (hooks : (x.decoder.host.hooks c.key).setState = none)
include saver hooks

section
variable {obj : Option Value} (source : x.source.Grown st.store) (sound : x.Sound x.source state)
  (h : saveState save obj state none st = .ok () st')
include source sound h

/-- A state of which no attributes can be made is refused. -/
theorem saveState_dooms (none : x.source.stateAttributes? state = none) :
    x.Dooms st st' (x.Awaits c st) := by
  obtain ⟨_, st₁, saved, build⟩ := bind_eq_ok h
  have carries := saver.carrier _ _ _ saved (sound.grown source)
  have refused : x.Dooms st₁ st' (Refuses (Decoder.execute x.decoder .build ())) :=
    ⟨[], ⟨.build, ()⟩, [], (emit_ok build).wrote, .of trivial rfl, fun _ refuses => refuses⟩
  refine (carries.performs.dooms refused).mono ?_
  rintro m ⟨b, content, below, j, object, opened⟩
  refine ⟨[b], opened.linked, List.forall_mem_singleton.2
    ((sound.grown source).clear_object source object), fun m' ws pushed => ?_⟩
  obtain ⟨w, rfl⟩ := List.length_eq_one_iff.1 pushed.same.length_eq.symm
  obtain ⟨stack, R, -, -, turns⟩ := opened.turns object carries.sent pushed sound hooks
  exact Decoder.Does.refuses (Decoder.does_pop stack (turns.fails none))

/-- The instance gets the attributes that are made of its state. -/
theorem saveState_performs (some : x.source.stateAttributes? state = some attributes) :
    x.Performs st st' fun m Q =>
      x.Awaits c st m ∧ ∀ m', x.Completed c attributes m' → Q m' := by
  obtain ⟨_, st₁, saved, build⟩ := bind_eq_ok h
  have carries := saver.carrier _ _ _ saved (sound.grown source)
  have built : x.Performs st₁ st' fun m Q => Leads x.decoder x.total [⟨.build, ()⟩] m Q :=
    .of_emitted (emit_ok build) fun _ _ h => h
  refine (carries.performs.trans built).mono ?_
  rintro m Q ⟨⟨b, content, below, j, object, opened⟩, q⟩
  refine ⟨[b], opened.linked, List.forall_mem_singleton.2
    ((sound.grown source).clear_object source object), fun m' ws pushed => ?_⟩
  obtain ⟨w, rfl⟩ := List.length_eq_one_iff.1 pushed.same.length_eq.symm
  obtain ⟨stack, R, mirror, apart, turns⟩ := opened.turns object carries.sent pushed sound hooks
  refine .one (.of trivial rfl) fun _ => Decoder.Does.bind (Decoder.does_pop stack ?_)
  refine Decoder.Keeps.grows (Decoder.Does.ends ((turns.takes attributes some).mono ?_))
    (Machine.height_withStack_le (by simp [stack])) rfl
  rintro _ m'' ⟨store, rfl, own, replaced, tables⟩
  exact ⟨store, rfl, q _ ⟨below, j, rfl, R, own, mirror.replaced apart replaced, apart, replaced.cell,
    tables⟩⟩

end

section
variable {r : Reduction} (setter : r.stateSetter = none) (source : x.source.Grown st.store)
  (sound : ∀ v ∈ r.given, x.Sound x.source v) (h : complete x.encoder save r v st = .ok () st')
include setter source sound h

/-- What makes no attributes is refused, be it the state or that there are items or entries. -/
theorem complete_dooms (none : r.attributes? x.source = none) : x.Dooms st st' (x.Awaits c st) := by
  obtain ⟨_, st₁, items, h⟩ := bind_eq_ok h
  obtain ⟨_, st₂, entries, h⟩ := bind_eq_ok h
  have items_sound : ∀ v ∈ r.listItems.getD [], x.Sound st.store v := fun v mem =>
    (sound v (Reduction.mem_given.2 (.inl mem))).grown source
  have source₁ := source.trans (appendItems_fills saver.carrier items items_sound).sent.store
  have entries_sound : ∀ v ∈ Decoder.flatten (r.dictItems.getD []), x.Sound st₁.store v :=
    fun v mem => (sound v (Reduction.mem_given.2 (.inr (.inl mem)))).grown source₁
  have filled := storeEntries_fills saver.carrier entries entries_sound
  have source₂ := source₁.trans filled.sent.store
  obtain ⟨ks, wrote⟩ : ∃ ks, Wrote st₂ st' ks := by
    cases given : r.state with
    | none =>
      rw [given] at h
      cases h
      exact ⟨[], Silent.wrote (.refl _)⟩
    | some state =>
      rw [given, setter] at h
      obtain ⟨_, st₃, saved, build⟩ := bind_eq_ok h
      have here := (sound state (Reduction.mem_given.2 (.inr (.inr given)))).grown source₂
      obtain ⟨is, wrote, -⟩ := (saver.carrier _ _ _ saved here).performs
      exact ⟨_, wrote.trans (emit_ok build).wrote⟩
  by_cases no_items : r.listItems.getD [] = []
  · rw [no_items, appendItems_nil] at items
    cases items
    by_cases no_entries : r.dictItems.getD [] = []
    · rw [no_entries, storeEntries_nil] at entries
      cases entries
      simp only [Reduction.attributes?, no_items, no_entries] at none
      cases given : r.state with
      | none =>
        rw [given] at none
        cases none
      | some state =>
        rw [given] at none h
        rw [setter] at h
        exact saveState_dooms saver hooks source (sound state (Reduction.mem_given.2 (.inr (.inr given))))
          h none
    · exact (storeEntries_dooms saver.carrier no_entries entries entries_sound).later wrote
  · exact ((appendItems_dooms saver.carrier no_items items items_sound).performs filled.performs).later
      wrote

/-- The instance gets the attributes that are made of what it is given. -/
theorem complete_performs (some : r.attributes? x.source = some attributes) :
    x.Performs st st' fun m Q => x.Awaits c st m ∧ ∀ m', x.Completed c attributes m' → Q m' := by
  obtain ⟨_, st₁, items, h⟩ := bind_eq_ok h
  obtain ⟨_, st₂, entries, h⟩ := bind_eq_ok h
  obtain ⟨no_items, no_entries, rest⟩ := Reduction.attributes?_eq_some some
  rw [no_items, appendItems_nil] at items
  cases items
  rw [no_entries, storeEntries_nil] at entries
  cases entries
  rcases rest with ⟨nothing, rfl⟩ | ⟨state, given, made⟩
  · rw [nothing] at h
    cases h
    exact (Performs.of_silent (.refl _)).mono fun m Q ⟨awaits, q⟩ => q m awaits.completed
  · rw [given, setter] at h
    exact saveState_performs saver hooks source (sound state (Reduction.mem_given.2 (.inr (.inr given))))
      h made

end

end

end Trip

end ObjectStream
