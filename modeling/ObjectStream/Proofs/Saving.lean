import ObjectStream.Proofs.Creation

/-!
How containers are carried.

Lists, dictionaries and sets are remembered before they are filled, so they may contain themselves.
Tuples and frozen sets are made of what they hold, so they are remembered behind that. The sets of the
protocols before 4 are calls and not treated here.
-/

namespace ObjectStream

open Decoder (Machine Leads After)
open Encoder

variable {H : Type}

theorem listFilling_shapes (items : Array Value) :
    listFilling.Shapes (Cell.list (H := H) items) items.toList := by
  refine ⟨by simp [Cell.keys, listFilling], fun v mem => ?_, fun R cell' same => same⟩
  have mem : v ∈ items.toList := by simpa [listFilling] using mem
  exact Cell.mem_children.2 (.inr mem)

theorem tableFilling_shapes {make : Dict → Cell H} (holds : Holds make) (t : Dict)
    (contents : (make t).contents = t.contents) :
    (tableFilling holds).Shapes (make t) t.entries.toList := by
  refine ⟨?_, fun v mem => ?_, fun R cell' same => ?_⟩
  · rw [Trip.keys_table, holds.keys]
    rfl
  · obtain ⟨entry, held, here⟩ := List.mem_flatMap.1 mem
    have cases : v = entry.1 ∨ v = entry.2 := by simpa [tableFilling] using here
    rw [Cell.mem_children, holds.keys, contents]
    rcases cases with rfl | rfl
    · exact .inl (List.mem_map_of_mem held)
    · exact .inr (List.mem_map_of_mem held)
  · obtain ⟨t', rfl, keys, contents⟩ := (holds.matches_iff _ _ _).1 same
    exact (holds.matches_iff _ _ _).2 ⟨t', rfl, keys, contents⟩

theorem setFilling_shapes (members : Members) :
    setFilling.Shapes (Cell.set (H := H) members) members.keys := by
  refine ⟨(Trip.keys_set members.keys).symm, fun v mem => ?_, fun R cell' same => ?_⟩
  · have mem : v ∈ members.keys := by simpa [setFilling] using mem
    exact Cell.mem_children.2 (.inl mem)
  · cases same with
    | set keys =>
      rw [keys_unfiledMembers] at keys
      exact .set keys

variable [HostObject H]

namespace Trip

variable {x : Trip H} {st st₁ st₂ st' : Encoder.State H} {p : Protocol} {i j : Nat} {R : Nat → Nat → Prop}
  {store : Store H} {save : Value → Encode H Unit}

/-- The first protocol makes an empty container by a mark and an instruction that takes all items
    behind the mark. -/
theorem marked_emits {binary : Bool} {op op' : Opcode} {operand : op.shape.Operand}
    {operand' : op'.shape.Operand} {rest : Unit → Encode H Unit}
    {T : Machine H → (Machine H → Prop) → Prop}
    (h : (if binary then emit op operand >>= rest
      else emit .mark () >>= fun _ => emit op' operand' >>= rest) st = .ok () st')
    (short : ∀ m Q, T m Q → Leads x.decoder x.total [⟨op, operand⟩] m Q)
    (long : ∀ m Q, T m Q → Leads x.decoder x.total [⟨op', operand'⟩] m.mark Q) :
    ∃ st₁, x.Emits st st₁ T ∧ rest () st₁ = .ok () st' := by
  split at h
  · obtain ⟨_, st₁, make, h⟩ := bind_eq_ok h
    exact ⟨st₁, .of_emitted (emit_ok make) short, h⟩
  · obtain ⟨_, st₀, mark, h⟩ := bind_eq_ok h
    obtain ⟨_, st₁, make, h⟩ := bind_eq_ok h
    refine ⟨st₁, .of_emitted ((emit_ok mark).trans (emit_ok make)) fun m Q q => ?_, h⟩
    exact Leads.append (Decoder.leads_mark (long m Q q))

/-! ## Containers that are filled -/

theorem copied_empty_list (found : store.cells[j]? = some (.list #[])) :
    x.Copied R store j (listFilling.cell []) :=
  ⟨_, found, .list .nil, trivial, trivial⟩

theorem saveList_carries (carrier : x.Carrier save) {items : Array Value}
    (found : st.store.cells[i]? = some (.list items))
    (new : st.memo[Identity.object i]? = none) (sound : x.Sound st.store (.ref i))
    (h : saveList x.encoder save (.ref i) items.toList st = .ok () st') :
    x.Carries st st' [.ref i] := by
  simp only [saveList] at h
  obtain ⟨st₁, made, h⟩ := marked_emits (x := x) h
    (fun _ _ q => Decoder.leads_pushNew (c := .list #[]) (.of trivial rfl) rfl q)
    fun _ _ q => Decoder.leads_list_mark rfl rfl q
  obtain ⟨_, st₂, memo, fill⟩ := bind_eq_ok h
  have creates := made.creates (fun _ _ _ q => q) fun R store j here =>
    copied_empty_list (x := x) (R := R) here
  obtain ⟨-, store, -, -⟩ := memoizeAs_ok (x := x) memo
  rw [← made.memo] at new
  refine creates.filled nofun new found memo sound (listFilling_shapes items)
    (appendItems_fills carrier fill fun v mem => ?_)
  rw [store, made.store]
  exact sound.child found (Cell.mem_children.2 (.inr mem))

theorem copied_empty_dict (found : store.cells[j]? = some (.dict .empty)) :
    x.Copied R store j ((tableFilling holds_dict).cell []) :=
  ⟨_, found, .dict .nil .nil, Keyed.files_empty, trivial⟩

theorem saveDict_carries (carrier : x.Carrier save) {entries : Dict}
    (found : st.store.cells[i]? = some (.dict entries))
    (new : st.memo[Identity.object i]? = none) (sound : x.Sound st.store (.ref i))
    (h : saveDict x.encoder save (.ref i) entries.entries.toList st = .ok () st') :
    x.Carries st st' [.ref i] := by
  simp only [saveDict] at h
  obtain ⟨st₁, made, h⟩ := marked_emits (x := x) h
    (fun _ _ q => Decoder.leads_pushNew (c := .dict .empty) (.of trivial rfl) rfl q)
    fun _ _ q => Decoder.leads_dict_mark rfl rfl q
  obtain ⟨_, st₂, memo, fill⟩ := bind_eq_ok h
  have creates := made.creates (fun _ _ _ q => q) fun R store j here =>
    copied_empty_dict (x := x) (R := R) here
  obtain ⟨-, store, -, -⟩ := memoizeAs_ok (x := x) memo
  have shape := tableFilling_shapes (H := H) holds_dict entries rfl
  rw [← made.memo] at new
  refine creates.filled nofun new found memo sound shape
    (storeEntries_fills carrier fill fun v mem => ?_)
  rw [store, made.store]
  exact sound.child found (shape.values v mem)

theorem copied_empty_set (found : store.cells[j]? = some (.set .empty)) :
    x.Copied R store j (setFilling.cell []) :=
  ⟨_, found, .set .nil, Keyed.files_empty, trivial⟩

theorem saveSet_carries (carrier : x.Carrier save) {members : Members}
    (found : st.store.cells[i]? = some (.set members))
    (new : st.memo[Identity.object i]? = none) (sound : x.Sound st.store (.ref i))
    (recent : 4 ≤ x.encoder.protocol.val)
    (h : saveSet x.encoder save (.ref i) members.keys st = .ok () st') :
    x.Carries st st' [.ref i] := by
  rw [saveSet, if_pos recent] at h
  obtain ⟨_, st₁, create, h⟩ := bind_eq_ok h
  obtain ⟨_, st₂, memo, fill⟩ := bind_eq_ok h
  have made : x.Emits st st₁ fun m Q => Q (m.pushNew (.set .empty)) :=
    .of_emitted (emit_ok create) fun _ _ q => Decoder.leads_pushNew (.of trivial rfl) rfl q
  have creates := made.creates (fun _ _ _ q => q) fun R store j here =>
    copied_empty_set (x := x) (R := R) here
  obtain ⟨-, store, -, -⟩ := memoizeAs_ok (x := x) memo
  rw [← made.memo] at new
  refine creates.filled nofun new found memo sound (setFilling_shapes members)
    (addBatches_fills carrier fill fun v mem => ?_)
  rw [store, made.store]
  exact sound.child found (Cell.mem_children.2 (.inl mem))

/-! ## Containers that are made of what they hold -/

/-- Copies are older than a further object of the decoder. -/
theorem Linked.older {m : Machine H} {busy : List Nat} {vs ws : List Value}
    (h : x.Linked st m busy) (same : List.Forall₂ (Match (Link st.memo m.memo)) vs ws) :
    (Cell.tuple (H := H) ws).Older m.store.size := by
  intro k mem
  induction same with
  | nil => cases mem
  | cons head _ ih =>
    rcases List.mem_cons.1 mem with rfl | mem
    · obtain ⟨i, -, link⟩ := head.of_ref
      exact (h.lt_size link).2
    · exact ih mem

omit [HostObject H] in
/-- Either the object is remembered already, or it is met for the first time. -/
theorem memoized_cases {again : Nat → Encode H Unit} {first : Encode H Unit}
    (h : (memoizedValue (.ref i) >>= fun known => match known with
      | some id => again id
      | none => first) st = .ok () st') :
    (∃ id, st.memo[Identity.object i]? = some id ∧ again id st = .ok () st') ∨
      st.memo[Identity.object i]? = none ∧ first st = .ok () st' := by
  change (match st.memo[Identity.object i]? with
    | some id => again id
    | none => first) st = .ok () st' at h
  cases known : st.memo[Identity.object i]? with
  | some id => rw [known] at h; exact .inl ⟨id, rfl, h⟩
  | none => rw [known] at h; exact .inr ⟨rfl, h⟩

section
variable {items : List Value} (found : st.store.cells[i]? = some (.tuple items)) (some : items ≠ [])
  (closed : st.store.Closed (.ref i))
include found some closed

/-- An instruction that takes copies of the items makes a copy of the tuple. -/
theorem tuple_carries {stacked : Machine H → List Value → Machine H} {op : Opcode}
    {operand : op.shape.Operand} (gathers : x.Gathers stacked st st₁ items)
    (new : st₁.memo[Identity.object i]? = none) (make : emit op operand st₁ = .ok () st₂)
    (memo : memoize p (.ref i) st₂ = .ok () st')
    (leads : ∀ m v ws Q, (v :: ws).length = items.length → Q (m.pushNew (.tuple (v :: ws))) →
      Leads x.decoder x.total [⟨op, operand⟩] (stacked m (v :: ws)) Q) :
    x.Carries st st' [.ref i] := by
  have gathers : x.Gathers stacked st st₁ (Cell.tuple items : Cell H).children := gathers
  refine gathers.carries found closed new make memo ?_
  intro m busy ws Q linked _ same q
  have length : ws.length = items.length := same.length_eq.symm
  cases ws with
  | nil => exact absurd (List.length_eq_zero_iff.1 length.symm) some
  | cons v ws => exact leads m v ws Q length (q _ (.tuple same) trivial (linked.older same))

theorem shortTuple_carries (gathers : x.Gathers Machine.above st st₁ items)
    (new : st₁.memo[Identity.object i]? = none) (short : items.length ≤ 3)
    (make : emitShortTuple items.length st₁ = .ok () st₂)
    (memo : memoize p (.ref i) st₂ = .ok () st') : x.Carries st st' [.ref i] := by
  have some_items := List.length_pos_iff.2 some
  have leads : ∀ {op : Opcode} {operand : op.shape.Operand} (name : Opcode) (count : Nat),
      Instruction.Ordinary ⟨op, operand⟩ → items.length = count →
      Decoder.execute x.decoder op operand = Decoder.pushShortTuple x.decoder name count →
      ∀ (m : Machine H) v ws Q, (v :: ws).length = items.length →
        Q (m.pushNew (.tuple (v :: ws))) →
          Leads x.decoder x.total [⟨op, operand⟩] (m.above (v :: ws)) Q := by
    intro op operand name count ordinary all run m v ws Q length q
    exact Decoder.leads_shortTuple ordinary run rfl (length.trans all) q
  obtain one | two | three : items.length = 1 ∨ items.length = 2 ∨ items.length = 3 := by omega
  · rw [one] at make
    exact tuple_carries found some closed gathers new make memo
      (leads .tuple1 1 (.of trivial rfl) one rfl)
  · rw [two] at make
    exact tuple_carries found some closed gathers new make memo
      (leads .tuple2 2 (.of trivial rfl) two rfl)
  · rw [three] at make
    exact tuple_carries found some closed gathers new make memo
      (leads .tuple3 3 (.of trivial rfl) three rfl)

/-- A tuple is made of its items; if it was met inside of itself, it is dropped and fetched. -/
theorem saveTuple_carries
    (carries : ∀ {st₀ st₁ : Encoder.State H}, st₀.store = st.store → st₀.memo = st.memo →
      saveAll save items st₀ = .ok () st₁ → x.Carries st₀ st₁ items)
    (h : saveTuple x.encoder save (.ref i) items st = .ok () st') : x.Carries st st' [.ref i] := by
  have needs : ∀ busy, x.Clear st.store busy (.ref i) → ∀ v ∈ items, x.Clear st.store busy v :=
    fun busy clear v mem => clear.child found (Cell.mem_children.2 (.inr mem))
  simp only [saveTuple] at h
  split at h
  · next short =>
    have short : items.length ≤ 3 := by simp at short; exact short.1
    obtain ⟨_, st₁, saved, h⟩ := bind_eq_ok h
    have gathers := (carries rfl rfl saved).gathers
    rcases memoized_cases h with ⟨id, known, h⟩ | ⟨new, h⟩
    · obtain ⟨_, st₂, pops, fetch⟩ := bind_eq_ok h
      exact gathers.again (pops_drop pops) fetch known needs
    · obtain ⟨_, st₂, make, memo⟩ := bind_eq_ok h
      exact shortTuple_carries found some closed gathers new short make memo
  · obtain ⟨_, st₀, mark, h⟩ := bind_eq_ok h
    obtain ⟨_, st₁, saved, h⟩ := bind_eq_ok h
    have marked := emit_ok mark
    have gathers := (carries marked.store marked.memo saved).behindMark mark
    rcases memoized_cases h with ⟨id, known, h⟩ | ⟨new, h⟩
    · split at h
      · obtain ⟨_, st₂, pop, fetch⟩ := bind_eq_ok h
        exact gathers.again (popMark_drops pop) fetch known needs
      · obtain ⟨_, st₂, pops, fetch⟩ := bind_eq_ok h
        exact gathers.again (pops_drop_mark pops) fetch known needs
    · obtain ⟨_, st₂, make, memo⟩ := bind_eq_ok h
      exact tuple_carries found some closed gathers new make memo fun m v ws Q _ q =>
        Decoder.leads_tuple rfl rfl q

end

/-- The members of a frozen set are tables of keys that the decoder compares. -/
theorem membersOf_copy {m : Machine H} {busy : List Nat} {members : Members} {ws : List Value}
    (linked : x.Linked st m busy) (usable : x.Usable st.store busy members.keys)
    (same : List.Forall₂ (Match (Link st.memo m.memo)) members.keys ws) :
    (∃ t, m.store.membersOf ws = .ok t ∧ t.Files (members.keys.map x.source.imageOf) ∧
      List.Forall₂ (Match (Link st.memo m.memo)) members.keys t.keys) ∨
      (¬x.total ∧ m.store.membersOf ws = .error .endless) := by
  have items : (ws.map fun v => (v, ())).map Prod.fst = ws := by simp [Function.comp_def]
  have new := match_keyLink (x := x) same fun v mem => mem
  rw [← items] at new
  have files : (.empty : Members).Files (([] : List Value).map x.source.imageOf) := Keyed.files_empty
  rcases Mirror.insertAll_copy (linked.mirror usable) files .nil new usable.hashable usable.distinct
    with ⟨t, run, keys, -, files⟩ | broken
  · rw [items] at keys
    refine .inl ⟨t, run, files, ?_⟩
    rw [keys]
    exact same
  · exact .inr broken

theorem saveFrozenSet_carries (carrier : x.Carrier save) {members : Members}
    (found : st.store.cells[i]? = some (.frozenset members)) (sound : x.Sound st.store (.ref i))
    (recent : 4 ≤ x.encoder.protocol.val)
    (h : saveFrozenSet x.encoder save (.ref i) members.keys st = .ok () st') :
    x.Carries st st' [.ref i] := by
  simp only [saveFrozenSet, if_pos recent] at h
  obtain ⟨_, st₀, mark, h⟩ := bind_eq_ok h
  obtain ⟨_, st₁, saved, h⟩ := bind_eq_ok h
  have marked := emit_ok mark
  have carries := saveAll_carries carrier saved fun v mem => by
    rw [marked.store]
    exact sound.child found (Cell.mem_children.2 (.inl mem))
  have gathers := carries.behindMark mark
  rcases memoized_cases h with ⟨id, known, h⟩ | ⟨new, h⟩
  · obtain ⟨_, st₂, pop, fetch⟩ := bind_eq_ok h
    exact gathers.again (popMark_drops pop) fetch known fun busy clear v mem =>
      clear.child found (Cell.mem_children.2 (.inl mem))
  · obtain ⟨_, st₂, make, memo⟩ := bind_eq_ok h
    have children : (Cell.frozenset (H := H) members).children = members.keys := List.append_nil _
    rw [← children] at gathers
    refine gathers.carries found sound.closed new make memo fun m busy ws Q linked clear same q => ?_
    rw [children] at same
    have found₁ := gathers.sent.store i _ found
    have usable := (sound.grown gathers.sent.store).usable found₁ clear
    refine Decoder.leads_frozenSet rfl ?_
    rcases membersOf_copy linked usable same with ⟨t, run, files, keys⟩ | broken
    · exact .inl ⟨t, run, q _ (.frozenset keys) files trivial⟩
    · exact .inr broken

end Trip

end ObjectStream
