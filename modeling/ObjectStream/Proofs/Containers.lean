import ObjectStream.Proofs.Carry

/-!
Objects that are filled after they were remembered.

Lists, dictionaries, sets and instances are remembered empty and then take in their items, one batch
after the other. `Filling` says what such an object is when it has taken in some of its items. A piece
of writing fills an object if the decoder's copy takes in the copies of the items (`Trip.Fills`).
-/

namespace ObjectStream

open Decoder (Machine Leads After)
open Encoder (Further Silent)

variable {H ι : Type}

/-- A kind of object that takes in items one after the other. -/
structure Filling (H ι : Type) where
  /-- The object with these items. -/
  cell : List ι → Cell H
  /-- The key in an item. -/
  keys : ι → List Value
  /-- The values that are written for an item. -/
  values : ι → List Value
  keys_cell : ∀ items, (cell items).keys = items.flatMap keys

/-- The object looks as if it had taken in the items. -/
structure Filling.Shapes (F : Filling H ι) (cell : Cell H) (items : List ι) : Prop where
  keys : cell.keys = items.flatMap F.keys
  values : ∀ v ∈ items.flatMap F.values, v ∈ cell.children
  same : ∀ R cell', (F.cell items).Matches R cell' → cell.Matches R cell'

/-- A list takes in values. -/
def listFilling : Filling H Value where
  cell items := .list items.toArray
  keys _ := []
  values v := [v]
  keys_cell _ := by simp [Cell.keys]

/-- The table with these entries and no index. -/
def unfiled (entries : List (Value × Value)) : Dict := ⟨entries.toArray, ∅⟩

@[simp] theorem keys_unfiled (entries : List (Value × Value)) :
    (unfiled entries).keys = entries.map Prod.fst := by
  simp [unfiled, Keyed.keys]

@[simp] theorem contents_unfiled (entries : List (Value × Value)) :
    (unfiled entries).contents = entries.map Prod.snd := by
  simp [unfiled, Keyed.contents]

/-- `make` makes objects that hold a table of entries. -/
structure Holds (make : Dict → Cell H) : Prop where
  entries : ∀ t, (make t).entries = t
  change : ∀ t f, (make t).withEntries f = make (f t)
  keys : ∀ t, (make t).keys = t.keys
  object : ∀ t g, make t ≠ .global g
  files : ∀ t images, (make t).Files images ↔ t.Files images
  older : ∀ t id, (make t).Older id
  matches_iff : ∀ R t cell, (make t).Matches R cell ↔ ∃ t', cell = make t' ∧
    List.Forall₂ (Match R) t.keys t'.keys ∧ List.Forall₂ (Match R) t.contents t'.contents

theorem holds_dict : Holds (H := H) .dict where
  entries _ := rfl
  change _ _ := rfl
  keys _ := rfl
  object _ _ := nofun
  files _ _ := Iff.rfl
  older _ _ := trivial
  matches_iff R t cell := by
    constructor
    · rintro (_ | _ | _ | ⟨keys, contents⟩)
      exact ⟨_, rfl, keys, contents⟩
    · rintro ⟨t', rfl, keys, contents⟩
      exact .dict keys contents

theorem holds_inst (c : Class) : Holds (H := H) (.inst c) where
  entries _ := rfl
  change _ _ := rfl
  keys _ := rfl
  object _ _ := nofun
  files _ _ := Iff.rfl
  older _ _ := trivial
  matches_iff R t cell := by
    constructor
    · intro h
      cases h with
      | inst c keys contents => exact ⟨_, rfl, keys, contents⟩
    · rintro ⟨t', rfl, keys, contents⟩
      exact .inst c keys contents

/-- A table takes in entries. -/
def tableFilling {make : Dict → Cell H} (holds : Holds make) : Filling H (Value × Value) where
  cell entries := make (unfiled entries)
  keys entry := [entry.1]
  values entry := [entry.1, entry.2]
  keys_cell entries := by
    rw [holds.keys, keys_unfiled, List.map_eq_flatMap]

/-- The set with these members and no index. -/
def unfiledMembers (members : List Value) : Members := ⟨(members.map fun v => (v, ())).toArray, ∅⟩

@[simp] theorem keys_unfiledMembers (members : List Value) :
    (unfiledMembers members).keys = members := by
  simp [unfiledMembers, Keyed.keys, Function.comp_def]

/-- A set takes in members. -/
def setFilling : Filling H Value where
  cell members := .set (unfiledMembers members)
  keys v := [v]
  values v := [v]
  keys_cell members := by simp [Cell.keys]

variable [HostObject H]

namespace Trip

variable (x : Trip H)

/-- Keys that both sides can use while the objects in `busy` are being filled. -/
structure Usable (s : Store H) (busy : List Nat) (keys : List Value) : Prop where
  hashable : ∀ key ∈ keys, ∃ image, x.source.image none key = .ok image
  distinct : keys.Pairwise (x.source.Differ x.total)
  closed : ∀ key ∈ keys, ∀ j, x.source.Reaches key (.ref j) → j < x.source.size
  free : ∀ key ∈ keys, ∀ b ∈ busy, ¬x.source.Reaches key (.ref b)
  sound : ∀ key ∈ keys, x.Sound s key

/-- Linked objects that one of the keys reaches. -/
def KeyLink (keys : List Value) (st : Encoder.State H) (m : Machine H) (i j : Nat) : Prop :=
  Link st.memo m.memo i j ∧ ∃ key ∈ keys, x.source.Reaches key (.ref i)

variable {x} {st st' st'' : Encoder.State H} {m m' : Machine H} {busy : List Nat} {i j : Nat}
  {keys keys' : List Value}

namespace Usable

variable {s s' : Store H}

theorem grown (h : x.Usable s busy keys) (grown : s.Grown s') : x.Usable s' busy keys :=
  { h with sound := fun key mem => (h.sound key mem).grown grown }

theorem left (h : x.Usable s busy (keys ++ keys')) : x.Usable s busy keys where
  hashable key mem := h.hashable key (List.mem_append_left _ mem)
  distinct := (List.pairwise_append.1 h.distinct).1
  closed key mem := h.closed key (List.mem_append_left _ mem)
  free key mem := h.free key (List.mem_append_left _ mem)
  sound key mem := h.sound key (List.mem_append_left _ mem)

end Usable

/-- What sound values reach is mirrored once it is copied, if nothing of it is being filled. -/
theorem Linked.mirror_of_sound (h : x.Linked st m busy) (sound : ∀ v ∈ keys, x.Sound x.source v)
    (free : ∀ v ∈ keys, ∀ b ∈ busy, ¬x.source.Reaches v (.ref b)) :
    Mirror x.source m.store (x.KeyLink keys st m) where
  object i j r := by
    obtain ⟨link, v, mem, reach⟩ := r
    obtain ⟨cell, found, sound⟩ := (sound v mem).inside i reach
    have apart : i ∉ busy := fun open_ => free v mem i open_ reach
    obtain ⟨cell', held, same, files, older⟩ := h.copied link apart (h.source i cell found) sound.plain
    refine ⟨cell, cell', found, held, ?_, sound.orderly.filed, files, older, sound.orderly.hashable⟩
    exact same.congr fun i' j' inside link' => ⟨link', v, mem, reach.child found inside⟩
  right i j j' r r' := r.1.right r'.1
  left i i' j r r' := h.left i i' j r.1 r'.1

/-- Usable keys were there before the writing. -/
theorem Usable.sound_source {s : Store H} (h : x.Usable s busy keys) (source : x.source.Grown s) :
    ∀ key ∈ keys, x.Sound x.source key := by
  refine fun key mem => ⟨Nat.le_refl _, fun i reach => ?_⟩
  obtain ⟨cell, found⟩ := Store.cell_of_lt_size (h.closed key mem i reach)
  exact ⟨cell, found, ((h.sound key mem).reaches (source.reaches reach)).object (source i cell found)⟩

theorem Linked.mirror (h : x.Linked st m busy) (usable : x.Usable st.store busy keys) :
    Mirror x.source m.store (x.KeyLink keys st m) :=
  h.mirror_of_sound (usable.sound_source h.source) usable.free

omit [HostObject H] in
theorem match_keyLink {vs ws : List Value} (h : List.Forall₂ (Match (Link st.memo m.memo)) vs ws)
    (inside : ∀ v ∈ vs, v ∈ keys) : List.Forall₂ (Match (x.KeyLink keys st m)) vs ws := by
  refine (forall₂_mem h).imp fun v w ⟨same, mem, _⟩ => same.congr ?_
  rintro i j rfl link
  exact ⟨link, _, inside _ mem, .self⟩

/-- No key leads to an object that is being filled. -/
theorem keyLink_apart (h : x.Linked st m busy)
    (free : ∀ key ∈ keys, ∀ b ∈ busy, ¬x.source.Reaches key (.ref b))
    (filling : i ∈ busy) (link : Link st.memo m.memo i j) {i' j' : Nat}
    (r : x.KeyLink keys st m i' j') : j' ≠ j := by
  rintro rfl
  obtain ⟨link', key, mem, reach⟩ := r
  obtain rfl := h.left i' i j' link' link
  exact free key mem i' filling reach

/-- The object `i` lies on top of the decoder's stack as `j` and has taken in the items `done`. -/
structure Open (x : Trip H) (F : Filling H ι) (st : Encoder.State H) (m : Machine H)
    (busy : List Nat) (below : List Value) (i j : Nat) (done : List ι) : Prop where
  linked : x.Linked st m busy
  filling : i ∈ busy
  link : Link st.memo m.memo i j
  stack : m.stack = below ++ [.ref j]
  copied : x.Copied (Link st.memo m.memo) m.store j (F.cell done)

/-- What was written between the two states lets the object on top of the stack take in the items. -/
structure Fills (x : Trip H) (F : Filling H ι) (st st' : Encoder.State H) (items : List ι) :
    Prop where
  sent : Further st st'
  performs : x.Performs st st' fun m Q => ∃ busy below i j done,
    x.Open F st m busy below i j done ∧
    x.Usable st.store busy ((done ++ items).flatMap F.keys) ∧
    (∀ v ∈ items.flatMap F.values, x.Clear st.store busy v) ∧
    ∀ m', x.Open F st' m' busy below i j (done ++ items) → After (some j) m m' → Q m'

/-- An instruction that lets the object on top of the stack take in the items, whose copies `ws` lie
    where `stacked` puts them. -/
def Takes (x : Trip H) (F : Filling H ι) (stacked : Machine H → List Value → Machine H)
    (i : Instruction) (items : List ι) : Prop :=
  ∀ st m busy below id j done ws Q, x.Open F st m busy below id j done →
    x.Usable st.store busy ((done ++ items).flatMap F.keys) →
    List.Forall₂ (Match (Link st.memo m.memo)) (items.flatMap F.values) ws →
    (∀ store, x.Open F st (m.withStore store) busy below id j (done ++ items) →
      After (some j) m (m.withStore store) → Q (m.withStore store)) →
    Leads x.decoder x.total [i] (stacked m ws) Q

end Trip

namespace Trip

variable {x : Trip H} {F : Filling H ι} {st st₁ st₂ st' st'' : Encoder.State H}
  {items items' : List ι} {m m' : Machine H}

/-- The object stays as it is while values are written. -/
theorem Open.still {busy : List Nat} {below : List Value} {i j : Nat} {done : List ι}
    (h : x.Open F st m busy below i j done) (sent : Further st st') (linked : x.Linked st' m' busy)
    (after : After none m m') (stack : m'.stack = m.stack) : x.Open F st' m' busy below i j done :=
  ⟨linked, h.filling, h.link.grow sent after, stack.trans h.stack,
    h.copied.mono (fun _ _ link => link.grow sent after) fun _ => after.cell⟩

theorem Open.emitted {busy : List Nat} {below : List Value} {i j : Nat} {done : List ι}
    {T : Machine H → (Machine H → Prop) → Prop} (h : x.Open F st m busy below i j done)
    (emits : x.Emits st st' T) : x.Open F st' m busy below i j done := by
  refine ⟨h.linked.congr emits.store emits.memo rfl rfl rfl, h.filling, ?_, h.stack, ?_⟩
  · rw [emits.memo]; exact h.link
  · rw [emits.memo]; exact h.copied

namespace Fills

theorem nil (store : st'.store = st.store) (memo : st'.memo = st.memo)
    (silent : Silent st st') : x.Fills F st st' [] where
  sent := .of_eq store memo
  performs := (Performs.of_silent silent).mono fun m _ ⟨_, _, _, _, done, opened, _, _, q⟩ => by
    refine q m ?_ (.refl m)
    rw [List.append_nil]
    refine ⟨opened.linked.congr store memo rfl rfl rfl, opened.filling, ?_, opened.stack, ?_⟩
    · rw [memo]; exact opened.link
    · rw [memo]; exact opened.copied

theorem trans (h : x.Fills F st st' items) (h' : x.Fills F st' st'' items')
    (sound : ∀ v ∈ items'.flatMap F.values, x.Sound st.store v) :
    x.Fills F st st'' (items ++ items') where
  sent := h.sent.trans h'.sent
  performs := by
    refine (h.performs.trans h'.performs).mono fun m Q
      ⟨busy, below, i, j, done, opened, usable, clear, q⟩ => ?_
    rw [← List.append_assoc] at usable q
    rw [List.flatMap_append] at usable clear
    refine ⟨busy, below, i, j, done, opened, usable.left,
      fun v mem => clear v (List.mem_append_left _ mem), fun m' opened' after => ?_⟩
    refine ⟨busy, below, i, j, done ++ items, opened', ?_, fun v mem => ?_,
      fun m'' opened'' after' => q m'' opened'' (after.trans after')⟩
    · rw [List.flatMap_append]
      exact usable.grown h.sent.store
    · exact (clear v (List.mem_append_right _ mem)).grown (sound v mem).closed h.sent.store

/-- Items that are written and then taken in. -/
theorem of_gathers {stacked : Machine H → List Value → Machine H} {op : Opcode}
    {operand : op.shape.Operand}
    (gathers : x.Gathers stacked st st₁ (items.flatMap F.values))
    (take : Encoder.emit op operand st₁ = .ok () st')
    (takes : x.Takes F stacked ⟨op, operand⟩ items) : x.Fills F st st' items := by
  have took : x.Emits st₁ st' fun m Q => Leads x.decoder x.total [⟨op, operand⟩] m Q :=
    .of_emitted (Encoder.emit_ok take) fun _ _ h => h
  refine ⟨gathers.sent.trans took.sent, (gathers.performs.trans took.performs).mono ?_⟩
  rintro m Q ⟨busy, below, i, j, done, opened, usable, clear, q⟩
  refine ⟨busy, opened.linked, clear, fun m' ws gathered => ?_⟩
  have still := opened.still gathers.sent gathered.linked gathered.after gathered.stack
  refine takes st₁ m' busy below i j done ws Q still (usable.grown gathers.sent.store)
    gathered.same fun store opened' after => q _ (opened'.emitted took) ?_
  exact gathered.after.weaken.trans after

end Fills

/-! ## Lists -/

/-- The copy of an object with an item more. -/
theorem Open.filled {busy : List Nat} {below : List Value} {i j : Nat} {done : List ι}
    {old new : Cell H} {store : Store H} (h : x.Open F st m busy below i j done)
    (here : m.store.cells[j]? = some old) (object : ∀ g, old ≠ .global g)
    (replaced : m.store.Replaced store j new)
    (same : (F.cell (done ++ items)).Matches (Link st.memo m.memo) new)
    (files : new.Files ((F.cell (done ++ items)).keys.map x.source.imageOf)) (older : new.Older j) :
    x.Open F st (m.withStore store) busy below i j (done ++ items) ∧
      After (some j) m (m.withStore store) := by
  refine ⟨⟨h.linked.fill h.filling h.link here object replaced, h.filling, h.link, h.stack,
    new, replaced.cell, same, files, older⟩, ?_, fun k _ apart => ?_, fun _ _ found => found, rfl⟩
  · exact Nat.le_of_eq replaced.size.symm
  · exact replaced.other k fun same => apart (same ▸ rfl)

/-- The copy of a list with further items. -/
theorem Open.extended {busy : List Nat} {below ws : List Value} {j id : Nat}
    {done items : List Value} (h : x.Open listFilling st m busy below id j done)
    (same : List.Forall₂ (Match (Link st.memo m.memo)) items ws) :
    ∃ former, m.store.cells[j]? = some (.list former) ∧
      ∀ Q : Machine H → Prop, (∀ store, x.Open listFilling st (m.withStore store) busy below id j
          (done ++ items) → After (some j) m (m.withStore store) → Q (m.withStore store)) →
        Q (m.withStore (m.store.modify j (Decoder.extended ws.toArray))) := by
  obtain ⟨cell', here, copy, -, -⟩ := h.copied
  cases copy with
  | @list _ former copies =>
    refine ⟨former, here, fun Q q => ?_⟩
    have replaced := Store.Replaced.modify here (Decoder.extended ws.toArray)
    have copies' : List.Forall₂ (Match (Link st.memo m.memo)) (done ++ items).toArray.toList
        (former ++ ws.toArray).toList := by
      rw [Array.toList_append]
      exact List.rel_append copies same
    obtain ⟨opened, after⟩ := h.filled here nofun replaced (.list copies') trivial trivial
    exact q _ opened after

theorem takes_append (v : Value) : x.Takes listFilling Machine.above ⟨.append, ()⟩ [v] := by
  intro st m busy below id j done ws Q opened _ same q
  cases same with
  | @cons _ w _ _ head tail =>
    cases tail
    obtain ⟨former, here, filled⟩ := opened.extended (.cons head .nil)
    have stack : (m.above [w]).stack = below ++ [.ref j] ++ [w] := by
      rw [← opened.stack]
      rfl
    have back : m = m.withStack (below ++ [.ref j]) := by
      rw [← opened.stack]
      rfl
    refine Decoder.leads_append stack here ?_
    have q' := filled Q q
    rw [back] at q'
    exact q'

theorem takes_appends (items : List Value) :
    x.Takes listFilling Machine.behindMark ⟨.appends, ()⟩ items := by
  intro st m busy below id j done ws Q opened _ same q
  rw [show items.flatMap (listFilling (H := H)).values = items by simp [listFilling]] at same
  obtain ⟨former, here, filled⟩ := opened.extended same
  have saved : (m.behindMark ws).marks = (below ++ [.ref j]) :: m.marks := by
    rw [← opened.stack]
    rfl
  refine Decoder.leads_appends saved here ?_
  rw [← opened.stack]
  exact filled Q q

/-! ## Tables -/

section
variable {make : Dict → Cell H} {holds : Holds make} {busy : List Nat} {below : List Value}
  {j id : Nat} {done entries es : List (Value × Value)}

omit [HostObject H] in
theorem keys_cell_table (entries : List (Value × Value)) :
    ((tableFilling holds).cell entries).keys = entries.map Prod.fst := by
  rw [Filling.keys_cell]
  exact List.map_eq_flatMap.symm

/-- The copy of a table is a table. -/
theorem Open.table (h : x.Open (tableFilling holds) st m busy below id j done) :
    ∃ t, m.store.cells[j]? = some (make t) ∧ t.Files ((done.map Prod.fst).map x.source.imageOf) ∧
      List.Forall₂ (Match (Link st.memo m.memo)) (done.map Prod.fst) t.keys ∧
      List.Forall₂ (Match (Link st.memo m.memo)) (done.map Prod.snd) t.contents := by
  obtain ⟨cell', here, copy, files, -⟩ := h.copied
  obtain ⟨t, rfl, keys, contents⟩ := (holds.matches_iff _ _ _).1 copy
  rw [holds.files, keys_cell_table] at files
  rw [keys_unfiled] at keys
  rw [contents_unfiled] at contents
  exact ⟨t, here, files, keys, contents⟩

/-- The copy of a table takes in entries that the decoder stores one after the other. -/
theorem Open.stored (h : x.Open (tableFilling holds) st m busy below id j done)
    (usable : x.Usable st.store busy ((done ++ entries).map Prod.fst))
    (keys : List.Forall₂ (Match (Link st.memo m.memo)) (entries.map Prod.fst) (es.map Prod.fst))
    (contents : List.Forall₂ (Match (Link st.memo m.memo)) (entries.map Prod.snd)
      (es.map Prod.snd)) {Q : Machine H → Prop}
    (q : ∀ store, x.Open (tableFilling holds) st (m.withStore store) busy below id j
      (done ++ entries) → After (some j) m (m.withStore store) → Q (m.withStore store)) :
    Decoder.Keeps x.total (Decoder.storeEntries j es) m Q := by
  obtain ⟨t, here, files, keys', contents'⟩ := h.table
  have mirror := h.linked.mirror usable
  have apart : ∀ i j', x.KeyLink ((done ++ entries).map Prod.fst) st m i j' → j' ≠ j :=
    fun i j' r => keyLink_apart h.linked usable.free h.filling h.link r
  rw [List.map_append] at usable mirror apart
  refine Decoder.keeps_storeEntries holds.entries holds.change mirror apart here
    ?_ (match_keyLink keys' fun v mem => List.mem_append_left _ mem)
    (match_keyLink keys fun v mem => List.mem_append_right _ mem)
    (fun k mem => usable.hashable k (List.mem_append_right _ mem)) usable.distinct ?_
  · exact files
  · intro store t' replaced keys'' contents'' files''
    have whole : (make (unfiled (done ++ entries))).Matches (Link st.memo m.memo) (make t') := by
      refine (holds.matches_iff _ _ _).2 ⟨t', rfl, ?_, ?_⟩
      · rw [keys'', keys_unfiled, List.map_append]
        exact List.rel_append keys' keys
      · rw [contents'', contents_unfiled, List.map_append]
        exact List.rel_append contents' contents
    have filed : (make t').Files ((make (unfiled (done ++ entries))).keys.map x.source.imageOf) := by
      rw [holds.files, holds.keys, keys_unfiled, List.map_append]
      exact files''
    obtain ⟨opened, after⟩ := h.filled here (holds.object t) replaced whole filed (holds.older t' j)
    exact q store opened after

/-- Copies of entries on the stack, keys and contents in turn. -/
theorem flatten_match {R : Nat → Nat → Prop} {entries : List (Value × Value)} {ws : List Value}
    (h : List.Forall₂ (Match R) (Decoder.flatten entries) ws) : ∃ es, ws = Decoder.flatten es ∧
      List.Forall₂ (Match R) (entries.map Prod.fst) (es.map Prod.fst) ∧
      List.Forall₂ (Match R) (entries.map Prod.snd) (es.map Prod.snd) := by
  induction entries generalizing ws with
  | nil =>
    cases h
    exact ⟨[], rfl, .nil, .nil⟩
  | cons entry rest ih =>
    rw [show Decoder.flatten (entry :: rest) = entry.1 :: entry.2 :: Decoder.flatten rest from rfl]
      at h
    cases h with
    | @cons _ key _ _ first tail =>
      cases tail with
      | @cons _ content _ _ second tail =>
        obtain ⟨es, rfl, keys, contents⟩ := ih tail
        exact ⟨(key, content) :: es, rfl, .cons first keys, .cons second contents⟩

omit [HostObject H] in
theorem keys_table (entries : List (Value × Value)) :
    entries.flatMap (tableFilling holds).keys = entries.map Prod.fst :=
  List.map_eq_flatMap.symm

theorem takes_setItem (entry : Value × Value) :
    x.Takes (tableFilling holds_dict) Machine.above ⟨.setItem, ()⟩ [entry] := by
  intro st m busy below id j done ws Q opened usable same q
  rw [keys_table] at usable
  obtain ⟨es, rfl, keys, contents⟩ := flatten_match same
  obtain ⟨t, here, -⟩ := opened.table
  have length : es.length = 1 := by simpa using keys.length_eq.symm
  obtain ⟨⟨key, content⟩, rfl⟩ := List.length_eq_one_iff.1 length
  have stack : (m.above (Decoder.flatten [(key, content)])).stack =
      below ++ [.ref j] ++ [key] ++ [content] := by
    rw [← opened.stack]
    simp [Machine.above, Machine.withStack, Decoder.flatten]
  refine Decoder.leads_setItem stack here ?_
  rw [← opened.stack]
  exact opened.stored usable keys contents q

theorem takes_setItems (entries : List (Value × Value)) :
    x.Takes (tableFilling holds_dict) Machine.behindMark ⟨.setItems, ()⟩ entries := by
  intro st m busy below id j done ws Q opened usable same q
  rw [keys_table] at usable
  obtain ⟨es, rfl, keys, contents⟩ := flatten_match same
  obtain ⟨t, here, -⟩ := opened.table
  have saved : (m.behindMark (Decoder.flatten es)).marks = (below ++ [.ref j]) :: m.marks := by
    rw [← opened.stack]
    rfl
  refine Decoder.leads_setItems rfl saved here ?_
  rw [← opened.stack]
  exact opened.stored usable keys contents q

end

/-! ## Sets -/

omit [HostObject H] in
theorem keys_set (members : List Value) :
    members.flatMap (setFilling (H := H)).keys = members := by
  simp [setFilling]

omit [HostObject H] in
theorem keys_cell_set (members : List Value) :
    ((setFilling (H := H)).cell members).keys = members := by
  rw [Filling.keys_cell, keys_set]

theorem takes_addItems (members : List Value) :
    x.Takes setFilling Machine.behindMark ⟨.addItems, ()⟩ members := by
  intro st m busy below id j done ws Q opened usable same q
  rw [keys_set] at usable
  replace same : List.Forall₂ (Match (Link st.memo m.memo)) members ws := by
    simpa [setFilling] using same
  obtain ⟨cell', here, copy, files, -⟩ := opened.copied
  rw [keys_cell_set] at files
  cases copy with
  | @set _ t copies =>
    rw [keys_unfiledMembers] at copies
    have apart : ∀ i j', x.KeyLink (done ++ members) st m i j' → j' ≠ j :=
      fun i j' r => keyLink_apart opened.linked usable.free opened.filling opened.link r
    have saved : (m.behindMark ws).marks = (below ++ [.ref j]) :: m.marks := by
      rw [← opened.stack]
      rfl
    refine Decoder.leads_addItems saved here ?_
    rw [← opened.stack]
    refine Decoder.keeps_addMembers (m := m) (opened.linked.mirror usable) apart here files
      (match_keyLink copies fun v mem => List.mem_append_left _ mem)
      (match_keyLink same fun v mem => List.mem_append_right _ mem)
      (fun k mem => usable.hashable k (List.mem_append_right _ mem)) usable.distinct ?_
    intro store t' replaced keys files'
    have whole : (setFilling.cell (done ++ members)).Matches (Link st.memo m.memo)
        (Cell.set (H := H) t') := by
      refine .set ?_
      rw [keys, keys_unfiledMembers]
      exact List.rel_append copies same
    have filed : (Cell.set (H := H) t').Files
        ((setFilling (H := H)).cell (done ++ members) |>.keys.map x.source.imageOf) := by
      rw [keys_cell_set]
      exact files'
    obtain ⟨opened', after⟩ := opened.filled here nofun replaced whole filed trivial
    exact q store opened' after

end Trip

end ObjectStream
