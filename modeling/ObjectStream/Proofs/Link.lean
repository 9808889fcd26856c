import ObjectStream.Proofs.Mirrors
import ObjectStream.Proofs.Trip

/-!
The link between the two sides of a trip.

Both sides number what they remember in the same order, so an object that the encoder has remembered
is linked to the object that the decoder remembers under the same number. Linked objects correspond,
except those that are still being filled (`Trip.Linked`). The lemmas say how the link changes when
either side makes, remembers or fills an object.
-/

namespace ObjectStream

open Decoder (Machine resolved)

variable {H : Type}

/-- The objects that both sides remember under one number. -/
def Link (sent : Std.HashMap Identity Nat) (got : Std.HashMap Nat Value) (i j : Nat) : Prop :=
  ∃ n, sent[Identity.object i]? = some n ∧ got[n]? = some (.ref j)

theorem Link.right {sent : Std.HashMap Identity Nat} {got : Std.HashMap Nat Value} {i j j' : Nat}
    (h : Link sent got i j) (h' : Link sent got i j') : j = j' := by
  obtain ⟨n, here, there⟩ := h
  obtain ⟨n', here', there'⟩ := h'
  obtain rfl := Option.some.inj (here.symm.trans here')
  cases there.symm.trans there'
  rfl

/-- The link is a map from the objects of one side to those of the other. -/
theorem Link.exists_map (sent : Std.HashMap Identity Nat) (got : Std.HashMap Nat Value) :
    ∃ f : Nat → Nat, ∀ i j, Link sent got i j → f i = j :=
  exists_functional fun _ _ _ => Link.right

/-- Both sides give out the same numbers, in order. -/
structure Numbered (sent : Std.HashMap Identity Nat) (got : Std.HashMap Nat Value) : Prop where
  size : got.size = sent.size
  sent_lt : ∀ (a : Identity) (n : Nat), sent[a]? = some n → n < sent.size
  got_none : ∀ n : Nat, sent.size ≤ n → got[n]? = none
  distinct : ∀ (a b : Identity) (n : Nat), sent[a]? = some n → sent[b]? = some n → a = b
  onto : ∀ n < sent.size, ∃ a : Identity, sent[a]? = some n
  /-- The instructions have four bytes for a number. -/
  small : sent.size ≤ 2 ^ 32

namespace Numbered

variable {sent : Std.HashMap Identity Nat} {got : Std.HashMap Nat Value} {a b : Identity} {n : Nat}
  {w : Value} {i j i' j' : Nat} {key : ClassKey}

theorem sent_insert (h : Numbered sent got) (new : sent[a]? = none) :
    (sent.insert a sent.size)[b]? = some n ↔
      (b = a ∧ n = sent.size) ∨ (sent[b]? = some n ∧ n < sent.size) := by
  rw [Std.HashMap.getElem?_insert]
  constructor
  · intro here
    split at here
    · next same => exact .inl ⟨(eq_of_beq same).symm, (Option.some.inj here).symm⟩
    · exact .inr ⟨here, h.sent_lt b n here⟩
  · rintro (⟨rfl, rfl⟩ | ⟨here, -⟩)
    · rw [if_pos (beq_self_eq_true _)]
    · rw [if_neg, here]
      intro same
      rw [eq_of_beq same, here] at new
      cases new

omit w in
theorem got_insert (got : Std.HashMap Nat Value) (w : Value) {top : Nat} (h : n < top) :
    (got.insert top w)[n]? = got[n]? := by
  rw [Std.HashMap.getElem?_insert, if_neg (by simp; omega)]

theorem insert (h : Numbered sent got) (new : sent[a]? = none) (room : sent.size < 2 ^ 32)
    (w : Value) :
    Numbered (sent.insert a sent.size) (got.insert sent.size w) := by
  have size : (sent.insert a sent.size).size = sent.size + 1 := by
    rw [Std.HashMap.size_insert, if_neg]
    rw [Std.HashMap.mem_iff_isSome_getElem?, new]
    exact nofun
  constructor
  · have unused : sent.size ∉ got := by
      rw [Std.HashMap.mem_iff_isSome_getElem?, h.got_none _ (Nat.le_refl _)]
      exact nofun
    rw [size, Std.HashMap.size_insert, if_neg unused, h.size]
  · intro b n here
    rcases (h.sent_insert new).1 here with ⟨-, rfl⟩ | ⟨-, below⟩ <;> omega
  · intro n above
    rw [Std.HashMap.getElem?_insert, if_neg (by simp; omega)]
    exact h.got_none n (by omega)
  · intro b c n here here'
    rcases (h.sent_insert new).1 here with ⟨rfl, rfl⟩ | ⟨here, below⟩
    · rcases (h.sent_insert new).1 here' with ⟨rfl, -⟩ | ⟨-, below⟩
      · rfl
      · omega
    · rcases (h.sent_insert new).1 here' with ⟨-, rfl⟩ | ⟨here', -⟩
      · omega
      · exact h.distinct b c n here here'
  · intro n below
    by_cases last : n = sent.size
    · exact ⟨a, (h.sent_insert new).2 (.inl ⟨rfl, last⟩)⟩
    · have former : n < sent.size := by omega
      obtain ⟨b, here⟩ := h.onto n former
      exact ⟨b, (h.sent_insert new).2 (.inr ⟨here, former⟩)⟩
  · omega

/-- The object that gets the next number is linked to what the decoder remembers then. -/
theorem link_insert (h : Numbered sent got) (new : sent[Identity.object i]? = none) :
    Link (sent.insert (.object i) sent.size) (got.insert sent.size (.ref j)) i' j' ↔
      (i' = i ∧ j' = j) ∨ Link sent got i' j' := by
  constructor
  · rintro ⟨n, here, there⟩
    rcases (h.sent_insert new).1 here with ⟨same, rfl⟩ | ⟨here, below⟩
    · rw [Std.HashMap.getElem?_insert_self] at there
      cases there
      exact .inl ⟨Identity.object.inj same, rfl⟩
    · rw [got_insert _ _ below] at there
      exact .inr ⟨n, here, there⟩
  · rintro (⟨rfl, rfl⟩ | ⟨n, here, there⟩)
    · exact ⟨sent.size, by simp, by simp⟩
    · have below := h.sent_lt _ n here
      exact ⟨n, (h.sent_insert new).2 (.inr ⟨here, below⟩), by rw [got_insert _ _ below, there]⟩

/-- A number that is given to a class links no object. -/
theorem link_insert_ofClass (h : Numbered sent got) (new : sent[Identity.ofClass key]? = none) :
    Link (sent.insert (.ofClass key) sent.size) (got.insert sent.size w) i' j' ↔
      Link sent got i' j' := by
  constructor
  · rintro ⟨n, here, there⟩
    rcases (h.sent_insert new).1 here with ⟨same, -⟩ | ⟨here, below⟩
    · cases same
    · rw [got_insert _ _ below] at there
      exact ⟨n, here, there⟩
  · rintro ⟨n, here, there⟩
    have below := h.sent_lt _ n here
    exact ⟨n, (h.sent_insert new).2 (.inr ⟨here, below⟩), by rw [got_insert _ _ below, there]⟩

end Numbered

variable [HostObject H]

namespace Trip

variable (x : Trip H)

/-- The protocol that the decoder has been told. -/
def announced : Nat := if 2 ≤ x.encoder.protocol.val then x.encoder.protocol.val else 0

/-- The decoder has a copy of the object: a corresponding one that files its keys like the source. -/
def Copied (R : Nat → Nat → Prop) (store : Store H) (j : Nat) (cell : Cell H) : Prop :=
  ∃ cell', store.cells[j]? = some cell' ∧ cell.Matches R cell' ∧
    cell'.Files (cell.keys.map x.source.imageOf) ∧ cell'.Older j

/-- What the decoder remembers for an object: a copy, or the global that a name stands for. -/
inductive Remembered (R : Nat → Nat → Prop) (store : Store H) (j : Nat) : Cell H → Prop
  | copy {cell} (h : x.Copied R store j cell) : Remembered R store j cell
  | name {g name symbol} (met : x.Meets g) (wire : Encoder.wireName x.encoder g = .ok name)
      (bound : x.decoder.registry.resolve name = .found symbol)
      (h : store.cells[j]? = some (.global (resolved name symbol))) : Remembered R store j (.global g)

/-- The two sides agree on what they remember. The objects in `busy` are still being filled. -/
structure Linked (st : Encoder.State H) (m : Machine H) (busy : List Nat) : Prop where
  source : x.source.Grown st.store
  protocol : m.protocol = x.announced
  numbers : Numbered st.memo m.memo
  /-- Every object that the encoder remembers is linked to an object. -/
  object : ∀ i n : Nat, st.memo[Identity.object i]? = some n →
    i < st.store.size ∧ ∃ j, m.memo[n]? = some (.ref j) ∧ j < m.store.size
  left : ∀ i i' j, Link st.memo m.memo i j → Link st.memo m.memo i' j → i = i'
  /-- Every class that the encoder remembers is remembered as a global of that class. -/
  ofClass : ∀ (key : ClassKey) (n : Nat), st.memo[Identity.ofClass key]? = some n →
    ∃ c j, x.classes c ∧ c.key = key ∧ m.memo[n]? = some (.ref j) ∧
      m.store.cells[j]? = some (.global (resolved ⟨c.module, c.qualname⟩ (.ofClass c)))
  filling : ∀ b ∈ busy, ∃ n : Nat, st.memo[Identity.object b]? = some n
  remembered : ∀ i j cell, Link st.memo m.memo i j → i ∉ busy → st.store.cells[i]? = some cell →
    x.Remembered (Link st.memo m.memo) m.store j cell

variable {x} {st st' : Encoder.State H} {m m' : Machine H} {busy : List Nat} {i j : Nat}
  {cell : Cell H} {R R' : Nat → Nat → Prop} {store : Store H}

theorem Copied.mono (h : x.Copied R m.store j cell) (grow : ∀ i j, R i j → R' i j)
    (kept : ∀ cell, m.store.cells[j]? = some cell → store.cells[j]? = some cell) :
    x.Copied R' store j cell := by
  obtain ⟨cell', found, same, files, older⟩ := h
  exact ⟨cell', kept _ found, same.mono grow, files, older⟩

theorem Remembered.mono (h : x.Remembered R m.store j cell) (grow : ∀ i j, R i j → R' i j)
    (kept : ∀ cell, m.store.cells[j]? = some cell → store.cells[j]? = some cell) :
    x.Remembered R' store j cell := by
  cases h with
  | copy h => exact .copy (h.mono grow kept)
  | name met wire bound h => exact .name met wire bound (kept _ h)

namespace Linked

theorem copied (h : x.Linked st m busy) (link : Link st.memo m.memo i j) (free : i ∉ busy)
    (found : st.store.cells[i]? = some cell) (plain : cell.Plain x.classes) :
    x.Copied (Link st.memo m.memo) m.store j cell := by
  cases h.remembered i j cell link free found with
  | copy h => exact h
  | name => exact plain.elim

theorem lt_size (h : x.Linked st m busy) (link : Link st.memo m.memo i j) :
    i < st.store.size ∧ j < m.store.size := by
  obtain ⟨n, here, there⟩ := link
  obtain ⟨known, j', there', known'⟩ := h.object i n here
  cases there.symm.trans there'
  exact ⟨known, known'⟩

theorem exists_link {n : Nat} (h : x.Linked st m busy) (here : st.memo[Identity.object i]? = some n) :
    ∃ j, Link st.memo m.memo i j ∧ m.memo[n]? = some (.ref j) := by
  obtain ⟨-, j, there, -⟩ := h.object i n here
  exact ⟨j, ⟨n, here, there⟩, there⟩

/-- Only the objects and the memos matter. -/
theorem congr (h : x.Linked st m busy) (sent : st'.store = st.store) (memo : st'.memo = st.memo)
    (got : m'.store = m.store) (memo' : m'.memo = m.memo) (protocol : m'.protocol = m.protocol) :
    x.Linked st' m' busy := by
  constructor
  · rw [sent]; exact h.source
  · rw [protocol]; exact h.protocol
  · rw [memo, memo']; exact h.numbers
  · rw [sent, got, memo, memo']; exact h.object
  · rw [memo, memo']; exact h.left
  · rw [got, memo, memo']; exact h.ofClass
  · rw [memo]; exact h.filling
  · rw [sent, got, memo, memo']; exact h.remembered

/-- The encoder remembers only objects that are there. -/
theorem unmet (h : x.Linked st m busy) (new : st.store.size ≤ i) :
    st.memo[Identity.object i]? = none := by
  cases known : st.memo[Identity.object i]? with
  | none => rfl
  | some n => exact absurd (h.object i n known).1 (Nat.not_lt.2 new)

theorem busy_lt (h : x.Linked st m busy) (open_ : i ∈ busy) : i < st.store.size := by
  obtain ⟨n, known⟩ := h.filling i open_
  exact (h.object i n known).1

/-- The encoder makes objects for its own use. -/
theorem alloc (h : x.Linked st m busy) (grown : st.store.Grown st'.store)
    (memo : st'.memo = st.memo) : x.Linked st' m busy := by
  constructor
  · exact h.source.trans grown
  · exact h.protocol
  · rw [memo]; exact h.numbers
  · rw [memo]
    intro i n here
    obtain ⟨known, rest⟩ := h.object i n here
    exact ⟨Nat.lt_of_lt_of_le known grown.size_le, rest⟩
  · rw [memo]; exact h.left
  · rw [memo]; exact h.ofClass
  · rw [memo]; exact h.filling
  · rw [memo]
    intro i j cell' link free found
    obtain ⟨known, -⟩ := h.lt_size link
    obtain ⟨former, kept⟩ := Store.cell_of_lt_size known
    obtain rfl := Option.some.inj ((grown i former kept).symm.trans found)
    exact h.remembered i j former link free kept

/-- The decoder makes further objects. -/
theorem grow (h : x.Linked st m busy) (grown : m.store.Grown store) :
    x.Linked st (m.withStore store) busy where
  source := h.source
  protocol := h.protocol
  numbers := h.numbers
  object i n here := by
    obtain ⟨known, j, there, known'⟩ := h.object i n here
    exact ⟨known, j, there, Nat.lt_of_lt_of_le known' grown.size_le⟩
  left := h.left
  ofClass key n here := by
    obtain ⟨c, j, known, same, there, global⟩ := h.ofClass key n here
    exact ⟨c, j, known, same, there, grown _ _ global⟩
  filling := h.filling
  remembered i j cell link free found :=
    (h.remembered i j cell link free found).mono (fun _ _ r => r) fun cell => grown j cell

/-- The decoder fills the copy of an object that is being filled. -/
theorem fill {old new : Cell H} (h : x.Linked st m busy) (filling : i ∈ busy)
    (link : Link st.memo m.memo i j) (here : m.store.cells[j]? = some old)
    (object : ∀ g, old ≠ .global g) (replaced : m.store.Replaced store j new) :
    x.Linked st (m.withStore store) busy where
  source := h.source
  protocol := h.protocol
  numbers := h.numbers
  object i n here := by
    obtain ⟨known, j, there, known'⟩ := h.object i n here
    exact ⟨known, j, there, replaced.size.symm ▸ known'⟩
  left := h.left
  ofClass key n here' := by
    obtain ⟨c, j', known, same, there, global⟩ := h.ofClass key n here'
    refine ⟨c, j', known, same, there, (replaced.other j' ?_).trans global⟩
    rintro rfl
    exact object _ (Option.some.inj (here.symm.trans global))
  filling := h.filling
  remembered i' j' cell link' free found := by
    refine (h.remembered i' j' cell link' free found).mono (fun _ _ r => r) fun cell held => ?_
    refine (replaced.other j' ?_).trans held
    rintro rfl
    exact free (h.left i i' j' link link' ▸ filling)

/-- Both sides remember an object that is still to be filled. -/
theorem open_ (h : x.Linked st m busy) (new : st.memo[Identity.object i]? = none)
    (room : st.memo.size < 2 ^ 32)
    (known : i < st.store.size) (known' : j < m.store.size)
    (fresh : ∀ i', ¬Link st.memo m.memo i' j) (sent : st'.store = st.store)
    (memo : st'.memo = st.memo.insert (.object i) st.memo.size) :
    x.Linked st' (m.remember st.memo.size (.ref j)) (i :: busy) := by
  have link : ∀ i' j', Link st'.memo (m.remember st.memo.size (.ref j)).memo i' j' ↔
      (i' = i ∧ j' = j) ∨ Link st.memo m.memo i' j' := by
    intro i' j'
    rw [memo]
    exact h.numbers.link_insert new
  constructor
  · rw [sent]; exact h.source
  · exact h.protocol
  · rw [memo]; exact h.numbers.insert new room _
  · rw [memo, sent]
    intro i' n here
    rcases (h.numbers.sent_insert new).1 here with ⟨same, rfl⟩ | ⟨here, below⟩
    · cases same
      exact ⟨known, j, Std.HashMap.getElem?_insert_self, known'⟩
    · obtain ⟨known, j', there, known'⟩ := h.object i' n here
      exact ⟨known, j', (Numbered.got_insert _ _ below).trans there, known'⟩
  · intro i₁ i₂ j' first second
    rcases (link i₁ j').1 first with ⟨rfl, rfl⟩ | former
    · rcases (link i₂ j').1 second with ⟨rfl, -⟩ | former'
      · rfl
      · exact absurd former' (fresh i₂)
    · rcases (link i₂ j').1 second with ⟨-, rfl⟩ | former'
      · exact absurd former (fresh i₁)
      · exact h.left i₁ i₂ j' former former'
  · rw [memo]
    intro key n here
    rcases (h.numbers.sent_insert new).1 here with ⟨same, -⟩ | ⟨here, below⟩
    · cases same
    · obtain ⟨c, j', known, same, there, global⟩ := h.ofClass key n here
      exact ⟨c, j', known, same, (Numbered.got_insert _ _ below).trans there, global⟩
  · rw [memo]
    intro b mem
    rcases List.mem_cons.1 mem with rfl | mem
    · exact ⟨st.memo.size, Std.HashMap.getElem?_insert_self⟩
    · obtain ⟨n, here⟩ := h.filling b mem
      exact ⟨n, (h.numbers.sent_insert new).2 (.inr ⟨here, h.numbers.sent_lt _ n here⟩)⟩
  · rw [sent]
    intro i' j' cell linked free found
    rcases (link i' j').1 linked with ⟨rfl, -⟩ | linked
    · exact absurd (List.mem_cons_self ..) free
    · exact (h.remembered i' j' cell linked (fun mem => free (List.mem_cons_of_mem _ mem))
        found).mono (fun i j r => (link i j).2 (.inr r)) fun _ found => found

/-- An object that was filled is a copy from then on. -/
theorem close (h : x.Linked st m (i :: busy))
    (done : ∀ j cell, Link st.memo m.memo i j → st.store.cells[i]? = some cell →
      x.Remembered (Link st.memo m.memo) m.store j cell) :
    x.Linked st m busy where
  source := h.source
  protocol := h.protocol
  numbers := h.numbers
  object := h.object
  left := h.left
  ofClass := h.ofClass
  filling b mem := h.filling b (List.mem_cons_of_mem _ mem)
  remembered i' j cell link free found := by
    by_cases same : i' = i
    · subst same
      exact done j cell link found
    · refine h.remembered i' j cell link ?_ found
      exact fun mem => (List.mem_cons.1 mem).elim same free

/-- Both sides remember a class. -/
theorem rememberClass {c : Class} (h : x.Linked st m busy)
    (new : st.memo[Identity.ofClass c.key]? = none) (room : st.memo.size < 2 ^ 32)
    (known : x.classes c)
    (global : m.store.cells[j]? = some (.global (resolved ⟨c.module, c.qualname⟩ (.ofClass c))))
    (sent : st'.store = st.store)
    (memo : st'.memo = st.memo.insert (.ofClass c.key) st.memo.size) :
    x.Linked st' (m.remember st.memo.size (.ref j)) busy := by
  have link : ∀ i' j', Link st'.memo (m.remember st.memo.size (.ref j)).memo i' j' ↔
      Link st.memo m.memo i' j' := by
    intro i' j'
    rw [memo]
    exact h.numbers.link_insert_ofClass new
  constructor
  · rw [sent]; exact h.source
  · exact h.protocol
  · rw [memo]; exact h.numbers.insert new room _
  · rw [memo, sent]
    intro i' n here
    rcases (h.numbers.sent_insert new).1 here with ⟨same, -⟩ | ⟨here, below⟩
    · cases same
    · obtain ⟨known, j', there, known'⟩ := h.object i' n here
      exact ⟨known, j', (Numbered.got_insert _ _ below).trans there, known'⟩
  · intro i₁ i₂ j' first second
    exact h.left i₁ i₂ j' ((link i₁ j').1 first) ((link i₂ j').1 second)
  · rw [memo]
    intro key n here
    rcases (h.numbers.sent_insert new).1 here with ⟨same, rfl⟩ | ⟨here, below⟩
    · cases same
      exact ⟨c, j, known, rfl, Std.HashMap.getElem?_insert_self, global⟩
    · obtain ⟨c, j', known, same, there, global⟩ := h.ofClass key n here
      exact ⟨c, j', known, same, (Numbered.got_insert _ _ below).trans there, global⟩
  · rw [memo]
    intro b mem
    obtain ⟨n, here⟩ := h.filling b mem
    exact ⟨n, (h.numbers.sent_insert new).2 (.inr ⟨here, h.numbers.sent_lt _ n here⟩)⟩
  · rw [sent]
    intro i' j' cell linked free found
    exact (h.remembered i' j' cell ((link i' j').1 linked) free found).mono
      (fun i j r => (link i j).2 r) fun _ found => found

end Linked

end Trip

end ObjectStream
