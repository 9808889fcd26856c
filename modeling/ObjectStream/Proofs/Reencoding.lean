import ObjectStream.Proofs.Parallel
import ObjectStream.Proofs.RoundTrip

/-!
The same graph is written in the same way.

Two walks over the same graph are parallel, wherever it lies in their stores: there is one lemma for each
function of the encoder (`Saves`), and the bound of the walk carries the induction (`saves_save`). So the
bytes depend on nothing but the graph (`Encoder.dumps_congr`). What was read back from a stream is the same
graph again, since correspondence leaves out no more than the payload of a not-a-number
(`Isomorphic.sameGraph`), and so it is written as that stream.
-/

namespace ObjectStream

namespace Encoder

variable {H : Type}

/-- The configuration with the registry and the host of another place. -/
abbrev Config.elsewhere (cfg : Config H) (r : Registry H) (host : Host H) : Config H :=
  { cfg with registry := r, host := host }

/-- What is the same is saved in the same way on both sides. -/
def Saves (save save' : Value → Encode H Unit) : Prop :=
  ∀ {R : Nat → Nat → Prop} {v w : Value}, Value.Same R v w → Abreast R (save v) (save' w)

section
variable {save save' : Value → Encode H Unit} (inner : Saves save save') {R : Nat → Nat → Prop}
  {v w : Value} {items items' : List Value} {entries entries' : List (Value × Value)}
include inner

/-! ## Items and entries -/

theorem Saves.saveAll (same : List.Forall₂ (Value.Same R) items items') :
    Abreast R (saveAll save items) (saveAll save' items') := by
  induction same with
  | nil => exact .done
  | cons head _ ih => exact .after (inner head) ih

theorem Saves.saveEntries (same : List.Forall₂ (Value.SameEntry R) entries entries') :
    Abreast R (saveEntries save entries) (saveEntries save' entries') := by
  induction same with
  | nil => exact .done
  | cons head _ ih => exact .after (inner head.1) (.after (inner head.2) ih)

theorem Saves.appendBatch (same : List.Forall₂ (Value.Same R) items items') :
    Abreast R (appendBatch save items) (appendBatch save' items') := by
  cases same with
  | nil => exact .done
  | cons head rest =>
    cases rest with
    | nil => exact .after (inner head) (Abreast.emit _ _)
    | cons second rest =>
      exact .after (Abreast.emit _ _) (.after (inner.saveAll (.cons head (.cons second rest)))
        (Abreast.emit _ _))

theorem Saves.appendEach (same : List.Forall₂ (Value.Same R) items items') :
    Abreast R (appendEach save items) (appendEach save' items') := by
  induction same with
  | nil => exact .done
  | cons head _ ih => exact .after (inner head) (.after (Abreast.emit _ _) ih)

theorem Saves.storeBatch (same : List.Forall₂ (Value.SameEntry R) entries entries') :
    Abreast R (storeBatch save entries) (storeBatch save' entries') := by
  cases same with
  | nil => exact .done
  | cons head rest =>
    cases rest with
    | nil => exact .after (inner head.1) (.after (inner head.2) (Abreast.emit _ _))
    | cons second rest =>
      exact .after (Abreast.emit _ _) (.after (inner.saveEntries (.cons head (.cons second rest)))
        (Abreast.emit _ _))

theorem Saves.storeEach (same : List.Forall₂ (Value.SameEntry R) entries entries') :
    Abreast R (storeEach save entries) (storeEach save' entries') := by
  induction same with
  | nil => exact .done
  | cons head _ ih =>
    exact .after (inner head.1) (.after (inner head.2) (.after (Abreast.emit _ _) ih))

theorem Saves.addBatch (same : List.Forall₂ (Value.Same R) items items') :
    Abreast R (addBatch save items) (addBatch save' items') := by
  cases same with
  | nil => exact .done
  | cons head rest =>
    exact .after (Abreast.emit _ _) (.after (inner.saveAll (.cons head rest)) (Abreast.emit _ _))

end

/-- Lists of one length are cut at the same places. -/
theorem forall₂_batches {α β : Type} {T : α → β → Prop} {items : List α} {items' : List β}
    (same : List.Forall₂ T items items') :
    List.Forall₂ (List.Forall₂ T) (batches items) (batches items') := by
  induction items using batches.induct generalizing items' with
  | case1 items short =>
    have short' : items'.length < batchSize := same.length_eq ▸ short
    rw [batches.eq_def items, batches.eq_def items', if_pos short, if_pos short']
    exact .cons same .nil
  | case2 items long ih =>
    have long' : ¬items'.length < batchSize := same.length_eq ▸ long
    rw [batches.eq_def items, batches.eq_def items', if_neg long, if_neg long']
    exact .cons (List.forall₂_take _ same) (ih (List.forall₂_drop _ same))

section
variable {cfg : Config H} {r : Registry H} {host : Host H} {save save' : Value → Encode H Unit}
  (inner : Saves save save') {R : Nat → Nat → Prop} {v w : Value} {items items' : List Value}
  {entries entries' : List (Value × Value)}

theorem Abreast.saveEmptyTuple :
    Abreast R (saveEmptyTuple cfg) (saveEmptyTuple (cfg.elsewhere r host)) :=
  .ite (Abreast.emit _ _) (.after (Abreast.emit _ _) (Abreast.emit _ _))

theorem Abreast.emitShortTuple (length : Nat) :
    Abreast (H := H) R (emitShortTuple length) (emitShortTuple length) := by
  rcases length with _ | _ | _ | length
  all_goals exact Abreast.emit _ _

theorem Abreast.memoizeBuilt (same : Value.Same R v w) :
    Abreast R (memoizeBuilt cfg v) (memoizeBuilt (cfg.elsewhere r host) w) := by
  refine Abreast.memoizedValue same fun id => ?_
  cases id with
  | some id => exact .after (Abreast.emit _ _) (Abreast.emitGet _ _)
  | none => exact Abreast.memoize _ same

include inner

theorem Saves.appendItems (same : List.Forall₂ (Value.Same R) items items') :
    Abreast R (appendItems cfg save items) (appendItems (cfg.elsewhere r host) save' items') :=
  .ite (Abreast.forM (forall₂_batches same) fun _ _ => inner.appendBatch) (inner.appendEach same)

theorem Saves.storeEntries (same : List.Forall₂ (Value.SameEntry R) entries entries') :
    Abreast R (storeEntries cfg save entries) (storeEntries (cfg.elsewhere r host) save' entries') :=
  .ite (Abreast.forM (forall₂_batches same) fun _ _ => inner.storeBatch) (inner.storeEach same)

/-! ## Names and calls -/

theorem Saves.writeGlobal (coded : ∀ name, r.extensionCode? name = cfg.registry.extensionCode? name)
    (name : Name) :
    Parallel R (writeGlobal cfg save name) (writeGlobal (cfg.elsewhere r host) save' name)
      fun _ again again' => again = again' := by
  have done : ∀ {R : Nat → Nat → Prop} (again : Bool),
      Parallel (H := H) R (pure again) (pure again) fun _ again again' => again = again' :=
    fun _ => .pure fun _ _ => rfl
  unfold Encoder.writeGlobal
  dsimp only
  rw [coded]
  cases (if 2 ≤ cfg.protocol.val then cfg.registry.extensionCode? name else none) with
  | some code =>
    refine .after ?_ (done false)
    exact .ite (Abreast.emit _ _) (.ite (Abreast.emit _ _) (Abreast.emit _ _))
  | none =>
    refine .ite ?_ ?_
    · exact .after (Abreast.saveText _ _) (.after (Abreast.saveText _ _)
        (.after (Abreast.emit _ _) (done true)))
    · rcases dottedSplits name.qualname with _ | ⟨⟨parent, last⟩, _⟩
      · exact .after (.ite (.fail _) (Abreast.emit _ _)) (done true)
      · -- a dotted name is an attribute of its owner, and is written as the call that fetches it
        refine .bind (.allocNamed _ _) fun R₁ owner owner' le₁ own => ?_
        have held : List.Forall₂ (Value.Same R₁) [owner, .str last] [owner', .str last] :=
          .cons own (.cons (.atom rfl rfl) .nil)
        refine .bind (.allocTuple held) fun R₂ args args' le₂ tuple => ?_
        refine .bind (.allocNamed _ _) fun R₃ getter getter' le₃ get => ?_
        exact .after (inner get) (.after (inner (tuple.mono le₃))
          (.after (Abreast.emit _ _) (done true)))

theorem Saves.saveGlobal (coded : ∀ name, r.extensionCode? name = cfg.registry.extensionCode? name)
    (module qualname : String) (same : Value.Same R v w) :
    Abreast R (saveGlobal cfg save v (.named module qualname))
      (saveGlobal (cfg.elsewhere r host) save' w (.named module qualname)) := by
  refine Parallel.bind (inner.writeGlobal coded ⟨module, qualname⟩) fun R' again _ le here => ?_
  subst here
  exact .ite (Abreast.memoize _ (same.mono le)) Abreast.done

/-- The objects that are made for a call are taken for each other. -/
theorem Saves.saveNamedCall {module qualname : String} {obj obj' : Option Value}
    (plain : qualname ≠ "__newobj_ex__" ∧ qualname ≠ "__newobj__")
    (args : List.Forall₂ (Value.Same R) items items') (built : Option.Rel (Value.Same R) obj obj') :
    Abreast R (saveNamedCall cfg save module qualname items obj)
      (saveNamedCall (cfg.elsewhere r host) save' module qualname items' obj') := by
  rw [saveNamedCall_eq plain, saveNamedCall_eq plain]
  refine .bind (.allocNamed _ _) fun R₁ f f' le₁ global => ?_
  refine .bind (.allocTuple (args.imp fun _ _ same => same.mono le₁)) fun R₂ a a' le₂ tuple => ?_
  refine .after (inner (global.mono le₂)) (.after (inner tuple) (.after (Abreast.emit _ _) ?_))
  cases built with
  | none => exact Abreast.done
  | some same => exact Abreast.memoizeBuilt (same.mono (le₁.trans le₂))

/-! ## Kinds of objects -/

theorem Saves.saveBytes (bytes : Bytes) :
    Abreast R (saveBytes cfg save bytes) (saveBytes (cfg.elsewhere r host) save' bytes) :=
  .ite (Abreast.saveBinary _ _) <|
    .ite (inner.saveNamedCall (by decide) .nil .none)
      (inner.saveNamedCall (by decide) (.cons (.atom rfl rfl) (.cons (.atom rfl rfl) .nil)) .none)

theorem Saves.saveByteArray (same : Value.Same R v w) (data : Bytes) :
    Abreast R (saveByteArray cfg save v data) (saveByteArray (cfg.elsewhere r host) save' w data) := by
  refine .ite (.after (Abreast.emitPayload _ _) (Abreast.memoize _ same)) ?_
  refine inner.saveNamedCall (by decide) ?_ (.some same)
  split
  · exact .nil
  · exact .cons (.atom rfl rfl) .nil

theorem Saves.saveList (same : Value.Same R v w) (held : List.Forall₂ (Value.Same R) items items') :
    Abreast R (saveList cfg save v items) (saveList (cfg.elsewhere r host) save' w items') := by
  have rest : Abreast R (do memoize cfg.protocol v; Encoder.appendItems cfg save items)
      (do memoize cfg.protocol w; Encoder.appendItems (cfg.elsewhere r host) save' items') :=
    .after (Abreast.memoize _ same) (inner.appendItems held)
  exact .ite (.after (Abreast.emit _ _) rest)
    (.after (Abreast.emit _ _) (.after (Abreast.emit _ _) rest))

theorem Saves.saveDict (same : Value.Same R v w)
    (held : List.Forall₂ (Value.SameEntry R) entries entries') :
    Abreast R (saveDict cfg save v entries) (saveDict (cfg.elsewhere r host) save' w entries') := by
  have rest : Abreast R (do memoize cfg.protocol v; Encoder.storeEntries cfg save entries)
      (do memoize cfg.protocol w; Encoder.storeEntries (cfg.elsewhere r host) save' entries') :=
    .after (Abreast.memoize _ same) (inner.storeEntries held)
  exact .ite (.after (Abreast.emit _ _) rest)
    (.after (Abreast.emit _ _) (.after (Abreast.emit _ _) rest))

/-- A tuple is found in the memo behind its items on both sides, or on neither. -/
theorem Saves.saveTuple (same : Value.Same R v w) (held : List.Forall₂ (Value.Same R) items items') :
    Abreast R (saveTuple cfg save v items) (saveTuple (cfg.elsewhere r host) save' w items') := by
  unfold Encoder.saveTuple
  rw [← held.length_eq]
  refine .ite (.after (inner.saveAll held) (Abreast.memoizedValue same fun id => ?_))
    (.after (Abreast.emit _ _) (.after (inner.saveAll held) (Abreast.memoizedValue same fun id => ?_)))
  · cases id with
    | some id => exact .after (Abreast.emitTimes _ _ _) (Abreast.emitGet _ _)
    | none => exact .after (Abreast.emitShortTuple _) (Abreast.memoize _ same)
  · cases id with
    | some id =>
      exact .ite (.after (Abreast.emit _ _) (Abreast.emitGet _ _))
        (.after (Abreast.emitTimes _ _ _) (Abreast.emitGet _ _))
    | none => exact .after (Abreast.emit _ _) (Abreast.memoize _ same)

/-- The list that a set is written as is the same on both sides. -/
theorem Saves.saveSet (same : Value.Same R v w) (held : List.Forall₂ (Value.Same R) items items') :
    Abreast R (saveSet cfg save v items) (saveSet (cfg.elsewhere r host) save' w items') := by
  refine .ite ?_ ?_
  · exact .after (Abreast.emit _ _) (.after (Abreast.memoize _ same)
      (Abreast.forM (forall₂_batches held) fun _ _ => inner.addBatch))
  · refine .bind (.alloc (.list held)) fun R' list list' le here => ?_
    exact inner.saveNamedCall (by decide) (.cons here .nil) (.some (same.mono le))

theorem Saves.saveFrozenSet (same : Value.Same R v w)
    (held : List.Forall₂ (Value.Same R) items items') :
    Abreast R (saveFrozenSet cfg save v items)
      (saveFrozenSet (cfg.elsewhere r host) save' w items') := by
  refine .ite ?_ ?_
  · refine .after (Abreast.emit _ _) (.after (inner.saveAll held) ?_)
    refine Abreast.memoizedValue same fun id => ?_
    cases id with
    | some id => exact .after (Abreast.emit _ _) (Abreast.emitGet _ _)
    | none => exact .after (Abreast.emit _ _) (Abreast.memoize _ same)
  · refine .bind (.alloc (.list held)) fun R' list list' le here => ?_
    exact inner.saveNamedCall (by decide) (.cons here .nil) (.some (same.mono le))

end

/-! ## The walk -/

section
variable [HostObject H] {cfg : Config H} {r : Registry H} {host : Host H}
  {save save' : Value → Encode H Unit} (inner : Saves save save') {R : Nat → Nat → Prop} {v w : Value}
  (coded : ∀ name, r.extensionCode? name = cfg.registry.extensionCode? name)

/-- An integer is written as the word that holds it, if one does. -/
theorem saveContent_reduced (v : Value) : saveContent cfg save v.reduced = saveContent cfg save v := by
  cases v with
  | long n =>
    by_cases fits : fitsWord n
    · simp only [Value.reduced, Value.ofInt, if_pos fits, saveContent, saveLong]
    · simp only [Value.reduced, Value.ofInt, if_neg fits]
  | _ => rfl

include inner

theorem Saves.saveAtom (atom : v.identity? = none) :
    Abreast R (saveContent cfg save v) (saveContent (cfg.elsewhere r host) save' v) := by
  cases v with
  | none => exact Abreast.emit _ _
  | bool b => exact Abreast.saveBool _ b
  | int n => exact Abreast.saveWord _ n
  | long n => exact Abreast.saveLong _ n
  | float x => exact Abreast.saveFloat _ x
  | complex re im =>
    exact inner.saveNamedCall (by decide) (.cons (.atom rfl rfl) (.cons (.atom rfl rfl) .nil)) .none
  | str text => exact Abreast.saveText _ text
  | bytes bytes => exact inner.saveBytes bytes
  | emptyTuple => exact Abreast.saveEmptyTuple
  | ref id => cases atom

include coded

theorem Saves.saveCell {i j : Nat} {cell cell' : Cell H} (related : R i j)
    (same : cell.Same R cell') :
    Abreast R (saveCell cfg save i cell) (saveCell (cfg.elsewhere r host) save' j cell') := by
  cases same with
  | bytearray data => exact inner.saveByteArray (.ref related) data
  | list items => exact inner.saveList (.ref related) items
  | tuple items => exact inner.saveTuple (.ref related) items
  | dict entries => exact inner.saveDict (.ref related) entries
  | set keys => exact inner.saveSet (.ref related) keys
  | frozenset keys => exact inner.saveFrozenSet (.ref related) keys
  | named module qualname => exact inner.saveGlobal coded module qualname (.ref related)

theorem Saves.saveObject {i j : Nat} (related : R i j) :
    Abreast R (saveObject cfg save i) (saveObject (cfg.elsewhere r host) save' j) := by
  refine Abreast.memoized related fun id => ?_
  cases id with
  | some id => exact Abreast.emitGet _ id
  | none =>
    -- what is met for the first time holds the same on both sides
    refine .get fun R' st st' le twins => ?_
    obtain ⟨cell, cell', found, found', same⟩ := twins.objects i j (le _ _ related)
    rw [found, found']
    exact inner.saveCell coded (le _ _ related) same

theorem Saves.saveContent (same : Value.Same R v w) :
    Abreast R (saveContent cfg save v) (saveContent (cfg.elsewhere r host) save' w) := by
  cases same with
  | ref related => exact inner.saveObject coded related
  | atom atom same =>
    rw [← saveContent_reduced v, ← saveContent_reduced w, ← same]
    exact inner.saveAtom (by rw [Value.identity?_reduced, atom])

end

section
variable [HostObject H] {cfg : Config H} {r : Registry H} {host : Host H} {R : Nat → Nat → Prop}
  {v w : Value} (coded : ∀ name, r.extensionCode? name = cfg.registry.extensionCode? name)
  (plain : cfg.persistentId = none)
include coded plain

theorem saves_save (room : Nat) :
    Saves (save cfg room true) (save (cfg.elsewhere r host) room true) := by
  have ask : ∀ v : Value, askPersistentId cfg v = pure none := fun v => by
    unfold askPersistentId
    rw [plain]
  have ask' : ∀ v : Value, askPersistentId (cfg.elsewhere r host) v = pure none := fun v => by
    unfold askPersistentId
    dsimp only
    rw [plain]
  induction room with
  | zero => exact fun _ => .fail _
  | succ room ih =>
    intro R v w same
    refine .get fun R' st st' le _ => ?_
    refine .after (Abreast.deepen _ _) (.after (Abreast.framed _) ?_)
    rw [if_pos rfl, if_pos rfl, ask, ask', pure_bind, pure_bind]
    exact .after (ih.saveContent coded (same.mono le)) (Abreast.deepen _ _)

theorem Abreast.dump (same : Value.Same R v w) :
    Abreast R (dump cfg v) (dump (cfg.elsewhere r host) w) := by
  have value : Abreast R (save cfg cfg.limits.maxDepth true v)
      (save (cfg.elsewhere r host) cfg.limits.maxDepth true w) := saves_save coded plain _ same
  have body := Parallel.after value (.after (Abreast.emit .stop ()) (Abreast.framed Frame.Writer.finish))
  have framing := Parallel.ite (c := 4 ≤ cfg.protocol.val)
    (.after (Abreast.framed Frame.Writer.start) body) body
  exact .after (Abreast.deepen 0 0) (.ite (.after (Abreast.emit _ _) framing) framing)

end

end Encoder

/-! ## The same bytes -/

/-- No part of the value is a not-a-number. -/
def Value.Ordinary : Value → Prop
  | .float x => x.isNaN = false
  | .complex re im => re.isNaN = false ∧ im.isNaN = false
  | _ => True

section
variable {R : Nat → Nat → Prop} {v w : Value}

theorem Double.eq_of_settled {x y : Double} (h : y.settled = x.settled) (ordinary : x.isNaN = false) :
    y = x := by
  rcases Double.eq_or_isNaN h with same | ⟨nan, -⟩
  · exact same
  · rw [ordinary] at nan
    cases nan

/-- Corresponding values are the same, except for a not-a-number. -/
theorem Match.same (h : Match R v w) (ordinary : v.Ordinary) : Value.Same R v w := by
  cases h with
  | ref h => exact .ref h
  | long n => exact .atom rfl (Value.reduced_ofInt n).symm
  | float same =>
    obtain rfl := Double.eq_of_settled same ordinary
    exact .atom rfl rfl
  | complex same same' =>
    obtain rfl := Double.eq_of_settled same ordinary.1
    obtain rfl := Double.eq_of_settled same' ordinary.2
    exact .atom rfl rfl
  | _ => exact .atom rfl rfl

variable {H : Type} {cell cell' : Cell H}

theorem Cell.Matches.same (h : cell.Matches R cell') (plain : cell.Plain fun _ => False)
    (ordinary : ∀ u ∈ cell.children, u.Ordinary) : cell.Same R cell' := by
  have all : ∀ {vs ws : List Value}, List.Forall₂ (Match R) vs ws →
      (∀ v ∈ vs, v ∈ cell.children) → List.Forall₂ (Value.Same R) vs ws :=
    fun same inside => (forall₂_mem same).imp fun v w ⟨same, mem, _⟩ =>
      same.same (ordinary v (inside v mem))
  have keys := all h.keys fun v mem => Cell.mem_children.2 (.inl mem)
  have contents := all h.contents fun v mem => Cell.mem_children.2 (.inr mem)
  cases h with
  | bytearray data => exact .bytearray data
  | list _ => exact .list contents
  | tuple _ => exact .tuple contents
  | dict _ _ => exact .dict (Keyed.entries_match keys contents)
  | set _ => exact .set keys
  | frozenset _ => exact .frozenset keys
  | inst c _ _ => exact plain.elim

end

section
variable {H : Type} [HostObject H] {s s' : Store H} {v w : Value}

omit [HostObject H] in
theorem Isomorphic.sameGraph (h : Isomorphic s s' v w)
    (plain : ∀ i, s.Reaches v (.ref i) → ∃ cell, s.cells[i]? = some cell ∧ cell.Plain fun _ => False)
    (ordinary : ∀ u, s.Reaches v u → u.Ordinary) : SameGraph s s' v w := by
  obtain ⟨f, bijective, same, objects⟩ := h
  refine ⟨f, bijective, same.same (ordinary v .self), fun i reach => ?_⟩
  obtain ⟨cell, cell', found, found', held⟩ := objects i reach
  obtain ⟨_, here, plain⟩ := plain i reach
  obtain rfl := Option.some.inj (found.symm.trans here)
  exact ⟨_, cell', found, found', held.same plain fun u mem => ordinary u (.child reach found mem)⟩

/-- Encoders of one configuration write the same graph in the same way, wherever it lies. -/
theorem Encoder.dumps_congr {cfg : Config H} {r : Registry H} {host : Host H}
    (coded : ∀ name, r.extensionCode? name = cfg.registry.extensionCode? name)
    (plain : cfg.persistentId = none) (same : SameGraph s s' v w) :
    (dumps cfg s v).1 = (dumps (cfg.elsewhere r host) s' w).1 := by
  obtain ⟨R, twins, same⟩ := twins_of_sameGraph same
  have written : Abreast R (dump cfg v) (dump (cfg.elsewhere r host) w) :=
    Abreast.dump coded plain same
  have ended := written R _ _ (le_refl R) twins
  unfold dumps
  generalize dump cfg v (State.ofSink s {} {}) = run,
    dump (cfg.elsewhere r host) w (State.ofSink s' {} {}) = run' at ended
  cases ended with
  | error e => rfl
  | ok ended =>
    obtain ⟨R', -, after, -⟩ := ended
    simp only [after.frames]

omit [HostObject H] in
theorem Store.ordinary_of_cells
    (cells : ∀ (i : Nat) (cell : Cell H), s.cells[i]? = some cell → ∀ u ∈ cell.children, u.Ordinary)
    (root : v.Ordinary) (u : Value) (reach : s.Reaches v u) : u.Ordinary := by
  induction reach with
  | self => exact root
  | child _ found held _ => exact cells _ _ found _ held

/-- What is written depends on the graph alone. Fresh encoders write the same graph as the same bytes,
    or fail with the same error, wherever the graph lies. So what was read back from a stream is written
    as this stream. -/
theorem dumps_determined (p : Protocol) (n n' : Nat) (host host' : Host H) :
    (∀ (s s' : Store H) (v w : Value), SameGraph s s' v w →
      (Encoder.dumps { registry := .seeded n, host := host, protocol := p } s v).1 =
        (Encoder.dumps { registry := .seeded n', host := host', protocol := p } s' w).1) ∧
    ∀ (s : Store H) (v : Value), s.Tidy True (fun _ => False) v →
      (∀ u, s.Reaches v u → u.Ordinary) → ∀ (bytes : Bytes) (s' base : Store H),
      Encoder.dumps { registry := .seeded n, host := host, protocol := p } s v = (.ok bytes, s') →
      bytes.length < 2 ^ 64 →
      ∃ w base', Decoder.loads { registry := .seeded n', host := host' } base bytes = (.ok w, base') ∧
        (Encoder.dumps { registry := .seeded n', host := host', protocol := p } base' w).1 =
          .ok bytes := by
  have graph : ∀ (s s' : Store H) (v w : Value), SameGraph s s' v w →
      (Encoder.dumps { registry := .seeded n, host := host, protocol := p } s v).1 =
        (Encoder.dumps { registry := .seeded n', host := host', protocol := p } s' w).1 :=
    fun _ _ _ _ => Encoder.dumps_congr (fun _ => rfl) rfl
  refine ⟨graph, fun s v tidy ordinary bytes s' base dumped word => ?_⟩
  let x : Trip H := .builtIn n n' host host' p s
  obtain ⟨w, base', loaded, alike⟩ :=
    x.arrives base trivial Trip.builtIn_agrees (Trip.builtIn_sound tidy) dumped rfl word
  have plain : ∀ i, s.Reaches v (.ref i) →
      ∃ cell, s.cells[i]? = some cell ∧ cell.Plain fun _ => False := fun i reach =>
    have ⟨cell, found, plain, _⟩ := tidy i reach
    ⟨cell, found, plain⟩
  -- what was read is the graph that was written, so it is written as that was
  refine ⟨w, base', loaded, ?_⟩
  rw [← graph s base' v w (alike.sameGraph plain ordinary), dumped]

end

/-- The knot with its objects in the other order. -/
def reversedKnot : Store Empty := ⟨#[.tuple [.ref 1], .list #[.ref 0]]⟩

theorem ordinary_knot (u : Value) (reach : knot.Reaches (.ref 1) u) : u.Ordinary := by
  refine Store.ordinary_of_cells (v := .ref 1) (fun i cell found u held => ?_) trivial u reach
  match i, found with
  | 0, rfl => cases List.mem_singleton.1 held; trivial
  | 1, rfl => cases List.mem_singleton.1 held; trivial

theorem sameGraph_knot : SameGraph knot reversedKnot (.ref 1) (.ref 0) := by
  have inside : ∀ i, knot.Reaches (.ref 1) (.ref i) → i = 0 ∨ i = 1 := fun i reach => by
    obtain ⟨cell, found, -⟩ := tidy_knot i reach
    have : i < 2 := Store.lt_size_of_cell found
    omega
  -- both graphs have two objects, the tuple and its list
  have tuple : reversedKnot.Reaches (.ref 0) (.ref 0) := .self
  have list : reversedKnot.Reaches (.ref 0) (.ref 1) := .child .self rfl (List.mem_singleton_self _)
  refine ⟨fun i => 1 - i, ⟨?_, ?_, ?_⟩, .ref rfl, ?_⟩
  · intro i reach
    rcases inside i reach with rfl | rfl
    · exact list
    · exact tuple
  · intro i reach j reach' same
    rcases inside i reach with rfl | rfl <;> rcases inside j reach' with rfl | rfl
    all_goals first | rfl | cases same
  · have back : ∀ w, reversedKnot.Reaches (.ref 0) w → w = .ref 0 ∨ w = .ref 1 := by
      intro w reach
      induction reach with
      | self => exact .inl rfl
      | child _ found held ih =>
        rcases ih with same | same <;> cases same <;> cases found
        · exact .inr (List.mem_singleton.1 held)
        · exact .inl (List.mem_singleton.1 held)
    intro j reach
    rcases back _ reach with same | same <;> cases same
    · exact ⟨1, .self, rfl⟩
    · exact ⟨0, .child .self rfl (List.mem_singleton_self _), rfl⟩
  · intro i reach
    rcases inside i reach with rfl | rfl
    · exact ⟨_, _, rfl, rfl, .list (.cons (.ref rfl) .nil)⟩
    · exact ⟨_, _, rfl, rfl, .tuple (.cons (.ref rfl) .nil)⟩

/-- The knot is written alike in both orders, and again when it was read back. -/
theorem dumps_determined_knot :
    SameGraph knot reversedKnot (.ref 1) (.ref 0) ∧
    (Encoder.dumps { registry := .seeded 1, host := {}, protocol := 2 } reversedKnot (.ref 0)).1 =
      .ok [0x80, 2, 0x5d, 0x71, 0, 0x68, 0, 0x85, 0x71, 1, 0x61, 0x30, 0x68, 1, 0x2e] ∧
    knot.Tidy True (fun _ => False) (.ref 1) ∧
    (∀ u, knot.Reaches (.ref 1) u → u.Ordinary) ∧
    ∃ w base', Decoder.loads { registry := .seeded 1, host := {} } ({} : Store Empty)
        [0x80, 2, 0x5d, 0x71, 0, 0x68, 0, 0x85, 0x71, 1, 0x61, 0x30, 0x68, 1, 0x2e] = (.ok w, base') ∧
      (Encoder.dumps { registry := .seeded 1, host := {}, protocol := 2 } base' w).1 =
        .ok [0x80, 2, 0x5d, 0x71, 0, 0x68, 0, 0x85, 0x71, 1, 0x61, 0x30, 0x68, 1, 0x2e] := by
  obtain ⟨graph, again⟩ := dumps_determined 2 0 1 ({} : Host Empty) {}
  refine ⟨sameGraph_knot, ?_, tidy_knot, ordinary_knot,
    again knot (.ref 1) tidy_knot ordinary_knot _ _ {} dumps_knot (by decide)⟩
  rw [← graph knot reversedKnot (.ref 1) (.ref 0) sameGraph_knot, dumps_knot]

end ObjectStream
