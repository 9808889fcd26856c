import ObjectStream.Proofs.Elementary

/-!
Containers that scan.

A dictionary takes entries in, is asked for the content under a key, and lists its entries; a set does
the same without contents (`Query`). A plain list of entries can do that by comparing the key with
every entry in turn (`Store.scans`). The tables of this library find a key by its image
(`Store.tables`), and a table with slots finds it by any hash of the image, however its slots are
arranged (`Store.hashes`). On elementary keys the three cannot be told apart by their answers
(`containers_scan`): equal keys have one image and so one hash, and no two entries equal one key.
-/

namespace ObjectStream

variable {α σ τ : Type}

/-! ## Containers -/

/-- What a container is asked. -/
inductive Query (α : Type) where
  | insert (key : Value) (content : α)
  | get (key : Value)
  | getText (text : String)
  | contains (key : Value)
  | iterate

/-- What it answers. -/
inductive Reply (α : Type) where
  /-- The entry is in the container, where it replaces this content. -/
  | inserted (old : Option α)
  /-- A value of this type is no key. -/
  | refused (typeName : String)
  | content (found : Option α)
  | present (found : Bool)
  | entries (entries : List (Value × α))
  deriving DecidableEq

/-- A container: how its entries are listed, how the content under a key is found, and how an entry is
    taken in. Where a comparison has no end, neither comes to anything. -/
structure Container (σ α : Type) where
  entries : σ → List (Value × α)
  find : σ → Value → Option (Option α)
  insert : σ → Value → α → Option (Reply α × σ)

namespace Container

/-- The answer to a query, and the container behind it. -/
def ask (c : Container σ α) (t : σ) : Query α → Option (Reply α × σ)
  | .insert key content => c.insert t key content
  | .get key => (c.find t key).map fun found => (.content found, t)
  | .getText text => (c.find t (.str text)).map fun found => (.content found, t)
  | .contains key => (c.find t key).map fun found => (.present found.isSome, t)
  | .iterate => some (.entries (c.entries t), t)

/-- The answers to queries that are made one after the other. -/
def run (c : Container σ α) (t : σ) : List (Query α) → Option (List (Reply α) × σ)
  | [] => some ([], t)
  | q :: qs =>
    match c.ask t q with
    | none => none
    | some (reply, t') => (c.run t' qs).map fun (replies, t'') => (reply :: replies, t'')

/-- Related containers answer alike about these keys, and stay related. -/
structure Follows (c : Container σ α) (d : Container τ α) (legal : Value → Prop)
    (R : σ → τ → Prop) : Prop where
  entries : ∀ {t u}, R t u → c.entries t = d.entries u
  find : ∀ {t u key}, R t u → legal key →
    ∃ found, c.find t key = some found ∧ d.find u key = some found
  insert : ∀ {t u key content}, R t u → legal key → ∃ reply t' u',
    c.insert t key content = some (reply, t') ∧ d.insert u key content = some (reply, u') ∧ R t' u'

end Container

/-- The keys that the query is about. -/
def Query.About (legal : Value → Prop) : Query α → Prop
  | .insert key _ | .get key | .contains key => legal key
  | .getText text => legal (.str text)
  | .iterate => True

namespace Container.Follows

variable {c : Container σ α} {d : Container τ α} {legal : Value → Prop} {R : σ → τ → Prop} {t : σ}
  {u : τ}

theorem ask (h : c.Follows d legal R) (related : R t u) {q : Query α} (about : q.About legal) :
    ∃ reply t' u', c.ask t q = some (reply, t') ∧ d.ask u q = some (reply, u') ∧ R t' u' := by
  cases q with
  | insert key content => exact h.insert related about
  | get key | getText key | contains key =>
    obtain ⟨found, here, there⟩ := h.find related about
    exact ⟨_, t, u, by rw [Container.ask, here]; rfl, by rw [Container.ask, there]; rfl, related⟩
  | iterate => exact ⟨_, t, u, rfl, by rw [Container.ask, h.entries related], related⟩

theorem run (h : c.Follows d legal R) (related : R t u) {qs : List (Query α)}
    (about : ∀ q ∈ qs, q.About legal) : ∃ replies t' u',
      c.run t qs = some (replies, t') ∧ d.run u qs = some (replies, u') ∧ R t' u' := by
  induction qs generalizing t u with
  | nil => exact ⟨[], t, u, rfl, rfl, related⟩
  | cons q qs ih =>
    obtain ⟨reply, t₁, u₁, here, there, related⟩ := h.ask related (about q (List.mem_cons_self ..))
    obtain ⟨replies, t₂, u₂, here', there', related⟩ :=
      ih related fun q mem => about q (List.mem_cons_of_mem _ mem)
    exact ⟨reply :: replies, t₂, u₂, by rw [Container.run, here]; simp only [here', Option.map_some],
      by rw [Container.run, there]; simp only [there', Option.map_some], related⟩

end Container.Follows

variable {H : Type} [HostObject H] {s : Store H} {key k : Value} {content : α} {e : Value × α}
  {es : List (Value × α)}

/-! ## Lists of entries -/

namespace Scan

/-- The entry is the one under the key. -/
def takes (s : Store H) (key : Value) (e : Value × α) : Bool := s.equal? e.1 key == some true

/-- The content under a key: that of the first entry whose key equals it. -/
def content? (s : Store H) (es : List (Value × α)) (key : Value) : Option α :=
  (es.find? (takes s key)).map Prod.snd

/-- The entries behind an insertion. The first entry whose key equals the new one keeps its key and
    its place and gets the content; if there is none, a new entry is put behind the others. -/
def store (s : Store H) (key : Value) (content : α) : List (Value × α) → List (Value × α)
  | [] => [(key, content)]
  | e :: es => if takes s key e then (e.1, content) :: es else e :: store s key content es

/-- The keys are elementary, and no two of them are equal. -/
structure Apart (s : Store H) (es : List (Value × α)) : Prop where
  elementary : ∀ e ∈ es, s.Elementary e.1
  differ : es.Pairwise fun e e' => s.equal? e.1 e'.1 = some false

theorem takes_iff : takes s key e = true ↔ s.equal? e.1 key = some true := by
  rw [takes, beq_iff_eq]

theorem takes_eq_false_iff : takes s key e = false ↔ s.equal? e.1 key ≠ some true := by
  rw [← Bool.not_eq_true, takes_iff]

/-- An entry that stands behind an insertion has a former key or the new one. -/
theorem mem_store (mem : e ∈ store s key content es) :
    (∃ e' ∈ es, e'.1 = e.1) ∨ e.1 = key := by
  induction es with
  | nil => exact .inr (congrArg Prod.fst (List.mem_singleton.1 mem))
  | cons first es ih =>
    rw [store] at mem
    split at mem
    · rcases List.mem_cons.1 mem with rfl | mem
      · exact .inl ⟨first, List.mem_cons_self .., rfl⟩
      · exact .inl ⟨e, List.mem_cons_of_mem _ mem, rfl⟩
    · rcases List.mem_cons.1 mem with rfl | mem
      · exact .inl ⟨e, List.mem_cons_self .., rfl⟩
      · refine (ih mem).imp_left ?_
        rintro ⟨e', mem', same⟩
        exact ⟨e', List.mem_cons_of_mem _ mem', same⟩

theorem equal?_eq_false {a b : Value} (ha : s.Elementary a) (hb : s.Elementary b)
    (differ : s.equal? a b ≠ some true) : s.equal? a b = some false := by
  rcases s.coherent_elementary.decides ha hb with ⟨same, -⟩ | ⟨answer, -⟩
  · exact absurd same differ
  · exact answer

/-- Of two keys that equal a third each equals the other. -/
theorem equal?_of_both {a b c : Value} (ha : s.Elementary a) (hb : s.Elementary b)
    (hc : s.Elementary c) (same : s.equal? a c = some true) (same' : s.equal? b c = some true) :
    s.equal? a b = some true :=
  have coherent := s.coherent_elementary
  (coherent.trans ⟨ha, hc, same⟩ (coherent.symm ⟨hb, hc, same'⟩)).2.2

namespace Apart

theorem nil : Apart s ([] : List (Value × α)) := ⟨nofun, .nil⟩

theorem tail (apart : Apart s (e :: es)) : Apart s es :=
  ⟨fun e' mem => apart.elementary e' (List.mem_cons_of_mem e mem), (List.pairwise_cons.1 apart.differ).2⟩

/-- An insertion keeps the keys apart. -/
theorem store (apart : Apart s es) (elementary : s.Elementary key) (content : α) :
    Apart s (store s key content es) := by
  refine ⟨fun e mem => ?_, ?_⟩
  · rcases mem_store mem with ⟨e', held, same⟩ | same
    · exact same ▸ apart.elementary e' held
    · exact same ▸ elementary
  · induction es with
    | nil => exact List.pairwise_singleton _ _
    | cons first es ih =>
      obtain ⟨differ, rest⟩ := List.pairwise_cons.1 apart.differ
      rw [Scan.store]
      split
      · exact List.pairwise_cons.2 ⟨differ, rest⟩
      · next other =>
        refine List.pairwise_cons.2 ⟨fun e mem => ?_, ih apart.tail⟩
        rcases mem_store mem with ⟨e', held, same⟩ | same
        · exact same ▸ differ e' held
        · rw [same]
          exact equal?_eq_false (apart.elementary first (List.mem_cons_self ..)) elementary
            (takes_eq_false_iff.1 (Bool.not_eq_true _ ▸ other))

end Apart

theorem content?_cons : content? s (e :: es) key =
    if takes s key e then some e.2 else content? s es key := by
  rw [content?, content?, List.find?_cons]
  cases takes s key e <;> rfl

/-- Behind an insertion there is the new content under every key that equals the new one. -/
theorem content?_store (elementary : ∀ e ∈ es, s.Elementary e.1) (hkey : s.Elementary key)
    (hk : s.Elementary k) : content? s (store s key content es) k =
      if s.equal? key k = some true then some content else content? s es k := by
  induction es with
  | nil => simp only [store, content?_cons, takes_iff]
  | cons first es ih =>
    have hfirst := elementary first (List.mem_cons_self ..)
    rw [store]
    split
    · next taken =>
      have same : s.Same s.Elementary first.1 key := ⟨hfirst, hkey, takes_iff.1 taken⟩
      simp only [content?_cons, takes_iff, s.coherent_elementary.equal?_congr same hk]
      split <;> rfl
    · next other =>
      simp only [content?_cons, takes_iff, ih fun e mem => elementary e (List.mem_cons_of_mem _ mem)]
      split
      · next same =>
        -- an entry that is not under the one key is not under a key that equals it
        have differ : s.equal? key k ≠ some true := fun same' =>
          other (takes_iff.2 (equal?_of_both hfirst hkey hk same same'))
        rw [if_neg differ]
      · rfl

/-- Replaces the content at a place, or puts a new entry behind the others. -/
def put (es : List (Value × α)) (key : Value) (content : α) : Option Nat → List (Value × α)
  | some i => es.modify i fun e => (e.1, content)
  | none => es ++ [(key, content)]

theorem store_eq_put : store s key content es =
    put es key content (es.findIdx? (takes s key)) := by
  induction es with
  | nil => rfl
  | cons first es ih =>
    rw [store, List.findIdx?_cons]
    split
    · rfl
    · rw [ih]
      cases es.findIdx? (takes s key) <;> rfl

theorem content?_eq : content? s es key =
    (es.findIdx? (takes s key)).bind fun i => es[i]?.map Prod.snd := by
  induction es with
  | nil => rfl
  | cons first es ih =>
    rw [content?_cons, List.findIdx?_cons]
    split
    · rfl
    · rw [ih]
      cases es.findIdx? (takes s key) <;> rfl

theorem map_fst_put (place : Option Nat) : (put es key content place).map Prod.fst =
    es.map Prod.fst ++ if place.isNone then [key] else [] := by
  cases place with
  | none => simp [put]
  | some i =>
    refine List.ext_getElem? fun j => ?_
    simp only [put, List.getElem?_map, List.getElem?_modify, Option.isNone_some, Bool.false_eq_true,
      if_false, List.append_nil]
    cases es[j]? <;> simp [apply_ite]

namespace Apart

/-- No other entry is under the key. -/
theorem findIdx?_eq (apart : Apart s es) (elementary : s.Elementary key) {i : Nat}
    (here : es[i]? = some e) (same : s.equal? e.1 key = some true) :
    es.findIdx? (takes s key) = some i := by
  obtain ⟨inside, rfl⟩ := List.getElem?_eq_some_iff.1 here
  refine List.findIdx?_eq_some_iff_getElem.2 ⟨inside, takes_iff.2 same, fun j less taken => ?_⟩
  have differ := List.pairwise_iff_getElem.1 apart.differ j i (less.trans inside) inside less
  rw [equal?_of_both (apart.elementary _ (List.getElem_mem _))
    (apart.elementary _ (List.getElem_mem _)) elementary (takes_iff.1 taken) same] at differ
  cases differ

/-- A look-up among some of the places finds the entry under the key, if the place of that entry is
    among them. -/
theorem firstPlace (apart : Apart s es) (elementary : s.Elementary key) {places : List Nat}
    (complete : ∀ i e, es[i]? = some e → s.equal? e.1 key = some true → i ∈ places) :
    Keyed.firstPlace (fun i => match es[i]? with
      | some e => s.equal? e.1 key
      | none => some false) places = some (es.findIdx? (takes s key)) := by
  generalize run : Keyed.firstPlace _ places = place
  rcases Keyed.firstPlace_cases run with ⟨i, -, rfl, passed⟩ | ⟨rfl, refused⟩ |
    ⟨-, i, -, unanswered⟩
  · cases here : es[i]? with
    | none => simp [here] at passed
    | some e =>
      simp only [here] at passed
      rw [apart.findIdx?_eq elementary here passed]
  · rw [Option.some.injEq, eq_comm, List.findIdx?_eq_none_iff]
    intro e mem
    rw [takes_eq_false_iff]
    intro same
    obtain ⟨i, here⟩ := List.mem_iff_getElem?.1 mem
    have refused := refused i (complete i e here same)
    simp only [here, same] at refused
    cases refused
  · cases here : es[i]? with
    | none => simp [here] at unanswered
    | some e =>
      simp only [here] at unanswered
      have held := apart.elementary e (List.mem_of_getElem? here)
      exact absurd unanswered (s.coherent_elementary.ends held elementary)

end Apart

end Scan

/-! ## Three containers -/

/-- A table with slots: beside the entries there are slots, which hold a hash and a place. -/
structure Hashed (α : Type) where
  entries : List (Value × α) := []
  slots : List (UInt64 × Nat) := []

/-- How images are hashed, and in which order the slots stand once there is another one. -/
structure Slotting where
  hash : Array UInt8 → UInt64
  arrange : List (UInt64 × Nat) → List (UInt64 × Nat)
  perm : ∀ slots, (arrange slots).Perm slots

namespace Hashed

/-- The place of the key with this hash that `same` accepts, as in `Keyed.find`. -/
def find (t : Hashed α) (hash : UInt64) (same : Value → Option Bool) : Option (Option Nat) :=
  Keyed.firstPlace (fun i => match t.entries[i]? with
    | some e => same e.1
    | none => some false) ((t.slots.filter fun slot => slot.1 == hash).map Prod.snd)

/-- Replaces the content at a place, or takes in a new entry and a slot for it. -/
def put (t : Hashed α) (slotting : Slotting) (place : Option Nat) (hash : UInt64) (key : Value)
    (content : α) : Hashed α where
  entries := Scan.put t.entries key content place
  slots := if place.isNone then slotting.arrange ((hash, t.entries.length) :: t.slots) else t.slots

end Hashed

namespace Store

/-- What becomes of a key. A value that is no key is refused, and of any other there is an image. -/
def vet {β : Type} (s : Store H) (key : Value) (refused : String → β)
    (taken : Array UInt8 → Option β) : Option β :=
  match s.image none key with
  | .ok image => taken image
  | .error (.unhashable typeName) => some (refused typeName)
  | .error .endless => none

/-- A list that compares a key with every entry. -/
def scans (s : Store H) : Container (List (Value × α)) α where
  entries es := es
  find es key := s.vet key (fun _ => none) fun _ => some (Scan.content? s es key)
  insert es key content := s.vet key (fun typeName => (.refused typeName, es)) fun _ =>
    some (.inserted (Scan.content? s es key), Scan.store s key content es)

/-- The tables with an index. -/
def tables (s : Store H) : Container (Keyed α) α where
  entries t := t.entries.toList
  find t key := (s.lookup? t key).toOption
  insert t key content :=
    match s.insert t key content with
    | .ok (old, t') => some (.inserted old, t')
    | .error (.unhashable typeName) => some (.refused typeName, t)
    | .error .endless => none

/-- The tables with slots. -/
def hashes (s : Store H) (slotting : Slotting) : Container (Hashed α) α where
  entries t := t.entries
  find t key := s.vet key (fun _ => none) fun image =>
    (t.find (slotting.hash image) fun old => s.equal? old key).map fun place =>
      place.bind fun i => t.entries[i]?.map Prod.snd
  insert t key content := s.vet key (fun typeName => (.refused typeName, t)) fun image =>
    (t.find (slotting.hash image) fun old => s.equal? old key).map fun place =>
      (.inserted (place.bind fun i => t.entries[i]?.map Prod.snd),
        t.put slotting place (slotting.hash image) key content)

section
variable {β : Type} {refused : String → β} {taken : Array UInt8 → Option β}

theorem vet_of_image {image : Array UInt8} (hash : s.image none key = .ok image) :
    s.vet key refused taken = taken image := by
  rw [vet, hash]

theorem vet_of_refused {typeName : String}
    (refusal : s.image none key = .error (.unhashable typeName)) :
    s.vet key refused taken = some (refused typeName) := by
  rw [vet, refusal]

end

/-- The value is an elementary key, or it is no key. -/
def Askable (s : Store H) (key : Value) : Prop :=
  s.Elementary key ∨ ∃ typeName, s.image none key = .error (.unhashable typeName)

end Store

/-! ## One behaviour -/

namespace Scan

/-- A table with an index that holds the entries of a list. -/
structure Filed (s : Store H) (t : Keyed α) (es : List (Value × α)) : Prop where
  entries : t.entries.toList = es
  files : t.Files (t.keys.map s.imageOf)
  apart : Apart s es

/-- The slots of keys: each place once, under the hash of the key there. -/
def slotsOf (s : Store H) (slotting : Slotting) (keys : List Value) : List (UInt64 × Nat) :=
  keys.mapIdx fun i key => (slotting.hash (s.imageOf key), i)

/-- A table with slots that holds the entries of a list. -/
structure Slotted (s : Store H) (slotting : Slotting) (t : Hashed α) (es : List (Value × α)) : Prop where
  entries : t.entries = es
  slots : t.slots.Perm (slotsOf s slotting (t.entries.map Prod.fst))
  apart : Apart s es

variable {image : Array UInt8} {t : Keyed α} {u : Hashed α} {slotting : Slotting}

/-- In the index the place is found that a scan ends at. -/
theorem Filed.find (h : Filed s t es) (elementary : s.Elementary key)
    (hash : s.image none key = .ok image) :
    t.find (HostObject.probing H) image (fun old => s.equal? old key) =
      some (es.findIdx? (takes s key)) := by
  obtain ⟨rfl, files, apart⟩ := h
  rw [Keyed.find]
  simp only [← Array.getElem?_toList]
  refine apart.firstPlace elementary fun i e here same => ?_
  rw [Keyed.mem_met, files]
  have held := apart.elementary e (List.mem_of_getElem? here)
  rw [Keyed.mem_places, Keyed.keys, List.getElem?_map, List.getElem?_map, here, Option.map_some,
    Option.map_some, held.imageOf_eq elementary same, Store.imageOf_eq hash]

/-- Among the slots the place is found that a scan ends at. -/
theorem Slotted.find (h : Slotted s slotting u es) (elementary : s.Elementary key)
    (hash : s.image none key = .ok image) :
    u.find (slotting.hash image) (fun old => s.equal? old key) =
      some (es.findIdx? (takes s key)) := by
  obtain ⟨rfl, perm, apart⟩ := h
  refine apart.firstPlace elementary fun i e here same => ?_
  have held := apart.elementary e (List.mem_of_getElem? here)
  refine List.mem_map.2 ⟨(slotting.hash image, i), List.mem_filter.2 ⟨perm.mem_iff.2 ?_, ?_⟩, rfl⟩
  · obtain ⟨inside, rfl⟩ := List.getElem?_eq_some_iff.1 here
    refine List.mem_mapIdx.2 ⟨i, by rwa [List.length_map], ?_⟩
    rw [List.getElem_map, held.imageOf_eq elementary same, Store.imageOf_eq hash]
  · exact beq_self_eq_true _

theorem Filed.content? (h : Filed s t es) :
    content? s es key = (es.findIdx? (takes s key)).bind t.at? := by
  obtain ⟨rfl, -, -⟩ := h
  simp only [content?_eq, Array.getElem?_toList]
  rfl

theorem Filed.put (h : Filed s t es) (elementary : s.Elementary key)
    (hash : s.image none key = .ok image) (content : α) :
    Filed s (t.put (es.findIdx? (takes s key)) image key content) (store s key content es) := by
  obtain ⟨rfl, files, apart⟩ := h
  refine ⟨?_, ?_, apart.store elementary content⟩
  · rw [store_eq_put]
    cases t.entries.toList.findIdx? (takes s key) with
    | none => exact Array.toList_push
    | some i => exact Array.toList_modify
  · cases t.entries.toList.findIdx? (takes s key) with
    | none =>
      rw [Keyed.keys_put, List.map_append, List.map_singleton, Store.imageOf_eq hash]
      exact files.put (by rw [List.length_map, Keyed.length_keys]) image key content
    | some i => rwa [Keyed.keys_put_some]

theorem Slotted.put (h : Slotted s slotting u es) (elementary : s.Elementary key)
    (hash : s.image none key = .ok image) (content : α) :
    Slotted s slotting (u.put slotting (es.findIdx? (takes s key)) (slotting.hash image) key content)
      (store s key content es) := by
  obtain ⟨rfl, perm, apart⟩ := h
  refine ⟨store_eq_put.symm, ?_, apart.store elementary content⟩
  simp only [Hashed.put, map_fst_put]
  cases u.entries.findIdx? (takes s key) with
  | none =>
    simp only [Option.isNone_none, if_true, slotsOf, List.mapIdx_concat, Store.imageOf_eq hash,
      List.length_map]
    exact (slotting.perm _).trans ((perm.cons _).trans (List.perm_append_singleton _ _).symm)
  | some i => simpa only [Option.isNone_some, Bool.false_eq_true, if_false, List.append_nil] using perm

end Scan

namespace Store

theorem scans_find (elementary : s.Elementary key) :
    s.scans.find es key = some (Scan.content? s es key) := by
  obtain ⟨image, hash⟩ := elementary.hashable none
  exact vet_of_image hash

theorem lookup?_of_find {t : Keyed α} {found : Option α} (h : s.tables.find t key = some found) :
    s.lookup? t key = .ok found := by
  simp only [tables] at h
  cases run : s.lookup? t key with
  | error e =>
    rw [run] at h
    cases h
  | ok content =>
    rw [run] at h
    cases h
    rfl

/-- The tables with an index answer as the scanned list does. -/
theorem tables_follows (s : Store H) :
    (s.tables : Container (Keyed α) α).Follows s.scans s.Askable (Scan.Filed s) where
  entries related := related.entries
  find := by
    rintro t es key related (elementary | ⟨typeName, refused⟩)
    · obtain ⟨image, hash⟩ := elementary.hashable none
      refine ⟨_, ?_, vet_of_image hash⟩
      simp only [tables, lookup?, place, placeBy, hash, bind, Except.bind,
        related.find elementary hash]
      rw [related.content?]
      rfl
    · refine ⟨_, ?_, vet_of_refused refused⟩
      simp only [tables, lookup?, place, placeBy, refused, bind, Except.bind, Except.toOption]
  insert := by
    rintro t es key content related (elementary | ⟨typeName, refused⟩)
    · obtain ⟨image, hash⟩ := elementary.hashable none
      refine ⟨_, _, _, ?_, vet_of_image hash, related.put elementary hash content⟩
      simp only [tables, insert, insertFor, hash, bind, Except.bind, equalFor_none,
        related.find elementary hash]
      rw [related.content?]
    · refine ⟨_, _, _, ?_, vet_of_refused refused, related⟩
      simp only [tables, insert, insertFor, refused, bind, Except.bind]

/-- The tables with slots answer as the scanned list does. -/
theorem hashes_follows (s : Store H) (slotting : Slotting) : (s.hashes slotting :
    Container (Hashed α) α).Follows s.scans s.Askable (Scan.Slotted s slotting) where
  entries related := related.entries
  find := by
    rintro t es key related (elementary | ⟨typeName, refused⟩)
    · obtain ⟨image, hash⟩ := elementary.hashable none
      refine ⟨_, (vet_of_image hash).trans ?_, vet_of_image hash⟩
      rw [related.find elementary hash, Scan.content?_eq, ← related.entries, Option.map_some]
    · exact ⟨_, vet_of_refused refused, vet_of_refused refused⟩
  insert := by
    rintro t es key content related (elementary | ⟨typeName, refused⟩)
    · obtain ⟨image, hash⟩ := elementary.hashable none
      refine ⟨_, _, _, (vet_of_image hash).trans ?_, vet_of_image hash,
        related.put elementary hash content⟩
      rw [related.find elementary hash, Scan.content?_eq, ← related.entries, Option.map_some]
    · exact ⟨_, _, _, vet_of_refused refused, vet_of_refused refused, related⟩

end Store

/-! ## What was stored last -/

namespace Query

/-- What the query stores under a key. -/
def stored? (s : Store H) (key : Value) : Query α → Option α
  | .insert k content =>
    if (s.image none k).isOk ∧ s.equal? k key = some true then some content else none
  | .get _ | .getText _ | .contains _ | .iterate => none

/-- What is stored under a key by the last of the queries that store something there. -/
def lastStored? (s : Store H) (key : Value) (qs : List (Query α)) : Option α :=
  qs.reverse.findSome? (stored? s key)

theorem lastStored?_cons {q : Query α} {qs : List (Query α)} :
    lastStored? s key (q :: qs) = (lastStored? s key qs).or (q.stored? s key) := by
  rw [lastStored?, List.reverse_cons, List.findSome?_append, List.findSome?_singleton]
  rfl

end Query

namespace Scan

variable {es' : List (Value × α)}

/-- Behind a query there is what it stores, and otherwise what was there. -/
theorem Apart.ask (apart : Apart s es) {q : Query α} (about : q.About s.Askable) {reply : Reply α}
    (run : s.scans.ask es q = some (reply, es')) : Apart s es' ∧
      ∀ k, s.Elementary k → content? s es' k = (q.stored? s k).or (content? s es k) := by
  cases q with
  | insert key content =>
    rcases about with elementary | ⟨typeName, refused⟩
    · obtain ⟨image, hash⟩ := elementary.hashable none
      cases (Store.vet_of_image hash).symm.trans run
      refine ⟨apart.store elementary content, fun k hk => ?_⟩
      rw [content?_store apart.elementary elementary hk, Query.stored?, hash]
      by_cases same : s.equal? key k = some true <;> simp [same, Except.isOk, Except.toBool]
    · cases (Store.vet_of_refused refused).symm.trans run
      refine ⟨apart, fun k hk => ?_⟩
      simp [Query.stored?, refused, Except.isOk, Except.toBool]
  | get key | getText text | contains key =>
    rw [Container.ask, Option.map_eq_some_iff] at run
    obtain ⟨found, -, same⟩ := run
    cases same
    exact ⟨apart, fun k hk => rfl⟩
  | iterate =>
    cases run
    exact ⟨apart, fun k hk => rfl⟩

theorem Apart.run (apart : Apart s es) {qs : List (Query α)} (about : ∀ q ∈ qs, q.About s.Askable)
    {replies : List (Reply α)} (run : s.scans.run es qs = some (replies, es')) : Apart s es' ∧
      ∀ k, s.Elementary k → content? s es' k = (Query.lastStored? s k qs).or (content? s es k) := by
  induction qs generalizing es replies with
  | nil =>
    cases run
    exact ⟨apart, fun k hk => rfl⟩
  | cons q qs ih =>
    rw [Container.run] at run
    split at run
    · cases run
    · next reply es₁ step =>
      obtain ⟨⟨replies, es₂⟩, rest, same⟩ := Option.map_eq_some_iff.1 run
      cases same
      obtain ⟨apart, first⟩ := apart.ask (about q (List.mem_cons_self ..)) step
      obtain ⟨apart, later⟩ := ih apart (fun q mem => about q (List.mem_cons_of_mem _ mem)) rest
      refine ⟨apart, fun k hk => ?_⟩
      rw [later k hk, first k hk, Query.lastStored?_cons, Option.or_assoc]

end Scan

/-- Whatever is asked about elementary keys and values that are no keys, a list that scans, a table
    with an index and a table with slots give the same answers and hold the same entries, whose keys
    differ. Every place is filed once, under the image or the hash of the key there. And under an
    elementary key there is what was last stored under a key that equals it. -/
theorem Store.containers_scan (s : Store H) (slotting : Slotting) {qs : List (Query α)}
    (about : ∀ q ∈ qs, q.About s.Askable) : ∃ replies es t u,
      s.scans.run [] qs = some (replies, es) ∧ s.tables.run .empty qs = some (replies, t) ∧
      (s.hashes slotting).run {} qs = some (replies, u) ∧
      t.entries.toList = es ∧ u.entries = es ∧
      (es.Pairwise fun e e' => s.equal? e.1 e'.1 = some false ∧ s.equal? e'.1 e.1 = some false) ∧
      t.Files (t.keys.map s.imageOf) ∧
      u.slots.Perm (Scan.slotsOf s slotting (u.entries.map Prod.fst)) ∧
      ∀ key, s.Elementary key → s.lookup? t key = .ok (Query.lastStored? s key qs) ∧
        (s.hashes slotting).find u key = some (Query.lastStored? s key qs) := by
  have filed : Scan.Filed (α := α) s .empty [] := ⟨rfl, Keyed.files_empty, .nil⟩
  have slotted : Scan.Slotted (α := α) s slotting {} [] := ⟨rfl, .nil, .nil⟩
  obtain ⟨replies, t, es, tabled, scanned, filed⟩ := s.tables_follows.run filed about
  obtain ⟨replies', u, es', hashed, scanned', slotted⟩ := (s.hashes_follows slotting).run slotted about
  cases scanned.symm.trans scanned'
  obtain ⟨apart, stored⟩ := Scan.Apart.nil.run about scanned
  refine ⟨replies, es, t, u, scanned, tabled, hashed, filed.entries, slotted.entries, ?_, filed.files,
    slotted.slots, fun key elementary => ?_⟩
  · refine apart.differ.imp_of_mem fun mem mem' differ => ⟨differ, ?_⟩
    rwa [← s.coherent_elementary.equal?_comm (apart.elementary _ mem) (apart.elementary _ mem')]
  · have found : s.scans.find es key = some (Query.lastStored? s key qs) := by
      rw [scans_find elementary, stored key elementary]
      exact congrArg some Option.or_none
    obtain ⟨content, here, there⟩ := s.tables_follows.find filed (.inl elementary)
    obtain ⟨content', here', there'⟩ := (s.hashes_follows slotting).find slotted (.inl elementary)
    cases found.symm.trans there
    cases found.symm.trans there'
    exact ⟨lookup?_of_find here, here'⟩

/-- The two equal tuples, a frozen set of the first, and a list. -/
def drawers : Store Empty :=
  { cells := #[.tuple [.int 1], .tuple [.float ⟨0x3ff0000000000000⟩],
      .frozenset (Keyed.empty.put none (twins.imageOf (.ref 0)) (.ref 0) ()), .list #[]] }

/-- Slots of which the newest stands last. -/
def newestLast : Slotting := ⟨Image.hash, List.reverse, List.reverse_perm⟩

/-- Entries are put under both tuples, twice under a not-a-number, and under a list. -/
def requests : List (Query Value) :=
  [.insert (.ref 0) (.str "a"), .insert (.float ⟨0x7ff8000000000000⟩) (.str "b"),
    .insert (.float ⟨0x7ff8000000000000⟩) (.str "c"), .insert (.ref 1) (.str "d"),
    .insert (.ref 2) (.str "e"), .insert (.ref 3) (.str "f"), .insert (.bool true) (.str "g"),
    .get (.float ⟨0x3ff0000000000000⟩), .get (.float ⟨0x7ff8000000000000⟩), .getText "x",
    .contains (.ref 3), .iterate]

def answers : List (Reply Value) :=
  [.inserted none, .inserted none, .inserted none, .inserted (some (.str "a")), .inserted none,
    .refused "list", .inserted none, .content (some (.str "g")), .content none, .content none,
    .present false, .entries [(.ref 0, .str "d"), (.float ⟨0x7ff8000000000000⟩, .str "b"),
      (.float ⟨0x7ff8000000000000⟩, .str "c"), (.ref 2, .str "e"), (.bool true, .str "g")]]

theorem elementary_drawer {i : Nat} (inside : i < 3) : drawers.Elementary (.ref i) := by
  have first : drawers.Elementary (.ref 0) :=
    .tuple rfl (by simp) (by simpa using .atom nofun nofun)
  match i, inside with
  | 0, _ => exact first
  | 1, _ => exact .tuple rfl (by simp) (by simpa using .atom nofun nofun)
  | 2, _ =>
    have hash : drawers.image none (.ref 0) = .ok (twins.imageOf (.ref 0)) := rfl
    have keys : ((Keyed.empty : Members).put none (twins.imageOf (.ref 0)) (.ref 0) ()).keys =
      [.ref 0] := rfl
    refine .frozenset rfl ⟨?_, ?_, ?_⟩ ?_ ?_
    · simpa only [keys, List.forall_mem_singleton] using ⟨_, hash⟩
    · rw [keys, List.map_singleton, Store.imageOf_eq hash]
      exact Keyed.files_empty.put rfl _ _ _
    · exact List.pairwise_singleton _ _
    · intro j mem
      cases List.mem_singleton.1 mem
      decide
    · simpa only [keys, List.forall_mem_singleton] using first

theorem containers_scan_drawers : ∃ t u,
    drawers.tables.run .empty requests = some (answers, t) ∧
      (drawers.hashes newestLast).run {} requests = some (answers, u) ∧
      t.entries.toList = u.entries ∧ drawers.lookup? t (.ref 0) = .ok (some (.str "d")) := by
  have about : ∀ q ∈ requests, q.About drawers.Askable := by
    have tuple : drawers.Askable (.ref 0) := .inl (elementary_drawer (by decide))
    have twin : drawers.Askable (.ref 1) := .inl (elementary_drawer (by decide))
    have frozen : drawers.Askable (.ref 2) := .inl (elementary_drawer (by decide))
    have list : drawers.Askable (.ref 3) := .inr ⟨"list", rfl⟩
    have atom : ∀ v, (∀ i, v ≠ .ref i) → (∀ re im, v ≠ .complex re im) → drawers.Askable v :=
      fun v atom real => .inl (.atom atom real)
    simp only [requests, List.forall_mem_cons]
    exact ⟨tuple, atom _ nofun nofun, atom _ nofun nofun, twin, frozen, list, atom _ nofun nofun,
      atom _ nofun nofun, atom _ nofun nofun, atom _ nofun nofun, list, trivial, nofun⟩
  obtain ⟨replies, es, t, u, scanned, tabled, hashed, filed, slotted, -, -, -, stored⟩ :=
    Store.containers_scan drawers newestLast about
  have computed : (drawers.scans.run [] requests).map Prod.fst = some answers := by decide +kernel
  rw [scanned] at computed
  cases computed
  have last : Query.lastStored? drawers (.ref 0) requests = some (.str "d") := by decide +kernel
  refine ⟨t, u, tabled, hashed, filed.trans slotted.symm, ?_⟩
  rw [(stored (.ref 0) (elementary_drawer (by decide))).1, last]

end ObjectStream
