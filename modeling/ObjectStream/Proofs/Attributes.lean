import ObjectStream.Proofs.Copies

/-!
How an instance takes over a state.

A state is a dictionary, nothing, or a pair of these. An instance takes over the entries one after the
other, later ones in the place of earlier ones with the same key (`Store.stateAttributes?`). The decoder
does so with a copy of the state: its instance gets copies of the same attributes, or it fails where no
attributes can be made of the state (`turns_build`). An instance takes no items and no entries.
-/

namespace ObjectStream

open Decoder (Machine)
open Mirror (Tables)

variable {H : Type} [HostObject H]

namespace Store

/-- The table with the entries of one part of a state: those of a dictionary, or none of nothing. -/
def merged? (s : Store H) (t : Dict) (part : Value) : Option Dict :=
  if part = .none then some t
  else (s.dict? part).bind fun d => (s.insertAll t d.entries.toList).toOption

/-- The attributes that an instance has by a state. A pair has two parts. -/
def stateAttributes? (s : Store H) (state : Value) : Option Dict :=
  match s.pairOf state with
  | some (first, second) => (s.merged? .empty first).bind (s.merged? · second)
  | none => s.merged? .empty state

end Store

namespace Mirror

variable {s s' : Store H} {R : Nat → Nat → Prop} {v w : Value}

omit [HostObject H] in
theorem eq_none_iff (same : Match R v w) : w = .none ↔ v = .none := by
  cases same with
  | long n =>
    rw [Value.ofInt]
    split <;> simp
  | _ => simp

/-- The keys of a dictionary that is copied have images. -/
theorem dict?_hashable (mirror : Mirror s s' R) (same : Match R v w) {d : Dict}
    (dict : s.dict? v = some d) : ∀ e ∈ d.entries.toList, ∃ image, s.image none e.1 = .ok image := by
  cases same with
  | @ref i j r =>
    obtain ⟨cell, -, found, -, -, -, -, -, hashable⟩ := mirror.object i j r
    obtain rfl := Option.some.inj (found.symm.trans (Store.cell_of_dict? dict))
    exact fun e mem => hashable e.1 (List.mem_map_of_mem mem)
  | _ => cases dict

end Mirror

namespace Decoder

variable {cfg : Config H} {m : Machine H} {below : List Value} {id : Nat} {c : Class}

/-! ## Items and entries -/

section
variable {t : Dict} (stack : m.stack = below ++ [.ref id])
  (here : m.store.cells[id]? = some (.inst c t))
include stack here

theorem refuses_appendItems (op : Opcode) (items : Array Value) : Refuses (appendItems op items) m := by
  refine Does.refuses (does_top stack (Refuses.get fun st machine => ?_))
  have here : st.store.cell? (.ref id) = some (.inst c t) := by rw [← here, ← machine]; rfl
  simp only [here]
  exact refuses_fail _

theorem refuses_setItems (op : Opcode) (entries : List (Value × Value)) :
    Refuses (setItems op entries) m := by
  refine Does.refuses (does_top stack (Refuses.get fun st machine => ?_))
  have here : st.store.cell? (.ref id) = some (.inst c t) := by rw [← here, ← machine]; rfl
  simp only [here]
  exact refuses_fail _

end

/-! ## Attributes -/

/-- What the action makes of the instance with this number: it gets a copy of the attributes, or the
    action fails if there are none. -/
structure Turns (s : Store H) (R : Nat → Nat → Prop) (c : Class) (id : Nat) (m : Machine H)
    (x : Decode H Unit) (o : Option Dict) : Prop where
  takes : ∀ t, o = some t → Keeps True x m fun m' =>
    ∃ t', m.store.Replaced m'.store id (.inst c t') ∧ Tables s R (Match R) t t'
  fails : o = none → Refuses x m

variable {s : Store H} {R : Nat → Nat → Prop} {t t' : Dict} {x : Decode H Unit} {o : Option Dict}

namespace Turns

theorem stay (here : m.store.cells[id]? = some (.inst c t')) (tables : Tables s R (Match R) t t') :
    Turns s R c id m (pure ()) (some t) where
  takes u same := by
    cases same
    exact Does.pure ⟨m.store, rfl, t', .refl here, tables⟩
  fails := nofun

theorem refused (h : Refuses x m) : Turns s R c id m x none := ⟨nofun, fun _ => h⟩

theorem get {f : State H → Decode H Unit}
    (h : ∀ st : State H, st.store = m.store → Turns s R c id m (f st) o) :
    Turns s R c id m (get >>= f) o where
  takes t same := Does.get fun st machine _ => (h st (by rw [← machine]; rfl)).takes t same
  fails none := Refuses.get fun st machine => (h st (by rw [← machine]; rfl)).fails none

/-- The action goes on with the top of the stack. -/
theorem top {op : Opcode} {v : Value} {f : Value → Decode H Unit} (stack : m.stack = below ++ [v])
    (h : Turns s R c id m (f v) o) : Turns s R c id m (top op >>= f) o where
  takes t same := Does.bind (does_top stack (h.takes t same))
  fails none := Does.refuses (does_top stack (h.fails none))

/-- One action after another: what the first has made is there for the second. -/
theorem bind {y : Decode H Unit} {f : Dict → Option Dict} (h : Turns s R c id m x o)
    (next : ∀ t store t', m.store.Replaced store id (.inst c t') → Tables s R (Match R) t t' →
      Turns s R c id (m.withStore store) y (f t)) :
    Turns s R c id m (x >>= fun _ => y) (o.bind f) := by
  cases o with
  | none => exact .refused (Refuses.bind (h.fails rfl))
  | some t =>
    have after := h.takes t rfl
    constructor
    · intro u same
      refine Keeps.bind (Does.mono after fun _ m' => ?_)
      rintro ⟨store, rfl, t', replaced, tables⟩
      refine ⟨store, rfl, ((next t store t' replaced tables).takes u same).mono fun _ m'' => ?_⟩
      rintro ⟨store', rfl, u', replaced', tables'⟩
      exact ⟨store', rfl, u', replaced.trans replaced', tables'⟩
    · intro none
      refine Does.refuses (Does.mono after fun _ m' => ?_)
      rintro ⟨store, rfl, t', replaced, tables⟩
      exact (next t store t' replaced tables).fails none

end Turns

/-- An entry is stored as it is in the table of the copied entries. -/
theorem turns_storeEntry {k k' v v' : Value} {image : Array UInt8} (mirror : Mirror s m.store R)
    (apart : ∀ i j, R i j → j ≠ id) (here : m.store.cells[id]? = some (.inst c t'))
    (tables : Tables s R (Match R) t t') (hash : s.image none k = .ok image)
    (key : Match R k k') (content : Match R v v') :
    Turns s R c id m (storeEntry id k' v')
      ((t.find (HostObject.probing H) image fun old => s.equal? old k).map
        fun place => t.put place image k v) := by
  have outside : ∀ i j, R i j → some id ≠ some j := fun i j r same =>
    apart i j r (Option.some.inj same).symm
  have hash' := mirror.image_mirror (some id) outside hash key
  have same : t'.find (HostObject.probing H) image (fun old => m.store.equalFor (some id) old k') =
      t.find (HostObject.probing H) image (fun old => s.equal? old k) :=
    Keyed.find_congr tables.files' tables.files <| tables.keys.flip.imp fun p p' known =>
      Mirror.equalFor_mirror outside mirror p' p k k' known key
  cases found : t.find (HostObject.probing H) image (fun old => s.equal? old k) with
  | none =>
    refine .refused (Refuses.get fun st machine => ?_)
    have store : st.store = m.store := by rw [← machine]; rfl
    simp only [store, hash', here]
    refine Does.refuses (does_keyed (.inl ⟨image, rfl, ?_⟩))
    simp only [Cell.entries, same, found]
    exact fun st _ _ => ⟨_, st, rfl⟩
  | some place =>
    refine ⟨fun u given => ?_, nofun⟩
    cases given
    have step := Store.Replaced.modify here (Cell.withEntries fun d => d.put place image k' v')
    exact keeps_storeEntry place here hash' (.inl (same.trans found))
      fun _ => ⟨_, step, tables.put hash key content place⟩

/-- Entries are stored as they are in the table of the copied entries. -/
theorem turns_storeEntries {es es' : List (Value × Value)} (mirror : Mirror s m.store R)
    (apart : ∀ i j, R i j → j ≠ id) (here : m.store.cells[id]? = some (.inst c t'))
    (tables : Tables s R (Match R) t t')
    (given : List.Forall₂ (fun e e' => Match R e.1 e'.1 ∧ Match R e.2 e'.2) es es')
    (hashable : ∀ e ∈ es, ∃ image, s.image none e.1 = .ok image) :
    Turns s R c id m (storeEntries id es') (s.insertAll t es).toOption := by
  induction given generalizing m t t' with
  | nil => exact .stay here tables
  | @cons e e' es es' head _ ih =>
    obtain ⟨key, content⟩ := head
    obtain ⟨image, hash⟩ := hashable e (List.mem_cons_self ..)
    have later : ∀ e ∈ es, ∃ image, s.image none e.1 = .ok image :=
      fun e mem => hashable e (List.mem_cons_of_mem _ mem)
    have whole : (s.insertAll t (e :: es)).toOption =
        ((t.find (HostObject.probing H) image fun old => s.equal? old e.1).map
          fun place => t.put place image e.1 e.2).bind fun t => (s.insertAll t es).toOption := by
      cases found : t.find (HostObject.probing H) image (fun old => s.equal? old e.1) with
      | none =>
        rw [Store.insertAll_endless hash found]
        rfl
      | some place =>
        rw [Store.insertAll_found hash found]
        rfl
    rw [whole]
    exact (turns_storeEntry mirror apart here tables hash key content).bind fun u store u' replaced
      tables' => ih (mirror.replaced apart replaced) replaced.cell tables' later

/-- A part of a state is taken over as its copy is. -/
theorem turns_mergeState (op : Opcode) {v w : Value} (mirror : Mirror s m.store R)
    (apart : ∀ i j, R i j → j ≠ id) (here : m.store.cells[id]? = some (.inst c t'))
    (tables : Tables s R (Match R) t t') (same : Match R v w) :
    Turns s R c id m (mergeState op id w) (s.merged? t v) := by
  refine Turns.get fun st store => ?_
  rw [store, Store.merged?]
  by_cases nothing : v = .none
  · rw [if_pos nothing, (Mirror.eq_none_iff same).2 nothing]
    exact .stay here tables
  rw [if_neg nothing]
  have something : w ≠ .none := fun none => nothing ((Mirror.eq_none_iff same).1 none)
  rcases mirror.dict?_match same with ⟨d, d', dict, dict', keys, contents⟩ | ⟨none, none'⟩
  · have entries := turns_storeEntries mirror apart here tables (Keyed.entries_match keys contents)
      (mirror.dict?_hashable same dict)
    rw [dict, dict']
    split
    · exact absurd rfl something
    · next held =>
      cases held
      exact entries
    · next held => cases held
  · rw [none, none']
    refine .refused ?_
    split
    · exact absurd rfl something
    · next held => cases held
    · exact refuses_fail _

section
variable {v w : Value} (mirror : Mirror s m.store R)
  (hooks : (cfg.host.hooks c.key).setState = none) (apart : ∀ i j, R i j → j ≠ id)
  (here : m.store.cells[id]? = some (.inst c t')) (tables : Tables s R (Match R) .empty t')
  (same : Match R v w)
include mirror hooks apart here tables same

/-- The state of an instance is taken over as its copy is. -/
theorem turns_buildInstance (op : Opcode) :
    Turns s R c id m (buildInstance cfg op id c w) (s.stateAttributes? v) := by
  simp only [buildInstance, hooks]
  refine Turns.get fun st store => ?_
  rw [store, Store.stateAttributes?]
  rcases mirror.pairOf_match same with ⟨e, e', pair, pair', first, second⟩ | ⟨none, none'⟩
  · have tuple := Store.pairOf_eq_some.1 pair'
    simp only [pair, tuple]
    exact (turns_mergeState op mirror apart here tables first).bind fun u store u' replaced tables' =>
      turns_mergeState op (mirror.replaced apart replaced) apart replaced.cell tables' second
  · have single : ∀ first second, m.store.tuple? w ≠ some [first, second] := fun first second tuple =>
      Option.some_ne_none (first, second) ((Store.pairOf_eq_some.2 tuple).symm.trans none')
    simp only [none]
    exact turns_mergeState op mirror apart here tables same

/-- A state that is given to an instance on top of the stack is taken over as its copy is. -/
theorem turns_build (op : Opcode) (stack : m.stack = below ++ [.ref id]) :
    Turns s R c id m (build cfg op w) (s.stateAttributes? v) := by
  refine Turns.top stack (Turns.get fun st store => ?_)
  have found : st.store.cell? (.ref id) = some (.inst c t') := store ▸ here
  simp only [found]
  exact turns_buildInstance mirror hooks apart here tables same op

end

end Decoder

end ObjectStream
