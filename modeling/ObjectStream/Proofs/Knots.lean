import ObjectStream.Proofs.Comparison
import ObjectStream.Proofs.Filling
import ObjectStream.Proofs.Registries
import ObjectStream.Proofs.Running

/-!
Keys that hold themselves.

An instance may hold itself as an attribute. Two such instances of one class have the same image and
are compared attribute by attribute, which comes back to the two instances (`equalFor_tied`). So a
decoder that stores both as keys of one dictionary never comes to an end (`loads_knots`).
-/

namespace ObjectStream

variable {H : Type}

/-- The image of the name of the attribute. -/
def tiedImage : Array UInt8 := ((#[] : Array UInt8).push 5 ++ Text.utf8 "x").push 0xff

/-- The attributes of an instance that holds the object with this number. -/
def tied (i : Nat) : Dict := Keyed.empty.put none tiedImage (.str "x") (.ref i)

variable [HostObject H] {s : Store H}

theorem image_name (s : Store H) (holder : Option Nat) :
    s.image holder (.str "x") = .ok tiedImage := by
  rw [Store.image, Store.imageWithin]
  rfl

/-- The image of an instance names its class only. -/
theorem image_inst {i : Nat} {c : Class} {t : Dict} {holder : Option Nat}
    (found : s.cells[i]? = some (.inst c t)) (outside : holder ≠ some i) :
    s.image holder (.ref i) = .ok ((#[] : Array UInt8).push 10 ++ Text.utf8 c.qualname) := by
  rw [Store.image, Store.imageWithin, found]
  simp only [if_neg outside]

/-- Two instances that hold themselves are never told apart. -/
theorem equalWithin_tied {holder : Option Nat} {i j : Nat} {c : Class} (apart : i ≠ j)
    (here : s.cells[i]? = some (.inst c (tied i))) (there : s.cells[j]? = some (.inst c (tied j)))
    (fuel : Nat) : s.equalWithin holder fuel (.ref i) (.ref j) = none := by
  induction fuel generalizing i j with
  | zero => rfl
  | succ fuel ih =>
    have again := ih apart.symm there here
    have step : s.equalWithin holder (fuel + 1) (.ref i) (.ref j) = none ∨
        s.equalWithin holder (fuel + 1) (.ref i) (.ref j) =
          s.sameDictFor holder (s.equalWithin holder fuel) (tied i) (tied j) := by
      show s.sameBy holder (s.equalWithin holder fuel) (.ref i) (.ref j) = none ∨
        s.sameBy holder (s.equalWithin holder fuel) (.ref i) (.ref j) = _
      simp only [Store.sameBy, if_neg apart, here, there, Store.sameCells, true_or, if_true]
      split
      · exact .inl rfl
      · exact .inr rfl
    -- one of the two may be the object that is being filled
    rcases step with closed | step
    · exact closed
    rw [step]
    -- the only attribute of the one is looked up in the other, and the two contents are compared
    have asked : s.keyPlace holder (s.equalWithin holder fuel) (tied j) (.str "x") = none ∨
        s.keyPlace holder (s.equalWithin holder fuel) (tied j) (.str "x") = some (some 0) := by
      simp only [Store.keyPlace, Store.placeBy, image_name, bind, Except.bind, tied,
        Keyed.find_single]
      cases fuel with
      | zero => exact .inl rfl
      | succ fuel => exact .inr rfl
    have sizes : (tied i).size = (tied j).size := rfl
    have entries : (tied i).entries.toList = [(.str "x", .ref i)] := rfl
    rw [Store.sameDictFor, if_pos sizes, entries]
    rcases asked with none | first
    · simp only [allPass, none]
    · have content : (tied j).at? 0 = some (.ref j) := rfl
      simp only [allPass, first, content, again]

/-- Their comparison has no end. -/
theorem equalFor_tied {holder : Option Nat} {i j : Nat} {c : Class} (apart : i ≠ j)
    (here : s.cells[i]? = some (.inst c (tied i))) (there : s.cells[j]? = some (.inst c (tied j))) :
    s.equalFor holder (.ref i) (.ref j) = none :=
  Store.equalFor_eq_none_iff.2 (equalWithin_tied apart here there)

/-! ## A stream without an answer -/

namespace Decoder

variable {cfg : Config H} {total : Prop} {m : Machine H} {Q : Machine H → Prop}

/-- The name of the class of all instances. -/
def objectName : Name := ⟨"builtins", "object"⟩

/-- The instructions that make an instance. -/
def bare : List Instruction :=
  [⟨.global, (Text.utf8 objectName.module, Text.utf8 objectName.qualname)⟩, ⟨.emptyTuple, ()⟩,
    ⟨.newObj, ()⟩]

/-- The instructions that remember an instance and put it into itself. -/
def tie (slot : UInt8) : List Instruction :=
  [⟨.binPut, slot⟩, ⟨.emptyDict, ()⟩, ⟨.binUnicode, Text.utf8 "x"⟩, ⟨.binGet, slot⟩, ⟨.setItem, ()⟩,
    ⟨.build, ()⟩]

theorem leads_bare {c : Class}
    (finds : Finds cfg m.protocol objectName objectName (.ofClass c))
    (h : ∀ store : Store H, m.store.Grown store → store.size = m.store.size + 2 →
      store.cells[m.store.size + 1]? = some (.inst c .empty) →
      Q ((m.withStore store).push (.ref (m.store.size + 1)))) :
    Leads cfg total bare m Q := by
  let named := m.store.push (.global (resolved objectName (.ofClass c)))
  have size : named.size = m.store.size + 1 := Store.size_push ..
  have last : (named.push (.inst c .empty)).cells[named.size]? = some (.inst c .empty) :=
    Store.cell_push_last ..
  refine Leads.cons (leads_global finds.stands (by decide) ?_)
  refine Leads.cons (leads_push (.of trivial rfl) rfl ?_)
  refine leads_newObj rfl (Store.global?_of_cell (Store.cell_push_last ..)) rfl ?_
  have made := h (named.push (.inst c .empty))
    ((Store.Grown.push m.store _).trans (Store.Grown.push named _))
    (by rw [Store.size_push, size]) (by rw [← size]; exact last)
  rw [← size] at made
  exact made

/-- An entry is put into an empty dictionary or an instance without attributes. -/
theorem keeps_storeAttribute {id : Nat} {cell : Cell H} {content : Value}
    (here : m.store.cells[id]? = some cell) (bare : cell.entries = .empty)
    (h : Q (m.withStore (m.store.modify id
      (Cell.withEntries fun d => d.put none tiedImage (.str "x") content)))) :
    Keeps total (storeEntries id [(.str "x", content)]) m Q := by
  refine Keeps.bind (keeps_storeEntry none here (image_name ..) (.inl ?_) fun _ =>
    Does.pure ⟨_, rfl, h⟩)
  rw [bare, Keyed.find_empty]

theorem leads_tie {c : Class} {i : Nat} {below : List Value} {slot : UInt8}
    (stack : m.stack = below ++ [.ref i]) (here : m.store.cells[i]? = some (.inst c .empty))
    (hooks : (cfg.host.hooks c.key).setState = none)
    (h : ∀ store memo, store.size = m.store.size + 1 →
      (∀ j, j ≠ i → j < m.store.size → store.cells[j]? = m.store.cells[j]?) →
      store.cells[i]? = some (.inst c (tied i)) →
      Q { m with store := store, memo := memo }) :
    Leads cfg total (tie slot) m Q := by
  let n := m.store.size
  let blank := m.store.push (.dict .empty)
  let named := blank.modify n (Cell.withEntries fun d => d.put none tiedImage (.str "x") (.ref i))
  let whole := named.modify i (Cell.withEntries fun d => d.put none tiedImage (.str "x") (.ref i))
  have older : i < n := Store.lt_size_of_cell here
  have atBlank : blank.cells[i]? = some (.inst c .empty) := by
    rw [Store.cell_push_lt older]
    exact here
  have filled : blank.Replaced named n (.dict (tied i)) :=
    Store.Replaced.modify (Store.cell_push_last ..) _
  have atNamed : named.cells[i]? = some (.inst c .empty) := by
    rw [filled.other i (Nat.ne_of_lt older)]
    exact atBlank
  have built : named.Replaced whole i (.inst c (tied i)) := Store.Replaced.modify atNamed _
  have short : (Text.utf8 "x").length < 2 ^ 32 := by decide
  refine Leads.cons (leads_remember (.of trivial rfl) (fun _ _ => rfl) stack ?_)
  refine Leads.cons (leads_pushNew (.of trivial rfl) rfl ?_)
  refine Leads.cons (leads_push (v := .str "x") (.of short rfl) ?_ ?_)
  · simp only [execute, payloadText, Text.ofUtf8?_utf8, spelled, pure_bind]
  refine Leads.cons (leads_fetch (.of trivial rfl) rfl Std.HashMap.getElem?_insert_self ?_)
  refine Leads.cons (leads_setItem rfl (Store.cell_push_last ..) ?_)
  refine keeps_storeAttribute (Store.cell_push_last ..) rfl ?_
  refine leads_build (congrArg (· ++ [Value.ref n]) stack) atNamed hooks filled.cell ?_
  refine keeps_storeAttribute atNamed rfl ?_
  have tied := h whole (m.memo.insert slot.toNat (.ref i))
    (by rw [built.size, filled.size, Store.size_push])
    (fun j apart inside => by
      rw [built.other j apart, filled.other j (Nat.ne_of_lt inside), Store.cell_push_lt inside])
    built.cell
  rw [show m.stack = below ++ [.ref i] from stack] at tied
  exact tied

/-- Both together leave an instance on the stack that holds itself. -/
theorem leads_tied {c : Class} {slot : UInt8}
    (finds : Finds cfg m.protocol objectName objectName (.ofClass c))
    (hooks : (cfg.host.hooks c.key).setState = none)
    (h : ∀ store memo, store.size = m.store.size + 3 →
      (∀ j, j < m.store.size → store.cells[j]? = m.store.cells[j]?) →
      store.cells[m.store.size + 1]? = some (.inst c (tied (m.store.size + 1))) →
      Q (({ m with store := store, memo := memo } : Machine H).push (.ref (m.store.size + 1)))) :
    Leads cfg total (bare ++ tie slot) m Q := by
  refine Leads.append (leads_bare finds fun former grown size here => ?_)
  refine leads_tie rfl here hooks fun store memo size' other tied => ?_
  refine h store memo (by rw [size']; exact congrArg (· + 1) size) (fun j inside => ?_) tied
  obtain ⟨cell, found⟩ := Store.cell_of_lt_size inside
  rw [found]
  refine (other j (by omega) ?_).trans (grown j cell found)
  show j < former.size
  omega

/-- A dictionary does not take in two keys that hold themselves. -/
theorem leads_setItems_tied {s : Store H} {memo : Std.HashMap Nat Value} {p d i j : Nat} {c : Class}
    (partly : ¬total) (dict : s.cells[d]? = some (.dict .empty)) (apart : i ≠ j)
    (first : s.cells[i]? = some (.inst c (tied i))) (second : s.cells[j]? = some (.inst c (tied j))) :
    Leads cfg total [⟨.setItems, ()⟩]
      ⟨s, memo, flatten [(.ref i, .none), (.ref j, .none)], [[.ref d]], p⟩ Q := by
  have outside {k : Nat} {cell : Cell H} (found : s.cells[k]? = some cell)
      (other : cell ≠ .dict .empty) : k ≠ d := by
    rintro rfl
    rw [dict] at found
    cases found
    exact other rfl
  have apart_i : i ≠ d := outside first nofun
  have apart_j : j ≠ d := outside second nofun
  let image := (#[] : Array UInt8).push 10 ++ Text.utf8 c.qualname
  let s' := s.modify d (Cell.withEntries fun t => t.put none image (.ref i) Value.none)
  have step : s.Replaced s' d (.dict (.put .empty none image (.ref i) Value.none)) :=
    Store.Replaced.modify dict _
  have first' := (step.other i apart_i).trans first
  have second' := (step.other j apart_j).trans second
  have endless : Keyed.find (.put .empty none image (.ref i) Value.none) (HostObject.probing H) image
      (fun old => s'.equalFor (some d) old (.ref j)) = none := by
    rw [Keyed.find_single, equalFor_tied apart first' second']
    rfl
  refine leads_setItems rfl (show [[_]] = ([] ++ [Value.ref d]) :: [] from rfl) dict ?_
  refine Keeps.bind (keeps_storeEntry none dict (image_inst first fun same => ?_)
    (.inl (Keyed.find_empty ..)) fun _ => ?_)
  · exact apart_i (Option.some.inj same).symm
  refine Keeps.bind (keeps_storeEntry none step.cell (image_inst second' fun same => ?_)
    (.inr ⟨partly, endless⟩) fun fresh => ?_)
  · exact apart_j (Option.some.inj same).symm
  · cases endless.symm.trans fresh

/-- A dictionary with two keys that hold themselves. -/
def knots : List Instruction :=
  [⟨.proto, (2 : UInt8)⟩, ⟨.emptyDict, ()⟩, ⟨.mark, ()⟩] ++ ((bare ++ tie 0) ++ ([⟨.none, ()⟩] ++
    ((bare ++ tie 1) ++ [⟨.none, ()⟩, ⟨.setItems, ()⟩])))

/-- The second key is compared with the first one without end. -/
theorem leads_knots {c : Class} (finds : Finds cfg 2 objectName objectName (.ofClass c))
    (hooks : (cfg.host.hooks c.key).setState = none) :
    Leads cfg False knots ⟨{}, ∅, [], [], 0⟩ Q := by
  refine Leads.append (Leads.cons (leads_proto (by decide) ?_))
  refine Leads.cons (leads_pushNew (.of trivial rfl) rfl (leads_mark ?_))
  refine Leads.append (leads_tied finds hooks fun s memo size older first => ?_)
  refine Leads.append (leads_push (.of trivial rfl) rfl ?_)
  refine Leads.append (leads_tied finds hooks fun s' memo' size' older' second => ?_)
  refine Leads.cons (leads_push (.of trivial rfl) rfl ?_)
  have size : s.size = 4 := size
  have older : ∀ j, j < 1 → s.cells[j]? = #[Cell.dict .empty][j]? := older
  have first : s.cells[2]? = some (.inst c (tied 2)) := first
  have older' : ∀ j, j < s.size → s'.cells[j]? = s.cells[j]? := older'
  have second : s'.cells[s.size + 1]? = some (.inst c (tied (s.size + 1))) := second
  have dict : s'.cells[0]? = some (.dict .empty) := by
    rw [older' 0 (by omega), older 0 (by omega)]
    rfl
  exact leads_setItems_tied not_false dict (show 2 ≠ s.size + 1 by omega)
    ((older' 2 (by omega)).trans first) second

/-- A fresh registry knows the class of plain objects. -/
theorem finds_object : Finds ({ registry := .seeded 0, host := {} } : Config Empty) 2 objectName objectName
    (.ofClass (.base 0)) := by
  obtain ⟨bound, unregistered⟩ :=
    Registry.intact_seeded 0 objectName (.ofClass (.base 0)) (List.mem_cons_self ..)
  exact ⟨by decide, unregistered, bound⟩

theorem loads_knots : ∃ s, loads { registry := .seeded 0, host := {} } ({} : Store Empty)
    [0x80, 2, 0x7d, 0x28, 0x63, 0x62, 0x75, 0x69, 0x6c, 0x74, 0x69, 0x6e, 0x73, 0x0a, 0x6f, 0x62,
      0x6a, 0x65, 0x63, 0x74, 0x0a, 0x29, 0x81, 0x71, 0, 0x7d, 0x58, 1, 0, 0, 0, 0x78, 0x68, 0,
      0x73, 0x62, 0x4e, 0x63, 0x62, 0x75, 0x69, 0x6c, 0x74, 0x69, 0x6e, 0x73, 0x0a, 0x6f, 0x62,
      0x6a, 0x65, 0x63, 0x74, 0x0a, 0x29, 0x81, 0x71, 1, 0x7d, 0x58, 1, 0, 0, 0, 0x78, 0x68, 1,
      0x73, 0x62, 0x4e, 0x75, 0x2e] = (.error .endless, s) := by
  have spelled := Spells.all (knots ++ [⟨.stop, ()⟩])
  rcases loads_of_leads (Q := fun _ _ => False) spelled (by decide) (by decide) (by decide)
    (by decide) (leads_knots finds_object rfl) with
    ⟨_, _, _, impossible⟩ | ⟨_, s, run⟩
  · exact impossible.elim
  · exact ⟨s, run⟩

end Decoder

end ObjectStream
