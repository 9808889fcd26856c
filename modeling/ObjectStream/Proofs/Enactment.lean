import ObjectStream.Proofs.Calling
import ObjectStream.Proofs.NewObjects

/-!
How a creation is written and carried out.

Early protocols write the call of `copyreg.__newobj__` or `copyreg.__newobj_ex__`, later ones write
`NEWOBJ` or `NEWOBJ_EX`. Whichever it is, the decoder gets to an instruction that does what the creation
does with copies of the arguments: it succeeds where the creation does, with the same value, and fails
where it fails (`Decoder.Enacts`). The encoder writes up to that instruction and then the instruction
(`Trip.saveCall_prepares`).
-/

namespace ObjectStream

open Decoder (Machine Leads After resolved)
open Encoder

variable {H : Type} [HostObject H]

/-! ## Instructions -/

/-- Creates an object if there are no keyword arguments. -/
def Host.createPlain (host : Host H) (count : Nat) (cls : Value) (items : List Value) :
    Action H Value :=
  if count = 0 then host.create cls items else .fail "keyword arguments are not supported"

namespace Decoder

/-- The instruction does what the action does: it puts the value of the action in the place of what it
    takes, or it fails if the action fails. -/
structure Enacts (cfg : Config H) (i : Instruction) (action : Action H Value) (below : List Value)
    (m : Machine H) : Prop where
  ordinary : i.Ordinary
  succeeds : ∀ {v : Value} {s : Store H} {Q : Machine H → Prop}, action m.store = .ok v s →
    Q (((m.withStack below).withStore s).push v) → Leads cfg True [i] m Q
  fails : ∀ {e : CallError} {s : Store H}, action m.store = .error e s →
    Refuses (execute cfg i.op i.operand) m

variable {cfg : Config H} {m : Machine H} {below vs items : List Value} {i : Instruction}
  {action action' : Action H Value}

theorem Enacts.congr (h : Enacts cfg i action below m) (same : action m.store = action' m.store) :
    Enacts cfg i action' below m :=
  ⟨h.ordinary, fun run => h.succeeds (same.trans run), fun run => h.fails (same.trans run)⟩

/-- Where the action fails, so does an instruction with the outcome of the action. -/
theorem fails_of_outcome (stack : m.stack = below ++ vs)
    (same : ∀ st : State H, st.store = m.store →
      outcome (execute cfg i.op i.operand (st.offering vs)) = acted cfg st action)
    {e : CallError} {s : Store H} (failed : action m.store = .error e s) :
    Refuses (execute cfg i.op i.operand) m := by
  intro st here _
  subst here
  have none := same { st with stack := below.toArray } rfl
  rw [← eq_offering stack, acted, show action st.store = .error e s from failed] at none
  cases run : execute cfg i.op i.operand st with
  | ok _ st' =>
    rw [run] at none
    cases none
  | error e' st' => exact ⟨e', st', rfl⟩

section
variable {f args cls positional keywords : Value} {g : Global} {symbol : Symbol} {number : Nat}
  {d : Dict}

theorem enacts_reduce (stack : m.stack = below ++ [f, args]) (global : m.store.global? f = some g)
    (bound : g.symbol = some symbol) (tuple : m.store.tuple? args = some items) :
    Enacts cfg ⟨.reduce, ()⟩ (cfg.host.callSymbol symbol items) below m where
  ordinary := .of trivial rfl
  succeeds run q := leads_reduce (by simpa using stack) tuple global bound (.inl ⟨_, _, run, q⟩)
  fails := fails_of_outcome stack fun st store =>
    outcome_reduce (store ▸ global) bound (store ▸ tuple)

/-- The call of `__newobj__` creates. -/
theorem enacts_newobj (stack : m.stack = below ++ [f, args]) (global : m.store.global? f = some g)
    (bound : g.symbol = some (.function (.builtin number .newobj)))
    (tuple : m.store.tuple? args = some (cls :: items)) :
    Enacts cfg ⟨.reduce, ()⟩ (cfg.host.createPlain 0 cls items) below m :=
  (enacts_reduce stack global bound tuple).congr (cfg.host.callSymbol_newobj ..)

/-- The call of `__newobj_ex__` creates if there are no keyword arguments. -/
theorem enacts_newobjEx (stack : m.stack = below ++ [f, args]) (global : m.store.global? f = some g)
    (bound : g.symbol = some (.function (.builtin number .newobjEx)))
    (tuple : m.store.tuple? args = some [cls, positional, keywords])
    (positionals : m.store.tuple? positional = some items)
    (older : ∀ i, positional = .ref i → ∀ j, .ref j ∈ items → j < i)
    (dict : m.store.dict? keywords = some d) :
    Enacts cfg ⟨.reduce, ()⟩ (cfg.host.createPlain d.size cls items) below m := by
  refine (enacts_reduce stack global bound tuple).congr ?_
  by_cases empty : d.size = 0
  · rw [Host.createPlain, if_pos empty]
    exact Host.callSymbol_newobjEx positionals older (by simp [dict, empty])
  · rw [Host.createPlain, if_neg empty]
    exact Host.callSymbol_newobjEx_refused positionals (by simp [dict, empty])

/-- `NEWOBJ` creates. -/
theorem enacts_newObj (stack : m.stack = below ++ [cls, positional])
    (tuple : m.store.tuple? positional = some items) :
    Enacts cfg ⟨.newObj, ()⟩ (cfg.host.createPlain 0 cls items) below m where
  ordinary := .of trivial rfl
  succeeds run q := leads_creation tuple (.inl ⟨_, _, run, q⟩) (by simpa using stack)
  fails := fails_of_outcome stack fun st store => outcome_newObj (store ▸ tuple)

/-- `NEWOBJ_EX` creates if there are no keyword arguments, or if a class ignores them. -/
theorem enacts_newObjEx (stack : m.stack = below ++ [cls, positional, keywords])
    (tuple : m.store.tuple? positional = some items) (dict : m.store.dict? keywords = some d)
    (minded : d.size = 0 ∨ isClass m.store cls = false) :
    Enacts cfg ⟨.newObjEx, ()⟩ (cfg.host.createPlain d.size cls items) below m where
  ordinary := .of trivial rfl
  succeeds run q := by
    by_cases empty : d.size = 0
    · rw [Host.createPlain, if_pos empty] at run
      exact leads_newObjEx tuple (.inl ⟨_, _, run, q⟩) (by simpa using stack) dict (.inl empty)
    · rw [Host.createPlain, if_neg empty] at run
      cases run
  fails := fails_of_outcome stack fun st store => by
    have dict : st.store.dict? keywords = some d := store ▸ dict
    have minded : d.size = 0 ∨ isClass st.store cls = false := store ▸ minded
    rw [outcome_newObjEx (store ▸ tuple), dict]
    by_cases empty : d.size = 0
    · simp only [Host.createPlain, empty, true_or, if_true]
    · have plain := minded.resolve_left empty
      simp only [Host.createPlain, empty, plain, Bool.false_eq_true, or_self, if_false]
      rfl

end

end Decoder

/-! ## Copies -/

namespace Store

variable {s s' : Store H} {v : Value} {items : List Value}

omit [HostObject H] in
theorem tuple?_ref {i : Nat} (tuple : s.tuple? (.ref i) = some items) :
    s.cells[i]? = some (.tuple items) := by
  cases found : s.cells[i]? with
  | none =>
    simp only [tuple?, cell?, found] at tuple
    cases tuple
  | some cell =>
    simp only [tuple?, cell?, found] at tuple
    split at tuple
    · next same =>
      cases tuple
      exact same
    · cases tuple

omit [HostObject H] in
theorem cell_of_tuple?_cons {w : Value} (tuple : s.tuple? v = some (w :: items)) :
    ∃ k, v = .ref k ∧ s.cells[k]? = some (.tuple (w :: items)) := by
  cases v with
  | ref k => exact ⟨k, rfl, tuple?_ref tuple⟩
  | _ => cases tuple

omit [HostObject H] in
theorem Grown.tuple? (h : s.Grown s') (tuple : s.tuple? v = some items) :
    s'.tuple? v = some items := by
  cases v with
  | ref i => exact tuple?_of_cell (h i _ (tuple?_ref tuple))
  | _ => exact tuple

omit [HostObject H] in
theorem Grown.dict? {d : Dict} (h : s.Grown s') (dict : s.dict? v = some d) :
    s'.dict? v = some d := by
  cases v with
  | ref i =>
    have found := h i _ (cell_of_dict? dict)
    simp only [Store.dict?, Store.cell?, found]
  | _ => cases dict

end Store

namespace Trip

variable {x : Trip H} {st : Encoder.State H} {m : Machine H} {i j : Nat} {v w : Value}
  {items : List Value}

/-- The decoder remembers the symbol of a global. -/
theorem Linked.global {g : Global} {name : Name} {symbol : Symbol} (linked : x.Linked st m [])
    (named : x.NamesAt st.store i g name symbol) (link : Link st.memo m.memo i j) :
    m.store.cells[j]? = some (.global (resolved name symbol)) := by
  cases linked.remembered i j _ link List.not_mem_nil named.found with
  | copy copied =>
    obtain ⟨_, _, same, -⟩ := copied
    cases same
  | name met wire bound here =>
    obtain rfl := Except.ok.inj (named.wire.symm.trans wire)
    obtain rfl := Lookup.found.inj (named.known.bound.symm.trans bound)
    exact here

/-- The decoder remembers a tuple as one of copies that are older. -/
theorem Linked.tuple (linked : x.Linked st m []) (same : Match (Link st.memo m.memo) v w)
    (tuple : st.store.tuple? v = some items) :
    ∃ ws, m.store.tuple? w = some ws ∧ List.Forall₂ (Match (Link st.memo m.memo)) items ws ∧
      ∀ j, w = .ref j → ∀ k, .ref k ∈ ws → k < j := by
  cases same with
  | emptyTuple =>
    cases tuple
    exact ⟨[], rfl, .nil, nofun⟩
  | @ref i j link =>
    cases linked.remembered i j _ link List.not_mem_nil (Store.tuple?_ref tuple) with
    | copy copied =>
      obtain ⟨_, here, same, -, older⟩ := copied
      cases same with
      | @tuple _ ws same =>
        refine ⟨ws, Store.tuple?_of_cell here, same, ?_⟩
        rintro _ ⟨⟩ k mem
        exact older k mem
  | _ => cases tuple

/-- The decoder remembers a dictionary as one of the same size. -/
theorem Linked.dict {d : Dict} (linked : x.Linked st m []) (same : Match (Link st.memo m.memo) v w)
    (dict : st.store.dict? v = some d) :
    ∃ d', m.store.dict? w = some d' ∧ d'.size = d.size := by
  have found := Store.cell_of_dict? dict
  cases same with
  | @ref i j link =>
    cases linked.remembered i j _ link List.not_mem_nil found with
    | copy copied =>
      obtain ⟨_, here, same, -⟩ := copied
      cases same with
      | @dict _ d' keys _ =>
        have here : m.store.cell? (.ref j) = some (.dict d') := here
        refine ⟨d', by simp only [Store.dict?, here], ?_⟩
        have length := keys.length_eq
        rw [Keyed.length_keys, Keyed.length_keys] at length
        exact length.symm
  | _ => cases found

end Trip

/-! ## What is written -/

/-- The arguments of a function that creates an object by a class or a callable: the function is found
    under this name, and there are so many keyword arguments. -/
inductive Creating (s : Store H) (cls : Value) (items : List Value) :
    String → Builtin → List Value → Nat → Prop
  | newobj : Creating s cls items "__newobj__" .newobj (cls :: items) 0
  | newobjEx {positional keywords : Value} {d : Dict} (tuple : s.tuple? positional = some items)
      (dict : s.dict? keywords = some d) :
      Creating s cls items "__newobj_ex__" .newobjEx [cls, positional, keywords] d.size

omit [HostObject H] in
/-- The first argument is what creates. -/
theorem Creating.cons {s : Store H} {cls : Value} {items args : List Value} {qualname : String}
    {builtin : Builtin} {count : Nat} (h : Creating s cls items qualname builtin args count) :
    args = cls :: args.tail := by
  cases h <;> rfl

namespace Encoder

variable {cfg : Config H} {save : Value → Encode H Unit} {f a : Value} {g : Global}
  {items : List Value}

section
omit [HostObject H]

/-- Before protocol 2 a function that no host type goes by is called as it is. -/
theorem saveCall_early (early : cfg.protocol.val < 2) (untyped : g.type = none) :
    saveCall cfg save f g a items = (do
      save f
      save a
      emit .reduce ()) := by
  have none : reconstructorOf cfg g = none := by simp only [reconstructorOf, untyped]; rfl
  have first : decide (2 ≤ cfg.protocol.val) = false := by simpa using early
  simp only [saveCall, none, first]
  rfl

theorem saveCall_newobj (late : 2 ≤ cfg.protocol.val) (named : g.qualname = "__newobj__") :
    saveCall cfg save f g a items = saveNewObject save items := by
  have first : decide (2 ≤ cfg.protocol.val) = true := by simpa using late
  simp only [saveCall, first, named]
  rfl

theorem saveCall_newobjEx (late : 2 ≤ cfg.protocol.val) (named : g.qualname = "__newobj_ex__") :
    saveCall cfg save f g a items = saveNewObjectEx cfg save items := by
  have first : decide (2 ≤ cfg.protocol.val) = true := by simpa using late
  simp only [saveCall, first, named]
  rfl

end

end Encoder

namespace Trip

variable {x : Trip H} {st st₁ st₂ st' : Encoder.State H} {m m' : Machine H} {f c k : Nat} {v w : Value}
  {g gc : Global} {name fname : Name} {symbol fsymbol : Symbol} {items ws : List Value} {count : Nat}
  {save : Value → Encode H Unit}

/-- The decoder is about to carry out the instruction, which creates an object by the symbol with
    copies of the items. -/
structure Poised (x : Trip H) (symbol : Symbol) (items : List Value) (count : Nat)
    (st : Encoder.State H) (i : Instruction) (m : Machine H) : Prop where
  linked : x.Linked st m []
  enacts : ∃ cls ws, m.store.creator cls = .ok symbol ∧
    List.Forall₂ (Match (Link st.memo m.memo)) items ws ∧
    Decoder.Enacts x.decoder i (x.decoder.host.createPlain count cls ws) [] m

/-- Between the two states an object was created by the symbol with the items. -/
def Prepares (x : Trip H) (symbol : Symbol) (items : List Value) (count : Nat)
    (st st' : Encoder.State H) : Prop :=
  ∃ st₁ i, Further st st₁ ∧ Emitted st₁ st' [i] ∧ x.Performs st st₁ fun m Q =>
    x.Linked st m [] ∧ m.stack = [] ∧ ∀ m', x.Poised symbol items count st₁ i m' → Q m'

omit [HostObject H] in
theorem checkClass_ok (h : checkClass v st = .ok () st') : st' = st := by
  simp only [checkClass] at h
  obtain ⟨_, s, get, h⟩ := bind_eq_ok h
  cases get
  split at h
  · cases h
  · cases h
    rfl

omit [HostObject H] in
theorem keywordCount?_of_dict {s : Store H} {d : Dict} (dict : s.dict? v = some d) :
    keywordCount? s v = some d.size := by
  cases v with
  | ref i => simp only [keywordCount?, dict, Option.map_some]
  | _ => cases dict

theorem creator_of_cell {s : Store H} {j : Nat}
    (here : s.cells[j]? = some (.global (resolved name symbol))) :
    s.creator (.ref j) = .ok symbol := by
  simp only [Store.creator, Store.global?_of_cell here]
  rfl

theorem Pushed.top {busy : List Nat} (h : x.Pushed st busy m m' [v] ws) :
    ∃ w, m'.stack = m.stack ++ [w] ∧ Match (Link st.memo m'.memo) v w := by
  obtain ⟨-, -, stack, same⟩ := h
  cases same with
  | cons head tail =>
    cases tail
    exact ⟨_, stack, head⟩

section
variable (saver : x.Saver save)
include saver

/-- A function and its arguments are pushed. -/
theorem operands_perform (early : x.encoder.protocol.val < 2)
    (callee : x.NamesAt st.store f g fname fsymbol)
    (found : st.store.cells[k]? = some (.tuple items)) (some : items ≠ [])
    (operands : ∀ v ∈ items, x.Operand st.store v) (function : save (.ref f) st = .ok () st₁)
    (args : save (.ref k) st₁ = .ok () st₂) :
    Further st st₂ ∧ x.Performs st st₂ fun m Q => x.Linked st m [] ∧
      ∀ m' j t ws, x.Linked st₂ m' [] → m'.stack = m.stack ++ [.ref j, .ref t] →
        m'.store.global? (.ref j) = .some (resolved fname fsymbol) →
        m'.store.tuple? (.ref t) = .some ws →
        List.Forall₂ (Match (Link st₂.memo m'.memo)) items ws → Q m' := by
  have first := saver.operand function (.global early callee)
  have second := saver.arguments args (first.sent.store _ _ found) some
    fun v mem => (operands v mem).grown first.sent.store
  have carries := first.trans second <| List.forall_mem_singleton.2 <|
    Store.closed_of_cell found fun v mem => (operands v mem).closed
  refine ⟨carries.sent, carries.performs.mono ?_⟩
  rintro m Q ⟨linked, q⟩
  refine ⟨[], linked, fun v _ => .nil v, fun m' ws pushed => ?_⟩
  obtain ⟨linked', -, stack, same⟩ := pushed
  cases same with
  | cons here tail =>
    cases tail with
    | cons here' tail =>
      cases tail
      cases here with
      | @ref _ j link =>
        have tuple : st₂.store.tuple? (.ref k) = _ :=
          Store.tuple?_of_cell (carries.sent.store _ _ found)
        obtain ⟨ws, items, same, -⟩ := linked'.tuple here' tuple
        cases here' with
        | @ref _ t _ =>
          have global := linked'.global (callee.grown carries.sent.store) link
          exact q m' j t ws linked' stack (Store.global?_of_cell global) items same

/-- Before protocol 2 both functions are called. -/
theorem prepares_reduce {qualname : String} {number : Nat} {builtin : Builtin}
    {argItems : List Value} (early : x.encoder.protocol.val < 2)
    (callee : x.NamesAt st.store f g fname (.function (.builtin number builtin)))
    (cls : x.NamesAt st.store c gc name symbol)
    (creating : Creating st.store (.ref c) items qualname builtin argItems count)
    (found : st.store.cells[k]? = some (.tuple argItems))
    (sound : ∀ v ∈ argItems.tail, x.Sound st.store v) (function : save (.ref f) st = .ok () st₁)
    (args : save (.ref k) st₁ = .ok () st₂) (reduce : emit .reduce () st₂ = .ok () st') :
    x.Prepares symbol items count st st' := by
  have operands : argItems ≠ [] ∧ ∀ v ∈ argItems, x.Operand st.store v := by
    rw [creating.cons]
    refine ⟨List.cons_ne_nil _ _, List.forall_mem_cons.2 ⟨.global early cls, fun v mem => ?_⟩⟩
    exact .sound (sound v mem)
  obtain ⟨sent, performs⟩ :=
    operands_perform saver early callee found operands.1 operands.2 function args
  refine ⟨st₂, ⟨.reduce, ()⟩, sent, emit_ok reduce, performs.mono ?_⟩
  rintro m Q ⟨linked, stack, q⟩
  refine ⟨linked, fun m' j t ws linked' stack' global tuple same => q m' ⟨linked', ?_⟩⟩
  rw [stack] at stack'
  cases same with
  | nil => exact absurd rfl operands.1
  | cons head tail =>
    cases creating with
    | newobj =>
      cases head with
      | ref link =>
        have creator := creator_of_cell (linked'.global (cls.grown sent.store) link)
        exact ⟨_, _, creator, tail, Decoder.enacts_newobj stack' global rfl tuple⟩
    | newobjEx positionals dict =>
      cases tail with
      | cons head' tail =>
        cases tail with
        | cons head'' tail =>
          cases tail
          cases head with
          | ref link =>
            have creator := creator_of_cell (linked'.global (cls.grown sent.store) link)
            obtain ⟨ws, positionals', same, older⟩ :=
              linked'.tuple head' (sent.store.tuple? positionals)
            obtain ⟨d', dict', size⟩ := linked'.dict head'' (sent.store.dict? dict)
            rw [← size]
            exact ⟨_, ws, creator, same,
              Decoder.enacts_newobjEx stack' global rfl tuple positionals' older dict'⟩

/-- From protocol 2 on the class and the arguments are pushed for `NEWOBJ`. -/
theorem saveNewObject_prepares (unmet : st.memo[Identity.object c]? = none)
    (cls : x.NamesAt st.store c gc name symbol) (sound : ∀ v ∈ items, x.Sound st.store v)
    (h : saveNewObject save (.ref c :: items) st = .ok () st') : x.Prepares symbol items 0 st st' := by
  simp only [saveNewObject] at h
  obtain ⟨_, s₀, check, h⟩ := bind_eq_ok h
  rw [checkClass_ok check] at h
  obtain ⟨_, s₁, saved, h⟩ := bind_eq_ok h
  obtain ⟨v, s₂, alloc, h⟩ := bind_eq_ok h
  obtain ⟨_, s₃, saved', make⟩ := bind_eq_ok h
  have names := saver.names saved cls
  obtain ⟨grown, memo, silent, -⟩ := allocTuple_ok alloc
  obtain ⟨sent, performs⟩ := arguments_perform saver alloc
    (fun v mem => (sound v mem).grown names.sent.store) (.of_eq rfl rfl) saved'
  have made : Further s₁ s₂ := ⟨grown, fun _ _ here => by rw [memo]; exact here⟩
  refine ⟨s₃, ⟨.newObj, ()⟩, names.sent.trans (made.trans sent), emit_ok make,
    (names.performs.trans ((Performs.of_silent silent).trans performs)).mono ?_⟩
  rintro m Q ⟨linked, stack, q⟩
  refine ⟨[], linked, List.forall_mem_singleton.2 unmet, fun m₁ j linked₁ _ stack₁ here => ?_⟩
  refine ⟨[], linked₁.alloc grown memo, List.forall_mem_nil _, fun v _ => .nil v,
    fun m₂ w ws linked₂ after stack₂ tuple same => q m₂ ⟨linked₂, ?_⟩⟩
  have pushed : m₂.stack = [] ++ [.ref j, w] := by
    rw [stack₂, stack₁, stack]
    rfl
  exact ⟨.ref j, ws, creator_of_cell (after.cell here), same, Decoder.enacts_newObj pushed tuple⟩

/-- From protocol 2 on the class and the arguments are pushed, and from protocol 4 on the keyword
    arguments are pushed too. -/
theorem saveNewObjectEx_prepares {positional keywords : Value} {d : Dict}
    (unmet : st.memo[Identity.object c]? = none) (cls : x.NamesAt st.store c gc name symbol)
    (tuple : st.store.tuple? positional = some items) (dict : st.store.dict? keywords = some d)
    (minded : d.size = 0 ∨ ∃ callable, symbol = .function callable)
    (sound : x.Sound st.store positional) (sound' : x.Sound st.store keywords)
    (h : saveNewObjectEx x.encoder save [.ref c, positional, keywords] st = .ok () st') :
    x.Prepares symbol items d.size st st' := by
  simp only [saveNewObjectEx] at h
  obtain ⟨_, s₀, check, h⟩ := bind_eq_ok h
  rw [checkClass_ok check] at h
  obtain ⟨_, s, get, h⟩ := bind_eq_ok h
  cases get
  simp only [tuple, keywordCount?_of_dict dict] at h
  obtain ⟨_, s₁, saved, h⟩ := bind_eq_ok h
  obtain ⟨_, s₂, saved', h⟩ := bind_eq_ok h
  have names := saver.names saved cls
  have first := saver.carrier _ _ _ saved' (sound.grown names.sent.store)
  have begun := names.sent.trans first.sent
  split at h
  · obtain ⟨_, s₃, saved'', make⟩ := bind_eq_ok h
    have second := saver.carrier _ _ _ saved'' (sound'.grown begun.store)
    have sent := begun.trans second.sent
    refine ⟨s₃, ⟨.newObjEx, ()⟩, sent, emit_ok make,
      (names.performs.trans (first.performs.trans second.performs)).mono ?_⟩
    rintro m Q ⟨linked, stack, q⟩
    refine ⟨[], linked, List.forall_mem_singleton.2 unmet, fun m₁ j linked₁ _ stack₁ here => ?_⟩
    refine ⟨[], linked₁, fun v _ => .nil v, fun m₂ ws₁ pushed₁ => ?_⟩
    refine ⟨[], pushed₁.linked, fun v _ => .nil v, fun m₃ ws₂ pushed₂ => q m₃ ⟨pushed₂.linked, ?_⟩⟩
    obtain ⟨w₁, stack₂, same₁⟩ := pushed₁.top
    obtain ⟨w₂, stack₃, same₂⟩ := pushed₂.top
    have same₁ := same₁.mono fun i j link => link.grow second.sent pushed₂.after
    obtain ⟨ws, tuple', same, -⟩ := pushed₂.linked.tuple same₁ (sent.store.tuple? tuple)
    obtain ⟨d', dict', size⟩ := pushed₂.linked.dict same₂ (sent.store.dict? dict)
    have here := (pushed₁.after.trans pushed₂.after).cell here
    have minded' : d'.size = 0 ∨ Decoder.isClass m₃.store (.ref j) = false := by
      rw [size]
      refine minded.imp_right ?_
      rintro ⟨callable, rfl⟩
      simp only [Decoder.isClass, Store.global?_of_cell here]
      rfl
    have pushed : m₃.stack = [] ++ [.ref j, w₁, w₂] := by
      rw [stack₃, stack₂, stack₁, stack]
      rfl
    rw [← size]
    exact ⟨.ref j, ws, creator_of_cell here, same,
      Decoder.enacts_newObjEx pushed tuple' dict' minded'⟩
  · split at h
    · next none =>
      refine ⟨s₂, ⟨.newObj, ()⟩, begun, emit_ok h, (names.performs.trans first.performs).mono ?_⟩
      rintro m Q ⟨linked, stack, q⟩
      refine ⟨[], linked, List.forall_mem_singleton.2 unmet, fun m₁ j linked₁ _ stack₁ here => ?_⟩
      refine ⟨[], linked₁, fun v _ => .nil v, fun m₂ ws pushed => q m₂ ⟨pushed.linked, ?_⟩⟩
      obtain ⟨w, stack₂, same⟩ := pushed.top
      have pushed' : m₂.stack = [] ++ [.ref j, w] := by
        rw [stack₂, stack₁, stack]
        rfl
      obtain ⟨ws, tuple', same, -⟩ := pushed.linked.tuple same (begun.store.tuple? tuple)
      rw [none]
      exact ⟨.ref j, ws, creator_of_cell (pushed.after.cell here), same,
        Decoder.enacts_newObj pushed' tuple'⟩
    · cases h

/-- The call of one of the two functions is written so that the decoder creates the object, under every
    protocol. -/
theorem saveCall_prepares {qualname : String} {number : Nat} {builtin : Builtin}
    {args : Value} {argItems : List Value} (fresh : st.memo = ∅)
    (callee : x.NamesAt st.store f g ⟨"copyreg", qualname⟩ (.function (.builtin number builtin)))
    (untyped : g.type = none) (cls : x.NamesAt st.store c gc name symbol)
    (creating : Creating st.store (.ref c) items qualname builtin argItems count)
    (tuple : st.store.tuple? args = some argItems)
    (minded : count = 0 ∨ ∃ callable, symbol = .function callable)
    (sound : ∀ v ∈ argItems.tail, x.Sound st.store v)
    (h : saveCall x.encoder save (.ref f) g args argItems st = .ok () st') :
    x.Prepares symbol items count st st' := by
  by_cases early : x.encoder.protocol.val < 2
  · rw [saveCall_early early untyped] at h
    obtain ⟨_, s₁, function, h⟩ := bind_eq_ok h
    obtain ⟨_, s₂, saved, reduce⟩ := bind_eq_ok h
    obtain ⟨k, rfl, found⟩ := Store.cell_of_tuple?_cons (creating.cons ▸ tuple)
    rw [← creating.cons] at found
    exact prepares_reduce saver early callee cls creating found sound function saved reduce
  · have late := Nat.not_lt.1 early
    have named : g.qualname = qualname :=
      (congrArg Name.qualname (wireName_untyped untyped callee.wire)).symm
    have unmet : st.memo[Identity.object c]? = none := by simp [fresh]
    cases creating with
    | newobj =>
      rw [saveCall_newobj late named] at h
      exact saveNewObject_prepares saver unmet cls sound h
    | newobjEx positionals dict =>
      rw [saveCall_newobjEx late named] at h
      exact saveNewObjectEx_prepares saver unmet cls positionals dict minded
        (sound _ (List.mem_cons_self ..)) (sound _ (.tail _ (List.mem_cons_self ..))) h

end

end Trip

end ObjectStream
