import ObjectStream.Proofs.Discipline
import ObjectStream.Proofs.Execution
import ObjectStream.Proofs.Registries
import ObjectStream.Proofs.Running

/-!
Spellings of one creation.

An object is created by a class or a callable with arguments. A stream can spell this as the call of
`copyreg.__newobj__`, as `NEWOBJ`, as the call of `copyreg.__newobj_ex__` with keyword arguments, and as
`NEWOBJ_EX`. Without keyword arguments all four have the same outcome: they leave the same value and the
same objects, or all fail (`newObject_spellings`). With keyword arguments the call fails always, and so
does `NEWOBJ_EX` with a callable, but a class ignores them.

The encoder takes `None` for no keyword arguments, and the decoder does not. So a record that is created
with `None` in their place is read back from protocols 2 and 3, and from no other
(`loads_dumps_none`).
-/

namespace ObjectStream

variable {H : Type} [HostObject H]

/-! ## What a creation leads to -/

namespace Store

variable {s : Store H} {cls positional keywords : Value} {items : List Value}

/-- What a creation leads to, if its arguments have this age. -/
def creationFrom (s : Store H) (age : Nat) (cls : Value) (args : List Value) : Except String Target :=
  match s.creator cls with
  | .error text => .error text
  | .ok (.ofClass c) => .ok (.create c)
  | .ok (.function callable) => s.forward age callable args

/-- A call that stands for a smaller creation leads where the creation does. -/
theorem forward_of_creation {age number : Nat} {f : Builtin} {args : List Value} {next : Creation}
    (made : s.creation? age f args = some (.ok next))
    (smaller : next.age < age ∨ (next.age = age ∧ next.args.length < args.length)) :
    s.forward age (.builtin number f) args = s.creationFrom next.age next.cls next.args := by
  rw [forward, creationFrom]
  simp only [made]
  cases s.creator next.cls with
  | error text => rfl
  | ok symbol =>
    cases symbol with
    | ofClass c => rfl
    | function callable => exact dif_pos smaller

/-- A call that stands for no creation leads to itself, or nowhere. -/
theorem forward_of_failure {age number : Nat} {f : Builtin} {args : List Value} {text : String}
    (made : s.creation? age f args = some (.error text)) :
    s.forward age (.builtin number f) args = .error text := by
  rw [forward]
  simp only [made]

omit [HostObject H] in
/-- The creation that the call of `__newobj_ex__` stands for. -/
theorem creation?_newobjEx (s : Store H) (age : Nat) (cls positional keywords : Value) :
    s.creation? age .newobjEx [cls, positional, keywords] = some
      (match s.tuple? positional, s.checkKeywords keywords with
        | some items, .ok () => .ok ⟨cls, items, positional.identity?.getD 0⟩
        | some _, .error text => .error text
        | none, _ => .error "__newobj_ex__() args must be a tuple") := by
  have arity : checkArity "__newobj_ex__" [cls, positional, keywords] 3 3 = .ok () := rfl
  simp only [creation?, arity]
  cases s.tuple? positional with
  | none => rfl
  | some items => cases s.checkKeywords keywords <;> rfl

omit [HostObject H] in
/-- A call of one of the creating callables stands for no creation, for one with fewer of its
    arguments, or for one with the items of an argument. -/
theorem creation?_cases (s : Store H) (f : Builtin) (args : List Value) :
    (∃ text, ∀ age, s.creation? age f args = some (.error text)) ∨
      (∃ cls rest, (∀ age, s.creation? age f args = some (.ok ⟨cls, rest, age⟩)) ∧
        rest.length < args.length ∧ ∀ v ∈ rest, v ∈ args) ∨
      (∃ cls positional items, (∀ age, s.creation? age f args =
          some (.ok ⟨cls, items, positional.identity?.getD 0⟩)) ∧
        positional ∈ args ∧ s.tuple? positional = some items ∧ 0 < args.length) ∨
      ∀ age, s.creation? age f args = none := by
  cases f with
  | newobj =>
    match args with
    | [] => exact .inl ⟨_, fun _ => rfl⟩
    | cls :: rest =>
      exact .inr (.inl ⟨cls, rest, fun _ => rfl, Nat.lt_succ_self _, fun _ => List.mem_cons_of_mem _⟩)
  | reconstructor =>
    match args with
    | [] | [_] | [_, _] | _ :: _ :: _ :: _ :: _ => exact .inl ⟨_, fun _ => rfl⟩
    | [cls, _, state] =>
      cases state with
      | none => exact .inr (.inl ⟨cls, [], fun _ => rfl, Nat.succ_pos _, fun _ => nofun⟩)
      | _ => exact .inl ⟨_, fun _ => rfl⟩
  | newobjEx =>
    match args with
    | [] | [_] | [_, _] | _ :: _ :: _ :: _ :: _ => exact .inl ⟨_, fun _ => rfl⟩
    | [cls, positional, keywords] =>
      simp only [creation?_newobjEx]
      cases tuple : s.tuple? positional with
      | none => exact .inl ⟨_, fun _ => rfl⟩
      | some items =>
        cases s.checkKeywords keywords with
        | error text => exact .inl ⟨text, fun _ => rfl⟩
        | ok => exact .inr (.inr (.inl ⟨cls, positional, items, fun _ => rfl, by simp, tuple, by simp⟩))
  | _ => exact .inr (.inr (.inr fun _ => rfl))

omit [HostObject H] in
theorem lt_size_of_tuple? {i : Nat} (tuple : s.tuple? (.ref i) = some items) : i < s.size := by
  cases found : s.cells[i]? with
  | none =>
    simp only [tuple?, cell?, found] at tuple
    cases tuple
  | some cell => exact lt_size_of_cell found

omit [HostObject H] in
/-- The items of an older tuple are a smaller list of arguments. -/
theorem smaller_of_tuple? {age : Nat} {args : List Value} (older : ∀ i, positional = .ref i → i < age)
    (tuple : s.tuple? positional = some items) (some : 0 < args.length) :
    positional.identity?.getD 0 < age ∨
      (positional.identity?.getD 0 = age ∧ items.length < args.length) := by
  cases positional with
  | ref i => exact .inl (older i rfl)
  | emptyTuple =>
    cases tuple
    cases age with
    | zero => exact .inr ⟨rfl, some⟩
    | succ => exact .inl (Nat.succ_pos _)
  | _ => cases tuple

/-- Where a call leads does not depend on the age it starts with, if its arguments are older. -/
theorem forward_congr {a b : Nat} (callable : Callable) (args : List Value)
    (older : ∀ i, .ref i ∈ args → i < a ∧ i < b) :
    s.forward a callable args = s.forward b callable args := by
  induction h : args.length using Nat.strongRecOn generalizing callable args with
  | ind n ih =>
    subst h
    cases callable with
    | host => rw [forward, forward]
    | builtin k f =>
      rcases s.creation?_cases f args with ⟨text, made⟩ | ⟨cls, rest, made, shorter, among⟩ |
        ⟨cls, positional, items, made, mem, tuple, some⟩ | made
      · rw [forward_of_failure (made a), forward_of_failure (made b)]
      · rw [forward_of_creation (made a) (.inr ⟨rfl, shorter⟩),
          forward_of_creation (made b) (.inr ⟨rfl, shorter⟩), creationFrom, creationFrom]
        cases s.creator cls with
        | error text => rfl
        | ok symbol =>
          cases symbol with
          | ofClass c => rfl
          | function callable => exact ih _ shorter callable rest (fun i mem => older i (among _ mem)) rfl
      · have younger : ∀ i, positional = .ref i → i < a ∧ i < b := fun i same => older i (same ▸ mem)
        rw [forward_of_creation (made a) (smaller_of_tuple? (fun i same => (younger i same).1) tuple some),
          forward_of_creation (made b) (smaller_of_tuple? (fun i same => (younger i same).2) tuple some)]
      · rw [forward, forward]
        simp only [made]

omit [HostObject H] in
theorem checkKeywords_eq (s : Store H) (keywords : Value) :
    s.checkKeywords keywords = if (s.dict? keywords).any (·.size = 0) then .ok ()
      else .error "keyword arguments are not supported" := by
  unfold checkKeywords
  cases s.dict? keywords with
  | none => rfl
  | some d => simp

end Store

/-! ## Calls -/

namespace Host

variable {host : Host H} {s : Store H} {number : Nat} {cls positional keywords : Value}
  {items : List Value}

theorem carryOut_congr {target target' : Store H → Except String Target} (same : target s = target' s) :
    host.carryOut target s = host.carryOut target' s := by
  have read : Builtin.reading target s = Builtin.reading target' s := by
    simp only [Builtin.reading, bind_apply, get_apply, same]
  simp only [carryOut, bind_apply, read]

/-- The call of `__newobj__` creates. -/
theorem callSymbol_newobj (host : Host H) (s : Store H) (number : Nat) (cls : Value)
    (items : List Value) :
    host.callSymbol (.function (.builtin number .newobj)) (cls :: items) s =
      host.create cls items s := by
  have made : s.creation? s.size .newobj (cls :: items) = some (.ok ⟨cls, items, s.size⟩) := rfl
  exact carryOut_congr (Store.forward_of_creation made (.inr ⟨rfl, Nat.lt_succ_self _⟩))

/-- The call of `__newobj_ex__` creates if there are no keyword arguments. -/
theorem callSymbol_newobjEx (tuple : s.tuple? positional = some items)
    (older : ∀ i, positional = .ref i → ∀ j, .ref j ∈ items → j < i)
    (without : (s.dict? keywords).any (·.size = 0) = true) :
    host.callSymbol (.function (.builtin number .newobjEx)) [cls, positional, keywords] s =
      host.create cls items s := by
  refine carryOut_congr ?_
  have made : s.creation? s.size .newobjEx [cls, positional, keywords] =
      some (.ok ⟨cls, items, positional.identity?.getD 0⟩) := by
    rw [Store.creation?_newobjEx, Store.checkKeywords_eq, if_pos without, tuple]
  have within : ∀ i, positional = .ref i → i < s.size := by
    rintro i rfl
    exact Store.lt_size_of_tuple? tuple
  refine (Store.forward_of_creation made
    (Store.smaller_of_tuple? within tuple (Nat.succ_pos _))).trans ?_
  -- the items are older than their tuple, so the age of the tuple is as good as that of the store
  have same (callable : Callable) : s.forward (positional.identity?.getD 0) callable items =
      s.forward s.size callable items := by
    refine Store.forward_congr callable items fun j mem => ?_
    cases positional with
    | ref i => exact ⟨older i rfl j mem, Nat.lt_trans (older i rfl j mem) (within i rfl)⟩
    | emptyTuple =>
      cases tuple
      cases mem
    | _ => cases tuple
  rw [Store.creationFrom, Store.creationTarget]
  cases s.creator cls with
  | error text => rfl
  | ok symbol =>
    cases symbol with
    | ofClass c => rfl
    | function callable => exact same callable

/-- With anything but an empty dictionary in their place the call fails. -/
theorem callSymbol_newobjEx_refused (tuple : s.tuple? positional = some items)
    (given : ¬(s.dict? keywords).any (·.size = 0) = true) :
    host.callSymbol (.function (.builtin number .newobjEx)) [cls, positional, keywords] s =
      .error (.failed "keyword arguments are not supported") s := by
  have made : s.creation? s.size .newobjEx [cls, positional, keywords] =
      some (.error "keyword arguments are not supported") := by
    rw [Store.creation?_newobjEx, Store.checkKeywords_eq, if_neg given, tuple]
  have target : s.callTarget (.function (.builtin number .newobjEx)) [cls, positional, keywords] =
      .error "keyword arguments are not supported" := Store.forward_of_failure made
  simp only [callSymbol, carryOut, Builtin.reading, bind_apply, get_apply, target]
  rfl

end Host

/-! ## Instructions -/

namespace Decoder

/-- The decoder with further values on its stack. -/
def State.offering (st : State H) (vs : List Value) : State H :=
  { st with stack := vs.foldl Array.push st.stack }

/-- What an instruction leaves on the stack, and the objects; nothing if it fails. -/
def outcome : EStateM.Result Error (State H) Unit → Option (List Value × Store H)
  | .ok _ st => some (st.stack.toList, st.store)
  | .error _ _ => none

variable {cfg : Config H} {st : State H}

omit [HostObject H] in
theorem pop_offering (st : State H) (op : Opcode) (v : Value) :
    pop op (st.offering [v]) = .ok v st := by
  simp only [State.offering, List.foldl_cons, List.foldl_nil]
  simp only [pop, bind_apply, get_apply, Array.back?_push, modify_apply, pure_apply, Array.pop_push]

omit [HostObject H] in
theorem tupleItems_ok {op : Opcode} {args : Value} {items : List Value}
    (tuple : st.store.tuple? args = some items) : tupleItems op args st = .ok items st := by
  simp only [tupleItems, bind_apply, get_apply, tuple]
  rfl

/-- What an action of the host leaves, if there is room for its value. -/
def acted (cfg : Config H) (st : State H) (action : Action H Value) : Option (List Value × Store H) :=
  match action st.store with
  | .ok v s => if st.height < cfg.limits.maxStack then some (st.stack.toList ++ [v], s) else none
  | .error _ _ => none

omit [HostObject H] in
theorem outcome_push (v : Value) : outcome (push cfg v st) =
    if st.height < cfg.limits.maxStack then some (st.stack.toList ++ [v], st.store) else none := by
  simp only [push, bind_apply, get_apply]
  by_cases full : cfg.limits.maxStack ≤ st.height
  · rw [if_pos full, if_neg (Nat.not_lt.2 full)]
    rfl
  · rw [if_neg full, if_pos (Nat.not_le.1 full)]
    simp [outcome, modify_apply]

/-- A call that is reported leaves what the action does, whatever it is named after. -/
theorem outcome_called {x : Decode H Value} {label : String} {callee : Value} {action : Action H Value}
    (run : x st = (reported label action >>= called callee) st) :
    outcome ((x >>= push cfg) st) = acted cfg st action := by
  simp only [bind_apply, run, reported, enterCall, exitCall, hosted, modify_apply, acted]
  cases action st.store with
  | ok v s => exact outcome_push v
  | error e s => cases e <;> rfl

/-! ## The spellings -/

variable {f args cls positional keywords : Value} {items : List Value} {g : Global} {symbol : Symbol}

theorem outcome_reduce (global : st.store.global? f = some g) (bound : g.symbol = some symbol)
    (tuple : st.store.tuple? args = some items) :
    outcome (execute cfg .reduce () (st.offering [f, args])) =
      acted cfg st (cfg.host.callSymbol symbol items) := by
  have first : pop .reduce (st.offering [f, args]) = .ok args (st.offering [f]) :=
    pop_offering (st.offering [f]) ..
  have run : call cfg .reduce f items st =
      (reported g.qualname (cfg.host.callSymbol symbol items) >>= called f) st := by
    simp only [call, bind_apply, get_apply, global, bound]
  simp only [execute, dispatch, bind_ok first, bind_ok (pop_offering ..), bind_ok (tupleItems_ok tuple)]
  exact outcome_called run

theorem outcome_instantiate : outcome ((instantiate cfg cls items >>= push cfg) st) =
    acted cfg st (cfg.host.create cls items) :=
  outcome_called rfl

theorem outcome_newObj (tuple : st.store.tuple? positional = some items) :
    outcome (execute cfg .newObj () (st.offering [cls, positional])) =
      acted cfg st (cfg.host.create cls items) := by
  have first : pop .newObj (st.offering [cls, positional]) = .ok positional (st.offering [cls]) :=
    pop_offering (st.offering [cls]) ..
  simp only [execute, dispatch, bind_ok first, bind_ok (pop_offering ..), bind_ok (tupleItems_ok tuple)]
  exact outcome_instantiate

/-- A class creates whatever the keyword arguments are. -/
theorem outcome_newObjEx (tuple : st.store.tuple? positional = some items) :
    outcome (execute cfg .newObjEx () (st.offering [cls, positional, keywords])) =
      match st.store.dict? keywords with
      | none => none
      | some d =>
        if d.size = 0 ∨ isClass st.store cls = true then acted cfg st (cfg.host.create cls items)
        else none := by
  have first : pop .newObjEx (st.offering [cls, positional, keywords]) =
      .ok keywords (st.offering [cls, positional]) := pop_offering (st.offering [cls, positional]) ..
  have second : pop .newObjEx (st.offering [cls, positional]) = .ok positional (st.offering [cls]) :=
    pop_offering (st.offering [cls]) ..
  simp only [execute, dispatch, bind_ok first, bind_ok second, bind_ok (pop_offering ..),
    bind_ok (tupleItems_ok tuple), bind_apply, get_apply]
  cases st.store.dict? keywords with
  | none => rfl
  | some d =>
    by_cases creates : d.size = 0 ∨ isClass st.store cls = true
    · have plain : (d.size != 0 && !isClass st.store cls) = false := by
        rcases creates with empty | isClass <;> simp [*]
      simp only [plain, if_pos creates, Bool.false_eq_true, if_false]
      exact outcome_instantiate
    · have refused : (d.size != 0 && !isClass st.store cls) = true := by
        rw [not_or] at creates
        simp [*]
      simp only [refused, if_neg creates, if_true]
      rfl

/-- The spellings of the creation of an object by a class or a callable: the call of `__newobj__`,
    `NEWOBJ`, and with keyword arguments the call of `__newobj_ex__` and `NEWOBJ_EX`. Without keyword
    arguments all four have the outcome of the creation. With an empty dictionary they do too; with
    anything else the call fails, and `NEWOBJ_EX` creates only if it is a dictionary and a class takes
    it. -/
theorem newObject_spellings (cfg : Config H) (st : State H) {number : Nat}
    {f f' args args' cls positional keywords : Value} {g g' : Global} {items : List Value}
    (callee : st.store.global? f = some g)
    (creates : g.symbol = some (.function (.builtin number .newobj)))
    (callee' : st.store.global? f' = some g')
    (creates' : g'.symbol = some (.function (.builtin number .newobjEx)))
    (tuple : st.store.tuple? positional = some items)
    (older : ∀ i, positional = .ref i → ∀ j, .ref j ∈ items → j < i)
    (called : st.store.tuple? args = some (cls :: items))
    (called' : st.store.tuple? args' = some [cls, positional, keywords]) :
    let created := acted cfg st (cfg.host.create cls items)
    outcome (execute cfg .reduce () (st.offering [f, args])) = created ∧
      outcome (execute cfg .newObj () (st.offering [cls, positional])) = created ∧
      ((∃ d, st.store.dict? keywords = some d ∧ d.size = 0) →
        outcome (execute cfg .reduce () (st.offering [f', args'])) = created ∧
        outcome (execute cfg .newObjEx () (st.offering [cls, positional, keywords])) = created) ∧
      ((¬∃ d, st.store.dict? keywords = some d ∧ d.size = 0) →
        outcome (execute cfg .reduce () (st.offering [f', args'])) = none ∧
        outcome (execute cfg .newObjEx () (st.offering [cls, positional, keywords])) =
          if (st.store.dict? keywords).isSome ∧ isClass st.store cls = true then created
          else none) := by
  intro created
  have given : ∀ action action' : Action H Value, action st.store = action' st.store →
      acted cfg st action = acted cfg st action' := by
    intro action action' same
    rw [acted, acted, same]
  refine ⟨?_, outcome_newObj tuple, ?_, ?_⟩
  · rw [outcome_reduce callee creates called]
    exact given _ _ (cfg.host.callSymbol_newobj ..)
  · rintro ⟨d, keyed, empty⟩
    have without : (st.store.dict? keywords).any (·.size = 0) = true := by simp [keyed, empty]
    rw [outcome_reduce callee' creates' called', outcome_newObjEx tuple, keyed]
    exact ⟨given _ _ (Host.callSymbol_newobjEx tuple older without), if_pos (.inl empty)⟩
  · intro some
    have with_ : ¬(st.store.dict? keywords).any (·.size = 0) = true := by
      rw [Option.any_eq_true]
      simpa using some
    rw [outcome_reduce callee' creates' called', outcome_newObjEx tuple, acted,
      Host.callSymbol_newobjEx_refused tuple with_]
    refine ⟨rfl, ?_⟩
    cases keyed : st.store.dict? keywords with
    | none => simp
    | some d =>
      have full : d.size ≠ 0 := fun empty => some ⟨d, keyed, empty⟩
      simp [full, created]

omit [HostObject H] in
theorem eq_offering {below vs : List Value} (stack : st.machine.stack = below ++ vs) :
    st = ({ st with stack := below.toArray } : State H).offering vs := by
  have items : st.stack = vs.foldl Array.push below.toArray := by
    rw [← Array.toList_inj, show st.stack.toList = below ++ vs from stack]
    simp
  rw [State.offering, ← items]

/-- A call that is refused fails with the text of the refusal. -/
theorem reduce_refused {name text : String} (named : callName st.store f = name)
    (global : st.store.global? f = some g) (bound : g.symbol = some symbol)
    (tuple : st.store.tuple? args = some items)
    (refused : cfg.host.callSymbol symbol items st.store = .error (.failed text) st.store) :
    ∃ st', execute cfg .reduce () (st.offering [f, args]) =
      .error (.decode (.call name text)) st' := by
  subst named
  have first : pop .reduce (st.offering [f, args]) = .ok args (st.offering [f]) :=
    pop_offering (st.offering [f]) ..
  simp only [execute, dispatch, bind_ok first, bind_ok (pop_offering ..), bind_ok (tupleItems_ok tuple),
    bind_apply, call, get_apply, global, bound, reported, enterCall, exitCall, hosted, modify_apply,
    refused]
  exact ⟨_, rfl⟩

end Decoder

/-! ## No keyword arguments at all -/

open Instruction

/-- A record that is created by a class without arguments, with `None` for the keyword arguments. -/
def bareStore : Store Record :=
  let record : Record :=
    { kind := { type := ⟨"Beta"⟩, conduct := .able }
      recipe := some (.reduction { callable := .ref 0, args := .ref 3 }) }
  ⟨#[.global (.named "copyreg" "__newobj_ex__"), .global (.named "builtins" "object"), .dict .empty,
    .tuple [.ref 1, .emptyTuple, .none], .object record]⟩

/-- The instruction that finds a global by its name. -/
def globalLines (wire : Name) : Instruction :=
  ⟨.global, (Text.utf8 wire.module, Text.utf8 wire.qualname)⟩

/-- The name that old protocols have for the function. -/
def newobjExName : Name := ⟨"copy_reg", "__newobj_ex__"⟩

/-- The name that old protocols have for the class. -/
def baseName : Name := ⟨"__builtin__", "object"⟩

/-- What protocol 1 writes for the function and its arguments. -/
def callOperands : List Instruction :=
  [globalLines newobjExName, ⟨.binPut, (0 : UInt8)⟩, ⟨.mark, ()⟩, globalLines baseName,
    ⟨.binPut, (1 : UInt8)⟩, ⟨.emptyTuple, ()⟩, ⟨.none, ()⟩, ⟨.tuple, ()⟩, ⟨.binPut, (2 : UInt8)⟩]

/-- The whole of what protocol 1 writes for the record. -/
def callStream : List Instruction := callOperands ++ [⟨.reduce, ()⟩, ⟨.binPut, (3 : UInt8)⟩]

/-- What protocol 2 writes for the record: a creation. -/
def creationStream : List Instruction :=
  [⟨.proto, (2 : UInt8)⟩, globalLines baseName, ⟨.binPut, (0 : UInt8)⟩, ⟨.emptyTuple, ()⟩,
    ⟨.newObj, ()⟩, ⟨.binPut, (1 : UInt8)⟩]

namespace Encoder

theorem dumps_callStream : dumps (recorder 1) bareStore (.ref 4) =
    (.ok (allBytes (callStream ++ [⟨.stop, ()⟩])), bareStore) := by
  refine dumps_of_drafts [(.object 4, 3), (.object 3, 2), (.object 1, 1), (.object 0, 0)] callStream
    (by decide) ?_
  refine drafts_new rfl rfl rfl ?_
  refine Drafts.bind (drafts_describe rfl ?_)
  refine drafts_get fun st here => ?_
  simp only [here.store]
  refine Drafts.bind ?_
  -- the function
  refine Drafts.bind (drafts_new rfl rfl rfl ?_)
  refine drafts_global ⟨"copyreg", "__newobj_ex__"⟩
    (Text.utf8 "copy_reg", Text.utf8 "__newobj_ex__") rfl rfl (show 0 < 2 ^ 32 by decide) rfl
    (drafts_emit ?_)
  -- the arguments
  refine Drafts.bind (drafts_new rfl rfl rfl ?_)
  refine Drafts.bind (drafts_emit (Drafts.bind (Drafts.bind (drafts_new rfl rfl rfl ?_))))
  refine drafts_global ⟨"builtins", "object"⟩
    (Text.utf8 "__builtin__", Text.utf8 "object") rfl rfl (show 1 < 2 ^ 32 by decide) rfl
    (drafts_emit ?_)
  refine Drafts.bind (drafts_save rfl (drafts_emit ?_))
  refine Drafts.bind (drafts_save rfl (drafts_emit (Drafts.pure ?_)))
  refine Drafts.bind (drafts_memoized (Drafts.bind (drafts_emit ?_)))
  refine drafts_memoizeAs (by decide) rfl (drafts_emit (drafts_emit ?_))
  refine Drafts.bind (Drafts.bind (drafts_memoized ?_))
  refine drafts_memoizeAs (by decide) rfl (drafts_emit ?_)
  refine Drafts.pure ?_
  rfl

theorem dumps_creationStream : dumps (recorder 2) bareStore (.ref 4) =
    (.ok (allBytes (creationStream ++ [⟨.stop, ()⟩])), bareStore) := by
  refine dumps_of_drafts [(.object 4, 1), (.object 1, 0)] creationStream (by decide) ?_
  refine drafts_new rfl rfl rfl ?_
  refine Drafts.bind (drafts_describe rfl ?_)
  refine drafts_get fun st here => ?_
  simp only [here.store]
  refine Drafts.bind ?_
  -- the class, and no arguments
  refine Drafts.bind (drafts_get fun st here => ?_)
  simp only [here.store]
  refine Drafts.pure (drafts_get fun st here => ?_)
  simp only [here.store]
  refine Drafts.bind (drafts_new rfl rfl rfl ?_)
  refine drafts_global ⟨"builtins", "object"⟩
    (Text.utf8 "__builtin__", Text.utf8 "object") rfl rfl (by decide) rfl (drafts_emit ?_)
  refine Drafts.bind (drafts_save rfl (drafts_emit ?_))
  refine drafts_emit ?_
  refine Drafts.bind (Drafts.bind (drafts_memoized ?_))
  refine drafts_memoizeAs (by decide) rfl (drafts_emit ?_)
  refine Drafts.pure ?_
  rfl

end Encoder

namespace Decoder

/-- A decoder that knows what every registry brings along. -/
def plain : Config Record := { registry := .seeded 0, host := {} }

/-- The function that is called, as it is found. -/
def newobjExGlobal : Global :=
  resolved ⟨"copyreg", "__newobj_ex__"⟩ (.function (.builtin 0 .newobjEx))

/-- The class that is instantiated, as it is found. -/
def objectGlobal : Global := resolved ⟨"builtins", "object"⟩ (.ofClass (.base 0))

theorem stands_newobjEx : Stands plain 0 newobjExName newobjExGlobal := by
  obtain ⟨bound, unregistered⟩ := Registry.intact_seeded 0 ⟨"copyreg", "__newobj_ex__"⟩
    (.function (.builtin 0 .newobjEx)) (List.mem_of_getElem? (i := 12) rfl)
  have finds : Finds plain 0 newobjExName ⟨"copyreg", "__newobj_ex__"⟩
    (.function (.builtin 0 .newobjEx)) := ⟨by decide, unregistered, bound⟩
  exact finds.stands

theorem stands_object {protocol : Nat} (early : protocol < 3) :
    Stands plain protocol baseName objectGlobal := by
  obtain ⟨bound, unregistered⟩ := Registry.intact_seeded 0 ⟨"builtins", "object"⟩
    (.ofClass (.base 0)) (List.mem_cons_self ..)
  have finds : Finds plain protocol baseName ⟨"builtins", "object"⟩
    (.ofClass (.base 0)) := ⟨by rw [decide_eq_true early]; decide, unregistered, bound⟩
  exact finds.stands

theorem leads_callOperands : Leads plain True callOperands ⟨Store.empty, ∅, [], [], 0⟩ fun m =>
    m.stack = [.ref 0, .ref 2] ∧ m.store = ⟨#[.global newobjExGlobal, .global objectGlobal,
      .tuple [.ref 1, .emptyTuple, .none]]⟩ := by
  refine Leads.cons (leads_global stands_newobjEx (by decide) ?_)
  refine Leads.cons (leads_remember (.of trivial rfl) (fun _ _ => rfl) rfl ?_)
  refine Leads.cons (leads_mark ?_)
  refine Leads.cons (leads_global (stands_object (by decide)) (by decide) ?_)
  refine Leads.cons (leads_remember (.of trivial rfl) (fun _ _ => rfl)
    (show _ = [] ++ [.ref 1] from rfl) ?_)
  refine Leads.cons (leads_push (.of trivial rfl) rfl ?_)
  refine Leads.cons (leads_push (.of trivial rfl) rfl ?_)
  refine Leads.cons (leads_tuple rfl rfl ?_)
  refine leads_remember (.of trivial rfl) (fun _ _ => rfl)
    (show _ = [.ref 0] ++ [.ref 2] from rfl) ?_
  exact ⟨rfl, rfl⟩

theorem leads_creationStream : Leads plain True creationStream ⟨Store.empty, ∅, [], [], 0⟩ fun m =>
    m.stack = [.ref 1] ∧ m.store = ⟨#[.global objectGlobal, .inst (.base 0) .empty]⟩ := by
  refine Leads.cons (leads_proto (by decide) ?_)
  refine Leads.cons (leads_global (stands_object (show 2 < 3 by decide)) (by decide) ?_)
  refine Leads.cons (leads_remember (.of trivial rfl) (fun _ _ => rfl)
    (show _ = [] ++ [.ref 0] from rfl) ?_)
  refine Leads.cons (leads_push (.of trivial rfl) rfl ?_)
  refine Leads.cons (leads_newObj rfl rfl rfl ?_)
  refine leads_remember (.of trivial rfl) (fun _ _ => rfl)
    (show _ = [] ++ [.ref 1] from rfl) ?_
  exact ⟨rfl, rfl⟩

/-- The instance is handed back. -/
theorem loads_creationStream :
    ∃ s, loads plain Store.empty (allBytes (creationStream ++ [⟨.stop, ()⟩])) = (.ok (.ref 1), s) ∧
      s.instance? (.ref 1) = some (.base 0, .empty) := by
  rcases loads_of_leads (Q := fun v m => v = .ref 1 ∧ m.store = _)
    (Spells.all (creationStream ++ [⟨.stop, ()⟩])) (by decide) (by decide) (by decide) (by decide)
    (leads_creationStream.mono fun m h => ⟨[], .ref 1, h.1, rfl, h.2⟩) with
    ⟨v, m, run, rfl, store⟩ | ⟨partly, -⟩
  · exact ⟨m.store, run, by rw [store]; rfl⟩
  · exact (partly trivial).elim

/-- The call is refused. -/
theorem loads_callStream :
    ∃ s, loads plain Store.empty (allBytes (callStream ++ [⟨.stop, ()⟩])) =
      (.error (.decode (.call "copyreg.__newobj_ex__" "keyword arguments are not supported")), s) := by
  have spelled : Spells (callOperands ++ ⟨.reduce, ()⟩ :: ([⟨.binPut, (3 : UInt8)⟩] ++ [⟨.stop, ()⟩]))
      (allBytes (callStream ++ [⟨.stop, ()⟩])) := Spells.all (callStream ++ [⟨.stop, ()⟩])
  obtain ⟨m, ⟨stack, store⟩, -, fails⟩ := loads_behind spelled (by decide) (by decide) (by decide)
    (by decide) leads_callOperands
  have refused : ∀ st : State Record, st.machine = m → st.Counted → ∃ e st',
      execute plain .reduce () st = .error e st' ∧
        e = .decode (.call "copyreg.__newobj_ex__" "keyword arguments are not supported") := by
    intro st here _
    let lower : State Record := { st with stack := #[] }
    have store : lower.store = ⟨#[.global newobjExGlobal, .global objectGlobal,
      .tuple [.ref 1, .emptyTuple, .none]]⟩ := (congrArg Machine.store here).trans store
    have pushed : st = lower.offering [.ref 0, .ref 2] :=
      eq_offering (show st.machine.stack = [] ++ [.ref 0, .ref 2] from here ▸ stack)
    have refused : plain.host.callSymbol (.function (.builtin 0 .newobjEx))
        [.ref 1, .emptyTuple, .none] lower.store = _ := Host.callSymbol_newobjEx_refused rfl nofun
    have named : callName lower.store (.ref 0) = "copyreg.__newobj_ex__" := by
      rw [store]
      decide
    have global : lower.store.global? (.ref 0) = some newobjExGlobal := by rw [store]; rfl
    have tuple : lower.store.tuple? (.ref 2) = some [.ref 1, .emptyTuple, .none] := by rw [store]; rfl
    obtain ⟨st', failed⟩ := reduce_refused named global rfl tuple refused
    rw [pushed]
    exact ⟨_, st', failed, rfl⟩
  obtain ⟨_, s, run, rfl⟩ := fails _ (.of trivial rfl) refused
  exact ⟨s, run⟩

/-- Both protocols write the record. The call is refused, and the creation makes an instance. -/
theorem loads_dumps_none :
    ∃ bytes bytes' s s',
      Encoder.dumps (Encoder.recorder 1) bareStore (.ref 4) = (.ok bytes, bareStore) ∧
      Encoder.dumps (Encoder.recorder 2) bareStore (.ref 4) = (.ok bytes', bareStore) ∧
      loads plain Store.empty bytes =
        (.error (.decode (.call "copyreg.__newobj_ex__" "keyword arguments are not supported")), s) ∧
      loads plain Store.empty bytes' = (.ok (.ref 1), s') ∧
      s'.instance? (.ref 1) = some (.base 0, .empty) := by
  obtain ⟨s, refused⟩ := loads_callStream
  obtain ⟨s', made, inst⟩ := loads_creationStream
  exact ⟨_, _, s, s', Encoder.dumps_callStream, Encoder.dumps_creationStream, refused, made,
    inst⟩

end Decoder

end ObjectStream
