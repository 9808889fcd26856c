import ObjectStream.Proofs.Naming
import ObjectStream.Proofs.Saving

/-!
Objects that are carried by a call.

The earlier protocols have no instruction for byte strings, byte arrays, sets, frozen sets and complex
numbers. These are written as the call of a constructor: its name, a tuple of arguments that the
encoder makes for the purpose, and the instruction that calls. What the decoder builds by the call
is a copy of what was written.
-/

namespace ObjectStream

open Decoder (Machine Leads After Acts resolved)
open Encoder

variable {H : Type}

namespace Encoder

variable {cfg : Config H} {save : Value → Encode H Unit} {st st' : State H}
  {module qualname : String} {args : List Value}

theorem allocTuple_ok {v : Value} (make : allocTuple args st = .ok v st') :
    st.store.Grown st'.store ∧ st'.memo = st.memo ∧ Silent st st' ∧
      st'.store.tuple? v = some args := by
  cases args with
  | nil =>
    cases make
    exact ⟨.refl _, rfl, .refl _, rfl⟩
  | cons a args =>
    cases make
    exact ⟨.push _ _, rfl, ⟨rfl, rfl, rfl⟩, Store.tuple?_of_cell (Store.cell_push_last ..)⟩

/-- The call of a global that is no object creation is written as it is. -/
theorem saveCall_named {f a : Value}
    (plain : qualname ≠ "__newobj_ex__" ∧ qualname ≠ "__newobj__") :
    saveCall cfg save f (.named module qualname) a args = (do
      save f
      save a
      emit .reduce ()) := by
  have first : (decide (2 ≤ cfg.protocol.val) && qualname == "__newobj_ex__") = false := by
    simp [plain.1]
  have second : (decide (2 ≤ cfg.protocol.val) && qualname == "__newobj__") = false := by
    simp [plain.2]
  have none : reconstructorOf cfg (.named module qualname) = none := rfl
  simp only [Global.named] at none
  simp only [saveCall, Global.named, first, second, none]
  rfl

/-- The name and the arguments are written, and the object that is built may be remembered. -/
theorem saveNamedCall_eq {obj : Option Value}
    (plain : qualname ≠ "__newobj_ex__" ∧ qualname ≠ "__newobj__") :
    saveNamedCall cfg save module qualname args obj = (do
      let f ← allocNamed module qualname
      let a ← allocTuple args
      save f
      save a
      emit .reduce ()
      match obj with
      | some v => memoizeBuilt cfg v
      | none => pure ()) := by
  funext st
  have named : allocNamed module qualname st = .ok (.ref st.store.size)
    { st with store := st.store.push (.global (.named module qualname)) } := rfl
  rw [saveNamedCall, bind_ok named, bind_ok named, bind_apply, bind_apply]
  cases make : allocTuple args
      { st with store := st.store.push (.global (.named module qualname)) } with
  | error e st' => rfl
  | ok a st' =>
    obtain ⟨grown, -, -, tuple⟩ := allocTuple_ok make
    have found := grown st.store.size _ (Store.cell_push_last ..)
    have global := Store.global?_of_cell found
    simp only [saveReduction, bind_ok (get_apply st'), global, tuple, saveCall_named plain, bind_assoc]
    cases obj with
    | none => rfl
    | some v => simp only [bind_pure_unit]

end Encoder

variable [HostObject H]

namespace Trip

/-- What the walk does for the values that it meets inside of an object. -/
structure Saver (x : Trip H) (save : Value → Encode H Unit) : Prop where
  carrier : x.Carrier save
  names : ∀ {i : Nat} {g : Global} {name : Name} {symbol : Symbol} {st st' : Encoder.State H},
    save (.ref i) st = .ok () st' → x.NamesAt st.store i g name symbol →
    x.Names st st' [i] (resolved name symbol)
  operand : ∀ {v : Value} {st st' : Encoder.State H}, save v st = .ok () st' →
    x.Operand st.store v → x.Carries st st' [v]
  arguments : ∀ {i : Nat} {items : List Value} {st st' : Encoder.State H},
    save (.ref i) st = .ok () st' → st.store.cells[i]? = some (.tuple items) → items ≠ [] →
    (∀ v ∈ items, x.Operand st.store v) → x.Carries st st' [.ref i]
  emptyTuple : ∀ {st st' : Encoder.State H}, save .emptyTuple st = .ok () st' →
    x.Emits st st' fun m Q => Q (m.push .emptyTuple)

variable {x : Trip H} {st st₀ st₁ st₂ st₃ st' : Encoder.State H} {save : Value → Encode H Unit}
  {module qualname : String} {symbol : Symbol} {args ws : List Value} {v : Value} {i : Nat}
  {cell cell' : Cell H} {m m' : Machine H} {busy : List Nat}

/-- An object without keys is sound if what it holds is older. -/
theorem soundCell_of_keyless (plain : cell.Plain x.classes) (older : cell.Older i)
    (keys : cell.keys = []) (files : cell.Files []) : x.SoundCell i cell where
  plain := plain
  older := older
  orderly := by
    refine ⟨?_, ?_, ?_⟩
    · rw [keys]; exact nofun
    · rw [keys]; exact files
    · rw [keys]; exact .nil
  closed := by rw [keys]; exact nofun
  apart := by rw [keys]; exact nofun

/-! ## Arguments -/

/-- A tuple of arguments that the encoder makes for a call is taken over as their copies. -/
theorem arguments_perform (saver : x.Saver save)
    (make : allocTuple args st = .ok v st₁) (sound : ∀ a ∈ args, x.Sound st.store a)
    (sent : Further st₁ st₂) (h : save v st₂ = .ok () st₃) :
    Further st₂ st₃ ∧ x.Performs st₂ st₃ fun m Q => ∃ busy, x.Linked st₂ m busy ∧
      (∀ b ∈ busy, b < st.store.size) ∧ (∀ a ∈ args, x.Clear st₂.store busy a) ∧
      ∀ m' w ws, x.Linked st₃ m' busy → After none m m' → m'.stack = m.stack ++ [w] →
        m'.store.tuple? w = some ws →
        List.Forall₂ (Match (Link st₃.memo m'.memo)) args ws → Q m' := by
  cases args with
  | nil =>
    cases make
    have emits := saver.emptyTuple h
    refine ⟨emits.sent, emits.performs.mono fun m Q ⟨busy, linked, _, _, q⟩ => ?_⟩
    exact q _ .emptyTuple [] (linked.congr emits.store emits.memo rfl rfl rfl) (.of_eq rfl rfl rfl)
      rfl rfl .nil
  | cons a args =>
    have made : st₁.store = st.store.push (.tuple (a :: args)) ∧ v = .ref st.store.size := by
      cases make
      exact ⟨rfl, rfl⟩
    obtain ⟨store, rfl⟩ := made
    have grown : st.store.Grown st₂.store := by
      refine .trans ?_ sent.store
      rw [store]
      exact .push _ _
    have found : st₂.store.cells[st.store.size]? = some (.tuple (a :: args)) := by
      refine sent.store _ _ ?_
      rw [store]
      exact Store.cell_push_last ..
    have later := Nat.le_trans (sound a (List.mem_cons_self ..)).later grown.size_le
    have plain : (Cell.tuple (H := H) (a :: args)).Plain x.classes :=
      show a :: args ≠ [] from List.cons_ne_nil a args
    have tuple : x.SoundCell st.store.size (.tuple (a :: args)) :=
      soundCell_of_keyless plain (fun j mem => (sound _ mem).closed j .self) rfl trivial
    have carries := saver.carrier _ st₂ st₃ h
      (.of_cell later found tuple fun u mem => (sound u mem).grown grown)
    refine ⟨carries.sent, carries.performs.mono ?_⟩
    rintro m Q ⟨busy, linked, known, clear, q⟩
    refine ⟨busy, linked, fun u mem => ?_, fun m' ws pushed => ?_⟩
    · rw [List.mem_singleton.1 mem]
      exact .of_cell found nofun clear
    · obtain ⟨j, link, rfl⟩ : ∃ j, Link st₃.memo m'.memo st.store.size j ∧ ws = [.ref j] := by
        cases pushed.same with
        | cons head tail =>
          cases head with
          | ref link => cases tail; exact ⟨_, link, rfl⟩
      have free : st.store.size ∉ busy := fun mem => Nat.lt_irrefl _ (known _ mem)
      obtain ⟨cell', here, same, -⟩ :=
        pushed.linked.copied link free (carries.sent.store _ _ found) plain
      cases same with
      | @tuple _ ws items =>
        exact q m' (.ref j) ws pushed.linked pushed.after pushed.stack (Store.tuple?_of_cell here) items

/-! ## Calls -/

/-- What was written between the two states calls the symbol with copies of the arguments. -/
structure Calls (x : Trip H) (symbol : Symbol) (args : List Value) (st st' : Encoder.State H) :
    Prop where
  sent : Further st st'
  performs : x.Performs st st' fun m Q => ∃ busy, x.Linked st m busy ∧
    (∀ a ∈ args, x.Clear st.store busy a) ∧
    ∀ m' ws, x.Gathered st' busy m m' args ws →
      Acts x.total (x.decoder.host.callSymbol symbol ws) m'.store fun v store =>
        Q ((m'.withStore store).push v)

/-- A name is called with arguments that the encoder makes. -/
theorem saveNamedCall_calls {obj : Option Value} (saver : x.Saver save)
    (known : x.Known ⟨module, qualname⟩ symbol)
    (plain : qualname ≠ "__newobj_ex__" ∧ qualname ≠ "__newobj__")
    (sound : ∀ a ∈ args, x.Sound st.store a)
    (h : saveNamedCall x.encoder save module qualname args obj st = .ok () st') :
    ∃ st₁, x.Calls symbol args st st₁ ∧
      (match obj with
        | some v => memoizeBuilt x.encoder v
        | none => pure ()) st₁ = .ok () st' := by
  rw [saveNamedCall_eq plain] at h
  obtain ⟨f, st₁, named, h⟩ := bind_eq_ok h
  obtain ⟨made, rfl⟩ : st₁ = { st with store := st.store.push (.global (.named module qualname)) } ∧
      f = .ref st.store.size := by
    cases named
    exact ⟨rfl, rfl⟩
  obtain ⟨a, st₂, make, h⟩ := bind_eq_ok h
  have grown : st.store.Grown st₁.store := by
    rw [made]
    exact .push _ _
  obtain ⟨grown', memo, silent, -⟩ := allocTuple_ok make
  have found : st₂.store.cells[st.store.size]? = some (.global (.named module qualname)) := by
    refine grown' _ _ ?_
    rw [made]
    exact Store.cell_push_last ..
  obtain ⟨_, st₃, saved, h⟩ := bind_eq_ok h
  obtain ⟨_, st₄, saved', h⟩ := bind_eq_ok h
  obtain ⟨_, st₅, reduce, rest⟩ := bind_eq_ok h
  have names := saver.names saved ⟨found, x.meets_named .., rfl, known⟩
  obtain ⟨sent', performs⟩ := arguments_perform saver make (fun a mem => (sound a mem).grown grown)
    names.sent saved'
  have reduced : x.Emits st₄ st₅ fun m Q => Leads x.decoder x.total [⟨.reduce, ()⟩] m Q :=
    .of_emitted (emit_ok reduce) fun _ _ h => h
  have memo : st₂.memo = st.memo := by rw [memo, made]
  have silent : Silent st st₂ := .trans (made ▸ ⟨rfl, rfl, rfl⟩) silent
  have begun : Further st st₂ := ⟨grown.trans grown', fun _ _ here => by rw [memo]; exact here⟩
  refine ⟨st₅, ⟨begun.trans (names.sent.trans (sent'.trans reduced.sent)), ?_⟩, rest⟩
  refine ((Performs.of_silent silent).trans (names.performs.trans
    (performs.trans reduced.performs))).mono ?_
  rintro m Q ⟨busy, linked, clear, q⟩
  refine ⟨busy, linked.alloc begun.store memo, fun i mem => ?_, fun m' j linked' after stack here => ?_⟩
  · rw [List.mem_singleton.1 mem, memo]
    exact linked.unmet (Nat.le_refl _)
  refine ⟨busy, linked', fun b mem => ?_, fun a mem => ?_,
    fun m'' w ws linked'' after' stack' items same => ?_⟩
  · exact Nat.lt_of_lt_of_le (linked.busy_lt mem) grown.size_le
  · exact (clear a mem).grown (sound a mem).closed (begun.trans names.sent).store
  have global := Store.global?_of_cell (after'.cell here)
  have stack'' : m''.stack = m.stack ++ [.ref j] ++ [w] := by rw [stack', stack]
  refine Decoder.leads_reduce stack'' items global rfl
    (q (m''.withStack m.stack) ws ⟨?_, ?_, rfl, ?_⟩)
  · exact linked''.congr reduced.store reduced.memo rfl rfl rfl
  · exact (after.trans after').trans (.of_eq rfl rfl rfl)
  · rw [reduced.memo]
    exact same

/-! ## Constructors -/

section
variable {host : Host H} {s : Store H} {number : Nat} {f : Builtin} {ns : Option Namespace}

/-- A constructor is run as it is. -/
theorem callSymbol_builtin (plain : ∀ age, s.creation? age f ws = none) :
    host.callSymbol (.function (.builtin number f)) ws s =
      f.run (host.namespaceOf number) ws s := by
  have target : s.callTarget (.function (.builtin number f)) ws = .ok (.run (.builtin number f) ws) := by
    rw [Store.callTarget, Store.forward]
    simp only [plain]
  simp only [Host.callSymbol, Host.carryOut, Builtin.reading, bind_apply, get_apply, target,
    pure_apply]

theorem run_complex (re im : Double) :
    Builtin.complex.run ns [.float re, .float im] s = .ok (.complex re im) s := rfl

theorem run_bytes : Builtin.bytes.run ns [] s = .ok (.bytes []) s := rfl

theorem run_encode (bs : Bytes) :
    Builtin.encode.run ns [.str (Encoding.ofLatin1 bs), .str "latin1"] s = .ok (.bytes bs) s := by
  have encoding : Store.encodingOf (.str "latin1") = .ok .latin1 := by rfl
  have run : Store.encodeArguments [.str (Encoding.ofLatin1 bs), .str "latin1"] = .ok bs := by
    change (Store.encodingOf (.str "latin1") >>= fun encoding =>
      Store.encoded encoding (Encoding.ofLatin1 bs)) = .ok bs
    rw [encoding]
    change (Encoding.encode .latin1 (Encoding.ofLatin1 bs)).mapError _ = .ok bs
    rw [Encoding.encode_ofLatin1]
    rfl
  simp only [Builtin.run, Builtin.reading, bind_apply, get_apply, run, pure_apply]

theorem run_bytearray_nil :
    Builtin.bytearray.run ns [] s = .ok (.ref s.size) (s.push (.bytearray [])) := rfl

theorem run_bytearray (data : Bytes) :
    Builtin.bytearray.run ns [.bytes data] s = .ok (.ref s.size) (s.push (.bytearray data)) := rfl

/-- The two kinds of sets, with their constructors and the names of these. -/
inductive SetKind : (Members → Cell H) → Builtin → String → Prop
  | set : SetKind .set .set "set"
  | frozenset : SetKind .frozenset .frozenset "frozenset"

variable {make : Members → Cell H} {members : Members}

theorem run_members {j : Nat} {items : Array Value} (kind : SetKind make f qualname)
    (list : s.cells[j]? = some (.list items)) :
    f.run ns [.ref j] s = match s.membersOf items.toList with
      | .ok t => .ok (.ref s.size) (s.push (make t))
      | .error e => .error (.ofKey e) s := by
  have elements : s.optionalElements [.ref j] = .ok items.toList := by
    change s.elements (.ref j) = _
    simp only [Store.elements, Store.cell?, list]
  cases kind with
  | set =>
    simp only [Builtin.run, Builtin.reading, Builtin.keying, bind_apply, get_apply, elements,
      pure_apply]
    cases s.membersOf items.toList <;> rfl
  | frozenset =>
    simp only [Builtin.run, Builtin.reading, Builtin.keying, bind_apply, get_apply, elements,
      pure_apply]
    cases s.membersOf items.toList <;> rfl

end

/-! ## Built objects -/

/-- The built object gets its memo id, or is dropped if its arguments have written it already. -/
theorem memoizeBuilt_carries
    (creates : x.Creates st st₁ [.ref i] fun R store j => x.Copied R store j cell)
    (found : st.store.cells[i]? = some cell)
    (h : memoizeBuilt x.encoder (.ref i) st₁ = .ok () st') : x.Carries st st' [.ref i] := by
  rcases memoized_cases h with ⟨id, known, h⟩ | ⟨new, memo⟩
  · obtain ⟨_, st₂, pop, fetch⟩ := bind_eq_ok h
    exact creates.again (fun v => List.mem_singleton.1) pop fetch known
  · exact creates.memoized (fun v => List.mem_singleton.1) new (creates.sent.store i _ found) memo

section
variable {number : Nat} {f : Builtin} {make : Members → Cell H} {members : Members}

/-- The constructor of a set is called with a list of the members, and makes a copy of the set. -/
theorem members_creates (kind : SetKind make f qualname)
    (found : st.store.cells[i]? = some (make members)) (sound : x.Sound st.store (.ref i))
    (store : st₁.store = st.store.push (.list members.keys.toArray)) (memo : st₁.memo = st.memo)
    (silent : Silent st st₁)
    (calls : x.Calls (.function (.builtin number f)) [.ref st.store.size] st₁ st₂) :
    x.Creates st st₂ [.ref i] fun R store j => x.Copied R store j (make members) := by
  have grown : st.store.Grown st₁.store := by
    rw [store]
    exact .push _ _
  have list : st₁.store.cells[st.store.size]? = some (.list members.keys.toArray) := by
    rw [store]
    exact Store.cell_push_last ..
  have children : ∀ v ∈ members.keys, v ∈ (make members).children := by
    intro v mem
    cases kind <;> exact Cell.mem_children.2 (.inl mem)
  have keys : (make members).keys = members.keys := by cases kind <;> rfl
  have sent : Further st st₂ := .trans ⟨grown, fun _ _ here => by rw [memo]; exact here⟩ calls.sent
  refine ⟨sent, ((Performs.of_silent silent).trans calls.performs).mono ?_⟩
  rintro m Q ⟨busy, linked, clear, q⟩
  have clear := clear _ (List.mem_singleton.2 rfl)
  refine ⟨busy, linked.alloc grown memo, fun a mem => ?_, fun m' ws gathered => ?_⟩
  · rw [List.mem_singleton.1 mem]
    refine .of_cell list nofun fun v held => ?_
    have held : v ∈ members.keys := by simpa [Cell.children, Cell.keys, Cell.contents] using held
    exact (clear.child found (children v held)).grown (sound.child found (children v held)).closed grown
  obtain ⟨j, link, rfl⟩ : ∃ j, Link st₂.memo m'.memo st.store.size j ∧ ws = [.ref j] := by
    cases gathered.same with
    | cons head tail =>
      cases head with
      | ref link => cases tail; exact ⟨_, link, rfl⟩
  have free : st.store.size ∉ busy := fun mem => Nat.lt_irrefl _ (linked.busy_lt mem)
  obtain ⟨cell', here, same, -⟩ :=
    gathered.linked.copied link free (calls.sent.store _ _ list) trivial
  cases same with
  | @list _ copies items =>
    have usable := (sound.grown sent.store).usable (sent.store i _ found)
      (clear.grown sound.closed sent.store)
    rw [keys] at usable
    rw [Acts, callSymbol_builtin (fun age => by cases kind <;> rfl), run_members kind here]
    rcases membersOf_copy gathered.linked usable items with ⟨t, run, files, same⟩ | ⟨partly, run⟩
    · rw [run]
      refine .inl ⟨_, _, rfl, q _ _ (gathered.created ⟨make t, Store.cell_push_last _ _, ?_, ?_, ?_⟩)⟩
      · cases kind
        · exact .set same
        · exact .frozenset same
      · rw [keys]
        cases kind <;> exact files
      · cases kind <;> exact trivial
    · rw [run]
      exact .inr ⟨partly, _, rfl⟩

/-- A set that is written as a call is carried. -/
theorem membersCall_carries (kind : SetKind make f qualname) (saver : x.Saver save)
    (known : x.Known ⟨"builtins", qualname⟩ (.function (.builtin number f)))
    (found : st.store.cells[i]? = some (make members)) (sound : x.Sound st.store (.ref i))
    (h : (alloc (.list members.keys.toArray) >>= fun items =>
      saveNamedCall x.encoder save "builtins" qualname [items] (some (.ref i))) st = .ok () st') :
    x.Carries st st' [.ref i] := by
  obtain ⟨l, st₁, new, h⟩ := bind_eq_ok h
  obtain ⟨made, rfl⟩ : st₁ = { st with store := st.store.push (.list members.keys.toArray) } ∧
      l = .ref st.store.size := by
    cases new
    exact ⟨rfl, rfl⟩
  have store : st₁.store = st.store.push (.list members.keys.toArray) := by rw [made]
  have list : x.Sound st₁.store (.ref st.store.size) := by
    rw [store]
    have grown := Store.Grown.push st.store (.list members.keys.toArray)
    refine .of_cell (Nat.le_trans sound.later grown.size_le) (Store.cell_push_last ..)
      (soundCell_of_keyless trivial trivial rfl trivial) ?_
    intro v held
    have held : v ∈ members.keys := by simpa [Cell.children, Cell.keys, Cell.contents] using held
    refine (sound.child found ?_).grown grown
    cases kind <;> exact Cell.mem_children.2 (.inl held)
  have plain : qualname ≠ "__newobj_ex__" ∧ qualname ≠ "__newobj__" := by
    cases kind <;> exact ⟨by decide, by decide⟩
  obtain ⟨st₂, calls, built⟩ := saveNamedCall_calls saver known plain
    (fun a mem => List.mem_singleton.1 mem ▸ list) h
  have creates := members_creates kind found sound store (by rw [made]) (made ▸ ⟨rfl, rfl, rfl⟩) calls
  exact memoizeBuilt_carries creates found built

end

/-! ## Values without identity -/

/-- A call that makes a value which is no object. -/
theorem Calls.carries (calls : x.Calls symbol args st st') (atoms : ∀ a ∈ args, ∀ i, a ≠ .ref i)
    (run : ∀ (R : Nat → Nat → Prop) ws (s : Store H), List.Forall₂ (Match R) args ws →
      ∃ w, x.decoder.host.callSymbol symbol ws s = .ok w s ∧ ∀ R, Match R v w) :
    x.Carries st st' [v] := by
  refine ⟨calls.sent, calls.performs.mono ?_⟩
  rintro m Q ⟨busy, linked, -, q⟩
  refine ⟨busy, linked, fun a mem => .of_atom (atoms a mem), fun m' ws gathered => ?_⟩
  obtain ⟨w, run, same⟩ := run _ ws m'.store gathered.same
  refine .inl ⟨w, m'.store, run, q _ [w] ⟨gathered.linked.congr rfl rfl rfl rfl rfl, ?_, ?_, ?_⟩⟩
  · exact gathered.after.trans (.of_eq rfl rfl rfl)
  · rw [← gathered.stack]
    rfl
  · exact .cons (same _) .nil

/-- A call that makes a new object. -/
theorem Calls.creates {P : (Nat → Nat → Prop) → Store H → Nat → Prop} {vs : List Value}
    (calls : x.Calls symbol args st st') (atoms : ∀ a ∈ args, ∀ i, a ≠ .ref i)
    (run : ∀ (R : Nat → Nat → Prop) ws (s : Store H), List.Forall₂ (Match R) args ws →
      x.decoder.host.callSymbol symbol ws s = .ok (.ref s.size) (s.push cell))
    (made : ∀ R store j, store.cells[j]? = some cell → P R store j) : x.Creates st st' vs P := by
  refine ⟨calls.sent, calls.performs.mono ?_⟩
  rintro m Q ⟨busy, linked, -, q⟩
  refine ⟨busy, linked, fun a mem => .of_atom (atoms a mem), fun m' ws gathered => ?_⟩
  refine .inl ⟨_, _, run _ ws m'.store gathered.same, q _ _ (gathered.created ?_)⟩
  exact made _ _ _ (Store.cell_push_last ..)

section
variable (saver : x.Saver save) (agrees : x.Agrees)
include saver agrees

/-- A complex number is the call of its constructor in every protocol. -/
theorem saveComplex_carries {re im : Double} (sound : x.Sound st.store (.complex re im))
    (h : saveNamedCall x.encoder save "builtins" "complex" [.float re, .float im] none st =
      .ok () st') : x.Carries st st' [.complex re im] := by
  have known := agrees.seeds ⟨"builtins", "complex"⟩ _ (List.mem_of_getElem? (i := 1) rfl)
  have parts : ∀ a ∈ [Value.float re, Value.float im], x.Sound st.store a := by
    intro a mem
    rcases List.mem_pair.1 mem with rfl | rfl
    · exact .of_atom sound.later nofun
    · exact .of_atom sound.later nofun
  obtain ⟨st₁, calls, built⟩ := saveNamedCall_calls saver known ⟨by decide, by decide⟩ parts h
  cases built
  refine calls.carries ?_ fun R ws s same => ?_
  · intro a mem
    rcases List.mem_pair.1 mem with rfl | rfl <;> exact nofun
  · cases same with
    | cons head tail =>
      cases tail with
      | cons head' tail =>
        cases tail
        cases head with
        | float same =>
          cases head' with
          | float same' =>
            exact ⟨_, (callSymbol_builtin fun age => rfl).trans (run_complex _ _), fun R =>
              .complex same same'⟩

/-- Before protocol 3 a byte string is the call of its constructor, or of an encoder of text. -/
theorem saveBytes_carries {bytes : Bytes} (sound : x.Sound st.store (.bytes bytes))
    (h : saveBytes x.encoder save bytes st = .ok () st') :
    x.Carries st st' [.bytes bytes] := by
  rw [saveBytes] at h
  split at h
  · exact carries_atom (saveBinary_writes h) fun R => .bytes bytes
  split at h
  · next empty =>
    have known := agrees.seeds ⟨"builtins", "bytes"⟩ _ (List.mem_of_getElem? (i := 2) rfl)
    have none : ∀ a ∈ ([] : List Value), x.Sound st.store a := fun _ mem => nomatch mem
    obtain ⟨st₁, calls, built⟩ := saveNamedCall_calls saver known ⟨by decide, by decide⟩ none h
    cases built
    refine calls.carries (fun a mem => nomatch mem) fun R ws s same => ?_
    cases same
    rw [List.isEmpty_iff.1 empty]
    exact ⟨_, (callSymbol_builtin fun age => rfl).trans run_bytes, fun R => .bytes []⟩
  · have known := agrees.seeds ⟨"_codecs", "encode"⟩ _ (List.mem_of_getElem? (i := 13) rfl)
    have parts : ∀ a ∈ [Value.str (Encoding.ofLatin1 bytes), Value.str "latin1"],
        x.Sound st.store a := by
      intro a mem
      rcases List.mem_pair.1 mem with rfl | rfl <;> exact .of_atom sound.later nofun
    obtain ⟨st₁, calls, built⟩ := saveNamedCall_calls saver known ⟨by decide, by decide⟩ parts h
    cases built
    refine calls.carries ?_ fun R ws s same => ?_
    · intro a mem
      rcases List.mem_pair.1 mem with rfl | rfl <;> exact nofun
    · cases same with
      | cons head tail =>
        cases tail with
        | cons head' tail =>
          cases tail
          cases head
          cases head'
          exact ⟨_, (callSymbol_builtin fun age => rfl).trans (run_encode bytes), fun R =>
            .bytes bytes⟩

/-- Before protocol 5 a byte array is the call of its constructor. -/
theorem saveByteArray_carries {data : Bytes}
    (found : st.store.cells[i]? = some (.bytearray data))
    (new : st.memo[Identity.object i]? = none) (sound : x.Sound st.store (.ref i))
    (h : saveByteArray x.encoder save (.ref i) data st = .ok () st') :
    x.Carries st st' [.ref i] := by
  have copy : ∀ R (store : Store H) j, store.cells[j]? = some (.bytearray data) →
      x.Copied R store j (.bytearray data) :=
    fun R store j here => ⟨_, here, .bytearray data, trivial, trivial⟩
  rw [saveByteArray] at h
  split at h
  · obtain ⟨_, st₁, make, memo⟩ := bind_eq_ok h
    have made : x.Emits st st₁ fun m Q => Q (m.pushNew (.bytearray data)) :=
      .of_emitted (emitPayload_ok make) fun _ _ q =>
        Decoder.leads_pushNew (.of trivial rfl) rfl q
    have creates := made.creates (fun _ _ _ q => q) copy
    rw [← made.memo] at new
    exact creates.memoized nofun new (creates.sent.store i _ found) memo
  · have known := agrees.seeds ⟨"builtins", "bytearray"⟩ _ (List.mem_of_getElem? (i := 3) rfl)
    simp only at h
    split at h
    · next empty =>
      rw [List.isEmpty_iff.1 empty] at found copy
      have none : ∀ a ∈ ([] : List Value), x.Sound st.store a := fun _ mem => nomatch mem
      obtain ⟨st₁, calls, built⟩ := saveNamedCall_calls saver known ⟨by decide, by decide⟩ none h
      refine memoizeBuilt_carries (calls.creates (fun a mem => nomatch mem) ?_ copy) found built
      intro R ws s same
      cases same
      exact (callSymbol_builtin fun age => rfl).trans run_bytearray_nil
    · have part : ∀ a ∈ [Value.bytes data], x.Sound st.store a := fun a mem =>
        List.mem_singleton.1 mem ▸ .of_atom sound.later nofun
      obtain ⟨st₁, calls, built⟩ := saveNamedCall_calls saver known ⟨by decide, by decide⟩ part h
      have atoms : ∀ a ∈ [Value.bytes data], ∀ i, a ≠ .ref i := fun a mem =>
        List.mem_singleton.1 mem ▸ nofun
      refine memoizeBuilt_carries (calls.creates atoms ?_ copy) found built
      intro R ws s same
      cases same with
      | cons head tail =>
        cases tail
        cases head
        exact (callSymbol_builtin fun age => rfl).trans (run_bytearray data)

end

end Trip

end ObjectStream
