import ObjectStream.Proofs.Creation

/-!
How globals are carried.

A name is written as two texts or lines, or as its extension code, and the first three protocols use
the old spellings. In every form the decoder finds the same symbol (`Trip.Known`).
-/

namespace ObjectStream

open Decoder (Machine Leads After resolved)
open Encoder

variable {H : Type}

namespace Name

/-- The new spelling of a name. -/
def current (n : Name) : Name :=
  ⟨(LegacyName.toCurrent n.module n.qualname).1, (LegacyName.toCurrent n.module n.qualname).2⟩

/-- Both parts of the name are ASCII and fit on lines. -/
def OnLines (n : Name) : Prop := Text.OnLine n.module.toList ∧ Text.OnLine n.qualname.toList

end Name

/-- A name that every protocol can spell. -/
structure Name.Portable (n : Name) : Prop where
  undotted : dottedSplits n.qualname = []
  onLines : n.OnLines ∧ n.legacy.OnLines
  /-- The old spelling is read as the name, and so is the new one. -/
  spelled : n.legacy.current = n ∧ n.current = n

/-- The decoder finds the symbol under the name, whichever way the name was written. -/
structure Trip.Reads (x : Trip H) (name : Name) (symbol : Symbol) : Prop where
  bound : x.decoder.registry.resolve name = .found symbol
  /-- No registered host type goes by the name. -/
  unregistered : x.decoder.registry.decodeGlobal? name = none
  onLines : name.OnLines ∧ name.legacy.OnLines
  /-- The old spelling is read as the name, and so is the new one. -/
  spelled : name.legacy.current = name ∧ name.current = name
  extension : ∀ code, x.encoder.registry.extensionCode? name = some code →
    0 < code ∧ code ≤ maxExtensionCode ∧ x.decoder.registry.extension? code = some name

/-- The symbol is written under the name, and found again by the decoder. -/
structure Trip.Known (x : Trip H) (name : Name) (symbol : Symbol) : Prop where
  bound : x.decoder.registry.resolve name = .found symbol
  /-- No registered host type goes by the name. -/
  unregistered : x.decoder.registry.decodeGlobal? name = none
  portable : name.Portable
  extension : ∀ code, x.encoder.registry.extensionCode? name = some code →
    0 < code ∧ code ≤ maxExtensionCode ∧ x.decoder.registry.extension? code = some name

/-- Both ends are set up alike, know the names that every registry binds, and agree on the classes. -/
structure Trip.Agrees (x : Trip H) : Prop where
  plain : x.encoder.persistentId = none
  imports : x.decoder.fixImports = x.encoder.fixImports
  seeds : ∀ name symbol, (name, symbol) ∈ Registry.seeds x.decoder.registry.number →
    x.Known name symbol
  classes : ∀ c, x.classes c → x.Known ⟨c.module, c.qualname⟩ (.ofClass c)
  /-- The key of a class tells it from every other class. -/
  identity : ∀ c d, x.classes c → x.classes d → d.key = c.key → d = c
  /-- The classes leave the state of their instances to the codec. -/
  hooks : ∀ c, x.classes c → (x.encoder.host.hooks c.key).getState = none ∧
    (x.decoder.host.hooks c.key).setState = none

variable [HostObject H]

namespace Trip

variable {x : Trip H} {st st₁ st' : Encoder.State H} {name : Name} {symbol : Symbol}
  {save : Value → Encode H Unit} {i : Nat} {g : Global} {c : Class}

/-- The object is a global that the decoder finds again as the symbol. -/
structure NamesAt (x : Trip H) (s : Store H) (i : Nat) (g : Global) (name : Name) (symbol : Symbol) :
    Prop where
  found : s.cells[i]? = some (.global g)
  met : x.Meets g
  wire : wireName x.encoder g = .ok name
  known : x.Known name symbol

omit [HostObject H] in
theorem NamesAt.grown {s s' : Store H} (h : x.NamesAt s i g name symbol) (grown : s.Grown s') :
    x.NamesAt s' i g name symbol :=
  { h with found := grown _ _ h.found }

/-- What a call of the first protocols takes: values that can be carried, and globals. -/
inductive Operand (x : Trip H) (s : Store H) : Value → Prop
  | sound {v : Value} (h : x.Sound s v) : Operand x s v
  | global {i : Nat} {g : Global} {name : Name} {symbol : Symbol}
      (early : x.encoder.protocol.val < 2) (h : x.NamesAt s i g name symbol) : Operand x s (.ref i)

namespace Operand

variable {s s' : Store H} {v : Value}

theorem closed (h : x.Operand s v) : s.Closed v := by
  cases h with
  | sound h => exact h.closed
  | global _ h => exact Store.closed_of_cell h.found fun _ held => nomatch held

theorem grown (h : x.Operand s v) (grown : s.Grown s') : x.Operand s' v := by
  cases h with
  | sound h => exact .sound (h.grown grown)
  | global early h => exact .global early (h.grown grown)

end Operand

/-- Pushes the global of a symbol. -/
abbrev Pushes (x : Trip H) (name : Name) (symbol : Symbol) (m : Machine H)
    (Q : Machine H → Prop) : Prop :=
  m.protocol = x.announced ∧ Q (m.pushNew (.global (resolved name symbol)))

omit [HostObject H] in
theorem announced_lt_iff : x.announced < 3 ↔ x.encoder.protocol.val < 3 := by
  unfold announced
  split <;> omega

omit [HostObject H] in
theorem Known.reads (known : x.Known name symbol) : x.Reads name symbol :=
  ⟨known.bound, known.unregistered, known.portable.onLines, known.portable.spelled, known.extension⟩

namespace Reads

section
omit [HostObject H]

theorem finds_lines (reads : x.Reads name symbol)
    (imports : x.decoder.fixImports = x.encoder.fixImports) :
    Decoder.Finds x.decoder x.announced (x.encoder.lineName name) name symbol := by
  refine ⟨?_, reads.unregistered, reads.bound⟩
  rw [imports]
  simp only [announced_lt_iff, Config.lineName]
  split
  · exact congrArg (fun n : Name => (n.module, n.qualname)) reads.spelled.1
  · rfl

theorem finds (reads : x.Reads name symbol) :
    Decoder.Finds x.decoder x.announced name name symbol := by
  refine ⟨?_, reads.unregistered, reads.bound⟩
  split
  · exact congrArg (fun n : Name => (n.module, n.qualname)) reads.spelled.2
  · rfl

theorem lines_onLines (reads : x.Reads name symbol) : (x.encoder.lineName name).OnLines := by
  unfold Config.lineName
  split
  · exact reads.onLines.2
  · exact reads.onLines.1

end

variable {m : Machine H} {Q : Machine H → Prop}

theorem leads_extension {code : Nat} (reads : x.Reads name symbol)
    (found : x.encoder.registry.extensionCode? name = some code) (h : x.Pushes name symbol m Q) :
    Leads x.decoder x.total [extensionInstruction code] m Q := by
  obtain ⟨positive, bound, named⟩ := reads.extension code found
  exact Decoder.leads_extensionInstruction positive bound named (h.1 ▸ reads.finds.stands) h.2

theorem leads_texts (reads : x.Reads name symbol) (h : x.Pushes name symbol m Q) :
    Leads x.decoder x.total [textInstruction x.encoder.protocol name.module,
      textInstruction x.encoder.protocol name.qualname, ⟨.stackGlobal, ()⟩] m Q := by
  refine Leads.cons (Decoder.pushes_textInstruction _ _ _ _ _ ?_)
  refine Leads.cons (Decoder.pushes_textInstruction _ _ _ _ _ ?_)
  have finds : Decoder.Finds x.decoder m.protocol name name symbol := h.1 ▸ reads.finds
  exact Decoder.leads_stackGlobal finds.stands rfl h.2

theorem leads_lines (reads : x.Reads name symbol)
    (imports : x.decoder.fixImports = x.encoder.fixImports) (h : x.Pushes name symbol m Q) :
    Leads x.decoder x.total [⟨.global, x.encoder.lines name⟩] m Q := by
  have lines := reads.lines_onLines
  exact Decoder.leads_global (h.1 ▸ (reads.finds_lines imports).stands)
    ⟨Text.newline_not_mem_utf8 lines.1.unbroken, Text.newline_not_mem_utf8 lines.2.unbroken⟩ h.2

end Reads

/-! ## Names -/

theorem writeGlobal_emits {given : Bool} (known : x.Known name symbol)
    (imports : x.decoder.fixImports = x.encoder.fixImports)
    (h : writeGlobal x.encoder save name st = .ok given st') :
    x.Emits st st' (x.Pushes name symbol) := by
  obtain ⟨code, -, found, -, emitted⟩ | ⟨-, -, emitted⟩ | ⟨-, -, -, emitted⟩ |
    ⟨-, -, _, _, _, dotted, -⟩ := writeGlobal_cases h
  · exact .of_emitted emitted fun _ _ => known.reads.leads_extension found
  · exact .of_emitted emitted fun _ _ => known.reads.leads_texts
  · exact .of_emitted emitted fun _ _ => known.reads.leads_lines imports
  · cases known.portable.undotted.symm.trans dotted

/-- What was written between the two states pushes the global. Of the objects only those in `unmet`,
    which the encoder did not remember before, may be remembered then. -/
structure Names (x : Trip H) (st st' : Encoder.State H) (unmet : List Nat) (g : Global) : Prop where
  sent : Further st st'
  only : ∀ i < st.store.size, i ∉ unmet →
    st'.memo[Identity.object i]? = st.memo[Identity.object i]?
  performs : x.Performs st st' fun m Q => ∃ busy, x.Linked st m busy ∧
    (∀ i ∈ unmet, st.memo[Identity.object i]? = none) ∧
    ∀ m' j, x.Linked st' m' busy → After none m m' → m'.stack = m.stack ++ [.ref j] →
      m'.store.cells[j]? = some (.global g) → Q m'

/-- The global that is pushed is new. -/
theorem Emits.created (h : x.Emits st st' (x.Pushes name symbol)) :
    x.Creates st st' [] fun _ store j => store.cells[j]? = some (.global (resolved name symbol)) :=
  h.creates (fun _ _ protocol q => ⟨protocol, q⟩) fun _ _ _ here => here

theorem Emits.names (h : x.Emits st st' (x.Pushes name symbol)) (unmet : List Nat) :
    x.Names st st' unmet (resolved name symbol) := by
  refine ⟨h.sent, fun i _ _ => by rw [h.memo], h.created.performs.mono ?_⟩
  rintro m Q ⟨busy, linked, -, q⟩
  exact ⟨busy, linked, (fun _ mem => nomatch mem), fun m' j created =>
    q m' j created.linked created.after created.stack created.made⟩

/-- A global that was pushed is remembered. -/
theorem Creates.named {p : Protocol} (named : x.NamesAt st₁.store i g name symbol)
    (creates : x.Creates st st₁ []
      fun _ store j => store.cells[j]? = some (.global (resolved name symbol)))
    (new : st₁.memo[Identity.object i]? = none) (memo : memoize p (.ref i) st₁ = .ok () st') :
    x.Performs st st' fun m Q => ∃ busy, x.Linked st m busy ∧
      ∀ m' j, x.Pushed st' busy m m' [.ref i] [.ref j] →
        m'.store.cells[j]? = some (.global (resolved name symbol)) → Q m' := by
  obtain ⟨room, store, sent, performs⟩ := memoizeAs_ok (x := x) memo
  refine (creates.performs.trans performs).mono ?_
  rintro m Q ⟨busy, linked, q⟩
  refine ⟨busy, linked, (fun _ mem => nomatch mem), fun m' j created => ?_⟩
  have numbers := created.linked.numbers
  refine ⟨numbers.size, m.stack, .ref j, created.stack, ?_⟩
  have opened := created.linked.open_ new room (Store.lt_size_of_cell named.found) created.known
    created.fresh store sent
  have link : Link st'.memo (m'.remember st₁.memo.size (.ref j)).memo i j := by
    rw [sent]
    exact (numbers.link_insert new).2 (.inl ⟨rfl, rfl⟩)
  have closed := opened.close fun j' cell' link' found' => by
    obtain rfl := link.right link'
    rw [store, named.found] at found'
    obtain rfl := Option.some.inj found'
    exact .name named.met named.wire named.known.bound created.made
  exact q _ j ⟨closed, created.after.trans (.remember numbers _), created.stack,
    .cons (.ref link) .nil⟩ created.made

section
variable (named : x.NamesAt st.store i g name symbol)
  (imports : x.decoder.fixImports = x.encoder.fixImports)
  (new : st.memo[Identity.object i]? = none)
  (h : saveGlobal x.encoder save (.ref i) g st = .ok () st')
include named imports new h

/-- A global that is met for the first time. -/
theorem saveGlobal_names : x.Names st st' [i] (resolved name symbol) := by
  simp only [saveGlobal, named.wire] at h
  obtain ⟨given, st₁, write, h⟩ := bind_eq_ok h
  have emits := writeGlobal_emits named.known imports write
  cases given with
  | false => cases h; exact emits.names [i]
  | true =>
    rw [← emits.memo] at new
    rw [← emits.store] at named
    obtain ⟨-, store, sent, -⟩ := memoizeAs_ok (x := x) h
    refine ⟨emits.sent.trans (.of_insert new store sent), fun k _ apart => ?_,
      (emits.created.named named new h).mono ?_⟩
    · rw [sent, emits.memo, Std.HashMap.getElem?_insert, if_neg]
      exact fun same => apart (List.mem_singleton.2 (Identity.object.inj (eq_of_beq same)).symm)
    · rintro m Q ⟨busy, linked, -, q⟩
      exact ⟨busy, linked, fun m' j pushed => q m' j pushed.linked pushed.after pushed.stack⟩

/-- Before protocol 2 there are no extension codes, so the global is remembered. -/
theorem saveGlobal_carries (early : x.encoder.protocol.val < 2) : x.Carries st st' [.ref i] := by
  simp only [saveGlobal, named.wire] at h
  obtain ⟨given, st₁, write, h⟩ := bind_eq_ok h
  have emits := writeGlobal_emits named.known imports write
  obtain rfl : given = true := by
    obtain ⟨_, recent, -⟩ | ⟨-, given, -⟩ | ⟨-, -, given, -⟩ | ⟨-, given, -⟩ :=
      writeGlobal_cases write
    · omega
    all_goals exact given
  rw [← emits.memo] at new
  rw [← emits.store] at named
  obtain ⟨-, store, sent, -⟩ := memoizeAs_ok (x := x) h
  refine ⟨emits.sent.trans (.of_insert new store sent),
    (emits.created.named named new h).mono ?_⟩
  rintro m Q ⟨busy, linked, -, q⟩
  exact ⟨busy, linked, fun m' j pushed _ => q m' [.ref j] pushed⟩

end

section
omit [HostObject H]

/-- A global that names no host type is written under its own name. -/
theorem wireName_untyped (untyped : g.type = none) (h : wireName x.encoder g = .ok name) :
    name = ⟨x.encoder.registry.moduleOf g, g.qualname⟩ := by
  have chosen : ∀ (allowed : Prop) [Decidable allowed] (n : Name) (e : EncodeError),
      (if allowed then Except.ok n else .error e) = .ok name → name = n := by
    intro allowed _ n e chosen
    split at chosen
    · exact (Except.ok.inj chosen).symm
    · cases chosen
  simp only [wireName, untyped] at h
  cases bound : g.symbol with
  | none =>
    simp only [bound] at h
    exact (Except.ok.inj h).symm
  | some symbol =>
    simp only [bound] at h
    exact chosen _ _ _ h

theorem wireName_ofClass (h : wireName x.encoder (.ofClass c) = .ok name) :
    name = ⟨c.module, c.qualname⟩ :=
  wireName_untyped rfl h

end

/-- A class is written once and fetched from then on. -/
theorem saveClass_names (known : x.Known ⟨c.module, c.qualname⟩ (.ofClass c))
    (imports : x.decoder.fixImports = x.encoder.fixImports) (carried : x.classes c)
    (identity : ∀ d, x.classes d → d.key = c.key → d = c)
    (h : saveClass x.encoder save c st = .ok () st') :
    x.Names st st' [] (resolved ⟨c.module, c.qualname⟩ (.ofClass c)) := by
  rw [saveClass, bind_ok (memoized_ok ..)] at h
  cases new : st.memo[Identity.ofClass c.key]? with
  | some id =>
    simp only [new] at h
    have emits := emitGet_emits (x := x) h
    refine ⟨emits.sent, fun i _ _ => by rw [emits.memo], emits.performs.mono ?_⟩
    rintro m Q ⟨busy, linked, -, q⟩
    obtain ⟨d, j, carried', same, here, global⟩ := linked.ofClass c.key id new
    obtain rfl := identity d carried' same
    have small := Nat.lt_of_lt_of_le (linked.numbers.sent_lt _ id new) linked.numbers.small
    refine ⟨small, _, here, q _ j (linked.congr emits.store emits.memo rfl rfl rfl) ?_ rfl global⟩
    exact .of_eq rfl rfl rfl
  | none =>
    simp only [new] at h
    cases wire : wireName x.encoder (.ofClass c) with
    | error e => simp only [wire] at h; cases h
    | ok name =>
      obtain rfl := wireName_ofClass wire
      simp only [wire] at h
      obtain ⟨given, st₁, write, h⟩ := bind_eq_ok h
      have emits := writeGlobal_emits known imports write
      cases given with
      | false => cases h; exact emits.names []
      | true =>
        obtain ⟨room, store, sent, performs⟩ := memoizeAs_ok (x := x) h
        rw [← emits.memo] at new
        refine ⟨emits.sent.trans (.of_insert new store sent), fun k _ _ => ?_,
          (emits.created.performs.trans performs).mono ?_⟩
        · rw [sent, emits.memo, Std.HashMap.getElem?_insert, if_neg]
          exact fun same => nomatch eq_of_beq same
        · rintro m Q ⟨busy, linked, -, q⟩
          refine ⟨busy, linked, (fun _ mem => nomatch mem), fun m' j created => ?_⟩
          have numbers := created.linked.numbers
          refine ⟨numbers.size, m.stack, .ref j, created.stack, ?_⟩
          have remembered := created.linked.rememberClass new room carried created.made store sent
          exact q _ j remembered (created.after.trans (.remember numbers _)) created.stack created.made

end Trip

end ObjectStream
