import ObjectStream.Proofs.Registries
import ObjectStream.Proofs.Running
import ObjectStream.Proofs.Window

/-!
Extension codes in their tables and on the wire.

A registry lists the pairs of names and codes that it has entered. It may as well keep two tables, from
names to codes and from codes to names. A `CodeBook` does, and whatever is entered in both, one pair
after the other, the tables hold what the registry finds (`CodeBook.Follows.addAll`). What was refused
has touched neither table. The pairs lead from either side to the other (`Registry.Coded`,
`Registry.Named`), so an instruction that the encoder chooses for a name is carried out by looking up
that very name (`Decoder.step_extensionInstruction`).
-/

namespace ObjectStream

namespace Registry

variable {H : Type} {r r' : Registry H} {name : Name} {code : Nat}

/-- Every name of an extension code has that code. -/
def Named (r : Registry H) : Prop :=
  ∀ name code, r.extension? code = some name → r.extensionCode? name = some code

/-- Asks for pairs, one after the other. What is refused changes nothing. -/
def addAll (r : Registry H) (calls : List (Name × Nat)) : Registry H :=
  calls.foldl (fun r call => (r.addExtension call.1 call.2).toOption.getD r) r

theorem Named.addExtension (h : r.Named) (added : r.addExtension name code = .ok r') : r'.Named := by
  rw [addExtension_eq] at added
  split at added
  · cases added
  split at added
  · cases added
    exact h
  split at added
  · next free =>
    cases added
    intro name' code' found
    rw [extension?_append rfl] at found
    rw [extensionCode?_append rfl]
    exact leadsBack_append (fun _ _ former => h _ _ former) free.1 found
  · cases added

theorem oneToOne_addAll (coded : r.Coded) (named : r.Named) (calls : List (Name × Nat)) :
    (r.addAll calls).Coded ∧ (r.addAll calls).Named := by
  induction calls generalizing r with
  | nil => exact ⟨coded, named⟩
  | cons call rest ih =>
    rw [addAll, List.foldl_cons]
    cases added : r.addExtension call.1 call.2 with
    | error _ => exact ih coded named
    | ok r' => exact ih (coded.addExtension added) (named.addExtension added)

/-- The look-ups go by the extensions alone. -/
theorem extension?_congr (same : r'.extensions = r.extensions) (code : Nat) :
    r'.extension? code = r.extension? code := by
  rw [extension?, extension?, same]

theorem extensionCode?_congr (same : r'.extensions = r.extensions) (name : Name) :
    r'.extensionCode? name = r.extensionCode? name := by
  rw [extensionCode?, extensionCode?, same]

end Registry

/-! ## Two tables -/

/-- A table from names to extension codes, and one from codes to names. -/
structure CodeBook where
  codes : Std.HashMap Name Nat := {}
  names : Std.HashMap Nat Name := {}

namespace CodeBook

variable {H : Type} {r : Registry H} {book : CodeBook}

/-- Enters a pair in one table and then in the other. Entering the same pair again changes nothing. -/
def add (name : Name) (code : Nat) : EStateM RegistryError CodeBook Unit := do
  if code = 0 ∨ maxExtensionCode < code then throw (.badExtensionCode code)
  let book ← get
  match book.codes[name]?, book.names[code]? with
  | some c, some n => if c = code ∧ n = name then pure () else throw (.extensionConflict code)
  | none, none =>
    modify fun book => { book with codes := book.codes.insert name code }
    modify fun book => { book with names := book.names.insert code name }
  | _, _ => throw (.extensionConflict code)

/-- Enters pairs, one after the other, as far as they are not refused. -/
def addAll (book : CodeBook) (calls : List (Name × Nat)) : CodeBook :=
  calls.foldl (fun book call => behind (add call.1 call.2 book)) book

theorem add_eq (name : Name) (code : Nat) (book : CodeBook) : add name code book =
    if code = 0 ∨ maxExtensionCode < code then .error (.badExtensionCode code) book
    else if book.codes[name]? = some code ∧ book.names[code]? = some name then .ok () book
    else if book.codes[name]? = none ∧ book.names[code]? = none then
      .ok () { codes := book.codes.insert name code, names := book.names.insert code name }
    else .error (.extensionConflict code) book := by
  unfold add
  split
  · rfl
  simp only [bind_apply, get_apply]
  cases book.codes[name]? with
  | none => cases book.names[code]? <;> rfl
  | some c =>
    cases book.names[code]? with
    | none => simp only [reduceCtorEq, and_false, false_and, if_false]; rfl
    | some n =>
      simp only [Option.some.injEq, reduceCtorEq, false_and, if_false]
      split <;> rfl

/-- The tables hold what the registry finds. -/
structure Follows (book : CodeBook) (r : Registry H) : Prop where
  code : ∀ name, book.codes[name]? = r.extensionCode? name
  name : ∀ code, book.names[code]? = r.extension? code

theorem follows_of_nil (unused : r.extensions = []) : Follows {} r where
  code name := by
    rw [Registry.extensionCode?_of_nil unused]
    exact Std.HashMap.getElem?_empty
  name code := by
    rw [Registry.extension?, unused]
    exact Std.HashMap.getElem?_empty

/-- A pair has the same outcome in both, and where it is refused, the tables are as they were. -/
theorem Follows.add (h : book.Follows r) (name : Name) (code : Nat) :
    (∃ e, r.addExtension name code = .error e ∧ CodeBook.add name code book = .error e book) ∨
    ∃ r' book', r.addExtension name code = .ok r' ∧ CodeBook.add name code book = .ok () book' ∧
      book'.Follows r' := by
  -- both decide by the same look-ups
  rw [Registry.addExtension_eq, add_eq, h.code, h.name]
  split
  · exact .inl ⟨_, rfl, rfl⟩
  split
  · exact .inr ⟨r, book, rfl, rfl, h⟩
  split
  · next free =>
    refine .inr ⟨_, _, rfl, rfl, fun other => ?_, fun other => ?_⟩
    · rw [Std.HashMap.getElem?_insert, Registry.extensionCode?_append rfl, h.code, beq_eq_decide]
      by_cases same : name = other
      · subst same
        simp [free.1]
      · simp [same]
    · rw [Std.HashMap.getElem?_insert, Registry.extension?_append rfl, h.name]
      by_cases same : code = other
      · subst same
        simp [free.2]
      · simp [same]
  · exact .inl ⟨_, rfl, rfl⟩

theorem Follows.addAll (h : book.Follows r) (calls : List (Name × Nat)) :
    (book.addAll calls).Follows (r.addAll calls) := by
  induction calls generalizing r book with
  | nil => exact h
  | cons call rest ih =>
    rw [CodeBook.addAll, Registry.addAll, List.foldl_cons, List.foldl_cons]
    obtain ⟨e, refused, refused'⟩ | ⟨r', book', added, added', follows⟩ := h.add call.1 call.2
    · rw [refused, refused']
      exact ih h
    · rw [added, added']
      exact ih follows

end CodeBook

/-! ## On the wire -/

/-- Whatever follows it, an instruction that was chosen for a code is read as that code. -/
theorem Decoder.step_extensionInstruction {H : Type} [HostObject H] (cfg : Config H) {code : Nat}
    (bound : code ≤ maxExtensionCode) {st : State H} {next later : Bytes}
    (h : st.input.At ((Encoder.extensionInstruction code).bytes ++ next) later) :
    ∃ r trace, r.At next later ∧ step cfg st =
      (pushExtension cfg (Encoder.extensionInstruction code).op code >>= fun _ => pure none)
        { st with input := r, trace := trace } := by
  have payload : (Encoder.extensionInstruction code).payload = [] := by
    obtain ⟨-, same⟩ | ⟨-, same⟩ | ⟨-, same⟩ := Encoder.extensionInstruction_cases code <;>
      exact same ▸ rfl
  have ordinary := ordinary_extensionInstruction code
  rw [← execute_extensionInstruction cfg bound]
  exact step_ok ordinary.fits ordinary.not_stop (by simp [payload]) (by simp [payload]) h

namespace Registry

variable {H : Type} [HostObject H]

/-- Whatever was asked for, refused or not, the codes and names of a registry lead to each other, and so
    do the two tables of a book, in which what is refused leaves no trace and a pair that is there
    already changes nothing. From protocol 2 on a name with a code is written as the instruction of
    that code. A decoder that stands before it reads that very code, and looks up the name as it does one
    that is spelled out. -/
theorem extensions_thereAndBack (fresh : Registry H) (unused : fresh.extensions = [])
    (calls : List (Name × Nat)) :
    let r := fresh.addAll calls
    let book := ({} : CodeBook).addAll calls
    (∀ name code, r.extensionCode? name = some code ↔ r.extension? code = some name) ∧
    (∀ name code, r.extensionCode? name = some code → 1 ≤ code ∧ code ≤ 0x7fffffff) ∧
    (∀ name, book.codes[name]? = r.extensionCode? name) ∧
    (∀ code, book.names[code]? = r.extension? code) ∧
    (∀ name code e book', CodeBook.add name code book = .error e book' →
      book' = book ∧ r.addExtension name code = .error e) ∧
    (∀ name code, r.extensionCode? name = some code →
      CodeBook.add name code book = .ok () book ∧ r.addExtension name code = .ok r) ∧
    ∀ (encoder : Encoder.Config H) (decoder : Decoder.Config H) name code,
      encoder.registry.extensions = r.extensions → decoder.registry.extensions = r.extensions →
      2 ≤ encoder.protocol.val → r.extensionCode? name = some code →
      let i := Encoder.extensionInstruction code
      (∀ save, Encoder.writeGlobal encoder save name =
        (Encoder.emit i.op i.operand >>= fun _ => pure false)) ∧
      (∀ st next later, st.input.At (i.bytes ++ next) later → ∃ input trace, input.At next later ∧
        Decoder.step decoder st = (Decoder.pushExtension decoder i.op code >>= fun _ => pure none)
          { st with input := input, trace := trace }) ∧
      Decoder.pushExtension decoder i.op code =
        (Decoder.findGlobal decoder name.module name.qualname >>= Decoder.push decoder) := by
  intro r book
  have nothing : fresh.Coded := fun name code found => by
    rw [extensionCode?_of_nil unused] at found
    cases found
  have nothing' : fresh.Named := fun name code found => by
    rw [extension?, unused] at found
    cases found
  obtain ⟨coded, named⟩ := oneToOne_addAll nothing nothing' calls
  have follows : book.Follows r := (CodeBook.follows_of_nil unused).addAll calls
  refine ⟨fun name code => ⟨fun found => (coded name code found).2.2, named name code⟩,
    fun name code found => ⟨(coded name code found).1, (coded name code found).2.1⟩,
    follows.code, follows.name, fun name code e book' refused => ?_, fun name code found => ?_, ?_⟩
  · obtain ⟨e', refused', untouched⟩ | ⟨r', book'', -, added, -⟩ := follows.add name code
    · rw [untouched] at refused
      cases refused
      exact ⟨rfl, refused'⟩
    · rw [added] at refused
      cases refused
  · obtain ⟨positive, bound, back⟩ := coded name code found
    have inside : ¬(code = 0 ∨ maxExtensionCode < code) := by omega
    rw [CodeBook.add_eq, addExtension_eq, follows.code, follows.name, if_neg inside, if_neg inside,
      if_pos ⟨found, back⟩, if_pos ⟨found, back⟩]
    exact ⟨rfl, rfl⟩
  · intro encoder decoder name code sent read late found i
    obtain ⟨positive, bound, back⟩ := coded name code found
    refine ⟨fun save => ?_, fun st next later h => Decoder.step_extensionInstruction decoder bound h, ?_⟩
    · have known := (extensionCode?_congr sent name).trans found
      rw [Encoder.writeGlobal_extension late known, Encoder.emitExtension_eq]
    · exact Decoder.pushExtension_of_known _ positive ((extension?_congr read code).trans back)

/-- Codes on both sides of every change of width, and pairs that are refused for either part, for both,
    and for a code that no instruction has room for. -/
def edgeCalls : List (Name × Nat) :=
  [(⟨"m", "a"⟩, 0xff), (⟨"m", "b"⟩, 0x100), (⟨"m", "a"⟩, 7), (⟨"m", "z"⟩, 0x100), (⟨"m", "b"⟩, 0xff),
    (⟨"m", "c"⟩, 0xffff), (⟨"m", "d"⟩, 0x10000), (⟨"m", "e"⟩, 0x7fffffff), (⟨"m", "z"⟩, 0x80000000)]

theorem extensions_edgeCalls : ((seeded 0 : Registry Empty).addAll edgeCalls).extensions =
    [(⟨"m", "a"⟩, 0xff), (⟨"m", "b"⟩, 0x100), (⟨"m", "c"⟩, 0xffff), (⟨"m", "d"⟩, 0x10000),
      (⟨"m", "e"⟩, 0x7fffffff)] := rfl

theorem extensions_thereAndBack_edges :
    let r := (seeded 0 : Registry Empty).addAll edgeCalls
    let book := ({} : CodeBook).addAll edgeCalls
    r.extension? 0x7fffffff = some ⟨"m", "e"⟩ ∧
    r.addExtension ⟨"m", "z"⟩ 0 = .error (.badExtensionCode 0) ∧
    CodeBook.add ⟨"m", "a"⟩ 0xff book = .ok () book ∧
    (∀ save, Encoder.writeGlobal { registry := r, host := {}, protocol := 2 } save ⟨"m", "e"⟩ =
      (Encoder.emit .ext4 (0x7fffffff : Int32) >>= fun _ => pure false)) ∧
    ∃ input trace, input.At [0x2e] [] ∧
      Decoder.step { registry := r, host := {} }
          { input := .ofSource (.ofBytes [0x84, 0xff, 0xff, 0xff, 0x7f, 0x2e]), store := {} } =
        (Decoder.pushExtension { registry := r, host := {} } .ext4 0x7fffffff >>= fun _ => pure none)
          { input := input, store := {}, trace := trace } := by
  intro r book
  obtain ⟨inverse, -, -, -, refused, again, wire⟩ :=
    extensions_thereAndBack (seeded 0 : Registry Empty) rfl edgeCalls
  have first : r.extensionCode? ⟨"m", "a"⟩ = some 0xff := by
    rw [extensionCode?, extensions_edgeCalls]
    rfl
  have last : r.extensionCode? ⟨"m", "e"⟩ = some 0x7fffffff := by
    rw [extensionCode?, extensions_edgeCalls]
    rfl
  obtain ⟨written, read, -⟩ := wire { registry := r, host := {}, protocol := 2 }
    { registry := r, host := {} } ⟨"m", "e"⟩ 0x7fffffff rfl rfl (by decide) last
  exact ⟨(inverse _ _).1 last, (refused ⟨"m", "z"⟩ 0 _ _ rfl).2, (again ⟨"m", "a"⟩ 0xff first).1, written,
    read _ [0x2e] [] ⟨rfl, .inr ⟨rfl, rfl⟩⟩⟩

end Registry

end ObjectStream
