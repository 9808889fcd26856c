import ObjectStream.Proofs.NestedNames

/-!
Old names on the wire.

The first three protocols write old names and read them back. Reading settles on one spelling: what was
read is read as itself (`LegacyName.toCurrent_toCurrent`). Writing falls back on the old name of the
module, and does not look whether that makes the old spelling of another name. Eight names are overtaken
in that way (`LegacyName.overtaken`). A decoder looks up every other name under itself
(`oldNames_transparent`), but one of the eight under the name that has overtaken it (`dumps_overtaken`).
-/

namespace ObjectStream

namespace LegacyName

/-- Names whose old spelling, the old name of their module, is the old spelling of another name. -/
def overtaken : List (String × String) :=
  [("builtins", "xrange"), ("builtins", "reduce"), ("builtins", "intern"), ("builtins", "unichr"),
    ("builtins", "unicode"), ("builtins", "long"), ("builtins", "basestring"),
    ("collections", "IterableUserDict")]

theorem mem_of_lookup {α β : Type} [BEq α] [LawfulBEq α] {table : List (α × β)} {a : α} {b : β}
    (found : table.lookup a = some b) : (a, b) ∈ table := by
  obtain ⟨before, behind, same, -⟩ := List.lookup_eq_some_iff.1 found
  simp [same]

/-- A name is read as it is listed, or else its module is, or else it stays. -/
theorem toCurrent_cases (module name : String) :
    (∃ current, ((module, name), current) ∈ names ++ namesReadOnly ∧
      toCurrent module name = current) ∨
    (names ++ namesReadOnly).lookup (module, name) = none ∧
      ((∃ module', (module, module') ∈ modules ∧ toCurrent module name = (module', name)) ∨
        modules.lookup module = none ∧ toCurrent module name = (module, name)) := by
  unfold toCurrent
  cases single : (names ++ namesReadOnly).lookup (module, name) with
  | some current => exact .inl ⟨current, mem_of_lookup single, rfl⟩
  | none =>
    refine .inr ⟨rfl, ?_⟩
    cases whole : modules.lookup module with
    | some module' => exact .inl ⟨module', mem_of_lookup whole, rfl⟩
    | none => exact .inr ⟨rfl, rfl⟩

/-- A name is written as it is listed, or else its module is, or else it stays. -/
theorem toLegacy_cases (module name : String) :
    (∃ legacy, (legacy, (module, name)) ∈ names ∧ toLegacy module name = legacy) ∨
    (names.map Prod.swap).lookup (module, name) = none ∧
      ((∃ module', (module', module) ∈ modules ∧ toLegacy module name = (module', name)) ∨
        toLegacy module name = (module, name)) := by
  unfold toLegacy
  cases single : (names.map Prod.swap).lookup (module, name) with
  | some legacy =>
    obtain ⟨⟨legacy', name'⟩, listed, same⟩ := List.mem_map.1 (mem_of_lookup single)
    cases same
    exact .inl ⟨_, listed, rfl⟩
  | none =>
    refine .inr ⟨rfl, ?_⟩
    cases whole : (modules.map Prod.swap).lookup module with
    | some module' =>
      obtain ⟨⟨old, new⟩, listed, same⟩ := List.mem_map.1 (mem_of_lookup whole)
      cases same
      exact .inl ⟨_, listed, rfl⟩
    | none => exact .inr rfl

/-- No new name of a module is an old one, of a module or of a single name. -/
theorem modules_new {module module' : String} (listed : (module, module') ∈ modules) :
    modules.lookup module' = none ∧ ∀ entry ∈ names ++ namesReadOnly, entry.1.1 ≠ module' := by
  have all : ∀ entry ∈ modules, modules.lookup entry.2 = none ∧
      ∀ entry' ∈ names ++ namesReadOnly, entry'.1.1 ≠ entry.2 := by decide
  exact all _ listed

/-- What was read stays as it is. -/
theorem toCurrent_toCurrent (module name : String) :
    toCurrent (toCurrent module name).1 (toCurrent module name).2 = toCurrent module name := by
  obtain ⟨current, listed, same⟩ | ⟨unlisted, ⟨module', listed, same⟩ | ⟨-, same⟩⟩ :=
    toCurrent_cases module name
  · have all : ∀ entry ∈ names ++ namesReadOnly, toCurrent entry.2.1 entry.2.2 = entry.2 := by decide
    rw [same]
    exact all _ listed
  · obtain ⟨whole, single⟩ := modules_new listed
    have single : (names ++ namesReadOnly).lookup (module', name) = none :=
      Name.lookup_eq_none fun entry mem here => single entry mem (congrArg Prod.fst here).symm
    rw [same, toCurrent, single, whole, Option.getD_none]
  · rw [same, same]

/-- What an old name of a module makes of a name that is listed under it: the name itself, if the name is
    not overtaken. -/
theorem listed_under {module module' name : String} {current : String × String}
    (renamed : (module', module) ∈ modules)
    (listed : ((module', name), current) ∈ names ++ namesReadOnly)
    (apart : (module, name) ∉ overtaken) : current = (module, name) := by
  have all : ∀ entry ∈ modules, ∀ single ∈ names ++ namesReadOnly, single.1.1 = entry.1 →
      (entry.2, single.1.2) ∉ overtaken → single.2 = (entry.2, single.1.2) := by decide
  exact all _ renamed _ listed rfl apart

/-- A name that is no old one is read back as itself, if no other name has overtaken it. -/
theorem toCurrent_toLegacy {module name : String} (settled : toCurrent module name = (module, name))
    (apart : (module, name) ∉ overtaken) :
    toCurrent (toLegacy module name).1 (toLegacy module name).2 = (module, name) := by
  obtain ⟨legacy, listed, same⟩ | ⟨-, ⟨module', renamed, same⟩ | same⟩ := toLegacy_cases module name
  · have all : ∀ entry ∈ names, toCurrent entry.1.1 entry.1.2 = entry.2 := by decide
    rw [same]
    exact all _ listed
  · rw [same]
    obtain ⟨current, listed, same'⟩ | ⟨-, ⟨module'', renamed', same'⟩ | ⟨unlisted, -⟩⟩ :=
      toCurrent_cases module' name
    · rw [same']
      exact listed_under renamed listed apart
    · have once : ∀ entry ∈ modules, ∀ entry' ∈ modules, entry.1 = entry'.1 → entry.2 = entry'.2 := by
        decide
      rw [same', show module'' = module from once _ renamed' _ renamed rfl]
    · have all : ∀ entry ∈ modules, modules.lookup entry.1 ≠ none := by decide
      exact absurd unlisted (all _ renamed)
  · rw [same, settled]

/-- The names that are overtaken are no old ones, and none is read back as itself. -/
theorem toCurrent_overtaken {module name : String} (mem : (module, name) ∈ overtaken) :
    toCurrent module name = (module, name) ∧
      toCurrent (toLegacy module name).1 (toLegacy module name).2 ≠ (module, name) := by
  have all : ∀ n ∈ overtaken, toCurrent n.1 n.2 = n ∧
      toCurrent (toLegacy n.1 n.2).1 (toLegacy n.1 n.2).2 ≠ n := by decide
  exact all _ mem

end LegacyName

open Decoder (Leads)
open Encoder

variable {H : Type}

/-! ## Looking up -/

namespace Decoder

/-- What a decoder makes of a name as it is: the global of what is registered under it, or of the symbol
    that it is bound to. -/
def lookUp (cfg : Config H) (name : Name) : Decode H Value :=
  match cfg.registry.decodeGlobal? name with
  | some g => alloc (.global g)
  | none =>
    match cfg.registry.resolve name with
    | .found symbol => alloc (.global (resolved name symbol))
    | .missingModule => fail (.unresolvedGlobal name.module name.qualname .module)
    | .missingAttribute => fail (.unresolvedGlobal name.module name.qualname .attribute)

/-- Under the first three protocols a decoder that maps old names looks up what the name is read as. -/
theorem findGlobal_early {cfg : Config H} {name : Name} {st : State H} (early : st.protocol < 3)
    (imports : cfg.fixImports = true) :
    findGlobal cfg name.module name.qualname st = lookUp cfg name.current st := by
  have mapped : (st.protocol < 3 && cfg.fixImports) = true := by simp [early, imports]
  simp only [findGlobal, bind_apply, get_apply, mapped, if_true]
  rfl

end Decoder

namespace Name

variable {name : Name}

/-- The name is no old spelling, and its own old spelling is not that of another name. -/
structure Apart (name : Name) : Prop where
  settled : name.current = name
  apart : (name.module, name.qualname) ∉ LegacyName.overtaken

theorem Apart.legacy_current (h : name.Apart) : name.legacy.current = name := by
  have settled : LegacyName.toCurrent name.module name.qualname = (name.module, name.qualname) :=
    congrArg (fun n : Name => (n.module, n.qualname)) h.settled
  have back := LegacyName.toCurrent_toLegacy settled h.apart
  exact congrArg (fun n : String × String => (⟨n.1, n.2⟩ : Name)) back

end Name

namespace Decoder

variable [HostObject H] {cfg : Config H} {name : Name} {writer : Encoder.Config H}

/-- The lines that were written for a name are read as instructions are, whatever follows them, and lead
    to the name itself. -/
theorem step_lines (apart : name.Apart) (early : writer.protocol.val < 3)
    (writes : writer.fixImports = true) (imports : cfg.fixImports = true)
    (hm : '\n' ∉ name.module.toList) (hn : '\n' ∉ name.qualname.toList) {st : State H}
    {next later : Bytes} (announced : st.protocol < 3)
    (h : st.input.At (Instruction.bytes ⟨.global, writer.lines name⟩ ++ next) later) :
    ∃ r trace, r.At next later ∧ step cfg st =
      (lookUp cfg name >>= push cfg >>= fun _ => pure none) { st with input := r, trace := trace } := by
  let i : Instruction := ⟨.global, writer.lines name⟩
  have fits : i.op.shape.Fits i.operand := writer.fits_lines hm hn
  have short : i.payload.length ≤ cfg.limits.maxFrameLength := Nat.zero_le _
  obtain ⟨r, trace, place, run⟩ := step_ok fits nofun short (Nat.two_pow_pos 64) h
  refine ⟨r, trace, place, run.trans ?_⟩
  have spelled : writer.lineName name = name.legacy := by
    rw [Encoder.Config.lineName, if_pos (by simp [early, writes])]
  have line : lineGlobal cfg .global (writer.lines name).1 (writer.lines name).2 =
      findGlobal cfg name.legacy.module name.legacy.qualname := by
    simp only [lineGlobal, Encoder.Config.lines, spelled, Text.ofUtf8?_utf8]
    rfl
  let st' : State H := { st with input := r, trace := trace }
  have found : findGlobal cfg name.legacy.module name.legacy.qualname st' = lookUp cfg name st' := by
    have announced' : st'.protocol < 3 := announced
    rw [findGlobal_early announced' imports, apart.legacy_current]
  have carried : execute cfg .global (writer.lines name) = (lineGlobal cfg .global
      (writer.lines name).1 (writer.lines name).2 >>= push cfg) := rfl
  show (execute cfg .global (writer.lines name) >>= fun _ => pure none) _ = _
  rw [carried, line, bind_assoc, bind_assoc, bind_apply, bind_apply, found]

end Decoder

variable [HostObject H]

/-- What spells an undotted name puts on the stack what the decoder makes of the name. -/
theorem Trip.leads_old {x : Trip H} {name : Name} {g : Global} {given : Bool} {is : List Instruction}
    {m : Decoder.Machine H} (apart : name.Apart) (early : x.encoder.protocol.val < 3)
    (writes : x.encoder.fixImports = true) (imports : x.decoder.fixImports = true)
    (hm : '\n' ∉ name.module.toList) (hn : '\n' ∉ name.qualname.toList)
    (coded : ∀ code, x.encoder.registry.extensionCode? name = some code →
      0 < code ∧ code ≤ maxExtensionCode ∧ x.decoder.registry.extension? code = some name)
    (undotted : dottedSplits name.qualname = [])
    (meant : Decoder.lookUp x.decoder name = Decoder.alloc (.global g))
    (spelling : x.encoder.Spelling name given is) (protocol : m.protocol = x.announced) :
    Leads x.decoder x.total is m fun m' => m.Gains m' (.global g) := by
  have announced : m.protocol < 3 := protocol ▸ Trip.announced_lt_iff.2 early
  have stands {wire : Name} (read : wire.current = name) :
      Decoder.Stands x.decoder m.protocol wire g := by
    intro st same
    rw [Decoder.findGlobal_early (same ▸ announced) imports, read, meant]
  cases spelling with
  | extension _ known =>
    obtain ⟨positive, bound, named⟩ := coded _ known
    exact Decoder.leads_extensionInstruction positive bound named (stands apart.settled)
      (m.gains_pushNew _)
  | texts late => exact absurd late (by omega)
  | lines =>
    have spelled : x.encoder.lineName name = name.legacy := by
      rw [Encoder.Config.lineName, if_pos (by simp [early, writes])]
    rw [Encoder.Config.lines, spelled]
    have unbroken := LegacyName.toLegacy_unbroken hm hn
    exact Decoder.leads_global (stands apart.legacy_current)
      ⟨Text.newline_not_mem_utf8 unbroken.1, Text.newline_not_mem_utf8 unbroken.2⟩ (m.gains_pushNew _)
  | nested _ dotted => cases undotted.symm.trans dotted

/-- The stream of an undotted global is read to what the decoder makes of its name. -/
theorem gives_old {writer : Encoder.Config H} {reader : Decoder.Config H} {name : Name}
    {s s' : Store H} {id : Nat} {written g : Global} {bytes : Bytes} (apart : name.Apart)
    (early : writer.protocol.val < 3) (writes : writer.fixImports = true)
    (imports : reader.fixImports = true) (hm : '\n' ∉ name.module.toList)
    (hn : '\n' ∉ name.qualname.toList) (plain : writer.persistentId = none)
    (found : s.cells[id]? = some (.global written)) (wire : wireName writer written = .ok name)
    (undotted : dottedSplits name.qualname = [])
    (coded : ∀ code, writer.registry.extensionCode? name = some code →
      0 < code ∧ code ≤ maxExtensionCode ∧ reader.registry.extension? code = some name)
    (meant : Decoder.lookUp reader name = Decoder.alloc (.global g))
    (dumped : dumps writer s (.ref id) = (.ok bytes, s')) (usual : reader.limits = {})
    (word : bytes.length < 2 ^ 64) : reader.Gives bytes g := by
  intro base
  let x : Trip H :=
    { encoder := writer, decoder := reader, source := s, total := True, classes := fun _ => False }
  exact x.arrives_spelled base trivial plain found wire
    (fun _ _ _ spelling protocol =>
      x.leads_old apart early writes imports hm hn coded undotted meant spelling protocol)
    dumped usual word

/-- Reading settles on one spelling. A name that is no old spelling is read back as itself, if and only
    if it is not overtaken. Wherever the lines that were written for it stand, in a stream of the first
    three protocols a decoder that maps old names looks up the name itself. The stream of an undotted
    global is read to what the decoder makes of its name. -/
theorem oldNames_transparent (name : Name) :
    name.current.current = name.current ∧
    ((name.module, name.qualname) ∈ LegacyName.overtaken →
      name.current = name ∧ name.legacy.current ≠ name) ∧
    (name.current = name → (name.module, name.qualname) ∉ LegacyName.overtaken →
      name.legacy.current = name ∧
      ∀ (writer : Encoder.Config H) (reader : Decoder.Config H), writer.protocol.val < 3 →
        writer.fixImports = true → reader.fixImports = true →
        '\n' ∉ name.module.toList → '\n' ∉ name.qualname.toList →
        let i : Instruction := ⟨.global, writer.lines name⟩
        (∀ st st', emitGlobalLines writer name st = .ok () st' → Emitted st st' [i]) ∧
        (∀ st next later, st.protocol < 3 → st.input.At (i.bytes ++ next) later →
          ∃ input trace, input.At next later ∧ Decoder.step reader st =
            (Decoder.lookUp reader name >>= Decoder.push reader >>= fun _ => pure none)
              { st with input := input, trace := trace }) ∧
        ∀ s s' id written bytes g, writer.persistentId = none →
          s.cells[id]? = some (.global written) → wireName writer written = .ok name →
          dottedSplits name.qualname = [] →
          (∀ code, writer.registry.extensionCode? name = some code →
            0 < code ∧ code ≤ maxExtensionCode ∧ reader.registry.extension? code = some name) →
          Decoder.lookUp reader name = Decoder.alloc (.global g) →
          dumps writer s (.ref id) = (.ok bytes, s') → reader.limits = {} → bytes.length < 2 ^ 64 →
          reader.Gives bytes g) := by
  refine ⟨?_, fun taken => ?_, fun settled aside => ?_⟩
  · have back := LegacyName.toCurrent_toCurrent name.module name.qualname
    exact congrArg (fun n : String × String => (⟨n.1, n.2⟩ : Name)) back
  · obtain ⟨settled, other⟩ := LegacyName.toCurrent_overtaken taken
    refine ⟨congrArg (fun n : String × String => (⟨n.1, n.2⟩ : Name)) settled, fun back => other ?_⟩
    exact congrArg (fun n : Name => (n.module, n.qualname)) back
  have apart : name.Apart := ⟨settled, aside⟩
  refine ⟨apart.legacy_current, fun writer reader early writes imports hm hn => ⟨?_, ?_, ?_⟩⟩
  · exact fun st st' written => emitGlobalLines_ok written
  · exact fun st next later announced place =>
      Decoder.step_lines apart early writes imports hm hn announced place
  · intro s s' id written bytes g plain found wire undotted coded meant dumped usual word
    exact gives_old apart early writes imports hm hn plain found wire undotted coded meant dumped usual
      word

/-! ## Two names -/

def userDict : Class := ⟨.declared 0, "collections", "UserDict"⟩

/-- A class whose name is overtaken by that of the other one. -/
def iterableUserDict : Class := ⟨.declared 1, "collections", "IterableUserDict"⟩

def dictRegistry : Registry Empty :=
  ((Registry.seeded 0).define ⟨"collections", "UserDict"⟩ (.ofClass userDict)).define
    ⟨"collections", "IterableUserDict"⟩ (.ofClass iterableUserDict)

def dictWriter (p : Protocol) : Encoder.Config Empty :=
  { registry := dictRegistry, host := dictRegistry.host, protocol := p }

/-- The stream of either class. -/
def dictBytes : Bytes :=
  [0x80, 2, 0x63, 0x55, 0x73, 0x65, 0x72, 0x44, 0x69, 0x63, 0x74, 0x0a, 0x49, 0x74, 0x65, 0x72, 0x61,
    0x62, 0x6c, 0x65, 0x55, 0x73, 0x65, 0x72, 0x44, 0x69, 0x63, 0x74, 0x0a, 0x71, 0, 0x2e]

theorem resolve_userDict : dictRegistry.resolve ⟨"collections", "UserDict"⟩ = .found (.ofClass userDict) :=
  Registry.resolve_define_of_ne (by decide) rfl (Registry.resolve_define ..) _

theorem lookUp_userDict : Decoder.lookUp (dictWriter 2).decoder ⟨"collections", "UserDict"⟩ =
    Decoder.alloc (.global (Decoder.resolved ⟨"collections", "UserDict"⟩ (.ofClass userDict))) := by
  have unregistered : dictRegistry.decodeGlobal? ⟨"collections", "UserDict"⟩ = none := rfl
  simp only [Decoder.lookUp, Encoder.Config.decoder, dictWriter, unregistered, resolve_userDict]

theorem wireName_dict {c : Class}
    (bound : dictRegistry.resolve ⟨c.module, c.qualname⟩ = .found (.ofClass c)) :
    wireName (dictWriter 2) (.ofClass c) = .ok ⟨c.module, c.qualname⟩ := by
  simp only [wireName, Registry.moduleOf, Global.ofClass, dictWriter, bound]
  simp [Symbol.same]

theorem dumps_dict {c : Class} (undotted : dottedSplits c.qualname = [])
    (bound : dictRegistry.resolve ⟨c.module, c.qualname⟩ = .found (.ofClass c))
    (lines : emitGlobalLines (dictWriter 2) ⟨c.module, c.qualname⟩ =
      emit .global (Bytes.ascii "UserDict", Bytes.ascii "IterableUserDict")) :
    dumps (dictWriter 2) ⟨#[.global (.ofClass c)]⟩ (.ref 0) =
      (.ok dictBytes, ⟨#[.global (.ofClass c)]⟩) := by
  refine dumps_of_drafts [(.object 0, 0)]
    [⟨.proto, (2 : UInt8)⟩, ⟨.global, (Bytes.ascii "UserDict", Bytes.ascii "IterableUserDict")⟩,
      ⟨.binPut, (0 : UInt8)⟩] (show 2 < 4 by decide) ?_
  refine drafts_new rfl rfl rfl ?_
  refine drafts_global ⟨c.module, c.qualname⟩ _ (wireName_dict bound) ?_ (Nat.two_pow_pos 32) rfl
    (drafts_emit rfl)
  rw [writeGlobal_lines (fun _ => Registry.extensionCode?_of_nil rfl _) (show 2 < 4 by decide) undotted,
    lines]

theorem uncoded_dict (name : Name) (code : Nat)
    (known : dictRegistry.extensionCode? name = some code) :
    0 < code ∧ code ≤ maxExtensionCode ∧ dictRegistry.extension? code = some name := by
  rw [Registry.extensionCode?_of_nil rfl] at known
  cases known

theorem oldNames_transparent_userDict :
    dumps (dictWriter 2) ⟨#[.global (.ofClass userDict)]⟩ (.ref 0) =
        (.ok dictBytes, ⟨#[.global (.ofClass userDict)]⟩) ∧
      (dictWriter 2).decoder.Gives dictBytes
        (Decoder.resolved ⟨"collections", "UserDict"⟩ (.ofClass userDict)) := by
  have dumped := dumps_dict (c := userDict) rfl resolve_userDict rfl
  obtain ⟨-, -, reads⟩ := oldNames_transparent (H := Empty) ⟨"collections", "UserDict"⟩
  obtain ⟨-, wires⟩ := reads (by decide) (by decide)
  obtain ⟨-, -, gives⟩ := wires (dictWriter 2) (dictWriter 2).decoder (show 2 < 3 by decide) rfl rfl
    (by decide) (by decide)
  exact ⟨dumped, gives _ _ 0 _ _ _ rfl rfl (wireName_dict resolve_userDict) rfl (uncoded_dict _)
    lookUp_userDict dumped rfl (by decide)⟩

/-- The other class goes by no old name either, and has the same stream, which is read to the first. -/
theorem dumps_overtaken :
    LegacyName.toCurrent "collections" "IterableUserDict" = ("collections", "IterableUserDict") ∧
      LegacyName.toLegacy "collections" "IterableUserDict" = ("UserDict", "IterableUserDict") ∧
      LegacyName.toCurrent "UserDict" "IterableUserDict" = ("collections", "UserDict") ∧
      dictRegistry.resolve ⟨"collections", "IterableUserDict"⟩ = .found (.ofClass iterableUserDict) ∧
      dumps (dictWriter 2) ⟨#[.global (.ofClass iterableUserDict)]⟩ (.ref 0) =
        (.ok dictBytes, ⟨#[.global (.ofClass iterableUserDict)]⟩) ∧
      (dictWriter 2).decoder.Gives dictBytes
        (Decoder.resolved ⟨"collections", "UserDict"⟩ (.ofClass userDict)) := by
  have bound : dictRegistry.resolve ⟨"collections", "IterableUserDict"⟩ =
      .found (.ofClass iterableUserDict) := Registry.resolve_define ..
  have same := dumps_dict (c := userDict) rfl resolve_userDict rfl
  refine ⟨by decide, by decide, by decide, bound, dumps_dict (c := iterableUserDict) rfl bound rfl, ?_⟩
  have apart : Name.Apart ⟨"collections", "UserDict"⟩ := ⟨by decide, by decide⟩
  exact gives_old apart (show 2 < 3 by decide) rfl rfl (by decide) (by decide) rfl rfl
    (wireName_dict resolve_userDict) rfl (uncoded_dict _) lookUp_userDict same rfl (by decide)

end ObjectStream
