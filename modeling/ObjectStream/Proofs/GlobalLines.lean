import ObjectStream.Proofs.Discipline
import ObjectStream.Proofs.Listings
import ObjectStream.Proofs.Nesting
import ObjectStream.Proofs.Recovery

/-!
Globals on lines.

Before protocol 4 a name stands on two lines: its module, and what it begins with before the first dot.
If neither holds a newline, the stream of a global is listed to its end, and every global in it carries
the lines of the name or those of `getattr` (`dumps_global_listed`). Nothing looks for a newline: a name
with a newline ends its line too soon, and what stands behind it is read as instructions
(`dumps_global_broken`).
-/

namespace ObjectStream

open Instruction

/-- What stands on lines of the name holds no newline. -/
structure Name.Unbroken (n : Name) : Prop where
  module : '\n' ∉ n.module.toList
  first : '\n' ∉ (firstSegment n.qualname).toList

/-- An old spelling has a newline only if the name has one. -/
theorem LegacyName.toLegacy_unbroken {module name : String} (hm : '\n' ∉ module.toList)
    (hn : '\n' ∉ name.toList) : '\n' ∉ (toLegacy module name).1.toList ∧
      '\n' ∉ (toLegacy module name).2.toList := by
  unfold toLegacy
  split
  · next legacy found =>
    obtain ⟨before, behind, table, -⟩ := List.lookup_eq_some_iff.1 found
    have mem : ((module, name), legacy) ∈ names.map Prod.swap := by simp [table]
    have all : ∀ entry ∈ names.map Prod.swap,
        '\n' ∉ entry.2.1.toList ∧ '\n' ∉ entry.2.2.toList := by decide
    exact all _ mem
  · refine ⟨?_, hn⟩
    cases found : (modules.map Prod.swap).lookup module with
    | none => exact hm
    | some legacy =>
      obtain ⟨before, behind, table, -⟩ := List.lookup_eq_some_iff.1 found
      have mem : (module, legacy) ∈ modules.map Prod.swap := by simp [table]
      have all : ∀ entry ∈ modules.map Prod.swap, '\n' ∉ entry.2.toList := by decide
      exact all _ mem

namespace Encoder

variable {H : Type} {cfg : Config H} {name : Name} {given : Bool} {is : List Instruction}
  {i : Instruction}

/-- Lines without newlines are read as they are. -/
theorem Config.fits_lines (cfg : Config H) (hm : '\n' ∉ name.module.toList)
    (hn : '\n' ∉ name.qualname.toList) : Shape.lines2.Fits (cfg.lines name) := by
  have unbroken : '\n' ∉ (cfg.lineName name).module.toList ∧
      '\n' ∉ (cfg.lineName name).qualname.toList := by
    unfold Config.lineName
    split
    · exact LegacyName.toLegacy_unbroken hm hn
    · exact ⟨hm, hn⟩
  refine ⟨⟨Text.newline_not_mem_utf8 unbroken.1, Text.newline_not_mem_utf8 unbroken.2⟩, ?_⟩
  rw [Text.ofUtf8?_utf8, Text.ofUtf8?_utf8]
  exact ⟨rfl, rfl⟩

/-- The instruction is listed whole. If it is a global, it carries the lines of the name, up to its first
    dot, or those of `getattr`. -/
structure Config.Lists (cfg : Config H) (name : Name) (i : Instruction) : Prop where
  ordinary : i.Ordinary
  short : i.payload.length < 2 ^ 64
  carries : ∀ operand, i = ⟨.global, operand⟩ →
    operand = cfg.lines ⟨name.module, firstSegment name.qualname⟩ ∨
      operand = cfg.lines ⟨"builtins", "getattr"⟩

namespace Config.Lists

theorem of {op : Opcode} {operand : op.shape.Operand} (fits : op.shape.Fits operand)
    (other : op.isBracket = false ∧ (op == .global) = false)
    (short : (Instruction.mk op operand).payload.length < 2 ^ 64) : cfg.Lists name ⟨op, operand⟩ where
  ordinary := .of fits other.1
  short := short
  carries _ same := by
    cases same
    exact absurd other.2 (by decide)

theorem extension (code : Nat) : cfg.Lists name (extensionInstruction code) := by
  unfold extensionInstruction
  split
  · exact .of trivial ⟨rfl, rfl⟩ (Nat.two_pow_pos 64)
  split
  · exact .of trivial ⟨rfl, rfl⟩ (Nat.two_pow_pos 64)
  · exact .of trivial ⟨rfl, rfl⟩ (Nat.two_pow_pos 64)

theorem put (id : Nat) : cfg.Lists name (putInstruction cfg.protocol id) := by
  unfold putInstruction
  split
  · exact .of trivial ⟨rfl, rfl⟩ (Nat.two_pow_pos 64)
  split
  · split
    · exact .of trivial ⟨rfl, rfl⟩ (Nat.two_pow_pos 64)
    · exact .of trivial ⟨rfl, rfl⟩ (Nat.two_pow_pos 64)
  · exact .of (Literal.newline_not_mem_decimalLine _) ⟨rfl, rfl⟩ (Nat.two_pow_pos 64)

theorem text {text : String} (early : cfg.protocol.val < 4) (counts : cfg.protocol.Counts text) :
    cfg.Lists name (textInstruction cfg.protocol text) := by
  unfold textInstruction
  split
  · exact .of (RawUnicode.newline_not_mem_lineOf text) ⟨rfl, rfl⟩ (Nat.two_pow_pos 64)
  · next binary =>
    have binary : cfg.protocol.isBinary = true := by simpa using binary
    have short := counts binary early
    have late : ¬4 ≤ cfg.protocol.val := Nat.not_le.2 early
    rw [if_neg (by simp [late]), if_pos short]
    exact .of short ⟨rfl, rfl⟩ (Nat.lt_trans short (by decide))

/-- The other names that are written for a name have no other lines. -/
theorem mono {name' : Name} (h : cfg.Lists name' i)
    (same : cfg.lines ⟨name'.module, firstSegment name'.qualname⟩ =
        cfg.lines ⟨name.module, firstSegment name.qualname⟩ ∨
      cfg.lines ⟨name'.module, firstSegment name'.qualname⟩ = cfg.lines ⟨"builtins", "getattr"⟩) :
    cfg.Lists name i := by
  refine ⟨h.ordinary, h.short, fun operand here => ?_⟩
  rcases h.carries operand here with first | getter
  · rw [first]
    exact same
  · exact .inr getter

end Config.Lists

theorem Config.lists_numbering (given : Bool) (id : Nat) :
    ∀ i ∈ cfg.numbering given id, cfg.Lists name i := by
  cases given with
  | true => exact List.forall_mem_singleton.2 (.put id)
  | false => exact List.forall_mem_nil _

/-- What spells a name whose lines hold no newline is listed whole. -/
theorem Config.Spelling.lists (early : cfg.protocol.val < 4) (h : cfg.Spelling name given is)
    (unbroken : name.Unbroken) : ∀ i ∈ is, cfg.Lists name i := by
  induction h with
  | extension => exact List.forall_mem_singleton.2 (.extension _)
  | texts late => exact absurd late (Nat.not_le.2 early)
  | @lines name _ undotted =>
    have whole := firstSegment_of_undotted undotted
    have fits := cfg.fits_lines unbroken.module (whole ▸ unbroken.first)
    have ordinary : Ordinary ⟨.global, cfg.lines name⟩ := .of fits rfl
    refine List.forall_mem_singleton.2 ⟨ordinary, Nat.two_pow_pos 64, fun operand same => .inl ?_⟩
    cases same
    rw [whole]
  | @nested name parent last rest is js given given' _ dotted _ _ counts _ _ _ _ ih ih' =>
    have first := firstSegment_parent dotted
    have getter : ∀ i ∈ is, cfg.Lists name i := fun i mem =>
      (ih ⟨by decide, by decide⟩ i mem).mono (.inr rfl)
    have owner : ∀ i ∈ js, cfg.Lists name i := fun i mem => by
      refine (ih' ⟨unbroken.module, first ▸ unbroken.first⟩ i mem).mono (.inl ?_)
      rw [first]
    have opening : ∀ i ∈ cfg.opening, cfg.Lists name i := by
      unfold Config.opening
      split
      · exact List.forall_mem_nil _
      · exact List.forall_mem_singleton.2 (.of trivial ⟨rfl, rfl⟩ (Nat.two_pow_pos 64))
    have pairing : cfg.Lists name cfg.pairing := by
      unfold Config.pairing
      split
      · exact .of trivial ⟨rfl, rfl⟩ (Nat.two_pow_pos 64)
      · exact .of trivial ⟨rfl, rfl⟩ (Nat.two_pow_pos 64)
    have call : cfg.Lists name ⟨.reduce, ()⟩ := .of trivial ⟨rfl, rfl⟩ (Nat.two_pow_pos 64)
    simp only [List.forall_mem_append, List.forall_mem_cons]
    exact ⟨⟨⟨getter, cfg.lists_numbering _ _⟩, ⟨opening, ⟨owner, cfg.lists_numbering _ _⟩,
      .text early counts, List.forall_mem_nil _⟩, pairing, .put _, List.forall_mem_nil _⟩, call,
      List.forall_mem_nil _⟩

/-! ## Dumps -/

section
variable [HostObject H] {s s' : Store H} {id : Nat} {g : Global} {bytes : Bytes}

/-- The stream of a global is the announcement, instructions that spell its name, and a `STOP`. Before
    protocol 4 these are all its bytes. -/
theorem dumps_global_ok (plain : cfg.persistentId = none) (found : s.cells[id]? = some (.global g))
    (dumped : dumps cfg s (.ref id) = (.ok bytes, s')) :
    ∃ name is, wireName cfg g = .ok name ∧ cfg.Names name is ∧
      Spells (cfg.announcement ++ is ++ [⟨.stop, ()⟩]) bytes ∧
      (cfg.protocol.val < 4 → bytes = allBytes (cfg.announcement ++ is ++ [⟨.stop, ()⟩])) := by
  obtain ⟨st', run, -, rfl⟩ := dumps_ok dumped
  obtain ⟨st₁, st₂, announced, saved, ended, bare⟩ := dump_ok rfl run
  obtain ⟨name, wire, is, wrote, named⟩ : ∃ name, wireName cfg g = .ok name ∧
      ∃ is, Wrote st₁ st₂ is ∧ cfg.Names name is := by
    cases room : cfg.limits.maxDepth with
    | zero =>
      rw [room] at saved
      cases saved
    | succ room' =>
      rw [room] at saved
      obtain ⟨st₃, st₄, before, content, after⟩ := save_ok plain saved
      have found₃ : st₃.store.cells[id]? = some (.global g) := by
        rw [before.store, announced.store]
        exact found
      have fresh : ∀ a : Identity, st₃.memo[a]? = none := fun a => by
        rw [before.memo, announced.memo]
        exact Std.HashMap.getElem?_empty
      have object : saveObject cfg (save cfg room' true) id st₃ = .ok () st₄ := content
      rw [saveObject, bind_ok (memoized_ok ..), fresh] at object
      obtain ⟨_, _, get, object⟩ := bind_eq_ok object
      cases get
      simp only [found₃] at object
      obtain ⟨name, wire, gives⟩ :=
        (speller_save plain room').global (Store.lt_size_of_cell found₃) object
      obtain ⟨is, wrote, named, -⟩ := gives.wrote
        (fun _ n here => absurd (here.symm.trans (fresh _)) (Option.some_ne_none n)) fun _ _ => fresh _
      refine ⟨name, wire, is, ?_, named⟩
      simpa using (before.wrote.trans wrote).trans after.wrote
  have whole := (announced.wrote.trans wrote).trans ended.wrote
  have spelled := whole.spells .nothing bare
  refine ⟨name, is, wire, named, spelled, fun early => spelled.eq_allBytes ?_⟩
  -- the bytes are as many as those of the instructions, so there is no room for frames
  obtain ⟨js, bs, wrote', written, -, exactly, -⟩ := dump_allowed rfl run
  have size := wrote'.offset.symm.trans whole.offset
  rw [written, exactly early]
  exact Nat.le_of_eq (by simpa [State.ofSink] using size)

/-- Before protocol 4 the stream of a global whose lines hold no newline is listed to its end: as
    instructions up to a `STOP`, the last byte. Every global among them carries the lines of the name or
    those of `getattr`. An undotted name without an extension code has one global, which carries its own
    lines, and a decoder looks these up. -/
theorem dumps_global_listed (early : cfg.protocol.val < 4) (plain : cfg.persistentId = none)
    (found : s.cells[id]? = some (.global g)) {name : Name} (wire : wireName cfg g = .ok name)
    (unbroken : name.Unbroken) (dumped : dumps cfg s (.ref id) = (.ok bytes, s')) :
    ∃ is, bytes = allBytes (is ++ [⟨.stop, ()⟩]) ∧
      Listing.ofBytes bytes = .ok (Listing.lines 0 (is ++ [⟨.stop, ()⟩])) ∧
      (∃ last, (Listing.lines 0 (is ++ [⟨.stop, ()⟩])).getLast? = some last ∧ last.op = .stop ∧
        last.offset + 1 = bytes.length) ∧
      (∀ operand, ⟨.global, operand⟩ ∈ is →
        operand = cfg.lines ⟨name.module, firstSegment name.qualname⟩ ∨
          operand = cfg.lines ⟨"builtins", "getattr"⟩) ∧
      (dottedSplits name.qualname = [] →
        (2 ≤ cfg.protocol.val → cfg.registry.extensionCode? name = none) →
        ∃ n, is = cfg.announcement ++ [⟨.global, cfg.lines name⟩, putInstruction cfg.protocol n]) ∧
      ∀ decoder : Decoder.Config H, Decoder.lineGlobal decoder .global (cfg.lines name).1
        (cfg.lines name).2 =
          Decoder.findGlobal decoder (cfg.lineName name).module (cfg.lineName name).qualname := by
  obtain ⟨name', is, wire', named, -, exactly⟩ := dumps_global_ok plain found dumped
  obtain rfl := Except.ok.inj (wire.symm.trans wire')
  obtain rfl := exactly early
  obtain ⟨given, n, js, -, spelling, rfl⟩ := named
  have announcement : ∀ i ∈ cfg.announcement, cfg.Lists name i := by
    unfold Config.announcement
    split
    · exact List.forall_mem_singleton.2 (.of trivial ⟨rfl, rfl⟩ (Nat.two_pow_pos 64))
    · exact List.forall_mem_nil _
  have lists : ∀ i ∈ cfg.announcement ++ (js ++ cfg.numbering given n), cfg.Lists name i :=
    List.forall_mem_append.2 ⟨announcement,
      List.forall_mem_append.2 ⟨spelling.lists early unbroken, cfg.lists_numbering _ _⟩⟩
  refine ⟨_, rfl, Listing.ofBytes_allBytes (fun i mem => ?_) fun i mem => (lists i mem).short,
    Listing.lines_stop _, fun operand mem => (lists _ mem).carries operand rfl,
    fun undotted uncoded => ?_, fun decoder => ?_⟩
  · exact ⟨(lists i mem).ordinary.not_stop, (lists i mem).ordinary.fits⟩
  · cases spelling with
    | extension late known => cases known.symm.trans (uncoded late)
    | texts late => exact absurd late (Nat.not_le.2 early)
    | lines => exact ⟨n, rfl⟩
    | nested _ dotted => cases undotted.symm.trans dotted
  · simp only [Decoder.lineGlobal, Config.lines, Text.ofUtf8?_utf8]
    rfl

end

/-- A global of a module. -/
def namedStore (qualname : String) : Store Empty := ⟨#[.global (.named "m" qualname)]⟩

theorem dumps_named (qualname : String) (operand : Shape.lines2.Operand)
    (lines : ∀ save, writeGlobal (shallow 2) save ⟨"m", qualname⟩ =
      (emit .global operand >>= fun _ => pure true)) :
    dumps (shallow 2) (namedStore qualname) (.ref 0) =
      (.ok (allBytes [⟨.proto, (2 : UInt8)⟩, ⟨.global, operand⟩, ⟨.binPut, (0 : UInt8)⟩, ⟨.stop, ()⟩]),
        namedStore qualname) := by
  refine dumps_of_drafts [(.object 0, 0)]
    [⟨.proto, (2 : UInt8)⟩, ⟨.global, operand⟩, ⟨.binPut, (0 : UInt8)⟩] (by decide) ?_
  refine drafts_new rfl rfl rfl ?_
  exact drafts_global ⟨"m", qualname⟩ operand rfl (lines _) (Nat.two_pow_pos 32) rfl (drafts_emit rfl)

theorem dumps_global_listed_named :
    ∃ is, dumps (shallow 2) (namedStore "f") (.ref 0) =
        (.ok [0x80, 2, 0x63, 0x6d, 0x0a, 0x66, 0x0a, 0x71, 0, 0x2e], namedStore "f") ∧
      [0x80, 2, 0x63, 0x6d, 0x0a, 0x66, 0x0a, 0x71, 0, 0x2e] = allBytes (is ++ [⟨.stop, ()⟩]) ∧
      Listing.ofBytes [0x80, 2, 0x63, 0x6d, 0x0a, 0x66, 0x0a, 0x71, 0, 0x2e] =
        .ok (Listing.lines 0 (is ++ [⟨.stop, ()⟩])) ∧
      ∃ n, is = (shallow 2).announcement ++ [⟨.global, ([0x6d], [0x66])⟩, putInstruction 2 n] := by
  have dumped := dumps_named "f" ([0x6d], [0x66]) fun _ => rfl
  have unbroken : Name.Unbroken ⟨"m", "f"⟩ := ⟨by decide, by decide⟩
  obtain ⟨is, whole, listed, -, -, lines, -⟩ :=
    dumps_global_listed (by decide) rfl rfl rfl unbroken dumped
  exact ⟨is, dumped, whole, listed, lines rfl fun _ => rfl⟩

/-- A newline in the name ends the line: what stands behind it is listed as an instruction, and then the
    newline that should end the line is no instruction. -/
theorem dumps_global_broken :
    dumps (shallow 2) (namedStore "f\nN") (.ref 0) =
        (.ok [0x80, 2, 0x63, 0x6d, 0x0a, 0x66, 0x0a, 0x4e, 0x0a, 0x71, 0, 0x2e], namedStore "f\nN") ∧
      Listing.ofBytes [0x80, 2, 0x63, 0x6d, 0x0a, 0x66, 0x0a, 0x4e, 0x0a, 0x71, 0, 0x2e] =
        .error (.decode (.unknownOpcode 0x0a 8)) :=
  ⟨dumps_named "f\nN" ([0x6d], [0x66, 0x0a, 0x4e]) fun _ => rfl, rfl⟩

end Encoder

end ObjectStream
