import ObjectStream.Buffer
import ObjectStream.Proofs.Intake

/-!
Files in memory.

A file has a length, a byte at every place and a position, which may lie behind its end (`File`). A
buffer shows a file if it holds the bytes and the position of the file (`Buffer.Shows`). Whatever is
done to a buffer, it answers as the file does and shows the file that comes of it, except that it comes
back to the end before it reads (`Buffer.Shows.performAll`). So a buffer is a file as long as no read
begins behind the end (`Buffer.performAll_shows_file`); one that does loses the position
(`Buffer.read_comes_back`).
-/

namespace ObjectStream

open Buffer (Whence)

/-- Bytes in a row with a position. What `byte` says of places behind the end does not matter. -/
structure File where
  size : Nat
  byte : Nat → UInt8
  position : Nat

namespace File

/-- The next `count` bytes. -/
def slice (f : File) (count : Nat) : Bytes :=
  (List.range count).map fun i => f.byte (f.position + i)

/-- The number of bytes from the position to the end. -/
def left (f : File) : Nat := f.size - f.position

/-- Takes the next bytes, and moves on by as many. -/
def take (f : File) (count : Nat) : Bytes × File :=
  (f.slice count, { f with position := f.position + count })

/-- Reads up to `n` bytes, as far as there are any. -/
def read (f : File) (n : Nat) : Bytes × File := f.take (min n f.left)

/-- The number of bytes up to the next newline, which counts as well; without one, all that are left. -/
def lineLength (f : File) : Nat :=
  match (List.range f.left).find? fun i => f.byte (f.position + i) == 0x0a with
  | some i => i + 1
  | none => f.left

/-- Reads a line with its newline, or what is left. -/
def readLine (f : File) : Bytes × File := f.take f.lineLength

/-- Lays bytes over the file from the position on. Between the former end and the position there are
    zeros then, and no other byte has changed. -/
def write (f : File) (bs : Bytes) : File where
  size := max f.size (f.position + bs.length)
  byte i :=
    if f.position ≤ i ∧ i < f.position + bs.length then bs.getD (i - f.position) 0
    else if i < f.size then f.byte i
    else 0
  position := f.position + bs.length

/-- Where offsets are counted from. -/
def base (f : File) : Whence → Nat
  | .start => 0
  | .current => f.position
  | .finish => f.size

/-- Moves to the place at an offset, unless it lies before the start or is no signed word. -/
def seek (f : File) (offset : Int) (whence : Whence) : Except String File :=
  let target := f.base whence + offset
  if 0 ≤ target ∧ target < 2 ^ 63 then .ok { f with position := target.toNat }
  else .error "negative seek position"

/-- The file with its position no further than the end. -/
def back (f : File) : File := { f with position := min f.position f.size }

end File

/-! ## Operations -/

/-- What can be done to a file. A source appends what it reads to `out`. -/
inductive Operation where
  | read (n : Nat)
  | write (bs : Bytes)
  | seek (offset : Int64) (whence : Whence)
  | sourceRead (n : Nat) (out : Bytes)
  | sourceLine (out : Bytes)
  | sinkWrite (bs : Bytes)

/-- Whether bytes are read. -/
def Operation.reads : Operation → Bool
  | .read _ | .sourceRead _ _ | .sourceLine _ => true
  | _ => false

/-- What an operation hands back. -/
inductive Answer where
  | bytes (bs : Bytes)
  /-- How many bytes were written, or where the position is. -/
  | number (n : Nat)
  /-- How many bytes were read, and what they were appended to. -/
  | appended (count : Nat) (out : Bytes)
  | done
  | refused (text : String)
  deriving DecidableEq

/-- Something that is read and written like a file. -/
structure Device (σ : Type) where
  position : σ → Nat
  read : σ → Nat → Bytes × σ
  readLine : σ → Bytes × σ
  write : σ → Bytes → σ
  seek : σ → Int → Whence → Except String σ

def Device.buffers : Device Buffer where
  position := Buffer.position
  read := Buffer.read
  readLine := Buffer.readLine
  write := Buffer.write
  seek := Buffer.seek

def Device.files : Device File where
  position := File.position
  read := File.read
  readLine := File.readLine
  write := File.write
  seek := File.seek

/-- Files that come back to the end before they read. -/
def Device.returning : Device File where
  position := File.position
  read f := f.back.read
  readLine f := f.back.readLine
  write := File.write
  seek := File.seek

namespace Device

variable {σ : Type} (d : Device σ)

/-- Carries an operation out. -/
def perform : Operation → σ → Answer × σ
  | .read n, s => (.bytes (d.read s n).1, (d.read s n).2)
  | .write bs, s => (.number bs.length, d.write s bs)
  | .seek offset whence, s =>
    match d.seek s offset.toInt whence with
    | .ok s' => (.number (d.position s'), s')
    | .error text => (.refused text, s)
  | .sourceRead n out, s =>
    (.appended (d.read s n).1.length (out ++ (d.read s n).1), (d.read s n).2)
  | .sourceLine out, s =>
    (.appended (d.readLine s).1.length (out ++ (d.readLine s).1), (d.readLine s).2)
  | .sinkWrite bs, s => (.done, d.write s bs)

/-- Carries operations out, one after the other. -/
def performAll : List Operation → σ → List Answer × σ
  | [], s => ([], s)
  | op :: ops, s =>
    ((d.perform op s).1 :: (performAll ops (d.perform op s).2).1,
      (performAll ops (d.perform op s).2).2)

end Device

/-- No operation reads from a position behind the end. -/
def File.ReadsInside : List Operation → File → Prop
  | [], _ => True
  | op :: ops, f =>
    (op.reads = true → f.position ≤ f.size) ∧ ReadsInside ops (Device.files.perform op f).2

instance File.decidableReadsInside : ∀ ops f, Decidable (File.ReadsInside ops f)
  | [], _ => .isTrue trivial
  | _ :: ops, _ =>
    have := decidableReadsInside ops
    inferInstanceAs (Decidable (_ ∧ _))

namespace File

variable {f : File}

theorem lineLength_le : f.lineLength ≤ f.left := by
  rw [lineLength]
  split
  · next i found =>
    have inside := List.mem_range.1 (List.mem_of_find?_eq_some found)
    omega
  · exact Nat.le_refl _

theorem back_of_le (h : f.position ≤ f.size) : f.back = f := by
  rw [back, Nat.min_eq_left h]

/-- From a position inside the file nothing has to come back. -/
theorem perform_returning {op : Operation} (h : op.reads = true → f.position ≤ f.size) :
    Device.returning.perform op f = Device.files.perform op f := by
  cases op with
  | read n | sourceRead n out | sourceLine out =>
    have same := back_of_le (h rfl)
    simp only [Device.perform, Device.returning, Device.files, same]
  | write bs | seek offset whence | sinkWrite bs => rfl

theorem performAll_returning {ops : List Operation} (h : ReadsInside ops f) :
    Device.returning.performAll ops f = Device.files.performAll ops f := by
  induction ops generalizing f with
  | nil => rfl
  | cons op ops ih =>
    obtain ⟨first, later⟩ := h
    simp only [Device.performAll, perform_returning first, ih later]

end File

/-! ## Buffers and files -/

namespace Buffer

/-- The buffer holds the bytes and the position of the file. -/
structure Shows (b : Buffer) (f : File) : Prop where
  size : b.data.length = f.size
  position : b.position = f.position
  bytes : ∀ i < f.size, b.data[i]? = some (f.byte i)

instance (b : Buffer) (f : File) : Decidable (b.Shows f) :=
  decidable_of_iff
    (b.data.length = f.size ∧ b.position = f.position ∧ ∀ i < f.size, b.data[i]? = some (f.byte i))
    ⟨fun h => ⟨h.1, h.2.1, h.2.2⟩, fun h => ⟨h.size, h.position, h.bytes⟩⟩

/-- The file that a buffer shows. -/
def file (b : Buffer) : File := ⟨b.data.length, fun i => b.data.getD i 0, b.position⟩

variable {b : Buffer} {f : File}

theorem shows_file (b : Buffer) : b.Shows b.file where
  size := rfl
  position := rfl
  bytes i inside := by
    have inside : i < b.data.length := inside
    simp [file, inside]

namespace Shows

variable (h : b.Shows f)
include h

/-! ### Reading -/

/-- The bytes from the position on are the next bytes of the file. -/
theorem getElem?_drop {i : Nat} (inside : i < f.left) :
    (b.data.drop f.position)[i]? = some (f.byte (f.position + i)) := by
  rw [File.left] at inside
  rw [List.getElem?_drop]
  apply h.bytes
  omega

theorem length_drop : (b.data.drop f.position).length = f.left := by
  rw [List.length_drop, h.size, File.left]

theorem take_drop (n : Nat) :
    (b.data.drop f.position).take n = f.slice (min n f.left) := by
  have length := h.length_drop
  apply List.ext_getElem?
  intro i
  by_cases here : i < min n f.left
  · rw [List.getElem?_take_of_lt (by omega), h.getElem?_drop (by omega)]
    simp only [File.slice, List.getElem?_map, List.getElem?_range here, Option.map_some]
  · rw [List.getElem?_eq_none, List.getElem?_eq_none]
    · rw [File.slice, List.length_map, List.length_range]
      omega
    · rw [List.length_take]
      omega

/-- The line before the position ends where that of the file ends. -/
theorem length_line : (Bytes.splitLine (b.data.drop f.position)).1.length = f.lineLength := by
  have length := h.length_drop
  rw [File.lineLength]
  rcases Bytes.splitLine_cases (b.data.drop f.position) with
    ⟨line, rest, newline, same, split⟩ | ⟨newline, split⟩
  · have count : line.length < f.left := by
      rw [← length, same, List.length_append, List.length_cons]
      omega
    -- The newline is the first: the bytes before it are those of the line.
    have found : (List.range f.left).find? (fun i => f.byte (f.position + i) == 0x0a) =
        some line.length := by
      rw [List.find?_range_eq_some]
      refine ⟨?_, List.mem_range.2 count, ?_⟩
      · have here := h.getElem?_drop count
        rw [same, List.getElem?_append_right (Nat.le_refl _), Nat.sub_self] at here
        simpa using here.symm
      · intro j before
        have here := h.getElem?_drop (Nat.lt_trans before count)
        rw [same, List.getElem?_append_left before] at here
        have other : f.byte (f.position + j) ≠ 0x0a := fun e =>
          newline (List.mem_of_getElem? (e ▸ here))
        simpa using other
    rw [split, found, List.length_append, List.length_singleton]
  · have missing : (List.range f.left).find? (fun i => f.byte (f.position + i) == 0x0a) = none := by
      rw [List.find?_eq_none]
      intro i mem
      have here := h.getElem?_drop (List.mem_range.1 mem)
      have other : f.byte (f.position + i) ≠ 0x0a := fun e =>
        newline (List.mem_of_getElem? (e ▸ here))
      simpa using other
    rw [split, missing, length]

/-- The buffer at the end, if its position lay behind it. -/
theorem back : ({ b with position := min b.position b.data.length } : Buffer).Shows f.back where
  size := h.size
  position := by rw [File.back, h.position, h.size]
  bytes := h.bytes

theorem read (n : Nat) :
    (b.read n).1 = (f.back.read n).1 ∧ (b.read n).2.Shows (f.back.read n).2 := by
  have start : min b.position b.data.length = f.back.position := h.back.position
  have got : (b.data.drop f.back.position).take n = f.back.slice (min n f.back.left) :=
    h.back.take_drop n
  have count : ((b.data.drop f.back.position).take n).length = min n f.back.left := by
    rw [List.length_take, h.back.length_drop]
  refine ⟨?_, h.size, ?_, h.bytes⟩
  · rw [Buffer.read, start, got]
    rfl
  · simp only [Buffer.read, start, count]
    rfl

/-- Behind the end there is no line, as there is none at the end. -/
theorem readLine :
    b.readLine.1 = f.back.readLine.1 ∧ b.readLine.2.Shows f.back.readLine.2 := by
  have same : b.data.drop b.position = b.data.drop f.back.position := by
    rw [← h.back.position]
    by_cases inside : b.position ≤ b.data.length
    · rw [Nat.min_eq_left inside]
    · rw [Nat.min_eq_right (by omega), List.drop_of_length_le (by omega),
        List.drop_of_length_le (Nat.le_refl _)]
  have line : (Bytes.splitLine (b.data.drop b.position)).1.length = f.back.lineLength := by
    rw [same]
    exact h.back.length_line
  have whole : f.back.read f.back.lineLength = f.back.readLine := by
    rw [File.read, Nat.min_eq_left File.lineLength_le, File.readLine]
  rw [Buffer.readLine, line, ← whole]
  exact h.read _

/-! ### Writing and moving -/

theorem write (bs : Bytes) : (b.write bs).Shows (f.write bs) where
  size := by
    simp only [Buffer.write, File.write, List.length_append, List.length_take,
      List.length_replicate, List.length_drop, h.size, h.position]
    omega
  position := by
    rw [Buffer.write, File.write, h.position]
  bytes i inside := by
    have size := h.size
    have shorter : i < max f.size (f.position + bs.length) := inside
    have before : (b.data.take b.position ++
        List.replicate (b.position - b.data.length) 0).length = f.position := by
      simp only [List.length_append, List.length_take, List.length_replicate, h.position]
      omega
    simp only [Buffer.write, File.write]
    -- Four stretches: the old bytes, the gap, the new bytes, and the old bytes behind them.
    by_cases left : i < f.position
    · rw [List.append_assoc, List.getElem?_append_left (by omega), if_neg (by omega)]
      by_cases old : i < f.size
      · rw [List.getElem?_append_left (by rw [List.length_take, h.position]; omega),
          List.getElem?_take_of_lt (by rw [h.position]; exact left), h.bytes i old, if_pos old]
      · rw [List.getElem?_append_right (by rw [List.length_take]; omega), if_neg old,
          List.getElem?_replicate_of_lt (by rw [List.length_take, h.position]; omega)]
    · by_cases within : i < f.position + bs.length
      · have count : i - f.position < bs.length := by omega
        rw [List.getElem?_append_left (by rw [List.length_append, before]; omega),
          List.getElem?_append_right (by omega), before, if_pos ⟨by omega, within⟩,
          List.getElem?_eq_getElem count, List.getD_eq_getElem?_getD,
          List.getElem?_eq_getElem count, Option.getD_some]
      · rw [List.getElem?_append_right (by rw [List.length_append, before]; omega),
          List.length_append, before, List.getElem?_drop, h.position, if_neg (by omega),
          if_pos (by omega), show f.position + bs.length + (i - (f.position + bs.length)) = i by omega]
        apply h.bytes
        omega

/-- Both move to the same place, or refuse with the same text. -/
theorem seek (offset : Int) (whence : Whence) :
    (∃ place, b.seek offset whence = .ok { b with position := place } ∧
        f.seek offset whence = .ok { f with position := place }) ∨
      ∃ text, b.seek offset whence = .error text ∧ f.seek offset whence = .error text := by
  have moves : b.seek offset whence =
      if 0 ≤ f.base whence + offset ∧ f.base whence + offset < 2 ^ 63 then
        .ok { b with position := (f.base whence + offset).toNat }
      else .error "negative seek position" := by
    cases whence with
    | start => rfl
    | current =>
      rw [File.base, ← h.position]
      rfl
    | finish =>
      rw [File.base, ← h.size]
      rfl
  rw [moves, File.seek]
  by_cases inside : 0 ≤ f.base whence + offset ∧ f.base whence + offset < 2 ^ 63
  · rw [if_pos inside, if_pos inside]
    exact .inl ⟨_, rfl, rfl⟩
  · rw [if_neg inside, if_neg inside]
    exact .inr ⟨_, rfl, rfl⟩

/-! ### Runs -/

/-- Whatever is done, the buffer answers like a file that comes back to its end before it reads. -/
theorem perform (op : Operation) :
    (Device.buffers.perform op b).1 = (Device.returning.perform op f).1 ∧
      (Device.buffers.perform op b).2.Shows (Device.returning.perform op f).2 := by
  cases op with
  | read n =>
    obtain ⟨got, shows⟩ := h.read n
    exact ⟨congrArg Answer.bytes got, shows⟩
  | write bs => exact ⟨rfl, h.write bs⟩
  | seek offset whence =>
    simp only [Device.perform, Device.buffers, Device.returning]
    rcases h.seek offset.toInt whence with ⟨place, moved, moves⟩ | ⟨text, refused, refuses⟩
    · rw [moved, moves]
      exact ⟨rfl, h.size, rfl, h.bytes⟩
    · rw [refused, refuses]
      exact ⟨rfl, h⟩
  | sourceRead n out =>
    obtain ⟨got, shows⟩ := h.read n
    exact ⟨congrArg (fun bs : Bytes => Answer.appended bs.length (out ++ bs)) got, shows⟩
  | sourceLine out =>
    obtain ⟨got, shows⟩ := h.readLine
    exact ⟨congrArg (fun bs : Bytes => Answer.appended bs.length (out ++ bs)) got, shows⟩
  | sinkWrite bs => exact ⟨rfl, h.write bs⟩

theorem performAll (ops : List Operation) :
    (Device.buffers.performAll ops b).1 = (Device.returning.performAll ops f).1 ∧
      (Device.buffers.performAll ops b).2.Shows (Device.returning.performAll ops f).2 := by
  induction ops generalizing b f with
  | nil => exact ⟨rfl, h⟩
  | cons op ops ih =>
    obtain ⟨answer, shows⟩ := h.perform op
    obtain ⟨answers, last⟩ := ih shows
    simp only [Device.performAll, answer, answers]
    exact ⟨trivial, last⟩

end Shows

/-- A buffer that shows a file answers every operation as the file does and goes on to show it, as
    long as no read begins behind the end. -/
theorem performAll_shows_file {b : Buffer} {f : File} {ops : List Operation} (shows : b.Shows f)
    (inside : f.ReadsInside ops) :
    (Device.buffers.performAll ops b).1 = (Device.files.performAll ops f).1 ∧
      (Device.buffers.performAll ops b).2.Shows (Device.files.performAll ops f).2 := by
  rw [← File.performAll_returning inside]
  exact shows.performAll ops

/-- A gap is filled behind the end; the line in front of it and the rest are then read back. -/
theorem performAll_shows_gap :
    File.ReadsInside [.seek 4 .start, .write [0x63], .seek (-3) .finish, .read 9, .seek 0 .start,
        .sourceLine [0x2d], .seek (-9) .current] (file ⟨[0x61, 0x0a], 0⟩) ∧
      (Device.buffers.performAll [.seek 4 .start, .write [0x63], .seek (-3) .finish, .read 9,
          .seek 0 .start, .sourceLine [0x2d], .seek (-9) .current] ⟨[0x61, 0x0a], 0⟩).1 =
        [.number 4, .number 1, .number 2, .bytes [0, 0, 0x63], .number 0,
          .appended 2 [0x2d, 0x61, 0x0a], .refused "negative seek position"] :=
  have inside : File.ReadsInside [.seek 4 .start, .write [0x63], .seek (-3) .finish, .read 9,
      .seek 0 .start, .sourceLine [0x2d], .seek (-9) .current] (file ⟨[0x61, 0x0a], 0⟩) := by decide
  ⟨inside, (performAll_shows_file (shows_file _) inside).1.trans (by decide)⟩

/-- A read behind the end comes back to the end. What is written next follows the bytes at once, while
    in the file it lies behind a gap. -/
theorem read_comes_back :
    (Device.buffers.performAll [.seek 4 .start, .read 1, .write [0x63]] ⟨[0x61, 0x62], 0⟩).2 =
        ⟨[0x61, 0x62, 0x63], 3⟩ ∧
      ¬ Shows ⟨[0x61, 0x62, 0x63], 3⟩
        (Device.files.performAll [.seek 4 .start, .read 1, .write [0x63]]
          (file ⟨[0x61, 0x62], 0⟩)).2 := by
  decide

end Buffer

end ObjectStream
