import Mathlib.Data.Nat.PSub
import ObjectStream.Proofs.Intake

/-!
A frame and a cursor into it.

A reader keeps the unread bytes of its frame and its place in the stream. It may as well keep the
whole frame, a cursor into it, and the number of bytes that it has taken from its source. Then each
of its acts takes differences and slices that could be out of range. A `Window` is such a reader, and
none of its acts gives a result if a difference falls below zero or a slice goes past an end. Its
bounds (`Window.Sound`) hold from the beginning, no act loses them, and under them each act gives the
result of the reader (`mirrors_read`, `mirrors_readLine`, `mirrors_loadFrame`). So whatever is done
to a reader, one act after the other, its window carries out (`Window.Sound.carries`).
-/

namespace ObjectStream

/-- The bytes before a place, if it is in range. -/
def Bytes.before? (bs : Bytes) (place : Nat) : Option Bytes :=
  if place ≤ bs.length then some (bs.take place) else none

/-- The bytes from a place on, if it is in range. -/
def Bytes.from? (bs : Bytes) (place : Nat) : Option Bytes :=
  if place ≤ bs.length then some (bs.drop place) else none

/-- The state behind a run, whether it failed or not. -/
def behind {ε σ α : Type} : EStateM.Result ε σ α → σ
  | .ok _ s => s
  | .error _ s => s

/-- The run with its state seen in another way. -/
def seen {ε σ τ α : Type} (f : σ → τ) : EStateM.Result ε σ α → EStateM.Result ε τ α
  | .ok a s => .ok a (f s)
  | .error e s => .error e (f s)

namespace Frame

/-- A source behind a whole frame, of which the bytes before the cursor were read. -/
structure Window where
  source : Source
  frame : Bytes := []
  /-- How many bytes of the frame were read. -/
  cursor : Nat := 0
  inFrame : Bool := false
  /-- How many bytes were taken from the source, frame headers included. -/
  consumed : Nat := 0

namespace Window

/-- The window of a source that nothing was read from. -/
def ofSource (s : Source) : Window := { source := s }

/-- The offset of the next unread byte. -/
def position? (w : Window) : Option Nat := do
  let unread ← Nat.psub w.frame.length w.cursor
  Nat.psub w.consumed unread

/-- The window without a frame. -/
def clear (w : Window) : Window := { w with frame := [], cursor := 0 }

/-- Forgets the frame, if there is one. -/
def dropFrame (w : Window) : Window :=
  match w.frame with
  | [] => w
  | _ => w.clear

/-- Reads from the source by `action`, past any frame. -/
def readSource (action : Source → Except String (Bytes × Source)) (w : Window) :
    EStateM.Result Error Window Bytes :=
  let w := w.dropFrame
  match action w.source with
  | .error text => .error (.io text) w
  | .ok (got, source) => .ok got { w with source := source, consumed := w.consumed + got.length }

/-- Reads up to `n` bytes. Inside a frame all of them have to be there. -/
def read? (n : Nat) (w : Window) : Option (EStateM.Result Error Window Bytes) :=
  if w.inFrame then do
    let rest ← w.frame.from? w.cursor
    if rest.isEmpty && n != 0 then some (readSource (·.read n) { w with inFrame := false })
    else if rest.length < n then some (.error (.decode .frameExhausted) w)
    else do
      let got ← rest.before? n
      some (.ok got { w with cursor := w.cursor + n })
  else some (readSource (·.read n) w)

/-- Reads a line with its newline; at the end of the source the newline may be missing. -/
def readLine? (w : Window) : Option (EStateM.Result Error Window Bytes) :=
  if w.inFrame then do
    let rest ← w.frame.from? w.cursor
    if rest.isEmpty then some (readSource Source.readLine { w with inFrame := false })
    else
      match rest.findIdx? (· == 0x0a) with
      | none => some (.error (.decode .frameExhausted) w)
      | some place => do
        let got ← rest.before? (place + 1)
        some (.ok got { w with cursor := w.cursor + (place + 1) })
  else some (readSource Source.readLine w)

/-- Whether a frame is open that has unread bytes. -/
def overlaps? (w : Window) : Option Bool :=
  if w.inFrame then do
    let rest ← w.frame.from? w.cursor
    some !rest.isEmpty
  else some false

/-- Loads a frame of `length` bytes. -/
def loadFrame? (length : Nat) (w : Window) : Option (EStateM.Result Error Window Unit) := do
  if ← w.overlaps? then some (.error (.decode .frameOverlap) w)
  else
    let w := w.clear
    match w.source.read length with
    | .error text => some (.error (.io text) w)
    | .ok (got, source) =>
      let w := { w with source := source, frame := got, consumed := w.consumed + got.length }
      if got.length < length then some (.error (.decode .frameExhausted) w)
      else some (.ok () { w with inFrame := true })

/-- The reader that keeps only what is unread. -/
def view (w : Window) : Reader where
  source := w.source
  frame := w.frame.drop w.cursor
  inFrame := w.inFrame
  position := w.consumed - (w.frame.length - w.cursor)

/-- The cursor is inside the frame, the frame among the bytes taken, and no longer than the limit. -/
structure Sound (limit : Nat) (w : Window) : Prop where
  cursor : w.cursor ≤ w.frame.length
  frame : w.frame.length ≤ w.consumed
  short : w.frame.length ≤ limit
  taken : w.consumed = w.source.taken

variable {limit : Nat} {w : Window} {α : Type}

theorem sound_ofSource {s : Source} (fresh : s.taken = 0) : (ofSource s).Sound limit :=
  ⟨Nat.le_refl _, Nat.le_refl _, Nat.zero_le _, fresh.symm⟩

theorem Sound.position? (h : w.Sound limit) : w.position? = some w.view.position := by
  have inside : w.frame.length - w.cursor ≤ w.consumed := (Nat.sub_le _ _).trans h.frame
  simp only [Window.position?, Nat.psub_eq_sub h.cursor, Option.bind_eq_bind, Option.bind_some,
    Nat.psub_eq_sub inside]
  rfl

theorem Sound.unread (h : w.Sound limit) : w.frame.from? w.cursor = some w.view.frame :=
  if_pos h.cursor

/-! ## Acts -/

/-- Under the bounds the act stays in range, keeps the bounds, and does to the view of a window what
    the reader does. -/
def Mirrors (limit : Nat) (x : Window → Option (EStateM.Result Error Window α))
    (y : EStateM Error Reader α) : Prop :=
  ∀ w : Window, w.Sound limit →
    ∃ result, x w = some result ∧ (behind result).Sound limit ∧ y w.view = seen view result

/-- A source counts the bytes that it hands out. -/
theorem taken_of_advance {s s' : Source} {got rest got' : Bytes}
    (h : s.advance got rest = .ok (got', s')) : s'.taken = s.taken + got'.length := by
  unfold Source.advance at h
  dsimp only at h
  split at h
  · split at h
    · cases h
    · cases h
      rfl
  · cases h
    rfl

theorem Sound.clear (h : w.Sound limit) : w.clear.Sound limit :=
  ⟨Nat.le_refl _, Nat.zero_le _, Nat.zero_le _, h.taken⟩

/-- A cursor into an empty frame is at its beginning. -/
theorem Sound.dropFrame (h : w.Sound limit) : w.dropFrame = w.clear := by
  unfold Window.dropFrame
  split
  · next none =>
    have start : w.cursor = 0 := by
      have inside := h.cursor
      rw [none] at inside
      exact Nat.le_zero.1 inside
    rw [Window.clear, ← none, ← start]
  · rfl

/-- A frame that was read to its end is forgotten as well, which the view does not show. -/
theorem Sound.view_clear (h : w.Sound limit) : w.clear.view = w.view.dropFrame := by
  have inside := h.cursor
  have among := h.frame
  have unread : w.view.frame.length = w.frame.length - w.cursor := List.length_drop
  cases rest : w.view.frame with
  | nil =>
    have whole : w.frame.length - w.cursor = 0 := by
      rw [← unread, rest]
      rfl
    have unread : w.frame.drop w.cursor = [] := rest
    simp only [Reader.dropFrame, rest]
    simp [view, Window.clear, whole, unread]
  | cons byte bytes =>
    have position : w.consumed = w.view.position + (byte :: bytes).length := by
      rw [← rest, unread]
      simp only [view]
      omega
    simp only [Reader.dropFrame, rest, ← position]
    simp [view, Window.clear]

/-- What is taken from the source is counted. -/
theorem readSource_sound (action : Source → Except String (Bytes × Source))
    (counts : ∀ {s s' got}, action s = .ok (got, s') → s'.taken = s.taken + got.length)
    (h : w.Sound limit) :
    (behind (readSource action w)).Sound limit ∧
      Reader.readSource action w.view = seen view (readSource action w) := by
  unfold readSource Reader.readSource
  rw [h.dropFrame, ← h.view_clear]
  dsimp only
  cases run : action w.source with
  | error text =>
    have run' : action w.clear.source = .error text := run
    have run'' : action w.clear.view.source = .error text := run
    rw [run', run'']
    exact ⟨h.clear, rfl⟩
  | ok result =>
    obtain ⟨got, source⟩ := result
    have run' : action w.clear.source = .ok (got, source) := run
    have run'' : action w.clear.view.source = .ok (got, source) := run
    have taken : w.consumed + got.length = source.taken := by rw [counts run, ← h.taken]
    rw [run', run'']
    exact ⟨⟨Nat.le_refl _, Nat.zero_le _, Nat.zero_le _, taken⟩, rfl⟩

theorem Sound.outside (h : w.Sound limit) : ({ w with inFrame := false } : Window).Sound limit :=
  ⟨h.cursor, h.frame, h.short, h.taken⟩

/-- The cursor goes on inside the frame. -/
theorem Sound.advance {n : Nat} (h : w.Sound limit) (inside : n ≤ w.view.frame.length) :
    ({ w with cursor := w.cursor + n } : Window).Sound limit ∧
      ({ w with cursor := w.cursor + n } : Window).view =
        { w.view with frame := w.view.frame.drop n, position := w.view.position + n } := by
  have cursor := h.cursor
  have among := h.frame
  have unread : w.view.frame.length = w.frame.length - w.cursor := List.length_drop
  constructor
  · refine ⟨?_, among, h.short, h.taken⟩
    show w.cursor + n ≤ w.frame.length
    omega
  · simp only [view, List.drop_drop, Reader.mk.injEq, true_and]
    omega

theorem mirrors_read (n : Nat) : Mirrors limit (read? n) (Reader.read n) := by
  intro w h
  have source {w : Window} (h : w.Sound limit) :=
    readSource_sound (fun s => s.read n) taken_of_advance h
  unfold read? Reader.read
  by_cases inFrame : w.inFrame = true
  · have inFrame' : w.view.inFrame = true := inFrame
    rw [if_pos inFrame, if_pos inFrame', h.unread]
    simp only [Option.bind_eq_bind, Option.bind_some]
    -- a frame that is used up is left, and the source is asked instead
    by_cases leaves : (w.view.frame.isEmpty && n != 0) = true
    · rw [if_pos leaves, if_pos leaves]
      exact ⟨_, rfl, source h.outside⟩
    · rw [if_neg leaves, if_neg leaves]
      simp only [List.splitAt_eq, List.length_take]
      by_cases short : w.view.frame.length < n
      · rw [if_pos short, if_pos (by omega)]
        exact ⟨_, rfl, h, rfl⟩
      -- the frame has as many bytes, so the slice and the new cursor are inside it
      · have inside : n ≤ w.view.frame.length := Nat.le_of_not_lt short
        have slice : w.view.frame.before? n = some (w.view.frame.take n) := if_pos inside
        obtain ⟨bounds, same⟩ := h.advance inside
        rw [if_neg short, if_neg (by omega), slice]
        exact ⟨_, rfl, bounds, by rw [seen, same]⟩
  · have outside : ¬w.view.inFrame = true := inFrame
    rw [if_neg inFrame, if_neg outside]
    exact ⟨_, rfl, source h⟩

/-- A line ends at the first newline. -/
theorem findIdx?_newline (bs : Bytes) :
    (∃ place, bs.findIdx? (· == 0x0a) = some place ∧ place + 1 ≤ bs.length ∧
      Bytes.splitLine bs = (bs.take (place + 1), bs.drop (place + 1)) ∧
      (bs.take (place + 1)).getLast? = some 0x0a) ∨
    bs.findIdx? (· == 0x0a) = none ∧ Bytes.splitLine bs = (bs, []) ∧ bs.getLast? ≠ some 0x0a := by
  rcases Bytes.splitLine_cases bs with ⟨line, rest, none, same, split⟩ | ⟨none, split⟩
  · left
    have head : bs.take (line.length + 1) = line ++ [0x0a] := by simp [same, List.take_append]
    have tail : bs.drop (line.length + 1) = rest := by simp [same, List.drop_append]
    refine ⟨line.length, ?_, by simp [same], by rw [split, head, tail], by simp [head]⟩
    have before : line.findIdx? (· == 0x0a) = .none := by
      rw [List.findIdx?_eq_none_iff]
      intro b mem
      simpa using fun is : b = 0x0a => none (is ▸ mem)
    rw [same, List.findIdx?_append, before, List.findIdx?_cons]
    simp
  · right
    refine ⟨?_, split, Bytes.getLast?_ne_newline none⟩
    rw [List.findIdx?_eq_none_iff]
    intro b mem
    simpa using fun is : b = 0x0a => none (is ▸ mem)

theorem mirrors_readLine : Mirrors limit readLine? Reader.readLine := by
  intro w h
  have source {w : Window} (h : w.Sound limit) :=
    readSource_sound Source.readLine taken_of_advance h
  unfold readLine? Reader.readLine
  by_cases inFrame : w.inFrame = true
  · have inFrame' : w.view.inFrame = true := inFrame
    rw [if_pos inFrame, if_pos inFrame', h.unread]
    simp only [Option.bind_eq_bind, Option.bind_some]
    by_cases leaves : w.view.frame.isEmpty = true
    · rw [if_pos leaves, if_pos leaves]
      exact ⟨_, rfl, source h.outside⟩
    · rw [if_neg leaves, if_neg leaves]
      obtain ⟨place, found, inside, split, newline⟩ | ⟨missing, split, open_⟩ :=
        findIdx?_newline w.view.frame
      · have slice : w.view.frame.before? (place + 1) = some (w.view.frame.take (place + 1)) :=
          if_pos inside
        obtain ⟨bounds, same⟩ := h.advance inside
        rw [found, split]
        dsimp only
        rw [slice, if_pos newline]
        refine ⟨_, rfl, bounds, ?_⟩
        rw [seen, same, List.length_take_of_le inside]
      -- a line does not go on behind the end of a frame
      · rw [missing, split]
        dsimp only
        rw [if_neg open_]
        exact ⟨_, rfl, h, rfl⟩
  · have outside : ¬w.view.inFrame = true := inFrame
    rw [if_neg inFrame, if_neg outside]
    exact ⟨_, rfl, source h⟩

/-- A source hands out no more bytes than it was asked for. -/
theorem length_le_of_read {s s' : Source} {n : Nat} {got : Bytes} (h : s.read n = .ok (got, s')) :
    got.length ≤ n := by
  unfold Source.read Source.advance at h
  rw [List.splitAt_eq] at h
  dsimp only at h
  have took : (s.unread.take n).length ≤ n := List.length_take_le ..
  split at h
  · split at h
    · cases h
    · cases h
      exact took
  · cases h
    exact took

theorem Sound.overlaps? (h : w.Sound limit) :
    w.overlaps? = some (w.view.inFrame && !w.view.frame.isEmpty) := by
  unfold Window.overlaps?
  cases inFrame : w.inFrame with
  | false => simp [view, inFrame]
  | true =>
    rw [if_pos rfl, h.unread]
    simp [view, inFrame]

/-- A frame that is cut off by the end of the source stays within the limit too. -/
theorem mirrors_loadFrame {length : Nat} (short : length ≤ limit) :
    Mirrors limit (loadFrame? length) (Reader.loadFrame length) := by
  intro w h
  unfold loadFrame? Reader.loadFrame
  rw [h.overlaps?]
  simp only [Option.bind_eq_bind, Option.bind_some]
  -- a frame may begin only where the one before is used up
  by_cases overlaps : (w.view.inFrame && !w.view.frame.isEmpty) = true
  · rw [if_pos overlaps, if_pos overlaps]
    exact ⟨_, rfl, h, rfl⟩
  · rw [if_neg overlaps, if_neg overlaps]
    rw [← h.view_clear]
    cases run : w.source.read length with
    | error text =>
      have run' : w.clear.source.read length = .error text := run
      have run'' : w.clear.view.source.read length = .error text := run
      rw [run', run'']
      exact ⟨_, rfl, h.clear, rfl⟩
    | ok result =>
      obtain ⟨got, source⟩ := result
      have run' : w.clear.source.read length = .ok (got, source) := run
      have run'' : w.clear.view.source.read length = .ok (got, source) := run
      have taken : w.consumed + got.length = source.taken := by
        rw [taken_of_advance run, ← h.taken]
      have bounds (inFrame : Bool) : Sound limit
          ⟨source, got, 0, inFrame, w.consumed + got.length⟩ :=
        ⟨Nat.zero_le _, Nat.le_add_left .., (length_le_of_read run).trans short, taken⟩
      rw [run', run'']
      dsimp only
      by_cases cut : got.length < length
      · rw [if_pos cut, if_pos cut]
        exact ⟨_, rfl, bounds _, by simp [seen, view, Window.clear]⟩
      · rw [if_neg cut, if_neg cut]
        exact ⟨_, rfl, bounds true, by simp [seen, view, Window.clear]⟩

end Window

/-- A reader hands out no more bytes than it was asked for. -/
theorem Reader.length_le_of_read {r r' : Reader} {n : Nat} {got : Bytes}
    (h : Reader.read n r = .ok got r') : got.length ≤ n := by
  have source {r : Reader} (h : Reader.readSource (·.read n) r = .ok got r') : got.length ≤ n := by
    unfold Reader.readSource at h
    dsimp only at h
    split at h
    · cases h
    · next run =>
      cases h
      exact Window.length_le_of_read run
  unfold Reader.read at h
  split at h
  · split at h
    · exact source h
    · dsimp only at h
      split at h
      · cases h
      · cases h
        rw [List.splitAt_eq]
        exact List.length_take_le ..
  · exact source h

/-! ## Acts one after the other -/

/-- What may be done to a reader. -/
inductive Act where
  | read (count : Nat)
  | readLine
  | loadFrame (length : Nat)

/-- A frame that the act loads is no longer than the limit. -/
def Act.Within (limit : Nat) : Act → Prop
  | .loadFrame length => length ≤ limit
  | _ => True

/-- The reader behind an act, whether that fails or not. -/
def Reader.after (r : Reader) : Act → Reader
  | .read count => behind (r.read count)
  | .readLine => behind r.readLine
  | .loadFrame length => behind (r.loadFrame length)

/-- The window behind an act, in front of which its offset is asked for. -/
def Window.after? (w : Window) (act : Act) : Option Window := do
  let _ ← w.position?
  match act with
  | .read count => (w.read? count).map behind
  | .readLine => w.readLine?.map behind
  | .loadFrame length => (w.loadFrame? length).map behind

namespace Window

variable {limit : Nat} {w : Window}

/-- One act. -/
theorem Sound.after? {act : Act} (h : w.Sound limit) (within : act.Within limit) :
    ∃ w', w.after? act = some w' ∧ w'.Sound limit ∧ w'.view = w.view.after act := by
  have carried {α : Type} {x : Window → Option (EStateM.Result Error Window α)}
      {y : EStateM Error Reader α} (mirrors : Mirrors limit x y) :
      ∃ w', (x w).map behind = some w' ∧ w'.Sound limit ∧ w'.view = behind (y w.view) := by
    obtain ⟨result, run, bounds, same⟩ := mirrors w h
    refine ⟨behind result, by rw [run, Option.map_some], bounds, ?_⟩
    rw [same]
    cases result <;> rfl
  unfold Window.after?
  rw [h.position?]
  cases act with
  | read count => exact carried (mirrors_read count)
  | readLine => exact carried mirrors_readLine
  | loadFrame length => exact carried (mirrors_loadFrame within)

/-- Whatever is done to a reader, its window carries it out inside its bounds. -/
theorem Sound.carries {acts : List Act} (h : w.Sound limit)
    (within : ∀ act ∈ acts, act.Within limit) :
    ∃ w', acts.foldlM Window.after? w = some w' ∧ w'.Sound limit ∧
      w'.view = acts.foldl Reader.after w.view := by
  induction acts generalizing w with
  | nil => exact ⟨w, rfl, h, rfl⟩
  | cons act rest ih =>
    obtain ⟨first, run, bounds, same⟩ := h.after? (within act (List.mem_cons_self ..))
    obtain ⟨last, run', bounds', same'⟩ :=
      ih bounds fun act mem => within act (List.mem_cons_of_mem _ mem)
    refine ⟨last, ?_, bounds', by rw [same', same, List.foldl_cons]⟩
    rw [List.foldlM_cons, run]
    exact run'

end Window

end Frame
end ObjectStream
