import ObjectStream.Proofs.Window

/-!
What a reader has delivered.

Reads, lines and frames are asked of a reader one after the other, and some of these acts fail. An act
fails only inside a frame that has bytes left, and then nothing is done (`run_eq_error`). Any other act
delivers the bytes to come, and inside a frame none from behind its end (`run_passed`,
`run_inside`). So as long as no frame is longer than what the source has left, every byte of the source
is delivered, waits in the frame or waits in the source, and the position counts those that were
delivered (`delivered_accounts`).
-/

namespace ObjectStream.Frame

/-- Carries the act out. The bytes of a frame are not delivered when the frame is loaded. -/
def Act.run : Act → EStateM Error Reader Bytes
  | .read count => Reader.read count
  | .readLine => Reader.readLine
  | .loadFrame length => do
    Reader.loadFrame length
    pure []

/-- The bytes that a run delivers. A run that fails delivers none. -/
def delivery : EStateM.Result Error Reader Bytes → Bytes
  | .ok got _ => got
  | .error _ _ => []

theorem Act.Within.mono {act : Act} {limit limit' : Nat} (h : act.Within limit)
    (le : limit ≤ limit') : act.Within limit' := by
  cases act with
  | loadFrame length => exact Nat.le_trans h le
  | _ => trivial

namespace Reader

/-- The bytes that acts deliver, one after the other. -/
def delivered : Reader → List Act → Bytes
  | _, [] => []
  | r, act :: rest => delivery (act.run r) ++ (r.after act).delivered rest

/-- The act loads no frame that runs off the end of the source. -/
def Fits (r : Reader) : Act → Prop
  | .loadFrame length => r.frame = [] → length ≤ r.source.unread.length
  | _ => True

/-- None of the acts, one after the other, loads a frame that runs off the end of the source. -/
def AllFit : Reader → List Act → Prop
  | _, [] => True
  | r, act :: rest => r.Fits act ∧ (r.after act).AllFit rest

/-- Why an act is refused inside a frame that has bytes left. -/
def Refuses (r : Reader) : Act → Error → Prop
  | .read count, e => r.frame.length < count ∧ e = .decode .frameExhausted
  | .readLine, e => 0x0a ∉ r.frame ∧ e = .decode .frameExhausted
  | .loadFrame _, e => e = .decode .frameOverlap

/-- What an act that is not refused has delivered, and left to be read: as many bytes as it was asked
    for, or a line with its newline, or else all that there was. -/
def Serves (r' : Reader) : Act → Bytes → Prop
  | .read count, got => got.length = count ∨ got.length < count ∧ r'.upcoming = []
  | .readLine, got =>
    (∃ line, 0x0a ∉ line ∧ got = line ++ [0x0a]) ∨ 0x0a ∉ got ∧ r'.upcoming = []
  | .loadFrame length, got => got = [] ∧ r'.inFrame = true ∧ r'.frame.length = length

variable {r r' : Reader} {act : Act} {acts : List Act} {got : Bytes} {e : Error}

theorem behind_run (r : Reader) (act : Act) : behind (act.run r) = r.after act := by
  cases act with
  | loadFrame length =>
    simp only [Act.run, Reader.after, bind_apply]
    cases loadFrame length r <;> rfl
  | _ => rfl

theorem Sound.inFrame (sound : r.Sound) (held : r.frame ≠ []) : r.inFrame = true := by
  by_contra out
  exact held (sound.outside (Bool.eq_false_iff.2 out))

/-! ## One act -/

/-- An act that runs through delivers the bytes to come. -/
theorem run_passed (sound : r.Sound) (run : act.run r = .ok got r') :
    r.Passed r' got ∧ r'.Serves act got := by
  cases act with
  | read count => exact read_passed sound run
  | readLine => exact readLine_passed sound run
  | loadFrame length =>
    obtain ⟨⟨⟩, r₁, loaded, done⟩ := bind_eq_ok run
    cases done
    have passed := loadFrame_full sound loaded
    refine ⟨passed, rfl, ?_⟩
    by_cases frame : r.frame = []
    · rw [loadFrame_source sound frame] at loaded
      split at loaded
      · cases loaded
      · next enough =>
        cases loaded
        exact ⟨rfl, List.length_take_of_le (Nat.le_of_not_lt enough)⟩
    · rw [loadFrame_held sound frame] at loaded
      cases loaded

/-- Inside a frame that has bytes left, an act that runs through takes from the frame only. -/
theorem run_inside (sound : r.Sound) (held : r.frame ≠ []) (run : act.run r = .ok got r') :
    r.frame = got ++ r'.frame ∧ r'.source = r.source := by
  have inFrame := sound.inFrame held
  cases act with
  | read count =>
    rw [Act.run, read_held inFrame (.inl held)] at run
    split at run
    · cases run
    · cases run
      exact ⟨(List.take_append_drop ..).symm, rfl⟩
  | readLine =>
    rw [Act.run, readLine_held inFrame held] at run
    split at run
    · cases run
      exact ⟨(Bytes.splitLine_append _).symm, rfl⟩
    · cases run
  | loadFrame length =>
    rw [Act.run, bind_apply, loadFrame_held sound held] at run
    cases run

/-- An act fails only inside a frame that has bytes left, and then it changes nothing. -/
theorem run_eq_error (sound : r.Sound) (fits : r.Fits act) :
    act.run r = .error e r' ↔ r' = r ∧ r.frame ≠ [] ∧ r.Refuses act e := by
  by_cases frame : r.frame = []
  · -- behind a frame the source answers, and it fails nowhere
    simp only [frame, ne_eq, not_true_eq_false, false_and, and_false, iff_false]
    intro run
    cases act with
    | read count =>
      rcases sound.cases count with ⟨inFrame, held⟩ | ⟨-, held⟩
      · rw [Act.run, read_held inFrame held, if_neg (by simp [held.resolve_left (· frame)])] at run
        cases run
      · rw [Act.run, read_source sound frame held] at run
        cases run
    | readLine =>
      rw [Act.run, readLine_source sound frame] at run
      cases run
    | loadFrame length =>
      rw [Act.run, bind_apply, loadFrame_source sound frame,
        if_neg (Nat.not_lt.2 (fits frame))] at run
      cases run
  · have inFrame := sound.inFrame frame
    cases act with
    | read count =>
      rw [Act.run, read_held inFrame (.inl frame), Refuses]
      split
      · next short => simp [frame, short, eq_comm, and_comm]
      · next enough => simp [enough]
    | readLine =>
      rw [Act.run, readLine_held inFrame frame, Refuses]
      split
      · next newline => simp [newline]
      · next newline => simp [frame, newline, eq_comm, and_comm]
    | loadFrame length =>
      rw [Act.run, bind_apply, loadFrame_held sound frame, Refuses]
      simp [frame, eq_comm, and_comm]

/-- Whether it fails or not, an act delivers the bytes to come. -/
theorem after_passed (sound : r.Sound) (fits : r.Fits act) :
    r.Passed (r.after act) (delivery (act.run r)) := by
  rw [← behind_run]
  cases run : act.run r with
  | ok got r' => exact (run_passed sound run).1
  | error e r' =>
    obtain ⟨rfl, -⟩ := (run_eq_error sound fits).1 run
    exact .refl sound

/-! ## Acts one after the other -/

theorem foldl_passed (sound : r.Sound) (fit : r.AllFit acts) :
    r.Passed (acts.foldl Reader.after r) (r.delivered acts) := by
  induction acts generalizing r with
  | nil => exact .refl sound
  | cons act rest ih =>
    have first := after_passed sound fit.1
    exact first.trans (ih first.sound fit.2)

/-- Some limit bounds every frame that the acts load. -/
theorem exists_within (acts : List Act) : ∃ limit, ∀ act ∈ acts, act.Within limit := by
  induction acts with
  | nil => exact ⟨0, nofun⟩
  | cons act rest ih =>
    obtain ⟨limit, within⟩ := ih
    cases act with
    | loadFrame length =>
      refine ⟨max limit length, fun act mem => ?_⟩
      rcases List.mem_cons.1 mem with rfl | later
      · exact Nat.le_max_right ..
      · exact (within act later).mono (Nat.le_max_left ..)
    | _ => exact ⟨limit, List.forall_mem_cons.2 ⟨trivial, within⟩⟩

/-- Whatever reads, lines and frames are asked of a reader, one after the other, as long as no frame runs
    off the end of the source: the bytes delivered so far are those before the position, and together
    with what is left of the frame and of the source they are the source as it was. The next act fails
    only inside a frame that has bytes left, for want of bytes or of a newline in it or because a frame
    would overlap it, and then nothing has changed. Otherwise it serves what it was asked for, and
    inside a frame that has bytes left it takes them from there. A window that keeps the whole frame, a
    cursor and the number of bytes taken has the same position. -/
theorem delivered_accounts (bs : Bytes) (acts : List Act)
    (fit : (ofSource (.ofBytes bs)).AllFit acts) :
    let start := ofSource (.ofBytes bs)
    let r := acts.foldl Reader.after start
    start.delivered acts = bs.take r.position ∧ r.position ≤ bs.length ∧
    start.delivered acts ++ r.frame ++ r.source.unread = bs ∧
    (∀ (act : Act) e r', r.Fits act →
      (act.run r = .error e r' ↔ r' = r ∧ r.frame ≠ [] ∧ r.Refuses act e)) ∧
    (∀ (act : Act) got r', act.run r = .ok got r' → r'.Serves act got ∧
      (r.frame ≠ [] → r.inFrame = true ∧ r.frame = got ++ r'.frame ∧ r'.source = r.source)) ∧
    ∃ w, acts.foldlM Window.after? (.ofSource (.ofBytes bs)) = some w ∧ w.view = r ∧
      w.position? = some r.position := by
  intro start r
  have passed : start.Passed r (start.delivered acts) := foldl_passed (sound_ofSource bs) fit
  have whole : bs = start.delivered acts ++ r.upcoming := passed.upcoming
  have position : r.position = (start.delivered acts).length := by
    rw [passed.position]
    exact Nat.zero_add _
  refine ⟨?_, ?_, ?_, fun act e r' fits => run_eq_error passed.sound fits, fun act got r' run => ?_, ?_⟩
  · conv_rhs => rw [whole, position]
    exact List.take_left.symm
  · rw [whole, position, List.length_append]
    exact Nat.le_add_right ..
  · rw [List.append_assoc]
    exact whole.symm
  · obtain ⟨-, serves⟩ := run_passed passed.sound run
    exact ⟨serves, fun held => ⟨passed.sound.inFrame held, run_inside passed.sound held run⟩⟩
  · -- a window has a limit for its frames, and finitely many acts keep to one
    obtain ⟨limit, within⟩ := exists_within acts
    have fresh : (Window.ofSource (.ofBytes bs)).Sound limit := Window.sound_ofSource rfl
    obtain ⟨w, carried, sound, view⟩ := fresh.carries within
    have same : w.view = r := view
    exact ⟨w, carried, same, by rw [sound.position?, same]⟩

/-- In the middle of a frame, behind an empty one: three bytes and another frame are refused, and the line
    that is left of the frame is delivered. -/
theorem delivered_accounts_frame :
    let start := ofSource (.ofBytes [1, 2, 3, 0x0a, 4, 5])
    let acts := [.read 1, .loadFrame 0, .read 0, .loadFrame 3, .read 1]
    let r := acts.foldl Reader.after start
    start.AllFit acts ∧ start.delivered acts = [1, 2] ∧ r.frame = [3, 0x0a] ∧
    (Act.read 3).run r = .error (.decode .frameExhausted) r ∧
    (Act.loadFrame 9).run r = .error (.decode .frameOverlap) r ∧
    ∃ r', Act.readLine.run r = .ok [3, 0x0a] r' ∧ r'.source = r.source := by
  intro start acts r
  have fit : start.AllFit acts :=
    ⟨trivial, fun _ => by decide, trivial, fun _ => by decide, trivial, trivial⟩
  have held : r.frame ≠ [] := by decide
  obtain ⟨delivered, -, -, refused, served, -⟩ := delivered_accounts _ acts fit
  refine ⟨fit, delivered, rfl, ?_, ?_, _, rfl, ?_⟩
  · exact (refused (.read 3) _ r trivial).2 ⟨rfl, held, by decide, rfl⟩
  · exact (refused (.loadFrame 9) _ r (fun none => absurd none held)).2 ⟨rfl, held, rfl⟩
  · exact ((served .readLine _ _ rfl).2 held).2.2

end Reader

end ObjectStream.Frame
