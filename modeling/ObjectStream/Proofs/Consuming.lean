import ObjectStream.Proofs.Blind
import ObjectStream.Proofs.Execution
import ObjectStream.Proofs.Intake

/-!
Every step takes a byte.

Nothing that a decoder does puts bytes back (`consuming`), and a step reads at least its opcode
(`remaining_step`). So a run with more steps than there are bytes left is never cut off: further steps
change nothing (`run_enough`), and it keeps to whatever its steps keep to (`goes_run`).
-/

namespace ObjectStream

/-! ## What is left of the input -/

/-- What a source hands out was not read before. -/
theorem Source.length_advance {s s' : Source} {got rest bs : Bytes}
    (h : s.advance got rest = .ok (bs, s')) (all : got ++ rest = s.unread) :
    bs.length + s'.unread.length = s.unread.length := by
  have same : bs = got ∧ s'.unread = rest := by
    unfold Source.advance at h
    dsimp only at h
    split at h
    · split at h
      · cases h
      · cases h
        exact ⟨rfl, rfl⟩
    · cases h
      exact ⟨rfl, rfl⟩
  rw [same.1, same.2, ← all, List.length_append]

theorem Source.length_read {s s' : Source} {n : Nat} {bs : Bytes}
    (h : s.read n = .ok (bs, s')) : bs.length + s'.unread.length = s.unread.length := by
  unfold Source.read at h
  rw [List.splitAt_eq] at h
  exact length_advance h (List.take_append_drop n s.unread)

theorem Source.length_readLine {s s' : Source} {bs : Bytes} (h : s.readLine = .ok (bs, s')) :
    bs.length + s'.unread.length = s.unread.length :=
  length_advance h (Bytes.splitLine_append s.unread)

namespace Frame.Reader

variable {r r' : Reader} {got : Bytes}

theorem remaining_readSource {f : Source → Except String (Bytes × Source)}
    (hands : ∀ s bs s', f s = .ok (bs, s') → bs.length + s'.unread.length = s.unread.length)
    (h : readSource f r = .ok got r') : got.length + r'.remaining ≤ r.remaining := by
  have dropped : r.dropFrame.frame = [] ∧ r.dropFrame.source = r.source := by
    unfold dropFrame
    split
    · next frame => exact ⟨frame, rfl⟩
    · exact ⟨rfl, rfl⟩
  unfold readSource at h
  dsimp only at h
  split at h
  · cases h
  · next bs source run =>
    cases h
    have length := hands _ _ _ run
    rw [dropped.2] at length
    simp only [remaining, dropped.1, List.length_nil]
    omega

theorem remaining_read {n : Nat} (h : read n r = .ok got r') :
    got.length + r'.remaining ≤ r.remaining := by
  unfold read at h
  split at h
  · split at h
    · exact remaining_readSource (r := { r with inFrame := false })
        (fun _ _ _ => Source.length_read) h
    · dsimp only at h
      split at h
      · cases h
      · cases h
        simp only [remaining, List.splitAt_eq, List.length_take, List.length_drop]
        omega
  · exact remaining_readSource (fun _ _ _ => Source.length_read) h

theorem remaining_readLine (h : readLine r = .ok got r') :
    got.length + r'.remaining ≤ r.remaining := by
  unfold readLine at h
  split at h
  · split at h
    · exact remaining_readSource (r := { r with inFrame := false })
        (fun _ _ _ => Source.length_readLine) h
    · dsimp only at h
      split at h
      · cases h
        have split := congrArg List.length (Bytes.splitLine_append r.frame)
        rw [List.length_append] at split
        simp only [remaining]
        omega
      · cases h
  · exact remaining_readSource (fun _ _ _ => Source.length_readLine) h

theorem remaining_loadFrame {length : Nat} (h : loadFrame length r = .ok () r') :
    r'.remaining ≤ r.remaining := by
  have dropped : r.dropFrame.source = r.source := by
    unfold dropFrame
    split <;> rfl
  unfold loadFrame at h
  split at h
  · cases h
  · dsimp only at h
    split at h
    · cases h
    · next bs source run =>
      have hands := Source.length_read run
      split at h
      · cases h
      · cases h
        rw [dropped] at hands
        simp only [remaining]
        omega

end Frame.Reader

namespace Decoder

variable {H α β : Type}

/-! ## Runs -/

/-- Nothing is put back into the input. -/
def consuming : Discipline H where
  Good _ := True
  Later st st' := st'.input.remaining ≤ st.input.remaining
  Knows _ _ := True
  Fits _ _ := True
  Breaks _ _ _ := True

/-- A blind action takes nothing. -/
theorem Blind.consuming {x : Decode H α} {Q : α → State H → Prop} (h : Blind x)
    (all : ∀ a st, Q a st) (st : State H) : Decoder.consuming.Goes st x Q := by
  intro _
  cases run : x st with
  | error e st' => trivial
  | ok a st' =>
    exact ⟨trivial, (congrArg Frame.Reader.remaining (h.quiet_ok run).input).le, all a st'⟩

/-- Reading takes from the input. -/
theorem consuming_reading {action : EStateM Error Frame.Reader α}
    (takes : ∀ r a r', action r = .ok a r' → r'.remaining ≤ r.remaining) (st : State H) :
    consuming.Safe st (reading action) := by
  intro _
  cases run : reading action st with
  | error e input => trivial
  | ok a st' =>
    obtain ⟨input, read, rfl⟩ := reading_eq_ok run
    exact ⟨trivial, takes _ _ _ read, trivial⟩

/-- An opcode is a byte of the input. -/
theorem remaining_readOpcode {st st' : State H} {op : Opcode} (h : readOpcode st = .ok op st') :
    st'.input.remaining < st.input.remaining := by
  obtain ⟨offset, _, ⟨⟩, h⟩ := bind_eq_ok h
  obtain ⟨bs, _, run, h⟩ := bind_eq_ok h
  obtain ⟨input, read, rfl⟩ := reading_eq_ok run
  have took := Frame.Reader.remaining_read read
  cases bs with
  | nil => cases h
  | cons byte rest =>
    rw [List.length_cons] at took
    dsimp only at h
    cases known : Opcode.ofByte? byte with
    | none =>
      rw [known] at h
      cases h
    | some op' =>
      rw [known] at h
      cases h
      show input.remaining < st.input.remaining
      omega

theorem consuming_lawful : (consuming : Discipline H).Lawful where
  refl _ := Nat.le_refl _
  trans h h' := Nat.le_trans h' h
  breaks _ _ := trivial
  breaks_later _ _ := trivial
  knows_later _ _ := trivial

section
variable [HostObject H]

/-- Whatever the host does, a run only takes from the input. -/
theorem consuming_observed (cfg : Config H) : consuming.Observed cfg where
  toLawful := consuming_lawful
  atom _ := trivial
  held _ _ _ _ := trivial
  fits _ _ _ := trivial
  dict _ _ _ _ := trivial
  dict_endless _ _ _ := trivial
  frozenset _ _ _ _ := trivial
  frozenset_endless _ _ _ := trivial
  alloc _ := (Blind.alloc _).consuming (fun _ _ => trivial) _
  push _ := (Blind.push cfg _).consuming (fun _ _ => trivial) _
  pop st op := (Blind.pop op).consuming (fun _ _ => trivial) st
  top st op := (Blind.top op).consuming (fun _ _ => trivial) st
  replaceTop op _ := (Blind.replaceTop op _).consuming (fun _ _ => trivial) _
  mark st := Blind.mark.consuming (fun _ _ => trivial) st
  popMark st op := (Blind.popMark op).consuming (fun _ _ _ _ => trivial) st
  fetchMemo st id := (Blind.fetchMemo cfg id).consuming (fun _ _ => trivial) st
  putMemo st op id := (Blind.putMemo cfg op id).consuming (fun _ _ => trivial) st
  replaceMemo old _ := (Blind.replaceMemo old _).consuming (fun _ _ => trivial) _
  extend _ _ := Blind.consuming (.modify fun _ _ => rfl) (fun _ _ => trivial) _
  storeEntry id _ _ := (Blind.storeEntry id _ _).consuming (fun _ _ => trivial) _
  addMember id _ := (Blind.addMember id _).consuming (fun _ _ => trivial) _
  readExactly st op count :=
    consuming_lawful.goes_bind
      (consuming_reading (fun _ _ _ run => by have := Frame.Reader.remaining_read run; omega) st)
      fun bs st' _ _ => Blind.consuming (.check (f := fun _ => pure bs) (.pure bs))
        (fun _ _ => trivial) st'
  readLine st op :=
    consuming_lawful.goes_bind
      (consuming_reading (fun _ _ _ run => by have := Frame.Reader.remaining_readLine run; omega) st)
      fun _ st' _ _ => Blind.consuming (.ite (.pure _) (.throw _)) (fun _ _ => trivial) st'
  readOpcode st := by
    intro _
    cases run : readOpcode st with
    | error e st' => trivial
    | ok op st' => exact ⟨trivial, (remaining_readOpcode run).le, trivial⟩
  openFrame st length := by
    unfold openFrame
    refine consuming_lawful.goes_check (consuming_lawful.goes_bind (P := fun _ _ => True)
      (Discipline.Lawful.goes_get fun _ => consuming_lawful.goes_pure trivial) fun place st' _ _ => ?_)
    exact consuming_lawful.goes_bind
      (consuming_reading (fun _ _ _ run => Frame.Reader.remaining_loadFrame run) st')
      fun _ st'' _ _ => Discipline.Lawful.goes_modify fun _ => ⟨trivial, Nat.le_refl _, trivial⟩
  announce st p := Blind.consuming (.modify fun _ _ => rfl) (fun _ _ => trivial) st
  nextBuffer st := Blind.nextBuffer.consuming (fun _ _ => trivial) st
  callSymbol label symbol _ := (Blind.reported label _).consuming (fun _ _ _ _ => trivial) _
  create label _ _ := (Blind.reported label _).consuming (fun _ _ _ _ => trivial) _
  setState _ _ _ := (Blind.reported _ _).consuming (fun _ _ => trivial) _
  stateAction label _ _ _ := (Blind.reported label _).consuming (fun _ _ _ _ => trivial) _
  append _ _ _ := (Blind.hosted _).consuming (fun _ _ => trivial) _
  setItem _ _ _ _ := (Blind.hosted _).consuming (fun _ _ => trivial) _
  persistentLoad _ _ := (Blind.hosted _).consuming (fun _ _ _ _ => trivial) _

/-- A step that is not the last takes at least a byte. -/
theorem remaining_step {cfg : Config H} {st st' : State H} (h : step cfg st = .ok none st') :
    st'.input.remaining < st.input.remaining := by
  obtain ⟨op, st₁, first, rest⟩ := bind_eq_ok h
  have goes : consuming.Goes st₁ _ _ := (consuming_observed cfg).goes_behind op
  have ends := goes trivial
  rw [rest] at ends
  exact Nat.lt_of_le_of_lt ends.2.1 (remaining_readOpcode first)

/-- A run needs no more steps than there are bytes: with more of them nothing changes. -/
theorem run_enough (cfg : Config H) {fuel fuel' : Nat} {st : State H}
    (enough : st.input.remaining < fuel) (enough' : st.input.remaining < fuel') :
    run cfg fuel st = run cfg fuel' st := by
  induction fuel generalizing fuel' st with
  | zero => exact absurd enough (Nat.not_lt_zero _)
  | succ fuel ih =>
    cases fuel' with
    | zero => exact absurd enough' (Nat.not_lt_zero _)
    | succ fuel' =>
      simp only [run, bind_apply]
      cases first : step cfg st with
      | error e st' => rfl
      | ok found st' =>
        cases found with
        | some v => rfl
        | none =>
          have less := remaining_step first
          exact ih (by omega) (by omega)

namespace Discipline.Observed

variable {D : Discipline H} {cfg : Config H} (rules : D.Observed cfg)
include rules

/-- A step that keeps to the discipline hands back a value or takes at least a byte. -/
theorem goes_step_shorter {st : State H} : D.Goes st (step cfg) fun found st' =>
    (∀ v, found = some v → D.Knows st' v) ∧
      (found = none → st'.input.remaining < st.input.remaining) := by
  intro good
  have ends := rules.goes_step good
  cases ran : step cfg st with
  | error e st' =>
    rw [ran] at ends
    exact ends
  | ok found st' =>
    rw [ran] at ends
    exact ⟨ends.1, ends.2.1, ends.2.2, fun none => remaining_step (none ▸ ran)⟩

/-- A run keeps to the discipline, unless it has too few steps and must not be cut off. -/
theorem goes_run {fuel : Nat} {st : State H}
    (cut : fuel ≤ st.input.remaining → ∀ st, D.Good st → D.Breaks st .endless st) :
    D.Gives st (run cfg fuel) := by
  induction fuel generalizing st with
  | zero => exact cut (Nat.zero_le _) st
  | succ fuel ih =>
    refine rules.goes_bind rules.goes_step_shorter fun found st' _ ⟨known, shorter⟩ => ?_
    cases found with
    | some v => exact rules.goes_pure (known v rfl)
    | none =>
      have less := shorter rfl
      exact ih fun few => cut (by omega)

end Discipline.Observed

end

end Decoder

end ObjectStream
