/-!
Runs of state actions that may fail.

The encoder, the decoder, the frames and the host are all actions of one monad. The lemmas here say
what a run of each basic action is, and take a run of a sequence apart.
-/

namespace ObjectStream

variable {ε σ α β : Type}

theorem bind_apply (x : EStateM ε σ α) (f : α → EStateM ε σ β) (s : σ) :
    (x >>= f) s = match x s with
      | .ok a s => f a s
      | .error e s => .error e s := rfl

theorem pure_apply (a : α) (s : σ) : (pure a : EStateM ε σ α) s = .ok a s := rfl

theorem get_apply (s : σ) : (get : EStateM ε σ σ) s = .ok s s := rfl

theorem modify_apply (f : σ → σ) (s : σ) :
    (modify f : EStateM ε σ PUnit) s = .ok ⟨⟩ (f s) := rfl

theorem map_apply (f : α → β) (x : EStateM ε σ α) (s : σ) :
    (f <$> x) s = match x s with
      | .ok a s => .ok (f a) s
      | .error e s => .error e s := rfl

/-- A sequence runs through if its parts do. -/
theorem bind_ok {x : EStateM ε σ α} {f : α → EStateM ε σ β} {s s' : σ} {a : α}
    (h : x s = .ok a s') : (x >>= f) s = f a s' := by
  rw [bind_apply, h]

/-- The parts of a sequence that ran through. -/
theorem bind_eq_ok {x : EStateM ε σ α} {f : α → EStateM ε σ β} {s s'' : σ} {b : β}
    (h : (x >>= f) s = .ok b s'') : ∃ a s', x s = .ok a s' ∧ f a s' = .ok b s'' := by
  rw [bind_apply] at h
  cases hx : x s with
  | ok a s' => rw [hx] at h; exact ⟨a, s', rfl, h⟩
  | error e s' => rw [hx] at h; cases h

/-- A sequence that failed did so in its first part or behind it. -/
theorem bind_eq_error {x : EStateM ε σ α} {f : α → EStateM ε σ β} {s s'' : σ} {e : ε}
    (h : (x >>= f) s = .error e s'') :
    x s = .error e s'' ∨ ∃ a s', x s = .ok a s' ∧ f a s' = .error e s'' := by
  rw [bind_apply] at h
  cases hx : x s with
  | ok a s' => rw [hx] at h; exact .inr ⟨a, s', rfl, h⟩
  | error e s' => rw [hx] at h; cases h; exact .inl rfl

theorem map_eq_ok {f : α → β} {x : EStateM ε σ α} {s s' : σ} {b : β}
    (h : (f <$> x) s = .ok b s') : ∃ a, x s = .ok a s' ∧ f a = b := by
  rw [map_apply] at h
  cases hx : x s with
  | ok a s' => rw [hx] at h; cases h; exact ⟨a, rfl, rfl⟩
  | error e s' => rw [hx] at h; cases h

theorem map_eq_error {f : α → β} {x : EStateM ε σ α} {s s' : σ} {e : ε}
    (h : (f <$> x) s = .error e s') : x s = .error e s' := by
  rw [map_apply] at h
  cases hx : x s with
  | ok a s' => rw [hx] at h; cases h
  | error e s' => rw [hx] at h; cases h; rfl

end ObjectStream
