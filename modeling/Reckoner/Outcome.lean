/-!
# Outcomes

A computation that may fail is an `Except`. A sequence of two succeeds exactly when both parts do. Where
a computation changes a state as well, and may come to no end, the second part starts in the state that
the first one has left.
-/

namespace Reckoner.Outcome

variable {ε α β : Type}

theorem bind_eq_ok {x : Except ε α} {f : α → Except ε β} {b : β} :
    x >>= f = .ok b ↔ ∃ a, x = .ok a ∧ f a = .ok b := by
  cases x <;> simp [bind, Except.bind]

theorem bind_eq_error {x : Except ε α} {f : α → Except ε β} {e : ε} :
    x >>= f = .error e ↔ x = .error e ∨ ∃ a, x = .ok a ∧ f a = .error e := by
  cases x <;> simp [bind, Except.bind]

theorem map_eq_ok {x : Except ε α} {f : α → β} {b : β} :
    x.map f = .ok b ↔ ∃ a, x = .ok a ∧ f a = b := by
  cases x <;> simp [Except.map]

theorem mapError_eq_error {ε' : Type} {x : Except ε α} {f : ε → ε'} {e : ε'} :
    x.mapError f = .error e ↔ ∃ e', x = .error e' ∧ f e' = e := by
  constructor
  · intro h
    cases x with
    | ok a => exact nomatch h
    | error e' => exact ⟨e', rfl, Except.error.inj h⟩
  · rintro ⟨e', rfl, rfl⟩
    rfl

theorem run_bind {σ : Type} (x : ExceptT ε (StateT σ Option) α)
    (f : α → ExceptT ε (StateT σ Option) β) (s : σ) :
    (x >>= f).run.run s = (x.run.run s).bind fun
      | (.ok a, after) => (f a).run.run after
      | (.error e, after) => some (.error e, after) := by
  show Option.bind (x.run.run s) _ = _
  refine congrArg _ (funext ?_)
  rintro ⟨_ | _, after⟩ <;> rfl

end Reckoner.Outcome
