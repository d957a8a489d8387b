/-!
# Outcomes

Parsing and emission are computations with a state that succeed or fail.  What a sequence of two of them does is
determined by the first one.

* `Outcome.bind_of_ok`, `Outcome.bind_of_error` — the first one succeeds, and the second one goes on from there, or the
  first one fails, and that is the end
* `Outcome.ok_of_bind`, `Outcome.ok_of_check` — a sequence succeeds only if both of its parts do
* `Outcome.error_of_bind`, `Outcome.error_of_check` — a sequence fails only if one of its parts does
-/

namespace GoScript.Outcome

variable {ε σ α β : Type} {state later : σ}

theorem bind_run (first : EStateM ε σ α) (next : α → EStateM ε σ β) :
    (first >>= next) state = match first state with
      | .ok value later => next value later
      | .error error later => .error error later := by
  show EStateM.bind first next state = _
  rw [EStateM.bind]
  cases first state <;> rfl

theorem bind_of_ok {first : EStateM ε σ α} {next : α → EStateM ε σ β} {value : α}
    (h : first state = .ok value later) : (first >>= next) state = next value later := by
  rw [bind_run, h]

theorem bind_of_error {first : EStateM ε σ α} {next : α → EStateM ε σ β} {error : ε}
    (h : first state = .error error later) : (first >>= next) state = .error error later := by
  rw [bind_run, h]

/-- A sequence succeeds only if its first part does, and the second one from there. -/
theorem ok_of_bind {first : EStateM ε σ α} {next : α → EStateM ε σ β} {result : β}
    (h : (first >>= next) state = .ok result later) :
    ∃ value middle, first state = .ok value middle ∧ next value middle = .ok result later := by
  rw [bind_run] at h
  cases hfirst : first state with
  | ok value middle => exact ⟨value, middle, rfl, by rwa [hfirst] at h⟩
  | error error middle =>
    rw [hfirst] at h
    cases h

/-- A sequence fails only if its first part does, or the second one from where the first one has come. -/
theorem error_of_bind {first : EStateM ε σ α} {next : α → EStateM ε σ β} {error : ε}
    (h : (first >>= next) state = .error error later) :
    first state = .error error later ∨
      ∃ value middle, first state = .ok value middle ∧ next value middle = .error error later := by
  rw [bind_run] at h
  cases hfirst : first state with
  | ok value middle => exact .inr ⟨value, middle, rfl, by rwa [hfirst] at h⟩
  | error error' middle =>
    rw [hfirst] at h
    cases h
    exact .inl rfl

/-- The same for computations without a state. -/
theorem error_of_check {first : Except ε α} {next : α → Except ε β} {error : ε} (h : (first >>= next) = .error error) :
    first = .error error ∨ ∃ value, first = .ok value ∧ next value = .error error := by
  cases first with
  | ok value => exact .inr ⟨value, rfl, h⟩
  | error error' =>
    cases h
    exact .inl rfl

/-- A computation without a state succeeds only if its first part does, and then the second one. -/
theorem ok_of_check {first : Except ε α} {next : α → Except ε β} {result : β} (h : (first >>= next) = .ok result) :
    ∃ value, first = .ok value ∧ next value = .ok result := by
  cases first with
  | ok value => exact ⟨value, rfl, h⟩
  | error error => cases h

end GoScript.Outcome
