/-!
# Outcomes

What must have come before when a computation that may fail has succeeded, or has failed. The
library has the equations of `Except.map` and `Except.bind`, and none of `Except.mapError`.
-/

namespace ArchiveVfs.Outcome

variable {ε ε' α β : Type}

theorem map_eq_ok {f : α → β} {result : Except ε α} {value : β} :
    result.map f = .ok value ↔ ∃ old, result = .ok old ∧ f old = value := by
  cases result <;> simp [Except.map]

theorem ok_bind (old : α) (f : α → Except ε β) : (.ok old >>= f : Except ε β) = f old := rfl

theorem bind_eq_ok {f : α → Except ε β} {result : Except ε α} {value : β} :
    result >>= f = .ok value ↔ ∃ old, result = .ok old ∧ f old = .ok value := by
  cases result <;> simp [bind, Except.bind]

theorem bind_eq_error {f : α → Except ε β} {result : Except ε α} {error : ε} :
    result >>= f = .error error ↔
      result = .error error ∨ ∃ old, result = .ok old ∧ f old = .error error := by
  cases result <;> simp [bind, Except.bind]

theorem mapError_ok (f : ε → ε') (value : α) :
    (.ok value : Except ε α).mapError f = .ok value := rfl

theorem mapError_error (f : ε → ε') (error : ε) :
    (.error error : Except ε α).mapError f = .error (f error) := rfl

theorem mapError_eq_ok {f : ε → ε'} {result : Except ε α} {value : α} :
    result.mapError f = .ok value ↔ result = .ok value := by
  cases result <;> simp [mapError_ok, mapError_error]

theorem mapError_eq_error {f : ε → ε'} {result : Except ε α} {error : ε'} :
    result.mapError f = .error error ↔ ∃ old, result = .error old ∧ f old = error := by
  cases result <;> simp [mapError_ok, mapError_error]

end ArchiveVfs.Outcome
