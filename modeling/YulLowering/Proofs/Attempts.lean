import Mathlib.Data.List.Forall2

/-!
# What an attempt has done that succeeded

An attempt gives a result or the reason why there is none. One that is made of others has a result only if
they all have one, so from the result of the whole those of its parts are recovered.
-/

namespace YulLowering

variable {ε ε' α β γ : Type}

theorem bind_ok_inv {outcome : Except ε α} {next : α → Except ε β} {result : β}
    (succeeds : (outcome >>= next) = .ok result) :
    ∃ value, outcome = .ok value ∧ next value = .ok result := by
  cases outcome with
  | error reason => cases succeeds
  | ok value => exact ⟨value, rfl, succeeds⟩

/-- Two attempts that begin in the same way get the same result first. -/
theorem bind_ok_inv_both {outcome : Except ε α} {next : α → Except ε β} {last : α → Except ε γ}
    {result : β} {other : γ} (succeeds : (outcome >>= next) = .ok result) (also : (outcome >>= last) = .ok other) :
    ∃ value, next value = .ok result ∧ last value = .ok other := by
  obtain ⟨value, gives, goesOn⟩ := bind_ok_inv succeeds
  rw [gives] at also
  exact ⟨value, goesOn, also⟩

theorem bind_of_ok {outcome : Except ε α} {next : α → Except ε β} {value : α}
    (succeeds : outcome = .ok value) : (outcome >>= next) = next value := by
  rw [succeeds]
  rfl

theorem map_ok_inv {outcome : Except ε α} {wrap : α → β} {result : β}
    (succeeds : outcome.map wrap = .ok result) : ∃ value, outcome = .ok value ∧ wrap value = result := by
  cases outcome with
  | error reason => cases succeeds
  | ok value => exact ⟨value, rfl, Except.ok.inj succeeds⟩

/-- What becomes of the reason does not matter where there is a result. -/
theorem mapError_ok_inv {outcome : Except ε α} {explain : ε → ε'} {result : α}
    (succeeds : outcome.mapError explain = .ok result) : outcome = .ok result := by
  cases outcome with
  | error reason => cases succeeds
  | ok value => exact congrArg _ (Except.ok.inj succeeds)

/-- What is attempted for each of several items gives a result for each of them, in order. -/
theorem mapM_ok_inv {attempt : α → Except ε β} {items : List α} {results : List β}
    (succeeds : items.mapM attempt = .ok results) :
    List.Forall₂ (fun item result => attempt item = .ok result) items results := by
  induction items generalizing results with
  | nil =>
      cases succeeds
      exact .nil
  | cons item items ih =>
      rw [List.mapM_cons] at succeeds
      obtain ⟨result, first, succeeds⟩ := bind_ok_inv succeeds
      obtain ⟨others, rest, succeeds⟩ := bind_ok_inv succeeds
      cases succeeds
      exact .cons first (ih rest)

end YulLowering
