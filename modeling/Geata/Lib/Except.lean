import Mathlib.Logic.Basic

namespace Geata.Lib

/-!
# Checks in fallible code

`ensure` and `context` as they are used in chains of checks, with the equivalences that turn a
successful chain into the conjunction of what it checked.
-/

variable {ε α β : Type}

/-- Fail with `e` unless the condition holds. -/
def ensure (c : Bool) (e : ε) : Except ε Unit := if c then .ok () else .error e

/-- A missing value is the error `e`. -/
def context (e : ε) : Option α → Except ε α
  | some a => .ok a
  | none => .error e

theorem bind_eq_ok {x : Except ε α} {f : α → Except ε β} {b : β} :
    x >>= f = .ok b ↔ ∃ a, x = .ok a ∧ f a = .ok b := by
  cases x with
  | error e => simp [bind, Except.bind]
  | ok a => simp [bind, Except.bind]

/-- A chain fails with its first part, or with what follows. -/
theorem bind_eq_error {x : Except ε α} {f : α → Except ε β} {e : ε} :
    x >>= f = .error e ↔ x = .error e ∨ ∃ a, x = .ok a ∧ f a = .error e := by
  cases x with
  | error e => simp [bind, Except.bind]
  | ok a => simp [bind, Except.bind]

theorem ensure_eq_error {c : Bool} {e e' : ε} (h : ensure c e = .error e') : e' = e := by
  cases c with
  | false => exact (Except.error.inj h).symm
  | true => exact absurd h (by simp [ensure])

theorem ensure_eq_ok {c : Bool} {e : ε} {u : Unit} : ensure c e = .ok u ↔ c = true := by
  cases c <;> simp [ensure]

theorem context_eq_ok {e : ε} {o : Option α} {a : α} : context e o = .ok a ↔ o = some a := by
  cases o <;> simp [context]

theorem pure_eq_ok {a b : α} : (pure a : Except ε α) = .ok b ↔ a = b := by
  simp [pure, Except.pure]

theorem mapError_eq_ok {ε' : Type} {f : ε → ε'} {x : Except ε α} {a : α} :
    x.mapError f = .ok a ↔ x = .ok a := by
  cases x with
  | error e => exact ⟨(by cases ·), (by cases ·)⟩
  | ok b => exact ⟨fun h => congrArg _ (Except.ok.inj h), fun h => congrArg _ (Except.ok.inj h)⟩

theorem map_eq_ok {f : α → β} {x : Except ε α} {b : β} :
    x.map f = .ok b ↔ ∃ a, x = .ok a ∧ f a = b := by
  cases x <;> simp [Except.map]

end Geata.Lib
