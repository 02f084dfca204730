import Mathlib.Algebra.Group.Int.Defs
import Mathlib.Algebra.Group.Nat.Defs
import Mathlib.Data.Int.Order.Basic

namespace Geata.Lib

/-!
# 64-bit arithmetic

Unsigned seconds and counters are natural numbers, signed ones integers; the operations that
behave differently at the end of the 64-bit range are spelled out.  `word` gives the bytes of a
number.
-/

/-- The largest unsigned 64-bit value. -/
def u64Max : ℕ := 2 ^ 64 - 1

theorem u64Max_eq : u64Max = 18446744073709551615 := rfl

/-- Addition that stays at the maximum instead of overflowing. -/
def saturatingAdd (a b : ℕ) : ℕ := min (a + b) u64Max

/-- Addition that fails instead of overflowing. -/
def checkedAdd (a b : ℕ) : Option ℕ := if a + b ≤ u64Max then some (a + b) else none

theorem saturatingAdd_eq {a b : ℕ} (h : a + b ≤ u64Max) : saturatingAdd a b = a + b :=
  Nat.min_eq_left h

theorem checkedAdd_eq {a b : ℕ} (h : a + b ≤ u64Max) : checkedAdd a b = some (a + b) :=
  if_pos h

theorem checkedAdd_eq_some {a b c : ℕ} (h : checkedAdd a b = some c) :
    c = a + b ∧ a + b ≤ u64Max := by
  unfold checkedAdd at h
  split at h
  · rename_i hle
    exact ⟨(Option.some.inj h).symm, hle⟩
  · exact absurd h (by simp)

/-- The largest signed 64-bit value. -/
def i64Max : ℤ := 2 ^ 63 - 1

/-- Signed addition of a nonnegative number that stays at the maximum instead of overflowing. -/
def addSaturating (a b : ℤ) : ℤ := min (a + b) i64Max

theorem addSaturating_eq {a b : ℤ} (h : a + b ≤ i64Max) : addSaturating a b = a + b :=
  min_eq_left h

/-- The last `n` bytes of a number, the highest first. -/
def word : ℕ → ℕ → List UInt8
  | 0, _ => []
  | n + 1, x => word n (x / 256) ++ [UInt8.ofNat (x % 256)]

/-- Saturating twice is saturating once by the sum. -/
theorem saturatingAdd_assoc (a b c : ℕ) :
    saturatingAdd (saturatingAdd a b) c = saturatingAdd a (b + c) := by
  unfold saturatingAdd
  omega

end Geata.Lib
