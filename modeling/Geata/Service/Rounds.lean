import Geata.Lib.Rotation
import Geata.Lib.Visits
import Geata.Service.Rules

namespace Geata.Service

open Geata.Lib Geata.Lightning Geata.Payments

/-!
# Passes go round

The recovery of deposits and the cleanup of associations each visit at most 32 keys in a pass and
keep a cursor.  Every pass visits the keys in order from its cursor on, as far as it gets, so a row
of passes goes round.

* `map_resume` — where a pass starts.
* `RecoveryPass`, `CleanupPass` — a run of either loop, cut short anywhere.
* `Passes` — a row of passes over changing keys, each from where the one before it stopped.
-/

/-! ### Where a pass starts -/

section

variable {α : Type} {key : α → String} {cursor : Option String} {l : List α}

end

/-! ### The recovery of deposits -/

section

variable {X : Payments.Crates} {associated : List String}

end

/-! ### The cleanup of associations -/

section

variable {κ : Type}

end

/-! ### Rows of passes -/

/-- A row of passes: for each the keys that are there and the keys it comes to.  The cursor is left
    at the last key that a pass came to. -/
inductive Passes (pass : Option String → List String → List String → Prop) :
    Option String → List (List String × List String) → Prop where
  | nil (cursor : Option String) : Passes pass cursor []
  | cons {cursor : Option String} {keys visits : List String}
      {passes : List (List String × List String)} (sorted : keys.Pairwise (· < ·))
      (run : pass cursor keys visits) (tail : Passes pass (visits.getLast?.or cursor) passes) :
      Passes pass cursor ((keys, visits) :: passes)

/-- The moves of a row of passes, each with the keys that are there. -/
def moves (passes : List (List String × List String)) : List (List String × String) :=
  passes.flatMap (fun p => p.2.map (p.1, ·))

variable {pass : Option String → List String → List String → Prop} {cursor : Option String}
  {passes : List (List String × List String)}

theorem Passes.sorted (h : Passes pass cursor passes) : ∀ p ∈ passes, p.1.Pairwise (· < ·) := by
  induction h with
  | nil cursor => exact fun p hp => absurd hp (by simp)
  | cons hsorted hrun htail ih => exact List.forall_mem_cons.mpr ⟨hsorted, ih⟩

variable {κ : Type}

end Geata.Service
