import Mathlib.Data.List.Basic

namespace Geata.Lib

/-!
# Once in a period

A gate that opens for a call when it has not opened in the last period.  Times do not go back.

* `opened` — the calls of a run for which it opens.
* `opened_apart` — two of them are a period apart.
* `opened_recent` — after every call it has opened within the last period.
-/

/-- The gate opens: it has never opened, or a period ago. -/
def opens (period : ℕ) (last : Option ℕ) (now : ℕ) : Bool :=
  last.all (fun last => decide (period ≤ now - last))

/-- When the gate last opened, after a call. -/
def lastOpened (period : ℕ) (last : Option ℕ) (now : ℕ) : Option ℕ :=
  if opens period last now then some now else last

/-- The calls for which the gate opens. -/
def opened (period : ℕ) : Option ℕ → List ℕ → List ℕ
  | _, [] => []
  | last, now :: rest =>
    (if opens period last now then [now] else []) ++
      opened period (lastOpened period last now) rest

section

variable {period now t : ℕ} {last : Option ℕ} {times : List ℕ}

/-- The gate stays shut for a period. -/
theorem opened_later {u : ℕ} (hsorted : (u :: times).Pairwise (· ≤ ·))
    (h : t ∈ opened period (some u) times) : u + period ≤ t := by
  induction times generalizing u with
  | nil => exact absurd h (List.not_mem_nil)
  | cons now rest ih =>
    have hle : u ≤ now := (List.pairwise_cons.mp hsorted).1 now (List.mem_cons_self ..)
    have htail := (List.pairwise_cons.mp hsorted).2
    rcases List.mem_append.mp h with h | h
    · split at h
      · rename_i hopens
        obtain rfl := List.mem_singleton.mp h
        have hperiod : period ≤ t - u := of_decide_eq_true hopens
        omega
      · exact absurd h (List.not_mem_nil)
    · unfold lastOpened at h
      split at h
      · rename_i hopens
        have hperiod : period ≤ now - u := of_decide_eq_true hopens
        have hlater := ih htail h
        omega
      · apply ih _ h
        rw [List.pairwise_cons] at hsorted ⊢
        exact ⟨fun b hb => hsorted.1 b (List.mem_cons_of_mem now hb),
          (List.pairwise_cons.mp hsorted.2).2⟩

/-- **At most once in a period.** -/
theorem opened_apart (hsorted : times.Pairwise (· ≤ ·)) :
    (opened period last times).Pairwise (fun t u => t + period ≤ u) := by
  induction times generalizing last with
  | nil => exact List.Pairwise.nil
  | cons now rest ih =>
    have hrest := (List.pairwise_cons.mp hsorted).2
    rw [opened]
    split
    · rename_i hopens
      rw [List.singleton_append, List.pairwise_cons, lastOpened, if_pos hopens]
      exact ⟨fun t ht => opened_later hsorted ht, ih hrest⟩
    · exact ih hrest

/-- **At least once in a period**, as long as there are calls. -/
theorem opened_recent (last : Option ℕ) (hsorted : times.Pairwise (· ≤ ·)) (hperiod : 0 < period)
    (ht : t ∈ times) :
    ∃ u, (last = some u ∨ u ∈ opened period last times) ∧ t < u + period ∧
      (u ≤ t ∨ last = some u) := by
  induction times generalizing last with
  | nil => exact absurd ht (List.not_mem_nil)
  | cons now rest ih =>
    have hrest := (List.pairwise_cons.mp hsorted).2
    rw [opened]
    by_cases hopens : opens period last now = true
    · rw [if_pos hopens, lastOpened, if_pos hopens]
      rcases List.mem_cons.mp ht with rfl | ht
      · exact ⟨t, .inr (List.mem_append_left _ (List.mem_singleton_self t)), by omega,
          .inl (Nat.le_refl t)⟩
      · have hle := (List.pairwise_cons.mp hsorted).1 t ht
        obtain ⟨u, hu, hlt, hule⟩ := ih (some now) hrest ht
        refine ⟨u, .inr ?_, hlt, .inl ?_⟩
        · rcases hu with hu | hu
          · rw [← Option.some.inj hu]
            exact List.mem_append_left _ (List.mem_singleton_self now)
          · exact List.mem_append_right _ hu
        · rcases hule with hule | hule
          · exact hule
          · rw [← Option.some.inj hule]
            exact hle
    · rw [if_neg hopens, lastOpened, if_neg hopens, List.nil_append]
      rcases List.mem_cons.mp ht with rfl | ht
      · -- It did not open for this one, so it had opened before.
        cases last with
        | none => exact absurd rfl hopens
        | some u =>
          refine ⟨u, .inl rfl, ?_, .inr rfl⟩
          by_contra hle
          apply hopens
          show decide (period ≤ t - u) = true
          rw [decide_eq_true_eq]
          omega
      · exact ih last hrest ht

end

end Geata.Lib
