import Mathlib.Data.List.Infix

namespace Geata.Lib

/-!
# Histories whose entries are justified

A history is a list of entries, the latest first, so what was there before an entry is the list
behind it.  `Chronicle J l` says that every entry of `l` is justified, in the sense of `J`, by the
entries before it.
-/

variable {ε : Type} {J : List ε → ε → Prop} {l past : List ε} {e : ε}

/-- Every entry is justified by those before it. -/
def Chronicle (J : List ε → ε → Prop) : List ε → Prop
  | [] => True
  | e :: past => J past e ∧ Chronicle J past

/-- An entry is justified by what was there when it was made. -/
theorem Chronicle.justified (h : Chronicle J l) (hs : (e :: past) <:+ l) : J past e := by
  induction l with
  | nil => exact absurd (List.suffix_nil.mp hs) (List.cons_ne_nil e past)
  | cons a l ih =>
    rcases List.suffix_cons_iff.mp hs with heq | hs
    · obtain ⟨rfl, rfl⟩ := List.cons.inj heq
      exact h.1
    · exact ih h.2 hs

/-- What was there at any time is justified. -/
theorem Chronicle.suffix (h : Chronicle J l) (hs : past <:+ l) : Chronicle J past := by
  induction l with
  | nil => rwa [List.suffix_nil.mp hs]
  | cons a l ih =>
    rcases List.suffix_cons_iff.mp hs with rfl | hs
    · exact h
    · exact ih h.2 hs

/-- An entry has a place in its history. -/
theorem exists_suffix_of_mem (h : e ∈ l) : ∃ past, (e :: past) <:+ l := by
  obtain ⟨later, past, rfl⟩ := List.append_of_mem h
  exact ⟨past, later, rfl⟩

theorem Chronicle.mem (h : Chronicle J l) (he : e ∈ l) : ∃ past, (e :: past) <:+ l ∧ J past e := by
  obtain ⟨past, hs⟩ := exists_suffix_of_mem he
  exact ⟨past, hs, h.justified hs⟩

/-- What is there before an entry is there after it. -/
theorem mem_of_cons_suffix {x : ε} (hs : (e :: past) <:+ l) (hx : x ∈ past) : x ∈ l :=
  hs.subset (List.mem_cons_of_mem e hx)

end Geata.Lib
