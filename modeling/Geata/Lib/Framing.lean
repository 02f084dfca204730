import Geata.Lib.Text
import Geata.Lib.Word

namespace Geata.Lib

/-!
# Texts behind their lengths

A text behind its length as eight bytes can be told from what follows it, so a row of such texts
can be taken apart again.

* `word_injective` — the bytes of a number that fits determine it.
* `flatMap_framed_injective` — a row of framed texts determines the texts.
-/

@[simp] theorem length_word (n x : ℕ) : (word n x).length = n := by
  induction n generalizing x with
  | zero => rfl
  | succ n ih => simp [word, ih]

/-- The bytes of a number that fits determine it. -/
theorem word_injective {n x y : ℕ} (hx : x < 256 ^ n) (hy : y < 256 ^ n)
    (h : word n x = word n y) : x = y := by
  induction n generalizing x y with
  | zero =>
    rw [Nat.pow_zero] at hx hy
    omega
  | succ n ih =>
    rw [Nat.pow_succ] at hx hy
    obtain ⟨hhigh, hlow⟩ := List.append_inj' h rfl
    have hdiv : x / 256 = y / 256 := ih (by omega) (by omega) hhigh
    have hmod : x % 256 = y % 256 := by
      have heq := congrArg UInt8.toNat (List.cons.inj hlow).1
      simpa [UInt8.toNat_ofNat'] using heq
    omega

/-- A text behind its length. -/
def framed (text : String) : List UInt8 := word 8 (bytes text).length ++ bytes text

/-- A framed text and what follows it determine the text. -/
theorem framed_append_injective {s t : String} {rest rest' : List UInt8}
    (hs : (bytes s).length < 2 ^ 64) (ht : (bytes t).length < 2 ^ 64)
    (h : framed s ++ rest = framed t ++ rest') : s = t ∧ rest = rest' := by
  unfold framed at h
  rw [List.append_assoc, List.append_assoc] at h
  obtain ⟨hword, h⟩ := List.append_inj h (by simp)
  have hlen : (bytes s).length = (bytes t).length := word_injective hs ht hword
  obtain ⟨hbytes, hrest⟩ := List.append_inj h hlen
  exact ⟨bytes_injective hbytes, hrest⟩

theorem framed_ne_nil (s : String) : framed s ≠ [] := by
  intro h
  have hlen := congrArg List.length h
  simp [framed] at hlen

/-- **Unambiguous parsing.**  Framed texts in a row can be told apart. -/
theorem flatMap_framed_injective {l l' : List String} (hl : ∀ s ∈ l, (bytes s).length < 2 ^ 64)
    (hl' : ∀ s ∈ l', (bytes s).length < 2 ^ 64) (h : l.flatMap framed = l'.flatMap framed) :
    l = l' := by
  induction l generalizing l' with
  | nil =>
    cases l' with
    | nil => rfl
    | cons t rest' =>
      rw [List.flatMap_cons, List.flatMap_nil] at h
      exact absurd (List.append_eq_nil_iff.mp h.symm).1 (framed_ne_nil t)
  | cons s rest ih =>
    cases l' with
    | nil =>
      rw [List.flatMap_cons, List.flatMap_nil] at h
      exact absurd (List.append_eq_nil_iff.mp h).1 (framed_ne_nil s)
    | cons t rest' =>
      rw [List.flatMap_cons, List.flatMap_cons] at h
      obtain ⟨rfl, hrest⟩ := framed_append_injective (hl s (by simp)) (hl' t (by simp)) h
      rw [ih (fun u hu => hl u (by simp [hu])) (fun u hu => hl' u (by simp [hu])) hrest]

end Geata.Lib
