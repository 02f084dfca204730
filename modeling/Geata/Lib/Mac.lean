import Mathlib.Data.List.Basic
import Mathlib.Data.List.Induction

namespace Geata.Lib

/-!
# Symbolic message authentication codes

Keyed hashing as a free constructor: a `Term` is a fresh secret, a public message, or the code of
a message under a key.  An adversary knows every public message, every term it has been shown,
and every code under a key it knows.

* `chain k ms` — the codes of `ms` chained, each one keyed by the code before it.
* `Term.Knows` — what the adversary can derive from the terms it has `seen`.
* `Knows.chain_prefix` — **chains can only be extended**: if everything shown is a nonempty chain
  from some secret, then a derivable chain from a secret extends a shown chain from that secret.
-/

/-- Symbolic values over secrets `ν` and public messages `μ`. -/
inductive Term (ν μ : Type) where
  | secret (n : ν)
  | data (m : μ)
  | mac (key msg : Term ν μ)
  deriving DecidableEq

namespace Term

variable {ν μ : Type}

/-- The code of a public message under a key. -/
def code (k : Term ν μ) (m : μ) : Term ν μ := .mac k (.data m)

/-- Chained codes: each message is keyed by the code of the messages before it. -/
def chain (k : Term ν μ) (ms : List μ) : Term ν μ := ms.foldl code k

@[simp] theorem chain_nil (k : Term ν μ) : chain k [] = k := rfl

@[simp] theorem chain_cons (k : Term ν μ) (m : μ) (ms : List μ) :
    chain k (m :: ms) = chain (code k m) ms := rfl

@[simp] theorem chain_concat (k : Term ν μ) (ms : List μ) (m : μ) :
    chain k (ms ++ [m]) = code (chain k ms) m := by
  simp [chain, List.foldl_append]

/-- A chain from a secret determines the secret and the messages. -/
theorem chain_secret_inj {n n' : ν} {ms ms' : List μ}
    (h : chain (.secret n) ms = chain (.secret n') ms') : n = n' ∧ ms = ms' := by
  induction ms using List.reverseRecOn generalizing ms' with
  | nil =>
    cases ms' using List.reverseRecOn with
    | nil => exact ⟨secret.inj h, rfl⟩
    | append_singleton ms' m' => simp [code] at h
  | append_singleton ms m ih =>
    cases ms' using List.reverseRecOn with
    | nil => simp [code] at h
    | append_singleton ms' m' =>
      simp only [chain_concat, code, mac.injEq, data.injEq] at h
      obtain ⟨rfl, rfl⟩ := ih h.1
      exact ⟨rfl, by rw [h.2]⟩

/-- What an adversary derives from the terms it has seen.  It can authenticate any message, even
    one it does not know, under any key it knows. -/
inductive Knows (seen : Term ν μ → Prop) : Term ν μ → Prop where
  | data (m : μ) : Knows seen (.data m)
  | seen {t : Term ν μ} (h : seen t) : Knows seen t
  | mac {k : Term ν μ} (m : Term ν μ) (h : Knows seen k) : Knows seen (.mac k m)

variable {seen : Term ν μ → Prop} {issued : ν → List μ → Prop}

/-- Nothing but nonempty chains from secrets has been shown. -/
def OnlyChains (seen : Term ν μ → Prop) (issued : ν → List μ → Prop) : Prop :=
  ∀ t, seen t → ∃ n ms, ms ≠ [] ∧ issued n ms ∧ t = chain (.secret n) ms

theorem Knows.not_secret (hs : OnlyChains seen issued) (n : ν) : ¬ Knows seen (.secret n) := by
  intro h
  cases h with
  | seen h =>
    obtain ⟨n', ms, hne, -, heq⟩ := hs _ h
    cases ms using List.reverseRecOn with
    | nil => exact hne rfl
    | append_singleton ms m => simp [code] at heq

/-- **Chains can only be extended.**  By induction on the messages from the last one: the last
    code was either shown, or made from the code before it. -/
theorem Knows.chain_prefix (hs : OnlyChains seen issued) {n : ν} {ms : List μ}
    (h : Knows seen (chain (.secret n) ms)) : ∃ ms', issued n ms' ∧ ms' ≠ [] ∧ ms' <+: ms := by
  induction ms using List.reverseRecOn with
  | nil => exact absurd h (Knows.not_secret hs n)
  | append_singleton ms m ih =>
    have hshown : ∀ t, seen t → t = chain (.secret n) (ms ++ [m]) →
        ∃ ms', issued n ms' ∧ ms' ≠ [] ∧ ms' <+: ms ++ [m] := by
      intro t ht heq
      obtain ⟨n', ms', hne, hi, heq'⟩ := hs t ht
      obtain ⟨rfl, rfl⟩ := chain_secret_inj (heq'.symm.trans heq)
      exact ⟨_, hi, hne, List.prefix_refl _⟩
    generalize ht : chain (.secret n) (ms ++ [m]) = t at h
    cases h with
    | data m' => simp [code] at ht
    | seen h => exact hshown _ h ht.symm
    | mac m' hk =>
      simp only [chain_concat, code, mac.injEq] at ht
      obtain ⟨rfl, -⟩ := ht
      obtain ⟨ms', hi, hne, hp⟩ := ih hk
      exact ⟨ms', hi, hne, hp.trans (List.prefix_append _ _)⟩

end Term

end Geata.Lib
