import Mathlib.Data.List.Sort
import Geata.Lib.Framing
import Geata.Payments.Uses

namespace Geata.Payments

open Geata.Lib

/-!
# The identity of a token

`tokenId` hashes the sorted secrets, each behind its length.  A row of such texts can be taken apart
again, and sorting forgets nothing but the order, so the identity is the multiset of secrets.
-/

/-- Sorting forgets the order and nothing else. -/
theorem insertionSort_eq_iff_perm {l l' : List String} :
    l.insertionSort (· ≤ ·) = l'.insertionSort (· ≤ ·) ↔ l.Perm l' := by
  have hl := List.perm_insertionSort (· ≤ ·) l
  have hl' := List.perm_insertionSort (· ≤ ·) l'
  constructor
  · intro h
    rw [h] at hl
    exact hl.symm.trans hl'
  · intro h
    apply List.Perm.eq_of_pairwise' (r := (· ≤ ·))
    · exact List.pairwise_insertionSort (· ≤ ·) l
    · exact List.pairwise_insertionSort (· ≤ ·) l'
    · exact (hl.trans h).trans hl'.symm

/-- **Token identity is the multiset of secrets.**  With a collision-free hash, two tokens have the
    same identity exactly when their secrets are the same up to their order, whatever else the
    tokens are. -/
theorem token_identity (X : Crates) (hsha : Function.Injective X.sha256) (token token' : Token)
    (h : ∀ secret ∈ token.secrets, (bytes secret).length < 2 ^ 64)
    (h' : ∀ secret ∈ token'.secrets, (bytes secret).length < 2 ^ 64) :
    tokenId X token = tokenId X token' ↔ token.secrets.Perm token'.secrets := by
  rw [← insertionSort_eq_iff_perm]
  constructor
  · intro heq
    have hbytes := Lightning.digest_injective hsha heq
    refine flatMap_framed_injective (fun s hs => h s ?_) (fun s hs => h' s ?_) hbytes
    · exact (List.mem_insertionSort _).mp hs
    · exact (List.mem_insertionSort _).mp hs
  · intro heq
    unfold tokenId
    rw [heq]

/-- SHA-256 of the secrets `a` and `b`, and of the secret `ab`. -/
def testSecrets : List (List UInt8 × List UInt8) :=
  [(framed "a" ++ framed "b",
      word 32 0x3c9d591045bc8876f9d0399bbfb05c6a412096e906f73278f98406cd5dca86df),
    (framed "ab",
      word 32 0x9caccc24b5d7e06c21c0277b6530d66664273e11f326515c58eaa3691afccfff)]

/-- A token with the given secrets. -/
def testToken (secrets : List String) : Token where
  unit := some .sat
  mintUrl := some "https://mint.example"
  value := some 5
  spendingConditions := some []
  secrets := secrets

/-- The order of the secrets does not matter, joining them does. -/
theorem token_identity_reordered :
    tokenId { testPayments with sha256 := Lightning.hashTable testSecrets } (testToken ["b", "a"])
        = tokenId { testPayments with sha256 := Lightning.hashTable testSecrets }
          (testToken ["a", "b"]) ∧
      tokenId { testPayments with sha256 := Lightning.hashTable testSecrets } (testToken ["ab"])
        ≠ tokenId { testPayments with sha256 := Lightning.hashTable testSecrets }
          (testToken ["a", "b"]) := by
  have hsha : Function.Injective (Lightning.hashTable testSecrets) :=
    Lightning.hashTable_injective (by decide +kernel) (by decide +kernel)
  have hlen : ∀ secret ∈ ["a", "b", "ab"], (bytes secret).length < 2 ^ 64 := by decide +kernel
  refine ⟨?_, fun heq => ?_⟩
  · refine (token_identity _ hsha _ _ (fun s hs => hlen s ?_) (fun s hs => hlen s ?_)).mpr ?_
    · simp only [testToken, List.mem_cons, List.not_mem_nil] at hs ⊢
      tauto
    · simp only [testToken, List.mem_cons, List.not_mem_nil] at hs ⊢
      tauto
    · exact List.Perm.swap "a" "b" []
  · have hperm := (token_identity _ hsha _ _ (fun s hs => hlen s ?_) (fun s hs => hlen s ?_)).mp heq
    · exact absurd hperm.length_eq (by decide)
    · simp only [testToken, List.mem_cons, List.not_mem_nil] at hs ⊢
      tauto
    · simp only [testToken, List.mem_cons, List.not_mem_nil] at hs ⊢
      tauto

end Geata.Payments
