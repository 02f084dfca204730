import Geata.Service.Deposits

namespace Geata.Service

open Geata.Lib Geata.Lightning Geata.Payments

/-!
# Challenge records are bounded

The capacity is checked inside the transactions that insert, so the check before a challenge may
be out of date without harm.  Retiring an association is the one write without a check; it only
overwrites the row it has read, because the pass holds the cursor.

* `RowsKept` — what one step does to a row: nothing, or the row goes away, or it is marked.
-/

section

variable {κ : Type} {X : Payments.Crates} {out : Outside} {call : ℕ}

/-- What one step may do to the rows: a root goes when it has expired, an association is marked
    as retired or goes; nothing is replaced by something else. -/
structure RowsKept (time : ℕ) (store store' : Store κ) : Prop where
  roots : ∀ key record, store.roots.lookup key = some record →
    store'.roots.lookup key = some record ∨ store'.roots.lookup key = none ∧ record.2 ≤ time
  quotes : ∀ key deposit, store.quotes.lookup key = some deposit →
    store'.quotes.lookup key = some deposit ∨
      store'.quotes.lookup key = some { deposit with retired := true } ∨
      store'.quotes.lookup key = none

theorem RowsKept.refl (time : ℕ) (store : Store κ) : RowsKept time store store :=
  ⟨fun _ _ h => .inl h, fun _ _ h => .inl h⟩

/-- Pruning drops what has expired. -/
theorem rows_prune (time : ℕ) (store : Store κ) : RowsKept time store (store.prune time) := by
  refine ⟨fun key record h => ?_, fun _ _ h => .inl h⟩
  by_cases hlive : time < record.2
  · exact .inl (Store.lookup_roots_prune.mpr ⟨h, hlive⟩)
  · refine .inr ⟨Option.eq_none_iff_forall_ne_some.mpr (fun record' h' => ?_), Nat.le_of_not_lt hlive⟩
    obtain ⟨h', hlive'⟩ := Store.lookup_roots_prune.mp h'
    rw [Option.some.inj (h.symm.trans h')] at hlive
    exact hlive hlive'

/-- A transaction that is allowed replaces no row by another. -/
theorem rows_commit {s : System κ} {o : LightningOp κ}
    (hdue : o.cleans = true → o.Due X s.store.quotes s.clock) :
    RowsKept s.clock s.store (s.commit o).store := by
  cases o
  case database | prune => exact rows_prune s.clock s.store
  case insertRoot key record =>
    simp only [System.commit]
    split
    · rename_i store hstore
      obtain ⟨hnone, rfl⟩ := Store.insertRoot_ok hstore
      refine ⟨fun k r hk => .inl ?_, fun _ _ h => .inl h⟩
      have hne : k ≠ key := by
        rintro rfl
        rw [hnone] at hk
        exact absurd hk (by simp)
      rw [Table.lookup_insert_eq, if_neg hne]
      exact hk
    · exact .refl _ _
  case insertQuote key deposit =>
    simp only [System.commit]
    split
    · rename_i store hstore
      obtain ⟨hnone, rfl⟩ := Store.insertQuote_ok hstore
      refine ⟨fun _ _ h => .inl h, fun k d hk => .inl ?_⟩
      have hne : k ≠ key := by
        rintro rfl
        rw [hnone] at hk
        exact absurd hk (by simp)
      rw [Table.lookup_insert_eq, if_neg hne]
      exact hk
    · exact .refl _ _
  case claim key retainUntil =>
    simp only [System.commit]
    split
    · rename_i claimed store hstore
      obtain ⟨-, ⟨-, rfl, -⟩ | ⟨-, -, rfl⟩⟩ := Store.claim_ok_iff.mp hstore
      · exact .refl _ _
      · exact ⟨fun _ _ h => .inl h, fun _ _ h => .inl h⟩
    · exact .refl _ _
  case retireQuote key deposit =>
    obtain ⟨hrow, -⟩ := hdue rfl
    refine ⟨fun _ _ h => .inl h, fun k d hk => ?_⟩
    by_cases hkey : k = key
    · subst hkey
      obtain rfl := Option.some.inj (hrow.symm.trans hk)
      refine .inr (.inl ?_)
      show (s.store.quotes.insert k _).lookup k = _
      rw [Table.lookup_insert_eq, if_pos rfl]
    · refine .inl ?_
      show (s.store.quotes.insert key _).lookup k = _
      rw [Table.lookup_insert_eq, if_neg hkey]
      exact hk
  case removeQuote key deposit =>
    refine ⟨fun _ _ h => .inl h, fun k d hk => ?_⟩
    by_cases hkey : k = key
    · subst hkey
      refine .inr (.inr ?_)
      show (s.store.quotes.erase k).lookup k = _
      rw [Table.lookup_erase_eq, if_pos rfl]
    · refine .inl ?_
      show (s.store.quotes.erase key).lookup k = _
      rw [Table.lookup_erase_eq, if_neg hkey]
      exact hk
  case insertMint => exact ⟨fun _ _ h => .inl h, fun _ _ h => .inl h⟩
  all_goals exact .refl _ _

/-- One step of a run keeps the rows. -/
theorem rows_step [DecidableEq κ] {X : Service.Crates κ} (hone : ¬ out.overtakes)
    {w w' : World (ServiceSig κ) (System κ) Request Answer}
    (h : World.Reachable (machine X out) w) (hs : World.Step (machine X out) w w') :
    RowsKept w.shared.clock w.shared.store w'.shared.store := by
  rcases writes_step hone h hs with hstore | ⟨o, hstore, hclean⟩ <;> rw [hstore]
  · exact .refl _ _
  · exact rows_commit (fun ho => (hclean ho).1)

variable [DecidableEq κ]

/-- **Challenge records are bounded.**  In every run with one cleanup pass at a time (none begins while
    a write of one that was cut off is still to come):

    1. there are never more than 10,000 roots and associations together;
    2. no step replaces a root or an association by another one: a root goes only when it has
       expired, an association is at most marked as retired, or goes;
    3. so the check before an x402-only challenge of a node never fails. -/
theorem challenge_records_bounded {X : Service.Crates κ} (hone : ¬ out.overtakes)
    {w : World (ServiceSig κ) (System κ) Request Answer}
    (h : World.Reachable (machine X out) w) :
    w.shared.store.roots.len + w.shared.store.quotes.len ≤ 10000 ∧
    (∀ w', World.Step (machine X out) w w' →
      RowsKept w.shared.clock w.shared.store w'.shared.store) ∧
    ∀ policy : Policy, policy.receiver.mint? = none → policy.protocols.l402 = false →
      w.shared.store.checkCapacity
        (policy.protocols.l402.toNat + policy.receiver.mint?.isSome.toNat) = .ok () := by
  have hbound := ((associations X hone).sound h).inv.bounded
  refine ⟨hbound, fun w' hs => rows_step hone h hs, fun policy hmint hl402 => ?_⟩
  rw [hmint, hl402]
  exact Store.checkCapacity_ok_iff.mpr hbound

end

/-- From an answered challenge of a mint on.  Its root and its association are there, and no step puts
    others in their place. -/
theorem challenge_records_bounded_offered :
    ∃ w : World (ServiceSig (List UInt8)) (System (List UInt8)) Request Answer,
      World.Reachable (machine testMintService testMints) w ∧ w.shared = testOffered ∧
      (∀ w', World.Steps (machine testMintService testMints) w w' →
        w'.shared.store.roots.len + w'.shared.store.quotes.len ≤ 10000 ∧
        w'.shared.store.checkCapacity 0 = .ok ()) ∧
      ∀ w', World.Step (machine testMintService testMints) w w' →
        (w'.shared.store.quotes.lookup testMintKey = some testDeposit ∨
          w'.shared.store.quotes.lookup testMintKey = some { testDeposit with retired := true } ∨
          w'.shared.store.quotes.lookup testMintKey = none) ∧
        w'.shared.store.roots.lookup (digest (hashTable testMintDigests) testIdentifier)
          = some (L402.testRoot, 1700003661) := by
  obtain ⟨w, h, hshared, -, -⟩ := exists_testOffered
  refine ⟨w, h, hshared, fun w' hs => ?_, fun w' hs => ?_⟩
  · obtain ⟨hlen, -, hcheck⟩ := challenge_records_bounded id (h.steps hs)
    exact ⟨hlen, hcheck { testPolicy with protocols := ⟨true, false⟩ } rfl rfl⟩
  · obtain ⟨-, hrows, -⟩ := challenge_records_bounded id h
    have hkept := hrows w' hs
    rw [hshared] at hkept
    refine ⟨hkept.quotes testMintKey testDeposit rfl, ?_⟩
    -- the root has not expired
    refine (hkept.roots _ (L402.testRoot, 1700003661) rfl).resolve_right (fun hgone => ?_)
    exact absurd hgone.2 (by decide)

end Geata.Service
