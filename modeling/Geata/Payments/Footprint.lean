import Geata.Payments.Payout
import Geata.Payments.Rules

namespace Geata.Payments

open Geata.Lib

/-!
# Which operations each wallet program performs

A wallet has three kinds of users: the programs that collect tokens, those that handle deposits,
and those that pay out.  Each keeps to its own operations and to a few common ones.
-/

inductive Part where
  | common
  | token
  | deposit
  | payout
  deriving DecidableEq

/-- Who uses an operation. -/
def WalletOp.part : WalletOp → Part
  | .session (.confirming _) => .payout
  | .session _ => .common
  | .ledger (.reserve _ _ _) | .ledger (.claim _) => .token
  | .ledger .payout | .ledger (.savePayout _) => .payout
  | .cdk .recoverIncompleteSagas | .cdk .listTransactions => .common
  | .cdk (.verifyTokenDleq _) | .cdk .getMintKeysets | .cdk (.getProofsFee _)
  | .cdk (.receiveProofs _ _ _) => .token
  | .cdk .getMintQuotes | .cdk (.getMintQuote _) | .cdk (.mintQuote _)
  | .cdk (.checkMintQuoteStatus _) | .cdk (.getMintQuoteStatus _) | .cdk (.mint _)
  | .cdk (.removeMintQuote _) | .cdk .getUnissuedMintQuotes => .deposit
  | .cdk .totalBalance | .cdk (.preparePayRequest _ _) | .cdk (.cancel _) | .cdk (.confirm _)
  | .cdk (.revokeSend _) | .cdk (.getSaga _) | .cdk .getPendingSends => .payout

/-- A common operation, or one of the given part. -/
def WalletOp.Within (part : Part) (o : WalletOp) : Prop := o.part = .common ∨ o.part = part

variable {part : Part} {ε : Type} (X : Crates)

/-! ### Common beginnings -/

theorem enter_within {busy broken : ε} : (enter busy broken).All (WalletOp.Within part) := by
  unfold enter
  refine .bind (all_session.mpr (.inl rfl)) (fun _ => .bind (Stage.all_stopIf _ _) (fun _ => ?_))
  exact .bind (all_session.mpr (.inl rfl)) (fun _ => Stage.all_stopIf _ _)

theorem recover_within {f : PaymentError → ε} : (recover f).All (WalletOp.Within part) :=
  all_recover (.inl rfl) (.inl rfl) (.inl rfl)

theorem begin_within : begin.All (WalletOp.Within part) :=
  .bind enter_within (fun _ => recover_within)

/-! ### Tokens -/

theorem claim_within (id : String) : (claim id).All (WalletOp.Within .token) :=
  .bind (all_ledger.mpr (.inr rfl)) (fun _ => Stage.all_stopIf _ _)

theorem redeem_within (id : String) (price : UInt32) (proofs : List Proof) (encoded : String) :
    (redeem id price proofs encoded).All (WalletOp.Within .token) := by
  unfold redeem
  refine .bind (all_session.mpr (.inl rfl)) (fun _ => .bind (all_cdk.mpr (.inr rfl)) (fun _ => ?_))
  refine .bind (Stage.all_stopIf _ _) (fun _ => .bind (all_session.mpr (.inl rfl)) (fun _ => ?_))
  exact claim_within id

theorem grant_within (id : String) (price : UInt32) (proofs : List Proof) (encoded : String)
    (r : Reservation) : (grant id price proofs encoded r).All (WalletOp.Within .token) := by
  cases r with
  | claimed => exact Stage.all_throw _
  | mismatch => exact Stage.all_throw _
  | new => exact redeem_within id price proofs encoded
  | pending =>
    refine .bind (all_cdk.mpr (.inl rfl)) (fun transactions => ?_)
    split
    · exact claim_within id
    · exact redeem_within id price proofs encoded

theorem collectInner_within (site : String) (policy : PaymentPolicy) (encoded : String) :
    (collectInner X site policy encoded).All (WalletOp.Within .token) := by
  unfold collectInner
  refine .bind (Stage.all_ofExcept _) (fun token => ?_)
  refine .bind enter_within (fun _ => .bind recover_within (fun _ => ?_))
  refine .bind (all_cdk.mpr (.inr rfl)) (fun _ => .bind (all_cdk.mpr (.inr rfl)) (fun keysets => ?_))
  refine .bind (Stage.all_ofExcept _) (fun proofs => .bind (all_cdk.mpr (.inr rfl)) (fun fees => ?_))
  refine .bind (Stage.all_ofExcept _) (fun _ => .bind (all_ledger.mpr (.inr rfl)) (fun r => ?_))
  exact grant_within _ _ proofs encoded r

/-! ### Deposits -/

theorem mintInvoice_within (amount : ℕ) :
    (mintInvoice amount).All (WalletOp.Within .deposit) := by
  unfold mintInvoice
  refine .bind begin_within (fun _ => .bind (all_cdk.mpr (.inr rfl)) (fun _ => ?_))
  exact .bind (Stage.all_stopIf _ _) (fun _ => all_cdk.mpr (.inr rfl))

theorem hasMintTransaction_within (id : String) (amount : ℕ) (invoice : String) :
    (hasMintTransaction id amount invoice).All (WalletOp.Within .deposit) :=
  .bind (all_cdk.mpr (.inl rfl)) (fun _ => Stage.all_pure _)

theorem mintPaid_within (quote : MintQuote) (id : String) :
    (mintPaid X quote id).All (WalletOp.Within .deposit) := by
  unfold mintPaid
  split
  · exact all_cdk.mpr (.inr rfl)
  · exact Stage.all_pure _

theorem issue_within (id : String) (amount : ℕ) (invoice : String) :
    (issue X id amount invoice).All (WalletOp.Within .deposit) := by
  unfold issue
  refine .bind (all_session.mpr (.inl rfl)) (fun _ => .bind (all_cdk.mpr (.inr rfl)) (fun _ => ?_))
  refine .bind (mintPaid_within X _ id) (fun _ => .bind (hasMintTransaction_within ..) (fun _ => ?_))
  exact .bind (Stage.all_stopIf _ _) (fun _ => all_session.mpr (.inl rfl))

theorem collectMintInvoice_within (id : String) (amount : ℕ) (invoice : String) :
    (collectMintInvoice X id amount invoice).All (WalletOp.Within .deposit) := by
  unfold collectMintInvoice
  refine .bind begin_within (fun _ => .bind (hasMintTransaction_within ..) (fun received => ?_))
  split
  · exact Stage.all_pure _
  · refine .bind (all_cdk.mpr (.inr rfl)) (fun stored => .bind (Stage.all_ofExcept _) (fun _ => ?_))
    exact .bind (Stage.all_stopIf _ _) (fun _ => issue_within X id amount invoice)

theorem definitivelyUnpaid_within (quote : MintQuote) :
    (definitivelyUnpaid X quote).All (WalletOp.Within .deposit) := by
  unfold definitivelyUnpaid
  refine .bind (all_session.mpr (.inl rfl)) (fun time => ?_)
  split
  · exact .bind (all_cdk.mpr (.inr rfl)) (fun _ => Stage.all_pure _)
  · exact Stage.all_pure _

theorem canPruneMintDeposit_within (id : String) (amount : ℕ) (invoice : String) :
    (canPruneMintDeposit X id amount invoice).All (WalletOp.Within .deposit) := by
  unfold canPruneMintDeposit
  refine .bind begin_within (fun _ => .bind (hasMintTransaction_within ..) (fun received => ?_))
  split
  · exact Stage.all_pure _
  · refine .bind (all_cdk.mpr (.inr rfl)) (fun stored => ?_)
    cases stored with
    | none => exact Stage.all_pure _
    | some quote =>
      simp only [canPruneQuote]
      split
      · exact definitivelyUnpaid_within X quote
      · exact Stage.all_pure _

theorem removeRetiredMintQuote_within (id : String) :
    (removeRetiredMintQuote id).All (WalletOp.Within .deposit) :=
  .bind begin_within (fun _ => all_cdk.mpr (.inr rfl))

theorem recoverQuote_within (associated : List String) (id : String) :
    (recoverQuote X associated id).All (WalletOp.Within .deposit) := by
  unfold recoverQuote abandoned
  refine .bind (all_cdk.mpr (.inr rfl)) (fun quote => .bind ?_ (fun unpaid => ?_))
  · split
    · exact Stage.all_pure _
    · exact definitivelyUnpaid_within X quote
  · split
    · exact all_cdk.mpr (.inr rfl)
    · exact mintPaid_within X quote quote.id

theorem recoverQuotes_within (associated : List String) (quotes : List MintQuote) :
    (recoverQuotes X associated quotes).All (WalletOp.Within .deposit) := by
  induction quotes with
  | nil => exact Stage.all_pure _
  | cons quote rest ih =>
    unfold recoverQuotes
    refine .bind (all_session.mpr (.inl rfl)) (fun _ => .bind (all_session.mpr (.inl rfl)) (fun _ => ?_))
    refine .bind (Stage.all_attempt.mpr (recoverQuote_within X associated _)) (fun r => .bind ?_ (fun _ => ih))
    cases r with
    | error e => exact recover_within
    | ok u => exact all_session.mpr (.inl rfl)

theorem recoverMintDeposits_within (associated : List String) :
    (recoverMintDeposits X associated).All (WalletOp.Within .deposit) := by
  unfold recoverMintDeposits
  refine .bind begin_within (fun _ => .bind (all_cdk.mpr (.inr rfl)) (fun quotes => ?_))
  exact .bind (all_session.mpr (.inl rfl)) (fun _ => recoverQuotes_within X associated _)

/-! ### Payouts -/

/-- What an automatic payout may send in all. -/
def PayoutPolicy.cap (policy : PayoutPolicy) : ℕ := policy.amount.toNat + policy.maxFee.toNat

/-- The sum of a policy's amount and fee does not overflow. -/
theorem PayoutPolicy.toNat_cap (policy : PayoutPolicy) :
    (policy.amount + policy.maxFee).toNat = policy.cap := by
  have hfits := policy.fits
  rw [u64Max_eq] at hfits
  rw [UInt64.toNat_add, cap, Nat.mod_eq_of_lt (by omega)]

/-- A send that an operation confirms is within the cap; without a cap it confirms none. -/
def WalletOp.Capped (cap : Option ℕ) : WalletOp → Prop
  | .session (.confirming send) => ∃ c ∈ cap, send.totalAmount ≤ c
  | _ => True

/-- The operations of a payout with a cap. -/
def WalletOp.Pays (cap : Option ℕ) (o : WalletOp) : Prop := o.Within .payout ∧ o.Capped cap

variable {cap : Option ℕ}

theorem recover_pays {f : PaymentError → ε} : (recover f).All (WalletOp.Pays cap) :=
  all_recover ⟨.inl rfl, trivial⟩ ⟨.inl rfl, trivial⟩ ⟨.inl rfl, trivial⟩

theorem abandonSend_pays (send : PreparedPayRequest) :
    (abandonSend send).All (WalletOp.Pays cap) := by
  unfold abandonSend
  refine .bind (all_cdk.mpr ⟨.inr rfl, trivial⟩) (fun _ => ?_)
  exact .bind (all_session.mpr ⟨.inl rfl, trivial⟩) (fun _ => Stage.all_throw _)

theorem journalSend_pays (send : PreparedPayRequest) (state : PayoutState) :
    (journalSend send state).All (WalletOp.Pays cap) := by
  unfold journalSend
  refine .bind (Stage.all_attempt.mpr (all_ledger.mpr ⟨.inr rfl, trivial⟩)) (fun r => ?_)
  cases r with
  | ok u => exact Stage.all_pure _
  | error e =>
    exact .bind (Stage.all_attempt.mpr (all_cdk.mpr ⟨.inr rfl, trivial⟩)) (fun _ => Stage.all_throw _)

theorem confirmSend_pays {send : PreparedPayRequest} {limit : ℕ} (state : PayoutState)
    (h : send.totalAmount ≤ limit) : (confirmSend X send state).All (WalletOp.Pays (some limit)) := by
  unfold confirmSend
  refine .bind (all_session.mpr ⟨.inr rfl, limit, rfl, h⟩) (fun _ => ?_)
  refine .bind (all_cdk.mpr ⟨.inr rfl, trivial⟩) (fun _ => ?_)
  refine .bind (all_session.mpr ⟨.inl rfl, trivial⟩) (fun _ => ?_)
  refine .bind (all_ledger.mpr ⟨.inr rfl, trivial⟩) (fun _ => ?_)
  exact all_session.mpr ⟨.inl rfl, trivial⟩

theorem sendRequest_pays (request : PaymentRequest) (amount maxTotal : UInt64)
    (state : PayoutState) :
    (sendRequest X request amount maxTotal state).All (WalletOp.Pays (some maxTotal.toNat)) := by
  unfold sendRequest
  refine .bind (all_session.mpr ⟨.inl rfl, trivial⟩) (fun _ => ?_)
  refine .bind (all_cdk.mpr ⟨.inr rfl, trivial⟩) (fun send => ?_)
  split
  · exact abandonSend_pays send
  · rename_i hle
    exact .bind (journalSend_pays send _) (fun _ => confirmSend_pays X _ (Nat.le_of_not_lt hle))

theorem payoutState_pays (now : ℕ) : (payoutState now).All (WalletOp.Pays cap) := by
  unfold payoutState
  refine .bind (all_ledger.mpr ⟨.inr rfl, trivial⟩) (fun stored => ?_)
  cases stored with
  | some state => exact Stage.all_pure _
  | none => exact .bind (all_ledger.mpr ⟨.inr rfl, trivial⟩) (fun _ => Stage.all_pure _)

theorem payoutOpen_pays (policy : PayoutPolicy) :
    (payoutOpen X policy).All (WalletOp.Pays (some policy.cap)) := by
  unfold payoutOpen payDue
  refine .bind (all_session.mpr ⟨.inl rfl, trivial⟩) (fun now => ?_)
  refine .bind (payoutState_pays now) (fun state => ?_)
  split
  · exact Stage.all_pure _
  · refine .bind recover_pays (fun _ => .bind (all_cdk.mpr ⟨.inr rfl, trivial⟩) (fun balance => ?_))
    split
    · refine .bind (all_ledger.mpr ⟨.inr rfl, trivial⟩) (fun _ => ?_)
      rw [← policy.toNat_cap]
      exact sendRequest_pays X _ _ _ _
    · exact Stage.all_pure _

theorem automaticPayout_pays (policy : PayoutPolicy) :
    (automaticPayout X policy).All (WalletOp.Pays (some policy.cap)) := by
  unfold automaticPayout
  refine .bind (all_session.mpr ⟨.inl rfl, trivial⟩) (fun locked => ?_)
  split
  · refine .bind (all_session.mpr ⟨.inl rfl, trivial⟩) (fun _ => ?_)
    exact .bind (Stage.all_stopIf _ _) (fun _ => payoutOpen_pays X policy)
  · exact Stage.all_pure _

theorem pay_pays (mint encoded : String) (amount : Option UInt64) (maxTotal : UInt64) :
    (pay X mint encoded amount maxTotal).All (WalletOp.Pays (some maxTotal.toNat)) := by
  unfold pay
  refine .bind (Stage.all_ofExcept _) (fun x => .bind (Stage.all_stopIf _ _) (fun _ => ?_))
  refine .bind (all_session.mpr ⟨.inl rfl, trivial⟩) (fun _ => .bind (Stage.all_stopIf _ _) (fun _ => ?_))
  refine .bind recover_pays (fun _ => .bind (all_ledger.mpr ⟨.inr rfl, trivial⟩) (fun stored => ?_))
  exact .bind (Stage.all_stopIf _ _) (fun _ => sendRequest_pays X _ _ _ _)

theorem resolvePending_pays (state : PayoutState) :
    (resolvePending X state).All (WalletOp.Pays cap) := by
  unfold resolvePending
  split
  · exact Stage.all_pure _
  · refine .bind (Stage.all_ofExcept _) (fun _ => .bind (all_cdk.mpr ⟨.inr rfl, trivial⟩) (fun found => ?_))
    split
    · exact Stage.all_pure _
    · refine .bind (all_session.mpr ⟨.inl rfl, trivial⟩) (fun _ => ?_)
      exact .bind (all_ledger.mpr ⟨.inr rfl, trivial⟩) (fun _ => Stage.all_pure _)

/-- Looking at the pending sends confirms none. -/
theorem pending_pays (reclaim : Option String) :
    (pending X reclaim).All (WalletOp.Pays none) := by
  unfold pending
  refine .bind (all_session.mpr ⟨.inl rfl, trivial⟩) (fun _ => .bind (Stage.all_stopIf _ _) (fun _ => ?_))
  refine .bind recover_pays (fun _ => .bind ?_ (fun _ => ?_))
  · cases reclaim with
    | none => exact Stage.all_pure _
    | some id =>
      exact .bind (Stage.all_ofExcept _) (fun _ => all_cdk.mpr ⟨.inr rfl, trivial⟩)
  refine .bind (all_ledger.mpr ⟨.inr rfl, trivial⟩) (fun stored => ?_)
  refine .bind (resolvePending_pays X _) (fun _ => ?_)
  exact .bind (all_cdk.mpr ⟨.inr rfl, trivial⟩) (fun _ => Stage.all_pure _)

/-- The other parts confirm no send. -/
theorem WalletOp.Within.capped {o : WalletOp} (h : o.Within part) (hpart : part ≠ .payout) :
    o.Capped cap := by
  unfold Capped
  split
  · rename_i send
    rcases h with h | h
    · exact absurd h (by simp [WalletOp.part])
    · exact absurd h.symm hpart
  · trivial

end Geata.Payments
