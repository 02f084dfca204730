import Geata.Service.History

namespace Geata.Service

open Geata.Lib Geata.Lightning Geata.Payments Function

/-!
# What the uses of a wallet leave in the history

The programs behind mint-backed invoices, in the logic of the history: what each of them may do,
and what its answer shows.

* `safe_mintInvoice` — a quote comes from the mint.
* `safe_collectMintInvoice`, `safe_canPruneMintDeposit` — evidence about a deposit.
* `safe_recoverMintDeposits` — a recovery pass gives up only quotes that are unpaid.
-/

section

variable {κ : Type} {X : Service.Crates κ} {out : Outside} {J : System κ → Prop} {call : ℕ}
  {s s' : System κ} {mint : String} {ε α β : Type}

/-- The operation makes no entry that would have to be justified. -/
def Mute (o : WalletOp) : Prop := ∀ mint, WalletOp.entry (κ := Unit) mint o = none

theorem Mute.needs {o : WalletOp} (h : Mute o) (s : System κ) :
    (recordWallet X out J mint).Needs call o s := by
  intro e he
  have he : WalletOp.entry mint o = some e := he
  cases o with
  | cdk o =>
    cases o
    case mintQuote amount => exact absurd (h mint) (by simp [WalletOp.entry])
    case removeMintQuote id => exact absurd (h mint) (by simp [WalletOp.entry])
    all_goals exact nomatch he
  | _ => exact nomatch he

/-- A part of a sequence that makes no such entry and whose outcome does not matter. -/
theorem safe_mute {t : Stage WalletSig ε β} {f : β → Stage WalletSig ε α} {Q : α → System κ → Prop}
    (ht : t.All Mute) (hf : ∀ b, Stage.safe (recordWallet X out J mint) call (f b) Q
      (fun _ _ => True) s) :
    Stage.safe (recordWallet X out J mint) call (t >>= f) Q (fun _ _ => True) s :=
  Stage.safe_skip (recordWallet_lasting X out J mint)
    (Prog.All.mono ht (fun _ ho s _ => ho.needs s)) hf

theorem begin_mute : begin.All Mute := all_begin (fun _ _ => rfl) (fun _ => rfl)

/-- A CDK call without an entry, with its answer and its notes. -/
theorem safe_cdk_notes {f : CdkError → ε} {o : CdkOp} {k : o.Answer → Stage WalletSig ε α}
    {Q : α → System κ → Prop} (hmute : Mute (.cdk o))
    (h : ∀ a s₁ s₂, Later s s₁ → (∃ w notes, (s₁.wallets mint).exec (out.quotes mint) call s₁.clock
        (s₁.directory = some .server) (.cdk o) (.ok a) w notes ∧ s₂ = s₁.setWallet mint w notes) →
      Recorded X out s₂ → Later s s₂ →
      Stage.safe (recordWallet X out J mint) call (k a) Q (fun _ _ => True) s₂) :
    Stage.safe (recordWallet X out J mint) call (cdk f o >>= k) Q (fun _ _ => True) s :=
  safe_cdk_bind (recordWallet_lasting X out J mint) (fun s₁ _ _ => hmute.needs s₁)
    (fun a s₁ s₂ hs₁ _ he hi₂ h₁₂ => h a s₁ s₂ hs₁ (recordWallet_exec he) hi₂ (hs₁.trans h₁₂))

/-- The notes of a wallet's step are in the history. -/
theorem mem_setWallet {w : Wallet} {notes : List Note} {note : Note} (h : note ∈ notes) :
    .wallet mint note ∈ (s.setWallet mint w notes).history :=
  List.mem_append_left _ (List.mem_map_of_mem h)

/-! ### Quotes -/

/-- A quote that is answered was made by the mint. -/
theorem safe_mintInvoice {amount : ℕ} (hmint : .remembered mint ∈ s.history) :
    Stage.safe (recordWallet X out J mint) call (mintInvoice amount)
      (fun quote s => out.quotes mint quote ∧ .wallet mint (.quoted quote) ∈ s.history)
      (fun _ _ => True) s := by
  have hL := recordWallet_lasting X out J mint
  unfold mintInvoice
  refine safe_mute begin_mute (fun _ => ?_)
  refine safe_cdk_notes (fun _ => rfl) (fun quotes s₁ s₂ _ _ _ hs₂ => ?_)
  refine Stage.safe_stopIf_bind (fun _ _ _ _ => trivial) (fun _ => ?_)
  refine safe_cdk hL (fun s₃ hs₃ _ e he => ?_) (fun quote s₃ s₄ _ _ he _ _ s₅ hs₅ _ => ?_)
  · obtain rfl := Option.some.inj he
    exact (hs₂.trans hs₃).mem hmint
  · obtain ⟨w, notes, ⟨c', -, hmakes, -, rfl⟩, rfl⟩ := recordWallet_exec he
    exact ⟨hmakes, hs₅.mem (mem_setWallet (by simp))⟩

/-! ### Deposits -/

theorem safe_hasMintTransaction {id invoice : String} {amount : ℕ} :
    Stage.safe (recordWallet X out J mint) call (hasMintTransaction id amount invoice)
      (fun received s => received = true → Received s.history mint id amount invoice)
      (fun _ _ => True) s := by
  unfold hasMintTransaction
  refine safe_cdk_notes (fun _ => rfl) (fun txs s₁ s₂ _ hw _ _ => ?_)
  refine Stage.safe_pure (fun s₃ hs₃ _ hany => ?_)
  obtain ⟨w, notes, ⟨c', -, -, rfl, rfl⟩, rfl⟩ := hw
  obtain ⟨t, ht, hdeposits⟩ := List.any_eq_true.mp hany
  exact ⟨txs, t, hs₃.mem (mem_setWallet (by simp [CdkOp.notes])), ht, hdeposits⟩

theorem mintPaid_mute (quote : MintQuote) (id : String) : (mintPaid X.payments quote id).All Mute := by
  unfold mintPaid
  split
  · exact all_cdk.mpr (fun _ => rfl)
  · exact Stage.all_pure _

/-- Funds that are collected were seen. -/
theorem safe_collectMintInvoice {id invoice : String} {amount : ℕ} :
    Stage.safe (recordWallet X out J mint) call (collectMintInvoice X.payments id amount invoice)
      (fun _ s => Received s.history mint id amount invoice) (fun _ _ => True) s := by
  have hL := recordWallet_lasting X out J mint
  unfold collectMintInvoice
  refine safe_mute begin_mute (fun _ => ?_)
  refine Stage.safe_bind hL safe_hasMintTransaction (fun received s₁ _ _ hreceived => ?_)
    (fun _ _ _ _ _ => trivial)
  split
  · rename_i hyes
    exact Stage.safe_pure (fun s₂ hs₂ _ => (hreceived hyes).mono hs₂.history.subset)
  · refine safe_cdk_notes (fun _ => rfl) (fun stored s₂ s₃ _ _ _ _ => ?_)
    refine Stage.safe_ofExcept_bind (fun _ _ _ _ _ => trivial) (fun quote _ => ?_)
    refine Stage.safe_stopIf_bind (fun _ _ _ _ => trivial) (fun _ => ?_)
    unfold issue
    refine Stage.safe_quiet_bind hL (fun s₄ _ => Mute.needs (fun _ => rfl) s₄) (fun _ => ?_)
    refine safe_cdk_notes (fun _ => rfl) (fun quote s₄ s₅ _ _ _ _ => ?_)
    refine safe_mute (mintPaid_mute quote id) (fun _ => ?_)
    refine Stage.safe_bind hL safe_hasMintTransaction (fun received s₆ _ _ hreceived => ?_)
      (fun _ _ _ _ _ => trivial)
    refine Stage.safe_stopIf_bind (fun _ _ _ _ => trivial) (fun hyes => ?_)
    have hreceived := hreceived (by simpa using hyes)
    refine Logic.safe_quiet hL (fun s₇ _ => Mute.needs (fun _ => rfl) s₇) (fun _ => ?_)
    exact Stage.safe_pure (fun s₈ hs₈ _ => hreceived.mono hs₈.history.subset)

/-! ### Giving up -/

/-- A quote that was read and is given up is unpaid. -/
theorem safe_definitivelyUnpaid {quote : MintQuote} (hread : .wallet mint (.read quote) ∈ s.history) :
    Stage.safe (recordWallet X out J mint) call (definitivelyUnpaid X.payments quote)
      (fun unpaid s => unpaid = true → Unpaid X.payments s.history mint quote)
      (fun _ _ => True) s := by
  have hL := recordWallet_lasting X out J mint
  unfold definitivelyUnpaid
  refine Stage.safe_perform_bind hL (fun s₁ _ _ => Mute.needs (fun _ => rfl) s₁)
    (fun (time : ℕ) s₁ s₂ hs₁ _ he _ h₁₂ => ?_)
  have htime : time = s₁.clock := by
    obtain ⟨w, notes, hw, -⟩ := recordWallet_exec he
    exact hw.1.2
  have hclock : time ≤ s₂.clock := htime ▸ h₁₂.clock
  split
  · rename_i hlooks
    refine safe_cdk_notes (fun _ => rfl) (fun response s₃ s₄ hs₃ hw _ hs₄ => ?_)
    refine Stage.safe_pure (fun s₅ hs₅ _ hanswers => ?_)
    obtain ⟨w, notes, ⟨c', -, -, rfl, rfl⟩, rfl⟩ := hw
    cases response with
    | other => exact absurd hanswers (by simp [answersUnpaid])
    | bolt11 response =>
      refine ⟨hs₅.mem (hs₄.mem ((hs₁.trans h₁₂).mem hread)), response, s₃.clock,
        hs₅.mem (mem_setWallet (by simp [CdkOp.notes])), ?_⟩
      exact freshlyUnpaid_of_answers hlooks hanswers (hclock.trans hs₃.clock)
  · exact Stage.safe_pure (fun _ _ _ hno => absurd hno (by simp))

/-- A deposit that can be given up is received, or its quote is unpaid. -/
theorem safe_canPruneMintDeposit {deposit : Deposit} (hmint : deposit.mint = mint) :
    Stage.safe (recordWallet X out J mint) call (canPruneMintDeposit X.payments deposit.quote
        deposit.amount.toNat deposit.invoice)
      (fun prune s => prune = true → Evidence X.payments s.history deposit) (fun _ _ => True) s := by
  have hL := recordWallet_lasting X out J mint
  unfold canPruneMintDeposit
  refine safe_mute begin_mute (fun _ => ?_)
  refine Stage.safe_bind hL safe_hasMintTransaction (fun received s₁ _ _ hreceived => ?_)
    (fun _ _ _ _ _ => trivial)
  split
  · rename_i hyes
    refine Stage.safe_pure (fun s₂ hs₂ _ _ => .inl ?_)
    rw [hmint]
    exact (hreceived hyes).mono hs₂.history.subset
  · refine safe_cdk_notes (fun _ => rfl) (fun stored s₂ s₃ _ hw hi₃ _ => ?_)
    cases stored with
    | none => exact Stage.safe_pure (fun _ _ _ hno => absurd hno (by simp))
    | some quote =>
      show Stage.safe _ _ (if quote.request == deposit.invoice &&
        quote.amount == some deposit.amount.toNat then definitivelyUnpaid X.payments quote
        else pure false) _ _ _
      split
      · rename_i hterms
        obtain ⟨w, notes, ⟨c', -, hstored, rfl, rfl⟩, rfl⟩ := hw
        have hid : quote.id = deposit.quote := hi₃.keyed mint deposit.quote quote (by
          simpa [System.setWallet] using hstored.symm)
        rw [Bool.and_eq_true, beq_iff_eq, beq_iff_eq] at hterms
        refine Stage.safe_mono hL (safe_definitivelyUnpaid (mem_setWallet (by simp [CdkOp.notes])))
          (fun unpaid s₄ _ _ hunpaid hyes => .inr ⟨quote, ?_, hid, hterms⟩) (fun _ _ _ _ _ => trivial)
        rw [hmint]
        exact hunpaid hyes
      · exact Stage.safe_pure (fun _ _ _ hno => absurd hno (by simp))

/-- The quote of a retired association is removed. -/
theorem safe_removeRetiredMintQuote {key : String} {deposit : Deposit}
    (hretired : .retired key deposit ∈ s.history) :
    Stage.safe (recordWallet X out J deposit.mint) call (removeRetiredMintQuote deposit.quote)
      (fun _ s => .wallet deposit.mint (.removed deposit.quote) ∈ s.history) (fun _ _ => True) s := by
  have hL := recordWallet_lasting X out J deposit.mint
  unfold removeRetiredMintQuote
  refine safe_mute begin_mute (fun _ => ?_)
  refine safe_cdk hL (fun s₁ hs₁ _ e he => ?_) (fun _ s₁ s₂ _ _ he _ _ s₃ hs₃ _ => ?_)
  · obtain rfl := Option.some.inj he
    exact .inl ⟨key, deposit, hs₁.mem hretired, rfl, rfl⟩
  · obtain ⟨w, notes, ⟨c', -, -, rfl, rfl⟩, rfl⟩ := recordWallet_exec he
    exact hs₃.mem (mem_setWallet (by simp [CdkOp.notes]))

theorem safe_recoverQuote {associated : List String} {id : String} :
    Stage.safe (recordWallet X out J mint) call (recoverQuote X.payments associated id)
      (fun _ _ => True) (fun _ _ => True) s := by
  have hL := recordWallet_lasting X out J mint
  unfold recoverQuote
  refine safe_cdk_notes (fun _ => rfl) (fun quote s₁ s₂ _ hw _ _ => ?_)
  have hread : .wallet mint (.read quote) ∈ s₂.history := by
    obtain ⟨w, notes, ⟨c', -, -, rfl, rfl⟩, rfl⟩ := hw
    exact mem_setWallet (by simp [CdkOp.notes])
  refine Stage.safe_bind hL (R := fun unpaid s => unpaid = true →
      Unpaid X.payments s.history mint quote) (F := fun _ _ => True) ?_
    (fun unpaid s₃ _ _ hunpaid => ?_) (fun _ _ _ _ _ => trivial)
  · unfold abandoned
    split
    · exact Stage.safe_pure (fun _ _ _ hno => absurd hno (by simp))
    · exact safe_definitivelyUnpaid hread
  · split
    · rename_i hyes
      refine safe_cdk hL (fun s₄ hs₄ _ e he => ?_) (fun _ _ _ _ _ _ _ _ _ _ _ => trivial)
      obtain rfl := Option.some.inj he
      exact .inr ⟨quote, (hunpaid hyes).mono hs₄.history.subset, rfl⟩
    · exact Stage.safe_of_all (Prog.All.mono (mintPaid_mute quote quote.id) (fun _ ho s _ => ho.needs s))

/-- **A recovery pass gives up only quotes that are unpaid.** -/
theorem safe_recoverMintDeposits {associated : List String} :
    Stage.safe (recordWallet X out J mint) call (recoverMintDeposits X.payments associated)
      (fun _ _ => True) (fun _ _ => True) s := by
  have hL := recordWallet_lasting X out J mint
  have hquotes : ∀ (quotes : List MintQuote) (s : System κ),
      Stage.safe (recordWallet X out J mint) call (recoverQuotes X.payments associated quotes)
        (fun _ _ => True) (fun _ _ => True) s := by
    intro quotes
    induction quotes with
    | nil => exact fun s => Stage.safe_pure (fun _ _ _ => trivial)
    | cons quote rest ih =>
      intro s
      refine Stage.safe_quiet_bind hL (fun s₁ _ => Mute.needs (fun _ => rfl) s₁) (fun _ => ?_)
      refine Stage.safe_quiet_bind hL (fun s₁ _ => Mute.needs (fun _ => rfl) s₁) (fun _ => ?_)
      refine Stage.safe_bind hL (Stage.safe_attempt hL safe_recoverQuote) (fun result s₁ _ _ _ => ?_)
        (fun _ _ _ _ _ => trivial)
      refine safe_mute ?_ (fun _ => ih s₁)
      cases result with
      | error e => exact all_recover (fun _ => rfl) (fun _ => rfl) (fun _ => rfl)
      | ok u => exact all_session.mpr (fun _ => rfl)
  unfold recoverMintDeposits
  refine safe_mute begin_mute (fun _ => ?_)
  refine safe_cdk_notes (fun _ => rfl) (fun quotes s₁ s₂ _ _ _ _ => ?_)
  exact Stage.safe_quiet_bind hL (fun s₃ _ => Mute.needs (fun _ => rfl) s₃) (fun _ => hquotes _ _)

end

end Geata.Service
