import Geata.Service.Deposits

namespace Geata.Service

open Geata.Lib Geata.Lightning Geata.Payments

/-!
# From the end of an invoice to the removal of its quote

A quote of a mint is given up by the cleanup pass, after its association was retired, or by a recovery
pass, when no association names it.

* `Closed` — what is known before a quote is given up: no money is behind it.
* `dropped_of_gone` — a row that goes away is noted as it was.
* `quotes_removed_on_evidence` — a quote is given up on evidence only, and its association after it.
-/

variable {κ : Type} {X : Service.Crates κ} {out : Outside}

/-- No money is behind a quote: a deposit of its amount was listed for it, or the mint answered that it
    is unpaid, long after its end. -/
inductive Closed (X : Payments.Crates) (past : List (Happening κ)) (mint : String) (quote : MintQuote) :
    Prop where
  | received {amount : ℕ} (quoted : .wallet mint (.quoted quote) ∈ past)
      (amount_eq : quote.amount = some amount) (unit : quote.unit = .sat)
      (received : Received past mint quote.id amount quote.request)
  | unpaid (unpaid : Unpaid X past mint quote)

/-- A retired association is that of a quote without money. -/
theorem exists_closed_of_retired {past : List (Happening κ)}
    (hpast : Chronicle (Justified X out) past) {key : String} {deposit : Deposit}
    (hretired : .retired key deposit ∈ past) :
    ∃ quote, quote.id = deposit.quote ∧ Closed X.payments past deposit.mint quote := by
  obtain ⟨past₁, hs₁, hinserted, hevidence⟩ := hpast.mem hretired
  have hevidence := hevidence.mono (fun _ => mem_of_cons_suffix hs₁)
  rcases hevidence with hreceived | ⟨quote, hunpaid, hid, -⟩
  · obtain ⟨past₂, hs₂, quote, invoice, network, hassociates⟩ :=
      hpast.mem (mem_of_cons_suffix hs₁ hinserted)
    rw [hassociates.id, hassociates.request] at hreceived
    exact ⟨quote, hassociates.id.symm, .received (mem_of_cons_suffix hs₂ hassociates.quoted)
      hassociates.amount hassociates.unit hreceived⟩
  · exact ⟨quote, hid, .unpaid hunpaid⟩

/-- The operation removes none of the given quotes. -/
def Retains (associated : List String) (o : WalletOp) : Prop :=
  ∀ id ∈ associated, o ≠ .cdk (.removeMintQuote id)

theorem definitivelyUnpaid_retains (X : Payments.Crates) (associated : List String)
    (quote : MintQuote) : (definitivelyUnpaid X quote).All (Retains associated) := by
  unfold definitivelyUnpaid
  refine .bind (all_session.mpr (by simp [Retains])) (fun time => ?_)
  split
  · exact .bind (all_cdk.mpr (by simp [Retains])) (fun _ => Stage.all_pure _)
  · exact Stage.all_pure _

theorem recoverQuote_retains (X : Payments.Crates) (associated : List String) (id : String) :
    (recoverQuote X associated id).All (Retains associated) := by
  have hmint : ∀ quote, (mintPaid X quote quote.id).All (Retains associated) := by
    intro quote
    unfold mintPaid
    split
    · exact all_cdk.mpr (by simp [Retains])
    · exact Stage.all_pure _
  unfold recoverQuote abandoned
  refine .bind (all_cdk.mpr (by simp [Retains])) (fun quote => ?_)
  by_cases hmem : associated.contains quote.id = true
  · -- an associated quote is not abandoned
    rw [if_pos hmem, pure_bind]
    exact hmint quote
  · rw [if_neg hmem]
    refine .bind (definitivelyUnpaid_retains X associated quote) (fun unpaid => ?_)
    split
    · refine all_cdk.mpr (fun id hid heq => ?_)
      obtain rfl := CdkOp.removeMintQuote.inj (WalletOp.cdk.inj heq)
      exact hmem (List.contains_iff_mem.mpr hid)
    · exact hmint quote

/-- A recovery pass removes none of the quotes that are associated with an invoice. -/
theorem recoverMintDeposits_retains (X : Payments.Crates) (associated : List String) :
    (recoverMintDeposits X associated).All (Retains associated) := by
  have hsession : ∀ o, Retains associated (.session o) := fun o => by simp [Retains]
  have hrecover : Retains associated (.cdk .recoverIncompleteSagas) := by simp [Retains]
  have hquotes : ∀ quotes, (recoverQuotes X associated quotes).All (Retains associated) := by
    intro quotes
    induction quotes with
    | nil => exact Stage.all_pure _
    | cons quote rest ih =>
      unfold recoverQuotes
      refine .bind (all_session.mpr (hsession _)) (fun _ => .bind (all_session.mpr (hsession _))
        (fun _ => ?_))
      refine .bind (Stage.all_attempt.mpr (recoverQuote_retains X associated _)) (fun result => ?_)
      refine .bind ?_ (fun _ => ih)
      cases result with
      | error e => exact all_recover (hsession _) (hsession _) hrecover
      | ok u => exact all_session.mpr (hsession _)
  unfold recoverMintDeposits
  refine .bind (all_begin hsession hrecover) (fun _ => ?_)
  refine .bind (all_cdk.mpr (by simp [Retains])) (fun quotes => ?_)
  exact .bind (all_session.mpr (hsession _)) (fun _ => hquotes _)

/-- The only transaction that takes a row away removes it. -/
theorem eq_removeQuote_of_gone {s : System κ} {o : LightningOp κ} {key : String} {row : Deposit}
    (hdue : o.cleans = true → o.Due X.payments s.store.quotes s.clock)
    (hrow : s.store.quotes.lookup key = some row)
    (hgone : (s.commit o).store.quotes.lookup key = none) : o = .removeQuote key row := by
  cases hclean : o.cleans with
  | false =>
    rw [(adds_commit hclean).steady.rows key row hrow] at hgone
    exact absurd hgone (by simp)
  | true =>
    cases o
    case retireQuote key' deposit =>
      have hgone : (s.store.quotes.insert key' { deposit with retired := true }).lookup key = none := hgone
      rw [Table.lookup_insert_eq] at hgone
      split at hgone
      · exact absurd hgone (by simp)
      · rw [hrow] at hgone
        exact absurd hgone (by simp)
    case removeQuote key' deposit =>
      have hgone : (s.store.quotes.erase key').lookup key = none := hgone
      rw [Table.lookup_erase_eq] at hgone
      split at hgone
      · rename_i hkey
        subst hkey
        rw [Option.some.inj ((hdue rfl).1.symm.trans hrow)]
      · rw [hrow] at hgone
        exact absurd hgone (by simp)
    all_goals exact absurd hclean (by simp [LightningOp.cleans])

variable [DecidableEq κ]

/-- A row that goes away in a step is noted as it was. -/
theorem dropped_of_gone (hone : ¬ out.overtakes)
    {w w' : World (ServiceSig κ) (System κ) Request Answer} (h : World.Reachable (machine X out) w)
    (hs : World.Step (machine X out) w w') {key : String} {row : Deposit}
    (hrow : w.shared.store.quotes.lookup key = some row)
    (hgone : w'.shared.store.quotes.lookup key = none) :
    w'.shared.history = .dropped key row :: w.shared.history := by
  rcases writes_step hone h hs with hstore | ⟨o, hstore, hclean⟩
  · rw [hstore, hrow] at hgone
    exact absurd hgone (by simp)
  · rw [hstore] at hgone
    obtain rfl := eq_removeQuote_of_gone (X := X) (fun ho => (hclean ho).1) hrow hgone
    exact (hclean rfl).2

/-- **A quote is given up on evidence only.**  Before every removal of a mint's quote there is evidence
    that no money is behind it, and so there is for every association that is marked as retired; an
    association is dropped after it was retired and its quote removed, and it is the one that is there,
    when no cleanup pass begins before a late write of another; and a recovery pass removes no quote
    that was associated when it began. -/
theorem quotes_removed_on_evidence {w : World (ServiceSig κ) (System κ) Request Answer}
    (h : World.Reachable (machine X out) w) :
    (∀ mint id past, (.wallet mint (.removing id) :: past) <:+ w.shared.history →
      ∃ quote, quote.id = id ∧ Closed X.payments past mint quote) ∧
    (∀ key deposit, w.shared.store.quotes.lookup key = some deposit → deposit.retired = true →
      ∃ quote, quote.id = deposit.quote ∧ Closed X.payments w.shared.history deposit.mint quote) ∧
    (∀ key row past, (.dropped key row :: past) <:+ w.shared.history → ∃ deposit,
      row = { deposit with retired := true } ∧ .retired key deposit ∈ past ∧
        .wallet deposit.mint (.removed deposit.quote) ∈ past) ∧
    (¬ out.overtakes → ∀ w', World.Step (machine X out) w w' → ∀ key row,
      w.shared.store.quotes.lookup key = some row → w'.shared.store.quotes.lookup key = none →
        w'.shared.history = .dropped key row :: w.shared.history) ∧
    ∀ mint, (recoverMintDeposits X.payments (System.associated w.shared.store mint)).All
      (Retains (System.associated w.shared.store mint)) := by
  have hrec : Recorded X out w.shared := (records_sound h).inv
  refine ⟨fun mint id past hs => ?_, fun key deposit hrow hretired => ?_, fun key row past hs => ?_,
    fun hone w' hs key row => dropped_of_gone hone h hs,
    fun mint => recoverMintDeposits_retains X.payments _⟩
  · have hpast : Chronicle (Justified X out) past :=
      hrec.justified.suffix ((List.suffix_cons _ _).trans hs)
    rcases hrec.justified.justified hs with ⟨key, deposit, hretired, rfl, rfl⟩ | ⟨quote, hunpaid, hid⟩
    · exact exists_closed_of_retired hpast hretired
    · exact ⟨quote, hid, .unpaid hunpaid⟩
  · rcases hrec.quotes key deposit hrow with ⟨-, hfresh⟩ | ⟨d, hmem, rfl⟩
    · exact absurd hretired (by simp [hfresh])
    · exact (exists_closed_of_retired hrec.justified hmem :
        ∃ quote, quote.id = d.quote ∧ Closed X.payments w.shared.history d.mint quote)
  · exact hrec.justified.justified hs

/-- The service when the retention of the invoice has ended. -/
def testOver : System (List UInt8) := { testAdmitted with clock := 1700007260 }

/-- A recovery pass found nothing to issue, and the cleanup pass is at the association. -/
def testSweeping : System (List UInt8) :=
  { testOver.setWallet testMint testFundedWallet [] with
    cursorLock := some 2
    cursor := some testMintKey }

/-- The deposit was listed, and the association is retired. -/
def testRetired : System (List UInt8) :=
  (testSweeping.setWallet testMint testFundedWallet [.listed [testTransaction]]).commit
    (.retireQuote testMintKey testDeposit)

/-- The wallet without the quote. -/
def testClosedWallet : Wallet :=
  { testFundedWallet with
    cdk := { testFundedWallet.cdk with quotes := testFundedWallet.cdk.quotes.erase "quote" } }

/-- The quote is removed, and then the association. -/
def testRemoved : System (List UInt8) :=
  (testRetired.setWallet testMint testClosedWallet [.removed "quote", .removing "quote"]).commit
    (.removeQuote testMintKey { testDeposit with retired := true })

theorem alone_testRecovery : Stage.Alone (System.does testMintService testMints 2) testOver
    (recoverCashuDeposits testMintService) (.ok ()) testRemoved := by
  let makes := testMints.quotes testMint
  let w : Wallet := Wallet.entered testFundedWallet 2
  have hissued : w.exec makes 2 1700007260 true (.cdk .getUnissuedMintQuotes) (.ok []) w [] :=
    ⟨_, .refl _, ⟨fun _ => false, (List.filter_false _).symm⟩, rfl, rfl⟩
  have hpass : Stage.Alone (Wallet.does makes 2 1700007260) (testFundedWallet, [])
      (recoverMintDeposits testMintService.payments ["quote"]) (.ok ()) (w, []) := by
    unfold recoverMintDeposits
    refine .bind (alone_begin rfl) (.bind (alone_cdk hissued) ?_)
    refine .bind (a := none) (m := (w, [])) (alone_session.mpr ⟨⟨rfl, rfl⟩, rfl⟩) ?_
    exact Stage.alone_pure.mpr ⟨rfl, rfl⟩
  have hlisted : w.exec makes 2 1700007260 true (.cdk .listTransactions) (.ok [testTransaction]) w
      [.listed [testTransaction]] := ⟨_, .refl _, rfl, rfl, rfl⟩
  have hprune : Stage.Alone (Wallet.does makes 2 1700007260) (testFundedWallet, [])
      (canPruneMintDeposit testMintService.payments "quote" 25 testInvoiceText) (.ok true)
      (w, [.listed [testTransaction]]) := by
    have hreceived : Stage.Alone (Wallet.does makes 2 1700007260) (w, [])
        (hasMintTransaction "quote" 25 testInvoiceText) (.ok true) (w, [.listed [testTransaction]]) :=
      .bind (alone_cdk hlisted) (Stage.alone_pure.mpr ⟨by simp [deposits, testTransaction], rfl⟩)
    unfold canPruneMintDeposit
    exact .bind (alone_begin rfl) (.bind hreceived (Stage.alone_pure.mpr ⟨rfl, rfl⟩))
  have herased : w.exec makes 2 1700007260 true (.cdk (.removeMintQuote "quote")) (.ok ())
      { testClosedWallet with lock := some 2 } [.removed "quote", .removing "quote"] := by
    refine ⟨testClosedWallet.cdk, ⟨fun _ ht _ => ht, fun id q hq => ?_⟩, ?_, rfl, rfl⟩
    · rw [show testClosedWallet.cdk.quotes = testFundedWallet.cdk.quotes.erase "quote" from rfl,
        Table.lookup_erase_eq] at hq
      split at hq
      · exact absurd hq (by simp)
      · exact ⟨q, hq, rfl⟩
    · exact Table.lookup_erase_eq.trans (if_pos rfl)
  have hremove : Stage.Alone (Wallet.does makes 2 1700007260) (testFundedWallet, [])
      (removeRetiredMintQuote "quote") (.ok ())
      ({ testClosedWallet with lock := some 2 }, [.removed "quote", .removing "quote"]) := by
    unfold removeRetiredMintQuote
    exact .bind (alone_begin rfl) (alone_cdk herased)
  have hretire : Stage.Alone (System.does testMintService testMints 2) testSweeping
      (retireDeposit testMintService testMintKey testDeposit) (.ok true) testRetired := by
    unfold retireDeposit
    refine .bind (alone_attempt rfl hprune) ?_
    exact .bind (a := ()) (alone_perform.mpr (rfl : testRetired = _)) (Stage.alone_pure.mpr ⟨rfl, rfl⟩)
  have hdrop : Stage.Alone (System.does testMintService testMints 2) testRetired
      (removeDeposit testMintKey testDeposit) (.ok ()) testRemoved := by
    unfold removeDeposit
    refine .bind (alone_attempt rfl hremove) ?_
    exact alone_perform.mpr (rfl : testRemoved = _)
  have hparse : (context (Failure.message "invalid BOLT11 invoice")
      (testMintService.parseInvoice testDeposit.invoice)) = .ok testInvoice :=
    context_eq_ok.mpr testMintInvoice_valid.parsed
  unfold recoverCashuDeposits
  refine .bind (a := true) (alone_perform.mpr rfl) ?_
  refine .bind (a := [(testMint, ["quote"])]) (m := testOver) (alone_transact.mpr ⟨rfl, rfl⟩) ?_
  refine .bind (a := ()) (.bind (alone_attempt rfl hpass) (Stage.alone_pure.mpr ⟨rfl, rfl⟩)) ?_
  unfold pruneCashuDeposits
  refine .bind (a := none) (alone_perform.mpr ⟨rfl, .inr rfl, rfl, rfl⟩) ?_
  refine .bind (a := [(testMintKey, testDeposit)]) (alone_transact.mpr ⟨rfl, rfl⟩) ?_
  refine .bind (alone_perform.mpr ⟨rfl, rfl⟩) ?_
  show Stage.Alone _ _ (pruneDeposits testMintService 1700007260 [(testMintKey, testDeposit)]) _ _
  unfold pruneDeposits
  refine .bind (a := ()) (m := testRemoved) ?_ (Stage.alone_pure.mpr ⟨rfl, rfl⟩)
  unfold pruneDeposit
  refine .bind (a := ()) (alone_perform.mpr (rfl : testSweeping = _)) ?_
  refine .bind (Stage.alone_ofExcept.mpr ⟨hparse, rfl⟩) ?_
  rw [if_neg (by decide)]
  exact .bind hretire hdrop

/-- The quote of the admitted credential is removed when its invoice is over, after its deposit was
    seen, and then the retired association. -/
theorem quotes_removed_on_evidence_removed :
    ∃ w : World (ServiceSig (List UInt8)) (System (List UInt8)) Request Answer,
      World.Reachable (machine testMintService testMints) w ∧
      (.wallet testMint (.removing "quote") :: testRetired.history) <:+ w.shared.history ∧
      (∃ quote, quote.id = "quote" ∧
        Closed testMintService.payments testRetired.history testMint quote) ∧
      w.shared.store.quotes.lookup testMintKey = none ∧ ∃ deposit,
        ({ testDeposit with retired := true } : Deposit) = { deposit with retired := true } ∧
        .retired testMintKey deposit ∈ w.shared.history := by
  obtain ⟨w, h, hshared, hstarted, -⟩ := exists_testAdmitted
  have htick : World.Step (machine testMintService testMints) w
      { w with shared := { w.shared with clock := 1700007260 } } :=
    .env (.tick (by rw [hshared]; decide) (by decide))
  rw [hshared] at htick
  let w₁ : World (ServiceSig (List UInt8)) (System (List UInt8)) Request Answer :=
    { w with shared := testOver }
  have halone : Prog.Alone (System.does testMintService testMints w₁.started) w₁.shared
      (code testMintService .recoverCashuDeposits) (.done (.ok ())) testRemoved := by
    rw [show w₁.started = 2 from hstarted]
    exact Prog.alone_bind.mpr ⟨_, _, alone_testRecovery, .ret _ _⟩
  obtain ⟨w', hsteps, hshared', -, -⟩ :=
    World.steps_answer (M := machine testMintService testMints) (w := w₁)
      (q := .recoverCashuDeposits) rfl halone
  have hreach := h.steps (.head htick hsteps)
  have hend : w'.shared = testRemoved.release 2 := by
    rw [hshared', show w₁.started = 2 from hstarted]
    rfl
  have hdropped : (.dropped testMintKey { testDeposit with retired := true } ::
      .wallet testMint (.removed "quote") :: .wallet testMint (.removing "quote") ::
        testRetired.history) <:+ w'.shared.history := by
    rw [hend]
    exact List.suffix_refl _
  have hsuffix : (.wallet testMint (.removing "quote") :: testRetired.history) <:+
      w'.shared.history :=
    ((List.suffix_cons _ _).trans (List.suffix_cons _ _)).trans hdropped
  obtain ⟨hremoving, -, hdrop, -⟩ := quotes_removed_on_evidence hreach
  obtain ⟨deposit, hrow, hretired, -⟩ := hdrop _ _ _ hdropped
  refine ⟨w', hreach, hsuffix, hremoving testMint "quote" _ hsuffix, ?_, deposit, hrow, ?_⟩
  · rw [hend]
    rfl
  · exact mem_of_cons_suffix hdropped hretired

end Geata.Service
