import Geata.Payments.Recovery

namespace Geata.Payments

open Geata.Lib

/-!
# Every use of a wallet recovers first

The programs of `mod.rs`, `minting.rs` and `payout.rs` between taking a wallet's lock and giving it
back, with triples about the recovery flag and the history of CDK calls.

* `Using` — a call holds the wallet, with an assertion that nobody else can invalidate.
* `triple_recover` — after the recovery nothing is left to recover.
* `recovery` — the proof outline of the wallet's uses.
-/

variable {X : Crates} {makes : MintQuote → Prop} {call : ℕ} {s s' : UsedWallet}

/-! ### Holding the wallet -/

/-- The call holds the wallet's lock, and its flag and history are as `A` says. -/
def Using (call : ℕ) (A : Option Bool → List CdkCall → Prop) (s : UsedWallet) : Prop :=
  s.wallet.lock = some call ∧ A s.wallet.flag s.calls

variable {A B : Option Bool → List CdkCall → Prop} {ε α : Type}

theorem using_stable : (useLogic makes).Stable call (Using call A) := by
  intro s s' hs h
  obtain ⟨hl, hf, hc⟩ := hs h.1
  refine ⟨hl, ?_⟩
  rw [hf, hc]
  exact h.2

/-- Operations that leave the lock and the flag alone and move no value. -/
def WalletOp.steady : WalletOp → Bool
  | .session .needsRecovery | .session .depositCursor | .session (.setDepositCursor _)
  | .session .now | .session (.confirming _) | .ledger _ => true
  | .session _ => false
  | .cdk o => !o.movesValue

/-- Those that are no CDK calls either. -/
def WalletOp.still : WalletOp → Bool
  | .cdk _ => false
  | o => o.steady

theorem exec_steady {o : WalletOp} (ho : o.steady = true) {r : WalletSig.Res o}
    (he : (UsedWallet.effects makes).exec call s o r s') :
    s'.wallet.lock = s.wallet.lock ∧ s'.wallet.flag = s.wallet.flag ∧
      s'.calls = recordCall call s.calls o (some r) := by
  obtain ⟨hc, time, notes, hw⟩ := he
  cases o with
  | ledger o =>
    obtain ⟨hl, hf⟩ := Wallet.transact_use hw.1
    exact ⟨hl, hf, hc⟩
  | cdk o =>
    obtain ⟨hl, hf⟩ := Wallet.cdk_use hw
    exact ⟨hl, hf, hc⟩
  | session o =>
    have hw := hw.1
    cases o
    case needsRecovery => rw [hw.1]; exact ⟨rfl, rfl, hc⟩
    case depositCursor => rw [hw.1]; exact ⟨rfl, rfl, hc⟩
    case now => rw [hw.1]; exact ⟨rfl, rfl, hc⟩
    case confirming send => rw [(hw : s'.wallet = _)]; exact ⟨rfl, rfl, hc⟩
    case setDepositCursor id =>
      rw [(hw : s'.wallet = _)]
      refine ⟨rfl, ?_, hc⟩
      unfold Wallet.flag
      rw [Option.map_map]
      rfl
    all_goals exact absurd ho (by simp [WalletOp.steady])

theorem needs_steady {o : WalletOp} (ho : o.steady = true) (hl : s.wallet.lock = some call) :
    UseNeeds call o s := by
  unfold UseNeeds
  split
  · exact absurd ho (by simp [WalletOp.steady])
  · exact hl
  · refine ⟨hl, fun hm => ?_⟩
    simp only [WalletOp.steady, hm] at ho
    exact absurd ho (by simp)
  · trivial

/-- Steady operations keep what further calls do not change. -/
theorem triple_steady {t : Stage WalletSig ε α}
    (hA : ∀ flag calls c, c.op.movesValue = false → A flag calls → A flag (c :: calls))
    (ht : t.All (fun o : WalletOp => o.steady = true)) :
    Stage.Triple (useLogic makes) call (Using call A) t (fun _ => Using call A) := by
  refine Stage.triple_keep using_stable (Prog.All.mono ht (fun o ho s _ hs => ?_))
  refine ⟨needs_steady ho hs.1, fun r s' he => ?_⟩
  obtain ⟨hl, hf, hc⟩ := exec_steady ho he
  refine ⟨hl.trans hs.1, ?_⟩
  rw [hf, hc]
  cases o with
  | session o => exact hs.2
  | ledger o => exact hs.2
  | cdk o => exact hA _ _ _ (by simpa [WalletOp.steady] using ho) hs.2

theorem steady_of_still {o : WalletOp} (h : o.still = true) : o.steady = true := by
  cases o with
  | cdk o => exact absurd h (by simp [WalletOp.still])
  | session o => exact h
  | ledger o => exact h

/-- Still operations keep everything. -/
theorem triple_still {t : Stage WalletSig ε α}
    (ht : t.All (fun o : WalletOp => o.still = true)) :
    Stage.Triple (useLogic makes) call (Using call A) t (fun _ => Using call A) := by
  refine Stage.triple_keep using_stable (Prog.All.mono ht (fun o ho s _ hs => ?_))
  have hsteady := steady_of_still ho
  refine ⟨needs_steady hsteady hs.1, fun r s' he => ?_⟩
  obtain ⟨hl, hf, hc⟩ := exec_steady hsteady he
  refine ⟨hl.trans hs.1, ?_⟩
  rw [hf, hc]
  cases o with
  | cdk o => exact absurd ho (by simp [WalletOp.still])
  | session o => exact hs.2
  | ledger o => exact hs.2

/-- Setting the flag, or clearing it when nothing is left to recover. -/
theorem triple_setNeedsRecovery {value : Bool}
    (hA : ∀ flag calls, A flag calls → flag.isSome ∧ (value = false → Settled calls))
    (hB : ∀ flag calls, A flag calls → B (some value) calls) :
    Stage.Triple (useLogic makes) call (Using call A)
      (session (.setNeedsRecovery value) : Stage WalletSig ε Unit) (fun _ => Using call B) := by
  refine Stage.triple_perform using_stable (fun s _ hs => ⟨hs.1, (hA _ _ hs.2).2⟩)
    (fun _ s s' _ hs he _ => ?_)
  obtain ⟨hc, time, notes, hw, -⟩ := he
  have hw : s'.wallet = { s.wallet with
    memory := s.wallet.memory.map (fun m => { m with needsRecovery := value }) } := hw
  obtain ⟨hl, ha⟩ := hs
  refine ⟨by rw [hw]; exact hl, ?_⟩
  have hflag : s'.wallet.flag = some value := by
    have hopen := (hA _ _ ha).1
    rw [hw]
    unfold Wallet.flag at hopen ⊢
    cases hm : s.wallet.memory with
    | none => rw [hm] at hopen; exact absurd hopen (by simp)
    | some m => rfl
  rw [hflag, hc]
  exact hB _ _ ha

/-- A CDK call that the history allows. -/
theorem triple_call {f : CdkError → ε} {o : CdkOp} {R : o.Answer → Option Bool → List CdkCall → Prop}
    (hstart : ∀ flag calls, A flag calls → o.movesValue = true →
      flag = some true ∧ MayStart call calls o)
    (hR : ∀ a flag calls, A flag calls → R a flag (⟨call, o, some (.ok a)⟩ :: calls)) :
    Stage.Triple (useLogic makes) call (Using call A) (cdk f o) (fun a => Using call (R a)) := by
  refine triple_cdk using_stable (fun s _ hs => ⟨hs.1, hstart _ _ hs.2⟩) (fun a s s' _ hs he _ => ?_)
  obtain ⟨hc, time, notes, hw⟩ := he
  obtain ⟨hl, hf⟩ := Wallet.cdk_use hw
  refine ⟨hl.trans hs.1, ?_⟩
  rw [hf, hc]
  exact hR a _ _ hs.2

/-! ### The programs -/

/-- The wallet is open. -/
def Opened (flag : Option Bool) (_ : List CdkCall) : Prop := flag.isSome = true

/-- The wallet is open and nothing is left to recover. -/
def Clean (flag : Option Bool) (calls : List CdkCall) : Prop := flag.isSome = true ∧ Settled calls

/-- The flag is set before anything was interrupted. -/
def Armed (flag : Option Bool) (calls : List CdkCall) : Prop := flag = some true ∧ Settled calls

/-- `call` has just prepared a send. -/
def Prepared (call : ℕ) (send : PreparedPayRequest) (flag : Option Bool)
    (calls : List CdkCall) : Prop :=
  flag = some true ∧ ∃ request amount rest,
    calls = ⟨call, .preparePayRequest request amount, some (.ok send)⟩ :: rest ∧ Settled rest

theorem Clean.cons {flag : Option Bool} {calls : List CdkCall} {c : CdkCall}
    (hm : c.op.movesValue = false) (h : Clean flag calls) : Clean flag (c :: calls) :=
  ⟨h.1, h.2.cons (fun ht => absurd ht (by rw [hm]; simp))⟩

theorem Armed.cons {flag : Option Bool} {calls : List CdkCall} {c : CdkCall}
    (hm : c.op.movesValue = false) (h : Armed flag calls) : Armed flag (c :: calls) :=
  ⟨h.1, h.2.cons (fun ht => absurd ht (by rw [hm]; simp))⟩

/-- Steady stages between two uses of the flag. -/
theorem triple_clean {t : Stage WalletSig ε α}
    (ht : t.All (fun o : WalletOp => o.steady = true)) :
    Stage.Triple (useLogic makes) call (Using call Clean) t (fun _ => Using call Clean) :=
  triple_steady (fun _ _ _ hm h => h.cons hm) ht

theorem triple_armed {t : Stage WalletSig ε α}
    (ht : t.All (fun o : WalletOp => o.steady = true)) :
    Stage.Triple (useLogic makes) call (Using call Armed) t (fun _ => Using call Armed) :=
  triple_steady (fun _ _ _ hm h => h.cons hm) ht

theorem triple_arm :
    Stage.Triple (useLogic makes) call (Using call Clean)
      (session (.setNeedsRecovery true) : Stage WalletSig ε Unit) (fun _ => Using call Armed) :=
  triple_setNeedsRecovery (fun _ _ h => ⟨h.1, fun hf => absurd hf (by simp)⟩)
    (fun _ _ h => ⟨rfl, h.2⟩)

theorem triple_disarm :
    Stage.Triple (useLogic makes) call (Using call Armed)
      (session (.setNeedsRecovery false) : Stage WalletSig ε Unit) (fun _ => Using call Clean) :=
  triple_setNeedsRecovery (fun _ _ h => ⟨by rw [h.1]; rfl, fun _ => h.2⟩) (fun _ _ h => ⟨rfl, h.2⟩)

/-- A value-moving call other than `confirm` that runs to success. -/
theorem triple_move {f : CdkError → ε} {o : CdkOp} (hstart : ∀ calls, Settled calls → MayStart call calls o)
    (hdone : ∀ a : o.Answer, CdkCall.completed [] ⟨call, o, some (.ok a)⟩ = true) :
    Stage.Triple (useLogic makes) call (Using call Armed) (cdk f o)
      (fun _ => Using call Armed) := by
  refine triple_call (fun _ calls h _ => ⟨h.1, hstart calls h.2⟩) (fun a _ calls h => ⟨h.1, ?_⟩)
  refine h.2.cons (fun _ => ?_)
  show (_ || _) = true
  rw [hdone a, Bool.true_or]

theorem triple_tryLock_bind {f : Bool → Stage WalletSig ε α} {Q : α → UsedWallet → Prop}
    (hlocked : Stage.Triple (useLogic makes) call (Using call (fun _ _ => True)) (f true) Q)
    (hbusy : Stage.Triple (useLogic makes) call (fun _ => True) (f false) Q) :
    Stage.Triple (useLogic makes) call (fun _ => True) (session .tryLock >>= f) Q := by
  refine Stage.triple_perform_bind
    (R := fun (locked : Bool) s => locked = true → Using call (fun _ _ => True) s)
    (fun _ _ _ _ => trivial) (fun _ _ _ => trivial) ?_ (fun locked => ?_)
  · rintro locked s s' _ _ ⟨hc, time, notes, hw, -⟩ _ rfl
    rcases hw with ⟨-, -, -, hw⟩ | ⟨hfalse, -⟩
    · exact ⟨by rw [hw], trivial⟩
    · exact absurd hfalse (by simp)
  · cases locked with
    | true => exact Stage.triple_mono hlocked (fun s _ hs => hs rfl) (fun _ _ h => h)
    | false => exact Stage.triple_mono hbusy (fun _ _ _ => trivial) (fun _ _ h => h)

theorem triple_open_bind {e : ε} {f : Unit → Stage WalletSig ε α} {Q : α → UsedWallet → Prop}
    (hf : Stage.Triple (useLogic makes) call (Using call Opened) (f ()) Q) :
    Stage.Triple (useLogic makes) call (Using call (fun _ _ => True))
      (session .open >>= fun opened => Stage.stopIf (!opened) e >>= f) Q := by
  refine Stage.triple_perform_bind
    (R := fun (opened : Bool) s => opened = true → Using call Opened s)
    using_stable (fun s _ hs => hs.1) ?_ (fun opened => Stage.triple_stopIf_bind (fun hopened => ?_))
  · rintro opened s s' _ hs ⟨hc, time, notes, hw, -⟩ _ rfl
    rcases hw with ⟨-, hw⟩ | ⟨hfalse, -⟩
    · rw [Using, hw]
      exact ⟨hs.1, rfl⟩
    · exact absurd hfalse (by simp)
  · have hopened : opened = true := by simpa using hopened
    exact Stage.triple_mono hf (fun s _ hs => hs hopened) (fun _ _ h => h)

theorem triple_enter {busy broken : ε} :
    Stage.Triple (useLogic makes) call (fun _ => True) (enter busy broken)
      (fun _ => Using call Opened) := by
  unfold enter
  refine triple_tryLock_bind ?_ (Stage.triple_stopIf_bind (fun h => absurd h (by simp)))
  refine Stage.triple_stopIf_bind (fun _ => ?_)
  have hopen : Stage.Triple (useLogic makes) call (Using call (fun _ _ => True))
      (session .open >>= fun opened => Stage.stopIf (!opened) broken >>= pure)
      (fun _ => Using call Opened) :=
    triple_open_bind (Stage.triple_pure (fun _ _ h => h))
  simpa only [bind_pure] using hopen

/-- Reading the flag: if it is cleared, nothing is left to recover. -/
theorem triple_needsRecovery :
    Stage.Triple (useLogic makes) call (Using call Opened)
      (session .needsRecovery : Stage WalletSig ε Bool)
      (fun due => Using call (fun flag calls => flag.isSome = true ∧ (due = false → Settled calls))) := by
  refine Stage.triple_perform using_stable (fun _ _ _ => trivial) (fun due s s' hi hs he _ => ?_)
  obtain ⟨hc, time, notes, ⟨hw, hdue⟩, -⟩ := he
  obtain ⟨hl, hopen⟩ := hs
  rw [Using, hw, hc]
  refine ⟨hl, hopen, fun hfalse => hi.settled ?_⟩
  unfold Opened Wallet.flag at hopen
  unfold Wallet.flag
  cases hm : s.wallet.memory with
  | none => rw [hm] at hopen; exact absurd hopen (by simp)
  | some m =>
    rw [hm] at hdue
    rw [Option.map_some, ← hfalse, hdue]
    rfl

/-- **The recovery.**  Afterwards nothing is left to recover. -/
theorem triple_recover {f : PaymentError → ε} :
    Stage.Triple (useLogic makes) call (Using call Opened) (recover f)
      (fun _ => Using call Clean) := by
  unfold recover
  refine Stage.triple_bind triple_needsRecovery (fun due => ?_)
  cases due with
  | false => exact Stage.triple_pure (fun _ _ h => ⟨h.1, h.2.1, h.2.2 rfl⟩)
  | true =>
    refine Stage.triple_bind (R := fun report => Using call (fun flag calls => flag.isSome = true ∧
        ((report.failed != 0 || report.skipped != 0) = false → Settled calls)))
      (triple_call (fun _ _ _ hm => absurd hm (by simp [CdkOp.movesValue]))
        (fun report _ calls h => ⟨h.1, fun hreport => ?_⟩)) (fun report => ?_)
    · refine settled_of_recovers ?_ rfl calls
      simpa [CdkCall.recovers] using hreport
    · refine Stage.triple_stopIf_bind (fun hreport => ?_)
      exact triple_setNeedsRecovery (fun _ _ h => ⟨h.1, fun _ => h.2 hreport⟩)
        (fun _ _ h => ⟨rfl, h.2 hreport⟩)

theorem triple_begin :
    Stage.Triple (useLogic makes) call (fun _ => True) begin (fun _ => Using call Clean) :=
  Stage.triple_bind triple_enter (fun _ => triple_recover)

/-! #### Tokens -/

theorem triple_redeem {id : String} {price : UInt32} {proofs : List Proof} {encoded : String} :
    Stage.Triple (useLogic makes) call (Using call Clean) (redeem id price proofs encoded)
      (fun _ => Using call Clean) := by
  unfold redeem claim
  refine Stage.triple_bind triple_arm (fun _ => ?_)
  refine Stage.triple_bind (triple_move (fun _ h => h) (fun _ => rfl)) (fun received => ?_)
  refine Stage.triple_stopIf_bind (fun _ => Stage.triple_bind triple_disarm (fun _ => ?_))
  exact triple_clean (.bind (all_ledger.mpr rfl) (fun _ => Stage.all_stopIf _ _))

theorem triple_grant {id : String} {price : UInt32} {proofs : List Proof} {encoded : String}
    (reservation : Reservation) :
    Stage.Triple (useLogic makes) call (Using call Clean) (grant id price proofs encoded reservation)
      (fun _ => Using call Clean) := by
  cases reservation with
  | claimed => exact Stage.triple_throw
  | mismatch => exact Stage.triple_throw
  | new => exact triple_redeem
  | pending =>
    refine Stage.triple_bind (triple_clean (all_cdk.mpr rfl)) (fun transactions => ?_)
    split
    · exact triple_clean (.bind (all_ledger.mpr rfl) (fun _ => Stage.all_stopIf _ _))
    · exact triple_redeem

theorem triple_collectInner {site : String} {policy : PaymentPolicy} {encoded : String} :
    Stage.Triple (useLogic makes) call (fun _ => True) (collectInner X site policy encoded)
      (fun _ => Using call Clean) := by
  unfold collectInner
  refine Stage.triple_ofExcept_bind (fun token _ => ?_)
  refine Stage.triple_bind triple_enter (fun _ => Stage.triple_bind triple_recover (fun _ => ?_))
  refine Stage.triple_bind (triple_clean (all_cdk.mpr rfl)) (fun _ => ?_)
  refine Stage.triple_bind (triple_clean (all_cdk.mpr rfl)) (fun keysets => ?_)
  refine Stage.triple_ofExcept_bind (fun proofs _ => ?_)
  refine Stage.triple_bind (triple_clean (all_cdk.mpr rfl)) (fun fees => ?_)
  refine Stage.triple_ofExcept_bind (fun _ _ => ?_)
  exact Stage.triple_bind (triple_clean (all_ledger.mpr rfl)) (fun reservation => triple_grant reservation)

/-! #### Mint deposits -/

theorem steady_hasMintTransaction {id : String} {amount : ℕ} {invoice : String} :
    (hasMintTransaction id amount invoice).All (fun o : WalletOp => o.steady = true) :=
  .bind (all_cdk.mpr rfl) (fun _ => Stage.all_pure _)

theorem steady_definitivelyUnpaid {quote : MintQuote} :
    (definitivelyUnpaid X quote).All (fun o : WalletOp => o.steady = true) := by
  unfold definitivelyUnpaid
  refine .bind (all_session.mpr rfl) (fun time => ?_)
  split
  · exact .bind (all_cdk.mpr rfl) (fun _ => Stage.all_pure _)
  · exact Stage.all_pure _

theorem triple_mintInvoice {amount : ℕ} :
    Stage.Triple (useLogic makes) call (fun _ => True) (mintInvoice amount)
      (fun _ => Using call Clean) := by
  unfold mintInvoice
  refine Stage.triple_bind triple_begin (fun _ => triple_clean ?_)
  refine .bind (all_cdk.mpr rfl) (fun quotes => ?_)
  exact .bind (Stage.all_stopIf _ _) (fun _ => all_cdk.mpr rfl)

theorem triple_mintPaid {quote : MintQuote} {id : String} :
    Stage.Triple (useLogic makes) call (Using call Armed) (mintPaid X quote id)
      (fun _ => Using call Armed) := by
  unfold mintPaid
  split
  · exact triple_move (fun _ h => h) (fun _ => rfl)
  · exact Stage.triple_pure (fun _ _ h => h)

theorem triple_issue {id : String} {amount : ℕ} {invoice : String} :
    Stage.Triple (useLogic makes) call (Using call Clean) (issue X id amount invoice)
      (fun _ => Using call Clean) := by
  unfold issue
  refine Stage.triple_bind triple_arm (fun _ => ?_)
  refine Stage.triple_bind (triple_armed (all_cdk.mpr rfl)) (fun quote => ?_)
  refine Stage.triple_bind triple_mintPaid (fun _ => ?_)
  refine Stage.triple_bind (triple_armed steady_hasMintTransaction) (fun received => ?_)
  exact Stage.triple_stopIf_bind (fun _ => triple_disarm)

theorem triple_collectMintInvoice {id : String} {amount : ℕ} {invoice : String} :
    Stage.Triple (useLogic makes) call (fun _ => True) (collectMintInvoice X id amount invoice)
      (fun _ => Using call Clean) := by
  unfold collectMintInvoice
  refine Stage.triple_bind triple_begin (fun _ => ?_)
  refine Stage.triple_bind (triple_clean steady_hasMintTransaction) (fun received => ?_)
  split
  · exact Stage.triple_pure (fun _ _ h => h)
  · refine Stage.triple_bind (triple_clean (all_cdk.mpr rfl)) (fun stored => ?_)
    refine Stage.triple_ofExcept_bind (fun quote _ => ?_)
    exact Stage.triple_stopIf_bind (fun _ => triple_issue)

theorem triple_canPruneMintDeposit {id : String} {amount : ℕ} {invoice : String} :
    Stage.Triple (useLogic makes) call (fun _ => True) (canPruneMintDeposit X id amount invoice)
      (fun _ => Using call Clean) := by
  unfold canPruneMintDeposit
  refine Stage.triple_bind triple_begin (fun _ => ?_)
  refine Stage.triple_bind (triple_clean steady_hasMintTransaction) (fun received => ?_)
  split
  · exact Stage.triple_pure (fun _ _ h => h)
  · refine triple_clean (.bind (all_cdk.mpr rfl) (fun stored => ?_))
    unfold canPruneQuote
    split
    · exact Stage.all_pure _
    · split
      · exact steady_definitivelyUnpaid
      · exact Stage.all_pure _

theorem triple_removeRetiredMintQuote {id : String} :
    Stage.Triple (useLogic makes) call (fun _ => True) (removeRetiredMintQuote id)
      (fun _ => Using call Clean) :=
  Stage.triple_bind triple_begin (fun _ => triple_clean (all_cdk.mpr rfl))

theorem triple_recoverQuote {associated : List String} {id : String} :
    Stage.Triple (useLogic makes) call (Using call Armed) (recoverQuote X associated id)
      (fun _ => Using call Armed) := by
  unfold recoverQuote
  refine Stage.triple_bind (triple_armed (all_cdk.mpr rfl)) (fun quote => ?_)
  refine Stage.triple_bind (triple_armed ?_) (fun unpaid => ?_)
  · unfold abandoned
    split
    · exact Stage.all_pure _
    · exact steady_definitivelyUnpaid
  · split
    · exact triple_armed (all_cdk.mpr rfl)
    · exact triple_mintPaid

/-- Nothing that is done with one quote gives the wallet up. -/
theorem recoverQuote_keeps {associated : List String} {id : String} :
    (recoverQuote X associated id).All (fun o : WalletOp => ∀ s r s', Using call Opened s →
      (UsedWallet.effects makes).exec call s o r s' → Using call Opened s') := by
  have hcdk : ∀ (o : CdkOp) s r s', Using call Opened s →
      (UsedWallet.effects makes).exec call s (.cdk o) r s' → Using call Opened s' := by
    rintro o s r s' ⟨hl, hf⟩ ⟨hc, time, notes, hw⟩
    obtain ⟨hl', hf'⟩ := Wallet.cdk_use hw
    refine ⟨hl'.trans hl, ?_⟩
    rw [hf']
    exact hf
  have hnow : ∀ s r s', Using call Opened s →
      (UsedWallet.effects makes).exec call s (.session .now) r s' → Using call Opened s' := by
    rintro s r s' ⟨hl, hf⟩ ⟨hc, time, notes, ⟨hw, -⟩, -⟩
    rw [Using, hw]
    exact ⟨hl, hf⟩
  unfold recoverQuote abandoned definitivelyUnpaid mintPaid
  refine .bind (all_cdk.mpr (hcdk _)) (fun quote => .bind ?_ (fun unpaid => ?_))
  · split
    · exact Stage.all_pure _
    · refine .bind (all_session.mpr hnow) (fun time => ?_)
      split
      · exact .bind (all_cdk.mpr (hcdk _)) (fun _ => Stage.all_pure _)
      · exact Stage.all_pure _
  · split
    · exact all_cdk.mpr (hcdk _)
    · split
      · exact all_cdk.mpr (hcdk _)
      · exact Stage.all_pure _

/-- The loop: each quote starts from a recovered wallet, whatever became of the one before. -/
theorem triple_recoverQuotes {associated : List String} (quotes : List MintQuote) :
    Stage.Triple (useLogic makes) call (Using call Clean) (recoverQuotes X associated quotes)
      (fun _ => Using call Clean) := by
  induction quotes with
  | nil => exact Stage.triple_pure (fun _ _ h => h)
  | cons quote rest ih =>
    unfold recoverQuotes
    refine Stage.triple_bind (triple_clean (all_session.mpr rfl)) (fun _ => ?_)
    refine Stage.triple_bind triple_arm (fun _ => ?_)
    refine Stage.triple_recover_bind using_stable recoverQuote_keeps (fun s hs => ?_)
      triple_recoverQuote (fun _ => ?_) (fun _ => ?_)
    · exact ⟨hs.1, by rw [hs.2.1]; rfl⟩
    · exact Stage.triple_bind triple_disarm (fun _ => ih)
    · exact Stage.triple_bind triple_recover (fun _ => ih)

theorem triple_recoverMintDeposits {associated : List String} :
    Stage.Triple (useLogic makes) call (fun _ => True) (recoverMintDeposits X associated)
      (fun _ => Using call Clean) := by
  unfold recoverMintDeposits
  refine Stage.triple_bind triple_begin (fun _ => ?_)
  refine Stage.triple_bind (triple_clean (all_cdk.mpr rfl)) (fun quotes => ?_)
  exact Stage.triple_bind (triple_clean (all_session.mpr rfl)) (fun cursor => triple_recoverQuotes _)

/-! #### Payouts -/

theorem triple_abandonSend {send : PreparedPayRequest} {Q : Unit → UsedWallet → Prop} :
    Stage.Triple (useLogic makes) call (Using call (Prepared call send)) (abandonSend send) Q := by
  unfold abandonSend
  refine Stage.triple_bind (R := fun _ => Using call Armed)
    (triple_call (fun _ _ _ hm => absurd hm (by simp [CdkOp.movesValue])) ?_) (fun _ => ?_)
  · rintro _ flag calls ⟨hflag, request, amount, rest, rfl, hrest⟩
    exact ⟨hflag, hrest.closed (by simp [CdkCall.closes]) rfl⟩
  · exact Stage.triple_bind triple_disarm (fun _ => Stage.triple_throw)

theorem triple_journalSend {send : PreparedPayRequest} {state : PayoutState} :
    Stage.Triple (useLogic makes) call (Using call (Prepared call send)) (journalSend send state)
      (fun _ => Using call (Prepared call send)) := by
  unfold journalSend
  refine Stage.triple_recover_bind using_stable (all_ledger.mpr (fun s r s' hs he => ?_))
    (fun _ hs => hs) (triple_still (all_ledger.mpr rfl)) (fun _ => Stage.triple_pure (fun _ _ h => h))
    (fun e => ?_)
  · obtain ⟨hl, hf, hc⟩ := exec_steady (o := .ledger (.savePayout state)) rfl he
    refine ⟨hl.trans hs.1, ?_⟩
    rw [hf, hc]
    exact hs.2
  · -- the send is cancelled, if possible, and left to the next recovery
    refine Stage.triple_bind (R := fun _ _ => True) ?_ (fun _ => Stage.triple_throw)
    exact Stage.triple_attempt_bind (R := fun _ _ => True)
      (Stage.triple_mono (triple_call (R := fun _ _ _ => True)
        (fun _ _ _ hm => absurd hm (by simp [CdkOp.movesValue])) (fun _ _ _ _ => trivial))
        (fun _ _ h => h) (fun _ _ _ => trivial))
      (fun _ => Stage.triple_pure (fun _ _ _ => trivial))
      (fun _ => Stage.triple_pure (fun _ _ _ => trivial))

theorem triple_confirmSend {send : PreparedPayRequest} {state : PayoutState} :
    Stage.Triple (useLogic makes) call (Using call (Prepared call send)) (confirmSend X send state)
      (fun _ => Using call Clean) := by
  unfold confirmSend
  refine Stage.triple_bind (triple_still (all_session.mpr rfl)) (fun _ => ?_)
  refine Stage.triple_bind (R := fun _ => Using call Armed) (triple_call ?_ ?_) (fun _ => ?_)
  · rintro flag calls ⟨hflag, request, amount, rest, hcalls, hrest⟩ -
    exact ⟨hflag, request, amount, send, rest, hcalls, rfl, hrest⟩
  · rintro _ flag calls ⟨hflag, request, amount, rest, rfl, hrest⟩
    exact ⟨hflag, hrest.closed (by simp [CdkCall.closes]) rfl⟩
  refine Stage.triple_bind (triple_armed (all_session.mpr rfl)) (fun time => ?_)
  exact Stage.triple_bind (triple_armed (all_ledger.mpr rfl)) (fun _ => triple_disarm)

theorem triple_sendRequest {request : PaymentRequest} {amount maxTotal : UInt64}
    {state : PayoutState} :
    Stage.Triple (useLogic makes) call (Using call Clean)
      (sendRequest X request amount maxTotal state) (fun _ => Using call Clean) := by
  unfold sendRequest
  refine Stage.triple_bind triple_arm (fun _ => ?_)
  refine Stage.triple_bind (R := fun send => Using call (Prepared call send))
    (triple_call (fun _ _ h _ => h) (fun send flag calls h => ?_)) (fun send => ?_)
  · exact ⟨h.1, request, amount.toNat, calls, rfl, h.2⟩
  split
  · exact triple_abandonSend
  · exact Stage.triple_bind triple_journalSend (fun _ => triple_confirmSend)

theorem triple_payoutOpen {policy : PayoutPolicy} :
    Stage.Triple (useLogic makes) call (Using call Opened) (payoutOpen X policy)
      (fun _ => Using call Opened) := by
  unfold payoutOpen payDue
  have hclean : ∀ s, Using call Clean s → Using call Opened s := fun s hs => ⟨hs.1, hs.2.1⟩
  refine Stage.triple_bind (triple_still (all_session.mpr rfl)) (fun now => ?_)
  refine Stage.triple_bind (triple_still ?_) (fun state => ?_)
  · unfold payoutState
    refine .bind (all_ledger.mpr rfl) (fun stored => ?_)
    cases stored with
    | some state => exact Stage.all_pure _
    | none => exact .bind (all_ledger.mpr rfl) (fun _ => Stage.all_pure _)
  split
  · exact Stage.triple_pure (fun _ _ h => h)
  · refine Stage.triple_bind triple_recover (fun _ => ?_)
    refine Stage.triple_bind (triple_clean (all_cdk.mpr rfl)) (fun balance => ?_)
    split
    · refine Stage.triple_bind (triple_clean (all_ledger.mpr rfl)) (fun _ => ?_)
      exact Stage.triple_mono triple_sendRequest (fun _ _ h => h) (fun _ => hclean)
    · exact Stage.triple_pure (fun s _ h => hclean s h)

theorem triple_automaticPayout {policy : PayoutPolicy} :
    Stage.Triple (useLogic makes) call (fun _ => True) (automaticPayout X policy)
      (fun _ _ => True) := by
  unfold automaticPayout
  refine triple_tryLock_bind ?_ (Stage.triple_pure (fun _ _ _ => trivial))
  refine triple_open_bind ?_
  exact Stage.triple_mono triple_payoutOpen (fun _ _ h => h) (fun _ _ _ => trivial)

/-! ### The outline -/

theorem wp_finished {ε α : Type} {body : Stage WalletSig ε α} {Q : α → UsedWallet → Prop}
    (h : Stage.Triple (useLogic makes) call (fun _ => True) body Q) (hi : Recovered s) :
    (useLogic makes).wp call (WalletUse.code.finished body) (fun _ _ => True) s := by
  refine (Logic.wp_bind _ _ _ s).mpr ((Logic.wp_bind _ _ _ s).mpr ?_)
  refine Logic.wp_mono (h s hi trivial) (fun r s' _ s₁ _ _ => ?_)
  exact ⟨trivial, fun _ _ _ _ => trivial⟩

theorem wp_code (use : WalletUse) (hi : Recovered s) :
    (useLogic makes).wp call (use.code X) (fun _ _ => True) s := by
  cases use with
  | collect site policy token => exact wp_finished triple_collectInner hi
  | mintInvoice amount => exact wp_finished triple_mintInvoice hi
  | collectMintInvoice id amount invoice => exact wp_finished triple_collectMintInvoice hi
  | canPruneMintDeposit id amount invoice => exact wp_finished triple_canPruneMintDeposit hi
  | removeRetiredMintQuote id => exact wp_finished triple_removeRetiredMintQuote hi
  | recoverMintDeposits associated => exact wp_finished triple_recoverMintDeposits hi
  | automaticPayout policy => exact wp_finished triple_automaticPayout hi

/-- The flag is kept true to the history by every use of the wallet. -/
def recovery (X : Crates) (makes : MintQuote → Prop) : Outline (walletUses X makes) where
  Inv := Recovered
  Rely := UseRely
  Needs := UseNeeds
  Hist _ _ := True
  Post _ _ _ _ := True
  rely_refl _ _ h := ⟨h, rfl, rfl⟩
  rely_trans _ _ _ _ h h' := h.trans h'
  rely_hist _ _ _ _ := trivial
  hist_trans _ _ _ _ _ := trivial
  post_hist _ _ _ _ _ _ _ := trivial
  init s h := by
    obtain ⟨hm, -, hc⟩ := h
    refine ⟨fun _ => by rw [hc]; exact settled_nil, ?_⟩
    rw [hc]
    intro after c before heq
    exact absurd heq (by simp)
  start _ _ use hi _ := wp_code use hi
  exec _ _ _ _ _ hi hn he := hi.exec hn he
  cut _ _ _ _ hi hn hc := hi.cut hn hc
  env _ _ hi he := hi.env he
  release call _ hi := hi.release call
  crash _ _ hi hc := ⟨hi.crash hc, trivial⟩

/-- **Interrupted wallet calls are recovered first.**  In every state of every run, a cleared flag
    means that every value-moving call so far is resolved, and no such call was started before
    the earlier ones were. -/
theorem interrupted_calls_recovered_first {w : World WalletSig UsedWallet WalletUse Unit}
    (h : World.Reachable (walletUses X makes) w) :
    (∀ m, w.shared.wallet.memory = some m → m.needsRecovery = false → Settled w.shared.calls) ∧
      ∀ after c before, w.shared.calls = after ++ c :: before → c.op.movesValue = true →
        MayStart c.caller before c.op := by
  have hinv : Recovered w.shared := ((recovery X makes).sound h).inv
  refine ⟨fun m hm hflag => hinv.settled ?_, hinv.orderly⟩
  unfold Wallet.flag
  rw [hm, Option.map_some, hflag]

/-- Crates that recognise nothing; a quote allows what is paid and not issued. -/
def testPayments : Crates where
  sha256 b := b
  parseInvoice _ := none
  checkSignature _ := false
  base64Encode _ := ""
  base64Decode _ := none
  parsePayment _ := none
  parseToken _ := none
  proofs _ _ := none
  amountMintable quote := quote.amountPaid - quote.amountIssued
  parseMint _ := none
  parseRequest _ := none
  httpTarget _ := false
  operationText _ := ""
  parseOperation _ := none

/-- On an empty wallet with an invoice being collected, whatever follows. -/
theorem interrupted_calls_recovered_collecting :
    ∃ w : World WalletSig UsedWallet WalletUse Unit,
      w.requests 0 = some (.collectMintInvoice "quote" 5 "lnbc") ∧
      ∀ w', World.Steps (walletUses testPayments (fun _ => True)) w w' →
        (∀ m, w'.shared.wallet.memory = some m → m.needsRecovery = false →
          Settled w'.shared.calls) ∧
        ∀ after c before, w'.shared.calls = after ++ c :: before → c.op.movesValue = true →
          MayStart c.caller before c.op := by
  have hstart := World.Step.start (M := walletUses testPayments (fun _ => True))
    (w := World.initial ⟨{}, []⟩) (q := .collectMintInvoice "quote" 5 "lnbc") trivial
  have hreach : World.Reachable (walletUses testPayments (fun _ => True)) _ :=
    ⟨⟨{}, []⟩, ⟨rfl, rfl, rfl⟩, .single hstart⟩
  exact ⟨_, rfl, fun w' hs => interrupted_calls_recovered_first (hreach.steps hs)⟩

end Geata.Payments
