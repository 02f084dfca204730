import Geata.Lib.Triple
import Geata.Payments.Rules
import Geata.Payments.Payout
import Geata.Payments.Steps

namespace Geata.Payments

open Geata.Lib

/-!
# Interrupted wallet calls are recovered first

`needs_recovery` is set before a CDK call that moves value and cleared after it, by hand, in every
use of a wallet.  Here one wallet is used by any number of calls, each dropped or failing
anywhere, and every CDK call is kept in a history.

* `CdkCall.resolved` — a call that moves value ran to success, was cancelled, or was followed by a
  successful recovery.
* `Settled` — every such call of a history is resolved; `MayStart` — what has to come before one.
* `walletUses` — the machine; `Recovered` — the flag as an invariant of its operations.
-/

/-! ### Histories of CDK calls -/

/-- A CDK call and how it ended; `none` if its caller was dropped meanwhile. -/
structure CdkCall where
  caller : ℕ
  op : CdkOp
  outcome : Option (Except CdkError op.Answer)

/-- The calls that move value. -/
def CdkOp.movesValue : CdkOp → Bool
  | .receiveProofs _ _ _ | .mint _ | .preparePayRequest _ _ | .confirm _ => true
  | _ => false

namespace CdkCall

/-- A recovery that left no saga behind. -/
def recovers : CdkCall → Bool
  | ⟨_, .recoverIncompleteSagas, some (.ok report)⟩ => report.failed == 0 && report.skipped == 0
  | _ => false

/-- The end of a prepared send: confirmed, or cancelled. -/
def closes (send : PreparedPayRequest) : CdkCall → Bool
  | ⟨_, .confirm operation, some (.ok _)⟩ => operation == send.operationId
  | ⟨_, .cancel operation, some (.ok _)⟩ => operation == send.operationId
  | _ => false

/-- The call ran to success.  A prepared send has to be confirmed or cancelled `after` it. -/
def completed (after : List CdkCall) : CdkCall → Bool
  | ⟨_, .preparePayRequest _ _, some (.ok send)⟩ => after.any (closes send)
  | ⟨_, _, some (.ok _)⟩ => true
  | _ => false

def resolved (after : List CdkCall) (c : CdkCall) : Bool :=
  c.completed after || after.any recovers

variable {c : CdkCall} {after : List CdkCall}

theorem completed_append (h : c.completed after = true) (later : List CdkCall) :
    c.completed (later ++ after) = true := by
  unfold completed at h ⊢
  split at h
  · rw [List.any_append, h, Bool.or_true]
  · rfl
  · exact absurd h (by simp)

theorem resolved_cons (h : c.resolved after = true) (d : CdkCall) :
    c.resolved (d :: after) = true := by
  unfold resolved at h ⊢
  rw [Bool.or_eq_true] at h ⊢
  rcases h with h | h
  · exact .inl (completed_append h [d])
  · exact .inr (by rw [List.any_cons, h, Bool.or_true])

end CdkCall

/-- Every call that moves value is resolved by the calls after it, which stand before it. -/
def Settled (calls : List CdkCall) : Prop :=
  ∀ after c before, calls = after ++ c :: before → c.op.movesValue = true →
    c.resolved after = true

/-- What a value-moving call of `caller` needs of the calls before it: all of them are resolved.
    A `confirm` goes on with the send that its caller has just prepared. -/
def MayStart (caller : ℕ) (before : List CdkCall) : CdkOp → Prop
  | .confirm operation => ∃ request amount send rest,
      before = ⟨caller, .preparePayRequest request amount, some (.ok send)⟩ :: rest ∧
        send.operationId = operation ∧ Settled rest
  | _ => Settled before

/-- No value-moving call was started too early. -/
def Orderly (calls : List CdkCall) : Prop :=
  ∀ after c before, calls = after ++ c :: before → c.op.movesValue = true →
    MayStart c.caller before c.op

section

variable {calls : List CdkCall} {c : CdkCall}

theorem settled_nil : Settled [] := by
  intro after c before h
  exact absurd h (by simp)

/-- A further call, resolved at once if it moves value. -/
theorem Settled.cons (h : Settled calls)
    (hc : c.op.movesValue = true → c.resolved [] = true) : Settled (c :: calls) := by
  intro after d before heq hd
  cases after with
  | nil =>
    obtain ⟨rfl, -⟩ := List.cons.inj heq
    exact hc hd
  | cons e after =>
    obtain ⟨rfl, htail⟩ := List.cons.inj heq
    exact CdkCall.resolved_cons (h after d before htail hd) c

/-- A successful recovery resolves everything before it. -/
theorem settled_of_recovers (hc : c.recovers = true) (hm : c.op.movesValue = false)
    (calls : List CdkCall) : Settled (c :: calls) := by
  intro after d before heq hd
  cases after with
  | nil =>
    obtain ⟨rfl, -⟩ := List.cons.inj heq
    exact absurd hd (by rw [hm]; simp)
  | cons e after =>
    obtain ⟨rfl, -⟩ := List.cons.inj heq
    show (_ || _) = true
    rw [List.any_cons, hc, Bool.true_or, Bool.or_true]

/-- The end of a prepared send resolves it. -/
theorem Settled.closed {caller : ℕ} {request : PaymentRequest} {amount : ℕ}
    {send : PreparedPayRequest} (h : Settled calls) (hc : c.closes send = true)
    (hm : c.resolved [] = true) :
    Settled (c :: ⟨caller, .preparePayRequest request amount, some (.ok send)⟩ :: calls) := by
  intro after d before heq hd
  match after with
  | [] =>
    obtain ⟨rfl, -⟩ := List.cons.inj heq
    exact hm
  | [e] =>
    obtain ⟨rfl, htail⟩ := List.cons.inj heq
    obtain ⟨rfl, -⟩ := List.cons.inj htail
    show (_ || _) = true
    rw [Bool.or_eq_true]
    refine .inl ?_
    show List.any [c] (CdkCall.closes send) = true
    rw [List.any_cons, hc, Bool.true_or]
  | e :: e' :: after =>
    obtain ⟨rfl, htail⟩ := List.cons.inj heq
    obtain ⟨rfl, hrest⟩ := List.cons.inj htail
    exact CdkCall.resolved_cons (CdkCall.resolved_cons (h after d before hrest hd) _) _

theorem Orderly.cons (h : Orderly calls)
    (hc : c.op.movesValue = true → MayStart c.caller calls c.op) : Orderly (c :: calls) := by
  intro after d before heq hd
  cases after with
  | nil =>
    obtain ⟨rfl, rfl⟩ := List.cons.inj heq
    exact hc hd
  | cons e after =>
    obtain ⟨-, htail⟩ := List.cons.inj heq
    exact h after d before htail hd

end

/-! ### The uses of one wallet -/

/-- A wallet and the CDK calls made on it, the latest first. -/
structure UsedWallet where
  wallet : Wallet
  calls : List CdkCall

/-- The calls after an operation of `caller`. -/
def recordCall (caller : ℕ) (calls : List CdkCall) :
    (o : WalletOp) → Option (WalletSig.Res o) → List CdkCall
  | .cdk o, outcome => ⟨caller, o, outcome⟩ :: calls
  | .session _, _ | .ledger _, _ => calls

inductive WalletUse where
  | collect (site : String) (policy : PaymentPolicy) (token : String)
  | mintInvoice (amount : ℕ)
  | collectMintInvoice (id : String) (amount : ℕ) (invoice : String)
  | canPruneMintDeposit (id : String) (amount : ℕ) (invoice : String)
  | removeRetiredMintQuote (id : String)
  | recoverMintDeposits (associated : List String)
  | automaticPayout (policy : PayoutPolicy)

/-- The program of a use, which gives the lock back at its end. -/
def WalletUse.code (X : Crates) : WalletUse → Prog WalletSig Unit
  | .collect site policy token => finished (collectInner X site policy token)
  | .mintInvoice amount => finished (Payments.mintInvoice amount)
  | .collectMintInvoice id amount invoice => finished (Payments.collectMintInvoice X id amount invoice)
  | .canPruneMintDeposit id amount invoice => finished (Payments.canPruneMintDeposit X id amount invoice)
  | .removeRetiredMintQuote id => finished (Payments.removeRetiredMintQuote id)
  | .recoverMintDeposits associated => finished (Payments.recoverMintDeposits X associated)
  | .automaticPayout policy => finished (Payments.automaticPayout X policy)
where
  finished {ε α : Type} (body : Stage WalletSig ε α) : Prog WalletSig Unit :=
    (guarded body).bind (fun _ => .ret ())

/-- An operation on the wallet, kept in the history.  `makes` says which quotes the mint makes. -/
def UsedWallet.effects (makes : MintQuote → Prop) : Effects WalletSig UsedWallet where
  exec i s o r s' := s'.calls = recordCall i s.calls o (some r) ∧
    ∃ time notes, s.wallet.exec makes i time true o r s'.wallet notes
  cut i s o s' := s'.calls = recordCall i s.calls o none ∧
    ∃ notes, s.wallet.cut makes o s'.wallet notes

/-- Any number of uses of one wallet, at any times and each dropped anywhere. -/
def walletUses (X : Crates) (makes : MintQuote → Prop) :
    Machine WalletSig UsedWallet WalletUse Unit where
  init s := s.wallet.memory = none ∧ s.wallet.lock = none ∧ s.calls = []
  admits _ _ := True
  code := WalletUse.code X
  effects := UsedWallet.effects makes
  release i s := { s with wallet := s.wallet.unlock i }
  env s s' := s'.calls = s.calls ∧ s.wallet.settle s'.wallet
  crash s s' := s' = { s with wallet := s.wallet.restart }

/-! ### The flag as an invariant -/

/-- `needs_recovery` of an open wallet. -/
def Wallet.flag (w : Wallet) : Option Bool := w.memory.map Memory.needsRecovery

/-- A cleared flag says that nothing is left to recover. -/
structure Recovered (s : UsedWallet) : Prop where
  settled : s.wallet.flag = some false → Settled s.calls
  orderly : Orderly s.calls

/-- Nobody else uses a wallet that `call` holds. -/
def UseRely (call : ℕ) (s s' : UsedWallet) : Prop :=
  s.wallet.lock = some call →
    s'.wallet.lock = some call ∧ s'.wallet.flag = s.wallet.flag ∧ s'.calls = s.calls

/-- What an operation needs: the lock, a set flag for a call that moves value, and nothing to
    recover for clearing the flag. -/
def UseNeeds (call : ℕ) : WalletOp → UsedWallet → Prop
  | .session (.setNeedsRecovery value), s =>
      s.wallet.lock = some call ∧ (value = false → Settled s.calls)
  | .session .open, s => s.wallet.lock = some call
  | .cdk o, s => s.wallet.lock = some call ∧
      (o.movesValue = true → s.wallet.flag = some true ∧ MayStart call s.calls o)
  | _, _ => True

/-- The logic of the uses of one wallet. -/
abbrev useLogic (makes : MintQuote → Prop) : Logic WalletSig UsedWallet where
  exec := (UsedWallet.effects makes).exec
  Inv := Recovered
  Rely := UseRely
  Needs := UseNeeds

variable {X : Crates} {makes : MintQuote → Prop} {call : ℕ} {s s' : UsedWallet}

theorem UseRely.of_same (hl : s'.wallet.lock = s.wallet.lock) (hf : s'.wallet.flag = s.wallet.flag)
    (hc : s'.calls = s.calls) (call : ℕ) : UseRely call s s' :=
  fun h => ⟨hl.trans h, hf, hc⟩

/-- The holder of the lock may do as it likes. -/
theorem UseRely.of_held {j : ℕ} (h : s.wallet.lock = some call) (hj : j ≠ call) :
    UseRely j s s' := by
  intro hl
  rw [h] at hl
  exact absurd (Option.some.inj hl).symm hj

theorem UseRely.trans {s₁ s₂ s₃ : UsedWallet} (h : UseRely call s₁ s₂) (h' : UseRely call s₂ s₃) :
    UseRely call s₁ s₃ := by
  intro hl
  obtain ⟨hl₂, hf₂, hc₂⟩ := h hl
  obtain ⟨hl₃, hf₃, hc₃⟩ := h' hl₂
  exact ⟨hl₃, hf₃.trans hf₂, hc₃.trans hc₂⟩

namespace Recovered

theorem of_same (h : Recovered s) (hf : s'.wallet.flag = s.wallet.flag)
    (hc : s'.calls = s.calls) : Recovered s' :=
  ⟨by rw [hf, hc]; exact h.settled, by rw [hc]; exact h.orderly⟩

/-- A CDK call that was allowed, however it ended. -/
theorem recordCall {o : CdkOp} {outcome : Option (Except CdkError o.Answer)} (h : Recovered s)
    (hn : UseNeeds call (.cdk o) s) (hf : s'.wallet.flag = s.wallet.flag)
    (hc : s'.calls = ⟨call, o, outcome⟩ :: s.calls) : Recovered s' := by
  refine ⟨fun hflag => ?_, ?_⟩ <;> rw [hc]
  · rw [hf] at hflag
    -- a call that moves value is made with the flag set
    refine (h.settled hflag).cons (fun hm => ?_)
    rw [(hn.2 hm).1] at hflag
    exact absurd hflag (by simp)
  · exact h.orderly.cons (fun hm => (hn.2 hm).2)

end Recovered

namespace Wallet

variable {w w' : Wallet} {time : ℕ} {serving : Bool} {notes : List Note}

theorem unlock_flag (w : Wallet) (call : ℕ) : (w.unlock call).flag = w.flag := by
  unfold unlock
  split <;> rfl

/-- Someone else's lock is not given back. -/
theorem unlock_of_ne {j : ℕ} (h : w.lock = some j) (hj : j ≠ call) : w.unlock call = w := by
  unfold unlock
  rw [if_neg]
  rw [h]
  exact fun heq => hj (Option.some.inj heq)

theorem interrupt_use {o : CdkOp} (h : w.interrupt makes o w' notes) :
    w'.lock = w.lock ∧ w'.flag = w.flag := by
  obtain ⟨c', rfl, -⟩ := h
  exact ⟨rfl, rfl⟩

theorem cdk_use {o : CdkOp} {r : Except CdkError o.Answer}
    (h : w.exec makes call time serving (.cdk o) r w' notes) :
    w'.lock = w.lock ∧ w'.flag = w.flag := by
  cases r with
  | error e => exact interrupt_use h
  | ok r =>
    obtain ⟨c', ⟨rfl, -⟩ | ⟨amount, quote, -, rfl, -⟩⟩ := exec_cdk_cases h <;> exact ⟨rfl, rfl⟩

theorem commit_use (w : Wallet) (o : LedgerOp) :
    (w.commit o).lock = w.lock ∧ (w.commit o).flag = w.flag := by
  cases o <;> exact ⟨rfl, rfl⟩

theorem transact_use {o : LedgerOp} {r : Option o.Answer} (h : w.transact call o r w') :
    w'.lock = w.lock ∧ w'.flag = w.flag := by
  rcases transact_cases h with rfl | rfl | ⟨id, -, -, rfl⟩
  · exact ⟨rfl, rfl⟩
  · exact commit_use w o
  · exact commit_use w (.claim id)

end Wallet

namespace Recovered

/-- A session operation that was allowed. -/
theorem session (h : Recovered s) {o : SessionOp} (hn : UseNeeds call (.session o) s) {r : o.Res}
    {time : ℕ} (he : s.wallet.session call time true o r s'.wallet) (hc : s'.calls = s.calls) :
    Recovered s' ∧ ∀ j, j ≠ call → UseRely j s s' := by
  have hsame : s'.wallet.lock = s.wallet.lock → s'.wallet.flag = s.wallet.flag →
      Recovered s' ∧ ∀ j, j ≠ call → UseRely j s s' := fun hl hf =>
    ⟨h.of_same hf hc, fun j _ => .of_same hl hf hc j⟩
  cases o with
  | tryLock =>
    rcases he with ⟨-, -, hfree, hw⟩ | ⟨-, -, hw⟩
    · refine ⟨h.of_same (by rw [hw]; rfl) hc, fun j _ hl => ?_⟩
      rw [hfree] at hl
      exact absurd hl (by simp)
    · exact hsame (by rw [hw]) (by rw [hw])
  | unlock =>
    have hw : s'.wallet = s.wallet.unlock call := he
    refine ⟨h.of_same (by rw [hw, Wallet.unlock_flag]) hc, fun j hj hl => ?_⟩
    rw [hw, Wallet.unlock_of_ne hl hj]
    exact ⟨hl, rfl, hc⟩
  | «open» =>
    refine ⟨?_, fun j hj => .of_held hn hj⟩
    rcases he with ⟨-, hw⟩ | ⟨-, -, hw⟩
    · -- a wallet that was closed is opened with the flag set
      refine ⟨fun hflag => ?_, by rw [hc]; exact h.orderly⟩
      rw [hc]
      refine h.settled ?_
      rw [hw] at hflag
      unfold Wallet.flag at hflag ⊢
      cases hm : s.wallet.memory with
      | none => rw [hm] at hflag; exact absurd hflag (by simp)
      | some m => rw [hm] at hflag; exact hflag
    · exact h.of_same (by rw [hw]) hc
  | setNeedsRecovery value =>
    have hw : s'.wallet = { s.wallet with
      memory := s.wallet.memory.map (fun m => { m with needsRecovery := value }) } := he
    refine ⟨⟨fun hflag => ?_, by rw [hc]; exact h.orderly⟩, fun j hj => .of_held hn.1 hj⟩
    rw [hc]
    refine hn.2 ?_
    rw [hw] at hflag
    unfold Wallet.flag at hflag
    cases hm : s.wallet.memory with
    | none => rw [hm] at hflag; exact absurd hflag (by simp)
    | some m => rw [hm] at hflag; exact Option.some.inj hflag
  | setDepositCursor id =>
    have hw : s'.wallet = { s.wallet with
      memory := s.wallet.memory.map (fun m => { m with depositCursor := some id }) } := he
    refine hsame (by rw [hw]) ?_
    rw [hw]
    unfold Wallet.flag
    rw [Option.map_map]
    rfl
  | needsRecovery => exact hsame (by rw [he.1]) (by rw [he.1])
  | depositCursor => exact hsame (by rw [he.1]) (by rw [he.1])
  | now => exact hsame (by rw [he.1]) (by rw [he.1])
  | confirming send =>
    have hw : s'.wallet = { s.wallet with
      unresolved := send.operationId :: s.wallet.unresolved } := he
    exact hsame (by rw [hw]) (by rw [hw]; rfl)

/-- One operation that was allowed. -/
theorem exec (h : Recovered s) {o : WalletOp} (hn : UseNeeds call o s) {r : WalletSig.Res o}
    (he : (UsedWallet.effects makes).exec call s o r s') :
    Recovered s' ∧ ∀ j, j ≠ call → UseRely j s s' := by
  obtain ⟨hc, time, notes, hw⟩ := he
  cases o with
  | session o => exact Recovered.session h hn hw.1 hc
  | ledger o =>
    obtain ⟨hl, hf⟩ := Wallet.transact_use hw.1
    exact ⟨h.of_same hf hc, fun j _ => .of_same hl hf hc j⟩
  | cdk o =>
    obtain ⟨-, hf⟩ := Wallet.cdk_use hw
    exact ⟨h.recordCall hn hf hc, fun j hj => .of_held hn.1 hj⟩

/-- An operation that was allowed and is cut short. -/
theorem cut (h : Recovered s) {o : WalletOp} (hn : UseNeeds call o s)
    (hcut : (UsedWallet.effects makes).cut call s o s') :
    Recovered s' ∧ ∀ j, j ≠ call → UseRely j s s' := by
  obtain ⟨hc, notes, hw⟩ := hcut
  cases o with
  | session o =>
    have heq : s'.wallet = s.wallet := hw.1
    exact ⟨h.of_same (by rw [heq]) hc, fun j _ => .of_same (by rw [heq]) (by rw [heq]) hc j⟩
  | ledger o =>
    have huse : s'.wallet.lock = s.wallet.lock ∧ s'.wallet.flag = s.wallet.flag := by
      cases o with
      | savePayout state =>
        rcases hw.1 with heq | heq <;> rw [heq] <;> exact ⟨rfl, rfl⟩
      | reserve id site price =>
        rcases hw.1 with heq | heq | heq <;> rw [heq] <;> exact ⟨rfl, rfl⟩
      | claim id => rcases hw.1 with heq | heq | heq <;> rw [heq] <;> exact ⟨rfl, rfl⟩
      | payout => rcases hw.1 with heq | heq | heq <;> rw [heq] <;> exact ⟨rfl, rfl⟩
    exact ⟨h.of_same huse.2 hc, fun j _ => .of_same huse.1 huse.2 hc j⟩
  | cdk o =>
    obtain ⟨-, hf⟩ := Wallet.interrupt_use hw
    exact ⟨h.recordCall hn hf hc, fun j hj => .of_held hn.1 hj⟩

theorem release (h : Recovered s) (call : ℕ) :
    Recovered ((walletUses X makes).release call s) ∧
      ∀ j, j ≠ call → UseRely j s ((walletUses X makes).release call s) := by
  refine ⟨h.of_same (Wallet.unlock_flag s.wallet call) rfl, fun j hj hl => ?_⟩
  show (s.wallet.unlock call).lock = _ ∧ (s.wallet.unlock call).flag = _ ∧ _
  rw [Wallet.unlock_of_ne hl hj]
  exact ⟨hl, rfl, rfl⟩

/-- A ledger transaction that was left behind runs. -/
theorem env (h : Recovered s) (he : (walletUses X makes).env s s') :
    Recovered s' ∧ ∀ j, UseRely j s s' := by
  obtain ⟨hc, o, -, hw⟩ := he
  obtain ⟨hl, hf⟩ := Wallet.commit_use s.wallet o
  have hl' : s'.wallet.lock = s.wallet.lock := by rw [hw]; exact hl
  have hf' : s'.wallet.flag = s.wallet.flag := by rw [hw]; exact hf
  exact ⟨h.of_same hf' hc, fun j => .of_same hl' hf' hc j⟩

/-- A new process opens the wallet with the flag set. -/
theorem crash (h : Recovered s) (hc : (walletUses X makes).crash s s') : Recovered s' := by
  have hs : s' = { s with wallet := s.wallet.restart } := hc
  subst hs
  exact ⟨fun hflag => absurd hflag (by simp [Wallet.flag, Wallet.restart]), h.orderly⟩

end Recovered

end Geata.Payments
