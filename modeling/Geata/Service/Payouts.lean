import Geata.Payments.Journal
import Geata.Service.Alone
import Geata.Service.Books
import Geata.Service.Rules

namespace Geata.Service

open Geata.Lib Geata.Lightning Geata.Payments Function

/-!
# Uncertain payouts pause the wallet

* `PayoutsSound` — every wallet's journal is in order, and only the process that holds the data
  directory holds a lock.
* `Held` — a call holds a wallet's lock, with an assertion about its journal that nobody else can
  invalidate.
* `payouts` — the proof outline: the payout programs perform each operation on the journal when it
  is permitted.
-/

/-! ### The invariant and what the calls rely on -/

section

variable {κ : Type} {X : Payments.Crates} {out : Outside} {call : ℕ} {s s' : System κ}

structure PayoutsSound (X : Payments.Crates) (s : System κ) : Prop where
  wallets : ∀ mint, (s.wallets mint).Sound X
  owner : ∀ mint j, (s.wallets mint).lock = some j →
    s.directory = some .server ∨ s.directory = some (.command j)

/-- Nobody else touches the journal of a wallet that `call` holds. -/
def PayoutsRely (call : ℕ) (s s' : System κ) : Prop :=
  ∀ mint, (s.wallets mint).lock = some call → (s.wallets mint).SamePayout (s'.wallets mint)

theorem PayoutsRely.refl (call : ℕ) (s : System κ) : PayoutsRely call s s := fun _ _ => .refl _

theorem PayoutsRely.trans {s₁ s₂ s₃ : System κ} (h : PayoutsRely call s₁ s₂)
    (h' : PayoutsRely call s₂ s₃) : PayoutsRely call s₁ s₃ := by
  intro mint hl
  have h₁ := h mint hl
  exact h₁.trans (h' mint (by rw [h₁.lock]; exact hl))

/-- What an operation needs of the wallets. -/
def payoutNeeds (X : Payments.Crates) (call : ℕ) : BaseOp κ → System κ → Prop
  | .wallet mint o, s => (s.wallets mint).Permits X call o
  | _, _ => True

def payoutLogic (X : Payments.Crates) (out : Outside) : Logic (BaseSig κ) (System κ) where
  exec := (System.effects X out).exec
  Inv := PayoutsSound X
  Rely := PayoutsRely
  Needs := payoutNeeds X

abbrev payoutTimers (X : Payments.Crates) (out : Outside) : Logic (ServiceSig κ) (System κ) :=
  (payoutLogic X out).timers (System.effects X out).cut System.leave

abbrev payoutWallet (X : Payments.Crates) (out : Outside) (mint : String) :
    Logic WalletSig (System κ) := (payoutLogic X out).along (onWallet κ mint)

/-! ### Every permitted operation keeps the journals -/

namespace PayoutsSound

theorem of_wallets (h : PayoutsSound X s) (hw : s'.wallets = s.wallets)
    (hd : s'.directory = s.directory) : PayoutsSound X s' ∧ ∀ j, PayoutsRely j s s' := by
  refine ⟨⟨?_, ?_⟩, fun j mint _ => ?_⟩ <;> rw [hw]
  · exact h.wallets
  · rw [hd]; exact h.owner
  · exact .refl _

/-- One wallet moves on by a permitted operation of `call`. -/
theorem setWallet (h : PayoutsSound X s) {mint : String} {w : Wallet} {notes : List Note}
    (hk : Wallet.Kept X call (s.directory = some .server) (s.wallets mint) w) :
    PayoutsSound X (s.setWallet mint w notes) ∧
      ∀ j, j ≠ call → PayoutsRely j s (s.setWallet mint w notes) := by
  refine ⟨⟨fun m => ?_, fun m j hl => ?_⟩, fun j hj m hl => ?_⟩ <;>
    simp only [System.setWallet] at * <;> by_cases hm : m = mint
  · subst hm; rw [update_self]; exact hk.sound
  · rw [update_of_ne hm]; exact h.wallets m
  · subst hm
    rw [update_self] at hl
    rcases hk.lock with heq | ⟨-, hl', hserving⟩ | ⟨-, hnone⟩
    · exact h.owner m j (by rw [← heq]; exact hl)
    · exact .inl (by simpa using hserving)
    · rw [hnone] at hl; exact absurd hl (by simp)
  · rw [update_of_ne hm] at hl; exact h.owner m j hl
  · subst hm; rw [update_self]; exact hk.other j hj hl
  · rw [update_of_ne hm]; exact .refl _

theorem exec (h : PayoutsSound X s) {o : BaseOp κ} (hn : payoutNeeds X call o s)
    {r : (BaseSig κ).Res o} (he : (System.effects X out).exec call s o r s') :
    PayoutsSound X s' ∧ ∀ j, j ≠ call → PayoutsRely j s s' := by
  cases o with
  | lightning o =>
    have hsame : s'.wallets = s.wallets ∧ s'.directory = s.directory := by
      cases r with
      | some r => exact ⟨System.succeed_wallets he, (System.succeed_frame he).2.1⟩
      | none => rcases he with rfl | rfl <;> simp
    obtain ⟨h₁, h₂⟩ := h.of_wallets hsame.1 hsame.2
    exact ⟨h₁, fun j _ => h₂ j⟩
  | wallet mint o =>
    obtain ⟨w, notes, hw, rfl⟩ := he
    exact h.setWallet ((h.wallets mint).exec hn hw)
  | lockDirectory mint =>
    cases r with
    | false =>
      obtain ⟨-, rfl⟩ := he
      obtain ⟨h₁, h₂⟩ := h.of_wallets rfl rfl
      exact ⟨h₁, fun j _ => h₂ j⟩
    | true =>
      obtain ⟨hd, rfl⟩ := he
      -- an unowned data directory means that no lock is held
      have hfree : ∀ m j, (s.wallets m).lock ≠ some j := by
        intro m j hl
        rcases h.owner m j hl with ho | ho <;> rw [hd] at ho <;> exact absurd ho (by simp)
      refine ⟨⟨fun m => ?_, fun m j hl => ?_⟩, fun j _ m hl => absurd hl (hfree m j)⟩ <;>
        by_cases hm : m = mint
      · subst hm
        simp only [update_self]
        exact ⟨(h.wallets m).journalled, (h.wallets m).detached⟩
      · simp only [update_of_ne hm]; exact h.wallets m
      · subst hm
        simp only [update_self, Option.some.injEq] at hl
        subst hl
        exact .inr rfl
      · simp only [update_of_ne hm] at hl
        exact absurd hl (hfree m j)

theorem cut (h : PayoutsSound X s) {o : BaseOp κ} (hn : payoutNeeds X call o s)
    (hc : (System.effects X out).cut call s o s') :
    PayoutsSound X s' ∧ ∀ j, j ≠ call → PayoutsRely j s s' := by
  cases o with
  | lightning o =>
    have hsame : s'.wallets = s.wallets ∧ s'.directory = s.directory := by
      rcases hc with rfl | rfl | rfl <;> simp
    obtain ⟨h₁, h₂⟩ := h.of_wallets hsame.1 hsame.2
    exact ⟨h₁, fun j _ => h₂ j⟩
  | wallet mint o =>
    obtain ⟨w, notes, hw, rfl⟩ := hc
    exact h.setWallet ((h.wallets mint).cut hn hw)
  | lockDirectory mint =>
    obtain rfl : s' = s := hc
    exact ⟨h, fun j _ => .refl j _⟩

/-- Giving locks back. -/
theorem leave (h : PayoutsSound X s) (call : ℕ) :
    PayoutsSound X (s.leave call) ∧ ∀ j, j ≠ call → PayoutsRely j s (s.leave call) := by
  have hk : ∀ mint, Wallet.Kept X call (s.directory = some .server) (s.wallets mint)
      ((s.wallets mint).unlock call) := fun mint => .unlock (h.wallets mint)
  refine ⟨⟨fun mint => (hk mint).sound, fun mint j hl => ?_⟩, fun j hj mint hl => (hk mint).other j hj hl⟩
  obtain ⟨-, heq | ⟨-, hnone⟩⟩ := Wallet.sound_unlock (h.wallets mint) call
  · refine h.owner mint j ?_
    rw [← heq]
    exact hl
  · have hl : ((s.wallets mint).unlock call).lock = some j := hl
    rw [hnone] at hl
    exact absurd hl (by simp)

/-- Under a timer. -/
theorem execTimers (h : PayoutsSound X s) {o : (ServiceSig κ).Op}
    (hn : (payoutTimers X out).Needs call o s) {r : (ServiceSig κ).Res o}
    (he : ((System.effects X out).timers System.leave).exec call s o r s') :
    PayoutsSound X s' ∧ ∀ j, j ≠ call → PayoutsRely j s s' := by
  cases o with
  | plain o => exact PayoutsSound.exec h hn he
  | timed o =>
    cases r with
    | some r => exact PayoutsSound.exec (r := r) h hn he
    | none =>
      obtain ⟨s₁, hc, rfl⟩ := he
      obtain ⟨h₁, hr₁⟩ := h.cut hn hc
      obtain ⟨h₂, hr₂⟩ := h₁.leave call
      exact ⟨h₂, fun j hj => (hr₁ j hj).trans (hr₂ j hj)⟩

theorem exit (h : PayoutsSound X s) : PayoutsSound X s.exit :=
  ⟨fun mint => (h.wallets mint).restart, fun _ _ hl => absurd hl (by simp [System.exit, Wallet.restart])⟩

theorem release (h : PayoutsSound X s) (call : ℕ) :
    PayoutsSound X (s.release call) ∧ ∀ j, j ≠ call → PayoutsRely j s (s.release call) := by
  unfold System.release
  split
  · rename_i hd
    refine ⟨h.exit, fun j hj mint hl => ?_⟩
    rcases h.owner mint j hl with ho | ho <;> rw [hd] at ho
    · exact absurd ho (by simp)
    · simp only [Option.some.injEq, Owner.command.injEq] at ho
      exact absurd ho.symm hj
  · obtain ⟨h₁, h₂⟩ := h.leave call
    exact ⟨⟨h₁.wallets, h₁.owner⟩, h₂⟩

theorem env [DecidableEq κ] (h : PayoutsSound X s) (he : System.Env s s') :
    PayoutsSound X s' ∧ ∀ j, PayoutsRely j s s' := by
  cases he with
  | tick => exact h.of_wallets rfl rfl
  | @transaction o _ => exact h.of_wallets (System.commit_wallets s o) (System.commit_directory s o)
  | @ledger mint w hs =>
    obtain ⟨hw, hsame⟩ := (h.wallets mint).settle hs
    refine ⟨⟨fun m => ?_, fun m j hl => ?_⟩, fun j m hl => ?_⟩ <;>
      simp only [System.setWallet] at * <;> by_cases hm : m = mint
    · subst hm; rw [update_self]; exact hw
    · rw [update_of_ne hm]; exact h.wallets m
    · subst hm; rw [update_self, hsame.lock] at hl; exact h.owner m j hl
    · rw [update_of_ne hm] at hl; exact h.owner m j hl
    · subst hm; rw [update_self]; exact hsame
    · rw [update_of_ne hm]; exact .refl _
  | serve hd =>
    refine ⟨⟨h.wallets, fun mint j hl => ?_⟩, fun j => .refl j _⟩
    exact .inl rfl

end PayoutsSound

/-! ### Holding a wallet -/

variable {mint : String} {ε α : Type}

/-- The call holds the wallet's lock, and its journal is as `A` says. -/
def Held (mint : String) (call : ℕ) (A : Option PayoutState → List OperationId → Prop)
    (s : System κ) : Prop :=
  (s.wallets mint).lock = some call ∧ A (s.wallets mint).ledger.payout (s.wallets mint).unresolved

variable {A B : Option PayoutState → List OperationId → Prop}

theorem held_of_same (h : Held mint call A s)
    (hs : (s.wallets mint).SamePayout (s'.wallets mint)) : Held mint call A s' := by
  obtain ⟨hl, ha⟩ := h
  refine ⟨hs.lock.trans hl, ?_⟩
  rw [hs.payout, hs.unresolved]
  exact ha

theorem held_stable : (payoutWallet (κ := κ) X out mint).Stable call (Held mint call A) :=
  fun _ _ hs h => held_of_same h (hs mint h.1)

/-- The journal of a held wallet is in order. -/
theorem Held.journalled (h : Held mint call A s) (hi : PayoutsSound X s) :
    Held mint call (fun p u => Journalled X u p ∧ A p u) s :=
  ⟨h.1, (hi.wallets mint).journalled, h.2⟩

theorem payoutWallet_exec {o : WalletOp} {r : WalletSig.Res o}
    (h : (payoutWallet X out mint).exec call s o r s') :
    ∃ w notes, (s.wallets mint).exec (out.quotes mint) call s.clock (s.directory = some .server)
      o r w notes ∧ s'.wallets mint = w := by
  obtain ⟨r', rfl, w, notes, hw, rfl⟩ := h
  exact ⟨w, notes, hw, setWallet_wallets ..⟩

/-- A stage of quiet operations keeps what is held. -/
theorem triple_quiet {t : Stage WalletSig ε α}
    (ht : t.All (fun o : WalletOp => o.quiet = true)) :
    Stage.Triple (payoutWallet (κ := κ) X out mint) call (Held mint call A) t
      (fun _ => Held mint call A) := by
  refine Stage.triple_keep held_stable (Prog.All.mono ht (fun o ho s _ hs => ?_))
  refine ⟨Wallet.permits_of_quiet ho, fun r s' he => ?_⟩
  obtain ⟨w, notes, hw, hs'⟩ := payoutWallet_exec he
  refine held_of_same hs ?_
  rw [hs']
  exact Wallet.exec_quiet ho hw

/-- Reading the payout state. -/
theorem triple_payout {e : ε} :
    Stage.Triple (payoutWallet (κ := κ) X out mint) call (Held mint call A)
      (Payments.ledger e .payout)
      (fun stored => Held mint call (fun p u => p = stored ∧ A p u)) := by
  refine triple_ledger held_stable (fun _ _ _ => trivial) (fun stored s s' _ hs he _ => ?_)
  obtain ⟨w, notes, ⟨⟨rfl, rfl⟩, -⟩, hs'⟩ := payoutWallet_exec he
  obtain ⟨hl, ha⟩ := hs
  rw [Held, hs']
  exact ⟨hl, rfl, ha⟩

/-- Saving a payout state that does not forget an unresolved send. -/
theorem triple_savePayout {e : ε} {state : PayoutState}
    (hA : ∀ p u, A p u → Journalled X u (some state)) :
    Stage.Triple (payoutWallet (κ := κ) X out mint) call (Held mint call A)
      (Payments.ledger e (.savePayout state))
      (fun _ => Held mint call (fun p u => p = some state ∧ ∃ p₀, A p₀ u)) := by
  refine triple_ledger held_stable (fun s _ hs => ⟨hs.1, hA _ _ hs.2⟩) (fun _ s s' _ hs he _ => ?_)
  obtain ⟨w, notes, ⟨hw, -⟩, hs'⟩ := payoutWallet_exec he
  obtain ⟨hl, ha⟩ := hs
  obtain rfl : w = (s.wallets mint).commit (.savePayout state) := hw
  rw [Held, hs']
  exact ⟨hl, rfl, _, ha⟩

/-! ### The payout programs -/

/-- No send is unresolved. -/
abbrev Resolved (mint : String) (call : ℕ) : System κ → Prop :=
  Held mint call (fun _ u => u = [])

theorem triple_abandonSend {send : PreparedPayRequest} {Q : Unit → System κ → Prop} :
    Stage.Triple (payoutWallet (κ := κ) X out mint) call (Resolved mint call)
      (abandonSend send) Q := by
  unfold abandonSend
  refine Stage.triple_bind (triple_quiet (all_cdk.mpr rfl)) (fun _ => ?_)
  exact Stage.triple_bind (triple_quiet (all_session.mpr rfl)) (fun _ => Stage.triple_throw)

theorem triple_journalSend {send : PreparedPayRequest} {state : PayoutState} :
    Stage.Triple (payoutWallet (κ := κ) X out mint) call (Resolved mint call)
      (journalSend send state)
      (fun _ => Held mint call (fun p u => p = some state ∧ u = [])) := by
  unfold journalSend
  refine Stage.triple_attempt_bind (triple_savePayout (fun _ _ hu => .inl hu)) (fun _ => ?_)
    (fun e => ?_)
  · refine Stage.triple_pure (fun s _ hs => ?_)
    obtain ⟨hl, hp, -, hu⟩ := hs
    exact ⟨hl, hp, hu⟩
  · refine Stage.triple_bind (R := fun _ _ => True) (Stage.triple_of_all ?_)
      (fun _ => Stage.triple_throw)
    exact Stage.all_attempt.mpr (all_cdk.mpr (fun _ _ => trivial))

theorem triple_confirmSend {send : PreparedPayRequest} {state : PayoutState}
    (hstate : state.pending = some (X.operationText send.operationId)) :
    Stage.Triple (payoutWallet (κ := κ) X out mint) call
      (Held mint call (fun p u => p = some state ∧ u = [])) (confirmSend X send state)
      (fun _ _ => True) := by
  unfold confirmSend
  -- from here on the send is unresolved, and the journal names it
  refine Stage.triple_perform_bind
    (R := fun _ => Held mint call (fun p u => p = some state ∧ u = [send.operationId]))
    held_stable (fun s _ hs => ?_) (fun _ s s' _ hs he _ => ?_) (fun _ => ?_)
  · obtain ⟨hl, hp, hu⟩ := hs
    exact ⟨hl, hu, state, hp, hstate⟩
  · obtain ⟨w, notes, ⟨hw, -⟩, hs'⟩ := payoutWallet_exec he
    obtain rfl := (hw : w = _)
    obtain ⟨hl, hp, hu⟩ := hs
    rw [Held, hs']
    exact ⟨hl, hp, by simp only [hu]⟩
  refine Stage.triple_bind (R := fun _ => Resolved mint call)
    (triple_cdk held_stable (fun s _ hs => ⟨hs.1, hs.2.2⟩) (fun _ s s' _ hs he _ => ?_)) (fun _ => ?_)
  · obtain ⟨w, notes, hw, hs'⟩ := payoutWallet_exec he
    obtain ⟨c', -, -, rfl, -⟩ := hw
    obtain ⟨hl, -, hu⟩ := hs
    rw [Resolved, Held, hs']
    exact ⟨hl, by simp [CdkOp.resolve, hu]⟩
  refine Stage.triple_bind (triple_quiet (all_session.mpr rfl)) (fun time => ?_)
  refine Stage.triple_bind (triple_savePayout (fun _ _ hu => .inl hu)) (fun _ => ?_)
  exact Stage.triple_mono (triple_quiet (all_session.mpr rfl)) (fun _ _ h => h)
    (fun _ _ _ => trivial)

theorem triple_sendRequest {request : PaymentRequest} {amount maxTotal : UInt64}
    {state : PayoutState} :
    Stage.Triple (payoutWallet (κ := κ) X out mint) call (Resolved mint call)
      (sendRequest X request amount maxTotal state) (fun _ _ => True) := by
  unfold sendRequest
  refine Stage.triple_bind (triple_quiet (all_session.mpr rfl)) (fun _ => ?_)
  refine Stage.triple_bind (R := fun _ => Resolved mint call)
    (triple_cdk held_stable (fun s _ hs => ⟨hs.1, hs.2⟩) (fun _ s s' _ hs he _ => ?_)) (fun send => ?_)
  · obtain ⟨w, notes, ⟨c', -, -, rfl, -⟩, hs'⟩ := payoutWallet_exec he
    rw [Resolved, Held, hs']
    exact hs
  split
  · exact triple_abandonSend
  · exact Stage.triple_bind triple_journalSend (fun _ => triple_confirmSend rfl)

theorem triple_payoutState {now : ℕ} :
    Stage.Triple (payoutWallet (κ := κ) X out mint) call (Held mint call (fun _ _ => True))
      (payoutState now)
      (fun state => Held mint call (fun p u => p = some state ∧ Journalled X u p)) := by
  unfold payoutState
  refine Stage.triple_bind triple_payout (fun stored => ?_)
  cases stored with
  | some state =>
    refine Stage.triple_pure (fun s hi hs => ?_)
    obtain ⟨hl, hj, hp, -⟩ := hs.journalled hi
    exact ⟨hl, hp, hj⟩
  | none =>
    refine Stage.triple_bind (R := fun _ => Held mint call
        (fun p u => p = some { lastPaid := now } ∧ Journalled X u p)) ?_
      (fun _ => Stage.triple_pure (fun _ _ h => h))
    -- an empty journal has no unresolved send
    refine Stage.triple_mono (A := Resolved mint call)
      (triple_savePayout (fun _ _ hu => .inl hu)) (fun s hi hs => ?_) (fun _ s hs => ?_)
    · obtain ⟨hl, hj, hp, -⟩ := hs.journalled hi
      refine ⟨hl, hj.resolved (fun state hstate => ?_)⟩
      rw [hp] at hstate
      exact absurd hstate (by simp)
    · obtain ⟨hl, hp, -, hu⟩ := hs
      exact ⟨hl, hp, .inl hu⟩

theorem triple_payDue {policy : PayoutPolicy} {state : PayoutState} {now : ℕ} :
    Stage.Triple (payoutWallet (κ := κ) X out mint) call (Resolved mint call)
      (payDue X policy state now) (fun _ _ => True) := by
  unfold payDue
  refine Stage.triple_bind (triple_savePayout (fun _ _ hu => .inl hu)) (fun _ => ?_)
  refine Stage.triple_mono triple_sendRequest (fun s _ hs => ?_) (fun _ _ h => h)
  obtain ⟨hl, -, -, hu⟩ := hs
  exact ⟨hl, hu⟩

theorem triple_payoutOpen {policy : PayoutPolicy} :
    Stage.Triple (payoutWallet (κ := κ) X out mint) call (Held mint call (fun _ _ => True))
      (payoutOpen X policy) (fun _ _ => True) := by
  unfold payoutOpen
  refine Stage.triple_bind (triple_quiet (all_session.mpr rfl)) (fun now => ?_)
  refine Stage.triple_bind triple_payoutState (fun state => ?_)
  split
  · exact Stage.triple_pure (fun _ _ _ => trivial)
  · rename_i hpaused
    have hpending : state.pending = none := by
      simp only [Bool.or_eq_true, decide_eq_true_eq, not_or] at hpaused
      simpa using hpaused.1
    refine Stage.triple_mono (A := Resolved mint call) (B := fun _ _ => True) ?_ (fun s _ hs => ?_)
      (fun _ _ h => h)
    · refine Stage.triple_bind (triple_quiet (all_recover rfl rfl rfl)) (fun _ => ?_)
      refine Stage.triple_bind (triple_quiet (all_cdk.mpr rfl)) (fun balance => ?_)
      split
      · exact triple_payDue
      · exact Stage.triple_pure (fun _ _ _ => trivial)
    · obtain ⟨hl, hp, hj⟩ := hs
      refine ⟨hl, hj.resolved (fun state' hstate' => ?_)⟩
      obtain rfl := Option.some.inj (hp.symm.trans hstate')
      exact hpending

/-- An automatic payout, from any state: it works only under the lock. -/
theorem triple_automaticPayout {policy : PayoutPolicy} :
    Stage.Triple (payoutWallet (κ := κ) X out mint) call (fun _ => True)
      (automaticPayout X policy) (fun _ _ => True) := by
  unfold automaticPayout
  refine Stage.triple_perform_bind
    (R := fun (locked : Bool) s => locked = true → Held mint call (fun _ _ => True) s)
    (fun _ _ _ _ => trivial) (fun _ _ _ => trivial) ?_ (fun locked => ?_)
  · rintro locked s s' _ _ he _ rfl
    obtain ⟨w, notes, ⟨hw, -⟩, hs'⟩ := payoutWallet_exec he
    rcases hw with ⟨-, -, -, rfl⟩ | ⟨hfalse, -⟩
    · rw [Held, hs']; exact ⟨rfl, trivial⟩
    · exact absurd hfalse (by simp)
  split
  · rename_i hlocked
    refine Stage.triple_mono (A := Held mint call (fun _ _ => True)) (B := fun _ _ => True) ?_
      (fun s _ hs => hs hlocked) (fun _ _ h => h)
    refine Stage.triple_bind (triple_quiet (all_session.mpr rfl)) (fun opened => ?_)
    exact Stage.triple_stopIf_bind (fun _ => triple_payoutOpen)
  · exact Stage.triple_pure (fun _ _ _ => trivial)

/-- A payment by hand, in a process that holds the wallet. -/
theorem triple_pay {m encoded : String} {amount : Option UInt64} {maxTotal : UInt64} :
    Stage.Triple (payoutWallet (κ := κ) X out mint) call (Held mint call (fun _ _ => True))
      (pay X m encoded amount maxTotal) (fun _ _ => True) := by
  unfold pay
  refine Stage.triple_ofExcept_bind (fun x _ => Stage.triple_stopIf_bind (fun _ => ?_))
  refine Stage.triple_bind (triple_quiet (all_session.mpr rfl)) (fun opened => ?_)
  refine Stage.triple_stopIf_bind (fun _ => ?_)
  refine Stage.triple_bind (triple_quiet (all_recover rfl rfl rfl)) (fun _ => ?_)
  refine Stage.triple_bind triple_payout (fun stored => Stage.triple_stopIf_bind (fun hpaused => ?_))
  have hpending : (stored.getD {}).pending = none := by simpa using hpaused
  refine Stage.triple_mono triple_sendRequest (fun s hi hs => ?_) (fun _ _ h => h)
  obtain ⟨hl, hj, hp, -⟩ := hs.journalled hi
  refine ⟨hl, hj.resolved (fun state hstate => ?_)⟩
  rw [hp] at hstate
  rw [hstate] at hpending
  exact hpending

/-- Clearing the journal: the saga that is gone is that of the unresolved send. -/
theorem triple_resolvePending (hX : ∀ o, X.parseOperation (X.operationText o) = some o)
    {stored : Option PayoutState} :
    Stage.Triple (payoutWallet (κ := κ) X out mint) call
      (Held mint call (fun p _ => p = stored)) (resolvePending X (stored.getD {}))
      (fun _ => Held mint call (fun _ _ => True)) := by
  unfold resolvePending
  split
  · exact Stage.triple_pure (fun _ _ hs => ⟨hs.1, trivial⟩)
  · rename_i text htext
    refine Stage.triple_ofExcept_bind (fun operation hop => ?_)
    have hparse : X.parseOperation text = some operation := context_eq_ok.mp hop
    refine Stage.triple_bind
      (R := fun (found : Bool) => Held mint call (fun _ u => found = false → u = []))
      (triple_cdk held_stable (fun s _ hs => hs.1) (fun found s s' hi hs he _ => ?_)) (fun found => ?_)
    · obtain ⟨w, notes, ⟨c', -, -, rfl, -⟩, hs'⟩ := payoutWallet_exec he
      obtain ⟨hl, hp⟩ := hs
      rw [Held, hs']
      refine ⟨hl, fun hfound => ?_⟩
      obtain rfl : found = false := hfound
      show (s.wallets mint).unresolved.filter (· ≠ operation) = []
      rcases (hi.wallets mint).journalled with hu | ⟨id, state, hu, hstate, hpending⟩
      · rw [hu]; rfl
      · -- the journal names the unresolved send, and its text is read back
        rw [hp] at hstate
        rw [hstate] at htext
        obtain rfl : X.operationText id = text := Option.some.inj (hpending.symm.trans htext)
        rw [hX id] at hparse
        obtain rfl := Option.some.inj hparse
        simp [hu]
    · split
      · exact Stage.triple_pure (fun _ _ hs => ⟨hs.1, trivial⟩)
      · rename_i hfound
        have hfound : found = false := by simpa using hfound
        refine Stage.triple_bind (triple_quiet (all_session.mpr rfl)) (fun now => ?_)
        refine Stage.triple_bind (triple_savePayout (fun _ _ hu => .inl (hu hfound))) (fun _ => ?_)
        exact Stage.triple_pure (fun _ _ hs => ⟨hs.1, trivial⟩)

theorem triple_pending (hX : ∀ o, X.parseOperation (X.operationText o) = some o)
    {reclaim : Option String} :
    Stage.Triple (payoutWallet (κ := κ) X out mint) call (Held mint call (fun _ _ => True))
      (pending X reclaim) (fun _ _ => True) := by
  unfold pending
  refine Stage.triple_bind (triple_quiet (all_session.mpr rfl)) (fun opened => ?_)
  refine Stage.triple_stopIf_bind (fun _ => ?_)
  refine Stage.triple_bind (triple_quiet (all_recover rfl rfl rfl)) (fun _ => ?_)
  refine Stage.triple_bind (triple_quiet ?_) (fun _ => ?_)
  · cases reclaim with
    | none => exact Stage.all_pure _
    | some id => exact .bind (Stage.all_ofExcept _) (fun _ => all_cdk.mpr rfl)
  refine Stage.triple_bind triple_payout (fun stored => ?_)
  refine Stage.triple_bind
    (Stage.triple_mono (triple_resolvePending hX) (fun _ _ hs => ⟨hs.1, hs.2.1⟩) (fun _ _ h => h))
    (fun state => ?_)
  refine Stage.triple_bind (triple_quiet (all_cdk.mpr rfl)) (fun sends => ?_)
  exact Stage.triple_pure (fun _ _ _ => trivial)

/-! ### The outline -/

/-- Operations of the other parts are always permitted. -/
theorem permits_of_within {w : Wallet} {part : Part} {o : WalletOp} (h : o.Within part)
    (hpart : part ≠ .payout) : w.Permits X call o := by
  unfold Wallet.Permits
  have hne : o.part ≠ .payout := by
    rcases h with h | h <;> rw [h]
    · simp
    · exact hpart
  split <;> trivial

end

section

variable {κ : Type} {X : Service.Crates κ} {out : Outside} {call : ℕ} {s : System κ}

theorem payoutTimers_needs {part : Part} {sweeps : Bool} {o : (ServiceSig κ).Op}
    (h : ServiceWithin part sweeps o) (hpart : part ≠ .payout) : (payoutTimers X.payments out).Needs call o s := by
  have hbase : ∀ o : BaseOp κ, BaseOp.Within part sweeps o → payoutNeeds X.payments call o s := by
    intro o ho
    cases o with
    | wallet mint o => exact permits_of_within ho hpart
    | lightning o => trivial
    | lockDirectory mint => trivial
  cases o with
  | plain o => exact hbase o h
  | timed o => exact hbase o h

/-- Under a triple, a wallet command is safe. -/
theorem wp_command {α : Type} {mint : String} {body : Stage WalletSig Failure α}
    (h : Stage.Triple (payoutWallet (κ := κ) X.payments out mint) call
      (Held mint call (fun _ _ => True)) body (fun _ _ => True)) :
    (payoutTimers X.payments out).wp call (command mint body) (fun _ _ => True) s := by
  intro s₁ _ _
  refine ⟨trivial, fun r s₂ he hi₂ => ?_⟩
  cases r with
  | false => trivial
  | true =>
    have hheld : Held mint call (fun _ _ => True) s₂ := by
      obtain ⟨-, rfl⟩ := he
      simp [Held]
    exact Logic.wp_mono (Logic.wp_plain (Logic.wp_lift (h s₂ hi₂ hheld))) (fun _ _ _ => trivial)

variable [DecidableEq κ]

theorem wp_automaticPayout {policy : PayoutPolicy} (hi : PayoutsSound X.payments s) :
    (payoutTimers X.payments out).wp call (code X (.automaticPayout policy)) (fun _ _ => True) s := by
  have hguarded : (payoutWallet X.payments out policy.mint).wp call
      (guarded (automaticPayout X.payments policy)) (fun _ _ => True) s := by
    refine (Logic.wp_bind _ _ _ s).mpr ?_
    refine Logic.wp_mono (triple_automaticPayout s hi trivial) (fun r s' _ s₁ _ _ => ?_)
    exact ⟨trivial, fun _ _ _ _ => trivial⟩
  refine (Logic.wp_bind _ _ _ s).mpr ?_
  exact Logic.wp_mono (Logic.wp_plain (Logic.wp_lift hguarded)) (fun _ _ _ => trivial)

/-- The proof outline.  Operation IDs can be read back from their text. -/
def payouts (X : Service.Crates κ) (out : Outside)
    (hX : ∀ o, X.parseOperation (X.operationText o) = some o) : Outline (machine X out) where
  Inv := PayoutsSound X.payments
  Rely := PayoutsRely
  Needs := (payoutTimers X.payments out).Needs
  Hist _ _ := True
  Post _ _ _ _ := True
  rely_refl := PayoutsRely.refl
  rely_trans _ _ _ _ := PayoutsRely.trans
  rely_hist _ _ _ _ := trivial
  hist_trans _ _ _ _ _ := trivial
  post_hist _ _ _ _ _ _ _ := trivial
  init s hs := by
    obtain ⟨time, -, rfl⟩ := hs
    exact ⟨fun _ => ⟨.inl rfl, fun _ h => absurd h List.not_mem_nil⟩, fun _ _ h => absurd h (by simp)⟩
  start i s q hi _ := by
    by_cases hpart : q.part = .payout
    · cases q with
      | automaticPayout policy => exact wp_automaticPayout hi
      | pay mint encoded amount maxTotal =>
        exact (Logic.wp_bind _ _ _ s).mpr (wp_command triple_pay)
      | pending mint reclaim =>
        exact (Logic.wp_bind _ _ _ s).mpr (wp_command (triple_pending hX))
      | _ => exact absurd hpart (by simp [Request.part])
    · exact Logic.wp_of_all ((code_within X q).mono (fun o ho s _ => payoutTimers_needs ho hpart))
  exec i s o r s' hi hn he := hi.execTimers hn he
  cut i s o s' hi hn hc := by
    cases o with
    | plain o => exact hi.cut (o := o) hn hc
    | timed o => exact hi.cut (o := o) hn hc
  env s s' hi he := hi.env he
  release i s hi := hi.release i
  crash s s' hi hc := by
    obtain rfl : s' = s.exit := hc
    exact ⟨hi.exit, trivial⟩

/-- An operation about to be performed on a wallet is permitted. -/
theorem permits_of_next (hX : ∀ o, X.parseOperation (X.operationText o) = some o)
    {w : World (ServiceSig κ) (System κ) Request Answer}
    (h : World.Reachable (machine X out) w) {q : Request} {o : (ServiceSig κ).Op}
    {k : (ServiceSig κ).Res o → Prog (ServiceSig κ) Answer}
    (hp : w.procs call = some (q, .op o k)) {mint : String} {op : WalletOp}
    (ho : o.base = .wallet mint op) : (w.shared.wallets mint).Permits X.payments call op := by
  have hneeds := ((payouts X out hX).sound h).needs _ hp
  have hbase : payoutNeeds X.payments call o.base w.shared := by
    cases o <;> exact hneeds
  rw [ho] at hbase
  exact hbase

/-- **An uncertain payout is never followed by another payment.**  In every run, for every mint:

    1. at most one send on which `confirm` was called is unresolved, and then the durable payout
       state names it;
    2. while one is unresolved, no call starts to prepare another payment;
    3. `confirm` is only called on the send that the journal names;
    4. and the send is within the cap: the amount and fee of the policy, whose sum does not
       overflow, or the given total. -/
theorem uncertain_payout_pauses (hX : ∀ o, X.parseOperation (X.operationText o) = some o)
    {w : World (ServiceSig κ) (System κ) Request Answer}
    (h : World.Reachable (machine X out) w) (mint : String) :
    ((w.shared.wallets mint).unresolved = [] ∨
      ∃ id state, (w.shared.wallets mint).unresolved = [id] ∧
        (w.shared.wallets mint).ledger.payout = some state ∧
        state.pending = some (X.operationText id)) ∧
    (∀ call q o k request amount, w.procs call = some (q, .op o k) →
      o.base = .wallet mint (.cdk (.preparePayRequest request amount)) →
      (w.shared.wallets mint).unresolved = []) ∧
    (∀ call q o k operation, w.procs call = some (q, .op o k) →
      o.base = .wallet mint (.cdk (.confirm operation)) →
      (w.shared.wallets mint).unresolved = [operation]) ∧
    (∀ call q o k send, w.procs call = some (q, .op o k) →
      o.base = .wallet mint (.session (.confirming send)) →
      (∃ policy, q = .automaticPayout policy ∧
        (policy.amount + policy.maxFee).toNat = policy.amount.toNat + policy.maxFee.toNat ∧
        send.totalAmount ≤ policy.amount.toNat + policy.maxFee.toNat) ∨
      ∃ m encoded amount maxTotal, q = .pay m encoded amount maxTotal ∧
        send.totalAmount ≤ maxTotal.toNat) := by
  refine ⟨?_, ?_, ?_, ?_⟩
  · exact (((payouts X out hX).sound h).inv.wallets mint).journalled
  · intro call q o k request amount hp ho
    exact (permits_of_next hX h hp ho).2
  · intro call q o k operation hp ho
    exact (permits_of_next hX h hp ho).2
  · intro call q o k send hp ho
    obtain ⟨-, hreaches⟩ := h.tidy.reaches call q _ hp
    have hcapped : BaseOp.Capped q.cap o.base := ((code_capped X q).reaches hreaches).2.1
    rw [ho] at hcapped
    obtain ⟨c, hc, hle⟩ := hcapped
    cases q with
    | automaticPayout policy =>
      obtain rfl : policy.cap = c := Option.some.inj hc
      exact .inl ⟨policy, rfl, policy.toNat_cap, hle⟩
    | pay m encoded amount maxTotal =>
      obtain rfl : maxTotal.toNat = c := Option.some.inj hc
      exact .inr ⟨m, encoded, amount, maxTotal, rfl, hle⟩
    | _ => exact absurd hc (by simp [Request.cap])

end

/-- Send a hundred sats as soon as they are there. -/
def testAutomatic : PayoutPolicy where
  mint := "https://mint.example"
  request := ⟨none, some .sat, none, [], none, [], [⟨.httpPost, "https://payee.example"⟩]⟩
  amount := 100
  maxFee := 5
  interval := none
  threshold := some 100
  fits := by decide

/-- The journal of the first send, in which its outcome is open. -/
def testJournal : PayoutState where
  lastPaid := 1700000100
  retryAt := 1700000160
  pending := some (testService.operationText 7)

/-- The wallet after the send. -/
def testUnresolved : Wallet where
  ledger := { payout := some testJournal }
  memory := some { needsRecovery := true }
  unresolved := [7]

/-- A send is prepared and journalled, and its confirmation gets no answer. -/
theorem alone_testAutomatic {makes : MintQuote → Prop} :
    Stage.Alone (Wallet.does makes 0 1700000100) ({}, [])
      (automaticPayout testService.payments testAutomatic)
      (.error (.message ("payout " ++ testService.operationText 7 ++
        " outcome uncertain; automatic payouts paused; inspect wallet pending")))
      ({ testUnresolved with lock := some 0 }, []) := by
  let new : PayoutState := { lastPaid := 1700000100 }
  let tried : PayoutState := { new with retryAt := 1700000160 }
  let opened : Wallet := { lock := some 0, memory := some {} }
  let entered : Wallet := { opened with ledger := { payout := some new } }
  let recovered : Wallet := { entered with memory := some { needsRecovery := false } }
  let trying : Wallet := { recovered with ledger := { payout := some tried } }
  let preparing : Wallet := { trying with memory := some { needsRecovery := true } }
  let journalled : Wallet := { preparing with ledger := { payout := some testJournal } }
  let confirming : Wallet := { journalled with unresolved := [7] }
  have hbalance : recovered.exec makes 0 1700000100 true (.cdk .totalBalance) (.ok (100 : ℕ))
      recovered [] := ⟨_, .refl _, trivial, rfl, rfl⟩
  have hprepare : preparing.exec makes 0 1700000100 true
      (.cdk (.preparePayRequest testAutomatic.request 100)) (.ok ⟨7, 103⟩) preparing [] :=
    ⟨_, .refl _, trivial, rfl, rfl⟩
  have hconfirm : confirming.exec makes 0 1700000100 true (.cdk (.confirm 7)) (.error .other)
      confirming [] := ⟨_, rfl, .refl _, rfl⟩
  -- The wallet is opened, and its journal begins.
  unfold automaticPayout
  refine .bind (m := ({ lock := some 0 }, [])) (alone_session.mpr ⟨.inl ⟨rfl, rfl, rfl, rfl⟩, rfl⟩) ?_
  refine .bind (m := (opened, [])) (alone_session.mpr ⟨.inl ⟨rfl, rfl⟩, rfl⟩) ?_
  refine .bind (Stage.alone_stopIf_ok.mpr ⟨rfl, rfl⟩) ?_
  unfold payoutOpen
  refine .bind (a := (1700000100 : ℕ)) (alone_session.mpr ⟨⟨rfl, rfl⟩, rfl⟩) ?_
  have hnew : Stage.Alone (Wallet.does makes 0 1700000100) (opened, []) (payoutState 1700000100)
      (.ok new) (entered, []) := by
    unfold payoutState
    refine .bind (a := none) (m := (opened, [])) (alone_ledger ⟨rfl, rfl⟩ rfl) ?_
    exact .bind (a := ()) (m := (entered, [])) (alone_ledger rfl rfl)
      (Stage.alone_pure.mpr ⟨rfl, rfl⟩)
  have hmemory : entered.memory = some {} := rfl
  refine .bind hnew (.bind (alone_recover hmemory) ?_)
  refine .bind (alone_cdk hbalance) ?_
  -- The payout is due.
  show Stage.Alone _ _ (payDue testService.payments testAutomatic new 1700000100) _ _
  unfold payDue
  refine .bind (a := ()) (m := (trying, [])) (alone_ledger rfl rfl) ?_
  unfold sendRequest
  refine .bind (a := ()) (m := (preparing, [])) (alone_session.mpr ⟨rfl, rfl⟩) ?_
  refine .bind (alone_cdk hprepare) ?_
  have hsave : Stage.Alone (Wallet.does makes 0 1700000100) (preparing, [])
      (ledger Failure.storage (.savePayout testJournal)) (.ok ()) (journalled, []) :=
    alone_ledger rfl rfl
  have hjournal : Stage.Alone (Wallet.does makes 0 1700000100) (preparing, [])
      (journalSend ⟨7, 103⟩ testJournal) (.ok ()) (journalled, []) :=
    .bind (Stage.alone_attempt hsave) (Stage.alone_pure.mpr ⟨rfl, rfl⟩)
  refine .bind hjournal ?_
  unfold confirmSend
  refine .bind (a := ()) (m := (confirming, [])) (alone_session.mpr ⟨rfl, rfl⟩) ?_
  exact .fail (alone_cdk_error hconfirm)

/-- A payout of the server ends without an answer of the mint, so that its outcome is open: whatever
    follows, no other is prepared meanwhile. -/
theorem uncertain_payout_pauses_unresolved :
    ∃ w : World (ServiceSig (List UInt8)) (System (List UInt8)) Request Answer,
      World.Reachable (machine testService testOutside) w ∧
      (w.shared.wallets "https://mint.example").unresolved = [7] ∧
      (∃ state, (w.shared.wallets "https://mint.example").ledger.payout = some state ∧
        state.pending = some (testService.operationText 7)) ∧
      ∀ w', World.Steps (machine testService testOutside) w w' →
        ∀ call q o k request amount, w'.procs call = some (q, .op o k) →
          o.base = .wallet "https://mint.example" (.cdk (.preparePayRequest request amount)) →
          (w'.shared.wallets "https://mint.example").unresolved = [] := by
  have halone : Prog.Alone (System.does testService testOutside 0) _
      (code testService (.automaticPayout testAutomatic)) _ _ :=
    alone_automaticPayout (s := { clock := 1700000100, directory := some .server }) rfl
      alone_testAutomatic
  obtain ⟨w, hw, hshared, -, -⟩ := reachable_answered (by decide) halone rfl
  have hunresolved : (w.shared.wallets "https://mint.example").unresolved = [7] := by
    rw [hshared]
    rfl
  obtain ⟨hone, -⟩ := uncertain_payout_pauses testService_operations hw "https://mint.example"
  obtain ⟨id, state, hid, hstate, hpending⟩ := hone.resolve_left (by simp [hunresolved])
  obtain rfl : 7 = id := List.singleton_inj.mp (hunresolved.symm.trans hid)
  refine ⟨w, hw, hunresolved, ⟨state, hstate, hpending⟩, fun w' hs => ?_⟩
  exact (uncertain_payout_pauses testService_operations (hw.steps hs) "https://mint.example").2.1

end Geata.Service
