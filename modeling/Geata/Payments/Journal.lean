import Geata.Payments.Collect
import Geata.Payments.Steps

namespace Geata.Payments

open Geata.Lib

/-!
# The payout journal of one wallet

* `Journalled` — at most one send is unresolved, and then the payout state names it.
* `Wallet.Permits` — what an operation on the journal needs: the lock, and a journal in the right
  state.
* `Wallet.Sound.exec`, `Wallet.Sound.cut` — every permitted operation, complete or cut short,
  keeps the journal, and leaves a wallet that someone else holds alone.
-/

/-- At most one send is unresolved, and then the payout state names it. -/
def Journalled (X : Crates) (unresolved : List OperationId) (payout : Option PayoutState) : Prop :=
  unresolved = [] ∨ ∃ id state, unresolved = [id] ∧ payout = some state ∧
    state.pending = some (X.operationText id)

variable {X : Crates} {unresolved : List OperationId} {payout : Option PayoutState}

/-- Without a pending send in the payout state, none is unresolved. -/
theorem Journalled.resolved (h : Journalled X unresolved payout)
    (hp : ∀ state, payout = some state → state.pending = none) : unresolved = [] := by
  rcases h with h | ⟨id, state, -, hstate, hpending⟩
  · exact h
  · rw [hp state hstate] at hpending
    exact absurd hpending (by simp)

/-- Resolving sends keeps the journal. -/
theorem Journalled.filter (h : Journalled X unresolved payout) (p : OperationId → Bool) :
    Journalled X (unresolved.filter p) payout := by
  rcases h with rfl | ⟨id, state, rfl, hstate, hpending⟩
  · exact .inl rfl
  · cases hp : p id with
    | true => exact .inr ⟨id, state, by simp [hp], hstate, hpending⟩
    | false => exact .inl (by simp [hp])

/-- Operations that have nothing to do with the lock and the journal. -/
def WalletOp.quiet : WalletOp → Bool
  | .session .tryLock | .session .unlock | .session (.confirming _) | .ledger (.savePayout _)
  | .cdk (.preparePayRequest _ _) | .cdk (.confirm _) | .cdk (.getSaga _) => false
  | _ => true

namespace Wallet

variable {w w' : Wallet} {makes : MintQuote → Prop} {call time : ℕ} {serving : Bool}
  {notes : List Note}

/-- The lock and the journal are the same. -/
structure SamePayout (w w' : Wallet) : Prop where
  lock : w'.lock = w.lock
  payout : w'.ledger.payout = w.ledger.payout
  unresolved : w'.unresolved = w.unresolved

theorem SamePayout.refl (w : Wallet) : SamePayout w w := ⟨rfl, rfl, rfl⟩

theorem SamePayout.trans {w₁ w₂ w₃ : Wallet} (h : SamePayout w₁ w₂) (h' : SamePayout w₂ w₃) :
    SamePayout w₁ w₃ :=
  ⟨h'.lock.trans h.lock, h'.payout.trans h.payout, h'.unresolved.trans h.unresolved⟩

/-- Transactions on tokens leave the journal alone. -/
theorem samePayout_commit {o : LedgerOp} (h : ∀ state, o ≠ .savePayout state) :
    SamePayout w (w.commit o) := by
  cases o with
  | reserve id site price => exact ⟨rfl, Ledger.payout_reserve, rfl⟩
  | claim id => exact ⟨rfl, Ledger.payout_claim, rfl⟩
  | payout => exact .refl w
  | savePayout state => exact absurd rfl (h state)

@[simp] theorem commit_detached (w : Wallet) (o : LedgerOp) :
    (w.commit o).detached = w.detached := by
  cases o <;> rfl

theorem samePayout_interrupt {o : CdkOp} (h : w.interrupt makes o w' notes) :
    SamePayout w w' := by
  obtain ⟨c', rfl, -⟩ := h
  exact ⟨rfl, rfl, rfl⟩

theorem exec_detached {o : WalletOp} {r : WalletSig.Res o}
    (h : w.exec makes call time serving o r w' notes) : w'.detached = w.detached := by
  cases o with
  | session o => exact (session_frame h.1).2.2.2
  | ledger o => rcases transact_cases h.1 with rfl | rfl | ⟨id, rfl, -, rfl⟩ <;> simp
  | cdk o => exact (cdk_frame h).2

/-- A quiet operation leaves the lock and the journal alone. -/
theorem exec_quiet {o : WalletOp} (hq : o.quiet = true) {r : WalletSig.Res o}
    (h : w.exec makes call time serving o r w' notes) : SamePayout w w' := by
  cases o with
  | session o =>
    cases o
    case «open» => rcases h.1 with ⟨-, rfl⟩ | ⟨-, -, rfl⟩ <;> exact ⟨rfl, rfl, rfl⟩
    case needsRecovery => obtain ⟨⟨rfl, -⟩, -⟩ := h; exact .refl _
    case depositCursor => obtain ⟨⟨rfl, -⟩, -⟩ := h; exact .refl _
    case now => obtain ⟨⟨rfl, -⟩, -⟩ := h; exact .refl _
    case setNeedsRecovery value => obtain rfl := (h.1 : w' = _); exact ⟨rfl, rfl, rfl⟩
    case setDepositCursor id => obtain rfl := (h.1 : w' = _); exact ⟨rfl, rfl, rfl⟩
    all_goals exact absurd hq (by simp [WalletOp.quiet])
  | ledger o =>
    have hne : ∀ state, o ≠ .savePayout state := by
      rintro state rfl
      exact absurd hq (by simp [WalletOp.quiet])
    rcases transact_cases h.1 with rfl | rfl | ⟨id, rfl, -, rfl⟩
    · exact .refl _
    · exact samePayout_commit hne
    · exact ⟨rfl, Ledger.payout_claim, rfl⟩
  | cdk o =>
    cases r with
    | error e => exact samePayout_interrupt h
    | ok r =>
      obtain ⟨c', ⟨rfl, -⟩ | ⟨amount, quote, -, rfl, -⟩⟩ := exec_cdk_cases h
      · refine ⟨rfl, rfl, ?_⟩
        cases o
        case confirm => exact absurd hq (by simp [WalletOp.quiet])
        case getSaga => exact absurd hq (by simp [WalletOp.quiet])
        all_goals rfl
      · exact ⟨rfl, rfl, rfl⟩

/-! ### Permitted operations -/

/-- What an operation needs of the wallet. -/
def Permits (X : Crates) (w : Wallet) (call : ℕ) : WalletOp → Prop
  | .ledger (.savePayout state) => w.lock = some call ∧ Journalled X w.unresolved (some state)
  | .session (.confirming send) => w.lock = some call ∧ w.unresolved = [] ∧
      ∃ state, w.ledger.payout = some state ∧
        state.pending = some (X.operationText send.operationId)
  | .cdk (.preparePayRequest _ _) => w.lock = some call ∧ w.unresolved = []
  | .cdk (.confirm operation) => w.lock = some call ∧ w.unresolved = [operation]
  | .cdk (.getSaga _) => w.lock = some call
  | _ => True

theorem permits_of_quiet {o : WalletOp} (h : o.quiet = true) : w.Permits X call o := by
  unfold Permits
  split <;> trivial

/-- The journal is in order, and no payout state is saved by a transaction left behind. -/
structure Sound (X : Crates) (w : Wallet) : Prop where
  journalled : Journalled X w.unresolved w.ledger.payout
  detached : ∀ state, .savePayout state ∉ w.detached

theorem Sound.of_same (h : w.Sound X) (hs : SamePayout w w') (hd : w'.detached = w.detached) :
    w'.Sound X :=
  ⟨by rw [hs.unresolved, hs.payout]; exact h.journalled, by rw [hd]; exact h.detached⟩

/-- How an operation can change the lock. -/
def LockStep (call : ℕ) (serving : Bool) (w w' : Wallet) : Prop :=
  w'.lock = w.lock ∨ w.lock = none ∧ w'.lock = some call ∧ serving = true ∨
    w.lock = some call ∧ w'.lock = none

/-- What a permitted operation of `call` does to a wallet. -/
structure Kept (X : Crates) (call : ℕ) (serving : Bool) (w w' : Wallet) : Prop where
  sound : w'.Sound X
  other : ∀ j, j ≠ call → w.lock = some j → SamePayout w w'
  lock : LockStep call serving w w'

theorem Kept.of_same (h : w.Sound X) (hs : SamePayout w w') (hd : w'.detached = w.detached) :
    Kept X call serving w w' := ⟨h.of_same hs hd, fun _ _ _ => hs, .inl hs.lock⟩

/-- Changes to the journal by the one who holds the lock. -/
theorem Kept.of_held (hl : w.lock = some call) (hl' : w'.lock = w.lock) (h : w'.Sound X) :
    Kept X call serving w w' := by
  refine ⟨h, fun j hj hlj => ?_, .inl hl'⟩
  rw [hl] at hlj
  exact absurd (Option.some.inj hlj).symm hj

theorem Kept.savePayout {state : PayoutState} (h : w.Sound X)
    (hp : w.Permits X call (.ledger (.savePayout state))) :
    Kept X call serving w (w.commit (.savePayout state)) :=
  .of_held hp.1 rfl ⟨hp.2, h.detached⟩

theorem sound_unlock (h : w.Sound X) (call : ℕ) :
    (w.unlock call).Sound X ∧ ((w.unlock call) = w ∨
      w.lock = some call ∧ (w.unlock call).lock = none) := by
  unfold unlock
  split
  · rename_i hl
    exact ⟨⟨h.journalled, h.detached⟩, .inr ⟨hl, rfl⟩⟩
  · exact ⟨h, .inl rfl⟩

theorem Kept.unlock (h : w.Sound X) : Kept X call serving w (w.unlock call) := by
  obtain ⟨hs, heq | ⟨hl, hl'⟩⟩ := sound_unlock h call
  · rw [heq]; exact .of_same h (.refl w) rfl
  · refine ⟨hs, fun j hj hlj => ?_, .inr (.inr ⟨hl, hl'⟩)⟩
    rw [hl] at hlj
    exact absurd (Option.some.inj hlj).symm hj

/-- One permitted operation. -/
theorem Sound.exec (h : w.Sound X) {o : WalletOp} (hp : w.Permits X call o) {r : WalletSig.Res o}
    (he : w.exec makes call time serving o r w' notes) : Kept X call serving w w' := by
  by_cases hq : o.quiet = true
  · exact .of_same h (exec_quiet hq he) (exec_detached he)
  have hd := exec_detached he
  cases o with
  | session o =>
    cases o
    case tryLock =>
      rcases he.1 with ⟨-, hserving, hl, rfl⟩ | ⟨-, -, rfl⟩
      · refine ⟨⟨h.journalled, h.detached⟩, fun j _ hlj => ?_, .inr (.inl ⟨hl, rfl, hserving⟩)⟩
        rw [hl] at hlj
        exact absurd hlj (by simp)
      · exact .of_same h (.refl _) rfl
    case unlock => obtain rfl : w' = w.unlock call := he.1; exact .unlock h
    case confirming send =>
      obtain rfl := (he.1 : w' = _)
      obtain ⟨hl, hu, state, hstate, hpending⟩ := hp
      refine .of_held hl rfl ⟨.inr ⟨send.operationId, state, ?_, hstate, hpending⟩, h.detached⟩
      simp only [hu]
    all_goals exact absurd rfl hq
  | ledger o =>
    cases o
    case savePayout state =>
      rcases transact_cases he.1 with rfl | rfl | ⟨id, hid, -⟩
      · exact .of_same h (.refl _) rfl
      · exact .savePayout h hp
      · cases hid
    all_goals exact absurd rfl hq
  | cdk o =>
    cases r with
    | error e => exact .of_same h (samePayout_interrupt he) hd
    | ok r =>
      cases o
      case preparePayRequest request amount =>
        obtain ⟨c', -, -, rfl, -⟩ := he
        exact .of_same h ⟨rfl, rfl, rfl⟩ rfl
      case confirm operation =>
        obtain ⟨c', -, -, rfl, -⟩ := he
        exact .of_held hp.1 rfl ⟨h.journalled.filter _, h.detached⟩
      case getSaga operation =>
        obtain ⟨c', -, -, rfl, -⟩ := he
        refine .of_held hp rfl ⟨?_, h.detached⟩
        cases r with
        | true => exact h.journalled
        | false => exact h.journalled.filter _
      all_goals exact absurd rfl hq

/-- A permitted operation that is cut short. -/
theorem Sound.cut (h : w.Sound X) {o : WalletOp} (hp : w.Permits X call o)
    (hc : w.cut makes o w' notes) : Kept X call serving w w' := by
  cases o with
  | session o => obtain ⟨rfl, -⟩ := hc; exact .of_same h (.refl _) rfl
  | cdk o =>
    exact .of_same h (samePayout_interrupt hc) (interrupt_frame hc).2
  | ledger o =>
    by_cases hs : ∃ state, o = .savePayout state
    · obtain ⟨state, rfl⟩ := hs
      rcases hc.1 with rfl | rfl
      · exact .of_same h (.refl _) rfl
      · exact .savePayout h hp
    · -- the other transactions may be left behind
      have hne : ∀ state, o ≠ .savePayout state := fun state heq => hs ⟨state, heq⟩
      have hcases : w' = w ∨ w' = w.commit o ∨ w' = { w with detached := o :: w.detached } := by
        cases o with
        | savePayout state => exact absurd rfl (hne state)
        | reserve id site price => exact hc.1
        | claim id => exact hc.1
        | payout => exact hc.1
      rcases hcases with rfl | rfl | rfl
      · exact .of_same h (.refl _) rfl
      · exact .of_same h (samePayout_commit hne) (commit_detached w o)
      · refine ⟨⟨h.journalled, fun state hmem => ?_⟩, fun _ _ _ => ⟨rfl, rfl, rfl⟩, .inl rfl⟩
        rcases List.mem_cons.mp hmem with heq | hmem
        · exact hne state heq.symm
        · exact h.detached state hmem

/-- A transaction left behind leaves the journal alone. -/
theorem Sound.settle (h : w.Sound X) (hs : w.settle w') : w'.Sound X ∧ SamePayout w w' := by
  obtain ⟨o, ho, rfl⟩ := hs
  have hne : ∀ state, o ≠ .savePayout state := by
    rintro state rfl
    exact h.detached state ho
  have hsame := samePayout_commit (w := w) hne
  refine ⟨⟨?_, fun state hmem => h.detached state (List.mem_of_mem_erase hmem)⟩,
    ⟨hsame.lock, hsame.payout, hsame.unresolved⟩⟩
  show Journalled X (w.commit o).unresolved (w.commit o).ledger.payout
  rw [hsame.unresolved, hsame.payout]
  exact h.journalled

theorem Sound.restart (h : w.Sound X) : w.restart.Sound X :=
  ⟨h.journalled, fun _ hmem => absurd hmem List.not_mem_nil⟩

end Wallet

end Geata.Payments
