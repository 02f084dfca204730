import Geata.Payments.Wallet

namespace Geata.Payments

open Geata.Lib

/-!
# What a step can change in a wallet

One inversion lemma for each kind of operation: the session operations leave the stores alone, a
ledger transaction changes the ledger, a CDK call changes CDK's store.

* `Wallet.Grows` — what no step takes back: the bindings and claims of the ledger, completed
  transactions, and who was admitted.
* `Wallet.Booked` — an admitted token is a claimed one.
-/

namespace Wallet

variable {w w' : Wallet} {makes : MintQuote → Prop} {call time : ℕ} {serving : Bool}
  {notes : List Note}

theorem session_frame {o : SessionOp} {r : o.Res} (h : w.session call time serving o r w') :
    w'.ledger = w.ledger ∧ w'.cdk = w.cdk ∧ w'.admitted = w.admitted ∧
      w'.detached = w.detached := by
  cases o with
  | tryLock => rcases h with ⟨-, -, -, rfl⟩ | ⟨-, -, rfl⟩ <;> simp
  | unlock => obtain rfl : w' = w.unlock call := h; unfold unlock; split <;> simp
  | «open» => rcases h with ⟨-, rfl⟩ | ⟨-, -, rfl⟩ <;> simp
  | needsRecovery => obtain ⟨rfl, -⟩ := h; simp
  | setNeedsRecovery value => obtain rfl := (h : w' = _); simp
  | depositCursor => obtain ⟨rfl, -⟩ := h; simp
  | setDepositCursor id => obtain rfl := (h : w' = _); simp
  | now => obtain ⟨rfl, -⟩ := h; simp
  | confirming send => obtain rfl := (h : w' = _); simp

/-- A transaction is committed or not; only a successful claim also records its call. -/
theorem transact_cases {o : LedgerOp} {r : Option o.Answer} (h : w.transact call o r w') :
    w' = w ∨ w' = w.commit o ∨ ∃ id, o = .claim id ∧ (w.ledger.claim id).1 = true ∧
      w' = { w.commit (.claim id) with admitted := w.admitted.insert id call } := by
  cases o with
  | reserve id site price =>
    cases r with
    | none => exact h.imp_right .inl
    | some r => exact .inr (.inl h.2)
  | claim id =>
    cases r with
    | none => exact h.imp_right .inl
    | some claimed =>
      obtain ⟨hc, rfl⟩ := h
      cases claimed with
      | true => exact .inr (.inr ⟨id, rfl, hc.symm, rfl⟩)
      | false => exact .inr (.inl rfl)
  | payout =>
    cases r with
    | none => exact h.imp_right .inl
    | some state => exact .inl h.2
  | savePayout state =>
    cases r with
    | none => exact h.imp_right .inl
    | some u => exact .inr (.inl h)

/-- A CDK call that does not complete changes CDK's store only, where the mint may have made a
    quote. -/
theorem interrupt_cases {o : CdkOp} (h : w.interrupt makes o w' notes) :
    ∃ c', w' = { w with cdk := c' } ∧
      (w.cdk.Evolves c' ∧ (notes = o.begun ∨ (∃ amount, o = .mintQuote amount) ∧ notes = [.asked]) ∨
        ∃ amount quote, o = .mintQuote amount ∧ makes quote ∧ (w.cdk.addQuote quote).Evolves c' ∧
          notes = [.quoted quote, .asked]) := by
  obtain ⟨c', hw, h⟩ := h
  refine ⟨c', hw, ?_⟩
  cases o
  case mintQuote amount =>
    rcases h with ⟨he, hn⟩ | ⟨quote, hm, he, hn⟩
    · exact .inl ⟨he, .inr ⟨⟨amount, rfl⟩, hn⟩⟩
    · exact .inr ⟨amount, quote, rfl, hm, he, hn⟩
  all_goals exact .inl ⟨h.1, .inl h.2⟩

/-- A completed CDK call. -/
theorem exec_cdk_cases {o : CdkOp} {r : o.Answer}
    (h : w.exec makes call time serving (.cdk o) (.ok r) w' notes) :
    ∃ c', (w' = { w with cdk := c', unresolved := o.resolve w.unresolved r } ∧
        w.cdk.Evolves c' ∧ c'.answers o r ∧ notes = o.notes time r) ∨
      ∃ amount quote, (⟨o, r⟩ : (o : CdkOp) × o.Answer) = ⟨.mintQuote amount, quote⟩ ∧
        w' = { w with cdk := c' } ∧ makes quote ∧ (w.cdk.addQuote quote).Evolves c' ∧
        notes = [.quoted quote, .asked] := by
  cases o
  case mintQuote amount =>
    obtain ⟨c', hw, hm, he, hn⟩ := h
    exact ⟨c', .inr ⟨amount, r, rfl, hw, hm, he, hn⟩⟩
  all_goals
    obtain ⟨c', he, ha, hw, hn⟩ := h
    exact ⟨c', .inl ⟨hw, he, ha, hn⟩⟩

theorem interrupt_frame {o : CdkOp} (h : w.interrupt makes o w' notes) :
    w'.ledger = w.ledger ∧ w'.detached = w.detached := by
  obtain ⟨c', rfl, -⟩ := h
  exact ⟨rfl, rfl⟩

/-- A CDK call leaves the ledger and its transactions alone. -/
theorem cdk_frame {o : CdkOp} {r : Except CdkError o.Answer}
    (h : w.exec makes call time serving (.cdk o) r w' notes) :
    w'.ledger = w.ledger ∧ w'.detached = w.detached := by
  cases r with
  | error e => exact interrupt_frame h
  | ok r =>
    obtain ⟨c', ⟨rfl, -⟩ | ⟨amount, quote, -, rfl, -⟩⟩ := exec_cdk_cases h <;> exact ⟨rfl, rfl⟩

@[simp] theorem unlock_ledger (w : Wallet) (call : ℕ) : (w.unlock call).ledger = w.ledger := by
  unfold unlock; split <;> rfl

@[simp] theorem unlock_detached (w : Wallet) (call : ℕ) :
    (w.unlock call).detached = w.detached := by
  unfold unlock; split <;> rfl

/-! ### What no step takes back -/

structure Grows (w w' : Wallet) : Prop where
  ledger : w.ledger.Extends w'.ledger
  completed : ∀ t ∈ w.cdk.transactions, t.status = .completed → t ∈ w'.cdk.transactions
  admitted : ∀ id call, w.admitted.lookup id = some call → w'.admitted.lookup id = some call

theorem Grows.refl (w : Wallet) : w.Grows w := ⟨.refl _, fun _ h _ => h, fun _ _ h => h⟩

theorem Grows.trans {w₁ w₂ w₃ : Wallet} (h : w₁.Grows w₂) (h' : w₂.Grows w₃) : w₁.Grows w₃ :=
  ⟨h.ledger.trans h'.ledger, fun t ht hc => h'.completed t (h.completed t ht hc) hc,
    fun id c hid => h'.admitted id c (h.admitted id c hid)⟩

/-- Every admission is that of a claimed token. -/
def Booked (w : Wallet) : Prop :=
  ∀ id call, w.admitted.lookup id = some call →
    ∃ p, w.ledger.payments.lookup id = some p ∧ p.claimed = true

/-- Only the ledger, CDK's transactions and the admissions matter. -/
theorem Grows.of_eq (hl : w'.ledger = w.ledger) (hc : w'.cdk.transactions = w.cdk.transactions)
    (ha : w'.admitted = w.admitted) : w.Grows w' :=
  ⟨by rw [hl]; exact .refl _, by rw [hc]; exact fun _ h _ => h, by rw [ha]; exact fun _ _ h => h⟩

theorem Booked.of_eq (h : w.Booked) (hl : w'.ledger = w.ledger) (ha : w'.admitted = w.admitted) :
    w'.Booked := by
  intro id c hid
  rw [ha] at hid
  rw [hl]
  exact h id c hid

/-- A bigger ledger still has the claims of the admissions. -/
theorem Booked.extend (h : w.Booked) (hl : w.ledger.Extends w'.ledger)
    (ha : w'.admitted = w.admitted) : w'.Booked := by
  intro id c hid
  rw [ha] at hid
  obtain ⟨p, hp, hc⟩ := h id c hid
  obtain ⟨p', hp', -, -, hc'⟩ := hl id p hp
  exact ⟨p', hp', hc' hc⟩

@[simp] theorem commit_cdk (w : Wallet) (o : LedgerOp) : (w.commit o).cdk = w.cdk := by
  cases o <;> rfl

@[simp] theorem commit_admitted (w : Wallet) (o : LedgerOp) :
    (w.commit o).admitted = w.admitted := by
  cases o <;> rfl

theorem commit_extends (w : Wallet) (o : LedgerOp) : w.ledger.Extends (w.commit o).ledger := by
  cases o with
  | reserve id site price => exact Ledger.reserve_extends
  | claim id => exact Ledger.claim_extends
  | payout => exact .refl _
  | savePayout state => exact .refl w.ledger

theorem grows_commit (w : Wallet) (o : LedgerOp) : w.Grows (w.commit o) :=
  ⟨commit_extends w o, fun t ht _ => by rw [commit_cdk]; exact ht, fun id c h => by simpa using h⟩

theorem Booked.commit (h : w.Booked) (o : LedgerOp) : (w.commit o).Booked :=
  h.extend (commit_extends w o) (commit_admitted w o)

/-- The call that claims a token is recorded, and nobody was before. -/
theorem Booked.claim (h : w.Booked) {id : String} (hc : (w.ledger.claim id).1 = true) :
    w.Grows { w.commit (.claim id) with admitted := w.admitted.insert id call } ∧
      Booked { w.commit (.claim id) with admitted := w.admitted.insert id call } := by
  rcases Ledger.claim_cases w.ledger id with ⟨p, hp, hpc, he⟩ | he
  · have hrow : (w.commit (.claim id)).ledger.payments.lookup id = some { p with claimed := true } := by
      show (w.ledger.claim id).2.payments.lookup id = _
      rw [he, Table.lookup_insert_eq, if_pos rfl]
    refine ⟨⟨commit_extends w _, (grows_commit w _).completed, fun id' c hid => ?_⟩,
      fun id' c hid => ?_⟩
    · have hne : id' ≠ id := by
        rintro rfl
        obtain ⟨p', hp', hc'⟩ := h _ c hid
        obtain rfl := Option.some.inj (hp.symm.trans hp')
        rw [hpc] at hc'
        exact absurd hc' (by simp)
      show (w.admitted.insert id call).lookup id' = _
      rw [Table.lookup_insert_eq, if_neg hne]
      exact hid
    · by_cases hne : id' = id
      · subst hne; exact ⟨_, hrow, rfl⟩
      · refine (h.commit (.claim id)) id' c ?_
        rw [commit_admitted]
        have hid : (w.admitted.insert id call).lookup id' = some c := hid
        rw [Table.lookup_insert_eq, if_neg hne] at hid
        exact hid
  · rw [he] at hc
    exact absurd hc (by simp)

/-- A CDK call leaves the ledger and the admissions alone. -/
theorem Booked.cdk (h : w.Booked) {c' : Cdk} {u : List OperationId}
    (hc : ∀ t ∈ w.cdk.transactions, t.status = .completed → t ∈ c'.transactions) :
    w.Grows { w with cdk := c', unresolved := u } ∧ Booked { w with cdk := c', unresolved := u } :=
  ⟨⟨.refl _, hc, fun _ _ h => h⟩, h.of_eq rfl rfl⟩

theorem Booked.interrupt (h : w.Booked) {o : CdkOp} (hi : w.interrupt makes o w' notes) :
    w.Grows w' ∧ w'.Booked := by
  obtain ⟨c', rfl, ⟨hev, -⟩ | ⟨amount, quote, -, -, hev, -⟩⟩ := interrupt_cases hi
  · exact h.cdk (u := w.unresolved) hev.completed
  · exact h.cdk (u := w.unresolved) hev.completed

/-- One operation keeps the books. -/
theorem Booked.exec (h : w.Booked) {o : WalletOp} {r : WalletSig.Res o}
    (he : w.exec makes call time serving o r w' notes) : w.Grows w' ∧ w'.Booked := by
  cases o with
  | session o =>
    obtain ⟨hl, hc, ha, -⟩ := session_frame he.1
    exact ⟨.of_eq hl (by rw [hc]) ha, h.of_eq hl ha⟩
  | ledger o =>
    rcases transact_cases he.1 with rfl | rfl | ⟨id, rfl, hc, rfl⟩
    · exact ⟨.refl _, h⟩
    · exact ⟨grows_commit w o, h.commit o⟩
    · exact h.claim hc
  | cdk o =>
    cases r with
    | error e => exact h.interrupt he
    | ok r =>
      obtain ⟨c', ⟨rfl, hev, -, -⟩ | ⟨amount, quote, -, rfl, -, hev, -⟩⟩ := exec_cdk_cases he
      · exact h.cdk hev.completed
      · exact h.cdk (u := w.unresolved) hev.completed

/-- A dropped operation keeps the books. -/
theorem Booked.cut (h : w.Booked) {o : WalletOp} (hc : w.cut makes o w' notes) :
    w.Grows w' ∧ w'.Booked := by
  have hledger : ∀ o, w' = w ∨ w' = w.commit o ∨ w' = { w with detached := o :: w.detached } →
      w.Grows w' ∧ w'.Booked := by
    rintro o (rfl | rfl | rfl)
    · exact ⟨.refl _, h⟩
    · exact ⟨grows_commit w o, h.commit o⟩
    · exact ⟨.of_eq rfl rfl rfl, h.of_eq rfl rfl⟩
  cases o with
  | session o =>
    obtain ⟨rfl, -⟩ := hc
    exact ⟨.refl _, h⟩
  | ledger o =>
    cases o with
    | savePayout state => exact hledger _ (hc.1.imp_right .inl)
    | reserve id site price => exact hledger _ hc.1
    | claim id => exact hledger _ hc.1
    | payout => exact hledger _ hc.1
  | cdk o => exact h.interrupt hc

/-- A transaction left behind keeps the books. -/
theorem Booked.settle (h : w.Booked) (hs : w.settle w') : w.Grows w' ∧ w'.Booked := by
  obtain ⟨o, -, rfl⟩ := hs
  exact ⟨(grows_commit w o).trans (.of_eq rfl rfl rfl), (h.commit o).of_eq rfl rfl⟩

theorem Booked.unlock (h : w.Booked) (call : ℕ) :
    w.Grows (w.unlock call) ∧ (w.unlock call).Booked := by
  unfold Wallet.unlock
  split
  · exact ⟨.of_eq rfl rfl rfl, h.of_eq rfl rfl⟩
  · exact ⟨.refl _, h⟩

theorem Booked.restart (h : w.Booked) : w.Grows w.restart ∧ w.restart.Booked :=
  ⟨.of_eq rfl rfl rfl, h.of_eq rfl rfl⟩

end Wallet

end Geata.Payments
