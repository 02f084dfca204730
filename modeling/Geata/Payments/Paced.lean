import Geata.Payments.Pacing
import Geata.Payments.Uses

namespace Geata.Payments

open Geata.Lib

/-!
# Paced payouts

The payout programs keep the pace: each saves only what may be saved, and begins a send only when it
is due.

* `Pacing.triple_sendRequest` — the send itself, for every user of the journal.
* `Pacing.triple_code` — each of the three programs.
* `payouts_paced` — **the run theorem**: the stored attempt time is never put forward, and the sends
  of automatic payouts are due and at least a cooldown apart.
-/

/-- Operations that leave the payout state and the record alone. -/
def WalletOp.unpaced : WalletOp → Bool
  | .session .now | .session (.setNeedsRecovery true) | .ledger (.savePayout _)
  | .cdk (.confirm _) | .cdk (.getSaga _) | .cdk .totalBalance => false
  | _ => true

namespace Pacing

variable {job : Job} {makes : MintQuote → Prop} {call : ℕ} {s s' : Pacing} {X : Crates}
  {policy : PayoutPolicy} {state : PayoutState} {P : Pacing → Prop} {ε α : Type} {now balance : ℕ}

/-! ### Operations that the record does not show -/

theorem needs_of_unpaced {o : WalletOp} (ho : o.unpaced = true) : Needs job o s := by
  unfold Needs
  split
  · exact absurd ho Bool.false_ne_true
  · exact absurd ho Bool.false_ne_true
  · exact absurd ho Bool.false_ne_true
  · exact absurd ho Bool.false_ne_true
  · trivial

/-- To the record such an operation is a pause. -/
theorem idle_of_unpaced (h : Paced s) {o : WalletOp} (ho : o.unpaced = true) {r : WalletSig.Res o}
    (he : (effects job makes).exec call s o r s') : Idle s s' := by
  obtain ⟨w, notes, he, rfl⟩ := he
  have hsave : ∀ state, o ≠ .ledger (.savePayout state) := by
    rintro state rfl
    exact absurd ho Bool.false_ne_true
  refine ⟨le_refl _, h.bound, Wallet.exec_payout hsave he, ?_, ?_, ?_, ?_⟩
  · show s.reading o r = s.read
    unfold reading
    split
    · exact absurd ho Bool.false_ne_true
    · rfl
  · show s.counted o r = s.balance
    unfold counted
    split
    · exact absurd ho Bool.false_ne_true
    · rfl
  · show s.mark job w o (some r) = s.marks
    rcases mark_cases job s w o (some r) with hm | ⟨state, rfl⟩ | ⟨-, ⟨id, rfl⟩ | ⟨id, rfl⟩⟩
    · exact hm
    · exact absurd rfl (hsave state)
    · exact absurd ho Bool.false_ne_true
    · exact absurd ho Bool.false_ne_true
  · show s.begin job o = s.begun
    rcases begin_cases job s o with hb | ⟨rfl, -⟩
    · exact hb
    · exact absurd ho Bool.false_ne_true

/-- A stage of such operations keeps what time keeps. -/
theorem triple_unpaced (hP : (pacingLogic job makes).Stable call P) {t : Stage WalletSig ε α}
    (ht : t.All (fun o : WalletOp => o.unpaced = true)) :
    Stage.Triple (pacingLogic job makes) call P t (fun _ => P) := by
  refine Stage.triple_keep hP (Prog.All.mono ht (fun o ho s hi hs => ?_))
  exact ⟨needs_of_unpaced ho, fun r s' he => hP s s' (idle_of_unpaced hi ho he) hs⟩

/-- Reading the clock. -/
theorem triple_now {Q : ℕ → Pacing → Prop} (hP : (pacingLogic job makes).Stable call P)
    (hQ : ∀ s, Paced s → P s → Q s.clock { s with read := s.clock }) :
    Stage.Triple (α := no_index ℕ) (pacingLogic job makes) call P
      (session .now : Stage WalletSig ε ℕ) Q := by
  refine Stage.triple_perform hP (fun _ _ _ => trivial) (fun r s s' hi hs he _ => ?_)
  obtain ⟨w, notes, ⟨⟨rfl, rfl⟩, -⟩, rfl⟩ := he
  exact hQ s hi hs

/-- Reading the payout state. -/
theorem triple_payout {e : ε} (hP : (pacingLogic job makes).Stable call P) :
    Stage.Triple (pacingLogic job makes) call P (ledger e .payout)
      (fun stored s => s.wallet.ledger.payout = stored ∧ P s) := by
  refine triple_ledger hP (fun _ _ _ => trivial) (fun stored s s' hi hs he _ => ?_)
  have hidle := idle_of_unpaced hi rfl he
  obtain ⟨w, notes, ⟨⟨rfl, rfl⟩, -⟩, rfl⟩ := he
  exact ⟨rfl, hP _ _ hidle hs⟩

/-- Saving a payout state, with what is still known afterwards. -/
theorem triple_savePayout {e : ε} {Q : Pacing → Prop}
    (hP : (pacingLogic job makes).Stable call P)
    (hsaves : ∀ s, Paced s → P s → Needs job (.ledger (.savePayout state)) s)
    (hQ : ∀ s s', P s → s'.wallet.ledger.payout = some state → s'.read = s.read →
      s'.balance = s.balance → s'.begun = s.begun → Q s') :
    Stage.Triple (pacingLogic job makes) call P (ledger e (.savePayout state)) (fun _ => Q) := by
  refine triple_ledger hP hsaves (fun _ s s' _ hs he _ => ?_)
  obtain ⟨w, notes, ⟨rfl, -⟩, rfl⟩ := he
  exact hQ s _ hs rfl rfl rfl rfl

/-! ### Sending -/

/-- A payout state in memory that may take the place of the stored one, were it not for its last
    payment. -/
structure Carries (state : PayoutState) (s : Pacing) : Prop where
  later : ∀ old, s.wallet.ledger.payout = some old → old.retryAt ≤ state.retryAt
  retry : state.retryAt ≤ saturatingAddI64 s.clock 60

theorem carries_stable : (pacingLogic job makes).Stable call (Carries state) := by
  intro s s' hi h
  have hidle : Idle s s' := hi
  refine ⟨by rw [hidle.payout]; exact h.later, h.retry.trans ?_⟩
  exact saturatingAddI64_mono (by have := hidle.clock; omega) 60

/-- A state that was stored may be stored again. -/
theorem carries_of_stored (h : Paced s) (hstate : s.wallet.ledger.payout = some state) :
    Carries state s := by
  refine ⟨fun old hold => ?_, h.retry state hstate⟩
  obtain rfl := Option.some.inj (hstate.symm.trans hold)
  exact le_refl _

/-- The state that a program goes on with when nothing is stored. -/
theorem carries_getD (h : Paced s) : Carries (s.wallet.ledger.payout.getD {}) s := by
  cases hp : s.wallet.ledger.payout with
  | some state => exact carries_of_stored h hp
  | none =>
    refine ⟨fun old hold => ?_, saturatingAddI64_nonneg s.clock⟩
    rw [hp] at hold
    exact absurd hold (by simp)

/-- `state` is stored. -/
def Stored (state : PayoutState) (s : Pacing) : Prop := s.wallet.ledger.payout = some state

theorem stored_stable : (pacingLogic job makes).Stable call (Stored state) :=
  fun _ _ hi h => (Idle.payout hi).trans h

/-- `state` is stored, and the marks lie before the clock reading `now`. -/
structure Stamped (state : PayoutState) (now : ℕ) (s : Pacing) : Prop where
  stored : s.wallet.ledger.payout = some state
  read : s.read = now
  retry : state.retryAt ≤ saturatingAddI64 now 60
  marked : s.marks ≠ []
  marks : ∀ m ∈ s.marks, m ≤ now

theorem stamped_stable : (pacingLogic job makes).Stable call (Stamped state now) := by
  intro s s' hi h
  have hidle : Idle s s' := hi
  exact ⟨hidle.payout.trans h.stored, hidle.read.trans h.read, h.retry,
    by rw [hidle.marks]; exact h.marked, by rw [hidle.marks]; exact h.marks⟩

/-- The clock is read after a delivery or a resolution. -/
theorem triple_stamp :
    Stage.Triple (α := no_index ℕ) (pacingLogic job makes) call
      (fun s => Stored state s ∧ s.marks ≠ []) (session .now : Stage WalletSig ε ℕ)
      (Stamped state) := by
  refine triple_now (fun s s' hi h => ⟨stored_stable s s' hi h.1, ?_⟩) (fun s hi h => ?_)
  · rw [Idle.marks hi]; exact h.2
  · exact ⟨h.1, rfl, hi.retry state h.1, h.2, hi.marks⟩

/-- A state with the clock reading as its last payment may be saved. -/
theorem needs_save_of_stamped {state' : PayoutState} (hi : Paced s) (h : Stamped state now s)
    (hlater : state.retryAt ≤ state'.retryAt) (hretry : state'.retryAt ≤ saturatingAddI64 now 60)
    (hpaid : state'.lastPaid = now) : Needs job (.ledger (.savePayout state')) s := by
  have hsome : s.wallet.ledger.payout.isNone = false := by rw [h.stored]; rfl
  refine ⟨fun old hold => ?_, hretry.trans (saturatingAddI64_mono ?_ 60), fun _ => ?_⟩
  · obtain rfl := Option.some.inj (h.stored.symm.trans hold)
    exact hlater
  · have := hi.read
    rw [h.read] at this
    omega
  · rw [hsome, Bool.and_false, if_neg Bool.false_ne_true, hpaid]
    exact ⟨h.marked, fun m hm => by have := h.marks m hm; omega⟩

theorem triple_abandonSend {send : PreparedPayRequest} {Q : Unit → Pacing → Prop} :
    Stage.Triple (pacingLogic job makes) call (Carries state) (abandonSend send) Q := by
  unfold abandonSend
  refine Stage.triple_bind (triple_unpaced carries_stable (all_cdk.mpr rfl)) (fun _ => ?_)
  exact Stage.triple_bind (triple_unpaced carries_stable (all_session.mpr rfl))
    (fun _ => Stage.triple_throw)

/-- A pending send may always be journalled. -/
theorem triple_journalSend {send : PreparedPayRequest} (hpending : state.pending ≠ none) :
    Stage.Triple (pacingLogic job makes) call (Carries state) (journalSend send state)
      (fun _ => Stored state) := by
  unfold journalSend
  refine Stage.triple_attempt_bind (triple_savePayout (Q := Stored state) carries_stable
    (fun s _ h => ⟨h.later, h.retry, fun hp => absurd hp hpending⟩) (fun _ _ _ hp _ _ _ => hp))
    (fun _ => Stage.triple_pure (fun _ _ h => h)) (fun e => ?_)
  refine Stage.triple_bind (R := fun _ _ => True) (Stage.triple_of_all ?_)
    (fun _ => Stage.triple_throw)
  exact Stage.all_attempt.mpr (all_cdk.mpr (fun _ _ => trivial))

theorem triple_confirmSend {send : PreparedPayRequest} (hpending : state.pending ≠ none) :
    Stage.Triple (pacingLogic job makes) call (Stored state) (confirmSend X send state)
      (fun _ _ => True) := by
  unfold confirmSend
  refine Stage.triple_bind (triple_unpaced stored_stable (all_session.mpr rfl)) (fun _ => ?_)
  -- the delivery is marked when `confirm` returns
  refine Stage.triple_bind (R := fun _ s => Stored state s ∧ s.marks ≠ [])
    (triple_cdk stored_stable (fun s _ h => ⟨state, h, hpending⟩) (fun a s s' _ h he _ => ?_))
    (fun _ => ?_)
  · obtain ⟨w, notes, he, rfl⟩ := he
    obtain ⟨c', -, -, rfl, -⟩ := he
    exact ⟨h, List.cons_ne_nil _ _⟩
  refine Stage.triple_bind triple_stamp (fun time => ?_)
  refine Stage.triple_bind (R := fun _ _ => True) ?_ (fun _ => ?_)
  · refine triple_savePayout stamped_stable (fun s hi h => ?_) (fun _ _ _ _ _ _ _ => trivial)
    exact needs_save_of_stamped hi h (le_refl _) h.retry rfl
  · exact Stage.triple_of_all (all_session.mpr (fun _ _ => trivial))

/-- A send, once its beginning is allowed. -/
theorem triple_sendRequest {request : PaymentRequest} {amount maxTotal : UInt64}
    (hP : (pacingLogic job makes).Stable call P)
    (hbegin : ∀ s, Paced s → P s → Needs job (.session (.setNeedsRecovery true)) s)
    (hcarries : ∀ s, Paced s → P s → Carries state s) :
    Stage.Triple (pacingLogic job makes) call P (sendRequest X request amount maxTotal state)
      (fun _ _ => True) := by
  unfold sendRequest
  refine Stage.triple_perform_bind (R := fun _ => Carries state) hP hbegin
    (fun r s s' hi hs he _ => ?_) (fun _ => ?_)
  · obtain ⟨w, notes, ⟨hw, -⟩, rfl⟩ := he
    obtain rfl := (hw : w = _)
    obtain ⟨hlater, hretry⟩ := hcarries s hi hs
    exact ⟨hlater, hretry⟩
  refine Stage.triple_bind (triple_unpaced carries_stable (all_cdk.mpr rfl)) (fun send => ?_)
  refine Stage.triple_ite (fun _ => triple_abandonSend) (fun _ => ?_)
  refine Stage.triple_bind (Stage.triple_mono (triple_journalSend (Option.some_ne_none _))
    (fun s _ h => ⟨h.later, h.retry⟩) (fun _ _ h => h)) (fun _ => ?_)
  exact triple_confirmSend (Option.some_ne_none _)

/-! ### Automatic payouts -/

/-- The payout state of a wallet, opened at the clock reading `now`. -/
theorem triple_payoutState :
    Stage.Triple (pacingLogic (.automatic policy) makes) call (fun s => s.read = now)
      (payoutState now) (fun state s => Stored state s ∧ s.read = now) := by
  have hread : (pacingLogic (.automatic policy) makes).Stable call (fun s => s.read = now) :=
    fun _ _ hi h => (Idle.read hi).trans h
  have hnone : (pacingLogic (.automatic policy) makes).Stable call
      (fun s => s.wallet.ledger.payout = none ∧ s.read = now) :=
    fun _ _ hi h => ⟨(Idle.payout hi).trans h.1, (Idle.read hi).trans h.2⟩
  unfold payoutState
  refine Stage.triple_bind (triple_payout hread) (fun stored => ?_)
  cases stored with
  | some state => exact Stage.triple_pure (fun _ _ h => h)
  | none =>
    refine Stage.triple_bind
      (R := fun _ s => Stored { lastPaid := now } s ∧ s.read = now)
      (triple_savePayout hnone (fun s hi h => ?_) (fun s s' h hp hr _ _ => ⟨hp, hr.trans h.2⟩))
      (fun _ => Stage.triple_pure (fun _ _ h => h))
    -- the first state is saved on the reading that it was created on
    obtain ⟨hp, hr⟩ := h
    refine ⟨fun old hold => ?_, saturatingAddI64_nonneg s.clock, fun _ => ?_⟩
    · rw [hp] at hold
      exact absurd hold (by simp)
    · rw [if_pos (by rw [hp]; rfl), hi.unopened hp, hr]
      exact ⟨List.cons_ne_nil _ _, fun m hm => by rw [List.mem_singleton.mp hm]⟩

/-- The state a payout was decided on. -/
structure Decided (state : PayoutState) (now balance : ℕ) (s : Pacing) : Prop where
  stored : Stored state s
  read : s.read = now
  balance : s.balance = balance

theorem decided_stable :
    (pacingLogic job makes).Stable call (Decided state now balance) := by
  intro s s' hi h
  have hidle : Idle s s' := hi
  exact ⟨hidle.payout.trans h.stored, hidle.read.trans h.read, hidle.balance.trans h.balance⟩

/-- Every begun send lies a cooldown before the clock reading. -/
def Cool (now : ℕ) (s : Pacing) : Prop := ∀ b ∈ s.begun, saturatingAddI64 b.decided 60 ≤ now

theorem cool_of_stored (h : Paced s) (hstate : Stored state s) (hretry : state.retryAt ≤ now) :
    Cool now s := by
  intro b hb
  obtain ⟨state', hstate', hle⟩ := h.cooled b hb
  obtain rfl := Option.some.inj (hstate.symm.trans hstate')
  exact hle.trans hretry

theorem due_iff (policy : PayoutPolicy) (state : PayoutState) (now : ℤ) (balance : ℕ) :
    policy.due state now balance = true ↔ state.pending = none ∧ state.retryAt ≤ now ∧
      policy.amount.toNat ≤ balance ∧ ((∃ n ∈ policy.threshold, n.toNat ≤ balance) ∨
        ∃ n ∈ policy.interval, saturatingAddI64 state.lastPaid n ≤ now) := by
  simp only [PayoutPolicy.due, Bool.and_eq_true, Bool.or_eq_true, Option.isNone_iff_eq_none,
    decide_eq_true_eq, Option.any_eq_true, Option.mem_def, and_assoc]

/-- A policy that is due on the stored state, up to its attempt time, is due by the record. -/
theorem begun_due (h : Paced s) {retry : ℤ}
    (hdecided : Decided { state with retryAt := retry } now balance s)
    (hdue : policy.due state now balance = true) :
    Begun.Due ⟨policy, s.read, s.balance, s.clock, s.wallet.ledger.payout, s.marks⟩ := by
  obtain ⟨hstored, hread, hbalance⟩ := hdecided
  obtain ⟨hpending, -, hamount, htrigger⟩ := (due_iff policy state now balance).mp hdue
  obtain ⟨hmarked, hmarks⟩ := h.paid _ hstored hpending
  refine ⟨⟨_, hstored, hpending⟩, hbalance ▸ hamount, ?_⟩
  rcases htrigger with ⟨n, hn, hle⟩ | ⟨n, hn, hle⟩
  · exact .inl ⟨n, hn, hbalance ▸ hle⟩
  · refine .inr ⟨n, hn, hmarked, fun m hm => ?_⟩
    calc saturatingAddI64 m n ≤ saturatingAddI64 state.lastPaid n :=
          saturatingAddI64_mono (hmarks m hm) n
      _ ≤ now := hle
      _ = s.read := by rw [hread]

/-- The payment of a policy that is due: the next attempt is put off before anything else. -/
theorem triple_payDue (hdue : policy.due state now balance = true) :
    Stage.Triple (pacingLogic (.automatic policy) makes) call (Decided state now balance)
      (payDue X policy state now) (fun _ _ => True) := by
  obtain ⟨hpending, hretry, -, -⟩ := (due_iff policy state now balance).mp hdue
  unfold payDue
  set state' : PayoutState := { state with retryAt := saturatingAddI64 now 60 }
  have hcool : (pacingLogic (.automatic policy) makes).Stable call (fun s =>
      Decided state now balance s ∧ Cool now s) := fun s s' hi h =>
    ⟨decided_stable s s' hi h.1, by rw [Cool, Idle.begun hi]; exact h.2⟩
  have hcool' : (pacingLogic (.automatic policy) makes).Stable call (fun s =>
      Decided state' now balance s ∧ Cool now s) := fun s s' hi h =>
    ⟨decided_stable s s' hi h.1, by rw [Cool, Idle.begun hi]; exact h.2⟩
  refine Stage.triple_bind (R := fun _ s => Decided state' now balance s ∧ Cool now s)
    (Stage.triple_mono (triple_savePayout hcool (fun s hi h => ?_) ?_)
      (fun s hi h => ⟨h, cool_of_stored hi h.stored hretry⟩) (fun _ _ h => h)) (fun _ => ?_)
  · -- the cooldown is later than the attempt time that has come, and not far ahead
    obtain ⟨⟨hstored, hread, -⟩, -⟩ := h
    have hnow : now ≤ s.clock := hread ▸ hi.read
    have hbound := hi.bound
    have hsome : s.wallet.ledger.payout.isNone = false := by rw [hstored]; rfl
    refine ⟨fun old hold => ?_, saturatingAddI64_mono (by omega) 60, fun hp => ?_⟩
    · obtain rfl := Option.some.inj (hstored.symm.trans hold)
      exact hretry.trans (le_saturatingAddI64 (by omega))
    · rw [hsome, Bool.and_false, if_neg Bool.false_ne_true]
      exact hi.paid state hstored hp
  · intro s s' h hp hr hb hbegun
    exact ⟨⟨hp, hr.trans h.1.read, hb.trans h.1.balance⟩, by rw [Cool, hbegun]; exact h.2⟩
  · refine triple_sendRequest hcool' (fun s hi h => ?_)
      (fun s hi h => carries_of_stored hi h.1.stored)
    rintro policy' ⟨⟩
    refine ⟨?_, ⟨state', h.1.stored, ?_⟩, begun_due hi h.1 hdue⟩
    · rw [h.1.read]; exact h.2
    · rw [h.1.read]

theorem triple_payoutOpen :
    Stage.Triple (pacingLogic (.automatic policy) makes) call (fun _ => True)
      (payoutOpen X policy) (fun _ _ => True) := by
  unfold payoutOpen
  refine Stage.triple_bind (R := fun now s => s.read = now)
    (triple_now (fun _ _ _ _ => trivial) (fun _ _ _ => rfl)) (fun now => ?_)
  refine Stage.triple_bind triple_payoutState (fun state => ?_)
  refine Stage.triple_ite (fun _ => Stage.triple_pure (fun _ _ _ => trivial)) (fun _ => ?_)
  have hstable : (pacingLogic (.automatic policy) makes).Stable call
      (fun s => Stored state s ∧ s.read = now) :=
    fun s s' hi h => ⟨stored_stable s s' hi h.1, (Idle.read hi).trans h.2⟩
  refine Stage.triple_bind (triple_unpaced hstable (all_recover rfl rfl rfl)) (fun _ => ?_)
  refine Stage.triple_bind (R := Decided state now)
    (triple_cdk hstable (fun _ _ _ => trivial) (fun balance s s' _ h he _ => ?_))
    (fun balance => ?_)
  · obtain ⟨w, notes, ⟨c', -, -, rfl, -⟩, rfl⟩ := he
    exact ⟨h.1, h.2, rfl⟩
  · exact Stage.triple_ite triple_payDue (fun _ => Stage.triple_pure (fun _ _ _ => trivial))

theorem triple_automaticPayout :
    Stage.Triple (pacingLogic (.automatic policy) makes) call (fun _ => True)
      (automaticPayout X policy) (fun _ _ => True) := by
  have hstable : (pacingLogic (.automatic policy) makes).Stable call (fun _ => True) :=
    fun _ _ _ _ => trivial
  unfold automaticPayout
  refine Stage.triple_bind (triple_unpaced hstable (all_session.mpr rfl)) (fun locked => ?_)
  refine Stage.triple_ite (fun _ => ?_) (fun _ => Stage.triple_pure (fun _ _ _ => trivial))
  refine Stage.triple_bind (triple_unpaced hstable (all_session.mpr rfl)) (fun opened => ?_)
  exact Stage.triple_stopIf_bind (fun _ => triple_payoutOpen)

/-! ### Payments by hand -/

theorem triple_pay {mint encoded : String} {amount : Option UInt64} {maxTotal : UInt64} :
    Stage.Triple (pacingLogic (.pay mint encoded amount maxTotal) makes) call (fun _ => True)
      (Payments.pay X mint encoded amount maxTotal) (fun _ _ => True) := by
  have hstable : (pacingLogic (.pay mint encoded amount maxTotal) makes).Stable call
      (fun _ => True) := fun _ _ _ _ => trivial
  unfold Payments.pay
  refine Stage.triple_ofExcept_bind (fun b _ => ?_)
  refine Stage.triple_stopIf_bind (fun _ => ?_)
  refine Stage.triple_bind (triple_unpaced hstable (all_session.mpr rfl)) (fun opened => ?_)
  refine Stage.triple_stopIf_bind (fun _ => ?_)
  refine Stage.triple_bind (triple_unpaced hstable (all_recover rfl rfl rfl)) (fun _ => ?_)
  refine Stage.triple_bind (triple_payout hstable) (fun stored => ?_)
  refine Stage.triple_stopIf_bind (fun _ => ?_)
  -- a send by hand is not an automatic one, and carries what is stored
  refine triple_sendRequest (P := fun s => s.wallet.ledger.payout = stored ∧ True)
    (fun s s' hi h => ⟨(Idle.payout hi).trans h.1, trivial⟩) (fun s hi h policy hjob => by cases hjob)
    (fun s hi h => ?_)
  rw [← h.1]
  exact carries_getD hi

/-- Asking for the saga of a pending send, and putting the next attempt off when it is gone. -/
theorem triple_resolvePending {stored : Option PayoutState} :
    Stage.Triple (pacingLogic job makes) call (fun s => s.wallet.ledger.payout = stored)
      (resolvePending X (stored.getD {})) (fun _ _ => True) := by
  unfold resolvePending
  split
  · exact Stage.triple_pure (fun _ _ _ => trivial)
  rename_i pending hpending
  -- only a stored state names a pending send
  obtain ⟨state, rfl⟩ : ∃ state, stored = some state := by
    cases stored with
    | none => simp at hpending
    | some state => exact ⟨state, rfl⟩
  replace hpending : state.pending = some pending := hpending
  refine Stage.triple_ofExcept_bind (fun operation _ => ?_)
  refine Stage.triple_bind (R := fun (found : Bool) s => found = false →
      Stored state s ∧ s.marks ≠ [])
    (triple_cdk stored_stable (fun s _ h => ⟨state, h, by simp [hpending]⟩)
      (fun found s s' _ h he _ => ?_)) (fun found => ?_)
  · obtain ⟨w, notes, ⟨c', -, -, rfl, -⟩, rfl⟩ := he
    rintro rfl
    exact ⟨h, List.cons_ne_nil _ _⟩
  cases found with
  | true => exact Stage.triple_pure (fun _ _ _ => trivial)
  | false =>
    refine Stage.triple_bind (Stage.triple_mono triple_stamp (fun _ _ h => h rfl)
      (fun _ _ h => h)) (fun now => ?_)
    refine Stage.triple_bind (R := fun _ _ => True) ?_
      (fun _ => Stage.triple_pure (fun _ _ _ => trivial))
    refine triple_savePayout stamped_stable (fun s hi h => ?_) (fun _ _ _ _ _ _ _ => trivial)
    exact needs_save_of_stamped hi h h.retry (le_refl _) rfl

theorem triple_pending {reclaim : Option String} :
    Stage.Triple (pacingLogic (.pending reclaim) makes) call (fun _ => True)
      (Payments.pending X reclaim) (fun _ _ => True) := by
  have hstable : (pacingLogic (.pending reclaim) makes).Stable call (fun _ => True) :=
    fun _ _ _ _ => trivial
  have hreclaim : (reclaimSend X reclaim).All (fun o : WalletOp => o.unpaced = true) := by
    unfold reclaimSend
    split
    · exact trivial
    · exact Stage.all_bind.mpr ⟨Stage.all_ofExcept _, fun _ _ _ => all_cdk.mpr rfl⟩
  unfold Payments.pending
  refine Stage.triple_bind (triple_unpaced hstable (all_session.mpr rfl)) (fun opened => ?_)
  refine Stage.triple_stopIf_bind (fun _ => ?_)
  refine Stage.triple_bind (triple_unpaced hstable (all_recover rfl rfl rfl)) (fun _ => ?_)
  refine Stage.triple_bind (triple_unpaced hstable hreclaim) (fun _ => ?_)
  refine Stage.triple_bind (triple_payout hstable) (fun stored => ?_)
  refine Stage.triple_bind (Stage.triple_mono triple_resolvePending (fun _ _ h => h.1)
    (fun _ _ h => h)) (fun state => ?_)
  refine Stage.triple_bind (triple_unpaced hstable (all_cdk.mpr rfl)) (fun sends => ?_)
  exact Stage.triple_pure (fun _ _ _ => trivial)

/-! ### Runs -/

/-- A program that ends after a stage is as safe as the stage. -/
theorem wp_of_triple {t : Stage WalletSig ε α} {Q : α → Pacing → Prop}
    (h : Stage.Triple (pacingLogic job makes) call (fun _ => True) t Q) (hi : Paced s) :
    (pacingLogic job makes).wp call (t.run.bind (fun _ => .ret ())) (fun _ _ => True) s :=
  (Logic.wp_bind t.run _ _ s).mpr (Logic.wp_mono (h s hi trivial) (fun _ _ _ => trivial))

/-- Every step of a run keeps the pace. -/
theorem keeps (X : Crates) (makes : MintQuote → Prop) :
    (turns X makes).Keeps Paced Needs Later where
  refl := Later.refl
  trans _ _ _ := Later.trans
  idle_refl _ h := ⟨le_refl _, h.bound, rfl, rfl, rfl, rfl, rfl⟩
  idle_trans _ _ _ := Idle.trans
  idle _ _ h hi := ⟨h.idle hi, .of_payout (Idle.payout hi)⟩
  exec _ _ _ _ _ _ h hn he := h.exec hn he
  cut _ i _ _ _ h hn hc := Paced.cut h hn (show (effects _ _).cut i _ _ _ from hc)
  code job call s h := by
    cases job with
    | automatic policy => exact wp_of_triple triple_automaticPayout h
    | pay mint encoded amount maxTotal => exact wp_of_triple triple_pay h
    | pending reclaim => exact wp_of_triple triple_pending h

theorem paced_of_fresh (h : Fresh s) : Paced s := by
  obtain ⟨hbound, hpayout, hread, hmarks, hbegun⟩ := h
  refine ⟨hbound, ?_, ?_, ?_, ?_, ?_, ?_, ?_, ?_, ?_⟩ <;> simp [hpayout, hread, hmarks, hbegun]

end Pacing

/-- In every run of the payout programs of a wallet, dropped or not, the stored attempt time is never
    put forward; and the sends of automatic payouts are decided a cooldown apart, without a pending
    send, on enough balance, and at the threshold or the interval after every delivery and
    resolution. -/
theorem payouts_paced {X : Crates} {makes : MintQuote → Prop} {s₀ : Pacing}
    {w w' : Turns.World WalletSig Pacing Job} (hfresh : s₀.Fresh)
    (h : Relation.ReflTransGen (Turns.Step (Pacing.turns X makes)) ⟨s₀, none⟩ w)
    (h' : Relation.ReflTransGen (Turns.Step (Pacing.turns X makes)) w w') :
    Later w.shared w'.shared ∧
      w'.shared.begun.Pairwise (fun later earlier =>
        earlier.decided + 60 ≤ later.decided ∨ later.decided = 2 ^ 63 - 1) ∧
      ∀ b ∈ w'.shared.begun, b.decided ≤ b.started ∧
        (∃ state, b.payout = some state ∧ state.pending = none) ∧
        b.policy.amount.toNat ≤ b.balance ∧
        ((∃ n ∈ b.policy.threshold, n.toNat ≤ b.balance) ∨
          ∃ n ∈ b.policy.interval, b.marks ≠ [] ∧
            ∀ m ∈ b.marks, m + n ≤ b.decided ∨ b.decided = 2 ^ 63 - 1) := by
  have hstart : Turns.Keeps.Holds (Pacing.turns X makes) Paced Pacing.Needs ⟨s₀, none⟩ :=
    Turns.Keeps.holds_start (Pacing.paced_of_fresh hfresh)
  obtain ⟨hw, -⟩ := (Pacing.keeps X makes).run hstart h
  obtain ⟨⟨hp, -⟩, hlater⟩ := (Pacing.keeps X makes).run hw h'
  -- the clock readings are 64-bit values
  have hbound : ∀ b ∈ w'.shared.begun, b.decided < 2 ^ 63 := fun b hb =>
    by
    have := hp.started b hb
    have := hp.bound
    omega
  refine ⟨hlater, ?_, fun b hb => ?_⟩
  · refine hp.spaced.imp_of_mem (fun {later earlier} hl _ hle => ?_)
    rcases add_le_of_saturatingAddI64 (hbound later hl) hle with h | h
    · exact .inl (by omega)
    · exact .inr h
  · obtain ⟨hclear, hcovered, htriggered⟩ := hp.due b hb
    refine ⟨(hp.started b hb).1, hclear, hcovered, htriggered.imp_right ?_⟩
    rintro ⟨n, hn, hmarked, hmarks⟩
    exact ⟨n, hn, hmarked, fun m hm => add_le_of_saturatingAddI64 (hbound b hb) (hmarks m hm)⟩

/-! ### Two sends in a row -/

def testPayout : PayoutPolicy where
  mint := "https://mint.example"
  request := ⟨none, some .sat, none, [], none, [], []⟩
  amount := 10
  maxFee := 1
  interval := none
  threshold := some 10
  fits := by decide

/-- The first payout, whose funds cannot be prepared. -/
def testFirst : List WalletSig.Event :=
  [⟨.session .tryLock, true⟩, ⟨.session .open, true⟩, ⟨.session .now, (1000 : ℕ)⟩,
    ⟨.ledger .payout, some none⟩, ⟨.ledger (.savePayout ⟨1000, 0, none⟩), some ()⟩,
    ⟨.session .needsRecovery, true⟩, ⟨.cdk .recoverIncompleteSagas, .ok ⟨0, 0⟩⟩,
    ⟨.session (.setNeedsRecovery false), ()⟩, ⟨.cdk .totalBalance, .ok (100 : ℕ)⟩,
    ⟨.ledger (.savePayout ⟨1000, 1060, none⟩), some ()⟩, ⟨.session (.setNeedsRecovery true), ()⟩,
    ⟨.cdk (.preparePayRequest testPayout.request 10), .error .other⟩]

/-- The next one. -/
def testSecond : List WalletSig.Event :=
  [⟨.session .tryLock, true⟩, ⟨.session .open, true⟩, ⟨.session .now, (1060 : ℕ)⟩,
    ⟨.ledger .payout, some (some ⟨1000, 1060, none⟩)⟩, ⟨.session .needsRecovery, true⟩,
    ⟨.cdk .recoverIncompleteSagas, .ok ⟨0, 0⟩⟩, ⟨.session (.setNeedsRecovery false), ()⟩,
    ⟨.cdk .totalBalance, .ok (100 : ℕ)⟩, ⟨.ledger (.savePayout ⟨1000, 1120, none⟩), some ()⟩,
    ⟨.session (.setNeedsRecovery true), ()⟩,
    ⟨.cdk (.preparePayRequest testPayout.request 10), .error .other⟩]

theorem reaches_testFirst :
    ((Job.automatic testPayout).code testPayments).Reaches testFirst (.ret ()) := by
  iterate 12 refine Prog.reaches_cons rfl ?_
  exact .refl _

theorem reaches_testSecond :
    ((Job.automatic testPayout).code testPayments).Reaches testSecond (.ret ()) := by
  iterate 11 refine Prog.reaches_cons rfl ?_
  exact .refl _

/-- An empty wallet, at second 1000. -/
def testFresh : Pacing := { wallet := {}, clock := 1000 }

/-- After the first payout, whose send began at second 1040. -/
def testBetween : Pacing where
  wallet := { ledger := { payout := some ⟨1000, 1060, none⟩ }, memory := some {}, lock := some 0 }
  clock := 1040
  read := 1000
  balance := 100
  marks := [1000]
  begun := [⟨testPayout, 1000, 100, 1040, some ⟨1000, 1060, none⟩, [1000]⟩]

/-- After a restart and the second payout, whose send began at second 1060. -/
def testAfter : Pacing where
  wallet := { ledger := { payout := some ⟨1000, 1120, none⟩ }, memory := some {}, lock := some 1 }
  clock := 1060
  read := 1060
  balance := 100
  marks := [1000]
  begun := ⟨testPayout, 1060, 100, 1060, some ⟨1000, 1120, none⟩, [1000]⟩ :: testBetween.begun

/-- The recovery takes 40 seconds. -/
theorem steps_testFirst :
    Relation.ReflTransGen (Turns.Step (Pacing.turns testPayments (fun _ => True)))
      ⟨testFresh, none⟩ ⟨testBetween, none⟩ := by
  have hsame : ∀ c : Cdk, c.Evolves c := Cdk.Evolves.refl
  refine Turns.Along.turn (q := Job.automatic testPayout) (i := 0) ?_ reaches_testFirst
  refine .exec ⟨_, _, ⟨.inl ⟨rfl, rfl, rfl, rfl⟩, rfl⟩, rfl⟩ ?_
  refine .exec ⟨_, _, ⟨.inl ⟨rfl, rfl⟩, rfl⟩, rfl⟩ ?_
  refine .exec ⟨_, _, ⟨⟨rfl, rfl⟩, rfl⟩, rfl⟩ ?_
  refine .exec ⟨_, _, ⟨⟨rfl, rfl⟩, rfl⟩, rfl⟩ ?_
  refine .exec ⟨_, _, ⟨rfl, rfl⟩, rfl⟩ ?_
  refine .exec ⟨_, _, ⟨⟨rfl, rfl⟩, rfl⟩, rfl⟩ ?_
  refine .idle (Pacing.Idle.tick (t := 1040) (by decide) (by decide)) ?_
  refine .exec ⟨_, _, ⟨_, hsame _, trivial, rfl, rfl⟩, rfl⟩ ?_
  refine .exec ⟨_, _, ⟨rfl, rfl⟩, rfl⟩ ?_
  refine .exec ⟨_, _, ⟨_, hsame _, trivial, rfl, rfl⟩, rfl⟩ ?_
  refine .exec ⟨_, _, ⟨rfl, rfl⟩, rfl⟩ ?_
  refine .exec ⟨_, _, ⟨rfl, rfl⟩, rfl⟩ ?_
  refine .exec ⟨_, _, ⟨_, rfl, hsame _, rfl⟩, rfl⟩ ?_
  exact .nil

theorem steps_testSecond :
    Relation.ReflTransGen (Turns.Step (Pacing.turns testPayments (fun _ => True)))
      ⟨testBetween, none⟩ ⟨testAfter, none⟩ := by
  have hsame : ∀ c : Cdk, c.Evolves c := Cdk.Evolves.refl
  refine .head (.idle (Pacing.Idle.restart (t := 1060) (by decide) (by decide))) ?_
  refine Turns.Along.turn (q := Job.automatic testPayout) (i := 1) ?_ reaches_testSecond
  refine .exec ⟨_, _, ⟨.inl ⟨rfl, rfl, rfl, rfl⟩, rfl⟩, rfl⟩ ?_
  refine .exec ⟨_, _, ⟨.inl ⟨rfl, rfl⟩, rfl⟩, rfl⟩ ?_
  refine .exec ⟨_, _, ⟨⟨rfl, rfl⟩, rfl⟩, rfl⟩ ?_
  refine .exec ⟨_, _, ⟨⟨rfl, rfl⟩, rfl⟩, rfl⟩ ?_
  refine .exec ⟨_, _, ⟨⟨rfl, rfl⟩, rfl⟩, rfl⟩ ?_
  refine .exec ⟨_, _, ⟨_, hsame _, trivial, rfl, rfl⟩, rfl⟩ ?_
  refine .exec ⟨_, _, ⟨rfl, rfl⟩, rfl⟩ ?_
  refine .exec ⟨_, _, ⟨_, hsame _, trivial, rfl, rfl⟩, rfl⟩ ?_
  refine .exec ⟨_, _, ⟨rfl, rfl⟩, rfl⟩ ?_
  refine .exec ⟨_, _, ⟨rfl, rfl⟩, rfl⟩ ?_
  refine .exec ⟨_, _, ⟨_, rfl, hsame _, rfl⟩, rfl⟩ ?_
  exact .nil

theorem testFresh_fresh : testFresh.Fresh := ⟨by decide, rfl, rfl, rfl, rfl⟩

/-- The second send begins 20 seconds after the first one. -/
theorem sends_start_close :
    ¬ ∀ s₀ s : Pacing, s₀.Fresh →
      Relation.ReflTransGen (Turns.Step (Pacing.turns testPayments (fun _ => True)))
        ⟨s₀, none⟩ ⟨s, none⟩ →
      s.begun.Pairwise (fun later earlier => earlier.started + 60 ≤ later.started) := by
  intro h
  have hpair := h _ _ testFresh_fresh (steps_testFirst.trans steps_testSecond)
  have hclose : 1040 + 60 ≤ 1060 := (List.pairwise_cons.mp hpair).1 _ (.head _)
  omega

theorem payouts_paced_two :
    testAfter.begun.length = 2 ∧ Later testBetween testAfter ∧
      testAfter.begun.Pairwise (fun later earlier =>
        earlier.decided + 60 ≤ later.decided ∨ later.decided = 2 ^ 63 - 1) := by
  obtain ⟨hlater, hpair, -⟩ := payouts_paced testFresh_fresh steps_testFirst steps_testSecond
  exact ⟨rfl, hlater, hpair⟩

end Geata.Payments
