import Geata.Lib.Turns
import Geata.Payments.Journal
import Geata.Payments.Payout
import Geata.Payments.Rules

namespace Geata.Payments

open Geata.Lib

/-!
# The pace of automatic payouts

The payout programs of one wallet, one at a time, each dropped anywhere, with a clock that goes on in
between.  Of every call of `send_request` that an automatic payout makes, `Begun` keeps the clock
reading it was decided on and what the wallet looked like.

* `Pacing` — the wallet with the clock and this record; `Pacing.turns` — the programs over it.
* `Paced` — the invariant: the stored attempt time is never far ahead, every begun send lies a cooldown
  before it, and the stored last payment is not before any delivery or resolution.
-/

/-! ### Saturating times -/

theorem le_saturatingAddI64 {a : ℕ} (h : a < 2 ^ 63) : (a : ℤ) ≤ saturatingAddI64 a 60 := by
  unfold saturatingAddI64
  omega

theorem saturatingAddI64_mono {a b : ℤ} (h : a ≤ b) (c : ℤ) :
    saturatingAddI64 a c ≤ saturatingAddI64 b c := by
  unfold saturatingAddI64
  omega

theorem saturatingAddI64_nonneg (a : ℕ) : 0 ≤ saturatingAddI64 a 60 := by
  unfold saturatingAddI64
  omega

/-- A sum that lies before a time is exact, or the time is the last one. -/
theorem add_le_of_saturatingAddI64 {a c : ℤ} {b : ℕ} (hb : b < 2 ^ 63)
    (h : saturatingAddI64 a c ≤ b) : a + c ≤ b ∨ b = 2 ^ 63 - 1 := by
  unfold saturatingAddI64 at h
  omega

/-! ### The programs and their record -/

inductive Job where
  | automatic (policy : PayoutPolicy)
  | pay (mint encoded : String) (amount : Option UInt64) (maxTotal : UInt64)
  | pending (reclaim : Option String)

def Job.code (X : Crates) : Job → Prog WalletSig Unit
  | .automatic policy => (automaticPayout X policy).run.bind (fun _ => .ret ())
  | .pay mint encoded amount maxTotal =>
    (Payments.pay X mint encoded amount maxTotal).run.bind (fun _ => .ret ())
  | .pending reclaim => (Payments.pending X reclaim).run.bind (fun _ => .ret ())

/-- Only the server takes the wallet's lock. -/
def Job.serving : Job → Bool
  | .automatic _ => true
  | _ => false

/-- A call of `send_request` by an automatic payout. -/
structure Begun where
  policy : PayoutPolicy
  /-- the clock reading that the payout was decided on -/
  decided : ℕ
  /-- the balance that it was decided on -/
  balance : ℕ
  /-- the clock when the call started -/
  started : ℕ
  /-- the stored payout state when the call started -/
  payout : Option PayoutState
  /-- the deliveries, the resolutions and the first opening before the call -/
  marks : List ℕ

structure Pacing where
  wallet : Wallet
  clock : ℕ
  /-- the last clock reading of a program -/
  read : ℕ := 0
  /-- the last balance that a program read -/
  balance : ℕ := 0
  /-- when a send was delivered or found resolved, and the clock reading on which an automatic payout
      first created the payout state, the latest first -/
  marks : List ℕ := []
  /-- the latest first -/
  begun : List Begun := []

namespace Pacing

/-- The marks after an operation that leaves the wallet `w`.  A delivery is a `confirm` that succeeds, a
    resolution is a saga that is gone. -/
def mark (job : Job) (s : Pacing) (w : Wallet) :
    (o : WalletOp) → Option (WalletSig.Res o) → List ℕ
  | .cdk (.confirm _), some (.ok ()) => s.clock :: s.marks
  | .cdk (.getSaga _), some (.ok false) => s.clock :: s.marks
  | .ledger (.savePayout _), _ =>
    if job.serving && s.wallet.ledger.payout.isNone && w.ledger.payout.isSome then s.read :: s.marks
    else s.marks
  | _, _ => s.marks

/-- The first thing `send_request` does is to set the recovery flag. -/
def begin (job : Job) (s : Pacing) : WalletOp → List Begun
  | .session (.setNeedsRecovery true) =>
    match job with
    | .automatic policy =>
      ⟨policy, s.read, s.balance, s.clock, s.wallet.ledger.payout, s.marks⟩ :: s.begun
    | _ => s.begun
  | _ => s.begun

def reading (s : Pacing) : (o : WalletOp) → WalletSig.Res o → ℕ
  | .session .now, time => time
  | _, _ => s.read

def counted (s : Pacing) : (o : WalletOp) → WalletSig.Res o → ℕ
  | .cdk .totalBalance, .ok balance => balance
  | _, _ => s.balance

/-- The operations of one job. -/
def effects (job : Job) (makes : MintQuote → Prop) : Effects WalletSig Pacing where
  exec call s o r s' := ∃ w notes, s.wallet.exec makes call s.clock job.serving o r w notes ∧
    s' = { s with
      wallet := w
      read := s.reading o r
      balance := s.counted o r
      marks := s.mark job w o (some r)
      begun := s.begin job o }
  cut _ s o s' := ∃ w notes, s.wallet.cut makes o w notes ∧
    s' = { s with wallet := w, marks := s.mark job w o none }

/-- Time passes.  Whatever else happens to the wallet, a restart included, leaves its payout state
    alone. -/
structure Idle (s s' : Pacing) : Prop where
  clock : s.clock ≤ s'.clock
  bound : s'.clock < 2 ^ 63
  payout : s'.wallet.ledger.payout = s.wallet.ledger.payout
  read : s'.read = s.read
  balance : s'.balance = s.balance
  marks : s'.marks = s.marks
  begun : s'.begun = s.begun

/-- The jobs take turns. -/
def turns (X : Crates) (makes : MintQuote → Prop) : Turns WalletSig Pacing Job where
  effects job := effects job makes
  code := Job.code X
  idle := Idle

/-- A wallet that no payout was made from, at some time. -/
def Fresh (s : Pacing) : Prop :=
  s.clock < 2 ^ 63 ∧ s.wallet.ledger.payout = none ∧ s.read = 0 ∧ s.marks = [] ∧ s.begun = []

theorem Idle.trans {s₁ s₂ s₃ : Pacing} (h : Idle s₁ s₂) (h' : Idle s₂ s₃) : Idle s₁ s₃ where
  clock := h.clock.trans h'.clock
  bound := h'.bound
  payout := h'.payout.trans h.payout
  read := h'.read.trans h.read
  balance := h'.balance.trans h.balance
  marks := h'.marks.trans h.marks
  begun := h'.begun.trans h.begun

/-- Time passes. -/
theorem Idle.tick {s : Pacing} {t : ℕ} (h : s.clock ≤ t) (hb : t < 2 ^ 63) :
    Idle s { s with clock := t } := ⟨h, hb, rfl, rfl, rfl, rfl, rfl⟩

/-- The process is restarted. -/
theorem Idle.restart {s : Pacing} {t : ℕ} (h : s.clock ≤ t) (hb : t < 2 ^ 63) :
    Idle s { s with wallet := s.wallet.restart, clock := t } := ⟨h, hb, rfl, rfl, rfl, rfl, rfl⟩

end Pacing

/-! ### The invariant -/

/-- A call of `send_request` was due. -/
structure Begun.Due (b : Begun) : Prop where
  clear : ∃ state, b.payout = some state ∧ state.pending = none
  covered : b.policy.amount.toNat ≤ b.balance
  triggered : (∃ n ∈ b.policy.threshold, n.toNat ≤ b.balance) ∨
    ∃ n ∈ b.policy.interval, b.marks ≠ [] ∧ ∀ m ∈ b.marks, saturatingAddI64 m n ≤ b.decided

/-- What holds between any two operations of a run. -/
structure Paced (s : Pacing) : Prop where
  bound : s.clock < 2 ^ 63
  read : s.read ≤ s.clock
  marks : ∀ m ∈ s.marks, m ≤ s.clock
  unopened : s.wallet.ledger.payout = none → s.marks = []
  retry : ∀ state, s.wallet.ledger.payout = some state →
    state.retryAt ≤ saturatingAddI64 s.clock 60
  paid : ∀ state, s.wallet.ledger.payout = some state → state.pending = none →
    s.marks ≠ [] ∧ ∀ m ∈ s.marks, (m : ℤ) ≤ state.lastPaid
  cooled : ∀ b ∈ s.begun, ∃ state, s.wallet.ledger.payout = some state ∧
    saturatingAddI64 b.decided 60 ≤ state.retryAt
  spaced : s.begun.Pairwise (fun later earlier => saturatingAddI64 earlier.decided 60 ≤ later.decided)
  started : ∀ b ∈ s.begun, b.decided ≤ b.started ∧ b.started ≤ s.clock
  due : ∀ b ∈ s.begun, b.Due

/-- The stored attempt time is kept or put off. -/
def Later (s s' : Pacing) : Prop :=
  ∀ state, s.wallet.ledger.payout = some state →
    ∃ state', s'.wallet.ledger.payout = some state' ∧ state.retryAt ≤ state'.retryAt

theorem Later.of_payout {s s' : Pacing} (h : s'.wallet.ledger.payout = s.wallet.ledger.payout) :
    Later s s' := fun state hstate => ⟨state, h.trans hstate, le_refl _⟩

theorem Later.refl (s : Pacing) : Later s s := .of_payout rfl

theorem Later.trans {s₁ s₂ s₃ : Pacing} (h : Later s₁ s₂) (h' : Later s₂ s₃) : Later s₁ s₃ := by
  intro state hstate
  obtain ⟨state₂, h₂, hle⟩ := h state hstate
  obtain ⟨state₃, h₃, hle'⟩ := h' state₂ h₂
  exact ⟨state₃, h₃, hle.trans hle'⟩

/-- A payout state that may be saved: it puts the next attempt off, not too far, and without a pending
    send its last payment is not before the marks. -/
structure Saves (s : Pacing) (marks : List ℕ) (state : PayoutState) : Prop where
  later : ∀ old, s.wallet.ledger.payout = some old → old.retryAt ≤ state.retryAt
  retry : state.retryAt ≤ saturatingAddI64 s.clock 60
  paid : state.pending = none → marks ≠ [] ∧ ∀ m ∈ marks, (m : ℤ) ≤ state.lastPaid

/-- What an operation needs of the record. -/
def Pacing.Needs (job : Job) : WalletOp → Pacing → Prop
  | .ledger (.savePayout state), s =>
    Saves s (if job.serving && s.wallet.ledger.payout.isNone then s.read :: s.marks else s.marks) state
  | .session (.setNeedsRecovery true), s => ∀ policy, job = .automatic policy →
      (∀ b ∈ s.begun, saturatingAddI64 b.decided 60 ≤ s.read) ∧
      (∃ state, s.wallet.ledger.payout = some state ∧
        saturatingAddI64 s.read 60 ≤ state.retryAt) ∧
      Begun.Due ⟨policy, s.read, s.balance, s.clock, s.wallet.ledger.payout, s.marks⟩
  | .cdk (.confirm _), s | .cdk (.getSaga _), s =>
      ∃ state, s.wallet.ledger.payout = some state ∧ state.pending ≠ none
  | _, _ => True

/-! ### What an operation does to the record -/

namespace Wallet

variable {w w' : Wallet} {makes : MintQuote → Prop} {call time : ℕ} {serving : Bool}
  {notes : List Note}

/-- Only a save changes the payout state. -/
theorem exec_payout {o : WalletOp} (h : ∀ state, o ≠ .ledger (.savePayout state))
    {r : WalletSig.Res o} (he : w.exec makes call time serving o r w' notes) :
    w'.ledger.payout = w.ledger.payout := by
  cases o with
  | session o => rw [(session_frame he.1).1]
  | cdk o => rw [(cdk_frame he).1]
  | ledger o =>
    rcases transact_cases he.1 with rfl | rfl | ⟨id, rfl, -, rfl⟩
    · rfl
    · exact (samePayout_commit (fun state ho => h state (by rw [ho]))).payout
    · exact Ledger.payout_claim

theorem cut_payout {o : WalletOp} (h : ∀ state, o ≠ .ledger (.savePayout state))
    (hc : w.cut makes o w' notes) : w'.ledger.payout = w.ledger.payout := by
  cases o with
  | session o => rw [hc.1]
  | cdk o => rw [(interrupt_frame hc).1]
  | ledger o =>
    have hne : ∀ state, o ≠ .savePayout state := fun state ho => h state (by rw [ho])
    have hcases : w' = w ∨ w' = w.commit o ∨ w' = { w with detached := o :: w.detached } := by
      cases o with
      | savePayout state => exact absurd rfl (hne state)
      | reserve id site price => exact hc.1
      | claim id => exact hc.1
      | payout => exact hc.1
    rcases hcases with rfl | rfl | rfl
    · rfl
    · exact (samePayout_commit hne).payout
    · rfl

end Wallet

namespace Pacing

variable {job : Job} {s s' : Pacing} {makes : MintQuote → Prop} {call : ℕ}

/-- A mark is added by a delivery or a resolution, or by a save. -/
theorem mark_cases (job : Job) (s : Pacing) (w : Wallet) (o : WalletOp)
    (r : Option (WalletSig.Res o)) :
    s.mark job w o r = s.marks ∨ (∃ state, o = .ledger (.savePayout state)) ∨
      s.mark job w o r = s.clock :: s.marks ∧
        ((∃ id, o = .cdk (.confirm id)) ∨ ∃ id, o = .cdk (.getSaga id)) := by
  unfold mark
  split
  · exact .inr (.inr ⟨rfl, .inl ⟨_, rfl⟩⟩)
  · exact .inr (.inr ⟨rfl, .inr ⟨_, rfl⟩⟩)
  · exact .inr (.inl ⟨_, rfl⟩)
  · exact .inl rfl

theorem begin_cases (job : Job) (s : Pacing) (o : WalletOp) :
    s.begin job o = s.begun ∨ o = .session (.setNeedsRecovery true) ∧ ∃ policy,
      job = .automatic policy ∧ s.begin job o =
        ⟨policy, s.read, s.balance, s.clock, s.wallet.ledger.payout, s.marks⟩ :: s.begun := by
  unfold begin
  split
  · cases job with
    | automatic policy => exact .inr ⟨rfl, policy, rfl, rfl⟩
    | pay mint encoded amount maxTotal => exact .inl rfl
    | pending reclaim => exact .inl rfl
  · exact .inl rfl

/-- A program reads the clock as it is. -/
theorem reading_le (h : Paced s) {o : WalletOp} {r : WalletSig.Res o}
    (he : (effects job makes).exec call s o r s') : s'.read ≤ s'.clock := by
  obtain ⟨w, notes, he, rfl⟩ := he
  show s.reading o r ≤ s.clock
  unfold reading
  split
  · obtain ⟨⟨-, rfl⟩, -⟩ := he
    exact le_refl _
  · exact h.read

end Pacing

/-! ### Steps -/

namespace Paced

variable {job : Job} {s s' : Pacing} {makes : MintQuote → Prop} {call : ℕ}

/-- The payout state and the record stay, the clock goes on. -/
theorem move (h : Paced s) (hclock : s.clock ≤ s'.clock) (hbound : s'.clock < 2 ^ 63)
    (hread : s'.read ≤ s'.clock)
    (hpayout : s'.wallet.ledger.payout = s.wallet.ledger.payout) (hmarks : s'.marks = s.marks)
    (hbegun : s'.begun = s.begun) : Paced s' where
  bound := hbound
  read := hread
  marks m hm := (h.marks m (by rwa [← hmarks])).trans hclock
  unopened hn := by rw [hmarks]; exact h.unopened (by rwa [← hpayout])
  retry state hstate :=
    (h.retry state (by rwa [← hpayout])).trans (saturatingAddI64_mono (by omega) 60)
  paid state hstate := by rw [hmarks]; exact h.paid state (by rwa [← hpayout])
  cooled := by rw [hbegun, hpayout]; exact h.cooled
  spaced := by rw [hbegun]; exact h.spaced
  started := by
    rw [hbegun]
    exact fun b hb => ⟨(h.started b hb).1, (h.started b hb).2.trans hclock⟩
  due := by rw [hbegun]; exact h.due

theorem idle (h : Paced s) (hi : Pacing.Idle s s') : Paced s' := by
  refine h.move hi.clock hi.bound ?_ hi.payout hi.marks hi.begun
  rw [hi.read]
  exact h.read.trans hi.clock

/-- A delivery or a resolution while a send is pending. -/
theorem mark (h : Paced s) {state : PayoutState} (hstate : s.wallet.ledger.payout = some state)
    (hpending : state.pending ≠ none) (hclock : s'.clock = s.clock) (hread : s'.read ≤ s'.clock)
    (hpayout : s'.wallet.ledger.payout = s.wallet.ledger.payout)
    (hmarks : s'.marks = s.clock :: s.marks) (hbegun : s'.begun = s.begun) : Paced s' where
  bound := by rw [hclock]; exact h.bound
  read := hread
  marks m hm := by
    rw [hmarks] at hm
    rw [hclock]
    rcases List.mem_cons.mp hm with rfl | hm
    · exact le_refl _
    · exact h.marks m hm
  unopened hn := by
    rw [hpayout, hstate] at hn
    exact absurd hn (by simp)
  retry state' hstate' := by rw [hclock]; exact h.retry state' (by rwa [← hpayout])
  paid state' hstate' hp := by
    rw [hpayout] at hstate'
    obtain rfl := Option.some.inj (hstate.symm.trans hstate')
    exact absurd hp hpending
  cooled := by rw [hbegun, hpayout]; exact h.cooled
  spaced := by rw [hbegun]; exact h.spaced
  started := by rw [hbegun, hclock]; exact h.started
  due := by rw [hbegun]; exact h.due

/-- A payout state that may be saved is saved. -/
theorem save (h : Paced s) {state : PayoutState} (hs : Saves s s'.marks state)
    (hclock : s'.clock = s.clock) (hread : s'.read ≤ s'.clock)
    (hpayout : s'.wallet.ledger.payout = some state)
    (hmarks : ∀ m ∈ s'.marks, m ≤ s.clock) (hbegun : s'.begun = s.begun) : Paced s' where
  bound := by rw [hclock]; exact h.bound
  read := hread
  marks m hm := by rw [hclock]; exact hmarks m hm
  unopened hn := by
    rw [hpayout] at hn
    exact absurd hn (by simp)
  retry state' hstate' := by
    obtain rfl := Option.some.inj (hpayout.symm.trans hstate')
    rw [hclock]
    exact hs.retry
  paid state' hstate' := by
    obtain rfl := Option.some.inj (hpayout.symm.trans hstate')
    exact hs.paid
  cooled b hb := by
    rw [hbegun] at hb
    obtain ⟨old, hold, hle⟩ := h.cooled b hb
    exact ⟨state, hpayout, hle.trans (hs.later old hold)⟩
  spaced := by rw [hbegun]; exact h.spaced
  started := by rw [hbegun, hclock]; exact h.started
  due := by rw [hbegun]; exact h.due

/-- A send that is due begins. -/
theorem begins (h : Paced s) {policy : PayoutPolicy} {b : Begun} (hb : b.decided = s.read)
    (hstarted : b.started = s.clock) (hdue : b.Due)
    (hn : Pacing.Needs (.automatic policy) (.session (.setNeedsRecovery true)) s)
    (hclock : s'.clock = s.clock) (hread : s'.read ≤ s'.clock)
    (hpayout : s'.wallet.ledger.payout = s.wallet.ledger.payout) (hmarks : s'.marks = s.marks)
    (hbegun : s'.begun = b :: s.begun) : Paced s' := by
  obtain ⟨hspaced, hretry, -⟩ := hn policy rfl
  have hquiet : Paced { s' with begun := s.begun } := by
    apply h.move
    · exact hclock.ge
    · rw [hclock]; exact h.bound
    · exact hread
    · exact hpayout
    · exact hmarks
    · rfl
  refine { hquiet with cooled := ?_, spaced := ?_, started := ?_, due := ?_ } <;> rw [hbegun]
  · intro b' hb'
    rw [hpayout]
    rcases List.mem_cons.mp hb' with rfl | hb'
    · rw [hb]; exact hretry
    · exact h.cooled b' hb'
  · exact List.Pairwise.cons (fun b' hb' => by rw [hb]; exact hspaced b' hb') h.spaced
  · intro b' hb'
    rcases List.mem_cons.mp hb' with rfl | hb'
    · rw [hb, hstarted, hclock]; exact ⟨h.read, le_refl _⟩
    · rw [hclock]; exact h.started b' hb'
  · intro b' hb'
    rcases List.mem_cons.mp hb' with rfl | hb'
    · exact hdue
    · exact h.due b' hb'

/-- A save, complete or cut short, whether it was committed or not. -/
theorem saved (h : Paced s) {state : PayoutState} {w : Wallet}
    (hn : Pacing.Needs job (.ledger (.savePayout state)) s)
    (hw : w = s.wallet ∨ w = s.wallet.commit (.savePayout state)) (hwallet : s'.wallet = w)
    (hclock : s'.clock = s.clock) (hread : s'.read ≤ s'.clock) (hbegun : s'.begun = s.begun)
    (hmarks : s'.marks = if job.serving && s.wallet.ledger.payout.isNone &&
      w.ledger.payout.isSome then s.read :: s.marks else s.marks) : Paced s' ∧ Later s s' := by
  rcases hw with rfl | rfl
  · have hpayout : s'.wallet.ledger.payout = s.wallet.ledger.payout := by rw [hwallet]
    refine ⟨h.move hclock.ge (hclock ▸ h.bound) hread hpayout ?_ hbegun, .of_payout hpayout⟩
    rw [hmarks, if_neg (by cases s.wallet.ledger.payout <;> simp)]
  · have hpayout : s'.wallet.ledger.payout = some state := by rw [hwallet]; rfl
    have hmarks' : s'.marks = if job.serving && s.wallet.ledger.payout.isNone then
        s.read :: s.marks else s.marks := by
      rw [hmarks]
      simp [Wallet.commit]
    have hs : Saves s s'.marks state := by rw [hmarks']; exact hn
    refine ⟨h.save hs hclock hread hpayout (fun m hm => ?_) hbegun,
      fun old hold => ⟨state, hpayout, hs.later old hold⟩⟩
    rw [hmarks'] at hm
    split at hm
    · rcases List.mem_cons.mp hm with rfl | hm
      · exact h.read
      · exact h.marks m hm
    · exact h.marks m hm

/-- **Every operation that is allowed keeps the pace.** -/
theorem exec (h : Paced s) {o : WalletOp} {r : WalletSig.Res o} (hn : Pacing.Needs job o s)
    (he : (Pacing.effects job makes).exec call s o r s') : Paced s' ∧ Later s s' := by
  have hread := Pacing.reading_le h he
  obtain ⟨w, notes, he, rfl⟩ := he
  by_cases hsave : ∃ state, o = .ledger (.savePayout state)
  · obtain ⟨state, rfl⟩ := hsave
    refine h.saved (w := w) hn ?_ rfl rfl hread rfl rfl
    rcases Wallet.transact_cases he.1 with rfl | rfl | ⟨id, hid, -⟩
    · exact .inl rfl
    · exact .inr rfl
    · cases hid
  -- the payout state stays
  have hpayout : w.ledger.payout = s.wallet.ledger.payout :=
    Wallet.exec_payout (fun state ho => hsave ⟨state, ho⟩) he
  refine ⟨?_, .of_payout hpayout⟩
  rcases Pacing.begin_cases job s o with hb | ⟨rfl, policy, rfl, hb⟩
  · rcases Pacing.mark_cases job s w o (some r) with hm | hm | ⟨hm, ho⟩
    · exact h.move (le_refl _) h.bound hread hpayout hm hb
    · exact absurd hm hsave
    · obtain ⟨state, hstate, hpending⟩ : ∃ state, s.wallet.ledger.payout = some state ∧
          state.pending ≠ none := by
        rcases ho with ⟨id, rfl⟩ | ⟨id, rfl⟩ <;> exact hn
      exact h.mark hstate hpending rfl hread hpayout hm hb
  · exact h.begins (b := ⟨policy, s.read, s.balance, s.clock, s.wallet.ledger.payout, s.marks⟩)
      rfl rfl (hn policy rfl).2.2 hn rfl hread hpayout rfl hb

/-- So does every allowed operation that is dropped. -/
theorem cut (h : Paced s) {o : WalletOp} (hn : Pacing.Needs job o s)
    (hc : (Pacing.effects job makes).cut call s o s') : Paced s' ∧ Later s s' := by
  obtain ⟨w, notes, hc, rfl⟩ := hc
  by_cases hsave : ∃ state, o = .ledger (.savePayout state)
  · obtain ⟨state, rfl⟩ := hsave
    exact h.saved (w := w) hn hc.1 rfl rfl h.read rfl rfl
  have hpayout : w.ledger.payout = s.wallet.ledger.payout :=
    Wallet.cut_payout (fun state ho => hsave ⟨state, ho⟩) hc
  refine ⟨h.move (le_refl _) h.bound h.read hpayout ?_ rfl, .of_payout hpayout⟩
  unfold Pacing.mark
  split
  · rename_i ho; simp at ho
  · rename_i ho; simp at ho
  · exact absurd ⟨_, rfl⟩ hsave
  · rfl

end Paced

/-- What a program of the wallet relies on and respects. -/
def pacingLogic (job : Job) (makes : MintQuote → Prop) : Logic WalletSig Pacing where
  exec := (Pacing.effects job makes).exec
  Inv := Paced
  Rely _ := Pacing.Idle
  Needs _ := Pacing.Needs job

end Geata.Payments
