import Geata.Payments.Steps
import Geata.Service.Rules

namespace Geata.Service

open Geata.Lib Geata.Lightning Geata.Payments Function

/-!
# The books of the wallets

* `System.Booked`, `System.Grows` — the books of all wallets, and what no step takes back.
* `tokens` — the proof outline: every operation of every call keeps the books, and a collected
  token leaves its admission, its row and its redemption behind.
-/

namespace System

variable {κ : Type} {X : Payments.Crates} {out : Outside} {call : ℕ} {s s' : System κ}

/-! ### The books of all wallets -/

def Booked (s : System κ) : Prop := ∀ mint, (s.wallets mint).Booked

def Grows (s s' : System κ) : Prop := ∀ mint, (s.wallets mint).Grows (s'.wallets mint)

theorem Grows.refl (s : System κ) : s.Grows s := fun _ => .refl _

theorem Grows.trans {s₁ s₂ s₃ : System κ} (h : s₁.Grows s₂) (h' : s₂.Grows s₃) : s₁.Grows s₃ :=
  fun mint => (h mint).trans (h' mint)

theorem Booked.of_wallets (h : s.Booked) (hw : s'.wallets = s.wallets) :
    s.Grows s' ∧ s'.Booked := by
  refine ⟨fun mint => ?_, fun mint => ?_⟩ <;> rw [hw]
  · exact .refl _
  · exact h mint

/-- One wallet moves on, the others stay. -/
theorem Booked.setWallet (h : s.Booked) {mint : String} {w : Wallet} (notes : List Note)
    (hw : (s.wallets mint).Grows w ∧ w.Booked) :
    s.Grows (s.setWallet mint w notes) ∧ (s.setWallet mint w notes).Booked := by
  refine ⟨fun m => ?_, fun m => ?_⟩ <;> simp only [System.setWallet] <;>
    by_cases hm : m = mint
  · subst hm; rw [update_self]; exact hw.1
  · rw [update_of_ne hm]; exact .refl _
  · subst hm; rw [update_self]; exact hw.2
  · rw [update_of_ne hm]; exact h m

theorem Booked.exec (h : s.Booked) {o : BaseOp κ} {r : (BaseSig κ).Res o}
    (he : (effects X out).exec call s o r s') : s.Grows s' ∧ s'.Booked := by
  cases o with
  | lightning o =>
    cases r with
    | some r => exact h.of_wallets (succeed_wallets he)
    | none => rcases he with rfl | rfl <;> exact h.of_wallets (by simp)
  | wallet mint o =>
    obtain ⟨w, notes, hw, rfl⟩ := he
    exact h.setWallet notes ((h mint).exec hw)
  | lockDirectory mint =>
    cases r with
    | false => obtain ⟨-, rfl⟩ := he; exact h.of_wallets rfl
    | true =>
      obtain ⟨-, rfl⟩ := he
      have hw : (s.wallets mint).Grows { s.wallets mint with lock := some call } ∧
          Wallet.Booked { s.wallets mint with lock := some call } :=
        ⟨.of_eq rfl rfl rfl, (h mint).of_eq rfl rfl⟩
      exact h.setWallet [] hw

theorem Booked.cut (h : s.Booked) {o : BaseOp κ} (hc : (effects X out).cut call s o s') :
    s.Grows s' ∧ s'.Booked := by
  cases o with
  | lightning o => rcases hc with rfl | rfl | rfl <;> exact h.of_wallets (by simp)
  | wallet mint o =>
    obtain ⟨w, notes, hw, rfl⟩ := hc
    exact h.setWallet notes ((h mint).cut hw)
  | lockDirectory mint => obtain rfl : s' = s := hc; exact h.of_wallets rfl

theorem Booked.leave (h : s.Booked) (call : ℕ) : s.Grows (s.leave call) ∧ (s.leave call).Booked :=
  ⟨fun mint => ((h mint).unlock call).1, fun mint => ((h mint).unlock call).2⟩

theorem Booked.exit (h : s.Booked) : s.Grows s.exit ∧ s.exit.Booked :=
  ⟨fun mint => (h mint).restart.1, fun mint => (h mint).restart.2⟩

theorem Booked.release (h : s.Booked) (call : ℕ) :
    s.Grows (s.release call) ∧ (s.release call).Booked := by
  unfold System.release
  split
  · exact h.exit
  · exact h.leave call

theorem Booked.env [DecidableEq κ] (h : s.Booked) (he : Env s s') : s.Grows s' ∧ s'.Booked := by
  cases he with
  | tick => exact h.of_wallets rfl
  | @transaction o _ => exact h.of_wallets (commit_wallets s o)
  | ledger hs => exact h.setWallet [] ((h _).settle hs)
  | serve => exact h.of_wallets rfl

end System

/-! ### Collecting a token -/

section

variable {κ : Type} {X : Service.Crates κ} {out : Outside} {call : ℕ} {s s' : System κ}
  {mint id site : String} {price : UInt32}

/-- The token is bound to a site and a price. -/
def Bound (mint id site : String) (price : UInt32) (s : System κ) : Prop :=
  ∃ claimed, (s.wallets mint).ledger.payments.lookup id = some ⟨site, price, claimed⟩

/-- The token was redeemed for at least the price. -/
def Redeemed (mint id : String) (price : UInt32) (s : System κ) : Prop :=
  ∃ t ∈ (s.wallets mint).cdk.transactions, t.direction = .incoming ∧ t.status = .completed ∧
    t.memo = some (memo id) ∧ price.toNat ≤ t.amount

/-- The token admitted a call. -/
def Admitted (mint id : String) (call : ℕ) (s : System κ) : Prop :=
  (s.wallets mint).admitted.lookup id = some call

theorem Bound.grows (h : Bound mint id site price s) (hs : s.Grows s') :
    Bound mint id site price s' := by
  obtain ⟨claimed, hrow⟩ := h
  obtain ⟨p, hp, hsite, hprice, -⟩ := (hs mint).ledger id _ hrow
  obtain ⟨site', price', claimed'⟩ := p
  obtain rfl : site' = site := hsite
  obtain rfl : price' = price := hprice
  exact ⟨claimed', hp⟩

theorem Redeemed.grows (h : Redeemed mint id price s) (hs : s.Grows s') :
    Redeemed mint id price s' := by
  obtain ⟨t, ht, hdir, hstatus, hrest⟩ := h
  exact ⟨t, (hs mint).completed t ht hstatus, hdir, hstatus, hrest⟩

theorem Admitted.grows (h : Admitted mint id call s) (hs : s.Grows s') :
    Admitted mint id call s' := (hs mint).admitted id call h

/-- What a collected token leaves behind: the admission of this call, the row it was bound to,
    and its redemption. -/
structure Collected (mint id site : String) (price : UInt32) (call : ℕ) (s : System κ) : Prop where
  admitted : Admitted mint id call s
  row : (s.wallets mint).ledger.payments.lookup id = some ⟨site, price, true⟩
  redeemed : Redeemed mint id price s

theorem Collected.grows (h : Collected mint id site price call s) (hs : s.Grows s') :
    Collected mint id site price call s' := by
  refine ⟨h.admitted.grows hs, ?_, h.redeemed.grows hs⟩
  obtain ⟨⟨site', price', claimed'⟩, hp, hsite, hprice, hclaimed⟩ := (hs mint).ledger id _ h.row
  obtain rfl : site' = site := hsite
  obtain rfl : price' = price := hprice
  obtain rfl : claimed' = true := hclaimed rfl
  exact hp

/-- An admitted token that is bound and redeemed is collected. -/
theorem collected_of_admitted (hb : s.Booked) (ha : Admitted mint id call s)
    (hbound : Bound mint id site price s) (hr : Redeemed mint id price s) :
    Collected mint id site price call s := by
  obtain ⟨claimed, hrow⟩ := hbound
  obtain ⟨p, hp, hc⟩ := hb mint id call ha
  obtain rfl := Option.some.inj (hrow.symm.trans hp)
  obtain rfl : claimed = true := hc
  exact ⟨ha, hrow, hr⟩

/-! ### The logic of tokens: nothing is ever forbidden, and the books are kept -/

def tokenLogic (X : Payments.Crates) (out : Outside) : Logic (BaseSig κ) (System κ) where
  exec := (System.effects X out).exec
  Inv := System.Booked
  Rely _ := System.Grows
  Needs _ _ _ := True

/-- The same for programs with timers. -/
abbrev tokenTimers (X : Payments.Crates) (out : Outside) : Logic (ServiceSig κ) (System κ) :=
  (tokenLogic X out).timers (System.effects X out).cut System.leave

theorem exec_booked {X : Payments.Crates} (h : s.Booked) {o : (ServiceSig κ).Op}
    {r : (ServiceSig κ).Res o}
    (he : ((System.effects X out).timers System.leave).exec call s o r s') :
    s.Grows s' ∧ s'.Booked := by
  cases o with
  | plain o => exact System.Booked.exec h he
  | timed o =>
    cases r with
    | some r => exact System.Booked.exec (r := r) h he
    | none =>
      obtain ⟨s₁, hc, rfl⟩ := he
      obtain ⟨hg, hb⟩ := h.cut hc
      obtain ⟨hg', hb'⟩ := hb.leave call
      exact ⟨hg.trans hg', hb'⟩

theorem tokenTimers_lasting (X : Payments.Crates) (out : Outside) :
    (tokenTimers (κ := κ) X out).Lasting where
  refl _ := System.Grows.refl
  trans _ _ _ _ := System.Grows.trans
  own _ _ _ _ _ hb _ he _ := (exec_booked hb he).1

/-- The logic of tokens as the programs of one wallet see it. -/
abbrev walletLogic (X : Payments.Crates) (out : Outside) (mint : String) :
    Logic WalletSig (System κ) := (tokenLogic X out).along (onWallet κ mint)

variable {P : Payments.Crates}

theorem walletLogic_lasting (P : Payments.Crates) (out : Outside) (mint : String) :
    (walletLogic (κ := κ) P out mint).Lasting :=
  (tokenTimers_lasting P out).ofTimers.along _

/-- A wallet operation of the service is one of its wallet. -/
theorem walletLogic_exec {o : WalletOp} {r : WalletSig.Res o}
    (h : (walletLogic P out mint).exec call s o r s') :
    ∃ w notes, (s.wallets mint).exec (out.quotes mint) call s.clock (s.directory = some .server)
      o r w notes ∧ s' = s.setWallet mint w notes := by
  obtain ⟨r', rfl, h⟩ := h
  exact h

@[simp] theorem setWallet_wallets (s : System κ) (mint : String) (w : Wallet) (notes : List Note) :
    (s.setWallet mint w notes).wallets mint = w := update_self ..

theorem safe_claim (hb : Bound mint id site price s) (hr : Redeemed mint id price s) :
    Stage.safe (walletLogic P out mint) call (Payments.claim id)
      (fun _ => Collected mint id site price call) (fun _ _ => True) s := by
  have hL := walletLogic_lasting (κ := κ) P out mint
  unfold Payments.claim
  refine safe_ledger_bind hL (fun _ _ _ => trivial) (fun claimed s₁ s₂ hs₁ _ he hi₂ h₁₂ => ?_)
  refine Stage.safe_stopIf (fun _ _ _ _ => trivial) (fun hc s' hs' hi' => ?_)
  obtain rfl : claimed = true := by simpa using hc
  obtain ⟨w, notes, hw, rfl⟩ := walletLogic_exec he
  have hadm : Admitted mint id call (s₁.setWallet mint w notes) := by
    obtain ⟨⟨-, rfl⟩, -⟩ := hw
    simp only [Admitted, setWallet_wallets, cond_true, Table.lookup_insert_eq, if_pos]
  have hs := (hs₁.trans h₁₂).trans hs'
  exact collected_of_admitted hi' (hadm.grows hs') (hb.grows hs) (hr.grows hs)

theorem safe_redeem {proofs : List Payments.Proof} {encoded : String}
    (hb : Bound mint id site price s) :
    Stage.safe (walletLogic P out mint) call (redeem id price proofs encoded)
      (fun _ => Collected mint id site price call) (fun _ _ => True) s := by
  have hL := walletLogic_lasting (κ := κ) P out mint
  unfold redeem
  refine Stage.safe_quiet_bind hL (fun _ _ => trivial) (fun _ => ?_)
  refine safe_cdk_bind hL (fun _ _ _ => trivial) (fun amount s₁ s₂ hs₁ _ he hi₂ h₁₂ => ?_)
  refine Stage.safe_stopIf_bind (fun _ _ _ _ => trivial) (fun hle => ?_)
  refine Stage.safe_quiet_bind hL (fun _ _ => trivial) (fun _ => ?_)
  obtain ⟨w, notes, hw, rfl⟩ := walletLogic_exec he
  have hr : Redeemed mint id price (s₁.setWallet mint w notes) := by
    obtain ⟨c', -, ⟨t, ht, hdir, hstatus, hmemo, hamount⟩, rfl, -⟩ := hw
    refine ⟨t, by simpa using ht, hdir, hstatus, hmemo, ?_⟩
    rw [hamount]
    simpa using hle
  exact safe_claim (hb.grows (hs₁.trans h₁₂)) hr

theorem safe_grant {proofs : List Payments.Proof} {encoded : String} {r : Reservation}
    (hb : r = .new ∨ r = .pending → Bound mint id site price s) :
    Stage.safe (walletLogic P out mint) call (grant id price proofs encoded r)
      (fun _ => Collected mint id site price call) (fun _ _ => True) s := by
  have hL := walletLogic_lasting (κ := κ) P out mint
  cases r with
  | claimed => exact Stage.safe_throw (fun _ _ _ => trivial)
  | mismatch => exact Stage.safe_throw (fun _ _ _ => trivial)
  | new => exact safe_redeem (hb (.inl rfl))
  | pending =>
    have hb := hb (.inr rfl)
    refine safe_cdk_bind hL (fun _ _ _ => trivial) (fun txs s₁ s₂ hs₁ _ he _ h₁₂ => ?_)
    have hb₂ := hb.grows (hs₁.trans h₁₂)
    split
    · rename_i hany
      refine safe_claim hb₂ ?_
      obtain ⟨w, notes, hw, rfl⟩ := walletLogic_exec he
      obtain ⟨c', -, htxs, rfl, -⟩ := hw
      obtain rfl : txs = _ := htxs
      obtain ⟨t, ht, hred⟩ := List.any_eq_true.mp hany
      obtain ⟨ht, hdir⟩ := List.mem_filter.mp ht
      simp only [redeems, Bool.and_eq_true, beq_iff_eq, decide_eq_true_eq] at hred hdir
      exact ⟨t, by simpa using ht, hdir, hred.1.2, hred.1.1, hred.2⟩
    · exact safe_redeem hb₂

/-- A token that is collected was valid, and leaves its admission behind. -/
theorem safe_collectInner {policy : PaymentPolicy} {encoded : String} :
    Stage.safe (walletLogic P out policy.mint) call (collectInner P site policy encoded)
      (fun _ s => ∃ token, validateToken P policy encoded = .ok token ∧
        Collected policy.mint (tokenId P token) site policy.price call s) (fun _ _ => True) s := by
  have hL := walletLogic_lasting (κ := κ) P out policy.mint
  have hall : ∀ {β : Type} (t : Stage WalletSig PaymentError β), t.All (fun o => ∀ s,
      (walletLogic (κ := κ) P out policy.mint).Inv s → (walletLogic P out policy.mint).Needs call o s) :=
    fun t => Prog.all_of_forall _ (fun _ _ _ => trivial)
  unfold collectInner
  refine Stage.safe_ofExcept_bind (fun _ _ _ _ _ => trivial) (fun token htoken => ?_)
  refine Stage.safe_skip hL (hall _) (fun _ => Stage.safe_skip hL (hall _) (fun _ => ?_))
  refine Stage.safe_skip hL (hall _) (fun _ => Stage.safe_skip hL (hall _) (fun keysets => ?_))
  refine Stage.safe_ofExcept_bind (fun _ _ _ _ _ => trivial) (fun proofs _ => ?_)
  refine Stage.safe_skip hL (hall _) (fun fees => ?_)
  refine Stage.safe_ofExcept_bind (fun _ _ _ _ _ => trivial) (fun _ _ => ?_)
  refine safe_ledger_bind hL (fun _ _ _ => trivial) (fun r s₁ s₂ hs₁ _ he _ h₁₂ => ?_)
  refine Stage.safe_mono hL (safe_grant (fun hr => ?_))
    (fun _ _ _ _ hc => ⟨token, htoken, hc⟩) (fun _ _ _ _ _ => trivial)
  obtain ⟨w, notes, ⟨⟨hr', rfl⟩, -⟩, rfl⟩ := walletLogic_exec he
  refine ⟨false, ?_⟩
  rw [setWallet_wallets]
  exact Ledger.lookup_reserve (Prod.ext hr'.symm rfl) hr

end

/-! ### The outline -/

section

variable {κ : Type} {X : Service.Crates κ} {out : Outside}

/-- What an answer says about the tokens. -/
def tokenPost (X : Service.Crates κ) (call : ℕ) : Request → Answer → System κ → Prop
  | .collect site policy encoded, .collected (.ok ()), s =>
    ∃ token, validateToken X.payments policy encoded = .ok token ∧
      Collected policy.mint (tokenId X.payments token) site policy.price call s
  | _, _, _ => True

theorem tokenPost_grows {call : ℕ} {q : Request} {a : Answer} {s s' : System κ}
    (hs : s.Grows s') (h : tokenPost X call q a s) : tokenPost X call q a s' := by
  unfold tokenPost at h ⊢
  split
  · obtain ⟨token, htoken, hc⟩ := h
    exact ⟨token, htoken, hc.grows hs⟩
  · trivial

theorem tokenTimers_needs (P : Payments.Crates) (i : ℕ) (o : (ServiceSig κ).Op) (s : System κ) :
    (tokenTimers P out).Needs i o s := by
  cases o <;> trivial

variable [DecidableEq κ]

theorem safe_collect {call : ℕ} {s : System κ} {site : String} {policy : PaymentPolicy}
    {encoded : String} :
    (tokenTimers X.payments out).safe call (code X (.collect site policy encoded))
      (tokenPost X call (.collect site policy encoded)) s := by
  have hL := tokenTimers_lasting (κ := κ) X.payments out
  refine Logic.safe_bind hL (safe_timed hL (fun _ _ => trivial) safe_collectInner ?_)
    (fun r s' _ _ hr => Logic.safe_ret (fun s'' hs'' _ => ?_))
  · rintro _ s₁ s₂ hs ⟨token, htoken, hc⟩
    exact ⟨token, htoken, hc.grows hs⟩
  · cases r with
    | error e => trivial
    | ok u => exact tokenPost_grows hs'' (q := .collect site policy encoded) hr

/-- The proof outline: the books are kept, and a collected token is admitted. -/
def tokens (X : Service.Crates κ) (out : Outside) : Outline (machine X out) where
  Inv := System.Booked
  Rely _ := System.Grows
  Needs := (tokenTimers X.payments out).Needs
  Hist := System.Grows
  Post := tokenPost X
  rely_refl _ := System.Grows.refl
  rely_trans _ _ _ _ := System.Grows.trans
  rely_hist _ _ _ h := h
  hist_trans _ _ _ := System.Grows.trans
  post_hist _ _ _ _ _ hs h := tokenPost_grows hs h
  init s hs := by
    obtain ⟨time, -, rfl⟩ := hs
    intro mint id call h
    exact absurd h (by simp)
  start i s q hi _ := by
    cases q
    case collect => exact safe_collect.wp (tokenTimers_lasting X.payments out) hi
    all_goals
      exact Logic.wp_mono
        (Logic.wp_of_all (Prog.all_of_forall _ (fun o s _ => tokenTimers_needs X.payments i o s)))
        (fun _ _ _ => trivial)
  exec i s o r s' hi _ he := by
    obtain ⟨hg, hb⟩ := exec_booked hi he
    exact ⟨hb, fun _ _ => hg⟩
  cut i s o s' hi _ hc := by
    obtain ⟨hg, hb⟩ : s.Grows s' ∧ s'.Booked := by
      cases o with
      | plain o =>
        have hc : (System.effects X.payments out).cut i s o s' := hc
        exact hi.cut hc
      | timed o =>
        have hc : (System.effects X.payments out).cut i s o s' := hc
        exact hi.cut hc
    exact ⟨hb, fun _ _ => hg⟩
  env s s' hi he := by
    obtain ⟨hg, hb⟩ := hi.env he
    exact ⟨hb, fun _ => hg⟩
  release i s hi := by
    obtain ⟨hg, hb⟩ := hi.release i
    exact ⟨hb, fun _ _ => hg⟩
  crash s s' hi hc := by
    obtain rfl : s' = s.exit := hc
    exact ⟨hi.exit.2, hi.exit.1⟩

end

end Geata.Service
