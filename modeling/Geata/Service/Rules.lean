import Geata.Payments.Footprint
import Geata.Service.Machine

namespace Geata.Service

open Geata.Lib Geata.Lightning Geata.Payments

/-!
# Rules for the programs of the service

How the building blocks of the service behave in a logic of lasting facts, and which operations
they perform.

* `code_within` — on a wallet, every call keeps to its own part of the operations.
-/

section

variable {κ σ ε α : Type} {L : Logic (BaseSig κ) σ} {cut : ℕ → σ → BaseOp κ → σ → Prop}
  {leave : ℕ → σ → σ} {i : ℕ} {s : σ} {Q : α → σ → Prop}

/-- A wallet program under the payment timer ends as it would without one, or with an error. -/
theorem safe_timed (hL : (L.timers cut leave).Lasting) {mint : String} {elapsed : ε}
    {body : Stage WalletSig ε α}
    (hunlock : ∀ s, L.Inv s → L.Needs i (.wallet mint (.session .unlock)) s)
    (hbody : Stage.safe (L.along (onWallet κ mint)) i body Q (fun _ _ => True) s)
    (hstable : ∀ a s₁ s₂, L.Rely i s₁ s₂ → Q a s₁ → Q a s₂) :
    (L.timers cut leave).safe i (timed mint elapsed body) (Stage.post Q (fun _ _ => True)) s := by
  -- a fired timer is the error `elapsed`, of which nothing is claimed
  refine Logic.safe_bind hL (R := fun r => Stage.post Q (fun _ _ => True) (r.getD (.error elapsed)))
    (Logic.safe_timeout hL (Logic.safe_lift ?_) (fun _ _ _ => trivial)) ?_
  · refine safe_guarded (hL.ofTimers.along _) hunlock hbody (fun r s₁ s₂ hs hr => ?_)
    cases r with
    | ok a => exact hstable a s₁ s₂ hs hr
    | error e => trivial
  · refine fun r s' _ _ hr => Logic.safe_ret (fun s'' hs'' _ => ?_)
    cases h : r.getD (.error elapsed) with
    | ok a => rw [h] at hr; exact hstable a s' s'' hs'' hr
    | error e => trivial

/-- An operation of `Lightning`, with what its answer teaches. -/
theorem safe_perform_bind {T : Logic (ServiceSig κ) σ} (hT : T.Lasting) {e : ε}
    {o : LightningOp κ} {k : o.Answer → Stage (ServiceSig κ) ε α}
    (hneeds : ∀ s₁, T.Rely i s s₁ → T.Inv s₁ → T.Needs i (.plain (.lightning o)) s₁)
    (h : ∀ a s₁ s₂, T.Rely i s s₁ → T.Inv s₁ → T.exec i s₁ (.plain (.lightning o)) (some a) s₂ →
      T.Inv s₂ → T.Rely i s₁ s₂ → Stage.safe T i (k a) Q (fun _ _ => True) s₂) :
    Stage.safe T i (perform e o >>= k) Q (fun _ _ => True) s := by
  unfold perform
  rw [bind_assoc]
  refine Stage.safe_perform_bind hT hneeds (fun r s₁ s₂ hs₁ hi₁ he hi₂ h₁₂ => ?_)
  refine Stage.safe_ofExcept_bind (fun _ _ _ _ _ => trivial) (fun a ha => ?_)
  obtain rfl := context_eq_ok.mp ha
  exact h a s₁ s₂ hs₁ hi₁ he hi₂ h₁₂

/-- A transaction on the settlement database, with what its answer teaches. -/
theorem safe_transact_bind {T : Logic (ServiceSig κ) σ} (hT : T.Lasting) {e : ε}
    {o : LightningOp κ} {k : o.Answer → Stage (ServiceSig κ) ε α}
    (hopen : ∀ s₁, T.Inv s₁ → T.Needs i (.plain (.lightning .database)) s₁)
    (hneeds : ∀ s₁, T.Rely i s s₁ → T.Inv s₁ → T.Needs i (.plain (.lightning o)) s₁)
    (h : ∀ a s₁ s₂, T.Rely i s s₁ → T.Inv s₁ → T.exec i s₁ (.plain (.lightning o)) (some a) s₂ →
      T.Inv s₂ → T.Rely i s₁ s₂ → Stage.safe T i (k a) Q (fun _ _ => True) s₂) :
    Stage.safe T i (transact e o >>= k) Q (fun _ _ => True) s := by
  unfold transact
  rw [bind_assoc]
  refine safe_perform_bind hT (fun s₁ _ => hopen s₁) (fun _ s₁ s₂ hs₁ _ _ _ h₁₂ => ?_)
  have hs₂ := hT.trans i _ _ _ hs₁ h₁₂
  exact safe_perform_bind hT (fun s₃ hs₃ => hneeds s₃ (hT.trans i _ _ _ hs₂ hs₃))
    (fun a s₃ s₄ hs₃ => h a s₃ s₄ (hT.trans i _ _ _ hs₂ hs₃))

/-- A use of a wallet inside another call. -/
theorem safe_attempt_bind {β : Type} (hL : (L.timers cut leave).Lasting) {mint : String}
    {body : Stage WalletSig Failure β} {Q₁ : β → σ → Prop}
    {k : Except Failure β → Stage (ServiceSig κ) ε α}
    (hunlock : ∀ s, L.Inv s → L.Needs i (.wallet mint (.session .unlock)) s)
    (hbody : Stage.safe (L.along (onWallet κ mint)) i body Q₁ (fun _ _ => True) s)
    (hstable : ∀ a s₁ s₂, L.Rely i s₁ s₂ → Q₁ a s₁ → Q₁ a s₂)
    (hk : ∀ r s', L.Rely i s s' → L.Inv s' → Stage.post Q₁ (fun _ _ => True) r s' →
      Stage.safe (L.timers cut leave) i (k r) Q (fun _ _ => True) s') :
    Stage.safe (L.timers cut leave) i (attempt mint body >>= k) Q (fun _ _ => True) s := by
  refine Stage.safe_bind hL (R := fun r => Stage.post Q₁ (fun _ _ => True) r)
    (F := fun _ _ => True) ?_ hk (fun _ _ _ _ _ => trivial)
  refine Logic.safe_bind hL (safe_timed hL hunlock hbody hstable) (fun r s' _ _ hr => ?_)
  refine Logic.safe_ret (fun s'' hs'' _ => ?_)
  cases r with
  | ok a => exact hstable a s' s'' hs'' hr
  | error e => trivial

end

/-! ### Triples -/

section

variable {κ σ ε : Type} {T : Logic (ServiceSig κ) σ} {i : ℕ} {P : σ → Prop}

theorem triple_service_perform {e : ε} {o : LightningOp κ} {R : o.Answer → σ → Prop}
    (hstable : T.Stable i P) (hneeds : ∀ s, T.Inv s → P s → T.Needs i (.plain (.lightning o)) s)
    (hexec : ∀ a s s', T.Inv s → P s → T.exec i s (.plain (.lightning o)) (some a) s' →
      T.Inv s' → R a s') :
    Stage.Triple T i P (perform e o) R := by
  unfold perform
  refine Stage.triple_bind (R := fun r s => ∀ a, r = some a → R a s)
    (Stage.triple_perform hstable hneeds ?_) (fun r s _ hr => ?_)
  · rintro r s s' hi hp he hi' a rfl
    exact hexec a s s' hi hp he hi'
  · cases r with
    | none => trivial
    | some a => exact hr a rfl

end

/-! ### Which operations the building blocks perform -/

section

variable {κ ε α : Type} {P : (ServiceSig κ).Op → Prop}

@[simp] theorem all_service_perform {e : ε} {o : LightningOp κ} :
    Stage.All (α := no_index o.Answer) P (perform e o) ↔ P (.plain (.lightning o)) := by
  unfold perform
  rw [Stage.all_bind]
  exact ⟨fun h => h.1.1, fun h => ⟨⟨h, fun _ => trivial⟩, fun _ _ _ => trivial⟩⟩

theorem all_transact {e : ε} {o : LightningOp κ} (hd : P (.plain (.lightning .database)))
    (ho : P (.plain (.lightning o))) : Stage.All (α := no_index o.Answer) P (transact e o) := by
  unfold transact
  rw [Stage.all_bind]
  exact ⟨all_service_perform.mpr hd, fun _ _ _ => all_service_perform.mpr ho⟩

theorem all_timed {mint : String} {elapsed : ε} {body : Stage WalletSig ε α}
    (hu : P (.timed (.wallet mint (.session .unlock))))
    (hb : body.All (fun o => P (.timed (.wallet mint o)))) :
    (timed mint elapsed body).All P :=
  Prog.all_bind.mpr ⟨Prog.all_timeout (Prog.all_lift (all_guarded hu hb)), fun _ _ _ => trivial⟩

theorem all_attempt {mint : String} {body : Stage WalletSig Failure α}
    (hu : P (.timed (.wallet mint (.session .unlock))))
    (hb : body.All (fun o => P (.timed (.wallet mint o)))) :
    Stage.All P (attempt mint body : Stage (ServiceSig κ) ε (Except Failure α)) :=
  Prog.all_bind.mpr ⟨all_timed hu hb, fun _ _ _ => trivial⟩

theorem all_command {mint : String} {body : Stage WalletSig Failure α}
    (hd : P (.plain (.lockDirectory mint))) (hb : body.All (fun o => P (.plain (.wallet mint o)))) :
    (command mint body : Prog (ServiceSig κ) (Except Failure α)).All P := by
  refine ⟨hd, fun r => ?_⟩
  cases r with
  | true => exact Prog.all_lift (Prog.all_lift hb)
  | false => trivial

end

/-! ### Footprints -/

section

variable {κ : Type}

/-- The cursor and the writes of the cleanup pass. -/
def LightningOp.sweeps : LightningOp κ → Bool
  | .tryCursor | .retireQuote _ _ | .removeQuote _ _ => true
  | _ => false

/-- An operation of the given part; only deposits use the settlement database, and only a cleanup
    pass sweeps it. -/
def BaseOp.Within (part : Part) (sweeps : Bool) : BaseOp κ → Prop
  | .wallet _ o => o.Within part
  | .lightning o => part = .deposit ∧ (o.sweeps = true → sweeps = true)
  | .lockDirectory _ => True

/-- The part of the wallet operations that a call uses. -/
def Request.part : Request → Part
  | .collect _ _ _ => .token
  | .settle _ _ _ | .settleL402 _ _ _ | .challenge _ _ _ _ | .pruneExpired
  | .recoverCashuDeposits => .deposit
  | .automaticPayout _ | .pay _ _ _ _ | .pending _ _ => .payout

/-- Whether a call runs a cleanup pass. -/
def Request.sweeps : Request → Bool
  | .recoverCashuDeposits => true
  | _ => false

/-- An operation of a call, with or without a timer. -/
abbrev ServiceWithin (part : Part) (sweeps : Bool) (o : (ServiceSig κ).Op) : Prop :=
  BaseOp.Within part sweeps o.base

variable {part : Part} {sweeps : Bool} {ε α : Type}

/-- The operations of deposits outside a cleanup pass. -/
abbrev DepositOp (o : (ServiceSig κ).Op) : Prop := ServiceWithin .deposit false o

theorem BaseOp.Within.weaken {o : BaseOp κ} (h : o.Within .deposit false) :
    o.Within .deposit true := by
  cases o with
  | wallet mint o => exact h
  | lightning o => exact ⟨rfl, fun _ => rfl⟩
  | lockDirectory mint => trivial

theorem perform_within {e : ε} {o : LightningOp κ} (h : o.sweeps = true → sweeps = true) :
    Stage.All (ServiceWithin .deposit sweeps) (perform e o) := all_service_perform.mpr ⟨rfl, h⟩

theorem transact_within {e : ε} {o : LightningOp κ} (h : o.sweeps = true → sweeps = true) :
    Stage.All (ServiceWithin .deposit sweeps) (transact e o) :=
  all_transact ⟨rfl, fun hd => absurd hd (by simp [LightningOp.sweeps])⟩ ⟨rfl, h⟩

theorem attempt_within {mint : String} {body : Stage WalletSig Failure α}
    (hb : body.All (WalletOp.Within part)) :
    Stage.All (ServiceWithin part sweeps)
      (attempt mint body : Stage (ServiceSig κ) ε (Except Failure α)) :=
  all_attempt (.inl rfl) hb

variable (X : Service.Crates κ)

theorem claim_service_within (key : String) (retainUntil : ℕ) :
    (claim key retainUntil : Stage (ServiceSig κ) Error Unit).All DepositOp :=
  .bind (transact_within nofun) (fun _ => Stage.all_stopIf _ _)

theorem settle_within [DecidableEq κ] (policy : Policy) (hash encoded : String) :
    (settle X policy hash encoded).All DepositOp := by
  unfold settle
  refine .bind (perform_within nofun) (fun time => .bind (Stage.all_ofExcept _) (fun x => ?_))
  exact .bind (claim_service_within _ _) (fun _ => Stage.all_pure _)

theorem collectFunds_within (policy : Policy) (key : String) :
    (collectFunds X policy key).All DepositOp := by
  unfold collectFunds
  split
  · refine .bind (transact_within nofun) (fun record => .bind (Stage.all_ofExcept _) (fun deposit => ?_))
    exact .bind (attempt_within (collectMintInvoice_within X.payments _ _ _))
      (fun _ => Stage.all_ofExcept _)
  · exact Stage.all_pure _

theorem settleL402_within [DecidableEq κ] (policy : Policy) (hash encoded : String) :
    (settleL402 X policy hash encoded).All DepositOp := by
  unfold settleL402
  refine .bind (perform_within nofun) (fun _ => .bind (Stage.all_ofExcept _) (fun x => ?_))
  refine .bind (transact_within nofun) (fun _ => .bind (Stage.all_ofExcept _) (fun y => ?_))
  refine .bind (perform_within nofun) (fun _ => .bind (Stage.all_ofExcept _) (fun _ => ?_))
  exact .bind (collectFunds_within X _ _) (fun _ => claim_service_within _ _)

theorem mintL402_within (policy : Policy) (hash invoice : String) (parsed : Bolt11Invoice) :
    (mintL402 X policy hash invoice parsed).All DepositOp := by
  unfold mintL402
  refine .bind (perform_within nofun) (fun _ => .bind (perform_within nofun) (fun _ => .bind (perform_within nofun) (fun _ => ?_)))
  exact .bind (Stage.all_ofExcept _) (fun _ => .bind (transact_within nofun) (fun _ => Stage.all_pure _))

theorem cashuInvoice_within (policy : Policy) (mint hash : String) :
    (cashuInvoice X policy mint hash).All DepositOp := by
  unfold cashuInvoice
  refine .bind (transact_within nofun) (fun _ => ?_)
  refine .bind (attempt_within (mintInvoice_within _)) (fun answer => ?_)
  refine .bind (Stage.all_ofExcept _) (fun quote => .bind (perform_within nofun) (fun _ => ?_))
  refine .bind (Stage.all_ofExcept _) (fun invoice => .bind (Stage.all_stopIf _ _) (fun _ => ?_))
  refine .bind (perform_within nofun) (fun _ => .bind (Stage.all_ofExcept _) (fun _ => ?_))
  exact .bind (transact_within nofun) (fun _ => Stage.all_pure _)

theorem challenge_within (policy : Policy) (url hash : String) (client : IpAddr) :
    (challenge X policy url hash client).All DepositOp := by
  unfold challenge
  refine .bind (perform_within nofun) (fun _ => .bind (perform_within nofun) (fun _ => ?_))
  refine .bind (perform_within nofun) (fun _ => .bind (transact_within nofun) (fun _ => ?_))
  refine .bind ?_ (fun invoice => ?_)
  · unfold receiverInvoice
    split
    · exact perform_within nofun
    · exact cashuInvoice_within X policy _ hash
  refine .bind (perform_within nofun) (fun _ => .bind (Stage.all_ofExcept _) (fun parsed => .bind ?_ (fun _ => ?_)))
  · unfold challengeL402
    split
    · exact .bind (mintL402_within X policy hash invoice parsed) (fun _ => Stage.all_pure _)
    · exact Stage.all_pure _
  · exact Stage.all_pure _

theorem pruneExpired_within :
    (pruneExpired : Stage (ServiceSig κ) Failure Unit).All DepositOp := by
  unfold pruneExpired
  refine .bind (perform_within nofun) (fun found => ?_)
  split
  · exact transact_within nofun
  · exact Stage.all_pure _

theorem pruneDeposit_within (time : ℕ) (key : String) (deposit : Deposit) :
    (pruneDeposit X time key deposit).All (ServiceWithin .deposit true) := by
  unfold pruneDeposit
  refine .bind (perform_within (fun _ => rfl)) (fun _ => .bind (Stage.all_ofExcept _) (fun invoice => ?_))
  -- case analysis would otherwise unfold the deadline
  generalize invoice.retainUntil = last
  refine Stage.all_ite.mpr ⟨fun _ => Stage.all_pure _, fun _ => .bind ?_ (fun retired => ?_)⟩
  · unfold retireDeposit
    split
    · exact Stage.all_pure _
    · refine .bind (attempt_within (canPruneMintDeposit_within X.payments _ _ _)) (fun answer => ?_)
      split
      · exact .bind (perform_within (fun _ => rfl)) (fun _ => Stage.all_pure _)
      · exact Stage.all_pure _
  · split
    · refine .bind (attempt_within (removeRetiredMintQuote_within _)) (fun answer => ?_)
      split
      · exact perform_within (fun _ => rfl)
      · exact Stage.all_pure _
    · exact Stage.all_pure _

theorem pruneDeposits_within (time : ℕ) (deposits : List (String × Deposit)) :
    (pruneDeposits X time deposits).All (ServiceWithin .deposit true) := by
  induction deposits with
  | nil => exact Stage.all_pure _
  | cons row rest ih => exact .bind (pruneDeposit_within X time _ _) (fun _ => ih)

theorem recoverMints_within (mints : List (String × List String)) :
    (recoverMints X mints).All DepositOp := by
  induction mints with
  | nil => exact Stage.all_pure _
  | cons row rest ih =>
    exact .bind (attempt_within (recoverMintDeposits_within X.payments _)) (fun _ => ih)

theorem recoverCashuDeposits_within :
    (recoverCashuDeposits X).All (ServiceWithin .deposit true) := by
  unfold recoverCashuDeposits
  refine .bind (perform_within (fun _ => rfl)) (fun found => ?_)
  split
  · refine .bind (transact_within (fun _ => rfl)) (fun mints => .bind ((recoverMints_within X mints).mono (fun _ => BaseOp.Within.weaken)) (fun _ => ?_))
    refine .bind (perform_within (fun _ => rfl)) (fun cursor => .bind (transact_within (fun _ => rfl)) (fun deposits => ?_))
    exact .bind (perform_within (fun _ => rfl)) (fun time => pruneDeposits_within X time _)
  · exact Stage.all_pure _

/-- **Footprint.**  On a wallet, every call keeps to its own part of the operations. -/
theorem code_within [DecidableEq κ] (q : Request) : (code X q).All (ServiceWithin q.part q.sweeps) := by
  have hret : ∀ {β : Type} {p : Prog (ServiceSig κ) β} {f : β → Answer} {part : Part} {sweeps : Bool},
      p.All (ServiceWithin part sweeps) →
      (p.bind (fun r => .ret (f r))).All (ServiceWithin part sweeps) :=
    fun hp => Prog.all_bind.mpr ⟨hp, fun _ _ _ => trivial⟩
  cases q with
  | collect site policy encoded =>
    exact hret (all_timed (.inl rfl) (collectInner_within X.payments site policy encoded))
  | settle policy hash encoded => exact hret (settle_within X policy hash encoded)
  | settleL402 policy hash encoded => exact hret (settleL402_within X policy hash encoded)
  | challenge policy url hash client => exact hret (challenge_within X policy url hash client)
  | pruneExpired => exact hret pruneExpired_within
  | recoverCashuDeposits => exact hret (recoverCashuDeposits_within X)
  | automaticPayout policy =>
    exact hret (Prog.all_lift (Prog.all_lift
      (all_guarded (.inl rfl) ((automaticPayout_pays X.payments policy).mono (fun _ => And.left)))))
  | pay mint encoded amount maxTotal =>
    exact hret (all_command trivial
      ((pay_pays X.payments mint encoded amount maxTotal).mono (fun _ => And.left)))
  | pending mint reclaim =>
    exact hret (all_command trivial ((pending_pays X.payments reclaim).mono (fun _ => And.left)))

/-- What a call may send in all, if it pays. -/
def Request.cap : Request → Option ℕ
  | .automaticPayout policy => some policy.cap
  | .pay _ _ _ maxTotal => some maxTotal.toNat
  | _ => none

/-- On a wallet, a confirmed send is within the cap. -/
def BaseOp.Capped (cap : Option ℕ) : BaseOp κ → Prop
  | .wallet _ o => o.Capped cap
  | _ => True

/-- **Caps.**  Every send that a call confirms is within the call's cap. -/
theorem code_capped [DecidableEq κ] (q : Request) :
    (code X q).All (fun o : (ServiceSig κ).Op => BaseOp.Capped q.cap o.base) := by
  have hret : ∀ {β : Type} {p : Prog (ServiceSig κ) β} {f : β → Answer} {P : (ServiceSig κ).Op → Prop},
      p.All P → (p.bind (fun r => .ret (f r))).All P :=
    fun hp => Prog.all_bind.mpr ⟨hp, fun _ _ _ => trivial⟩
  by_cases hpart : q.part = .payout
  · cases q with
    | automaticPayout policy =>
      exact hret (Prog.all_lift (Prog.all_lift (all_guarded trivial
        ((automaticPayout_pays X.payments policy).mono (fun _ => And.right)))))
    | pay mint encoded amount maxTotal =>
      exact hret (all_command trivial
        ((pay_pays X.payments mint encoded amount maxTotal).mono (fun _ => And.right)))
    | pending mint reclaim =>
      exact hret (all_command trivial
        ((pending_pays X.payments reclaim).mono (fun _ => And.right)))
    | _ => exact absurd hpart (by simp [Request.part])
  · refine (code_within X q).mono (fun o ho => ?_)
    unfold BaseOp.Capped
    split
    · rename_i m o' heq
      have ho : BaseOp.Within q.part q.sweeps o.base := ho
      rw [heq] at ho
      exact WalletOp.Within.capped ho hpart
    · trivial

end

end Geata.Service
