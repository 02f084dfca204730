import Geata.Lib.Final
import Geata.Payments.Identity

namespace Geata.Payments

open Geata.Lib

/-!
# An unavailable payment

`Payments::collect` runs `collect_inner` under a timer and answers `Unavailable`, with the advice to
retry the same token, whenever the timer fires or something fails.  A ledger transaction goes on
without its caller, so that advice is right unless the transaction that stayed unanswered is the claim.

* `Performs` — what a call makes of the wallet, operation by operation, up to where the timer fires.
* `Truthful` — the token was not used up by the call and can still be presented.
* `finishes_collectInner` — the claim is the last operation and comes after a granted reservation.
-/

variable (X : Crates)

/-- `Payments::collect` -/
def collect (site : String) (policy : PaymentPolicy) (encoded : String) :
    Prog WalletSig.timers (Except PaymentError Unit) :=
  (guarded (collectInner X site policy encoded)).timeout.bind
    (fun r => .ret (r.getD (.error .unavailable)))

/-! ### What a call makes of the wallet -/

/-- The operations that are awaited, at which the timer can fire.  The lock of the map of wallets is
    awaited before `try_lock`. -/
def WalletOp.waits : WalletOp → Bool
  | .session .tryLock | .session .open | .ledger _ | .cdk _ => true
  | .session _ => false

/-- The operations of a call of the server.  Where the timer fires the future is dropped, and the
    guard of the lock with it. -/
inductive Performs (makes : MintQuote → Prop) (call : ℕ) :
    Wallet → List WalletSig.timers.Event → Wallet → Prop where
  | done (w : Wallet) : Performs makes call w [] w
  | exec {o : WalletOp} {r : WalletSig.Res o} {w w₁ w' : Wallet} {time : ℕ} {notes : List Note}
      {tr : List WalletSig.timers.Event} (he : w.exec makes call time true o r w₁ notes)
      (h : Performs makes call w₁ tr w') : Performs makes call w (answered ⟨o, r⟩ :: tr) w'
  | fired {o : WalletOp} {w w₁ : Wallet} {notes : List Note} (ho : o.waits = true)
      (hc : w.cut makes o w₁ notes) : Performs makes call w [⟨.timed o, none⟩] (w₁.unlock call)

/-- The ledger after a call, before and after the transactions that the call left behind have run. -/
def Wallet.Leaves (w w' : Wallet) (l : Ledger) : Prop :=
  l = w'.ledger ∨ ∃ left, w'.detached = left ++ w.detached ∧ l = (left.foldl Wallet.commit w').ledger

namespace Ledger

/-- The token was used up. -/
def Claimed (l : Ledger) (id : String) : Prop :=
  ∃ p, l.payments.lookup id = some p ∧ p.claimed = true

/-- A retry of the token for this site and price goes on from its reservation. -/
def Available (l : Ledger) (id site : String) (price : UInt32) : Prop :=
  (l.reserve id site price).1 = .new ∨ (l.reserve id site price).1 = .pending

end Ledger

/-- A call used up no token and kept the token's admission for a retry. -/
structure Truthful (id site : String) (price : UInt32) (w w' : Wallet) : Prop where
  claimed : ∀ l, w.Leaves w' l → l.Claimed id → w.ledger.Claimed id
  available : w.ledger.Available id site price → ∀ l, w.Leaves w' l → l.Available id site price

/-- The claim was begun, and ended with a storage error or not before the timer. -/
def ClaimUnanswered (id : String) (tr : List WalletSig.timers.Event) : Prop :=
  ⟨.timed (.ledger (.claim id)), none⟩ ∈ tr ∨ ⟨.timed (.ledger (.claim id)), some none⟩ ∈ tr

/-! ### The transactions on the token -/

section

variable {l l' : Ledger} {id site : String} {price : UInt32}

theorem Ledger.available_iff : l.Available id site price ↔
    l.payments.lookup id = none ∨ l.payments.lookup id = some ⟨site, price, false⟩ := by
  unfold Ledger.Available
  rcases Ledger.reserve_cases l id site price with
    ⟨hnone, he⟩ | ⟨old, hold, ⟨hne, he⟩ | ⟨rfl, he⟩ | ⟨rfl, he⟩⟩
  · simp [hnone, he]
  · rw [he, hold]
    constructor
    · intro h
      simp at h
    · rintro (h | h)
      · exact absurd h (by simp)
      · obtain rfl := Option.some.inj h
        simp at hne
  · simp [hold, he]
  · simp [hold, he]

theorem Ledger.not_claimed_of_available (h : l.Available id site price) : ¬ l.Claimed id := by
  rintro ⟨p, hp, hc⟩
  rcases Ledger.available_iff.mp h with hrow | hrow
  · rw [hrow] at hp
    exact absurd hp (by simp)
  · obtain rfl := Option.some.inj (hrow.symm.trans hp)
    exact absurd hc (by simp)

/-- A reservation uses up nothing. -/
theorem Ledger.claimed_reserve :
    (l.reserve id site price).2.Claimed id ↔ l.Claimed id := by
  rcases Ledger.reserve_cases l id site price with
    ⟨hnone, he⟩ | ⟨old, hold, ⟨hne, he⟩ | ⟨rfl, he⟩ | ⟨rfl, he⟩⟩
  · rw [he]
    simp [Ledger.Claimed, hnone]
  · rw [he]
  · rw [he]
  · rw [he]

/-- The reservation of an available token. -/
theorem Ledger.lookup_reserve_available (h : l.Available id site price) :
    (l.reserve id site price).2.payments.lookup id = some ⟨site, price, false⟩ :=
  Ledger.lookup_reserve rfl h

theorem Ledger.available_reserve (h : l.Available id site price) :
    (l.reserve id site price).2.Available id site price :=
  Ledger.available_iff.mpr (.inr (Ledger.lookup_reserve_available h))

/-- A claim of a reserved token uses it up. -/
theorem Ledger.claimed_claim (h : l.payments.lookup id = some ⟨site, price, false⟩) :
    (l.claim id).2.Claimed id := by
  refine ⟨⟨site, price, true⟩, ?_, rfl⟩
  unfold Ledger.claim
  rw [h]
  show (l.payments.insert id ⟨site, price, true⟩).lookup id = _
  rw [Table.lookup_insert_eq, if_pos rfl]

/-! ### Operations that use up nothing -/

/-- The operations of a call before its claim. -/
def WalletOp.Spares (id site : String) (price : UInt32) : WalletOp → Prop
  | .ledger o => o = .reserve id site price
  | _ => True

/-- A ledger before and after such operations. -/
def Ledger.Reserves (id site : String) (price : UInt32) (l l' : Ledger) : Prop :=
  l' = l ∨ l' = (l.reserve id site price).2

theorem Ledger.Reserves.claimed (h : l.Reserves id site price l') :
    l'.Claimed id ↔ l.Claimed id := by
  rcases h with rfl | rfl
  · rfl
  · exact Ledger.claimed_reserve

theorem Ledger.Reserves.available (h : l.Reserves id site price l')
    (ha : l.Available id site price) : l'.Available id site price := by
  rcases h with rfl | rfl
  · exact ha
  · exact Ledger.available_reserve ha

theorem Ledger.Reserves.reserved (h : l.Reserves id site price l')
    (hl : l.payments.lookup id = some ⟨site, price, false⟩) :
    l'.payments.lookup id = some ⟨site, price, false⟩ := by
  rcases h with rfl | rfl
  · exact hl
  · exact Ledger.lookup_reserve_available (Ledger.available_iff.mpr (.inr hl))

/-! ### A call before its claim -/

variable {makes : MintQuote → Prop} {call time : ℕ} {w w' : Wallet} {notes : List Note}

theorem exec_spares {o : WalletOp} {r : WalletSig.Res o} (ho : o.Spares id site price)
    (he : w.exec makes call time true o r w' notes) :
    w.ledger.Reserves id site price w'.ledger ∧ w'.detached = w.detached := by
  cases o with
  | session o =>
    obtain ⟨hl, -, -, hd⟩ := Wallet.session_frame he.1
    exact ⟨.inl hl, hd⟩
  | ledger o =>
    obtain rfl := (ho : o = _)
    rcases Wallet.transact_cases he.1 with rfl | rfl | ⟨id', heq, -⟩
    · exact ⟨.inl rfl, rfl⟩
    · exact ⟨.inr rfl, rfl⟩
    · exact absurd heq nofun
  | cdk o =>
    obtain ⟨hl, hd⟩ := Wallet.cdk_frame he
    exact ⟨.inl hl, hd⟩

/-- An operation at which the timer fires: its transaction is committed, or not, or left behind. -/
theorem cut_spares {o : WalletOp} (ho : o.Spares id site price) (hc : w.cut makes o w' notes) :
    w.ledger.Reserves id site price w'.ledger ∧
      (w'.detached = w.detached ∨ w'.detached = .reserve id site price :: w.detached) := by
  cases o with
  | session o =>
    obtain ⟨rfl, -⟩ := hc
    exact ⟨.inl rfl, .inl rfl⟩
  | ledger o =>
    obtain rfl := (ho : o = _)
    rcases hc.1 with rfl | rfl | rfl
    · exact ⟨.inl rfl, .inl rfl⟩
    · exact ⟨.inr rfl, .inl rfl⟩
    · exact ⟨.inl rfl, .inr rfl⟩
  | cdk o =>
    obtain ⟨hl, hd⟩ := Wallet.interrupt_frame hc
    exact ⟨.inl hl, .inl hd⟩

variable {tr : List WalletSig.Event}

/-- What reservations keep is kept. -/
theorem performs_spares {P : Ledger → Prop}
    (hP : ∀ l l', Ledger.Reserves id site price l l' → P l → P l')
    (h : Performs makes call w (tr.map answered) w')
    (hspares : ∀ e ∈ tr, WalletOp.Spares id site price e.1) (hw : P w.ledger) :
    P w'.ledger ∧ w'.detached = w.detached := by
  induction tr generalizing w with
  | nil =>
    cases h
    exact ⟨hw, rfl⟩
  | cons e tr ih =>
    cases h with
    | exec he h =>
      obtain ⟨hl, hd⟩ := exec_spares (hspares e (by simp)) he
      obtain ⟨hw', hd'⟩ := ih h (fun e' he' => hspares e' (by simp [he'])) (hP _ _ hl hw)
      exact ⟨hw', hd'.trans hd⟩

theorem performs_append {tr' : List WalletSig.timers.Event}
    (h : Performs makes call w (tr.map answered ++ tr') w') :
    ∃ v, Performs makes call w (tr.map answered) v ∧ Performs makes call v tr' w' := by
  induction tr generalizing w with
  | nil => exact ⟨w, .done w, h⟩
  | cons e tr ih =>
    cases h with
    | exec he h =>
      obtain ⟨v, h₁, h₂⟩ := ih h
      exact ⟨v, .exec he h₁, h₂⟩

theorem Performs.append {v : Wallet} {tr' : List WalletSig.timers.Event}
    (h : Performs makes call w (tr.map answered) v) (h' : Performs makes call v tr' w') :
    Performs makes call w (tr.map answered ++ tr') w' := by
  induction tr generalizing w with
  | nil =>
    cases h
    exact h'
  | cons e tr ih =>
    cases h with
    | exec he h => exact .exec he (ih h)

/-- The reservation was made, or found to be made already. -/
def Granted (id site : String) (price : UInt32) (tr : List WalletSig.Event) : Prop :=
  ∃ r, (r = .new ∨ r = .pending) ∧ ⟨.ledger (.reserve id site price), some r⟩ ∈ tr

/-- After a granted reservation the token is reserved, and it was not used up before. -/
theorem performs_granted (h : Performs makes call w (tr.map answered) w')
    (hspares : ∀ e ∈ tr, WalletOp.Spares id site price e.1) (hg : Granted id site price tr) :
    w'.ledger.payments.lookup id = some ⟨site, price, false⟩ ∧ ¬ w.ledger.Claimed id := by
  obtain ⟨r, hr, hmem⟩ := hg
  induction tr generalizing w with
  | nil => exact absurd hmem (by simp)
  | cons e tr ih =>
    have hrest : ∀ e' ∈ tr, WalletOp.Spares id site price e'.1 := fun e' he' =>
      hspares e' (by simp [he'])
    cases h with
    | @exec _ _ _ w₁ _ _ _ _ he h =>
      rcases List.mem_cons.mp hmem with rfl | hmem
      · -- the reservation itself
        obtain ⟨rfl, rfl⟩ := he.1
        refine ⟨?_, Ledger.not_claimed_of_available hr⟩
        exact (performs_spares (fun _ _ hl => hl.reserved) h hrest
          (Ledger.lookup_reserve_available hr)).1
      · obtain ⟨hrow, hnot⟩ := ih h hrest hmem
        exact ⟨hrow, fun hc => hnot ((exec_spares (hspares e (by simp)) he).1.claimed.mpr hc)⟩

end

/-! ### Where the claim stands -/

section

variable {id site : String} {price : UInt32} {proofs : List Proof} {encoded : String}

/-- What the answer of the claim makes of the call. -/
def claimOutcome : Option Bool → Except PaymentError Unit
  | none => .error .unavailable
  | some true => .ok ()
  | some false => .error .invalid

theorem finishes_claim {A : List WalletSig.Event → Prop} (hA : A []) :
    (claim id).Finishes (WalletOp.ledger (.claim id)) A claimOutcome := by
  unfold claim ledger
  rw [bind_assoc]
  refine Stage.finishes_perform hA (fun a => ?_)
  cases a with
  | none => rfl
  | some claimed => cases claimed <;> rfl

theorem finishes_redeem {A : List WalletSig.Event → Prop} (hA : ∀ tr, A tr) :
    (redeem id price proofs encoded).Finishes (WalletOp.ledger (.claim id)) A claimOutcome := by
  refine Stage.finishes_bind (all_session.mpr nofun) (fun _ _ _ => ?_)
  refine Stage.finishes_bind (all_cdk.mpr nofun) (fun _ _ _ => ?_)
  refine Stage.finishes_bind (Stage.all_stopIf _ _) (fun _ _ _ => ?_)
  refine Stage.finishes_bind (all_session.mpr nofun) (fun _ _ _ => ?_)
  exact finishes_claim (hA _)

/-- Only a granted reservation leads to the claim. -/
theorem finishes_grant {A : List WalletSig.Event → Prop} {reservation : Reservation}
    (hA : reservation = .new ∨ reservation = .pending → ∀ tr, A tr) :
    (grant id price proofs encoded reservation).Finishes (WalletOp.ledger (.claim id)) A claimOutcome := by
  cases reservation with
  | claimed => exact Stage.finishes_quiet (Stage.all_throw _)
  | mismatch => exact Stage.finishes_quiet (Stage.all_throw _)
  | new => exact finishes_redeem (hA (.inl rfl))
  | pending =>
    refine Stage.finishes_bind (all_cdk.mpr nofun) (fun transactions _ _ => ?_)
    have hA' := hA (.inr rfl)
    split
    · exact finishes_claim (hA' _)
    · exact finishes_redeem (fun _ => hA' _)

theorem ends_ledger {ε : Type} {e : ε} {o : LedgerOp} {a : o.Answer} {tr : List WalletSig.Event}
    (h : Stage.Ends (ledger e o) tr (.ok a)) : tr = [⟨.ledger o, some a⟩] := by
  obtain ⟨r, tr₁, tr₂, rfl, h₁, h₂⟩ := Stage.ends_bind_ok.mp h
  obtain ⟨r', rfl, hr⟩ := Stage.ends_perform.mp h₁
  obtain ⟨rfl, hok⟩ := Stage.ends_ofExcept.mp h₂
  obtain rfl := Except.ok.inj hr
  rw [context_eq_ok.mp hok, List.append_nil]

variable {X} {policy : PaymentPolicy} {token : Token}

/-- **The claim is the last operation** of a call and comes after a granted reservation. -/
theorem finishes_collectInner (hvalid : validateToken X policy encoded = .ok token) :
    (collectInner X site policy encoded).Finishes (WalletOp.ledger (.claim (tokenId X token)))
      (Granted (tokenId X token) site policy.price) claimOutcome := by
  unfold collectInner
  rw [hvalid]
  refine Stage.finishes_bind (Stage.all_ofExcept _) (fun token' tr hends => ?_)
  obtain ⟨rfl, heq⟩ := Stage.ends_ofExcept.mp hends
  obtain rfl := Except.ok.inj heq
  refine Stage.finishes_bind (all_enter (fun _ => nofun)) (fun _ _ _ => ?_)
  refine Stage.finishes_bind (all_recover nofun nofun nofun) (fun _ _ _ => ?_)
  refine Stage.finishes_bind (all_cdk.mpr nofun) (fun _ _ _ => ?_)
  refine Stage.finishes_bind (all_cdk.mpr nofun) (fun _ _ _ => ?_)
  refine Stage.finishes_bind (Stage.all_ofExcept _) (fun _ _ _ => ?_)
  refine Stage.finishes_bind (all_cdk.mpr nofun) (fun _ _ _ => ?_)
  refine Stage.finishes_bind (Stage.all_ofExcept _) (fun _ _ _ => ?_)
  refine Stage.finishes_bind (all_ledger.mpr nofun) (fun reservation tr₁ hends => ?_)
  refine finishes_grant (fun hr tr => ⟨reservation, hr, ?_⟩)
  rw [ends_ledger hends]
  simp

/-- Either the claim itself, or an operation that uses up nothing. -/
def WalletOp.SparesBut (id site : String) (price : UInt32) (o : WalletOp) : Prop :=
  o ≠ .ledger (.claim id) → o.Spares id site price

theorem claim_spares : (claim id).All (WalletOp.SparesBut id site price) :=
  .bind (all_ledger.mpr (fun h => absurd rfl h)) (fun _ => Stage.all_stopIf _ _)

theorem redeem_spares :
    (redeem id price proofs encoded).All (WalletOp.SparesBut id site price) := by
  refine .bind (all_session.mpr (fun _ => trivial)) (fun _ => ?_)
  refine .bind (all_cdk.mpr (fun _ => trivial)) (fun _ => .bind (Stage.all_stopIf _ _) (fun _ => ?_))
  exact .bind (all_session.mpr (fun _ => trivial)) (fun _ => claim_spares)

theorem grant_spares {reservation : Reservation} :
    (grant id price proofs encoded reservation).All (WalletOp.SparesBut id site price) := by
  cases reservation with
  | claimed => exact Stage.all_throw _
  | mismatch => exact Stage.all_throw _
  | new => exact redeem_spares
  | pending =>
    refine .bind (all_cdk.mpr (fun _ => trivial)) (fun transactions => ?_)
    split
    · exact claim_spares
    · exact redeem_spares

/-- Everything but the claim uses up nothing. -/
theorem collectInner_spares (hvalid : validateToken X policy encoded = .ok token) :
    (collectInner X site policy encoded).All
      (WalletOp.SparesBut (tokenId X token) site policy.price) := by
  unfold collectInner
  rw [hvalid]
  refine Stage.all_bind.mpr ⟨Stage.all_ofExcept _, fun token' tr hends => ?_⟩
  obtain ⟨rfl, heq⟩ := Stage.ends_ofExcept.mp hends
  obtain rfl := Except.ok.inj heq
  refine .bind (all_enter (fun _ _ => trivial)) (fun _ => ?_)
  refine .bind (all_recover (fun _ => trivial) (fun _ => trivial) (fun _ => trivial)) (fun _ => ?_)
  refine .bind (all_cdk.mpr (fun _ => trivial)) (fun _ => ?_)
  refine .bind (all_cdk.mpr (fun _ => trivial)) (fun _ => ?_)
  refine .bind (Stage.all_ofExcept _) (fun proofs => .bind (all_cdk.mpr (fun _ => trivial)) (fun _ => ?_))
  refine .bind (Stage.all_ofExcept _) (fun _ => ?_)
  exact .bind (all_ledger.mpr (fun _ => rfl)) (fun reservation => grant_spares)

end

/-! ### Whether an unavailable payment can be retried -/

theorem runs_guarded {ε α : Type} {body : Stage WalletSig ε α} {tr : List WalletSig.Event}
    {r : Except ε α} : (guarded body).Runs tr r ↔
      ∃ tr', body.Ends tr' r ∧ tr = tr' ++ [⟨.session .unlock, ()⟩] := by
  unfold guarded
  rw [Prog.runs_bind]
  constructor
  · rintro ⟨r', tr₁, tr₂, rfl, h₁, h₂⟩
    obtain ⟨u, tr₃, rfl, h₃⟩ := Prog.runs_op.mp h₂
    obtain ⟨rfl, rfl⟩ := Prog.runs_ret.mp h₃
    exact ⟨tr₁, h₁, rfl⟩
  · rintro ⟨tr', h, rfl⟩
    exact ⟨r, tr', _, rfl, h, .op (.ret r)⟩

theorem next_guarded {ε α : Type} {body : Stage WalletSig ε α} {tr : List WalletSig.Event}
    {o : WalletOp} (h : (guarded body).Next tr o) : body.Calls tr o ∨ o = .session .unlock := by
  rcases Prog.next_bind.mp h with h | ⟨r, tr₁, tr₂, rfl, h₁, h₂⟩
  · exact .inl h
  · rcases Prog.next_op.mp h₂ with ⟨rfl, ho⟩ | ⟨u, tr₃, rfl, h₃⟩
    · exact .inr ho.symm
    · exact absurd h₃ Prog.not_next_ret

section

variable {X} {makes : MintQuote → Prop} {call : ℕ} {w w' v : Wallet} {id site : String}
  {price : UInt32} {policy : PaymentPolicy} {token : Token} {encoded : String}
  {tr : List WalletSig.Event}

/-- A call that ends unavailable, by an error or by the timer. -/
theorem runs_collect {tr : List WalletSig.timers.Event}
    (h : (collect X site policy encoded).Runs tr (.error .unavailable)) :
    (∃ tr', (collectInner X site policy encoded).Ends tr' (.error .unavailable) ∧
      tr = (tr' ++ [(⟨.session .unlock, ()⟩ : WalletSig.Event)]).map answered) ∨
    ∃ tr' o, ((collectInner X site policy encoded).Calls tr' o ∨ o = WalletOp.session .unlock) ∧
      tr = tr'.map answered ++ [⟨.timed o, none⟩] := by
  obtain ⟨r, tr₁, tr₂, rfl, h₁, h₂⟩ := Prog.runs_bind.mp h
  obtain ⟨rfl, hr⟩ := Prog.runs_ret.mp h₂
  rw [List.append_nil]
  rcases Prog.runs_timeout.mp h₁ with ⟨a, tr', hrun, rfl, rfl⟩ | ⟨tr', o, hnext, rfl, rfl⟩
  · obtain rfl := (hr : a = _)
    obtain ⟨tr'', hends, rfl⟩ := runs_guarded.mp hrun
    exact .inl ⟨tr'', hends, rfl⟩
  · exact .inr ⟨tr', o, next_guarded hnext, rfl⟩

/-- Nothing but reservations happened, and one may be left to come. -/
theorem truthful_of_spares
    (hl : (w'.ledger.Claimed id → w.ledger.Claimed id) ∧
      (w.ledger.Available id site price → w'.ledger.Available id site price))
    (hd : w'.detached = w.detached ∨ w'.detached = .reserve id site price :: w.detached) :
    Truthful id site price w w' := by
  have hleaves : ∀ l, w.Leaves w' l → w'.ledger.Reserves id site price l := by
    rintro l (rfl | ⟨left, hleft, rfl⟩)
    · exact .inl rfl
    · rcases hd with hd | hd
      · obtain rfl := List.append_left_eq_self.mp (hleft.symm.trans hd)
        exact .inl rfl
      · have hone : left = [.reserve id site price] :=
          List.append_cancel_right (hleft.symm.trans hd)
        rw [hone]
        exact .inr rfl
  exact ⟨fun l h hc => hl.1 ((hleaves l h).claimed.mp hc),
    fun ha l h => (hleaves l h).available (hl.2 ha)⟩

/-- Up to the claim, the call is truthful. -/
theorem kept_of_spares (h : Performs makes call w (tr.map answered) v)
    (hspares : ∀ e ∈ tr, WalletOp.Spares id site price e.1) :
    ((v.ledger.Claimed id → w.ledger.Claimed id) ∧
      (w.ledger.Available id site price → v.ledger.Available id site price)) ∧
    v.detached = w.detached := by
  refine performs_spares (P := fun l => (l.Claimed id → w.ledger.Claimed id) ∧
    (w.ledger.Available id site price → l.Available id site price)) ?_ h hspares ⟨fun h => h, fun h => h⟩
  exact fun l l' hl hP => ⟨fun hc => hP.1 (hl.claimed.mp hc), fun ha => hl.available (hP.2 ha)⟩

/-- A claim that is committed without an answer uses the token up. -/
theorem not_truthful_of_claim (h : Performs makes call w (tr.map answered) v)
    (hspares : ∀ e ∈ tr, WalletOp.Spares id site price e.1) (hg : Granted id site price tr)
    (hw' : w'.ledger = (v.ledger.claim id).2) : ¬ Truthful id site price w w' := by
  obtain ⟨hrow, hnot⟩ := performs_granted h hspares hg
  intro ht
  refine hnot (ht.claimed _ (.inl rfl) ?_)
  rw [hw']
  exact Ledger.claimed_claim hrow

/-- Where nothing but reservations was begun, the call is truthful. -/
theorem truthful_of_performs (h : Performs makes call w (tr.map answered) w')
    (hspares : ∀ e ∈ tr, WalletOp.Spares id site price e.1) : Truthful id site price w w' := by
  obtain ⟨hl, hd⟩ := kept_of_spares h hspares
  exact truthful_of_spares hl (.inl hd)

theorem truthful_of_fired {o : WalletOp}
    (h : Performs makes call w (tr.map answered ++ [⟨.timed o, none⟩]) w')
    (hspares : ∀ e ∈ tr, WalletOp.Spares id site price e.1) (ho : o.Spares id site price) :
    Truthful id site price w w' := by
  obtain ⟨v, h₁, h₂⟩ := performs_append h
  obtain ⟨⟨hc, ha⟩, hd⟩ := kept_of_spares h₁ hspares
  cases h₂ with
  | fired hwaits hcut =>
    obtain ⟨hl, hd'⟩ := cut_spares ho hcut
    apply truthful_of_spares
    · rw [Wallet.unlock_ledger]
      exact ⟨fun h => hc (hl.claimed.mp h), fun h => hl.available (ha h)⟩
    · rw [Wallet.unlock_detached, ← hd]
      exact hd'

theorem not_claimUnanswered {tail : List WalletSig.timers.Event}
    (h : ∀ e ∈ tr, e.1 ≠ WalletOp.ledger (.claim id)) (htail : ¬ ClaimUnanswered id tail) :
    ¬ ClaimUnanswered id (tr.map answered ++ tail) := by
  have hmap : ∀ r, (⟨.timed (.ledger (.claim id)), r⟩ : WalletSig.timers.Event) ∉ tr.map answered := by
    intro r hmem
    obtain ⟨e, he, heq⟩ := List.mem_map.mp hmem
    exact h e he (Sig.TimerOp.timed.inj (congrArg Sigma.fst heq))
  rintro (hmem | hmem)
  · exact htail (.inl ((List.mem_append.mp hmem).resolve_left (hmap _)))
  · exact htail (.inr ((List.mem_append.mp hmem).resolve_left (hmap _)))

/-- **An unavailable payment can be retried** exactly when its claim did not stay unanswered.  For every
    wallet and every way in which the call can end there: it used up no token and the token's admission
    is kept, unless the timer fired, or the storage failed, in the claim. -/
theorem collect_truthful_iff (X : Crates) (makes : MintQuote → Prop) (call : ℕ) (w : Wallet)
    (site : String) (policy : PaymentPolicy) (encoded : String) (token : Token)
    (tr : List WalletSig.timers.Event) (hvalid : validateToken X policy encoded = .ok token)
    (hrun : (collect X site policy encoded).Runs tr (.error .unavailable))
    (hperforms : ∃ w', Performs makes call w tr w') :
    (∀ w', Performs makes call w tr w' → Truthful (tokenId X token) site policy.price w w') ↔
      ¬ ClaimUnanswered (tokenId X token) tr := by
  have hfin : (collectInner X site policy encoded).Finishes _ _ _ := finishes_collectInner hvalid
  have hall : (collectInner X site policy encoded).All _ := collectInner_spares hvalid
  obtain ⟨w₀, hw₀⟩ := hperforms
  rcases runs_collect hrun with ⟨tr', hends, rfl⟩ | ⟨tr', o, hnext, rfl⟩
  · have hspares := hall.ends hends
    rcases hfin.ends tr' _ hends with hnot | ⟨tr'', a, rfl, hcalls, hout⟩
    · -- an error before the claim
      apply iff_of_true
      · refine fun w' hw' => truthful_of_performs hw' (fun e he => ?_)
        rcases List.mem_append.mp he with he | he
        · exact hspares e he (hnot e he)
        · obtain rfl := List.mem_singleton.mp he
          trivial
      · rw [List.map_append]
        exact not_claimUnanswered hnot (by simp [ClaimUnanswered, answered])
    · -- the storage failed in the claim, which may have been committed
      obtain ⟨hnot, hg⟩ := hfin.calls tr'' _ hcalls
      obtain rfl : a = none := by
        cases a with
        | none => rfl
        | some claimed => cases claimed <;> simp [claimOutcome] at hout
      apply iff_of_false
      · intro htruthful
        rw [List.append_assoc, List.map_append] at hw₀ htruthful
        obtain ⟨v, h₁, -⟩ := performs_append hw₀
        have hclaim : v.exec makes call 0 true (.ledger (.claim (tokenId X token))) none
            (v.commit (.claim (tokenId X token))) [] := ⟨.inr rfl, rfl⟩
        have hunlock : (v.commit (.claim (tokenId X token))).exec makes call 0 true
            (.session .unlock) () ((v.commit (.claim (tokenId X token))).unlock call) [] := ⟨rfl, rfl⟩
        have h₂ := h₁.append (.exec hclaim (.exec hunlock (.done _)))
        refine not_truthful_of_claim h₁ (fun e he => ?_) (hg rfl) ?_ (htruthful _ h₂)
        · exact hspares e (by simp [he]) (hnot e he)
        · exact Wallet.unlock_ledger _ call
      · simp [ClaimUnanswered, answered]
  · have hcalls : (collectInner X site policy encoded).Calls tr' o := by
      refine hnext.resolve_right ?_
      rintro rfl
      obtain ⟨v, -, h₂⟩ := performs_append hw₀
      cases h₂ with
      | fired hwaits hcut => exact absurd hwaits (by simp [WalletOp.waits])
    obtain ⟨hspares, ho⟩ := hall.calls hcalls
    obtain ⟨hnot, hg⟩ := hfin.calls tr' o hcalls
    have hspares' := fun e he => hspares e he (hnot e he)
    by_cases hclaim : o = .ledger (.claim (tokenId X token))
    · -- the timer fired in the claim, which goes on
      subst hclaim
      apply iff_of_false
      · intro htruthful
        obtain ⟨v, h₁, -⟩ := performs_append hw₀
        have h₂ : Performs makes call v [⟨.timed (.ledger (.claim (tokenId X token))), none⟩]
            ((v.commit (.claim (tokenId X token))).unlock call) :=
          .fired rfl ⟨.inr (.inl rfl), rfl⟩
        exact not_truthful_of_claim h₁ hspares' (hg rfl) (Wallet.unlock_ledger _ call)
          (htruthful _ (h₁.append h₂))
      · simp [ClaimUnanswered]
    · -- the timer fired before the claim
      apply iff_of_true
      · exact fun w' hw' => truthful_of_fired hw' hspares' (ho hclaim)
      · refine not_claimUnanswered hnot ?_
        rintro (hmem | hmem) <;>
          exact hclaim (Sig.TimerOp.timed.inj (congrArg Sigma.fst (List.mem_singleton.mp hmem))).symm

end

/-! ### A claim that stays unanswered -/

/-- One token is known, worth 5 sats. -/
def testCollect : Crates := { testPayments with
  parseToken := fun encoded => if encoded = "cashuB" then some (testToken ["a"]) else none
  proofs := fun _ _ => some [⟨5, "a", "keyset"⟩] }

def testPrice : PaymentPolicy := ⟨5, "https://mint.example"⟩

/-- A first presentation of a token, up to its claim. -/
def testPresented : List WalletSig.Event :=
  [⟨.session .tryLock, true⟩, ⟨.session .open, true⟩, ⟨.session .needsRecovery, true⟩,
    ⟨.cdk .recoverIncompleteSagas, .ok ⟨0, 0⟩⟩, ⟨.session (.setNeedsRecovery false), ()⟩,
    ⟨.cdk (.verifyTokenDleq (testToken ["a"])), .ok ()⟩, ⟨.cdk .getMintKeysets, .ok none⟩,
    ⟨.cdk (.getProofsFee [⟨5, "a", "keyset"⟩]), .ok (0 : ℕ)⟩,
    ⟨.ledger (.reserve (tokenId testCollect (testToken ["a"])) "site" 5), some .new⟩,
    ⟨.session (.setNeedsRecovery true), ()⟩,
    ⟨.cdk (.receiveProofs [⟨5, "a", "keyset"⟩] (memo (tokenId testCollect (testToken ["a"])))
      "cashuB"), .ok (5 : ℕ)⟩,
    ⟨.session (.setNeedsRecovery false), ()⟩]

/-- The timer fires in the claim. -/
def testTimeout : List WalletSig.timers.Event :=
  testPresented.map answered ++
    [⟨.timed (.ledger (.claim (tokenId testCollect (testToken ["a"])))), none⟩]

theorem validateToken_testCollect :
    validateToken testCollect testPrice "cashuB" = .ok (testToken ["a"]) := by
  decide +kernel

theorem next_testPresented :
    (guarded (collectInner testCollect "site" testPrice "cashuB")).Next testPresented
      (.ledger (.claim (tokenId testCollect (testToken ["a"])))) := by
  unfold collectInner
  rw [validateToken_testCollect]
  iterate 12 refine Prog.next_cons rfl ?_
  exact Prog.next_nil rfl

theorem runs_testTimeout :
    (collect testCollect "site" testPrice "cashuB").Runs testTimeout (.error .unavailable) := by
  refine Prog.runs_bind.mpr ⟨none, testTimeout, [], by simp, ?_, .ret _⟩
  exact Prog.runs_timeout.mpr (.inr ⟨testPresented, _, next_testPresented, rfl, rfl⟩)

/-- The redemption of the token. -/
def testRedeemed : Cdk where
  transactions := [⟨.incoming, .completed, 5, .sat,
    some (memo (tokenId testCollect (testToken ["a"]))), none, none⟩]

/-- An empty wallet up to the redemption of the token, which is reserved by then. -/
theorem performs_testPresented :
    ∃ w, Performs (fun _ => True) 0 {} ((testPresented.take 10).map answered) w ∧ w.cdk = {} ∧
      w.ledger = (Ledger.reserve {} (tokenId testCollect (testToken ["a"])) "site" 5).2 := by
  have hexec : ∀ {o : WalletOp} {r : WalletSig.Res o} {w w₁ w' : Wallet} {notes : List Note}
      {tr : List WalletSig.timers.Event}, w.exec (fun _ => True) 0 0 true o r w₁ notes →
      Performs (fun _ => True) 0 w₁ tr w' →
      Performs (fun _ => True) 0 w (answered ⟨o, r⟩ :: tr) w' := fun he h => .exec he h
  have hsame : ∀ c : Cdk, c.Evolves c := Cdk.Evolves.refl
  refine ⟨_, hexec ⟨.inl ⟨rfl, rfl, rfl, rfl⟩, rfl⟩ (hexec ⟨.inl ⟨rfl, rfl⟩, rfl⟩ (hexec ⟨⟨rfl, rfl⟩, rfl⟩
    (hexec ⟨_, hsame _, trivial, rfl, rfl⟩ (hexec ⟨rfl, rfl⟩ (hexec ⟨_, hsame _, trivial, rfl, rfl⟩
    (hexec ⟨_, hsame _, trivial, rfl, rfl⟩ (hexec ⟨_, hsame _, trivial, rfl, rfl⟩
    (hexec ⟨⟨?_, rfl⟩, rfl⟩ (hexec ⟨rfl, rfl⟩ (.done _)))))))))), rfl, rfl⟩
  rfl

/-- On an empty wallet the timer drops the call in its claim, which is committed. -/
theorem performs_testTimeout :
    ∃ w', Performs (fun _ => True) 0 {} testTimeout w' ∧
      w'.ledger.Claimed (tokenId testCollect (testToken ["a"])) := by
  obtain ⟨w, hw, hcdk, hledger⟩ := performs_testPresented
  let received : Wallet := { w with cdk := testRedeemed }
  let claiming : Wallet := { received with
    memory := received.memory.map (fun m => { m with needsRecovery := false }) }
  have hreceive : w.exec (fun _ => True) 0 0 true
      (.cdk (.receiveProofs [⟨5, "a", "keyset"⟩] (memo (tokenId testCollect (testToken ["a"])))
        "cashuB")) (.ok (5 : ℕ)) received [] :=
    ⟨testRedeemed, hcdk ▸ .of_empty rfl, ⟨_, .head _, rfl, rfl, rfl, rfl⟩, rfl, rfl⟩
  have hclear : received.exec (fun _ => True) 0 0 true (.session (.setNeedsRecovery false)) ()
      claiming [] := ⟨rfl, rfl⟩
  have hclaim : Performs (fun _ => True) 0 claiming
      [⟨.timed (.ledger (.claim (tokenId testCollect (testToken ["a"])))), none⟩]
      ((claiming.commit (.claim (tokenId testCollect (testToken ["a"])))).unlock 0) :=
    .fired rfl ⟨.inr (.inl rfl), rfl⟩
  refine ⟨_, hw.append (.exec hreceive (.exec hclear hclaim)), ?_⟩
  rw [Wallet.unlock_ledger]
  show ((w.ledger).claim _).2.Claimed _
  rw [hledger]
  exact Ledger.claimed_claim (Ledger.lookup_reserve_available (l := {}) (.inl rfl))

/-- The token is used up although the answer was to retry it. -/
theorem unavailable_but_claimed :
    ¬ ∀ tr w', (collect testCollect "site" testPrice "cashuB").Runs tr (.error .unavailable) →
      Performs (fun _ => True) 0 {} tr w' →
      Truthful (tokenId testCollect (testToken ["a"])) "site" testPrice.price {} w' := by
  intro h
  obtain ⟨w', hperforms, hclaimed⟩ := performs_testTimeout
  obtain ⟨p, hp, -⟩ := (h testTimeout w' runs_testTimeout hperforms).claimed _ (.inl rfl) hclaimed
  exact absurd hp (by simp)

/-- The timer fires while the mint redeems the token. -/
def testInterrupted : List WalletSig.timers.Event :=
  (testPresented.take 10).map answered ++
    [⟨.timed (.cdk (.receiveProofs [⟨5, "a", "keyset"⟩]
      (memo (tokenId testCollect (testToken ["a"]))) "cashuB")), none⟩]

/-- The mint has redeemed the token without an answer: it is kept for a retry. -/
theorem collect_truthful_iff_interrupted :
    ¬ ClaimUnanswered (tokenId testCollect (testToken ["a"])) testInterrupted ∧
      ∃ w', Performs (fun _ => True) 0 {} testInterrupted w' ∧ w'.cdk = testRedeemed ∧
        Truthful (tokenId testCollect (testToken ["a"])) "site" testPrice.price {} w' := by
  have hnext : (guarded (collectInner testCollect "site" testPrice "cashuB")).Next
      (testPresented.take 10) (.cdk (.receiveProofs [⟨5, "a", "keyset"⟩]
        (memo (tokenId testCollect (testToken ["a"]))) "cashuB")) := by
    unfold collectInner
    rw [validateToken_testCollect]
    iterate 10 refine Prog.next_cons rfl ?_
    exact Prog.next_nil rfl
  have hrun : (collect testCollect "site" testPrice "cashuB").Runs testInterrupted
      (.error .unavailable) := by
    refine Prog.runs_bind.mpr ⟨none, testInterrupted, [], by simp, ?_, .ret _⟩
    exact Prog.runs_timeout.mpr (.inr ⟨_, _, hnext, rfl, rfl⟩)
  have hanswered : ¬ ClaimUnanswered (tokenId testCollect (testToken ["a"])) testInterrupted := by
    simp [ClaimUnanswered, testInterrupted, testPresented, answered]
  obtain ⟨w, hw, hcdk, -⟩ := performs_testPresented
  have hcut : w.cut (fun _ => True) (.cdk (.receiveProofs [⟨5, "a", "keyset"⟩]
      (memo (tokenId testCollect (testToken ["a"]))) "cashuB")) { w with cdk := testRedeemed } [] :=
    ⟨testRedeemed, rfl, hcdk ▸ .of_empty rfl, rfl⟩
  have hperforms := hw.append (.fired rfl hcut)
  have htruthful := (collect_truthful_iff _ _ _ _ _ _ _ _ _ validateToken_testCollect hrun
    ⟨_, hperforms⟩).mpr hanswered
  refine ⟨hanswered, _, hperforms, ?_, htruthful _ hperforms⟩
  unfold Wallet.unlock
  split
  · rfl
  · rfl

end Geata.Payments
