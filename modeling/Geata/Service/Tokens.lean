import Geata.Payments.Truthful
import Geata.Service.Alone
import Geata.Service.Books

namespace Geata.Service

open Geata.Lib Geata.Lightning Geata.Payments Function

/-!
# A token admits one request

* `Refused` — the ledger holds a token for another site or price, or as claimed.  A call that
  presents such a token is turned away at its reservation.
* `refused_call` — such a call redeems nothing and writes nothing, whatever runs beside it.
-/

/-! ### Refused tokens -/

section

variable {κ : Type} {X : Service.Crates κ} {out : Outside} {call : ℕ} {s s' : System κ}
  {mint id site : String} {price : UInt32}

/-- The ledger holds the token for another site or price, or as claimed. -/
def Refused (mint id site : String) (price : UInt32) (s : System κ) : Prop :=
  ∃ old, (s.wallets mint).ledger.payments.lookup id = some old ∧
    (old.site ≠ site ∨ old.price ≠ price ∨ old.claimed = true)

theorem Refused.grows (h : Refused mint id site price s) (hs : s.Grows s') :
    Refused mint id site price s' := by
  obtain ⟨old, hold, hne⟩ := h
  obtain ⟨p, hp, hsite, hprice, hclaimed⟩ := (hs mint).ledger id old hold
  refine ⟨p, hp, ?_⟩
  rw [hsite, hprice]
  exact hne.imp_right (.imp_right hclaimed)

/-- Reserving such a token changes nothing. -/
theorem Refused.commit (h : Refused mint id site price s) :
    (s.wallets mint).commit (.reserve id site price) = s.wallets mint := by
  obtain ⟨old, hold, hne⟩ := h
  simp only [Wallet.commit, (Ledger.reserve_refused hold hne).2]

/-- The answers to a call whose token is refused. -/
def refusedAnswer : (o : BaseOp κ) → (BaseSig κ).Res o → Prop
  | .wallet _ (.ledger (.reserve _ _ _)), some r => r = .mismatch ∨ r = .claimed
  | _, _ => True

/-- The operations such a call keeps to: one transaction on the ledger, and no redemption. -/
def refusedOp (mint id site : String) (price : UInt32) : BaseOp κ → Prop
  | .wallet m (.ledger o) => m = mint ∧ o = .reserve id site price
  | .wallet _ (.cdk (.receiveProofs _ _ _)) => False
  | _ => True

/-- A refused token does not get past the reservation. -/
theorem safe_refused {P : Payments.Crates} {policy : PaymentPolicy} {encoded : String}
    {token : Token} (htoken : validateToken P policy encoded = .ok token) :
    Stage.safe ((Logic.answering (refusedAnswer (κ := κ))
        (refusedOp policy.mint (tokenId P token) site policy.price)).along (onWallet κ policy.mint))
      call (collectInner P site policy encoded) (fun _ _ => False) (fun _ _ => True) () := by
  have hL := (Logic.answering_lasting (A := refusedAnswer (κ := κ))
    (P := refusedOp policy.mint (tokenId P token) site policy.price)).along (onWallet κ policy.mint)
  unfold collectInner
  rw [htoken]
  refine Stage.safe_ofExcept_bind (fun _ _ _ _ _ => trivial) (fun token' h => ?_)
  obtain rfl := Except.ok.inj h
  refine Stage.safe_skip hL (all_enter (fun _ _ _ => trivial)) (fun _ => ?_)
  refine Stage.safe_skip hL (all_recover (fun _ _ => trivial) (fun _ _ => trivial) (fun _ _ => trivial)) (fun _ => ?_)
  refine Stage.safe_skip hL (all_cdk.mpr (fun _ _ => trivial)) (fun _ => ?_)
  refine Stage.safe_skip hL (all_cdk.mpr (fun _ _ => trivial)) (fun keysets => ?_)
  refine Stage.safe_ofExcept_bind (fun _ _ _ _ _ => trivial) (fun proofs _ => ?_)
  refine Stage.safe_skip hL (all_cdk.mpr (fun _ _ => trivial)) (fun fees => ?_)
  refine Stage.safe_ofExcept_bind (fun _ _ _ _ _ => trivial) (fun _ _ => ?_)
  refine safe_ledger_bind hL (fun _ _ _ => ⟨rfl, rfl⟩) (fun r _ _ _ _ he _ _ => ?_)
  obtain ⟨r', hr', he⟩ := he
  obtain rfl : r' = some r := hr'
  have he : r = .mismatch ∨ r = .claimed := he
  rcases he with rfl | rfl <;> exact Stage.safe_throw (fun _ _ _ => trivial)

/-- Nothing is written to a ledger, and a transaction left behind will write nothing either. -/
def Spares (s s' : System κ) : Prop :=
  ∀ m, (s'.wallets m).ledger = (s.wallets m).ledger ∧
    ∀ o ∈ (s'.wallets m).detached, o ∈ (s.wallets m).detached ∨
      ∀ later : Wallet, (s.wallets m).Grows later → (later.commit o).ledger = later.ledger

theorem spares_of_wallets (h : s'.wallets = s.wallets) : Spares s s' :=
  fun m => by rw [h]; exact ⟨rfl, fun _ ho => .inl ho⟩

theorem spares_setWallet {w : Wallet} {notes : List Note}
    (hl : w.ledger = (s.wallets mint).ledger) (hd : w.detached = (s.wallets mint).detached) :
    Spares s (s.setWallet mint w notes) := by
  intro m
  simp only [System.setWallet]
  by_cases hm : m = mint
  · subst hm; rw [update_self, hl, hd]; exact ⟨rfl, fun _ ho => .inl ho⟩
  · rw [update_of_ne hm]; exact ⟨rfl, fun _ ho => .inl ho⟩

theorem Spares.leave (h : Spares s s') (call : ℕ) : Spares s (s'.leave call) := by
  intro m
  obtain ⟨hl, hd⟩ := h m
  refine ⟨(Wallet.unlock_ledger ..).trans hl, fun o ho => hd o ?_⟩
  rwa [System.leave, Wallet.unlock_detached] at ho

/-- The reservation of a refused token, left behind by its caller, will write nothing. -/
theorem Refused.spares_detached (h : Refused mint id site price s) :
    Spares s (s.setWallet mint
      { s.wallets mint with detached := .reserve id site price :: (s.wallets mint).detached } []) := by
  intro m
  simp only [System.setWallet]
  by_cases hm : m = mint
  · subst hm
    rw [update_self]
    refine ⟨rfl, fun o ho => ?_⟩
    rcases List.mem_cons.mp ho with rfl | ho
    · refine .inr (fun later hlater => ?_)
      obtain ⟨old, hold, hne⟩ := h
      obtain ⟨p, hp, hsite, hprice, hclaimed⟩ := hlater.ledger id old hold
      refine (Ledger.reserve_refused hp ?_).2
      rw [hsite, hprice]
      exact hne.imp_right (.imp_right hclaimed)
    · exact .inl ho
  · rw [update_of_ne hm]; exact ⟨rfl, fun _ ho => .inl ho⟩

variable {P : Payments.Crates}

theorem exec_spares (h : Refused mint id site price s) {o : BaseOp κ}
    (ho : refusedOp mint id site price o) {r : (BaseSig κ).Res o}
    (he : (System.effects P out).exec call s o r s') : Spares s s' := by
  cases o with
  | lightning o =>
    cases r with
    | some r => exact spares_of_wallets (System.succeed_wallets he)
    | none => rcases he with rfl | rfl <;> exact spares_of_wallets (by simp)
  | wallet m o =>
    obtain ⟨w, notes, hw, rfl⟩ := he
    cases o with
    | session o =>
      obtain ⟨hl, -, -, hd⟩ := Wallet.session_frame hw.1
      exact spares_setWallet hl hd
    | ledger o =>
      obtain ⟨rfl, rfl⟩ := ho
      rcases Wallet.transact_cases hw.1 with rfl | rfl | ⟨id', hid, -⟩
      · exact spares_setWallet rfl rfl
      · rw [h.commit]; exact spares_setWallet rfl rfl
      · cases hid
    | cdk o =>
      obtain ⟨hl, hd⟩ := Wallet.cdk_frame hw
      exact spares_setWallet hl hd
  | lockDirectory m =>
    cases r with
    | false => obtain ⟨-, rfl⟩ := he; exact spares_of_wallets rfl
    | true =>
      obtain ⟨-, rfl⟩ := he
      have hspares : Spares s (s.setWallet m { s.wallets m with lock := some call } []) :=
        spares_setWallet rfl rfl
      exact hspares

theorem cut_spares (h : Refused mint id site price s) {o : BaseOp κ}
    (ho : refusedOp mint id site price o) (hc : (System.effects P out).cut call s o s') :
    Spares s s' := by
  cases o with
  | lightning o => rcases hc with rfl | rfl | rfl <;> exact spares_of_wallets (by simp)
  | wallet m o =>
    obtain ⟨w, notes, hw, rfl⟩ := hc
    cases o with
    | session o => obtain ⟨rfl, -⟩ := hw; exact spares_setWallet rfl rfl
    | ledger o =>
      obtain ⟨rfl, rfl⟩ := ho
      obtain ⟨hw, rfl⟩ := hw
      rcases hw with rfl | rfl | rfl
      · exact spares_setWallet rfl rfl
      · rw [h.commit]; exact spares_setWallet rfl rfl
      · exact h.spares_detached
    | cdk o =>
      obtain ⟨hl, hd⟩ := Wallet.interrupt_frame hw
      exact spares_setWallet hl hd
  | lockDirectory m => obtain rfl : s' = s := hc; exact spares_of_wallets rfl

/-- The same under a timer. -/
theorem spares_of_op (h : Refused mint id site price s) {o : (ServiceSig κ).Op}
    (ho : refusedOp mint id site price o.base)
    (hs : (∃ r, ((System.effects P out).timers System.leave).exec call s o r s') ∨
      ((System.effects P out).timers System.leave).cut call s o s') : Spares s s' := by
  have hcut : ∀ s', (System.effects P out).cut call s o.base s' → Spares s s' :=
    fun s' hc => cut_spares h ho hc
  cases o with
  | plain o =>
    rcases hs with ⟨r, he⟩ | hc
    · exact exec_spares (P := P) h ho he
    · exact hcut s' hc
  | timed o =>
    rcases hs with ⟨r, he⟩ | hc
    · cases r with
      | some r => exact exec_spares (P := P) (r := r) h ho he
      | none =>
        obtain ⟨s₁, hc, rfl⟩ := he
        exact (hcut s₁ hc).leave call
    · exact hcut s' hc

/-- In a state where the token is refused, the answers are those of a refused token. -/
theorem refusedAnswer_of_exec (h : Refused mint id site price s) {o : BaseOp κ}
    (ho : refusedOp mint id site price o) {r : (BaseSig κ).Res o}
    (he : (System.effects P out).exec call s o r s') : refusedAnswer o r := by
  unfold refusedAnswer
  split
  · obtain ⟨rfl, ho⟩ := ho
    obtain ⟨w, notes, ⟨hw, -⟩, -⟩ := he
    obtain ⟨rfl, rfl, rfl⟩ : _ = id ∧ _ = site ∧ _ = price := by simpa using ho
    obtain ⟨old, hold, hne⟩ := h
    obtain ⟨rfl, -⟩ := hw
    exact (Ledger.reserve_refused hold hne).1
  · trivial

end

/-! ### One token, one request -/

section

variable {κ : Type} {X : Service.Crates κ} {out : Outside}

/-- The request presents the token `id` of `mint` for a site and a price. -/
def Request.Presents (X : Payments.Crates) (mint id site : String) (price : UInt32)
    (q : Request) : Prop :=
  ∃ policy encoded token, q = .collect site policy encoded ∧ policy.mint = mint ∧
    policy.price = price ∧ validateToken X policy encoded = .ok token ∧ tokenId X token = id

/-- The logic of a call whose token is refused. -/
abbrev refusedLogic (κ : Type) (mint id site : String) (price : UInt32) :
    Logic (ServiceSig κ) Unit :=
  Logic.answeringTimers (refusedAnswer (κ := κ)) (refusedOp mint id site price)

theorem refusedLogic_lasting (mint id site : String) (price : UInt32) :
    (refusedLogic κ mint id site price).Lasting := Logic.answeringTimers_lasting

/-- The next operation of a refused call. -/
theorem refusedLogic_needs {mint id site : String} {price : UInt32} {call : ℕ}
    {o : (ServiceSig κ).Op} (h : (refusedLogic κ mint id site price).Needs call o ()) :
    refusedOp mint id site price o.base := by
  cases o <;> exact h

/-- Without a reservation so far, every answer was one a refused call can get. -/
theorem refusedLogic_exec {mint id site : String} {price : UInt32} {call : ℕ}
    {e : (ServiceSig κ).Event}
    (h : ∀ m id site price, e.1.base ≠ .wallet m (.ledger (.reserve id site price))) :
    (refusedLogic κ mint id site price).exec call () e.1 e.2 () := by
  have hplain : ∀ (o : BaseOp κ) (r : (BaseSig κ).Res o),
      (∀ m id site price, o ≠ .wallet m (.ledger (.reserve id site price))) → refusedAnswer o r := by
    intro o r ho
    unfold refusedAnswer
    split
    · exact absurd rfl (ho _ _ _ _)
    · trivial
  obtain ⟨o, r⟩ := e
  cases o with
  | plain o => exact hplain o r h
  | timed o =>
    cases r with
    | some r => exact hplain o r h
    | none => exact ⟨(), trivial, rfl⟩

variable [DecidableEq κ]

theorem wp_refused {mint id site : String} {price : UInt32} {q : Request} {call : ℕ}
    (hq : q.Presents X.payments mint id site price) :
    (refusedLogic κ mint id site price).wp call (code X q)
      (fun a _ => ∃ e, a = .collected (.error e)) () := by
  obtain ⟨policy, encoded, token, rfl, rfl, rfl, htoken, rfl⟩ := hq
  have hL := refusedLogic_lasting (κ := κ) policy.mint (tokenId X.payments token) site policy.price
  refine Logic.safe.wp hL (Logic.safe_bind hL
    (safe_timed hL (fun _ _ => trivial) (safe_refused htoken) (fun _ _ _ _ h => h))
    (fun r _ _ _ hr => Logic.safe_ret (fun _ _ _ => ?_))) trivial
  cases r with
  | ok u => exact hr.elim
  | error e => exact ⟨e, rfl⟩

theorem exec_refusedLogic {mint id site : String} {price : UInt32} {call : ℕ} {s s' : System κ}
    (h : Refused mint id site price s) {o : (ServiceSig κ).Op} {r : (ServiceSig κ).Res o}
    (ho : (refusedLogic κ mint id site price).Needs call o ())
    (he : (machine X out).effects.exec call s o r s') :
    (refusedLogic κ mint id site price).exec call () o r () := by
  cases o with
  | plain o => exact refusedAnswer_of_exec (P := X.payments) h ho he
  | timed o =>
    cases r with
    | some r => exact refusedAnswer_of_exec (P := X.payments) (r := r) h ho he
    | none => exact ⟨(), trivial, rfl⟩

/-- A call that has not reserved its token yet, in a world where the token is refused, ends with
    an error; until then it redeems no proofs and spares the ledgers. -/
theorem refused_call {w w' : World (ServiceSig κ) (System κ) Request Answer}
    (h : World.Reachable (machine X out) w) {mint id site : String} {price : UInt32} {call : ℕ}
    {q : Request} (hcall : w.requests call = some q)
    (hq : q.Presents X.payments mint id site price) (hrow : Refused mint id site price w.shared)
    (htrace : ∀ e ∈ w.trace call, ∀ m id site price,
      e.1.base ≠ .wallet m (.ledger (.reserve id site price)))
    (hs : World.Steps (machine X out) w w') :
    (∀ x ∈ w'.returned, x.1 = call → ∃ e, x.2.2 = .collected (.error e)) ∧
    ∀ q' o k, w'.procs call = some (q', .op o k) →
      (∀ m proofs memo token, o.base ≠ .wallet m (.cdk (.receiveProofs proofs memo token))) ∧
      ∀ s', ((∃ r, (machine X out).effects.exec call w'.shared o r s') ∨
        (machine X out).effects.cut call w'.shared o s') → Spares w'.shared s' := by
  have hL := refusedLogic_lasting (κ := κ) mint id site price
  have htidy := h.tidy
  have hstarted : call < w.started := by
    by_contra hlt
    rw [(htidy.fresh call (Nat.le_of_not_lt hlt)).2.2] at hcall
    exact absurd hcall (by simp)
  have hwp : ∀ q' p, w.requests call = some q' → Prog.Reaches ((machine X out).code q') (w.trace call) p →
      (refusedLogic κ mint id site price).wp call p
        (fun a _ => ∃ e, a = .collected (.error e)) () := by
    intro q' p hq' hp
    obtain rfl := Option.some.inj (hcall.symm.trans hq')
    exact Logic.wp_reaches hL trivial (wp_refused hq) hp
      (fun e he => refusedLogic_exec (htrace e he))
  obtain ⟨hrow', hprocs, hret⟩ := hs.keeps (L := refusedLogic κ mint id site price)
    (Q := fun _ a _ => ∃ e, a = .collected (.error e)) (R := Refused mint id site price)
    hL trivial hstarted
    (fun x hx hxc => by
      obtain ⟨hreq, hruns⟩ := htidy.runs x hx
      rw [hxc] at hreq hruns
      exact hwp x.2.1 _ hreq hruns.reaches)
    (fun w₁ w₂ hs₁ hstep hr => hr.grows ((tokens X out).hist_step
      ((tokens X out).sound (h.steps hs₁)) hstep))
    (fun s o r s' hr ho he => exec_refusedLogic hr ho he) hrow
    (fun q' p hp => by
      obtain ⟨hreq, hreach⟩ := htidy.reaches call q' p hp
      exact hwp q' p hreq hreach)
  refine ⟨hret, fun q' o k hk => ?_⟩
  have ho := refusedLogic_needs (hprocs q' _ hk () trivial trivial).1
  refine ⟨fun m proofs memo token heq => ?_, fun s' hs' => spares_of_op hrow' ho hs'⟩
  rw [heq] at ho
  exact ho

/-- A call that collected a token was admitted by it, and the token is bound, claimed and
    redeemed. -/
theorem collected_of_returned {w : World (ServiceSig κ) (System κ) Request Answer}
    (h : World.Reachable (machine X out) w) {mint id site : String} {price : UInt32}
    {x : ℕ × Request × Answer} (hx : x ∈ w.returned)
    (hq : x.2.1.Presents X.payments mint id site price) (ha : x.2.2 = .collected (.ok ())) :
    Collected mint id site price x.1 w.shared := by
  have hpost := ((tokens X out).sound h).returned x hx
  obtain ⟨call, q, a⟩ := x
  obtain rfl : a = _ := ha
  obtain ⟨policy, encoded, token, rfl, rfl, rfl, htoken, rfl⟩ := hq
  obtain ⟨token', htoken', hc⟩ := hpost
  obtain rfl := Except.ok.inj (htoken.symm.trans htoken')
  exact hc

/-- **A token admits one request.**  In every run of the service, for every token of every mint:

    1. at most one call returns `Ok` for it;
    2. its site and price never change once stored, and a claimed token stays claimed;
    3. every `Ok` was for the stored site and price, with a completed redemption of at least the
       price in the wallet;
    4. a call that presents it for another site or price, or after it was claimed, ends with an
       error, never redeems proofs and writes nothing to a ledger, now or later. -/
theorem token_admits_one_request {w : World (ServiceSig κ) (System κ) Request Answer}
    (h : World.Reachable (machine X out) w) (mint id : String) :
    (∀ x ∈ w.returned, ∀ y ∈ w.returned,
      (∃ site price, x.2.1.Presents X.payments mint id site price) →
      (∃ site price, y.2.1.Presents X.payments mint id site price) →
      x.2.2 = .collected (.ok ()) → y.2.2 = .collected (.ok ()) → x = y) ∧
    (∀ w', World.Steps (machine X out) w w' →
      (w.shared.wallets mint).ledger.Extends (w'.shared.wallets mint).ledger) ∧
    (∀ x ∈ w.returned, ∀ site price, x.2.1.Presents X.payments mint id site price →
      x.2.2 = .collected (.ok ()) →
      (w.shared.wallets mint).ledger.payments.lookup id = some ⟨site, price, true⟩ ∧
        Redeemed mint id price w.shared) ∧
    (∀ call q site price, w.requests call = some q → q.Presents X.payments mint id site price →
      Refused mint id site price w.shared →
      (∀ e ∈ w.trace call, ∀ m id site price,
        e.1.base ≠ .wallet m (.ledger (.reserve id site price))) →
      ∀ w', World.Steps (machine X out) w w' →
        (∀ x ∈ w'.returned, x.1 = call → ∃ e, x.2.2 = .collected (.error e)) ∧
        ∀ q' o k, w'.procs call = some (q', .op o k) →
          (∀ m proofs memo token, o.base ≠ .wallet m (.cdk (.receiveProofs proofs memo token))) ∧
          ∀ s', ((∃ r, (machine X out).effects.exec call w'.shared o r s') ∨
            (machine X out).effects.cut call w'.shared o s') → Spares w'.shared s') := by
  refine ⟨?_, ?_, ?_, ?_⟩
  · rintro x hx y hy ⟨site, price, hqx⟩ ⟨site', price', hqy⟩ hax hay
    have hadm := (collected_of_returned h hx hqx hax).admitted
    have hadm' := (collected_of_returned h hy hqy hay).admitted
    exact h.returned_inj hx hy (Option.some.inj (hadm.symm.trans hadm'))
  · intro w' hs
    exact ((tokens X out).hist_steps h hs mint).ledger
  · intro x hx site price hq ha
    have hc := collected_of_returned h hx hq ha
    exact ⟨hc.row, hc.redeemed⟩
  · intro call q site price hcall hq hrow htrace w' hs
    exact refused_call h hcall hq hrow htrace hs

end

/-! ### A token that is presented twice -/

/-- The test service, with a wallet that knows one token. -/
def testTokens : Service.Crates (List UInt8) :=
  { testService with
    parseToken := testCollect.parseToken
    proofs := testCollect.proofs }

def testTokenId : String := tokenId testTokens.payments (testToken ["a"])

theorem validateToken_testTokens :
    validateToken testTokens.payments testPrice "cashuB" = .ok (testToken ["a"]) := by
  decide +kernel

/-- The ledger with the token reserved, and with the token used up. -/
def testReserved : Ledger where
  payments := (∅ : Table Payments.Payment).insert testTokenId ⟨"a.example", 5, false⟩

def testUsedUp : Ledger where
  payments := testReserved.payments.insert testTokenId ⟨"a.example", 5, true⟩

theorem lookup_testUsedUp : testUsedUp.payments.lookup testTokenId = some ⟨"a.example", 5, true⟩ :=
  (Table.lookup_insert_eq ..).trans (if_pos rfl)

theorem reserve_empty : ({} : Ledger).reserve testTokenId "a.example" 5 = (.new, testReserved) := by
  have hrow : ({} : Ledger).payments.lookup testTokenId = none := rfl
  simp only [Ledger.reserve, hrow]
  rfl

theorem claim_testReserved : testReserved.claim testTokenId = (true, testUsedUp) := by
  have hrow : testReserved.payments.lookup testTokenId = some ⟨"a.example", 5, false⟩ :=
    (Table.lookup_insert_eq ..).trans (if_pos rfl)
  simp only [Ledger.claim, hrow]
  rfl

theorem reserve_testUsedUp :
    testUsedUp.reserve testTokenId "a.example" 5 = (.claimed, testUsedUp) := by
  simp only [Ledger.reserve, lookup_testUsedUp]
  rfl

/-- CDK's store after the redemption. -/
def testReceived : Cdk where
  transactions := [⟨.incoming, .completed, 5, .sat, some (memo testTokenId), none, none⟩]

/-- The wallet after the admission. -/
def testSwapped : Wallet where
  cdk := testReceived
  ledger := testUsedUp
  memory := some { needsRecovery := false }
  admitted := (∅ : Table ℕ).insert testTokenId 0

section

variable {makes : MintQuote → Prop} {call time : ℕ}

/-- A call that presents the token, up to the answer to its reservation. -/
theorem alone_testReservation {w w' : Wallet} {ledger : Ledger} {r : Except PaymentError Unit}
    {reservation : Reservation} {notes : List Note} (hlock : w.lock = none)
    (hreserve : w.ledger.reserve testTokenId "a.example" 5 = (reservation, ledger))
    (hgrant : Stage.Alone (Wallet.does makes call time)
      ({ Wallet.entered w call with ledger := ledger }, [])
      (grant testTokenId 5 [⟨5, "a", "keyset"⟩] "cashuB" reservation) r (w', notes)) :
    Stage.Alone (Wallet.does makes call time) (w, [])
      (collectInner testTokens.payments "a.example" testPrice "cashuB") r (w', notes) := by
  let v : Wallet := Wallet.entered w call
  have hverify : v.exec makes call time true (.cdk (.verifyTokenDleq (testToken ["a"]))) (.ok ()) v [] :=
    ⟨_, .refl _, trivial, rfl, rfl⟩
  have hkeysets : v.exec makes call time true (.cdk .getMintKeysets) (.ok none) v [] :=
    ⟨_, .refl _, trivial, rfl, rfl⟩
  have hfees : v.exec makes call time true (.cdk (.getProofsFee [⟨5, "a", "keyset"⟩])) (.ok (0 : ℕ)) v [] :=
    ⟨_, .refl _, trivial, rfl, rfl⟩
  have hnet : checkNet testPrice (testToken ["a"]) 0 = .ok () := by decide
  unfold collectInner
  rw [validateToken_testTokens]
  refine .bind (Stage.alone_ofExcept.mpr ⟨rfl, rfl⟩) ?_
  refine .bind (alone_enter hlock) (.bind (alone_recover rfl) ?_)
  refine .bind (alone_cdk hverify) (.bind (alone_cdk hkeysets) ?_)
  refine .bind (a := [⟨5, "a", "keyset"⟩]) (Stage.alone_ofExcept.mpr ⟨rfl, rfl⟩) ?_
  refine .bind (alone_cdk hfees) (.bind (Stage.alone_ofExcept.mpr ⟨hnet, rfl⟩) ?_)
  have hreserved : Stage.Alone (Wallet.does makes call time) (v, [])
      (Payments.ledger PaymentError.unavailable (.reserve testTokenId "a.example" 5))
      (.ok reservation) ({ v with ledger := ledger }, []) :=
    alone_ledger ⟨(congrArg Prod.fst hreserve).symm,
      congrArg (fun l => { v with ledger := l.2 }) hreserve.symm⟩ rfl
  exact .bind hreserved hgrant

/-- The first presentation is admitted. -/
theorem alone_testSwapped : Stage.Alone (Wallet.does makes 0 time) ({}, [])
    (collectInner testTokens.payments "a.example" testPrice "cashuB") (.ok ())
    ({ testSwapped with lock := some 0 }, []) := by
  let reserved : Wallet := { Wallet.entered {} 0 with ledger := testReserved }
  let swapping : Wallet := { reserved with memory := some {} }
  let received : Wallet := { swapping with cdk := testReceived }
  let cleared : Wallet := { reserved with cdk := testReceived }
  have hreceive : swapping.exec makes 0 time true
      (.cdk (.receiveProofs [⟨5, "a", "keyset"⟩] (memo testTokenId) "cashuB")) (.ok (5 : ℕ)) received [] :=
    ⟨testReceived, .of_empty rfl, ⟨_, .head _, rfl, rfl, rfl, rfl⟩, rfl, rfl⟩
  refine alone_testReservation rfl reserve_empty ?_
  show Stage.Alone _ (reserved, []) (redeem testTokenId 5 [⟨5, "a", "keyset"⟩] "cashuB") _ _
  unfold redeem
  refine .bind (a := ()) (m := (swapping, [])) (alone_session.mpr ⟨rfl, rfl⟩) ?_
  refine .bind (alone_cdk hreceive) (.bind (Stage.alone_stopIf_ok.mpr ⟨rfl, rfl⟩) ?_)
  refine .bind (a := ()) (m := (cleared, [])) (alone_session.mpr ⟨rfl, rfl⟩) ?_
  unfold Payments.claim
  refine .bind (a := true) (alone_ledger ?_ rfl) (Stage.alone_stopIf_ok.mpr ⟨rfl, rfl⟩)
  refine ⟨(congrArg Prod.fst claim_testReserved).symm, ?_⟩
  show _ = { cleared with
    ledger := (testReserved.claim testTokenId).2
    admitted := (∅ : Table ℕ).insert testTokenId 0 }
  rw [claim_testReserved]
  rfl

/-- The second one is refused. -/
theorem alone_testRefused : Stage.Alone (Wallet.does makes 1 time) (testSwapped, [])
    (collectInner testTokens.payments "a.example" testPrice "cashuB") (.error .invalid)
    ({ testSwapped with lock := some 1 }, []) :=
  alone_testReservation rfl reserve_testUsedUp (Stage.alone_throw.mpr ⟨rfl, rfl⟩)

end

def testPresentation : Request := .collect "a.example" testPrice "cashuB"

theorem presents_testPresentation : testPresentation.Presents testTokens.payments
    "https://mint.example" testTokenId "a.example" 5 :=
  ⟨testPrice, "cashuB", testToken ["a"], rfl, rfl, rfl, validateToken_testTokens, rfl⟩

/-- The service with the token collected. -/
def testAdmitting : System (List UInt8) where
  clock := 1700000100
  directory := some .server
  wallets := update (fun _ => {}) "https://mint.example" testSwapped

theorem release_testAdmitting (call : ℕ) : testAdmitting.release call = testAdmitting := by
  refine System.release_of_free (by simp [testAdmitting]) (by simp [testAdmitting]) (fun mint => ?_)
  by_cases hm : mint = "https://mint.example" <;> simp [testAdmitting, testSwapped, hm]

/-- A server admits the first presentation. -/
theorem exists_testAdmitting : ∃ w : World (ServiceSig (List UInt8)) (System (List UInt8)) Request Answer,
    World.Reachable (machine testTokens testOutside) w ∧ w.shared = testAdmitting ∧ w.started = 1 ∧
      w.returned = [(0, testPresentation, .collected (.ok ()))] := by
  let serving : System (List UInt8) := { clock := 1700000100, directory := some .server }
  have halone : Prog.Alone (System.does testTokens testOutside 0) serving (code testTokens testPresentation)
      (.collected (.ok ())) testAdmitting :=
    Prog.alone_bind.mpr ⟨.ok (), _, alone_timed rfl alone_testSwapped, .ret _ _⟩
  obtain ⟨w, hw, hshared, hanswered⟩ := reachable_answered (by decide) halone rfl
  exact ⟨w, hw, hshared.trans (release_testAdmitting 0), hanswered⟩

/-- The second presentation changes nothing. -/
theorem alone_testRefusal : Prog.Alone (System.does testTokens testOutside 1) testAdmitting
    (code testTokens testPresentation) (.collected (.error .invalid)) testAdmitting := by
  have htimed : Prog.Alone (System.does testTokens testOutside 1) testAdmitting
      (timed "https://mint.example" PaymentError.unavailable
        (collectInner testTokens.payments "a.example" testPrice "cashuB")) (.error .invalid)
      (testAdmitting.setWallet "https://mint.example"
        (Wallet.unlock { testSwapped with lock := some 1 } 1) []) :=
    alone_timed rfl alone_testRefused
  have hsame : testAdmitting.setWallet "https://mint.example"
      (Wallet.unlock { testSwapped with lock := some 1 } 1) [] = testAdmitting := by
    simp [System.setWallet, testAdmitting, Wallet.unlock, testSwapped]
  rw [hsame] at htimed
  exact Prog.alone_bind.mpr ⟨.error .invalid, _, htimed, .ret _ _⟩

/-- Two calls present a token, the first is admitted and the second has just arrived.  Whatever
    follows, the second ends with an error; it does so by itself. -/
theorem token_admits_one_request_twice :
    ∃ w : World (ServiceSig (List UInt8)) (System (List UInt8)) Request Answer,
      World.Reachable (machine testTokens testOutside) w ∧
      (0, testPresentation, .collected (.ok ())) ∈ w.returned ∧
      (w.shared.wallets "https://mint.example").ledger.payments.lookup testTokenId
        = some ⟨"a.example", 5, true⟩ ∧
      Redeemed "https://mint.example" testTokenId 5 w.shared ∧
      w.requests 1 = some testPresentation ∧
      (∀ w', World.Steps (machine testTokens testOutside) w w' → ∀ x ∈ w'.returned, x.1 = 1 →
        ∃ e, x.2.2 = .collected (.error e)) ∧
      ∃ w', World.Steps (machine testTokens testOutside) w w' ∧
        (1, testPresentation, .collected (.error .invalid)) ∈ w'.returned := by
  obtain ⟨w₁, h₁, hshared, hstarted, hreturned⟩ := exists_testAdmitting
  let w₂ : World (ServiceSig (List UInt8)) (System (List UInt8)) Request Answer := { w₁ with
    procs := update w₁.procs 1 (some (testPresentation, code testTokens testPresentation))
    started := 2
    requests := update w₁.requests 1 (some testPresentation) }
  have hstart : World.Step (machine testTokens testOutside) w₁ w₂ := by
    have hserving : w₁.shared.directory = some .server := by
      rw [hshared]
      rfl
    have hstart := World.Step.start (M := machine testTokens testOutside) (q := testPresentation) hserving
    rwa [hstarted] at hstart
  have h₂ : World.Reachable (machine testTokens testOutside) w₂ := h₁.steps (.single hstart)
  obtain ⟨-, -, hadmitted, hrefused⟩ :=
    token_admits_one_request h₂ "https://mint.example" testTokenId
  have hreturned : (0, testPresentation, .collected (.ok ())) ∈ w₁.returned := by
    rw [hreturned]
    exact List.mem_cons_self ..
  obtain ⟨hrow, hredeemed⟩ := hadmitted _ hreturned "a.example" 5 presents_testPresentation rfl
  have hrequest : w₂.requests 1 = some testPresentation := by simp [w₂]
  have hproc : w₂.procs 1 = some (testPresentation, code testTokens testPresentation) := by simp [w₂]
  have htrace : w₂.trace 1 = [] := (h₁.tidy.fresh 1 hstarted.le).2.1
  refine ⟨w₂, h₂, hreturned, hrow, hredeemed, hrequest, fun w' hs => ?_, ?_⟩
  · refine (hrefused 1 _ "a.example" 5 hrequest presents_testPresentation
      ⟨_, hrow, .inr (.inr rfl)⟩ (fun e he => ?_) w' hs).1
    rw [htrace] at he
    exact absurd he List.not_mem_nil
  · obtain ⟨w₃, hsteps, -, hp, -, -⟩ := World.steps_alone (M := machine testTokens testOutside)
      (w := w₂) alone_testRefusal hshared hproc
    exact ⟨_, hsteps.tail (.finish hp), List.mem_cons_self ..⟩

end Geata.Service
