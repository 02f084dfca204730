import Geata.Lib.Alone
import Geata.Service.Machine

namespace Geata.Service

open Geata.Lib Geata.Lightning Geata.Payments Function

/-!
# Calls by themselves

What a call of a running server does when nothing else happens.

* `alone_perform`, `alone_transact` — operations of the settlement database.
* `reachable_answered` — the first request a server answers.
* `alone_timed`, `alone_automaticPayout` — the use of a wallet, which goes through its operations and
  gives the lock back.
-/

section

variable {κ ε α : Type} {X : Service.Crates κ} {out : Outside} {call : ℕ} {s s' : System κ}

/-- What the operations of a call do. -/
abbrev System.does (X : Service.Crates κ) (out : Outside) (call : ℕ) :
    System κ → (o : (ServiceSig κ).Op) → (ServiceSig κ).Res o → System κ → Prop :=
  ((System.effects X.payments out).timers System.leave).exec call

/-- The database as a transaction finds it. -/
def System.database (s : System κ) : System κ :=
  if s.opened then s else { s.commit .database with opened := true }

theorem alone_perform {e : ε} {o : LightningOp κ} {a : o.Answer} :
    Stage.Alone (System.does X out call) s (perform e o) (.ok a) s' ↔
      s.succeed X.payments out call o a s' := by
  unfold perform
  rw [Stage.alone_bind_ok]
  constructor
  · rintro ⟨r, s₁, hr, ha⟩
    obtain ⟨hr', rfl⟩ := Stage.alone_ofExcept.mp ha
    obtain rfl := context_eq_ok.mp hr'
    exact Stage.alone_perform_ok.mp hr
  · intro h
    exact ⟨some a, s', Stage.alone_perform_ok.mpr h, Stage.alone_ofExcept.mpr ⟨rfl, rfl⟩⟩

theorem alone_transact {e : ε} {o : LightningOp κ} {a : o.Answer} :
    Stage.Alone (System.does X out call) s (transact e o) (.ok a) s' ↔
      s.database.succeed X.payments out call o a s' := by
  unfold transact
  rw [Stage.alone_bind_ok]
  constructor
  · rintro ⟨u, s₁, hdatabase, ho⟩
    obtain rfl : s₁ = s.database := alone_perform.mp hdatabase
    exact alone_perform.mp ho
  · intro h
    exact ⟨(), s.database, alone_perform.mpr rfl, alone_perform.mpr h⟩

/-- A claim of a free key. -/
theorem alone_claim {key : String} {retainUntil : ℕ} {store : Store κ}
    (h : s.database.store.claim key retainUntil s.database.clock = .ok (true, store)) :
    Stage.Alone (System.does X out call) s (claim key retainUntil) (.ok ())
      { s.database with
        store := store
        history := .claimed call key retainUntil :: s.database.history } := by
  have hclaim : Stage.Alone (System.does X out call) s
      (transact .unavailable (.claim key retainUntil) : Stage (ServiceSig κ) Error _) (.ok true) _ :=
    alone_transact.mpr ⟨store, h, rfl⟩
  exact .bind hclaim (Stage.alone_stopIf_ok.mpr ⟨rfl, rfl⟩)

/-- A call that holds nothing leaves everything as it is. -/
theorem System.release_of_free (hdirectory : s.directory ≠ some (.command call))
    (hcursor : s.cursorLock ≠ some call) (hlock : ∀ mint, (s.wallets mint).lock ≠ some call) :
    s.release call = s := by
  have hwallets : (fun mint => (s.wallets mint).unlock call) = s.wallets := by
    funext mint
    exact if_neg (hlock mint)
  rw [System.release, if_neg hdirectory, if_neg hcursor, System.leave, hwallets]

/-- A server that has just started answers a first request by itself. -/
theorem reachable_answered [DecidableEq κ] {time : ℕ} (ht : time < 2 ^ 63) {q : Request} {a : Answer}
    (h : Prog.Alone (System.does X out 0) { clock := time, directory := some .server } (code X q) a s')
    (hq : q.Arrives X.payments out ({ clock := time, directory := some .server } : System κ)) :
    ∃ w : World (ServiceSig κ) (System κ) Request Answer, World.Reachable (machine X out) w ∧
      w.shared = s'.release 0 ∧ w.started = 1 ∧ w.returned = [(0, q, a)] := by
  let w₀ : World (ServiceSig κ) (System κ) Request Answer := World.initial { clock := time }
  let w₁ : World (ServiceSig κ) (System κ) Request Answer :=
    { w₀ with shared := { clock := time, directory := some .server } }
  have hserve : World.Step (machine X out) w₀ w₁ := .env (.serve rfl)
  obtain ⟨w, hsteps, hanswered⟩ := World.steps_answer (M := machine X out) (w := w₁) hq h
  exact ⟨w, ⟨_, ⟨time, ht, rfl⟩, .head hserve hsteps⟩, hanswered⟩

/-! ### Wallets -/

/-- What an operation of a server does to a wallet and the notes on it, the latest first. -/
def Wallet.does (makes : MintQuote → Prop) (call time : ℕ) (w : Wallet × List Note) (o : WalletOp)
    (r : WalletSig.Res o) (w' : Wallet × List Note) : Prop :=
  ∃ notes, w.1.exec makes call time true o r w'.1 notes ∧ w'.2 = notes ++ w.2

/-- A use of a wallet, which gives the lock back. -/
theorem alone_guarded {mint : String} {body : Stage WalletSig ε α} {r : Except ε α}
    {w : Wallet} {notes : List Note} (hserving : s.directory = some .server)
    (h : Stage.Alone (Wallet.does (out.quotes mint) call s.clock) (s.wallets mint, []) body r
      (w, notes)) :
    Prog.Alone ((System.effects X.payments out).exec call) s ((guarded body).lift (onWallet κ mint)) r
      (s.setWallet mint (w.unlock call) notes) := by
  have hguarded : Prog.Alone (Wallet.does (out.quotes mint) call s.clock) (s.wallets mint, [])
      (guarded body) r (w.unlock call, notes) :=
    Prog.alone_bind.mpr ⟨r, _, h,
      Prog.alone_op.mpr ⟨(), (w.unlock call, notes), ⟨[], ⟨rfl, rfl⟩, rfl⟩, .ret _ _⟩⟩
  have hexec : ∀ v o r v₁, Wallet.does (out.quotes mint) call s.clock v o r v₁ →
      ∃ r', (onWallet κ mint).res o r' = r ∧ (System.effects X.payments out).exec call
        (s.setWallet mint v.1 v.2) (.wallet mint o) r' (s.setWallet mint v₁.1 v₁.2) := by
    rintro v o r v₁ ⟨notes, hexec, hnotes⟩
    refine ⟨r, rfl, v₁.1, notes, ?_, ?_⟩
    · simpa [System.setWallet, hserving] using hexec
    · simp [System.setWallet, hnotes]
  have hlift := hguarded.lift (onWallet κ mint) (fun v => s.setWallet mint v.1 v.2) hexec
  have hsame : s.setWallet mint (s.wallets mint) [] = s := by
    rw [System.setWallet, update_eq_self]
    rfl
  rwa [hsame] at hlift

theorem alone_timed {mint : String} {elapsed : ε} {body : Stage WalletSig ε α} {r : Except ε α}
    {w : Wallet} {notes : List Note} (hserving : s.directory = some .server)
    (h : Stage.Alone (Wallet.does (out.quotes mint) call s.clock) (s.wallets mint, []) body r
      (w, notes)) :
    Prog.Alone (System.does X out call) s (timed mint elapsed body) r
      (s.setWallet mint (w.unlock call) notes) := by
  have htimeout : Prog.Alone (System.does X out call) s
      ((guarded body).lift (onWallet κ mint)).timeout (some r) _ :=
    (alone_guarded (X := X) hserving h).timeout (fun _ _ _ _ he => he)
  exact Prog.alone_bind.mpr ⟨some r, _, htimeout, .ret _ _⟩

/-- An automatic payout, which is under no timer. -/
theorem alone_automaticPayout [DecidableEq κ] {policy : PayoutPolicy} {r : Except Failure Unit} {w : Wallet}
    {notes : List Note} (hserving : s.directory = some .server)
    (h : Stage.Alone (Wallet.does (out.quotes policy.mint) call s.clock) (s.wallets policy.mint, [])
      (automaticPayout X.payments policy) r (w, notes)) :
    Prog.Alone (System.does X out call) s (code X (.automaticPayout policy)) (.done r)
      (s.setWallet policy.mint (w.unlock call) notes) := by
  have hplain : Prog.Alone (System.does X out call) s
      (((guarded (automaticPayout X.payments policy)).lift (onWallet κ policy.mint)).lift
        (.plain (BaseSig κ))) r _ :=
    (alone_guarded (X := X) hserving h).lift (.plain (BaseSig κ)) id
      (fun _ _ r _ he => ⟨r, rfl, he⟩)
  exact Prog.alone_bind.mpr ⟨r, _, hplain, .ret _ _⟩

theorem alone_attempt {mint : String} {body : Stage WalletSig Failure α} {r : Except Failure α}
    {w : Wallet} {notes : List Note} (hserving : s.directory = some .server)
    (h : Stage.Alone (Wallet.does (out.quotes mint) call s.clock) (s.wallets mint, []) body r
      (w, notes)) :
    Stage.Alone (System.does X out call) s (attempt mint body : Stage (ServiceSig κ) ε _) (.ok r)
      (s.setWallet mint (w.unlock call) notes) :=
  Prog.alone_bind.mpr ⟨r, _, alone_timed hserving h, .ret _ _⟩

section

variable {makes : MintQuote → Prop} {time : ℕ} {w w' : Wallet × List Note}

theorem alone_session {o : SessionOp} {a : o.Res} :
    Stage.Alone (Wallet.does makes call time) w (session o : Stage WalletSig ε _) (.ok a) w' ↔
      w.1.session call time true o a w'.1 ∧ w'.2 = w.2 := by
  unfold session
  rw [Stage.alone_perform_ok]
  constructor
  · rintro ⟨notes, ⟨h, rfl⟩, hnotes⟩
    exact ⟨h, hnotes⟩
  · rintro ⟨h, hnotes⟩
    exact ⟨[], ⟨h, rfl⟩, hnotes⟩

theorem alone_cdk {f : CdkError → ε} {o : CdkOp} {a : o.Answer} {w : Wallet} {notes notes' : List Note}
    {w' : Wallet} (h : w.exec makes call time true (.cdk o) (.ok a) w' notes') :
    Stage.Alone (Wallet.does makes call time) (w, notes) (cdk f o) (.ok a) (w', notes' ++ notes) := by
  have hperform : Wallet.does makes call time (w, notes) (.cdk o) (.ok a) (w', notes' ++ notes) :=
    ⟨notes', h, rfl⟩
  exact .bind (Stage.alone_perform_ok.mpr hperform) (Stage.alone_ofExcept.mpr ⟨rfl, rfl⟩)

theorem alone_cdk_error {f : CdkError → ε} {o : CdkOp} {e : CdkError} {w : Wallet}
    {notes notes' : List Note} {w' : Wallet}
    (h : w.exec makes call time true (.cdk o) (.error e) w' notes') :
    Stage.Alone (Wallet.does makes call time) (w, notes) (cdk f o) (.error (f e))
      (w', notes' ++ notes) := by
  have hperform : Wallet.does makes call time (w, notes) (.cdk o) (.error e) (w', notes' ++ notes) :=
    ⟨notes', h, rfl⟩
  exact .bind (Stage.alone_perform_ok.mpr hperform) (Stage.alone_ofExcept.mpr ⟨rfl, rfl⟩)

theorem alone_ledger {e : ε} {o : LedgerOp} {a : o.Answer} {w₁ : Wallet} {notes : List Note}
    (h : w₁.transact call o (some a) w'.1) (hnotes : w'.2 = notes) :
    Stage.Alone (Wallet.does makes call time) (w₁, notes) (ledger e o) (.ok a) w' := by
  have hperform : Wallet.does makes call time (w₁, notes) (.ledger o) (some a) w' :=
    ⟨[], ⟨h, rfl⟩, hnotes⟩
  exact .bind (Stage.alone_perform_ok.mpr hperform) (Stage.alone_ofExcept.mpr ⟨rfl, rfl⟩)

/-- A wallet that was recovered. -/
def Wallet.entered (w : Wallet) (call : ℕ) : Wallet :=
  { w with lock := some call, memory := some { w.memory.getD {} with needsRecovery := false } }

/-- A free wallet is taken and opened. -/
theorem alone_enter {busy broken : ε} {w : Wallet} (hlock : w.lock = none) :
    Stage.Alone (Wallet.does makes call time) (w, []) (enter busy broken) (.ok ())
      ({ w with lock := some call, memory := some (w.memory.getD {}) }, []) := by
  let locked : Wallet := { w with lock := some call }
  refine .bind (m := (locked, [])) (alone_session.mpr ⟨.inl ⟨rfl, rfl, hlock, rfl⟩, rfl⟩) ?_
  refine .bind (Stage.alone_stopIf_ok.mpr ⟨rfl, rfl⟩) ?_
  refine .bind (m := ({ locked with memory := some (w.memory.getD {}) }, []))
    (alone_session.mpr ⟨.inl ⟨rfl, rfl⟩, rfl⟩) ?_
  exact Stage.alone_stopIf_ok.mpr ⟨rfl, rfl⟩

/-- An open wallet is recovered, with nothing left to finish. -/
theorem alone_recover {f : PaymentError → ε} {w : Wallet} {memory : Memory}
    (hmemory : w.memory = some memory) :
    Stage.Alone (Wallet.does makes call time) (w, []) (recover f) (.ok ())
      ({ w with memory := some { memory with needsRecovery := false } }, []) := by
  unfold recover
  refine .bind (alone_session.mpr ⟨⟨rfl, rfl⟩, rfl⟩) ?_
  rw [hmemory]
  by_cases hdue : memory.needsRecovery = true
  · show Stage.Alone _ _ (if memory.needsRecovery = true then _ else _) _ _
    rw [if_pos hdue]
    have hrecover : w.exec makes call time true (.cdk .recoverIncompleteSagas) (.ok ⟨0, 0⟩) w [] :=
      ⟨w.cdk, .refl _, trivial, rfl, rfl⟩
    refine .bind (alone_cdk hrecover) (.bind (Stage.alone_stopIf_ok.mpr ⟨rfl, rfl⟩) ?_)
    refine alone_session.mpr ⟨?_, rfl⟩
    rw [Wallet.session, hmemory]
    rfl
  · show Stage.Alone _ _ (if memory.needsRecovery = true then _ else _) _ _
    rw [if_neg hdue]
    refine Stage.alone_pure.mpr ⟨rfl, ?_⟩
    rw [← Bool.eq_false_iff.mpr hdue, ← hmemory]

/-- A free wallet is entered, with nothing left to recover. -/
theorem alone_begin {w : Wallet} (hlock : w.lock = none) :
    Stage.Alone (Wallet.does makes call time) (w, []) begin (.ok ()) (Wallet.entered w call, []) :=
  .bind (alone_enter hlock) (alone_recover rfl)

end

end

end Geata.Service
