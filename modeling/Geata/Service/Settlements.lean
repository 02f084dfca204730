import Geata.Service.Associations
import Geata.Service.Evidence

namespace Geata.Service

open Geata.Lib Geata.Lightning Geata.Payments Function

/-!
# What the calls of `Lightning` leave in the history

The programs of settlement, of challenges and of the maintenance loops, in the logic of the
history, and what their answers show.

* `SettledX402`, `AdmittedL402` — behind every admission there is a claim, and behind one by a
  mint-backed credential a deposit.
* `Advertised` — behind every challenge of a mint there is an association.
* `records` — the proof outline.
-/

section

variable {κ : Type} {X : Service.Crates κ} {out : Outside} {J : System κ → Prop} {call : ℕ}
  {s s' : System κ} {ε α : Type} {Q : α → System κ → Prop}

/-- An operation of `Lightning`, with the states around it. -/
theorem safe_record {e : ε} {o : LightningOp κ} {k : o.Answer → Stage (ServiceSig κ) ε α}
    (hneeds : ∀ s₁, Later s s₁ → Recorded X out s₁ → BaseOp.Allowed X out s₁.history (.lightning o))
    (h : ∀ a s₁ s₂, Later s s₁ → J s₁ → Recorded X out s₁ → s₁.succeed X.payments out call o a s₂ →
      Recorded X out s₂ → Later s₁ s₂ →
      Stage.safe (recordTimers X out J) call (k a) Q (fun _ _ => True) s₂) :
    Stage.safe (recordTimers X out J) call (perform e o >>= k) Q (fun _ _ => True) s :=
  safe_perform_bind (recordTimers_lasting X out J) hneeds
    (fun a s₁ s₂ hs₁ hi₁ he hi₂ h₁₂ => h a s₁ s₂ hs₁ he.2 hi₁ he.1 hi₂ h₁₂)

/-- The same for a transaction, which opens the database first. -/
theorem safe_record_transact {e : ε} {o : LightningOp κ} {k : o.Answer → Stage (ServiceSig κ) ε α}
    (hneeds : ∀ s₁, Later s s₁ → Recorded X out s₁ → BaseOp.Allowed X out s₁.history (.lightning o))
    (h : ∀ a s₁ s₂, Later s s₁ → J s₁ → Recorded X out s₁ → s₁.succeed X.payments out call o a s₂ →
      Recorded X out s₂ → Later s₁ s₂ →
      Stage.safe (recordTimers X out J) call (k a) Q (fun _ _ => True) s₂) :
    Stage.safe (recordTimers X out J) call (transact e o >>= k) Q (fun _ _ => True) s :=
  safe_transact_bind (recordTimers_lasting X out J) (fun _ _ _ he => nomatch he) hneeds
    (fun a s₁ s₂ hs₁ hi₁ he hi₂ h₁₂ => h a s₁ s₂ hs₁ he.2 hi₁ he.1 hi₂ h₁₂)

/-- A use of a wallet, with what it shows. -/
theorem safe_record_attempt {β : Type} {mint : String} {body : Stage WalletSig Failure β}
    {R : β → System κ → Prop} {k : Except Failure β → Stage (ServiceSig κ) ε α}
    (hbody : Stage.safe (recordWallet X out J mint) call body R (fun _ _ => True) s)
    (hstable : ∀ b s₁ s₂, Later s₁ s₂ → R b s₁ → R b s₂)
    (h : ∀ r s₁, Later s s₁ → (∀ b, r = .ok b → R b s₁) →
      Stage.safe (recordTimers X out J) call (k r) Q (fun _ _ => True) s₁) :
    Stage.safe (recordTimers X out J) call (attempt mint body >>= k) Q (fun _ _ => True) s := by
  refine safe_attempt_bind (recordTimers_lasting X out J) (fun _ _ _ he => nomatch he)
    hbody hstable (fun r s₁ hs₁ _ hr => h r s₁ hs₁ ?_)
  rintro b rfl
  exact hr

/-! ### Claims -/

theorem safe_record_claim {key : String} {retainUntil : ℕ} :
    Stage.safe (recordTimers X out J) call (claim key retainUntil)
      (fun _ s' => .claimed call key retainUntil ∈ s'.history ∧ s.clock < retainUntil)
      (fun _ _ => True) s := by
  unfold claim
  refine safe_record_transact (fun _ _ _ e he => nomatch he)
    (fun (claimed : Bool) s₁ s₂ hs₁ _ _ he _ _ => ?_)
  refine Stage.safe_stopIf (fun _ _ _ _ => trivial) (fun hclaimed s₃ hs₃ _ => ?_)
  obtain rfl : claimed = true := by simpa using hclaimed
  obtain ⟨store, hstore, rfl⟩ := he
  obtain ⟨hlive, -⟩ := Store.claim_ok_iff.mp hstore
  exact ⟨hs₃.mem (List.mem_cons_self ..), Nat.lt_of_le_of_lt hs₁.clock hlive⟩

/-! ### Settlement of an x402 payment -/

/-- A payment that passed the checks was claimed. -/
def SettledX402 (X : Service.Crates κ) (call : ℕ) (policy : Policy) (hash encoded : String)
    (s : System κ) : Prop :=
  ∃ payment invoice time, ValidPayment X.l402.toCrates policy hash encoded time payment invoice ∧
    .claimed call (replayKey policy.receiver.network invoice.paymentHash) invoice.retainUntil
      ∈ s.history

theorem SettledX402.later {policy : Policy} {hash encoded : String}
    (h : SettledX402 X call policy hash encoded s) (hs : Later s s') :
    SettledX402 X call policy hash encoded s' := by
  obtain ⟨payment, invoice, time, hvalid, hclaimed⟩ := h
  exact ⟨payment, invoice, time, hvalid, hs.mem hclaimed⟩

theorem safe_settle [DecidableEq κ] {policy : Policy} {hash encoded : String} :
    Stage.safe (recordTimers X out J) call (settle X policy hash encoded)
      (fun _ s => SettledX402 X call policy hash encoded s) (fun _ _ => True) s := by
  have hL := recordTimers_lasting X out J
  unfold settle
  refine safe_record (fun _ _ _ e he => nomatch he) (fun time s₁ s₂ _ _ _ _ _ _ => ?_)
  refine Stage.safe_ofExcept_bind (fun _ _ _ _ _ => trivial) (fun result hverify => ?_)
  obtain ⟨payment, invoice, hvalid, rfl⟩ := verify_ok_iff.mp (mapError_eq_ok.mp hverify)
  refine Stage.safe_bind hL safe_record_claim (fun _ s₃ _ _ hclaimed => ?_) (fun _ _ _ _ _ => trivial)
  exact Stage.safe_pure (fun s₄ hs₄ _ => ⟨payment, invoice, time, hvalid, hs₄.mem hclaimed.1⟩)

/-! ### Settlement of an L402 credential -/

theorem checkDeposit_ok {policy : Policy} {mint : String} {record : Option Deposit}
    {deposit : Deposit} : checkDeposit policy mint record = .ok deposit ↔
      record = some deposit ∧ deposit.mint = mint ∧ deposit.amount = policy.amountSat := by
  unfold checkDeposit
  simp only [bind_eq_ok, context_eq_ok, ensure_eq_ok, exists_const, pure_eq_ok, Bool.and_eq_true,
    beq_iff_eq]
  constructor
  · rintro ⟨d, hd, hterms, rfl⟩
    exact ⟨hd, hterms⟩
  · rintro ⟨hd, hterms⟩
    exact ⟨deposit, hd, hterms, rfl⟩

/-- The association behind a mint-backed admission, as it was read at `s₀`, and its deposit. -/
structure Funded (J : System κ → Prop) (policy : Policy) (mint key : String) (deposit : Deposit)
    (s₀ s : System κ) : Prop where
  visited : J s₀
  before : Later s₀ s
  row : s₀.store.quotes.lookup key = some deposit
  mint_eq : deposit.mint = mint
  amount_eq : deposit.amount = policy.amountSat
  received : Received s.history mint deposit.quote deposit.amount.toNat deposit.invoice

theorem Funded.later {policy : Policy} {mint key : String} {deposit : Deposit} {s₀ : System κ}
    (h : Funded J policy mint key deposit s₀ s) (hs : Later s s') :
    Funded J policy mint key deposit s₀ s' :=
  { h with before := h.before.trans hs, received := h.received.mono hs.history.subset }

theorem safe_collectFunds {policy : Policy} {key : String} :
    Stage.safe (recordTimers X out J) call (collectFunds X policy key)
      (fun _ s' => ∀ mint, policy.receiver.mint? = some mint →
        ∃ deposit s₀, Later s s₀ ∧ Funded J policy mint key deposit s₀ s')
      (fun _ _ => True) s := by
  unfold collectFunds
  split
  · rename_i mint hmint
    unfold collectCashuInvoice
    refine safe_record_transact (fun _ _ _ e he => nomatch he)
      (fun record s₁ s₂ hs₁ hJ _ he _ h₁₂ => ?_)
    obtain ⟨rfl, rfl⟩ := he
    refine Stage.safe_ofExcept_bind (fun _ _ _ _ _ => trivial) (fun deposit hcheck => ?_)
    obtain ⟨hrow, hm, hamount⟩ := checkDeposit_ok.mp hcheck
    refine safe_record_attempt safe_collectMintInvoice
      (fun _ _ _ hs h => h.mono hs.history.subset) (fun r s₃ hs₃ hr => ?_)
    refine Stage.safe_ofExcept (fun _ _ _ _ _ => trivial) (fun u hok s₄ hs₄ _ => ?_)
    have hreceived := hr u (mapError_eq_ok.mp hok)
    intro mint' hmint'
    obtain rfl := Option.some.inj (hmint.symm.trans hmint')
    exact ⟨deposit, s₂, hs₁, hJ, hs₃.trans hs₄, hrow, hm, hamount,
      hreceived.mono hs₄.history.subset⟩
  · rename_i hnone
    refine Stage.safe_pure (fun _ _ _ mint hmint => ?_)
    rw [hnone] at hmint
    exact absurd hmint (by simp)

/-- What stands behind an admitted credential. -/
structure AdmittedL402 [DecidableEq κ] (X : Service.Crates κ) (J : System κ → Prop) (call : ℕ)
    (policy : Policy) (hash encoded : String) (macaroon : Macaroon κ) (root : κ) (validBefore : ℕ)
    (s : System κ) : Prop where
  verified : ∃ preimage time, L402.parseCredential X.l402 encoded = .ok (macaroon, preimage) ∧
    L402.verify X.l402 policy hash macaroon preimage root validBefore time = .ok ()
  rooted : .rooted (digest X.sha256 macaroon.identifier) (root, validBefore) ∈ s.history
  claimed : .claimed call (L402.credentialKey policy macaroon.identifier)
    (L402.retainUntil validBefore) ∈ s.history
  funded : ∀ mint, policy.receiver.mint? = some mint → ∃ deposit s₀,
    Funded J policy mint (L402.credentialKey policy macaroon.identifier) deposit s₀ s ∧
      .rooted (digest X.sha256 macaroon.identifier) (root, validBefore) ∈ s₀.history ∧
      s₀.clock < L402.retainUntil validBefore

theorem AdmittedL402.later [DecidableEq κ] {policy : Policy} {hash encoded : String}
    {macaroon : Macaroon κ} {root : κ} {validBefore : ℕ}
    (h : AdmittedL402 X J call policy hash encoded macaroon root validBefore s) (hs : Later s s') :
    AdmittedL402 X J call policy hash encoded macaroon root validBefore s' := by
  refine ⟨h.verified, hs.mem h.rooted, hs.mem h.claimed, fun mint hmint => ?_⟩
  obtain ⟨deposit, s₀, hfunded, hrest⟩ := h.funded mint hmint
  exact ⟨deposit, s₀, hfunded.later hs, hrest⟩

theorem safe_settleL402 [DecidableEq κ] {policy : Policy} {hash encoded : String} :
    Stage.safe (recordTimers X out J) call (settleL402 X policy hash encoded)
      (fun _ s => ∃ macaroon root validBefore,
        AdmittedL402 X J call policy hash encoded macaroon root validBefore s)
      (fun _ _ => True) s := by
  have hL := recordTimers_lasting X out J
  unfold settleL402
  refine safe_record (fun _ _ _ e he => nomatch he) (fun _ s₁ s₂ _ _ _ _ _ _ => ?_)
  refine Stage.safe_ofExcept_bind (fun _ _ _ _ _ => trivial) (fun parsed hparse => ?_)
  obtain ⟨macaroon, preimage⟩ := parsed
  refine safe_record_transact (fun _ _ _ e he => nomatch he)
    (fun record s₃ s₄ _ _ hi₃ he _ _ => ?_)
  obtain ⟨rfl, rfl⟩ := he
  refine Stage.safe_ofExcept_bind (fun _ _ _ _ _ => trivial) (fun record hrecord => ?_)
  obtain ⟨root, validBefore⟩ := record
  have hrooted := hi₃.roots _ _ (context_eq_ok.mp hrecord)
  refine safe_record (fun _ _ _ e he => nomatch he) (fun time s₅ s₆ hs₅ _ _ _ _ h₅₆ => ?_)
  have hrooted := (hs₅.trans h₅₆).mem hrooted
  refine Stage.safe_ofExcept_bind (fun _ _ _ _ _ => trivial) (fun _ hverify => ?_)
  refine Stage.safe_bind hL safe_collectFunds (fun _ s₇ hs₇ _ hfunds => ?_) (fun _ _ _ _ _ => trivial)
  refine Stage.safe_mono hL safe_record_claim (fun _ s₈ hs₈ _ hclaim => ?_) (fun _ _ _ _ _ => trivial)
  obtain ⟨hclaimed, hlive⟩ := hclaim
  refine ⟨macaroon, root, validBefore, ⟨preimage, time, mapError_eq_ok.mp hparse,
    mapError_eq_ok.mp hverify⟩, hs₈.mem (hs₇.mem hrooted), hclaimed, fun mint hmint => ?_⟩
  obtain ⟨deposit, s₀, hs₀, hfunded⟩ := hfunds mint hmint
  exact ⟨deposit, s₀, hfunded.later hs₈, hs₀.mem hrooted,
    Nat.lt_of_le_of_lt hfunded.before.clock hlive⟩

/-! ### Challenges -/

/-- The record of a credential, whatever its macaroon looks like. -/
theorem credential_record {policy : Policy} {hash : String} {parsed : Bolt11Invoice} {root : κ}
    {nonce : List UInt8} {c : L402.Credential κ}
    (h : L402.credential X.l402 policy hash parsed root nonce = .ok c) :
    c.root = root ∧ c.identifier = L402.identifier parsed.paymentHash nonce ∧
      L402.validBefore parsed = some c.validBefore := by
  simp only [L402.credential, bind_eq_ok, context_eq_ok, pure_eq_ok] at h
  obtain ⟨vb, hvb, m, -, binary, -, rfl⟩ := h
  exact ⟨rfl, rfl, hvb⟩

/-- The header of a challenge offers a credential for its invoice. -/
def Offers (X : Service.Crates κ) (policy : Policy) (hash invoice : String) (parsed : Bolt11Invoice)
    (header : String) (s : System κ) : Prop :=
  ∃ root nonce c, L402.credential X.l402 policy hash parsed root nonce = .ok c ∧
    header = "L402 macaroon=\"" ++ c.encoded ++ "\", invoice=\"" ++ invoice ++ "\"" ∧
    .rooted (digest X.sha256 c.identifier) (root, c.validBefore) ∈ s.history

theorem Offers.later {policy : Policy} {hash invoice header : String} {parsed : Bolt11Invoice}
    (h : Offers X policy hash invoice parsed header s) (hs : Later s s') :
    Offers X policy hash invoice parsed header s' := by
  obtain ⟨root, nonce, c, hc, hheader, hrooted⟩ := h
  exact ⟨root, nonce, c, hc, hheader, hs.mem hrooted⟩

theorem safe_mintL402 {policy : Policy} {hash invoice : String} {parsed : Bolt11Invoice}
    (hsigned : out.Signed X.l402.toCrates parsed) :
    Stage.safe (recordTimers X out J) call (mintL402 X policy hash invoice parsed)
      (Offers X policy hash invoice parsed) (fun _ _ => True) s := by
  unfold mintL402
  refine safe_record (fun _ _ _ e he => nomatch he) (fun _ s₁ s₂ _ _ _ _ _ _ => ?_)
  refine safe_record (fun _ _ _ e he => nomatch he) (fun root s₃ s₄ _ _ _ _ _ _ => ?_)
  refine safe_record (fun _ _ _ e he => nomatch he) (fun nonce s₅ s₆ _ _ _ _ _ _ => ?_)
  refine Stage.safe_ofExcept_bind (fun _ _ _ _ _ => trivial) (fun c hc => ?_)
  have hc := mapError_eq_ok.mp hc
  obtain ⟨hroot, hid, hbefore⟩ := credential_record hc
  refine safe_record_transact (fun s₇ _ _ e he => ?_) (fun _ s₇ s₈ _ _ _ he _ _ => ?_)
  · obtain rfl := Option.some.inj he
    exact ⟨parsed, nonce, hsigned, by rw [hid], hbefore⟩
  · refine Stage.safe_pure (fun s₉ hs₉ _ => ⟨root, nonce, c, hc, rfl, hs₉.mem ?_⟩)
    rw [← hroot]
    obtain ⟨⟨store, hstore⟩, rfl⟩ := he
    simp only [System.commit, hstore]
    exact List.mem_cons_self ..

/-- What stands behind the invoice of a mint-backed challenge. -/
structure Advertised (X : Service.Crates κ) (out : Outside) (policy : Policy) (mint : String)
    (quote : MintQuote) (parsed : Bolt11Invoice) (s : System κ) : Prop where
  quoted : out.quotes mint quote
  parses : X.parseInvoice quote.request = some parsed
  inserted : .inserted (replayKey policy.receiver.network parsed.paymentHash)
    (depositOf policy mint quote) ∈ s.history
  remembered : .remembered mint ∈ s.history

theorem Advertised.later {policy : Policy} {mint : String} {quote : MintQuote}
    {parsed : Bolt11Invoice} (h : Advertised X out policy mint quote parsed s) (hs : Later s s') :
    Advertised X out policy mint quote parsed s' :=
  { h with inserted := hs.mem h.inserted, remembered := hs.mem h.remembered }

theorem safe_cashuInvoice {policy : Policy} {mint hash : String}
    (hmint : X.parseMint mint = some mint) :
    Stage.safe (recordTimers X out J) call (cashuInvoice X policy mint hash)
      (fun text s => ∃ quote parsed, text = quote.request ∧
        Advertised X out policy mint quote parsed s) (fun _ _ => True) s := by
  unfold cashuInvoice
  refine safe_record_transact (fun s₁ _ _ e he => ?_) (fun _ s₁ s₂ _ _ _ he _ _ => ?_)
  · obtain rfl := Option.some.inj he
    exact hmint
  have hremembered : .remembered mint ∈ s₂.history := by
    obtain rfl := (he : s₂ = _)
    exact List.mem_cons_self ..
  refine safe_record_attempt (safe_mintInvoice hremembered)
    (fun _ _ _ hs h => ⟨h.1, hs.mem h.2⟩) (fun answer s₃ hs₃ hanswer => ?_)
  refine Stage.safe_ofExcept_bind (fun _ _ _ _ _ => trivial) (fun quote hquote => ?_)
  obtain ⟨hmade, hquoted⟩ := hanswer quote hquote
  have hremembered := hs₃.mem hremembered
  refine safe_record (fun _ _ _ e he => nomatch he) (fun time s₄ s₅ hs₄ _ _ _ _ h₄₅ => ?_)
  have h₃₅ := hs₄.trans h₄₅
  refine Stage.safe_ofExcept_bind (fun _ _ _ _ _ => trivial) (fun parsed hparsed => ?_)
  have hvalid := validateInvoice_ok_iff.mp (mapError_eq_ok.mp hparsed)
  refine Stage.safe_stopIf_bind (fun _ _ _ _ => trivial) (fun hterms => ?_)
  obtain ⟨hamount, hunit⟩ : quote.amount = some policy.amountSat.toNat ∧ quote.unit = .sat := by
    simpa using hterms
  refine safe_record (fun _ _ _ e he => nomatch he) (fun time' s₆ s₇ hs₆ _ _ _ _ h₆₇ => ?_)
  have h₃₇ := (h₃₅.trans hs₆).trans h₆₇
  refine Stage.safe_ofExcept_bind (fun _ _ _ _ _ => trivial) (fun _ _ => ?_)
  refine safe_record_transact (fun s₈ hs₈ _ e he => ?_) (fun _ s₈ s₉ hs₈ _ _ he _ h₈₉ => ?_)
  · obtain rfl := Option.some.inj he
    have h₃₈ := h₃₇.trans hs₈
    exact ⟨quote, parsed, policy.receiver.network, rfl, h₃₈.mem hremembered, h₃₈.mem hquoted, rfl,
      rfl, hamount, hunit, hvalid.parsed, rfl, hvalid.currency, hvalid.last⟩
  · have h₃₉ := (h₃₇.trans hs₈).trans h₈₉
    refine Stage.safe_pure (fun s' hs' _ => ⟨quote, parsed, rfl, hmade, hvalid.parsed,
      hs'.mem ?_, hs'.mem (h₃₉.mem hremembered)⟩)
    obtain ⟨⟨store, hstore⟩, rfl⟩ := he
    simp only [System.commit, hstore]
    exact List.mem_cons_self ..

/-- The invoice text of a challenge is a receiver's, and a mint's is advertised. -/
def Drawn (X : Service.Crates κ) (out : Outside) (policy : Policy) (text : String) (s : System κ) :
    Prop :=
  ((∃ node, out.invoices node text) ∨ ∃ mint quote, out.quotes mint quote ∧ quote.request = text) ∧
    ∀ mint, policy.receiver.mint? = some mint → ∃ quote parsed, text = quote.request ∧
      Advertised X out policy mint quote parsed s

theorem safe_receiverInvoice {policy : Policy} {hash : String}
    (hmint : ∀ mint, policy.receiver.mint? = some mint → X.parseMint mint = some mint) :
    Stage.safe (recordTimers X out J) call (receiverInvoice X policy hash)
      (Drawn X out policy) (fun _ _ => True) s := by
  have hL := recordTimers_lasting X out J
  unfold receiverInvoice
  split
  · rename_i node hnode
    rw [← bind_pure (perform _ _)]
    refine safe_record (fun _ _ _ e he => nomatch he) (fun text s₁ s₂ _ _ _ he _ _ => ?_)
    obtain ⟨hmade, rfl⟩ := he
    refine Stage.safe_pure (fun _ _ _ => ⟨.inl ⟨node, hmade⟩, fun mint hm => ?_⟩)
    rw [hnode] at hm
    exact absurd hm (by simp [ReceiverConfig.mint?])
  · rename_i mint network hreceiver
    refine Stage.safe_mono hL (safe_cashuInvoice (hmint mint (by rw [hreceiver]; rfl)))
      (fun text s₁ _ _ h => ?_) (fun _ _ _ _ _ => trivial)
    obtain ⟨quote, parsed, rfl, hadvertised⟩ := h
    refine ⟨.inr ⟨mint, quote, hadvertised.quoted, rfl⟩, fun mint' hm => ?_⟩
    rw [hreceiver] at hm
    obtain rfl := Option.some.inj (show some mint = some mint' from hm)
    exact ⟨quote, parsed, rfl, hadvertised⟩

/-- What stands behind the answer to a challenge. -/
def Challenged (X : Service.Crates κ) (out : Outside) (policy : Policy) (hash : String)
    (c : Challenge) (s : System κ) : Prop :=
  ∀ mint, policy.receiver.mint? = some mint → ∃ quote parsed,
    Advertised X out policy mint quote parsed s ∧
    ∀ header, c.l402 = some header → Offers X policy hash quote.request parsed header s

theorem Challenged.later {policy : Policy} {hash : String} {c : Challenge}
    (h : Challenged X out policy hash c s) (hs : Later s s') :
    Challenged X out policy hash c s' := by
  intro mint hmint
  obtain ⟨quote, parsed, hadvertised, hoffers⟩ := h mint hmint
  exact ⟨quote, parsed, hadvertised.later hs, fun header hh => (hoffers header hh).later hs⟩

theorem safe_challenge {policy : Policy} {url hash : String} {client : IpAddr}
    (hmint : ∀ mint, policy.receiver.mint? = some mint → X.parseMint mint = some mint) :
    Stage.safe (recordTimers X out J) call (challenge X policy url hash client)
      (Challenged X out policy hash) (fun _ _ => True) s := by
  have hL := recordTimers_lasting X out J
  unfold challenge
  refine safe_record (fun _ _ _ e he => nomatch he) (fun _ _ _ _ _ _ _ _ _ => ?_)
  refine safe_record (fun _ _ _ e he => nomatch he) (fun _ _ _ _ _ _ _ _ _ => ?_)
  refine safe_record (fun _ _ _ e he => nomatch he) (fun _ s₁ s₂ _ _ _ _ _ _ => ?_)
  refine safe_record_transact (fun _ _ _ e he => nomatch he) (fun _ s₃ s₄ _ _ _ _ _ _ => ?_)
  refine Stage.safe_bind hL (safe_receiverInvoice hmint) (fun text s₅ _ _ hdrawn => ?_)
    (fun _ _ _ _ _ => trivial)
  refine safe_record (fun _ _ _ e he => nomatch he) (fun time s₆ s₇ hs₆ _ _ _ _ h₆₇ => ?_)
  have h₅₇ := hs₆.trans h₆₇
  refine Stage.safe_ofExcept_bind (fun _ _ _ _ _ => trivial) (fun parsed hparsed => ?_)
  have hvalid := validateInvoice_ok_iff.mp (mapError_eq_ok.mp hparsed)
  have hsigned : out.Signed X.l402.toCrates parsed := .inr ⟨text, hvalid.parsed, hdrawn.1⟩
  refine Stage.safe_bind hL (R := fun l402 s => ∀ header, l402 = some header →
      Offers X policy hash text parsed header s) (F := fun _ _ => True) ?_ (fun l402 s₈ hs₈ _ h => ?_)
    (fun _ _ _ _ _ => trivial)
  · unfold challengeL402
    split
    · refine Stage.safe_bind hL (safe_mintL402 hsigned) (fun header s₈ _ _ hoffers => ?_)
        (fun _ _ _ _ _ => trivial)
      refine Stage.safe_pure (fun s₉ hs₉ _ header' hheader => ?_)
      obtain rfl := Option.some.inj hheader
      exact hoffers.later hs₉
    · exact Stage.safe_pure (fun _ _ _ header hheader => absurd hheader (by simp))
  · refine Stage.safe_pure (fun s₉ hs₉ _ mint hm => ?_)
    obtain ⟨quote, parsed', rfl, hadvertised⟩ := hdrawn.2 mint hm
    obtain rfl := Option.some.inj (hadvertised.parses.symm.trans hvalid.parsed)
    exact ⟨quote, parsed', hadvertised.later ((h₅₇.trans hs₈).trans hs₉),
      fun header hheader => (h header hheader).later hs₉⟩

/-! ### Maintenance -/

/-- A row that was read: as it was stored, or as it was retired. -/
def Listed (key : String) (deposit : Deposit) (s : System κ) : Prop :=
  .inserted key deposit ∈ s.history ∧ deposit.retired = false ∨
    ∃ d, .retired key d ∈ s.history ∧ deposit = { d with retired := true }

/-- An association was retired, if not as it is now. -/
def RetiredFor (key : String) (deposit : Deposit) (s : System κ) : Prop :=
  ∃ d, .retired key d ∈ s.history ∧
    ({ deposit with retired := true } : Deposit) = { d with retired := true }

variable {key : String} {deposit : Deposit}

theorem Listed.later (h : Listed key deposit s) (hs : Later s s') : Listed key deposit s' := by
  rcases h with ⟨hins, hfresh⟩ | ⟨d, hretired, hd⟩
  · exact .inl ⟨hs.mem hins, hfresh⟩
  · exact .inr ⟨d, hs.mem hretired, hd⟩

theorem safe_retireDeposit (hrow : Listed key deposit s) :
    Stage.safe (recordTimers X out J) call (retireDeposit X key deposit)
      (fun retired s => retired = true → RetiredFor key deposit s) (fun _ _ => True) s := by
  unfold retireDeposit
  split
  · rename_i hretired
    refine Stage.safe_pure (fun s₁ hs₁ _ _ => ?_)
    rcases hrow with ⟨-, hfresh⟩ | ⟨d, hd, rfl⟩
    · exact absurd hretired (by simp [hfresh])
    · exact ⟨d, hs₁.mem hd, rfl⟩
  · rename_i hfresh
    have hins : .inserted key deposit ∈ s.history := by
      rcases hrow with ⟨hins, -⟩ | ⟨d, -, rfl⟩
      · exact hins
      · exact absurd rfl hfresh
    refine safe_record_attempt (safe_canPruneMintDeposit rfl)
      (fun _ _ _ hs h hyes => (h hyes).mono hs.history.subset) (fun answer s₁ hs₁ hanswer => ?_)
    split
    · rename_i heq
      have hevidence := hanswer true rfl rfl
      refine safe_record (fun s₂ hs₂ _ e he => ?_) (fun _ s₂ s₃ _ _ _ he _ _ => ?_)
      · obtain rfl := Option.some.inj he
        exact ⟨hs₂.mem (hs₁.mem hins), hevidence.mono hs₂.history.subset⟩
      · obtain rfl := (he : s₃ = _)
        exact Stage.safe_pure (fun s₄ hs₄ _ _ => ⟨deposit, hs₄.mem (List.mem_cons_self ..), rfl⟩)
    · exact Stage.safe_pure (fun _ _ _ hno => absurd hno (by simp))

theorem safe_removeDeposit (hretired : RetiredFor key deposit s) :
    Stage.safe (recordTimers X out J) call (removeDeposit key deposit)
      (fun _ _ => True) (fun _ _ => True) s := by
  obtain ⟨d, hd, hrow⟩ := hretired
  have hmint : d.mint = deposit.mint := (congrArg Deposit.mint hrow).symm
  have hquote : d.quote = deposit.quote := (congrArg Deposit.quote hrow).symm
  unfold removeDeposit
  rw [← hmint, ← hquote]
  refine safe_record_attempt (safe_removeRetiredMintQuote hd) (fun _ _ _ hs h => hs.mem h)
    (fun answer s₁ hs₁ hanswer => ?_)
  split
  · have hremoved := hanswer () rfl
    rw [← bind_pure (perform _ _)]
    refine safe_record (fun s₂ hs₂ _ e he => ?_)
      (fun _ _ _ _ _ _ _ _ _ => Stage.safe_pure (fun _ _ _ => trivial))
    obtain rfl := Option.some.inj he
    exact ⟨d, by rw [← hrow, hmint, hquote], hs₂.mem (hs₁.mem hd), hs₂.mem hremoved⟩
  · exact Stage.safe_pure (fun _ _ _ => trivial)

theorem safe_pruneDeposit {time : ℕ} (hrow : Listed key deposit s) :
    Stage.safe (recordTimers X out J) call (pruneDeposit X time key deposit)
      (fun _ _ => True) (fun _ _ => True) s := by
  have hL := recordTimers_lasting X out J
  unfold pruneDeposit
  refine safe_record (fun _ _ _ e he => nomatch he) (fun _ s₁ s₂ hs₁ _ _ _ _ h₁₂ => ?_)
  have hrow := hrow.later (hs₁.trans h₁₂)
  refine Stage.safe_ofExcept_bind (fun _ _ _ _ _ => trivial) (fun invoice _ => ?_)
  -- case analysis would otherwise unfold the deadline
  generalize invoice.retainUntil = last
  refine Stage.safe_ite (fun _ => Stage.safe_pure (fun _ _ _ => trivial)) (fun _ => ?_)
  refine Stage.safe_bind hL (safe_retireDeposit hrow) (fun retired s₃ _ _ hretired => ?_)
    (fun _ _ _ _ _ => trivial)
  split
  · rename_i hyes
    exact safe_removeDeposit (hretired hyes)
  · exact Stage.safe_pure (fun _ _ _ => trivial)

theorem safe_pruneDeposits {time : ℕ} {rows : List (String × Deposit)}
    (hrows : ∀ row ∈ rows, Listed row.1 row.2 s) :
    Stage.safe (recordTimers X out J) call (pruneDeposits X time rows)
      (fun _ _ => True) (fun _ _ => True) s := by
  have hL := recordTimers_lasting X out J
  induction rows generalizing s with
  | nil => exact Stage.safe_pure (fun _ _ _ => trivial)
  | cons row rest ih =>
    refine Stage.safe_bind hL (safe_pruneDeposit (hrows row (List.mem_cons_self ..)))
      (fun _ s₁ hs₁ _ _ => ih (fun row' hrow' => ?_)) (fun _ _ _ _ _ => trivial)
    exact (hrows row' (List.mem_cons_of_mem _ hrow')).later hs₁

theorem safe_recoverMints {mints : List (String × List String)} :
    Stage.safe (recordTimers X out J) call (recoverMints X mints)
      (fun _ _ => True) (fun _ _ => True) s := by
  induction mints generalizing s with
  | nil => exact Stage.safe_pure (fun _ _ _ => trivial)
  | cons row rest ih =>
    exact safe_record_attempt safe_recoverMintDeposits (fun _ _ _ _ h => h) (fun _ _ _ _ => ih)

theorem safe_recoverCashuDeposits :
    Stage.safe (recordTimers X out J) call (recoverCashuDeposits X)
      (fun _ _ => True) (fun _ _ => True) s := by
  have hL := recordTimers_lasting X out J
  unfold recoverCashuDeposits
  refine safe_record (fun _ _ _ e he => nomatch he) (fun found s₁ s₂ _ _ _ _ _ _ => ?_)
  split
  · refine safe_record_transact (fun _ _ _ e he => nomatch he) (fun mints s₃ s₄ _ _ _ _ _ _ => ?_)
    refine Stage.safe_bind hL safe_recoverMints (fun _ s₅ _ _ _ => ?_) (fun _ _ _ _ _ => trivial)
    unfold pruneCashuDeposits
    refine safe_record (fun _ _ _ e he => nomatch he) (fun cursor s₆ s₇ _ _ _ _ _ _ => ?_)
    refine safe_record_transact (fun _ _ _ e he => nomatch he)
      (fun rows s₈ s₉ _ _ hi₈ he _ _ => ?_)
    obtain ⟨rfl, rfl⟩ := he
    refine safe_record (fun _ _ _ e he => nomatch he) (fun time s₁₀ s₁₁ hs₁₀ _ _ _ _ h => ?_)
    refine safe_pruneDeposits (fun row hrow => ?_)
    have hrow := mem_resume.mp (List.mem_of_mem_take hrow)
    exact Listed.later (hi₈.quotes _ _ (Table.mem_rows.mp hrow)) (hs₁₀.trans h)
  · exact Stage.safe_pure (fun _ _ _ => trivial)

/-! ### The outline -/

/-- The other calls make no entries that have to be justified. -/
theorem allowed_of_within {part : Part} {sweeps : Bool} {o : BaseOp κ} (h : o.Within part sweeps)
    (hpart : part ≠ .deposit) (past : List (Happening κ)) : o.Allowed X out past := by
  intro e he
  cases o with
  | lightning o => exact absurd h.1 hpart
  | lockDirectory mint => exact nomatch he
  | wallet mint o =>
    cases o with
    | cdk o =>
      cases o
      case mintQuote amount =>
        rcases h with h | h
        · exact nomatch h
        · exact absurd h.symm hpart
      case removeMintQuote id =>
        rcases h with h | h
        · exact nomatch h
        · exact absurd h.symm hpart
      all_goals exact nomatch he
    | _ => exact nomatch he

/-- What every answer shows. -/
def Shows [DecidableEq κ] (X : Service.Crates κ) (out : Outside) (J : System κ → Prop) (call : ℕ) :
    Request → Answer → System κ → Prop
  | .settle policy hash encoded, .settled (.ok _), s =>
      (∀ node, policy.receiver.ldk? = some node → out.nodes node) ∧
        SettledX402 X call policy hash encoded s
  | .settleL402 policy hash encoded, .settledL402 (.ok ()), s => ∃ macaroon root validBefore,
      AdmittedL402 X J call policy hash encoded macaroon root validBefore s
  | .challenge policy _ hash _, .challenged (.ok c), s => Challenged X out policy hash c s
  | _, _, _ => True

theorem Shows.later [DecidableEq κ] {q : Request} {a : Answer} (h : Shows X out J call q a s)
    (hs : Later s s') : Shows X out J call q a s' := by
  unfold Shows at h ⊢
  split at h
  · exact ⟨h.1, h.2.later hs⟩
  · obtain ⟨macaroon, root, validBefore, h⟩ := h
    exact ⟨macaroon, root, validBefore, h.later hs⟩
  · exact Challenged.later h hs
  · trivial

/-- A call shows what its stage ensures. -/
theorem wp_answer {L : Logic (ServiceSig κ) (System κ)} (hL : L.Lasting) {ε β : Type}
    {t : Stage (ServiceSig κ) ε β} {f : Except ε β → Answer} {R : β → System κ → Prop}
    {Post : Answer → System κ → Prop} (hi : L.Inv s)
    (ht : Stage.safe L call t R (fun _ _ => True) s) (hok : ∀ b s, R b s → Post (f (.ok b)) s)
    (herror : ∀ e s, Post (f (.error e)) s) :
    L.wp call (t.run.bind (fun r => .ret (f r))) Post s := by
  refine (Logic.wp_bind t.run _ _ s).mpr ?_
  refine Logic.wp_mono (Logic.safe.wp hL ht hi) (fun r s' hr => ?_)
  cases r with
  | ok b => exact hok b s' hr
  | error e => exact herror e s'

variable [DecidableEq κ]

theorem code_shows (hi : Recorded X out s) {q : Request} (hq : q.Arrives X.payments out s) :
    (recordTimers X out J).wp call (code X q) (Shows X out J call q) s := by
  have hL := recordTimers_lasting X out J
  have hother : q.part ≠ .deposit → (∀ a s, Shows X out J call q a s) →
      (recordTimers X out J).wp call (code X q) (Shows X out J call q) s := fun hpart hshows =>
    Logic.wp_mono (Logic.wp_of_all ((code_within X q).mono (fun o ho s _ =>
      recordTimers_needs.mpr (allowed_of_within ho hpart s.history)))) (fun a s _ => hshows a s)
  cases q with
  | settle policy hash encoded =>
    exact wp_answer hL hi safe_settle (fun _ _ h => ⟨hq.2, h⟩) (fun _ _ => trivial)
  | settleL402 policy hash encoded =>
    exact wp_answer hL hi safe_settleL402 (fun _ _ h => h) (fun _ _ => trivial)
  | challenge policy url hash client =>
    exact wp_answer hL hi (safe_challenge hq.2) (fun _ _ h => h) (fun _ _ => trivial)
  | recoverCashuDeposits =>
    exact wp_answer hL hi safe_recoverCashuDeposits (fun _ _ _ => trivial) (fun _ _ => trivial)
  | pruneExpired =>
    refine wp_answer hL hi (R := fun _ _ => True) (Stage.safe_of_all ?_) (fun _ _ _ => trivial)
      (fun _ _ => trivial)
    have hmute : ∀ o : LightningOp κ, o.entry = none → ∀ s, (recordTimers X out J).Inv s →
        (recordTimers X out J).Needs call (.plain (.lightning o)) s := fun o ho s _ e he =>
      absurd (ho.symm.trans he) (by simp)
    unfold pruneExpired
    refine .bind (all_service_perform.mpr (hmute _ rfl)) (fun found => ?_)
    split
    · exact all_transact (hmute _ rfl) (hmute _ rfl)
    · exact Stage.all_pure _
  | collect site policy encoded => exact hother (by simp [Request.part]) (fun _ _ => trivial)
  | automaticPayout policy => exact hother (by simp [Request.part]) (fun _ _ => trivial)
  | pay mint encoded amount maxTotal => exact hother (by simp [Request.part]) (fun _ _ => trivial)
  | pending mint reclaim => exact hother (by simp [Request.part]) (fun _ _ => trivial)

/-- The proof outline. -/
def records (X : Service.Crates κ) (out : Outside) (J : System κ → Prop) :
    Outline ((machine X out).within J) where
  Inv := Recorded X out
  Rely _ := Later
  Needs := (recordTimers X out J).Needs
  Hist := Later
  Post := Shows X out J
  rely_refl _ := Later.refl
  rely_trans _ _ _ _ := Later.trans
  rely_hist _ _ _ h := h
  hist_trans _ _ _ := Later.trans
  post_hist _ _ _ _ _ hs h := h.later hs
  init s hs := by
    obtain ⟨time, -, rfl⟩ := hs
    exact Recorded.start time
  start i s q hi hq := by
    refine Logic.wp_of_exec (fun s o r s' he => ?_) (code_shows hi hq)
    obtain ⟨he, hJ⟩ := he
    cases o with
    | plain o => exact ⟨he, hJ⟩
    | timed o =>
      cases r with
      | some r => exact ⟨he, hJ⟩
      | none => exact he
  exec i s o r s' hi hn he := by
    obtain ⟨hrec, hlater⟩ := exec_recorded hi (recordTimers_needs.mp hn) he.1
    exact ⟨hrec, fun _ _ => hlater⟩
  cut i s o s' hi hn hc := by
    have hc : (System.effects X.payments out).cut i s o.base s' := by
      cases o <;> exact hc
    obtain ⟨hrec, hlater⟩ := hi.cut (recordTimers_needs.mp hn) hc
    exact ⟨hrec, fun _ _ => hlater⟩
  env s s' hi he := by
    obtain ⟨hrec, hlater⟩ := hi.env he
    exact ⟨hrec, fun _ => hlater⟩
  release i s hi := by
    obtain ⟨hrec, hlater⟩ := hi.release i
    exact ⟨hrec, fun _ _ => hlater⟩
  crash s s' hi hc := by
    obtain rfl : s' = s.exit := hc
    exact hi.exit

/-- The state of a moment of a run. -/
def Visited (X : Service.Crates κ) (out : Outside) (s : System κ) : Prop :=
  ∃ w : World (ServiceSig κ) (System κ) Request Answer,
    World.Reachable (machine X out) w ∧ w.shared = s

/-- **The history rule.**  The history of every run is justified, and every answer shows what it
is to show. -/
theorem records_sound {w : World (ServiceSig κ) (System κ) Request Answer}
    (h : World.Reachable (machine X out) w) : (records X out (Visited X out)).Holds w :=
  (records X out (Visited X out)).sound (h.within (fun w hw => ⟨w, hw, rfl⟩))

end

end Geata.Service
