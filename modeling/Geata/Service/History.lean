import Geata.Lib.Chronicle
import Geata.Payments.Steps
import Geata.Service.Rules

namespace Geata.Service

open Geata.Lib Geata.Lightning Geata.Payments Function

/-!
# What the history of the service tells

Every entry of the history is justified by entries before it: a mint is asked after it was
remembered, a row of the settlement database is made for an invoice of a receiver, a quote is given
up on evidence only.

* `Justified` — what has to be there before an entry is made.
* `Recorded` — **the invariant**: the history is justified, and the tables and wallets agree with
  it.
* `recordLogic` — the logic in which the programs are allowed an operation when its entry is
  justified; `Recorded.exec` — every allowed operation keeps the invariant.
-/

/-! ### Evidence -/

/-- An invoice that a receiver made, or that a configured node signed. -/
def Outside.Signed (X : Lightning.Crates) (out : Outside) (invoice : Bolt11Invoice) : Prop :=
  (∃ node, out.nodes node ∧ X.checkSignature invoice = true ∧ invoice.payee = node.payTo) ∨
    ∃ text, X.parseInvoice text = some invoice ∧
      ((∃ node, out.invoices node text) ∨ ∃ mint quote, out.quotes mint quote ∧ quote.request = text)

/-- A mint's answer at `time` that a stored quote is unpaid, long after every end it could have. -/
structure FreshlyUnpaid (X : Payments.Crates) (quote : MintQuote)
    (response : MintQuoteBolt11Response) (time : ℕ) : Prop where
  id : response.quote = quote.id
  request : response.request = quote.request
  amount : response.amount = quote.amount
  unit : response.unit = some quote.unit
  state : response.state = .unpaid
  paid : response.amountPaid = 0
  issued : response.amountIssued = 0
  stored : quote.expiry ≠ 0 ∧ quote.expiry + QUOTE_PRUNE_GRACE ≤ time
  answered : ∃ expiry, response.expiry = some expiry ∧ expiry ≠ 0 ∧
    expiry + QUOTE_PRUNE_GRACE ≤ time
  invoice : ∃ invoice, X.parseInvoice quote.request = some invoice ∧
    invoice.validUntil + QUOTE_PRUNE_GRACE ≤ time

theorem pastQuoteGrace_ok {expiry time : ℕ} (h : pastQuoteGrace expiry time = true) :
    expiry ≠ 0 ∧ expiry + QUOTE_PRUNE_GRACE ≤ time ∧ expiry + QUOTE_PRUNE_GRACE ≤ u64Max := by
  unfold pastQuoteGrace at h
  rw [Bool.and_eq_true, bne_iff_ne, Option.any_eq_true] at h
  obtain ⟨hne, last, hlast, hle⟩ := h
  obtain ⟨rfl, hmax⟩ := checkedAdd_eq_some hlast
  exact ⟨hne, of_decide_eq_true hle, hmax⟩

/-- A quote that looks unpaid, and of which the mint says so. -/
theorem freshlyUnpaid_of_answers {X : Payments.Crates} {quote : MintQuote}
    {response : MintQuoteBolt11Response} {time time' : ℕ} (hlooks : looksUnpaid X quote time = true)
    (h : answersUnpaid quote time (.bolt11 response) = true) (htime : time ≤ time') :
    FreshlyUnpaid X quote response time' := by
  unfold looksUnpaid at hlooks
  unfold answersUnpaid at h
  simp only [Bool.and_eq_true, beq_iff_eq, Option.any_eq_true] at hlooks h
  obtain ⟨⟨-, hstored⟩, invoice, hparse, hinvoice⟩ := hlooks
  obtain ⟨⟨⟨⟨⟨⟨⟨⟨⟨hid, hrequest⟩, hamount⟩, hunit⟩, -⟩, hstate⟩, hpaid⟩, hissued⟩, -⟩, expiry,
    hexpiry, hanswered⟩ := h
  obtain ⟨hne, hstored, -⟩ := pastQuoteGrace_ok hstored
  obtain ⟨hne', hanswered, -⟩ := pastQuoteGrace_ok hanswered
  obtain ⟨-, hinvoice, hmax⟩ := pastQuoteGrace_ok hinvoice
  refine ⟨hid, hrequest, hamount, hunit, hstate, hpaid, hissued, ⟨hne, hstored.trans htime⟩,
    ⟨expiry, hexpiry, hne', hanswered.trans htime⟩, invoice, hparse, ?_⟩
  -- the end of the invoice did not saturate, or the grace would overflow
  have hsum : saturatingAdd invoice.created invoice.expiry = invoice.validUntil := by
    unfold Bolt11Invoice.validUntil saturatingAdd
    unfold saturatingAdd at hmax
    rw [QUOTE_PRUNE_GRACE_eq] at hmax
    omega
  rw [hsum] at hinvoice
  exact hinvoice.trans htime

section

variable {κ : Type}

/-- A listing showed a deposit of at least `amount` for a quote and its invoice. -/
def Received (past : List (Happening κ)) (mint id : String) (amount : ℕ) (invoice : String) : Prop :=
  ∃ txs t, .wallet mint (.listed txs) ∈ past ∧ t ∈ txs ∧ deposits id amount invoice t = true

/-- The stored quote was read, and the mint answered that it is unpaid. -/
def Unpaid (X : Payments.Crates) (past : List (Happening κ)) (mint : String) (quote : MintQuote) :
    Prop :=
  .wallet mint (.read quote) ∈ past ∧ ∃ response time,
    .wallet mint (.status response time) ∈ past ∧ FreshlyUnpaid X quote response time

/-- An association can be given up. -/
def Evidence (X : Payments.Crates) (past : List (Happening κ)) (deposit : Deposit) : Prop :=
  Received past deposit.mint deposit.quote deposit.amount.toNat deposit.invoice ∨
    ∃ quote, Unpaid X past deposit.mint quote ∧ quote.id = deposit.quote ∧
      quote.request = deposit.invoice ∧ quote.amount = some deposit.amount.toNat

/-- An association is that of a mint's quote, under the key of its invoice. -/
structure Associates (X : Payments.Crates) (past : List (Happening κ)) (key : String)
    (deposit : Deposit) (quote : MintQuote) (invoice : Bolt11Invoice) (network : Network) : Prop where
  fresh : deposit.retired = false
  remembered : .remembered deposit.mint ∈ past
  quoted : .wallet deposit.mint (.quoted quote) ∈ past
  id : deposit.quote = quote.id
  request : deposit.invoice = quote.request
  amount : quote.amount = some deposit.amount.toNat
  unit : quote.unit = .sat
  parsed : X.parseInvoice deposit.invoice = some invoice
  key : key = replayKey network invoice.paymentHash
  currency : invoice.currency = network.currency
  last : invoice.validUntil ≤ u64Max

variable {X : Payments.Crates} {past past' : List (Happening κ)}

theorem Received.mono {mint id invoice : String} {amount : ℕ}
    (h : Received past mint id amount invoice) (hs : past ⊆ past') :
    Received past' mint id amount invoice := by
  obtain ⟨txs, t, hlisted, ht⟩ := h
  exact ⟨txs, t, hs hlisted, ht⟩

theorem Unpaid.mono {mint : String} {quote : MintQuote} (h : Unpaid X past mint quote)
    (hs : past ⊆ past') : Unpaid X past' mint quote := by
  obtain ⟨hread, response, time, hstatus, hfresh⟩ := h
  exact ⟨hs hread, response, time, hs hstatus, hfresh⟩

theorem Evidence.mono {deposit : Deposit} (h : Evidence X past deposit) (hs : past ⊆ past') :
    Evidence X past' deposit := by
  rcases h with h | ⟨quote, h, hterms⟩
  · exact .inl (h.mono hs)
  · exact .inr ⟨quote, h.mono hs, hterms⟩

theorem Associates.mono {key : String} {deposit : Deposit} {quote : MintQuote}
    {invoice : Bolt11Invoice} {network : Network}
    (h : Associates X past key deposit quote invoice network) (hs : past ⊆ past') :
    Associates X past' key deposit quote invoice network :=
  { h with remembered := hs h.remembered, quoted := hs h.quoted }

end

/-! ### Justified entries -/

section

variable {κ : Type}

/-- What has to be there before an entry is made. -/
def Justified (X : Service.Crates κ) (out : Outside) (past : List (Happening κ)) :
    Happening κ → Prop
  | .wallet mint .asked => .remembered mint ∈ past
  | .wallet mint (.removing id) =>
    (∃ key deposit, .retired key deposit ∈ past ∧ deposit.mint = mint ∧ deposit.quote = id) ∨
      ∃ quote, Unpaid X.payments past mint quote ∧ quote.id = id
  | .remembered mint => X.parseMint mint = some mint
  | .inserted key deposit => ∃ quote invoice network,
      Associates X.payments past key deposit quote invoice network
  | .retired key deposit => .inserted key deposit ∈ past ∧ Evidence X.payments past deposit
  | .dropped key row => ∃ deposit, row = { deposit with retired := true } ∧
      .retired key deposit ∈ past ∧ .wallet deposit.mint (.removed deposit.quote) ∈ past
  | .rooted key record => ∃ invoice nonce, out.Signed X.l402.toCrates invoice ∧
      key = digest X.sha256 (L402.identifier invoice.paymentHash nonce) ∧
      L402.validBefore invoice = some record.2
  | _ => True

variable {X : Service.Crates κ} {out : Outside} {past past' : List (Happening κ)}

theorem Justified.mono {e : Happening κ} (h : Justified X out past e) (hs : past ⊆ past') :
    Justified X out past' e := by
  cases e with
  | wallet mint note =>
    cases note with
    | asked => exact hs h
    | removing id =>
      rcases h with ⟨key, deposit, hretired, hterms⟩ | ⟨quote, hunpaid, hid⟩
      · exact .inl ⟨key, deposit, hs hretired, hterms⟩
      · exact .inr ⟨quote, hunpaid.mono hs, hid⟩
    | _ => trivial
  | remembered mint => exact h
  | inserted key deposit =>
    obtain ⟨quote, invoice, network, ha⟩ := h
    exact ⟨quote, invoice, network, ha.mono hs⟩
  | retired key deposit => exact ⟨hs h.1, h.2.mono hs⟩
  | dropped key row =>
    obtain ⟨deposit, hrow, hretired, hremoved⟩ := h
    exact ⟨deposit, hrow, hs hretired, hs hremoved⟩
  | rooted key record => exact h
  | _ => trivial

/-- The entry that an operation of the settlement database makes. -/
def LightningOp.entry : LightningOp κ → Option (Happening κ)
  | .insertMint mint => some (.remembered mint)
  | .insertQuote key deposit => some (.inserted key deposit)
  | .insertRoot key record => some (.rooted key record)
  | .retireQuote key deposit => some (.retired key deposit)
  | .removeQuote key deposit => some (.dropped key deposit)
  | _ => none

/-- The first entry that an operation of a wallet makes. -/
def WalletOp.entry (mint : String) : WalletOp → Option (Happening κ)
  | .cdk (.mintQuote _) => some (.wallet mint .asked)
  | .cdk (.removeMintQuote id) => some (.wallet mint (.removing id))
  | _ => none

def BaseOp.entry : BaseOp κ → Option (Happening κ)
  | .lightning o => o.entry
  | .wallet mint o => WalletOp.entry mint o
  | .lockDirectory _ => none

/-- The entry of an operation is justified. -/
def BaseOp.Allowed (X : Service.Crates κ) (out : Outside) (past : List (Happening κ))
    (o : BaseOp κ) : Prop := ∀ e, o.entry = some e → Justified X out past e

theorem BaseOp.Allowed.mono {o : BaseOp κ} (h : o.Allowed X out past) (hs : past ⊆ past') :
    o.Allowed X out past' := fun e he => (h e he).mono hs

end

/-! ### The invariant -/

section

variable {κ : Type}

/-- The history and the clock only go on. -/
structure Later (s s' : System κ) : Prop where
  history : s.history <:+ s'.history
  clock : s.clock ≤ s'.clock

/-- The tables and the wallets agree with a justified history. -/
structure Recorded (X : Service.Crates κ) (out : Outside) (s : System κ) : Prop where
  justified : Chronicle (Justified X out) s.history
  /-- a consumed key is remembered until its retention ends -/
  spent : ∀ i k r, .claimed i k r ∈ s.history → s.store.spent.lookup k = some r ∨ r ≤ s.clock
  /-- and consumed once for that retention -/
  once : ∀ i j k r, .claimed i k r ∈ s.history → .claimed j k r ∈ s.history → i = j
  roots : ∀ k record, s.store.roots.lookup k = some record → .rooted k record ∈ s.history
  quotes : ∀ k d, s.store.quotes.lookup k = some d → .inserted k d ∈ s.history ∧ d.retired = false ∨
    ∃ d', .retired k d' ∈ s.history ∧ d = { d' with retired := true }
  mints : ∀ m, (s.store.mints.lookup m).isSome = true ↔ .remembered m ∈ s.history
  /-- completed transactions that were listed are still there -/
  listed : ∀ m txs, .wallet m (.listed txs) ∈ s.history → ∀ t ∈ txs, t.direction = .incoming ∧
    (t.status = .completed → t ∈ (s.wallets m).cdk.transactions)
  /-- quotes are stored under their ids -/
  keyed : ∀ m id q, (s.wallets m).cdk.quotes.lookup id = some q → q.id = id
  detached : ∀ o ∈ s.detached, BaseOp.Allowed X out s.history (.lightning o)

theorem Later.refl (s : System κ) : Later s s := ⟨List.suffix_refl _, Nat.le_refl _⟩

theorem Later.trans {s₁ s₂ s₃ : System κ} (h : Later s₁ s₂) (h' : Later s₂ s₃) : Later s₁ s₃ :=
  ⟨h.history.trans h'.history, h.clock.trans h'.clock⟩

theorem Later.mem {s s' : System κ} (h : Later s s') {e : Happening κ} (he : e ∈ s.history) :
    e ∈ s'.history := h.history.subset he

variable {X : Service.Crates κ} {out : Outside} {call : ℕ} {s s' : System κ}

/-- Only the tables, the clock, the history, CDK's stores and what is left behind matter. -/
theorem Recorded.of_eq (h : Recorded X out s) (hhistory : s'.history = s.history)
    (hstore : s'.store = s.store) (hclock : s.clock ≤ s'.clock)
    (hcdk : ∀ m, (s'.wallets m).cdk = (s.wallets m).cdk)
    (hdetached : ∀ o ∈ s'.detached, o ∈ s.detached) : Recorded X out s' ∧ Later s s' := by
  refine ⟨⟨?_, ?_, ?_, ?_, ?_, ?_, ?_, ?_, ?_⟩, ⟨by rw [hhistory], hclock⟩⟩
  · rw [hhistory]
    exact h.justified
  · rw [hhistory, hstore]
    exact fun i k r hk => (h.spent i k r hk).imp_right (fun hr => hr.trans hclock)
  · rw [hhistory]
    exact h.once
  · rw [hhistory, hstore]
    exact h.roots
  · rw [hhistory, hstore]
    exact h.quotes
  · rw [hhistory, hstore]
    exact h.mints
  · simp only [hhistory, hcdk]
    exact h.listed
  · simp only [hcdk]
    exact h.keyed
  · rw [hhistory]
    exact fun o ho => h.detached o (hdetached o ho)

/-- At the start there is nothing to agree with. -/
theorem Recorded.start (time : ℕ) : Recorded X out { clock := time } :=
  ⟨trivial, by simp, by simp, by simp, by simp, by simp, by simp, by simp, by simp⟩

/-- Two steps. -/
theorem Later.andThen {s₁ : System κ} (hs : Later s s₁) (h : Recorded X out s' ∧ Later s₁ s') :
    Recorded X out s' ∧ Later s s' := ⟨h.1, hs.trans h.2⟩

/-- A write transaction that makes the given entries. -/
theorem Recorded.write (h : Recorded X out s) (store : Store κ) (entries : List (Happening κ))
    (hjustified : Chronicle (Justified X out) (entries ++ s.history))
    (hclaimed : ∀ i k r, .claimed i k r ∉ entries)
    (hlisted : ∀ m txs, .wallet m (.listed txs) ∉ entries)
    (hspent : ∀ k r, s.store.spent.lookup k = some r →
      store.spent.lookup k = some r ∨ r ≤ s.clock)
    (hroots : ∀ k record, store.roots.lookup k = some record →
      s.store.roots.lookup k = some record ∨ .rooted k record ∈ entries)
    (hquotes : ∀ k d, store.quotes.lookup k = some d → s.store.quotes.lookup k = some d ∨
      .inserted k d ∈ entries ∧ d.retired = false ∨
      ∃ d', .retired k d' ∈ entries ∧ d = { d' with retired := true })
    (hmints : ∀ m, (store.mints.lookup m).isSome = true ↔
      (s.store.mints.lookup m).isSome = true ∨ .remembered m ∈ entries) :
    Recorded X out { s with store := store, history := entries ++ s.history } ∧
      Later s { s with store := store, history := entries ++ s.history } := by
  have hmem : ∀ {e : Happening κ}, e ∈ s.history → e ∈ entries ++ s.history := fun he =>
    List.mem_append_right entries he
  have hold : ∀ {e : Happening κ}, e ∈ entries ++ s.history → e ∉ entries → e ∈ s.history :=
    fun he hne => (List.mem_append.mp he).resolve_left hne
  refine ⟨⟨hjustified, fun i k r hk => ?_, fun i j k r hi hj => ?_, fun k record hk => ?_,
    fun k d hk => ?_, fun m => ?_, fun m txs hm => ?_, h.keyed, fun o ho => ?_⟩,
    ⟨List.suffix_append _ _, Nat.le_refl _⟩⟩
  · rcases h.spent i k r (hold hk (hclaimed i k r)) with hrow | hr
    · exact hspent k r hrow
    · exact .inr hr
  · exact h.once i j k r (hold hi (hclaimed i k r)) (hold hj (hclaimed j k r))
  · rcases hroots k record hk with hrow | hnew
    · exact hmem (h.roots k record hrow)
    · exact List.mem_append_left _ hnew
  · rcases hquotes k d hk with hrow | ⟨hnew, hfresh⟩ | ⟨d', hnew, hd⟩
    · rcases h.quotes k d hrow with ⟨hins, hfresh⟩ | ⟨d', hret, hd⟩
      · exact .inl ⟨hmem hins, hfresh⟩
      · exact .inr ⟨d', hmem hret, hd⟩
    · exact .inl ⟨List.mem_append_left _ hnew, hfresh⟩
    · exact .inr ⟨d', List.mem_append_left _ hnew, hd⟩
  · rw [hmints m, List.mem_append, h.mints m, or_comm]
  · exact h.listed m txs (hold hm (hlisted m txs))
  · exact (h.detached o ho).mono (fun _ => hmem)

/-! ### Transactions -/

/-- Pruning forgets keys whose retention has ended. -/
theorem Recorded.prune (h : Recorded X out s) :
    Recorded X out { s with store := s.store.prune s.clock } ∧
      Later s { s with store := s.store.prune s.clock } := by
  refine h.write (s.store.prune s.clock) [] h.justified (fun _ _ _ => ?_)
    (fun _ _ => ?_) (fun k r hrow => ?_) (fun k record hrow => ?_) (fun k d hrow => .inl hrow)
    (fun m => ?_)
  · exact List.not_mem_nil
  · exact List.not_mem_nil
  · by_cases hr : s.clock < r
    · exact .inl (Store.lookup_spent_prune.mpr ⟨hrow, hr⟩)
    · exact .inr (Nat.le_of_not_lt hr)
  · exact .inl (Store.lookup_roots_prune.mp hrow).1
  · exact (or_iff_left List.not_mem_nil).symm

/-- A committed transaction makes its entry. -/
theorem Recorded.commit (h : Recorded X out s) {o : LightningOp κ}
    (ho : BaseOp.Allowed X out s.history (.lightning o)) :
    Recorded X out (s.commit o) ∧ Later s (s.commit o) := by
  cases o
  case database | prune => exact h.prune
  case insertMint mint =>
    refine h.write (s.store.insertMint mint) [.remembered mint]
      ⟨ho _ rfl, h.justified⟩ (by simp) (by simp) (fun _ _ hrow => .inl hrow)
      (fun _ _ hrow => .inl hrow) (fun _ _ hrow => .inl hrow) (fun m => ?_)
    show ((s.store.mints.insert mint true).lookup m).isSome = true ↔ _
    rw [Table.lookup_insert_eq]
    by_cases hm : m = mint
    · simp [hm]
    · simp [hm]
  case insertQuote key deposit =>
    simp only [System.commit]
    split
    · rename_i store hstore
      obtain ⟨-, rfl⟩ := Store.insertQuote_ok hstore
      obtain ⟨quote, invoice, network, ha⟩ := ho _ rfl
      refine h.write { s.store with quotes := s.store.quotes.insert key deposit }
        [.inserted key deposit] ⟨ho _ rfl, h.justified⟩ (by simp) (by simp)
        (fun _ _ hrow => .inl hrow) (fun _ _ hrow => .inl hrow) (fun k d hrow => ?_) (by simp)
      rw [Table.lookup_insert_eq] at hrow
      split at hrow
      · rename_i hk
        obtain rfl := Option.some.inj hrow
        exact .inr (.inl ⟨by simp [hk], ha.fresh⟩)
      · exact .inl hrow
    · exact ⟨h, .refl s⟩
  case insertRoot key record =>
    simp only [System.commit]
    split
    · rename_i store hstore
      obtain ⟨-, rfl⟩ := Store.insertRoot_ok hstore
      refine h.write { s.store with roots := s.store.roots.insert key record }
        [.rooted key record] ⟨ho _ rfl, h.justified⟩ (by simp) (by simp)
        (fun _ _ hrow => .inl hrow) (fun k r hrow => ?_) (fun _ _ hrow => .inl hrow) (by simp)
      rw [Table.lookup_insert_eq] at hrow
      split at hrow
      · rename_i hk
        obtain rfl := Option.some.inj hrow
        exact .inr (by simp [hk])
      · exact .inl hrow
    · exact ⟨h, .refl s⟩
  case claim key retainUntil =>
    simp only [System.commit]
    split
    · rename_i claimed store hstore
      obtain ⟨-, ⟨-, rfl, -⟩ | ⟨-, hfree, rfl⟩⟩ := Store.claim_ok_iff.mp hstore
      · exact ⟨h, .refl s⟩
      · refine h.write { s.store with spent := s.store.spent.insert key retainUntil }
          [] h.justified (by simp) (by simp) (fun k r hrow => ?_)
          (fun _ _ hrow => .inl hrow) (fun _ _ hrow => .inl hrow) (by simp)
        have hk : k ≠ key := by
          rintro rfl
          rw [hfree] at hrow
          exact absurd hrow (by simp)
        exact .inl (by rw [Table.lookup_insert_eq, if_neg hk]; exact hrow)
    · exact ⟨h, .refl s⟩
  case retireQuote key deposit =>
    refine h.write (s.store.retireQuote key deposit) [.retired key deposit]
      ⟨ho _ rfl, h.justified⟩ (by simp) (by simp) (fun _ _ hrow => .inl hrow)
      (fun _ _ hrow => .inl hrow) (fun k d hrow => ?_) (by simp [Store.retireQuote])
    have hrow : (s.store.quotes.insert key { deposit with retired := true }).lookup k = some d := hrow
    rw [Table.lookup_insert_eq] at hrow
    split at hrow
    · rename_i hk
      exact .inr (.inr ⟨deposit, by simp [hk], (Option.some.inj hrow).symm⟩)
    · exact .inl hrow
  case removeQuote key deposit =>
    refine h.write (s.store.removeQuote key) [.dropped key deposit]
      ⟨ho _ rfl, h.justified⟩ (by simp) (by simp) (fun _ _ hrow => .inl hrow)
      (fun _ _ hrow => .inl hrow) (fun k d hrow => ?_) (by simp [Store.removeQuote])
    have hrow : (s.store.quotes.erase key).lookup k = some d := hrow
    rw [Table.lookup_erase_eq] at hrow
    split at hrow
    · exact absurd hrow (by simp)
    · exact .inl hrow
  all_goals exact ⟨h, .refl s⟩

/-- A call consumes a replay key that nobody remembers. -/
theorem Recorded.claim (h : Recorded X out s) {key : String} {retainUntil : ℕ}
    (hfree : s.store.spent.lookup key = none) (hlive : s.clock < retainUntil) (call : ℕ) :
    Recorded X out { s with
      store := { s.store with spent := s.store.spent.insert key retainUntil }
      history := .claimed call key retainUntil :: s.history } := by
  have hold : ∀ {e : Happening κ}, e ∈ .claimed call key retainUntil :: s.history →
      (∀ i k r, e ≠ .claimed i k r) → e ∈ s.history := fun he hne =>
    (List.mem_cons.mp he).resolve_left (hne _ _ _)
  -- no earlier claim of this key has a retention that lies ahead
  have hpast : ∀ i r, .claimed i key r ∈ s.history → r ≤ s.clock := by
    intro i r hi
    rcases h.spent i key r hi with hrow | hr
    · rw [hfree] at hrow
      exact absurd hrow (by simp)
    · exact hr
  have hnew : ∀ i, .claimed i key retainUntil ∉ s.history := fun i hi =>
    absurd (hpast i retainUntil hi) (Nat.not_le_of_lt hlive)
  refine ⟨⟨trivial, h.justified⟩, fun i k r hk => ?_, fun i j k r hi hj => ?_, fun k record hk => ?_,
    fun k d hk => ?_, fun m => ?_, fun m txs hm => ?_, h.keyed, fun o ho => ?_⟩
  · rcases List.mem_cons.mp hk with heq | hk
    · obtain ⟨-, rfl, rfl⟩ := Happening.claimed.inj heq
      exact .inl (by rw [Table.lookup_insert_eq, if_pos rfl])
    · rcases h.spent i k r hk with hrow | hr
      · have hne : k ≠ key := by
          rintro rfl
          rw [hfree] at hrow
          exact absurd hrow (by simp)
        exact .inl (by rw [Table.lookup_insert_eq, if_neg hne]; exact hrow)
      · exact .inr hr
  · rcases List.mem_cons.mp hi with heqi | hi'
    · obtain ⟨rfl, rfl, rfl⟩ := Happening.claimed.inj heqi
      rcases List.mem_cons.mp hj with heqj | hj'
      · exact (Happening.claimed.inj heqj).1.symm
      · exact absurd hj' (hnew j)
    · rcases List.mem_cons.mp hj with heqj | hj'
      · obtain ⟨rfl, rfl, rfl⟩ := Happening.claimed.inj heqj
        exact absurd hi' (hnew i)
      · exact h.once i j k r hi' hj'
  · exact List.mem_cons_of_mem _ (h.roots k record hk)
  · rcases h.quotes k d hk with ⟨hins, hfresh⟩ | ⟨d', hret, hd⟩
    · exact .inl ⟨List.mem_cons_of_mem _ hins, hfresh⟩
    · exact .inr ⟨d', List.mem_cons_of_mem _ hret, hd⟩
  · rw [List.mem_cons, or_iff_right (by simp)]
    exact h.mints m
  · exact h.listed m txs (hold hm (by simp))
  · exact (h.detached o ho).mono (List.subset_cons_self _ _)

/-! ### Wallets -/

/-- A step of a wallet: completed transactions stay, quotes stay under their ids, and what was
listed is there. -/
structure Noted (w w' : Wallet) (notes : List Note) : Prop where
  completed : ∀ t ∈ w.cdk.transactions, t.status = .completed → t ∈ w'.cdk.transactions
  keyed : (∀ id q, w.cdk.quotes.lookup id = some q → q.id = id) →
    ∀ id q, w'.cdk.quotes.lookup id = some q → q.id = id
  listed : ∀ txs, .listed txs ∈ notes → ∀ t ∈ txs, t.direction = .incoming ∧
    t ∈ w'.cdk.transactions

theorem Noted.of_evolves {w w' : Wallet} {notes : List Note} (h : w.cdk.Evolves w'.cdk)
    (hlisted : ∀ txs, .listed txs ∈ notes → ∀ t ∈ txs, t.direction = .incoming ∧
      t ∈ w'.cdk.transactions) : Noted w w' notes := by
  refine ⟨h.completed, fun hkeyed id q hq => ?_, hlisted⟩
  obtain ⟨q₀, hq₀, hterms⟩ := h.quotes id q hq
  rw [← hkeyed id q₀ hq₀]
  exact (congrArg Prod.fst hterms).symm

theorem Noted.of_eq {w w' : Wallet} (h : w'.cdk = w.cdk) : Noted w w' [] := by
  refine .of_evolves ?_ (fun _ hmem => absurd hmem List.not_mem_nil)
  rw [h]
  exact .refl _

theorem Noted.quoted {w w' : Wallet} {quote : MintQuote}
    (h : (w.cdk.addQuote quote).Evolves w'.cdk) : Noted w w' [.quoted quote, .asked] := by
  refine ⟨h.completed, fun hkeyed id q hq => ?_, by simp⟩
  obtain ⟨q₀, hq₀, hterms⟩ := h.quotes id q hq
  have hid : q₀.id = id := by
    have hq₀ : (w.cdk.quotes.insert quote.id quote).lookup id = some q₀ := hq₀
    rw [Table.lookup_insert_eq] at hq₀
    split at hq₀
    · rename_i heq
      rw [← Option.some.inj hq₀, heq]
    · exact hkeyed id q₀ hq₀
  rw [← hid]
  exact (congrArg Prod.fst hterms).symm

/-- The notes of an operation start with its entry, if it makes one. -/
def NotesOf (X : Service.Crates κ) (out : Outside) (mint : String) (o : WalletOp)
    (notes : List Note) : Prop :=
  ∀ past : List (Happening κ), (∀ e, WalletOp.entry mint o = some e → Justified X out past e) →
    Chronicle (Justified X out) past →
    Chronicle (Justified X out) (notes.map (.wallet mint) ++ past)

variable {w w' : Wallet} {makes : MintQuote → Prop} {time : ℕ} {serving : Bool} {notes : List Note}
  {mint : String}

theorem noted_interrupt {o : CdkOp} (h : w.interrupt makes o w' notes) :
    Noted w w' notes ∧ NotesOf X out mint (.cdk o) notes := by
  obtain ⟨c', rfl, ⟨he, rfl | ⟨⟨amount, rfl⟩, rfl⟩⟩ | ⟨amount, quote, rfl, -, he, rfl⟩⟩ :=
    Wallet.interrupt_cases h
  · refine ⟨.of_evolves he (fun txs hmem => ?_), fun past hentry hpast => ?_⟩
    · cases o <;> simp [CdkOp.begun] at hmem
    · cases o
      case removeMintQuote id => exact ⟨hentry _ rfl, hpast⟩
      all_goals exact hpast
  · exact ⟨.of_evolves he (by simp), fun past hentry hpast => ⟨hentry _ rfl, hpast⟩⟩
  · exact ⟨.quoted he, fun past hentry hpast => ⟨trivial, hentry _ rfl, hpast⟩⟩

theorem noted_exec {o : WalletOp} {r : WalletSig.Res o}
    (h : w.exec makes call time serving o r w' notes) :
    Noted w w' notes ∧ NotesOf X out mint o notes := by
  cases o with
  | session o =>
    obtain ⟨hs, rfl⟩ := h
    exact ⟨.of_eq (Wallet.session_frame hs).2.1, fun _ _ hpast => hpast⟩
  | ledger o =>
    obtain ⟨ht, rfl⟩ := h
    refine ⟨.of_eq ?_, fun _ _ hpast => hpast⟩
    rcases Wallet.transact_cases ht with rfl | rfl | ⟨id, -, -, rfl⟩
    · rfl
    · exact Wallet.commit_cdk _ _
    · exact Wallet.commit_cdk _ _
  | cdk o =>
    cases r with
    | error e => exact noted_interrupt h
    | ok r =>
      obtain ⟨c', ⟨rfl, he, ha, rfl⟩ | ⟨amount, quote, heq, rfl, -, he, rfl⟩⟩ :=
        Wallet.exec_cdk_cases h
      · refine ⟨.of_evolves he (fun txs hmem t ht => ?_), fun past hentry hpast => ?_⟩
        · cases o
          case listTransactions =>
            obtain rfl : txs = r := by simpa [CdkOp.notes] using hmem
            obtain rfl : txs = _ := ha
            obtain ⟨ht, hdir⟩ := List.mem_filter.mp ht
            exact ⟨of_decide_eq_true hdir, ht⟩
          case getMintQuote id => cases r <;> simp [CdkOp.notes] at hmem
          case getMintQuoteStatus id => cases r <;> simp [CdkOp.notes] at hmem
          all_goals simp [CdkOp.notes] at hmem
        · cases o
          case removeMintQuote id => exact ⟨trivial, hentry _ rfl, hpast⟩
          case listTransactions => exact ⟨trivial, hpast⟩
          case checkMintQuoteStatus id => exact ⟨trivial, hpast⟩
          case getMintQuote id =>
            cases r with
            | none => exact hpast
            | some quote => exact ⟨trivial, hpast⟩
          case getMintQuoteStatus id =>
            cases r with
            | bolt11 response => exact ⟨trivial, hpast⟩
            | other => exact hpast
          all_goals exact hpast
      · obtain ⟨rfl, heq⟩ := Sigma.mk.inj heq
        obtain rfl := eq_of_heq heq
        exact ⟨.quoted he, fun past hentry hpast => ⟨trivial, hentry _ rfl, hpast⟩⟩

theorem noted_cut {o : WalletOp} (h : w.cut makes o w' notes) :
    Noted w w' notes ∧ NotesOf X out mint o notes := by
  cases o with
  | session o =>
    obtain ⟨rfl, rfl⟩ := h
    exact ⟨.of_eq rfl, fun _ _ hpast => hpast⟩
  | ledger o =>
    have hw : w'.cdk = w.cdk ∧ notes = [] := by
      cases o
      case savePayout state =>
        obtain ⟨rfl | rfl, rfl⟩ := h <;> exact ⟨rfl, rfl⟩
      all_goals
        obtain ⟨rfl | rfl | rfl, rfl⟩ := h <;> exact ⟨rfl, rfl⟩
    obtain ⟨hcdk, rfl⟩ := hw
    exact ⟨.of_eq hcdk, fun _ _ hpast => hpast⟩
  | cdk o => exact noted_interrupt h

/-- A wallet moves on, and its notes are made. -/
theorem Recorded.setWallet (h : Recorded X out s) {o : WalletOp}
    (ho : BaseOp.Allowed X out s.history (.wallet mint o))
    (hw : Noted (s.wallets mint) w notes ∧ NotesOf X out mint o notes) :
    Recorded X out (s.setWallet mint w notes) ∧ Later s (s.setWallet mint w notes) := by
  obtain ⟨hnoted, hnotes⟩ := hw
  have hold : ∀ {e : Happening κ}, e ∈ notes.map (.wallet mint) ++ s.history →
      (∀ m note, e ≠ .wallet m note) → e ∈ s.history := fun he hne =>
    (List.mem_append.mp he).resolve_left (fun hmem => by
      obtain ⟨note, -, hnote⟩ := List.mem_map.mp hmem
      exact hne mint note hnote.symm)
  have hmem : ∀ {e : Happening κ}, e ∈ s.history → e ∈ notes.map (.wallet mint) ++ s.history :=
    fun he => List.mem_append_right _ he
  refine ⟨⟨hnotes s.history ho h.justified, fun i k r hk => h.spent i k r (hold hk (by simp)),
    fun i j k r hi hj => h.once i j k r (hold hi (by simp)) (hold hj (by simp)),
    fun k record hk => hmem (h.roots k record hk), fun k d hk => ?_, fun m => ?_,
    fun m txs hm t ht => ?_, fun m id q hq => ?_, fun o ho => (h.detached o ho).mono (fun _ => hmem)⟩,
    ⟨List.suffix_append _ _, Nat.le_refl _⟩⟩
  · rcases h.quotes k d hk with ⟨hins, hfresh⟩ | ⟨d', hret, hd⟩
    · exact .inl ⟨hmem hins, hfresh⟩
    · exact .inr ⟨d', hmem hret, hd⟩
  · rw [show (Happening.remembered m ∈ (s.setWallet mint w notes).history) ↔
      .remembered m ∈ s.history from ⟨fun he => hold he (by simp), hmem⟩]
    exact h.mints m
  · rcases List.mem_append.mp hm with hnew | hpast
    · obtain ⟨note, hnote, heq⟩ := List.mem_map.mp hnew
      obtain ⟨rfl, rfl⟩ := Happening.wallet.inj heq
      obtain ⟨hdir, ht⟩ := hnoted.listed txs hnote t ht
      refine ⟨hdir, fun _ => ?_⟩
      simp only [System.setWallet, update_self]
      exact ht
    · obtain ⟨hdir, hstays⟩ := h.listed m txs hpast t ht
      refine ⟨hdir, fun hc => ?_⟩
      by_cases hmm : m = mint
      · subst hmm
        simp only [System.setWallet, update_self]
        exact hnoted.completed t (hstays hc) hc
      · simp only [System.setWallet, update_of_ne hmm]
        exact hstays hc
  · by_cases hmm : m = mint
    · subst hmm
      simp only [System.setWallet, update_self] at hq
      exact hnoted.keyed (h.keyed m) id q hq
    · simp only [System.setWallet, update_of_ne hmm] at hq
      exact h.keyed m id q hq

/-! ### Every step -/

theorem Recorded.exec (h : Recorded X out s) {o : BaseOp κ} (ho : o.Allowed X out s.history)
    {r : (BaseSig κ).Res o} (he : (System.effects X.payments out).exec call s o r s') :
    Recorded X out s' ∧ Later s s' := by
  cases o with
  | wallet mint o =>
    obtain ⟨w, notes, hw, rfl⟩ := he
    exact h.setWallet ho (noted_exec hw)
  | lockDirectory mint =>
    cases r with
    | false =>
      obtain ⟨-, rfl⟩ := he
      exact ⟨h, .refl _⟩
    | true =>
      obtain ⟨-, rfl⟩ := he
      refine h.of_eq rfl rfl (Nat.le_refl _) (fun m => ?_) (fun _ ho => ho)
      by_cases hm : m = mint
      · subst hm
        simp only [update_self]
      · simp only [update_of_ne hm]
  | lightning o =>
    cases r with
    | none =>
      rcases he with rfl | rfl
      · exact ⟨h, .refl _⟩
      · exact h.commit ho
    | some r =>
      have hsame : ∀ {s'}, s' = s → Recorded X out s' ∧ Later s s' := by
        rintro s' rfl
        exact ⟨h, .refl _⟩
      cases o
      case database =>
        obtain rfl := (he : s' = _)
        split
        · exact ⟨h, .refl _⟩
        · obtain ⟨hrec, hlater⟩ := h.prune
          refine hlater.andThen ?_
          exact hrec.of_eq rfl rfl (Nat.le_refl _) (fun _ => rfl) (fun _ ho => ho)
      case claim key retainUntil =>
        obtain ⟨store, hstore, rfl⟩ := he
        obtain ⟨hlive, ⟨rfl, rfl, -⟩ | ⟨rfl, hfree, rfl⟩⟩ := Store.claim_ok_iff.mp hstore
        · exact ⟨h, .refl _⟩
        · exact ⟨h.claim hfree hlive call, ⟨List.suffix_cons _ _, Nat.le_refl _⟩⟩
      case requestInvoice node amount hash =>
        obtain ⟨-, rfl⟩ := he
        exact h.write s.store [.invoiced r] ⟨trivial, h.justified⟩ (by simp) (by simp)
          (fun _ _ hrow => .inl hrow) (fun _ _ hrow => .inl hrow) (fun _ _ hrow => .inl hrow) (by simp)
      case tryCursor =>
        obtain ⟨-, -, -, rfl⟩ := he
        exact h.of_eq rfl rfl (Nat.le_refl _) (fun _ => rfl) (fun _ ho => ho)
      case setCursor key =>
        obtain rfl := (he : s' = _)
        exact h.of_eq rfl rfl (Nat.le_refl _) (fun _ => rfl) (fun _ ho => ho)
      case insertQuote => obtain ⟨-, rfl⟩ := he; exact h.commit ho
      case insertRoot => obtain ⟨-, rfl⟩ := he; exact h.commit ho
      case insertMint => obtain rfl := (he : s' = _); exact h.commit ho
      case retireQuote => obtain rfl := (he : s' = _); exact h.commit ho
      case removeQuote => obtain rfl := (he : s' = _); exact h.commit ho
      case prune => obtain rfl := (he : s' = _); exact h.commit ho
      all_goals
        first
          | exact hsame he
          | exact hsame he.2

theorem Recorded.cut (h : Recorded X out s) {o : BaseOp κ} (ho : o.Allowed X out s.history)
    (hc : (System.effects X.payments out).cut call s o s') : Recorded X out s' ∧ Later s s' := by
  cases o with
  | wallet mint o =>
    obtain ⟨w, notes, hw, rfl⟩ := hc
    exact h.setWallet ho (noted_cut hw)
  | lockDirectory mint =>
    obtain rfl : s' = s := hc
    exact ⟨h, .refl _⟩
  | lightning o =>
    rcases hc with rfl | rfl | rfl
    · exact ⟨h, .refl _⟩
    · exact h.commit ho
    · refine ⟨{ h with detached := fun o' ho' => ?_ }, ⟨List.suffix_refl _, Nat.le_refl _⟩⟩
      rcases List.mem_cons.mp ho' with rfl | ho'
      · exact ho
      · exact h.detached o' ho'

theorem Recorded.leave (h : Recorded X out s) (call : ℕ) :
    Recorded X out (s.leave call) ∧ Later s (s.leave call) := by
  refine h.of_eq rfl rfl (Nat.le_refl _) (fun m => ?_) (fun _ ho => ho)
  show ((s.wallets m).unlock call).cdk = _
  unfold Wallet.unlock
  split <;> rfl

theorem Recorded.exit (h : Recorded X out s) : Recorded X out s.exit ∧ Later s s.exit :=
  h.of_eq rfl rfl (Nat.le_refl _) (fun _ => rfl) (fun _ ho => absurd ho List.not_mem_nil)

theorem Recorded.release (h : Recorded X out s) (call : ℕ) :
    Recorded X out (s.release call) ∧ Later s (s.release call) := by
  unfold System.release
  split
  · exact h.exit
  · obtain ⟨hrec, hlater⟩ := h.leave call
    refine hlater.andThen ?_
    exact hrec.of_eq rfl rfl (Nat.le_refl _) (fun _ => rfl) (fun _ ho => ho)

theorem Recorded.env [DecidableEq κ] (h : Recorded X out s) (he : System.Env s s') :
    Recorded X out s' ∧ Later s s' := by
  cases he with
  | tick hle => exact h.of_eq rfl rfl hle (fun _ => rfl) (fun _ ho => ho)
  | @transaction o ho =>
    obtain ⟨hrec, hlater⟩ := h.commit (h.detached o ho)
    refine hlater.andThen (hrec.of_eq rfl rfl (Nat.le_refl _) (fun _ => rfl) (fun o' ho' => ?_))
    rw [System.commit_detached]
    exact List.mem_of_mem_erase ho'
  | @ledger mint w hs =>
    obtain ⟨o, ho, rfl⟩ := hs
    refine h.setWallet (o := .session .now) (fun e he => nomatch he)
      ⟨.of_eq ?_, fun _ _ hpast => hpast⟩
    exact Wallet.commit_cdk _ o
  | serve hd => exact h.of_eq rfl rfl (Nat.le_refl _) (fun _ => rfl) (fun _ ho => ho)

/-! ### The logic -/

variable {J : System κ → Prop}

/-- An operation is allowed when its entry is justified.  Operations start in states that are known
to satisfy `J`. -/
def recordLogic (X : Service.Crates κ) (out : Outside) (J : System κ → Prop) :
    Logic (BaseSig κ) (System κ) where
  exec i s o r s' := (System.effects X.payments out).exec i s o r s' ∧ J s
  Inv := Recorded X out
  Rely _ := Later
  Needs _ o s := BaseOp.Allowed X out s.history o

/-- The same for programs with timers. -/
abbrev recordTimers (X : Service.Crates κ) (out : Outside) (J : System κ → Prop) :
    Logic (ServiceSig κ) (System κ) :=
  (recordLogic X out J).timers (System.effects X.payments out).cut System.leave

/-- The same as the programs of one wallet see it. -/
abbrev recordWallet (X : Service.Crates κ) (out : Outside) (J : System κ → Prop) (mint : String) :
    Logic WalletSig (System κ) := (recordLogic X out J).along (onWallet κ mint)

theorem recordTimers_needs {i : ℕ} {o : (ServiceSig κ).Op} :
    (recordTimers X out J).Needs i o s ↔ BaseOp.Allowed X out s.history o.base := by
  cases o <;> rfl

theorem exec_recorded (h : Recorded X out s) {o : (ServiceSig κ).Op}
    (ho : BaseOp.Allowed X out s.history o.base) {r : (ServiceSig κ).Res o}
    (he : ((System.effects X.payments out).timers System.leave).exec call s o r s') :
    Recorded X out s' ∧ Later s s' := by
  cases o with
  | plain o => exact Recorded.exec h ho he
  | timed o =>
    cases r with
    | some r => exact Recorded.exec (r := r) h ho he
    | none =>
      obtain ⟨s₁, hc, rfl⟩ := he
      obtain ⟨hrec, hlater⟩ := h.cut ho hc
      exact hlater.andThen (hrec.leave call)

theorem recordTimers_lasting (X : Service.Crates κ) (out : Outside) (J : System κ → Prop) :
    (recordTimers X out J).Lasting where
  refl _ := Later.refl
  trans _ _ _ _ := Later.trans
  own call s o r s' h hn he _ := by
    have he' : ((System.effects X.payments out).timers System.leave).exec call s o r s' := by
      cases o with
      | plain o => exact he.1
      | timed o =>
        cases r with
        | some r => exact he.1
        | none => exact he
    exact (exec_recorded h (recordTimers_needs.mp hn) he').2

theorem recordWallet_lasting (X : Service.Crates κ) (out : Outside) (J : System κ → Prop)
    (mint : String) : (recordWallet X out J mint).Lasting :=
  (recordTimers_lasting X out J).ofTimers.along _

/-- A wallet operation of the service is one of its wallet. -/
theorem recordWallet_exec {o : WalletOp} {r : WalletSig.Res o}
    (h : (recordWallet X out J mint).exec call s o r s') :
    ∃ w notes, (s.wallets mint).exec (out.quotes mint) call s.clock (s.directory = some .server)
      o r w notes ∧ s' = s.setWallet mint w notes := by
  obtain ⟨r', rfl, h, -⟩ := h
  exact h

end

end Geata.Service
