import Geata.Lib.Concurrent
import Geata.Lib.Word
import Geata.Payments.Ledger
import Geata.Payments.Policy

namespace Geata.Payments

open Geata.Lib

/-!
# One mint's wallet

The state behind one mint: the CDK wallet and its store, the ledger, the in-memory record that a
process keeps while it runs, and the lock that serialises its users.  The programs of `mod.rs`,
`minting.rs` and `payout.rs` are written over `WalletSig`; what an operation does to the wallet
is `Wallet.exec`, and what is left of it when its future is dropped is `Wallet.cut`.

* `Cdk.Evolves` — what is assumed of every CDK call: completed transactions stay, and a stored
  mint quote keeps its terms.  Which quotes are still stored, and everything else, is up to CDK.
* A ledger transaction runs on a blocking thread.  When its caller is dropped it may have been
  committed or not, or it is still to come (`Wallet.detached`); a payout save is committed before
  the next operation starts or never.
* `Note` — what a proof about deposits has to remember of a wallet's past.
-/

/-! ### What CDK stores -/

inductive CurrencyUnit where
  | sat
  | other (name : String)
  deriving DecidableEq

inductive TransactionDirection where
  | incoming
  | outgoing
  deriving DecidableEq

inductive TransactionStatus where
  | completed
  | other
  deriving DecidableEq

structure Transaction where
  direction : TransactionDirection
  status : TransactionStatus
  amount : ℕ
  unit : CurrencyUnit
  memo : Option String
  quoteId : Option String
  paymentRequest : Option String
  deriving DecidableEq

inductive MintQuoteState where
  | unpaid
  | paid
  | issued
  deriving DecidableEq

inductive PaymentMethod where
  | bolt11
  | other (name : String)
  deriving DecidableEq

/-- A mint quote as the wallet stores it. -/
structure MintQuote where
  id : String
  request : String
  amount : Option ℕ
  unit : CurrencyUnit
  state : MintQuoteState
  amountPaid : ℕ
  amountIssued : ℕ
  usedByOperation : Option String
  paymentMethod : PaymentMethod
  expiry : ℕ
  updatedAt : ℕ
  deriving DecidableEq

/-- The terms of a quote, which no later update changes. -/
def MintQuote.terms (q : MintQuote) : String × String × Option ℕ × CurrencyUnit :=
  (q.id, q.request, q.amount, q.unit)

/-- A mint's answer about a BOLT11 quote. -/
structure MintQuoteBolt11Response where
  quote : String
  request : String
  amount : Option ℕ
  unit : Option CurrencyUnit
  method : PaymentMethod
  state : MintQuoteState
  amountPaid : ℕ
  amountIssued : ℕ
  updatedAt : ℕ
  expiry : Option ℕ
  deriving DecidableEq

inductive MintQuoteResponse where
  | bolt11 (response : MintQuoteBolt11Response)
  | other
  deriving DecidableEq

/-- An operation ID: a 128-bit number. -/
abbrev OperationId := BitVec 128

/-- The CDK store of one wallet: its transactions, its mint quotes by id, and the operations
    whose saga is not finished. -/
structure Cdk where
  transactions : List Transaction := []
  quotes : Table MintQuote := ∅
  sagas : List OperationId := []

/-- What every CDK call keeps. -/
structure Cdk.Evolves (c c' : Cdk) : Prop where
  completed : ∀ t ∈ c.transactions, t.status = .completed → t ∈ c'.transactions
  quotes : ∀ id q', c'.quotes.lookup id = some q' →
    ∃ q, c.quotes.lookup id = some q ∧ q.terms = q'.terms

theorem Cdk.Evolves.refl (c : Cdk) : c.Evolves c := ⟨fun _ h _ => h, fun _ q h => ⟨q, h, rfl⟩⟩

theorem Cdk.Evolves.of_empty {c : Cdk} (h : c.quotes = ∅) : Cdk.Evolves {} c :=
  ⟨fun _ ht => absurd ht List.not_mem_nil, fun _ _ hq => absurd hq (by simp [h])⟩

/-! ### Tokens and payment requests -/

structure Proof where
  amount : ℕ
  secret : String
  keyset : String
  deriving DecidableEq

/-- A decoded token, with the answers of its accessors; `none` is their error. -/
structure Token where
  unit : Option CurrencyUnit
  mintUrl : Option String
  value : Option ℕ
  /-- The spending conditions, one text for each. -/
  spendingConditions : Option (List String)
  secrets : List String
  deriving DecidableEq

inductive TransportType where
  | nostr
  | httpPost
  | other (name : String)
  deriving DecidableEq

structure Transport where
  type : TransportType
  target : String
  deriving DecidableEq

structure PaymentRequest where
  amount : Option UInt64
  unit : Option CurrencyUnit
  singleUse : Option Bool
  mints : List String
  mintPreferred : Option Bool
  supportedMethods : List String
  transports : List Transport
  deriving DecidableEq

/-- The errors of CDK that `classify_error` tells apart. -/
inductive CdkError where
  | tokenAlreadySpent
  | couldNotVerifyDleq
  | dleqProofNotProvided
  | amountKey
  | other
  deriving DecidableEq

structure RecoveryReport where
  failed : ℕ
  skipped : ℕ
  deriving DecidableEq

/-- A prepared payout. -/
structure PreparedPayRequest where
  operationId : OperationId
  totalAmount : ℕ
  deriving DecidableEq

/-! ### Operations -/

/-- The lock, the in-memory record and the clock. -/
inductive SessionOp where
  | tryLock
  | unlock
  /-- `MintWallet::open`, unless the wallet is open already -/
  | open
  | needsRecovery
  | setNeedsRecovery (value : Bool)
  | depositCursor
  | setDepositCursor (id : String)
  | now
  /-- the call of `confirm`, before it is awaited -/
  | confirming (send : PreparedPayRequest)
  deriving DecidableEq

abbrev SessionOp.Res : SessionOp → Type
  | .tryLock | .open | .needsRecovery => Bool
  | .unlock | .setNeedsRecovery _ | .setDepositCursor _ | .confirming _ => Unit
  | .depositCursor => Option String
  | .now => ℕ

/-- The transactions of the ledger. -/
inductive LedgerOp where
  | reserve (id site : String) (price : UInt32)
  | claim (id : String)
  | payout
  | savePayout (state : PayoutState)
  deriving DecidableEq

abbrev LedgerOp.Answer : LedgerOp → Type
  | .reserve _ _ _ => Reservation
  | .claim _ => Bool
  | .payout => Option PayoutState
  | .savePayout _ => Unit

/-- The calls of the CDK wallet, its local store and its mint connector. -/
inductive CdkOp where
  | recoverIncompleteSagas
  | verifyTokenDleq (token : Token)
  | getMintKeysets
  | getProofsFee (proofs : List Proof)
  | receiveProofs (proofs : List Proof) (memo token : String)
  /-- restricted to incoming transactions -/
  | listTransactions
  | getMintQuotes
  | getMintQuote (id : String)
  | mintQuote (amount : ℕ)
  | checkMintQuoteStatus (id : String)
  | getMintQuoteStatus (id : String)
  | mint (id : String)
  | removeMintQuote (id : String)
  | getUnissuedMintQuotes
  | totalBalance
  | preparePayRequest (request : PaymentRequest) (amount : ℕ)
  | cancel (operation : OperationId)
  | confirm (operation : OperationId)
  | revokeSend (operation : OperationId)
  /-- whether a saga is stored -/
  | getSaga (operation : OperationId)
  | getPendingSends
  deriving DecidableEq

abbrev CdkOp.Answer : CdkOp → Type
  | .recoverIncompleteSagas => RecoveryReport
  | .getMintKeysets => Option (List String)
  | .getProofsFee _ | .receiveProofs _ _ _ | .totalBalance => ℕ
  | .listTransactions => List Transaction
  | .getMintQuotes | .getUnissuedMintQuotes => List MintQuote
  | .getMintQuote _ => Option MintQuote
  | .mintQuote _ | .checkMintQuoteStatus _ => MintQuote
  | .getMintQuoteStatus _ => MintQuoteResponse
  | .preparePayRequest _ _ => PreparedPayRequest
  | .getSaga _ => Bool
  | .getPendingSends => List OperationId
  | .verifyTokenDleq _ | .mint _ | .removeMintQuote _ | .cancel _ | .confirm _ | .revokeSend _ =>
    Unit

inductive WalletOp where
  | session (o : SessionOp)
  | ledger (o : LedgerOp)
  | cdk (o : CdkOp)
  deriving DecidableEq

/-- A ledger transaction can fail, a CDK call can fail with an error. -/
abbrev WalletSig : Sig where
  Op := WalletOp
  Res
    | .session o => o.Res
    | .ledger o => Option o.Answer
    | .cdk o => Except CdkError o.Answer

/-! ### The state and what happens to it -/

/-- What a process keeps of an open wallet. -/
structure Memory where
  needsRecovery : Bool := true
  depositCursor : Option String := none
  deriving DecidableEq

structure Wallet where
  cdk : Cdk := {}
  ledger : Ledger := {}
  memory : Option Memory := none
  /-- who holds the lock -/
  lock : Option ℕ := none
  /-- ledger transactions whose caller is gone and which have not run yet -/
  detached : List LedgerOp := []
  /-- which call each admission of a token went to -/
  admitted : Table ℕ := ∅
  /-- the sends on which `confirm` was called and whose outcome is not known -/
  unresolved : List OperationId := []

/-- What is remembered of a wallet's deposits. -/
inductive Note where
  /-- `mint_quote` was called -/
  | asked
  /-- the mint made a quote -/
  | quoted (quote : MintQuote)
  /-- a stored quote was read -/
  | read (quote : MintQuote)
  /-- the incoming transactions were listed -/
  | listed (transactions : List Transaction)
  /-- the mint answered about a quote, at a local time -/
  | status (response : MintQuoteBolt11Response) (time : ℕ)
  /-- `remove_mint_quote` was called -/
  | removing (id : String)
  /-- and succeeded -/
  | removed (id : String)
  deriving DecidableEq

/-- What a completed CDK call says about the store it leaves. -/
def Cdk.answers (c : Cdk) : (o : CdkOp) → o.Answer → Prop
  | .receiveProofs _ memo _, amount => ∃ t ∈ c.transactions, t.direction = .incoming ∧
      t.status = .completed ∧ t.memo = some memo ∧ t.amount = amount
  | .listTransactions, txs => txs = c.transactions.filter (fun t => t.direction = .incoming)
  | .getMintQuotes, quotes => quotes = c.quotes.rows.map Prod.snd
  | .getUnissuedMintQuotes, quotes => ∃ p : MintQuote → Bool,
      quotes = (c.quotes.rows.map Prod.snd).filter p
  | .getMintQuote id, quote => quote = c.quotes.lookup id
  | .checkMintQuoteStatus id, quote => c.quotes.lookup id = some quote
  | .removeMintQuote id, () => c.quotes.lookup id = none
  | .getSaga operation, found => found = decide (operation ∈ c.sagas)
  | _, _ => True

/-- What is noted of a completed CDK call. -/
def CdkOp.notes (time : ℕ) : (o : CdkOp) → o.Answer → List Note
  | .listTransactions, txs => [.listed txs]
  | .getMintQuote _, some quote => [.read quote]
  | .checkMintQuoteStatus _, quote => [.read quote]
  | .getMintQuoteStatus _, .bolt11 response => [.status response time]
  | .removeMintQuote id, () => [.removed id, .removing id]
  | _, _ => []

/-- What is noted of a CDK call that failed or was dropped. -/
def CdkOp.begun : CdkOp → List Note
  | .removeMintQuote id => [.removing id]
  | _ => []

/-- The sends left unresolved by a completed CDK call: `confirm` returning, or a saga that is
    gone, resolves its own. -/
def CdkOp.resolve (unresolved : List OperationId) :
    (o : CdkOp) → o.Answer → List OperationId
  | .confirm operation, () => unresolved.filter (· ≠ operation)
  | .getSaga operation, false => unresolved.filter (· ≠ operation)
  | _, _ => unresolved

/-- A mint made a quote and CDK stored it. -/
def Cdk.addQuote (c : Cdk) (quote : MintQuote) : Cdk :=
  { c with quotes := c.quotes.insert quote.id quote }

namespace Wallet

/-- The effect of a ledger transaction. -/
def commit (w : Wallet) : LedgerOp → Wallet
  | .reserve id site price => { w with ledger := (w.ledger.reserve id site price).2 }
  | .claim id => { w with ledger := (w.ledger.claim id).2 }
  | .payout => w
  | .savePayout state => { w with ledger := { w.ledger with payout := some state } }

/-- Give the lock back. -/
def unlock (w : Wallet) (call : ℕ) : Wallet :=
  if w.lock = some call then { w with lock := none } else w

/-- A session operation.  `serving` says whether the process is the server; only its calls use
    the lock. -/
def session (w : Wallet) (call time : ℕ) (serving : Bool) :
    (o : SessionOp) → o.Res → Wallet → Prop
  | .tryLock, locked, w' =>
      locked = true ∧ serving = true ∧ w.lock = none ∧ w' = { w with lock := some call } ∨
        locked = false ∧ (serving = false ∨ w.lock ≠ none) ∧ w' = w
  | .unlock, (), w' => w' = w.unlock call
  | .open, opened, w' =>
      opened = true ∧ w' = { w with memory := some (w.memory.getD {}) } ∨
        opened = false ∧ w.memory = none ∧ w' = w
  | .needsRecovery, value, w' => w' = w ∧ value = (w.memory.getD {}).needsRecovery
  | .setNeedsRecovery value, (), w' =>
      w' = { w with memory := w.memory.map (fun m => { m with needsRecovery := value }) }
  | .depositCursor, cursor, w' => w' = w ∧ cursor = (w.memory.getD {}).depositCursor
  | .setDepositCursor id, (), w' =>
      w' = { w with memory := w.memory.map (fun m => { m with depositCursor := some id }) }
  | .now, value, w' => w' = w ∧ value = time
  | .confirming send, (), w' => w' = { w with unresolved := send.operationId :: w.unresolved }

/-- A ledger transaction: it answers and is committed, or it fails, committed or not. -/
def transact (w : Wallet) (call : ℕ) : (o : LedgerOp) → Option o.Answer → Wallet → Prop
  | .reserve id site price, some r, w' =>
      r = (w.ledger.reserve id site price).1 ∧ w' = w.commit (.reserve id site price)
  | .claim id, some claimed, w' => claimed = (w.ledger.claim id).1 ∧
      w' = { w.commit (.claim id) with
        admitted := cond claimed (w.admitted.insert id call) w.admitted }
  | .payout, some state, w' => state = w.ledger.payout ∧ w' = w
  | .savePayout state, some (), w' => w' = w.commit (.savePayout state)
  | o, none, w' => w' = w ∨ w' = w.commit o

/-- A CDK call that does not complete: whatever CDK left in its store, and perhaps a quote the
    mint made.  `makes` says which quotes the mint makes. -/
def interrupt (w : Wallet) (makes : MintQuote → Prop) (o : CdkOp) (w' : Wallet)
    (notes : List Note) : Prop :=
  ∃ c', w' = { w with cdk := c' } ∧
    match o with
    | .mintQuote _ => w.cdk.Evolves c' ∧ notes = [.asked] ∨
        ∃ quote, makes quote ∧ (w.cdk.addQuote quote).Evolves c' ∧ notes = [.quoted quote, .asked]
    | o => w.cdk.Evolves c' ∧ notes = o.begun

/-- One complete operation on a wallet, and what is noted of it, the latest first. -/
def exec (w : Wallet) (makes : MintQuote → Prop) (call time : ℕ) (serving : Bool) :
    (o : WalletOp) → WalletSig.Res o → Wallet → List Note → Prop
  | .session o, r, w', notes => w.session call time serving o r w' ∧ notes = []
  | .ledger o, r, w', notes => w.transact call o r w' ∧ notes = []
  | .cdk o, .error _, w', notes => w.interrupt makes o w' notes
  | .cdk (.mintQuote _), .ok quote, w', notes => ∃ c', w' = { w with cdk := c' } ∧ makes quote ∧
      (w.cdk.addQuote quote).Evolves c' ∧ notes = [.quoted quote, .asked]
  | .cdk o, .ok r, w', notes => ∃ c', w.cdk.Evolves c' ∧ c'.answers o r ∧
      w' = { w with cdk := c', unresolved := o.resolve w.unresolved r } ∧
      notes = o.notes time r

/-- An operation whose future is dropped. -/
def cut (w : Wallet) (makes : MintQuote → Prop) :
    WalletOp → Wallet → List Note → Prop
  | .session _, w', notes => w' = w ∧ notes = []
  | .ledger (.savePayout state), w', notes =>
      (w' = w ∨ w' = w.commit (.savePayout state)) ∧ notes = []
  | .ledger o, w', notes =>
      (w' = w ∨ w' = w.commit o ∨ w' = { w with detached := o :: w.detached }) ∧ notes = []
  | .cdk o, w', notes => w.interrupt makes o w' notes

/-- A detached transaction runs. -/
def settle (w w' : Wallet) : Prop :=
  ∃ o ∈ w.detached, w' = { w.commit o with detached := w.detached.erase o }

/-- A process ends: what it kept in memory is gone. -/
def restart (w : Wallet) : Wallet := { w with memory := none, lock := none, detached := [] }

end Wallet

end Geata.Payments
