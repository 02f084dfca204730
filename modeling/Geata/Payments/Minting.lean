import Geata.Payments.Collect

namespace Geata.Payments

open Geata.Lib
open Geata.Lightning (MAX_CHALLENGE_RECORDS QUOTE_PRUNE_GRACE)

/-!
# Mint deposits

A mint-backed invoice is a quote of a mint: when it is paid, the mint lets the wallet issue its
amount.  These are the uses of a wallet behind `lightning/cashu.rs`, each without the timer
around it.

* `collectMintInvoice` — issue the amount of a paid quote, or find it issued.
* `definitivelyUnpaid` — whether a quote can be given up: it looks unpaid here, its invoice is
  long over, and the mint says so now.
* `recoverMintDeposits` — one bounded pass over the quotes that are not issued.
-/

/-! ### What counts as received and as unpaid -/

/-- A completed deposit of at least `amount` for a quote and its invoice. -/
def deposits (id : String) (amount : ℕ) (invoice : String) (t : Transaction) : Bool :=
  t.quoteId == some id && t.paymentRequest == some invoice && t.status == .completed &&
    t.unit == .sat && decide (amount ≤ t.amount)

def pastQuoteGrace (expiry time : ℕ) : Bool :=
  expiry != 0 && (checkedAdd expiry QUOTE_PRUNE_GRACE).any (fun last => decide (last ≤ time))

/-- The part of `definitively_unpaid` before the mint is asked. -/
def looksUnpaid (X : Crates) (quote : MintQuote) (time : ℕ) : Bool :=
  quote.state == .unpaid && quote.amountPaid == 0 && quote.amountIssued == 0 &&
    quote.usedByOperation.isNone && quote.paymentMethod == .bolt11 && quote.unit == .sat &&
    pastQuoteGrace quote.expiry time &&
    (X.parseInvoice quote.request).any
      (fun invoice => pastQuoteGrace (saturatingAdd invoice.created invoice.expiry) time)

/-- The part of `definitively_unpaid` on the mint's answer. -/
def answersUnpaid (quote : MintQuote) (time : ℕ) : MintQuoteResponse → Bool
  | .other => false
  | .bolt11 response =>
    response.quote == quote.id && response.request == quote.request &&
      response.amount == quote.amount && response.unit == some quote.unit &&
      response.method == .bolt11 && response.state == .unpaid && response.amountPaid == 0 &&
      response.amountIssued == 0 && decide (quote.updatedAt ≤ response.updatedAt) &&
      response.expiry.any (fun expiry => pastQuoteGrace expiry time)

def definitivelyUnpaid (X : Crates) (quote : MintQuote) : Stage WalletSig Failure Bool := do
  let time ← session .now
  if looksUnpaid X quote time then
    let response ← cdk .cdk (.getMintQuoteStatus quote.id)
    return answersUnpaid quote time response
  else
    return false

def hasMintTransaction (id : String) (amount : ℕ) (invoice : String) :
    Stage WalletSig Failure Bool := do
  let transactions : List Transaction ← cdk .cdk .listTransactions
  return transactions.any (deposits id amount invoice)

/-! ### The uses of a wallet -/

/-- Enter the wallet and recover it. -/
def begin : Stage WalletSig Failure Unit := do
  enter (.message "mint wallet busy") .storage
  recover .payment

def mintInvoice (amount : ℕ) : Stage WalletSig Failure MintQuote := do
  begin
  let quotes : List MintQuote ← cdk .cdk .getMintQuotes
  Stage.stopIf (decide (MAX_CHALLENGE_RECORDS ≤ quotes.length))
    (.message "mint quote capacity exhausted")
  cdk .cdk (.mintQuote amount)

/-- Issue what a quote allows. -/
def mintPaid (X : Crates) (quote : MintQuote) (id : String) : Stage WalletSig Failure Unit :=
  if 0 < X.amountMintable quote then cdk .cdk (.mint id) else pure ()

/-- Ask about a quote and issue what it allows; afterwards the deposit must be there. -/
def issue (X : Crates) (id : String) (amount : ℕ) (invoice : String) :
    Stage WalletSig Failure Unit := do
  session (.setNeedsRecovery true)
  let quote : MintQuote ← cdk .cdk (.checkMintQuoteStatus id)
  mintPaid X quote id
  let received ← hasMintTransaction id amount invoice
  Stage.stopIf (!received) (.message "mint funds not yet received")
  session (.setNeedsRecovery false)

def collectMintInvoice (X : Crates) (id : String) (amount : ℕ) (invoice : String) :
    Stage WalletSig Failure Unit := do
  begin
  let received ← hasMintTransaction id amount invoice
  if received then return ()
  else
    let stored : Option MintQuote ← cdk .cdk (.getMintQuote id)
    let quote ← Stage.ofExcept (context (.message "missing mint quote") stored)
    Stage.stopIf (!(quote.request == invoice && quote.amount == some amount && quote.unit == .sat))
      (.message "mint quote mismatch")
    issue X id amount invoice

/-- The last part of `can_prune_mint_deposit`, on the stored quote. -/
def canPruneQuote (X : Crates) (amount : ℕ) (invoice : String) :
    Option MintQuote → Stage WalletSig Failure Bool
  | none => return false
  | some quote =>
    if quote.request == invoice && quote.amount == some amount then definitivelyUnpaid X quote
    else return false

def canPruneMintDeposit (X : Crates) (id : String) (amount : ℕ) (invoice : String) :
    Stage WalletSig Failure Bool := do
  begin
  let received ← hasMintTransaction id amount invoice
  if received then return true
  else
    let stored : Option MintQuote ← cdk .cdk (.getMintQuote id)
    canPruneQuote X amount invoice stored

def removeRetiredMintQuote (id : String) : Stage WalletSig Failure Unit := do
  begin
  cdk .cdk (.removeMintQuote id)

/-- Whether a recovery pass gives a quote up: nothing refers to it and it is unpaid. -/
def abandoned (X : Crates) (associated : List String) (quote : MintQuote) :
    Stage WalletSig Failure Bool :=
  if associated.contains quote.id then return false else definitivelyUnpaid X quote

/-- What a recovery pass does with one quote. -/
def recoverQuote (X : Crates) (associated : List String) (id : String) :
    Stage WalletSig Failure Unit := do
  let quote : MintQuote ← cdk .cdk (.checkMintQuoteStatus id)
  let unpaid ← abandoned X associated quote
  if unpaid then cdk .cdk (.removeMintQuote quote.id) else mintPaid X quote quote.id

/-- After a failed quote the wallet is recovered before the next one. -/
def closeQuote : Except Failure Unit → Stage WalletSig Failure Unit
  | .error _ => recover .payment
  | .ok () => session (.setNeedsRecovery false)

/-- The loop of a recovery pass. -/
def recoverQuotes (X : Crates) (associated : List String) :
    List MintQuote → Stage WalletSig Failure Unit
  | [] => return ()
  | quote :: rest => do
    -- the cursor moves first, so that a quote that hangs is not the first of the next pass
    session (.setDepositCursor quote.id)
    session (.setNeedsRecovery true)
    let result ← Stage.attempt (recoverQuote X associated quote.id)
    closeQuote result
    recoverQuotes X associated rest

def recoverMintDeposits (X : Crates) (associated : List String) :
    Stage WalletSig Failure Unit := do
  begin
  let quotes : List MintQuote ← cdk .cdk .getUnissuedMintQuotes
  let cursor : Option String ← session .depositCursor
  recoverQuotes X associated
    ((resume MintQuote.id cursor (quotes.insertionSort (fun a b => a.id ≤ b.id))).take 32)

end Geata.Payments
