import Geata.Lightning.Invoice
import Geata.Payments.Wallet

namespace Geata.Payments

open Geata.Lib

/-!
# Collecting a Cashu token

`Payments::collect` admits a request for a token: check the token, reserve it in the ledger,
redeem it at the mint, claim it.  A token that was redeemed before a crash is admitted from the
transaction history instead.

* `enter`, `recover`, `guarded` — what every use of a wallet does first and last.
* `collectInner` — `collect_inner`, without the timer around it.
-/

/-- The functions of other crates that the payment code calls. -/
structure Crates extends Lightning.Crates where
  /-- `Token::from_str` -/
  parseToken : String → Option Token
  /-- `Token::proofs` -/
  proofs : Token → List String → Option (List Proof)
  /-- `MintQuote::amount_mintable` -/
  amountMintable : MintQuote → ℕ
  /-- `parse_mint` of `mod.rs`: URL parsing and `MintUrl::from_str` -/
  parseMint : String → Option String
  /-- `PaymentRequest::from_str` -/
  parseRequest : String → Option PaymentRequest
  /-- `validate_http_target` of `payout.rs`, up to its message -/
  httpTarget : String → Bool
  /-- `Uuid::to_string` -/
  operationText : OperationId → String
  /-- `Uuid::from_str` -/
  parseOperation : String → Option OperationId

/-- What an `anyhow::Error` of the payment code can be. -/
inductive Failure where
  | storage
  | cdk (error : CdkError)
  | payment (error : PaymentError)
  | message (text : String)
  | elapsed
  deriving DecidableEq

def classifyError : CdkError → PaymentError
  | .tokenAlreadySpent | .couldNotVerifyDleq | .dleqProofNotProvided | .amountKey => .invalid
  | .other => .unavailable

/-! ### Using a wallet -/

section

variable {ε α : Type}

def session (o : SessionOp) : Stage WalletSig ε o.Res := Stage.perform (S := WalletSig) (.session o)

/-- A ledger transaction, ending with `e` if it fails. -/
def ledger (e : ε) (o : LedgerOp) : Stage WalletSig ε o.Answer := do
  let r ← Stage.perform (S := WalletSig) (.ledger o)
  Stage.ofExcept (context e r)

/-- A CDK call, ending with its error read by `f`. -/
def cdk (f : CdkError → ε) (o : CdkOp) : Stage WalletSig ε o.Answer := do
  let r ← Stage.perform (S := WalletSig) (.cdk o)
  Stage.ofExcept (Except.mapError f r)

/-- Take the wallet's lock and open it, with the errors for a busy and for a broken wallet. -/
def enter (busy broken : ε) : Stage WalletSig ε Unit := do
  let locked ← session .tryLock
  Stage.stopIf (!locked) busy
  let opened ← session .open
  Stage.stopIf (!opened) broken

/-- Finish the recovery that is due. -/
def recover (f : PaymentError → ε) : Stage WalletSig ε Unit := do
  let due : Bool ← session .needsRecovery
  if due then
    let report ← cdk (fun e => f (classifyError e)) .recoverIncompleteSagas
    Stage.stopIf (report.failed != 0 || report.skipped != 0) (f .unavailable)
    session (.setNeedsRecovery false)

/-- Run a body and give the lock back. -/
def guarded (body : Stage WalletSig ε α) : Prog WalletSig (Except ε α) :=
  body.run.bind (fun r => .op (.session .unlock) (fun _ => .ret r))

end

/-! ### Tokens -/

variable (X : Crates)

def MAX_TOKEN_BYTES : ℕ := 16 * 1024

def validateToken (policy : PaymentPolicy) (encoded : String) : Except PaymentError Token := do
  ensure (decide (encoded.utf8ByteSize ≤ MAX_TOKEN_BYTES) && "cashuB".toList.isPrefixOf encoded.toList)
    .invalid
  let token ← context .invalid (X.parseToken encoded)
  ensure (token.unit == some .sat) .invalid
  let mint ← context .invalid token.mintUrl
  ensure (mint == policy.mint) .invalid
  let value ← context .invalid token.value
  ensure (policy.price.toNat ≤ value) .invalid
  let conditions ← context .invalid token.spendingConditions
  ensure conditions.isEmpty .invalid
  return token

/-- The identity of a token: its secrets, in order and with their lengths. -/
def tokenId (token : Token) : String :=
  Lightning.digest X.sha256
    ((token.secrets.insertionSort (· ≤ ·)).flatMap
      (fun secret => word 8 (bytes secret).length ++ bytes secret))

/-- The memo a redemption is recorded with. -/
def memo (id : String) : String := "geata-payment:" ++ id

/-- A completed redemption of a token for at least `price`. -/
def redeems (id : String) (price : UInt32) (t : Transaction) : Bool :=
  t.memo == some (memo id) && t.status == .completed && decide (price.toNat ≤ t.amount)

/-! ### Admission -/

/-- The last step of an admission. -/
def claim (id : String) : Stage WalletSig PaymentError Unit := do
  let claimed ← ledger .unavailable (.claim id)
  Stage.stopIf (!claimed) .invalid

/-- Redeem the proofs at the mint, then claim. -/
def redeem (id : String) (price : UInt32) (proofs : List Proof) (encoded : String) :
    Stage WalletSig PaymentError Unit := do
  session (.setNeedsRecovery true)
  let received : ℕ ← cdk classifyError (.receiveProofs proofs (memo id) encoded)
  Stage.stopIf (decide (received < price.toNat)) .unavailable
  session (.setNeedsRecovery false)
  claim id

/-- Go on from what the ledger says about the token. -/
def grant (id : String) (price : UInt32) (proofs : List Proof) (encoded : String) :
    Reservation → Stage WalletSig PaymentError Unit
  | .claimed | .mismatch => throw .invalid
  | .pending => do
    let transactions ← cdk classifyError .listTransactions
    if transactions.any (redeems id price) then claim id
    else redeem id price proofs encoded
  | .new => redeem id price proofs encoded

/-- What the token is worth after the mint's fees, which must cover the price. -/
def checkNet (policy : PaymentPolicy) (token : Token) (fees : ℕ) : Except PaymentError Unit := do
  let value ← context .invalid token.value
  ensure (fees ≤ value) .invalid
  ensure (policy.price.toNat ≤ value - fees) .invalid

def collectInner (site : String) (policy : PaymentPolicy) (encoded : String) :
    Stage WalletSig PaymentError Unit := do
  let token ← Stage.ofExcept (validateToken X policy encoded)
  let id := tokenId X token
  enter .unavailable .unavailable
  recover (fun e => e)
  let _ ← cdk classifyError (.verifyTokenDleq token)
  let keysets ← cdk (fun _ => .unavailable) .getMintKeysets
  let proofs ← Stage.ofExcept (context .invalid (X.proofs token (keysets.getD [])))
  let fees ← cdk classifyError (.getProofsFee proofs)
  Stage.ofExcept (checkNet policy token fees)
  let reservation ← ledger .unavailable (.reserve id site policy.price)
  grant id policy.price proofs encoded reservation

end Geata.Payments
