import Geata.Lib.Net
import Geata.Lightning.Store
import Geata.Payments.Minting
import Geata.Payments.Payout

namespace Geata.Service

open Geata.Lib Geata.Lightning Geata.Payments

/-!
# The payment service

The calls that the proxy, the background tasks and the command line make, as programs over the
operations of the settlement database, of the receivers and of the mints' wallets.

* `settle`, `settleL402`, `challenge` — `Lightning`, as the request filter calls it.
* `pruneExpired`, `recoverCashuDeposits` — the two maintenance loops.
* `collect`, `automaticPayout`, `pay`, `pending` — `Payments`.
* `Request` and `code` — all of them as the requests of one system.
-/

/-! ### Operations -/

/-- The operations of `Lightning`: transactions of the settlement database, the receivers, the
    clock and random numbers, and the lock of the cleanup pass. -/
inductive LightningOp (κ : Type) where
  /-- open the database, unless it is open; opening prunes -/
  | database
  /-- `path.try_exists()` -/
  | pathExists
  | checkCapacity (needed : ℕ)
  | insertMint (mint : String)
  | insertQuote (key : String) (deposit : Deposit)
  | insertRoot (key : String) (record : κ × ℕ)
  | claim (key : String) (retainUntil : ℕ)
  | getRoot (key : String)
  | getQuote (key : String)
  | listQuotes
  | retireQuote (key : String) (deposit : Deposit)
  /-- remove the row at the key, which is there for the given association -/
  | removeQuote (key : String) (deposit : Deposit)
  /-- the mints ever asked, each with its associated quotes -/
  | survey
  | prune
  | now
  /-- `macaroon::initialize` -/
  | initMacaroon
  | randomRoot
  | randomNonce
  /-- `receiver::invoice` of an LDK node -/
  | requestInvoice (node : LdkReceiverConfig) (amountMsat : UInt64) (hash : String)
  /-- the issuance rate of a client -/
  | checkIssuance (client : IpAddr)
  /-- the permit of all receivers together, and that of the one asked -/
  | acquireIssuance (client : IpAddr)
  | acquireReceiver (receiver : ReceiverConfig) (client : IpAddr)
  /-- try to lock the cleanup cursor and read it -/
  | tryCursor
  | setCursor (key : String)
  deriving DecidableEq

abbrev LightningOp.Answer {κ : Type} : LightningOp κ → Type
  | .pathExists | .claim _ _ => Bool
  | .getRoot _ => Option (κ × ℕ)
  | .getQuote _ => Option Deposit
  | .listQuotes => List (String × Deposit)
  | .survey => List (String × List String)
  | .now => ℕ
  | .randomRoot => κ
  | .randomNonce => List UInt8
  | .requestInvoice _ _ _ => String
  | .tryCursor => Option String
  | _ => Unit

/-- The writes of the cleanup pass. -/
def LightningOp.cleans {κ : Type} : LightningOp κ → Bool
  | .retireQuote _ _ | .removeQuote _ _ => true
  | _ => false

inductive BaseOp (κ : Type) where
  | lightning (o : LightningOp κ)
  | wallet (mint : String) (o : WalletOp)
  /-- the data directory's lock, as a wallet command takes it -/
  | lockDirectory (mint : String)

/-- An operation of `Lightning` can fail. -/
abbrev BaseSig (κ : Type) : Sig where
  Op := BaseOp κ
  Res
    | .lightning o => Option o.Answer
    | .wallet _ o => WalletSig.Res o
    | .lockDirectory _ => Bool

/-- A use of one mint's wallet. -/
def onWallet (κ : Type) (mint : String) : WalletSig.Hom (BaseSig κ) where
  op := .wallet mint
  res _ r := r

/-- The programs of the service: the base operations, plain or under a timer. -/
abbrev ServiceSig (κ : Type) : Sig := (BaseSig κ).timers

/-- The functions of other crates. -/
structure Crates (κ : Type) extends l402 : L402.Crates κ, payments : Payments.Crates

section

variable {κ ε α : Type}

/-- An operation of `Lightning`, ending with `e` if it fails. -/
def perform (e : ε) (o : LightningOp κ) : Stage (ServiceSig κ) ε o.Answer := do
  let r ← Stage.perform (S := ServiceSig κ) (.plain (.lightning o))
  Stage.ofExcept (context e r)

/-- A transaction of the settlement database, which is opened first. -/
def transact (e : ε) (o : LightningOp κ) : Stage (ServiceSig κ) ε o.Answer := do
  let _ ← perform e .database
  perform e o

/-- A use of a mint's wallet under the payment timer. -/
def timed (mint : String) (elapsed : ε) (body : Stage WalletSig ε α) :
    Prog (ServiceSig κ) (Except ε α) :=
  ((guarded body).lift (onWallet κ mint)).timeout.bind (fun r => .ret (r.getD (.error elapsed)))

/-- The same inside another call, which goes on with its outcome. -/
def attempt (mint : String) (body : Stage WalletSig Failure α) :
    Stage (ServiceSig κ) ε (Except Failure α) := ExceptT.lift (timed mint .elapsed body)

end

section

variable {κ : Type} [DecidableEq κ] (X : Service.Crates κ)

/-! ### Settlement -/

/-- The response to a settled x402 payment. -/
def settlementText (network paymentHash : String) : String :=
  "\x7b\"network\":" ++ String.ofList (quote network) ++ ",\"success\":true,\"transaction\":" ++
    String.ofList (quote paymentHash) ++ "\x7d"

def claim (key : String) (retainUntil : ℕ) : Stage (ServiceSig κ) Error Unit := do
  let claimed ← transact .unavailable (.claim key retainUntil)
  Stage.stopIf (!claimed) .invalid

def settle (policy : Policy) (hash encoded : String) : Stage (ServiceSig κ) Error String := do
  let time ← perform .unavailable .now
  let (key, paymentHash, retainUntil) ← Stage.ofExcept
    ((verify X.l402.toCrates policy hash encoded time).mapError (fun _ => Error.invalid))
  claim key retainUntil
  return X.base64Encode (bytes (settlementText policy.receiver.network.id paymentHash))

/-- The deposit a credential stands for must be there and fit the policy. -/
def checkDeposit (policy : Policy) (mint : String) (record : Option Deposit) :
    Except Error Deposit := do
  let deposit ← context .unavailable record
  ensure (deposit.mint == mint && deposit.amount == policy.amountSat) .invalid
  return deposit

def collectCashuInvoice (policy : Policy) (mint key : String) :
    Stage (ServiceSig κ) Error Unit := do
  let record ← transact .unavailable (.getQuote key)
  let deposit ← Stage.ofExcept (checkDeposit policy mint record)
  let collected ← attempt mint
    (collectMintInvoice X.payments deposit.quote deposit.amount.toNat deposit.invoice)
  Stage.ofExcept (collected.mapError (fun _ => Error.unavailable))

/-- The funds of a mint-backed credential are collected before it is claimed. -/
def collectFunds (policy : Policy) (key : String) : Stage (ServiceSig κ) Error Unit :=
  match policy.receiver.mint? with
  | some mint => collectCashuInvoice X policy mint key
  | none => return ()

def settleL402 (policy : Policy) (hash encoded : String) : Stage (ServiceSig κ) Error Unit := do
  let _ ← perform .unavailable .initMacaroon
  let (macaroon, preimage) ← Stage.ofExcept
    ((L402.parseCredential X.l402 encoded).mapError (fun _ => Error.invalid))
  let record ← transact .unavailable
    (.getRoot (digest X.sha256 macaroon.identifier))
  let (root, validBefore) ← Stage.ofExcept (context Error.invalid record)
  let time ← perform .unavailable .now
  Stage.ofExcept ((L402.verify X.l402 policy hash macaroon preimage root validBefore
    time).mapError (fun _ => Error.invalid))
  let key := L402.credentialKey policy macaroon.identifier
  collectFunds X policy key
  claim key (L402.retainUntil validBefore)

/-! ### Challenges -/

/-- What a challenge offers, by protocol. -/
structure Challenge where
  x402 : Option String
  l402 : Option String
  deriving DecidableEq

def mintL402 (policy : Policy) (hash invoice : String) (parsed : Bolt11Invoice) :
    Stage (ServiceSig κ) Failure String := do
  let _ ← perform .storage .initMacaroon
  let root ← perform .storage .randomRoot
  let nonce ← perform .storage .randomNonce
  let c ← Stage.ofExcept
    ((L402.credential X.l402 policy hash parsed root nonce).mapError Failure.message)
  let _ ← transact .storage (.insertRoot (digest X.sha256 c.identifier) (c.root, c.validBefore))
  return "L402 macaroon=\"" ++ c.encoded ++ "\", invoice=\"" ++ invoice ++ "\""

/-- The invoice of a quote must end before the quote does, and soon. -/
def checkQuote (quote : MintQuote) (invoice : Bolt11Invoice) (time : ℕ) :
    Except Failure Unit := do
  let last ← context (.message "invoice expiration overflow")
    (checkedAdd invoice.created invoice.expiry)
  ensure (decide (last ≤ quote.expiry) && decide (last ≤ saturatingAdd time 86400))
    (.message "mint invoice expiry must fit the quote and be within 24 hours")

/-- The association of a quote with its invoice. -/
def depositOf (policy : Policy) (mint : String) (quote : MintQuote) : Deposit where
  mint := mint
  quote := quote.id
  amount := policy.amountSat
  invoice := quote.request

def cashuInvoice (policy : Policy) (mint hash : String) : Stage (ServiceSig κ) Failure String := do
  -- the mint is remembered before it is asked, so that recovery finds it even after a crash
  let _ ← transact .storage (.insertMint mint)
  let answer ← attempt mint (mintInvoice policy.amountSat.toNat)
  let quote ← Stage.ofExcept answer
  let time ← perform .storage .now
  let invoice ← Stage.ofExcept
    ((validateInvoice X.l402.toCrates policy hash quote.request time 0).mapError Failure.message)
  Stage.stopIf (!(quote.amount == some policy.amountSat.toNat && quote.unit == .sat))
    (.message "mint quote terms mismatch")
  let time ← perform .storage .now
  Stage.ofExcept (checkQuote quote invoice time)
  let _ ← transact .storage (.insertQuote
    (replayKey policy.receiver.network invoice.paymentHash) (depositOf policy mint quote))
  return quote.request

/-- Ask the receiver of a policy for an invoice. -/
def receiverInvoice (policy : Policy) (hash : String) : Stage (ServiceSig κ) Failure String :=
  match policy.receiver with
  | .ldk node => perform .storage (.requestInvoice node policy.amountMsat hash)
  | .cashu mint _ => cashuInvoice X policy mint hash

/-- The credential of a challenge, if the site offers L402. -/
def challengeL402 (policy : Policy) (hash invoice : String) (parsed : Bolt11Invoice) :
    Stage (ServiceSig κ) Failure (Option String) :=
  if policy.protocols.l402 then do
    let header ← mintL402 X policy hash invoice parsed
    return some header
  else return none

/-- The x402 offer of a challenge, if the site makes one. -/
def challengeX402 (policy : Policy) (url hash invoice : String) : Option String :=
  if policy.protocols.x402 then
    some (X.base64Encode (Json.obj [
      ("accepts", .arr [(policy.requirements hash invoice).toValue]),
      ("resource", .obj [("url", .str url)]), ("x402Version", .num 2)]).toVec)
  else none

def challenge (policy : Policy) (url hash : String) (client : IpAddr) :
    Stage (ServiceSig κ) Failure Challenge := do
  let _ ← perform (.message "invoice issuance rate exceeded") (.checkIssuance client)
  let _ ← perform (.message "invoice issuance at capacity") (.acquireIssuance client)
  let _ ← perform (.message "receiver invoice issuance at capacity")
    (.acquireReceiver policy.receiver client)
  let needed := policy.protocols.l402.toNat + policy.receiver.mint?.isSome.toNat
  let _ ← transact .storage (.checkCapacity needed)
  let invoice ← receiverInvoice X policy hash
  let time ← perform .storage .now
  let parsed ← Stage.ofExcept
    ((validateInvoice X.l402.toCrates policy hash invoice time 0).mapError Failure.message)
  let l402 ← challengeL402 X policy hash invoice parsed
  return { x402 := challengeX402 X policy url hash invoice, l402 }

/-! ### Maintenance -/

def pruneExpired : Stage (ServiceSig κ) Failure Unit := do
  let found : Bool ← perform .storage .pathExists
  if found then transact .storage .prune else return ()

/-- Make sure an association is retired: it was before, or its deposit can be given up now. -/
def retireDeposit (key : String) (deposit : Deposit) : Stage (ServiceSig κ) Failure Bool :=
  if deposit.retired then return true
  else do
    let answer ← attempt deposit.mint (canPruneMintDeposit X.payments deposit.quote
      deposit.amount.toNat deposit.invoice)
    match answer with
    | .ok true => do
      let _ ← perform .storage (.retireQuote key deposit)
      return true
    | _ => return false

/-- Remove the quote of a retired association, then the association. -/
def removeDeposit (key : String) (deposit : Deposit) : Stage (ServiceSig κ) Failure Unit := do
  let answer ← attempt deposit.mint (removeRetiredMintQuote deposit.quote)
  match answer with
  | .ok () => perform .storage (.removeQuote key { deposit with retired := true })
  | .error _ => return ()

/-- One association of a cleanup pass at `time`. -/
def pruneDeposit (time : ℕ) (key : String) (deposit : Deposit) :
    Stage (ServiceSig κ) Failure Unit := do
  let _ ← perform .storage (.setCursor key)
  let invoice ← Stage.ofExcept
    (context (Failure.message "invalid BOLT11 invoice") (X.parseInvoice deposit.invoice))
  if time < invoice.retainUntil then return ()
  else
    let retired ← retireDeposit X key deposit
    if retired then removeDeposit key deposit else return ()

/-- The loop of a cleanup pass. -/
def pruneDeposits (time : ℕ) : List (String × Deposit) → Stage (ServiceSig κ) Failure Unit
  | [] => return ()
  | (key, deposit) :: rest => do
    pruneDeposit X time key deposit
    pruneDeposits time rest

def pruneCashuDeposits : Stage (ServiceSig κ) Failure Unit := do
  let cursor ← perform (.message "cleanup busy") .tryCursor
  let deposits ← transact .storage .listQuotes
  let time ← perform .storage .now
  pruneDeposits X time ((resume Prod.fst cursor deposits).take 32)

/-- One recovery pass over every mint; a mint that fails is left for the next round. -/
def recoverMints : List (String × List String) → Stage (ServiceSig κ) Failure Unit
  | [] => return ()
  | (mint, associated) :: rest => do
    let _ ← attempt mint (recoverMintDeposits X.payments associated)
    recoverMints rest

/-- Recovery and cleanup.  The source gives the cleanup its own time limit; when that ends it, the
    call is over, as when it is dropped. -/
def recoverCashuDeposits : Stage (ServiceSig κ) Failure Unit := do
  let found : Bool ← perform .storage .pathExists
  if found then
    let mints ← transact .storage .survey
    recoverMints X mints
    pruneCashuDeposits X
  else return ()

/-! ### All calls -/

/-- Run a wallet command, in a process that holds the data directory. -/
def command {α : Type} (mint : String) (body : Stage WalletSig Failure α) :
    Prog (ServiceSig κ) (Except Failure α) :=
  .op (.plain (.lockDirectory mint)) (fun
    | true => (body.run.lift (onWallet κ mint)).lift (.plain (BaseSig κ))
    | false => .ret (.error .storage))

inductive Request where
  | collect (site : String) (policy : PaymentPolicy) (encoded : String)
  | settle (policy : Policy) (hash encoded : String)
  | settleL402 (policy : Policy) (hash encoded : String)
  | challenge (policy : Policy) (url hash : String) (client : IpAddr)
  | pruneExpired
  | recoverCashuDeposits
  | automaticPayout (policy : PayoutPolicy)
  | pay (mint encoded : String) (amount : Option UInt64) (maxTotal : UInt64)
  | pending (mint : String) (reclaim : Option String)

inductive Answer where
  | collected (result : Except PaymentError Unit)
  | settled (result : Except Error String)
  | settledL402 (result : Except Error Unit)
  | challenged (result : Except Failure Challenge)
  | done (result : Except Failure Unit)
  | lines (result : Except Failure (List String))

/-- The program of each call.  The server's calls release what they hold when they end. -/
def code : Request → Prog (ServiceSig κ) Answer
  | .collect site policy encoded =>
    (timed policy.mint .unavailable (collectInner X.payments site policy encoded)).bind
      (fun r => .ret (.collected r))
  | .settle policy hash encoded => (settle X policy hash encoded).run.bind (fun r => .ret (.settled r))
  | .settleL402 policy hash encoded =>
    (settleL402 X policy hash encoded).run.bind (fun r => .ret (.settledL402 r))
  | .challenge policy url hash client =>
    (challenge X policy url hash client).run.bind (fun r => .ret (.challenged r))
  | .pruneExpired => pruneExpired.run.bind (fun r => .ret (.done r))
  | .recoverCashuDeposits => (recoverCashuDeposits X).run.bind (fun r => .ret (.done r))
  | .automaticPayout policy =>
    (((guarded (automaticPayout X.payments policy)).lift (onWallet κ policy.mint)).lift
      (.plain (BaseSig κ))).bind (fun r => .ret (.done r))
  | .pay mint encoded amount maxTotal =>
    (command mint (pay X.payments mint encoded amount maxTotal)).bind (fun r => .ret (.done r))
  | .pending mint reclaim =>
    (command mint (pending X.payments reclaim)).bind (fun r => .ret (.lines r))

end

end Geata.Service
