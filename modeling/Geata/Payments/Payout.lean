import Geata.Payments.Collect

namespace Geata.Payments

open Geata.Lib

/-!
# Payouts

Collected sats are sent on, automatically under a policy or by hand from the command line.  A
send is journalled in the ledger before its token is released, so that a send whose outcome is
unknown pauses every later payment until `pending` has seen it resolved.

* `sendRequest` — prepare, journal, confirm, clear the journal.
* `automaticPayout`, `pay`, `pending` — the three users of the journal.
-/

/-- An automatic payout.  `parse` rejects a policy whose amount and fee do not fit 64 bits. -/
structure PayoutPolicy where
  mint : String
  request : PaymentRequest
  amount : UInt64
  maxFee : UInt64
  interval : Option ℤ
  threshold : Option UInt64
  fits : amount.toNat + maxFee.toNat ≤ u64Max
  deriving DecidableEq

/-- Addition of signed 64-bit values that stays at the ends. -/
def saturatingAddI64 (a b : ℤ) : ℤ := max (-2 ^ 63) (min (a + b) (2 ^ 63 - 1))

def PayoutPolicy.due (policy : PayoutPolicy) (state : PayoutState) (now : ℤ) (balance : ℕ) : Bool :=
  state.pending.isNone && decide (state.retryAt ≤ now) && decide (policy.amount.toNat ≤ balance) &&
    (policy.threshold.any (fun n => decide (n.toNat ≤ balance)) ||
      policy.interval.any (fun n => decide (saturatingAddI64 state.lastPaid n ≤ now)))

/-! ### Payment requests -/

variable (X : Crates)

/-- The transport CDK would use. -/
def PaymentRequest.transport (request : PaymentRequest) : Option Transport :=
  (request.transports.find? (fun t => t.type == .nostr)).or
    (request.transports.find? (fun t => t.type == .httpPost))

/-- The amount of a request, fixed by it or given along with it. -/
def requestAmount (request : PaymentRequest) (amount : Option UInt64) : Except Failure UInt64 := do
  ensure ((request.amount.bind (fun a => amount.map (fun b => a == b))).getD true)
    (.message "amount conflicts with payment request")
  context (.message "payment request requires a positive amount")
    ((request.amount.or amount).filter (fun n => decide (0 < n)))

def validateRequest (encoded mint : String) (amount : Option UInt64) :
    Except Failure (PaymentRequest × UInt64) := do
  ensure (encoded.utf8ByteSize ≤ 64 * 1024) (.message "payment request exceeds 64 KiB")
  let request ← context (.message "invalid Cashu payment request") (X.parseRequest encoded)
  ensure (request.unit.all (fun u => u == .sat)) (.message "payout requires sat unit")
  ensure (request.mintPreferred == some true || request.mints.isEmpty || request.mints.contains mint)
    (.message "payment request does not accept this mint")
  ensure (request.unit.isSome || (request.amount.isNone && request.supportedMethods.isEmpty))
    (.message "payment request amount or methods require a unit")
  let amount ← requestAmount request amount
  let transport ← context (.message "payment request needs HTTP POST or Nostr transport")
    request.transport
  ensure (transport.type != .httpPost || X.httpTarget transport.target)
    (.message "payout transport requires a secure URL without credentials or fragment (loopback tests allowed)")
  return (request, amount)

/-! ### Sending -/

/-- The send exceeds its cap: give the reservation back. -/
def abandonSend (send : PreparedPayRequest) : Stage WalletSig Failure Unit := do
  let _ ← cdk (fun _ => .message "payout fee cap exceeded; reservation recovery required")
    (.cancel send.operationId)
  session (.setNeedsRecovery false)
  throw (.message "payout fee cap exceeded; no payment delivered")

/-- Journal the send; if that fails, cancel it and end. -/
def journalSend (send : PreparedPayRequest) (state : PayoutState) : Stage WalletSig Failure Unit := do
  let saved ← Stage.attempt (ledger Failure.storage (.savePayout state))
  match saved with
  | .ok () => pure ()
  | .error e => do
    let _ ← Stage.attempt (cdk Failure.cdk (.cancel send.operationId))
    throw e

/-- Release the token and clear the journal. -/
def confirmSend (send : PreparedPayRequest) (state : PayoutState) : Stage WalletSig Failure Unit := do
  session (.confirming send)
  let _ ← cdk (fun _ => .message ("payout " ++ X.operationText send.operationId ++
    " outcome uncertain; automatic payouts paused; inspect wallet pending"))
    (.confirm send.operationId)
  let time : ℕ ← session .now
  ledger .storage (.savePayout { state with pending := none, lastPaid := time })
  session (.setNeedsRecovery false)

def sendRequest (request : PaymentRequest) (amount maxTotal : UInt64) (state : PayoutState) :
    Stage WalletSig Failure Unit := do
  session (.setNeedsRecovery true)
  let send : PreparedPayRequest ←
    cdk (fun _ => .message "cannot prepare payout; balance, fees, or mint may be unavailable")
      (.preparePayRequest request amount.toNat)
  if maxTotal.toNat < send.totalAmount then abandonSend send
  else
    let state := { state with pending := some (X.operationText send.operationId) }
    journalSend send state
    confirmSend X send state

/-! ### The users of the journal -/

/-- The payout state, created on the first use. -/
def payoutState (now : ℕ) : Stage WalletSig Failure PayoutState := do
  let stored : Option PayoutState ← ledger .storage .payout
  match stored with
  | some state => pure state
  | none => do
    let state : PayoutState := { lastPaid := now }
    ledger .storage (.savePayout state)
    return state

/-- The payment of a policy that is due: journal the next attempt before funds are prepared. -/
def payDue (policy : PayoutPolicy) (state : PayoutState) (now : ℕ) : Stage WalletSig Failure Unit := do
  let state := { state with retryAt := saturatingAddI64 now 60 }
  ledger .storage (.savePayout state)
  sendRequest X policy.request policy.amount (policy.amount + policy.maxFee) state

/-- What a policy pays once its wallet is open. -/
def payoutOpen (policy : PayoutPolicy) : Stage WalletSig Failure Unit := do
  let now : ℕ ← session .now
  let state ← payoutState now
  if state.pending.isSome || decide ((now : ℤ) < state.retryAt) then return ()
  else
    recover .payment
    let balance : ℕ ← cdk .cdk .totalBalance
    if policy.due state now balance then payDue X policy state now else return ()

/-- An automatic payout; a busy wallet is left for the next round. -/
def automaticPayout (policy : PayoutPolicy) : Stage WalletSig Failure Unit := do
  let locked : Bool ← session .tryLock
  if locked then
    let opened ← session .open
    Stage.stopIf (!opened) .storage
    payoutOpen X policy
  else return ()

/-- A payment by hand, in a process of its own. -/
def pay (mint encoded : String) (amount : Option UInt64) (maxTotal : UInt64) :
    Stage WalletSig Failure Unit := do
  let (request, amount) ← Stage.ofExcept (validateRequest X encoded mint amount)
  Stage.stopIf (decide (maxTotal < amount)) (.message "max-total is below the requested amount")
  let opened ← session .open
  Stage.stopIf (!opened) .storage
  recover .payment
  let stored : Option PayoutState ← ledger .storage .payout
  let state := stored.getD {}
  Stage.stopIf state.pending.isSome
    (.message "resolve the pending payout first with wallet pending/reclaim")
  sendRequest X request amount maxTotal state

/-- Reclaim a send by hand, if asked to. -/
def reclaimSend : Option String → Stage WalletSig Failure Unit
  | none => return ()
  | some id => do
    let operation ← Stage.ofExcept (context (.message "invalid operation ID") (X.parseOperation id))
    cdk (fun _ => .message "could not reclaim payout; run wallet pending to check its state")
      (.revokeSend operation)

/-- Clear the journal if the saga of its send is gone, and give back the state. -/
def resolvePending (state : PayoutState) : Stage WalletSig Failure PayoutState :=
  match state.pending with
  | none => return state
  | some pending => do
    let operation ← Stage.ofExcept
      (context (.message "invalid saved payout operation ID") (X.parseOperation pending))
    let found : Bool ← cdk .cdk (.getSaga operation)
    if found then return state
    else
      let now : ℕ ← session .now
      let state := { state with
        pending := none, lastPaid := now, retryAt := saturatingAddI64 now 60 }
      ledger .storage (.savePayout state)
      return state

/-- The lines `wallet pending` prints. -/
def pendingLines (state : PayoutState) (sends : List OperationId) : List String :=
  (state.pending.toList.map (· ++ " payout unresolved; automatic payouts paused")) ++
    sends.map (fun id => X.operationText id ++ " unclaimed send (reclaimable if still unspent)")

/-- Inspect the pending sends by hand, in a process of its own. -/
def pending (reclaim : Option String) : Stage WalletSig Failure (List String) := do
  let opened ← session .open
  Stage.stopIf (!opened) .storage
  recover .payment
  reclaimSend X reclaim
  let stored : Option PayoutState ← ledger .storage .payout
  let state ← resolvePending X (stored.getD {})
  let sends : List OperationId ← cdk .cdk .getPendingSends
  return pendingLines X state sends

end Geata.Payments
