import Geata.Lib.Except
import Geata.Lightning.Binding

namespace Geata.Lightning

open Geata.Lib

/-!
# Invoices and x402 proofs

`validateInvoice` checks a BOLT11 invoice against a policy and a request; `verify` checks an x402
payment proof and names the replay key it consumes and how long that key must be remembered.

Parsing invoices, checking their signatures, decoding the payment header and SHA-256 are the work
of other crates and are the fields of `Crates`.
-/

/-! ### Invoices -/

/-- The currency an invoice is made out for. -/
inductive Currency where
  | bitcoin
  | bitcoinTestnet
  | regtest
  | simnet
  | signet
  deriving DecidableEq

/-- The description field of an invoice. -/
inductive Description where
  | direct (text : String)
  | hash (h : List UInt8)
  deriving DecidableEq

/-- A parsed invoice.  BOLT11 timestamps have 35 bits; durations are whole 64-bit seconds. -/
structure Bolt11Invoice where
  /-- The public key recovered from the signature. -/
  payee : String
  currency : Currency
  amountMsat : Option UInt64
  description : Description
  /-- `duration_since_epoch`, in seconds. -/
  created : ℕ
  /-- `expiry_time`, in seconds. -/
  expiry : ℕ
  paymentHash : List UInt8
  created_lt : created < 2 ^ 35
  expiry_le : expiry ≤ u64Max
  paymentHash_length : paymentHash.length = 32
  deriving DecidableEq

/-- The moment an invoice expires. -/
def Bolt11Invoice.validUntil (invoice : Bolt11Invoice) : ℕ := invoice.created + invoice.expiry

/-- The currency of a network's invoices. -/
def Network.currency (network : Network) : Currency :=
  if network = .mainnet then .bitcoin else .bitcoinTestnet

theorem Network.currency_injective {a b : Network} (h : a.currency = b.currency) : a = b := by
  cases a <;> cases b <;> first | rfl | exact absurd h (by decide)

/-! ### Payment headers -/

/-- The proof part of an x402 payment. -/
structure Proof where
  preimage : String
  deriving DecidableEq

/-- A decoded x402 payment header. -/
structure Payment where
  x402Version : ℕ
  accepted : Requirements
  payload : Proof
  deriving DecidableEq

/-- The functions of other crates that invoice and proof checking call. -/
structure Crates where
  /-- `openssl::sha::sha256` -/
  sha256 : List UInt8 → List UInt8
  /-- `Bolt11Invoice::from_str` -/
  parseInvoice : String → Option Bolt11Invoice
  /-- `Bolt11Invoice::check_signature` -/
  checkSignature : Bolt11Invoice → Bool
  /-- `base64`'s `STANDARD.encode` -/
  base64Encode : List UInt8 → String
  /-- `base64`'s `STANDARD.decode` -/
  base64Decode : String → Option (List UInt8)
  /-- `serde_json::from_slice` at `Payment` -/
  parsePayment : List UInt8 → Option Payment

/-- A payment header: base64 around JSON. -/
def Crates.decodePayment (X : Crates) (encoded : String) : Option Payment :=
  (X.base64Decode encoded).bind X.parsePayment

/-- Decode 64 lowercase hexadecimal digits.  (The length in bytes and in characters agree on the
    strings that pass the digit test.) -/
def decodeHash (value : List Char) : Except String (List UInt8) := do
  ensure (value.length == 64 && value.all isLowerHex) "invalid 32-byte lowercase hash"
  context "invalid digit found in string" (unhex value)

@[simp] theorem decodeHash_hex {b : List UInt8} (h : b.length = 32) :
    decodeHash (hex b).toList = .ok b := by
  have hlen : (b.flatMap hexByte).length = 64 := by rw [length_flatMap_hexByte, h]
  have hall : (b.flatMap hexByte).all isLowerHex :=
    List.all_eq_true.mpr (fun _ hc => isLowerHex_of_mem_hex hc)
  simp only [decodeHash, toList_hex, bind_eq_ok, ensure_eq_ok, exists_const, context_eq_ok,
    unhex_hex, hlen, hall]
  simp

/-- The replay key of a payment. -/
def replayKey (network : Network) (paymentHash : List UInt8) : String :=
  network.id ++ ":" ++ hex paymentHash

/-- A replay key determines the network and the payment hash. -/
theorem replayKey_injective {n n' : Network} {h h' : List UInt8}
    (he : replayKey n h = replayKey n' h') : n = n' ∧ h = h' := by
  have hn : n = n' := by
    by_contra hne
    refine append_ne_append (p := n.id ++ ":") (q := n'.id ++ ":") ?_ ?_ he
    · cases n <;> cases n' <;> first | exact absurd rfl hne | decide
    · cases n <;> cases n' <;> first | exact absurd rfl hne | decide
  subst hn
  exact ⟨rfl, hex_injective ((String.append_right_inj _).mp he)⟩

/-- How long the replay barrier of an invoice is kept: its end, the skew and one hour. -/
def Bolt11Invoice.retainUntil (invoice : Bolt11Invoice) : ℕ :=
  saturatingAdd (saturatingAdd invoice.created invoice.expiry) QUOTE_PRUNE_GRACE

section

variable (X : Crates)

/-- The payee of an invoice, which only an LDK receiver fixes. -/
def checkPayee (receiver : ReceiverConfig) (invoice : Bolt11Invoice) : Except String Unit :=
  match receiver.ldk? with
  | some node => ensure (invoice.payee == node.payTo) "invoice receiver mismatch"
  | none => .ok ()

/-- The description of an LDK receiver's invoice is the request hash. -/
def checkDescription (hash : String) : Description → Except String Unit
  | .hash h => do
    let expected ← decodeHash hash.toList
    ensure (h == expected) "invoice request mismatch"
  | .direct _ => .error "invoice needs a description hash"

/-- The request and the expiry of an invoice, which only an LDK receiver fixes. -/
def checkRequest (receiver : ReceiverConfig) (hash : String) (invoice : Bolt11Invoice) :
    Except String Unit :=
  match receiver.ldk? with
  | some node => do
    checkDescription hash invoice.description
    ensure (invoice.expiry == node.expirySeconds.toNat) "invoice expiry mismatch"
  | none => .ok ()

/-- Check an invoice against a policy and a request at `time`; `grace` seconds after its end are
    still accepted. -/
def validateInvoice (policy : Policy) (hash encoded : String) (time grace : ℕ) :
    Except String Bolt11Invoice := do
  let invoice ← context "invalid BOLT11 invoice" (X.parseInvoice encoded)
  ensure (X.checkSignature invoice) "invalid invoice signature"
  checkPayee policy.receiver invoice
  ensure (invoice.currency == policy.receiver.network.currency) "invoice network mismatch"
  ensure (invoice.amountMsat == some policy.amountMsat) "invoice amount mismatch"
  checkRequest policy.receiver hash invoice
  ensure (invoice.created ≤ saturatingAdd time SKEW) "invoice created in the future"
  let last ← context "invoice expiry overflow" (checkedAdd invoice.created invoice.expiry)
  ensure (time < last || (0 < grace && time ≤ saturatingAdd last grace)) "invoice expired"
  return invoice

/-- Check an x402 payment header for a request at `time`.  On success: the replay key, the payment
    hash, and the time until which the key has to be remembered. -/
def verify (policy : Policy) (hash encoded : String) (time : ℕ) :
    Except String (String × String × ℕ) := do
  ensure policy.receiver.ldk?.isSome "Lightning x402 requires LDK Server"
  ensure (encoded.utf8ByteSize ≤ MAX_PAYMENT_HEADER) "payment too large"
  let json ← context "invalid base64" (X.base64Decode encoded)
  let payment ← context "invalid payment" (X.parsePayment json)
  ensure (payment.x402Version == 2) "unsupported x402 version"
  let accepted := payment.accepted
  let normalized := { accepted with
    extra := { accepted.extra with
      assetTransferMethod := some (accepted.extra.assetTransferMethod.getD "bolt11") } }
  ensure (normalized == policy.requirements hash accepted.extra.invoice)
    "payment terms or request mismatch"
  let invoice ← validateInvoice X policy hash accepted.extra.invoice time SKEW
  let preimage ← decodeHash payment.payload.preimage.toList
  ensure (X.sha256 preimage == invoice.paymentHash) "invalid payment proof"
  return (replayKey policy.receiver.network invoice.paymentHash, hex invoice.paymentHash,
    invoice.retainUntil)

end

/-! ### What acceptance means -/

section

variable {X : Crates} {policy : Policy} {hash encoded : String} {time grace : ℕ}
  {invoice : Bolt11Invoice}

theorem checkPayee_ok_iff {receiver : ReceiverConfig} {u : Unit} :
    checkPayee receiver invoice = .ok u ↔
      ∀ node, receiver.ldk? = some node → invoice.payee = node.payTo := by
  unfold checkPayee
  cases receiver.ldk? with
  | none => simp
  | some node => simp [ensure_eq_ok]

theorem checkDescription_ok_iff {description : Description} {u : Unit} :
    checkDescription hash description = .ok u ↔
      ∃ h, description = .hash h ∧ decodeHash hash.toList = .ok h := by
  cases description with
  | direct text => simp [checkDescription]
  | hash d =>
    simp only [checkDescription, bind_eq_ok, ensure_eq_ok, beq_iff_eq, Description.hash.injEq]
    constructor
    · rintro ⟨h, hh, rfl⟩
      exact ⟨_, rfl, hh⟩
    · rintro ⟨h, rfl, hh⟩
      exact ⟨_, hh, rfl⟩

/-- What a node's invoice has to say beyond the payee. -/
structure ValidNode (node : LdkReceiverConfig) (hash : String) (invoice : Bolt11Invoice) :
    Prop where
  description : ∃ h, invoice.description = .hash h ∧ decodeHash hash.toList = .ok h
  expiry : invoice.expiry = node.expirySeconds.toNat

theorem checkRequest_ok_iff {receiver : ReceiverConfig} {u : Unit} :
    checkRequest receiver hash invoice = .ok u ↔
      ∀ node, receiver.ldk? = some node → ValidNode node hash invoice := by
  unfold checkRequest
  cases receiver.ldk? with
  | none => simp
  | some node =>
    simp only [bind_eq_ok, checkDescription_ok_iff, ensure_eq_ok, exists_const, beq_iff_eq]
    constructor
    · rintro ⟨hd, he⟩ _ ⟨⟩
      exact ⟨hd, he⟩
    · intro h
      obtain ⟨hd, he⟩ := h node rfl
      exact ⟨hd, he⟩

/-- What `validateInvoice` checks. -/
structure ValidInvoice (X : Crates) (policy : Policy) (hash encoded : String) (time grace : ℕ)
    (invoice : Bolt11Invoice) : Prop where
  parsed : X.parseInvoice encoded = some invoice
  signed : X.checkSignature invoice = true
  payee : ∀ node, policy.receiver.ldk? = some node → invoice.payee = node.payTo
  currency : invoice.currency = policy.receiver.network.currency
  amount : invoice.amountMsat = some policy.amountMsat
  node : ∀ node, policy.receiver.ldk? = some node → ValidNode node hash invoice
  created : invoice.created ≤ saturatingAdd time SKEW
  last : invoice.validUntil ≤ u64Max
  live : time < invoice.validUntil ∨
    0 < grace ∧ time ≤ saturatingAdd invoice.validUntil grace

theorem validateInvoice_ok_iff : validateInvoice X policy hash encoded time grace = .ok invoice ↔
    ValidInvoice X policy hash encoded time grace invoice := by
  unfold validateInvoice
  simp only [bind_eq_ok, context_eq_ok, ensure_eq_ok, exists_const, pure_eq_ok, beq_iff_eq,
    decide_eq_true_eq, Bool.or_eq_true, Bool.and_eq_true, checkPayee_ok_iff, checkRequest_ok_iff]
  constructor
  · rintro ⟨inv, hp, hs, hpay, hc, ha, hn, hcr, last, hl, hlive, rfl⟩
    obtain ⟨rfl, hle⟩ := checkedAdd_eq_some hl
    exact ⟨hp, hs, hpay, hc, ha, hn, hcr, hle, hlive⟩
  · intro h
    exact ⟨invoice, h.parsed, h.signed, h.payee, h.currency, h.amount, h.node, h.created,
      invoice.validUntil, checkedAdd_eq h.last, h.live, rfl⟩

theorem ValidInvoice.validateInvoice (h : ValidInvoice X policy hash encoded time grace invoice) :
    validateInvoice X policy hash encoded time grace = .ok invoice :=
  validateInvoice_ok_iff.mpr h

/-- The terms a client accepted, with the default transfer method filled in. -/
def Requirements.normalized (accepted : Requirements) : Requirements :=
  { accepted with
    extra := { accepted.extra with
      assetTransferMethod := some (accepted.extra.assetTransferMethod.getD "bolt11") } }

/-- What `verify` checks of an x402 payment, for the invoice the client echoes. -/
structure ValidPayment (X : Crates) (policy : Policy) (hash encoded : String) (time : ℕ)
    (payment : Payment) (invoice : Bolt11Invoice) : Prop where
  ldk : policy.receiver.ldk?.isSome = true
  size : encoded.utf8ByteSize ≤ MAX_PAYMENT_HEADER
  decoded : X.decodePayment encoded = some payment
  version : payment.x402Version = 2
  terms : payment.accepted.normalized = policy.requirements hash payment.accepted.extra.invoice
  valid : ValidInvoice X policy hash payment.accepted.extra.invoice time SKEW invoice
  preimage : ∃ preimage, decodeHash payment.payload.preimage.toList = .ok preimage ∧
    X.sha256 preimage = invoice.paymentHash

theorem verify_ok_iff {result : String × String × ℕ} :
    verify X policy hash encoded time = .ok result ↔
      ∃ payment invoice, ValidPayment X policy hash encoded time payment invoice ∧
        result = (replayKey policy.receiver.network invoice.paymentHash, hex invoice.paymentHash,
          invoice.retainUntil) := by
  unfold verify
  simp only [bind_eq_ok, context_eq_ok, ensure_eq_ok, exists_const, pure_eq_ok, beq_iff_eq,
    decide_eq_true_eq, validateInvoice_ok_iff]
  constructor
  · rintro ⟨hldk, hsize, json, hjson, payment, hdec, hver, hterms, inv, hinv, pre, hpre, hsha,
      rfl⟩
    exact ⟨payment, inv, ⟨hldk, hsize, Option.bind_eq_some_iff.mpr ⟨json, hjson, hdec⟩, hver,
      hterms, hinv, pre, hpre, hsha⟩, rfl⟩
  · rintro ⟨payment, inv, h, rfl⟩
    obtain ⟨pre, hpre, hsha⟩ := h.preimage
    obtain ⟨json, hjson, hdec⟩ := Option.bind_eq_some_iff.mp h.decoded
    exact ⟨h.ldk, h.size, json, hjson, payment, hdec, h.version, h.terms, inv, h.valid, pre,
      hpre, hsha, rfl⟩

end

end Geata.Lightning
