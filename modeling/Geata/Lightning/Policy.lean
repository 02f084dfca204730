import Geata.Lib.Json
import Geata.Lib.Word

namespace Geata.Lightning

open Geata.Lib

/-!
# Lightning policies and their payment terms

What a site charges and for whom: the receiver (an LDK node or a Cashu mint), the public origin,
the bound headers and the enabled protocols.  `Policy.requirements` is the object a client is
asked to echo; its two JSON forms are the ones the terms digest is taken over.
-/

/-! ### Constants -/

/-- Clock skew tolerated at settlement, in seconds. -/
def SKEW : ℕ := 60

/-- How long a quote and a replay barrier outlive the invoice. -/
def QUOTE_PRUNE_GRACE : ℕ := SKEW + 3600

theorem SKEW_eq : SKEW = 60 := rfl

theorem QUOTE_PRUNE_GRACE_eq : QUOTE_PRUNE_GRACE = 3660 := rfl

/-- Cap on outstanding L402 roots plus mint quote associations. -/
def MAX_CHALLENGE_RECORDS : ℕ := 10000

/-- Largest accepted payment header, in bytes. -/
def MAX_PAYMENT_HEADER : ℕ := 24 * 1024

/-- Largest request body a payment can be bound to, in bytes. -/
def MAX_BODY : ℕ := 64 * 1024

/-! ### Errors -/

/-- What a failed settlement tells the client. -/
inductive Error where
  | invalid
  | unavailable
  deriving DecidableEq

def Error.text : Error → String
  | .invalid => "Invalid, expired, or already used Lightning payment."
  | .unavailable => "Lightning payments temporarily unavailable."

/-! ### Receivers -/

/-- The two networks a receiver can be configured for. -/
inductive Network where
  | mainnet
  | testnet
  deriving DecidableEq, Repr

/-- The network's identifier, as stored in policies and replay keys. -/
def Network.id : Network → String
  | .mainnet => "lnbtc:000000000019d6689c085ae165831e93"
  | .testnet => "lnbtc:000000000933ea01ad0ee984209779ba"

theorem Network.id_injective {a b : Network} (h : a.id = b.id) : a = b := by
  cases a <;> cases b <;> first | rfl | exact absurd h (by decide)

/-- An LDK Server node. -/
structure LdkReceiverConfig where
  endpoint : String
  macaroonFile : String
  tlsCertFile : String
  payTo : String
  network : Network
  expirySeconds : UInt32
  deriving DecidableEq

/-- Where invoices come from. -/
inductive ReceiverConfig where
  | ldk (node : LdkReceiverConfig)
  | cashu (mint : String) (network : Network)
  deriving DecidableEq

namespace ReceiverConfig

def network : ReceiverConfig → Network
  | .ldk node => node.network
  | .cashu _ network => network

/-- The node, if invoices come from LDK Server (`ReceiverConfig::ldk`). -/
def ldk? : ReceiverConfig → Option LdkReceiverConfig
  | .ldk node => some node
  | _ => none

/-- The mint, if invoices come from a Cashu mint (`ReceiverConfig::mint`). -/
def mint? : ReceiverConfig → Option String
  | .cashu mint _ => some mint
  | _ => none

end ReceiverConfig

/-- The enabled Lightning protocols of a site. -/
structure Protocols where
  x402 : Bool
  l402 : Bool
  deriving DecidableEq

/-- A site's Lightning price and binding. -/
structure Policy where
  amountMsat : UInt64
  receiver : ReceiverConfig
  origin : String
  headers : List String
  protocols : Protocols
  deriving DecidableEq

/-- The binding profile named in the payment terms. -/
def Policy.bindingProfile (policy : Policy) : String :=
  if policy.headers.isEmpty then "http:1" else "geata:http:2"

/-- The price in whole sats, as a mint deposit has it. -/
def Policy.amountSat (policy : Policy) : UInt64 := policy.amountMsat / 1000

/-! ### Payment terms -/

structure BindingParams where
  headers : List String
  deriving DecidableEq

structure Extra where
  assetTransferMethod : Option String
  paymentFlow : String
  requestHash : String
  requestBindingProfile : String
  requestBindingParams : BindingParams
  invoice : String
  deriving DecidableEq

/-- The terms a client accepts by echoing them. -/
structure Requirements where
  scheme : String
  network : String
  amount : String
  asset : String
  payTo : String
  maxTimeoutSeconds : UInt32
  extra : Extra
  deriving DecidableEq

/-- The terms of `policy` for the request `hash`, to be paid by `invoice`. -/
def Policy.requirements (policy : Policy) (hash invoice : String) : Requirements where
  scheme := "exact"
  network := policy.receiver.network.id
  amount := policy.amountMsat.toNat.repr
  asset := "BTC"
  payTo := (policy.receiver.ldk?.map LdkReceiverConfig.payTo).getD ""
  maxTimeoutSeconds := (policy.receiver.ldk?.map LdkReceiverConfig.expirySeconds).getD 0
  extra := {
    assetTransferMethod := some "bolt11"
    paymentFlow := "upfront"
    requestHash := hash
    requestBindingProfile := policy.bindingProfile
    requestBindingParams := { headers := policy.headers }
    invoice := invoice }

/-! ### Their JSON

A struct is written in field order.  Inside `json!` it first becomes a `Value`, whose maps are
sorted by key (`serde_json` is built without `preserve_order`). -/

/-- An optional string. -/
def optionJson : Option String → Json
  | none => .null
  | some s => .str s

/-- `serde_json::to_vec(&params)`; one member, so both forms agree. -/
def BindingParams.toJson (p : BindingParams) : Json :=
  .obj [("headers", .arr (p.headers.map .str))]

def Extra.toJson (e : Extra) : Json :=
  .obj [("assetTransferMethod", optionJson e.assetTransferMethod),
    ("paymentFlow", .str e.paymentFlow),
    ("requestHash", .str e.requestHash),
    ("requestBindingProfile", .str e.requestBindingProfile),
    ("requestBindingParams", e.requestBindingParams.toJson),
    ("invoice", .str e.invoice)]

def Requirements.toJson (r : Requirements) : Json :=
  .obj [("scheme", .str r.scheme),
    ("network", .str r.network),
    ("amount", .str r.amount),
    ("asset", .str r.asset),
    ("payTo", .str r.payTo),
    ("maxTimeoutSeconds", .num r.maxTimeoutSeconds.toNat),
    ("extra", r.extra.toJson)]

/-- `Extra` as a `Value`: the same members, sorted. -/
def Extra.toValue (e : Extra) : Json :=
  .obj [("assetTransferMethod", optionJson e.assetTransferMethod),
    ("invoice", .str e.invoice),
    ("paymentFlow", .str e.paymentFlow),
    ("requestBindingParams", e.requestBindingParams.toJson),
    ("requestBindingProfile", .str e.requestBindingProfile),
    ("requestHash", .str e.requestHash)]

/-- `Requirements` as a `Value`: the same members, sorted. -/
def Requirements.toValue (r : Requirements) : Json :=
  .obj [("amount", .str r.amount),
    ("asset", .str r.asset),
    ("extra", r.extra.toValue),
    ("maxTimeoutSeconds", .num r.maxTimeoutSeconds.toNat),
    ("network", .str r.network),
    ("payTo", .str r.payTo),
    ("scheme", .str r.scheme)]

theorem optionJson_injective {a b : Option String} (h : optionJson a = optionJson b) : a = b := by
  cases a <;> cases b <;> simp_all [optionJson]

theorem map_str_injective {a b : List String} (h : a.map Json.str = b.map Json.str) : a = b :=
  List.map_injective_iff.mpr (fun _ _ he => Json.str.inj he) h

theorem BindingParams.toJson_injective {a b : BindingParams} (h : a.toJson = b.toJson) :
    a = b := by
  cases a; cases b
  simp only [toJson, Json.obj.injEq, List.cons.injEq, Prod.mk.injEq, Json.arr.injEq, true_and,
    and_true] at h
  rw [map_str_injective h]

theorem Extra.toJson_injective {a b : Extra} (h : a.toJson = b.toJson) : a = b := by
  cases a; cases b
  simp only [toJson, Json.obj.injEq, List.cons.injEq, Prod.mk.injEq, Json.str.injEq, true_and,
    and_true] at h
  obtain ⟨h₁, rfl, rfl, rfl, h₂, rfl⟩ := h
  rw [optionJson_injective h₁, BindingParams.toJson_injective h₂]

theorem Extra.toValue_injective {a b : Extra} (h : a.toValue = b.toValue) : a = b := by
  cases a; cases b
  simp only [toValue, Json.obj.injEq, List.cons.injEq, Prod.mk.injEq, Json.str.injEq, true_and,
    and_true] at h
  obtain ⟨h₁, rfl, rfl, h₂, rfl, rfl⟩ := h
  rw [optionJson_injective h₁, BindingParams.toJson_injective h₂]

theorem Requirements.toJson_injective {a b : Requirements} (h : a.toJson = b.toJson) : a = b := by
  cases a; cases b
  simp only [toJson, Json.obj.injEq, List.cons.injEq, Prod.mk.injEq, Json.str.injEq,
    Json.num.injEq, UInt32.toNat_inj, true_and, and_true] at h
  obtain ⟨rfl, rfl, rfl, rfl, rfl, rfl, h₁⟩ := h
  rw [Extra.toJson_injective h₁]

theorem Requirements.toValue_injective {a b : Requirements} (h : a.toValue = b.toValue) :
    a = b := by
  cases a; cases b
  simp only [toValue, Json.obj.injEq, List.cons.injEq, Prod.mk.injEq, Json.str.injEq,
    Json.num.injEq, UInt32.toNat_inj, true_and, and_true] at h
  obtain ⟨rfl, rfl, h₁, rfl, rfl, rfl, rfl⟩ := h
  rw [Extra.toValue_injective h₁]

/-! ### What the terms pin down -/

/-- The parts of two policies and requests that equal terms force to agree: the request hash, the
    network, the price, the bound header names, and what the terms say about the receiver. -/
structure SameTerms (p p' : Policy) (hash hash' : String) : Prop where
  hash : hash = hash'
  network : p.receiver.network = p'.receiver.network
  amount : p.amountMsat = p'.amountMsat
  headers : p.headers = p'.headers
  payTo : (p.receiver.ldk?.map LdkReceiverConfig.payTo).getD ""
    = (p'.receiver.ldk?.map LdkReceiverConfig.payTo).getD ""
  expiry : (p.receiver.ldk?.map LdkReceiverConfig.expirySeconds).getD 0
    = (p'.receiver.ldk?.map LdkReceiverConfig.expirySeconds).getD 0

/-- Equal requirements force the terms to agree. -/
theorem sameTerms_of_requirements {p p' : Policy} {hash hash' invoice invoice' : String}
    (h : p.requirements hash invoice = p'.requirements hash' invoice') :
    SameTerms p p' hash hash' := by
  simp only [Policy.requirements, Requirements.mk.injEq, Extra.mk.injEq, BindingParams.mk.injEq,
    true_and] at h
  obtain ⟨hnet, hamount, hpay, hexp, hhash, -, hheaders, -⟩ := h
  exact ⟨hhash, Network.id_injective hnet, UInt64.toNat_inj.mp (repr_injective hamount),
    hheaders, hpay, hexp⟩

theorem SameTerms.requirements {p p' : Policy} {hash hash' : String}
    (h : SameTerms p p' hash hash') (invoice : String) :
    p.requirements hash invoice = p'.requirements hash' invoice := by
  simp only [Policy.requirements, Policy.bindingProfile, h.hash, h.network, h.amount, h.headers,
    h.payTo, h.expiry]

end Geata.Lightning
