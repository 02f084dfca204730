import Geata.Lib.Net
import Geata.Lib.Table
import Geata.Lightning.Policy
import Geata.Payments.Payout

namespace Geata.Geatafile

open Geata.Lib Geata.Lightning Geata.Payments

/-!
# Prices, receivers and payouts as they are configured

The parsers behind `pay`, `lightning_pay`, `lightning <name>` and `cashu_payout`, with the texts of
their errors.

* `settings` — the name and value pairs of a receiver or a payout, each name once.
* `ReceiverConfig.parse`, `Policy.new` — Lightning receivers and what a site asks of them.
* `PayoutPolicy.parse` — automatic payouts.
-/

/-- What `url::Url` tells about a parsed URL. -/
structure Url where
  /-- the URL in its normal form -/
  text : String
  scheme : String
  username : String
  password : Option String
  host : Option String
  port : Option UInt16
  portOrKnownDefault : Option UInt16
  path : String
  query : Option String
  fragment : Option String
  /-- `Url::origin`, as ASCII -/
  origin : String
  deriving DecidableEq

/-- The functions of other crates that the configuration is read with. -/
structure Crates extends payments : Payments.Crates where
  /-- `Url::parse` -/
  parseUrl : String → Except String Url
  /-- `MintUrl::from_str` -/
  parseMintUrl : String → Except String String
  /-- `serde_json::from_str` at `String` -/
  fromJson : String → Except String String
  /-- whether `secp256k1::PublicKey` can be read -/
  publicKey : String → Bool
  /-- whether `HeaderName::from_bytes` accepts a name -/
  headerName : String → Bool

variable (X : Geatafile.Crates)

/-- A host without the brackets around an IPv6 address. -/
def trimBrackets (host : String) : List Char :=
  ((host.toList.dropWhile (fun c => c == '[' || c == ']')).reverse.dropWhile
    (fun c => c == '[' || c == ']')).reverse

def loopback (url : Url) : Bool :=
  url.host.any (fun host =>
    host == "localhost" || (parseIpAddr (trimBrackets host)).any IpAddr.isLoopback)

/-! ### Cashu prices -/

def parseMint (value : String) : Except String String := do
  let url ← (X.parseUrl value).mapError (fun _ => "invalid Cashu mint URL")
  ensure (url.scheme == "https" || (url.scheme == "http" && loopback url))
    "Cashu mint must use HTTPS (HTTP is allowed for loopback tests)"
  ensure (url.host.isSome && url.username.isEmpty && url.password.isNone && url.query.isNone &&
      url.fragment.isNone)
    "Cashu mint URL must not contain credentials, query, or fragment"
  X.parseMintUrl url.text

def PaymentPolicy.parse (price unit mint : String) : Except String PaymentPolicy := do
  let price ← context "payment price must be a positive integer"
    ((parseUnsigned (2 ^ 32) price.toList).filter (fun n => decide (0 < n)))
  ensure (unit == "sat") "payments currently support sat only"
  let mint ← parseMint X mint
  return { price := UInt32.ofNat price, mint }

/-! ### Settings -/

/-- The names and values of a block. -/
def pairs : List String → List (String × String)
  | key :: value :: rest => (key, value) :: pairs rest
  | _ => []

/-- Collect settings, of which every name is known and stands once. -/
def settings (known : List String) (unknown duplicate : String → String) :
    List (String × String) → Table String → Except String (Table String)
  | [], fields => .ok fields
  | (key, value) :: rest, fields => do
    ensure (known.contains key) (unknown key)
    ensure (fields.lookup key).isNone (duplicate key)
    settings known unknown duplicate rest (fields.insert key value)

/-! ### Lightning receivers -/

/-- `Path::is_absolute` -/
def isAbsolute (path : String) : Bool := path.toList.head? == some '/'

def lowercaseHex (value : String) : Bool := value.toList.all isLowerHex

def LdkReceiverConfig.validate (node : LdkReceiverConfig) : Except String Unit := do
  let endpoint ← X.parseUrl node.endpoint
  ensure (endpoint.scheme == "https" && endpoint.host.isSome && endpoint.username.isEmpty &&
      endpoint.password.isNone && endpoint.query.isNone && endpoint.fragment.isNone &&
      endpoint.path == "/")
    "ldk-server endpoint must be an HTTPS origin"
  ensure (isAbsolute node.macaroonFile && isAbsolute node.tlsCertFile)
    "receiver credential paths must be absolute"
  ensure (node.payTo.utf8ByteSize == 66 && lowercaseHex node.payTo && X.publicKey node.payTo)
    "pay_to must be a compressed lowercase node public key"
  ensure (decide (0 < node.expirySeconds) && decide (node.expirySeconds ≤ 86400))
    "invoice expiry must be 1..86400 seconds"

/-- The network is one of the two by its type. -/
def ReceiverConfig.validate : ReceiverConfig → Except String Unit
  | .ldk node => LdkReceiverConfig.validate X node
  | .cashu mint _ => do
    let _ ← parseMint X mint

def parseNetwork : String → Option Network
  | "mainnet" => some .mainnet
  | "testnet" => some .testnet
  | _ => none

/-- The expiry of invoices, in seconds. -/
def parseExpiry : Option String → Except String ℕ
  | none => .ok 300
  | some value =>
    context (parseIntError (2 ^ 32) value.toList) (parseUnsigned (2 ^ 32) value.toList)

/-- The node of a receiver, from its settings. -/
def parseLdk (fields : Table String) (network : Network) : Except String LdkReceiverConfig := do
  let required (key : String) : Except String String :=
    context ("missing Lightning receiver setting: " ++ key) (fields.lookup key)
  let endpoint ← required "endpoint"
  let macaroonFile ← required "macaroon_file"
  let tlsCertFile ← required "tls_cert_file"
  let payTo ← required "pay_to"
  let expiry ← parseExpiry (fields.lookup "expiry_seconds")
  let node : LdkReceiverConfig :=
    { endpoint, macaroonFile, tlsCertFile, payTo, network, expirySeconds := UInt32.ofNat expiry }
  LdkReceiverConfig.validate X node
  return node

def ReceiverConfig.parse (args : List String) : Except String ReceiverConfig := do
  ensure (args.length % 2 == 0) "Lightning receiver settings need a name and value"
  let fields ← settings
    ["mint", "endpoint", "macaroon_file", "tls_cert_file", "pay_to", "network", "expiry_seconds"]
    ("unknown Lightning receiver setting: " ++ ·) ("duplicate Lightning receiver setting: " ++ ·)
    (pairs args) ∅
  let network ← context "missing Lightning receiver setting: network" (fields.lookup "network")
  let network ← context "Lightning network must be mainnet or testnet" (parseNetwork network)
  match fields.lookup "mint" with
  | some mint => do
    ensure (fields.keys.all (fun key => key == "mint" || key == "network"))
      "Cashu receivers accept only mint and network; do not mix LDK settings"
    let mint ← parseMint X mint
    return .cashu mint network
  | none => do
    let node ← parseLdk X fields network
    return .ldk node

/-! ### Lightning policies -/

/-- The protocols of a site that names none. -/
def Protocols.default : Protocols where
  x402 := true
  l402 := false

/-- Whether a protocol was enabled, and the protocols with it. -/
def Protocols.switch (protocols : Protocols) : String → Except String (Bool × Protocols)
  | "x402" => .ok (protocols.x402, { protocols with x402 := true })
  | "l402" => .ok (protocols.l402, { protocols with l402 := true })
  | name => .error ("unknown Lightning protocol: " ++ name)

/-- Enable the named protocols, each once. -/
def Protocols.enable : Protocols → List String → Except String Protocols
  | protocols, [] => .ok protocols
  | protocols, name :: names => do
    let (enabled, next) ← Protocols.switch protocols name
    ensure (!enabled) ("duplicate Lightning protocol: " ++ name)
    Protocols.enable next names

def Protocols.parse (names : List String) : Except String Protocols := do
  ensure (!names.isEmpty) "lightning_protocols requires x402, l402, or both"
  Protocols.enable { x402 := false, l402 := false } names

/-- Each name comes before the next one. -/
def sorted : List String → Bool
  | a :: b :: rest => decide (a < b) && sorted (b :: rest)
  | _ => true

/-- A header that a payment can be bound to. -/
def bindable (name : String) : Bool :=
  name.toList == toAsciiLowercase name.toList && X.headerName name &&
    !(["payment-signature", "x-cashu", "connection", "transfer-encoding", "trailer"].contains name)

def Policy.validateBinding (policy : Policy) : Except String Unit := do
  ensure (policy.receiver.mint?.isNone || (policy.protocols.l402 && !policy.protocols.x402))
    "Cashu receivers require lightning_protocols l402; Lightning x402 requires LDK Server"
  ensure (!policy.protocols.l402 || !policy.headers.contains "authorization")
    "L402 reserves Authorization for payment; remove authorization from lightning_headers and use a bound cookie or custom header for backend authentication"
  let origin ← X.parseUrl policy.origin
  ensure ((origin.scheme == "http" || origin.scheme == "https") && origin.host.isSome &&
      origin.username.isEmpty && origin.password.isNone && origin.query.isNone &&
      origin.fragment.isNone && origin.path == "/" && policy.origin == origin.origin)
    "origin must be a canonical HTTP(S) origin without trailing slash"
  ensure (sorted policy.headers) "bound headers must be sorted and unique"
  ensure (policy.headers.all (bindable X)) "invalid bound header name"

def Policy.new (price unit : String) (receiver : ReceiverConfig) (origin : String)
    (headers : List String) (protocols : Protocols) : Except String Policy := do
  ensure (!price.isEmpty && price.toList.all Char.isDigit)
    "Lightning price must be a positive integer"
  let price ← context (parseIntError (2 ^ 64) price.toList) (parseUnsigned (2 ^ 64) price.toList)
  ensure (decide (0 < price) && unit == "sat") "Lightning price must use positive whole sats"
  ReceiverConfig.validate X receiver
  let amountMsat ← context "Lightning price overflow"
    (if price * 1000 ≤ u64Max then some (UInt64.ofNat (price * 1000)) else none)
  let policy : Policy := { amountMsat, receiver, origin, headers, protocols }
  Policy.validateBinding X policy
  return policy

def Policy.checkSite (policy : Policy) (domain : String) (https : Bool) : Except String Unit := do
  let origin ← X.parseUrl policy.origin
  ensure (origin.host == some domain && (origin.scheme == "https") == https)
    "Lightning origin must match its Geata site"

/-! ### Payouts -/

/-- The seconds that the last letter of an interval stands for. -/
def intervalUnit : Char → Option ℤ
  | 's' => some 1
  | 'm' => some 60
  | 'h' => some 3600
  | 'd' => some 86400
  | _ => none

def parseInterval (value : String) : Except String ℤ := do
  let multiplier ← context "interval requires s, m, h, or d suffix"
    (value.toList.getLast?.bind intervalUnit)
  let seconds ← context "invalid interval"
    (((parseSigned 64 value.toList.dropLast).map (· * multiplier)).filter
      (fun n => decide (-2 ^ 63 ≤ n ∧ n < 2 ^ 63)))
  ensure (decide (1 ≤ seconds ∧ seconds ≤ 31536000)) "interval must be between 1s and 365d"
  return seconds

/-- The text of an error of `validate_request`, which only has messages. -/
def requestError : Failure → String
  | .message text => text
  | _ => ""

/-- A number of sats among the settings of a payout, if it is there. -/
def parseSats (e : String) : Option String → Except String (Option UInt64)
  | none => .ok none
  | some value => do
    let n ← context e (parseUnsigned (2 ^ 64) value.toList)
    return some (UInt64.ofNat n)

/-- When a payout is made: regularly, from a balance on, or both. -/
def parseTriggers (values : Table String) : Except String (Option ℤ × Option UInt64) := do
  let interval ← (values.lookup "interval").mapM parseInterval
  let threshold ← parseSats "invalid threshold" (values.lookup "threshold")
  ensure (threshold != some 0) "threshold must be positive"
  ensure (interval.isSome || threshold.isSome) "payout requires interval or threshold"
  return (interval, threshold)

def PayoutPolicy.parse (args : List String) : Except String PayoutPolicy := do
  ensure (args.length % 2 == 0) "payout directives require a value"
  let values ← settings ["mint", "request", "amount", "max_fee", "interval", "threshold"]
    (fun _ => "unknown payout directive") (fun _ => "duplicate payout directive") (pairs args) ∅
  let mint ← context "payout requires mint" (values.lookup "mint")
  let mint ← parseMint X mint
  let amount ← parseSats "invalid payout amount" (values.lookup "amount")
  let encoded ← context "payout requires request" (values.lookup "request")
  let (request, amount) ← (validateRequest X.payments encoded mint amount).mapError requestError
  ensure (request.singleUse != some true) "automatic payout requires a reusable payment request"
  let maxFee ← context "payout requires max_fee in sats" (values.lookup "max_fee")
  let maxFee ← context "invalid max_fee"
    ((parseUnsigned (2 ^ 64) maxFee.toList).map UInt64.ofNat)
  if fits : amount.toNat + maxFee.toNat ≤ u64Max then
    let (interval, threshold) ← parseTriggers values
    return { mint, request, amount, maxFee, interval, threshold, fits }
  else .error "payout amount plus fee overflows"

end Geata.Geatafile
