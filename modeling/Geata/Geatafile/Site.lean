import Mathlib.Data.Finset.Insert
import Geata.Geatafile.Lexer
import Geata.Geatafile.Policy
import Geata.Proxy.Request

namespace Geata.Geatafile

open Geata.Lib Geata.Lightning Geata.Payments
open Geata.Proxy (Limit RateLimiter Upstream Handler)

/-!
# Site blocks

The directives between the braces of a site.  Groups of tokens are not delimited: each directive
decides from what follows how many tokens it takes.

* `groupLength` — how many tokens the group at the start of a list has.
* `SiteBlock` — the variables of `parse_directives`; `directive` — one group.
* `parseDirectives` — the loop, and the checks across directives after it.
-/

variable (X : Geatafile.Crates)

/-! ### Sites -/

structure RequestControls where
  maxBodyBytes : Option UInt64 := some (10 * 1024 * 1024)
  requestTimeout : Option UInt64 := some 60
  ipv6Prefix : UInt8 := 64
  paymentLimit : Limit := { perSecond := 2, burst := 8 }
  deriving DecidableEq

/-- A cap on concurrent requests, which is given out permit by permit while the server runs. -/
structure Capacity where
  max : UInt32
  ipv6Prefix : UInt8
  perClient : UInt32
  deriving DecidableEq

/-- At least half of a cap above one is kept for other clients. -/
def Capacity.new (max : UInt32) : Capacity where
  max := max
  ipv6Prefix := 64
  perClient := if max / 2 = 0 then 1 else max / 2

structure Site where
  domain : String
  https : Bool
  handler : Handler
  rateLimit : Option RateLimiter
  payment : Option PaymentPolicy
  lightning : Option Policy
  capacity : Option Capacity
  controls : RequestControls
  paymentVerification : RateLimiter

/-! ### Domains -/

/-- A label of a domain: letters, digits and inner hyphens. -/
def validLabel (label : List Char) : Bool :=
  !label.isEmpty && decide ((utf8 label).length ≤ 63) && label.head? != some '-' &&
    label.getLast? != some '-' && label.all (fun c => c.isAlphanum || c == '-')

def validDomain (domain : String) (https : Bool) : Bool :=
  if (parseIpAddr domain.toList).isSome then !https
  else if decide (253 < domain.utf8ByteSize) || domain.isEmpty then false
  else if https && (!domain.toList.contains '.' ||
      [".localhost", ".local", ".internal", ".home.arpa"].any
        (fun s => decide (s.toList <:+ domain.toList))) then false
  else (domain.toList.splitOn '.').all validLabel

/-! ### Handlers -/

def parseUpstream (value : String) : Except String Upstream := do
  let value := if decide ("://".toList <:+: value.toList) then value else "http://" ++ value
  let url ← (X.parseUrl value).mapError ("invalid backend address: " ++ ·)
  ensure ((url.scheme == "http" || url.scheme == "https") && url.username.isEmpty &&
      url.password.isNone && url.path == "/" && url.query.isNone && url.fragment.isNone)
    "backend must be an HTTP(S) host and port without credentials, path, query, or fragment"
  let host ← context "backend has no host" url.host
  let port ← context "backend has no port" url.portOrKnownDefault
  ensure (port != 0) "backend port must be nonzero"
  return {
    host := String.ofList (trimBrackets host)
    port
    tls := url.scheme == "https"
    authority := match url.port with
      | some port => host ++ ":" ++ port.toNat.repr
      | none => host }

/-- The text of the `i`-th token. -/
def argument (args : List Token) (i : ℕ) : Option String := args[i]?.bind Token.text

/-- A status code that ends a response. -/
def parseStatus (text : String) : Option ℕ :=
  (parseUnsigned (2 ^ 16) text.toList).filter
    (fun code => text.utf8ByteSize == 3 && decide (200 ≤ code ∧ code ≤ 599))

/-- The status of a response, 200 where none is given. -/
def responseStatus : Option String → Option ℕ
  | none => some 200
  | some text => parseStatus text

/-- The body and the status text of a response: three unquoted digits alone are a status. -/
def splitResponse (args : List Token) : String × Option String :=
  let first := (argument args 0).getD ""
  if args.length == 1 && !args.any Token.quoted && first.utf8ByteSize == 3 &&
      first.toList.all Char.isDigit then ("", some first)
  else (first, argument args 1)

def parseResponse (args : List Token) (line : ℕ) : Except ConfigError Handler := do
  ensure (!args.isEmpty && decide (args.length ≤ 2))
    ⟨line, "expected respond \"body\" [status] or respond <status>"⟩
  let (body, text) := splitResponse args
  let status ← context ⟨line, "respond status must be a final HTTP status from 200 to 599"⟩
    (responseStatus text)
  ensure (!([204, 205, 304].contains status && !body.isEmpty))
    ⟨line, "status 204, 205, or 304 cannot have a response body"⟩
  return .respond body status

/-! ### Directives -/

inductive Directive where
  | reverseProxy
  | respond
  | rateLimit
  | pay
  | lightningPay
  | lightningHeaders
  | lightningProtocols
  | lightningOrigin
  | maxBodyBytes
  | requestTimeout
  | ipv6Prefix
  | paymentVerifyLimit
  | maxInflight
  deriving DecidableEq

/-- The names that `parse_directives` matches. -/
def Directive.ofText : String → Option Directive
  | "reverse_proxy" => some .reverseProxy
  | "rate_limit" => some .rateLimit
  | "payment_verify_limit" => some .paymentVerifyLimit
  | "pay" => some .pay
  | "lightning_pay" => some .lightningPay
  | "max_inflight" => some .maxInflight
  | "max_body_bytes" => some .maxBodyBytes
  | "request_timeout" => some .requestTimeout
  | "ipv6_prefix" => some .ipv6Prefix
  | "lightning_origin" => some .lightningOrigin
  | "lightning_headers" => some .lightningHeaders
  | "lightning_protocols" => some .lightningProtocols
  | "respond" => some .respond
  | _ => none

/-- The names that end the arguments of a directive, in a list of its own. -/
def siteDirective (value : Option String) : Bool :=
  value.any (fun text => ["reverse_proxy", "respond", "rate_limit", "pay", "lightning_pay",
    "lightning_headers", "lightning_protocols", "lightning_origin", "max_body_bytes",
    "request_timeout", "ipv6_prefix", "payment_verify_limit", "max_inflight"].contains text)

/-- The token can be an argument where the number of arguments is open. -/
def Token.continues (token : Token) : Bool := token.quoted || !siteDirective token.text

/-- How many tokens belong to the group that starts with `token`. -/
def groupLength (token : Token) (rest : List Token) : ℕ :=
  match token.text.bind Directive.ofText with
  | some .reverseProxy => 2
  | some .rateLimit | some .paymentVerifyLimit | some .pay | some .lightningPay => 4
  | some .maxInflight | some .maxBodyBytes | some .requestTimeout | some .ipv6Prefix
  | some .lightningOrigin => 2
  | some .lightningHeaders | some .lightningProtocols =>
    1 + (rest.takeWhile Token.continues).length
  -- the body is mandatory; a following directive cannot be its status
  | some .respond => 2 + (if rest[1]?.any Token.continues then 1 else 0)
  | none => 1

/-- The variables of `parse_directives`. -/
structure SiteBlock where
  handler : Option Handler := none
  rateLimit : Option Limit := none
  payment : Option PaymentPolicy := none
  /-- price, unit, receiver and line -/
  lightning : Option (String × String × String × ℕ) := none
  lightningHeaders : Option (List String) := none
  lightningOrigin : Option String := none
  lightningProtocols : Option Protocols := none
  maxInflight : Option UInt32 := none
  controls : RequestControls := {}
  seenControls : Finset String := ∅

/-- The texts of the arguments after the name. -/
def arguments (args : List Token) : List String := args.tail.filterMap Token.text

def parseHeaders (line : ℕ) (args : List Token) : Except ConfigError (List String) := do
  ensure (decide (2 ≤ args.length))
    ⟨line, "expected lightning_headers <names...> or lightning_headers none"⟩
  ensure (args.length == 2 || !(args.tail.any (fun token => token.text == some "none")))
    ⟨line, "lightning_headers none cannot be combined with header names"⟩
  if args.length == 2 && argument args 1 == some "none" then return []
  else return arguments args

/-- `off` is a cap of zero. -/
def parseInflight (text : String) : Option UInt32 :=
  if text == "off" then some 0
  else ((parseUnsigned (2 ^ 32) text.toList).filter
    (fun n => decide (0 < n) && decide (n ≤ 1000000))).map UInt32.ofNat

/-- A control that is `off` or a positive 32-bit number. -/
def parseControl (line : ℕ) (value : String) : Except ConfigError (Option UInt64) :=
  if value == "off" then .ok none
  else context ⟨line, "request control must be off or a positive integer up to 4294967295"⟩
    (((parseUnsigned (2 ^ 64) value.toList).filter
      (fun n => decide (0 < n) && decide (n ≤ 2 ^ 32 - 1))).map (fun n => some (UInt64.ofNat n)))

def parsePrefix (value : String) : Option UInt8 :=
  ((parseUnsigned (2 ^ 8) value.toList).filter (fun n => decide (n ≤ 128))).map UInt8.ofNat

/-- A positive number, in digits only. -/
def positive (text : List Char) : Option UInt32 :=
  ((parseUnsigned (2 ^ 32) text).filter (fun n => decide (0 < n) && text.all Char.isDigit)).map
    UInt32.ofNat

def parseLimit (line : ℕ) (args : List Token) : Except ConfigError Limit := do
  let e : ConfigError :=
    ⟨line, "expected rate limit <positive integer>/s burst <positive integer>"⟩
  ensure (args.length == 4 && argument args 2 == some "burst") e
  let perSecond ← context e (((argument args 1).bind (stripSuffix "/s")).bind positive)
  let burst ← context e ((argument args 3).bind (fun text => positive text.toList))
  return { perSecond, burst }

def parseHandler (directive : Directive) (line : ℕ) (args : List Token) :
    Except ConfigError Handler :=
  if directive == .reverseProxy && args.length == 2 then
    ((parseUpstream X ((argument args 1).getD "")).map Handler.proxy).mapError (⟨line, ·⟩)
  else if directive == .respond then parseResponse args.tail line
  else .error ⟨line, "expected reverse_proxy <backend>"⟩

namespace SiteBlock

/-- A request control, of which each stands once. -/
def control (state : SiteBlock) (name : String) (line : ℕ) (args : List Token)
    (set : RequestControls → String → Except ConfigError RequestControls) :
    Except ConfigError SiteBlock := do
  ensure (decide (name ∉ state.seenControls)) ⟨line, "duplicate request control"⟩
  let value ← context ⟨line, "missing request control value"⟩ (argument args 1)
  let controls ← set state.controls value
  return { state with controls, seenControls := insert name state.seenControls }

/-- A rate limit, of which each stands once. -/
def limit (state : SiteBlock) (name : String) (line : ℕ) (args : List Token)
    (set : SiteBlock → Limit → SiteBlock) : Except ConfigError SiteBlock := do
  ensure (decide (name ∉ state.seenControls)) ⟨line, "duplicate " ++ name ++ " directive"⟩
  let limit ← parseLimit line args
  return set { state with seenControls := insert name state.seenControls } limit

/-- One group of tokens; `args` starts with the name. -/
def directive (state : SiteBlock) (line : ℕ) (args : List Token) :
    Directive → Except ConfigError SiteBlock
  | .lightningPay => do
    ensure state.lightning.isNone ⟨line, "duplicate lightning_pay directive"⟩
    ensure (args.length == 4) ⟨line, "expected lightning_pay <price> sat <receiver name>"⟩
    let price := (argument args 1).getD ""
    let unit := (argument args 2).getD ""
    let name := (argument args 3).getD ""
    return { state with lightning := some (price, unit, name, line) }
  | .lightningProtocols => do
    ensure state.lightningProtocols.isNone ⟨line, "duplicate lightning_protocols directive"⟩
    let protocols ← (Protocols.parse (arguments args)).mapError (⟨line, ·⟩)
    return { state with lightningProtocols := some protocols }
  | .lightningHeaders => do
    ensure state.lightningHeaders.isNone ⟨line, "duplicate lightning_headers directive"⟩
    let headers ← parseHeaders line args
    return { state with lightningHeaders := some headers }
  | .lightningOrigin => do
    ensure state.lightningOrigin.isNone ⟨line, "duplicate lightning_origin directive"⟩
    ensure (args.length == 2) ⟨line, "expected lightning_origin <public HTTP(S) origin>"⟩
    return { state with lightningOrigin := some ((argument args 1).getD "") }
  | .pay => do
    ensure state.payment.isNone ⟨line, "duplicate pay directive"⟩
    ensure (args.length == 4) ⟨line, "expected pay <price> sat <mint URL>"⟩
    let policy ← (PaymentPolicy.parse X ((argument args 1).getD "") ((argument args 2).getD "")
      ((argument args 3).getD "")).mapError (⟨line, ·⟩)
    return { state with payment := some policy }
  | .maxInflight => do
    ensure state.maxInflight.isNone ⟨line, "duplicate max_inflight directive"⟩
    let max ← context ⟨line, "max_inflight must be off or between 1 and 1000000"⟩
      ((argument args 1).bind parseInflight)
    return { state with maxInflight := some max }
  | .maxBodyBytes =>
    state.control "max_body_bytes" line args (fun controls value =>
      (parseControl line value).map (fun bytes => { controls with maxBodyBytes := bytes }))
  | .requestTimeout =>
    state.control "request_timeout" line args (fun controls value =>
      (parseControl line value).map (fun seconds => { controls with requestTimeout := seconds }))
  | .ipv6Prefix =>
    state.control "ipv6_prefix" line args (fun controls value =>
      (context ⟨line, "ipv6_prefix must be 0 through 128"⟩ (parsePrefix value)).map
        (fun bits => { controls with ipv6Prefix := bits }))
  | .rateLimit =>
    state.limit "rate_limit" line args (fun state limit => { state with rateLimit := some limit })
  | .paymentVerifyLimit =>
    state.limit "payment_verify_limit" line args (fun state limit =>
      { state with controls := { state.controls with paymentLimit := limit } })
  | .reverseProxy => handle .reverseProxy
  | .respond => handle .respond
where
  /-- The handler, of which there is one. -/
  handle (directive : Directive) : Except ConfigError SiteBlock := do
    ensure state.handler.isNone
      ⟨line, "expected exactly one reverse_proxy or respond directive per site"⟩
    let handler ← parseHandler X directive line args
    return { state with handler := some handler }

end SiteBlock

/-- The loop of `parse_directives`, with fuel for its tokens. -/
def directives : (fuel : ℕ) → SiteBlock → List Token → Except ConfigError SiteBlock
  | 0, state, _ | _, state, [] => .ok state
  | fuel + 1, state, token :: rest => do
    let count := groupLength token rest
    let name ← context
      ⟨token.line, "unknown directive; expected reverse_proxy, respond, rate_limit, pay, lightning_pay, lightning_headers, lightning_origin, lightning_protocols, max_inflight, max_body_bytes, request_timeout, ipv6_prefix, or payment_verify_limit"⟩
      (token.text.bind Directive.ofText)
    let state ← state.directive X token.line ((token :: rest).take count) name
    directives fuel state ((token :: rest).drop count)

structure ParsedDirectives where
  handler : Handler
  rateLimit : Option Limit
  payment : Option PaymentPolicy
  lightning : Option Policy
  maxInflight : Option UInt32
  controls : RequestControls

/-- The Lightning policy of a site, from the directives it is spread over. -/
def SiteBlock.policy (state : SiteBlock) (line : ℕ) (receivers : Table ReceiverConfig)
    (domain : String) (https : Bool) : Except ConfigError (Option Policy) :=
  match state.lightning with
  | some (price, unit, name, line) => do
    let receiver ← context ⟨line, "unknown Lightning receiver: " ++ name⟩ (receivers.lookup name)
    let headers ← context
      ⟨line, "lightning_pay requires lightning_headers; use none only when no headers affect the request"⟩
      state.lightningHeaders
    let origin := state.lightningOrigin.getD ((if https then "https" else "http") ++ "://" ++ domain)
    let policy ← (Policy.new X price unit receiver origin headers
      (state.lightningProtocols.getD Protocols.default)).mapError (⟨line, ·⟩)
    return some policy
  | none => do
    ensure (state.lightningHeaders.isNone && state.lightningOrigin.isNone &&
        state.lightningProtocols.isNone)
      ⟨line, "lightning_headers, lightning_origin, and lightning_protocols require lightning_pay"⟩
    return none

/-- What follows the loop of `parse_directives`. -/
def SiteBlock.finish (state : SiteBlock) (line : ℕ) (receivers : Table ReceiverConfig)
    (domain : String) (https : Bool) : Except ConfigError ParsedDirectives := do
  let handler ← context
    ⟨line, "expected exactly one reverse_proxy or respond directive per site"⟩ state.handler
  let lightning ← state.policy X line receivers domain https
  return {
    handler, rateLimit := state.rateLimit, payment := state.payment, lightning
    maxInflight := state.maxInflight, controls := state.controls }

def parseDirectives (tokens : List Token) (line : ℕ) (receivers : Table ReceiverConfig)
    (domain : String) (https : Bool) : Except ConfigError ParsedDirectives := do
  let state ← directives X tokens.length {} tokens
  state.finish X line receivers domain https

end Geata.Geatafile
