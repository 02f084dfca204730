import Geata.Lib.Net
import Geata.Lightning.Binding
import Geata.Payments.Policy

namespace Geata.Proxy

open Geata.Lib Geata.Lightning Geata.Payments

/-!
# Requests, sites and responses

The parts of an incoming request and of a site's configuration that the request filter looks at,
and the responses it gives.
-/

/-! ### Requests -/

/-- A request target. -/
structure Uri where
  scheme : Option String
  authority : Option String
  path : String
  pathAndQuery : Option String

structure Request where
  method : String
  uri : Uri
  headers : HeaderMap
  /-- The peer's IP address, if it has one. -/
  client : Option IpAddr

/-- The first value of a header (`HeaderMap::get`). -/
def header (headers : HeaderMap) (name : String) : Option HeaderValue :=
  (headers.getAll name).head?

/-- `HeaderMap::contains_key` -/
def containsKey (headers : HeaderMap) (name : String) : Bool := !(headers.getAll name).isEmpty

/-- `RequestHeader::remove_header` -/
def removeHeader (headers : HeaderMap) (name : String) : HeaderMap :=
  headers.filter (fun h => h.1.toList ≠ toAsciiLowercase name.toList)

/-- The authority the client asked for: the `Host` header, or the one in the target. -/
def Request.authority (request : Request) : Option String :=
  ((header request.headers "host").bind HeaderValue.toStr).or request.uri.authority

/-- A parsed authority. -/
structure Authority where
  text : String
  host : String

/-- Drop the characters of `cs` from both ends (`str::trim_matches`). -/
def trimMatches (cs : List Char) (l : List Char) : List Char :=
  ((l.dropWhile (· ∈ cs)).reverse.dropWhile (· ∈ cs)).reverse

/-- Drop the characters of `cs` from the end (`str::trim_end_matches`). -/
def trimEndMatches (cs : List Char) (l : List Char) : List Char :=
  (l.reverse.dropWhile (· ∈ cs)).reverse

/-- The configured domain an authority names. -/
def requestDomain (parseAuthority : String → Option Authority) (text : String) :
    Option String := do
  let authority ← parseAuthority text
  if authority.text.toList.contains '@' then none
  else some (String.ofList (toAsciiLowercase
    (trimEndMatches ['.'] (trimMatches ['[', ']'] authority.host.toList))))

/-! ### Sites -/

structure Limit where
  perSecond : UInt32
  burst : UInt32
  deriving DecidableEq

/-- A token bucket limiter's parameters. -/
structure RateLimiter where
  limit : Limit
  ipv6Prefix : UInt8
  deriving DecidableEq

structure RequestControls where
  maxBodyBytes : Option ℕ

structure Upstream where
  host : String
  port : UInt16
  tls : Bool
  authority : String

inductive Handler where
  | proxy (upstream : Upstream)
  | respond (body : String) (status : ℕ)

structure Site where
  domain : String
  https : Bool
  handler : Handler
  rateLimit : Option RateLimiter
  payment : Option PaymentPolicy
  lightning : Option Policy
  /-- The site-wide limit on concurrent requests. -/
  capacity : Option ℕ
  controls : RequestControls
  paymentVerification : RateLimiter

/-- The site takes L402 credentials. -/
def Site.l402Enabled (site : Site) : Bool := site.lightning.any (fun p => p.protocols.l402)

/-- Every request is free: no allowance and no price is configured. -/
def Site.unlimited (site : Site) : Bool :=
  site.rateLimit.isNone && site.payment.isNone && site.lightning.isNone

/-! ### Responses -/

structure Response where
  status : ℕ
  body : String
  headers : List (String × String) := []

/-- How the filter leaves a request. -/
inductive Outcome where
  /-- The filter answered the request itself. -/
  | answered (response : Response)
  /-- The filter gave up with an internal error. -/
  | failed (reason : String)
  /-- The configured response was served. -/
  | served (response : Response)
  /-- The request goes on to the upstream, with these headers and this receipt. -/
  | proxied (headers : HeaderMap) (receipt : Option String)

/-- The request got through to the site's handler. -/
def Outcome.reached : Outcome → Bool
  | .served _ => true
  | .proxied _ _ => true
  | _ => false

/-- How long a limiter asks to wait. -/
structure Wait where
  secs : ℕ
  nanos : ℕ

/-- Whole seconds, rounded up. -/
def Wait.roundedUp (wait : Wait) : ℕ :=
  saturatingAdd wait.secs (if wait.nanos ≠ 0 then 1 else 0)

end Geata.Proxy
