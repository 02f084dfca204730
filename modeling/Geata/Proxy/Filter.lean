import Geata.Lib.Except
import Geata.Lib.Prog
import Geata.Proxy.Request

namespace Geata

open Geata.Lib Geata.Lightning Geata.Payments

/-!
# The request filter

`requestFilter` is the long sequence of early answers in front of every site.  What it asks other
components for (the routing table, the limiters, the capacity, the request body, the settlement
and challenge calls) are the operations of `FilterOp`; their answers are arbitrary.

* `credential` — which payment a request carries, or why it is turned away.
* `admissions` — how often a run was let in: a free token, or a settlement that returned `Ok`.
* `Entry`, `Idle` — stages that let a request in exactly once, and stages that never do.
-/

/-- One listener of the server, and which payment services are running. -/
structure Proxy where
  tls : Bool
  httpsPort : UInt16
  payments : Bool
  lightning : Bool

namespace Proxy

/-! ### Operations -/

/-- How reading a request body ended. -/
inductive Fate where
  | finished
  | failed
  | stalled
  deriving DecidableEq

/-- The chunks of a request body as they arrive, and what comes after them. -/
structure Body where
  chunks : List (List UInt8)
  fate : Fate

/-- The headers of a payment challenge. -/
structure Challenge where
  x402 : Option String
  l402 : Option String

inductive FilterOp where
  /-- The site of a domain in the current configuration. -/
  | site (domain : String)
  /-- An active ACME challenge. -/
  | acmeChallenge (domain token : String)
  | redirects (client : IpAddr)
  | paymentVerification (domain : String) (client : IpAddr)
  | capacity (domain : String) (client : IpAddr)
  /-- The site's free allowance. -/
  | rateLimit (domain : String) (client : IpAddr)
  | readRequestBody
  | retryBufferTruncated
  | collect (domain : String) (policy : PaymentPolicy) (encoded : String)
  | settle (policy : Policy) (hash encoded : String)
  | settleL402 (policy : Policy) (hash encoded : String)
  | challenge (policy : Policy) (url hash : String) (client : IpAddr)

@[reducible] def FilterOp.Res : FilterOp → Type
  | .site _ => Option Site
  | .acmeChallenge _ _ => Option String
  | .redirects _ => Except Wait Unit
  | .paymentVerification _ _ => Except Wait Unit
  | .capacity _ _ => Bool
  | .rateLimit _ _ => Except Wait Unit
  | .readRequestBody => Body
  | .retryBufferTruncated => Bool
  | .collect _ _ _ => Except PaymentError Unit
  | .settle _ _ _ => Except Lightning.Error String
  | .settleL402 _ _ _ => Except Lightning.Error Unit
  | .challenge _ _ _ _ => Option Challenge

@[reducible] def FilterSig : Sig where
  Op := FilterOp
  Res := FilterOp.Res

/-- The functions of other crates the filter calls. -/
structure Crates where
  sha256 : List UInt8 → List UInt8
  /-- `str::parse` at `http::uri::Authority` -/
  parseAuthority : String → Option Authority
  /-- The Cashu payment request of a policy -/
  cashuChallenge : PaymentPolicy → String

/-- A part of the filter: it goes on, or the request is done. -/
abbrev Filter (α : Type) : Type := Stage FilterSig Outcome α

/-- Answer the request and stop. -/
def refuse (status : ℕ) (body : String) (headers : List (String × String) := []) : Outcome :=
  .answered { status, body, headers }

/-- Stop with the wait of a limiter. -/
def tooMany (body : String) (wait : Wait) : Outcome :=
  refuse 429 body [("Retry-After", wait.roundedUp.repr), ("Cache-Control", "no-store")]

/-- The client address, without which limits cannot be kept. -/
def needClient (request : Request) : Filter IpAddr :=
  match request.client with
  | some client => pure client
  | none => throw (.failed "request has no client IP")

/-! ### Routing -/

section

variable (X : Crates) (proxy : Proxy) (request : Request)

/-- Find the site. -/
def route : Filter (String × Site) :=
  match request.authority.bind (requestDomain X.parseAuthority) with
  | none => throw (refuse 400 "A valid Host header is required.\n")
  | some domain => do
    match ← Stage.perform (S := FilterSig) (.site domain) with
    | none => throw (refuse 404 "No site is configured for this hostname.\n")
    | some site => return (domain, site)

/-- The answer to a certificate challenge. -/
def acmeResponse (response : Option String) : Outcome :=
  match response with
  | some text =>
    if request.method = "GET" then refuse 200 text
    else refuse 404 "No active certificate challenge.\n"
  | none => refuse 404 "No active certificate challenge.\n"

/-- The redirect from plain HTTP. -/
def redirect (domain : String) : Outcome :=
  let port := if proxy.httpsPort = 443 then "" else ":" ++ proxy.httpsPort.toNat.repr
  let path := request.uri.pathAndQuery.getD "/"
  refuse 308 "Redirecting to HTTPS.\n" [("Location", "https://" ++ domain ++ port ++ path)]

/-- The limiter on redirects; a request without a client address waits a second. -/
def checkRedirects : Filter (Except Wait Unit) :=
  match request.client with
  | some client => Stage.perform (S := FilterSig) (.redirects client)
  | none => pure (.error { secs := 1, nanos := 0 })

/-- Only requests on the site's own kind of listener go on. -/
def listener (domain : String) (site : Site) : Filter Unit :=
  if proxy.tls then
    Stage.stopIf (!site.https) (refuse 404 "This site is configured for HTTP only.\n")
  else match stripPrefix "/.well-known/acme-challenge/" request.uri.path with
    | some token => do
      let response ← Stage.perform (S := FilterSig) (.acmeChallenge domain (String.ofList token))
      throw (acmeResponse request response)
    | none =>
      if site.https then do
        match ← checkRedirects request with
        | .error wait => throw (tooMany "Too many redirects.\n" wait)
        | .ok () => throw (redirect proxy request domain)
      else pure ()

/-! ### Gates -/

/-- The declared body length, if it can be read. -/
def contentLength : Option ℕ :=
  ((header request.headers "content-length").bind HeaderValue.toStr).bind
    (fun v => parseUnsigned (2 ^ 64) v.toList)

def checkLength (site : Site) : Filter Unit :=
  Stage.stopIf (site.controls.maxBodyBytes.any (fun max =>
      (contentLength request).any (fun length => decide (max < length))))
    (refuse 413 "Request body too large.\n")

/-- The request carries a header that could be a payment for this site. -/
def paymentAttempt (site : Site) : Bool :=
  site.payment.isSome && containsKey request.headers "x-cashu" ||
    site.lightning.isSome && (containsKey request.headers "payment-signature" ||
      site.l402Enabled && containsKey request.headers "authorization")

/-- Payment attempts are limited for each client. -/
def checkVerification (domain : String) (site : Site) : Filter Unit :=
  if paymentAttempt request site then do
    let client ← needClient request
    match ← Stage.perform (S := FilterSig) (.paymentVerification domain client) with
    | .error wait => throw (tooMany "Too many payment verification attempts.\n" wait)
    | .ok () => pure ()
  else pure ()

/-- Take a slot of the site's capacity. -/
def acquireCapacity (domain : String) (site : Site) : Filter Unit :=
  if site.capacity.isSome then do
    let client ← needClient request
    match ← Stage.perform (S := FilterSig) (.capacity domain client) with
    | true => pure ()
    | false => throw (refuse 503 "Site is at capacity.\n"
        [("Retry-After", "1"), ("Cache-Control", "no-store")])
  else pure ()

/-! ### Credentials -/

/-- The payment a request carries. -/
inductive Supplied where
  | l402 (encoded : String)
  | x402 (encoded : String)
  | cashu (value : HeaderValue)
  | nothing
  deriving DecidableEq

/-- The credential of an `Authorization` value: the scheme, then a nonempty bounded text. -/
def l402Credential (value : HeaderValue) : Option String :=
  ((value.toStr.bind (fun v => splitOnce ' ' v.toList)).filter (fun (scheme, credential) =>
    toAsciiLowercase scheme == "l402".toList && !credential.isEmpty &&
      decide ((String.ofList credential).utf8ByteSize ≤ MAX_PAYMENT_HEADER))).map
    (fun p => String.ofList p.2)

/-- The L402 credential of a request. -/
def l402Header (site : Site) : Except Outcome (Option String) :=
  if site.l402Enabled then
    match request.headers.getAll "authorization" with
    | [] => .ok none
    | value :: rest =>
      match rest, l402Credential value with
      | [], some credential => .ok (some credential)
      | _, _ => .error (refuse 401 "This site requires an L402 Authorization credential.\n"
          [("Cache-Control", "no-store"), ("WWW-Authenticate", "L402")])
  else .ok none

/-- The x402 payment of a request to a Lightning site. -/
def lightningHeader (site : Site) : Except Outcome (Option String) :=
  if site.lightning.isSome then
    match request.headers.getAll "payment-signature" with
    | [] => .ok none
    | value :: rest =>
      if !rest.isEmpty || containsKey request.headers "x-cashu" then
        .error (refuse 400 "Select exactly one payment method.\n")
      else match value.toStr with
        | some text =>
          if text.utf8ByteSize ≤ MAX_PAYMENT_HEADER then .ok (some text)
          else .error (refuse 400 "Invalid Lightning payment header.\n")
        | none => .error (refuse 400 "Invalid Lightning payment header.\n")
  else .ok none

/-- Which payment the request carries; combinations and disabled protocols are turned away. -/
def credential (site : Site) : Except Outcome Supplied := do
  let l402 ← l402Header request site
  ensure (!(l402.isSome && (containsKey request.headers "payment-signature" ||
    containsKey request.headers "x-cashu"))) (refuse 400 "Select exactly one payment method.\n")
  ensure (!(site.lightning.any (fun p => !p.protocols.x402) &&
    containsKey request.headers "payment-signature")) (refuse 400 "Lightning x402 is disabled.\n")
  let x402 ← lightningHeader request site
  return match l402, x402 with
    | some encoded, _ => .l402 encoded
    | none, some encoded => .x402 encoded
    | none, none =>
      match site.payment, header request.headers "x-cashu" with
      | some _, some value => .cashu value
      | _, _ => .nothing

/-! ### Binding -/

/-- Collect the chunks of a body up to a limit; a chunk beyond it is an error at once. -/
def collectBody (limit : ℕ) (fate : Fate) : List UInt8 → List (List UInt8) →
    Except String (List UInt8)
  | body, [] =>
    match fate with
    | .finished => .ok body
    | .failed => .error "request body could not be read"
    | .stalled => .error "deadline has elapsed"
  | body, chunk :: chunks =>
    if body.length + chunk.length ≤ limit then collectBody limit fate (body ++ chunk) chunks
    else .error "Lightning body exceeds 64 KiB"

/-- The scheme of this listener. -/
def scheme (proxy : Proxy) : String := if proxy.tls then "https" else "http"

/-- The URL a payment is bound to, if the target is one a payment can be bound to. -/
def boundUrl (policy : Policy) : Except String String := do
  ensure (!containsKey request.headers "trailer" && !containsKey request.headers "upgrade")
    "trailers and upgrades are unsupported for Lightning"
  let authority ← context "missing host" request.authority
  let origin := proxy.scheme ++ "://" ++ authority
  ensure (origin == policy.origin) "public origin mismatch"
  ensure (request.uri.scheme.all (· == proxy.scheme)) "request scheme mismatch"
  ensure (request.uri.authority.all (· == authority)) "request authority mismatch"
  let path := request.uri.pathAndQuery.getD "/"
  ensure (path.toList.head? == some '/') "unsupported request target"
  return origin ++ path

/-- The URL and the hash a payment for this request is bound to; reads the whole body. -/
def lightningBinding (policy : Policy) (maxBodyBytes : Option ℕ) :
    Filter (Except String (String × String)) :=
  match boundUrl proxy request policy with
  | .error e => pure (.error e)
  | .ok url => do
    let arrived ← Stage.perform (S := FilterSig) .readRequestBody
    match collectBody (min (maxBodyBytes.getD u64Max) MAX_BODY) arrived.fate [] arrived.chunks with
    | .error e => pure (.error e)
    | .ok body =>
      match ← Stage.perform (S := FilterSig) .retryBufferTruncated with
      | true => pure (.error "request body could not be buffered")
      | false => pure ((requestHash X.sha256 policy request.method url request.headers body).map
          (fun hash => (url, hash)))

/-! ### Admission -/

/-- Payments are taken over TLS and from the local machine only. -/
def secure : Bool := proxy.tls || request.client.any IpAddr.isLoopback

/-- The answer to a failed Lightning settlement. -/
def settlementFailed (usingL402 : Bool) (error : Lightning.Error) : Outcome :=
  match error, usingL402 with
  | .invalid, true => refuse 401 (error.text ++ "\n")
      [("Cache-Control", "no-store"), ("WWW-Authenticate", "L402")]
  | .invalid, false => refuse 400 (error.text ++ "\n") [("Cache-Control", "no-store")]
  | .unavailable, _ => refuse 503 (error.text ++ "\n") [("Cache-Control", "no-store")]

/-- The settlement call of the protocol in use; x402 gives a receipt. -/
def settleWith (usingL402 : Bool) (policy : Policy) (hash encoded : String) :
    Filter (Option String) :=
  if usingL402 then do
    match ← Stage.perform (S := FilterSig) (.settleL402 policy hash encoded) with
    | .ok () => pure none
    | .error error => throw (settlementFailed true error)
  else do
    match ← Stage.perform (S := FilterSig) (.settle policy hash encoded) with
    | .ok receipt => pure (some receipt)
    | .error error => throw (settlementFailed false error)

/-- Settle a Lightning payment. -/
def payLightning (site : Site) (usingL402 : Bool) (encoded : String) : Filter (Option String) := do
  Stage.stopIf (!secure proxy request) (refuse 400 "Use HTTPS to send payments.\n")
  match site.lightning with
  | none => throw (.failed "Lightning policy checked")
  | some policy => do
    Stage.stopIf (!proxy.lightning) (refuse 503 "Lightning unavailable.\n")
    match ← lightningBinding X proxy request policy site.controls.maxBodyBytes with
    | .error _ =>
      throw (refuse 400 "Unsupported Lightning request binding or body size.\n")
    | .ok (_, hash) => settleWith usingL402 policy hash encoded

/-- Collect a Cashu token. -/
def payCashu (domain : String) (site : Site) (value : HeaderValue) : Filter (Option String) := do
  Stage.stopIf ((request.headers.getAll "X-Cashu").length != 1)
    (refuse 400 "Provide exactly one X-Cashu token.\n")
  match site.payment with
  | none => throw (refuse 400 "This site does not accept Cashu payments.\n")
  | some policy => do
    Stage.stopIf (!secure proxy request) (refuse 400 "Use HTTPS to send payment tokens.\n")
    match value.toStr with
    | none => throw (refuse 400 "Invalid Cashu token.\n")
    | some encoded => do
      Stage.stopIf (!proxy.payments) (refuse 503 "Payments are unavailable.\n")
      match ← Stage.perform (S := FilterSig) (.collect domain policy encoded) with
      | .ok () => pure none
      | .error .invalid => throw (refuse 400
          "Invalid, insufficient, or already used Cashu payment.\n"
          [("Cache-Control", "no-store")])
      | .error .unavailable => throw (refuse 503
          "Payments temporarily unavailable; retry the same token.\n"
          [("Retry-After", "1"), ("Cache-Control", "no-store")])

/-- Ask for a Lightning challenge, if the site and the server can give one. -/
def lightningChallenge (site : Site) (client : IpAddr) : Filter (Option Challenge) :=
  match site.lightning, proxy.lightning with
  | some policy, true => do
    match ← lightningBinding X proxy request policy site.controls.maxBodyBytes with
    | .ok (url, hash) => Stage.perform (S := FilterSig) (.challenge policy url hash client)
    | .error _ => pure none
  | _, _ => pure none

/-- The 402 answer with all the challenges that could be made. -/
def paymentRequired (site : Site) (retryAfter : Option String) (required : Option Challenge) :
    Outcome :=
  let cashu := site.payment.map X.cashuChallenge
  if cashu.isNone && required.isNone then
    refuse 503 "Lightning challenge unavailable.\n"
      [("Retry-After", "1"), ("Cache-Control", "no-store")]
  else
    refuse 402
      (if retryAfter.isSome then "Payment required, or wait for the free allowance.\n"
        else "Payment required.\n")
      ([("Cache-Control", "no-store")]
        ++ (retryAfter.map (("Retry-After", ·))).toList
        ++ (cashu.map (("X-Cashu", ·))).toList
        ++ ((required.bind Challenge.x402).map (("PAYMENT-REQUIRED", ·))).toList
        ++ ((required.bind Challenge.l402).map (("WWW-Authenticate", ·))).toList)

/-- The free allowance; `some wait` is a refusal. -/
def checkFree (domain : String) (site : Site) (client : IpAddr) : Filter (Option Wait) :=
  if site.rateLimit.isSome then do
    match ← Stage.perform (S := FilterSig) (.rateLimit domain client) with
    | .ok () => pure none
    | .error wait => pure (some wait)
  else pure none

/-- No free token: answer with a challenge, or with the time to wait. -/
def requirePayment (site : Site) (client : IpAddr) (wait : Option Wait) :
    Filter (Option String) :=
  let retryAfter := wait.map (fun wait =>
    (max (wait.secs + (if wait.nanos ≠ 0 then 1 else 0)) 1).repr)
  if site.payment.isSome || site.lightning.isSome then do
    let required ← lightningChallenge X proxy request site client
    throw (paymentRequired X site retryAfter required)
  else throw (refuse 429 "Too many requests.\n"
    [("Retry-After", retryAfter.getD "1"), ("Cache-Control", "no-store")])

/-- A request without a payment: the free allowance, or a challenge. -/
def payNothing (domain : String) (site : Site) : Filter (Option String) :=
  if site.unlimited then pure none
  else do
    let client ← needClient request
    let wait ← checkFree domain site client
    if wait.isSome || site.rateLimit.isNone then requirePayment X proxy request site client wait
    else pure none

/-- Let the request in, by the payment it carries or for free.  Gives the x402 receipt. -/
def grant (domain : String) (site : Site) (supplied : Supplied) : Filter (Option String) :=
  match supplied with
  | .l402 encoded => payLightning X proxy request site true encoded
  | .x402 encoded => payLightning X proxy request site false encoded
  | .cashu value => payCashu proxy request domain site value
  | .nothing => payNothing X proxy request domain site

/-! ### The handler -/

/-- Bearer tokens are never forwarded. -/
def strippedHeaders (site : Site) : HeaderMap :=
  let headers :=
    if site.l402Enabled then removeHeader request.headers "authorization" else request.headers
  if site.payment.isSome || site.lightning.isSome then
    removeHeader (removeHeader headers "X-Cashu") "payment-signature"
  else headers

/-- Serve the configured response or hand the request to the upstream. -/
def handle (site : Site) (receipt : Option String) : Outcome :=
  match site.handler with
  | .respond body status =>
    .served { status, body, headers :=
      (if site.payment.isSome || site.lightning.isSome then [("Cache-Control", "no-store")] else [])
        ++ (receipt.map (("PAYMENT-RESPONSE", ·))).toList }
  | .proxy _ => .proxied (strippedHeaders request site) receipt

/-- Everything before the payment: find the site, pass its gates, read the credential. -/
def gates : Filter (String × Site × Supplied) := do
  let (domain, site) ← route X request
  listener proxy request domain site
  checkLength request site
  checkVerification request domain site
  acquireCapacity request domain site
  let supplied ← Stage.ofExcept (credential request site)
  return (domain, site, supplied)

/-- The stages of the filter in order. -/
def filterStages : Filter Outcome := do
  let (domain, site, supplied) ← gates X proxy request
  let receipt ← grant X proxy request domain site supplied
  return handle request site receipt

/-- The filter in front of every site. -/
def requestFilter : Prog FilterSig Outcome :=
  (filterStages X proxy request).run.bind (fun
    | .ok outcome => .ret outcome
    | .error outcome => .ret outcome)

end

/-! ### What a run did -/

/-- A token of the site's free allowance was taken. -/
def freeToken : FilterSig.Event → Bool
  | ⟨.rateLimit _ _, .ok _⟩ => true
  | _ => false

/-- A settlement returned `Ok`. -/
def settled : FilterSig.Event → Bool
  | ⟨.collect _ _ _, .ok _⟩ => true
  | ⟨.settle _ _ _, .ok _⟩ => true
  | ⟨.settleL402 _ _ _, .ok _⟩ => true
  | _ => false

/-- The free allowance was asked, whatever it answered. -/
def asksFree : FilterSig.Event → Bool
  | ⟨.rateLimit _ _, _⟩ => true
  | _ => false

/-- How often a run let the request in. -/
def admissions (tr : List FilterSig.Event) : ℕ := tr.countP (fun e => freeToken e || settled e)

/-- The operation neither admits nor asks the free allowance, whatever it answers. -/
def quietOp : FilterOp → Bool
  | .rateLimit _ _ => false
  | .collect _ _ _ => false
  | .settle _ _ _ => false
  | .settleL402 _ _ _ => false
  | _ => true

theorem quietOp_event {o : FilterOp} (h : quietOp o = true) (r : o.Res) :
    freeToken ⟨o, r⟩ = false ∧ settled ⟨o, r⟩ = false ∧ asksFree ⟨o, r⟩ = false := by
  cases o with
  | rateLimit domain client => exact absurd h (by simp [quietOp])
  | collect domain policy encoded => exact absurd h (by simp [quietOp])
  | settle policy hash encoded => exact absurd h (by simp [quietOp])
  | settleL402 policy hash encoded => exact absurd h (by simp [quietOp])
  | _ => exact ⟨rfl, rfl, rfl⟩

theorem freeToken_le_asksFree {e : FilterSig.Event} (h : asksFree e = false) :
    freeToken e = false := by
  obtain ⟨o, r⟩ := e
  cases o with
  | rateLimit domain client => exact absurd h (by simp [asksFree])
  | _ => rfl

@[simp] theorem admissions_nil : admissions [] = 0 := rfl

@[simp] theorem admissions_append (tr tr' : List FilterSig.Event) :
    admissions (tr ++ tr') = admissions tr + admissions tr' := List.countP_append

/-- Nothing in the trace admits or asks the free allowance. -/
def Quiet (tr : List FilterSig.Event) : Prop := ∀ e ∈ tr, quietOp e.1 = true

theorem Quiet.admissions {tr : List FilterSig.Event} (h : Quiet tr) : admissions tr = 0 := by
  rw [Proxy.admissions, List.countP_eq_zero]
  intro e he
  obtain ⟨hf, hs, -⟩ := quietOp_event (h e he) e.2
  rw [hf, hs]
  simp

theorem Quiet.not_settled {tr : List FilterSig.Event} (h : Quiet tr) {e : FilterSig.Event}
    (he : e ∈ tr) : settled e = false ∧ asksFree e = false := by
  obtain ⟨-, hs, ha⟩ := quietOp_event (h e he) e.2
  exact ⟨hs, ha⟩

theorem Quiet.append {tr tr' : List FilterSig.Event} (h : Quiet tr) (h' : Quiet tr') :
    Quiet (tr ++ tr') := by
  intro e he
  rcases List.mem_append.mp he with he | he
  · exact h e he
  · exact h' e he

/-- A quiet beginning does not change whether a settled payment excludes the allowance. -/
theorem Quiet.paid_append {tr tr' : List FilterSig.Event} (h : Quiet tr)
    (h' : (∃ e ∈ tr', settled e = true) → ∀ e ∈ tr', asksFree e = false) :
    (∃ e ∈ tr ++ tr', settled e = true) → ∀ e ∈ tr ++ tr', asksFree e = false := by
  rintro ⟨e, he, hset⟩ e' he'
  have he₂ : e ∈ tr' := by
    rcases List.mem_append.mp he with he | he
    · rw [(h.not_settled he).1] at hset
      exact absurd hset (by simp)
    · exact he
  rcases List.mem_append.mp he' with he' | he'
  · exact (h.not_settled he').2
  · exact h' ⟨e, he₂, hset⟩ e' he'

/-! ### Stages that only look -/

variable {α β : Type}

/-- A stage that admits nobody: its run is quiet, and if it ends the request it does so short of
    the handler. -/
def Idle (s : Filter α) : Prop :=
  ∀ tr r, s.Ends tr r → Quiet tr ∧ ∀ outcome, r = .error outcome → outcome.reached = false

theorem Idle.pure (a : α) : Idle (Pure.pure a : Filter α) := by
  intro tr r h
  obtain ⟨rfl, rfl⟩ := Stage.ends_pure.mp h
  exact ⟨by simp [Quiet], by simp⟩

theorem Idle.throw {outcome : Outcome} (ho : outcome.reached = false) :
    Idle (MonadExcept.throw outcome : Filter α) := by
  intro tr r h
  obtain ⟨rfl, rfl⟩ := Stage.ends_throw.mp h
  refine ⟨by simp [Quiet], fun outcome' he => ?_⟩
  cases he
  exact ho

theorem Idle.perform {o : FilterOp} (ho : quietOp o = true) :
    Idle (Stage.perform (S := FilterSig) o : Filter o.Res) := by
  intro tr r h
  obtain ⟨a, rfl, rfl⟩ := Stage.ends_perform.mp h
  exact ⟨by simpa [Quiet] using ho, by simp⟩

theorem Idle.bind {s : Filter α} {f : α → Filter β} (hs : Idle s) (hf : ∀ a, Idle (f a)) :
    Idle (s >>= f) := by
  intro tr r h
  rcases Stage.ends_bind.mp h with ⟨e, he, rfl⟩ | ⟨a, tr₁, tr₂, rfl, h₁, h₂⟩
  · obtain ⟨hq, hr⟩ := hs _ _ he
    exact ⟨hq, fun outcome ho => hr outcome (by rw [Except.error.inj ho])⟩
  · obtain ⟨hq₁, -⟩ := hs _ _ h₁
    obtain ⟨hq₂, hr₂⟩ := hf a _ _ h₂
    exact ⟨hq₁.append hq₂, hr₂⟩

theorem Idle.stopIf {c : Bool} {outcome : Outcome} (ho : outcome.reached = false) :
    Idle (Stage.stopIf c outcome : Filter Unit) := by
  unfold Stage.stopIf
  split
  · exact Idle.throw ho
  · exact Idle.pure ()

theorem refuse_reached (status : ℕ) (body : String) (headers : List (String × String)) :
    (refuse status body headers).reached = false := rfl

section

variable (X : Crates) (proxy : Proxy) (request : Request) (domain : String) (site : Site)

theorem needClient_idle : Idle (needClient request) := by
  unfold needClient
  split
  · exact Idle.pure _
  · exact Idle.throw rfl

theorem route_idle : Idle (route X request) := by
  unfold route
  split
  · exact Idle.throw rfl
  · refine Idle.bind (Idle.perform rfl) (fun found => ?_)
    cases found with
    | none => exact Idle.throw rfl
    | some site => exact Idle.pure _

theorem acmeResponse_reached (response : Option String) :
    (acmeResponse request response).reached = false := by
  unfold acmeResponse
  split
  · split <;> rfl
  · rfl

theorem listener_idle : Idle (listener proxy request domain site) := by
  unfold listener
  split
  · exact Idle.stopIf rfl
  · split
    · exact Idle.bind (Idle.perform rfl)
        (fun response => Idle.throw (acmeResponse_reached request response))
    · split
      · refine Idle.bind ?_ (fun checked => ?_)
        · unfold checkRedirects
          split
          · exact Idle.perform rfl
          · exact Idle.pure _
        · cases checked with
          | error wait => exact Idle.throw rfl
          | ok u => exact Idle.throw rfl
      · exact Idle.pure ()

theorem checkVerification_idle : Idle (checkVerification request domain site) := by
  unfold checkVerification
  split
  · refine Idle.bind (needClient_idle request) (fun client => Idle.bind (Idle.perform rfl) ?_)
    rintro (wait | u)
    · exact Idle.throw rfl
    · exact Idle.pure ()
  · exact Idle.pure ()

theorem acquireCapacity_idle : Idle (acquireCapacity request domain site) := by
  unfold acquireCapacity
  split
  · refine Idle.bind (needClient_idle request) (fun client => Idle.bind (Idle.perform rfl) ?_)
    rintro (_ | _)
    · exact Idle.throw rfl
    · exact Idle.pure ()
  · exact Idle.pure ()

theorem lightningBinding_idle (policy : Policy) (maxBodyBytes : Option ℕ) :
    Idle (lightningBinding X proxy request policy maxBodyBytes) := by
  unfold lightningBinding
  split
  · exact Idle.pure _
  · refine Idle.bind (Idle.perform rfl) (fun arrived => ?_)
    split
    · exact Idle.pure _
    · refine Idle.bind (Idle.perform rfl) ?_
      rintro (_ | _)
      · exact Idle.pure _
      · exact Idle.pure _

theorem lightningChallenge_idle (client : IpAddr) :
    Idle (lightningChallenge X proxy request site client) := by
  unfold lightningChallenge
  split
  · refine Idle.bind (lightningBinding_idle X proxy request _ _) ?_
    rintro (e | ⟨url, hash⟩)
    · exact Idle.pure none
    · exact Idle.perform rfl
  · exact Idle.pure none

theorem credential_error {outcome : Outcome} (h : credential request site = .error outcome) :
    outcome.reached = false := by
  unfold credential at h
  rcases bind_eq_error.mp h with h | ⟨l402, -, h⟩
  · unfold l402Header at h
    split at h
    · split at h
      · exact absurd h (by simp)
      · split at h
        · exact absurd h (by simp)
        · exact Except.error.inj h ▸ rfl
    · exact absurd h (by simp)
  · rcases bind_eq_error.mp h with h | ⟨-, -, h⟩
    · exact ensure_eq_error h ▸ rfl
    · rcases bind_eq_error.mp h with h | ⟨-, -, h⟩
      · exact ensure_eq_error h ▸ rfl
      · rcases bind_eq_error.mp h with h | ⟨x402, -, h⟩
        · unfold lightningHeader at h
          split at h
          · split at h
            · exact absurd h (by simp)
            · split at h
              · exact Except.error.inj h ▸ rfl
              · split at h
                · split at h
                  · exact absurd h (by simp)
                  · exact Except.error.inj h ▸ rfl
                · exact Except.error.inj h ▸ rfl
          · exact absurd h (by simp)
        · exact absurd h (by simp [pure, Except.pure])

theorem credential_idle : Idle (Stage.ofExcept (credential request site) : Filter Supplied) := by
  intro tr r h
  obtain ⟨rfl, rfl⟩ := Stage.ends_ofExcept.mp h
  exact ⟨by simp [Quiet], fun outcome ho => credential_error request site ho⟩

end

/-! ### Stages that admit -/

/-- A stage that admits: if it goes on there was exactly one admission, and a settled payment
    means the free allowance was not asked; if it ends the request there was none. -/
def Entry (s : Filter α) : Prop :=
  ∀ tr r, s.Ends tr r →
    (∀ a, r = .ok a → admissions tr = 1 ∧
      ((∃ e ∈ tr, settled e = true) → ∀ e ∈ tr, asksFree e = false)) ∧
    (∀ outcome, r = .error outcome → outcome.reached = false ∧ admissions tr = 0)

theorem Idle.then_entry {s : Filter α} {f : α → Filter β} (hs : Idle s)
    (hf : ∀ a, Entry (f a)) : Entry (s >>= f) := by
  intro tr r h
  rcases Stage.ends_bind.mp h with ⟨e, he, rfl⟩ | ⟨a, tr₁, tr₂, rfl, h₁, h₂⟩
  · obtain ⟨hq, hr⟩ := hs _ _ he
    refine ⟨by simp, fun outcome ho => ⟨hr outcome ?_, hq.admissions⟩⟩
    rw [Except.error.inj ho]
  · obtain ⟨hq, -⟩ := hs _ _ h₁
    obtain ⟨hok, herr⟩ := hf a _ _ h₂
    rw [admissions_append, hq.admissions, Nat.zero_add]
    refine ⟨fun b hb => ?_, herr⟩
    obtain ⟨hone, hfree⟩ := hok b hb
    exact ⟨hone, hq.paid_append hfree⟩

theorem Entry.throw {outcome : Outcome} (ho : outcome.reached = false) :
    Entry (MonadExcept.throw outcome : Filter α) := by
  intro tr r h
  obtain ⟨rfl, rfl⟩ := Stage.ends_throw.mp h
  refine ⟨by simp, fun outcome' he => ?_⟩
  cases he
  exact ⟨ho, rfl⟩

/-- One settlement call: `Ok` goes on, an error ends the request. -/
theorem Entry.settlement {ε γ : Type} {o : FilterOp} {g : o.Res → Except ε γ}
    {f : o.Res → Filter α} (hsettled : ∀ r, settled ⟨o, r⟩ = (g r).isOk)
    (hfree : ∀ r, asksFree ⟨o, r⟩ = false)
    (hok : ∀ r, (g r).isOk = true → ∃ a, f r = pure a)
    (herr : ∀ r, (g r).isOk = false →
      ∃ outcome : Outcome, outcome.reached = false ∧ f r = MonadExcept.throw outcome) :
    Entry (Stage.perform (S := FilterSig) o >>= f) := by
  intro tr r h
  rcases Stage.ends_bind.mp h with ⟨e, he, rfl⟩ | ⟨a, tr₁, tr₂, rfl, h₁, h₂⟩
  · obtain ⟨a, -, ha⟩ := Stage.ends_perform.mp he
    exact absurd ha (by simp)
  · obtain ⟨a', rfl, ha⟩ := Stage.ends_perform.mp h₁
    obtain rfl := Except.ok.inj ha
    have hone : admissions [(⟨o, a⟩ : FilterSig.Event)] = if (g a).isOk then 1 else 0 := by
      simp only [admissions, List.countP_cons, List.countP_nil, hsettled,
        freeToken_le_asksFree (hfree a), Bool.false_or, Nat.zero_add]
    cases hg : (g a).isOk with
    | true =>
      obtain ⟨b, hb⟩ := hok a hg
      rw [hb] at h₂
      obtain ⟨rfl, rfl⟩ := Stage.ends_pure.mp h₂
      refine ⟨fun _ _ => ⟨by simp [hone, hg], fun _ e he => ?_⟩, by simp⟩
      rw [List.append_nil, List.mem_singleton] at he
      rw [he]
      exact hfree a
    | false =>
      obtain ⟨outcome, ho, hb⟩ := herr a hg
      rw [hb] at h₂
      obtain ⟨rfl, rfl⟩ := Stage.ends_throw.mp h₂
      refine ⟨by simp, fun outcome' he => ?_⟩
      cases he
      exact ⟨ho, by simp [hone, hg]⟩

section

variable (X : Crates) (proxy : Proxy) (request : Request) (domain : String) (site : Site)

theorem settlementFailed_reached (usingL402 : Bool) (error : Lightning.Error) :
    (settlementFailed usingL402 error).reached = false := by
  cases error <;> cases usingL402 <;> rfl

theorem settleWith_entry (usingL402 : Bool) (policy : Policy) (hash encoded : String) :
    Entry (settleWith usingL402 policy hash encoded) := by
  unfold settleWith
  split
  · refine Entry.settlement (g := id) ?_ (fun _ => rfl) ?_ ?_
    · rintro (e | u) <;> rfl
    · rintro (e | u) h
      · exact absurd h (by simp [Except.isOk, Except.toBool])
      · exact ⟨none, rfl⟩
    · rintro (e | u) h
      · exact ⟨_, settlementFailed_reached true e, rfl⟩
      · exact absurd h (by simp [Except.isOk, Except.toBool])
  · refine Entry.settlement (g := id) ?_ (fun _ => rfl) ?_ ?_
    · rintro (e | receipt) <;> rfl
    · rintro (e | receipt) h
      · exact absurd h (by simp [Except.isOk, Except.toBool])
      · exact ⟨some receipt, rfl⟩
    · rintro (e | receipt) h
      · exact ⟨_, settlementFailed_reached false e, rfl⟩
      · exact absurd h (by simp [Except.isOk, Except.toBool])

theorem payLightning_entry (usingL402 : Bool) (encoded : String) :
    Entry (payLightning X proxy request site usingL402 encoded) := by
  unfold payLightning
  refine Idle.then_entry (Idle.stopIf rfl) (fun _ => ?_)
  split
  · exact Entry.throw rfl
  · refine Idle.then_entry (Idle.stopIf rfl) (fun _ => ?_)
    refine Idle.then_entry (lightningBinding_idle X proxy request _ _) ?_
    rintro (e | ⟨url, hash⟩)
    · exact Entry.throw rfl
    · exact settleWith_entry usingL402 _ hash encoded

theorem payCashu_entry (value : HeaderValue) :
    Entry (payCashu proxy request domain site value) := by
  unfold payCashu
  refine Idle.then_entry (Idle.stopIf rfl) (fun _ => ?_)
  split
  · exact Entry.throw rfl
  · refine Idle.then_entry (Idle.stopIf rfl) (fun _ => ?_)
    split
    · exact Entry.throw rfl
    · refine Idle.then_entry (Idle.stopIf rfl) (fun _ => ?_)
      refine Entry.settlement (g := id) ?_ (fun _ => rfl) ?_ ?_
      · rintro (e | u) <;> rfl
      · rintro (e | u) h
        · exact absurd h (by simp [Except.isOk, Except.toBool])
        · exact ⟨none, rfl⟩
      · rintro (e | u) h
        · cases e <;> exact ⟨_, rfl, rfl⟩
        · exact absurd h (by simp [Except.isOk, Except.toBool])

theorem paymentRequired_reached (retryAfter : Option String) (required : Option Challenge) :
    (paymentRequired X site retryAfter required).reached = false := by
  simp [paymentRequired, apply_ite Outcome.reached, refuse_reached]

/-- Without a free token every way on ends the request. -/
theorem requirePayment_idle (client : IpAddr) (wait : Option Wait) :
    Idle (requirePayment X proxy request site client wait) := by
  unfold requirePayment
  dsimp only
  split
  · exact Idle.bind (lightningChallenge_idle X proxy request site client)
      (fun required => Idle.throw (paymentRequired_reached X site _ required))
  · exact Idle.throw rfl

theorem requirePayment_ends {client : IpAddr} {wait : Option Wait} {tr : List FilterSig.Event}
    {r : Except Outcome (Option String)}
    (h : (requirePayment X proxy request site client wait).Ends tr r) :
    ∃ outcome, r = .error outcome := by
  unfold requirePayment at h
  dsimp only at h
  split at h
  · rcases Stage.ends_bind.mp h with ⟨e, -, rfl⟩ | ⟨a, tr₁, tr₂, -, -, h₂⟩
    · exact ⟨e, rfl⟩
    · obtain ⟨-, rfl⟩ := Stage.ends_throw.mp h₂
      exact ⟨_, rfl⟩
  · obtain ⟨-, rfl⟩ := Stage.ends_throw.mp h
    exact ⟨_, rfl⟩

/-- Refusing for want of a token admits nobody. -/
theorem requirePayment_entry (client : IpAddr) (wait : Option Wait) :
    Entry (requirePayment X proxy request site client wait) := by
  intro tr r h
  obtain ⟨hq, hr⟩ := requirePayment_idle X proxy request site client wait tr r h
  obtain ⟨outcome, rfl⟩ := requirePayment_ends X proxy request site h
  exact ⟨by simp, fun outcome' ho => ⟨hr outcome' ho, hq.admissions⟩⟩

/-- The free allowance admits with one token, or the request ends without one. -/
theorem free_entry (hlimited : site.rateLimit.isSome = true) (client : IpAddr) :
    Entry (do
      let wait ← checkFree domain site client
      if wait.isSome || site.rateLimit.isNone then requirePayment X proxy request site client wait
      else pure none : Filter (Option String)) := by
  intro tr r h
  have hnone : site.rateLimit.isNone = false := by
    rw [Option.isNone_eq_false_iff]; exact hlimited
  rw [checkFree, if_pos hlimited] at h
  rcases Stage.ends_bind.mp h with ⟨e, he, rfl⟩ | ⟨wait, tr₁, tr₂, rfl, h₁, h₂⟩
  · rcases Stage.ends_bind.mp he with ⟨e', he', -⟩ | ⟨x, tr₁, tr₂, rfl, -, h₂⟩
    · obtain ⟨a, -, ha⟩ := Stage.ends_perform.mp he'
      exact absurd ha (by simp)
    · rcases x with w | u
      · exact absurd (Stage.ends_pure.mp h₂).2 (by simp)
      · exact absurd (Stage.ends_pure.mp h₂).2 (by simp)
  · rcases Stage.ends_bind.mp h₁ with ⟨e', -, he'⟩ | ⟨x, tr₃, tr₄, rfl, h₃, h₄⟩
    · exact absurd he' (by simp)
    · obtain ⟨a, rfl, ha⟩ := Stage.ends_perform.mp h₃
      obtain rfl := Except.ok.inj ha
      rcases x with w | u
      · -- Refused: the question was asked, but no token was taken.
        obtain ⟨rfl, hw⟩ := Stage.ends_pure.mp h₄
        obtain rfl := Except.ok.inj hw
        rw [hnone] at h₂
        obtain ⟨hok, herr⟩ := requirePayment_entry X proxy request site client (some w) tr₂ r h₂
        obtain ⟨outcome, rfl⟩ := requirePayment_ends X proxy request site h₂
        refine ⟨by simp, fun outcome' ho => ?_⟩
        obtain ⟨hreach, hzero⟩ := herr outcome' ho
        refine ⟨hreach, ?_⟩
        rw [admissions_append, hzero]
        rfl
      · obtain ⟨rfl, hw⟩ := Stage.ends_pure.mp h₄
        obtain rfl := Except.ok.inj hw
        rw [hnone] at h₂
        obtain ⟨rfl, rfl⟩ := Stage.ends_pure.mp h₂
        refine ⟨fun _ _ => ⟨rfl, ?_⟩, by simp⟩
        rintro ⟨e, he, hset⟩
        rw [List.append_nil, List.append_nil, List.mem_singleton] at he
        rw [he] at hset
        exact absurd hset (by simp [settled])

theorem payNothing_entry (hlimited : site.unlimited = false) :
    Entry (payNothing X proxy request domain site) := by
  unfold payNothing
  rw [if_neg (by simp [hlimited])]
  refine Idle.then_entry (needClient_idle request) (fun client => ?_)
  cases hfree : site.rateLimit.isSome with
  | true => exact free_entry X proxy request domain site hfree client
  | false =>
    have hnone : site.rateLimit.isNone = true := by
      rw [Option.isNone_iff_eq_none, ← Option.not_isSome_iff_eq_none, hfree]; simp
    rw [checkFree, if_neg (by simp [hfree])]
    refine Idle.then_entry (Idle.pure none) (fun wait => ?_)
    rw [hnone, Bool.or_true, if_pos rfl]
    exact requirePayment_entry X proxy request site client wait

/-- A payment is only looked for on sites that have a price. -/
theorem supplied_limited {supplied : Supplied}
    (h : credential request site = .ok supplied) (hne : supplied ≠ .nothing) :
    site.unlimited = false := by
  unfold credential at h
  simp only [bind_eq_ok, ensure_eq_ok, exists_const, pure_eq_ok] at h
  obtain ⟨l402, hl, -, -, x402, hx, rfl⟩ := h
  by_contra hun
  simp only [Site.unlimited, Bool.not_eq_false, Bool.and_eq_true, Option.isNone_iff_eq_none] at hun
  obtain ⟨⟨-, hpay⟩, hln⟩ := hun
  have hl' : l402 = none := by simpa [l402Header, Site.l402Enabled, hln] using hl.symm
  have hx' : x402 = none := by simpa [lightningHeader, hln] using hx.symm
  subst hl' hx'
  exact hne (by simp [hpay])

theorem grant_entry {supplied : Supplied} (h : credential request site = .ok supplied)
    (hlimited : site.unlimited = false) :
    Entry (grant X proxy request domain site supplied) := by
  cases supplied with
  | l402 encoded => exact payLightning_entry X proxy request site true encoded
  | x402 encoded => exact payLightning_entry X proxy request site false encoded
  | cashu value => exact payCashu_entry proxy request domain site value
  | nothing => exact payNothing_entry X proxy request domain site hlimited

/-- On a site without limits nothing is asked. -/
theorem grant_unlimited {supplied : Supplied} (h : credential request site = .ok supplied)
    (hunlimited : site.unlimited = true) :
    grant X proxy request domain site supplied = pure none := by
  have hnothing : supplied = .nothing := by
    by_contra hne
    rw [supplied_limited request site h hne] at hunlimited
    exact absurd hunlimited (by simp)
  subst hnothing
  exact if_pos hunlimited

/-- A routed request has its site from the configuration. -/
theorem route_ends {tr : List FilterSig.Event} {domain : String} {site : Site}
    (h : (route X request).Ends tr (.ok (domain, site))) :
    (⟨.site domain, some site⟩ : FilterSig.Event) ∈ tr := by
  unfold route at h
  split at h
  · exact absurd (Stage.ends_throw.mp h).2 (by simp)
  · rename_i domain' _
    rcases Stage.ends_bind.mp h with ⟨e, -, he⟩ | ⟨found, tr₁, tr₂, rfl, h₁, h₂⟩
    · exact absurd he (by simp)
    · obtain ⟨a, rfl, ha⟩ := Stage.ends_perform.mp h₁
      obtain rfl := Except.ok.inj ha
      cases found with
      | none => exact absurd (Stage.ends_throw.mp h₂).2 (by simp)
      | some site' =>
        obtain ⟨rfl, heq⟩ := Stage.ends_pure.mp h₂
        obtain ⟨rfl, rfl⟩ := Prod.mk.inj (Except.ok.inj heq)
        simp

/-- Only the site's own kind of listener lets a request on. -/
theorem listener_ends {tr : List FilterSig.Event}
    (h : (listener proxy request domain site).Ends tr (.ok ())) : proxy.tls = site.https := by
  unfold listener at h
  split at h
  · rename_i htls
    obtain ⟨-, hr⟩ := Stage.ends_stopIf.mp h
    cases hs : site.https with
    | true => exact htls
    | false => rw [hs] at hr; exact absurd hr (by simp)
  · rename_i htls
    split at h
    · rcases Stage.ends_bind.mp h with ⟨e, -, he⟩ | ⟨a, tr₁, tr₂, -, -, h₂⟩
      · exact absurd he (by simp)
      · exact absurd (Stage.ends_throw.mp h₂).2 (by simp)
    · split at h
      · rcases Stage.ends_bind.mp h with ⟨e, -, he⟩ | ⟨a, tr₁, tr₂, -, -, h₂⟩
        · exact absurd he (by simp)
        · rcases a with w | u
          · exact absurd (Stage.ends_throw.mp h₂).2 (by simp)
          · exact absurd (Stage.ends_throw.mp h₂).2 (by simp)
      · rename_i hs
        rw [Bool.not_eq_true] at htls hs
        rw [htls, hs]

theorem handle_reached (receipt : Option String) :
    (handle request site receipt).reached = true := by
  unfold handle
  split <;> rfl

theorem gates_idle : Idle (gates X proxy request) := by
  unfold gates
  refine Idle.bind (route_idle X request) (fun p => ?_)
  refine Idle.bind (listener_idle proxy request p.1 p.2) (fun _ => ?_)
  refine Idle.bind (Idle.stopIf rfl) (fun _ => ?_)
  refine Idle.bind (checkVerification_idle request p.1 p.2) (fun _ => ?_)
  refine Idle.bind (acquireCapacity_idle request p.1 p.2) (fun _ => ?_)
  exact Idle.bind (credential_idle request p.2) (fun _ => Idle.pure _)

/-- Past the gates: the site is the configured one, on its own kind of listener, and the
    credential was read from the headers. -/
theorem gates_ends {tr : List FilterSig.Event} {domain : String} {site : Site}
    {supplied : Supplied} (h : (gates X proxy request).Ends tr (.ok (domain, site, supplied))) :
    (⟨.site domain, some site⟩ : FilterSig.Event) ∈ tr ∧ proxy.tls = site.https ∧
      credential request site = .ok supplied := by
  unfold gates at h
  obtain ⟨⟨domain', site'⟩, tr₁, _, rfl, hroute, h⟩ := Stage.ends_bind_ok.mp h
  obtain ⟨_, tr₂, _, rfl, hlisten, h⟩ := Stage.ends_bind_ok.mp h
  obtain ⟨_, _, _, rfl, -, h⟩ := Stage.ends_bind_ok.mp h
  obtain ⟨_, _, _, rfl, -, h⟩ := Stage.ends_bind_ok.mp h
  obtain ⟨_, _, _, rfl, -, h⟩ := Stage.ends_bind_ok.mp h
  obtain ⟨supplied', _, _, rfl, hcred, h⟩ := Stage.ends_bind_ok.mp h
  obtain ⟨rfl, heq⟩ := Stage.ends_pure.mp h
  simp only [Except.ok.injEq, Prod.mk.injEq] at heq
  obtain ⟨rfl, rfl, rfl⟩ := heq
  exact ⟨List.mem_append_left _ (route_ends X request hroute),
    listener_ends proxy request _ _ hlisten, (Stage.ends_ofExcept.mp hcred).2⟩

end

/-! ### One admission for each request that gets through -/

/-- How a stage's result leaves the request. -/
def ending : Except Outcome Outcome → Outcome
  | .ok outcome => outcome
  | .error outcome => outcome

theorem runs_requestFilter {X : Crates} {proxy : Proxy} {request : Request}
    {tr : List FilterSig.Event} {outcome : Outcome}
    (h : Prog.Runs (requestFilter X proxy request) tr outcome) :
    ∃ r, (filterStages X proxy request).Ends tr r ∧ ending r = outcome := by
  obtain ⟨r, tr₁, tr₂, rfl, h₁, h₂⟩ := Prog.runs_bind.mp h
  cases r with
  | ok o =>
    obtain ⟨rfl, rfl⟩ := Prog.runs_ret.mp h₂
    exact ⟨.ok o, by rw [List.append_nil]; exact h₁, rfl⟩
  | error o =>
    obtain ⟨rfl, rfl⟩ := Prog.runs_ret.mp h₂
    exact ⟨.error o, by rw [List.append_nil]; exact h₁, rfl⟩

/-- **No free rides and no double charge.**  In every run of the filter, whatever the other
    components answer: the handler is reached only on the site's own kind of listener, and only
    if the site has no limit at all or exactly one admission happened; a request that does not
    reach the handler took no free token and had no settlement return `Ok`; and once a settlement
    returned `Ok` the free allowance is not asked. -/
theorem admitted_exactly_once {X : Crates} {proxy : Proxy} {request : Request}
    {tr : List FilterSig.Event} {outcome : Outcome}
    (h : Prog.Runs (requestFilter X proxy request) tr outcome) :
    (outcome.reached = true → ∃ domain site, (⟨.site domain, some site⟩ : FilterSig.Event) ∈ tr ∧
      proxy.tls = site.https ∧ (site.unlimited = true ∨ admissions tr = 1)) ∧
    (outcome.reached = false → ∀ e ∈ tr, freeToken e = false ∧ settled e = false) ∧
    ((∃ e ∈ tr, settled e = true) → ∀ e ∈ tr, asksFree e = false) := by
  have hnone : ∀ {tr : List FilterSig.Event}, admissions tr = 0 →
      ∀ e ∈ tr, freeToken e = false ∧ settled e = false := by
    intro tr htr e he
    simpa using List.countP_eq_zero.mp htr e he
  have hunpaid : ∀ {tr : List FilterSig.Event}, admissions tr = 0 →
      (∃ e ∈ tr, settled e = true) → ∀ e ∈ tr, asksFree e = false := by
    rintro tr htr ⟨e, he, hset⟩
    rw [(hnone htr e he).2] at hset
    exact absurd hset (by simp)
  obtain ⟨r, hends, rfl⟩ := runs_requestFilter h
  rcases Stage.ends_bind.mp hends with ⟨e, he, rfl⟩ | ⟨⟨domain, site, supplied⟩, tr₁, tr₂, rfl,
    hgates, hadmit⟩
  · -- Turned away at a gate.
    obtain ⟨hq, hr⟩ := gates_idle X proxy request _ _ he
    have hreach : (ending (.error e)).reached = false := hr e rfl
    exact ⟨fun h => absurd (hreach.symm.trans h) (by simp), fun _ => hnone hq.admissions,
      hunpaid hq.admissions⟩
  obtain ⟨hsite, htls, hcred⟩ := gates_ends X proxy request hgates
  have hq := (gates_idle X proxy request _ _ hgates).1
  have hsite' := List.mem_append_left tr₂ hsite
  rcases Stage.ends_bind.mp hadmit with ⟨e, he, rfl⟩ | ⟨receipt, tr₃, tr₄, rfl, hin, hout⟩
  · -- Turned away without an admission.
    have hlimited : site.unlimited = false := by
      by_contra hun
      rw [grant_unlimited X proxy request domain site hcred (by simpa using hun)] at he
      exact absurd (Stage.ends_pure.mp he).2 (by simp)
    obtain ⟨-, herr⟩ := grant_entry X proxy request domain site hcred hlimited _ _ he
    obtain ⟨hreach, hzero⟩ := herr e rfl
    have hall : admissions (tr₁ ++ tr₂) = 0 := by
      rw [admissions_append, hq.admissions, hzero]
    have hreach' : (ending (.error e)).reached = false := hreach
    exact ⟨fun h => absurd (hreach'.symm.trans h) (by simp), fun _ => hnone hall, hunpaid hall⟩
  · -- Let in.
    obtain ⟨rfl, rfl⟩ := Stage.ends_pure.mp hout
    rw [List.append_nil] at hsite' ⊢
    have hreach : (ending (.ok (handle request site receipt))).reached = true :=
      handle_reached request site receipt
    cases hlimited : site.unlimited with
    | true =>
      rw [grant_unlimited X proxy request domain site hcred hlimited] at hin
      obtain ⟨rfl, -⟩ := Stage.ends_pure.mp hin
      refine ⟨fun _ => ⟨domain, site, hsite', htls, .inl hlimited⟩,
        fun h => absurd (h.symm.trans hreach) (by simp), hunpaid ?_⟩
      rw [List.append_nil, hq.admissions]
    | false =>
      obtain ⟨hok, -⟩ := grant_entry X proxy request domain site hcred hlimited _ _ hin
      obtain ⟨hone, hpaid⟩ := hok receipt rfl
      refine ⟨fun _ => ⟨domain, site, hsite', htls, .inr ?_⟩,
        fun h => absurd (h.symm.trans hreach) (by simp), hq.paid_append hpaid⟩
      rw [admissions_append, hq.admissions, hone]

/-- A site with a free allowance and a fixed answer. -/
def testSite : Site where
  domain := "a.b"
  https := true
  handler := .respond "ok" 200
  rateLimit := some { limit := { perSecond := 1, burst := 3 }, ipv6Prefix := 64 }
  payment := none
  lightning := none
  capacity := none
  controls := { maxBodyBytes := none }
  paymentVerification := { limit := { perSecond := 2, burst := 8 }, ipv6Prefix := 64 }

def testRequest : Request where
  method := "GET"
  uri := { scheme := none, authority := some "a.b", path := "/", pathAndQuery := some "/" }
  headers := []
  client := some (.v4 0x7f000001)

def testFilterCrates : Crates where
  sha256 := id
  parseAuthority text := some { text, host := text }
  cashuChallenge _ := ""

def testProxy : Proxy where
  tls := true
  httpsPort := 443
  payments := false
  lightning := false

/-- A request on the free allowance: one token, and the fixed answer is served. -/
theorem admitted_exactly_once_free :
    ∃ tr outcome, Prog.Runs (requestFilter testFilterCrates testProxy testRequest) tr outcome ∧
      outcome.reached = true ∧ ∃ domain site, (⟨.site domain, some site⟩ : FilterSig.Event) ∈ tr ∧
        testProxy.tls = site.https ∧ (site.unlimited = true ∨ admissions tr = 1) := by
  have hrun : Prog.Runs (requestFilter testFilterCrates testProxy testRequest)
      [⟨.site "a.b", some testSite⟩, ⟨.rateLimit "a.b" (.v4 0x7f000001), .ok ()⟩]
      (.served { status := 200, body := "ok" }) := .op (.op (.ret _))
  exact ⟨_, _, hrun, rfl, (admitted_exactly_once hrun).1 rfl⟩

end Proxy

end Geata
