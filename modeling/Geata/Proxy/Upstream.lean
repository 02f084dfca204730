import Geata.Proxy.Gates
import Mathlib.Logic.Relation

namespace Geata.Proxy

open Geata.Lib Geata.Lightning

/-!
# From the filter to the backend

A request that the filter lets through is sent to a backend, and the answer comes back.  The server
calls one hook for each part: the choice of an address, a connection that fails, the head of the
request, each piece of its body, the head of the response.  It connects again when it is told to,
and when a connection it had kept open turns out to be closed.

* `upstreamPeer`, `failToConnect`, `upstreamRequestFilter`, `requestBodyFilter`, `responseFilter` —
  the hooks.
* `Exchange.Step` — the hooks in every order the server may call them in.
* `forwarded_exactly` — what the hooks make of the two heads.
* `addresses_in_turn` — which addresses are tried.
* `body_within_limit` — how much of the body gets through.
-/

/-! ### Headers -/

/-- `HeaderValue::from_str` -/
def headerValue (text : String) : Option HeaderValue :=
  if (bytes text).all visibleAscii then some (bytes text) else none

/-- `insert_header`: the one value of the header from now on.  Only the order of the values of one
    name has a meaning, so where the header stands is left open. -/
def insertHeader (headers : HeaderMap) (name value : String) : Option HeaderMap :=
  (headerValue value).map (fun v =>
    removeHeader headers name ++ [(String.ofList (toAsciiLowercase name.toList), v)])

section

variable {headers headers' : HeaderMap} {name name' value : String}

/-- Two spellings of one header name. -/
def SameName (name name' : String) : Prop :=
  toAsciiLowercase name.toList = toAsciiLowercase name'.toList

instance : Decidable (SameName name name') := inferInstanceAs (Decidable (_ = _))

theorem getAll_removeHeader (headers : HeaderMap) (name name' : String) :
    (removeHeader headers name).getAll name' =
      if SameName name' name then [] else headers.getAll name' := by
  unfold removeHeader HeaderMap.getAll
  rw [List.filter_filter]
  by_cases h : SameName name' name
  · rw [if_pos h, List.filter_eq_nil_iff.mpr]
    · rfl
    · intro field _
      rw [show toAsciiLowercase name'.toList = toAsciiLowercase name.toList from h]
      simp
  · rw [if_neg h]
    congr 1
    apply List.filter_congr
    intro field _
    by_cases hfield : field.1.toList = toAsciiLowercase name'.toList
    · have hne : field.1.toList ≠ toAsciiLowercase name.toList :=
        fun heq => h (hfield.symm.trans heq)
      simp [hfield, show ¬ toAsciiLowercase name'.toList = toAsciiLowercase name.toList from h]
    · simp [hfield]

theorem getAll_insertHeader (h : insertHeader headers name value = some headers') (name' : String) :
    headers'.getAll name' =
      if SameName name' name then [bytes value] else headers.getAll name' := by
  obtain ⟨v, hv, rfl⟩ := Option.map_eq_some_iff.mp h
  obtain rfl : bytes value = v := by
    unfold headerValue at hv
    split at hv
    · exact Option.some.inj hv
    · exact absurd hv (by simp)
  have hfield : HeaderMap.getAll
      [(String.ofList (toAsciiLowercase name.toList), bytes value)] name' =
      if SameName name' name then [bytes value] else [] := by
    by_cases hsame : SameName name' name
    · simp [HeaderMap.getAll, hsame, show toAsciiLowercase name'.toList = _ from hsame]
    · have hne : ¬ toAsciiLowercase name.toList = toAsciiLowercase name'.toList :=
        fun heq => hsame heq.symm
      simp [HeaderMap.getAll, hsame, hne]
  have happend : HeaderMap.getAll (removeHeader headers name ++
        [(String.ofList (toAsciiLowercase name.toList), bytes value)]) name' =
      (removeHeader headers name).getAll name' ++
        HeaderMap.getAll [(String.ofList (toAsciiLowercase name.toList), bytes value)] name' := by
    simp [HeaderMap.getAll]
  rw [happend, getAll_removeHeader, hfield]
  by_cases hsame : SameName name' name
  · simp [hsame]
  · simp [hsame]

end

/-! ### The hooks -/

structure SocketAddr where
  ip : IpAddr
  port : UInt16
  deriving DecidableEq

inductive ErrorType where
  | internalError
  | connectTimedout
  | connectError
  | httpStatus (status : ℕ)
  deriving DecidableEq

structure Error where
  kind : ErrorType
  text : String

/-- What the proxy remembers of a request. -/
structure RequestContext where
  site : Option Site
  host : String
  addresses : List SocketAddr := []
  addressIndex : ℕ := 0
  lightningReceipt : Option String := none
  bodyBytes : ℕ := 0

/-- A backend to connect to; the timeouts are in seconds. -/
structure HttpPeer where
  address : SocketAddr
  tls : Bool
  sni : String
  connectionTimeout : ℕ := 10
  totalConnectionTimeout : ℕ := 15
  readTimeout : ℕ := 300
  writeTimeout : ℕ := 300
  idleTimeout : ℕ := 60

/-- How a DNS lookup ends. -/
inductive Lookup where
  | timedOut
  | failed
  | found (addresses : List SocketAddr)

/-- The addresses kept of a lookup. -/
def Lookup.addresses : Lookup → List SocketAddr
  | .found addresses => addresses.take 8
  | _ => []

/-- The address to try next.  They are looked up when none are known; at most eight are kept. -/
def upstreamPeer (ctx : RequestContext) (lookup : Lookup) :
    Except Error HttpPeer × RequestContext :=
  match ctx.site.map Site.handler with
  | none => (.error ⟨.internalError, "request has no route"⟩, ctx)
  | some (.respond _ _) => (.error ⟨.internalError, "static response has no upstream"⟩, ctx)
  | some (.proxy upstream) =>
    let peer (ctx : RequestContext) : Except Error HttpPeer × RequestContext :=
      match ctx.addresses[ctx.addressIndex]? with
      | none => (.error ⟨.connectError, "backend has no addresses"⟩, ctx)
      | some address => (.ok { address, tls := upstream.tls, sni := upstream.host }, ctx)
    if ctx.addresses.isEmpty then
      match lookup with
      | .timedOut => (.error ⟨.connectTimedout, "backend DNS lookup timed out"⟩, ctx)
      | .failed => (.error ⟨.connectError, "backend DNS lookup failed"⟩, ctx)
      | .found addresses => peer { ctx with addresses := addresses.take 8 }
    else peer ctx

/-- The next address from now on, if there is one. -/
def failToConnect (ctx : RequestContext) : Bool × RequestContext :=
  let ctx := { ctx with addressIndex := ctx.addressIndex + 1 }
  (decide (ctx.addressIndex < ctx.addresses.length), ctx)

/-- Count a piece of the body; `written` is the status of the response, once there is one. -/
def requestBodyFilter (written : Option ℕ) (ctx : RequestContext) (body : Option (List UInt8)) :
    Except Error Unit × RequestContext :=
  if written = some 101 then (.ok (), ctx)
  else
    let ctx := { ctx with
      bodyBytes := saturatingAdd ctx.bodyBytes ((body.map List.length).getD 0) }
    if (ctx.site.bind (fun site => site.controls.maxBodyBytes)).any (fun max => max < ctx.bodyBytes)
    then (.error ⟨.httpStatus 413, "request body too large"⟩, ctx)
    else (.ok (), ctx)

/-- The site takes payments. -/
def Site.paid (site : Site) : Bool := site.payment.isSome || site.lightning.isSome

/-- Headers with which a client could claim to be a trusted proxy. -/
def forwardingHeaders : List String :=
  ["forwarded", "x-forwarded-for", "x-forwarded-host", "x-forwarded-proto", "x-forwarded-port",
    "x-real-ip"]

/-- Without bearer tokens, and without what a client says of its own address. -/
def withoutClaims (site : Option Site) (request : HeaderMap) : HeaderMap :=
  let request :=
    if site.any Site.paid then removeHeader (removeHeader request "X-Cashu") "payment-signature"
    else request
  let request := if site.any Site.l402Enabled then removeHeader request "authorization" else request
  forwardingHeaders.foldl removeHeader request

/-- The address of the client, if it has one. -/
def insertAddress (client : Option IpAddr) (request : HeaderMap) : Option HeaderMap :=
  match client with
  | none => some request
  | some ip => do
    let request ← insertHeader request "X-Forwarded-For" ip.display
    insertHeader request "X-Real-IP" ip.display

/-- The host the backend is asked for. -/
def insertHost (ctx : RequestContext) (request : HeaderMap) : Option HeaderMap :=
  match ctx.site.map Site.handler with
  | some (.proxy upstream) =>
    insertHeader request "Host" (if upstream.tls then upstream.authority else ctx.host)
  | _ => some request

/-- The head of a request to the backend. -/
def upstreamRequestFilter (proxy : Proxy) (client : Option IpAddr) (ctx : RequestContext)
    (request : HeaderMap) : Option HeaderMap := do
  let request ← insertAddress client (withoutClaims ctx.site request)
  let request ← insertHeader request "X-Forwarded-Proto" (if proxy.tls then "https" else "http")
  let request ← insertHeader request "X-Forwarded-Host" ctx.host
  insertHost ctx request

/-- The head of a response to the client. -/
def responseFilter (ctx : RequestContext) (response : HeaderMap) : Option HeaderMap :=
  if ctx.site.any Site.paid then do
    let response ← insertHeader response "Cache-Control" "no-store"
    let response := removeHeader response "payment-response"
    match ctx.lightningReceipt with
    | some receipt => insertHeader response "PAYMENT-RESPONSE" receipt
    | none => some response
  else some response

/-! ### An exchange with the backend -/

/-- Where an exchange stands. -/
inductive Stand where
  /-- An address is to be chosen. -/
  | choosing
  | connecting (peer : HttpPeer)
  | connected (peer : HttpPeer)
  /-- No address is left. -/
  | unreachable
  | failed (error : Option Error)

/-- An exchange, and what has happened in it: the connections that failed, the lookups, the heads
    the hooks were given beside what they made of them, how many bytes of the body came before an
    upgrade and how many of them the backends were sent. -/
structure Exchange where
  ctx : RequestContext
  stand : Stand := .choosing
  written : Option ℕ := none
  refused : List SocketAddr := []
  lookups : List Lookup := []
  requests : List (HeaderMap × HeaderMap) := []
  received : ℕ := 0
  sent : ℕ := 0
  responses : List (HeaderMap × HeaderMap) := []

/-- The addresses are looked up now. -/
def RequestContext.asks (ctx : RequestContext) : Bool :=
  match ctx.site.map Site.handler with
  | some (.proxy _) => ctx.addresses.isEmpty
  | _ => false

/-- The bytes of a piece of the body; after an upgrade they are no body. -/
def bodyLength (written : Option ℕ) (body : Option (List UInt8)) : ℕ :=
  if written = some 101 then 0 else (body.map List.length).getD 0

/-- One hook.  The heads are whatever the server has made of what the client and the backend
    sent: it takes the headers of one connection away, and those that `Connection` names. -/
inductive Exchange.Step (proxy : Proxy) (client : Option IpAddr) : Exchange → Exchange → Prop where
  | choose {x : Exchange} {lookup : Lookup} {peer : HttpPeer} {ctx : RequestContext}
      (hstand : x.stand = .choosing) (hpeer : upstreamPeer x.ctx lookup = (.ok peer, ctx)) :
      Step proxy client x { x with
        ctx
        stand := .connecting peer
        lookups := if x.ctx.asks then lookup :: x.lookups else x.lookups }
  | nowhere {x : Exchange} {lookup : Lookup} {error : Error} {ctx : RequestContext}
      (hstand : x.stand = .choosing) (hpeer : upstreamPeer x.ctx lookup = (.error error, ctx)) :
      Step proxy client x { x with
        ctx
        stand := .failed error
        lookups := if x.ctx.asks then lookup :: x.lookups else x.lookups }
  | refuse {x : Exchange} {peer : HttpPeer} {retry : Bool} {ctx : RequestContext}
      (hstand : x.stand = .connecting peer) (hfail : failToConnect x.ctx = (retry, ctx)) :
      Step proxy client x { x with
        ctx
        stand := if retry then .choosing else .unreachable
        refused := peer.address :: x.refused }
  /-- A connection, new or kept open; the head of the request is sent. -/
  | connect {x : Exchange} {peer : HttpPeer} {request request' : HeaderMap}
      (hstand : x.stand = .connecting peer)
      (hrequest : upstreamRequestFilter proxy client x.ctx request = some request') :
      Step proxy client x { x with
        stand := .connected peer
        requests := (request, request') :: x.requests }
  /-- A header cannot be made. -/
  | malformed {x : Exchange} {peer : HttpPeer} {request : HeaderMap}
      (hstand : x.stand = .connecting peer)
      (hrequest : upstreamRequestFilter proxy client x.ctx request = none) :
      Step proxy client x { x with stand := .failed none }
  | body {x : Exchange} {peer : HttpPeer} {body : Option (List UInt8)} {ctx : RequestContext}
      (hstand : x.stand = .connected peer)
      (hbody : requestBodyFilter x.written x.ctx body = (.ok (), ctx)) :
      Step proxy client x { x with
        ctx
        received := x.received + bodyLength x.written body
        sent := x.sent + bodyLength x.written body }
  | tooLarge {x : Exchange} {peer : HttpPeer} {body : Option (List UInt8)} {error : Error}
      {ctx : RequestContext} (hstand : x.stand = .connected peer)
      (hbody : requestBodyFilter x.written x.ctx body = (.error error, ctx)) :
      Step proxy client x { x with
        ctx
        stand := .failed error
        received := x.received + bodyLength x.written body }
  /-- A connection that was kept open turns out to be closed, and the server tries again. -/
  | closed {x : Exchange} {peer : HttpPeer} (hstand : x.stand = .connected peer) :
      Step proxy client x { x with stand := .choosing }
  | respond {x : Exchange} {peer : HttpPeer} {status : ℕ} {response response' : HeaderMap}
      (hstand : x.stand = .connected peer)
      (hresponse : responseFilter x.ctx response = some response') :
      Step proxy client x { x with
        written := some status
        responses := (response, response') :: x.responses }
  /-- The connection breaks, or the client goes away. -/
  | fail {x : Exchange} : Step proxy client x { x with stand := .failed none }

/-- What the proxy knows when the filter has let a request through. -/
def Exchange.start (request : Request) (site : Site) (receipt : Option String) : Exchange where
  ctx :=
    { site := some site
      host := request.authority.getD ""
      lightningReceipt := receipt }

/-! ### What the hooks do to the headers -/

section

variable {proxy : Proxy} {client : Option IpAddr} {ctx : RequestContext} {site : Site}
  {request head response : HeaderMap}

theorem getAll_foldl_removeHeader (names : List String) (request : HeaderMap) (name : String) :
    (names.foldl removeHeader request).getAll name =
      if ∃ n ∈ names, SameName name n then [] else request.getAll name := by
  induction names generalizing request with
  | nil => simp
  | cons n names ih =>
    rw [List.foldl_cons, ih, getAll_removeHeader]
    by_cases hn : SameName name n
    · simp [hn]
    · simp [hn]

/-- A header that is not passed on. -/
def Site.drops (site : Site) (name : String) : Prop :=
  (∃ n ∈ forwardingHeaders, SameName name n) ∨
    site.l402Enabled = true ∧ SameName name "authorization" ∨
    site.paid = true ∧ (SameName name "X-Cashu" ∨ SameName name "payment-signature")

instance (site : Site) (name : String) : Decidable (site.drops name) :=
  inferInstanceAs (Decidable (_ ∨ _ ∨ _))

theorem getAll_removeIf (c : Bool) (request : HeaderMap) (name name' : String) :
    (if c then removeHeader request name' else request).getAll name =
      if c = true ∧ SameName name name' then [] else request.getAll name := by
  cases c with
  | true => rw [if_pos rfl, getAll_removeHeader]; simp
  | false => simp

theorem getAll_withoutClaims (site : Site) (request : HeaderMap) (name : String) :
    (withoutClaims (some site) request).getAll name =
      if site.drops name then [] else request.getAll name := by
  unfold withoutClaims
  have hpaid : (if site.paid then removeHeader (removeHeader request "X-Cashu") "payment-signature"
      else request).getAll name = if site.paid = true ∧ (SameName name "X-Cashu" ∨
        SameName name "payment-signature") then [] else request.getAll name := by
    cases site.paid with
    | true =>
      rw [if_pos rfl, getAll_removeHeader, getAll_removeHeader]
      by_cases h : SameName name "payment-signature"
      · simp [h]
      · simp [h]
    | false => simp
  rw [getAll_foldl_removeHeader]
  simp only [Option.any_some]
  rw [getAll_removeIf, hpaid]
  by_cases hf : ∃ n ∈ forwardingHeaders, SameName name n
  · rw [if_pos hf, if_pos (show site.drops name from .inl hf)]
  · rw [if_neg hf]
    by_cases hl : site.l402Enabled = true ∧ SameName name "authorization"
    · rw [if_pos hl, if_pos (show site.drops name from .inr (.inl hl))]
    · rw [if_neg hl]
      by_cases hp : site.paid = true ∧ (SameName name "X-Cashu" ∨ SameName name "payment-signature")
      · rw [if_pos hp, if_pos (show site.drops name from .inr (.inr hp))]
      · rw [if_neg hp, if_neg]
        rintro (h | h | h)
        · exact hf h
        · exact hl h
        · exact hp h

/-- What is not dropped passes the filter as well. -/
theorem getAll_strippedHeaders (request : Request) {name : String} (h : ¬ site.drops name) :
    (strippedHeaders request site).getAll name = request.headers.getAll name := by
  have hl : ¬ (site.l402Enabled = true ∧ SameName name "authorization") :=
    fun hl => h (.inr (.inl hl))
  have hp : site.paid = true → ¬ SameName name "X-Cashu" ∧ ¬ SameName name "payment-signature" :=
    fun hp => ⟨fun hn => h (.inr (.inr ⟨hp, .inl hn⟩)), fun hn => h (.inr (.inr ⟨hp, .inr hn⟩))⟩
  show (if site.paid = true then _ else _ : HeaderMap).getAll name = _
  split
  · rename_i hpaid
    rw [getAll_removeHeader, if_neg (hp hpaid).2, getAll_removeHeader, if_neg (hp hpaid).1,
      getAll_removeIf, if_neg hl]
  · rw [getAll_removeIf, if_neg hl]

/-- The values a backend gets of a header, of those in the head that the hook is given. -/
def forwardedValues (proxy : Proxy) (client : Option IpAddr) (site : Site) (upstream : Upstream)
    (host : String) (request : HeaderMap) (name : String) : List HeaderValue :=
  if SameName name "Host" then [bytes (if upstream.tls then upstream.authority else host)]
  else if SameName name "X-Forwarded-Host" then [bytes host]
  else if SameName name "X-Forwarded-Proto" then [bytes (if proxy.tls then "https" else "http")]
  else if SameName name "X-Real-IP" ∨ SameName name "X-Forwarded-For" then
    (client.map (fun ip => bytes ip.display)).toList
  else if site.drops name then []
  else request.getAll name

theorem getAll_insertAddress {addressed : HeaderMap}
    (h : insertAddress client request = some addressed)
    (hnone : ∀ name, SameName name "X-Real-IP" ∨ SameName name "X-Forwarded-For" →
      request.getAll name = []) (name : String) :
    addressed.getAll name = if SameName name "X-Real-IP" ∨ SameName name "X-Forwarded-For" then
      (client.map (fun ip => bytes ip.display)).toList else request.getAll name := by
  cases client with
  | none =>
    obtain rfl := Option.some.inj h
    split
    · rename_i hname
      exact hnone name hname
    · rfl
  | some ip =>
    obtain ⟨request', h₁, h₂⟩ := Option.bind_eq_some_iff.mp h
    rw [getAll_insertHeader h₂, getAll_insertHeader h₁]
    by_cases hreal : SameName name "X-Real-IP"
    · simp [hreal]
    · by_cases hfor : SameName name "X-Forwarded-For"
      · simp [hfor]
      · simp [hreal, hfor]

theorem getAll_upstreamRequestFilter {upstream : Upstream}
    (h : upstreamRequestFilter proxy client ctx request = some head) (hsite : ctx.site = some site)
    (hupstream : site.handler = .proxy upstream) (name : String) : head.getAll name =
      forwardedValues proxy client site upstream ctx.host request name := by
  obtain ⟨addressed, haddressed, h⟩ := Option.bind_eq_some_iff.mp h
  obtain ⟨schemed, hschemed, h⟩ := Option.bind_eq_some_iff.mp h
  obtain ⟨hosted, hhosted, h⟩ := Option.bind_eq_some_iff.mp h
  rw [hsite] at haddressed
  simp only [insertHost, hsite, Option.map_some, hupstream] at h
  -- The client's own claims are gone before the address is inserted.
  have hgone : ∀ name, SameName name "X-Real-IP" ∨ SameName name "X-Forwarded-For" →
      (withoutClaims (some site) request).getAll name = [] := by
    intro name hname
    rw [getAll_withoutClaims, if_pos]
    left
    rcases hname with hname | hname
    · exact ⟨"x-real-ip", by decide, hname.trans (by decide)⟩
    · exact ⟨"x-forwarded-for", by decide, hname.trans (by decide)⟩
  rw [getAll_insertHeader h, getAll_insertHeader hhosted, getAll_insertHeader hschemed,
    getAll_insertAddress haddressed hgone, getAll_withoutClaims]
  rfl

/-- The values a client gets of a header, of those in the head that the hook is given. -/
def answeredValues (site : Site) (receipt : Option String) (response : HeaderMap) (name : String) :
    List HeaderValue :=
  if site.paid = true ∧ SameName name "PAYMENT-RESPONSE" then (receipt.map bytes).toList
  else if site.paid = true ∧ SameName name "Cache-Control" then [bytes "no-store"]
  else response.getAll name

theorem getAll_responseFilter (h : responseFilter ctx response = some head)
    (hsite : ctx.site = some site) (name : String) :
    head.getAll name = answeredValues site ctx.lightningReceipt response name := by
  unfold answeredValues
  simp only [responseFilter, hsite, Option.any_some] at h
  by_cases hpaid : site.paid = true
  swap
  · rw [if_neg hpaid] at h
    obtain rfl := Option.some.inj h
    simp [hpaid]
  rw [if_pos hpaid] at h
  simp only [hpaid, true_and]
  obtain ⟨cached, hcached, h⟩ := Option.bind_eq_some_iff.mp h
  have hsame : SameName name "payment-response" ↔ SameName name "PAYMENT-RESPONSE" :=
    ⟨fun h => h.trans (by decide), fun h => h.trans (by decide)⟩
  cases hr : ctx.lightningReceipt with
  | none =>
    rw [hr] at h
    obtain rfl := Option.some.inj h
    rw [getAll_removeHeader, getAll_insertHeader hcached]
    simp only [hsame, Option.map_none, Option.toList_none]
  | some receipt =>
    rw [hr] at h
    rw [getAll_insertHeader h, getAll_removeHeader, getAll_insertHeader hcached]
    by_cases hname : SameName name "PAYMENT-RESPONSE"
    · simp [hname]
    · simp [hname, hsame]

end

/-! ### What the filter hands over -/

/-- The receipt of an x402 settlement. -/
def receiptOf : FilterSig.Event → Option String
  | ⟨.settle _ _ _, .ok receipt⟩ => some receipt
  | _ => none

/-- The receipt of a run. -/
def receipts (tr : List FilterSig.Event) : Option String := tr.findSome? receiptOf

theorem receipts_append (tr tr' : List FilterSig.Event) :
    receipts (tr ++ tr') = (receipts tr).or (receipts tr') := List.findSome?_append

theorem receipts_eq_none {tr : List FilterSig.Event} (h : ∀ e ∈ tr, e.1.method ≠ some .x402) :
    receipts tr = none := by
  rw [receipts, List.findSome?_eq_none_iff]
  rintro ⟨o, r⟩ he
  cases o with
  | settle policy hash encoded => exact absurd rfl (h _ he)
  | _ => rfl

section

variable {X : Crates} {proxy : Proxy} {request : Request} {domain : String} {site : Site}

theorem settleWith_receipts {usingL402 : Bool} {policy : Policy} {hash encoded : String}
    {tr : List FilterSig.Event} {receipt : Option String}
    (h : (settleWith usingL402 policy hash encoded).Ends tr (.ok receipt)) :
    receipts tr = receipt := by
  unfold settleWith at h
  split at h
  · obtain ⟨answer, _, _, rfl, hasked, hdone⟩ := Stage.ends_bind_ok.mp h
    obtain ⟨_, rfl, heq⟩ := Stage.ends_perform.mp hasked
    obtain rfl := Except.ok.inj heq
    cases answer with
    | error error => exact absurd (Stage.ends_throw.mp hdone).2 (by simp)
    | ok u =>
      obtain ⟨rfl, heq⟩ := Stage.ends_pure.mp hdone
      rw [← Except.ok.inj heq]
      rfl
  · obtain ⟨answer, _, _, rfl, hasked, hdone⟩ := Stage.ends_bind_ok.mp h
    obtain ⟨_, rfl, heq⟩ := Stage.ends_perform.mp hasked
    obtain rfl := Except.ok.inj heq
    cases answer with
    | error error => exact absurd (Stage.ends_throw.mp hdone).2 (by simp)
    | ok receipt' =>
      obtain ⟨rfl, heq⟩ := Stage.ends_pure.mp hdone
      rw [← Except.ok.inj heq]
      rfl

theorem payLightning_receipts {usingL402 : Bool} {encoded : String} {tr : List FilterSig.Event}
    {receipt : Option String}
    (h : (payLightning X proxy request site usingL402 encoded).Ends tr (.ok receipt)) :
    receipts tr = receipt := by
  unfold payLightning at h
  obtain ⟨_, _, tr₁, rfl, hstop, h₁⟩ := Stage.ends_bind_ok.mp h
  obtain ⟨rfl, -⟩ := Stage.ends_stopIf.mp hstop
  cases hl : site.lightning with
  | none =>
    rw [hl] at h₁
    exact absurd (Stage.ends_throw.mp h₁).2 (by simp)
  | some policy =>
    simp only [hl] at h₁
    obtain ⟨_, _, tr₂, rfl, hstop, h₂⟩ := Stage.ends_bind_ok.mp h₁
    obtain ⟨rfl, -⟩ := Stage.ends_stopIf.mp hstop
    obtain ⟨bound, tr₃, tr₄, rfl, hbind, h₃⟩ := Stage.ends_bind_ok.mp h₂
    have hnone : receipts tr₃ = none := by
      apply receipts_eq_none
      intro e he
      rw [(Stage.All.ends (lightningBinding_harmless X proxy request _ _) hbind e he).1]
      simp
    cases bound with
    | error error => exact absurd (Stage.ends_throw.mp h₃).2 (by simp)
    | ok bound =>
      rw [List.nil_append, List.nil_append, receipts_append, hnone, Option.none_or]
      exact settleWith_receipts h₃

theorem payCashu_receipts {value : HeaderValue} {tr : List FilterSig.Event}
    {receipt : Option String}
    (h : (payCashu proxy request domain site value).Ends tr (.ok receipt)) :
    receipts tr = receipt := by
  unfold payCashu at h
  obtain ⟨_, _, tr₁, rfl, hstop, h₁⟩ := Stage.ends_bind_ok.mp h
  obtain ⟨rfl, -⟩ := Stage.ends_stopIf.mp hstop
  cases hp : site.payment with
  | none =>
    rw [hp] at h₁
    exact absurd (Stage.ends_throw.mp h₁).2 (by simp)
  | some policy =>
    simp only [hp] at h₁
    obtain ⟨_, _, tr₂, rfl, hstop, h₂⟩ := Stage.ends_bind_ok.mp h₁
    obtain ⟨rfl, -⟩ := Stage.ends_stopIf.mp hstop
    cases htext : value.toStr with
    | none =>
      rw [htext] at h₂
      exact absurd (Stage.ends_throw.mp h₂).2 (by simp)
    | some encoded =>
      simp only [htext] at h₂
      obtain ⟨_, _, tr₃, rfl, hstop, h₃⟩ := Stage.ends_bind_ok.mp h₂
      obtain ⟨rfl, -⟩ := Stage.ends_stopIf.mp hstop
      obtain ⟨answer, _, _, rfl, hasked, hdone⟩ := Stage.ends_bind_ok.mp h₃
      obtain ⟨_, rfl, heq⟩ := Stage.ends_perform.mp hasked
      obtain rfl := Except.ok.inj heq
      cases answer with
      | error error =>
        cases error with
        | invalid => exact absurd (Stage.ends_throw.mp hdone).2 (by simp)
        | unavailable => exact absurd (Stage.ends_throw.mp hdone).2 (by simp)
      | ok u =>
        obtain ⟨rfl, heq⟩ := Stage.ends_pure.mp hdone
        rw [← Except.ok.inj heq]
        rfl

/-- A request that pays nothing has no receipt. -/
theorem payNothing_receipt {tr : List FilterSig.Event} {receipt : Option String}
    (h : (payNothing X proxy request domain site).Ends tr (.ok receipt)) : receipt = none := by
  unfold payNothing at h
  split at h
  · exact (Except.ok.inj (Stage.ends_pure.mp h).2).symm
  · obtain ⟨client, _, _, rfl, -, h₁⟩ := Stage.ends_bind_ok.mp h
    obtain ⟨wait, _, _, rfl, -, h₂⟩ := Stage.ends_bind_ok.mp h₁
    split at h₂
    · obtain ⟨outcome, heq⟩ := requirePayment_ends X proxy request site h₂
      exact absurd heq (by simp)
    · exact (Except.ok.inj (Stage.ends_pure.mp h₂).2).symm

/-- A request is let in with the receipt of its own settlement, if that is one of x402. -/
theorem grant_receipts {supplied : Supplied} {tr : List FilterSig.Event} {receipt : Option String}
    (h : (grant X proxy request domain site supplied).Ends tr (.ok receipt)) :
    receipts tr = receipt := by
  cases supplied with
  | l402 encoded => exact payLightning_receipts h
  | x402 encoded => exact payLightning_receipts h
  | cashu value => exact payCashu_receipts h
  | nothing =>
    have hreceipt := payNothing_receipt h
    rw [hreceipt]
    apply receipts_eq_none
    intro e he
    rw [Stage.All.ends (payNothing_settles_nothing X proxy request domain site) h e he]
    simp

/-- What the filter hands over: the head without bearer tokens, and the receipt, for a site of the
    configuration that has a backend. -/
theorem proxied_from {tr : List FilterSig.Event} {headers : HeaderMap} {receipt : Option String}
    (h : Prog.Runs (requestFilter X proxy request) tr (.proxied headers receipt)) :
    ∃ domain site upstream, (⟨.site domain, some site⟩ : FilterSig.Event) ∈ tr ∧
      site.handler = .proxy upstream ∧ headers = strippedHeaders request site ∧
      receipts tr = receipt := by
  obtain ⟨r, hends, hending⟩ := runs_requestFilter h
  rcases Stage.ends_bind.mp hends with ⟨outcome, he, rfl⟩ | ⟨⟨domain, site, supplied⟩, tr₁, tr₂,
    rfl, hgates, hadmit⟩
  · -- Turned away at a gate.
    have hreach := (gates_idle X proxy request _ _ he).2 outcome rfl
    obtain rfl : outcome = .proxied headers receipt := hending
    exact absurd hreach (by simp [Outcome.reached])
  obtain ⟨hsite, -, hcred⟩ := gates_ends X proxy request hgates
  rcases Stage.ends_bind.mp hadmit with ⟨outcome, he, rfl⟩ | ⟨receipt', tr₃, tr₄, rfl, hin, hout⟩
  · -- Turned away without an admission.
    obtain rfl : outcome = .proxied headers receipt := hending
    have hlimited : site.unlimited = false := by
      by_contra hun
      rw [grant_unlimited X proxy request domain site hcred (by simpa using hun)] at he
      exact absurd (Stage.ends_pure.mp he).2 (by simp)
    have hreach := ((grant_entry X proxy request domain site hcred hlimited _ _ he).2 _ rfl).1
    exact absurd hreach (by simp [Outcome.reached])
  · obtain ⟨rfl, rfl⟩ := Stage.ends_pure.mp hout
    have hhandle : handle request site receipt' = .proxied headers receipt := hending
    have hnone : receipts tr₁ = none := by
      apply receipts_eq_none
      intro e he
      rw [Stage.All.ends (gates_settle_nothing X proxy request) hgates e he]
      simp
    unfold handle at hhandle
    cases hhandler : site.handler with
    | respond body status => simp [hhandler] at hhandle
    | proxy upstream =>
      simp only [hhandler, Outcome.proxied.injEq] at hhandle
      obtain ⟨rfl, rfl⟩ := hhandle
      refine ⟨domain, site, upstream, List.mem_append_left _ hsite, hhandler, rfl, ?_⟩
      rw [List.append_nil, receipts_append, hnone, Option.none_or, grant_receipts hin]

end

/-! ### Whole exchanges -/

section

variable {proxy : Proxy} {client : Option IpAddr} {x x' : Exchange} {ctx ctx' : RequestContext}

theorem addresses_of_asks (h : ctx.asks = true) : ctx.addresses = [] := by
  unfold RequestContext.asks at h
  split at h
  · exact List.isEmpty_iff.mp h
  · exact absurd h (by simp)

/-- What `upstreamPeer` changes, and where its peer comes from. -/
theorem upstreamPeer_spec {lookup : Lookup} {answer : Except Error HttpPeer}
    (h : upstreamPeer ctx lookup = (answer, ctx')) :
    ctx' = (if ctx.asks then { ctx with addresses := lookup.addresses } else ctx) ∧
    ∀ peer, answer = .ok peer → ctx'.addresses[ctx'.addressIndex]? = some peer.address := by
  have hpeer : ∀ (upstream : Upstream) (ctx : RequestContext),
      (match ctx.addresses[ctx.addressIndex]? with
        | none => (.error ⟨.connectError, "backend has no addresses"⟩, ctx)
        | some address => (.ok { address, tls := upstream.tls, sni := upstream.host }, ctx) :
        Except Error HttpPeer × RequestContext) = (answer, ctx') →
      ctx' = ctx ∧
        ∀ peer, answer = .ok peer → ctx'.addresses[ctx'.addressIndex]? = some peer.address := by
    intro upstream ctx h
    split at h
    · obtain ⟨rfl, rfl⟩ := Prod.mk.inj h
      exact ⟨rfl, by simp⟩
    · rename_i address haddress
      obtain ⟨rfl, rfl⟩ := Prod.mk.inj h
      refine ⟨rfl, fun peer hpeer => ?_⟩
      rw [haddress, ← Except.ok.inj hpeer]
  unfold upstreamPeer at h
  unfold RequestContext.asks
  split at h
  · rename_i hhandler
    obtain ⟨rfl, rfl⟩ := Prod.mk.inj h
    rw [hhandler]
    exact ⟨rfl, by simp⟩
  · rename_i hhandler
    obtain ⟨rfl, rfl⟩ := Prod.mk.inj h
    rw [hhandler]
    exact ⟨rfl, by simp⟩
  · rename_i upstream hhandler
    rw [hhandler]
    dsimp only at h
    by_cases hempty : ctx.addresses.isEmpty = true
    · have hsame : { ctx with addresses := [] } = ctx := by
        rw [← List.isEmpty_iff.mp hempty]
      rw [if_pos hempty] at h ⊢
      cases lookup with
      | timedOut =>
        obtain ⟨rfl, rfl⟩ := Prod.mk.inj h
        exact ⟨hsame.symm, by simp⟩
      | failed =>
        obtain ⟨rfl, rfl⟩ := Prod.mk.inj h
        exact ⟨hsame.symm, by simp⟩
      | found addresses => exact hpeer upstream { ctx with addresses := addresses.take 8 } h
    · rw [if_neg hempty] at h ⊢
      exact hpeer upstream ctx h

/-- The limit of a site on its request bodies. -/
def RequestContext.maxBodyBytes (ctx : RequestContext) : Option ℕ :=
  ctx.site.bind (fun site => site.controls.maxBodyBytes)

/-- What `requestBodyFilter` changes, and when it lets a piece pass. -/
theorem requestBodyFilter_spec {written : Option ℕ} {body : Option (List UInt8)}
    {answer : Except Error Unit} (h : requestBodyFilter written ctx body = (answer, ctx')) :
    ctx' = { ctx with bodyBytes := if written = some 101 then ctx.bodyBytes
      else saturatingAdd ctx.bodyBytes (bodyLength written body) } ∧
    ((∃ error, answer = .error error) ↔
      written ≠ some 101 ∧ ∃ max, ctx.maxBodyBytes = some max ∧ max < ctx'.bodyBytes) := by
  unfold requestBodyFilter at h
  by_cases hwritten : written = some 101
  · rw [if_pos hwritten] at h
    obtain ⟨rfl, rfl⟩ := Prod.mk.inj h
    simp [hwritten]
  · rw [if_neg hwritten] at h
    simp only [bodyLength, if_neg hwritten]
    dsimp only at h
    split at h
    · rename_i hany
      obtain ⟨rfl, rfl⟩ := Prod.mk.inj h
      obtain ⟨max, hmax, hlt⟩ := (Option.any_eq_true _ _).mp hany
      refine ⟨rfl, ?_⟩
      simp only [ne_eq, hwritten, not_false_eq_true, true_and, Except.error.injEq, exists_eq']
      exact ⟨fun _ => ⟨max, hmax, by simpa using hlt⟩, fun _ => trivial⟩
    · rename_i hany
      obtain ⟨rfl, rfl⟩ := Prod.mk.inj h
      refine ⟨rfl, ?_⟩
      simp only [reduceCtorEq, exists_false, false_iff, not_and, not_exists, not_lt]
      intro _ max hmax
      by_contra hlt
      rw [not_le] at hlt
      apply hany
      rw [show ctx.site.bind _ = some max from hmax]
      simpa using hlt

/-- The route and the receipt stay as they are. -/
structure SameRoute (ctx ctx' : RequestContext) : Prop where
  site : ctx'.site = ctx.site
  host : ctx'.host = ctx.host
  receipt : ctx'.lightningReceipt = ctx.lightningReceipt

theorem SameRoute.trans {ctx'' : RequestContext} (h : SameRoute ctx ctx')
    (h' : SameRoute ctx' ctx'') : SameRoute ctx ctx'' :=
  ⟨h'.site.trans h.site, h'.host.trans h.host, h'.receipt.trans h.receipt⟩

theorem upstreamPeer_route {lookup : Lookup} {answer : Except Error HttpPeer}
    (h : upstreamPeer ctx lookup = (answer, ctx')) : SameRoute ctx ctx' := by
  rw [(upstreamPeer_spec h).1]
  split
  · exact ⟨rfl, rfl, rfl⟩
  · exact ⟨rfl, rfl, rfl⟩

theorem requestBodyFilter_route {written : Option ℕ} {body : Option (List UInt8)}
    {answer : Except Error Unit} (h : requestBodyFilter written ctx body = (answer, ctx')) :
    SameRoute ctx ctx' := by
  rw [(requestBodyFilter_spec h).1]
  exact ⟨rfl, rfl, rfl⟩

theorem upstreamRequestFilter_route (h : SameRoute ctx ctx') (request : HeaderMap) :
    upstreamRequestFilter proxy client ctx' request =
      upstreamRequestFilter proxy client ctx request := by
  unfold upstreamRequestFilter insertHost
  rw [h.site, h.host]

theorem responseFilter_route (h : SameRoute ctx ctx') (response : HeaderMap) :
    responseFilter ctx' response = responseFilter ctx response := by
  unfold responseFilter
  rw [h.site, h.receipt]

theorem Exchange.Step.route (h : Exchange.Step proxy client x x') :
    SameRoute x.ctx x'.ctx := by
  cases h with
  | choose _ hpeer => exact upstreamPeer_route hpeer
  | nowhere _ hpeer => exact upstreamPeer_route hpeer
  | refuse _ hfail =>
    rw [← (Prod.mk.inj hfail).2]
    exact ⟨rfl, rfl, rfl⟩
  | body _ hbody => exact requestBodyFilter_route hbody
  | tooLarge _ hbody => exact requestBodyFilter_route hbody
  | _ => exact ⟨rfl, rfl, rfl⟩

/-- A backend sees nothing but the heads the hook makes. -/
theorem Exchange.Step.mem_requests {p : HeaderMap × HeaderMap}
    (h : Exchange.Step proxy client x x') (hmem : p ∈ x'.requests) :
    p ∈ x.requests ∨ upstreamRequestFilter proxy client x.ctx p.1 = some p.2 := by
  cases h with
  | connect _ hrequest =>
    rcases List.mem_cons.mp hmem with rfl | hmem
    · exact .inr hrequest
    · exact .inl hmem
  | _ => exact .inl hmem

theorem Exchange.Step.mem_responses {p : HeaderMap × HeaderMap}
    (h : Exchange.Step proxy client x x') (hmem : p ∈ x'.responses) :
    p ∈ x.responses ∨ responseFilter x.ctx p.1 = some p.2 := by
  cases h with
  | respond _ hresponse =>
    rcases List.mem_cons.mp hmem with rfl | hmem
    · exact .inr hresponse
    · exact .inl hmem
  | _ => exact .inl hmem

/-- All heads are those of the context the exchange began with. -/
structure Exchange.Forwards (proxy : Proxy) (client : Option IpAddr) (ctx : RequestContext)
    (x : Exchange) : Prop where
  route : SameRoute ctx x.ctx
  requests : ∀ p ∈ x.requests, upstreamRequestFilter proxy client ctx p.1 = some p.2
  responses : ∀ p ∈ x.responses, responseFilter ctx p.1 = some p.2

theorem Exchange.Forwards.step (hx : x.Forwards proxy client ctx)
    (h : Exchange.Step proxy client x x') : x'.Forwards proxy client ctx where
  route := hx.route.trans h.route
  requests p hmem := by
    rcases h.mem_requests hmem with hmem | hp
    · exact hx.requests p hmem
    · rwa [← upstreamRequestFilter_route hx.route]
  responses p hmem := by
    rcases h.mem_responses hmem with hmem | hp
    · exact hx.responses p hmem
    · rwa [← responseFilter_route hx.route]

theorem Exchange.Forwards.run (hx : x.Forwards proxy client ctx)
    (h : Relation.ReflTransGen (Exchange.Step proxy client) x x') :
    x'.Forwards proxy client ctx := by
  induction h with
  | refl => exact hx
  | tail _ hstep ih => exact ih.step hstep

end

/-- Of a header that is as the filter left it, a backend gets what the client sent. -/
theorem forwardedValues_strippedHeaders (proxy : Proxy) (client : Option IpAddr) (site : Site)
    (upstream : Upstream) (host : String) (request : Request) {given : HeaderMap} {name : String}
    (h : given.getAll name = (strippedHeaders request site).getAll name) :
    forwardedValues proxy client site upstream host given name =
      forwardedValues proxy client site upstream host request.headers name := by
  unfold forwardedValues
  by_cases hdrops : site.drops name
  · simp [hdrops]
  · simp [hdrops, h, getAll_strippedHeaders request hdrops]

/-- **What gets through.**  The filter lets a request through to a backend.  However often the
    exchange is tried again, and whatever head the server gives to the hook, what the hook makes of
    it for a backend has the forwarding headers and the host of the proxy, none of the client's
    claims and none of the bearer tokens of a paid site, and the given values of every other header;
    where the server has left a header as the filter did, these are the values the client sent.
    What the other hook makes of an answer has the values given, but a paid site's answer is never
    stored and carries the receipt of this request's own settlement or none. -/
theorem forwarded_exactly {X : Crates} {proxy : Proxy} {request : Request}
    {tr : List FilterSig.Event} {headers : HeaderMap} {receipt : Option String}
    (h : Prog.Runs (requestFilter X proxy request) tr (.proxied headers receipt)) :
    ∃ domain site upstream, (⟨.site domain, some site⟩ : FilterSig.Event) ∈ tr ∧
      site.handler = .proxy upstream ∧
      ∀ x, Relation.ReflTransGen (Exchange.Step proxy request.client)
          (Exchange.start request site receipt) x →
        (∀ p ∈ x.requests, ∀ name,
          p.2.getAll name = forwardedValues proxy request.client site upstream
            (request.authority.getD "") p.1 name ∧
          (p.1.getAll name = headers.getAll name →
            p.2.getAll name = forwardedValues proxy request.client site upstream
              (request.authority.getD "") request.headers name)) ∧
        ∀ p ∈ x.responses, ∀ name,
          p.2.getAll name = answeredValues site (receipts tr) p.1 name := by
  obtain ⟨domain, site, upstream, hsite, hhandler, rfl, rfl⟩ := proxied_from h
  refine ⟨domain, site, upstream, hsite, hhandler, fun x hx => ?_⟩
  have hstart : (Exchange.start request site (receipts tr)).Forwards proxy request.client
      (Exchange.start request site (receipts tr)).ctx :=
    ⟨⟨rfl, rfl, rfl⟩, by simp [Exchange.start], by simp [Exchange.start]⟩
  have hforwards := hstart.run hx
  constructor
  · intro p hmem name
    have hgiven := getAll_upstreamRequestFilter (hforwards.requests p hmem) rfl hhandler name
    exact ⟨hgiven, fun hsame =>
      hgiven.trans (forwardedValues_strippedHeaders _ _ _ _ _ _ hsame)⟩
  · intro p hmem name
    exact getAll_responseFilter (hforwards.responses p hmem) rfl name

/-- A site with a price and a backend. -/
def testBackendSite : Site :=
  { testPaidSite with
    handler := .proxy { host := "back.test", port := 80, tls := false, authority := "back.test" } }

def testAddress : SocketAddr := ⟨.v4 0x0a000001, 80⟩

/-- A request that pays, with a header of its own connection. -/
def testHopRequest : Request :=
  { testPaidRequest with
    headers := ("accept", bytes "*") :: ("connection", bytes "x-hop") :: ("x-hop", bytes "1") ::
      testPaidRequest.headers }

/-- A paid request, tried again after a closed connection: the token stays with the proxy as the
    headers of the connection do with the server, the others reach the backend as they were sent,
    and what the backend calls a receipt is not passed on. -/
theorem forwarded_exactly_paid :
    ∃ headers x, Relation.ReflTransGen
        (Exchange.Step { testProxy with payments := true } testHopRequest.client)
        (Exchange.start testHopRequest testBackendSite none) x ∧
      x.requests.map Prod.fst = [headers, headers] ∧
      (∀ p ∈ x.requests, p.2.getAll "X-Cashu" = [] ∧ p.2.getAll "x-hop" = [] ∧
        p.2.getAll "x-forwarded-for" = [bytes "127.0.0.1"] ∧ p.2.getAll "accept" = [bytes "*"]) ∧
      ∃ p ∈ x.responses, p.2.getAll "Payment-Response" = [] := by
  have hrun : Prog.Runs (requestFilter testFilterCrates { testProxy with payments := true }
      testHopRequest)
      [⟨.site "a.b", some testBackendSite⟩,
        ⟨.paymentVerification "a.b" (.v4 0x7f000001), .ok ()⟩,
        ⟨.capacity "a.b" (.v4 0x7f000001), true⟩,
        ⟨.collect "a.b" { mint := "https://mint.test", price := 2 } "t", .ok ()⟩]
      (.proxied (strippedHeaders testHopRequest testBackendSite) none) :=
    .op (.op (.op (.op (.ret _))))
  obtain ⟨domain, site, upstream, hsite, hhandler, hall⟩ := forwarded_exactly hrun
  obtain ⟨rfl, rfl⟩ : domain = "a.b" ∧ site = testBackendSite := by
    simpa [Sigma.mk.injEq, FilterOp.site.injEq] using hsite
  obtain rfl := Handler.proxy.inj hhandler
  -- Looked up once, then connected twice.
  let ctx := (Exchange.start testHopRequest testBackendSite none).ctx
  let ctx' := { ctx with addresses := [testAddress] }
  let given := removeHeader (removeHeader (strippedHeaders testHopRequest testBackendSite)
    "connection") "x-hop"
  have hpeer : upstreamPeer ctx (.found [testAddress]) =
      (.ok { address := testAddress, tls := false, sni := "back.test" }, ctx') := rfl
  have hagain : upstreamPeer ctx' .failed =
      (.ok { address := testAddress, tls := false, sni := "back.test" }, ctx') := rfl
  have hhead : (upstreamRequestFilter { testProxy with payments := true } testHopRequest.client
      ctx' given).isSome = true := by decide +kernel
  obtain ⟨head, hhead⟩ := Option.isSome_iff_exists.mp hhead
  have hanswer : (responseFilter ctx' [("payment-response", [116])]).isSome = true := by
    decide +kernel
  obtain ⟨answer, hanswer⟩ := Option.isSome_iff_exists.mp hanswer
  have hstart : Relation.ReflTransGen (Exchange.Step { testProxy with payments := true }
      testHopRequest.client) (Exchange.start testHopRequest testBackendSite none) _ := .refl
  have hx := (((((hstart.tail (.choose rfl hpeer)).tail (.connect rfl hhead)).tail
    (.closed rfl)).tail (.choose rfl hagain)).tail (.connect rfl hhead)).tail
    (@Exchange.Step.respond _ _ _ _ 200 _ _ rfl hanswer)
  obtain ⟨hrequests, hresponses⟩ := hall _ hx
  refine ⟨given, _, hx, rfl, fun p hmem => ?_, _, List.mem_cons_self .., ?_⟩
  · obtain rfl : p = (given, head) := by simpa [Exchange.start] using hmem
    have hvalues := fun name => (hrequests _ hmem name).1
    refine ⟨(hvalues _).trans ?_, (hvalues _).trans ?_, (hvalues _).trans ?_,
      ((hrequests _ hmem "accept").2 ?_).trans ?_⟩
    · show forwardedValues _ _ _ _ _ given _ = _
      decide +kernel
    · show forwardedValues _ _ _ _ _ given _ = _
      decide +kernel
    · show forwardedValues _ _ _ _ _ given _ = _
      decide +kernel
    · -- The server has left this one as it was.
      show given.getAll _ = _
      decide +kernel
    · decide +kernel
  · rw [hresponses _ (List.mem_cons_self ..)]
    show answeredValues testBackendSite none [("payment-response", [116])] "Payment-Response" = []
    decide +kernel

/-! ### One address after the other -/

section

variable {proxy : Proxy} {client : Option IpAddr} {x x' : Exchange}

/-- The backend an exchange has turned to. -/
def Stand.peer : Stand → Option HttpPeer
  | .connecting peer => some peer
  | .connected peer => some peer
  | _ => none

/-- How far an exchange has come with its addresses. -/
structure Exchange.Turns (x : Exchange) : Prop where
  asked : x.lookups.length ≤ 1
  known : ∀ lookup ∈ x.lookups, x.ctx.addresses = lookup.addresses
  looked : x.lookups = [] → x.ctx.addresses = []
  /-- Without addresses nothing has been done. -/
  blank : x.ctx.addresses = [] → x.requests = [] ∧ (x.stand = .choosing → x.lookups = [])
  tried : x.refused.reverse = x.ctx.addresses.take x.ctx.addressIndex
  index : x.ctx.addressIndex = x.refused.length
  current : ∀ peer, x.stand.peer = some peer →
    x.ctx.addresses[x.ctx.addressIndex]? = some peer.address
  exhausted : x.stand = .unreachable → x.ctx.addresses.length ≤ x.ctx.addressIndex

theorem Exchange.Turns.start (request : Request) (site : Site) (receipt : Option String) :
    (Exchange.start request site receipt).Turns := by
  constructor <;> simp [Exchange.start, Stand.peer]

/-- Only the place where an exchange stands has changed. -/
theorem Exchange.Turns.stand (hx : x.Turns) {stand : Stand}
    {requests : List (HeaderMap × HeaderMap)}
    (hstand : stand ≠ .unreachable) (hpeer : stand.peer = none ∨ stand.peer = x.stand.peer)
    (hchoosing : stand = .choosing → x.ctx.addresses ≠ [])
    (hrequests : x.ctx.addresses = [] → requests = []) :
    { x with stand, requests : Exchange }.Turns where
  asked := hx.asked
  known := hx.known
  looked := hx.looked
  blank hempty := ⟨hrequests hempty, fun h => absurd hempty (hchoosing h)⟩
  tried := hx.tried
  index := hx.index
  current peer h := by
    rcases hpeer with hnone | hsame
    · exact absurd (hnone.symm.trans h) (by simp)
    · exact hx.current peer (hsame.symm.trans h)
  exhausted h := absurd h hstand

/-- Turned to a backend, an exchange has addresses. -/
theorem Exchange.Turns.addresses (hx : x.Turns) {peer : HttpPeer} (h : x.stand.peer = some peer) :
    x.ctx.addresses ≠ [] := by
  intro hempty
  have hcurrent := hx.current peer h
  rw [hempty] at hcurrent
  exact absurd hcurrent (by simp)

/-- Counting a body changes nothing here. -/
theorem Exchange.Turns.count (hx : x.Turns) (bodyBytes received sent : ℕ) :
    { x with ctx := { x.ctx with bodyBytes }, received, sent : Exchange }.Turns :=
  ⟨hx.asked, hx.known, hx.looked, hx.blank, hx.tried, hx.index, hx.current, hx.exhausted⟩

/-- A choice looks up the addresses once, and keeps them from then on. -/
theorem Exchange.Turns.choose (hx : x.Turns) {lookup : Lookup} {answer : Except Error HttpPeer}
    {ctx : RequestContext} {stand : Stand} (hstand : x.stand = .choosing)
    (hpeer : upstreamPeer x.ctx lookup = (answer, ctx)) (hchosen : stand ≠ .choosing)
    (hunreachable : stand ≠ .unreachable)
    (hanswer : ∀ peer, stand.peer = some peer → answer = .ok peer) :
    { x with
      ctx
      stand
      lookups := if x.ctx.asks then lookup :: x.lookups else x.lookups : Exchange }.Turns := by
  obtain ⟨hctx, hok⟩ := upstreamPeer_spec hpeer
  have hcurrent : ∀ peer, stand.peer = some peer →
      ctx.addresses[ctx.addressIndex]? = some peer.address :=
    fun peer h => hok peer (hanswer peer h)
  by_cases hasks : x.ctx.asks = true
  · -- Nothing is known yet, so nothing was refused.
    have hempty := addresses_of_asks hasks
    obtain ⟨hrequests, hlookups⟩ := hx.blank hempty
    have hrefused : x.refused = [] := by
      have htried := hx.tried
      rwa [hempty, List.take_nil, List.reverse_eq_nil_iff] at htried
    have hindex : x.ctx.addressIndex = 0 := by rw [hx.index, hrefused]; rfl
    rw [if_pos hasks] at hctx
    subst hctx
    rw [if_pos hasks, hlookups hstand]
    constructor
    · simp
    · simp
    · simp
    · exact fun _ => ⟨hrequests, fun h => absurd h hchosen⟩
    · show x.refused.reverse = lookup.addresses.take x.ctx.addressIndex
      rw [hindex, hrefused]
      rfl
    · exact hx.index
    · exact hcurrent
    · exact fun h => absurd h hunreachable
  · rw [if_neg hasks] at hctx
    subst hctx
    rw [if_neg hasks]
    exact ⟨hx.asked, hx.known, hx.looked, fun h => ⟨(hx.blank h).1, fun h' => absurd h' hchosen⟩,
      hx.tried, hx.index, hcurrent, fun h => absurd h hunreachable⟩

/-- A refused connection: its address is the one whose turn it was, and the next one is not. -/
theorem Exchange.Turns.refuse (hx : x.Turns) {peer : HttpPeer} {retry : Bool} {ctx : RequestContext}
    (hstand : x.stand = .connecting peer) (hfail : failToConnect x.ctx = (retry, ctx)) :
    { x with
      ctx
      stand := if retry then .choosing else .unreachable
      refused := peer.address :: x.refused : Exchange }.Turns := by
  obtain ⟨rfl, rfl⟩ := Prod.mk.inj hfail
  have hturned : x.stand.peer = some peer := by rw [hstand]; rfl
  have hcurrent := hx.current peer hturned
  have hne := hx.addresses hturned
  constructor
  · exact hx.asked
  · exact hx.known
  · exact hx.looked
  · exact fun h => absurd h hne
  · show (peer.address :: x.refused).reverse = x.ctx.addresses.take (x.ctx.addressIndex + 1)
    rw [List.reverse_cons, hx.tried, List.take_add_one, hcurrent]
    rfl
  · show x.ctx.addressIndex + 1 = (peer.address :: x.refused).length
    rw [hx.index, List.length_cons]
  · intro peer' h
    split at h
    · exact absurd h (by simp [Stand.peer])
    · exact absurd h (by simp [Stand.peer])
  · intro h
    split at h
    · exact absurd h (by simp)
    · rename_i hretry
      simpa using hretry

theorem Exchange.Turns.step (hx : x.Turns) (h : Exchange.Step proxy client x x') :
    x'.Turns := by
  cases h with
  | choose hstand hpeer =>
    apply hx.choose hstand hpeer (by simp) (by simp)
    rintro peer hsome
    rw [← Option.some.inj hsome]
  | nowhere hstand hpeer =>
    apply hx.choose hstand hpeer (by simp) (by simp)
    exact fun peer hsome => absurd hsome (by simp [Stand.peer])
  | refuse hstand hfail => exact hx.refuse hstand hfail
  | connect hstand hrequest =>
    have hne := hx.addresses (show x.stand.peer = _ by rw [hstand]; rfl)
    apply hx.stand (by simp) (.inr (by rw [hstand]; rfl)) (by simp)
    exact fun hempty => absurd hempty hne
  | malformed hstand hrequest =>
    exact hx.stand (by simp) (.inl rfl) (by simp) (fun hempty => (hx.blank hempty).1)
  | body hstand hbody =>
    rw [(requestBodyFilter_spec hbody).1]
    exact hx.count _ _ _
  | tooLarge hstand hbody =>
    rw [(requestBodyFilter_spec hbody).1]
    exact (hx.count _ _ _).stand (by simp) (.inl rfl) (by simp) (fun hempty => (hx.blank hempty).1)
  | closed hstand =>
    have hne := hx.addresses (show x.stand.peer = _ by rw [hstand]; rfl)
    exact hx.stand (by simp) (.inl rfl) (fun _ => hne) (fun hempty => (hx.blank hempty).1)
  | respond hstand hresponse =>
    exact ⟨hx.asked, hx.known, hx.looked, hx.blank, hx.tried, hx.index, hx.current, hx.exhausted⟩
  | fail => exact hx.stand (by simp) (.inl rfl) (by simp) (fun hempty => (hx.blank hempty).1)

theorem Exchange.Turns.run (hx : x.Turns)
    (h : Relation.ReflTransGen (Exchange.Step proxy client) x x') : x'.Turns := by
  induction h with
  | refl => exact hx
  | tail _ hstep ih => exact ih.step hstep

end

/-- **One address after the other.**  However an exchange goes, the backend is looked up once at
    most.  The addresses that refused a connection are the first ones of that lookup, in its order;
    the backend the exchange has turned to, also after a closed connection, is at the first address
    that has not; and only when every address has refused, of the eight that are kept, none is
    left. -/
theorem addresses_in_turn {proxy : Proxy} {client : Option IpAddr} {request : Request} {site : Site}
    {receipt : Option String} {x : Exchange}
    (h : Relation.ReflTransGen (Exchange.Step proxy client)
      (Exchange.start request site receipt) x) :
    (x.lookups = [] ∧ x.refused = [] ∧ x.requests = [] ∧ x.stand.peer = none) ∨
      ∃ lookup, x.lookups = [lookup] ∧
        x.refused.reverse = lookup.addresses.take x.refused.length ∧
        (∀ peer, x.stand.peer = some peer →
          lookup.addresses[x.refused.length]? = some peer.address) ∧
        (x.stand = .unreachable → x.refused.reverse = lookup.addresses) := by
  have hx := (Exchange.Turns.start request site receipt).run h
  cases hlookups : x.lookups with
  | nil =>
    left
    have hempty := hx.looked hlookups
    have hrefused : x.refused = [] := by
      have htried := hx.tried
      rwa [hempty, List.take_nil, List.reverse_eq_nil_iff] at htried
    refine ⟨rfl, hrefused, (hx.blank hempty).1, ?_⟩
    cases hpeer : x.stand.peer with
    | none => rfl
    | some peer => exact absurd hempty (hx.addresses hpeer)
  | cons lookup rest =>
    right
    have hasked := hx.asked
    rw [hlookups, List.length_cons] at hasked
    obtain rfl : rest = [] := List.eq_nil_of_length_eq_zero (by omega)
    have hknown := hx.known lookup (by rw [hlookups]; exact List.mem_cons_self ..)
    have htried := hx.tried
    rw [hx.index, hknown] at htried
    refine ⟨lookup, rfl, htried, fun peer hpeer => ?_, fun hexhausted => ?_⟩
    · rw [← hknown, ← hx.index]
      exact hx.current peer hpeer
    · rw [htried]
      apply List.take_of_length_le
      rw [← hknown, ← hx.index]
      exact hx.exhausted hexhausted

/-- Two addresses, of which the first refuses. -/
theorem addresses_in_turn_second :
    ∃ x, Relation.ReflTransGen (Exchange.Step testProxy testRequest.client)
        (Exchange.start testRequest testBackendSite none) x ∧ x.refused = [testAddress] ∧
      ∃ lookup, x.lookups = [lookup] ∧ ∀ peer, x.stand.peer = some peer →
        lookup.addresses[x.refused.length]? = some peer.address := by
  let ctx := (Exchange.start testRequest testBackendSite none).ctx
  let addresses := [testAddress, { testAddress with port := 81 }]
  have hfirst : upstreamPeer ctx (.found addresses) =
      (.ok { address := testAddress, tls := false, sni := "back.test" },
        { ctx with addresses }) := rfl
  have hsecond : upstreamPeer { ctx with addresses, addressIndex := 1 } .failed =
      (.ok { address := { testAddress with port := 81 }, tls := false, sni := "back.test" },
        { ctx with addresses, addressIndex := 1 }) := rfl
  have hrefused : failToConnect { ctx with addresses } =
      (true, { ctx with addresses, addressIndex := 1 }) := rfl
  have hstart : Relation.ReflTransGen
      (Exchange.Step testProxy testRequest.client)
      (Exchange.start testRequest testBackendSite none) _ := .refl
  have hx := ((hstart.tail (.choose rfl hfirst)).tail (.refuse rfl hrefused)).tail
    (.choose rfl hsecond)
  rcases addresses_in_turn hx with ⟨-, hnone, -⟩ | ⟨lookup, hlookups, -, hpeer, -⟩
  · exact absurd hnone (List.cons_ne_nil _ _)
  · exact ⟨_, hx, rfl, lookup, hlookups, hpeer⟩

/-! ### The size of a body -/

section

variable {proxy : Proxy} {client : Option IpAddr} {x x' : Exchange}

/-- How much of the body has been counted, and how much of it got through. -/
structure Exchange.Measured (x : Exchange) : Prop where
  counted : x.ctx.bodyBytes = min x.received u64Max
  sent : x.sent ≤ x.received
  within : ∀ max, x.ctx.maxBodyBytes = some max → min x.sent u64Max ≤ max
  /-- Short of a failure nothing was held back, and nothing had to be. -/
  passed : (∀ error, x.stand ≠ .failed error) → x.sent = x.received
  refused : ∀ error, x.stand = .failed (some error) → error.kind = .httpStatus 413 →
    ∃ max, x.ctx.maxBodyBytes = some max ∧ max < min x.received u64Max

theorem Exchange.Measured.start (request : Request) (site : Site) (receipt : Option String) :
    (Exchange.start request site receipt).Measured := by
  constructor <;> simp [Exchange.start]

theorem maxBodyBytes_route {ctx ctx' : RequestContext} (h : SameRoute ctx ctx') :
    ctx'.maxBodyBytes = ctx.maxBodyBytes := by
  unfold RequestContext.maxBodyBytes
  rw [h.site]

/-- A hook that does not count. -/
theorem Exchange.Measured.other (hx : x.Measured) (hroute : SameRoute x.ctx x'.ctx)
    (hbytes : x'.ctx.bodyBytes = x.ctx.bodyBytes) (hreceived : x'.received = x.received)
    (hsent : x'.sent = x.sent)
    (hpassed : (∀ error, x'.stand ≠ .failed error) → ∀ error, x.stand ≠ .failed error)
    (hrefused : ∀ error, x'.stand = .failed (some error) → error.kind ≠ .httpStatus 413) :
    x'.Measured where
  counted := by rw [hbytes, hreceived, hx.counted]
  sent := by rw [hsent, hreceived]; exact hx.sent
  within := by
    rw [hsent, maxBodyBytes_route hroute]
    exact hx.within
  passed h := by
    rw [hsent, hreceived]
    exact hx.passed (hpassed h)
  refused error h hkind := absurd hkind (hrefused error h)

/-- Counting a piece: saturating each time is saturating the sum. -/
theorem saturatingAdd_bodyLength {bodyBytes received : ℕ} {written : Option ℕ}
    {body : Option (List UInt8)}
    (h : bodyBytes = min received u64Max) :
    (if written = some 101 then bodyBytes else saturatingAdd bodyBytes (bodyLength written body)) =
      min (received + bodyLength written body) u64Max := by
  by_cases hwritten : written = some 101
  · simp [bodyLength, hwritten, h]
  · rw [if_neg hwritten, h, saturatingAdd]
    omega

/-- Without a backend the answer is not about the body. -/
theorem upstreamPeer_error {ctx ctx' : RequestContext} {lookup : Lookup} {error : Error}
    (h : upstreamPeer ctx lookup = (.error error, ctx')) : error.kind ≠ .httpStatus 413 := by
  have hpeer : ∀ (upstream : Upstream) (ctx : RequestContext),
      (match ctx.addresses[ctx.addressIndex]? with
        | none => (.error ⟨.connectError, "backend has no addresses"⟩, ctx)
        | some address => (.ok { address, tls := upstream.tls, sni := upstream.host }, ctx) :
        Except Error HttpPeer × RequestContext) = (.error error, ctx') →
      error.kind ≠ .httpStatus 413 := by
    intro upstream ctx h
    split at h
    · rw [← Except.error.inj (Prod.mk.inj h).1]
      simp
    · exact absurd (Prod.mk.inj h).1 (by simp)
  unfold upstreamPeer at h
  split at h
  · rw [← Except.error.inj (Prod.mk.inj h).1]
    simp
  · rw [← Except.error.inj (Prod.mk.inj h).1]
    simp
  · rename_i upstream _
    dsimp only at h
    split at h
    · cases lookup with
      | timedOut =>
        rw [← Except.error.inj (Prod.mk.inj h).1]
        simp
      | failed =>
        rw [← Except.error.inj (Prod.mk.inj h).1]
        simp
      | found addresses => exact hpeer upstream { ctx with addresses := addresses.take 8 } h
    · exact hpeer upstream ctx h

theorem upstreamPeer_bodyBytes {ctx ctx' : RequestContext} {lookup : Lookup}
    {answer : Except Error HttpPeer} (h : upstreamPeer ctx lookup = (answer, ctx')) :
    ctx'.bodyBytes = ctx.bodyBytes := by
  rw [(upstreamPeer_spec h).1]
  split
  · rfl
  · rfl

theorem Exchange.Measured.step (hx : x.Measured) (h : Exchange.Step proxy client x x') :
    x'.Measured := by
  have hroute := h.route
  cases h with
  | choose hstand hpeer =>
    apply hx.other hroute (upstreamPeer_bodyBytes hpeer) rfl rfl (by simp [hstand]) (by simp)
  | nowhere hstand hpeer =>
    apply hx.other hroute (upstreamPeer_bodyBytes hpeer) rfl rfl (by simp [hstand])
    intro error h
    rw [← Option.some.inj (Stand.failed.inj h)]
    exact upstreamPeer_error hpeer
  | @refuse peer retry ctx hstand hfail =>
    obtain ⟨-, rfl⟩ := Prod.mk.inj hfail
    apply hx.other hroute rfl rfl rfl (by simp [hstand])
    intro error h
    dsimp only at h
    split at h
    · exact absurd h (by simp)
    · exact absurd h (by simp)
  | connect hstand hrequest => exact hx.other hroute rfl rfl rfl (by simp [hstand]) (by simp)
  | malformed hstand hrequest => exact hx.other hroute rfl rfl rfl (by simp [hstand]) (by simp)
  | @body peer body ctx hstand hbody =>
    obtain ⟨hctx, hrefused⟩ := requestBodyFilter_spec hbody
    have hbytes : ctx.bodyBytes = min (x.received + bodyLength x.written body) u64Max := by
      rw [hctx]
      exact saturatingAdd_bodyLength hx.counted
    have hpassed := hx.passed (by simp [hstand])
    constructor
    · exact hbytes
    · exact Nat.add_le_add_right hx.sent _
    · intro max hmax
      show min (x.sent + bodyLength x.written body) u64Max ≤ max
      rw [maxBodyBytes_route hroute] at hmax
      by_cases hwritten : x.written = some 101
      · -- Nothing is counted after an upgrade.
        simp only [bodyLength, hwritten, if_true, Nat.add_zero]
        exact hx.within max hmax
      · rw [hpassed, ← hbytes]
        by_contra hlt
        rw [not_le] at hlt
        exact absurd (hrefused.mpr ⟨hwritten, max, hmax, hlt⟩) (by simp)
    · exact fun _ => congrArg (· + bodyLength x.written body) hpassed
    · intro error h
      exact absurd (hstand.symm.trans h) (by simp)
  | @tooLarge peer body error ctx hstand hbody =>
    obtain ⟨hctx, hrefused⟩ := requestBodyFilter_spec hbody
    have hbytes : ctx.bodyBytes = min (x.received + bodyLength x.written body) u64Max := by
      rw [hctx]
      exact saturatingAdd_bodyLength hx.counted
    constructor
    · exact hbytes
    · exact Nat.le_trans hx.sent (Nat.le_add_right _ _)
    · rw [maxBodyBytes_route hroute]
      exact hx.within
    · exact fun h => absurd rfl (h error)
    · intro error' _ _
      obtain ⟨-, max, hmax, hlt⟩ := hrefused.mp ⟨error, rfl⟩
      refine ⟨max, ?_, ?_⟩
      · rw [maxBodyBytes_route hroute]
        exact hmax
      · rw [← hbytes]
        exact hlt
  | closed hstand => exact hx.other hroute rfl rfl rfl (by simp [hstand]) (by simp)
  | respond hstand hresponse =>
    exact hx.other hroute rfl rfl rfl (by simp [hstand]) (by simp [hstand])
  | fail => exact hx.other hroute rfl rfl rfl (by simp) (by simp)

theorem Exchange.Measured.run (hx : x.Measured)
    (h : Relation.ReflTransGen (Exchange.Step proxy client) x x') : x'.Measured := by
  induction h with
  | refl => exact hx
  | tail _ hstep ih => exact ih.step hstep

theorem Exchange.Step.run_route
    (h : Relation.ReflTransGen (Exchange.Step proxy client) x x') :
    SameRoute x.ctx x'.ctx := by
  induction h with
  | refl => exact ⟨rfl, rfl, rfl⟩
  | tail _ hstep ih => exact ih.trans hstep.route

end

/-- **A body stays within its limit.**  In every exchange with a site that limits its bodies, in
    whatever pieces they come and however often they are sent again, the backends together get no
    more bytes than the limit, short of an upgrade.  A body is refused only when more has come, and
    until the exchange fails nothing is held back. -/
theorem body_within_limit {proxy : Proxy} {client : Option IpAddr} {request : Request} {site : Site}
    {receipt : Option String} {x : Exchange} {max : ℕ}
    (hmax : site.controls.maxBodyBytes = some max) (hword : max < u64Max)
    (h : Relation.ReflTransGen (Exchange.Step proxy client)
      (Exchange.start request site receipt) x) :
    x.sent ≤ max ∧
      (∀ error, x.stand = .failed (some error) → error.kind = .httpStatus 413 → max < x.received) ∧
      ((∀ error, x.stand ≠ .failed error) → x.sent = x.received) := by
  have hx := (Exchange.Measured.start request site receipt).run h
  have hlimit : x.ctx.maxBodyBytes = some max :=
    (maxBodyBytes_route (Exchange.Step.run_route h)).trans hmax
  refine ⟨?_, fun error hstand hkind => ?_, hx.passed⟩
  · have hwithin := hx.within max hlimit
    omega
  · obtain ⟨max', hmax', hlt⟩ := hx.refused error hstand hkind
    obtain rfl : max = max' := Option.some.inj (hlimit.symm.trans hmax')
    omega

/-- Two pieces of six bytes where ten are allowed: only the first gets through. -/
theorem body_within_limit_ten :
    ∃ x error, Relation.ReflTransGen
        (Exchange.Step testProxy testRequest.client)
        (Exchange.start testRequest testBackendSite none) x ∧ x.sent = 6 ∧ x.sent ≤ 10 ∧
      x.stand = .failed (some error) ∧ 10 < x.received := by
  let ctx := (Exchange.start testRequest testBackendSite none).ctx
  let ctx' := { ctx with addresses := [testAddress] }
  let piece : List UInt8 := List.replicate 6 0
  have hpeer : upstreamPeer ctx (.found [testAddress]) =
      (.ok { address := testAddress, tls := false, sni := "back.test" }, ctx') := rfl
  have hhead : (upstreamRequestFilter testProxy testRequest.client ctx'
      testRequest.headers).isSome = true := by decide +kernel
  obtain ⟨head, hhead⟩ := Option.isSome_iff_exists.mp hhead
  have hfirst : requestBodyFilter none ctx' (some piece) =
      (.ok (), { ctx' with bodyBytes := 6 }) := rfl
  have hsecond : requestBodyFilter none { ctx' with bodyBytes := 6 } (some piece) =
      (.error ⟨.httpStatus 413, "request body too large"⟩, { ctx' with bodyBytes := 12 }) := rfl
  have hstart : Relation.ReflTransGen
      (Exchange.Step testProxy testRequest.client)
      (Exchange.start testRequest testBackendSite none) _ := .refl
  have hx := (((hstart.tail (.choose rfl hpeer)).tail (.connect rfl hhead)).tail
    (.body rfl hfirst)).tail (.tooLarge rfl hsecond)
  have hlimit : testBackendSite.controls.maxBodyBytes = some 10 := rfl
  obtain ⟨hsent, hrefused, -⟩ := body_within_limit hlimit (by decide) hx
  exact ⟨_, _, hx, rfl, hsent, rfl, hrefused _ rfl rfl⟩

end Geata.Proxy
