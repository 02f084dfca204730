import Mathlib.Order.Lattice
import Geata.Geatafile.Parse

namespace Geata.Geatafile

open Geata.Lib Geata.Lightning Geata.Payments
open Geata.Proxy (Limit RateLimiter Upstream Handler)

/-!
# Accepted configurations are safe

What the request path takes for granted about a site and about payouts, and that every file that
`Config.parse` accepts keeps to it.  Each lemma reads the success of one parser as the facts it has
checked; `SiteBlock.Checked` is the invariant of the loop over directives.
-/

variable {X : Geatafile.Crates}

/-! ### What is taken for granted -/

structure SafeLimit (limit : Limit) : Prop where
  perSecond : 1 ≤ limit.perSecond.toNat
  burst : 1 ≤ limit.burst.toNat

/-- A final status, without a body where HTTP allows none. -/
def SafeHandler : Handler → Prop
  | .proxy _ => True
  | .respond body status =>
      200 ≤ status ∧ status ≤ 599 ∧ (status = 204 ∨ status = 205 ∨ status = 304 → body = "")

/-- A header name that a payment can be bound to. -/
structure SafeHeader (X : Geatafile.Crates) (name : String) : Prop where
  lowercase : toAsciiLowercase name.toList = name.toList
  valid : X.headerName name = true
  reserved : name ∉ ["payment-signature", "x-cashu", "connection", "transfer-encoding", "trailer"]

structure SafePolicy (X : Geatafile.Crates) (domain : String) (https : Bool) (policy : Policy) :
    Prop where
  amount : ∃ sats, 0 < sats ∧ policy.amountMsat.toNat = sats * 1000
  origin : ∃ url, X.parseUrl policy.origin = .ok url ∧ url.host = some domain ∧
    url.scheme = if https then "https" else "http"
  sorted : policy.headers.Pairwise (· < ·)
  headers : ∀ name ∈ policy.headers, SafeHeader X name
  authorization : policy.protocols.l402 = true → "authorization" ∉ policy.headers
  protocols : policy.protocols.x402 = true ∨ policy.protocols.l402 = true
  mint : policy.receiver.mint?.isSome → policy.protocols.l402 = true ∧ policy.protocols.x402 = false

structure SafeSite (X : Geatafile.Crates) (key : String) (site : Site) : Prop where
  key : key = site.domain
  domain : validDomain site.domain site.https = true
  lowercase : toAsciiLowercase site.domain.toList = site.domain.toList
  bits : site.controls.ipv6Prefix.toNat ≤ 128
  limiters : ∀ limiter, site.rateLimit = some limiter ∨ limiter = site.paymentVerification →
    SafeLimit limiter.limit ∧ limiter.ipv6Prefix = site.controls.ipv6Prefix
  capacity : ∀ capacity, site.capacity = some capacity →
    1 ≤ capacity.max.toNat ∧ capacity.max.toNat ≤ 1000000 ∧
      capacity.ipv6Prefix = site.controls.ipv6Prefix
  handler : SafeHandler site.handler
  payment : ∀ policy, site.payment = some policy → 1 ≤ policy.price.toNat
  lightning : ∀ policy, site.lightning = some policy → SafePolicy X site.domain site.https policy

structure SafePayout (payout : PayoutPolicy) : Prop where
  amount : 0 < payout.amount.toNat
  fits : payout.amount.toNat + payout.maxFee.toNat ≤ u64Max
  reusable : payout.request.singleUse ≠ some true
  interval : ∀ seconds, payout.interval = some seconds → 1 ≤ seconds ∧ seconds ≤ 31536000
  threshold : ∀ sats, payout.threshold = some sats → 0 < sats.toNat
  trigger : payout.interval.isSome ∨ payout.threshold.isSome

structure SafeConfig (X : Geatafile.Crates) (config : Config) : Prop where
  sites : ∀ key site, config.sites.lookup key = some site → SafeSite X key site
  mints : (config.payouts.map PayoutPolicy.mint).Nodup
  count : config.payouts.length ≤ 16
  payouts : ∀ payout ∈ config.payouts, SafePayout payout

/-! ### Reading success -/

/-- A parsed number that fits is not changed by its type. -/
theorem toNat_ofNat32 {n : ℕ} (h : n < 2 ^ 32) : (UInt32.ofNat n).toNat = n := by
  rw [UInt32.toNat_ofNat']
  exact Nat.mod_eq_of_lt h

theorem positive_ok {text : List Char} {n : UInt32} (h : positive text = some n) :
    1 ≤ n.toNat := by
  obtain ⟨m, hm, rfl⟩ := Option.map_eq_some_iff.mp h
  obtain ⟨hparse, hcheck⟩ := Option.filter_eq_some_iff.mp hm
  have hlt := parseUnsigned_lt hparse
  rw [Bool.and_eq_true, decide_eq_true_eq] at hcheck
  rw [toNat_ofNat32 hlt]
  exact hcheck.1

theorem parseLimit_ok {line : ℕ} {args : List Token} {limit : Limit}
    (h : parseLimit line args = .ok limit) : SafeLimit limit := by
  unfold parseLimit at h
  obtain ⟨-, -, h⟩ := bind_eq_ok.mp h
  obtain ⟨perSecond, hrate, h⟩ := bind_eq_ok.mp h
  obtain ⟨burst, hburst, h⟩ := bind_eq_ok.mp h
  obtain rfl := pure_eq_ok.mp h
  obtain ⟨_, -, hrate⟩ := Option.bind_eq_some_iff.mp (context_eq_ok.mp hrate)
  obtain ⟨_, -, hburst⟩ := Option.bind_eq_some_iff.mp (context_eq_ok.mp hburst)
  exact ⟨positive_ok hrate, positive_ok hburst⟩

theorem parseStatus_ok {text : String} {status : ℕ} (h : parseStatus text = some status) :
    200 ≤ status ∧ status ≤ 599 := by
  obtain ⟨-, hcheck⟩ := Option.filter_eq_some_iff.mp h
  rw [Bool.and_eq_true, decide_eq_true_eq] at hcheck
  exact hcheck.2

theorem responseStatus_ok {text : Option String} {status : ℕ}
    (h : responseStatus text = some status) : 200 ≤ status ∧ status ≤ 599 := by
  cases text with
  | none =>
    obtain rfl := Option.some.inj h
    omega
  | some text => exact parseStatus_ok h

theorem parseResponse_ok {args : List Token} {line : ℕ} {handler : Handler}
    (h : parseResponse args line = .ok handler) : SafeHandler handler := by
  unfold parseResponse at h
  obtain ⟨-, -, h⟩ := bind_eq_ok.mp h
  generalize splitResponse args = response at h
  obtain ⟨body, text⟩ := response
  obtain ⟨status, hstatus, h⟩ := bind_eq_ok.mp h
  obtain ⟨_, hbody, h⟩ := bind_eq_ok.mp h
  obtain rfl := pure_eq_ok.mp h
  obtain ⟨hlow, hhigh⟩ := responseStatus_ok (context_eq_ok.mp hstatus)
  refine ⟨hlow, hhigh, fun hempty => ?_⟩
  have hmem : [204, 205, 304].contains status = true := by simpa using hempty
  have hcheck : (!([204, 205, 304].contains status && !body.isEmpty)) = true :=
    ensure_eq_ok.mp hbody
  rw [hmem, Bool.true_and, Bool.not_not] at hcheck
  exact String.isEmpty_iff.mp hcheck

theorem parseHandler_ok {directive : Directive} {line : ℕ} {args : List Token} {handler : Handler}
    (h : parseHandler X directive line args = .ok handler) : SafeHandler handler := by
  unfold parseHandler at h
  split at h
  · obtain ⟨upstream, -, rfl⟩ := map_eq_ok.mp (mapError_eq_ok.mp h)
    trivial
  split at h
  · exact parseResponse_ok h
  · exact absurd h (by simp)

theorem parsePayment_ok {price unit mint : String} {policy : PaymentPolicy}
    (h : PaymentPolicy.parse X price unit mint = .ok policy) : 1 ≤ policy.price.toNat := by
  unfold PaymentPolicy.parse at h
  obtain ⟨n, hn, h⟩ := bind_eq_ok.mp h
  obtain ⟨-, -, h⟩ := bind_eq_ok.mp h
  obtain ⟨mint, -, h⟩ := bind_eq_ok.mp h
  obtain rfl := pure_eq_ok.mp h
  obtain ⟨hparse, hpos⟩ := Option.filter_eq_some_iff.mp (context_eq_ok.mp hn)
  show 1 ≤ (UInt32.ofNat n).toNat
  rw [toNat_ofNat32 (parseUnsigned_lt hparse)]
  exact of_decide_eq_true hpos

theorem parseInflight_ok {text : String} {n : UInt32} (h : parseInflight text = some n) :
    n.toNat ≤ 1000000 := by
  unfold parseInflight at h
  split at h
  · obtain rfl := Option.some.inj h
    decide
  · obtain ⟨m, hm, rfl⟩ := Option.map_eq_some_iff.mp h
    obtain ⟨hparse, hcheck⟩ := Option.filter_eq_some_iff.mp hm
    rw [Bool.and_eq_true, decide_eq_true_eq, decide_eq_true_eq] at hcheck
    rw [toNat_ofNat32 (parseUnsigned_lt hparse)]
    exact hcheck.2

theorem parsePrefix_ok {value : String} {bits : UInt8} (h : parsePrefix value = some bits) :
    bits.toNat ≤ 128 := by
  obtain ⟨m, hm, rfl⟩ := Option.map_eq_some_iff.mp h
  obtain ⟨hparse, hcheck⟩ := Option.filter_eq_some_iff.mp hm
  have hlt := parseUnsigned_lt hparse
  have hle := of_decide_eq_true hcheck
  rw [UInt8.toNat_ofNat', Nat.mod_eq_of_lt hlt]
  exact hle

/-! ### Lightning policies -/

/-- Protocols that were enabled stay enabled, and the last name adds one. -/
theorem enable_ok {protocols protocols' : Protocols} {names : List String}
    (h : Protocols.enable protocols names = .ok protocols')
    (hsome : names ≠ [] ∨ protocols.x402 = true ∨ protocols.l402 = true) :
    protocols'.x402 = true ∨ protocols'.l402 = true := by
  induction names generalizing protocols with
  | nil =>
    obtain rfl := (Except.ok.inj h : protocols = protocols')
    exact hsome.resolve_left (fun hne => hne rfl)
  | cons name names ih =>
    unfold Protocols.enable at h
    obtain ⟨⟨enabled, next⟩, hnext, h⟩ := bind_eq_ok.mp h
    obtain ⟨-, -, h⟩ := bind_eq_ok.mp h
    refine ih h (.inr ?_)
    unfold Protocols.switch at hnext
    split at hnext
    · obtain ⟨-, rfl⟩ := Prod.mk.inj (Except.ok.inj hnext)
      exact .inl rfl
    · obtain ⟨-, rfl⟩ := Prod.mk.inj (Except.ok.inj hnext)
      exact .inr rfl
    · exact absurd hnext (by simp)

theorem parseProtocols_ok {names : List String} {protocols : Protocols}
    (h : Protocols.parse names = .ok protocols) :
    protocols.x402 = true ∨ protocols.l402 = true := by
  unfold Protocols.parse at h
  obtain ⟨_, hne, h⟩ := bind_eq_ok.mp h
  refine enable_ok h (.inl ?_)
  rintro rfl
  exact absurd (ensure_eq_ok.mp hne) (by simp)

/-- Names in order, each before the next, are in order. -/
theorem sorted_pairwise {names : List String} (h : sorted names = true) :
    names.Pairwise (· < ·) := by
  rw [← List.isChain_iff_pairwise]
  induction names with
  | nil => exact .nil
  | cons a rest ih =>
    cases rest with
    | nil => exact .singleton a
    | cons b rest =>
      unfold sorted at h
      rw [Bool.and_eq_true, decide_eq_true_eq] at h
      exact List.isChain_cons_cons.mpr ⟨h.1, ih h.2⟩

theorem bindable_ok {name : String} (h : bindable X name = true) : SafeHeader X name := by
  unfold bindable at h
  rw [Bool.and_eq_true, Bool.and_eq_true, beq_iff_eq] at h
  obtain ⟨⟨hlower, hvalid⟩, hreserved⟩ := h
  refine ⟨hlower.symm, hvalid, fun hmem => ?_⟩
  rw [List.contains_iff_mem.mpr hmem] at hreserved
  exact absurd hreserved (by simp)

/-- What `validate_binding` checks. -/
structure BoundPolicy (X : Geatafile.Crates) (policy : Policy) : Prop where
  mint : policy.receiver.mint?.isSome → policy.protocols.l402 = true ∧ policy.protocols.x402 = false
  authorization : policy.protocols.l402 = true → "authorization" ∉ policy.headers
  scheme : ∃ url, X.parseUrl policy.origin = .ok url ∧ (url.scheme = "http" ∨ url.scheme = "https")
  sorted : policy.headers.Pairwise (· < ·)
  headers : ∀ name ∈ policy.headers, SafeHeader X name

theorem validateBinding_ok {policy : Policy} {u : Unit}
    (h : Policy.validateBinding X policy = .ok u) : BoundPolicy X policy := by
  unfold Policy.validateBinding at h
  obtain ⟨_, hmint, h⟩ := bind_eq_ok.mp h
  obtain ⟨_, hauth, h⟩ := bind_eq_ok.mp h
  obtain ⟨url, hurl, h⟩ := bind_eq_ok.mp h
  obtain ⟨_, horigin, h⟩ := bind_eq_ok.mp h
  obtain ⟨_, hsorted, h⟩ := bind_eq_ok.mp h
  refine ⟨fun hsome => ?_, fun hl402 hmem => ?_, ⟨url, hurl, ?_⟩, ?_, fun name hname => ?_⟩
  · have hcheck := ensure_eq_ok.mp hmint
    rw [Bool.or_eq_true, Bool.and_eq_true, Bool.not_eq_true'] at hcheck
    rcases hcheck with hnone | hcheck
    · rw [Option.isNone_iff_eq_none] at hnone
      rw [hnone] at hsome
      exact absurd hsome (by simp)
    · exact hcheck
  · have hcheck := ensure_eq_ok.mp hauth
    rw [hl402, List.contains_iff_mem.mpr hmem] at hcheck
    exact absurd hcheck (by simp)
  · have hcheck := ensure_eq_ok.mp horigin
    simp only [Bool.and_eq_true, Bool.or_eq_true, beq_iff_eq] at hcheck
    exact hcheck.1.1.1.1.1.1.1
  · exact sorted_pairwise (ensure_eq_ok.mp hsorted)
  · exact bindable_ok (List.all_eq_true.mp (ensure_eq_ok.mp h) name hname)

/-- What `Policy::new` makes. -/
theorem newPolicy_ok {price unit origin : String} {receiver : ReceiverConfig}
    {headers : List String} {protocols : Protocols} {policy : Policy}
    (h : Policy.new X price unit receiver origin headers protocols = .ok policy) :
    BoundPolicy X policy ∧ policy.protocols = protocols ∧
      ∃ sats, 0 < sats ∧ policy.amountMsat.toNat = sats * 1000 := by
  unfold Policy.new at h
  obtain ⟨-, -, h⟩ := bind_eq_ok.mp h
  obtain ⟨sats, -, h⟩ := bind_eq_ok.mp h
  obtain ⟨_, hpositive, h⟩ := bind_eq_ok.mp h
  obtain ⟨-, -, h⟩ := bind_eq_ok.mp h
  obtain ⟨amount, hamount, h⟩ := bind_eq_ok.mp h
  obtain ⟨_, hbinding, h⟩ := bind_eq_ok.mp h
  obtain rfl := pure_eq_ok.mp h
  refine ⟨validateBinding_ok hbinding, rfl, sats, ?_, ?_⟩
  · have hcheck := ensure_eq_ok.mp hpositive
    rw [Bool.and_eq_true, decide_eq_true_eq] at hcheck
    exact hcheck.1
  · have hsome := context_eq_ok.mp hamount
    split at hsome
    · rename_i hle
      obtain rfl := Option.some.inj hsome
      rw [u64Max_eq] at hle
      rw [UInt64.toNat_ofNat']
      exact Nat.mod_eq_of_lt (by omega)
    · exact absurd hsome (by simp)

/-- A policy that was made and belongs to its site. -/
theorem safePolicy {domain : String} {https : Bool} {policy : Policy} {u : Unit}
    (hbound : BoundPolicy X policy)
    (hamount : ∃ sats, 0 < sats ∧ policy.amountMsat.toNat = sats * 1000)
    (hprotocols : policy.protocols.x402 = true ∨ policy.protocols.l402 = true)
    (hsite : Policy.checkSite X policy domain https = .ok u) : SafePolicy X domain https policy := by
  unfold Policy.checkSite at hsite
  obtain ⟨url, hurl, h⟩ := bind_eq_ok.mp hsite
  have hcheck := ensure_eq_ok.mp h
  simp only [Bool.and_eq_true, beq_iff_eq] at hcheck
  obtain ⟨hhost, hscheme⟩ := hcheck
  refine ⟨hamount, ⟨url, hurl, hhost, ?_⟩, hbound.sorted, hbound.headers, hbound.authorization,
    hprotocols, hbound.mint⟩
  obtain ⟨url', hurl', hkind⟩ := hbound.scheme
  obtain rfl : url = url' := Except.ok.inj (hurl.symm.trans hurl')
  cases https with
  | true => exact beq_iff_eq.mp hscheme
  | false =>
    rcases hkind with hhttp | hhttps
    · exact hhttp
    · rw [hhttps] at hscheme
      exact absurd hscheme (by decide)

/-! ### Directives -/

/-- What the directives of a site have checked so far. -/
structure SiteBlock.Checked (state : SiteBlock) : Prop where
  handler : ∀ handler, state.handler = some handler → SafeHandler handler
  rateLimit : ∀ limit, state.rateLimit = some limit → SafeLimit limit
  payment : ∀ policy, state.payment = some policy → 1 ≤ policy.price.toNat
  protocols : ∀ protocols, state.lightningProtocols = some protocols →
    protocols.x402 = true ∨ protocols.l402 = true
  inflight : ∀ max, state.maxInflight = some max → max.toNat ≤ 1000000
  bits : state.controls.ipv6Prefix.toNat ≤ 128
  paymentLimit : SafeLimit state.controls.paymentLimit

theorem checked_initial : SiteBlock.Checked {} where
  handler _ h := absurd h (by simp)
  rateLimit _ h := absurd h (by simp)
  payment _ h := absurd h (by simp)
  protocols _ h := absurd h (by simp)
  inflight _ h := absurd h (by simp)
  bits := by decide
  paymentLimit := ⟨by decide, by decide⟩

namespace SiteBlock.Checked

variable {state state' : SiteBlock} {name : String} {line : ℕ} {args : List Token}

theorem control {set : RequestControls → String → Except ConfigError RequestControls}
    (h : state.Checked) (hset : ∀ controls value controls', set controls value = .ok controls' →
      (controls.ipv6Prefix.toNat ≤ 128 → controls'.ipv6Prefix.toNat ≤ 128) ∧
        controls'.paymentLimit = controls.paymentLimit)
    (hok : state.control name line args set = .ok state') : state'.Checked := by
  unfold SiteBlock.control at hok
  obtain ⟨-, -, hok⟩ := bind_eq_ok.mp hok
  obtain ⟨value, -, hok⟩ := bind_eq_ok.mp hok
  obtain ⟨controls, hcontrols, hok⟩ := bind_eq_ok.mp hok
  obtain rfl := pure_eq_ok.mp hok
  obtain ⟨hbits, hlimit⟩ := hset _ _ _ hcontrols
  refine ⟨h.handler, h.rateLimit, h.payment, h.protocols, h.inflight, hbits h.bits, ?_⟩
  show SafeLimit controls.paymentLimit
  rw [hlimit]
  exact h.paymentLimit

theorem limit {set : SiteBlock → Limit → SiteBlock}
    (h : state.Checked) (hset : ∀ (s : SiteBlock) limit, s.Checked → SafeLimit limit →
      (set s limit).Checked)
    (hok : state.limit name line args set = .ok state') : state'.Checked := by
  unfold SiteBlock.limit at hok
  obtain ⟨-, -, hok⟩ := bind_eq_ok.mp hok
  obtain ⟨limit, hlimit, hok⟩ := bind_eq_ok.mp hok
  obtain rfl := pure_eq_ok.mp hok
  refine hset _ limit ?_ (parseLimit_ok hlimit)
  exact ⟨h.handler, h.rateLimit, h.payment, h.protocols, h.inflight, h.bits, h.paymentLimit⟩

theorem handle {directive : Directive} (h : state.Checked)
    (hok : SiteBlock.directive.handle X state line args directive = .ok state') :
    state'.Checked := by
  unfold SiteBlock.directive.handle at hok
  obtain ⟨-, -, hok⟩ := bind_eq_ok.mp hok
  obtain ⟨handler, hhandler, hok⟩ := bind_eq_ok.mp hok
  obtain rfl := pure_eq_ok.mp hok
  refine ⟨fun handler' heq => ?_, h.rateLimit, h.payment, h.protocols, h.inflight, h.bits,
    h.paymentLimit⟩
  obtain rfl := Option.some.inj heq
  exact parseHandler_ok hhandler

/-- One group keeps what was checked, and checks its own. -/
theorem directive (h : state.Checked) {directive : Directive}
    (hok : state.directive X line args directive = .ok state') : state'.Checked := by
  cases directive with
  | reverseProxy => exact h.handle hok
  | respond => exact h.handle hok
  | lightningPay =>
    obtain ⟨-, -, hok⟩ := bind_eq_ok.mp hok
    obtain ⟨-, -, hok⟩ := bind_eq_ok.mp hok
    obtain rfl := pure_eq_ok.mp hok
    exact ⟨h.handler, h.rateLimit, h.payment, h.protocols, h.inflight, h.bits, h.paymentLimit⟩
  | lightningHeaders =>
    obtain ⟨-, -, hok⟩ := bind_eq_ok.mp hok
    obtain ⟨headers, -, hok⟩ := bind_eq_ok.mp hok
    obtain rfl := pure_eq_ok.mp hok
    exact ⟨h.handler, h.rateLimit, h.payment, h.protocols, h.inflight, h.bits, h.paymentLimit⟩
  | lightningOrigin =>
    obtain ⟨-, -, hok⟩ := bind_eq_ok.mp hok
    obtain ⟨-, -, hok⟩ := bind_eq_ok.mp hok
    obtain rfl := pure_eq_ok.mp hok
    exact ⟨h.handler, h.rateLimit, h.payment, h.protocols, h.inflight, h.bits, h.paymentLimit⟩
  | lightningProtocols =>
    obtain ⟨-, -, hok⟩ := bind_eq_ok.mp hok
    obtain ⟨protocols, hprotocols, hok⟩ := bind_eq_ok.mp hok
    obtain rfl := pure_eq_ok.mp hok
    refine ⟨h.handler, h.rateLimit, h.payment, fun p heq => ?_, h.inflight, h.bits, h.paymentLimit⟩
    obtain rfl := Option.some.inj heq
    exact parseProtocols_ok (mapError_eq_ok.mp hprotocols)
  | pay =>
    obtain ⟨-, -, hok⟩ := bind_eq_ok.mp hok
    obtain ⟨-, -, hok⟩ := bind_eq_ok.mp hok
    obtain ⟨policy, hpolicy, hok⟩ := bind_eq_ok.mp hok
    obtain rfl := pure_eq_ok.mp hok
    refine ⟨h.handler, h.rateLimit, fun p heq => ?_, h.protocols, h.inflight, h.bits, h.paymentLimit⟩
    obtain rfl := Option.some.inj heq
    exact parsePayment_ok (mapError_eq_ok.mp hpolicy)
  | maxInflight =>
    obtain ⟨-, -, hok⟩ := bind_eq_ok.mp hok
    obtain ⟨max, hmax, hok⟩ := bind_eq_ok.mp hok
    obtain rfl := pure_eq_ok.mp hok
    refine ⟨h.handler, h.rateLimit, h.payment, h.protocols, fun n heq => ?_, h.bits, h.paymentLimit⟩
    obtain rfl := Option.some.inj heq
    obtain ⟨text, -, hparse⟩ := Option.bind_eq_some_iff.mp (context_eq_ok.mp hmax)
    exact parseInflight_ok hparse
  | maxBodyBytes =>
    unfold SiteBlock.directive at hok
    refine h.control (fun controls value controls' hset => ?_) hok
    obtain ⟨bytes, -, rfl⟩ := map_eq_ok.mp hset
    exact ⟨fun hbits => hbits, rfl⟩
  | requestTimeout =>
    unfold SiteBlock.directive at hok
    refine h.control (fun controls value controls' hset => ?_) hok
    obtain ⟨seconds, -, rfl⟩ := map_eq_ok.mp hset
    exact ⟨fun hbits => hbits, rfl⟩
  | ipv6Prefix =>
    unfold SiteBlock.directive at hok
    refine h.control (fun controls value controls' hset => ?_) hok
    obtain ⟨bits, hbits, rfl⟩ := map_eq_ok.mp hset
    exact ⟨fun _ => parsePrefix_ok (context_eq_ok.mp hbits), rfl⟩
  | rateLimit =>
    unfold SiteBlock.directive at hok
    refine h.limit (fun s limit hs hlimit => ?_) hok
    refine ⟨hs.handler, fun l heq => ?_, hs.payment, hs.protocols, hs.inflight, hs.bits,
      hs.paymentLimit⟩
    obtain rfl := Option.some.inj heq
    exact hlimit
  | paymentVerifyLimit =>
    unfold SiteBlock.directive at hok
    refine h.limit (fun s limit hs hlimit => ?_) hok
    exact ⟨hs.handler, hs.rateLimit, hs.payment, hs.protocols, hs.inflight, hs.bits, hlimit⟩

/-- The loop over the directives. -/
theorem directives {fuel : ℕ} {tokens : List Token} (h : state.Checked)
    (hok : Geatafile.directives X fuel state tokens = .ok state') : state'.Checked := by
  induction fuel generalizing state tokens with
  | zero =>
    obtain rfl := (Except.ok.inj hok : state = state')
    exact h
  | succ fuel ih =>
    cases tokens with
    | nil =>
      obtain rfl := (Except.ok.inj hok : state = state')
      exact h
    | cons token rest =>
      unfold Geatafile.directives at hok
      obtain ⟨name, -, hok⟩ := bind_eq_ok.mp hok
      obtain ⟨next, hnext, hok⟩ := bind_eq_ok.mp hok
      exact ih (h.directive hnext) hok

end SiteBlock.Checked

/-! ### Sites -/

/-- The policy of a site, before it is compared with the site. -/
theorem policy_ok {state : SiteBlock} {line : ℕ} {receivers : Table ReceiverConfig}
    {domain : String} {https : Bool} {policy : Policy} (hc : state.Checked)
    (h : state.policy X line receivers domain https = .ok (some policy)) :
    BoundPolicy X policy ∧ (∃ sats, 0 < sats ∧ policy.amountMsat.toNat = sats * 1000) ∧
      (policy.protocols.x402 = true ∨ policy.protocols.l402 = true) := by
  unfold SiteBlock.policy at h
  split at h
  · obtain ⟨receiver, -, h⟩ := bind_eq_ok.mp h
    obtain ⟨headers, -, h⟩ := bind_eq_ok.mp h
    obtain ⟨made, hmade, h⟩ := bind_eq_ok.mp h
    obtain rfl := Option.some.inj (pure_eq_ok.mp h)
    obtain ⟨hbound, hprotocols, hamount⟩ := newPolicy_ok (mapError_eq_ok.mp hmade)
    refine ⟨hbound, hamount, ?_⟩
    rw [hprotocols]
    -- x402 is the protocol of a site that names none
    cases hp : state.lightningProtocols with
    | none => exact .inl rfl
    | some protocols => exact hc.protocols protocols hp
  · obtain ⟨-, -, h⟩ := bind_eq_ok.mp h
    exact absurd (pure_eq_ok.mp h) (by simp)

theorem siteCapacity_ok {parsed : ParsedDirectives} {capacity : Capacity}
    (hmax : ∀ max, parsed.maxInflight = some max → max.toNat ≤ 1000000)
    (h : siteCapacity parsed = some capacity) :
    1 ≤ capacity.max.toNat ∧ capacity.max.toNat ≤ 1000000 ∧
      capacity.ipv6Prefix = parsed.controls.ipv6Prefix := by
  obtain ⟨max, hm, rfl⟩ := Option.map_eq_some_iff.mp h
  obtain ⟨heq, hne⟩ := Option.filter_eq_some_iff.mp hm
  have heq := Option.some.inj heq
  refine ⟨?_, ?_, rfl⟩
  · show 1 ≤ max.toNat
    have hzero : max ≠ 0 := by simpa using hne
    have hnat : max.toNat ≠ 0 := fun h0 => hzero (UInt32.toNat_inj.mp h0)
    omega
  · show max.toNat ≤ 1000000
    rw [← heq]
    cases hi : parsed.maxInflight with
    | none => decide
    | some n => exact hmax n hi

theorem lowercase_domain (block : Block) :
    toAsciiLowercase block.domain.toList = block.domain.toList := by
  rw [Block.domain, String.toList_ofList]
  exact toAsciiLowercase_idem _

theorem parseSite_ok {receivers : Table ReceiverConfig} {block : Block} {site : Site}
    (hvalid : validDomain block.domain block.https = true)
    (h : parseSite X receivers block block.domain block.https = .ok site) :
    SafeSite X block.domain site := by
  unfold parseSite at h
  obtain ⟨parsed, hparsed, h⟩ := bind_eq_ok.mp h
  obtain ⟨_, hpolicy, h⟩ := bind_eq_ok.mp h
  obtain rfl := pure_eq_ok.mp h
  unfold parseDirectives at hparsed
  obtain ⟨state, hstate, hfinish⟩ := bind_eq_ok.mp hparsed
  have hc : state.Checked := checked_initial.directives hstate
  unfold SiteBlock.finish at hfinish
  obtain ⟨handler, hhandler, hfinish⟩ := bind_eq_ok.mp hfinish
  obtain ⟨lightning, hlightning, hfinish⟩ := bind_eq_ok.mp hfinish
  obtain rfl := pure_eq_ok.mp hfinish
  refine ⟨rfl, hvalid, lowercase_domain block, hc.bits, ?_, ?_, ?_, hc.payment, ?_⟩
  · rintro limiter (hfree | rfl)
    · obtain ⟨limit, hlimit, rfl⟩ := Option.map_eq_some_iff.mp hfree
      exact ⟨hc.rateLimit limit hlimit, rfl⟩
    · exact ⟨hc.paymentLimit, rfl⟩
  · intro capacity hcapacity
    exact siteCapacity_ok hc.inflight hcapacity
  · exact hc.handler handler (context_eq_ok.mp hhandler)
  · intro policy hsome
    obtain rfl : lightning = some policy := hsome
    obtain ⟨hbound, hamount, hprotocols⟩ := policy_ok hc hlightning
    exact safePolicy hbound hamount hprotocols (mapError_eq_ok.mp hpolicy)

/-! ### Payouts -/

theorem parseInterval_ok {value : String} {seconds : ℤ} (h : parseInterval value = .ok seconds) :
    1 ≤ seconds ∧ seconds ≤ 31536000 := by
  unfold parseInterval at h
  obtain ⟨multiplier, -, h⟩ := bind_eq_ok.mp h
  obtain ⟨n, -, h⟩ := bind_eq_ok.mp h
  obtain ⟨_, hrange, h⟩ := bind_eq_ok.mp h
  obtain rfl := pure_eq_ok.mp h
  exact of_decide_eq_true (ensure_eq_ok.mp hrange)

theorem requestAmount_ok {request : PaymentRequest} {amount : Option UInt64} {n : UInt64}
    (h : requestAmount request amount = .ok n) : 0 < n.toNat := by
  unfold requestAmount at h
  obtain ⟨-, -, h⟩ := bind_eq_ok.mp h
  obtain ⟨-, hpos⟩ := Option.filter_eq_some_iff.mp (context_eq_ok.mp h)
  exact UInt64.lt_iff_toNat_lt.mp (of_decide_eq_true hpos)

theorem validateRequest_ok {Y : Payments.Crates} {encoded mint : String} {amount : Option UInt64}
    {request : PaymentRequest} {n : UInt64}
    (h : validateRequest Y encoded mint amount = .ok (request, n)) : 0 < n.toNat := by
  unfold validateRequest at h
  obtain ⟨-, -, h⟩ := bind_eq_ok.mp h
  obtain ⟨parsed, -, h⟩ := bind_eq_ok.mp h
  obtain ⟨-, -, h⟩ := bind_eq_ok.mp h
  obtain ⟨-, -, h⟩ := bind_eq_ok.mp h
  obtain ⟨-, -, h⟩ := bind_eq_ok.mp h
  obtain ⟨amount, hamount, h⟩ := bind_eq_ok.mp h
  obtain ⟨transport, -, h⟩ := bind_eq_ok.mp h
  obtain ⟨-, -, h⟩ := bind_eq_ok.mp h
  obtain ⟨-, rfl⟩ := Prod.mk.inj (pure_eq_ok.mp h)
  exact requestAmount_ok hamount

theorem parseTriggers_ok {values : Table String} {interval : Option ℤ} {threshold : Option UInt64}
    (h : parseTriggers values = .ok (interval, threshold)) :
    (∀ seconds, interval = some seconds → 1 ≤ seconds ∧ seconds ≤ 31536000) ∧
      (∀ sats, threshold = some sats → 0 < sats.toNat) ∧ (interval.isSome ∨ threshold.isSome) := by
  unfold parseTriggers at h
  obtain ⟨read, hread, h⟩ := bind_eq_ok.mp h
  obtain ⟨sats, -, h⟩ := bind_eq_ok.mp h
  obtain ⟨_, hthreshold, h⟩ := bind_eq_ok.mp h
  obtain ⟨_, htrigger, h⟩ := bind_eq_ok.mp h
  obtain ⟨rfl, rfl⟩ := Prod.mk.inj (pure_eq_ok.mp h)
  refine ⟨fun seconds hseconds => ?_, fun n hn => ?_, ?_⟩
  · subst hseconds
    cases hvalue : values.lookup "interval" with
    | none =>
      rw [hvalue] at hread
      exact absurd (pure_eq_ok.mp hread) (by simp)
    | some value =>
      rw [hvalue] at hread
      obtain ⟨n, hn, heq⟩ := map_eq_ok.mp (hread : (parseInterval value).map some = _)
      obtain rfl := Option.some.inj heq
      exact parseInterval_ok hn
  · have hcheck := ensure_eq_ok.mp hthreshold
    subst hn
    have hne : n ≠ 0 := by simpa using hcheck
    have hnat : n.toNat ≠ 0 := fun h0 => hne (UInt64.toNat_inj.mp h0)
    omega
  · have hcheck := ensure_eq_ok.mp htrigger
    simpa using hcheck

theorem parsePayout_ok {args : List String} {payout : PayoutPolicy}
    (h : PayoutPolicy.parse X args = .ok payout) : SafePayout payout := by
  unfold PayoutPolicy.parse at h
  obtain ⟨-, -, h⟩ := bind_eq_ok.mp h
  obtain ⟨values, -, h⟩ := bind_eq_ok.mp h
  obtain ⟨_, -, h⟩ := bind_eq_ok.mp h
  obtain ⟨mint, -, h⟩ := bind_eq_ok.mp h
  obtain ⟨given, -, h⟩ := bind_eq_ok.mp h
  obtain ⟨encoded, -, h⟩ := bind_eq_ok.mp h
  obtain ⟨⟨request, amount⟩, hrequest, h⟩ := bind_eq_ok.mp h
  obtain ⟨_, hreusable, h⟩ := bind_eq_ok.mp h
  obtain ⟨_, -, h⟩ := bind_eq_ok.mp h
  obtain ⟨maxFee, -, h⟩ := bind_eq_ok.mp h
  split at h
  · rename_i fits
    obtain ⟨⟨interval, threshold⟩, htriggers, h⟩ := bind_eq_ok.mp h
    obtain rfl := pure_eq_ok.mp h
    obtain ⟨hinterval, hthreshold, htrigger⟩ := parseTriggers_ok htriggers
    refine ⟨validateRequest_ok (mapError_eq_ok.mp hrequest), fits, ?_, hinterval, hthreshold, htrigger⟩
    have hcheck := ensure_eq_ok.mp hreusable
    simpa using hcheck
  · exact absurd h (by simp)

/-! ### Files -/

theorem safe_empty : SafeConfig X { sites := ∅, payouts := [] } where
  sites _ _ h := absurd h (by simp)
  mints := List.nodup_nil
  count := Nat.zero_le _
  payouts _ h := absurd h List.not_mem_nil

theorem SafeConfig.addPayout {config config' : Config} {block : Block} (h : SafeConfig X config)
    (hok : Geatafile.addPayout X config block = .ok config') : SafeConfig X config' := by
  unfold Geatafile.addPayout at hok
  obtain ⟨payout, hpayout, hok⟩ := bind_eq_ok.mp hok
  obtain ⟨_, hfresh, hok⟩ := bind_eq_ok.mp hok
  obtain ⟨_, hcount, hok⟩ := bind_eq_ok.mp hok
  obtain rfl := pure_eq_ok.mp hok
  have hcount := of_decide_eq_true (ensure_eq_ok.mp hcount)
  refine ⟨h.sites, ?_, ?_, fun p hp => ?_⟩
  · rw [List.map_append, List.map_singleton]
    refine h.mints.append (List.nodup_singleton _) ?_
    rw [List.disjoint_singleton]
    intro hmem
    obtain ⟨p, hp, heq⟩ := List.mem_map.mp hmem
    have hany := ensure_eq_ok.mp hfresh
    rw [Bool.not_eq_true', List.any_eq_false] at hany
    exact hany p hp (beq_iff_eq.mpr heq)
  · show (config.payouts ++ [payout]).length ≤ 16
    rw [List.length_append, List.length_singleton]
    omega
  · rcases List.mem_append.mp hp with hp | hp
    · exact h.payouts p hp
    · obtain rfl := List.mem_singleton.mp hp
      exact parsePayout_ok (mapError_eq_ok.mp hpayout)

theorem SafeConfig.addSite {receivers : Table ReceiverConfig} {config config' : Config}
    {block : Block} (h : SafeConfig X config)
    (hvalid : validDomain block.domain block.https = true)
    (hok : Geatafile.addSite X receivers config block block.domain block.https = .ok config') :
    SafeConfig X config' := by
  unfold Geatafile.addSite at hok
  obtain ⟨site, hsite, hok⟩ := bind_eq_ok.mp hok
  obtain ⟨-, -, hok⟩ := bind_eq_ok.mp hok
  obtain rfl := pure_eq_ok.mp hok
  refine ⟨fun key s hlookup => ?_, h.mints, h.count, h.payouts⟩
  rw [Table.lookup_insert_eq] at hlookup
  split at hlookup
  · rename_i hkey
    obtain rfl := Option.some.inj hlookup
    rw [hkey]
    exact parseSite_ok hvalid hsite
  · exact h.sites key s hlookup

/-- One block keeps a configuration safe. -/
theorem SafeConfig.addBlock {receivers : Table ReceiverConfig} {config config' : Config}
    {block : Block} (h : SafeConfig X config)
    (hok : Geatafile.addBlock X receivers config block = .ok config') : SafeConfig X config' := by
  unfold Geatafile.addBlock at hok
  obtain ⟨_, hdomain, hok⟩ := bind_eq_ok.mp hok
  split at hok
  · exact h.addPayout hok
  · rename_i hpayout
    have hcheck := ensure_eq_ok.mp hdomain
    rw [Bool.or_eq_true] at hcheck
    exact h.addSite (hcheck.resolve_left hpayout) hok

theorem SafeConfig.blocks {receivers : Table ReceiverConfig} {config config' : Config}
    {blocks : List Block} (h : SafeConfig X config)
    (hok : blocks.foldlM (Geatafile.addBlock X receivers) config = .ok config') :
    SafeConfig X config' := by
  induction blocks generalizing config with
  | nil =>
    obtain rfl := pure_eq_ok.mp hok
    exact h
  | cons block blocks ih =>
    rw [List.foldlM_cons] at hok
    obtain ⟨next, hnext, hok⟩ := bind_eq_ok.mp hok
    exact ih (h.addBlock hnext) hok

theorem safe_ofTokens {tokens : List Token} {config : Config}
    (h : Config.ofTokens X tokens = .ok config) : SafeConfig X config := by
  unfold Config.ofTokens at h
  obtain ⟨⟨receivers, blocks⟩, -, h⟩ := bind_eq_ok.mp h
  obtain ⟨found, hfound, h⟩ := bind_eq_ok.mp h
  obtain ⟨-, -, h⟩ := bind_eq_ok.mp h
  obtain rfl := pure_eq_ok.mp h
  exact safe_empty.blocks hfound

/-- **Accepted configurations are safe.**  Whatever text a file holds, if it is accepted then the
    sites and payouts it makes are ones that the request path and the payout worker can take. -/
theorem accepted_configuration_safe {input : String} {config : Config}
    (h : Config.parse X input = .ok config) : SafeConfig X config := by
  unfold Config.parse at h
  obtain ⟨-, -, h⟩ := bind_eq_ok.mp h
  obtain ⟨tokens, -, h⟩ := bind_eq_ok.mp h
  exact safe_ofTokens h

/-- Crates that know the URL of one local backend. -/
def testGeatafile : Geatafile.Crates where
  sha256 b := b
  parseInvoice _ := none
  checkSignature _ := false
  base64Encode _ := ""
  base64Decode _ := none
  parsePayment _ := none
  parseToken _ := none
  proofs _ _ := none
  amountMintable quote := quote.amountPaid - quote.amountIssued
  parseMint _ := none
  parseRequest _ := none
  httpTarget _ := false
  operationText _ := ""
  parseOperation _ := none
  parseUrl text := if text = "http://localhost:3000" then
      .ok { text := "http://localhost:3000/", scheme := "http", username := "", password := none
            host := some "localhost", port := some 3000, portOrKnownDefault := some 3000
            path := "/", query := none, fragment := none, origin := "http://localhost:3000" }
    else .error "relative URL without a base"
  parseMintUrl _ := .error "invalid URL"
  fromJson _ := .error "expected value"
  publicKey _ := false
  headerName _ := true

/-- A file with one site, which is accepted. -/
theorem accepted_configuration_safe_site :
    ∃ config, Config.parse testGeatafile
        "Example.com \x7b rate_limit 10/s burst 20 reverse_proxy localhost:3000 \x7d" = .ok config ∧
      SafeConfig testGeatafile config := by
  have haccepted : (Config.parse testGeatafile
      "Example.com \x7b rate_limit 10/s burst 20 reverse_proxy localhost:3000 \x7d").isOk = true := by
    decide +kernel
  cases h : Config.parse testGeatafile
      "Example.com \x7b rate_limit 10/s burst 20 reverse_proxy localhost:3000 \x7d" with
  | error e =>
    rw [h] at haccepted
    exact absurd haccepted (by simp [Except.isOk, Except.toBool])
  | ok config => exact ⟨config, rfl, accepted_configuration_safe h⟩

end Geata.Geatafile
