import Geata.Proxy.Filter

namespace Geata

open Geata.Lib Geata.Lightning Geata.Payments

/-!
# The gates in front of a settlement

The predicate that charges the verification bucket (`paymentAttempt`) and the code that reads the
credential (`credential`) are written separately.  This file relates them at the place where it
matters: the moment a run of the filter is about to call `collect`, `settle` or `settleL402`.

* `Method` — the three payment methods, the header each of them is read from, and when a site has
  it.
* `PassedGates` — everything the request has been through when the call is made.
* `settlement_passed_gates` — every settlement call of every run comes after that.
-/

namespace Proxy

/-! ### Payment methods -/

/-- The ways to pay for a request. -/
inductive Method where
  | cashu
  | x402
  | l402
  deriving DecidableEq

/-- The header a payment is read from. -/
def Method.headerName : Method → String
  | .cashu => "x-cashu"
  | .x402 => "payment-signature"
  | .l402 => "authorization"

/-- The site looks at the method's header.  `Authorization` belongs to the upstream unless the
    site's Lightning policy has L402; `PAYMENT-SIGNATURE` is looked at on every Lightning site,
    if only to turn it away. -/
def Method.configured (site : Site) : Method → Bool
  | .cashu => site.payment.isSome
  | .x402 => site.lightning.isSome
  | .l402 => site.l402Enabled

/-- The site takes payments of the method. -/
def Method.enabled (site : Site) : Method → Bool
  | .cashu => site.payment.isSome
  | .x402 => site.lightning.any (fun p => p.protocols.x402)
  | .l402 => site.l402Enabled

/-- The method of a settlement call. -/
def FilterOp.method : FilterOp → Option Method
  | .collect _ _ _ => some .cashu
  | .settle _ _ _ => some .x402
  | .settleL402 _ _ _ => some .l402
  | _ => none

/-- A token of a payment verification bucket was taken. -/
def tookVerification : FilterSig.Event → Bool
  | ⟨.paymentVerification _ _, .ok _⟩ => true
  | _ => false

/-- The operation asks a verification bucket. -/
def FilterOp.verifies : FilterOp → Bool
  | .paymentVerification _ _ => true
  | _ => false

/-- Neither a settlement nor a question to a verification bucket. -/
def FilterOp.harmless (o : FilterOp) : Prop := o.method = none ∧ o.verifies = false

theorem filter_tookVerification {tr : List FilterSig.Event} (h : ∀ e ∈ tr, e.1.verifies = false) :
    tr.filter tookVerification = [] := by
  rw [List.filter_eq_nil_iff]
  rintro ⟨o, r⟩ he
  cases o with
  | paymentVerification domain client => exact absurd (h _ he) (by simp [FilterOp.verifies])
  | _ => simp [tookVerification]

/-- Where a request stands when a settlement of method `m` is called after `tr`. -/
structure PassedGates (proxy : Proxy) (request : Request) (tr : List FilterSig.Event) (m : Method)
    (domain : String) (site : Site) (client : IpAddr) : Prop where
  routed : (⟨.site domain, some site⟩ : FilterSig.Event) ∈ tr
  from_client : request.client = some client
  secure : proxy.tls = true ∨ client.isLoopback = true
  /-- One token of the site's bucket was taken for the client, and no other one. -/
  verified : tr.filter tookVerification = [⟨.paymentVerification domain client, .ok ()⟩]
  permit : site.capacity.isSome = true →
    (⟨.capacity domain client, true⟩ : FilterSig.Event) ∈ tr
  length : ∀ max length, site.controls.maxBodyBytes = some max →
    contentLength request = some length → length ≤ max
  enabled : m.enabled site = true
  one_value : ∃ value, request.headers.getAll m.headerName = [value]
  no_other : ∀ m', m' ≠ m → m'.configured site = true →
    request.headers.getAll m'.headerName = []
  first_call : ∀ e ∈ tr, e.1.method = none

/-! ### The credential -/

section

variable (X : Crates) (proxy : Proxy) (request : Request) (domain : String) (site : Site)

theorem containsKey_eq_false {headers : HeaderMap} {name : String} :
    containsKey headers name = false ↔ headers.getAll name = [] := by
  simp [containsKey]

/-- An L402 credential is the only `Authorization` value; without one the header is absent, where
    the site looks at it. -/
theorem l402Header_ok {l402 : Option String} (h : l402Header request site = .ok l402) :
    (l402.isSome = true → site.l402Enabled = true ∧
      ∃ value, request.headers.getAll "authorization" = [value]) ∧
    (l402 = none → site.l402Enabled = true → request.headers.getAll "authorization" = []) := by
  unfold l402Header at h
  by_cases hen : site.l402Enabled = true
  · rw [if_pos hen] at h
    cases hall : request.headers.getAll "authorization" with
    | nil =>
      rw [hall] at h
      obtain rfl := Except.ok.inj h
      exact ⟨by simp, fun _ _ => rfl⟩
    | cons value rest =>
      rw [hall] at h
      cases rest with
      | cons value' rest => exact absurd h (by simp)
      | nil =>
        cases hcred : l402Credential value with
        | none =>
          simp only [hcred] at h
          exact absurd h (by simp)
        | some credential =>
          simp only [hcred, Except.ok.injEq] at h
          subst h
          exact ⟨fun _ => ⟨hen, value, rfl⟩, by simp⟩
  · rw [if_neg hen] at h
    obtain rfl := Except.ok.inj h
    exact ⟨by simp, fun _ h => absurd h hen⟩

/-- The same for x402, which also excludes a Cashu token. -/
theorem lightningHeader_ok {x402 : Option String} (h : lightningHeader request site = .ok x402) :
    (x402.isSome = true → site.lightning.isSome = true ∧
      (∃ value, request.headers.getAll "payment-signature" = [value]) ∧
      request.headers.getAll "x-cashu" = []) ∧
    (x402 = none → site.lightning.isSome = true →
      request.headers.getAll "payment-signature" = []) := by
  unfold lightningHeader at h
  by_cases hln : site.lightning.isSome = true
  · rw [if_pos hln] at h
    cases hall : request.headers.getAll "payment-signature" with
    | nil =>
      rw [hall] at h
      obtain rfl := Except.ok.inj h
      exact ⟨by simp, fun _ _ => rfl⟩
    | cons value rest =>
      simp only [hall] at h
      by_cases hmany : (!rest.isEmpty || containsKey request.headers "x-cashu") = true
      · rw [if_pos hmany] at h
        exact absurd h (by simp)
      · rw [if_neg hmany] at h
        simp only [Bool.not_eq_true, Bool.or_eq_false_iff, Bool.not_eq_false',
          List.isEmpty_iff, containsKey_eq_false] at hmany
        obtain ⟨rfl, hcashu⟩ := hmany
        cases hx : x402 with
        | some text => exact ⟨fun _ => ⟨hln, ⟨value, rfl⟩, hcashu⟩, by simp⟩
        | none =>
          -- A single value is read or turned away.
          rw [hx] at h
          split at h
          · split at h
            · exact absurd h (by simp)
            · exact absurd h (by simp)
          · exact absurd h (by simp)
  · rw [if_neg hln] at h
    obtain rfl := Except.ok.inj h
    exact ⟨by simp, fun _ h => absurd h hln⟩

/-- The method of a credential. -/
def Supplied.method : Supplied → Option Method
  | .l402 _ => some .l402
  | .x402 _ => some .x402
  | .cashu _ => some .cashu
  | .nothing => none

/-- The credential is of one enabled method, and no other configured method's header is there.
    (That a Cashu header has one value only is checked later.) -/
theorem credential_method {supplied : Supplied} {m : Method}
    (h : credential request site = .ok supplied) (hm : supplied.method = some m) :
    m.enabled site = true ∧ request.headers.getAll m.headerName ≠ [] ∧
      (m ≠ .cashu → ∃ value, request.headers.getAll m.headerName = [value]) ∧
      ∀ m', m' ≠ m → m'.configured site = true → request.headers.getAll m'.headerName = [] := by
  unfold credential at h
  simp only [bind_eq_ok, ensure_eq_ok, exists_const, pure_eq_ok] at h
  obtain ⟨l402, hl, hone, hdisabled, x402, hx, rfl⟩ := h
  obtain ⟨hl_some, hl_none⟩ := l402Header_ok request site hl
  obtain ⟨hx_some, hx_none⟩ := lightningHeader_ok request site hx
  cases l402 with
  | some encoded =>
    obtain rfl : Method.l402 = m := by simpa [Supplied.method] using hm
    obtain ⟨hen, value, hvalue⟩ := hl_some rfl
    simp only [Option.isSome_some, Bool.true_and, Bool.not_eq_true', Bool.or_eq_false_iff,
      containsKey_eq_false] at hone
    obtain ⟨hsig, hcashu⟩ := hone
    refine ⟨hen, ?_, fun _ => ⟨value, hvalue⟩, fun m' hne hconf => ?_⟩
    · show request.headers.getAll "authorization" ≠ []
      rw [hvalue]
      simp
    · cases m' with
      | cashu => exact hcashu
      | x402 => exact hsig
      | l402 => exact absurd rfl hne
  | none =>
    cases x402 with
    | some encoded =>
      obtain rfl : Method.x402 = m := by simpa [Supplied.method] using hm
      obtain ⟨hln, ⟨value, hvalue⟩, hcashu⟩ := hx_some rfl
      have hkey : containsKey request.headers "payment-signature" = true := by
        simp [containsKey, hvalue]
      -- The header is there, so x402 must be on.
      have hen : site.lightning.any (fun p => p.protocols.x402) = true := by
        obtain ⟨policy, hp⟩ := Option.isSome_iff_exists.mp hln
        rw [hp, hkey] at hdisabled
        rw [hp]
        simpa using hdisabled
      refine ⟨hen, ?_, fun _ => ⟨value, hvalue⟩, fun m' hne hconf => ?_⟩
      · show request.headers.getAll "payment-signature" ≠ []
        rw [hvalue]
        simp
      · cases m' with
        | cashu => exact hcashu
        | x402 => exact absurd rfl hne
        | l402 => exact hl_none rfl hconf
    | none =>
      cases hpay : site.payment with
      | none => simp [hpay, Supplied.method] at hm
      | some policy =>
        cases hvalue : header request.headers "x-cashu" with
        | none => simp [hpay, hvalue, Supplied.method] at hm
        | some value =>
          obtain rfl : Method.cashu = m := by simpa [hpay, hvalue, Supplied.method] using hm
          refine ⟨by simp [Method.enabled, hpay], ?_, by simp, fun m' hne hconf => ?_⟩
          · intro hnil
            have hnil' : request.headers.getAll "x-cashu" = [] := hnil
            rw [header, hnil'] at hvalue
            exact absurd hvalue (by simp)
          · cases m' with
            | cashu => exact absurd rfl hne
            | x402 => exact hx_none rfl hconf
            | l402 => exact hl_none rfl hconf

/-- A request with a credential counts as a payment attempt. -/
theorem paymentAttempt_of_credential {supplied : Supplied} {m : Method}
    (h : credential request site = .ok supplied) (hm : supplied.method = some m) :
    paymentAttempt request site = true := by
  obtain ⟨hen, hne, -, -⟩ := credential_method request site h hm
  have hkey : containsKey request.headers m.headerName = true := by
    simpa [containsKey] using hne
  have hln : site.l402Enabled = true → site.lightning.isSome = true := by
    unfold Site.l402Enabled
    cases site.lightning with
    | none => simp
    | some policy => simp
  unfold paymentAttempt
  cases m with
  | cashu =>
    have hpay : site.payment.isSome = true := hen
    have hkey' : containsKey request.headers "x-cashu" = true := hkey
    rw [hpay, hkey']
    simp
  | x402 =>
    have hkey' : containsKey request.headers "payment-signature" = true := hkey
    have hsome : site.lightning.isSome = true := by
      have hen' : site.lightning.any (fun p => p.protocols.x402) = true := hen
      cases hl : site.lightning with
      | none => simp [hl] at hen'
      | some policy => rfl
    rw [hsome, hkey']
    simp
  | l402 =>
    have hkey' : containsKey request.headers "authorization" = true := hkey
    have hen' : site.l402Enabled = true := hen
    rw [hln hen', hen', hkey']
    simp

/-! ### What the stages perform -/

theorem needClient_all {P : FilterOp → Prop} : Stage.All P (needClient request) := by
  unfold needClient
  split
  · exact Stage.all_pure _
  · exact Stage.all_throw _

theorem needClient_ends {tr : List FilterSig.Event} {client : IpAddr}
    (h : (needClient request).Ends tr (.ok client)) : tr = [] ∧ request.client = some client := by
  unfold needClient at h
  split at h
  · rename_i client' hc
    obtain ⟨rfl, heq⟩ := Stage.ends_pure.mp h
    exact ⟨rfl, hc.trans (congrArg some (Except.ok.inj heq))⟩
  · exact absurd (Stage.ends_throw.mp h).2 (by simp)

theorem route_harmless : Stage.All FilterOp.harmless (route X request) := by
  unfold route
  split
  · exact Stage.all_throw _
  · refine Stage.All.bind (Stage.all_perform.mpr ⟨rfl, rfl⟩) (fun found => ?_)
    cases found with
    | none => exact Stage.all_throw _
    | some site => exact Stage.all_pure _

theorem listener_harmless : Stage.All FilterOp.harmless (listener proxy request domain site) := by
  unfold listener
  split
  · exact Stage.all_stopIf _ _
  · split
    · exact Stage.All.bind (Stage.all_perform.mpr ⟨rfl, rfl⟩) (fun _ => Stage.all_throw _)
    · split
      · refine Stage.All.bind ?_ (fun checked => ?_)
        · unfold checkRedirects
          split
          · exact Stage.all_perform.mpr ⟨rfl, rfl⟩
          · exact Stage.all_pure _
        · cases checked with
          | error wait => exact Stage.all_throw _
          | ok u => exact Stage.all_throw _
      · exact Stage.all_pure _

theorem acquireCapacity_harmless :
    Stage.All FilterOp.harmless (acquireCapacity request domain site) := by
  unfold acquireCapacity
  split
  · refine Stage.All.bind (needClient_all request) (fun client => ?_)
    refine Stage.All.bind (Stage.all_perform.mpr ⟨rfl, rfl⟩) ?_
    rintro (_ | _)
    · exact Stage.all_throw _
    · exact Stage.all_pure _
  · exact Stage.all_pure _

theorem checkVerification_settles_nothing :
    Stage.All (fun o => FilterOp.method o = none) (checkVerification request domain site) := by
  unfold checkVerification
  split
  · refine Stage.All.bind (needClient_all request) (fun client => ?_)
    refine Stage.All.bind (Stage.all_perform.mpr rfl) ?_
    rintro (_ | _)
    · exact Stage.all_throw _
    · exact Stage.all_pure _
  · exact Stage.all_pure _

theorem lightningBinding_harmless (policy : Policy) (maxBodyBytes : Option ℕ) :
    Stage.All FilterOp.harmless (lightningBinding X proxy request policy maxBodyBytes) := by
  unfold lightningBinding
  split
  · exact Stage.all_pure _
  · refine Stage.All.bind (Stage.all_perform.mpr ⟨rfl, rfl⟩) (fun arrived => ?_)
    split
    · exact Stage.all_pure _
    · refine Stage.All.bind (Stage.all_perform.mpr ⟨rfl, rfl⟩) ?_
      rintro (_ | _)
      · exact Stage.all_pure _
      · exact Stage.all_pure _

theorem payNothing_settles_nothing :
    Stage.All (fun o => FilterOp.method o = none) (payNothing X proxy request domain site) := by
  have hchallenge : ∀ client,
      Stage.All (fun o => FilterOp.method o = none)
        (lightningChallenge X proxy request site client) := by
    intro client
    unfold lightningChallenge
    split
    · refine Stage.All.bind
        ((lightningBinding_harmless X proxy request _ _).mono (fun o ho => ho.1)) ?_
      rintro (e | ⟨url, hash⟩)
      · exact Stage.all_pure _
      · exact Stage.all_perform.mpr rfl
    · exact Stage.all_pure _
  have hfree : ∀ client,
      Stage.All (fun o => FilterOp.method o = none) (checkFree domain site client) := by
    intro client
    unfold checkFree
    split
    · refine Stage.All.bind (Stage.all_perform.mpr rfl) ?_
      rintro (_ | _)
      · exact Stage.all_pure _
      · exact Stage.all_pure _
    · exact Stage.all_pure _
  unfold payNothing
  split
  · exact Stage.all_pure _
  · refine Stage.All.bind (needClient_all request) (fun client => ?_)
    refine Stage.All.bind (hfree client) (fun wait => ?_)
    split
    · unfold requirePayment
      dsimp only
      split
      · exact Stage.All.bind (hchallenge client) (fun _ => Stage.all_throw _)
      · exact Stage.all_throw _
    · exact Stage.all_pure _

/-! ### What the gates leave behind -/

theorem checkLength_ends {tr : List FilterSig.Event}
    (h : (checkLength request site).Ends tr (.ok ())) :
    tr = [] ∧ ∀ max length, site.controls.maxBodyBytes = some max →
      contentLength request = some length → length ≤ max := by
  obtain ⟨rfl, hr⟩ := Stage.ends_stopIf.mp h
  refine ⟨rfl, fun max length hmax hlen => ?_⟩
  rw [hmax, hlen] at hr
  by_contra hlt
  rw [not_le] at hlt
  simp [hlt] at hr

/-- A payment attempt goes on with exactly one token of the bucket. -/
theorem checkVerification_ends {tr : List FilterSig.Event}
    (hattempt : paymentAttempt request site = true)
    (h : (checkVerification request domain site).Ends tr (.ok ())) :
    ∃ client, request.client = some client ∧
      tr = [⟨.paymentVerification domain client, .ok ()⟩] := by
  unfold checkVerification at h
  rw [if_pos hattempt] at h
  obtain ⟨client, tr₁, tr₂, rfl, hneed, hrest⟩ := Stage.ends_bind_ok.mp h
  obtain ⟨rfl, hclient⟩ := needClient_ends request hneed
  obtain ⟨answer, tr₃, tr₄, rfl, hasked, hdone⟩ := Stage.ends_bind_ok.mp hrest
  obtain ⟨answer', rfl, heq⟩ := Stage.ends_perform.mp hasked
  obtain rfl := Except.ok.inj heq
  cases answer with
  | error wait => exact absurd (Stage.ends_throw.mp hdone).2 (by simp)
  | ok u =>
    obtain ⟨rfl, -⟩ := Stage.ends_pure.mp hdone
    exact ⟨client, hclient, rfl⟩

theorem acquireCapacity_ends {tr : List FilterSig.Event} {client : IpAddr}
    (hclient : request.client = some client) (hcapacity : site.capacity.isSome = true)
    (h : (acquireCapacity request domain site).Ends tr (.ok ())) :
    (⟨.capacity domain client, true⟩ : FilterSig.Event) ∈ tr := by
  unfold acquireCapacity at h
  rw [if_pos hcapacity] at h
  obtain ⟨client', tr₁, tr₂, rfl, hneed, hrest⟩ := Stage.ends_bind_ok.mp h
  obtain ⟨rfl, hsame⟩ := needClient_ends request hneed
  obtain rfl : client = client' := Option.some.inj (hclient.symm.trans hsame)
  obtain ⟨answer, tr₃, tr₄, rfl, hasked, hdone⟩ := Stage.ends_bind_ok.mp hrest
  obtain ⟨answer', rfl, heq⟩ := Stage.ends_perform.mp hasked
  obtain rfl := Except.ok.inj heq
  cases answer with
  | false => exact absurd (Stage.ends_throw.mp hdone).2 (by simp)
  | true => simp

/-- The gates settle nothing. -/
theorem gates_settle_nothing :
    Stage.All (fun o => FilterOp.method o = none) (gates X proxy request) := by
  unfold gates
  refine Stage.All.bind ((route_harmless X request).mono (fun o ho => ho.1)) (fun p => ?_)
  refine Stage.All.bind
    ((listener_harmless proxy request p.1 p.2).mono (fun o ho => ho.1)) (fun _ => ?_)
  refine Stage.All.bind (Stage.all_stopIf _ _) (fun _ => ?_)
  refine Stage.All.bind (checkVerification_settles_nothing request p.1 p.2) (fun _ => ?_)
  refine Stage.All.bind
    ((acquireCapacity_harmless request p.1 p.2).mono (fun o ho => ho.1)) (fun _ => ?_)
  exact Stage.All.bind (Stage.all_ofExcept _) (fun _ => Stage.all_pure _)

/-- Past the gates with a credential, everything but the call's own checks is in place. -/
theorem gates_passed {tr : List FilterSig.Event} {supplied : Supplied} {m : Method}
    (h : (gates X proxy request).Ends tr (.ok (domain, site, supplied)))
    (hm : supplied.method = some m)
    (hsecure : secure proxy request = true)
    (hone : ∃ value, request.headers.getAll m.headerName = [value]) :
    ∃ client, PassedGates proxy request tr m domain site client := by
  have hfirst := Stage.All.ends (gates_settle_nothing X proxy request) h
  obtain ⟨hsite, -, hcred⟩ := gates_ends X proxy request h
  unfold gates at h
  obtain ⟨⟨domain', site'⟩, tr₁, _, rfl, hroute, h⟩ := Stage.ends_bind_ok.mp h
  obtain ⟨_, tr₂, _, rfl, hlisten, h⟩ := Stage.ends_bind_ok.mp h
  obtain ⟨_, tr₃, _, rfl, hlength, h⟩ := Stage.ends_bind_ok.mp h
  obtain ⟨_, tr₄, _, rfl, hverify, h⟩ := Stage.ends_bind_ok.mp h
  obtain ⟨_, tr₅, _, rfl, hcapacity, h⟩ := Stage.ends_bind_ok.mp h
  obtain ⟨supplied', tr₆, _, rfl, hsupplied, h⟩ := Stage.ends_bind_ok.mp h
  obtain ⟨rfl, heq⟩ := Stage.ends_pure.mp h
  simp only [Except.ok.injEq, Prod.mk.injEq] at heq
  obtain ⟨rfl, rfl, rfl⟩ := heq
  obtain ⟨rfl, -⟩ := Stage.ends_ofExcept.mp hsupplied
  obtain ⟨rfl, hwithin⟩ := checkLength_ends request _ hlength
  -- The charge is for the attempt that the credential is.
  have hattempt := paymentAttempt_of_credential request _ hcred hm
  obtain ⟨client, hclient, rfl⟩ := checkVerification_ends request _ _ hattempt hverify
  obtain ⟨hen, -, -, hother⟩ := credential_method request _ hcred hm
  have hquiet : ∀ {tr : List FilterSig.Event}, (∀ e ∈ tr, e.1.harmless) →
      tr.filter tookVerification = [] := fun h => filter_tookVerification (fun e he => (h e he).2)
  refine ⟨client, hsite, hclient, ?_, ?_, ?_, hwithin, hen, hone, hother, hfirst⟩
  · simpa [secure, hclient] using hsecure
  · simp only [List.filter_append, hquiet (Stage.All.ends (route_harmless X request) hroute),
      hquiet (Stage.All.ends (listener_harmless proxy request _ _) hlisten),
      hquiet (Stage.All.ends (acquireCapacity_harmless request _ _) hcapacity)]
    simp [tookVerification]
  · intro hcap
    have hmem := acquireCapacity_ends request _ _ hclient hcap hcapacity
    simp [hmem]

/-! ### The settlement calls -/

/-- A Lightning settlement is called over a secure connection, with the method's own call. -/
theorem payLightning_calls {usingL402 : Bool} {encoded : String} {tr : List FilterSig.Event}
    {o : FilterOp} {m : Method} (ho : o.method = some m)
    (h : (payLightning X proxy request site usingL402 encoded).Calls tr o) :
    secure proxy request = true ∧ (∀ e ∈ tr, e.1.harmless) ∧
      m = if usingL402 then .l402 else .x402 := by
  unfold payLightning at h
  rcases Stage.calls_bind.mp h with hc | ⟨_, tr₁, tr₂, rfl, hstop, h₁⟩
  · exact absurd hc Stage.not_calls_stopIf
  obtain ⟨rfl, hr⟩ := Stage.ends_stopIf.mp hstop
  have hsecure : secure proxy request = true := by
    by_contra hns
    simp [hns] at hr
  cases hl : site.lightning with
  | none =>
    rw [hl] at h₁
    exact absurd h₁ Stage.not_calls_throw
  | some policy =>
    simp only [hl] at h₁
    rcases Stage.calls_bind.mp h₁ with hc | ⟨_, tr₃, tr₄, rfl, hstop, h₂⟩
    · exact absurd hc Stage.not_calls_stopIf
    obtain ⟨rfl, -⟩ := Stage.ends_stopIf.mp hstop
    rcases Stage.calls_bind.mp h₂ with hc | ⟨bound, tr₅, tr₆, rfl, hbind, h₃⟩
    · -- Reading the body settles nothing.
      have hnone := (Stage.All.calls (lightningBinding_harmless X proxy request _ _) hc).2.1
      rw [ho] at hnone
      exact absurd hnone (by simp)
    have hbefore := Stage.All.ends (lightningBinding_harmless X proxy request _ _) hbind
    rcases bound with e | ⟨url, hash⟩
    · exact absurd h₃ Stage.not_calls_throw
    · unfold settleWith at h₃
      have hcall : ∀ {o' : FilterOp} {f : o'.Res → Filter (Option String)},
          (∀ r tr, ¬ (f r).Calls tr o) →
          (Stage.perform (S := FilterSig) o' >>= f).Calls tr₆ o → tr₆ = [] ∧ o' = o := by
        intro o' f hf hc
        rcases Stage.calls_bind.mp hc with hc | ⟨r, _, tr', rfl, -, hc⟩
        · exact Stage.calls_perform.mp hc
        · exact absurd hc (hf r tr')
      cases usingL402 with
      | true =>
        obtain ⟨rfl, rfl⟩ := hcall (by rintro (_ | _) tr <;> simp) h₃
        exact ⟨hsecure, by simpa using hbefore, by simpa [FilterOp.method, eq_comm] using ho⟩
      | false =>
        obtain ⟨rfl, rfl⟩ := hcall (by rintro (_ | _) tr <;> simp) h₃
        exact ⟨hsecure, by simpa using hbefore, by simpa [FilterOp.method, eq_comm] using ho⟩

/-- `collect` is called over a secure connection, with one token and nothing before it. -/
theorem payCashu_calls {value : HeaderValue} {tr : List FilterSig.Event} {o : FilterOp}
    {m : Method} (ho : o.method = some m)
    (h : (payCashu proxy request domain site value).Calls tr o) :
    secure proxy request = true ∧ tr = [] ∧ m = .cashu ∧
      ∃ value, request.headers.getAll "x-cashu" = [value] := by
  unfold payCashu at h
  rcases Stage.calls_bind.mp h with hc | ⟨_, tr₁, tr₂, rfl, hstop, h₁⟩
  · exact absurd hc Stage.not_calls_stopIf
  obtain ⟨rfl, hcount⟩ := Stage.ends_stopIf.mp hstop
  have hlen : (request.headers.getAll "x-cashu").length = 1 := by
    have hname : request.headers.getAll "X-Cashu" = request.headers.getAll "x-cashu" := by
      unfold HeaderMap.getAll
      rfl
    rw [← hname]
    by_contra hne
    simp [hne] at hcount
  cases hp : site.payment with
  | none =>
    rw [hp] at h₁
    exact absurd h₁ Stage.not_calls_throw
  | some policy =>
    simp only [hp] at h₁
    rcases Stage.calls_bind.mp h₁ with hc | ⟨_, tr₃, tr₄, rfl, hstop, h₂⟩
    · exact absurd hc Stage.not_calls_stopIf
    obtain ⟨rfl, hr⟩ := Stage.ends_stopIf.mp hstop
    have hsecure : secure proxy request = true := by
      by_contra hns
      simp [hns] at hr
    cases htext : value.toStr with
    | none =>
      rw [htext] at h₂
      exact absurd h₂ Stage.not_calls_throw
    | some encoded =>
      simp only [htext] at h₂
      rcases Stage.calls_bind.mp h₂ with hc | ⟨_, tr₅, tr₆, rfl, hstop, h₃⟩
      · exact absurd hc Stage.not_calls_stopIf
      obtain ⟨rfl, -⟩ := Stage.ends_stopIf.mp hstop
      rcases Stage.calls_bind.mp h₃ with hc | ⟨answer, _, tr₇, rfl, -, h₄⟩
      · obtain ⟨rfl, rfl⟩ := Stage.calls_perform.mp hc
        exact ⟨hsecure, rfl, by simpa [FilterOp.method, eq_comm] using ho,
          List.length_eq_one_iff.mp hlen⟩
      · -- Nothing is performed after the answer.
        rcases answer with e | u
        · cases e with
          | invalid => exact absurd h₄ Stage.not_calls_throw
          | unavailable => exact absurd h₄ Stage.not_calls_throw
        · exact absurd h₄ Stage.not_calls_pure

/-- The settlement of a granted request is that of its credential. -/
theorem grant_calls {supplied : Supplied} {tr : List FilterSig.Event} {o : FilterOp} {m : Method}
    (hcred : credential request site = .ok supplied) (ho : o.method = some m)
    (h : (grant X proxy request domain site supplied).Calls tr o) :
    secure proxy request = true ∧ (∀ e ∈ tr, e.1.harmless) ∧ supplied.method = some m ∧
      ∃ value, request.headers.getAll m.headerName = [value] := by
  cases supplied with
  | l402 encoded =>
    obtain ⟨hsecure, hbefore, rfl⟩ := payLightning_calls X proxy request site ho h
    have hone := (credential_method request site hcred (m := .l402) rfl).2.2.1 (by simp)
    exact ⟨hsecure, hbefore, rfl, hone⟩
  | x402 encoded =>
    obtain ⟨hsecure, hbefore, rfl⟩ := payLightning_calls X proxy request site ho h
    have hone := (credential_method request site hcred (m := .x402) rfl).2.2.1 (by simp)
    exact ⟨hsecure, hbefore, rfl, hone⟩
  | cashu value =>
    obtain ⟨hsecure, rfl, rfl, hone⟩ := payCashu_calls proxy request domain site ho h
    exact ⟨hsecure, by simp, rfl, hone⟩
  | nothing =>
    have hnone := (Stage.All.calls (payNothing_settles_nothing X proxy request domain site) h).2
    rw [ho] at hnone
    exact absurd hnone (by simp)

end

theorem PassedGates.append {proxy : Proxy} {request : Request} {tr tr' : List FilterSig.Event}
    {m : Method} {domain : String} {site : Site} {client : IpAddr}
    (h : PassedGates proxy request tr m domain site client) (h' : ∀ e ∈ tr', e.1.harmless) :
    PassedGates proxy request (tr ++ tr') m domain site client where
  routed := List.mem_append_left _ h.routed
  from_client := h.from_client
  secure := h.secure
  verified := by
    rw [List.filter_append, h.verified, filter_tookVerification (fun e he => (h' e he).2)]
    rfl
  permit hcap := List.mem_append_left _ (h.permit hcap)
  length := h.length
  enabled := h.enabled
  one_value := h.one_value
  no_other := h.no_other
  first_call := by
    intro e he
    rcases List.mem_append.mp he with he | he
    · exact h.first_call e he
    · exact (h' e he).1

/-- **No settlement work without passing the gates.**  Whenever a run of the filter, whatever the
    other components answered, is about to call `collect`, `settle` or `settleL402`: the request
    came over TLS or from the local machine; exactly one token of the site's verification bucket
    was taken, for this client; a permit is held if the site has a capacity; a readable declared
    length is within the site's limit; the request has exactly one header value of the call's own
    method, which the site has enabled, and none of another configured method; and no settlement
    was called before. -/
theorem settlement_passed_gates {X : Crates} {proxy : Proxy} {request : Request}
    {tr : List FilterSig.Event} {o : FilterOp} {m : Method}
    (h : Prog.Next (requestFilter X proxy request) tr o) (ho : o.method = some m) :
    ∃ domain site client, PassedGates proxy request tr m domain site client := by
  have hcalls : (filterStages X proxy request).Calls tr o := by
    rcases Prog.next_bind.mp h with h | ⟨r, tr₁, tr₂, rfl, -, h⟩
    · exact h
    · -- The outcome is returned as it is.
      cases r with
      | ok outcome => exact absurd h Prog.not_next_ret
      | error outcome => exact absurd h Prog.not_next_ret
  unfold filterStages at hcalls
  rcases Stage.calls_bind.mp hcalls with hc | ⟨⟨domain, site, supplied⟩, tr₁, _, rfl, hgates, hc⟩
  · have hnone := (Stage.All.calls (gates_settle_nothing X proxy request) hc).2
    rw [ho] at hnone
    exact absurd hnone (by simp)
  have hcred := (gates_ends X proxy request hgates).2.2
  rcases Stage.calls_bind.mp hc with hc | ⟨receipt, _, tr₃, rfl, -, hc⟩
  · obtain ⟨hsecure, hbefore, hm, hone⟩ := grant_calls X proxy request domain site hcred ho hc
    obtain ⟨client, hpassed⟩ := gates_passed X proxy request domain site hgates hm hsecure hone
    exact ⟨domain, site, client, hpassed.append hbefore⟩
  · exact absurd hc Stage.not_calls_pure

/-- A site with a price in sats. -/
def testPaidSite : Site where
  domain := "a.b"
  https := true
  handler := .respond "ok" 200
  rateLimit := none
  payment := some { mint := "https://mint.test", price := 2 }
  lightning := none
  capacity := some 4
  controls := { maxBodyBytes := some 10 }
  paymentVerification := { limit := { perSecond := 2, burst := 8 }, ipv6Prefix := 64 }

def testPaidRequest : Request :=
  { testRequest with headers := [("x-cashu", [116])] }

/-- A request with one token: charged, admitted to the capacity, and then collected. -/
theorem settlement_passed_gates_cashu :
    ∃ tr o domain site client,
      Prog.Next (requestFilter testFilterCrates { testProxy with payments := true }
        testPaidRequest) tr o ∧
      o.method = some .cashu ∧
      PassedGates { testProxy with payments := true } testPaidRequest tr .cashu domain site
        client := by
  have hnext : Prog.Next (requestFilter testFilterCrates { testProxy with payments := true }
      testPaidRequest)
      [⟨.site "a.b", some testPaidSite⟩,
        ⟨.paymentVerification "a.b" (.v4 0x7f000001), .ok ()⟩,
        ⟨.capacity "a.b" (.v4 0x7f000001), true⟩]
      (.collect "a.b" { mint := "https://mint.test", price := 2 } "t") :=
    ⟨_, .op (.op (.op (.refl _)))⟩
  obtain ⟨domain, site, client, h⟩ := settlement_passed_gates hnext (m := .cashu) rfl
  exact ⟨_, _, domain, site, client, hnext, rfl, h⟩

end Proxy

end Geata
