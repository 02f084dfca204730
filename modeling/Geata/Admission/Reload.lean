import Mathlib.Data.Multiset.Filter
import Mathlib.Logic.Relation
import Geata.Admission.Permits
import Geata.Geatafile.Parse
import Geata.Lib.Registry
import Geata.RateLimit.Bound

namespace Geata.Admission

open Geata.Lib Geata.RateLimit

/-!
# Reloads with requests under way

`State::replace_config` puts a new configuration in place while requests of the old one are being
served.  A site's capacity and its limiters are behind an `Arc`: a request has those of the moment
it was routed, and the new configuration takes over the ones whose limits are unchanged.

* `Server.reload` — the reload, on the capacities and limiters of all sites.
* `Server.Step` — the requests, each on the objects it was routed with.
* `Server.Sound` — what the counters of every capacity say of the requests under way.
* `capacity_survives_reloads` — one capacity for all requests of a site, for as long as the limit of
  the site stays the same.
-/

/-! ### The objects of a configuration -/

/-- A capacity that a configuration makes, with all its permits. -/
def Capacity.made (capacity : Geatafile.Capacity) : Capacity where
  max := capacity.max
  ipv6Prefix := capacity.ipv6Prefix
  perClient := capacity.perClient
  permits := capacity.max.toNat

theorem Capacity.made_fresh (capacity : Geatafile.Capacity) : (Capacity.made capacity).Fresh :=
  ⟨rfl, rfl⟩

/-- Two capacities with the same limits. -/
def sameCapacity (next old : Capacity) : Bool :=
  next.max == old.max && next.ipv6Prefix == old.ipv6Prefix

def siteCapacities (config : Geatafile.Config) : List (String × Capacity) :=
  config.sites.rows.filterMap (fun (domain, site) =>
    site.capacity.map (fun capacity => (domain, Capacity.made capacity)))

/-- The limits of a site's limiters. -/
def siteLimiter (site : Geatafile.Site) : Which → Option Proxy.RateLimiter
  | .free => site.rateLimit
  | .verification => some site.paymentVerification

/-- The limiters a configuration makes at `now`, with the hashes that are drawn for them. -/
def siteLimiters (hash : String × Which → IpAddr → ℕ) (now : ℕ) (config : Geatafile.Config) :
    List ((String × Which) × RateLimiter) :=
  config.sites.rows.flatMap (fun (domain, site) =>
    [Which.free, .verification].filterMap (fun which => (siteLimiter site which).map
      (fun limiter => ((domain, which),
        RateLimiter.withPrefix limiter.limit limiter.ipv6Prefix (hash (domain, which)) now))))

/-! ### The server -/

/-- Where a request is with its capacity. -/
inductive Standing where
  | routed
  /-- It has a permit, as this client. -/
  | admitted (client : IpAddr)
  /-- It is over, and the permit is half dropped. -/
  | dropping
  deriving DecidableEq

/-- A request that has been routed, with what its site had at that moment. -/
structure Routed where
  domain : String
  client : IpAddr
  capacity : Option ℕ
  limiter : Which → Option ℕ
  standing : Standing := .routed

/-- The answer of a limiter to a request. -/
structure Check where
  limiter : ℕ
  client : IpAddr
  now : ℕ
  ok : Bool

/-- The state, with the requests under way and the answers the limiters have given, the last one
    first. -/
structure Server where
  capacities : Registry String Capacity := {}
  limiters : Registry (String × Which) RateLimiter := {}
  requests : Multiset Routed := 0
  clock : ℕ := 0
  checks : List Check := []

namespace Server

/-- `State::replace_config` -/
def reload (s : Server) (config : Geatafile.Config) (hash : String × Which → IpAddr → ℕ)
    (now : ℕ) : Server :=
  { s with
    capacities := s.capacities.replace sameCapacity (siteCapacities config)
    limiters := s.limiters.replace RateLimiter.same (siteLimiters hash now config)
    clock := now }

/-- One step of a request. -/
inductive Step : Server → Server → Prop where
  | route {s : Server} (domain : String) (client : IpAddr) :
      Step s { s with requests := {
        domain, client
        capacity := s.capacities.table domain
        limiter := fun which => s.limiters.table (domain, which) } ::ₘ s.requests }
  | check {s : Server} {q : Routed} {which : Which} {id now : ℕ} {limiter : RateLimiter}
      (hq : q ∈ s.requests) (hid : q.limiter which = some id)
      (hlimiter : s.limiters.objects[id]? = some limiter) (hnow : s.clock ≤ now) :
      Step s { s with
        limiters := s.limiters.put id (limiter.check q.client now).2
        clock := now
        checks := ⟨id, q.client, now, (limiter.check q.client now).1.isOk⟩ :: s.checks }
  | acquire {s : Server} {q : Routed} {rest : Multiset Routed} {id : ℕ} {c c' : Capacity}
      {client : IpAddr} (hq : s.requests = q ::ₘ rest) (hstanding : q.standing = .routed)
      (hid : q.capacity = some id) (hc : s.capacities.objects[id]? = some c)
      (hgranted : c.tryAcquire q.client = (some client, c')) :
      Step s { s with
        capacities := s.capacities.put id c'
        requests := { q with standing := .admitted client } ::ₘ rest }
  | refuse {s : Server} {q : Routed} {rest : Multiset Routed} {id : ℕ} {c c' : Capacity}
      (hq : s.requests = q ::ₘ rest) (hstanding : q.standing = .routed)
      (hid : q.capacity = some id) (hc : s.capacities.objects[id]? = some c)
      (hrefused : c.tryAcquire q.client = (none, c')) :
      Step s { s with capacities := s.capacities.put id c', requests := rest }
  /-- A request without a permit is over. -/
  | leave {s : Server} {q : Routed} {rest : Multiset Routed} (hq : s.requests = q ::ₘ rest)
      (hstanding : q.standing = .routed) : Step s { s with requests := rest }
  | decrement {s : Server} {q : Routed} {rest : Multiset Routed} {id : ℕ} {c c' : Capacity}
      {client : IpAddr} (hq : s.requests = q ::ₘ rest) (hstanding : q.standing = .admitted client)
      (hid : q.capacity = some id) (hc : s.capacities.objects[id]? = some c)
      (hdone : c.decrement client = .ok c') :
      Step s { s with
        capacities := s.capacities.put id c'
        requests := { q with standing := .dropping } ::ₘ rest }
  | release {s : Server} {q : Routed} {rest : Multiset Routed} {id : ℕ} {c : Capacity}
      (hq : s.requests = q ::ₘ rest) (hstanding : q.standing = .dropping)
      (hid : q.capacity = some id) (hc : s.capacities.objects[id]? = some c) :
      Step s { s with capacities := s.capacities.put id c.release, requests := rest }

/-- A step, or a reload of a configuration of a kind. -/
def Next (P : Geatafile.Config → Prop) (s s' : Server) : Prop :=
  Step s s' ∨ ∃ config hash now, P config ∧ s.clock ≤ now ∧ s' = s.reload config hash now

/-- The states of a server; the first configuration is loaded like any other. -/
def Reachable : Server → Prop := Relation.ReflTransGen (Next (fun _ => True)) {}

/-! ### Permits -/

/-- The client of the permit a request has of a capacity. -/
def permit (id : ℕ) (q : Routed) : Option IpAddr :=
  match q.standing with
  | .admitted client => if q.capacity = some id then some client else none
  | _ => none

/-- A request that is giving a slot of a capacity back. -/
def returning (id : ℕ) (q : Routed) : Bool := decide (q.standing = .dropping ∧ q.capacity = some id)

/-- The clients with a permit of a capacity. -/
def permits (id : ℕ) (requests : Multiset Routed) : Multiset IpAddr :=
  requests.filterMap (permit id)

/-- How many slots of a capacity are being given back. -/
def returns (id : ℕ) (requests : Multiset Routed) : ℕ :=
  requests.countP (fun q => returning id q)

/-- The counters of a capacity are those of the requests. -/
def Accounts (c : Capacity) (id : ℕ) (requests : Multiset Routed) : Prop :=
  c.Counts (permits id requests) ((permits id requests).card + returns id requests)

section

variable {s s' : Server} {q : Routed} {rest : Multiset Routed} {id id' : ℕ} {c c' : Capacity}
  {client : IpAddr}

theorem accounts_routed (h : q.standing = .routed) :
    Accounts c id (q ::ₘ rest) ↔ Accounts c id rest := by
  have hpermit : permit id q = none := by simp [permit, h]
  unfold Accounts permits returns
  rw [Multiset.filterMap_cons_none _ _ hpermit,
    Multiset.countP_cons_of_neg _ (by simp [returning, h])]

theorem accounts_admitted (h : q.standing = .admitted client) (hid : q.capacity = some id) :
    Accounts c id (q ::ₘ rest) ↔
      c.Counts (client ::ₘ permits id rest) ((permits id rest).card + returns id rest + 1) := by
  have hpermit : permit id q = some client := by simp [permit, h, hid]
  unfold Accounts permits returns
  rw [Multiset.filterMap_cons_some _ _ _ hpermit,
    Multiset.countP_cons_of_neg _ (by simp [returning, h]), Multiset.card_cons, Nat.add_right_comm]

theorem accounts_dropping (h : q.standing = .dropping) (hid : q.capacity = some id) :
    Accounts c id (q ::ₘ rest) ↔
      c.Counts (permits id rest) ((permits id rest).card + returns id rest + 1) := by
  have hpermit : permit id q = none := by simp [permit, h]
  unfold Accounts permits returns
  rw [Multiset.filterMap_cons_none _ _ hpermit,
    Multiset.countP_cons_of_pos _ (by simp [returning, h, hid]), Nat.add_assoc]

/-- A request is out of the accounts of all other capacities. -/
theorem accounts_other (hid : q.capacity = some id) (hne : id' ≠ id) :
    Accounts c id' (q ::ₘ rest) ↔ Accounts c id' rest := by
  have hother : q.capacity ≠ some id' := by
    rw [hid]
    exact fun h => hne (Option.some.inj h).symm
  have hpermit : permit id' q = none := by
    unfold permit
    split
    · rw [if_neg hother]
    · rfl
  unfold Accounts permits returns
  rw [Multiset.filterMap_cons_none _ _ hpermit,
    Multiset.countP_cons_of_neg _ (by simp [returning, hother])]

/-- Without requests of its own a capacity has all its permits. -/
theorem accounts_unused (h : ∀ q ∈ rest, q.capacity ≠ some id) :
    permits id rest = 0 ∧ returns id rest = 0 := by
  induction rest using Multiset.induction with
  | empty => exact ⟨rfl, rfl⟩
  | cons q rest ih =>
    have hq := h q (Multiset.mem_cons_self q rest)
    obtain ⟨hpermits, hreturns⟩ := ih (fun q' hq' => h q' (Multiset.mem_cons_of_mem hq'))
    have hpermit : permit id q = none := by
      unfold permit
      split
      · rw [if_neg hq]
      · rfl
    constructor
    · rw [permits, Multiset.filterMap_cons_none _ _ hpermit]
      exact hpermits
    · rw [returns, Multiset.countP_cons_of_neg _ (by simp [returning, hq])]
      exact hreturns

/-- The books of a server. -/
structure Sound (s : Server) : Prop where
  capacities : s.capacities.Valid
  limiters : s.limiters.Valid
  counts : ∀ (id : ℕ) (c : Capacity), s.capacities.objects[id]? = some c →
    Accounts c id s.requests
  made : ∀ q ∈ s.requests, ∀ id, q.capacity = some id → id < s.capacities.objects.length
  owner : ∀ q ∈ s.requests, ∀ id, q.capacity = some id →
    ∀ domain, s.capacities.table domain = some id → domain = q.domain
  shared : ∀ q ∈ s.requests, ∀ q' ∈ s.requests, ∀ id, q.capacity = some id →
    q'.capacity = some id → q.domain = q'.domain

/-- A request has moved on with its capacity, or is gone. -/
theorem Sound.move (h : s.Sound) (hq : s.requests = q ::ₘ rest) (hid : q.capacity = some id)
    (hc : s.capacities.objects[id]? = some c) {requests : Multiset Routed}
    (hrequests : requests = rest ∨ ∃ standing, requests = { q with standing } ::ₘ rest)
    (hcounts : Accounts c' id requests) :
    Sound { s with capacities := s.capacities.put id c', requests } := by
  -- Every request stands for one that was there, of the same site and with the same capacity.
  have hsame : ∀ q' ∈ requests, ∃ q'' ∈ s.requests,
      q''.domain = q'.domain ∧ q''.capacity = q'.capacity := by
    intro q' hq'
    rw [hq]
    rcases hrequests with rfl | ⟨standing, rfl⟩
    · exact ⟨q', Multiset.mem_cons_of_mem hq', rfl, rfl⟩
    · rcases Multiset.mem_cons.mp hq' with rfl | hq'
      · exact ⟨q, Multiset.mem_cons_self q rest, rfl, rfl⟩
      · exact ⟨q', Multiset.mem_cons_of_mem hq', rfl, rfl⟩
  refine ⟨h.capacities.put id c', h.limiters, ?_, ?_, ?_, ?_⟩
  · intro id' x hx
    change (s.capacities.put id c').objects[id']? = some x at hx
    rw [Registry.put_objects hc] at hx
    by_cases hne : id' = id
    · subst hne
      rw [if_pos rfl] at hx
      rw [← Option.some.inj hx]
      exact hcounts
    · rw [if_neg hne] at hx
      have hold := h.counts id' x hx
      rw [hq, accounts_other hid hne] at hold
      rcases hrequests with rfl | ⟨standing, rfl⟩
      · exact hold
      · exact (accounts_other (q := { q with standing }) hid hne).mpr hold
  · intro q' hq' id' hid'
    obtain ⟨q'', hq'', -, hcap⟩ := hsame q' hq'
    show id' < (s.capacities.objects.set id c').length
    rw [List.length_set]
    exact h.made q'' hq'' id' (hcap.trans hid')
  · intro q' hq' id' hid' domain hdomain
    obtain ⟨q'', hq'', hsite, hcap⟩ := hsame q' hq'
    exact (h.owner q'' hq'' id' (hcap.trans hid') domain hdomain).trans hsite
  · intro q₁ hq₁ q₂ hq₂ id' hid₁ hid₂
    obtain ⟨q₁', hq₁', hsite₁, hcap₁⟩ := hsame q₁ hq₁
    obtain ⟨q₂', hq₂', hsite₂, hcap₂⟩ := hsame q₂ hq₂
    rw [← hsite₁, ← hsite₂]
    exact h.shared q₁' hq₁' q₂' hq₂' id' (hcap₁.trans hid₁) (hcap₂.trans hid₂)

/-- A new request has the objects of its site, which nobody else's requests have. -/
theorem Sound.route (h : s.Sound) (domain : String) (client : IpAddr) :
    Sound { s with requests := {
      domain, client
      capacity := s.capacities.table domain
      limiter := fun which => s.limiters.table (domain, which) } ::ₘ s.requests } where
  capacities := h.capacities
  limiters := h.limiters
  counts id c hc := (accounts_routed rfl).mpr (h.counts id c hc)
  made q hq id hid := by
    rcases Multiset.mem_cons.mp hq with rfl | hq
    · exact h.capacities.bound domain id hid
    · exact h.made q hq id hid
  owner q hq id hid domain' hdomain' := by
    rcases Multiset.mem_cons.mp hq with rfl | hq
    · exact h.capacities.once domain' domain id hdomain' hid
    · exact h.owner q hq id hid domain' hdomain'
  shared q hq q' hq' id hid hid' := by
    rcases Multiset.mem_cons.mp hq with rfl | hq
    · rcases Multiset.mem_cons.mp hq' with rfl | hq'
      · rfl
      · exact h.owner q' hq' id hid' domain hid
    · rcases Multiset.mem_cons.mp hq' with rfl | hq'
      · exact (h.owner q hq id hid domain hid').symm
      · exact h.shared q hq q' hq' id hid hid'

theorem Sound.leave (h : s.Sound) (hq : s.requests = q ::ₘ rest) (hstanding : q.standing = .routed) :
    Sound { s with requests := rest } := by
  have hmem : ∀ {q'}, q' ∈ rest → q' ∈ s.requests := by
    intro q' hq'
    rw [hq]
    exact Multiset.mem_cons_of_mem hq'
  refine ⟨h.capacities, h.limiters, fun id c hc => ?_, fun q' hq' => h.made q' (hmem hq'),
    fun q' hq' => h.owner q' (hmem hq'),
    fun q₁ hq₁ q₂ hq₂ => h.shared q₁ (hmem hq₁) q₂ (hmem hq₂)⟩
  have hcounts := h.counts id c hc
  rwa [hq, accounts_routed hstanding] at hcounts

theorem Sound.step (h : s.Sound) (hs : Step s s') : s'.Sound := by
  cases hs with
  | route domain client => exact h.route domain client
  | check hq hid hlimiter hnow =>
    exact ⟨h.capacities, h.limiters.put _ _, h.counts, h.made, h.owner, h.shared⟩
  | @acquire q rest id c c' client hq hstanding hid hc hgranted =>
    -- A routed request is in no account, and an admitted one is in that of its client.
    apply h.move hq hid hc (.inr ⟨_, rfl⟩)
    have hcounts := h.counts _ _ hc
    rw [hq, accounts_routed hstanding] at hcounts
    apply (accounts_admitted (q := { q with standing := .admitted client }) rfl hid).mpr
    exact (Capacity.Counts.tryAcquire_some hcounts hgranted).2.2
  | refuse hq hstanding hid hc hrefused =>
    apply h.move hq hid hc (.inl rfl)
    have hcounts := h.counts _ _ hc
    rw [hq, accounts_routed hstanding] at hcounts
    rw [Capacity.tryAcquire_none hrefused]
    exact hcounts
  | leave hq hstanding => exact h.leave hq hstanding
  | @decrement q rest id c c' client hq hstanding hid hc hdone =>
    apply h.move hq hid hc (.inr ⟨_, rfl⟩)
    have hcounts := h.counts _ _ hc
    rw [hq, accounts_admitted hstanding hid] at hcounts
    obtain ⟨c'', hdone', -, hcounts'⟩ := hcounts.decrement (Multiset.mem_cons_self client _)
    obtain rfl := Except.ok.inj (hdone.symm.trans hdone')
    rw [Multiset.erase_cons_head] at hcounts'
    exact (accounts_dropping (q := { q with standing := .dropping }) rfl hid).mpr hcounts'
  | release hq hstanding hid hc =>
    apply h.move hq hid hc (.inl rfl)
    have hcounts := h.counts _ _ hc
    rw [hq, accounts_dropping hstanding hid] at hcounts
    exact hcounts.release

theorem mem_siteCapacities {config : Geatafile.Config} {domain : String} {x : Capacity} :
    (domain, x) ∈ siteCapacities config ↔ ∃ site capacity,
      config.sites.lookup domain = some site ∧ site.capacity = some capacity ∧
        x = Capacity.made capacity := by
  unfold siteCapacities
  rw [List.mem_filterMap]
  constructor
  · rintro ⟨⟨domain', site⟩, hrow, h⟩
    obtain ⟨capacity, hcapacity, heq⟩ := Option.map_eq_some_iff.mp h
    obtain ⟨rfl, rfl⟩ := Prod.mk.inj heq
    exact ⟨site, capacity, Table.mem_rows.mp hrow, hcapacity, rfl⟩
  · rintro ⟨site, capacity, hsite, hcapacity, rfl⟩
    refine ⟨(domain, site), Table.mem_rows.mpr hsite, ?_⟩
    simp only [hcapacity, Option.map_some]

/-- A reload leaves the requests under way with their capacities, and gives no new one to them. -/
theorem Sound.reload (h : s.Sound) (config : Geatafile.Config) (hash : String × Which → IpAddr → ℕ)
    (now : ℕ) : (s.reload config hash now).Sound where
  capacities := h.capacities.replace _
  limiters := h.limiters.replace _
  counts id c hc := by
    rcases Registry.replace_objects hc with hold | ⟨hlen, domain, hmem⟩
    · exact h.counts id c hold
    · -- A new capacity, which no request can have.
      obtain ⟨site, capacity, -, -, rfl⟩ := mem_siteCapacities.mp hmem
      have hunused : ∀ q ∈ s.requests, q.capacity ≠ some id := by
        intro q hq hid
        have hlt := h.made q hq id hid
        omega
      obtain ⟨hpermits, hreturns⟩ := accounts_unused hunused
      show (Capacity.made capacity).Counts (permits id s.requests)
        ((permits id s.requests).card + returns id s.requests)
      rw [hpermits, hreturns]
      exact (Capacity.made_fresh capacity).counts
  made q hq id hid := by
    have hlt := h.made q hq id hid
    show id < (s.capacities.objects ++ (siteCapacities config).map Prod.snd).length
    rw [List.length_append]
    omega
  owner q hq id hid domain hdomain := by
    have hlt := h.made q hq id hid
    obtain ⟨i, new, -, ⟨hold, -⟩ | ⟨rfl, -⟩⟩ := Registry.replace_cases hdomain
    · exact h.owner q hq id hid domain hold
    · omega
  shared := h.shared

theorem Sound.next {P : Geatafile.Config → Prop} (h : s.Sound) (hs : Next P s s') : s'.Sound := by
  rcases hs with hs | ⟨config, hash, now, -, -, rfl⟩
  · exact h.step hs
  · exact h.reload config hash now

theorem Reachable.sound (h : Reachable s) : s.Sound := by
  induction h with
  | refl =>
    refine ⟨.empty, .empty, ?_, ?_, ?_, ?_⟩ <;> simp
  | tail _ hs ih => exact ih.next hs

/-! ### A capacity through reloads -/

/-- A capacity is never anything but itself. -/
theorem Step.capacity (hs : Step s s') (h : s.Sound) (hc : s.capacities.objects[id]? = some c) :
    s'.capacities.table = s.capacities.table ∧
      ∃ c', s'.capacities.objects[id]? = some c' ∧ c.Alike c' := by
  have hput : ∀ {id' : ℕ} {x x' : Capacity}, s.capacities.objects[id']? = some x → x.Alike x' →
      ∃ c', (s.capacities.put id' x').objects[id]? = some c' ∧ c.Alike c' := by
    intro id' x x' hx halike
    rw [Registry.put_objects hx]
    by_cases hid : id = id'
    · subst hid
      rw [if_pos rfl]
      obtain rfl := Option.some.inj (hc.symm.trans hx)
      exact ⟨x', rfl, halike⟩
    · rw [if_neg hid]
      exact ⟨c, hc, .refl c⟩
  cases hs with
  | route domain client => exact ⟨rfl, c, hc, .refl c⟩
  | check hq hid hlimiter hnow => exact ⟨rfl, c, hc, .refl c⟩
  | acquire hq hstanding hid hx hgranted =>
    have hcounts := h.counts _ _ hx
    exact ⟨rfl, hput hx (Capacity.Counts.tryAcquire_some hcounts hgranted).2.1⟩
  | refuse hq hstanding hid hx hrefused =>
    rw [Capacity.tryAcquire_none hrefused]
    exact ⟨rfl, hput hx (.refl _)⟩
  | leave hq hstanding => exact ⟨rfl, c, hc, .refl c⟩
  | @decrement q rest id' x x' client hq hstanding hid hx hdone =>
    have hcounts := h.counts _ _ hx
    rw [hq, accounts_admitted hstanding hid] at hcounts
    obtain ⟨x'', hdone', halike, -⟩ := hcounts.decrement (Multiset.mem_cons_self client _)
    obtain rfl := Except.ok.inj (hdone.symm.trans hdone')
    exact ⟨rfl, hput hx halike⟩
  | release hq hstanding hid hx => exact ⟨rfl, hput hx ⟨rfl, rfl, rfl⟩⟩

/-- A configuration gives a site the limits of a capacity. -/
def KeepsCapacity (domain : String) (c : Capacity) (config : Geatafile.Config) : Prop :=
  ∃ site capacity, config.sites.lookup domain = some site ∧ site.capacity = some capacity ∧
    capacity.max = c.max ∧ capacity.ipv6Prefix = c.ipv6Prefix

/-- Limits that are kept keep their capacity. -/
theorem reload_keeps {domain : String} {config : Geatafile.Config}
    (hid : s.capacities.table domain = some id) (hc : s.capacities.objects[id]? = some c)
    (hkeeps : KeepsCapacity domain c config) (hash : String × Which → IpAddr → ℕ) (now : ℕ) :
    (s.reload config hash now).capacities.table domain = some id := by
  obtain ⟨site, capacity, hsite, hcapacity, hmax, hprefix⟩ := hkeeps
  have hmem := mem_siteCapacities.mpr ⟨site, capacity, hsite, hcapacity, rfl⟩
  have hone : ∀ x, (domain, x) ∈ siteCapacities config → x = Capacity.made capacity := by
    intro x hx
    obtain ⟨site', capacity', hsite', hcapacity', rfl⟩ := mem_siteCapacities.mp hx
    obtain rfl := Option.some.inj (hsite.symm.trans hsite')
    obtain rfl := Option.some.inj (hcapacity.symm.trans hcapacity')
    rfl
  obtain ⟨i, hentry⟩ := Registry.entry_of_mem hmem hone
  apply Registry.replace_kept hid hc hentry
  simp [sameCapacity, Capacity.made, hmax, hprefix]

/-- Limits that change begin with a capacity that no request has. -/
theorem reload_renews {domain : String} {config : Geatafile.Config} (h : s.Sound)
    (hid : s.capacities.table domain = some id) (hc : s.capacities.objects[id]? = some c)
    (hkeeps : ¬ KeepsCapacity domain c config) {hash : String × Which → IpAddr → ℕ} {now : ℕ}
    (hid' : (s.reload config hash now).capacities.table domain = some id') :
    (∀ q ∈ s.requests, q.capacity ≠ some id') ∧
      ∃ c', (s.reload config hash now).capacities.objects[id']? = some c' ∧ c'.Fresh := by
  obtain ⟨i, new, hentry, ⟨hold, old, hobject, hsame⟩ | ⟨rfl, hobject, -⟩⟩ :=
    Registry.replace_cases hid'
  · -- The old one has the new limits.
    obtain rfl := Option.some.inj (hid.symm.trans hold)
    obtain rfl := Option.some.inj (hc.symm.trans hobject)
    have hmem := List.mem_of_getElem? (Registry.entry_eq_some hentry)
    obtain ⟨site, capacity, hsite, hcapacity, rfl⟩ := mem_siteCapacities.mp hmem
    simp only [sameCapacity, Capacity.made, Bool.and_eq_true, beq_iff_eq] at hsame
    exact absurd ⟨site, capacity, hsite, hcapacity, hsame.1, hsame.2⟩ hkeeps
  · constructor
    · intro q hq hcap
      have hlt := h.made q hq _ hcap
      omega
    · have hmem := List.mem_of_getElem? (Registry.entry_eq_some hentry)
      obtain ⟨site, capacity, -, -, rfl⟩ := mem_siteCapacities.mp hmem
      exact ⟨_, hobject, Capacity.made_fresh capacity⟩

/-- Through reloads that keep its limits, a site has one capacity. -/
theorem capacity_kept {domain : String} (h : s.Sound) (hid : s.capacities.table domain = some id)
    (hc : s.capacities.objects[id]? = some c)
    (hrun : Relation.ReflTransGen (Next (KeepsCapacity domain c)) s s') :
    s'.Sound ∧ s'.capacities.table domain = some id ∧
      ∃ c', s'.capacities.objects[id]? = some c' ∧ c.Alike c' := by
  induction hrun with
  | refl => exact ⟨h, hid, c, hc, .refl c⟩
  | tail _ hs ih =>
    obtain ⟨hsound, hid', c', hc', halike⟩ := ih
    refine ⟨hsound.next hs, ?_⟩
    rcases hs with hs | ⟨config, hash, now, hkeeps, -, rfl⟩
    · obtain ⟨htable, c'', hc'', halike'⟩ := hs.capacity hsound hc'
      exact ⟨by rw [htable, hid'], c'', hc'', halike.trans halike'⟩
    · refine ⟨reload_keeps hid' hc' ?_ hash now, c', Registry.replace_object hc', halike⟩
      unfold KeepsCapacity
      rw [halike.max, halike.ipv6Prefix]
      exact hkeeps

end

end Server

/-- **One capacity through all reloads.**  From any state on, for as long as every configuration
    that is loaded gives a site the limits of its capacity, its requests have that very capacity,
    whenever they were routed, and no other site's requests have it: together they never have more
    permits than `max`, and a client never more than `per_client`; a drop always finds its counter;
    and a request is admitted exactly when its client and the site have room.  A configuration with
    other limits gives the site a capacity of which no request has a permit. -/
theorem capacity_survives_reloads {s s' : Server} {domain : String} {id : ℕ} {c : Capacity}
    (h : Server.Reachable s) (hid : s.capacities.table domain = some id)
    (hc : s.capacities.objects[id]? = some c)
    (hrun : Relation.ReflTransGen (Server.Next (Server.KeepsCapacity domain c)) s s') :
    s'.capacities.table domain = some id ∧
    (∀ q ∈ s'.requests, q.capacity = some id → q.domain = domain) ∧
    (Server.permits id s'.requests).card ≤ c.max.toNat ∧
    (∀ k, (Server.permits id s'.requests).count k ≤ c.perClient.toNat) ∧
    (∃ c', s'.capacities.objects[id]? = some c' ∧
      (∀ k ∈ Server.permits id s'.requests, ∃ c'', c'.decrement k = .ok c'') ∧
      ∀ client, (c'.tryAcquire client).1.isSome = true ↔
        (Server.permits id s'.requests).count (clientKey client c.ipv6Prefix) < c.perClient.toNat ∧
        (Server.permits id s'.requests).card + Server.returns id s'.requests < c.max.toNat) ∧
    ∀ config hash now id', ¬ Server.KeepsCapacity domain c config →
      (s'.reload config hash now).capacities.table domain = some id' →
      (∀ q ∈ s'.requests, q.capacity ≠ some id') ∧
        ∃ c', (s'.reload config hash now).capacities.objects[id']? = some c' ∧ c'.Fresh := by
  obtain ⟨hsound, hid', c', hc', halike⟩ := Server.capacity_kept h.sound hid hc hrun
  have hcounts : c'.Counts _ _ := hsound.counts id c' hc'
  have hslots := hcounts.slots
  rw [halike.max] at hslots
  refine ⟨hid', fun q hq hcap => (hsound.owner q hq id hcap domain hid').symm, by omega, ?_,
    ⟨c', hc', ?_, ?_⟩, ?_⟩
  · intro k
    rw [← halike.perClient]
    exact hcounts.perClient k
  · intro k hk
    obtain ⟨c'', hdone, -⟩ := hcounts.decrement hk
    exact ⟨c'', hdone⟩
  · intro client
    rw [hcounts.tryAcquire_eq client, halike.ipv6Prefix, halike.perClient, halike.max]
    split
    · rename_i hroom
      exact ⟨fun _ => hroom, fun _ => rfl⟩
    · rename_i hroom
      exact ⟨fun hsome => absurd hsome (by simp), fun hroom' => absurd hroom' hroom⟩
  · intro config hash now id' hkeeps htable
    apply Server.reload_renews hsound hid' hc' _ htable
    unfold Server.KeepsCapacity
    rw [halike.max, halike.ipv6Prefix]
    exact hkeeps

/-- A configuration with one site, which has two places. -/
def testConfig : Geatafile.Config where
  sites := (∅ : Table Geatafile.Site).insert "a.b"
    { domain := "a.b"
      https := true
      handler := .respond "ok" 200
      rateLimit := some ⟨⟨1, 2⟩, 64⟩
      payment := none
      lightning := none
      capacity := some (Geatafile.Capacity.new 2)
      controls := {}
      paymentVerification := ⟨⟨2, 8⟩, 64⟩ }
  payouts := []

/-- A client that has its place is refused another one, also by the same configuration loaded
    again. -/
theorem capacity_survives_reloads_again :
    ∃ s s' c, Server.Reachable s ∧
      Relation.ReflTransGen (Server.Next (Server.KeepsCapacity "a.b" c)) s s' ∧
      (Server.permits 0 s'.requests).count (.v4 1) = 1 ∧
      ∃ c', s'.capacities.objects[0]? = some c' ∧ (c'.tryAcquire (.v4 1)).1 = none := by
  let s : Server := Server.reload {} testConfig (fun _ _ => 0) 0
  let c := Capacity.made (Geatafile.Capacity.new 2)
  have h : Server.Reachable s := .single (.inr ⟨testConfig, _, 0, trivial, Nat.le_refl 0, rfl⟩)
  have hid : s.capacities.table "a.b" = some 0 := by decide
  have hc : s.capacities.objects[0]? = some c := rfl
  have hkeeps : Server.KeepsCapacity "a.b" c testConfig :=
    ⟨_, _, AList.lookup_insert _, rfl, rfl, rfl⟩
  let q : Routed :=
    { domain := "a.b"
      client := .v4 1
      capacity := some 0
      limiter := fun which => s.limiters.table ("a.b", which) }
  have hgranted : c.tryAcquire q.client = (some (.v4 1), (c.tryAcquire q.client).2) := rfl
  have hroute : Server.Step s { s with requests := q ::ₘ 0 } := .route "a.b" (.v4 1)
  have hacquire := @Server.Step.acquire { s with requests := q ::ₘ 0 } q 0 0 c _ (.v4 1) rfl rfl rfl
    hc hgranted
  have hstart : Relation.ReflTransGen (Server.Next (Server.KeepsCapacity "a.b" c)) s s := .refl
  have hrun := ((hstart.tail (.inl hroute)).tail (.inl hacquire)).tail
    (.inr ⟨testConfig, fun _ _ => 1, 1, hkeeps, Nat.zero_le 1, rfl⟩)
  obtain ⟨-, -, -, -, ⟨c', hc', -, hroom⟩, -⟩ := capacity_survives_reloads h hid hc hrun
  have hpermits : Server.permits 0 ({ q with standing := .admitted (.v4 1) } ::ₘ 0) = {.v4 1} := rfl
  refine ⟨s, _, c, h, hrun, ?_, c', hc', ?_⟩
  · show Multiset.count (.v4 1) (Server.permits 0 ({ q with standing := _ } ::ₘ 0)) = 1
    rw [hpermits]
    rfl
  · have hfull := (hroom (.v4 1)).not.mpr
    rw [Option.not_isSome_iff_eq_none] at hfull
    apply hfull
    show ¬ (Multiset.count _ (Server.permits 0 ({ q with standing := _ } ::ₘ 0)) < _ ∧ _)
    rw [hpermits]
    decide

end Geata.Admission
