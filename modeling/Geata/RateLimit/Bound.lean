import Geata.RateLimit.Limiter

namespace Geata.RateLimit

open Geata.Lib Function
open Geata.Proxy (Limit)

/-!
# The token-bucket bound

In an interval of `d` nanoseconds a client is served at most `burst + d * rate / 10^9` times,
whatever other clients do, whatever is swept, and across reloads that keep the limit.

* `replaceConfig` — a reload: an unchanged limiter is carried over with its buckets.
* `Shard.served_le` — the bound in one shard: every token served is paid for by the level the
  client had, or by what was refilled since.
* `served_eq_shard` — what a client gets from a running configuration is what it gets from its
  shard.
-/

/-! ### Reloads -/

/-- The limiters of a site. -/
structure SiteLimiters where
  rateLimit : Option RateLimiter
  paymentVerification : RateLimiter

/-- The limiters of the running configuration, by domain. -/
abbrev Sites : Type := String → Option SiteLimiters

/-- Both limit the same clients at the same rate. -/
def RateLimiter.same (next old : RateLimiter) : Bool :=
  next.limit == old.limit && next.ipv6Prefix == old.ipv6Prefix

/-- The limiter of a reloaded site: the old one if it is the same. -/
def keepLimiter (next old : RateLimiter) : RateLimiter := if next.same old then old else next

/-- `State::replace_config`, on the limiters. -/
def replaceConfig (previous config : Sites) : Sites := fun domain =>
  (config domain).map (fun site =>
    { paymentVerification := match previous domain with
        | some old => keepLimiter site.paymentVerification old.paymentVerification
        | none => site.paymentVerification
      rateLimit := match site.rateLimit, (previous domain).bind SiteLimiters.rateLimit with
        | some next, some old => some (keepLimiter next old)
        | next, _ => next })

/-- The two limiters of a site: the free allowance and the payment attempts. -/
inductive Which where
  | free
  | verification
  deriving DecidableEq

def SiteLimiters.get (site : SiteLimiters) : Which → Option RateLimiter
  | .free => site.rateLimit
  | .verification => some site.paymentVerification

def SiteLimiters.set (site : SiteLimiters) (which : Which) (limiter : RateLimiter) : SiteLimiters :=
  match which with
  | .free => { site with rateLimit := some limiter }
  | .verification => { site with paymentVerification := limiter }

/-- A limiter of the running configuration. -/
def Sites.limiter (sites : Sites) (which : Which) (domain : String) : Option RateLimiter :=
  (sites domain).bind (fun site => site.get which)

/-- What happens to the limiters. -/
inductive Event where
  | check (which : Which) (domain : String) (client : IpAddr) (now : ℕ)
  | reload (config : Sites)

/-- The answer of a check, if the site has the limiter. -/
def Sites.answer (sites : Sites) (which : Which) (domain : String) (client : IpAddr) (now : ℕ) :
    Option (Except ℕ Unit) :=
  (sites.limiter which domain).map (fun limiter => (limiter.check client now).1)

def Sites.step (sites : Sites) : Event → Sites
  | .check which domain client now =>
    update sites domain ((sites domain).map (fun site =>
      match site.get which with
      | some limiter => site.set which (limiter.check client now).2
      | none => site))
  | .reload config => replaceConfig sites config

/-! ### Counting -/

/-- How often the checks of a run by a client key are answered `Ok` from `t` to `t + d`. -/
def Sites.served (which : Which) (domain : String) (ipv6Prefix : UInt8) (key : IpAddr) (t d : ℕ) :
    Sites → List Event → ℕ
  | _, [] => 0
  | sites, .check which' domain' client now :: rest =>
    (if which' = which ∧ domain' = domain ∧ clientKey client ipv6Prefix = key ∧ t ≤ now ∧
        now ≤ t + d ∧ sites.answer which domain client now = some (.ok ()) then 1 else 0) +
      served which domain ipv6Prefix key t d (sites.step (.check which' domain' client now)) rest
  | sites, .reload config :: rest =>
    served which domain ipv6Prefix key t d (sites.step (.reload config)) rest

/-- The same in one shard. -/
def Shard.served (limit : Limit) (key : IpAddr) (t d : ℕ) : Shard → List (IpAddr × ℕ) → ℕ
  | _, [] => 0
  | s, (client, now) :: rest =>
    (if client = key ∧ t ≤ now ∧ now ≤ t + d ∧ (s.check client limit now).1 = .ok ()
      then 1 else 0) + served limit key t d (s.check client limit now).2 rest

/-! ### The bound in one shard -/

section

variable {s : Shard} {limit : Limit} {key client : IpAddr} {now t d u u' : ℕ}

/-- A level grows at most at the rate. -/
theorem level_add_le (s : Shard) (limit : Limit) (key : IpAddr) (h : u ≤ u') : s.level limit key u'
    ≤ s.level limit key u + (u' - u) * limit.perSecond.toNat := by
  unfold Shard.level
  split
  · exact refilled_add_le h
  · exact Nat.le_add_right _ _

/-- A check raises no level. -/
theorem level_check_le (limit : Limit) (client key : IpAddr) (hs : s.Sound now) (hu : now ≤ u) :
    (s.check client limit now).2.level limit key u ≤ s.level limit key u := by
  cases hfull : (s.sweep limit now).full client with
  | true =>
    rw [Shard.check_rejected hfull, Shard.level_sweep hu]
  | false =>
    rw [Shard.level_check hfull hu]
    split
    · rename_i hkey
      subst hkey
      have hcharge : Shard.charge (s.level limit key now) ≤ s.level limit key now := by
        unfold Shard.charge
        split <;> omega
      -- refilling less credit gives less, and refilling the whole level is the level itself
      calc Bucket.refilled { credit := Shard.charge (s.level limit key now), updated := now } limit u
          ≤ Bucket.refilled { credit := s.level limit key now, updated := now } limit u := by
            simp only [Bucket.refilled]
            omega
        _ = s.level limit key u := by
            unfold Shard.level
            cases hl : s.clients.lookup key with
            | some bucket => exact refilled_refilled (hs.past key bucket hl) hu
            | none => simp only [Bucket.refilled]; omega
    · exact Nat.le_refl _

/-- A served check takes a token off the client's level. -/
theorem level_served (hok : (s.check client limit now).1 = .ok ()) :
    (s.check client limit now).2.level limit client now + TOKEN ≤ s.level limit client now := by
  cases hfull : (s.sweep limit now).full client with
  | true =>
    rw [Shard.check_rejected hfull] at hok
    exact absurd hok (by simp)
  | false =>
    rw [Shard.level_check hfull (Nat.le_refl now), if_pos rfl]
    rw [Shard.check_charged hfull] at hok
    have hle : TOKEN ≤ s.level limit client now := by
      by_contra hlt
      simp only [Shard.answer, if_neg hlt] at hok
      exact absurd hok (by simp)
    have hmin : Bucket.refilled { credit := Shard.charge (s.level limit client now), updated := now }
        limit now ≤ Shard.charge (s.level limit client now) := by
      simp only [Bucket.refilled, Nat.sub_self, Nat.zero_mul, Nat.add_zero]
      exact Nat.min_le_left _ _
    rw [Shard.charge, if_pos hle] at hmin
    rw [Shard.charge, if_pos hle]
    omega

/-- After the interval nothing counts. -/
theorem Shard.served_eq_zero {s : Shard} {calls : List (IpAddr × ℕ)}
    (h : ∀ call ∈ calls, t + d < call.2) : s.served limit key t d calls = 0 := by
  induction calls generalizing s with
  | nil => rfl
  | cons call rest ih =>
    have hcall := h call (by simp)
    have hno : ¬ (call.1 = key ∧ t ≤ call.2 ∧ call.2 ≤ t + d ∧
        (s.check call.1 limit call.2).1 = .ok ()) := by
      rintro ⟨-, -, hle, -⟩
      omega
    rw [Shard.served, if_neg hno, ih (fun c hc => h c (by simp [hc]))]

/-- The tokens served from now on are paid for by the level the client has and by what the rest
    of the interval refills. -/
theorem Shard.served_le_level (limit : Limit) (key : IpAddr) (t d : ℕ) {s : Shard} {last : ℕ}
    {calls : List (IpAddr × ℕ)}
    (hs : s.Sound last) (hlast : last ≤ t + d) (hcalls : ∀ call ∈ calls, last ≤ call.2)
    (htimes : (calls.map Prod.snd).Pairwise (· ≤ ·)) :
    s.served limit key t d calls * TOKEN
      ≤ s.level limit key (max last t) + (t + d - max last t) * limit.perSecond.toNat := by
  induction calls generalizing s last with
  | nil => rw [Shard.served, Nat.zero_mul]; exact Nat.zero_le _
  | cons call rest ih =>
    have hle : last ≤ call.2 := hcalls call (by simp)
    simp only [List.map_cons, List.pairwise_cons, List.mem_map, forall_exists_index, and_imp,
      forall_apply_eq_imp_iff₂] at htimes
    by_cases hafter : t + d < call.2
    · have hzero : s.served limit key t d (call :: rest) = 0 := by
        refine Shard.served_eq_zero (fun c hc => ?_)
        rcases List.mem_cons.mp hc with rfl | hc
        · exact hafter
        · exact Nat.lt_of_lt_of_le hafter (htimes.1 c hc)
      rw [hzero, Nat.zero_mul]
      exact Nat.zero_le _
    have hin : call.2 ≤ t + d := Nat.le_of_not_lt hafter
    have hs' : s.Sound call.2 := ⟨fun c b hb => (hs.past c b hb).trans hle, hs.bounded⟩
    have hrest := ih (hs'.check call.1 limit (Nat.le_refl _)) hin
      htimes.1 htimes.2
    -- what is refilled up to this check
    have hgrow := level_add_le s limit key
      (show max last t ≤ max call.2 t by omega)
    have hsplit : (max call.2 t - max last t) * limit.perSecond.toNat
        + (t + d - max call.2 t) * limit.perSecond.toNat
        = (t + d - max last t) * limit.perSecond.toNat := by
      rw [← Nat.add_mul]
      congr 1
      omega
    rw [Shard.served, Nat.add_mul]
    split
    · rename_i hyes
      obtain ⟨rfl, hfrom, -, hok⟩ := hyes
      have hpaid := level_served hok
      rw [Nat.max_eq_left hfrom] at hrest hgrow hsplit
      omega
    · have hcheck := level_check_le limit call.1 key hs'
        (show call.2 ≤ max call.2 t by omega)
      omega

/-- **The bound in one shard.** -/
theorem Shard.served_le {swept : ℕ} {calls : List (IpAddr × ℕ)}
    (htimes : (calls.map Prod.snd).Pairwise (· ≤ ·)) :
    Shard.served limit key t d { swept } calls
      ≤ limit.burst.toNat + d * limit.perSecond.toNat / 1000000000 := by
  have hle := Shard.served_le_level limit key t d
    (Shard.sound_empty swept 0) (Nat.zero_le _) (fun call _ => Nat.zero_le call.2) htimes
  rw [Nat.zero_max, Nat.add_sub_cancel_left] at hle
  have hcap := Shard.level_le { swept } limit key t
  have htotal : Shard.served limit key t d { swept } calls * 1000000000
      ≤ d * limit.perSecond.toNat + limit.burst.toNat * 1000000000 := by
    rw [capacity] at hcap
    simp only [TOKEN] at hle hcap
    omega
  have hdiv := (Nat.le_div_iff_mul_le (by decide)).mpr htotal
  rw [Nat.add_mul_div_right _ _ (by decide)] at hdiv
  omega

end

/-! ### From a running configuration to its shard -/

/-- The check of an event, if it goes to a given shard of a given limiter. -/
def Event.call (limiter : RateLimiter) (which : Which) (domain : String) (index : Fin SHARDS) :
    Event → Option (IpAddr × ℕ)
  | .check which' domain' client now =>
    if which' = which ∧ domain' = domain ∧
        limiter.index (clientKey client limiter.ipv6Prefix) = index then
      some (clientKey client limiter.ipv6Prefix, now)
    else none
  | .reload _ => none

/-- A reload keeps a limiter: the new configuration has the same one. -/
def Event.Keeps (limiter : RateLimiter) (which : Which) (domain : String) : Event → Prop
  | .reload config => ∃ next, config.limiter which domain = some next ∧
      next.limit = limiter.limit ∧ next.ipv6Prefix = limiter.ipv6Prefix
  | .check _ _ _ _ => True

/-- Two states of one limiter. -/
structure RateLimiter.Later (limiter later : RateLimiter) : Prop where
  limit : later.limit = limiter.limit
  ipv6Prefix : later.ipv6Prefix = limiter.ipv6Prefix
  hash : later.hash = limiter.hash

section

variable {sites : Sites} {which : Which} {domain : String} {limiter : RateLimiter}

theorem get_set (site : SiteLimiters) (which which' : Which) (next : RateLimiter) :
    (site.set which' next).get which = if which = which' then some next else site.get which := by
  cases which <;> cases which' <;> rfl

/-- An unchanged limiter survives a reload with its buckets. -/
theorem limiter_replaceConfig (h : sites.limiter which domain = some limiter) {config : Sites}
    {next : RateLimiter} (hnext : config.limiter which domain = some next)
    (hlimit : next.limit = limiter.limit) (hipv6 : next.ipv6Prefix = limiter.ipv6Prefix) :
    (replaceConfig sites config).limiter which domain = some limiter := by
  have hsame : next.same limiter = true := by simp [RateLimiter.same, hlimit, hipv6]
  simp only [Sites.limiter, Option.bind_eq_some_iff] at h hnext ⊢
  obtain ⟨old, hold, hget⟩ := h
  obtain ⟨site, hsite, hnext⟩ := hnext
  refine ⟨_, by rw [replaceConfig, hsite]; rfl, ?_⟩
  cases which with
  | free =>
    have hfree : site.rateLimit = some next := hnext
    have hold' : old.rateLimit = some limiter := hget
    simp only [SiteLimiters.get, hfree, hold, Option.bind_some, hold', keepLimiter, hsame, if_true]
  | verification =>
    have hver : site.paymentVerification = next := Option.some.inj hnext
    have hold' : old.paymentVerification = limiter := Option.some.inj hget
    simp only [SiteLimiters.get, hold, hver, hold', keepLimiter, hsame, if_true]

/-- A check changes its own limiter only. -/
theorem limiter_check (h : sites.limiter which domain = some limiter) (which' : Which)
    (domain' : String) (client : IpAddr) (now : ℕ) :
    (sites.step (.check which' domain' client now)).limiter which domain
      = some (if which' = which ∧ domain' = domain then (limiter.check client now).2 else limiter) := by
  simp only [Sites.limiter, Sites.step] at h ⊢
  by_cases hd : domain' = domain
  · subst hd
    obtain ⟨site, hsite, hget⟩ := Option.bind_eq_some_iff.mp h
    rw [update_self, hsite, Option.map_some, Option.bind_some]
    by_cases hw : which' = which
    · subst hw
      simp only [hget, get_set, if_true, and_self]
    · simp only [hw, false_and, if_false]
      split
      · rw [get_set, if_neg (Ne.symm hw)]
        exact hget
      · exact hget
  · rw [update_of_ne (Ne.symm hd)]
    simp only [hd, and_false, if_false]
    exact h

/-- What a client gets from a running configuration is what it gets from its shard. -/
theorem served_eq_shard (key : IpAddr) (t d : ℕ) {events : List Event} {later : RateLimiter}
    (h : sites.limiter which domain = some later)
    (hlater : limiter.Later later) (hkeeps : ∀ e ∈ events, e.Keeps limiter which domain) :
    sites.served which domain limiter.ipv6Prefix key t d events
      = (later.shards (limiter.index key)).served limiter.limit key t d
          (events.filterMap (Event.call limiter which domain (limiter.index key))) := by
  induction events generalizing sites later with
  | nil => rfl
  | cons e rest ih =>
    have hrest : ∀ e ∈ rest, e.Keeps limiter which domain := fun e he => hkeeps e (by simp [he])
    have hindex : ∀ k, later.index k = limiter.index k := fun k => by
      simp only [RateLimiter.index, hlater.hash]
    cases e with
    | reload config =>
      obtain ⟨next, hnext, hlimit, hipv6⟩ := hkeeps (.reload config) (by simp)
      have hstep := limiter_replaceConfig h hnext (hlimit.trans hlater.limit.symm)
        (hipv6.trans hlater.ipv6Prefix.symm)
      rw [Sites.served, List.filterMap_cons_none rfl]
      exact ih hstep hlater hrest
    | check which' domain' client now =>
      have hstep := limiter_check h which' domain' client now
      rw [Sites.served]
      by_cases hown : which' = which ∧ domain' = domain
      · obtain ⟨rfl, rfl⟩ := hown
        rw [if_pos ⟨rfl, rfl⟩] at hstep
        have hnext : limiter.Later (later.check client now).2 :=
          ⟨hlater.limit, hlater.ipv6Prefix, hlater.hash⟩
        rw [ih hstep hnext hrest]
        have hanswer : sites.answer which' domain' client now
            = some (later.check client now).1 := by rw [Sites.answer, h, Option.map_some]
        by_cases hshard : limiter.index (clientKey client limiter.ipv6Prefix) = limiter.index key
        · have hcall : Event.call limiter which' domain' (limiter.index key)
              (.check which' domain' client now) = some (clientKey client limiter.ipv6Prefix, now) :=
            if_pos ⟨rfl, rfl, hshard⟩
          rw [List.filterMap_cons_some hcall, Shard.served, hanswer]
          simp only [RateLimiter.check, hlater.ipv6Prefix, hlater.limit, hindex, hshard, update_self,
            true_and, Option.some.injEq]
        · have hcall : Event.call limiter which' domain' (limiter.index key)
              (.check which' domain' client now) = none := if_neg (fun hc => hshard hc.2.2)
          have hkey : clientKey client limiter.ipv6Prefix ≠ key := fun hk => hshard (by rw [hk])
          rw [List.filterMap_cons_none hcall, if_neg (fun hc => hkey hc.2.2.1), Nat.zero_add]
          simp only [RateLimiter.check, hlater.ipv6Prefix, hlater.limit, hindex,
            update_of_ne (Ne.symm hshard)]
      · rw [if_neg hown] at hstep
        have hcall : Event.call limiter which domain (limiter.index key)
            (.check which' domain' client now) = none :=
          if_neg (fun hc => hown ⟨hc.1, hc.2.1⟩)
        rw [if_neg (fun hc => hown ⟨hc.1, hc.2.1⟩), Nat.zero_add, List.filterMap_cons_none hcall]
        exact ih hstep hlater hrest

/-- **The token-bucket bound.**  Take a limiter that is new in a running configuration, and any
    run of checks on any limiters by any clients and of reloads that keep this limiter, where the
    times of the checks on one shard do not decrease.  Then in every interval of `d` nanoseconds
    the checks of a client key are answered `Ok` at most `burst + d * rate / 10^9` times. -/
theorem token_bucket_bound (sites : Sites) (which : Which) (domain : String) (limit : Limit)
    (ipv6Prefix : UInt8) (hash : IpAddr → ℕ) (created : ℕ)
    (hnew : sites.limiter which domain
      = some (RateLimiter.withPrefix limit ipv6Prefix hash created))
    (events : List Event)
    (hkeeps : ∀ e ∈ events, e.Keeps (RateLimiter.withPrefix limit ipv6Prefix hash created)
      which domain)
    (htimes : ∀ index, ((events.filterMap (Event.call
      (RateLimiter.withPrefix limit ipv6Prefix hash created) which domain index)).map
        Prod.snd).Pairwise (· ≤ ·))
    (key : IpAddr) (t d : ℕ) :
    sites.served which domain ipv6Prefix key t d events
      ≤ limit.burst.toNat + d * limit.perSecond.toNat / 10 ^ 9 := by
  have heq := served_eq_shard key t d hnew ⟨rfl, rfl, rfl⟩ hkeeps
  refine (Nat.le_of_eq heq).trans ?_
  exact Shard.served_le (htimes _)

/-- A site with a burst of two. -/
def testSites : Sites := fun domain =>
  if domain = "a.example" then
    some { rateLimit := some (RateLimiter.withPrefix ⟨10, 2⟩ 64 (fun _ => 0) 0)
           paymentVerification := RateLimiter.withPrefix ⟨1, 5⟩ 64 (fun _ => 0) 0 }
  else none

/-- Three checks at once and a reload in between: the bound of two is reached. -/
theorem token_bucket_bound_burst :
    testSites.served .free "a.example" 64 (.v4 1) 0 0
        [.check .free "a.example" (.v4 1) 0, .reload testSites, .check .free "a.example" (.v4 1) 0,
          .check .free "a.example" (.v4 1) 0] = 2 ∧
      testSites.served .free "a.example" 64 (.v4 1) 0 0
        [.check .free "a.example" (.v4 1) 0, .reload testSites, .check .free "a.example" (.v4 1) 0,
          .check .free "a.example" (.v4 1) 0] ≤ 2 := by
  refine ⟨by decide +kernel, ?_⟩
  refine token_bucket_bound testSites .free "a.example" ⟨10, 2⟩ 64 (fun _ => 0) 0 rfl _ ?_ ?_ _ _ _
  · intro e he
    simp only [List.mem_cons, List.not_mem_nil, or_false] at he
    rcases he with rfl | rfl | rfl | rfl
    · trivial
    · exact ⟨_, rfl, rfl, rfl⟩
    · trivial
    · trivial
  · decide +kernel

end

end Geata.RateLimit
