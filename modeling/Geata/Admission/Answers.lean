import Geata.Admission.Reload
import Geata.RateLimit.RetryAfter

namespace Geata.Admission

open Geata.Lib Geata.RateLimit
open Geata.Proxy (Limit)

/-!
# Limits through reloads

A request checks the limiters it was routed with, which may be after a reload.  What a limiter has
answered is what its shards make of the checks they got, in the order of their locks; so the
token-bucket bound holds for all requests of a site together.

* `Metered` — a limiter is where its checks have brought it.
* `limits_survive_reloads` — the bound, for as long as the limit of the site stays the same.
-/

/-! ### More checks -/

theorem run_append (limit : Limit) (s : Shard) (calls calls' : List (IpAddr × ℕ)) :
    Shard.run limit s (calls ++ calls') = Shard.run limit (Shard.run limit s calls) calls' := by
  induction calls generalizing s with
  | nil => rfl
  | cons call calls ih => exact ih _

theorem served_append (limit : Limit) (key : IpAddr) (t d : ℕ) (s : Shard)
    (calls calls' : List (IpAddr × ℕ)) :
    Shard.served limit key t d s (calls ++ calls') = Shard.served limit key t d s calls +
      Shard.served limit key t d (Shard.run limit s calls) calls' := by
  induction calls generalizing s with
  | nil => simp only [List.nil_append, Shard.served, Shard.run, Nat.zero_add]
  | cons call calls ih =>
    rw [List.cons_append, Shard.served, Shard.served, ih, Shard.run]
    omega

/-! ### Where a limiter is -/

/-- The checks of a shard of a limiter, the first one first. -/
def calls (l : RateLimiter) (index : Fin SHARDS) (id : ℕ) (checks : List Check) :
    List (IpAddr × ℕ) :=
  (checks.filterMap (fun e => if e.limiter = id ∧ l.index (clientKey e.client l.ipv6Prefix) = index
    then some (clientKey e.client l.ipv6Prefix, e.now) else none)).reverse

/-- A check of a client key in an interval was answered `Ok`. -/
def Check.served (id : ℕ) (ipv6Prefix : UInt8) (key : IpAddr) (t d : ℕ) (e : Check) : Prop :=
  e.limiter = id ∧ clientKey e.client ipv6Prefix = key ∧ t ≤ e.now ∧ e.now ≤ t + d ∧ e.ok = true

instance (id : ℕ) (ipv6Prefix : UInt8) (key : IpAddr) (t d : ℕ) (e : Check) :
    Decidable (e.served id ipv6Prefix key t d) := inferInstanceAs (Decidable (_ ∧ _))

/-- How often a client key was answered `Ok` in an interval. -/
def served (id : ℕ) (ipv6Prefix : UInt8) (key : IpAddr) (t d : ℕ) (checks : List Check) : ℕ :=
  checks.countP (fun e => decide (e.served id ipv6Prefix key t d))

theorem isOk_iff {answer : Except ℕ Unit} : answer.isOk = true ↔ answer = .ok () := by
  cases answer with
  | error wait => simp [Except.isOk, Except.toBool]
  | ok u => simp [Except.isOk, Except.toBool]

/-- A limiter that was made at `created` is where its checks have brought it. -/
structure Metered (created : ℕ) (l : RateLimiter) (id : ℕ) (checks : List Check) : Prop where
  shards : ∀ index, l.shards index =
    Shard.run l.limit { swept := created } (calls l index id checks)
  served : ∀ key t d, served id l.ipv6Prefix key t d checks =
    Shard.served l.limit key t d { swept := created } (calls l (l.index key) id checks)

section

variable {created id now : ℕ} {l : RateLimiter} {checks : List Check} {client : IpAddr}

/-- A limiter that nobody has asked. -/
theorem Metered.new (limit : Limit) (ipv6Prefix : UInt8) (hash : IpAddr → ℕ) (created : ℕ)
    (h : ∀ e ∈ checks, e.limiter ≠ id) :
    Metered created (RateLimiter.withPrefix limit ipv6Prefix hash created) id checks := by
  have hcalls : ∀ index,
      calls (RateLimiter.withPrefix limit ipv6Prefix hash created) index id checks = [] := by
    intro index
    rw [calls, List.reverse_eq_nil_iff, List.filterMap_eq_nil_iff]
    intro e he
    rw [if_neg]
    exact fun hid => h e he hid.1
  constructor
  · intro index
    rw [hcalls]
    rfl
  · intro key t d
    rw [hcalls, Shard.served, Admission.served, List.countP_eq_zero]
    intro e he hserved
    exact h e he (of_decide_eq_true hserved).1

/-- A check of another limiter. -/
theorem Metered.other (h : Metered created l id checks) {e : Check} (hne : e.limiter ≠ id) :
    Metered created l id (e :: checks) := by
  have hcalls : ∀ index, calls l index id (e :: checks) = calls l index id checks := by
    intro index
    rw [calls, List.filterMap_cons, if_neg (fun hid => hne hid.1), calls]
  constructor
  · intro index
    rw [hcalls]
    exact h.shards index
  · intro key t d
    rw [hcalls, ← h.served, Admission.served, List.countP_cons_of_neg, Admission.served]
    intro hserved
    exact hne (of_decide_eq_true hserved).1

/-- Its own check. -/
theorem Metered.check (h : Metered created l id checks) :
    Metered created (l.check client now).2 id
      (⟨id, client, now, (l.check client now).1.isOk⟩ :: checks) := by
  have hcalls : ∀ index, calls (l.check client now).2 index id
      (⟨id, client, now, (l.check client now).1.isOk⟩ :: checks) =
      if l.index (clientKey client l.ipv6Prefix) = index
      then calls l index id checks ++ [(clientKey client l.ipv6Prefix, now)]
      else calls l index id checks := by
    intro index
    show (List.filterMap _ (_ :: checks)).reverse = _
    rw [List.filterMap_cons]
    by_cases hindex : l.index (clientKey client l.ipv6Prefix) = index
    · rw [if_pos ⟨rfl, hindex⟩, if_pos hindex, List.reverse_cons]
      rfl
    · rw [if_neg (fun hid => hindex hid.2), if_neg hindex]
      rfl
  constructor
  · intro index
    rw [hcalls]
    by_cases hindex : l.index (clientKey client l.ipv6Prefix) = index
    · subst hindex
      rw [if_pos rfl, run_append]
      show Function.update l.shards _ _ _ = _
      rw [Function.update_self, h.shards]
      rfl
    · rw [if_neg hindex]
      show Function.update l.shards _ _ index = _
      rw [Function.update_of_ne (Ne.symm hindex)]
      exact h.shards index
  · intro key t d
    show Admission.served id l.ipv6Prefix key t d _ =
      Shard.served l.limit key t d { swept := created } (calls _ (l.index key) id _)
    have hok : (l.check client now).1 = ((Shard.run l.limit { swept := created }
        (calls l (l.index (clientKey client l.ipv6Prefix)) id checks)).check
          (clientKey client l.ipv6Prefix) l.limit now).1 := by
      rw [← h.shards]
      rfl
    -- What the check adds to its shard is what it adds to the key.
    have hlast : Shard.served l.limit key t d (Shard.run l.limit { swept := created }
        (calls l (l.index (clientKey client l.ipv6Prefix)) id checks))
          [(clientKey client l.ipv6Prefix, now)] =
        if (⟨id, client, now, (l.check client now).1.isOk⟩ : Check).served id l.ipv6Prefix key t d
        then 1 else 0 := by
      rw [Shard.served, Shard.served, Nat.add_zero, ← hok]
      by_cases hserved : (⟨id, client, now, (l.check client now).1.isOk⟩ : Check).served id
          l.ipv6Prefix key t d
      · obtain ⟨hid, hkey, hfrom, hto, hyes⟩ := hserved
        rw [if_pos ⟨hkey, hfrom, hto, isOk_iff.mp hyes⟩, if_pos ⟨hid, hkey, hfrom, hto, hyes⟩]
      · rw [if_neg hserved, if_neg]
        rintro ⟨hkey, hfrom, hto, hyes⟩
        exact hserved ⟨rfl, hkey, hfrom, hto, isOk_iff.mpr hyes⟩
    rw [hcalls, Admission.served, List.countP_cons]
    simp only [decide_eq_true_eq]
    by_cases hindex : l.index (clientKey client l.ipv6Prefix) = l.index key
    · rw [if_pos hindex, served_append, ← hindex, hlast, hindex, ← h.served, Admission.served]
    · have hkey : clientKey client l.ipv6Prefix ≠ key := fun heq => hindex (congrArg l.index heq)
      rw [if_neg hindex, if_neg (fun hserved => hkey hserved.2.1), ← h.served, Admission.served]
      rfl

end

/-! ### All limiters of a server -/

namespace Server

/-- The limiters are where the answers say, which came one after the other. -/
structure Answered (s : Server) : Prop where
  known : ∀ e ∈ s.checks, e.limiter < s.limiters.objects.length
  past : ∀ e ∈ s.checks, e.now ≤ s.clock
  ordered : s.checks.Pairwise (fun e e' => e'.now ≤ e.now)
  metered : ∀ (id : ℕ) (l : RateLimiter), s.limiters.objects[id]? = some l →
    ∃ created, Metered created l id s.checks

/-- Every request has the limiters of its own site. -/
structure Owned (s : Server) : Prop where
  valid : s.limiters.Valid
  made : ∀ q ∈ s.requests, ∀ which id, q.limiter which = some id → id < s.limiters.objects.length
  owner : ∀ q ∈ s.requests, ∀ which id, q.limiter which = some id →
    ∀ key, s.limiters.table key = some id → key = (q.domain, which)

section

variable {s s' : Server} {id : ℕ} {l : RateLimiter}

theorem mem_siteLimiters {hash : String × Which → IpAddr → ℕ} {now : ℕ} {config : Geatafile.Config}
    {domain : String} {which : Which} {x : RateLimiter} :
    ((domain, which), x) ∈ siteLimiters hash now config ↔ ∃ site limiter,
      config.sites.lookup domain = some site ∧ siteLimiter site which = some limiter ∧
        x = RateLimiter.withPrefix limiter.limit limiter.ipv6Prefix (hash (domain, which)) now := by
  unfold siteLimiters
  rw [List.mem_flatMap]
  constructor
  · rintro ⟨⟨domain', site⟩, hrow, hmem⟩
    obtain ⟨which', -, h⟩ := List.mem_filterMap.mp hmem
    obtain ⟨limiter, hlimiter, heq⟩ := Option.map_eq_some_iff.mp h
    simp only [Prod.mk.injEq] at heq
    obtain ⟨⟨rfl, rfl⟩, rfl⟩ := heq
    exact ⟨site, limiter, Table.mem_rows.mp hrow, hlimiter, rfl⟩
  · rintro ⟨site, limiter, hsite, hlimiter, rfl⟩
    refine ⟨(domain, site), Table.mem_rows.mpr hsite, List.mem_filterMap.mpr ⟨which, ?_, ?_⟩⟩
    · cases which <;> simp
    · simp only [hlimiter, Option.map_some]

theorem Answered.check (h : s.Answered) {client : IpAddr} {now : ℕ}
    (hl : s.limiters.objects[id]? = some l) (hnow : s.clock ≤ now) :
    Answered { s with
      limiters := s.limiters.put id (l.check client now).2
      clock := now
      checks := ⟨id, client, now, (l.check client now).1.isOk⟩ :: s.checks } where
  known e he := by
    show e.limiter < (s.limiters.objects.set id _).length
    rw [List.length_set]
    rcases List.mem_cons.mp he with rfl | he
    · exact (List.getElem?_eq_some_iff.mp hl).1
    · exact h.known e he
  past e he := by
    rcases List.mem_cons.mp he with rfl | he
    · exact Nat.le_refl now
    · exact (h.past e he).trans hnow
  ordered := List.pairwise_cons.mpr ⟨fun e he => (h.past e he).trans hnow, h.ordered⟩
  metered id' x hx := by
    change (s.limiters.put id _).objects[id']? = some x at hx
    rw [Registry.put_objects hl] at hx
    by_cases hid : id' = id
    · subst hid
      rw [if_pos rfl] at hx
      rw [← Option.some.inj hx]
      obtain ⟨created, hmetered⟩ := h.metered id' l hl
      exact ⟨created, hmetered.check⟩
    · rw [if_neg hid] at hx
      obtain ⟨created, hmetered⟩ := h.metered id' x hx
      exact ⟨created, hmetered.other (Ne.symm hid)⟩

theorem Answered.step (h : s.Answered) (hs : Step s s') : s'.Answered := by
  cases hs with
  | check hq hid hl hnow => exact h.check hl hnow
  | _ => exact ⟨h.known, h.past, h.ordered, h.metered⟩

theorem Answered.reload (h : s.Answered) (config : Geatafile.Config)
    (hash : String × Which → IpAddr → ℕ) {now : ℕ} (hnow : s.clock ≤ now) :
    (s.reload config hash now).Answered where
  known e he := by
    have hlt := h.known e he
    show e.limiter < (s.limiters.objects ++ _).length
    rw [List.length_append]
    omega
  past e he := (h.past e he).trans hnow
  ordered := h.ordered
  metered id x hx := by
    rcases Registry.replace_objects hx with hold | ⟨hlen, ⟨domain, which⟩, hmem⟩
    · exact h.metered id x hold
    · -- A new limiter, which nobody can have asked.
      obtain ⟨site, limiter, -, -, rfl⟩ := mem_siteLimiters.mp hmem
      refine ⟨now, .new _ _ _ _ (fun e he hid => ?_)⟩
      have hlt := h.known e he
      omega

theorem Reachable.answered (h : Reachable s) : s.Answered := by
  induction h with
  | refl => constructor <;> simp
  | tail _ hs ih =>
    rcases hs with hs | ⟨config, hash, now, -, hnow, rfl⟩
    · exact ih.step hs
    · exact ih.reload config hash hnow

/-- The times of a shard's checks do not go back. -/
theorem Answered.times (h : s.Answered) (l : RateLimiter) (index : Fin SHARDS) (id : ℕ) :
    ((calls l index id s.checks).map Prod.snd).Pairwise (· ≤ ·) := by
  unfold calls
  rw [List.map_reverse, List.pairwise_reverse, List.pairwise_map, List.pairwise_filterMap]
  apply h.ordered.imp
  intro e e' hle call hcall call' hcall'
  split at hcall
  · split at hcall'
    · rw [← Option.some.inj hcall, ← Option.some.inj hcall']
      exact hle
    · exact absurd hcall' (by simp)
  · exact absurd hcall (by simp)

/-- A request was there before the step, or it has just been routed. -/
theorem Step.mem_requests (hs : Step s s') {q : Routed} (hq : q ∈ s'.requests) :
    (∃ q' ∈ s.requests, q'.domain = q.domain ∧ q'.limiter = q.limiter) ∨
      q.limiter = fun which => s.limiters.table (q.domain, which) := by
  -- The request of the step has moved on, or is gone.
  have hmoved : ∀ {q' : Routed} {rest : Multiset Routed} {standing : Standing},
      s.requests = q' ::ₘ rest → q ∈ { q' with standing } ::ₘ rest →
      ∃ q' ∈ s.requests, q'.domain = q.domain ∧ q'.limiter = q.limiter := by
    intro q' rest standing heq hmem
    rw [heq]
    rcases Multiset.mem_cons.mp hmem with rfl | hmem
    · exact ⟨q', Multiset.mem_cons_self q' rest, rfl, rfl⟩
    · exact ⟨q, Multiset.mem_cons_of_mem hmem, rfl, rfl⟩
  have hgone : ∀ {q' : Routed} {rest : Multiset Routed}, s.requests = q' ::ₘ rest → q ∈ rest →
      ∃ q' ∈ s.requests, q'.domain = q.domain ∧ q'.limiter = q.limiter := by
    intro q' rest heq hmem
    rw [heq]
    exact ⟨q, Multiset.mem_cons_of_mem hmem, rfl, rfl⟩
  cases hs with
  | route domain client =>
    rcases Multiset.mem_cons.mp hq with rfl | hq
    · exact .inr rfl
    · exact .inl ⟨q, hq, rfl, rfl⟩
  | check _ _ _ _ => exact .inl ⟨q, hq, rfl, rfl⟩
  | acquire heq _ _ _ _ => exact .inl (hmoved heq hq)
  | refuse heq _ _ _ _ => exact .inl (hgone heq hq)
  | leave heq _ => exact .inl (hgone heq hq)
  | decrement heq _ _ _ _ => exact .inl (hmoved heq hq)
  | release heq _ _ _ => exact .inl (hgone heq hq)

theorem Step.limiters (hs : Step s s') : s'.limiters.table = s.limiters.table ∧
    s'.limiters.objects.length = s.limiters.objects.length := by
  cases hs with
  | check _ _ _ _ => exact ⟨rfl, List.length_set ..⟩
  | _ => exact ⟨rfl, rfl⟩

/-- A limiter is never anything but itself. -/
theorem Step.limiter (hs : Step s s') (hl : s.limiters.objects[id]? = some l) :
    ∃ l', s'.limiters.objects[id]? = some l' ∧ l'.limit = l.limit ∧
      l'.ipv6Prefix = l.ipv6Prefix := by
  cases hs with
  | @check q which id' now x hq hid hx hnow =>
    show ∃ l', (s.limiters.put id' (x.check q.client now).2).objects[id]? = some l' ∧ _
    rw [Registry.put_objects hx]
    by_cases heq : id = id'
    · subst heq
      obtain rfl := Option.some.inj (hl.symm.trans hx)
      exact ⟨_, if_pos rfl, rfl, rfl⟩
    · exact ⟨l, by rw [if_neg heq, hl], rfl, rfl⟩
  | _ => exact ⟨l, hl, rfl, rfl⟩

theorem Owned.step (h : s.Owned) (hs : Step s s') : s'.Owned := by
  obtain ⟨htable, hlength⟩ := hs.limiters
  refine ⟨⟨?_, ?_⟩, ?_, ?_⟩
  · rw [htable, hlength]
    exact h.valid.bound
  · rw [htable]
    exact h.valid.once
  · intro q hq which id hid
    rw [hlength]
    rcases hs.mem_requests hq with ⟨q', hq', -, hsame⟩ | hnew
    · exact h.made q' hq' which id (by rw [hsame, hid])
    · rw [hnew] at hid
      exact h.valid.bound _ id hid
  · intro q hq which id hid key hkey
    rw [htable] at hkey
    rcases hs.mem_requests hq with ⟨q', hq', hdomain, hsame⟩ | hnew
    · rw [← hdomain]
      exact h.owner q' hq' which id (by rw [hsame, hid]) key hkey
    · rw [hnew] at hid
      exact h.valid.once key _ id hkey hid

theorem Owned.reload (h : s.Owned) (config : Geatafile.Config)
    (hash : String × Which → IpAddr → ℕ) (now : ℕ) : (s.reload config hash now).Owned where
  valid := h.valid.replace _
  made q hq which id hid := by
    have hlt := h.made q hq which id hid
    show id < (s.limiters.objects ++ _).length
    rw [List.length_append]
    omega
  owner q hq which id hid key hkey := by
    have hlt := h.made q hq which id hid
    obtain ⟨i, new, -, ⟨hold, -⟩ | ⟨rfl, -⟩⟩ := Registry.replace_cases hkey
    · exact h.owner q hq which id hid key hold
    · omega

theorem Reachable.owned (h : Reachable s) : s.Owned := by
  induction h with
  | refl => exact ⟨.empty, by simp, by simp⟩
  | tail _ hs ih =>
    rcases hs with hs | ⟨config, hash, now, -, -, rfl⟩
    · exact ih.step hs
    · exact ih.reload config hash now

/-- A configuration gives a site the limits of a limiter. -/
def KeepsLimiter (domain : String) (which : Which) (l : RateLimiter) (config : Geatafile.Config) :
    Prop :=
  ∃ site limiter, config.sites.lookup domain = some site ∧ siteLimiter site which = some limiter ∧
    limiter.limit = l.limit ∧ limiter.ipv6Prefix = l.ipv6Prefix

/-- Limits that are kept keep their limiter. -/
theorem reload_keeps_limiter {domain : String} {which : Which} {config : Geatafile.Config}
    (hid : s.limiters.table (domain, which) = some id) (hl : s.limiters.objects[id]? = some l)
    (hkeeps : KeepsLimiter domain which l config) (hash : String × Which → IpAddr → ℕ) (now : ℕ) :
    (s.reload config hash now).limiters.table (domain, which) = some id := by
  obtain ⟨site, limiter, hsite, hlimiter, hlimit, hprefix⟩ := hkeeps
  have hmem : ((domain, which), RateLimiter.withPrefix limiter.limit limiter.ipv6Prefix
      (hash (domain, which)) now) ∈ siteLimiters hash now config :=
    mem_siteLimiters.mpr ⟨site, limiter, hsite, hlimiter, rfl⟩
  have hone : ∀ x, ((domain, which), x) ∈ siteLimiters hash now config →
      x = RateLimiter.withPrefix limiter.limit limiter.ipv6Prefix (hash (domain, which)) now := by
    intro x hx
    obtain ⟨site', limiter', hsite', hlimiter', rfl⟩ := mem_siteLimiters.mp hx
    obtain rfl := Option.some.inj (hsite.symm.trans hsite')
    obtain rfl := Option.some.inj (hlimiter.symm.trans hlimiter')
    rfl
  obtain ⟨i, hentry⟩ := Registry.entry_of_mem hmem hone
  apply Registry.replace_kept hid hl hentry
  simp [RateLimiter.same, RateLimiter.withPrefix, hlimit, hprefix]

/-- Through reloads that keep its limits, a site has one limiter. -/
theorem limiter_kept {domain : String} {which : Which}
    (hid : s.limiters.table (domain, which) = some id) (hl : s.limiters.objects[id]? = some l)
    (hrun : Relation.ReflTransGen (Next (KeepsLimiter domain which l)) s s') :
    s'.limiters.table (domain, which) = some id ∧
      ∃ l', s'.limiters.objects[id]? = some l' ∧ l'.limit = l.limit ∧
        l'.ipv6Prefix = l.ipv6Prefix := by
  induction hrun with
  | refl => exact ⟨hid, l, hl, rfl, rfl⟩
  | tail _ hs ih =>
    obtain ⟨hid', l', hl', hlimit, hprefix⟩ := ih
    rcases hs with hs | ⟨config, hash, now, hkeeps, -, rfl⟩
    · obtain ⟨l'', hl'', hlimit', hprefix'⟩ := hs.limiter hl'
      exact ⟨by rw [hs.limiters.1, hid'], l'', hl'', hlimit'.trans hlimit, hprefix'.trans hprefix⟩
    · refine ⟨reload_keeps_limiter hid' hl' ?_ hash now, l', Registry.replace_object hl', hlimit,
        hprefix⟩
      unfold KeepsLimiter
      rw [hlimit, hprefix]
      exact hkeeps

theorem Reachable.run {P : Geatafile.Config → Prop} (h : Reachable s)
    (hrun : Relation.ReflTransGen (Next P) s s') : Reachable s' := by
  induction hrun with
  | refl => exact h
  | tail _ hs ih =>
    apply ih.tail
    rcases hs with hs | ⟨config, hash, now, -, hnow, rfl⟩
    · exact .inl hs
    · exact .inr ⟨config, hash, now, trivial, hnow, rfl⟩

end

end Server

/-- **One bucket through all reloads.**  From any state on, for as long as every configuration that
    is loaded gives a site the limits of its limiter, its requests have that very limiter, whenever
    they were routed, and no other site's requests have it; and in every interval of `d` nanoseconds
    at most `burst + d * rate / 10^9` of their checks by one client are answered `Ok`, those of
    requests from before a reload included. -/
theorem limits_survive_reloads {s s' : Server} {domain : String} {which : Which} {id : ℕ}
    {l : RateLimiter} (h : Server.Reachable s)
    (hid : s.limiters.table (domain, which) = some id) (hl : s.limiters.objects[id]? = some l)
    (hrun : Relation.ReflTransGen (Server.Next (Server.KeepsLimiter domain which l)) s s') :
    s'.limiters.table (domain, which) = some id ∧
    (∀ q ∈ s'.requests, ∀ which', q.limiter which' = some id →
      q.domain = domain ∧ which' = which) ∧
    ∀ key t d, served id l.ipv6Prefix key t d s'.checks
      ≤ l.limit.burst.toNat + d * l.limit.perSecond.toNat / 10 ^ 9 := by
  obtain ⟨hid', l', hl', hlimit, hprefix⟩ := Server.limiter_kept hid hl hrun
  have hreach := h.run hrun
  refine ⟨hid', fun q hq which' hown => ?_, fun key t d => ?_⟩
  · obtain ⟨rfl, rfl⟩ := Prod.mk.inj (hreach.owned.owner q hq which' id hown _ hid')
    exact ⟨rfl, rfl⟩
  · obtain ⟨created, hmetered⟩ := hreach.answered.metered id l' hl'
    rw [← hprefix, ← hlimit, hmetered.served]
    exact Shard.served_le (hreach.answered.times l' (l'.index key) id)

/-- A burst of two is used up across a reload: the third request, which was routed before it, is
    turned away. -/
theorem limits_survive_reloads_third :
    ∃ s s' l, Server.Reachable s ∧
      Relation.ReflTransGen (Server.Next (Server.KeepsLimiter "a.b" .free l)) s s' ∧
      s'.checks.map Check.ok = [false, true, true] ∧
      served 0 64 (.v4 1) 0 0 s'.checks = 2 ∧ served 0 64 (.v4 1) 0 0 s'.checks ≤ 2 := by
  let s : Server := Server.reload {} testConfig (fun _ _ => 0) 0
  let l := RateLimiter.withPrefix ⟨1, 2⟩ 64 (fun _ => 0) 0
  have h : Server.Reachable s := .single (.inr ⟨testConfig, _, 0, trivial, Nat.le_refl 0, rfl⟩)
  have hid : s.limiters.table ("a.b", .free) = some 0 := by decide
  have hl : s.limiters.objects[0]? = some l := rfl
  have hkeeps : Server.KeepsLimiter "a.b" .free l testConfig :=
    ⟨_, _, AList.lookup_insert _, rfl, rfl, rfl⟩
  let q : Routed :=
    { domain := "a.b"
      client := .v4 1
      capacity := s.capacities.table "a.b"
      limiter := fun which => s.limiters.table ("a.b", which) }
  -- Three requests; two of them check the limiter, and the third one does so after a reload.
  let l₁ := (l.check q.client 0).2
  let l₂ := (l₁.check q.client 0).2
  have hstart : Relation.ReflTransGen (Server.Next (Server.KeepsLimiter "a.b" .free l)) s s := .refl
  have hroute : ∀ requests, Server.Step { s with requests } { s with requests := q ::ₘ requests } :=
    fun requests => .route "a.b" (.v4 1)
  let requests : Multiset Routed := q ::ₘ q ::ₘ q ::ₘ 0
  have hq : q ∈ requests := Multiset.mem_cons_self _ _
  have hrouted := ((hstart.tail (.inl (hroute 0))).tail (.inl (hroute (q ::ₘ 0)))).tail
    (.inl (hroute (q ::ₘ q ::ₘ 0)))
  have hfirst := hrouted.tail (.inl (@Server.Step.check { s with requests } q .free 0 0 l hq hid hl
    (Nat.le_refl 0)))
  have hsecond := hfirst.tail (.inl (@Server.Step.check _ q .free 0 0 l₁ hq hid rfl (Nat.le_refl 0)))
  have hreload := hsecond.tail (.inr ⟨testConfig, fun _ _ => 1, 0, hkeeps, Nat.le_refl 0, rfl⟩)
  have hrun := hreload.tail (.inl (@Server.Step.check _ q .free 0 0 l₂ hq hid rfl (Nat.le_refl 0)))
  obtain ⟨-, -, hbound⟩ := limits_survive_reloads h hid hl hrun
  exact ⟨s, _, l, h, hrun, by decide +kernel, by decide +kernel,
    (hbound (.v4 1) 0 0).trans (by decide)⟩

end Geata.Admission
