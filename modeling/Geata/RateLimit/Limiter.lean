import Geata.Lib.Map
import Geata.Proxy.Request

namespace Geata.RateLimit

open Geata.Lib
open Geata.Proxy (Limit)

/-!
# The rate limiter

`RateLimiter` keeps a token bucket for each client, in 16 shards of at most 1024 clients each.
Time is in nanoseconds, and so is credit, scaled by the rate: a token costs `TOKEN`.  The source
counts in 128 bits, which none of these numbers comes near; `duration_since` is zero for a later
instant, as subtraction is here.

* `Shard.check` — one check: sweep what is idle and full, then charge the client's bucket.
* `Shard.level` — what a client could spend at a time, tracked or not.
* `check_charged`, `check_rejected` — a check in terms of levels: it moves one client's level by
  one token, or none at all.
-/

/-! ### The model -/

/-- How many shards a limiter has. -/
def SHARDS : ℕ := 16

/-- How many clients a shard tracks. -/
def CLIENTS_PER_SHARD : ℕ := 1024

/-- How long a bucket is left alone before it can be swept: a minute. -/
def IDLE : ℕ := 60 * 1000000000

/-- The credit that one request costs. -/
def TOKEN : ℕ := 1000000000

/-- The credit a bucket holds at most. -/
def capacity (limit : Limit) : ℕ := limit.burst.toNat * TOKEN

/-- Credit at a moment. -/
structure Bucket where
  credit : ℕ
  updated : ℕ
  deriving DecidableEq

/-- The credit of a bucket at `now`. -/
def Bucket.refilled (bucket : Bucket) (limit : Limit) (now : ℕ) : ℕ :=
  min (bucket.credit + (now - bucket.updated) * limit.perSecond.toNat) (capacity limit)

/-- `128 - ipv6_prefix` low bits cleared. -/
def prefixMask (ipv6Prefix : UInt8) : BitVec 128 := BitVec.allOnes 128 <<< (128 - ipv6Prefix.toNat)

/-- An IPv4 address inside an IPv6 one is the IPv4 address (`IpAddr::to_canonical`). -/
def toCanonical : IpAddr → IpAddr
  | .v4 bits => .v4 bits
  | .v6 bits => if bits >>> 32 = 0xffff then .v4 (bits.truncate 32) else .v6 bits

/-- The identity a client is limited by. -/
def clientKey (client : IpAddr) (ipv6Prefix : UInt8) : IpAddr :=
  match toCanonical client with
  | .v6 bits => .v6 (bits &&& prefixMask ipv6Prefix)
  | ip => ip

structure Shard where
  clients : Map IpAddr Bucket := ∅
  swept : ℕ

namespace Shard

/-- Once a minute, drop the buckets that are idle and full again. -/
def sweep (s : Shard) (limit : Limit) (now : ℕ) : Shard :=
  if IDLE ≤ now - s.swept then
    { clients := Map.retain (fun _ bucket => decide (now - bucket.updated < IDLE) ||
        decide (bucket.refilled limit now < capacity limit)) s.clients
      swept := now }
  else s

/-- The table has no room for a client it does not know. -/
def full (s : Shard) (client : IpAddr) : Bool :=
  (s.clients.lookup client).isNone && decide (CLIENTS_PER_SHARD ≤ Map.len s.clients)

/-- The bucket of a client; a new one is full. -/
def bucket (s : Shard) (limit : Limit) (client : IpAddr) (now : ℕ) : Bucket :=
  (s.clients.lookup client).getD { credit := capacity limit, updated := now }

/-- The answer for a client with this credit: a token, or how long to wait for one. -/
def answer (limit : Limit) (credit : ℕ) : Except ℕ Unit :=
  if TOKEN ≤ credit then .ok ()
  else .error ((TOKEN - credit + limit.perSecond.toNat - 1) / limit.perSecond.toNat)

/-- What is left of this credit. -/
def charge (credit : ℕ) : ℕ := if TOKEN ≤ credit then credit - TOKEN else credit

def check (s : Shard) (client : IpAddr) (limit : Limit) (now : ℕ) : Except ℕ Unit × Shard :=
  let s := s.sweep limit now
  if s.full client then (.error IDLE, s)
  else
    let credit := (s.bucket limit client now).refilled limit now
    (answer limit credit,
      { s with clients := s.clients.insert client { credit := charge credit, updated := now } })

end Shard

/-- A limiter.  Its hash is drawn at random when it is made. -/
structure RateLimiter extends Proxy.RateLimiter where
  hash : IpAddr → ℕ
  shards : Fin SHARDS → Shard

namespace RateLimiter

/-- `RateLimiter::with_prefix`, at `now`. -/
def withPrefix (limit : Limit) (ipv6Prefix : UInt8) (hash : IpAddr → ℕ) (now : ℕ) :
    RateLimiter where
  limit := limit
  ipv6Prefix := ipv6Prefix
  hash := hash
  shards := fun _ => { swept := now }

/-- The shard of a key. -/
def index (limiter : RateLimiter) (key : IpAddr) : Fin SHARDS :=
  ⟨limiter.hash key % SHARDS, Nat.mod_lt _ (by decide)⟩

/-- `RateLimiter::check`, with the time that is read under the shard's lock. -/
def check (limiter : RateLimiter) (client : IpAddr) (now : ℕ) : Except ℕ Unit × RateLimiter :=
  let key := clientKey client limiter.ipv6Prefix
  let index := limiter.index key
  let result := (limiter.shards index).check key limiter.limit now
  (result.1, { limiter with shards := Function.update limiter.shards index result.2 })

end RateLimiter

/-! ### Refilling -/

section

variable {limit : Limit} {bucket : Bucket} {t t' : ℕ}

theorem refilled_le : bucket.refilled limit t ≤ capacity limit := Nat.min_le_right _ _

theorem refilled_mono (h : t ≤ t') : bucket.refilled limit t ≤ bucket.refilled limit t' := by
  have hle : (t - bucket.updated) * limit.perSecond.toNat
      ≤ (t' - bucket.updated) * limit.perSecond.toNat :=
    Nat.mul_le_mul_right _ (Nat.sub_le_sub_right h _)
  unfold Bucket.refilled
  omega

/-- A full bucket stays full. -/
theorem refilled_eq_capacity (h : capacity limit ≤ bucket.refilled limit t) (ht : t ≤ t') :
    bucket.refilled limit t' = capacity limit :=
  Nat.le_antisymm refilled_le (h.trans (refilled_mono ht))

/-- Refilling in two steps is refilling once. -/
theorem refilled_refilled (hb : bucket.updated ≤ t) (ht : t ≤ t') :
    Bucket.refilled { credit := bucket.refilled limit t, updated := t } limit t'
      = bucket.refilled limit t' := by
  have hsplit : (t' - bucket.updated) * limit.perSecond.toNat
      = (t - bucket.updated) * limit.perSecond.toNat + (t' - t) * limit.perSecond.toNat := by
    rw [← Nat.add_mul]
    congr 1
    omega
  simp only [Bucket.refilled, hsplit]
  omega

/-- What a time adds to the credit is at most the rate times its length. -/
theorem refilled_add_le (ht : t ≤ t') : bucket.refilled limit t'
    ≤ bucket.refilled limit t + (t' - t) * limit.perSecond.toNat := by
  have hle : (t' - bucket.updated) * limit.perSecond.toNat
      ≤ (t - bucket.updated) * limit.perSecond.toNat + (t' - t) * limit.perSecond.toNat := by
    rw [← Nat.add_mul]
    refine Nat.mul_le_mul_right _ ?_
    omega
  simp only [Bucket.refilled]
  omega

end

/-! ### Levels -/

namespace Shard

variable {s : Shard} {limit : Limit} {client : IpAddr} {now t : ℕ}

/-- What a client could spend at `t`: a client that is not tracked has a full bucket. -/
def level (s : Shard) (limit : Limit) (client : IpAddr) (t : ℕ) : ℕ :=
  match s.clients.lookup client with
  | some bucket => bucket.refilled limit t
  | none => capacity limit

/-- No bucket is ahead of `now`, and the table is not overfull. -/
structure Sound (s : Shard) (now : ℕ) : Prop where
  past : ∀ client bucket, s.clients.lookup client = some bucket → bucket.updated ≤ now
  bounded : Map.len s.clients ≤ CLIENTS_PER_SHARD

theorem level_le (s : Shard) (limit : Limit) (client : IpAddr) (t : ℕ) :
    s.level limit client t ≤ capacity limit := by
  unfold level
  split
  · exact refilled_le
  · exact Nat.le_refl _

/-- What a sweep leaves of a client. -/
theorem lookup_sweep (s : Shard) (limit : Limit) (now : ℕ) (client : IpAddr) :
    (s.sweep limit now).clients.lookup client = s.clients.lookup client ∨
      (s.sweep limit now).clients.lookup client = none ∧
        ∃ bucket, s.clients.lookup client = some bucket ∧
          capacity limit ≤ bucket.refilled limit now := by
  unfold sweep
  split
  · cases hl : s.clients.lookup client with
    | none =>
      refine .inl (Option.eq_none_iff_forall_ne_some.mpr (fun bucket hb => ?_))
      rw [(Map.lookup_retain_eq_some.mp hb).1] at hl
      exact absurd hl (by simp)
    | some bucket =>
      by_cases hkeep : (decide (now - bucket.updated < IDLE) ||
          decide (bucket.refilled limit now < capacity limit)) = true
      · exact .inl (Map.lookup_retain_eq_some.mpr ⟨hl, hkeep⟩)
      · refine .inr ⟨Option.eq_none_iff_forall_ne_some.mpr (fun b hb => ?_), bucket, rfl, ?_⟩
        · obtain ⟨hb, hp⟩ := Map.lookup_retain_eq_some.mp hb
          obtain rfl := Option.some.inj (hl.symm.trans hb)
          exact hkeep hp
        · simp only [Bool.or_eq_true, decide_eq_true_eq, not_or] at hkeep
          exact Nat.le_of_not_lt hkeep.2
  · exact .inl rfl

/-- Sweeping changes no level, now or later. -/
theorem level_sweep (ht : now ≤ t) : (s.sweep limit now).level limit client t
    = s.level limit client t := by
  rcases lookup_sweep s limit now client with h | ⟨hnone, bucket, hb, hfull⟩
  · simp only [level, h]
  · simp only [level, hnone, hb, refilled_eq_capacity hfull ht]

theorem Sound.sweep (h : s.Sound now) (limit : Limit) {later : ℕ} (hle : now ≤ later) :
    (s.sweep limit later).Sound later := by
  refine ⟨fun client bucket hb => ?_, ?_⟩
  · rcases lookup_sweep s limit later client with heq | ⟨hnone, -⟩
    · rw [heq] at hb
      exact (h.past client bucket hb).trans hle
    · rw [hnone] at hb
      exact absurd hb (by simp)
  · unfold Shard.sweep
    split
    · exact (Map.len_retain_le _ _).trans h.bounded
    · exact h.bounded

/-- The credit a check finds is the client's level. -/
theorem refilled_bucket : (s.bucket limit client now).refilled limit now
    = s.level limit client now := by
  unfold bucket level
  cases s.clients.lookup client with
  | some bucket => rfl
  | none => simp [Bucket.refilled]

/-- A check that finds no room changes nothing but what the sweep dropped. -/
theorem check_rejected (h : (s.sweep limit now).full client = true) :
    s.check client limit now = (.error IDLE, s.sweep limit now) := by
  simp only [check, h, if_true]

theorem check_charged (h : (s.sweep limit now).full client = false) :
    s.check client limit now = (answer limit (s.level limit client now),
      { s.sweep limit now with
        clients := (s.sweep limit now).clients.insert client
          { credit := charge (s.level limit client now), updated := now } }) := by
  have hlevel : ((s.sweep limit now).bucket limit client now).refilled limit now
      = s.level limit client now := by
    rw [refilled_bucket, level_sweep (Nat.le_refl now)]
  simp only [check, h, hlevel, Bool.false_eq_true, if_false]

/-- A client for whom there is no room has a full bucket. -/
theorem level_of_full (h : (s.sweep limit now).full client = true) (ht : now ≤ t) :
    s.level limit client t = capacity limit := by
  simp only [full, Bool.and_eq_true, Option.isNone_iff_eq_none] at h
  rw [← level_sweep ht]
  simp only [level, h.1]

/-- A check keeps the table sound. -/
theorem Sound.check (h : s.Sound now) (client : IpAddr) (limit : Limit) {later : ℕ}
    (hle : now ≤ later) :
    (s.check client limit later).2.Sound later := by
  have hs := h.sweep limit hle
  cases hfull : (s.sweep limit later).full client with
  | true => rw [check_rejected hfull]; exact hs
  | false =>
    rw [check_charged hfull]
    refine ⟨fun c b hb => ?_, ?_⟩
    · rw [Map.lookup_insert_eq] at hb
      split at hb
      · rw [← Option.some.inj hb]
      · exact hs.past c b hb
    · -- a new client found room, a known one needs none
      cases hl : (s.sweep limit later).clients.lookup client with
      | some b =>
        show Map.len (AList.insert _ _ _) ≤ _
        rw [Map.len_insert_of_some hl]
        exact hs.bounded
      | none =>
        show Map.len (AList.insert _ _ _) ≤ _
        simp only [full, hl, Option.isNone_none, Bool.true_and, decide_eq_false_iff_not] at hfull
        rw [Map.len_insert_of_none hl]
        omega

/-- Only the client's own level is charged. -/
theorem level_check (hfull : (s.sweep limit now).full client = false) {c : IpAddr}
    (ht : now ≤ t) : (s.check client limit now).2.level limit c t =
      if c = client then
        Bucket.refilled { credit := charge (s.level limit client now), updated := now } limit t
      else s.level limit c t := by
  rw [check_charged hfull, level]
  simp only [Map.lookup_insert_eq]
  by_cases hc : c = client
  · simp only [if_pos hc]
  · simp only [if_neg hc]
    exact level_sweep ht

/-- A table without clients is sound at any time. -/
theorem sound_empty (swept now : ℕ) : Shard.Sound { swept } now :=
  ⟨fun _ _ h => absurd h (by simp), Nat.zero_le _⟩

end Shard

end Geata.RateLimit
