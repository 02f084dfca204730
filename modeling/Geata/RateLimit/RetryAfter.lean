import Geata.RateLimit.Limiter

namespace Geata.RateLimit

open Geata.Lib
open Geata.Proxy (Limit)

/-!
# Waiting for a token

A check that finds less than a token answers how long to wait.  `retry_after_exact` says that this is
the shortest wait that helps, whatever is polled, checked or swept in the meantime, and that the
arithmetic behind it fits in the integers of the source.

* `Shard.check128` — the same check in 128 bits, which fails where the source would.
* `Waiting` — what a shard keeps of a client that is waiting.
* `Waiting.run` — polls and other clients' checks keep it.
-/

/-! ### The arithmetic of the source -/

/-- The longest `Duration`, in nanoseconds. -/
def DURATION : ℕ := 2 ^ 64 * 1000000000

/-- The result of an operation on `u128`. -/
def u128 (n : ℕ) : Option ℕ := if n < 2 ^ 128 then some n else none

/-- `Bucket::refilled`. -/
def Bucket.refilled128 (bucket : Bucket) (limit : Limit) (now : ℕ) : Option ℕ := do
  let refill ← u128 ((now - bucket.updated) * limit.perSecond.toNat)
  let credit ← u128 (bucket.credit + refill)
  let capacity ← u128 (limit.burst.toNat * TOKEN)
  return min credit capacity

namespace Shard

/-- The part of `Shard::check` that retains buckets. -/
def sweep128 (s : Shard) (limit : Limit) (now : ℕ) : Option Shard :=
  if IDLE ≤ now - s.swept ∧ ¬ s.clients.entries.all (fun e => (e.2.refilled128 limit now).isSome) then
    none
  else some (s.sweep limit now)

/-- The part that charges a bucket: the answer and the credit that is left.  The wait is converted to
    `u64`. -/
def answer128 (limit : Limit) (credit : ℕ) : Option (Except ℕ Unit × ℕ) :=
  if TOKEN ≤ credit then some (.ok (), credit - TOKEN)
  else if TOKEN < credit ∨ limit.perSecond = 0 then none
  else
    let nanos := (TOKEN - credit) / limit.perSecond.toNat +
      if (TOKEN - credit) % limit.perSecond.toNat = 0 then 0 else 1
    some (.error (nanos % 2 ^ 64), credit)

/-- `Shard::check`. -/
def check128 (s : Shard) (client : IpAddr) (limit : Limit) (now : ℕ) :
    Option (Except ℕ Unit × Shard) := do
  let _ ← u128 (limit.burst.toNat * TOKEN)
  let s ← s.sweep128 limit now
  if s.full client then return (.error IDLE, s)
  else
    let credit ← (s.bucket limit client now).refilled128 limit now
    let (answer, credit) ← answer128 limit credit
    return (answer, { s with clients := s.clients.insert client { credit, updated := now } })

/-! ### Runs of a shard -/

/-- The states of a shard that was made at `start`, at the time of its last check. -/
inductive Reachable (limit : Limit) (start : ℕ) : ℕ → Shard → Prop where
  | new : Reachable limit start start { swept := start }
  | check {last now : ℕ} {s : Shard} (h : Reachable limit start last s) (client : IpAddr)
      (hle : last ≤ now) : Reachable limit start now (s.check client limit now).2

/-- A row of checks. -/
def run (limit : Limit) (s : Shard) : List (IpAddr × ℕ) → Shard
  | [] => s
  | (client, now) :: rest => run limit (s.check client limit now).2 rest

/-- None of a row of checks is a client's success. -/
def NoSuccess (limit : Limit) (key : IpAddr) (s : Shard) : List (IpAddr × ℕ) → Prop
  | [] => True
  | (client, now) :: rest => (client = key → (s.check client limit now).1 ≠ .ok ()) ∧
      NoSuccess limit key (s.check client limit now).2 rest

end Shard

/-- The `Retry-After` of a wait: its seconds, rounded up, and at least one. -/
def retryAfter (wait : ℕ) : ℕ :=
  max (wait / 1000000000 + if wait % 1000000000 ≠ 0 then 1 else 0) 1

/-! ### Waits -/

section

variable {limit : Limit} {s : Shard} {client key : IpAddr} {start last now t u credit w : ℕ}

/-- A division that is rounded up. -/
theorem ceil_eq {a r : ℕ} (hr : 0 < r) : (a + r - 1) / r = a / r + if a % r = 0 then 0 else 1 := by
  have hdiv : r * (a / r) + a % r = a := Nat.div_add_mod a r
  have hmod : a % r < r := Nat.mod_lt a hr
  split
  · rename_i hzero
    have hsum : a + r - 1 = r - 1 + r * (a / r) := by omega
    rw [hsum, Nat.add_mul_div_left _ _ hr, Nat.div_eq_of_lt (by omega)]
    omega
  · have hsum : a + r - 1 = (a % r - 1) + r * (a / r + 1) := by
      rw [Nat.mul_add]
      omega
    rw [hsum, Nat.add_mul_div_left _ _ hr, Nat.div_eq_of_lt (by omega)]
    omega

/-- The wait for a token, in terms of what it refills. -/
theorem wait_spec (hrate : 0 < limit.perSecond.toNat) (hc : credit < TOKEN)
    (hw : (TOKEN - credit + limit.perSecond.toNat - 1) / limit.perSecond.toNat = w) :
    0 < w ∧ w ≤ TOKEN ∧ TOKEN ≤ credit + w * limit.perSecond.toNat ∧
      ∀ d < w, credit + d * limit.perSecond.toNat < TOKEN := by
  generalize hr : limit.perSecond.toNat = r at hrate hw ⊢
  generalize ha : TOKEN - credit = a at hw
  have hlow : w * r ≤ a + r - 1 := by
    rw [← hw]
    exact Nat.div_mul_le_self _ r
  have hhigh : a + r - 1 < (w + 1) * r := by
    rw [← hw, Nat.mul_comm]
    exact Nat.lt_mul_div_succ _ hrate
  rw [Nat.add_mul, Nat.one_mul] at hhigh
  have hpos : 0 < w := by
    by_contra hzero
    have hzero : w = 0 := by omega
    rw [hzero] at hhigh
    omega
  refine ⟨hpos, ?_, by omega, fun d hd => ?_⟩
  · -- a wait is the longest when the rate is one
    have hle : w - 1 ≤ (w - 1) * r := Nat.le_mul_of_pos_right _ hrate
    have hsub : (w - 1) * r = w * r - r := by rw [Nat.sub_mul, Nat.one_mul]
    omega
  · have hle : (d + 1) * r ≤ w * r := Nat.mul_le_mul_right r hd
    rw [Nat.add_mul, Nat.one_mul] at hle
    omega

/-! ### A client that is waiting -/

/-- A sweep keeps a bucket that was used within a minute. -/
theorem lookup_sweep_recent {bucket : Bucket} (hb : s.clients.lookup key = some bucket)
    (hrecent : now - bucket.updated < IDLE) :
    (s.sweep limit now).clients.lookup key = some bucket := by
  unfold Shard.sweep
  split
  · refine Map.lookup_retain_eq_some.mpr ⟨hb, ?_⟩
    rw [decide_eq_true hrecent, Bool.true_or]
  · exact hb

/-- At `now`, a client that had less than a token at `t` still has what it had and what was refilled
    since, and its bucket is there. -/
structure Waiting (limit : Limit) (key : IpAddr) (credit t : ℕ) (s : Shard) (now : ℕ) : Prop where
  sound : s.Sound now
  since : t ≤ now
  tracked : ∃ bucket, s.clients.lookup key = some bucket ∧ t ≤ bucket.updated
  level : ∀ u, now ≤ u →
    s.level limit key u = Bucket.refilled { credit, updated := t } limit u

theorem recent {updated : ℕ} (ht : t ≤ updated) (hu : u < t + IDLE) : u - updated < IDLE := by
  have hidle : 0 < IDLE := by decide
  omega

/-- Within a minute there is room for a client that is waiting. -/
theorem Waiting.not_full (h : Waiting limit key credit t s now) (hu : u < t + IDLE) :
    (s.sweep limit u).full key = false := by
  obtain ⟨bucket, hb, ht⟩ := h.tracked
  have hlookup : (s.sweep limit u).clients.lookup key = some bucket :=
    lookup_sweep_recent hb (recent ht hu)
  unfold Shard.full
  rw [hlookup]
  rfl

/-- A check that does not serve the client keeps it waiting. -/
theorem Waiting.check (h : Waiting limit key credit t s now) (hle : now ≤ u) (hu : u < t + IDLE)
    (hno : client = key → (s.check client limit u).1 ≠ .ok ()) :
    Waiting limit key credit t (s.check client limit u).2 u := by
  obtain ⟨bucket, hb, ht⟩ := h.tracked
  have hswept : (s.sweep limit u).clients.lookup key = some bucket :=
    lookup_sweep_recent hb (recent ht hu)
  refine ⟨h.sound.check client limit hle, h.since.trans hle, ?_, fun v hv => ?_⟩
  · cases hfull : (s.sweep limit u).full client with
    | true =>
      rw [Shard.check_rejected hfull]
      exact ⟨bucket, hswept, ht⟩
    | false =>
      rw [Shard.check_charged hfull]
      by_cases hkey : client = key
      · subst hkey
        exact ⟨_, AList.lookup_insert _, h.since.trans hle⟩
      · refine ⟨bucket, ?_, ht⟩
        show ((s.sweep limit u).clients.insert client _).lookup key = _
        rw [Map.lookup_insert_eq, if_neg (Ne.symm hkey)]
        exact hswept
  · cases hfull : (s.sweep limit u).full client with
    | true =>
      rw [Shard.check_rejected hfull, Shard.level_sweep hv]
      exact h.level v (hle.trans hv)
    | false =>
      rw [Shard.level_check hfull hv]
      split
      · rename_i hkey
        subst hkey
        -- a poll that is refused charges nothing, and refilling goes on from where it was
        have hlow : ¬ TOKEN ≤ s.level limit key u := by
          intro henough
          refine hno rfl ?_
          rw [Shard.check_charged hfull]
          exact if_pos henough
        rw [Shard.charge, if_neg hlow, h.level u hle]
        exact refilled_refilled (h.since.trans hle) hv
      · exact h.level v (hle.trans hv)

/-- So does a row of such checks. -/
theorem Waiting.run {calls : List (IpAddr × ℕ)} (h : Waiting limit key credit t s now)
    (htimes : (calls.map Prod.snd).Pairwise (· ≤ ·))
    (hcalls : ∀ call ∈ calls, now ≤ call.2 ∧ call.2 ≤ u) (hu : u < t + IDLE) (hle : now ≤ u)
    (hno : s.NoSuccess limit key calls) :
    ∃ last ≤ u, Waiting limit key credit t (s.run limit calls) last := by
  induction calls generalizing s now with
  | nil => exact ⟨now, hle, h⟩
  | cons call rest ih =>
    obtain ⟨client, v⟩ := call
    obtain ⟨hhead, hrest⟩ := List.pairwise_cons.mp htimes
    obtain ⟨hv, hvu⟩ := hcalls (client, v) (by simp)
    refine ih (h.check hv (hvu.trans_lt hu) hno.1) hrest (fun call hc => ⟨?_, ?_⟩) hvu hno.2
    · exact hhead call.2 (List.mem_map_of_mem hc)
    · exact (hcalls call (List.mem_cons_of_mem _ hc)).2

/-- What a client that is waiting gets. -/
theorem Waiting.answer (h : Waiting limit key credit t s now) (hle : now ≤ u) (hu : u < t + IDLE) :
    (s.check key limit u).1 =
      Shard.answer limit (Bucket.refilled { credit, updated := t } limit u) := by
  rw [Shard.check_charged (h.not_full hu), h.level u hle]

/-- A refusal for want of a token starts the wait. -/
theorem waiting_of_refused (hs : s.Sound last) (hle : last ≤ t)
    (hfull : (s.sweep limit t).full key = false) (hw : (s.check key limit t).1 = .error w) :
    s.level limit key t < TOKEN ∧
      (TOKEN - s.level limit key t + limit.perSecond.toNat - 1) / limit.perSecond.toNat = w ∧
      Waiting limit key (s.level limit key t) t (s.check key limit t).2 t := by
  have hanswer := hw
  rw [Shard.check_charged hfull] at hanswer
  have hlow : ¬ TOKEN ≤ s.level limit key t := by
    intro henough
    rw [Shard.answer, if_pos henough] at hanswer
    exact nomatch hanswer
  rw [Shard.answer, if_neg hlow] at hanswer
  refine ⟨Nat.lt_of_not_le hlow, Except.error.inj hanswer, hs.check key limit hle, Nat.le_refl t, ?_,
    fun u hu => ?_⟩
  · rw [Shard.check_charged hfull]
    exact ⟨_, AList.lookup_insert _, Nat.le_refl t⟩
  · rw [Shard.level_check hfull hu, if_pos rfl, Shard.charge, if_neg hlow]

/-! ### What fits -/

theorem u128_eq {n : ℕ} (h : n < 2 ^ 128) : u128 n = some n := if_pos h

theorem capacity_lt (limit : Limit) : capacity limit < 2 ^ 62 := by
  have hburst : limit.burst.toNat < 2 ^ 32 := limit.burst.toNat_lt
  unfold capacity TOKEN
  omega

/-- Refilling does not overflow. -/
theorem refilled128_eq {bucket : Bucket} (hc : bucket.credit ≤ capacity limit)
    (hd : now - bucket.updated < DURATION) :
    bucket.refilled128 limit now = some (bucket.refilled limit now) := by
  have hcap := capacity_lt limit
  have hrate : limit.perSecond.toNat < 2 ^ 32 := limit.perSecond.toNat_lt
  have hrefill : (now - bucket.updated) * limit.perSecond.toNat < DURATION * 2 ^ 32 :=
    Nat.mul_lt_mul'' hd hrate
  have hbound : DURATION * 2 ^ 32 + 2 ^ 62 < 2 ^ 128 := by decide
  have hsum : bucket.credit + (now - bucket.updated) * limit.perSecond.toNat < 2 ^ 128 := by omega
  have hmul := (Nat.le_add_left _ bucket.credit).trans_lt hsum
  have hcapacity : limit.burst.toNat * TOKEN < 2 ^ 128 := hcap.trans (by decide)
  unfold Bucket.refilled128 Bucket.refilled capacity
  simp only [u128_eq hmul, u128_eq hsum, u128_eq hcapacity, Option.bind_eq_bind, Option.bind_some,
    Option.pure_def]

/-- What the buckets of a shard hold, and since when. -/
theorem Shard.Reachable.books (h : Shard.Reachable limit start last s) :
    s.Sound last ∧ start ≤ last ∧ ∀ client bucket, s.clients.lookup client = some bucket →
      start ≤ bucket.updated ∧ bucket.credit ≤ capacity limit := by
  induction h with
  | new => exact ⟨Shard.sound_empty _ _, Nat.le_refl _, fun _ _ hb => absurd hb (by simp)⟩
  | @check last now s h client hle ih =>
    obtain ⟨hsound, hstart, hbuckets⟩ := ih
    have hswept : ∀ c bucket, (s.sweep limit now).clients.lookup c = some bucket →
        start ≤ bucket.updated ∧ bucket.credit ≤ capacity limit := by
      intro c bucket hb
      rcases Shard.lookup_sweep s limit now c with heq | ⟨hnone, -⟩
      · exact hbuckets c bucket (heq ▸ hb)
      · rw [hnone] at hb
        exact absurd hb (by simp)
    refine ⟨hsound.check client limit hle, hstart.trans hle, fun c bucket hb => ?_⟩
    cases hfull : (s.sweep limit now).full client with
    | true =>
      rw [Shard.check_rejected hfull] at hb
      exact hswept c bucket hb
    | false =>
      rw [Shard.check_charged hfull] at hb
      rw [Map.lookup_insert_eq] at hb
      split at hb
      · rw [← Option.some.inj hb]
        refine ⟨hstart.trans hle, ?_⟩
        have hlevel := Shard.level_le s limit client now
        show Shard.charge _ ≤ _
        unfold Shard.charge
        split <;> omega
      · exact hswept c bucket hb

/-- Charging a bucket does not underflow, and the wait fits. -/
theorem answer128_eq (hrate : 1 ≤ limit.perSecond) (credit : ℕ) :
    Shard.answer128 limit credit = some (Shard.answer limit credit, Shard.charge credit) := by
  have hpos : 0 < limit.perSecond.toNat := UInt32.le_iff_toNat_le.mp hrate
  have hne : limit.perSecond ≠ 0 := by
    intro hzero
    rw [hzero] at hpos
    exact Nat.lt_irrefl 0 hpos
  unfold Shard.answer128 Shard.answer Shard.charge
  by_cases henough : TOKEN ≤ credit
  · simp only [if_pos henough]
  · have hnot : ¬ (TOKEN < credit ∨ limit.perSecond = 0) := by
      rintro (hlt | hzero)
      · exact henough hlt.le
      · exact hne hzero
    obtain ⟨-, hle, -⟩ := wait_spec hpos (Nat.lt_of_not_le henough) rfl
    have hfits : TOKEN < 2 ^ 64 := by decide
    simp only [if_neg henough, if_neg hnot, ← ceil_eq hpos]
    rw [Nat.mod_eq_of_lt (hle.trans_lt hfits)]

/-- **A check does what it does in 128 bits**, as long as the shard is no older than a `Duration`. -/
theorem check128_eq (hrate : 1 ≤ limit.perSecond) (h : Shard.Reachable limit start last s)
    (hd : now < start + DURATION) (client : IpAddr) :
    s.check128 client limit now = some (s.check client limit now) := by
  obtain ⟨-, -, hbuckets⟩ := h.books
  have hcap := capacity_lt limit
  have hduration : 0 < DURATION := by decide
  have hall : s.clients.entries.all (fun e => (e.2.refilled128 limit now).isSome) = true := by
    refine List.all_eq_true.mpr (fun e he => ?_)
    obtain ⟨hstart, hc⟩ := hbuckets e.1 e.2 (Map.lookup_eq_some_iff.mpr he)
    rw [refilled128_eq hc (by omega)]
    rfl
  have hsweep : s.sweep128 limit now = some (s.sweep limit now) :=
    if_neg (fun hnot => hnot.2 hall)
  have hbucket : ((s.sweep limit now).bucket limit client now).refilled128 limit now =
      some (((s.sweep limit now).bucket limit client now).refilled limit now) := by
    unfold Shard.bucket
    cases hb : (s.sweep limit now).clients.lookup client with
    | none =>
      refine refilled128_eq (Nat.le_refl _) ?_
      show now - now < _
      omega
    | some bucket =>
      have hold : s.clients.lookup client = some bucket := by
        rcases Shard.lookup_sweep s limit now client with heq | ⟨hnone, -⟩
        · rw [← heq, hb]
        · rw [hnone] at hb
          exact nomatch hb
      obtain ⟨hstart, hc⟩ := hbuckets client bucket hold
      refine refilled128_eq hc ?_
      show now - bucket.updated < _
      omega
  unfold Shard.check128 Shard.check
  have hcapacity : limit.burst.toNat * TOKEN < 2 ^ 128 := hcap.trans (by decide)
  rw [u128_eq hcapacity, hsweep]
  simp only [Option.bind_eq_bind, Option.bind_some]
  split
  · rfl
  · rw [hbucket]
    simp only [Option.bind_some, answer128_eq hrate]
    rfl

/-! ### The wait -/

/-- **Retry-After is exact.**  When a check finds less than a token, the wait it answers is positive
    and at most a second.  Until then every check of the client is refused, and after it, or after the
    seconds of the `Retry-After`, a check is served, unless one was in between; this holds whatever
    polls of the client and checks of other clients there are.  No arithmetic of any check overflows
    or loses anything. -/
theorem retry_after_exact (hrate : 1 ≤ limit.perSecond) (hburst : 1 ≤ limit.burst)
    (h : Shard.Reachable limit start last s) (hle : last ≤ t) :
    (∀ w, (s.sweep limit t).full key = false → (s.check key limit t).1 = .error w →
      0 < w ∧ w ≤ 1000000000 ∧
      ∀ calls u, (calls.map Prod.snd).Pairwise (· ≤ ·) →
        (∀ call ∈ calls, t ≤ call.2 ∧ call.2 ≤ u) → t ≤ u →
        (s.check key limit t).2.NoSuccess limit key calls →
        (u < t + w → ∃ wait,
          (((s.check key limit t).2.run limit calls).check key limit u).1 = .error wait) ∧
        (u = t + w ∨ u = t + retryAfter w * 1000000000 →
          (((s.check key limit t).2.run limit calls).check key limit u).1 = .ok ())) ∧
    (t < start + DURATION → ∀ client, s.check128 client limit t = some (s.check client limit t)) := by
  have hpos : 0 < limit.perSecond.toNat := UInt32.le_iff_toNat_le.mp hrate
  have hcap : TOKEN ≤ capacity limit := Nat.le_mul_of_pos_left _ (UInt32.le_iff_toNat_le.mp hburst)
  refine ⟨fun w hfull hw => ?_, fun hd client => check128_eq hrate h hd client⟩
  obtain ⟨hlow, hwait, hwaiting⟩ := waiting_of_refused h.books.1 hle hfull hw
  obtain ⟨hwpos, hwle, henough, hshort⟩ := wait_spec hpos hlow hwait
  have hretry : w ≤ retryAfter w * 1000000000 ∧ retryAfter w * 1000000000 ≤ 1000000000 := by
    unfold retryAfter
    unfold TOKEN at hwle
    split <;> omega
  refine ⟨hwpos, hwle, fun calls u htimes hcalls htu hno => ⟨fun hu => ?_, fun hu => ?_⟩⟩
  all_goals
    have hminute : u < t + IDLE := by
      unfold IDLE
      unfold TOKEN at hwle
      omega
    obtain ⟨now, hnow, hrun⟩ := hwaiting.run htimes hcalls hminute htu hno
    rw [hrun.answer hnow hminute]
  · -- what was refilled since is less than what is missing
    have hless := hshort (u - t) (by omega)
    have hlevel : ¬ TOKEN ≤
        Bucket.refilled { credit := s.level limit key t, updated := t } limit u := by
      unfold Bucket.refilled
      simp only
      omega
    rw [Shard.answer, if_neg hlevel]
    exact ⟨_, rfl⟩
  · have hmul : w * limit.perSecond.toNat ≤ (u - t) * limit.perSecond.toNat :=
      Nat.mul_le_mul_right _ (by omega)
    have hlevel : TOKEN ≤ Bucket.refilled { credit := s.level limit key t, updated := t } limit u := by
      unfold Bucket.refilled
      simp only
      omega
    exact if_pos hlevel

end

/-- One request each second: the second is refused, and a second later there is a token. -/
theorem retry_after_exact_second :
    let s := (Shard.check { swept := 0 } (.v4 1) ⟨1, 1⟩ 0).2
    (s.check (.v4 1) ⟨1, 1⟩ 0).1 = .error 1000000000 ∧
      ((s.check (.v4 1) ⟨1, 1⟩ 0).2.check (.v4 1) ⟨1, 1⟩ 1000000000).1 = .ok () := by
  intro s
  have hreach : Shard.Reachable ⟨1, 1⟩ 0 0 s := .check .new (.v4 1) (Nat.le_refl 0)
  have hrefused : (s.check (.v4 1) ⟨1, 1⟩ 0).1 = .error 1000000000 := by decide +kernel
  have hfull : (s.sweep ⟨1, 1⟩ 0).full (.v4 1) = false := by decide +kernel
  refine ⟨hrefused, ?_⟩
  obtain ⟨hexact, -⟩ := retry_after_exact (by decide) (by decide) hreach (Nat.le_refl 0)
  obtain ⟨-, -, hrun⟩ := hexact 1000000000 hfull hrefused
  exact (hrun [] 1000000000 .nil (by simp) (by decide) trivial).2 (.inl (Nat.zero_add _).symm)

end Geata.RateLimit
