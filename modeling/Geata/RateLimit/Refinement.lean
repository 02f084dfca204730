import Mathlib.Data.List.Induction
import Mathlib.Logic.Function.Basic
import Geata.RateLimit.Limiter

namespace Geata.RateLimit

open Geata.Lib
open Geata.Proxy (Limit)

/-!
# The limiter against an ideal one

`Ideal` is a limiter with an unbounded table: it forgets no client and touches a bucket only when
that client is served.  `both` runs a shard and an ideal limiter side by side; a check that finds
the shard's table full is not offered to the ideal limiter.

* `Ideal.Agrees` — every client has the same level in both, from a time on.
* `spentAt` — the ideal bucket of a client, from the times at which it was served.
-/

/-- A limiter that forgets nobody. -/
structure Ideal where
  buckets : IpAddr → Option Bucket := fun _ => none

namespace Ideal

/-- The client's level in the ideal limiter. -/
def level (i : Ideal) (limit : Limit) (client : IpAddr) (t : ℕ) : ℕ :=
  match i.buckets client with
  | some bucket => bucket.refilled limit t
  | none => capacity limit

def check (i : Ideal) (client : IpAddr) (limit : Limit) (now : ℕ) : Except ℕ Unit × Ideal :=
  let credit := i.level limit client now
  if TOKEN ≤ credit then
    let bucket := { credit := credit - TOKEN, updated := now }
    (.ok (), { buckets := Function.update i.buckets client (some bucket) })
  else (Shard.answer limit credit, i)

/-- From `now` on, every client has the same level in both. -/
def Agrees (i : Ideal) (s : Shard) (limit : Limit) (now : ℕ) : Prop :=
  ∀ client t, now ≤ t → s.level limit client t = i.level limit client t

variable {i : Ideal} {s : Shard} {limit : Limit} {client : IpAddr} {now t : ℕ}

theorem check_answer : (i.check client limit now).1 = Shard.answer limit (i.level limit client now) := by
  unfold check
  simp only
  split
  · rename_i hle
    exact (if_pos hle).symm
  · rfl

/-- The buckets of the ideal limiter are not ahead of `now`. -/
def Past (i : Ideal) (now : ℕ) : Prop :=
  ∀ client bucket, i.buckets client = some bucket → bucket.updated ≤ now

theorem Past.check (h : i.Past now) {later : ℕ} (hle : now ≤ later) :
    (i.check client limit later).2.Past later := by
  unfold Ideal.check
  simp only
  split
  · intro c b hb
    by_cases hc : c = client
    · subst hc
      simp only [Function.update_self, Option.some.injEq] at hb
      rw [← hb]
    · simp only [Function.update_of_ne hc] at hb
      exact (h c b hb).trans hle
  · exact fun c b hb => (h c b hb).trans hle

/-- Only a served client is charged. -/
theorem level_check (h : i.Past now) {c : IpAddr} (ht : now ≤ t) :
    (i.check client limit now).2.level limit c t =
      if c = client then
        Bucket.refilled { credit := Shard.charge (i.level limit client now), updated := now } limit t
      else i.level limit c t := by
  unfold check
  simp only
  split
  · rename_i hle
    by_cases hc : c = client
    · subst hc
      rw [if_pos rfl, Shard.charge, if_pos hle]
      rw [level]
      simp only [Function.update_self]
    · simp only [level, Function.update_of_ne hc, if_neg hc]
  · rename_i hlt
    by_cases hc : c = client
    · -- a refusal leaves the bucket as it was, which is the same as refilling it up to now
      subst hc
      rw [if_pos rfl, Shard.charge, if_neg hlt]
      cases hb : i.buckets c with
      | some bucket =>
        simp only [level, hb]
        exact (refilled_refilled (h c bucket hb) ht).symm
      | none =>
        simp only [level, hb, Bucket.refilled]
        omega
    · rw [if_neg hc]

/-- One check for which there is room: the same answer, and the levels still agree. -/
theorem Agrees.check (h : i.Agrees s limit now) (hp : i.Past now) {later : ℕ}
    (hle : now ≤ later) (hfull : (s.sweep limit later).full client = false) :
    (s.check client limit later).1 = (i.check client limit later).1 ∧
      (i.check client limit later).2.Agrees (s.check client limit later).2 limit later := by
  have hlevel := h client later hle
  refine ⟨?_, fun c t ht => ?_⟩
  · rw [Shard.check_charged hfull, check_answer, hlevel]
  · have hp' : i.Past later := fun c b hb => (hp c b hb).trans hle
    rw [Shard.level_check hfull ht, Ideal.level_check hp' ht, hlevel, h c t (hle.trans ht)]

/-- One check for which there is none. -/
theorem Agrees.rejected (h : i.Agrees s limit now) {later : ℕ} (hle : now ≤ later)
    (hfull : (s.sweep limit later).full client = true) :
    i.Agrees (s.check client limit later).2 limit later := by
  intro c t ht
  rw [Shard.check_rejected hfull, Shard.level_sweep ht]
  exact h c t (hle.trans ht)

end Ideal

theorem answer_ok_iff {limit : Limit} {credit : ℕ} :
    Shard.answer limit credit = .ok () ↔ TOKEN ≤ credit := by
  unfold Shard.answer
  split
  · rename_i h; simp [h]
  · rename_i h; simp [h]

/-! ### Runs -/

/-- A shard and an ideal limiter side by side, and when each client was served. -/
structure Pair where
  shard : Shard
  ideal : Ideal := {}
  served : List (IpAddr × ℕ) := []

/-- One check of both; a check that finds the table full is not offered to the ideal limiter. -/
def Pair.check (p : Pair) (limit : Limit) (call : IpAddr × ℕ) : Pair where
  shard := (p.shard.check call.1 limit call.2).2
  ideal := if (p.shard.sweep limit call.2).full call.1 then p.ideal
    else (p.ideal.check call.1 limit call.2).2
  served := if (p.shard.check call.1 limit call.2).1 = .ok () then p.served ++ [call] else p.served

/-- Both after a list of calls. -/
def both (limit : Limit) (swept : ℕ) (calls : List (IpAddr × ℕ)) : Pair :=
  calls.foldl (fun p call => p.check limit call) { shard := { swept } }

/-- When a client was served. -/
def Pair.servedAt (p : Pair) (client : IpAddr) : List ℕ :=
  (p.served.filter (fun call => call.1 = client)).map Prod.snd

/-- The ideal bucket of a client that was served at these times, the first one first. -/
def spentAt (limit : Limit) (times : List ℕ) : Option Bucket :=
  times.foldl (fun bucket now =>
    some { credit := (bucket.elim (capacity limit) (fun b => b.refilled limit now)) - TOKEN
           updated := now }) none

/-- What holds of the two at a time. -/
structure Pair.Inv (p : Pair) (limit : Limit) (now : ℕ) : Prop where
  sound : p.shard.Sound now
  past : p.ideal.Past now
  agrees : p.ideal.Agrees p.shard limit now
  spent : ∀ client, p.ideal.buckets client = spentAt limit (p.servedAt client)

/-- A served check adds its time to the client's bucket; any other check leaves it alone. -/
theorem spent_check {p : Pair} {limit : Limit} {now : ℕ} (h : p.Inv limit now)
    {call : IpAddr × ℕ} (hle : now ≤ call.2) (client : IpAddr) :
    (p.check limit call).ideal.buckets client
      = spentAt limit ((p.check limit call).servedAt client) := by
  have hb := h.spent client
  unfold Pair.check Pair.servedAt
  cases hfull : (p.shard.sweep limit call.2).full call.1 with
  | true =>
    simp only [Shard.check_rejected hfull, reduceCtorEq, if_false, if_true]
    exact hb
  | false =>
    have hans := (h.agrees.check h.past hle hfull).1
    simp only [hans, Ideal.check_answer, answer_ok_iff, Bool.false_eq_true, if_false]
    by_cases hok : TOKEN ≤ p.ideal.level limit call.1 call.2
    · simp only [Ideal.check, if_pos hok]
      by_cases hc : call.1 = client
      · subst hc
        simp only [Function.update_self, List.filter_append, List.map_append, spentAt,
          List.foldl_append, decide_true, List.filter_cons_of_pos, List.filter_nil, List.map_cons,
          List.map_nil, List.foldl_cons, List.foldl_nil]
        rw [← spentAt, ← Pair.servedAt, ← hb]
        simp only [Ideal.level]
        cases p.ideal.buckets call.1 <;> rfl
      · rw [Function.update_of_ne (Ne.symm hc)]
        simpa [List.filter_append, hc, Pair.servedAt] using hb
    · simp only [Ideal.check, if_neg hok]
      exact hb

theorem Pair.Inv.check {p : Pair} {limit : Limit} {now : ℕ} (h : p.Inv limit now)
    {call : IpAddr × ℕ} (hle : now ≤ call.2) : (p.check limit call).Inv limit call.2 := by
  refine ⟨h.sound.check call.1 limit hle, ?_, ?_, spent_check h hle⟩
  · unfold Pair.check
    cases hfull : (p.shard.sweep limit call.2).full call.1 with
    | true => exact fun c b hb => (h.past c b hb).trans hle
    | false => exact h.past.check hle
  · unfold Pair.check
    cases hfull : (p.shard.sweep limit call.2).full call.1 with
    | true => exact h.agrees.rejected hle hfull
    | false => exact (h.agrees.check h.past hle hfull).2

theorem Pair.Inv.later {p : Pair} {limit : Limit} {now later : ℕ} (h : p.Inv limit now)
    (hle : now ≤ later) : p.Inv limit later where
  sound := ⟨fun c b hb => (h.sound.past c b hb).trans hle, h.sound.bounded⟩
  past c b hb := (h.past c b hb).trans hle
  agrees c t ht := h.agrees c t (hle.trans ht)
  spent := h.spent

/-- The invariant along a run with nondecreasing times, up to the time of a next call. -/
theorem inv_both (limit : Limit) (swept : ℕ) {calls : List (IpAddr × ℕ)} {now : ℕ}
    (htimes : (calls.map Prod.snd ++ [now]).Pairwise (· ≤ ·)) :
    (both limit swept calls).Inv limit now := by
  induction calls using List.reverseRecOn generalizing now with
  | nil =>
    refine ⟨Shard.sound_empty swept now, fun _ _ hb => (nomatch hb), fun c t _ => ?_,
      fun _ => rfl⟩
    rfl
  | append_singleton calls call ih =>
    rw [List.map_append, List.pairwise_append] at htimes
    obtain ⟨hcalls, -, hlast⟩ := htimes
    have hle : call.2 ≤ now := hlast call.2 (by simp) now (by simp)
    rw [both, List.foldl_append, ← both]
    exact ((ih hcalls).check (Nat.le_refl _)).later hle

/-- **The bounded limiter refines the ideal one.**  For every run of checks with nondecreasing
    times from an empty shard, and every next check:

    1. if it finds room, its answer is that of the ideal limiter, the wait included;
    2. if it does not, the ideal bucket of the client is full, the answer is to wait a minute, and
       no client's level changes: the tracked buckets stay as they are;
    3. the shard tracks at most 1024 clients;
    4. and whenever it finds room, the answer depends only on when the client itself was served. -/
theorem limiter_refines_ideal (limit : Limit) (swept : ℕ) (calls : List (IpAddr × ℕ))
    (client : IpAddr) (now : ℕ)
    (htimes : (calls.map Prod.snd ++ [now]).Pairwise (· ≤ ·)) :
    (((both limit swept calls).shard.sweep limit now).full client = false →
      ((both limit swept calls).shard.check client limit now).1
        = ((both limit swept calls).ideal.check client limit now).1) ∧
    (((both limit swept calls).shard.sweep limit now).full client = true →
      (both limit swept calls).ideal.level limit client now = capacity limit ∧
      ((both limit swept calls).shard.check client limit now).1 = .error IDLE ∧
      ((both limit swept calls).shard.check client limit now).2.clients
        = ((both limit swept calls).shard.sweep limit now).clients ∧
      ∀ c t, now ≤ t → ((both limit swept calls).shard.check client limit now).2.level limit c t
        = (both limit swept calls).shard.level limit c t) ∧
    Map.len (both limit swept calls).shard.clients ≤ 1024 ∧
    (((both limit swept calls).shard.sweep limit now).full client = false →
      ∀ swept' calls', (calls'.map Prod.snd ++ [now]).Pairwise (· ≤ ·) →
        ((both limit swept' calls').shard.sweep limit now).full client = false →
        (both limit swept' calls').servedAt client = (both limit swept calls).servedAt client →
        ((both limit swept' calls').shard.check client limit now).1
          = ((both limit swept calls).shard.check client limit now).1) := by
  have hinv := inv_both limit swept htimes
  refine ⟨?_, ?_, hinv.sound.bounded, ?_⟩
  · intro hfull
    exact (hinv.agrees.check hinv.past (Nat.le_refl now) hfull).1
  · intro hfull
    refine ⟨?_, by rw [Shard.check_rejected hfull], by rw [Shard.check_rejected hfull],
      fun c t ht => ?_⟩
    · rw [← hinv.agrees client now (Nat.le_refl now)]
      exact Shard.level_of_full hfull (Nat.le_refl now)
    · rw [Shard.check_rejected hfull]
      exact Shard.level_sweep ht
  · intro hfull swept' calls' htimes' hfull' hserved
    have hinv' := inv_both limit swept' htimes'
    -- the same served times give the same ideal bucket, so the same level
    have hbuckets : (both limit swept' calls').ideal.buckets client
        = (both limit swept calls).ideal.buckets client := by
      rw [hinv'.spent, hinv.spent, hserved]
    have hlevel : (both limit swept' calls').ideal.level limit client now
        = (both limit swept calls).ideal.level limit client now := by
      simp only [Ideal.level, hbuckets]
    rw [(hinv'.agrees.check hinv'.past (Nat.le_refl now) hfull').1,
      (hinv.agrees.check hinv.past (Nat.le_refl now) hfull).1, Ideal.check_answer,
      Ideal.check_answer, hlevel]

/-- A client served twice at once with a burst of two: the third check waits, in both limiters. -/
theorem limiter_refines_ideal_burst :
    ((both ⟨10, 2⟩ 0 [(.v4 1, 0), (.v4 1, 0)]).shard.check (.v4 1) ⟨10, 2⟩ 0).1
        = ((both ⟨10, 2⟩ 0 [(.v4 1, 0), (.v4 1, 0)]).ideal.check (.v4 1) ⟨10, 2⟩ 0).1 ∧
      ((both ⟨10, 2⟩ 0 [(.v4 1, 0), (.v4 1, 0)]).ideal.check (.v4 1) ⟨10, 2⟩ 0).1
        = .error 100000000 := by
  have hfull : ((both ⟨10, 2⟩ 0 [(.v4 1, 0), (.v4 1, 0)]).shard.sweep ⟨10, 2⟩ 0).full (.v4 1)
      = false := by decide +kernel
  refine ⟨(limiter_refines_ideal ⟨10, 2⟩ 0 [(.v4 1, 0), (.v4 1, 0)] (.v4 1) 0 (by decide)).1
    hfull, ?_⟩
  decide +kernel

end Geata.RateLimit
