import Mathlib.Algebra.GroupWithZero.Nat
import Mathlib.Data.Fintype.Basic
import Mathlib.Data.List.FinRange
import Geata.Lib.Period
import Geata.Lib.Word

namespace Geata.Logs

open Geata.Lib Function

/-!
# What gets into the log

A client cannot fill the log.  Rejected requests and connections are counted by status, and a
summary is written every ten seconds at most; of the TLS handshakes that fail on the client's side
one in ten seconds is logged.

* `RejectionLogs.record` — one rejection.
* `eventEnabled` — one event of the log.
* `rejections_counted` — the summaries have every rejection, once.
* `handshakes_sampled` — which events pass.
-/

/-- A second, in nanoseconds. -/
def SECOND : ℕ := 1000000000

/-! ### Rejections -/

structure RejectionLogs where
  last : ℕ
  counts : Fin 600 → ℕ

/-- The counter of a status; all from 599 on have one. -/
def counter (status : UInt16) : Fin 600 :=
  ⟨min status.toNat 599, Nat.lt_succ_of_le (Nat.min_le_right _ _)⟩

/-- The counts that are not zero. -/
def summary (counts : Fin 600 → ℕ) : List (Fin 600 × ℕ) :=
  ((List.finRange 600).map (fun status => (status, counts status))).filter
    (fun p => decide (p.2 ≠ 0))

namespace RejectionLogs

/-- Count a rejection; after ten seconds there is a summary. -/
def record (logs : RejectionLogs) (status : UInt16) (now : ℕ) :
    Option (List (Fin 600 × ℕ)) × RejectionLogs :=
  let counts := update logs.counts (counter status)
    (saturatingAdd (logs.counts (counter status)) 1)
  if now - logs.last < 10 * SECOND then (none, { logs with counts })
  else (some (summary counts), { last := now, counts := fun _ => 0 })

/-- A row of rejections, and the summaries they give with their times. -/
def run : RejectionLogs → List (UInt16 × ℕ) → List (ℕ × List (Fin 600 × ℕ)) × RejectionLogs
  | logs, [] => ([], logs)
  | logs, (status, now) :: rest =>
    let (written, logs) := logs.record status now
    let (summaries, logs) := run logs rest
    ((written.map (fun counts => (now, counts))).toList ++ summaries, logs)

theorem run_cons (logs : RejectionLogs) (status : UInt16) (now : ℕ) (rest : List (UInt16 × ℕ)) :
    logs.run ((status, now) :: rest) =
      (((logs.record status now).1.map (fun counts => (now, counts))).toList ++
        ((logs.record status now).2.run rest).1, ((logs.record status now).2.run rest).2) := rfl

end RejectionLogs

/-- What a summary says of a status. -/
def countOf (status : Fin 600) (counts : List (Fin 600 × ℕ)) : ℕ :=
  ((counts.filter (fun p => decide (p.1 = status))).map Prod.snd).sum

/-- What a row of summaries says of a status. -/
def reported (status : Fin 600) (summaries : List (ℕ × List (Fin 600 × ℕ))) : ℕ :=
  (summaries.map (fun s => countOf status s.2)).sum

section

variable {logs : RejectionLogs} {status : UInt16} {now : ℕ} {i : Fin 600}

theorem countOf_cons (p : Fin 600 × ℕ) (counts : List (Fin 600 × ℕ)) :
    countOf i (p :: counts) = (if p.1 = i then p.2 else 0) + countOf i counts := by
  unfold countOf
  by_cases h : p.1 = i
  · rw [List.filter_cons_of_pos (by simp [h]), List.map_cons, List.sum_cons, if_pos h]
  · rw [List.filter_cons_of_neg (by simp [h]), if_neg h, Nat.zero_add]

/-- A summary has the count of every status. -/
theorem countOf_summary (counts : Fin 600 → ℕ) (i : Fin 600) :
    countOf i (summary counts) = counts i := by
  have hlist : ∀ l : List (Fin 600), l.Nodup →
      countOf i ((l.map (fun status => (status, counts status))).filter
        (fun p => decide (p.2 ≠ 0))) = if i ∈ l then counts i else 0 := by
    intro l hnodup
    induction l with
    | nil => rfl
    | cons status l ih =>
      have hrest := ih (List.nodup_cons.mp hnodup).2
      have hnot := (List.nodup_cons.mp hnodup).1
      rw [List.map_cons]
      by_cases hzero : counts status = 0
      · -- Left out, and nothing to be counted.
        rw [List.filter_cons_of_neg (by simp [hzero]), hrest]
        by_cases hi : status = i
        · subst hi
          simp [hzero]
        · simp [Ne.symm hi]
      · rw [List.filter_cons_of_pos (by simp [hzero]), countOf_cons, hrest]
        by_cases hi : status = i
        · subst hi
          simp [hnot]
        · simp [hi, Ne.symm hi]
  rw [summary, hlist _ (List.nodup_finRange 600), if_pos (List.mem_finRange i)]

/-- A summary has each status once, in order, and none with nothing to report. -/
theorem summary_sorted (counts : Fin 600 → ℕ) :
    ((summary counts).map Prod.fst).Pairwise (· < ·) ∧ ∀ p ∈ summary counts, p.2 ≠ 0 := by
  constructor
  · rw [List.pairwise_map]
    apply List.Pairwise.filter
    rw [List.pairwise_map]
    exact List.pairwise_lt_finRange 600
  · intro p hp
    exact of_decide_eq_true (List.mem_filter.mp hp).2

/-- A rejection is counted: it is in the summary, or in the counters that stay. -/
theorem record_counts (hroom : logs.counts i + 1 ≤ u64Max) :
    ((logs.record status now).1.map (countOf i)).getD 0 + (logs.record status now).2.counts i =
      logs.counts i + if counter status = i then 1 else 0 := by
  have hcount : update logs.counts (counter status)
      (saturatingAdd (logs.counts (counter status)) 1) i =
      logs.counts i + if counter status = i then 1 else 0 := by
    by_cases hi : counter status = i
    · subst hi
      rw [update_self, if_pos rfl, saturatingAdd_eq hroom]
    · rw [update_of_ne (Ne.symm hi), if_neg hi, Nat.add_zero]
  -- Without a summary the counter keeps its number; with one the number moves into it.
  unfold RejectionLogs.record
  dsimp only
  split
  · rw [Option.map_none, Option.getD_none, Nat.zero_add]
    exact hcount
  · rw [Option.map_some, Option.getD_some, countOf_summary, Nat.add_zero]
    exact hcount

theorem reported_append (status : Fin 600) (s s' : List (ℕ × List (Fin 600 × ℕ))) :
    reported status (s ++ s') = reported status s + reported status s' := by
  rw [reported, List.map_append, List.sum_append, reported, reported]

/-- No rejection is lost, and none is reported twice. -/
theorem run_counts {calls : List (UInt16 × ℕ)} (i : Fin 600)
    (hroom : logs.counts i + calls.length ≤ u64Max) :
    reported i (logs.run calls).1 + (logs.run calls).2.counts i =
      logs.counts i + calls.countP (fun call => decide (counter call.1 = i)) := by
  induction calls generalizing logs with
  | nil => exact Nat.add_comm _ _
  | cons call rest ih =>
    obtain ⟨status, now⟩ := call
    rw [List.length_cons] at hroom
    have hone := @record_counts logs status now i (by omega)
    have hle : (if counter status = i then 1 else 0) ≤ 1 := by
      split
      · exact Nat.le_refl 1
      · exact Nat.zero_le 1
    have hrest := @ih (logs.record status now).2 (by omega)
    have hwritten : reported i
        ((logs.record status now).1.map (fun counts => (now, counts))).toList =
        ((logs.record status now).1.map (countOf i)).getD 0 := by
      cases (logs.record status now).1 with
      | none => rfl
      | some counts => simp [reported]
    rw [RejectionLogs.run_cons, reported_append, hwritten, List.countP_cons]
    simp only [decide_eq_true_eq]
    omega

theorem run_times (logs : RejectionLogs) (calls : List (UInt16 × ℕ)) :
    (logs.run calls).1.map Prod.fst =
      opened (10 * SECOND) (some logs.last) (calls.map Prod.snd) := by
  induction calls generalizing logs with
  | nil => rfl
  | cons call rest ih =>
    obtain ⟨status, now⟩ := call
    rw [RejectionLogs.run_cons, List.map_append, ih, List.map_cons, opened, lastOpened]
    by_cases hwait : now - logs.last < 10 * SECOND
    · -- Nothing is written, and the last summary is still the last one.
      have hopens : ¬ opens (10 * SECOND) (some logs.last) now = true := by
        simp [opens, hwait]
      have hrecord : (logs.record status now).1 = none ∧
          (logs.record status now).2.last = logs.last := by
        simp [RejectionLogs.record, hwait]
      rw [if_neg hopens, if_neg hopens, hrecord.1, hrecord.2]
      rfl
    · have hopens : opens (10 * SECOND) (some logs.last) now = true := by
        simpa [opens] using hwait
      have hrecord : (∃ counts, (logs.record status now).1 = some counts) ∧
          (logs.record status now).2.last = now := by
        simp [RejectionLogs.record, hwait]
      obtain ⟨⟨counts, hwritten⟩, hlast⟩ := hrecord
      rw [if_pos hopens, if_pos hopens, hwritten, hlast]
      rfl

theorem run_summaries {calls : List (UInt16 × ℕ)} {s : ℕ × List (Fin 600 × ℕ)}
    (h : s ∈ (logs.run calls).1) : ∃ counts, s.2 = summary counts := by
  induction calls generalizing logs with
  | nil => exact absurd h (List.not_mem_nil)
  | cons call rest ih =>
    obtain ⟨status, now⟩ := call
    rw [RejectionLogs.run_cons] at h
    rcases List.mem_append.mp h with h | h
    · obtain ⟨counts, hwritten, rfl⟩ := Option.map_eq_some_iff.mp (Option.mem_toList.mp h)
      unfold RejectionLogs.record at hwritten
      dsimp only at hwritten
      split at hwritten
      · exact absurd hwritten (by simp)
      · exact ⟨_, (Option.some.inj hwritten).symm⟩
    · exact ih h

end

/-- **Every rejection is reported once, and rejections do not fill the log.**  From the start on,
    with a clock that does not go back, and short of 2^64 rejections: what the summaries say of a
    status, and what is left in its counter, is how often it was recorded; a summary has every
    status once at most, in order, and none with nothing to report; two summaries, and the start
    and the first one, are ten seconds apart; and at any rejection there has been a summary, or the
    start, in the last ten seconds. -/
theorem rejections_counted {start : ℕ} {calls : List (UInt16 × ℕ)}
    (htimes : (start :: calls.map Prod.snd).Pairwise (· ≤ ·)) (hfew : calls.length ≤ u64Max) :
    let logs : RejectionLogs := { last := start, counts := fun _ => 0 }
    let summaries := (logs.run calls).1
    (∀ status, reported status summaries + (logs.run calls).2.counts status =
      calls.countP (fun call => decide (counter call.1 = status))) ∧
    (∀ s ∈ summaries, (s.2.map Prod.fst).Pairwise (· < ·) ∧ ∀ p ∈ s.2, p.2 ≠ 0) ∧
    (start :: summaries.map Prod.fst).Pairwise (fun t u => t + 10 * SECOND ≤ u) ∧
    ∀ call ∈ calls, ∃ u ∈ start :: summaries.map Prod.fst,
      u ≤ call.2 ∧ call.2 < u + 10 * SECOND := by
  intro logs summaries
  obtain ⟨hstart, hsorted⟩ := List.pairwise_cons.mp htimes
  have htimes' : summaries.map Prod.fst =
      opened (10 * SECOND) (some start) (calls.map Prod.snd) := run_times logs calls
  refine ⟨fun status => ?_, fun s hs => ?_, ?_, fun call hcall => ?_⟩
  · have hcounts := @run_counts logs calls status
      (by show 0 + calls.length ≤ u64Max; omega)
    rwa [show logs.counts status = 0 from rfl, Nat.zero_add] at hcounts
  · obtain ⟨counts, hsummary⟩ := run_summaries hs
    rw [hsummary]
    exact summary_sorted counts
  · rw [htimes', List.pairwise_cons]
    exact ⟨fun t ht => opened_later htimes ht, opened_apart hsorted⟩
  · have hmem : call.2 ∈ calls.map Prod.snd := List.mem_map_of_mem hcall
    have hperiod : 0 < 10 * SECOND := by decide
    obtain ⟨u, hu, hlt, hle⟩ := opened_recent (some start) hsorted hperiod hmem
    rw [htimes']
    refine ⟨u, ?_, ?_, hlt⟩
    · rcases hu with hu | hu
      · rw [← Option.some.inj hu]
        exact List.mem_cons_self ..
      · exact List.mem_cons_of_mem _ hu
    · rcases hle with hle | hle
      · exact hle
      · rw [← Option.some.inj hle]
        exact hstart _ hmem

/-- The summary at the third rejection has all three, and the fourth one is counted for the next. -/
theorem rejections_counted_summary :
    let logs : RejectionLogs := { last := 0, counts := fun _ => 0 }
    let calls : List (UInt16 × ℕ) :=
      [(429, 1), (65535, 2), (429, 10 * SECOND), (0, 10 * SECOND)]
    reported 429 (logs.run calls).1 + (logs.run calls).2.counts 429 = 2 ∧
    reported 599 (logs.run calls).1 + (logs.run calls).2.counts 599 = 1 ∧
    (logs.run calls).1.map Prod.fst = [10 * SECOND] := by
  intro logs calls
  have htimes : (0 :: calls.map Prod.snd).Pairwise (· ≤ ·) := by decide
  have hfew : calls.length ≤ u64Max := by decide
  obtain ⟨hcounts, -, -, -⟩ := rejections_counted htimes hfew
  exact ⟨hcounts 429, hcounts 599, by rw [run_times]; decide⟩

/-! ### Events of the listener -/

inductive Level
  | error
  | warn
  | info
  | debug
  | trace
deriving DecidableEq, Repr

/-- An event, with the target and the level of the record it was made from. -/
structure Event where
  target : String
  level : Level
  message : String
deriving DecidableEq, Repr

/-- `connections::CAPACITY_ERROR`. -/
def CAPACITY_ERROR : String := "connection capacity exhausted"

def Event.fromListener (event : Event) : Bool :=
  event.target == "pingora_core::services::listening" && event.level == .error

/-- A connection for which there was no room; it is counted as a rejection. -/
def capacityRejection (message : String) : Bool :=
  decide ("Downstream handshake error".toList <+: message.toList) &&
    decide (CAPACITY_ERROR.toList <:+ message.toList)

def clientFailure (message : String) : Bool :=
  message == "Downstream handshake timeout" ||
    (decide ("Downstream handshake error".toList <+: message.toList) &&
      decide ("TLSHandshakeFailure".toList <:+: message.toList) &&
      decide ("TLS accept() failed:".toList <:+: message.toList))

/-- When the last client failure was logged. -/
abbrev HandshakeSample := Option ℕ

def HandshakeSample.allow (sample : HandshakeSample) (now : ℕ) : Bool × HandshakeSample :=
  if sample.any (fun last => decide (now - last < 10 * SECOND)) then (false, sample)
  else (true, some now)

/-- Does an event get into the log? -/
def eventEnabled (sample : HandshakeSample) (event : Event) (now : ℕ) : Bool × HandshakeSample :=
  if !event.fromListener then (true, sample)
  else if capacityRejection event.message then (false, sample)
  else if !clientFailure event.message then (true, sample)
  else sample.allow now

/-- The events of a run that get into the log. -/
def logged : HandshakeSample → List (Event × ℕ) → List (Event × ℕ)
  | _, [] => []
  | sample, (event, now) :: rest =>
    (if (eventEnabled sample event now).1 then [(event, now)] else []) ++
      logged (eventEnabled sample event now).2 rest

/-- The listener reports a lack of room. -/
def Event.ofCapacity (event : Event) : Bool :=
  event.fromListener && capacityRejection event.message

/-- The listener reports a failure of a client. -/
def Event.ofClient (event : Event) : Bool :=
  event.fromListener && !capacityRejection event.message && clientFailure event.message

section

variable {sample : HandshakeSample} {event : Event} {now : ℕ} {events : List (Event × ℕ)}

theorem allow_eq :
    sample.allow now = (opens (10 * SECOND) sample now, lastOpened (10 * SECOND) sample now) := by
  cases sample with
  | none => rfl
  | some last =>
    by_cases hwait : now - last < 10 * SECOND
    · simp [HandshakeSample.allow, opens, lastOpened, hwait]
    · simp [HandshakeSample.allow, opens, lastOpened, hwait, Nat.le_of_not_lt hwait]

theorem eventEnabled_capacity (h : event.ofCapacity = true) :
    eventEnabled sample event now = (false, sample) := by
  rw [Event.ofCapacity, Bool.and_eq_true] at h
  simp [eventEnabled, h.1, h.2]

theorem eventEnabled_client (h : event.ofClient = true) :
    eventEnabled sample event now = sample.allow now := by
  rw [Event.ofClient, Bool.and_eq_true, Bool.and_eq_true, Bool.not_eq_true'] at h
  simp [eventEnabled, h.1.1, h.1.2, h.2]

theorem eventEnabled_other (hcapacity : event.ofCapacity = false) (hclient : event.ofClient = false) :
    eventEnabled sample event now = (true, sample) := by
  unfold Event.ofCapacity at hcapacity
  unfold Event.ofClient at hclient
  unfold eventEnabled
  cases hlistener : event.fromListener with
  | false => rfl
  | true =>
    rw [hlistener, Bool.true_and] at hcapacity hclient
    rw [hcapacity] at hclient ⊢
    rw [Bool.not_false, Bool.true_and] at hclient
    rw [hclient]
    rfl

theorem not_client_of_capacity (h : event.ofCapacity = true) : event.ofClient = false := by
  rw [Event.ofCapacity, Bool.and_eq_true] at h
  simp [Event.ofClient, h.2]

/-- Of the client failures, those get through for which a gate opens once in ten seconds. -/
theorem logged_client (sample : HandshakeSample) (events : List (Event × ℕ)) :
    ((logged sample events).filter (fun e => e.1.ofClient)).map Prod.snd =
      opened (10 * SECOND) sample ((events.filter (fun e => e.1.ofClient)).map Prod.snd) := by
  induction events generalizing sample with
  | nil => rfl
  | cons e rest ih =>
    obtain ⟨event, now⟩ := e
    rw [logged, List.filter_append, List.map_append, ih]
    by_cases hclient : event.ofClient = true
    · have hkeep : ∀ l : List (Event × ℕ), ((event, now) :: l).filter (fun e => e.1.ofClient) =
          (event, now) :: l.filter (fun e => e.1.ofClient) :=
        fun _ => List.filter_cons_of_pos hclient
      rw [eventEnabled_client hclient, allow_eq, hkeep rest, List.map_cons, opened]
      dsimp only
      split
      · rw [hkeep []]
        rfl
      · rfl
    · -- Logged or not, the event does not count for the next failure.
      have hkept : (eventEnabled sample event now).2 = sample := by
        cases hcapacity : event.ofCapacity with
        | true => rw [eventEnabled_capacity hcapacity]
        | false => rw [eventEnabled_other hcapacity (Bool.eq_false_iff.mpr hclient)]
      have hdrop : ∀ l : List (Event × ℕ), ((event, now) :: l).filter (fun e => e.1.ofClient) =
          l.filter (fun e => e.1.ofClient) :=
        fun _ => List.filter_cons_of_neg hclient
      rw [hkept, hdrop rest]
      split
      · rw [hdrop []]
        rfl
      · rfl

/-- Everything else gets through, but for the lack of room. -/
theorem logged_other (sample : HandshakeSample) (events : List (Event × ℕ)) :
    (logged sample events).filter (fun e => !e.1.ofClient) =
      events.filter (fun e => !e.1.ofClient && !e.1.ofCapacity) := by
  induction events generalizing sample with
  | nil => rfl
  | cons e rest ih =>
    obtain ⟨event, now⟩ := e
    rw [logged, List.filter_append, ih]
    cases hcapacity : event.ofCapacity with
    | true => simp [eventEnabled_capacity hcapacity, hcapacity]
    | false =>
      cases hclient : event.ofClient with
      | true =>
        rw [List.filter_cons_of_neg (by simp [hclient])]
        split
        · rw [List.filter_cons_of_neg (by simp [hclient])]
          rfl
        · rfl
      | false => simp [eventEnabled_other hcapacity hclient, hcapacity, hclient]

end

/-- **One client failure in ten seconds is logged, and nothing else is held back.**  In any row of
    events, with a clock that does not go back: a connection for which there was no room is never
    logged; everything that is neither that nor a failure of a client is logged, in its order; two
    failures of clients that are logged are ten seconds apart; and of every failure of a client, or
    of one less than ten seconds before it, there is a line. -/
theorem handshakes_sampled {events : List (Event × ℕ)}
    (htimes : (events.map Prod.snd).Pairwise (· ≤ ·)) :
    (∀ e ∈ logged none events, e.1.ofCapacity = false) ∧
    (logged none events).filter (fun e => !e.1.ofClient) =
      events.filter (fun e => !e.1.ofClient && !e.1.ofCapacity) ∧
    ((logged none events).filter (fun e => e.1.ofClient)).Pairwise
      (fun e e' => e.2 + 10 * SECOND ≤ e'.2) ∧
    ∀ e ∈ events, e.1.ofClient = true → ∃ e' ∈ logged none events, e'.1.ofClient = true ∧
      e'.2 ≤ e.2 ∧ e.2 < e'.2 + 10 * SECOND := by
  have hother := logged_other none events
  have hclient := logged_client none events
  have hsorted : ((events.filter (fun e => e.1.ofClient)).map Prod.snd).Pairwise (· ≤ ·) := by
    rw [List.pairwise_map] at htimes ⊢
    exact htimes.filter _
  refine ⟨fun e he => ?_, hother, ?_, fun e he hfailure => ?_⟩
  · by_contra hcapacity
    rw [Bool.not_eq_false] at hcapacity
    -- Such an event is none of a client, and would be among the others.
    have hmem : e ∈ (logged none events).filter (fun e => !e.1.ofClient) := by
      apply List.mem_filter.mpr
      exact ⟨he, by rw [not_client_of_capacity hcapacity]; rfl⟩
    rw [hother] at hmem
    have hnot := (List.mem_filter.mp hmem).2
    rw [hcapacity, Bool.not_true, Bool.and_false] at hnot
    exact Bool.noConfusion hnot
  · have hapart : (opened (10 * SECOND) none _).Pairwise _ := opened_apart hsorted
    rw [← hclient, List.pairwise_map] at hapart
    exact hapart
  · have hmem : e.2 ∈ (events.filter (fun e => e.1.ofClient)).map Prod.snd :=
      List.mem_map_of_mem (List.mem_filter.mpr ⟨he, hfailure⟩)
    have hperiod : 0 < 10 * SECOND := by decide
    obtain ⟨u, hu, hlt, hle⟩ := opened_recent none hsorted hperiod hmem
    rw [← hclient] at hu
    have hu' := hu.resolve_left (by simp)
    obtain ⟨e', he', rfl⟩ := List.mem_map.mp hu'
    obtain ⟨hlogged, hfailure'⟩ := List.mem_filter.mp he'
    exact ⟨e', hlogged, hfailure', hle.resolve_right (by simp), hlt⟩

/-- A timeout is logged, and the failure right after it is not. -/
theorem handshakes_sampled_timeout :
    let listener := fun message : String =>
      ({ target := "pingora_core::services::listening", level := .error, message } : Event)
    let failed := "Downstream handshake error: TLSHandshakeFailure context: TLS accept() failed:"
    let events := [(listener "Downstream handshake timeout", 0), (listener failed, 5)]
    ∃ e ∈ logged none events, e.1.ofClient = true ∧ e.2 ≤ 5 ∧ 5 < e.2 + 10 * SECOND := by
  intro listener failed events
  have htimes : (events.map Prod.snd).Pairwise (· ≤ ·) := by decide
  obtain ⟨-, -, -, hevery⟩ := handshakes_sampled htimes
  exact hevery (listener failed, 5) (by simp [events]) (by decide)

end Geata.Logs
