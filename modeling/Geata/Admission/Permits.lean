import Mathlib.Data.Multiset.AddSub
import Mathlib.Data.UInt
import Geata.RateLimit.Limiter

namespace Geata.Admission

open Geata.Lib Geata.RateLimit

/-!
# Capacity

A `Capacity` hands out at most `max` permits, and at most `per_client` to one client identity.  It
counts in two places: a map with a counter for each client, behind a lock, and a semaphore.  An
acquire holds the lock while it takes a slot of the semaphore; a drop decrements the counter under
the lock and returns the slot later, without it.

* `Capacity.tryAcquire`, `Capacity.decrement`, `Capacity.release` — the steps of the source.
* `Capacity.Counts` — what the two counters say of the permits that are out.
* `Held.Step` — acquires and drops in any order.
* `capacity_exact` — the counters are exact in every state.
-/

/-! ### The model -/

structure Capacity where
  max : UInt32
  ipv6Prefix : UInt8 := 64
  perClient : UInt32
  /-- free slots of the semaphore -/
  permits : ℕ
  /-- how many permits each client has -/
  clients : Map IpAddr UInt32 := ∅

/-- What a drop can find wrong with its client's counter. -/
inductive Fault where
  /-- `capacity permit has no client counter` -/
  | missing
  /-- `count -= 1` at zero -/
  | underflow
  deriving DecidableEq

namespace Capacity

/-- `Capacity::new`: above a limit of one, half of the capacity is kept for other clients. -/
def new (max : UInt32) : Capacity where
  max := max
  perClient := if max / 2 < 1 then 1 else max / 2
  permits := max.toNat

/-- The client of the permit, if there is one to have.  The counter is looked up first, and the lock
    is held until it has been incremented. -/
def tryAcquire (c : Capacity) (client : IpAddr) : Option IpAddr × Capacity :=
  let client := clientKey client c.ipv6Prefix
  let count := (c.clients.lookup client).getD 0
  if c.perClient ≤ count then (none, c)
  else if c.permits = 0 then (none, c)
  else (some client,
    { c with permits := c.permits - 1, clients := c.clients.insert client (count + 1) })

/-- The first half of a drop: the counter. -/
def decrement (c : Capacity) (client : IpAddr) : Except Fault Capacity :=
  match c.clients.lookup client with
  | none => .error .missing
  | some count =>
    if count = 0 then .error .underflow
    else if count - 1 = 0 then .ok { c with clients := c.clients.erase client }
    else .ok { c with clients := c.clients.insert client (count - 1) }

/-- The second half of a drop: the slot. -/
def release (c : Capacity) : Capacity := { c with permits := c.permits + 1 }

/-- The counter of a client. -/
def counter (c : Capacity) (client : IpAddr) : Option ℕ :=
  (c.clients.lookup client).map UInt32.toNat

/-- The same limits. -/
structure Alike (c c' : Capacity) : Prop where
  max : c'.max = c.max
  perClient : c'.perClient = c.perClient
  ipv6Prefix : c'.ipv6Prefix = c.ipv6Prefix

theorem Alike.refl (c : Capacity) : c.Alike c := ⟨rfl, rfl, rfl⟩

theorem Alike.trans {c c' c'' : Capacity} (h : c.Alike c') (h' : c'.Alike c'') : c.Alike c'' :=
  ⟨h'.max.trans h.max, h'.perClient.trans h.perClient, h'.ipv6Prefix.trans h.ipv6Prefix⟩

/-! ### What the counters say -/

/-- The counters of a capacity whose permits in `live` are counted and which has given `slots` slots
    away. -/
structure Counts (c : Capacity) (live : Multiset IpAddr) (slots : ℕ) : Prop where
  counter : ∀ k, c.counter k = if live.count k = 0 then none else some (live.count k)
  perClient : ∀ k, live.count k ≤ c.perClient.toNat
  slots : c.permits + slots = c.max.toNat

variable {c c' : Capacity} {live : Multiset IpAddr} {slots : ℕ} {client key : IpAddr}

/-- No permit has been handed out. -/
structure Fresh (c : Capacity) : Prop where
  permits : c.permits = c.max.toNat
  clients : c.clients = ∅

theorem Fresh.counts (h : c.Fresh) : c.Counts 0 0 := by
  refine ⟨fun k => ?_, fun k => Nat.zero_le _, h.permits⟩
  rw [Capacity.counter, h.clients]
  rfl

/-- The counter as the code reads it. -/
theorem Counts.count_eq (h : c.Counts live slots) (k : IpAddr) :
    ((c.clients.lookup k).getD 0).toNat = live.count k := by
  have hk := h.counter k
  unfold Capacity.counter at hk
  cases hl : c.clients.lookup k with
  | none =>
    rw [hl] at hk
    show 0 = live.count k
    by_contra hne
    rw [if_neg (Ne.symm hne)] at hk
    exact absurd hk (by simp)
  | some n =>
    rw [hl] at hk
    show n.toNat = live.count k
    split at hk
    · exact absurd hk (by simp)
    · exact Option.some.inj hk

/-- An acquire is granted exactly when the client and the semaphore have room. -/
theorem Counts.tryAcquire_eq (h : c.Counts live slots) (client : IpAddr) :
    c.tryAcquire client =
      if live.count (clientKey client c.ipv6Prefix) < c.perClient.toNat ∧ slots < c.max.toNat then
        (some (clientKey client c.ipv6Prefix), { c with
          permits := c.permits - 1
          clients := c.clients.insert (clientKey client c.ipv6Prefix)
            ((c.clients.lookup (clientKey client c.ipv6Prefix)).getD 0 + 1) })
      else (none, c) := by
  have hcount := h.count_eq (clientKey client c.ipv6Prefix)
  have hslots := h.slots
  unfold tryAcquire
  simp only [UInt32.le_iff_toNat_le, hcount]
  by_cases hfull : c.perClient.toNat ≤ live.count (clientKey client c.ipv6Prefix)
  · rw [if_pos hfull, if_neg (by omega)]
  · rw [if_neg hfull]
    by_cases hnone : c.permits = 0
    · rw [if_pos hnone, if_neg (by omega)]
    · rw [if_neg hnone, if_pos (by omega)]

/-- An acquire for which there is room is granted. -/
theorem Counts.tryAcquire_room (h : c.Counts live slots)
    (hclient : live.count (clientKey client c.ipv6Prefix) < c.perClient.toNat)
    (hslots : slots < c.max.toNat) :
    ∃ c', c.tryAcquire client = (some (clientKey client c.ipv6Prefix), c') := by
  rw [h.tryAcquire_eq client, if_pos ⟨hclient, hslots⟩]
  exact ⟨_, rfl⟩

/-- A refused acquire changes nothing. -/
theorem tryAcquire_none (h : c.tryAcquire client = (none, c')) : c' = c := by
  unfold tryAcquire at h
  simp only at h
  split at h
  · exact (Prod.mk.inj h).2.symm
  · split at h
    · exact (Prod.mk.inj h).2.symm
    · exact absurd (Prod.mk.inj h).1 (by simp)

/-- A permit that is granted is one more of its client, and takes one slot. -/
theorem Counts.tryAcquire_some (h : c.Counts live slots)
    (hc : c.tryAcquire client = (some key, c')) :
    key = clientKey client c.ipv6Prefix ∧ c.Alike c' ∧ c'.Counts (key ::ₘ live) (slots + 1) := by
  rw [h.tryAcquire_eq client] at hc
  split at hc
  · rename_i hroom
    obtain ⟨hkey, rfl⟩ := Prod.mk.inj hc
    obtain rfl := Option.some.inj hkey
    refine ⟨rfl, ⟨rfl, rfl, rfl⟩, ?_⟩
    generalize clientKey client c.ipv6Prefix = key at hroom
    have hcount := h.count_eq key
    have hslots := h.slots
    have hbound : c.perClient.toNat < 2 ^ 32 := c.perClient.toNat_lt
    refine ⟨fun k => ?_, fun k => ?_, ?_⟩
    · unfold Capacity.counter
      rw [Map.lookup_insert_eq, Multiset.count_cons]
      split
      · -- the counter does not overflow, since it was below the limit
        have hadd : ((c.clients.lookup key).getD 0 + 1).toNat = live.count key + 1 := by
          rw [UInt32.toNat_add, hcount]
          exact Nat.mod_eq_of_lt (by show _ + 1 < 2 ^ 32; omega)
        subst k
        rw [if_neg (by omega), Option.map_some, hadd]
      · rw [Nat.add_zero]
        exact h.counter k
    · rw [Multiset.count_cons]
      split
      · subst k
        exact hroom.1
      · exact h.perClient k
    · show c.permits - 1 + (slots + 1) = c.max.toNat
      omega
  · exact absurd (Prod.mk.inj hc).1 (by simp)

/-- The counter of a permit that is out can be decremented. -/
theorem Counts.decrement (h : c.Counts live slots) (hkey : key ∈ live) :
    ∃ c', c.decrement key = .ok c' ∧ c.Alike c' ∧ c'.Counts (live.erase key) slots := by
  have hpos : 0 < live.count key := Multiset.count_pos.mpr hkey
  have hcounter := h.counter key
  rw [if_neg (by omega)] at hcounter
  obtain ⟨count, hl, hcount⟩ := Option.map_eq_some_iff.mp hcounter
  have herase : ∀ k, k ≠ key → (live.erase key).count k = live.count k :=
    fun k hk => Multiset.count_erase_of_ne hk live
  have hself : (live.erase key).count key = live.count key - 1 := Multiset.count_erase_self key live
  have hle : ∀ k, (live.erase key).count k ≤ c.perClient.toNat :=
    fun k => (Multiset.count_le_of_le k (Multiset.erase_le key live)).trans (h.perClient k)
  have hne : count ≠ 0 := by
    rintro rfl
    exact absurd hcount (by show ¬ 0 = _; omega)
  have hone : (1 : UInt32) ≤ count := by
    rw [UInt32.le_iff_toNat_le, hcount]
    exact hpos
  have hsub : (count - 1).toNat = live.count key - 1 := by
    rw [UInt32.toNat_sub_of_le _ _ hone, hcount]
    rfl
  unfold Capacity.decrement
  rw [hl]
  simp only [if_neg hne]
  by_cases hlast : count - 1 = 0
  · rw [if_pos hlast]
    refine ⟨_, rfl, ⟨rfl, rfl, rfl⟩, fun k => ?_, hle, h.slots⟩
    have hzero : live.count key - 1 = 0 := by
      rw [← hsub, hlast]
      rfl
    unfold Capacity.counter
    rw [Map.lookup_erase_eq]
    split
    · subst k
      rw [if_pos (by omega)]
      rfl
    · rename_i hk
      rw [herase k hk]
      exact h.counter k
  · rw [if_neg hlast]
    refine ⟨_, rfl, ⟨rfl, rfl, rfl⟩, fun k => ?_, hle, h.slots⟩
    have hpos' : live.count key - 1 ≠ 0 := by
      rw [← hsub]
      exact fun hzero => hlast (UInt32.toNat_inj.mp hzero)
    unfold Capacity.counter
    rw [Map.lookup_insert_eq]
    split
    · subst k
      rw [if_neg (by omega), Option.map_some, hsub, hself]
    · rename_i hk
      rw [herase k hk]
      exact h.counter k

/-- Returning a slot. -/
theorem Counts.release (h : c.Counts live (slots + 1)) : c.release.Counts live slots := by
  have hslots := h.slots
  refine ⟨h.counter, h.perClient, ?_⟩
  show c.permits + 1 + slots = c.max.toNat
  omega

end Capacity

/-! ### Acquires and drops in any order -/

/-- A capacity, the permits that are out, and how many drops are between their two halves. -/
structure Held where
  capacity : Capacity
  live : Multiset IpAddr := 0
  dropping : ℕ := 0

namespace Held

/-- One step of some client. -/
inductive Step : Held → Held → Prop where
  | acquire {s : Held} {client key : IpAddr} {c : Capacity}
      (granted : s.capacity.tryAcquire client = (some key, c)) :
      Step s { s with capacity := c, live := key ::ₘ s.live }
  | refused {s : Held} {client : IpAddr} {c : Capacity}
      (refused : s.capacity.tryAcquire client = (none, c)) : Step s { s with capacity := c }
  | decrement {s : Held} {key : IpAddr} {c : Capacity} (out : key ∈ s.live)
      (done : s.capacity.decrement key = .ok c) :
      Step s { capacity := c, live := s.live.erase key, dropping := s.dropping + 1 }
  | release {s : Held} {n : ℕ} (dropping : s.dropping = n + 1) :
      Step s { s with capacity := s.capacity.release, dropping := n }

/-- The states that a run from a capacity without permits reaches. -/
def Reachable (c : Capacity) : Held → Prop := Relation.ReflTransGen Step { capacity := c }

/-- The books of a capacity. -/
structure Exact (c : Capacity) (s : Held) : Prop where
  alike : c.Alike s.capacity
  counts : s.capacity.Counts s.live (s.live.card + s.dropping)

theorem Exact.step {c : Capacity} {s s' : Held} (h : Exact c s) (hs : Step s s') : Exact c s' := by
  obtain ⟨halike, hcounts⟩ := h
  cases hs with
  | acquire granted =>
    obtain ⟨-, halike', hcounts'⟩ := hcounts.tryAcquire_some granted
    refine ⟨halike.trans halike', ?_⟩
    rw [Multiset.card_cons, Nat.add_right_comm]
    exact hcounts'
  | refused refused =>
    obtain rfl := Capacity.tryAcquire_none refused
    exact ⟨halike, hcounts⟩
  | @decrement key c' out done =>
    obtain ⟨c'', hdone, halike', hcounts'⟩ := hcounts.decrement out
    obtain rfl := Except.ok.inj (done.symm.trans hdone)
    refine ⟨halike.trans halike', ?_⟩
    have hcard : (s.live.erase key).card + 1 = s.live.card := Multiset.card_erase_add_one out
    have hsame : (s.live.erase key).card + (s.dropping + 1) = s.live.card + s.dropping := by omega
    rw [hsame]
    exact hcounts'
  | @release n hdropping =>
    refine ⟨halike.trans ⟨rfl, rfl, rfl⟩, ?_⟩
    rw [hdropping] at hcounts
    exact hcounts.release

theorem Reachable.exact {c : Capacity} {s : Held} (h : Reachable c s) (hc : c.Fresh) :
    Exact c s := by
  induction h with
  | refl => exact ⟨.refl c, hc.counts⟩
  | tail _ hs ih => exact ih.step hs

end Held

/-- Above a limit of one, a client has at most half. -/
theorem new_perClient {max : UInt32} (h : 2 ≤ max) :
    0 < (Capacity.new max).perClient.toNat ∧ (Capacity.new max).perClient.toNat < max.toNat := by
  have hmax : 2 ≤ max.toNat := UInt32.le_iff_toNat_le.mp h
  have hhalf : (max / 2).toNat = max.toNat / 2 := UInt32.toNat_div max 2
  have hle : ¬ max / 2 < 1 := by
    rw [UInt32.lt_iff_toNat_lt, hhalf]
    show ¬ max.toNat / 2 < 1
    omega
  have heq : (Capacity.new max).perClient = max / 2 := if_neg hle
  rw [heq, hhalf]
  omega

/-- **The capacity's accounts are exact.**  After any acquires and drops, in any order and with each
    drop in two halves: the map has a counter for exactly the clients whose permits are out, with
    their number, so that no drop finds its counter missing or at zero; no client has more permits
    than `per_client`, and all together not more than `max`; a refused acquire changes nothing; when
    no drop is under way, the free slots are those of no permit; and under the limits of
    `Capacity::new`, a client that has all permits does not keep another from having one. -/
theorem capacity_exact {c : Capacity} (hc : c.Fresh) {s : Held} (h : Held.Reachable c s) :
    (∀ k, s.capacity.counter k = if s.live.count k = 0 then none else some (s.live.count k)) ∧
    (∀ k ∈ s.live, ∃ c', s.capacity.decrement k = .ok c') ∧
    (∀ k, s.live.count k ≤ c.perClient.toNat) ∧ s.live.card ≤ c.max.toNat ∧
    (∀ client c', s.capacity.tryAcquire client = (none, c') → c' = s.capacity) ∧
    (s.dropping = 0 → s.capacity.permits + s.live.card = c.max.toNat) ∧
    ∀ max ipv6Prefix, c = { Capacity.new max with ipv6Prefix } → 2 ≤ max → s.dropping = 0 →
      ∀ key, (∀ k ∈ s.live, k = key) → ∀ client, clientKey client ipv6Prefix ≠ key →
        (s.capacity.tryAcquire client).1 = some (clientKey client ipv6Prefix) := by
  obtain ⟨halike, hcounts⟩ := h.exact hc
  have hslots := hcounts.slots
  rw [halike.max] at hslots
  refine ⟨hcounts.counter, fun k hk => ?_, fun k => ?_, by omega,
    fun client c' hr => Capacity.tryAcquire_none hr, fun hzero => by omega, ?_⟩
  · obtain ⟨c', hdone, -⟩ := hcounts.decrement hk
    exact ⟨c', hdone⟩
  · rw [← halike.perClient]
    exact hcounts.perClient k
  · intro max ipv6Prefix hnew hmax hzero key hall client hne
    obtain ⟨hpos, hlt⟩ := new_perClient hmax
    have hfront : s.capacity.ipv6Prefix = ipv6Prefix := by rw [halike.ipv6Prefix, hnew]
    have hperClient : s.capacity.perClient = (Capacity.new max).perClient := by
      rw [halike.perClient, hnew]
    have hmax' : s.capacity.max = max := by
      rw [halike.max, hnew]
      rfl
    -- one client has them all, so they are at most half
    have hall' : s.live.count key = s.live.card := Multiset.count_eq_card.mpr
      (fun k hk => (hall k hk).symm)
    have hkey := hcounts.perClient key
    have hother : s.live.count (clientKey client ipv6Prefix) = 0 :=
      Multiset.count_eq_zero.mpr (fun hmem => hne (hall _ hmem))
    rw [hall', hperClient] at hkey
    rw [← hfront] at hother ⊢
    obtain ⟨c', hgranted⟩ := hcounts.tryAcquire_room
      (by rw [hother, hperClient]; exact hpos) (by rw [hmax', hzero]; omega)
    rw [hgranted]

/-- With a capacity of two, the second client is admitted while the first has its permit. -/
theorem capacity_exact_two :
    let c := Capacity.new 2
    let first := IpAddr.v4 0xc0000201
    ∃ s, Held.Reachable c s ∧ s.live = {first} ∧
      (s.capacity.tryAcquire (.v4 0xc0000202)).1 = some (.v4 0xc0000202) := by
  intro c first
  have hreach : Held.Reachable c { capacity := (c.tryAcquire first).2, live := {first} } :=
    .single (.acquire (show c.tryAcquire first = (some first, (c.tryAcquire first).2) from rfl))
  have hc : c.Fresh := ⟨rfl, rfl⟩
  refine ⟨_, hreach, rfl, ?_⟩
  obtain ⟨-, -, -, -, -, -, hother⟩ := capacity_exact hc hreach
  exact hother 2 64 rfl (by decide) rfl first (fun k hk => Multiset.mem_singleton.mp hk) _ (by decide)

end Geata.Admission
