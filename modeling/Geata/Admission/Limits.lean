import Geata.Admission.Tallies

namespace Geata.Admission

open Geata.Lib Geata.RateLimit Geata.Lightning

/-!
# The limits of issuance

The books of the last module bound the permits: each one is in a counter and has a slot, and those
are limited.

* `receiverCounter_eq`, `receiverFree_eq` — the counters of an endpoint, from the permits there are.
* `acquire_steps` — a call without anything in between is a run.
* `issuance_limits` — the limits hold in every state.
-/

/-- Some permit is out, at whatever capacity. -/
def Phase.out : Phase → Bool
  | .live _ => true
  | _ => false

/-- Some slot is taken, at whatever capacity. -/
def Phase.slot : Phase → Bool
  | .live _ | .decremented _ => true
  | _ => false

/-- The calls of one endpoint. -/
def endpoint (key : String) (calls : Multiset Call) : Multiset Call :=
  calls.filter (fun c => c.key = some key)

/-- The clients of the permits that are out for one endpoint. -/
def permits (key : String) (calls : Multiset Call) : Multiset IpAddr :=
  clients Phase.out (endpoint key calls)

namespace Issuance

/-- What an endpoint has counted for a client. -/
def receiverCounter (s : Issuance) (key : String) (k : IpAddr) : ℕ :=
  match s.receivers.lookup key with
  | some id => ((s.heap[id]?.bind (fun shared => shared.capacity.counter k)).getD 0)
  | none => 0

/-- The free slots of an endpoint. -/
def receiverFree (s : Issuance) (key : String) : ℕ :=
  match s.receivers.lookup key with
  | some id => (s.heap[id]?.map (fun shared => shared.capacity.permits)).getD 8
  | none => 8

/-- All counters are the same. -/
structure SameCounters (s s' : Issuance) : Prop where
  global : ∀ k, s'.global.counter k = s.global.counter k
  free : s'.global.permits = s.global.permits
  receiver : ∀ key k, s'.receiverCounter key k = s.receiverCounter key k
  receiverFree : ∀ key, s'.receiverFree key = s.receiverFree key

end Issuance

section

variable {normalize : String → Except String String} {s s' : Issuance} {key : String} {k : IpAddr}
  {id : ℕ}

/-- The clients of the calls at the capacity of an endpoint are those of the endpoint's calls. -/
theorem clients_endpoint {p : ℕ → Phase → Bool} {q : Phase → Bool} (h : Sound s)
    (hp : ∀ id phase, p id phase = true → phase.holds id = true ∧ q phase = true)
    (hq : ∀ phase, q phase = true → ∃ id, p id phase = true)
    (hk : s.receivers.lookup key = some id) :
    clients q (endpoint key s.calls) = clients (p id) s.calls := by
  unfold clients endpoint
  rw [Multiset.filter_filter]
  congr 1
  refine Multiset.filter_congr (fun call hc => ?_)
  constructor
  · rintro ⟨hqc, hkey⟩
    obtain ⟨id', hid'⟩ := hq _ hqc
    obtain ⟨key', hkey', hk'⟩ := h.table.refers call hc id' (hp id' _ hid').1
    obtain rfl := Option.some.inj (hkey.symm.trans hkey')
    obtain rfl := Option.some.inj (hk.symm.trans hk')
    exact hid'
  · intro hpc
    obtain ⟨key', hkey', hk'⟩ := h.table.refers call hc id (hp id _ hpc).1
    rw [h.table.apart key key' id hk hk']
    exact ⟨(hp id _ hpc).2, hkey'⟩

theorem permits_eq (h : Sound s) (hk : s.receivers.lookup key = some id) :
    permits key s.calls = clients (Phase.isLive id) s.calls := by
  refine clients_endpoint h (fun id phase hl => ?_) (fun phase hl => ?_) hk
  · cases phase <;> first | exact ⟨hl, rfl⟩ | exact absurd hl Bool.false_ne_true
  · cases phase <;> first | exact ⟨_, beq_self_eq_true _⟩ | exact absurd hl Bool.false_ne_true

theorem slots_eq (h : Sound s) (hk : s.receivers.lookup key = some id) :
    clients Phase.slot (endpoint key s.calls) = clients (Phase.slotted id) s.calls := by
  refine clients_endpoint h (fun id phase hl => ?_) (fun phase hl => ?_) hk
  · cases phase <;> first | exact ⟨hl, rfl⟩ | exact absurd hl Bool.false_ne_true
  · cases phase <;> first | exact ⟨_, beq_self_eq_true _⟩ | exact absurd hl Bool.false_ne_true

/-- An endpoint that is not in the table has no permits. -/
theorem slots_eq_zero (h : Sound s) (hk : s.receivers.lookup key = none) :
    clients Phase.slot (endpoint key s.calls) = 0 := by
  refine clients_eq_zero (fun call hc => ?_)
  obtain ⟨hc, hkey⟩ := Multiset.mem_filter.mp hc
  by_contra hs
  rw [Bool.not_eq_false] at hs
  have hholds : ∃ id, call.phase.holds id = true := by
    cases hphase : call.phase <;> rw [hphase] at hs <;>
      first | exact ⟨_, beq_self_eq_true _⟩ | exact absurd hs Bool.false_ne_true
  obtain ⟨id, hid⟩ := hholds
  obtain ⟨key', hkey', hk'⟩ := h.table.refers call hc id hid
  obtain rfl := Option.some.inj (hkey.symm.trans hkey')
  rw [hk] at hk'
  exact absurd hk' (by simp)

/-- A permit has a slot. -/
theorem permits_le_slots (key : String) (calls : Multiset Call) :
    permits key calls ≤ clients Phase.slot (endpoint key calls) := by
  refine Multiset.map_le_map (Multiset.monotone_filter_right _ (fun call ho => ?_))
  cases hphase : call.phase <;> rw [hphase] at ho <;>
    first | rfl | exact absurd ho Bool.false_ne_true

/-- What the table and the heap say of an endpoint. -/
theorem Sound.tallied (h : Sound s) (hk : s.receivers.lookup key = some id) :
    ∃ shared, s.heap[id]? = some shared ∧ receiverLimits.Alike shared.capacity ∧
      shared.capacity.Counts (permits key s.calls)
        (clients Phase.slot (endpoint key s.calls)).card := by
  have hlt := h.table.bound key id hk
  have hid : s.heap[id]? = some s.heap[id] := List.getElem?_eq_getElem hlt
  obtain ⟨hlimits, hcounts, -⟩ := h.heap id _ hid
  rw [permits_eq h hk, slots_eq h hk]
  exact ⟨_, hid, hlimits, hcounts⟩

theorem receiverCounter_eq (h : Sound s) (key : String) (k : IpAddr) :
    s.receiverCounter key k = (permits key s.calls).count k := by
  unfold Issuance.receiverCounter
  cases hk : s.receivers.lookup key with
  | some id =>
    obtain ⟨shared, hid, -, hcounts⟩ := h.tallied hk
    show ((s.heap[id]?.bind _).getD 0) = _
    rw [hid]
    show (shared.capacity.counter k).getD 0 = _
    rw [hcounts.counter k]
    split
    · rename_i hzero
      rw [hzero]
      rfl
    · rfl
  | none =>
    have hnone := slots_eq_zero h hk
    have hle := permits_le_slots key s.calls
    rw [hnone, Multiset.le_zero] at hle
    rw [hle]
    rfl

theorem receiverFree_eq (h : Sound s) (key : String) :
    s.receiverFree key + (clients Phase.slot (endpoint key s.calls)).card = 8 := by
  unfold Issuance.receiverFree
  cases hk : s.receivers.lookup key with
  | some id =>
    obtain ⟨shared, hid, hlimits, hcounts⟩ := h.tallied hk
    show (s.heap[id]?.map _).getD 8 + _ = 8
    rw [hid]
    have hslots := hcounts.slots
    rw [hlimits.max] at hslots
    exact hslots
  | none =>
    rw [slots_eq_zero h hk]
    rfl

/-- The counters are a function of the calls there are. -/
theorem sameCounters (h : Sound s) (h' : Sound s') (hcalls : s'.calls = s.calls) :
    s.SameCounters s' := by
  have hslots := h.global.counts.slots
  have hslots' := h'.global.counts.slots
  rw [h'.global.limits.max, hcalls] at hslots'
  rw [h.global.limits.max] at hslots
  refine ⟨fun k => ?_, by omega, fun key k => ?_, fun key => ?_⟩
  · rw [h.global.counts.counter, h'.global.counts.counter, hcalls]
  · rw [receiverCounter_eq h, receiverCounter_eq h', hcalls]
  · have hfree := receiverFree_eq h key
    have hfree' := receiverFree_eq h' key
    rw [hcalls] at hfree'
    omega

/-! ### A call without anything in between -/

variable {client : IpAddr} {rest : Multiset Call} {locked : Bool} {calls : Multiset Call}

theorem foldl_purge (keys : List String) (s : Issuance) (locked : Bool) (calls : Multiset Call) :
    keys.foldl Issuance.purge { s with locked, calls } =
      { keys.foldl Issuance.purge s with locked, calls } := by
  induction keys generalizing s with
  | nil => rfl
  | cons key keys ih => exact ih (s.purge key)

theorem foldl_purge_moved (keys : List String) (s : Issuance) (call : Call) (rest : Multiset Call) :
    keys.foldl Issuance.purge (s.moved call rest) = (keys.foldl Issuance.purge s).moved call rest := by
  induction keys generalizing s with
  | nil => rfl
  | cons key keys ih => exact ih (s.purge key)

theorem upgrade_with (s : Issuance) (key : String) (locked : Bool) (calls : Multiset Call) :
    Issuance.upgrade { s with locked, calls } key =
      ((s.upgrade key).1, { (s.upgrade key).2 with locked, calls }) := by
  have hfind : Issuance.find { s with locked, calls } key = s.find key := rfl
  unfold Issuance.upgrade
  rw [hfind]
  cases s.find key <;> rfl

/-- Neither purging nor finding a capacity touches the lock or the calls. -/
theorem upgrade_purge_aside (keys : List String) (s : Issuance) (key : String) :
    ((keys.foldl Issuance.purge s).upgrade key).2.locked = s.locked ∧
      ((keys.foldl Issuance.purge s).upgrade key).2.calls = s.calls := by
  have hpurge := foldl_purge keys s s.locked s.calls
  have hupgrade := upgrade_with (keys.foldl Issuance.purge s) key s.locked s.calls
  have hs : { s with locked := s.locked, calls := s.calls } = s := rfl
  rw [hs] at hpurge
  rw [← hpurge] at hupgrade
  rw [hupgrade]
  exact ⟨rfl, rfl⟩

/-- The capacity that is found or made. -/
theorem upgrade_shared (s : Issuance) (key : String) :
    (s.upgrade key).2.heap[(s.upgrade key).1.1]? = some (s.upgrade key).1.2 := by
  unfold Issuance.upgrade
  cases hfind : s.find key with
  | some found =>
    obtain ⟨id, shared⟩ := found
    have hlt := (List.getElem?_eq_some_iff.mp (find_eq_some hfind).2).1
    exact List.getElem?_set_self hlt
  | none => exact List.getElem?_concat_length

theorem purge_steps {t : Issuance} {keys : List String}
    (here : t.calls = ⟨some key, client, .purging keys⟩ ::ₘ rest) :
    Relation.ReflTransGen (Issuance.Step normalize) t
      ((keys.foldl Issuance.purge t).moved ⟨some key, client, .purging []⟩ rest) := by
  induction keys generalizing t with
  | nil =>
    have heq : t.moved ⟨some key, client, .purging []⟩ rest = t := by
      rw [Issuance.moved, ← here]
    exact heq ▸ .refl
  | cons dead keys ih =>
    have hsteps := ih (t := (t.purge dead).moved ⟨some key, client, .purging keys⟩ rest) rfl
    rw [foldl_purge_moved] at hsteps
    exact .head (.purge here) hsteps

/-- A call that fails gives its global permit back. -/
theorem leave_steps {t : Issuance} {key : Option String} (ht : Sound t)
    (here : t.calls = ⟨key, client, .detached⟩ ::ₘ rest) :
    Relation.ReflTransGen (Issuance.Step normalize) t
      { t.leave (clientKey client 64) with calls := rest } := by
  have hcounts := ht.global.counts
  rw [here, clients_cons_of rfl] at hcounts
  obtain ⟨c, hdone, -⟩ := hcounts.decrement (Multiset.mem_cons_self _ _)
  unfold Issuance.leave
  rw [hdone]
  exact .head (.leave here hdone) (.single (.gone rfl))

theorem leave_with (s : Issuance) (k : IpAddr) (locked : Bool) (calls : Multiset Call) :
    Issuance.leave { s with locked, calls } k = { s.leave k with locked, calls } := by
  unfold Issuance.leave
  dsimp only
  cases s.global.decrement k <;> rfl

/-- The end of a call that fails. -/
theorem fail_steps {t : Issuance} {key : Option String}
    (ht : Sound (t.moved ⟨key, client, .detached⟩ t.calls)) :
    Relation.ReflTransGen (Issuance.Step normalize) (t.moved ⟨key, client, .detached⟩ t.calls)
      (t.leave (clientKey client 64)) := by
  have hsteps : Relation.ReflTransGen (Issuance.Step normalize) _ _ := leave_steps ht rfl
  have heq := leave_with t (clientKey client 64) t.locked t.calls
  have hmoved := leave_with t (clientKey client 64) t.locked (⟨key, client, .detached⟩ ::ₘ t.calls)
  have ht : { t with locked := t.locked, calls := t.calls } = t := rfl
  rw [ht] at heq
  rw [heq]
  show Relation.ReflTransGen _ _ _
  rw [Issuance.moved, hmoved] at hsteps
  exact hsteps

/-- Up to the capacity of the endpoint, which is found under the lock. -/
theorem found_steps {t : Issuance} (hfree : t.locked = false) :
    Relation.ReflTransGen (Issuance.Step normalize) (t.moved ⟨some key, client, .entered⟩ rest)
      { ((t.receivers.keys.foldl Issuance.purge t).upgrade key).2 with
        locked := true
        calls := ⟨some key, client,
          .found ((t.receivers.keys.foldl Issuance.purge t).upgrade key).1.1⟩ ::ₘ rest } := by
  let u : Issuance :=
    { t with locked := true, calls := ⟨some key, client, .purging t.receivers.keys⟩ ::ₘ rest }
  have hpurge : Relation.ReflTransGen (Issuance.Step normalize) u
      ((t.receivers.keys.foldl Issuance.purge u).moved ⟨some key, client, .purging []⟩ rest) :=
    purge_steps rfl
  refine .head (.lock rfl hfree (.refl _)) (hpurge.tail ?_)
  have hfold := foldl_purge t.receivers.keys t true u.calls
  have hu : { t with locked := true, calls := u.calls } = u := rfl
  rw [hu] at hfold
  rw [hfold]
  let purged : Issuance := { t.receivers.keys.foldl Issuance.purge t with
    locked := true, calls := ⟨some key, client, .purging []⟩ ::ₘ rest }
  have hstep : Issuance.Step normalize purged
      ((purged.upgrade key).2.moved ⟨some key, client, .found (purged.upgrade key).1.1⟩ rest) :=
    .upgrade rfl
  rw [upgrade_with] at hstep
  exact hstep

/-- What follows under the lock: a permit. -/
theorem grant_steps {u : Issuance} {shared : Shared} {id : ℕ} {c : Capacity} {k : IpAddr}
    (hfree : u.locked = false) (hshared : u.heap[id]? = some shared)
    (hc : shared.capacity.tryAcquire client = (some k, c)) :
    Relation.ReflTransGen (Issuance.Step normalize)
      { u with locked := true, calls := ⟨some key, client, .found id⟩ ::ₘ u.calls }
      { u with
        heap := u.heap.set id { shared with capacity := c }
        calls := ⟨some key, client, .live id⟩ ::ₘ u.calls } := by
  have hstep : Issuance.Step normalize
      { u with locked := true, calls := ⟨some key, client, .found id⟩ ::ₘ u.calls } _ :=
    .grant rfl hshared hc
  rw [← hfree] at hstep
  exact .single hstep

/-- Or none. -/
theorem refuse_steps {u : Issuance} {shared : Shared} {id : ℕ} {c : Capacity}
    (hu : Sound { u with locked := true, calls := ⟨some key, client, .found id⟩ ::ₘ u.calls })
    (hfree : u.locked = false) (hshared : u.heap[id]? = some shared)
    (hc : shared.capacity.tryAcquire client = (none, c)) :
    Relation.ReflTransGen (Issuance.Step normalize)
      { u with locked := true, calls := ⟨some key, client, .found id⟩ ::ₘ u.calls }
      (Issuance.leave (Issuance.detach
        { u with heap := u.heap.set id { shared with capacity := c } } id) (clientKey client 64)) := by
  have hrefuse : Issuance.Step normalize
      { u with locked := true, calls := ⟨some key, client, .found id⟩ ::ₘ u.calls } _ :=
    .refuse rfl hshared hc
  have hunlock : Issuance.Step normalize { u with
      locked := true
      heap := u.heap.set id { shared with capacity := c }
      calls := ⟨some key, client, .refused id⟩ ::ₘ u.calls } _ := .unlock rfl
  rw [← hfree] at hunlock
  have hsteps := Relation.ReflTransGen.head hrefuse (.single hunlock)
  exact hsteps.trans (fail_steps (t := Issuance.detach
    { u with heap := u.heap.set id { shared with capacity := c } } id) (hu.steps hsteps))

/-- A call without anything in between is a run. -/
theorem acquire_steps (h : Sound s) (hfree : s.locked = false) (receiver : ReceiverConfig)
    (client : IpAddr) :
    Relation.ReflTransGen (Issuance.Step normalize) s (s.acquire normalize receiver client).2 := by
  unfold Issuance.acquire
  cases hglobal : s.global.tryAcquire client with
  | mk granted c =>
  cases granted with
  | none => exact .single (.full hglobal)
  | some k =>
    obtain ⟨hk, -⟩ := h.global.counts.tryAcquire_some hglobal
    rw [h.global.limits.ipv6Prefix] at hk
    subst hk
    have henter : Issuance.Step normalize s _ := .enter receiver hglobal
    cases hkey : receiverKey normalize receiver with
    | error e =>
      rw [hkey] at henter
      have hsteps := Relation.ReflTransGen.head henter (.single (.invalid rfl))
      exact hsteps.trans (fail_steps (t := { s with global := c }) (h.steps hsteps))
    | ok key =>
      rw [hkey] at henter
      have hfound := Relation.ReflTransGen.head henter
        (found_steps (t := { s with global := c }) hfree)
      have hshared := upgrade_shared (s.receivers.keys.foldl Issuance.purge { s with global := c }) key
      obtain ⟨hlocked, hcalls⟩ := upgrade_purge_aside s.receivers.keys { s with global := c } key
      simp only
      generalize (s.receivers.keys.foldl Issuance.purge { s with global := c }).upgrade key = found at *
      obtain ⟨⟨id, shared⟩, u⟩ := found
      simp only at hshared hlocked hcalls hfound ⊢
      rw [← hcalls] at hfound
      rw [hfree] at hlocked
      cases hreceiver : shared.capacity.tryAcquire client with
      | mk granted c' =>
      cases granted with
      | none => exact hfound.trans (refuse_steps (h.steps hfound) hlocked hshared hreceiver)
      | some k' => exact hfound.trans (grant_steps hlocked hshared hreceiver)

/-- A call that fails leaves no call behind. -/
theorem acquire_error {receiver : ReceiverConfig} {client : IpAddr} {e : String}
    (h : s.acquire normalize receiver client = (.error e, s')) : s'.calls = s.calls := by
  have hleave : ∀ (s : Issuance) (k : IpAddr), (s.leave k).calls = s.calls := by
    intro s k
    unfold Issuance.leave
    split <;> rfl
  unfold Issuance.acquire at h
  split at h
  · rw [← (Prod.mk.inj h).2]
  · simp only at h
    split at h
    · rw [← (Prod.mk.inj h).2, hleave]
    · split at h
      · rw [← (Prod.mk.inj h).2, hleave]
        exact (upgrade_purge_aside s.receivers.keys _ _).2
      · exact absurd (Prod.mk.inj h).1 (by simp)

/-- When no permit is out, a call succeeds. -/
theorem acquire_ok (h : Sound s) (hcalls : s.calls = 0) (hfree : s.locked = false)
    {receiver : ReceiverConfig} (hkey : receiverKey normalize receiver = .ok key) (client : IpAddr) :
    (s.acquire normalize receiver client).1 = .ok () := by
  have hcounts := h.global.counts
  rw [hcalls] at hcounts
  obtain ⟨c, hglobal⟩ : ∃ c, s.global.tryAcquire client = (some (clientKey client 64), c) := by
    have hfront := h.global.limits.ipv6Prefix
    rw [← show s.global.ipv6Prefix = 64 from hfront]
    refine hcounts.tryAcquire_room ?_ ?_
    · rw [h.global.limits.perClient]
      exact Nat.succ_pos 7
    · rw [h.global.limits.max]
      exact Nat.succ_pos 63
  have henter : Issuance.Step normalize s _ := .enter receiver hglobal
  rw [hkey] at henter
  have hfound := Relation.ReflTransGen.head henter
    (found_steps (t := { s with global := c }) hfree)
  have hshared := upgrade_shared (s.receivers.keys.foldl Issuance.purge { s with global := c }) key
  unfold Issuance.acquire
  rw [hglobal]
  simp only [hkey]
  generalize (s.receivers.keys.foldl Issuance.purge { s with global := c }).upgrade key = found at *
  obtain ⟨⟨id, shared⟩, u⟩ := found
  simp only at hshared hfound ⊢
  -- the capacity of the endpoint has no permit out either
  obtain ⟨hlimits, hreceiver, -⟩ := (h.steps hfound).heap id shared hshared
  rw [clients_cons_not rfl, clients_cons_not rfl, hcalls] at hreceiver
  obtain ⟨c', hgranted⟩ := hreceiver.tryAcquire_room
    (by rw [hlimits.perClient]; exact Nat.succ_pos 1) (by rw [hlimits.max]; exact Nat.succ_pos 7)
  rw [hgranted]

/-- **The limits of issuance.**  After any calls and drops, with their steps in any order: an endpoint
    has at most 8 permits out and 2 for a client, and all receivers together 64 and 8; the slots that
    are taken for one endpoint are slots of one capacity; a call that fails leaves every counter as it
    was, also when it comes and goes between the steps of others; and when no permit is out, the lock
    is free and a call succeeds.  A configured receiver has a key, as its endpoint has been parsed
    before. -/
theorem issuance_limits (h : Issuance.Reachable normalize s) :
    (∀ key, (permits key s.calls).card ≤ 8 ∧ ∀ k, (permits key s.calls).count k ≤ 2) ∧
    ((clients Phase.out s.calls).card ≤ 64 ∧ ∀ k, (clients Phase.out s.calls).count k ≤ 8) ∧
    (∀ call ∈ s.calls, ∀ call' ∈ s.calls, call.key = call'.key → ∀ id id',
      call.phase.slotted id = true → call'.phase.slotted id' = true → id = id') ∧
    (∀ s', Relation.ReflTransGen (Issuance.Step normalize) s s' → s'.calls = s.calls →
      s.SameCounters s') ∧
    (∀ receiver client e s', s.locked = false →
      s.acquire normalize receiver client = (.error e, s') → s.SameCounters s') ∧
    (s.calls = 0 → s.locked = false ∧ ∀ receiver key, receiverKey normalize receiver = .ok key →
      ∀ client, (s.acquire normalize receiver client).1 = .ok ()) := by
  have hs : Sound s := sound_empty.steps h
  refine ⟨fun key => ?_, ⟨?_, fun k => ?_⟩, ?_, fun s' hsteps hcalls =>
    sameCounters hs (hs.steps hsteps) hcalls, fun receiver client e s' hfree he => ?_, fun hcalls => ?_⟩
  · have hle := permits_le_slots key s.calls
    have hfree := receiverFree_eq hs key
    refine ⟨(Multiset.card_le_card hle).trans (by omega), fun k => ?_⟩
    cases hk : s.receivers.lookup key with
    | some id =>
      obtain ⟨shared, -, hlimits, hcounts⟩ := hs.tallied hk
      have hclient := hcounts.perClient k
      rw [hlimits.perClient] at hclient
      exact hclient
    | none =>
      rw [slots_eq_zero hs hk, Multiset.le_zero] at hle
      rw [hle]
      exact Nat.zero_le 2
  · have hslots := hs.global.counts.slots
    rw [hs.global.limits.max] at hslots
    have hcard : s.calls.card ≤ 64 := (Nat.le_add_left _ _).trans hslots.le
    rw [clients, Multiset.card_map]
    exact (Multiset.card_le_card (Multiset.filter_le _ _)).trans hcard
  · have hclient := hs.global.counts.perClient k
    rw [hs.global.limits.perClient] at hclient
    refine (Multiset.count_le_of_le k (Multiset.map_le_map ?_)).trans hclient
    refine Multiset.monotone_filter_right _ (fun call ho => ?_)
    cases hphase : call.phase <;> rw [hphase] at ho <;>
      first | rfl | exact absurd ho Bool.false_ne_true
  · intro call hc call' hc' hsame id id' hid hid'
    have hholds : ∀ {phase : Phase} {id : ℕ}, phase.slotted id = true → phase.holds id = true := by
      intro phase id hs
      cases phase <;> first | exact hs | exact absurd hs Bool.false_ne_true
    obtain ⟨key, hkey, hk⟩ := hs.table.refers call hc id (hholds hid)
    obtain ⟨key', hkey', hk'⟩ := hs.table.refers call' hc' id' (hholds hid')
    obtain rfl := Option.some.inj ((hkey.symm.trans hsame).trans hkey')
    exact Option.some.inj (hk.symm.trans hk')
  · have hsteps : Relation.ReflTransGen (Issuance.Step normalize) s _ :=
      acquire_steps hs hfree receiver client
    rw [he] at hsteps
    exact sameCounters hs (hs.steps hsteps) (acquire_error he)
  · have hfree : s.locked = false := by
      have hlock := hs.lock
      rw [hcalls] at hlock
      cases hl : s.locked with
      | false => rfl
      | true =>
        rw [hl] at hlock
        exact absurd hlock (by show ¬ 0 = 1; decide)
    exact ⟨hfree, fun receiver key hkey client => acquire_ok hs hcalls hfree hkey client⟩

end

/-- A client has two permits of a mint; its third call is refused, and changes no counter. -/
theorem issuance_limits_refused :
    let receiver := ReceiverConfig.cashu "https://mint.example" .mainnet
    let client := IpAddr.v4 0xc0000201
    let s₁ := (Issuance.acquire .ok {} receiver client).2
    let s₂ := (s₁.acquire .ok receiver client).2
    (permits "cashu:https://mint.example" s₂.calls).count client = 2 ∧
      ∃ s₃, s₂.acquire .ok receiver client = (.error "receiver invoice issuance at capacity", s₃) ∧
        s₂.SameCounters s₃ := by
  intro receiver client s₁ s₂
  have hfirst : Issuance.Reachable .ok s₁ := acquire_steps sound_empty rfl receiver client
  have hsecond : Issuance.Reachable .ok s₂ :=
    hfirst.trans (acquire_steps (sound_empty.steps hfirst) rfl receiver client)
  obtain ⟨s₃, hthird⟩ : ∃ s₃, s₂.acquire .ok receiver client =
      (.error "receiver invoice issuance at capacity", s₃) := ⟨_, rfl⟩
  obtain ⟨hpermits, -, -, -, hrefused, -⟩ := issuance_limits hsecond
  refine ⟨le_antisymm ((hpermits _).2 client) (by decide +kernel), s₃, hthird, ?_⟩
  exact hrefused receiver client _ s₃ rfl hthird

end Geata.Admission
