import Geata.Admission.Issuance

namespace Geata.Admission

open Geata.Lib Geata.RateLimit

/-!
# The books of issuance

The counters, the reference counts and the table of endpoints are functions of the calls and permits
there are, up to how far each of them has come.

* `clients` — the clients of the calls in some phases.
* `GlobalOk`, `HeapOk`, `TableOk`, `LockOk` — what each part of the state says of them.
* `Sound.steps` — every step keeps this.
-/

/-! ### The tallies of the calls -/

namespace Phase

/-- Its client's global counter counts it. -/
def counted : Phase → Bool
  | .leaving => false
  | _ => true

/-- Its client's counter at this capacity counts it. -/
def isLive (id : ℕ) : Phase → Bool
  | .live i => i == id
  | _ => false

/-- It has a slot of this capacity. -/
def slotted (id : ℕ) : Phase → Bool
  | .live i | .decremented i => i == id
  | _ => false

/-- It has a reference to this capacity. -/
def holds (id : ℕ) : Phase → Bool
  | .found i | .refused i | .live i | .decremented i | .returned i => i == id
  | _ => false

/-- It has the lock. -/
def locking : Phase → Bool
  | .purging _ | .found _ | .refused _ => true
  | _ => false

end Phase

/-- The identities of the clients of the calls in some phases. -/
def clients (p : Phase → Bool) (calls : Multiset Call) : Multiset IpAddr :=
  (calls.filter (fun c => p c.phase)).map (fun c => clientKey c.client 64)

section

variable {p : Phase → Bool} {calls rest : Multiset Call} {key : Option String} {client : IpAddr}
  {phase phase' : Phase} {id id' : ℕ} {shared : Shared} {heap : List Shared} {global : Capacity}
  {receivers : Map String ℕ} {size : ℕ}

theorem clients_cons_of (h : p phase = true) :
    clients p (⟨key, client, phase⟩ ::ₘ rest) = clientKey client 64 ::ₘ clients p rest := by
  have hp : (fun c : Call => p c.phase = true) ⟨key, client, phase⟩ := h
  unfold clients
  rw [Multiset.filter_cons_of_pos rest hp, Multiset.map_cons]

theorem clients_cons_not (h : p phase = false) :
    clients p (⟨key, client, phase⟩ ::ₘ rest) = clients p rest := by
  have hp : ¬ (fun c : Call => p c.phase = true) ⟨key, client, phase⟩ :=
    fun ht => Bool.false_ne_true (h.symm.trans ht)
  unfold clients
  rw [Multiset.filter_cons_of_neg rest hp]

/-- A call that moves between phases that a tally does not tell apart. -/
theorem clients_moved {key' : Option String} (h : p phase' = p phase) :
    clients p (⟨key', client, phase'⟩ ::ₘ rest) = clients p (⟨key, client, phase⟩ ::ₘ rest) := by
  cases hp : p phase with
  | true => rw [clients_cons_of hp, clients_cons_of (h.trans hp)]
  | false => rw [clients_cons_not hp, clients_cons_not (h.trans hp)]

theorem card_clients_pos {call : Call} (hc : call ∈ calls) (h : p call.phase = true) :
    0 < (clients p calls).card := by
  rw [clients, Multiset.card_map, Multiset.card_pos_iff_exists_mem]
  exact ⟨call, Multiset.mem_filter.mpr ⟨hc, h⟩⟩

theorem clients_eq_zero (h : ∀ call ∈ calls, p call.phase = false) : clients p calls = 0 := by
  rw [clients, Multiset.filter_eq_nil.mpr, Multiset.map_zero]
  intro call hc
  rw [h call hc]
  exact Bool.false_ne_true

/-! ### What the state says of the calls -/

/-- The global counters. -/
structure GlobalOk (global : Capacity) (calls : Multiset Call) : Prop where
  limits : globalLimits.Alike global
  counts : global.Counts (clients Phase.counted calls) calls.card

/-- The counters and references of one endpoint's capacity. -/
structure Tallied (calls : Multiset Call) (id : ℕ) (shared : Shared) : Prop where
  limits : receiverLimits.Alike shared.capacity
  counts : shared.capacity.Counts (clients (Phase.isLive id) calls)
    (clients (Phase.slotted id) calls).card
  strong : shared.strong = (clients (Phase.holds id) calls).card

def HeapOk (heap : List Shared) (calls : Multiset Call) : Prop :=
  ∀ id shared, heap[id]? = some shared → Tallied calls id shared

/-- **The table leads every call to the capacity it has a reference to**, so calls of one endpoint
    have the same. -/
structure TableOk (receivers : Map String ℕ) (size : ℕ) (calls : Multiset Call) : Prop where
  refers : ∀ call ∈ calls, ∀ id, call.phase.holds id = true →
    ∃ key, call.key = some key ∧ receivers.lookup key = some id
  apart : ∀ key key' id, receivers.lookup key = some id → receivers.lookup key' = some id → key = key'
  bound : ∀ key id, receivers.lookup key = some id → id < size

/-- At most one call has the lock. -/
def LockOk (locked : Bool) (calls : Multiset Call) : Prop :=
  (clients Phase.locking calls).card = if locked then 1 else 0

structure Sound (s : Issuance) : Prop where
  global : GlobalOk s.global s.calls
  heap : HeapOk s.heap s.calls
  table : TableOk s.receivers s.heap.length s.calls
  lock : LockOk s.locked s.calls

/-! ### The global counters -/

theorem GlobalOk.moved {key' : Option String} (h : GlobalOk global (⟨key, client, phase⟩ ::ₘ rest))
    (hp : phase'.counted = phase.counted) : GlobalOk global (⟨key', client, phase'⟩ ::ₘ rest) := by
  refine ⟨h.limits, ?_⟩
  rw [clients_moved hp, Multiset.card_cons, ← Multiset.card_cons ⟨key, client, phase⟩ rest]
  exact h.counts

theorem GlobalOk.step {normalize : String → Except String String} {s s' : Issuance}
    (h : GlobalOk s.global s.calls) (hs : Issuance.Step normalize s s') :
    GlobalOk s'.global s'.calls := by
  cases hs with
  | @enter receiver client k c granted =>
    obtain ⟨hk, halike, hcounts⟩ := h.counts.tryAcquire_some granted
    rw [h.limits.ipv6Prefix] at hk
    subst hk
    refine ⟨h.limits.trans halike, ?_⟩
    show c.Counts (clients Phase.counted (⟨_, client, .entered⟩ ::ₘ s.calls)) (Multiset.card (_ ::ₘ s.calls))
    rw [clients_cons_of rfl, Multiset.card_cons]
    exact hcounts
  | full refused =>
    obtain rfl := Capacity.tryAcquire_none refused
    exact h
  | @leave key client rest c here done =>
    rw [here] at h
    have hcounts := h.counts
    rw [clients_cons_of rfl] at hcounts
    obtain ⟨c', hdone, halike, hcounts'⟩ := hcounts.decrement (Multiset.mem_cons_self _ _)
    obtain rfl := Except.ok.inj (done.symm.trans hdone)
    refine ⟨h.limits.trans halike, ?_⟩
    show c.Counts (clients Phase.counted (⟨_, client, .leaving⟩ ::ₘ rest)) (Multiset.card (_ ::ₘ rest))
    rw [Multiset.erase_cons_head, Multiset.card_cons] at hcounts'
    rw [clients_cons_not rfl, Multiset.card_cons]
    exact hcounts'
  | @gone key client rest here =>
    rw [here] at h
    refine ⟨h.limits.trans ⟨rfl, rfl, rfl⟩, ?_⟩
    have hcounts := h.counts
    rw [clients_cons_not rfl, Multiset.card_cons] at hcounts
    exact hcounts.release
  | upgrade here =>
    rw [here] at h
    have hglobal : ∀ key, (s.upgrade key).2.global = s.global := by
      intro key
      unfold Issuance.upgrade
      split <;> rfl
    show GlobalOk (s.upgrade _).2.global _
    rw [hglobal]
    exact h.moved rfl
  | invalid here | lock here | purge here | grant here | refuse here | unlock here | decrement here
  | giveBack here | detach here =>
    rw [here] at h
    exact h.moved rfl

/-! ### The capacities of the endpoints -/

theorem Tallied.moved {key' : Option String} (h : Tallied (⟨key, client, phase⟩ ::ₘ rest) id shared)
    (hl : phase'.isLive id = phase.isLive id) (hs : phase'.slotted id = phase.slotted id)
    (hh : phase'.holds id = phase.holds id) :
    Tallied (⟨key', client, phase'⟩ ::ₘ rest) id shared := by
  refine ⟨h.limits, ?_, ?_⟩
  · rw [clients_moved hl, clients_moved hs]
    exact h.counts
  · rw [clients_moved hh]
    exact h.strong

/-- The phases in which a call has nothing to do with any endpoint's capacity. -/
def Phase.aloof (phase : Phase) : Prop :=
  ∀ id, phase.isLive id = false ∧ phase.slotted id = false ∧ phase.holds id = false

theorem HeapOk.aloof {key' : Option String} (h : HeapOk heap (⟨key, client, phase⟩ ::ₘ rest))
    (hp : phase.aloof) (hp' : phase'.aloof) : HeapOk heap (⟨key', client, phase'⟩ ::ₘ rest) := by
  intro id shared hid
  obtain ⟨hl, hs, hh⟩ := hp id
  obtain ⟨hl', hs', hh'⟩ := hp' id
  exact (h id shared hid).moved (hl'.trans hl.symm) (hs'.trans hs.symm) (hh'.trans hh.symm)

theorem heapOk_cons (hp : phase.aloof) :
    HeapOk heap (⟨key, client, phase⟩ ::ₘ rest) ↔ HeapOk heap rest := by
  refine forall₃_congr (fun id shared hid => ?_)
  obtain ⟨hl, hs, hh⟩ := hp id
  constructor
  · intro h
    refine ⟨h.limits, ?_, ?_⟩
    · rw [← clients_cons_not hl, ← clients_cons_not hs]
      exact h.counts
    · rw [← clients_cons_not hh]
      exact h.strong
  · intro h
    refine ⟨h.limits, ?_, ?_⟩
    · rw [clients_cons_not hl, clients_cons_not hs]
      exact h.counts
    · rw [clients_cons_not hh]
      exact h.strong

/-- The phases in which a call has to do with one endpoint's capacity at most. -/
def Phase.about (id : ℕ) (phase : Phase) : Prop :=
  ∀ id', id' ≠ id → phase.isLive id' = false ∧ phase.slotted id' = false ∧ phase.holds id' = false

theorem HeapOk.set {key' : Option String} (h : HeapOk heap (⟨key, client, phase⟩ ::ₘ rest))
    (hp : phase.about id) (hp' : phase'.about id)
    (hid : Tallied (⟨key', client, phase'⟩ ::ₘ rest) id shared) :
    HeapOk (heap.set id shared) (⟨key', client, phase'⟩ ::ₘ rest) := by
  intro id' shared' hid'
  rw [List.getElem?_set] at hid'
  split at hid'
  · subst id'
    split at hid'
    · obtain rfl := Option.some.inj hid'
      exact hid
    · exact absurd hid' (by simp)
  · rename_i hne
    obtain ⟨hl, hs, hh⟩ := hp id' (Ne.symm hne)
    obtain ⟨hl', hs', hh'⟩ := hp' id' (Ne.symm hne)
    exact (h id' shared' hid').moved (hl'.trans hl.symm) (hs'.trans hs.symm) (hh'.trans hh.symm)

/-- A reference that is released. -/
theorem HeapOk.detach {s : Issuance} (h : HeapOk s.heap (⟨key, client, phase⟩ ::ₘ rest))
    (hp : phase.about id) (hl : phase.isLive id = false) (hs : phase.slotted id = false)
    (hh : phase.holds id = true) :
    HeapOk (s.detach id).heap (⟨key, client, .detached⟩ ::ₘ rest) := by
  intro id' shared' hid'
  unfold Issuance.detach at hid'
  rw [List.getElem?_modify] at hid'
  obtain ⟨shared, hid, heq⟩ := Option.map_eq_some_iff.mp hid'
  split at heq
  · subst id'
    obtain ⟨hlimits, hcounts, hstrong⟩ := h id shared hid
    rw [← heq]
    refine ⟨hlimits, ?_, ?_⟩
    · rw [clients_cons_not rfl, clients_cons_not rfl]
      rw [clients_cons_not hl, clients_cons_not hs] at hcounts
      exact hcounts
    · rw [clients_cons_of hh, Multiset.card_cons] at hstrong
      rw [clients_cons_not rfl]
      show shared.strong - 1 = _
      omega
  · rename_i hne
    obtain ⟨hl', hs', hh'⟩ := hp id' (Ne.symm hne)
    rw [← heq]
    exact (h id' shared hid).moved hl'.symm hs'.symm hh'.symm

theorem find_eq_some {s : Issuance} {key : String} (h : s.find key = some (id, shared)) :
    s.receivers.lookup key = some id ∧ s.heap[id]? = some shared := by
  unfold Issuance.find at h
  obtain ⟨i, hi, h⟩ := Option.bind_eq_some_iff.mp h
  obtain ⟨sh, hsh, h⟩ := Option.bind_eq_some_iff.mp h
  split at h
  · exact absurd h (by simp)
  · obtain ⟨rfl, rfl⟩ := Prod.mk.inj (Option.some.inj h)
    exact ⟨hi, hsh⟩

/-- The capacity that a call refers to is in use. -/
theorem find_of_holds {s : Issuance} (hheap : HeapOk s.heap s.calls)
    (htable : TableOk s.receivers s.heap.length s.calls) {call : Call} (hc : call ∈ s.calls)
    (hh : call.phase.holds id = true) {key : String} (hk : s.receivers.lookup key = some id) :
    s.find key ≠ none := by
  have hlt := htable.bound key id hk
  have hid : s.heap[id]? = some s.heap[id] := List.getElem?_eq_getElem hlt
  have hstrong := (hheap id s.heap[id] hid).strong
  have hpos := card_clients_pos hc hh
  unfold Issuance.find
  rw [hk]
  show (s.heap[id]?.bind _) ≠ none
  rw [hid]
  show ite _ _ _ ≠ none
  rw [if_neg (by omega)]
  simp

/-- Finding or making the capacity of an endpoint. -/
theorem HeapOk.upgrade {s : Issuance} {key : String} (h : HeapOk s.heap s.calls)
    (htable : TableOk s.receivers s.heap.length s.calls)
    (here : s.calls = ⟨some key, client, .purging []⟩ ::ₘ rest) :
    HeapOk (s.upgrade key).2.heap (⟨some key, client, .found (s.upgrade key).1.1⟩ ::ₘ rest) := by
  unfold Issuance.upgrade
  cases hfind : s.find key with
  | some found =>
    obtain ⟨id, shared⟩ := found
    rw [here] at h
    obtain ⟨hlimits, hcounts, hstrong⟩ := h id shared (find_eq_some hfind).2
    show HeapOk (s.heap.set id _) (⟨some key, client, .found id⟩ ::ₘ rest)
    refine h.set (fun _ _ => ⟨rfl, rfl, rfl⟩) (fun id' hne => ⟨rfl, rfl, beq_false_of_ne hne.symm⟩)
      ⟨hlimits, ?_, ?_⟩
    · rw [clients_cons_not rfl, clients_cons_not rfl] at hcounts ⊢
      exact hcounts
    · rw [clients_cons_not rfl] at hstrong
      rw [clients_cons_of (beq_self_eq_true id), Multiset.card_cons, ← hstrong]
  | none =>
    intro id shared hid
    show Tallied (⟨some key, client, .found s.heap.length⟩ ::ₘ rest) id shared
    have hid : (s.heap ++ [{ capacity := receiverLimits, strong := 1 }])[id]? = some shared := hid
    rw [List.getElem?_append] at hid
    split at hid
    · -- an older one
      rename_i hlt
      have hother : Phase.holds id (.found s.heap.length) = false := beq_false_of_ne (Nat.ne_of_gt hlt)
      have htallied := h id shared hid
      rw [here] at htallied
      exact htallied.moved rfl rfl hother
    · -- the new one, which no other call knows
      rename_i hge
      have hzero : id = s.heap.length := by
        have hlt := (List.getElem?_eq_some_iff.mp hid).1
        rw [List.length_singleton] at hlt
        omega
      subst id
      rw [Nat.sub_self] at hid
      obtain rfl := Option.some.inj hid
      have hnobody : ∀ call ∈ s.calls, call.phase.holds s.heap.length = false := by
        intro call hc
        by_contra hh
        rw [Bool.not_eq_false] at hh
        obtain ⟨key', -, hk⟩ := htable.refers call hc _ hh
        exact Nat.lt_irrefl _ (htable.bound key' _ hk)
      have hnone : ∀ p : Phase → Bool, (∀ phase, p phase = true → phase.holds s.heap.length = true) →
          clients p rest = 0 := by
        intro p hp
        refine clients_eq_zero (fun call hc => ?_)
        have hcall := hnobody call (by rw [here]; exact Multiset.mem_cons_of_mem hc)
        by_contra ht
        rw [Bool.not_eq_false] at ht
        exact Bool.false_ne_true (hcall.symm.trans (hp _ ht))
      refine ⟨.refl _, ?_, ?_⟩
      · rw [clients_cons_not rfl, clients_cons_not rfl, hnone, hnone]
        · exact Capacity.Fresh.counts ⟨rfl, rfl⟩
        · intro phase hs
          cases phase <;> first | exact hs | exact absurd hs Bool.false_ne_true
        · intro phase hl
          cases phase <;> first | exact hl | exact absurd hl Bool.false_ne_true
      · rw [clients_cons_of (beq_self_eq_true s.heap.length), hnone _ (fun _ hh => hh)]
        rfl

theorem HeapOk.step {normalize : String → Except String String} {s s' : Issuance}
    (h : HeapOk s.heap s.calls) (htable : TableOk s.receivers s.heap.length s.calls)
    (hs : Issuance.Step normalize s s') : HeapOk s'.heap s'.calls := by
  cases hs with
  | enter receiver granted => exact (heapOk_cons (fun _ => ⟨rfl, rfl, rfl⟩)).mpr h
  | full refused => exact h
  | gone here =>
    rw [here] at h
    exact (heapOk_cons (fun _ => ⟨rfl, rfl, rfl⟩)).mp h
  | invalid here | lock here | purge here | leave here =>
    rw [here] at h
    exact h.aloof (fun _ => ⟨rfl, rfl, rfl⟩) (fun _ => ⟨rfl, rfl, rfl⟩)
  | upgrade here => exact h.upgrade htable here
  | @grant key client k id rest shared c here at_id granted =>
    rw [here] at h
    obtain ⟨hlimits, hcounts, hstrong⟩ := h id shared at_id
    rw [clients_cons_not rfl, clients_cons_not rfl] at hcounts
    obtain ⟨hk, halike, hcounts'⟩ := hcounts.tryAcquire_some granted
    rw [hlimits.ipv6Prefix] at hk
    subst hk
    refine h.set (fun id' hne => ⟨rfl, rfl, beq_false_of_ne hne.symm⟩) (fun id' hne =>
      ⟨beq_false_of_ne hne.symm, beq_false_of_ne hne.symm, beq_false_of_ne hne.symm⟩)
      ⟨hlimits.trans halike, ?_, ?_⟩
    · rw [clients_cons_of (beq_self_eq_true id), clients_cons_of (beq_self_eq_true id), Multiset.card_cons]
      exact hcounts'
    · rw [clients_cons_of (beq_self_eq_true id)] at hstrong ⊢
      exact hstrong
  | @refuse key client id rest shared c here at_id refused =>
    rw [here] at h
    obtain rfl := Capacity.tryAcquire_none refused
    refine h.set (fun id' hne => ⟨rfl, rfl, beq_false_of_ne hne.symm⟩)
      (fun id' hne => ⟨rfl, rfl, beq_false_of_ne hne.symm⟩) ((h id shared at_id).moved rfl rfl rfl)
  | unlock here =>
    rw [here] at h
    exact h.detach (fun id' hne => ⟨rfl, rfl, beq_false_of_ne hne.symm⟩) rfl rfl (beq_self_eq_true _)
  | @decrement key client id rest shared c here at_id done =>
    rw [here] at h
    obtain ⟨hlimits, hcounts, hstrong⟩ := h id shared at_id
    rw [clients_cons_of (beq_self_eq_true id), clients_cons_of (beq_self_eq_true id)] at hcounts
    obtain ⟨c', hdone, halike, hcounts'⟩ := hcounts.decrement (Multiset.mem_cons_self _ _)
    obtain rfl := Except.ok.inj (done.symm.trans hdone)
    rw [Multiset.erase_cons_head] at hcounts'
    refine h.set (fun id' hne =>
      ⟨beq_false_of_ne hne.symm, beq_false_of_ne hne.symm, beq_false_of_ne hne.symm⟩) (fun id' hne =>
      ⟨rfl, beq_false_of_ne hne.symm, beq_false_of_ne hne.symm⟩) ⟨hlimits.trans halike, ?_, ?_⟩
    · rw [clients_cons_not rfl, clients_cons_of (beq_self_eq_true id)]
      exact hcounts'
    · rw [clients_cons_of (beq_self_eq_true id)] at hstrong ⊢
      exact hstrong
  | @giveBack key client id rest shared here at_id =>
    rw [here] at h
    obtain ⟨hlimits, hcounts, hstrong⟩ := h id shared at_id
    rw [clients_cons_not rfl, clients_cons_of (beq_self_eq_true id), Multiset.card_cons] at hcounts
    refine h.set (fun id' hne => ⟨rfl, beq_false_of_ne hne.symm, beq_false_of_ne hne.symm⟩)
      (fun id' hne => ⟨rfl, rfl, beq_false_of_ne hne.symm⟩) ⟨hlimits.trans ⟨rfl, rfl, rfl⟩, ?_, ?_⟩
    · rw [clients_cons_not rfl, clients_cons_not rfl]
      exact hcounts.release
    · rw [clients_cons_of (beq_self_eq_true id)] at hstrong ⊢
      exact hstrong
  | detach here =>
    rw [here] at h
    exact h.detach (fun id' hne => ⟨rfl, rfl, beq_false_of_ne hne.symm⟩) rfl rfl (beq_self_eq_true _)

/-! ### The table -/

/-- Calls move, and refer to nothing new. -/
theorem TableOk.moved {key' : Option String}
    (h : TableOk receivers size (⟨key, client, phase⟩ ::ₘ rest))
    (hp : ∀ id, phase'.holds id = true → phase.holds id = true ∧ key' = key) :
    TableOk receivers size (⟨key', client, phase'⟩ ::ₘ rest) := by
  refine ⟨fun call hc id hh => ?_, h.apart, h.bound⟩
  rcases Multiset.mem_cons.mp hc with rfl | hc
  · obtain ⟨hold, hkey⟩ := hp id hh
    obtain ⟨k, hk, hl⟩ := h.refers _ (Multiset.mem_cons_self _ _) id hold
    exact ⟨k, hkey.trans hk, hl⟩
  · exact h.refers call (Multiset.mem_cons_of_mem hc) id hh

theorem TableOk.step {normalize : String → Except String String} {s s' : Issuance}
    (hheap : HeapOk s.heap s.calls) (h : TableOk s.receivers s.heap.length s.calls)
    (hs : Issuance.Step normalize s s') : TableOk s'.receivers s'.heap.length s'.calls := by
  cases hs with
  | enter receiver granted =>
    refine ⟨fun call hc id hh => ?_, h.apart, h.bound⟩
    rcases Multiset.mem_cons.mp hc with rfl | hc
    · exact absurd hh Bool.false_ne_true
    · exact h.refers call hc id hh
  | full refused => exact h
  | gone here =>
    rw [here] at h
    exact ⟨fun call hc => h.refers call (Multiset.mem_cons_of_mem hc), h.apart, h.bound⟩
  | invalid here | lock here | leave here =>
    rw [here] at h
    exact h.moved (fun id hh => absurd hh Bool.false_ne_true)
  | grant here at_id | refuse here at_id | decrement here at_id | giveBack here at_id =>
    rw [here] at h
    show TableOk s.receivers (s.heap.set _ _).length _
    rw [List.length_set]
    exact h.moved (fun id hh => ⟨hh, rfl⟩)
  | unlock here | detach here =>
    rw [here] at h
    show TableOk s.receivers (s.heap.modify _ _).length _
    rw [List.length_modify]
    exact h.moved (fun id hh => absurd hh Bool.false_ne_true)
  | @purge key dead client rest keys here =>
    have hcalls : TableOk s.receivers s.heap.length (⟨some key, client, .purging keys⟩ ::ₘ rest) := by
      rw [here] at h
      exact h.moved (fun id hh => absurd hh Bool.false_ne_true)
    show TableOk (s.purge dead).receivers _ _
    unfold Issuance.purge
    cases hfind : s.find dead with
    | some found => exact hcalls
    | none =>
      have hkept : ∀ key id, (s.receivers.erase dead).lookup key = some id →
          s.receivers.lookup key = some id := by
        intro key id hk
        rw [Map.lookup_erase_eq] at hk
        split at hk
        · exact absurd hk (by simp)
        · exact hk
      refine ⟨fun call hc id hh => ?_, fun k k' id hk hk' => h.apart k k' id (hkept k id hk)
        (hkept k' id hk'), fun k id hk => h.bound k id (hkept k id hk)⟩
      obtain ⟨k, hkey, hk⟩ := hcalls.refers call hc id hh
      refine ⟨k, hkey, ?_⟩
      -- an entry that a call refers to is not dead
      have hne : k ≠ dead := by
        rintro rfl
        have hcall : call ∈ s.calls := by
          rcases Multiset.mem_cons.mp hc with rfl | hc
          · exact absurd hh Bool.false_ne_true
          · rw [here]
            exact Multiset.mem_cons_of_mem hc
        exact find_of_holds hheap h hcall hh hk hfind
      show (s.receivers.erase dead).lookup k = some id
      rw [Map.lookup_erase_eq, if_neg hne]
      exact hk
  | @upgrade key client rest here =>
    have hrest : ∀ call ∈ rest, call ∈ s.calls := fun call hc => by
      rw [here]
      exact Multiset.mem_cons_of_mem hc
    show TableOk (s.upgrade key).2.receivers (s.upgrade key).2.heap.length
      (⟨some key, client, .found (s.upgrade key).1.1⟩ ::ₘ rest)
    unfold Issuance.upgrade
    cases hfind : s.find key with
    | some found =>
      obtain ⟨id, shared⟩ := found
      show TableOk s.receivers (s.heap.set _ _).length (⟨some key, client, .found id⟩ ::ₘ rest)
      rw [List.length_set]
      refine ⟨fun call hc id' hh => ?_, h.apart, h.bound⟩
      rcases Multiset.mem_cons.mp hc with rfl | hc
      · obtain rfl : id = id' := eq_of_beq hh
        exact ⟨key, rfl, (find_eq_some hfind).1⟩
      · exact h.refers call (hrest call hc) id' hh
    | none =>
      show TableOk (s.receivers.insert key s.heap.length) (s.heap ++ [_]).length
        (⟨some key, client, .found s.heap.length⟩ ::ₘ rest)
      rw [List.length_append, List.length_singleton]
      refine ⟨fun call hc id hh => ?_, fun k k' id hk hk' => ?_, fun k id hk => ?_⟩
      · rcases Multiset.mem_cons.mp hc with rfl | hcr
        · obtain rfl : s.heap.length = id := eq_of_beq hh
          exact ⟨key, rfl, AList.lookup_insert _⟩
        · obtain ⟨k, hkey, hk⟩ := h.refers call (hrest call hcr) id hh
          refine ⟨k, hkey, ?_⟩
          have hne : k ≠ key := by
            rintro rfl
            exact find_of_holds hheap h (hrest call hcr) hh hk hfind
          rw [Map.lookup_insert_eq, if_neg hne]
          exact hk
      · -- the new capacity is behind all others
        rw [Map.lookup_insert_eq] at hk hk'
        have hlt := fun k (hk : s.receivers.lookup k = some id) => h.bound k id hk
        split at hk <;> split at hk'
        · subst k k'
          rfl
        · have hlt := hlt k' hk'
          obtain rfl := Option.some.inj hk
          exact absurd hlt (Nat.lt_irrefl _)
        · have hlt := hlt k hk
          obtain rfl := Option.some.inj hk'
          exact absurd hlt (Nat.lt_irrefl _)
        · exact h.apart k k' id hk hk'
      · rw [Map.lookup_insert_eq] at hk
        split at hk
        · obtain rfl := Option.some.inj hk
          exact Nat.lt_succ_self _
        · exact (h.bound k id hk).trans (Nat.lt_succ_self _)

/-! ### The lock -/

theorem LockOk.step {normalize : String → Except String String} {s s' : Issuance}
    (h : LockOk s.locked s.calls) (hs : Issuance.Step normalize s s') :
    LockOk s'.locked s'.calls := by
  unfold LockOk at h ⊢
  cases hs with
  | full refused => exact h
  | enter receiver granted =>
    show (clients Phase.locking (⟨_, _, .entered⟩ ::ₘ s.calls)).card = _
    rw [clients_cons_not rfl]
    exact h
  | gone here =>
    rw [here, clients_cons_not rfl] at h
    exact h
  | lock here free =>
    rw [here, clients_cons_not rfl, free] at h
    show (clients Phase.locking (⟨_, _, .purging _⟩ ::ₘ _)).card = 1
    rw [clients_cons_of rfl, Multiset.card_cons, h]
    rfl
  | grant here | unlock here =>
    rw [here, clients_cons_of rfl, Multiset.card_cons] at h
    show (clients Phase.locking (⟨_, _, _⟩ ::ₘ _)).card = 0
    rw [clients_cons_not rfl]
    split at h <;> omega
  | @upgrade key client rest here =>
    rw [here, clients_cons_of rfl] at h
    have hlocked : (s.upgrade key).2.locked = s.locked := by
      unfold Issuance.upgrade
      split <;> rfl
    show (clients Phase.locking (⟨_, _, _⟩ ::ₘ _)).card = if (s.upgrade key).2.locked then 1 else 0
    rw [clients_cons_of rfl, hlocked]
    exact h
  | purge here | refuse here =>
    rw [here, clients_cons_of rfl] at h
    show (clients Phase.locking (⟨_, _, _⟩ ::ₘ _)).card = _
    rw [clients_cons_of rfl]
    exact h
  | invalid here | decrement here | giveBack here | detach here | leave here =>
    rw [here, clients_cons_not rfl] at h
    show (clients Phase.locking (⟨_, _, _⟩ ::ₘ _)).card = _
    rw [clients_cons_not rfl]
    exact h

theorem Sound.step {normalize : String → Except String String} {s s' : Issuance} (h : Sound s)
    (hs : Issuance.Step normalize s s') : Sound s' :=
  ⟨h.global.step hs, h.heap.step h.table hs, h.table.step h.heap hs, h.lock.step hs⟩

theorem Sound.steps {normalize : String → Except String String} {s s' : Issuance} (h : Sound s)
    (hs : Relation.ReflTransGen (Issuance.Step normalize) s s') : Sound s' := by
  induction hs with
  | refl => exact h
  | tail _ hs ih => exact ih.step hs

theorem sound_empty : Sound {} := by
  refine ⟨⟨.refl _, Capacity.Fresh.counts ⟨rfl, rfl⟩⟩, fun id shared hid => absurd hid (by simp), ?_, rfl⟩
  exact ⟨fun call hc => absurd hc (Multiset.notMem_zero call),
    fun key key' id hk => absurd hk (by simp [AList.lookup_empty]),
    fun key id hk => absurd hk (by simp [AList.lookup_empty])⟩

end

end Geata.Admission
