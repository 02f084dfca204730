import Geata.Admission.Permits

namespace Geata.Admission

open Geata.Lib Geata.RateLimit

/-!
# Connections

The process takes 1024 connections, 64 of one client.  A TLS connection has its permit before the
handshake, and a plain one before its first byte is read; nothing looks at the sites yet.

* `Transport.acquire` — the permit of a connection.
* `Transport.Step` — connections and the owners of their permits, in any order.
* `Step.held` — seen from the capacity, this is a run of acquires and drops.
* `connections_within_capacity` — every connection that is served has one permit, and they all come
  back.
-/

/-- How far the stream of a connection with a permit has come. -/
inductive Stream where
  | handshake
  | serving
  | gone
  deriving DecidableEq

inductive Stage where
  | accepted
  /-- The stream, if it is still there, and clones of its guard own the permit of this client. -/
  | owned (client : IpAddr) (stream : Stream) (clones : ℕ)
  /-- The last owner is gone, and the permit is half dropped. -/
  | dropping
  deriving DecidableEq

/-- A connection: the address in its socket digest, and if its listener has TLS. -/
structure Connection where
  peer : Option IpAddr
  tls : Bool
  stage : Stage := .accepted

/-- The strong count of a guard. -/
def references (stream : Stream) (clones : ℕ) : ℕ :=
  (if stream = .gone then 0 else 1) + clones

/-- One owner less. -/
inductive Released : Stream → ℕ → Stream → ℕ → Prop where
  | stream {stream : Stream} {clones : ℕ} (there : stream ≠ .gone) :
      Released stream clones .gone clones
  | clone {stream : Stream} {clones : ℕ} : Released stream (clones + 1) stream clones

theorem Released.references {stream stream' : Stream} {clones clones' : ℕ}
    (h : Released stream clones stream' clones') :
    references stream clones = references stream' clones' + 1 := by
  unfold Admission.references
  cases h with
  | stream there => rw [if_neg there, if_pos rfl, Nat.zero_add, Nat.add_comm]
  | clone => rw [Nat.add_assoc]

namespace Stage

/-- The client of the permit. -/
def permit : Stage → Option IpAddr
  | owned client _ _ => some client
  | _ => none

def serving : Stage → Bool
  | owned _ .serving _ => true
  | _ => false

end Stage

/-- The capacity for connections, the connections there are, how many were accepted and how many of
    them have ended, and how often `record_rejection(0)` was called. -/
structure Transport where
  capacity : Capacity := { Capacity.new 1024 with perClient := 64 }
  connections : Multiset Connection := 0
  accepted : ℕ := 0
  ended : ℕ := 0
  rejections : ℕ := 0

namespace Transport

/-- `Connections::acquire` -/
def acquire (t : Transport) (peer : Option IpAddr) : Option IpAddr × Transport :=
  match peer with
  | none => (none, { t with rejections := t.rejections + 1 })
  | some ip =>
    match t.capacity.tryAcquire ip with
    | (none, capacity) => (none, { t with capacity, rejections := t.rejections + 1 })
    | (some client, capacity) => (some client, { t with capacity })

/-- One step of a connection. -/
inductive Step : Transport → Transport → Prop where
  | accept {t : Transport} (peer : Option IpAddr) (tls : Bool) :
      Step t { t with
        connections := { peer, tls } ::ₘ t.connections
        accepted := t.accepted + 1 }
  /-- `process` and `process_new` without a permit: the stream is dropped. -/
  | refuse {t t' : Transport} {c : Connection} {rest : Multiset Connection}
      (hc : t.connections = c ::ₘ rest) (hstage : c.stage = .accepted)
      (hrefused : t.acquire c.peer = (none, t')) : Step t { t' with connections := rest }
  /-- `process`, before the handshake. -/
  | process {t t' : Transport} {c : Connection} {rest : Multiset Connection} {client : IpAddr}
      (hc : t.connections = c ::ₘ rest) (hstage : c.stage = .accepted) (htls : c.tls = true)
      (hgranted : t.acquire c.peer = (some client, t')) :
      Step t { t' with connections := { c with stage := .owned client .handshake 0 } ::ₘ rest }
  /-- `process_new` of a stream with a TLS digest. -/
  | processTls {t : Transport} {c : Connection} {rest : Multiset Connection} {client : IpAddr}
      {clones : ℕ} (hc : t.connections = c ::ₘ rest)
      (hstage : c.stage = .owned client .handshake clones) :
      Step t { t with connections := { c with stage := .owned client .serving clones } ::ₘ rest }
  /-- `process_new` of a stream without one. -/
  | processPlain {t t' : Transport} {c : Connection} {rest : Multiset Connection} {client : IpAddr}
      (hc : t.connections = c ::ₘ rest) (hstage : c.stage = .accepted) (htls : c.tls = false)
      (hgranted : t.acquire c.peer = (some client, t')) :
      Step t { t' with connections := { c with stage := .owned client .serving 0 } ::ₘ rest }
  /-- `boxed_clone`; the permit of a plain connection is in no guard. -/
  | clone {t : Transport} {c : Connection} {rest : Multiset Connection} {client : IpAddr}
      {stream : Stream} {clones : ℕ} (hc : t.connections = c ::ₘ rest) (htls : c.tls = true)
      (hstage : c.stage = .owned client stream clones) :
      Step t { t with connections := { c with stage := .owned client stream (clones + 1) } ::ₘ rest }
  /-- A connection without a permit is closed. -/
  | close {t : Transport} {c : Connection} {rest : Multiset Connection}
      (hc : t.connections = c ::ₘ rest) (hstage : c.stage = .accepted) :
      Step t { t with connections := rest, ended := t.ended + 1 }
  /-- An owner of the permit is dropped, at any time, and is not the last one. -/
  | dropOwner {t : Transport} {c : Connection} {rest : Multiset Connection} {client : IpAddr}
      {stream stream' : Stream} {clones clones' : ℕ} (hc : t.connections = c ::ₘ rest)
      (hstage : c.stage = .owned client stream clones)
      (hreleased : Released stream clones stream' clones')
      (hmore : references stream' clones' ≠ 0) :
      Step t { t with connections := { c with stage := .owned client stream' clones' } ::ₘ rest }
  /-- The last owner is dropped. -/
  | dropLast {t : Transport} {c : Connection} {rest : Multiset Connection} {client : IpAddr}
      {stream stream' : Stream} {clones clones' : ℕ} {capacity : Capacity}
      (hc : t.connections = c ::ₘ rest) (hstage : c.stage = .owned client stream clones)
      (hreleased : Released stream clones stream' clones')
      (hlast : references stream' clones' = 0)
      (hdone : t.capacity.decrement client = .ok capacity) :
      Step t { t with capacity, connections := { c with stage := .dropping } ::ₘ rest }
  | release {t : Transport} {c : Connection} {rest : Multiset Connection}
      (hc : t.connections = c ::ₘ rest) (hstage : c.stage = .dropping) :
      Step t { t with
        capacity := t.capacity.release, connections := rest, ended := t.ended + 1 }

/-- The states of a process. -/
def Reachable : Transport → Prop := Relation.ReflTransGen Step {}

/-! ### The permits of the connections -/

/-- The clients of the permits that the connections have. -/
def live (connections : Multiset Connection) : Multiset IpAddr :=
  connections.filterMap (fun c => c.stage.permit)

/-- How many permits are half dropped. -/
def dropping (connections : Multiset Connection) : ℕ :=
  connections.countP (fun c => c.stage = .dropping)

/-- The books of the capacity. -/
def held (t : Transport) : Held where
  capacity := t.capacity
  live := live t.connections
  dropping := dropping t.connections

section

variable {t t' : Transport} {c : Connection} {rest : Multiset Connection} {peer : Option IpAddr}
  {client : IpAddr}

theorem live_cons_some (h : c.stage.permit = some client) :
    live (c ::ₘ rest) = client ::ₘ live rest :=
  Multiset.filterMap_cons_some (fun c : Connection => c.stage.permit) _ _ h

theorem live_cons_none (h : c.stage.permit = none) : live (c ::ₘ rest) = live rest :=
  Multiset.filterMap_cons_none (f := fun c : Connection => c.stage.permit) _ _ h

theorem dropping_cons :
    dropping (c ::ₘ rest) = dropping rest + if c.stage = .dropping then 1 else 0 :=
  Multiset.countP_cons ..

/-- A permit is granted by the capacity. -/
theorem acquire_some (h : t.acquire peer = (some client, t')) :
    ∃ ip capacity, peer = some ip ∧ t.capacity.tryAcquire ip = (some client, capacity) ∧
      t' = { t with capacity } := by
  unfold acquire at h
  split at h
  · exact absurd (Prod.mk.inj h).1 (by simp)
  · rename_i ip
    split at h
    · exact absurd (Prod.mk.inj h).1 (by simp)
    · rename_i client' capacity heq
      obtain ⟨hclient, rfl⟩ := Prod.mk.inj h
      rw [Option.some.inj hclient] at heq
      exact ⟨ip, capacity, rfl, heq, rfl⟩

/-- A refusal is counted, and changes nothing. -/
theorem acquire_none (h : t.acquire peer = (none, t')) :
    t' = { t with rejections := t.rejections + 1 } := by
  unfold acquire at h
  split at h
  · exact (Prod.mk.inj h).2.symm
  · split at h
    · rename_i heq
      rw [← (Prod.mk.inj h).2, Capacity.tryAcquire_none heq]
    · exact absurd (Prod.mk.inj h).1 (by simp)

theorem permit_owned (c : Connection) (client : IpAddr) (stream : Stream) (clones : ℕ) :
    ({ c with stage := .owned client stream clones } : Connection).stage.permit = some client := rfl

/-- A connection that moves on with its permit. -/
theorem held_moved {stream stream' : Stream} {clones clones' : ℕ} (hc : t.connections = c ::ₘ rest)
    (hstage : c.stage = .owned client stream clones) :
    ({ t with connections :=
      { c with stage := .owned client stream' clones' } ::ₘ rest } : Transport).held = t.held := by
  have hpermit : c.stage.permit = some client := by rw [hstage]; rfl
  unfold Transport.held
  rw [hc, live_cons_some (permit_owned c client stream' clones'), live_cons_some hpermit,
    dropping_cons, dropping_cons, hstage]
  rfl

/-- A connection that leaves without a permit. -/
theorem held_left (hc : t.connections = c ::ₘ rest) (hstage : c.stage = .accepted) :
    ({ t with connections := rest } : Transport).held = t.held := by
  have hpermit : c.stage.permit = none := by rw [hstage]; rfl
  unfold Transport.held
  rw [hc, live_cons_none hpermit, dropping_cons, hstage]
  rfl

/-- A connection that gets a permit. -/
theorem held_granted {ip : IpAddr} {stream : Stream} {capacity : Capacity}
    (hc : t.connections = c ::ₘ rest) (hstage : c.stage = .accepted)
    (hgranted : t.capacity.tryAcquire ip = (some client, capacity)) :
    Held.Step t.held ({ t with
      capacity
      connections := { c with stage := .owned client stream 0 } ::ₘ rest } : Transport).held := by
  have hstep := Held.Step.acquire (s := t.held) hgranted
  rw [← held_left hc hstage] at hstep ⊢
  unfold Transport.held at hstep ⊢
  rw [live_cons_some (permit_owned c client stream 0), dropping_cons]
  exact hstep

/-- **Simulation**: for the capacity, a step is an acquire, half a drop, or nothing. -/
theorem Step.held (h : Step t t') : t'.held = t.held ∨ Held.Step t.held t'.held := by
  cases h with
  | accept peer tls =>
    left
    unfold Transport.held
    rw [live_cons_none (c := ⟨peer, tls, .accepted⟩) rfl, dropping_cons]
    rfl
  | refuse hc hstage hrefused =>
    left
    obtain rfl := acquire_none hrefused
    exact held_left hc hstage
  | process hc hstage _ hgranted | processPlain hc hstage _ hgranted =>
    right
    obtain ⟨ip, capacity, -, htry, rfl⟩ := acquire_some hgranted
    exact held_granted hc hstage htry
  | processTls hc hstage =>
    left
    exact held_moved hc hstage
  | clone hc _ hstage =>
    left
    exact held_moved hc hstage
  | close hc hstage =>
    left
    exact held_left hc hstage
  | dropOwner hc hstage _ _ =>
    left
    exact held_moved hc hstage
  | @dropLast c rest client stream stream' clones clones' capacity hc hstage _ _ hdone =>
    -- The first half of a drop: the client has one permit less, and the slot is not free yet.
    right
    have hpermit : c.stage.permit = some client := by rw [hstage]; rfl
    have hlive : t.held.live = client ::ₘ live rest := by
      show live t.connections = _
      rw [hc, live_cons_some hpermit]
    have hdropping : t.held.dropping = dropping rest := by
      show dropping t.connections = _
      rw [hc, dropping_cons, hstage]
      rfl
    have hout : client ∈ t.held.live := by
      rw [hlive]
      exact Multiset.mem_cons_self ..
    have hstep := Held.Step.decrement hout hdone
    rw [hlive, Multiset.erase_cons_head, hdropping] at hstep
    unfold Transport.held at hstep ⊢
    rw [live_cons_none (c := { c with stage := .dropping }) rfl, dropping_cons, if_pos rfl]
    exact hstep
  | @release c rest hc hstage =>
    right
    have hpermit : c.stage.permit = none := by rw [hstage]; rfl
    have hdropping : t.held.dropping = dropping rest + 1 := by
      show dropping t.connections = _
      rw [hc, dropping_cons, if_pos hstage]
    have hlive : t.held.live = live rest := by
      show live t.connections = _
      rw [hc, live_cons_none hpermit]
    have hstep := Held.Step.release hdropping
    rw [hlive] at hstep
    exact hstep

theorem Reachable.held (h : Reachable t) :
    Held.Reachable { Capacity.new 1024 with perClient := 64 } t.held := by
  induction h with
  | refl => exact .refl
  | tail _ hs ih =>
    rcases hs.held with heq | hstep
    · rw [heq]
      exact ih
    · exact ih.tail hstep

/-! ### What a connection has -/

/-- A connection with a permit has the one of its own address, and an owner for it. -/
structure Owned (c : Connection) : Prop where
  permit : ∀ client stream clones, c.stage = .owned client stream clones →
    ∃ ip, c.peer = some ip ∧ client = clientKey ip 64 ∧ references stream clones ≠ 0
  plain : ∀ client stream clones, c.tls = false → c.stage = .owned client stream clones →
    stream = .serving ∧ clones = 0

theorem Owned.without (hstage : ∀ client stream clones, c.stage ≠ .owned client stream clones) :
    Owned c :=
  ⟨fun client stream clones h => absurd h (hstage client stream clones),
    fun client stream clones _ h => absurd h (hstage client stream clones)⟩

theorem Owned.granted {ip : IpAddr} {stream : Stream} (hpeer : c.peer = some ip)
    (hstream : stream ≠ .gone) (hplain : c.tls = false → stream = .serving) :
    Owned { c with stage := .owned (clientKey ip 64) stream 0 } := by
  constructor
  · intro client stream' clones heq
    obtain ⟨rfl, rfl, rfl⟩ := Stage.owned.inj heq
    refine ⟨ip, hpeer, rfl, ?_⟩
    unfold references
    rw [if_neg hstream]
    omega
  · intro client stream' clones htls heq
    obtain ⟨rfl, rfl, rfl⟩ := Stage.owned.inj heq
    exact ⟨hplain htls, rfl⟩

theorem Owned.moved {stream stream' : Stream} {clones clones' : ℕ} (h : Owned c)
    (hstage : c.stage = .owned client stream clones) (hmore : references stream' clones' ≠ 0)
    (hplain : c.tls = false → stream' = .serving ∧ clones' = 0) :
    Owned { c with stage := .owned client stream' clones' } := by
  obtain ⟨ip, hpeer, hkey, -⟩ := h.permit client stream clones hstage
  constructor
  · intro client' stream'' clones'' heq
    obtain ⟨rfl, rfl, rfl⟩ := Stage.owned.inj heq
    exact ⟨ip, hpeer, hkey, hmore⟩
  · intro client' stream'' clones'' htls heq
    obtain ⟨rfl, rfl, rfl⟩ := Stage.owned.inj heq
    exact hplain htls

/-- What holds of the connections. -/
structure Sound (t : Transport) : Prop where
  owned : ∀ c ∈ t.connections, Owned c
  sum : t.accepted = t.connections.card + t.ended + t.rejections

theorem Sound.uncons (h : t.Sound) (hc : t.connections = c ::ₘ rest) :
    Owned c ∧ (∀ c' ∈ rest, Owned c') ∧
      t.accepted = rest.card + 1 + t.ended + t.rejections := by
  refine ⟨?_, fun c' hc' => ?_, ?_⟩
  · apply h.owned
    rw [hc]
    exact Multiset.mem_cons_self ..
  · apply h.owned
    rw [hc]
    exact Multiset.mem_cons_of_mem hc'
  · rw [h.sum, hc, Multiset.card_cons]

/-- One connection has changed. -/
theorem Sound.changed {c' : Connection} (h : t.Sound) (hc : t.connections = c ::ₘ rest)
    (hconnections : t'.connections = c' ::ₘ rest) (howned : Owned c')
    (haccepted : t'.accepted = t.accepted) (hended : t'.ended = t.ended)
    (hrejections : t'.rejections = t.rejections) : t'.Sound := by
  obtain ⟨-, hrest, hsum⟩ := h.uncons hc
  constructor
  · rw [hconnections]
    intro d hd
    rcases Multiset.mem_cons.mp hd with rfl | hd
    · exact howned
    · exact hrest d hd
  · rw [haccepted, hconnections, Multiset.card_cons, hended, hrejections]
    exact hsum

/-- One connection is gone. -/
theorem Sound.removed (h : t.Sound) (hc : t.connections = c ::ₘ rest)
    (hconnections : t'.connections = rest) (haccepted : t'.accepted = t.accepted)
    (hgone : t'.ended + t'.rejections = t.ended + t.rejections + 1) : t'.Sound := by
  obtain ⟨-, hrest, hsum⟩ := h.uncons hc
  constructor
  · rw [hconnections]
    exact hrest
  · rw [haccepted, hconnections, hsum]
    omega

theorem Sound.step (h : t.Sound)
    (hexact : Held.Exact { Capacity.new 1024 with perClient := 64 } t.held) (hs : Step t t') : t'.Sound := by
  obtain ⟨halike, hcounts⟩ := hexact
  -- A permit that is granted is that of the address.
  have hgrant : ∀ {c : Connection} {client t'}, t.acquire c.peer = (some client, t') →
      ∃ ip capacity, c.peer = some ip ∧ client = clientKey ip 64 ∧ t' = { t with capacity } := by
    intro c client t' hgranted
    obtain ⟨ip, capacity, hpeer, htry, rfl⟩ := acquire_some hgranted
    obtain ⟨hkey, -, -⟩ := hcounts.tryAcquire_some htry
    rw [halike.ipv6Prefix] at hkey
    exact ⟨ip, capacity, hpeer, hkey, rfl⟩
  cases hs with
  | accept peer tls =>
    constructor
    · intro c hc
      rcases Multiset.mem_cons.mp hc with rfl | hc
      · exact Owned.without (by simp)
      · exact h.owned c hc
    · show t.accepted + 1 = (_ ::ₘ t.connections).card + t.ended + t.rejections
      rw [Multiset.card_cons, h.sum]
      omega
  | refuse hc hstage hrefused =>
    obtain rfl := acquire_none hrefused
    refine h.removed hc rfl rfl ?_
    show t.ended + (t.rejections + 1) = _
    omega
  | process hc hstage htls hgranted =>
    obtain ⟨ip, capacity, hpeer, rfl, rfl⟩ := hgrant hgranted
    refine h.changed hc rfl ?_ rfl rfl rfl
    exact Owned.granted hpeer (by simp) (by simp [htls])
  | processPlain hc hstage htls hgranted =>
    obtain ⟨ip, capacity, hpeer, rfl, rfl⟩ := hgrant hgranted
    refine h.changed hc rfl ?_ rfl rfl rfl
    exact Owned.granted hpeer (by simp) (fun _ => rfl)
  | processTls hc hstage =>
    have howned := (h.uncons hc).1
    refine h.changed hc rfl ?_ rfl rfl rfl
    apply howned.moved hstage
    · unfold references
      rw [if_neg (by simp)]
      omega
    · intro htls
      -- A plain connection has no handshake.
      obtain ⟨hserving, -⟩ := howned.plain _ _ _ htls hstage
      exact absurd hserving (by simp)
  | clone hc htls hstage =>
    have howned := (h.uncons hc).1
    refine h.changed hc rfl ?_ rfl rfl rfl
    apply howned.moved hstage
    · unfold references
      omega
    · simp [htls]
  | close hc hstage =>
    refine h.removed hc rfl rfl ?_
    show t.ended + 1 + t.rejections = _
    omega
  | dropOwner hc hstage hreleased hmore =>
    have howned := (h.uncons hc).1
    refine h.changed hc rfl ?_ rfl rfl rfl
    apply howned.moved hstage hmore
    intro htls
    -- A plain connection has one owner, and this is not the last one.
    obtain ⟨rfl, rfl⟩ := howned.plain _ _ _ htls hstage
    have hone := hreleased.references
    rw [show references .serving 0 = 1 from rfl] at hone
    omega
  | dropLast hc hstage hreleased hlast hdone =>
    refine h.changed hc rfl ?_ rfl rfl rfl
    exact Owned.without (by simp)
  | release hc hstage =>
    refine h.removed hc rfl rfl ?_
    show t.ended + 1 + t.rejections = _
    omega

theorem Reachable.exact (h : Reachable t) :
    Held.Exact { Capacity.new 1024 with perClient := 64 } t.held :=
  (Reachable.held h).exact ⟨rfl, rfl⟩

theorem Reachable.sound (h : Reachable t) : t.Sound := by
  induction h with
  | refl => exact ⟨by simp, rfl⟩
  | tail hr hs ih => exact ih.step (Reachable.exact hr) hs

end

/-! ### The limits -/

section

variable {t : Transport}

/-- How many connections have a permit of a client. -/
def permitsOf (client : IpAddr) (connections : Multiset Connection) : ℕ :=
  connections.countP (fun c => c.stage.permit = some client)

def permits (connections : Multiset Connection) : ℕ :=
  connections.countP (fun c => c.stage.permit.isSome = true)

theorem count_live (client : IpAddr) (connections : Multiset Connection) :
    (live connections).count client = permitsOf client connections := by
  unfold permitsOf
  induction connections using Multiset.induction with
  | empty => rfl
  | cons c rest ih =>
    rw [Multiset.countP_cons, ← ih]
    cases hpermit : c.stage.permit with
    | none => rw [live_cons_none hpermit, if_neg (by simp), Nat.add_zero]
    | some client' =>
      rw [live_cons_some hpermit, Multiset.count_cons]
      simp only [Option.some.injEq, eq_comm]

theorem card_live (connections : Multiset Connection) :
    (live connections).card = permits connections := by
  unfold permits
  induction connections using Multiset.induction with
  | empty => rfl
  | cons c rest ih =>
    rw [Multiset.countP_cons, ← ih]
    cases hpermit : c.stage.permit with
    | none => rw [live_cons_none hpermit, if_neg (by simp), Nat.add_zero]
    | some client => rw [live_cons_some hpermit, Multiset.card_cons, if_pos (by simp)]

theorem acquire_fst (t : Transport) (peer : Option IpAddr) :
    (t.acquire peer).1 = peer.bind (fun ip => (t.capacity.tryAcquire ip).1) := by
  unfold acquire
  cases peer with
  | none => rfl
  | some ip =>
    rw [Option.bind_some]
    dsimp only
    split
    · rename_i heq
      rw [heq]
    · rename_i heq
      rw [heq]

/-- A connection gets a permit exactly when there is room. -/
theorem acquire_iff (h : Reachable t) (peer : Option IpAddr) (client : IpAddr) :
    (t.acquire peer).1 = some client ↔ ∃ ip, peer = some ip ∧ client = clientKey ip 64 ∧
      permitsOf client t.connections < 64 ∧
      permits t.connections + dropping t.connections < 1024 := by
  obtain ⟨halike, hcounts⟩ := h.exact
  have hroom : ∀ ip, (t.capacity.tryAcquire ip).1 =
      if permitsOf (clientKey ip 64) t.connections < 64 ∧
          permits t.connections + dropping t.connections < 1024
        then some (clientKey ip 64) else none := by
    intro ip
    have htry := hcounts.tryAcquire_eq ip
    rw [halike.ipv6Prefix, halike.perClient, halike.max] at htry
    rw [← count_live, ← card_live]
    change t.capacity.tryAcquire ip = _ at htry
    rw [htry, apply_ite Prod.fst]
    rfl
  rw [acquire_fst]
  constructor
  · intro hgranted
    obtain ⟨ip, rfl, hip⟩ := Option.bind_eq_some_iff.mp hgranted
    rw [hroom ip] at hip
    split at hip
    · rename_i hfits
      obtain rfl := Option.some.inj hip
      exact ⟨ip, rfl, rfl, hfits⟩
    · exact absurd hip (by simp)
  · rintro ⟨ip, rfl, rfl, hfits⟩
    rw [Option.bind_some, hroom ip, if_pos hfits]

end

end Transport

open Transport in
/-- **Connections stay within the capacity of the process.**  In every run of any number of
    connections, over TLS and plain, with handshakes that fail or are cancelled at any moment, with
    clones of the guards and with each drop in two halves: a connection that is served has an address
    and the permit of its client; a client has at most 64 permits, and all have at most 1024; every
    drop finds its counter; the free slots and the permits make 1024, so that none is lost; a
    connection is refused exactly when it has no address or there is no room; and every connection
    that was accepted is still there, has ended, or was refused and counted. -/
theorem connections_within_capacity {t : Transport} (h : Reachable t) :
    (∀ c ∈ t.connections, c.stage.serving = true → ∃ ip, c.peer = some ip ∧
      c.stage.permit = some (clientKey ip 64)) ∧
    (∀ client, permitsOf client t.connections ≤ 64) ∧ permits t.connections ≤ 1024 ∧
    (∀ c ∈ t.connections, ∀ client, c.stage.permit = some client →
      ∃ capacity, t.capacity.decrement client = .ok capacity) ∧
    t.capacity.permits + permits t.connections + dropping t.connections = 1024 ∧
    (∀ peer client, (t.acquire peer).1 = some client ↔ ∃ ip, peer = some ip ∧
      client = clientKey ip 64 ∧ permitsOf client t.connections < 64 ∧
      permits t.connections + dropping t.connections < 1024) ∧
    t.accepted = t.connections.card + t.ended + t.rejections := by
  obtain ⟨halike, hcounts⟩ := h.exact
  have hslots := hcounts.slots
  rw [halike.max, show t.held.live = live t.connections from rfl, card_live] at hslots
  have hsum : t.capacity.permits + permits t.connections + dropping t.connections = 1024 := by
    rw [Nat.add_assoc]
    exact hslots
  refine ⟨fun c hc hserving => ?_, fun client => ?_, by omega, fun c hc client hpermit => ?_, hsum,
    acquire_iff h, h.sound.sum⟩
  · cases hstage : c.stage with
    | owned client stream clones =>
      obtain ⟨ip, hpeer, hkey, -⟩ := (h.sound.owned c hc).permit client stream clones hstage
      refine ⟨ip, hpeer, ?_⟩
      rw [← hkey]
      rfl
    | accepted | dropping =>
      rw [hstage] at hserving
      exact Bool.noConfusion hserving
  · rw [← count_live]
    have hle := hcounts.perClient client
    rw [halike.perClient] at hle
    exact hle
  · have hlive : client ∈ t.held.live := (Multiset.mem_filterMap _ _).mpr ⟨c, hc, hpermit⟩
    obtain ⟨capacity, hdone, -⟩ := hcounts.decrement hlive
    exact ⟨capacity, hdone⟩

/-- A connection over TLS after its handshake, with its one permit. -/
theorem connections_within_capacity_tls :
    ∃ t, Transport.Reachable t ∧ Transport.permits t.connections = 1 ∧
      (∀ c ∈ t.connections, c.stage.serving = true) ∧
      t.capacity.permits + Transport.permits t.connections +
        Transport.dropping t.connections = 1024 ∧
      ∀ c ∈ t.connections, ∃ ip, c.peer = some ip ∧ c.stage.permit = some (clientKey ip 64) := by
  let ip := IpAddr.v4 0xc0000201
  let accepted : Connection := { peer := some ip, tls := true }
  let guarded : Connection := { accepted with stage := .owned ip .handshake 0 }
  let t : Transport := { connections := {accepted}, accepted := 1 }
  have hgranted : t.acquire accepted.peer = (some ip, (t.acquire accepted.peer).2) := rfl
  have haccept : Transport.Step {} t := .accept accepted.peer true
  have hprocess := @Transport.Step.process t _ accepted 0 _ rfl rfl rfl hgranted
  have hserve := @Transport.Step.processTls
    { (t.acquire accepted.peer).2 with connections := {guarded} } guarded 0 ip 0 rfl rfl
  have hreach := ((Relation.ReflTransGen.single haccept).tail hprocess).tail hserve
  obtain ⟨hserved, -, -, -, hsum, -, -⟩ := connections_within_capacity hreach
  have hserving : ∀ c ∈ ({{ guarded with stage := .owned ip .serving 0 }} : Multiset Connection),
      c.stage.serving = true := by
    intro c hc
    rw [Multiset.mem_singleton.mp hc]
    rfl
  exact ⟨_, hreach, rfl, hserving, hsum, fun c hc => hserved c hc (hserving c hc)⟩

end Geata.Admission
