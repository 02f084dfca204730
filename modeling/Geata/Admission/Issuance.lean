import Geata.Lightning.Invoice
import Geata.Admission.Permits

namespace Geata.Admission

open Geata.Lib Geata.RateLimit Geata.Lightning

/-!
# Invoice issuance

`Issuance` bounds how many invoices are asked for at once: 64 over all receivers and 8 for a client,
and for a receiver's endpoint 8 and 2.  The capacity of an endpoint is made when it is needed and is
gone with its last permit; the table of endpoints only has weak references.

A call takes a global permit, then the lock of the table, drops the dead entries, finds or makes
the capacity of its endpoint and takes a permit of it.  A permit is given back in four steps without
the lock.  Calls and drops interleave between all of these.

* `Issuance.Step` — one step of a call or a drop.
* `Issuance.acquire` — a call without any other step in between.
-/

/-! ### The model -/

/-- Where a call or its permit is. -/
inductive Phase where
  /-- it has a global permit -/
  | entered
  /-- it has the lock and drops dead entries; these keys are still to be looked at -/
  | purging (rest : List String)
  /-- it has the lock and a reference to the endpoint's capacity -/
  | found (id : ℕ)
  /-- the endpoint's capacity has refused it -/
  | refused (id : ℕ)
  /-- the permit is out -/
  | live (id : ℕ)
  /-- the permit is dropped: the client's counter is decremented -/
  | decremented (id : ℕ)
  /-- the receiver's slot is returned -/
  | returned (id : ℕ)
  /-- the reference is released; the global permit is left -/
  | detached
  /-- the client's global counter is decremented -/
  | leaving
  deriving DecidableEq

/-- A call of `Issuance::acquire` with the key of its receiver, unless that is no URL, and the permit
    it gets. -/
structure Call where
  key : Option String
  client : IpAddr
  phase : Phase

/-- A capacity behind an `Arc`, and how many references it has. -/
structure Shared where
  capacity : Capacity
  strong : ℕ

/-- The limits of all receivers together. -/
def globalLimits : Capacity := { Capacity.new 64 with perClient := 8 }

/-- The limits of one endpoint. -/
def receiverLimits : Capacity := { Capacity.new 8 with perClient := 2 }

/-- The state, with the calls and permits there are.  A weak reference is the place in the heap of
    what it refers to. -/
structure Issuance where
  global : Capacity := globalLimits
  receivers : Map String ℕ := ∅
  locked : Bool := false
  heap : List Shared := []
  calls : Multiset Call := 0

/-- The key of a receiver.  The URL parser normalizes the text of an endpoint. -/
def receiverKey (normalize : String → Except String String) : ReceiverConfig → Except String String
  | .ldk node => (normalize node.endpoint).map ("ldk:" ++ ·)
  | .cashu mint _ => .ok ("cashu:" ++ mint)

namespace Issuance

/-- The capacity of a key that is in use (`Weak::upgrade`). -/
def find (s : Issuance) (key : String) : Option (ℕ × Shared) := do
  let id ← s.receivers.lookup key
  let shared ← s.heap[id]?
  if shared.strong = 0 then none else some (id, shared)

/-- One entry of `receivers.retain`. -/
def purge (s : Issuance) (key : String) : Issuance :=
  { s with receivers := if (s.find key).isNone then s.receivers.erase key else s.receivers }

/-- The capacity of a key: the one in use, or a new one. -/
def upgrade (s : Issuance) (key : String) : (ℕ × Shared) × Issuance :=
  match s.find key with
  | some (id, shared) =>
    let shared := { shared with strong := shared.strong + 1 }
    ((id, shared), { s with heap := s.heap.set id shared })
  | none =>
    let shared := { capacity := receiverLimits, strong := 1 }
    ((s.heap.length, shared), { s with
      heap := s.heap ++ [shared]
      receivers := s.receivers.insert key s.heap.length })

/-- A reference to a capacity is released. -/
def detach (s : Issuance) (id : ℕ) : Issuance :=
  { s with heap := s.heap.modify id (fun shared => { shared with strong := shared.strong - 1 }) }

/-- A call moves on. -/
def moved (s : Issuance) (call : Call) (rest : Multiset Call) : Issuance :=
  { s with calls := call ::ₘ rest }

/-- One step of a call or a drop. -/
inductive Step (normalize : String → Except String String) : Issuance → Issuance → Prop where
  /-- a global permit -/
  | enter {s : Issuance} (receiver : ReceiverConfig) {client k : IpAddr} {c : Capacity}
      (granted : s.global.tryAcquire client = (some k, c)) :
      Step normalize s { s with
        global := c, calls := ⟨(receiverKey normalize receiver).toOption, client, .entered⟩ ::ₘ s.calls }
  /-- no global permit: the call is over -/
  | full {s : Issuance} {client : IpAddr} {c : Capacity}
      (refused : s.global.tryAcquire client = (none, c)) : Step normalize s { s with global := c }
  /-- the endpoint is no URL -/
  | invalid {s : Issuance} {client : IpAddr} {rest : Multiset Call}
      (here : s.calls = ⟨none, client, .entered⟩ ::ₘ rest) :
      Step normalize s (s.moved ⟨none, client, .detached⟩ rest)
  | lock {s : Issuance} {key : String} {client : IpAddr} {rest : Multiset Call} {keys : List String}
      (here : s.calls = ⟨some key, client, .entered⟩ ::ₘ rest) (free : s.locked = false)
      (order : keys.Perm s.receivers.keys) :
      Step normalize s { s.moved ⟨some key, client, .purging keys⟩ rest with locked := true }
  | purge {s : Issuance} {key dead : String} {client : IpAddr} {rest : Multiset Call}
      {keys : List String} (here : s.calls = ⟨some key, client, .purging (dead :: keys)⟩ ::ₘ rest) :
      Step normalize s ((s.purge dead).moved ⟨some key, client, .purging keys⟩ rest)
  | upgrade {s : Issuance} {key : String} {client : IpAddr} {rest : Multiset Call}
      (here : s.calls = ⟨some key, client, .purging []⟩ ::ₘ rest) :
      Step normalize s
        ((s.upgrade key).2.moved ⟨some key, client, .found (s.upgrade key).1.1⟩ rest)
  /-- the permit, and the lock is free again -/
  | grant {s : Issuance} {key : Option String} {client k : IpAddr} {id : ℕ} {rest : Multiset Call}
      {shared : Shared} {c : Capacity} (here : s.calls = ⟨key, client, .found id⟩ ::ₘ rest)
      (at_id : s.heap[id]? = some shared)
      (granted : shared.capacity.tryAcquire client = (some k, c)) :
      Step normalize s { s.moved ⟨key, client, .live id⟩ rest with
        heap := s.heap.set id { shared with capacity := c }, locked := false }
  | refuse {s : Issuance} {key : Option String} {client : IpAddr} {id : ℕ} {rest : Multiset Call}
      {shared : Shared} {c : Capacity} (here : s.calls = ⟨key, client, .found id⟩ ::ₘ rest)
      (at_id : s.heap[id]? = some shared)
      (refused : shared.capacity.tryAcquire client = (none, c)) :
      Step normalize s { s.moved ⟨key, client, .refused id⟩ rest with
        heap := s.heap.set id { shared with capacity := c } }
  /-- the call's own reference goes, then the lock -/
  | unlock {s : Issuance} {key : Option String} {client : IpAddr} {id : ℕ} {rest : Multiset Call}
      (here : s.calls = ⟨key, client, .refused id⟩ ::ₘ rest) :
      Step normalize s { (s.detach id).moved ⟨key, client, .detached⟩ rest with locked := false }
  /-- the first step of a drop: the client's counter -/
  | decrement {s : Issuance} {key : Option String} {client : IpAddr} {id : ℕ} {rest : Multiset Call}
      {shared : Shared} {c : Capacity} (here : s.calls = ⟨key, client, .live id⟩ ::ₘ rest)
      (at_id : s.heap[id]? = some shared)
      (done : shared.capacity.decrement (clientKey client 64) = .ok c) :
      Step normalize s { s.moved ⟨key, client, .decremented id⟩ rest with
        heap := s.heap.set id { shared with capacity := c } }
  /-- the second: the receiver's slot -/
  | giveBack {s : Issuance} {key : Option String} {client : IpAddr} {id : ℕ} {rest : Multiset Call}
      {shared : Shared} (here : s.calls = ⟨key, client, .decremented id⟩ ::ₘ rest)
      (at_id : s.heap[id]? = some shared) :
      Step normalize s { s.moved ⟨key, client, .returned id⟩ rest with
        heap := s.heap.set id { shared with capacity := shared.capacity.release } }
  /-- the third: the reference -/
  | detach {s : Issuance} {key : Option String} {client : IpAddr} {id : ℕ} {rest : Multiset Call}
      (here : s.calls = ⟨key, client, .returned id⟩ ::ₘ rest) :
      Step normalize s ((s.detach id).moved ⟨key, client, .detached⟩ rest)
  /-- the last: the global permit, which goes in two steps too -/
  | leave {s : Issuance} {key : Option String} {client : IpAddr} {rest : Multiset Call} {c : Capacity}
      (here : s.calls = ⟨key, client, .detached⟩ ::ₘ rest)
      (done : s.global.decrement (clientKey client 64) = .ok c) :
      Step normalize s { s.moved ⟨key, client, .leaving⟩ rest with global := c }
  | gone {s : Issuance} {key : Option String} {client : IpAddr} {rest : Multiset Call}
      (here : s.calls = ⟨key, client, .leaving⟩ ::ₘ rest) :
      Step normalize s { s with global := s.global.release, calls := rest }

/-- The states some run reaches. -/
def Reachable (normalize : String → Except String String) : Issuance → Prop :=
  Relation.ReflTransGen (Step normalize) {}

/-- The global permit is dropped. -/
def leave (s : Issuance) (k : IpAddr) : Issuance :=
  match s.global.decrement k with
  | .ok c => { s with global := c.release }
  | .error _ => { s with global := s.global.release }

/-- `Issuance::acquire`, without any other step in between. -/
def acquire (normalize : String → Except String String) (s : Issuance) (receiver : ReceiverConfig)
    (client : IpAddr) : Except String Unit × Issuance :=
  match s.global.tryAcquire client with
  | (none, c) => (.error "invoice issuance at capacity", { s with global := c })
  | (some k, c) =>
    let s := { s with global := c }
    match receiverKey normalize receiver with
    | .error e => (.error e, s.leave k)
    | .ok key =>
      let ((id, shared), s) := (s.receivers.keys.foldl purge s).upgrade key
      match shared.capacity.tryAcquire client with
      | (none, c) =>
        let s := { s with heap := s.heap.set id { shared with capacity := c } }
        (.error "receiver invoice issuance at capacity", (s.detach id).leave k)
      | (some _, c) => (.ok (), { s with
          heap := s.heap.set id { shared with capacity := c }
          calls := ⟨some key, client, .live id⟩ ::ₘ s.calls })

end Issuance

end Geata.Admission
