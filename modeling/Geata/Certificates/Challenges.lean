import Geata.Certificates.Retry
import Geata.Lib.Concurrent
import Geata.Lib.Map

namespace Geata

open Function
open Geata.Lib
open Geata.Certificates (CertificatePem)

/-!
# Certificate challenges

While a certificate is ordered, the CA fetches challenge responses from the server.  `issue` puts
each response on a shared board and notes its key in a guard; dropping the guard takes the keys off
the board again, however the call ends.

* `issue` — the order of a certificate, over the requests to the CA and the writes to the board.
* `machine` — any number of orders under their timers, and requests for responses.
* `Guarded` — what ties the board to the guards of the running orders.
* `challenges_guarded` — a response is served while its order runs, and not a moment longer.
-/

namespace Challenges

/-! ### The CA -/

inductive AuthorizationStatus where
  | pending | valid | invalid | revoked | expired | deactivated
  deriving DecidableEq, Repr

def AuthorizationStatus.debug : AuthorizationStatus → String
  | .pending => "Pending"
  | .valid => "Valid"
  | .invalid => "Invalid"
  | .revoked => "Revoked"
  | .expired => "Expired"
  | .deactivated => "Deactivated"

inductive OrderStatus where
  | pending | ready | processing | valid | invalid
  deriving DecidableEq

structure Challenge where
  token : String
  keyAuthorization : String

structure Authorization where
  status : AuthorizationStatus
  /-- The HTTP-01 challenge, if the CA offers one. -/
  challenge : Option Challenge

/-- The requests to the CA, which may fail, and the accesses to the board. -/
inductive AcmeOp where
  | newOrder (domain : String)
  | nextAuthorization
  /-- Put a response on the board and its key into the guard; nothing can happen between. -/
  | publish (key : String × String) (response : String)
  | setReady
  | pollReady
  | finalize
  | pollCertificate
  | response (key : String × String)

@[reducible] def AcmeOp.Res : AcmeOp → Type
  /- how many authorizations the order has -/
  | .newOrder _ => Option ℕ
  | .nextAuthorization => Option Authorization
  | .publish _ _ => Unit
  | .setReady => Bool
  | .pollReady => Option OrderStatus
  | .finalize => Option String
  | .pollCertificate => Option String
  | .response _ => Option String

@[reducible] def AcmeSig : Sig where
  Op := AcmeOp
  Res := AcmeOp.Res

/-! ### `issue` -/

inductive IssueError where
  /-- an error of the library or the CA -/
  | acme
  | message (text : String)

abbrev Issue (α : Type) : Type := Stage AcmeSig IssueError α

/-- The answer of the CA, or the end of the call. -/
def answered {α : Type} (answer : Option α) : Issue α :=
  Stage.ofExcept (answer.elim (.error .acme) .ok)

/-- One round of the loop over the authorizations. -/
def authorize (domain : String) : Issue Unit := do
  let authorization ← answered (← Stage.perform (S := AcmeSig) .nextAuthorization)
  match authorization.status with
  | .valid => pure ()
  | .pending =>
    match authorization.challenge with
    | none => throw (.message "CA did not offer an HTTP-01 challenge")
    | some challenge => do
      Stage.perform (S := AcmeSig) (.publish (domain, challenge.token) challenge.keyAuthorization)
      Stage.stopIf (!(← Stage.perform (S := AcmeSig) .setReady)) .acme
  | status => throw (.message ("unexpected authorization status: " ++ status.debug))

/-- The loop over the authorizations of the order. -/
def authorizeAll (domain : String) : ℕ → Issue Unit
  | 0 => pure ()
  | n + 1 => do
    authorize domain
    authorizeAll domain n

def issue (domain : String) : Issue CertificatePem := do
  let authorizations ← answered (← Stage.perform (S := AcmeSig) (.newOrder domain))
  authorizeAll domain authorizations
  let status ← answered (← Stage.perform (S := AcmeSig) .pollReady)
  Stage.stopIf (decide (status ≠ .ready)) (.message "certificate order was not approved")
  let privateKey ← answered (← Stage.perform (S := AcmeSig) .finalize)
  let chain ← answered (← Stage.perform (S := AcmeSig) .pollCertificate)
  return { chain, privateKey }

/-! ### The board -/

/-- The challenge responses, and the keys in the guard of each call. -/
structure Board where
  challenges : Map (String × String) String := ∅
  guards : ℕ → List (String × String) := fun _ => []

namespace Board

def publish (b : Board) (call : ℕ) (key : String × String) (response : String) : Board where
  challenges := b.challenges.insert key response
  guards := update b.guards call (b.guards call ++ [key])

/-- The guard of a call is dropped. -/
def drop (b : Board) (call : ℕ) : Board where
  challenges := (b.guards call).foldl (fun m key => m.erase key) b.challenges
  guards := update b.guards call []

variable {b : Board} {call : ℕ} {key : String × String}

theorem lookup_drop (b : Board) (call : ℕ) (key : String × String) :
    (b.drop call).challenges.lookup key =
      if key ∈ b.guards call then none else b.challenges.lookup key := by
  have herase : ∀ (keys : List (String × String)) (m : Map (String × String) String),
      (keys.foldl (fun m key => m.erase key) m).lookup key =
        if key ∈ keys then none else m.lookup key := by
    intro keys
    induction keys with
    | nil => simp
    | cons k keys ih =>
      intro m
      rw [List.foldl_cons, ih, Map.lookup_erase_eq]
      by_cases hk : key = k
      · simp [hk]
      · simp [hk]
  exact herase _ _

theorem mem_guards_drop {other : ℕ} :
    key ∈ (b.drop call).guards other ↔ other ≠ call ∧ key ∈ b.guards other := by
  by_cases h : other = call
  · simp [drop, h]
  · simp [drop, h]

theorem mem_guards_publish {other : ℕ} {key' : String × String} {response : String} :
    key ∈ (b.publish call key' response).guards other ↔
      key ∈ b.guards other ∨ other = call ∧ key = key' := by
  by_cases h : other = call
  · simp [publish, h]
  · simp [publish, h]

end Board

/-! ### The machine -/

/-- What an operation does to the board.  The CA answers anything. -/
def exec (call : ℕ) (b : Board) (o : AcmeOp) (r : o.Res) (b' : Board) : Prop :=
  match o, r with
  | .publish key response, () => b' = b.publish call key response
  | .response key, r => r = b.challenges.lookup key ∧ b' = b
  | _, _ => b' = b

inductive Request where
  /-- Order a certificate, for at most three minutes. -/
  | issue (domain : String)
  /-- The proxy looks for the response to a challenge. -/
  | response (domain token : String)

inductive Answer where
  /-- `none` when the time was over -/
  | issued (result : Option (Except IssueError CertificatePem))
  | response (text : Option String)

def code : Request → Prog AcmeSig.timers Answer
  | .issue domain => (issue domain).run.timeout.bind (fun r => .ret (.issued r))
  | .response domain token =>
    .op (.plain (.response (domain, token))) (fun text => .ret (.response text))

/-- A call that ends, in whatever way, drops its guard; a timer drops the call under it. -/
def machine : Machine AcmeSig.timers Board Request Answer where
  init b := b = {}
  admits _ _ := True
  code := code
  effects := Effects.timers { exec := exec, cut := fun _ b _ b' => b' = b } (fun call b => b.drop call)
  release call b := b.drop call
  env _ _ := False
  crash _ b' := b' = {}

/-- What an operation has put on the board. -/
def published : AcmeSig.timers.Event → Option ((String × String) × String)
  | ⟨.plain (.publish key response), _⟩ => some (key, response)
  | ⟨.timed (.publish key response), some _⟩ => some (key, response)
  | _ => none

/-- The response an operation has put on the board under the key. -/
def publishedUnder (key : String × String) (e : AcmeSig.timers.Event) : Option String :=
  (published e).bind (fun p => if p.1 = key then some p.2 else none)

/-- The response that was put on the board under the key last. -/
def latest (key : String × String) (tr : List AcmeSig.timers.Event) : Option String :=
  tr.reverse.findSome? (publishedUnder key)

/-- The call has put the response on the board. -/
def Published (w : World AcmeSig.timers Board Request Answer) (call : ℕ) (key : String × String)
    (response : String) : Prop := ∃ e ∈ w.trace call, published e = some (key, response)

/-! ### Keys of a call -/

/-- What is published is published under the domain. -/
def Under (domain : String) : AcmeOp → Prop
  | .publish key _ => key.1 = domain
  | .response _ => False
  | _ => True

theorem answered_under {α : Type} (domain : String) (answer : Option α) :
    Stage.All (S := AcmeSig) (Under domain) (answered answer) := Stage.all_ofExcept _

theorem authorize_under (domain : String) :
    Stage.All (S := AcmeSig) (Under domain) (authorize domain) := by
  apply Stage.All.bind (Stage.all_perform.mpr trivial)
  intro answer
  apply Stage.All.bind (answered_under domain answer)
  intro authorization
  cases authorization.status with
  | valid => exact Stage.all_pure _
  | pending =>
    cases authorization.challenge with
    | none => exact Stage.all_throw _
    | some challenge =>
      have hunder : Under domain (.publish (domain, challenge.token) challenge.keyAuthorization) :=
        rfl
      apply Stage.All.bind (Stage.all_perform.mpr hunder)
      intro _
      apply Stage.All.bind (Stage.all_perform.mpr trivial)
      intro ok
      exact Stage.all_stopIf _ _
  | invalid | revoked | expired | deactivated => exact Stage.all_throw _

/-- A call of `issue` publishes under its own domain only. -/
theorem issue_under (domain : String) :
    Stage.All (S := AcmeSig) (Under domain) (issue domain) := by
  have hall : ∀ n, Stage.All (S := AcmeSig) (Under domain) (authorizeAll domain n) := by
    intro n
    induction n with
    | zero => exact Stage.all_pure _
    | succ n ih => exact Stage.All.bind (authorize_under domain) (fun _ => ih)
  apply Stage.All.bind (Stage.all_perform.mpr trivial)
  intro answer
  apply Stage.All.bind (answered_under domain answer)
  intro authorizations
  apply Stage.All.bind (hall authorizations)
  intro _
  apply Stage.All.bind (Stage.all_perform.mpr trivial)
  intro answer
  apply Stage.All.bind (answered_under domain answer)
  intro status
  apply Stage.All.bind (Stage.all_stopIf _ _)
  intro _
  apply Stage.All.bind (Stage.all_perform.mpr trivial)
  intro answer
  apply Stage.All.bind (answered_under domain answer)
  intro privateKey
  apply Stage.All.bind (Stage.all_perform.mpr trivial)
  intro answer
  apply Stage.All.bind (answered_under domain answer)
  intro chain
  exact Stage.all_pure _

theorem base_published {e : AcmeSig.timers.Event} {key : String × String} {response : String}
    (h : published e = some (key, response)) : .publish key response = Sig.TimerOp.base e.1 := by
  unfold published at h
  split at h
  · obtain ⟨rfl, rfl⟩ := Prod.mk.inj (Option.some.inj h)
    rfl
  · obtain ⟨rfl, rfl⟩ := Prod.mk.inj (Option.some.inj h)
    rfl
  · exact absurd h (by simp)

/-- What a call has put on the board is under the domain it orders for. -/
theorem code_publishes {q : Request} {e : AcmeSig.timers.Event} {tr : List AcmeSig.timers.Event}
    {p : Prog AcmeSig.timers Answer} (hr : (code q).Reaches tr p) (he : e ∈ tr)
    {key : String × String} {response : String} (hpub : published e = some (key, response)) :
    q = .issue key.1 := by
  cases q with
  | issue domain =>
    have htimed : (issue domain).run.timeout.All (fun o : AcmeSig.TimerOp => Under domain o.base) :=
      Prog.all_timeout (issue_under domain)
    have hall : (code (.issue domain)).All (fun o : AcmeSig.TimerOp => Under domain o.base) :=
      Prog.all_bind.mpr ⟨htimed, fun r tr _ => Prog.all_ret _⟩
    have hunder : Under domain (Sig.TimerOp.base e.1) := (hall.reaches hr).1 e he
    rw [← base_published hpub] at hunder
    exact congrArg Request.issue hunder.symm
  | response domain token =>
    have hall : (code (.response domain token)).All
        (fun o : AcmeSig.TimerOp => o.base = .response (domain, token)) := ⟨rfl, fun _ => trivial⟩
    have hbase : Sig.TimerOp.base e.1 = .response (domain, token) := (hall.reaches hr).1 e he
    rw [← base_published hpub] at hbase
    exact absurd hbase (by simp)

/-! ### The board and the guards -/

variable {w w' : World AcmeSig.timers Board Request Answer}

/-- The guards are those of the running calls, and the board holds what is in the guards. -/
structure Guarded (w : World AcmeSig.timers Board Request Answer) : Prop where
  idle : ∀ call, w.procs call = none → w.shared.guards call = []
  posted : ∀ key response, w.shared.challenges.lookup key = some response →
    ∃ call, key ∈ w.shared.guards call ∧ Published w call key response
  held : ∀ call key, key ∈ w.shared.guards call → ∃ response, Published w call key response
  /-- Only a call that uses the same key can take it off the board, or overwrite it. -/
  kept : ∀ call key, key ∈ w.shared.guards call →
    (∀ other response, Published w other key response → other = call) →
    w.shared.challenges.lookup key = latest key (w.trace call)
  /-- Until its timer fires, a call keeps the guard. -/
  live : ∀ call q p key response, w.procs call = some (q, p) → Published w call key response →
    key ∈ w.shared.guards call ∨ ∃ a, p = .ret a

/-- A call has performed one more operation. -/
def performed (w : World AcmeSig.timers Board Request Answer) (call : ℕ)
    (x : Request × Prog AcmeSig.timers Answer) (e : AcmeSig.timers.Event) (b : Board) :
    World AcmeSig.timers Board Request Answer :=
  { w with
    shared := b
    procs := update w.procs call (some x)
    trace := update w.trace call (w.trace call ++ [e]) }

section

variable {call other : ℕ} {x : Request × Prog AcmeSig.timers Answer} {e : AcmeSig.timers.Event}
  {b : Board} {key : String × String} {response : String}

theorem published_performed : Published (performed w call x e b) other key response ↔
    Published w other key response ∨ other = call ∧ published e = some (key, response) := by
  by_cases h : other = call
  · subst h
    simp [Published, performed, or_comm]
  · simp [Published, performed, h]

theorem latest_performed : latest key ((performed w call x e b).trace other) =
    if other = call then (publishedUnder key e).or (latest key (w.trace call))
    else latest key (w.trace other) := by
  by_cases h : other = call
  · subst h
    simp only [performed, update_self, latest, List.reverse_append, List.reverse_singleton,
      List.singleton_append, List.findSome?_cons, if_true]
    cases publishedUnder key e with
    | none => rfl
    | some response => rfl
  · simp [performed, h]

/-- An operation that publishes nothing under the key leaves the latest response as it is. -/
theorem latest_performed_of_ne (h : ∀ response, published e ≠ some (key, response)) :
    latest key ((performed w call x e b).trace other) = latest key (w.trace other) := by
  have hnone : publishedUnder key e = none := by
    unfold publishedUnder
    cases hpub : published e with
    | none => rfl
    | some p =>
      have hp : p.1 ≠ key := fun heq => h p.2 (by rw [hpub, ← heq])
      simp [hp]
  rw [latest_performed, hnone, Option.none_or]
  split
  · rename_i heq
    rw [heq]
  · rfl

theorem exists_latest (h : Published w call key response) :
    ∃ response', latest key (w.trace call) = some response' := by
  obtain ⟨e, he, hpub⟩ := h
  have hunder : publishedUnder key e = some response := by simp [publishedUnder, hpub]
  rw [← Option.isSome_iff_exists, latest, List.findSome?_isSome_iff]
  exact ⟨e, List.mem_reverse.mpr he, by rw [hunder]; rfl⟩

theorem procs_performed {q : Request} {p : Prog AcmeSig.timers Answer}
    (h : (performed w call x e b).procs other = some (q, p)) :
    other = call ∧ p = x.2 ∨ other ≠ call ∧ w.procs other = some (q, p) := by
  by_cases hcall : other = call
  · subst hcall
    simp only [performed, update_self, Option.some.injEq] at h
    exact .inl ⟨rfl, by rw [h]⟩
  · simp only [performed, update_of_ne hcall] at h
    exact .inr ⟨hcall, h⟩

theorem idle_performed (h : (performed w call x e b).procs other = none) :
    other ≠ call ∧ w.procs other = none := by
  by_cases hcall : other = call
  · subst hcall
    simp [performed] at h
  · simp only [performed, update_of_ne hcall] at h
    exact ⟨hcall, h⟩

/-- An operation that leaves the board alone. -/
theorem Guarded.quiet (h : Guarded w) (he : published e = none)
    (hlive : ∀ key response, Published w call key response →
      key ∈ w.shared.guards call ∨ ∃ a, x.2 = .ret a) :
    Guarded (performed w call x e w.shared) := by
  have hold : ∀ {other : ℕ} {key : String × String} {response : String},
      Published (performed w call x e w.shared) other key response ↔
        Published w other key response := by
    intro other key response
    rw [published_performed, he]
    simp
  constructor
  · intro other hother
    exact h.idle other (idle_performed hother).2
  · intro key response hlookup
    obtain ⟨other, hmem, hpub⟩ := h.posted key response hlookup
    exact ⟨other, hmem, hold.mpr hpub⟩
  · intro other key hmem
    obtain ⟨response, hpub⟩ := h.held other key hmem
    exact ⟨response, hold.mpr hpub⟩
  · intro other key hmem hall
    rw [latest_performed_of_ne (by simp [he])]
    exact h.kept other key hmem (fun j response hpub => hall j response (hold.mpr hpub))
  · intro other q p key response hp hpub
    rcases procs_performed hp with ⟨rfl, rfl⟩ | ⟨-, hp⟩
    · exact hlive key response (hold.mp hpub)
    · exact h.live other q p key response hp (hold.mp hpub)

/-- A response is put on the board. -/
theorem Guarded.publish (h : Guarded w) (he : published e = some (key, response))
    (hlive : ∀ key response, Published w call key response → key ∈ w.shared.guards call) :
    Guarded (performed w call x e (w.shared.publish call key response)) := by
  have hlookup : ∀ k, (w.shared.publish call key response).challenges.lookup k =
      if k = key then some response else w.shared.challenges.lookup k :=
    fun k => Map.lookup_insert_eq
  constructor
  · intro other hother
    obtain ⟨hcall, hother⟩ := idle_performed hother
    simp only [performed, Board.publish, update_of_ne hcall]
    exact h.idle other hother
  · intro k r hk
    have hk : (w.shared.publish call key response).challenges.lookup k = some r := hk
    rw [hlookup] at hk
    by_cases hkey : k = key
    · rw [if_pos hkey] at hk
      obtain rfl := Option.some.inj hk
      subst hkey
      exact ⟨call, Board.mem_guards_publish.mpr (.inr ⟨rfl, rfl⟩),
        published_performed.mpr (.inr ⟨rfl, he⟩)⟩
    · rw [if_neg hkey] at hk
      obtain ⟨other, hmem, hpub⟩ := h.posted k r hk
      exact ⟨other, Board.mem_guards_publish.mpr (.inl hmem), published_performed.mpr (.inl hpub)⟩
  · intro other k hmem
    rcases Board.mem_guards_publish.mp hmem with hmem | ⟨rfl, rfl⟩
    · obtain ⟨r, hpub⟩ := h.held other k hmem
      exact ⟨r, published_performed.mpr (.inl hpub)⟩
    · exact ⟨response, published_performed.mpr (.inr ⟨rfl, he⟩)⟩
  · intro other k hmem hall
    show (w.shared.publish call key response).challenges.lookup k = _
    rw [hlookup]
    by_cases hkey : k = key
    · subst hkey
      obtain rfl := hall call response (published_performed.mpr (.inr ⟨rfl, he⟩))
      rw [if_pos rfl, latest_performed, if_pos rfl]
      simp [publishedUnder, he]
    · rw [if_neg hkey, latest_performed_of_ne (by simp [he, Ne.symm hkey])]
      rcases Board.mem_guards_publish.mp hmem with hmem | ⟨-, rfl⟩
      · exact h.kept other k hmem (fun j r hpub => hall j r (published_performed.mpr (.inl hpub)))
      · exact absurd rfl hkey
  · intro other q p k r hp hpub
    rcases published_performed.mp hpub with hold | ⟨rfl, heq⟩
    · rcases procs_performed hp with ⟨rfl, rfl⟩ | ⟨-, hp⟩
      · exact .inl (Board.mem_guards_publish.mpr (.inl (hlive k r hold)))
      · rcases h.live other q p k r hp hold with hmem | hret
        · exact .inl (Board.mem_guards_publish.mpr (.inl hmem))
        · exact .inr hret
    · obtain ⟨rfl, -⟩ := Prod.mk.inj (Option.some.inj (he.symm.trans heq))
      exact .inl (Board.mem_guards_publish.mpr (.inr ⟨rfl, rfl⟩))

end

/-- The guard of a call is dropped with the call. -/
theorem Guarded.drop (h : Guarded w) (call : ℕ) :
    Guarded { w with shared := w.shared.drop call, procs := update w.procs call none } where
  idle other hother := by
    by_cases hcall : other = call
    · simp [Board.drop, hcall]
    · simp only [update_of_ne hcall] at hother
      simp only [Board.drop, update_of_ne hcall]
      exact h.idle other hother
  posted key response hlookup := by
    rw [Board.lookup_drop] at hlookup
    by_cases hkey : key ∈ w.shared.guards call
    · rw [if_pos hkey] at hlookup
      exact absurd hlookup (by simp)
    · rw [if_neg hkey] at hlookup
      obtain ⟨other, hmem, hpub⟩ := h.posted key response hlookup
      refine ⟨other, Board.mem_guards_drop.mpr ⟨?_, hmem⟩, hpub⟩
      rintro rfl
      exact hkey hmem
  held other key hmem := h.held other key (Board.mem_guards_drop.mp hmem).2
  kept other key hmem hall := by
    obtain ⟨hne, hmem⟩ := Board.mem_guards_drop.mp hmem
    rw [Board.lookup_drop, if_neg]
    · exact h.kept other key hmem hall
    · -- The dropped call would have used the key as well.
      intro hkey
      obtain ⟨response, hpub⟩ := h.held call key hkey
      exact hne (hall call response hpub).symm
  live other q p key response hp hpub := by
    by_cases hcall : other = call
    · subst hcall
      simp at hp
    · simp only [update_of_ne hcall] at hp
      rcases h.live other q p key response hp hpub with hmem | hret
      · exact .inl (Board.mem_guards_drop.mpr ⟨hcall, hmem⟩)
      · exact .inr hret

/-- A timer drops the guard, and the call has nothing more to do. -/
theorem Guarded.fire (h : Guarded w) {call : ℕ} {x : Request × Prog AcmeSig.timers Answer}
    {e : AcmeSig.timers.Event} (he : published e = none) (hx : ∃ a, x.2 = .ret a) :
    Guarded (performed w call x e (w.shared.drop call)) := by
  have heq : performed { w with shared := w.shared.drop call, procs := update w.procs call none }
      call x e (w.shared.drop call) = performed w call x e (w.shared.drop call) := by
    simp [performed]
  rw [← heq]
  exact (h.drop call).quiet he (fun _ _ _ => .inr hx)

/-- What is left of a call once its timer has fired. -/
theorem timer_ends {q : Request} {o : AcmeOp} {tr : List AcmeSig.timers.Event}
    {k : Option o.Res → Prog AcmeSig.timers Answer}
    (h : (code q).Reaches tr (.op (.timed o) k)) : ∃ a, k none = .ret a := by
  cases q with
  | issue domain =>
    rcases Prog.reaches_timeout h with ⟨a, heq⟩ | ⟨o', k', heq, hk⟩
    · exact absurd heq (by simp)
    · cases heq
      exact ⟨_, hk⟩
  | response domain token =>
    cases h with
    | op h => cases h

theorem Guarded.op (h : Guarded w) (ht : w.Tidy machine) {call : ℕ} {q : Request}
    {o : AcmeSig.TimerOp} {k : AcmeSig.timers.Res o → Prog AcmeSig.timers Answer}
    {r : AcmeSig.timers.Res o} {b : Board} (hp : w.procs call = some (q, .op o k))
    (he : machine.effects.exec call w.shared o r b) :
    Guarded (performed w call (q, k r) ⟨o, r⟩ b) := by
  have hlive : ∀ key response, Published w call key response → key ∈ w.shared.guards call := by
    intro key response hpub
    exact (h.live call q _ key response hp hpub).resolve_right (by simp)
  -- An operation that runs to its end, under a timer or not.
  have hdone : ∀ (o : AcmeOp) (r : o.Res) (e : AcmeSig.timers.Event) (b : Board)
      (x : Request × Prog AcmeSig.timers Answer), exec call w.shared o r b →
      (∀ key response, o = .publish key response → published e = some (key, response)) →
      ((∀ key response, o ≠ .publish key response) → published e = none) →
      Guarded (performed w call x e b) := by
    intro o r e b x he hpub hnone
    have hquiet : published e = none → Guarded (performed w call x e w.shared) :=
      fun hnone => h.quiet hnone (fun key response hk => .inl (hlive key response hk))
    cases o with
    | publish key response =>
      obtain rfl : b = w.shared.publish call key response := he
      exact h.publish (hpub key response rfl) hlive
    | response key =>
      obtain ⟨-, rfl⟩ : _ ∧ b = w.shared := he
      exact hquiet (hnone (by simp))
    | newOrder _ | nextAuthorization | setReady | pollReady | finalize | pollCertificate =>
      obtain rfl : b = w.shared := he
      exact hquiet (hnone (by simp))
  cases o with
  | plain o =>
    apply hdone o r ⟨.plain o, r⟩ b _ he
    · rintro key response rfl
      rfl
    · intro hne
      cases o with
      | publish key response => exact absurd rfl (hne key response)
      | _ => rfl
  | timed o =>
    cases r with
    | some r =>
      apply hdone o r ⟨.timed o, some r⟩ b _ he
      · rintro key response rfl
        rfl
      · intro hne
        cases o with
        | publish key response => exact absurd rfl (hne key response)
        | _ => rfl
    | none =>
      obtain ⟨-, rfl, rfl⟩ : ∃ s₁, s₁ = w.shared ∧ b = s₁.drop call := he
      apply h.fire
      · cases o with
        | _ => rfl
      · exact timer_ends (ht.reaches call q _ hp).2

/-- Nothing is on the board of a new process. -/
theorem guarded_empty (hb : w.shared = {}) (hp : ∀ call, w.procs call = none) : Guarded w where
  idle call _ := by rw [hb]
  posted key response hk := by
    rw [hb] at hk
    exact absurd hk (by simp)
  held call key hmem := by
    rw [hb] at hmem
    exact absurd hmem (by simp)
  kept call key hmem := by
    rw [hb] at hmem
    exact absurd hmem (by simp)
  live call q p key response hcall := by
    rw [hp call] at hcall
    exact absurd hcall (by simp)

/-- **Step lemma.**  Every step keeps the board and the guards together. -/
theorem Guarded.step (h : Guarded w) (ht : w.Tidy machine) (hs : World.Step machine w w') :
    Guarded w' := by
  cases hs with
  | @start q hq =>
    have hnew := ht.fresh w.started (Nat.le_refl _)
    refine ⟨fun call hcall => ?_, h.posted, h.held, h.kept, fun call q' p key response hp hpub => ?_⟩
    · by_cases hstart : call = w.started
      · exact absurd hcall (by simp [hstart])
      · simp only [update_of_ne hstart] at hcall
        exact h.idle call hcall
    · by_cases hstart : call = w.started
      · obtain ⟨e, he, -⟩ := hpub
        rw [hstart, hnew.2.1] at he
        exact absurd he (by simp)
      · simp only [update_of_ne hstart] at hp
        exact h.live call q' p key response hp hpub
  | exec hp he => exact h.op ht hp he
  | @finish call q a hp =>
    have hdrop := h.drop call
    exact ⟨hdrop.idle, hdrop.posted, hdrop.held, hdrop.kept, hdrop.live⟩
  | @drop call q p hp => exact h.drop call
  | @cancel call q o k b hp hc =>
    have hb : b = w.shared := by
      cases o with
      | plain o => exact hc
      | timed o => exact hc
    rw [hb]
    exact h.drop call
  | env he => exact he.elim
  | crash hc =>
    exact guarded_empty hc (fun _ => rfl)

/-- **Run lemma.** -/
theorem guarded (h : World.Reachable machine w) : Guarded w := by
  apply h.induction (P := Guarded)
  · rintro b rfl
    exact guarded_empty rfl (fun _ => rfl)
  · intro w w' hreach h hs
    exact h.step hreach.tidy hs

/-- Nothing that was published is forgotten. -/
theorem Published.steps {call : ℕ} {key : String × String} {response : String}
    (h : Published w call key response) (hs : World.Steps machine w w') :
    Published w' call key response := by
  induction hs with
  | refl => exact h
  | tail _ hs ih =>
    cases hs with
    | exec hp he => exact published_performed.mpr (.inl ih)
    | _ => exact ih

/-- What is on the board was put there by a running order for its domain. -/
theorem posted_running (h : World.Reachable machine w) {key : String × String} {response : String}
    (hk : w.shared.challenges.lookup key = some response) :
    ∃ call p, w.procs call = some (.issue key.1, p) ∧ Published w call key response := by
  have hguard := guarded h
  obtain ⟨call, hmem, hpub⟩ := hguard.posted key response hk
  cases hp : w.procs call with
  | none =>
    rw [hguard.idle call hp] at hmem
    exact absurd hmem (by simp)
  | some x =>
    obtain ⟨q, p⟩ := x
    obtain ⟨e, he, hkey⟩ := hpub
    obtain rfl := code_publishes (h.tidy.reaches call q p hp).2 he hkey
    exact ⟨call, p, hp, e, he, hkey⟩

/-- An answered response was on the board at some moment. -/
theorem answered_posted (h : World.Reachable machine w) {call : ℕ} {domain token response : String}
    (hret : (call, .response domain token, .response (some response)) ∈ w.returned) :
    ∃ u, World.Reachable machine u ∧ World.Steps machine u w ∧
      u.shared.challenges.lookup (domain, token) = some response := by
  obtain ⟨-, hruns⟩ := h.tidy.runs _ hret
  obtain ⟨r, tr, htr, hend⟩ := Prog.runs_op.mp hruns
  obtain ⟨rfl, heq⟩ := Prog.runs_ret.mp hend
  obtain rfl : r = some response := Answer.response.inj heq
  obtain ⟨b, hinit, hsteps⟩ := h
  have hmem : (⟨.plain (.response (domain, token)), some response⟩ : AcmeSig.timers.Event) ∈
      w.trace call := by
    rw [htr]
    exact List.mem_singleton_self _
  rcases World.Steps.performed hsteps hmem with hold | ⟨u, v, q, k, hu, hstep, hv, -, hexec⟩
  · exact absurd hold (by simp [World.initial])
  · refine ⟨u, ⟨b, hinit, hu⟩, (Relation.ReflTransGen.single hstep).trans hv, ?_⟩
    obtain ⟨heq, -⟩ : some response = u.shared.challenges.lookup (domain, token) ∧ _ := hexec
    exact heq.symm

/-- **A challenge response is served exactly while its order runs.**  In every reachable state, with
    any orders at once, answers of the CA, timers, aborted calls and crashes: a response on the
    board was put there by a call that is still running and orders for its domain; while a call
    runs and its timer has not fired, the response it has put up last under a key is on the board,
    unless another call has used the same key; and an answered response was put up by an order for
    that domain. -/
theorem challenges_guarded (h : World.Reachable machine w) :
    (∀ key response, w.shared.challenges.lookup key = some response →
      ∃ call p, w.procs call = some (.issue key.1, p) ∧ Published w call key response) ∧
    (∀ call q p key response, w.procs call = some (q, p) → Published w call key response →
      (∀ other response', Published w other key response' → other = call) →
      (∃ response', latest key (w.trace call) = some response' ∧
        w.shared.challenges.lookup key = some response') ∨ ∃ a, p = .ret a) ∧
    ∀ call domain token response, (call, .response domain token, .response (some response)) ∈
      w.returned → ∃ order, w.requests order = some (.issue domain) ∧
        Published w order (domain, token) response := by
  refine ⟨fun key response hk => posted_running h hk,
    fun call q p key response hp hpub hall => ?_, fun call domain token response hret => ?_⟩
  · have hguard := guarded h
    rcases hguard.live call q p key response hp hpub with hmem | hret
    · left
      obtain ⟨response', hlatest⟩ := exists_latest hpub
      exact ⟨response', hlatest, (hguard.kept call key hmem hall).trans hlatest⟩
    · exact .inr hret
  · obtain ⟨u, hu, hs, hk⟩ := answered_posted h hret
    obtain ⟨order, p, hp, hpub⟩ := posted_running hu hk
    exact ⟨order, World.Steps.requests hu hs (hu.tidy.reaches order _ p hp).1, hpub.steps hs⟩

/-- What is left of an order, as the call that runs it. -/
def ordering (domain : String) (p : Prog AcmeSig (Except IssueError CertificatePem)) :
    Request × Prog AcmeSig.timers Answer :=
  (.issue domain, p.timeout.bind (fun r => .ret (.issued r)))

/-- An order goes on before its time is over. -/
theorem step_ordering (call : ℕ) {domain : String} {o : AcmeOp} (r : o.Res)
    {p : Prog AcmeSig (Except IssueError CertificatePem)}
    {k : o.Res → Prog AcmeSig (Except IssueError CertificatePem)} {b : Board}
    (hp : w.procs call = some (ordering domain p)) (heq : p = .op o k)
    (he : exec call w.shared o r b) :
    World.Step machine w (performed w call (ordering domain (k r)) ⟨.timed o, some r⟩ b) := by
  rw [heq, ordering, Prog.timeout, Prog.op_bind] at hp
  exact World.Step.exec (M := machine) (o := Sig.TimerOp.timed (S := AcmeSig) o) (r := some r) hp he

/-- A response is looked up. -/
theorem step_response (call : ℕ) {domain token : String} {text : Option String}
    (hp : w.procs call = some (.response domain token, code (.response domain token)))
    (hk : text = w.shared.challenges.lookup (domain, token)) :
    World.Step machine w (performed w call (.response domain token, .ret (.response text))
      ⟨.plain (.response (domain, token)), text⟩ w.shared) := by
  exact World.Step.exec (M := machine)
    (o := Sig.TimerOp.plain (S := AcmeSig) (.response (domain, token))) (r := text) hp ⟨hk, rfl⟩

/-- The CA fetches the response to its challenge while the order waits. -/
theorem challenges_guarded_fetched :
    ∃ w : World AcmeSig.timers Board Request Answer, World.Reachable machine w ∧
      (1, .response "a.b" "t", .response (some "t.k")) ∈ w.returned ∧
      ∃ order, w.requests order = some (.issue "a.b") ∧ Published w order ("a.b", "t") "t.k" := by
  obtain ⟨k₁, h₁, k₂, h₂, k₃, h₃⟩ : ∃ k₁, (issue "a.b").run = .op (.newOrder "a.b") k₁ ∧
      ∃ k₂, k₁ (some 1) = .op .nextAuthorization k₂ ∧
      ∃ k₃, k₂ (some ⟨.pending, some ⟨"t", "t.k"⟩⟩) = .op (.publish ("a.b", "t") "t.k") k₃ :=
    ⟨_, rfl, _, rfl, _, rfl⟩
  have s₁ : World.Steps machine (World.initial {}) _ := .single (.start (q := .issue "a.b") trivial)
  have s₂ := s₁.tail (step_ordering 0 (some 1) rfl h₁ rfl)
  have s₃ := s₂.tail (step_ordering 0 (some ⟨.pending, some ⟨"t", "t.k"⟩⟩) rfl h₂ rfl)
  have s₄ := s₃.tail (step_ordering 0 () rfl h₃ rfl)
  have s₅ := s₄.tail (.start (q := .response "a.b" "t") trivial)
  have s₆ := s₅.tail (step_response 1 rfl rfl)
  have s₇ := s₆.tail (.finish (i := 1) rfl)
  have h : World.Reachable machine _ := ⟨_, rfl, s₇⟩
  exact ⟨_, h, List.mem_cons_self, (challenges_guarded h).2.2 1 "a.b" "t" "t.k" List.mem_cons_self⟩

end Challenges

end Geata
