import Mathlib.Data.List.Sort
import Geata.Certificates.Retry
import Geata.Lib.File

namespace Geata

open Geata.Lib

/-!
# The certificate loop

One task orders, saves and installs the certificates of all sites.  Its variables are the fields
of `Loop`; its body is cut where a file is written, a worker is taken from the set or another
process could be started by a crash, and `Phase` says where in the body it stands.

* `Workers` — the running issue tasks, and which of them counts for a domain.
* `Loop.join`, `Loop.configure`, `Loop.toOrder` — the pure parts of the body.
* `Step` — one action, with everything the outside decides in its label `Act`: which task ended
  and how, the configuration, the clock, the random bytes and the outcome of each write.
* `World.history` — which retry files were saved, which workers were started and which outcomes
  the loop took.
-/

namespace Certificates

/-! ### Workers -/

/-- An issue task.  `begun` is the clock reading its attempt was counted with. -/
structure Job where
  id : ℕ
  domain : String
  begun : ℤ
  aborted : Bool := false
  deriving DecidableEq

/-- The tasks in the `JoinSet`, and for each domain the id of the task that counts. -/
structure Workers where
  jobs : List Job := []
  active : Map String ℕ := ∅

namespace Workers

def spawn (w : Workers) (job : Job) : Workers where
  jobs := job :: w.jobs
  active := w.active.insert job.domain job.id

/-- The `JoinSet` gives up a finished task. -/
def taken (w : Workers) (id : ℕ) : Workers := { w with jobs := w.jobs.filter (fun j => j.id ≠ id) }

/-- The domain a task counts for, which it then no longer does. -/
def remove (w : Workers) (id : ℕ) : Option (String × Workers) :=
  (w.active.entries.find? (fun e => decide (e.2 = id))).map
    (fun e => (e.1, { w with active := w.active.erase e.1 }))

/-- Abort the tasks of the domains that are gone. -/
def retain (w : Workers) (domains : List String) : Workers where
  jobs := w.jobs.map (fun j =>
    if w.active.entries.any (fun e => decide (e.2 = j.id) && decide (e.1 ∉ domains)) then
      { j with aborted := true }
    else j)
  active := w.active.retain (fun domain _ => decide (domain ∈ domains))

end Workers

/-- How an issue task ended. -/
inductive Issued where
  | ok (certificate : PendingCertificate)
  /-- The task returned an error. -/
  | failed
  /-- It panicked or was cancelled. -/
  | stopped

/-! ### The loop's variables -/

structure Loop where
  retries : Retries := {}
  /-- An account is at hand. -/
  account : Bool := false
  /-- Its credentials are not saved yet. -/
  credentials : Bool := false
  loaded : List String := []
  workers : Workers := {}
  pending : Map String PendingCertificate := ∅
  saveAt : ℤ := 0
  /-- The certificates being served. -/
  certificates : Map String Certificate := ∅

namespace Loop

/-- When the served certificate ends. -/
def expiry (l : Loop) (domain : String) : Option ℤ :=
  (l.certificates.lookup domain).map Certificate.notAfter

/-- Change the retry state of a domain, which starts empty. -/
def updateRetry (l : Loop) (domain : String) (f : Retry → Retry) : Loop :=
  { l with retries := { l.retries with
      domains := l.retries.domains.insert domain (f ((l.retries.domains.lookup domain).getD {})) } }

/-- A task ended: keep its certificate, or wait before the next attempt.  The outcome of a task
    that no longer counts is dropped. -/
def join (l : Loop) (id : ℕ) (result : Issued) (now : ℤ) (random : UInt16) : Loop :=
  let workers := l.workers.taken id
  match workers.remove id with
  | none => { l with workers }
  | some (domain, workers) =>
    let l := { l with workers }
    match result with
    | .ok certificate => { l with pending := l.pending.insert domain certificate }
    | .failed | .stopped =>
      l.updateRetry domain (fun r => r.failed now (l.expiry domain) random)

/-- Load the saved certificate of a site that was not loaded before and has none. -/
def loadCertificate (l : Loop) (stored : String → Option Certificate)
    (certificates : Map String Certificate) (domain : String) : Map String Certificate :=
  if domain ∉ l.loaded ∧ certificates.lookup domain = none then
    match stored domain with
    | some certificate => certificates.insert domain certificate
    | none => certificates
  else certificates

/-- Drop what belongs to sites that are gone, and load the saved certificates of new ones. -/
def configure (l : Loop) (domains : List String) (stored : String → Option Certificate) : Loop :=
  let kept := l.certificates.retain (fun domain _ => decide (domain ∈ domains))
  { l with
    workers := l.workers.retain domains
    loaded := domains
    pending := l.pending.retain (fun domain _ => decide (domain ∈ domains))
    certificates := domains.foldl (l.loadCertificate stored) kept }

/-- Put a saved certificate in use. -/
def install (l : Loop) (domain : String) (p : PendingCertificate) : Loop :=
  { l with
    certificates := l.certificates.insert domain p.certificate
    retries := { l.retries with domains := l.retries.domains.erase domain }
    pending := l.pending.erase domain }

/-- A certificate is needed: none is under way, the served one is due, and the wait is over.
    The two clock readings are those of the two tests. -/
def wanted (l : Loop) (readings : ℤ × ℤ) (domain : String) : Bool :=
  (l.workers.active.lookup domain).isNone && (l.pending.lookup domain).isNone &&
    (l.certificates.lookup domain).all (fun c => c.needsRenewal readings.1) &&
    (l.retries.domains.lookup domain).all (fun r => r.ready readings.2)

/-- The order of the attempts: the next certificate to end first, then by name. -/
def sooner (l : Loop) (d₁ d₂ : String) : Bool :=
  let e₁ := (l.expiry d₁).getD 0
  let e₂ := (l.expiry d₂).getD 0
  decide (e₁ < e₂) || decide (e₁ = e₂) && !decide (d₂ < d₁)

/-- The domains to order for; nothing while credentials are unsaved, the CA wants a pause, four
    tasks are running or the account has to wait. -/
def toOrder (l : Loop) (cooldownReady : Bool) (now : ℤ) (domains : List String)
    (readings : String → ℤ × ℤ) : List String :=
  if l.credentials || !cooldownReady || decide (4 ≤ l.workers.jobs.length) then []
  else if !l.account && !l.retries.account.ready now then []
  else (domains.filter (fun d => l.wanted (readings d) d)).insertionSort
    (fun d₁ d₂ => l.sooner d₁ d₂ = true)

/-- The earliest end of the certificates to replace. -/
def firstExpiry (l : Loop) (needed : List String) : Option ℤ := (needed.filterMap l.expiry).min?

/-- The account could be made or read; the credentials of a new one have to be saved. -/
def registered (l : Loop) (credentials : Bool) : Loop :=
  { l with
    account := true
    credentials
    retries := { l.retries with account := {} }
    saveAt := 0 }

/-- Change the retry state of the account. -/
def updateAccount (l : Loop) (f : Retry → Retry) : Loop :=
  { l with retries := { l.retries with account := f l.retries.account } }

end Loop

/-! ### The machine -/

/-- Where the loop stands.  The arguments are the local variables still in use. -/
inductive Phase where
  /-- Waiting for a tick or a task. -/
  | select
  /-- A task was taken; the retries are to be written. -/
  | joined
  | configure
  | save (domains : List String)
  | saveAccount (domains : List String)
  /-- Saving the pending certificates; these are left. -/
  | savePending (domains left : List String) (saved : Bool)
  | order (domains : List String)
  /-- The retry files are written; orders for these domains are due. -/
  | ordering (needed : List String)
  /-- Waiting for the account. -/
  | registering (needed : List String)
  | spawning (left : List String)
  /-- The attempt for the domain is counted and saved; its task is to be started. -/
  | starting (domain : String) (begun : ℤ) (left : List String)

/-- What the loop did that matters later. -/
inductive Event where
  /-- `retries.json` was successfully written. -/
  | wrote (retries : Retries)
  | spawned (job : Job)
  /-- The loop observed the outcome of a task. -/
  | took (id : ℕ)

structure World where
  /-- The running process, if there is one. -/
  process : Option (Phase × Loop)
  retriesFile : File Retries
  certificateFile : String → File CertificatePem
  clock : ℤ
  history : List Event := []

namespace World

/-- The clock can be read as `now`.  It does not run backwards, and the process does not live to
    see its last three minutes. -/
def Reads (w : World) (now : ℤ) : Prop := w.clock ≤ now ∧ now + 180 ≤ i64Max

/-- The tests of the domains read the clock one after the other. -/
def ReadsAll (w : World) (now : ℤ) (readings : String → ℤ × ℤ) : Prop :=
  ∀ d, w.clock ≤ (readings d).1 ∧ (readings d).1 ≤ now ∧
    w.clock ≤ (readings d).2 ∧ (readings d).2 ≤ now

/-- Go on at `phase`. -/
def enter (w : World) (phase : Phase) (l : Loop) : World := { w with process := some (phase, l) }

/-- Write `retries.json`. -/
def writeRetries (w : World) (retries : Retries) (outcome : Written) : World :=
  { w with
    retriesFile := w.retriesFile.write retries outcome
    history := if outcome = .done then .wrote retries :: w.history else w.history }

/-- Write the certificate of a domain. -/
def writeCertificate (w : World) (domain : String) (pem : CertificatePem) (outcome : Written) :
    World :=
  { w with
    certificateFile := fun d =>
      if d = domain then (w.certificateFile d).write pem outcome else w.certificateFile d }

/-- The saved certificate of a domain. -/
def stored (parse : Parse) (w : World) (domain : String) : Option Certificate :=
  (w.certificateFile domain).content.bind (parse domain)

end World

/-- The actions, with what the outside decides in each. -/
inductive Act where
  | tick
  | join (job : Job) (result : Issued) (now : ℤ) (random : UInt16)
  | saveRetries (outcome : Written)
  | configure (domains : List String)
  | keepWaiting (now : ℤ)
  | beginSave (now later : ℤ)
  | saveAccount (outcome : Written) (left : List String)
  | expire (domain : String) (now : ℤ)
  | save (domain : String) (now : ℤ) (outcome : Written)
  | endSave (outcome : Written)
  | rest (cooldownReady : Bool) (now : ℤ) (readings : String → ℤ × ℤ)
  | persist (now : ℤ) (readings : String → ℤ × ℤ) (persisted : Bool) (outcome : Written)
  | registerLater (now : ℤ)
  | register (now : ℤ) (random : UInt16) (outcome : Written)
  | registered (created : Option Bool) (now : ℤ) (random : UInt16) (outcome : Written)
  | spawnAll
  | begin (domain : String) (now : ℤ) (random : UInt16) (outcome : Written)
  | spawn (id : ℕ)
  | spawnedAll
  | crash
  | load

/-- One action of the loop or of its surroundings. -/
inductive Step (parse : Parse) : World → Act → World → Prop where
  | tick {w : World} {l : Loop} (hp : w.process = some (.select, l)) :
      Step parse w .tick (w.enter .configure l)
  /-- A task of the set ended.  A certificate was parsed and valid at some time since its attempt
      began; `result` is arbitrary for an aborted task too, which may have ended before. -/
  | join {w : World} {l : Loop} {job : Job} {result : Issued} {now : ℤ} {random : UInt16}
      (hp : w.process = some (.select, l)) (hjob : job ∈ l.workers.jobs) (hnow : w.Reads now)
      (hresult : ∀ p, result = .ok p → parse job.domain p.pem = some p.certificate ∧
        ∃ t, job.begun ≤ t ∧ t ≤ now ∧ p.certificate.validAt t = true) :
      Step parse w (.join job result now random)
        { w.enter .joined (l.join job.id result now random) with
          clock := now
          history := if ((l.workers.taken job.id).remove job.id).isSome then
            .took job.id :: w.history else w.history }
  | saveRetries {w : World} {l : Loop} {outcome : Written}
      (hp : w.process = some (.joined, l)) :
      Step parse w (.saveRetries outcome) ((w.writeRetries l.retries outcome).enter .configure l)
  | configure {w : World} {l : Loop} {domains : List String}
      (hp : w.process = some (.configure, l)) (hnodup : domains.Nodup) :
      Step parse w (.configure domains)
        (w.enter (.save domains) (l.configure domains (w.stored parse)))
  | keepWaiting {w : World} {l : Loop} {domains : List String} {now : ℤ}
      (hp : w.process = some (.save domains, l)) (hnow : w.Reads now) (hearly : now < l.saveAt) :
      Step parse w (.keepWaiting now) { w.enter (.order domains) l with clock := now }
  | beginSave {w : World} {l : Loop} {domains : List String} {now later : ℤ}
      (hp : w.process = some (.save domains, l)) (hnow : w.Reads now) (hdue : l.saveAt ≤ now)
      (hlater : now ≤ later) (hend : later + 180 ≤ i64Max) :
      Step parse w (.beginSave now later)
        { w.enter (.saveAccount domains) { l with saveAt := later + 5 } with clock := later }
  /-- Unsaved credentials are written; then the pending certificates are visited in any order. -/
  | saveAccount {w : World} {l : Loop} {domains left : List String} {outcome : Written}
      (hp : w.process = some (.saveAccount domains, l)) (hleft : left.Perm l.pending.keys) :
      Step parse w (.saveAccount outcome left)
        (w.enter (.savePending domains left false)
          { l with credentials := l.credentials && decide (outcome ≠ .done) })
  | expire {w : World} {l : Loop} {domains left : List String} {saved : Bool} {domain : String}
      {p : PendingCertificate} {now : ℤ}
      (hp : w.process = some (.savePending domains (domain :: left) saved, l))
      (hpending : l.pending.lookup domain = some p) (hnow : w.Reads now)
      (hinvalid : p.certificate.validAt now = false) :
      Step parse w (.expire domain now)
        { w.enter (.savePending domains left saved)
            { l with pending := l.pending.erase domain } with clock := now }
  | save {w : World} {l : Loop} {domains left : List String} {saved : Bool} {domain : String}
      {p : PendingCertificate} {now : ℤ} {outcome : Written}
      (hp : w.process = some (.savePending domains (domain :: left) saved, l))
      (hpending : l.pending.lookup domain = some p) (hnow : w.Reads now)
      (hvalid : p.certificate.validAt now = true) :
      Step parse w (.save domain now outcome)
        { (w.writeCertificate domain p.pem outcome).enter
            (.savePending domains left (saved || decide (outcome = .done)))
            (if outcome = .done then l.install domain p else l) with clock := now }
  | endSave {w : World} {l : Loop} {domains : List String} {saved : Bool} {outcome : Written}
      (hp : w.process = some (.savePending domains [] saved, l)) :
      Step parse w (.endSave outcome)
        ((if saved then w.writeRetries l.retries outcome else w).enter (.order domains) l)
  /-- Nothing to order now. -/
  | rest {w : World} {l : Loop} {domains : List String} {cooldownReady : Bool} {now : ℤ}
      {readings : String → ℤ × ℤ} (hp : w.process = some (.order domains, l)) (hnow : w.Reads now)
      (hreadings : w.ReadsAll now readings)
      (hnone : l.toOrder cooldownReady now domains readings = []) :
      Step parse w (.rest cooldownReady now readings) { w.enter .select l with clock := now }
  /-- There is something to order; first the cooldown and the retries are written. -/
  | persist {w : World} {l : Loop} {domains : List String} {now : ℤ}
      {readings : String → ℤ × ℤ} {persisted : Bool} {outcome : Written}
      (hp : w.process = some (.order domains, l)) (hnow : w.Reads now)
      (hreadings : w.ReadsAll now readings)
      (hsome : l.toOrder true now domains readings ≠ []) :
      Step parse w (.persist now readings persisted outcome)
        { (if persisted then w.writeRetries l.retries outcome else w).enter
            (if persisted && decide (outcome = .done) then
              .ordering (l.toOrder true now domains readings) else .select) l with clock := now }
  | registerLater {w : World} {l : Loop} {needed : List String} {now : ℤ}
      (hp : w.process = some (.ordering needed, l)) (haccount : l.account = false)
      (hnow : w.Reads now) (hwait : l.retries.account.ready now = false) :
      Step parse w (.registerLater now) { w.enter .select l with clock := now }
  | register {w : World} {l : Loop} {needed : List String} {now : ℤ} {random : UInt16}
      {outcome : Written}
      (hp : w.process = some (.ordering needed, l)) (haccount : l.account = false)
      (hnow : w.Reads now) (hready : l.retries.account.ready now = true) :
      Step parse w (.register now random outcome)
        (let l := l.updateAccount (fun r => r.begin now (l.firstExpiry needed) 30 random)
        { (w.writeRetries l.retries outcome).enter
            (if outcome = .done then .registering needed else .select) l with clock := now })
  /-- The account was made or read (`some`, saying whether it is new), or could not be. -/
  | registered {w : World} {l : Loop} {needed : List String} {created : Option Bool} {now : ℤ}
      {random : UInt16} {outcome : Written} (hp : w.process = some (.registering needed, l))
      (hnow : w.Reads now) :
      Step parse w (.registered created now random outcome)
        (let l := match created with
          | some credentials => l.registered credentials
          | none => l.updateAccount (fun r => r.failed now (l.firstExpiry needed) random)
        { (w.writeRetries l.retries outcome).enter .select l with clock := now })
  | spawnAll {w : World} {l : Loop} {needed : List String}
      (hp : w.process = some (.ordering needed, l)) (haccount : l.account = true) :
      Step parse w .spawnAll (w.enter (.spawning (needed.take (4 - l.workers.jobs.length))) l)
  /-- Count the attempt before asking the CA; a failed write ends the round. -/
  | begin {w : World} {l : Loop} {domain : String} {left : List String} {now : ℤ}
      {random : UInt16} {outcome : Written}
      (hp : w.process = some (.spawning (domain :: left), l)) (hnow : w.Reads now) :
      Step parse w (.begin domain now random outcome)
        (let l := l.updateRetry domain (fun r => r.begin now (l.expiry domain) 180 random)
        { (w.writeRetries l.retries outcome).enter
            (if outcome = .done then .starting domain now left else .select) l with clock := now })
  /-- The runtime gives every task an id of its own. -/
  | spawn {w : World} {l : Loop} {domain : String} {begun : ℤ} {left : List String} {id : ℕ}
      (hp : w.process = some (.starting domain begun left, l))
      (hfresh : ∀ job, Event.spawned job ∈ w.history → job.id ≠ id) :
      Step parse w (.spawn id)
        { w.enter (.spawning left) { l with workers := l.workers.spawn { id, domain, begun } } with
          history := .spawned { id, domain, begun } :: w.history }
  | spawnedAll {w : World} {l : Loop} (hp : w.process = some (.spawning [], l)) :
      Step parse w .spawnedAll (w.enter .select l)
  /-- The process ends; unsynced replacements of files may be undone. -/
  | crash {w : World} {retriesFile : File Retries}
      {certificateFile : String → File CertificatePem} (hretries : w.retriesFile.Crash retriesFile)
      (hcertificates : ∀ d, (w.certificateFile d).Crash (certificateFile d)) :
      Step parse w .crash { w with process := none, retriesFile, certificateFile }
  | load {w : World} (hp : w.process = none) :
      Step parse w .load (w.enter .select { retries := w.retriesFile.content.getD {} })

/-- A run all of whose actions satisfy `P`. -/
inductive Run (parse : Parse) (P : Act → Prop) (w : World) : World → Prop where
  | refl : Run parse P w w
  | step {w₁ w₂ : World} {a : Act} (h : Run parse P w w₁) (hs : Step parse w₁ a w₂) (ha : P a) :
      Run parse P w w₂

/-- Before the first process; the files hold anything. -/
structure First (w : World) : Prop where
  process : w.process = none
  history : w.history = []

/-- The condition on the CA: a certificate is not due for renewal within five seconds of the
    clock reading its order was begun with. -/
def Lasting : Act → Prop
  | .join job (.ok p) _ _ => job.begun + 5 ≤ p.certificate.renewal
  | _ => True

/-! ### A short run -/

theorem Run.mono {parse : Parse} {P Q : Act → Prop} {w w' : World} (h : Run parse P w w')
    (hPQ : ∀ a, P a → Q a) : Run parse Q w w' := by
  induction h with
  | refl => exact .refl
  | step _ hs ha ih => exact ih.step hs (hPQ _ ha)

/-- A leaf for `A.b`. -/
def testLeaf (notAfter : ℤ) : X509 where
  der := []
  subjectAltNames := some [none, some "A.b"]
  notBefore := some 0
  notAfter := some notAfter

/-- One key for everything; the certificate called `longer` ends at 1508, the others at 1200. -/
def testOpenssl : Openssl where
  stackFromPem text := some [testLeaf (if text = "longer" then 1508 else 1200)]
  privateKeyFromPem _ := some ⟨[]⟩
  publicEq _ _ := some true

def testParse : Parse := parseCertificate testOpenssl

/-- A certificate of twenty minutes. -/
def testCertificate : Certificate where
  chain := [testLeaf 1200]
  key := ⟨[]⟩
  notBefore := 0
  notAfter := 1200
  nonempty := by simp
  ordered := by decide

def testPending : PendingCertificate where
  pem := { chain := "", privateKey := "" }
  certificate := testCertificate

/-- Nothing is stored yet. -/
def testFirst : World where
  process := none
  retriesFile := { content := none }
  certificateFile := fun _ => { content := none }
  clock := 996

/-- The account is made. -/
def testAccount : World :=
  { testFirst with
    process := some (.select, { account := true, loaded := ["a.b"] })
    retriesFile := { content := some {} }
    history := [.wrote {}, .wrote { account := ⟨1, 1026⟩ }, .wrote {}] }

/-- A worker was started four seconds after the last save. -/
def testStarted : World :=
  let waiting : Retries := { domains := (∅ : Map String Retry).insert "a.b" ⟨1, 1180⟩ }
  let job : Job := { id := 7, domain := "a.b", begun := 1000 }
  { testAccount with
    process := some (.select,
      { retries := waiting
        account := true
        loaded := ["a.b"]
        workers := { jobs := [job], active := (∅ : Map String ℕ).insert "a.b" 7 }
        saveAt := 1001 })
    retriesFile := { content := some waiting }
    clock := 1000
    history := .spawned job :: .wrote waiting :: .wrote {} :: testAccount.history }

/-- The certificate that the worker returned a second later is about to be saved. -/
def testIssued (p : PendingCertificate) : World :=
  { testStarted with
    process := some (.savePending ["a.b"] ["a.b"] false,
      { retries := { domains := (∅ : Map String Retry).insert "a.b" ⟨1, 1180⟩ }
        account := true
        loaded := ["a.b"]
        pending := (∅ : Map String PendingCertificate).insert "a.b" p
        saveAt := 1006 })
    clock := 1001
    history := .wrote { domains := (∅ : Map String Retry).insert "a.b" ⟨1, 1180⟩ } :: .took 7 ::
      testStarted.history }

theorem readsAll_const {w : World} {now : ℤ} (h : w.clock ≤ now) :
    w.ReadsAll now (fun _ => (now, now)) := fun _ => ⟨h, le_refl _, h, le_refl _⟩

/-- The ids of the workers started so far. -/
def startedId : Event → Option ℕ
  | .spawned job => some job.id
  | _ => none

theorem fresh_of_notMem {history : List Event} {id : ℕ} (h : id ∉ history.filterMap startedId) :
    ∀ job, Event.spawned job ∈ history → job.id ≠ id := by
  intro job hjob heq
  exact h (List.mem_filterMap.mpr ⟨_, hjob, congrArg some heq⟩)

theorem run_testAccount : Run testParse Lasting testFirst testAccount := by
  have s₀ : Run testParse Lasting testFirst testFirst := .refl
  have s₁ := s₀.step (a := .load) (.load rfl) trivial
  have s₂ := s₁.step (a := .tick) (.tick rfl) trivial
  have s₃ := s₂.step (a := .configure ["a.b"]) (.configure rfl (by decide)) trivial
  have s₄ := s₃.step (a := .beginSave 996 996)
    (.beginSave rfl ⟨by decide, by decide⟩ (by decide) (by decide) (by decide)) trivial
  have s₅ := s₄.step (a := .saveAccount .done []) (.saveAccount rfl (List.Perm.refl _)) trivial
  have s₆ := s₅.step (a := .endSave .done) (.endSave rfl) trivial
  have s₇ := s₆.step (a := .persist 996 (fun _ => (996, 996)) true .done)
    (.persist rfl ⟨by decide, by decide⟩ (readsAll_const (by decide)) (by decide)) trivial
  have s₈ := s₇.step (a := .register 996 0 .done)
    (.register rfl rfl ⟨by decide, by decide⟩ (by decide)) trivial
  have s₉ := s₈.step (a := .registered (some false) 996 0 .done)
    (.registered rfl ⟨by decide, by decide⟩) trivial
  exact s₉

theorem run_testStarted : Run testParse Lasting testFirst testStarted := by
  have s₁ := run_testAccount.step (a := .tick) (.tick rfl) trivial
  have s₂ := s₁.step (a := .configure ["a.b"]) (.configure rfl (by decide)) trivial
  have s₃ := s₂.step (a := .beginSave 996 996)
    (.beginSave rfl ⟨by decide, by decide⟩ (by decide) (by decide) (by decide)) trivial
  have s₄ := s₃.step (a := .saveAccount .done []) (.saveAccount rfl (List.Perm.refl _)) trivial
  have s₅ := s₄.step (a := .endSave .done) (.endSave rfl) trivial
  have s₆ := s₅.step (a := .persist 996 (fun _ => (996, 996)) true .done)
    (.persist rfl ⟨by decide, by decide⟩ (readsAll_const (by decide)) (by decide)) trivial
  have s₇ := s₆.step (a := .spawnAll) (.spawnAll rfl rfl) trivial
  have s₈ := s₇.step (a := .begin "a.b" 1000 0 .done) (.begin rfl ⟨by decide, by decide⟩) trivial
  have s₉ := s₈.step (a := .spawn 7)
    (.spawn rfl (fresh_of_notMem (by decide))) trivial
  have s₁₀ := s₉.step (a := .spawnedAll) (.spawnedAll rfl) trivial
  exact s₁₀

/-- Any certificate that is valid then can be the one returned. -/
theorem run_testIssued {P : Act → Prop} {p : PendingCertificate}
    (hparse : testParse "a.b" p.pem = some p.certificate)
    (hvalid : p.certificate.validAt 1001 = true) (hP : ∀ a, Lasting a → P a)
    (hjoin : P (.join ⟨7, "a.b", 1000, false⟩ (.ok p) 1001 0)) :
    Run testParse P testFirst (testIssued p) := by
  have s₁ := (run_testStarted.mono hP).step (a := .join ⟨7, "a.b", 1000, false⟩ (.ok p) 1001 0)
    (.join rfl (by decide) ⟨by decide, by decide⟩ (by
      intro q hq
      obtain rfl := Issued.ok.inj hq
      exact ⟨hparse, 1001, by decide, by decide, hvalid⟩)) hjoin
  have s₂ := s₁.step (a := .saveRetries .done) (.saveRetries rfl) (hP _ trivial)
  have s₃ := s₂.step (a := .configure ["a.b"]) (.configure rfl (by decide)) (hP _ trivial)
  have s₄ := s₃.step (a := .beginSave 1001 1001)
    (.beginSave rfl ⟨Int.le_refl 1001, by decide⟩ (Int.le_refl 1001) (by decide) (by decide))
    (hP _ trivial)
  have s₅ := s₄.step (a := .saveAccount .done ["a.b"]) (.saveAccount rfl (List.Perm.refl _))
    (hP _ trivial)
  exact s₅

end Certificates

end Geata
