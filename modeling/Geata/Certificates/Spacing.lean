import Geata.Certificates.Exclusive

namespace Geata

open Geata.Lib

/-!
# The time between two orders

A deadline is kept in memory, in `retries.json`, or, once a certificate is saved and its entry
removed, in the certificate itself, which is not due yet.  Each of these can be lost: memory in a
crash, a file when its directory was not synced, an entry by a failure or a save.  `Guarded` says
that for every started worker one of them still keeps the next order of its domain away.

* `guard` — until when a worker keeps the next order away: three minutes after its attempt began,
  or five seconds once the loop has seen its outcome.
* `Guarded`, `DiskGuarded`, `Phase.Due` — where that is kept in memory, on disk and in between.
* `orders_are_spaced` — when no certificate of the CA is due again within five seconds of its
  order (`Lasting`), orders are spaced in every run, across crashes.
-/

namespace Certificates

/-! ### Guards -/

/-- The loop has seen the outcome of the task. -/
def observed (history : List Event) (id : ℕ) : Bool :=
  history.any (fun
    | .took i => decide (i = id)
    | _ => false)

/-- The earliest time of the next order. -/
def guard (history : List Event) (job : Job) : ℤ :=
  job.begun + if observed history job.id then 5 else 180

theorem five_le_guard (history : List Event) (job : Job) : job.begun + 5 ≤ guard history job := by
  unfold guard
  split <;> omega

theorem guard_le (history : List Event) (job : Job) : guard history job ≤ job.begun + 180 := by
  unfold guard
  split <;> omega

theorem guard_of_not_observed {history : List Event} {job : Job}
    (h : observed history job.id = false) : guard history job = job.begun + 180 := by
  rw [guard, h]
  rfl

theorem guard_of_observed {history : List Event} {job : Job}
    (h : observed history job.id = true) : guard history job = job.begun + 5 := by
  rw [guard, h]
  rfl

/-- More history without new workers. -/
structure Later (history history' : List Event) : Prop where
  sub : history ⊆ history'
  spawned : ∀ job, Event.spawned job ∈ history' → Event.spawned job ∈ history

theorem Later.refl (history : List Event) : Later history history :=
  ⟨List.Subset.refl _, fun _ => id⟩

theorem Later.cons {history : List Event} {e : Event} (he : ∀ job, e ≠ .spawned job) :
    Later history (e :: history) where
  sub := List.subset_cons_self _ _
  spawned := by
    intro job hjob
    rcases List.mem_cons.mp hjob with rfl | hjob
    · exact absurd rfl (he job)
    · exact hjob

theorem observed_mono {history history' : List Event} {id : ℕ} (hsub : history ⊆ history')
    (h : observed history id = true) : observed history' id = true := by
  obtain ⟨e, he, hid⟩ := List.any_eq_true.mp h
  exact List.any_eq_true.mpr ⟨e, hsub he, hid⟩

theorem guard_anti {history history' : List Event} (hsub : history ⊆ history') (job : Job) :
    guard history' job ≤ guard history job := by
  by_cases h : observed history job.id = true
  · rw [guard_of_observed h, guard_of_observed (observed_mono hsub h)]
  · have hnot : observed history job.id = false := by simpa using h
    rw [guard_of_not_observed hnot]
    exact guard_le history' job

/-! ### Where a deadline is kept -/

/-- The retries keep the domain waiting until `g`. -/
def Retries.Holds (retries : Retries) (domain : String) (g : ℤ) : Prop :=
  ∃ r, retries.domains.lookup domain = some r ∧ g ≤ r.next

/-- A certificate that has begun and is not due before `g`. -/
def Certificate.Lasts (c : Certificate) (clock g : ℤ) : Prop := g ≤ c.renewal ∧ c.notBefore ≤ clock

/-- The saved certificate of the domain is one, even after a crash. -/
def StoredLasts (parse : Parse) (clock : ℤ) (file : File CertificatePem) (domain : String)
    (g : ℤ) : Prop :=
  file.Always (fun content =>
    ∃ pem c, content = some pem ∧ parse domain pem = some c ∧ c.Lasts clock g)

/-- So is the served one, or the saved one is going to be loaded. -/
def Loop.ServedLasts (l : Loop) (clock : ℤ) (domain : String) (g : ℤ) : Prop :=
  (∀ c, l.certificates.lookup domain = some c → c.Lasts clock g) ∧
    (l.certificates.lookup domain = none → domain ∉ l.loaded)

section

variable {parse : Parse} {clock clock' g g' : ℤ} {file : File CertificatePem} {domain : String}
  {l : Loop}

theorem Retries.Holds.mono {retries : Retries} (h : retries.Holds domain g) (hg : g' ≤ g) :
    retries.Holds domain g' := by
  obtain ⟨r, hr, hle⟩ := h
  exact ⟨r, hr, le_trans hg hle⟩

theorem Certificate.Lasts.mono {c : Certificate} (h : c.Lasts clock g) (hclock : clock ≤ clock')
    (hg : g' ≤ g) : c.Lasts clock' g' := ⟨le_trans hg h.1, le_trans h.2 hclock⟩

theorem StoredLasts.mono (h : StoredLasts parse clock file domain g) (hclock : clock ≤ clock')
    (hg : g' ≤ g) : StoredLasts parse clock' file domain g' :=
  File.Always.mono h (fun _ ⟨pem, c, hpem, hc, hlasts⟩ => ⟨pem, c, hpem, hc, hlasts.mono hclock hg⟩)

theorem Loop.ServedLasts.mono (h : l.ServedLasts clock domain g) (hclock : clock ≤ clock')
    (hg : g' ≤ g) : l.ServedLasts clock' domain g' :=
  ⟨fun c hc => (h.1 c hc).mono hclock hg, h.2⟩

end

/-! ### The invariant -/

/-- What a process keeps in memory. -/
structure Guarded (parse : Parse) (history : List Event) (clock : ℤ)
    (files : String → File CertificatePem) (l : Loop) : Prop where
  waits : ∀ j, Event.spawned j ∈ history → l.retries.Holds j.domain (guard history j) ∨
    (StoredLasts parse clock (files j.domain) j.domain (guard history j) ∧
      l.ServedLasts clock j.domain (guard history j))
  /-- A waiting certificate is not due before any deadline of its domain. -/
  pending : ∀ domain p, l.pending.lookup domain = some p →
    parse domain p.pem = some p.certificate ∧ p.certificate.notBefore ≤ clock ∧
      ∀ j, Event.spawned j ∈ history → j.domain = domain →
        guard history j ≤ p.certificate.renewal
  /-- The task that counts for a domain came after the deadlines of all others. -/
  latest : ∀ job ∈ l.workers.jobs, job.aborted = false → ∀ j, Event.spawned j ∈ history →
    j.domain = job.domain → (j.id = job.id ∧ j.begun = job.begun) ∨ guard history j ≤ job.begun

/-- What is kept on disk. -/
def DiskGuarded (parse : Parse) (history : List Event) (clock : ℤ)
    (files : String → File CertificatePem) (file : File Retries) : Prop :=
  ∀ j, Event.spawned j ∈ history → file.Always (fun content =>
    (∃ retries, content = some retries ∧ retries.Holds j.domain (guard history j)) ∨
      StoredLasts parse clock (files j.domain) j.domain (guard history j))

/-- The deadlines of the domain are over. -/
def Ready (history : List Event) (clock : ℤ) (domain : String) : Prop :=
  ∀ j, Event.spawned j ∈ history → j.domain = domain → guard history j ≤ clock

/-- What the loop knows on its way to an order. -/
def Phase.Due (history : List Event) (clock : ℤ) (file : File Retries) (l : Loop) :
    Phase → Prop
  | .save domains => domains ⊆ l.loaded
  | .saveAccount domains => domains ⊆ l.loaded
  | .savePending domains _ _ => domains ⊆ l.loaded
  | .order domains => domains ⊆ l.loaded
  | .ordering needed => ∀ d ∈ needed, Ready history clock d
  | .spawning left => ∀ d ∈ left, Ready history clock d
  | .starting domain begun left =>
    (∀ d ∈ left, Ready history clock d) ∧ Ready history begun domain ∧ begun ≤ clock ∧
      l.retries.Holds domain (begun + 180) ∧
      file.Always (fun content => ∃ retries, content = some retries ∧
        retries.Holds domain (begun + 180)) ∧
      ∃ retries, Event.wrote retries ∈ history ∧ retries.Holds domain (begun + 180)
  | _ => True

/-- Any two orders of a domain are as far apart as the earlier one asks for. -/
def Spaced (history : List Event) (events : List Event) : Prop :=
  events.Pairwise (fun later earlier => ∀ j₂ j₁, later = .spawned j₂ → earlier = .spawned j₁ →
    j₁.domain = j₂.domain → guard history j₁ ≤ j₂.begun)

/-- Before every start its deadline was saved. -/
def Recorded : List Event → Prop
  | [] => True
  | e :: before => (∀ j, e = .spawned j →
      ∃ retries, Event.wrote retries ∈ before ∧ retries.Holds j.domain (j.begun + 180)) ∧
    Recorded before

structure World.Spacing (parse : Parse) (w : World) : Prop where
  past : ∀ j, Event.spawned j ∈ w.history → j.begun ≤ w.clock
  spaced : Spaced w.history w.history
  recorded : Recorded w.history
  disk : DiskGuarded parse w.history w.clock w.certificateFile w.retriesFile
  memory : ∀ phase l, w.process = some (phase, l) →
    Guarded parse w.history w.clock w.certificateFile l ∧
      phase.Due w.history w.clock w.retriesFile l

/-! ### Frames -/

section

variable {parse : Parse} {history history' : List Event} {clock clock' : ℤ}
  {files : String → File CertificatePem} {file : File Retries} {l l' : Loop}

theorem Spaced.mono {events : List Event} (h : Spaced history events)
    (hsub : history ⊆ history') : Spaced history' events :=
  List.Pairwise.imp (fun h j₂ j₁ h₂ h₁ hd => le_trans (guard_anti hsub j₁) (h j₂ j₁ h₂ h₁ hd)) h

theorem Spaced.cons {events : List Event} {e : Event} (h : Spaced history events)
    (he : ∀ job, e ≠ .spawned job) : Spaced history (e :: events) :=
  List.Pairwise.cons (fun _ _ j₂ _ h₂ => absurd h₂ (he j₂)) h

theorem Recorded.cons {e : Event} (h : Recorded history) (he : ∀ job, e ≠ .spawned job) :
    Recorded (e :: history) := ⟨fun j hj => absurd hj (he j), h⟩

theorem Ready.mono {domain : String} (h : Ready history clock domain) (hH : Later history history')
    (hclock : clock ≤ clock') : Ready history' clock' domain := by
  intro j hj hd
  exact le_trans (guard_anti hH.sub j) (le_trans (h j (hH.spawned j hj) hd) hclock)

/-- Steps that touch neither the deadlines nor the certificates. -/
theorem Guarded.mono (h : Guarded parse history clock files l) (hH : Later history history')
    (hclock : clock ≤ clock') (hretries : l'.retries.domains = l.retries.domains)
    (hcertificates : l'.certificates = l.certificates) (hloaded : l'.loaded = l.loaded)
    (hpending : ∀ d p, l'.pending.lookup d = some p → l.pending.lookup d = some p)
    (hjobs : ∀ j ∈ l'.workers.jobs, j ∈ l.workers.jobs) :
    Guarded parse history' clock' files l' where
  waits := by
    intro j hj
    have hg := guard_anti hH.sub j
    rcases h.waits j (hH.spawned j hj) with ⟨r, hr, hle⟩ | ⟨hstored, hserved⟩
    · exact .inl ⟨r, by rw [hretries]; exact hr, le_trans hg hle⟩
    · refine .inr ⟨hstored.mono hclock hg, ?_⟩
      have := hserved.mono hclock hg
      rw [Loop.ServedLasts, hcertificates, hloaded]
      exact this
  pending := by
    intro d p hp
    obtain ⟨hparse, hstart, hlasts⟩ := h.pending d p (hpending d p hp)
    exact ⟨hparse, le_trans hstart hclock, fun j hj hd =>
      le_trans (guard_anti hH.sub j) (hlasts j (hH.spawned j hj) hd)⟩
  latest := by
    intro job hjob habort j hj hd
    rcases h.latest job (hjobs job hjob) habort j (hH.spawned j hj) hd with hsame | hle
    · exact .inl hsame
    · exact .inr (le_trans (guard_anti hH.sub j) hle)

theorem DiskGuarded.mono (h : DiskGuarded parse history clock files file)
    (hH : Later history history') (hclock : clock ≤ clock') :
    DiskGuarded parse history' clock' files file := by
  intro j hj
  have hg := guard_anti hH.sub j
  refine (h j (hH.spawned j hj)).mono (fun content hc => ?_)
  rcases hc with ⟨retries, hr, hholds⟩ | hstored
  · exact .inl ⟨retries, hr, hholds.mono hg⟩
  · exact .inr (hstored.mono hclock hg)

/-- Writing the retries of a guarded loop. -/
theorem DiskGuarded.write (h : DiskGuarded parse history clock files file)
    (hl : Guarded parse history clock files l) (outcome : Written) :
    DiskGuarded parse history clock files (file.write l.retries outcome) := by
  intro j hj
  refine (h j hj).write ?_ outcome
  rcases hl.waits j hj with hholds | ⟨hstored, -⟩
  · exact .inl ⟨_, rfl, hholds⟩
  · exact .inr hstored

/-- At most one event more, which is not a start. -/
inductive Grows (history : List Event) : List Event → Prop where
  | same : Grows history history
  | one {e : Event} (he : ∀ job, e ≠ .spawned job) : Grows history (e :: history)

theorem Grows.later (h : Grows history history') : Later history history' := by
  cases h with
  | same => exact Later.refl _
  | one he => exact Later.cons he

theorem grows_writeRetries (w : World) (retries : Retries) (outcome : Written) :
    Grows w.history (w.writeRetries retries outcome).history := by
  unfold World.writeRetries
  dsimp only
  split
  · exact .one (by simp)
  · exact .same

/-- A step that starts no worker. -/
theorem World.Spacing.frame {w w' : World} (h : w.Spacing parse)
    (hH : Grows w.history w'.history) (hclock : w.clock ≤ w'.clock)
    (hdisk : DiskGuarded parse w'.history w'.clock w'.certificateFile w'.retriesFile)
    (hmemory : ∀ phase l, w'.process = some (phase, l) →
      Guarded parse w'.history w'.clock w'.certificateFile l ∧
        phase.Due w'.history w'.clock w'.retriesFile l) : w'.Spacing parse where
  past j hj := le_trans (h.past j (hH.later.spawned j hj)) hclock
  spaced := by
    have hmono := h.spaced.mono hH.later.sub
    generalize hnew : w'.history = history at hH hmono ⊢
    cases hH with
    | same => exact h.spaced
    | one he => exact hmono.cons he
  recorded := by
    generalize hnew : w'.history = history at hH ⊢
    cases hH with
    | same => exact h.recorded
    | one he => exact h.recorded.cons he
  disk := hdisk
  memory := hmemory

/-- A loop whose deadlines and certificates are the same. -/
structure Loop.Quiet (l l' : Loop) : Prop where
  retries : l'.retries.domains = l.retries.domains := by rfl
  certificates : l'.certificates = l.certificates := by rfl
  loaded : l'.loaded = l.loaded := by rfl
  pending : ∀ d p, l'.pending.lookup d = some p → l.pending.lookup d = some p := by
    exact fun _ _ => id
  jobs : ∀ j ∈ l'.workers.jobs, j ∈ l.workers.jobs := by exact fun _ => id

/-- A step that at most writes the retries. -/
theorem World.Spacing.quiet {w w' : World} {phase phase' : Phase} {l l' : Loop}
    (h : w.Spacing parse) (hp : w.process = some (phase, l))
    (hp' : w'.process = some (phase', l')) (hquiet : l.Quiet l')
    (hH : Grows w.history w'.history) (hclock : w.clock ≤ w'.clock)
    (hfiles : w'.certificateFile = w.certificateFile)
    (hfile : w'.retriesFile = w.retriesFile ∨
      ∃ outcome, w'.retriesFile = w.retriesFile.write l'.retries outcome)
    (hdue : Guarded parse w.history w.clock w.certificateFile l →
      phase.Due w.history w.clock w.retriesFile l →
      phase'.Due w'.history w'.clock w'.retriesFile l') : w'.Spacing parse := by
  obtain ⟨hl, hphase⟩ := h.memory phase l hp
  have hl' : Guarded parse w'.history w'.clock w'.certificateFile l' := by
    rw [hfiles]
    exact hl.mono hH.later hclock hquiet.retries hquiet.certificates hquiet.loaded hquiet.pending
      hquiet.jobs
  refine h.frame hH hclock ?_ ?_
  · have hdisk := h.disk.mono hH.later hclock
    rw [← hfiles] at hdisk
    rcases hfile with heq | ⟨outcome, heq⟩
    · rw [heq]
      exact hdisk
    · rw [heq]
      exact hdisk.write hl' outcome
  · intro phase₁ l₁ hp₁
    rw [hp'] at hp₁
    obtain ⟨rfl, rfl⟩ := Prod.mk.inj (Option.some.inj hp₁)
    exact ⟨hl', hdue hl hphase⟩

/-! ### Changes of the deadlines -/

theorem Retries.Holds.of_lookup {retries retries' : Retries} {domain : String} {g : ℤ}
    (h : retries.Holds domain g)
    (heq : retries'.domains.lookup domain = retries.domains.lookup domain) :
    retries'.Holds domain g := by
  obtain ⟨r, hr, hle⟩ := h
  exact ⟨r, heq.trans hr, hle⟩

theorem lookup_updateRetry (l : Loop) (domain d : String) (f : Retry → Retry) :
    (l.updateRetry domain f).retries.domains.lookup d =
      if d = domain then some (f ((l.retries.domains.lookup domain).getD {}))
      else l.retries.domains.lookup d := Map.lookup_insert_eq

/-- Replacing the deadline of a domain by one that covers all its workers. -/
theorem Guarded.updateRetry (h : Guarded parse history clock files l) (hH : Later history history')
    (hclock : clock ≤ clock') (domain : String) (f : Retry → Retry)
    (hcertificates : l'.certificates = l.certificates) (hloaded : l'.loaded = l.loaded)
    (hpending : l'.pending = l.pending) (hjobs : ∀ j ∈ l'.workers.jobs, j ∈ l.workers.jobs)
    (hretries : l'.retries = (l.updateRetry domain f).retries)
    (hf : ∀ r j, Event.spawned j ∈ history' → j.domain = domain →
      guard history' j ≤ (f r).next) : Guarded parse history' clock' files l' := by
  have hrest : Guarded parse history' clock' files { l' with retries := l.retries } :=
    h.mono hH hclock rfl hcertificates hloaded (by rw [hpending]; exact fun _ _ => id) hjobs
  refine ⟨fun j hj => ?_, hrest.pending, hrest.latest⟩
  by_cases hd : j.domain = domain
  · refine .inl ⟨f ((l.retries.domains.lookup domain).getD {}), ?_, hf _ j hj hd⟩
    rw [hretries, lookup_updateRetry, if_pos hd]
  · rcases hrest.waits j hj with hholds | hserved
    · refine .inl (hholds.of_lookup ?_)
      rw [hretries, lookup_updateRetry, if_neg hd]
    · exact .inr hserved

end

/-! ### The configuration -/

theorem lookup_loadCertificate (l : Loop) (stored : String → Option Certificate)
    (m : Map String Certificate) (domain d : String) :
    (l.loadCertificate stored m domain).lookup d =
      (m.lookup d).or (if d = domain ∧ d ∉ l.loaded then stored d else none) := by
  unfold Loop.loadCertificate
  by_cases hload : domain ∉ l.loaded ∧ m.lookup domain = none
  · rw [if_pos hload]
    by_cases hd : d = domain
    · subst hd
      cases hs : stored d with
      | none => simp [hload.2]
      | some c => simp [hload.1, hload.2]
    · cases hs : stored domain with
      | none => simp [hd]
      | some c => simp [hd]
  · rw [if_neg hload]
    by_cases hd : d = domain
    · subst hd
      -- The domain was loaded before, or has a certificate.
      cases hm : m.lookup d with
      | some c => simp
      | none =>
        have hin : d ∈ l.loaded := by
          by_contra hnot
          exact hload ⟨hnot, hm⟩
        simp [hin]
    · simp [hd]

theorem lookup_foldl_load (l : Loop) (stored : String → Option Certificate)
    (domains : List String) (m : Map String Certificate) (d : String) :
    (domains.foldl (l.loadCertificate stored) m).lookup d =
      (m.lookup d).or (if d ∈ domains ∧ d ∉ l.loaded then stored d else none) := by
  induction domains generalizing m with
  | nil => simp
  | cons domain domains ih =>
    rw [List.foldl_cons, ih, lookup_loadCertificate, Option.or_assoc]
    congr 1
    by_cases hd : d = domain
    · subst hd
      by_cases hin : d ∈ l.loaded
      · simp [hin]
      · by_cases hrest : d ∈ domains
        · simp [hin, hrest]
        · simp [hin, hrest]
    · simp [hd]

theorem lookup_configure (l : Loop) (domains : List String) (stored : String → Option Certificate)
    (d : String) : (l.configure domains stored).certificates.lookup d =
      if d ∈ domains then
        (l.certificates.lookup d).or (if d ∉ l.loaded then stored d else none)
      else none := by
  unfold Loop.configure
  dsimp only
  rw [lookup_foldl_load]
  have hretain : (l.certificates.retain (fun domain _ => decide (domain ∈ domains))).lookup d =
      if d ∈ domains then l.certificates.lookup d else none := by
    by_cases hd : d ∈ domains
    · rw [if_pos hd]
      cases hc : l.certificates.lookup d with
      | none => exact Loop.lookup_retain_none hc
      | some c => exact Map.lookup_retain_eq_some.mpr ⟨hc, by simpa using hd⟩
    · rw [if_neg hd]
      cases hr : (l.certificates.retain (fun domain _ => decide (domain ∈ domains))).lookup d with
      | none => rfl
      | some c => exact absurd (by simpa using (Map.lookup_retain_eq_some.mp hr).2) hd
  rw [hretain]
  by_cases hd : d ∈ domains
  · simp [hd]
  · simp [hd]

theorem Guarded.configure {parse : Parse} {w : World} {l : Loop} {domains : List String}
    (h : Guarded parse w.history w.clock w.certificateFile l) :
    Guarded parse w.history w.clock w.certificateFile (l.configure domains (w.stored parse)) where
  waits := by
    intro j hj
    rcases h.waits j hj with hholds | ⟨hstored, hserved⟩
    · exact .inl hholds
    refine .inr ⟨hstored, fun c hc => ?_, fun hnone hin => ?_⟩
    · rw [lookup_configure] at hc
      split at hc
      · rcases Option.or_eq_some_iff.mp hc with hc | ⟨hnone, hc⟩
        · exact hserved.1 c hc
        · -- Loaded from its file just now.
          split at hc
          · obtain ⟨pem, c', hpem, hparse, hlasts⟩ := hstored.content
            rw [World.stored, hpem] at hc
            obtain rfl := Option.some.inj (hparse.symm.trans hc)
            exact hlasts
          · exact absurd hc (by simp)
      · exact absurd hc (by simp)
    · -- A site with a lasting saved certificate serves one.
      have hin' : j.domain ∈ domains := hin
      rw [lookup_configure, if_pos hin'] at hnone
      obtain ⟨hnone, hload⟩ := Option.or_eq_none_iff.mp hnone
      rw [if_pos (hserved.2 hnone)] at hload
      obtain ⟨pem, c', hpem, hparse, -⟩ := hstored.content
      rw [World.stored, hpem] at hload
      exact absurd (hparse.symm.trans hload) (by simp)
  pending := by
    intro d p hp
    exact h.pending d p (Map.lookup_retain_eq_some.mp hp).1
  latest := by
    intro job hjob habort j hj hd
    obtain ⟨j₀, hj₀, hid, hdomain, hbegun, hkept⟩ := Workers.mem_retain hjob
    rw [hid, hbegun]
    exact h.latest j₀ hj₀ (hkept habort).1 j hj (hd.trans hdomain)

/-! ### Steps -/

section

variable {parse : Parse} {w w' : World} {l : Loop}

theorem observed_took (history : List Event) (id : ℕ) : observed (.took id :: history) id = true := by
  simp [observed]

/-- Once a task's outcome is seen, its deadline and those before it are near. -/
theorem guard_took (hl : Guarded parse w.history w.clock w.certificateFile l) {job : Job}
    (hjob : job ∈ l.workers.jobs) (habort : job.aborted = false) {j : Job}
    (hj : Event.spawned j ∈ w.history) (hd : j.domain = job.domain) :
    guard (.took job.id :: w.history) j ≤ job.begun + 5 := by
  rcases hl.latest job hjob habort j hj hd with ⟨hid, hbegun⟩ | hle
  · rw [guard_of_observed (by rw [hid]; exact observed_took _ _), hbegun]
  · have := guard_anti (List.subset_cons_self (Event.took job.id) w.history) j
    omega

theorem spacing_join {job : Job} {result : Issued} {now : ℤ} {random : UInt16}
    (h : w.Spacing parse) (hexcl : w.Exclusive) (hp : w.process = some (.select, l))
    (hjob : job ∈ l.workers.jobs) (hnow : w.Reads now)
    (hresult : ∀ p, result = .ok p → parse job.domain p.pem = some p.certificate ∧
      ∃ t, job.begun ≤ t ∧ t ≤ now ∧ p.certificate.validAt t = true)
    (hlasting : Lasting (.join job result now random)) :
    World.Spacing parse { w.enter .joined (l.join job.id result now random) with
      clock := now
      history := if ((l.workers.taken job.id).remove job.id).isSome then
        .took job.id :: w.history else w.history } := by
  obtain ⟨hl, -⟩ := h.memory _ _ hp
  obtain ⟨hle, -⟩ := hexcl _ _ hp
  have hbegun : job.begun ≤ now := by
    obtain ⟨j, hj, -, -, hb⟩ := hle.started job hjob
    rw [← hb]
    exact le_trans (h.past j hj) hnow.1
  cases habort : job.aborted with
  | true =>
    rw [hle.join_aborted hjob habort, hle.workers.remove_aborted hjob habort]
    refine h.quiet hp rfl ⟨rfl, rfl, rfl, fun _ _ => id, fun j hj => ?_⟩ .same hnow.1 rfl (.inl rfl)
      (fun _ _ => trivial)
    exact (Workers.mem_taken.mp hj).1
  | false =>
    rw [hle.workers.remove_active hjob habort]
    have hgrows : Grows w.history (.took job.id :: w.history) := .one (by simp)
    have hjobs : ∀ j ∈ (l.released job).workers.jobs, j ∈ l.workers.jobs :=
      fun j hj => (Workers.mem_taken.mp hj).1
    refine h.frame hgrows hnow.1 (h.disk.mono hgrows.later hnow.1) ?_
    intro phase₁ l₁ hp₁
    obtain ⟨rfl, rfl⟩ := Prod.mk.inj (Option.some.inj hp₁)
    refine ⟨?_, trivial⟩
    have hfailed : (∀ p, result ≠ .ok p) → Guarded parse (.took job.id :: w.history) now
        w.certificateFile (l.join job.id result now random) := by
      intro hne
      rw [hle.join_failed hjob habort hne]
      refine hl.updateRetry hgrows.later hnow.1 job.domain
        (fun r => r.failed now (l.expiry job.domain) random) rfl rfl rfl hjobs rfl
        (fun r j hj hd => ?_)
      have hend : now + 5 ≤ i64Max := by
        have := hnow.2
        omega
      have hnext := r.le_failed_next (l.expiry job.domain) random hend
      have hguard := guard_took hl hjob habort (hgrows.later.spawned j hj) hd
      omega
    cases result with
    | failed => exact hfailed (by simp)
    | stopped => exact hfailed (by simp)
    | ok p =>
      obtain ⟨hparse, t, -, ht, hvalid⟩ := hresult p rfl
      have hrenewal : job.begun + 5 ≤ p.certificate.renewal := hlasting
      rw [hle.join_ok hjob habort]
      have hrest : Guarded parse (.took job.id :: w.history) now w.certificateFile
          (l.released job) :=
        hl.mono hgrows.later hnow.1 rfl rfl rfl (fun _ _ => id) hjobs
      refine ⟨hrest.waits, fun d p' hp' => ?_, hrest.latest⟩
      have hlookup : (l.pending.insert job.domain p).lookup d = some p' := hp'
      rw [Map.lookup_insert_eq] at hlookup
      by_cases hd : d = job.domain
      · rw [if_pos hd] at hlookup
        obtain rfl := Option.some.inj hlookup
        subst hd
        refine ⟨hparse, ?_, fun j hj hdomain => ?_⟩
        · show p.certificate.notBefore ≤ now
          simp only [Certificate.validAt, Bool.and_eq_true, decide_eq_true_eq] at hvalid
          omega
        · exact le_trans (guard_took hl hjob habort (hgrows.later.spawned j hj) hdomain) hrenewal
      · rw [if_neg hd] at hlookup
        exact hrest.pending d p' hlookup

theorem spacing_save {domains left : List String} {saved : Bool} {domain : String}
    {p : PendingCertificate} {now : ℤ} {outcome : Written} (h : w.Spacing parse)
    (hp : w.process = some (.savePending domains (domain :: left) saved, l))
    (hpending : l.pending.lookup domain = some p) (hnow : w.Reads now) :
    World.Spacing parse { (w.writeCertificate domain p.pem outcome).enter
        (.savePending domains left (saved || decide (outcome = .done)))
        (if outcome = .done then l.install domain p else l) with clock := now } := by
  obtain ⟨hl₀, hdue⟩ := h.memory _ _ hp
  have hl := hl₀.mono (Later.refl _) hnow.1 rfl rfl rfl (fun _ _ => id) (fun _ => id)
  obtain ⟨hparse, hstart, hlasts⟩ := hl.pending domain p hpending
  have hfile : ∀ d, (w.writeCertificate domain p.pem outcome).certificateFile d =
      if d = domain then (w.certificateFile d).write p.pem outcome else w.certificateFile d :=
    fun d => rfl
  -- The new certificate lasts as long as every deadline of its domain.
  have hnew : ∀ j, Event.spawned j ∈ w.history → j.domain = domain →
      p.certificate.Lasts now (guard w.history j) := fun j hj hd => ⟨hlasts j hj hd, hstart⟩
  have hstored : ∀ j, Event.spawned j ∈ w.history →
      StoredLasts parse now (w.certificateFile j.domain) j.domain (guard w.history j) →
      StoredLasts parse now ((w.writeCertificate domain p.pem outcome).certificateFile j.domain)
        j.domain (guard w.history j) := by
    intro j hj hst
    rw [hfile]
    by_cases hd : j.domain = domain
    · rw [if_pos hd]
      exact File.Always.write hst ⟨p.pem, _, rfl, by rw [hd]; exact hparse, hnew j hj hd⟩ outcome
    · rw [if_neg hd]
      exact hst
  refine h.frame .same hnow.1 ?_ ?_
  · intro j hj
    refine ((h.disk.mono (Later.refl _) hnow.1) j hj).mono (fun content hc => ?_)
    rcases hc with hholds | hst
    · exact .inl hholds
    · exact .inr (hstored j hj hst)
  · intro phase₁ l₁ hp₁
    obtain ⟨rfl, rfl⟩ := Prod.mk.inj (Option.some.inj hp₁)
    by_cases ho : outcome = .done
    · rw [if_pos ho]
      refine ⟨⟨fun j hj => ?_, fun d p' hp' => ?_, hl.latest⟩, hdue⟩
      · by_cases hd : j.domain = domain
        · -- The entry is gone, but the saved certificate now keeps the deadline.
          refine .inr ⟨?_, fun c hc => ?_, fun hnone => ?_⟩
          · show StoredLasts parse now
              ((w.writeCertificate domain p.pem outcome).certificateFile j.domain) _ _
            rw [hfile, if_pos hd, ho]
            exact File.always_done.mpr ⟨p.pem, _, rfl, by rw [hd]; exact hparse, hnew j hj hd⟩
          · have hc' : (l.certificates.insert domain p.certificate).lookup j.domain = some c := hc
            rw [Map.lookup_insert_eq, if_pos hd] at hc'
            obtain rfl := Option.some.inj hc'
            exact hnew j hj hd
          · have hnone' : (l.certificates.insert domain p.certificate).lookup j.domain = none :=
              hnone
            rw [Map.lookup_insert_eq, if_pos hd] at hnone'
            exact absurd hnone' (by simp)
        · rcases hl.waits j hj with hholds | ⟨hst, hserved⟩
          · refine .inl (hholds.of_lookup ?_)
            show (l.retries.domains.erase domain).lookup j.domain = _
            rw [Map.lookup_erase_eq, if_neg hd]
          · refine .inr ⟨hstored j hj hst, ?_⟩
            have hsame : (l.install domain p).certificates.lookup j.domain =
                l.certificates.lookup j.domain := by
              show (l.certificates.insert domain p.certificate).lookup j.domain = _
              rw [Map.lookup_insert_eq, if_neg hd]
            rw [Loop.ServedLasts, hsame]
            exact hserved
      · have herase : (l.pending.erase domain).lookup d = some p' := hp'
        rw [Map.lookup_erase_eq] at herase
        split at herase
        · exact absurd herase (by simp)
        · exact hl.pending d p' herase
    · rw [if_neg ho]
      refine ⟨⟨fun j hj => ?_, hl.pending, hl.latest⟩, hdue⟩
      rcases hl.waits j hj with hholds | ⟨hst, hserved⟩
      · exact .inl hholds
      · exact .inr ⟨hstored j hj hst, hserved⟩

/-- A wanted domain has no deadline left. -/
theorem ready_of_wanted (hl : Guarded parse w.history w.clock w.certificateFile l)
    {domain : String} {readings : ℤ × ℤ} {now : ℤ} (hloaded : domain ∈ l.loaded)
    (h₁ : w.clock ≤ readings.1) (h₁' : readings.1 ≤ now) (h₂ : readings.2 ≤ now)
    (hwanted : l.wanted readings domain = true) : Ready w.history now domain := by
  intro j hj hd
  simp only [Loop.wanted, Bool.and_eq_true] at hwanted
  obtain ⟨⟨-, hcert⟩, hretry⟩ := hwanted
  rw [← hd] at hcert hretry hloaded
  rcases hl.waits j hj with ⟨r, hr, hle⟩ | ⟨-, hserved, hunloaded⟩
  · rw [hr] at hretry
    have hready : r.next ≤ readings.2 := by simpa [Retry.ready] using hretry
    omega
  · cases hc : l.certificates.lookup j.domain with
    | none => exact absurd hloaded (hunloaded hc)
    | some c =>
      obtain ⟨hrenewal, hstart⟩ := hserved c hc
      rw [hc] at hcert
      have hdue := Certificate.renewal_le_of_needsRenewal (le_trans hstart h₁) (by simpa using hcert)
      omega

theorem spacing_begin {domain : String} {left : List String} {now : ℤ} {random : UInt16}
    {outcome : Written} (h : w.Spacing parse)
    (hp : w.process = some (.spawning (domain :: left), l)) (hnow : w.Reads now)
    {l' : Loop} (hl' : l' = l.updateRetry domain (fun r => r.begin now (l.expiry domain) 180 random)) :
    World.Spacing parse { (w.writeRetries l'.retries outcome).enter
        (if outcome = .done then .starting domain now left else .select) l' with clock := now } := by
  obtain ⟨hl, hdue⟩ := h.memory _ _ hp
  have hready : ∀ d ∈ domain :: left, Ready w.history w.clock d := hdue
  have hgrows := grows_writeRetries w l'.retries outcome
  have hnext : ∀ r : Retry, now + 180 ≤ (r.begin now (l.expiry domain) 180 random).next :=
    fun r => r.le_begin_next _ _ hnow.2
  have hholds : l'.retries.Holds domain (now + 180) := by
    refine ⟨_, ?_, hnext ((l.retries.domains.lookup domain).getD {})⟩
    rw [hl', lookup_updateRetry, if_pos rfl]
  have hguarded : Guarded parse (w.writeRetries l'.retries outcome).history now
      w.certificateFile l' := by
    refine hl.updateRetry hgrows.later hnow.1 domain _ (by rw [hl']; rfl) (by rw [hl']; rfl)
      (by rw [hl']; rfl) (by rw [hl']; exact fun _ => id) (by rw [hl']) (fun r j hj hd => ?_)
    have hpast := h.past j (hgrows.later.spawned j hj)
    have hguard := guard_le (w.writeRetries l'.retries outcome).history j
    have hnow' := hnow.1
    have hr := hnext r
    omega
  refine h.frame hgrows hnow.1 ((h.disk.mono hgrows.later hnow.1).write hguarded outcome) ?_
  intro phase₁ l₁ hp₁
  obtain ⟨rfl, rfl⟩ := Prod.mk.inj (Option.some.inj hp₁)
  refine ⟨hguarded, ?_⟩
  by_cases ho : outcome = .done
  · rw [if_pos ho]
    refine ⟨fun d hd => (hready d (List.mem_cons_of_mem _ hd)).mono hgrows.later hnow.1,
      (hready domain List.mem_cons_self).mono hgrows.later hnow.1, le_refl now, hholds, ?_, ?_⟩
    · show (w.retriesFile.write l'.retries outcome).Always _
      rw [ho]
      exact File.always_done.mpr ⟨_, rfl, hholds⟩
    · refine ⟨l'.retries, ?_, hholds⟩
      show Event.wrote l'.retries ∈ ite _ _ _
      rw [if_pos ho]
      exact List.mem_cons_self
  · rw [if_neg ho]
    trivial

theorem spacing_spawn {domain : String} {begun : ℤ} {left : List String} {id : ℕ}
    (h : w.Spacing parse) (hexcl : w.Exclusive)
    (hp : w.process = some (.starting domain begun left, l)) :
    World.Spacing parse
      { w.enter (.spawning left) { l with workers := l.workers.spawn { id, domain, begun } } with
        history := .spawned { id, domain, begun } :: w.history } := by
  obtain ⟨hl, hready, hself, hbegun, hholds, hdisk, hwrote⟩ := h.memory _ _ hp
  obtain ⟨hle, hnodup, hfree, -⟩ := hexcl _ _ hp
  obtain ⟨hactive, hnone⟩ := hfree domain List.mem_cons_self
  have hsub : w.history ⊆ Event.spawned { id, domain, begun } :: w.history :=
    List.subset_cons_self _ _
  have hnew := guard_le (Event.spawned { id, domain, begun } :: w.history) { id, domain, begun }
  -- The worker is the new one, or an old one with its old deadline.
  have hcases : ∀ j, Event.spawned j ∈ Event.spawned { id, domain, begun } :: w.history →
      j = { id, domain, begun } ∨ Event.spawned j ∈ w.history := by
    intro j hj
    rcases List.mem_cons.mp hj with heq | hj
    · exact .inl (Event.spawned.inj heq)
    · exact .inr hj
  refine ⟨fun j hj => ?_, ?_, ?_, fun j hj => ?_, fun phase₁ l₁ hp₁ => ?_⟩
  · rcases hcases j hj with rfl | hj
    · exact hbegun
    · exact h.past j hj
  · refine List.Pairwise.cons (fun e he j₂ j₁ h₂ h₁ hd => ?_) (h.spaced.mono hsub)
    obtain rfl := Event.spawned.inj h₂
    subst h₁
    exact le_trans (guard_anti hsub j₁) (hself j₁ he hd)
  · refine ⟨fun j hj => ?_, h.recorded⟩
    obtain rfl := Event.spawned.inj hj
    exact hwrote
  · rcases hcases j hj with rfl | hj
    · refine File.Always.mono hdisk (fun content hc => ?_)
      obtain ⟨retries, hr, hh⟩ := hc
      exact .inl ⟨retries, hr, hh.mono hnew⟩
    · refine (h.disk j hj).mono (fun content hc => ?_)
      rcases hc with ⟨retries, hr, hh⟩ | hst
      · exact .inl ⟨retries, hr, hh.mono (guard_anti hsub j)⟩
      · exact .inr (hst.mono (le_refl _) (guard_anti hsub j))
  · obtain ⟨rfl, rfl⟩ := Prod.mk.inj (Option.some.inj hp₁)
    refine ⟨⟨fun j hj => ?_, fun d p hlookup => ?_, fun job hjob habort j hj hd => ?_⟩, ?_⟩
    · rcases hcases j hj with rfl | hj
      · exact .inl (hholds.mono hnew)
      · rcases hl.waits j hj with hh | ⟨hst, hserved⟩
        · exact .inl (hh.mono (guard_anti hsub j))
        · exact .inr ⟨hst.mono (le_refl _) (guard_anti hsub j),
            hserved.mono (le_refl _) (guard_anti hsub j)⟩
    · obtain ⟨hparse, hstart, hlasts⟩ := hl.pending d p hlookup
      refine ⟨hparse, hstart, fun j hj hd => ?_⟩
      rcases hcases j hj with rfl | hj
      · -- Nothing waits for the domain of the new worker.
        have hlookup' : l.pending.lookup domain = some p := by
          rw [show domain = d from hd]
          exact hlookup
        rw [hnone] at hlookup'
        exact absurd hlookup' (by simp)
      · exact le_trans (guard_anti hsub j) (hlasts j hj hd)
    · rcases List.mem_cons.mp hjob with rfl | hjob
      · rcases hcases j hj with rfl | hj
        · exact .inl ⟨rfl, rfl⟩
        · exact .inr (le_trans (guard_anti hsub j) (hself j hj hd))
      · have hother : job.domain ≠ domain := by
          intro heq
          have hrec := hle.workers.recorded job hjob habort
          rw [heq, hactive] at hrec
          exact absurd hrec (by simp)
        rcases hcases j hj with rfl | hj
        · exact absurd hd.symm hother
        · rcases hl.latest job hjob habort j hj hd with hsame | hle
          · exact .inl hsame
          · exact .inr (le_trans (guard_anti hsub j) hle)
    · intro d hd j hj hdomain
      rcases hcases j hj with rfl | hj
      · -- Each domain is ordered for once in a round.
        have hin : domain ∈ left := by
          rw [show domain = d from hdomain]
          exact hd
        exact absurd hin (List.nodup_cons.mp hnodup).1
      · exact le_trans (guard_anti hsub j) (hready d hd j hj hdomain)

theorem Step.spacing {a : Act} (hs : Step parse w a w') (hexcl : w.Exclusive)
    (h : w.Spacing parse) (ha : Lasting a) : w'.Spacing parse := by
  have hclock : ∀ {now : ℤ}, w.Reads now → w.clock ≤ now := fun hnow => hnow.1
  cases hs with
  | tick hp => exact h.quiet hp rfl {} .same (le_refl _) rfl (.inl rfl) (fun _ _ => trivial)
  | join hp hjob hnow hresult => exact spacing_join h hexcl hp hjob hnow hresult ha
  | @saveRetries l outcome hp =>
    exact h.quiet hp rfl {} (grows_writeRetries w _ _) (le_refl _) rfl (.inr ⟨outcome, rfl⟩)
      (fun _ _ => trivial)
  | configure hp hnodup =>
    refine h.frame .same (le_refl _) h.disk (fun phase₁ l₁ hp₁ => ?_)
    obtain ⟨rfl, rfl⟩ := Prod.mk.inj (Option.some.inj hp₁)
    exact ⟨(h.memory _ _ hp).1.configure, List.Subset.refl _⟩
  | keepWaiting hp hnow hearly =>
    exact h.quiet hp rfl {} .same (hclock hnow) rfl (.inl rfl) (fun _ hdue => hdue)
  | beginSave hp hnow hdue hlater hend =>
    exact h.quiet hp rfl {} .same (le_trans (hclock hnow) hlater) rfl (.inl rfl)
      (fun _ hdue => hdue)
  | saveAccount hp hleft =>
    exact h.quiet hp rfl {} .same (le_refl _) rfl (.inl rfl) (fun _ hdue => hdue)
  | @expire l domains left saved domain p now hp hpending hnow hinvalid =>
    refine h.quiet hp rfl ⟨rfl, rfl, rfl, fun d p' hp' => ?_, fun _ => id⟩ .same (hclock hnow) rfl
      (.inl rfl) (fun _ hdue => hdue)
    have herase : (l.pending.erase domain).lookup d = some p' := hp'
    rw [Map.lookup_erase_eq] at herase
    split at herase
    · exact absurd herase (by simp)
    · exact herase
  | save hp hpending hnow hvalid => exact spacing_save h hp hpending hnow
  | @endSave l domains saved outcome hp =>
    cases saved with
    | true =>
      exact h.quiet hp rfl {} (grows_writeRetries w _ _) (le_refl _) rfl (.inr ⟨outcome, rfl⟩)
        (fun _ hdue => hdue)
    | false => exact h.quiet hp rfl {} .same (le_refl _) rfl (.inl rfl) (fun _ hdue => hdue)
  | rest hp hnow hreadings hnone =>
    exact h.quiet hp rfl {} .same (hclock hnow) rfl (.inl rfl) (fun _ _ => trivial)
  | @persist l domains now readings persisted outcome hp hnow hreadings hsome =>
    have hready : Guarded parse w.history w.clock w.certificateFile l → domains ⊆ l.loaded →
        ∀ d ∈ l.toOrder true now domains readings, Ready w.history now d := by
      intro hl hloaded d hd
      obtain ⟨hin, hwanted⟩ := Loop.mem_toOrder hd
      obtain ⟨h₁, h₁', -, h₂⟩ := hreadings d
      exact ready_of_wanted hl (hloaded hin) h₁ h₁' h₂ hwanted
    cases persisted with
    | true =>
      have hgrows := grows_writeRetries w l.retries outcome
      refine h.quiet hp rfl {} hgrows (hclock hnow) rfl (.inr ⟨outcome, rfl⟩) (fun hl hdue => ?_)
      cases outcome with
      | done => exact fun d hd => (hready hl hdue d hd).mono hgrows.later (le_refl now)
      | refused => trivial
      | unsynced => trivial
    | false =>
      exact h.quiet hp rfl {} .same (hclock hnow) rfl (.inl rfl) (fun _ _ => trivial)
  | registerLater hp haccount hnow hwait =>
    exact h.quiet hp rfl {} .same (hclock hnow) rfl (.inl rfl) (fun _ _ => trivial)
  | @register l needed now random outcome hp haccount hnow hready =>
    refine h.quiet hp rfl {} (grows_writeRetries w _ _) (hclock hnow) rfl (.inr ⟨outcome, rfl⟩)
      (fun _ _ => ?_)
    split
    · trivial
    · trivial
  | @registered l needed created now random outcome hp hnow =>
    cases created with
    | none =>
      exact h.quiet hp rfl {} (grows_writeRetries w _ _) (hclock hnow) rfl (.inr ⟨outcome, rfl⟩)
        (fun _ _ => trivial)
    | some credentials =>
      exact h.quiet hp rfl {} (grows_writeRetries w _ _) (hclock hnow) rfl (.inr ⟨outcome, rfl⟩)
        (fun _ _ => trivial)
  | spawnAll hp haccount =>
    exact h.quiet hp rfl {} .same (le_refl _) rfl (.inl rfl)
      (fun _ hdue d hd => hdue d (List.mem_of_mem_take hd))
  | begin hp hnow => exact spacing_begin h hp hnow rfl
  | spawn hp hfresh => exact spacing_spawn h hexcl hp
  | spawnedAll hp => exact h.quiet hp rfl {} .same (le_refl _) rfl (.inl rfl) (fun _ _ => trivial)
  | crash hretries hcertificates =>
    refine h.frame .same (le_refl _) (fun j hj => ?_) (fun phase₁ l₁ hp₁ => absurd hp₁ (by simp))
    refine ((h.disk j hj).crash hretries).mono (fun content hc => ?_)
    rcases hc with hholds | hst
    · exact .inl hholds
    · exact .inr (File.Always.crash hst (hcertificates j.domain))
  | load hp =>
    refine h.frame .same (le_refl _) h.disk (fun phase₁ l₁ hp₁ => ?_)
    obtain ⟨rfl, rfl⟩ := Prod.mk.inj (Option.some.inj hp₁)
    refine ⟨⟨fun j hj => ?_, fun d p hlookup => ?_, by simp⟩, trivial⟩
    · rcases (h.disk j hj).content with ⟨retries, hr, hholds⟩ | hst
      · refine .inl ?_
        show (w.retriesFile.content.getD {}).Holds _ _
        rw [hr]
        exact hholds
      · exact .inr ⟨hst, fun c hc => absurd hc (by simp), by simp⟩
    · exact absurd hlookup (by simp)

end

theorem First.spacing {parse : Parse} {w : World} (h : First w) : w.Spacing parse where
  past := by simp [h.history]
  spaced := by
    rw [h.history]
    exact List.Pairwise.nil
  recorded := by
    rw [h.history]
    trivial
  disk := by
    intro j hj
    rw [h.history] at hj
    exact absurd hj (by simp)
  memory := by
    intro phase l hp
    rw [h.process] at hp
    exact absurd hp (by simp)

theorem Run.spacing {parse : Parse} {w₀ w : World} (hfirst : First w₀)
    (hr : Run parse Lasting w₀ w) : w.Spacing parse := by
  induction hr with
  | refl => exact hfirst.spacing
  | step hr hs ha ih => exact hs.spacing (hr.exclusive hfirst) ih ha

theorem Recorded.of_append {newest oldest : List Event} {j : Job}
    (h : Recorded (newest ++ .spawned j :: oldest)) :
    ∃ retries, Event.wrote retries ∈ oldest ∧ retries.Holds j.domain (j.begun + 180) := by
  induction newest with
  | nil => exact h.1 j rfl
  | cons e newest ih => exact ih h.2

/-- **Certificate orders for a domain are spaced, across crashes.**  In every run, with any
    configurations, outcomes, aborts, failing writes and crashes, in which no certificate of the
    CA is due again within five seconds of its order: any two workers of one domain are begun at
    least five seconds apart, and three minutes if the loop never saw the outcome of the first;
    and before a worker is started a retry file with its deadline of three minutes was saved. -/
theorem orders_are_spaced {parse : Parse} {w₀ w : World} (hfirst : First w₀)
    (hr : Run parse Lasting w₀ w) :
    (∀ newest middle oldest j₂ j₁,
      w.history = newest ++ .spawned j₂ :: (middle ++ .spawned j₁ :: oldest) →
      j₁.domain = j₂.domain → j₁.begun + 5 ≤ j₂.begun ∧
        (observed w.history j₁.id = false → j₁.begun + 180 ≤ j₂.begun)) ∧
    (∀ newest oldest j, w.history = newest ++ .spawned j :: oldest →
      ∃ retries, Event.wrote retries ∈ oldest ∧ ∃ r, retries.domains.lookup j.domain = some r ∧
        j.begun + 180 ≤ r.next) := by
  have h := hr.spacing hfirst
  constructor
  · intro newest middle oldest j₂ j₁ heq hd
    have hpairs : Spaced w.history (newest ++ .spawned j₂ :: (middle ++ .spawned j₁ :: oldest)) := by
      rw [← heq]
      exact h.spaced
    have hafter := (List.pairwise_cons.mp (List.pairwise_append.mp hpairs).2.1).1
    have hguard := hafter (.spawned j₁) (by simp) j₂ j₁ rfl rfl hd
    refine ⟨le_trans (five_le_guard w.history j₁) hguard, fun hunseen => ?_⟩
    rw [guard_of_not_observed hunseen] at hguard
    exact hguard
  · intro newest oldest j heq
    have hrec := h.recorded
    rw [heq] at hrec
    exact hrec.of_append

/-- A certificate that is due five seconds after its order was begun. -/
def testLasting : PendingCertificate where
  pem := { chain := "longer", privateKey := "" }
  certificate := { testCertificate with
    chain := [testLeaf 1508]
    notAfter := 1508
    nonempty := by simp
    ordered := by decide }

/-- A certificate is saved a second after its order was begun, and ordered again as soon as it is
    due. -/
theorem orders_are_spaced_renewed :
    ∃ w, First testFirst ∧ Run testParse Lasting testFirst w ∧
      ∃ newest middle oldest j₂ j₁,
        w.history = newest ++ .spawned j₂ :: (middle ++ .spawned j₁ :: oldest) ∧
        j₁.domain = j₂.domain ∧ j₂.begun = 1005 ∧ j₁.begun + 5 ≤ j₂.begun := by
  have hlasting : (1000 : ℤ) + 5 ≤ testLasting.certificate.renewal := by decide
  have s₀ := run_testIssued (p := testLasting) rfl (by decide) (fun _ h => h) hlasting
  have s₁ := s₀.step (a := .save "a.b" 1001 .done)
    (.save rfl rfl ⟨by decide, by decide⟩ (by decide)) trivial
  have s₂ := s₁.step (a := .endSave .done) (.endSave rfl) trivial
  have s₃ := s₂.step (a := .rest true 1001 (fun _ => (1001, 1001)))
    (.rest rfl ⟨by decide, by decide⟩ (readsAll_const (by decide)) (by decide)) trivial
  have s₄ := s₃.step (a := .tick) (.tick rfl) trivial
  have s₅ := s₄.step (a := .configure ["a.b"]) (.configure rfl (by decide)) trivial
  have s₆ := s₅.step (a := .keepWaiting 1005)
    (.keepWaiting rfl ⟨by decide, by decide⟩ (by decide)) trivial
  have s₇ := s₆.step (a := .persist 1005 (fun _ => (1005, 1005)) true .done)
    (.persist rfl ⟨by decide, by decide⟩ (readsAll_const (by decide)) (by decide)) trivial
  have s₈ := s₇.step (a := .spawnAll) (.spawnAll rfl rfl) trivial
  have s₉ := s₈.step (a := .begin "a.b" 1005 0 .done) (.begin rfl ⟨by decide, by decide⟩) trivial
  have hr := s₉.step (a := .spawn 8) (.spawn rfl (fresh_of_notMem (by decide))) trivial
  refine ⟨_, ⟨rfl, rfl⟩, hr, [], [_, _, _, _, _], _, ⟨8, "a.b", 1005, false⟩,
    ⟨7, "a.b", 1000, false⟩, rfl, rfl, rfl, ?_⟩
  exact ((orders_are_spaced ⟨rfl, rfl⟩ hr).1 [] [_, _, _, _, _] _ _ _ rfl rfl).1

/-- A valid certificate past two thirds of its life is saved a second after its order was begun;
    its entry is removed, and the next order begins at once. -/
theorem due_certificate_reordered_at_once :
    ∃ w, First testFirst ∧ Run testParse (fun _ => True) testFirst w ∧
      ∃ newest middle oldest j₂ j₁,
        w.history = newest ++ .spawned j₂ :: (middle ++ .spawned j₁ :: oldest) ∧
        j₁.domain = j₂.domain ∧ ¬ j₁.begun + 5 ≤ j₂.begun := by
  have s₀ := run_testIssued (P := fun _ => True) (p := testPending) rfl (by decide)
    (fun _ _ => trivial) trivial
  have s₁ := s₀.step (a := .save "a.b" 1001 .done)
    (.save rfl rfl ⟨by decide, by decide⟩ (by decide)) trivial
  have s₂ := s₁.step (a := .endSave .done) (.endSave rfl) trivial
  have s₃ := s₂.step (a := .persist 1001 (fun _ => (1001, 1001)) true .done)
    (.persist rfl ⟨by decide, by decide⟩ (readsAll_const (by decide)) (by decide)) trivial
  have s₄ := s₃.step (a := .spawnAll) (.spawnAll rfl rfl) trivial
  have s₅ := s₄.step (a := .begin "a.b" 1001 0 .done) (.begin rfl ⟨by decide, by decide⟩) trivial
  have s₆ := s₅.step (a := .spawn 8)
    (.spawn rfl (fresh_of_notMem (by decide))) trivial
  exact ⟨_, ⟨rfl, rfl⟩, s₆, [], [_, _, _, _, _], _, ⟨8, "a.b", 1001, false⟩,
    ⟨7, "a.b", 1000, false⟩, rfl, rfl, by decide⟩

end Certificates

end Geata
