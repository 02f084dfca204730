import Geata.Certificates.Loop

namespace Geata

open Geata.Lib

/-!
# Issue workers are exclusive

Aborted tasks stay in the `JoinSet` after they left `active`, tasks and domains are matched by
searching for an id, and certificates wait in `pending` while the disk fails.  `Exclusive` ties
the four collections together.

* `Workers.Exclusive` — at most four tasks, and exactly one of them counts for an active domain.
* `Phase.Room` — what the loop knows about the domains it is about to order for.
* `exclusive_workers` — both hold in every state of every run, and what follows for the steps.
-/

namespace Certificates

/-! ### Looking for a task -/

namespace Workers

variable {w : Workers} {id : ℕ} {domain : String}

/-- The tasks of the set, and which of them count. -/
structure Exclusive (w : Workers) : Prop where
  distinct : (w.jobs.map Job.id).Nodup
  few : w.jobs.length ≤ 4
  /-- An active domain has its task in the set, and that one is not aborted. -/
  counted : ∀ domain id, w.active.lookup domain = some id →
    ∃ j ∈ w.jobs, j.id = id ∧ j.domain = domain ∧ j.aborted = false
  /-- A task that is not aborted is the one recorded for its domain. -/
  recorded : ∀ j ∈ w.jobs, j.aborted = false → w.active.lookup j.domain = some j.id

theorem Exclusive.eq_of_id (h : w.Exclusive) {j₁ j₂ : Job} (hj₁ : j₁ ∈ w.jobs)
    (hj₂ : j₂ ∈ w.jobs) (heq : j₁.id = j₂.id) : j₁ = j₂ :=
  List.inj_on_of_nodup_map h.distinct hj₁ hj₂ heq

/-- At most one task of a domain is not aborted. -/
theorem Exclusive.one_task (h : w.Exclusive) {j₁ j₂ : Job} (hj₁ : j₁ ∈ w.jobs) (hj₂ : j₂ ∈ w.jobs)
    (ha₁ : j₁.aborted = false) (ha₂ : j₂.aborted = false) (heq : j₁.domain = j₂.domain) :
    j₁ = j₂ := by
  have h₁ := h.recorded j₁ hj₁ ha₁
  have h₂ := h.recorded j₂ hj₂ ha₂
  rw [heq, h₂] at h₁
  exact h.eq_of_id hj₁ hj₂ (Option.some.inj h₁).symm

theorem remove_eq_none (h : w.remove id = none) (domain : String) :
    w.active.lookup domain ≠ some id := by
  intro hlookup
  rw [remove, Option.map_eq_none_iff, List.find?_eq_none] at h
  exact h _ (Map.lookup_eq_some_iff.mp hlookup) (by simp)

theorem remove_eq_some {w' : Workers} (h : w.remove id = some (domain, w')) :
    w.active.lookup domain = some id ∧ w' = { w with active := w.active.erase domain } := by
  obtain ⟨e, he, heq⟩ := Option.map_eq_some_iff.mp h
  obtain ⟨rfl, rfl⟩ := Prod.mk.inj heq
  have hid : e.2 = id := by simpa using List.find?_some he
  refine ⟨?_, rfl⟩
  rw [← hid]
  exact Map.lookup_eq_some_iff.mpr (List.mem_of_find?_eq_some he)

theorem Exclusive.active_eq (h : w.Exclusive) {job : Job} (hjob : job ∈ w.jobs)
    (hactive : w.active.lookup domain = some job.id) :
    domain = job.domain ∧ job.aborted = false := by
  obtain ⟨j, hj, hid, hdomain, habort⟩ := h.counted domain job.id hactive
  obtain rfl := h.eq_of_id hj hjob hid
  exact ⟨hdomain.symm, habort⟩

/-- An aborted task is not found any more. -/
theorem Exclusive.remove_aborted (h : w.Exclusive) {job : Job} (hjob : job ∈ w.jobs)
    (habort : job.aborted = true) : (w.taken job.id).remove job.id = none := by
  cases hr : (w.taken job.id).remove job.id with
  | none => rfl
  | some p =>
    obtain ⟨domain, w'⟩ := p
    have hactive : w.active.lookup domain = some job.id := (remove_eq_some hr).1
    rw [(h.active_eq hjob hactive).2] at habort
    exact absurd habort (by simp)

/-- Any other task is found under its own domain. -/
theorem Exclusive.remove_active (h : w.Exclusive) {job : Job} (hjob : job ∈ w.jobs)
    (habort : job.aborted = false) :
    (w.taken job.id).remove job.id =
      some (job.domain, { w.taken job.id with active := w.active.erase job.domain }) := by
  have hactive := h.recorded job hjob habort
  cases hr : (w.taken job.id).remove job.id with
  | none => exact absurd hactive (remove_eq_none hr job.domain)
  | some p =>
    obtain ⟨domain, w'⟩ := p
    obtain ⟨hfound, rfl⟩ := remove_eq_some hr
    obtain ⟨rfl, -⟩ := h.active_eq hjob hfound
    rfl

theorem mem_taken {j : Job} : j ∈ (w.taken id).jobs ↔ j ∈ w.jobs ∧ j.id ≠ id := by
  simp [taken]

theorem length_taken_le (w : Workers) (id : ℕ) : (w.taken id).jobs.length ≤ w.jobs.length :=
  List.length_filter_le _ _

/-! ### Every change of the set keeps it exclusive -/

theorem Exclusive.taken_aborted (h : w.Exclusive) {job : Job} (hjob : job ∈ w.jobs)
    (habort : job.aborted = true) : (w.taken job.id).Exclusive where
  distinct := h.distinct.sublist (List.filter_sublist.map Job.id)
  few := le_trans (length_taken_le w job.id) h.few
  counted := by
    intro domain id hactive
    obtain ⟨j, hj, hid, hdomain, hj'⟩ := h.counted domain id hactive
    refine ⟨j, mem_taken.mpr ⟨hj, fun heq => ?_⟩, hid, hdomain, hj'⟩
    obtain rfl := h.eq_of_id hj hjob heq
    rw [hj'] at habort
    exact absurd habort (by simp)
  recorded j hj := h.recorded j (mem_taken.mp hj).1

theorem Exclusive.taken_active (h : w.Exclusive) {job : Job} (hjob : job ∈ w.jobs)
    (habort : job.aborted = false) :
    Exclusive { w.taken job.id with active := w.active.erase job.domain } where
  distinct := h.distinct.sublist (List.filter_sublist.map Job.id)
  few := le_trans (length_taken_le w job.id) h.few
  counted := by
    intro domain id hactive
    rw [Map.lookup_erase_eq] at hactive
    split at hactive
    · exact absurd hactive (by simp)
    · rename_i hne
      obtain ⟨j, hj, hid, hdomain, hj'⟩ := h.counted domain id hactive
      refine ⟨j, mem_taken.mpr ⟨hj, fun heq => hne ?_⟩, hid, hdomain, hj'⟩
      obtain rfl := h.eq_of_id hj hjob heq
      exact hdomain.symm
  recorded := by
    intro j hj hj'
    obtain ⟨hmem, hne⟩ := mem_taken.mp hj
    have hactive := h.recorded j hmem hj'
    show (w.active.erase job.domain).lookup j.domain = some j.id
    rw [Map.lookup_erase_eq, if_neg]
    · exact hactive
    · -- The taken task was the one of its domain.
      intro heq
      rw [heq, h.recorded job hjob habort] at hactive
      exact hne (Option.some.inj hactive).symm

/-- A task of a retained set is a task of the set, aborted if its domain is gone. -/
theorem mem_retain {domains : List String} {j : Job} (hj : j ∈ (w.retain domains).jobs) :
    ∃ j₀ ∈ w.jobs, j.id = j₀.id ∧ j.domain = j₀.domain ∧ j.begun = j₀.begun ∧
      (j.aborted = false → j₀.aborted = false ∧
        ∀ domain, w.active.lookup domain = some j₀.id → domain ∈ domains) := by
  obtain ⟨j₀, hj₀, rfl⟩ := List.mem_map.mp hj
  refine ⟨j₀, hj₀, ?_, ?_, ?_, ?_⟩
  · split <;> rfl
  · split <;> rfl
  · split <;> rfl
  · intro habort
    split at habort
    · exact absurd habort (by simp)
    · rename_i hnone
      refine ⟨habort, fun domain hactive => ?_⟩
      by_contra hgone
      refine hnone (List.any_eq_true.mpr ⟨_, Map.lookup_eq_some_iff.mp hactive, ?_⟩)
      simpa using hgone

theorem Exclusive.retain (h : w.Exclusive) (domains : List String) :
    (w.retain domains).Exclusive where
  distinct := by
    have hids : (w.retain domains).jobs.map Job.id = w.jobs.map Job.id := by
      show (w.jobs.map _).map Job.id = _
      rw [List.map_map]
      refine List.map_congr_left (fun j _ => ?_)
      show Job.id (if _ then _ else _) = j.id
      split <;> rfl
    rw [hids]
    exact h.distinct
  few := by
    show (w.jobs.map _).length ≤ 4
    rw [List.length_map]
    exact h.few
  counted := by
    intro domain id hactive
    obtain ⟨hactive, hin⟩ := Map.lookup_retain_eq_some.mp hactive
    obtain ⟨j, hj, hid, hdomain, habort⟩ := h.counted domain id hactive
    refine ⟨j, List.mem_map.mpr ⟨j, hj, if_neg ?_⟩, hid, hdomain, habort⟩
    intro hany
    obtain ⟨⟨d, i⟩, he, hgone⟩ := List.any_eq_true.mp hany
    simp only [Bool.and_eq_true, decide_eq_true_eq] at hgone hin
    obtain ⟨rfl, hgone⟩ := hgone
    have hd : w.active.lookup d = some j.id := Map.lookup_eq_some_iff.mpr he
    rw [(h.active_eq hj hd).1, hdomain] at hgone
    exact hgone hin
  recorded := by
    intro j hj habort
    obtain ⟨j₀, hj₀, hid, hdomain, -, hkept⟩ := mem_retain hj
    obtain ⟨habort₀, hin⟩ := hkept habort
    have hactive := h.recorded j₀ hj₀ habort₀
    rw [hid, hdomain]
    exact Map.lookup_retain_eq_some.mpr ⟨hactive, by simpa using hin _ hactive⟩

theorem Exclusive.spawn (h : w.Exclusive) {job : Job} (hroom : w.jobs.length < 4)
    (hfree : w.active.lookup job.domain = none) (hfresh : ∀ j ∈ w.jobs, j.id ≠ job.id)
    (hnew : job.aborted = false) : (w.spawn job).Exclusive where
  distinct := by
    show (job.id :: w.jobs.map Job.id).Nodup
    refine List.nodup_cons.mpr ⟨fun hmem => ?_, h.distinct⟩
    obtain ⟨j, hj, hid⟩ := List.mem_map.mp hmem
    exact hfresh j hj hid
  few := hroom
  counted := by
    intro domain id hactive
    unfold Workers.spawn at hactive
    dsimp only at hactive
    rw [Map.lookup_insert_eq] at hactive
    split at hactive
    · rename_i heq
      exact ⟨job, List.mem_cons_self, Option.some.inj hactive, heq.symm, hnew⟩
    · obtain ⟨j, hj, hrest⟩ := h.counted domain id hactive
      exact ⟨j, List.mem_cons_of_mem _ hj, hrest⟩
  recorded := by
    intro j hj habort
    show (w.active.insert job.domain job.id).lookup j.domain = some j.id
    rw [Map.lookup_insert_eq]
    rcases List.mem_cons.mp hj with rfl | hj
    · rw [if_pos rfl]
    · have hactive := h.recorded j hj habort
      rw [if_neg]
      · exact hactive
      · intro heq
        rw [heq, hfree] at hactive
        exact absurd hactive (by simp)

theorem Exclusive.empty : ({} : Workers).Exclusive where
  distinct := by simp
  few := by simp
  counted := by
    intro domain id hactive
    exact absurd hactive (by simp [AList.lookup_empty])
  recorded := by simp

end Workers

/-! ### The loop -/

/-- Nothing is under way for the domain. -/
def Loop.Free (l : Loop) (domain : String) : Prop :=
  l.workers.active.lookup domain = none ∧ l.pending.lookup domain = none

/-- The loop's collections. -/
structure Loop.Exclusive (l : Loop) (history : List Event) : Prop where
  workers : l.workers.Exclusive
  /-- A domain with a task has no certificate waiting. -/
  apart : ∀ domain, l.workers.active.lookup domain ≠ none → l.pending.lookup domain = none
  /-- The tasks are those the loop started. -/
  started : ∀ j ∈ l.workers.jobs, ∃ job, Event.spawned job ∈ history ∧ job.id = j.id ∧
    job.domain = j.domain ∧ job.begun = j.begun

/-- What the loop knows about the domains it works on. -/
def Phase.Room (l : Loop) : Phase → Prop
  | .save domains => domains.Nodup
  | .saveAccount domains => domains.Nodup
  | .savePending domains _ _ => domains.Nodup
  | .order domains => domains.Nodup
  | .ordering needed => needed.Nodup ∧ ∀ d ∈ needed, l.Free d
  | .spawning left =>
    left.Nodup ∧ (∀ d ∈ left, l.Free d) ∧ l.workers.jobs.length + left.length ≤ 4
  | .starting domain _ left =>
    (domain :: left).Nodup ∧ (∀ d ∈ domain :: left, l.Free d) ∧
      l.workers.jobs.length + left.length < 4
  | _ => True

/-- The invariant of the machine. -/
def World.Exclusive (w : World) : Prop :=
  ∀ phase l, w.process = some (phase, l) → l.Exclusive w.history ∧ phase.Room l

namespace Loop

variable {l l' : Loop} {history history' : List Event} {domain : String}

theorem wanted_free {readings : ℤ × ℤ} (h : l.wanted readings domain = true) : l.Free domain := by
  simp only [wanted, Bool.and_eq_true, Option.isNone_iff_eq_none] at h
  exact ⟨h.1.1.1, h.1.1.2⟩

theorem mem_toOrder {cooldownReady : Bool} {now : ℤ} {domains : List String}
    {readings : String → ℤ × ℤ} (h : domain ∈ l.toOrder cooldownReady now domains readings) :
    domain ∈ domains ∧ l.wanted (readings domain) domain = true := by
  unfold toOrder at h
  split at h
  · exact absurd h (by simp)
  · split at h
    · exact absurd h (by simp)
    · have hmem := (List.perm_insertionSort _ _).mem_iff.mp h
      simpa using hmem

theorem nodup_toOrder {cooldownReady : Bool} {now : ℤ} {domains : List String}
    {readings : String → ℤ × ℤ} (h : domains.Nodup) :
    (l.toOrder cooldownReady now domains readings).Nodup := by
  unfold toOrder
  split
  · exact List.nodup_nil
  · split
    · exact List.nodup_nil
    · exact (List.perm_insertionSort _ _).nodup_iff.mpr (h.filter _)

/-- Less waiting and more history. -/
theorem Exclusive.mono (h : l.Exclusive history) (hworkers : l'.workers = l.workers)
    (hpending : ∀ d, l.pending.lookup d = none → l'.pending.lookup d = none)
    (hhistory : history ⊆ history') : l'.Exclusive history' where
  workers := by
    rw [hworkers]
    exact h.workers
  apart := by
    intro d hd
    rw [hworkers] at hd
    exact hpending d (h.apart d hd)
  started := by
    intro j hj
    rw [hworkers] at hj
    obtain ⟨job, hjob, hsame⟩ := h.started j hj
    exact ⟨job, hhistory hjob, hsame⟩

/-- The set without a task that counted. -/
def released (l : Loop) (job : Job) : Loop :=
  { l with
    workers := { l.workers.taken job.id with active := l.workers.active.erase job.domain } }

/-- The outcome of an aborted task is dropped. -/
theorem Exclusive.join_aborted (h : l.Exclusive history) {job : Job} (hjob : job ∈ l.workers.jobs)
    (habort : job.aborted = true) (result : Issued) (now : ℤ) (random : UInt16) :
    l.join job.id result now random = { l with workers := l.workers.taken job.id } := by
  unfold Loop.join
  dsimp only
  rw [h.workers.remove_aborted hjob habort]

/-- A certificate of any other task waits for its domain. -/
theorem Exclusive.join_ok (h : l.Exclusive history) {job : Job} (hjob : job ∈ l.workers.jobs)
    (habort : job.aborted = false) (p : PendingCertificate) (now : ℤ) (random : UInt16) :
    l.join job.id (.ok p) now random =
      { l.released job with pending := l.pending.insert job.domain p } := by
  unfold Loop.join
  dsimp only
  rw [h.workers.remove_active hjob habort]
  rfl

/-- Its failure is followed by a wait. -/
theorem Exclusive.join_failed (h : l.Exclusive history) {job : Job} (hjob : job ∈ l.workers.jobs)
    (habort : job.aborted = false) {result : Issued} (hresult : ∀ p, result ≠ .ok p) (now : ℤ)
    (random : UInt16) :
    l.join job.id result now random =
      (l.released job).updateRetry job.domain
        (fun r => r.failed now (l.expiry job.domain) random) := by
  unfold Loop.join
  dsimp only
  rw [h.workers.remove_active hjob habort]
  cases result with
  | ok p => exact absurd rfl (hresult p)
  | failed => rfl
  | stopped => rfl

theorem released_active {job : Job} {d : String}
    (hd : (l.released job).workers.active.lookup d ≠ none) :
    d ≠ job.domain ∧ l.workers.active.lookup d ≠ none := by
  have herase : (l.workers.active.erase job.domain).lookup d ≠ none := hd
  rw [Map.lookup_erase_eq] at herase
  by_cases heq : d = job.domain
  · rw [if_pos heq] at herase
    exact absurd rfl herase
  · rw [if_neg heq] at herase
    exact ⟨heq, herase⟩

theorem Exclusive.join (h : l.Exclusive history) {job : Job} (hjob : job ∈ l.workers.jobs)
    (result : Issued) (now : ℤ) (random : UInt16) (hhistory : history ⊆ history') :
    (l.join job.id result now random).Exclusive history' := by
  have hstarted : ∀ j ∈ (l.workers.taken job.id).jobs, ∃ job, Event.spawned job ∈ history' ∧
      job.id = j.id ∧ job.domain = j.domain ∧ job.begun = j.begun := by
    intro j hj
    obtain ⟨job', hjob', hsame⟩ := h.started j (Workers.mem_taken.mp hj).1
    exact ⟨job', hhistory hjob', hsame⟩
  cases habort : job.aborted with
  | true =>
    rw [h.join_aborted hjob habort]
    exact ⟨h.workers.taken_aborted hjob habort, h.apart, hstarted⟩
  | false =>
    have hw := h.workers.taken_active hjob habort
    cases result with
    | ok p =>
      rw [h.join_ok hjob habort]
      refine ⟨hw, fun d hd => ?_, hstarted⟩
      obtain ⟨hne, hactive⟩ := released_active hd
      show (l.pending.insert job.domain p).lookup d = none
      rw [Map.lookup_insert_eq, if_neg hne]
      exact h.apart d hactive
    | failed =>
      rw [h.join_failed hjob habort (by simp)]
      exact ⟨hw, fun d hd => h.apart d (released_active hd).2, hstarted⟩
    | stopped =>
      rw [h.join_failed hjob habort (by simp)]
      exact ⟨hw, fun d hd => h.apart d (released_active hd).2, hstarted⟩

theorem lookup_retain_none {α : Type} {m : Map String α} {p : String → α → Bool}
    (h : m.lookup domain = none) : (m.retain p).lookup domain = none := by
  cases hr : (m.retain p).lookup domain with
  | none => rfl
  | some a =>
    rw [(Map.lookup_retain_eq_some.mp hr).1] at h
    exact absurd h (by simp)

theorem Exclusive.configure (h : l.Exclusive history) (domains : List String)
    (stored : String → Option Certificate) : (l.configure domains stored).Exclusive history where
  workers := h.workers.retain domains
  apart := by
    intro d hd
    obtain ⟨id, hid⟩ := Option.ne_none_iff_exists'.mp hd
    have hactive : l.workers.active.lookup d = some id := (Map.lookup_retain_eq_some.mp hid).1
    exact lookup_retain_none (h.apart d (by rw [hactive]; simp))
  started := by
    intro j hj
    obtain ⟨j₀, hj₀, hid, hdomain, hbegun, -⟩ := Workers.mem_retain hj
    rw [hid, hdomain, hbegun]
    exact h.started j₀ hj₀

theorem lookup_erase_none {α : Type} {m : Map String α} {d : String} (h : m.lookup d = none) :
    (m.erase domain).lookup d = none := by
  rw [Map.lookup_erase_eq]
  split
  · rfl
  · exact h

end Loop

/-! ### Steps and runs -/

theorem World.Exclusive.enter {w w' : World} {phase phase' : Phase} {l l' : Loop}
    (h : w.Exclusive) (hp : w.process = some (phase, l))
    (hp' : w'.process = some (phase', l')) (hworkers : l'.workers = l.workers)
    (hpending : ∀ d, l.pending.lookup d = none → l'.pending.lookup d = none)
    (hhistory : w.history ⊆ w'.history)
    (hroom : l.Exclusive w.history → phase.Room l → phase'.Room l') : w'.Exclusive := by
  intro phase₁ l₁ hp₁
  rw [hp'] at hp₁
  obtain ⟨rfl, rfl⟩ := Prod.mk.inj (Option.some.inj hp₁)
  obtain ⟨hl, hr⟩ := h phase l hp
  exact ⟨hl.mono hworkers hpending hhistory, hroom hl hr⟩

theorem history_subset_writeRetries (w : World) (retries : Retries) (outcome : Written) :
    w.history ⊆ (w.writeRetries retries outcome).history := by
  unfold World.writeRetries
  dsimp only
  split
  · exact List.subset_cons_self _ _
  · exact List.Subset.refl _

theorem Step.exclusive {parse : Parse} {w w' : World} {a : Act} (hs : Step parse w a w')
    (h : w.Exclusive) : w'.Exclusive := by
  cases hs with
  | tick hp => exact h.enter hp rfl rfl (fun _ => id) (List.Subset.refl _) (fun _ _ => trivial)
  | @join l job result now random hp hjob hnow hresult =>
    intro phase₁ l₁ hp₁
    obtain ⟨rfl, rfl⟩ := Prod.mk.inj (Option.some.inj hp₁)
    refine ⟨(h _ _ hp).1.join hjob result now random ?_, trivial⟩
    show w.history ⊆ ite _ _ _
    split
    · exact List.subset_cons_self _ _
    · exact List.Subset.refl _
  | saveRetries hp =>
    exact h.enter hp rfl rfl (fun _ => id) (history_subset_writeRetries w _ _) (fun _ _ => trivial)
  | configure hp hnodup =>
    intro phase₁ l₁ hp₁
    obtain ⟨rfl, rfl⟩ := Prod.mk.inj (Option.some.inj hp₁)
    exact ⟨(h _ _ hp).1.configure _ _, hnodup⟩
  | keepWaiting hp hnow hearly =>
    exact h.enter hp rfl rfl (fun _ => id) (List.Subset.refl _) (fun _ hr => hr)
  | beginSave hp hnow hdue hlater hend =>
    exact h.enter hp rfl rfl (fun _ => id) (List.Subset.refl _) (fun _ hr => hr)
  | saveAccount hp hleft =>
    exact h.enter hp rfl rfl (fun _ => id) (List.Subset.refl _) (fun _ hr => hr)
  | expire hp hpending hnow hinvalid =>
    exact h.enter hp rfl rfl (fun _ => Loop.lookup_erase_none) (List.Subset.refl _)
      (fun _ hr => hr)
  | @save l domains left saved domain p now outcome hp hpending hnow hvalid =>
    refine h.enter hp rfl ?_ ?_ (List.Subset.refl _) (fun _ hr => hr)
    · split <;> rfl
    · intro d hd
      split
      · exact Loop.lookup_erase_none hd
      · exact hd
  | @endSave l domains saved outcome hp =>
    refine h.enter hp rfl rfl (fun _ => id) ?_ (fun _ hr => hr)
    cases saved with
    | true => exact history_subset_writeRetries w _ _
    | false => exact List.Subset.refl _
  | rest hp hnow hreadings hnone =>
    exact h.enter hp rfl rfl (fun _ => id) (List.Subset.refl _) (fun _ _ => trivial)
  | @persist l domains now readings persisted outcome hp hnow hreadings hsome =>
    refine h.enter hp rfl rfl (fun _ => id) ?_ (fun _ hr => ?_)
    · cases persisted with
      | true => exact history_subset_writeRetries w _ _
      | false => exact List.Subset.refl _
    · split
      · exact ⟨Loop.nodup_toOrder hr, fun d hd => Loop.wanted_free (Loop.mem_toOrder hd).2⟩
      · trivial
  | registerLater hp haccount hnow hwait =>
    exact h.enter hp rfl rfl (fun _ => id) (List.Subset.refl _) (fun _ _ => trivial)
  | @register l needed now random outcome hp haccount hnow hready =>
    refine h.enter hp rfl rfl (fun _ => id) (history_subset_writeRetries w _ _) (fun _ _ => ?_)
    split
    · trivial
    · trivial
  | @registered l needed created now random outcome hp hnow =>
    cases created with
    | none =>
      exact h.enter hp rfl rfl (fun _ => id) (history_subset_writeRetries w _ _)
        (fun _ _ => trivial)
    | some credentials =>
      exact h.enter hp rfl rfl (fun _ => id) (history_subset_writeRetries w _ _)
        (fun _ _ => trivial)
  | @spawnAll l needed hp haccount =>
    refine h.enter hp rfl rfl (fun _ => id) (List.Subset.refl _) (fun hl hr => ?_)
    obtain ⟨hnodup, hfree⟩ := hr
    refine ⟨hnodup.sublist (List.take_sublist _ _),
      fun d hd => hfree d (List.mem_of_mem_take hd), ?_⟩
    have hfew := hl.workers.few
    have hlen := List.length_take_le (4 - l.workers.jobs.length) needed
    omega
  | @begin l domain left now random outcome hp hnow =>
    refine h.enter hp rfl rfl (fun _ => id) (history_subset_writeRetries w _ _)
      (fun _ hr => ?_)
    split
    · obtain ⟨hnodup, hfree, hroom⟩ := hr
      refine ⟨hnodup, hfree, ?_⟩
      rw [List.length_cons] at hroom
      exact hroom
    · trivial
  | @spawn l domain begun left id hp hfresh =>
    obtain ⟨hl, hnodup, hfree, hroom⟩ := h _ _ hp
    intro phase₁ l₁ hp₁
    obtain ⟨rfl, rfl⟩ := Prod.mk.inj (Option.some.inj hp₁)
    obtain ⟨hactive, hpending⟩ := hfree domain List.mem_cons_self
    have hnew : ∀ j ∈ l.workers.jobs, j.id ≠ id := by
      intro j hj
      obtain ⟨job, hjob, hid, -⟩ := hl.started j hj
      rw [← hid]
      exact hfresh job hjob
    refine ⟨⟨hl.workers.spawn (by omega) hactive hnew rfl, ?_, ?_⟩, ?_, ?_, ?_⟩
    · intro d hd
      show l.pending.lookup d = none
      by_cases heq : d = domain
      · rw [heq]
        exact hpending
      · refine hl.apart d (fun hnone => hd ?_)
        show (l.workers.active.insert domain id).lookup d = none
        rw [Map.lookup_insert_eq, if_neg heq]
        exact hnone
    · intro j hj
      rcases List.mem_cons.mp hj with rfl | hj
      · exact ⟨_, List.mem_cons_self, rfl, rfl, rfl⟩
      · obtain ⟨job, hjob, hsame⟩ := hl.started j hj
        exact ⟨job, List.mem_cons_of_mem _ hjob, hsame⟩
    · exact (List.nodup_cons.mp hnodup).2
    · -- The other domains of the round are still free.
      intro d hd
      obtain ⟨hactive', hpending'⟩ := hfree d (List.mem_cons_of_mem _ hd)
      refine ⟨?_, hpending'⟩
      show (l.workers.active.insert domain id).lookup d = none
      rw [Map.lookup_insert_eq, if_neg]
      · exact hactive'
      · rintro rfl
        exact (List.nodup_cons.mp hnodup).1 hd
    · show (_ :: l.workers.jobs).length + left.length ≤ 4
      rw [List.length_cons]
      omega
  | spawnedAll hp =>
    exact h.enter hp rfl rfl (fun _ => id) (List.Subset.refl _) (fun _ _ => trivial)
  | crash hretries hcertificates =>
    intro phase₁ l₁ hp₁
    exact absurd hp₁ (by simp)
  | load hp =>
    intro phase₁ l₁ hp₁
    obtain ⟨rfl, rfl⟩ := Prod.mk.inj (Option.some.inj hp₁)
    exact ⟨⟨Workers.Exclusive.empty, fun d _ => AList.lookup_empty d, by simp⟩, trivial⟩

theorem First.exclusive {w : World} (h : First w) : w.Exclusive := by
  intro phase l hp
  rw [h.process] at hp
  exact absurd hp (by simp)

theorem Run.exclusive {parse : Parse} {P : Act → Prop} {w w' : World} (hr : Run parse P w w')
    (h : First w) : w'.Exclusive := by
  induction hr with
  | refl => exact h.exclusive
  | step _ hs _ ih => exact hs.exclusive ih

/-! ### What a step can do to the certificates -/

/-- The ways a step of a process changes what is waiting and what is served. -/
inductive Changes (w : World) (l : Loop) (w' : World) (l' : Loop) : Act → Prop where
  /-- A task that counts brought a certificate. -/
  | issued {job : Job} {p : PendingCertificate} {now : ℤ} {random : UInt16}
      (hjob : job ∈ l.workers.jobs) (habort : job.aborted = false)
      (hpending : l'.pending = l.pending.insert job.domain p)
      (hcertificates : l'.certificates = l.certificates) :
      Changes w l w' l' (.join job (.ok p) now random)
  | configured {domains : List String}
      (hpending : l'.pending = l.pending.retain (fun d _ => decide (d ∈ domains))) :
      Changes w l w' l' (.configure domains)
  | expired {domain : String} {now : ℤ} {p : PendingCertificate}
      (hlookup : l.pending.lookup domain = some p) (hinvalid : p.certificate.validAt now = false)
      (hpending : l'.pending = l.pending.erase domain)
      (hcertificates : l'.certificates = l.certificates) :
      Changes w l w' l' (.expire domain now)
  | installed {domain : String} {now : ℤ} {p : PendingCertificate}
      (hlookup : l.pending.lookup domain = some p)
      (hfile : (w'.certificateFile domain).content = some p.pem)
      (hpending : l'.pending = l.pending.erase domain)
      (hcertificates : l'.certificates = l.certificates.insert domain p.certificate) :
      Changes w l w' l' (.save domain now .done)
  | nothing {a : Act} (hpending : l'.pending = l.pending)
      (hcertificates : l'.certificates = l.certificates) : Changes w l w' l' a

theorem Step.changes {parse : Parse} {w w' : World} {a : Act} {phase phase' : Phase} {l l' : Loop}
    (hs : Step parse w a w') (h : w.Exclusive) (hl : w.process = some (phase, l))
    (hl' : w'.process = some (phase', l')) : Changes w l w' l' a := by
  have hsame : ∀ {phase₀ : Phase} {l₀ : Loop}, w.process = some (phase₀, l₀) → l₀ = l := by
    intro phase₀ l₀ hp
    exact (Prod.mk.inj (Option.some.inj (hp.symm.trans hl))).2
  cases hs with
  | @join l₀ job result now random hp hjob hnow hresult =>
    obtain rfl := hsame hp
    obtain ⟨-, rfl⟩ := Prod.mk.inj (Option.some.inj hl')
    have hexcl := (h _ _ hp).1
    cases habort : job.aborted with
    | true =>
      rw [hexcl.join_aborted hjob habort]
      exact .nothing rfl rfl
    | false =>
      cases result with
      | ok p =>
        rw [hexcl.join_ok hjob habort]
        exact .issued hjob habort rfl rfl
      | failed =>
        rw [hexcl.join_failed hjob habort (by simp)]
        exact .nothing rfl rfl
      | stopped =>
        rw [hexcl.join_failed hjob habort (by simp)]
        exact .nothing rfl rfl
  | configure hp hnodup =>
    obtain rfl := hsame hp
    obtain ⟨-, rfl⟩ := Prod.mk.inj (Option.some.inj hl')
    exact .configured rfl
  | expire hp hpending hnow hinvalid =>
    obtain rfl := hsame hp
    obtain ⟨-, rfl⟩ := Prod.mk.inj (Option.some.inj hl')
    exact .expired hpending hinvalid rfl rfl
  | @save l₀ domains left saved domain p now outcome hp hpending hnow hvalid =>
    obtain rfl := hsame hp
    obtain ⟨-, rfl⟩ := Prod.mk.inj (Option.some.inj hl')
    by_cases ho : outcome = .done
    · subst ho
      refine .installed hpending ?_ rfl rfl
      show (ite (domain = domain) _ _ : File CertificatePem).content = some p.pem
      rw [if_pos rfl]
      rfl
    · rw [if_neg ho]
      exact .nothing rfl rfl
  | @registered l₀ needed created now random outcome hp hnow =>
    obtain rfl := hsame hp
    obtain ⟨-, rfl⟩ := Prod.mk.inj (Option.some.inj hl')
    cases created with
    | none => exact .nothing rfl rfl
    | some credentials => exact .nothing rfl rfl
  | crash hretries hcertificates => exact absurd hl' (by simp)
  | load hp => rw [hp] at hl; exact absurd hl (by simp)
  | tick hp | saveRetries hp | keepWaiting hp _ _ | beginSave hp _ _ _ _ | saveAccount hp _
  | endSave hp | rest hp _ _ _ | persist hp _ _ _ | registerLater hp _ _ _ | register hp _ _ _
  | spawnAll hp _ | begin hp _ | spawn hp _ | spawnedAll hp =>
    obtain rfl := hsame hp
    obtain ⟨-, rfl⟩ := Prod.mk.inj (Option.some.inj hl')
    exact .nothing rfl rfl

/-- What the next step of a process respects. -/
structure Careful (parse : Parse) (w : World) (l : Loop) : Prop where
  /-- The result of an aborted task changes nothing, whatever became of its domain. -/
  aborted_dropped : ∀ job result now random w' phase' l',
    Step parse w (.join job result now random) w' → w'.process = some (phase', l') →
    job.aborted = true → l'.pending = l.pending ∧ l'.certificates = l.certificates
  /-- A certificate waits because a task that counts brought it. -/
  issued : ∀ a w' phase' l' domain p, Step parse w a w' → w'.process = some (phase', l') →
    l'.pending.lookup domain = some p → l.pending.lookup domain = some p ∨
      ∃ job now random, a = .join job (.ok p) now random ∧ job.domain = domain ∧
        job ∈ l.workers.jobs ∧ job.aborted = false
  /-- No order is started for a domain whose certificate waits, or that has a task. -/
  no_reorder : ∀ id w' domain begun left, Step parse w (.spawn id) w' →
    w.process = some (.starting domain begun left, l) → l.Free domain
  /-- A waiting certificate is saved and installed, stops being valid, or its site is gone. -/
  leaves : ∀ a w' phase' l' domain p, Step parse w a w' → w'.process = some (phase', l') →
    l.pending.lookup domain = some p → l'.pending.lookup domain ≠ some p →
    (∃ now, a = .save domain now .done ∧ (w'.certificateFile domain).content = some p.pem ∧
      l'.certificates.lookup domain = some p.certificate) ∨
    (∃ now, a = .expire domain now ∧ p.certificate.validAt now = false) ∨
    ∃ domains, a = .configure domains ∧ domain ∉ domains
  /-- A failed save leaves the served certificates as they are. -/
  unsaved : ∀ domain now outcome w' phase' l', Step parse w (.save domain now outcome) w' →
    w'.process = some (phase', l') → outcome ≠ .done → l'.certificates = l.certificates

theorem lookup_erase_ne {α : Type} {m : Map String α} {d domain : String} {a : α}
    (h : m.lookup d = some a) (hne : (m.erase domain).lookup d ≠ some a) : d = domain := by
  by_contra hd
  rw [Map.lookup_erase_eq, if_neg hd] at hne
  exact hne h

theorem careful {parse : Parse} {w : World} {phase : Phase} {l : Loop} (h : w.Exclusive)
    (hl : w.process = some (phase, l)) : Careful parse w l where
  aborted_dropped := by
    intro job result now random w' phase' l' hs hl' habort
    cases hs.changes h hl hl' with
    | issued hjob hnot _ _ =>
      rw [habort] at hnot
      exact absurd hnot (by simp)
    | nothing hpending hcertificates => exact ⟨hpending, hcertificates⟩
  issued := by
    intro a w' phase' l' domain p hs hl' hnew
    cases hs.changes h hl hl' with
    | @issued job p' now random hjob habort hpending _ =>
      rw [hpending, Map.lookup_insert_eq] at hnew
      by_cases heq : domain = job.domain
      · rw [if_pos heq] at hnew
        obtain rfl := Option.some.inj hnew
        exact .inr ⟨job, now, random, rfl, heq.symm, hjob, habort⟩
      · rw [if_neg heq] at hnew
        exact .inl hnew
    | configured hpending =>
      rw [hpending] at hnew
      exact .inl (Map.lookup_retain_eq_some.mp hnew).1
    | expired _ _ hpending _ | installed _ _ hpending _ =>
      rw [hpending, Map.lookup_erase_eq] at hnew
      split at hnew
      · exact absurd hnew (by simp)
      · exact .inl hnew
    | nothing hpending _ =>
      rw [hpending] at hnew
      exact .inl hnew
  no_reorder := by
    intro id w' domain begun left _ hp
    exact (h _ _ hp).2.2.1 domain List.mem_cons_self
  leaves := by
    intro a w' phase' l' domain p hs hl' hold hnew
    cases hs.changes h hl hl' with
    | @issued job p' now random hjob habort hpending _ =>
      -- The domain of a task has nothing waiting, so nothing is overwritten.
      have hexcl := (h _ _ hl).1
      have hactive := hexcl.workers.recorded job hjob habort
      have hnone := hexcl.apart job.domain (by rw [hactive]; simp)
      rw [hpending, Map.lookup_insert_eq] at hnew
      by_cases heq : domain = job.domain
      · rw [heq, hnone] at hold
        exact absurd hold (by simp)
      · rw [if_neg heq] at hnew
        exact absurd hold hnew
    | @configured domains hpending =>
      refine .inr (.inr ⟨domains, rfl, fun hin => hnew ?_⟩)
      rw [hpending]
      exact Map.lookup_retain_eq_some.mpr ⟨hold, by simpa using hin⟩
    | @expired domain' now p' hlookup hinvalid hpending _ =>
      rw [hpending] at hnew
      obtain rfl := lookup_erase_ne hold hnew
      obtain rfl := Option.some.inj (hold.symm.trans hlookup)
      exact .inr (.inl ⟨now, rfl, hinvalid⟩)
    | @installed domain' now p' hlookup hfile hpending hcertificates =>
      rw [hpending] at hnew
      obtain rfl := lookup_erase_ne hold hnew
      obtain rfl := Option.some.inj (hold.symm.trans hlookup)
      refine .inl ⟨now, rfl, hfile, ?_⟩
      rw [hcertificates, Map.lookup_insert_eq, if_pos rfl]
    | nothing hpending _ =>
      rw [hpending] at hnew
      exact absurd hold hnew
  unsaved := by
    intro domain now outcome w' phase' l' hs hl' ho
    cases hs.changes h hl hl' with
    | installed _ _ _ _ => exact absurd rfl ho
    | nothing _ hcertificates => exact hcertificates

/-- **Issuance workers are exclusive and no issued certificate is ordered again.**  In every state
    of every run, with any configurations, outcomes of tasks and failing writes: there are at
    most four tasks, so that `4 - jobs.len()` does not underflow; a domain has at most one task
    that is not aborted, and it is the one recorded for it; no domain has both a task and a
    waiting certificate; and every next step is `Careful`. -/
theorem exclusive_workers {parse : Parse} {P : Act → Prop} {w₀ w : World} (hfirst : First w₀)
    (hr : Run parse P w₀ w) {phase : Phase} {l : Loop} (hl : w.process = some (phase, l)) :
    l.workers.jobs.length ≤ 4 ∧ (l.workers.jobs.map Job.id).Nodup ∧
    (∀ j₁ ∈ l.workers.jobs, ∀ j₂ ∈ l.workers.jobs, j₁.aborted = false → j₂.aborted = false →
      j₁.domain = j₂.domain → j₁ = j₂) ∧
    (∀ j ∈ l.workers.jobs, j.aborted = false → l.workers.active.lookup j.domain = some j.id) ∧
    (∀ domain id, l.workers.active.lookup domain = some id →
      (∃ j ∈ l.workers.jobs, j.id = id ∧ j.domain = domain ∧ j.aborted = false) ∧
        l.pending.lookup domain = none) ∧
    Careful parse w l := by
  have hw := hr.exclusive hfirst
  obtain ⟨hexcl, -⟩ := hw _ _ hl
  refine ⟨hexcl.workers.few, hexcl.workers.distinct, ?_, hexcl.workers.recorded, ?_,
    careful hw hl⟩
  · intro j₁ hj₁ j₂ hj₂ ha₁ ha₂ heq
    exact hexcl.workers.one_task hj₁ hj₂ ha₁ ha₂ heq
  · intro domain id hactive
    exact ⟨hexcl.workers.counted domain id hactive, hexcl.apart domain (by rw [hactive]; simp)⟩

/-- A site is taken away and added again before its worker has ended: the aborted worker and a new
    one are both there, and only the new one counts. -/
theorem exclusive_workers_aborted :
    ∃ w l, Run testParse Lasting testFirst w ∧ w.process = some (.select, l) ∧
      l.workers.jobs = [⟨8, "a.b", 1180, false⟩, ⟨7, "a.b", 1000, true⟩] ∧
      l.workers.active.lookup "a.b" = some 8 ∧ Careful testParse w l := by
  have s₁ := run_testStarted.step (a := .tick) (.tick rfl) trivial
  have s₂ := s₁.step (a := .configure []) (.configure rfl (by decide)) trivial
  have s₃ := s₂.step (a := .keepWaiting 1000)
    (.keepWaiting rfl ⟨by decide, by decide⟩ (by decide)) trivial
  have s₄ := s₃.step (a := .rest true 1000 (fun _ => (1000, 1000)))
    (.rest rfl ⟨by decide, by decide⟩ (readsAll_const (by decide)) (by decide)) trivial
  have s₅ := s₄.step (a := .tick) (.tick rfl) trivial
  have s₆ := s₅.step (a := .configure ["a.b"]) (.configure rfl (by decide)) trivial
  -- The wait for the first attempt is over by now.
  have s₇ := s₆.step (a := .beginSave 1180 1180)
    (.beginSave rfl ⟨by decide, by decide⟩ (by decide) (by decide) (by decide)) trivial
  have s₈ := s₇.step (a := .saveAccount .done []) (.saveAccount rfl (List.Perm.refl _)) trivial
  have s₉ := s₈.step (a := .endSave .done) (.endSave rfl) trivial
  have s₁₀ := s₉.step (a := .persist 1180 (fun _ => (1180, 1180)) true .done)
    (.persist rfl ⟨by decide, by decide⟩ (readsAll_const (by decide)) (by decide)) trivial
  have s₁₁ := s₁₀.step (a := .spawnAll) (.spawnAll rfl rfl) trivial
  have s₁₂ := s₁₁.step (a := .begin "a.b" 1180 0 .done) (.begin rfl ⟨by decide, by decide⟩) trivial
  have s₁₃ := s₁₂.step (a := .spawn 8) (.spawn rfl (fresh_of_notMem (by decide))) trivial
  have hr := s₁₃.step (a := .spawnedAll) (.spawnedAll rfl) trivial
  obtain ⟨-, -, -, hrecorded, -, hcareful⟩ := exclusive_workers ⟨rfl, rfl⟩ hr rfl
  exact ⟨_, _, hr, rfl, rfl, hrecorded ⟨8, "a.b", 1180, false⟩ List.mem_cons_self rfl, hcareful⟩

end Certificates

end Geata
