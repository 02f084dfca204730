import Geata.Lib.File
import Geata.Lib.Word
import Geata.Lightning.Binding

namespace Geata

open Geata.Lib Geata.Lightning

/-!
# The CA-wide cooldown

A rate-limited answer of the CA sets a barrier that all workers of the process respect and that
is written to `ca-retry.json` for the next process.  `Cooldown` is that process with any number
of requests under way; the steps are the places where the mutex is taken.

* `retryDeadline` — the deadline an answer asks for.
* `Cooldown.Step` — a readiness check, an answer, `defer`, `persist`, a crash and a restart.
* `cooldown_never_shortened` — what holds in every run.
-/

namespace Certificates

/-! ### The deadline of an answer -/

/-- `StatusCode::is_client_error` -/
def isClientError (status : ℕ) : Bool := decide (400 ≤ status) && decide (status < 500)

/-- `StatusCode::is_server_error` -/
def isServerError (status : ℕ) : Bool := decide (500 ≤ status) && decide (status < 600)

/-- `StatusCode::TOO_MANY_REQUESTS` -/
def TOO_MANY_REQUESTS : ℕ := 429

/-- Drop the whitespace around a text (`str::trim`). -/
def trim (l : List Char) : List Char :=
  ((l.dropWhile Char.isWhitespace).reverse.dropWhile Char.isWhitespace).reverse

/-- The deadline in a `Retry-After` text: seconds from now, or a date after the epoch.
    `parseHttpDate` reads a date as seconds since the epoch. -/
def retryAfter (parseHttpDate : String → Option ℤ) (now : ℤ) (v : List Char) : Option ℤ :=
  match parseUnsigned (2 ^ 64) v with
  | some seconds => some (addSaturating now (min (seconds : ℤ) i64Max))
  | none => ((parseHttpDate (String.ofList v)).filter (fun date => decide (0 ≤ date))).map
      (fun date => min date i64Max)

/-- When the CA may be asked again after an answer; `none` when it did not ask for a pause. -/
def retryDeadline (parseHttpDate : String → Option ℤ) (status : ℕ) (headers : HeaderMap)
    (now : ℤ) : Option ℤ :=
  if !isClientError status && !isServerError status then none
  else
    let header := (((headers.getAll "retry-after").head?).bind HeaderValue.toStr).map
      (fun v => trim v.toList)
    match header.bind (retryAfter parseHttpDate now) with
    | some deadline => some (max deadline (addSaturating now 1))
    | none => if status = TOO_MANY_REQUESTS then some (addSaturating now 60) else none

/-- A deadline is in the future, whatever the CA wrote. -/
theorem lt_retryDeadline {parseHttpDate : String → Option ℤ} {status : ℕ} {headers : HeaderMap}
    {now deadline : ℤ} (hnow : now < i64Max)
    (h : retryDeadline parseHttpDate status headers now = some deadline) : now < deadline := by
  have hone : now < addSaturating now 1 := by
    unfold addSaturating
    exact lt_min (by omega) hnow
  have hsixty : now < addSaturating now 60 := by
    unfold addSaturating
    exact lt_min (by omega) hnow
  unfold retryDeadline at h
  split at h
  · exact absurd h (by simp)
  · dsimp only at h
    split at h
    · rename_i parsed _
      obtain rfl := Option.some.inj h
      exact lt_of_lt_of_le hone (le_max_right _ _)
    · split at h
      · obtain rfl := Option.some.inj h
        exact hsixty
      · exact absurd h (by simp)

/-! ### The process -/

/-- The memory of one process. -/
structure Memory where
  /-- The barrier as it was loaded. -/
  loaded : ℤ
  /-- The barrier now (`until` of the source). -/
  barrier : ℤ
  /-- Requests that passed their check and have no answer yet. -/
  sent : ℕ := 0
  /-- Deadlines of answers whose `defer` has not run yet. -/
  answered : List ℤ := []
  /-- Deadlines deferred by this process. -/
  deferred : List ℤ := []

/-- A process and its file.  `secured` are the deadlines deferred, by this process or an earlier
    one, before the last successful write. -/
structure Cooldown where
  memory : Option Memory
  file : File ℤ
  secured : List ℤ := []

/-- The actions of a process and of its surroundings. -/
inductive CooldownAct where
  /-- A request's check passed at this time. -/
  | pass (now : ℤ)
  /-- A request's check refused it. -/
  | wait (now : ℤ)
  /-- An answer arrived, with the deadline it asks for, if any. -/
  | answer (status : ℕ) (headers : HeaderMap) (now : ℤ)
  /-- A request failed or timed out. -/
  | lost
  | defer (deadline : ℤ) (outcome : Written)
  | persist (outcome : Written)
  | crash
  | load

namespace Cooldown

/-- Write the barrier; success secures everything deferred so far. -/
def save (c : Cooldown) (m : Memory) (outcome : Written) : Cooldown :=
  { c with
    memory := some m
    file := c.file.write m.barrier outcome
    secured := if outcome = .done then m.deferred ++ c.secured else c.secured }

/-- One action.  A check reads the barrier under the mutex, and the clock, which may be set back
    between two readings; `defer` raises the
    barrier and writes it under the same lock, so that writes follow the order of the raises. -/
inductive Step (parseHttpDate : String → Option ℤ) :
    Cooldown → CooldownAct → Cooldown → Prop where
  | pass {c : Cooldown} {m : Memory} {now : ℤ} (hm : c.memory = some m)
      (hready : m.barrier ≤ now) :
      Step parseHttpDate c (.pass now) { c with memory := some { m with sent := m.sent + 1 } }
  | wait {c : Cooldown} {m : Memory} {now : ℤ} (hm : c.memory = some m)
      (hready : now < m.barrier) : Step parseHttpDate c (.wait now) c
  | answer {c : Cooldown} {m : Memory} {status : ℕ} {headers : HeaderMap} {now : ℤ}
      (hm : c.memory = some m) (hsent : 0 < m.sent) :
      Step parseHttpDate c (.answer status headers now)
        { c with memory := some { m with
            sent := m.sent - 1
            answered := (retryDeadline parseHttpDate status headers
              (addSaturating now 1)).toList ++ m.answered } }
  | lost {c : Cooldown} {m : Memory} (hm : c.memory = some m) (hsent : 0 < m.sent) :
      Step parseHttpDate c .lost { c with memory := some { m with sent := m.sent - 1 } }
  | defer {c : Cooldown} {m : Memory} {deadline : ℤ} {outcome : Written}
      (hm : c.memory = some m) (hdue : deadline ∈ m.answered) :
      Step parseHttpDate c (.defer deadline outcome)
        (c.save { m with
          barrier := max m.barrier deadline
          answered := m.answered.erase deadline
          deferred := deadline :: m.deferred } outcome)
  | persist {c : Cooldown} {m : Memory} {outcome : Written} (hm : c.memory = some m) :
      Step parseHttpDate c (.persist outcome) (c.save m outcome)
  | crash {c : Cooldown} {file : File ℤ} (hfile : c.file.Crash file) :
      Step parseHttpDate c .crash { c with memory := none, file := file }
  | load {c : Cooldown} (hm : c.memory = none) :
      Step parseHttpDate c .load
        { c with
          memory := some { loaded := c.file.content.getD 0, barrier := c.file.content.getD 0 } }

/-- A run with its actions, the last one first. -/
inductive Run (parseHttpDate : String → Option ℤ) (c : Cooldown) :
    List CooldownAct → Cooldown → Prop where
  | refl : Run parseHttpDate c [] c
  | step {acts : List CooldownAct} {c₁ c₂ : Cooldown} {a : CooldownAct}
      (h : Run parseHttpDate c acts c₁) (hs : Step parseHttpDate c₁ a c₂) :
      Run parseHttpDate c (a :: acts) c₂

/-- Before the first process. -/
structure First (c : Cooldown) : Prop where
  memory : c.memory = none
  secured : c.secured = []

variable {parseHttpDate : String → Option ℤ} {c c' c₁ c₂ : Cooldown} {a : CooldownAct}
  {acts : List CooldownAct}

/-! ### What every run keeps -/

/-- The file is not ahead of the barrier, the barrier is the largest deadline so far, and nothing
    secured can be lost. -/
structure Kept (c : Cooldown) : Prop where
  barrier : ∀ m, c.memory = some m → m.barrier = m.deferred.foldr max m.loaded
  behind : ∀ m, c.memory = some m → ∀ v, c.file.content = some v → v ≤ m.barrier
  secured : ∀ d ∈ c.secured, c.file.Always (fun content => ∃ v, content = some v ∧ d ≤ v)
  reached : ∀ m, c.memory = some m → ∀ d ∈ c.secured, d ≤ m.barrier

theorem First.kept (h : First c) : Kept c where
  barrier := by simp [h.memory]
  behind := by simp [h.memory]
  secured := by simp [h.secured]
  reached := by simp [h.memory]

theorem le_foldr_max {l : List ℤ} {b d : ℤ} (hd : d ∈ l) : d ≤ l.foldr max b := by
  induction l with
  | nil => exact absurd hd (by simp)
  | cons x l ih =>
    rw [List.foldr_cons]
    rcases List.mem_cons.mp hd with rfl | hd
    · exact le_max_left _ _
    · exact le_trans (ih hd) (le_max_right _ _)

theorem base_le_foldr_max (l : List ℤ) (b : ℤ) : b ≤ l.foldr max b := by
  induction l with
  | nil => exact le_refl b
  | cons x l ih => exact le_trans ih (le_max_right _ _)

/-- Changes to the requests under way leave everything kept. -/
theorem Kept.requests {m m' : Memory} (h : Kept c) (hm : c.memory = some m)
    (hloaded : m'.loaded = m.loaded) (hbarrier : m'.barrier = m.barrier)
    (hdeferred : m'.deferred = m.deferred) : Kept { c with memory := some m' } where
  barrier := by
    intro m₁ hm₁
    obtain rfl := Option.some.inj hm₁
    rw [hbarrier, hdeferred, hloaded]
    exact h.barrier m hm
  behind := by
    intro m₁ hm₁ v hv
    obtain rfl := Option.some.inj hm₁
    rw [hbarrier]
    exact h.behind m hm v hv
  secured := h.secured
  reached := by
    intro m₁ hm₁ d hd
    obtain rfl := Option.some.inj hm₁
    rw [hbarrier]
    exact h.reached m hm d hd

/-- Writing a barrier that is not below the old one. -/
theorem Kept.save {m m' : Memory} (h : Kept c) (hm : c.memory = some m)
    (hbarrier : m'.barrier = m'.deferred.foldr max m'.loaded) (hle : m.barrier ≤ m'.barrier)
    (outcome : Written) : Kept (c.save m' outcome) where
  barrier := by
    intro m₁ hm₁
    obtain rfl := Option.some.inj hm₁
    exact hbarrier
  behind := by
    intro m₁ hm₁ v hv
    obtain rfl := Option.some.inj hm₁
    rcases c.file.content_write m'.barrier outcome with hc | hc
    · exact le_trans (h.behind m hm v (hc.symm.trans hv)) hle
    · exact le_of_eq (Option.some.inj (hv.symm.trans hc))
  secured := by
    intro d hd
    have hold : d ∈ c.secured → (c.file.write m'.barrier outcome).Always
        (fun content => ∃ v, content = some v ∧ d ≤ v) := fun hd =>
      (h.secured d hd).write ⟨_, rfl, le_trans (h.reached m hm d hd) hle⟩ outcome
    by_cases ho : outcome = .done
    · rw [Cooldown.save, if_pos ho] at hd
      rcases List.mem_append.mp hd with hd | hd
      · -- The value just written covers everything deferred.
        show (c.file.write m'.barrier outcome).Always _
        rw [ho]
        exact File.always_done.mpr ⟨_, rfl, by rw [hbarrier]; exact le_foldr_max hd⟩
      · exact hold hd
    · rw [Cooldown.save, if_neg ho] at hd
      exact hold hd
  reached := by
    intro m₁ hm₁ d hd
    obtain rfl := Option.some.inj hm₁
    have hd' : d ∈ m'.deferred ∨ d ∈ c.secured := by
      unfold Cooldown.save at hd
      dsimp only at hd
      split at hd
      · exact List.mem_append.mp hd
      · exact .inr hd
    rcases hd' with hd | hd
    · rw [hbarrier]
      exact le_foldr_max hd
    · exact le_trans (h.reached m hm d hd) hle

theorem Step.kept (hs : Step parseHttpDate c a c') (h : Kept c) : Kept c' := by
  cases hs with
  | pass hm hready => exact h.requests hm rfl rfl rfl
  | wait hm hready => exact h
  | answer hm hsent => exact h.requests hm rfl rfl rfl
  | lost hm hsent => exact h.requests hm rfl rfl rfl
  | @defer m deadline outcome hm hdue =>
    refine h.save hm ?_ (le_max_left _ _) outcome
    show max m.barrier deadline = max deadline (m.deferred.foldr max m.loaded)
    rw [h.barrier m hm, max_comm]
  | persist hm => exact h.save hm (h.barrier _ hm) (le_refl _) _
  | crash hfile =>
    refine ⟨?_, ?_, fun d hd => (h.secured d hd).crash hfile, ?_⟩
    · exact fun m hm => absurd hm (by simp)
    · exact fun m hm => absurd hm (by simp)
    · exact fun m hm => absurd hm (by simp)
  | load hm =>
    refine ⟨?_, ?_, h.secured, ?_⟩
    · intro m hm'
      obtain rfl := Option.some.inj hm'
      rfl
    · intro m hm' v hv
      obtain rfl := Option.some.inj hm'
      rw [hv]
      exact le_refl _
    · intro m hm' d hd
      obtain rfl := Option.some.inj hm'
      obtain ⟨v, hv, hle⟩ := (h.secured d hd).content
      rw [hv]
      exact hle

theorem Run.kept (hr : Run parseHttpDate c acts c') (h : Kept c) : Kept c' := by
  induction hr with
  | refl => exact h
  | step _ hs ih => exact hs.kept ih

/-! ### The file of one process -/

/-- The value in the file does not decrease. -/
def FileGrows (c c' : Cooldown) : Prop :=
  ∀ v, c.file.content = some v → ∃ v', c'.file.content = some v' ∧ v ≤ v'

theorem save_fileGrows {m m' : Memory} (h : Kept c) (hm : c.memory = some m)
    (hle : m.barrier ≤ m'.barrier) (outcome : Written) : FileGrows c (c.save m' outcome) := by
  intro v hv
  have hv' : v ≤ m'.barrier := le_trans (h.behind m hm v hv) hle
  rcases c.file.content_write m'.barrier outcome with hc | hc
  · exact ⟨v, hc.trans hv, le_refl v⟩
  · exact ⟨_, hc, hv'⟩

theorem Step.fileGrows (hs : Step parseHttpDate c a c') (h : Kept c) (ha : a ≠ .crash) :
    FileGrows c c' := by
  have hsame : c'.file = c.file → FileGrows c c' := fun heq v hv => ⟨v, by rw [heq, hv], le_refl v⟩
  cases hs with
  | pass hm hready => exact hsame rfl
  | wait hm hready => exact hsame rfl
  | answer hm hsent => exact hsame rfl
  | lost hm hsent => exact hsame rfl
  | defer hm hdue => exact save_fileGrows h hm (le_max_left _ _) _
  | persist hm => exact save_fileGrows h hm (le_refl _) _
  | crash hfile => exact absurd rfl ha
  | load hm => exact hsame rfl

theorem Run.fileGrows (hr : Run parseHttpDate c acts c') (h : Kept c)
    (ha : ∀ a ∈ acts, a ≠ .crash) : FileGrows c c' := by
  induction hr with
  | refl => exact fun v hv => ⟨v, hv, le_refl v⟩
  | @step acts c₁ c₂ a hr hs ih =>
    intro v hv
    obtain ⟨v₁, hv₁, hle₁⟩ := ih (fun a' ha' => ha a' (List.mem_cons_of_mem _ ha')) v hv
    obtain ⟨v₂, hv₂, hle₂⟩ := hs.fileGrows (hr.kept h) (ha a List.mem_cons_self) v₁ hv₁
    exact ⟨v₂, hv₂, le_trans hle₁ hle₂⟩

/-- **CA cooldowns are never shortened.**  In every run, with any requests under way and any
    writes failing: the barrier is the largest of its loaded value and the deadlines deferred so
    far; no request passes its check before it; a deadline is later than the time it was made
    at, short of the end of the clock; the value in the file does not decrease while a process
    runs; and a restarted process loads at least every deadline deferred before the last
    successful write. -/
theorem cooldown_never_shortened (hfirst : First c) (hr : Run parseHttpDate c acts c₁) :
    (∀ m, c₁.memory = some m → m.barrier = m.deferred.foldr max m.loaded) ∧
    (∀ now c₂, Step parseHttpDate c₁ (.pass now) c₂ →
      ∃ m, c₁.memory = some m ∧ m.loaded ≤ now ∧ ∀ d ∈ m.deferred, d ≤ now) ∧
    (∀ status headers now deadline, now < i64Max →
      retryDeadline parseHttpDate status headers now = some deadline → now < deadline) ∧
    (∀ acts' c₂, Run parseHttpDate c₁ acts' c₂ → (∀ a ∈ acts', a ≠ .crash) → FileGrows c₁ c₂) ∧
    (∀ c₂, Step parseHttpDate c₁ .load c₂ →
      ∃ m, c₂.memory = some m ∧ m.barrier = m.loaded ∧ ∀ d ∈ c₁.secured, d ≤ m.loaded) := by
  have hkept := hr.kept hfirst.kept
  refine ⟨hkept.barrier, ?_, fun _ _ _ _ hnow h => lt_retryDeadline hnow h,
    fun acts' c₂ hr' ha => hr'.fileGrows hkept ha, ?_⟩
  · intro now c₂ hs
    cases hs with
    | @pass m _ hm hready =>
      rw [hkept.barrier m hm] at hready
      exact ⟨m, hm, le_trans (base_le_foldr_max _ _) hready,
        fun d hd => le_trans (le_foldr_max hd) hready⟩
  · intro c₂ hs
    have hkept₂ := hs.kept hkept
    cases hs with
    | load hm => exact ⟨_, rfl, rfl, fun d hd => hkept₂.reached _ rfl d hd⟩

/-- A first process is asked to wait a minute and cannot save that; a request that comes before has
    to wait, a later write succeeds, and the process started after a crash waits as well. -/
theorem cooldown_never_shortened_first :
    ∃ acts c₁ c₂ m, Run (fun _ => none) { memory := none, file := { content := some 5 } } acts c₁ ∧
      .wait 70 ∈ acts ∧ Step (fun _ => none) c₁ .load c₂ ∧ c₂.memory = some m ∧ 71 ≤ m.loaded := by
  let file : File ℤ := { content := some 5 }
  have hload : Step (fun _ => none) ⟨none, file, []⟩ .load ⟨some ⟨5, 5, 0, [], []⟩, file, []⟩ :=
    .load rfl
  have hpass : Step (fun _ => none) ⟨some ⟨5, 5, 0, [], []⟩, file, []⟩ (.pass 10)
      ⟨some ⟨5, 5, 1, [], []⟩, file, []⟩ := .pass (m := ⟨5, 5, 0, [], []⟩) rfl (by decide)
  have hanswer : Step (fun _ => none) ⟨some ⟨5, 5, 1, [], []⟩, file, []⟩ (.answer 429 [] 10)
      ⟨some ⟨5, 5, 0, [71], []⟩, file, []⟩ :=
    .answer (m := ⟨5, 5, 1, [], []⟩) rfl (by decide)
  have hdefer : Step (fun _ => none) ⟨some ⟨5, 5, 0, [71], []⟩, file, []⟩ (.defer 71 .refused)
      ⟨some ⟨5, 71, 0, [], [71]⟩, file, []⟩ := .defer (m := ⟨5, 5, 0, [71], []⟩) rfl (by decide)
  have hwait : Step (fun _ => none) ⟨some ⟨5, 71, 0, [], [71]⟩, file, []⟩ (.wait 70)
      ⟨some ⟨5, 71, 0, [], [71]⟩, file, []⟩ :=
    .wait (m := ⟨5, 71, 0, [], [71]⟩) rfl (by decide)
  have hpersist : Step (fun _ => none) ⟨some ⟨5, 71, 0, [], [71]⟩, file, []⟩ (.persist .done)
      ⟨some ⟨5, 71, 0, [], [71]⟩, { content := some 71 }, [71]⟩ :=
    .persist (m := ⟨5, 71, 0, [], [71]⟩) rfl
  have hcrash : Step (fun _ => none) ⟨some ⟨5, 71, 0, [], [71]⟩, { content := some 71 }, [71]⟩
      .crash ⟨none, { content := some 71 }, [71]⟩ := .crash (fun _ h => h)
  have hr := ((((((Run.refl.step hload).step hpass).step hanswer).step hdefer).step hwait).step
    hpersist).step hcrash
  have hreload : Step (fun _ => none) ⟨none, { content := some 71 }, [71]⟩ .load _ := .load rfl
  obtain ⟨m, hm, -, hsecured⟩ := (cooldown_never_shortened ⟨rfl, rfl⟩ hr).2.2.2.2 _ hreload
  exact ⟨_, _, _, m, hr, by simp, hreload, hm, hsecured 71 List.mem_cons_self⟩

end Cooldown

end Certificates

end Geata
