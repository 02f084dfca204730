import Mathlib.Data.List.Nodup
import Mathlib.Logic.Function.Basic
import Mathlib.Logic.Relation
import Geata.Lib.Prog

namespace Geata.Lib

open Function

/-!
# Interleaved programs with cancellation and crashes

A `Machine` runs any number of programs over one shared state.  Requests arrive at any time, one
operation of one program runs at a time, a program can be dropped during any operation, the
environment acts on its own, and a crash drops every program at once.

* `Effects` — what each operation does to the shared state, complete or cut short.
* `World.Step` — the interleaving semantics; `Reachable` — the worlds some run reaches.
* `World.Tidy` — the books of a run: every number stands for one request, at most one answer is
  given for it, and what it has performed so far is a run of its program.
-/

variable {S T : Sig} {σ ρ α β : Type}

/-- How operations act on a shared state.  The number is that of the program performing them. -/
structure Effects (S : Sig) (σ : Type) where
  /-- A complete operation and its answer. -/
  exec : ℕ → σ → (o : S.Op) → S.Res o → σ → Prop
  /-- An operation whose program is dropped while it is under way. -/
  cut : ℕ → σ → S.Op → σ → Prop

/-- The effects of programs with timers.  When a timer fires, the operation is cut short and the
    program leaves what it had entered under the timer. -/
def Effects.timers (E : Effects S σ) (leave : ℕ → σ → σ) : Effects S.timers σ where
  exec i s (o : S.TimerOp) (r : S.timers.Res o) s' :=
    match o, r with
    | .plain o, r => E.exec i s o r s'
    | .timed o, some r => E.exec i s o r s'
    | .timed o, none => ∃ s₁, E.cut i s o s₁ ∧ s' = leave i s₁
  cut i s (o : S.TimerOp) s' :=
    match o with
    | .plain o | .timed o => E.cut i s o s'

/-- A system of programs over a shared state `σ`, answering requests `ρ` with values `α`. -/
structure Machine (S : Sig) (σ ρ α : Type) where
  /-- The states a run can start in. -/
  init : σ → Prop
  /-- The requests that can arrive in a state. -/
  admits : σ → ρ → Prop
  /-- The program that serves a request. -/
  code : ρ → Prog S α
  effects : Effects S σ
  /-- What dropping or finishing program `i` gives back. -/
  release : ℕ → σ → σ
  /-- Steps no program takes. -/
  env : σ → σ → Prop
  /-- What a crash does to the shared state. -/
  crash : σ → σ → Prop

/-- A moment of a run: the shared state, the running programs with their requests, how many
    requests have arrived and which, the operations each has performed, and the answers given. -/
structure World (S : Sig) (σ ρ α : Type) where
  shared : σ
  procs : ℕ → Option (ρ × Prog S α)
  started : ℕ
  requests : ℕ → Option ρ
  trace : ℕ → List S.Event
  returned : List (ℕ × ρ × α)

namespace World

/-- Nothing has arrived yet. -/
def initial (s : σ) : World S σ ρ α where
  shared := s
  procs := fun _ => none
  started := 0
  requests := fun _ => none
  trace := fun _ => []
  returned := []

/-- One step of a run. -/
inductive Step (M : Machine S σ ρ α) : World S σ ρ α → World S σ ρ α → Prop where
  /-- A request arrives and gets the next number. -/
  | start {w : World S σ ρ α} {q : ρ} (h : M.admits w.shared q) :
      Step M w { w with
        procs := update w.procs w.started (some (q, M.code q))
        started := w.started + 1
        requests := update w.requests w.started (some q) }
  /-- Program `i` performs its next operation. -/
  | exec {w : World S σ ρ α} {i : ℕ} {q : ρ} {o : S.Op} {k : S.Res o → Prog S α}
      {r : S.Res o} {s' : σ} (hp : w.procs i = some (q, .op o k))
      (h : M.effects.exec i w.shared o r s') :
      Step M w { w with
        shared := s'
        procs := update w.procs i (some (q, k r))
        trace := update w.trace i (w.trace i ++ [⟨o, r⟩]) }
  /-- Program `i` answers its request. -/
  | finish {w : World S σ ρ α} {i : ℕ} {q : ρ} {a : α} (hp : w.procs i = some (q, .ret a)) :
      Step M w { w with
        shared := M.release i w.shared
        procs := update w.procs i none
        returned := (i, q, a) :: w.returned }
  /-- Program `i` is dropped between two operations, or before its answer is delivered. -/
  | drop {w : World S σ ρ α} {i : ℕ} {q : ρ} {p : Prog S α} (hp : w.procs i = some (q, p)) :
      Step M w { w with
        shared := M.release i w.shared
        procs := update w.procs i none }
  /-- Program `i` is dropped during its next operation. -/
  | cancel {w : World S σ ρ α} {i : ℕ} {q : ρ} {o : S.Op} {k : S.Res o → Prog S α} {s' : σ}
      (hp : w.procs i = some (q, .op o k)) (h : M.effects.cut i w.shared o s') :
      Step M w { w with
        shared := M.release i s'
        procs := update w.procs i none }
  /-- The environment acts. -/
  | env {w : World S σ ρ α} {s' : σ} (h : M.env w.shared s') : Step M w { w with shared := s' }
  /-- The process crashes and restarts: every program is gone. -/
  | crash {w : World S σ ρ α} {s' : σ} (h : M.crash w.shared s') :
      Step M w { w with shared := s', procs := fun _ => none }

/-- Any number of steps. -/
abbrev Steps (M : Machine S σ ρ α) : World S σ ρ α → World S σ ρ α → Prop :=
  Relation.ReflTransGen (Step M)

/-- The worlds that some run of `M` reaches. -/
def Reachable (M : Machine S σ ρ α) (w : World S σ ρ α) : Prop :=
  ∃ s, M.init s ∧ Steps M (initial s) w

theorem Reachable.steps {M : Machine S σ ρ α} {w w' : World S σ ρ α} (h : Reachable M w)
    (hs : Steps M w w') : Reachable M w' := by
  obtain ⟨s, hi, hr⟩ := h
  exact ⟨s, hi, hr.trans hs⟩

/-- **Invariant rule.**  What holds at the start and survives every step holds always. -/
theorem Reachable.induction {M : Machine S σ ρ α} {P : World S σ ρ α → Prop}
    (init : ∀ s, M.init s → P (initial s))
    (step : ∀ w w', Reachable M w → P w → Step M w w' → P w')
    {w : World S σ ρ α} (h : Reachable M w) : P w := by
  obtain ⟨s, hi, hr⟩ := h
  induction hr with
  | refl => exact init s hi
  | tail hr hs ih => exact step _ _ ⟨s, hi, hr⟩ ih hs

end World

/-- The machine whose operations start in states that satisfy `J`. -/
def Machine.within (M : Machine S σ ρ α) (J : σ → Prop) : Machine S σ ρ α :=
  { M with
    effects := { M.effects with exec := fun i s o r s' => M.effects.exec i s o r s' ∧ J s } }

/-- When `J` holds throughout, nothing is lost. -/
theorem World.Reachable.steps_within {M : Machine S σ ρ α} {J : σ → Prop}
    (hJ : ∀ w : World S σ ρ α, Reachable M w → J w.shared) {w w' : World S σ ρ α}
    (h : Reachable M w) (hs : Steps M w w') : Steps (M.within J) w w' := by
  induction hs with
  | refl => exact .refl
  | @tail v v' hv hs ih =>
    refine ih.tail ?_
    cases hs with
    | start hq => exact .start (M := M.within J) hq
    | exec hp he => exact .exec (M := M.within J) hp ⟨he, hJ v (h.steps hv)⟩
    | finish hp => exact .finish (M := M.within J) hp
    | drop hp => exact .drop (M := M.within J) hp
    | cancel hp hc => exact .cancel (M := M.within J) hp hc
    | env he => exact .env (M := M.within J) he
    | crash hc => exact .crash (M := M.within J) hc

theorem World.Reachable.within {M : Machine S σ ρ α} {J : σ → Prop}
    (hJ : ∀ w : World S σ ρ α, Reachable M w → J w.shared) {w : World S σ ρ α}
    (h : Reachable M w) : Reachable (M.within J) w := by
  obtain ⟨s, hs, hr⟩ := h
  exact ⟨s, hs, World.Reachable.steps_within hJ ⟨s, hs, .refl⟩ hr⟩

/-! ### Bookkeeping: numbers are used once, traces are runs -/

namespace World

variable {M : Machine S σ ρ α}

/-- The bookkeeping part of a world: request numbers are fresh, used by at most one program or
    answer, and the trace of a number is what its program has done. -/
structure Tidy (M : Machine S σ ρ α) (w : World S σ ρ α) : Prop where
  fresh : ∀ i, w.started ≤ i → w.procs i = none ∧ w.trace i = [] ∧ w.requests i = none
  below : ∀ x ∈ w.returned, x.1 < w.started
  once : (w.returned.map Prod.fst).Nodup
  gone : ∀ x ∈ w.returned, w.procs x.1 = none
  reaches : ∀ i q p, w.procs i = some (q, p) →
    w.requests i = some q ∧ Prog.Reaches (M.code q) (w.trace i) p
  performed : ∀ i q, w.requests i = some q → ∃ p, Prog.Reaches (M.code q) (w.trace i) p
  runs : ∀ x ∈ w.returned, w.requests x.1 = some x.2.1 ∧
    Prog.Runs (M.code x.2.1) (w.trace x.1) x.2.2

theorem lt_started_of_procs {w : World S σ ρ α} (h : Tidy M w) {i : ℕ} {x : ρ × Prog S α}
    (hp : w.procs i = some x) : i < w.started := by
  by_contra hlt
  have := (h.fresh i (Nat.le_of_not_lt hlt)).1
  rw [hp] at this
  exact absurd this (by simp)

/-- A running program has not answered yet. -/
theorem Tidy.ne_of_returned {w : World S σ ρ α} (h : Tidy M w) {i : ℕ} {p : ρ × Prog S α}
    (hp : w.procs i = some p) {x : ℕ × ρ × α} (hx : x ∈ w.returned) : x.1 ≠ i := by
  rintro rfl
  rw [h.gone x hx] at hp
  exact absurd hp (by simp)

/-- Dropping a program keeps the books. -/
theorem Tidy.drop {w : World S σ ρ α} (h : Tidy M w) (i : ℕ) (s' : σ) :
    Tidy M { w with shared := s', procs := update w.procs i none } where
  fresh j hj := by
    obtain ⟨h₁, h₂⟩ := h.fresh j hj
    refine ⟨?_, h₂⟩
    by_cases hji : j = i
    · subst hji; simp
    · simp only [update_of_ne hji]; exact h₁
  below := h.below
  once := h.once
  gone x hx := by
    by_cases hxi : x.1 = i
    · subst hxi; simp
    · simp only [update_of_ne hxi]; exact h.gone x hx
  reaches j q p hp := by
    by_cases hji : j = i
    · subst hji; simp at hp
    · simp only [update_of_ne hji] at hp; exact h.reaches j q p hp
  performed := h.performed
  runs := h.runs

/-- A new request gets a number no other request has. -/
theorem Tidy.start {w : World S σ ρ α} (h : Tidy M w) (q : ρ) :
    Tidy M { w with
      procs := update w.procs w.started (some (q, M.code q))
      started := w.started + 1
      requests := update w.requests w.started (some q) } where
  fresh j hj := by
    have hne : j ≠ w.started := by simp only at hj; omega
    simp only [update_of_ne hne]
    exact h.fresh j (by simp only at hj; omega)
  below x hx := Nat.lt_succ_of_lt (h.below x hx)
  once := h.once
  gone x hx := by
    have hne : x.1 ≠ w.started := Nat.ne_of_lt (h.below x hx)
    simp only [update_of_ne hne]; exact h.gone x hx
  reaches j q' p hp := by
    by_cases hj : j = w.started
    · subst hj
      simp only [update_self, Option.some.injEq, Prod.mk.injEq] at hp ⊢
      obtain ⟨rfl, rfl⟩ := hp
      rw [(h.fresh w.started (Nat.le_refl _)).2.1]
      exact ⟨rfl, .refl _⟩
    · simp only [update_of_ne hj] at hp ⊢; exact h.reaches j q' p hp
  performed j q' hq := by
    by_cases hj : j = w.started
    · subst hj
      simp only [update_self, Option.some.injEq] at hq
      subst hq
      exact ⟨M.code q, by rw [(h.fresh w.started (Nat.le_refl _)).2.1]; exact .refl _⟩
    · simp only [update_of_ne hj] at hq; exact h.performed j q' hq
  runs x hx := by
    have hne : x.1 ≠ w.started := Nat.ne_of_lt (h.below x hx)
    simp only [update_of_ne hne]; exact h.runs x hx

/-- An operation extends the trace of its program. -/
theorem Tidy.exec {w : World S σ ρ α} (h : Tidy M w) {i : ℕ} {q : ρ} {o : S.Op}
    {k : S.Res o → Prog S α} (hp : w.procs i = some (q, .op o k)) (r : S.Res o) (s' : σ) :
    Tidy M { w with
      shared := s'
      procs := update w.procs i (some (q, k r))
      trace := update w.trace i (w.trace i ++ [⟨o, r⟩]) } where
  fresh j hj := by
    have hi := lt_started_of_procs h hp
    have hne : j ≠ i := by simp only at hj; omega
    simp only [update_of_ne hne]; exact h.fresh j hj
  below := h.below
  once := h.once
  gone x hx := by
    simp only [update_of_ne (h.ne_of_returned hp hx)]; exact h.gone x hx
  reaches j q' p hp' := by
    by_cases hj : j = i
    · subst hj
      simp only [update_self, Option.some.injEq, Prod.mk.injEq] at hp' ⊢
      obtain ⟨rfl, rfl⟩ := hp'
      obtain ⟨hq, hr⟩ := h.reaches j q _ hp
      exact ⟨hq, hr.snoc r⟩
    · simp only [update_of_ne hj] at hp' ⊢; exact h.reaches j q' p hp'
  performed j q' hq := by
    by_cases hj : j = i
    · subst hj
      obtain ⟨hq₀, hr⟩ := h.reaches j q _ hp
      obtain rfl : q = q' := Option.some.inj (hq₀.symm.trans hq)
      simp only [update_self]
      exact ⟨_, hr.snoc r⟩
    · simp only [update_of_ne hj]; exact h.performed j q' hq
  runs x hx := by
    simp only [update_of_ne (h.ne_of_returned hp hx)]; exact h.runs x hx

/-- An answer closes its number. -/
theorem Tidy.finish {w : World S σ ρ α} (h : Tidy M w) {i : ℕ} {q : ρ} {a : α}
    (hp : w.procs i = some (q, .ret a)) (s' : σ) :
    Tidy M { w with
      shared := s'
      procs := update w.procs i none
      returned := (i, q, a) :: w.returned } := by
  have hd := h.drop i s'
  refine ⟨hd.fresh, fun x hx => ?_, ?_, fun x hx => ?_, hd.reaches, hd.performed, fun x hx => ?_⟩
  · rcases List.mem_cons.mp hx with rfl | hx
    · exact lt_started_of_procs h hp
    · exact h.below x hx
  · simp only [List.map_cons, List.nodup_cons]
    refine ⟨fun hmem => ?_, h.once⟩
    obtain ⟨x, hx, hxi⟩ := List.mem_map.mp hmem
    exact h.ne_of_returned hp hx hxi
  · rcases List.mem_cons.mp hx with rfl | hx
    · simp
    · exact hd.gone x hx
  · rcases List.mem_cons.mp hx with rfl | hx
    · obtain ⟨hq, hr⟩ := h.reaches i q _ hp
      exact ⟨hq, hr.runs⟩
    · exact h.runs x hx

theorem Tidy.step {w w' : World S σ ρ α} (h : Tidy M w) (hs : Step M w w') : Tidy M w' := by
  cases hs with
  | @start q hq => exact h.start q
  | @exec i q o k r s' hp he => exact h.exec hp r s'
  | @finish i q a hp => exact h.finish hp _
  | @drop i q p hp => exact h.drop i _
  | @cancel i q o k s' hp hc => exact h.drop i _
  | env he => exact ⟨h.fresh, h.below, h.once, h.gone, h.reaches, h.performed, h.runs⟩
  | crash hc =>
    exact ⟨fun j hj => ⟨rfl, (h.fresh j hj).2⟩, h.below, h.once, fun _ _ => rfl,
      fun j q p hp => by simp at hp, h.performed, h.runs⟩

theorem Reachable.tidy {w : World S σ ρ α} (h : Reachable M w) : Tidy M w :=
  h.induction (P := Tidy M)
    (fun s _ => ⟨fun _ _ => ⟨rfl, rfl, rfl⟩, fun x hx => by simp [initial] at hx,
      by simp [initial], fun x hx => by simp [initial] at hx,
      fun i q p hp => by simp [initial] at hp, fun i q hq => by simp [initial] at hq,
      fun x hx => by simp [initial] at hx⟩)
    (fun _ _ _ ih hs => ih.step hs)

/-- Two answers of one reachable world with the same number are the same answer. -/
theorem Reachable.returned_inj {w : World S σ ρ α} (h : Reachable M w) {x y : ℕ × ρ × α}
    (hx : x ∈ w.returned) (hy : y ∈ w.returned) (hxy : x.1 = y.1) : x = y :=
  List.inj_on_of_nodup_map h.tidy.once hx hy hxy

end World

/-! ### What later moments keep -/

/-- Requests are not forgotten. -/
theorem World.Steps.requests {M : Machine S σ ρ α} {w w' : World S σ ρ α} (hw : Reachable M w)
    (h : World.Steps M w w') {i : ℕ} {q : ρ} (hq : w.requests i = some q) :
    w'.requests i = some q := by
  induction h with
  | refl => exact hq
  | @tail v v' hv hs ih =>
    cases hs with
    | start hq' =>
      have hne : i ≠ v.started := by
        rintro rfl
        rw [((hw.steps hv).tidy.fresh _ (Nat.le_refl _)).2.2] at ih
        exact absurd ih (by simp)
      simp only [update_of_ne hne]
      exact ih
    | _ => exact ih

/-- A program that runs ran before, or has started since. -/
theorem World.Steps.running {M : Machine S σ ρ α} {w w' : World S σ ρ α}
    (h : World.Steps M w w') {i : ℕ} (hi : w'.procs i ≠ none) :
    w.procs i ≠ none ∨ w.started ≤ i := by
  suffices hboth : w.started ≤ w'.started ∧
      (w'.procs i ≠ none → w.procs i ≠ none ∨ w.started ≤ i) from hboth.2 hi
  clear hi
  induction h with
  | refl => exact ⟨Nat.le_refl _, .inl⟩
  | @tail v v' hv hs ih =>
    obtain ⟨hle, ih⟩ := ih
    -- a step leaves the other programs as they are
    have hother : ∀ j x, (x = none ∨ v.procs j ≠ none) → update v.procs j x i ≠ none →
        v.procs i ≠ none := by
      intro j x hx hi
      by_cases hij : i = j
      · subst hij
        rw [update_self] at hi
        exact hx.resolve_left hi
      · rwa [update_of_ne hij] at hi
    cases hs with
    | start hq =>
      refine ⟨Nat.le_succ_of_le hle, fun hi => ?_⟩
      by_cases hij : i = v.started
      · exact .inr (hij ▸ hle)
      · simp only [update_of_ne hij] at hi
        exact ih hi
    | @exec j q o k r s' hp he =>
      exact ⟨hle, fun hi => ih (hother j _ (.inr (by rw [hp]; simp)) hi)⟩
    | finish hp => exact ⟨hle, fun hi => ih (hother _ _ (.inl rfl) hi)⟩
    | drop hp => exact ⟨hle, fun hi => ih (hother _ _ (.inl rfl) hi)⟩
    | cancel hp hc => exact ⟨hle, fun hi => ih (hother _ _ (.inl rfl) hi)⟩
    | env he => exact ⟨hle, ih⟩
    | crash hc => exact ⟨hle, fun hi => absurd rfl hi⟩

/-- Every operation of a trace was performed at some moment. -/
theorem World.Steps.performed {M : Machine S σ ρ α} {w w' : World S σ ρ α}
    (h : World.Steps M w w') {i : ℕ} {e : S.Event} (he : e ∈ w'.trace i) : e ∈ w.trace i ∨
      ∃ u v q k, World.Steps M w u ∧ World.Step M u v ∧ World.Steps M v w' ∧
        u.procs i = some (q, .op e.1 k) ∧ M.effects.exec i u.shared e.1 e.2 v.shared := by
  induction h with
  | refl => exact .inl he
  | @tail v v' hv hs ih =>
    have hold : e ∈ v.trace i → e ∈ w.trace i ∨
        ∃ u v q k, World.Steps M w u ∧ World.Step M u v ∧ World.Steps M v v' ∧
          u.procs i = some (q, .op e.1 k) ∧ M.effects.exec i u.shared e.1 e.2 v.shared := by
      intro he
      rcases ih he with he | ⟨u, u', q, k, h₁, h₂, h₃, hrest⟩
      · exact .inl he
      · exact .inr ⟨u, u', q, k, h₁, h₂, h₃.tail hs, hrest⟩
    cases hs with
    | @exec j q o k r s' hp hexec =>
      by_cases hij : i = j
      · subst hij
        simp only [update_self, List.mem_append, List.mem_singleton] at he
        rcases he with he | rfl
        · exact hold he
        · exact .inr ⟨v, _, q, k, hv, .exec hp hexec, .refl, hp, hexec⟩
      · simp only [update_of_ne hij] at he
        exact hold he
    | _ => exact hold he

/-! ### Answers stay -/

theorem World.Steps.mem_returned {M : Machine S σ ρ α} {w w' : World S σ ρ α}
    (h : World.Steps M w w') {x : ℕ × ρ × α} (hx : x ∈ w.returned) : x ∈ w'.returned := by
  induction h with
  | refl => exact hx
  | tail _ hs ih =>
    cases hs with
    | finish hp => exact List.mem_cons_of_mem _ ih
    | _ => exact ih

end Geata.Lib
