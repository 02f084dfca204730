import Geata.Lib.Logic

namespace Geata.Lib

/-!
# Programs that take turns

Programs over one state, only one of which runs at a time: each is dropped or returns before the next
one starts.  Between two operations the state moves along `idle` only.

* `Turns.Step` — one operation, one cut operation, or the state idling.
* `Turns.Keeps` — what every step of a run keeps, shown once for all programs.
* `Turns.Keeps.run` — **the run rule** for programs that take turns.
-/

variable {S : Sig} {σ ρ : Type}

/-- Programs that take turns, each with effects of its own. -/
structure Turns (S : Sig) (σ ρ : Type) where
  effects : ρ → Effects S σ
  code : ρ → Prog S Unit
  idle : σ → σ → Prop

namespace Turns

variable {T : Turns S σ ρ}

/-- The state, and what is left of the program whose turn it is. -/
structure World (S : Sig) (σ ρ : Type) where
  shared : σ
  running : Option (ρ × ℕ × Prog S Unit) := none

inductive Step (T : Turns S σ ρ) : World S σ ρ → World S σ ρ → Prop where
  | start {s : σ} (q : ρ) (i : ℕ) : Step T ⟨s, none⟩ ⟨s, some (q, i, T.code q)⟩
  | exec {s s' : σ} {q : ρ} {i : ℕ} {o : S.Op} {k : S.Res o → Prog S Unit} {r : S.Res o}
      (h : (T.effects q).exec i s o r s') : Step T ⟨s, some (q, i, .op o k)⟩ ⟨s', some (q, i, k r)⟩
  /-- the program has returned, or is dropped between two operations -/
  | stop {s : σ} {p : ρ × ℕ × Prog S Unit} : Step T ⟨s, some p⟩ ⟨s, none⟩
  /-- the program is dropped during an operation -/
  | cut {s s' : σ} {q : ρ} {i : ℕ} {o : S.Op} {k : S.Res o → Prog S Unit}
      (h : (T.effects q).cut i s o s') : Step T ⟨s, some (q, i, .op o k)⟩ ⟨s', none⟩
  | idle {s s' : σ} {p : Option (ρ × ℕ × Prog S Unit)} (h : T.idle s s') : Step T ⟨s, p⟩ ⟨s', p⟩

/-- The logic of the program `q`: the others are not running. -/
abbrev logic (T : Turns S σ ρ) (Inv : σ → Prop) (Needs : ρ → S.Op → σ → Prop) (q : ρ) :
    Logic S σ where
  exec := (T.effects q).exec
  Inv := Inv
  Rely _ := T.idle
  Needs _ := Needs q

/-- Every step keeps the invariant, and stays in a relation that is kept by going on. -/
structure Keeps (T : Turns S σ ρ) (Inv : σ → Prop) (Needs : ρ → S.Op → σ → Prop)
    (R : σ → σ → Prop) : Prop where
  refl : ∀ s, R s s
  trans : ∀ s₁ s₂ s₃, R s₁ s₂ → R s₂ s₃ → R s₁ s₃
  idle_refl : ∀ s, Inv s → T.idle s s
  idle_trans : ∀ s₁ s₂ s₃, T.idle s₁ s₂ → T.idle s₂ s₃ → T.idle s₁ s₃
  idle : ∀ s s', Inv s → T.idle s s' → Inv s' ∧ R s s'
  exec : ∀ q i s o r s', Inv s → Needs q o s → (T.effects q).exec i s o r s' → Inv s' ∧ R s s'
  cut : ∀ q i s o s', Inv s → Needs q o s → (T.effects q).cut i s o s' → Inv s' ∧ R s s'
  code : ∀ q i s, Inv s → (T.logic Inv Needs q).wp i (T.code q) (fun _ _ => True) s

namespace Keeps

variable {Inv : σ → Prop} {Needs : ρ → S.Op → σ → Prop} {R : σ → σ → Prop}

/-- The invariant holds, and the program whose turn it is goes on safely. -/
def Holds (T : Turns S σ ρ) (Inv : σ → Prop) (Needs : ρ → S.Op → σ → Prop) (w : World S σ ρ) :
    Prop :=
  Inv w.shared ∧ ∀ q i p, w.running = some (q, i, p) →
    (T.logic Inv Needs q).wp i p (fun _ _ => True) w.shared

theorem step (hT : Keeps T Inv Needs R) {w w' : World S σ ρ} (h : Holds T Inv Needs w)
    (hs : Step T w w') : Holds T Inv Needs w' ∧ R w.shared w'.shared := by
  obtain ⟨hi, hp⟩ := h
  cases hs with
  | start q i =>
    refine ⟨⟨hi, fun q' i' p hrun => ?_⟩, hT.refl _⟩
    simp only [Option.some.injEq, Prod.mk.injEq] at hrun
    obtain ⟨rfl, rfl, rfl⟩ := hrun
    exact hT.code q i _ hi
  | exec he =>
    obtain ⟨hneeds, hgo⟩ := hp _ _ _ rfl _ (hT.idle_refl _ hi) hi
    obtain ⟨hi', hr⟩ := hT.exec _ _ _ _ _ _ hi hneeds he
    refine ⟨⟨hi', fun q' i' p hrun => ?_⟩, hr⟩
    simp only [Option.some.injEq, Prod.mk.injEq] at hrun
    obtain ⟨rfl, rfl, rfl⟩ := hrun
    exact hgo _ _ he hi'
  | stop => exact ⟨⟨hi, fun _ _ _ hrun => by simp at hrun⟩, hT.refl _⟩
  | cut hc =>
    obtain ⟨hneeds, -⟩ := hp _ _ _ rfl _ (hT.idle_refl _ hi) hi
    obtain ⟨hi', hr⟩ := hT.cut _ _ _ _ _ hi hneeds hc
    exact ⟨⟨hi', fun _ _ _ hrun => by simp at hrun⟩, hr⟩
  | idle hidle =>
    obtain ⟨hi', hr⟩ := hT.idle _ _ hi hidle
    refine ⟨⟨hi', fun q i p hrun => ?_⟩, hr⟩
    exact Logic.wp_stable hT.idle_trans (fun _ _ _ _ h => h) hidle (hp q i p hrun)

/-- **The run rule.** -/
theorem run (hT : Keeps T Inv Needs R) {w w' : World S σ ρ} (h : Holds T Inv Needs w)
    (hs : Relation.ReflTransGen (Step T) w w') : Holds T Inv Needs w' ∧ R w.shared w'.shared := by
  induction hs with
  | refl => exact ⟨h, hT.refl _⟩
  | tail _ hstep ih =>
    obtain ⟨h₁, hr₁⟩ := ih
    obtain ⟨h₂, hr₂⟩ := hT.step h₁ hstep
    exact ⟨h₂, hT.trans _ _ _ hr₁ hr₂⟩

theorem holds_start {s : σ} (h : Inv s) : Holds T Inv Needs ⟨s, none⟩ :=
  ⟨h, fun _ _ _ hrun => by simp at hrun⟩

end Keeps

/-! ### A turn along given answers -/

/-- The operations of `tr`, with the state idling in between. -/
inductive Along (T : Turns S σ ρ) (q : ρ) (i : ℕ) : σ → List S.Event → σ → Prop where
  | nil {s : σ} : Along T q i s [] s
  | exec {s s₁ s' : σ} {o : S.Op} {r : S.Res o} {tr : List S.Event}
      (h : (T.effects q).exec i s o r s₁) (ht : Along T q i s₁ tr s') :
      Along T q i s (⟨o, r⟩ :: tr) s'
  | idle {s s₁ s' : σ} {tr : List S.Event} (h : T.idle s s₁) (ht : Along T q i s₁ tr s') :
      Along T q i s tr s'

/-- A program with these answers goes on running. -/
theorem Along.steps {q : ρ} {i : ℕ} {s s' : σ} {tr : List S.Event} (h : Along T q i s tr s')
    {p p' : Prog S Unit} (hp : p.Reaches tr p') :
    Relation.ReflTransGen (Step T) ⟨s, some (q, i, p)⟩ ⟨s', some (q, i, p')⟩ := by
  induction h generalizing p with
  | nil =>
    cases hp
    exact .refl
  | exec h _ ih =>
    cases hp with
    | op hp => exact .head (.exec h) (ih hp)
  | idle h _ ih => exact .head (.idle h) (ih hp)

/-- A whole turn: the program starts, and ends after these answers. -/
theorem Along.turn {q : ρ} {i : ℕ} {s s' : σ} {tr : List S.Event} (h : Along T q i s tr s')
    {p : Prog S Unit} (hp : (T.code q).Reaches tr p) :
    Relation.ReflTransGen (Step T) ⟨s, none⟩ ⟨s', none⟩ :=
  .head (.start q i) ((h.steps hp).tail .stop)

end Turns

end Geata.Lib
