import Mathlib.Data.List.Perm.Basic
import Mathlib.Logic.Function.Basic
import Geata.Lib.Except

namespace Geata.Lib

/-!
# Order in folds that can fail

When two steps of a fold can be exchanged, with the same result or with a failure either way, the
outcome of the fold does not depend on the order of its list.

* `toOption_bind` and its companions — the outcome of fallible code, whatever the error is.
* `foldlM_perm` — **the rule for folds**.
* `Slots` — a state with places that can each be filled once; such steps can be exchanged.
* `read_comm`, `offer_comm`, `either_comm` — steps made of others.
-/

variable {ε ε' α β σ ι : Type}

/-! ### Outcomes -/

@[simp] theorem toOption_ok (a : α) : (Except.ok a : Except ε α).toOption = some a := rfl

@[simp] theorem toOption_error (e : ε) : (Except.error e : Except ε α).toOption = none := rfl

@[simp] theorem toOption_pure (a : α) : (pure a : Except ε α).toOption = some a := rfl

theorem toOption_eq_some {x : Except ε α} {a : α} : x.toOption = some a ↔ x = .ok a := by
  cases x with
  | error e => simp
  | ok b => rw [toOption_ok, Option.some_inj, Except.ok.injEq]

@[simp] theorem toOption_bind (x : Except ε α) (f : α → Except ε β) :
    (x >>= f).toOption = x.toOption.bind (fun a => (f a).toOption) := by
  cases x <;> rfl

@[simp] theorem toOption_ensure (c : Bool) (e : ε) :
    (ensure c e).toOption = if c then some () else none := by
  cases c <;> rfl

@[simp] theorem bind_ite_unit (c : Bool) (f : Unit → Option α) :
    (if c then some () else none).bind f = if c then f () else none := by
  cases c <;> rfl

@[simp] theorem toOption_context (e : ε) (o : Option α) : (context e o).toOption = o := by
  cases o <;> rfl

@[simp] theorem toOption_mapError (f : ε → ε') (x : Except ε α) :
    (x.mapError f).toOption = x.toOption := by
  cases x <;> rfl

@[simp] theorem toOption_map (f : α → β) (x : Except ε α) :
    (x.map f).toOption = x.toOption.map f := by
  cases x <;> rfl

/-- Two folds over one list, through a view of the state. -/
theorem foldlM_view {τ : Type} {f : σ → α → Option σ} {g : τ → α → Option τ} (view : σ → τ)
    (h : ∀ s a, (f s a).map view = g (view s) a) (l : List α) (s : σ) :
    (l.foldlM f s).map view = l.foldlM g (view s) := by
  induction l generalizing s with
  | nil => rfl
  | cons a l ih =>
    rw [List.foldlM_cons, List.foldlM_cons, ← h s a]
    cases f s a with
    | none => rfl
    | some s' => exact ih s'

/-! ### Exchanging steps -/

/-- **The rule for folds.**  If every two steps can be exchanged, the order does not matter. -/
theorem foldlM_perm {f : σ → α → Option σ} {l l' : List α} (h : l.Perm l')
    (hcomm : ∀ s a b, (f s a).bind (fun s => f s b) = (f s b).bind (fun s => f s a)) (s : σ) :
    l.foldlM f s = l'.foldlM f s := by
  induction h generalizing s with
  | nil => rfl
  | cons a _ ih =>
    rw [List.foldlM_cons, List.foldlM_cons]
    exact congrArg _ (funext ih)
  | swap a b l =>
    rw [List.foldlM_cons, List.foldlM_cons]
    show (f s b).bind (fun s => (a :: l).foldlM f s) = (f s a).bind (fun s => (b :: l).foldlM f s)
    simp only [List.foldlM_cons, Option.bind_eq_bind]
    rw [← Option.bind_assoc, ← Option.bind_assoc, hcomm]
  | trans _ _ ih₁ ih₂ => rw [ih₁, ih₂]

/-- A state with slots.  A value has a slot of its own and goes there. -/
structure Slots (σ α ι : Type) [DecidableEq ι] where
  slot : α → ι
  filled : σ → ι → Bool
  put : σ → α → σ
  filled_put : ∀ s a k, filled (put s a) k = (decide (k = slot a) || filled s k)
  put_comm : ∀ s a b, slot a ≠ slot b → put (put s a) b = put (put s b) a

namespace Slots

variable [DecidableEq ι] (S : Slots σ α ι)

/-- Fill the slot of a value, unless it is filled. -/
def step (s : σ) (a : α) : Option σ := if S.filled s (S.slot a) then none else some (S.put s a)

/-- Two values for one slot. -/
theorem step_step_same {s : σ} {a b : α} (h : S.slot a = S.slot b) :
    (S.step s a).bind (fun s => S.step s b) = none := by
  unfold step
  by_cases ha : S.filled s (S.slot a) = true
  · rw [if_pos ha]
    rfl
  · rw [if_neg ha]
    have hfull : S.filled (S.put s a) (S.slot b) = true := by
      rw [S.filled_put, h, decide_eq_true rfl, Bool.true_or]
    exact if_pos hfull

/-- Values for two slots. -/
theorem step_step {s : σ} {a b : α} (h : S.slot a ≠ S.slot b) :
    (S.step s a).bind (fun s => S.step s b) =
      if S.filled s (S.slot a) || S.filled s (S.slot b) then none
      else some (S.put (S.put s a) b) := by
  have hkeep : S.filled (S.put s a) (S.slot b) = S.filled s (S.slot b) := by
    rw [S.filled_put, decide_eq_false h.symm, Bool.false_or]
  unfold step
  cases ha : S.filled s (S.slot a) with
  | true => rfl
  | false =>
    show (if S.filled (S.put s a) (S.slot b) = true then none else _) = _
    rw [hkeep, Bool.false_or]

/-- Filling slots is done in any order; of two values for one slot, either order fails. -/
theorem step_comm (s : σ) (a b : α) :
    (S.step s a).bind (fun s => S.step s b) = (S.step s b).bind (fun s => S.step s a) := by
  by_cases h : S.slot a = S.slot b
  · rw [S.step_step_same h, S.step_step_same h.symm]
  · rw [S.step_step h, S.step_step (Ne.symm h), Bool.or_comm, S.put_comm s a b h]

end Slots

/-- The slots of a map. -/
def mapSlots [DecidableEq ι] : Slots (ι → Option β) (ι × β) ι where
  slot := Prod.fst
  filled m k := (m k).isSome
  put m p := Function.update m p.1 (some p.2)
  filled_put m p k := by
    by_cases hk : k = p.1
    · subst hk
      simp
    · simp [hk]
  put_comm m p q h := Function.update_comm h (some p.2) (some q.2) m

/-! ### Other steps that can be exchanged -/

section

variable {τ γ : Type} {f : σ → α → Option σ} {g : τ → β → Option τ}

/-- A step that does nothing where there is no value. -/
def offer (f : σ → α → Option σ) (s : σ) : Option α → Option σ
  | none => some s
  | some a => f s a

/-- Steps on the two sides of a pair. -/
def either (f : σ → α → Option σ) (g : τ → β → Option τ) (s : σ × τ) : α ⊕ β → Option (σ × τ)
  | .inl a => (f s.1 a).map (fun s' => (s', s.2))
  | .inr b => (g s.2 b).map (fun t' => (s.1, t'))

/-- Steps with values that have to be read first. -/
theorem read_comm
    (hf : ∀ s a b, (f s a).bind (fun s => f s b) = (f s b).bind (fun s => f s a))
    (read : γ → Option α) (s : σ) (x y : γ) :
    ((read x).bind (f s)).bind (fun s => (read y).bind (f s)) =
      ((read y).bind (f s)).bind (fun s => (read x).bind (f s)) := by
  cases hx : read x with
  | none => cases read y <;> simp
  | some a =>
    cases hy : read y with
    | none => simp
    | some b => exact hf s a b

theorem offer_comm
    (hf : ∀ s a b, (f s a).bind (fun s => f s b) = (f s b).bind (fun s => f s a))
    (s : σ) (x y : Option α) :
    (offer f s x).bind (fun s => offer f s y) = (offer f s y).bind (fun s => offer f s x) := by
  cases x with
  | none => cases y <;> simp [offer]
  | some a =>
    cases y with
    | none => simp [offer]
    | some b => exact hf s a b

theorem either_comm
    (hf : ∀ s a b, (f s a).bind (fun s => f s b) = (f s b).bind (fun s => f s a))
    (hg : ∀ t a b, (g t a).bind (fun t => g t b) = (g t b).bind (fun t => g t a))
    (s : σ × τ) (x y : α ⊕ β) :
    (either f g s x).bind (fun s => either f g s y)
      = (either f g s y).bind (fun s => either f g s x) := by
  -- on one side the steps are those of that side; on two sides neither sees the other
  cases x with
  | inl a =>
    cases y with
    | inl b =>
      have h := congrArg (Option.map (fun s' => (s', s.2))) (hf s.1 a b)
      simpa [either, Option.map_bind, Option.bind_map, Function.comp_def] using h
    | inr b => cases hfa : f s.1 a <;> cases hgb : g s.2 b <;> simp [either, hfa, hgb]
  | inr a =>
    cases y with
    | inl b => cases hfb : f s.1 b <;> cases hga : g s.2 a <;> simp [either, hfb, hga]
    | inr b =>
      have h := congrArg (Option.map (fun t' => (s.1, t'))) (hg s.2 a b)
      simpa [either, Option.map_bind, Option.bind_map, Function.comp_def] using h

end

end Geata.Lib
