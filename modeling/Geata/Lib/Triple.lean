import Geata.Lib.Logic

namespace Geata.Lib

/-!
# Pre- and postconditions

Triples for programs that hold something exclusively: the precondition is stable under what the
others do, and the program's own operations may change what it says.

* `Stage.Triple L i P t Q` — from a state with `P`, program `i` running the stage `t` is safe and
  goes on with `Q`.  Nothing is said about an early end.
* `Stage.triple_bind`, `Stage.triple_perform_bind` — the rules of sequence.
-/

variable {S T : Sig} {σ α β ε : Type}

/-- A program returns in a state that keeps the invariant. -/
theorem Logic.wp_inv {L : Logic S σ} {i : ℕ} {s : σ} {p : Prog S α} {Q : α → σ → Prop}
    (hi : L.Inv s) (h : L.wp i p Q s) : L.wp i p (fun a s' => L.Inv s' ∧ Q a s') s := by
  induction p generalizing s with
  | ret a => exact ⟨hi, h⟩
  | op o k ih =>
    intro s₁ hs₁ hi₁
    obtain ⟨hneeds, hexec⟩ := h s₁ hs₁ hi₁
    exact ⟨hneeds, fun r s₂ he hi₂ => ih r hi₂ (hexec r s₂ he hi₂)⟩

/-- What every operation of a program keeps holds wherever it returns. -/
theorem Logic.wp_keep {L : Logic S σ} {i : ℕ} {s : σ} {p : Prog S α} {K : σ → Prop}
    {Q : α → σ → Prop} (hstable : ∀ s s', L.Rely i s s' → K s → K s')
    (hkeep : p.All (fun o => ∀ s r s', K s → L.exec i s o r s' → K s')) (hk : K s)
    (h : L.wp i p Q s) : L.wp i p (fun a s' => K s' ∧ Q a s') s := by
  induction p generalizing s with
  | ret a => exact ⟨hk, h⟩
  | op o k ih =>
    intro s₁ hs₁ hi₁
    have hk₁ := hstable s s₁ hs₁ hk
    obtain ⟨hneeds, hexec⟩ := h s₁ hs₁ hi₁
    exact ⟨hneeds, fun r s₂ he hi₂ => ih r (hkeep.2 r) (hkeep.1 s₁ r s₂ hk₁ he) (hexec r s₂ he hi₂)⟩

/-- What the others do keeps `P`. -/
def Logic.Stable (L : Logic S σ) (i : ℕ) (P : σ → Prop) : Prop :=
  ∀ s s', L.Rely i s s' → P s → P s'

namespace Stage

variable {L : Logic S σ} {i : ℕ} {P : σ → Prop} {Q : α → σ → Prop}

/-- From a state with `P`, the stage is safe and goes on with `Q`. -/
def Triple (L : Logic S σ) (i : ℕ) (P : σ → Prop) (t : Stage S ε α) (Q : α → σ → Prop) : Prop :=
  ∀ s, L.Inv s → P s → L.wp i t.run (post Q (fun _ _ => True)) s

theorem triple_pure {a : α} (h : ∀ s, L.Inv s → P s → Q a s) :
    Triple L i P (pure a : Stage S ε α) Q := h

theorem triple_throw {e : ε} : Triple L i P (throw e : Stage S ε α) Q := fun _ _ _ => trivial

theorem triple_bind {t : Stage S ε β} {f : β → Stage S ε α} {R : β → σ → Prop}
    (ht : Triple L i P t R) (hf : ∀ b, Triple L i (R b) (f b) Q) : Triple L i P (t >>= f) Q := by
  intro s hi hp
  refine (Logic.wp_bind t.run _ _ s).mpr ?_
  refine Logic.wp_mono (Logic.wp_inv hi (ht s hi hp)) (fun x s' h => ?_)
  cases x with
  | ok b => exact hf b s' h.1 h.2
  | error e => trivial

/-- Consequence. -/
theorem triple_mono {t : Stage S ε α} {A : σ → Prop} {B : α → σ → Prop}
    (ht : Triple L i A t B) (hp : ∀ s, L.Inv s → P s → A s)
    (hq : ∀ a s, B a s → Q a s) : Triple L i P t Q := by
  intro s hi h
  refine Logic.wp_mono (ht s hi (hp s hi h)) (fun x s' hx => ?_)
  cases x with
  | ok a => exact hq a s' hx
  | error e => trivial

/-- An operation: it is allowed, and leaves what its answer says. -/
theorem triple_perform_bind {o : S.Op} {f : S.Res o → Stage S ε α} {R : S.Res o → σ → Prop}
    (hstable : L.Stable i P) (hneeds : ∀ s, L.Inv s → P s → L.Needs i o s)
    (hexec : ∀ r s s', L.Inv s → P s → L.exec i s o r s' → L.Inv s' → R r s')
    (hf : ∀ r, Triple L i (R r) (f r) Q) : Triple L i P (perform o >>= f) Q := by
  intro s _ hp s₁ hs₁ hi₁
  have hp₁ := hstable s s₁ hs₁ hp
  exact ⟨hneeds s₁ hi₁ hp₁,
    fun r s₂ he hi₂ => hf r s₂ hi₂ (hexec r s₁ s₂ hi₁ hp₁ he hi₂)⟩

theorem triple_perform {o : S.Op} {R : S.Res o → σ → Prop} (hstable : L.Stable i P)
    (hneeds : ∀ s, L.Inv s → P s → L.Needs i o s)
    (hexec : ∀ r s s', L.Inv s → P s → L.exec i s o r s' → L.Inv s' → R r s') :
    Triple L i P (perform o : Stage S ε (S.Res o)) R := by
  rw [← bind_pure (perform o)]
  exact triple_perform_bind hstable hneeds hexec (fun _ => triple_pure (fun _ _ h => h))

theorem triple_stopIf_bind {c : Bool} {e : ε} {f : Unit → Stage S ε α}
    (h : c = false → Triple L i P (f ()) Q) : Triple L i P (stopIf c e >>= f) Q := by
  cases c with
  | true => exact fun _ _ _ => trivial
  | false => exact h rfl

theorem triple_ofExcept_bind {x : Except ε β} {f : β → Stage S ε α}
    (h : ∀ b, x = .ok b → Triple L i P (f b) Q) : Triple L i P (ofExcept x >>= f) Q := by
  cases x with
  | error e => exact fun _ _ _ => trivial
  | ok b => exact h b rfl

theorem triple_ite {c : Prop} [Decidable c] {t t' : Stage S ε α} (h : c → Triple L i P t Q)
    (h' : ¬ c → Triple L i P t' Q) : Triple L i P (if c then t else t') Q := by
  split
  · exact h ‹_›
  · exact h' ‹_›

/-- A stage whose operations are allowed in every state. -/
theorem triple_of_all {t : Stage S ε α} (h : t.All (fun o => ∀ s, L.Inv s → L.Needs i o s)) :
    Triple L i P t (fun _ _ => True) :=
  fun _ _ _ => Logic.wp_mono (Logic.wp_of_all h) (fun x _ _ => by cases x <;> trivial)

/-- A stage whose operations are allowed and keep `P`. -/
theorem triple_keep (hstable : L.Stable i P) {t : Stage S ε α}
    (h : t.All (fun o => ∀ s, L.Inv s → P s → L.Needs i o s ∧
      ∀ r s', L.exec i s o r s' → P s')) : Triple L i P t (fun _ => P) := by
  suffices hp : ∀ (p : Prog S (Except ε α)) s, L.Inv s → P s → p.All _ →
      L.wp i p (post (fun _ => P) (fun _ _ => True)) s from fun s hi hs => hp t.run s hi hs h
  intro p
  induction p with
  | ret x =>
    intro s _ hs _
    cases x with
    | ok a => exact hs
    | error e => trivial
  | op o k ih =>
    intro s _ hs hall s₁ hs₁ hi₁
    have hp₁ := hstable s s₁ hs₁ hs
    obtain ⟨hneeds, hexec⟩ := hall.1 s₁ hi₁ hp₁
    exact ⟨hneeds, fun r s₂ he hi₂ => ih r s₂ hi₂ (hexec r s₂ he) (hall.2 r)⟩

/-- A sequence whose first part is run for its outcome, when a failure leaves `K`. -/
theorem triple_recover_bind {ε' : Type} {t : Stage S ε' β} {f : Except ε' β → Stage S ε α}
    {R : β → σ → Prop} {K : σ → Prop} (hstable : L.Stable i K)
    (hkeep : t.All (fun o => ∀ s r s', K s → L.exec i s o r s' → K s')) (hk : ∀ s, P s → K s)
    (ht : Triple L i P t R) (hok : ∀ b, Triple L i (R b) (f (.ok b)) Q)
    (herr : ∀ e, Triple L i K (f (.error e)) Q) : Triple L i P (attempt t >>= f) Q := by
  refine triple_bind (R := fun x s => K s ∧ post R (fun _ _ => True) x s) ?_ (fun x => ?_)
  · intro s hi hp
    have hwp := Logic.wp_keep hstable hkeep (hk s hp) (ht s hi hp)
    exact (Logic.wp_bind t.run _ _ s).mpr hwp
  · cases x with
    | ok b => exact fun s hi h => hok b s hi h.2
    | error e => exact fun s hi h => herr e s hi h.1

/-- A sequence whose first part is run for its outcome, whichever it is. -/
theorem triple_attempt_bind {ε' : Type} {t : Stage S ε' β} {f : Except ε' β → Stage S ε α}
    {R : β → σ → Prop} (ht : Triple L i P t R) (hok : ∀ b, Triple L i (R b) (f (.ok b)) Q)
    (herr : ∀ e, Triple L i (fun _ => True) (f (.error e)) Q) :
    Triple L i P (attempt t >>= f) Q := by
  refine triple_bind (R := fun x => post R (fun _ _ => True) x) ?_ (fun x => ?_)
  · intro s hi hp
    exact (Logic.wp_bind t.run _ _ s).mpr (ht s hi hp)
  · cases x with
    | ok b => exact hok b
    | error e => exact herr e

end Stage

end Geata.Lib
