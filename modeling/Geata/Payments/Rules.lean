import Geata.Lib.Triple
import Geata.Payments.Minting

namespace Geata.Payments

open Geata.Lib

/-!
# Rules for wallet programs

The building blocks of the wallet programs in a logic of lasting facts, and which operations they
perform.  The rules are for proofs that only care how a program goes on: early errors need
nothing.
-/

section

variable {σ ε α : Type} {L : Logic WalletSig σ} {i : ℕ} {s : σ} {Q : α → σ → Prop}

/-- A CDK call, with what its answer teaches. -/
theorem safe_cdk_bind (hL : L.Lasting) {f : CdkError → ε} {o : CdkOp}
    {k : o.Answer → Stage WalletSig ε α}
    (hneeds : ∀ s₁, L.Rely i s s₁ → L.Inv s₁ → L.Needs i (.cdk o) s₁)
    (h : ∀ a s₁ s₂, L.Rely i s s₁ → L.Inv s₁ → L.exec i s₁ (.cdk o) (.ok a) s₂ → L.Inv s₂ →
      L.Rely i s₁ s₂ → Stage.safe L i (k a) Q (fun _ _ => True) s₂) :
    Stage.safe L i (cdk f o >>= k) Q (fun _ _ => True) s := by
  unfold cdk
  rw [bind_assoc]
  refine Stage.safe_perform_bind hL hneeds (fun r s₁ s₂ hs₁ hi₁ he hi₂ h₁₂ => ?_)
  refine Stage.safe_ofExcept_bind (fun _ _ _ _ _ => trivial) (fun a ha => ?_)
  obtain rfl := mapError_eq_ok.mp ha
  exact h a s₁ s₂ hs₁ hi₁ he hi₂ h₁₂

/-- A CDK call that ends a program. -/
theorem safe_cdk (hL : L.Lasting) {f : CdkError → ε} {o : CdkOp} {Q : o.Answer → σ → Prop}
    (hneeds : ∀ s₁, L.Rely i s s₁ → L.Inv s₁ → L.Needs i (.cdk o) s₁)
    (h : ∀ a s₁ s₂, L.Rely i s s₁ → L.Inv s₁ → L.exec i s₁ (.cdk o) (.ok a) s₂ → L.Inv s₂ →
      L.Rely i s₁ s₂ → ∀ s', L.Rely i s₂ s' → L.Inv s' → Q a s') :
    Stage.safe L i (cdk f o) Q (fun _ _ => True) s := by
  rw [← bind_pure (cdk f o)]
  exact safe_cdk_bind hL hneeds
    (fun a s₁ s₂ hs₁ hi₁ he hi₂ h₁₂ => Stage.safe_pure (h a s₁ s₂ hs₁ hi₁ he hi₂ h₁₂))

/-- A ledger transaction, with what its answer teaches. -/
theorem safe_ledger_bind (hL : L.Lasting) {e : ε} {o : LedgerOp}
    {k : o.Answer → Stage WalletSig ε α}
    (hneeds : ∀ s₁, L.Rely i s s₁ → L.Inv s₁ → L.Needs i (.ledger o) s₁)
    (h : ∀ a s₁ s₂, L.Rely i s s₁ → L.Inv s₁ → L.exec i s₁ (.ledger o) (some a) s₂ → L.Inv s₂ →
      L.Rely i s₁ s₂ → Stage.safe L i (k a) Q (fun _ _ => True) s₂) :
    Stage.safe L i (ledger e o >>= k) Q (fun _ _ => True) s := by
  unfold ledger
  rw [bind_assoc]
  refine Stage.safe_perform_bind hL hneeds (fun r s₁ s₂ hs₁ hi₁ he hi₂ h₁₂ => ?_)
  refine Stage.safe_ofExcept_bind (fun _ _ _ _ _ => trivial) (fun a ha => ?_)
  obtain rfl := context_eq_ok.mp ha
  exact h a s₁ s₂ hs₁ hi₁ he hi₂ h₁₂

/-- A wallet program that gives the lock back ends as its body does. -/
theorem safe_guarded (hL : L.Lasting) {body : Stage WalletSig ε α} {E : ε → σ → Prop}
    (hneeds : ∀ s₁, L.Inv s₁ → L.Needs i (.session .unlock) s₁)
    (hbody : Stage.safe L i body Q E s)
    (hstable : ∀ r s₁ s₂, L.Rely i s₁ s₂ → Stage.post Q E r s₁ → Stage.post Q E r s₂) :
    L.safe i (guarded body) (Stage.post Q E) s :=
  Logic.safe_bind hL hbody (fun r s' _ _ hr => Logic.safe_quiet hL hneeds
    (fun _ => Logic.safe_ret (fun s'' hs'' _ => hstable r s' s'' hs'' hr)))

end

/-! ### Triples -/

section

variable {σ ε : Type} {L : Logic WalletSig σ} {i : ℕ} {P : σ → Prop}

theorem triple_cdk {f : CdkError → ε} {o : CdkOp} {R : o.Answer → σ → Prop}
    (hstable : L.Stable i P) (hneeds : ∀ s, L.Inv s → P s → L.Needs i (.cdk o) s)
    (hexec : ∀ a s s', L.Inv s → P s → L.exec i s (.cdk o) (.ok a) s' → L.Inv s' → R a s') :
    Stage.Triple L i P (cdk f o) R := by
  unfold cdk
  refine Stage.triple_bind (R := fun r s => ∀ a, r = .ok a → R a s)
    (Stage.triple_perform hstable hneeds ?_) (fun r s _ hr => ?_)
  · rintro r s s' hi hp he hi' a rfl
    exact hexec a s s' hi hp he hi'
  · cases r with
    | error e => trivial
    | ok a => exact hr a rfl

theorem triple_ledger {e : ε} {o : LedgerOp} {R : o.Answer → σ → Prop}
    (hstable : L.Stable i P) (hneeds : ∀ s, L.Inv s → P s → L.Needs i (.ledger o) s)
    (hexec : ∀ a s s', L.Inv s → P s → L.exec i s (.ledger o) (some a) s' → L.Inv s' → R a s') :
    Stage.Triple L i P (ledger e o) R := by
  unfold ledger
  refine Stage.triple_bind (R := fun r s => ∀ a, r = some a → R a s)
    (Stage.triple_perform hstable hneeds ?_) (fun r s _ hr => ?_)
  · rintro r s s' hi hp he hi' a rfl
    exact hexec a s s' hi hp he hi'
  · cases r with
    | none => trivial
    | some a => exact hr a rfl

end

/-! ### Which operations the building blocks perform -/

section

variable {ε α : Type} {P : WalletOp → Prop}

@[simp] theorem all_session {o : SessionOp} :
    Stage.All (α := no_index o.Res) P (session o : Stage WalletSig ε o.Res) ↔ P (.session o) :=
  Stage.all_perform

@[simp] theorem all_cdk {f : CdkError → ε} {o : CdkOp} :
    Stage.All (α := no_index o.Answer) P (cdk f o) ↔ P (.cdk o) := by
  unfold cdk
  rw [Stage.all_bind]
  exact ⟨fun h => h.1.1, fun h => ⟨⟨h, fun _ => trivial⟩, fun _ _ _ => trivial⟩⟩

@[simp] theorem all_ledger {e : ε} {o : LedgerOp} :
    Stage.All (α := no_index o.Answer) P (ledger e o) ↔ P (.ledger o) := by
  unfold ledger
  rw [Stage.all_bind]
  exact ⟨fun h => h.1.1, fun h => ⟨⟨h, fun _ => trivial⟩, fun _ _ _ => trivial⟩⟩

theorem all_enter {busy broken : ε} (hs : ∀ o, P (.session o)) : (enter busy broken).All P := by
  simp [enter, hs]

/-- The recovery only touches the in-memory record and CDK's own bookkeeping. -/
theorem all_recover {f : PaymentError → ε} (hs : P (.session .needsRecovery))
    (hs' : P (.session (.setNeedsRecovery false))) (hc : P (.cdk .recoverIncompleteSagas)) :
    (recover f).All P := by
  simp [recover, hs, hs', hc]

theorem all_begin (hs : ∀ o, P (.session o)) (hc : P (.cdk .recoverIncompleteSagas)) :
    begin.All P := by
  simp only [begin, Stage.all_bind]
  exact ⟨all_enter hs, fun _ _ _ => all_recover (hs _) (hs _) hc⟩

theorem all_guarded {body : Stage WalletSig ε α} (hu : P (.session .unlock)) (hb : body.All P) :
    (guarded body).All P :=
  Prog.all_bind.mpr ⟨hb, fun _ _ _ => ⟨hu, fun _ => trivial⟩⟩

end

end Geata.Payments
