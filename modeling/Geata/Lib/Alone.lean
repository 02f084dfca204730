import Geata.Lib.Concurrent

namespace Geata.Lib

/-!
# A program by itself

What a program does when nothing else runs: `Alone exec s p a s'` says that `p`, started in `s`, can
return `a` and leave `s'`, where `exec` is what its operations do.  A request that arrives while no
other program moves is answered in this way.

* `alone_bind`, `Stage.alone_bind_ok` — sequences.
* `Alone.lift`, `Alone.timeout` — programs in a larger signature and under a timer that does not fire.
* `World.steps_answer` — a run of the machine for a program that goes through by itself.
-/

variable {S T : Sig} {σ ρ α β ε : Type}

/-- A program goes through by itself. -/
inductive Prog.Alone (exec : σ → (o : S.Op) → S.Res o → σ → Prop) : σ → Prog S α → α → σ → Prop where
  | ret (s : σ) (a : α) : Alone exec s (.ret a) a s
  | op {s s₁ s' : σ} {o : S.Op} {k : S.Res o → Prog S α} {r : S.Res o} {a : α}
      (h : exec s o r s₁) (hk : Alone exec s₁ (k r) a s') : Alone exec s (.op o k) a s'

namespace Prog

variable {exec : σ → (o : S.Op) → S.Res o → σ → Prop} {s s' : σ}

@[simp] theorem alone_ret {a b : α} : Alone exec s (.ret a) b s' ↔ a = b ∧ s = s' := by
  constructor
  · intro h
    cases h
    exact ⟨rfl, rfl⟩
  · rintro ⟨rfl, rfl⟩
    exact .ret s a

@[simp] theorem alone_op {o : S.Op} {k : S.Res o → Prog S α} {a : α} :
    Alone exec s (.op o k) a s' ↔ ∃ r s₁, exec s o r s₁ ∧ Alone exec s₁ (k r) a s' := by
  constructor
  · intro h
    cases h with
    | op h hk => exact ⟨_, _, h, hk⟩
  · rintro ⟨r, s₁, h, hk⟩
    exact .op h hk

/-- A sequence is its first part and then its second. -/
theorem alone_bind {p : Prog S α} {f : α → Prog S β} {b : β} :
    Alone exec s (p.bind f) b s' ↔ ∃ a s₁, Alone exec s p a s₁ ∧ Alone exec s₁ (f a) b s' := by
  induction p generalizing s with
  | ret a => simp
  | op o k ih =>
    simp only [op_bind, alone_op, ih]
    constructor
    · rintro ⟨r, s₁, he, a, s₂, hk, hf⟩
      exact ⟨a, s₂, ⟨r, s₁, he, hk⟩, hf⟩
    · rintro ⟨a, s₂, ⟨r, s₁, he, hk⟩, hf⟩
      exact ⟨r, s₁, he, a, s₂, hk, hf⟩

/-- A program in a larger signature, and over a larger state. -/
theorem Alone.lift {τ : Type} (h : S.Hom T) {exec' : τ → (o : T.Op) → T.Res o → τ → Prop}
    (put : σ → τ) (hexec : ∀ s o r s₁, exec s o r s₁ →
      ∃ r', h.res o r' = r ∧ exec' (put s) (h.op o) r' (put s₁))
    {p : Prog S α} {a : α} (hp : Alone exec s p a s') :
    Alone exec' (put s) (p.lift h) a (put s') := by
  induction hp with
  | ret s a => exact .ret _ _
  | @op s s₁ s' o k r a he _ ih =>
    obtain ⟨r', rfl, he'⟩ := hexec s o r s₁ he
    exact alone_op.mpr ⟨r', put s₁, he', ih⟩

/-- A timer that does not fire. -/
theorem Alone.timeout {exec' : σ → (o : S.timers.Op) → S.timers.Res o → σ → Prop}
    (hexec : ∀ s o r s₁, exec s o r s₁ → exec' s (.timed o) (some r) s₁)
    {p : Prog S α} {a : α} (hp : Alone exec s p a s') : Alone exec' s p.timeout (some a) s' := by
  induction hp with
  | ret s a => exact .ret _ _
  | @op s s₁ s' o k r a he _ ih =>
    rw [Prog.timeout]
    exact .op (hexec s o r s₁ he) ih

end Prog

namespace Stage

/-- A stage goes through by itself. -/
def Alone (exec : σ → (o : S.Op) → S.Res o → σ → Prop) (s : σ) (t : Stage S ε α) (r : Except ε α)
    (s' : σ) : Prop := Prog.Alone exec s t.run r s'

variable {exec : σ → (o : S.Op) → S.Res o → σ → Prop} {s s' : σ} {b : β}

@[simp] theorem alone_pure {a : α} {r : Except ε α} :
    Alone exec s (pure a) r s' ↔ .ok a = r ∧ s = s' := Prog.alone_ret

@[simp] theorem alone_throw {e : ε} {r : Except ε α} :
    Alone exec s (throw e) r s' ↔ .error e = r ∧ s = s' := Prog.alone_ret

@[simp] theorem alone_ofExcept {x r : Except ε α} :
    Alone exec s (ofExcept x) r s' ↔ x = r ∧ s = s' := Prog.alone_ret

@[simp] theorem alone_stopIf_ok {c : Bool} {e : ε} :
    Alone exec s (stopIf c e) (.ok ()) s' ↔ c = false ∧ s = s' := by
  cases c
  · exact Prog.alone_ret.trans (by simp)
  · exact Prog.alone_ret.trans (by simp)

@[simp] theorem alone_perform_ok {o : S.Op} {a : S.Res o} :
    Alone exec s (perform o : Stage S ε _) (.ok a) s' ↔ exec s o a s' := by
  refine Prog.alone_op.trans ?_
  simp

/-- The parts of a sequence that goes through to its end. -/
theorem alone_bind_ok {t : Stage S ε α} {f : α → Stage S ε β} :
    Alone exec s (t >>= f) (.ok b) s' ↔
      ∃ a s₁, Alone exec s t (.ok a) s₁ ∧ Alone exec s₁ (f a) (.ok b) s' := by
  refine Prog.alone_bind.trans ?_
  constructor
  · rintro ⟨r, s₁, ht, hf⟩
    cases r with
    | error e => exact absurd (Prog.alone_ret.mp hf).1 (by simp)
    | ok a => exact ⟨a, s₁, ht, hf⟩
  · rintro ⟨a, s₁, ht, hf⟩
    exact ⟨.ok a, s₁, ht, hf⟩

/-- A sequence whose first part goes through ends as its second part does. -/
theorem Alone.bind {t : Stage S ε α} {f : α → Stage S ε β} {a : α} {m : σ} {r : Except ε β}
    (ht : Alone exec s t (.ok a) m) (hf : Alone exec m (f a) r s') : Alone exec s (t >>= f) r s' :=
  Prog.alone_bind.mpr ⟨.ok a, m, ht, hf⟩

/-- A sequence whose first part fails ends there. -/
theorem Alone.fail {t : Stage S ε α} {f : α → Stage S ε β} {e : ε}
    (h : Alone exec s t (.error e) s') : Alone exec s (t >>= f) (.error e) s' :=
  Prog.alone_bind.mpr ⟨.error e, s', h, .ret _ _⟩

/-- An attempt goes through however the stage ends. -/
theorem alone_attempt {ε' : Type} {t : Stage S ε α} {r : Except ε α} (h : Alone exec s t r s') :
    Alone exec s (attempt t : Stage S ε' _) (.ok r) s' :=
  Prog.alone_bind.mpr ⟨r, s', h, .ret _ _⟩

end Stage

/-! ### Runs of a machine -/

namespace World

variable {M : Machine S σ ρ α}

/-- A running program goes on by itself. -/
theorem steps_alone {i : ℕ} {s s' : σ} {p : Prog S α} {a : α}
    (h : Prog.Alone (M.effects.exec i) s p a s') {w : World S σ ρ α} (hs : w.shared = s) {q : ρ}
    (hp : w.procs i = some (q, p)) :
    ∃ w', Steps M w w' ∧ w'.shared = s' ∧ w'.procs i = some (q, .ret a) ∧
      w'.started = w.started ∧ w'.returned = w.returned := by
  induction h generalizing w with
  | ret s a => exact ⟨w, .refl, hs, hp, rfl, rfl⟩
  | @op s s₁ s' o k r a he _ ih =>
    subst hs
    obtain ⟨w', hsteps, hrest⟩ := ih (w := { w with
      shared := s₁
      procs := Function.update w.procs i (some (q, k r))
      trace := Function.update w.trace i (w.trace i ++ [⟨o, r⟩]) }) rfl (Function.update_self ..)
    exact ⟨w', .head (.exec hp he) hsteps, hrest⟩

/-- A request that arrives, is worked on by itself and answered. -/
theorem steps_answer {w : World S σ ρ α} {q : ρ} {a : α} {s' : σ} (hq : M.admits w.shared q)
    (h : Prog.Alone (M.effects.exec w.started) w.shared (M.code q) a s') :
    ∃ w', Steps M w w' ∧ w'.shared = M.release w.started s' ∧ w'.started = w.started + 1 ∧
      w'.returned = (w.started, q, a) :: w.returned := by
  obtain ⟨w', hsteps, hs, hp, hstarted, hreturned⟩ := steps_alone h
    (w := { w with
      procs := Function.update w.procs w.started (some (q, M.code q))
      started := w.started + 1
      requests := Function.update w.requests w.started (some q) }) rfl (Function.update_self ..)
  refine ⟨_, .head (.start hq) (hsteps.tail (.finish hp)), ?_, hstarted, ?_⟩
  · show M.release w.started w'.shared = _
    rw [hs]
  · show (w.started, q, a) :: w'.returned = _
    rw [hreturned]

end World

end Geata.Lib
