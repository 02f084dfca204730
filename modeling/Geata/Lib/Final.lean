import Geata.Lib.Prog

namespace Geata.Lib

/-!
# Where a program stops

Under a timer a program either runs to its end, or the timer fires during the operation that is next.
`Stage.Finishes o A out s` says of a stage `s` that `o` is the last thing it does, if it does it at
all: its answer `a` decides the outcome `out a`, and the operations before it satisfy `A`.
-/

variable {S : Sig} {α β ε : Type}

/-! ### Under a timer -/

/-- An operation that was answered before the timer fired. -/
def answered (e : S.Event) : S.timers.Event := ⟨.timed e.1, some e.2⟩

namespace Prog

theorem next_nil {p : Prog S α} {o : S.Op} {k : S.Res o → Prog S α} (hp : p = .op o k) :
    p.Next [] o := ⟨k, hp ▸ .refl _⟩

/-- An operation of a run that goes on. -/
theorem next_cons {p : Prog S α} {o o' : S.Op} {k : S.Res o → Prog S α} {r : S.Res o}
    {tr : List S.Event} (hp : p = .op o k) (h : (k r).Next tr o') : p.Next (⟨o, r⟩ :: tr) o' := by
  rw [hp]
  exact next_op.mpr (.inr ⟨r, tr, rfl, h⟩)

theorem runs_timeout {p : Prog S α} {tr : List S.timers.Event} {r : Option α} :
    p.timeout.Runs tr r ↔
      (∃ a tr', p.Runs tr' a ∧ tr = tr'.map answered ∧ r = some a) ∨
        ∃ tr' o, p.Next tr' o ∧ tr = tr'.map answered ++ [⟨.timed o, none⟩] ∧ r = none := by
  induction p generalizing tr with
  | ret a =>
    rw [timeout, runs_ret]
    constructor
    · rintro ⟨rfl, rfl⟩
      exact .inl ⟨a, [], .ret a, rfl, rfl⟩
    · rintro (⟨b, tr', h, rfl, rfl⟩ | ⟨tr', o, h, -⟩)
      · obtain ⟨rfl, rfl⟩ := runs_ret.mp h
        exact ⟨rfl, rfl⟩
      · exact absurd h not_next_ret
  | op o k ih =>
    rw [timeout, runs_op]
    constructor
    · rintro ⟨x, tr', rfl, h⟩
      cases x with
      | none =>
        obtain ⟨rfl, rfl⟩ := runs_ret.mp h
        exact .inr ⟨[], o, next_op.mpr (.inl ⟨rfl, rfl⟩), rfl, rfl⟩
      | some x =>
        rcases (ih x).mp h with ⟨a, rest, hrun, rfl, rfl⟩ | ⟨rest, o', hnext, rfl, rfl⟩
        · exact .inl ⟨a, ⟨o, x⟩ :: rest, .op hrun, rfl, rfl⟩
        · exact .inr ⟨⟨o, x⟩ :: rest, o', next_op.mpr (.inr ⟨x, rest, rfl, hnext⟩), rfl, rfl⟩
    · rintro (⟨a, tr', h, rfl, rfl⟩ | ⟨tr', o', h, rfl, rfl⟩)
      · obtain ⟨x, rest, rfl, hrun⟩ := runs_op.mp h
        exact ⟨some x, _, rfl, (ih x).mpr (.inl ⟨a, rest, hrun, rfl, rfl⟩)⟩
      · rcases next_op.mp h with ⟨rfl, rfl⟩ | ⟨x, rest, rfl, hnext⟩
        · exact ⟨none, [], rfl, .ret none⟩
        · exact ⟨some x, _, rfl, (ih x).mpr (.inr ⟨rest, o', hnext, rfl, rfl⟩)⟩

end Prog

/-! ### The last operation of a stage -/

namespace Stage

/-- The stage performs `o` last or not at all. -/
structure Finishes (o : S.Op) (A : List S.Event → Prop) (out : S.Res o → Except ε α)
    (s : Stage S ε α) : Prop where
  calls : ∀ tr o', s.Calls tr o' → (∀ e ∈ tr, e.1 ≠ o) ∧ (o' = o → A tr)
  ends : ∀ tr r, s.Ends tr r →
    (∀ e ∈ tr, e.1 ≠ o) ∨ ∃ tr' a, tr = tr' ++ [⟨o, a⟩] ∧ s.Calls tr' o ∧ r = out a

variable {o : S.Op} {A : List S.Event → Prop} {s : Stage S ε α}

theorem finishes_quiet {out : S.Res o → Except ε α} (h : s.All (fun o' => o' ≠ o)) :
    s.Finishes o A out :=
  ⟨fun _ _ hc => ⟨(h.calls hc).1, fun heq => absurd heq (h.calls hc).2⟩,
    fun _ _ he => .inl (h.ends he)⟩

/-- A part without `o` in front only adds to what comes before. -/
theorem finishes_bind {f : α → Stage S ε β} {out : S.Res o → Except ε β}
    (hs : s.All (fun o' => o' ≠ o))
    (hf : ∀ a tr₁, s.Ends tr₁ (.ok a) → (f a).Finishes o (fun tr => A (tr₁ ++ tr)) out) :
    (s >>= f).Finishes o A out := by
  constructor
  · intro tr o' hc
    rcases calls_bind.mp hc with hc | ⟨a, tr₁, tr₂, rfl, h₁, hc⟩
    · exact ⟨(hs.calls hc).1, fun heq => absurd heq (hs.calls hc).2⟩
    · obtain ⟨hnot, hA⟩ := (hf a tr₁ h₁).calls tr₂ o' hc
      refine ⟨fun e hmem => ?_, hA⟩
      exact (List.mem_append.mp hmem).elim (hs.ends h₁ e) (hnot e)
  · intro tr r he
    rcases ends_bind.mp he with ⟨e, hse, rfl⟩ | ⟨a, tr₁, tr₂, rfl, h₁, h₂⟩
    · exact .inl (hs.ends hse)
    · rcases (hf a tr₁ h₁).ends tr₂ r h₂ with hnot | ⟨tr', x, rfl, hc, rfl⟩
      · refine .inl (fun e hmem => ?_)
        exact (List.mem_append.mp hmem).elim (hs.ends h₁ e) (hnot e)
      · refine .inr ⟨tr₁ ++ tr', x, (List.append_assoc _ _ _).symm, ?_, rfl⟩
        exact calls_bind.mpr (.inr ⟨a, tr₁, tr', rfl, h₁, hc⟩)

/-- The operation itself, with its outcome. -/
theorem finishes_perform {f : S.Res o → Stage S ε β} {out : S.Res o → Except ε β} (hA : A [])
    (hf : ∀ a, f a = ofExcept (out a)) : (perform o >>= f).Finishes o A out := by
  constructor
  · intro tr o' hc
    rcases calls_bind.mp hc with hc | ⟨a, tr₁, tr₂, rfl, h₁, hc⟩
    · obtain ⟨rfl, -⟩ := calls_perform.mp hc
      exact ⟨by simp, fun _ => hA⟩
    · rw [hf a] at hc
      exact absurd hc Prog.not_next_ret
  · intro tr r he
    obtain ⟨a, tr₁, tr₂, rfl, h₁, h₂⟩ :=
      (ends_bind.mp he).resolve_left (by rintro ⟨e, he, -⟩; simp at he)
    obtain ⟨a', rfl, heq⟩ := ends_perform.mp h₁
    obtain rfl := Except.ok.inj heq
    rw [hf a] at h₂
    obtain ⟨rfl, rfl⟩ := ends_ofExcept.mp h₂
    refine .inr ⟨[], a, rfl, ?_, rfl⟩
    exact calls_bind.mpr (.inl (calls_perform.mpr ⟨rfl, rfl⟩))

end Stage

end Geata.Lib
