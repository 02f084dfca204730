import Mathlib.Data.List.Basic

namespace Geata.Lib

/-!
# Programs over an effect signature

Asynchronous code is embedded as a tree of operations: a program either returns, or performs
one operation and continues with its answer.  Everything between two operations is pure, so the
operations are exactly the places where another task can run or where the program can be dropped.

* `Sig` — the operations of a program and the type of each operation's answer.
* `Prog S α` — the programs; `perform` is the one-operation program, and the monad instance makes
  `do` blocks read like the code they embed.
* `Prog.Runs p tr a` — `p` can return `a` after performing exactly the operations of `tr`.
* `Prog.All P p` — every operation `p` can perform satisfies `P`.
* `Prog.lift` — move a program to a larger signature.
* `Prog.timeout` — run a program under a timer that may fire during any of its operations.
* `Stage S ε α` — programs that can end early with an `ε`.
-/

/-- An effect signature: the operations, and what each of them answers. -/
structure Sig where
  Op : Type
  Res : Op → Type

/-- An operation together with the answer it got. -/
abbrev Sig.Event (S : Sig) : Type := (o : S.Op) × S.Res o

/-- The operations of `S`, plain or under a timer. -/
inductive Sig.TimerOp (S : Sig) where
  | plain (o : S.Op)
  | timed (o : S.Op)

/-- The operation itself. -/
def Sig.TimerOp.base {S : Sig} : S.TimerOp → S.Op
  | .plain o | .timed o => o

/-- The signature of programs with timers: an operation under a timer can also be cut short,
    answering `none`. -/
abbrev Sig.timers (S : Sig) : Sig where
  Op := S.TimerOp
  Res
    | .plain o => S.Res o
    | .timed o => Option (S.Res o)

/-- A renaming of operations, with a reading of the new answers. -/
structure Sig.Hom (S T : Sig) where
  op : S.Op → T.Op
  res : ∀ o, T.Res (op o) → S.Res o

/-- Operations without a timer. -/
def Sig.Hom.plain (S : Sig) : S.Hom S.timers where
  op := .plain
  res _ r := r

/-- Programs over `S`: return, or perform one operation and continue with its answer. -/
inductive Prog (S : Sig) (α : Type) : Type where
  | ret (a : α)
  | op (o : S.Op) (k : S.Res o → Prog S α)

namespace Prog

variable {S T : Sig} {α β : Type}

/-- Sequential composition: graft `f` onto the leaves of the first program. -/
def bind : Prog S α → (α → Prog S β) → Prog S β
  | .ret a, f => f a
  | .op o k, f => .op o (fun r => (k r).bind f)

instance : Monad (Prog S) where
  pure := ret
  bind := bind

/-- The program that performs `o` and returns its answer. -/
def perform (o : S.Op) : Prog S (S.Res o) := .op o .ret

@[simp] theorem pure_eq (a : α) : (pure a : Prog S α) = .ret a := rfl

@[simp] theorem bind_eq (p : Prog S α) (f : α → Prog S β) : p >>= f = p.bind f := rfl

@[simp] theorem map_eq (f : α → β) (p : Prog S α) : f <$> p = p.bind (fun a => .ret (f a)) := rfl

@[simp] theorem ret_bind (a : α) (f : α → Prog S β) : (ret a).bind f = f a := rfl

@[simp] theorem op_bind (o : S.Op) (k : S.Res o → Prog S α) (f : α → Prog S β) :
    (op o k).bind f = .op o (fun r => (k r).bind f) := rfl

@[simp] theorem perform_bind (o : S.Op) (f : S.Res o → Prog S β) :
    (perform o).bind f = .op o f := rfl

theorem bind_assoc {γ : Type} (p : Prog S α) (f : α → Prog S β) (g : β → Prog S γ) :
    (p.bind f).bind g = p.bind (fun a => (f a).bind g) := by
  induction p with
  | ret a => rfl
  | op o k ih => simp only [op_bind, ih]

theorem bind_ret (p : Prog S α) : p.bind .ret = p := by
  induction p with
  | ret a => rfl
  | op o k ih => simp only [op_bind, ih]

instance : LawfulMonad (Prog S) :=
  LawfulMonad.mk' (Prog S) (fun p => bind_ret p) (fun _ _ => rfl) bind_assoc

/-! ### Complete runs of one program -/

/-- `Runs p tr a`: performing the operations of `tr` with their answers takes `p` to `ret a`. -/
inductive Runs : Prog S α → List S.Event → α → Prop where
  | ret (a : α) : Runs (.ret a) [] a
  | op {o : S.Op} {k : S.Res o → Prog S α} {r : S.Res o} {tr : List S.Event} {a : α}
      (h : Runs (k r) tr a) : Runs (.op o k) (⟨o, r⟩ :: tr) a

/-- `Reaches p tr q`: after the operations of `tr`, the rest of `p` is `q`. -/
inductive Reaches : Prog S α → List S.Event → Prog S α → Prop where
  | refl (p : Prog S α) : Reaches p [] p
  | op {o : S.Op} {k : S.Res o → Prog S α} {r : S.Res o} {tr : List S.Event} {q : Prog S α}
      (h : Reaches (k r) tr q) : Reaches (.op o k) (⟨o, r⟩ :: tr) q

theorem reaches_cons {p q : Prog S α} {o : S.Op} {r : S.Res o} {k : S.Res o → Prog S α}
    {tr : List S.Event} (hp : p = .op o k) (h : (k r).Reaches tr q) : p.Reaches (⟨o, r⟩ :: tr) q :=
  hp ▸ .op h

theorem Reaches.snoc {p : Prog S α} {tr : List S.Event} {o : S.Op} {k : S.Res o → Prog S α}
    (h : Reaches p tr (.op o k)) (r : S.Res o) : Reaches p (tr ++ [⟨o, r⟩]) (k r) := by
  generalize hq : Prog.op o k = q at h
  induction h with
  | refl p => subst hq; exact .op (.refl _)
  | op _ ih => exact .op (ih hq)

theorem Reaches.runs {p : Prog S α} {tr : List S.Event} {a : α}
    (h : Reaches p tr (.ret a)) : Runs p tr a := by
  generalize hq : Prog.ret a = q at h
  induction h with
  | refl p => subst hq; exact .ret a
  | op _ ih => exact .op (ih hq)

theorem Runs.reaches {p : Prog S α} {tr : List S.Event} {a : α} (h : Runs p tr a) :
    Reaches p tr (.ret a) := by
  induction h with
  | ret a => exact .refl _
  | op _ ih => exact .op ih

@[simp] theorem runs_ret {a b : α} {tr : List S.Event} :
    Runs (.ret a) tr b ↔ tr = [] ∧ a = b := by
  constructor
  · intro h; cases h; exact ⟨rfl, rfl⟩
  · rintro ⟨rfl, rfl⟩; exact .ret a

@[simp] theorem runs_op {o : S.Op} {k : S.Res o → Prog S α} {b : α} {tr : List S.Event} :
    Runs (.op o k) tr b ↔ ∃ r tr', tr = ⟨o, r⟩ :: tr' ∧ Runs (k r) tr' b := by
  constructor
  · intro h
    cases h with
    | op h => exact ⟨_, _, rfl, h⟩
  · rintro ⟨r, tr', rfl, h⟩
    exact .op h

/-- A run of a composition is a run of the first part followed by one of the second. -/
theorem runs_bind {p : Prog S α} {f : α → Prog S β} {b : β} {tr : List S.Event} :
    Runs (p.bind f) tr b ↔ ∃ a tr₁ tr₂, tr = tr₁ ++ tr₂ ∧ Runs p tr₁ a ∧ Runs (f a) tr₂ b := by
  induction p generalizing tr with
  | ret a => simp
  | op o k ih =>
    simp only [op_bind, runs_op, ih]
    constructor
    · rintro ⟨r, tr', rfl, a, tr₁, tr₂, rfl, h₁, h₂⟩
      exact ⟨a, ⟨o, r⟩ :: tr₁, tr₂, rfl, ⟨r, tr₁, rfl, h₁⟩, h₂⟩
    · rintro ⟨a, tr₁, tr₂, rfl, ⟨r, tr', rfl, h₁⟩, h₂⟩
      exact ⟨r, tr' ++ tr₂, rfl, a, tr', tr₂, rfl, h₁, h₂⟩

/-! ### The operation a program is about to perform -/

/-- `Next p tr o`: after the operations of `tr`, the next operation of `p` is `o`. -/
def Next (p : Prog S α) (tr : List S.Event) (o : S.Op) : Prop := ∃ k, Reaches p tr (.op o k)

@[simp] theorem not_next_ret {a : α} {tr : List S.Event} {o : S.Op} :
    ¬ Next (.ret a : Prog S α) tr o := by
  rintro ⟨k, h⟩
  cases h

theorem next_op {o o' : S.Op} {k : S.Res o → Prog S α} {tr : List S.Event} :
    Next (.op o k) tr o' ↔ (tr = [] ∧ o = o') ∨ ∃ r tr', tr = ⟨o, r⟩ :: tr' ∧ Next (k r) tr' o' := by
  constructor
  · rintro ⟨k', h⟩
    cases h with
    | refl => exact .inl ⟨rfl, rfl⟩
    | op h => exact .inr ⟨_, _, rfl, k', h⟩
  · rintro (⟨rfl, rfl⟩ | ⟨r, tr', rfl, k', h⟩)
    · exact ⟨k, .refl _⟩
    · exact ⟨k', .op h⟩

/-- The next operation of a composition is one of the first part, or the first part is done. -/
theorem next_bind {p : Prog S α} {f : α → Prog S β} {tr : List S.Event} {o : S.Op} :
    Next (p.bind f) tr o ↔
      Next p tr o ∨ ∃ a tr₁ tr₂, tr = tr₁ ++ tr₂ ∧ Runs p tr₁ a ∧ Next (f a) tr₂ o := by
  induction p generalizing tr with
  | ret a => simp
  | op o' k ih =>
    simp only [op_bind, next_op, ih, runs_op]
    constructor
    · rintro (h | ⟨r, tr', rfl, h | ⟨a, tr₁, tr₂, rfl, h₁, h₂⟩⟩)
      · exact .inl (.inl h)
      · exact .inl (.inr ⟨r, tr', rfl, h⟩)
      · exact .inr ⟨a, ⟨o', r⟩ :: tr₁, tr₂, rfl, ⟨r, tr₁, rfl, h₁⟩, h₂⟩
    · rintro ((h | ⟨r, tr', rfl, h⟩) | ⟨a, tr₁, tr₂, rfl, ⟨r, tr', rfl, h₁⟩, h₂⟩)
      · exact .inl h
      · exact .inr ⟨r, tr', rfl, .inl h⟩
      · exact .inr ⟨r, tr' ++ tr₂, rfl, .inr ⟨a, tr', tr₂, rfl, h₁, h₂⟩⟩

/-! ### Every operation of a program -/

/-- Every operation that `p` can perform satisfies `P`. -/
def All (P : S.Op → Prop) : Prog S α → Prop
  | .ret _ => True
  | .op o k => P o ∧ ∀ r, (k r).All P

variable {P : S.Op → Prop}

@[simp] theorem all_ret (a : α) : (ret a : Prog S α).All P := trivial

@[simp] theorem all_op {o : S.Op} {k : S.Res o → Prog S α} :
    (op o k).All P ↔ P o ∧ ∀ r, (k r).All P := Iff.rfl

/-- The second part of a sequence only runs on what the first part returns. -/
theorem all_bind {p : Prog S α} {f : α → Prog S β} :
    (p.bind f).All P ↔ p.All P ∧ ∀ a tr, p.Runs tr a → (f a).All P := by
  induction p with
  | ret a => simp
  | op o k ih =>
    simp only [op_bind, all_op, ih, runs_op]
    constructor
    · rintro ⟨ho, h⟩
      refine ⟨⟨ho, fun r => (h r).1⟩, ?_⟩
      rintro a tr ⟨r, tr', rfl, hr⟩
      exact (h r).2 a tr' hr
    · rintro ⟨⟨ho, h⟩, hf⟩
      exact ⟨ho, fun r => ⟨h r, fun a tr hr => hf a _ ⟨r, tr, rfl, hr⟩⟩⟩

theorem all_of_forall (p : Prog S α) (h : ∀ o, P o) : p.All P := by
  induction p with
  | ret a => trivial
  | op o k ih => exact ⟨h o, ih⟩

theorem All.mono {P' : S.Op → Prop} {p : Prog S α} (h : p.All P) (hP : ∀ o, P o → P' o) :
    p.All P' := by
  induction p with
  | ret a => trivial
  | op o k ih => exact ⟨hP o h.1, fun r => ih r (h.2 r)⟩

/-- What a program has performed, and what it performs next, satisfies `P`. -/
theorem All.reaches {p q : Prog S α} {tr : List S.Event} (h : p.All P) (hr : p.Reaches tr q) :
    (∀ e ∈ tr, P e.1) ∧ q.All P := by
  induction hr with
  | refl p => exact ⟨by simp, h⟩
  | @op o k r tr q hr ih =>
    obtain ⟨htr, hq⟩ := ih (h.2 r)
    refine ⟨fun e he => ?_, hq⟩
    rcases List.mem_cons.mp he with rfl | he
    · exact h.1
    · exact htr e he

theorem All.next {p : Prog S α} {tr : List S.Event} {o : S.Op} (h : p.All P)
    (hn : p.Next tr o) : (∀ e ∈ tr, P e.1) ∧ P o := by
  obtain ⟨k, hk⟩ := hn
  obtain ⟨htr, ho, -⟩ := h.reaches hk
  exact ⟨htr, ho⟩

theorem All.runs {p : Prog S α} {tr : List S.Event} {a : α} (h : p.All P) (hr : p.Runs tr a) :
    ∀ e ∈ tr, P e.1 := (h.reaches hr.reaches).1

/-! ### Larger signatures and timers -/

/-- Rename the operations of a program. -/
def lift (h : S.Hom T) : Prog S α → Prog T α
  | .ret a => .ret a
  | .op o k => .op (h.op o) (fun r => (k (h.res o r)).lift h)

/-- Run `p` under a timer.  When it fires during an operation, `p` is dropped there and the
    whole program answers `none`. -/
def timeout : Prog S α → Prog S.timers (Option α)
  | .ret a => .ret (some a)
  | .op o k => .op (.timed o) (fun
    | none => .ret none
    | some r => (k r).timeout)

theorem all_lift {h : S.Hom T} {P : T.Op → Prop} {p : Prog S α}
    (hp : p.All (fun o => P (h.op o))) : (p.lift h).All P := by
  induction p with
  | ret a => trivial
  | op o k ih => exact ⟨hp.1, fun r => ih _ (hp.2 _)⟩

/-- What is left of a program under a timer has ended, or ends as soon as the timer fires. -/
theorem reaches_timeout {p : Prog S α} {f : Option α → β} {tr : List S.timers.Event}
    {q : Prog S.timers β} (h : (p.timeout.bind (fun r => .ret (f r))).Reaches tr q) :
    (∃ b, q = .ret b) ∨ ∃ o k, q = .op (.timed o) k ∧ k none = .ret (f none) := by
  induction p generalizing tr with
  | ret a =>
    cases h with
    | refl => exact .inl ⟨_, rfl⟩
  | op o k ih =>
    rw [timeout, op_bind] at h
    cases h with
    | refl => exact .inr ⟨o, _, rfl, rfl⟩
    | @op _ _ r _ _ h =>
      cases r with
      | none =>
        cases h with
        | refl => exact .inl ⟨_, rfl⟩
      | some r => exact ih r h

theorem all_timeout {P : S.timers.Op → Prop} {p : Prog S α}
    (hp : p.All (fun o => P (.timed o))) : p.timeout.All P := by
  induction p with
  | ret a => trivial
  | op o k ih =>
    rw [timeout]
    refine ⟨hp.1, fun r => ?_⟩
    cases r with
    | none => trivial
    | some r => exact ih r (hp.2 r)

end Prog

/-! ### Early answers -/

/-- A part of a program that either goes on with an `α` or ends the whole with an `ε`. -/
abbrev Stage (S : Sig) (ε α : Type) : Type := ExceptT ε (Prog S) α

namespace Stage

variable {S : Sig} {ε α β : Type}

/-- Perform one operation. -/
def perform (o : S.Op) : Stage S ε (S.Res o) := ExceptT.lift (Prog.perform o)

/-- End with `e` if the condition holds. -/
def stopIf (c : Bool) (e : ε) : Stage S ε Unit := if c then throw e else pure ()

/-- Go on with the value of an `Except`, or end with its error. -/
def ofExcept (x : Except ε α) : Stage S ε α := ExceptT.mk (.ret x)

/-- Run a stage and go on with its outcome, whichever it is. -/
def attempt {ε' : Type} (s : Stage S ε α) : Stage S ε' (Except ε α) := ExceptT.lift s.run

/-- `s.Ends tr r`: running the stage performs `tr` and gives `r`. -/
def Ends (s : Stage S ε α) (tr : List S.Event) (r : Except ε α) : Prop := Prog.Runs s.run tr r

variable {tr : List S.Event}

@[simp] theorem ends_pure {a : α} {r : Except ε α} :
    Ends (pure a : Stage S ε α) tr r ↔ tr = [] ∧ Except.ok a = r := Prog.runs_ret

@[simp] theorem ends_throw {e : ε} {r : Except ε α} :
    Ends (throw e : Stage S ε α) tr r ↔ tr = [] ∧ Except.error e = r := Prog.runs_ret

@[simp] theorem ends_ofExcept {x : Except ε α} {r : Except ε α} :
    Ends (ofExcept x : Stage S ε α) tr r ↔ tr = [] ∧ x = r := Prog.runs_ret

@[simp] theorem ends_stopIf {c : Bool} {e : ε} {r : Except ε Unit} :
    Ends (stopIf c e : Stage S ε Unit) tr r ↔
      tr = [] ∧ r = if c then Except.error e else Except.ok () := by
  cases c <;> simp [stopIf, eq_comm]

@[simp] theorem ends_perform {o : S.Op} {r : Except ε (S.Res o)} :
    Ends (perform o : Stage S ε (S.Res o)) tr r ↔ ∃ a, tr = [⟨o, a⟩] ∧ r = .ok a := by
  show Prog.Runs (.op o _) tr r ↔ _
  rw [Prog.runs_op]
  constructor
  · rintro ⟨a, tr', rfl, h⟩
    obtain ⟨rfl, rfl⟩ := Prog.runs_ret.mp h
    exact ⟨a, rfl, rfl⟩
  · rintro ⟨a, rfl, rfl⟩
    exact ⟨a, [], rfl, .ret _⟩

/-- A sequence ends early with its first part, or goes on to the second. -/
theorem ends_bind {s : Stage S ε α} {f : α → Stage S ε β} {r : Except ε β} :
    Ends (s >>= f) tr r ↔ (∃ e, Ends s tr (.error e) ∧ r = .error e) ∨
      ∃ a tr₁ tr₂, tr = tr₁ ++ tr₂ ∧ Ends s tr₁ (.ok a) ∧ Ends (f a) tr₂ r := by
  show Prog.Runs (Prog.bind s.run _) tr r ↔ _
  rw [Prog.runs_bind]
  constructor
  · rintro ⟨x, tr₁, tr₂, rfl, h₁, h₂⟩
    cases x with
    | error e =>
      obtain ⟨rfl, rfl⟩ := Prog.runs_ret.mp h₂
      exact .inl ⟨e, by rw [List.append_nil]; exact h₁, rfl⟩
    | ok a => exact .inr ⟨a, tr₁, tr₂, rfl, h₁, h₂⟩
  · rintro (⟨e, h, rfl⟩ | ⟨a, tr₁, tr₂, rfl, h₁, h₂⟩)
    · exact ⟨.error e, tr, [], by simp, h, .ret _⟩
    · exact ⟨.ok a, tr₁, tr₂, rfl, h₁, h₂⟩

theorem ends_bind_ok {s : Stage S ε α} {f : α → Stage S ε β} {b : β} :
    Ends (s >>= f) tr (.ok b) ↔
      ∃ a tr₁ tr₂, tr = tr₁ ++ tr₂ ∧ Ends s tr₁ (.ok a) ∧ Ends (f a) tr₂ (.ok b) := by
  rw [ends_bind]
  simp

/-- `s.Calls tr o`: after the operations of `tr`, the stage performs `o` next. -/
def Calls (s : Stage S ε α) (tr : List S.Event) (o : S.Op) : Prop := Prog.Next s.run tr o

variable {o o' : S.Op}

@[simp] theorem not_calls_pure {a : α} : ¬ Calls (pure a : Stage S ε α) tr o := Prog.not_next_ret

@[simp] theorem not_calls_throw {e : ε} : ¬ Calls (throw e : Stage S ε α) tr o :=
  Prog.not_next_ret

@[simp] theorem not_calls_stopIf {c : Bool} {e : ε} :
    ¬ Calls (stopIf c e : Stage S ε Unit) tr o := by
  unfold stopIf
  split
  · exact not_calls_throw
  · exact not_calls_pure

@[simp] theorem calls_perform : Calls (perform o' : Stage S ε (S.Res o')) tr o ↔ tr = [] ∧ o' = o := by
  show Prog.Next (.op o' _) tr o ↔ _
  rw [Prog.next_op]
  constructor
  · rintro (h | ⟨r, tr', rfl, h⟩)
    · exact h
    · exact absurd h Prog.not_next_ret
  · exact fun h => .inl h

/-- A sequence performs the operations of its first part until that goes on. -/
theorem calls_bind {s : Stage S ε α} {f : α → Stage S ε β} :
    Calls (s >>= f) tr o ↔
      Calls s tr o ∨ ∃ a tr₁ tr₂, tr = tr₁ ++ tr₂ ∧ Ends s tr₁ (.ok a) ∧ Calls (f a) tr₂ o := by
  show Prog.Next (Prog.bind s.run _) tr o ↔ _
  rw [Prog.next_bind]
  refine or_congr_right ⟨?_, ?_⟩
  · rintro ⟨x, tr₁, tr₂, rfl, h₁, h₂⟩
    cases x with
    | error e => exact absurd h₂ Prog.not_next_ret
    | ok a => exact ⟨a, tr₁, tr₂, rfl, h₁, h₂⟩
  · rintro ⟨a, tr₁, tr₂, rfl, h₁, h₂⟩
    exact ⟨.ok a, tr₁, tr₂, rfl, h₁, h₂⟩

/-- Every operation of a stage satisfies `P`. -/
def All (P : S.Op → Prop) (s : Stage S ε α) : Prop := Prog.All P s.run

variable {P : S.Op → Prop}

theorem All.calls {s : Stage S ε α} (h : All P s) (hc : s.Calls tr o) :
    (∀ e ∈ tr, P e.1) ∧ P o := Prog.All.next h hc

theorem All.ends {s : Stage S ε α} {r : Except ε α} (h : All P s) (hr : s.Ends tr r) :
    ∀ e ∈ tr, P e.1 := Prog.All.runs h hr

@[simp] theorem all_pure (a : α) : All P (pure a : Stage S ε α) := trivial

@[simp] theorem all_throw (e : ε) : All P (throw e : Stage S ε α) := trivial

@[simp] theorem all_ofExcept (x : Except ε α) : All P (ofExcept x : Stage S ε α) := trivial

@[simp] theorem all_stopIf (c : Bool) (e : ε) : All P (stopIf c e : Stage S ε Unit) := by
  cases c <;> trivial

@[simp] theorem all_perform {o : S.Op} : All P (perform o : Stage S ε (S.Res o)) ↔ P o :=
  ⟨fun h => h.1, fun h => ⟨h, fun _ => trivial⟩⟩

/-- The second part of a sequence only runs on what the first part goes on with. -/
@[simp] theorem all_bind {s : Stage S ε α} {f : α → Stage S ε β} :
    All P (s >>= f) ↔ All P s ∧ ∀ a tr, Ends s tr (.ok a) → All P (f a) := by
  show Prog.All P (Prog.bind s.run _) ↔ _
  rw [Prog.all_bind]
  refine and_congr_right (fun _ => ⟨fun h a tr hr => h (.ok a) tr hr, fun h x tr hr => ?_⟩)
  cases x with
  | error e => trivial
  | ok a => exact h a tr hr

theorem All.bind {s : Stage S ε α} {f : α → Stage S ε β} (hs : All P s) (hf : ∀ a, All P (f a)) :
    All P (s >>= f) := all_bind.mpr ⟨hs, fun a _ _ => hf a⟩

@[simp] theorem all_attempt {ε' : Type} {s : Stage S ε α} :
    All P (attempt s : Stage S ε' (Except ε α)) ↔ All P s := by
  show Prog.All P (Prog.bind s.run _) ↔ _
  rw [Prog.all_bind]
  exact ⟨fun h => h.1, fun h => ⟨h, fun _ _ _ => trivial⟩⟩

@[simp] theorem all_ite {c : Prop} [Decidable c] {s t : Stage S ε α} :
    All P (if c then s else t) ↔ (c → All P s) ∧ (¬ c → All P t) := by
  split <;> simp_all

end Stage

end Geata.Lib
