import Geata.Lib.Concurrent

namespace Geata.Lib

open Function

/-!
# Reasoning about interleaved programs

A `Logic` says what the programs over a shared state may rely on and have to respect: an
invariant, for each program a relation `Rely` that the steps of the others stay in, and for each
operation what it `Needs` of the state when it begins.

* `Logic.wp` — what a program needs of the state to perform every operation when it is allowed
  to, while the others move the state along `Rely`.
* `Logic.safe` — the same for logics whose programs rely only on what no step undoes, their own
  included.  A fact is then learned once and kept, and an operation that teaches nothing leaves
  the proof where it was.
* `Outline` — a proof outline for a machine: that every operation which is allowed keeps the
  invariant and the others' relies is shown once for all programs.
* `Outline.sound` — **the run rule**: in every reachable world the invariant holds, every
  operation about to be performed is allowed, and every answer given so far meets its
  postcondition.
-/

variable {S T : Sig} {σ ρ α β ε : Type}

/-- What the programs over a shared state rely on and respect. -/
structure Logic (S : Sig) (σ : Type) where
  exec : ℕ → σ → (o : S.Op) → S.Res o → σ → Prop
  Inv : σ → Prop
  Rely : ℕ → σ → σ → Prop
  Needs : ℕ → S.Op → σ → Prop

namespace Logic

/-- `L.wp i p Q s`: from `s`, program `i` running `p` performs each operation when it is allowed
    to, and if it returns it does so with `Q`. -/
def wp (L : Logic S σ) (i : ℕ) : Prog S α → (α → σ → Prop) → σ → Prop
  | .ret a, Q, s => Q a s
  | .op o k, Q, s => ∀ s₁, L.Rely i s s₁ → L.Inv s₁ →
      L.Needs i o s₁ ∧ ∀ r s₂, L.exec i s₁ o r s₂ → L.Inv s₂ → L.wp i (k r) Q s₂

variable {L : Logic S σ} {i : ℕ} {s : σ}

/-- Sequencing: the second program starts where the first one returned. -/
theorem wp_bind (p : Prog S α) (f : α → Prog S β) (Q : β → σ → Prop) (s : σ) :
    L.wp i (p.bind f) Q s ↔ L.wp i p (fun a => L.wp i (f a) Q) s := by
  induction p generalizing s with
  | ret a => rfl
  | op o k ih => simp only [Prog.op_bind, wp, ih]

/-- Consequence: a weaker postcondition is easier to meet. -/
theorem wp_mono {p : Prog S α} {Q Q' : α → σ → Prop} (h : L.wp i p Q s)
    (hq : ∀ a s, Q a s → Q' a s) : L.wp i p Q' s := by
  induction p generalizing s with
  | ret a => exact hq a s h
  | op o k ih =>
    intro s₁ hs₁ hi
    obtain ⟨hneeds, hexec⟩ := h s₁ hs₁ hi
    exact ⟨hneeds, fun r s₂ he hi₂ => ih r (hexec r s₂ he hi₂)⟩

/-- Safety survives what the other programs do. -/
theorem wp_stable (htrans : ∀ s₁ s₂ s₃, L.Rely i s₁ s₂ → L.Rely i s₂ s₃ → L.Rely i s₁ s₃)
    {p : Prog S α} {Q : α → σ → Prop} (hq : ∀ a s s', L.Rely i s s' → Q a s → Q a s') {s' : σ}
    (hs : L.Rely i s s') (h : L.wp i p Q s) : L.wp i p Q s' := by
  cases p with
  | ret a => exact hq a s s' hs h
  | op o k => exact fun s₁ hs₁ hi => h s₁ (htrans _ _ _ hs hs₁) hi

/-- Fewer answers are easier to deal with. -/
theorem wp_of_exec {exec : ℕ → σ → (o : S.Op) → S.Res o → σ → Prop}
    (hexec : ∀ s o r s', exec i s o r s' → L.exec i s o r s') {p : Prog S α} {Q : α → σ → Prop}
    (h : L.wp i p Q s) : Logic.wp ⟨exec, L.Inv, L.Rely, L.Needs⟩ i p Q s := by
  induction p generalizing s with
  | ret a => exact h
  | op o k ih =>
    intro s₁ hs₁ hi
    obtain ⟨hneeds, hgo⟩ := h s₁ hs₁ hi
    exact ⟨hneeds, fun r s₂ he hi₂ => ih r (hgo r s₂ (hexec s₁ o r s₂ he) hi₂)⟩

/-- A program whose operations are allowed in every state is safe. -/
theorem wp_of_all {p : Prog S α} (h : p.All (fun o => ∀ s, L.Inv s → L.Needs i o s)) :
    L.wp i p (fun _ _ => True) s := by
  induction p generalizing s with
  | ret a => trivial
  | op o k ih => exact fun s₁ _ hi => ⟨h.1 s₁ hi, fun r s₂ _ _ => ih r (h.2 r)⟩

/-! ### Larger signatures and timers -/

/-- The logic of a larger signature, seen from the programs of a smaller one. -/
def along (L : Logic T σ) (h : S.Hom T) : Logic S σ where
  exec i s o r s' := ∃ r', h.res o r' = r ∧ L.exec i s (h.op o) r' s'
  Inv := L.Inv
  Rely := L.Rely
  Needs i o := L.Needs i (h.op o)

theorem wp_lift {L : Logic T σ} {h : S.Hom T} {p : Prog S α} {Q : α → σ → Prop}
    (hp : (L.along h).wp i p Q s) : L.wp i (p.lift h) Q s := by
  induction p generalizing s with
  | ret a => exact hp
  | op o k ih =>
    intro s₁ hs₁ hi
    obtain ⟨hneeds, hexec⟩ := hp s₁ hs₁ hi
    exact ⟨hneeds, fun r s₂ he hi₂ => ih _ (hexec _ s₂ ⟨r, rfl, he⟩ hi₂)⟩

/-- The logic of programs with timers. -/
def timers (L : Logic S σ) (cut : ℕ → σ → S.Op → σ → Prop) (leave : ℕ → σ → σ) :
    Logic S.timers σ where
  exec := (Effects.timers ⟨L.exec, cut⟩ leave).exec
  Inv := L.Inv
  Rely := L.Rely
  Needs i (o : S.TimerOp) :=
    match o with
    | .plain o | .timed o => L.Needs i o

theorem wp_plain {cut : ℕ → σ → S.Op → σ → Prop} {leave : ℕ → σ → σ} {p : Prog S α}
    {Q : α → σ → Prop} (hp : L.wp i p Q s) :
    (L.timers cut leave).wp i (p.lift (.plain S)) Q s := by
  induction p generalizing s with
  | ret a => exact hp
  | op o k ih =>
    intro s₁ hs₁ hi
    obtain ⟨hneeds, hexec⟩ := hp s₁ hs₁ hi
    exact ⟨hneeds, fun r s₂ he hi₂ => ih r (hexec r s₂ he hi₂)⟩

/-! ### Logics of lasting facts -/

/-- Programs rely only on what no step undoes, their own included. -/
structure Lasting (L : Logic S σ) : Prop where
  refl : ∀ i s, L.Rely i s s
  trans : ∀ i s₁ s₂ s₃, L.Rely i s₁ s₂ → L.Rely i s₂ s₃ → L.Rely i s₁ s₃
  own : ∀ i s o r s', L.Inv s → L.Needs i o s → L.exec i s o r s' → L.Inv s' → L.Rely i s s'

theorem Lasting.along {L : Logic T σ} (hL : L.Lasting) (h : S.Hom T) : (L.along h).Lasting where
  refl := hL.refl
  trans := hL.trans
  own i s o r s' hi hn he hi' := by
    obtain ⟨r', -, he⟩ := he
    exact hL.own i s _ r' s' hi hn he hi'

/-- A returning program has only moved the state along its rely. -/
theorem wp_rely (hL : L.Lasting) {p : Prog S α} {Q : α → σ → Prop} (hi : L.Inv s)
    (h : L.wp i p Q s) : L.wp i p (fun a s' => L.Rely i s s' ∧ L.Inv s' ∧ Q a s') s := by
  -- the induction needs the first state fixed, and the current one a later one
  suffices hlater : ∀ s₀, L.Rely i s₀ s →
      L.wp i p (fun a s' => L.Rely i s₀ s' ∧ L.Inv s' ∧ Q a s') s from hlater s (hL.refl i s)
  induction p generalizing s with
  | ret a => exact fun s₀ hs₀ => ⟨hs₀, hi, h⟩
  | op o k ih =>
    intro s₀ hs₀ s₁ hs₁ hi₁
    obtain ⟨hneeds, hexec⟩ := h s₁ hs₁ hi₁
    refine ⟨hneeds, fun r s₂ he hi₂ => ?_⟩
    have h₀₁ := hL.trans i _ _ _ hs₀ hs₁
    exact ih r hi₂ (hexec r s₂ he hi₂) s₀
      (hL.trans i _ _ _ h₀₁ (hL.own i s₁ o r s₂ hi₁ hneeds he hi₂))

/-- `L.safe i p Q s`: program `i` is safe in every later state. -/
def safe (L : Logic S σ) (i : ℕ) (p : Prog S α) (Q : α → σ → Prop) (s : σ) : Prop :=
  ∀ s', L.Rely i s s' → L.Inv s' → L.wp i p Q s'

theorem safe.wp (hL : L.Lasting) {p : Prog S α} {Q : α → σ → Prop} (h : L.safe i p Q s)
    (hi : L.Inv s) : L.wp i p Q s := h s (hL.refl i s) hi

theorem safe.later (hL : L.Lasting) {p : Prog S α} {Q : α → σ → Prop} {s' : σ}
    (h : L.safe i p Q s) (hs : L.Rely i s s') : L.safe i p Q s' :=
  fun s'' hs'' hi => h s'' (hL.trans i _ _ _ hs hs'') hi

theorem safe_ret {a : α} {Q : α → σ → Prop} (h : ∀ s', L.Rely i s s' → L.Inv s' → Q a s') :
    L.safe i (.ret a) Q s := h

/-- An operation: show that it is allowed, and go on with what it teaches. -/
theorem safe_op (hL : L.Lasting) {o : S.Op} {k : S.Res o → Prog S α} {Q : α → σ → Prop}
    (hneeds : ∀ s₁, L.Rely i s s₁ → L.Inv s₁ → L.Needs i o s₁)
    (h : ∀ r s₁ s₂, L.Rely i s s₁ → L.Inv s₁ → L.exec i s₁ o r s₂ → L.Inv s₂ →
      L.Rely i s₁ s₂ → L.safe i (k r) Q s₂) : L.safe i (.op o k) Q s := by
  intro s' hs' _ s₁ hs₁ hi₁
  have hs := hL.trans i _ _ _ hs' hs₁
  have hn := hneeds s₁ hs hi₁
  refine ⟨hn, fun r s₂ he hi₂ => ?_⟩
  exact (h r s₁ s₂ hs hi₁ he hi₂ (hL.own i _ _ _ _ hi₁ hn he hi₂)).wp hL hi₂

/-- An operation that is always allowed and teaches nothing. -/
theorem safe_quiet (hL : L.Lasting) {o : S.Op} {k : S.Res o → Prog S α} {Q : α → σ → Prop}
    (hneeds : ∀ s₁, L.Inv s₁ → L.Needs i o s₁) (h : ∀ r, L.safe i (k r) Q s) :
    L.safe i (.op o k) Q s :=
  safe_op hL (fun s₁ _ hi => hneeds s₁ hi)
    (fun r _ _ hs _ _ _ h₁₂ => (h r).later hL (hL.trans i _ _ _ hs h₁₂))

/-- Sequencing, with what the first program ensures and the state it leaves. -/
theorem safe_bind (hL : L.Lasting) {p : Prog S α} {f : α → Prog S β} {Q : β → σ → Prop}
    {R : α → σ → Prop} (hp : L.safe i p R s)
    (hf : ∀ a s', L.Rely i s s' → L.Inv s' → R a s' → L.safe i (f a) Q s') :
    L.safe i (p.bind f) Q s := by
  intro s' hs' hi'
  rw [wp_bind]
  refine wp_mono (wp_rely hL hi' (hp s' hs' hi')) (fun a s'' h => ?_)
  obtain ⟨hr, hi'', hq⟩ := h
  exact (hf a s'' (hL.trans i _ _ _ hs' hr) hi'' hq).wp hL hi''

/-- Consequence, in the state the program leaves. -/
theorem safe_mono (hL : L.Lasting) {p : Prog S α} {Q Q' : α → σ → Prop} (hp : L.safe i p Q s)
    (hq : ∀ a s', L.Rely i s s' → L.Inv s' → Q a s' → Q' a s') : L.safe i p Q' s := by
  intro s' hs' hi'
  refine wp_mono (wp_rely hL hi' (hp s' hs' hi')) (fun a s'' h => ?_)
  obtain ⟨hr, hi'', hqa⟩ := h
  exact hq a s'' (hL.trans i _ _ _ hs' hr) hi'' hqa

theorem safe_lift {L : Logic T σ} {h : S.Hom T} {p : Prog S α} {Q : α → σ → Prop}
    (hp : (L.along h).safe i p Q s) : L.safe i (p.lift h) Q s :=
  fun s' hs' hi' => wp_lift (hp s' hs' hi')

section Timers

variable {cut : ℕ → σ → S.Op → σ → Prop} {leave : ℕ → σ → σ}

theorem Lasting.ofTimers (hL : (L.timers cut leave).Lasting) : L.Lasting where
  refl := hL.refl
  trans := hL.trans
  own i s o r s' := hL.own i s (.plain o) r s'

theorem wp_timeout (hL : (L.timers cut leave).Lasting) {p : Prog S α}
    {Q : Option α → σ → Prop} (hp : L.wp i p (fun a => Q (some a)) s)
    (hnone : ∀ s', L.Rely i s s' → L.Inv s' → Q none s') :
    (L.timers cut leave).wp i p.timeout Q s := by
  induction p generalizing s with
  | ret a => exact hp
  | op o k ih =>
    rw [Prog.timeout]
    intro s₁ hs₁ hi₁
    obtain ⟨hneeds, hexec⟩ := hp s₁ hs₁ hi₁
    refine ⟨hneeds, fun r s₂ he hi₂ => ?_⟩
    have hs₂ : L.Rely i s s₂ :=
      hL.trans i _ _ _ hs₁ (hL.own i s₁ (.timed o) r s₂ hi₁ hneeds he hi₂)
    cases r with
    | none => exact hnone s₂ hs₂ hi₂
    | some r =>
      exact ih r (hexec r s₂ he hi₂) (fun s₃ hs₃ => hnone s₃ (hL.trans i _ _ _ hs₂ hs₃))

/-- A program under a timer ends as it would without one, or anywhere with `none`. -/
theorem safe_timeout (hL : (L.timers cut leave).Lasting) {p : Prog S α}
    {Q : Option α → σ → Prop} (hp : L.safe i p (fun a => Q (some a)) s)
    (hnone : ∀ s', L.Rely i s s' → L.Inv s' → Q none s') :
    (L.timers cut leave).safe i p.timeout Q s :=
  fun s' hs' hi' => wp_timeout hL (hp s' hs' hi')
    (fun s'' hs'' => hnone s'' (hL.trans i _ _ _ hs' hs''))

end Timers

end Logic

/-! ### Stages -/

namespace Stage

variable {L : Logic S σ} {i : ℕ} {s : σ}

/-- The postcondition of a stage: what holds when it goes on, and what when it ends early. -/
def post (Q : α → σ → Prop) (E : ε → σ → Prop) : Except ε α → σ → Prop
  | .ok a => Q a
  | .error e => E e

/-- `safe L i t Q E s`: in every later state, program `i` running the stage `t` is safe, goes on
    with `Q` and ends early with `E`. -/
def safe (L : Logic S σ) (i : ℕ) (t : Stage S ε α) (Q : α → σ → Prop) (E : ε → σ → Prop)
    (s : σ) : Prop := L.safe i t.run (post Q E) s

variable {Q : α → σ → Prop} {E : ε → σ → Prop}

theorem safe_pure {a : α} (h : ∀ s', L.Rely i s s' → L.Inv s' → Q a s') :
    safe L i (pure a : Stage S ε α) Q E s := h

theorem safe_throw {e : ε} (h : ∀ s', L.Rely i s s' → L.Inv s' → E e s') :
    safe L i (throw e : Stage S ε α) Q E s := h

/-- A sequence, with what its first part ensures in the state it leaves. -/
theorem safe_bind (hL : L.Lasting) {t : Stage S ε β} {f : β → Stage S ε α}
    {R : β → σ → Prop} {F : ε → σ → Prop} (ht : safe L i t R F s)
    (hf : ∀ b s', L.Rely i s s' → L.Inv s' → R b s' → safe L i (f b) Q E s')
    (he : ∀ e s', L.Rely i s s' → L.Inv s' → F e s' → E e s') :
    safe L i (t >>= f) Q E s := by
  intro s' hs' hi'
  refine (Logic.wp_bind t.run _ _ s').mpr ?_
  refine Logic.wp_mono (Logic.wp_rely hL hi' (ht s' hs' hi')) (fun x s'' h => ?_)
  obtain ⟨hr, hi'', hq⟩ := h
  have hs'' := hL.trans i _ _ _ hs' hr
  cases x with
  | ok b => exact (hf b s'' hs'' hi'' hq).wp hL hi''
  | error e => exact he e s'' hs'' hi'' hq

theorem safe_mono (hL : L.Lasting) {t : Stage S ε α} {Q₁ : α → σ → Prop} {E₁ : ε → σ → Prop}
    (ht : safe L i t Q₁ E₁ s) (hq : ∀ a s', L.Rely i s s' → L.Inv s' → Q₁ a s' → Q a s')
    (he : ∀ e s', L.Rely i s s' → L.Inv s' → E₁ e s' → E e s') : safe L i t Q E s := by
  refine Logic.safe_mono hL ht (fun x s' hs' hi' h => ?_)
  cases x with
  | ok a => exact hq a s' hs' hi' h
  | error e => exact he e s' hs' hi' h

theorem safe_perform_bind (hL : L.Lasting) {o : S.Op} {f : S.Res o → Stage S ε α}
    (hneeds : ∀ s₁, L.Rely i s s₁ → L.Inv s₁ → L.Needs i o s₁)
    (h : ∀ r s₁ s₂, L.Rely i s s₁ → L.Inv s₁ → L.exec i s₁ o r s₂ → L.Inv s₂ →
      L.Rely i s₁ s₂ → safe L i (f r) Q E s₂) : safe L i (perform o >>= f) Q E s :=
  Logic.safe_op hL hneeds h

theorem safe_quiet_bind (hL : L.Lasting) {o : S.Op} {f : S.Res o → Stage S ε α}
    (hneeds : ∀ s₁, L.Inv s₁ → L.Needs i o s₁) (h : ∀ r, safe L i (f r) Q E s) :
    safe L i (perform o >>= f) Q E s :=
  Logic.safe_quiet hL hneeds h

theorem safe_stopIf_bind {c : Bool} {e : ε} {f : Unit → Stage S ε α}
    (he : c = true → ∀ s', L.Rely i s s' → L.Inv s' → E e s')
    (h : c = false → safe L i (f ()) Q E s) : safe L i (stopIf c e >>= f) Q E s := by
  cases c with
  | true => exact he rfl
  | false => exact h rfl

theorem safe_stopIf {c : Bool} {e : ε} {Q : Unit → σ → Prop}
    (he : c = true → ∀ s', L.Rely i s s' → L.Inv s' → E e s')
    (h : c = false → ∀ s', L.Rely i s s' → L.Inv s' → Q () s') :
    safe L i (stopIf c e) Q E s := by
  cases c with
  | true => exact he rfl
  | false => exact h rfl

theorem safe_ofExcept_bind {x : Except ε β} {f : β → Stage S ε α}
    (he : ∀ e, x = .error e → ∀ s', L.Rely i s s' → L.Inv s' → E e s')
    (h : ∀ b, x = .ok b → safe L i (f b) Q E s) : safe L i (ofExcept x >>= f) Q E s := by
  cases x with
  | error e => exact he e rfl
  | ok b => exact h b rfl

theorem safe_ofExcept {x : Except ε α} (he : ∀ e, x = .error e → ∀ s', L.Rely i s s' → L.Inv s' → E e s')
    (h : ∀ a, x = .ok a → ∀ s', L.Rely i s s' → L.Inv s' → Q a s') :
    safe L i (ofExcept x) Q E s := by
  cases x with
  | error e => exact he e rfl
  | ok a => exact h a rfl

theorem safe_ite {c : Prop} [Decidable c] {t u : Stage S ε α} (ht : c → safe L i t Q E s)
    (hu : ¬ c → safe L i u Q E s) : safe L i (if c then t else u) Q E s := by
  split
  · exact ht ‹_›
  · exact hu ‹_›

theorem safe_of_all {t : Stage S ε α} (h : t.All (fun o => ∀ s, L.Inv s → L.Needs i o s)) :
    safe L i t (fun _ _ => True) (fun _ _ => True) s :=
  fun _ _ _ => Logic.wp_mono (Logic.wp_of_all h) (fun x _ _ => by cases x <;> trivial)

/-- A stage whose outcome does not matter, whichever it is. -/
theorem safe_attempt {ε' : Type} (hL : L.Lasting) {t : Stage S ε α}
    (ht : safe L i t (fun _ _ => True) (fun _ _ => True) s) :
    safe L i (attempt t : Stage S ε' (Except ε α)) (fun _ _ => True) (fun _ _ => True) s :=
  Logic.safe_bind hL ht (fun _ _ _ _ _ => Logic.safe_ret (fun _ _ _ => trivial))

/-- A part of a sequence that is always allowed and whose outcome does not matter. -/
theorem safe_skip (hL : L.Lasting) {t : Stage S ε β} {f : β → Stage S ε α}
    (ht : t.All (fun o => ∀ s, L.Inv s → L.Needs i o s))
    (hf : ∀ b, safe L i (f b) Q (fun _ _ => True) s) :
    safe L i (t >>= f) Q (fun _ _ => True) s :=
  safe_bind hL (safe_of_all ht) (fun b _ hs' _ _ => Logic.safe.later hL (hf b) hs')
    (fun _ _ _ _ _ => trivial)

/-! ### Stages with a state of their own -/

/-- `wp L i t Q E s`: from `s`, program `i` running the stage is safe, goes on with `Q` and ends
    early with `E`.  For logics whose programs rely on what only the others leave alone. -/
def wp (L : Logic S σ) (i : ℕ) (t : Stage S ε α) (Q : α → σ → Prop) (E : ε → σ → Prop)
    (s : σ) : Prop := L.wp i t.run (post Q E) s

@[simp] theorem wp_pure {a : α} : wp L i (pure a : Stage S ε α) Q E s ↔ Q a s := Iff.rfl

@[simp] theorem wp_throw {e : ε} : wp L i (throw e : Stage S ε α) Q E s ↔ E e s := Iff.rfl

theorem wp_bind {t : Stage S ε β} {f : β → Stage S ε α} :
    wp L i (t >>= f) Q E s ↔ wp L i t (fun b => wp L i (f b) Q E) E s := by
  refine (Logic.wp_bind t.run _ _ s).trans ?_
  constructor
  · intro h
    apply Logic.wp_mono h
    rintro (e | b) s' hs'
    · exact hs'
    · exact hs'
  · intro h
    apply Logic.wp_mono h
    rintro (e | b) s' hs'
    · exact hs'
    · exact hs'

theorem wp_perform {o : S.Op} {Q : S.Res o → σ → Prop} :
    wp L i (perform o : Stage S ε _) Q E s ↔ ∀ s₁, L.Rely i s s₁ → L.Inv s₁ →
      L.Needs i o s₁ ∧ ∀ r s₂, L.exec i s₁ o r s₂ → L.Inv s₂ → Q r s₂ := Iff.rfl

theorem wp_stopIf {c : Bool} {e : ε} {Q : Unit → σ → Prop} :
    wp L i (stopIf c e) Q E s ↔ (c = true → E e s) ∧ (c = false → Q () s) := by
  cases c with
  | true => simp [stopIf]
  | false => simp [stopIf]

/-- The outcome of the stage becomes an ordinary value. -/
theorem wp_attempt {ε' : Type} {t : Stage S ε α} {Q : Except ε α → σ → Prop} {E : ε' → σ → Prop} :
    wp L i (attempt t) Q E s ↔ L.wp i t.run Q s := by
  refine (Logic.wp_bind t.run _ _ s).trans ?_
  exact Iff.rfl

theorem wp_mono {t : Stage S ε α} {Q₁ : α → σ → Prop} {E₁ : ε → σ → Prop}
    (h : wp L i t Q₁ E₁ s) (hq : ∀ a s', Q₁ a s' → Q a s') (he : ∀ e s', E₁ e s' → E e s') :
    wp L i t Q E s := by
  apply Logic.wp_mono h
  rintro (e | a) s' hs'
  · exact he e s' hs'
  · exact hq a s' hs'

end Stage

/-! ### Proof outlines and the run rule -/

/-- A proof outline for `M`.  `Rely i` is what program `i` may assume of the others' steps,
    `Hist` what holds of the whole run, crashes included. -/
structure Outline (M : Machine S σ ρ α) where
  Inv : σ → Prop
  Rely : ℕ → σ → σ → Prop
  Needs : ℕ → S.Op → σ → Prop
  Hist : σ → σ → Prop
  Post : ℕ → ρ → α → σ → Prop
  rely_refl : ∀ i s, Rely i s s
  rely_trans : ∀ i s₁ s₂ s₃, Rely i s₁ s₂ → Rely i s₂ s₃ → Rely i s₁ s₃
  rely_hist : ∀ i s s', Rely i s s' → Hist s s'
  hist_trans : ∀ s₁ s₂ s₃, Hist s₁ s₂ → Hist s₂ s₃ → Hist s₁ s₃
  post_hist : ∀ i q a s s', Hist s s' → Post i q a s → Post i q a s'
  init : ∀ s, M.init s → Inv s
  start : ∀ i s q, Inv s → M.admits s q →
    Logic.wp ⟨M.effects.exec, Inv, Rely, Needs⟩ i (M.code q) (Post i q) s
  exec : ∀ i s o r s', Inv s → Needs i o s → M.effects.exec i s o r s' →
    Inv s' ∧ ∀ j, j ≠ i → Rely j s s'
  cut : ∀ i s o s', Inv s → Needs i o s → M.effects.cut i s o s' →
    Inv s' ∧ ∀ j, j ≠ i → Rely j s s'
  env : ∀ s s', Inv s → M.env s s' → Inv s' ∧ ∀ i, Rely i s s'
  release : ∀ i s, Inv s → Inv (M.release i s) ∧ ∀ j, j ≠ i → Rely j s (M.release i s)
  crash : ∀ s s', Inv s → M.crash s s' → Inv s' ∧ Hist s s'

namespace Outline

variable {M : Machine S σ ρ α} (O : Outline M)

/-- The logic of an outline. -/
abbrev logic : Logic S σ := ⟨M.effects.exec, O.Inv, O.Rely, O.Needs⟩

/-- What an outline promises of a world. -/
structure Holds (w : World S σ ρ α) : Prop where
  inv : O.Inv w.shared
  procs : ∀ i q p, w.procs i = some (q, p) → O.logic.wp i p (O.Post i q) w.shared
  returned : ∀ x ∈ w.returned, O.Post x.1 x.2.1 x.2.2 w.shared

theorem hist_refl (s : σ) : O.Hist s s := O.rely_hist 0 s s (O.rely_refl 0 s)

theorem post_rely {i j : ℕ} {q : ρ} {a : α} {s s' : σ} (h : O.Rely j s s')
    (hp : O.Post i q a s) : O.Post i q a s' :=
  O.post_hist i q a s s' (O.rely_hist j s s' h) hp

theorem wp_rely {i : ℕ} {q : ρ} {p : Prog S α} {s s' : σ} (h : O.Rely i s s')
    (hp : O.logic.wp i p (O.Post i q) s) : O.logic.wp i p (O.Post i q) s' :=
  Logic.wp_stable (O.rely_trans i) (fun a _ _ hr (hq : O.Post i q a _) => O.post_rely hr hq) h hp

/-- Moving the shared state along every other program's rely keeps the outline, once program
    `i` is accounted for. -/
theorem Holds.move {w w' : World S σ ρ α} (h : O.Holds w) (i : ℕ)
    (hinv : O.Inv w'.shared) (hrely : ∀ j, j ≠ i → O.Rely j w.shared w'.shared)
    (hother : ∀ j, j ≠ i → w'.procs j = w.procs j) (hret : w'.returned = w.returned)
    (hi : ∀ q p, w'.procs i = some (q, p) →
      O.logic.wp i p (O.Post i q) w'.shared) : O.Holds w' where
  inv := hinv
  procs j q p hp := by
    by_cases hj : j = i
    · subst hj; exact hi q p hp
    · exact O.wp_rely (hrely j hj) (h.procs j q p (by rw [← hother j hj]; exact hp))
  returned x hx := by
    rw [hret] at hx
    exact O.post_rely (hrely (i + 1) (Nat.succ_ne_self i)) (h.returned x hx)

/-- Dropping program `i` after its state moved to `s'`. -/
theorem Holds.drop {w : World S σ ρ α} {s' : σ} (h : O.Holds w) (i : ℕ) (hinv : O.Inv s')
    (hrely : ∀ j, j ≠ i → O.Rely j w.shared s') :
    O.Holds { w with shared := M.release i s', procs := update w.procs i none } := by
  obtain ⟨hr₁, hr₂⟩ := O.release i s' hinv
  refine h.move O i hr₁ (fun j hj => O.rely_trans j _ _ _ (hrely j hj) (hr₂ j hj))
    (fun j hj => update_of_ne hj _ _) rfl (fun q p hp => ?_)
  simp only [update_self, reduceCtorEq] at hp

/-- An operation about to be performed is allowed. -/
theorem Holds.needs {w : World S σ ρ α} (h : O.Holds w) {i : ℕ} {q : ρ} {o : S.Op}
    {k : S.Res o → Prog S α} (hp : w.procs i = some (q, .op o k)) : O.Needs i o w.shared :=
  (h.procs i q _ hp w.shared (O.rely_refl i _) h.inv).1

/-- One step keeps what the outline promises. -/
theorem Holds.step {w w' : World S σ ρ α} (h : O.Holds w) (hs : World.Step M w w') :
    O.Holds w' := by
  cases hs with
  | start hq =>
    refine h.move O w.started h.inv (fun j _ => O.rely_refl j _)
      (fun j hj => update_of_ne hj _ _) rfl (fun q p hp => ?_)
    simp only [update_self, Option.some.injEq, Prod.mk.injEq] at hp
    obtain ⟨rfl, rfl⟩ := hp
    exact O.start _ _ _ h.inv hq
  | @exec i q o k r s' hp he =>
    obtain ⟨hinv, hrely⟩ := O.exec i _ o r s' h.inv (h.needs O hp) he
    refine h.move O i hinv hrely (fun j hj => update_of_ne hj _ _) rfl (fun q' p' hp' => ?_)
    simp only [update_self, Option.some.injEq, Prod.mk.injEq] at hp'
    obtain ⟨rfl, rfl⟩ := hp'
    exact (h.procs i q _ hp _ (O.rely_refl i _) h.inv).2 r s' he hinv
  | @finish i q a hp =>
    have hpost : O.Post i q a w.shared := h.procs i q _ hp
    have hd := h.drop O i h.inv (fun j _ => O.rely_refl j _)
    obtain ⟨-, hr⟩ := O.release i w.shared h.inv
    refine ⟨hd.inv, hd.procs, fun x hx => ?_⟩
    rcases List.mem_cons.mp hx with rfl | hx
    · exact O.post_rely (hr (i + 1) (Nat.succ_ne_self i)) hpost
    · exact hd.returned x hx
  | @drop i q p hp => exact h.drop O i h.inv (fun j _ => O.rely_refl j _)
  | @cancel i q o k s' hp hc =>
    obtain ⟨hinv, hrely⟩ := O.cut i _ o s' h.inv (h.needs O hp) hc
    exact h.drop O i hinv hrely
  | env he =>
    obtain ⟨h₁, h₂⟩ := O.env _ _ h.inv he
    exact h.move O 0 h₁ (fun j _ => h₂ j) (fun _ _ => rfl) rfl
      (fun q p hp => O.wp_rely (h₂ 0) (h.procs 0 q p hp))
  | crash hc =>
    obtain ⟨h₁, h₂⟩ := O.crash _ _ h.inv hc
    exact ⟨h₁, fun i q p hp => by simp at hp,
      fun x hx => O.post_hist _ _ _ _ _ h₂ (h.returned x hx)⟩

/-- **The run rule.**  Every reachable world keeps what the outline promises. -/
theorem sound {w : World S σ ρ α} (h : World.Reachable M w) : O.Holds w :=
  h.induction (P := O.Holds)
    (fun s hs => ⟨O.init s hs, fun i q p hp => by simp [World.initial] at hp,
      fun x hx => by simp [World.initial] at hx⟩)
    (fun _ _ _ ih hs => ih.step O hs)

/-- One step moves the shared state along the history relation. -/
theorem hist_step {w w' : World S σ ρ α} (h : O.Holds w) (hs : World.Step M w w') :
    O.Hist w.shared w'.shared := by
  have hrelease : ∀ i s, O.Inv s → O.Hist s (M.release i s) := fun i s hi =>
    O.rely_hist (i + 1) _ _ ((O.release i s hi).2 _ (Nat.succ_ne_self i))
  cases hs with
  | start hq => exact O.hist_refl _
  | @exec i q o k r s' hp he =>
    exact O.rely_hist _ _ _ ((O.exec i _ o r s' h.inv (h.needs O hp) he).2 _ (Nat.succ_ne_self i))
  | @finish i q a hp => exact hrelease i _ h.inv
  | @drop i q p hp => exact hrelease i _ h.inv
  | @cancel i q o k s' hp hc =>
    obtain ⟨hinv, hrely⟩ := O.cut i _ o s' h.inv (h.needs O hp) hc
    exact O.hist_trans _ _ _ (O.rely_hist _ _ _ (hrely _ (Nat.succ_ne_self i))) (hrelease i s' hinv)
  | env he => exact O.rely_hist 0 _ _ ((O.env _ _ h.inv he).2 0)
  | crash hc => exact (O.crash _ _ h.inv hc).2

/-- Any number of steps move the shared state along the history relation. -/
theorem hist_steps {w w' : World S σ ρ α} (h : World.Reachable M w) (hs : World.Steps M w w') :
    O.Hist w.shared w'.shared := by
  induction hs with
  | refl => exact O.hist_refl _
  | tail hs hstep ih => exact O.hist_trans _ _ _ ih (O.hist_step (O.sound (h.steps hs)) hstep)

end Outline

/-! ### One program with restricted answers -/

namespace Logic

/-- The logic of programs whose operations answer within `A` and are to stay within `P`, whatever
    the state is. -/
def answering (A : (o : S.Op) → S.Res o → Prop) (P : S.Op → Prop) : Logic S Unit where
  exec _ _ o r _ := A o r
  Inv _ := True
  Rely _ _ _ := True
  Needs _ o _ := P o

theorem answering_lasting {A : (o : S.Op) → S.Res o → Prop} {P : S.Op → Prop} :
    (answering A P).Lasting :=
  ⟨fun _ _ => trivial, fun _ _ _ _ _ _ => trivial, fun _ _ _ _ _ _ _ _ _ => trivial⟩

/-- The same under timers that may fire anywhere. -/
abbrev answeringTimers (A : (o : S.Op) → S.Res o → Prop) (P : S.Op → Prop) :
    Logic S.timers Unit := (answering A P).timers (fun _ _ _ _ => True) (fun _ s => s)

theorem answeringTimers_lasting {A : (o : S.Op) → S.Res o → Prop} {P : S.Op → Prop} :
    (answeringTimers A P).Lasting :=
  ⟨fun _ _ => trivial, fun _ _ _ _ _ _ => trivial, fun _ _ _ _ _ _ _ _ _ => trivial⟩

variable {L : Logic S Unit} {i : ℕ}

/-- What is left of such a program after answers it allows for. -/
theorem wp_reaches (hL : L.Lasting) (hinv : L.Inv ()) {p q : Prog S α} {tr : List S.Event}
    {Q : α → Unit → Prop} (h : L.wp i p Q ()) (hr : p.Reaches tr q)
    (htr : ∀ e ∈ tr, L.exec i () e.1 e.2 ()) : L.wp i q Q () := by
  induction hr with
  | refl p => exact h
  | @op o k r tr q hr ih =>
    have he := htr ⟨o, r⟩ (by simp)
    exact ih ((h () (hL.refl i ()) hinv).2 r () he hinv) (fun e he => htr e (by simp [he]))

end Logic

/-- **The rule for one call.**  From a world where a condition `R` on the shared state restricts
    the answers to program `i` to those of `L`, and stays true, the program keeps to `L`. -/
theorem World.Steps.keeps {M : Machine S σ ρ α} {L : Logic S Unit} {Q : ρ → α → Unit → Prop}
    {R : σ → Prop} {i : ℕ} {w w' : World S σ ρ α} (hs : World.Steps M w w') (hL : L.Lasting)
    (hinv : L.Inv ()) (hi : i < w.started)
    (hret : ∀ x ∈ w.returned, x.1 = i → Q x.2.1 x.2.2 ())
    (hR : ∀ w₁ w₂, World.Steps M w w₁ → World.Step M w₁ w₂ → R w₁.shared → R w₂.shared)
    (hA : ∀ s o r s', R s → L.Needs i o () → M.effects.exec i s o r s' → L.exec i () o r ())
    (h : R w.shared) (hp : ∀ q p, w.procs i = some (q, p) → L.wp i p (Q q) ()) :
    R w'.shared ∧ (∀ q p, w'.procs i = some (q, p) → L.wp i p (Q q) ()) ∧
      ∀ x ∈ w'.returned, x.1 = i → Q x.2.1 x.2.2 () := by
  suffices hall : i < w'.started ∧ R w'.shared ∧
      (∀ q p, w'.procs i = some (q, p) → L.wp i p (Q q) ()) ∧
      ∀ x ∈ w'.returned, x.1 = i → Q x.2.1 x.2.2 () from hall.2
  induction hs with
  | refl => exact ⟨hi, h, hp, hret⟩
  | @tail w₁ w₂ hs hstep ih =>
    obtain ⟨hi₁, hR₁, hp₁, hret₁⟩ := ih
    have hR₂ := hR _ _ hs hstep hR₁
    -- a step of another program, or one that drops this one, leaves nothing to show
    have hother : ∀ j x, j ≠ i → ∀ q p, update w₁.procs j x i = some (q, p) →
        L.wp i p (Q q) () := fun j x hj q p hq =>
      hp₁ q p (by rwa [update_of_ne (Ne.symm hj)] at hq)
    have hgone : ∀ j q p, update w₁.procs j none i = some (q, p) → L.wp i p (Q q) () := by
      intro j q p hq
      by_cases hj : j = i
      · subst hj; simp at hq
      · exact hother j none hj q p hq
    cases hstep with
    | start hq => exact ⟨Nat.lt_succ_of_lt hi₁, hR₂, hother _ _ (Nat.ne_of_gt hi₁), hret₁⟩
    | @exec j q o k r s' hpj he =>
      refine ⟨hi₁, hR₂, fun q' p' hq' => ?_, hret₁⟩
      by_cases hj : j = i
      · subst hj
        simp only [update_self, Option.some.injEq, Prod.mk.injEq] at hq'
        obtain ⟨rfl, rfl⟩ := hq'
        obtain ⟨hneeds, hgo⟩ := hp₁ q _ hpj () (hL.refl _ _) hinv
        exact hgo r () (hA _ o r s' hR₁ hneeds he) hinv
      · exact hother j _ hj q' p' hq'
    | @finish j q a hpj =>
      refine ⟨hi₁, hR₂, hgone j, fun x hx hxi => ?_⟩
      rcases List.mem_cons.mp hx with rfl | hx
      · obtain rfl : j = i := hxi
        exact hp₁ q _ hpj
      · exact hret₁ x hx hxi
    | drop hpj => exact ⟨hi₁, hR₂, hgone _, hret₁⟩
    | cancel hpj hc => exact ⟨hi₁, hR₂, hgone _, hret₁⟩
    | env he => exact ⟨hi₁, hR₂, hp₁, hret₁⟩
    | crash hc => exact ⟨hi₁, hR₂, fun q p hq => by simp at hq, hret₁⟩

end Geata.Lib
