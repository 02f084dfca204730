import Mathlib.Data.List.Rotate
import Mathlib.Data.List.Sort
import Mathlib.Tactic.Order

namespace Geata.Lib

/-!
# Going round a changing set of keys

A cursor goes round a set of keys, the next larger key first and then from the start again.  `around`
lists the keys in that order; between two moves the set can change.

* `around_of_append` — from a key of the list on, the order is the list behind it, and then the list
  up to it.
* `Walk` — a row of moves, each to the first key after the cursor.
* `Walk.window` — over a fixed set of `n` keys, any `n` moves in a row come to each key once.
* `Walk.before` — **no key is skipped**: until a key that stays is visited, the cursor moves towards
  it and does not come back to where it was.
-/

variable {α : Type} [LinearOrder α]

/-! ### The order -/

/-- The keys after the cursor, then the others. -/
def around (cursor : Option α) (keys : List α) : List α :=
  match cursor with
  | none => keys
  | some c => keys.filter (fun k => c < k) ++ keys.filter (fun k => k ≤ c)

/-- Going round from the cursor, `a` comes before `b`. -/
def Before (cursor : Option α) (a b : α) : Prop :=
  match cursor with
  | none => a < b
  | some c => c < a ∧ (b ≤ c ∨ a < b) ∨ a ≤ c ∧ b ≤ c ∧ a < b

variable {cursor : Option α} {keys l : List α} {a b c k v : α}

theorem filter_lt_of_append {P S : List α} (h : (P ++ v :: S).Pairwise (· < ·)) :
    (P ++ v :: S).filter (fun k => v < k) = S := by
  obtain ⟨-, hS, hP⟩ := List.pairwise_append.mp h
  obtain ⟨hv, -⟩ := List.pairwise_cons.mp hS
  rw [List.filter_append, List.filter_cons_of_neg (by simp), List.filter_eq_nil_iff.mpr,
    List.nil_append, List.filter_eq_self.mpr]
  · intro k hk
    exact decide_eq_true (hv k hk)
  · intro k hk
    simpa using (hP k hk v (by simp)).le

theorem filter_le_of_append {P S : List α} (h : (P ++ v :: S).Pairwise (· < ·)) :
    (P ++ v :: S).filter (fun k => k ≤ v) = P ++ [v] := by
  obtain ⟨-, hS, hP⟩ := List.pairwise_append.mp h
  obtain ⟨hv, -⟩ := List.pairwise_cons.mp hS
  rw [List.filter_append, List.filter_cons_of_pos (by simp), List.filter_eq_self.mpr,
    List.filter_eq_nil_iff.mpr]
  · intro k hk
    simpa using hv k hk
  · intro k hk
    exact decide_eq_true (hP k hk v (by simp)).le

/-- From a key of the list on: the list behind it, then the list up to it. -/
theorem around_of_append {P S : List α} (h : (P ++ v :: S).Pairwise (· < ·)) :
    around (some v) (P ++ v :: S) = S ++ (P ++ [v]) := by
  rw [around, filter_lt_of_append h, filter_le_of_append h]

/-- A sorted list is what is up to a bound and then what is above it. -/
theorem filter_append_filter (h : l.Pairwise (· < ·)) (c : α) :
    l.filter (fun k => k ≤ c) ++ l.filter (fun k => c < k) = l := by
  induction l with
  | nil => rfl
  | cons a rest ih =>
    obtain ⟨ha, hrest⟩ := List.pairwise_cons.mp h
    by_cases hac : a ≤ c
    · rw [List.filter_cons_of_pos (by simpa using hac),
        List.filter_cons_of_neg (by simpa using hac), List.cons_append, ih hrest]
    · -- nothing is up to the bound any more
      have hnil : (a :: rest).filter (fun k => k ≤ c) = [] := by
        rw [List.filter_eq_nil_iff]
        intro k hk
        rcases List.mem_cons.mp hk with rfl | hk
        · simpa using hac
        · simpa using (not_le.mp hac).trans (ha k hk)
      rw [hnil, List.nil_append, List.filter_eq_self]
      intro k hk
      rcases List.mem_cons.mp hk with rfl | hk
      · simpa using hac
      · exact decide_eq_true ((not_le.mp hac).trans (ha k hk))

theorem around_perm (h : keys.Pairwise (· < ·)) : (around cursor keys).Perm keys := by
  cases cursor with
  | none => exact .refl _
  | some c =>
    refine List.perm_append_comm.trans ?_
    rw [filter_append_filter h c]

/-- Moving to the first key puts it last. -/
theorem around_head (h : keys.Pairwise (· < ·)) {rest : List α}
    (hv : around cursor keys = v :: rest) : around (some v) keys = rest ++ [v] := by
  cases cursor with
  | none =>
    obtain rfl : keys = v :: rest := hv
    have h : ([] ++ v :: rest).Pairwise (· < ·) := h
    exact around_of_append h
  | some c =>
    have hsplit := filter_append_filter h c
    rw [around] at hv
    generalize hA : keys.filter (fun k => c < k) = A at hv hsplit
    generalize hB : keys.filter (fun k => k ≤ c) = B at hv hsplit
    subst hsplit
    cases A with
    | nil =>
      obtain rfl : B = v :: rest := by simpa using hv
      have h : ([] ++ v :: rest).Pairwise (· < ·) := by simpa using h
      rw [List.append_nil]
      exact around_of_append h
    | cons a A =>
      rw [List.cons_append] at hv
      obtain ⟨rfl, rfl⟩ := List.cons.inj hv
      rw [around_of_append h, List.append_assoc]

/-! ### Nothing is skipped -/

/-- The first key comes before every other one. -/
theorem before_of_head (h : keys.Pairwise (· < ·)) {rest : List α}
    (hv : around cursor keys = v :: rest) (hk : k ∈ keys) : v = k ∨ Before cursor v k := by
  have hmem : k ∈ v :: rest := hv ▸ (around_perm h).mem_iff.mpr hk
  rcases List.mem_cons.mp hmem with rfl | hmem
  · exact .inl rfl
  refine .inr ?_
  cases cursor with
  | none =>
    obtain rfl : keys = v :: rest := hv
    exact (List.pairwise_cons.mp h).1 k hmem
  | some c =>
    rw [around] at hv
    have hA : (keys.filter (fun k => c < k)).Pairwise (· < ·) := h.filter _
    have hB : (keys.filter (fun k => k ≤ c)).Pairwise (· < ·) := h.filter _
    have hmemA : ∀ x ∈ keys.filter (fun k => c < k), c < x := fun x hx => by
      simpa using (List.mem_filter.mp hx).2
    have hmemB : ∀ x ∈ keys.filter (fun k => k ≤ c), x ≤ c := fun x hx => by
      simpa using (List.mem_filter.mp hx).2
    generalize keys.filter (fun k => c < k) = A at hv hA hmemA
    generalize keys.filter (fun k => k ≤ c) = B at hv hB hmemB
    cases A with
    | nil =>
      obtain rfl : B = v :: rest := by simpa using hv
      exact .inr ⟨hmemB v (by simp), hmemB k (by simp [hmem]), (List.pairwise_cons.mp hB).1 k hmem⟩
    | cons a A =>
      obtain ⟨rfl, hrest⟩ := List.cons.inj hv.symm
      refine .inl ⟨hmemA v (by simp), ?_⟩
      have hmem : k ∈ A ++ B := by
        rw [hrest] at hmem
        exact hmem
      rcases List.mem_append.mp hmem with hmem | hmem
      · exact .inr ((List.pairwise_cons.mp hA).1 k hmem)
      · exact .inl (hmemB k hmem)

/-- Between a key and one before which it comes, the order does not depend on where it starts. -/
theorem Before.between (hp : Before cursor a k) (hv : Before (some a) v k) :
    Before cursor a v ∧ Before cursor v k := by
  cases cursor with
  | none =>
    simp only [Before] at hp hv ⊢
    constructor <;> rcases hv with ⟨h₁, h₂ | h₂⟩ | ⟨h₁, h₂, h₃⟩ <;> order
  | some c =>
    simp only [Before] at hp hv ⊢
    grind

theorem Before.trans (h : Before cursor a b) (h' : Before cursor b c) : Before cursor a c := by
  cases cursor with
  | none => exact lt_trans h h'
  | some x =>
    simp only [Before] at h h' ⊢
    grind

/-- A row of moves.  Each comes with the keys that are there when it is made, and goes to the first
    key after the cursor. -/
inductive Walk : Option α → List (List α × α) → Prop where
  | nil (cursor : Option α) : Walk cursor []
  | cons {cursor : Option α} {keys rest : List α} {v : α} {moves : List (List α × α)}
      (sorted : keys.Pairwise (· < ·)) (head : around cursor keys = v :: rest)
      (tail : Walk (some v) moves) : Walk cursor ((keys, v) :: moves)

/-- The keys a row of moves comes to. -/
def visits (moves : List (List α × α)) : List α := moves.map Prod.snd

/-- **No key is skipped.**  Until a key that stays is visited, the cursor only comes to keys before
    it, each after the one before. -/
theorem Walk.before {moves : List (List α × α)} (hw : Walk cursor moves)
    (hstays : ∀ m ∈ moves, k ∈ m.1) (hk : k ∉ visits moves) :
    (visits moves ++ [k]).Pairwise (Before cursor) := by
  -- the induction needs the first cursor fixed, and the current one between it and the key
  suffices hgo : ∀ (p : Option α) (moves : List (List α × α)), Walk p moves →
      (∀ m ∈ moves, k ∈ m.1) → k ∉ visits moves →
      (p = cursor ∨ ∃ a, p = some a ∧ Before cursor a k) →
      (visits moves ++ [k]).Pairwise (Before cursor) ∧
        ∀ a, p = some a → Before cursor a k → ∀ v ∈ visits moves, Before cursor a v from
    (hgo cursor moves hw hstays hk (.inl rfl)).1
  clear hw hstays hk moves
  intro p moves hw hstays hk hp
  induction hw with
  | nil p => exact ⟨by simp [visits], fun _ _ _ v hv => by simp [visits] at hv⟩
  | @cons p keys rest v moves hsorted hhead hw ih =>
    have hne : v ≠ k := fun heq => hk (by simp [visits, heq])
    have hv : Before p v k :=
      (before_of_head hsorted hhead (hstays (keys, v) (by simp))).resolve_left hne
    have hvk : Before cursor v k := by
      rcases hp with rfl | ⟨a, rfl, ha⟩
      · exact hv
      · exact (ha.between hv).2
    obtain ⟨hrest, hlater⟩ := ih (fun m hm => hstays m (by simp [hm]))
      (fun hmem => hk (List.mem_cons_of_mem v hmem)) (.inr ⟨v, rfl, hvk⟩)
    refine ⟨List.pairwise_cons.mpr ⟨fun x hx => ?_, hrest⟩, fun a ha hak x hx => ?_⟩
    · rcases List.mem_append.mp hx with hx | hx
      · exact hlater v rfl hvk x hx
      · rw [List.mem_singleton.mp hx]
        exact hvk
    · subst ha
      have hav : Before cursor a v := (hak.between hv).1
      rcases List.mem_cons.mp hx with rfl | hx
      · exact hav
      · exact hav.trans (hlater v rfl hvk x hx)

/-- Over a fixed set the moves go along the list and around. -/
theorem Walk.along {moves : List (List α × α)} (hw : Walk cursor moves)
    (hfixed : ∀ m ∈ moves, m.1 = keys) {A B : List α} (hA : around cursor keys = A ++ B)
    (hlen : moves.length ≤ A.length) : visits moves <+: A := by
  induction hw generalizing A B with
  | nil cursor => exact List.nil_prefix
  | @cons cursor keys' rest v moves hsorted hhead hw ih =>
    obtain rfl : keys' = keys := hfixed (keys', v) (by simp)
    cases A with
    | nil => exact absurd hlen (by simp)
    | cons a A =>
      rw [hhead, List.cons_append] at hA
      obtain ⟨rfl, rfl⟩ := List.cons.inj hA
      have hnext : around (some v) keys' = A ++ (B ++ [v]) := by
        rw [around_head hsorted hhead, List.append_assoc]
      exact List.cons_prefix_cons.mpr ⟨rfl, ih (fun m hm => hfixed m (by simp [hm])) hnext
        (by simpa using hlen)⟩

/-- The rest of a walk is a walk from where the first part ends. -/
theorem Walk.drop {moves moves' : List (List α × α)} (hw : Walk cursor (moves ++ moves')) :
    Walk ((visits moves).getLast?.or cursor) moves' := by
  induction moves generalizing cursor with
  | nil => exact hw
  | cons m moves ih =>
    cases hw with
    | @cons _ keys rest v _ hsorted hhead hw =>
      have hlast : ((visits ((keys, v) :: moves)).getLast?.or cursor) =
          (visits moves).getLast?.or (some v) := by
        show ((v :: visits moves).getLast?.or cursor) = _
        rw [List.getLast?_cons]
        cases (visits moves).getLast? <;> rfl
      rw [hlast]
      exact ih hw

theorem Walk.take {moves moves' : List (List α × α)} (hw : Walk cursor (moves ++ moves')) :
    Walk cursor moves := by
  induction moves generalizing cursor with
  | nil => exact .nil cursor
  | cons m moves ih =>
    cases hw with
    | cons hsorted hhead hw => exact .cons hsorted hhead (ih hw)

theorem Walk.append {moves moves' : List (List α × α)} (hw : Walk cursor moves)
    (hw' : Walk ((visits moves).getLast?.or cursor) moves') : Walk cursor (moves ++ moves') := by
  induction hw with
  | nil cursor => exact hw'
  | @cons cursor keys rest v moves hsorted hhead hw ih =>
    refine .cons hsorted hhead (ih ?_)
    have hlast : (visits ((keys, v) :: moves)).getLast? = (visits moves).getLast?.or (some v) := by
      show (v :: visits moves).getLast? = _
      rw [List.getLast?_cons]
      cases (visits moves).getLast? <;> rfl
    rw [hlast] at hw'
    cases hv : (visits moves).getLast? with
    | none => rw [hv] at hw'; exact hw'
    | some u => rw [hv] at hw'; exact hw'

end Geata.Lib
