import Geata.Lib.Triple
import Geata.Service.Rules

namespace Geata.Service

open Geata.Lib Geata.Lightning Geata.Payments Function

/-!
# An association stays until its invoice is over

Only the cleanup pass changes an association, and it works on a snapshot.  It holds the cleanup
cursor from before the snapshot to its end, so no other pass changes the rows it has seen.  A pass
that is cut off leaves at most one write behind.  That write is still right when it comes, as long as
no other pass has begun.

* `Deposit.Over` — the deadline of an association has passed.
* `LightningOp.Due` — the row that a write of the pass is made for is there, and is over.
* `AssociationsKept` — every association ever stored is there as it was stored, or is over.
* `Sweeping` — a pass holds the cursor, and the rows it has not come to are as in its snapshot.
* `associations` — the proof outline, where no pass begins before a late write of another.
* `writes_step` — what one step of a run does to the tables.
-/

/-- The retention of the association's invoice has ended. -/
def Deposit.Over (X : Payments.Crates) (deposit : Deposit) (time : ℕ) : Prop :=
  ∀ invoice, X.parseInvoice deposit.invoice = some invoice → invoice.retainUntil ≤ time

theorem Deposit.Over.mono {X : Payments.Crates} {deposit : Deposit} {time time' : ℕ}
    (h : Deposit.Over X deposit time) (ht : time ≤ time') : Deposit.Over X deposit time' :=
  fun invoice hi => (h invoice hi).trans ht

section

variable {κ : Type} {X : Payments.Crates} {out : Outside} {call : ℕ} {s s' : System κ}

/-- The row that a write of the cleanup pass is made for is there, and is over. -/
def LightningOp.Due (X : Payments.Crates) (rows : Table Deposit) (time : ℕ) : LightningOp κ → Prop
  | .retireQuote key deposit => rows.lookup key = some deposit ∧ Deposit.Over X deposit time
  | .removeQuote key deposit => rows.lookup key = some deposit ∧ Deposit.Over X deposit time
  | _ => True

theorem due_of_plain {o : LightningOp κ} (h : o.cleans = false) (rows : Table Deposit) (time : ℕ) :
    o.Due X rows time := by
  cases o
  case retireQuote => exact absurd h (by simp [LightningOp.cleans])
  case removeQuote => exact absurd h (by simp [LightningOp.cleans])
  all_goals trivial

/-- A call holds the cursor, and no write of a pass before it is still to come. -/
def System.Sweeps (call : ℕ) (s : System κ) : Prop := s.cursorLock = some call ∧ s.late = []

structure AssociationsKept (X : Payments.Crates) (s : System κ) : Prop where
  inserted : ∀ key deposit, .inserted key deposit ∈ s.history →
    s.store.quotes.lookup key = some deposit ∨ Deposit.Over X deposit s.clock
  due : ∀ o ∈ s.detached, o.Due X s.store.quotes s.clock
  single : s.late.length ≤ 1
  cursor : ∀ j, s.cursorLock = some j → s.directory = some .server
  bounded : s.store.records ≤ MAX_CHALLENGE_RECORDS

/-- Time goes on, rows stay, and so do the cursor's owner and the server; no write of a pass is
    left behind. -/
structure Steady (s s' : System κ) : Prop where
  clock : s.clock ≤ s'.clock
  rows : ∀ key deposit, s.store.quotes.lookup key = some deposit →
    s'.store.quotes.lookup key = some deposit
  cursorLock : ∀ j, s.cursorLock = some j → s'.cursorLock = some j
  late : s'.late.Sublist s.late
  serving : s.directory = some .server → s'.directory = some .server

theorem Steady.refl (s : System κ) : Steady s s :=
  ⟨Nat.le_refl _, fun _ _ h => h, fun _ h => h, .refl _, fun h => h⟩

theorem Steady.trans {s₁ s₂ s₃ : System κ} (h : Steady s₁ s₂) (h' : Steady s₂ s₃) : Steady s₁ s₃ :=
  ⟨h.clock.trans h'.clock, fun k d hk => h'.rows k d (h.rows k d hk),
    fun j hj => h'.cursorLock j (h.cursorLock j hj), h'.late.trans h.late,
    fun hd => h'.serving (h.serving hd)⟩

theorem Steady.sweeps (h : Steady s s') (hs : s.Sweeps call) : s'.Sweeps call :=
  ⟨h.cursorLock call hs.1, List.sublist_nil.mp (hs.2 ▸ h.late)⟩

/-- What is due stays due. -/
theorem Steady.due {o : LightningOp κ} (h : Steady s s') (hdue : o.Due X s.store.quotes s.clock) :
    o.Due X s'.store.quotes s'.clock := by
  cases o
  case retireQuote key deposit => exact ⟨h.rows _ _ hdue.1, hdue.2.mono h.clock⟩
  case removeQuote key deposit => exact ⟨h.rows _ _ hdue.1, hdue.2.mono h.clock⟩
  all_goals trivial

/-- What a call relies on: while it sweeps, nobody else changes a row. -/
structure SweepRely (call : ℕ) (s s' : System κ) : Prop where
  clock : s.clock ≤ s'.clock
  serving : s.directory = some .server → s'.directory = some .server
  sweeps : s.Sweeps call → s'.Sweeps call
  rows : s.Sweeps call → ∀ key deposit, s.store.quotes.lookup key = some deposit →
    s'.store.quotes.lookup key = some deposit

theorem Steady.rely (h : Steady s s') (call : ℕ) : SweepRely call s s' :=
  ⟨h.clock, h.serving, h.sweeps, fun _ => h.rows⟩

theorem SweepRely.refl (call : ℕ) (s : System κ) : SweepRely call s s := (Steady.refl s).rely call

theorem SweepRely.trans {s₁ s₂ s₃ : System κ} (h : SweepRely call s₁ s₂)
    (h' : SweepRely call s₂ s₃) : SweepRely call s₁ s₃ :=
  ⟨h.clock.trans h'.clock, fun hd => h'.serving (h.serving hd),
    fun hl => h'.sweeps (h.sweeps hl), fun hl k d hk => h'.rows (h.sweeps hl) k d (h.rows hl k d hk)⟩

/-! ### Operations that clean nothing -/

/-- Nothing but rows, inserted where there were none, was added. -/
structure Adds (s s' : System κ) : Prop where
  steady : Steady s s'
  inserted : ∀ key deposit, .inserted key deposit ∈ s'.history →
    .inserted key deposit ∈ s.history ∨ s'.store.quotes.lookup key = some deposit
  detached : ∀ o ∈ s'.detached, o ∈ s.detached ∨ o.cleans = false
  cursor : ∀ j, s'.cursorLock = some j → s.cursorLock = some j ∨ s'.directory = some .server
  bounded : s.store.records ≤ MAX_CHALLENGE_RECORDS → s'.store.records ≤ MAX_CHALLENGE_RECORDS

theorem AssociationsKept.adds (h : AssociationsKept X s) (ha : Adds s s') :
    AssociationsKept X s' := by
  refine ⟨fun key deposit hins => ?_, fun o ho => ?_, ha.steady.late.length_le.trans h.single,
    fun j hj => ?_, ha.bounded h.bounded⟩
  · rcases ha.inserted key deposit hins with hins | hrow
    · exact (h.inserted key deposit hins).imp (ha.steady.rows key deposit)
        (fun ho => ho.mono ha.steady.clock)
    · exact .inl hrow
  · exact (ha.detached o ho).elim (fun ho => ha.steady.due (h.due o ho)) (fun ho => due_of_plain ho _ _)
  · exact (ha.cursor j hj).elim (fun hj => ha.steady.serving (h.cursor j hj)) id

/-- A step that touches neither the associations nor the cursor. -/
theorem Adds.of_eq (hclock : s.clock ≤ s'.clock) (hrows : s'.store.quotes = s.store.quotes)
    (hrecords : s.store.records ≤ MAX_CHALLENGE_RECORDS →
      s'.store.records ≤ MAX_CHALLENGE_RECORDS)
    (hlock : s'.cursorLock = s.cursorLock) (hdir : s'.directory = s.directory)
    (hins : ∀ key deposit, .inserted key deposit ∈ s'.history → .inserted key deposit ∈ s.history)
    (hdet : s'.detached.Sublist s.detached) : Adds s s' :=
  ⟨⟨hclock, by rw [hrows]; exact fun _ _ h => h, by rw [hlock]; exact fun _ h => h, hdet.filter _,
      by rw [hdir]; exact id⟩,
    fun key deposit h => .inl (hins key deposit h), fun o ho => .inl (hdet.subset ho),
    fun j hj => .inl (by rw [← hlock]; exact hj), hrecords⟩

theorem adds_commit {o : LightningOp κ} (ho : o.cleans = false) : Adds s (s.commit o) := by
  cases o
  case insertQuote key deposit =>
    simp only [System.commit]
    split
    · rename_i store hstore
      obtain ⟨hnone, rfl⟩ := Store.insertQuote_ok hstore
      refine ⟨⟨Nat.le_refl _, fun k d hk => ?_, fun _ h => h, .refl _, fun h => h⟩, fun k d hins => ?_,
        fun o ho => .inl ho, fun j hj => .inl hj, fun _ => Store.records_insertQuote hstore⟩
      · have hne : k ≠ key := by rintro rfl; rw [hnone] at hk; exact absurd hk (by simp)
        simp only [Table.lookup_insert_eq, if_neg hne]
        exact hk
      · rcases List.mem_cons.mp hins with heq | hins
        · obtain ⟨rfl, rfl⟩ := Happening.inserted.inj heq
          exact .inr (by simp only [Table.lookup_insert_eq, if_pos])
        · exact .inl hins
    · exact .of_eq (Nat.le_refl _) rfl (fun h => h) rfl rfl (fun _ _ h => h) (.refl _)
  case insertRoot key record =>
    simp only [System.commit]
    split
    · rename_i store hstore
      have hrec := Store.records_insertRoot hstore
      obtain ⟨-, rfl⟩ := Store.insertRoot_ok hstore
      exact .of_eq (Nat.le_refl _) rfl (fun _ => hrec) rfl rfl
        (fun _ _ h => (List.mem_cons.mp h).elim (fun heq => by cases heq) id) (.refl _)
    · exact .of_eq (Nat.le_refl _) rfl (fun h => h) rfl rfl (fun _ _ h => h) (.refl _)
  case claim key retainUntil =>
    simp only [System.commit]
    split
    · rename_i claimed store hstore
      obtain ⟨-, ⟨-, rfl, -⟩ | ⟨-, -, rfl⟩⟩ := Store.claim_ok_iff.mp hstore <;>
        exact .of_eq (Nat.le_refl _) rfl (fun h => h) rfl rfl (fun _ _ h => h) (.refl _)
    · exact .of_eq (Nat.le_refl _) rfl (fun h => h) rfl rfl (fun _ _ h => h) (.refl _)
  case insertMint mint =>
    exact .of_eq (Nat.le_refl _) rfl (fun h => h) rfl rfl
      (fun _ _ h => (List.mem_cons.mp h).elim (fun heq => by cases heq) id) (.refl _)
  case retireQuote => exact absurd ho (by simp [LightningOp.cleans])
  case removeQuote => exact absurd ho (by simp [LightningOp.cleans])
  case database | prune =>
    exact .of_eq (Nat.le_refl _) rfl (fun h => (Store.records_prune_le _ _).trans h) rfl rfl
      (fun _ _ h => h) (.refl _)
  all_goals exact .of_eq (Nat.le_refl _) rfl (fun h => h) rfl rfl (fun _ _ h => h) (.refl _)

theorem Adds.refl (s : System κ) : Adds s s :=
  .of_eq (Nat.le_refl _) rfl (fun h => h) rfl rfl (fun _ _ h => h) (.refl _)

/-- What an operation needs: to clean, the cursor and a row that is over; to take the cursor, a
    server. -/
def sweepNeeds (X : Payments.Crates) (call : ℕ) : BaseOp κ → System κ → Prop
  | .lightning o, s =>
      (o.cleans = true → s.Sweeps call ∧ o.Due X s.store.quotes s.clock) ∧
        (o = .tryCursor → s.directory = some .server)
  | _, _ => True

theorem adds_succeed {o : LightningOp κ} {r : o.Answer} (ho : o.cleans = false)
    (hn : sweepNeeds X call (.lightning o) s) (h : s.succeed X out call o r s') : Adds s s' := by
  cases o
  case database =>
    obtain rfl := (h : s' = _)
    split
    · exact .refl s
    · exact .of_eq (Nat.le_refl _) rfl (fun h => (Store.records_prune_le _ _).trans h) rfl rfl
        (fun _ _ h => h) (.refl _)
  case claim key retainUntil =>
    obtain ⟨store, hstore, rfl⟩ := h
    have hq : store.quotes = s.store.quotes := by
      obtain ⟨-, ⟨-, rfl, -⟩ | ⟨-, -, rfl⟩⟩ := Store.claim_ok_iff.mp hstore <;> rfl
    have hrec : s.store.records ≤ MAX_CHALLENGE_RECORDS → store.records ≤ MAX_CHALLENGE_RECORDS := by
      obtain ⟨-, ⟨-, rfl, -⟩ | ⟨-, -, rfl⟩⟩ := Store.claim_ok_iff.mp hstore <;> exact id
    refine .of_eq (Nat.le_refl _) hq hrec rfl rfl (fun key deposit hins => ?_) (.refl _)
    cases r with
    | true => exact (List.mem_cons.mp hins).elim (fun heq => by cases heq) id
    | false => exact hins
  case tryCursor =>
    obtain ⟨hfree, -, -, rfl⟩ := h
    refine ⟨⟨Nat.le_refl _, fun _ _ h => h, fun j hj => ?_, .refl _, fun h => h⟩, fun _ _ h => .inl h,
      fun _ h => .inl h, fun _ _ => .inr (hn.2 rfl), id⟩
    rw [hfree] at hj
    exact absurd hj (by simp)
  case insertQuote key deposit => obtain ⟨-, rfl⟩ := h; exact adds_commit rfl
  case insertRoot key record => obtain ⟨-, rfl⟩ := h; exact adds_commit rfl
  case insertMint mint => obtain rfl := (h : s' = _); exact adds_commit rfl
  case prune => obtain rfl := (h : s' = _); exact adds_commit rfl
  case requestInvoice node amount hash =>
    obtain ⟨-, rfl⟩ := h
    exact .of_eq (Nat.le_refl _) rfl (fun h => h) rfl rfl
      (fun _ _ h => (List.mem_cons.mp h).elim (fun heq => by cases heq) id) (.refl _)
  case setCursor key =>
    obtain rfl := (h : s' = _)
    exact .of_eq (Nat.le_refl _) rfl (fun h => h) rfl rfl (fun _ _ h => h) (.refl _)
  case retireQuote => exact absurd ho (by simp [LightningOp.cleans])
  case removeQuote => exact absurd ho (by simp [LightningOp.cleans])
  all_goals
    first
      | (obtain rfl := (h : s' = _); exact .refl _)
      | (obtain ⟨-, rfl⟩ := h; exact .refl _)

theorem adds_setWallet {mint : String} {w : Wallet} {notes : List Note} :
    Adds s (s.setWallet mint w notes) := by
  refine .of_eq (Nat.le_refl _) rfl (fun h => h) rfl rfl (fun key deposit hins => ?_) (.refl _)
  rcases List.mem_append.mp hins with hins | hins
  · obtain ⟨note, -, hnote⟩ := List.mem_map.mp hins
    exact absurd hnote (by simp)
  · exact hins

/-- An operation that cleans nothing only adds. -/
theorem adds_exec {o : BaseOp κ} {r : (BaseSig κ).Res o}
    (ho : ∀ o', o = .lightning o' → o'.cleans = false) (hn : sweepNeeds X call o s)
    (he : (System.effects X out).exec call s o r s') : Adds s s' := by
  cases o with
  | lightning o =>
    cases r with
    | some r => exact adds_succeed (ho o rfl) hn he
    | none =>
      rcases he with rfl | rfl
      · exact .refl _
      · exact adds_commit (ho o rfl)
  | wallet mint o => obtain ⟨w, notes, -, rfl⟩ := he; exact adds_setWallet
  | lockDirectory mint =>
    cases r with
    | false => obtain ⟨-, rfl⟩ := he; exact .refl _
    | true =>
      obtain ⟨hd, rfl⟩ := he
      refine ⟨⟨Nat.le_refl _, fun _ _ h => h, fun _ h => h, .refl _, fun h => ?_⟩, fun _ _ h => .inl h,
        fun _ h => .inl h, fun _ h => .inl h, id⟩
      rw [hd] at h
      exact absurd h (by simp)

theorem adds_cut {o : BaseOp κ} (ho : ∀ o', o = .lightning o' → o'.cleans = false)
    (hc : (System.effects X out).cut call s o s') : Adds s s' := by
  cases o with
  | lightning o =>
    rcases hc with rfl | rfl | rfl
    · exact .refl _
    · exact adds_commit (ho o rfl)
    · have hlate : System.late { s with detached := o :: s.detached } = s.late :=
        List.filter_cons_of_neg (by simp [ho o rfl])
      refine ⟨⟨Nat.le_refl _, fun _ _ h => h, fun _ h => h, by rw [hlate], fun h => h⟩,
        fun _ _ h => .inl h, fun o' ho' => ?_, fun _ h => .inl h, id⟩
      rcases List.mem_cons.mp ho' with rfl | ho'
      · exact .inr (ho o' rfl)
      · exact .inl ho'
  | wallet mint o => obtain ⟨w, notes, -, rfl⟩ := hc; exact adds_setWallet
  | lockDirectory mint => obtain rfl : s' = s := hc; exact .refl _

theorem adds_leave (s : System κ) (call : ℕ) : Adds s (s.leave call) :=
  .of_eq (Nat.le_refl _) rfl (fun h => h) rfl rfl (fun _ _ h => h) (.refl _)

theorem Adds.trans {s₁ s₂ s₃ : System κ} (h : Adds s₁ s₂) (h' : Adds s₂ s₃) : Adds s₁ s₃ := by
  refine ⟨h.steady.trans h'.steady, fun key deposit hins => ?_, fun o ho => ?_, fun j hj => ?_,
    fun hb => h'.bounded (h.bounded hb)⟩
  · rcases h'.inserted key deposit hins with hins | hrow
    · exact (h.inserted key deposit hins).imp_right (h'.steady.rows key deposit)
    · exact .inr hrow
  · exact (h'.detached o ho).elim (h.detached o) .inr
  · exact (h'.cursor j hj).elim (fun hj => (h.cursor j hj).imp_right h'.steady.serving) .inr

/-! ### Every operation keeps the associations -/

/-- A write of the cleanup pass changes one row, which is over; afterwards no other is to come. -/
theorem AssociationsKept.clean (h : AssociationsKept X s) {key : String} {rows : Table Deposit}
    {e : Happening κ} {row : Deposit} {detached : List (LightningOp κ)}
    (hrow : s.store.quotes.lookup key = some row) (hover : Deposit.Over X row s.clock)
    (hrows : ∀ k, k ≠ key → rows.lookup k = s.store.quotes.lookup k)
    (he : ∀ k d, e ≠ .inserted k d)
    (hrecords : Store.records { s.store with quotes := rows } ≤ s.store.records)
    (hlate : detached.filter LightningOp.cleans = []) :
    AssociationsKept X { s with
      store := { s.store with quotes := rows }
      history := e :: s.history
      detached := detached } := by
  have hplain : ∀ o ∈ detached, o.cleans = false := fun o ho => by
    simpa using List.filter_eq_nil_iff.mp hlate o ho
  refine ⟨fun k deposit hins => ?_, fun o ho => due_of_plain (hplain o ho) _ _,
    by rw [System.late, hlate]; exact Nat.zero_le _, h.cursor, hrecords.trans h.bounded⟩
  have hins : .inserted k deposit ∈ s.history :=
    (List.mem_cons.mp hins).elim (fun heq => absurd heq.symm (he k deposit)) id
  by_cases hk : k = key
  · subst hk
    refine .inr ((h.inserted k deposit hins).elim (fun hd => ?_) id)
    rw [← Option.some.inj (hrow.symm.trans hd)]
    exact hover
  · refine (h.inserted k deposit hins).imp_left (fun hrow => ?_)
    show rows.lookup k = _
    rw [hrows k hk]
    exact hrow

theorem kept_commit_clean (h : AssociationsKept X s) {o : LightningOp κ} (ho : o.cleans = true)
    (hdue : o.Due X s.store.quotes s.clock) {detached : List (LightningOp κ)}
    (hlate : detached.filter LightningOp.cleans = []) :
    AssociationsKept X { s.commit o with detached := detached } := by
  cases o
  case retireQuote key deposit =>
    exact h.clean hdue.1 hdue.2 (fun k hk => by rw [Table.lookup_insert_eq, if_neg hk])
      (fun k d heq => by cases heq) (Nat.le_of_eq (Store.records_retireQuote hdue.1)) hlate
  case removeQuote key deposit =>
    exact h.clean hdue.1 hdue.2 (fun k hk => by rw [Table.lookup_erase_eq, if_neg hk])
      (fun k d heq => by cases heq) (Store.records_removeQuote_le _ _) hlate
  all_goals exact absurd ho (by simp [LightningOp.cleans])

/-- A call that does not sweep cannot see what a pass cleans, or leaves behind. -/
theorem rely_of_not_sweeps {j : ℕ} (hj : ¬ s.Sweeps j) (hclock : s.clock ≤ s'.clock)
    (hdir : s.directory = some .server → s'.directory = some .server) : SweepRely j s s' :=
  ⟨hclock, hdir, fun h => absurd h hj, fun h => absurd h hj⟩

theorem not_sweeps_of_ne (h : s.Sweeps call) {j : ℕ} (hj : j ≠ call) : ¬ s.Sweeps j :=
  fun hs => hj (Option.some.inj (hs.1.symm.trans h.1))

/-- A write of the pass that does not fail is made as it is. -/
theorem succeed_of_cleans {o : LightningOp κ} {r : o.Answer} (ho : o.cleans = true)
    (h : s.succeed X out call o r s') : s' = s.commit o := by
  cases o
  case retireQuote => exact h
  case removeQuote => exact h
  all_goals exact absurd ho (by simp [LightningOp.cleans])

namespace AssociationsKept

/-- A write of the pass that holds the cursor. -/
theorem commit (h : AssociationsKept X s) {o : LightningOp κ} (ho : o.cleans = true)
    (hn : s.Sweeps call ∧ o.Due X s.store.quotes s.clock) :
    AssociationsKept X (s.commit o) ∧ ∀ j, j ≠ call → SweepRely j s (s.commit o) := by
  refine ⟨?_, fun j hj => rely_of_not_sweeps (not_sweeps_of_ne hn.1 hj) (System.commit_clock s o).ge
    (System.commit_directory s o).trans⟩
  have hkept := kept_commit_clean h ho hn.2 hn.1.2
  rw [← System.commit_detached s o] at hkept
  exact hkept

theorem exec (h : AssociationsKept X s) {o : BaseOp κ} (hn : sweepNeeds X call o s)
    {r : (BaseSig κ).Res o} (he : (System.effects X out).exec call s o r s') :
    AssociationsKept X s' ∧ ∀ j, j ≠ call → SweepRely j s s' := by
  by_cases hclean : ∃ o', o = .lightning o' ∧ o'.cleans = true
  · obtain ⟨o, rfl, ho⟩ := hclean
    have hs : s' = s ∨ s' = s.commit o := by
      cases r with
      | none => exact he
      | some r => exact .inr (succeed_of_cleans ho he)
    rcases hs with rfl | rfl
    · exact ⟨h, fun j _ => .refl j _⟩
    · exact h.commit ho (hn.1 ho)
  · have hadds := adds_exec (fun o' ho' => by
      cases hc : o'.cleans with
      | false => rfl
      | true => exact absurd ⟨o', ho', hc⟩ hclean) hn he
    exact ⟨h.adds hadds, fun j _ => hadds.steady.rely j⟩

/-- A pass that is cut off during a write may leave it behind. -/
theorem cut (h : AssociationsKept X s) {o : BaseOp κ} (hn : sweepNeeds X call o s)
    (hc : (System.effects X out).cut call s o s') :
    AssociationsKept X s' ∧ ∀ j, j ≠ call → SweepRely j s s' := by
  by_cases hclean : ∃ o', o = .lightning o' ∧ o'.cleans = true
  · obtain ⟨o, rfl, ho⟩ := hclean
    obtain ⟨hsweeps, hdue⟩ := hn.1 ho
    rcases hc with rfl | rfl | rfl
    · exact ⟨h, fun j _ => .refl j _⟩
    · exact h.commit ho ⟨hsweeps, hdue⟩
    · have hlate : System.late { s with detached := o :: s.detached } = [o] := by
        rw [System.late, List.filter_cons_of_pos ho]
        exact congrArg (o :: ·) hsweeps.2
      refine ⟨⟨h.inserted, fun o' ho' => ?_, by rw [hlate]; exact Nat.le_refl _, h.cursor, h.bounded⟩,
        fun j hj => rely_of_not_sweeps (not_sweeps_of_ne hsweeps hj) (Nat.le_refl _) id⟩
      rcases List.mem_cons.mp ho' with rfl | ho'
      · exact hdue
      · exact h.due o' ho'
  · have hadds := adds_cut (fun o' ho' => by
      cases hc : o'.cleans with
      | false => rfl
      | true => exact absurd ⟨o', ho', hc⟩ hclean) hc
    exact ⟨h.adds hadds, fun j _ => hadds.steady.rely j⟩

theorem exit (h : AssociationsKept X s) : AssociationsKept X s.exit :=
  ⟨h.inserted, fun _ ho => absurd ho List.not_mem_nil, Nat.zero_le _,
    fun _ hj => absurd hj (by simp [System.exit]), h.bounded⟩

theorem release (h : AssociationsKept X s) (call : ℕ) :
    AssociationsKept X (s.release call) ∧ ∀ j, j ≠ call → SweepRely j s (s.release call) := by
  unfold System.release
  split
  · rename_i hd
    -- a command's process runs no pass
    have hfree : ∀ j, s.cursorLock ≠ some j := by
      intro j hj
      rw [h.cursor j hj] at hd
      exact absurd hd (by simp)
    refine ⟨h.exit, fun j _ => ⟨Nat.le_refl _, fun hs => ?_, fun hj => absurd hj.1 (hfree j),
      fun hj => absurd hj.1 (hfree j)⟩⟩
    rw [hd] at hs
    exact absurd hs (by simp)
  · refine ⟨⟨h.inserted, h.due, h.single, fun j hj => ?_, h.bounded⟩, fun j hj => ⟨Nat.le_refl _,
      fun hs => hs, fun hl => ⟨?_, hl.2⟩, fun _ _ _ hrow => hrow⟩⟩
    · simp only at hj
      split at hj
      · exact absurd hj (by simp)
      · exact h.cursor j hj
    · simp only
      rw [if_neg (by rw [hl.1]; exact fun heq => hj (Option.some.inj heq))]
      exact hl.1

/-- A late write is the only one, and no pass sweeps before it has come. -/
theorem transaction [DecidableEq κ] (h : AssociationsKept X s) {o : LightningOp κ}
    (ho : o ∈ s.detached) :
    AssociationsKept X { s.commit o with detached := s.detached.erase o } ∧
      ∀ j, SweepRely j s { s.commit o with detached := s.detached.erase o } := by
  cases hclean : o.cleans with
  | false =>
    have hadds : Adds s { s.commit o with detached := s.detached.erase o } :=
      (adds_commit hclean).trans (.of_eq (Nat.le_refl _) rfl (fun h => h) rfl rfl (fun _ _ h => h)
        (by rw [System.commit_detached]; exact List.erase_sublist))
    exact ⟨h.adds hadds, fun j => hadds.steady.rely j⟩
  | true =>
    have hperm : s.late.Perm (o :: (s.detached.erase o).filter LightningOp.cleans) := by
      rw [← List.filter_cons_of_pos hclean]
      exact (List.perm_cons_erase ho).filter _
    have hlate : (s.detached.erase o).filter LightningOp.cleans = [] := by
      have hsingle := h.single
      rw [hperm.length_eq, List.length_cons] at hsingle
      exact List.length_eq_zero_iff.mp (by omega)
    refine ⟨kept_commit_clean h hclean (h.due o ho) hlate, fun j => rely_of_not_sweeps (fun hs => ?_)
      (System.commit_clock s o).ge (System.commit_directory s o).trans⟩
    rw [hs.2] at hperm
    exact absurd hperm.length_eq (by simp)

theorem env [DecidableEq κ] (h : AssociationsKept X s) (he : System.Env s s') :
    AssociationsKept X s' ∧ ∀ j, SweepRely j s s' := by
  have hof : ∀ {s' : System κ}, Adds s s' → AssociationsKept X s' ∧ ∀ j, SweepRely j s s' :=
    fun hadds => ⟨h.adds hadds, fun j => hadds.steady.rely j⟩
  cases he with
  | tick hle _ => exact hof (.of_eq hle rfl (fun h => h) rfl rfl (fun _ _ h => h) (.refl _))
  | transaction ho => exact h.transaction ho
  | ledger hs => exact hof adds_setWallet
  | serve hd =>
    exact hof ⟨⟨Nat.le_refl _, fun _ _ h => h, fun _ h => h, .refl _, fun _ => rfl⟩,
      fun _ _ h => .inl h, fun _ h => .inl h, fun _ h => .inl h, id⟩

end AssociationsKept

/-! ### The cleanup pass -/

def sweepLogic (X : Payments.Crates) (out : Outside) : Logic (BaseSig κ) (System κ) where
  exec := (System.effects X out).exec
  Inv := AssociationsKept X
  Rely := SweepRely
  Needs := sweepNeeds X

abbrev sweepTimers (X : Payments.Crates) (out : Outside) : Logic (ServiceSig κ) (System κ) :=
  (sweepLogic X out).timers (System.effects X out).cut System.leave

/-- Operations outside a cleanup pass. -/
def Plain (o : (ServiceSig κ).Op) : Prop := ∀ o', o.base = .lightning o' → o'.sweeps = false

theorem cleans_of_sweeps {o : LightningOp κ} (h : o.sweeps = false) : o.cleans = false := by
  cases o <;> first | rfl | exact h

/-- Outside a pass nothing is needed. -/
theorem needs_plain {o : LightningOp κ} (ho : o.sweeps = false) {s : System κ} :
    sweepNeeds X call (.lightning o) s := by
  refine ⟨fun hclean => ?_, fun heq => ?_⟩
  · rw [cleans_of_sweeps ho] at hclean
    exact absurd hclean (by simp)
  · rw [heq] at ho
    exact absurd ho (by simp [LightningOp.sweeps])

theorem plain_needs (out : Outside) (call : ℕ) {o : (ServiceSig κ).Op} (h : Plain o) (s : System κ) :
    (sweepTimers X out).Needs call o s := by
  have hbase : ∀ b : BaseOp κ, (∀ o', b = .lightning o' → o'.sweeps = false) →
      sweepNeeds X call b s := by
    intro b hb
    cases b with
    | lightning o => exact needs_plain (hb o rfl)
    | _ => trivial
  cases o with
  | plain o => exact hbase o h
  | timed o => exact hbase o h

/-- Under a timer or not, such an operation is steady. -/
theorem plain_steady {o : (ServiceSig κ).Op} (h : Plain o) {r : (ServiceSig κ).Res o}
    (he : (sweepTimers X out).exec call s o r s') : Steady s s' := by
  have hclean : ∀ o', o.base = .lightning o' → o'.cleans = false := fun o' ho =>
    cleans_of_sweeps (h o' ho)
  have hneeds := plain_needs (X := X) out call h s
  cases o with
  | plain o => exact (adds_exec (X := X) hclean hneeds he).steady
  | timed o =>
    cases r with
    | some r => exact (adds_exec (X := X) (r := r) hclean hneeds he).steady
    | none =>
      obtain ⟨s₁, hc, rfl⟩ := he
      have hc : (System.effects X out).cut call s o s₁ := hc
      exact (adds_cut hclean hc).steady.trans (adds_leave s₁ call).steady

variable {ε α : Type} {P : System κ → Prop}

/-- Plain stages keep what steady steps keep. -/
theorem triple_plain (hP : ∀ s s', Steady s s' → P s → P s')
    (hstable : (sweepTimers (κ := κ) X out).Stable call P) {t : Stage (ServiceSig κ) ε α}
    (ht : t.All Plain) : Stage.Triple (sweepTimers X out) call P t (fun _ => P) :=
  Stage.triple_keep hstable (Prog.All.mono ht (fun _ ho s _ hs =>
    ⟨plain_needs out call ho s, fun _ s' he => hP s s' (plain_steady ho he) hs⟩))

/-- A pass sweeps, it is `time` or later, and the given rows are as in its snapshot. -/
structure Sweeping (call time : ℕ) (rows : List (String × Deposit)) (s : System κ) : Prop where
  sweeps : s.Sweeps call
  time : time ≤ s.clock
  rows : ∀ row ∈ rows, s.store.quotes.lookup row.1 = some row.2

variable {time : ℕ} {rows : List (String × Deposit)}

theorem Sweeping.steady (h : Sweeping call time rows s) (hs : Steady s s') :
    Sweeping call time rows s' :=
  ⟨hs.sweeps h.sweeps, h.time.trans hs.clock, fun row hr => hs.rows _ _ (h.rows row hr)⟩

theorem Sweeping.stable :
    (sweepTimers (κ := κ) X out).Stable call (Sweeping call time rows) := fun _ _ hs h =>
  ⟨hs.sweeps h.sweeps, h.time.trans hs.clock, fun row hr => hs.rows h.sweeps _ _ (h.rows row hr)⟩

theorem Sweeping.rest {row : String × Deposit} (h : Sweeping call time (row :: rows) s) :
    Sweeping call time rows s :=
  ⟨h.sweeps, h.time, fun row hr => h.rows row (List.mem_cons_of_mem _ hr)⟩

/-- An association as `retireDeposit` leaves it. -/
def marked (deposit : Deposit) (retired : Bool) : Deposit :=
  if retired then { deposit with retired := true } else deposit

variable {key : String} {deposit : Deposit}

theorem marked_true (h : deposit.retired = true) : marked deposit true = deposit := by
  cases deposit
  cases h
  rfl

/-- Marking the row in work as retired. -/
theorem triple_retireQuote {e : ε} (hover : Deposit.Over X deposit time)
    (hkey : ∀ row ∈ rows, row.1 ≠ key) :
    Stage.Triple (sweepTimers (κ := κ) X out) call (Sweeping call time ((key, deposit) :: rows))
      (perform e (.retireQuote key deposit))
      (fun _ => Sweeping call time ((key, marked deposit true) :: rows)) := by
  refine triple_service_perform Sweeping.stable (fun s _ hs => ?_) (fun _ s s' _ hsweep he _ => ?_)
  · exact ⟨fun _ => ⟨hs.sweeps, hs.rows (key, deposit) (by simp), hover.mono hs.time⟩,
      fun heq => by cases heq⟩
  obtain rfl := (he : s' = _)
  refine ⟨hsweep.sweeps, hsweep.time, fun row hr => ?_⟩
  show (s.store.quotes.insert key { deposit with retired := true }).lookup row.1 = _
  rw [Table.lookup_insert_eq]
  rcases List.mem_cons.mp hr with rfl | hr
  · exact if_pos rfl
  · rw [if_neg (hkey row hr)]
    exact hsweep.rows row (List.mem_cons_of_mem _ hr)

/-- Removing the row in work. -/
theorem triple_removeQuote {e : ε} (hover : Deposit.Over X deposit time)
    (hkey : ∀ row ∈ rows, row.1 ≠ key) :
    Stage.Triple (sweepTimers (κ := κ) X out) call (Sweeping call time ((key, deposit) :: rows))
      (perform e (.removeQuote key deposit)) (fun _ => Sweeping call time rows) := by
  refine triple_service_perform Sweeping.stable (fun s _ hs => ?_) (fun _ s s' _ hsweep he _ => ?_)
  · exact ⟨fun _ => ⟨hs.sweeps, hs.rows (key, deposit) (by simp), hover.mono hs.time⟩,
      fun heq => by cases heq⟩
  obtain rfl := (he : s' = _)
  refine ⟨hsweep.sweeps, hsweep.time, fun row hr => ?_⟩
  show (s.store.quotes.erase key).lookup row.1 = _
  rw [Table.lookup_erase_eq, if_neg (hkey row hr)]
  exact hsweep.rows row (List.mem_cons_of_mem _ hr)

end

section

variable {κ : Type} {X : Service.Crates κ} {out : Outside} {call time : ℕ} {key : String}
  {deposit : Deposit} {rows : List (String × Deposit)}

/-- Uses of a wallet are plain. -/
theorem attempt_plain {ε α : Type} {mint : String} {body : Stage WalletSig Failure α}
    (hb : body.All (WalletOp.Within .deposit)) :
    (attempt mint body : Stage (ServiceSig κ) ε (Except Failure α)).All Plain := by
  refine all_attempt (fun _ h => nomatch h) (hb.mono (fun o _ o' h => ?_))
  exact nomatch h

theorem triple_retireDeposit (hover : Deposit.Over X.payments deposit time)
    (hkey : ∀ row ∈ rows, row.1 ≠ key) :
    Stage.Triple (sweepTimers X.payments out) call (Sweeping call time ((key, deposit) :: rows))
      (retireDeposit X key deposit)
      (fun retired => Sweeping call time ((key, marked deposit retired) :: rows)) := by
  unfold retireDeposit
  split
  · rename_i hretired
    exact Stage.triple_pure (fun _ _ h => by rw [marked_true hretired]; exact h)
  · refine Stage.triple_bind (triple_plain (fun _ _ hs h => h.steady hs) Sweeping.stable
      (attempt_plain (canPruneMintDeposit_within X.payments _ _ _))) (fun answer => ?_)
    split
    · exact Stage.triple_bind (triple_retireQuote hover hkey) (fun _ =>
        Stage.triple_pure (fun _ _ h => h))
    · exact Stage.triple_pure (fun _ _ h => h)

theorem triple_removeDeposit (hover : Deposit.Over X.payments deposit time)
    (hkey : ∀ row ∈ rows, row.1 ≠ key) :
    Stage.Triple (sweepTimers X.payments out) call
      (Sweeping call time ((key, marked deposit true) :: rows))
      (removeDeposit key deposit : Stage (ServiceSig κ) Failure Unit)
      (fun _ => Sweeping call time rows) := by
  unfold removeDeposit
  refine Stage.triple_bind (triple_plain (fun _ _ hs h => h.steady hs) Sweeping.stable
    (attempt_plain (removeRetiredMintQuote_within _))) (fun answer => ?_)
  split
  · exact triple_removeQuote hover hkey
  · exact Stage.triple_pure (fun _ _ h => h.rest)

/-- One row of a pass: it is left alone, or it is over. -/
theorem triple_pruneDeposit (hkey : ∀ row ∈ rows, row.1 ≠ key) :
    Stage.Triple (sweepTimers X.payments out) call (Sweeping call time ((key, deposit) :: rows))
      (pruneDeposit X time key deposit) (fun _ => Sweeping call time rows) := by
  unfold pruneDeposit
  refine Stage.triple_bind (triple_plain (fun _ _ hs h => h.steady hs) Sweeping.stable
    (all_service_perform.mpr (fun o' ho => ?_))) (fun _ => Stage.triple_ofExcept_bind
      (fun invoice hparse => ?_))
  · obtain rfl := BaseOp.lightning.inj ho
    rfl
  have hparse : X.parseInvoice deposit.invoice = some invoice := context_eq_ok.mp hparse
  -- the deadline is not to be unfolded by the case analysis
  generalize hlast : invoice.retainUntil = last
  refine Stage.triple_ite (fun _ => Stage.triple_pure (fun _ _ h => h.rest)) (fun hlive => ?_)
  · have hover : Deposit.Over X.payments deposit time := by
      intro invoice' hinvoice'
      obtain rfl := Option.some.inj (hparse.symm.trans hinvoice')
      rw [hlast]
      exact Nat.le_of_not_lt hlive
    refine Stage.triple_bind (triple_retireDeposit hover hkey) (fun retired => ?_)
    cases retired with
    | true => exact triple_removeDeposit hover hkey
    | false => exact Stage.triple_pure (fun _ _ h => h.rest)

theorem triple_pruneDeposits (rows : List (String × Deposit)) (hnodup : (rows.map Prod.fst).Nodup) :
    Stage.Triple (sweepTimers X.payments out) call (Sweeping call time rows)
      (pruneDeposits X time rows) (fun _ _ => True) := by
  induction rows with
  | nil => exact Stage.triple_pure (fun _ _ _ => trivial)
  | cons row rest ih =>
    obtain ⟨hnot, hrest⟩ := List.nodup_cons.mp hnodup
    refine Stage.triple_bind (triple_pruneDeposit (fun row' hrow' heq => hnot ?_)) (fun _ => ih hrest)
    rw [← heq]
    exact List.mem_map_of_mem hrow'

/-- A pass works on a part of its snapshot. -/
theorem Sweeping.mono {s : System κ} {rows' : List (String × Deposit)}
    (h : Sweeping call time rows s) (hsub : ∀ row ∈ rows', row ∈ rows) :
    Sweeping call time rows' s := ⟨h.sweeps, h.time, fun row hr => h.rows row (hsub row hr)⟩

/-- The cleanup pass takes the cursor, then the snapshot, then the time. -/
theorem triple_pruneCashuDeposits (hone : ¬ out.overtakes) :
    Stage.Triple (sweepTimers X.payments out) call (fun s => s.directory = some .server)
      (pruneCashuDeposits X) (fun _ _ => True) := by
  unfold pruneCashuDeposits transact
  refine Stage.triple_bind (R := fun _ => Sweeping call 0 [])
    (triple_service_perform (fun _ _ hs => hs.serving)
      (fun _ _ hs => ⟨fun hclean => absurd hclean (by simp [LightningOp.cleans]), fun _ => hs⟩)
      (fun cursor s s' _ _ he _ => ?_)) (fun cursor => ?_)
  · obtain ⟨-, hlate, -, rfl⟩ := he
    exact ⟨⟨rfl, hlate.resolve_left hone⟩, Nat.zero_le _, fun _ hr => absurd hr List.not_mem_nil⟩
  refine Stage.triple_bind (R := fun (rows : List (String × Deposit)) s =>
    (rows.map Prod.fst).Nodup ∧ Sweeping call 0 rows s) ?_ (fun rows => ?_)
  · refine Stage.triple_bind (triple_plain (fun _ _ hs h => h.steady hs) Sweeping.stable
      (all_service_perform.mpr (fun o' ho => ?_))) (fun _ => ?_)
    · obtain rfl := BaseOp.lightning.inj ho
      rfl
    refine triple_service_perform Sweeping.stable (fun _ _ _ => needs_plain rfl)
      (fun rows s s' _ hs he _ => ?_)
    obtain ⟨rfl, rfl⟩ := he
    exact ⟨Table.nodup_rows _, hs.sweeps, hs.time, fun row hr => Table.mem_rows.mp hr⟩
  refine Stage.triple_bind (R := fun (time : ℕ) s =>
      (rows.map Prod.fst).Nodup ∧ Sweeping call time rows s)
    (triple_service_perform ?_ (fun _ _ _ => needs_plain rfl) (fun time s s' _ hs he _ => ?_))
    (fun time => ?_)
  · exact fun s s' hs h => ⟨h.1, Sweeping.stable s s' hs h.2⟩
  · obtain ⟨rfl, rfl⟩ := he
    exact ⟨hs.1, hs.2.sweeps, Nat.le_refl _, hs.2.rows⟩
  · intro s hi hs
    obtain ⟨hnodup, hsweep⟩ := hs
    refine triple_pruneDeposits _ ?_ s hi (hsweep.mono (fun row hr => ?_))
    · refine List.Nodup.sublist ((List.take_sublist _ _).map Prod.fst) ?_
      exact (resume_perm.map Prod.fst).nodup_iff.mpr hnodup
    · exact mem_resume.mp (List.mem_of_mem_take hr)

/-! ### The outline -/

theorem plain_of_within {part : Part} {o : (ServiceSig κ).Op} (h : ServiceWithin part false o) :
    Plain o := by
  intro o' ho
  have h : BaseOp.Within part false o.base := h
  rw [ho] at h
  cases hc : o'.sweeps with
  | false => rfl
  | true => exact (h.2 hc).symm

theorem triple_recoverCashuDeposits (hone : ¬ out.overtakes) :
    Stage.Triple (sweepTimers X.payments out) call (fun s => s.directory = some .server)
      (recoverCashuDeposits X) (fun _ _ => True) := by
  have hplain : ∀ {ε α : Type} {t : Stage (ServiceSig κ) ε α}, t.All DepositOp →
      Stage.Triple (sweepTimers X.payments out) call (fun s => s.directory = some .server) t
        (fun _ s => s.directory = some .server) := fun ht =>
    triple_plain (fun _ _ hs => hs.serving) (fun _ _ hs => hs.serving)
      (Prog.All.mono ht (fun _ => plain_of_within))
  unfold recoverCashuDeposits
  refine Stage.triple_bind (hplain (perform_within nofun)) (fun found => ?_)
  split
  · refine Stage.triple_bind (hplain (transact_within nofun)) (fun mints => ?_)
    exact Stage.triple_bind (hplain (recoverMints_within X mints)) (fun _ =>
      triple_pruneCashuDeposits hone)
  · exact Stage.triple_pure (fun _ _ _ => trivial)

variable [DecidableEq κ]

/-- The proof outline. -/
def associations (X : Service.Crates κ) {out : Outside} (hone : ¬ out.overtakes) :
    Outline (machine X out) where
  Inv := AssociationsKept X.payments
  Rely := SweepRely
  Needs := (sweepTimers X.payments out).Needs
  Hist _ _ := True
  Post _ _ _ _ := True
  rely_refl := SweepRely.refl
  rely_trans _ _ _ _ := SweepRely.trans
  rely_hist _ _ _ _ := trivial
  hist_trans _ _ _ _ _ := trivial
  post_hist _ _ _ _ _ _ _ := trivial
  init s hs := by
    obtain ⟨time, -, rfl⟩ := hs
    exact ⟨fun _ _ h => absurd h List.not_mem_nil, fun _ h => absurd h List.not_mem_nil,
      Nat.zero_le _, fun _ h => absurd h (by simp), Nat.zero_le _⟩
  start i s q hi hq := by
    by_cases hsweeps : q.sweeps = true
    · cases q with
      | recoverCashuDeposits =>
        refine (Logic.wp_bind _ _ _ s).mpr ?_
        exact Logic.wp_mono (triple_recoverCashuDeposits hone s hi hq) (fun _ _ _ => trivial)
      | _ => exact absurd hsweeps (by simp [Request.sweeps])
    · have hfalse : q.sweeps = false := by simpa using hsweeps
      refine Logic.wp_of_all ((code_within X q).mono (fun o ho s _ => plain_needs out i ?_ s))
      rw [hfalse] at ho
      exact plain_of_within ho
  exec i s o r s' hi hn he := by
    cases o with
    | plain o => exact AssociationsKept.exec hi hn he
    | timed o =>
      cases r with
      | some r => exact AssociationsKept.exec (r := r) hi hn he
      | none =>
        obtain ⟨s₁, hc, rfl⟩ := he
        have hc : (System.effects X.payments out).cut i s o s₁ := hc
        obtain ⟨h₁, hr₁⟩ := hi.cut hn hc
        have hleave := adds_leave s₁ i
        exact ⟨h₁.adds hleave, fun j hj => (hr₁ j hj).trans (hleave.steady.rely j)⟩
  cut i s o s' hi hn hc := by
    cases o with
    | plain o =>
      have hc : (System.effects X.payments out).cut i s o s' := hc
      exact hi.cut hn hc
    | timed o =>
      have hc : (System.effects X.payments out).cut i s o s' := hc
      exact hi.cut hn hc
  env s s' hi he := hi.env he
  release i s hi := hi.release i
  crash s s' hi hc := by
    obtain rfl : s' = s.exit := hc
    exact ⟨hi.exit, trivial⟩

/-- **An association stays until its invoice is over.** -/
theorem association_stays (hone : ¬ out.overtakes)
    {w : World (ServiceSig κ) (System κ) Request Answer} (h : World.Reachable (machine X out) w)
    {key : String} {deposit : Deposit}
    (hins : .inserted key deposit ∈ w.shared.history) :
    w.shared.store.quotes.lookup key = some deposit ∨
      Deposit.Over X.payments deposit w.shared.clock :=
  ((associations X hone).sound h).inv.inserted key deposit hins

end

/-! ### What a step writes -/

section

variable {κ : Type}

/-- The tables change by at most one transaction; one that cleans has its row, and is noted. -/
def Writes (X : Payments.Crates) (s s' : System κ) : Prop :=
  s'.store = s.store ∨ ∃ o : LightningOp κ, s'.store = (s.commit o).store ∧
    (o.cleans = true → o.Due X s.store.quotes s.clock ∧ s'.history = (s.commit o).history)

section

variable {X : Payments.Crates} {out : Outside} {call : ℕ} {s s' : System κ}

theorem writes_exec {o : BaseOp κ} (hn : sweepNeeds X call o s) {r : (BaseSig κ).Res o}
    (he : (System.effects X out).exec call s o r s') : Writes X s s' := by
  cases o with
  | lightning o =>
    cases r with
    | some r =>
      refine (System.succeed_store he).imp_right (fun hstore => ⟨o, hstore, fun ho => ?_⟩)
      exact ⟨(hn.1 ho).2, congrArg System.history (succeed_of_cleans ho he)⟩
    | none =>
      rcases he with rfl | rfl
      · exact .inl rfl
      · exact .inr ⟨o, rfl, fun ho => ⟨(hn.1 ho).2, rfl⟩⟩
  | wallet mint o => obtain ⟨w, notes, -, rfl⟩ := he; exact .inl rfl
  | lockDirectory mint =>
    cases r with
    | false => obtain ⟨-, rfl⟩ := he; exact .inl rfl
    | true => obtain ⟨-, rfl⟩ := he; exact .inl rfl

theorem writes_cut {o : BaseOp κ} (hn : sweepNeeds X call o s)
    (hc : (System.effects X out).cut call s o s') : Writes X s s' := by
  cases o with
  | lightning o =>
    rcases hc with rfl | rfl | rfl
    · exact .inl rfl
    · exact .inr ⟨o, rfl, fun ho => ⟨(hn.1 ho).2, rfl⟩⟩
    · exact .inl rfl
  | wallet mint o => obtain ⟨w, notes, -, rfl⟩ := hc; exact .inl rfl
  | lockDirectory mint => obtain rfl : s' = s := hc; exact .inl rfl

theorem writes_env [DecidableEq κ] (hk : AssociationsKept X s) (he : System.Env s s') :
    Writes X s s' := by
  cases he with
  | tick => exact .inl rfl
  | @transaction o ho => exact .inr ⟨o, rfl, fun _ => ⟨hk.due o ho, rfl⟩⟩
  | ledger => exact .inl rfl
  | serve => exact .inl rfl

theorem Writes.release (h : Writes X s s') : Writes X s (s'.release call) := by
  have hstore : (s'.release call).store = s'.store := by
    unfold System.release
    split <;> rfl
  have hhistory : (s'.release call).history = s'.history := by
    unfold System.release
    split <;> rfl
  rw [Writes, hstore, hhistory]
  exact h

end

variable [DecidableEq κ]

/-- **A step writes what is allowed.** -/
theorem writes_step {X : Service.Crates κ} {out : Outside} (hone : ¬ out.overtakes)
    {w w' : World (ServiceSig κ) (System κ) Request Answer}
    (h : World.Reachable (machine X out) w) (hs : World.Step (machine X out) w w') :
    Writes X.payments w.shared w'.shared := by
  have hholds := (associations X hone).sound h
  cases hs with
  | start => exact .inl rfl
  | @exec i q o k r s' hp he =>
    have hneeds := hholds.needs _ hp
    cases o with
    | plain o => exact writes_exec hneeds he
    | timed o =>
      cases r with
      | some r => exact writes_exec (r := r) hneeds he
      | none =>
        obtain ⟨s₁, hc, rfl⟩ := he
        have hc : (System.effects X.payments out).cut i w.shared o s₁ := hc
        have hwrites : Writes X.payments w.shared s₁ := writes_cut hneeds hc
        exact hwrites
  | finish hp => exact Writes.release (.inl rfl)
  | drop hp => exact Writes.release (.inl rfl)
  | @cancel i q o k s' hp hc =>
    have hneeds := hholds.needs _ hp
    have hwrites : Writes X.payments w.shared s' := by
      cases o with
      | plain o =>
        have hc : (System.effects X.payments out).cut i w.shared o s' := hc
        exact writes_cut hneeds hc
      | timed o =>
        have hc : (System.effects X.payments out).cut i w.shared o s' := hc
        exact writes_cut hneeds hc
    exact hwrites.release
  | env he => exact writes_env hholds.inv he
  | crash hc =>
    obtain rfl : _ = w.shared.exit := hc
    exact .inl rfl

end

end Geata.Service
