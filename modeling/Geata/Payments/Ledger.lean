import Geata.Lib.Table

namespace Geata.Payments

open Geata.Lib

/-!
# The payment ledger of a mint

`ledger.redb` records which tokens were presented, for which site and price, and whether they
have admitted a request; and the state of the mint's payouts.  `reserve` and `claim` are the two
write transactions on tokens.

* `Ledger.Extends` — what every transaction keeps: a token stays with its site and price, and
  once claimed it stays claimed.
-/

/-- The durable payout state: the last delivery, the next attempt, and a send whose outcome is
    not known. -/
structure PayoutState where
  lastPaid : ℤ := 0
  retryAt : ℤ := 0
  pending : Option String := none
  deriving DecidableEq

/-- A presented token: its site, its price, and whether it was claimed. -/
structure Payment where
  site : String
  price : UInt32
  claimed : Bool
  deriving DecidableEq

structure Ledger where
  payments : Table Payment := ∅
  payout : Option PayoutState := none

/-- What `reserve` finds. -/
inductive Reservation where
  | new
  | pending
  | claimed
  | mismatch
  deriving DecidableEq

namespace Ledger

/-- Bind a token to a site and a price, unless it is bound already. -/
def reserve (l : Ledger) (id site : String) (price : UInt32) : Reservation × Ledger :=
  match l.payments.lookup id with
  | some old =>
    if old.site ≠ site ∨ old.price ≠ price then (.mismatch, l)
    else if old.claimed then (.claimed, l)
    else (.pending, l)
  | none => (.new, { l with payments := l.payments.insert id ⟨site, price, false⟩ })

/-- Use up a reserved token. -/
def claim (l : Ledger) (id : String) : Bool × Ledger :=
  match l.payments.lookup id with
  | some ⟨site, price, false⟩ =>
    (true, { l with payments := l.payments.insert id ⟨site, price, true⟩ })
  | _ => (false, l)

/-! ### What the transactions keep -/

/-- A token keeps its site and price, and a claimed one stays claimed. -/
def Extends (l l' : Ledger) : Prop :=
  ∀ id p, l.payments.lookup id = some p → ∃ p', l'.payments.lookup id = some p' ∧
    p'.site = p.site ∧ p'.price = p.price ∧ (p.claimed = true → p'.claimed = true)

theorem Extends.refl (l : Ledger) : Extends l l := fun _ p h => ⟨p, h, rfl, rfl, id⟩

theorem Extends.trans {l₁ l₂ l₃ : Ledger} (h : Extends l₁ l₂) (h' : Extends l₂ l₃) :
    Extends l₁ l₃ := by
  intro id p hp
  obtain ⟨p₂, hp₂, hs₂, hr₂, hc₂⟩ := h id p hp
  obtain ⟨p₃, hp₃, hs₃, hr₃, hc₃⟩ := h' id p₂ hp₂
  exact ⟨p₃, hp₃, hs₃.trans hs₂, hr₃.trans hr₂, fun hc => hc₃ (hc₂ hc)⟩

variable {l : Ledger} {id site : String} {price : UInt32}

/-- What each answer of `reserve` says about the row, and that only a new row changes it. -/
theorem reserve_cases (l : Ledger) (id site : String) (price : UInt32) :
    (l.payments.lookup id = none ∧ l.reserve id site price =
      (.new, { l with payments := l.payments.insert id ⟨site, price, false⟩ })) ∨
    ∃ old, l.payments.lookup id = some old ∧
      ((old.site ≠ site ∨ old.price ≠ price) ∧ l.reserve id site price = (.mismatch, l) ∨
        old = ⟨site, price, true⟩ ∧ l.reserve id site price = (.claimed, l) ∨
        old = ⟨site, price, false⟩ ∧ l.reserve id site price = (.pending, l)) := by
  cases hl : l.payments.lookup id with
  | none => exact .inl ⟨rfl, by simp only [reserve, hl]⟩
  | some old =>
    refine .inr ⟨old, rfl, ?_⟩
    obtain ⟨osite, oprice, oclaimed⟩ := old
    simp only [reserve, hl]
    by_cases hne : osite ≠ site ∨ oprice ≠ price
    · exact .inl ⟨hne, by rw [if_pos hne]⟩
    · rw [if_neg hne]
      obtain ⟨rfl, rfl⟩ : osite = site ∧ oprice = price := by
        simpa only [not_or, not_not] using hne
      cases oclaimed <;> simp

theorem reserve_extends : Extends l (l.reserve id site price).2 := by
  rcases reserve_cases l id site price with
    ⟨hnone, he⟩ | ⟨old, -, ⟨-, he⟩ | ⟨-, he⟩ | ⟨-, he⟩⟩ <;> rw [he]
  · intro id' p hp
    have hne : id' ≠ id := by rintro rfl; rw [hnone] at hp; exact absurd hp (by simp)
    exact ⟨p, by rw [Table.lookup_insert_eq, if_neg hne]; exact hp, rfl, rfl, fun hc => hc⟩
  · exact .refl l
  · exact .refl l
  · exact .refl l

/-- A token found new or pending is afterwards bound to the given site and price. -/
theorem lookup_reserve {r : Reservation} {l' : Ledger} (h : l.reserve id site price = (r, l'))
    (hr : r = .new ∨ r = .pending) : l'.payments.lookup id = some ⟨site, price, false⟩ := by
  rcases reserve_cases l id site price with
    ⟨-, he⟩ | ⟨old, hold, ⟨-, he⟩ | ⟨-, he⟩ | ⟨rfl, he⟩⟩ <;> rw [he] at h <;>
    obtain ⟨rfl, rfl⟩ := Prod.mk.inj h
  · simp only [Table.lookup_insert_eq, if_pos]
  · exact absurd hr (by simp)
  · exact absurd hr (by simp)
  · exact hold

/-- A token bound elsewhere, or used up, is refused and stays as it is. -/
theorem reserve_refused {old : Payment} (hold : l.payments.lookup id = some old)
    (h : old.site ≠ site ∨ old.price ≠ price ∨ old.claimed = true) :
    ((l.reserve id site price).1 = .mismatch ∨ (l.reserve id site price).1 = .claimed) ∧
      (l.reserve id site price).2 = l := by
  rcases reserve_cases l id site price with
    ⟨hnone, -⟩ | ⟨old', hold', ⟨-, he⟩ | ⟨-, he⟩ | ⟨rfl, -⟩⟩
  · rw [hnone] at hold; exact absurd hold (by simp)
  · rw [he]; exact ⟨.inl rfl, rfl⟩
  · rw [he]; exact ⟨.inr rfl, rfl⟩
  · obtain rfl := Option.some.inj (hold.symm.trans hold')
    simp at h

/-- A claim takes a reserved, unclaimed token, or changes nothing. -/
theorem claim_cases (l : Ledger) (id : String) :
    (∃ p, l.payments.lookup id = some p ∧ p.claimed = false ∧ l.claim id =
      (true, { l with payments := l.payments.insert id { p with claimed := true } })) ∨
    l.claim id = (false, l) := by
  unfold claim
  split
  · rename_i site price hl
    exact .inl ⟨_, hl, rfl, rfl⟩
  · exact .inr rfl

theorem claim_extends : Extends l (l.claim id).2 := by
  rcases claim_cases l id with ⟨p, hp, -, he⟩ | he <;> rw [he]
  · intro id' p' hp'
    by_cases hid : id' = id
    · subst hid
      obtain rfl := Option.some.inj (hp.symm.trans hp')
      refine ⟨{ p with claimed := true }, ?_, rfl, rfl, fun _ => rfl⟩
      rw [Table.lookup_insert_eq, if_pos rfl]
    · exact ⟨p', by rw [Table.lookup_insert_eq, if_neg hid]; exact hp', rfl, rfl, fun hc => hc⟩
  · exact .refl l

/-- The transactions on tokens leave the payout state alone. -/
@[simp] theorem payout_reserve : (l.reserve id site price).2.payout = l.payout := by
  rcases reserve_cases l id site price with
    ⟨-, he⟩ | ⟨old, -, ⟨-, he⟩ | ⟨-, he⟩ | ⟨-, he⟩⟩ <;> rw [he]

@[simp] theorem payout_claim : (l.claim id).2.payout = l.payout := by
  rcases claim_cases l id with ⟨p, -, -, he⟩ | he <;> rw [he]

end Ledger

end Geata.Payments
