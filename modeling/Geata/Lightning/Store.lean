import Geata.Lib.Table
import Geata.Lightning.L402

namespace Geata.Lightning

open Geata.Lib

/-!
# The settlement database

`settlements.redb` has four tables: replay barriers, credential roots, the associations between
invoices and mint quotes, and the mints ever asked for a quote.  Each write transaction of the
source is one function here; a failed transaction changes nothing.
-/

/-- The association of an invoice with a private mint quote. -/
structure Deposit where
  mint : String
  quote : String
  amount : UInt64
  invoice : String
  retired : Bool := false
  deriving DecidableEq

/-- The tables.  A root record is a key and the exclusive end of its credential. -/
structure Store (κ : Type) where
  spent : Table ℕ := ∅
  roots : Table (κ × ℕ) := ∅
  quotes : Table Deposit := ∅
  mints : Table Bool := ∅

namespace Store

variable {κ : Type}

/-- Drop expired roots and replay barriers. -/
def prune (s : Store κ) (time : ℕ) : Store κ :=
  { s with
    roots := s.roots.retain (fun _ record => decide (time < record.2))
    spent := s.spent.retain (fun _ expiry => decide (time < expiry)) }

/-- Room for `needed` more challenge records. -/
def checkCapacity (s : Store κ) (needed : ℕ) : Except String Unit :=
  ensure (saturatingAdd (saturatingAdd s.roots.len s.quotes.len) needed ≤ MAX_CHALLENGE_RECORDS)
    "outstanding challenge capacity exhausted"

/-- The claim transaction: consume a replay key, unless its retention has already ended. -/
def claim (s : Store κ) (key : String) (retainUntil time : ℕ) : Except String (Bool × Store κ) :=
  do
    ensure (time < retainUntil) "settlement retention already expired"
    return match s.spent.lookup key with
      | some _ => (false, s)
      | none => (true, { s with spent := s.spent.insert key retainUntil })

/-- Store the root of a fresh credential. -/
def insertRoot (s : Store κ) (key : String) (record : κ × ℕ) : Except String (Store κ) := do
  s.checkCapacity 1
  ensure (s.roots.lookup key).isNone "duplicate credential identifier"
  return { s with roots := s.roots.insert key record }

/-- Remember a mint before asking it for a quote. -/
def insertMint (s : Store κ) (mint : String) : Store κ :=
  { s with mints := s.mints.insert mint true }

/-- Associate an invoice with its mint quote. -/
def insertQuote (s : Store κ) (key : String) (deposit : Deposit) : Except String (Store κ) := do
  s.checkCapacity 1
  ensure (s.quotes.lookup key).isNone "mint reused an invoice payment hash"
  return { s with quotes := s.quotes.insert key deposit }

/-- Write an association back, marked as retired. -/
def retireQuote (s : Store κ) (key : String) (deposit : Deposit) : Store κ :=
  { s with quotes := s.quotes.insert key { deposit with retired := true } }

/-- Remove a retired association. -/
def removeQuote (s : Store κ) (key : String) : Store κ :=
  { s with quotes := s.quotes.erase key }

/-- How many challenge records there are: roots and associations. -/
def records (s : Store κ) : ℕ := s.roots.len + s.quotes.len

/-! ### What each transaction changes -/

variable {s s' : Store κ} {key : String} {time : ℕ}

theorem checkCapacity_ok_iff {needed : ℕ} {u : Unit} :
    s.checkCapacity needed = .ok u ↔ s.records + needed ≤ MAX_CHALLENGE_RECORDS := by
  rw [checkCapacity, ensure_eq_ok, decide_eq_true_eq, saturatingAdd_assoc, saturatingAdd, records,
    Nat.add_assoc]
  have hmax : MAX_CHALLENGE_RECORDS < u64Max := by decide
  omega

theorem records_prune_le (s : Store κ) (time : ℕ) : (s.prune time).records ≤ s.records :=
  Nat.add_le_add_right (Map.len_retain_le _ _) _

theorem lookup_roots_prune {record : κ × ℕ} :
    (s.prune time).roots.lookup key = some record ↔
      s.roots.lookup key = some record ∧ time < record.2 := by
  simp [prune, Table.lookup_retain_eq_some]

theorem lookup_spent_prune {expiry : ℕ} :
    (s.prune time).spent.lookup key = some expiry ↔
      s.spent.lookup key = some expiry ∧ time < expiry := by
  simp [prune, Table.lookup_retain_eq_some]

/-- A claim either finds the key consumed and changes nothing, or consumes it; its retention lies
    ahead in both cases. -/
theorem claim_ok_iff {retainUntil : ℕ} {claimed : Bool} :
    s.claim key retainUntil time = .ok (claimed, s') ↔ time < retainUntil ∧
      (claimed = false ∧ s' = s ∧ (∃ expiry, s.spent.lookup key = some expiry) ∨
        claimed = true ∧ s.spent.lookup key = none ∧
          s' = { s with spent := s.spent.insert key retainUntil }) := by
  simp only [claim, bind_eq_ok, ensure_eq_ok, exists_const, decide_eq_true_eq, pure_eq_ok]
  refine and_congr_right (fun _ => ?_)
  cases hl : s.spent.lookup key with
  | some expiry => simp [eq_comm]
  | none => simp [eq_comm]

theorem insertRoot_ok {record : κ × ℕ} (h : s.insertRoot key record = .ok s') :
    s.roots.lookup key = none ∧ s' = { s with roots := s.roots.insert key record } := by
  simp only [insertRoot, bind_eq_ok, ensure_eq_ok, exists_const, Option.isNone_iff_eq_none,
    pure_eq_ok] at h
  obtain ⟨-, -, hnone, rfl⟩ := h
  exact ⟨hnone, rfl⟩

/-- A new record needs room. -/
theorem records_insertRoot {record : κ × ℕ} (h : s.insertRoot key record = .ok s') :
    s'.records ≤ MAX_CHALLENGE_RECORDS := by
  obtain ⟨hnone, rfl⟩ := insertRoot_ok h
  simp only [insertRoot, bind_eq_ok] at h
  obtain ⟨_, hroom, -⟩ := h
  have hroom := checkCapacity_ok_iff.mp hroom
  have hlen : Map.len (s.roots.insert key record) = Map.len s.roots + 1 :=
    Map.len_insert_of_none hnone
  simp only [records, Table.len] at hroom ⊢
  rw [hlen]
  omega

theorem insertQuote_ok {deposit : Deposit} (h : s.insertQuote key deposit = .ok s') :
    s.quotes.lookup key = none ∧ s' = { s with quotes := s.quotes.insert key deposit } := by
  simp only [insertQuote, bind_eq_ok, ensure_eq_ok, exists_const, Option.isNone_iff_eq_none,
    pure_eq_ok] at h
  obtain ⟨-, -, hnone, rfl⟩ := h
  exact ⟨hnone, rfl⟩

theorem records_insertQuote {deposit : Deposit} (h : s.insertQuote key deposit = .ok s') :
    s'.records ≤ MAX_CHALLENGE_RECORDS := by
  obtain ⟨hnone, rfl⟩ := insertQuote_ok h
  simp only [insertQuote, bind_eq_ok] at h
  obtain ⟨_, hroom, -⟩ := h
  have hroom := checkCapacity_ok_iff.mp hroom
  have hlen : Map.len (s.quotes.insert key deposit) = Map.len s.quotes + 1 :=
    Map.len_insert_of_none hnone
  simp only [records, Table.len] at hroom ⊢
  rw [hlen]
  omega

/-- Retiring writes over the row it was read from, which needs no room. -/
theorem records_retireQuote {deposit old : Deposit} (h : s.quotes.lookup key = some old) :
    (s.retireQuote key deposit).records = s.records := by
  simp only [records, retireQuote, Table.len]
  rw [Map.len_insert_of_some h]

theorem records_removeQuote_le (s : Store κ) (key : String) :
    (s.removeQuote key).records ≤ s.records :=
  Nat.add_le_add_left (Map.len_erase_le _ _) _

end Store

end Geata.Lightning
