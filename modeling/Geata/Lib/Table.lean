import Mathlib.Data.String.Basic
import Mathlib.Data.List.Rotate
import Mathlib.Data.List.Sort
import Geata.Lib.Map

namespace Geata.Lib

/-!
# Database tables

A table maps string keys to values.  Lookup, insertion and removal are those of association
lists; `retain` drops the rows a predicate rejects and `rows` lists a table in key order.  `resume`
continues a listing where an earlier one stopped.
-/

/-- A table with string keys. -/
abbrev Table (β : Type) : Type := AList (fun _ : String => β)

namespace Table

variable {β : Type}

/-- How many rows a table has. -/
abbrev len (t : Table β) : ℕ := Map.len t

/-- Keep the rows that satisfy `p`. -/
abbrev retain (p : String → β → Bool) (t : Table β) : Table β := Map.retain p t

theorem lookup_eq_some_iff {t : Table β} {k : String} {b : β} :
    t.lookup k = some b ↔ (⟨k, b⟩ : Sigma fun _ : String => β) ∈ t.entries :=
  Map.lookup_eq_some_iff

/-- A row survives `retain` exactly when it was there and satisfies the predicate. -/
theorem lookup_retain_eq_some {t : Table β} {p : String → β → Bool} {k : String} {b : β} :
    (t.retain p).lookup k = some b ↔ t.lookup k = some b ∧ p k b = true :=
  Map.lookup_retain_eq_some

theorem lookup_insert_eq {t : Table β} {k k' : String} {b : β} :
    (t.insert k b).lookup k' = if k' = k then some b else t.lookup k' := Map.lookup_insert_eq

theorem lookup_erase_eq {t : Table β} {k k' : String} :
    (t.erase k).lookup k' = if k' = k then none else t.lookup k' := Map.lookup_erase_eq

/-- The rows of a table, in key order. -/
def rows (t : Table β) : List (String × β) :=
  (t.entries.map (fun e => (e.1, e.2))).insertionSort (fun a b => a.1 ≤ b.1)

theorem mem_rows {t : Table β} {k : String} {b : β} :
    (k, b) ∈ t.rows ↔ t.lookup k = some b := by
  rw [rows, List.mem_insertionSort, lookup_eq_some_iff, List.mem_map]
  constructor
  · rintro ⟨⟨k', b'⟩, hmem, heq⟩
    cases heq
    exact hmem
  · intro h
    exact ⟨⟨k, b⟩, h, rfl⟩

/-- Every key has one row. -/
theorem nodup_rows (t : Table β) : (t.rows.map Prod.fst).Nodup := by
  have hperm : (t.rows.map Prod.fst).Perm (t.entries.map Sigma.fst) := by
    refine ((List.perm_insertionSort _ _).map Prod.fst).trans ?_
    rw [List.map_map]
    rfl
  exact hperm.nodup_iff.mpr t.nodupKeys

end Table

/-- A sorted list from the first key after the cursor on, and around. -/
def resume {α : Type} (key : α → String) (cursor : Option String) (l : List α) : List α :=
  let start := match cursor with
    | some cursor => (l.takeWhile (fun a => key a ≤ cursor)).length
    | none => 0
  l.rotate (start % l.length)

theorem resume_perm {α : Type} {key : α → String} {cursor : Option String} {l : List α} :
    (resume key cursor l).Perm l := List.rotate_perm l _

theorem mem_resume {α : Type} {key : α → String} {cursor : Option String} {l : List α} {a : α} :
    a ∈ resume key cursor l ↔ a ∈ l := List.mem_rotate

end Geata.Lib
