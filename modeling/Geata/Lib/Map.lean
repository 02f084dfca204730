import Mathlib.Data.List.AList

namespace Geata.Lib

/-!
# Finite maps

Association lists with distinct keys, as maps: lookup after an insertion, a removal or a filter,
and how many keys are left.
-/

/-- A finite map. -/
abbrev Map (α β : Type) : Type := AList (fun _ : α => β)

namespace Map

variable {α β : Type}

/-- How many keys a map has. -/
def len (m : Map α β) : ℕ := m.entries.length

/-- Keep the entries that satisfy `p`. -/
def retain (p : α → β → Bool) (m : Map α β) : Map α β where
  entries := m.entries.filter (fun e => p e.1 e.2)
  nodupKeys := List.Nodup.sublist (List.filter_sublist.map Sigma.fst) m.nodupKeys

theorem len_retain_le (p : α → β → Bool) (m : Map α β) : (m.retain p).len ≤ m.len :=
  List.length_filter_le _ _

variable [DecidableEq α] {m : Map α β} {k k' : α} {b : β}

theorem lookup_eq_some_iff :
    m.lookup k = some b ↔ (⟨k, b⟩ : Sigma fun _ : α => β) ∈ m.entries :=
  AList.mem_lookup_iff

/-- An entry survives `retain` exactly when it was there and satisfies the predicate. -/
theorem lookup_retain_eq_some {p : α → β → Bool} :
    (m.retain p).lookup k = some b ↔ m.lookup k = some b ∧ p k b = true := by
  simp only [lookup_eq_some_iff, retain, List.mem_filter]

theorem lookup_insert_eq : (m.insert k b).lookup k' = if k' = k then some b else m.lookup k' := by
  split
  · rename_i h; subst h; exact AList.lookup_insert m
  · rename_i h; exact AList.lookup_insert_ne h

theorem lookup_erase_eq : (m.erase k).lookup k' = if k' = k then none else m.lookup k' := by
  split
  · rename_i h; subst h; exact AList.lookup_erase k' m
  · rename_i h; exact AList.lookup_erase_ne h

/-- A new key is one more. -/
theorem len_insert_of_none (h : m.lookup k = none) : len (m.insert k b) = m.len + 1 := by
  have hmem : k ∉ m := AList.lookup_eq_none.mp h
  rw [len, AList.entries_insert_of_notMem hmem, List.length_cons, len]

/-- Overwriting adds no key. -/
theorem len_insert_of_some {c : β} (h : m.lookup k = some c) : len (m.insert k b) = m.len := by
  have hmem : k ∈ m.keys := AList.mem_keys.mp (AList.lookup_isSome.mp (by rw [h]; rfl))
  have hpos : 0 < m.keys.length := List.length_pos_of_mem hmem
  have hlen : ∀ m : Map α β, m.len = m.keys.length := fun m => (List.length_map ..).symm
  rw [hlen, hlen, AList.keys_insert, List.length_cons, List.length_erase_of_mem hmem]
  omega

theorem len_erase_le (m : Map α β) (k : α) : len (m.erase k) ≤ m.len :=
  (List.kerase_sublist k m.entries).length_le

end Map

end Geata.Lib
