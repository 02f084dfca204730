import Mathlib.Data.List.Basic

namespace Geata.Lib

/-!
# Shared objects behind a table

A table of objects is replaced as a whole while some of its objects are in use.  An object of the
old table stays in the new one if it will do there as well; the others are new.  Objects are
numbered as they are made, and whoever has the number of one keeps it through all replacements.

* `Registry.replace` — a new table.
* `replace_object`, `replace_kept`, `replace_cases` — what it does to an object, to a key whose
  object will do, and to any key.
* `Registry.Valid` — no object is in the table twice.
-/

/-- The objects that were made, and the ones in the table. -/
structure Registry (κ σ : Type) where
  objects : List σ := []
  table : κ → Option ℕ := fun _ => none

namespace Registry

section

variable {κ σ : Type} {r : Registry κ σ} {id : ℕ} {x old : σ}

/-- Put an object in the place of another. -/
def put (r : Registry κ σ) (id : ℕ) (x : σ) : Registry κ σ :=
  { r with objects := r.objects.set id x }

@[simp] theorem put_table (r : Registry κ σ) (id : ℕ) (x : σ) : (r.put id x).table = r.table := rfl

theorem put_objects (h : r.objects[id]? = some old) (id' : ℕ) :
    (r.put id x).objects[id']? = if id' = id then some x else r.objects[id']? := by
  obtain ⟨hlt, -⟩ := List.getElem?_eq_some_iff.mp h
  by_cases hid : id' = id
  · subst hid
    rw [if_pos rfl, put, List.getElem?_set_self hlt]
  · rw [if_neg hid, put, List.getElem?_set_ne (Ne.symm hid)]

/-- The table has objects only, and none of them twice. -/
structure Valid (r : Registry κ σ) : Prop where
  bound : ∀ k id, r.table k = some id → id < r.objects.length
  once : ∀ k k' id, r.table k = some id → r.table k' = some id → k = k'

theorem Valid.empty : ({} : Registry κ σ).Valid := ⟨by simp, by simp⟩

theorem Valid.put (h : r.Valid) (id : ℕ) (x : σ) : (r.put id x).Valid := by
  refine ⟨fun k id' hk => ?_, h.once⟩
  show id' < (r.objects.set id x).length
  rw [List.length_set]
  exact h.bound k id' hk

end

section

variable {κ σ : Type} [DecidableEq κ]

/-- The first entry of a key, with its place. -/
def entry (next : List (κ × σ)) (k : κ) : Option (ℕ × σ) :=
  (next.findIdx? (fun p => decide (p.1 = k))).bind
    (fun i => next[i]?.map (fun p => (i, p.2)))

/-- The object of the table for a key, if it will do instead of a new one. -/
def kept (same : σ → σ → Bool) (r : Registry κ σ) (k : κ) (new : σ) : Option ℕ :=
  (r.table k).filter (fun id => (r.objects[id]?).any (same new))

/-- Make new objects, and replace the table; an old object that is the same as its new one stays. -/
def replace (same : σ → σ → Bool) (r : Registry κ σ) (next : List (κ × σ)) : Registry κ σ where
  objects := r.objects ++ next.map Prod.snd
  table k := (entry next k).map (fun p => (kept same r k p.2).getD (r.objects.length + p.1))

variable {same : σ → σ → Bool} {r : Registry κ σ} {next : List (κ × σ)} {k : κ} {id i : ℕ}
  {x new old : σ}

theorem entry_eq_some (h : entry next k = some (i, new)) : next[i]? = some (k, new) := by
  obtain ⟨j, hj, h⟩ := Option.bind_eq_some_iff.mp h
  obtain ⟨p, hp, heq⟩ := Option.map_eq_some_iff.mp h
  obtain ⟨rfl, rfl⟩ := Prod.mk.inj heq
  obtain ⟨hlt, hkey, -⟩ := List.findIdx?_eq_some_iff_getElem.mp hj
  rw [hp]
  obtain ⟨hlt', rfl⟩ := List.getElem?_eq_some_iff.mp hp
  rw [← of_decide_eq_true hkey]

/-- A key with one entry has that one. -/
theorem entry_of_mem (h : (k, new) ∈ next) (hone : ∀ x, (k, x) ∈ next → x = new) :
    ∃ i, entry next k = some (i, new) := by
  cases hfind : next.findIdx? (fun p => decide (p.1 = k)) with
  | none =>
    have hnone := List.findIdx?_eq_none_iff.mp hfind _ h
    exact absurd hnone (by simp)
  | some i =>
    obtain ⟨hlt, hkey, -⟩ := List.findIdx?_eq_some_iff_getElem.mp hfind
    have hnew : next[i].2 = new := by
      apply hone
      rw [← of_decide_eq_true hkey]
      exact List.getElem_mem hlt
    refine ⟨i, ?_⟩
    rw [entry, hfind, Option.bind_some, List.getElem?_eq_getElem hlt, Option.map_some, hnew]

/-- An object outlives the table. -/
theorem replace_object (h : r.objects[id]? = some x) :
    (r.replace same next).objects[id]? = some x := by
  obtain ⟨hlt, -⟩ := List.getElem?_eq_some_iff.mp h
  show (r.objects ++ next.map Prod.snd)[id]? = some x
  rw [List.getElem?_append_left hlt, h]

/-- An object is an old or a new one. -/
theorem replace_objects (h : (r.replace same next).objects[id]? = some x) :
    r.objects[id]? = some x ∨ r.objects.length ≤ id ∧ ∃ k, (k, x) ∈ next := by
  change (r.objects ++ next.map Prod.snd)[id]? = some x at h
  by_cases hlt : id < r.objects.length
  · left
    rwa [List.getElem?_append_left hlt] at h
  · right
    rw [List.getElem?_append_right (Nat.le_of_not_lt hlt)] at h
    obtain ⟨⟨k, y⟩, hmem, rfl⟩ := List.mem_map.mp (List.mem_of_getElem? h)
    exact ⟨Nat.le_of_not_lt hlt, k, hmem⟩

/-- A key keeps its object if it will do. -/
theorem replace_kept (hk : r.table k = some id) (hold : r.objects[id]? = some old)
    (hnext : entry next k = some (i, new)) (hsame : same new old = true) :
    (r.replace same next).table k = some id := by
  have hkept : kept same r k new = some id := by
    rw [kept, hk, Option.filter_some, hold, Option.any_some, hsame, if_pos rfl]
  show (entry next k).map _ = some id
  rw [hnext, Option.map_some, hkept]
  rfl

/-- The object of a key is one it had, or a new one. -/
theorem replace_cases (h : (r.replace same next).table k = some id) :
    ∃ i new, entry next k = some (i, new) ∧
      ((r.table k = some id ∧ ∃ old, r.objects[id]? = some old ∧ same new old = true) ∨
        id = r.objects.length + i ∧ (r.replace same next).objects[id]? = some new ∧
          ∀ id' old, r.table k = some id' → r.objects[id']? = some old → same new old = false) := by
  obtain ⟨⟨i, new⟩, hentry, heq⟩ := Option.map_eq_some_iff.mp h
  refine ⟨i, new, hentry, ?_⟩
  cases hkept : kept same r k new with
  | some id' =>
    left
    rw [hkept] at heq
    obtain rfl : id' = id := heq
    obtain ⟨hk, hany⟩ := Option.filter_eq_some_iff.mp hkept
    obtain ⟨old, hold, hsame⟩ := (Option.any_eq_true _ _).mp hany
    exact ⟨hk, old, hold, hsame⟩
  | none =>
    right
    rw [hkept] at heq
    obtain rfl : r.objects.length + i = id := heq
    refine ⟨rfl, ?_, fun id' old hk hold => ?_⟩
    · show (r.objects ++ next.map Prod.snd)[r.objects.length + i]? = some new
      rw [List.getElem?_append_right (Nat.le_add_right _ _), Nat.add_sub_cancel_left,
        List.getElem?_map, entry_eq_some hentry]
      rfl
    · by_contra hsame
      rw [Bool.not_eq_false] at hsame
      rw [kept, hk, Option.filter_some, hold, Option.any_some, hsame, if_pos rfl] at hkept
      exact absurd hkept (by simp)

theorem Valid.replace (h : r.Valid) (next : List (κ × σ)) : (r.replace same next).Valid := by
  constructor
  · intro k id hk
    show id < (r.objects ++ next.map Prod.snd).length
    obtain ⟨i, new, hentry, ⟨hold, -⟩ | ⟨rfl, -⟩⟩ := replace_cases hk
    · have hlt := h.bound k id hold
      rw [List.length_append]
      omega
    · obtain ⟨hlt, -⟩ := List.getElem?_eq_some_iff.mp (entry_eq_some hentry)
      rw [List.length_append, List.length_map]
      omega
  · intro k k' id hk hk'
    obtain ⟨i, new, hentry, hcase⟩ := replace_cases hk
    obtain ⟨i', new', hentry', hcase'⟩ := replace_cases hk'
    rcases hcase with ⟨hold, -⟩ | ⟨rfl, -⟩
    · have hlt := h.bound k id hold
      rcases hcase' with ⟨hold', -⟩ | ⟨rfl, -⟩
      · exact h.once k k' id hold hold'
      · omega
    · rcases hcase' with ⟨hold', -⟩ | ⟨heq, -⟩
      · have hlt := h.bound k' _ hold'
        omega
      · -- Two new objects: the same place in the new table.
        obtain rfl : i = i' := by omega
        have hsame := (entry_eq_some hentry).symm.trans (entry_eq_some hentry')
        exact (Prod.mk.inj (Option.some.inj hsame)).1

end

end Registry

end Geata.Lib
