import Mathlib.Data.List.Infix
import Mathlib.Logic.Function.Basic
import Geata.Lib.File

namespace Geata.Lib

open Function

/-!
# A directory on a disk

The files of one directory, as system calls see them, and what is left of them when the power goes.
What is written to a file reaches the disk when the file is synced; a name that is given or taken
reaches the disk when the directory is synced.

* `Disk` — the files, what each name stands for, and what it may go back to in a power cut.
* `Disk.PowerCut` — what a power cut can leave: of every name one of its candidates, of every file
  that was not synced anything at all.
* `Disk.file` — a name of the directory, seen as a `File`; `file_rename`, `file_syncDirectory` and
  `file_powerCut` are the only things that happen to it, when files are synced before they are
  renamed.
-/

/-- A regular file.  The tag says what it was made for, and is not stored. -/
structure Inode (τ : Type) where
  content : List UInt8 := []
  mode : ℕ
  /-- whether content and mode have reached the disk -/
  synced : Bool := false
  tag : Option τ

/-- A directory.  Files are numbered as they are made. -/
structure Disk (ν τ : Type) where
  files : ℕ → Inode τ
  next : ℕ
  entries : ν → Option ℕ
  /-- What a name stood for before the changes that have not reached the disk. -/
  older : ν → List (Option ℕ)
  /-- Which names were given to which files by renaming, the latest first. -/
  renamed : List (ν × ℕ) := []

namespace Disk

variable {ν τ : Type} {d d' : Disk ν τ} {a b : ν} {id : ℕ} {x : Option ℕ}

/-! ### Power cuts -/

/-- What a name stands for, or may go back to. -/
def candidates (d : Disk ν τ) (a : ν) : List (Option ℕ) := d.entries a :: d.older a

/-- `d'` is what a power cut can leave of `d`. -/
structure PowerCut (d d' : Disk ν τ) : Prop where
  entries : ∀ a, d'.entries a ∈ d.candidates a
  older : ∀ a, d'.older a = []
  synced : ∀ id, (d.files id).synced = true → d'.files id = d.files id
  tag : ∀ id, (d'.files id).tag = (d.files id).tag
  next : d'.next = d.next
  renamed : d'.renamed = d.renamed

theorem PowerCut.candidates (h : PowerCut d d') (hx : x ∈ d'.candidates a) :
    x ∈ d.candidates a := by
  rw [Disk.candidates, h.older a, List.mem_singleton] at hx
  rw [hx]
  exact h.entries a

/-! ### A name as a file -/

/-- The bytes behind a candidate. -/
def contentOf (d : Disk ν τ) (x : Option ℕ) : Option (List UInt8) :=
  x.map (fun id => (d.files id).content)

/-- What a reader of the name sees, and what a power cut can bring back. -/
def file (d : Disk ν τ) (a : ν) : File (List UInt8) where
  content := d.contentOf (d.entries a)
  older := (d.older a).map d.contentOf

theorem survives_file {c : Option (List UInt8)} :
    (d.file a).Survives c ↔ ∃ x ∈ d.candidates a, d.contentOf x = c := by
  simp only [File.Survives, file, candidates, List.mem_cons, exists_eq_or_imp, List.mem_map,
    eq_comm (a := c)]

/-- Files with the same contents behind the same candidates are the same. -/
theorem file_congr (hentries : d'.entries a = d.entries a) (holder : d'.older a = d.older a)
    (hfiles : ∀ id, some id ∈ d.candidates a → (d'.files id).content = (d.files id).content) :
    d'.file a = d.file a := by
  have hcontent : ∀ x ∈ d.candidates a, d'.contentOf x = d.contentOf x := by
    intro x hx
    cases x with
    | none => rfl
    | some id => exact congrArg some (hfiles id hx)
  unfold file
  rw [hentries, holder, hcontent _ (by simp [candidates])]
  congr 1
  apply List.map_congr_left
  intro x hx
  exact hcontent x (by simp [candidates, hx])

/-- A power cut leaves of a name something that survives, if its files are synced. -/
theorem file_powerCut (h : PowerCut d d')
    (hs : ∀ id, some id ∈ d.candidates a → (d.files id).synced = true) :
    (d.file a).Crash (d'.file a) := by
  intro c hc
  obtain ⟨x, hx, rfl⟩ := survives_file.mp hc
  apply survives_file.mpr
  refine ⟨x, h.candidates hx, ?_⟩
  cases x with
  | none => rfl
  | some id =>
    simp only [contentOf, Option.map_some]
    rw [h.synced id (hs id (h.candidates hx))]

/-! ### What was renamed since -/

/-- `x` was given to the name after the renames of `base`. -/
def Given (d : Disk ν τ) (base : List (ν × ℕ)) (a : ν) (x : Option ℕ) : Prop :=
  ∃ id added, x = some id ∧ d.renamed = added ++ base ∧ (a, id) ∈ added

theorem Given.later {base : List (ν × ℕ)} (h : d.Given base a x)
    (hs : d.renamed <:+ d'.renamed) : d'.Given base a x := by
  obtain ⟨id, added, rfl, hadded, hmem⟩ := h
  obtain ⟨more, hmore⟩ := hs
  refine ⟨id, more ++ added, rfl, ?_, List.mem_append_right _ hmem⟩
  rw [← hmore, hadded, List.append_assoc]

/-- What was given lately was given since longer ago. -/
theorem Given.of_suffix {base base' : List (ν × ℕ)} (h : d.Given base a x)
    (hs : base' <:+ base) : d.Given base' a x := by
  obtain ⟨id, added, rfl, hadded, hmem⟩ := h
  obtain ⟨more, rfl⟩ := hs
  refine ⟨id, added ++ more, rfl, ?_, List.mem_append_left _ hmem⟩
  rw [hadded, List.append_assoc]

theorem given_cons {base : List (ν × ℕ)} (h : d.renamed = (a, id) :: base) :
    d.Given base a (some id) := ⟨id, [(a, id)], rfl, h, List.mem_singleton_self _⟩

/-! ### System calls -/

/-- Every name given or taken so far reaches the disk. -/
def syncDirectory (d : Disk ν τ) : Disk ν τ := { d with older := fun _ => [] }

theorem candidates_syncDirectory (d : Disk ν τ) (a : ν) :
    d.syncDirectory.candidates a = [d.entries a] := rfl

theorem file_syncDirectory (d : Disk ν τ) (a : ν) : d.syncDirectory.file a = (d.file a).settle :=
  rfl

def modify (d : Disk ν τ) (id : ℕ) (f : Inode τ → Inode τ) : Disk ν τ :=
  { d with files := update d.files id (f (d.files id)) }

def chmod (d : Disk ν τ) (id mode : ℕ) : Disk ν τ :=
  d.modify id (fun f => { f with mode, synced := false })

def append (d : Disk ν τ) (id : ℕ) (bytes : List UInt8) : Disk ν τ :=
  d.modify id (fun f => { f with content := f.content ++ bytes, synced := false })

def sync (d : Disk ν τ) (id : ℕ) : Disk ν τ := d.modify id (fun f => { f with synced := true })

@[simp] theorem candidates_modify (d : Disk ν τ) (id : ℕ) (f : Inode τ → Inode τ) (a : ν) :
    (d.modify id f).candidates a = d.candidates a := rfl

@[simp] theorem modify_files (d : Disk ν τ) (id : ℕ) (f : Inode τ → Inode τ) (id' : ℕ) :
    (d.modify id f).files id' = if id' = id then f (d.files id) else d.files id' := by
  by_cases h : id' = id
  · subst h
    simp [modify]
  · simp [modify, h]

/-- Working on a file behind no candidate of a name leaves the name alone. -/
theorem file_modify (f : Inode τ → Inode τ) (h : some id ∉ d.candidates a) :
    (d.modify id f).file a = d.file a := by
  have hfiles : ∀ id', some id' ∈ d.candidates a →
      ((d.modify id f).files id').content = (d.files id').content := by
    intro id' hid'
    have hne : id' ≠ id := by
      rintro rfl
      exact h hid'
    rw [modify_files, if_neg hne]
  exact file_congr rfl rfl hfiles

section

variable [DecidableEq ν]

/-- Let a name stand for something else. -/
def relink (d : Disk ν τ) (a : ν) (x : Option ℕ) : Disk ν τ :=
  { d with
    entries := update d.entries a x
    older := update d.older a (d.entries a :: d.older a) }

/-- Make an empty file. -/
def create (d : Disk ν τ) (a : ν) (mode : ℕ) (tag : τ) : Disk ν τ :=
  { d.relink a (some d.next) with
    files := update d.files d.next { mode, tag := some tag }
    next := d.next + 1 }

def unlink (d : Disk ν τ) (a : ν) : Disk ν τ := d.relink a none

/-- Give the file of one name to another. -/
def rename (d : Disk ν τ) (a b : ν) : Disk ν τ :=
  match d.entries a with
  | some id => { (d.relink a none).relink b (some id) with renamed := (b, id) :: d.renamed }
  | none => d

theorem relink_entries (d : Disk ν τ) (a b : ν) (x : Option ℕ) :
    (d.relink a x).entries b = if b = a then x else d.entries b := by
  by_cases h : b = a
  · subst h
    simp [relink]
  · simp [relink, h]

theorem candidates_relink (d : Disk ν τ) (a b : ν) (x : Option ℕ) :
    (d.relink a x).candidates b = if b = a then x :: d.candidates a else d.candidates b := by
  by_cases h : b = a
  · subst h
    simp [candidates, relink]
  · simp [candidates, relink, h]

theorem candidates_create (d : Disk ν τ) (a b : ν) (mode : ℕ) (tag : τ) :
    (d.create a mode tag).candidates b
      = if b = a then some d.next :: d.candidates a else d.candidates b :=
  candidates_relink d a b (some d.next)

theorem rename_some (h : d.entries a = some id) : d.rename a b
    = { (d.relink a none).relink b (some id) with renamed := (b, id) :: d.renamed } := by
  simp only [rename, h]

/-- What renaming does to a name that is not the old one. -/
theorem entries_rename (h : d.entries a = some id) {c : ν} (hc : c ≠ a) :
    (d.rename a b).entries c = if c = b then some id else d.entries c := by
  rw [rename_some h]
  show ((d.relink a none).relink b (some id)).entries c = _
  rw [relink_entries, relink_entries, if_neg hc]

theorem candidates_rename (h : d.entries a = some id) {c : ν} (hc : c ≠ a) :
    (d.rename a b).candidates c = if c = b then some id :: d.candidates c else d.candidates c := by
  rw [rename_some h]
  show ((d.relink a none).relink b (some id)).candidates c = _
  rw [candidates_relink]
  by_cases hcb : c = b
  · subst hcb
    rw [if_pos rfl, if_pos rfl, candidates_relink, if_neg hc]
  · rw [if_neg hcb, if_neg hcb, candidates_relink, if_neg hc]

theorem file_create (mode : ℕ) (tag : τ) (hne : b ≠ a) (h : some d.next ∉ d.candidates b) :
    (d.create a mode tag).file b = d.file b := by
  apply file_congr
  · simp [create, relink, hne]
  · simp [create, relink, hne]
  · intro id hid
    have hid' : id ≠ d.next := by
      rintro rfl
      exact h hid
    simp [create, hid']

theorem file_unlink (hne : b ≠ a) : (d.unlink a).file b = d.file b := by
  apply file_congr
  · simp [unlink, relink, hne]
  · simp [unlink, relink, hne]
  · intro id _
    rfl

/-- Renaming replaces the new name by the whole file. -/
theorem file_rename (h : d.entries a = some id) (hne : b ≠ a) :
    (d.rename a b).file b = (d.file b).write (d.files id).content .unsynced := by
  rw [rename_some h]
  simp [file, relink, File.write, contentOf, hne]

theorem file_rename_of_ne (h : d.entries a = some id) {c : ν} (hca : c ≠ a) (hcb : c ≠ b) :
    (d.rename a b).file c = d.file c := by
  rw [rename_some h]
  apply file_congr
  · simp [relink, hca, hcb]
  · simp [relink, hca, hcb]
  · intro id' _
    rfl

end

end Disk

end Geata.Lib
