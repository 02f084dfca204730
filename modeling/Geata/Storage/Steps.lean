import Geata.Lib.Logic
import Geata.Storage.Programs

namespace Geata.Storage

open Geata.Lib Function

/-!
# The steps of the storage directory

What the system calls of `write` and `read` do to the directory, as long as every call keeps to its
own temporary file.

* `Sound` — the invariant: every file that was renamed is synced, private and complete.
* `Needs` — what a call may do; `Rely` — what the others leave to it, `Later` what lasts anyway.
* `Effect` — what a system call can do; `Effect.moves` — allowed ones keep the invariant and the
  others' relies, and `Effect.file` — what they do to a stored name.
-/

/-! ### The invariant -/

/-- A file that was given a stored name. -/
structure Whole (d : Directory) (name : String) (id : ℕ) : Prop where
  stored : temporary name = false
  synced : (d.files id).synced = true
  mode : (d.files id).mode = 0o600
  text : ∃ p, (d.files id).tag = some p ∧ p.name = name ∧ (d.files id).content = p.text

structure Sound (d : Directory) : Prop where
  unmade : ∀ id, d.next ≤ id → (d.files id).tag = none
  fresh : ∀ a id, some id ∈ d.candidates a → id < d.next
  found : ∀ id, id < d.next → (d.files id).tag = none → (d.files id).synced = true
  whole : ∀ a id, (a, id) ∈ d.renamed → Whole d a id
  linked : ∀ a, temporary a = false → ∀ id, some id ∈ d.candidates a →
    (d.files id).tag = none ∨ (a, id) ∈ d.renamed

/-- The file was there at first, or was renamed: nobody writes to it any more. -/
def Linked (d : Directory) (id : ℕ) : Prop :=
  (id < d.next ∧ (d.files id).tag = none) ∨ ∃ a, (a, id) ∈ d.renamed

/-- The file was made by the call and still has its temporary name only. -/
def Hidden (call : ℕ) (d : Directory) (id : ℕ) : Prop :=
  (∃ p, (d.files id).tag = some p ∧ p.call = call) ∧ ∀ a, (a, id) ∉ d.renamed

/-- What a call may do. -/
def Needs (call : ℕ) : StorageOp → Directory → Prop
  | .setPermissions file _, d => Hidden call d file
  | .writeAll file _, d => Hidden call d file
  | .syncAll file, d => Hidden call d file
  | .rename source target, d => temporary source = true ∧ temporary target = false ∧
      ∀ file, d.entries source = some file → Hidden call d file ∧
        (d.files file).synced = true ∧ (d.files file).mode = 0o600 ∧
        ∃ p, (d.files file).tag = some p ∧ p.name = target ∧ (d.files file).content = p.text
  | .removeFile name, d => temporary name = true ∧
      ∀ file, d.entries name = some file → ∃ p, (d.files file).tag = some p ∧ p.call = call
  | .readToEnd file, d => Linked d file
  | _, _ => True

/-! ### What lasts -/

/-- What holds between two moments of a run, whatever happened. -/
structure Later (d d' : Directory) : Prop where
  next : d.next ≤ d'.next
  tag : ∀ id, id < d.next → (d'.files id).tag = (d.files id).tag
  linked : ∀ id, Linked d id → d'.files id = d.files id
  renamed : d.renamed <:+ d'.renamed
  candidates : ∀ a, temporary a = false → ∀ x ∈ d'.candidates a,
    x ∈ d.candidates a ∨ d'.Given d.renamed a x

/-- What the others leave to a call. -/
structure Rely (call : ℕ) (d d' : Directory) : Prop extends Later d d' where
  entries : ∀ a, temporary a = false →
    d'.entries a = d.entries a ∨ d'.Given d.renamed a (d'.entries a)
  files : ∀ id p, (d.files id).tag = some p → p.call = call → d'.files id = d.files id
  sources : ∀ a id p, temporary a = true → d.entries a = some id → (d.files id).tag = some p →
    p.call = call → d'.entries a = some id
  hidden : ∀ id, Hidden call d id → Hidden call d' id

section

variable {d d' d'' : Directory} {call : ℕ} {id : ℕ}

theorem Linked.later (h : Linked d id) (hl : Later d d') : Linked d' id := by
  rcases h with ⟨hlt, htag⟩ | ⟨a, ha⟩
  · apply Or.inl
    constructor
    · exact Nat.lt_of_lt_of_le hlt hl.next
    · rw [hl.tag id hlt]
      exact htag
  · apply Or.inr
    exact ⟨a, hl.renamed.subset ha⟩

theorem Later.refl (d : Directory) : Later d d where
  next := Nat.le_refl _
  tag _ _ := rfl
  linked _ _ := rfl
  renamed := List.suffix_refl _
  candidates _ _ _ hx := .inl hx

theorem Later.trans (h : Later d d') (h' : Later d' d'') : Later d d'' where
  next := h.next.trans h'.next
  tag id hid := by rw [h'.tag id (Nat.lt_of_lt_of_le hid h.next), h.tag id hid]
  linked id hid := by rw [h'.linked id (hid.later h), h.linked id hid]
  renamed := h.renamed.trans h'.renamed
  candidates a ha x hx := by
    rcases h'.candidates a ha x hx with hx | hx
    · rcases h.candidates a ha x hx with hx | hx
      · exact .inl hx
      · exact .inr (hx.later h'.renamed)
    · exact .inr (hx.of_suffix h.renamed)

theorem Rely.refl (call : ℕ) (d : Directory) : Rely call d d where
  toLater := .refl d
  entries _ _ := .inl rfl
  files _ _ _ _ := rfl
  sources _ _ _ _ ha _ _ := ha
  hidden _ h := h

theorem Rely.trans (h : Rely call d d') (h' : Rely call d' d'') : Rely call d d'' where
  toLater := h.toLater.trans h'.toLater
  entries a ha := by
    rcases h'.entries a ha with heq | hgiven
    · rcases h.entries a ha with heq' | hgiven
      · exact .inl (heq.trans heq')
      · rw [heq]
        exact .inr (hgiven.later h'.renamed)
    · exact .inr (hgiven.of_suffix h.renamed)
  files id p hp hc := by
    have heq := h.files id p hp hc
    rw [h'.files id p (heq ▸ hp) hc, heq]
  sources a id p ha he hp hc := by
    have heq := h.files id p hp hc
    exact h'.sources a id p ha (h.sources a id p ha he hp hc) (heq ▸ hp) hc
  hidden id hid := h'.hidden id (h.hidden id hid)

/-- A hidden file is not linked. -/
theorem Hidden.not_linked (h : Hidden call d id) : ¬ Linked d id := by
  rintro (⟨-, htag⟩ | ⟨a, ha⟩)
  · obtain ⟨⟨p, hp, -⟩, -⟩ := h
    rw [htag] at hp
    exact absurd hp (by simp)
  · exact h.2 a ha

theorem Sound.lt_next (h : Sound d) {p : Purpose} (hp : (d.files id).tag = some p) :
    id < d.next := by
  by_contra hlt
  rw [h.unmade id (Nat.le_of_not_lt hlt)] at hp
  exact absurd hp (by simp)

/-- What stands behind a stored name is linked. -/
theorem Sound.linked_of_candidate (h : Sound d) {a : String} (ha : temporary a = false)
    (hid : some id ∈ d.candidates a) : Linked d id := by
  rcases h.linked a ha id hid with htag | hren
  · exact .inl ⟨h.fresh a id hid, htag⟩
  · exact .inr ⟨a, hren⟩

/-- Linked files have reached the disk. -/
theorem Sound.synced (h : Sound d) (hid : Linked d id) : (d.files id).synced = true := by
  rcases hid with ⟨hlt, htag⟩ | ⟨a, ha⟩
  · exact h.found id hlt htag
  · exact (h.whole a id ha).synced

end

/-! ### What each step does -/

/-- A step of a call keeps the invariant, lasts, and is one the other calls can rely on. -/
structure Moves (call : ℕ) (d d' : Directory) : Prop where
  sound : Sound d'
  later : Later d d'
  rely : ∀ j, j ≠ call → Rely j d d'

section

variable {d d' : Directory} {call : ℕ} {id : ℕ} {source target : String}

theorem Moves.refl (h : Sound d) : Moves call d d := ⟨h, .refl d, fun j _ => .refl j d⟩

/-- A call works on its own file. -/
theorem Moves.modify (h : Sound d) (hid : Hidden call d id) (f : Inode Purpose → Inode Purpose)
    (hf : ∀ x, (f x).tag = x.tag) : Moves call d (d.modify id f) := by
  obtain ⟨⟨p, hp, hcall⟩, hren⟩ := hid
  have htag : ∀ id', ((d.modify id f).files id').tag = (d.files id').tag := by
    intro id'
    by_cases hne : id' = id
    · subst hne
      rw [Disk.modify_files, if_pos rfl, hf]
    · rw [Disk.modify_files, if_neg hne]
  have hsame : ∀ id', id' ≠ id → (d.modify id f).files id' = d.files id' := by
    intro id' hne
    rw [Disk.modify_files, if_neg hne]
  have hlinked : ∀ id', Linked d id' → id' ≠ id := by
    rintro id' hl rfl
    exact Hidden.not_linked ⟨⟨p, hp, hcall⟩, hren⟩ hl
  have hlater : Later d (d.modify id f) :=
    { next := Nat.le_refl _
      tag := fun id' _ => htag id'
      linked := fun id' hl => hsame id' (hlinked id' hl)
      renamed := List.suffix_refl _
      candidates := fun _ _ _ hx => .inl hx }
  refine ⟨?_, hlater, fun j hj => ?_⟩
  · refine ⟨fun id' hle => ?_, h.fresh, fun id' hlt ht => ?_, fun a id' ha => ?_,
      fun a ha id' hid' => ?_⟩
    · rw [htag]
      exact h.unmade id' hle
    · rw [htag] at ht
      rw [hsame id' (hlinked id' (.inl ⟨hlt, ht⟩))]
      exact h.found id' hlt ht
    · have heq := hsame id' (hlinked id' (.inr ⟨a, ha⟩))
      obtain ⟨hs, hy, hm, ht⟩ := h.whole a id' ha
      exact ⟨hs, heq ▸ hy, heq ▸ hm, heq ▸ ht⟩
    · rw [htag]
      exact h.linked a ha id' hid'
  · -- another call's file is another file
    have hother : ∀ id' p', (d.files id').tag = some p' → p'.call = j → id' ≠ id := by
      rintro id' p' hp' hj' rfl
      rw [hp] at hp'
      obtain rfl := Option.some.inj hp'
      exact hj (hj'.symm.trans hcall)
    refine ⟨hlater, fun _ _ => .inl rfl, fun id' p' hp' hj' => hsame id' (hother id' p' hp' hj'),
      fun _ _ _ _ he _ _ => he, fun id' hid' => ⟨?_, hid'.2⟩⟩
    rw [htag]
    exact hid'.1

/-- A new temporary file. -/
theorem Moves.create (h : Sound d) (hs : temporary source = true) (hnone : d.entries source = none)
    (mode : ℕ) (p : Purpose) : Moves call d (d.create source mode p) := by
  have hsame : ∀ id, id ≠ d.next → (d.create source mode p).files id = d.files id := by
    intro id hne
    exact update_of_ne hne _ _
  have hlinked : ∀ id, Linked d id → id ≠ d.next := by
    rintro id (⟨hlt, -⟩ | ⟨a, ha⟩)
    · exact Nat.ne_of_lt hlt
    · obtain ⟨p', hp', -⟩ := (h.whole a id ha).text
      exact Nat.ne_of_lt (h.lt_next hp')
  have hcand : ∀ a, temporary a = false →
      (d.create source mode p).candidates a = d.candidates a := by
    intro a ha
    rw [Disk.candidates_create, if_neg]
    rintro rfl
    rw [ha] at hs
    exact absurd hs (by simp)
  have hlater : Later d (d.create source mode p) :=
    { next := Nat.le_succ _
      tag := fun id hlt => by rw [hsame id (Nat.ne_of_lt hlt)]
      linked := fun id hl => hsame id (hlinked id hl)
      renamed := List.suffix_refl _
      candidates := fun a ha x hx => .inl (by rwa [hcand a ha] at hx) }
  refine ⟨⟨fun id hle => ?_, fun a id hid => ?_, fun id hlt ht => ?_, fun a id ha => ?_,
    fun a ha id hid => ?_⟩, hlater, fun j _ => ?_⟩
  · have hle' : d.next + 1 ≤ id := hle
    rw [hsame id (by omega)]
    exact h.unmade id (by omega)
  · show id < d.next + 1
    rw [Disk.candidates_create] at hid
    split at hid
    · rcases List.mem_cons.mp hid with heq | hid
      · obtain rfl := Option.some.inj heq
        omega
      · exact Nat.lt_succ_of_lt (h.fresh source id hid)
    · exact Nat.lt_succ_of_lt (h.fresh a id hid)
  · by_cases hne : id = d.next
    · subst hne
      simp [Disk.create] at ht
    · have hlt' : id < d.next + 1 := hlt
      rw [hsame id hne] at ht ⊢
      exact h.found id (by omega) ht
  · have heq := hsame id (hlinked id (.inr ⟨a, ha⟩))
    obtain ⟨hs', hy, hm, ht⟩ := h.whole a id ha
    exact ⟨hs', heq ▸ hy, heq ▸ hm, heq ▸ ht⟩
  · rw [hcand a ha] at hid
    rw [hsame id (Nat.ne_of_lt (h.fresh a id hid))]
    exact h.linked a ha id hid
  · refine ⟨hlater, fun a ha => .inl ?_, fun id p' hp' _ => hsame id (Nat.ne_of_lt (h.lt_next hp')),
      fun a id p' ha he _ _ => ?_, fun id hid => ?_⟩
    · show (d.relink source (some d.next)).entries a = _
      rw [Disk.relink_entries, if_neg]
      rintro rfl
      rw [ha] at hs
      exact absurd hs (by simp)
    · show (d.relink source (some d.next)).entries a = _
      rw [Disk.relink_entries, if_neg, he]
      rintro rfl
      rw [hnone] at he
      exact absurd he (by simp)
    · obtain ⟨⟨p', hp', hj⟩, hren⟩ := hid
      refine ⟨⟨p', ?_, hj⟩, hren⟩
      rw [hsame id (Nat.ne_of_lt (h.lt_next hp'))]
      exact hp'

/-- A call takes its temporary name away. -/
theorem Moves.unlink (h : Sound d) (hs : temporary source = true)
    (hown : ∀ file, d.entries source = some file →
      ∃ p, (d.files file).tag = some p ∧ p.call = call) : Moves call d (d.unlink source) := by
  have hne : ∀ a, temporary a = false → a ≠ source := by
    rintro a ha rfl
    rw [ha] at hs
    exact absurd hs (by simp)
  have hcand : ∀ a, temporary a = false → (d.unlink source).candidates a = d.candidates a := by
    intro a ha
    rw [Disk.unlink, Disk.candidates_relink, if_neg (hne a ha)]
  have hlater : Later d (d.unlink source) :=
    { next := Nat.le_refl _
      tag := fun _ _ => rfl
      linked := fun _ _ => rfl
      renamed := List.suffix_refl _
      candidates := fun a ha x hx => .inl (by rwa [hcand a ha] at hx) }
  refine ⟨⟨h.unmade, fun a id hid => ?_, h.found, fun a id ha => ?_, fun a ha id hid => ?_⟩,
    hlater, fun j hj => ⟨hlater, fun a ha => .inl ?_, fun _ _ _ _ => rfl,
      fun a id p _ he hp hc => ?_, fun _ hid => hid⟩⟩
  · rw [Disk.unlink, Disk.candidates_relink] at hid
    split at hid
    · rcases List.mem_cons.mp hid with heq | hid
      · exact absurd heq (by simp)
      · exact h.fresh source id hid
    · exact h.fresh a id hid
  · obtain ⟨hs', hy, hm, ht⟩ := h.whole a id ha
    exact ⟨hs', hy, hm, ht⟩
  · rw [hcand a ha] at hid
    exact h.linked a ha id hid
  · rw [Disk.unlink, Disk.relink_entries, if_neg (hne a ha)]
  · -- the name of another call is another name
    rw [Disk.unlink, Disk.relink_entries, if_neg, he]
    rintro rfl
    obtain ⟨p', hp', hc'⟩ := hown id he
    rw [hp] at hp'
    obtain rfl := Option.some.inj hp'
    exact hj (hc.symm.trans hc')

theorem Moves.syncDirectory (h : Sound d) : Moves call d d.syncDirectory := by
  have hcand : ∀ a x, x ∈ d.syncDirectory.candidates a → x ∈ d.candidates a := by
    intro a x hx
    rw [Disk.candidates_syncDirectory, List.mem_singleton] at hx
    rw [hx]
    exact List.mem_cons_self
  have hlater : Later d d.syncDirectory :=
    { next := Nat.le_refl _
      tag := fun _ _ => rfl
      linked := fun _ _ => rfl
      renamed := List.suffix_refl _
      candidates := fun a _ x hx => .inl (hcand a x hx) }
  refine ⟨⟨h.unmade, fun a id hid => h.fresh a id (hcand a _ hid), h.found, fun a id ha => ?_,
    fun a ha id hid => h.linked a ha id (hcand a _ hid)⟩, hlater, fun j _ => ⟨hlater,
      fun _ _ => .inl rfl, fun _ _ _ _ => rfl, fun _ _ _ _ he _ _ => he, fun _ hid => hid⟩⟩
  obtain ⟨hs, hy, hm, ht⟩ := h.whole a id ha
  exact ⟨hs, hy, hm, ht⟩

/-- A complete file takes the place of the old one. -/
theorem Moves.rename (h : Sound d) (hneeds : Needs call (.rename source target) d)
    (he : d.entries source = some id) : Moves call d (d.rename source target) := by
  obtain ⟨hs, ht, hfile⟩ := hneeds
  obtain ⟨⟨⟨p₀, hp₀, hc⟩, hnot⟩, hsync, hmode, p, hp, hname, htext⟩ := hfile id he
  obtain rfl := Option.some.inj (hp₀.symm.trans hp)
  have hne : ∀ a, temporary a = false → a ≠ source := by
    rintro a ha rfl
    rw [ha] at hs
    exact absurd hs (by simp)
  have hfiles : (d.rename source target).files = d.files := by rw [Disk.rename_some he]; rfl
  have hnext : (d.rename source target).next = d.next := by rw [Disk.rename_some he]; rfl
  have hren : (d.rename source target).renamed = (target, id) :: d.renamed := by
    rw [Disk.rename_some he]
  have hgiven : (d.rename source target).Given d.renamed target (some id) := Disk.given_cons hren
  have hcand : ∀ a, temporary a = false → ∀ x ∈ (d.rename source target).candidates a,
      x ∈ d.candidates a ∨ (a = target ∧ x = some id) := by
    intro a ha x hx
    rw [Disk.candidates_rename he (hne a ha)] at hx
    split at hx
    · rename_i heq
      rcases List.mem_cons.mp hx with rfl | hx
      · exact .inr ⟨heq, rfl⟩
      · exact .inl hx
    · exact .inl hx
  have hlater : Later d (d.rename source target) :=
    { next := Nat.le_of_eq hnext.symm
      tag := fun _ _ => by rw [hfiles]
      linked := fun _ _ => by rw [hfiles]
      renamed := by
        rw [hren]
        exact List.suffix_cons _ _
      candidates := fun a ha x hx => by
        rcases hcand a ha x hx with hx | ⟨rfl, rfl⟩
        · exact .inl hx
        · exact .inr hgiven }
  refine ⟨⟨fun id' hle => ?_, fun a id' hid => ?_, fun id' hlt htag => ?_, fun a id' ha => ?_,
    fun a ha id' hid => ?_⟩, hlater, fun j hj => ⟨hlater, fun a ha => ?_, fun _ _ _ _ => ?_,
      fun a id' p' ha hea hp' hj' => ?_, fun id' hid => ⟨?_, fun a ha => ?_⟩⟩⟩
  · rw [hfiles]
    exact h.unmade id' (hnext ▸ hle)
  · -- every candidate was one before, under the old name or the new
    rw [hnext]
    by_cases ha : a = source
    · subst ha
      rw [Disk.rename_some he] at hid
      have hid : some id' ∈ ((d.relink a none).relink target (some id)).candidates a := hid
      rw [Disk.candidates_relink, if_neg (Ne.symm (hne target ht)), Disk.candidates_relink,
        if_pos rfl] at hid
      rcases List.mem_cons.mp hid with heq | hid
      · exact absurd heq (by simp)
      · exact h.fresh a id' hid
    · rw [Disk.candidates_rename he ha] at hid
      split at hid
      · rcases List.mem_cons.mp hid with heq | hid
        · rw [Option.some.inj heq]
          exact h.lt_next hp
        · exact h.fresh a id' hid
      · exact h.fresh a id' hid
  · rw [hfiles] at htag ⊢
    exact h.found id' (hnext ▸ hlt) htag
  · rw [hren] at ha
    rcases List.mem_cons.mp ha with heq | ha
    · obtain ⟨rfl, rfl⟩ := Prod.mk.inj heq
      refine ⟨ht, ?_, ?_, ?_⟩
      · rw [hfiles]; exact hsync
      · rw [hfiles]; exact hmode
      · rw [hfiles]; exact ⟨p₀, hp, hname, htext⟩
    · obtain ⟨hs', hy, hm, ht'⟩ := h.whole a id' ha
      exact ⟨hs', hfiles ▸ hy, hfiles ▸ hm, hfiles ▸ ht'⟩
  · rw [hfiles, hren]
    rcases hcand a ha _ hid with hid | ⟨rfl, heq⟩
    · rcases h.linked a ha id' hid with hnone | hmem
      · exact .inl hnone
      · exact .inr (List.mem_cons_of_mem _ hmem)
    · rw [Option.some.inj heq]
      exact .inr List.mem_cons_self
  · rw [Disk.entries_rename he (hne a ha)]
    split
    · rename_i heq
      subst heq
      exact .inr hgiven
    · exact .inl rfl
  · rw [hfiles]
  · -- the temporary name of another call
    have has : a ≠ source := by
      rintro rfl
      rw [he] at hea
      obtain rfl := Option.some.inj hea
      rw [hp] at hp'
      obtain rfl := Option.some.inj hp'
      exact hj (hj'.symm.trans hc)
    have hat : a ≠ target := by
      rintro rfl
      rw [ht] at ha
      exact absurd ha (by simp)
    rw [Disk.entries_rename he has, if_neg hat]
    exact hea
  · rw [hfiles]
    exact hid.1
  · rw [hren] at ha
    rcases List.mem_cons.mp ha with heq | ha
    · obtain ⟨-, rfl⟩ := Prod.mk.inj heq
      obtain ⟨⟨p', hp', hj'⟩, -⟩ := hid
      rw [hp] at hp'
      obtain rfl := Option.some.inj hp'
      exact hj (hj'.symm.trans hc)
    · exact hid.2 a ha

/-- A power cut keeps the invariant. -/
theorem Sound.powerCut (h : Sound d) (hc : d.PowerCut d') : Sound d' ∧ Later d d' := by
  have hlinked : ∀ id, Linked d id → d'.files id = d.files id :=
    fun id hl => hc.synced id (h.synced hl)
  refine ⟨⟨fun id hle => ?_, fun a id hid => ?_, fun id hlt htag => ?_, fun a id ha => ?_,
    fun a ha id hid => ?_⟩, ?_⟩
  · rw [hc.tag]
    exact h.unmade id (hc.next ▸ hle)
  · rw [hc.next]
    exact h.fresh a id (hc.candidates hid)
  · rw [hc.tag] at htag
    rw [hc.next] at hlt
    rw [hlinked id (.inl ⟨hlt, htag⟩)]
    exact h.found id hlt htag
  · rw [hc.renamed] at ha
    have heq := hlinked id (.inr ⟨a, ha⟩)
    obtain ⟨hs, hy, hm, ht⟩ := h.whole a id ha
    exact ⟨hs, heq ▸ hy, heq ▸ hm, heq ▸ ht⟩
  · rw [hc.tag, hc.renamed]
    exact h.linked a ha id (hc.candidates hid)
  · exact
      { next := Nat.le_of_eq hc.next.symm
        tag := fun id _ => hc.tag id
        linked := hlinked
        renamed := by rw [hc.renamed]
        candidates := fun a _ x hx => .inl (hc.candidates hx) }

/-- What a system call can do to the directory, with its answer left out. -/
inductive Effect (call : ℕ) (d : Directory) : StorageOp → Directory → Prop where
  | same {o : StorageOp} : Effect call d o d
  | create {name : String} {text : List UInt8} {source : String} {mode : ℕ}
      (hs : temporary source = true) (hnone : d.entries source = none) :
      Effect call d (.createTemp name text) (d.create source mode ⟨call, name, text⟩)
  | modify {o : StorageOp} {file : ℕ} {f : Inode Purpose → Inode Purpose}
      (hf : ∀ x, (f x).tag = x.tag) (hneeds : Needs call o d → Hidden call d file) :
      Effect call d o (d.modify file f)
  | rename {source target : String} {file : ℕ} (he : d.entries source = some file) :
      Effect call d (.rename source target) (d.rename source target)
  | unlink {name : String} : Effect call d (.removeFile name) (d.unlink name)
  | syncDirectory : Effect call d .syncDirectory d.syncDirectory

theorem exec_effect {o : StorageOp} {r : o.Res} (he : exec call d o r d') :
    Effect call d o d' := by
  cases o with
  | createTemp name text =>
    cases r with
    | none => rw [show d' = d from he]; exact .same
    | some made =>
      obtain ⟨hs, hnone, -, mode, rfl⟩ := he
      exact .create hs hnone
  | setPermissions file mode =>
    cases r with
    | false => rw [show d' = d from he]; exact .same
    | true => rw [show d' = _ from he]; exact .modify (fun _ => rfl) (fun hn => hn)
  | writeAll file bytes =>
    cases r with
    | false =>
      obtain ⟨n, rfl⟩ := he
      exact .modify (fun _ => rfl) (fun hn => hn)
    | true => rw [show d' = _ from he]; exact .modify (fun _ => rfl) (fun hn => hn)
  | syncAll file =>
    cases r with
    | false => rw [show d' = d from he]; exact .same
    | true => rw [show d' = _ from he]; exact .modify (fun _ => rfl) (fun hn => hn)
  | rename source target =>
    cases r with
    | false => rw [show d' = d from he]; exact .same
    | true =>
      obtain ⟨hsome, rfl⟩ := he
      obtain ⟨id, hid⟩ := Option.isSome_iff_exists.mp hsome
      exact .rename hid
  | removeFile name =>
    cases r with
    | false => rw [show d' = d from he]; exact .same
    | true => rw [show d' = _ from he]; exact .unlink
  | openDirectory => rw [show d' = d from he]; exact .same
  | syncDirectory =>
    cases r with
    | false => rw [show d' = d from he]; exact .same
    | true => rw [show d' = _ from he]; exact .syncDirectory
  | openFile name =>
    cases r with
    | ok file => rw [show d' = d from he.2]; exact .same
    | error e =>
      cases e with
      | notFound => rw [show d' = d from he.2]; exact .same
      | other => rw [show d' = d from he]; exact .same
  | readToEnd file =>
    cases r with
    | none => rw [show d' = d from he]; exact .same
    | some bytes => rw [show d' = d from he.2]; exact .same

/-- A system call that is allowed. -/
theorem Effect.moves {o : StorageOp} (he : Effect call d o d') (h : Sound d)
    (hn : Needs call o d) : Moves call d d' := by
  cases he with
  | same => exact .refl h
  | create hs hnone => exact .create h hs hnone _ _
  | modify hf hneeds => exact .modify h (hneeds hn) _ hf
  | rename he => exact .rename h hn he
  | unlink => exact .unlink h hn.1 hn.2
  | syncDirectory => exact .syncDirectory h

/-- Files are made for what their call writes. -/
theorem Effect.tag {o : StorageOp} (he : Effect call d o d') {p : Purpose}
    (hp : (d'.files id).tag = some p) :
    (d.files id).tag = some p ∨ o = .createTemp p.name p.text ∧ p.call = call := by
  cases he with
  | same => exact .inl hp
  | @create name text source mode hs hnone =>
    by_cases hid : id = d.next
    · subst hid
      obtain rfl : ⟨call, name, text⟩ = p := by simpa [Disk.create] using hp
      exact .inr ⟨rfl, rfl⟩
    · simp only [Disk.create, update_of_ne hid] at hp
      exact .inl hp
  | @modify _ file f hf hneeds =>
    rw [Disk.modify_files] at hp
    split at hp
    · rename_i heq
      rw [hf] at hp
      exact .inl (heq ▸ hp)
    · exact .inl hp
  | rename he =>
    rw [Disk.rename_some he] at hp
    exact .inl hp
  | unlink => exact .inl hp
  | syncDirectory => exact .inl hp

/-- A name is given to one file at a time. -/
theorem Effect.renamed {o : StorageOp} (he : Effect call d o d') : d'.renamed = d.renamed ∨
    ∃ source target file, o = .rename source target ∧ d.entries source = some file ∧
      d'.renamed = (target, file) :: d.renamed := by
  cases he with
  | @rename source target file he =>
    apply Or.inr
    exact ⟨source, target, file, rfl, he, by rw [Disk.rename_some he]⟩
  | _ => exact .inl rfl

/-- A stored name as a file: it is replaced by what the call writes, it reaches the disk, or
    nothing happens to it. -/
theorem Effect.file {o : StorageOp} (he : Effect call d o d') (h : Sound d)
    (hn : Needs call o d) {name : String} (hname : temporary name = false) :
    d'.file name = d.file name ∨ d'.file name = (d.file name).settle ∨
      ∃ id p, (d.files id).tag = some p ∧ p.call = call ∧ p.name = name ∧
        d'.file name = (d.file name).write p.text .unsynced := by
  have hne : ∀ source, temporary source = true → name ≠ source := by
    rintro source hs rfl
    rw [hname] at hs
    exact absurd hs (by simp)
  cases he with
  | same => exact .inl rfl
  | create hs hnone =>
    apply Or.inl
    apply Disk.file_create _ _ (hne _ hs)
    intro hmem
    exact Nat.lt_irrefl _ (h.fresh name _ hmem)
  | modify hf hneeds =>
    apply Or.inl
    apply Disk.file_modify
    intro hmem
    exact (hneeds hn).not_linked (h.linked_of_candidate hname hmem)
  | @rename source target file he =>
    obtain ⟨hs, ht, hfile⟩ := hn
    obtain ⟨⟨⟨p, hp, hc⟩, -⟩, -, -, p', hp', htarget, htext⟩ := hfile file he
    obtain rfl := Option.some.inj (hp.symm.trans hp')
    by_cases heq : name = target
    · subst heq
      refine .inr (.inr ⟨file, p, hp, hc, htarget, ?_⟩)
      rw [← htext]
      exact Disk.file_rename he (hne source hs)
    · exact .inl (Disk.file_rename_of_ne he (hne source hs) heq)
  | unlink => exact .inl (Disk.file_unlink (hne _ hn.1))
  | syncDirectory => exact .inr (.inl (Disk.file_syncDirectory d name))

end

end Geata.Storage
