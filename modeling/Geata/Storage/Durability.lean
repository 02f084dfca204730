import Geata.Lib.Alone
import Geata.Storage.Steps

namespace Geata.Storage

open Geata.Lib Function

/-!
# Stored values are whole and durable

A name never stands for anything but a complete text, not even after a power cut, and what a
successful `write` has stored can only be replaced by calls that were not over when it began.

* `write_wp`, `read_wp`, `durability` — the proof outline of `write` and `read`.
* `storage_refines_file` — name by name, every run is one of a `File`.
* `storage_durable` — what survives, and what is read, after a successful `write`.
-/

/-! ### The calls -/

abbrev logic : Logic StorageSig Directory := ⟨exec, Sound, Rely, Needs⟩

/-- The temporary file of a call of `write`. -/
structure Own (call : ℕ) (name : String) (text : List UInt8) (source : String) (file : ℕ)
    (d : Directory) : Prop where
  temporary : temporary source = true
  entry : d.entries source = some file
  tag : (d.files file).tag = some ⟨call, name, text⟩
  unlinked : ∀ a, (a, file) ∉ d.renamed

/-- The new file stands behind the name, or one that was renamed even later does. -/
def Replaced (call : ℕ) (name : String) (text : List UInt8) (d : Directory) : Prop :=
  ∃ file base, file < d.next ∧ (d.files file).tag = some ⟨call, name, text⟩ ∧
    (name, file) :: base <:+ d.renamed ∧ d.Given base name (d.entries name)

/-- Nothing older can come back. -/
def Stored (call : ℕ) (name : String) (text : List UInt8) (d : Directory) : Prop :=
  ∃ file base, file < d.next ∧ (d.files file).tag = some ⟨call, name, text⟩ ∧
    (name, file) :: base <:+ d.renamed ∧ ∀ x ∈ d.candidates name, d.Given base name x

section

variable {d d' : Directory} {call : ℕ} {name : String} {text : List UInt8} {source : String}
  {file : ℕ}

theorem Own.hidden (h : Own call name text source file d) : Hidden call d file :=
  ⟨⟨_, h.tag, rfl⟩, h.unlinked⟩

/-- The others leave the file alone. -/
theorem Own.rely (h : Own call name text source file d) (hr : Rely call d d') :
    Own call name text source file d' ∧ d'.files file = d.files file := by
  have heq := hr.files file _ h.tag rfl
  refine ⟨⟨h.temporary, ?_, ?_, ?_⟩, heq⟩
  · exact hr.sources source file _ h.temporary h.entry h.tag rfl
  · rw [heq]
    exact h.tag
  · exact (hr.hidden file h.hidden).2

theorem Own.modify (h : Own call name text source file d) (f : Inode Purpose → Inode Purpose)
    (hf : ∀ x, (f x).tag = x.tag) : Own call name text source file (d.modify file f) := by
  refine ⟨h.temporary, h.entry, ?_, h.unlinked⟩
  rw [Disk.modify_files, if_pos rfl, hf]
  exact h.tag

theorem Replaced.rely (h : Replaced call name text d) (hname : temporary name = false)
    (hr : Rely call d d') : Replaced call name text d' := by
  obtain ⟨file, base, hlt, htag, hsuffix, hgiven⟩ := h
  refine ⟨file, base, hlt.trans_le hr.next, ?_, hsuffix.trans hr.renamed, ?_⟩
  · rw [hr.tag file hlt]
    exact htag
  · rcases hr.entries name hname with heq | hnew
    · rw [heq]
      exact hgiven.later hr.renamed
    · exact hnew.of_suffix ((List.suffix_cons _ _).trans hsuffix)

/-- What is stored stays stored, through crashes too. -/
theorem Stored.later (h : Stored call name text d) (hname : temporary name = false)
    (hl : Later d d') : Stored call name text d' := by
  obtain ⟨file, base, hlt, htag, hsuffix, hgiven⟩ := h
  refine ⟨file, base, hlt.trans_le hl.next, ?_, hsuffix.trans hl.renamed, fun x hx => ?_⟩
  · rw [hl.tag file hlt]
    exact htag
  · rcases hl.candidates name hname x hx with hx | hnew
    · exact (hgiven x hx).later hl.renamed
    · exact hnew.of_suffix ((List.suffix_cons _ _).trans hsuffix)

theorem Replaced.stored (h : Replaced call name text d) :
    Stored call name text d.syncDirectory := by
  obtain ⟨file, base, hlt, htag, hsuffix, hgiven⟩ := h
  refine ⟨file, base, hlt, htag, hsuffix, fun x hx => ?_⟩
  rw [Disk.candidates_syncDirectory, List.mem_singleton] at hx
  rw [hx]
  exact hgiven

theorem fill_wp {pieces : List (List UInt8)} {done : List UInt8}
    (h : Own call name text source file d) (hc : (d.files file).content = done)
    (hm : (d.files file).mode = 0o600) :
    Stage.wp logic call (fill file pieces)
      (fun _ d => Own call name text source file d ∧
        (d.files file).content = done ++ pieces.flatten ∧ (d.files file).mode = 0o600)
      (fun _ d => Own call name text source file d) d := by
  induction pieces generalizing done d with
  | nil =>
    rw [fill, Stage.wp_pure]
    exact ⟨h, by simp [hc], hm⟩
  | cons piece rest ih =>
    rw [fill, Stage.wp_bind, Stage.wp_perform]
    intro d₁ hr _
    obtain ⟨h₁, heq⟩ := h.rely hr
    refine ⟨h₁.hidden, fun r d₂ he _ => ?_⟩
    rw [Stage.wp_bind, check, Stage.wp_stopIf]
    cases r with
    | false =>
      obtain ⟨n, rfl⟩ := he
      exact ⟨fun _ => h₁.modify _ (fun _ => rfl), by simp⟩
    | true =>
      obtain rfl : d₂ = d₁.append file piece := he
      refine ⟨by simp, fun _ => ?_⟩
      rw [List.flatten_cons, ← List.append_assoc]
      apply ih
      · exact h₁.modify _ (fun _ => rfl)
      · rw [Disk.append, Disk.modify_files, if_pos rfl, heq, hc]
      · rw [Disk.append, Disk.modify_files, if_pos rfl, heq, hm]

variable {α : Type} (F : Serde α) {value : α}

theorem prepare_wp (h : Own call name text source file d) (hc : (d.files file).content = []) :
    Stage.wp logic call (prepare F file value)
      (fun _ d => Own call name text source file d ∧ (d.files file).content = F.text value ∧
        (d.files file).mode = 0o600 ∧ (d.files file).synced = true)
      (fun _ d => Own call name text source file d) d := by
  rw [prepare, Stage.wp_bind, Stage.wp_perform]
  intro d₁ hr _
  obtain ⟨h₁, heq₁⟩ := h.rely hr
  refine ⟨h₁.hidden, fun r d₂ he _ => ?_⟩
  rw [Stage.wp_bind, check, Stage.wp_stopIf]
  cases r with
  | false =>
    obtain rfl : d₂ = d₁ := he
    exact ⟨fun _ => h₁, by simp⟩
  | true =>
    obtain rfl : d₂ = d₁.chmod file 0o600 := he
    refine ⟨by simp, fun _ => ?_⟩
    have h₂ : Own call name text source file (d₁.chmod file 0o600) := h₁.modify _ (fun _ => rfl)
    have hc₂ : ((d₁.chmod file 0o600).files file).content = [] := by
      rw [Disk.chmod, Disk.modify_files, if_pos rfl, heq₁]
      exact hc
    have hm₂ : ((d₁.chmod file 0o600).files file).mode = 0o600 := by
      rw [Disk.chmod, Disk.modify_files, if_pos rfl]
    rw [Stage.wp_bind]
    apply Stage.wp_mono (fill_wp h₂ hc₂ hm₂)
    · rintro - d₃ ⟨h₃, hc₃, hm₃⟩
      rw [Stage.wp_bind, Stage.wp_perform]
      intro d₄ hr₄ _
      obtain ⟨h₄, heq₄⟩ := h₃.rely hr₄
      refine ⟨h₄.hidden, fun r d₅ he₅ _ => ?_⟩
      rw [check, Stage.wp_stopIf]
      cases r with
      | false =>
        obtain rfl : d₅ = d₄ := he₅
        exact ⟨fun _ => h₄, by simp⟩
      | true =>
        obtain rfl : d₅ = d₄.sync file := he₅
        refine ⟨by simp, fun _ => ⟨h₄.modify _ (fun _ => rfl), ?_⟩⟩
        rw [Disk.sync, Disk.modify_files, if_pos rfl, heq₄]
        exact ⟨hc₃, hm₃, rfl⟩
    · exact fun _ _ he => he

/-- A call of `write` that returns has stored its value. -/
theorem write_wp (hname : temporary name = false) :
    Stage.wp logic call (write F name value) (fun _ d => Stored call name (F.text value) d)
      (fun _ _ => True) d := by
  rw [write, Stage.wp_bind, Stage.wp_perform]
  intro d₁ _ _
  refine ⟨trivial, fun r d₂ he hs₂ => ?_⟩
  cases r with
  | none => trivial
  | some made =>
    obtain ⟨source, file⟩ := made
    obtain ⟨hsource, -, rfl, mode, rfl⟩ := he
    have hown : Own call name (F.text value) source d₁.next
        (d₁.create source mode ⟨call, name, F.text value⟩) := by
      refine ⟨hsource, ?_, ?_, fun a ha => ?_⟩
      · simp [Disk.create, Disk.relink]
      · simp [Disk.create]
      · -- renamed files were made before
        obtain ⟨p, hp, hp', -⟩ := (hs₂.whole a _ ha).text
        obtain ⟨hstored, hsync, -, -⟩ := hs₂.whole a _ ha
        simp [Disk.create] at hsync
    rw [Stage.wp_bind, orRemove, Stage.wp_bind, Stage.wp_attempt]
    -- the rest, whether the new file took its place or not
    have hbody : Stage.wp logic call (do
          prepare F d₁.next value
          check (← Stage.perform (S := StorageSig) (.rename source name)))
        (fun _ d => Replaced call name (F.text value) d)
        (fun _ d => Own call name (F.text value) source d₁.next d)
        (d₁.create source mode ⟨call, name, F.text value⟩) := by
      rw [Stage.wp_bind]
      apply Stage.wp_mono (prepare_wp F hown (by simp [Disk.create])) ?_ (fun _ _ he => he)
      rintro - d₃ ⟨h₃, hc₃, hm₃, hy₃⟩
      rw [Stage.wp_bind, Stage.wp_perform]
      intro d₄ hr₄ hs₄
      obtain ⟨h₄, heq₄⟩ := h₃.rely hr₄
      refine ⟨⟨hsource, hname, fun f hf => ?_⟩, fun r d₅ he₅ _ => ?_⟩
      · obtain rfl := Option.some.inj (h₄.entry.symm.trans hf)
        refine ⟨h₄.hidden, ?_, ?_, _, h₄.tag, rfl, ?_⟩
        · rw [heq₄]; exact hy₃
        · rw [heq₄]; exact hm₃
        · rw [heq₄]; exact hc₃
      · rw [check, Stage.wp_stopIf]
        cases r with
        | false =>
          obtain rfl : d₅ = d₄ := he₅
          exact ⟨fun _ => h₄, by simp⟩
        | true =>
          obtain ⟨-, rfl⟩ := he₅
          refine ⟨by simp, fun _ => ⟨d₁.next, d₄.renamed, ?_, ?_, ?_, ?_⟩⟩
          · rw [Disk.rename_some h₄.entry]
            show d₁.next < d₄.next
            exact Sound.lt_next hs₄ h₄.tag
          · rw [Disk.rename_some h₄.entry]
            exact h₄.tag
          · rw [Disk.rename_some h₄.entry]
          · have hne : name ≠ source := by
              rintro rfl
              rw [hname] at hsource
              exact absurd hsource (by simp)
            rw [Disk.entries_rename h₄.entry hne, if_pos rfl]
            apply Disk.given_cons
            rw [Disk.rename_some h₄.entry]
    apply Logic.wp_mono hbody
    rintro (e | ⟨⟩) d₃ h₃
    · -- the temporary file is removed, and the error returned
      refine Stage.wp_bind.mpr (Stage.wp_perform.mpr fun d₄ hr₄ _ => ?_)
      obtain ⟨h₄, -⟩ := Own.rely h₃ hr₄
      refine ⟨⟨hsource, fun f hf => ?_⟩, fun _ _ _ _ => trivial⟩
      obtain rfl := Option.some.inj (h₄.entry.symm.trans hf)
      exact ⟨_, h₄.tag, rfl⟩
    · have hrep : Replaced call name (F.text value) d₃ := h₃
      show Stage.wp logic call (do
        check (← Stage.perform (S := StorageSig) .openDirectory)
        check (← Stage.perform (S := StorageSig) .syncDirectory)) _ _ d₃
      rw [Stage.wp_bind, Stage.wp_perform]
      intro d₄ hr₄ _
      have hrep₄ := hrep.rely hname hr₄
      refine ⟨trivial, fun r d₅ he₅ _ => ?_⟩
      obtain rfl : d₅ = d₄ := he₅
      rw [Stage.wp_bind, check, Stage.wp_stopIf]
      refine ⟨fun _ => trivial, fun _ => ?_⟩
      rw [Stage.wp_bind, Stage.wp_perform]
      intro d₆ hr₆ _
      have hrep₆ := hrep₄.rely hname hr₆
      refine ⟨trivial, fun r d₇ he₇ _ => ?_⟩
      rw [check, Stage.wp_stopIf]
      cases r with
      | false => exact ⟨fun _ => trivial, by simp⟩
      | true =>
        obtain rfl : d₇ = d₆.syncDirectory := he₇
        exact ⟨by simp, fun _ => hrep₆.stored⟩

/-- A call of `read` reads files that nobody writes to any more. -/
theorem read_wp (hname : temporary name = false) :
    Stage.wp logic call (read F name) (fun _ _ => True) (fun _ _ => True) d := by
  rw [read, Stage.wp_bind, Stage.wp_perform]
  intro d₁ _ hs₁
  refine ⟨trivial, fun r d₂ he _ => ?_⟩
  cases r with
  | error e =>
    cases e with
    | notFound => trivial
    | other => trivial
  | ok file =>
    obtain ⟨hentry, rfl⟩ := he
    have hlinked : Linked d₂ file := by
      apply hs₁.linked_of_candidate hname
      rw [Disk.candidates, hentry]
      exact List.mem_cons_self
    rw [Stage.wp_bind, Stage.wp_perform]
    intro d₃ hr₃ _
    refine ⟨hlinked.later hr₃.toLater, fun r d₄ _ _ => ?_⟩
    cases r with
    | none => trivial
    | some bytes =>
      cases hvalue : F.fromSlice bytes with
      | none =>
        simp only [hvalue]
        trivial
      | some value =>
        simp only [hvalue]
        trivial

end

/-- What a call has achieved when it answers. -/
def Post {α : Type} (F : Serde α) (call : ℕ) : Request α → Answer α → Directory → Prop
  | .write name value, .written (.ok ()), d =>
    temporary name = false ∧ Stored call name (F.text value) d
  | _, _, _ => True

/-- The proof outline of the storage directory. -/
def durability {α : Type} (F : Serde α) : Outline (machine F) where
  Inv := Sound
  Rely := Rely
  Needs := Needs
  Hist := Later
  Post := Post F
  rely_refl := Rely.refl
  rely_trans _ _ _ _ := Rely.trans
  rely_hist _ _ _ h := h.toLater
  hist_trans _ _ _ := Later.trans
  post_hist call q a d d' hl hp := by
    cases q with
    | read name => trivial
    | write name value =>
      cases a with
      | value result => trivial
      | written result =>
        cases result with
        | error e => trivial
        | ok u =>
          obtain ⟨hname, hstored⟩ := hp
          exact ⟨hname, hstored.later hname hl⟩
  init d hd := by
    refine ⟨fun id _ => hd.tag id, fun a id hid => ?_, fun id hlt _ => hd.synced id hlt,
      fun a id ha => ?_, fun a _ id _ => .inl (hd.tag id)⟩
    · rw [Disk.candidates, hd.older a, List.mem_singleton] at hid
      exact hd.fresh a id hid.symm
    · rw [hd.renamed] at ha
      exact absurd ha (by simp)
  start call d q hs hq := by
    cases q with
    | write name value =>
      refine (Logic.wp_bind _ _ _ _).mpr (Logic.wp_mono (write_wp F hq) ?_)
      rintro (e | ⟨⟩) d' hd'
      · trivial
      · exact ⟨hq, hd'⟩
    | read name =>
      refine (Logic.wp_bind _ _ _ _).mpr (Logic.wp_mono (read_wp F hq) ?_)
      rintro (e | r) d' -
      · trivial
      · trivial
  exec call d o r d' hs hn he := by
    have hm := (exec_effect he).moves hs hn
    exact ⟨hm.sound, hm.rely⟩
  cut call d o d' hs hn hc := by
    rcases hc with rfl | ⟨r, he⟩
    · exact ⟨hs, fun j _ => .refl j _⟩
    · have hm := (exec_effect he).moves hs hn
      exact ⟨hm.sound, hm.rely⟩
  env d d' hs he := he.elim
  release call d hs := ⟨hs, fun j _ => .refl j d⟩
  crash d d' hs hc := by
    rcases hc with rfl | hc
    · exact ⟨hs, .refl _⟩
    · exact hs.powerCut hc

/-! ### Files and requests -/

section

variable {α : Type} {F : Serde α} {w w₀ w₁ : World StorageSig Directory (Request α) (Answer α)}

/-- The operation makes a file only for the value of the request. -/
def Creates (F : Serde α) (q : Request α) (o : StorageOp) : Prop :=
  ∀ name text, o = .createTemp name text → ∃ value, q = .write name value ∧ text = F.text value

theorem code_creates (q : Request α) : (code F q).All (Creates F q) := by
  have hcheck : ∀ (P : StorageOp → Prop) (ok : Bool), Stage.All P (check ok) :=
    fun P ok => Stage.all_stopIf _ _
  have hfill : ∀ (P : StorageOp → Prop) (file : ℕ) (pieces : List (List UInt8)),
      (∀ bytes, P (.writeAll file bytes)) → Stage.All P (fill file pieces) := by
    intro P file pieces hP
    induction pieces with
    | nil => exact Stage.all_pure _
    | cons piece rest ih =>
      apply Stage.All.bind (Stage.all_perform.mpr (hP piece))
      intro ok
      exact Stage.All.bind (hcheck P ok) (fun _ => ih)
  cases q with
  | write name value =>
    refine Prog.all_bind.mpr ⟨?_, fun _ _ _ => trivial⟩
    apply Stage.All.bind
    · apply Stage.all_perform.mpr
      intro name' text' heq
      obtain ⟨rfl, rfl⟩ := StorageOp.createTemp.inj heq
      exact ⟨value, rfl, rfl⟩
    · rintro (- | ⟨source, file⟩)
      · exact Stage.all_throw _
      · have hbody : Stage.All (Creates F (.write name value)) (do
              prepare F file value
              check (← Stage.perform (S := StorageSig) (.rename source name))) := by
          refine Stage.All.bind ?_ (fun _ => ?_)
          · refine Stage.All.bind (Stage.all_perform.mpr (by simp [Creates])) (fun ok => ?_)
            refine Stage.All.bind (hcheck _ ok) (fun _ => ?_)
            refine Stage.All.bind (hfill _ _ _ (by simp [Creates])) (fun _ => ?_)
            exact Stage.All.bind (Stage.all_perform.mpr (by simp [Creates])) (hcheck _)
          · exact Stage.All.bind (Stage.all_perform.mpr (by simp [Creates])) (hcheck _)
        refine Stage.All.bind ?_ (fun _ => ?_)
        · refine Stage.All.bind (Stage.all_attempt.mpr hbody) ?_
          rintro (e | ⟨⟩)
          · exact Stage.All.bind (Stage.all_perform.mpr (by simp [Creates])) (fun _ => Stage.all_throw _)
          · exact Stage.all_pure _
        · refine Stage.All.bind (Stage.all_perform.mpr (by simp [Creates])) (fun ok => ?_)
          refine Stage.All.bind (hcheck _ ok) (fun _ => ?_)
          exact Stage.All.bind (Stage.all_perform.mpr (by simp [Creates])) (hcheck _)
  | read name =>
    refine Prog.all_bind.mpr ⟨?_, fun _ _ _ => trivial⟩
    refine Stage.All.bind (Stage.all_perform.mpr (by simp [Creates])) ?_
    rintro (e | file)
    · cases e with
      | notFound => exact Stage.all_pure _
      | other => exact Stage.all_throw _
    · refine Stage.All.bind (Stage.all_perform.mpr (by simp [Creates])) ?_
      rintro (- | bytes)
      · exact Stage.all_throw _
      · cases hvalue : F.fromSlice bytes with
        | none =>
          simp only [hvalue]
          exact Stage.all_throw _
        | some value =>
          simp only [hvalue]
          exact Stage.all_pure _

/-- What a step does to the directory. -/
theorem step_effect (hs : World.Step (machine F) w w₁) : w₁.shared = w.shared ∨
    (∃ call q o k, w.procs call = some (q, .op o k) ∧ Effect call w.shared o w₁.shared) ∨
    w.shared.PowerCut w₁.shared := by
  cases hs with
  | exec hp he => exact .inr (.inl ⟨_, _, _, _, hp, exec_effect he⟩)
  | cancel hp hc =>
    rcases hc with rfl | ⟨r, he⟩
    · exact .inl rfl
    · exact .inr (.inl ⟨_, _, _, _, hp, exec_effect he⟩)
  | env he => exact he.elim
  | crash hc =>
    rcases hc with rfl | hc
    · exact .inl rfl
    · exact .inr (.inr hc)
  | _ => exact .inl rfl

/-- Every file is made for the request of its call. -/
theorem tag_requests (h : World.Reachable (machine F) w) {id : ℕ} {p : Purpose}
    (hp : (w.shared.files id).tag = some p) :
    ∃ value, w.requests p.call = some (.write p.name value) ∧ p.text = F.text value := by
  refine World.Reachable.induction (P := fun w => ∀ id p, (w.shared.files id).tag = some p →
    ∃ value, w.requests p.call = some (.write p.name value) ∧ p.text = F.text value) ?_ ?_ h id p hp
  · intro d hd id p hp
    rw [show (World.initial d).shared = d from rfl, hd.tag] at hp
    exact absurd hp (by simp)
  · intro w w' hw ih hs id p hp
    have hkeep : (w.shared.files id).tag = some p →
        ∃ value, w'.requests p.call = some (.write p.name value) ∧ p.text = F.text value := by
      intro hp
      obtain ⟨value, hq, htext⟩ := ih id p hp
      exact ⟨value, World.Steps.requests hw (.single hs) hq, htext⟩
    rcases step_effect hs with heq | ⟨call, q, o, k, hproc, he⟩ | hc
    · exact hkeep (heq ▸ hp)
    · rcases he.tag hp with hp | ⟨rfl, rfl⟩
      · exact hkeep hp
      · obtain ⟨hq, hr⟩ := hw.tidy.reaches _ _ _ hproc
        obtain ⟨-, ho, -⟩ := (code_creates q).reaches hr
        obtain ⟨value, rfl, htext⟩ := ho _ _ rfl
        exact ⟨value, World.Steps.requests hw (.single hs) hq, htext⟩
    · exact hkeep (hc.tag id ▸ hp)

/-! ### Refinement -/

/-- The texts that were asked to be stored under a name. -/
def Asked (F : Serde α) (w : World StorageSig Directory (Request α) (Answer α)) (name : String)
    (bytes : List UInt8) : Prop :=
  ∃ call value, w.requests call = some (.write name value) ∧ bytes = F.text value

/-- Every file that was renamed holds what its call was asked to write, all of it. -/
theorem whole_asked (h : World.Reachable (machine F) w) {name : String} {id : ℕ}
    (hid : (name, id) ∈ w.shared.renamed) :
    ∃ p value, (w.shared.files id).tag = some p ∧ w.requests p.call = some (.write name value) ∧
      (w.shared.files id).content = F.text value := by
  obtain ⟨p, hp, rfl, htext⟩ := (((durability F).sound h).inv.whole name id hid).text
  obtain ⟨value, hq, hvalue⟩ := tag_requests h hp
  exact ⟨p, value, hp, hq, htext.trans hvalue⟩

/-- **Refinement.**  Name by name, a run of any calls at the same time, with system calls that fail,
    processes that are killed and power cuts, is a run of a `File` that is replaced as a whole by
    texts that were asked to be stored under the name. -/
theorem storage_refines_file (h : World.Reachable (machine F) w₀)
    (hs : World.Steps (machine F) w₀ w) {name : String} (hname : temporary name = false) :
    Relation.ReflTransGen (File.Step (Asked F w name)) (w₀.shared.file name)
      (w.shared.file name) := by
  induction hs with
  | refl => exact .refl
  | @tail v w hv hs ih =>
    have hreach := h.steps hv
    have hholds := (durability F).sound hreach
    have hkeep : ∀ bytes, Asked F v name bytes → Asked F w name bytes := by
      rintro bytes ⟨call, value, hq, hbytes⟩
      exact ⟨call, value, World.Steps.requests hreach (.single hs) hq, hbytes⟩
    have hrun : Relation.ReflTransGen (File.Step (Asked F w name)) (w₀.shared.file name)
        (v.shared.file name) := by
      apply Relation.ReflTransGen.mono _ _ _ ih
      intro f f' hstep
      exact File.Step.mono hstep hkeep
    rcases step_effect hs with heq | ⟨call, q, o, k, hproc, he⟩ | hc
    · rw [heq]
      exact hrun
    · have hneeds : Needs call o v.shared := hholds.needs _ hproc
      rcases he.file hholds.inv hneeds hname with heq | heq | ⟨id, p, hp, -, rfl, heq⟩
      · rw [heq]
        exact hrun
      · rw [heq]
        exact hrun.tail .settle
      · rw [heq]
        apply hrun.tail
        apply File.Step.write
        obtain ⟨value, hq, htext⟩ := tag_requests hreach hp
        exact hkeep _ ⟨p.call, value, hq, htext⟩
    · apply hrun.tail
      apply File.Step.crash
      apply Disk.file_powerCut hc
      intro id hid
      exact hholds.inv.synced (hholds.inv.linked_of_candidate hname hid)

/-! ### Durability -/

/-- The call was running at `w₀`, or has been made since. -/
def Current (w₀ : World StorageSig Directory (Request α) (Answer α)) (call : ℕ) : Prop :=
  w₀.procs call ≠ none ∨ w₀.started ≤ call

/-- What was renamed since is the work of current calls. -/
theorem renamed_current (h : World.Reachable (machine F) w₀)
    (hs : World.Steps (machine F) w₀ w) : ∃ added, w.shared.renamed = added ++ w₀.shared.renamed ∧
      ∀ r ∈ added, ∃ p, (w.shared.files r.2).tag = some p ∧ Current w₀ p.call := by
  induction hs with
  | refl => exact ⟨[], rfl, by simp⟩
  | @tail v w hv hs ih =>
    obtain ⟨added, hadded, hcur⟩ := ih
    have hreach := h.steps hv
    have hholds := (durability F).sound hreach
    have hlater : Later v.shared w.shared := (durability F).hist_step hholds hs
    have htag : ∀ id p, (v.shared.files id).tag = some p → (w.shared.files id).tag = some p := by
      intro id p hp
      rw [hlater.tag id (hholds.inv.lt_next hp)]
      exact hp
    have hcur' : ∀ r ∈ added, ∃ p, (w.shared.files r.2).tag = some p ∧ Current w₀ p.call := by
      intro r hr
      obtain ⟨p, hp, hc⟩ := hcur r hr
      exact ⟨p, htag _ _ hp, hc⟩
    rcases step_effect hs with heq | ⟨call, q, o, k, hproc, he⟩ | hc
    · exact ⟨added, by rw [heq, hadded], hcur'⟩
    · rcases he.renamed with heq | ⟨source, target, file, rfl, hentry, heq⟩
      · exact ⟨added, by rw [heq, hadded], hcur'⟩
      · refine ⟨(target, file) :: added, by rw [heq, hadded, List.cons_append], fun r hr => ?_⟩
        rcases List.mem_cons.mp hr with rfl | hr
        · -- the renaming call is running
          have hneeds : Needs call (.rename source target) v.shared := hholds.needs _ hproc
          obtain ⟨⟨⟨p, hp, rfl⟩, -⟩, -⟩ := hneeds.2.2 file hentry
          refine ⟨p, htag _ _ hp, World.Steps.running hv ?_⟩
          rw [hproc]
          simp
        · exact hcur' r hr
    · exact ⟨added, by rw [hc.renamed, hadded], hcur'⟩

/-- After a successful write only current calls' files are left behind its name. -/
theorem stored_current (h : World.Reachable (machine F) w₀) (hs : World.Steps (machine F) w₀ w)
    {call : ℕ} {name : String} {value : α} (hcall : w₀.started ≤ call)
    (hok : (call, .write name value, .written (.ok ())) ∈ w.returned) {x : Option ℕ}
    (hx : x ∈ w.shared.candidates name) : ∃ id p, x = some id ∧ (name, id) ∈ w.shared.renamed ∧
      (w.shared.files id).tag = some p ∧ Current w₀ p.call := by
  have hreach := h.steps hs
  obtain ⟨added, hadded, hcur⟩ := renamed_current h hs
  obtain ⟨-, file, base, -, htag, hsuffix, hgiven⟩ :
      Post F call (.write name value) (.written (.ok ())) w.shared :=
    ((durability F).sound hreach).returned _ hok
  -- the file of the call was not there yet at `w₀`
  have hnew : (name, file) ∉ w₀.shared.renamed := by
    intro hmem
    obtain ⟨p, value', hp, hq, -⟩ := whole_asked h hmem
    have hlater : Later w₀.shared w.shared := (durability F).hist_steps h hs
    rw [hlater.tag file (((durability F).sound h).inv.lt_next hp), hp] at htag
    obtain rfl := Option.some.inj htag
    rw [(h.tidy.fresh call hcall).2.2] at hq
    exact absurd hq (by simp)
  have hbase : w₀.shared.renamed <:+ base := by
    have hw₀ : w₀.shared.renamed <:+ w.shared.renamed := ⟨added, hadded.symm⟩
    rcases List.suffix_or_suffix_of_suffix hw₀ hsuffix with hle | hle
    · rcases List.suffix_cons_iff.mp hle with heq | hle
      · exact absurd (heq ▸ List.mem_cons_self) hnew
      · exact hle
    · exact absurd (hle.subset List.mem_cons_self) hnew
  obtain ⟨id, more, rfl, hmore, hmem⟩ := (hgiven x hx).of_suffix hbase
  obtain rfl : added = more := List.append_cancel_right (hadded.symm.trans hmore)
  obtain ⟨p, hp, hc⟩ := hcur _ hmem
  exact ⟨id, p, rfl, hadded ▸ List.mem_append_left _ hmem, hp, hc⟩

/-- The ends of a run of `read`. -/
theorem read_ends {name : String} {tr : List StorageSig.Event} {r : Except Error (Option α)}
    (h : (read F name).Ends tr r) : r = .error (.context ("cannot read stored " ++ name)) ∨
      (⟨.openFile name, .error .notFound⟩ : StorageSig.Event) ∈ tr ∨
      ∃ id bytes, (⟨.openFile name, .ok id⟩ : StorageSig.Event) ∈ tr ∧
        (⟨.readToEnd id, some bytes⟩ : StorageSig.Event) ∈ tr ∧
        ∀ value, F.fromSlice bytes = some value → r = .ok (some value) := by
  rw [read] at h
  rcases Stage.ends_bind.mp h with ⟨e, he, -⟩ | ⟨opened, tr₁, tr₂, rfl, h₁, h₂⟩
  · obtain ⟨a, -, habs⟩ := Stage.ends_perform.mp he
    exact absurd habs (by simp)
  · obtain ⟨a, rfl, heq⟩ := Stage.ends_perform.mp h₁
    obtain rfl := Except.ok.inj heq
    cases opened with
    | error e =>
      cases e with
      | notFound => exact .inr (.inl (by simp))
      | other => exact .inl (Stage.ends_throw.mp h₂).2.symm
    | ok id =>
      rcases Stage.ends_bind.mp h₂ with ⟨e, he, -⟩ | ⟨got, tr₃, tr₄, rfl, h₃, h₄⟩
      · obtain ⟨a, -, habs⟩ := Stage.ends_perform.mp he
        exact absurd habs (by simp)
      · obtain ⟨a, rfl, heq⟩ := Stage.ends_perform.mp h₃
        obtain rfl := Except.ok.inj heq
        cases got with
        | none => exact .inl (Stage.ends_throw.mp h₄).2.symm
        | some bytes =>
          refine .inr (.inr ⟨id, bytes, by simp, by simp, fun value hvalue => ?_⟩)
          simp only [hvalue] at h₄
          exact (Stage.ends_pure.mp h₄).2.symm

/-- **Durability.**  Let a call of `write`, made after `w₀`, have succeeded by `w`.  Then whatever
    stands behind its name at `w`, and whatever a power cut can bring back there, is the whole text
    of a value that some call was asked to write under this name, where the call was running at
    `w₀` or was made since; and a `read` of the name that is made after `w` gives such a value,
    unless the operating system reports an error. -/
theorem storage_durable (hF : ∀ value, F.fromSlice (F.text value) = some value)
    (h : World.Reachable (machine F) w₀) (hs : World.Steps (machine F) w₀ w) {call : ℕ}
    {name : String} {value : α} (hcall : w₀.started ≤ call)
    (hok : (call, .write name value, .written (.ok ())) ∈ w.returned) :
    (∀ c, (w.shared.file name).Survives c → ∃ j value', c = some (F.text value') ∧
      w.requests j = some (.write name value') ∧ Current w₀ j) ∧
    ∀ w₁, World.Steps (machine F) w w₁ → ∀ k r, (k, .read name, .value r) ∈ w₁.returned →
      w.started ≤ k → r = .error (.context ("cannot read stored " ++ name)) ∨
        ∃ j value', r = .ok (some value') ∧ w₁.requests j = some (.write name value') ∧
          Current w₀ j := by
  constructor
  · intro c hc
    obtain ⟨x, hx, rfl⟩ := Disk.survives_file.mp hc
    obtain ⟨id, p, rfl, hid, hp, hcur⟩ := stored_current h hs hcall hok hx
    obtain ⟨p', value', hp', hq, hcontent⟩ := whole_asked (h.steps hs) hid
    obtain rfl := Option.some.inj (hp.symm.trans hp')
    exact ⟨p.call, value', congrArg some hcontent, hq, hcur⟩
  · intro w₁ hs₁ k r hr hk
    have hw := h.steps hs
    have hw₁ := hw.steps hs₁
    obtain ⟨-, hruns⟩ := hw₁.tidy.runs _ hr
    obtain ⟨r', tr, tr', htr, hends, hret⟩ := Prog.runs_bind.mp hruns
    obtain ⟨rfl, heq⟩ := Prog.runs_ret.mp hret
    obtain rfl := (Answer.value.inj heq)
    rw [List.append_nil] at htr
    -- the reading call has done everything after `w`
    have hperformed : ∀ e ∈ tr, ∃ u v q k', World.Steps (machine F) w u ∧
        World.Steps (machine F) u w₁ ∧ u.procs k = some (q, .op e.1 k') ∧
        exec k u.shared e.1 e.2 v := by
      intro e he
      rcases World.Steps.performed hs₁ (i := k) (htr ▸ he) with hold | ⟨u, v, q, k', h₁, h₂, h₃, hp, hx⟩
      · rw [(hw.tidy.fresh k hk).2.1] at hold
        exact absurd hold (by simp)
      · exact ⟨u, v.shared, q, k', h₁, .head h₂ h₃, hp, hx⟩
    have hstill : ∀ u, World.Steps (machine F) w u →
        (call, .write name value, .written (.ok ())) ∈ u.returned :=
      fun u hu => World.Steps.mem_returned hu hok
    rcases read_ends hends with herr | hopen | ⟨id, bytes, hopen, hread, hvalue⟩
    · exact .inl herr
    · -- there was a file
      obtain ⟨u, v, q, k', hu, -, -, hx⟩ := hperformed _ hopen
      obtain ⟨hnone, -⟩ : u.shared.entries name = none ∧ v = u.shared := hx
      obtain ⟨id, p, hsome, -⟩ := stored_current h (hs.trans hu) hcall (hstill u hu)
        (x := u.shared.entries name) List.mem_cons_self
      rw [hnone] at hsome
      exact absurd hsome (by simp)
    · obtain ⟨u, v, q, k', hu, hu₁, -, hx⟩ := hperformed _ hopen
      obtain ⟨hentry, -⟩ : u.shared.entries name = some id ∧ v = u.shared := hx
      obtain ⟨id', p, hsome, hid, hp, hcur⟩ := stored_current h (hs.trans hu) hcall (hstill u hu)
        (x := u.shared.entries name) List.mem_cons_self
      obtain rfl := Option.some.inj (hentry.symm.trans hsome)
      obtain ⟨u', v', q', k'', hu', hu₁', hproc, hx'⟩ := hperformed _ hread
      obtain ⟨hbytes, -⟩ : bytes = (u'.shared.files id).content ∧ v' = u'.shared := hx'
      -- the file has not changed since it was opened, nor since it was read
      have hlater : Later u.shared w₁.shared := (durability F).hist_steps (hw.steps hu) hu₁
      have hlater' : Later u'.shared w₁.shared := (durability F).hist_steps (hw.steps hu') hu₁'
      have hlinked : Linked u'.shared id := ((durability F).sound (hw.steps hu')).needs _ hproc
      have hsame := hlater.linked id (.inr ⟨name, hid⟩)
      obtain ⟨p', value', hp', hq, hcontent⟩ := whole_asked hw₁ (hlater.renamed.subset hid)
      rw [hsame] at hp'
      obtain rfl := Option.some.inj (hp.symm.trans hp')
      refine .inr ⟨p.call, value', hvalue value' ?_, hq, hcur⟩
      rw [hbytes, ← hlater'.linked id hlinked, hcontent]
      exact hF value'

end

/-! ### A test run -/

/-- Values that are their own text. -/
def testSerde : Serde (List UInt8) where
  toWriter value := [value]
  fromSlice := some

/-- An empty directory. -/
def testFound : Directory where
  files _ := { mode := 0o600, synced := true, tag := none }
  next := 0
  entries _ := none
  older _ := []

theorem found_testFound : Found testFound where
  older _ := rfl
  renamed := rfl
  fresh _ _ h := absurd h (by simp [testFound])
  tag _ := rfl
  synced _ h := absurd h (Nat.not_lt_zero _)

/-- A value is written. -/
theorem exists_testStored : ∃ w, World.Steps (machine testSerde) (World.initial testFound) w ∧
    w.started = 1 ∧ w.returned = [(0, .write "a.json" [1], .written (.ok ()))] ∧
      w.shared.entries "a.json" = some 0 ∧ (w.shared.files 0).content = [1] := by
  let d₁ : Directory := testFound.create ".tmpA" 0o600 ⟨0, "a.json", [1]⟩
  let d₄ : Directory := ((d₁.chmod 0 0o600).append 0 [1]).sync 0
  have hentry : d₄.entries ".tmpA" = some 0 := rfl
  have hcreate : exec 0 testFound (.createTemp "a.json" [1]) (some (".tmpA", 0)) d₁ :=
    ⟨by decide, rfl, rfl, 0o600, rfl⟩
  have hrename : exec 0 d₄ (.rename ".tmpA" "a.json") true (d₄.rename ".tmpA" "a.json") :=
    ⟨rfl, rfl⟩
  have halone : Prog.Alone (exec 0) testFound (code testSerde (.write "a.json" [1]))
      (.written (.ok ())) (d₄.rename ".tmpA" "a.json").syncDirectory := by
    refine .op hcreate ?_
    refine .op (show exec 0 d₁ (.setPermissions 0 0o600) true (d₁.chmod 0 0o600) from rfl) ?_
    refine .op (show exec 0 _ (.writeAll 0 [1]) true (Disk.append _ 0 [1]) from rfl) ?_
    refine .op (show exec 0 _ (.syncAll 0) true d₄ from rfl) ?_
    refine .op hrename ?_
    refine .op (show exec 0 _ .openDirectory true _ from rfl) ?_
    refine .op (show exec 0 _ .syncDirectory true _ from rfl) ?_
    exact .ret _ _
  obtain ⟨w, hsteps, hshared, hstarted, hreturned⟩ := World.steps_answer
    (M := machine testSerde) (w := World.initial testFound) (q := .write "a.json" [1])
    (show temporary "a.json" = false by decide) halone
  refine ⟨w, hsteps, hstarted, hreturned, ?_, ?_⟩
  · rw [hshared]
    rfl
  · rw [hshared]
    rfl

/-- A value is written, then read; and whatever survived in between is what some call wrote. -/
theorem storage_durable_first : ∃ w₀ w w₁ : World StorageSig Directory (Request (List UInt8))
      (Answer (List UInt8)), World.Reachable (machine testSerde) w₀ ∧
    World.Steps (machine testSerde) w₀ w ∧ World.Steps (machine testSerde) w w₁ ∧
    (0, .write "a.json" [1], .written (.ok ())) ∈ w.returned ∧
    (1, .read "a.json", .value (.ok (some [1]))) ∈ w₁.returned ∧
    (∀ c, (w.shared.file "a.json").Survives c → ∃ j value, c = some (testSerde.text value) ∧
      w.requests j = some (.write "a.json" value) ∧ Current w₀ j) ∧
    ∃ j value, w₁.requests j = some (.write "a.json" value) ∧ value = [1] ∧ Current w₀ j := by
  obtain ⟨w, hsteps, hstarted, hreturned, hentry, hcontent⟩ := exists_testStored
  have hread : Prog.Alone (exec 1) w.shared (code testSerde (.read "a.json"))
      (.value (.ok (some [1]))) w.shared := by
    have hopen : exec 1 w.shared (.openFile "a.json") (.ok 0) w.shared := ⟨hentry, rfl⟩
    have hbytes : exec 1 w.shared (.readToEnd 0) (some [1]) w.shared := ⟨hcontent.symm, rfl⟩
    exact .op hopen (.op hbytes (.ret _ _))
  obtain ⟨w₁, hsteps₁, -, -, hreturned₁⟩ := World.steps_answer
    (M := machine testSerde) (w := w) (q := .read "a.json")
    (show temporary "a.json" = false by decide) (hstarted ▸ hread)
  have hreach : World.Reachable (machine testSerde) (World.initial testFound) :=
    ⟨testFound, found_testFound, .refl⟩
  have hok : (0, .write "a.json" [1], .written (.ok ())) ∈ w.returned := by
    rw [hreturned]
    exact List.mem_cons_self
  have hvalue : (1, .read "a.json", .value (.ok (some [1]))) ∈ w₁.returned := by
    rw [hreturned₁, hstarted]
    exact List.mem_cons_self
  obtain ⟨hsurvives, hreads⟩ := storage_durable (fun value => by simp [testSerde, Serde.text])
    hreach hsteps (Nat.zero_le 0) hok
  refine ⟨_, w, w₁, hreach, hsteps, hsteps₁, hok, hvalue, hsurvives, ?_⟩
  rcases hreads w₁ hsteps₁ 1 _ hvalue (Nat.le_of_eq hstarted) with herr | ⟨j, value, heq, hq, hcur⟩
  · exact absurd herr (by simp)
  · exact ⟨j, value, hq, by simpa using heq.symm, hcur⟩

/-- The write replaced the file and the replacement reached the disk. -/
theorem storage_refines_file_first : ∃ w : World StorageSig Directory (Request (List UInt8))
      (Answer (List UInt8)), w.shared.contentOf (w.shared.entries "a.json") = some [1] ∧
    Relation.ReflTransGen (File.Step (Asked testSerde w "a.json"))
      (testFound.file "a.json") (w.shared.file "a.json") := by
  obtain ⟨w, hsteps, -, -, hentry, hcontent⟩ := exists_testStored
  refine ⟨w, by rw [hentry, Disk.contentOf, Option.map_some, hcontent], ?_⟩
  exact storage_refines_file ⟨testFound, found_testFound, .refl⟩ hsteps (by decide)

end Geata.Storage
