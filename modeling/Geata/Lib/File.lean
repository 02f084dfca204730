import Mathlib.Data.List.Basic

namespace Geata.Lib

/-!
# Files replaced as a whole

A value is stored by writing a temporary file, renaming it over the old one and syncing the
directory.  The attempt can fail before the rename, and then nothing changed; or after it, and
then readers see the new value while a power cut may still bring an older one back.

* `File` — what a reader sees, and what a crash can bring back.
* `File.write` — one attempt, with its outcome.
* `File.Always` — a property of everything a reader can see now or after a crash.
* `File.Step` — what can happen to a file in parts: it is replaced, the replacement reaches the
  disk, the power goes.
-/

/-- A file that is only ever replaced as a whole. -/
structure File (α : Type) where
  /-- What a reader sees; `none` when there is no file. -/
  content : Option α
  /-- Earlier contents whose replacement has not reached the disk. -/
  older : List (Option α) := []

/-- How an attempt to replace a file ended. -/
inductive Written where
  | done
  /-- An error before the new file took the old one's place. -/
  | refused
  /-- An error after it: the directory could not be synced. -/
  | unsynced
  deriving DecidableEq

namespace File

variable {α : Type}

/-- Replace the file by `a`. -/
def write (f : File α) (a : α) : Written → File α
  | .done => { content := some a }
  | .refused => f
  | .unsynced => { content := some a, older := f.content :: f.older }

/-- A content the file can have after a crash. -/
def Survives (f : File α) (c : Option α) : Prop := c = f.content ∨ c ∈ f.older

/-- `f'` is what a crash can make of `f`. -/
def Crash (f f' : File α) : Prop := ∀ c, f'.Survives c → f.Survives c

/-- Everything the file holds, or can hold after a crash, satisfies `P`. -/
def Always (P : Option α → Prop) (f : File α) : Prop := ∀ c, f.Survives c → P c

variable {f f' : File α} {a : α} {P Q : Option α → Prop}

theorem survives_content (f : File α) : f.Survives f.content := .inl rfl

theorem Always.content (h : f.Always P) : P f.content := h _ f.survives_content

theorem Always.mono (h : f.Always P) (hPQ : ∀ c, P c → Q c) : f.Always Q :=
  fun c hc => hPQ c (h c hc)

theorem Always.crash (h : f.Always P) (hc : f.Crash f') : f'.Always P :=
  fun c hs => h c (hc c hs)

/-- Whatever the outcome, the file keeps a property that the new value has too. -/
theorem Always.write (h : f.Always P) (ha : P (some a)) (outcome : Written) :
    (f.write a outcome).Always P := by
  intro c hc
  cases outcome with
  | done =>
    rcases hc with rfl | hc
    · exact ha
    · exact absurd hc (by simp [File.write])
  | refused => exact h c hc
  | unsynced =>
    rcases hc with rfl | hc
    · exact ha
    · rcases List.mem_cons.mp hc with rfl | hc
      · exact h.content
      · exact h c (.inr hc)

/-- After a successful write only the new value is left. -/
theorem always_done : (f.write a .done).Always P ↔ P (some a) := by
  constructor
  · exact fun h => h.content
  · intro ha c hc
    rcases hc with rfl | hc
    · exact ha
    · exact absurd hc (by simp [File.write])

/-- Everything reaches the disk. -/
def settle (f : File α) : File α := { content := f.content }

/-- A step of a file that is only replaced by the values in `V`. -/
inductive Step (V : α → Prop) : File α → File α → Prop where
  | write {f : File α} {a : α} (h : V a) : Step V f (f.write a .unsynced)
  | settle {f : File α} : Step V f f.settle
  | crash {f f' : File α} (h : f.Crash f') : Step V f f'

theorem Step.mono {V W : α → Prop} (h : Step V f f') (hVW : ∀ a, V a → W a) : Step W f f' := by
  cases h with
  | write ha => exact .write (hVW _ ha)
  | settle => exact .settle
  | crash hc => exact .crash hc

/-- A reader sees the old content or the new one. -/
theorem content_write (f : File α) (a : α) (outcome : Written) :
    (f.write a outcome).content = f.content ∨ (f.write a outcome).content = some a := by
  cases outcome with
  | done => exact .inr rfl
  | refused => exact .inl rfl
  | unsynced => exact .inr rfl

end File

end Geata.Lib
