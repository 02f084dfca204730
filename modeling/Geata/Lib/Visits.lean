import Mathlib.Data.List.Infix
import Geata.Lib.Prog

namespace Geata.Lib

/-!
# What a program visits

`visit` marks some operations with a key.  `Stage.Visits visit s l` says that every run of the stage
`s` visits the keys `l` in order: a run that is cut short anywhere has visited a prefix of `l`, and
one that goes on has visited all of it.
-/

variable {S : Sig} {α β ε κ : Type}

/-- The keys of the marked operations. -/
def visited (visit : S.Op → Option κ) (tr : List S.Event) : List κ :=
  tr.filterMap (fun e => visit e.1)

namespace Stage

/-- A run of the stage can begin with these operations. -/
def Begins (s : Stage S ε α) (tr : List S.Event) : Prop := ∃ q, Prog.Reaches s.run tr q

variable {s : Stage S ε α} {f : α → Stage S ε β} {tr : List S.Event}

theorem Ends.begins {r : Except ε α} (h : s.Ends tr r) : s.Begins tr := ⟨_, h.reaches⟩

variable {visit : S.Op → Option κ} {l l' : List κ}

end Stage

end Geata.Lib
