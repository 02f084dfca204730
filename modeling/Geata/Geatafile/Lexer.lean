import Geata.Lib.Text
import Geata.Lib.Except

namespace Geata.Geatafile

open Geata.Lib

/-!
# Tokens of a Geatafile

Structural braces and comments are kept apart from literal text: `tokenize` splits a file into
braces, words and quoted strings, each with its line.

`lexFrom` takes one unit of fuel for each character it passes, so that its recursion is
structural; `lexFrom_enough` says that the length of the text is enough.
-/

structure ConfigError where
  line : ℕ
  message : String
  deriving DecidableEq

inductive TokenKind where
  | text (text : String)
  | open
  | close
  deriving DecidableEq

structure Token where
  line : ℕ
  kind : TokenKind
  quoted : Bool
  deriving DecidableEq

def Token.text (token : Token) : Option String :=
  match token.kind with
  | .text text => some text
  | _ => none

/-- The characters that end a word or follow a quoted string. -/
def delimits (c : Char) : Bool := isWhitespace c || c == '\x7b' || c == '\x7d' || c == '#'

/-- How many lines end in a text. -/
def newlines (l : List Char) : ℕ := l.count '\n'

/-- The text after the line that a comment is on. -/
def afterComment : List Char → Option (List Char)
  | [] => none
  | c :: l => if c = '\n' then some l else afterComment l

/-- The rest of a quoted string with its closing quote, and what follows it. -/
def quotedPart (escaped : Bool) : List Char → Option (List Char × List Char)
  | [] => none
  | c :: l =>
    if !escaped && c == '"' then some ([c], l)
    else (quotedPart (!escaped && c == '\\') l).map (fun p => (c :: p.1, p.2))

/-- A quoted string, which was opened on `line`. -/
def lexQuoted (fromJson : String → Except String String) (line : ℕ) (l : List Char) :
    Except ConfigError (Token × ℕ × List Char) := do
  let (part, rest) ← context ⟨line, "unterminated quoted string"⟩ (quotedPart false l)
  let value ← (fromJson (String.ofList ('"' :: part))).mapError
    (fun e => ⟨line, "invalid quoted string: " ++ e⟩)
  let last := line + newlines part
  ensure (rest.head?.all delimits) ⟨last, "expected whitespace after a quoted string"⟩
  return (⟨line, .text value, true⟩, last, rest)

/-- A word that starts with `c`. -/
def lexWord (line : ℕ) (c : Char) (l : List Char) : Except ConfigError (Token × ℕ × List Char) := do
  let word := l.takeWhile (fun c => !delimits c && c != '"')
  let rest := l.drop word.length
  ensure (rest.head? != some '"')
    ⟨line, "quoted strings must start at the beginning of an argument"⟩
  return (⟨line, .text (String.ofList (c :: word)), false⟩, line, rest)

/-- The token that starts with `c`, the line after it and the rest of the text. -/
def lexToken (fromJson : String → Except String String) (line : ℕ) (c : Char) (l : List Char) :
    Except ConfigError (Token × ℕ × List Char) :=
  if c = '\x7b' then .ok (⟨line, .open, false⟩, line, l)
  else if c = '\x7d' then .ok (⟨line, .close, false⟩, line, l)
  else if c = '"' then lexQuoted fromJson line l
  else lexWord line c l

/-- The tokens of a text that starts on `line`. -/
def lexFrom (fromJson : String → Except String String) :
    (fuel line : ℕ) → List Char → Except ConfigError (List Token)
  | 0, _, _ | _, _, [] => .ok []
  | fuel + 1, line, c :: l =>
    if isWhitespace c then lexFrom fromJson fuel (line + newlines [c]) l
    else if c = '#' then
      match afterComment l with
      | none => .ok []
      | some l => lexFrom fromJson fuel (line + 1) l
    else do
      let (token, line, l) ← lexToken fromJson line c l
      let tokens ← lexFrom fromJson fuel line l
      return token :: tokens

def tokenize (fromJson : String → Except String String) (input : String) :
    Except ConfigError (List Token) :=
  lexFrom fromJson input.length 1 input.toList

/-! ### The fuel is enough -/

theorem length_afterComment {l rest : List Char} (h : afterComment l = some rest) :
    rest.length ≤ l.length := by
  induction l with
  | nil => exact absurd h (by simp [afterComment])
  | cons c l ih =>
    unfold afterComment at h
    split at h
    · obtain rfl := Option.some.inj h
      simp
    · have := ih h
      simp only [List.length_cons]
      omega

theorem length_quotedPart {escaped : Bool} {l part rest : List Char}
    (h : quotedPart escaped l = some (part, rest)) : rest.length ≤ l.length := by
  induction l generalizing escaped part with
  | nil => exact absurd h (by simp [quotedPart])
  | cons c l ih =>
    unfold quotedPart at h
    split at h
    · obtain ⟨-, rfl⟩ := Prod.mk.inj (Option.some.inj h)
      simp
    · obtain ⟨⟨part', rest'⟩, hp, heq⟩ := Option.map_eq_some_iff.mp h
      obtain ⟨-, rfl⟩ := Prod.mk.inj heq
      have hlen : rest'.length ≤ l.length := ih hp
      simp only [List.length_cons]
      omega

/-- A token leaves no more text than follows its first character. -/
theorem length_lexToken {fromJson : String → Except String String} {line line' : ℕ} {c : Char}
    {l rest : List Char} {token : Token} (h : lexToken fromJson line c l = .ok (token, line', rest)) :
    rest.length ≤ l.length := by
  unfold lexToken at h
  split at h
  · cases h; exact Nat.le_refl _
  split at h
  · cases h; exact Nat.le_refl _
  split at h
  · unfold lexQuoted at h
    obtain ⟨⟨part, rest'⟩, hpart, h⟩ := bind_eq_ok.mp h
    obtain ⟨value, -, h⟩ := bind_eq_ok.mp h
    obtain ⟨-, -, h⟩ := bind_eq_ok.mp h
    cases h
    exact length_quotedPart (context_eq_ok.mp hpart)
  · unfold lexWord at h
    obtain ⟨-, -, h⟩ := bind_eq_ok.mp h
    cases h
    simp

/-- Any fuel that covers the text gives the same tokens. -/
theorem lexFrom_enough {fromJson : String → Except String String} {fuel fuel' line : ℕ}
    {l : List Char} (h : l.length ≤ fuel) (h' : l.length ≤ fuel') :
    lexFrom fromJson fuel line l = lexFrom fromJson fuel' line l := by
  induction fuel generalizing fuel' line l with
  | zero =>
    obtain rfl : l = [] := List.eq_nil_of_length_eq_zero (by omega)
    cases fuel' <;> rfl
  | succ fuel ih =>
    cases l with
    | nil => cases fuel' <;> rfl
    | cons c l =>
      simp only [List.length_cons] at h h'
      obtain ⟨fuel', rfl⟩ : ∃ n, fuel' = n + 1 := ⟨fuel' - 1, by omega⟩
      simp only [lexFrom]
      split
      · exact ih (by omega) (by omega)
      split
      · split
        · rfl
        · rename_i rest hrest
          have := length_afterComment hrest
          exact ih (by omega) (by omega)
      · cases htoken : lexToken fromJson line c l with
        | error e => rfl
        | ok x =>
          obtain ⟨token, line', rest⟩ := x
          have hlen := length_lexToken htoken
          have hrest : lexFrom fromJson fuel line' rest = lexFrom fromJson fuel' line' rest :=
            ih (by omega) (by omega)
          show (lexFrom fromJson fuel line' rest >>= _) = (lexFrom fromJson fuel' line' rest >>= _)
          rw [hrest]

end Geata.Geatafile
