import Geata.Geatafile.Rendering

namespace Geata.Geatafile

open Geata.Lib

/-!
# The lexer in bytes

The source takes its tokens out of the file as slices between byte positions, and a slice that does
not start and end between two characters is a panic.  This is the lexer with its positions; it never
panics and reads what the lexer over characters reads.

* `slice` — a slice, if there is one.
* `sliceFrom_eq` — at every position, both lexers agree.
* `tokenize_lossless` — what the source reads is exactly the renderings.
-/

/-! ### The model -/

/-- The characters of a text with the bytes they start at (`char_indices`). -/
def charIndices : ℕ → List Char → List (ℕ × Char)
  | _, [] => []
  | i, c :: l => (i, c) :: charIndices (i + c.utf8Size) l

/-- How many bytes a text has. -/
def size : List Char → ℕ
  | [] => 0
  | c :: l => c.utf8Size + size l

/-- What is left behind a number of bytes, unless they end inside a character. -/
def dropBytes : ℕ → List Char → Option (List Char)
  | 0, l => some l
  | _ + 1, [] => none
  | n + 1, c :: l => if c.utf8Size ≤ n + 1 then dropBytes (n + 1 - c.utf8Size) l else none

/-- A number of bytes, unless they end inside a character. -/
def takeBytes : ℕ → List Char → Option (List Char)
  | 0, _ => some []
  | _ + 1, [] => none
  | n + 1, c :: l =>
    if c.utf8Size ≤ n + 1 then (takeBytes (n + 1 - c.utf8Size) l).map (c :: ·) else none

/-- `&input[start..stop]`. -/
def slice (input : List Char) (start stop : ℕ) : Option (List Char) :=
  if start ≤ stop then (dropBytes start input).bind (takeBytes (stop - start)) else none

/-- The characters after the line that a comment is on. -/
def skipComment : List (ℕ × Char) → Option (List (ℕ × Char))
  | [] => none
  | (_, c) :: chars => if c = '\n' then some chars else skipComment chars

/-- The end of a quoted string, the line there and the characters after it. -/
def quotedEnd (escaped : Bool) (line : ℕ) : List (ℕ × Char) → Option (ℕ × ℕ × List (ℕ × Char))
  | [] => none
  | (index, c) :: chars =>
    let line := if c = '\n' then line + 1 else line
    if escaped then quotedEnd false line chars
    else if c = '\\' then quotedEnd true line chars
    else if c = '"' then some (index + 1, line, chars)
    else quotedEnd false line chars

/-- The end of a word and the characters after it, unless there is a quote in it. -/
def wordEnd (stop : ℕ) : List (ℕ × Char) → Option (ℕ × List (ℕ × Char))
  | [] => some (stop, [])
  | (index, c) :: chars =>
    if delimits c then some (stop, (index, c) :: chars)
    else if c = '"' then none
    else wordEnd (index + c.utf8Size) chars

/-- The token that starts with `c` at `start`. -/
def sliceToken (input : List Char) (fromJson : String → Except String String) (line start : ℕ)
    (c : Char) (chars : List (ℕ × Char)) :
    Option (Except ConfigError (Token × ℕ × List (ℕ × Char))) :=
  if c = '\x7b' then some (.ok (⟨line, .open, false⟩, line, chars))
  else if c = '\x7d' then some (.ok (⟨line, .close, false⟩, line, chars))
  else if c = '"' then
    match quotedEnd false line chars with
    | none => some (.error ⟨line, "unterminated quoted string"⟩)
    | some (stop, last, chars) => (slice input start stop).map (fun part => do
        let value ← (fromJson (String.ofList part)).mapError
          (fun e => ⟨line, "invalid quoted string: " ++ e⟩)
        ensure (chars.head?.all (fun p => delimits p.2))
          ⟨last, "expected whitespace after a quoted string"⟩
        return (⟨line, .text value, true⟩, last, chars))
  else
    match wordEnd (start + c.utf8Size) chars with
    | none => some (.error
        ⟨line, "quoted strings must start at the beginning of an argument"⟩)
    | some (stop, chars) => (slice input start stop).map (fun word =>
        .ok (⟨line, .text (String.ofList word), false⟩, line, chars))

/-- `tokenize`, from some character on; `none` is a panic. -/
def sliceFrom (input : List Char) (fromJson : String → Except String String) :
    (fuel line : ℕ) → List (ℕ × Char) → Option (Except ConfigError (List Token))
  | 0, _, _ | _, _, [] => some (.ok [])
  | fuel + 1, line, (start, c) :: chars =>
    if isWhitespace c then
      sliceFrom input fromJson fuel (if c = '\n' then line + 1 else line) chars
    else if c = '#' then
      match skipComment chars with
      | none => some (.ok [])
      | some chars => sliceFrom input fromJson fuel (line + 1) chars
    else
      match sliceToken input fromJson line start c chars with
      | none => none
      | some (.error e) => some (.error e)
      | some (.ok (token, line, chars)) =>
        (sliceFrom input fromJson fuel line chars).map (fun tokens => tokens.map (token :: ·))

def tokenizeSlices (fromJson : String → Except String String) (input : String) :
    Option (Except ConfigError (List Token)) :=
  sliceFrom input.toList fromJson input.length 1 (charIndices 0 input.toList)

/-! ### Slices -/

variable {fromJson : String → Except String String} {before l rest : List Char} {line fuel i : ℕ}

theorem size_append (l l' : List Char) : size (l ++ l') = size l + size l' := by
  induction l with
  | nil => exact (Nat.zero_add _).symm
  | cons c l ih =>
    show c.utf8Size + size (l ++ l') = c.utf8Size + size l + size l'
    rw [ih, Nat.add_assoc]

theorem dropBytes_append (before l : List Char) : dropBytes (size before) (before ++ l) = some l := by
  induction before with
  | nil => cases l <;> rfl
  | cons c before ih =>
    have hpos : 0 < c.utf8Size := c.utf8Size_pos
    have hsize : size (c :: before) = c.utf8Size + size before := rfl
    obtain ⟨n, hn⟩ : ∃ n, size (c :: before) = n + 1 := ⟨size (c :: before) - 1, by omega⟩
    rw [hn, List.cons_append, dropBytes, if_pos (by omega), show n + 1 - c.utf8Size = size before by omega]
    exact ih

theorem takeBytes_append (l rest : List Char) : takeBytes (size l) (l ++ rest) = some l := by
  induction l with
  | nil => cases rest <;> rfl
  | cons c l ih =>
    have hpos : 0 < c.utf8Size := c.utf8Size_pos
    have hsize : size (c :: l) = c.utf8Size + size l := rfl
    obtain ⟨n, hn⟩ : ∃ n, size (c :: l) = n + 1 := ⟨size (c :: l) - 1, by omega⟩
    rw [hn, List.cons_append, takeBytes, if_pos (by omega), show n + 1 - c.utf8Size = size l by omega, ih]
    rfl

/-- **A slice between two characters** is what is between them. -/
theorem slice_append (before l rest : List Char) :
    slice (before ++ (l ++ rest)) (size before) (size before + size l) = some l := by
  rw [slice, if_pos (Nat.le_add_right _ _), dropBytes_append, Option.bind_some,
    Nat.add_sub_cancel_left, takeBytes_append]

/-! ### The parts agree -/

theorem skipComment_none {l : List Char} (h : '\n' ∉ l) (i : ℕ) :
    skipComment (charIndices i l) = none := by
  induction l generalizing i with
  | nil => rfl
  | cons c l ih =>
    rw [List.mem_cons, not_or] at h
    rw [charIndices, skipComment, if_neg (Ne.symm h.1)]
    exact ih h.2 _

theorem skipComment_some {text : List Char} (h : '\n' ∉ text) (i : ℕ) (rest : List Char) :
    skipComment (charIndices i (text ++ '\n' :: rest)) =
      some (charIndices (i + size (text ++ ['\n'])) rest) := by
  induction text generalizing i with
  | nil => rfl
  | cons c text ih =>
    rw [List.mem_cons, not_or] at h
    rw [List.cons_append, charIndices, skipComment, if_neg (Ne.symm h.1), ih h.2, Nat.add_assoc]
    rfl

/-- The scan for the end of a quoted string, with positions. -/
theorem quotedEnd_eq (escaped : Bool) (line i : ℕ) (l : List Char) :
    quotedEnd escaped line (charIndices i l) = (quotedPart escaped l).map
      (fun p => (i + size p.1, line + newlines p.1, charIndices (i + size p.1) p.2)) := by
  induction l generalizing escaped line i with
  | nil => rfl
  | cons c l ih =>
    have hnew : ∀ part, newlines (c :: part) = (if c = '\n' then 1 else 0) + newlines part := by
      intro part
      rw [newlines, List.count_cons, newlines, Nat.add_comm]
      simp only [beq_iff_eq]
    have hgo : ∀ escaped', quotedEnd escaped' (if c = '\n' then line + 1 else line)
        (charIndices (i + c.utf8Size) l) = ((quotedPart escaped' l).map (fun p => (c :: p.1, p.2))).map
          (fun p => (i + size p.1, line + newlines p.1, charIndices (i + size p.1) p.2)) := by
      intro escaped'
      rw [ih, Option.map_map]
      congr 1
      ext p : 1
      show (i + c.utf8Size + size p.1, (if c = '\n' then line + 1 else line) + newlines p.1, _) =
        (i + (c.utf8Size + size p.1), line + newlines (c :: p.1), _)
      rw [hnew, Nat.add_assoc]
      refine Prod.ext rfl (Prod.ext ?_ rfl)
      show (if c = '\n' then line + 1 else line) + newlines p.1 = line + ((if c = '\n' then 1 else 0) + _)
      split <;> omega
    rw [charIndices, quotedEnd, quotedPart]
    cases escaped with
    | true => exact hgo false
    | false =>
      by_cases hb : c = '\\'
      · subst hb
        exact hgo true
      · have hback : (c == '\\') = false := beq_false_of_ne hb
        by_cases hq : c = '"'
        · subst hq
          rfl
        · have hquote : (c == '"') = false := beq_false_of_ne hq
          simp only [Bool.false_eq_true, if_false, hb, hq, hback, hquote, Bool.not_false,
            Bool.and_false]
          exact hgo false

/-- The scan for the end of a word, with positions. -/
theorem wordEnd_eq (i : ℕ) (l : List Char) :
    wordEnd i (charIndices i l) =
      let word := l.takeWhile (fun c => !delimits c && c != '"')
      let rest := l.drop word.length
      if rest.head? = some '"' then none
      else some (i + size word, charIndices (i + size word) rest) := by
  induction l generalizing i with
  | nil => rfl
  | cons c l ih =>
    rw [charIndices, wordEnd]
    by_cases hd : delimits c = true
    · have hstop : (!delimits c && c != '"') = false := by rw [hd]; rfl
      have hne : ¬ (c = '"') := by
        rintro rfl
        exact absurd hd (by decide)
      simp only [if_pos hd, List.takeWhile_cons, hstop, Bool.false_eq_true, if_false, List.length_nil,
        List.drop_zero, List.head?_cons, Option.some.injEq, hne]
      rfl
    · by_cases hq : c = '"'
      · subst hq
        rfl
      · have hgo : (!delimits c && c != '"') = true := by
          rw [Bool.not_eq_true] at hd
          rw [hd]
          simpa using hq
        simp only [if_neg hd, if_neg hq, ih, List.takeWhile_cons, hgo, if_true, List.length_cons,
          List.drop_succ_cons]
        have hsize : ∀ word, i + size (c :: word) = i + c.utf8Size + size word :=
          fun word => (Nat.add_assoc _ _ _).symm
        rw [hsize]

theorem head_charIndices (i : ℕ) (l : List Char) :
    (charIndices i l).head?.all (fun p => delimits p.2) = l.head?.all delimits := by
  cases l <;> rfl

/-- What both lexers find in an input: the same error, or the same token and the same rest, with its
    position. -/
def Agrees (input : List Char) (r : Except ConfigError (Token × ℕ × List Char))
    (r' : Option (Except ConfigError (Token × ℕ × List (ℕ × Char)))) : Prop :=
  match r with
  | .error e => r' = some (.error e)
  | .ok (token, line, rest) => ∃ before, input = before ++ rest ∧
      r' = some (.ok (token, line, charIndices (size before) rest))

/-- The tokens agree. -/
theorem sliceToken_agrees (c : Char) (l : List Char) :
    Agrees (before ++ c :: l) (lexToken fromJson line c l) (sliceToken (before ++ c :: l) fromJson line
      (size before) c (charIndices (size before + c.utf8Size) l)) := by
  have hnext : size before + c.utf8Size = size (before ++ [c]) := (size_append before [c]).symm
  have happend : before ++ c :: l = before ++ [c] ++ l := (List.append_assoc before [c] l).symm
  unfold lexToken sliceToken
  by_cases hopen : c = '\x7b'
  · rw [if_pos hopen, if_pos hopen, hnext]
    exact ⟨before ++ [c], happend, rfl⟩
  by_cases hclose : c = '\x7d'
  · rw [if_neg hopen, if_neg hopen, if_pos hclose, if_pos hclose, hnext]
    exact ⟨before ++ [c], happend, rfl⟩
  rw [if_neg hopen, if_neg hopen, if_neg hclose, if_neg hclose]
  by_cases hquote : c = '"'
  · subst hquote
    rw [if_pos rfl, if_pos rfl, quotedEnd_eq]
    unfold lexQuoted
    cases hpart : quotedPart false l with
    | none => rfl
    | some p =>
      obtain ⟨part, rest⟩ := p
      obtain ⟨rfl, -⟩ := quotedPart_eq_some hpart
      have hslice := slice_append before ('"' :: part) rest
      have hstop : size before + '"'.utf8Size + size part = size before + size ('"' :: part) :=
        Nat.add_assoc _ _ _
      simp only [Option.map_some]
      rw [hstop, ← List.cons_append, hslice]
      show Agrees _ ((fromJson (String.ofList ('"' :: part))).mapError _ >>= fun value => _) (some
        ((fromJson (String.ofList ('"' :: part))).mapError _ >>= fun value => _))
      cases fromJson (String.ofList ('"' :: part)) with
      | error e => rfl
      | ok value =>
        rw [head_charIndices]
        show Agrees _ (ensure (rest.head?.all delimits) _ >>= fun _ => _) (some
          (ensure (rest.head?.all delimits) _ >>= fun _ => _))
        cases rest.head?.all delimits with
        | false => rfl
        | true =>
          refine ⟨before ++ '"' :: part, (List.append_assoc _ _ _).symm, ?_⟩
          rw [size_append]
          rfl
  · rw [if_neg hquote, if_neg hquote, wordEnd_eq]
    unfold lexWord
    simp only
    have hsplit := List.takeWhile_append_dropWhile (p := fun c => !delimits c && c != '"') (l := l)
    generalize l.takeWhile (fun c => !delimits c && c != '"') = word at hsplit ⊢
    generalize l.dropWhile (fun c => !delimits c && c != '"') = rest at hsplit
    subst hsplit
    rw [List.drop_left]
    by_cases hq : rest.head? = some '"'
    · rw [if_pos hq, hq]
      rfl
    · have hcheck : (rest.head? != some '"') = true := bne_iff_ne.mpr hq
      have hslice := slice_append before (c :: word) rest
      have hstop : size before + c.utf8Size + size word = size before + size (c :: word) :=
        Nat.add_assoc _ _ _
      rw [if_neg hq, hcheck]
      simp only
      rw [hstop, ← List.cons_append, hslice]
      refine ⟨before ++ c :: word, (List.append_assoc _ _ _).symm, ?_⟩
      rw [size_append]
      rfl

/-- **Both lexers agree** from every position on. -/
theorem sliceFrom_eq (before l : List Char) : sliceFrom (before ++ l) fromJson fuel line
    (charIndices (size before) l) = some (lexFrom fromJson fuel line l) := by
  induction fuel generalizing before l line with
  | zero => cases l <;> rfl
  | succ fuel ih =>
    cases l with
    | nil => rfl
    | cons c l =>
      have hnext : size before + c.utf8Size = size (before ++ [c]) := (size_append before [c]).symm
      have happend : before ++ c :: l = before ++ [c] ++ l := (List.append_assoc before [c] l).symm
      rw [charIndices, sliceFrom, lexFrom]
      by_cases hspace : isWhitespace c = true
      · have hline : line + newlines [c] = if c = '\n' then line + 1 else line := by
          rw [newlines, List.count_singleton]
          simp only [beq_iff_eq]
          split <;> rfl
        rw [if_pos hspace, if_pos hspace, hline, hnext, happend]
        exact ih _ _
      rw [if_neg hspace, if_neg hspace]
      by_cases hhash : c = '#'
      · rw [if_pos hhash, if_pos hhash]
        rcases afterComment_cases l with ⟨hnone, hl⟩ | ⟨text, rest, rfl, htext, hrest⟩
        · rw [hnone, skipComment_none hl]
        · rw [hrest, skipComment_some htext]
          have hsize : size before + c.utf8Size + size (text ++ ['\n']) =
              size (before ++ c :: (text ++ ['\n'])) := by
            rw [size_append before, Nat.add_assoc]
            rfl
          have hinput : before ++ c :: (text ++ '\n' :: rest) =
              before ++ c :: (text ++ ['\n']) ++ rest := by simp
          show sliceFrom _ fromJson fuel (line + 1) _ = some (lexFrom fromJson fuel (line + 1) rest)
          rw [hsize, hinput]
          exact ih _ _
      · rw [if_neg hhash, if_neg hhash]
        have hagrees : Agrees (before ++ c :: l) (lexToken fromJson line c l) _ := sliceToken_agrees c l
        cases htoken : lexToken fromJson line c l with
        | error e =>
          rw [htoken] at hagrees
          rw [show sliceToken _ _ _ _ _ _ = _ from hagrees]
          rfl
        | ok x =>
          obtain ⟨token, line', rest⟩ := x
          rw [htoken] at hagrees
          obtain ⟨before', hinput, hslice⟩ := hagrees
          rw [hslice]
          show (sliceFrom (before ++ c :: l) fromJson fuel line' (charIndices (size before') rest)).map _ = _
          rw [hinput, ih before' rest]
          show some ((lexFrom fromJson fuel line' rest).map _) =
            some (lexFrom fromJson fuel line' rest >>= fun tokens => _)
          cases lexFrom fromJson fuel line' rest <;> rfl

/-- **The lexer is lossless.**  It reads an input as some tokens exactly when the input is a rendering
    of them: each token written as itself, a quoted one as any JSON literal of its text, with any
    whitespace and comments around them and at least something between two text tokens, and its line
    one more than the number of lines that end before it.  Every slice that it takes is one between
    two characters. -/
theorem tokenize_lossless (hjson : DecodesJson fromJson) (input : String) :
    (∀ tokens, tokenizeSlices fromJson input = some (.ok tokens) ↔
      Rendering [] false tokens input.toList) ∧
    tokenizeSlices fromJson input = some (tokenize fromJson input) := by
  have heq : tokenizeSlices fromJson input = some (tokenize fromJson input) := sliceFrom_eq [] _
  refine ⟨fun tokens => ?_, heq⟩
  have hfuel : input.toList.length ≤ input.length := by rw [String.length_toList]
  rw [heq, Option.some.injEq]
  constructor
  · exact fun h => rendering_of_lexFrom hjson hfuel h nofun
  · exact fun h => lexFrom_of_rendering hjson h hfuel

/-! ### A JSON parser -/

/-- A parser of string literals. -/
def readLiteral (s : String) : Except String String :=
  match s.toList with
  | '"' :: part =>
    if part.getLast? = some '"' then
      match decode part.dropLast with
      | some text => .ok (String.ofList text)
      | none => .error "invalid escape"
    else .error "EOF while parsing a string"
  | _ => .error "expected a string"

theorem readLiteral_decodes : DecodesJson readLiteral := by
  intro body text
  have hlast : (body ++ ['"']).getLast? = some '"' := List.getLast?_concat
  unfold readLiteral
  rw [String.toList_ofList]
  simp only [hlast, if_true, List.dropLast_concat]
  cases hd : decode body with
  | some t =>
    simp only [Except.ok.injEq]
    rw [← decode_eq_some, hd, Option.some.injEq]
    constructor
    · rintro rfl
      exact String.toList_ofList.symm
    · rintro rfl
      exact String.ofList_toList
  | none =>
    rw [← decode_eq_some, hd]
    simp

/-- A quoted argument right before a comment, and a directive on the next line. -/
theorem tokenize_lossless_comment : Rendering []  false
    [⟨1, .text "a\x7b", true⟩, ⟨2, .close, false⟩] "\"a\\u007b\"#\"\n\x7d".toList := by
  refine ((tokenize_lossless readLiteral_decodes _).1 _).mp ?_
  decide

end Geata.Geatafile
