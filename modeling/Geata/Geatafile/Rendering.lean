import Geata.Lib.JsonString
import Geata.Geatafile.Lexer

namespace Geata.Geatafile

open Geata.Lib

/-!
# The lexer is lossless

A Geatafile is a rendering of its tokens: every token is written in one of the ways it can be
written, and between them are only whitespace and comments.

* `Written` — the ways to write a token; quoted text is any JSON literal of it.
* `Rendering` — a text of some tokens, each with its line.
* `lexFrom_of_rendering`, `rendering_of_lexFrom` — the lexer reads exactly the renderings.
-/

/-! ### Renderings -/

/-- The JSON parser reads exactly the string literals, each as the text it denotes. -/
def DecodesJson (fromJson : String → Except String String) : Prop :=
  ∀ body text, fromJson (String.ofList ('"' :: (body ++ ['"']))) = .ok text ↔
    Denotes body text.toList

/-- How a token can be written. -/
inductive Written : TokenKind → Bool → List Char → Prop where
  | open : Written .open false ['\x7b']
  | close : Written .close false ['\x7d']
  | quoted {body : List Char} {text : String} (h : Denotes body text.toList) :
      Written (.text text) true ('"' :: (body ++ ['"']))
  | word {l : List Char} (nonempty : l ≠ []) (plain : ∀ c ∈ l, delimits c = false ∧ c ≠ '"') :
      Written (.text (String.ofList l)) false l

def TokenKind.isText : TokenKind → Bool
  | .text _ => true
  | _ => false

/-- A text of some tokens.  `before` is the text before it, and `joined` says that a text token ends
    there, so that the next one has to be kept apart. -/
inductive Rendering : (before : List Char) → (joined : Bool) → List Token → List Char → Prop where
  | stop {before : List Char} {joined : Bool} : Rendering before joined [] []
  | space {before l : List Char} {joined : Bool} {c : Char} {tokens : List Token}
      (hc : isWhitespace c = true) (rest : Rendering (before ++ [c]) false tokens l) :
      Rendering before joined tokens (c :: l)
  | comment {before l text : List Char} {joined : Bool} {tokens : List Token} (h : '\n' ∉ text)
      (rest : Rendering (before ++ '#' :: (text ++ ['\n'])) false tokens l) :
      Rendering before joined tokens ('#' :: (text ++ '\n' :: l))
  | lastComment {before text : List Char} {joined : Bool} (h : '\n' ∉ text) :
      Rendering before joined [] ('#' :: text)
  | token {before l w : List Char} {joined : Bool} {kind : TokenKind} {quoted : Bool}
      {tokens : List Token} (written : Written kind quoted w)
      (apart : joined = true → kind.isText = false)
      (rest : Rendering (before ++ w) kind.isText tokens l) :
      Rendering before joined (⟨1 + newlines before, kind, quoted⟩ :: tokens) (w ++ l)

/-! ### The parts of the lexer -/

variable {fromJson : String → Except String String} {before l part rest body text : List Char}
  {joined escaped : Bool} {tokens : List Token} {c : Char} {line fuel : ℕ}

theorem newlines_append (l l' : List Char) : newlines (l ++ l') = newlines l + newlines l' :=
  List.count_append

theorem afterComment_append (h : '\n' ∉ text) (l : List Char) :
    afterComment (text ++ '\n' :: l) = some l := by
  induction text with
  | nil => exact if_pos rfl
  | cons c text ih =>
    rw [List.mem_cons, not_or] at h
    rw [List.cons_append, afterComment, if_neg (Ne.symm h.1), ih h.2]

theorem afterComment_eq_none (h : '\n' ∉ text) : afterComment text = none := by
  induction text with
  | nil => rfl
  | cons c text ih =>
    rw [List.mem_cons, not_or] at h
    rw [afterComment, if_neg (Ne.symm h.1), ih h.2]

/-- A comment goes up to the end of its line. -/
theorem afterComment_cases (l : List Char) : (afterComment l = none ∧ '\n' ∉ l) ∨
    ∃ text rest, l = text ++ '\n' :: rest ∧ '\n' ∉ text ∧ afterComment l = some rest := by
  by_cases h : '\n' ∈ l
  · obtain ⟨text, rest, rfl, htext⟩ := List.eq_append_cons_of_mem h
    exact .inr ⟨text, rest, rfl, htext, afterComment_append htext rest⟩
  · exact .inl ⟨afterComment_eq_none h, h⟩

theorem quotedPart_plain (hq : c ≠ '"') (hb : c ≠ '\\') (l : List Char) :
    quotedPart false (c :: l) = (quotedPart false l).map (fun p => (c :: p.1, p.2)) := by
  have hback : (c == '\\') = false := beq_false_of_ne hb
  rw [quotedPart]
  simp [hq, hback]

/-- After a backslash the scan passes over one character, whatever it is. -/
theorem quotedPart_escape (e : Char) (l : List Char) : quotedPart false ('\\' :: e :: l) =
    (quotedPart false l).map (fun p => ('\\' :: e :: p.1, p.2)) := by
  rw [quotedPart, quotedPart]
  simp [Function.comp_def]

theorem quotedPart_plains {w : List Char} (h : ∀ c ∈ w, c ≠ '"' ∧ c ≠ '\\' ∧ c ≠ '\n')
    (l : List Char) :
    quotedPart false (w ++ l) = (quotedPart false l).map (fun p => (w ++ p.1, p.2)) := by
  induction w with
  | nil => simp
  | cons c w ih =>
    obtain ⟨hc, hw⟩ := List.forall_mem_cons.mp h
    rw [List.cons_append, quotedPart_plain hc.1 hc.2.1, ih hw, Option.map_map]
    rfl

/-- An escape with its four digits. -/
theorem quotedPart_unicode {a b d : Char} {n : ℕ} (h : hex4 a b c d = some n) (l : List Char) :
    quotedPart false (['\\', 'u', a, b, c, d] ++ l) =
      (quotedPart false l).map (fun p => (['\\', 'u', a, b, c, d] ++ p.1, p.2)) := by
  show quotedPart false ('\\' :: 'u' :: ([a, b, c, d] ++ l)) = _
  rw [quotedPart_escape, quotedPart_plains (hex4_eq_some h).2, Option.map_map]
  rfl

/-- The scan of a quoted string passes over an item, and does not stop inside. -/
theorem quotedPart_item {w : List Char} (h : Item w c) (l : List Char) :
    quotedPart false (w ++ l) = (quotedPart false l).map (fun p => (w ++ p.1, p.2)) := by
  cases h with
  | plain control quote backslash => exact quotedPart_plain quote backslash l
  | @short e c h => exact quotedPart_escape e l
  | unicode h valid => exact quotedPart_unicode h l
  | @pair a b c d a' b' c' d' high low hhigh hlow first second =>
    show quotedPart false (['\\', 'u', a, b, c, d] ++ (['\\', 'u', a', b', c', d'] ++ l)) = _
    rw [quotedPart_unicode hhigh, quotedPart_unicode hlow, Option.map_map]
    rfl

/-- The scan ends at the quote that ends the literal. -/
theorem quotedPart_of_denotes (h : Denotes body text) (rest : List Char) :
    quotedPart false (body ++ '"' :: rest) = some (body ++ ['"'], rest) := by
  induction h with
  | nil => rfl
  | cons item hrest ih =>
    rw [List.append_assoc, quotedPart_item item, ih, Option.map_some, List.append_assoc]

/-- What the scan takes, and what it leaves. -/
theorem quotedPart_eq_some (h : quotedPart escaped l = some (part, rest)) :
    l = part ++ rest ∧ ∃ body, part = body ++ ['"'] := by
  induction l generalizing escaped part with
  | nil => exact nomatch h
  | cons c l ih =>
    rw [quotedPart] at h
    split at h
    · rename_i hend
      rw [Bool.and_eq_true, beq_iff_eq] at hend
      obtain ⟨rfl, rfl⟩ := Prod.mk.inj (Option.some.inj h)
      rw [hend.2]
      exact ⟨rfl, [], rfl⟩
    · obtain ⟨⟨part', rest'⟩, hp, heq⟩ := Option.map_eq_some_iff.mp h
      obtain ⟨rfl, rfl⟩ := Prod.mk.inj heq
      obtain ⟨rfl, body, hbody⟩ := ih hp
      have hbody : part' = body ++ ['"'] := hbody
      exact ⟨rfl, c :: body, by rw [hbody]; rfl⟩

/-- After a text token comes nothing that could continue it. -/
theorem Rendering.delimited (h : Rendering before true tokens l) :
    l.head?.all delimits = true := by
  cases h with
  | stop => rfl
  | space hc => simp [delimits, hc]
  | comment => simp [delimits]
  | lastComment => simp [delimits]
  | token written apart =>
    have hkind := apart rfl
    cases written with
    | «open» => simp [delimits]
    | close => simp [delimits]
    | quoted => exact nomatch hkind
    | word => exact nomatch hkind

/-- Where a token can start, and what it is then. -/
theorem not_delimits (hs : isWhitespace c = false) (hc : c ≠ '#') :
    delimits c = true ↔ c = '\x7b' ∨ c = '\x7d' := by
  simp [delimits, hs, hc]

theorem takeWhile_word {w : List Char} (hw : ∀ c ∈ w, delimits c = false ∧ c ≠ '"')
    (hl : l.head?.all delimits = true) :
    (w ++ l).takeWhile (fun c => !delimits c && c != '"') = w := by
  have hpos : ∀ c ∈ w, (!delimits c && c != '"') = true := by
    intro c hc
    rw [(hw c hc).1]
    simpa using (hw c hc).2
  rw [List.takeWhile_append_of_pos hpos]
  have hstop : l.takeWhile (fun c => !delimits c && c != '"') = [] := by
    cases l with
    | nil => rfl
    | cons c l =>
      have hc : delimits c = true := by simpa using hl
      exact List.takeWhile_cons_of_neg (by simp [hc])
  rw [hstop, List.append_nil]

/-- A token as it is written is read as itself. -/
theorem lexToken_of_written (line : ℕ) (hjson : DecodesJson fromJson) {kind : TokenKind} {quoted : Bool}
    {w : List Char} (hw : Written kind quoted w)
    (hl : kind.isText = true → l.head?.all delimits = true) :
    ∃ c w', w = c :: w' ∧ isWhitespace c = false ∧ c ≠ '#' ∧
      lexToken fromJson line c (w' ++ l) = .ok (⟨line, kind, quoted⟩, line + newlines w, l) := by
  cases hw with
  | «open» => exact ⟨'\x7b', [], rfl, by decide, by decide, rfl⟩
  | close => exact ⟨'\x7d', [], rfl, by decide, by decide, rfl⟩
  | @quoted body text h =>
    refine ⟨'"', body ++ ['"'], rfl, by decide, by decide, ?_⟩
    have hscan : quotedPart false (body ++ ['"'] ++ l) = some (body ++ ['"'], l) := by
      rw [List.append_assoc]
      exact quotedPart_of_denotes h l
    have hlines : newlines (body ++ ['"']) = 0 := by
      rw [newlines_append]
      show newlines body + 0 = 0
      exact List.count_eq_zero.mpr h.newline
    have hlines' : newlines ('"' :: (body ++ ['"'])) = 0 := hlines
    show lexQuoted fromJson line (body ++ ['"'] ++ l) = _
    unfold lexQuoted
    rw [hscan, hlines']
    show (((fromJson _).mapError _ >>= fun value => _) : Except ConfigError _) = _
    rw [(hjson body text).mpr h]
    show ((ensure (l.head?.all delimits) _ >>= fun _ => _) : Except ConfigError _) = _
    rw [hl rfl, hlines]
    rfl
  | @word l' nonempty plain =>
    obtain ⟨c, w', rfl⟩ := List.exists_cons_of_ne_nil nonempty
    obtain ⟨⟨hc, hq⟩, hw'⟩ := List.forall_mem_cons.mp plain
    have hparts : isWhitespace c = false ∧ c ≠ '\x7b' ∧ c ≠ '\x7d' ∧ c ≠ '#' := by
      simpa [delimits, and_assoc] using hc
    obtain ⟨hspace, hopen, hclose, hhash⟩ := hparts
    refine ⟨c, w', rfl, hspace, hhash, ?_⟩
    have hnewline : newlines (c :: w') = 0 := by
      refine List.count_eq_zero.mpr (fun hmem => ?_)
      have hdel := (plain _ hmem).1
      exact absurd hdel (by decide)
    have hhead : l.head? ≠ some '"' := by
      intro hsome
      have hdel := hl rfl
      rw [hsome] at hdel
      exact absurd hdel (by decide)
    unfold lexToken
    rw [if_neg hopen, if_neg hclose, if_neg hq]
    unfold lexWord
    simp only [takeWhile_word hw' (hl rfl), List.drop_left, hnewline]
    have hcheck : (l.head? != some '"') = true := bne_iff_ne.mpr hhead
    rw [hcheck]
    rfl

/-- **A rendering is read as its tokens.** -/
theorem lexFrom_of_rendering (hjson : DecodesJson fromJson)
    (h : Rendering before joined tokens l) (hfuel : l.length ≤ fuel) :
    lexFrom fromJson fuel (1 + newlines before) l = .ok tokens := by
  induction h generalizing fuel with
  | stop => cases fuel <;> rfl
  | @space before l joined c tokens hc rest ih =>
    rw [List.length_cons] at hfuel
    obtain ⟨fuel, rfl⟩ : ∃ n, fuel = n + 1 := ⟨fuel - 1, by omega⟩
    rw [lexFrom, if_pos hc, Nat.add_assoc, ← newlines_append]
    exact ih (by omega)
  | @comment before l text joined tokens h rest ih =>
    rw [List.length_cons, List.length_append, List.length_cons] at hfuel
    obtain ⟨fuel, rfl⟩ : ∃ n, fuel = n + 1 := ⟨fuel - 1, by omega⟩
    have hline : 1 + newlines (before ++ '#' :: (text ++ ['\n'])) = 1 + newlines before + 1 := by
      rw [newlines_append]
      show 1 + (newlines before + newlines (text ++ ['\n'])) = _
      rw [newlines_append, show newlines text = 0 from List.count_eq_zero.mpr h]
      rfl
    rw [lexFrom, if_neg (by decide), if_pos rfl, afterComment_append h]
    show lexFrom fromJson fuel (1 + newlines before + 1) l = _
    rw [← hline]
    exact ih (by omega)
  | @lastComment before text joined h =>
    rw [List.length_cons] at hfuel
    obtain ⟨fuel, rfl⟩ : ∃ n, fuel = n + 1 := ⟨fuel - 1, by omega⟩
    rw [lexFrom, if_neg (by decide), if_pos rfl, afterComment_eq_none h]
  | @token before l w joined kind quoted tokens written apart rest ih =>
    have hdelim : kind.isText = true → l.head?.all delimits = true := by
      intro htext
      rw [htext] at rest
      exact rest.delimited
    obtain ⟨c, w', rfl, hspace, hhash, hlex⟩ :=
      lexToken_of_written (1 + newlines before) hjson written hdelim
    rw [List.cons_append, List.length_cons, List.length_append] at hfuel
    obtain ⟨fuel, rfl⟩ : ∃ n, fuel = n + 1 := ⟨fuel - 1, by omega⟩
    rw [List.cons_append, lexFrom, if_neg (by rw [hspace]; decide), if_neg hhash, hlex, Nat.add_assoc,
      ← newlines_append]
    show (lexFrom fromJson fuel _ l >>= fun tokens => _) = _
    rw [ih (by omega)]
    rfl

/-! ### What is read is a rendering -/

/-- A word ends where its characters end. -/
theorem lexWord_spec {token : Token} {line' : ℕ} (hc : delimits c = false) (hq : c ≠ '"')
    (h : lexWord line c l = .ok (token, line', rest)) :
    ∃ w', l = w' ++ rest ∧ token = ⟨line, .text (String.ofList (c :: w')), false⟩ ∧
      Written token.kind token.quoted (c :: w') ∧ line' = line + newlines (c :: w') ∧
      rest.head?.all delimits = true := by
  unfold lexWord at h
  simp only at h
  have hsplit := List.takeWhile_append_dropWhile (p := fun c => !delimits c && c != '"') (l := l)
  have hword : ∀ x ∈ l.takeWhile (fun c => !delimits c && c != '"'), delimits x = false ∧ x ≠ '"' := by
    intro x hx
    have hx := List.mem_takeWhile_imp hx
    simpa using hx
  have hstop := List.head?_dropWhile_not (fun c => !delimits c && c != '"') l
  generalize l.takeWhile (fun c => !delimits c && c != '"') = w' at h hsplit hword
  generalize l.dropWhile (fun c => !delimits c && c != '"') = tail at hsplit hstop
  subst hsplit
  rw [List.drop_left] at h
  obtain ⟨u, hcheck, h⟩ := bind_eq_ok.mp h
  have hcheck := ensure_eq_ok.mp hcheck
  cases h
  have hplain : ∀ x ∈ c :: w', delimits x = false ∧ x ≠ '"' := List.forall_mem_cons.mpr ⟨⟨hc, hq⟩, hword⟩
  have hline : newlines (c :: w') = 0 := by
    refine List.count_eq_zero.mpr (fun hmem => ?_)
    exact absurd (hplain _ hmem).1 (by decide)
  refine ⟨w', rfl, rfl, .word (List.cons_ne_nil _ _) hplain, ?_, ?_⟩
  · rw [hline]
    rfl
  · cases rest with
    | nil => rfl
    | cons x rest =>
      have hne : x ≠ '"' := fun heq => bne_iff_ne.mp hcheck (congrArg some heq)
      simpa [hne] using hstop

/-- A token is read as it is written. -/
theorem lexToken_spec (hjson : DecodesJson fromJson) {token : Token} {line' : ℕ}
    (hspace : isWhitespace c = false) (hhash : c ≠ '#')
    (h : lexToken fromJson line c l = .ok (token, line', rest)) :
    ∃ w', l = w' ++ rest ∧ token.line = line ∧ Written token.kind token.quoted (c :: w') ∧
      line' = line + newlines (c :: w') ∧
      (token.kind.isText = true → rest.head?.all delimits = true) := by
  unfold lexToken at h
  split at h
  · rename_i hopen
    subst hopen
    cases h
    exact ⟨[], rfl, rfl, .open, rfl, fun htext => nomatch htext⟩
  split at h
  · rename_i hclose
    subst hclose
    cases h
    exact ⟨[], rfl, rfl, .close, rfl, fun htext => nomatch htext⟩
  split at h
  · rename_i hquote
    subst hquote
    unfold lexQuoted at h
    obtain ⟨⟨part, rest'⟩, hpart, h⟩ := bind_eq_ok.mp h
    obtain ⟨value, hvalue, h⟩ := bind_eq_ok.mp h
    obtain ⟨u, hcheck, h⟩ := bind_eq_ok.mp h
    cases h
    obtain ⟨rfl, body, rfl⟩ := quotedPart_eq_some (context_eq_ok.mp hpart)
    have hdenotes := (hjson body value).mp (mapError_eq_ok.mp hvalue)
    exact ⟨body ++ ['"'], rfl, rfl, .quoted hdenotes, rfl, fun _ => ensure_eq_ok.mp hcheck⟩
  · rename_i hopen hclose hquote
    have hc : delimits c = false := by simp [delimits, hspace, hopen, hclose, hhash]
    obtain ⟨w', rfl, rfl, hw, hline, hrest⟩ := lexWord_spec hc hquote h
    exact ⟨w', rfl, rfl, hw, hline, fun _ => hrest⟩

/-- **What is read is a rendering** of the tokens. -/
theorem rendering_of_lexFrom (hjson : DecodesJson fromJson) (hfuel : l.length ≤ fuel)
    (h : lexFrom fromJson fuel (1 + newlines before) l = .ok tokens)
    (hjoined : joined = true → l.head?.all delimits = true) : Rendering before joined tokens l := by
  induction fuel generalizing before joined l tokens with
  | zero =>
    obtain rfl : l = [] := List.eq_nil_of_length_eq_zero (Nat.le_zero.mp hfuel)
    obtain rfl : [] = tokens := Except.ok.inj h
    exact .stop
  | succ fuel ih =>
    cases l with
    | nil =>
      obtain rfl : [] = tokens := Except.ok.inj h
      exact .stop
    | cons c l =>
      rw [List.length_cons] at hfuel
      rw [lexFrom] at h
      split at h
      · rename_i hspace
        rw [Nat.add_assoc, ← newlines_append] at h
        exact .space hspace (ih (by omega) h (fun hj => absurd hj Bool.false_ne_true))
      rename_i hspace
      split at h
      · rename_i hhash
        subst hhash
        rcases afterComment_cases l with ⟨hnone, hl⟩ | ⟨text, rest, rfl, htext, hrest⟩
        · rw [hnone] at h
          obtain rfl : [] = tokens := Except.ok.inj h
          exact .lastComment hl
        · have hline : 1 + newlines (before ++ '#' :: (text ++ ['\n'])) = 1 + newlines before + 1 := by
            rw [newlines_append]
            show 1 + (newlines before + newlines (text ++ ['\n'])) = _
            rw [newlines_append, show newlines text = 0 from List.count_eq_zero.mpr htext]
            rfl
          rw [hrest] at h
          rw [List.length_append, List.length_cons] at hfuel
          exact .comment htext
            (ih (by omega) (hline ▸ h) (fun hj => absurd hj Bool.false_ne_true))
      · rename_i hhash
        obtain ⟨⟨token, line', rest⟩, htoken, h⟩ := bind_eq_ok.mp h
        obtain ⟨tokens', htokens, h⟩ := bind_eq_ok.mp h
        obtain rfl : token :: tokens' = tokens := Except.ok.inj h
        obtain ⟨w', rfl, htline, hw, rfl, hdelim⟩ :=
          lexToken_spec hjson (by simpa using hspace) hhash htoken
        obtain ⟨tline, kind, quoted⟩ := token
        obtain rfl : tline = 1 + newlines before := htline
        rw [Nat.add_assoc, ← newlines_append] at htokens
        rw [List.length_append] at hfuel
        refine .token hw (fun hj => ?_) (ih (by omega) htokens hdelim)
        -- after a text token, only a brace can follow at once
        have hc : delimits c = true := hjoined hj
        rcases (not_delimits (by simpa using hspace) hhash).mp hc with rfl | rfl
        · obtain ⟨rfl, -⟩ : kind = .open ∧ quoted = false := by
            cases hw with
            | «open» => exact ⟨rfl, rfl⟩
            | word nonempty plain => exact absurd (plain _ (List.mem_cons_self ..)).1 (by decide)
          rfl
        · obtain ⟨rfl, -⟩ : kind = .close ∧ quoted = false := by
            cases hw with
            | close => exact ⟨rfl, rfl⟩
            | word nonempty plain => exact absurd (plain _ (List.mem_cons_self ..)).1 (by decide)
          rfl

end Geata.Geatafile
