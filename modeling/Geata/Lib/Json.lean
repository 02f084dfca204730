import Mathlib.Data.List.TakeWhile
import Mathlib.Tactic.IntervalCases
import Geata.Lib.Text

namespace Geata.Lib

/-!
# Compact JSON text

The values a serializer builds and the text it writes for them, without whitespace: strings with
the short escapes, `\u00xx` for the other control characters and every further character as
itself; unsigned numbers in decimal; object members in the order they are given.

* `Json.render` — the text of a value.
* `Json.render_cancel` — **the text of a value is self-delimiting**: reading it off the front of a
  longer text leaves no choice, as long as a number is not followed by a digit.
* `Json.compress_injective` — hence different values have different texts.
-/

/-! ### Strings -/

/-- The text of one character inside a JSON string. -/
def escape (c : Char) : List Char :=
  if c = '"' then ['\\', '"']
  else if c = '\\' then ['\\', '\\']
  else if c.toNat < 32 then
    if c.toNat = 8 then ['\\', 'b']
    else if c.toNat = 9 then ['\\', 't']
    else if c.toNat = 10 then ['\\', 'n']
    else if c.toNat = 12 then ['\\', 'f']
    else if c.toNat = 13 then ['\\', 'r']
    else ['\\', 'u', '0', '0', Nat.digitChar (c.toNat / 16), Nat.digitChar (c.toNat % 16)]
  else [c]

/-- A JSON string literal. -/
def quote (s : String) : List Char := '"' :: (s.toList.flatMap escape ++ ['"'])

/-- Read one escaped character back (only used to show that `escape` is a prefix code). -/
def unescape : List Char → Option (Char × List Char)
  | '\\' :: 'u' :: '0' :: '0' :: a :: b :: t => do
    let x ← hexVal a
    let y ← hexVal b
    return (Char.ofNat (16 * x + y), t)
  | '\\' :: 'b' :: t => some (Char.ofNat 8, t)
  | '\\' :: 't' :: t => some (Char.ofNat 9, t)
  | '\\' :: 'n' :: t => some (Char.ofNat 10, t)
  | '\\' :: 'f' :: t => some (Char.ofNat 12, t)
  | '\\' :: 'r' :: t => some (Char.ofNat 13, t)
  | '\\' :: c :: t => some (c, t)
  | c :: t => some (c, t)
  | [] => none

/-- The control characters are the thirty-two first code points. -/
theorem unescape_control (n : ℕ) (h : n < 32) (t : List Char) :
    unescape (escape (Char.ofNat n) ++ t) = some (Char.ofNat n, t) := by
  interval_cases n <;> rfl

theorem unescape_escape (c : Char) (t : List Char) : unescape (escape c ++ t) = some (c, t) := by
  by_cases hn : c.toNat < 32
  · rw [show c = Char.ofNat c.toNat from (Char.ofNat_toNat c).symm]
    exact unescape_control _ hn t
  · by_cases hq : c = '"'
    · subst hq; rfl
    · by_cases hb : c = '\\'
      · subst hb; rfl
      · have he : escape c = [c] := by simp only [escape, hq, hb, hn, if_false]
        rw [he, List.singleton_append]
        unfold unescape
        split
        all_goals simp_all

theorem escape_ne_quote (c : Char) (t u : List Char) : escape c ++ t ≠ '"' :: u := by
  intro h
  have h₁ := unescape_escape c t
  rw [h] at h₁
  have hc : '"' = c := congrArg Prod.fst (Option.some.inj h₁)
  subst hc
  simp [escape] at h

theorem escape_cancel {c c' : Char} {t t' : List Char} (h : escape c ++ t = escape c' ++ t') :
    c = c' ∧ t = t' := by
  have := congrArg unescape h
  rwa [unescape_escape, unescape_escape, Option.some.injEq, Prod.mk.injEq] at this

/-- The body of a string literal ends at its first unescaped quote. -/
theorem escaped_cancel (l l' : List Char) {r r' : List Char}
    (h : l.flatMap escape ++ '"' :: r = l'.flatMap escape ++ '"' :: r') : l = l' ∧ r = r' := by
  induction l generalizing l' with
  | nil =>
    cases l' with
    | nil => simpa using h
    | cons c' t' =>
      rw [List.flatMap_cons, List.append_assoc] at h
      exact absurd h.symm (escape_ne_quote _ _ _)
  | cons c t ih =>
    cases l' with
    | nil =>
      rw [List.flatMap_cons, List.append_assoc] at h
      exact absurd h (escape_ne_quote _ _ _)
    | cons c' t' =>
      simp only [List.flatMap_cons, List.append_assoc] at h
      obtain ⟨rfl, h'⟩ := escape_cancel h
      obtain ⟨rfl, hr⟩ := ih t' h'
      exact ⟨rfl, hr⟩

theorem quote_cancel {s s' : String} {r r' : List Char} (h : quote s ++ r = quote s' ++ r') :
    s = s' ∧ r = r' := by
  simp only [quote, List.cons_append, List.append_assoc, List.nil_append,
    List.cons.injEq, true_and] at h
  obtain ⟨hl, hr⟩ := escaped_cancel _ _ h
  exact ⟨String.toList_inj.mp hl, hr⟩

/-! ### Values -/

/-- The JSON values that occur here; object members keep the order of the list. -/
inductive Json where
  | null
  | str (s : String)
  | num (n : ℕ)
  | arr (xs : List Json)
  | obj (fs : List (String × Json))

namespace Json

mutual

/-- The compact text of a value. -/
def render : Json → List Char
  | .null => ['n', 'u', 'l', 'l']
  | .str s => quote s
  | .num n => Nat.toDigits 10 n
  | .arr [] => ['[', ']']
  | .arr (x :: xs) => '[' :: (render x ++ renderItems xs)
  | .obj [] => ['{', '}']
  | .obj ((k, v) :: fs) => '{' :: (quote k ++ ':' :: (render v ++ renderFields fs))

/-- The items after the first one, up to the closing bracket. -/
def renderItems : List Json → List Char
  | [] => [']']
  | x :: xs => ',' :: (render x ++ renderItems xs)

/-- The members after the first one, up to the closing brace. -/
def renderFields : List (String × Json) → List Char
  | [] => ['}']
  | (k, v) :: fs => ',' :: (quote k ++ ':' :: (render v ++ renderFields fs))

end

/-- The text of a value as a string. -/
def compress (j : Json) : String := String.ofList j.render

/-- The UTF-8 bytes of that text. -/
def toVec (j : Json) : List UInt8 := utf8 j.render

/-- A text that cannot continue a number. -/
def Stop (r : List Char) : Prop := ∀ c ∈ r.head?, ¬ c.isDigit

theorem stop_nil : Stop [] := by simp [Stop]

theorem stop_cons {c : Char} (h : c.isDigit = false) (r : List Char) : Stop (c :: r) := by
  simp [Stop, h]

theorem stop_renderItems (xs : List Json) (r : List Char) : Stop (renderItems xs ++ r) := by
  cases xs <;> exact stop_cons (by decide) _

theorem stop_renderFields (fs : List (String × Json)) (r : List Char) :
    Stop (renderFields fs ++ r) := by
  cases fs <;> exact stop_cons (by decide) _

/-- The digits in front of a text that cannot continue them. -/
theorem takeWhile_digits {l r : List Char} (hl : ∀ c ∈ l, c.isDigit) (hr : Stop r) :
    (l ++ r).takeWhile Char.isDigit = l := by
  rw [List.takeWhile_append_of_pos hl]
  have : r.takeWhile Char.isDigit = [] := by
    cases r with
    | nil => rfl
    | cons c t =>
      have hc : ¬ c.isDigit := hr c (by simp)
      rw [List.takeWhile_cons_of_neg hc]
  rw [this, List.append_nil]

theorem digits_cancel {n n' : ℕ} {r r' : List Char} (hr : Stop r) (hr' : Stop r')
    (h : Nat.toDigits 10 n ++ r = Nat.toDigits 10 n' ++ r') : n = n' ∧ r = r' := by
  have hd : ∀ m, ∀ c ∈ Nat.toDigits 10 m, c.isDigit := fun m c hc =>
    Nat.isDigit_of_mem_toDigits (by decide) (by decide) hc
  have ht := congrArg (List.takeWhile Char.isDigit) h
  rw [takeWhile_digits (hd n) hr, takeWhile_digits (hd n') hr'] at ht
  have hn := toDigits_injective ht
  subst hn
  exact ⟨rfl, List.append_cancel_left h⟩

/-- What the first character of a text says about the value. -/
def Kind : Json → Char → Prop
  | .null, c => c = 'n'
  | .str _, c => c = '"'
  | .num _, c => c.isDigit
  | .arr _, c => c = '['
  | .obj _, c => c = '{'

theorem render_kind (j : Json) (r : List Char) : ∃ c t, render j ++ r = c :: t ∧ Kind j c := by
  match j with
  | .null => exact ⟨_, _, rfl, rfl⟩
  | .str s => exact ⟨_, _, rfl, rfl⟩
  | .num n =>
    cases hd : Nat.toDigits 10 n with
    | nil => exact absurd hd Nat.toDigits_ne_nil
    | cons c t =>
      refine ⟨c, t ++ r, by simp [render, hd], ?_⟩
      exact Nat.isDigit_of_mem_toDigits (b := 10) (n := n) (by decide) (by decide) (by simp [hd])
  | .arr [] => exact ⟨_, _, rfl, rfl⟩
  | .arr (_ :: _) => exact ⟨_, _, by rw [render, List.cons_append], rfl⟩
  | .obj [] => exact ⟨_, _, rfl, rfl⟩
  | .obj ((_, _) :: _) => exact ⟨_, _, by rw [render, List.cons_append], rfl⟩

/-- Values with the same text in front have the same first character. -/
theorem kind_of_render_eq {j j' : Json} {r r' : List Char}
    (h : render j ++ r = render j' ++ r') : ∃ c, Kind j c ∧ Kind j' c := by
  obtain ⟨c, t, h₁, hc⟩ := render_kind j r
  obtain ⟨c', t', h₂, hc'⟩ := render_kind j' r'
  rw [h₁, h₂, List.cons.injEq] at h
  exact ⟨c, hc, h.1 ▸ hc'⟩

/-- A value's text never starts with a closing bracket. -/
theorem render_ne_close {j : Json} {r t : List Char} : render j ++ r ≠ ']' :: t := by
  intro h
  obtain ⟨c, u, h₁, hc⟩ := render_kind j r
  rw [h₁, List.cons.injEq] at h
  rw [h.1] at hc
  cases j <;> exact absurd hc (by simp [Kind])

mutual

/-- **A value's text is self-delimiting.**  The induction follows the value; the first character
    settles which constructors can meet, and the texts of the parts are cancelled from the left. -/
theorem render_cancel : ∀ (j j' : Json) {r r' : List Char}, Stop r → Stop r' →
    render j ++ r = render j' ++ r' → j = j' ∧ r = r'
  | .null, .null, _, _, _, _, h => by simpa [render] using h
  | .str s, .str s', _, _, _, _, h => by
    obtain ⟨rfl, hr⟩ := quote_cancel h
    exact ⟨rfl, hr⟩
  | .num n, .num n', _, _, hr, hr', h => by
    obtain ⟨rfl, hr⟩ := digits_cancel hr hr' h
    exact ⟨rfl, hr⟩
  | .arr [], .arr [], _, _, _, _, h => by simpa [render] using h
  | .arr [], .arr (y :: ys), _, _, _, _, h => by
    simp only [render, List.cons_append, List.nil_append, List.append_assoc, List.cons.injEq,
      true_and] at h
    exact absurd h.symm render_ne_close
  | .arr (x :: xs), .arr [], _, _, _, _, h => by
    simp only [render, List.cons_append, List.nil_append, List.append_assoc, List.cons.injEq,
      true_and] at h
    exact absurd h render_ne_close
  | .arr (x :: xs), .arr (y :: ys), _, _, hr, hr', h => by
    simp only [render, List.cons_append, List.append_assoc, List.cons.injEq, true_and] at h
    obtain ⟨rfl, h'⟩ := render_cancel x y (stop_renderItems _ _) (stop_renderItems _ _) h
    obtain ⟨rfl, hr⟩ := renderItems_cancel xs ys hr hr' h'
    exact ⟨rfl, hr⟩
  | .obj [], .obj [], _, _, _, _, h => by simpa [render] using h
  | .obj [], .obj ((k, v) :: fs), _, _, _, _, h => by simp [render, quote] at h
  | .obj ((k, v) :: fs), .obj [], _, _, _, _, h => by simp [render, quote] at h
  | .obj ((k, v) :: fs), .obj ((k', v') :: fs'), _, _, hr, hr', h => by
    simp only [render, List.cons_append, List.append_assoc, List.cons.injEq, true_and] at h
    obtain ⟨rfl, h'⟩ := quote_cancel h
    simp only [List.cons.injEq, true_and] at h'
    obtain ⟨rfl, h''⟩ := render_cancel v v' (stop_renderFields _ _) (stop_renderFields _ _) h'
    obtain ⟨rfl, hr⟩ := renderFields_cancel fs fs' hr hr' h''
    exact ⟨rfl, hr⟩
  | .null, .str _, _, _, _, _, h | .null, .num _, _, _, _, _, h | .null, .arr _, _, _, _, _, h
  | .null, .obj _, _, _, _, _, h | .str _, .null, _, _, _, _, h | .str _, .num _, _, _, _, _, h
  | .str _, .arr _, _, _, _, _, h | .str _, .obj _, _, _, _, _, h | .num _, .null, _, _, _, _, h
  | .num _, .str _, _, _, _, _, h | .num _, .arr _, _, _, _, _, h | .num _, .obj _, _, _, _, _, h
  | .arr _, .null, _, _, _, _, h | .arr _, .str _, _, _, _, _, h | .arr _, .num _, _, _, _, _, h
  | .arr _, .obj _, _, _, _, _, h | .obj _, .null, _, _, _, _, h | .obj _, .str _, _, _, _, _, h
  | .obj _, .num _, _, _, _, _, h | .obj _, .arr _, _, _, _, _, h => by
    obtain ⟨c, hc, hc'⟩ := kind_of_render_eq h
    simp only [Kind] at hc hc'
    subst_vars
    simp_all [Char.isDigit]

theorem renderItems_cancel : ∀ (xs ys : List Json) {r r' : List Char}, Stop r → Stop r' →
    renderItems xs ++ r = renderItems ys ++ r' → xs = ys ∧ r = r'
  | [], [], _, _, _, _, h => by simpa [renderItems] using h
  | [], _ :: _, _, _, _, _, h => by simp [renderItems] at h
  | _ :: _, [], _, _, _, _, h => by simp [renderItems] at h
  | x :: xs, y :: ys, _, _, hr, hr', h => by
    simp only [renderItems, List.cons_append, List.append_assoc, List.cons.injEq, true_and] at h
    obtain ⟨rfl, h'⟩ := render_cancel x y (stop_renderItems _ _) (stop_renderItems _ _) h
    obtain ⟨rfl, hr⟩ := renderItems_cancel xs ys hr hr' h'
    exact ⟨rfl, hr⟩

theorem renderFields_cancel : ∀ (fs fs' : List (String × Json)) {r r' : List Char},
    Stop r → Stop r' → renderFields fs ++ r = renderFields fs' ++ r' → fs = fs' ∧ r = r'
  | [], [], _, _, _, _, h => by simpa [renderFields] using h
  | [], (_, _) :: _, _, _, _, _, h => by simp [renderFields] at h
  | (_, _) :: _, [], _, _, _, _, h => by simp [renderFields] at h
  | (k, v) :: fs, (k', v') :: fs', _, _, hr, hr', h => by
    simp only [renderFields, List.cons_append, List.append_assoc, List.cons.injEq,
      true_and] at h
    obtain ⟨rfl, h'⟩ := quote_cancel h
    simp only [List.cons.injEq, true_and] at h'
    obtain ⟨rfl, h''⟩ := render_cancel v v' (stop_renderFields _ _) (stop_renderFields _ _) h'
    obtain ⟨rfl, hr⟩ := renderFields_cancel fs fs' hr hr' h''
    exact ⟨rfl, hr⟩

end

/-- **Different values have different texts.** -/
theorem compress_injective {j j' : Json} (h : j.compress = j'.compress) : j = j' := by
  have hl : j.render ++ [] = j'.render ++ [] := by
    rw [List.append_nil, List.append_nil]; exact String.ofList_inj.mp h
  exact (render_cancel j j' stop_nil stop_nil hl).1

theorem toVec_injective {j j' : Json} (h : j.toVec = j'.toVec) : j = j' := by
  rw [toVec, toVec, ← bytes_ofList, ← bytes_ofList] at h
  exact compress_injective (bytes_injective h)

-- Two occurrences, one occurrence with a comma, and a quoted quote stay apart.
example : (arr [.str "a", .str "b"]).compress = "[\"a\",\"b\"]" := by decide
example : (arr [.str "a, b"]).compress = "[\"a, b\"]" := by decide
example : (arr [.str "\"\t"]).compress = "[\"\\\"\\t\"]" := by decide

end Json

end Geata.Lib
