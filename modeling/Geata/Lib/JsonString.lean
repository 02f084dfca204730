import Mathlib.Data.List.TakeWhile
import Mathlib.Tactic.IntervalCases
import Geata.Lib.Text

namespace Geata.Lib

/-!
# JSON string literals

A literal is a row of items between two quotes: a character as itself, a short escape, or one or two
`\uxxxx` escapes.  Many literals denote one text.

* `Item`, `Denotes` — what the inside of a literal denotes.
* `readItem_eq_some`, `decode_eq_some` — reading it.
-/

/-- The character after a backslash, and what it stands for. -/
def shortEscape (e : Char) : Option Char :=
  if e = '"' ∨ e = '\\' ∨ e = '/' then some e
  else if e = 'b' then some (Char.ofNat 8)
  else if e = 'f' then some (Char.ofNat 12)
  else if e = 'n' then some '\n'
  else if e = 'r' then some '\r'
  else if e = 't' then some '\t'
  else none

/-- The number of four hexadecimal digits. -/
def hex4 (a b c d : Char) : Option ℕ := do
  let x ← hexVal a
  let y ← hexVal b
  let z ← hexVal c
  let w ← hexVal d
  return ((x * 16 + y) * 16 + z) * 16 + w

/-- One item, and the character it denotes. -/
inductive Item : List Char → Char → Prop where
  | plain {c : Char} (control : 32 ≤ c.toNat) (quote : c ≠ '"') (backslash : c ≠ '\\') : Item [c] c
  | short {e c : Char} (h : shortEscape e = some c) : Item ['\\', e] c
  | unicode {a b c d : Char} {n : ℕ} (h : hex4 a b c d = some n) (valid : n.isValidChar) :
      Item ['\\', 'u', a, b, c, d] (Char.ofNat n)
  | pair {a b c d a' b' c' d' : Char} {high low : ℕ} (hhigh : hex4 a b c d = some high)
      (hlow : hex4 a' b' c' d' = some low) (first : 0xd800 ≤ high ∧ high < 0xdc00)
      (second : 0xdc00 ≤ low ∧ low < 0xe000) :
      Item ['\\', 'u', a, b, c, d, '\\', 'u', a', b', c', d']
        (Char.ofNat (0x10000 + (high - 0xd800) * 0x400 + (low - 0xdc00)))

/-- The inside of a literal, and the text it denotes. -/
inductive Denotes : List Char → List Char → Prop where
  | nil : Denotes [] []
  | cons {w l t : List Char} {c : Char} (item : Item w c) (rest : Denotes l t) :
      Denotes (w ++ l) (c :: t)

/-! ### The characters of an item -/

variable {a b c d e : Char} {w l r t : List Char} {n : ℕ}

/-- A hexadecimal digit is not a character that means something in a literal. -/
theorem hexVal_plain (h : hexVal c = some n) : n < 16 ∧ c ≠ '"' ∧ c ≠ '\\' ∧ c ≠ '\n' := by
  unfold hexVal at h
  have hle : ∀ a b : Char, a ≤ b ↔ a.toNat ≤ b.toNat := fun _ _ => Iff.rfl
  simp only [hle] at h
  have hne : ∀ a : Char, c.toNat ≠ a.toNat → c ≠ a := fun a hne heq => hne (congrArg Char.toNat heq)
  have h0 : '0'.toNat = 48 ∧ '9'.toNat = 57 ∧ 'a'.toNat = 97 ∧ 'f'.toNat = 102 ∧ 'A'.toNat = 65 ∧
    'F'.toNat = 70 ∧ '"'.toNat = 34 ∧ '\\'.toNat = 92 ∧ '\n'.toNat = 10 := by decide
  obtain ⟨h0, h9, ha, hf, hA, hF, hq, hb, hn⟩ := h0
  rw [h0, h9, ha, hf, hA, hF] at h
  have hrange : n < 16 ∧ c.toNat ≠ 34 ∧ c.toNat ≠ 92 ∧ c.toNat ≠ 10 := by
    split at h
    · obtain rfl := Option.some.inj h
      omega
    split at h
    · obtain rfl := Option.some.inj h
      omega
    split at h
    · obtain rfl := Option.some.inj h
      omega
    · exact nomatch h
  exact ⟨hrange.1, hne _ (by omega), hne _ (by omega), hne _ (by omega)⟩

theorem hex4_eq_some (h : hex4 a b c d = some n) : n < 65536 ∧
    (∀ x ∈ [a, b, c, d], x ≠ '"' ∧ x ≠ '\\' ∧ x ≠ '\n') := by
  unfold hex4 at h
  simp only [Option.bind_eq_bind, Option.bind_eq_some_iff, Option.pure_def, Option.some.injEq] at h
  obtain ⟨x, hx, y, hy, z, hz, v, hv, rfl⟩ := h
  obtain ⟨hx, hx'⟩ := hexVal_plain hx
  obtain ⟨hy, hy'⟩ := hexVal_plain hy
  obtain ⟨hz, hz'⟩ := hexVal_plain hz
  obtain ⟨hv, hv'⟩ := hexVal_plain hv
  refine ⟨by omega, ?_⟩
  simp only [List.mem_cons, List.not_mem_nil, or_false, forall_eq_or_imp, forall_eq]
  exact ⟨hx', hy', hz', hv'⟩

theorem shortEscape_eq_some (h : shortEscape e = some c) : e ≠ 'u' ∧ e ≠ '\n' := by
  have hu : shortEscape 'u' = none := by decide
  have hn : shortEscape '\n' = none := by decide
  constructor
  · rintro rfl
    exact nomatch hu.symm.trans h
  · rintro rfl
    exact nomatch hn.symm.trans h

/-- An item is on one line. -/
theorem Item.newline (h : Item w c) : '\n' ∉ w := by
  cases h with
  | plain control quote backslash =>
    rintro hmem
    rw [← List.mem_singleton.mp hmem] at control
    exact absurd control (by decide)
  | short h =>
    have hne := (shortEscape_eq_some h).2
    simp [hne.symm]
  | unicode h valid =>
    have hne := (hex4_eq_some h).2
    simp only [List.mem_cons, List.not_mem_nil, or_false, forall_eq_or_imp, forall_eq] at hne
    obtain ⟨⟨-, -, h₁⟩, ⟨-, -, h₂⟩, ⟨-, -, h₃⟩, -, -, h₄⟩ := hne
    simp [h₁.symm, h₂.symm, h₃.symm, h₄.symm]
  | pair hhigh hlow =>
    have hne := (hex4_eq_some hhigh).2
    have hne' := (hex4_eq_some hlow).2
    simp only [List.mem_cons, List.not_mem_nil, or_false, forall_eq_or_imp, forall_eq] at hne hne'
    obtain ⟨⟨-, -, h₁⟩, ⟨-, -, h₂⟩, ⟨-, -, h₃⟩, -, -, h₄⟩ := hne
    obtain ⟨⟨-, -, h₅⟩, ⟨-, -, h₆⟩, ⟨-, -, h₇⟩, -, -, h₈⟩ := hne'
    simp [h₁.symm, h₂.symm, h₃.symm, h₄.symm, h₅.symm, h₆.symm, h₇.symm, h₈.symm]

theorem Denotes.newline (h : Denotes l t) : '\n' ∉ l := by
  induction h with
  | nil => simp
  | cons item rest ih =>
    rw [List.mem_append]
    rintro (hmem | hmem)
    · exact item.newline hmem
    · exact ih hmem

/-! ### Reading -/

/-- The low half of a surrogate pair. -/
def readLow : List Char → Option (ℕ × List Char)
  | '\\' :: 'u' :: a :: b :: c :: d :: l => do
    let low ← hex4 a b c d
    if 0xdc00 ≤ low ∧ low < 0xe000 then return (low, l) else none
  | _ => none

/-- What follows `\u`. -/
def readUnicode : List Char → Option (Char × List Char)
  | a :: b :: c :: d :: l => do
    let n ← hex4 a b c d
    if n.isValidChar then return (Char.ofNat n, l)
    else if n < 0xdc00 then
      let (low, l) ← readLow l
      return (Char.ofNat (0x10000 + (n - 0xd800) * 0x400 + (low - 0xdc00)), l)
    else none
  | _ => none

/-- The first item of a text. -/
def readItem : List Char → Option (Char × List Char)
  | [] => none
  | c :: l =>
    if c = '\\' then
      match l with
      | [] => none
      | e :: l => if e = 'u' then readUnicode l else (shortEscape e).map (fun c => (c, l))
    else if 32 ≤ c.toNat ∧ c ≠ '"' then some (c, l) else none

theorem readLow_eq_some {low : ℕ} (h : readLow l = some (low, r)) : ∃ a b c d,
    l = ['\\', 'u', a, b, c, d] ++ r ∧ hex4 a b c d = some low ∧ 0xdc00 ≤ low ∧ low < 0xe000 := by
  unfold readLow at h
  split at h
  · rename_i a b c d l
    obtain ⟨n, hn, h⟩ := Option.bind_eq_some_iff.mp h
    split at h
    · rename_i hrange
      obtain ⟨rfl, rfl⟩ := Prod.mk.inj (Option.some.inj h)
      exact ⟨a, b, c, d, rfl, hn, hrange⟩
    · exact nomatch h
  · exact nomatch h

theorem readUnicode_sound (h : readUnicode l = some (c, r)) :
    ∃ w, Item ('\\' :: 'u' :: w) c ∧ l = w ++ r := by
  unfold readUnicode at h
  split at h
  · rename_i a b c' d l
    obtain ⟨n, hn, h⟩ := Option.bind_eq_some_iff.mp h
    split at h
    · rename_i hvalid
      obtain ⟨rfl, rfl⟩ := Prod.mk.inj (Option.some.inj h)
      exact ⟨[a, b, c', d], .unicode hn hvalid, rfl⟩
    · rename_i hvalid
      split at h
      · rename_i hlow
        obtain ⟨⟨low, l'⟩, hl', h⟩ := Option.bind_eq_some_iff.mp h
        obtain ⟨rfl, rfl⟩ := Prod.mk.inj (Option.some.inj h)
        obtain ⟨a', b', c'', d', rfl, hlow', hrange⟩ := readLow_eq_some hl'
        have hhigh : 0xd800 ≤ n := by
          by_contra hlt
          exact hvalid (.inl (by omega))
        exact ⟨[a, b, c', d, '\\', 'u', a', b', c'', d'], .pair hn hlow' ⟨hhigh, hlow⟩ hrange, rfl⟩
      · exact nomatch h
  · exact nomatch h

/-- **Reading an item** takes one off the front. -/
theorem readItem_eq_some : readItem l = some (c, r) ↔ ∃ w, Item w c ∧ l = w ++ r := by
  constructor
  · intro h
    unfold readItem at h
    split at h
    · exact nomatch h
    split at h
    · rename_i hback
      subst hback
      split at h
      · exact nomatch h
      split at h
      · rename_i hu
        subst hu
        obtain ⟨w, hw, rfl⟩ := readUnicode_sound h
        exact ⟨_, hw, rfl⟩
      · rename_i e l _
        obtain ⟨c', hc', heq⟩ := Option.map_eq_some_iff.mp h
        obtain ⟨rfl, rfl⟩ := Prod.mk.inj heq
        exact ⟨['\\', e], .short hc', rfl⟩
    · rename_i c' l hback
      split at h
      · rename_i hplain
        obtain ⟨rfl, rfl⟩ := Prod.mk.inj (Option.some.inj h)
        exact ⟨[c'], .plain hplain.1 hplain.2 hback, rfl⟩
      · exact nomatch h
  · rintro ⟨w, hw, rfl⟩
    cases hw with
    | plain control quote backslash =>
      show (if c = '\\' then _ else if 32 ≤ c.toNat ∧ c ≠ '"' then some (c, r) else none) = _
      rw [if_neg backslash, if_pos ⟨control, quote⟩]
    | @short e c h =>
      show (if e = 'u' then readUnicode r else (shortEscape e).map (fun c => (c, r))) = _
      rw [if_neg (shortEscape_eq_some h).1, h]
      rfl
    | @unicode a b c d n h valid =>
      show (hex4 a b c d).bind _ = _
      rw [h]
      exact if_pos valid
    | @pair a b c d a' b' c' d' high low hhigh hlow first second =>
      have hvalid : ¬ high.isValidChar := by
        rintro (hlt | ⟨hgt, -⟩) <;> omega
      have hread : readLow (['\\', 'u', a', b', c', d'] ++ r) = some (low, r) := by
        show (hex4 a' b' c' d').bind _ = _
        rw [hlow]
        exact if_pos second
      show (hex4 a b c d).bind _ = _
      rw [hhigh]
      show (if high.isValidChar then _ else if high < 0xdc00 then _ else none) = _
      rw [if_neg hvalid, if_pos first.2]
      show (readLow (['\\', 'u', a', b', c', d'] ++ r)).bind _ = _
      rw [hread]
      rfl

theorem Item.ne_nil (h : Item w c) : w ≠ [] := by
  cases h <;> simp

/-- The text of a row of items, with a unit of fuel for each. -/
def decodeWith : ℕ → List Char → Option (List Char)
  | _, [] => some []
  | 0, _ :: _ => none
  | fuel + 1, c :: l => do
    let (c, l) ← readItem (c :: l)
    let t ← decodeWith fuel l
    return c :: t

def decode (l : List Char) : Option (List Char) := decodeWith l.length l

theorem decodeWith_sound {fuel : ℕ} (h : decodeWith fuel l = some t) : Denotes l t := by
  induction fuel generalizing l t with
  | zero =>
    cases l with
    | nil =>
      obtain rfl := Option.some.inj h
      exact .nil
    | cons c l => exact nomatch h
  | succ fuel ih =>
    cases l with
    | nil =>
      obtain rfl := Option.some.inj h
      exact .nil
    | cons c l =>
      obtain ⟨⟨c', l'⟩, hitem, h⟩ := Option.bind_eq_some_iff.mp h
      obtain ⟨t', ht', h⟩ := Option.bind_eq_some_iff.mp h
      obtain rfl := Option.some.inj h
      obtain ⟨w, hw, heq⟩ := readItem_eq_some.mp hitem
      rw [heq]
      exact .cons hw (ih ht')

theorem decodeWith_complete (h : Denotes l t) {fuel : ℕ} (hfuel : l.length ≤ fuel) :
    decodeWith fuel l = some t := by
  induction h generalizing fuel with
  | nil => cases fuel <;> rfl
  | @cons w l t c item rest ih =>
    have hread : readItem (w ++ l) = some (c, l) := readItem_eq_some.mpr ⟨w, item, rfl⟩
    obtain ⟨x, xs, rfl⟩ := List.exists_cons_of_ne_nil item.ne_nil
    rw [List.length_append, List.length_cons] at hfuel
    obtain ⟨fuel, rfl⟩ : ∃ n, fuel = n + 1 := ⟨fuel - 1, by omega⟩
    show (readItem (x :: (xs ++ l))).bind _ = _
    have hcons : x :: (xs ++ l) = x :: xs ++ l := rfl
    rw [hcons, hread]
    show (decodeWith fuel l).bind _ = _
    rw [ih (by omega)]
    rfl

/-- **Decoding is denotation.** -/
theorem decode_eq_some : decode l = some t ↔ Denotes l t :=
  ⟨decodeWith_sound, fun h => decodeWith_complete h (Nat.le_refl _)⟩

end Geata.Lib
