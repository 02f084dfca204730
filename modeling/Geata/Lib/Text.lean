import Mathlib.Data.List.Basic
import Mathlib.Data.Nat.Notation
import Mathlib.Tactic.IntervalCases

namespace Geata.Lib

/-!
# Bytes, hexadecimal and decimal text

* `bytes` / `fromUtf8` — a string's UTF-8 bytes and back.
* `hex` — two lowercase digits per byte; `hex_injective`, and `unhex_hex` for the decoder.
* `parseNat` — nonempty strings of ASCII digits; `parseNat_repr` inverts the decimal printer.
* `stripPrefix` — text after a fixed prefix.
-/

/-! ### UTF-8 -/

/-- The UTF-8 bytes of a string. -/
def bytes (s : String) : List UInt8 := s.toByteArray.data.toList

/-- The UTF-8 bytes of a list of characters. -/
def utf8 (l : List Char) : List UInt8 := l.flatMap String.utf8EncodeChar

theorem bytes_ofList (l : List Char) : bytes (String.ofList l) = utf8 l := by
  rw [bytes, String.toByteArray_ofList, List.utf8Encode, List.data_toByteArray]
  rfl

theorem utf8ByteSize_ofList (l : List Char) :
    (String.ofList l).utf8ByteSize = (utf8 l).length := by
  rw [← bytes_ofList, bytes, ← String.size_toByteArray]
  rfl

theorem utf8_length_le (l : List Char) : (utf8 l).length ≤ 4 * l.length := by
  induction l with
  | nil => simp [utf8]
  | cons c cs ih =>
    have hc : c.utf8Size ≤ 4 := c.utf8Size_le_four
    simp only [utf8, List.flatMap_cons, List.length_append, String.length_utf8EncodeChar,
      List.length_cons] at ih ⊢
    omega

/-- Decode UTF-8, refusing malformed bytes. -/
def fromUtf8 (b : List UInt8) : Option String := String.fromUTF8? ⟨b.toArray⟩

theorem bytes_injective {s t : String} (h : bytes s = bytes t) : s = t := by
  rw [← String.toByteArray_inj]
  have : s.toByteArray.data = t.toByteArray.data := Array.toList_inj.mp h
  exact ByteArray.ext this

@[simp] theorem fromUtf8_bytes (s : String) : fromUtf8 (bytes s) = some s := by
  have hb : (⟨(bytes s).toArray⟩ : ByteArray) = s.toByteArray := by
    simp [bytes]
  simp only [fromUtf8, String.fromUTF8?, hb, s.isValidUTF8, dite_true]
  rfl

theorem bytes_of_fromUtf8 {b : List UInt8} {s : String} (h : fromUtf8 b = some s) :
    bytes s = b := by
  simp only [fromUtf8, String.fromUTF8?] at h
  split at h
  · simp only [Option.some.injEq] at h
    subst h
    simp [bytes, String.fromUTF8]
  · exact absurd h (by simp)

/-! ### Hexadecimal -/

/-- The two lowercase hexadecimal digits of a byte. -/
def hexByte (b : UInt8) : List Char :=
  [Nat.digitChar (b.toNat / 16), Nat.digitChar (b.toNat % 16)]

/-- Lowercase hexadecimal text of a byte string. -/
def hex (b : List UInt8) : String := String.ofList (b.flatMap hexByte)

/-- The value of a hexadecimal digit of either case. -/
def hexVal (c : Char) : Option ℕ :=
  if '0' ≤ c ∧ c ≤ '9' then some (c.toNat - 48)
  else if 'a' ≤ c ∧ c ≤ 'f' then some (c.toNat - 87)
  else if 'A' ≤ c ∧ c ≤ 'F' then some (c.toNat - 55)
  else none

/-- Decode pairs of hexadecimal digits. -/
def unhex : List Char → Option (List UInt8)
  | [] => some []
  | [_] => none
  | a :: b :: t => do
    let x ← hexVal a
    let y ← hexVal b
    let rest ← unhex t
    return UInt8.ofNat (16 * x + y) :: rest

theorem hexVal_digitChar {n : ℕ} (h : n < 16) : hexVal (Nat.digitChar n) = some n := by
  revert n; decide

@[simp] theorem hexByte_length (b : UInt8) : (hexByte b).length = 2 := rfl

@[simp] theorem toList_hex (b : List UInt8) : (hex b).toList = b.flatMap hexByte :=
  String.toList_ofList

theorem length_flatMap_hexByte (b : List UInt8) : (b.flatMap hexByte).length = 2 * b.length := by
  induction b with
  | nil => rfl
  | cons x xs ih => simp [List.flatMap_cons, ih]; omega

@[simp] theorem unhex_hex (b : List UInt8) : unhex (b.flatMap hexByte) = some b := by
  induction b with
  | nil => rfl
  | cons x xs ih =>
    have hlt : x.toNat < 256 := x.toNat_lt
    have hval : 16 * (x.toNat / 16) + x.toNat % 16 = x.toNat := Nat.div_add_mod _ _
    simp only [List.flatMap_cons, hexByte, List.cons_append, List.nil_append, unhex,
      hexVal_digitChar (show x.toNat / 16 < 16 by omega),
      hexVal_digitChar (show x.toNat % 16 < 16 by omega), Option.bind_eq_bind, Option.bind_some,
      ih, hval]
    simp

theorem hex_injective {a b : List UInt8} (h : hex a = hex b) : a = b := by
  have hl : a.flatMap hexByte = b.flatMap hexByte := String.ofList_inj.mp h
  have := congrArg unhex hl
  rwa [unhex_hex, unhex_hex, Option.some.injEq] at this

/-- A lowercase hexadecimal digit. -/
def isLowerHex (c : Char) : Bool := c.isDigit || ('a' ≤ c && c ≤ 'f')

theorem isLowerHex_digitChar {n : ℕ} (h : n < 16) : isLowerHex (Nat.digitChar n) := by
  revert n; decide

theorem isLowerHex_of_mem_hex {b : List UInt8} {c : Char} (h : c ∈ b.flatMap hexByte) :
    isLowerHex c := by
  obtain ⟨x, -, hc⟩ := List.mem_flatMap.mp h
  have hlt : x.toNat < 256 := x.toNat_lt
  simp only [hexByte, List.mem_cons, List.not_mem_nil, or_false] at hc
  rcases hc with rfl | rfl
  · exact isLowerHex_digitChar (by omega)
  · exact isLowerHex_digitChar (by omega)

/-- A lowercase hexadecimal digit is the digit of its value. -/
theorem digitChar_of_isLowerHex {c : Char} (h : isLowerHex c) :
    ∃ n < 16, hexVal c = some n ∧ Nat.digitChar n = c := by
  have hchar : ∃ n < 16, Nat.digitChar n = c := by
    simp only [isLowerHex, Bool.or_eq_true, Bool.and_eq_true, decide_eq_true_eq, Char.isDigit,
      Char.le_def, UInt32.le_iff_toNat_le] at h
    rw [← Char.ofNat_toNat c]
    have hn : 48 ≤ c.toNat ∧ c.toNat ≤ 57 ∨ 97 ≤ c.toNat ∧ c.toNat ≤ 102 := h
    generalize c.toNat = n at hn
    rcases hn with ⟨h₁, h₂⟩ | ⟨h₁, h₂⟩
    · refine ⟨n - 48, by omega, ?_⟩
      interval_cases n <;> rfl
    · refine ⟨n - 87, by omega, ?_⟩
      interval_cases n <;> rfl
  obtain ⟨n, hlt, rfl⟩ := hchar
  exact ⟨n, hlt, hexVal_digitChar hlt, rfl⟩

/-- Lowercase text is the only lowercase text of what it decodes to. -/
theorem flatMap_hexByte_of_unhex {l : List Char} {b : List UInt8} (hl : ∀ c ∈ l, isLowerHex c)
    (h : unhex l = some b) : b.flatMap hexByte = l := by
  induction l using unhex.induct generalizing b with
  | case1 =>
    obtain rfl := Option.some.inj h
    rfl
  | case2 c => exact absurd h (by simp [unhex])
  | case3 c d l ih =>
    obtain ⟨x, hx, hcx, rfl⟩ := digitChar_of_isLowerHex (hl c (by simp))
    obtain ⟨y, hy, hdy, rfl⟩ := digitChar_of_isLowerHex (hl d (by simp))
    simp only [unhex, hcx, hdy, Option.bind_eq_bind, Option.bind_some, Option.bind_eq_some_iff] at h
    obtain ⟨rest, hrest, heq⟩ := h
    obtain rfl := Option.some.inj heq
    have hbyte : (UInt8.ofNat (16 * x + y)).toNat = 16 * x + y :=
      UInt8.toNat_ofNat_of_lt (by show _ < 256; omega)
    rw [List.flatMap_cons, hexByte, hbyte, ih (fun c hc => hl c (by simp [hc])) hrest,
      show (16 * x + y) / 16 = x by omega, show (16 * x + y) % 16 = y by omega]
    rfl

/-! ### Base64 -/

/-- The digits of the standard alphabet. -/
def base64Digit (n : ℕ) : Char :=
  if n < 26 then Char.ofNat (n + 65)
  else if n < 52 then Char.ofNat (n + 71)
  else if n < 62 then Char.ofNat (n - 4)
  else if n = 62 then '+'
  else '/'

/-- Padded base64 text of a byte string. -/
def base64 : List UInt8 → List Char
  | [] => []
  | [a] => [base64Digit (a.toNat / 4), base64Digit (a.toNat % 4 * 16), '=', '=']
  | [a, b] => [base64Digit (a.toNat / 4), base64Digit (a.toNat % 4 * 16 + b.toNat / 16),
      base64Digit (b.toNat % 16 * 4), '=']
  | a :: b :: c :: t => base64Digit (a.toNat / 4) ::
      base64Digit (a.toNat % 4 * 16 + b.toNat / 16) ::
      base64Digit (b.toNat % 16 * 4 + c.toNat / 64) :: base64Digit (c.toNat % 64) :: base64 t

theorem base64Digit_ne_colon (n : ℕ) : ':' ≠ base64Digit n := by
  unfold base64Digit
  split_ifs with h₁ h₂ h₃
  · interval_cases n <;> decide
  · interval_cases n <;> decide
  · interval_cases n <;> decide
  · decide
  · decide

theorem colon_not_mem_base64 (b : List UInt8) : ':' ∉ base64 b := by
  induction b using base64.induct with
  | case1 => simp [base64]
  | case2 a => simp [base64, base64Digit_ne_colon]
  | case3 a b => simp [base64, base64Digit_ne_colon]
  | case4 a b c t ih => simp [base64, base64Digit_ne_colon, ih]

/-! ### ASCII case -/

/-- ASCII lowercase of a character list; other characters are kept. -/
def toAsciiLowercase (l : List Char) : List Char := l.map Char.toLower

theorem toLower_of_isLowerHex {c : Char} (h : isLowerHex c) : c.toLower = c := by
  -- The capitals lie between the digits and the lowercase letters.
  refine dif_neg (fun hup => ?_)
  simp only [isLowerHex, Bool.or_eq_true, Bool.and_eq_true, decide_eq_true_eq, Char.isDigit,
    Char.le_def, ge_iff_le, UInt32.le_iff_toNat_le] at h hup
  have h9 : '9'.val.toNat = 57 := rfl
  have hA : 'A'.val.toNat = 65 := rfl
  have hZ : 'Z'.val.toNat = 90 := rfl
  have ha : 'a'.val.toNat = 97 := rfl
  omega

theorem toLower_toLower (c : Char) : c.toLower.toLower = c.toLower := by
  by_cases h : c.val ≥ 'A'.val ∧ c.val ≤ 'Z'.val
  · have hval : c.toLower.val = c.val + 32 := congrArg Char.val (dif_pos h)
    -- A lowered capital lies past the capitals.
    refine dif_neg (fun hup => ?_)
    rw [hval] at hup
    simp only [ge_iff_le, UInt32.le_iff_toNat_le, UInt32.toNat_add] at h hup
    have hA : 'A'.val.toNat = 65 := rfl
    have hZ : 'Z'.val.toNat = 90 := rfl
    have h32 : (32 : UInt32).toNat = 32 := rfl
    omega
  · have hc : c.toLower = c := dif_neg h
    rw [hc, hc]

theorem toAsciiLowercase_idem (l : List Char) :
    toAsciiLowercase (toAsciiLowercase l) = toAsciiLowercase l := by
  rw [toAsciiLowercase, toAsciiLowercase, List.map_map]
  apply List.map_congr_left
  intro c _
  exact toLower_toLower c

/-! ### White space -/

/-- The Unicode property `White_Space` (`char::is_whitespace`). -/
def isWhitespace (c : Char) : Bool :=
  let n := c.toNat
  decide (0x9 ≤ n ∧ n ≤ 0xd) || n == 0x20 || n == 0x85 || n == 0xa0 || n == 0x1680 ||
    decide (0x2000 ≤ n ∧ n ≤ 0x200a) || n == 0x2028 || n == 0x2029 || n == 0x202f ||
    n == 0x205f || n == 0x3000

/-! ### Decimal -/

/-- Read a nonempty string of ASCII digits. -/
def parseNat (l : List Char) : Option ℕ :=
  if l ≠ [] ∧ l.all Char.isDigit then some (Nat.ofDigitChars 10 l 0) else none

@[simp] theorem parseNat_toDigits (n : ℕ) : parseNat (Nat.toDigits 10 n) = some n := by
  have hd : (Nat.toDigits 10 n).all Char.isDigit :=
    List.all_eq_true.mpr
      (fun _ hc => Nat.isDigit_of_mem_toDigits (by decide) (by decide) hc)
  simp only [parseNat, hd, ne_eq, Nat.toDigits_ne_nil, not_false_iff, true_and, if_true,
    Nat.ofDigitChars_ten_toDigits]

/-- Read an unsigned number with an optional plus sign that fits below `bound`
    (`str::parse` at an unsigned type). -/
def parseUnsigned (bound : ℕ) (l : List Char) : Option ℕ :=
  match l with
  | '+' :: l => (parseNat l).filter (fun n => n < bound)
  | l => (parseNat l).filter (fun n => n < bound)

/-- Read a number with an optional sign that fits `2 ^ bits` values, half of them negative
    (`str::parse` at a signed type). -/
def parseSigned (bits : ℕ) (l : List Char) : Option ℤ :=
  let value : Option ℤ := match l with
    | '-' :: l => (parseNat l).map (fun n => -(n : ℤ))
    | '+' :: l => (parseNat l).map (fun n => (n : ℤ))
    | l => (parseNat l).map (fun n => (n : ℤ))
  value.filter (fun n => -2 ^ (bits - 1) ≤ n ∧ n < 2 ^ (bits - 1))

/-- Why the digits `l` cannot be read, with `n` read already: the first place that goes wrong
    decides. -/
def digitsError (bound : ℕ) (n : ℕ) : List Char → String
  | [] => ""
  | c :: l =>
    if !c.isDigit then "invalid digit found in string"
    else if bound ≤ n * 10 + (c.toNat - 48) then "number too large to fit in target type"
    else digitsError bound (n * 10 + (c.toNat - 48)) l

/-- The text of `ParseIntError` at an unsigned type. -/
def parseIntError (bound : ℕ) : List Char → String
  | [] => "cannot parse integer from empty string"
  | ['+'] | ['-'] => "invalid digit found in string"
  | '+' :: l => digitsError bound 0 l
  | l => digitsError bound 0 l

theorem parseUnsigned_lt {bound n : ℕ} {l : List Char} (h : parseUnsigned bound l = some n) :
    n < bound := by
  unfold parseUnsigned at h
  split at h
  · exact of_decide_eq_true (Option.filter_eq_some_iff.mp h).2
  · exact of_decide_eq_true (Option.filter_eq_some_iff.mp h).2

theorem toDigits_injective {m n : ℕ} (h : Nat.toDigits 10 m = Nat.toDigits 10 n) : m = n := by
  have := congrArg parseNat h
  rwa [parseNat_toDigits, parseNat_toDigits, Option.some.injEq] at this

theorem repr_injective {m n : ℕ} (h : m.repr = n.repr) : m = n := by
  apply toDigits_injective
  rw [← Nat.toList_repr, ← Nat.toList_repr, h]

/-! ### Splitting -/

/-- Split at the first `sep` (`str::split_once`). -/
def splitOnce (sep : Char) : List Char → Option (List Char × List Char)
  | [] => none
  | c :: cs =>
    if c = sep then some ([], cs)
    else (splitOnce sep cs).map (fun p => (c :: p.1, p.2))

theorem splitOnce_append {sep : Char} {l r : List Char} (h : sep ∉ l) :
    splitOnce sep (l ++ sep :: r) = some (l, r) := by
  induction l with
  | nil => simp [splitOnce]
  | cons c cs ih =>
    rw [List.mem_cons, not_or] at h
    simp [splitOnce, Ne.symm h.1, ih h.2]

/-! ### Prefixes -/

/-- The text after the prefix `p`, if it is there. -/
def stripPrefix (p : String) (s : String) : Option (List Char) :=
  if p.toList <+: s.toList then some (s.toList.drop p.toList.length) else none

/-- The text before the suffix `p`, if it is there. -/
def stripSuffix (p : String) (s : String) : Option (List Char) :=
  if p.toList <:+ s.toList then some (s.toList.take (s.toList.length - p.toList.length)) else none

theorem stripPrefix_append (p s : String) : stripPrefix p (p ++ s) = some s.toList := by
  simp [stripPrefix]

theorem stripPrefix_eq_some {p s : String} {t : List Char} (h : stripPrefix p s = some t) :
    s.toList = p.toList ++ t := by
  simp only [stripPrefix] at h
  split at h
  · rename_i hp
    obtain ⟨u, hu⟩ := hp
    simp only [Option.some.injEq] at h
    rw [← h, ← hu]; simp
  · exact absurd h (by simp)

/-- Two prefixes that differ before either ends exclude each other. -/
theorem stripPrefix_append_eq_none {p q s : String} (h : ¬ p.toList <+: q.toList)
    (h' : ¬ q.toList <+: p.toList) : stripPrefix p (q ++ s) = none := by
  simp only [stripPrefix, String.toList_append]
  rw [if_neg]
  intro hp
  rcases List.prefix_or_prefix_of_prefix hp (List.prefix_append q.toList s.toList) with h₁ | h₁
  · exact h h₁
  · exact h' h₁

theorem append_ne_append {p q s t : String} (h : ¬ p.toList <+: q.toList)
    (h' : ¬ q.toList <+: p.toList) : p ++ s ≠ q ++ t := by
  intro he
  have := stripPrefix_append_eq_none (s := t) h h'
  rw [← he, stripPrefix_append] at this
  exact absurd this (by simp)

end Geata.Lib
