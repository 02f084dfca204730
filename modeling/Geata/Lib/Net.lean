import Mathlib.Algebra.Group.Nat.Defs
import Mathlib.Data.Nat.Notation
import Mathlib.Data.List.Basic

namespace Geata.Lib

/-!
# IP addresses

`parseIpAddr` reads an address from its text: four decimal octets, or up to eight hexadecimal groups
with at most one gap and an optional embedded IPv4 address at the end.  `IpAddr.display` writes one,
with the first of the longest runs of zero groups left out.
-/

inductive IpAddr where
  | v4 (bits : BitVec 32)
  | v6 (bits : BitVec 128)
  deriving DecidableEq

/-- `127.0.0.0/8` and `::1`. -/
def IpAddr.isLoopback : IpAddr → Bool
  | .v4 bits => bits.toNat / 2 ^ 24 == 127
  | .v6 bits => bits == 1

/-! ### Reading -/

/-- The value of a digit in a radix up to 16. -/
def digitValue (radix : ℕ) (c : Char) : Option ℕ :=
  let value := if c.isDigit then c.toNat - 48
    else if 'a' ≤ c ∧ c ≤ 'f' then c.toNat - 87
    else if 'A' ≤ c ∧ c ≤ 'F' then c.toNat - 55
    else radix
  if value < radix then some value else none

/-- A number of at most `digits` digits at the start of a text, and the rest.  `zeros` allows
    leading zeros. -/
def readNumber (radix digits bound : ℕ) (zeros : Bool) (l : List Char) : Option (ℕ × List Char) :=
  let number := l.takeWhile (fun c => (digitValue radix c).isSome)
  let value := number.foldl (fun n c => n * radix + (digitValue radix c).getD 0) 0
  if number.isEmpty || decide (digits < number.length) ||
      (!zeros && number.head? == some '0' && decide (1 < number.length)) || decide (bound ≤ value) then
    none
  else some (value, l.drop number.length)

/-- The text after the separator that every part but the first one starts with. -/
def separated (first : Bool) (sep : Char) : List Char → Option (List Char)
  | l => if first then some l else
    match l with
    | [] => none
    | c :: l => if c = sep then some l else none

/-- Four octets. -/
def readIpv4 (l : List Char) : Option (ℕ × List Char) := do
  let (a, l) ← readNumber 10 3 256 false l
  let (b, l) ← (separated false '.' l).bind (readNumber 10 3 256 false)
  let (c, l) ← (separated false '.' l).bind (readNumber 10 3 256 false)
  let (d, l) ← (separated false '.' l).bind (readNumber 10 3 256 false)
  return (((a * 256 + b) * 256 + c) * 256 + d, l)

/-- Up to `left` groups, whether an IPv4 address ended them, and the rest. -/
def readGroups : (left : ℕ) → (first : Bool) → List Char → List ℕ × Bool × List Char
  | 0, _, l => ([], false, l)
  | left + 1, first, l =>
    -- an IPv4 address takes the place of two groups
    match if left = 0 then none else (separated first ':' l).bind readIpv4 with
    | some (bits, l) => ([bits / 65536, bits % 65536], true, l)
    | none =>
      match (separated first ':' l).bind (readNumber 16 4 65536 true) with
      | none => ([], false, l)
      | some (group, l) =>
        let (groups, embedded, l) := readGroups left false l
        (group :: groups, embedded, l)

/-- Eight groups, or fewer with a gap. -/
def readIpv6 (l : List Char) : Option (ℕ × List Char) :=
  let bits (groups : List ℕ) : ℕ := groups.foldl (fun n g => n * 65536 + g) 0
  let (head, embedded, l) := readGroups 8 true l
  if head.length = 8 then some (bits head, l)
  else if embedded then none
  else do
    let l ← separated false ':' l
    let l ← separated false ':' l
    let (tail, _, l) := readGroups (7 - head.length) true l
    return (bits (head ++ List.replicate (8 - head.length - tail.length) 0 ++ tail), l)

/-- An address, and nothing after it (`str::parse` at `IpAddr`). -/
def parseIpAddr (l : List Char) : Option IpAddr :=
  match readIpv4 l with
  | some (bits, rest) => if rest.isEmpty then some (.v4 bits) else none
  | none =>
    match readIpv6 l with
    | some (bits, rest) => if rest.isEmpty then some (.v6 bits) else none
    | none => none

example : parseIpAddr "127.0.0.1".toList = some (.v4 0x7f000001) := by decide

example : parseIpAddr "::1".toList = some (.v6 1) := by decide

/-! ### Writing -/

/-- Four decimal octets. -/
def displayIpv4 (bits : ℕ) : String :=
  ".".intercalate ((List.range 4).map (fun i => (bits / 256 ^ (3 - i) % 256).repr))

/-- The first of the longest runs of zeros: where it starts, and its length. -/
def longestZeros (groups : List ℕ) : ℕ × ℕ :=
  let runs := (List.range groups.length).map (fun i => (i, ((groups.drop i).takeWhile (· == 0)).length))
  runs.foldl (fun longest run => if longest.2 < run.2 then run else longest) (0, 0)

/-- Groups in lowercase hexadecimal. -/
def displayGroups (groups : List ℕ) : String :=
  ":".intercalate (groups.map (fun g => String.ofList (Nat.toDigits 16 g)))

/-- The text of an address (`Display` of `IpAddr`). -/
def IpAddr.display : IpAddr → String
  | .v4 bits => displayIpv4 bits.toNat
  | .v6 bits =>
    let groups := (List.range 8).map (fun i => bits.toNat / 65536 ^ (7 - i) % 65536)
    -- an embedded IPv4 address
    if groups.take 6 = [0, 0, 0, 0, 0, 0xffff] then "::ffff:" ++ displayIpv4 (bits.toNat % 2 ^ 32)
    else
      let (start, len) := longestZeros groups
      if 1 < len then
        displayGroups (groups.take start) ++ "::" ++ displayGroups (groups.drop (start + len))
      else displayGroups groups

example : (IpAddr.v6 0x20010db8000000000001000000000001).display = "2001:db8::1:0:0:1" := by decide

end Geata.Lib
