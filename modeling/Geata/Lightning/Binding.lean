import Mathlib.Data.List.Nodup
import Geata.Lightning.Policy

namespace Geata.Lightning

open Geata.Lib

/-!
# Request binding

`requestHash` condenses the parts of a request that a Lightning payment is bound to: method, full
URL, body, and for each bound header name the list of its raw values.  The preimage is nested
JSON, with one inner hash for the body and one for each header's values.

`requestHash_eq_iff_sameBinding` — **binding is injective**: with a collision-free hash, two requests get the
same hash exactly when all bound parts agree.
-/

/-! ### Headers -/

/-- A header value, as raw bytes. -/
abbrev HeaderValue := List UInt8

/-- Header fields in order of arrival; names are stored in lowercase. -/
abbrev HeaderMap := List (String × HeaderValue)

/-- All values of a header, in order (`HeaderMap::get_all`; the lookup ignores ASCII case). -/
def HeaderMap.getAll (headers : HeaderMap) (name : String) : List HeaderValue :=
  (headers.filter (fun h => h.1.toList = toAsciiLowercase name.toList)).map Prod.snd

/-- The bytes `HeaderValue::to_str` accepts: visible ASCII, space and tab. -/
def visibleAscii (b : UInt8) : Bool := (32 ≤ b && b < 127) || b == 9

/-- A header value as text, if all its bytes are visible ASCII (`HeaderValue::to_str`). -/
def HeaderValue.toStr (value : HeaderValue) : Option String :=
  if value.all visibleAscii then some (String.ofList (value.map (fun b => Char.ofNat b.toNat)))
  else none

/-- One value of a bound header. -/
def boundValue (value : HeaderValue) : Except String String :=
  match value.toStr with
  | none => .error "failed to convert header to a str"
  | some s =>
    if s.toList.all (fun c => c == '\t' || (0x20 ≤ c.toNat && c.toNat ≤ 0x7e)) then .ok s
    else .error "unsupported bound header value"

/-- The values of one bound header. -/
def boundValues : List HeaderValue → Except String (List String)
  | [] => .ok []
  | v :: vs => do
    let s ← boundValue v
    let rest ← boundValues vs
    return s :: rest

/-- The values of every bound header, paired with its name. -/
def boundHeaders (headers : HeaderMap) : List String → Except String (List (String × List String))
  | [] => .ok []
  | name :: names => do
    let values ← boundValues (headers.getAll name)
    let rest ← boundHeaders headers names
    return (name, values) :: rest

/-! ### The hash -/

/-- A hash given on finitely many inputs, and on the others by something longer than a hash. -/
def hashTable (table : List (List UInt8 × List UInt8)) (b : List UInt8) : List UInt8 :=
  match table.lookup b with
  | some d => d
  | none => List.replicate 33 0 ++ b

/-- A table of distinct 32-byte digests extends to a collision-free hash. -/
theorem hashTable_injective {table : List (List UInt8 × List UInt8)}
    (hlen : ∀ e ∈ table, e.2.length = 32) (hnodup : (table.map Prod.snd).Nodup) :
    Function.Injective (hashTable table) := by
  have hmem : ∀ b d, table.lookup b = some d → (b, d) ∈ table := by
    intro b d h
    obtain ⟨l₁, l₂, rfl, -⟩ := List.lookup_eq_some_iff.mp h
    simp
  intro a b h
  unfold hashTable at h
  cases ha : table.lookup a with
  | some d =>
    cases hb : table.lookup b with
    | some d' =>
      rw [ha, hb] at h
      have := List.inj_on_of_nodup_map hnodup (hmem a d ha) (hmem b d' hb) h
      exact congrArg Prod.fst this
    | none =>
      rw [ha, hb] at h
      have := hlen _ (hmem a d ha)
      simp only [h, List.length_append, List.length_replicate] at this
      omega
  | none =>
    cases hb : table.lookup b with
    | some d' =>
      rw [ha, hb] at h
      have := hlen _ (hmem b d' hb)
      simp only [← h, List.length_append, List.length_replicate] at this
      omega
    | none =>
      rw [ha, hb] at h
      exact List.append_cancel_left h

section

variable (sha256 : List UInt8 → List UInt8)

/-- Hexadecimal SHA-256. -/
def digest (b : List UInt8) : String := hex (sha256 b)

/-- A bound header in the preimage: its name and the hash of its values' JSON array. -/
def boundJson (header : String × List String) : Json :=
  .obj [("name", .str header.1),
    ("valueHash", .str (digest sha256 (Json.arr (header.2.map .str)).toVec))]

/-- The JSON object that is hashed; `json!` sorts its members. -/
def bindingJson (policy : Policy) (method url : String) (body : List UInt8)
    (bound : List (String × List String)) : Json :=
  .obj [("bodyHash", .str (digest sha256 body)),
    ("domain", .str ("x402:exact:lnbtc:bolt11:" ++ policy.bindingProfile)),
    ("headers", .arr (bound.map (boundJson sha256))),
    ("method", .str method),
    ("url", .str url)]

/-- The URL lies under the policy's origin, is ASCII and has no fragment. -/
def originMatches (policy : Policy) (url : String) : Bool :=
  url.toList.all (fun c => c.toNat < 128) && (policy.origin ++ "/").toList.isPrefixOf url.toList
    && !url.toList.contains '#'

/-- The hash a payment for this request is bound to. -/
def requestHash (policy : Policy) (method url : String) (headers : HeaderMap)
    (body : List UInt8) : Except String String :=
  if originMatches policy url then do
    let bound ← boundHeaders headers policy.headers
    return digest sha256 (bindingJson sha256 policy method url body bound).toVec
  else .error "request origin mismatch"

/-! ### Injectivity -/

variable {sha256}

theorem digest_injective (hsha : Function.Injective sha256) {a b : List UInt8}
    (h : digest sha256 a = digest sha256 b) : a = b :=
  hsha (hex_injective h)

theorem digest_toVec_injective (hsha : Function.Injective sha256) {a b : Json}
    (h : digest sha256 a.toVec = digest sha256 b.toVec) : a = b :=
  Json.toVec_injective (digest_injective hsha h)

theorem boundJson_injective (hsha : Function.Injective sha256) :
    Function.Injective (boundJson sha256) := by
  rintro ⟨n, vs⟩ ⟨n', vs'⟩ h
  simp only [boundJson, Json.obj.injEq, List.cons.injEq, Prod.mk.injEq, Json.str.injEq, true_and,
    and_true] at h
  obtain ⟨rfl, hv⟩ := h
  have harr := Json.arr.inj (digest_toVec_injective hsha hv)
  rw [map_str_injective harr]

/-- Visible ASCII bytes are determined by their characters. -/
theorem visibleAscii_char {a b : UInt8} (ha : visibleAscii a) (hb : visibleAscii b)
    (h : Char.ofNat a.toNat = Char.ofNat b.toNat) : a = b := by
  have hlt : ∀ c : UInt8, visibleAscii c → c.toNat < 128 := by
    intro c hc
    simp only [visibleAscii, Bool.or_eq_true, Bool.and_eq_true, decide_eq_true_eq, beq_iff_eq,
      UInt8.le_iff_toNat_le, UInt8.lt_iff_toNat_lt] at hc
    rcases hc with ⟨-, hc⟩ | rfl
    · exact lt_trans hc (by decide)
    · decide
  have hn : ∀ n, n < 128 → (Char.ofNat n).toNat = n := by decide
  have := congrArg Char.toNat h
  rw [hn _ (hlt a ha), hn _ (hlt b hb)] at this
  exact UInt8.toNat_inj.mp this

theorem toStr_injective {v v' : HeaderValue} {s : String} (h : v.toStr = some s)
    (h' : v'.toStr = some s) : v = v' := by
  simp only [HeaderValue.toStr] at h h'
  split at h
  · rename_i hv
    split at h'
    · rename_i hv'
      rw [← h', Option.some.injEq, String.ofList_inj] at h
      clear h'
      induction v generalizing v' with
      | nil => simpa using h.symm
      | cons a t ih =>
        cases v' with
        | nil => simp at h
        | cons a' t' =>
          simp only [List.map_cons, List.cons.injEq] at h
          simp only [List.all_cons, Bool.and_eq_true] at hv hv'
          rw [visibleAscii_char hv.1 hv'.1 h.1, ih hv.2 h.2 hv'.2]
    · simp at h'
  · simp at h

theorem boundValue_ok {v : HeaderValue} {s : String} (h : boundValue v = .ok s) :
    v.toStr = some s := by
  unfold boundValue at h
  split at h
  · exact absurd h (by simp)
  · rename_i s' hs
    split at h
    · rw [hs, Except.ok.inj h]
    · exact absurd h (by simp)

theorem boundValues_injective {vs vs' : List HeaderValue} {ss : List String}
    (h : boundValues vs = .ok ss) (h' : boundValues vs' = .ok ss) : vs = vs' := by
  induction vs generalizing vs' ss with
  | nil =>
    rw [← Except.ok.inj h] at h'
    cases vs' with
    | nil => rfl
    | cons v' t' =>
      simp only [boundValues, bind, Except.bind] at h'
      split at h' <;> try exact absurd h' (by simp)
      split at h' <;> simp [pure, Except.pure] at h'
  | cons v t ih =>
    simp only [boundValues, bind, Except.bind] at h
    split at h <;> try exact absurd h (by simp)
    rename_i s hs
    split at h <;> try exact absurd h (by simp)
    rename_i rest hrest
    rw [← Except.ok.inj h] at h'
    cases vs' with
    | nil => simp [boundValues] at h'
    | cons v' t' =>
      simp only [boundValues, bind, Except.bind] at h'
      split at h' <;> try exact absurd h' (by simp)
      rename_i s' hs'
      split at h' <;> try exact absurd h' (by simp)
      rename_i rest' hrest'
      simp only [pure, Except.pure, Except.ok.injEq, List.cons.injEq] at h'
      obtain ⟨rfl, rfl⟩ := h'
      rw [toStr_injective (boundValue_ok hs) (boundValue_ok hs'), ih hrest hrest']

/-- The collected list has one entry for each bound name, with the values of that name. -/
theorem boundHeaders_ok {headers : HeaderMap} {names : List String}
    {bound : List (String × List String)} (h : boundHeaders headers names = .ok bound) :
    List.Forall₂ (fun name b => b.1 = name ∧ boundValues (headers.getAll name) = .ok b.2)
      names bound := by
  induction names generalizing bound with
  | nil => rw [← Except.ok.inj h]; exact .nil
  | cons name names ih =>
    simp only [boundHeaders, bind, Except.bind] at h
    split at h <;> try exact absurd h (by simp)
    rename_i values hv
    split at h <;> try exact absurd h (by simp)
    rename_i rest hrest
    rw [← Except.ok.inj h]
    exact .cons ⟨rfl, hv⟩ (ih hrest)

theorem boundHeaders_names {headers : HeaderMap} {names : List String}
    {bound : List (String × List String)} (h : boundHeaders headers names = .ok bound) :
    bound.map Prod.fst = names := by
  have hf := boundHeaders_ok h
  clear h
  induction hf with
  | nil => rfl
  | cons hb _ ih => rw [List.map_cons, ih, hb.1]

/-- The same collected list means the same raw values under every bound name. -/
theorem getAll_of_boundHeaders {headers headers' : HeaderMap} {names : List String}
    {bound : List (String × List String)} (h : boundHeaders headers names = .ok bound)
    (h' : boundHeaders headers' names = .ok bound) :
    ∀ name ∈ names, headers.getAll name = headers'.getAll name := by
  have hf := boundHeaders_ok h
  have hf' := boundHeaders_ok h'
  clear h h'
  induction hf with
  | nil => simp
  | cons hb _ ih =>
    cases hf' with
    | cons hb' hf' =>
      intro name hn
      rcases List.mem_cons.mp hn with rfl | hn
      · exact boundValues_injective hb.2 hb'.2
      · exact ih hf' name hn

/-- Only the values of the bound names matter. -/
theorem boundHeaders_congr {headers headers' : HeaderMap} {names : List String}
    (h : ∀ name ∈ names, headers.getAll name = headers'.getAll name) :
    boundHeaders headers names = boundHeaders headers' names := by
  induction names with
  | nil => rfl
  | cons name names ih =>
    rw [boundHeaders, boundHeaders, h name List.mem_cons_self,
      ih (fun n hn => h n (List.mem_cons_of_mem _ hn))]

/-- A computed hash is the digest of the preimage over the collected headers. -/
theorem requestHash_ok {policy : Policy} {method url hash : String} {headers : HeaderMap}
    {body : List UInt8} (h : requestHash sha256 policy method url headers body = .ok hash) :
    ∃ bound, boundHeaders headers policy.headers = .ok bound ∧
      hash = digest sha256 (bindingJson sha256 policy method url body bound).toVec := by
  unfold requestHash at h
  split at h
  · cases hb : boundHeaders headers policy.headers with
    | error e => rw [hb] at h; exact absurd h (by simp [bind, Except.bind])
    | ok bound => rw [hb] at h; exact ⟨bound, rfl, (Except.ok.inj h).symm⟩
  · exact absurd h (by simp)

/-- The parts of a request that its hash is bound to agree. -/
structure SameBinding (p p' : Policy) (method method' url url' : String)
    (headers headers' : HeaderMap) (body body' : List UInt8) : Prop where
  method : method = method'
  url : url = url'
  body : body = body'
  names : p.headers = p'.headers
  values : ∀ name ∈ p.headers, headers.getAll name = headers'.getAll name

/-- **Request binding is injective.**  Two requests on which `requestHash` succeeds get the same
    hash exactly when method, URL, body, the bound names and the raw values under every bound
    name agree. -/
theorem requestHash_eq_iff_sameBinding (hsha : Function.Injective sha256) {p p' : Policy}
    {method method' url url' hash hash' : String} {headers headers' : HeaderMap}
    {body body' : List UInt8} (h : requestHash sha256 p method url headers body = .ok hash)
    (h' : requestHash sha256 p' method' url' headers' body' = .ok hash') :
    hash = hash' ↔ SameBinding p p' method method' url url' headers headers' body body' := by
  obtain ⟨bound, hb, rfl⟩ := requestHash_ok h
  obtain ⟨bound', hb', rfl⟩ := requestHash_ok h'
  constructor
  · intro heq
    have hj := digest_toVec_injective hsha heq
    simp only [bindingJson, Json.obj.injEq, List.cons.injEq, Prod.mk.injEq, Json.str.injEq,
      Json.arr.injEq, true_and, and_true] at hj
    obtain ⟨hbody, -, hheaders, hmethod, hurl⟩ := hj
    have hbound : bound = bound' :=
      List.map_injective_iff.mpr (boundJson_injective hsha) hheaders
    subst hbound
    have hnames : p.headers = p'.headers :=
      (boundHeaders_names hb).symm.trans (boundHeaders_names hb')
    refine ⟨hmethod, hurl, digest_injective hsha hbody, hnames, ?_⟩
    rw [← hnames] at hb'
    exact getAll_of_boundHeaders hb hb'
  · rintro ⟨rfl, rfl, rfl, hnames, hvalues⟩
    have hbound : bound = bound' := by
      have := boundHeaders_congr hvalues
      rw [hb, hnames, hb'] at this
      exact Except.ok.inj this
    rw [hbound, bindingJson, bindingJson, Policy.bindingProfile, Policy.bindingProfile, hnames]

end

end Geata.Lightning
