import Geata.Lightning.Invoice

namespace Geata.Lightning

open Geata.Lib

/-!
# L402 credentials

A credential is a macaroon with four first-party predicates and the preimage of its invoice's
payment hash.  The root key of every credential is its own, stored under the digest of the
credential's identifier.

* `L402.credential` — the macaroon of a challenge, as `mint_l402` builds it.
* `L402.parseCredential` and `L402.verify` — the two checks of `settle_l402`.
* `L402.verify_ok_iff` — acceptance as a list of facts: the caveats are all recognised and
  restrict, the four required ones are there, and the signature is the chain from the root.

The type of keys and signatures is a parameter `κ`, so that the same code can be read over byte
strings and over symbolic codes.
-/

/-! ### Macaroons -/

inductive Caveat where
  | firstParty (predicate : List UInt8)
  | thirdParty (id verifierId : List UInt8) (location : String)
  deriving DecidableEq

structure Macaroon (κ : Type) where
  identifier : List UInt8
  caveats : List Caveat
  signature : κ
  deriving DecidableEq

/-- The caveats that another service would have to discharge. -/
def Macaroon.thirdPartyCaveats {κ : Type} (m : Macaroon κ) : List Caveat :=
  m.caveats.filter (fun | .firstParty _ => false | .thirdParty _ _ _ => true)

namespace L402

/-- The functions of other crates that L402 adds. -/
structure Crates (κ : Type) extends Lightning.Crates where
  /-- OpenSSL HMAC-SHA256 -/
  hmac : κ → List UInt8 → κ
  /-- `Macaroon::deserialize_binary` -/
  deserializeBinary : List UInt8 → Option (Macaroon κ)
  /-- `Macaroon::deserialize` of the V2 JSON object with this identifier, these first-party
      predicates and this signature -/
  deserializeJson : List UInt8 → List String → κ → Option (Macaroon κ)
  /-- `Macaroon::serialize(Format::V2)`, without its outer base64 -/
  serializeV2 : Macaroon κ → Option (List UInt8)
  /-- `Verifier::verify` with the given root and exactly satisfied predicates -/
  verifier : Macaroon κ → κ → List (List UInt8) → Bool

variable {κ : Type}

/-! ### Terms and predicates -/

/-- The JSON the terms digest is taken over; a mint is part of it. -/
def termsJson (policy : Policy) (hash : String) : Json :=
  match policy.receiver.mint? with
  | some mint => .obj [("mint", .str mint), ("terms", (policy.requirements hash "").toValue)]
  | none => (policy.requirements hash "").toJson

def terms (sha256 : List UInt8 → List UInt8) (policy : Policy) (hash : String) : String :=
  digest sha256 (termsJson policy hash).toVec

/-- The restriction to this service. -/
def servicesCaveat : String := "services=geata:0"

/-- The restriction to one request. -/
def requestCaveat (hash : String) : String := "geata_request=" ++ hash

/-- The restriction to one set of terms. -/
def termsCaveat (sha256 : List UInt8 → List UInt8) (policy : Policy) (hash : String) : String :=
  "geata_terms=" ++ terms sha256 policy hash

/-- The restriction to an exclusive end. -/
def expiryCaveat (validBefore : ℕ) : String := "geata_valid_until=" ++ validBefore.repr

/-- A predicate with another name is not the services restriction. -/
theorem append_ne_servicesCaveat {name value : String}
    (h : ¬ name.toList <+: "services=".toList) (h' : ¬ "services=".toList <+: name.toList) :
    name ++ value ≠ servicesCaveat := by
  have hsplit : servicesCaveat = "services=" ++ "geata:0" := rfl
  rw [hsplit]
  exact append_ne_append h h'

/-- The four predicates every credential is issued with, in order. -/
def predicates (sha256 : List UInt8 → List UInt8) (policy : Policy) (hash : String)
    (validBefore : ℕ) : List String :=
  [servicesCaveat, requestCaveat hash, termsCaveat sha256 policy hash, expiryCaveat validBefore]

section

variable (X : Crates κ)

/-- The signature chain over an identifier and first-party predicates. -/
def sign (root : κ) (identifier : List UInt8) (ps : List (List UInt8)) : κ :=
  ps.foldl X.hmac (X.hmac root identifier)

/-! ### Issuance -/

/-- The identifier: version, payment hash and nonce. -/
def identifier (paymentHash nonce : List UInt8) : List UInt8 := [0, 0] ++ paymentHash ++ nonce

/-- The exclusive end of a credential: one second after the invoice's end plus the skew. -/
def validBefore (parsed : Bolt11Invoice) : Option ℕ :=
  (checkedAdd parsed.created parsed.expiry).bind (fun last => checkedAdd last (SKEW + 1))

/-- What `mint_l402` makes: the encoded macaroon, and the root record it stores for it. -/
structure Credential (κ : Type) where
  identifier : List UInt8
  root : κ
  validBefore : ℕ
  macaroon : Macaroon κ
  encoded : String

/-- The part of `mint_l402` before the database: build a credential from fresh randomness. -/
def credential (policy : Policy) (hash : String) (parsed : Bolt11Invoice) (root : κ)
    (nonce : List UInt8) : Except String (Credential κ) := do
  let id := identifier parsed.paymentHash nonce
  let validBefore ← context "expiration overflow" (validBefore parsed)
  let ps := predicates X.sha256 policy hash validBefore
  let macaroon ← context "invalid macaroon" (X.deserializeJson id ps (sign X root id (ps.map bytes)))
  let binary ← context "invalid macaroon" (X.serializeV2 macaroon)
  return { identifier := id, root, validBefore, macaroon, encoded := X.base64Encode binary }

/-- The replay key a credential consumes, from the payment hash in its identifier. -/
def credentialKey (policy : Policy) (identifier : List UInt8) : String :=
  replayKey policy.receiver.network ((identifier.drop 2).take 32)

/-- How long the replay barrier of a credential is kept. -/
def retainUntil (validBefore : ℕ) : ℕ := saturatingAdd validBefore 3599

/-- Reading the V2 JSON object gives the macaroon it spells out. -/
def Crates.ReadsJson : Prop :=
  ∀ id ps signature m, X.deserializeJson id ps signature = some m →
    m = ⟨id, (ps.map bytes).map .firstParty, signature⟩

/-! ### Parsing -/

/-- Read an `Authorization` value: the macaroon and the preimage, which must match the payment
    hash in the identifier. -/
def parseCredential (encoded : String) : Except String (Macaroon κ × List UInt8) := do
  ensure (encoded.utf8ByteSize ≤ MAX_PAYMENT_HEADER) "L402 credential too large"
  let (token, preimage) ← context "missing L402 proof" (splitOnce ':' encoded.toList)
  let binary ← context "invalid base64" (X.base64Decode (String.ofList token))
  ensure (binary.head? == some 2) "L402 requires a V2 macaroon"
  let macaroon ← context "invalid macaroon" (X.deserializeBinary binary)
  ensure (decide (macaroon.caveats.length ≤ 32) && macaroon.thirdPartyCaveats.isEmpty)
    "unsupported macaroon caveats"
  let id := macaroon.identifier
  ensure (id.length == 66 && id.take 2 == [0, 0]) "invalid L402 identifier"
  let preimage ← decodeHash (toAsciiLowercase preimage)
  ensure (X.sha256 preimage == (id.drop 2).take 32) "invalid payment proof"
  return (macaroon, preimage)

/-! ### Verification -/

/-- Which of the four required restrictions were seen. -/
structure Found where
  services : Bool := false
  request : Bool := false
  terms : Bool := false
  expiry : Bool := false
  deriving DecidableEq

/-- The running state of the caveat loop. -/
structure Scan (κ : Type) where
  found : Found := {}
  expiry : ℕ
  signature : κ
  satisfied : List (List UInt8) := []

/-- Read an expiration: ASCII digits within 64 bits. -/
def parseExpiry (value : List Char) : Except String ℕ := do
  let next ← context "invalid expiration" (parseNat value)
  ensure (next ≤ u64Max) "number too large to fit in target type"
  return next

/-- One predicate of the caveat loop: which restriction it is, and the expiry it leaves. -/
def checkPredicate (policy : Policy) (hash : String) (preimage : List UInt8) (time : ℕ)
    (found : Found) (expiry : ℕ) (text : String) : Except String (Found × ℕ) :=
  if text = servicesCaveat then .ok ({ found with services := true }, expiry)
  else if text = requestCaveat hash then .ok ({ found with request := true }, expiry)
  else if text = termsCaveat X.sha256 policy hash then .ok ({ found with terms := true }, expiry)
  else match stripPrefix "geata_valid_until=" text with
    | some value => do
      let next ← parseExpiry value
      ensure (next ≤ expiry && time < next) "expiration must restrict access"
      return ({ found with expiry := true }, next)
    | none => match stripPrefix "preimage=" text with
      | some value => do
        let proof ← decodeHash (toAsciiLowercase value)
        ensure (proof == preimage) "preimage caveat mismatch"
        return (found, expiry)
      | none => .error "unsupported or unsatisfied caveat"

/-- The caveat loop: extend the signature and check every predicate. -/
def scan (policy : Policy) (hash : String) (preimage : List UInt8) (time : ℕ) :
    Scan κ → List Caveat → Except String (Scan κ)
  | s, [] => .ok s
  | _, .thirdParty _ _ _ :: _ => .error "third-party caveats unsupported"
  | s, .firstParty predicate :: rest => do
    let text ← context "invalid utf-8 sequence" (fromUtf8 predicate)
    let (found, expiry) ← checkPredicate X policy hash preimage time s.found s.expiry text
    scan policy hash preimage time
      { found, expiry, signature := X.hmac s.signature predicate,
        satisfied := s.satisfied ++ [predicate] } rest

/-- Check a parsed credential for a request at `time`, under its stored root record. -/
def verify [DecidableEq κ] (policy : Policy) (hash : String) (macaroon : Macaroon κ)
    (preimage : List UInt8) (root : κ) (validBefore time : ℕ) : Except String Unit := do
  ensure (time < validBefore) "expired credential"
  let s ← scan X policy hash preimage time
    { expiry := validBefore, signature := X.hmac root macaroon.identifier } macaroon.caveats
  ensure (s.found.services && s.found.request && s.found.terms && s.found.expiry)
    "missing required restriction"
  ensure (s.signature == macaroon.signature) "invalid signature"
  ensure (X.verifier macaroon root s.satisfied) "macaroon not verified"

end

/-! ### What is issued -/

/-- An issued credential carries the payment hash, its nonce, the invoice's end and the four
    predicates, signed from its root. -/
theorem credential_ok {X : Crates κ} (hjson : X.ReadsJson) {policy : Policy} {hash : String}
    {parsed : Bolt11Invoice} {root : κ} {nonce : List UInt8} {c : Credential κ}
    (h : credential X policy hash parsed root nonce = .ok c) :
    c.root = root ∧ c.identifier = identifier parsed.paymentHash nonce ∧
      c.validBefore = parsed.validUntil + (SKEW + 1) ∧ c.validBefore ≤ u64Max ∧
      c.macaroon = ⟨c.identifier,
        ((predicates X.sha256 policy hash c.validBefore).map bytes).map .firstParty,
        sign X root c.identifier ((predicates X.sha256 policy hash c.validBefore).map bytes)⟩ ∧
      ∃ binary, X.serializeV2 c.macaroon = some binary ∧ c.encoded = X.base64Encode binary := by
  simp only [credential, bind_eq_ok, context_eq_ok, pure_eq_ok] at h
  obtain ⟨vb, hvb, m, hm, binary, hbinary, rfl⟩ := h
  obtain ⟨last, hlast, hvb⟩ := Option.bind_eq_some_iff.mp hvb
  obtain ⟨rfl, -⟩ := checkedAdd_eq_some hlast
  obtain ⟨rfl, hle⟩ := checkedAdd_eq_some hvb
  exact ⟨rfl, rfl, rfl, hle, hjson _ _ _ _ hm, binary, hbinary, rfl⟩

/-- The payment hash is the second part of the identifier. -/
theorem paymentHash_identifier (parsed : Bolt11Invoice) (nonce : List UInt8) :
    ((identifier parsed.paymentHash nonce).drop 2).take 32 = parsed.paymentHash := by
  have hlen := parsed.paymentHash_length
  simp [identifier, ← hlen]

/-! ### What acceptance means -/

/-- A parsed credential proves the payment hash in its identifier. -/
theorem sha256_of_parseCredential {X : Crates κ} {encoded : String} {macaroon : Macaroon κ}
    {preimage : List UInt8} (h : parseCredential X encoded = .ok (macaroon, preimage)) :
    X.sha256 preimage = (macaroon.identifier.drop 2).take 32 := by
  simp only [parseCredential, bind_eq_ok, context_eq_ok, ensure_eq_ok, exists_const, beq_iff_eq,
    pure_eq_ok, Prod.exists, Prod.mk.injEq] at h
  obtain ⟨-, -, -, -, -, -, -, m, -, -, -, p, -, hsha, rfl, rfl⟩ := h
  exact hsha

section

variable {X : Crates κ} {policy : Policy} {hash text : String} {preimage : List UInt8}
  {time : ℕ}

/-- The predicates that `verify` lets pass for this request, terms, preimage and time. -/
inductive Recognised (X : Crates κ) (policy : Policy) (hash : String) (preimage : List UInt8)
    (time : ℕ) : String → Prop where
  | services : Recognised X policy hash preimage time servicesCaveat
  | request : Recognised X policy hash preimage time (requestCaveat hash)
  | terms : Recognised X policy hash preimage time (termsCaveat X.sha256 policy hash)
  | expiry {text : String} {value : List Char} {next : ℕ}
      (hvalue : stripPrefix "geata_valid_until=" text = some value)
      (hnext : parseExpiry value = .ok next) (hlive : time < next) :
      Recognised X policy hash preimage time text
  | preimage {text : String} {value : List Char}
      (hvalue : stripPrefix "preimage=" text = some value)
      (hproof : decodeHash (toAsciiLowercase value) = .ok preimage) :
      Recognised X policy hash preimage time text

theorem recognised_of_checkPredicate {found found' : Found} {expiry expiry' : ℕ}
    (h : checkPredicate X policy hash preimage time found expiry text = .ok (found', expiry')) :
    Recognised X policy hash preimage time text := by
  unfold checkPredicate at h
  split_ifs at h with hs hr ht
  · rw [hs]; exact .services
  · rw [hr]; exact .request
  · rw [ht]; exact .terms
  · split at h
    · rename_i value hvalue
      simp only [bind_eq_ok, ensure_eq_ok, exists_const, Bool.and_eq_true,
        decide_eq_true_eq] at h
      obtain ⟨next, hnext, ⟨-, hlive⟩, -⟩ := h
      exact .expiry hvalue hnext hlive
    · split at h
      · rename_i value hvalue
        simp only [bind_eq_ok, ensure_eq_ok, exists_const, beq_iff_eq] at h
        obtain ⟨proof, hproof, rfl, -⟩ := h
        exact .preimage hvalue hproof
      · exact absurd h (by simp)

/-- Every prefix the predicates start with excludes the others. -/
theorem recognised_cases {name value : String}
    (h : Recognised X policy hash preimage time (name ++ value))
    (hs : ¬ name.toList <+: "services=".toList ∧ ¬ "services=".toList <+: name.toList)
    (he : ¬ name.toList <+: "geata_valid_until=".toList ∧
      ¬ "geata_valid_until=".toList <+: name.toList)
    (hp : ¬ name.toList <+: "preimage=".toList ∧ ¬ "preimage=".toList <+: name.toList) :
    name ++ value = requestCaveat hash ∨ name ++ value = termsCaveat X.sha256 policy hash := by
  generalize ht : name ++ value = text at h
  cases h with
  | services =>
    exact absurd ht (append_ne_servicesCaveat hs.1 hs.2)
  | request => exact .inl rfl
  | terms => exact .inr rfl
  | expiry hvalue =>
    rw [← ht, stripPrefix_append_eq_none he.2 he.1] at hvalue
    exact absurd hvalue (by simp)
  | preimage hvalue =>
    rw [← ht, stripPrefix_append_eq_none hp.2 hp.1] at hvalue
    exact absurd hvalue (by simp)

/-- A request restriction passes only for its own request. -/
theorem hash_of_recognised {hash' : String}
    (h : Recognised X policy hash preimage time (requestCaveat hash')) : hash' = hash := by
  rcases recognised_cases h (by decide) (by decide) (by decide) with he | he
  · exact (String.append_right_inj _).mp he
  · exact absurd he (append_ne_append (by decide) (by decide))

/-- A terms restriction passes only for its own terms. -/
theorem terms_of_recognised {policy' : Policy} {hash' : String}
    (h : Recognised X policy hash preimage time (termsCaveat X.sha256 policy' hash')) :
    terms X.sha256 policy' hash' = terms X.sha256 policy hash := by
  rcases recognised_cases h (by decide) (by decide) (by decide) with he | he
  · exact absurd he (append_ne_append (by decide) (by decide))
  · exact (String.append_right_inj _).mp he

/-- What one pass of the caveat loop has established: only first-party predicates, all of them
    recognised, folded into the signature and noted as satisfied. -/
theorem scan_ok {s s' : Scan κ} {caveats : List Caveat}
    (h : scan X policy hash preimage time s caveats = .ok s') :
    ∃ ps : List (List UInt8), caveats = ps.map .firstParty ∧
      s'.signature = ps.foldl X.hmac s.signature ∧
      ∀ p ∈ ps, ∃ text, fromUtf8 p = some text ∧
        Recognised X policy hash preimage time text := by
  induction caveats generalizing s with
  | nil =>
    obtain rfl := Except.ok.inj h
    exact ⟨[], rfl, rfl, by simp⟩
  | cons caveat rest ih =>
    cases caveat with
    | thirdParty id verifierId location => exact absurd h (by simp [scan])
    | firstParty predicate =>
      simp only [scan, bind_eq_ok, context_eq_ok, Prod.exists] at h
      obtain ⟨text, htext, found, expiry, hcheck, hrest⟩ := h
      obtain ⟨ps, rfl, hsig, hps⟩ := ih hrest
      refine ⟨predicate :: ps, rfl, hsig, ?_⟩
      intro p hp
      rcases List.mem_cons.mp hp with rfl | hp
      · exact ⟨text, htext, recognised_of_checkPredicate hcheck⟩
      · exact hps p hp

variable {macaroon : Macaroon κ} {root : κ} {validBefore : ℕ}

/-- What a verified credential is known to satisfy. -/
structure Verified (X : Crates κ) (policy : Policy) (hash : String) (macaroon : Macaroon κ)
    (preimage : List UInt8) (root : κ) (validBefore time : ℕ) (ps : List (List UInt8)) :
    Prop where
  live : time < validBefore
  caveats : macaroon.caveats = ps.map .firstParty
  signature : macaroon.signature = sign X root macaroon.identifier ps
  recognised : ∀ p ∈ ps, ∃ text, fromUtf8 p = some text ∧
    Recognised X policy hash preimage time text

theorem verified_of_verify [DecidableEq κ]
    (h : verify X policy hash macaroon preimage root validBefore time = .ok ()) :
    ∃ ps, Verified X policy hash macaroon preimage root validBefore time ps := by
  simp only [verify, bind_eq_ok, ensure_eq_ok, exists_const, decide_eq_true_eq,
    Bool.and_eq_true, beq_iff_eq] at h
  obtain ⟨hlive, s, hscan, -, hsig, -⟩ := h
  obtain ⟨ps, hcaveats, hchain, hps⟩ := scan_ok hscan
  exact ⟨ps, hlive, hcaveats, hsig.symm.trans hchain, hps⟩

/-- A predicate of a verified credential, given as text, was recognised. -/
theorem Verified.recognisedText {ps : List (List UInt8)}
    (h : Verified X policy hash macaroon preimage root validBefore time ps)
    (hmem : bytes text ∈ ps) : Recognised X policy hash preimage time text := by
  obtain ⟨text', htext, hrec⟩ := h.recognised _ hmem
  rw [fromUtf8_bytes, Option.some.injEq] at htext
  rwa [htext]

/-- Whatever order the caveats come in, the issued predicates pin down the request and the
    terms. -/
theorem Verified.issuedFor {ps : List (List UInt8)} {policy' : Policy} {hash' : String}
    {validBefore' : ℕ}
    (h : Verified X policy hash macaroon preimage root validBefore time ps)
    (hsub : ∀ text ∈ predicates X.sha256 policy' hash' validBefore', bytes text ∈ ps) :
    hash' = hash ∧ terms X.sha256 policy' hash' = terms X.sha256 policy hash := by
  have hr := h.recognisedText (hsub (requestCaveat hash') (by simp [predicates]))
  have ht := h.recognisedText (hsub (termsCaveat X.sha256 policy' hash') (by simp [predicates]))
  exact ⟨hash_of_recognised hr, terms_of_recognised ht⟩

end

/-! ### Accepting an issued credential -/

section

variable {X : Crates κ} {policy : Policy} {hash : String} {preimage : List UInt8} {time : ℕ}
  {found : Found} {expiry : ℕ}

theorem checkPredicate_services :
    checkPredicate X policy hash preimage time found expiry servicesCaveat
      = .ok ({ found with services := true }, expiry) := if_pos rfl

theorem checkPredicate_request :
    checkPredicate X policy hash preimage time found expiry (requestCaveat hash)
      = .ok ({ found with request := true }, expiry) := by
  have hs : requestCaveat hash ≠ servicesCaveat :=
    append_ne_servicesCaveat (by decide) (by decide)
  rw [checkPredicate, if_neg hs, if_pos rfl]

theorem checkPredicate_terms :
    checkPredicate X policy hash preimage time found expiry (termsCaveat X.sha256 policy hash)
      = .ok ({ found with terms := true }, expiry) := by
  have hs : termsCaveat X.sha256 policy hash ≠ servicesCaveat :=
    append_ne_servicesCaveat (by decide) (by decide)
  have hr : termsCaveat X.sha256 policy hash ≠ requestCaveat hash :=
    append_ne_append (by decide) (by decide)
  rw [checkPredicate, if_neg hs, if_neg hr, if_pos rfl]

theorem parseExpiry_repr {n : ℕ} (h : n ≤ u64Max) : parseExpiry n.repr.toList = .ok n := by
  simp only [parseExpiry, bind_eq_ok, context_eq_ok, ensure_eq_ok, exists_const, pure_eq_ok,
    decide_eq_true_eq, Nat.toList_repr, parseNat_toDigits]
  exact ⟨n, rfl, h, rfl⟩

/-- An expiration restriction passes if it does not widen and lies ahead. -/
theorem checkPredicate_expiry {n : ℕ} (hmax : n ≤ u64Max) (hle : n ≤ expiry) (hlive : time < n) :
    checkPredicate X policy hash preimage time found expiry (expiryCaveat n)
      = .ok ({ found with expiry := true }, n) := by
  have hs : expiryCaveat n ≠ servicesCaveat :=
    append_ne_servicesCaveat (by decide) (by decide)
  have hr : expiryCaveat n ≠ requestCaveat hash := append_ne_append (by decide) (by decide)
  have ht : expiryCaveat n ≠ termsCaveat X.sha256 policy hash :=
    append_ne_append (by decide) (by decide)
  have hstrip : stripPrefix "geata_valid_until=" (expiryCaveat n) = some n.repr.toList :=
    stripPrefix_append _ _
  simp only [checkPredicate, if_neg hs, if_neg hr, if_neg ht, hstrip, bind_eq_ok, ensure_eq_ok,
    exists_const, pure_eq_ok, parseExpiry_repr hmax, Bool.and_eq_true, decide_eq_true_eq]
  exact ⟨n, rfl, ⟨hle, hlive⟩, rfl⟩

/-- The caveat loop accepts the four issued predicates before their end. -/
theorem scan_predicates {n : ℕ} {k : κ} (hmax : n ≤ u64Max) (hlive : time < n) :
    scan X policy hash preimage time { expiry := n, signature := k }
        (((predicates X.sha256 policy hash n).map bytes).map .firstParty)
      = .ok { found := ⟨true, true, true, true⟩, expiry := n,
              signature := ((predicates X.sha256 policy hash n).map bytes).foldl X.hmac k,
              satisfied := (predicates X.sha256 policy hash n).map bytes } := by
  simp only [predicates, List.map_cons, List.map_nil, scan, fromUtf8_bytes, context,
    checkPredicate_services, checkPredicate_request, checkPredicate_terms,
    checkPredicate_expiry hmax (Nat.le_refl n) hlive, bind, Except.bind, List.foldl_cons,
    List.foldl_nil, List.nil_append, List.cons_append]

/-- The library's verifier accepts a first-party chain whose predicates are all satisfied. -/
def Crates.AcceptsChains (X : Crates κ) : Prop :=
  ∀ (m : Macaroon κ) root ps, m.caveats = ps.map .firstParty →
    m.signature = sign X root m.identifier ps → X.verifier m root ps = true

/-- **An issued credential verifies exactly before its end.** -/
theorem verify_issued_iff [DecidableEq κ] (hchains : X.AcceptsChains) {id : List UInt8} {root : κ}
    {n : ℕ} (hmax : n ≤ u64Max) :
    verify X policy hash ⟨id, ((predicates X.sha256 policy hash n).map bytes).map .firstParty,
        sign X root id ((predicates X.sha256 policy hash n).map bytes)⟩ preimage root n time
      = .ok () ↔ time < n := by
  constructor
  · intro h
    obtain ⟨ps, hv⟩ := verified_of_verify h
    exact hv.live
  · intro hlive
    have hverifier := hchains ⟨id, ((predicates X.sha256 policy hash n).map bytes).map .firstParty,
      sign X root id ((predicates X.sha256 policy hash n).map bytes)⟩ root _ rfl rfl
    simp only [verify, bind_eq_ok, ensure_eq_ok, exists_const, decide_eq_true_eq]
    exact ⟨hlive, _, scan_predicates hmax hlive, rfl, by simp [sign], hverifier⟩

end

/-! ### Reading back an issued credential -/

theorem toAsciiLowercase_hex (b : List UInt8) :
    toAsciiLowercase (hex b).toList = (hex b).toList := by
  rw [toAsciiLowercase]
  conv_rhs => rw [← List.map_id (hex b).toList]
  refine List.map_congr_left (fun c hc => ?_)
  rw [toList_hex] at hc
  exact toLower_of_isLowerHex (isLowerHex_of_mem_hex hc)

/-- The codecs read back what they wrote for this macaroon: base64 has no colon in it, and the
    V2 form starts with its version byte. -/
structure Crates.RoundTrips (X : Crates κ) (m : Macaroon κ) : Prop where
  version : ∀ b, X.serializeV2 m = some b → b.head? = some 2
  binary : ∀ b, X.serializeV2 m = some b → X.deserializeBinary b = some m
  base64 : ∀ b, X.serializeV2 m = some b → X.base64Decode (X.base64Encode b) = some b
  noColon : ∀ b, X.serializeV2 m = some b → ':' ∉ (X.base64Encode b).toList

/-- The header a client sends: the macaroon and the preimage. -/
def Credential.header (c : Credential κ) (preimage : List UInt8) : String :=
  c.encoded ++ ":" ++ hex preimage

/-- An issued credential with the preimage of its invoice parses to its macaroon. -/
theorem parseCredential_header {X : Crates κ} (hjson : X.ReadsJson) {policy : Policy}
    {hash : String} {parsed : Bolt11Invoice} {root : κ} {nonce preimage : List UInt8}
    {c : Credential κ} (hc : credential X policy hash parsed root nonce = .ok c)
    (htrip : X.RoundTrips c.macaroon) (hnonce : nonce.length = 32) (hlen : preimage.length = 32)
    (hsha : X.sha256 preimage = parsed.paymentHash)
    (hsize : (c.header preimage).utf8ByteSize ≤ MAX_PAYMENT_HEADER) :
    parseCredential X (c.header preimage) = .ok (c.macaroon, preimage) := by
  obtain ⟨-, hid, -, -, hm, binary, hbinary, hencoded⟩ := credential_ok hjson hc
  have hsplit : splitOnce ':' (c.header preimage).toList
      = some (c.encoded.toList, (hex preimage).toList) := by
    rw [Credential.header, String.toList_append, String.toList_append, List.append_assoc]
    exact splitOnce_append (by rw [hencoded]; exact htrip.noColon _ hbinary)
  have hcaveats : c.macaroon.caveats.length = 4 := by rw [hm]; simp [predicates]
  have hthird : c.macaroon.thirdPartyCaveats.isEmpty = true := by
    rw [hm]; simp [Macaroon.thirdPartyCaveats]
  have hmid : c.macaroon.identifier = identifier parsed.paymentHash nonce := by rw [hm, hid]
  have hidlen : c.macaroon.identifier.length = 66 := by
    rw [hmid]; simp [identifier, parsed.paymentHash_length, hnonce]
  have hversion : c.macaroon.identifier.take 2 = [0, 0] := by rw [hmid]; simp [identifier]
  have hbase : X.base64Decode (String.ofList c.encoded.toList) = some binary := by
    rw [String.ofList_toList, hencoded]; exact htrip.base64 _ hbinary
  have hproof : decodeHash (toAsciiLowercase (hex preimage).toList) = .ok preimage := by
    rw [toAsciiLowercase_hex, decodeHash_hex hlen]
  have hpay : X.sha256 preimage = (c.macaroon.identifier.drop 2).take 32 := by
    rw [hmid, paymentHash_identifier, hsha]
  simp only [parseCredential, bind_eq_ok, context_eq_ok, ensure_eq_ok, exists_const, beq_iff_eq,
    pure_eq_ok, decide_eq_true_eq, Bool.and_eq_true]
  exact ⟨hsize, _, hsplit, binary, hbase, htrip.version _ hbinary, c.macaroon,
    htrip.binary _ hbinary, ⟨by omega, hthird⟩, ⟨hidlen, hversion⟩, preimage, hproof, hpay, rfl⟩

/-! ### What the terms digest pins down -/

/-- The digest of the terms determines the request, the price, the network, what the terms say
    about the node, and the mint. -/
theorem sameTerms_of_terms {sha256 : List UInt8 → List UInt8}
    (hsha : Function.Injective sha256) {p p' : Policy} {hash hash' : String}
    (h : terms sha256 p hash = terms sha256 p' hash') :
    SameTerms p p' hash hash' ∧ p.receiver.mint? = p'.receiver.mint? := by
  have hj : termsJson p hash = termsJson p' hash' := digest_toVec_injective hsha h
  unfold termsJson at hj
  cases hm : p.receiver.mint? with
  | none =>
    cases hm' : p'.receiver.mint? with
    | none =>
      rw [hm, hm'] at hj
      exact ⟨sameTerms_of_requirements (Requirements.toJson_injective hj), rfl⟩
    | some mint' => rw [hm, hm'] at hj; exact absurd hj (by simp [Requirements.toJson])
  | some mint =>
    cases hm' : p'.receiver.mint? with
    | none => rw [hm, hm'] at hj; exact absurd hj (by simp [Requirements.toJson])
    | some mint' =>
      rw [hm, hm'] at hj
      simp only [Json.obj.injEq, List.cons.injEq, Prod.mk.injEq, Json.str.injEq, true_and,
        and_true] at hj
      obtain ⟨rfl, hterms⟩ := hj
      exact ⟨sameTerms_of_requirements (Requirements.toValue_injective hterms), rfl⟩

end L402

end Geata.Lightning
