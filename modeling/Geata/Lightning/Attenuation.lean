import Mathlib.Data.List.Chain
import Geata.Lightning.Security

namespace Geata.Lightning

open Geata.Lib

namespace L402

/-!
# Attenuated credentials

A client can append predicates to an issued credential and extend its signature without the root.
The two checks of `settle_l402` accept the result exactly when the appended predicates repeat an
issued one or restrict the expiry.

* `attenuate` — what the client does.
* `Restricts` and `validUntil` — the predicates that can be appended, and the end that one sets.
* `scan_restricts_iff` — the caveat loop over appended predicates.
-/

variable {κ : Type}

section

variable (X : Crates κ)

/-- Append first-party predicates, each signed with the signature before it. -/
def attenuate (m : Macaroon κ) (ps : List (List UInt8)) : Macaroon κ where
  identifier := m.identifier
  caveats := m.caveats ++ ps.map .firstParty
  signature := ps.foldl X.hmac m.signature

/-- The predicates that can be appended for a policy, a request and a preimage. -/
inductive Restricts (policy : Policy) (hash : String) (preimage : List UInt8) :
    List UInt8 → Prop where
  | services : Restricts policy hash preimage (bytes servicesCaveat)
  | request : Restricts policy hash preimage (bytes (requestCaveat hash))
  | terms : Restricts policy hash preimage (bytes (termsCaveat X.sha256 policy hash))
  /-- the preimage in hexadecimal digits of any case -/
  | preimage (digits : List Char) (h : toAsciiLowercase digits = (hex preimage).toList) :
      Restricts policy hash preimage (bytes ("preimage=" ++ String.ofList digits))
  /-- ASCII digits within 64 bits -/
  | expiry (digits : List Char) (n : ℕ) (h : parseNat digits = some n) (hn : n ≤ u64Max) :
      Restricts policy hash preimage (bytes ("geata_valid_until=" ++ String.ofList digits))

end

/-- The end that a predicate sets, if it is an expiration. -/
def validUntil (predicate : List UInt8) : Option ℕ :=
  (fromUtf8 predicate).bind (fun text => (stripPrefix "geata_valid_until=" text).bind parseNat)

/-- Both checks of a presented credential pass. -/
def Accepts [DecidableEq κ] (X : Crates κ) (policy : Policy) (hash encoded : String) (root : κ)
    (validBefore time : ℕ) : Prop :=
  ∃ macaroon preimage, parseCredential X encoded = .ok (macaroon, preimage) ∧
    verify X policy hash macaroon preimage root validBefore time = .ok ()

/-! ### Predicates as text -/

section

variable {X : Crates κ} {policy : Policy} {hash text : String} {preimage : List UInt8}
  {time expiry expiry' : ℕ} {found found' : Found}

theorem ofList_stripped {front text : String} {value : List Char}
    (h : stripPrefix front text = some value) : text = front ++ String.ofList value := by
  apply String.toList_inj.mp
  rw [String.toList_append, String.toList_ofList]
  exact stripPrefix_eq_some h

theorem stripPrefix_ofList (front : String) (value : List Char) :
    stripPrefix front (front ++ String.ofList value) = some value := by
  rw [stripPrefix_append, String.toList_ofList]

theorem validUntil_bytes (text : String) :
    validUntil (bytes text) = (stripPrefix "geata_valid_until=" text).bind parseNat := by
  rw [validUntil, fromUtf8_bytes, Option.bind_some]

theorem validUntil_expiry (digits : List Char) :
    validUntil (bytes ("geata_valid_until=" ++ String.ofList digits)) = parseNat digits := by
  rw [validUntil_bytes, stripPrefix_ofList, Option.bind_some]

/-- Text with another name sets no end. -/
theorem validUntil_eq_none {name value : String}
    (h : ¬ "geata_valid_until=".toList <+: name.toList)
    (h' : ¬ name.toList <+: "geata_valid_until=".toList) :
    validUntil (bytes (name ++ value)) = none := by
  rw [validUntil_bytes, stripPrefix_append_eq_none h h']
  rfl

theorem validUntil_services : validUntil (bytes servicesCaveat) = none := by
  show validUntil (bytes ("services=" ++ "geata:0")) = none
  exact validUntil_eq_none (by decide) (by decide)

theorem parseExpiry_eq_ok {value : List Char} {n : ℕ} :
    parseExpiry value = .ok n ↔ parseNat value = some n ∧ n ≤ u64Max := by
  simp only [parseExpiry, bind_eq_ok, context_eq_ok, ensure_eq_ok, exists_const, pure_eq_ok,
    decide_eq_true_eq]
  constructor
  · rintro ⟨m, hm, hle, rfl⟩
    exact ⟨hm, hle⟩
  · rintro ⟨hn, hle⟩
    exact ⟨n, hn, hle, rfl⟩

/-- Only the digits of a hash decode to it. -/
theorem decodeHash_eq_ok {value : List Char} :
    decodeHash value = .ok preimage ↔ preimage.length = 32 ∧ value = (hex preimage).toList := by
  constructor
  · intro h
    simp only [decodeHash, bind_eq_ok, ensure_eq_ok, exists_const, context_eq_ok, Bool.and_eq_true,
      beq_iff_eq, List.all_eq_true] at h
    obtain ⟨⟨hlen, hall⟩, hunhex⟩ := h
    have hvalue := flatMap_hexByte_of_unhex hall hunhex
    have hlength := length_flatMap_hexByte preimage
    rw [hvalue] at hlength
    rw [toList_hex]
    exact ⟨by omega, hvalue.symm⟩
  · rintro ⟨hlen, rfl⟩
    exact decodeHash_hex hlen

/-! ### One appended predicate -/

/-- Every required restriction was seen. -/
def Found.full : Found := ⟨true, true, true, true⟩

/-- An expiration, whichever way its digits are written. -/
theorem checkPredicate_validUntil {digits : List Char} {n : ℕ} (hdigits : parseNat digits = some n)
    (hmax : n ≤ u64Max) (hle : n ≤ expiry) (hlive : time < n) :
    checkPredicate X policy hash preimage time found expiry
        ("geata_valid_until=" ++ String.ofList digits) = .ok ({ found with expiry := true }, n) := by
  have hs : "geata_valid_until=" ++ String.ofList digits ≠ servicesCaveat :=
    append_ne_servicesCaveat (by decide) (by decide)
  have hr : "geata_valid_until=" ++ String.ofList digits ≠ requestCaveat hash :=
    append_ne_append (by decide) (by decide)
  have ht : "geata_valid_until=" ++ String.ofList digits ≠ termsCaveat X.sha256 policy hash :=
    append_ne_append (by decide) (by decide)
  simp only [checkPredicate, if_neg hs, if_neg hr, if_neg ht, stripPrefix_ofList, bind_eq_ok,
    ensure_eq_ok, exists_const, pure_eq_ok, Bool.and_eq_true, decide_eq_true_eq]
  exact ⟨n, parseExpiry_eq_ok.mpr ⟨hdigits, hmax⟩, ⟨hle, hlive⟩, rfl⟩

theorem checkPredicate_preimage {digits : List Char} (hlen : preimage.length = 32)
    (hdigits : toAsciiLowercase digits = (hex preimage).toList) :
    checkPredicate X policy hash preimage time found expiry ("preimage=" ++ String.ofList digits)
      = .ok (found, expiry) := by
  have hs : "preimage=" ++ String.ofList digits ≠ servicesCaveat :=
    append_ne_servicesCaveat (by decide) (by decide)
  have hr : "preimage=" ++ String.ofList digits ≠ requestCaveat hash :=
    append_ne_append (by decide) (by decide)
  have ht : "preimage=" ++ String.ofList digits ≠ termsCaveat X.sha256 policy hash :=
    append_ne_append (by decide) (by decide)
  have he : stripPrefix "geata_valid_until=" ("preimage=" ++ String.ofList digits) = none :=
    stripPrefix_append_eq_none (by decide) (by decide)
  simp only [checkPredicate, if_neg hs, if_neg hr, if_neg ht, he, stripPrefix_ofList, hdigits,
    decodeHash_hex hlen, bind_eq_ok, ensure_eq_ok, exists_const, pure_eq_ok, beq_iff_eq]
  exact ⟨preimage, rfl, rfl, trivial⟩

/-- What an accepted predicate says, and what it leaves. -/
theorem restricts_of_checkPredicate
    (h : checkPredicate X policy hash preimage time .full expiry text = .ok (found, expiry')) :
    Restricts X policy hash preimage (bytes text) ∧
      (∀ next, validUntil (bytes text) = some next → next ≤ expiry ∧ time < next) ∧
      found = .full ∧ expiry' = (validUntil (bytes text)).getD expiry := by
  unfold checkPredicate at h
  split_ifs at h with hs hr ht
  · obtain ⟨rfl, rfl⟩ := Prod.mk.inj (Except.ok.inj h)
    rw [hs, validUntil_services]
    exact ⟨.services, by simp, rfl, rfl⟩
  · obtain ⟨rfl, rfl⟩ := Prod.mk.inj (Except.ok.inj h)
    have hnone : validUntil (bytes (requestCaveat hash)) = none :=
      validUntil_eq_none (by decide) (by decide)
    rw [hr, hnone]
    exact ⟨.request, by simp, rfl, rfl⟩
  · obtain ⟨rfl, rfl⟩ := Prod.mk.inj (Except.ok.inj h)
    have hnone : validUntil (bytes (termsCaveat X.sha256 policy hash)) = none :=
      validUntil_eq_none (by decide) (by decide)
    rw [ht, hnone]
    exact ⟨.terms, by simp, rfl, rfl⟩
  · split at h
    · rename_i value hvalue
      simp only [bind_eq_ok, ensure_eq_ok, exists_const, Bool.and_eq_true, decide_eq_true_eq,
        pure_eq_ok, Prod.mk.injEq] at h
      obtain ⟨next, hnext, ⟨hle, hlive⟩, rfl, rfl⟩ := h
      obtain ⟨hparse, hmax⟩ := parseExpiry_eq_ok.mp hnext
      rw [ofList_stripped hvalue, validUntil_expiry, hparse]
      refine ⟨.expiry value next hparse hmax, ?_, rfl, rfl⟩
      intro n hn
      obtain rfl := Option.some.inj hn
      exact ⟨hle, hlive⟩
    · split at h
      · rename_i value hvalue
        simp only [bind_eq_ok, ensure_eq_ok, exists_const, beq_iff_eq, pure_eq_ok,
          Prod.mk.injEq] at h
        obtain ⟨proof, hproof, rfl, rfl, rfl⟩ := h
        have hnone : validUntil (bytes ("preimage=" ++ String.ofList value)) = none :=
          validUntil_eq_none (by decide) (by decide)
        rw [ofList_stripped hvalue, hnone]
        exact ⟨.preimage value (decodeHash_eq_ok.mp hproof).2, by simp, rfl, rfl⟩
      · exact absurd h (by simp)

/-- A restricting predicate that does not widen is accepted. -/
theorem checkPredicate_of_restricts (hlen : preimage.length = 32) {p : List UInt8}
    (h : Restricts X policy hash preimage p)
    (hend : ∀ next, validUntil p = some next → next ≤ expiry ∧ time < next) :
    ∃ text, fromUtf8 p = some text ∧
      checkPredicate X policy hash preimage time .full expiry text
        = .ok (.full, (validUntil p).getD expiry) := by
  cases h with
  | services =>
    rw [validUntil_services]
    exact ⟨_, fromUtf8_bytes _, checkPredicate_services⟩
  | request =>
    have hnone : validUntil (bytes (requestCaveat hash)) = none :=
      validUntil_eq_none (by decide) (by decide)
    rw [hnone]
    exact ⟨_, fromUtf8_bytes _, checkPredicate_request⟩
  | terms =>
    have hnone : validUntil (bytes (termsCaveat X.sha256 policy hash)) = none :=
      validUntil_eq_none (by decide) (by decide)
    rw [hnone]
    exact ⟨_, fromUtf8_bytes _, checkPredicate_terms⟩
  | preimage digits hdigits =>
    have hnone : validUntil (bytes ("preimage=" ++ String.ofList digits)) = none :=
      validUntil_eq_none (by decide) (by decide)
    rw [hnone]
    exact ⟨_, fromUtf8_bytes _, checkPredicate_preimage hlen hdigits⟩
  | expiry digits n hn hmax =>
    rw [validUntil_expiry] at hend ⊢
    obtain ⟨hle, hlive⟩ := hend n hn
    rw [hn]
    exact ⟨_, fromUtf8_bytes _, checkPredicate_validUntil hn hmax hle hlive⟩

/-! ### The caveat loop over appended predicates -/

theorem scan_append {s : Scan κ} {l l' : List Caveat} :
    scan X policy hash preimage time s (l ++ l')
      = (scan X policy hash preimage time s l).bind
        (fun s' => scan X policy hash preimage time s' l') := by
  induction l generalizing s with
  | nil => rfl
  | cons caveat l ih =>
    cases caveat with
    | thirdParty id verifierId location => rfl
    | firstParty predicate =>
      simp only [List.cons_append, scan, ih]
      cases hx : context "invalid utf-8 sequence" (fromUtf8 predicate) with
      | error e => rfl
      | ok text =>
        show (checkPredicate X policy hash preimage time s.found s.expiry text).bind _ = _
        cases hc : checkPredicate X policy hash preimage time s.found s.expiry text with
        | error e => simp only [Except.bind, bind, hc]
        | ok r => simp only [Except.bind, bind, hc]

/-- The ends of appended predicates never grow, and lie ahead. -/
def Narrows (time expiry : ℕ) (ps : List (List UInt8)) : Prop :=
  (expiry :: ps.filterMap validUntil).IsChain (· ≥ ·) ∧ ∀ n ∈ ps.filterMap validUntil, time < n

theorem narrows_cons {p : List UInt8} {ps : List (List UInt8)} :
    Narrows time expiry (p :: ps) ↔
      (∀ next, validUntil p = some next → next ≤ expiry ∧ time < next) ∧
        Narrows time ((validUntil p).getD expiry) ps := by
  unfold Narrows
  cases hp : validUntil p with
  | none =>
    rw [List.filterMap_cons_none hp]
    simp
  | some n =>
    rw [List.filterMap_cons_some hp, List.isChain_cons_cons, List.forall_mem_cons]
    simp only [Option.some.injEq, forall_eq', Option.getD_some, ge_iff_le]
    tauto

/-- **The loop over appended predicates** goes through exactly when all of them restrict and none of
    them widens. -/
theorem scan_restricts_iff (hlen : preimage.length = 32) {s : Scan κ} {ps : List (List UInt8)}
    (hs : s.found = .full) :
    (∃ s', scan X policy hash preimage time s (ps.map .firstParty) = .ok s') ↔
      (∀ p ∈ ps, Restricts X policy hash preimage p) ∧ Narrows time s.expiry ps := by
  induction ps generalizing s with
  | nil => simp [scan, Narrows]
  | cons p ps ih =>
    rw [narrows_cons, List.forall_mem_cons]
    simp only [List.map_cons, scan, bind_eq_ok, context_eq_ok, Prod.exists, hs]
    constructor
    · rintro ⟨s', text, htext, found, expiry, hcheck, hrest⟩
      obtain ⟨hp, hend, rfl, rfl⟩ := restricts_of_checkPredicate hcheck
      rw [bytes_of_fromUtf8 htext] at hp hend hrest
      obtain ⟨hps, hnarrows⟩ := (ih rfl).mp ⟨s', hrest⟩
      exact ⟨⟨hp, hps⟩, hend, hnarrows⟩
    · rintro ⟨⟨hp, hps⟩, hend, hnarrows⟩
      obtain ⟨text, htext, hcheck⟩ := checkPredicate_of_restricts hlen hp hend
      obtain ⟨s', hs'⟩ := (ih (s := ⟨.full, (validUntil p).getD s.expiry, X.hmac s.signature p,
        s.satisfied ++ [p]⟩) rfl).mpr ⟨hps, hnarrows⟩
      exact ⟨s', text, htext, _, _, hcheck, hs'⟩

/-- What the loop leaves. -/
theorem scan_full {s s' : Scan κ} {ps : List (List UInt8)} (hs : s.found = .full)
    (h : scan X policy hash preimage time s (ps.map .firstParty) = .ok s') :
    s'.found = .full ∧ s'.signature = ps.foldl X.hmac s.signature ∧
      s'.satisfied = s.satisfied ++ ps := by
  induction ps generalizing s with
  | nil =>
    obtain rfl := Except.ok.inj h
    exact ⟨hs, rfl, by simp⟩
  | cons p ps ih =>
    simp only [List.map_cons, scan, bind_eq_ok, context_eq_ok, Prod.exists, hs] at h
    obtain ⟨text, htext, found, expiry, hcheck, hrest⟩ := h
    obtain ⟨-, -, rfl, rfl⟩ := restricts_of_checkPredicate hcheck
    obtain ⟨hfull, hsig, hsat⟩ := ih rfl hrest
    exact ⟨hfull, hsig, by rw [hsat, List.append_assoc]; rfl⟩

/-! ### Attenuated credentials -/

variable {parsed : Bolt11Invoice} {root : κ} {nonce : List UInt8} {c : Credential κ}
  {ps : List (List UInt8)}

/-- A presented macaroon over the invoice's payment hash parses if it has few enough caveats. -/
theorem parseCredential_presented {m : Macaroon κ} {binary : List UInt8} {proof : String}
    (htrip : X.RoundTrips m) (hbinary : X.serializeV2 m = some binary)
    (hid : m.identifier = identifier parsed.paymentHash nonce) (hnonce : nonce.length = 32)
    (hthird : m.thirdPartyCaveats = []) (hlen : preimage.length = 32)
    (hsha : X.sha256 preimage = parsed.paymentHash)
    (hproof : toAsciiLowercase proof.toList = (hex preimage).toList)
    (hsize : (X.base64Encode binary ++ ":" ++ proof).utf8ByteSize ≤ MAX_PAYMENT_HEADER)
    {result : Macaroon κ × List UInt8} :
    parseCredential X (X.base64Encode binary ++ ":" ++ proof) = .ok result ↔
      m.caveats.length ≤ 32 ∧ result = (m, preimage) := by
  have hsplit : splitOnce ':' (X.base64Encode binary ++ ":" ++ proof).toList
      = some ((X.base64Encode binary).toList, proof.toList) := by
    rw [String.toList_append, String.toList_append, List.append_assoc]
    exact splitOnce_append (htrip.noColon _ hbinary)
  have hidlen : m.identifier.length = 66 := by
    rw [hid]; simp [identifier, parsed.paymentHash_length, hnonce]
  have hversion : m.identifier.take 2 = [0, 0] := by rw [hid]; simp [identifier]
  have hpay : X.sha256 preimage = (m.identifier.drop 2).take 32 := by
    rw [hid, paymentHash_identifier, hsha]
  have hdecode : decodeHash (toAsciiLowercase proof.toList) = .ok preimage := by
    rw [hproof, decodeHash_hex hlen]
  simp only [parseCredential, bind_eq_ok, context_eq_ok, ensure_eq_ok, exists_const, beq_iff_eq,
    pure_eq_ok, decide_eq_true_eq, Bool.and_eq_true, hsplit, Option.some.injEq, Prod.exists,
    Prod.mk.injEq]
  constructor
  · rintro ⟨-, _, _, ⟨rfl, rfl⟩, binary', hb, -, m', hm', ⟨hcount, -⟩, -, p, hp, -, rfl⟩
    rw [String.ofList_toList, htrip.base64 _ hbinary] at hb
    obtain rfl := Option.some.inj hb
    rw [htrip.binary _ hbinary] at hm'
    obtain rfl := Option.some.inj hm'
    rw [hdecode] at hp
    obtain rfl := Except.ok.inj hp
    exact ⟨hcount, rfl⟩
  · rintro ⟨hcount, rfl⟩
    refine ⟨hsize, _, _, ⟨rfl, rfl⟩, binary, ?_, htrip.version _ hbinary, m, htrip.binary _ hbinary,
      ⟨hcount, by rw [hthird]; rfl⟩, ⟨hidlen, hversion⟩, preimage, hdecode, hpay, rfl⟩
    rw [String.ofList_toList, htrip.base64 _ hbinary]

/-- The issued predicates, and then the appended ones, signed from the root. -/
theorem attenuate_credential (hjson : X.ReadsJson)
    (hc : credential X policy hash parsed root nonce = .ok c) (ps : List (List UInt8)) :
    attenuate X c.macaroon ps = ⟨c.identifier,
      ((predicates X.sha256 policy hash c.validBefore).map bytes ++ ps).map .firstParty,
      sign X root c.identifier ((predicates X.sha256 policy hash c.validBefore).map bytes ++ ps)⟩ := by
  obtain ⟨-, -, -, -, hm, -⟩ := credential_ok hjson hc
  rw [hm, attenuate, sign, sign, List.foldl_append, List.map_append]

/-- The checks of an attenuated credential's caveats and signature. -/
theorem verify_attenuated_iff [DecidableEq κ] (hjson : X.ReadsJson) (hchains : X.AcceptsChains)
    (hc : credential X policy hash parsed root nonce = .ok c) (hlen : preimage.length = 32) :
    verify X policy hash (attenuate X c.macaroon ps) preimage c.root c.validBefore time = .ok () ↔
      time < c.validBefore ∧ (∀ p ∈ ps, Restricts X policy hash preimage p) ∧
        Narrows time c.validBefore ps := by
  obtain ⟨hroot, -, -, hmax, -, -⟩ := credential_ok hjson hc
  have hatt := attenuate_credential hjson hc ps
  have hverifier := hchains (attenuate X c.macaroon ps) root _ (by rw [hatt]) (by rw [hatt])
  rw [hatt] at hverifier ⊢
  rw [hroot]
  -- the loop over the issued predicates leaves everything found
  have hscan : ∀ hlive : time < c.validBefore, scan X policy hash preimage time
      { expiry := c.validBefore, signature := X.hmac root c.identifier }
      (((predicates X.sha256 policy hash c.validBefore).map bytes ++ ps).map .firstParty)
        = scan X policy hash preimage time
          ⟨.full, c.validBefore, ((predicates X.sha256 policy hash c.validBefore).map bytes).foldl
            X.hmac (X.hmac root c.identifier),
            (predicates X.sha256 policy hash c.validBefore).map bytes⟩ (ps.map .firstParty) := by
    intro hlive
    rw [List.map_append, scan_append, scan_predicates hmax hlive]
    rfl
  simp only [verify, bind_eq_ok, ensure_eq_ok, exists_const, decide_eq_true_eq]
  refine and_congr_right (fun hlive => ?_)
  rw [hscan hlive]
  constructor
  · rintro ⟨s, hs, -⟩
    exact (scan_restricts_iff hlen rfl).mp ⟨s, hs⟩
  · intro h
    obtain ⟨s, hs⟩ := (scan_restricts_iff (s := ⟨.full, c.validBefore, _, _⟩) hlen rfl).mpr h
    obtain ⟨hfull, hsig, hsat⟩ := scan_full rfl hs
    refine ⟨s, hs, by rw [hfull]; rfl, ?_, by rw [hsat]; exact hverifier⟩
    rw [beq_iff_eq, hsig, sign, List.foldl_append]

/-- **Attenuation is exactly what restricts.**  An issued credential with predicates appended by the
    client, presented with the invoice's preimage, is accepted exactly when there are at most 28 of
    them, it has not ended, each repeats an issued restriction, states the preimage or sets an end,
    and the ends set do not grow and lie ahead. -/
theorem attenuation_accepted_iff [DecidableEq κ] (X : Crates κ) (hjson : X.ReadsJson)
    (hchains : X.AcceptsChains) (policy : Policy) (hash : String) (parsed : Bolt11Invoice) (root : κ)
    (nonce : List UInt8) (hnonce : nonce.length = 32) (c : Credential κ)
    (hc : credential X policy hash parsed root nonce = .ok c) (preimage : List UInt8)
    (hlen : preimage.length = 32) (hsha : X.sha256 preimage = parsed.paymentHash)
    (ps : List (List UInt8)) (htrip : X.RoundTrips (attenuate X c.macaroon ps)) (binary : List UInt8)
    (hbinary : X.serializeV2 (attenuate X c.macaroon ps) = some binary) (proof : String)
    (hproof : toAsciiLowercase proof.toList = (hex preimage).toList)
    (hsize : (X.base64Encode binary ++ ":" ++ proof).utf8ByteSize ≤ MAX_PAYMENT_HEADER) (time : ℕ) :
    Accepts X policy hash (X.base64Encode binary ++ ":" ++ proof) c.root c.validBefore time ↔
      ps.length ≤ 28 ∧ time < c.validBefore ∧ (∀ p ∈ ps, Restricts X policy hash preimage p) ∧
        (c.validBefore :: ps.filterMap validUntil).IsChain (· ≥ ·) ∧
        ∀ n ∈ ps.filterMap validUntil, time < n := by
  obtain ⟨hroot, hid, -, hmax, hm, -⟩ := credential_ok hjson hc
  have hatt := attenuate_credential hjson hc ps
  have hparse := @parseCredential_presented _ X preimage parsed nonce
    (attenuate X c.macaroon ps) binary proof htrip hbinary (by rw [hatt]; exact hid) hnonce
    (by rw [hatt]; simp [Macaroon.thirdPartyCaveats]) hlen hsha hproof hsize
  have hcount : (attenuate X c.macaroon ps).caveats.length ≤ 32 ↔ ps.length ≤ 28 := by
    rw [hatt, List.length_map, List.length_append, List.length_map]
    show 4 + ps.length ≤ 32 ↔ _
    omega
  rw [← hcount, ← Narrows, ← verify_attenuated_iff hjson hchains hc hlen]
  constructor
  · rintro ⟨m, p, hp, hv⟩
    obtain ⟨hle, heq⟩ := hparse.mp hp
    obtain ⟨rfl, rfl⟩ := Prod.mk.inj heq
    exact ⟨hle, hv⟩
  · rintro ⟨hle, hv⟩
    exact ⟨_, _, hparse.mpr ⟨hle, rfl⟩, hv⟩

end

/-! ### An attenuated test credential -/

/-- An earlier end, with a leading zero. -/
def testEnd : List UInt8 := bytes ("geata_valid_until=" ++ String.ofList "01700003000".toList)

/-- The preimage in uppercase digits. -/
def testStated : List UInt8 :=
  bytes ("preimage=" ++ String.ofList (List.replicate 32 ['2', 'A']).flatten)

/-- The signature of the test credential, extended by two predicates. -/
def testLongHmac (key message : List UInt8) : List UInt8 :=
  if (key, message) =
      (word 32 0xaeba425bcd93fed5e199718cb155058b2294523f4c503e3213fc081ec75dfe82, testEnd) then
    word 32 0xf442edb3192a2e4fd0a9973b8f288827c3fc4ac7db492db5fbd419947f1a9c0b
  else if (key, message) =
      (word 32 0xf442edb3192a2e4fd0a9973b8f288827c3fc4ac7db492db5fbd419947f1a9c0b, testStated) then
    word 32 0xd8596d0817a591de948214fbdab478dc721cf8be2f7a253c02cbf88776d0e7b3
  else testHmac key message

/-- The attenuated macaroon. -/
def testNarrow : Macaroon (List UInt8) :=
  attenuate (testCrates testLongHmac testRoot) (testMacaroon testLongHmac testRoot)
    [testEnd, testStated]

/-- Its V2 form. -/
def testLongBinary : List UInt8 :=
  [0x0202420000544e62cee8033709e389e5b2755343d0d0fa8c4850215cfb633171,
    0x7e80d1aea3000102030405060708090a0b0c0d0e0f101112131415161718191a,
    0x1b1c1d1e1f00021073657276696365733d67656174613a3000024e6765617461,
    0x5f726571756573743d6235656565336363353163666161626339313637663039,
    0x3164303730653633666231383063323266353336633931356230623862656130,
    0x32656534303830323000024c67656174615f7465726d733d3663663161333533,
    0x3735313832636562656238616138613337616562373633333365616162646534,
    0x36393862333931643565616637306661616465303261623700021c6765617461,
    0x5f76616c69645f756e74696c3d3137303030303336363100021d67656174615f,
    0x76616c69645f756e74696c3d3031373030303033303030000249707265696d61,
    0x67653d3241324132413241324132413241324132413241324132413241324132,
    0x4132413241324132413241324132413241324132413241324132413241324132,
    0x41324100000620d8596d0817a591de948214fbdab478dc721cf8be2f7a253c02].flatMap (word 32) ++
    word 7 0xcbf88776d0e7b3

/-- The crates, as they act on both macaroons. -/
def testLongCrates : Crates (List UInt8) :=
  { testCrates testLongHmac testRoot with
    base64Decode := fun s =>
      if s = String.ofList (base64 testLongBinary) then some testLongBinary
      else (testCrates testLongHmac testRoot).base64Decode s
    deserializeBinary := fun b => if b = testLongBinary then some testNarrow
      else (testCrates testLongHmac testRoot).deserializeBinary b
    serializeV2 := fun m => if m = testNarrow then some testLongBinary
      else (testCrates testLongHmac testRoot).serializeV2 m }

theorem testNarrow_ne : testMacaroon testLongHmac testRoot ≠ testNarrow := by
  intro h
  have hcaveats := congrArg (fun m => m.caveats.length) h
  exact absurd hcaveats (by decide)

theorem testLongCrates_credential :
    credential testLongCrates testPolicy testHash testInvoice testRoot testNonce
      = .ok (testCredential testLongHmac testRoot) := by
  have hvb : validBefore testInvoice = some 1700003661 := by decide
  have hv2 : testLongCrates.serializeV2 (testMacaroon testLongHmac testRoot) = some testBinary := by
    simp only [testLongCrates, if_neg testNarrow_ne, testCrates, if_true]
  simp only [credential, hvb, bind_eq_ok, context_eq_ok, pure_eq_ok]
  exact ⟨_, rfl, testMacaroon testLongHmac testRoot, rfl, testBinary, hv2, rfl⟩

theorem attenuate_testCredential :
    attenuate testLongCrates (testCredential testLongHmac testRoot).macaroon [testEnd, testStated]
      = testNarrow := by
  have hhmac : testLongCrates.hmac = (testCrates testLongHmac testRoot).hmac := by
    simp only [testLongCrates]
  have hm : (testCredential testLongHmac testRoot).macaroon = testMacaroon testLongHmac testRoot := by
    simp only [testCredential]
  rw [testNarrow, attenuate, attenuate, hhmac, hm]

theorem testLongCrates_serialize : testLongCrates.serializeV2 testNarrow = some testLongBinary := by
  simp only [testLongCrates, if_true]

theorem testLongCrates_roundTrips : testLongCrates.RoundTrips testNarrow := by
  refine ⟨?_, ?_, ?_, ?_⟩ <;> intro b hb <;>
    obtain rfl := Option.some.inj (testLongCrates_serialize.symm.trans hb)
  · decide +kernel
  · simp only [testLongCrates, if_true]
  · simp only [testLongCrates, testCrates, if_true]
  · show ':' ∉ (String.ofList (base64 testLongBinary)).toList
    rw [String.toList_ofList]
    exact colon_not_mem_base64 testLongBinary

theorem testLong_size : (testLongCrates.base64Encode testLongBinary ++ ":" ++
    hex (List.replicate 32 42)).utf8ByteSize ≤ MAX_PAYMENT_HEADER := by
  have h₁ := utf8_length_le (base64 testLongBinary)
  have h₂ := utf8_length_le ((List.replicate 32 42).flatMap hexByte)
  have hb : (base64 testLongBinary).length = 564 := by decide +kernel
  have hp : ((List.replicate 32 (42 : UInt8)).flatMap hexByte).length = 64 := by decide +kernel
  have hmax : MAX_PAYMENT_HEADER = 24576 := rfl
  have hcolon : ":".utf8ByteSize = 1 := by decide
  show (String.ofList (base64 testLongBinary) ++ ":" ++ hex (List.replicate 32 42)).utf8ByteSize ≤ _
  simp only [hex, String.utf8ByteSize_append, utf8ByteSize_ofList, hmax, hcolon]
  omega

/-- An earlier end and the stated preimage are accepted before that end, and not at it. -/
theorem attenuation_accepted_until :
    Accepts testLongCrates testPolicy testHash
        (testLongCrates.base64Encode testLongBinary ++ ":" ++ hex (List.replicate 32 42))
        testRoot 1700003661 1700002999 ∧
      ¬ Accepts testLongCrates testPolicy testHash
        (testLongCrates.base64Encode testLongBinary ++ ":" ++ hex (List.replicate 32 42))
        testRoot 1700003661 1700003000 := by
  have hiff := attenuation_accepted_iff testLongCrates (fun _ _ _ _ h => (Option.some.inj h).symm)
    (fun _ _ _ hcaveats hsig => decide_eq_true ⟨hcaveats, hsig⟩) testPolicy testHash testInvoice
    testRoot testNonce (by decide) (testCredential testLongHmac testRoot) testLongCrates_credential
    (List.replicate 32 42) List.length_replicate testPreimage_ok [testEnd, testStated]
    (by rw [attenuate_testCredential]; exact testLongCrates_roundTrips) testLongBinary
    (by rw [attenuate_testCredential]; exact testLongCrates_serialize) (hex (List.replicate 32 42))
    (toAsciiLowercase_hex _) testLong_size
  have hend : parseNat "01700003000".toList = some 1700003000 := by decide
  have hnone : validUntil testStated = none := validUntil_eq_none (by decide) (by decide)
  have hends : [testEnd, testStated].filterMap validUntil = [1700003000] := by
    have hfirst : validUntil testEnd = some 1700003000 := (validUntil_expiry _).trans hend
    rw [List.filterMap_cons_some hfirst, List.filterMap_cons_none hnone, List.filterMap_nil]
  refine ⟨(hiff 1700002999).mpr ⟨by decide, by decide, ?_, ?_, ?_⟩, fun h => ?_⟩
  · intro p hp
    simp only [List.mem_cons, List.not_mem_nil, or_false] at hp
    rcases hp with rfl | rfl
    · exact .expiry _ _ hend (by decide)
    · exact .preimage _ (by decide +kernel)
  · rw [hends]
    simp [testCredential]
  · rw [hends]
    simp
  · obtain ⟨-, -, -, -, hlive⟩ := (hiff 1700003000).mp h
    rw [hends] at hlive
    exact absurd (hlive _ (.head _)) (by decide)

end L402

end Geata.Lightning
