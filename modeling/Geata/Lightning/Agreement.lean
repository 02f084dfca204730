import Geata.Lightning.Security

namespace Geata.Lightning

open Geata.Lib

/-!
# The two protocols agree

One challenge of an LDK receiver can be redeemed by an x402 proof or by an L402 credential.  The
two checks compute the same window, the same replay key and the same retention from different
data: `verify` from the invoice the client echoes, `L402.verify` from the stored root record and
the bytes of the identifier.
-/

section

variable {κ : Type} [DecidableEq κ] {X : L402.Crates κ} {policy : Policy}
  {node : LdkReceiverConfig} {hash encoded proof : String} {invoice : Bolt11Invoice}
  {t₀ t : ℕ} {preimage : List UInt8}

/-- The last moment either proof of an invoice is accepted. -/
def Bolt11Invoice.lastAccepted (invoice : Bolt11Invoice) : ℕ := invoice.validUntil + SKEW

/-- An LDK invoice's window and retention stay far below the 64-bit limit. -/
theorem ValidInvoice.retain_lt {X : Crates} {time grace : ℕ}
    (h : ValidInvoice X policy hash encoded time grace invoice)
    (hldk : policy.receiver.ldk? = some node) :
    invoice.validUntil + QUOTE_PRUNE_GRACE < u64Max := by
  have hexp := (h.node node hldk).expiry
  have hlt := node.expirySeconds.toNat_lt
  have hcr := invoice.created_lt
  rw [Bolt11Invoice.validUntil, QUOTE_PRUNE_GRACE_eq, u64Max_eq]
  omega

/-- An invoice that was valid at issuance passes settlement exactly until its end plus the
    skew. -/
theorem ValidInvoice.later_iff {X : Crates}
    (h : ValidInvoice X policy hash encoded t₀ 0 invoice)
    (hldk : policy.receiver.ldk? = some node) (ht : t₀ ≤ t) :
    ValidInvoice X policy hash encoded t SKEW invoice ↔ t ≤ invoice.lastAccepted := by
  have hbound := h.retain_lt hldk
  have hcr := h.created
  have hlast : saturatingAdd invoice.validUntil SKEW = invoice.lastAccepted := by
    apply saturatingAdd_eq
    rw [QUOTE_PRUNE_GRACE_eq] at hbound
    rw [SKEW_eq]
    omega
  constructor
  · intro h'
    rcases h'.live with hlt | ⟨-, hle⟩
    · simp only [Bolt11Invoice.lastAccepted]; omega
    · rwa [hlast] at hle
  · intro hle
    refine { h with created := ?_, live := .inr ⟨by decide, by rw [hlast]; exact hle⟩ }
    simp only [saturatingAdd] at hcr ⊢
    omega

/-- The x402 header that echoes the challenge's terms and reveals the preimage. -/
def Echoes (X : Crates) (policy : Policy) (hash encoded : String) (preimage : List UInt8)
    (proof : String) : Prop :=
  X.decodePayment proof = some
    { x402Version := 2, accepted := policy.requirements hash encoded,
      payload := { preimage := hex preimage } }

/-- The x402 side: accepted exactly in the window, with this key and retention. -/
theorem verify_echo_iff {X : Crates} (h : ValidInvoice X policy hash encoded t₀ 0 invoice)
    (hldk : policy.receiver.ldk? = some node) (hlen : preimage.length = 32)
    (hsha : X.sha256 preimage = invoice.paymentHash)
    (hecho : Echoes X policy hash encoded preimage proof)
    (hsize : proof.utf8ByteSize ≤ MAX_PAYMENT_HEADER) (ht : t₀ ≤ t)
    (result : String × String × ℕ) :
    verify X policy hash proof t = .ok result ↔ t ≤ invoice.lastAccepted ∧
      result = (replayKey policy.receiver.network invoice.paymentHash, hex invoice.paymentHash,
        invoice.validUntil + QUOTE_PRUNE_GRACE) := by
  have hbound := h.retain_lt hldk
  have hretain : invoice.retainUntil = invoice.validUntil + QUOTE_PRUNE_GRACE := by
    rw [Bolt11Invoice.retainUntil, saturatingAdd_eq h.last]
    exact saturatingAdd_eq (Nat.le_of_lt hbound)
  rw [verify_ok_iff]
  constructor
  · rintro ⟨payment, invoice', hv, rfl⟩
    have hpay := Option.some.inj (hv.decoded.symm.trans hecho)
    subst hpay
    -- The echoed invoice is the one that was issued.
    have hinv : invoice' = invoice := Option.some.inj (hv.valid.parsed.symm.trans h.parsed)
    subst hinv
    exact ⟨(h.later_iff hldk ht).mp hv.valid, by rw [hretain]⟩
  · rintro ⟨hle, rfl⟩
    refine ⟨_, invoice, ⟨by rw [hldk]; rfl, hsize, hecho, rfl, rfl, (h.later_iff hldk ht).mpr hle,
      preimage, decodeHash_hex hlen, hsha⟩, by rw [hretain]⟩

/-- The L402 side: accepted exactly in the window. -/
theorem l402_verify_issued_iff (hjson : X.ReadsJson) (hchains : X.AcceptsChains) {root : κ}
    {nonce : List UInt8} {c : L402.Credential κ}
    (hc : L402.credential X policy hash invoice root nonce = .ok c) :
    L402.verify X policy hash c.macaroon preimage c.root c.validBefore t = .ok () ↔
      t ≤ invoice.lastAccepted := by
  obtain ⟨hroot, -, hvb, hmax, hm, -⟩ := L402.credential_ok hjson hc
  rw [hm, hroot, L402.verify_issued_iff hchains hmax, hvb, Bolt11Invoice.lastAccepted]
  omega

/-- **Both protocols redeem the same challenges.**  For an LDK invoice that was valid when the
    challenge was issued, the x402 proof that echoes the terms and the issued credential with the
    same preimage are accepted at exactly the same times, up to the invoice's end plus the skew;
    they consume the same replay key with the same retention; and until then no earlier prune
    drops the credential's root or the replay barrier, so an unconsumed challenge can still be
    claimed. -/
theorem protocols_agree (hjson : X.ReadsJson) (hchains : X.AcceptsChains)
    (hldk : policy.receiver.ldk? = some node)
    (hissued : validateInvoice X.toCrates policy hash encoded t₀ 0 = .ok invoice)
    (hlen : preimage.length = 32) (hsha : X.sha256 preimage = invoice.paymentHash)
    {root : κ} {nonce : List UInt8} {c : L402.Credential κ} (hnonce : nonce.length = 32)
    (hc : L402.credential X policy hash invoice root nonce = .ok c)
    (htrip : X.RoundTrips c.macaroon)
    (hsizeL : (c.header preimage).utf8ByteSize ≤ MAX_PAYMENT_HEADER)
    (hecho : Echoes X.toCrates policy hash encoded preimage proof)
    (hsizeX : proof.utf8ByteSize ≤ MAX_PAYMENT_HEADER) (ht : t₀ ≤ t) :
    let key := replayKey policy.receiver.network invoice.paymentHash
    let retain := invoice.created + invoice.expiry + 3660
    ((∃ result, verify X.toCrates policy hash proof t = .ok result) ↔
      t ≤ invoice.created + invoice.expiry + 60) ∧
    ((∃ macaroon p, L402.parseCredential X (c.header preimage) = .ok (macaroon, p) ∧
        L402.verify X policy hash macaroon p c.root c.validBefore t = .ok ()) ↔
      t ≤ invoice.created + invoice.expiry + 60) ∧
    (∀ result, verify X.toCrates policy hash proof t = .ok result →
      result.1 = key ∧ result.2.2 = retain) ∧
    L402.credentialKey policy c.macaroon.identifier = key ∧
    L402.retainUntil c.validBefore = retain ∧
    (t ≤ invoice.created + invoice.expiry + 60 → ∀ (s : Store κ) (τ : ℕ), τ ≤ t →
      (s.roots.lookup (digest X.sha256 c.macaroon.identifier) = some (c.root, c.validBefore) →
        (s.prune τ).roots.lookup (digest X.sha256 c.macaroon.identifier)
          = some (c.root, c.validBefore)) ∧
      (s.spent.lookup key = some retain → (s.prune τ).spent.lookup key = some retain) ∧
      (s.spent.lookup key = none →
        s.claim key retain t = .ok (true, { s with spent := s.spent.insert key retain }))) := by
  intro key retain
  have hvalid := validateInvoice_ok_iff.mp hissued
  have hbound := hvalid.retain_lt hldk
  have hretain : retain = invoice.validUntil + QUOTE_PRUNE_GRACE := by
    rw [QUOTE_PRUNE_GRACE_eq, Bolt11Invoice.validUntil]
  have hwindow : invoice.created + invoice.expiry + 60 = invoice.lastAccepted := by
    rw [Bolt11Invoice.lastAccepted, SKEW_eq, Bolt11Invoice.validUntil]
  obtain ⟨-, hid, hvb, -, hm, -⟩ := L402.credential_ok hjson hc
  have hmid : c.macaroon.identifier = c.identifier := by rw [hm]
  have hx := verify_echo_iff hvalid hldk hlen hsha hecho hsizeX ht
  have hparse := L402.parseCredential_header hjson hc htrip hnonce hlen hsha hsizeL
  rw [hwindow]
  refine ⟨⟨?_, ?_⟩, ⟨?_, ?_⟩, ?_, ?_, ?_, ?_⟩
  · rintro ⟨result, hresult⟩
    exact ((hx result).mp hresult).1
  · intro hle
    exact ⟨_, (hx _).mpr ⟨hle, rfl⟩⟩
  · rintro ⟨macaroon, p, hp, hverify⟩
    obtain ⟨rfl, rfl⟩ := Prod.mk.inj (Except.ok.inj (hp.symm.trans hparse))
    exact (l402_verify_issued_iff hjson hchains hc).mp hverify
  · intro hle
    exact ⟨_, _, hparse, (l402_verify_issued_iff hjson hchains hc).mpr hle⟩
  · intro result hresult
    obtain ⟨-, rfl⟩ := (hx result).mp hresult
    exact ⟨rfl, hretain.symm⟩
  · rw [L402.credentialKey, hmid, hid, L402.paymentHash_identifier]
  · rw [L402.retainUntil, hvb, hretain]
    rw [QUOTE_PRUNE_GRACE_eq] at hbound
    rw [QUOTE_PRUNE_GRACE_eq, SKEW_eq, saturatingAdd_eq (by omega)]
  · intro hle s τ hτ
    have hlast : invoice.lastAccepted < retain := by
      rw [hretain, Bolt11Invoice.lastAccepted, QUOTE_PRUNE_GRACE_eq, SKEW_eq]
      omega
    have hend : invoice.lastAccepted < c.validBefore := by
      rw [hvb, Bolt11Invoice.lastAccepted, SKEW_eq]
      omega
    refine ⟨?_, ?_, ?_⟩
    · intro hroot
      exact Store.lookup_roots_prune.mpr ⟨hroot, by show τ < c.validBefore; omega⟩
    · intro hspent
      exact Store.lookup_spent_prune.mpr ⟨hspent, by omega⟩
    · intro hnone
      exact Store.claim_ok_iff.mpr ⟨by omega, .inr ⟨rfl, hnone, rfl⟩⟩

/-- The test proof: base64 of the JSON that echoes the test challenge. -/
def testProof : String := String.ofList (base64 testPaymentJson)

theorem testProof_size : testProof.utf8ByteSize ≤ MAX_PAYMENT_HEADER := by
  have hle := utf8_length_le (base64 testPaymentJson)
  have hlen : (base64 testPaymentJson).length = 1140 := by decide +kernel
  have hmax : MAX_PAYMENT_HEADER = 24576 := rfl
  rw [testProof, utf8ByteSize_ofList, hmax]
  omega

theorem testProof_echoes :
    Echoes (testCrates L402.testHmac L402.testRoot).toCrates testPolicy testHash testInvoiceText
      (List.replicate 32 42) testProof := by
  have hne : testProof ≠ String.ofList (base64 testBinary) := by
    intro h
    exact absurd (String.ofList_inj.mp h) (by decide +kernel)
  have hdecode : (testCrates L402.testHmac L402.testRoot).base64Decode testProof
      = some testPaymentJson := by
    simp only [testCrates, if_neg hne]
    exact if_pos rfl
  rw [Echoes, Crates.decodePayment, hdecode, Option.bind_some]
  simp only [testCrates, if_true, testPayment]

theorem testInvoice_valid :
    ValidInvoice (testCrates L402.testHmac L402.testRoot).toCrates testPolicy testHash
      testInvoiceText 1700000100 0 testInvoice where
  parsed := by simp only [testCrates, if_true]
  signed := by simp only [testCrates, decide_true]
  payee node hnode := by cases hnode; rfl
  currency := rfl
  amount := rfl
  node node hnode := by
    cases hnode
    exact ⟨⟨_, rfl, by decide +kernel⟩, rfl⟩
  created := by decide
  last := by decide
  live := .inl (by decide)

/-- At the last accepted second, both proofs of the test challenge pass. -/
theorem protocols_agree_last :
    (∃ result, verify (testCrates L402.testHmac L402.testRoot).toCrates testPolicy testHash
      testProof 1700003660 = .ok result) ∧
    ∃ macaroon p, L402.parseCredential (testCrates L402.testHmac L402.testRoot)
        ((testCredential L402.testHmac L402.testRoot).header (List.replicate 32 42))
          = .ok (macaroon, p) ∧
      L402.verify (testCrates L402.testHmac L402.testRoot) testPolicy testHash macaroon p
        L402.testRoot 1700003661 1700003660 = .ok () := by
  have hlen : (List.replicate 32 (42 : UInt8)).length = 32 := List.length_replicate
  obtain ⟨hx, hl, -⟩ := protocols_agree (t := 1700003660)
    (testCrates_readsJson L402.testHmac L402.testRoot) (testCrates_acceptsChains _ _)
    (show testPolicy.receiver.ldk? = some testNode from rfl) testInvoice_valid.validateInvoice
    hlen testPreimage_ok (by decide) (testCredential_ok L402.testHmac L402.testRoot)
    (testCrates_roundTrips _ _) (testCredential_size _ _) testProof_echoes testProof_size
    (by decide)
  exact ⟨hx.mpr (by decide), hl.mpr (by decide)⟩

end

end Geata.Lightning
