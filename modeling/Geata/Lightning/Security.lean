import Geata.Lib.Mac
import Geata.Lightning.Store

namespace Geata.Lightning

open Geata.Lib

/-!
# What a proof of payment is good for

* Binding of proofs — a request hash determines the bound parts of a request, and a proof is
  accepted only for the request and the terms it was made for.
* `L402.Journal` — the root table together with every credential issued so far, in the symbolic
  reading where a signature is a free term and every root a fresh secret.
* `L402.Journal.accepted` — an accepted macaroon extends an issued one, for what it was issued
  for.
-/

/-! ### Binding of proofs -/

/-- An x402 payment made out for the terms of `p` and `hash`: what the client echoes, with the
    default transfer method filled in, are the terms of that challenge. -/
def IssuedX402 (X : Crates) (p : Policy) (hash encoded : String) : Prop :=
  ∃ payment, X.decodePayment encoded = some payment ∧
    payment.accepted.normalized = p.requirements hash payment.accepted.extra.invoice

/-- An x402 payment is accepted only under the terms it was made out for. -/
theorem sameTerms_of_verify {X : Crates} {p p' : Policy} {hash hash' encoded : String} {time : ℕ}
    {result : String × String × ℕ} (hissued : IssuedX402 X p hash encoded)
    (h : verify X p' hash' encoded time = .ok result) : SameTerms p p' hash hash' := by
  obtain ⟨payment, hdec, hterms⟩ := hissued
  obtain ⟨payment', invoice, hvalid, -⟩ := verify_ok_iff.mp h
  have hpay : payment = payment' := Option.some.inj (hdec.symm.trans hvalid.decoded)
  subst hpay
  exact sameTerms_of_requirements (hterms.symm.trans hvalid.terms)

namespace L402

variable {κ : Type} [DecidableEq κ]

/-- The macaroon of a credential that `mint_l402` makes for a request under a policy. -/
def Issued (X : Crates κ) (p : Policy) (hash : String) (macaroon : Macaroon κ) : Prop :=
  ∃ parsed root nonce c, credential X p hash parsed root nonce = .ok c ∧ c.macaroon = macaroon

/-- A credential is accepted only for the request, the terms and the mint it was issued for. -/
theorem sameTerms_of_l402_verify {X : Crates κ} (hsha : Function.Injective X.sha256)
    (hjson : X.ReadsJson) {p p' : Policy} {hash hash' : String} {macaroon : Macaroon κ}
    {preimage : List UInt8} {root : κ} {validBefore time : ℕ}
    (hissued : Issued X p hash macaroon)
    (h : verify X p' hash' macaroon preimage root validBefore time = .ok ()) :
    SameTerms p p' hash hash' ∧ p.receiver.mint? = p'.receiver.mint? := by
  obtain ⟨parsed, root', nonce, c, hc, rfl⟩ := hissued
  obtain ⟨-, -, -, -, hm, -⟩ := credential_ok hjson hc
  obtain ⟨ps, hv⟩ := verified_of_verify h
  have hps : ps = (predicates X.sha256 p hash c.validBefore).map bytes := by
    have hmap := hv.caveats.symm
    rw [hm] at hmap
    exact List.map_injective_iff.mpr (fun _ _ he => Caveat.firstParty.inj he) hmap
  have hsub : ∀ text ∈ predicates X.sha256 p hash c.validBefore, bytes text ∈ ps := by
    intro text htext
    rw [hps]
    exact List.mem_map_of_mem htext
  exact sameTerms_of_terms hsha (hv.issuedFor hsub).2

end L402

/-! ### A challenge on testnet

One node, one request and one invoice, with the digests, codes and encodings that belong to
them. -/

/-- The bytes of a text given in pieces. -/
def texts (ts : List String) : List UInt8 := ts.flatMap bytes

def testNode : LdkReceiverConfig where
  endpoint := "https://node.example.com:3002"
  macaroonFile := "/etc/geata/node.macaroon"
  tlsCertFile := "/etc/geata/node.crt"
  payTo := "035c4e0dec7215e26833938730e5e505aa62504da85ba57106a46b5a2404fc9d8e"
  network := .testnet
  expirySeconds := 3600

def testPolicy : Policy where
  amountMsat := 25000
  receiver := .ldk testNode
  origin := "https://api.example.com"
  headers := []
  protocols := { x402 := true, l402 := true }

/-- The hash of `GET https://api.example.com/` with an empty body. -/
def testHash : String := "b5eee3cc51cfaabc9167f091d070e63fb180c22f536c915b0b8bea02ee408020"

def testPaymentHash : List UInt8 :=
  word 32 0x544e62cee8033709e389e5b2755343d0d0fa8c4850215cfb6331717e80d1aea3

def testNonce : List UInt8 := (List.range 32).map UInt8.ofNat

def testIdentifier : List UInt8 := L402.identifier testPaymentHash testNonce

def testInvoiceText : String :=
  "lntb250n1pj48ugqpp5238x9nhgqvmsncufuke8256r6rg04rzg2qs4e7mrx9chaqx3463ssp5qurswpc8qursw" ++
    "pc8qurswpc8qurswpc8qurswpc8qurswpc8qurshp5khhw8nz3e74teyt87zgaqu8x87ccps302dkfzkct304q9m" ++
    "jqsqsqxqrrss9qrsgqlcvmnm9whycsu0ky2hzcd3m9vennkvk5254w8gdfzgvsysdfax0qphzfdmk2g87j0mjycu" ++
    "nu7hmhpm0pa54zw65h23fc6qqltmkf7mqp477nes"

def testInvoice : Bolt11Invoice where
  payee := testNode.payTo
  currency := .bitcoinTestnet
  amountMsat := some 25000
  description := .hash (word 32 0xb5eee3cc51cfaabc9167f091d070e63fb180c22f536c915b0b8bea02ee408020)
  created := 1700000000
  expiry := 3600
  paymentHash := testPaymentHash
  created_lt := by decide
  expiry_le := by decide
  paymentHash_length := by decide +kernel

/-- SHA-256 of what is hashed below. -/
def testDigests : List (List UInt8 × List UInt8) :=
  [([],
      word 32 0xe3b0c44298fc1c149afbf4c8996fb92427ae41e4649b934ca495991b7852b855),
    (texts ["\x7b\"bodyHash\":\"e3b0c44298fc1c149afbf4c8996fb92427ae41e4649b934ca495991b7852",
      "b855\",\"domain\":\"x402:exact:lnbtc:bolt11:http:1\",\"headers\":[],\"method\":",
      "\"GET\",\"url\":\"https://api.example.com/\"\x7d"],
      word 32 0xb5eee3cc51cfaabc9167f091d070e63fb180c22f536c915b0b8bea02ee408020),
    (texts ["\x7b\"scheme\":\"exact\",\"network\":\"lnbtc:000000000933ea01ad0ee984209779ba\"",
      ",\"amount\":\"25000\",\"asset\":\"BTC\",\"payTo\":\"035c4e0dec7215e26833938730e",
      "5e505aa62504da85ba57106a46b5a2404fc9d8e\",\"maxTimeoutSeconds\":3600,\"extra\":",
      "\x7b\"assetTransferMethod\":\"bolt11\",\"paymentFlow\":\"upfront\",\"requestHas",
      "h\":\"b5eee3cc51cfaabc9167f091d070e63fb180c22f536c915b0b8bea02ee408020\",\"requ",
      "estBindingProfile\":\"http:1\",\"requestBindingParams\":\x7b\"headers\":[]\x7d,",
      "\"invoice\":\"\"\x7d\x7d"],
      word 32 0x6cf1a35375182cebeb8aa8a37aeb76333eaabde4698b391d5eaf70faade02ab7),
    (testIdentifier,
      word 32 0x3f6de6deeab711d4886761c7a91d111afc573d196f62a094104ffaf804bf8344),
    (List.replicate 32 42,
      word 32 0x544e62cee8033709e389e5b2755343d0d0fa8c4850215cfb6331717e80d1aea3),
    (texts ["[\"a\",\"b\"]"],
      word 32 0x0473ef2dc0d324ab659d3580c1134e9d812035905c4781fdd6d529b0c6860e13),
    (texts ["[\"a, b\"]"],
      word 32 0x28897c2d4545e2827873d0087f45766f7e3a0b684a9b116293d7b9c9803369cc),
    (texts ["\x7b\"bodyHash\":\"e3b0c44298fc1c149afbf4c8996fb92427ae41e4649b934ca495991b7852",
      "b855\",\"domain\":\"x402:exact:lnbtc:bolt11:geata:http:2\",\"headers\":[\x7b\"n",
      "ame\":\"accept\",\"valueHash\":\"0473ef2dc0d324ab659d3580c1134e9d812035905c4781",
      "fdd6d529b0c6860e13\"\x7d],\"method\":\"GET\",\"url\":\"https://api.example.com/",
      "\"\x7d"],
      word 32 0x6021feb0c3db633e7f3f63487435cbbf70f1dffa8872e5d38eda36479c75a204),
    (texts ["\x7b\"bodyHash\":\"e3b0c44298fc1c149afbf4c8996fb92427ae41e4649b934ca495991b7852",
      "b855\",\"domain\":\"x402:exact:lnbtc:bolt11:geata:http:2\",\"headers\":[\x7b\"n",
      "ame\":\"accept\",\"valueHash\":\"28897c2d4545e2827873d0087f45766f7e3a0b684a9b11",
      "6293d7b9c9803369cc\"\x7d],\"method\":\"GET\",\"url\":\"https://api.example.com/",
      "\"\x7d"],
      word 32 0xfb5f8290e09d169b9fddf8ad5d3bfaf8dfc43beea2df588afa6ef2348d205980)]

theorem testDigests_injective : Function.Injective (hashTable testDigests) :=
  hashTable_injective (by decide +kernel) (by decide +kernel)

def testPredicates : List (List UInt8) :=
  (L402.predicates (hashTable testDigests) testPolicy testHash 1700003661).map bytes

/-- The macaroon of the challenge, from a root and a way to authenticate. -/
def testMacaroon {κ : Type} (hmac : κ → List UInt8 → κ) (root : κ) : Macaroon κ where
  identifier := testIdentifier
  caveats := testPredicates.map .firstParty
  signature := testPredicates.foldl hmac (hmac root testIdentifier)

/-- Its V2 form. -/
def testBinary : List UInt8 :=
  [0x0202420000544e62cee8033709e389e5b2755343d0d0fa8c4850215cfb633171,
    0x7e80d1aea3000102030405060708090a0b0c0d0e0f101112131415161718191a,
    0x1b1c1d1e1f00021073657276696365733d67656174613a3000024e6765617461,
    0x5f726571756573743d6235656565336363353163666161626339313637663039,
    0x3164303730653633666231383063323266353336633931356230623862656130,
    0x32656534303830323000024c67656174615f7465726d733d3663663161333533,
    0x3735313832636562656238616138613337616562373633333365616162646534,
    0x36393862333931643565616637306661616465303261623700021c6765617461,
    0x5f76616c69645f756e74696c3d3137303030303336363100000620aeba425bcd].flatMap (word 32) ++
    word 27 0x93fed5e199718cb155058b2294523f4c503e3213fc081ec75dfe82

def testPayment : Payment where
  x402Version := 2
  accepted := testPolicy.requirements testHash testInvoiceText
  payload := { preimage := hex (List.replicate 32 42) }

def testPaymentJson : List UInt8 :=
  texts ["\x7b\"x402Version\":2,\"accepted\":\x7b\"scheme\":\"exact\",\"network\":\"lnbtc:0",
    "00000000933ea01ad0ee984209779ba\",\"amount\":\"25000\",\"asset\":\"BTC\",\"payTo",
    "\":\"035c4e0dec7215e26833938730e5e505aa62504da85ba57106a46b5a2404fc9d8e\",\"maxTi",
    "meoutSeconds\":3600,\"extra\":\x7b\"assetTransferMethod\":\"bolt11\",\"paymentFlo",
    "w\":\"upfront\",\"requestHash\":\"b5eee3cc51cfaabc9167f091d070e63fb180c22f536c915",
    "b0b8bea02ee408020\",\"requestBindingProfile\":\"http:1\",\"requestBindingParams\"",
    ":\x7b\"headers\":[]\x7d,\"invoice\":\"lntb250n1pj48ugqpp5238x9nhgqvmsncufuke8256r",
    "6rg04rzg2qs4e7mrx9chaqx3463ssp5qurswpc8qurswpc8qurswpc8qurswpc8qurswpc8qurswpc8qu",
    "rshp5khhw8nz3e74teyt87zgaqu8x87ccps302dkfzkct304q9mjqsqsqxqrrss9qrsgqlcvmnm9whycs",
    "u0ky2hzcd3m9vennkvk5254w8gdfzgvsysdfax0qphzfdmk2g87j0mjycunu7hmhpm0pa54zw65h23fc6",
    "qqltmkf7mqp477nes\"\x7d\x7d,\"payload\":\x7b\"preimage\":\"2a2a2a2a2a2a2a2a2a2a2a",
    "2a2a2a2a2a2a2a2a2a2a2a2a2a2a2a2a2a2a2a2a2a\"\x7d\x7d"]

/-- The crates, as they act on this challenge. -/
def testCrates {κ : Type} [DecidableEq κ] (hmac : κ → List UInt8 → κ) (root : κ) :
    L402.Crates κ where
  sha256 := hashTable testDigests
  parseInvoice s := if s = testInvoiceText then some testInvoice else none
  checkSignature i := decide (i = testInvoice)
  base64Encode b := String.ofList (base64 b)
  base64Decode s :=
    if s = String.ofList (base64 testBinary) then some testBinary
    else if s = String.ofList (base64 testPaymentJson) then some testPaymentJson
    else none
  parsePayment b := if b = testPaymentJson then some testPayment else none
  hmac := hmac
  deserializeBinary b := if b = testBinary then some (testMacaroon hmac root) else none
  deserializeJson id ps signature := some ⟨id, (ps.map bytes).map .firstParty, signature⟩
  serializeV2 m := if m = testMacaroon hmac root then some testBinary else none
  verifier m root ps := decide (m.caveats = ps.map .firstParty ∧
    m.signature = ps.foldl hmac (hmac root m.identifier))

theorem testCrates_readsJson {κ : Type} [DecidableEq κ] (hmac : κ → List UInt8 → κ) (root : κ) :
    (testCrates hmac root).ReadsJson := by
  intro id ps signature m h
  exact (Option.some.inj h).symm

theorem testCrates_acceptsChains {κ : Type} [DecidableEq κ] (hmac : κ → List UInt8 → κ)
    (root : κ) : (testCrates hmac root).AcceptsChains := by
  intro m root ps hcaveats hsig
  exact decide_eq_true ⟨hcaveats, hsig⟩

/-- The credential of the challenge. -/
def testCredential {κ : Type} (hmac : κ → List UInt8 → κ) (root : κ) : L402.Credential κ where
  identifier := testIdentifier
  root := root
  validBefore := 1700003661
  macaroon := testMacaroon hmac root
  encoded := String.ofList (base64 testBinary)

theorem testCredential_ok {κ : Type} [DecidableEq κ] (hmac : κ → List UInt8 → κ) (root : κ) :
    L402.credential (testCrates hmac root) testPolicy testHash testInvoice root testNonce
      = .ok (testCredential hmac root) := by
  have hvb : L402.validBefore testInvoice = some 1700003661 := by decide
  have hv2 : (testCrates hmac root).serializeV2 (testMacaroon hmac root) = some testBinary := by
    simp only [testCrates, if_true]
  simp only [L402.credential, hvb, bind_eq_ok, context_eq_ok, pure_eq_ok]
  exact ⟨_, rfl, testMacaroon hmac root, rfl, testBinary, hv2, rfl⟩

theorem testCrates_roundTrips {κ : Type} [DecidableEq κ] (hmac : κ → List UInt8 → κ) (root : κ) :
    (testCrates hmac root).RoundTrips (testMacaroon hmac root) := by
  have hv2 : ∀ b, (testCrates hmac root).serializeV2 (testMacaroon hmac root) = some b →
      testBinary = b := by
    intro b hb
    simp only [testCrates, if_true] at hb
    exact Option.some.inj hb
  refine ⟨?_, ?_, ?_, ?_⟩ <;> intro b hb <;> obtain rfl := hv2 b hb
  · decide +kernel
  · simp only [testCrates, if_true]
  · simp only [testCrates, if_true]
  · show ':' ∉ (String.ofList (base64 testBinary)).toList
    rw [String.toList_ofList]
    exact colon_not_mem_base64 testBinary

/-- The header with the preimage is small. -/
theorem testCredential_size {κ : Type} (hmac : κ → List UInt8 → κ) (root : κ) :
    ((testCredential hmac root).header (List.replicate 32 42)).utf8ByteSize
      ≤ MAX_PAYMENT_HEADER := by
  have h₁ := utf8_length_le (base64 testBinary)
  have h₂ := utf8_length_le ((List.replicate 32 42).flatMap hexByte)
  have hb : (base64 testBinary).length = 420 := by decide +kernel
  have hp : ((List.replicate 32 (42 : UInt8)).flatMap hexByte).length = 64 := by decide +kernel
  have hmax : MAX_PAYMENT_HEADER = 24576 := rfl
  have hcolon : ":".utf8ByteSize = 1 := by decide
  simp only [L402.Credential.header, testCredential, hex, String.utf8ByteSize_append,
    utf8ByteSize_ofList, hmax, hcolon]
  omega

theorem testPreimage_ok : hashTable testDigests (List.replicate 32 42) = testPaymentHash := by
  decide +kernel

/-- The root of the test credential. -/
def L402.testRoot : List UInt8 := List.replicate 32 11

/-- HMAC-SHA256 along the chain of the test credential. -/
def L402.testHmac (key message : List UInt8) : List UInt8 :=
  match [((L402.testRoot, testIdentifier),
      word 32 0xfc792394f18de6468d0fd9a3cf2b1e657efefd494702074ff876828115fe0b54),
    ((word 32 0xfc792394f18de6468d0fd9a3cf2b1e657efefd494702074ff876828115fe0b54,
        bytes L402.servicesCaveat),
      word 32 0xc59084881824e66286c3c3d71df6218e2b635938a1fbfbe6be4592dd509a0f26),
    ((word 32 0xc59084881824e66286c3c3d71df6218e2b635938a1fbfbe6be4592dd509a0f26,
        bytes (L402.requestCaveat testHash)),
      word 32 0x7df760b1a9179406dd65bf4c3dde2c1856c6a9d1bbc71c34fe514c72ac2da772),
    ((word 32 0x7df760b1a9179406dd65bf4c3dde2c1856c6a9d1bbc71c34fe514c72ac2da772,
        bytes (L402.termsCaveat (hashTable testDigests) testPolicy testHash)),
      word 32 0xdd9bcfa1d084dc8baf622096089a10646c4566bb67da4090afea390bf7c00747),
    ((word 32 0xdd9bcfa1d084dc8baf622096089a10646c4566bb67da4090afea390bf7c00747,
        bytes (L402.expiryCaveat 1700003661)),
      word 32 0xaeba425bcd93fed5e199718cb155058b2294523f4c503e3213fc081ec75dfe82)].lookup
      (key, message) with
  | some code => code
  | none => []

/-- **Payments are bound to their request.**  With a collision-free hash, two requests get the
    same hash exactly when method, URL, body, the bound names and the raw values under each bound
    name agree; and neither an x402 payment nor an unmodified credential made for one of them is
    accepted for the other unless they agree in that and in price, network and receiver. -/
theorem payments_are_bound {κ : Type} [DecidableEq κ] (X : L402.Crates κ)
    (hsha : Function.Injective X.sha256) (hjson : X.ReadsJson) {p p' : Policy}
    {method method' url url' hash hash' : String} {headers headers' : HeaderMap}
    {body body' : List UInt8} (h : requestHash X.sha256 p method url headers body = .ok hash)
    (h' : requestHash X.sha256 p' method' url' headers' body' = .ok hash') :
    (hash = hash' ↔ SameBinding p p' method method' url url' headers headers' body body') ∧
    (∀ encoded time result, IssuedX402 X.toCrates p hash encoded →
      verify X.toCrates p' hash' encoded time = .ok result →
      SameBinding p p' method method' url url' headers headers' body body' ∧
        SameTerms p p' hash hash') ∧
    (∀ macaroon preimage root validBefore time, L402.Issued X p hash macaroon →
      L402.verify X p' hash' macaroon preimage root validBefore time = .ok () →
      SameBinding p p' method method' url url' headers headers' body body' ∧
        SameTerms p p' hash hash' ∧ p.receiver.mint? = p'.receiver.mint?) := by
  have hiff := requestHash_eq_iff_sameBinding hsha h h'
  refine ⟨hiff, ?_, ?_⟩
  · intro encoded time result hissued hok
    have hterms := sameTerms_of_verify hissued hok
    exact ⟨hiff.mp hterms.hash, hterms⟩
  · intro macaroon preimage root validBefore time hissued hok
    obtain ⟨hterms, hmint⟩ := L402.sameTerms_of_l402_verify hsha hjson hissued hok
    exact ⟨hiff.mp hterms.hash, hterms, hmint⟩

/-- The test policy with a bound header. -/
def testBoundPolicy : Policy := { testPolicy with headers := ["accept"] }

/-- Two occurrences of a bound header and their joined form are different requests. -/
theorem payments_are_bound_accept :
    requestHash (hashTable testDigests) testBoundPolicy "GET" "https://api.example.com/"
        [("accept", bytes "a"), ("accept", bytes "b")] []
      = .ok "6021feb0c3db633e7f3f63487435cbbf70f1dffa8872e5d38eda36479c75a204" ∧
    requestHash (hashTable testDigests) testBoundPolicy "GET" "https://api.example.com/"
        [("accept", bytes "a, b")] []
      = .ok "fb5f8290e09d169b9fddf8ad5d3bfaf8dfc43beea2df588afa6ef2348d205980" ∧
    ¬ SameBinding testBoundPolicy testBoundPolicy "GET" "GET" "https://api.example.com/"
      "https://api.example.com/" [("accept", bytes "a"), ("accept", bytes "b")]
      [("accept", bytes "a, b")] [] [] := by
  have h : requestHash (hashTable testDigests) testBoundPolicy "GET" "https://api.example.com/"
        [("accept", bytes "a"), ("accept", bytes "b")] []
      = .ok "6021feb0c3db633e7f3f63487435cbbf70f1dffa8872e5d38eda36479c75a204" := by
    decide +kernel
  have h' : requestHash (hashTable testDigests) testBoundPolicy "GET" "https://api.example.com/"
        [("accept", bytes "a, b")] []
      = .ok "fb5f8290e09d169b9fddf8ad5d3bfaf8dfc43beea2df588afa6ef2348d205980" := by
    decide +kernel
  refine ⟨h, h', fun hsame => ?_⟩
  have hiff := (payments_are_bound (testCrates L402.testHmac L402.testRoot) testDigests_injective
    (testCrates_readsJson _ _) h h').1
  exact absurd (hiff.mpr hsame) (by decide)

/-! ### Unforgeability

Signatures are read as symbolic terms: a root is a fresh secret, a code is a free constructor.
What an adversary has been shown are the signatures of the credentials issued so far. -/

namespace L402

/-- Symbolic keys and signatures. -/
abbrev Key : Type := Term ℕ (List UInt8)

/-- HMAC is the free constructor. -/
def Crates.Symbolic (X : Crates Key) : Prop := ∀ k m, X.hmac k m = Term.code k m

/-- A credential as it was issued: for which request, under which policy, from which secret. -/
structure Issue where
  policy : Policy
  hash : String
  parsed : Bolt11Invoice
  secret : ℕ
  nonce : List UInt8
  credential : Credential Key

/-- The issued record is one that `mint_l402` makes. -/
def Issue.Minted (X : Crates Key) (c : Issue) : Prop :=
  L402.credential X c.policy c.hash c.parsed (.secret c.secret) c.nonce = .ok c.credential

/-- The four predicates a credential was issued with. -/
def Issue.predicates (X : Crates Key) (c : Issue) : List (List UInt8) :=
  (L402.predicates X.sha256 c.policy c.hash c.credential.validBefore).map bytes

/-- What an issued credential looks like. -/
theorem Issue.Minted.spec {X : Crates Key} (hjson : X.ReadsJson) {c : Issue} (h : c.Minted X) :
    c.credential.root = .secret c.secret ∧
      c.credential.identifier = identifier c.parsed.paymentHash c.nonce ∧
      c.credential.macaroon.signature =
        sign X (.secret c.secret) c.credential.identifier (c.predicates X) := by
  obtain ⟨hroot, hid, -, -, hm, -⟩ := credential_ok hjson h
  refine ⟨hroot, hid, ?_⟩
  rw [hm, Issue.predicates]

/-- The database together with all credentials issued so far.  A credential is issued from a
    fresh secret and only after its root is stored; pruning and the transactions on the other
    tables can come at any time. -/
inductive Journal (X : Crates Key) : Store Key → List Issue → Prop where
  | empty : Journal X {} []
  | mint {s s' : Store Key} {issued : List Issue} {c : Issue} (h : Journal X s issued)
      (hfresh : ∀ c' ∈ issued, c'.secret ≠ c.secret) (hminted : c.Minted X)
      (hinsert : s.insertRoot (digest X.sha256 c.credential.identifier)
        (c.credential.root, c.credential.validBefore) = .ok s') :
      Journal X s' (c :: issued)
  | prune {s : Store Key} {issued : List Issue} (h : Journal X s issued) (time : ℕ) :
      Journal X (s.prune time) issued
  | other {s s' : Store Key} {issued : List Issue} (h : Journal X s issued)
      (hroots : s'.roots = s.roots) : Journal X s' issued

/-- What holds of a journal: every root is that of an issued credential, and no two credentials
    share a secret. -/
structure Journal.Sound (X : Crates Key) (s : Store Key) (issued : List Issue) : Prop where
  minted : ∀ c ∈ issued, c.Minted X
  roots : ∀ key record, s.roots.lookup key = some record → ∃ c ∈ issued,
    key = digest X.sha256 c.credential.identifier ∧
      record = (c.credential.root, c.credential.validBefore)
  fresh : ∀ c ∈ issued, ∀ c' ∈ issued, c.secret = c'.secret → c = c'

theorem Journal.sound {X : Crates Key} {s : Store Key} {issued : List Issue}
    (h : Journal X s issued) : Journal.Sound X s issued := by
  induction h with
  | empty => exact ⟨by simp, by simp, by simp⟩
  | @mint s s' issued c _ hfresh hminted hinsert ih =>
    obtain ⟨-, rfl⟩ := Store.insertRoot_ok hinsert
    refine ⟨?_, ?_, ?_⟩
    · intro d hd
      rcases List.mem_cons.mp hd with rfl | hd
      · exact hminted
      · exact ih.minted d hd
    · intro key record hlookup
      rw [Table.lookup_insert_eq] at hlookup
      split at hlookup
      · rename_i hkey
        exact ⟨c, List.mem_cons_self, hkey, (Option.some.inj hlookup).symm⟩
      · obtain ⟨d, hd, hkey, hrec⟩ := ih.roots key record hlookup
        exact ⟨d, List.mem_cons_of_mem _ hd, hkey, hrec⟩
    · intro d hd d' hd' heq
      rcases List.mem_cons.mp hd with rfl | hold
      · rcases List.mem_cons.mp hd' with rfl | hold'
        · rfl
        · exact absurd heq.symm (hfresh d' hold')
      · rcases List.mem_cons.mp hd' with rfl | hold'
        · exact absurd heq (hfresh d hold)
        · exact ih.fresh d hold d' hold' heq
  | prune _ time ih =>
    refine ⟨ih.minted, ?_, ih.fresh⟩
    intro key record hlookup
    exact ih.roots key record (Store.lookup_roots_prune.mp hlookup).1
  | other _ hroots ih =>
    refine ⟨ih.minted, ?_, ih.fresh⟩
    rw [hroots]
    exact ih.roots

/-- The signatures an adversary has been shown. -/
def Seen (issued : List Issue) (t : Key) : Prop :=
  ∃ c ∈ issued, t = c.credential.macaroon.signature

/-- Everything shown is a chain from a root over the identifier and the four predicates. -/
theorem seen_onlyChains {X : Crates Key} (hsym : X.Symbolic) (hjson : X.ReadsJson)
    {issued : List Issue} (hminted : ∀ c ∈ issued, c.Minted X) :
    Term.OnlyChains (Seen issued) (fun n ms => ∃ c ∈ issued, c.secret = n ∧
      ms = c.credential.identifier :: c.predicates X) := by
  have hhmac : X.hmac = Term.code := funext (fun k => funext (hsym k))
  rintro t ⟨c, hc, rfl⟩
  obtain ⟨-, -, hsig⟩ := (hminted c hc).spec hjson
  refine ⟨c.secret, c.credential.identifier :: c.predicates X, by simp, ⟨c, hc, rfl, rfl⟩, ?_⟩
  rw [hsig, sign, hhmac]
  rfl

/-- **Credentials cannot be forged or widened.**  Whatever macaroon an adversary derives from the
    signatures issued so far, if it parses, its root is found and it verifies, then it carries the
    identifier of an issued credential, that credential's four predicates in order and possibly
    more after them; request and terms are those it was issued for, its stored end lies ahead, and
    the preimage belongs to the payment hash in the identifier. -/
theorem credentials_cannot_be_widened (X : Crates Key) (hsym : X.Symbolic)
    (hsha : Function.Injective X.sha256) (hjson : X.ReadsJson) {s : Store Key}
    {issued : List Issue} (hjournal : Journal X s issued) {encoded : String}
    {macaroon : Macaroon Key} {preimage : List UInt8} {policy : Policy} {hash : String}
    {root : Key} {validBefore time : ℕ}
    (hparse : parseCredential X encoded = .ok (macaroon, preimage))
    (hadversary : Term.Knows (Seen issued) macaroon.signature)
    (hlookup : s.roots.lookup (digest X.sha256 macaroon.identifier) = some (root, validBefore))
    (hverify : verify X policy hash macaroon preimage root validBefore time = .ok ()) :
    ∃ c ∈ issued, macaroon.identifier = c.credential.identifier ∧
      (∃ appended, macaroon.caveats = (c.predicates X ++ appended).map .firstParty) ∧
      hash = c.hash ∧ SameTerms c.policy policy c.hash hash ∧
      c.policy.receiver.mint? = policy.receiver.mint? ∧
      time < c.credential.validBefore ∧
      X.sha256 preimage = (c.credential.identifier.drop 2).take 32 ∧
      (c.credential.identifier.drop 2).take 32 = c.parsed.paymentHash := by
  have hsound := hjournal.sound
  have hhmac : X.hmac = Term.code := funext (fun k => funext (hsym k))
  -- The root that was found belongs to the credential with this identifier.
  obtain ⟨c, hc, hkey, hrecord⟩ := hsound.roots _ _ hlookup
  have hid : macaroon.identifier = c.credential.identifier := digest_injective hsha hkey
  obtain ⟨hroot, hcid, -⟩ := (hsound.minted c hc).spec hjson
  obtain ⟨rfl, rfl⟩ := Prod.mk.inj hrecord
  obtain ⟨ps, hv⟩ := verified_of_verify hverify
  -- The verified signature is a chain from its secret, so it extends a chain that was shown.
  have hchain : macaroon.signature =
      Term.chain (.secret c.secret) (c.credential.identifier :: ps) := by
    rw [hv.signature, hroot, hid, sign, hhmac]
    rfl
  rw [hchain] at hadversary
  obtain ⟨ms, ⟨c', hc', hsecret, rfl⟩, -, hfront⟩ :=
    hadversary.chain_prefix (seen_onlyChains hsym hjson hsound.minted)
  obtain rfl := hsound.fresh c' hc' c hc hsecret
  obtain ⟨appended, happended⟩ := (List.cons_prefix_cons.mp hfront).2
  have hsub : ∀ text ∈ predicates X.sha256 c'.policy c'.hash c'.credential.validBefore,
      bytes text ∈ ps := by
    intro text htext
    rw [← happended]
    exact List.mem_append_left _ (List.mem_map_of_mem htext)
  obtain ⟨hhash, hterms⟩ := hv.issuedFor hsub
  obtain ⟨hsame, hmint⟩ := sameTerms_of_terms hsha hterms
  refine ⟨c', hc, hid, ⟨appended, ?_⟩, hhash.symm, hsame, hmint, hv.live, ?_, ?_⟩
  · rw [happended]; exact hv.caveats
  · rw [← hid]; exact sha256_of_parseCredential hparse
  · rw [hcid]; exact paymentHash_identifier _ _

/-- The test credential, issued from the first secret. -/
def testIssue : Issue where
  policy := testPolicy
  hash := testHash
  parsed := testInvoice
  secret := 0
  nonce := testNonce
  credential := testCredential Term.code (.secret 0)

/-- The database after the test credential was issued. -/
def testStore : Store Key :=
  { roots := (∅ : Table (Key × ℕ)).insert (digest (hashTable testDigests) testIdentifier)
      (.secret 0, 1700003661) }

/-- The issued credential itself, presented with the preimage. -/
theorem credentials_cannot_be_widened_issued :
    ∃ c ∈ [testIssue], testIdentifier = c.credential.identifier ∧ testHash = c.hash ∧
      1700000500 < c.credential.validBefore := by
  have hjson := testCrates_readsJson Term.code (.secret 0 : Key)
  have hjournal : Journal (testCrates Term.code (.secret 0)) testStore [testIssue] :=
    .mint .empty (by simp) (testCredential_ok _ _) rfl
  have hlen : (List.replicate 32 (42 : UInt8)).length = 32 := List.length_replicate
  have hparse := parseCredential_header hjson (testCredential_ok Term.code (.secret 0))
    (testCrates_roundTrips _ _) (by decide) hlen testPreimage_ok (testCredential_size _ _)
  have hlookup : testStore.roots.lookup (digest (hashTable testDigests) testIdentifier)
      = some (.secret 0, 1700003661) := AList.lookup_insert _
  have hverify : verify (testCrates Term.code (.secret 0)) testPolicy testHash
      (testMacaroon Term.code (.secret 0)) (List.replicate 32 42) (.secret 0) 1700003661 1700000500
      = .ok () :=
    (verify_issued_iff (testCrates_acceptsChains Term.code (.secret 0)) (by decide)).mpr (by decide)
  obtain ⟨c, hc, hid, -, hhash, -, -, hlive, -⟩ := credentials_cannot_be_widened
    (testCrates Term.code (.secret 0)) (fun _ _ => rfl) testDigests_injective hjson hjournal
    hparse (.seen ⟨testIssue, List.mem_singleton.mpr rfl, rfl⟩) hlookup hverify
  exact ⟨c, hc, hid, hhash, hlive⟩

end L402

end Geata.Lightning
