import Geata.Lib.Final
import Geata.Service.SingleUse

namespace Geata.Service

open Geata.Lib Geata.Lightning Geata.Payments

/-!
# From the invoice of a mint to its deposit

What a run keeps of a mint-backed invoice, from the challenge to the admission.

* `advertised_collectable` — the association of an advertised invoice stays as it was stored until
  the invoice is over, and every credential that verifies for it finds it.
* `recovery_surveys_every_mint` — a recovery pass visits every mint that was ever asked.
* `admissions_backed` — every admission by a mint-backed credential has a deposit of its own.
-/

variable {κ : Type}

/-! ### Advertised invoices -/

/-- A macaroon carries a credential: its identifier, and its caveats among others. -/
structure Carries (macaroon : Macaroon κ) (credential : L402.Credential κ) : Prop where
  identifier : macaroon.identifier = credential.identifier
  caveats : credential.macaroon.caveats ⊆ macaroon.caveats

/-- A carried credential is accepted only for the request, the terms and the mint it was issued
    for. -/
theorem Carries.sameTerms [DecidableEq κ] {X : L402.Crates κ} (hsha : Function.Injective X.sha256)
    (hjson : X.ReadsJson) {p p' : Policy} {hash hash' : String} {parsed : Bolt11Invoice} {r : κ}
    {nonce : List UInt8} {credential : L402.Credential κ} {macaroon : Macaroon κ}
    (hcarries : Carries macaroon credential)
    (hissued : L402.credential X p hash parsed r nonce = .ok credential) {preimage : List UInt8}
    {root : κ} {validBefore time : ℕ}
    (h : L402.verify X p' hash' macaroon preimage root validBefore time = .ok ()) :
    SameTerms p p' hash hash' ∧ p.receiver.mint? = p'.receiver.mint? := by
  obtain ⟨-, -, -, -, hm, -⟩ := L402.credential_ok hjson hissued
  obtain ⟨ps, hv⟩ := L402.verified_of_verify h
  have hsub : ∀ text ∈ L402.predicates X.sha256 p hash credential.validBefore, bytes text ∈ ps := by
    intro text htext
    have hmem : Caveat.firstParty (bytes text) ∈ macaroon.caveats := by
      apply hcarries.caveats
      rw [hm]
      exact List.mem_map_of_mem (List.mem_map_of_mem htext)
    rw [hv.caveats] at hmem
    obtain ⟨predicate, hpredicate, heq⟩ := List.mem_map.mp hmem
    rwa [← Caveat.firstParty.inj heq]
  exact L402.sameTerms_of_terms hsha (hv.issuedFor hsub).2

/-- The tables as `settle_l402` and the recovery pass need them for an advertised invoice. -/
structure Collectable [DecidableEq κ] (X : Service.Crates κ) (policy : Policy) (mint hash : String)
    (quote : MintQuote) (invoice : Bolt11Invoice) (store : Store κ) : Prop where
  row : store.quotes.lookup (replayKey policy.receiver.network invoice.paymentHash)
    = some (depositOf policy mint quote)
  remembered : (store.mints.lookup mint).isSome = true
  /-- whatever a credential for the invoice is accepted for, its deposit is found and fits -/
  deposit : ∀ root nonce credential,
    L402.credential X.l402 policy hash invoice root nonce = .ok credential →
    ∀ policy' hash' macaroon preimage root' validBefore time, Carries macaroon credential →
      L402.verify X.l402 policy' hash' macaroon preimage root' validBefore time = .ok () →
      policy'.receiver.mint? = some mint ∧
        checkDeposit policy' mint
          (store.quotes.lookup (L402.credentialKey policy' macaroon.identifier))
            = .ok (depositOf policy mint quote)

variable {X : Service.Crates κ} {out : Outside}

/-- The row of an advertised invoice is all that its credentials need. -/
theorem collectable_of_row [DecidableEq κ] (hsha : Function.Injective X.sha256)
    (hjson : X.l402.ReadsJson) {policy : Policy} {mint hash : String} {quote : MintQuote}
    {invoice : Bolt11Invoice} {store : Store κ} (hmint : policy.receiver.mint? = some mint)
    (hrow : store.quotes.lookup (replayKey policy.receiver.network invoice.paymentHash)
      = some (depositOf policy mint quote))
    (hmints : (store.mints.lookup mint).isSome = true) :
    Collectable X policy mint hash quote invoice store := by
  refine ⟨hrow, hmints, ?_⟩
  intro root nonce credential hissued policy' hash' macaroon preimage root' validBefore time hcarries
    hverify
  obtain ⟨hterms, hsame⟩ := hcarries.sameTerms hsha hjson hissued hverify
  have hkey : L402.credentialKey policy' macaroon.identifier
      = replayKey policy.receiver.network invoice.paymentHash := by
    rw [L402.credentialKey, hcarries.identifier, (credential_record hissued).2.1,
      L402.paymentHash_identifier, hterms.network]
  refine ⟨hsame.symm.trans hmint, ?_⟩
  rw [hkey, hrow]
  refine checkDeposit_ok.mpr ⟨rfl, rfl, ?_⟩
  show policy.amountSat = policy'.amountSat
  rw [Policy.amountSat, Policy.amountSat, hterms.amount]

/-- A stored association is that of the invoice it names. -/
theorem exists_invoice_of_row {s : System κ} (hrec : Recorded X out s) {key : String}
    {deposit : Deposit} (hrow : s.store.quotes.lookup key = some deposit) :
    ∃ invoice network, X.parseInvoice deposit.invoice = some invoice ∧
      key = replayKey network invoice.paymentHash ∧ invoice.currency = network.currency := by
  have hinserted : ∃ d, .inserted key d ∈ s.history ∧ d.invoice = deposit.invoice := by
    rcases hrec.quotes key deposit hrow with ⟨hinserted, -⟩ | ⟨d, hretired, rfl⟩
    · exact ⟨deposit, hinserted, rfl⟩
    · obtain ⟨past, hsuffix, hinserted, -⟩ := hrec.justified.mem hretired
      exact ⟨d, mem_of_cons_suffix hsuffix hinserted, rfl⟩
  obtain ⟨d, hinserted, hinvoice⟩ := hinserted
  obtain ⟨past, -, quote, invoice, network, hassociates⟩ := hrec.justified.mem hinserted
  refine ⟨invoice, network, ?_, hassociates.key, hassociates.currency⟩
  rw [← hinvoice]
  exact hassociates.parsed

/-- When every key is that of a parsed mint, each mint comes with its associated quotes. -/
theorem surveyMints_eq {X : Payments.Crates} {store : Store κ} {keys seen : List String}
    (hparse : ∀ key ∈ keys, X.parseMint key = some key) (hnodup : keys.Nodup)
    (hseen : ∀ key ∈ keys, key ∉ seen) :
    System.surveyMints X store seen keys
      = some (keys.map (fun mint => (mint, System.associated store mint))) := by
  induction keys generalizing seen with
  | nil => rfl
  | cons key rest ih =>
    obtain ⟨hnew, hnodup⟩ := List.nodup_cons.mp hnodup
    have hrest := @ih (key :: seen) (fun k hk => hparse k (List.mem_cons_of_mem _ hk)) hnodup
      (fun k hk hmem => by
        rcases List.mem_cons.mp hmem with rfl | hmem
        · exact hnew hk
        · exact hseen k (List.mem_cons_of_mem _ hk) hmem)
    simp only [System.surveyMints, hparse key (List.mem_cons_self ..), hrest, Option.bind_eq_bind,
      Option.bind_some, Option.pure_def, List.map_cons,
      if_neg (hseen key (List.mem_cons_self ..))]

variable [DecidableEq κ]

/-- The history of a run only goes on. -/
theorem later_of_steps {w w' : World (ServiceSig κ) (System κ) Request Answer}
    (h : World.Reachable (machine X out) w) (hs : World.Steps (machine X out) w w') :
    Later w.shared w'.shared := by
  have hvisited : ∀ v : World (ServiceSig κ) (System κ) Request Answer,
      World.Reachable (machine X out) v → Visited X out v.shared := fun v hv => ⟨v, hv, rfl⟩
  exact (records X out (Visited X out)).hist_steps (h.within hvisited) (h.steps_within hvisited hs)

/-- **An advertised mint-backed invoice stays collectable.**  From the moment a challenge of a mint
    is answered until its invoice is over, the association is there as it was stored, the mint is
    remembered, and no credential for the invoice that verifies can miss its deposit.  No cleanup pass
    begins while a write of one that was cut off is still to come. -/
theorem advertised_collectable (hone : ¬ out.overtakes) (hsha : Function.Injective X.sha256)
    (hjson : X.l402.ReadsJson)
    {w : World (ServiceSig κ) (System κ) Request Answer} (h : World.Reachable (machine X out) w)
    {i : ℕ} {policy : Policy} {url hash mint : String} {client : IpAddr} {c : Challenge}
    (hreturned : (i, .challenge policy url hash client, .challenged (.ok c)) ∈ w.returned)
    (hmint : policy.receiver.mint? = some mint) :
    ∃ quote invoice, out.quotes mint quote ∧ X.parseInvoice quote.request = some invoice ∧
      (∀ header, c.l402 = some header →
        Offers X policy hash quote.request invoice header w.shared) ∧
      ∀ w', World.Steps (machine X out) w w' → w'.shared.clock < invoice.retainUntil →
        Collectable X policy mint hash quote invoice w'.shared.store := by
  obtain ⟨quote, invoice, hadvertised, hoffers⟩ := (records_sound h).returned _ hreturned mint hmint
  refine ⟨quote, invoice, hadvertised.quoted, hadvertised.parses, hoffers, fun w' hs hlive => ?_⟩
  have hadvertised := hadvertised.later (later_of_steps h hs)
  have hrec : Recorded X out w'.shared := (records_sound (h.steps hs)).inv
  refine collectable_of_row hsha hjson hmint ?_ ((hrec.mints mint).mpr hadvertised.remembered)
  apply (association_stays hone (h.steps hs) hadvertised.inserted).resolve_right
  -- the invoice of the association is not over
  intro hover
  exact absurd (hover invoice hadvertised.parses) (Nat.not_le.mpr hlive)

/-! ### A challenge of a mint -/

/-- The mint of the test instance. -/
def testMint : String := "https://mint.example"

def testMintPolicy : Policy :=
  { testPolicy with
    receiver := .cashu testMint .testnet
    protocols := { x402 := false, l402 := true } }

/-- The terms digest of the policy, besides those of the test challenge. -/
def testMintDigests : List (List UInt8 × List UInt8) :=
  (texts ["\x7b\"mint\":\"https://mint.example\",\"terms\":\x7b\"amount\":\"25000\",\"asset\":\"BTC\",",
      "\"extra\":\x7b\"assetTransferMethod\":\"bolt11\",\"invoice\":\"\",\"paymentFlow\":\"upfront\",",
      "\"requestBindingParams\":\x7b\"headers\":[]\x7d,\"requestBindingProfile\":\"http:1\",",
      "\"requestHash\":\"b5eee3cc51cfaabc9167f091d070e63fb180c22f536c915b0b8bea02ee408020\"\x7d,",
      "\"maxTimeoutSeconds\":0,\"network\":\"lnbtc:000000000933ea01ad0ee984209779ba\",",
      "\"payTo\":\"\",\"scheme\":\"exact\"\x7d\x7d"],
    word 32 0x0ae69d9fd988f3f1c6f61e91886c5d883f12166001cdc22a8e6ea31ce65b7db3) :: testDigests

theorem testMintDigests_injective : Function.Injective (hashTable testMintDigests) :=
  hashTable_injective (by decide +kernel) (by decide +kernel)

/-- HMAC-SHA256 along the chain of the credential. -/
def testMintHmac (key message : List UInt8) : List UInt8 :=
  match [((word 32 0x7df760b1a9179406dd65bf4c3dde2c1856c6a9d1bbc71c34fe514c72ac2da772,
        bytes (L402.termsCaveat (hashTable testMintDigests) testMintPolicy testHash)),
      word 32 0xee05450f010a8b2f83663ff398a4c3ef37b15c41ee6df1679c7288a25cea9c69),
    ((word 32 0xee05450f010a8b2f83663ff398a4c3ef37b15c41ee6df1679c7288a25cea9c69,
        bytes (L402.expiryCaveat 1700003661)),
      word 32 0xf4a102491ae09c3e70f46a8ea26b4ab7ed3c88efdba9eb39e00967ccf5b4558d)].lookup
      (key, message) with
  | some code => code
  | none => L402.testHmac key message

def testMintPredicates : List (List UInt8) :=
  (L402.predicates (hashTable testMintDigests) testMintPolicy testHash 1700003661).map bytes

def testMintMacaroon : Macaroon (List UInt8) where
  identifier := testIdentifier
  caveats := testMintPredicates.map .firstParty
  signature := testMintPredicates.foldl testMintHmac (testMintHmac L402.testRoot testIdentifier)

/-- Its V2 form. -/
def testMintBinary : List UInt8 :=
  [0x0202420000544e62cee8033709e389e5b2755343d0d0fa8c4850215cfb633171,
    0x7e80d1aea3000102030405060708090a0b0c0d0e0f101112131415161718191a,
    0x1b1c1d1e1f00021073657276696365733d67656174613a3000024e6765617461,
    0x5f726571756573743d6235656565336363353163666161626339313637663039,
    0x3164303730653633666231383063323266353336633931356230623862656130,
    0x32656534303830323000024c67656174615f7465726d733d3061653639643966,
    0x6439383866336631633666363165393138383663356438383366313231363630,
    0x30316364633232613865366561333163653635623764623300021c6765617461,
    0x5f76616c69645f756e74696c3d3137303030303336363100000620f4a102491a].flatMap (word 32) ++
    word 27 0xe09c3e70f46a8ea26b4ab7ed3c88efdba9eb39e00967ccf5b4558d

/-- The crates, as they act on the invoices of the mint. -/
def testMintService : Service.Crates (List UInt8) :=
  { testService with
    sha256 := hashTable testMintDigests
    base64Decode := fun s =>
      if s = String.ofList (base64 testMintBinary) then some testMintBinary else none
    hmac := testMintHmac
    deserializeBinary := fun b => if b = testMintBinary then some testMintMacaroon else none
    serializeV2 := fun m => if m = testMintMacaroon then some testMintBinary else none
    verifier := fun m root ps => decide (m.caveats = ps.map .firstParty ∧
      m.signature = ps.foldl testMintHmac (testMintHmac root m.identifier)) }

theorem testMintService_readsJson : testMintService.l402.ReadsJson := by
  intro id ps signature m h
  exact (Option.some.inj h).symm

def testQuote : MintQuote where
  id := "quote"
  request := testInvoiceText
  amount := some 25
  unit := .sat
  state := .unpaid
  amountPaid := 0
  amountIssued := 0
  usedByOperation := none
  paymentMethod := .bolt11
  expiry := 1700003600
  updatedAt := 1700000000

/-- The mint makes one quote. -/
def testMints : Outside :=
  { testOutside with quotes := fun mint quote => mint = testMint ∧ quote = testQuote }

theorem testMintInvoice_valid : ValidInvoice testMintService.l402.toCrates testMintPolicy testHash
    testInvoiceText 1700000500 0 testInvoice where
  parsed := by simp only [testMintService, testService, testCrates, if_true]
  signed := by simp only [testMintService, testService, testCrates, decide_true]
  payee node hnode := nomatch hnode
  currency := rfl
  amount := rfl
  node node hnode := nomatch hnode
  created := by decide
  last := by decide
  live := .inl (by decide)

def testMintCredential : L402.Credential (List UInt8) where
  identifier := testIdentifier
  root := L402.testRoot
  validBefore := 1700003661
  macaroon := testMintMacaroon
  encoded := String.ofList (base64 testMintBinary)

theorem testMintCredential_ok : L402.credential testMintService.l402 testMintPolicy testHash
    testInvoice L402.testRoot testNonce = .ok testMintCredential := by
  have hvb : L402.validBefore testInvoice = some 1700003661 := by decide
  have hv2 : testMintService.serializeV2 testMintMacaroon = some testMintBinary := by
    simp only [testMintService, if_true]
  simp only [L402.credential, hvb, bind_eq_ok, context_eq_ok, pure_eq_ok]
  exact ⟨_, rfl, testMintMacaroon, rfl, testMintBinary, hv2, rfl⟩

/-- The mint makes the quote, and nothing is left to recover. -/
theorem alone_testQuote : Stage.Alone (Wallet.does (testMints.quotes testMint) 0 1700000500) ({}, [])
    (mintInvoice 25) (.ok testQuote)
    ({ Wallet.entered {} 0 with cdk := Cdk.addQuote {} testQuote }, [.quoted testQuote, .asked]) := by
  have hquotes : (Wallet.entered {} 0).exec (testMints.quotes testMint) 0 1700000500 true
      (.cdk .getMintQuotes) (.ok []) (Wallet.entered {} 0) [] := ⟨{}, .refl _, rfl, rfl, rfl⟩
  have hquote : (Wallet.entered {} 0).exec (testMints.quotes testMint) 0 1700000500 true
      (.cdk (.mintQuote 25)) (.ok testQuote)
      { Wallet.entered {} 0 with cdk := Cdk.addQuote {} testQuote } [.quoted testQuote, .asked] :=
    ⟨_, rfl, ⟨rfl, rfl⟩, .refl _, rfl⟩
  refine .bind (alone_begin rfl) (.bind (alone_cdk hquotes) ?_)
  exact .bind (Stage.alone_stopIf_ok.mpr ⟨rfl, rfl⟩) (alone_cdk hquote)

/-- The key of the invoice. -/
def testMintKey : String := replayKey .testnet testPaymentHash

/-- The association of the invoice. -/
def testDeposit : Deposit := depositOf testMintPolicy testMint testQuote

/-- The wallet of the mint after it made the quote. -/
def testMintWallet : Wallet where
  cdk := Cdk.addQuote {} testQuote
  memory := some { needsRecovery := false }

/-- The service while the challenge is made: the mint is remembered, asked, and its invoice
    associated. -/
def testAsked : System (List UInt8) := testServing.database.commit (.insertMint testMint)

def testQuoted : System (List UInt8) :=
  testAsked.setWallet testMint testMintWallet [.quoted testQuote, .asked]

def testAssociated : System (List UInt8) := testQuoted.commit (.insertQuote testMintKey testDeposit)

/-- And a credential offered for it. -/
def testOffered : System (List UInt8) := testAssociated.commit
  (.insertRoot (digest (hashTable testMintDigests) testIdentifier) (L402.testRoot, 1700003661))

theorem alone_testInvoice : Stage.Alone (System.does testMintService testMints 0) testServing.database
    (cashuInvoice testMintService testMintPolicy testMint testHash) (.ok testInvoiceText)
    testAssociated := by
  have hvalid := mapError_eq_ok (f := Failure.message).mpr testMintInvoice_valid.validateInvoice
  unfold cashuInvoice
  refine .bind (a := ()) (alone_transact.mpr (rfl : testAsked = _)) ?_
  refine .bind (alone_attempt rfl alone_testQuote) ?_
  refine .bind (Stage.alone_ofExcept.mpr ⟨rfl, rfl⟩) ?_
  refine .bind (alone_perform.mpr ⟨rfl, rfl⟩) ?_
  refine .bind (Stage.alone_ofExcept.mpr ⟨hvalid, rfl⟩) ?_
  refine .bind (Stage.alone_stopIf_ok.mpr ⟨by decide, rfl⟩) ?_
  refine .bind (alone_perform.mpr ⟨rfl, rfl⟩) ?_
  refine .bind (a := ()) (Stage.alone_ofExcept.mpr ⟨by decide, rfl⟩) ?_
  exact .bind (a := ()) (alone_transact.mpr ⟨⟨_, rfl⟩, rfl⟩) (Stage.alone_pure.mpr ⟨rfl, rfl⟩)

/-- The header of the challenge. -/
def testHeader : String :=
  "L402 macaroon=\"" ++ testMintCredential.encoded ++ "\", invoice=\"" ++ testInvoiceText ++ "\""

/-- The challenge is answered. -/
theorem alone_testChallenge (url : String) (client : IpAddr) :
    Stage.Alone (System.does testMintService testMints 0) testServing
      (challenge testMintService testMintPolicy url testHash client)
      (.ok { x402 := none, l402 := some testHeader }) testOffered := by
  have hvalid := mapError_eq_ok (f := Failure.message).mpr testMintInvoice_valid.validateInvoice
  have hcredential := mapError_eq_ok (f := Failure.message).mpr testMintCredential_ok
  have hmint : Stage.Alone (System.does testMintService testMints 0) testAssociated
      (mintL402 testMintService testMintPolicy testHash testInvoiceText testInvoice)
      (.ok testHeader) testOffered := by
    unfold mintL402
    refine .bind (a := ()) (alone_perform.mpr rfl) ?_
    refine .bind (a := L402.testRoot) (alone_perform.mpr rfl) ?_
    refine .bind (a := testNonce) (alone_perform.mpr rfl) ?_
    refine .bind (Stage.alone_ofExcept.mpr ⟨hcredential, rfl⟩) ?_
    exact .bind (a := ()) (alone_transact.mpr ⟨⟨_, rfl⟩, rfl⟩) (Stage.alone_pure.mpr ⟨rfl, rfl⟩)
  unfold challenge
  refine .bind (a := ()) (alone_perform.mpr rfl) (.bind (a := ()) (alone_perform.mpr rfl) ?_)
  refine .bind (a := ()) (alone_perform.mpr rfl) ?_
  refine .bind (a := ()) (alone_transact.mpr ⟨rfl, rfl⟩) ?_
  refine .bind alone_testInvoice ?_
  refine .bind (alone_perform.mpr ⟨rfl, rfl⟩) ?_
  refine .bind (Stage.alone_ofExcept.mpr ⟨hvalid, rfl⟩) ?_
  refine .bind (.bind hmint (Stage.alone_pure.mpr ⟨rfl, rfl⟩)) ?_
  exact Stage.alone_pure.mpr ⟨rfl, rfl⟩

/-- Nothing holds a wallet when only that of the mint was used. -/
theorem release_setWallet (call : ℕ) {s : System (List UInt8)}
    (hdirectory : s.directory = some .server) (hcursor : s.cursorLock = none)
    (hmint : (s.wallets testMint).lock = none) (hother : ∀ mint, mint ≠ testMint → s.wallets mint = {}) :
    s.release call = s := by
  refine System.release_of_free ?_ ?_ (fun mint => ?_)
  · rw [hdirectory]
    simp
  · rw [hcursor]
    simp
  · by_cases hm : mint = testMint
    · rw [hm, hmint]
      simp
    · rw [hother mint hm]
      simp

/-- A server answers the challenge. -/
theorem exists_testOffered : ∃ w : World (ServiceSig (List UInt8)) (System (List UInt8)) Request Answer,
    World.Reachable (machine testMintService testMints) w ∧ w.shared = testOffered ∧ w.started = 1 ∧
      w.returned = [(0, .challenge testMintPolicy "" testHash (.v4 0),
        .challenged (.ok { x402 := none, l402 := some testHeader }))] := by
  have hq : Request.Arrives testMintService.payments testMints testServing
      (.challenge testMintPolicy "" testHash (.v4 0)) :=
    ⟨rfl, fun mint hmint => by obtain rfl := Option.some.inj hmint; rfl⟩
  have halone : Prog.Alone (System.does testMintService testMints 0) testServing
      (code testMintService (.challenge testMintPolicy "" testHash (.v4 0)))
      (.challenged (.ok { x402 := none, l402 := some testHeader })) testOffered :=
    Prog.alone_bind.mpr ⟨_, _, alone_testChallenge "" (.v4 0), .ret _ _⟩
  obtain ⟨w, hw, hshared, hanswered⟩ := reachable_answered (by decide) halone hq
  have hfree : testOffered.release 0 = testOffered :=
    release_setWallet 0 rfl rfl rfl (fun mint hm => Function.update_of_ne hm _ _)
  exact ⟨w, hw, hshared.trans hfree, hanswered⟩

/-- The association of the test challenge stays until 1700007260, whatever happens. -/
theorem advertised_collectable_offered :
    ∃ w : World (ServiceSig (List UInt8)) (System (List UInt8)) Request Answer,
      World.Reachable (machine testMintService testMints) w ∧ w.shared = testOffered ∧
      ∀ w', World.Steps (machine testMintService testMints) w w' → w'.shared.clock < 1700007260 →
        w'.shared.store.quotes.lookup testMintKey = some testDeposit := by
  obtain ⟨w, h, hshared, -, hreturned⟩ := exists_testOffered
  refine ⟨w, h, hshared, fun w' hs hlive => ?_⟩
  have hmem := List.mem_singleton.mpr (rfl : (0, Request.challenge testMintPolicy "" testHash (.v4 0),
    Answer.challenged (.ok { x402 := none, l402 := some testHeader })) = _)
  rw [← hreturned] at hmem
  obtain ⟨quote, invoice, ⟨-, rfl⟩, hparse, -, hstays⟩ := advertised_collectable id
    testMintDigests_injective testMintService_readsJson h hmem rfl
  simp only [testMintService, testService, testCrates, testQuote, if_true, Option.some.injEq] at hparse
  subst hparse
  have hretain : testInvoice.retainUntil = 1700007260 := by decide
  exact (hstays w' hs (by rwa [hretain])).row

/-! ### Recovery -/

/-- **A recovery pass visits every mint that was ever asked**, whatever sites there are now: reading
    the mints never fails, no mint comes twice, each mint asked for a quote comes with the quotes
    associated to it, and those of the invoices that are not over are among them, when no cleanup pass
    begins before a late write of another. -/
theorem recovery_surveys_every_mint {w : World (ServiceSig κ) (System κ) Request Answer}
    (h : World.Reachable (machine X out) w) :
    ∃ mints, System.survey X.payments w.shared.store = some mints ∧ (mints.map Prod.fst).Nodup ∧
      (∀ mint, .wallet mint .asked ∈ w.shared.history →
        (mint, System.associated w.shared.store mint) ∈ mints) ∧
      (¬ out.overtakes → ∀ key deposit, .inserted key deposit ∈ w.shared.history →
        ¬ Deposit.Over X.payments deposit w.shared.clock → ∃ quotes,
          (deposit.mint, quotes) ∈ mints ∧ deposit.quote ∈ quotes) := by
  have hrec : Recorded X out w.shared := (records_sound h).inv
  have hkey : ∀ key, key ∈ w.shared.store.mints.rows.map Prod.fst ↔
      .remembered key ∈ w.shared.history := by
    intro key
    rw [← hrec.mints key, Option.isSome_iff_exists]
    simp only [List.mem_map, Prod.exists, exists_and_right, exists_eq_right, Table.mem_rows]
  have hvisits : ∀ mint, .remembered mint ∈ w.shared.history →
      (mint, System.associated w.shared.store mint) ∈
        (w.shared.store.mints.rows.map Prod.fst).map
          (fun mint => (mint, System.associated w.shared.store mint)) := fun mint hmint =>
    List.mem_map_of_mem (f := fun mint => (mint, System.associated w.shared.store mint))
      ((hkey mint).mpr hmint)
  refine ⟨_, surveyMints_eq (fun key hk => ?_) (Table.nodup_rows _) (fun _ _ => List.not_mem_nil),
    ?_, fun mint hasked => ?_, fun hone key deposit hinserted hlive => ?_⟩
  · obtain ⟨past, -, hparse⟩ := hrec.justified.mem ((hkey key).mp hk)
    exact hparse
  · simpa [List.map_map, Function.comp_def] using Table.nodup_rows w.shared.store.mints
  · -- a mint is remembered before it is asked
    obtain ⟨past, hsuffix, hremembered⟩ := hrec.justified.mem hasked
    exact hvisits mint (mem_of_cons_suffix hsuffix hremembered)
  · obtain ⟨past, hsuffix, quote, invoice, network, hassociates⟩ := hrec.justified.mem hinserted
    have hremembered := mem_of_cons_suffix hsuffix hassociates.remembered
    refine ⟨_, hvisits deposit.mint hremembered, ?_⟩
    have hrow := (association_stays hone h hinserted).resolve_right hlive
    apply List.mem_map.mpr
    exact ⟨(key, deposit), List.mem_filter.mpr ⟨Table.mem_rows.mpr hrow, by simp⟩, rfl⟩

/-- The mint of the test challenge is visited once, with its quote. -/
theorem recovery_surveys_every_mint_offered :
    ∃ (w : World (ServiceSig (List UInt8)) (System (List UInt8)) Request Answer)
      (mints : List (String × List String)),
      World.Reachable (machine testMintService testMints) w ∧ w.shared = testOffered ∧
      System.survey testMintService.payments w.shared.store = some mints ∧
      (mints.map Prod.fst).Nodup ∧ ∃ quotes, (testMint, quotes) ∈ mints ∧ "quote" ∈ quotes := by
  obtain ⟨w, h, hshared, -, -⟩ := exists_testOffered
  obtain ⟨mints, hsurvey, hnodup, -, hquotes⟩ := recovery_surveys_every_mint h
  have hinserted : .inserted testMintKey testDeposit ∈ w.shared.history := by
    rw [hshared]
    exact .tail _ (.head _)
  have hlive : ¬ Deposit.Over testMintService.payments testDeposit w.shared.clock := by
    intro hover
    have hend := hover testInvoice testMintInvoice_valid.parsed
    rw [hshared] at hend
    exact absurd hend (by decide)
  exact ⟨w, mints, h, hshared, hsurvey, hnodup, hquotes id testMintKey testDeposit hinserted hlive⟩

/-! ### Admissions -/

/-- An admission by a credential backed by a mint. -/
structure AdmittedBy (policy : Policy) (encoded mint : String) (x : ℕ × Request × Answer) : Prop where
  request : ∃ hash, x.2.1 = .settleL402 policy hash encoded
  answer : x.2.2 = .settledL402 (.ok ())
  mint : policy.receiver.mint? = some mint

/-- A deposit in the mint's wallet, for the quote and the invoice that were associated with the
    credential when it was settled. -/
structure BackedBy (X : Service.Crates κ) (out : Outside) (policy : Policy) (encoded mint : String)
    (s : System κ) (t : Transaction) : Prop where
  present : t ∈ (s.wallets mint).cdk.transactions
  direction : t.direction = .incoming
  status : t.status = .completed
  unit : t.unit = .sat
  amount : policy.amountSat.toNat ≤ t.amount
  associated : ∃ macaroon preimage deposit s₀,
    L402.parseCredential X.l402 encoded = .ok (macaroon, preimage) ∧ Visited X out s₀ ∧ Later s₀ s ∧
      s₀.store.quotes.lookup (L402.credentialKey policy macaroon.identifier) = some deposit ∧
      deposit.mint = mint ∧ deposit.amount = policy.amountSat ∧
      t.quoteId = some deposit.quote ∧ t.paymentRequest = some deposit.invoice

theorem deposits_iff {id invoice : String} {amount : ℕ} {t : Transaction} :
    deposits id amount invoice t = true ↔ t.quoteId = some id ∧ t.paymentRequest = some invoice ∧
      t.status = .completed ∧ t.unit = .sat ∧ amount ≤ t.amount := by
  simp only [deposits, Bool.and_eq_true, beq_iff_eq, decide_eq_true_eq, and_assoc]

variable {policy : Policy} {hash encoded mint : String} {x y : ℕ × Request × Answer}

/-- What the answer of a settlement shows. -/
theorem AdmittedBy.shows {w : World (ServiceSig κ) (System κ) Request Answer}
    (h : World.Reachable (machine X out) w) (hx : x ∈ w.returned)
    (hadmitted : AdmittedBy policy encoded mint x) : ∃ hash macaroon root validBefore,
      AdmittedL402 X (Visited X out) x.1 policy hash encoded macaroon root validBefore w.shared := by
  obtain ⟨call, request, answer⟩ := x
  obtain ⟨⟨hash, rfl⟩, rfl, -⟩ := hadmitted
  exact ⟨hash, (records_sound h).returned _ hx⟩

/-- Every such admission is backed. -/
theorem AdmittedBy.exists_backing {w : World (ServiceSig κ) (System κ) Request Answer}
    (h : World.Reachable (machine X out) w) (hx : x ∈ w.returned)
    (hadmitted : AdmittedBy policy encoded mint x) :
    ∃ t, BackedBy X out policy encoded mint w.shared t := by
  obtain ⟨hash, macaroon, root, validBefore, hshows⟩ := hadmitted.shows h hx
  obtain ⟨preimage, time, hparse, -⟩ := hshows.verified
  obtain ⟨deposit, s₀, hfunded, -, -⟩ := hshows.funded mint hadmitted.mint
  obtain ⟨txs, t, hlisted, ht, hdeposit⟩ := hfunded.received
  obtain ⟨hquote, hinvoice, hstatus, hunit, hamount⟩ := deposits_iff.mp hdeposit
  have hrec : Recorded X out w.shared := (records_sound h).inv
  -- what was listed as completed is still there
  obtain ⟨hdirection, hstays⟩ := hrec.listed mint txs hlisted t ht
  refine ⟨t, hstays hstatus, hdirection, hstatus, hunit, ?_, macaroon, preimage, deposit, s₀, hparse,
    hfunded.visited, hfunded.before, hfunded.row, hfunded.mint_eq, hfunded.amount_eq, hquote, hinvoice⟩
  rw [← hfunded.amount_eq]
  exact hamount

/-- The transaction names the invoice that the credential pays. -/
theorem BackedBy.pays {s : System κ} {t : Transaction}
    (hbacked : BackedBy X out policy encoded mint s t) : ∃ text invoice,
      t.paymentRequest = some text ∧ X.parseInvoice text = some invoice ∧
      ∀ hash, (Request.settleL402 policy hash encoded).Pays X invoice := by
  obtain ⟨macaroon, preimage, deposit, s₀, hparse, ⟨w₀, hreach, rfl⟩, -, hrow, -, -, -, htext⟩ :=
    hbacked.associated
  obtain ⟨invoice, network, hinvoice, hkey, hcurrency⟩ :=
    exists_invoice_of_row (records_sound hreach).inv hrow
  obtain ⟨hnetwork, hpaid⟩ := replayKey_injective hkey
  refine ⟨deposit.invoice, invoice, htext, hinvoice, fun hash => ⟨?_, macaroon, preimage, hparse, hpaid⟩⟩
  rw [hnetwork, hcurrency]

theorem AdmittedBy.unique {policy' : Policy} {encoded' mint' : String}
    (hadmitted : AdmittedBy policy encoded mint x) (hadmitted' : AdmittedBy policy' encoded' mint' x) :
    policy' = policy ∧ encoded' = encoded ∧ mint' = mint := by
  obtain ⟨hash, hrequest⟩ := hadmitted.request
  obtain ⟨hash', hrequest'⟩ := hadmitted'.request
  obtain ⟨rfl, -, rfl⟩ := Request.settleL402.inj (hrequest'.symm.trans hrequest)
  exact ⟨rfl, rfl, Option.some.inj (hadmitted'.mint.symm.trans hadmitted.mint)⟩

/-- An admission consumed the invoice that its credential pays. -/
theorem AdmittedBy.consumed (hsha : Function.Injective X.sha256)
    {w : World (ServiceSig κ) (System κ) Request Answer} (h : World.Reachable (machine X out) w)
    (hx : x ∈ w.returned) (hadmitted : AdmittedBy policy encoded mint x) {invoice : Bolt11Invoice}
    (hpays : ∀ hash, (Request.settleL402 policy hash encoded).Pays X invoice) :
    Consumed X out x.1 invoice w.shared := by
  obtain ⟨hash, macaroon, root, validBefore, hshows⟩ := hadmitted.shows h hx
  exact consumed_of_admitted hsha (records_sound h).inv hshows (hpays hash)

/-- **Every admission by a mint-backed credential has a deposit of its own**: a completed incoming
    transaction of at least the price in the mint's wallet, for the quote and the invoice associated
    with the credential, and no transaction is that of two admissions. -/
theorem admissions_backed (hsha : Function.Injective X.sha256)
    (hsigns : out.SignsOnce X.l402.toCrates)
    {w : World (ServiceSig κ) (System κ) Request Answer} (h : World.Reachable (machine X out) w) :
    ∃ backing : ℕ × Request × Answer → Transaction,
      (∀ x ∈ w.returned, ∀ policy encoded mint, AdmittedBy policy encoded mint x →
        BackedBy X out policy encoded mint w.shared (backing x)) ∧
      Set.InjOn backing
        {x | x ∈ w.returned ∧ ∃ policy encoded mint, AdmittedBy policy encoded mint x} := by
  have hchoice : ∀ x, ∃ t, x ∈ w.returned → ∀ policy encoded mint,
      AdmittedBy policy encoded mint x → BackedBy X out policy encoded mint w.shared t := by
    intro x
    by_cases hx : x ∈ w.returned ∧ ∃ policy encoded mint, AdmittedBy policy encoded mint x
    · obtain ⟨hx, policy, encoded, mint, hadmitted⟩ := hx
      obtain ⟨t, ht⟩ := hadmitted.exists_backing h hx
      refine ⟨t, fun _ policy' encoded' mint' hadmitted' => ?_⟩
      obtain ⟨rfl, rfl, rfl⟩ := hadmitted.unique hadmitted'
      exact ht
    · refine ⟨⟨.incoming, .completed, 0, .sat, none, none, none⟩, fun hmem policy encoded mint h => ?_⟩
      exact absurd ⟨hmem, policy, encoded, mint, h⟩ hx
  choose backing hbacking using hchoice
  refine ⟨backing, hbacking, ?_⟩
  rintro x ⟨hx, policy, encoded, mint, hadmitted⟩ y ⟨hy, policy', encoded', mint', hadmitted'⟩ heq
  obtain ⟨text, invoice, htext, hparse, hpays⟩ := (hbacking x hx policy encoded mint hadmitted).pays
  obtain ⟨text', invoice', htext', hparse', hpays'⟩ :=
    (hbacking y hy policy' encoded' mint' hadmitted').pays
  -- one transaction names one invoice, and an invoice is consumed by one call
  rw [heq] at htext
  obtain rfl := Option.some.inj (htext.symm.trans htext')
  obtain rfl := Option.some.inj (hparse.symm.trans hparse')
  have hused := hadmitted.consumed hsha h hx hpays
  have hused' := hadmitted'.consumed hsha h hy hpays'
  exact h.returned_inj hx hy (hused.call_eq hsigns (records_sound h).inv hused')

/-- The quote after its invoice was paid. -/
def testPaidQuote : MintQuote := { testQuote with state := .paid, amountPaid := 25 }

def testTransaction : Transaction where
  direction := .incoming
  status := .completed
  amount := 25
  unit := .sat
  memo := none
  quoteId := some "quote"
  paymentRequest := some testInvoiceText

/-- The wallet of the mint after the quote was issued. -/
def testFundedWallet : Wallet where
  cdk :=
    { transactions := [testTransaction]
      quotes := (Cdk.addQuote {} testQuote).quotes.insert "quote" testPaidQuote }
  memory := some { needsRecovery := false }

theorem testPaidQuote_evolves :
    Cdk.Evolves (Cdk.addQuote {} testQuote) { Cdk.addQuote {} testQuote with
      quotes := (Cdk.addQuote {} testQuote).quotes.insert "quote" testPaidQuote } := by
  refine ⟨fun t ht => absurd ht List.not_mem_nil, fun id q hq => ?_⟩
  rw [Table.lookup_insert_eq] at hq
  split at hq
  · rename_i hid
    subst hid
    obtain rfl := Option.some.inj hq
    exact ⟨testQuote, rfl, rfl⟩
  · exact ⟨q, hq, rfl⟩

/-- What is noted while its deposit is collected. -/
def testCollected : List Note :=
  [.listed [testTransaction], .read testPaidQuote, .read testQuote, .listed []]

theorem alone_testCollect : Stage.Alone
    (Wallet.does (testMints.quotes testMint) 1 1700000500) (testMintWallet, [])
    (collectMintInvoice testMintService.payments "quote" 25 testInvoiceText) (.ok ())
    ({ testFundedWallet with lock := some 1 }, testCollected) := by
  let makes := testMints.quotes testMint
  let w₁ : Wallet := Wallet.entered testMintWallet 1
  let w₂ : Wallet := { w₁ with memory := some { needsRecovery := true } }
  let w₃ : Wallet := { w₂ with cdk := { w₂.cdk with quotes := w₂.cdk.quotes.insert "quote" testPaidQuote } }
  let w₄ : Wallet := { w₃ with cdk := { w₃.cdk with transactions := [testTransaction] } }
  have hnone : w₁.exec makes 1 1700000500 true (.cdk .listTransactions) (.ok []) w₁ [.listed []] :=
    ⟨_, .refl _, rfl, rfl, rfl⟩
  have hread : w₁.exec makes 1 1700000500 true (.cdk (.getMintQuote "quote")) (.ok (some testQuote)) w₁
      [.read testQuote] := ⟨_, .refl _, rfl, rfl, rfl⟩
  have hcheck : w₂.exec makes 1 1700000500 true (.cdk (.checkMintQuoteStatus "quote"))
      (.ok testPaidQuote) w₃ [.read testPaidQuote] := ⟨_, testPaidQuote_evolves, rfl, rfl, rfl⟩
  have hissue : w₃.exec makes 1 1700000500 true (.cdk (.mint "quote")) (.ok ()) w₄ [] :=
    ⟨w₄.cdk, ⟨fun t ht => absurd ht List.not_mem_nil, fun _ q hq => ⟨q, hq, rfl⟩⟩, trivial, rfl, rfl⟩
  have hfound : w₄.exec makes 1 1700000500 true (.cdk .listTransactions) (.ok [testTransaction]) w₄
      [.listed [testTransaction]] := ⟨_, .refl _, rfl, rfl, rfl⟩
  have hmissing : Stage.Alone (Wallet.does makes 1 1700000500) (w₁, [])
      (hasMintTransaction "quote" 25 testInvoiceText) (.ok false) (w₁, [.listed []]) :=
    .bind (alone_cdk hnone) (Stage.alone_pure.mpr ⟨rfl, rfl⟩)
  have hreceived : ∀ notes, Stage.Alone (Wallet.does makes 1 1700000500) (w₄, notes)
      (hasMintTransaction "quote" 25 testInvoiceText) (.ok true)
      (w₄, .listed [testTransaction] :: notes) := fun notes =>
    .bind (alone_cdk hfound) (Stage.alone_pure.mpr ⟨by simp [deposits, testTransaction], rfl⟩)
  refine .bind (alone_begin rfl) (.bind hmissing (.bind (alone_cdk hread) ?_))
  refine .bind (a := testQuote) (Stage.alone_ofExcept.mpr ⟨rfl, rfl⟩) ?_
  refine .bind (Stage.alone_stopIf_ok.mpr ⟨by simp [testQuote], rfl⟩) ?_
  unfold issue
  refine .bind (a := ()) (m := (w₂, _)) (alone_session.mpr ⟨rfl, rfl⟩) ?_
  refine .bind (alone_cdk hcheck) (.bind (alone_cdk hissue) ?_)
  refine .bind (hreceived _) (.bind (Stage.alone_stopIf_ok.mpr ⟨rfl, rfl⟩) ?_)
  exact alone_session.mpr ⟨rfl, rfl⟩

/-- The credential with the preimage. -/
def testMintProof : String := testMintCredential.header (List.replicate 32 42)

theorem testMintCredential_size : testMintProof.utf8ByteSize ≤ MAX_PAYMENT_HEADER := by
  have h₁ := utf8_length_le (base64 testMintBinary)
  have h₂ := utf8_length_le ((List.replicate 32 42).flatMap hexByte)
  have hb : (base64 testMintBinary).length = 420 := by decide +kernel
  have hp : ((List.replicate 32 (42 : UInt8)).flatMap hexByte).length = 64 := by decide +kernel
  have hmax : MAX_PAYMENT_HEADER = 24576 := rfl
  have hcolon : ":".utf8ByteSize = 1 := by decide
  simp only [testMintProof, L402.Credential.header, testMintCredential, hex,
    String.utf8ByteSize_append, utf8ByteSize_ofList, hmax, hcolon]
  omega

theorem parseCredential_testMintProof : L402.parseCredential testMintService.l402 testMintProof
    = .ok (testMintMacaroon, List.replicate 32 42) := by
  have hv2 : ∀ b, testMintService.serializeV2 testMintMacaroon = some b → testMintBinary = b := by
    intro b hb
    simp only [testMintService, if_true] at hb
    exact Option.some.inj hb
  have hround : testMintService.l402.RoundTrips testMintMacaroon := by
    refine ⟨?_, ?_, ?_, ?_⟩ <;> intro b hb <;> obtain rfl := hv2 b hb
    · decide +kernel
    · simp only [testMintService, if_true]
    · simp only [testMintService, testService, testCrates, if_true]
    · show ':' ∉ (String.ofList (base64 testMintBinary)).toList
      rw [String.toList_ofList]
      exact colon_not_mem_base64 testMintBinary
  have hpreimage : hashTable testMintDigests (List.replicate 32 42) = testPaymentHash := by
    decide +kernel
  exact L402.parseCredential_header testMintService_readsJson testMintCredential_ok hround (by decide)
    List.length_replicate hpreimage testMintCredential_size

theorem verify_testMintProof : L402.verify testMintService.l402 testMintPolicy testHash
    testMintMacaroon (List.replicate 32 42) L402.testRoot 1700003661 1700000500 = .ok () := by
  have haccepts : testMintService.l402.AcceptsChains := by
    intro m root ps hcaveats hsig
    exact decide_eq_true ⟨hcaveats, hsig⟩
  have hmacaroon : testMintMacaroon = ⟨testIdentifier,
      ((L402.predicates testMintService.sha256 testMintPolicy testHash 1700003661).map bytes).map
        .firstParty,
      L402.sign testMintService.l402 L402.testRoot testIdentifier
        ((L402.predicates testMintService.sha256 testMintPolicy testHash 1700003661).map bytes)⟩ := by
    simp only [testMintMacaroon, testMintPredicates, L402.sign, testMintService]
  rw [hmacaroon]
  exact (L402.verify_issued_iff haccepts (by decide)).mpr (by decide)

/-- The service after the deposit was collected. -/
def testFunded : System (List UInt8) := testOffered.setWallet testMint testFundedWallet testCollected

/-- And after the credential was claimed. -/
def testAdmitted : System (List UInt8) :=
  { testFunded with
    store := { testFunded.store with spent := (∅ : Table ℕ).insert testMintKey 1700007260 }
    history := .claimed 1 testMintKey 1700007260 :: testFunded.history }

theorem alone_testAdmission : Stage.Alone (System.does testMintService testMints 1) testOffered
    (settleL402 testMintService testMintPolicy testHash testMintProof) (.ok ()) testAdmitted := by
  have hparse := mapError_eq_ok (f := fun _ => Error.invalid).mpr parseCredential_testMintProof
  have hverify := mapError_eq_ok (f := fun _ => Error.invalid).mpr verify_testMintProof
  have hfunds : Stage.Alone (System.does testMintService testMints 1) testOffered
      (collectFunds testMintService testMintPolicy testMintKey) (.ok ()) testFunded := by
    show Stage.Alone _ _ (collectCashuInvoice testMintService testMintPolicy testMint testMintKey) _ _
    unfold collectCashuInvoice
    refine .bind (a := some testDeposit) (alone_transact.mpr ⟨rfl, rfl⟩) ?_
    refine .bind (a := testDeposit) (Stage.alone_ofExcept.mpr ⟨rfl, rfl⟩) ?_
    refine .bind (alone_attempt rfl alone_testCollect) ?_
    exact Stage.alone_ofExcept.mpr ⟨rfl, rfl⟩
  unfold settleL402
  refine .bind (a := ()) (alone_perform.mpr rfl) ?_
  refine .bind (Stage.alone_ofExcept.mpr ⟨hparse, rfl⟩) ?_
  refine .bind (a := some (L402.testRoot, 1700003661)) (alone_transact.mpr ⟨?_, rfl⟩) ?_
  · exact (AList.lookup_insert (β := fun _ : String => List UInt8 × ℕ) _).symm
  refine .bind (a := (L402.testRoot, 1700003661)) (Stage.alone_ofExcept.mpr ⟨rfl, rfl⟩) ?_
  refine .bind (alone_perform.mpr ⟨rfl, rfl⟩) ?_
  refine .bind (Stage.alone_ofExcept.mpr ⟨hverify, rfl⟩) ?_
  have hclaim : testFunded.database.store.claim testMintKey 1700007260 testFunded.database.clock
      = .ok (true, testAdmitted.store) := Store.claim_ok_iff.mpr ⟨by decide, .inr ⟨rfl, rfl, rfl⟩⟩
  exact .bind hfunds (alone_claim hclaim)

theorem testMints_signsOnce : testMints.SignsOnce testMintService.l402.toCrates := by
  have hone : ∀ invoice, testMints.Signed testMintService.l402.toCrates invoice →
      invoice = testInvoice := by
    rintro invoice (⟨node, hnone, -⟩ | ⟨text, hparse, ⟨node, hnone⟩ | ⟨mint, quote, ⟨-, rfl⟩, rfl⟩⟩)
    · exact absurd hnone id
    · exact absurd hnone id
    · simp only [testMintService, testService, testCrates, testQuote, if_true, Option.some.injEq]
        at hparse
      exact hparse.symm
  intro invoice invoice' h h' _
  rw [hone invoice h, hone invoice' h']

/-- The server admits the credential. -/
theorem exists_testAdmitted :
    ∃ w : World (ServiceSig (List UInt8)) (System (List UInt8)) Request Answer,
      World.Reachable (machine testMintService testMints) w ∧ w.shared = testAdmitted ∧
      w.started = 2 ∧
      (1, Request.settleL402 testMintPolicy testHash testMintProof, Answer.settledL402 (.ok ()))
        ∈ w.returned := by
  obtain ⟨w, h, hshared, hstarted, -⟩ := exists_testOffered
  have hq : (machine testMintService testMints).admits w.shared
      (.settleL402 testMintPolicy testHash testMintProof) := by
    rw [hshared]
    rfl
  have halone : Prog.Alone (System.does testMintService testMints w.started) w.shared
      (code testMintService (.settleL402 testMintPolicy testHash testMintProof))
      (.settledL402 (.ok ())) testAdmitted := by
    rw [hstarted, hshared]
    exact Prog.alone_bind.mpr ⟨_, _, alone_testAdmission, .ret _ _⟩
  obtain ⟨w', hsteps, hshared', hstarted', hreturned'⟩ :=
    World.steps_answer (M := machine testMintService testMints) hq halone
  rw [hstarted] at hshared' hstarted' hreturned'
  refine ⟨w', h.steps hsteps, hshared'.trans ?_, hstarted', ?_⟩
  · refine release_setWallet (s := testAdmitted) 1 rfl rfl rfl (fun mint hm => ?_)
    exact (Function.update_of_ne hm _ _).trans (Function.update_of_ne hm _ _)
  · rw [hreturned']
    exact List.mem_cons_self ..

/-- The admission of the test credential is backed by the only transaction there is. -/
theorem admissions_backed_admitted :
    ∃ w : World (ServiceSig (List UInt8)) (System (List UInt8)) Request Answer,
      World.Reachable (machine testMintService testMints) w ∧ w.shared = testAdmitted ∧
      BackedBy testMintService testMints testMintPolicy testMintProof testMint w.shared
        testTransaction := by
  obtain ⟨w, h, hshared, -, hreturned⟩ := exists_testAdmitted
  obtain ⟨backing, hbacked, -⟩ := admissions_backed testMintDigests_injective testMints_signsOnce h
  have hadmitted : AdmittedBy testMintPolicy testMintProof testMint
      (1, .settleL402 testMintPolicy testHash testMintProof, .settledL402 (.ok ())) :=
    ⟨⟨testHash, rfl⟩, rfl, rfl⟩
  have ht := hbacked _ hreturned testMintPolicy testMintProof testMint hadmitted
  have hone := ht.present
  rw [hshared] at hone
  rw [List.mem_singleton.mp hone] at ht
  exact ⟨w, h, hshared, ht⟩

end Geata.Service
