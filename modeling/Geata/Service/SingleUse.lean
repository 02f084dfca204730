import Geata.Lightning.Agreement
import Geata.Service.Alone
import Geata.Service.Settlements

namespace Geata.Service

open Geata.Lib Geata.Lightning Geata.Payments

/-!
# An invoice pays for one call

* `Request.Pays` — the invoice that a call presents a proof of payment for.
* `exists_consumed` — behind every admission there is a claim under the key and for the retention of
  a signed invoice, the same ones for both protocols.
* `invoices_single_use` — two admissions for one invoice are one call.
-/

/-- The receivers never sign two invoices with one payment hash. -/
def Outside.SignsOnce (X : Lightning.Crates) (out : Outside) : Prop :=
  ∀ invoice invoice', out.Signed X invoice → out.Signed X invoice' →
    invoice.paymentHash = invoice'.paymentHash → invoice = invoice'

variable {κ : Type}

/-- The invoice that a call presents a proof of payment for: the one an x402 payment echoes, or that of
    the payment hash in an L402 credential, on the network of the policy. -/
def Request.Pays (X : Service.Crates κ) (invoice : Bolt11Invoice) : Request → Prop
  | .settle _ _ encoded => ∃ payment, X.decodePayment encoded = some payment ∧
      X.parseInvoice payment.accepted.extra.invoice = some invoice
  | .settleL402 policy _ encoded => policy.receiver.network.currency = invoice.currency ∧
      ∃ macaroon preimage, L402.parseCredential X.l402 encoded = .ok (macaroon, preimage) ∧
        (macaroon.identifier.drop 2).take 32 = invoice.paymentHash
  | _ => False

/-- A settlement, by either protocol, that returned `Ok`. -/
def Request.Admits : Request → Answer → Prop
  | .settle _ _ _, .settled (.ok _) => True
  | .settleL402 _ _ _, .settledL402 (.ok ()) => True
  | _, _ => False

/-- A call consumed the replay key of a signed invoice, for as long as it is retained. -/
def Consumed (X : Service.Crates κ) (out : Outside) (call : ℕ) (invoice : Bolt11Invoice)
    (s : System κ) : Prop :=
  ∃ network signed, out.Signed X.l402.toCrates signed ∧ network.currency = invoice.currency ∧
    signed.paymentHash = invoice.paymentHash ∧
    .claimed call (replayKey network signed.paymentHash) signed.retainUntil ∈ s.history

/-- Both protocols retain a key for the same time. -/
theorem retainUntil_validBefore {invoice : Bolt11Invoice} {validBefore : ℕ}
    (h : L402.validBefore invoice = some validBefore) :
    L402.retainUntil validBefore = invoice.retainUntil := by
  obtain ⟨last, hlast, hbefore⟩ := Option.bind_eq_some_iff.mp h
  obtain ⟨rfl, -⟩ := checkedAdd_eq_some hlast
  obtain ⟨rfl, hbefore⟩ := checkedAdd_eq_some hbefore
  rw [SKEW_eq] at hbefore ⊢
  unfold L402.retainUntil Bolt11Invoice.retainUntil
  rw [QUOTE_PRUNE_GRACE_eq]
  unfold saturatingAdd
  omega

variable {X : Service.Crates κ} {out : Outside} {J : System κ → Prop} {call : ℕ} {s : System κ}
  {policy : Policy} {hash encoded : String} {invoice : Bolt11Invoice}

theorem consumed_of_settled (hnode : ∀ node, policy.receiver.ldk? = some node → out.nodes node)
    (h : SettledX402 X call policy hash encoded s)
    (hpays : (Request.settle policy hash encoded).Pays X invoice) :
    Consumed X out call invoice s := by
  obtain ⟨payment, signed, time, hvalid, hclaimed⟩ := h
  obtain ⟨payment', hdecode, hparse⟩ := hpays
  obtain rfl := Option.some.inj (hvalid.decoded.symm.trans hdecode)
  obtain rfl := Option.some.inj (hvalid.valid.parsed.symm.trans hparse)
  obtain ⟨node, hldk⟩ := Option.isSome_iff_exists.mp hvalid.ldk
  exact ⟨policy.receiver.network, signed,
    .inl ⟨node, hnode node hldk, hvalid.valid.signed, hvalid.valid.payee node hldk⟩,
    hvalid.valid.currency.symm, rfl, hclaimed⟩

theorem consumed_of_admitted [DecidableEq κ] (hsha : Function.Injective X.sha256)
    (hrec : Recorded X out s) {macaroon : Macaroon κ} {root : κ} {validBefore : ℕ}
    (h : AdmittedL402 X J call policy hash encoded macaroon root validBefore s)
    (hpays : (Request.settleL402 policy hash encoded).Pays X invoice) :
    Consumed X out call invoice s := by
  obtain ⟨hcurrency, macaroon', preimage', hparse', hhash⟩ := hpays
  obtain ⟨preimage, time, hparse, -⟩ := h.verified
  obtain ⟨rfl, -⟩ := Prod.mk.inj (Except.ok.inj (hparse.symm.trans hparse'))
  -- the root record was made for a signed invoice with this payment hash
  obtain ⟨-, -, signed, nonce, hsigned, hkey, hbefore⟩ := hrec.justified.mem h.rooted
  have hid : macaroon.identifier = L402.identifier signed.paymentHash nonce :=
    digest_injective hsha hkey
  have hpaid : (macaroon.identifier.drop 2).take 32 = signed.paymentHash := by
    rw [hid, L402.paymentHash_identifier]
  refine ⟨policy.receiver.network, signed, hsigned, hcurrency, hpaid.symm.trans hhash, ?_⟩
  rw [← hpaid, ← retainUntil_validBefore hbefore]
  exact h.claimed

/-- Behind an admission there is a claim for its invoice. -/
theorem exists_consumed [DecidableEq κ] (hsha : Function.Injective X.sha256)
    (hrec : Recorded X out s) {q : Request} {a : Answer} (hshows : Shows X out J call q a s)
    (ha : q.Admits a) (hpays : q.Pays X invoice) : Consumed X out call invoice s := by
  unfold Request.Admits at ha
  split at ha
  · exact consumed_of_settled hshows.1 hshows.2 hpays
  · obtain ⟨macaroon, root, validBefore, h⟩ := hshows
    exact consumed_of_admitted hsha hrec h hpays
  · exact absurd ha (by simp)

/-- A signed invoice is consumed by one call. -/
theorem Consumed.call_eq {i j : ℕ} (hsigns : out.SignsOnce X.l402.toCrates)
    (hrec : Recorded X out s) (hi : Consumed X out i invoice s) (hj : Consumed X out j invoice s) :
    i = j := by
  obtain ⟨network, signed, hsigned, hcurrency, hhash, hclaimed⟩ := hi
  obtain ⟨network', signed', hsigned', hcurrency', hhash', hclaimed'⟩ := hj
  obtain rfl := hsigns signed signed' hsigned hsigned' (hhash.trans hhash'.symm)
  obtain rfl := Network.currency_injective (hcurrency.trans hcurrency'.symm)
  exact hrec.once i j _ _ hclaimed hclaimed'

variable [DecidableEq κ]

/-- **Lightning payments are single use.**  In every run, over both protocols, at most one call returns
    `Ok` for an invoice. -/
theorem invoices_single_use (hsha : Function.Injective X.sha256)
    (hsigns : out.SignsOnce X.l402.toCrates)
    {w : World (ServiceSig κ) (System κ) Request Answer} (h : World.Reachable (machine X out) w)
    {x y : ℕ × Request × Answer} (hx : x ∈ w.returned) (hy : y ∈ w.returned)
    (hxok : x.2.1.Admits x.2.2) (hyok : y.2.1.Admits y.2.2) (hxpays : x.2.1.Pays X invoice)
    (hypays : y.2.1.Pays X invoice) : x = y := by
  have hholds := records_sound h
  have hrec : Recorded X out w.shared := hholds.inv
  have hxused := exists_consumed hsha hrec (hholds.returned x hx) hxok hxpays
  have hyused := exists_consumed hsha hrec (hholds.returned y hy) hyok hypays
  exact h.returned_inj hx hy (hxused.call_eq hsigns hrec hyused)

/-! ### A settled payment -/

/-- The only node is that of the test challenge. -/
def testPaid : Outside := { testOutside with nodes := fun node => node = testNode }

theorem testPaid_signsOnce : testPaid.SignsOnce testService.l402.toCrates := by
  have hone : ∀ invoice, testPaid.Signed testService.l402.toCrates invoice →
      invoice = testInvoice := by
    rintro invoice (⟨node, -, hsigned, -⟩ | ⟨text, -, ⟨node, hnone⟩ | ⟨mint, quote, hnone, -⟩⟩)
    · exact of_decide_eq_true hsigned
    · exact absurd hnone id
    · exact absurd hnone id
  intro invoice invoice' h h' _
  rw [hone invoice h, hone invoice' h']

/-- The replay key of the test challenge. -/
def testKey : String := replayKey .testnet testPaymentHash

theorem verify_testProof :
    Lightning.verify testService.l402.toCrates testPolicy testHash testProof 1700000500
      = .ok (testKey, hex testPaymentHash, 1700007260) := by
  have hiff := verify_echo_iff (t := 1700000500) testInvoice_valid
    (show testPolicy.receiver.ldk? = some testNode from rfl)
    (show (List.replicate 32 (42 : UInt8)).length = 32 from List.length_replicate) testPreimage_ok
    testProof_echoes testProof_size (by decide)
  exact (hiff _).mpr ⟨by decide, rfl⟩

/-- The answer to the settlement. -/
def testSettlement : String := testService.base64Encode
  (bytes (settlementText testPolicy.receiver.network.id (hex testPaymentHash)))

/-- A server at the time of the test payment. -/
def testServing : System (List UInt8) := { clock := 1700000500, directory := some .server }

/-- The call reads the clock, opens the database and claims the key. -/
theorem alone_testSettle :
    ∃ s, Stage.Alone (System.does testService testPaid 0) testServing
      (settle testService testPolicy testHash testProof) (.ok testSettlement) s := by
  have hclaim : ∃ store, testServing.database.store.claim testKey 1700007260 testServing.clock
      = .ok (true, store) := ⟨_, Store.claim_ok_iff.mpr ⟨by decide, .inr ⟨rfl, rfl, rfl⟩⟩⟩
  obtain ⟨store, hclaim⟩ := hclaim
  refine ⟨{ testServing.database with
    store := store
    history := .claimed 0 testKey 1700007260 :: testServing.database.history }, ?_⟩
  refine .bind (alone_perform.mpr ⟨rfl, rfl⟩) ?_
  refine .bind (Stage.alone_ofExcept.mpr ⟨mapError_eq_ok.mpr verify_testProof, rfl⟩) ?_
  exact .bind (alone_claim hclaim) (Stage.alone_pure.mpr ⟨rfl, rfl⟩)

/-- One settlement of the test challenge on an empty database, and the only one there will be. -/
theorem invoices_single_use_first :
    ∃ w : World (ServiceSig (List UInt8)) (System (List UInt8)) Request Answer,
      (0, .settle testPolicy testHash testProof, .settled (.ok testSettlement)) ∈ w.returned ∧
      ∀ w', World.Steps (machine testService testPaid) w w' → ∀ y ∈ w'.returned,
        y.2.1.Admits y.2.2 → y.2.1.Pays testService testInvoice → y.1 = 0 := by
  obtain ⟨s, hs⟩ := alone_testSettle
  have hq : Request.Arrives testService.payments testPaid testServing
      (.settle testPolicy testHash testProof) :=
    ⟨rfl, fun node hnode => (Option.some.inj hnode).symm⟩
  have halone : Prog.Alone (System.does testService testPaid 0) testServing
      (code testService (.settle testPolicy testHash testProof)) (.settled (.ok testSettlement)) s :=
    Prog.alone_bind.mpr ⟨_, _, hs, .ret _ _⟩
  obtain ⟨w, hreach, -, -, hreturned⟩ := reachable_answered (by decide) halone hq
  have hmem : (0, Request.settle testPolicy testHash testProof,
      Answer.settled (.ok testSettlement)) ∈ w.returned := by
    rw [hreturned]
    exact List.mem_cons_self ..
  refine ⟨w, hmem, fun w' hs' y hy hok hpays => ?_⟩
  have hx := hs'.mem_returned hmem
  refine congrArg Prod.fst (invoices_single_use testDigests_injective testPaid_signsOnce
    (hreach.steps hs') hy hx hok trivial hpays ?_)
  exact ⟨testPayment, testProof_echoes, testInvoice_valid.parsed⟩

end Geata.Service
