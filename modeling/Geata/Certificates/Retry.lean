import Mathlib.Tactic.NormNum
import Mathlib.Tactic.Positivity
import Geata.Lib.Map
import Geata.Lib.Text
import Geata.Lib.Word

namespace Geata

open Geata.Lib

/-!
# Retry deadlines and certificates

Deadlines are seconds since the epoch and survive restarts.  An attempt is counted, and a wait of
its whole timeout recorded, before the CA is asked; a failure replaces that wait by an
exponential one, shorter when a certificate is about to end.

* `Retry.begin`, `Retry.failed` — the two changes of a deadline, with the random bytes as an
  argument.
* `parseCertificate` — `Certificate::parse`, over what openssl reads.
* `Certificate.renewal` — from when on a certificate is due.
-/

namespace Certificates

/-! ### Retries -/

/-- The state of the attempts for one domain, or for the account. -/
structure Retry where
  failures : ℕ := 0
  next : ℤ := 0
  deriving DecidableEq

/-- The attempts of all domains, as stored in `retries.json`. -/
structure Retries where
  account : Retry := {}
  domains : Map String Retry := ∅

namespace Retry

def ready (r : Retry) (now : ℤ) : Bool := decide (r.next ≤ now)

/-- The wait after a number of failures, at most a day. -/
def base (failures : ℕ) : ℤ := min (30 * 2 ^ min (failures - 1) 12) 86400

/-- The longest wait: a third of the time left, between five seconds and a day. -/
def cap (now : ℤ) : Option ℤ → ℤ
  | none => 86400
  | some expiry => max 5 (min ((expiry - now).tdiv 3) 86400)

/-- Wait after a failure.  `random` are the two random bytes of the jitter. -/
def failed (r : Retry) (now : ℤ) (expiry : Option ℤ) (random : UInt16) : Retry :=
  let jitter := (random.toNat : ℤ) % (base r.failures / 5 + 1)
  { r with next := addSaturating now (min (base r.failures + jitter) (cap now expiry)) }

/-- Count an attempt and wait at least for its timeout. -/
def begin (r : Retry) (now : ℤ) (expiry : Option ℤ) (timeout : ℤ) (random : UInt16) : Retry :=
  let r := { r with failures := min (r.failures + 1) (2 ^ 32 - 1) }
  let r := r.failed now expiry random
  { r with next := max r.next (addSaturating now timeout) }

theorem thirty_le_base (failures : ℕ) : 30 ≤ base failures := by
  have hpow : (0 : ℤ) < 2 ^ min (failures - 1) 12 := by positivity
  unfold base
  exact le_min (by omega) (by norm_num)

theorem five_le_cap (now : ℤ) (expiry : Option ℤ) : 5 ≤ cap now expiry := by
  cases expiry with
  | none => norm_num [cap]
  | some e => exact le_max_left _ _

/-- A failure is followed by at least five seconds. -/
theorem le_failed_next (r : Retry) {now : ℤ} (expiry : Option ℤ) (random : UInt16)
    (hnow : now + 5 ≤ i64Max) : now + 5 ≤ (r.failed now expiry random).next := by
  have hbase := thirty_le_base r.failures
  have hjitter : 0 ≤ (random.toNat : ℤ) % (base r.failures / 5 + 1) :=
    Int.emod_nonneg _ (by omega)
  have hcap := five_le_cap now expiry
  unfold failed addSaturating
  dsimp only
  refine le_min ?_ hnow
  have hwait : 5 ≤ min (base r.failures + (random.toNat : ℤ) % (base r.failures / 5 + 1))
      (cap now expiry) := le_min (by omega) hcap
  omega

/-- An attempt is followed by at least its timeout. -/
theorem le_begin_next (r : Retry) {now timeout : ℤ} (expiry : Option ℤ) (random : UInt16)
    (hnow : now + timeout ≤ i64Max) : now + timeout ≤ (r.begin now expiry timeout random).next := by
  unfold begin
  dsimp only
  rw [addSaturating_eq hnow]
  exact le_max_right _ _

end Retry

/-! ### Certificates -/

/-- A certificate as the CA returns it. -/
structure CertificatePem where
  chain : String
  privateKey : String
  deriving DecidableEq

/-- An X.509 certificate: its encoding, and what openssl reads in it. -/
structure X509 where
  der : List UInt8
  /-- The subject alternative names, if there are any; `none` is a name of another kind. -/
  subjectAltNames : Option (List (Option String))
  /-- seconds since the epoch, where the difference can be taken -/
  notBefore : Option ℤ
  notAfter : Option ℤ

/-- A private key, by its encoding. -/
structure PrivateKey where
  der : List UInt8

/-- A parsed certificate; its chain has a leaf, and its validity period is not empty. -/
structure Certificate where
  chain : List X509
  key : PrivateKey
  notBefore : ℤ
  notAfter : ℤ
  nonempty : chain ≠ []
  ordered : notBefore < notAfter

/-- `Certificate::parse` for a domain: openssl's reading of a certificate and its key. -/
abbrev Parse : Type := String → CertificatePem → Option Certificate

/-- The functions of openssl. -/
structure Openssl where
  stackFromPem : String → Option (List X509)
  privateKeyFromPem : String → Option PrivateKey
  /-- The public key of the certificate belongs to the private key. -/
  publicEq : X509 → PrivateKey → Option Bool

/-- One of the DNS names is the domain, up to the case of letters. -/
def X509.covers (leaf : X509) (domain : String) : Bool :=
  leaf.subjectAltNames.any (fun names => names.any (fun name => name.any (fun name =>
    toAsciiLowercase name.toList == toAsciiLowercase domain.toList)))

/-- `Certificate::parse`; the reason of a failure is only logged. -/
def parseCertificate (O : Openssl) : Parse := fun domain pem => do
  match ← O.stackFromPem pem.chain with
  | [] => none
  | leaf :: intermediates => do
    let key ← O.privateKeyFromPem pem.privateKey
    let matching ← O.publicEq leaf key
    if matching && leaf.covers domain then do
      let notBefore ← leaf.notBefore
      let notAfter ← leaf.notAfter
      if h : notBefore < notAfter then
        some
          { chain := leaf :: intermediates
            key
            notBefore
            notAfter
            nonempty := List.cons_ne_nil _ _
            ordered := h }
      else none
    else none

/-- A parsed certificate is the chain and the key that were read: the leaf has the key and covers
    the domain, and the period is the leaf's. -/
theorem parseCertificate_eq_some {O : Openssl} {domain : String} {pem : CertificatePem}
    {c : Certificate} (h : parseCertificate O domain pem = some c) :
    ∃ leaf intermediates, c.chain = leaf :: intermediates ∧
      O.stackFromPem pem.chain = some c.chain ∧ O.privateKeyFromPem pem.privateKey = some c.key ∧
      O.publicEq leaf c.key = some true ∧ leaf.covers domain = true ∧
      leaf.notBefore = some c.notBefore ∧ leaf.notAfter = some c.notAfter := by
  obtain ⟨chain, hchain, h⟩ := Option.bind_eq_some_iff.mp h
  cases chain with
  | nil => exact absurd h (by simp)
  | cons leaf intermediates =>
    simp only [Option.bind_eq_bind, Option.bind_eq_some_iff, Option.ite_none_right_eq_some,
      Bool.and_eq_true] at h
    obtain ⟨key, hkey, matching, heq, ⟨rfl, hcovers⟩, notBefore, hbefore, notAfter, hafter, h⟩ := h
    split at h
    · obtain rfl := Option.some.inj h
      exact ⟨leaf, intermediates, rfl, hchain, hkey, heq, hcovers, hbefore, hafter⟩
    · exact absurd h (by simp)

namespace Certificate

def validAt (c : Certificate) (now : ℤ) : Bool :=
  decide (c.notBefore ≤ now) && decide (now < c.notAfter)

/-- From when on a valid certificate is replaced: after two thirds of its life. -/
def renewal (c : Certificate) : ℤ := c.notBefore + (c.notAfter - c.notBefore) * 2 / 3

def needsRenewal (c : Certificate) (now : ℤ) : Bool := !c.validAt now || decide (c.renewal ≤ now)

theorem renewal_le_notAfter (c : Certificate) : c.renewal ≤ c.notAfter := by
  have h := c.ordered
  unfold renewal
  omega

/-- Once a certificate has become valid, it is due exactly from its renewal time on. -/
theorem renewal_le_of_needsRenewal {c : Certificate} {now : ℤ} (hstart : c.notBefore ≤ now)
    (h : c.needsRenewal now = true) : c.renewal ≤ now := by
  simp only [needsRenewal, validAt, Bool.or_eq_true, Bool.not_eq_true', Bool.and_eq_false_iff,
    decide_eq_false_iff_not, decide_eq_true_eq] at h
  have hle := c.renewal_le_notAfter
  omega

end Certificate

/-- An issued certificate that is not saved yet. -/
structure PendingCertificate where
  pem : CertificatePem
  certificate : Certificate

end Certificates

end Geata
