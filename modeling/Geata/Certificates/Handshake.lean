import Geata.Certificates.Spacing
import Geata.Lib.Text
import Geata.Proxy.Filter

namespace Geata

open Geata.Lib
open Geata.Proxy (Site testSite)

/-!
# Certificates in TLS handshakes

`certificateCallback` chooses the certificate of a handshake from those in use, which the loop loads,
installs and drops while handshakes go on.

* `World.Parsed` — every certificate in use, or waiting to be saved, was parsed for its domain.
* `handshake_covered` — a handshake is only answered for a configured site, with a certificate that
  is valid at that moment and covers the name the client asked for.
* `certificate_never_lost` — once a certificate is saved, its site is never without one.
-/

namespace Certificates

/-! ### `DynamicTls` -/

/-- The certificate of a handshake: that of the site the client names.  Its leaf, its key and the
    rest of its chain are installed. -/
def certificateCallback (servername : Option String) (sites : String → Option Site)
    (certificates : Map String Certificate) (now : ℤ) : Option Certificate := do
  let domain := String.ofList (toAsciiLowercase (← servername).toList)
  if (sites domain).any Site.https then do
    let certificate ← certificates.lookup domain
    if certificate.validAt now then some certificate else none
  else none

/-- What is in use before the loop's first pass: the saved certificates of the sites. -/
def initialCertificates (stored : String → Option Certificate) (domains : List String) :
    Map String Certificate :=
  domains.foldl (fun certificates domain =>
    match stored domain with
    | some certificate => certificates.insert domain certificate
    | none => certificates) ∅

theorem certificateCallback_eq_some {servername : Option String} {sites : String → Option Site}
    {certificates : Map String Certificate} {now : ℤ} {c : Certificate} :
    certificateCallback servername sites certificates now = some c ↔
      ∃ name site, servername = some name ∧
        sites (String.ofList (toAsciiLowercase name.toList)) = some site ∧ site.https = true ∧
        certificates.lookup (String.ofList (toAsciiLowercase name.toList)) = some c ∧
        c.validAt now = true := by
  simp only [certificateCallback, Option.bind_eq_bind, Option.bind_eq_some_iff,
    Option.ite_none_right_eq_some, Option.any_eq_true, Option.some.injEq]
  constructor
  · rintro ⟨name, rfl, ⟨site, hsite, hhttps⟩, c', hc, hvalid, rfl⟩
    exact ⟨name, site, rfl, hsite, hhttps, hc, hvalid⟩
  · rintro ⟨name, site, rfl, hsite, hhttps, hc, hvalid⟩
    exact ⟨name, rfl, ⟨site, hsite, hhttps⟩, c, hc, hvalid, rfl⟩

/-! ### What a step does to the certificates -/

/-- What one step does to the certificates in use, those waiting, the domains looked after and the
    files. -/
inductive Serves (parse : Parse) (w : World) (l : Loop) (w' : World) (l' : Loop) : Act → Prop where
  | issued {job : Job} {p : PendingCertificate} {now : ℤ} {random : UInt16}
      (hparse : parse job.domain p.pem = some p.certificate)
      (hpending : l'.pending = l.pending.insert job.domain p)
      (hcertificates : l'.certificates = l.certificates) (hloaded : l'.loaded = l.loaded)
      (hfile : w'.certificateFile = w.certificateFile) :
      Serves parse w l w' l' (.join job (.ok p) now random)
  | configured {domains : List String} (hl : l' = l.configure domains (w.stored parse))
      (hfile : w'.certificateFile = w.certificateFile) :
      Serves parse w l w' l' (.configure domains)
  | expired {domain : String} {now : ℤ} (hpending : l'.pending = l.pending.erase domain)
      (hcertificates : l'.certificates = l.certificates) (hloaded : l'.loaded = l.loaded)
      (hfile : w'.certificateFile = w.certificateFile) : Serves parse w l w' l' (.expire domain now)
  | saved {domain : String} {now : ℤ} {p : PendingCertificate} {outcome : Written}
      (hlookup : l.pending.lookup domain = some p)
      (hl : l' = if outcome = .done then l.install domain p else l)
      (hfile : w'.certificateFile = (w.writeCertificate domain p.pem outcome).certificateFile) :
      Serves parse w l w' l' (.save domain now outcome)
  | nothing {a : Act} (hpending : l'.pending = l.pending)
      (hcertificates : l'.certificates = l.certificates) (hloaded : l'.loaded = l.loaded)
      (hfile : w'.certificateFile = w.certificateFile) : Serves parse w l w' l' a

section

variable {parse : Parse} {w w' : World} {a : Act} {phase phase' : Phase} {l l' : Loop}

theorem Step.serves (hs : Step parse w a w') (h : w.Exclusive) (hl : w.process = some (phase, l))
    (hl' : w'.process = some (phase', l')) : Serves parse w l w' l' a := by
  have hsame : ∀ {phase₀ : Phase} {l₀ : Loop}, w.process = some (phase₀, l₀) → l₀ = l := by
    intro phase₀ l₀ hp
    exact (Prod.mk.inj (Option.some.inj (hp.symm.trans hl))).2
  have hwrite : ∀ (b : Bool) (retries : Retries) (outcome : Written),
      (if b then w.writeRetries retries outcome else w).certificateFile = w.certificateFile := by
    intro b retries outcome
    split
    · rfl
    · rfl
  cases hs with
  | @join l₀ job result now random hp hjob hnow hresult =>
    obtain rfl := hsame hp
    obtain ⟨-, rfl⟩ := Prod.mk.inj (Option.some.inj hl')
    have hexcl := (h _ _ hp).1
    cases habort : job.aborted with
    | true =>
      rw [hexcl.join_aborted hjob habort]
      exact .nothing rfl rfl rfl rfl
    | false =>
      cases result with
      | ok p =>
        rw [hexcl.join_ok hjob habort]
        exact .issued (hresult p rfl).1 rfl rfl rfl rfl
      | failed =>
        rw [hexcl.join_failed hjob habort (by simp)]
        exact .nothing rfl rfl rfl rfl
      | stopped =>
        rw [hexcl.join_failed hjob habort (by simp)]
        exact .nothing rfl rfl rfl rfl
  | configure hp hnodup =>
    obtain rfl := hsame hp
    obtain ⟨-, rfl⟩ := Prod.mk.inj (Option.some.inj hl')
    exact .configured rfl rfl
  | expire hp hpending hnow hinvalid =>
    obtain rfl := hsame hp
    obtain ⟨-, rfl⟩ := Prod.mk.inj (Option.some.inj hl')
    exact .expired rfl rfl rfl rfl
  | save hp hpending hnow hvalid =>
    obtain rfl := hsame hp
    obtain ⟨-, rfl⟩ := Prod.mk.inj (Option.some.inj hl')
    exact .saved hpending rfl rfl
  | @registered l₀ needed created now random outcome hp hnow =>
    obtain rfl := hsame hp
    obtain ⟨-, rfl⟩ := Prod.mk.inj (Option.some.inj hl')
    cases created with
    | none => exact .nothing rfl rfl rfl rfl
    | some credentials => exact .nothing rfl rfl rfl rfl
  | crash hretries hcertificates => exact absurd hl' (by simp)
  | load hp => rw [hp] at hl; exact absurd hl (by simp)
  | endSave hp | persist hp _ _ _ =>
    obtain rfl := hsame hp
    obtain ⟨-, rfl⟩ := Prod.mk.inj (Option.some.inj hl')
    exact .nothing rfl rfl rfl (hwrite _ _ _)
  | tick hp | saveRetries hp | keepWaiting hp _ _ | beginSave hp _ _ _ _ | saveAccount hp _
  | rest hp _ _ _ | registerLater hp _ _ _ | register hp _ _ _
  | spawnAll hp _ | begin hp _ | spawn hp _ | spawnedAll hp =>
    obtain rfl := hsame hp
    obtain ⟨-, rfl⟩ := Prod.mk.inj (Option.some.inj hl')
    exact .nothing rfl rfl rfl rfl

/-- A process starts without certificates in the loop; it ends in a crash only. -/
theorem Step.starts (hs : Step parse w a w') (hl : w.process = none)
    (hl' : w'.process = some (phase', l')) :
    l'.certificates = ∅ ∧ l'.pending = ∅ ∧ l'.loaded = [] ∧
      w'.certificateFile = w.certificateFile := by
  have habs : ∀ {x : Phase × Loop}, w.process = some x → False := by
    intro x hx
    rw [hl] at hx
    exact absurd hx (by simp)
  cases hs with
  | load hp =>
    obtain ⟨-, rfl⟩ := Prod.mk.inj (Option.some.inj hl')
    exact ⟨rfl, rfl, rfl, rfl⟩
  | crash hretries hcertificates => exact absurd hl' (by simp)
  | tick hp | join hp _ _ _ | saveRetries hp | configure hp _ | keepWaiting hp _ _
  | beginSave hp _ _ _ _ | saveAccount hp _ | expire hp _ _ _ | save hp _ _ _ | endSave hp
  | rest hp _ _ _ | persist hp _ _ _ | registerLater hp _ _ _ | register hp _ _ _
  | registered hp _ | spawnAll hp _ | begin hp _ | spawn hp _ | spawnedAll hp =>
    exact (habs hp).elim

/-! ### Every certificate was parsed for its domain -/

/-- The certificates of a loop, in use and waiting, were parsed for their domains. -/
structure Parsed (parse : Parse) (l : Loop) : Prop where
  served : ∀ domain c, l.certificates.lookup domain = some c → ∃ pem, parse domain pem = some c
  waiting : ∀ domain p, l.pending.lookup domain = some p → parse domain p.pem = some p.certificate

theorem Parsed.serves (h : Parsed parse l) (hs : Serves parse w l w' l' a) : Parsed parse l' := by
  cases hs with
  | @issued job p now random hparse hpending hcertificates hloaded hfile =>
    refine ⟨fun d c hc => h.served d c (hcertificates ▸ hc), fun d q hq => ?_⟩
    rw [hpending, Map.lookup_insert_eq] at hq
    by_cases hd : d = job.domain
    · rw [if_pos hd] at hq
      obtain rfl := Option.some.inj hq
      rw [hd]
      exact hparse
    · rw [if_neg hd] at hq
      exact h.waiting d q hq
  | @configured domains hl hfile =>
    subst hl
    constructor
    · intro d c hc
      rw [lookup_configure] at hc
      split at hc
      · rcases Option.or_eq_some_iff.mp hc with hold | ⟨-, hloaded⟩
        · exact h.served d c hold
        · -- Loaded from its file just now.
          split at hloaded
          · obtain ⟨pem, -, hpem⟩ := Option.bind_eq_some_iff.mp hloaded
            exact ⟨pem, hpem⟩
          · exact absurd hloaded (by simp)
      · exact absurd hc (by simp)
    · intro d p hp
      exact h.waiting d p (Map.lookup_retain_eq_some.mp hp).1
  | expired hpending hcertificates hloaded hfile =>
    refine ⟨fun d c hc => h.served d c (hcertificates ▸ hc), fun d p hp => ?_⟩
    rw [hpending, Map.lookup_erase_eq] at hp
    split at hp
    · exact absurd hp (by simp)
    · exact h.waiting d p hp
  | @saved domain now p outcome hlookup hl hfile =>
    subst hl
    split
    · constructor
      · intro d c hc
        have hc : (l.certificates.insert domain p.certificate).lookup d = some c := hc
        rw [Map.lookup_insert_eq] at hc
        by_cases hd : d = domain
        · rw [if_pos hd] at hc
          obtain rfl := Option.some.inj hc
          rw [hd]
          exact ⟨p.pem, h.waiting domain p hlookup⟩
        · rw [if_neg hd] at hc
          exact h.served d c hc
      · intro d q hq
        have hq : (l.pending.erase domain).lookup d = some q := hq
        rw [Map.lookup_erase_eq] at hq
        split at hq
        · exact absurd hq (by simp)
        · exact h.waiting d q hq
    · exact h
  | nothing hpending hcertificates hloaded hfile =>
    exact ⟨fun d c hc => h.served d c (hcertificates ▸ hc),
      fun d p hp => h.waiting d p (hpending ▸ hp)⟩

theorem Run.parsed {P : Act → Prop} {w₀ : World} (hfirst : First w₀) (hr : Run parse P w₀ w)
    (hl : w.process = some (phase, l)) : Parsed parse l := by
  induction hr generalizing phase l with
  | refl =>
    rw [hfirst.process] at hl
    exact absurd hl (by simp)
  | @step w₁ w₂ a hr hs ha ih =>
    cases hp : w₁.process with
    | none =>
      obtain ⟨hcertificates, hpending, -, -⟩ := hs.starts hp hl
      refine ⟨fun d c hc => ?_, fun d p hp => ?_⟩
      · rw [hcertificates] at hc
        exact absurd hc (by simp)
      · rw [hpending] at hp
        exact absurd hp (by simp)
    | some x =>
      obtain ⟨phase₁, l₁⟩ := x
      exact (ih hp).serves (hs.serves (hr.exclusive hfirst) hp hl)

/-! ### What a handshake is answered with -/

theorem lookup_initialCertificates (stored : String → Option Certificate) (domains : List String)
    (domain : String) : (initialCertificates stored domains).lookup domain =
      if domain ∈ domains then stored domain else none := by
  have hfold : ∀ m : Map String Certificate,
      (domains.foldl (fun certificates d => match stored d with
        | some certificate => certificates.insert d certificate
        | none => certificates) m).lookup domain =
      ((if domain ∈ domains then stored domain else none).or (m.lookup domain)) := by
    induction domains with
    | nil => simp
    | cons d rest ih =>
      intro m
      rw [List.foldl_cons, ih]
      by_cases hd : domain = d
      · subst hd
        cases hstored : stored domain with
        | none => simp
        | some c =>
          by_cases hrest : domain ∈ rest
          · simp [hrest]
          · simp [hrest]
      · cases hstored : stored d with
        | none => simp [hd]
        | some c => simp [hd]
  rw [initialCertificates, hfold, AList.lookup_empty, Option.or_none]

end

/-- The chain and the key were read from one file: the leaf belongs to the key, carries the name, up
    to the case of letters, and has the period of the certificate. -/
def Covers (O : Openssl) (name : String) (c : Certificate) : Prop :=
  ∃ (pem : CertificatePem) (leaf : X509) (intermediates : List X509)
    (names : List (Option String)) (san : String),
    c.chain = leaf :: intermediates ∧ O.stackFromPem pem.chain = some c.chain ∧
    O.privateKeyFromPem pem.privateKey = some c.key ∧ O.publicEq leaf c.key = some true ∧
    leaf.subjectAltNames = some names ∧ some san ∈ names ∧
    toAsciiLowercase san.toList = toAsciiLowercase name.toList ∧
    leaf.notBefore = some c.notBefore ∧ leaf.notAfter = some c.notAfter

section

variable {O : Openssl} {c : Certificate} {pem : CertificatePem}

theorem X509.covers_eq_true {leaf : X509} {domain : String} (h : leaf.covers domain = true) :
    ∃ names san, leaf.subjectAltNames = some names ∧ some san ∈ names ∧
      toAsciiLowercase san.toList = toAsciiLowercase domain.toList := by
  obtain ⟨names, hnames, h⟩ := (Option.any_eq_true _ _).mp h
  obtain ⟨name, hname, h⟩ := List.any_eq_true.mp h
  obtain ⟨san, hsan, h⟩ := (Option.any_eq_true _ _).mp h
  exact ⟨names, san, hnames, hsan ▸ hname, by simpa using h⟩

/-- A certificate parsed for the lowered name covers the name. -/
theorem covers_of_parseCertificate {name : String}
    (h : parseCertificate O (String.ofList (toAsciiLowercase name.toList)) pem = some c) :
    Covers O name c := by
  obtain ⟨leaf, intermediates, hchain, hread, hkey, heq, hcovers, hbefore, hafter⟩ :=
    parseCertificate_eq_some h
  obtain ⟨names, san, hnames, hsan, hlower⟩ := X509.covers_eq_true hcovers
  rw [String.toList_ofList, toAsciiLowercase_idem] at hlower
  exact ⟨pem, leaf, intermediates, names, san, hchain, hread, hkey, heq, hnames, hsan, hlower,
    hbefore, hafter⟩

/-- **A handshake is only answered for a site, with a valid certificate that covers the name.**
    In every state of every run, with any configurations, outcomes of the CA, failing writes and
    crashes, and at any clock reading: what `certificateCallback` takes from the certificates in
    use, or from those a process starts with, belongs to an HTTPS site of the configuration, is
    valid at that moment, and has a leaf that carries the name the client asked for and belongs to
    its key. -/
theorem handshake_covered {P : Act → Prop} {w₀ w : World} (hfirst : First w₀)
    (hr : Run (parseCertificate O) P w₀ w) {certificates : Map String Certificate}
    (hcertificates : (∃ phase l, w.process = some (phase, l) ∧ certificates = l.certificates) ∨
      ∃ domains, certificates = initialCertificates (w.stored (parseCertificate O)) domains)
    {servername : Option String} {sites : String → Option Site} {now : ℤ} {c : Certificate}
    (h : certificateCallback servername sites certificates now = some c) :
    ∃ name site, servername = some name ∧
      sites (String.ofList (toAsciiLowercase name.toList)) = some site ∧ site.https = true ∧
      c.notBefore ≤ now ∧ now < c.notAfter ∧ Covers O name c := by
  obtain ⟨name, site, hname, hsite, hhttps, hc, hvalid⟩ := certificateCallback_eq_some.mp h
  have hvalid : c.notBefore ≤ now ∧ now < c.notAfter := by
    simpa [Certificate.validAt] using hvalid
  obtain ⟨pem, hpem⟩ : ∃ pem, parseCertificate O
      (String.ofList (toAsciiLowercase name.toList)) pem = some c := by
    rcases hcertificates with ⟨phase, l, hl, rfl⟩ | ⟨domains, rfl⟩
    · exact (hr.parsed hfirst hl).served _ c hc
    · rw [lookup_initialCertificates] at hc
      split at hc
      · obtain ⟨pem, -, hpem⟩ := Option.bind_eq_some_iff.mp hc
        exact ⟨pem, hpem⟩
      · exact absurd hc (by simp)
  exact ⟨name, site, hname, hsite, hhttps, hvalid.1, hvalid.2, covers_of_parseCertificate hpem⟩

end

/-- The power goes after a save; the next process answers for `a.B` with what was saved. -/
theorem handshake_covered_saved :
    ∃ w, Run testParse (fun _ => True) testFirst w ∧ w.process = none ∧
      certificateCallback (some "a.B") (fun _ => some testSite)
        (initialCertificates (w.stored testParse) ["a.b"]) 1001 = some testCertificate ∧
      Covers testOpenssl "a.B" testCertificate := by
  have s₀ := run_testIssued (P := fun _ => True) (p := testPending) rfl (by decide)
    (fun _ _ => trivial) trivial
  have s₁ := s₀.step (a := .save "a.b" 1001 .done)
    (.save rfl rfl ⟨by decide, by decide⟩ (by decide)) trivial
  have s₂ := s₁.step (a := .crash) (.crash (fun _ h => h) (fun _ _ h => h)) trivial
  obtain ⟨w, hr, hp, hstored⟩ : ∃ w, Run testParse (fun _ => True) testFirst w ∧
      w.process = none ∧ w.stored testParse "a.b" = some testCertificate := ⟨_, s₂, rfl, rfl⟩
  have hlookup := lookup_initialCertificates (w.stored testParse) ["a.b"] "a.b"
  rw [if_pos List.mem_cons_self, hstored] at hlookup
  have h : certificateCallback (some "a.B") (fun _ => some testSite)
      (initialCertificates (w.stored testParse) ["a.b"]) 1001 = some testCertificate :=
    certificateCallback_eq_some.mpr ⟨"a.B", testSite, rfl, rfl, rfl, hlookup, by decide⟩
  obtain ⟨name, -, hname, -, -, -, -, hcovers⟩ :=
    handshake_covered ⟨rfl, rfl⟩ hr (.inr ⟨_, rfl⟩) h
  obtain rfl := Option.some.inj hname
  exact ⟨w, hr, hp, h, hcovers⟩

/-! ### A saved certificate stays -/

/-- Whatever is left of the domain's file after a crash is a certificate, and the loop has one
    in use once it has read the file. -/
structure Kept (parse : Parse) (domain : String) (w : World) : Prop where
  saved : (w.certificateFile domain).Always (fun pem => pem.bind (parse domain) ≠ none)
  served : ∀ phase l, w.process = some (phase, l) →
    l.loaded = [] ∨ l.certificates.lookup domain ≠ none

section

variable {parse : Parse} {w w' : World} {a : Act} {domain : String} {phase phase' : Phase}
  {l l' : Loop}

/-- The site stays configured. -/
def Configures (domain : String) : Act → Prop
  | .configure domains => domain ∈ domains
  | _ => True

/-- A process ends by a crash only. -/
theorem Step.ends (hs : Step parse w a w') (hl' : w'.process = none) :
    ∀ d, (w.certificateFile d).Crash (w'.certificateFile d) := by
  cases hs with
  | crash hretries hcertificates => exact hcertificates
  | tick _ | join _ _ _ _ | saveRetries _ | configure _ _ | keepWaiting _ _ _
  | beginSave _ _ _ _ _ | saveAccount _ _ | expire _ _ _ _ | save _ _ _ _ | endSave _
  | rest _ _ _ _ | persist _ _ _ _ | registerLater _ _ _ _ | register _ _ _ _
  | registered _ _ | spawnAll _ _ | begin _ _ | spawn _ _ | spawnedAll _ | load _ =>
    exact absurd hl' (by simp [World.enter])

/-- Writing a parsed certificate of any domain keeps the file one of certificates. -/
theorem Kept.write (h : Kept parse domain w) {d : String} {p : PendingCertificate}
    (hparse : parse d p.pem = some p.certificate) (outcome : Written) :
    ((w.writeCertificate d p.pem outcome).certificateFile domain).Always
      (fun pem => pem.bind (parse domain) ≠ none) := by
  by_cases hd : domain = d
  · subst hd
    simp only [World.writeCertificate, if_true]
    apply h.saved.write
    simp [hparse]
  · simp only [World.writeCertificate, if_neg hd]
    exact h.saved

theorem Kept.serves (h : Kept parse domain w) (hl : w.process = some (phase, l))
    (hl' : w'.process = some (phase', l')) (hparsed : Parsed parse l)
    (hs : Serves parse w l w' l' a) (ha : Configures domain a) : Kept parse domain w' := by
  have hin : ∀ phase₁ l₁, w'.process = some (phase₁, l₁) → l₁ = l' := by
    intro phase₁ l₁ hl₁
    exact (Prod.mk.inj (Option.some.inj (hl₁.symm.trans hl'))).2
  cases hs with
  | issued hparse hpending hcertificates hloaded hfile
  | expired hpending hcertificates hloaded hfile
  | nothing hpending hcertificates hloaded hfile =>
    refine ⟨hfile ▸ h.saved, fun phase₁ l₁ hl₁ => ?_⟩
    rw [hin _ _ hl₁, hcertificates, hloaded]
    exact h.served phase l hl
  | @configured domains hconf hfile =>
    refine ⟨hfile ▸ h.saved, fun phase₁ l₁ hl₁ => .inr ?_⟩
    have ha : domain ∈ domains := ha
    rw [hin _ _ hl₁, hconf, lookup_configure, if_pos ha]
    intro hnone
    obtain ⟨hold, hload⟩ := Option.or_eq_none_iff.mp hnone
    rcases h.served phase l hl with hloaded | hserved
    · -- The first configuration reads the file.
      rw [hloaded, if_pos (by simp)] at hload
      exact h.saved.content hload
    · exact hserved hold
  | @saved d now p outcome hlookup hinstall hfile =>
    refine ⟨?_, fun phase₁ l₁ hl₁ => ?_⟩
    · rw [hfile]
      exact h.write (hparsed.waiting d p hlookup) outcome
    · rw [hin _ _ hl₁, hinstall]
      split
      · refine (h.served phase l hl).imp_right (fun hserved => ?_)
        show (l.certificates.insert d p.certificate).lookup domain ≠ none
        rw [Map.lookup_insert_eq]
        split
        · simp
        · exact hserved
      · exact h.served phase l hl

theorem Step.kept (hs : Step parse w a w') (h : Kept parse domain w) (hexcl : w.Exclusive)
    (hparsed : ∀ phase l, w.process = some (phase, l) → Parsed parse l)
    (ha : Configures domain a) : Kept parse domain w' := by
  cases hl' : w'.process with
  | none =>
    refine ⟨h.saved.crash (hs.ends hl' domain), fun phase l hl => ?_⟩
    rw [hl'] at hl
    exact absurd hl (by simp)
  | some x' =>
    obtain ⟨phase', l'⟩ := x'
    cases hl : w.process with
    | none =>
      obtain ⟨-, -, hloaded, hfile⟩ := hs.starts hl hl'
      refine ⟨hfile ▸ h.saved, fun phase₁ l₁ hl₁ => .inl ?_⟩
      obtain ⟨-, rfl⟩ := Prod.mk.inj (Option.some.inj (hl₁.symm.trans hl'))
      exact hloaded
    | some x =>
      obtain ⟨phase, l⟩ := x
      exact h.serves hl hl' (hparsed _ _ hl) (hs.serves hexcl hl hl') ha

theorem Run.trans {P : Act → Prop} {w₁ w₂ w₃ : World} (h : Run parse P w₁ w₂)
    (h' : Run parse P w₂ w₃) : Run parse P w₁ w₃ := by
  induction h' with
  | refl => exact h
  | step _ hs ha ih => exact ih.step hs ha

theorem Run.kept {P : Act → Prop} {w₀ w₁ w₂ : World} (hfirst : First w₀) (hr : Run parse P w₀ w₁)
    (h : Kept parse domain w₁) (hr' : Run parse (Configures domain) w₁ w₂) :
    Kept parse domain w₂ := by
  induction hr' with
  | refl => exact h
  | @step w₂ w₃ a hr' hs ha ih =>
    have hwhole : Run parse (fun _ => True) w₀ w₂ :=
      (hr.mono (fun _ _ => trivial)).trans (hr'.mono (fun _ _ => trivial))
    exact hs.kept ih (hwhole.exclusive hfirst) (fun _ _ hl => hwhole.parsed hfirst hl) ha

/-- A successful save keeps the certificate from then on. -/
theorem kept_save {now : ℤ} (hs : Step parse w (.save domain now .done) w')
    (hparsed : ∀ phase l, w.process = some (phase, l) → Parsed parse l) :
    Kept parse domain w' := by
  cases hs with
  | @save l domains left saved _ p _ _ hp hpending hnow hvalid =>
    have hparse := (hparsed _ _ hp).waiting domain p hpending
    refine ⟨?_, fun phase₁ l₁ hl₁ => .inr ?_⟩
    · simp only [World.enter, World.writeCertificate, if_true]
      exact File.always_done.mpr (by simp [hparse])
    · obtain ⟨-, rfl⟩ := Prod.mk.inj (Option.some.inj hl₁)
      simp [Loop.install]

end

/-- **A saved certificate is never lost.**  Once the loop has saved a certificate, and as long as
    the site stays configured: in every later state, however often writes fail, orders end badly
    or the power goes, the site's file holds a certificate that parses, so that a new process
    starts with one; and a loop past its first pass has one in use. -/
theorem certificate_never_lost {parse : Parse} {P : Act → Prop} {w₀ w w₁ w₂ : World}
    {domain : String} {now : ℤ} (hfirst : First w₀) (hr : Run parse P w₀ w)
    (hs : Step parse w (.save domain now .done) w₁)
    (hr' : Run parse (Configures domain) w₁ w₂) :
    w₂.stored parse domain ≠ none ∧
    (∀ domains, domain ∈ domains →
      (initialCertificates (w₂.stored parse) domains).lookup domain ≠ none) ∧
    ∀ phase l, w₂.process = some (phase, l) →
      l.loaded = [] ∨ l.certificates.lookup domain ≠ none := by
  have hkept : Kept parse domain w₂ := by
    apply Run.kept hfirst ((hr.mono (fun _ _ => trivial) (Q := fun _ => True)).step hs trivial) _ hr'
    exact kept_save hs (fun _ _ hl => hr.parsed hfirst hl)
  refine ⟨hkept.saved.content, fun domains hd => ?_, hkept.served⟩
  rw [lookup_initialCertificates, if_pos hd]
  exact hkept.saved.content

/-- The power goes after the save; the next process has the certificate in use after its first
    pass. -/
theorem certificate_never_lost_restarted :
    ∃ w₀ w₁ w₂ l, Run testParse (fun _ => True) testFirst w₀ ∧
      Step testParse w₀ (.save "a.b" 1001 .done) w₁ ∧ Run testParse (Configures "a.b") w₁ w₂ ∧
      w₂.process = some (.save ["a.b"], l) ∧ l.certificates.lookup "a.b" ≠ none := by
  have s₀ := run_testIssued (P := fun _ => True) (p := testPending) rfl (by decide)
    (fun _ _ => trivial) trivial
  obtain ⟨w₁, hsave⟩ : ∃ w₁, Step testParse (testIssued testPending) (.save "a.b" 1001 .done) w₁ :=
    ⟨_, .save rfl rfl ⟨by decide, by decide⟩ (by decide)⟩
  have r₀ : Run testParse (Configures "a.b") w₁ w₁ := .refl
  have r₁ := r₀.step (a := .crash) (.crash (fun _ h => h) (fun _ _ h => h)) trivial
  have r₂ := r₁.step (a := .load) (.load rfl) trivial
  have r₃ := r₂.step (a := .tick) (.tick rfl) trivial
  have r₄ := r₃.step (a := .configure ["a.b"]) (.configure rfl (by decide)) (by simp [Configures])
  obtain ⟨w₂, l, hr, hl, hloaded⟩ : ∃ w₂ l, Run testParse (Configures "a.b") w₁ w₂ ∧
      w₂.process = some (.save ["a.b"], l) ∧ l.loaded = ["a.b"] := ⟨_, _, r₄, rfl, rfl⟩
  have hserved := (certificate_never_lost ⟨rfl, rfl⟩ s₀ hsave hr).2.2 _ _ hl
  exact ⟨_, w₁, w₂, l, s₀, hsave, hr, hl, hserved.resolve_left (by simp [hloaded])⟩

end Certificates

end Geata
