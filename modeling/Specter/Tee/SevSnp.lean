/-
  File:      Specter/Tee/SevSnp.lean
  Subject:   VERIFYING A SEV-SNP ATTESTATION (specter-tee/src/sev_snp_verify.rs, tcb_policy.rs).

  What the crates sev and bincode do is the parameter `Sev`, with what their documentation says of
  it: a chain verifies when the root key signed the root and the intermediate certificate and the
  intermediate key signed the leaf, a report when the leaf key signed it. The keys of the two
  authority certificates and those of leaves are of different kinds (RSA, ECDSA over P-384).

  * `TcbPolicy.check`, `chainFromCertTable`, `verifySnpReport` -- the checks, in their order;
  * `verifySnpReport_ok_iff` -- what an accepted attestation is;
  * `anchored_iff` -- whatever the policy, the accepted roots are all keys whose holder can sign:
    no set of roots is fixed outside the attestation.
-/
import Mathlib.Algebra.Order.BigOperators.Group.List
import Mathlib.Algebra.Order.Ring.Nat
import Mathlib.Algebra.Ring.Nat
import Mathlib.Data.Set.Basic
import Specter.Lib.Bincode
import Specter.Lib.Checks

namespace Specter

open Lib Lib.Checks

namespace Tee

/-! ## 1. The TCB policy -/

abbrev LaunchMeasurement := ByteArr 48

/-- The four component versions, of a report or as a floor. -/
structure TcbVersion where
  bootloader : UInt8
  tee : UInt8
  snp : UInt8
  microcode : UInt8
  deriving DecidableEq

structure TcbPolicy where
  minTcb : TcbVersion
  allowedMeasurements : List LaunchMeasurement
  maxVmpl : UInt32

inductive TcbPolicyViolation where
  | tcbTooOld (report minimum : String)
  | vmplTooHigh (report maximum : UInt32)
  | measurementNotAllowed
  deriving DecidableEq

def TcbPolicyViolation.display : TcbPolicyViolation → String
  | .tcbTooOld report minimum =>
      "report TCB (" ++ report ++ ") below minimum (" ++ minimum ++ ")"
  | .vmplTooHigh report maximum =>
      "report VMPL " ++ toString report ++ " exceeds maximum " ++ toString maximum
  | .measurementNotAllowed => "launch measurement not in allowed set"

def TcbVersion.text (v : TcbVersion) : String :=
  "bl=" ++ toString v.bootloader ++ " tee=" ++ toString v.tee ++ " snp=" ++ toString v.snp ++
    " uc=" ++ toString v.microcode

def TcbPolicy.check (policy : TcbPolicy) (tcb : TcbVersion) (reportMeasurement : LaunchMeasurement)
    (reportVmpl : UInt32) : Except TcbPolicyViolation Unit := do
  reject (tcb.bootloader < policy.minTcb.bootloader ∨ tcb.tee < policy.minTcb.tee ∨
      tcb.snp < policy.minTcb.snp ∨ tcb.microcode < policy.minTcb.microcode)
    (.tcbTooOld tcb.text policy.minTcb.text)
  reject (reportVmpl > policy.maxVmpl) (.vmplTooHigh reportVmpl policy.maxVmpl)
  reject (policy.allowedMeasurements ≠ [] ∧
      policy.allowedMeasurements.any (· == reportMeasurement) = false)
    .measurementNotAllowed

/-- Every policy lets some report through. -/
theorem TcbPolicy.exists_check_ok (policy : TcbPolicy) :
    ∃ tcb measurement vmpl, policy.check tcb measurement vmpl = .ok () := by
  refine ⟨policy.minTcb, policy.allowedMeasurements.headD (List.Vector.replicate 48 0), 0, ?_⟩
  unfold TcbPolicy.check
  simp only [bind_ok_iff, reject_ok_iff]
  refine ⟨(), ?_, (), ?_, ?_⟩
  · simp [UInt8.lt_irrefl]
  · exact UInt32.not_lt.mpr (UInt32.zero_le)
  · intro h
    obtain ⟨hne, hany⟩ := h
    obtain ⟨m, rest, hlist⟩ := List.exists_cons_of_ne_nil hne
    rw [hlist] at hany
    simp at hany

/-! ## 2. The attestation -/

inductive Platform where
  | none
  | sevSnp
  deriving DecidableEq

structure Attestation where
  platform : Platform
  report : Bytes
  userData : ByteArr 64

inductive AttestationError where
  | platformUnavailable
  | snpDeviceError (text : String)
  | snpReportError (text : String)
  | verifyError (text : String)
  | tcbPolicyViolation (violation : TcbPolicyViolation)
  deriving DecidableEq

def AttestationError.display : AttestationError → String
  | .platformUnavailable => "no confidential-compute platform available"
  | .snpDeviceError text => "SEV-SNP guest device /dev/sev-guest not accessible: " ++ text
  | .snpReportError text => "SEV-SNP report request failed: " ++ text
  | .verifyError text => "attestation verification failed: " ++ text
  | .tcbPolicyViolation violation => "TCB policy violation: " ++ violation.display

structure SnpWire where
  reportBytes : Bytes
  certTable : Option (List (String × Bytes))

/-- `sev::certs::snp::Chain`: the two authority certificates and the leaf. -/
structure Chain (Cert : Type) where
  ark : Cert
  ask : Cert
  vek : Cert

/-- What the code takes from sev and bincode: `CaKey` are the keys certificates are signed with,
    `VekKey` those reports are signed with. An error is the text its `Debug` form prints. -/
structure Sev (CaKey VekKey Cert Report : Type) where
  /-- `bincode::serialize`, `bincode::deserialize` at `SnpWire`. -/
  serialize : SnpWire → Bytes
  deserialize : Bytes → Except String SnpWire
  reportFromBytes : Bytes → Except String Report
  certificateFromDer : Bytes → Except String Cert
  reportData : Report → ByteArr 64
  currentTcb : Report → TcbVersion
  measurement : Report → ByteArr 48
  vmpl : Report → UInt32
  /-- The public key a certificate is for, if it is of the one kind or of the other. -/
  caKey : Cert → Option CaKey
  vekKey : Cert → Option VekKey
  /-- The holder of the key has signed the certificate, or the report. -/
  SignedCert : CaKey → Cert → Prop
  SignedReport : VekKey → Report → Prop
  /-- `Verifiable` for a chain, and for a chain with a report. -/
  verifyChain : Chain Cert → Except String Unit
  verifyReport : Chain Cert → Report → Except String Unit
  deserialize_serialize : ∀ wire, (serialize wire).length < 2 ^ 32 →
    deserialize (serialize wire) = .ok wire
  length_serialize : ∀ wire, (serialize wire).length = 8 + wire.reportBytes.length + 1 +
    (wire.certTable.map fun table =>
      8 + (table.map fun entry => 16 + (utf8Bytes entry.1).length + entry.2.length).sum).getD 0
  verifyChain_ok : ∀ chain, verifyChain chain = .ok () ↔ ∃ root inter,
    caKey chain.ark = some root ∧ caKey chain.ask = some inter ∧
      SignedCert root chain.ark ∧ SignedCert root chain.ask ∧ SignedCert inter chain.vek
  verifyReport_ok : ∀ chain report, verifyReport chain report = .ok () ↔
    ∃ leaf, vekKey chain.vek = some leaf ∧ SignedReport leaf report

/-! ## 3. The verifier -/

section Verify

variable {CaKey VekKey Cert Report : Type} (sev : Sev CaKey VekKey Cert Report)

/-- 1 MiB. -/
def maxEnvelopeBytes : Nat := 2 ^ 20

/-- The first entry of that name. -/
def findCert (table : List (String × Bytes)) (name : String) : Option Bytes :=
  (table.find? (·.1 = name)).map (·.2)

def chainFromCertTable (table : List (String × Bytes)) : Except AttestationError (Chain Cert) := do
  let arkDer ← require (findCert table "ark") (.verifyError "cert table missing ARK")
  let askDer ← require (findCert table "ask") (.verifyError "cert table missing ASK")
  let vcekDer ← require (findCert table "vcek") (.verifyError "cert table missing VCEK")
  let ark ← (sev.certificateFromDer arkDer).mapError fun e => .verifyError ("parse ARK: " ++ e)
  let ask ← (sev.certificateFromDer askDer).mapError fun e => .verifyError ("parse ASK: " ++ e)
  let vcek ← (sev.certificateFromDer vcekDer).mapError fun e => .verifyError ("parse VCEK: " ++ e)
  return { ark := ark, ask := ask, vek := vcek }

def verifySnpReport (attestation : Attestation) (expectedUserData : ByteArr 64)
    (policy : TcbPolicy) : Except AttestationError Unit := do
  reject (attestation.platform ≠ .sevSnp) (.verifyError "attestation is not from SEV-SNP")
  reject (attestation.userData ≠ expectedUserData)
    (.verifyError "user_data mismatch between attestation and expected")
  reject (attestation.report.length > maxEnvelopeBytes)
    (.verifyError "attestation report exceeds 1 MiB envelope cap")
  let wire ← (sev.deserialize attestation.report).mapError fun e =>
    .verifyError ("deserialize envelope: " ++ e)
  reject (wire.reportBytes.length > maxEnvelopeBytes)
    (.verifyError "inner report exceeds 1 MiB cap")
  (wire.certTable.getD []).forM fun entry =>
    reject (entry.2.length > maxEnvelopeBytes) (.verifyError "inner cert exceeds 1 MiB cap")
  let report ← (sev.reportFromBytes wire.reportBytes).mapError fun e =>
    .verifyError ("parse report: " ++ e)
  reject (sev.reportData report ≠ expectedUserData)
    (.verifyError "report.report_data != expected_user_data")
  let certTable ← require wire.certTable (.verifyError "no cert table in attestation envelope")
  let chain ← chainFromCertTable sev certTable
  (sev.verifyChain chain).mapError fun e => .verifyError ("chain: " ++ e)
  (sev.verifyReport chain report).mapError fun e => .verifyError ("report sig: " ++ e)
  (policy.check (sev.currentTcb report) (sev.measurement report) (sev.vmpl report)).mapError
    .tcbPolicyViolation

/-- What the envelope of an attestation holds: the report, and the certificates under the three
    names. -/
def Holds (attestation : Attestation) (chain : Chain Cert) (report : Report) : Prop :=
  ∃ wire table, sev.deserialize attestation.report = .ok wire ∧
    wire.certTable = some table ∧ sev.reportFromBytes wire.reportBytes = .ok report ∧
    chainFromCertTable sev table = .ok chain

/-- The report was signed through the chain, which ends in a root of `roots`. -/
def SignedThrough (roots : Set CaKey) (chain : Chain Cert) (report : Report) : Prop :=
  ∃ root ∈ roots, ∃ inter leaf, sev.caKey chain.ark = some root ∧
    sev.caKey chain.ask = some inter ∧ sev.vekKey chain.vek = some leaf ∧
    sev.SignedCert root chain.ark ∧ sev.SignedCert root chain.ask ∧
    sev.SignedCert inter chain.vek ∧ sev.SignedReport leaf report

end Verify

section Accepted

variable {CaKey VekKey Cert Report : Type} {sev : Sev CaKey VekKey Cert Report}

theorem chainFromCertTable_ok_iff {table : List (String × Bytes)} {chain : Chain Cert} :
    chainFromCertTable sev table = .ok chain ↔
      ∃ arkDer askDer vcekDer, findCert table "ark" = some arkDer ∧
        findCert table "ask" = some askDer ∧ findCert table "vcek" = some vcekDer ∧
        sev.certificateFromDer arkDer = .ok chain.ark ∧
        sev.certificateFromDer askDer = .ok chain.ask ∧
        sev.certificateFromDer vcekDer = .ok chain.vek := by
  unfold chainFromCertTable
  simp only [bind_ok_iff, require_ok_iff, mapError_ok_iff]
  constructor
  · intro hread
    obtain ⟨arkDer, h1, askDer, h2, vcekDer, h3, ark, h4, ask, h5, vcek, h6, h⟩ := hread
    cases h
    exact ⟨arkDer, askDer, vcekDer, h1, h2, h3, h4, h5, h6⟩
  · intro hread
    obtain ⟨arkDer, askDer, vcekDer, h1, h2, h3, h4, h5, h6⟩ := hread
    exact ⟨arkDer, h1, askDer, h2, vcekDer, h3, _, h4, _, h5, _, h6, rfl⟩

/-- **What an accepted attestation is.** The keys that signed are those of its own table. -/
theorem verifySnpReport_ok_iff {attestation : Attestation} {userData : ByteArr 64}
    {policy : TcbPolicy} : verifySnpReport sev attestation userData policy = .ok () ↔
      (attestation.platform = .sevSnp ∧ attestation.userData = userData ∧
        attestation.report.length ≤ maxEnvelopeBytes) ∧
      ∃ wire table report chain, sev.deserialize attestation.report = .ok wire ∧
        wire.reportBytes.length ≤ maxEnvelopeBytes ∧ wire.certTable = some table ∧
        (∀ entry ∈ table, entry.2.length ≤ maxEnvelopeBytes) ∧
        sev.reportFromBytes wire.reportBytes = .ok report ∧ sev.reportData report = userData ∧
        chainFromCertTable sev table = .ok chain ∧
        SignedThrough sev Set.univ chain report ∧
        policy.check (sev.currentTcb report) (sev.measurement report) (sev.vmpl report) =
          .ok () := by
  have hloop : ∀ table : List (String × Bytes), (table.forM fun entry =>
      reject (maxEnvelopeBytes < entry.2.length)
        (AttestationError.verifyError "inner cert exceeds 1 MiB cap")) = .ok () ↔
      ∀ entry ∈ table, entry.2.length ≤ maxEnvelopeBytes := by
    intro table
    rw [forM_ok_iff]
    simp only [reject_ok_iff, not_lt]
  unfold verifySnpReport
  simp only [bind_ok_iff, reject_ok_iff, mapError_ok_iff, require_ok_iff, not_not, not_lt,
    sev.verifyChain_ok, sev.verifyReport_ok, gt_iff_lt]
  constructor
  · intro h
    obtain ⟨_, hplat, _, hud, _, hlen, wire, hwire, _, hrep, _, hcaps, report, hreport, _, hdata,
        table, htable, chain, hchain, _, ⟨root, inter, hroot, hinter, h1, h2, h3⟩, _, ⟨leaf, hleaf,
        h4⟩, hpolicy⟩ := h
    rw [htable] at hcaps
    rw [Option.getD_some, hloop] at hcaps
    exact ⟨⟨hplat, hud, hlen⟩, wire, table, report, chain, hwire, hrep, htable, hcaps, hreport,
      hdata, hchain, ⟨root, Set.mem_univ _, inter, leaf, hroot, hinter, hleaf, h1, h2, h3, h4⟩,
      hpolicy⟩
  · intro h
    obtain ⟨⟨hplat, hud, hlen⟩, wire, table, report, chain, hwire, hrep, htable, hcaps, hreport,
        hdata, hchain, ⟨root, _, inter, leaf, hroot, hinter, hleaf, h1, h2, h3, h4⟩, hpolicy⟩ := h
    refine ⟨(), hplat, (), hud, (), hlen, wire, hwire, (), hrep, (), ?_, report, hreport, (),
      hdata, table, htable, chain, hchain, (), ⟨root, inter, hroot, hinter, h1, h2, h3⟩, (),
      ⟨leaf, hleaf, h4⟩, hpolicy⟩
    rw [htable, Option.getD_some, hloop]
    exact hcaps

/-- What the holder of an authority key can make: signed certificates for authority keys, its own
    among them, and for leaf keys. -/
structure CanCertify (sev : Sev CaKey VekKey Cert Report) (k : CaKey) : Prop where
  authority : ∀ j, ∃ der cert, der.length ≤ 4096 ∧ sev.certificateFromDer der = .ok cert ∧
    sev.caKey cert = some j ∧ sev.SignedCert k cert
  leaf : ∀ j, ∃ der cert, der.length ≤ 4096 ∧ sev.certificateFromDer der = .ok cert ∧
    sev.vekKey cert = some j ∧ sev.SignedCert k cert

/-- What the holder of a leaf key can make: a signed report with any contents. -/
def CanReport (sev : Sev CaKey VekKey Cert Report) (k : VekKey) : Prop :=
  ∀ data tcb measurement vmpl, ∃ bytes report, bytes.length ≤ 4096 ∧
    sev.reportFromBytes bytes = .ok report ∧ sev.reportData report = data ∧
    sev.currentTcb report = tcb ∧ sev.measurement report = measurement ∧
    sev.vmpl report = vmpl ∧ sev.SignedReport k report

/-- The certificate table with three certificates under their names. -/
def tableOf (ark ask vcek : Bytes) : List (String × Bytes) :=
  [("ark", ark), ("ask", ask), ("vcek", vcek)]

theorem length_serialize_tableOf (bytes ark ask vcek : Bytes) :
    (sev.serialize ⟨bytes, some (tableOf ark ask vcek)⟩).length =
      bytes.length + ark.length + ask.length + vcek.length + 75 := by
  have hnames : (utf8Bytes "ark").length = 3 ∧ (utf8Bytes "ask").length = 3 ∧
      (utf8Bytes "vcek").length = 4 := by decide
  rw [sev.length_serialize]
  simp only [tableOf, Option.map_some, Option.getD_some, List.map_cons, List.map_nil,
    List.sum_cons, List.sum_nil]
  omega

/-- **Whoever can certify is accepted as a root**: with an intermediate key and a leaf key of
    their own, under every policy. -/
theorem exists_accepted {root inter : CaKey} {leaf : VekKey} (hroot : CanCertify sev root)
    (hinter : CanCertify sev inter) (hleaf : CanReport sev leaf) (userData : ByteArr 64)
    (policy : TcbPolicy) : ∃ attestation chain report,
      verifySnpReport sev attestation userData policy = .ok () ∧
      Holds sev attestation chain report ∧ sev.caKey chain.ark = some root := by
  obtain ⟨tcb, measurement, vmpl, hcheck⟩ := policy.exists_check_ok
  obtain ⟨arkDer, ark, harkLen, hark, harkKey, harkSigned⟩ := hroot.authority root
  obtain ⟨askDer, ask, haskLen, hask, haskKey, haskSigned⟩ := hroot.authority inter
  obtain ⟨vekDer, vek, hvekLen, hvek, hvekKey, hvekSigned⟩ := hinter.leaf leaf
  obtain ⟨bytes, report, hbytes, hreport, hdata, htcb, hmeas, hvmpl, hrsigned⟩ :=
    hleaf userData tcb measurement vmpl
  have hlen : (sev.serialize ⟨bytes, some (tableOf arkDer askDer vekDer)⟩).length ≤
      maxEnvelopeBytes := by
    rw [length_serialize_tableOf]
    unfold maxEnvelopeBytes
    omega
  have hwire := sev.deserialize_serialize ⟨bytes, some (tableOf arkDer askDer vekDer)⟩
    (lt_of_le_of_lt hlen (by decide))
  have hchain : chainFromCertTable sev (tableOf arkDer askDer vekDer) = .ok ⟨ark, ask, vek⟩ :=
    chainFromCertTable_ok_iff.mpr ⟨arkDer, askDer, vekDer, rfl, rfl, rfl, hark, hask, hvek⟩
  have hcap : maxEnvelopeBytes = 1048576 := rfl
  refine ⟨⟨.sevSnp, sev.serialize ⟨bytes, some (tableOf arkDer askDer vekDer)⟩, userData⟩, _,
    report, verifySnpReport_ok_iff.mpr ⟨⟨rfl, rfl, hlen⟩, _, tableOf arkDer askDer vekDer, report,
      _, hwire, ?_, rfl, ?_, hreport, hdata, hchain, ⟨root, Set.mem_univ _, inter, leaf, harkKey,
        haskKey, hvekKey, harkSigned, haskSigned, hvekSigned, hrsigned⟩, ?_⟩,
    ⟨_, tableOf arkDer askDer vekDer, hwire, rfl, hreport, hchain⟩, harkKey⟩
  · show bytes.length ≤ _
    omega
  · intro entry hentry
    simp only [tableOf, List.mem_cons, List.not_mem_nil, or_false] at hentry
    rcases hentry with rfl | rfl | rfl <;> dsimp only <;> omega
  · rw [htcb, hmeas, hvmpl]
    exact hcheck

end Accepted

section Anchoring

variable {CaKey VekKey Cert Report : Type} {sev : Sev CaKey VekKey Cert Report}
  {roots : Set CaKey} {userData : ByteArr 64} {policy : TcbPolicy}

/-- Every accepted attestation was signed through a chain of its own that ends in `roots`. -/
def Anchored (sev : Sev CaKey VekKey Cert Report) (roots : Set CaKey)
    (userData : ByteArr 64) (policy : TcbPolicy) : Prop :=
  ∀ attestation, verifySnpReport sev attestation userData policy = .ok () →
    ∃ chain report, Holds sev attestation chain report ∧ SignedThrough sev roots chain report

/-- A set that holds every accepted root holds every key whose holder can certify. -/
theorem Anchored.mem (h : Anchored sev roots userData policy) {root : CaKey} {leaf : VekKey}
    (hroot : CanCertify sev root) (hleaf : CanReport sev leaf) : root ∈ roots := by
  obtain ⟨attestation, chain, report, hok, hholds, hark⟩ :=
    exists_accepted hroot hroot hleaf userData policy
  obtain ⟨chain', report', hholds', root', hmem, _, _, hark', _⟩ := h attestation hok
  -- the envelope has one reading, so this is the chain with the key `root`
  obtain ⟨wire, table, hwire, htable, _, hchain⟩ := hholds
  obtain ⟨wire', table', hwire', htable', _, hchain'⟩ := hholds'
  cases hwire.symm.trans hwire'
  cases htable.symm.trans htable'
  cases hchain.symm.trans hchain'
  cases hark.symm.trans hark'
  exact hmem

/-- **No set of roots is fixed outside the attestation.** Where authority keys can certify and
    some leaf key can report, whatever the expected user data and the policy, all accepted chains
    end in `roots` only if `roots` is the set of all authority keys: the root certificate comes
    from the attestation itself and is compared with nothing. -/
theorem anchored_iff (sev : Sev CaKey VekKey Cert Report) (hcertify : ∀ k, CanCertify sev k)
    {leaf : VekKey} (hleaf : CanReport sev leaf) (roots : Set CaKey) (userData : ByteArr 64)
    (policy : TcbPolicy) : Anchored sev roots userData policy ↔ roots = Set.univ := by
  constructor
  · exact fun h => Set.eq_univ_of_forall fun k => h.mem (hcertify k) hleaf
  · rintro rfl attestation hok
    obtain ⟨_, wire, table, report, chain, hwire, _, htable, _, hreport, _, hchain, hsigned, _⟩ :=
      verifySnpReport_ok_iff.mp hok
    exact ⟨chain, report, ⟨wire, table, hwire, htable, hreport, hchain⟩, hsigned⟩

end Anchoring

/-! ## 4. A world that evaluates -/

/-- A certificate for an authority key, or for a leaf key, that `signer` signed. -/
structure SampleCert where
  key : UInt8 ⊕ UInt8
  signer : UInt8
  deriving DecidableEq

structure SampleReport where
  data : ByteArr 64
  tcb : TcbVersion
  measurement : ByteArr 48
  vmpl : UInt32
  signer : UInt8

def sampleSerialize (wire : SnpWire) : Bytes :=
  Bincode.encBytes wire.reportBytes ++ Bincode.encOption (Bincode.encList fun entry =>
    Bincode.encString entry.1 ++ Bincode.encBytes entry.2) wire.certTable

def readEntry : Reader Bincode.Error (String × Bytes) := do
  let name ← Bincode.string
  let der ← Bincode.bytes
  pure (name, der)

def readWire : Reader Bincode.Error SnpWire := do
  let reportBytes ← Bincode.bytes
  let certTable ← Bincode.option (Bincode.list readEntry)
  pure { reportBytes := reportBytes, certTable := certTable }

theorem length_sampleSerialize (wire : SnpWire) : (sampleSerialize wire).length =
    8 + wire.reportBytes.length + 1 + (wire.certTable.map fun table => 8 +
      (table.map fun entry => 16 + (utf8Bytes entry.1).length + entry.2.length).sum).getD 0 := by
  have hentry : ∀ table : List (String × Bytes), (table.flatMap fun entry =>
      Bincode.encString entry.1 ++ Bincode.encBytes entry.2).length =
      (table.map fun entry => 16 + (utf8Bytes entry.1).length + entry.2.length).sum := by
    intro table
    induction table with
    | nil => rfl
    | cons entry table ih =>
        rw [List.flatMap_cons, List.length_append, ih, List.map_cons, List.sum_cons]
        rw [List.length_append, Bincode.length_encString, Bincode.length_encBytes]
        omega
  unfold sampleSerialize
  rw [List.length_append, Bincode.length_encBytes]
  cases wire.certTable with
  | none => rfl
  | some table =>
      rw [Bincode.encOption, List.length_cons, Bincode.encList, List.length_append,
        Bincode.length_encLength, hentry, Option.map_some, Option.getD_some]
      omega

theorem reads_wire {wire : SnpWire} (h : (sampleSerialize wire).length < 2 ^ 32) :
    Reader.Reads readWire (sampleSerialize wire) wire := by
  rw [length_sampleSerialize] at h
  refine Reader.Reads.bind (Bincode.reads_bytes (by omega)) (Reader.Reads.map
    (Bincode.reads_option fun table htable => ?_))
  rw [Option.mem_def.mp htable, Option.map_some, Option.getD_some] at h
  -- every part is no longer than the whole
  have hpart : ∀ entry ∈ table, 16 + (utf8Bytes entry.1).length + entry.2.length ≤
      (table.map fun entry => 16 + (utf8Bytes entry.1).length + entry.2.length).sum :=
    fun entry hentry => List.single_le_sum (by simp) _ (List.mem_map_of_mem hentry)
  have hcount : table.length ≤
      (table.map fun entry => 16 + (utf8Bytes entry.1).length + entry.2.length).sum := by
    have hle := List.length_le_sum_of_one_le
      (table.map fun entry => 16 + (utf8Bytes entry.1).length + entry.2.length) (by
        intro n hn
        obtain ⟨entry, _, rfl⟩ := List.mem_map.mp hn
        omega)
    rwa [List.length_map] at hle
  refine Bincode.reads_list (by omega) fun entry hentry => ?_
  have := hpart entry hentry
  exact Reader.Reads.bind (Bincode.reads_string (by omega))
    (Reader.Reads.map (Bincode.reads_bytes (by omega)))

def SampleReport.encode (r : SampleReport) : Bytes :=
  r.data.toList ++ ([r.tcb.bootloader, r.tcb.tee, r.tcb.snp, r.tcb.microcode] ++
    (r.measurement.toList ++ (le32 r.vmpl ++ [r.signer])))

def sampleReportFromBytes (bytes : Bytes) : Except String SampleReport :=
  if bytes.length ≠ 121 then .error "length"
  else
    let rest := bytes.drop 64
    .ok { data := takeArr 64 bytes
          tcb := ⟨rest.getD 0 0, rest.getD 1 0, rest.getD 2 0, rest.getD 3 0⟩
          measurement := takeArr 48 (rest.drop 4)
          vmpl := UInt32.ofNat (ofLE ((rest.drop 52).take 4))
          signer := rest.getD 56 0 }

theorem sampleReportFromBytes_encode (r : SampleReport) :
    r.encode.length = 121 ∧ sampleReportFromBytes r.encode = .ok r := by
  have hlen : r.encode.length = 121 := by
    simp [SampleReport.encode]
  have hrest : r.encode.drop 64 = [r.tcb.bootloader, r.tcb.tee, r.tcb.snp, r.tcb.microcode] ++
      (r.measurement.toList ++ (le32 r.vmpl ++ [r.signer])) :=
    List.drop_left' r.data.toList_length
  have h52 : (r.encode.drop 64).drop 52 = le32 r.vmpl ++ [r.signer] := by
    rw [hrest, show 52 = 4 + 48 from rfl, ← List.drop_drop]
    exact List.drop_left' r.measurement.toList_length
  have h56 : (r.encode.drop 64).getD 56 0 = r.signer := by
    have hdrop : (r.encode.drop 64).drop 56 = [r.signer] := by
      rw [show 56 = 52 + 4 from rfl, ← List.drop_drop, h52]
      exact List.drop_left' (length_le32 r.vmpl)
    have hget := congrArg (·.getD 0 0) hdrop
    simpa [List.getD_eq_getElem?_getD, List.getElem?_drop] using hget
  refine ⟨hlen, ?_⟩
  unfold sampleReportFromBytes
  rw [if_neg (not_not.mpr hlen)]
  dsimp only
  rw [h52, h56, hrest]
  have hvmpl : UInt32.ofNat (ofLE ((le32 r.vmpl ++ [r.signer]).take 4)) = r.vmpl := by
    rw [List.take_left' (length_le32 r.vmpl)]
    unfold le32
    have hlt : r.vmpl.toNat < 256 ^ 4 := r.vmpl.toNat_lt
    rw [ofLE_leBytes, Nat.mod_eq_of_lt hlt, UInt32.ofNat_toNat]
  have hdata : takeArr 64 r.encode = r.data := takeArr_append r.data _
  have hmeas : takeArr 48 (([r.tcb.bootloader, r.tcb.tee, r.tcb.snp, r.tcb.microcode] ++
      (r.measurement.toList ++ (le32 r.vmpl ++ [r.signer]))).drop 4) = r.measurement :=
    takeArr_append r.measurement _
  rw [hvmpl, hdata, hmeas]
  rfl

/-- Keys are bytes, of two kinds, and a signature names the key it was made with. -/
def sampleSev : Sev UInt8 UInt8 SampleCert SampleReport where
  serialize := sampleSerialize
  deserialize bytes := (readWire.decode bytes).mapError fun _ => "bincode"
  reportFromBytes := sampleReportFromBytes
  certificateFromDer der :=
    match der with
    | [0, k, s] => .ok { key := .inl k, signer := s }
    | [1, k, s] => .ok { key := .inr k, signer := s }
    | _ => .error "der"
  reportData := SampleReport.data
  currentTcb := SampleReport.tcb
  measurement := SampleReport.measurement
  vmpl := SampleReport.vmpl
  caKey cert := cert.key.getLeft?
  vekKey cert := cert.key.getRight?
  SignedCert k cert := cert.signer = k
  SignedReport k report := report.signer = k
  verifyChain chain := reject (¬(chain.ark.key = .inl chain.ark.signer ∧
    chain.ask.signer = chain.ark.signer ∧ chain.ask.key = .inl chain.vek.signer)) "chain"
  verifyReport chain report := reject (chain.vek.key ≠ .inr report.signer) "report"
  deserialize_serialize wire h := by
    rw [mapError_ok_iff]
    exact (reads_wire h).decode
  length_serialize := length_sampleSerialize
  verifyChain_ok chain := by
    rw [reject_ok_iff, not_not]
    simp only [Sum.getLeft?_eq_some_iff]
    constructor
    · intro hsigned
      obtain ⟨hark, hask, hkey⟩ := hsigned
      exact ⟨_, _, hark, hkey, rfl, hask, rfl⟩
    · intro hsigned
      obtain ⟨_, _, hark, hkey, rfl, hask, rfl⟩ := hsigned
      exact ⟨hark, hask, hkey⟩
  verifyReport_ok chain report := by
    rw [reject_ok_iff, not_not]
    simp only [Sum.getRight?_eq_some_iff]
    constructor
    · exact fun h => ⟨_, h, rfl⟩
    · intro hsigned
      obtain ⟨_, h, rfl⟩ := hsigned
      exact h

theorem sampleSev_canCertify (k : UInt8) : CanCertify sampleSev k where
  authority j := ⟨[0, j, k], ⟨.inl j, k⟩, by simp, rfl, rfl, rfl⟩
  leaf j := ⟨[1, j, k], ⟨.inr j, k⟩, by simp, rfl, rfl, rfl⟩

theorem sampleSev_canReport (k : UInt8) : CanReport sampleSev k := by
  intro data tcb measurement vmpl
  obtain ⟨hlen, hparse⟩ := sampleReportFromBytes_encode ⟨data, tcb, measurement, vmpl, k⟩
  exact ⟨_, _, by omega, hparse, rfl, rfl, rfl, rfl, rfl⟩

/-- A policy that pins the measurement and forbids every level but 0. -/
def strictPolicy : TcbPolicy where
  minTcb := ⟨3, 0, 8, 115⟩
  allowedMeasurements := [List.Vector.replicate 48 170]
  maxVmpl := 0

/-- One root key is not enough under the strict policy. -/
theorem anchored_iff_strict :
    ¬Anchored sampleSev {7} (List.Vector.replicate 64 1) strictPolicy := fun h =>
  have huniv := (anchored_iff sampleSev sampleSev_canCertify (sampleSev_canReport 5) {7} _
    strictPolicy).mp h
  absurd (huniv.ge (Set.mem_univ (66 : UInt8))) (by decide)

/-- An envelope with a root for the key 66, an intermediate for 67, a leaf for 5, and a report
    signed with that leaf. -/
def strayAttestation : Attestation where
  platform := .sevSnp
  report := sampleSerialize
    { reportBytes := SampleReport.encode ⟨List.Vector.replicate 64 1, ⟨3, 0, 8, 115⟩,
        List.Vector.replicate 48 170, 0, 5⟩
      certTable := some [("ark", [0, 66, 66]), ("ask", [0, 67, 66]), ("vcek", [1, 5, 67])] }
  userData := List.Vector.replicate 64 1

/-- **An attestation brings its own root**: the one under the key 66 passes the strict policy,
    and no set of roots that leaves out a key holds the roots of all accepted attestations. -/
theorem stray_root_accepted :
    verifySnpReport sampleSev strayAttestation (List.Vector.replicate 64 1) strictPolicy =
      .ok () ∧
    ¬∃ roots : Set UInt8, roots ≠ Set.univ ∧
      ∀ userData policy, Anchored sampleSev roots userData policy := by
  refine ⟨by decide +kernel, ?_⟩
  intro hanchor
  obtain ⟨roots, hne, h⟩ := hanchor
  exact hne (Set.eq_univ_of_forall fun k =>
    (h (List.Vector.replicate 64 1) strictPolicy).mem (sampleSev_canCertify k)
      (sampleSev_canReport 5))

end Tee

end Specter
