/-
  File:      Specter/Core/Serde.lean
  Subject:   THE WIRE FORMAT OF A TOKEN (specter-core/src/serde_token.rs).

  `serializeToken` writes the sections one after the other, lengths and indices truncated to
  the bytes the source gives them; `deserializeToken` reads them with the checks and the errors
  of the source, in its order, and ignores what follows the last section.

  * `WireFits` -- the counts and lengths of a token are those its bytes can hold;
  * `Admitted` -- the limits the decoder checks;
  * `deserializeToken_serializeToken_iff` -- a token that fits comes back, as itself, exactly
    where the decoder admits it;
  * `deserializeToken_wellFormed` -- whatever the bytes, a decoded token is within the limits.
-/
import Specter.Core.Token
import Specter.Lib.Reader
import Specter.Lib.Utf8

namespace Specter

open Lib Lib.Reader

variable {S P : Type} [Field S] [AddCommGroup P] [Module S P]

inductive SerdeError where
  | bufferTooShort (need available : Nat)
  | invalidPoint (offset : Nat)
  | invalidScalar (offset : Nat)
  | invalidMagic
  | unsupportedVersion (version : UInt8)
  | io (reason : String)
  deriving DecidableEq

def SerdeError.display : SerdeError → String
  | .bufferTooShort need available =>
      "buffer too short: need " ++ toString need ++ " bytes, have " ++ toString available
  | .invalidPoint offset => "invalid point encoding at offset " ++ toString offset
  | .invalidScalar offset => "invalid scalar encoding at offset " ++ toString offset
  | .invalidMagic => "invalid magic bytes"
  | .unsupportedVersion version => "unsupported version: " ++ toString version
  | .io reason => "IO error: " ++ reason

/-- What the code takes from the Unicode tables: `char::is_alphanumeric`, which holds of no
    U+FFFD. -/
structure CharTable where
  isAlphanumeric : Char → Bool
  isAlphanumeric_replacement : isAlphanumeric '\uFFFD' = false

/-- `Scalar::from_canonical_bytes`. -/
def Suite.fromCanonicalBytes (C : Suite S P) (b : Bytes32) : Option S :=
  if C.asBytes (C.fromBytesModOrder b) = b then some (C.fromBytesModOrder b) else none

theorem Suite.fromCanonicalBytes_asBytes (C : Suite S P) (s : S) :
    C.fromCanonicalBytes (C.asBytes s) = some s := by
  unfold Suite.fromCanonicalBytes
  rw [C.fromBytesModOrder_asBytes, if_pos rfl]

namespace Serde

def magic : Bytes := ascii "SPCT"
def version : UInt8 := 1
def maxFoldSteps : Nat := 10000
def maxPool : Nat := 10000

/-! ## 1. Writing -/

section Write

variable (C : Suite S P)

def writePoint (p : P) : Bytes := (C.compress p).toList

def writeScalar (s : S) : Bytes := (C.asBytes s).toList

def writeBool (b : Bool) : UInt8 := if b then 1 else 0

/-- `jur.len() as u8`, then the bytes, all of them. -/
def writeString (s : String) : Bytes := UInt8.ofNat (utf8Bytes s).length :: utf8Bytes s

/-- The flag byte of an optional section, then the section. -/
def writeOption {α : Type} (write : α → Bytes) : Option α → Bytes
  | none => [0]
  | some a => 1 :: write a

/-- The credential block, written alike for the token's own and for a pool entry's. -/
def writeCredential (cred : Credential S P) : Bytes :=
  writePoint C cred.commitment ++ writeScalar C cred.blinding ++
  [writeBool cred.attributes.kycPassed] ++ [writeBool cred.attributes.notSanctioned] ++
  writeString cred.attributes.jurisdiction ++ [writeBool cred.attributes.ageOver18] ++
  le64 cred.attributes.expiresAt ++ writeScalar C cred.signatureS ++
  writeScalar C cred.signatureE ++ writePoint C cred.issuerPk

/-- The presentation block, written alike in both places. -/
def writePresentation (pres : Presentation S P) : Bytes :=
  writePoint C pres.commitment ++ writePoint C pres.issuerPk ++
  writeScalar C pres.credSignatureS ++ writeScalar C pres.credSignatureE ++
  [UInt8.ofNat pres.disclosed.length] ++
  (pres.disclosed.flatMap fun d => UInt8.ofNat d.1 :: writeScalar C d.2) ++
  writePoint C pres.proofCommitment ++ [UInt8.ofNat pres.proofResponse.length] ++
  pres.proofResponse.flatMap (writeScalar C) ++ writeScalar C pres.proofChallenge

def writeVdf (vdf : VdfProof) : Bytes :=
  vdf.seed.toList ++ le64 vdf.iterations ++ vdf.output.toList

def writeStep (step : TransferStep S P) : Bytes :=
  writePoint C step.newOwnerPk ++ writePoint C step.sigR ++ writeScalar C step.sigS

/-- `credential_pool.len() as u16`, then every entry. -/
def writePool (pool : List (Credential S P × Presentation S P)) : Bytes :=
  leBytes 2 pool.length ++ pool.flatMap fun e => writeCredential C e.1 ++ writePresentation C e.2

/-- Everything before the owner secret: 205 bytes. -/
def writeHead (token : ProofCarryingToken S P) : Bytes :=
  magic ++ [version] ++ token.tokenId.toList ++ le64 token.value ++
  writePoint C token.valueCommitment ++ writePoint C token.valueProof.commitment ++
  writeScalar C token.valueProof.response ++ writeScalar C token.mintSignature.s ++
  writeScalar C token.mintSignature.e

/-- From behind the owner secret to the genesis owner hash. -/
def writeChain (token : ProofCarryingToken S P) : Bytes :=
  token.hashChainHead.toList ++ le32 token.transferCount ++ le32 token.recursionBound ++
  writePoint C token.foldProof.genesisOwnerPk ++ le32 token.foldProof.steps ++
  token.foldProof.stepsChain.flatMap (writeStep C) ++ token.genesisOwnerHash.toList

/-- What follows the credential section. -/
def writeTail (token : ProofCarryingToken S P) : Bytes :=
  writeOption (writePresentation C) token.presentation ++
  writeOption writeVdf token.vdfProof ++
  writeOption (·.toList) token.bondOwnerId ++ writePool C token.credentialPool

def serializeToken (token : ProofCarryingToken S P) : Bytes :=
  writeHead C token ++ token.ownerSecret.toList ++ writeChain C token ++
  writeOption (writeCredential C) token.credential ++ writeTail C token

end Write

/-! ## 2. Reading -/

/-- `data[pos..pos + len]`. -/
def slice (data : Bytes) (pos len : Nat) (h : ¬ pos + len > data.length) : ByteArr len :=
  ⟨(data.drop pos).take len, by simp; omega⟩

/-- `read_bytes`: the slice carries the length asked for. -/
def readBytes (len : Nat) : Reader SerdeError (ByteArr len) := fun data pos =>
  if h : pos + len > data.length then .error (.bufferTooShort (pos + len) data.length)
  else .ok (slice data pos len h, pos + len)

def readU8 : Reader SerdeError UInt8 := do
  let bytes ← readBytes 1
  pure bytes.head

def readU16 : Reader SerdeError UInt16 := do
  let bytes ← readBytes 2
  pure (UInt16.ofNat (ofLE bytes.toList))

def readU32 : Reader SerdeError UInt32 := do
  let bytes ← readBytes 4
  pure (UInt32.ofNat (ofLE bytes.toList))

def readU64 : Reader SerdeError UInt64 := do
  let bytes ← readBytes 8
  pure (UInt64.ofNat (ofLE bytes.toList))

def readArray32 : Reader SerdeError Bytes32 := readBytes 32

/-- `read_u8(..)? != 0`. -/
def readBool : Reader SerdeError Bool := do
  let b ← readU8
  pure (b != 0)

/-- A length byte, then that many bytes as a string, whatever they are. -/
def readString : Reader SerdeError String := do
  let len ← readU8
  let bytes ← readBytes len.toNat
  pure (fromUtf8Lossy bytes.toList)

/-- A section behind a flag byte; every flag but 1 is absence. -/
def readOption {α : Type} (read : Reader SerdeError α) : Reader SerdeError (Option α) := do
  let flag ← readU8
  if flag = 1 then
    let a ← read
    pure (some a)
  else pure none

section Read

variable (C : Suite S P)

def readPoint : Reader SerdeError P := do
  let bytes ← readBytes 32
  ofOption (C.decompress bytes) fun pos => .invalidPoint (pos - 32)

def readScalar : Reader SerdeError S := do
  let bytes ← readBytes 32
  ofOption (C.fromCanonicalBytes bytes) fun pos => .invalidScalar (pos - 32)

/-- The credential block. The token's own credential has its jurisdiction checked as soon as
    it is read, a pool entry has not: `check` is that step. -/
def readCredential (check : String → Reader SerdeError Unit) :
    Reader SerdeError (Credential S P) := do
  let commitment ← readPoint C
  let blinding ← readScalar C
  let kycPassed ← readBool
  let notSanctioned ← readBool
  let jurisdiction ← readString
  check jurisdiction
  let ageOver18 ← readBool
  let expiresAt ← readU64
  let signatureS ← readScalar C
  let signatureE ← readScalar C
  let issuerPk ← readPoint C
  pure
    { commitment := commitment
      blinding := blinding
      attributes :=
        { kycPassed := kycPassed
          notSanctioned := notSanctioned
          jurisdiction := jurisdiction
          ageOver18 := ageOver18
          expiresAt := expiresAt }
      signatureS := signatureS
      signatureE := signatureE
      issuerPk := issuerPk }

def readDisclosed : Reader SerdeError (Nat × S) := do
  let idx ← readU8
  let val ← readScalar C
  pure (idx.toNat, val)

def readPresentation : Reader SerdeError (Presentation S P) := do
  let commitment ← readPoint C
  let issuerPk ← readPoint C
  let credSignatureS ← readScalar C
  let credSignatureE ← readScalar C
  let nDisclosed ← readU8
  let disclosed ← replicateM (readDisclosed C) nDisclosed.toNat
  let proofCommitment ← readPoint C
  let nResponses ← readU8
  let proofResponse ← replicateM (readScalar C) nResponses.toNat
  let proofChallenge ← readScalar C
  pure
    { commitment := commitment
      issuerPk := issuerPk
      credSignatureS := credSignatureS
      credSignatureE := credSignatureE
      disclosed := disclosed
      proofCommitment := proofCommitment
      proofResponse := proofResponse
      proofChallenge := proofChallenge }

def readVdf : Reader SerdeError VdfProof := do
  let seed ← readArray32
  let iterations ← readU64
  let output ← readArray32
  pure { seed := seed, iterations := iterations, output := output }

def readStep : Reader SerdeError (TransferStep S P) := do
  let newOwnerPk ← readPoint C
  let sigR ← readPoint C
  let sigS ← readScalar C
  pure { newOwnerPk := newOwnerPk, sigR := sigR, sigS := sigS }

/-- The characters a jurisdiction may consist of. -/
def safeChar (U : CharTable) (c : Char) : Bool := U.isAlphanumeric c || c == '-' || c == '_'

def checkJurisdiction (U : CharTable) (jurisdiction : String) : Reader SerdeError Unit :=
  ensure (jurisdiction.toList.all (safeChar U) = true) (.io "invalid jurisdiction characters")

def readPoolEntry : Reader SerdeError (Credential S P × Presentation S P) := do
  let cred ← readCredential C fun _ => pure ()
  let pres ← readPresentation C
  pure (cred, pres)

/-- The credential pool; a buffer that ends before its count has none. -/
def readPool : Reader SerdeError (List (Credential S P × Presentation S P)) := do
  let present ← available 2
  if present then
    let poolCount ← readU16
    ensure (poolCount.toNat ≤ maxPool) (.io ("credential pool count " ++ toString poolCount ++
      " exceeds cap " ++ toString maxPool))
    replicateM (readPoolEntry C) poolCount.toNat
  else pure []

/-- The part up to the genesis owner hash, as a token with empty optional sections. -/
def readFixed : Reader SerdeError (ProofCarryingToken S P) := do
  let m ← readBytes 4
  ensure (m.toList = magic) .invalidMagic
  let v ← readU8
  ensure (v = version) (.unsupportedVersion v)
  let tokenId ← readArray32
  let value ← readU64
  ensure (value ≠ 0) (.io "token value must be non-zero")
  let valueCommitment ← readPoint C
  let vpCommitment ← readPoint C
  let vpResponse ← readScalar C
  let sigS ← readScalar C
  let sigE ← readScalar C
  let ownerSecret ← readArray32
  let hashChainHead ← readArray32
  let transferCount ← readU32
  let recursionBound ← readU32
  ensure (transferCount ≤ recursionBound) (.io "transfer_count exceeds recursion_bound")
  let genesisOwnerPk ← readPoint C
  let foldSteps ← readU32
  ensure (foldSteps.toNat ≤ maxFoldSteps) (.io ("fold steps " ++ toString foldSteps ++
    " exceeds cap " ++ toString maxFoldSteps))
  let stepsChain ← replicateM (readStep C) foldSteps.toNat
  let genesisOwnerHash ← readArray32
  pure
    { tokenId := tokenId
      value := value
      valueCommitment := valueCommitment
      valueProof := { commitment := vpCommitment, response := vpResponse }
      mintSignature := { s := sigS, e := sigE }
      ownerSecret := ownerSecret
      hashChainHead := hashChainHead
      transferCount := transferCount
      recursionBound := recursionBound
      foldProof :=
        { genesisOwnerPk := genesisOwnerPk, stepsChain := stepsChain, steps := foldSteps }
      genesisOwnerHash := genesisOwnerHash
      credential := none
      presentation := none
      vdfProof := none
      bondOwnerId := none
      credentialPool := [] }

/-- The optional sections and the pool, behind the fixed part. -/
def readSections (U : CharTable) (fixed : ProofCarryingToken S P) :
    Reader SerdeError (ProofCarryingToken S P) := do
  let credential ← readOption (readCredential C (checkJurisdiction U))
  let presentation ← readOption (readPresentation C)
  let vdfProof ← readOption readVdf
  let bondOwnerId ← readOption readArray32
  let credentialPool ← readPool C
  pure
    { fixed with
      credential := credential
      presentation := presentation
      vdfProof := vdfProof
      bondOwnerId := bondOwnerId
      credentialPool := credentialPool }

def deserializeToken (U : CharTable) (data : Bytes) :
    Except SerdeError (ProofCarryingToken S P) :=
  (readFixed C >>= readSections C U).decode data

end Read

/-! ## 3. Fields come back -/

theorem reads_bytes {n : Nat} (a : ByteArr n) : Reads (readBytes n) a.toList a := by
  intro data pos rest h
  have hlen := h.length
  rw [List.length_append, a.toList_length] at hlen
  have hin : ¬ pos + n > data.length := by omega
  have hslice : slice data pos n hin = a := by
    refine List.Vector.eq _ _ ?_
    show (data.drop pos).take n = a.toList
    rw [h.drop, List.take_left' a.toList_length]
  show (if h : pos + n > data.length then _ else _) = _
  rw [dif_neg hin, hslice, a.toList_length]

theorem reads_leArr {n k : Nat} : Reads (readBytes n) (leBytes n k) (leArr n k) :=
  reads_bytes (leArr n k)

theorem reads_u8 (b : UInt8) : Reads readU8 [b] b :=
  Reads.map (reads_bytes ⟨[b], rfl⟩)

theorem reads_u16 {n : Nat} (hn : n < 2 ^ 16) :
    Reads readU16 (leBytes 2 n) (UInt16.ofNat n) := by
  have h := Reads.map (f := fun b : ByteArr 2 => UInt16.ofNat (ofLE b.toList))
    (reads_leArr (n := 2) (k := n))
  rwa [ofLE_leArr hn] at h

theorem reads_u32 (x : UInt32) : Reads readU32 (le32 x) x := by
  have h := Reads.map (f := fun b : ByteArr 4 => UInt32.ofNat (ofLE b.toList))
    (reads_leArr (n := 4) (k := x.toNat))
  rwa [ofLE_leArr x.toNat_lt, UInt32.ofNat_toNat] at h

theorem reads_u64 (x : UInt64) : Reads readU64 (le64 x) x := by
  have h := Reads.map (f := fun b : ByteArr 8 => UInt64.ofNat (ofLE b.toList))
    (reads_leArr (n := 8) (k := x.toNat))
  rwa [ofLE_leArr x.toNat_lt, UInt64.ofNat_toNat] at h

theorem reads_array32 (a : Bytes32) : Reads readArray32 a.toList a := reads_bytes a

theorem reads_bool (b : Bool) : Reads readBool [writeBool b] b := by
  have h := Reads.map (f := fun x : UInt8 => x != 0) (reads_u8 (writeBool b))
  cases b <;> exact h

theorem toNat_ofNat_u8 {n : Nat} (hn : n ≤ 255) : (UInt8.ofNat n).toNat = n := by
  rw [UInt8.toNat_ofNat']
  exact Nat.mod_eq_of_lt (by omega)

theorem reads_string {s : String} (hs : (utf8Bytes s).length ≤ 255) :
    Reads readString (writeString s) s := by
  have hbytes : ∀ n, n = (utf8Bytes s).length →
      Reads (readBytes n >>= fun b => pure (fromUtf8Lossy b.toList)) (utf8Bytes s) s := by
    intro n hn
    subst hn
    have h := Reads.map (f := fun b : ByteArr _ => fromUtf8Lossy b.toList)
      (reads_bytes ⟨utf8Bytes s, rfl⟩)
    rwa [show fromUtf8Lossy (List.Vector.toList ⟨utf8Bytes s, rfl⟩) = s from
      fromUtf8Lossy_utf8Bytes s] at h
  exact Reads.bind (reads_u8 _) (hbytes _ (toNat_ofNat_u8 hs))

variable {C : Suite S P}

theorem reads_point (p : P) : Reads (readPoint C) (writePoint C p) p := by
  rw [← List.append_nil (writePoint C p)]
  exact Reads.bind (reads_bytes (C.compress p)) (Reads.ofOption (C.decompress_compress p))

theorem reads_scalar (s : S) : Reads (readScalar C) (writeScalar C s) s := by
  rw [← List.append_nil (writeScalar C s)]
  exact Reads.bind (reads_bytes (C.asBytes s)) (Reads.ofOption (C.fromCanonicalBytes_asBytes s))

theorem reads_step (step : TransferStep S P) : Reads (readStep C) (writeStep C step) step := by
  unfold writeStep
  rw [List.append_assoc]
  exact Reads.bind (reads_point _) (Reads.bind (reads_point _) (Reads.map (reads_scalar _)))

theorem reads_vdf (vdf : VdfProof) : Reads readVdf (writeVdf vdf) vdf := by
  unfold writeVdf
  rw [List.append_assoc]
  exact Reads.bind (reads_array32 _) (Reads.bind (reads_u64 _) (Reads.map (reads_array32 _)))

theorem reads_disclosed {d : Nat × S} (hd : d.1 ≤ 255) :
    Reads (readDisclosed C) (UInt8.ofNat d.1 :: writeScalar C d.2) d := by
  have h := Reads.bind (f := fun idx => do
      let val ← readScalar C
      pure (idx.toNat, val)) (reads_u8 (UInt8.ofNat d.1)) (Reads.map (reads_scalar d.2))
  rwa [toNat_ofNat_u8 hd] at h

/-- The section behind a flag byte, present or absent. -/
theorem readsIf_option {α : Type} {r : Reader SerdeError α} {w : α → Bytes}
    {p : α → Prop} {o : Option α} (h : ∀ a ∈ o, ReadsIf (p a) r (w a) a) :
    ReadsIf (∀ a ∈ o, p a) (readOption r) (writeOption w o) o := by
  cases o with
  | none =>
      have hr : Reads (readOption r) [0] none :=
        Reads.bind (reads_u8 0) (Reads.pure none)
      exact hr.always.congr ⟨fun _ _ ha => (nomatch ha), fun _ => trivial⟩
  | some a =>
      have ha := h a rfl
      have hr : ReadsIf (p a) (readOption r) ([1] ++ (w a ++ [])) (some a) := by
        refine ReadsIf.bind (reads_u8 1) ?_
        exact (ReadsIf.both ha (Reads.pure (some a)).always).congr (and_iff_left trivial)
      rw [List.append_nil] at hr
      exact hr.congr ⟨fun hp b hb => by cases hb; exact hp, fun hp => hp a rfl⟩

theorem reads_option {α : Type} {r : Reader SerdeError α} {w : α → Bytes} {o : Option α}
    (h : ∀ a ∈ o, Reads r (w a) a) : Reads (readOption r) (writeOption w o) o :=
  (readsIf_option (p := fun _ => True) fun a ha => (h a ha).always).reads fun _ _ => trivial

/-! ## 4. What the bytes can hold, and what the decoder admits -/

/-- The length byte holds the length of the jurisdiction. -/
def CredentialFits (cred : Credential S P) : Prop :=
  (utf8Bytes cred.attributes.jurisdiction).length ≤ 255

/-- The count and index bytes of a presentation hold their values. -/
structure PresentationFits (pres : Presentation S P) : Prop where
  disclosed : pres.disclosed.length ≤ 255
  indices : ∀ d ∈ pres.disclosed, d.1 < 256
  responses : pres.proofResponse.length ≤ 255

/-- Every count and length of the token is the one its bytes say. -/
structure WireFits (token : ProofCarryingToken S P) : Prop where
  steps : token.foldProof.steps.toNat = token.foldProof.stepsChain.length
  credential : ∀ c ∈ token.credential, CredentialFits c
  presentation : ∀ p ∈ token.presentation, PresentationFits p
  pool : token.credentialPool.length < 2 ^ 16
  entries : ∀ e ∈ token.credentialPool, CredentialFits e.1 ∧ PresentationFits e.2

/-- The characters of the jurisdiction pass the check. -/
def SafeJurisdiction (U : CharTable) (cred : Credential S P) : Prop :=
  cred.attributes.jurisdiction.toList.all (safeChar U) = true

instance (U : CharTable) (cred : Credential S P) : Decidable (SafeJurisdiction U cred) :=
  inferInstanceAs (Decidable (_ = true))

/-- The limits `deserializeToken` checks. -/
structure Admitted (U : CharTable) (token : ProofCarryingToken S P) : Prop where
  value : token.value ≠ 0
  count : token.transferCount ≤ token.recursionBound
  chain : token.foldProof.stepsChain.length ≤ maxFoldSteps
  jurisdiction : ∀ c ∈ token.credential, SafeJurisdiction U c
  pool : token.credentialPool.length ≤ maxPool

/-- The credential block comes back where its jurisdiction passes the check. -/
theorem readsIf_credential {p : Prop} {check : String → Reader SerdeError Unit}
    {cred : Credential S P} (hfit : CredentialFits cred)
    (hcheck : ReadsIf p (check cred.attributes.jurisdiction) [] ()) :
    ReadsIf p (readCredential C check) (writeCredential C cred) cred := by
  unfold writeCredential
  simp only [List.append_assoc]
  refine .bind (reads_point _) (.bind (reads_scalar _) (.bind (reads_bool _)
    (.bind (reads_bool _) (.bind (reads_string hfit) ?_))))
  -- the check reads nothing and is the only step that can fail
  refine (hcheck.silent (Reads.always ?_)).congr (and_iff_left trivial)
  exact .bind (reads_bool _) (.bind (reads_u64 _) (.bind (reads_scalar _)
    (.bind (reads_scalar _) (.map (reads_point _)))))

theorem reads_presentation {pres : Presentation S P} (hfit : PresentationFits pres) :
    Reads (readPresentation C) (writePresentation C pres) pres := by
  have hd := Reads.replicateM (r := readDisclosed C) pres.disclosed fun d hmem =>
    reads_disclosed (Nat.le_of_lt_succ (hfit.indices d hmem))
  have hr := Reads.replicateM (r := readScalar C) pres.proofResponse fun s _ => reads_scalar s
  rw [← toNat_ofNat_u8 hfit.disclosed] at hd
  rw [← toNat_ofNat_u8 hfit.responses] at hr
  unfold writePresentation
  simp only [List.append_assoc]
  exact .bind (reads_point _) (.bind (reads_point _) (.bind (reads_scalar _)
    (.bind (reads_scalar _) (.bind (reads_u8 _) (.bind hd (.bind (reads_point _)
    (.bind (reads_u8 _) (.bind hr (.map (reads_scalar _))))))))))

theorem reads_poolEntry {e : Credential S P × Presentation S P} (hc : CredentialFits e.1)
    (hp : PresentationFits e.2) :
    Reads (readPoolEntry C) (writeCredential C e.1 ++ writePresentation C e.2) e :=
  .bind ((readsIf_credential hc (Reads.pure ()).always).reads trivial)
    (.map (reads_presentation hp))

theorem readsIf_pool {pool : List (Credential S P × Presentation S P)}
    (hlen : pool.length < 2 ^ 16)
    (hfit : ∀ e ∈ pool, CredentialFits e.1 ∧ PresentationFits e.2) :
    ReadsIf (pool.length ≤ maxPool) (readPool C) (writePool C pool) pool := by
  have hcount : (UInt16.ofNat pool.length).toNat = pool.length := by
    rw [UInt16.toNat_ofNat']
    exact Nat.mod_eq_of_lt hlen
  have hentries := Reads.replicateM (r := readPoolEntry C) pool fun e hmem =>
    reads_poolEntry (hfit e hmem).1 (hfit e hmem).2
  rw [← hcount] at hentries
  unfold writePool
  refine ReadsIf.available (by rw [List.length_append, length_leBytes]; omega) ?_
  refine ReadsIf.congr (p := (UInt16.ofNat pool.length).toNat ≤ maxPool ∧ True) ?_
    (by rw [hcount]; exact and_iff_left trivial)
  exact ReadsIf.bind (reads_u16 hlen) (ReadsIf.ensure hentries.always)

/-! ## 5. The whole token -/

/-- The token without its optional sections. -/
def fixedPart (token : ProofCarryingToken S P) : ProofCarryingToken S P :=
  { token with
    credential := none
    presentation := none
    vdfProof := none
    bondOwnerId := none
    credentialPool := [] }

/-- The bytes of the fixed part. -/
def writeFixed (C : Suite S P) (token : ProofCarryingToken S P) : Bytes :=
  writeHead C token ++ token.ownerSecret.toList ++ writeChain C token

theorem serializeToken_eq (C : Suite S P) (token : ProofCarryingToken S P) :
    serializeToken C token = writeFixed C token ++
      (writeOption (writeCredential C) token.credential ++ writeTail C token) := by
  unfold serializeToken writeFixed
  simp only [List.append_assoc]

/-- The three limits checked in the fixed part. -/
structure FixedAdmitted (token : ProofCarryingToken S P) : Prop where
  value : token.value ≠ 0
  count : token.transferCount ≤ token.recursionBound
  chain : token.foldProof.steps.toNat ≤ maxFoldSteps

theorem readsIf_fixed {token : ProofCarryingToken S P}
    (hsteps : token.foldProof.steps.toNat = token.foldProof.stepsChain.length) :
    ReadsIf (FixedAdmitted token) (readFixed C) (writeFixed C token) (fixedPart token) := by
  have hchain := Reads.replicateM (r := readStep C) token.foldProof.stepsChain fun step _ =>
    reads_step step
  rw [← hsteps] at hchain
  have hmagic : Reads (readBytes 4) magic ⟨magic, rfl⟩ := reads_bytes ⟨magic, rfl⟩
  unfold writeFixed writeHead writeChain
  simp only [List.append_assoc]
  refine ReadsIf.congr (p := magic = magic ∧ version = version ∧ token.value ≠ 0 ∧
    token.transferCount ≤ token.recursionBound ∧
    token.foldProof.steps.toNat ≤ maxFoldSteps ∧ True) ?_
    ⟨fun h => ⟨h.2.2.1, h.2.2.2.1, h.2.2.2.2.1⟩,
      fun h => ⟨rfl, rfl, h.value, h.count, h.chain, trivial⟩⟩
  -- the five checks in the order of the source, each after the field it is about
  refine .bind hmagic (.ensure (.bind (reads_u8 version) (.ensure ?_)))
  refine .bind (reads_array32 _) (.bind (reads_u64 _) (.ensure ?_))
  refine .bind (reads_point _) (.bind (reads_point _) (.bind (reads_scalar _)
    (.bind (reads_scalar _) (.bind (reads_scalar _) ?_))))
  refine .bind (reads_array32 _) (.bind (reads_array32 _) (.bind (reads_u32 _)
    (.bind (reads_u32 _) (.ensure ?_))))
  refine .bind (reads_point _) (.bind (reads_u32 _) (.ensure ?_))
  exact (Reads.bind hchain (Reads.map (reads_array32 _))).always

theorem readsIf_sections {U : CharTable} {token : ProofCarryingToken S P}
    (hfit : WireFits token) :
    ReadsIf ((∀ c ∈ token.credential, SafeJurisdiction U c) ∧
        token.credentialPool.length ≤ maxPool)
      (readSections C U (fixedPart token))
      (writeOption (writeCredential C) token.credential ++ writeTail C token) token := by
  have hcred := readsIf_option (p := SafeJurisdiction U) (w := writeCredential C)
    (o := token.credential) fun c hc => readsIf_credential (C := C) (hfit.credential c hc)
      (show ReadsIf (SafeJurisdiction U c) (checkJurisdiction U _) [] () from readsIf_ensure)
  have hpres := reads_option (w := writePresentation C) (o := token.presentation)
    fun p hp => reads_presentation (hfit.presentation p hp)
  have hvdf := reads_option (o := token.vdfProof) fun v _ => reads_vdf v
  have hbond := reads_option (w := (·.toList)) (o := token.bondOwnerId)
    fun a _ => reads_array32 a
  have hpool := readsIf_pool (C := C) hfit.pool hfit.entries
  unfold writeTail
  simp only [List.append_assoc]
  refine .both hcred (.bind hpres (.bind hvdf (.bind hbond ?_)))
  rw [← List.append_nil (writePool C token.credentialPool)]
  exact (ReadsIf.both hpool (Reads.pure token).always).congr (and_iff_left trivial)

/-- The decoder reads the bytes of a token that fits where it admits the token. -/
theorem readsIf_token {U : CharTable} {token : ProofCarryingToken S P} (hfit : WireFits token) :
    ReadsIf (Admitted U token) (readFixed C >>= readSections C U) (serializeToken C token)
      token := by
  have h := ReadsIf.both (readsIf_fixed (C := C) hfit.steps)
    (readsIf_sections (C := C) (U := U) hfit)
  rw [serializeToken_eq]
  refine h.congr ⟨fun ⟨hf, hj, hp⟩ => ?_, fun ha => ?_⟩
  · exact ⟨hf.value, hf.count, hfit.steps ▸ hf.chain, hj, hp⟩
  · exact ⟨⟨ha.value, ha.count, hfit.steps ▸ ha.chain⟩, ha.jurisdiction, ha.pool⟩

/-- **The codec on tokens that fit**: `deserializeToken` answers to the bytes of such a token
    exactly where it admits it, and then with the token itself. -/
theorem deserializeToken_serializeToken_iff {U : CharTable}
    {token token' : ProofCarryingToken S P} (hfit : WireFits token) :
    deserializeToken C U (serializeToken C token) = .ok token' ↔
      Admitted U token ∧ token' = token :=
  (readsIf_token hfit).decode

/-! ## 6. What is decoded is well formed -/

theorem yields_option {α : Type} {r : Reader SerdeError α} {Q : α → Prop} (h : Yields r Q) :
    Yields (readOption r) fun o => ∀ a ∈ o, Q a := by
  refine .bind (.any _) fun flag _ => ?_
  by_cases hf : flag = 1
  · rw [if_pos hf]
    exact .bind h fun a ha => .pure fun b hb => by cases hb; exact ha
  · rw [if_neg hf]
    exact .pure fun b hb => (nomatch hb)

theorem length_readString : Yields readString fun s =>
    '\uFFFD' ∉ s.toList → (utf8Bytes s).length ≤ 255 := by
  refine .bind (.any _) fun len _ => .bind (.any _) fun bytes _ => .pure fun hs => ?_
  have hlen := length_utf8Bytes_fromUtf8Lossy hs
  have hu8 := len.toNat_lt
  rw [bytes.toList_length] at hlen
  omega

/-- A jurisdiction that passes the check holds no U+FFFD. -/
theorem replacement_not_mem {U : CharTable} {s : String}
    (h : s.toList.all (safeChar U) = true) : '\uFFFD' ∉ s.toList := by
  intro hm
  have hc := List.all_eq_true.mp h _ hm
  unfold safeChar at hc
  rw [U.isAlphanumeric_replacement] at hc
  exact absurd hc (by decide)

/-- A checked credential has a safe jurisdiction, no longer than its length byte says. -/
theorem yields_credential (U : CharTable) :
    Yields (readCredential C (checkJurisdiction U)) fun c =>
      SafeJurisdiction U c ∧ CredentialFits c := by
  refine .bind (.any _) fun _ _ => .bind (.any _) fun _ _ => .bind (.any _) fun _ _ =>
    .bind (.any _) fun _ _ => .bind length_readString fun s hs => .bind .ensure fun _ hsafe => ?_
  refine .bind (.any _) fun _ _ => .bind (.any _) fun _ _ => .bind (.any _) fun _ _ =>
    .bind (.any _) fun _ _ => .bind (.any _) fun _ _ => ?_
  exact .pure ⟨hsafe, hs (replacement_not_mem hsafe)⟩

theorem yields_pool : Yields (readPool C) fun pool => pool.length ≤ maxPool := by
  refine .bind (.any _) fun present _ => ?_
  by_cases hp : present = true
  · rw [if_pos hp]
    refine .bind (.any _) fun count _ => .bind .ensure fun _ hcap => ?_
    intro data pos pool pos' h
    rw [Yields.replicateM _ data pos pool pos' h]
    exact hcap
  · rw [if_neg hp]
    exact .pure (Nat.zero_le _)

theorem yields_fixed : Yields (readFixed C) fun t =>
    FixedAdmitted t ∧ t.foldProof.steps.toNat = t.foldProof.stepsChain.length := by
  refine .bind (.any _) fun _ _ => .bind (.any _) fun _ _ => .bind (.any _) fun _ _ =>
    .bind (.any _) fun _ _ => .bind (.any _) fun _ _ => .bind (.any _) fun _ _ =>
    .bind .ensure fun _ hvalue => ?_
  refine .bind (.any _) fun _ _ => .bind (.any _) fun _ _ => .bind (.any _) fun _ _ =>
    .bind (.any _) fun _ _ => .bind (.any _) fun _ _ => .bind (.any _) fun _ _ =>
    .bind (.any _) fun _ _ => .bind (.any _) fun _ _ => .bind (.any _) fun _ _ =>
    .bind .ensure fun _ hcount => ?_
  refine .bind (.any _) fun _ _ => .bind (.any _) fun steps _ => .bind .ensure fun _ hcap =>
    .bind (.replicateM _) fun chain hchain => .bind (.any _) fun _ _ => ?_
  exact .pure ⟨⟨hvalue, hcount, hcap⟩, hchain.symm⟩

/-- What the sections may add to the fixed part. -/
theorem yields_sections (U : CharTable) (fixed : ProofCarryingToken S P) :
    Yields (readSections C U fixed) fun t =>
      fixedPart t = fixedPart fixed ∧
      (∀ c ∈ t.credential, SafeJurisdiction U c ∧ CredentialFits c) ∧
      t.credentialPool.length ≤ maxPool := by
  refine .bind (yields_option (yields_credential U)) fun _ hcred => .bind (.any _) fun _ _ =>
    .bind (.any _) fun _ _ => .bind (.any _) fun _ _ => .bind yields_pool fun _ hpool => ?_
  exact .pure ⟨rfl, hcred, hpool⟩

/-- What every decoded token satisfies. -/
theorem yields_token (U : CharTable) : Yields (readFixed C >>= readSections C U) fun t =>
    Admitted U t ∧ t.foldProof.steps.toNat = t.foldProof.stepsChain.length ∧
      ∀ c ∈ t.credential, CredentialFits c := by
  refine .bind yields_fixed fun fixed hfixed => ?_
  intro data pos t pos' ht
  obtain ⟨hsame, hcred, hpool⟩ := yields_sections U fixed data pos t pos' ht
  have hvalue : t.value = fixed.value := congrArg (·.value) hsame
  have hcount : t.transferCount = fixed.transferCount := congrArg (·.transferCount) hsame
  have hbound : t.recursionBound = fixed.recursionBound := congrArg (·.recursionBound) hsame
  have hfold : t.foldProof = fixed.foldProof := congrArg (·.foldProof) hsame
  obtain ⟨hlimits, hsteps⟩ := hfixed
  rw [← hfold] at hsteps
  have hchain : t.foldProof.stepsChain.length ≤ maxFoldSteps := by
    rw [← hsteps, hfold]
    exact hlimits.chain
  exact ⟨⟨hvalue ▸ hlimits.value, hcount ▸ hbound ▸ hlimits.count, hchain,
    fun c hc => (hcred c hc).1, hpool⟩, hsteps, fun c hc => (hcred c hc).2⟩

/-- **Whatever the bytes, a decoded token is within the limits**, and its own jurisdiction is
    no longer than one byte can say. -/
theorem deserializeToken_wellFormed {U : CharTable} {data : Bytes}
    {token : ProofCarryingToken S P} (h : deserializeToken C U data = .ok token) :
    Admitted U token ∧ ∀ c ∈ token.credential, CredentialFits c := by
  obtain ⟨hadm, _, hfits⟩ := (yields_token U).decode h
  exact ⟨hadm, hfits⟩

/-! ## 7. The round trip -/

/-- **Encode, then decode**: a token within the limits of the format comes back in every
    field, whichever of its optional sections are present. -/
theorem deserializeToken_serializeToken {U : CharTable} {token : ProofCarryingToken S P}
    (hvalue : 0 < token.value) (hcount : token.transferCount ≤ token.recursionBound)
    (hsteps : token.foldProof.steps.toNat = token.foldProof.stepsChain.length)
    (hchain : token.foldProof.stepsChain.length ≤ 10000)
    (hjur : ∀ c : Credential S P,
      (token.credential = some c ∨ ∃ p, (c, p) ∈ token.credentialPool) →
        (utf8Bytes c.attributes.jurisdiction).length ≤ 255)
    (hsafe : ∀ c, token.credential = some c → ∀ ch ∈ c.attributes.jurisdiction.toList,
      U.isAlphanumeric ch = true ∨ ch = '-' ∨ ch = '_')
    (hpres : ∀ p : Presentation S P,
      (token.presentation = some p ∨ ∃ c, (c, p) ∈ token.credentialPool) →
        p.disclosed.length ≤ 255 ∧ (∀ d ∈ p.disclosed, d.1 < 256) ∧
          p.proofResponse.length ≤ 255)
    (hpool : token.credentialPool.length ≤ 10000) :
    deserializeToken C U (serializeToken C token) = .ok token := by
  have hfits : ∀ p : Presentation S P,
      (token.presentation = some p ∨ ∃ c, (c, p) ∈ token.credentialPool) → PresentationFits p :=
    fun p hp => ⟨(hpres p hp).1, (hpres p hp).2.1, (hpres p hp).2.2⟩
  have hfit : WireFits token :=
    { steps := hsteps
      credential := fun c hc => hjur c (.inl hc)
      presentation := fun p hp => hfits p (.inl hp)
      pool := by omega
      entries := fun e he => ⟨hjur e.1 (.inr ⟨e.2, he⟩), hfits e.2 (.inr ⟨e.1, he⟩)⟩ }
  have hadm : Admitted U token :=
    { value := (UInt64.pos_iff_ne_zero).mp hvalue
      count := hcount
      chain := hchain
      jurisdiction := by
        intro c hc
        refine List.all_eq_true.mpr fun ch hch => ?_
        unfold safeChar
        rw [Bool.or_eq_true, Bool.or_eq_true, beq_iff_eq, beq_iff_eq, or_assoc]
        exact hsafe c hc ch hch
      pool := hpool }
  exact (deserializeToken_serializeToken_iff hfit).mpr ⟨hadm, rfl⟩

/-- The ASCII part of the character table. -/
def asciiTable : CharTable where
  isAlphanumeric := Char.isAlphanum
  isAlphanumeric_replacement := by decide

def sampleCredential : Credential SampleScalar SamplePoint where
  commitment := (3, 4)
  blinding := 5
  attributes := ⟨true, false, "EU-1", true, 77⟩
  signatureS := 6
  signatureE := 7
  issuerPk := (8, 9)

def samplePresentation : Presentation SampleScalar SamplePoint where
  commitment := (3, 4)
  issuerPk := (8, 9)
  credSignatureS := 6
  credSignatureE := 7
  disclosed := [(0, 1), (1, 0)]
  proofCommitment := (10, 11)
  proofResponse := [12, 13, 14, 15]
  proofChallenge := 16

/-- A token with one hand-over, every optional section and a pool. -/
def sampleWireToken : ProofCarryingToken SampleScalar SamplePoint where
  tokenId := leArr 32 1
  value := 9
  valueCommitment := (1, 2)
  valueProof := ⟨(2, 3), 4⟩
  mintSignature := ⟨5, 6⟩
  ownerSecret := leArr 32 7
  hashChainHead := leArr 32 8
  transferCount := 1
  recursionBound := 3
  foldProof := { genesisOwnerPk := (4, 0), stepsChain := [⟨(5, 0), (6, 0), 7⟩], steps := 1 }
  genesisOwnerHash := leArr 32 9
  credential := some sampleCredential
  presentation := some samplePresentation
  vdfProof := some ⟨leArr 32 10, 11, leArr 32 12⟩
  bondOwnerId := some (leArr 32 13)
  credentialPool := [(sampleCredential, samplePresentation)]

/-- The parts of the sample token fit their bytes. -/
theorem sampleWireToken_fits : WireFits sampleWireToken where
  steps := rfl
  credential := by
    intro c hc
    have hc' : sampleCredential = c := Option.some.inj hc
    rw [← hc']
    show _ ≤ 255
    decide +kernel
  presentation := by
    intro p hp
    have hp' : samplePresentation = p := Option.some.inj hp
    rw [← hp']
    exact ⟨by decide, by decide, by decide⟩
  pool := by decide
  entries := by
    intro e he
    rw [List.mem_singleton.mp he]
    refine ⟨?_, by decide, by decide, by decide⟩
    show _ ≤ 255
    decide +kernel

theorem sampleWireToken_admitted : Admitted asciiTable sampleWireToken where
  value := by decide
  count := by decide
  chain := by decide
  jurisdiction := by
    intro c hc
    have hc' : sampleCredential = c := Option.some.inj hc
    rw [← hc']
    decide +kernel
  pool := by decide

theorem sampleWireToken_comes_back :
    deserializeToken sampleSuite asciiTable (serializeToken sampleSuite sampleWireToken) =
      .ok sampleWireToken := by
  have hcred : ∀ c, (sampleWireToken.credential = some c ∨
      ∃ p, (c, p) ∈ sampleWireToken.credentialPool) → c = sampleCredential := by
    rintro c (hc | ⟨p, hp⟩)
    · exact (Option.some.inj hc).symm
    · exact (Prod.mk.inj (List.mem_singleton.mp hp)).1
  have hpres : ∀ p, (sampleWireToken.presentation = some p ∨
      ∃ c, (c, p) ∈ sampleWireToken.credentialPool) → p = samplePresentation := by
    rintro p (hp | ⟨c, hc⟩)
    · exact (Option.some.inj hp).symm
    · exact (Prod.mk.inj (List.mem_singleton.mp hc)).2
  refine deserializeToken_serializeToken (by decide) (by decide) (by decide) (by decide)
    ?_ ?_ ?_ (by decide)
  · intro c hc
    rw [hcred c hc]
    decide +kernel
  · intro c hc ch hch
    rw [hcred c (.inl hc)] at hch
    -- over the characters of the word, not over every character
    have hplain : (sampleCredential.attributes.jurisdiction.toList.all fun ch =>
        decide (asciiTable.isAlphanumeric ch = true ∨ ch = '-' ∨ ch = '_')) = true := by
      decide +kernel
    exact of_decide_eq_true (List.all_eq_true.mp hplain ch hch)
  · intro p hp
    rw [hpres p hp]
    decide +kernel

end Serde

end Specter
