/-
  File:      Specter/Credential/Issuer.lean
  Subject:   CREDENTIALS AND THEIR ISSUER (specter-credential/src/credential.rs, issuer.rs).

  Attributes as scalars, the signed vector commitment, and `Issuer.issue` with the blinding
  and the nonce it draws. `issue_signed`: what the issuer returns is signed under its key.
-/
import Specter.Primitives.Pedersen

namespace Specter

open Lib

variable {S P : Type} [Field S] [AddCommGroup P] [Module S P]

structure Attributes where
  kycPassed : Bool
  notSanctioned : Bool
  jurisdiction : String
  ageOver18 : Bool
  expiresAt : UInt64
  deriving DecidableEq

namespace Attributes

def jurisdictionCode (a : Attributes) : UInt64 :=
  if a.jurisdiction = "EU" then 1
  else if a.jurisdiction = "US" then 2
  else if a.jurisdiction = "BR" then 3
  else if a.jurisdiction = "UK" then 4
  else if a.jurisdiction = "CH" then 5
  else if a.jurisdiction = "JP" then 6
  else 99

/-- `Attributes::count`. -/
def count : Nat := 5

def toScalars (a : Attributes) : List S :=
  [(a.kycPassed.toNat : S), (a.notSanctioned.toNat : S), (a.jurisdictionCode.toNat : S),
    (a.ageOver18.toNat : S), (a.expiresAt.toNat : S)]

end Attributes

structure Credential (S P : Type) where
  commitment : P
  blinding : S
  attributes : Attributes
  signatureS : S
  signatureE : S
  issuerPk : P
  deriving DecidableEq

structure Issuer (S P : Type) where
  secret : S
  pub : P
  pedersen : PedersenParams P

/-- What one issuance draws. -/
structure IssuerRandom (S : Type) where
  blinding : S
  nonce : S

def hashCredentialChallenge (C : Suite S P) (r commitment issuerPk : P) : S :=
  C.hashToScalar (ascii "specter-credential-sig:" ++ (C.compress r).toList ++
    (C.compress commitment).toList ++ (C.compress issuerPk).toList)

namespace Issuer

/-- `Issuer::new` with the secret it draws. -/
protected def new (C : Suite S P) (secret : S) : Issuer S P where
  secret := secret
  pub := secret • C.G
  pedersen := .new C

def issue (C : Suite S P) (issuer : Issuer S P) (attributes : Attributes)
    (rnd : IssuerRandom S) : Credential S P :=
  let commitment := issuer.pedersen.commitVector C attributes.toScalars rnd.blinding
  let r := rnd.nonce • C.G
  let e := hashCredentialChallenge C r commitment issuer.pub
  { commitment := commitment
    blinding := rnd.blinding
    attributes := attributes
    signatureS := rnd.nonce + e * issuer.secret
    signatureE := e
    issuerPk := issuer.pub }

/-- The signature check on a commitment, shared by `verify_credential_signature` and
    `verify_presentation`. -/
def signatureValid (C : Suite S P) (commitment issuerPk : P) (sigS sigE : S) : Bool :=
  let rPrime := sigS • C.G - sigE • issuerPk
  C.asBytes (hashCredentialChallenge C rPrime commitment issuerPk) == C.asBytes sigE

/-- **An issued credential is signed under the issuer's key.** -/
theorem issue_signed (C : Suite S P) (issuer : Issuer S P) (hpk : issuer.pub = issuer.secret • C.G)
    (a : Attributes) (rnd : IssuerRandom S) :
    let c := issuer.issue C a rnd
    signatureValid C c.commitment c.issuerPk c.signatureS c.signatureE = true := by
  intro c
  have hr : c.signatureS • C.G - c.signatureE • c.issuerPk = rnd.nonce • C.G := by
    show (rnd.nonce + c.signatureE * issuer.secret) • C.G - c.signatureE • issuer.pub = _
    rw [hpk, add_smul, mul_smul]
    abel
  unfold signatureValid
  rw [hr, beq_iff_eq, C.asBytes_inj]
  rfl

end Issuer

end Specter
