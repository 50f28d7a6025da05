/-
  File:      Specter/Credential/Presentation.lean
  Subject:   SELECTIVE DISCLOSURE (specter-credential/src/presentation.rs).

  `createPresentation` with the blinding scalars it draws, and `verifyPresentation`. The
  verifier indexes `proof_response` by the number of hidden attributes, so its result is an
  `Option`: `none` is the out-of-range panic.
-/
import Specter.Credential.Issuer

namespace Specter

open Lib

variable {S P : Type} [Field S] [AddCommGroup P] [Module S P]

structure Presentation (S P : Type) where
  commitment : P
  issuerPk : P
  credSignatureS : S
  credSignatureE : S
  disclosed : List (Nat × S)
  proofCommitment : P
  proofResponse : List S
  proofChallenge : S
  deriving DecidableEq

namespace Presentation

def attrKycPassed : Nat := 0
def attrNotSanctioned : Nat := 1

def hashPresentationChallenge (C : Suite S P) (commitment proofCommitment : P)
    (disclosed : List (Nat × S)) (issuerPk : P) : S :=
  C.hashToScalar (ascii "specter-presentation-challenge:" ++ (C.compress commitment).toList ++
    (C.compress proofCommitment).toList ++ (C.compress issuerPk).toList ++
    disclosed.flatMap fun p => leBytes 8 p.1 ++ (C.asBytes p.2).toList)

/-- The attribute positions not among `indices`. -/
def hiddenIndices (indices : List Nat) : List Nat :=
  (List.range Attributes.count).filter (· ∉ indices)

/-- `create_presentation`; `randoms j` is the scalar drawn for the `j`th hidden attribute, and
    the one after the last hidden attribute blinds `h`. -/
def createPresentation (C : Suite S P) (credential : Credential S P) (discloseIndices : List Nat)
    (pedersen : PedersenParams P) (randoms : Nat → S) : Presentation S P :=
  let allScalars : List S := credential.attributes.toScalars
  let validDisclose := discloseIndices.filter (· < Attributes.count)
  let disclosed := validDisclose.map fun i => (i, allScalars.getD i 0)
  let hidden := hiddenIndices validDisclose
  let proofCommitment :=
    (hidden.zipIdx.map fun p => randoms p.2 • PedersenParams.vectorGenerator C p.1).sum +
      randoms hidden.length • pedersen.h
  let challenge := hashPresentationChallenge C credential.commitment proofCommitment disclosed
    credential.issuerPk
  let responses := hidden.zipIdx.map (fun p => randoms p.2 + challenge * allScalars.getD p.1 0) ++
    [randoms hidden.length + challenge * credential.blinding]
  { commitment := credential.commitment
    issuerPk := credential.issuerPk
    credSignatureS := credential.signatureS
    credSignatureE := credential.signatureE
    disclosed := disclosed
    proofCommitment := proofCommitment
    proofResponse := responses
    proofChallenge := challenge }

/-- `verify_presentation`; `none` where indexing `proof_response` panics. -/
def verifyPresentation (C : Suite S P) (pres : Presentation S P) (pedersen : PedersenParams P) :
    Option Bool :=
  if Issuer.signatureValid C pres.commitment pres.issuerPk pres.credSignatureS
      pres.credSignatureE = false then some false
  else
    let disclosedIndices := pres.disclosed.map (·.1)
    if disclosedIndices.any (· ≥ Attributes.count) then some false
    else do
      let hidden := hiddenIndices disclosedIndices
      let disclosedPart :=
        (pres.disclosed.map fun p => p.2 • PedersenParams.vectorGenerator C p.1).sum
      let cHidden := pres.commitment - disclosedPart
      let parts ← hidden.zipIdx.mapM fun p =>
        (pres.proofResponse[p.2]?).map (· • PedersenParams.vectorGenerator C p.1)
      let blind ← pres.proofResponse[hidden.length]?
      let recomputedT := parts.sum + blind • pedersen.h - pres.proofChallenge • cHidden
      let expected := hashPresentationChallenge C pres.commitment recomputedT pres.disclosed
        pres.issuerPk
      some (C.asBytes expected == C.asBytes pres.proofChallenge)

end Presentation

end Specter
