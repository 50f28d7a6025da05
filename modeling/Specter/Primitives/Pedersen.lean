/-
  File:      Specter/Primitives/Pedersen.lean
  Subject:   PEDERSEN COMMITMENTS AND THE VALUE PROOF (specter-primitives/src/pedersen.rs).

  * `PedersenParams.commit`, `commitVector` -- the commitments;
  * `proveValue`, `verifyValueProof` -- the proof that a commitment opens to a stated value;
  * `verifyValueProof_iff` -- what the verifier checks is one Schnorr transcript over `h` for
    the statement `C - v • g`;
  * `verifyValueProof_prove` -- an honest proof is accepted;
  * `ValueExtraction` -- a second answer of the prover to its nonce; `ValueExtraction.opening`
    -- the two answers open the commitment to the stated value.
-/
import Specter.Primitives.Suite

namespace Specter

open Lib

variable {S P : Type} [Field S] [AddCommGroup P] [Module S P]

structure PedersenParams (P : Type) where
  g : P
  h : P
  deriving DecidableEq

structure ValueProof (S P : Type) where
  commitment : P
  response : S
  deriving DecidableEq

namespace PedersenParams

/-- `PedersenParams::hash_to_point`. -/
def hashToPoint (C : Suite S P) (label : Bytes) : P := C.fromUniformBytes (C.sha512 label)

protected def new (C : Suite S P) : PedersenParams P where
  g := hashToPoint C (ascii "specter-pedersen-generator-G")
  h := hashToPoint C (ascii "specter-pedersen-generator-H")

def commit (pp : PedersenParams P) (value blinding : S) : P := value • pp.g + blinding • pp.h

/-- The generator of position `i` in a vector commitment. -/
def vectorGenerator (C : Suite S P) (i : Nat) : P :=
  hashToPoint C (ascii ("specter-pedersen-vector-G-" ++ toString i))

def commitVector (C : Suite S P) (pp : PedersenParams P) (values : List S) (blinding : S) : P :=
  (values.zipIdx.map fun p => p.1 • vectorGenerator C p.2).sum + blinding • pp.h

def valueProofChallenge (C : Suite S P) (h commitment : P) (claimedValue : S)
    (statement nonce : P) : S :=
  C.hashToScalar (ascii "specter-value-proof:" ++ (C.compress h).toList ++
    (C.compress commitment).toList ++ (C.asBytes claimedValue).toList ++
    (C.compress statement).toList ++ (C.compress nonce).toList)

/-- `prove_value` with the nonce `t` it draws. -/
def proveValue (C : Suite S P) (pp : PedersenParams P) (value blinding t : S) :
    ValueProof S P :=
  let tokenCommitment := pp.commit value blinding
  let tCommit := t • pp.h
  let challenge :=
    valueProofChallenge C pp.h tokenCommitment value (blinding • pp.h) tCommit
  { commitment := tCommit, response := t + challenge * blinding }

def verifyValueProof (C : Suite S P) (pp : PedersenParams P) (tokenCommitment : P)
    (claimedValue : S) (proof : ValueProof S P) : Bool :=
  let cMinusVg := tokenCommitment - claimedValue • pp.g
  let challenge :=
    valueProofChallenge C pp.h tokenCommitment claimedValue cMinusVg proof.commitment
  let lhs := proof.response • pp.h
  let rhs := proof.commitment + challenge • cMinusVg
  C.compress lhs == C.compress rhs

variable {C : Suite S P} {pp : PedersenParams P}

/-- The challenge `verifyValueProof` answers to. -/
def verifierChallenge (C : Suite S P) (pp : PedersenParams P) (tokenCommitment : P)
    (claimedValue : S) (proof : ValueProof S P) : S :=
  valueProofChallenge C pp.h tokenCommitment claimedValue
    (tokenCommitment - claimedValue • pp.g) proof.commitment

theorem verifyValueProof_iff {com : P} {v : S} {proof : ValueProof S P} :
    verifyValueProof C pp com v proof = true ↔
      Sigma.Accepts pp.h (com - v • pp.g) proof.commitment
        (verifierChallenge C pp com v proof) proof.response := by
  show (C.compress _ == C.compress _) = true ↔ _
  rw [beq_iff_eq, C.compress_inj]
  rfl

theorem commit_sub (v r : S) : pp.commit v r - v • pp.g = r • pp.h := by
  unfold commit
  abel

theorem verifyValueProof_prove (v r t : S) :
    verifyValueProof C pp (pp.commit v r) v (proveValue C pp v r t) = true := by
  rw [verifyValueProof_iff]
  unfold verifierChallenge
  rw [commit_sub]
  exact Sigma.Accepts.of_witness pp.h r t _

/-- A second answer of the prover of a value proof to its nonce. -/
structure ValueExtraction (C : Suite S P) (pp : PedersenParams P) (com : P) (v : S)
    (proof : ValueProof S P) where
  challenge : S
  response : S
  challenge_ne : verifierChallenge C pp com v proof ≠ challenge
  accepts : Sigma.Accepts pp.h (com - v • pp.g) proof.commitment challenge response

namespace ValueExtraction

variable {com : P} {v : S} {proof : ValueProof S P}

/-- What the two answers give for the exponent of `h`. -/
def blinding (x : ValueExtraction C pp com v proof) : S :=
  (verifierChallenge C pp com v proof - x.challenge)⁻¹ * (proof.response - x.response)

/-- **The two answers open the commitment** to the stated value. -/
theorem opening (x : ValueExtraction C pp com v proof)
    (h : verifyValueProof C pp com v proof = true) : com = pp.commit v x.blinding := by
  have hX : com - v • pp.g = x.blinding • pp.h :=
    (verifyValueProof_iff.mp h).extract x.accepts x.challenge_ne
  exact sub_eq_iff_eq_add'.mp hX

end ValueExtraction

end PedersenParams

end Specter
