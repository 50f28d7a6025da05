/-
  File:      Specter/BlindSig/SchnorrBlind.lean
  Subject:   BLIND SCHNORR SIGNATURES (specter-blind-sig/src/schnorr_blind.rs).

  The requester's side (`blindChallenge`, `unblindSignature`) with the two blinding factors it
  draws as arguments, and the verifier. `verify_iff` reads the verifier as an equation;
  `verify_unblind` is correctness: whatever the factors, a response `s'` with
  `s' • G = R + e • PK` for the blinded challenge `e` unblinds to an accepted signature.
-/
import Specter.Primitives.Suite

namespace Specter

open Lib

variable {S P : Type} [Field S] [AddCommGroup P] [Module S P]

structure BlindSignature (S : Type) where
  s : S
  e : S
  deriving DecidableEq

structure BlindingFactors (S : Type) where
  alpha : S
  beta : S

namespace SchnorrBlind

variable (C : Suite S P)

def hashChallenge (r pk : P) (message : Bytes) : S :=
  C.hashToScalar (ascii "specter-blind-sig-challenge:" ++ (C.compress r).toList ++
    (C.compress pk).toList ++ leBytes 8 message.length ++ message)

/-- `R' = R + alpha * G + beta * PK`. -/
def blindedNonce (f : BlindingFactors S) (signerR signerPk : P) : P :=
  signerR + f.alpha • C.G + f.beta • signerPk

/-- The blinded challenge sent to the signer. -/
def blindChallenge (f : BlindingFactors S) (signerR signerPk : P) (message : Bytes) : S :=
  hashChallenge C (blindedNonce C f signerR signerPk) signerPk message + f.beta

def unblindSignature (sPrime : S) (f : BlindingFactors S) (signerR signerPk : P)
    (message : Bytes) : BlindSignature S where
  s := sPrime + f.alpha
  e := hashChallenge C (blindedNonce C f signerR signerPk) signerPk message

def verify (pk : P) (message : Bytes) (sig : BlindSignature S) : Bool :=
  let rPrime := sig.s • C.G - sig.e • pk
  C.asBytes (hashChallenge C rPrime pk message) == C.asBytes sig.e

variable {C}

theorem verify_iff {pk : P} {message : Bytes} {sig : BlindSignature S} :
    verify C pk message sig = true ↔
      hashChallenge C (sig.s • C.G - sig.e • pk) pk message = sig.e := by
  unfold verify
  rw [beq_iff_eq, C.asBytes_inj]

/-- A response to the challenge `e + beta` and the factor `alpha` on it give the blinded nonce
    back, under any challenge hash. -/
theorem unblinded_nonce {f : BlindingFactors S} {r pk : P} {e sPrime : S}
    (h : Sigma.Accepts C.G pk r (e + f.beta) sPrime) :
    (sPrime + f.alpha) • C.G - e • pk = blindedNonce C f r pk := by
  unfold Sigma.Accepts at h
  rw [add_smul, h, add_smul]
  unfold blindedNonce
  abel

/-- **Correctness of blinding**: a signer's response to the blinded challenge unblinds to a
    signature the verifier accepts, for every pair of blinding factors. -/
theorem verify_unblind {f : BlindingFactors S} {r pk : P} {message : Bytes} {sPrime : S}
    (h : Sigma.Accepts C.G pk r (blindChallenge C f r pk message) sPrime) :
    verify C pk message (unblindSignature C sPrime f r pk message) = true := by
  rw [verify_iff]
  exact congrArg (hashChallenge C · pk message) (unblinded_nonce h)

end SchnorrBlind

end Specter
