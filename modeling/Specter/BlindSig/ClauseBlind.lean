/-
  File:      Specter/BlindSig/ClauseBlind.lean
  Subject:   CLAUSE BLIND SCHNORR SIGNATURES (specter-blind-sig/src/clause_blind.rs).

  The signer offers two nonces, the requester blinds a challenge for one of them and draws the
  other challenge at random. The secret choice is a `Bool`; what the requester draws is the
  argument `ClauseRandom`. Blinding and unblinding are those of `SchnorrBlind` under another
  challenge hash.

  * `verify_clauseUnblind` -- whichever nonce is chosen, responses to both challenges unblind to
    an accepted signature.
-/
import Specter.BlindSig.SchnorrBlind

namespace Specter

open Lib

variable {S P : Type} [Field S] [AddCommGroup P] [Module S P]

structure ClauseBlindingFactors (S : Type) where
  chosen : Bool
  alpha : S
  beta : S

/-- What `clause_blind_challenge` draws: the choice, the blinding factors, and the challenge of
    the branch that is not chosen. -/
structure ClauseRandom (S : Type) where
  chosen : Bool
  alpha : S
  beta : S
  decoy : S

namespace ClauseBlind

/-- `conditional_select`. -/
def select {α : Type} (a b : α) (choice : Bool) : α := if choice then b else a

variable (C : Suite S P)

def hashChallenge (r pk : P) (message : Bytes) : S :=
  C.hashToScalar (ascii "specter-clause-blind-challenge:" ++ (C.compress r).toList ++
    (C.compress pk).toList ++ leBytes 8 message.length ++ message)

/-- The factors, and the challenges for the first and the second nonce. -/
def clauseBlindChallenge (rnd : ClauseRandom S) (r0 r1 signerPk : P) (message : Bytes) :
    ClauseBlindingFactors S × S × S :=
  let rChosen := select r0 r1 rnd.chosen
  let rPrime := rChosen + rnd.alpha • C.G + rnd.beta • signerPk
  let ePrime := hashChallenge C rPrime signerPk message
  let eReal := ePrime + rnd.beta
  (⟨rnd.chosen, rnd.alpha, rnd.beta⟩, select eReal rnd.decoy rnd.chosen,
    select rnd.decoy eReal rnd.chosen)

def clauseUnblind (s0 s1 : S) (factors : ClauseBlindingFactors S) (r0 r1 signerPk : P)
    (message : Bytes) : BlindSignature S :=
  let sChosen := select s0 s1 factors.chosen
  let rChosen := select r0 r1 factors.chosen
  let rPrime := rChosen + factors.alpha • C.G + factors.beta • signerPk
  { s := sChosen + factors.alpha
    e := hashChallenge C rPrime signerPk message }

def verify (pk : P) (message : Bytes) (sig : BlindSignature S) : Bool :=
  let rPrime := sig.s • C.G - sig.e • pk
  C.asBytes (hashChallenge C rPrime pk message) == C.asBytes sig.e

variable {C}

/-- **Correctness of clause blinding**: a signer who answers both challenges lets the requester
    unblind an accepted signature, whichever of the two was the real one. -/
theorem verify_clauseUnblind {rnd : ClauseRandom S} {r0 r1 pk : P} {message : Bytes} {s0 s1 : S}
    (h0 : Sigma.Accepts C.G pk r0 (clauseBlindChallenge C rnd r0 r1 pk message).2.1 s0)
    (h1 : Sigma.Accepts C.G pk r1 (clauseBlindChallenge C rnd r0 r1 pk message).2.2 s1) :
    verify C pk message (clauseUnblind C s0 s1 (clauseBlindChallenge C rnd r0 r1 pk message).1
      r0 r1 pk message) = true := by
  obtain ⟨chosen, alpha, beta, decoy⟩ := rnd
  unfold verify
  rw [beq_iff_eq, C.asBytes_inj]
  have hbranch : ∀ (r : P) (s : S), Sigma.Accepts C.G pk r
      (hashChallenge C (r + alpha • C.G + beta • pk) pk message + beta) s →
      hashChallenge C ((s + alpha) • C.G -
        hashChallenge C (r + alpha • C.G + beta • pk) pk message • pk) pk message =
      hashChallenge C (r + alpha • C.G + beta • pk) pk message := by
    intro r s h
    exact congrArg (hashChallenge C · pk message)
      (SchnorrBlind.unblinded_nonce (f := ⟨alpha, beta⟩) h)
  -- only the response of the chosen branch is used
  cases chosen with
  | false => exact hbranch r0 s0 h0
  | true => exact hbranch r1 s1 h1

end ClauseBlind

end Specter
