/-
  File:      Specter/Core/Verify.lean
  Subject:   TOKEN VERIFICATION (specter-core/src/verify.rs).

  `verifyToken` computes the six verdicts of the source, none of them skipped when another
  fails. Its result is an `Option`: `none` where `verify_presentation` panics.

  * `verifyToken_pinned` -- what the three verdicts `signatureValid`, `valueValid` and
    `foldValid` together say about the token;
  * `AllValid`, `Verified` -- a token accepted as a whole, and what that is field by field.
-/
import Specter.Core.Token

namespace Specter

open Lib

variable {S P : Type} [Field S] [AddCommGroup P] [Module S P] [DecidableEq P]

structure VerificationResult where
  signatureValid : Bool
  valueValid : Bool
  withinBound : Bool
  foldValid : Bool
  credentialValid : Option Bool
  vdfValid : Option Bool
  deriving DecidableEq

namespace VerificationResult

def allValid (vr : VerificationResult) : Bool :=
  vr.signatureValid && vr.valueValid && vr.withinBound && vr.foldValid &&
    vr.credentialValid.getD true && vr.vdfValid.getD true

/-- The verdict on a token of value 0. -/
def rejected : VerificationResult where
  signatureValid := false
  valueValid := false
  withinBound := false
  foldValid := false
  credentialValid := none
  vdfValid := none

end VerificationResult

/-- The message the signature of `token` is checked on: the genesis key of its fold proof is
    hashed anew, the field `genesisOwnerHash` is not read. -/
def verifiedMessage (C : Suite S P) (token : ProofCarryingToken S P) : Bytes :=
  buildSignedMessage C token.tokenId token.valueCommitment
    (Accumulator.ownerPkHash C token.foldProof.genesisOwnerPk)

/-- `fold_valid`: the owner binding and the signed chain. -/
def foldVerdict (C : Suite S P) (token : ProofCarryingToken S P) : Bool :=
  let ownerBindingValid :=
    decide (Accumulator.deriveOwnerSigningPk C token.ownerSecret = token.foldProof.currentOwnerPk)
  let genesisState : TransferState :=
    { tokenId := token.tokenId
      ownerHash := Accumulator.ownerPkHash C token.foldProof.genesisOwnerPk
      step := 0 }
  ownerBindingValid && Accumulator.verifyAccumulatedProof C token.foldProof genesisState

/-- `credential_valid`: absent without a presentation; the outer `Option` is the panic of
    `verify_presentation`. -/
def credentialVerdict (C : Suite S P) (token : ProofCarryingToken S P)
    (credentialPedersen : PedersenParams P) (currentTime : UInt64) : Option (Option Bool) :=
  match token.presentation with
  | none => some none
  | some pres =>
      match pres.verifyPresentation C credentialPedersen with
      | none => none
      | some sigValid =>
          let notExpired := token.credential.all fun cred =>
            cred.attributes.expiresAt == 0 || currentTime == 0 ||
              decide (currentTime ≤ cred.attributes.expiresAt)
          some (some (sigValid && notExpired))

def verifyToken (C : Suite S P) (token : ProofCarryingToken S P) (groupPublicKey : P)
    (pedersen credentialPedersen : PedersenParams P) (currentTime : UInt64) :
    Option VerificationResult :=
  if token.value = 0 then some .rejected
  else
    match credentialVerdict C token credentialPedersen currentTime with
    | none => none
    | some credentialValid =>
        some
          { signatureValid :=
              SchnorrBlind.verify C groupPublicKey (verifiedMessage C token) token.mintSignature
            valueValid := pedersen.verifyValueProof C token.valueCommitment
              (Suite.scalarFromU64 token.value) token.valueProof
            withinBound := decide (token.transferCount ≤ token.recursionBound)
            foldValid := foldVerdict C token
            credentialValid := credentialValid
            vdfValid := token.vdfProof.map (Vdf.verify C) }

variable {C : Suite S P} {token : ProofCarryingToken S P}

theorem foldVerdict_iff :
    foldVerdict C token = true ↔
      Accumulator.deriveOwnerSigningPk C token.ownerSecret = token.foldProof.currentOwnerPk ∧
      token.foldProof.steps.toNat = token.foldProof.stepsChain.length ∧
      Accumulator.ChainSigned C token.tokenId token.foldProof.genesisOwnerPk
        token.foldProof.stepsChain := by
  unfold foldVerdict
  rw [Bool.and_eq_true, decide_eq_true_iff, Accumulator.verifyAccumulatedProof_iff]
  -- the anchor hash is recomputed from the proof itself, so its check is vacuous
  exact ⟨fun h => ⟨h.1, h.2.2.1, h.2.2.2⟩, fun h => ⟨h.1, rfl, h.2.1, h.2.2⟩⟩

/-- **What an accepted token is**: the signature on its message verifies, its value proof
    verifies, its owner secret is the chain tip's and its chain is signed step by step. -/
theorem verifyToken_pinned {gpk : P} {pp cpp : PedersenParams P} {now : UInt64}
    {vr : VerificationResult} (h : verifyToken C token gpk pp cpp now = some vr)
    (hsig : vr.signatureValid = true) (hval : vr.valueValid = true)
    (hfold : vr.foldValid = true) :
    SchnorrBlind.verify C gpk (verifiedMessage C token) token.mintSignature = true ∧
      pp.verifyValueProof C token.valueCommitment (Suite.scalarFromU64 token.value)
        token.valueProof = true ∧
      Accumulator.deriveOwnerSigningPk C token.ownerSecret = token.foldProof.currentOwnerPk ∧
      Accumulator.ChainSigned C token.tokenId token.foldProof.genesisOwnerPk
        token.foldProof.stepsChain := by
  unfold verifyToken at h
  split at h
  · -- value 0: every verdict is false
    cases h
    cases hsig
  · split at h
    · cases h
    · cases h
      obtain ⟨hown, _, hchain⟩ := foldVerdict_iff.mp hfold
      exact ⟨hsig, hval, hown, hchain⟩

/-- `verify_token(..).all_valid()`. -/
def AllValid (C : Suite S P) (token : ProofCarryingToken S P) (gpk : P)
    (pp cpp : PedersenParams P) (now : UInt64) : Prop :=
  ∃ vr, verifyToken C token gpk pp cpp now = some vr ∧ vr.allValid = true

/-- The checks a token passes that is accepted as a whole. -/
structure Verified (C : Suite S P) (token : ProofCarryingToken S P) (gpk : P)
    (pp cpp : PedersenParams P) (now : UInt64) : Prop where
  value : token.value ≠ 0
  signature : SchnorrBlind.verify C gpk (verifiedMessage C token) token.mintSignature = true
  valueProof : pp.verifyValueProof C token.valueCommitment (Suite.scalarFromU64 token.value)
    token.valueProof = true
  bound : token.transferCount ≤ token.recursionBound
  fold : foldVerdict C token = true
  credential : ∃ v, credentialVerdict C token cpp now = some v ∧ v.getD true = true
  vdf : ∀ v ∈ token.vdfProof, Vdf.verify C v = true

/-- **Acceptance, check by check.** -/
theorem allValid_iff {gpk : P} {pp cpp : PedersenParams P} {now : UInt64} :
    AllValid C token gpk pp cpp now ↔ Verified C token gpk pp cpp now := by
  have hvdf : ((token.vdfProof.map (Vdf.verify C)).getD true = true) ↔
      ∀ v ∈ token.vdfProof, Vdf.verify C v = true := by
    cases token.vdfProof with
    | none => exact ⟨fun _ v hv => (nomatch hv), fun _ => rfl⟩
    | some v => exact ⟨fun h w hw => by cases hw; exact h, fun h => h v rfl⟩
  constructor
  · rintro ⟨vr, hvr, hall⟩
    unfold verifyToken at hvr
    split at hvr
    · cases hvr
      cases hall
    · rename_i hvalue
      split at hvr
      · cases hvr
      · rename_i v hcred
        cases hvr
        simp only [VerificationResult.allValid, Bool.and_eq_true, decide_eq_true_iff] at hall
        obtain ⟨⟨⟨⟨⟨hsig, hval⟩, hbound⟩, hfold⟩, hc⟩, hv⟩ := hall
        exact ⟨hvalue, hsig, hval, hbound, hfold, ⟨v, hcred, hc⟩, hvdf.mp hv⟩
  · intro h
    obtain ⟨v, hcred, hc⟩ := h.credential
    unfold AllValid verifyToken
    rw [if_neg h.value, hcred]
    refine ⟨_, rfl, ?_⟩
    simp only [VerificationResult.allValid, Bool.and_eq_true, decide_eq_true_iff]
    exact ⟨⟨⟨⟨⟨h.signature, h.valueProof⟩, h.bound⟩, h.fold⟩, hc⟩, hvdf.mpr h.vdf⟩

end Specter
