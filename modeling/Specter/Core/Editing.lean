/-
  File:      Specter/Core/Editing.lean
  Subject:   EDITED TOKENS: what the verdicts `signature_valid`, `value_valid` and `fold_valid`
             pin down of a token whose sixteen fields anyone may have changed.

  The mint signs three fields: token id, value commitment and the hash of the genesis key. The
  value is pinned through the value proof, the chain through its signatures, the nullifier
  through the owner binding.

  * `Issued`, `Issuance` -- the tokens a mint has issued, and the calls that issued them;
  * `Unbroken` -- what is assumed of the cryptography at one token: its mint signature is not
    forged, its commitment binds the opening extracted from its value proof to the one the mint
    made, its genesis key does not collide with another;
  * `origin_of_accepted`, `value_of_accepted`, `nullifier_of_tip` -- the three parts;
  * `accepted_token_pinned` -- an accepted token goes back to an issued one with its id,
    commitment, genesis key and value, and its tip determines its nullifier.
-/
import Specter.Core.Transfer

namespace Specter

open Lib

variable {S P : Type} [Field S] [AddCommGroup P] [Module S P]

/-- The mint returned `t` from `issue_full`. -/
def Issued (C : Suite S P) (mint : Mint S P) (t : ProofCarryingToken S P) : Prop :=
  ∃ value signers attributes vdf bond rnd,
    mint.issueFull C value signers attributes vdf bond rnd = .ok t

/-- A call of `issue_full` and the token it returned. -/
structure Issuance (C : Suite S P) (mint : Mint S P) where
  value : UInt64
  signers : List SignerId
  attributes : Option Attributes
  vdfIterations : Option UInt64
  bondOwnerId : Option Bytes32
  rnd : IssueRandom S
  token : ProofCarryingToken S P
  returned : mint.issueFull C value signers attributes vdfIterations bondOwnerId rnd = .ok token

/-- A second answer of the prover of the token's value proof to its nonce. -/
abbrev ProofCarryingToken.ValueExtraction (C : Suite S P) (pp : PedersenParams P)
    (t : ProofCarryingToken S P) : Type :=
  PedersenParams.ValueExtraction C pp t.valueCommitment (Suite.scalarFromU64 t.value) t.valueProof

/-- The assumptions on signatures, commitments and the anchor hash, at the token `t` and the
    opening `x` of its commitment. -/
structure Unbroken (C : Suite S P) (mint : Mint S P) (issued : List (Issuance C mint))
    (t : ProofCarryingToken S P) (x : t.ValueExtraction C mint.pedersen) : Prop where
  /-- A mint signature on the message of `t` was made when a token was issued. -/
  unforgeable : SchnorrBlind.verify C mint.groupPublicKey (verifiedMessage C t)
      t.mintSignature = true → ∃ i ∈ issued, i.token.signedMessage C = verifiedMessage C t
  /-- The extracted opening and the one the mint made are not two openings of one commitment. -/
  binding : ∀ i ∈ issued,
    mint.pedersen.commit (Suite.scalarFromU64 t.value) x.blinding =
      mint.pedersen.commit (Suite.scalarFromU64 i.value) i.rnd.valueBlinding →
    (Suite.scalarFromU64 t.value : S) = Suite.scalarFromU64 i.value ∧
      x.blinding = i.rnd.valueBlinding
  /-- The genesis key of `t` has the hash of an issued one only if it is that key. -/
  anchored : ∀ i ∈ issued,
    Accumulator.ownerPkHash C i.token.foldProof.genesisOwnerPk =
      Accumulator.ownerPkHash C t.foldProof.genesisOwnerPk →
    i.token.foldProof.genesisOwnerPk = t.foldProof.genesisOwnerPk

/-- `verify_token` with the mint's parameters reports the three verdicts. -/
def Accepted [DecidableEq P] (C : Suite S P) (mint : Mint S P) (t : ProofCarryingToken S P) :
    Prop :=
  ∃ cpp now vr, verifyToken C t mint.groupPublicKey mint.pedersen cpp now = some vr ∧
    vr.signatureValid = true ∧ vr.valueValid = true ∧ vr.foldValid = true

variable {C : Suite S P} {mint : Mint S P} {issued : List (Issuance C mint)}
  {t : ProofCarryingToken S P} {x : t.ValueExtraction C mint.pedersen}

/-- The signature leads back to an issued token. -/
theorem origin_of_accepted (hunb : Unbroken C mint issued t x)
    (hsig : SchnorrBlind.verify C mint.groupPublicKey (verifiedMessage C t)
      t.mintSignature = true) :
    ∃ i ∈ issued, i.token.tokenId = t.tokenId ∧ i.token.valueCommitment = t.valueCommitment ∧
      i.token.foldProof.genesisOwnerPk = t.foldProof.genesisOwnerPk := by
  obtain ⟨i, hi, hmsg⟩ := hunb.unforgeable hsig
  obtain ⟨hid, hcom, hpkh⟩ := buildSignedMessage_inj hmsg
  obtain ⟨_, _, hgen⟩ := Mint.issueFull_ok i.returned
  exact ⟨i, hi, hid, hcom, hunb.anchored i hi (hgen.symm.trans hpkh)⟩

/-- The value proof leads back to the value the commitment was made for. -/
theorem value_of_accepted {i : Issuance C mint} (hi : i ∈ issued)
    (hunb : Unbroken C mint issued t x) (hcom : i.token.valueCommitment = t.valueCommitment)
    (hval : mint.pedersen.verifyValueProof C t.valueCommitment
      (Suite.scalarFromU64 t.value) t.valueProof = true) : t.value = i.token.value := by
  obtain ⟨hv, hopen, _⟩ := Mint.issueFull_ok i.returned
  have heq : mint.pedersen.commit (Suite.scalarFromU64 t.value) x.blinding =
      mint.pedersen.commit (Suite.scalarFromU64 i.value) i.rnd.valueBlinding := by
    rw [← hopen, hcom]
    exact (x.opening hval).symm
  rw [hv]
  exact C.u64_inj _ _ (hunb.binding i hi heq).1

/-- Two tokens bound to one chain tip have one owner secret, and with one id one nullifier. -/
theorem nullifier_of_tip {t' : ProofCarryingToken S P}
    (hderive : Accumulator.deriveOwnerSigningPk C t'.ownerSecret =
      Accumulator.deriveOwnerSigningPk C t.ownerSecret → t'.ownerSecret = t.ownerSecret)
    (hown : Accumulator.deriveOwnerSigningPk C t.ownerSecret = t.foldProof.currentOwnerPk)
    (hown' : Accumulator.deriveOwnerSigningPk C t'.ownerSecret = t'.foldProof.currentOwnerPk)
    (hid : t'.tokenId = t.tokenId)
    (htip : t'.foldProof.currentOwnerPk = t.foldProof.currentOwnerPk) :
    t'.computeNullifier C = t.computeNullifier C := by
  have hsecret : t'.ownerSecret = t.ownerSecret := by
    refine hderive ?_
    rw [hown', htip, hown]
  unfold ProofCarryingToken.computeNullifier
  rw [hsecret, hid]

/-- **No inflation and no new nullifier by editing.** Let `t` be any token that is accepted.
    Then the mint issued a token with its id, value commitment, genesis key and value; every
    step of its chain is signed by the key that was the tip before it; and every accepted token
    `t'` with its id and its chain tip has its nullifier. -/
theorem accepted_token_pinned [DecidableEq P] (C : Suite S P) (mint : Mint S P)
    (issued : List (Issuance C mint)) (t t' : ProofCarryingToken S P)
    (x : t.ValueExtraction C mint.pedersen) (hunb : Unbroken C mint issued t x)
    (hderive : Accumulator.deriveOwnerSigningPk C t'.ownerSecret =
      Accumulator.deriveOwnerSigningPk C t.ownerSecret → t'.ownerSecret = t.ownerSecret)
    (hacc : Accepted C mint t) :
    (∃ i ∈ issued, i.token.tokenId = t.tokenId ∧ i.token.valueCommitment = t.valueCommitment ∧
      i.token.foldProof.genesisOwnerPk = t.foldProof.genesisOwnerPk ∧
      t.value = i.token.value) ∧
    Accumulator.ChainSigned C t.tokenId t.foldProof.genesisOwnerPk t.foldProof.stepsChain ∧
    (Accepted C mint t' → t'.tokenId = t.tokenId →
      t'.foldProof.currentOwnerPk = t.foldProof.currentOwnerPk →
      t'.computeNullifier C = t.computeNullifier C) := by
  obtain ⟨cpp, now, vr, hvr, hs, hv, hf⟩ := hacc
  obtain ⟨hsig, hval, hown, hchain⟩ := verifyToken_pinned hvr hs hv hf
  obtain ⟨i, hi, hid, hcom, hgen⟩ := origin_of_accepted hunb hsig
  have hvalue := value_of_accepted hi hunb hcom hval
  refine ⟨⟨i, hi, hid, hcom, hgen, hvalue⟩, hchain, fun hacc' hid' htip => ?_⟩
  obtain ⟨cpp', now', vr', hvr', hs', hv', hf'⟩ := hacc'
  obtain ⟨_, _, hown', _⟩ := verifyToken_pinned hvr' hs' hv' hf'
  exact nullifier_of_tip hderive hown hown' hid' htip

/-- A token worth 10 is issued and transferred, and the holder edits its hash chain, its
    transfer count and its genesis hash: still accepted, and pinned. -/
theorem accepted_token_pinned_edited :
    ∃ t₀ r t, sampleMint.issue sampleSuite 10 [1] none (sampleIssueRandom 0) = .ok t₀ ∧
      (transfer sampleSuite t₀ NullifierSet.new ⟨leArr 32 99, 21⟩).1 = .ok r ∧
      t = { r.token with hashChainHead := zero32, transferCount := 0, genesisOwnerHash := zero32 } ∧
      Accepted sampleSuite sampleMint t ∧ Accepted sampleSuite sampleMint r.token ∧
      t.value = t₀.value ∧ t.foldProof.stepsChain.length = 1 ∧
      Accumulator.ChainSigned sampleSuite t.tokenId t.foldProof.genesisOwnerPk
        t.foldProof.stepsChain ∧
      r.token.computeNullifier sampleSuite = t.computeNullifier sampleSuite := by
  have hrun : ((sampleMint.issue sampleSuite 10 [1] none (sampleIssueRandom 0)).toOption.bind
      fun t₀ => (transfer sampleSuite t₀ NullifierSet.new ⟨leArr 32 99, 21⟩).1.toOption.bind
      fun r =>
        let t := { r.token with
          hashChainHead := zero32, transferCount := 0, genesisOwnerHash := zero32 }
        let pp := sampleMint.pedersen
        let v : SampleScalar := Suite.scalarFromU64 t.value
        let c := pp.verifierChallenge sampleSuite t.valueCommitment v t.valueProof
        (verifyToken sampleSuite t sampleMint.groupPublicKey pp pp 0).bind
      fun vr => (verifyToken sampleSuite r.token sampleMint.groupPublicKey pp pp 0).map
      fun vr' => decide ((vr.signatureValid = true ∧ vr.valueValid = true ∧ vr.foldValid = true) ∧
        (vr'.signatureValid = true ∧ vr'.valueValid = true ∧ vr'.foldValid = true) ∧
        t₀.signedMessage sampleSuite = verifiedMessage sampleSuite t ∧
        (c ≠ c + 1 ∧ Sigma.Accepts pp.h (t.valueCommitment - v • pp.g) t.valueProof.commitment
          (c + 1) (t.valueProof.response + (sampleIssueRandom 0).valueBlinding)) ∧
        (v = Suite.scalarFromU64 10 ∧
          (c - (c + 1))⁻¹ * (t.valueProof.response - (t.valueProof.response +
            (sampleIssueRandom 0).valueBlinding)) = (sampleIssueRandom 0).valueBlinding) ∧
        t₀.foldProof.genesisOwnerPk = t.foldProof.genesisOwnerPk ∧
        t.foldProof.stepsChain.length = 1)) = some true := by decide +kernel
  obtain ⟨t₀, ht₀, hrun⟩ := Option.bind_eq_some_iff.mp hrun
  obtain ⟨r, hr, hrun⟩ := Option.bind_eq_some_iff.mp hrun
  obtain ⟨vr, hvr, hrun⟩ := Option.bind_eq_some_iff.mp hrun
  obtain ⟨vr', hvr', hfacts⟩ := Option.map_eq_some_iff.mp hrun
  obtain ⟨hok, hok', hmsg, ⟨hne, hsecond⟩, hopen, hgen, hlen⟩ := of_decide_eq_true hfacts
  refine ⟨t₀, r, _, ok_of_toOption ht₀, ok_of_toOption hr, rfl, ⟨_, _, vr, hvr, hok⟩,
    ⟨_, _, vr', hvr', hok'⟩, ?_⟩
  let i : Issuance sampleSuite sampleMint :=
    ⟨10, [1], none, none, none, sampleIssueRandom 0, t₀, ok_of_toOption ht₀⟩
  let x : ProofCarryingToken.ValueExtraction sampleSuite sampleMint.pedersen { r.token with
      hashChainHead := zero32, transferCount := 0, genesisOwnerHash := zero32 } :=
    ⟨_, _, hne, hsecond⟩
  have hunb : Unbroken sampleSuite sampleMint [i] { r.token with
      hashChainHead := zero32, transferCount := 0, genesisOwnerHash := zero32 } x :=
    ⟨fun _ => ⟨i, List.mem_singleton_self _, hmsg⟩,
      fun u hu _ => by rw [List.mem_singleton.mp hu]; exact hopen,
      fun u hu _ => by rw [List.mem_singleton.mp hu]; exact hgen⟩
  obtain ⟨⟨u, hu, _, _, _, hvalue⟩, hchain, hnull⟩ :=
    accepted_token_pinned sampleSuite sampleMint [i] _ r.token x hunb (fun _ => rfl)
      ⟨_, _, vr, hvr, hok⟩
  rw [List.mem_singleton.mp hu] at hvalue
  exact ⟨hvalue, hlen, hchain, hnull ⟨_, _, vr', hvr', hok'⟩ rfl rfl⟩

end Specter
