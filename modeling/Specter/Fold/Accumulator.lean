/-
  File:      Specter/Fold/Accumulator.lean
  Subject:   THE SIGNED TRANSFER CHAIN (specter-fold/src/accumulator.rs).

  * `deriveOwnerSigningKey`, `ownerPkHash` -- owner keys and the anchor the mint signs;
  * `foldTransferSigned` -- append one step signed by the current chain tip;
  * `verifyAccumulatedProof` -- the walk over the chain;
  * `SignedBy`, `ChainSigned` -- what the walk establishes: every step carries a Schnorr
    signature by the key that was the tip before it;
  * `verifyAccumulatedProof_iff` -- the verifier accepts exactly the anchored chains of the
    stated length that are signed step by step;
  * `foldTransferSigned_ok` -- what a successful fold returns; `chainSigned_fold` -- it keeps
    the chain signed.
-/
import Specter.Primitives.Suite

namespace Specter

open Lib

variable {S P : Type} [Field S] [AddCommGroup P] [Module S P]

structure TransferStep (S P : Type) where
  newOwnerPk : P
  sigR : P
  sigS : S
  deriving DecidableEq

structure AccumulatedProof (S P : Type) where
  genesisOwnerPk : P
  stepsChain : List (TransferStep S P)
  steps : UInt32
  deriving DecidableEq

structure TransferState where
  tokenId : Bytes32
  ownerHash : Bytes32
  step : UInt32

inductive FoldError where
  | boundExceeded (steps bound : UInt32)
  | prevOwnerMismatch
  deriving DecidableEq

def FoldError.display : FoldError → String
  | .boundExceeded steps bound =>
      "recursion bound exceeded: " ++ toString steps ++ "/" ++ toString bound
  | .prevOwnerMismatch => "previous owner pk does not match chain tip"

/-- The key at the end of a chain that starts with `pk`. -/
def chainTip (pk : P) (chain : List (TransferStep S P)) : P :=
  (chain.getLast?.map (·.newOwnerPk)).getD pk

def AccumulatedProof.currentOwnerPk (p : AccumulatedProof S P) : P :=
  chainTip p.genesisOwnerPk p.stepsChain

/-! ## 1. Keys and messages -/

namespace Accumulator

variable (C : Suite S P)

def deriveOwnerSigningKey (ownerSecret : Bytes32) : S :=
  C.fromBytesModOrderWide (C.shake256 64 (ascii "specter-owner-signing:" ++ ownerSecret.toList))

def deriveOwnerSigningPk (ownerSecret : Bytes32) : P :=
  deriveOwnerSigningKey C ownerSecret • C.G

def ownerPkHash (pk : P) : Bytes32 :=
  C.shake256 32 (ascii "specter-owner-pk-hash:" ++ (C.compress pk).toList)

def transferMessage (tokenId : Bytes32) (step : UInt32) (newOwnerPk : P) : Bytes32 :=
  C.shake256 32 (ascii "specter-transfer-step:" ++ tokenId.toList ++ le32 step ++
    (C.compress newOwnerPk).toList)

def transferChallenge (r pk : P) (msg : Bytes32) : S :=
  C.hashToScalar (ascii "specter-transfer-challenge:" ++ (C.compress r).toList ++
    (C.compress pk).toList ++ msg.toList)

/-! ## 2. Building the chain -/

def createInitialProofWithPk (_genesisState : TransferState) (genesisOwnerPk : P) :
    AccumulatedProof S P where
  genesisOwnerPk := genesisOwnerPk
  stepsChain := []
  steps := 0

/-- The step a holder of `prevOwnerSk` signs with the nonce `k`. -/
def signStep (prevOwnerSk : S) (newOwnerPk : P) (tokenId : Bytes32) (stepNumber : UInt32)
    (k : S) : TransferStep S P :=
  let msg := transferMessage C tokenId stepNumber newOwnerPk
  let sigR := k • C.G
  let e := transferChallenge C sigR (prevOwnerSk • C.G) msg
  { newOwnerPk := newOwnerPk, sigR := sigR, sigS := k + e * prevOwnerSk }

/-- `fold_transfer_signed` with the nonce `k` it draws. The second test is `checked_add(1)`. -/
def foldTransferSigned (currentProof : AccumulatedProof S P) (prevOwnerSigningSk : S)
    (newOwnerPk : P) (tokenId : Bytes32) (recursionBound : UInt32) (k : S) :
    Except FoldError (AccumulatedProof S P) :=
  if currentProof.steps ≥ recursionBound then
    .error (.boundExceeded currentProof.steps recursionBound)
  else if currentProof.steps.toNat + 1 ≥ 2 ^ 32 then
    .error (.boundExceeded currentProof.steps recursionBound)
  else
    let prevOwnerPk := prevOwnerSigningSk • C.G
    if C.compress prevOwnerPk ≠ C.compress currentProof.currentOwnerPk then
      .error .prevOwnerMismatch
    else
      let newStepNumber := currentProof.steps + 1
      .ok
        { genesisOwnerPk := currentProof.genesisOwnerPk
          stepsChain := currentProof.stepsChain ++
            [signStep C prevOwnerSigningSk newOwnerPk tokenId newStepNumber k]
          steps := newStepNumber }

/-! ## 3. Verifying it -/

/-- One round of the verifier's loop: the Schnorr equation under the current tip. -/
def checkStep (tokenId : Bytes32) (currentPk : P) (i : Nat) (step : TransferStep S P) : Bool :=
  let stepNumber := UInt32.ofNat i + 1
  let msg := transferMessage C tokenId stepNumber step.newOwnerPk
  let e := transferChallenge C step.sigR currentPk msg
  C.compress (step.sigS • C.G) == C.compress (step.sigR + e • currentPk)

/-- The loop from position `i` on, every step checked. -/
def walkChain (tokenId : Bytes32) : P → Nat → List (TransferStep S P) → Bool
  | _, _, [] => true
  | currentPk, i, step :: rest =>
      checkStep C tokenId currentPk i step && walkChain tokenId step.newOwnerPk (i + 1) rest

def verifyAccumulatedProof (proof : AccumulatedProof S P) (genesisState : TransferState) : Bool :=
  (ownerPkHash C proof.genesisOwnerPk == genesisState.ownerHash) &&
  (proof.steps.toNat == proof.stepsChain.length) &&
  walkChain C genesisState.tokenId proof.genesisOwnerPk 0 proof.stepsChain

/-! ## 4. What the walk establishes -/

/-- `step` is the hand-over number `i + 1` of the token, signed under `pk`. -/
def SignedBy (tokenId : Bytes32) (pk : P) (i : Nat) (step : TransferStep S P) : Prop :=
  Sigma.Accepts C.G pk step.sigR
    (transferChallenge C step.sigR pk
      (transferMessage C tokenId (UInt32.ofNat i + 1) step.newOwnerPk)) step.sigS

/-- Every step is signed by the key that was the tip of the chain before it. -/
def ChainSigned (tokenId : Bytes32) (pk : P) (chain : List (TransferStep S P)) : Prop :=
  ∀ (i : Nat) (step : TransferStep S P), chain[i]? = some step →
    SignedBy C tokenId (chainTip pk (chain.take i)) i step

variable {C}

theorem checkStep_iff {tokenId : Bytes32} {pk : P} {i : Nat} {step : TransferStep S P} :
    checkStep C tokenId pk i step = true ↔ SignedBy C tokenId pk i step := by
  unfold checkStep
  rw [beq_iff_eq, C.compress_inj]
  rfl

omit [Field S] [AddCommGroup P] [Module S P] in
@[simp] theorem chainTip_cons (pk : P) (step : TransferStep S P)
    (chain : List (TransferStep S P)) :
    chainTip pk (step :: chain) = chainTip step.newOwnerPk chain := by
  unfold chainTip
  cases chain with
  | nil => rfl
  | cons s chain => rw [List.getLast?_cons_cons, List.getLast?_cons]; rfl

omit [Field S] [AddCommGroup P] [Module S P] in
@[simp] theorem chainTip_snoc (pk : P) (step : TransferStep S P)
    (chain : List (TransferStep S P)) : chainTip pk (chain ++ [step]) = step.newOwnerPk := by
  unfold chainTip
  rw [List.getLast?_concat]
  rfl

/-- The walk from position `i` checks the steps `i, i + 1, …` against the running tip. -/
theorem walkChain_iff {tokenId : Bytes32} : ∀ (chain : List (TransferStep S P)) (pk : P) (i : Nat),
    walkChain C tokenId pk i chain = true ↔
      ∀ (j : Nat) (step : TransferStep S P), chain[j]? = some step →
        SignedBy C tokenId (chainTip pk (chain.take j)) (i + j) step
  | [], pk, i => by
      refine ⟨fun _ j step h => ?_, fun _ => rfl⟩
      simp at h
  | s :: chain, pk, i => by
      rw [walkChain, Bool.and_eq_true, checkStep_iff, walkChain_iff chain s.newOwnerPk (i + 1)]
      constructor
      · rintro ⟨h0, h⟩ j step hj
        cases j with
        | zero =>
            cases hj
            exact h0
        | succ j =>
            rw [List.take_succ_cons, chainTip_cons]
            have := h j step hj
            rwa [Nat.add_assoc, Nat.add_comm 1 j] at this
      · intro h
        refine ⟨h 0 s rfl, fun j step hj => ?_⟩
        have := h (j + 1) step hj
        rw [List.take_succ_cons, chainTip_cons] at this
        rwa [Nat.add_assoc, Nat.add_comm 1 j]

/-- **The verifier accepts exactly the anchored, fully signed chains of the stated length.** -/
theorem verifyAccumulatedProof_iff {proof : AccumulatedProof S P} {gs : TransferState} :
    verifyAccumulatedProof C proof gs = true ↔
      ownerPkHash C proof.genesisOwnerPk = gs.ownerHash ∧
      proof.steps.toNat = proof.stepsChain.length ∧
      ChainSigned C gs.tokenId proof.genesisOwnerPk proof.stepsChain := by
  unfold verifyAccumulatedProof ChainSigned
  rw [Bool.and_eq_true, Bool.and_eq_true, beq_iff_eq, beq_iff_eq, walkChain_iff, and_assoc]
  simp only [Nat.zero_add]

/-- **What a successful fold is**: the bound leaves room, the key is the tip's, and the proof
    is the old one with one signed step appended. -/
theorem foldTransferSigned_ok {p p' : AccumulatedProof S P} {sk : S} {pk : P}
    {tokenId : Bytes32} {bound : UInt32} {k : S}
    (h : foldTransferSigned C p sk pk tokenId bound k = .ok p') :
    p.steps < bound ∧ p.steps.toNat + 1 < 2 ^ 32 ∧ sk • C.G = p.currentOwnerPk ∧
      p' = { genesisOwnerPk := p.genesisOwnerPk
             stepsChain := p.stepsChain ++ [signStep C sk pk tokenId (p.steps + 1) k]
             steps := p.steps + 1 } := by
  unfold foldTransferSigned at h
  split at h
  · cases h
  · rename_i hb
    split at h
    · cases h
    · rename_i hw
      dsimp only at h
      split at h
      · cases h
      · rename_i hc
        refine ⟨UInt32.not_le.mp hb, Nat.lt_of_not_le hw, ?_, ?_⟩
        · exact C.compress_inj.mp (Classical.not_not.mp hc)
        · cases h
          rfl

/-- Under these conditions a fold succeeds. -/
theorem foldTransferSigned_of_tip {p : AccumulatedProof S P} {sk : S} {bound : UInt32}
    (hb : p.steps < bound) (hw : p.steps.toNat + 1 < 2 ^ 32) (htip : sk • C.G = p.currentOwnerPk)
    (pk : P) (tokenId : Bytes32) (k : S) :
    foldTransferSigned C p sk pk tokenId bound k =
      .ok { genesisOwnerPk := p.genesisOwnerPk
            stepsChain := p.stepsChain ++ [signStep C sk pk tokenId (p.steps + 1) k]
            steps := p.steps + 1 } := by
  have hc : ¬ C.compress (sk • C.G) ≠ C.compress p.currentOwnerPk := by
    rw [htip]
    exact fun h => h rfl
  unfold foldTransferSigned
  rw [if_neg (UInt32.not_le.mpr hb), if_neg (Nat.not_le.mpr hw)]
  dsimp only
  rw [if_neg hc]

/-- The step a tip's owner signs is signed by the tip. -/
theorem signedBy_signStep (sk : S) (pk : P) (tokenId : Bytes32) (i : Nat) (k : S) :
    SignedBy C tokenId (sk • C.G) i (signStep C sk pk tokenId (UInt32.ofNat i + 1) k) :=
  Sigma.Accepts.of_witness C.G sk k _

theorem toNat_add_one {n : UInt32} (h : n.toNat + 1 < 2 ^ 32) : (n + 1).toNat = n.toNat + 1 := by
  rw [UInt32.toNat_add]
  exact Nat.mod_eq_of_lt h

/-- **A fold keeps the chain signed.** -/
theorem chainSigned_fold {p p' : AccumulatedProof S P} {sk : S} {pk : P}
    {tokenId : Bytes32} {bound : UInt32} {k : S}
    (h : foldTransferSigned C p sk pk tokenId bound k = .ok p')
    (hlen : p.steps.toNat = p.stepsChain.length)
    (hs : ChainSigned C tokenId p.genesisOwnerPk p.stepsChain) :
    p'.steps.toNat = p'.stepsChain.length ∧
      ChainSigned C tokenId p'.genesisOwnerPk p'.stepsChain := by
  obtain ⟨_, hw, htip, rfl⟩ := foldTransferSigned_ok h
  refine ⟨?_, fun i step hi => ?_⟩
  · show (p.steps + 1).toNat = (p.stepsChain ++ [_]).length
    rw [toNat_add_one hw, List.length_append, ← hlen]
    rfl
  · -- an old step keeps its tip, the new one is signed by the old tip
    dsimp only at hi ⊢
    rcases Nat.lt_or_ge i p.stepsChain.length with hlt | hge
    · rw [List.getElem?_append_left hlt] at hi
      rw [List.take_append_of_le_length (Nat.le_of_lt hlt)]
      exact hs i step hi
    · have hi' : i = p.stepsChain.length := by
        have := (List.getElem?_eq_some_iff.mp hi).1
        simp at this
        omega
      subst hi'
      rw [List.getElem?_append_right (Nat.le_refl _), Nat.sub_self] at hi
      cases hi
      rw [List.take_left]
      show SignedBy C tokenId p.currentOwnerPk _ _
      have hnum : p.steps + 1 = UInt32.ofNat p.steps.toNat + 1 := by rw [UInt32.ofNat_toNat]
      rw [← htip, ← hlen, hnum]
      exact signedBy_signStep sk pk tokenId _ k

end Accumulator

end Specter
