/-
  File:      Specter/Core/Transfer.lean
  Subject:   TRANSFERRING A TOKEN (specter-core/src/transfer.rs).

  `transfer` burns the nullifier before it extends the chain, so an error of the chain leaves
  the set changed; the pair it returns carries the set in every case. `transferChecked` puts a
  full verification in front of it.

  * `transfer_ok_inv`, `transfer_of_fold` -- what a successful transfer is, and when there is one;
    `transfer_ok` -- what it leaves unchanged;
  * `Spendable`, `transfer_set` -- the tokens a transfer tries to spend, and the set it leaves;
  * `transfer_spends`, `transferChecked_spends` -- both spend their input.
-/
import Specter.Core.Mint

namespace Specter

open Lib

variable {S P : Type} [Field S] [AddCommGroup P] [Module S P]

structure TransferResult (S P : Type) where
  token : ProofCarryingToken S P
  spentNullifier : Bytes32

inductive TransferError where
  | needsRenewal (transferCount bound : UInt32)
  | doubleSpend (nullifier : Bytes32)
  | invalidTokenValue
  | foldFailed (reason : String)
  | verificationFailed (reason : String)
  deriving DecidableEq

/-- `{:?}` of a byte array. -/
def debugBytes (bs : Bytes) : String :=
  "[" ++ String.intercalate ", " (bs.map fun b => toString b.toNat) ++ "]"

def TransferError.display : TransferError → String
  | .needsRenewal transferCount bound =>
      "token needs renewal: " ++ toString transferCount ++ "/" ++ toString bound ++
        " transfers used"
  | .doubleSpend nullifier =>
      "double-spend detected for nullifier " ++ debugBytes nullifier.toList
  | .invalidTokenValue => "invalid token value: must be > 0"
  | .foldFailed reason => "fold failed: " ++ reason
  | .verificationFailed reason => "pre-spend verification failed: " ++ reason

/-- What `transfer` draws: the new owner's secret and the nonce of the signed step. -/
structure TransferRandom (S : Type) where
  newOwnerSecret : Bytes32
  stepNonce : S

/-- The credential and presentation of the next holder, and the pool that is left: the head of
    the pool, or the current pair when the pool is empty. -/
def nextCredential (token : ProofCarryingToken S P) :
    Option (Credential S P) × Option (Presentation S P) ×
      List (Credential S P × Presentation S P) :=
  match token.credentialPool with
  | [] => (token.credential, token.presentation, [])
  | (c, p) :: pool => (some c, some p, pool)

def transfer (C : Suite S P) (token : ProofCarryingToken S P) (nullifierSet : NullifierSet)
    (rnd : TransferRandom S) : Except TransferError (TransferResult S P) × NullifierSet :=
  if token.value = 0 then (.error .invalidTokenValue, nullifierSet)
  else if token.needsRenewal then
    (.error (.needsRenewal token.transferCount token.recursionBound), nullifierSet)
  else
    let spentNullifier := token.computeNullifier C
    match nullifierSet.insert spentNullifier with
    | (false, ns) => (.error (.doubleSpend spentNullifier), ns)
    | (true, ns) =>
        if token.transferCount.toNat + 1 ≥ 2 ^ 32 then
          (.error (.foldFailed "transfer count overflow"), ns)
        else
          match Accumulator.foldTransferSigned C token.foldProof
              (Accumulator.deriveOwnerSigningKey C token.ownerSecret)
              (Accumulator.deriveOwnerSigningPk C rnd.newOwnerSecret)
              token.tokenId token.recursionBound rnd.stepNonce with
          | .error e => (.error (.foldFailed e.display), ns)
          | .ok newFoldProof =>
              (.ok
                { token :=
                    { token with
                      ownerSecret := rnd.newOwnerSecret
                      hashChainHead :=
                        advanceHashChain C token.hashChainHead rnd.newOwnerSecret.toList
                      transferCount := token.transferCount + 1
                      foldProof := newFoldProof
                      credential := (nextCredential token).1
                      presentation := (nextCredential token).2.1
                      credentialPool := (nextCredential token).2.2 }
                  spentNullifier := spentNullifier }, ns)

/-- The checks `transfer_checked` makes on the verdicts, in order. -/
def preSpendError (vr : VerificationResult) : Option TransferError :=
  if vr.signatureValid = false then some (.verificationFailed "mint signature invalid")
  else if vr.valueValid = false then some (.verificationFailed "value commitment proof invalid")
  else if vr.withinBound = false then
    some (.verificationFailed "transfer count exceeds recursion bound")
  else if vr.foldValid = false then
    some (.verificationFailed "fold proof invalid (tampered owner_secret or forged accumulator)")
  else if vr.credentialValid = some false then
    some (.verificationFailed "credential presentation invalid")
  else if vr.vdfValid = some false then
    some (.verificationFailed "VDF time-lock proof invalid")
  else none

/-- `transfer_checked`; `none` where the verification panics. -/
def transferChecked [DecidableEq P] (C : Suite S P) (token : ProofCarryingToken S P)
    (nullifierSet : NullifierSet) (groupPublicKey : P)
    (pedersen credentialPedersen : PedersenParams P) (currentTime : UInt64)
    (rnd : TransferRandom S) :
    Option (Except TransferError (TransferResult S P) × NullifierSet) :=
  match verifyToken C token groupPublicKey pedersen credentialPedersen currentTime with
  | none => none
  | some vr =>
      match preSpendError vr with
      | some e => some (.error e, nullifierSet)
      | none => some (transfer C token nullifierSet rnd)

/-- `refresh_credential`: a new credential over the same attributes, disclosing the positions
    the old presentation disclosed. -/
def refreshCredential (C : Suite S P) (token : ProofCarryingToken S P) (issuer : Issuer S P)
    (rnd : CredentialRandom S) : ProofCarryingToken S P :=
  match token.credential with
  | none => token
  | some oldCred =>
      let newCred := issuer.issue C oldCred.attributes rnd.issuer
      let discloseIndices := match token.presentation with
        | some p => p.disclosed.map (·.1)
        | none => [Presentation.attrKycPassed, Presentation.attrNotSanctioned]
      { token with
        credential := some newCred
        presentation := some (Presentation.createPresentation C newCred discloseIndices
          issuer.pedersen rnd.presentation) }

variable {C : Suite S P} {token : ProofCarryingToken S P} {ns ns' : NullifierSet}
  {rnd : TransferRandom S}

/-- The tokens a transfer returns. -/
def transferOutputs (res : Except TransferError (TransferResult S P)) :
    Option (List (ProofCarryingToken S P)) :=
  res.toOption.map fun r => [r.token]

/-- The token `transfer` hands over, its chain extended to `fold`. -/
def handedOver (C : Suite S P) (token : ProofCarryingToken S P) (rnd : TransferRandom S)
    (fold : AccumulatedProof S P) : ProofCarryingToken S P :=
  { token with
    ownerSecret := rnd.newOwnerSecret
    hashChainHead := advanceHashChain C token.hashChainHead rnd.newOwnerSecret.toList
    transferCount := token.transferCount + 1
    foldProof := fold
    credential := (nextCredential token).1
    presentation := (nextCredential token).2.1
    credentialPool := (nextCredential token).2.2 }

/-- The fold step of a transfer. -/
def foldStep (C : Suite S P) (token : ProofCarryingToken S P) (rnd : TransferRandom S) :
    Except FoldError (AccumulatedProof S P) :=
  Accumulator.foldTransferSigned C token.foldProof
    (Accumulator.deriveOwnerSigningKey C token.ownerSecret)
    (Accumulator.deriveOwnerSigningPk C rnd.newOwnerSecret)
    token.tokenId token.recursionBound rnd.stepNonce

/-- **What a successful transfer is**: the token has a value and transfers left, its nullifier
    is new and is burned, the count does not overflow, and the token comes back with its chain
    extended. -/
theorem transfer_ok_inv {r : TransferResult S P} (h : transfer C token ns rnd = (.ok r, ns')) :
    token.value ≠ 0 ∧ token.needsRenewal = false ∧ Burned C token ns ns' ∧
      token.transferCount.toNat + 1 < 2 ^ 32 ∧
      ∃ fold, foldStep C token rnd = .ok fold ∧
        r = { token := handedOver C token rnd fold
              spentNullifier := token.computeNullifier C } := by
  unfold transfer at h
  split at h
  · cases h
  · rename_i hvalue
    split at h
    · cases h
    · rename_i hren
      dsimp only at h
      split at h
      · cases h
      · rename_i ns₁ hins
        split at h
        · cases h
        · rename_i hcount
          split at h
          · cases h
          · rename_i fold hfold
            cases h
            exact ⟨hvalue, by simpa using hren, burned_of_insert hins,
              Nat.lt_of_not_le hcount, fold, hfold, rfl⟩

/-- Under these conditions a transfer succeeds. -/
theorem transfer_of_fold {fold : AccumulatedProof S P} (hvalue : token.value ≠ 0)
    (hren : token.needsRenewal = false) (hnew : token.computeNullifier C ∉ ns.nullifiers)
    (hcount : token.transferCount.toNat + 1 < 2 ^ 32) (hfold : foldStep C token rnd = .ok fold) :
    transfer C token ns rnd =
      (.ok { token := handedOver C token rnd fold
             spentNullifier := token.computeNullifier C },
        ⟨insert (token.computeNullifier C) ns.nullifiers⟩) := by
  have hins : ns.insert (token.computeNullifier C) =
      (true, ⟨insert (token.computeNullifier C) ns.nullifiers⟩) := by
    unfold NullifierSet.insert
    rw [if_neg hnew]
  unfold foldStep at hfold
  unfold transfer
  rw [if_neg hvalue, if_neg (by rw [hren]; simp)]
  dsimp only
  rw [hins]
  dsimp only
  rw [if_neg (Nat.not_le.mpr hcount), hfold]
  rfl

/-- The token of a successful transfer: identity and value unchanged, owned by the new
    secret. -/
theorem transfer_ok {r : TransferResult S P} (h : transfer C token ns rnd = (.ok r, ns')) :
    Burned C token ns ns' ∧ r.spentNullifier = token.computeNullifier C ∧
      r.token.tokenId = token.tokenId ∧ r.token.value = token.value ∧
      r.token.ownerSecret = rnd.newOwnerSecret := by
  obtain ⟨_, _, hburn, _, fold, _, rfl⟩ := transfer_ok_inv h
  exact ⟨hburn, rfl, rfl, rfl, rfl⟩

/-- The token passes the two checks `transfer` makes before it burns the nullifier. -/
def Spendable (token : ProofCarryingToken S P) : Prop :=
  token.value ≠ 0 ∧ token.needsRenewal = false

instance (token : ProofCarryingToken S P) : Decidable (Spendable token) :=
  inferInstanceAs (Decidable (_ ∧ _))

/-- A token that is not spendable, or spent before, is refused with the set as it was. -/
theorem transfer_refused (rnd : TransferRandom S)
    (h : ¬ Spendable token ∨ token.computeNullifier C ∈ ns.nullifiers) :
    ∃ e, transfer C token ns rnd = (.error e, ns) := by
  unfold transfer
  split
  · exact ⟨_, rfl⟩
  · rename_i hval
    split
    · exact ⟨_, rfl⟩
    · rename_i hren
      have hmem := h.resolve_left fun hn => hn ⟨hval, by simpa using hren⟩
      dsimp only
      have hins : ns.insert (token.computeNullifier C) = (false, ns) := by
        unfold NullifierSet.insert
        rw [if_pos hmem]
      rw [hins]
      exact ⟨_, rfl⟩

/-- A spendable token that was not spent before is burned, whatever the answer. -/
theorem transfer_burns (rnd : TransferRandom S) (hspend : Spendable token)
    (hnew : token.computeNullifier C ∉ ns.nullifiers) :
    (transfer C token ns rnd).2.nullifiers =
      insert (token.computeNullifier C) ns.nullifiers := by
  have hins : ns.insert (token.computeNullifier C) =
      (true, ⟨insert (token.computeNullifier C) ns.nullifiers⟩) := by
    unfold NullifierSet.insert
    rw [if_neg hnew]
  unfold transfer
  rw [if_neg hspend.1, if_neg (by rw [hspend.2]; simp)]
  dsimp only
  rw [hins]
  dsimp only
  split
  · rfl
  · split <;> rfl

/-- **The set a transfer leaves**: a spendable token's nullifier is in it, whatever the answer;
    any other token leaves it alone. -/
theorem transfer_set : (transfer C token ns rnd).2.nullifiers =
    if Spendable token then insert (token.computeNullifier C) ns.nullifiers
    else ns.nullifiers := by
  by_cases hspend : Spendable token
  · rw [if_pos hspend]
    by_cases hmem : token.computeNullifier C ∈ ns.nullifiers
    · obtain ⟨e, he⟩ := transfer_refused rnd (.inr hmem)
      rw [he, Finset.insert_eq_self.mpr hmem]
    · exact transfer_burns rnd hspend hmem
  · rw [if_neg hspend]
    have hor : ¬ Spendable token ∨ token.computeNullifier C ∈ ns.nullifiers := .inl hspend
    obtain ⟨e, he⟩ := transfer_refused rnd hor
    rw [he]

/-- **`transfer` spends its input.** -/
theorem transfer_spends {res : Except TransferError (TransferResult S P)}
    (h : transfer C token ns rnd = (res, ns')) :
    Spends C token ns (transferOutputs res) ns' := by
  cases res with
  | ok r =>
      obtain ⟨hburn, _, _, hval, _⟩ := transfer_ok h
      refine .done hburn ?_
      show (r.token.value.toNat + 0) = _
      rw [hval, Nat.add_zero]
  | error e =>
      show Spends C token ns none ns'
      by_cases hrefused : ¬ Spendable token ∨ token.computeNullifier C ∈ ns.nullifiers
      · obtain ⟨e', he⟩ := transfer_refused rnd hrefused
        rw [he] at h
        cases h
        exact .untouched
      · -- the nullifier is burned; the errors after this point lose the token
        obtain ⟨hspend, hnew⟩ := not_or.mp hrefused
        have hburn := transfer_burns rnd (Classical.not_not.mp hspend) hnew
        rw [h] at hburn
        exact .lost ⟨hnew, hburn⟩

theorem transferChecked_spends [DecidableEq P] {gpk : P} {pp cpp : PedersenParams P} {now : UInt64}
    {res : Except TransferError (TransferResult S P)}
    (h : transferChecked C token ns gpk pp cpp now rnd = some (res, ns')) :
    Spends C token ns (transferOutputs res) ns' := by
  unfold transferChecked at h
  split at h
  · cases h
  · split at h
    · cases h
      exact .untouched
    · exact transfer_spends (Option.some.inj h)

end Specter
