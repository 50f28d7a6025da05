/-
  File:      Specter/Core/Mint.lean
  Subject:   ISSUING AND SPLITTING TOKENS (specter-core/src/mint.rs).

  What the functions draw at random is the argument `IssueRandom`; `split` takes one for each
  output. A function with `&mut NullifierSet` returns the set it leaves behind, on the error
  paths too; `none` is the panic of `verify_presentation` inside the verification.

  * `issueFull_inv`, `issueFull_of_sign` -- what the mint returns, and when;
  * `issueFull_ok` -- the signed fields of a token the mint returns;
  * `checkedSum_ok` -- the checked addition gives the sum of the values as integers;
  * `Spends` -- what a call that spends a token may do to the set and return, the shape of
    the specification of `split` here and of the transfers and the renewal later;
  * `split_spends` -- `split` spends its input.
-/
import Specter.BlindSig.Threshold
import Specter.Core.Verify

namespace Specter

open Lib

variable {S P : Type} [Field S] [AddCommGroup P] [Module S P]

inductive MintError where
  | signingFailed (reason : String)
  | invalidValue
  | valueMismatch (input output : UInt64)
  deriving DecidableEq

def MintError.display : MintError → String
  | .signingFailed reason => "signing failed: " ++ reason
  | .invalidValue => "invalid value: token value must be > 0"
  | .valueMismatch input output =>
      "value mismatch: input " ++ toString input ++ " != output " ++ toString output

structure Mint (S P : Type) where
  keyset : ThresholdKeyset S P
  pedersen : PedersenParams P
  credentialIssuer : Issuer S P
  recursionBound : UInt32

/-- What issuing one credential with its presentation draws. -/
structure CredentialRandom (S : Type) where
  issuer : IssuerRandom S
  presentation : Nat → S

/-- What `issue_full` draws: the user's secrets, the signing protocol's nonces and blinding
    factors, the nonce of the value proof, the credential and its pool. -/
structure IssueRandom (S : Type) where
  tokenId : Bytes32
  ownerSecret : Bytes32
  valueBlinding : S
  sign : SignRandom S
  valueNonce : S
  credential : CredentialRandom S
  pool : Nat → CredentialRandom S

/-! ## 1. What a spend is -/

/-- The values of a list of tokens, added as integers. -/
def totalValue (ts : List (ProofCarryingToken S P)) : Nat :=
  (ts.map fun t => t.value.toNat).sum

/-- The set `ns'` is `ns` with the nullifier of `t`, which was not in it. -/
structure Burned (C : Suite S P) (t : ProofCarryingToken S P) (ns ns' : NullifierSet) : Prop where
  fresh : t.computeNullifier C ∉ ns.nullifiers
  set : ns'.nullifiers = insert (t.computeNullifier C) ns.nullifiers

/-- What a call that spends `t` does, whichever of the four it is: it leaves the set alone or
    burns the nullifier of `t`; when it returns tokens it burns, and they are worth `t`. -/
structure Spends (C : Suite S P) (t : ProofCarryingToken S P) (ns : NullifierSet)
    (out : Option (List (ProofCarryingToken S P))) (ns' : NullifierSet) : Prop where
  set : ns' = ns ∨ Burned C t ns ns'
  ok : ∀ ts, out = some ts → Burned C t ns ns' ∧ totalValue ts = t.value.toNat

theorem Spends.untouched {C : Suite S P} {t : ProofCarryingToken S P} {ns : NullifierSet} :
    Spends C t ns none ns :=
  ⟨.inl rfl, fun _ h => by cases h⟩

theorem Spends.lost {C : Suite S P} {t : ProofCarryingToken S P} {ns ns' : NullifierSet}
    (h : Burned C t ns ns') : Spends C t ns none ns' :=
  ⟨.inr h, fun _ h => by cases h⟩

theorem Spends.done {C : Suite S P} {t : ProofCarryingToken S P} {ns ns' : NullifierSet}
    {ts : List (ProofCarryingToken S P)} (h : Burned C t ns ns')
    (hv : totalValue ts = t.value.toNat) : Spends C t ns (some ts) ns' :=
  ⟨.inr h, fun _ e => by cases e; exact ⟨h, hv⟩⟩

theorem burned_of_insert {C : Suite S P} {t : ProofCarryingToken S P} {ns ns' : NullifierSet}
    (h : ns.insert (t.computeNullifier C) = (true, ns')) : Burned C t ns ns' := by
  obtain ⟨hfresh, hset⟩ := NullifierSet.insert_true h
  exact ⟨hfresh, hset⟩

/-- A check in front of the rest of a call: refused with the set as it was, or passed. -/
theorem refused_or {ε α : Type} {p : Prop} [Decidable p] {e : ε} {ns ns' : NullifierSet}
    {rest : Except ε α × NullifierSet} {res : Except ε α}
    (h : (if p then (.error e, ns) else rest) = (res, ns')) :
    (p ∧ ∃ e', res = .error e' ∧ ns' = ns) ∨ (¬ p ∧ rest = (res, ns')) := by
  split at h
  · rename_i hp
    cases h
    exact .inl ⟨hp, _, rfl, rfl⟩
  · rename_i hp
    exact .inr ⟨hp, h⟩

namespace Mint

/-! ## 2. Issuing -/

/-- The credential of a token and its presentation of the two compliance attributes. -/
def issueCredential (C : Suite S P) (mint : Mint S P) (attributes : Attributes)
    (rnd : CredentialRandom S) : Credential S P × Presentation S P :=
  let cred := mint.credentialIssuer.issue C attributes rnd.issuer
  (cred, Presentation.createPresentation C cred
    [Presentation.attrKycPassed, Presentation.attrNotSanctioned]
    mint.credentialIssuer.pedersen rnd.presentation)

def issueFull (C : Suite S P) (mint : Mint S P) (value : UInt64) (signers : List SignerId)
    (attributes : Option Attributes) (vdfIterations : Option UInt64)
    (bondOwnerId : Option Bytes32) (rnd : IssueRandom S) :
    Except MintError (ProofCarryingToken S P) :=
  if value = 0 then .error .invalidValue
  else
    let valueCommitment := mint.pedersen.commit (Suite.scalarFromU64 value) rnd.valueBlinding
    let genesisOwnerPk := Accumulator.deriveOwnerSigningPk C rnd.ownerSecret
    let genesisOwnerPkHash := Accumulator.ownerPkHash C genesisOwnerPk
    let signedMsg := buildSignedMessage C rnd.tokenId valueCommitment genesisOwnerPkHash
    match Threshold.thresholdBlindSign C mint.keyset signers signedMsg rnd.sign with
    | .error e => .error (.signingFailed e.display)
    | .ok signature =>
        let genesisState : TransferState :=
          { tokenId := rnd.tokenId, ownerHash := genesisOwnerPkHash, step := 0 }
        let cred := attributes.map fun attrs => mint.issueCredential C attrs rnd.credential
        .ok
          { tokenId := rnd.tokenId
            value := value
            valueCommitment := valueCommitment
            valueProof := mint.pedersen.proveValue C (Suite.scalarFromU64 value)
              rnd.valueBlinding rnd.valueNonce
            mintSignature := signature
            ownerSecret := rnd.ownerSecret
            hashChainHead := advanceHashChain C zero32 rnd.tokenId.toList
            transferCount := 0
            recursionBound := mint.recursionBound
            foldProof := Accumulator.createInitialProofWithPk genesisState genesisOwnerPk
            genesisOwnerHash := genesisOwnerPkHash
            credential := cred.map (·.1)
            presentation := cred.map (·.2)
            vdfProof := vdfIterations.map fun iters =>
              Vdf.evaluate C (Vdf.createSeed C rnd.tokenId 0) iters
            bondOwnerId := bondOwnerId
            credentialPool := match attributes with
              | none => []
              | some attrs => (List.range mint.recursionBound.toNat).map fun i =>
                  mint.issueCredential C attrs (rnd.pool i) }

def issue (C : Suite S P) (mint : Mint S P) (value : UInt64) (signers : List SignerId)
    (attributes : Option Attributes) (rnd : IssueRandom S) :
    Except MintError (ProofCarryingToken S P) :=
  mint.issueFull C value signers attributes none none rnd

def groupPublicKey (mint : Mint S P) : P := mint.keyset.groupPublic

/-- The message the signers sign for a new token. -/
def issueMessage (C : Suite S P) (mint : Mint S P) (value : UInt64) (rnd : IssueRandom S) : Bytes :=
  buildSignedMessage C rnd.tokenId
    (mint.pedersen.commit (Suite.scalarFromU64 value) rnd.valueBlinding)
    (Accumulator.ownerPkHash C (Accumulator.deriveOwnerSigningPk C rnd.ownerSecret))

/-- The token `issue_full` hands out under a signature. -/
def issuedToken (C : Suite S P) (mint : Mint S P) (value : UInt64)
    (attributes : Option Attributes) (vdfIterations : Option UInt64)
    (bondOwnerId : Option Bytes32) (rnd : IssueRandom S) (signature : BlindSignature S) :
    ProofCarryingToken S P :=
  let genesisOwnerPk := Accumulator.deriveOwnerSigningPk C rnd.ownerSecret
  let cred := attributes.map fun attrs => mint.issueCredential C attrs rnd.credential
  { tokenId := rnd.tokenId
    value := value
    valueCommitment := mint.pedersen.commit (Suite.scalarFromU64 value) rnd.valueBlinding
    valueProof := mint.pedersen.proveValue C (Suite.scalarFromU64 value) rnd.valueBlinding
      rnd.valueNonce
    mintSignature := signature
    ownerSecret := rnd.ownerSecret
    hashChainHead := advanceHashChain C zero32 rnd.tokenId.toList
    transferCount := 0
    recursionBound := mint.recursionBound
    foldProof := ⟨genesisOwnerPk, [], 0⟩
    genesisOwnerHash := Accumulator.ownerPkHash C genesisOwnerPk
    credential := cred.map (·.1)
    presentation := cred.map (·.2)
    vdfProof := vdfIterations.map fun iters =>
      Vdf.evaluate C (Vdf.createSeed C rnd.tokenId 0) iters
    bondOwnerId := bondOwnerId
    credentialPool := match attributes with
      | none => []
      | some attrs => (List.range mint.recursionBound.toNat).map fun i =>
          mint.issueCredential C attrs (rnd.pool i) }

section Issued

variable {C : Suite S P} {mint : Mint S P} {value : UInt64} {signers : List SignerId}
  {attributes : Option Attributes} {vdf : Option UInt64} {bond : Option Bytes32}
  {rnd : IssueRandom S} {t : ProofCarryingToken S P}

/-- **What `issue_full` returns**: for a value but 0, the token under the signers' signature. -/
theorem issueFull_inv (h : mint.issueFull C value signers attributes vdf bond rnd = .ok t) :
    value ≠ 0 ∧ ∃ signature,
      Threshold.thresholdBlindSign C mint.keyset signers (mint.issueMessage C value rnd) rnd.sign =
        .ok signature ∧
      t = mint.issuedToken C value attributes vdf bond rnd signature := by
  unfold issueFull at h
  split at h
  · cases h
  · rename_i hvalue
    dsimp only at h
    split at h
    · cases h
    · rename_i signature hsign
      cases h
      exact ⟨hvalue, signature, hsign, rfl⟩

/-- Where the signers sign, it returns. -/
theorem issueFull_of_sign {signature : BlindSignature S} (hvalue : value ≠ 0)
    (hsign : Threshold.thresholdBlindSign C mint.keyset signers (mint.issueMessage C value rnd)
      rnd.sign = .ok signature) :
    mint.issueFull C value signers attributes vdf bond rnd =
      .ok (mint.issuedToken C value attributes vdf bond rnd signature) := by
  unfold issueMessage at hsign
  unfold issueFull
  rw [if_neg hvalue]
  dsimp only
  rw [hsign]
  rfl

/-- **The signed fields of an issued token**: its commitment opens to its value, its chain is
    empty and starts at the key of its owner secret, whose hash it carries. -/
theorem issueFull_ok (h : mint.issueFull C value signers attributes vdf bond rnd = .ok t) :
    t.value = value ∧
      t.valueCommitment = mint.pedersen.commit (Suite.scalarFromU64 value) rnd.valueBlinding ∧
      t.genesisOwnerHash = Accumulator.ownerPkHash C t.foldProof.genesisOwnerPk := by
  obtain ⟨_, signature, _, rfl⟩ := issueFull_inv h
  exact ⟨rfl, rfl, rfl⟩

end Issued

/-! ## 3. Splitting -/

/-- `try_fold(0, checked_add)` started from `acc`. -/
def checkedSumFrom (acc : UInt64) : List UInt64 → Option UInt64
  | [] => some acc
  | v :: vs =>
      if acc.toNat + v.toNat < 2 ^ 64 then checkedSumFrom (acc + v) vs else none

def checkedSum (values : List UInt64) : Option UInt64 := checkedSumFrom 0 values

/-- The outputs of a split, one `issue` each, up to the first error. -/
def issueOutputs (C : Suite S P) (mint : Mint S P) (signers : List SignerId) :
    List UInt64 → (Nat → IssueRandom S) → Except MintError (List (ProofCarryingToken S P))
  | [], _ => .ok []
  | v :: vs, rnd =>
      match mint.issue C v signers none (rnd 0) with
      | .error e => .error e
      | .ok t =>
          match issueOutputs C mint signers vs fun i => rnd (i + 1) with
          | .error e => .error e
          | .ok ts => .ok (t :: ts)

variable [DecidableEq P]

def split (C : Suite S P) (mint : Mint S P) (oldToken : ProofCarryingToken S P)
    (outputValues : List UInt64) (signers : List SignerId) (nullifierSet : NullifierSet)
    (rnd : Nat → IssueRandom S) :
    Option (Except MintError (List (ProofCarryingToken S P)) × NullifierSet) :=
  match verifyToken C oldToken mint.keyset.groupPublic mint.pedersen
      mint.credentialIssuer.pedersen 0 with
  | none => none
  | some vr => some <|
      if vr.signatureValid = false then
        (.error (.signingFailed "input token mint signature invalid"), nullifierSet)
      else if vr.valueValid = false then
        (.error (.signingFailed "input token value commitment invalid"), nullifierSet)
      else if vr.withinBound = false then
        (.error (.signingFailed "input token exceeds recursion bound"), nullifierSet)
      else if vr.foldValid = false then
        (.error (.signingFailed "input token fold proof invalid"), nullifierSet)
      else if outputValues.any (· == 0) then (.error .invalidValue, nullifierSet)
      else
        match checkedSum outputValues with
        | none => (.error (.valueMismatch oldToken.value (-1)), nullifierSet)
        | some totalOut =>
            if totalOut ≠ oldToken.value then
              (.error (.valueMismatch oldToken.value totalOut), nullifierSet)
            else
              match mint.issueOutputs C signers outputValues rnd with
              | .error e => (.error e, nullifierSet)
              | .ok newTokens =>
                  if newTokens.any fun t => !mint.pedersen.verifyValueProof C t.valueCommitment
                      (Suite.scalarFromU64 t.value) t.valueProof then
                    (.error (.signingFailed "output value proof invalid"), nullifierSet)
                  else
                    match nullifierSet.insert (oldToken.computeNullifier C) with
                    | (false, ns) => (.error (.signingFailed "token already spent"), ns)
                    | (true, ns) => (.ok newTokens, ns)

omit [DecidableEq P] in
theorem checkedSumFrom_ok : ∀ (vs : List UInt64) (acc total : UInt64),
    checkedSumFrom acc vs = some total → total.toNat = acc.toNat + (vs.map (·.toNat)).sum
  | [], acc, total, h => by
      cases h
      simp
  | v :: vs, acc, total, h => by
      unfold checkedSumFrom at h
      by_cases hlt : acc.toNat + v.toNat < 2 ^ 64
      · rw [if_pos hlt] at h
        have ih := checkedSumFrom_ok vs (acc + v) total h
        rw [UInt64.toNat_add, Nat.mod_eq_of_lt hlt] at ih
        rw [ih, List.map_cons, List.sum_cons, Nat.add_assoc]
      · rw [if_neg hlt] at h
        cases h

/-- The checked sum is the sum of the values as integers. -/
theorem checkedSum_ok {vs : List UInt64} {total : UInt64} (h : checkedSum vs = some total) :
    total.toNat = (vs.map (·.toNat)).sum := by
  have := checkedSumFrom_ok vs 0 total h
  rw [this]
  simp

omit [DecidableEq P] in
/-- One output for each value. -/
theorem issueOutputs_values {C : Suite S P} {mint : Mint S P} {signers : List SignerId} :
    ∀ {vs : List UInt64} {rnd : Nat → IssueRandom S} {ts : List (ProofCarryingToken S P)},
      mint.issueOutputs C signers vs rnd = .ok ts → ts.map (·.value) = vs
  | [], _, ts, h => by
      cases h
      rfl
  | v :: vs, rnd, ts, h => by
      unfold issueOutputs at h
      split at h
      · cases h
      · rename_i t ht
        split at h
        · cases h
        · rename_i ts' hts
          cases h
          rw [List.map_cons, issueOutputs_values hts, (issueFull_ok ht).1]

omit [DecidableEq P] in
/-- The outputs are worth what was asked for. -/
theorem totalValue_issueOutputs {C : Suite S P} {mint : Mint S P} {signers : List SignerId}
    {vs : List UInt64} {rnd : Nat → IssueRandom S} {ts : List (ProofCarryingToken S P)}
    (h : mint.issueOutputs C signers vs rnd = .ok ts) :
    totalValue ts = (vs.map (·.toNat)).sum := by
  rw [← issueOutputs_values h, List.map_map]
  rfl

/-- The four verdicts `split` asks for. -/
structure Splittable (C : Suite S P) (mint : Mint S P) (t : ProofCarryingToken S P)
    (vr : VerificationResult) : Prop where
  verified : verifyToken C t mint.keyset.groupPublic mint.pedersen
    mint.credentialIssuer.pedersen 0 = some vr
  signature : vr.signatureValid = true
  value : vr.valueValid = true
  bound : vr.withinBound = true
  fold : vr.foldValid = true

/-- **What `split` does.** An error leaves the set as it was; outputs come from a token that was
    verified and not spent before, one `issue` for each value, none of them 0 and worth the
    token together, and the token's nullifier is burned. -/
theorem split_inv {C : Suite S P} {mint : Mint S P} {t : ProofCarryingToken S P}
    {values : List UInt64} {signers : List SignerId} {ns ns' : NullifierSet}
    {rnd : Nat → IssueRandom S} {res : Except MintError (List (ProofCarryingToken S P))}
    (h : mint.split C t values signers ns rnd = some (res, ns')) :
    (∃ e, res = .error e ∧ ns' = ns) ∨
      ∃ vr ts, res = .ok ts ∧ Splittable C mint t vr ∧ 0 ∉ values ∧
        checkedSum values = some t.value ∧ mint.issueOutputs C signers values rnd = .ok ts ∧
        Burned C t ns ns' := by
  unfold split at h
  split at h
  · cases h
  rename_i vr hvr
  rw [Option.some.injEq] at h
  -- the four verdicts and the zero output
  rcases refused_or h with ⟨_, hrefused⟩ | ⟨hsig, h⟩
  · exact .inl hrefused
  rcases refused_or h with ⟨_, hrefused⟩ | ⟨hval, h⟩
  · exact .inl hrefused
  rcases refused_or h with ⟨_, hrefused⟩ | ⟨hbound, h⟩
  · exact .inl hrefused
  rcases refused_or h with ⟨_, hrefused⟩ | ⟨hfold, h⟩
  · exact .inl hrefused
  rcases refused_or h with ⟨_, hrefused⟩ | ⟨hzero, h⟩
  · exact .inl hrefused
  have hsplit : Splittable C mint t vr :=
    ⟨hvr, by simpa using hsig, by simpa using hval, by simpa using hbound, by simpa using hfold⟩
  cases hsum : checkedSum values with
  | none =>
      rw [hsum] at h
      cases h
      exact .inl ⟨_, rfl, rfl⟩
  | some total =>
      rw [hsum] at h
      dsimp only at h
      rcases refused_or h with ⟨_, hrefused⟩ | ⟨heq, h⟩
      · exact .inl hrefused
      cases hts : mint.issueOutputs C signers values rnd with
      | error e =>
          rw [hts] at h
          cases h
          exact .inl ⟨_, rfl, rfl⟩
      | ok ts =>
          rw [hts] at h
          dsimp only at h
          rcases refused_or h with ⟨_, hrefused⟩ | ⟨_, h⟩
          · exact .inl hrefused
          rcases hins : ns.insert (t.computeNullifier C) with ⟨fresh, ns₁⟩
          rw [hins] at h
          cases fresh with
          | false =>
              cases h
              exact .inl ⟨_, rfl, (NullifierSet.insert_false hins).2⟩
          | true =>
              cases h
              refine .inr ⟨vr, ts, rfl, hsplit, by simpa using hzero, ?_, rfl,
                burned_of_insert hins⟩
              rw [Classical.not_not.mp heq]

/-- **`split` spends its input**: an error leaves the set alone, outputs are worth the input. -/
theorem split_spends {C : Suite S P} {mint : Mint S P} {t : ProofCarryingToken S P}
    {values : List UInt64} {signers : List SignerId} {ns ns' : NullifierSet}
    {rnd : Nat → IssueRandom S} {res : Except MintError (List (ProofCarryingToken S P))}
    (h : mint.split C t values signers ns rnd = some (res, ns')) :
    Spends C t ns res.toOption ns' := by
  rcases split_inv h with ⟨e, rfl, rfl⟩ | ⟨vr, ts, rfl, _, _, hsum, hts, hburn⟩
  · exact .untouched
  · refine .done hburn ?_
    rw [totalValue_issueOutputs hts, ← checkedSum_ok hsum]

omit [DecidableEq P] in
/-- The outputs of a split come from `issue`. -/
theorem mem_issueOutputs {C : Suite S P} {mint : Mint S P} {signers : List SignerId}
    {t : ProofCarryingToken S P} :
    ∀ {vs : List UInt64} {rnd : Nat → IssueRandom S} {ts : List (ProofCarryingToken S P)},
      mint.issueOutputs C signers vs rnd = .ok ts → t ∈ ts →
        ∃ v rnd', mint.issue C v signers none rnd' = .ok t
  | [], _, ts, h, ht => by
      cases h
      cases ht
  | v :: vs, rnd, ts, h, ht => by
      unfold issueOutputs at h
      split at h
      · cases h
      · rename_i t₀ hissue
        split at h
        · cases h
        · rename_i ts' hrest
          cases h
          rcases List.mem_cons.mp ht with rfl | ht
          · exact ⟨v, rnd 0, hissue⟩
          · exact mem_issueOutputs hrest ht

/-- The outputs of a split are issued tokens. -/
theorem split_issued {C : Suite S P} {mint : Mint S P} {old t : ProofCarryingToken S P}
    {values : List UInt64} {signers : List SignerId} {ns ns' : NullifierSet}
    {rnd : Nat → IssueRandom S} {ts : List (ProofCarryingToken S P)}
    (h : mint.split C old values signers ns rnd = some (.ok ts, ns')) (ht : t ∈ ts) :
    ∃ v rnd', mint.issue C v signers none rnd' = .ok t := by
  rcases split_inv h with ⟨e, he, _⟩ | ⟨vr, ts', hok, _, _, _, hts, _⟩
  · cases he
  · cases hok
    exact mem_issueOutputs hts ht

end Mint

/-! ## 4. A mint that evaluates -/

/-- A mint with one signer, over `sampleSuite`. -/
def sampleMint : Mint SampleScalar SamplePoint where
  keyset :=
    { groupPublic := (7 : SampleScalar) • sampleSuite.G
      threshold := 1
      total := 1
      shares := fun id => if id = 1 then some ⟨1, 7⟩ else none
      publicShares := fun id => if id = 1 then some ((7 : SampleScalar) • sampleSuite.G) else none }
  pedersen := PedersenParams.new sampleSuite
  credentialIssuer :=
    { secret := 5
      pub := (5 : SampleScalar) • sampleSuite.G
      pedersen := PedersenParams.new sampleSuite }
  recursionBound := 3

/-- Draws told apart by `n`. -/
def sampleIssueRandom (n : Nat) : IssueRandom SampleScalar where
  tokenId := leArr 32 (2 * n)
  ownerSecret := leArr 32 (2 * n + 1)
  valueBlinding := n + 11
  sign := { nonce := fun i => n + i + 3, factors := ⟨n + 5, n + 8⟩ }
  valueNonce := n + 17
  credential := { issuer := ⟨1, 2⟩, presentation := fun i => i }
  pool := fun i => { issuer := ⟨i, 2⟩, presentation := fun j => j }

end Specter
