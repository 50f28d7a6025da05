/-
  File:      Specter/Core/Lifecycle.lean
  Subject:   THE HONEST LIFE OF A TOKEN: issued by a mint that was set up, handed from owner to
             owner, up to the recursion bound (mint.rs, transfer.rs, verify.rs of specter-core).

  * `Honest` -- what a token has that was issued and only transferred since;
    `issued_inv`, `honest_transfer` -- issuing gives it, a transfer keeps it;
  * `allValid_iff_of_honest` -- an honest token is accepted, but for its time lock;
  * `transfer_succeeds` -- below the bound, with a nullifier not spent before, a transfer
    succeeds;
  * `transferAll` -- transfers in a row, against one set; `transferAll_ok`;
  * `life_cycle` -- issue, then any number of transfers up to the bound.
-/
import Specter.Core.Setup
import Specter.Core.Transfer
import Specter.Credential.Disclosure

namespace Specter

open Lib

variable {S P : Type} [Field S] [AddCommGroup P] [Module S P]

/-! ## 1. Honest tokens -/

/-- A token issued by `mint` and only transferred since. -/
structure Honest (C : Suite S P) (mint : Mint S P) (t : ProofCarryingToken S P) : Prop where
  value : t.value ≠ 0
  signature : SchnorrBlind.verify C mint.groupPublicKey (verifiedMessage C t)
    t.mintSignature = true
  valueProof : mint.pedersen.verifyValueProof C t.valueCommitment (Suite.scalarFromU64 t.value)
    t.valueProof = true
  owner : Accumulator.deriveOwnerSigningPk C t.ownerSecret = t.foldProof.currentOwnerPk
  steps : t.foldProof.steps.toNat = t.foldProof.stepsChain.length
  chain : Accumulator.ChainSigned C t.tokenId t.foldProof.genesisOwnerPk t.foldProof.stepsChain
  count : t.transferCount = t.foldProof.steps
  bound : t.recursionBound = mint.recursionBound
  within : t.transferCount ≤ t.recursionBound
  presentation : ∀ p ∈ t.presentation,
    p.verifyPresentation C mint.credentialIssuer.pedersen = some true
  pool : ∀ e ∈ t.credentialPool,
    e.2.verifyPresentation C mint.credentialIssuer.pedersen = some true
  vdf : ∀ v ∈ t.vdfProof, ∃ seed iterations, v = Vdf.evaluate C seed iterations

variable {C : Suite S P} {mint : Mint S P} {t : ProofCarryingToken S P}

/-- The presentation of a fresh credential is accepted. -/
theorem issueCredential_accepted (hmint : mint.Sound C) (attrs : Attributes)
    (rnd : CredentialRandom S) :
    (mint.issueCredential C attrs rnd).2.verifyPresentation C mint.credentialIssuer.pedersen =
      some true :=
  Presentation.verifyPresentation_create
    (Issuer.issue_signed C mint.credentialIssuer hmint.issuer attrs rnd.issuer) rfl (by decide)
    rnd.presentation

/-- What `issue_full` needs to succeed. -/
structure Issuable (mint : Mint S P) (value : UInt64) (signers : List SignerId) : Prop where
  value : value ≠ 0
  enough : mint.keyset.threshold ≤ signers.length
  distinct : signers.Nodup
  known : ∀ id ∈ signers, (mint.keyset.shares id).isSome

/-- **What `issue_full` returns for enough distinct known signers**: an honest token of that
    value, over the drawn id and owner secret, that has made no transfer. -/
theorem issueFull_honest (hmint : mint.Sound C) {value : UInt64} {signers : List SignerId}
    (h : Issuable mint value signers) (attributes : Option Attributes) (vdf : Option UInt64)
    (bond : Option Bytes32) (rnd : IssueRandom S) :
    ∃ t, mint.issueFull C value signers attributes vdf bond rnd = .ok t ∧ Honest C mint t ∧
      t.tokenId = rnd.tokenId ∧ t.ownerSecret = rnd.ownerSecret ∧ t.transferCount = 0 ∧
      t.vdfProof = vdf.map (Vdf.evaluate C (Vdf.createSeed C rnd.tokenId 0)) := by
  obtain ⟨f, hsound⟩ := hmint.keyset
  obtain ⟨sig, hsign, hver⟩ := Threshold.thresholdBlindSign_verifies hsound h.enough h.distinct
    h.known (mint.issueMessage C value rnd) rnd.sign
  refine ⟨_, Mint.issueFull_of_sign h.value hsign, ?_, rfl, rfl, rfl, rfl⟩
  refine ⟨h.value, hver, PedersenParams.verifyValueProof_prove _ _ _, rfl, rfl, ?_, rfl, rfl, ?_,
    ?_, ?_, ?_⟩
  · intro i step hi
    cases hi
  · exact UInt32.zero_le
  · intro p hp
    cases attributes with
    | none => cases hp
    | some attrs =>
        cases hp
        exact issueCredential_accepted hmint attrs rnd.credential
  · intro e he
    cases attributes with
    | none => cases he
    | some attrs =>
        obtain ⟨i, _, rfl⟩ := List.mem_map.mp he
        exact issueCredential_accepted hmint attrs (rnd.pool i)
  · intro v hv
    obtain ⟨iters, _, rfl⟩ := Option.map_eq_some_iff.mp hv
    exact ⟨_, iters, rfl⟩

/-- An issued token was issuable. -/
theorem issuable_of_ok {value : UInt64} {signers : List SignerId}
    {attributes : Option Attributes} {vdf : Option UInt64} {bond : Option Bytes32}
    {rnd : IssueRandom S} (h : mint.issueFull C value signers attributes vdf bond rnd = .ok t) :
    Issuable mint value signers := by
  obtain ⟨hvalue, signature, hsign, _⟩ := Mint.issueFull_inv h
  obtain ⟨hlen, hnd, hknown⟩ := Threshold.thresholdBlindSign_ok_inv hsign
  exact ⟨hvalue, hlen, hnd, hknown⟩

/-- **A token a sound mint has issued** is honest, has made no transfer, and has the time lock
    that was asked for. -/
theorem issued_inv (hmint : mint.Sound C) {value : UInt64} {signers : List SignerId}
    {attributes : Option Attributes} {vdf : Option UInt64} {bond : Option Bytes32}
    {rnd : IssueRandom S} (h : mint.issueFull C value signers attributes vdf bond rnd = .ok t) :
    Honest C mint t ∧ t.transferCount = 0 ∧
      t.vdfProof = vdf.map (Vdf.evaluate C (Vdf.createSeed C rnd.tokenId 0)) := by
  obtain ⟨t', ht', hhonest, _, _, hcount, hvdf⟩ :=
    issueFull_honest hmint (issuable_of_ok h) attributes vdf bond rnd
  rw [h] at ht'
  cases ht'
  exact ⟨hhonest, hcount, hvdf⟩

theorem honest_of_issued (hmint : mint.Sound C) {value : UInt64} {signers : List SignerId}
    {attributes : Option Attributes} {vdf : Option UInt64} {bond : Option Bytes32}
    {rnd : IssueRandom S} (h : mint.issueFull C value signers attributes vdf bond rnd = .ok t) :
    Honest C mint t :=
  (issued_inv hmint h).1

/-! ## 2. Accepted, but for the time lock -/

theorem vdf_verify_iff {seed : Bytes32} {iterations : UInt64} :
    Vdf.verify C (Vdf.evaluate C seed iterations) = true ↔
      iterations ≠ 0 ∧ iterations ≤ Vdf.maxVdfIterations := by
  constructor
  · intro h
    unfold Vdf.verify at h
    split at h
    · cases h
    · rename_i hmax
      split at h
      · cases h
      · rename_i h0
        exact ⟨h0, UInt64.not_lt.mp hmax⟩
  · rintro ⟨h0, hmax⟩
    exact Vdf.verify_evaluate h0 hmax

/-- The time lock, if there is one, is within the limits of the verifier. -/
def VdfWithin (t : ProofCarryingToken S P) : Prop :=
  ∀ v ∈ t.vdfProof, v.iterations ≠ 0 ∧ v.iterations ≤ Vdf.maxVdfIterations

/-- **An honest token is accepted at time 0 exactly where its time lock is within limits.** -/
theorem allValid_iff_of_honest [DecidableEq P] (h : Honest C mint t) :
    AllValid C t mint.groupPublicKey mint.pedersen mint.credentialIssuer.pedersen 0 ↔
      VdfWithin t := by
  have hvdf : (∀ v ∈ t.vdfProof, Vdf.verify C v = true) ↔ VdfWithin t := by
    refine forall₂_congr fun v hv => ?_
    obtain ⟨seed, iterations, rfl⟩ := h.vdf v hv
    exact vdf_verify_iff
  rw [allValid_iff, ← hvdf]
  refine ⟨fun hv => hv.vdf, fun hv => ?_⟩
  refine ⟨h.value, h.signature, h.valueProof, h.within,
    foldVerdict_iff.mpr ⟨h.owner, h.steps, h.chain⟩, ?_, hv⟩
  unfold credentialVerdict
  cases hpres : t.presentation with
  | none => exact ⟨none, rfl, rfl⟩
  | some p =>
      dsimp only
      rw [h.presentation p hpres]
      refine ⟨_, rfl, ?_⟩
      simp

/-! ## 3. One transfer -/

variable {ns ns' : NullifierSet} {rnd : TransferRandom S}

/-- **A transfer keeps a token honest.** -/
theorem honest_transfer {r : TransferResult S P} (h : Honest C mint t)
    (hok : transfer C t ns rnd = (.ok r, ns')) : Honest C mint r.token := by
  obtain ⟨_, hren, _, hcount, fold, hfold, rfl⟩ := transfer_ok_inv hok
  obtain ⟨hsteps, hchain⟩ := Accumulator.chainSigned_fold hfold h.steps h.chain
  obtain ⟨_, _, _, rfl⟩ := Accumulator.foldTransferSigned_ok hfold
  have hlt : t.transferCount < t.recursionBound := by
    unfold ProofCarryingToken.needsRenewal at hren
    exact UInt32.not_le.mp (of_decide_eq_false hren)
  refine ⟨h.value, h.signature, h.valueProof, ?_, hsteps, hchain, ?_, h.bound, ?_, ?_, ?_, h.vdf⟩
  · show _ = chainTip _ (_ ++ [_])
    rw [Accumulator.chainTip_snoc]
    rfl
  · show t.transferCount + 1 = t.foldProof.steps + 1
    rw [h.count]
  · show t.transferCount + 1 ≤ t.recursionBound
    have hlt' := UInt32.lt_iff_toNat_lt.mp hlt
    rw [UInt32.le_iff_toNat_le, Accumulator.toNat_add_one hcount]
    omega
  · intro p hp
    have hpool := h.pool
    unfold handedOver nextCredential at hp
    cases hcred : t.credentialPool with
    | nil =>
        rw [hcred] at hp
        exact h.presentation p hp
    | cons e pool =>
        rw [hcred] at hp hpool
        cases hp
        exact hpool e List.mem_cons_self
  · intro e he
    have hpool := h.pool
    unfold handedOver nextCredential at he
    cases hcred : t.credentialPool with
    | nil =>
        rw [hcred] at he
        cases he
    | cons e' pool =>
        rw [hcred] at he hpool
        exact hpool e (List.mem_cons_of_mem e' he)

/-- **Below the bound an honest token can be transferred** against a set that does not hold its
    nullifier: what comes out, and the set after it. -/
theorem transfer_succeeds (h : Honest C mint t)
    (hlt : t.transferCount.toNat < mint.recursionBound.toNat)
    (hnew : t.computeNullifier C ∉ ns.nullifiers) (rnd : TransferRandom S) :
    ∃ r, transfer C t ns rnd =
        (.ok r, ⟨insert (t.computeNullifier C) ns.nullifiers⟩) ∧
      r.token.tokenId = t.tokenId ∧ r.token.value = t.value ∧
      r.token.valueCommitment = t.valueCommitment ∧
      r.token.mintSignature = t.mintSignature ∧
      r.token.foldProof.genesisOwnerPk = t.foldProof.genesisOwnerPk ∧
      r.token.ownerSecret = rnd.newOwnerSecret ∧ r.token.vdfProof = t.vdfProof ∧
      r.token.transferCount.toNat = t.transferCount.toNat + 1 := by
  have hB := mint.recursionBound.toNat_lt
  have hcount : t.transferCount.toNat + 1 < 2 ^ 32 := by omega
  have hren : t.needsRenewal = false := by
    unfold ProofCarryingToken.needsRenewal
    rw [decide_eq_false_iff_not, h.bound]
    exact UInt32.not_le.mpr (UInt32.lt_iff_toNat_lt.mpr hlt)
  have hsteps : t.foldProof.steps < t.recursionBound := by
    rw [← h.count, h.bound]
    exact UInt32.lt_iff_toNat_lt.mpr hlt
  have hfold := Accumulator.foldTransferSigned_of_tip hsteps (h.count ▸ hcount) h.owner
    (Accumulator.deriveOwnerSigningPk C rnd.newOwnerSecret) t.tokenId rnd.stepNonce
  refine ⟨_, transfer_of_fold h.value hren hnew hcount hfold, rfl, rfl, rfl, rfl, rfl, rfl, rfl, ?_⟩
  exact Accumulator.toNat_add_one hcount

/-- At the bound it cannot. -/
theorem transfer_at_bound (h : Honest C mint t)
    (hB : t.transferCount.toNat = mint.recursionBound.toNat) (ns : NullifierSet)
    (rnd : TransferRandom S) :
    transfer C t ns rnd =
      (.error (.needsRenewal mint.recursionBound mint.recursionBound), ns) := by
  have hcount : t.transferCount = mint.recursionBound := UInt32.toNat_inj.mp hB
  have hren : t.needsRenewal = true := by
    unfold ProofCarryingToken.needsRenewal
    rw [decide_eq_true_iff, h.bound, hcount]
    exact UInt32.le_refl _
  unfold transfer
  rw [if_neg h.value, if_pos hren, h.bound, hcount]

/-! ## 4. Transfers in a row -/

/-- Transfers one after the other against one set, up to the first error. -/
def transferAll (C : Suite S P) : ProofCarryingToken S P → NullifierSet →
    List (TransferRandom S) → Except TransferError (ProofCarryingToken S P) × NullifierSet
  | t, ns, [] => (.ok t, ns)
  | t, ns, rnd :: draws =>
      match transfer C t ns rnd with
      | (.error e, ns') => (.error e, ns')
      | (.ok r, ns') => transferAll C r.token ns' draws

/-- The secrets of the owners, the first one's and those drawn for the others. -/
def owners (secret : Bytes32) (draws : List (TransferRandom S)) : List Bytes32 :=
  secret :: draws.map (·.newOwnerSecret)

/-- The nullifiers of a token's owners, but for the last. -/
def spentNullifiers (C : Suite S P) (tokenId secret : Bytes32)
    (draws : List (TransferRandom S)) : List Bytes32 :=
  (owners secret draws).dropLast.map fun s => computeNullifier C s tokenId

/-- What a token and the set are after the transfers `draws` of the token `t₀`. -/
structure HandedOn (C : Suite S P) (mint : Mint S P) (t₀ : ProofCarryingToken S P)
    (ns₀ : NullifierSet) (draws : List (TransferRandom S)) (t : ProofCarryingToken S P)
    (ns : NullifierSet) : Prop where
  honest : Honest C mint t
  count : t.transferCount.toNat = t₀.transferCount.toNat + draws.length
  tokenId : t.tokenId = t₀.tokenId
  value : t.value = t₀.value
  valueCommitment : t.valueCommitment = t₀.valueCommitment
  mintSignature : t.mintSignature = t₀.mintSignature
  genesisOwnerPk : t.foldProof.genesisOwnerPk = t₀.foldProof.genesisOwnerPk
  vdfProof : t.vdfProof = t₀.vdfProof
  nullifiers : ns.nullifiers =
    ns₀.nullifiers ∪ (spentNullifiers C t₀.tokenId t₀.ownerSecret draws).toFinset

theorem spentNullifiers_cons (C : Suite S P) (tokenId secret : Bytes32) (rnd : TransferRandom S)
    (draws : List (TransferRandom S)) :
    spentNullifiers C tokenId secret (rnd :: draws) =
      computeNullifier C secret tokenId :: spentNullifiers C tokenId rnd.newOwnerSecret draws :=
  rfl

/-- **Transfers in a row succeed** as long as the bound allows and no owner's nullifier is in
    the set or another's. -/
theorem transferAll_ok (draws : List (TransferRandom S)) :
    ∀ (t₀ : ProofCarryingToken S P) (ns₀ : NullifierSet), Honest C mint t₀ →
      t₀.transferCount.toNat + draws.length ≤ mint.recursionBound.toNat →
      (spentNullifiers C t₀.tokenId t₀.ownerSecret draws).Nodup →
      (∀ n ∈ spentNullifiers C t₀.tokenId t₀.ownerSecret draws, n ∉ ns₀.nullifiers) →
      ∃ t ns, transferAll C t₀ ns₀ draws = (.ok t, ns) ∧ HandedOn C mint t₀ ns₀ draws t ns := by
  induction draws with
  | nil =>
      intro t₀ ns₀ h _ _ _
      refine ⟨t₀, ns₀, rfl, h, rfl, rfl, rfl, rfl, rfl, rfl, rfl, ?_⟩
      simp [spentNullifiers, owners]
  | cons rnd draws ih =>
      intro t₀ ns₀ h hbound hnd hnew
      rw [spentNullifiers_cons] at hnd hnew
      obtain ⟨hnotin, hnd'⟩ := List.nodup_cons.mp hnd
      rw [List.length_cons] at hbound
      obtain ⟨r, hr, hid, hval, hcom, hsig, hgen, hown, hvdf, hcount⟩ :=
        transfer_succeeds h (by omega) (hnew _ List.mem_cons_self) rnd
      have hhonest := honest_transfer h hr
      have hrest : ∀ n ∈ spentNullifiers C r.token.tokenId r.token.ownerSecret draws,
          n ∉ insert (t₀.computeNullifier C) ns₀.nullifiers := by
        intro n hn
        rw [hid, hown] at hn
        rw [Finset.mem_insert, not_or]
        refine ⟨fun e => hnotin ?_, hnew n (List.mem_cons_of_mem _ hn)⟩
        rw [e] at hn
        exact hn
      obtain ⟨t, ns, hrun, hon⟩ := ih r.token ⟨insert (t₀.computeNullifier C) ns₀.nullifiers⟩
        hhonest (by omega) (by rw [hid, hown]; exact hnd') hrest
      refine ⟨t, ns, ?_, hon.honest, ?_, hon.tokenId.trans hid, hon.value.trans hval,
        hon.valueCommitment.trans hcom, hon.mintSignature.trans hsig,
        hon.genesisOwnerPk.trans hgen, hon.vdfProof.trans hvdf, ?_⟩
      · rw [transferAll, hr]
        exact hrun
      · rw [hon.count, hcount, List.length_cons]
        omega
      · rw [hon.nullifiers, hid, hown, spentNullifiers_cons, List.toFinset_cons,
          Finset.union_insert, Finset.insert_union]
        rfl

/-- The nullifiers of distinct owners are distinct, where the hash does not collide on them. -/
theorem spentNullifiers_nodup {tokenId secret : Bytes32} {draws : List (TransferRandom S)}
    (hsecrets : (owners secret draws).Nodup)
    (hhash : ∀ a ∈ owners secret draws, ∀ b ∈ owners secret draws,
      computeNullifier C a tokenId = computeNullifier C b tokenId → a = b) :
    (spentNullifiers C tokenId secret draws).Nodup := by
  refine List.Nodup.map_on (fun a ha b hb => ?_) (hsecrets.sublist (List.dropLast_sublist _))
  exact hhash a (List.mem_of_mem_dropLast ha) b (List.mem_of_mem_dropLast hb)

/-! ## 5. The whole life -/

variable [DecidableEq P]

/-- A token after `k` transfers of `t₀`, against a set that was empty: accepted, its counters at
    `k`, what the mint signed unchanged, the set the earlier owners' nullifiers; and at the
    bound no further transfer. -/
structure Alive (C : Suite S P) (mint : Mint S P) (t₀ : ProofCarryingToken S P)
    (draws : List (TransferRandom S)) (t : ProofCarryingToken S P) (ns : NullifierSet) :
    Prop where
  valid : AllValid C t mint.groupPublicKey mint.pedersen mint.credentialIssuer.pedersen 0
  steps : t.foldProof.steps.toNat = draws.length
  count : t.transferCount.toNat = draws.length
  tokenId : t.tokenId = t₀.tokenId
  value : t.value = t₀.value
  valueCommitment : t.valueCommitment = t₀.valueCommitment
  mintSignature : t.mintSignature = t₀.mintSignature
  genesisOwnerPk : t.foldProof.genesisOwnerPk = t₀.foldProof.genesisOwnerPk
  nullifiers : ns.nullifiers = (spentNullifiers C t₀.tokenId t₀.ownerSecret draws).toFinset
  exhausted : draws.length = mint.recursionBound.toNat → ∀ next : TransferRandom S,
    transfer C t ns next = (.error (.needsRenewal mint.recursionBound mint.recursionBound), ns)

/-- **The honest life cycle is complete.** A mint that was set up issues a token to enough
    distinct known signers, for every value but 0, with or without attributes, a time lock
    within limits and any bond; and the token can be transferred again and again up to the
    recursion bound, by owners with distinct secrets: after each of the `k` transfers it is
    accepted with its counters at `k`, and the next one at the bound is refused. -/
theorem life_cycle (hmint : mint.SetUp C) {value : UInt64} (hvalue : value ≠ 0)
    {signers : List SignerId} (henough : mint.keyset.threshold ≤ signers.length)
    (hdistinct : signers.Nodup) (hknown : ∀ id ∈ signers, (mint.keyset.shares id).isSome)
    (attributes : Option Attributes) {vdf : Option UInt64}
    (hvdf : ∀ n ∈ vdf, 1 ≤ n ∧ n ≤ 10000000) (bond : Option Bytes32) (rnd : IssueRandom S)
    (draws : List (TransferRandom S)) (hbound : draws.length ≤ mint.recursionBound.toNat)
    (hsecrets : (owners rnd.ownerSecret draws).Nodup)
    (hhash : ∀ a ∈ owners rnd.ownerSecret draws, ∀ b ∈ owners rnd.ownerSecret draws,
      computeNullifier C a rnd.tokenId = computeNullifier C b rnd.tokenId → a = b) :
    ∃ t₀, mint.issueFull C value signers attributes vdf bond rnd = .ok t₀ ∧
      ∀ k ≤ draws.length, ∃ t ns,
        transferAll C t₀ NullifierSet.new (draws.take k) = (.ok t, ns) ∧
          Alive C mint t₀ (draws.take k) t ns := by
  obtain ⟨t₀, hissue, hhonest, hid, hown, hzero, htime⟩ := issueFull_honest hmint.sound
    ⟨hvalue, henough, hdistinct, hknown⟩ attributes vdf bond rnd
  refine ⟨t₀, hissue, fun k hk => ?_⟩
  have hsub : (owners rnd.ownerSecret (draws.take k)).Sublist (owners rnd.ownerSecret draws) :=
    ((List.take_sublist k draws).map _).cons_cons _
  have hnd : (spentNullifiers C t₀.tokenId t₀.ownerSecret (draws.take k)).Nodup := by
    rw [hid, hown]
    exact spentNullifiers_nodup (hsecrets.sublist hsub) fun a ha b hb =>
      hhash a (hsub.subset ha) b (hsub.subset hb)
  have hlen : (draws.take k).length ≤ mint.recursionBound.toNat := by
    rw [List.length_take]
    omega
  obtain ⟨t, ns, hrun, hon⟩ := transferAll_ok (draws.take k) t₀ NullifierSet.new hhonest
    (by rw [hzero]; simpa using hlen) hnd (fun n _ => Finset.notMem_empty n)
  have hcount : t.transferCount.toNat = (draws.take k).length := by
    rw [hon.count, hzero]
    simp
  have hwithin : VdfWithin t := by
    intro v hv
    rw [hon.vdfProof, htime] at hv
    obtain ⟨n, hn, rfl⟩ := Option.map_eq_some_iff.mp hv
    obtain ⟨hone, hmax⟩ := hvdf n hn
    exact ⟨fun h0 => absurd (h0 ▸ hone : (1 : UInt64) ≤ 0) (by decide), hmax⟩
  refine ⟨t, ns, hrun, (allValid_iff_of_honest hon.honest).mpr hwithin, ?_, hcount, hon.tokenId,
    hon.value, hon.valueCommitment, hon.mintSignature, hon.genesisOwnerPk, ?_, ?_⟩
  · rw [← hon.honest.count]
    exact hcount
  · rw [hon.nullifiers]
    exact Finset.empty_union _
  · intro hB next
    exact transfer_at_bound hon.honest (hcount.trans hB) ns next

/-- A dealer's draws, and those of two transfers. -/
def sampleDealer : Threshold.DealerRandom SampleScalar := ⟨7, fun i => i + 9⟩

def sampleDraws : List (TransferRandom SampleScalar) := [⟨leArr 32 101, 21⟩, ⟨leArr 32 102, 22⟩]

/-- A mint of two signers out of three issues a token with a credential and a time lock, which
    is transferred twice, up to its bound. -/
theorem life_cycle_two_of_three :
    ∃ mint t₀, Mint.setup sampleSuite ⟨2, 3, 2⟩ sampleDealer 5 = some mint ∧
      mint.issueFull sampleSuite 10 [3, 1] (some ⟨true, true, "EU", true, 0⟩) (some 3) none
        (sampleIssueRandom 0) = .ok t₀ ∧
      ∀ k ≤ 2, ∃ t ns,
        transferAll sampleSuite t₀ NullifierSet.new (sampleDraws.take k) = (.ok t, ns) ∧
          Alive sampleSuite mint t₀ (sampleDraws.take k) t ns := by
  have hrun : ((Mint.setup (P := SamplePoint) sampleSuite ⟨2, 3, 2⟩ sampleDealer 5).map fun mint =>
      decide (mint.keyset.threshold ≤ 2 ∧ mint.recursionBound = 2 ∧
        (mint.keyset.shares 3).isSome ∧ (mint.keyset.shares 1).isSome)) = some true := by
    decide +kernel
  obtain ⟨mint, hmint, hfacts⟩ := Option.map_eq_some_iff.mp hrun
  obtain ⟨henough, hbound, hthree, hfirst⟩ := of_decide_eq_true hfacts
  have hknown : ∀ id ∈ [(3 : SignerId), 1], (mint.keyset.shares id).isSome := by
    simp [hthree, hfirst]
  have hvalue : (10 : UInt64) ≠ 0 := by decide
  have hsigners : mint.keyset.threshold ≤ [(3 : SignerId), 1].length := henough
  have hvdf : ∀ n ∈ some (3 : UInt64), 1 ≤ n ∧ n ≤ 10000000 := by
    intro n hn
    cases hn
    decide
  -- the three owners' nullifiers differ
  have hhash : ((owners (sampleIssueRandom 0).ownerSecret sampleDraws).all fun a =>
      (owners (sampleIssueRandom 0).ownerSecret sampleDraws).all fun b =>
        decide (computeNullifier sampleSuite a (sampleIssueRandom 0).tokenId =
          computeNullifier sampleSuite b (sampleIssueRandom 0).tokenId → a = b)) = true := by
    decide +kernel
  obtain ⟨t₀, ht₀, hlife⟩ := life_cycle (.inl ⟨_, _, _, hmint⟩) hvalue hsigners (by decide) hknown
    (some ⟨true, true, "EU", true, 0⟩) hvdf none (sampleIssueRandom 0) sampleDraws
    (by rw [hbound]; decide) (by decide +kernel) fun a ha b hb =>
      of_decide_eq_true (List.all_eq_true.mp (List.all_eq_true.mp hhash a ha) b hb)
  exact ⟨mint, t₀, hmint, ht₀, hlife⟩

end Specter
