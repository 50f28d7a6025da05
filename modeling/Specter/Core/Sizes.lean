/-
  File:      Specter/Core/Sizes.lean
  Subject:   THE SIZE OF A TOKEN (`serialized_size` of specter-core/src/serde_token.rs, `save` of
             wallet.rs): how many bytes a token and a wallet take.

  * `length_serializeToken` -- the size from the fields;
  * `length_payload` -- and that of a wallet's payload;
  * `serializedSize_transferAll` -- what a row of transfers makes of it: every one adds a step of
    96 bytes, and takes the first entry off the pool as long as there is one.
-/
import Specter.Core.Lifecycle
import Specter.Core.Public
import Specter.Core.Wallet

namespace Specter

open Lib

variable {S P : Type} [Field S] [AddCommGroup P] [Module S P]

namespace Serde

/-! ## 1. A token -/

/-- The bytes of a credential block. -/
def credentialSize (cred : Credential S P) : Nat :=
  172 + (utf8Bytes cred.attributes.jurisdiction).length

def presentationSize (pres : Presentation S P) : Nat :=
  194 + 33 * pres.disclosed.length + 32 * pres.proofResponse.length

/-- The bytes of a section that may be absent, behind its flag. -/
def optionSize {α : Type} (size : α → Nat) : Option α → Nat
  | none => 0
  | some a => size a

/-- `serialized_size`, from the fields. -/
def serializedSize (token : ProofCarryingToken S P) : Nat :=
  351 + 96 * token.foldProof.stepsChain.length + optionSize credentialSize token.credential +
    optionSize presentationSize token.presentation + optionSize (fun _ => 72) token.vdfProof +
    optionSize (fun _ => 32) token.bondOwnerId +
    (token.credentialPool.map fun e => credentialSize e.1 + presentationSize e.2).sum

variable {C : Suite S P}

theorem length_flatMap_const {α : Type} {f : α → Bytes} {k : Nat} (h : ∀ a, (f a).length = k)
    (xs : List α) : (xs.flatMap f).length = k * xs.length := by
  induction xs with
  | nil => rfl
  | cons x xs ih =>
      rw [List.flatMap_cons, List.length_append, ih, h, List.length_cons]
      ring

theorem length_writeCredential (cred : Credential S P) :
    (writeCredential C cred).length = credentialSize cred := by
  unfold writeCredential credentialSize writeString
  simp only [List.length_append, length_writePoint, length_writeScalar, List.length_cons,
    List.length_nil, length_le64]
  omega

theorem length_writePresentation (pres : Presentation S P) :
    (writePresentation C pres).length = presentationSize pres := by
  have hdisclosed := length_flatMap_const
    (f := fun d : Nat × S => UInt8.ofNat d.1 :: writeScalar C d.2) (k := 33)
    (fun d => by simp) pres.disclosed
  have hresponses := length_flatMap_const (f := writeScalar C) (k := 32)
    (fun s => length_writeScalar s) pres.proofResponse
  unfold writePresentation presentationSize
  simp only [List.length_append, length_writePoint, length_writeScalar, List.length_cons,
    List.length_nil, hdisclosed, hresponses]
  omega

theorem length_writeOption {α : Type} {write : α → Bytes} {size : α → Nat}
    (h : ∀ a, (write a).length = size a) (o : Option α) :
    (writeOption write o).length = 1 + optionSize size o := by
  cases o with
  | none => rfl
  | some a =>
      show (1 :: write a).length = 1 + size a
      rw [List.length_cons, h]
      omega

/-- **The size of a serialized token.** -/
theorem length_serializeToken (token : ProofCarryingToken S P) :
    (serializeToken C token).length = serializedSize token := by
  have hcred := length_writeOption (length_writeCredential (C := C)) token.credential
  have hpres := length_writeOption (length_writePresentation (C := C)) token.presentation
  have hvdf : (writeOption writeVdf token.vdfProof).length =
      1 + optionSize (fun _ => 72) token.vdfProof :=
    length_writeOption (fun v => by simp [writeVdf]) token.vdfProof
  have hbond : (writeOption (fun b : Bytes32 => b.toList) token.bondOwnerId).length =
      1 + optionSize (fun _ => 32) token.bondOwnerId :=
    length_writeOption (fun b => b.toList_length) token.bondOwnerId
  have hpool : (token.credentialPool.flatMap fun e =>
      writeCredential C e.1 ++ writePresentation C e.2).length =
      (token.credentialPool.map fun e => credentialSize e.1 + presentationSize e.2).sum := by
    rw [List.length_flatMap]
    refine congrArg List.sum (List.map_congr_left fun e _ => ?_)
    rw [List.length_append, length_writeCredential, length_writePresentation]
  have hhead := length_writeHead (C := C) token
  have hsteps := length_writeSteps (C := C) token.foldProof.stepsChain
  unfold serializeToken writeChain writeTail writePool serializedSize
  simp only [List.length_append, hhead, hcred, hpres, hvdf, hbond, hpool, hsteps, length_leBytes,
    length_le32, length_writePoint, List.Vector.toList_length, ownerSecretOffset]
  omega
end Serde

/-! ## 2. A wallet -/

theorem Wallet.length_payload {C : Suite S P} (w : Wallet S P) :
    (w.payload C).length = 4 + (w.tokens.map fun t => 4 + Serde.serializedSize t).sum := by
  unfold Wallet.payload
  rw [List.length_append, length_leBytes, List.length_flatMap]
  refine congrArg (4 + List.sum ·) (List.map_congr_left fun t _ => ?_)
  unfold Wallet.frame
  rw [List.length_append, length_leBytes, Serde.length_serializeToken]

/-! ## 3. A token handed on -/

/-- The bytes of a token's own credential and presentation. -/
def ownWeight (t : ProofCarryingToken S P) : Nat :=
  Serde.optionSize Serde.credentialSize t.credential +
    Serde.optionSize Serde.presentationSize t.presentation

/-- Its own credential weighs `e` bytes with the presentation, and so does each of the `n` entries
    of its pool. -/
structure Weighs (e n : Nat) (t : ProofCarryingToken S P) : Prop where
  own : ownWeight t = e
  entries : ∀ c ∈ t.credentialPool, Serde.credentialSize c.1 + Serde.presentationSize c.2 = e
  pool : t.credentialPool.length = n

variable {C : Suite S P} {t : ProofCarryingToken S P} {e n : Nat}

omit [Field S] [AddCommGroup P] [Module S P] in
theorem Weighs.serializedSize (h : Weighs e n t) :
    Serde.serializedSize t = 351 + 96 * t.foldProof.stepsChain.length +
      Serde.optionSize (fun _ => 72) t.vdfProof + Serde.optionSize (fun _ => 32) t.bondOwnerId +
      e * (n + 1) := by
  have hpool : (t.credentialPool.map fun c =>
      Serde.credentialSize c.1 + Serde.presentationSize c.2).sum = e * n := by
    rw [List.map_congr_left h.entries, List.map_const', List.sum_replicate, h.pool, smul_eq_mul,
      Nat.mul_comm]
  have hown := h.own
  unfold ownWeight at hown
  unfold Serde.serializedSize
  rw [hpool, Nat.mul_add, Nat.mul_one]
  omega

/-- **A transfer adds a step, and takes an entry off the pool** as long as there is one. -/
theorem Weighs.transfer {ns ns' : NullifierSet} {rnd : TransferRandom S} {r : TransferResult S P}
    (h : Weighs e n t) (hok : Specter.transfer C t ns rnd = (.ok r, ns')) :
    Weighs e (n - 1) r.token ∧
      r.token.foldProof.stepsChain.length = t.foldProof.stepsChain.length + 1 ∧
      r.token.vdfProof = t.vdfProof ∧ r.token.bondOwnerId = t.bondOwnerId := by
  obtain ⟨_, _, _, _, fold, hfold, rfl⟩ := transfer_ok_inv hok
  obtain ⟨_, _, _, rfl⟩ := Accumulator.foldTransferSigned_ok hfold
  refine ⟨?_, by simp [handedOver], rfl, rfl⟩
  have hentries := h.entries
  have hpool := h.pool
  cases hcred : t.credentialPool with
  | nil =>
      rw [hcred] at hpool
      refine ⟨?_, fun c hc => ?_, ?_⟩
      · simp only [ownWeight, handedOver, nextCredential, hcred]
        exact h.own
      · simp [handedOver, nextCredential, hcred] at hc
      · simp only [handedOver, nextCredential, hcred]
        rw [← hpool]
        rfl
  | cons c pool =>
      rw [hcred] at hentries hpool
      refine ⟨?_, fun c' hc' => ?_, ?_⟩
      · simp only [ownWeight, handedOver, nextCredential, hcred]
        exact hentries c List.mem_cons_self
      · simp only [handedOver, nextCredential, hcred] at hc'
        exact hentries c' (List.mem_cons_of_mem c hc')
      · simp only [handedOver, nextCredential, hcred]
        rw [← hpool]
        rfl

/-- **What a row of transfers makes of the size.** -/
theorem serializedSize_transferAll (draws : List (TransferRandom S)) :
    ∀ {t₀ t : ProofCarryingToken S P} {n : Nat} {ns ns' : NullifierSet}, Weighs e n t₀ →
      transferAll C t₀ ns draws = (.ok t, ns') →
      Serde.serializedSize t + e * min draws.length n =
        Serde.serializedSize t₀ + 96 * draws.length := by
  induction draws with
  | nil =>
      intro t₀ t n ns ns' h hrun
      cases hrun
      simp
  | cons rnd draws ih =>
      intro t₀ t n ns ns' h hrun
      rw [transferAll] at hrun
      split at hrun
      · cases hrun
      · rename_i r ns₁ hok
        obtain ⟨hnext, hsteps, hvdf, hbond⟩ := h.transfer hok
        have hrest := ih hnext hrun
        have hsize₀ := h.serializedSize
        have hsize₁ := hnext.serializedSize
        rw [hsteps, hvdf, hbond] at hsize₁
        rw [List.length_cons]
        cases n with
        | zero =>
            simp only [Nat.zero_sub, Nat.min_zero, Nat.mul_zero] at hrest hsize₁ ⊢
            omega
        | succ m =>
            rw [Nat.add_sub_cancel] at hrest hsize₁
            rw [Nat.succ_min_succ, Nat.mul_succ]
            rw [Nat.mul_add e (m + 1) 1, Nat.mul_one] at hsize₀
            omega

/-- Transfers stop at the bound the token carries. -/
theorem transferAll_within (draws : List (TransferRandom S)) :
    ∀ {t₀ t : ProofCarryingToken S P} {ns ns' : NullifierSet},
      t₀.transferCount.toNat ≤ t₀.recursionBound.toNat →
      transferAll C t₀ ns draws = (.ok t, ns') →
      t₀.transferCount.toNat + draws.length ≤ t₀.recursionBound.toNat := by
  induction draws with
  | nil =>
      intro t₀ t ns ns' h _
      exact h
  | cons rnd draws ih =>
      intro t₀ t ns ns' _ hrun
      rw [transferAll] at hrun
      split at hrun
      · cases hrun
      · rename_i r ns₁ hok
        obtain ⟨_, hren, _, hcount, fold, _, rfl⟩ := transfer_ok_inv hok
        have hlt : t₀.transferCount < t₀.recursionBound := by
          unfold ProofCarryingToken.needsRenewal at hren
          exact UInt32.not_le.mp (of_decide_eq_false hren)
        have hnext : (handedOver C t₀ rnd fold).transferCount.toNat =
            t₀.transferCount.toNat + 1 := Accumulator.toNat_add_one hcount
        have hrest := ih (by rw [hnext]; exact UInt32.lt_iff_toNat_lt.mp hlt) hrun
        rw [hnext] at hrest
        rw [List.length_cons]
        exact (Nat.add_right_comm _ _ _).symm.trans_le hrest

/-- What one credential and its presentation weigh: two attributes are disclosed, three and the
    blinding answered for. -/
def attributesWeight : Option Attributes → Nat
  | none => 0
  | some attrs => 560 + (utf8Bytes attrs.jurisdiction).length

theorem issueCredential_weight {mint : Mint S P} (attrs : Attributes) (rnd : CredentialRandom S) :
    Serde.credentialSize (mint.issueCredential C attrs rnd).1 +
      Serde.presentationSize (mint.issueCredential C attrs rnd).2 =
        attributesWeight (some attrs) := by
  have hshown : [Presentation.attrKycPassed, Presentation.attrNotSanctioned].filter
      (· < Attributes.count) = [0, 1] := by decide
  have hhidden : Presentation.hiddenIndices [0, 1] = [2, 3, 4] := by decide
  have hattrs : (mint.issueCredential C attrs rnd).1.attributes = attrs := rfl
  have hpres : Serde.presentationSize (mint.issueCredential C attrs rnd).2 = 388 := by
    unfold Mint.issueCredential Presentation.createPresentation Serde.presentationSize
    dsimp only
    rw [hshown, hhidden]
    simp
  rw [Serde.credentialSize, hattrs, hpres]
  simp only [attributesWeight]
  omega

/-- A mint stocks the pool with as many credentials as its bound allows transfers. -/
theorem weighs_of_issued {mint : Mint S P} {value : UInt64} {signers : List SignerId}
    {attributes : Option Attributes} {vdf : Option UInt64} {bond : Option Bytes32}
    {rnd : IssueRandom S} (h : mint.issueFull C value signers attributes vdf bond rnd = .ok t) :
    Weighs (attributesWeight attributes)
      (if attributes.isSome then mint.recursionBound.toNat else 0) t := by
  obtain ⟨_, signature, _, rfl⟩ := Mint.issueFull_inv h
  cases attributes with
  | none => exact ⟨rfl, fun c hc => (nomatch hc), rfl⟩
  | some attrs =>
      refine ⟨issueCredential_weight attrs rnd.credential, fun c hc => ?_, ?_⟩
      · obtain ⟨i, _, rfl⟩ := List.mem_map.mp hc
        exact issueCredential_weight attrs (rnd.pool i)
      · simp [Mint.issuedToken]

/-- **The size of a token over its life.** A token starts at 351 bytes, 72 for a time lock, 32 for
    a bond, and the weight of a credential for itself and for each transfer it may make; every
    transfer then adds 96 bytes and takes one credential away. -/
theorem size_over_life {mint : Mint S P} {value : UInt64} {signers : List SignerId}
    {attributes : Option Attributes} {vdf : Option UInt64} {bond : Option Bytes32}
    {rnd : IssueRandom S} {t₀ : ProofCarryingToken S P} {ns ns' : NullifierSet}
    {draws : List (TransferRandom S)}
    (h : mint.issueFull C value signers attributes vdf bond rnd = .ok t₀)
    (hrun : transferAll C t₀ ns draws = (.ok t, ns')) :
    draws.length ≤ mint.recursionBound.toNat ∧
      (Serde.serializeToken C t).length + attributesWeight attributes * draws.length =
      351 + (if vdf.isSome then 72 else 0) + (if bond.isSome then 32 else 0) +
        attributesWeight attributes * (mint.recursionBound.toNat + 1) + 96 * draws.length := by
  obtain ⟨_, signature, _, ht₀⟩ := Mint.issueFull_inv h
  have hweighs := weighs_of_issued h
  have hwithin := transferAll_within draws (show t₀.transferCount.toNat ≤ t₀.recursionBound.toNat by
    rw [ht₀]
    exact Nat.zero_le _) hrun
  have hrow := serializedSize_transferAll draws hweighs hrun
  have hstart := hweighs.serializedSize
  have hfields : t₀.transferCount = 0 ∧ t₀.recursionBound = mint.recursionBound ∧
      t₀.foldProof.stepsChain = [] ∧ t₀.bondOwnerId = bond ∧
      Serde.optionSize (fun _ => 72) t₀.vdfProof = if vdf.isSome then 72 else 0 := by
    subst ht₀
    refine ⟨rfl, rfl, rfl, rfl, ?_⟩
    cases vdf <;> rfl
  obtain ⟨hcount, hbound, hchain, hbond, hvdf⟩ := hfields
  have hlen : draws.length ≤ mint.recursionBound.toNat := by
    rw [hcount, hbound] at hwithin
    simpa using hwithin
  have hbondSize : Serde.optionSize (fun _ => 32) t₀.bondOwnerId =
      if bond.isSome then 32 else 0 := by
    rw [hbond]
    cases bond <;> rfl
  rw [hchain, List.length_nil, hvdf, hbondSize] at hstart
  refine ⟨hlen, ?_⟩
  rw [Serde.length_serializeToken]
  cases attributes with
  | none =>
      simp only [attributesWeight, Nat.zero_mul] at hrow hstart ⊢
      omega
  | some attrs =>
      rw [Option.isSome_some, if_pos rfl] at hrow hstart
      rw [Nat.min_eq_left hlen] at hrow
      omega

/-- A token with a time lock and a credential, handed on twice by a mint with the bound 3: it has
    shrunk from 2 671 bytes to 1 739. -/
theorem size_over_life_twice :
    ∃ t₀ t ns, sampleMint.issueFull sampleSuite 10 [1] (some ⟨true, true, "EU", true, 0⟩)
        (some 3) none (sampleIssueRandom 0) = .ok t₀ ∧
      transferAll sampleSuite t₀ NullifierSet.new sampleDraws = (.ok t, ns) ∧
      (Serde.serializeToken sampleSuite t).length = 1739 := by
  have hrun : (((sampleMint.issueFull sampleSuite 10 [1] (some ⟨true, true, "EU", true, 0⟩)
      (some 3) none (sampleIssueRandom 0)).toOption.bind fun t₀ =>
        (transferAll sampleSuite t₀ NullifierSet.new sampleDraws).1.toOption).isSome) = true := by
    decide +kernel
  obtain ⟨t, ht⟩ := Option.isSome_iff_exists.mp hrun
  obtain ⟨t₀, hissue, hrow⟩ := Option.bind_eq_some_iff.mp ht
  have hissue := ok_of_toOption hissue
  have hrow := ok_of_toOption hrow
  have hsize := (size_over_life hissue (Prod.ext hrow rfl)).2
  have hweight : attributesWeight (some ⟨true, true, "EU", true, 0⟩) = 562 := by decide +kernel
  have hbound : sampleMint.recursionBound = 3 := by decide +kernel
  rw [hweight, hbound] at hsize
  simp [sampleDraws] at hsize
  exact ⟨t₀, t, _, hissue, Prod.ext hrow rfl, by omega⟩

end Specter
