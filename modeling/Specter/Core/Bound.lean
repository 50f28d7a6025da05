/-
  File:      Specter/Core/Bound.lean
  Subject:   THE RECURSION BOUND of a token that passes from holder to holder, each of whom may
             transfer it or rewrite any of its fields (verify.rs, transfer.rs of specter-core).

  Three fields speak of the length of the chain. `fold_valid` ties `fold_proof.steps` to it,
  `within_bound` compares `transfer_count` with `recursion_bound`; nothing compares the two
  pairs, and the mint signs none of them.

  * `holders` -- transfers and edits as a machine over tokens;
  * `Counted B` -- the invariant: `transfer_count` is `fold_proof.steps`, and the bound is at
    most `B`; `transfer_counted` -- a transfer keeps it;
  * `allValid_rewrite` -- the verdict does not see `transfer_count` and `recursion_bound`, but
    for their order;
  * `chain_bounded_of_counted` -- runs whose edits keep the invariant are bounded by the mint.
-/
import Specter.Core.Editing
import Specter.Lib.Machine

namespace Specter

open Lib

variable {S P : Type} [Field S] [AddCommGroup P] [Module S P]

/-! ## 1. Holders -/

/-- What a holder can do: transfer the token against some set, or edit it. -/
inductive Move (S P : Type) where
  | transfer (ns : NullifierSet) (rnd : TransferRandom S)
  | edit (f : ProofCarryingToken S P → ProofCarryingToken S P)

/-- The token after a move; a transfer that fails is no move. -/
def holders (C : Suite S P) : Machine (ProofCarryingToken S P) (Move S P) where
  step t
    | .transfer ns rnd => (transfer C t ns rnd).1.toOption.map (·.token)
    | .edit f => some (f t)

/-- The count agrees with the steps of the chain, under a bound of at most `B`. -/
def Counted (B : UInt32) (t : ProofCarryingToken S P) : Prop :=
  t.transferCount = t.foldProof.steps ∧ t.recursionBound ≤ B

/-- The edits that leave a counted token; transfers are not restricted. -/
def EditsCounted (B : UInt32) (t : ProofCarryingToken S P) : Move S P → Prop
  | .transfer _ _ => True
  | .edit f => Counted B (f t)

/-- Accepted, the token has as many signed transfers as it counts, and at most the mint's
    bound. -/
def ChainBounded [DecidableEq P] (C : Suite S P) (mint : Mint S P) (t : ProofCarryingToken S P) :
    Prop :=
  ∀ now, AllValid C t mint.groupPublicKey mint.pedersen mint.credentialIssuer.pedersen now →
    t.foldProof.stepsChain.length = t.transferCount.toNat ∧
      t.foldProof.stepsChain.length ≤ mint.recursionBound.toNat

/-! ## 2. What keeps the count -/

variable {C : Suite S P} {mint : Mint S P} {t t' : ProofCarryingToken S P} {B : UInt32}

/-- An issued token has made no transfer and carries the mint's bound. -/
theorem issued_counted (h : Issued C mint t) : Counted mint.recursionBound t := by
  obtain ⟨value, signers, attributes, vdf, bond, rnd, h⟩ := h
  obtain ⟨_, signature, _, rfl⟩ := Mint.issueFull_inv h
  exact ⟨rfl, UInt32.le_refl _⟩

/-- A transfer adds one to the count and one step to the chain. -/
theorem transfer_counted {ns ns' : NullifierSet} {rnd : TransferRandom S}
    {r : TransferResult S P} (h : transfer C t ns rnd = (.ok r, ns')) (hc : Counted B t) :
    Counted B r.token := by
  obtain ⟨_, _, _, _, fold, hfold, rfl⟩ := transfer_ok_inv h
  obtain ⟨_, _, _, rfl⟩ := Accumulator.foldTransferSigned_ok hfold
  refine ⟨?_, hc.2⟩
  show t.transferCount + 1 = t.foldProof.steps + 1
  rw [hc.1]

theorem holders_step_counted {m : Move S P} (hc : Counted B t) (hm : EditsCounted B t m)
    (h : (holders C).step t m = some t') : Counted B t' := by
  cases m with
  | transfer ns rnd =>
      obtain ⟨r, hr, rfl⟩ := Option.map_eq_some_iff.mp h
      have hok : transfer C t ns rnd = (.ok r, (transfer C t ns rnd).2) := by
        rw [← ok_of_toOption hr]
      exact transfer_counted hok hc
  | edit f =>
      cases h
      exact hm

/-! ## 3. What the verdict sees -/

variable [DecidableEq P] {gpk : P} {pp cpp : PedersenParams P} {now : UInt64}

/-- Accepted, a counted token is within its bound. -/
theorem chainBounded_of_counted (hc : Counted mint.recursionBound t) : ChainBounded C mint t := by
  intro now hvalid
  have hv := allValid_iff.mp hvalid
  obtain ⟨_, hsteps, _⟩ := foldVerdict_iff.mp hv.fold
  have hcount := UInt32.le_iff_toNat_le.mp hv.bound
  have hbound := UInt32.le_iff_toNat_le.mp hc.2
  have hlen : t.foldProof.stepsChain.length = t.transferCount.toNat := by rw [← hsteps, hc.1]
  exact ⟨hlen, by omega⟩

/-- The verdict does not depend on the count and the bound, so long as the count is within. -/
theorem allValid_rewrite {c b : UInt32} (hcb : c ≤ b) (h : AllValid C t gpk pp cpp now) :
    AllValid C { t with transferCount := c, recursionBound := b } gpk pp cpp now := by
  have hv := allValid_iff.mp h
  exact allValid_iff.mpr ⟨hv.value, hv.signature, hv.valueProof, hcb, hv.fold, hv.credential,
    hv.vdf⟩

/-- An accepted token, its count and bound rewritten: bounded exactly where the count is the
    number of steps and the mint allows it. -/
theorem chainBounded_rewrite_iff {c b : UInt32} (hcb : c ≤ b)
    (h : AllValid C t mint.groupPublicKey mint.pedersen mint.credentialIssuer.pedersen now) :
    ChainBounded C mint { t with transferCount := c, recursionBound := b } ↔
      c = t.foldProof.steps ∧ c ≤ mint.recursionBound := by
  obtain ⟨_, hsteps, _⟩ := foldVerdict_iff.mp (allValid_iff.mp h).fold
  constructor
  · intro hbounded
    obtain ⟨hlen, hle⟩ := hbounded now (allValid_rewrite hcb h)
    dsimp only at hlen hle
    have hc : c = t.foldProof.steps := UInt32.toNat_inj.mp (by omega)
    refine ⟨hc, UInt32.le_iff_toNat_le.mpr ?_⟩
    omega
  · rintro ⟨hc, hle⟩ now' _
    have hle' := UInt32.le_iff_toNat_le.mp hle
    dsimp only
    rw [hc] at hle' ⊢
    omega

/-! ## 4. Runs -/

/-- **When the mint's bound limits the chain.** In every run of holders from an issued token
    whose edits leave `transfer_count` at `fold_proof.steps` and `recursion_bound` at the mint's
    bound or below, every token reached has, if accepted, as many signed transfers as it counts
    and at most the bound. And no accepted token of any run is safe from other edits: with the
    count at `c` and the bound at `b ≥ c` it has that property only for the one `c` that is its
    number of steps, within the mint's bound. -/
theorem chain_bounded_of_counted {t₀ : ProofCarryingToken S P} (hiss : Issued C mint t₀)
    (moves : List (Move S P)) (hrun : (holders C).run t₀ moves = some t) :
    ((holders C).AllSteps (EditsCounted mint.recursionBound) t₀ moves → ChainBounded C mint t) ∧
    ∀ now, AllValid C t mint.groupPublicKey mint.pedersen mint.credentialIssuer.pedersen now →
      ∀ c b : UInt32, c ≤ b →
        (ChainBounded C mint { t with transferCount := c, recursionBound := b } ↔
          c = t.foldProof.steps ∧ c ≤ mint.recursionBound) := by
  refine ⟨fun hsteps => chainBounded_of_counted ?_, fun now hvalid c b hcb =>
    chainBounded_rewrite_iff hcb hvalid⟩
  exact (holders C).run_invariant_of (fun _ _ _ hc hm h => holders_step_counted hc hm h)
    moves t₀ t (issued_counted hiss) hsteps hrun

/-- The `n`-th of a row of transfers. -/
def sampleHandOver (n : Nat) : Move SampleScalar SamplePoint :=
  .transfer NullifierSet.new ⟨leArr 32 (n + 100), n + 21⟩

/-- The token the moves make of an issued one, if it is accepted: its count, and its number of
    signed transfers. -/
def sampleCounts (moves : List (Move SampleScalar SamplePoint)) : Option (UInt32 × Nat) :=
  (sampleMint.issue sampleSuite 10 [1] none (sampleIssueRandom 0)).toOption.bind fun t₀ =>
    ((holders sampleSuite).run t₀ moves).bind fun t =>
      (verifyToken sampleSuite t sampleMint.groupPublicKey sampleMint.pedersen
        sampleMint.credentialIssuer.pedersen 0).bind fun vr =>
        if vr.allValid then some (t.transferCount, t.foldProof.stepsChain.length) else none

theorem sampleCounts_run {moves : List (Move SampleScalar SamplePoint)} {c : UInt32} {n : Nat}
    (h : sampleCounts moves = some (c, n)) :
    ∃ t₀ t, Issued sampleSuite sampleMint t₀ ∧ (holders sampleSuite).run t₀ moves = some t ∧
      AllValid sampleSuite t sampleMint.groupPublicKey sampleMint.pedersen
        sampleMint.credentialIssuer.pedersen 0 ∧
      t.transferCount = c ∧ t.foldProof.stepsChain.length = n := by
  obtain ⟨t₀, ht₀, h⟩ := Option.bind_eq_some_iff.mp h
  obtain ⟨t, ht, h⟩ := Option.bind_eq_some_iff.mp h
  obtain ⟨vr, hvr, h⟩ := Option.bind_eq_some_iff.mp h
  by_cases hall : vr.allValid = true
  · rw [if_pos hall] at h
    cases h
    exact ⟨t₀, t, ⟨_, _, _, _, _, _, ok_of_toOption ht₀⟩, ht, ⟨vr, hvr, hall⟩, rfl, rfl⟩
  · rw [if_neg hall] at h
    cases h

/-- The bound raised before the first transfer, the count reset after the last. -/
def stretched : List (Move SampleScalar SamplePoint) :=
  [.edit fun t => { t with recursionBound := 9 }, sampleHandOver 0, sampleHandOver 1,
    sampleHandOver 2, sampleHandOver 3, .edit fun t => { t with transferCount := 0 }]

/-- A token of a mint with bound 3 is accepted with four signed transfers and none counted. -/
theorem stretched_accepted :
    ∃ t₀ t, Issued sampleSuite sampleMint t₀ ∧ (holders sampleSuite).run t₀ stretched = some t ∧
      AllValid sampleSuite t sampleMint.groupPublicKey sampleMint.pedersen
        sampleMint.credentialIssuer.pedersen 0 ∧
      t.foldProof.stepsChain.length = 4 ∧ t.transferCount = 0 ∧ sampleMint.recursionBound = 3 := by
  have hcounts : sampleCounts stretched = some (0, 4) := by decide +kernel
  obtain ⟨t₀, t, hiss, hrun, hvalid, hcount, hlen⟩ := sampleCounts_run hcounts
  exact ⟨t₀, t, hiss, hrun, hvalid, hlen, hcount, rfl⟩

/-- Two transfers, and an edit of the hash chain head between them. -/
def unstretched : List (Move SampleScalar SamplePoint) :=
  [sampleHandOver 0, .edit fun t => { t with hashChainHead := zero32 }, sampleHandOver 1]

theorem unstretched_bounded :
    ∃ t₀ t, Issued sampleSuite sampleMint t₀ ∧ (holders sampleSuite).run t₀ unstretched = some t ∧
      AllValid sampleSuite t sampleMint.groupPublicKey sampleMint.pedersen
        sampleMint.credentialIssuer.pedersen 0 ∧
      t.foldProof.stepsChain.length = 2 ∧ ChainBounded sampleSuite sampleMint t ∧
      ¬ ChainBounded sampleSuite sampleMint { t with transferCount := 1, recursionBound := 1 } := by
  have hcounts : sampleCounts unstretched = some (2, 2) := by decide +kernel
  obtain ⟨t₀, t, hiss, hrun, hvalid, _, hlen⟩ := sampleCounts_run hcounts
  obtain ⟨hbounded, hedited⟩ := chain_bounded_of_counted hiss unstretched hrun
  refine ⟨t₀, t, hiss, hrun, hvalid, hlen, hbounded ?_, fun hone => ?_⟩
  · refine (holders sampleSuite).allSteps_of_invariant
      (fun _ _ _ hc hm h => holders_step_counted hc hm h) unstretched t₀ (issued_counted hiss) ?_
    intro m hm s hs
    -- the one edit does not touch the three fields
    rcases List.mem_cons.mp hm with rfl | hm
    · trivial
    · rcases List.mem_cons.mp hm with rfl | hm
      · exact hs
      · cases List.mem_singleton.mp hm
        trivial
  · obtain ⟨hc, _⟩ := (hedited 0 hvalid 1 1 (UInt32.le_refl _)).mp hone
    obtain ⟨_, hsteps, _⟩ := foldVerdict_iff.mp (allValid_iff.mp hvalid).fold
    rw [← hc, hlen] at hsteps
    cases hsteps

end Specter
