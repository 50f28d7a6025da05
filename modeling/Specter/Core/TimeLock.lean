/-
  File:      Specter/Core/TimeLock.lean
  Subject:   WHOSE TIME LOCK A TOKEN CARRIES: the seed `issue_full` derives from the token id
             (specter-core/src/mint.rs) and the check of `verify_token` (verify.rs), which
             recomputes the chain and never looks at the id.

  * `OwnTimeLock` -- the token's proof is a chain from a seed made of its own id;
  * `MadeFor` -- the id, timestamp and rounds the proof was made for; `issueFull_madeFor` --
    issuance makes it for the id of the token;
  * `vdfValid_eq`, `vdfValid_true` -- the verdict is about the proof alone;
  * `ownTimeLock_iff` -- on which tokens the verdict `vdf_valid = Some(true)` says what it should.
-/
import Specter.Core.Mint

namespace Specter

open Lib

variable {S P : Type} [Field S] [AddCommGroup P] [Module S P]

/-- The token's proof is the chain, within the limits, from a seed of its own id. -/
structure OwnTimeLock (C : Suite S P) (token : ProofCarryingToken S P) (proof : VdfProof) :
    Prop where
  carried : token.vdfProof = some proof
  seed : ∃ ts, proof.seed = Vdf.createSeed C token.tokenId ts
  chained : Vdf.Chained C proof

/-- The proof of the token, if it has one, is the evaluation of `n` rounds from the seed of `id`
    at `ts`, whoever ran it and wherever the holder took it from. -/
def MadeFor (C : Suite S P) (id : Bytes32) (ts n : UInt64) (token : ProofCarryingToken S P) :
    Prop :=
  ∀ proof ∈ token.vdfProof, proof = Vdf.evaluate C (Vdf.createSeed C id ts) n

/-- **Issuance makes the proof for the id of the token**, at timestamp 0. -/
theorem issueFull_madeFor {C : Suite S P} {mint : Mint S P} {value : UInt64}
    {signers : List SignerId} {attributes : Option Attributes} {n : UInt64}
    {bond : Option Bytes32} {rnd : IssueRandom S} {t : ProofCarryingToken S P}
    (h : mint.issueFull C value signers attributes (some n) bond rnd = .ok t) :
    MadeFor C t.tokenId 0 n t := by
  obtain ⟨_, signature, _, rfl⟩ := Mint.issueFull_inv h
  rintro _ ⟨⟩
  rfl

variable [DecidableEq P] {C : Suite S P}

/-- The presentation of the token makes `verify_presentation` panic. -/
def PresentationPanics (C : Suite S P) (token : ProofCarryingToken S P)
    (credentialPedersen : PedersenParams P) : Prop :=
  ∃ pres ∈ token.presentation, pres.verifyPresentation C credentialPedersen = none

omit [DecidableEq P] in
theorem credentialVerdict_none {token : ProofCarryingToken S P} {cpp : PedersenParams P}
    {now : UInt64} : credentialVerdict C token cpp now = none ↔ PresentationPanics C token cpp := by
  unfold credentialVerdict PresentationPanics
  cases token.presentation with
  | none => simp
  | some pres =>
      dsimp only
      cases h : pres.verifyPresentation C cpp <;> simp [h]

/-- **What `vdf_valid` is**: the check of the proof alone, on every token that is looked at. -/
theorem vdfValid_eq {token : ProofCarryingToken S P} (gpk : P) (pp : PedersenParams P)
    {cpp : PedersenParams P} (now : UInt64) (hvalue : token.value ≠ 0)
    (hpanic : ¬ PresentationPanics C token cpp) :
    ∃ vr, verifyToken C token gpk pp cpp now = some vr ∧
      vr.vdfValid = token.vdfProof.map (Vdf.verify C) := by
  unfold verifyToken
  rw [if_neg hvalue]
  cases hcred : credentialVerdict C token cpp now with
  | none => exact absurd (credentialVerdict_none.mp hcred) hpanic
  | some verdict => exact ⟨_, rfl, rfl⟩

/-- The other way round: a token on which the verdict is `Some(true)` was looked at, and its
    proof is a chain. -/
theorem vdfValid_true {token : ProofCarryingToken S P} {gpk : P} {pp cpp : PedersenParams P}
    {now : UInt64} {vr : VerificationResult} (h : verifyToken C token gpk pp cpp now = some vr)
    (hvdf : vr.vdfValid = some true) :
    token.value ≠ 0 ∧ ¬ PresentationPanics C token cpp ∧
      ∃ proof, token.vdfProof = some proof ∧ Vdf.Chained C proof := by
  unfold verifyToken at h
  split at h
  · cases h
    cases hvdf
  · rename_i hvalue
    cases hcred : credentialVerdict C token cpp now with
    | none => rw [hcred] at h; cases h
    | some verdict =>
        rw [hcred] at h
        cases h
        obtain ⟨proof, hproof, hok⟩ := Option.map_eq_some_iff.mp hvdf
        refine ⟨hvalue, fun hp => ?_, proof, hproof, Vdf.verify_iff.mp hok⟩
        rw [credentialVerdict_none.mpr hp] at hcred
        cases hcred

omit [DecidableEq P] in
/-- An evaluation is a chain within the limits if its rounds are. -/
theorem chained_evaluate_iff {seed : Bytes32} {n : UInt64} :
    Vdf.Chained C (Vdf.evaluate C seed n) ↔ 1 ≤ n.toNat ∧ n.toNat ≤ 10000000 :=
  ⟨fun h => ⟨h.least, h.most⟩, fun h => ⟨h.1, h.2, rfl⟩⟩

/-- **When an accepted time lock is the token's own.** For a token whose proof was made for `id`,
    whose seed is not one of the token's id by accident, `vdf_valid = Some(true)` says that the
    proof is a chain from a seed of the token's id exactly where that id is the token's, or where
    there is no such verdict: the token has value 0, a presentation that panics, no proof, or a
    proof with rounds outside the limits. -/
theorem ownTimeLock_iff {id : Bytes32} {ts n : UInt64} {token : ProofCarryingToken S P}
    (hmade : MadeFor C id ts n token)
    (hseed : ∀ ts', Vdf.createSeed C id ts = Vdf.createSeed C token.tokenId ts' →
      id = token.tokenId)
    (gpk : P) (pp cpp : PedersenParams P) (now : UInt64) :
    (∀ vr, verifyToken C token gpk pp cpp now = some vr → vr.vdfValid = some true →
      ∃ proof, OwnTimeLock C token proof) ↔
    token.value = 0 ∨ PresentationPanics C token cpp ∨ token.vdfProof = none ∨
      ¬ (1 ≤ n.toNat ∧ n.toNat ≤ 10000000) ∨ id = token.tokenId := by
  constructor
  · intro hown
    by_cases hvalue : token.value = 0
    · exact .inl hvalue
    by_cases hpanic : PresentationPanics C token cpp
    · exact .inr (.inl hpanic)
    by_cases hnone : token.vdfProof = none
    · exact .inr (.inr (.inl hnone))
    by_cases hrounds : 1 ≤ n.toNat ∧ n.toNat ≤ 10000000
    · -- the verdict is given, so the proof has a seed of the token's id as well
      obtain ⟨proof, hproof⟩ := Option.ne_none_iff_exists'.mp hnone
      have hchain : Vdf.Chained C proof := hmade proof hproof ▸ chained_evaluate_iff.mpr hrounds
      obtain ⟨vr, hvr, hv⟩ := vdfValid_eq gpk pp now hvalue hpanic
      rw [hproof, Option.map_some, Vdf.verify_iff.mpr hchain] at hv
      obtain ⟨proof', hlock⟩ := hown vr hvr hv
      obtain ⟨ts', hts'⟩ := hlock.seed
      rw [hmade proof' hlock.carried] at hts'
      exact .inr (.inr (.inr (.inr (hseed ts' hts'))))
    · exact .inr (.inr (.inr (.inl hrounds)))
  · intro hcond vr hvr hv
    obtain ⟨hvalue, hpanic, proof, hproof, hchain⟩ := vdfValid_true hvr hv
    have hproof' := hmade proof hproof
    rcases hcond with h | h | h | h | h
    · exact absurd h hvalue
    · exact absurd h hpanic
    · cases h.symm.trans hproof
    · exact absurd (chained_evaluate_iff.mp (hproof' ▸ hchain)) h
    · exact ⟨proof, hproof, ⟨ts, by rw [hproof', ← h]; rfl⟩, hchain⟩

/-- An issued token's time lock is accepted and its own. -/
theorem ownTimeLock_issued :
    ∃ t vr proof,
      sampleMint.issueFull sampleSuite 10 [1] none (some 2) none (sampleIssueRandom 0) = .ok t ∧
      verifyToken sampleSuite t sampleMint.groupPublicKey sampleMint.pedersen
        sampleMint.credentialIssuer.pedersen 0 = some vr ∧
      vr.vdfValid = some true ∧ OwnTimeLock sampleSuite t proof := by
  have hrun : ((sampleMint.issueFull sampleSuite 10 [1] none (some 2) none
        (sampleIssueRandom 0)).toOption.bind
      fun t => (verifyToken sampleSuite t sampleMint.groupPublicKey sampleMint.pedersen
        sampleMint.credentialIssuer.pedersen 0).map
      fun vr => decide (vr.vdfValid = some true)) = some true := by decide +kernel
  obtain ⟨t, ht, hrun⟩ := Option.bind_eq_some_iff.mp hrun
  obtain ⟨vr, hvr, hvdf⟩ := Option.map_eq_some_iff.mp hrun
  have hvdf := of_decide_eq_true hvdf
  have hissue := ok_of_toOption ht
  obtain ⟨proof, hlock⟩ := (ownTimeLock_iff (issueFull_madeFor hissue) (fun _ _ => rfl)
    sampleMint.groupPublicKey sampleMint.pedersen sampleMint.credentialIssuer.pedersen 0).mpr
    (.inr (.inr (.inr (.inr rfl)))) vr hvr hvdf
  exact ⟨t, vr, proof, hissue, hvr, hvdf, hlock⟩

/-! ## A proof on the wrong token -/

/-- A step of `sampleDigest`. -/
def digestStep (base acc : Nat) (b : UInt8) : Nat := (acc * base + b.toNat + 1) % 2 ^ 256

/-- The digest of a longer text is that of its head moved up, with something below added. -/
theorem digest_tail : ∀ (tail : Bytes) (acc : Nat), ∃ r < 257 ^ tail.length,
    tail.foldl (digestStep 257) acc ≡ acc * 257 ^ tail.length + r [MOD 2 ^ 256]
  | [], acc => ⟨0, by simp, by simp [Nat.ModEq]⟩
  | b :: tail, acc => by
      obtain ⟨r, hr, hmod⟩ := digest_tail tail (digestStep 257 acc b)
      have hb : b.toNat < 256 := b.toNat_lt
      refine ⟨(b.toNat + 1) * 257 ^ tail.length + r, ?_, ?_⟩
      · calc (b.toNat + 1) * 257 ^ tail.length + r
            < (b.toNat + 1) * 257 ^ tail.length + 257 ^ tail.length := Nat.add_lt_add_left hr _
          _ = (b.toNat + 2) * 257 ^ tail.length := by ring
          _ ≤ 257 * 257 ^ tail.length := Nat.mul_le_mul_right _ (by omega)
          _ = 257 ^ (b :: tail).length := by rw [List.length_cons, pow_succ, mul_comm]
      · have hstep : digestStep 257 acc b ≡ acc * 257 + b.toNat + 1 [MOD 2 ^ 256] :=
          Nat.mod_modEq _ _
        calc (b :: tail).foldl (digestStep 257) acc
            ≡ digestStep 257 acc b * 257 ^ tail.length + r [MOD 2 ^ 256] := hmod
          _ ≡ (acc * 257 + b.toNat + 1) * 257 ^ tail.length + r [MOD 2 ^ 256] :=
            (hstep.mul_right _).add_right r
          _ = acc * 257 ^ (b :: tail).length + ((b.toNat + 1) * 257 ^ tail.length + r) := by
            rw [List.length_cons, pow_succ]
            ring

theorem digest_lt : ∀ (data : Bytes) {acc : Nat}, acc < 2 ^ 256 →
    data.foldl (digestStep 257) acc < 2 ^ 256
  | [], _, h => h
  | _ :: data, _, _ => digest_lt data (Nat.mod_lt _ (by norm_num))

/-- Going round from `H` and past it by `r` ends at `r`. -/
theorem modEq_past {M H f r : Nat} (hM : 0 < M) (h : f ≡ H + r [MOD M]) :
    f + (M - H % M) ≡ r [MOD M] := by
  have hlt := Nat.mod_lt H hM
  have hdiv := Nat.div_add_mod H M
  have hround : H + r + (M - H % M) = r + M * (H / M + 1) := by
    rw [Nat.mul_add, Nat.mul_one]
    omega
  calc f + (M - H % M) ≡ H + r + (M - H % M) [MOD M] := h.add_right _
    _ = r + M * (H / M + 1) := hround
    _ ≡ r [MOD M] := Nat.add_mul_mod_self_left r M _

/-- The text a seed of the id starts with, digested. -/
def seedHead (id : Bytes32) : Nat :=
  (ascii "specter-vdf-seed:" ++ id.toList).foldl (digestStep 257) 0

/-- A number too far above the head of an id is a seed of that id for no timestamp. -/
theorem seed_foreign {seed id : Bytes32}
    (h : 257 ^ 8 ≤ (ofLE seed.toList + (2 ^ 256 - seedHead id * 257 ^ 8 % 2 ^ 256)) % 2 ^ 256)
    (ts : UInt64) : seed ≠ Vdf.createSeed sampleSuite id ts := by
  rintro rfl
  obtain ⟨r, hr, hmod⟩ := digest_tail (le64 ts) (seedHead id)
  have hlen : (le64 ts).length = 8 := rfl
  rw [hlen] at hr hmod
  have hfold : ofLE (Vdf.createSeed sampleSuite id ts).toList =
      (le64 ts).foldl (digestStep 257) (seedHead id) := by
    show ofLE (leArr 32 ((ascii "specter-vdf-seed:" ++ id.toList ++ le64 ts).foldl
      (digestStep 257) 0)).toList = _
    rw [ofLE_leArr (digest_lt _ (by norm_num)), List.foldl_append]
    rfl
  rw [hfold] at h
  have hr' : (le64 ts).foldl (digestStep 257) (seedHead id) +
      (2 ^ 256 - seedHead id * 257 ^ 8 % 2 ^ 256) ≡ r [MOD 2 ^ 256] :=
    modEq_past (by norm_num) hmod
  have hsmall : r % 2 ^ 256 = r := Nat.mod_eq_of_lt (lt_trans hr (by norm_num))
  rw [hr', hsmall] at h
  omega

/-- Two tokens are issued, each with a time lock of its own; the second, with the proof of the
    first in the place of its own, is accepted as a whole, and its time lock with it. -/
theorem spliced_time_lock_accepted :
    ∃ t₀ t₁ t vr,
      sampleMint.issueFull sampleSuite 10 [1] none (some 2) none (sampleIssueRandom 0) = .ok t₀ ∧
      sampleMint.issueFull sampleSuite 10 [1] none (some 2) none (sampleIssueRandom 1) = .ok t₁ ∧
      t = { t₁ with vdfProof := t₀.vdfProof } ∧
      verifyToken sampleSuite t sampleMint.groupPublicKey sampleMint.pedersen
        sampleMint.credentialIssuer.pedersen 0 = some vr ∧
      vr.allValid = true ∧ vr.vdfValid = some true ∧
      ¬ ∃ proof, OwnTimeLock sampleSuite t proof := by
  have hrun :
      ((sampleMint.issueFull sampleSuite 10 [1] none (some 2) none
        (sampleIssueRandom 0)).toOption.bind
      fun t₀ => (sampleMint.issueFull sampleSuite 10 [1] none (some 2) none
        (sampleIssueRandom 1)).toOption.bind
      fun t₁ => (verifyToken sampleSuite { t₁ with vdfProof := t₀.vdfProof }
        sampleMint.groupPublicKey sampleMint.pedersen sampleMint.credentialIssuer.pedersen 0).bind
      fun vr => t₀.vdfProof.map
      fun proof => decide ((vr.allValid = true ∧ vr.vdfValid = some true) ∧
        257 ^ 8 ≤ (ofLE proof.seed.toList +
          (2 ^ 256 - seedHead t₁.tokenId * 257 ^ 8 % 2 ^ 256)) % 2 ^ 256)) = some true := by
    decide +kernel
  obtain ⟨t₀, ht₀, hrun⟩ := Option.bind_eq_some_iff.mp hrun
  obtain ⟨t₁, ht₁, hrun⟩ := Option.bind_eq_some_iff.mp hrun
  obtain ⟨vr, hvr, hrun⟩ := Option.bind_eq_some_iff.mp hrun
  obtain ⟨proof, hproof, hfacts⟩ := Option.map_eq_some_iff.mp hrun
  obtain ⟨⟨hall, hvdf⟩, hforeign⟩ := of_decide_eq_true hfacts
  refine ⟨t₀, t₁, _, vr, ok_of_toOption ht₀, ok_of_toOption ht₁, rfl, hvr, hall, hvdf, ?_⟩
  intro h
  obtain ⟨proof', hlock⟩ := h
  obtain ⟨ts, hseed⟩ := hlock.seed
  cases hproof.symm.trans hlock.carried
  exact seed_foreign hforeign ts hseed

end Specter
