/-
  File:      Specter/Offline/Vdf.lean
  Subject:   THE HASH-CHAIN TIME LOCK (specter-offline/src/vdf.rs).

  `evaluate` iterates SHA-256, `verify` recomputes the chain within its iteration limits.

  * `verify_iff` -- what an accepted proof is: a chain of 1 to 10,000,000 rounds from its seed;
  * `verify_evaluate` -- an evaluation within the limits is accepted.
-/
import Specter.Primitives.Suite

namespace Specter

open Lib

variable {S P : Type} [Field S] [AddCommGroup P] [Module S P]

structure VdfProof where
  seed : Bytes32
  iterations : UInt64
  output : Bytes32
  deriving DecidableEq

namespace Vdf

variable (C : Suite S P)

/-- `n` rounds of SHA-256. -/
def hashChain : Nat → Bytes32 → Bytes32
  | 0, x => x
  | n + 1, x => hashChain n (C.sha256 x.toList)

def evaluate (seed : Bytes32) (iterations : UInt64) : VdfProof where
  seed := seed
  iterations := iterations
  output := hashChain C iterations.toNat seed

def maxVdfIterations : UInt64 := 10000000

def verify (proof : VdfProof) : Bool :=
  if proof.iterations > maxVdfIterations then false
  else if proof.iterations = 0 then false
  else (evaluate C proof.seed proof.iterations).output == proof.output

def createSeed (tokenId : Bytes32) (timestampSecs : UInt64) : Bytes32 :=
  C.sha256 (ascii "specter-vdf-seed:" ++ tokenId.toList ++ le64 timestampSecs)

/-- The output is the chain from the seed, with the number of rounds within the limits. -/
structure Chained (proof : VdfProof) : Prop where
  least : 1 ≤ proof.iterations.toNat
  most : proof.iterations.toNat ≤ 10000000
  output : proof.output = hashChain C proof.iterations.toNat proof.seed

theorem verify_iff {C : Suite S P} {proof : VdfProof} :
    verify C proof = true ↔ Chained C proof := by
  have hmax : proof.iterations > maxVdfIterations ↔ 10000000 < proof.iterations.toNat :=
    UInt64.lt_iff_toNat_lt
  have hzero : proof.iterations = 0 ↔ proof.iterations.toNat = 0 := UInt64.toNat_inj.symm
  unfold verify
  constructor
  · intro h
    split at h
    · cases h
    · rename_i hle
      split at h
      · cases h
      · rename_i hne
        refine ⟨?_, ?_, (eq_of_beq h).symm⟩
        · rw [hzero] at hne
          omega
        · rw [hmax] at hle
          omega
  · intro h
    obtain ⟨hleast, hmost, hout⟩ := h
    have hle : ¬ proof.iterations > maxVdfIterations := by
      rw [hmax]
      omega
    have hne : ¬ proof.iterations = 0 := by
      rw [hzero]
      omega
    rw [if_neg hle, if_neg hne, hout]
    exact beq_self_eq_true _

theorem verify_evaluate {C : Suite S P} {seed : Bytes32} {iterations : UInt64}
    (h0 : iterations ≠ 0) (hmax : iterations ≤ maxVdfIterations) :
    verify C (evaluate C seed iterations) = true := by
  have hlt : ¬ (evaluate C seed iterations).iterations > maxVdfIterations :=
    UInt64.not_lt.mpr hmax
  have hne : (evaluate C seed iterations).iterations ≠ 0 := h0
  unfold verify
  rw [if_neg hlt, if_neg hne]
  exact beq_self_eq_true _

end Vdf

end Specter
