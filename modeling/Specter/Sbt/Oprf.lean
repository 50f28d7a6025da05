/-
  File:      Specter/Sbt/Oprf.lean
  Subject:   THE OBLIVIOUS EVALUATION BEHIND THE BLIND TOKENS (specter-sbt/src/transcript.rs,
             proof.rs, oprf.rs).

  Scalars that the code redraws until they are not zero are arguments of the type `Nonzero`.

  * `DdhEqualityProof`, `TokenProof` -- the two proofs, with `verify_ok_iff` for each: what the
    verifier checks beside the points it rejects;
  * `evaluateServer`, `combineEvaluations`, `unblind` -- one trustee's evaluation, and the client's
    combination of a quorum of them;
  * `lagrangeCombine_eq` -- the sum with the coefficients of the code is the one with the weights
    of interpolation at 0;
  * `combineEvaluations_ok_iff` -- what the client has checked when it combines, and that it then
    returns the weighted sum;
  * `combineEvaluations_quorum` -- evaluations of `threshold` share holders of one polynomial `f`
    combine to the blinded point times `f 0`, whoever they are.
-/
import Specter.Lib.Checks
import Specter.Lib.Sharing
import Specter.Primitives.Pedersen

namespace Specter

open Lib Lib.Sharing Lib.Checks

variable {S P : Type} [Field S] [AddCommGroup P] [Module S P]

inductive SbtError where
  | ddhEqualityFailed (index : UInt32)
  | insufficient (got need : Nat)
  | duplicateIndex (index : UInt32)
  | tokenProofFailed
  | identityPoint
  | zeroDenominator
  | invalidIndex (index : UInt32)
  | sessionTooShort
  | sessionMismatch
  | stateRequestMismatch
  | emptyDomain
  | tagOriginMismatch
  | aggregateMismatch
  | tagOriginCheckRequired
  deriving DecidableEq

def SbtError.display : SbtError → String
  | .ddhEqualityFailed i => "DDH equality proof verification failed for trustee " ++ toString i
  | .insufficient got need =>
      "insufficient valid evaluations: got " ++ toString got ++ ", need " ++ toString need
  | .duplicateIndex i => "duplicate trustee index " ++ toString i ++ " in evaluation set"
  | .tokenProofFailed => "spend token NIZK verification failed"
  | .identityPoint => "decoded point is the identity — rejecting"
  | .zeroDenominator => "lagrange denominator is zero — degenerate evaluation set"
  | .invalidIndex i => "invalid trustee index " ++ toString i
  | .sessionTooShort => "session id is too short"
  | .sessionMismatch => "session id mismatch between request and scheme"
  | .stateRequestMismatch => "client state and request are inconsistent"
  | .emptyDomain => "h2c_domain must not be empty"
  | .tagOriginMismatch => "tag is not bound to the claimed OPRF key"
  | .aggregateMismatch => "aggregate public key mismatch — commits are inconsistent"
  | .tagOriginCheckRequired =>
      "full tag-origin validation requires a held secret key or threshold helper"

/-- A scalar drawn again until it is not zero. -/
abbrev Nonzero (S : Type) [Zero S] := { w : S // w ≠ 0 }

namespace Sbt

/-! ## 1. The transcript -/

/-- `(len as u64).to_be_bytes()`. -/
def lenBytes (bytes : Bytes) : Bytes := (leBytes 8 bytes.length).reverse

/-- What the sponge has absorbed. -/
structure Transcript where
  absorbed : Bytes

namespace Transcript

def new (label : Bytes) : Transcript where
  absorbed := ascii "SPECTER-SBT-TRANSCRIPT-v1/" ++ lenBytes label ++ label

def appendBytes (tr : Transcript) (tag bytes : Bytes) : Transcript where
  absorbed := tr.absorbed ++ lenBytes tag ++ tag ++ lenBytes bytes ++ bytes

def appendPoint (C : Suite S P) (tr : Transcript) (tag : Bytes) (point : P) : Transcript :=
  tr.appendBytes tag (C.compress point).toList

/-- The challenge, and the transcript with the squeezed bytes absorbed again. -/
def challengeScalar (C : Suite S P) (tr : Transcript) (tag : Bytes) : S × Transcript :=
  let tr := tr.appendBytes tag []
  let buf := C.shake256 64 tr.absorbed
  (C.fromBytesModOrderWide buf,
    { absorbed := tr.absorbed ++ ascii "__cs_mix__" ++ lenBytes buf.toList ++ buf.toList })

end Transcript

/-! ## 2. The two proofs -/

structure DdhEqualityProof (S P : Type) where
  tG : P
  tH : P
  z : S
  deriving DecidableEq

inductive DdhEqualityError where
  | verifyFailed
  | identityInput
  deriving DecidableEq

def DdhEqualityError.display : DdhEqualityError → String
  | .verifyFailed => "DDH equality proof failed"
  | .identityInput => "DDH equality input includes identity point"

/-- The challenge prover and verifier derive from the statement and the nonces. -/
def ddhChallenge (C : Suite S P) (g h a b : P) (sessionId : Bytes) (trusteeIndex : UInt32)
    (tG tH : P) : S :=
  let tr := Transcript.new (ascii "sbt-ddh-eq")
  let tr := tr.appendBytes (ascii "session") sessionId
  let tr := tr.appendBytes (ascii "trustee") (le32 trusteeIndex).reverse
  let tr := tr.appendPoint C (ascii "G") g
  let tr := tr.appendPoint C (ascii "H") h
  let tr := tr.appendPoint C (ascii "A") a
  let tr := tr.appendPoint C (ascii "B") b
  let tr := tr.appendPoint C (ascii "T_G") tG
  let tr := tr.appendPoint C (ascii "T_H") tH
  (tr.challengeScalar C (ascii "c")).1

namespace DdhEqualityProof

def prove (C : Suite S P) (w : Nonzero S) (x : S) (g h a b : P) (sessionId : Bytes)
    (trusteeIndex : UInt32) : DdhEqualityProof S P :=
  let tG := w.1 • g
  let tH := w.1 • h
  let c := ddhChallenge C g h a b sessionId trusteeIndex tG tH
  { tG := tG, tH := tH, z := w.1 + c * x }

def verify [DecidableEq P] (C : Suite S P) (proof : DdhEqualityProof S P) (g h a b : P)
    (sessionId : Bytes) (trusteeIndex : UInt32) : Except DdhEqualityError Unit :=
  if g = 0 ∨ h = 0 ∨ a = 0 ∨ b = 0 ∨ proof.tG = 0 ∨ proof.tH = 0 then .error .identityInput
  else
    let c := ddhChallenge C g h a b sessionId trusteeIndex proof.tG proof.tH
    let gOk := C.compress (proof.z • g) == C.compress (proof.tG + c • a)
    let hOk := C.compress (proof.z • h) == C.compress (proof.tH + c • b)
    if gOk && hOk then .ok () else .error .verifyFailed

variable [DecidableEq P] {C : Suite S P}

theorem verify_ok_iff {proof : DdhEqualityProof S P} {g h a b : P} {sid : Bytes}
    {i : UInt32} : proof.verify C g h a b sid i = .ok () ↔
      (g ≠ 0 ∧ h ≠ 0 ∧ a ≠ 0 ∧ b ≠ 0 ∧ proof.tG ≠ 0 ∧ proof.tH ≠ 0) ∧
      Sigma.Accepts g a proof.tG (ddhChallenge C g h a b sid i proof.tG proof.tH) proof.z ∧
      Sigma.Accepts h b proof.tH (ddhChallenge C g h a b sid i proof.tG proof.tH) proof.z := by
  unfold verify
  by_cases hid : g = 0 ∨ h = 0 ∨ a = 0 ∨ b = 0 ∨ proof.tG = 0 ∨ proof.tH = 0
  · rw [if_pos hid]
    refine ⟨fun h => (nomatch h), fun ⟨hne, _⟩ => ?_⟩
    tauto
  · rw [if_neg hid]
    simp only [not_or] at hid
    simp only [Bool.and_eq_true, beq_iff_eq, C.compress_inj]
    refine ⟨fun h => ⟨hid, ?_⟩, fun h => if_pos h.2⟩
    split at h
    · assumption
    · cases h

/-- The proof of an honest trustee is accepted. -/
theorem verify_prove {g h : P} {x : S} (w : Nonzero S) (sid : Bytes) (i : UInt32) (hg : g ≠ 0)
    (hh : h ≠ 0) (hx : x ≠ 0) :
    (prove C w x g h (x • g) (x • h) sid i).verify C g h (x • g) (x • h) sid i = .ok () := by
  refine verify_ok_iff.mpr ⟨⟨hg, hh, smul_ne_zero hx hg, smul_ne_zero hx hh,
    smul_ne_zero w.2 hg, smul_ne_zero w.2 hh⟩, ?_, ?_⟩
  · exact Sigma.Accepts.of_witness g x w.1 _
  · exact Sigma.Accepts.of_witness h x w.1 _

end DdhEqualityProof

structure TokenProof (S P : Type) where
  t : P
  zS : S
  zR : S
  deriving DecidableEq

inductive TokenProofError where
  | verifyFailed
  | identityInput
  deriving DecidableEq

def TokenProofError.display : TokenProofError → String
  | .verifyFailed => "token NIZK proof failed"
  | .identityInput => "token proof input includes identity point"

def tokenChallenge (C : Suite S P) (params : PedersenParams P) (commitment p tag : P)
    (context : Bytes) (y t : P) : S :=
  let tr := Transcript.new (ascii "sbt-token-pok-v2")
  let tr := tr.appendBytes (ascii "ctx") context
  let tr := tr.appendPoint C (ascii "gen_g") params.g
  let tr := tr.appendPoint C (ascii "gen_h") params.h
  let tr := tr.appendPoint C (ascii "Y") y
  let tr := tr.appendPoint C (ascii "C") commitment
  let tr := tr.appendPoint C (ascii "P") p
  let tr := tr.appendPoint C (ascii "T") tag
  let tr := tr.appendPoint C (ascii "t") t
  (tr.challengeScalar C (ascii "c")).1

namespace TokenProof

def prove (C : Suite S P) (wS wR : Nonzero S) (params : PedersenParams P) (commitment p tag : P)
    (s r : S) (context : Bytes) (y : P) : TokenProof S P :=
  let t := wS.1 • params.g + wR.1 • params.h
  let c := tokenChallenge C params commitment p tag context y t
  { t := t, zS := wS.1 + c * s, zR := wR.1 + c * r }

def verify [DecidableEq P] (C : Suite S P) (proof : TokenProof S P) (params : PedersenParams P)
    (commitment p tag : P) (context : Bytes) (y : P) : Except TokenProofError Unit :=
  if commitment = 0 ∨ p = 0 ∨ tag = 0 ∨ y = 0 ∨ proof.t = 0 then .error .identityInput
  else
    let c := tokenChallenge C params commitment p tag context y proof.t
    let lhs := proof.zS • params.g + proof.zR • params.h
    let rhs := proof.t + c • commitment
    if C.compress lhs = C.compress rhs then .ok () else .error .verifyFailed

variable [DecidableEq P] {C : Suite S P} {params : PedersenParams P}

theorem verify_ok_iff {proof : TokenProof S P} {commitment p tag y : P} {context : Bytes} :
    proof.verify C params commitment p tag context y = .ok () ↔
      (commitment ≠ 0 ∧ p ≠ 0 ∧ tag ≠ 0 ∧ y ≠ 0 ∧ proof.t ≠ 0) ∧
      proof.zS • params.g + proof.zR • params.h =
        proof.t + tokenChallenge C params commitment p tag context y proof.t • commitment := by
  unfold verify
  by_cases hid : commitment = 0 ∨ p = 0 ∨ tag = 0 ∨ y = 0 ∨ proof.t = 0
  · rw [if_pos hid]
    refine ⟨fun h => (nomatch h), fun ⟨hne, _⟩ => ?_⟩
    tauto
  · rw [if_neg hid]
    simp only [not_or] at hid
    simp only [C.compress_inj]
    refine ⟨fun h => ⟨hid, ?_⟩, fun h => if_pos h.2⟩
    split at h
    · assumption
    · cases h

/-- The proof of a client that knows the opening is accepted. -/
theorem verify_prove {s r : S} {p tag y : P} (wS wR : Nonzero S) (context : Bytes)
    (hcom : s • params.g + r • params.h ≠ 0) (hp : p ≠ 0) (htag : tag ≠ 0) (hy : y ≠ 0)
    (ht : wS.1 • params.g + wR.1 • params.h ≠ 0) :
    (prove C wS wR params (s • params.g + r • params.h) p tag s r context y).verify C params
      (s • params.g + r • params.h) p tag context y = .ok () := by
  refine verify_ok_iff.mpr ⟨⟨hcom, hp, htag, hy, ht⟩, ?_⟩
  unfold prove
  module

end TokenProof

/-! ## 3. The evaluation -/

structure OprfSecretShare (S : Type) where
  index : UInt32
  scalar : S

structure OprfServerCommit (P : Type) where
  index : UInt32
  commit : P
  deriving DecidableEq

structure OprfBlinding (S P : Type) where
  alpha : S
  alphaInv : S
  base : P

structure OprfEvaluation (S P : Type) where
  index : UInt32
  point : P
  proof : DdhEqualityProof S P

/-- `Scalar::from(i as u64)`. -/
def indexScalar (i : UInt32) : S := Suite.scalarFromU64 i.toUInt64

def OprfServerCommit.validate [DecidableEq P] (c : OprfServerCommit P) : Except SbtError Unit := do
  reject (c.index = 0) (.invalidIndex 0)
  reject (c.commit = 0) .identityPoint

def OprfEvaluation.validate [DecidableEq P] (e : OprfEvaluation S P) : Except SbtError Unit := do
  reject (e.index = 0) (.invalidIndex 0)
  reject (e.point = 0) .identityPoint

def OprfBlinding.blinded (state : OprfBlinding S P) : P := state.alpha • state.base

/-- `hash_to_curve`; the digest is hashed once more by `hash_from_bytes`. -/
def hashToCurve (C : Suite S P) (domain message : Bytes) : P :=
  let digest := C.sha512 (ascii "specter-sbt-h2c/" ++ lenBytes domain ++ domain ++
    lenBytes message ++ message)
  C.fromUniformBytes (C.sha512 digest.toList)

def blind [DecidableEq P] (C : Suite S P) (alpha : Nonzero S) (domain message : Bytes) :
    Except SbtError (OprfBlinding S P × P) := do
  let base := hashToCurve C domain message
  reject (base = 0) .identityPoint
  let state : OprfBlinding S P := { alpha := alpha.1, alphaInv := alpha.1⁻¹, base := base }
  return (state, state.blinded)

def evaluateServer [DecidableEq P] (C : Suite S P) (w : Nonzero S) (share : OprfSecretShare S)
    (commit : OprfServerCommit P) (blinded : P) (sessionId : Bytes) :
    Except SbtError (OprfEvaluation S P) := do
  reject (share.index ≠ commit.index) (.invalidIndex share.index)
  reject (share.index = 0) (.invalidIndex 0)
  reject (blinded = 0) .identityPoint
  reject (commit.commit = 0) .identityPoint
  let point := share.scalar • blinded
  let proof := DdhEqualityProof.prove C w share.scalar C.G blinded commit.commit point sessionId
    share.index
  return { index := share.index, point := point, proof := proof }

/-- The numerator and the denominator are multiplied up over the other indices. -/
def lagrangeCoefficient [DecidableEq S] (i : UInt32) (indices : List UInt32) :
    Except SbtError S := do
  reject (i = 0) (.invalidIndex 0)
  indices.forM fun j => reject (j = 0) (.invalidIndex 0)
  let xi : S := indexScalar i
  let others := indices.filter (· ≠ i)
  let num := (others.map fun j => -(indexScalar j : S)).prod
  let den := (others.map fun j => xi - indexScalar j).prod
  reject (den = 0) .zeroDenominator
  return num * den⁻¹

/-- The loop `acc += point * lambda` of `combine_evaluations` and `aggregate_over_quorum`. -/
def lagrangeCombine [DecidableEq S] (points : List (UInt32 × P)) : Except SbtError P :=
  let indices := points.map (·.1)
  points.foldlM (fun acc p => do
    let lambda : S ← lagrangeCoefficient p.1 indices
    return acc + lambda • p.2) 0

/-- One round of the loop over the trustees' proofs. -/
def checkEvaluation [DecidableEq P] (C : Suite S P) (commits : List (OprfServerCommit P))
    (blinded : P) (sessionId : Bytes) (eval : OprfEvaluation S P) : Except SbtError Unit := do
  reject (eval.point = 0) .identityPoint
  match commits.find? (·.index = eval.index) with
  | none => .error (.ddhEqualityFailed eval.index)
  | some commit =>
      reject (commit.commit = 0) .identityPoint
      (eval.proof.verify C C.G blinded commit.commit eval.point sessionId eval.index).mapError
        fun _ => .ddhEqualityFailed eval.index

def combineEvaluations [DecidableEq S] [DecidableEq P] (C : Suite S P) (threshold : Nat)
    (commits : List (OprfServerCommit P)) (evaluations : List (OprfEvaluation S P)) (blinded : P)
    (sessionId : Bytes) : Except SbtError P := do
  reject (evaluations.length ≠ threshold) (.insufficient evaluations.length threshold)
  reject (blinded = 0) .identityPoint
  distinctLoop (fun e => reject (e.index = 0) (.invalidIndex 0)) OprfEvaluation.index
    .duplicateIndex [] evaluations
  evaluations.forM (checkEvaluation C commits blinded sessionId)
  lagrangeCombine (S := S) (evaluations.map fun e => (e.index, e.point))

def unblind (state : OprfBlinding S P) (bk : P) : P := state.alphaInv • bk

/-! ## 4. The coefficients are the weights of interpolation -/

theorem indexScalar_inj (C : Suite S P) {i j : UInt32}
    (h : (indexScalar i : S) = indexScalar j) : i = j := by
  have h64 := C.u64_inj _ _ h
  have hnat := congrArg UInt64.toNat h64
  rw [UInt32.toNat_toUInt64, UInt32.toNat_toUInt64] at hnat
  exact UInt32.toNat_inj.mp hnat

theorem indexScalar_ne_zero (C : Suite S P) {i : UInt32} (h : i ≠ 0) :
    (indexScalar i : S) ≠ 0 := by
  intro h0
  have hzero : (indexScalar 0 : S) = 0 := by
    simp [indexScalar, Suite.scalarFromU64]
  exact h (indexScalar_inj C (h0.trans hzero.symm))

/-- The weight of a trustee among `indices`. -/
def weight (indices : List UInt32) (i : UInt32) : S :=
  weightAtZero (indexScalar : UInt32 → S) indices i

variable [DecidableEq S] {C : Suite S P}

theorem lagrangeCoefficient_eq (C : Suite S P) {i : UInt32} {indices : List UInt32} (hi : i ≠ 0)
    (hne : ∀ j ∈ indices, j ≠ 0) :
    lagrangeCoefficient i indices = .ok (weight indices i : S) := by
  have hden : ((indices.filter (· ≠ i)).map
      fun j => (indexScalar i : S) - indexScalar j).prod ≠ 0 := by
    refine List.prod_ne_zero fun h => ?_
    obtain ⟨j, hj, hzero⟩ := List.mem_map.mp h
    exact of_decide_eq_true (List.mem_filter.mp hj).2
      (indexScalar_inj C (sub_eq_zero.mp hzero)).symm
  have hinv : ((indices.filter (· ≠ i)).map
      fun j => ((indexScalar i : S) - indexScalar j)⁻¹).prod =
        (((indices.filter (· ≠ i)).map fun j => (indexScalar i : S) - indexScalar j).prod)⁻¹ := by
    have h := map_list_prod (invMonoidWithZeroHom : S →*₀ S)
      ((indices.filter (· ≠ i)).map fun j => (indexScalar i : S) - indexScalar j)
    rw [List.map_map] at h
    exact h.symm
  unfold lagrangeCoefficient
  simp only [bind_ok_iff, reject_ok_iff]
  refine ⟨(), hi, (), forM_ok_iff.mpr fun j hj => reject_ok_iff.mpr (hne j hj), (), hden, ?_⟩
  unfold weight weightAtZero
  rw [List.prod_map_mul, hinv]
  rfl

/-- **The sum of the code is the weighted sum**, for distinct indices none of which is 0. -/
theorem lagrangeCombine_eq (C : Suite S P) {points : List (UInt32 × P)}
    (hne : ∀ j ∈ points.map (·.1), j ≠ 0) : lagrangeCombine (S := S) points =
      .ok (points.map fun p => (weight (points.map (·.1)) p.1 : S) • p.2).sum := by
  have hfold : ∀ (l : List (UInt32 × P)), (∀ p ∈ l, p.1 ≠ 0) → ∀ acc : P,
      l.foldlM (fun acc p => do
        let lambda : S ← lagrangeCoefficient p.1 (points.map (·.1))
        return acc + lambda • p.2) acc =
      (.ok (acc + (l.map fun p => (weight (points.map (·.1)) p.1 : S) • p.2).sum) :
        Except SbtError P) := by
    intro l
    induction l with
    | nil =>
        intro _ acc
        simp [pure, Except.pure]
    | cons p l ih =>
        intro hl acc
        rw [List.foldlM_cons, lagrangeCoefficient_eq C (hl p List.mem_cons_self) hne]
        show l.foldlM _ (acc + (weight (points.map (·.1)) p.1 : S) • p.2) = _
        rw [ih (fun q hq => hl q (List.mem_cons_of_mem p hq)), List.map_cons, List.sum_cons,
          add_assoc]
  have h := hfold points (fun p hp => hne p.1 (List.mem_map_of_mem hp)) 0
  rwa [zero_add] at h

/-! ## 5. What the client has checked -/

section Client

variable [DecidableEq P] {commits : List (OprfServerCommit P)} {B : P} {sid : Bytes}
  {evals : List (OprfEvaluation S P)} {threshold : Nat}

omit [DecidableEq S] in
/-- What the client checks of one evaluation. -/
theorem checkEvaluation_ok_iff {e : OprfEvaluation S P} :
    checkEvaluation C commits B sid e = .ok () ↔ e.point ≠ 0 ∧
      ∃ commit, commits.find? (·.index = e.index) = some commit ∧ commit.commit ≠ 0 ∧
        e.proof.verify C C.G B commit.commit e.point sid e.index = .ok () := by
  unfold checkEvaluation
  rw [bind_ok_iff]
  simp only [reject_ok_iff]
  cases hfind : commits.find? (·.index = e.index) with
  | none =>
      constructor
      · rintro ⟨_, _, h⟩
        cases h
      · rintro ⟨_, commit, h, _⟩
        cases h
  | some commit =>
      simp only [bind_ok_iff, reject_ok_iff, mapError_ok_iff]
      constructor
      · rintro ⟨_, hpoint, _, hcommit, hproof⟩
        exact ⟨hpoint, commit, rfl, hcommit, hproof⟩
      · rintro ⟨hpoint, _, h, hcommit, hproof⟩
        cases h
        exact ⟨(), hpoint, (), hcommit, hproof⟩

/-- What the client has checked when it combines. -/
structure Combinable (C : Suite S P) (threshold : Nat) (commits : List (OprfServerCommit P))
    (evals : List (OprfEvaluation S P)) (B : P) (sid : Bytes) : Prop where
  length : evals.length = threshold
  blinded : B ≠ 0
  index : ∀ e ∈ evals, e.index ≠ 0
  distinct : (evals.map (·.index)).Nodup
  checked : ∀ e ∈ evals, checkEvaluation C commits B sid e = .ok ()

/-- **What `combine_evaluations` returns**: the weighted sum of the points, if its checks pass. -/
theorem combineEvaluations_ok_iff {p : P} :
    combineEvaluations C threshold commits evals B sid = .ok p ↔
      Combinable C threshold commits evals B sid ∧
        p = (evals.map fun e => (weight (evals.map (·.index)) e.index : S) • e.point).sum := by
  have hindices : (evals.map fun e => (e.index, e.point)).map (·.1) = evals.map (·.index) := by
    rw [List.map_map]
    rfl
  have hcombine : (∀ e ∈ evals, e.index ≠ 0) →
      lagrangeCombine (S := S) (evals.map fun e => (e.index, e.point)) =
        .ok (evals.map fun e => (weight (evals.map (·.index)) e.index : S) • e.point).sum := by
    intro hne
    have hall : ∀ j ∈ (evals.map fun e => (e.index, e.point)).map (·.1), j ≠ 0 := by
      rw [hindices]
      intro j hj
      obtain ⟨e, he, rfl⟩ := List.mem_map.mp hj
      exact hne e he
    rw [lagrangeCombine_eq C hall, hindices, List.map_map]
    rfl
  unfold combineEvaluations
  simp only [bind_ok_iff, reject_ok_iff]
  constructor
  · rintro ⟨_, hlen, _, hB, _, hloop, _, hforM, hsum⟩
    obtain ⟨hvalid, hnd⟩ := distinctLoop_ok_iff.mp hloop
    have hindex : ∀ e ∈ evals, e.index ≠ 0 := fun e he => reject_ok_iff.mp (hvalid e he)
    rw [hcombine hindex] at hsum
    exact ⟨⟨not_not.mp hlen, hB, hindex, hnd, forM_ok_iff.mp hforM⟩, (Except.ok.inj hsum).symm⟩
  · rintro ⟨h, rfl⟩
    exact ⟨(), not_not.mpr h.length, (), h.blinded, (),
      distinctLoop_ok_iff.mpr ⟨fun e he => reject_ok_iff.mpr (h.index e he), h.distinct⟩, (),
      forM_ok_iff.mpr h.checked, hcombine h.index⟩

end Client

/-! ## 6. A quorum of share holders -/

omit [DecidableEq S] in
theorem evaluateServer_ok_iff [DecidableEq P] {w : Nonzero S} {share : OprfSecretShare S}
    {commit : OprfServerCommit P} {B : P} {sid : Bytes} {e : OprfEvaluation S P} :
    evaluateServer C w share commit B sid = .ok e ↔
      (share.index = commit.index ∧ share.index ≠ 0 ∧ B ≠ 0 ∧ commit.commit ≠ 0) ∧
      e = { index := share.index, point := share.scalar • B,
            proof := DdhEqualityProof.prove C w share.scalar C.G B commit.commit
              (share.scalar • B) sid share.index } := by
  unfold evaluateServer
  simp only [bind_ok_iff, reject_ok_iff]
  constructor
  · rintro ⟨_, hindex, _, hne, _, hB, _, hcommit, h⟩
    cases h
    exact ⟨⟨not_not.mp hindex, hne, hB, hcommit⟩, rfl⟩
  · rintro ⟨⟨hindex, hne, hB, hcommit⟩, rfl⟩
    exact ⟨(), not_not.mpr hindex, (), hne, (), hB, (), hcommit, rfl⟩

/-- `threshold` evaluations of different trustees, each the answer of a trustee on the list, with
    its own nonce. -/
structure Quorum (commits : List (OprfServerCommit P)) (threshold : Nat)
    (evaluate : OprfServerCommit P → Nonzero S → Except SbtError (OprfEvaluation S P))
    (evals : List (OprfEvaluation S P)) : Prop where
  length : evals.length = threshold
  distinct : (evals.map (·.index)).Nodup
  honest : ∀ e ∈ evals, ∃ c ∈ commits, ∃ w, evaluate c w = .ok e

/-- Commitments to the keys `key`, under distinct indices other than 0. -/
structure CommitsTo (C : Suite S P) (key : UInt32 → S) (commits : List (OprfServerCommit P)) :
    Prop where
  distinct : (commits.map (·.index)).Nodup
  index : ∀ c ∈ commits, c.index ≠ 0
  commit : ∀ c ∈ commits, c.commit ≠ 0
  key : ∀ c ∈ commits, c.commit = key c.index • C.G

/-- The answer of a trustee that holds its key. -/
def honestEvaluate [DecidableEq P] (C : Suite S P) (key : UInt32 → S) (B : P) (sid : Bytes)
    (c : OprfServerCommit P) (w : Nonzero S) : Except SbtError (OprfEvaluation S P) :=
  evaluateServer C w { index := c.index, scalar := key c.index } c B sid

section Honest

variable [DecidableEq P] {key : UInt32 → S} {commits : List (OprfServerCommit P)} {B : P}
  {sid : Bytes} {evals : List (OprfEvaluation S P)} {threshold : Nat}

omit [DecidableEq S] [DecidableEq P] in
theorem CommitsTo.key_ne_zero (h : CommitsTo C key commits) {c : OprfServerCommit P}
    (hc : c ∈ commits) : key c.index ≠ 0 ∧ C.G ≠ 0 := by
  have hne := h.commit c hc
  rw [h.key c hc] at hne
  exact ⟨fun h0 => hne (by rw [h0, zero_smul]), fun h0 => hne (by rw [h0, smul_zero])⟩

omit [DecidableEq S] [DecidableEq P] [AddCommGroup P] in
/-- Under distinct indices an entry is found by its index. -/
theorem find?_index (hnd : (commits.map (·.index)).Nodup) {c : OprfServerCommit P}
    (hc : c ∈ commits) : commits.find? (·.index = c.index) = some c := by
  obtain ⟨c', hc'⟩ : ∃ c', commits.find? (·.index = c.index) = some c' :=
    Option.isSome_iff_exists.mp (List.find?_isSome.mpr ⟨c, hc, by simp⟩)
  have hindex : c'.index = c.index := by simpa using List.find?_some hc'
  rw [hc', List.inj_on_of_nodup_map hnd (List.mem_of_find?_eq_some hc') hc hindex]

omit [DecidableEq S] in
/-- Every trustee answers a point other than the identity. -/
theorem CommitsTo.evaluate (h : CommitsTo C key commits) (hB : B ≠ 0) (sid : Bytes)
    {c : OprfServerCommit P} (hc : c ∈ commits) (w : Nonzero S) :
    ∃ e, honestEvaluate C key B sid c w = .ok e :=
  ⟨_, evaluateServer_ok_iff.mpr ⟨⟨rfl, h.index c hc, hB, h.commit c hc⟩, rfl⟩⟩

omit [DecidableEq S] in
/-- Any trustees of the list make a quorum, with any nonces. -/
theorem CommitsTo.exists_quorum (h : CommitsTo C key commits) (hB : B ≠ 0) (sid : Bytes)
    (who : List (OprfServerCommit P)) (hsub : who ⊆ commits) (hnd : (who.map (·.index)).Nodup)
    (w : OprfServerCommit P → Nonzero S) :
    ∃ evals, Quorum commits who.length (honestEvaluate C key B sid) evals := by
  have hanswer : ∀ c : OprfServerCommit P, ∃ e : OprfEvaluation S P, e.index = c.index ∧
      (c ∈ commits → honestEvaluate C key B sid c (w c) = .ok e) := fun c =>
    ⟨_, rfl, fun hc => evaluateServer_ok_iff.mpr ⟨⟨rfl, h.index c hc, hB, h.commit c hc⟩, rfl⟩⟩
  choose answer hindex hok using hanswer
  refine ⟨who.map answer, by simp, ?_, fun e he => ?_⟩
  · rw [List.map_map]
    have hcomp : (fun e : OprfEvaluation S P => e.index) ∘ answer = fun c => c.index :=
      funext hindex
    rwa [hcomp]
  · obtain ⟨c, hc, rfl⟩ := List.mem_map.mp he
    exact ⟨c, hsub hc, w c, hok c (hsub hc)⟩

omit [DecidableEq S] in
/-- What the client reads off the answer of an honest trustee, and that it accepts it. -/
theorem CommitsTo.answer (h : CommitsTo C key commits) {c : OprfServerCommit P}
    (hc : c ∈ commits) {w : Nonzero S} {e : OprfEvaluation S P}
    (he : honestEvaluate C key B sid c w = .ok e) :
    e.index ≠ 0 ∧ e.point = key e.index • B ∧ e.point ≠ 0 ∧
      checkEvaluation C commits B sid e = .ok () := by
  obtain ⟨⟨_, hne, hB, hcommit⟩, rfl⟩ := evaluateServer_ok_iff.mp he
  obtain ⟨hkey, hG⟩ := h.key_ne_zero hc
  have hpoint : key c.index • B ≠ 0 := smul_ne_zero hkey hB
  refine ⟨hne, rfl, hpoint, ?_⟩
  refine checkEvaluation_ok_iff.mpr ⟨hpoint, c, find?_index h.distinct hc, hcommit, ?_⟩
  rw [h.key c hc]
  exact DdhEqualityProof.verify_prove w sid c.index hG hB hkey

omit [DecidableEq S] in
theorem CommitsTo.quorum_valid (h : CommitsTo C key commits)
    (hq : Quorum commits threshold (honestEvaluate C key B sid) evals) :
    ∀ e ∈ evals, e.index ≠ 0 ∧ e.point ≠ 0 := by
  intro e he
  obtain ⟨c, hc, w, hw⟩ := hq.honest e he
  obtain ⟨hindex, _, hpoint, _⟩ := h.answer hc hw
  exact ⟨hindex, hpoint⟩

/-- **What a quorum of honest trustees gives**: the blinded point times the weighted keys. -/
theorem combineEvaluations_honest (h : CommitsTo C key commits) (hB : B ≠ 0)
    (hq : Quorum commits threshold (honestEvaluate C key B sid) evals) :
    combineEvaluations C threshold commits evals B sid =
      .ok (((evals.map (·.index)).map fun i =>
        (weight (evals.map (·.index)) i : S) * key i).sum • B) := by
  have hall : ∀ e ∈ evals, e.index ≠ 0 ∧ e.point = key e.index • B ∧ e.point ≠ 0 ∧
      checkEvaluation C commits B sid e = .ok () := by
    intro e he
    obtain ⟨c, hc, w, hw⟩ := hq.honest e he
    exact h.answer hc hw
  refine combineEvaluations_ok_iff.mpr ⟨⟨hq.length, hB, fun e he => (hall e he).1, hq.distinct,
    fun e he => (hall e he).2.2.2⟩, ?_⟩
  rw [List.sum_smul, List.map_map, List.map_map]
  refine congrArg List.sum (List.map_congr_left fun e he => ?_)
  show _ = (weight (evals.map (·.index)) e.index : S) • e.point
  rw [(hall e he).2.1, smul_smul]
  rfl

/-- The keys are the values of a polynomial. -/
noncomputable def polyKey (f : Polynomial S) (i : UInt32) : S := f.eval (indexScalar i)

omit [DecidableEq S] [DecidableEq P] in
/-- The weighted values of a polynomial add up to its value at 0. -/
theorem sum_weight_polyKey (C : Suite S P) {f : Polynomial S} {indices : List UInt32}
    (hnd : indices.Nodup) (hdeg : f.degree < indices.length) :
    (indices.map fun i => (weight indices i : S) * polyKey f i).sum = f.eval 0 :=
  sum_weightAtZero hnd (fun _ _ _ _ h => indexScalar_inj C h) hdeg

/-- **A quorum evaluates the shared key**: with keys on a polynomial of degree below the
    threshold, the combined point is the blinded one times its value at 0. -/
theorem combineEvaluations_quorum {f : Polynomial S} (h : CommitsTo C (polyKey f) commits)
    (hB : B ≠ 0) (hdeg : f.degree < threshold)
    (hq : Quorum commits threshold (honestEvaluate C (polyKey f) B sid) evals) :
    combineEvaluations C threshold commits evals B sid = .ok (f.eval 0 • B) := by
  rw [combineEvaluations_honest h hB hq, sum_weight_polyKey C hq.distinct]
  rwa [List.length_map, hq.length]

end Honest

end Sbt

end Specter
