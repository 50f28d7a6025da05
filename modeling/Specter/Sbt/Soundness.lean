/-
  File:      Specter/Sbt/Soundness.lean
  Subject:   WHAT THE TRUSTEES' EVALUATIONS ARE WORTH (`DdhEqualityProof::verify` of
             specter-sbt/src/proof.rs, `combine_evaluations` of oprf.rs), whoever sent them.

  * `Answers` -- the two equations `verify` checks, for any challenge; two answers with the same
    nonces show the scalar behind both points;
  * `HasWitness` -- the statement of an evaluation: its point is the blinded one times the discrete
    log of the commitment the client finds for it;
  * `evaluations_sound` -- so evaluations whose statements hold, for commitments along a polynomial
    of degree below the threshold, combine to the blinded point times its value at 0.
-/
import Specter.Sbt.Scheme

namespace Specter

open Lib Lib.Sharing Lib.Checks

variable {S P : Type} [Field S] [AddCommGroup P] [Module S P]

namespace Sbt

/-! ## 1. The proof -/

/-- The response `z` to the challenge `c` for the nonces `tG` and `tH`. -/
def Answers (g h a b tG tH : P) (c z : S) : Prop :=
  Sigma.Accepts g a tG c z ∧ Sigma.Accepts h b tH c z

variable [DecidableEq P] {C : Suite S P}

theorem answers_of_verify {proof : DdhEqualityProof S P} {g h a b : P} {sid : Bytes} {i : UInt32}
    (hok : proof.verify C g h a b sid i = .ok ()) :
    Answers g h a b proof.tG proof.tH (ddhChallenge C g h a b sid i proof.tG proof.tH) proof.z :=
  (DdhEqualityProof.verify_ok_iff.mp hok).2

/-! ## 2. The combination -/

variable {commits : List (OprfServerCommit P)} {B : P} {sid : Bytes}

/-- The statement of an evaluation. -/
def HasWitness (C : Suite S P) (commits : List (OprfServerCommit P)) (B : P)
    (e : OprfEvaluation S P) : Prop :=
  ∀ commit, commits.find? (·.index = e.index) = some commit →
    ∃ x : S, commit.commit = x • C.G ∧ e.point = x • B

/-- Where the commitments are those of a polynomial, the point is the blinded one times its
    value. -/
theorem point_eq {f : Polynomial S} {e : OprfEvaluation S P}
    (hcheck : checkEvaluation C commits B sid e = .ok ()) (hwit : HasWitness C commits B e)
    (hf : ∀ commit ∈ commits, commit.commit = polyKey f commit.index • C.G) :
    e.point = polyKey f e.index • B := by
  obtain ⟨_, commit, hfind, hne, _⟩ := checkEvaluation_ok_iff.mp hcheck
  obtain ⟨x, hx, hpoint⟩ := hwit commit hfind
  have hindex : commit.index = e.index := by simpa using List.find?_some hfind
  have hG : C.G ≠ 0 := fun h0 => hne (by rw [hx, h0, smul_zero])
  have hkey := hf commit (List.mem_of_find?_eq_some hfind)
  rw [hindex, hx] at hkey
  rw [hpoint, smul_left_injective S hG hkey]

/-- **Evaluations are sound.** Two answers with the same nonces to different challenges show one
    scalar behind both points of a statement, and an accepted proof is an answer. Whatever
    evaluations are combined, in whatever order: if their statements hold and the commitments are
    those of a polynomial of degree below the threshold, the combined point is the blinded one
    times the value of the polynomial at 0. -/
theorem evaluations_sound [DecidableEq S] (C : Suite S P) :
    (∀ (g h a b tG tH : P) (c c' z z' : S), c ≠ c' → Answers g h a b tG tH c z →
      Answers g h a b tG tH c' z' → ∃ x : S, a = x • g ∧ b = x • h) ∧
    (∀ (proof : DdhEqualityProof S P) (g h a b : P) (sid : Bytes) (i : UInt32),
      proof.verify C g h a b sid i = .ok () → Answers g h a b proof.tG proof.tH
        (ddhChallenge C g h a b sid i proof.tG proof.tH) proof.z) ∧
    ∀ (threshold : Nat) (commits : List (OprfServerCommit P)) (evals : List (OprfEvaluation S P))
      (B p : P) (sid : Bytes) (f : Polynomial S),
      combineEvaluations C threshold commits evals B sid = .ok p →
      (∀ e ∈ evals, HasWitness C commits B e) →
      (∀ commit ∈ commits, commit.commit = polyKey f commit.index • C.G) →
      f.degree < threshold → p = f.eval 0 • B := by
  refine ⟨fun g h a b tG tH c c' z z' hc => Sigma.Accepts.extract_both hc,
    fun proof g h a b sid i => answers_of_verify, ?_⟩
  intro threshold commits evals B p sid f hok hwit hf hdeg
  obtain ⟨hcomb, rfl⟩ := combineEvaluations_ok_iff.mp hok
  have hdeg' : f.degree < (evals.map (·.index)).length := by
    rwa [List.length_map, hcomb.length]
  rw [← sum_weight_polyKey C hcomb.distinct hdeg', List.sum_smul, List.map_map, List.map_map]
  refine congrArg List.sum (List.map_congr_left fun e he => ?_)
  rw [point_eq (hcomb.checked e he) (hwit e he) hf, smul_smul]
  rfl

/-- Trustees 4 and 2 of four, with the keys `7 + 5 i`; and the statement `7` answered twice. -/
theorem evaluations_sound_two_of_four :
    (∃ x : SampleScalar, ((7, 0) : SamplePoint) = x • ((1, 0) : SamplePoint) ∧
      ((0, 7) : SamplePoint) = x • ((0, 1) : SamplePoint)) ∧
    ∃ evals, combineEvaluations sampleSuite 2 sampleConfig.commits evals (3, 1) [] =
        .ok ((polyOf [7, 5] : Polynomial SampleScalar).eval 0 • (3, 1)) ∧
      ∀ p, combineEvaluations sampleSuite 2 sampleConfig.commits evals (3, 1) [] = .ok p →
        p = (polyOf [7, 5] : Polynomial SampleScalar).eval 0 • (3, 1) := by
  constructor
  · exact (evaluations_sound sampleSuite).1 (1, 0) (0, 1) (7, 0) (0, 7) (5, 0) (0, 5) 1 2 12 19
      (by decide) (by unfold Answers; decide +kernel) (by unfold Answers; decide +kernel)
  · obtain ⟨evals, hq⟩ := sampleConfig_commitsTo.exists_quorum (B := (3, 1)) (by decide) []
      [⟨4, (27, 0)⟩, ⟨2, (17, 0)⟩] (by decide) (by decide) fun _ => ⟨1, one_ne_zero⟩
    have hcomb := combineEvaluations_quorum sampleConfig_commitsTo (by decide)
      (degree_polyOf_lt _) hq
    refine ⟨evals, hcomb, fun p hp => (evaluations_sound sampleSuite).2.2 2 sampleConfig.commits
      evals (3, 1) p [] (polyOf [7, 5]) hp (fun e he commit hfind => ?_)
      sampleConfig_commitsTo.key (degree_polyOf_lt _)⟩
    obtain ⟨c, hc, w, hw⟩ := hq.honest e he
    have hindex : commit.index = e.index := by simpa using List.find?_some hfind
    refine ⟨polyKey (polyOf [7, 5]) e.index, ?_, (sampleConfig_commitsTo.answer hc hw).2.1⟩
    rw [← hindex]
    exact sampleConfig_commitsTo.key commit (List.mem_of_find?_eq_some hfind)

end Sbt

end Specter
