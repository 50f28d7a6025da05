/-
  File:      Specter/Lib/Sigma.lean
  Subject:   PROOFS OF KNOWLEDGE OF ONE SCALAR over a module: the equation a Schnorr signature
             and a Schnorr proof of knowledge are checked by. No program fact.

  A transcript `(t, c, z)` for the statement `X` over the base `B` is accepted when
  `z • B = t + c • X`.

  * `Accepts.of_witness` -- the response `k + c * x` to a nonce `k • B` is accepted for
    `x • B` (completeness);
  * `Accepts.extract` -- two accepted transcripts with one nonce and different challenges give
    the scalar (special soundness);
  * `blinding_iff` -- the one pair of scalars that turns an accepted transcript into a given
    signature, under any challenge hash.
-/
import Mathlib.Algebra.Module.Basic
import Mathlib.Algebra.Module.Prod
import Mathlib.Algebra.Field.Basic
import Mathlib.Tactic.Module
import Mathlib.Tactic.Abel
import Mathlib.Tactic.LinearCombination

namespace Lib

namespace Sigma

variable {S P : Type*} [Field S] [AddCommGroup P] [Module S P]

/-- The check of a transcript: nonce `t`, challenge `c`, response `z`. -/
def Accepts (B X t : P) (c z : S) : Prop := z • B = t + c • X

instance [DecidableEq P] (B X t : P) (c z : S) : Decidable (Accepts B X t c z) :=
  inferInstanceAs (Decidable (_ = _))

theorem Accepts.of_witness (B : P) (x k c : S) : Accepts B (x • B) (k • B) c (k + c * x) := by
  unfold Accepts
  rw [add_smul, mul_smul]

/-- **Special soundness**: two accepted transcripts with one nonce and different challenges
    determine the scalar behind the statement. -/
theorem Accepts.extract {B X t : P} {c c' z z' : S} (h : Accepts B X t c z)
    (h' : Accepts B X t c' z') (hc : c ≠ c') : X = ((c - c')⁻¹ * (z - z')) • B := by
  have hne : c - c' ≠ 0 := sub_ne_zero.mpr hc
  have hsub : (c - c') • X = (z - z') • B := by
    unfold Accepts at h h'
    rw [sub_smul, sub_smul, h, h']
    abel
  rw [mul_smul, ← hsub, smul_smul, inv_mul_cancel₀ hne, one_smul]

/-- The transcript of a simulated prover, which fixes challenge and response before the nonce. -/
theorem Accepts.of_simulation (B X : P) (c z : S) : Accepts B X (z • B - c • X) c z := by
  unfold Accepts
  rw [sub_add_cancel]

/-- Two statements answered together, with one challenge and one response at a time, have the same
    scalar behind them. -/
theorem Accepts.extract_both {B B' X X' t t' : P} {c c' z z' : S} (hc : c ≠ c')
    (h : Accepts B X t c z ∧ Accepts B' X' t' c z)
    (h' : Accepts B X t c' z' ∧ Accepts B' X' t' c' z') : ∃ x : S, X = x • B ∧ X' = x • B' :=
  ⟨(c - c')⁻¹ * (z - z'), h.1.extract h'.1 hc, h.2.extract h'.2 hc⟩

/-- **Special soundness of a disjunction**: two statements answered with challenges that add up to
    a joint one, however they are split; different joint challenges for the same nonces determine
    the scalar behind the first of them whose own challenges differ. -/
theorem Accepts.extract_or {B X₀ X₁ t₀ t₁ : P} {c₀ c₁ z₀ z₁ c₀' c₁' z₀' z₁' : S}
    (h : Accepts B X₀ t₀ c₀ z₀ ∧ Accepts B X₁ t₁ c₁ z₁)
    (h' : Accepts B X₀ t₀ c₀' z₀' ∧ Accepts B X₁ t₁ c₁' z₁') (hc : c₀ + c₁ ≠ c₀' + c₁') :
    (c₀ ≠ c₀' ∧ X₀ = ((c₀ - c₀')⁻¹ * (z₀ - z₀')) • B) ∨
      (c₀ = c₀' ∧ X₁ = ((c₁ - c₁')⁻¹ * (z₁ - z₁')) • B) := by
  by_cases h₀ : c₀ = c₀'
  · have h₁ : c₁ ≠ c₁' := fun h₁ => hc (by rw [h₀, h₁])
    exact .inr ⟨h₀, h.2.extract h'.2 h₁⟩
  · exact .inl ⟨h₀, h.1.extract h'.1 h₀⟩

/-- **Blinding**: for a signature `(s, e)` with the hash `H` of its nonce equal to `e`, and an
    accepted transcript `(t, c, z)`, the shifts by `α` and `β` that lead from the one to the
    other are the differences. -/
theorem Accepts.blinding_iff {B X t : P} {c z s e : S} {H : P → S} (h : Accepts B X t c z)
    (hH : H (s • B - e • X) = e) (α β : S) :
    (H (t + α • B + β • X) + β = c ∧ z + α = s ∧ H (t + α • B + β • X) = e) ↔
      α = s - z ∧ β = c - e := by
  constructor
  · rintro ⟨hc, rfl, he⟩
    rw [he] at hc
    exact ⟨by ring, eq_sub_of_add_eq' hc⟩
  · rintro ⟨rfl, rfl⟩
    have hnonce : t + (s - z) • B + (c - e) • X = s • B - e • X := by
      have ht : t = z • B - c • X := eq_sub_of_add_eq h.symm
      rw [ht, sub_smul, sub_smul]
      abel
    rw [hnonce, hH]
    exact ⟨by ring, by ring, rfl⟩

end Sigma

end Lib
