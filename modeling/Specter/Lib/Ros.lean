/-
  File:      Specter/Lib/Ros.lean
  Subject:   ONE TRANSCRIPT MORE THAN WERE ANSWERED: when all nonces are known before the first
             challenge has to be sent, and each session can be sent one of two challenges, the
             answered transcripts combine to one for a nonce and a challenge of another choice.
             No program fact.

  The weights make the combined challenge read the choices as binary digits: the choices for a
  wanted challenge are the digits of a number.

  * `accepts_sum` -- accepted transcripts combine linearly;
  * `weighted_choices` -- the combined challenge is an offset and the number the choices spell;
  * `digitsOf`, `spelt_digitsOf` -- the choices for a number;
  * `forged` -- the transcript nobody answered.
-/
import Mathlib.Algebra.BigOperators.Fin
import Mathlib.Algebra.Module.BigOperators
import Mathlib.Data.Nat.Bitwise
import Mathlib.Tactic.Ring
import Specter.Lib.Sigma

namespace Lib

namespace Ros

variable {S P : Type*} [Field S] [AddCommGroup P] [Module S P] {n : ℕ}

/-- Accepted transcripts under one statement, weighted and added up, are an accepted one. -/
theorem accepts_sum {B X : P} {t : Fin n → P} {c z : Fin n → S} (w : Fin n → S)
    (h : ∀ i, Sigma.Accepts B X (t i) (c i) (z i)) :
    Sigma.Accepts B X (∑ i, w i • t i) (∑ i, w i * c i) (∑ i, w i * z i) := by
  unfold Sigma.Accepts
  rw [Finset.sum_smul, Finset.sum_smul, ← Finset.sum_add_distrib]
  refine Finset.sum_congr rfl fun i _ => ?_
  have hi : z i • B = t i + c i • X := h i
  rw [mul_smul, hi, smul_add, mul_smul]

/-! ## 1. Choices as digits -/

/-- The number with these binary digits, the lowest first. -/
def spelt (digits : Fin n → Bool) : S := ∑ i, if digits i then 2 ^ (i : ℕ) else 0

/-- The weight of a session that can be sent either of two challenges. -/
def weight (c : Fin n → Bool → S) (i : Fin n) : S := 2 ^ (i : ℕ) * (c i true - c i false)⁻¹

/-- The combined challenge when every choice is `false`. -/
def offset (c : Fin n → Bool → S) : S := ∑ i, weight c i * c i false

/-- **The combined challenge reads the choices as digits.** -/
theorem weighted_choices {c : Fin n → Bool → S} (hc : ∀ i, c i false ≠ c i true)
    (digits : Fin n → Bool) :
    ∑ i, weight c i * c i (digits i) = offset c + spelt digits := by
  unfold offset spelt
  rw [← Finset.sum_add_distrib]
  refine Finset.sum_congr rfl fun i _ => ?_
  have hne : c i true - c i false ≠ 0 := sub_ne_zero.mpr (hc i).symm
  cases digits i with
  | false => simp
  | true =>
      have hstep : weight c i * (c i true - c i false) = 2 ^ (i : ℕ) := by
        unfold weight
        rw [mul_assoc, inv_mul_cancel₀ hne, mul_one]
      rw [if_pos rfl, ← hstep]
      ring

def digitsOf (m : ℕ) : Fin n → Bool := fun i => m.testBit i

/-- A number below `2 ^ n` is spelt by its `n` lowest digits. -/
theorem spelt_digitsOf {m : ℕ} (hm : m < 2 ^ n) : (spelt (digitsOf m : Fin n → Bool) : S) = m := by
  induction n generalizing m with
  | zero =>
      have h0 : m = 0 := by
        rw [pow_zero] at hm
        omega
      rw [h0]
      simp [spelt]
  | succ n ih =>
      have hhalf : m / 2 < 2 ^ n := by
        rw [pow_succ] at hm
        omega
      have hrest : (∑ i : Fin n, if m.testBit (i.succ : ℕ) then (2 : S) ^ (i.succ : ℕ) else 0) =
          2 * spelt (digitsOf (m / 2) : Fin n → Bool) := by
        unfold spelt digitsOf
        rw [Finset.mul_sum]
        refine Finset.sum_congr rfl fun i _ => ?_
        rw [Fin.val_succ, Nat.testBit_succ, pow_succ', mul_ite, mul_zero]
      have hfirst : (if m.testBit 0 then (1 : S) else 0) = ((m % 2 : ℕ) : S) := by
        rw [Nat.testBit_zero]
        rcases Nat.mod_two_eq_zero_or_one m with h | h <;> simp [h]
      have hm' : (m : S) = ((m % 2 : ℕ) : S) + 2 * ((m / 2 : ℕ) : S) := by
        exact_mod_cast congrArg (Nat.cast : ℕ → S) (Nat.mod_add_div m 2).symm
      have hsum : (spelt (digitsOf m : Fin (n + 1) → Bool) : S) =
          (if m.testBit 0 then (1 : S) else 0) +
            ∑ i : Fin n, if m.testBit (i.succ : ℕ) then (2 : S) ^ (i.succ : ℕ) else 0 := by
        unfold spelt digitsOf
        rw [Fin.sum_univ_succ]
        simp
      rw [hsum, hfirst, hrest, ih hhalf, hm']

/-! ## 2. The transcript nobody answered -/

/-- **Answers to the chosen challenges combine to an answer to the wanted one**, for the combined
    nonce. -/
theorem forged {B X : P} {t : Fin n → P} {c : Fin n → Bool → S} {z : Fin n → S} {wanted : S}
    {digits : Fin n → Bool} (hc : ∀ i, c i false ≠ c i true)
    (hspelt : spelt digits = wanted - offset c)
    (h : ∀ i, Sigma.Accepts B X (t i) (c i (digits i)) (z i)) :
    Sigma.Accepts B X (∑ i, weight c i • t i) wanted (∑ i, weight c i * z i) := by
  have hsum := accepts_sum (weight c) h
  rwa [weighted_choices hc, hspelt, add_sub_cancel] at hsum

end Ros

end Lib
