/-
  File:      Specter/Lib/Quorum.lean
  Subject:   QUORUMS WITH FAULTY MEMBERS, as finite sets. No program fact.

  * `card_inter_of_lt` -- two subsets of `U` that together exceed `U` by more than `k` share
    more than `k` members;
  * `exists_good_common` -- with at most `k` faulty members one of the shared ones is not
    faulty; `exists_good` -- a set larger than the faults has a member that is not faulty;
  * `exists_card_inter_le` -- where quorums do not exceed `U` by that much, two of them share no
    more than `k` members;
  * `card_map_of_nodup` -- the size of a quorum read off a list of ballots whose voters are
    pairwise distinct.
-/
import Mathlib.Data.Finset.Card

namespace Lib

namespace Quorum

variable {α : Type*} [DecidableEq α] {U A B F : Finset α} {k : ℕ}

theorem card_inter_of_lt (hA : A ⊆ U) (hB : B ⊆ U) (h : U.card + k < A.card + B.card) :
    k < (A ∩ B).card := by
  have hU : (A ∪ B).card ≤ U.card := Finset.card_le_card (Finset.union_subset hA hB)
  have hAB := Finset.card_union_add_card_inter A B
  omega

/-- **Two quorums that share few members**, where their sizes allow it. -/
theorem exists_card_inter_le {q : ℕ} (hq : q ≤ U.card) (h : q + q ≤ U.card + k) :
    ∃ A ⊆ U, ∃ B ⊆ U, A.card = q ∧ B.card = q ∧ (A ∩ B).card ≤ k := by
  obtain ⟨A, hA, hcardA⟩ := Finset.exists_subset_card_eq hq
  have hrest : (U \ A).card = U.card - q := by rw [Finset.card_sdiff_of_subset hA, hcardA]
  rcases Nat.le_total (U.card - q) q with hle | hle
  · -- the second one takes everything outside the first
    obtain ⟨B, hsub, hB, hcardB⟩ := Finset.exists_subsuperset_card_eq
      (Finset.sdiff_subset (s := U) (t := A)) (hrest.trans_le hle) hq
    have hunion : U ⊆ A ∪ B := by
      intro x hx
      by_cases hxA : x ∈ A
      · exact Finset.mem_union_left _ hxA
      · exact Finset.mem_union_right _ (hsub (Finset.mem_sdiff.mpr ⟨hx, hxA⟩))
    have hcard := Finset.card_le_card hunion
    have hsum := Finset.card_union_add_card_inter A B
    exact ⟨A, hA, B, hB, hcardA, hcardB, by omega⟩
  · -- the second one fits outside the first
    obtain ⟨B, hB, hcardB⟩ := Finset.exists_subset_card_eq (hle.trans_eq hrest.symm)
    have hdisj : A ∩ B = ∅ :=
      Finset.disjoint_iff_inter_eq_empty.mp
        (Finset.disjoint_of_subset_right hB Finset.disjoint_sdiff)
    refine ⟨A, hA, B, hB.trans Finset.sdiff_subset, hcardA, hcardB, ?_⟩
    rw [hdisj, Finset.card_empty]
    exact Nat.zero_le k

omit [DecidableEq α] in
theorem exists_good (hF : F.card ≤ k) (hA : k < A.card) : ∃ q ∈ A, q ∉ F := by
  refine Classical.byContradiction fun hno => ?_
  have hsub : A ⊆ F := fun q hq => Classical.byContradiction fun hqF => hno ⟨q, hq, hqF⟩
  have := Finset.card_le_card hsub
  omega

/-- **Two quorums share a member that is not faulty.** -/
theorem exists_good_common (hA : A ⊆ U) (hB : B ⊆ U) (hF : F.card ≤ k)
    (h : U.card + k < A.card + B.card) : ∃ q, q ∈ A ∧ q ∈ B ∧ q ∉ F := by
  obtain ⟨q, hq, hqF⟩ := exists_good hF (card_inter_of_lt hA hB h)
  obtain ⟨hqA, hqB⟩ := Finset.mem_inter.mp hq
  exact ⟨q, hqA, hqB, hqF⟩

theorem card_map_of_nodup {β : Type*} {l : List β} {f : β → α} (h : (l.map f).Nodup) :
    (l.map f).toFinset.card = l.length := by
  rw [List.toFinset_card_of_nodup h, List.length_map]

end Quorum

end Lib
