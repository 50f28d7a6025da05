/-
  File:      Specter/Lib/Representation.lean
  Subject:   REPRESENTATIONS OF A POINT over a family of bases, given as lists of pairs
             (position, coefficient), and the proof of knowledge of one. No program fact.

  A list may name a position several times; what it says about a position is the sum of its
  entries there.

  * `combo G l` -- the point a list stands for; `coeff l i` -- what it says about position `i`;
  * `combo_eq_sum` -- the point depends on the coefficients only;
  * `all_eq_coeff_iff` -- when every single entry is the whole coefficient: repeated positions
    carry zeros;
  * `blend`, `blend_extract` -- the proof of knowledge: two accepted transcripts with one nonce
    and different challenges give a representation.
-/
import Mathlib.Algebra.BigOperators.Group.Finset.Basic
import Mathlib.Algebra.BigOperators.Group.Finset.Piecewise
import Mathlib.Algebra.Module.BigOperators
import Mathlib.Algebra.Field.Basic
import Mathlib.Data.List.Perm.Basic
import Mathlib.Tactic.Abel

namespace Lib

namespace Representation

variable {S P : Type*} [Field S] [AddCommGroup P] [Module S P]

/-- The point a list of positions with coefficients stands for. -/
def combo (G : Nat → P) (l : List (Nat × S)) : P := (l.map fun d => d.2 • G d.1).sum

/-- The sum of the entries at one position. -/
def coeff (l : List (Nat × S)) (i : Nat) : S := ((l.filter (·.1 = i)).map (·.2)).sum

@[simp] theorem combo_append (G : Nat → P) (l m : List (Nat × S)) :
    combo G (l ++ m) = combo G l + combo G m := by
  unfold combo
  rw [List.map_append, List.sum_append]

@[simp] theorem coeff_append (l m : List (Nat × S)) (i : Nat) :
    coeff (l ++ m) i = coeff l i + coeff m i := by
  unfold coeff
  rw [List.filter_append, List.map_append, List.sum_append]

theorem coeff_cons (d : Nat × S) (l : List (Nat × S)) (i : Nat) :
    coeff (d :: l) i = (if d.1 = i then d.2 else 0) + coeff l i := by
  unfold coeff
  by_cases h : d.1 = i
  · simp [h]
  · simp [h]

theorem coeff_eq_zero {l : List (Nat × S)} {i : Nat} (h : ∀ d ∈ l, d.1 ≠ i) : coeff l i = 0 := by
  unfold coeff
  rw [List.filter_eq_nil_iff.mpr fun d hd => by simpa using h d hd]
  rfl

/-- **A point depends on the coefficients only.** -/
theorem combo_eq_sum (G : Nat → P) {n : Nat} : ∀ {l : List (Nat × S)}, (∀ d ∈ l, d.1 < n) →
    combo G l = ∑ i ∈ Finset.range n, coeff l i • G i
  | [], _ => by simp [combo, coeff]
  | d :: l, h => by
      have ih := combo_eq_sum G (n := n) fun e he => h e (List.mem_cons_of_mem d he)
      have hd : d.1 ∈ Finset.range n := Finset.mem_range.mpr (h d List.mem_cons_self)
      have hhead : ∑ i ∈ Finset.range n, (if d.1 = i then d.2 else 0) • G i = d.2 • G d.1 := by
        simp only [ite_smul, zero_smul]
        rw [Finset.sum_ite_eq, if_pos hd]
      simp only [coeff_cons, add_smul, Finset.sum_add_distrib]
      rw [hhead, ← ih]
      rfl

/-- Lists with the same coefficients stand for the same point. -/
theorem combo_ext (G : Nat → P) {n : Nat} {l m : List (Nat × S)} (hl : ∀ d ∈ l, d.1 < n)
    (hm : ∀ d ∈ m, d.1 < n) (h : ∀ i < n, coeff l i = coeff m i) : combo G l = combo G m := by
  rw [combo_eq_sum G hl, combo_eq_sum G hm]
  refine Finset.sum_congr rfl fun i hi => ?_
  rw [h i (Finset.mem_range.mp hi)]

/-- Where every position occurs once, its coefficient is its entry. -/
theorem coeff_of_nodup {l : List (Nat × S)} (hn : (l.map (·.1)).Nodup) {d : Nat × S}
    (hd : d ∈ l) : coeff l d.1 = d.2 := by
  induction l with
  | nil => cases hd
  | cons e l ih =>
      rw [List.map_cons, List.nodup_cons] at hn
      rw [coeff_cons]
      rcases List.mem_cons.mp hd with rfl | hmem
      · rw [if_pos rfl, coeff_eq_zero, add_zero]
        intro f hf heq
        exact hn.1 (heq ▸ List.mem_map_of_mem hf)
      · have hne : e.1 ≠ d.1 := fun heq => hn.1 (heq ▸ List.mem_map_of_mem hmem)
        rw [if_neg hne, zero_add]
        exact ih hn.2 hmem

/-! ## 1. Repeated positions -/

/-- How often a position occurs. -/
def occurrences (l : List (Nat × S)) (i : Nat) : Nat := (l.map (·.1)).count i

omit [Field S] in
theorem occurrences_eq (l : List (Nat × S)) (i : Nat) :
    occurrences l i = (l.filter (·.1 = i)).length := by
  unfold occurrences
  rw [List.count, List.countP_map, List.countP_eq_length_filter]
  congr 1

/-- Equal entries at a position add up to a multiple. -/
theorem coeff_of_all_eq {l : List (Nat × S)} {i : Nat} {a : S}
    (h : ∀ d ∈ l, d.1 = i → d.2 = a) : coeff l i = (occurrences l i : S) * a := by
  rw [occurrences_eq]
  unfold coeff
  have hall : (l.filter (·.1 = i)).map (·.2) = List.replicate (l.filter (·.1 = i)).length a := by
    rw [List.eq_replicate_iff, List.length_map]
    refine ⟨rfl, fun x hx => ?_⟩
    obtain ⟨d, hd, rfl⟩ := List.mem_map.mp hx
    rw [List.mem_filter] at hd
    exact h d hd.1 (by simpa using hd.2)
  rw [hall, List.sum_replicate, nsmul_eq_mul]

omit [Field S] in
theorem occurrences_pos {l : List (Nat × S)} {d : Nat × S} (hd : d ∈ l) :
    0 < occurrences l d.1 :=
  List.count_pos_iff.mpr (List.mem_map_of_mem hd)

/-- A position that occurs once has its entry for a coefficient. -/
theorem coeff_of_once {l : List (Nat × S)} {d : Nat × S} (hd : d ∈ l)
    (hone : occurrences l d.1 = 1) : coeff l d.1 = d.2 := by
  rw [occurrences_eq] at hone
  obtain ⟨e, he⟩ := List.length_eq_one_iff.mp hone
  have hmem : d ∈ l.filter (·.1 = d.1) := List.mem_filter.mpr ⟨hd, by simp⟩
  rw [he, List.mem_singleton] at hmem
  unfold coeff
  rw [he, hmem]
  simp

/-- **When every entry is the whole coefficient**: exactly where the positions that occur more
    than once carry only zeros, as long as the field tells the list's length from zero. -/
theorem all_eq_coeff_iff {l : List (Nat × S)}
    (hchar : ∀ k : Nat, k < l.length → (k : S) = 0 → k = 0) :
    (∀ d ∈ l, d.2 = coeff l d.1) ↔ ∀ d ∈ l, 1 < occurrences l d.1 → d.2 = 0 := by
  constructor
  · intro h d hd hmany
    have hsum : coeff l d.1 = (occurrences l d.1 : S) * coeff l d.1 :=
      coeff_of_all_eq fun e he heq => heq ▸ h e he
    -- `a = k a` with `k - 1` invertible leaves `a = 0`
    have hlt : occurrences l d.1 - 1 < l.length := by
      have hle : occurrences l d.1 ≤ (l.map (·.1)).length := List.count_le_length
      rw [List.length_map] at hle
      omega
    have hne : ((occurrences l d.1 - 1 : Nat) : S) ≠ 0 := by
      intro h0
      have := hchar _ hlt h0
      omega
    have hmul : ((occurrences l d.1 - 1 : Nat) : S) * coeff l d.1 = 0 := by
      rw [Nat.cast_sub (by omega), Nat.cast_one, sub_mul, one_mul, ← hsum, sub_self]
    rw [h d hd]
    exact (mul_eq_zero.mp hmul).resolve_left hne
  · intro h d hd
    rcases Nat.lt_or_ge 1 (occurrences l d.1) with hmany | hone
    · have hzero : ∀ e ∈ l, e.1 = d.1 → e.2 = 0 := fun e he heq => h e he (heq ▸ hmany)
      rw [coeff_of_all_eq hzero, mul_zero, h d hd hmany]
    · have hpos := occurrences_pos hd
      exact (coeff_of_once hd (by omega)).symm

/-! ## 2. Knowledge of a representation -/

/-- The positions `idx` with the scalars of `z`, in order. -/
def attach (idx : List Nat) (z : Nat → S) : List (Nat × S) :=
  idx.zipIdx.map fun p => (p.1, z p.2)

/-- The point `z` stands for over the bases `idx` and, behind them, `h`. -/
def blend (G : Nat → P) (h : P) (idx : List Nat) (z : Nat → S) : P :=
  combo G (attach idx z) + z idx.length • h

omit [Field S] in
theorem mem_attach {idx : List Nat} {z : Nat → S} {d : Nat × S} (hd : d ∈ attach idx z) :
    d.1 ∈ idx := by
  obtain ⟨p, hp, rfl⟩ := List.mem_map.mp hd
  exact (List.mem_zipIdx' hp).2 ▸ List.getElem_mem _

theorem combo_attach (G : Nat → P) (idx : List Nat) (z : Nat → S) :
    combo G (attach idx z) = (idx.zipIdx.map fun p => z p.2 • G p.1).sum := by
  unfold combo attach
  rw [List.map_map]
  rfl

theorem blend_add (G : Nat → P) (h : P) (idx : List Nat) (z w : Nat → S) :
    blend G h idx (fun j => z j + w j) = blend G h idx z + blend G h idx w := by
  unfold blend
  simp only [combo_attach, add_smul]
  rw [List.sum_map_add]
  abel

theorem blend_smul (G : Nat → P) (h : P) (idx : List Nat) (a : S) (z : Nat → S) :
    blend G h idx (fun j => a * z j) = a • blend G h idx z := by
  unfold blend
  simp only [combo_attach, mul_smul, smul_add]
  rw [List.smul_sum, List.map_map]
  rfl

theorem blend_sub (G : Nat → P) (h : P) (idx : List Nat) (z w : Nat → S) :
    blend G h idx (fun j => z j - w j) = blend G h idx z - blend G h idx w := by
  have hzw : (fun j => z j - w j) = fun j => z j + (-1) * w j := by
    funext j
    rw [neg_one_mul, sub_eq_add_neg]
  rw [hzw, blend_add, blend_smul, neg_one_smul, sub_eq_add_neg]

theorem blend_congr (G : Nat → P) (h : P) {idx : List Nat} {z w : Nat → S}
    (hzw : ∀ j ≤ idx.length, z j = w j) : blend G h idx z = blend G h idx w := by
  have hattach : attach idx z = attach idx w := by
    refine List.map_congr_left fun p hp => ?_
    rw [hzw p.2 (Nat.le_of_lt (List.mem_zipIdx' hp).1)]
  unfold blend
  rw [hattach, hzw idx.length (Nat.le_refl _)]

/-- **Completeness**: the response `r j + c * x j` to the nonce of `r` checks for the point
    of `x`. -/
theorem blend_response (G : Nat → P) (h : P) (idx : List Nat) (r x : Nat → S) (c : S) :
    blend G h idx (fun j => r j + c * x j) - c • blend G h idx x = blend G h idx r := by
  rw [blend_add, blend_smul]
  abel

/-- **Special soundness**: two responses to one nonce under different challenges open the
    statement. -/
theorem blend_extract {G : Nat → P} {h X : P} {idx : List Nat} {c c' : S} {z z' : Nat → S}
    (heq : blend G h idx z - c • X = blend G h idx z' - c' • X) (hc : c ≠ c') :
    X = blend G h idx fun j => (c - c')⁻¹ * (z j - z' j) := by
  have hne : c - c' ≠ 0 := sub_ne_zero.mpr hc
  have hdiff : blend G h idx (fun j => z j - z' j) = (c - c') • X := by
    rw [blend_sub, sub_smul, sub_eq_sub_iff_sub_eq_sub]
    exact heq
  rw [blend_smul, hdiff, smul_smul, inv_mul_cancel₀ hne, one_smul]

end Representation

end Lib
