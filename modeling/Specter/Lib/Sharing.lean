/-
  File:      Specter/Lib/Sharing.lean
  Subject:   A VALUE SHARED ALONG A POLYNOMIAL over a field: the shares are its values, and its
             value at 0 comes back from enough of them. No program fact.

  * `polyOf` -- the polynomial of a list of coefficients; `powerSum` -- the loop that evaluates
    it with a running power, over any module, and `powerSum_eq`, `powerSum_smul`;
  * `weightAtZero` -- the Lagrange weight of a node at 0;
  * `sum_weightAtZero` -- the weighted values of a polynomial at more nodes than its degree add
    up to its value at 0; `sum_weightAtZero_powerSum` -- so do the points of a curve;
  * `exists_powerSum` -- a curve through given points; `exists_powerSum_iff` -- every choice of `t`
    of them gives one point at 0 exactly when all of them lie on one curve;
  * `exists_mask` -- a curve that changes the point at 0 as wanted and no other of fewer than `t`.
-/
import Mathlib.Data.List.GetD
import Mathlib.LinearAlgebra.Lagrange

namespace Lib

namespace Sharing

open Polynomial

variable {S : Type*} [Field S]

/-! ## 1. Polynomials from their coefficients -/

/-- The polynomial with the coefficients `cs`, the constant term first. -/
noncomputable def polyOf : List S → S[X]
  | [] => 0
  | c :: cs => C c + X * polyOf cs

@[simp] theorem eval_polyOf_nil (x : S) : (polyOf []).eval x = 0 := by
  simp [polyOf]

@[simp] theorem eval_polyOf_cons (c x : S) (cs : List S) :
    (polyOf (c :: cs)).eval x = c + x * (polyOf cs).eval x := by
  simp [polyOf]

theorem degree_polyOf_lt (cs : List S) : (polyOf cs).degree < cs.length := by
  induction cs with
  | nil => simp [polyOf]
  | cons c cs ih =>
      refine lt_of_le_of_lt (degree_add_le _ _) (max_lt ?_ ?_)
      · refine lt_of_le_of_lt degree_C_le ?_
        exact_mod_cast Nat.succ_pos cs.length
      · rw [degree_mul, degree_X, List.length_cons, Nat.cast_add, Nat.cast_one, add_comm]
        exact WithBot.add_lt_add_right (by simp) ih

variable {M : Type*} [AddCommGroup M] [Module S M]

/-- The loop `result += x_power * m; x_power *= x` over a list. -/
def powerLoop (x : S) : M → S → List M → M
  | result, _, [] => result
  | result, power, m :: ms => powerLoop x (result + power • m) (power * x) ms

/-- The loop from 0 and the power 1. -/
def powerSum (x : S) (ms : List M) : M := powerLoop x 0 1 ms

theorem powerLoop_eq (x : S) (cs : List S) :
    ∀ result power : S, powerLoop x result power cs = result + power * (polyOf cs).eval x := by
  induction cs with
  | nil =>
      intro result power
      simp [powerLoop]
  | cons c cs ih =>
      intro result power
      rw [powerLoop, ih, eval_polyOf_cons, smul_eq_mul]
      ring

/-- **The loop evaluates the polynomial.** -/
theorem powerSum_eq (x : S) (cs : List S) : powerSum x cs = (polyOf cs).eval x := by
  unfold powerSum
  rw [powerLoop_eq, zero_add, one_mul]

theorem powerLoop_smul (x : S) (B : M) (cs : List S) :
    ∀ result power : S, powerLoop x (result • B) power (cs.map (· • B)) =
      powerLoop x result power cs • B := by
  induction cs with
  | nil =>
      intro result power
      rfl
  | cons c cs ih =>
      intro result power
      rw [List.map_cons, powerLoop, powerLoop, ← ih, smul_smul, add_smul, smul_eq_mul]

/-- Evaluated at the multiples of a point, the loop gives the multiple by the value. -/
theorem powerSum_smul (x : S) (B : M) (cs : List S) :
    powerSum x (cs.map (· • B)) = (polyOf cs).eval x • B := by
  have h := powerLoop_smul x B cs 0 1
  rw [zero_smul] at h
  rw [← powerSum_eq]
  exact h

theorem powerLoop_scale (x : S) (ms : List M) :
    ∀ (result : M) (power : S), powerLoop x result power ms = result + power • powerSum x ms := by
  induction ms with
  | nil =>
      intro result power
      simp [powerLoop, powerSum]
  | cons m ms ih =>
      intro result power
      unfold powerSum
      rw [powerLoop, powerLoop, ih, ih, smul_add, smul_smul, zero_add, one_smul, one_mul,
        add_assoc]

theorem powerSum_cons (x : S) (m : M) (ms : List M) :
    powerSum x (m :: ms) = m + x • powerSum x ms := by
  rw [powerSum, powerLoop, powerLoop_scale, zero_add, one_smul, one_mul]

/-! ## 2. Interpolation at 0 -/

variable {ι : Type*} [DecidableEq ι]

/-- The weight of the node `v i` among the nodes `is`: the product of `-v j / (v i - v j)` over
    the other nodes. -/
def weightAtZero (v : ι → S) (is : List ι) (i : ι) : S :=
  ((is.filter (· ≠ i)).map fun j => -v j * (v i - v j)⁻¹).prod

theorem weightAtZero_eq {v : ι → S} {is : List ι} (hnd : is.Nodup) (i : ι) :
    weightAtZero v is i = (Lagrange.basis is.toFinset v i).eval 0 := by
  have hset : is.toFinset.erase i = (is.filter (· ≠ i)).toFinset := by
    ext j
    simp [and_comm]
  unfold weightAtZero Lagrange.basis
  rw [hset, eval_prod, List.prod_toFinset _ (hnd.filter _)]
  refine congrArg List.prod (List.map_congr_left fun j _ => ?_)
  simp [Lagrange.basisDivisor, mul_comm]

/-- **Interpolation at 0**: the values of `f` at distinct nodes, more than its degree, weighted,
    add up to its value at 0. -/
theorem sum_weightAtZero {v : ι → S} {is : List ι} {f : S[X]} (hnd : is.Nodup)
    (hinj : ∀ i ∈ is, ∀ j ∈ is, v i = v j → i = j) (hdeg : f.degree < is.length) :
    (is.map fun i => weightAtZero v is i * f.eval (v i)).sum = f.eval 0 := by
  have hcard : is.toFinset.card = is.length := List.toFinset_card_of_nodup hnd
  have hinj' : Set.InjOn v is.toFinset := by
    intro i hi j hj h
    exact hinj i (List.mem_toFinset.mp hi) j (List.mem_toFinset.mp hj) h
  have hf : f = Lagrange.interpolate is.toFinset v fun i => f.eval (v i) :=
    Lagrange.eq_interpolate hinj' (by rw [hcard]; exact hdeg)
  calc (is.map fun i => weightAtZero v is i * f.eval (v i)).sum
      = ∑ i ∈ is.toFinset, weightAtZero v is i * f.eval (v i) := (List.sum_toFinset _ hnd).symm
    _ = ∑ i ∈ is.toFinset, (C (f.eval (v i)) * Lagrange.basis is.toFinset v i).eval 0 := by
        refine Finset.sum_congr rfl fun i _ => ?_
        rw [weightAtZero_eq hnd, eval_mul, eval_C, mul_comm]
    _ = (Lagrange.interpolate is.toFinset v fun i => f.eval (v i)).eval 0 := by
        rw [Lagrange.interpolate_apply, eval_finsetSum]
    _ = f.eval 0 := by rw [← hf]

/-! ## 3. Points along a curve -/

/-- The weighted points of a curve, each scaled by the value of a polynomial. -/
theorem sum_weightAtZero_scaled {v : ι → S} {is : List ι} (hnd : is.Nodup)
    (hinj : ∀ i ∈ is, ∀ j ∈ is, v i = v j → i = j) (ms : List M) :
    ∀ g : S[X], g.natDegree + ms.length ≤ is.length →
      (is.map fun i => (weightAtZero v is i * g.eval (v i)) • powerSum (v i) ms).sum =
        g.eval 0 • ms.headD 0 := by
  induction ms with
  | nil =>
      intro g _
      simp [powerSum, powerLoop]
  | cons m ms ih =>
      intro g hlen
      rw [List.length_cons] at hlen
      have hdeg : g.degree < is.length :=
        lt_of_le_of_lt degree_le_natDegree (by exact_mod_cast (by omega : _ < is.length))
      have hconst : (is.map fun i => (weightAtZero v is i * g.eval (v i)) • m).sum =
          g.eval 0 • m := by
        have hs := sum_weightAtZero hnd hinj hdeg
        rw [← hs, List.sum_smul, List.map_map]
        rfl
      have hnat : (g * X).natDegree + ms.length ≤ is.length := by
        have := natDegree_mul_le (p := g) (q := X)
        have := natDegree_X_le (R := S)
        omega
      have hrest := ih (g * X) hnat
      rw [eval_mul, eval_X, mul_zero, zero_smul] at hrest
      have hsplit : ∀ i, (weightAtZero v is i * g.eval (v i)) • powerSum (v i) (m :: ms) =
          (weightAtZero v is i * g.eval (v i)) • m +
            (weightAtZero v is i * (g * X).eval (v i)) • powerSum (v i) ms := by
        intro i
        rw [powerSum_cons, smul_add, smul_smul, eval_mul, eval_X, mul_assoc]
      rw [List.map_congr_left fun i _ => hsplit i, List.sum_map_add, hconst, hrest, add_zero]
      rfl

/-- **Interpolation at 0 along a curve**: the weighted points add up to the point at 0. -/
theorem sum_weightAtZero_powerSum {v : ι → S} {is : List ι} (hnd : is.Nodup)
    (hinj : ∀ i ∈ is, ∀ j ∈ is, v i = v j → i = j) {ms : List M} (hlen : ms.length ≤ is.length) :
    (is.map fun i => weightAtZero v is i • powerSum (v i) ms).sum = ms.headD 0 := by
  have h := sum_weightAtZero_scaled hnd hinj ms 1 (by simpa using hlen)
  simpa using h

theorem weightAtZero_ne_zero {v : ι → S} {is : List ι} {i : ι}
    (hinj : ∀ j ∈ is, v i = v j → i = j) (hne : ∀ j ∈ is, v j ≠ 0) :
    weightAtZero v is i ≠ 0 := by
  unfold weightAtZero
  refine List.prod_ne_zero fun h => ?_
  obtain ⟨j, hj, hzero⟩ := List.mem_map.mp h
  obtain ⟨hmem, hji⟩ := List.mem_filter.mp hj
  rcases mul_eq_zero.mp hzero with h0 | h0
  · exact hne j hmem (neg_eq_zero.mp h0)
  · exact of_decide_eq_true hji (hinj j hmem (sub_eq_zero.mp (inv_eq_zero.mp h0))).symm

theorem powerSum_range (x : S) (a : Nat → M) (n : Nat) :
    powerSum x ((List.range n).map a) = ∑ j ∈ Finset.range n, x ^ j • a j := by
  induction n generalizing a with
  | zero => simp [powerSum, powerLoop]
  | succ n ih =>
      rw [List.range_succ_eq_map, List.map_cons, List.map_map, powerSum_cons, ih,
        Finset.sum_range_succ', Finset.smul_sum, pow_zero, one_smul, add_comm]
      refine congrArg (· + a 0) (Finset.sum_congr rfl fun j _ => ?_)
      rw [smul_smul, ← pow_succ']
      rfl

/-- **Through as many points as wanted runs a curve** with one coefficient for each. -/
theorem exists_powerSum {v : ι → S} {is : List ι} (hnd : is.Nodup)
    (hinj : ∀ i ∈ is, ∀ j ∈ is, v i = v j → i = j) (y : ι → M) :
    ∃ ms : List M, ms.length = is.length ∧ ∀ i ∈ is, powerSum (v i) ms = y i := by
  have hinj' : Set.InjOn v is.toFinset := by
    intro i hi j hj h
    exact hinj i (List.mem_toFinset.mp hi) j (List.mem_toFinset.mp hj) h
  let b := Lagrange.basis is.toFinset v
  have hnat : ∀ i ∈ is.toFinset, (b i).natDegree < is.length := by
    intro i hi
    have hpos : 0 < is.length := List.length_pos_of_mem (List.mem_toFinset.mp hi)
    rw [Lagrange.natDegree_basis hinj' hi, List.toFinset_card_of_nodup hnd]
    exact Nat.sub_one_lt_of_lt hpos
  refine ⟨(List.range is.length).map fun j => ∑ i ∈ is.toFinset, (b i).coeff j • y i, by simp,
    fun k hk => ?_⟩
  have hk' : k ∈ is.toFinset := List.mem_toFinset.mpr hk
  calc powerSum (v k) ((List.range is.length).map fun j => ∑ i ∈ is.toFinset, (b i).coeff j • y i)
      = ∑ j ∈ Finset.range is.length, v k ^ j • ∑ i ∈ is.toFinset, (b i).coeff j • y i :=
        powerSum_range _ _ _
    _ = ∑ i ∈ is.toFinset, (b i).eval (v k) • y i := by
        simp only [Finset.smul_sum]
        rw [Finset.sum_comm]
        refine Finset.sum_congr rfl fun i hi => ?_
        rw [eval_eq_sum_range' (hnat i hi), Finset.sum_smul]
        refine Finset.sum_congr rfl fun j _ => ?_
        rw [smul_smul, mul_comm]
    _ = y k := by
        rw [Finset.sum_eq_single k]
        · rw [Lagrange.eval_basis_self hinj' hk', one_smul]
        · intro i hi hne
          rw [Lagrange.eval_basis_of_ne hne hk', zero_smul]
        · intro h
          exact absurd hk' h

/-- **Every choice of `t` points gives one value at 0 exactly when the points lie on one curve**
    with `t` coefficients, its point at 0 being that value. -/
theorem exists_powerSum_iff {v : ι → S} {is : List ι} (hnd : is.Nodup)
    (hinj : ∀ i ∈ is, ∀ j ∈ is, v i = v j → i = j) (hne : ∀ i ∈ is, v i ≠ 0) {t : ℕ}
    (hpos : 0 < t) (hlen : t ≤ is.length) (y : ι → M) (a : M) :
    (∀ q : List ι, q.Nodup → q ⊆ is → q.length = t →
        (q.map fun i => weightAtZero v q i • y i).sum = a) ↔
      ∃ ms : List M, ms.length = t ∧ ms.headD 0 = a ∧ ∀ i ∈ is, y i = powerSum (v i) ms := by
  have hsub : ∀ q : List ι, q ⊆ is → ∀ i ∈ q, ∀ j ∈ q, v i = v j → i = j :=
    fun q hq i hi j hj => hinj i (hq hi) j (hq hj)
  constructor
  · intro h
    -- the curve through the first `t` points
    have hq0 : is.take t ⊆ is := List.take_subset t is
    have hnd0 : (is.take t).Nodup := hnd.sublist (List.take_sublist t is)
    have hlen0 : (is.take t).length = t := by rw [List.length_take, Nat.min_eq_left hlen]
    obtain ⟨ms, hms, hon⟩ := exists_powerSum hnd0 (hsub _ hq0) y
    have hzero : ms.headD 0 = a := by
      rw [← h _ hnd0 hq0 hlen0, ← sum_weightAtZero_powerSum hnd0 (hsub _ hq0) hms.le]
      refine congrArg List.sum (List.map_congr_left fun i hi => ?_)
      rw [hon i hi]
    refine ⟨ms, hms.trans hlen0, hzero, fun m hm => ?_⟩
    by_cases hm0 : m ∈ is.take t
    · exact (hon m hm0).symm
    · -- another point in the place of the first one changes the sum by a multiple of its distance
      obtain ⟨i0, rest, hrest⟩ := List.exists_cons_of_length_pos (hpos.trans_eq hlen0.symm)
      rw [hrest] at hm0 hnd0 hlen0 hq0 hon
      have hq : (m :: rest) ⊆ is :=
        List.cons_subset.mpr ⟨hm, fun i hi => hq0 (List.mem_cons_of_mem i0 hi)⟩
      have hndq : (m :: rest).Nodup :=
        List.nodup_cons.mpr ⟨fun hmr => hm0 (List.mem_cons_of_mem i0 hmr),
          (List.nodup_cons.mp hnd0).2⟩
      have hlenq : (m :: rest).length = t := by rw [← hlen0]; rfl
      have hsum := h _ hndq hq hlenq
      have hmslen : ms.length ≤ (m :: rest).length := by
        rw [hms, hrest]
        rfl
      have hcurve := sum_weightAtZero_powerSum hndq (hsub _ hq) hmslen
      rw [hzero, ← hsum, List.map_cons, List.map_cons, List.sum_cons, List.sum_cons] at hcurve
      have htail : (rest.map fun i => weightAtZero v (m :: rest) i • powerSum (v i) ms) =
          rest.map fun i => weightAtZero v (m :: rest) i • y i :=
        List.map_congr_left fun i hi => by rw [hon i (List.mem_cons_of_mem i0 hi)]
      rw [htail, add_left_inj] at hcurve
      have hw : weightAtZero v (m :: rest) m ≠ 0 :=
        weightAtZero_ne_zero (hsub _ hq m List.mem_cons_self) fun j hj => hne j (hq hj)
      exact smul_right_injective M hw hcurve.symm
  · rintro ⟨ms, hms, rfl, hon⟩ q hndq hq hlenq
    rw [← sum_weightAtZero_powerSum hndq (hsub q hq) (hms.trans hlenq.symm).le]
    refine congrArg List.sum (List.map_congr_left fun i hi => ?_)
    rw [hon i (hq hi)]

/-! ## 4. Fewer points than coefficients -/

theorem powerSum_range_add (x : S) (a c : Nat → M) (n : Nat) :
    powerSum x ((List.range n).map fun j => a j + c j) =
      powerSum x ((List.range n).map a) + powerSum x ((List.range n).map c) := by
  rw [powerSum_range, powerSum_range, powerSum_range, ← Finset.sum_add_distrib]
  exact Finset.sum_congr rfl fun j _ => smul_add _ _ _

/-- Zeros behind the coefficients change nothing. -/
theorem powerSum_getD (x : S) (ms : List M) {n : Nat} (h : ms.length ≤ n) :
    powerSum x ((List.range n).map fun j => ms.getD j 0) = powerSum x ms := by
  have hms : (List.range ms.length).map (fun j => ms.getD j 0) = ms := by
    refine List.ext_getElem (by simp) fun j _ hj => ?_
    rw [List.getElem_map, List.getElem_range, List.getD_eq_getElem _ _ hj]
  have hsum : powerSum x ms = ∑ j ∈ Finset.range ms.length, x ^ j • ms.getD j 0 := by
    rw [← powerSum_range, hms]
  rw [hsum, powerSum_range]
  refine (Finset.sum_subset (Finset.range_mono h) fun j _ hj => ?_).symm
  have hlen : ms.length ≤ j := Nat.not_lt.mp (mt Finset.mem_range.mpr hj)
  rw [List.getD_eq_default _ _ hlen, smul_zero]

/-- **A curve with `n` coefficients behind its point at 0** that has any point `d` there, and the
    point 0 at `n` nodes or fewer, none of them 0. -/
theorem exists_mask {n : Nat} {xs : List S} (hne : ∀ x ∈ xs, x ≠ 0) (hlen : xs.length ≤ n) (d : M) :
    ∃ c : Nat → M, ∀ x ∈ xs, d + x • powerSum x ((List.range n).map c) = 0 := by
  classical
  have hnd : (0 :: xs.dedup).Nodup :=
    List.nodup_cons.mpr ⟨fun h => hne 0 (List.mem_dedup.mp h) rfl, List.nodup_dedup xs⟩
  obtain ⟨ms, hms, hon⟩ := exists_powerSum (v := fun x : S => x) hnd (fun _ _ _ _ h => h)
    fun x => if x = 0 then d else 0
  obtain ⟨m, rest, rfl⟩ := List.exists_cons_of_ne_nil (l := ms) fun h => by
    rw [h] at hms
    exact Nat.noConfusion hms
  have hzero : m = d := by
    have h := hon 0 List.mem_cons_self
    rwa [powerSum_cons, zero_smul, add_zero, if_pos rfl] at h
  have hrest : rest.length ≤ n := by
    have := List.Sublist.length_le (List.dedup_sublist xs)
    rw [List.length_cons, List.length_cons] at hms
    omega
  refine ⟨fun j => rest.getD j 0, fun x hx => ?_⟩
  have h := hon x (List.mem_cons_of_mem 0 (List.mem_dedup.mpr hx))
  rw [powerSum_cons, if_neg (hne x hx), hzero] at h
  rw [powerSum_getD x rest hrest]
  exact h

end Sharing

end Lib
