/-
  File:      Specter/Primitives/Shamir.lean
  Subject:   SHAMIR SHARES (specter-primitives/src/shamir.rs).

  `splitSecret` with the coefficients it draws; the shares are the values at `1, 2, …, n` of a
  polynomial whose constant term is the secret.

  * `splitSecret_ok` -- when it succeeds, and what share `i` is;
  * `reconstructSecret_eq` -- shares on a polynomial, more than its degree, give its value at 0
    back;
  * `yields_shift` -- coefficients that give some fewer shares with one secret, and those that give
    them with another, differ by a mask;
  * `sharing_correct` -- so `t` shares give the secret back, and fewer are given by every secret
    with as many coefficients as by any other.
-/
import Mathlib.Data.List.GetD
import Mathlib.SetTheory.Cardinal.Finite
import Specter.Lib.Sharing
import Specter.Primitives.Suite

namespace Specter

open Lib Lib.Sharing

variable {S P : Type} [Field S] [AddCommGroup P] [Module S P]

structure Share (S : Type) where
  x : S
  y : S

inductive ShamirError where
  | zeroThreshold
  | thresholdExceedsTotal (threshold total : Nat)
  | zeroShares
  deriving DecidableEq

def ShamirError.display : ShamirError → String
  | .zeroThreshold => "threshold must be > 0"
  | .thresholdExceedsTotal threshold total =>
      "threshold (" ++ toString threshold ++ ") must be <= total shares (" ++ toString total ++ ")"
  | .zeroShares => "total shares must be > 0"

namespace Shamir

/-- `evaluate_polynomial`: the constant term first. -/
def evaluatePolynomial (coefficients : List S) (x : S) : S := powerSum x coefficients

/-- The secret and `t - 1` drawn coefficients behind it. -/
def coefficients (secret : S) (t : Nat) (drawn : Nat → S) : List S :=
  secret :: (List.range (t - 1)).map drawn

/-- `split_secret`; the share at position `i` is the one for `x = i + 1`. -/
def splitSecret (secret : S) (t n : Nat) (drawn : Nat → S) :
    Except ShamirError (List (Share S)) :=
  if t = 0 then .error .zeroThreshold
  else if n = 0 then .error .zeroShares
  else if t > n then .error (.thresholdExceedsTotal t n)
  else
    .ok ((List.range n).map fun i =>
      let x : S := Suite.scalarFromU64 (UInt64.ofNat (i + 1))
      { x := x, y := evaluatePolynomial (coefficients secret t drawn) x })

/-- `reconstruct_secret`: two loops over the positions, the inner one without its own. -/
def reconstructSecret [DecidableEq S] (shares : List (Share S)) : Option S :=
  if shares = [] then none
  else if ¬ (shares.map (·.x)).Nodup then none
  else
    let x := fun i => (shares.getD i ⟨0, 0⟩).x
    let basis := weightAtZero x (List.range shares.length)
    some ((List.range shares.length).map fun i => (shares.getD i ⟨0, 0⟩).y * basis i).sum

/-- The polynomial behind the shares. -/
noncomputable def sharingPoly (secret : S) (t : Nat) (drawn : Nat → S) : Polynomial S :=
  polyOf (coefficients secret t drawn)

theorem degree_sharingPoly_lt (secret : S) {t : Nat} (ht : 0 < t) (drawn : Nat → S) :
    (sharingPoly secret t drawn).degree < t := by
  have hlen : (coefficients secret t drawn).length = t := by
    simp [coefficients]
    omega
  have h := degree_polyOf_lt (coefficients secret t drawn)
  rwa [hlen] at h

theorem sharingPoly_zero (secret : S) (t : Nat) (drawn : Nat → S) :
    (sharingPoly secret t drawn).eval 0 = secret := by
  unfold sharingPoly coefficients
  rw [eval_polyOf_cons, zero_mul, add_zero]

/-- **What `split_secret` returns**: it succeeds exactly for `1 ≤ t ≤ n`, and its shares are the
    values of one polynomial. -/
theorem splitSecret_ok {secret : S} {t n : Nat} {drawn : Nat → S} {shares : List (Share S)} :
    splitSecret secret t n drawn = .ok shares ↔
      (1 ≤ t ∧ t ≤ n) ∧ shares = (List.range n).map fun i =>
        ({ x := Suite.scalarFromU64 (UInt64.ofNat (i + 1))
           y := (sharingPoly secret t drawn).eval
             (Suite.scalarFromU64 (UInt64.ofNat (i + 1))) } : Share S) := by
  have hy : ∀ x : S, evaluatePolynomial (coefficients secret t drawn) x =
      (sharingPoly secret t drawn).eval x := fun x => powerSum_eq x _
  unfold splitSecret
  split
  · refine ⟨fun h => (nomatch h), fun h => ?_⟩
    omega
  · split
    · refine ⟨fun h => (nomatch h), fun h => ?_⟩
      omega
    · split
      · refine ⟨fun h => (nomatch h), fun h => ?_⟩
        omega
      · simp only [hy, Except.ok.injEq]
        refine ⟨fun h => ⟨by omega, h.symm⟩, fun h => h.2.symm⟩

/-- **Enough shares on one polynomial give its value at 0 back.** -/
theorem reconstructSecret_eq [DecidableEq S] {shares : List (Share S)} {f : Polynomial S}
    (hne : shares ≠ []) (hnodup : (shares.map (·.x)).Nodup)
    (hon : ∀ s ∈ shares, s.y = f.eval s.x) (hdeg : f.degree < shares.length) :
    reconstructSecret shares = some (f.eval 0) := by
  let x := fun i => (shares.getD i ⟨0, 0⟩).x
  have hget : ∀ i ∈ List.range shares.length, shares.getD i ⟨0, 0⟩ ∈ shares := by
    intro i hi
    rw [List.getD_eq_getElem _ _ (List.mem_range.mp hi)]
    exact List.getElem_mem _
  have hinj : ∀ i ∈ List.range shares.length, ∀ j ∈ List.range shares.length,
      x i = x j → i = j := by
    intro i hi j hj h
    have hi' := List.mem_range.mp hi
    have hj' := List.mem_range.mp hj
    have hmi : i < (shares.map (·.x)).length := by simpa using hi'
    have hmj : j < (shares.map (·.x)).length := by simpa using hj'
    have hiff : (shares.map (·.x))[i] = (shares.map (·.x))[j] ↔ i = j := hnodup.getElem_inj_iff
    refine hiff.mp ?_
    rw [List.getElem_map, List.getElem_map, ← List.getD_eq_getElem _ ⟨0, 0⟩ hi',
      ← List.getD_eq_getElem _ ⟨0, 0⟩ hj']
    exact h
  have hsum := sum_weightAtZero (v := x) (f := f) List.nodup_range hinj
    (by rwa [List.length_range])
  unfold reconstructSecret
  rw [if_neg hne, if_neg (not_not.mpr hnodup), ← hsum]
  refine congrArg some (congrArg List.sum (List.map_congr_left fun i hi => ?_))
  rw [hon _ (hget i hi), mul_comm]

/-! ## Fewer shares -/

/-- The share for `x` on the polynomial of a secret and the coefficients behind it. -/
theorem eval_sharingPoly (secret : S) (t : Nat) (drawn : Nat → S) (x : S) :
    (sharingPoly secret t drawn).eval x =
      secret + x • powerSum x ((List.range (t - 1)).map drawn) := by
  unfold sharingPoly coefficients
  rw [← powerSum_eq, powerSum_cons]

/-- `t - 1` coefficients, in the order in which they are drawn. -/
def drawnOf {k : Nat} (c : Fin k → S) (j : Nat) : S := if h : j < k then c ⟨j, h⟩ else 0

theorem map_drawnOf {k : Nat} (drawn : Nat → S) :
    (List.range k).map (drawnOf fun j : Fin k => drawn j) = (List.range k).map drawn := by
  refine List.map_congr_left fun j hj => ?_
  unfold drawnOf
  rw [dif_pos (List.mem_range.mp hj)]

theorem drawnOf_add {k : Nat} (c d : Fin k → S) (j : Nat) :
    drawnOf (c + d) j = drawnOf c j + drawnOf d j := by
  unfold drawnOf
  by_cases hj : j < k
  · simp only [dif_pos hj, Pi.add_apply]
  · simp only [dif_neg hj, add_zero]

/-- With the coefficients `c` the secret is split into shares among which are those seen. -/
def Yields (secret : S) (t n : Nat) (seen : List (Share S)) (c : Fin (t - 1) → S) : Prop :=
  ∃ shares, splitSecret secret t n (drawnOf c) = .ok shares ∧ seen ⊆ shares

theorem exists_shares (secret : S) {t n : Nat} (ht : 1 ≤ t) (htn : t ≤ n) (drawn : Nat → S) :
    ∃ shares, splitSecret secret t n drawn = .ok shares :=
  ⟨_, splitSecret_ok.mpr ⟨⟨ht, htn⟩, rfl⟩⟩

/-- The x-coordinate of the share at position `i`. -/
def shareX (i : Nat) : S := Suite.scalarFromU64 (UInt64.ofNat (i + 1))

theorem mem_shares_iff {secret : S} {t n : Nat} {drawn : Nat → S} {shares : List (Share S)}
    (h : splitSecret secret t n drawn = .ok shares) {s : Share S} :
    s ∈ shares ↔ (∃ i < n, s.x = shareX i) ∧ s.y = (sharingPoly secret t drawn).eval s.x := by
  obtain ⟨_, rfl⟩ := splitSecret_ok.mp h
  rw [List.mem_map]
  constructor
  · rintro ⟨i, hi, rfl⟩
    exact ⟨⟨i, List.mem_range.mp hi, rfl⟩, rfl⟩
  · rintro ⟨⟨i, hi, hx⟩, hy⟩
    refine ⟨i, List.mem_range.mpr hi, ?_⟩
    cases s
    dsimp only at hx hy
    rw [hy, hx]
    rfl

theorem yields_iff {secret : S} {t n : Nat} {seen : List (Share S)} {c : Fin (t - 1) → S}
    (ht : 1 ≤ t) (htn : t ≤ n) : Yields secret t n seen c ↔
      ∀ s ∈ seen, (∃ i < n, s.x = shareX i) ∧
        s.y = (sharingPoly secret t (drawnOf c)).eval s.x := by
  constructor
  · rintro ⟨shares, h, hsub⟩ s hs
    exact (mem_shares_iff h).mp (hsub hs)
  · intro h
    obtain ⟨shares, hok⟩ := exists_shares secret ht htn (drawnOf c)
    exact ⟨shares, hok, fun s hs => (mem_shares_iff hok).mpr (h s hs)⟩

/-- No share is at 0, where the secret is: there are fewer than `2 ^ 64` of them. -/
theorem shareX_ne_zero (C : Suite S P) {i n : Nat} (hi : i < n) (hn : n < 2 ^ 64) :
    (shareX i : S) ≠ 0 := by
  intro h
  have hzero : (shareX i : S) = ((0 : UInt64).toNat : S) := by simpa using h
  have hnat := congrArg UInt64.toNat (C.u64_inj _ _ hzero)
  rw [UInt64.toNat_ofNat_of_lt' (Nat.lt_of_le_of_lt hi hn)] at hnat
  exact Nat.succ_ne_zero i hnat

/-- **Masked coefficients**: what `c` gives with one secret `c + d` gives with the other, where `d`
    makes up for the difference at the shares seen. -/
theorem yields_shift {secret candidate : S} {t n : Nat} {seen : List (Share S)}
    {c d : Fin (t - 1) → S} (ht : 1 ≤ t) (htn : t ≤ n)
    (hd : ∀ s ∈ seen, (candidate - secret) +
      s.x • powerSum s.x ((List.range (t - 1)).map (drawnOf d)) = 0) :
    Yields secret t n seen c ↔ Yields candidate t n seen (c + d) := by
  rw [yields_iff ht htn, yields_iff ht htn]
  refine forall₂_congr fun s hs => and_congr_right fun _ => ?_
  have hsum : (sharingPoly candidate t (drawnOf (c + d))).eval s.x =
      (sharingPoly secret t (drawnOf c)).eval s.x := by
    have hfun : drawnOf (c + d) = fun j => drawnOf c j + drawnOf d j := funext (drawnOf_add c d)
    rw [eval_sharingPoly, eval_sharingPoly, hfun, powerSum_range_add, smul_add,
      ← sub_eq_zero, ← hd s hs]
    abel
  rw [hsum]

theorem exists_shift (C : Suite S P) (candidate : S) {secret : S} {t n : Nat} {drawn : Nat → S}
    {shares seen : List (Share S)} (hn : n < 2 ^ 64) (h : splitSecret secret t n drawn = .ok shares)
    (hsub : seen ⊆ shares) (hfew : seen.length < t) :
    ∃ d : Fin (t - 1) → S, ∀ c, Yields secret t n seen c ↔ Yields candidate t n seen (c + d) := by
  obtain ⟨⟨ht, htn⟩, _⟩ := splitSecret_ok.mp h
  have hne : ∀ x ∈ seen.map (·.x), x ≠ 0 := by
    intro x hx
    obtain ⟨s, hs, rfl⟩ := List.mem_map.mp hx
    obtain ⟨⟨i, hi, hxi⟩, _⟩ := (mem_shares_iff h).mp (hsub hs)
    rw [hxi]
    exact shareX_ne_zero C hi hn
  obtain ⟨mask, hmask⟩ := exists_mask hne (n := t - 1) (by rw [List.length_map]; omega)
    (candidate - secret)
  refine ⟨fun j => mask j, fun c => yields_shift ht htn fun s hs => ?_⟩
  rw [map_drawnOf]
  exact hmask s.x (List.mem_map_of_mem hs)

/-- **Sharing is correct and hides.** For every secret and `1 ≤ t ≤ n`, `t` shares or more with
    different x-coordinates give the secret back, in any order; and fewer than `t` shares come with
    any other secret from exactly as many choices of the coefficients, and from at least one. -/
theorem sharing_correct [DecidableEq S] [Finite S] (C : Suite S P) (secret : S) (t n : Nat)
    (ht : 1 ≤ t) (htn : t ≤ n) (hn : n < 2 ^ 64) (drawn : Nat → S) :
    ∃ shares, splitSecret secret t n drawn = .ok shares ∧
      (∀ picked : List (Share S), picked ⊆ shares → (picked.map (·.x)).Nodup →
        t ≤ picked.length → reconstructSecret picked = some secret) ∧
      ∀ seen : List (Share S), seen ⊆ shares → seen.length < t → ∀ candidate : S,
        Nat.card {c // Yields candidate t n seen c} = Nat.card {c // Yields secret t n seen c} ∧
          0 < Nat.card {c // Yields candidate t n seen c} := by
  obtain ⟨shares, hok⟩ := exists_shares secret ht htn drawn
  refine ⟨shares, hok, fun picked hsub hnd hlen => ?_, fun seen hsub hfew candidate => ?_⟩
  · have hne : picked ≠ [] := List.ne_nil_of_length_pos (Nat.lt_of_lt_of_le ht hlen)
    have hdeg : (sharingPoly secret t drawn).degree < picked.length :=
      lt_of_lt_of_le (degree_sharingPoly_lt secret ht drawn) (by exact_mod_cast hlen)
    rw [reconstructSecret_eq hne hnd (fun s hs => ((mem_shares_iff hok).mp (hsub hs)).2) hdeg,
      sharingPoly_zero]
  · obtain ⟨d, hd⟩ := exists_shift C candidate hn hok hsub hfew
    have hcard : Nat.card {c // Yields candidate t n seen c} =
        Nat.card {c // Yields secret t n seen c} :=
      (Nat.card_congr ((Equiv.addRight d).subtypeEquiv hd)).symm
    have hown : Yields secret t n seen fun j : Fin (t - 1) => drawn j := by
      refine (yields_iff ht htn).mpr fun s hs => ?_
      obtain ⟨hx, hy⟩ := (mem_shares_iff hok).mp (hsub hs)
      refine ⟨hx, ?_⟩
      rw [hy, eval_sharingPoly, eval_sharingPoly, map_drawnOf]
    have : Nonempty {c // Yields secret t n seen c} := ⟨⟨_, hown⟩⟩
    exact ⟨hcard, hcard ▸ Nat.card_pos⟩

/-- Two of three shares of 42 give it back, last one first; one of them could be one of 7 as
    well. -/
theorem sharing_correct_two_of_three :
    ∃ shares, splitSecret (42 : SampleScalar) 2 3 (fun i => i + 5) = .ok shares ∧
      reconstructSecret [⟨3, 57⟩, ⟨1, 47⟩] = some (42 : SampleScalar) ∧
      Nat.card {c // Yields (7 : SampleScalar) 2 3 [⟨3, 57⟩] c} =
        Nat.card {c // Yields (42 : SampleScalar) 2 3 [⟨3, 57⟩] c} := by
  obtain ⟨shares, hok, hback, hhide⟩ := sharing_correct sampleSuite (42 : SampleScalar) 2 3
    (by decide) (by decide) (by decide) (fun i => i + 5)
  have hfirst : (⟨1, 47⟩ : Share SampleScalar) ∈ shares := by
    cases hok
    exact List.mem_map.mpr ⟨0, by decide, congrArg₂ Share.mk (by decide +kernel)
      (by decide +kernel)⟩
  have hlast : (⟨3, 57⟩ : Share SampleScalar) ∈ shares := by
    cases hok
    exact List.mem_map.mpr ⟨2, by decide, congrArg₂ Share.mk (by decide +kernel)
      (by decide +kernel)⟩
  refine ⟨shares, hok, hback _ ?_ (by decide +kernel) (by decide), (hhide _ ?_ (by decide) 7).1⟩
  · simp [hfirst, hlast]
  · simp [hlast]

end Shamir

end Specter
