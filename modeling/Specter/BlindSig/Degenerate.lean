/-
  File:      Specter/BlindSig/Degenerate.lean
  Subject:   GROUPS THAT ARE NONE (`run_dkg` of specter-blind-sig/src/dkg.rs).

  The threshold is compared with the number of ids given. Participants are kept by id, so of
  repeated ids one is left; and a share is the value of the group polynomial at the id, so that of
  id 0 is the group secret.

  * `HoldsSecret` -- a participant's share is the secret of the group key;
  * `eval_redrawn` -- how the group polynomial moves with one coefficient of one participant;
  * `holdsSecret_zero`, `holdsSecret_unique` -- id 0 holds the secret whatever is drawn, any other
    for one value of its coefficient at most;
  * `NonDegenerate` -- as many distinct participants as the threshold, and for a threshold of at
    least 2 nobody holds the secret but for a chance value of one coefficient;
  * `nonDegenerate_iff` -- which ids and thresholds give such groups.
-/
import Specter.BlindSig.Dkg

namespace Specter

open Lib Lib.Sharing

variable {S P : Type} [Field S] [AddCommGroup P] [Module S P] {C : Suite S P}

namespace Dkg

/-! ## 1. What a run leaves -/

/-- After a run with these draws the share of `id` is the secret of the group key. -/
def HoldsSecret (C : Suite S P) (t : Nat) (ids : List SignerId) (rnd : Nat → Round1Random S)
    (id : SignerId) : Prop :=
  ∃ keysets keyset share, runDkg C t ids rnd = pure keysets ∧
    AList.lookup id keysets = some keyset ∧ keyset.shares id = some share ∧
    share.y • C.G = keyset.groupPublic

/-- The draws with `a` for coefficient 1 of the `i`-th. -/
def redrawn (rnd : Nat → Round1Random S) (i : Nat) (a : S) : Nat → Round1Random S :=
  Function.update rnd i { rnd i with coefficient := Function.update (rnd i).coefficient 1 a }

/-- What a run that succeeds must leave: keysets of as many distinct participants as the
    threshold, and, for a threshold of at least 2, nobody whose share is the group secret, unless
    by chance: whatever else is drawn, at most one value of some coefficient makes it so. -/
structure NonDegenerate (C : Suite S P) (t : Nat) (ids : List SignerId) : Prop where
  enough : ∀ rnd keysets, runDkg C t ids rnd = pure keysets → t ≤ keysets.keys.length
  generic : 2 ≤ t → ∀ id rnd, ∃ i, ∀ a b, HoldsSecret C t ids (redrawn rnd i a) id →
    HoldsSecret C t ids (redrawn rnd i b) id → a = b

variable {t : Nat} {ids : List SignerId} {id : SignerId}

/-- The keysets are those of the distinct ids. -/
theorem keys_runDkg (f : Polynomial S) :
    (Keyed.ofPairs (Keyed.table ids.dedup.reverse (keysetOn C t ids.dedup f))).keys =
      ids.dedup := by
  rw [← Keyed.map_fst_pairs, Keyed.pairs_table (List.nodup_reverse.mpr ids.nodup_dedup),
    Keyed.map_fst_table, List.reverse_reverse]

theorem holdsSecret_iff (ht : 1 ≤ t) (htn : t ≤ ids.length) {rnd : Nat → Round1Random S} :
    HoldsSecret C t ids rnd id ↔ id ∈ ids ∧
      (groupPoly t ids.dedup (keptDraw ids rnd)).eval (Suite.scalarFromU64 id) • C.G =
        (groupPoly t ids.dedup (keptDraw ids rnd)).eval 0 • C.G := by
  have hrun := runDkg_eq (C := C) ht htn rnd
  constructor
  · rintro ⟨keysets, keyset, share, hkeysets, hkeyset, hshare, hsecret⟩
    rw [hrun] at hkeysets
    cases hkeysets
    have hid : id ∈ ids.dedup := by
      rw [← keys_runDkg (C := C) (t := t) (groupPoly t ids.dedup (keptDraw ids rnd))]
      exact AList.mem_keys.mp (AList.lookup_isSome.mp (by rw [hkeyset]; rfl))
    rw [lookup_runDkg _ hid] at hkeyset
    cases hkeyset
    cases (if_pos rfl).symm.trans hshare
    exact ⟨List.mem_dedup.mp hid, hsecret⟩
  · rintro ⟨hid, hsecret⟩
    exact ⟨_, _, _, hrun, lookup_runDkg _ (List.mem_dedup.mpr hid), if_pos rfl, hsecret⟩

/-! ## 2. One coefficient -/

omit [Field S] in
theorem coeffs_two (n : Nat) (r : Round1Random S) :
    coeffs (n + 2) r = r.coefficient 0 :: r.coefficient 1 ::
      (List.range n).map fun j => r.coefficient (j + 2) := by
  unfold coeffs
  rw [List.range_succ_eq_map, List.map_cons, List.map_map, List.range_succ_eq_map, List.map_cons,
    List.map_map]
  rfl

/-- Two draws that differ in coefficient 1. -/
theorem eval_coeffs_update (ht : 2 ≤ t) (r : Round1Random S) (a x : S) :
    (polyOf (coeffs t { r with coefficient := Function.update r.coefficient 1 a })).eval x =
      (polyOf (coeffs t { r with coefficient := Function.update r.coefficient 1 0 })).eval x +
        x * a := by
  obtain ⟨n, rfl⟩ := Nat.exists_eq_add_of_le' ht
  have hrest : ∀ b : S, (List.range n).map (fun j => Function.update r.coefficient 1 b (j + 2)) =
      (List.range n).map fun j => r.coefficient (j + 2) := fun b =>
    List.map_congr_left fun j _ => Function.update_of_ne (by omega) _ _
  rw [coeffs_two, coeffs_two, hrest, hrest]
  dsimp only
  rw [Function.update_self, Function.update_self, Function.update_of_ne Nat.zero_ne_one,
    Function.update_of_ne Nat.zero_ne_one]
  simp only [eval_polyOf_cons]
  ring

/-- **The group polynomial moves by `a X`** with coefficient 1 of one participant. -/
theorem eval_redrawn (ht : 2 ≤ t) (hid : id ∈ ids) (rnd : Nat → Round1Random S) (a x : S) :
    (groupPoly t ids.dedup
        (keptDraw ids (redrawn rnd (Keyed.lastIdx ids id) a))).eval x =
      (groupPoly t ids.dedup
        (keptDraw ids (redrawn rnd (Keyed.lastIdx ids id) 0))).eval x + x * a := by
  have hnd := ids.nodup_dedup
  have hsplit := List.perm_cons_erase (List.mem_dedup.mpr hid)
  -- the others' draws are not touched
  have hother : ∀ b, ∀ j ∈ ids.dedup.erase id,
      keptDraw ids (redrawn rnd (Keyed.lastIdx ids id) b) j = keptDraw ids rnd j := by
    intro b j hj
    obtain ⟨hne, hmem⟩ := hnd.mem_erase_iff.mp hj
    refine Function.update_of_ne (fun heq => hne ?_) _ _
    have hget := Keyed.getElem?_lastIdx (List.mem_dedup.mp hmem)
    rw [heq, Keyed.getElem?_lastIdx hid] at hget
    exact (Option.some.inj hget).symm
  have heval : ∀ b, (groupPoly t ids.dedup
      (keptDraw ids (redrawn rnd (Keyed.lastIdx ids id) b))).eval x =
      (polyOf (coeffs t (keptDraw ids (redrawn rnd (Keyed.lastIdx ids id) b) id))).eval x +
        ((ids.dedup.erase id).map fun j =>
          (polyOf (coeffs t (keptDraw ids rnd j))).eval x).sum := by
    intro b
    rw [eval_groupPoly, (hsplit.map _).sum_eq, List.map_cons, List.sum_cons]
    refine congrArg _ (congrArg List.sum (List.map_congr_left fun j hj => ?_))
    rw [hother b j hj]
  have hown : ∀ b, keptDraw ids (redrawn rnd (Keyed.lastIdx ids id) b) id =
      { keptDraw ids rnd id with
        coefficient := Function.update (keptDraw ids rnd id).coefficient 1 b } := fun b =>
    Function.update_self _ _ _
  rw [heval, heval, hown, hown, eval_coeffs_update ht]
  ring

/-! ## 3. Degenerate groups -/

/-- **The share at id 0 is the secret**, whatever is drawn. -/
theorem holdsSecret_zero (ht : 1 ≤ t) (htn : t ≤ ids.length) (hzero : 0 ∈ ids)
    (rnd : Nat → Round1Random S) : HoldsSecret C t ids rnd 0 := by
  refine (holdsSecret_iff ht htn).mpr ⟨hzero, ?_⟩
  rw [show (Suite.scalarFromU64 0 : S) = 0 from Nat.cast_zero]

/-- Any other participant holds it for one value of its coefficient 1 at most. -/
theorem holdsSecret_unique (hG : C.G ≠ 0) (ht : 2 ≤ t) (htn : t ≤ ids.length) (hne : id ≠ 0)
    {rnd : Nat → Round1Random S} {a b : S}
    (ha : HoldsSecret C t ids (redrawn rnd (Keyed.lastIdx ids id) a) id)
    (hb : HoldsSecret C t ids (redrawn rnd (Keyed.lastIdx ids id) b) id) : a = b := by
  obtain ⟨hid, ha⟩ := (holdsSecret_iff (Nat.le_of_succ_le ht) htn).mp ha
  obtain ⟨_, hb⟩ := (holdsSecret_iff (Nat.le_of_succ_le ht) htn).mp hb
  have hx : (Suite.scalarFromU64 id : S) ≠ 0 := fun hx =>
    hne (C.u64_inj id 0 (hx.trans Nat.cast_zero.symm))
  rw [eval_redrawn ht hid, eval_redrawn ht hid rnd a 0] at ha
  rw [eval_redrawn ht hid, eval_redrawn ht hid rnd b 0] at hb
  have ha' := smul_left_injective S hG ha
  have hb' := smul_left_injective S hG hb
  refine mul_left_cancel₀ hx ?_
  linear_combination ha' - hb'

/-- **Which groups are not degenerate.** Where `run_dkg` accepts the parameters, the number of
    distinct ids has to reach the threshold, and for a threshold of at least 2 id 0 must not be
    among them: its share is the group secret whatever is drawn. -/
theorem nonDegenerate_iff (C : Suite S P) (hG : C.G ≠ 0) (t : Nat) (ids : List SignerId) :
    NonDegenerate C t ids ↔
      (1 ≤ t ∧ t ≤ ids.length → t ≤ ids.dedup.length ∧ (2 ≤ t → 0 ∉ ids)) := by
  constructor
  · intro hgroup hparams
    obtain ⟨ht, htn⟩ := hparams
    refine ⟨?_, fun htwo hzero => ?_⟩
    · have hkeys := hgroup.enough (fun _ => ⟨fun _ => 0, 0⟩) _ (runDkg_eq ht htn _)
      rw [keys_runDkg] at hkeys
      exact hkeys
    · obtain ⟨i, hi⟩ := hgroup.generic htwo 0 fun _ => ⟨fun _ => 0, 0⟩
      exact zero_ne_one (hi 0 1 (holdsSecret_zero ht htn hzero _)
        (holdsSecret_zero ht htn hzero _))
  · intro hcond
    by_cases hparams : 1 ≤ t ∧ t ≤ ids.length
    · obtain ⟨ht, htn⟩ := hparams
      obtain ⟨hcount, hzero⟩ := hcond ⟨ht, htn⟩
      refine ⟨fun rnd keysets hrun => ?_, fun htwo id rnd => ?_⟩
      · rw [runDkg_eq ht htn] at hrun
        cases hrun
        rw [keys_runDkg]
        exact hcount
      · refine ⟨Keyed.lastIdx ids id, fun a b ha hb => ?_⟩
        have hid := ((holdsSecret_iff ht htn).mp ha).1
        exact holdsSecret_unique hG htwo htn (fun hid0 => hzero htwo (hid0 ▸ hid)) ha hb
    · have hrun : ∀ rnd keysets, runDkg C t ids rnd ≠ pure keysets := by
        intro rnd keysets h
        rw [runDkg_invalid hparams] at h
        cases h
      refine ⟨fun rnd keysets h => absurd h (hrun rnd keysets), fun _ id rnd => ⟨0, ?_⟩⟩
      intro a b ha
      obtain ⟨keysets, _, _, h, _⟩ := ha
      exact absurd h (hrun _ keysets)

/-- Three participants with a threshold of 2. -/
theorem nonDegenerate_iff_two_of_three : NonDegenerate sampleSuite 2 [5, 2, 9] :=
  (nonDegenerate_iff sampleSuite (by decide) 2 [5, 2, 9]).mpr fun _ => by decide

/-- Two participants are asked for and one id is given twice: the run succeeds with one. And of
    participants 0 and 1, any two of whom are to sign, the first holds the group secret. -/
theorem degenerate_groups :
    (∃ keysets, runDkg sampleSuite 2 [5, 5] (fun i => ⟨fun j => i + 3 * j + 4, i + 7⟩) =
        pure keysets ∧ keysets.keys = [5] ∧ ¬ NonDegenerate sampleSuite 2 [5, 5]) ∧
      (∀ rnd, HoldsSecret sampleSuite 2 [0, 1] rnd 0) ∧
        ¬ NonDegenerate sampleSuite 2 [0, 1] := by
  have hzero : ∀ rnd, HoldsSecret sampleSuite 2 [0, 1] rnd 0 :=
    holdsSecret_zero (by decide) (by decide) List.mem_cons_self
  refine ⟨?_, hzero, fun hgroup => ?_⟩
  · have hrun := @runDkg_eq SampleScalar SamplePoint _ _ _ sampleSuite 2 [5, 5] (by decide)
      (by decide) fun i => ⟨fun j => i + 3 * j + 4, i + 7⟩
    refine ⟨_, hrun, keys_runDkg _, fun hgroup => ?_⟩
    have hkeys := hgroup.enough _ _ hrun
    rw [keys_runDkg] at hkeys
    exact absurd hkeys (by decide)
  · obtain ⟨i, hi⟩ := hgroup.generic (Nat.le_refl 2) 0 fun _ => ⟨fun _ => 0, 0⟩
    exact zero_ne_one (hi 0 1 (hzero _) (hzero _))

end Dkg

end Specter
