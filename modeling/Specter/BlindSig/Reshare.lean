/-
  File:      Specter/BlindSig/Reshare.lean
  Subject:   PROACTIVE RESHARING (`proactive_reshare` of specter-blind-sig/src/dkg.rs).

  Every participant draws a polynomial with constant term 0, and everyone adds the values of all
  of them at its own id to its share. The order in which the keys of the share map are walked and
  the coefficients are arguments.

  * `Refreshable` -- enough shares, each its owner's value of one polynomial of degree below the
    threshold, and the group key the key of its value at 0;
  * `proactiveReshare_eq` -- the shares move to another such polynomial with the same value at 0;
  * `reshare_preserves_key` -- so any number of refreshes keeps the group key, the threshold, the
    ids and the secret that enough shares give.
-/
import Mathlib.RingTheory.Polynomial.Basic
import Specter.BlindSig.Dkg
import Specter.Lib.Machine

namespace Specter

open Lib Lib.Sharing

variable {S P : Type} [Field S] [AddCommGroup P] [Module S P]

/-- What one call draws: the order of the keys of the share map, and everyone's coefficients. -/
structure ReshareCall (S : Type) where
  order : List SignerId
  coefficient : SignerId → Nat → S

namespace Reshare

/-! ## 1. The function -/

/-- The coefficients `a_1, …, a_{t-1}` of participant `i`. -/
def updateCoeffs (t : Nat) (call : ReshareCall S) (i : SignerId) : List S :=
  (List.range (t - 1)).map (call.coefficient i)

/-- `y'_j`: the loop over the drawn polynomials, each with a running power that starts at `x_j`. -/
def newY (updatePolys : Keyed SignerId (List S)) (xj currentY : S) : S :=
  (updatePolys.pairs.map (·.2)).foldl (fun y coeffs => powerLoop xj y xj coeffs) currentY

def proactiveReshare [DecidableEq P] (C : Suite S P) (call : ReshareCall S)
    (old : ThresholdKeyset S P) : Except DkgError (ThresholdKeyset S P) :=
  let t := old.threshold
  let ids := call.order
  let updatePolys := Keyed.ofPairs (ids.map fun i => (i, updateCoeffs t call i))
  let share (j : SignerId) : Share S :=
    let xj := Suite.scalarFromU64 j
    { x := xj, y := newY updatePolys xj (Threshold.shareOf old j).y }
  let subset := ids.take t
  let reconstructed := (subset.map fun i =>
    weightAtZero (Suite.scalarFromU64 : SignerId → S) subset i • ((share i).y • C.G)).sum
  if reconstructed ≠ old.groupPublic then .error .invalidShareReshare
  else
    .ok
      { groupPublic := old.groupPublic
        threshold := t
        total := old.total
        shares := fun id => if id ∈ ids then some (share id) else none
        publicShares := fun id => if id ∈ ids then some ((share id).y • C.G) else none }

def machine [DecidableEq P] (C : Suite S P) :
    Machine (ThresholdKeyset S P) (ReshareCall S) where
  step keyset call := (proactiveReshare C call keyset).toOption

/-! ## 2. One refresh -/

/-- The list has each id that holds a share once. -/
def Lists (keyset : ThresholdKeyset S P) (ids : List SignerId) : Prop :=
  ids.Nodup ∧ ∀ id, id ∈ ids ↔ (keyset.shares id).isSome

/-- At least `threshold` shares, each its owner's value of `f`, of degree below the threshold,
    and the group key the key of `f 0`. -/
structure Refreshable (C : Suite S P) (keyset : ThresholdKeyset S P) (f : Polynomial S) :
    Prop where
  enough : ∃ ids, Lists keyset ids ∧ keyset.threshold ≤ ids.length
  degree : f.degree < keyset.threshold
  share : ∀ id s, keyset.shares id = some s → s = Threshold.shareOn f id
  groupPublic : keyset.groupPublic = f.eval 0 • C.G

/-- The sum of the polynomials drawn, each with the constant term 0. -/
noncomputable def updatePoly (t : Nat) (call : ReshareCall S) : Polynomial S :=
  (call.order.map fun i => polyOf (0 :: updateCoeffs t call i)).sum

variable {C : Suite S P} {keyset : ThresholdKeyset S P} {f : Polynomial S} {t : Nat}
  {call : ReshareCall S}

theorem degree_updatePoly_lt : (updatePoly t call).degree < t := by
  rw [← Polynomial.mem_degreeLT]
  refine list_sum_mem fun p hp => ?_
  obtain ⟨i, _, rfl⟩ := List.mem_map.mp hp
  rw [Polynomial.mem_degreeLT]
  cases t with
  | zero => simp [polyOf, updateCoeffs]
  | succ t =>
      have h := degree_polyOf_lt (0 :: updateCoeffs (t + 1) call i)
      simpa [updateCoeffs] using h

theorem eval_updatePoly (x : S) : (updatePoly t call).eval x =
    (call.order.map fun i => x * (polyOf (updateCoeffs t call i)).eval x).sum := by
  have h := map_list_sum (Polynomial.evalRingHom x)
    (call.order.map fun i => polyOf (0 :: updateCoeffs t call i))
  rw [List.map_map] at h
  refine h.trans (congrArg List.sum (List.map_congr_left fun i _ => ?_))
  show (polyOf (0 :: updateCoeffs t call i)).eval x = _
  rw [eval_polyOf_cons, zero_add]

theorem updatePoly_zero : (updatePoly t call).eval 0 = 0 := by
  rw [eval_updatePoly]
  simp

/-- The loop adds the value of the drawn polynomials. -/
theorem newY_eq (hnd : call.order.Nodup) (x y : S) :
    newY (Keyed.ofPairs (call.order.map fun i => (i, updateCoeffs t call i))) x y =
      y + (updatePoly t call).eval x := by
  have hfold : ∀ (l : List (List S)) (a : S), l.foldl (fun y cs => powerLoop x y x cs) a =
      a + (l.map fun cs => x * (polyOf cs).eval x).sum := by
    intro l
    induction l with
    | nil => simp
    | cons cs l ih =>
        intro a
        rw [List.foldl_cons, ih, powerLoop_eq, List.map_cons, List.sum_cons, add_assoc]
  have hpairs : (Keyed.ofPairs (call.order.map fun i => (i, updateCoeffs t call i))).pairs =
      Keyed.table call.order.reverse (updateCoeffs t call) := Keyed.pairs_table hnd _
  unfold newY
  rw [hpairs, hfold, eval_updatePoly]
  unfold Keyed.table
  rw [List.map_map, List.map_map, List.map_reverse, List.sum_reverse]
  rfl

omit [Field S] [AddCommGroup P] [Module S P] in
/-- Two lists of the ids have one length. -/
theorem Lists.length_eq {ids ids' : List SignerId} (h : Lists keyset ids)
    (h' : Lists keyset ids') : ids.length = ids'.length :=
  ((List.perm_ext_iff_of_nodup h.1 h'.1).mpr fun id => (h.2 id).trans (h'.2 id).symm).length_eq

theorem Refreshable.shares_eq (h : Refreshable C keyset f) {id : SignerId}
    (hid : (keyset.shares id).isSome) :
    keyset.shares id = some (Threshold.shareOn f id) := by
  obtain ⟨s, hs⟩ := Option.isSome_iff_exists.mp hid
  rw [hs, h.share id s hs]

/-- Enough shares of a refreshable keyset give the secret back. -/
theorem Refreshable.reconstructSecret [DecidableEq S] (h : Refreshable C keyset f)
    {who : List SignerId} (hnd : who.Nodup) (hne : who ≠ [])
    (hknown : ∀ id ∈ who, (keyset.shares id).isSome) (hlen : keyset.threshold ≤ who.length) :
    Shamir.reconstructSecret (who.map (Threshold.shareOf keyset)) = some (f.eval 0) := by
  have hshares : who.map (Threshold.shareOf keyset) = who.map (Threshold.shareOn f) := by
    refine List.map_congr_left fun id hid => ?_
    unfold Threshold.shareOf
    rw [h.shares_eq (hknown id hid)]
    rfl
  rw [hshares]
  exact Threshold.reconstructSecret_shareOn C hnd hne
    (lt_of_lt_of_le h.degree (by exact_mod_cast hlen))

/-- The weighted public shares of `threshold` ids give the key of the value at 0. -/
theorem sum_publicShares {ids : List SignerId} (hnd : ids.Nodup) (hdeg : f.degree < ids.length) :
    (ids.map fun i => weightAtZero (Suite.scalarFromU64 : SignerId → S) ids i •
      (f.eval (Suite.scalarFromU64 i) • C.G)).sum = f.eval 0 • C.G := by
  have hsum := sum_weightAtZero (v := (Suite.scalarFromU64 : SignerId → S)) (f := f) hnd
    (fun i _ j _ h => C.u64_inj i j h) hdeg
  rw [← hsum, List.sum_smul, List.map_map]
  refine congrArg List.sum (List.map_congr_left fun i _ => ?_)
  rw [smul_smul]
  rfl

/-- The share `proactive_reshare` gives to a listed id. -/
theorem newShare_eq (h : Refreshable C keyset f) (hlist : Lists keyset call.order) {id : SignerId}
    (hid : id ∈ call.order) :
    (⟨Suite.scalarFromU64 id, newY (Keyed.ofPairs (call.order.map fun i =>
        (i, updateCoeffs keyset.threshold call i))) (Suite.scalarFromU64 id)
      (Threshold.shareOf keyset id).y⟩ : Share S) =
      Threshold.shareOn (f + updatePoly keyset.threshold call) id := by
  have hold : Threshold.shareOf keyset id = Threshold.shareOn f id := by
    unfold Threshold.shareOf
    rw [h.shares_eq ((hlist.2 id).mp hid)]
    rfl
  unfold Threshold.shareOn
  rw [Polynomial.eval_add, newY_eq hlist.1, hold]
  rfl

/-- The first `threshold` of the new public shares combine to the old group key. -/
theorem sum_newPublicShares (h : Refreshable C keyset f) (hlist : Lists keyset call.order) :
    ((call.order.take keyset.threshold).map fun i =>
      weightAtZero (Suite.scalarFromU64 : SignerId → S) (call.order.take keyset.threshold) i •
        ((f + updatePoly keyset.threshold call).eval (Suite.scalarFromU64 i) • C.G)).sum =
      keyset.groupPublic := by
  obtain ⟨ids, hids, henough⟩ := h.enough
  have hlen : (call.order.take keyset.threshold).length = keyset.threshold := by
    rw [List.length_take, hlist.length_eq hids, Nat.min_eq_left henough]
  have hdeg : (f + updatePoly keyset.threshold call).degree <
      (call.order.take keyset.threshold).length := by
    rw [hlen]
    exact lt_of_le_of_lt (Polynomial.degree_add_le _ _) (max_lt h.degree degree_updatePoly_lt)
  rw [sum_publicShares (hlist.1.sublist (List.take_sublist keyset.threshold call.order)) hdeg,
    Polynomial.eval_add, updatePoly_zero, add_zero, h.groupPublic]

/-- **One refresh succeeds**, and moves the shares to the polynomial with the drawn ones added. -/
theorem proactiveReshare_eq [DecidableEq P] (h : Refreshable C keyset f)
    (hlist : Lists keyset call.order) :
    ∃ keyset', proactiveReshare C call keyset = .ok keyset' ∧
      keyset'.groupPublic = keyset.groupPublic ∧ keyset'.threshold = keyset.threshold ∧
      keyset'.total = keyset.total ∧
      (∀ id, keyset'.shares id = if id ∈ call.order then
        some (Threshold.shareOn (f + updatePoly keyset.threshold call) id) else none) ∧
      ∀ id, keyset'.publicShares id = (keyset'.shares id).map fun s => s.y • C.G := by
  let share (j : SignerId) : Share S :=
    { x := Suite.scalarFromU64 j
      y := newY (Keyed.ofPairs (call.order.map fun i => (i, updateCoeffs keyset.threshold call i)))
        (Suite.scalarFromU64 j) (Threshold.shareOf keyset j).y }
  have hshare : ∀ id ∈ call.order,
      share id = Threshold.shareOn (f + updatePoly keyset.threshold call) id :=
    fun id hid => newShare_eq h hlist hid
  -- the check of the group key is over the first `threshold` ids
  have hkey : ((call.order.take keyset.threshold).map fun i =>
      weightAtZero (Suite.scalarFromU64 : SignerId → S) (call.order.take keyset.threshold) i •
        ((share i).y • C.G)).sum = keyset.groupPublic := by
    rw [← sum_newPublicShares h hlist]
    refine congrArg List.sum (List.map_congr_left fun i hi => ?_)
    rw [hshare i (List.mem_of_mem_take hi)]
    rfl
  refine ⟨_, if_neg (not_not.mpr hkey), rfl, rfl, rfl, fun id => ?_, fun id => ?_⟩
  · show (if id ∈ call.order then some (share id) else none) = _
    by_cases hid : id ∈ call.order
    · rw [if_pos hid, if_pos hid, hshare id hid]
    · rw [if_neg hid, if_neg hid]
  · show (if id ∈ call.order then some ((share id).y • C.G) else none) =
      (if id ∈ call.order then some (share id) else none).map _
    by_cases hid : id ∈ call.order
    · rw [if_pos hid, if_pos hid]
      rfl
    · rw [if_neg hid, if_neg hid]
      rfl

/-! ## 3. Any number of refreshes -/

/-- What the refreshes of `keyset`, with the shares on `f`, keep. -/
structure RefreshOf (C : Suite S P) (keyset : ThresholdKeyset S P) (f : Polynomial S)
    (keyset' : ThresholdKeyset S P) : Prop where
  groupPublic : keyset'.groupPublic = keyset.groupPublic
  threshold : keyset'.threshold = keyset.threshold
  total : keyset'.total = keyset.total
  ids : ∀ id, (keyset'.shares id).isSome = (keyset.shares id).isSome
  onPoly : ∃ f', Refreshable C keyset' f' ∧ f'.eval 0 = f.eval 0

/-- The public shares are those of the shares. -/
def PublicShares (C : Suite S P) (keyset : ThresholdKeyset S P) : Prop :=
  ∀ id, keyset.publicShares id = (keyset.shares id).map fun s => s.y • C.G

theorem RefreshOf.refl (h : Refreshable C keyset f) : RefreshOf C keyset f keyset :=
  ⟨rfl, rfl, rfl, fun _ => rfl, f, h, rfl⟩

omit [AddCommGroup P] [Module S P] [Field S] in
theorem Lists.of_ids {keyset' : ThresholdKeyset S P} {ids : List SignerId}
    (h : Lists keyset ids) (hids : ∀ id, (keyset'.shares id).isSome = (keyset.shares id).isSome) :
    Lists keyset' ids :=
  ⟨h.1, fun id => by rw [h.2 id, hids id]⟩

/-- A refresh goes through on what the refreshes keep, keeps it, and sets the public shares. -/
theorem RefreshOf.step [DecidableEq P] {now : ThresholdKeyset S P} (h : RefreshOf C keyset f now)
    (hlist : Lists keyset call.order) :
    ∃ next, (machine C).step now call = some next ∧ RefreshOf C keyset f next ∧
      PublicShares C next := by
  obtain ⟨g, hg, hzero⟩ := h.onPoly
  have hlist' : Lists now call.order := hlist.of_ids h.ids
  obtain ⟨next, hok, hpub, ht, htotal, hshares, hpublic⟩ := proactiveReshare_eq hg hlist'
  have hids : ∀ id, (next.shares id).isSome = (now.shares id).isSome := by
    intro id
    rw [hshares id, Bool.eq_iff_iff, ← hlist'.2 id]
    by_cases hid : id ∈ call.order <;> simp [hid]
  have hnext : Refreshable C next (g + updatePoly now.threshold call) := by
    obtain ⟨ids, hl, henough⟩ := hg.enough
    refine ⟨⟨ids, hl.of_ids hids, by rwa [ht]⟩, ?_, fun id s hs => ?_, ?_⟩
    · rw [ht]
      exact lt_of_le_of_lt (Polynomial.degree_add_le _ _) (max_lt hg.degree degree_updatePoly_lt)
    · rw [hshares id] at hs
      by_cases hid : id ∈ call.order
      · rw [if_pos hid] at hs
        exact (Option.some.inj hs).symm
      · rw [if_neg hid] at hs
        cases hs
    · rw [hpub, hg.groupPublic, Polynomial.eval_add, updatePoly_zero, add_zero]
  refine ⟨next, ?_, ⟨hpub.trans h.groupPublic, ht.trans h.threshold, htotal.trans h.total,
    fun id => (hids id).trans (h.ids id), _, hnext, ?_⟩, hpublic⟩
  · show (proactiveReshare C call now).toOption = _
    rw [hok]
    rfl
  · rw [Polynomial.eval_add, updatePoly_zero, add_zero, hzero]

/-- A sequence of refreshes runs to its end, and after one or more the public shares are set. -/
theorem RefreshOf.run [DecidableEq P] (h : Refreshable C keyset f) (calls : List (ReshareCall S))
    (hcalls : ∀ call ∈ calls, Lists keyset call.order) :
    ∃ keyset', (machine C).run keyset calls = some keyset' ∧ RefreshOf C keyset f keyset' ∧
      (calls ≠ [] → PublicShares C keyset') := by
  cases calls with
  | nil => exact ⟨keyset, rfl, RefreshOf.refl h, fun hne => absurd rfl hne⟩
  | cons call calls =>
      obtain ⟨first, hfirst, hkeep, hpub⟩ :=
        (RefreshOf.refl h).step (hcalls call List.mem_cons_self)
      obtain ⟨last, hrun, hlast, hlastPub⟩ := (machine C).run_exists
        (I := fun s => RefreshOf C keyset f s ∧ PublicShares C s)
        (A := fun c => Lists keyset c.order) (fun _ _ hI hA => hI.1.step hA) calls first
        ⟨hkeep, hpub⟩ fun c hc => hcalls c (List.mem_cons_of_mem call hc)
      refine ⟨last, ?_, hlast, fun _ => hlastPub⟩
      rw [Machine.run, hfirst]
      exact hrun

/-- **Proactive resharing preserves the key.** From a keyset with at least `threshold` shares on
    one polynomial of degree below the threshold, every sequence of refreshes, with any
    coefficients and any order of the share map, returns a keyset with the same group key,
    threshold, total and ids, in which `threshold` or more shares give the same secret and each
    public share is that of the share; and that keyset meets the same conditions again. -/
theorem reshare_preserves_key [DecidableEq S] [DecidableEq P] (C : Suite S P)
    (keyset : ThresholdKeyset S P) (f : Polynomial S) (h : Refreshable C keyset f)
    (calls : List (ReshareCall S)) (hcalls : ∀ call ∈ calls, Lists keyset call.order) :
    ∃ keyset', (machine C).run keyset calls = some keyset' ∧
      keyset'.groupPublic = keyset.groupPublic ∧ keyset'.threshold = keyset.threshold ∧
      keyset'.total = keyset.total ∧
      (∀ id, (keyset'.shares id).isSome = (keyset.shares id).isSome) ∧
      (∀ who : List SignerId, who.Nodup → who ≠ [] →
        (∀ id ∈ who, (keyset'.shares id).isSome) → keyset.threshold ≤ who.length →
        Shamir.reconstructSecret (who.map (Threshold.shareOf keyset')) = some (f.eval 0)) ∧
      (calls ≠ [] → ∀ id,
        keyset'.publicShares id = (keyset'.shares id).map fun s => s.y • C.G) ∧
      ∃ f', Refreshable C keyset' f' ∧ f'.eval 0 = f.eval 0 := by
  obtain ⟨keyset', hrun, hkeep, hpub⟩ := RefreshOf.run h calls hcalls
  obtain ⟨f', hf', hzero⟩ := hkeep.onPoly
  refine ⟨keyset', hrun, hkeep.groupPublic, hkeep.threshold, hkeep.total, hkeep.ids, ?_, hpub,
    f', hf', hzero⟩
  intro who hnd hne hknown hlen
  rw [← hzero]
  exact hf'.reconstructSecret hnd hne hknown (by rwa [hkeep.threshold])

/-! ## 4. A dealer's keyset -/

/-- The ids `1 … total`, as the dealer numbers the signers. -/
def dealerIds (total : Nat) : List SignerId :=
  (List.range total).map fun i => UInt64.ofNat (i + 1)

theorem lists_dealerIds {threshold total : Nat} {rnd : Threshold.DealerRandom S}
    (hsize : total < 2 ^ 64) (h : Threshold.dealerKeygen C threshold total rnd = some keyset) :
    Lists keyset (dealerIds total) := by
  obtain ⟨_, _, _, _, hshares⟩ := Threshold.dealerKeygen_some h
  have hval : ∀ i < total, (UInt64.ofNat (i + 1)).toNat = i + 1 := fun i hi =>
    UInt64.toNat_ofNat_of_lt' (by simp only [UInt64.size]; omega)
  refine ⟨List.nodup_range.map_on fun i hi j hj hij => ?_, fun id => ?_⟩
  · have := congrArg UInt64.toNat hij
    rw [hval i (List.mem_range.mp hi), hval j (List.mem_range.mp hj)] at this
    omega
  · rw [hshares id]
    unfold dealerIds
    rw [List.mem_map]
    constructor
    · rintro ⟨i, hi, rfl⟩
      have hi' := hval i (List.mem_range.mp hi)
      have hlt := List.mem_range.mp hi
      have hne : UInt64.ofNat (i + 1) ≠ 0 := by
        intro h0
        rw [h0] at hi'
        simp at hi'
      rw [if_pos ⟨hne, by omega⟩]
      rfl
    · intro hsome
      by_cases hid : id ≠ 0 ∧ id.toNat ≤ total
      · have hpos : 0 < id.toNat := Nat.pos_of_ne_zero fun e => hid.1 (UInt64.toNat_inj.mp e)
        refine ⟨id.toNat - 1, List.mem_range.mpr (by omega), ?_⟩
        rw [Nat.sub_add_cancel hpos, UInt64.ofNat_toNat]
      · rw [if_neg hid] at hsome
        cases hsome

/-- **A dealer's keyset can be refreshed.** -/
theorem dealerKeygen_refreshable {threshold total : Nat} {rnd : Threshold.DealerRandom S}
    (hsize : total < 2 ^ 64) (h : Threshold.dealerKeygen C threshold total rnd = some keyset) :
    Refreshable C keyset (Shamir.sharingPoly rnd.groupSecret threshold rnd.coefficient) := by
  obtain ⟨ht, htn, hthr, hpub, hshares⟩ := Threshold.dealerKeygen_some h
  refine ⟨⟨dealerIds total, lists_dealerIds hsize h, ?_⟩, ?_, fun id s hs => ?_, ?_⟩
  · simpa [dealerIds, hthr] using htn
  · rw [hthr]
    exact Shamir.degree_sharingPoly_lt _ ht _
  · rw [hshares id] at hs
    split at hs
    · exact (Option.some.inj hs).symm
    · cases hs
  · rw [hpub, Shamir.sharingPoly_zero]

/-- A dealer's keyset of two of three, refreshed twice, with the share map walked two ways. -/
theorem reshare_preserves_key_twice :
    ∃ keyset keyset', Threshold.dealerKeygen (P := SamplePoint) sampleSuite 2 3
        ⟨7, fun i => i + 9⟩ = some keyset ∧
      (machine sampleSuite).run keyset
        [⟨[3, 1, 2], fun i j => Suite.scalarFromU64 i + j⟩, ⟨[2, 3, 1], fun _ j => j + 4⟩] =
          some keyset' ∧
      keyset'.groupPublic = keyset.groupPublic ∧
      Shamir.reconstructSecret ([3, 2].map (Threshold.shareOf keyset')) = some 7 := by
  obtain ⟨keyset, hkeyset⟩ : ∃ keyset, Threshold.dealerKeygen (P := SamplePoint) sampleSuite 2 3
      ⟨7, fun i => i + 9⟩ = some keyset := ⟨_, rfl⟩
  have hids : Lists keyset (dealerIds 3) := lists_dealerIds (by decide) hkeyset
  have hlist : ∀ order : List SignerId, order.Perm (dealerIds 3) → Lists keyset order :=
    fun order hp => ⟨hp.nodup_iff.mpr hids.1, fun id => hp.mem_iff.trans (hids.2 id)⟩
  obtain ⟨keyset', hrun, hpub, _, _, hsome, hback, _⟩ := reshare_preserves_key sampleSuite keyset _
    (dealerKeygen_refreshable (by decide) hkeyset)
    [⟨[3, 1, 2], fun i j => Suite.scalarFromU64 i + j⟩, ⟨[2, 3, 1], fun _ j => j + 4⟩] (by
      intro call hcall
      simp only [List.mem_cons, List.not_mem_nil, or_false] at hcall
      rcases hcall with rfl | rfl
      · exact hlist _ (by decide)
      · exact hlist _ (by decide))
  refine ⟨keyset, keyset', hkeyset, hrun, hpub, ?_⟩
  have hknown : ∀ id ∈ ([3, 2] : List SignerId), (keyset'.shares id).isSome := by
    intro id hid
    rw [hsome id, ← hids.2 id]
    simp only [List.mem_cons, List.not_mem_nil, or_false] at hid
    rcases hid with rfl | rfl
    · decide
    · decide
  have hthr : keyset.threshold = 2 := (Threshold.dealerKeygen_some hkeyset).2.2.1
  rw [hback [3, 2] (by decide) (by decide) hknown (by rw [hthr]; decide),
    Shamir.sharingPoly_zero]

end Reshare

end Specter
