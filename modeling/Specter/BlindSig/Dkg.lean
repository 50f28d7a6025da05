/-
  File:      Specter/BlindSig/Dkg.lean
  Subject:   DISTRIBUTED KEY GENERATION (specter-blind-sig/src/dkg.rs).

  The three rounds and `runDkg`, which plays them for all participants in one process. Hash maps
  are association lists, their order the order of the walk; it decides only which of several
  errors is reported. A function that can panic returns in `ExceptT DkgError Option`, where
  `none` is the panic.

  * `groupPoly` -- the polynomial the participants share: the sum of theirs;
  * `keptDraw` -- what is kept of a participant whose id is repeated;
  * `runDkg_eq` -- with `1 ≤ threshold ≤ total` the run succeeds, and each of the distinct
    participants holds its value of the group polynomial; `runDkg_ok` -- where all are distinct;
  * `dkg_correct` -- so all agree on the group key and on each other's public shares, and enough
    shares give the group secret.
-/
import Specter.BlindSig.Threshold
import Specter.Lib.Keyed

namespace Specter

open Lib Lib.Sharing

variable {S P : Type} [Field S] [AddCommGroup P] [Module S P]

structure DkgParticipant (S P : Type) where
  id : SignerId
  threshold : Nat
  secretPoly : List S
  commitments : List P

structure ProofOfKnowledge (S P : Type) where
  r : P
  s : S

inductive DkgError where
  | missingCommitments (id : SignerId)
  | invalidShare (sender receiver : SignerId)
  | invalidParams (threshold total : Nat)
  | missingProofOfKnowledge (id : SignerId)
  | invalidProofOfKnowledge (id : SignerId)
  | invalidCommitmentLength (sender : SignerId) (expected got : Nat)
  | invalidShareReshare
  deriving DecidableEq

def DkgError.display : DkgError → String
  | .missingCommitments id => "missing commitments from participant " ++ toString id
  | .invalidShare sender receiver =>
      "invalid share from participant " ++ toString sender ++ " to participant " ++
        toString receiver
  | .invalidParams threshold total =>
      "invalid DKG parameters: threshold=" ++ toString threshold ++ ", total=" ++ toString total
  | .missingProofOfKnowledge id => "missing proof-of-knowledge from participant " ++ toString id
  | .invalidProofOfKnowledge id => "invalid proof-of-knowledge from participant " ++ toString id
  | .invalidCommitmentLength sender expected got =>
      "invalid commitment vector length from participant " ++ toString sender ++ ": expected " ++
        toString expected ++ ", got " ++ toString got
  | .invalidShareReshare =>
      "proactive reshare produced a different group public key — internal consistency failure"

/-- What a participant draws in round 1: its coefficients and the nonce of its proof. -/
structure Round1Random (S : Type) where
  coefficient : Nat → S
  nonce : S

namespace Dkg

/-! ## 1. The rounds -/

def hashDkgPok (C : Suite S P) (id : SignerId) (commitment r : P) : S :=
  C.hashToScalar (ascii "specter-dkg-pok:" ++ le64 id ++ (C.compress commitment).toList ++
    (C.compress r).toList)

def evaluatePoly (coeffs : List S) (x : S) : S := powerSum x coeffs

def evaluatePolyPoints (points : List P) (x : S) : P := powerSum x points

/-- `dkg_round1`; it panics on threshold 0, where there is no constant term. -/
def dkgRound1 (C : Suite S P) (id : SignerId) (threshold : Nat) (rnd : Round1Random S) :
    Option (DkgParticipant S P × ProofOfKnowledge S P) := do
  let secretPoly := (List.range threshold).map rnd.coefficient
  let commitments := secretPoly.map (· • C.G)
  let commitment0 ← commitments.head?
  let secret0 ← secretPoly.head?
  let r := rnd.nonce • C.G
  let e := hashDkgPok C id commitment0 r
  some
    ({ id := id, threshold := threshold, secretPoly := secretPoly, commitments := commitments },
      { r := r, s := rnd.nonce + e * secret0 })

def verifyPok (C : Suite S P) (id : SignerId) (commitment0 : P) (pok : ProofOfKnowledge S P) :
    Bool :=
  let e := hashDkgPok C id commitment0 pok.r
  C.compress (pok.s • C.G) == C.compress (pok.r + e • commitment0)

/-- The shares for everyone else. -/
def dkgRound2 (participant : DkgParticipant S P) (allIds : List SignerId) : Keyed SignerId S :=
  Keyed.ofPairs ((allIds.filter (· ≠ participant.id)).map fun target =>
    (target, evaluatePoly participant.secretPoly (Suite.scalarFromU64 target)))

/-- One round of the loop over the proofs of knowledge, which reads `commitments[0]`. -/
def checkPok (C : Suite S P) (allPoks : Keyed SignerId (ProofOfKnowledge S P))
    (entry : SignerId × List P) : ExceptT DkgError Option Unit := do
  match AList.lookup entry.1 allPoks with
  | none => throw (.missingProofOfKnowledge entry.1)
  | some pok =>
      let commitment0 ← (entry.2.head? : Option P)
      if verifyPok C entry.1 commitment0 pok = false then
        throw (.invalidProofOfKnowledge entry.1)

/-- One round of the loop over the received shares. -/
def checkShare (C : Suite S P) (participant : DkgParticipant S P)
    (allCommitments : Keyed SignerId (List P)) (entry : SignerId × S) :
    ExceptT DkgError Option Unit := do
  match AList.lookup entry.1 allCommitments with
  | none => throw (.missingCommitments entry.1)
  | some commitments =>
      if commitments.length ≠ participant.threshold then
        throw (.invalidCommitmentLength entry.1 participant.threshold commitments.length)
      let expected := evaluatePolyPoints commitments
        (Suite.scalarFromU64 participant.id : S)
      if C.compress (entry.2 • C.G) ≠ C.compress expected then
        throw (.invalidShare entry.1 participant.id)

def dkgRound3 (C : Suite S P) (participant : DkgParticipant S P)
    (receivedShares : Keyed SignerId S) (allCommitments : Keyed SignerId (List P))
    (allPoks : Keyed SignerId (ProofOfKnowledge S P)) :
    ExceptT DkgError Option (ThresholdKeyset S P) := do
  let xi : S := Suite.scalarFromU64 participant.id
  allCommitments.pairs.forM (checkPok C allPoks)
  receivedShares.pairs.forM (checkShare C participant allCommitments)
  let selfShare := evaluatePoly participant.secretPoly xi
  let totalShare := (receivedShares.pairs.map (·.2)).foldl (· + ·) selfShare
  let constants ← (allCommitments.pairs.mapM fun p => p.2.head? : Option (List P))
  return {
    groupPublic := constants.sum
    threshold := participant.threshold
    total := allCommitments.pairs.length
    shares := fun id => if id = participant.id then some { x := xi, y := totalShare } else none
    publicShares := fun id =>
      if id = participant.id then some (totalShare • C.G)
      else if id ∈ allCommitments then
        some ((allCommitments.pairs.map fun p =>
          evaluatePolyPoints p.2 (Suite.scalarFromU64 id : S)).sum)
      else none }

/-! ## 2. A whole run -/

/-- The maps of a run: participants and proofs by id, then everyone's commitments and shares. -/
def participantsMap (firsts : List (DkgParticipant S P × ProofOfKnowledge S P)) :
    Keyed SignerId (DkgParticipant S P) :=
  Keyed.ofPairs (firsts.map fun f => (f.1.id, f.1))

def poksMap (firsts : List (DkgParticipant S P × ProofOfKnowledge S P)) :
    Keyed SignerId (ProofOfKnowledge S P) :=
  Keyed.ofPairs (firsts.map fun f => (f.1.id, f.2))

def commitmentsMap (participants : Keyed SignerId (DkgParticipant S P)) :
    Keyed SignerId (List P) :=
  Keyed.ofPairs (participants.pairs.map fun p => (p.1, p.2.commitments))

def sharesMap (participants : Keyed SignerId (DkgParticipant S P))
    (participantIds : List SignerId) : Keyed SignerId (Keyed SignerId S) :=
  Keyed.ofPairs (participants.pairs.map fun p => (p.1, dkgRound2 p.2 participantIds))

/-- The shares the others sent to `target`; indexing a missing one panics. -/
def receivedFor (allShares : Keyed SignerId (Keyed SignerId S)) (participantIds : List SignerId)
    (target : SignerId) : Option (Keyed SignerId S) := do
  let sent ← (participantIds.filter (· ≠ target)).mapM fun sender => do
    let row ← AList.lookup sender allShares
    let share ← AList.lookup target row
    some (sender, share)
  some (Keyed.ofPairs sent)

def runDkg (C : Suite S P) (threshold : Nat) (participantIds : List SignerId)
    (rnd : Nat → Round1Random S) :
    ExceptT DkgError Option (Keyed SignerId (ThresholdKeyset S P)) := do
  let total := participantIds.length
  if threshold > total ∨ threshold = 0 ∨ total = 0 then
    throw (.invalidParams threshold total)
  let firsts ← (participantIds.zipIdx.mapM fun p => dkgRound1 C p.1 threshold (rnd p.2) :
    Option (List (DkgParticipant S P × ProofOfKnowledge S P)))
  let participants := participantsMap firsts
  let allPoks := poksMap firsts
  let allCommitments := commitmentsMap participants
  allCommitments.pairs.forM fun p =>
    if p.2.length ≠ threshold then
      throw (DkgError.invalidCommitmentLength p.1 threshold p.2.length)
    else pure ⟨⟩
  allCommitments.pairs.forM (checkPok C allPoks)
  let received ← (participantIds.mapM fun target => do
    let row ← receivedFor (sharesMap participants participantIds) participantIds target
    some (target, row) : Option (List (SignerId × Keyed SignerId S)))
  let keysets ← participants.pairs.mapM fun p => do
    let row ← (AList.lookup p.1 (Keyed.ofPairs received) : Option (Keyed SignerId S))
    let keyset ← dkgRound3 C p.2 row allCommitments allPoks
    return (p.1, keyset)
  return Keyed.ofPairs keysets

/-! ## 3. An honest run -/

/-- The coefficients drawn for a threshold `t`. -/
def coeffs (t : Nat) (r : Round1Random S) : List S := (List.range t).map r.coefficient

def honestParticipant (C : Suite S P) (t : Nat) (id : SignerId) (r : Round1Random S) :
    DkgParticipant S P where
  id := id
  threshold := t
  secretPoly := coeffs t r
  commitments := (coeffs t r).map (· • C.G)

def honestPok (C : Suite S P) (id : SignerId) (r : Round1Random S) : ProofOfKnowledge S P where
  r := r.nonce • C.G
  s := r.nonce + hashDkgPok C id (r.coefficient 0 • C.G) (r.nonce • C.G) * r.coefficient 0

/-- The polynomial the participants share: the sum of theirs. -/
noncomputable def groupPoly (t : Nat) (ids : List SignerId) (d : SignerId → Round1Random S) :
    Polynomial S :=
  (ids.map fun id => polyOf (coeffs t (d id))).sum

variable {C : Suite S P} {t : Nat} {ids : List SignerId} {d : SignerId → Round1Random S}
  {id : SignerId}

omit [Field S] in
theorem coeffs_head (ht : 0 < t) (r : Round1Random S) :
    (coeffs t r).head? = some (r.coefficient 0) := by
  unfold coeffs
  rw [List.head?_map, List.head?_range, if_neg (Nat.ne_of_gt ht)]
  rfl

theorem eval_coeffs_zero (ht : 0 < t) (r : Round1Random S) :
    (polyOf (coeffs t r)).eval 0 = r.coefficient 0 := by
  obtain ⟨a, cs, hcs⟩ := List.exists_cons_of_ne_nil (l := coeffs t r) (by
    simp [coeffs, Nat.ne_of_gt ht])
  have hhead := coeffs_head ht r
  rw [hcs] at hhead ⊢
  rw [eval_polyOf_cons, zero_mul, add_zero]
  exact Option.some.inj hhead

theorem dkgRound1_eq (ht : 0 < t) (r : Round1Random S) :
    dkgRound1 C id t r = some (honestParticipant C t id r, honestPok C id r) := by
  have hsecret := coeffs_head ht r
  have hcommit : ((coeffs t r).map (· • C.G)).head? = some (r.coefficient 0 • C.G) := by
    rw [List.head?_map, hsecret]
    rfl
  unfold coeffs at hsecret hcommit
  unfold dkgRound1
  simp only [hsecret, hcommit, Option.bind_eq_bind, Option.bind_some]
  rfl

theorem verifyPok_honest (r : Round1Random S) :
    verifyPok C id (r.coefficient 0 • C.G) (honestPok C id r) = true := by
  unfold verifyPok
  rw [beq_iff_eq, C.compress_inj]
  exact Sigma.Accepts.of_witness C.G (r.coefficient 0) r.nonce _

theorem eval_groupPoly (x : S) :
    (groupPoly t ids d).eval x = (ids.map fun id => (polyOf (coeffs t (d id))).eval x).sum := by
  unfold groupPoly
  induction ids with
  | nil => simp
  | cons id ids ih => simp [Polynomial.eval_add, ih]

theorem degree_groupPoly_lt : (groupPoly t ids d).degree < t := by
  unfold groupPoly
  induction ids with
  | nil => simp
  | cons id ids ih =>
      rw [List.map_cons, List.sum_cons]
      refine lt_of_le_of_lt (Polynomial.degree_add_le _ _) (max_lt ?_ ih)
      have h := degree_polyOf_lt (coeffs t (d id))
      simpa [coeffs] using h

/-- The keyset of participant `id` when the group shares `f`. -/
noncomputable def keysetOn (C : Suite S P) (t : Nat) (ids : List SignerId) (f : Polynomial S)
    (id : SignerId) : ThresholdKeyset S P where
  groupPublic := f.eval 0 • C.G
  threshold := t
  total := ids.length
  shares j := if j = id then some (Threshold.shareOn f id) else none
  publicShares j := if j ∈ ids then some (f.eval (Suite.scalarFromU64 j) • C.G) else none

/-- The commitments of the honest participants, in the order of `ids`. -/
def honestCommitments (C : Suite S P) (t : Nat) (ids : List SignerId)
    (d : SignerId → Round1Random S) : List (SignerId × List P) :=
  ids.map fun j => (j, (coeffs t (d j)).map (· • C.G))

/-- What the others send to `id`. -/
def sentTo (t : Nat) (ids : List SignerId) (d : SignerId → Round1Random S) (id : SignerId) :
    List (SignerId × S) :=
  (ids.filter (· ≠ id)).map fun j => (j, evaluatePoly (coeffs t (d j)) (Suite.scalarFromU64 id))

theorem checkPok_honest {allPoks : Keyed SignerId (ProofOfKnowledge S P)} (ht : 0 < t)
    (hp : ∀ j ∈ ids, AList.lookup j allPoks = some (honestPok C j (d j))) :
    (honestCommitments C t ids d).forM (checkPok C allPoks) = pure ⟨⟩ := by
  refine forM_eq_pure fun entry he => ?_
  obtain ⟨j, hj, rfl⟩ := List.mem_map.mp he
  unfold checkPok
  rw [hp j hj, List.head?_map, coeffs_head ht]
  show (if verifyPok C j (_ • C.G) (honestPok C j (d j)) = false then _ else _) = _
  rw [verifyPok_honest, if_neg (by decide)]

theorem checkShare_honest {allCommitments : Keyed SignerId (List P)}
    (hc : allCommitments.pairs = honestCommitments C t ids d) {l : List (SignerId × S)}
    (hl : ∀ e ∈ l, e ∈ sentTo t ids d id) :
    l.forM (checkShare C (honestParticipant C t id (d id)) allCommitments) = pure ⟨⟩ := by
  refine forM_eq_pure fun entry he => ?_
  obtain ⟨j, hj, rfl⟩ := List.mem_map.mp (hl entry he)
  have hlook : AList.lookup j allCommitments = some ((coeffs t (d j)).map (· • C.G)) := by
    rw [← Keyed.mem_pairs, hc]
    exact List.mem_map_of_mem (List.mem_filter.mp hj).1
  have hshare : C.compress (evaluatePoly (coeffs t (d j)) (Suite.scalarFromU64 id) • C.G) =
      C.compress (evaluatePolyPoints ((coeffs t (d j)).map (· • C.G))
        (Suite.scalarFromU64 id : S)) := by
    unfold evaluatePoly evaluatePolyPoints
    rw [powerSum_eq, powerSum_smul]
  unfold checkShare
  dsimp only
  rw [hlook]
  dsimp only
  rw [if_neg (by simp [honestParticipant, coeffs])]
  exact if_neg (fun h => h hshare)

omit [AddCommGroup P] [Module S P] in
theorem foldl_add (l : List S) : ∀ a : S, l.foldl (· + ·) a = a + l.sum := by
  induction l with
  | nil => simp
  | cons b l ih =>
      intro a
      rw [List.foldl_cons, ih, List.sum_cons, add_assoc]

/-- A participant's own value and the received ones add up to the group polynomial's. -/
theorem totalShare_eq (hnd : ids.Nodup) (hid : id ∈ ids) :
    (((sentTo t ids d id).reverse.map (·.2)).foldl (· + ·)
      (evaluatePoly (coeffs t (d id)) (Suite.scalarFromU64 id))) =
      (groupPoly t ids d).eval (Suite.scalarFromU64 id) := by
  have hfilter : ids.filter (· ≠ id) = ids.erase id := by
    rw [hnd.erase_eq_filter]
    refine List.filter_congr fun j _ => ?_
    simp [bne, Bool.beq_eq_decide_eq]
  rw [foldl_add, List.map_reverse, List.sum_reverse, eval_groupPoly]
  unfold sentTo evaluatePoly
  rw [hfilter, List.map_map]
  simp only [Function.comp_def, powerSum_eq]
  exact List.sum_map_erase (fun j => (polyOf (coeffs t (d j))).eval (Suite.scalarFromU64 id)) hid

/-- The committed polynomials at `x` add up to the group polynomial's point. -/
theorem publicShare_eq (x : S) :
    ((honestCommitments C t ids d).map fun p => evaluatePolyPoints p.2 x).sum =
      (groupPoly t ids d).eval x • C.G := by
  unfold honestCommitments evaluatePolyPoints
  rw [eval_groupPoly, List.sum_smul, List.map_map, List.map_map]
  simp only [Function.comp_def, powerSum_smul]

/-- The constant terms of the honest commitments. -/
theorem constants_honest (ht : 0 < t) :
    (honestCommitments C t ids d).mapM (fun p => p.2.head?) =
      some (ids.map fun j => (polyOf (coeffs t (d j))).eval 0 • C.G) := by
  have hhead : ∀ p ∈ honestCommitments C t ids d, p.2.head? =
      pure ((polyOf (coeffs t (d p.1))).eval 0 • C.G) := by
    intro p hp
    obtain ⟨j, _, rfl⟩ := List.mem_map.mp hp
    rw [List.head?_map, coeffs_head ht, eval_coeffs_zero ht]
    rfl
  rw [mapM_eq_pure hhead]
  unfold honestCommitments
  rw [List.map_map]
  rfl

/-- **Round 3 among honest participants**: everyone's value of the group polynomial. -/
theorem dkgRound3_honest {received : Keyed SignerId S} {allCommitments : Keyed SignerId (List P)}
    {allPoks : Keyed SignerId (ProofOfKnowledge S P)} (ht : 0 < t) (hnd : ids.Nodup)
    (hid : id ∈ ids) (hr : received.pairs = (sentTo t ids d id).reverse)
    (hc : allCommitments.pairs = honestCommitments C t ids d)
    (hp : ∀ j ∈ ids, AList.lookup j allPoks = some (honestPok C j (d j))) :
    dkgRound3 C (honestParticipant C t id (d id)) received allCommitments allPoks =
      pure (keysetOn C t ids (groupPoly t ids d) id) := by
  have hsum : (ids.map fun j => (polyOf (coeffs t (d j))).eval 0 • C.G).sum =
      (groupPoly t ids d).eval 0 • C.G := by
    rw [eval_groupPoly, List.sum_smul, List.map_map]
    rfl
  unfold dkgRound3
  dsimp only
  rw [hc, checkPok_honest ht hp, pure_bind, hr,
    checkShare_honest hc (fun e he => List.mem_reverse.mp he), pure_bind, constants_honest ht]
  have hmem : ∀ j, j ∈ allCommitments ↔ j ∈ ids := by
    intro j
    rw [Keyed.mem_iff, hc]
    simp [honestCommitments]
  have htotal := totalShare_eq (t := t) (d := d) hnd hid
  have hlift : (liftM (some (ids.map fun j => (polyOf (coeffs t (d j))).eval 0 • C.G)) :
      ExceptT DkgError Option (List P)) =
      pure (ids.map fun j => (polyOf (coeffs t (d j))).eval 0 • C.G) := rfl
  rw [hlift, pure_bind, hsum]
  unfold keysetOn honestParticipant
  dsimp only
  have hpub : (fun j => if j = id then
        some ((groupPoly t ids d).eval (Suite.scalarFromU64 id) • C.G)
      else if j ∈ allCommitments then
        some ((honestCommitments C t ids d).map fun p =>
          evaluatePolyPoints p.2 (Suite.scalarFromU64 j : S)).sum
      else none) = fun j =>
        if j ∈ ids then some ((groupPoly t ids d).eval (Suite.scalarFromU64 j) • C.G)
        else none := by
    funext j
    simp only [hmem, publicShare_eq]
    by_cases hj : j = id
    · rw [if_pos hj, hj, if_pos hid]
    · rw [if_neg hj]
  rw [htotal, hpub]
  simp only [honestCommitments, List.length_map]
  rfl

/-- The share participant `j` computes for `id`. -/
theorem lookup_dkgRound2 {j : SignerId} (hid : id ∈ ids) (hne : id ≠ j) :
    AList.lookup id (dkgRound2 (honestParticipant C t j (d j)) ids) =
      some (evaluatePoly (coeffs t (d j)) (Suite.scalarFromU64 id)) := by
  refine Keyed.lookup_table
    (fun target => evaluatePoly (coeffs t (d j)) (Suite.scalarFromU64 target)) ?_
  simp [hid, hne, honestParticipant]

/-- The shares that arrive at `target`. -/
theorem receivedFor_honest {target : SignerId} (htarget : target ∈ ids)
    {allShares : Keyed SignerId (Keyed SignerId S)}
    (hs : ∀ j ∈ ids, AList.lookup j allShares =
      some (dkgRound2 (honestParticipant C t j (d j)) ids)) :
    receivedFor allShares ids target = some (Keyed.ofPairs (sentTo t ids d target)) := by
  have hsent : ∀ j ∈ ids.filter (· ≠ target), (do
      let row ← AList.lookup j allShares
      let share ← AList.lookup target row
      some (j, share)) =
      pure (j, evaluatePoly (coeffs t (d j)) (Suite.scalarFromU64 target)) := by
    intro j hj
    obtain ⟨hjmem, hne⟩ := List.mem_filter.mp hj
    rw [hs j hjmem]
    show (AList.lookup target (dkgRound2 (honestParticipant C t j (d j)) ids)).bind _ = _
    rw [lookup_dkgRound2 htarget fun e => (of_decide_eq_true hne) e.symm]
    rfl
  unfold receivedFor
  rw [mapM_eq_pure hsent]
  rfl

/-- What an honest round 1 returns for everyone. -/
def honestFirsts (C : Suite S P) (t : Nat) (ids : List SignerId) (d : SignerId → Round1Random S) :
    List (DkgParticipant S P × ProofOfKnowledge S P) :=
  ids.map fun id => (honestParticipant C t id (d id), honestPok C id (d id))

/-- The pairs that arrive, each sender once. -/
theorem pairs_sentTo :
    (Keyed.ofPairs (sentTo t ids d id)).pairs = (sentTo t ids.dedup d id).reverse := by
  have h := Keyed.pairs_table_dedup (ids.filter (· ≠ id)) fun j =>
    evaluatePoly (coeffs t (d j)) (Suite.scalarFromU64 id)
  rw [Keyed.dedup_filter, ← Keyed.reverse_table] at h
  exact h

section Maps

variable (hnd : ids.Nodup)

include hnd

theorem pairs_participantsMap : (participantsMap (honestFirsts C t ids d)).pairs =
    Keyed.table ids.reverse fun id => honestParticipant C t id (d id) := by
  unfold participantsMap honestFirsts
  rw [List.map_map]
  exact Keyed.pairs_table hnd _

theorem pairs_commitmentsMap :
    (commitmentsMap (participantsMap (honestFirsts C t ids d))).pairs =
      honestCommitments C t ids d := by
  have h := Keyed.pairs_table (List.nodup_reverse.mpr hnd) fun id =>
    (coeffs t (d id)).map (· • C.G)
  rw [List.reverse_reverse] at h
  unfold commitmentsMap
  rw [pairs_participantsMap hnd]
  unfold Keyed.table at h ⊢
  rw [List.map_map]
  exact h

theorem lookup_sharesMap {participantIds : List SignerId} {j : SignerId} (hj : j ∈ ids) :
    AList.lookup j (sharesMap (participantsMap (honestFirsts C t ids d)) participantIds) =
      some (dkgRound2 (honestParticipant C t j (d j)) participantIds) := by
  unfold sharesMap
  rw [pairs_participantsMap hnd]
  unfold Keyed.table
  rw [List.map_map]
  exact Keyed.lookup_table
    (fun id => dkgRound2 (honestParticipant C t id (d id)) participantIds)
    (List.mem_reverse.mpr hj)

end Maps

theorem lookup_poksMap {j : SignerId} (hj : j ∈ ids) :
    AList.lookup j (poksMap (honestFirsts C t ids d)) = some (honestPok C j (d j)) := by
  unfold poksMap honestFirsts
  rw [List.map_map]
  exact Keyed.lookup_table (fun id => honestPok C id (d id)) hj

/-- Everyone's received shares, where the ids may be repeated. -/
theorem mapM_receivedFor : (ids.mapM fun target => do
      let row ← receivedFor (sharesMap (participantsMap (honestFirsts C t ids.dedup d)) ids) ids
        target
      some (target, row)) =
    some (Keyed.table ids fun target => Keyed.ofPairs (sentTo t ids d target)) := by
  refine mapM_eq_pure fun target htarget => ?_
  rw [receivedFor_honest (C := C) htarget fun j hj =>
    lookup_sharesMap ids.nodup_dedup (List.mem_dedup.mpr hj)]
  rfl

theorem mapM_dkgRound1 (ht : 0 < t) (rnd : Nat → Round1Random S) :
    (ids.zipIdx.mapM fun p => dkgRound1 C p.1 t (rnd p.2)) = some (ids.zipIdx.map fun p =>
      (honestParticipant C t p.1 (rnd p.2), honestPok C p.1 (rnd p.2))) :=
  mapM_eq_pure fun p _ => dkgRound1_eq ht (rnd p.2)

/-- The draw that is kept of a participant: that of the last occurrence of its id. -/
def keptDraw (ids : List SignerId) (rnd : Nat → Round1Random S) (id : SignerId) :
    Round1Random S :=
  rnd (Keyed.lastIdx ids id)

/-- **Of repeated ids one participant is left**, that of the last occurrence. -/
theorem maps_of_round1 (C : Suite S P) (t : Nat) (ids : List SignerId)
    (rnd : Nat → Round1Random S) :
    participantsMap (ids.zipIdx.map fun p =>
        (honestParticipant C t p.1 (rnd p.2), honestPok C p.1 (rnd p.2))) =
      participantsMap (honestFirsts C t ids.dedup (keptDraw ids rnd)) ∧
    poksMap (ids.zipIdx.map fun p =>
        (honestParticipant C t p.1 (rnd p.2), honestPok C p.1 (rnd p.2))) =
      poksMap (honestFirsts C t ids.dedup (keptDraw ids rnd)) := by
  unfold participantsMap poksMap honestFirsts
  rw [List.map_map, List.map_map, List.map_map, List.map_map]
  exact ⟨Keyed.ofPairs_zipIdx ids fun id i => honestParticipant C t id (rnd i),
    Keyed.ofPairs_zipIdx ids fun id i => honestPok C id (rnd i)⟩

theorem runDkg_invalid (h : ¬ (1 ≤ t ∧ t ≤ ids.length)) (rnd : Nat → Round1Random S) :
    runDkg C t ids rnd = throw (.invalidParams t ids.length) := by
  unfold runDkg
  dsimp only
  rw [if_pos (by omega)]
  rfl

/-- **A run succeeds** for `1 ≤ threshold ≤ total`, and each of the distinct participants holds
    its value of one polynomial of degree below the threshold. -/
theorem runDkg_eq (ht : 1 ≤ t) (htn : t ≤ ids.length) (rnd : Nat → Round1Random S) :
    runDkg C t ids rnd = pure (Keyed.ofPairs (Keyed.table ids.dedup.reverse
      (keysetOn C t ids.dedup (groupPoly t ids.dedup (keptDraw ids rnd))))) := by
  let ks := ids.dedup
  let d : SignerId → Round1Random S := keptDraw ids rnd
  have hnd : ks.Nodup := ids.nodup_dedup
  have hlift : ∀ {α : Type} (a : α), (liftM (some a) : ExceptT DkgError Option α) = pure a :=
    fun _ => rfl
  have hlens : ((honestCommitments C t ks d).forM fun p => if p.2.length ≠ t then
      throw (DkgError.invalidCommitmentLength p.1 t p.2.length) else pure ⟨⟩) =
      (pure ⟨⟩ : ExceptT DkgError Option PUnit) := by
    refine forM_eq_pure fun p hp => if_neg ?_
    obtain ⟨j, _, rfl⟩ := List.mem_map.mp hp
    simp [coeffs]
  have hpoks : ∀ j ∈ ks, AList.lookup j (poksMap (honestFirsts C t ks d)) =
      some (honestPok C j (d j)) := fun j hj => lookup_poksMap hj
  have hround3 : ∀ p ∈ Keyed.table ks.reverse fun id => honestParticipant C t id (d id), (do
      let row ← liftM (AList.lookup p.1 (Keyed.ofPairs (Keyed.table ids fun target =>
        Keyed.ofPairs (sentTo t ids d target))))
      let keyset ← dkgRound3 C p.2 row
        (commitmentsMap (participantsMap (honestFirsts C t ks d)))
        (poksMap (honestFirsts C t ks d))
      pure (p.1, keyset)) =
      (pure (p.1, keysetOn C t ks (groupPoly t ks d) p.1) :
        ExceptT DkgError Option (SignerId × ThresholdKeyset S P)) := by
    intro p hp
    obtain ⟨id, hid, rfl⟩ := List.mem_map.mp hp
    have hid' := List.mem_reverse.mp hid
    dsimp only
    rw [Keyed.lookup_table _ (List.mem_dedup.mp hid'), hlift, pure_bind,
      dkgRound3_honest ht hnd hid' pairs_sentTo (pairs_commitmentsMap hnd) hpoks, pure_bind]
  obtain ⟨hparticipants, hproofs⟩ := maps_of_round1 C t ids rnd
  unfold runDkg
  dsimp only
  rw [if_neg (by omega), mapM_dkgRound1 ht, hlift, pure_bind, hparticipants, hproofs,
    pairs_commitmentsMap hnd, hlens, pure_bind, checkPok_honest ht hpoks, pure_bind,
    mapM_receivedFor, hlift, pure_bind, pairs_participantsMap hnd, mapM_eq_pure hround3, pure_bind]
  unfold Keyed.table
  rw [List.map_map]
  rfl

/-- With distinct ids no draw is dropped. -/
theorem runDkg_ok (ht : 1 ≤ t) (htn : t ≤ ids.length) (hnd : ids.Nodup)
    (rnd : Nat → Round1Random S) :
    runDkg C t ids rnd = pure (Keyed.ofPairs (Keyed.table ids.reverse
      (keysetOn C t ids (groupPoly t ids fun id => rnd (ids.idxOf id))))) := by
  have hdraws : groupPoly t ids (keptDraw ids rnd) =
      groupPoly t ids fun id => rnd (ids.idxOf id) := by
    unfold groupPoly keptDraw
    refine congrArg List.sum (List.map_congr_left fun id hid => ?_)
    rw [Keyed.lastIdx_of_nodup hnd hid]
  rw [runDkg_eq ht htn, hnd.dedup, hdraws]

/-- The keyset a participant holds after a run. -/
theorem lookup_runDkg (f : Polynomial S) (hid : id ∈ ids) :
    AList.lookup id (Keyed.ofPairs (Keyed.table ids.reverse (keysetOn C t ids f))) =
      some (keysetOn C t ids f id) :=
  Keyed.lookup_table _ (List.mem_reverse.mpr hid)

/-- **The key generation is correct.** For `1 ≤ threshold ≤ total`, distinct ids and whatever is
    drawn, the run succeeds and gives every participant a keyset. All keysets have one group key,
    and for every participant the public share that is its share times the base point; and the
    shares of any `threshold` participants or more give one secret back, whose key is the group
    key. -/
theorem dkg_correct [DecidableEq S] (C : Suite S P) (t : Nat) (ids : List SignerId) (ht : 1 ≤ t)
    (htn : t ≤ ids.length) (hnd : ids.Nodup) (rnd : Nat → Round1Random S) :
    ∃ keysets, runDkg C t ids rnd = pure keysets ∧ (∀ id, id ∈ keysets ↔ id ∈ ids) ∧
      ∃ (secret : S) (share : SignerId → Share S),
        (∀ id ∈ ids, ∃ keyset, AList.lookup id keysets = some keyset ∧
          keyset.groupPublic = secret • C.G ∧ keyset.threshold = t ∧ keyset.total = ids.length ∧
          keyset.shares id = some (share id) ∧
          ∀ j ∈ ids, keyset.publicShares j = some ((share j).y • C.G)) ∧
        ∀ who : List SignerId, who.Nodup → (∀ j ∈ who, j ∈ ids) → t ≤ who.length →
          Shamir.reconstructSecret (who.map share) = some secret := by
  let f := groupPoly t ids fun id => rnd (ids.idxOf id)
  refine ⟨_, runDkg_ok ht htn hnd rnd, fun id => ?_, f.eval 0, Threshold.shareOn f,
    fun id hid => ⟨_, lookup_runDkg f hid, rfl, rfl, rfl, if_pos rfl, fun j hj => if_pos hj⟩,
    fun who hwho _ hlen => ?_⟩
  · rw [Keyed.mem_iff, Keyed.pairs_table (List.nodup_reverse.mpr hnd), Keyed.map_fst_table,
      List.reverse_reverse]
  · refine Threshold.reconstructSecret_shareOn C hwho ?_ ?_
    · exact List.ne_nil_of_length_pos (Nat.lt_of_lt_of_le ht hlen)
    · exact lt_of_lt_of_le degree_groupPoly_lt (by exact_mod_cast hlen)

/-- Three participants, any two of whom share the secret. -/
theorem dkg_correct_two_of_three :
    ∃ keysets, runDkg sampleSuite 2 [5, 2, 9] (fun i => ⟨fun j => i + 3 * j + 4, i + 7⟩) =
        pure keysets ∧
      ∃ (secret : SampleScalar) (share : SignerId → Share SampleScalar),
        Shamir.reconstructSecret [share 9, share 5] = some secret ∧
        ∃ keyset, AList.lookup 2 keysets = some keyset ∧
          keyset.groupPublic = secret • sampleSuite.G := by
  obtain ⟨keysets, hrun, _, secret, share, hall, hback⟩ :=
    dkg_correct sampleSuite 2 [5, 2, 9] (by decide) (by decide) (by decide)
      fun i => ⟨fun j => i + 3 * j + 4, i + 7⟩
  obtain ⟨keyset, hlook, hpub, _⟩ := hall 2 (by decide)
  exact ⟨keysets, hrun, secret, share, hback [9, 5] (by decide) (by simp) (by decide), keyset,
    hlook, hpub⟩

end Dkg

end Specter
