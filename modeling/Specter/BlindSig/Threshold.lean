/-
  File:      Specter/BlindSig/Threshold.lean
  Subject:   THRESHOLD BLIND SIGNING (specter-blind-sig/src/threshold.rs).

  `thresholdBlindSign` runs the whole protocol in one process: the checks on the signer list
  in the source's order, one nonce per signer, Lagrange weights, blinding, partial responses,
  unblinding. What it draws at random is the argument `SignRandom`. `thresholdClauseBlindSign`
  does the same with two nonces per signer.

  * `ThresholdKeyset.Sound` -- the shares lie on a polynomial of degree below the threshold;
  * `checkSigners_iff` -- the signer lists that pass;
  * `thresholdBlindSign_verifies`, `thresholdClauseBlindSign_verifies` -- with a sound keyset,
    enough distinct known signers sign;
  * `threshold_signing_correct` -- and every other list is refused;
  * `dealerKeygen`, `dealerKeygen_sound` -- a dealer's keyset is sound.
-/
import Specter.BlindSig.ClauseBlind
import Specter.Primitives.Shamir

namespace Specter

open Lib Lib.Sharing

variable {S P : Type} [Field S] [AddCommGroup P] [Module S P]

abbrev SignerId := UInt64

structure ThresholdKeyset (S P : Type) where
  groupPublic : P
  threshold : Nat
  total : Nat
  shares : SignerId → Option (Share S)
  publicShares : SignerId → Option P

inductive ThresholdError where
  | insufficientSigners (needed got : Nat)
  | unknownSigner (id : SignerId)
  | duplicateSigner (id : SignerId)
  deriving DecidableEq

def ThresholdError.display : ThresholdError → String
  | .insufficientSigners needed got =>
      "insufficient signers: need " ++ toString needed ++ ", got " ++ toString got
  | .unknownSigner id => "unknown signer ID: " ++ toString id
  | .duplicateSigner id => "duplicate signer ID: " ++ toString id

/-- What one threshold signing draws: a nonce for each position of the signer list and the
    requester's blinding factors. -/
structure SignRandom (S : Type) where
  nonce : Nat → S
  factors : BlindingFactors S

namespace Threshold

/-- The loop over the signer list: every id known and none seen before. -/
def checkSigners (keyset : ThresholdKeyset S P) :
    List SignerId → List SignerId → Option ThresholdError
  | _, [] => none
  | seen, id :: ids =>
      if (keyset.shares id).isNone then some (.unknownSigner id)
      else if id ∈ seen then some (.duplicateSigner id)
      else checkSigners keyset (id :: seen) ids

/-- `keyset.shares[&id]`, read only for ids `checkSigners` has found. -/
def shareOf (keyset : ThresholdKeyset S P) (id : SignerId) : Share S :=
  (keyset.shares id).getD ⟨0, 0⟩

/-- `lambda_i = product_{j != i} (0 - x_j) / (x_i - x_j)` over the signer list. -/
def lagrangeCoefficient (keyset : ThresholdKeyset S P) (signerIds : List SignerId)
    (i : SignerId) : S :=
  let xi := (shareOf keyset i).x
  ((signerIds.filter (· ≠ i)).map fun j =>
    -(shareOf keyset j).x * (xi - (shareOf keyset j).x)⁻¹).prod

def thresholdBlindSign (C : Suite S P) (keyset : ThresholdKeyset S P)
    (signerIds : List SignerId) (message : Bytes) (rnd : SignRandom S) :
    Except ThresholdError (BlindSignature S) :=
  if signerIds.length < keyset.threshold then
    .error (.insufficientSigners keyset.threshold signerIds.length)
  else
    match checkSigners keyset [] signerIds with
    | some e => .error e
    | none =>
        let sessions := signerIds.zipIdx.map fun p => (p.1, rnd.nonce p.2)
        let weight := lagrangeCoefficient keyset signerIds
        let weightedR := (sessions.map fun p => weight p.1 • (p.2 • C.G)).sum
        let blinded := SchnorrBlind.blindChallenge C rnd.factors weightedR
          keyset.groupPublic message
        let sPrime := (sessions.map fun p =>
          weight p.1 * (p.2 + blinded * (shareOf keyset p.1).y)).sum
        .ok (SchnorrBlind.unblindSignature C sPrime rnd.factors weightedR
          keyset.groupPublic message)

/-- What one threshold clause signing draws: two nonces for each position of the signer list and
    the requester's choice and factors. -/
structure ClauseSignRandom (S : Type) where
  nonce0 : Nat → S
  nonce1 : Nat → S
  clause : ClauseRandom S

def thresholdClauseBlindSign (C : Suite S P) (keyset : ThresholdKeyset S P)
    (signerIds : List SignerId) (message : Bytes) (rnd : ClauseSignRandom S) :
    Except ThresholdError (BlindSignature S) :=
  if signerIds.length < keyset.threshold then
    .error (.insufficientSigners keyset.threshold signerIds.length)
  else
    match checkSigners keyset [] signerIds with
    | some e => .error e
    | none =>
        let sessions0 := signerIds.zipIdx.map fun p => (p.1, rnd.nonce0 p.2)
        let sessions1 := signerIds.zipIdx.map fun p => (p.1, rnd.nonce1 p.2)
        let weight := lagrangeCoefficient keyset signerIds
        let r0 := (sessions0.map fun p => weight p.1 • (p.2 • C.G)).sum
        let r1 := (sessions1.map fun p => weight p.1 • (p.2 • C.G)).sum
        let (factors, e0, e1) := ClauseBlind.clauseBlindChallenge C rnd.clause r0 r1
          keyset.groupPublic message
        let s0 := (sessions0.map fun p =>
          weight p.1 * (p.2 + e0 * (shareOf keyset p.1).y)).sum
        let s1 := (sessions1.map fun p =>
          weight p.1 * (p.2 + e1 * (shareOf keyset p.1).y)).sum
        .ok (ClauseBlind.clauseUnblind C s0 s1 factors r0 r1 keyset.groupPublic message)

/-! ## Correctness -/

/-- The shares of the keyset lie on `f`, of degree below the threshold, at distinct nodes, and
    the group key is the key of `f 0`. -/
structure Sound (C : Suite S P) (keyset : ThresholdKeyset S P) (f : Polynomial S) : Prop where
  degree : f.degree < keyset.threshold
  share : ∀ id s, keyset.shares id = some s → s.y = f.eval s.x
  distinct : ∀ id id' s s', keyset.shares id = some s → keyset.shares id' = some s' →
    s.x = s'.x → id = id'
  groupPublic : keyset.groupPublic = f.eval 0 • C.G

variable {C : Suite S P} {keyset : ThresholdKeyset S P} {signers : List SignerId}

omit [Field S] [AddCommGroup P] [Module S P] in
/-- **The signer lists that pass**: every id known, none seen before. -/
theorem checkSigners_iff (ids : List SignerId) : ∀ seen : List SignerId,
    checkSigners keyset seen ids = none ↔
      (∀ id ∈ ids, (keyset.shares id).isSome) ∧ ids.Nodup ∧ ∀ id ∈ ids, id ∉ seen := by
  induction ids with
  | nil =>
      intro seen
      simp [checkSigners]
  | cons id ids ih =>
      intro seen
      unfold checkSigners
      cases hid : keyset.shares id with
      | none => simp [hid]
      | some s =>
          by_cases hseen : id ∈ seen
          · simp [hid, hseen]
          · rw [if_neg (by simp), if_neg hseen, ih (id :: seen)]
            simp only [List.mem_cons, List.nodup_cons, not_or, forall_eq_or_imp, hid]
            constructor
            · rintro ⟨hknown, hnd, hnot⟩
              exact ⟨⟨rfl, hknown⟩, ⟨fun hmem => (hnot id hmem).1 rfl, hnd⟩, hseen,
                fun j hj => (hnot j hj).2⟩
            · rintro ⟨⟨_, hknown⟩, ⟨hid', hnd⟩, _, hnot⟩
              exact ⟨hknown, hnd, fun j hj => ⟨fun e => hid' (e ▸ hj), hnot j hj⟩⟩

/-- The signers' shares, weighted, add up to the group secret. -/
theorem sum_shares {f : Polynomial S} (hs : Sound C keyset f) (hnd : signers.Nodup)
    (hknown : ∀ id ∈ signers, (keyset.shares id).isSome)
    (hlen : keyset.threshold ≤ signers.length) :
    (signers.map fun id => lagrangeCoefficient keyset signers id * (shareOf keyset id).y).sum =
      f.eval 0 := by
  have hget : ∀ id ∈ signers, keyset.shares id = some (shareOf keyset id) := by
    intro id hid
    obtain ⟨s, hs⟩ := Option.isSome_iff_exists.mp (hknown id hid)
    unfold shareOf
    rw [hs]
    rfl
  have hsum := sum_weightAtZero (v := fun id => (shareOf keyset id).x) hnd
    (fun i hi j hj h => hs.distinct i j _ _ (hget i hi) (hget j hj) h)
    (lt_of_lt_of_le hs.degree (by exact_mod_cast hlen))
  rw [← hsum]
  refine congrArg List.sum (List.map_congr_left fun id hid => ?_)
  rw [hs.share id _ (hget id hid)]
  rfl

/-- The weighted responses to the challenge `e` are the weighted nonces and `e` times the
    weighted shares. -/
theorem sum_responses (weight y : SignerId → S) (e : S) (sessions : List (SignerId × S)) :
    (sessions.map fun p => weight p.1 * (p.2 + e * y p.1)).sum • C.G =
      (sessions.map fun p => weight p.1 • (p.2 • C.G)).sum +
        (e * (sessions.map fun p => weight p.1 * y p.1).sum) • C.G := by
  induction sessions with
  | nil => simp
  | cons p sessions ih =>
      rw [List.map_cons, List.sum_cons, add_smul, ih]
      simp only [List.map_cons, List.sum_cons, mul_add, add_smul, smul_smul, mul_left_comm]
      abel

/-- The weighted responses of enough distinct known signers answer the challenge `e` under the
    group key, for the weighted nonces. -/
theorem responses_accepted {f : Polynomial S} (hs : Sound C keyset f)
    (hlen : keyset.threshold ≤ signers.length) (hnd : signers.Nodup)
    (hknown : ∀ id ∈ signers, (keyset.shares id).isSome) (nonce : Nat → S) (e : S) :
    Sigma.Accepts C.G keyset.groupPublic
      ((signers.zipIdx.map fun p => (p.1, nonce p.2)).map fun p =>
        lagrangeCoefficient keyset signers p.1 • (p.2 • C.G)).sum e
      ((signers.zipIdx.map fun p => (p.1, nonce p.2)).map fun p =>
        lagrangeCoefficient keyset signers p.1 * (p.2 + e * (shareOf keyset p.1).y)).sum := by
  have hfst : (signers.zipIdx.map fun p => (p.1, nonce p.2)).map (·.1) = signers := by
    rw [List.map_map]
    exact List.zipIdx_map_fst 0 signers
  have hshares : ((signers.zipIdx.map fun p => (p.1, nonce p.2)).map fun p =>
      lagrangeCoefficient keyset signers p.1 * (shareOf keyset p.1).y).sum = f.eval 0 := by
    have hsum := sum_shares hs hnd hknown hlen
    nth_rewrite 2 [← hfst] at hsum
    rwa [List.map_map] at hsum
  refine (sum_responses (lagrangeCoefficient keyset signers) (fun id => (shareOf keyset id).y)
    _ _).trans ?_
  rw [hshares, mul_smul, hs.groupPublic]

/-- **Enough distinct known signers of a sound keyset sign**, whatever is drawn. -/
theorem thresholdBlindSign_verifies {f : Polynomial S} (hs : Sound C keyset f)
    (hlen : keyset.threshold ≤ signers.length) (hnd : signers.Nodup)
    (hknown : ∀ id ∈ signers, (keyset.shares id).isSome) (message : Bytes) (rnd : SignRandom S) :
    ∃ sig, thresholdBlindSign C keyset signers message rnd = .ok sig ∧
      SchnorrBlind.verify C keyset.groupPublic message sig = true := by
  have hcheck : checkSigners keyset [] signers = none :=
    (checkSigners_iff signers []).mpr ⟨hknown, hnd, fun _ _ => List.not_mem_nil⟩
  unfold thresholdBlindSign
  rw [if_neg (Nat.not_lt.mpr hlen), hcheck]
  exact ⟨_, rfl, SchnorrBlind.verify_unblind
    (responses_accepted hs hlen hnd hknown rnd.nonce _)⟩

/-- **They sign with two nonces each too**, for either choice of the requester. -/
theorem thresholdClauseBlindSign_verifies {f : Polynomial S} (hs : Sound C keyset f)
    (hlen : keyset.threshold ≤ signers.length) (hnd : signers.Nodup)
    (hknown : ∀ id ∈ signers, (keyset.shares id).isSome) (message : Bytes)
    (rnd : ClauseSignRandom S) :
    ∃ sig, thresholdClauseBlindSign C keyset signers message rnd = .ok sig ∧
      ClauseBlind.verify C keyset.groupPublic message sig = true := by
  have hcheck : checkSigners keyset [] signers = none :=
    (checkSigners_iff signers []).mpr ⟨hknown, hnd, fun _ _ => List.not_mem_nil⟩
  unfold thresholdClauseBlindSign
  rw [if_neg (Nat.not_lt.mpr hlen), hcheck]
  exact ⟨_, rfl, ClauseBlind.verify_clauseUnblind
    (responses_accepted hs hlen hnd hknown rnd.nonce0 _)
    (responses_accepted hs hlen hnd hknown rnd.nonce1 _)⟩

/-- The signer lists neither signing function takes: too short, or with an id that is unknown or
    comes twice. -/
def Refused (keyset : ThresholdKeyset S P) (signers : List SignerId) : Prop :=
  signers.length < keyset.threshold ∨ (∃ id ∈ signers, keyset.shares id = none) ∨ ¬ signers.Nodup

omit [Field S] [AddCommGroup P] [Module S P] in
theorem not_refused_iff : ¬ Refused keyset signers ↔
    keyset.threshold ≤ signers.length ∧ signers.Nodup ∧
      ∀ id ∈ signers, (keyset.shares id).isSome := by
  unfold Refused
  rw [not_or, not_or, Nat.not_lt, not_not]
  constructor
  · rintro ⟨hlen, hknown, hnd⟩
    exact ⟨hlen, hnd, fun id hid => Option.isSome_iff_ne_none.mpr fun h => hknown ⟨id, hid, h⟩⟩
  · rintro ⟨hlen, hnd, hknown⟩
    exact ⟨hlen, fun ⟨id, hid, h⟩ => Option.isSome_iff_ne_none.mp (hknown id hid) h, hnd⟩

omit [Field S] [AddCommGroup P] [Module S P] in
/-- The checks both functions make first: a signature comes only from a list that is not
    refused. -/
theorem gate_ok_inv {r sig : BlindSignature S}
    (h : (if signers.length < keyset.threshold then
        .error (.insufficientSigners keyset.threshold signers.length)
      else match checkSigners keyset [] signers with
        | some e => .error e
        | none => .ok r : Except ThresholdError (BlindSignature S)) = .ok sig) :
    keyset.threshold ≤ signers.length ∧ signers.Nodup ∧
      ∀ id ∈ signers, (keyset.shares id).isSome := by
  split at h
  · cases h
  · rename_i hlen
    split at h
    · cases h
    · rename_i hcheck
      obtain ⟨hknown, hnd, _⟩ := (checkSigners_iff signers []).mp hcheck
      exact ⟨Nat.not_lt.mp hlen, hnd, hknown⟩

/-- The signer lists that sign are long enough, without repetition and known. -/
theorem thresholdBlindSign_ok_inv {message : Bytes} {rnd : SignRandom S} {sig : BlindSignature S}
    (h : thresholdBlindSign C keyset signers message rnd = .ok sig) :
    keyset.threshold ≤ signers.length ∧ signers.Nodup ∧
      ∀ id ∈ signers, (keyset.shares id).isSome :=
  gate_ok_inv h

omit [Field S] [AddCommGroup P] [Module S P] in
/-- A result that is a signature only for lists that are taken, and one with the property `V`
    for each of those, is an error exactly for the others. -/
theorem error_iff_refused {r : Except ThresholdError (BlindSignature S)}
    {V : BlindSignature S → Prop} (hok : ∀ sig, r = .ok sig → ¬ Refused keyset signers)
    (hsign : ¬ Refused keyset signers → ∃ sig, r = .ok sig ∧ V sig) :
    ((∃ e, r = .error e) ↔ Refused keyset signers) ∧
      (¬ Refused keyset signers → ∃ sig, r = .ok sig ∧ V sig) := by
  refine ⟨?_, hsign⟩
  constructor
  · rintro ⟨e, rfl⟩
    refine Classical.byContradiction fun h => ?_
    obtain ⟨sig, hsig, _⟩ := hsign h
    cases hsig
  · intro h
    cases r with
    | error e => exact ⟨e, rfl⟩
    | ok sig => exact absurd h (hok sig rfl)

/-- **Threshold blind signing is correct.** With shares on a polynomial of degree below the
    threshold, either function refuses exactly the lists that are too short or have an unknown
    or repeated id, and signs with the others: whatever the nonces, the blinding factors and the
    requester's choice, its own verifier accepts the signature under the group key. -/
theorem threshold_signing_correct {f : Polynomial S} (hs : Sound C keyset f)
    (signers : List SignerId) (message : Bytes) :
    (∀ rnd : SignRandom S,
      ((∃ e, thresholdBlindSign C keyset signers message rnd = .error e) ↔
        Refused keyset signers) ∧
      (¬ Refused keyset signers → ∃ sig, thresholdBlindSign C keyset signers message rnd = .ok sig ∧
        SchnorrBlind.verify C keyset.groupPublic message sig = true)) ∧
    ∀ rnd : ClauseSignRandom S,
      ((∃ e, thresholdClauseBlindSign C keyset signers message rnd = .error e) ↔
        Refused keyset signers) ∧
      (¬ Refused keyset signers →
        ∃ sig, thresholdClauseBlindSign C keyset signers message rnd = .ok sig ∧
          ClauseBlind.verify C keyset.groupPublic message sig = true) := by
  refine ⟨fun rnd => error_iff_refused (fun sig h => ?_) fun h => ?_,
    fun rnd => error_iff_refused (fun sig h => ?_) fun h => ?_⟩
  · exact not_refused_iff.mpr (thresholdBlindSign_ok_inv h)
  · obtain ⟨hlen, hnd, hknown⟩ := not_refused_iff.mp h
    exact thresholdBlindSign_verifies hs hlen hnd hknown message rnd
  · exact not_refused_iff.mpr (gate_ok_inv h)
  · obtain ⟨hlen, hnd, hknown⟩ := not_refused_iff.mp h
    exact thresholdClauseBlindSign_verifies hs hlen hnd hknown message rnd

/-! ## The dealer -/

/-- What the dealer draws: the group secret and the coefficients that hide it. -/
structure DealerRandom (S : Type) where
  groupSecret : S
  coefficient : Nat → S

/-- `dealer_keygen`; `none` where `split_secret` refuses the parameters (`expect`). The share at
    position `i` goes to the signer `i + 1`. -/
def dealerKeygen (C : Suite S P) (threshold total : Nat) (rnd : DealerRandom S) :
    Option (ThresholdKeyset S P) :=
  match Shamir.splitSecret rnd.groupSecret threshold total rnd.coefficient with
  | .error _ => none
  | .ok shamirShares =>
      let share : SignerId → Option (Share S) := fun id =>
        if id = 0 then none else shamirShares[id.toNat - 1]?
      some
        { groupPublic := rnd.groupSecret • C.G
          threshold := threshold
          total := total
          shares := share
          publicShares := fun id => (share id).map fun s => s.y • C.G }

/-- The share of signer `id` on the polynomial `f`. -/
noncomputable def shareOn (f : Polynomial S) (id : SignerId) : Share S where
  x := Suite.scalarFromU64 id
  y := f.eval (Suite.scalarFromU64 id)

/-- Shares of distinct signers on a polynomial give its value at 0 back. -/
theorem reconstructSecret_shareOn [DecidableEq S] (C : Suite S P) {f : Polynomial S}
    {who : List SignerId} (hnd : who.Nodup) (hne : who ≠ []) (hdeg : f.degree < who.length) :
    Shamir.reconstructSecret (who.map (shareOn f)) = some (f.eval 0) := by
  refine Shamir.reconstructSecret_eq (fun h => hne (List.map_eq_nil_iff.mp h)) ?_ ?_ ?_
  · rw [List.map_map]
    exact hnd.map fun i j h => C.u64_inj i j h
  · intro s hs
    obtain ⟨id, _, rfl⟩ := List.mem_map.mp hs
    rfl
  · rwa [List.length_map]

/-- What the dealer hands out: to each of the signers `1, …, total` its share on the polynomial
    that hides the group secret. -/
theorem dealerKeygen_some {threshold total : Nat} {rnd : DealerRandom S}
    (h : dealerKeygen C threshold total rnd = some keyset) :
    1 ≤ threshold ∧ threshold ≤ total ∧ keyset.threshold = threshold ∧
      keyset.groupPublic = rnd.groupSecret • C.G ∧
      ∀ id, keyset.shares id = if id ≠ 0 ∧ id.toNat ≤ total then
        some (shareOn (Shamir.sharingPoly rnd.groupSecret threshold rnd.coefficient) id)
        else none := by
  unfold dealerKeygen at h
  split at h
  · cases h
  · rename_i shares hsplit
    obtain ⟨⟨ht, htn⟩, rfl⟩ := Shamir.splitSecret_ok.mp hsplit
    cases h
    refine ⟨ht, htn, rfl, rfl, fun id => ?_⟩
    dsimp only
    by_cases h0 : id = 0
    · simp [h0]
    · -- position `id - 1` holds the value at `id`
      have hpos : 0 < id.toNat := Nat.pos_of_ne_zero fun e => h0 (UInt64.toNat_inj.mp e)
      have hid : UInt64.ofNat (id.toNat - 1 + 1) = id := by
        rw [Nat.sub_add_cancel hpos, UInt64.ofNat_toNat]
      rw [if_neg h0, List.getElem?_map]
      rcases Nat.lt_or_ge (id.toNat - 1) total with hlt | hge
      · rw [List.getElem?_range hlt, if_pos ⟨h0, by omega⟩, Option.map_some, hid]
        rfl
      · rw [List.getElem?_eq_none (by simpa using hge), if_neg (by omega)]
        rfl

/-- A keyset that holds the shares of its ids on `f` is sound. -/
theorem sound_of_shareOn {f : Polynomial S} (hdeg : f.degree < keyset.threshold)
    (hpub : keyset.groupPublic = f.eval 0 • C.G)
    (hshare : ∀ id s, keyset.shares id = some s → s = shareOn f id) : Sound C keyset f := by
  refine ⟨hdeg, fun id s hs => ?_, fun id id' s s' hs hs' hx => ?_, hpub⟩
  · rw [hshare id s hs]
    rfl
  · rw [hshare id s hs, hshare id' s' hs'] at hx
    exact C.u64_inj _ _ hx

/-- **A dealer's keyset is sound.** -/
theorem dealerKeygen_sound {threshold total : Nat} {rnd : DealerRandom S}
    (h : dealerKeygen C threshold total rnd = some keyset) :
    Sound C keyset (Shamir.sharingPoly rnd.groupSecret threshold rnd.coefficient) := by
  obtain ⟨ht, _, hthr, hpub, hshares⟩ := dealerKeygen_some h
  refine sound_of_shareOn ?_ ?_ fun id s hs => ?_
  · rw [hthr]
    exact Shamir.degree_sharingPoly_lt _ ht _
  · rw [hpub, Shamir.sharingPoly_zero]
  · rw [hshares id] at hs
    split at hs
    · exact (Option.some.inj hs).symm
    · cases hs

/-- Two of a dealer's three signers sign, in either scheme; one signer twice does not. -/
theorem dealer_signing_two_of_three :
    ∃ keyset, dealerKeygen (P := SamplePoint) sampleSuite 2 3 ⟨7, fun i => i + 9⟩ = some keyset ∧
      (∃ sig, thresholdBlindSign sampleSuite keyset [3, 1] [1, 2] ⟨fun i => i + 4, 5, 6⟩ = .ok sig ∧
        SchnorrBlind.verify sampleSuite keyset.groupPublic [1, 2] sig = true) ∧
      (∃ sig, thresholdClauseBlindSign sampleSuite keyset [3, 1] [1, 2]
          ⟨fun i => i + 4, fun i => i + 8, true, 5, 6, 3⟩ = .ok sig ∧
        ClauseBlind.verify sampleSuite keyset.groupPublic [1, 2] sig = true) ∧
      ∃ e, thresholdBlindSign sampleSuite keyset [1, 1] [1, 2] ⟨fun i => i + 4, 5, 6⟩ =
        .error e := by
  have hrun : ((dealerKeygen (P := SamplePoint) sampleSuite 2 3 ⟨7, fun i => i + 9⟩).map
      fun keyset => decide (keyset.threshold = 2 ∧ (keyset.shares 3).isSome ∧
        (keyset.shares 1).isSome)) = some true := by
    decide +kernel
  obtain ⟨keyset, hkeys, hfacts⟩ := Option.map_eq_some_iff.mp hrun
  obtain ⟨hthr, hthree, hfirst⟩ := of_decide_eq_true hfacts
  have htaken : ¬ Refused keyset [3, 1] := by
    refine not_refused_iff.mpr ⟨by simp [hthr], by decide, ?_⟩
    simp [hthree, hfirst]
  have htwice : Refused keyset [1, 1] := .inr (.inr (by decide))
  have hcorrect := threshold_signing_correct (dealerKeygen_sound hkeys) [3, 1] [1, 2]
  exact ⟨keyset, hkeys, (hcorrect.1 _).2 htaken, (hcorrect.2 _).2 htaken,
    ((threshold_signing_correct (dealerKeygen_sound hkeys) [1, 1] [1, 2]).1 _).1.mpr htwice⟩

end Threshold

end Specter
