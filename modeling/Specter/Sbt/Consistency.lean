/-
  File:      Specter/Sbt/Consistency.lean
  Subject:   WHETHER IT MATTERS WHICH QUORUM ANSWERED, over every configuration `new` accepts.

  * `QuorumsAgree`, `NullifiersAgree` -- every quorum stands for the public key, and the nullifier
    of a payload does not tell which one answered;
  * `quorums_agree_iff` -- exactly when the commitments lie on one curve: `new` compares the first
    quorum with the second one only;
  * `stray_trustee_accepted` -- a configuration it lets through.
-/
import Specter.Sbt.Spend

namespace Specter

open Lib Lib.Sharing Lib.Checks

variable {S P : Type} [Field S] [AddCommGroup P] [Module S P]

namespace Sbt

variable [DecidableEq S] [DecidableEq P] {C : Suite S P} {config : SbtSchemeConfig S P}

/-! ## 1. What should agree -/

/-- Every quorum of the scheme stands for its public key. -/
def QuorumsAgree (S : Type) [Field S] [Module S P] [DecidableEq S]
    (scheme : SbtScheme S P) : Prop :=
  ∀ quorum : List (OprfServerCommit P), (quorum.map (·.index)).Nodup → quorum ⊆ scheme.commits →
    quorum.length = scheme.threshold → aggregateOverQuorum S quorum = .ok scheme.publicKey

/-- Two mints of a payload, with honest trustees that hold the keys behind the commitments, give
    one nullifier whichever quorums answer. -/
def NullifiersAgree (C : Suite S P) (scheme : SbtScheme S P) : Prop :=
  ∀ key : UInt32 → S, (∀ c ∈ scheme.commits, c.commit = key c.index • C.G) →
    ∀ (payload : Bytes) (alpha alpha' wS wS' wR wR' : Nonzero S)
      (state state' : SbtClientState S P) (req req' : SbtRequest P)
      (responses responses' : List (OprfEvaluation S P)) (token token' : SpendToken S P),
      SbtScheme.prepare C scheme alpha payload = .ok (state, req) →
      SbtScheme.prepare C scheme alpha' payload = .ok (state', req') →
      Quorum scheme.commits scheme.threshold
        (honestEvaluate C key req.blinded scheme.sessionId) responses →
      Quorum scheme.commits scheme.threshold
        (honestEvaluate C key req'.blinded scheme.sessionId) responses' →
      SbtScheme.finalize C scheme wS wR state req responses = .ok token →
      SbtScheme.finalize C scheme wS' wR' state' req' responses' = .ok token' →
      token.tag = token'.tag ∧ token.nullifier C = token'.nullifier C

/-- The commitments lie on one curve: `c_i = a_0 + i a_1 + … + i^(t-1) a_{t-1}`. -/
def OnCurve (S : Type) [Field S] [Module S P] (t : Nat) (commits : List (OprfServerCommit P)) :
    Prop :=
  ∃ ms : List P, ms.length = t ∧
    ∀ c ∈ commits, c.commit = powerSum (indexScalar c.index : S) ms

/-! ## 2. When it does -/

section Agree

variable {publicKey : P}

/-- The commitment under an index. -/
def commitAt (commits : List (OprfServerCommit P)) (i : UInt32) : P :=
  ((commits.find? (·.index = i)).map (·.commit)).getD 0

omit [Field S] [Module S P] [DecidableEq S] [DecidableEq P] in
theorem commitAt_index {commits : List (OprfServerCommit P)}
    (hnd : (commits.map (·.index)).Nodup) {c : OprfServerCommit P} (hc : c ∈ commits) :
    commitAt commits c.index = c.commit := by
  unfold commitAt
  rw [find?_index hnd hc]
  rfl

omit [DecidableEq P] in
/-- Quorums as sets of commitments and as sets of indices. -/
theorem quorumsAgree_iff_indices (h : Accepted C config publicKey) (key : P) :
    QuorumsAgree S (SbtScheme.ofConfig config key) ↔
      ∀ q : List UInt32, q.Nodup → q ⊆ config.commits.map (·.index) →
        q.length = config.threshold →
        (q.map fun i => (weight q i : S) • commitAt config.commits i).sum = key := by
  constructor
  · intro hall q hnd hsub hlen
    let quorum := q.map fun i => (⟨i, commitAt config.commits i⟩ : OprfServerCommit P)
    have hindices : quorum.map (·.index) = q := by
      rw [List.map_map]
      exact List.map_id q
    have hmem : quorum ⊆ config.commits := by
      intro c hc
      obtain ⟨i, hi, rfl⟩ := List.mem_map.mp hc
      obtain ⟨c', hc', rfl⟩ := List.mem_map.mp (hsub hi)
      rwa [commitAt_index h.distinct hc']
    have hagg := hall quorum (by rwa [hindices]) hmem (by rw [List.length_map]; exact hlen)
    rw [aggregateOverQuorum_eq C fun c hc => (h.valid c (hmem hc)).1, hindices,
      List.map_map] at hagg
    exact Except.ok.inj hagg
  · intro hall quorum hnd hsub hlen
    have hq := hall (quorum.map (·.index)) hnd (List.map_subset _ hsub)
      (by rw [List.length_map]; exact hlen)
    rw [aggregateOverQuorum_eq C fun c hc => (h.valid c (hsub hc)).1]
    refine congrArg Except.ok (Eq.trans ?_ hq)
    rw [List.map_map]
    refine congrArg List.sum (List.map_congr_left fun c hc => ?_)
    show _ = (weight (quorum.map (·.index)) c.index : S) • commitAt config.commits c.index
    rw [commitAt_index h.distinct (hsub hc)]

omit [DecidableEq P] in
/-- Every quorum stands for the public key exactly when the commitments lie on one curve. -/
theorem quorumsAgree_iff_onCurve (h : Accepted C config publicKey) :
    QuorumsAgree S (SbtScheme.ofConfig config publicKey) ↔
      OnCurve S config.threshold config.commits := by
  have hcurve := fun a => exists_powerSum_iff (M := P) (v := (indexScalar : UInt32 → S))
    h.distinct (fun _ _ _ _ he => indexScalar_inj C he)
    (fun i hi => by
      obtain ⟨c, hc, rfl⟩ := List.mem_map.mp hi
      exact indexScalar_ne_zero C (h.valid c hc).1)
    h.threshold_pos (by rw [List.length_map]; exact h.threshold_le)
    (commitAt config.commits) a
  have hon : ∀ ms : List P, (∀ i ∈ config.commits.map (·.index),
      commitAt config.commits i = powerSum (indexScalar i : S) ms) ↔
      ∀ c ∈ config.commits, c.commit = powerSum (indexScalar c.index : S) ms := by
    intro ms
    rw [List.forall_mem_map]
    exact forall₂_congr fun c hc => by rw [commitAt_index h.distinct hc]
  constructor
  · intro hall
    obtain ⟨ms, hlen, _, hms⟩ :=
      (hcurve publicKey).mp ((quorumsAgree_iff_indices h publicKey).mp hall)
    exact ⟨ms, hlen, (hon ms).mp hms⟩
  · rintro ⟨ms, hlen, hms⟩
    have hall := (hcurve (ms.headD 0)).mpr ⟨ms, hlen, rfl, (hon ms).mpr hms⟩
    have hagree := (quorumsAgree_iff_indices h (ms.headD 0)).mpr hall
    -- the first quorum, which `new` aggregated, gives the point at 0 of the curve
    have hfirst := hagree (config.commits.take config.threshold)
      (h.distinct.sublist ((List.take_sublist _ _).map _)) (List.take_subset _ _)
      (by rw [List.length_take, Nat.min_eq_left h.threshold_le]; rfl)
    have hpub : ms.headD 0 = publicKey := Except.ok.inj (hfirst.symm.trans h.first)
    rwa [hpub] at hagree

omit [DecidableEq S] in
/-- What a prepared request says: neither the commitment nor its base point is the identity. -/
theorem prepare_ok {scheme : SbtScheme S P} {alpha : Nonzero S} {payload : Bytes}
    {state : SbtClientState S P} {req : SbtRequest P}
    (h : SbtScheme.prepare C scheme alpha payload = .ok (state, req)) :
    payloadCommitment C scheme payload ≠ 0 ∧
      basePoint C scheme.h2cDomain (payloadCommitment C scheme payload) ≠ 0 ∧
      minSessionIdLen ≤ scheme.sessionId.length := by
  unfold SbtScheme.prepare blind SbtRequest.validate at h
  simp only [bind_ok_iff, reject_ok_iff] at h
  obtain ⟨_, ⟨_, hbase, hblind⟩, _, ⟨_, hpoints, hsession⟩, _⟩ := h
  cases hblind
  exact ⟨fun h0 => hpoints (.inl h0), hbase, Nat.not_lt.mp hsession⟩

/-- The key behind the answers of a quorum is that of the quorum's aggregate. -/
theorem combineEvaluations_of_agree (h : Accepted C config publicKey)
    (hagree : QuorumsAgree S (SbtScheme.ofConfig config publicKey)) {key : UInt32 → S}
    (hkey : ∀ c ∈ config.commits, c.commit = key c.index • C.G) {B : P} (hB : B ≠ 0)
    {sid : Bytes} {evals : List (OprfEvaluation S P)}
    (hq : Quorum config.commits config.threshold (honestEvaluate C key B sid) evals) :
    ∃ k : S, k • C.G = publicKey ∧
      combineEvaluations C config.threshold config.commits evals B sid = .ok (k • B) := by
  have hto := h.commitsTo hkey
  refine ⟨_, ?_, combineEvaluations_honest hto hB hq⟩
  have hsub : evals.map (·.index) ⊆ config.commits.map (·.index) := by
    intro i hi
    obtain ⟨e, he, rfl⟩ := List.mem_map.mp hi
    obtain ⟨c, hc, w, hw⟩ := hq.honest e he
    obtain ⟨_, rfl⟩ := evaluateServer_ok_iff.mp hw
    exact List.mem_map_of_mem hc
  have hsum := (quorumsAgree_iff_indices h publicKey).mp hagree _ hq.distinct hsub
    (by rw [List.length_map]; exact hq.length)
  rw [← hsum, List.sum_smul, List.map_map]
  refine congrArg List.sum (List.map_congr_left fun i hi => ?_)
  obtain ⟨c, hc, rfl⟩ := List.mem_map.mp (hsub hi)
  rw [commitAt_index h.distinct hc, hkey c hc, smul_smul]
  rfl

/-- Where every quorum stands for the public key, the nullifier does not tell which answered. -/
theorem nullifiersAgree_of_quorumsAgree (h : Accepted C config publicKey)
    (hagree : QuorumsAgree S (SbtScheme.ofConfig config publicKey)) :
    NullifiersAgree C (SbtScheme.ofConfig config publicKey) := by
  intro key hkey payload alpha alpha' wS wS' wR wR' state state' req req' responses responses'
    token token' hprep hprep' hq hq' hfin hfin'
  obtain ⟨hcom, hbase, hsession⟩ := prepare_ok hprep
  cases hprep.symm.trans (prepare_eq _ hcom hbase hsession)
  cases hprep'.symm.trans (prepare_eq _ hcom hbase hsession)
  have hto := h.commitsTo hkey
  obtain ⟨c, hc⟩ := List.exists_mem_of_length_pos (h.threshold_pos.trans_le h.threshold_le)
  have hG : C.G ≠ 0 := (hto.key_ne_zero hc).2
  -- each mint has its own scalar `k`, and all of them give the public key
  have hmint : ∀ {a wS wR : Nonzero S} {rs : List (OprfEvaluation S P)} {tok : SpendToken S P},
      Quorum config.commits config.threshold (honestEvaluate C key (preparedRequest C
        (SbtScheme.ofConfig config publicKey) a payload).blinded config.sessionId) rs →
      SbtScheme.finalize C (SbtScheme.ofConfig config publicKey) wS wR
        (preparedState C (SbtScheme.ofConfig config publicKey) a payload)
        (preparedRequest C (SbtScheme.ofConfig config publicKey) a payload) rs = .ok tok →
      ∃ k : S, k • C.G = publicKey ∧
        tok = mintedToken C (SbtScheme.ofConfig config publicKey) k wS wR payload := by
    intro a wS wR rs tok hrs hok
    obtain ⟨k, hk, hcomb⟩ := combineEvaluations_of_agree h hagree hkey
      (smul_ne_zero a.2 hbase) hrs
    have hk0 : k ≠ 0 := fun h0 => h.nonzero (by rw [← hk, h0, zero_smul])
    exact ⟨k, hk, Except.ok.inj (hok.symm.trans
      (finalize_eq a hcom hbase hsession hk0 (hto.quorum_valid hrs) hcomb wS wR))⟩
  obtain ⟨k, hk, rfl⟩ := hmint hq hfin
  obtain ⟨k', hk', rfl⟩ := hmint hq' hfin'
  have hkk : k = k' := smul_left_injective S hG (hk.trans hk'.symm)
  subst hkk
  exact ⟨rfl, rfl⟩

end Agree

/-- **An accepted configuration is consistent exactly when its commitments lie on one curve** with
    `threshold` coefficients: only then does every quorum stand for the public key, and the
    nullifier of a payload not depend on the quorum. `new` compares the first quorum with the
    second one, and no other. -/
theorem quorums_agree_iff (C : Suite S P) (config : SbtSchemeConfig S P) (scheme : SbtScheme S P)
    (h : SbtScheme.new C config = .ok scheme) :
    (QuorumsAgree S scheme ∧ NullifiersAgree C scheme) ↔
      OnCurve S config.threshold config.commits := by
  obtain ⟨publicKey, hacc, rfl⟩ := new_ok_iff.mp h
  constructor
  · rintro ⟨hagree, _⟩
    exact (quorumsAgree_iff_onCurve hacc).mp hagree
  · intro hcurve
    have hagree := (quorumsAgree_iff_onCurve hacc).mpr hcurve
    exact ⟨hagree, nullifiersAgree_of_quorumsAgree hacc hagree⟩

/-- The keys `7 + 5 i` lie on a curve. -/
theorem quorums_agree_iff_four :
    QuorumsAgree SampleScalar sampleScheme ∧ NullifiersAgree sampleSuite sampleScheme := by
  refine (quorums_agree_iff sampleSuite sampleConfig sampleScheme sampleConfig_new).mpr
    ⟨[(7, 0), (5, 0)], rfl, fun c hc => ?_⟩
  simp only [sampleConfig, List.mem_cons, List.not_mem_nil, or_false] at hc
  rcases hc with rfl | rfl | rfl | rfl <;> decide

/-- Three trustees with threshold 1, the third with another key. -/
def strayConfig : SbtSchemeConfig SampleScalar SamplePoint :=
  { sampleConfig with
    commits := [⟨1, (7, 0)⟩, ⟨2, (7, 0)⟩, ⟨3, (8, 0)⟩], threshold := 1 }

/-- **A stray trustee passes `new`**, which compares the first two trustees: the third one alone is
    a quorum and stands for another key. -/
theorem stray_trustee_accepted :
    SbtScheme.new sampleSuite strayConfig = .ok (SbtScheme.ofConfig strayConfig (7, 0)) ∧
    aggregateOverQuorum SampleScalar [(⟨3, (8, 0)⟩ : OprfServerCommit SamplePoint)] =
      .ok (8, 0) ∧
    ¬QuorumsAgree SampleScalar (SbtScheme.ofConfig strayConfig (7, 0)) := by
  have hsingle : ∀ c : OprfServerCommit SamplePoint, c.index ≠ 0 →
      aggregateOverQuorum SampleScalar [c] = .ok c.commit := by
    intro c hc
    rw [aggregateOverQuorum_eq sampleSuite (by simpa using hc)]
    simp [weight, weightAtZero]
  have hthird := hsingle ⟨3, (8, 0)⟩ (by decide)
  refine ⟨new_ok_iff.mpr ⟨(7, 0), ⟨by decide, by decide, by decide, by decide, fun c hc => ?_,
    by decide, hsingle ⟨1, (7, 0)⟩ (by decide), fun _ => hsingle ⟨2, (7, 0)⟩ (by decide),
    .inl (by decide), by decide, fun p hp => (nomatch hp), fun k hk => (nomatch hk)⟩, rfl⟩,
    hthird, fun hagree => ?_⟩
  · simp only [strayConfig, List.mem_cons, List.not_mem_nil, or_false] at hc
    rcases hc with rfl | rfl | rfl <;> decide
  · have h := hagree [⟨3, (8, 0)⟩] (by decide) (by decide) rfl
    rw [hthird] at h
    exact absurd (Except.ok.inj h) (by decide)

end Sbt

end Specter
