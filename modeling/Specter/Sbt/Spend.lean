/-
  File:      Specter/Sbt/Spend.lean
  Subject:   BLIND TOKENS FROM MINT TO SPEND, with trustees that share one key.

  * `verifyToken_ok_iff`, `verifyTagThreshold_ok_iff` -- what the two verifiers check;
  * `verifiers_agree` -- they accept the same tokens, whoever built them;
  * `mint_to_spend` -- every token minted is accepted by both, and its nullifier is that of the
    client and the payload.
-/
import Specter.Sbt.Scheme

namespace Specter

open Lib Lib.Sharing Lib.Checks

variable {S P : Type} [Field S] [AddCommGroup P] [Module S P]

namespace Sbt

variable [DecidableEq S] [DecidableEq P] {C : Suite S P} {config : SbtSchemeConfig S P}

/-! ## 1. The two verifiers -/

section Verifiers

variable {scheme : SbtScheme S P} {token : SpendToken S P}

omit [DecidableEq S] [Field S] [Module S P] in
theorem validate_token_ok_iff : token.validate = .ok () ↔
    token.tag ≠ 0 ∧ token.commitment ≠ 0 ∧ minSessionIdLen ≤ token.sessionId.length := by
  unfold SpendToken.validate
  simp [and_assoc]

omit [DecidableEq S] in
theorem verifyClientProofInternal_ok_iff :
    SbtScheme.verifyClientProofInternal C scheme token = .ok () ↔
      basePoint C scheme.h2cDomain token.commitment ≠ 0 ∧
      token.proof.verify C scheme.pedersen token.commitment
        (basePoint C scheme.h2cDomain token.commitment) token.tag scheme.sessionId
        scheme.publicKey = .ok () := by
  unfold SbtScheme.verifyClientProofInternal
  simp

/-- What both verifiers check of a token, beside its tag. -/
structure WellFormed (C : Suite S P) (scheme : SbtScheme S P) (token : SpendToken S P) : Prop where
  valid : token.validate = .ok ()
  session : token.sessionId = scheme.sessionId
  proof : SbtScheme.verifyClientProofInternal C scheme token = .ok ()

omit [Field S] [AddCommGroup P] [Module S P] [DecidableEq S] [DecidableEq P] in
theorem isOk_iff {ε : Type} {x : Except ε Unit} : x.isOk = true ↔ x = .ok () := by
  cases x with
  | error e => simp [Except.isOk, Except.toBool]
  | ok u => simp [Except.isOk, Except.toBool]

omit [DecidableEq S] in
theorem verifyToken_ok_iff {k : S} (hk : scheme.secretKey = some k) :
    SbtScheme.verifyToken C scheme token = .ok () ↔
      WellFormed C scheme token ∧
        k • basePoint C scheme.h2cDomain token.commitment = token.tag := by
  have htag : SbtScheme.verifyTagWithSecretKey C scheme token k = .ok () ↔
      token.validate = .ok () ∧
        k • basePoint C scheme.h2cDomain token.commitment = token.tag := by
    unfold SbtScheme.verifyTagWithSecretKey
    simp only [bind_ok_iff, reject_ok_iff, not_not, C.compress_inj]
    constructor
    · rintro ⟨_, hv, h⟩
      exact ⟨hv, h⟩
    · rintro ⟨hv, h⟩
      exact ⟨(), hv, h⟩
  unfold SbtScheme.verifyToken
  rw [hk]
  dsimp only
  constructor
  · intro h
    split at h
    · rename_i hall
      simp only [Bool.and_eq_true, isOk_iff, beq_iff_eq] at hall
      obtain ⟨⟨⟨hv, hs⟩, hp⟩, ht⟩ := hall
      exact ⟨⟨hv, hs, hp⟩, (htag.mp ht).2⟩
    · cases h
  · rintro ⟨⟨hv, hs, hp⟩, ht⟩
    refine if_pos ?_
    simp only [Bool.and_eq_true, isOk_iff, beq_iff_eq]
    exact ⟨⟨⟨hv, hs⟩, hp⟩, htag.mpr ⟨hv, ht⟩⟩

theorem verifyTagThreshold_ok_iff {evals : List (OprfEvaluation S P)} {sid : Bytes} :
    SbtScheme.verifyTagThreshold C scheme token evals sid = .ok () ↔
      WellFormed C scheme token ∧ minSessionIdLen ≤ sid.length ∧ sid ≠ scheme.sessionId ∧
      combineEvaluations C scheme.threshold scheme.commits evals
        (basePoint C scheme.h2cDomain token.commitment) sid = .ok token.tag := by
  unfold SbtScheme.verifyTagThreshold
  simp only [bind_ok_iff, reject_ok_iff, not_not, C.compress_inj]
  constructor
  · rintro ⟨_, hv, _, hlen, _, hfresh, _, hs, _, hp, _, _, t, hcomb, rfl⟩
    exact ⟨⟨hv, hs, hp⟩, by omega, hfresh, hcomb⟩
  · rintro ⟨⟨hv, hs, hp⟩, hlen, hfresh, hcomb⟩
    exact ⟨(), hv, (), by omega, (), hfresh, (), hs, (), hp, (),
      (verifyClientProofInternal_ok_iff.mp hp).1, token.tag, hcomb, rfl⟩

/-- The answer of a share holder at spend time. -/
noncomputable def spendEvaluate (C : Suite S P) (f : Polynomial S) (token : SpendToken S P)
    (h2cDomain sid : Bytes) (c : OprfServerCommit P) (w : Nonzero S) :
    Except SbtError (OprfEvaluation S P) :=
  SbtScheme.evaluateForSpend C w token { index := c.index, scalar := polyKey f c.index } c
    h2cDomain sid

omit [DecidableEq S] in
theorem spendEvaluate_ok_iff {f : Polynomial S} {dom sid : Bytes} {c : OprfServerCommit P}
    {w : Nonzero S} {e : OprfEvaluation S P} : spendEvaluate C f token dom sid c w = .ok e ↔
      basePoint C dom token.commitment ≠ 0 ∧
      honestEvaluate C (polyKey f) (basePoint C dom token.commitment) sid c w = .ok e := by
  unfold spendEvaluate SbtScheme.evaluateForSpend
  simp only [bind_ok_iff, reject_ok_iff]
  constructor
  · rintro ⟨_, hp, h⟩
    exact ⟨hp, h⟩
  · rintro ⟨hp, h⟩
    exact ⟨(), hp, h⟩

/-- What a quorum of share holders returns at spend time. -/
theorem combineEvaluations_spend {f : Polynomial S} {publicKey : P} (hf : SharesKey C f config)
    (h : Accepted C config publicKey) {sid : Bytes} {evals : List (OprfEvaluation S P)}
    (hq : Quorum config.commits config.threshold
      (spendEvaluate C f token config.h2cDomain sid) evals) :
    combineEvaluations C config.threshold config.commits evals
      (basePoint C config.h2cDomain token.commitment) sid =
        .ok (f.eval 0 • basePoint C config.h2cDomain token.commitment) := by
  have hhonest : ∀ e ∈ evals, basePoint C config.h2cDomain token.commitment ≠ 0 ∧
      ∃ c ∈ config.commits, ∃ w, honestEvaluate C (polyKey f)
        (basePoint C config.h2cDomain token.commitment) sid c w = .ok e := by
    intro e he
    obtain ⟨c, hc, w, hw⟩ := hq.honest e he
    obtain ⟨hp, hw'⟩ := spendEvaluate_ok_iff.mp hw
    exact ⟨hp, c, hc, w, hw'⟩
  -- a quorum is not empty, and its first member has looked at the point
  obtain ⟨e, he⟩ := List.exists_mem_of_length_pos (hq.length ▸ h.threshold_pos)
  exact combineEvaluations_quorum (hf.commitsTo h) (hhonest e he).1 hf.degree
    ⟨hq.length, hq.distinct, fun e he => (hhonest e he).2⟩

omit [DecidableEq S] in
/-- Any share holders of the list make a quorum at spend time. -/
theorem CommitsTo.exists_spendQuorum {f : Polynomial S} {commits : List (OprfServerCommit P)}
    (h : CommitsTo C (polyKey f) commits) (token : SpendToken S P) (dom sid : Bytes)
    (hbase : basePoint C dom token.commitment ≠ 0) (who : List (OprfServerCommit P))
    (hsub : who ⊆ commits) (hnd : (who.map (·.index)).Nodup)
    (w : OprfServerCommit P → Nonzero S) :
    ∃ evals, Quorum commits who.length (spendEvaluate C f token dom sid) evals := by
  obtain ⟨evals, hlen, hdistinct, hhonest⟩ := h.exists_quorum hbase sid who hsub hnd w
  refine ⟨evals, hlen, hdistinct, fun e he => ?_⟩
  obtain ⟨c, hc, w, hw⟩ := hhonest e he
  exact ⟨c, hc, w, spendEvaluate_ok_iff.mpr ⟨hbase, hw⟩⟩

end Verifiers

/-- **The two verifiers agree**, on every token: the scheme that holds the key accepts it exactly
    when the threshold check accepts it, with evaluations of any `threshold` share holders under
    any spend session id that is long enough and not the one of the mint. Where the commitment
    hashes to the identity the share holders do not answer, and neither verifier accepts. -/
theorem verifiers_agree (C : Suite S P) (config : SbtSchemeConfig S P) (f : Polynomial S)
    (hf : SharesKey C f config) (scheme holder : SbtScheme S P)
    (hscheme : SbtScheme.new C config = .ok scheme)
    (hholder : SbtScheme.new C { config with secretKey := some (f.eval 0) } = .ok holder)
    (token : SpendToken S P) (spendSessionId : Bytes)
    (hlen : minSessionIdLen ≤ spendSessionId.length)
    (hfresh : spendSessionId ≠ config.sessionId) :
    (basePoint C config.h2cDomain token.commitment ≠ 0 → ∀ c ∈ config.commits, ∀ w, ∃ e,
      spendEvaluate C f token config.h2cDomain spendSessionId c w = .ok e) ∧
    (∀ evals, Quorum config.commits config.threshold
        (spendEvaluate C f token config.h2cDomain spendSessionId) evals →
      (SbtScheme.verifyToken C holder token = .ok () ↔
        SbtScheme.verifyTagThreshold C scheme token evals spendSessionId = .ok ())) ∧
    (basePoint C config.h2cDomain token.commitment = 0 →
      SbtScheme.verifyToken C holder token ≠ .ok () ∧
      ∀ evals, SbtScheme.verifyTagThreshold C scheme token evals spendSessionId ≠ .ok ()) := by
  have hholder' := hf.new_withKey hscheme
  obtain ⟨publicKey, hacc, rfl⟩ := new_ok_iff.mp hscheme
  cases hholder.symm.trans hholder'
  have htoken : SbtScheme.verifyToken C
      { SbtScheme.ofConfig config publicKey with secretKey := some (f.eval 0) } token = .ok () ↔
      WellFormed C (SbtScheme.ofConfig config publicKey) token ∧
        f.eval 0 • basePoint C config.h2cDomain token.commitment = token.tag := by
    rw [verifyToken_ok_iff rfl]
    exact and_congr_left fun _ => ⟨fun h => ⟨h.valid, h.session, h.proof⟩,
      fun h => ⟨h.valid, h.session, h.proof⟩⟩
  refine ⟨fun hp c hc w => ?_, fun evals hq => ?_, fun hp => ⟨fun h => ?_, fun evals h => ?_⟩⟩
  · obtain ⟨e, he⟩ := (hf.commitsTo hacc).evaluate hp spendSessionId hc w
    exact ⟨e, spendEvaluate_ok_iff.mpr ⟨hp, he⟩⟩
  · have hcomb := combineEvaluations_spend hf hacc hq
    rw [htoken, verifyTagThreshold_ok_iff]
    constructor
    · rintro ⟨hwell, htag⟩
      exact ⟨hwell, hlen, hfresh, htag ▸ hcomb⟩
    · rintro ⟨hwell, _, _, hcomb'⟩
      exact ⟨hwell, Except.ok.inj (hcomb.symm.trans hcomb')⟩
  · exact (verifyClientProofInternal_ok_iff.mp (htoken.mp h).1.proof).1 hp
  · exact (verifyClientProofInternal_ok_iff.mp (verifyTagThreshold_ok_iff.mp h).1.proof).1 hp

/-- A token made up without any key is refused by both verifiers of the four trustees. -/
theorem verifiers_agree_forged : ∃ holder evals,
    SbtScheme.new sampleSuite
      { sampleConfig with secretKey := some ((polyOf [7, 5]).eval 0) } = .ok holder ∧
    Quorum sampleConfig.commits 2 (spendEvaluate sampleSuite (polyOf [7, 5])
      ⟨(3, 0), (1, 0), ⟨(1, 0), 4, 0⟩, sampleConfig.sessionId⟩ sampleConfig.h2cDomain
      (List.replicate 17 0)) evals ∧
    (SbtScheme.verifyToken sampleSuite holder
        ⟨(3, 0), (1, 0), ⟨(1, 0), 4, 0⟩, sampleConfig.sessionId⟩ = .ok () ↔
      SbtScheme.verifyTagThreshold sampleSuite sampleScheme
        ⟨(3, 0), (1, 0), ⟨(1, 0), 4, 0⟩, sampleConfig.sessionId⟩ evals
        (List.replicate 17 0) = .ok ()) := by
  have hholder := sampleConfig_sharesKey.new_withKey sampleConfig_new
  obtain ⟨evals, hq⟩ := sampleConfig_commitsTo.exists_spendQuorum
    ⟨(3, 0), (1, 0), ⟨(1, 0), 4, 0⟩, sampleConfig.sessionId⟩ sampleConfig.h2cDomain
    (List.replicate 17 0) (by decide +kernel) [⟨4, (27, 0)⟩, ⟨2, (17, 0)⟩] (by decide) (by decide)
    fun _ => ⟨1, one_ne_zero⟩
  exact ⟨_, evals, hholder, hq, (verifiers_agree sampleSuite sampleConfig (polyOf [7, 5])
    sampleConfig_sharesKey sampleScheme _ sampleConfig_new hholder _ (List.replicate 17 0)
    (by decide) (by decide)).2.1 evals hq⟩

/-! ## 2. From mint to spend -/

section Mint

variable {scheme : SbtScheme S P}

/-- The commitment of a client to a payload. -/
def payloadCommitment (C : Suite S P) (scheme : SbtScheme S P) (payload : Bytes) : P :=
  (deriveScalar C (ascii "sbt-payload-s") scheme.clientSecret payload : S) • scheme.pedersen.g +
    (deriveScalar C (ascii "sbt-payload-r") scheme.clientSecret payload : S) • scheme.pedersen.h

/-- The state and the request of a client for a payload. -/
def preparedState (C : Suite S P) (scheme : SbtScheme S P) (alpha : Nonzero S)
    (payload : Bytes) : SbtClientState S P where
  s := deriveScalar C (ascii "sbt-payload-s") scheme.clientSecret payload
  r := deriveScalar C (ascii "sbt-payload-r") scheme.clientSecret payload
  commitment := payloadCommitment C scheme payload
  oprfState :=
    { alpha := alpha.1
      alphaInv := alpha.1⁻¹
      base := basePoint C scheme.h2cDomain (payloadCommitment C scheme payload) }

def preparedRequest (C : Suite S P) (scheme : SbtScheme S P) (alpha : Nonzero S)
    (payload : Bytes) : SbtRequest P where
  commitment := payloadCommitment C scheme payload
  blinded := alpha.1 • basePoint C scheme.h2cDomain (payloadCommitment C scheme payload)
  sessionId := scheme.sessionId

/-- The token of a payload under the key `k`, with the nonces of its proof. -/
def mintedToken (C : Suite S P) (scheme : SbtScheme S P) (k : S) (wS wR : Nonzero S)
    (payload : Bytes) : SpendToken S P :=
  let commitment := payloadCommitment C scheme payload
  let p := basePoint C scheme.h2cDomain commitment
  { commitment := commitment
    tag := k • p
    proof := TokenProof.prove C wS wR scheme.pedersen commitment p (k • p)
      (deriveScalar C (ascii "sbt-payload-s") scheme.clientSecret payload)
      (deriveScalar C (ascii "sbt-payload-r") scheme.clientSecret payload)
      scheme.sessionId scheme.publicKey
    sessionId := scheme.sessionId }

variable {payload : Bytes} (alpha : Nonzero S)
  (hcom : payloadCommitment C scheme payload ≠ 0)
  (hbase : basePoint C scheme.h2cDomain (payloadCommitment C scheme payload) ≠ 0)
  (hsession : minSessionIdLen ≤ scheme.sessionId.length)

include hcom hbase hsession

omit [DecidableEq S] in
theorem validate_preparedRequest : (preparedRequest C scheme alpha payload).validate = .ok () := by
  unfold SbtRequest.validate
  simp only [bind_ok_iff, reject_ok_iff]
  refine ⟨(), ?_, ?_⟩
  · rintro (h | h)
    · exact hcom h
    · exact smul_ne_zero alpha.2 hbase h
  · exact Nat.not_lt.mpr hsession

omit [DecidableEq S] in
theorem prepare_eq : SbtScheme.prepare C scheme alpha payload =
    .ok (preparedState C scheme alpha payload, preparedRequest C scheme alpha payload) := by
  have hblind : blind C alpha scheme.h2cDomain
      (C.compress (payloadCommitment C scheme payload)).toList =
      .ok ((preparedState C scheme alpha payload).oprfState,
        (preparedRequest C scheme alpha payload).blinded) := by
    unfold blind
    simp only [bind_ok_iff, reject_ok_iff]
    exact ⟨(), hbase, rfl⟩
  have hvalid := validate_preparedRequest alpha hcom hbase hsession
  unfold SbtScheme.prepare
  simp only [bind_ok_iff]
  exact ⟨_, hblind, (), hvalid, rfl⟩

/-- Given what the quorum's answers combine to, `finalize` returns the token. -/
theorem finalize_eq {k : S} (hk : k ≠ 0) {responses : List (OprfEvaluation S P)}
    (hvalid : ∀ e ∈ responses, e.index ≠ 0 ∧ e.point ≠ 0)
    (hcomb : combineEvaluations C scheme.threshold scheme.commits responses
      (preparedRequest C scheme alpha payload).blinded scheme.sessionId =
        .ok (k • (preparedRequest C scheme alpha payload).blinded)) (wS wR : Nonzero S) :
    SbtScheme.finalize C scheme wS wR (preparedState C scheme alpha payload)
      (preparedRequest C scheme alpha payload) responses =
        .ok (mintedToken C scheme k wS wR payload) := by
  have hunblind : unblind (preparedState C scheme alpha payload).oprfState
      (k • (preparedRequest C scheme alpha payload).blinded) =
        k • basePoint C scheme.h2cDomain (payloadCommitment C scheme payload) := by
    show alpha.1⁻¹ • k • alpha.1 • basePoint C _ _ = _
    rw [smul_comm k, inv_smul_smul₀ alpha.2]
  unfold SbtScheme.finalize
  simp only [bind_ok_iff, reject_ok_iff]
  refine ⟨(), validate_preparedRequest alpha hcom hbase hsession, (), fun h => h rfl, (),
    fun h => h rfl, (), fun h => h rfl, (), ?_, _, hcomb, (), ?_, ?_⟩
  · refine forM_ok_iff.mpr fun e he => ?_
    unfold OprfEvaluation.validate
    simp only [bind_ok_iff, reject_ok_iff]
    exact ⟨(), (hvalid e he).1, (hvalid e he).2⟩
  · rw [hunblind]
    exact smul_ne_zero hk hbase
  · rw [hunblind]
    rfl

omit [DecidableEq S] in
theorem wellFormed_mintedToken {k : S} (hk : k ≠ 0) (hpub : scheme.publicKey ≠ 0)
    {wS wR : Nonzero S} (ht : wS.1 • scheme.pedersen.g + wR.1 • scheme.pedersen.h ≠ 0) :
    WellFormed C scheme (mintedToken C scheme k wS wR payload) where
  valid := validate_token_ok_iff.mpr ⟨smul_ne_zero hk hbase, hcom, hsession⟩
  session := rfl
  proof := verifyClientProofInternal_ok_iff.mpr ⟨hbase, TokenProof.verify_prove wS wR
    scheme.sessionId hcom hbase (smul_ne_zero hk hbase) hpub ht⟩

end Mint

/-- The token carries the client's commitment. -/
theorem finalize_commitment {scheme : SbtScheme S P} {wS wR : Nonzero S}
    {state : SbtClientState S P} {req : SbtRequest P} {responses : List (OprfEvaluation S P)}
    {token : SpendToken S P}
    (h : SbtScheme.finalize C scheme wS wR state req responses = .ok token) :
    token.commitment = state.commitment := by
  unfold SbtScheme.finalize at h
  simp only [bind_ok_iff] at h
  obtain ⟨_, _, _, _, _, _, _, _, _, _, _, _, _, _, h⟩ := h
  cases h
  rfl

/-- **From mint to spend**: where the trustees' keys are the values of one polynomial of degree
    below the threshold, every payload that does not lead to the identity is minted, with any
    blinding and the answers of any `threshold` trustees, to a token whose tag is the base point
    times the shared key. Its nullifier depends neither on the blinding nor on the quorum; a
    scheme that holds the key accepts it, and so does the threshold check with the evaluations of
    any quorum, under any spend session id that is long enough and not the one of the mint. -/
theorem mint_to_spend (C : Suite S P) (config : SbtSchemeConfig S P) (f : Polynomial S)
    (hf : SharesKey C f config) (scheme : SbtScheme S P)
    (hscheme : SbtScheme.new C config = .ok scheme) (payload : Bytes)
    (hcom : payloadCommitment C scheme payload ≠ 0)
    (hbase : basePoint C scheme.h2cDomain (payloadCommitment C scheme payload) ≠ 0) :
    ∃ holder, SbtScheme.new C { config with secretKey := some (f.eval 0) } = .ok holder ∧
    ∃ nullifier, ∀ alpha : Nonzero S, ∃ state req,
      SbtScheme.prepare C scheme alpha payload = .ok (state, req) ∧
      (∀ c ∈ scheme.commits, ∀ w, ∃ e,
        honestEvaluate C (polyKey f) req.blinded scheme.sessionId c w = .ok e) ∧
      ∀ responses, Quorum scheme.commits scheme.threshold
          (honestEvaluate C (polyKey f) req.blinded scheme.sessionId) responses →
        ∀ wS wR : Nonzero S, ∃ token,
          SbtScheme.finalize C scheme wS wR state req responses = .ok token ∧
          token.tag = f.eval 0 •
            basePoint C scheme.h2cDomain (payloadCommitment C scheme payload) ∧
          token.nullifier C = nullifier ∧
          (wS.1 • scheme.pedersen.g + wR.1 • scheme.pedersen.h ≠ 0 →
            SbtScheme.verifyToken C holder token = .ok () ∧
            ∀ (spendSessionId : Bytes) (evals : List (OprfEvaluation S P)),
              minSessionIdLen ≤ spendSessionId.length → spendSessionId ≠ scheme.sessionId →
              Quorum scheme.commits scheme.threshold
                (spendEvaluate C f token scheme.h2cDomain spendSessionId) evals →
              SbtScheme.verifyTagThreshold C scheme token evals spendSessionId = .ok ()) := by
  have hholder := hf.new_withKey hscheme
  obtain ⟨publicKey, hacc, rfl⟩ := new_ok_iff.mp hscheme
  have hkey : f.eval 0 ≠ 0 := hf.key_ne_zero hacc
  have hto := hf.commitsTo hacc
  have hsession : minSessionIdLen ≤ (SbtScheme.ofConfig config publicKey).sessionId.length :=
    hacc.session
  -- the nullifier reads the tag only, so any nonces name it
  refine ⟨_, hholder, (mintedToken C (SbtScheme.ofConfig config publicKey) (f.eval 0)
      ⟨1, one_ne_zero⟩ ⟨1, one_ne_zero⟩ payload).nullifier C,
    fun alpha => ⟨_, _, prepare_eq alpha hcom hbase hsession, fun c hc w => ?_,
      fun responses hq wS wR => ?_⟩⟩
  · exact hto.evaluate (smul_ne_zero alpha.2 hbase) config.sessionId hc w
  · have hcomb := combineEvaluations_quorum hto (smul_ne_zero alpha.2 hbase) hf.degree hq
    refine ⟨_, finalize_eq alpha hcom hbase hsession hkey (hto.quorum_valid hq) hcomb wS wR, rfl,
      rfl, fun ht => ?_⟩
    have hwell := wellFormed_mintedToken hcom hbase hsession hkey hacc.nonzero ht
    refine ⟨(verifyToken_ok_iff rfl).mpr ⟨⟨hwell.valid, hwell.session, hwell.proof⟩, rfl⟩, ?_⟩
    intro spendSessionId evals hlen hfresh hspend
    exact verifyTagThreshold_ok_iff.mpr
      ⟨hwell, hlen, hfresh, combineEvaluations_spend hf hacc hspend⟩

/-- A payload minted with trustees 4 and 2 and spent with trustees 1 and 3. -/
theorem mint_to_spend_two_of_four : ∃ holder state req responses token evals,
    SbtScheme.new sampleSuite
      { sampleConfig with secretKey := some ((polyOf [7, 5]).eval 0) } = .ok holder ∧
    SbtScheme.prepare sampleSuite sampleScheme ⟨1, one_ne_zero⟩ [1, 2] = .ok (state, req) ∧
    Quorum sampleScheme.commits 2 (honestEvaluate sampleSuite (polyKey (polyOf [7, 5]))
      req.blinded sampleScheme.sessionId) responses ∧
    SbtScheme.finalize sampleSuite sampleScheme ⟨1, one_ne_zero⟩ ⟨1, one_ne_zero⟩ state req
      responses = .ok token ∧
    SbtScheme.verifyToken sampleSuite holder token = .ok () ∧
    SbtScheme.verifyTagThreshold sampleSuite sampleScheme token evals (List.replicate 17 0) =
      .ok () := by
  have hcom : payloadCommitment sampleSuite sampleScheme [1, 2] ≠ 0 := by decide +kernel
  have hbase : basePoint sampleSuite sampleScheme.h2cDomain
      (payloadCommitment sampleSuite sampleScheme [1, 2]) ≠ 0 := by decide +kernel
  obtain ⟨holder, hholder, _, hmint⟩ := mint_to_spend sampleSuite sampleConfig (polyOf [7, 5])
    sampleConfig_sharesKey sampleScheme sampleConfig_new [1, 2] hcom hbase
  obtain ⟨state, req, hprep, _, hfinal⟩ := hmint ⟨1, one_ne_zero⟩
  obtain ⟨rfl, rfl⟩ := Prod.mk.inj
    (Except.ok.inj (hprep.symm.trans (prepare_eq _ hcom hbase (by decide))))
  obtain ⟨responses, hq⟩ := sampleConfig_commitsTo.exists_quorum
    (B := (preparedRequest sampleSuite sampleScheme ⟨1, one_ne_zero⟩ [1, 2]).blinded)
    (smul_ne_zero one_ne_zero hbase) sampleScheme.sessionId [⟨4, (27, 0)⟩, ⟨2, (17, 0)⟩]
    (by decide) (by decide) fun _ => ⟨1, one_ne_zero⟩
  obtain ⟨token, htoken, _, _, haccept⟩ :=
    hfinal responses hq ⟨1, one_ne_zero⟩ ⟨1, one_ne_zero⟩
  obtain ⟨hverify, hthreshold⟩ := haccept (by decide +kernel)
  have hcommitment := finalize_commitment htoken
  obtain ⟨evals, hspend⟩ := sampleConfig_commitsTo.exists_spendQuorum token
    sampleScheme.h2cDomain (List.replicate 17 0) (by rw [hcommitment]; exact hbase)
    [⟨1, (12, 0)⟩, ⟨3, (22, 0)⟩] (by decide) (by decide) fun _ => ⟨1, one_ne_zero⟩
  exact ⟨_, _, _, _, _, evals, hholder, hprep, hq, htoken, hverify,
    hthreshold _ evals (by decide) (by decide) hspend⟩

end Sbt

end Specter
