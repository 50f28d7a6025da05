/-
  File:      Specter/Sbt/Scheme.lean
  Subject:   SYMMETRIC BLIND TOKENS (specter-sbt/src/scheme.rs).

  * `SbtScheme.new` -- the checks of a configuration, and `new_ok_iff` what passing them says;
  * `prepare`, `finalize`, `verifyToken`, `verifyTagThreshold` -- the flow;
  * `SharesKey` -- the trustees' keys are the values of one polynomial; then every quorum stands
    for the key of its value at 0 (`SharesKey.aggregate`, `SharesKey.publicKey_eq`).
-/
import Specter.Sbt.Oprf

namespace Specter

open Lib Lib.Sharing Lib.Checks

variable {S P : Type} [Field S] [AddCommGroup P] [Module S P]

namespace Sbt

/-! ## 1. A scheme -/

def minSessionIdLen : Nat := 16

structure SbtSchemeConfig (S P : Type) where
  pedersen : PedersenParams P
  commits : List (OprfServerCommit P)
  threshold : Nat
  h2cDomain : Bytes
  sessionId : Bytes
  clientSecret : Bytes32
  expectedPublicKey : Option P
  secretKey : Option S

structure SbtScheme (S P : Type) where
  pedersen : PedersenParams P
  commits : List (OprfServerCommit P)
  threshold : Nat
  h2cDomain : Bytes
  sessionId : Bytes
  publicKey : P
  clientSecret : Bytes32
  secretKey : Option S

def aggregateOverQuorum (S : Type) [Field S] [Module S P] [DecidableEq S]
    (quorum : List (OprfServerCommit P)) : Except SbtError P :=
  lagrangeCombine (S := S) (quorum.map fun c => (c.index, c.commit))

/-- A key given beside the commitments has to be their aggregate. -/
def checkPinned [DecidableEq P] (given : Option P) (agg : P) : Except SbtError Unit :=
  match given with
  | none => .ok ()
  | some expected => reject (expected ≠ agg) .aggregateMismatch

/-- The second quorum, where there are commitments for one. -/
def crossCheck (S : Type) [Field S] [Module S P] [DecidableEq S] [DecidableEq P]
    (config : SbtSchemeConfig S P) (agg1 : P) : Except SbtError Unit :=
  if 2 * config.threshold ≤ config.commits.length then do
    let agg2 ← aggregateOverQuorum S ((config.commits.drop config.threshold).take config.threshold)
    reject (agg1 ≠ agg2) .aggregateMismatch
  else .ok ()

namespace SbtScheme

/-- The scheme of a configuration with the aggregate key `publicKey`. -/
def ofConfig (config : SbtSchemeConfig S P) (publicKey : P) : SbtScheme S P where
  pedersen := config.pedersen
  commits := config.commits
  threshold := config.threshold
  h2cDomain := config.h2cDomain
  sessionId := config.sessionId
  publicKey := publicKey
  clientSecret := config.clientSecret
  secretKey := config.secretKey

def new [DecidableEq S] [DecidableEq P] (C : Suite S P) (config : SbtSchemeConfig S P) :
    Except SbtError (SbtScheme S P) := do
  reject (config.threshold = 0 ∨ config.threshold > config.commits.length)
    (.insufficient config.commits.length config.threshold)
  reject (config.sessionId.length < minSessionIdLen) .sessionTooShort
  reject (config.h2cDomain = []) .emptyDomain
  distinctLoop OprfServerCommit.validate OprfServerCommit.index .duplicateIndex [] config.commits
  let agg1 ← aggregateOverQuorum S (config.commits.take config.threshold)
  crossCheck S config agg1
  reject (¬2 * config.threshold ≤ config.commits.length ∧ config.expectedPublicKey = none)
    .aggregateMismatch
  reject (agg1 = 0) .identityPoint
  checkPinned config.expectedPublicKey agg1
  checkPinned (config.secretKey.map (· • C.G)) agg1
  return ofConfig config agg1

end SbtScheme

/-! ## 2. Requests and tokens -/

structure SbtClientState (S P : Type) where
  s : S
  r : S
  commitment : P
  oprfState : OprfBlinding S P

structure SbtRequest (P : Type) where
  commitment : P
  blinded : P
  sessionId : Bytes

structure SpendToken (S P : Type) where
  commitment : P
  tag : P
  proof : TokenProof S P
  sessionId : Bytes

def SbtRequest.validate [DecidableEq P] (req : SbtRequest P) : Except SbtError Unit := do
  reject (req.commitment = 0 ∨ req.blinded = 0) .identityPoint
  reject (req.sessionId.length < minSessionIdLen) .sessionTooShort

def SpendToken.validate [DecidableEq P] (token : SpendToken S P) : Except SbtError Unit := do
  reject (token.tag = 0 ∨ token.commitment = 0) .identityPoint
  reject (token.sessionId.length < minSessionIdLen) .sessionTooShort

def SpendToken.nullifier (C : Suite S P) (token : SpendToken S P) : Bytes32 :=
  let tagBytes := (C.compress token.tag).toList
  C.shake256 32 (ascii "SPECTER-SBT-NULL-v1/" ++ lenBytes tagBytes ++ tagBytes)

def deriveScalar (C : Suite S P) (domain : Bytes) (clientSecret : Bytes32) (payload : Bytes) : S :=
  C.fromBytesModOrderWide (C.shake256 64 (ascii "SPECTER-SBT-KDF-v2/" ++ lenBytes domain ++
    domain ++ lenBytes clientSecret.toList ++ clientSecret.toList ++ lenBytes payload ++ payload))

/-- The point the tag of a commitment is a multiple of. -/
def basePoint (C : Suite S P) (h2cDomain : Bytes) (commitment : P) : P :=
  hashToCurve C h2cDomain (C.compress commitment).toList

namespace SbtScheme

section Flow

variable [DecidableEq P] (C : Suite S P) (scheme : SbtScheme S P)

def prepare (alpha : Nonzero S) (payload : Bytes) :
    Except SbtError (SbtClientState S P × SbtRequest P) := do
  let s := deriveScalar C (ascii "sbt-payload-s") scheme.clientSecret payload
  let r := deriveScalar C (ascii "sbt-payload-r") scheme.clientSecret payload
  let commitment := s • scheme.pedersen.g + r • scheme.pedersen.h
  let (oprfState, blinded) ← blind C alpha scheme.h2cDomain (C.compress commitment).toList
  let state : SbtClientState S P :=
    { s := s, r := r, commitment := commitment, oprfState := oprfState }
  let req : SbtRequest P :=
    { commitment := commitment, blinded := blinded, sessionId := scheme.sessionId }
  req.validate
  return (state, req)

/-- `finalize` with the two nonces of the token proof. -/
def finalize [DecidableEq S] (wS wR : Nonzero S) (state : SbtClientState S P)
    (request : SbtRequest P) (responses : List (OprfEvaluation S P)) :
    Except SbtError (SpendToken S P) := do
  request.validate
  reject (request.sessionId ≠ scheme.sessionId) .sessionMismatch
  reject (request.commitment ≠ state.commitment) .stateRequestMismatch
  reject (request.blinded ≠ state.oprfState.blinded) .stateRequestMismatch
  responses.forM OprfEvaluation.validate
  let bk ← combineEvaluations C scheme.threshold scheme.commits responses request.blinded
    scheme.sessionId
  let tag := unblind state.oprfState bk
  reject (tag = 0) .identityPoint
  let p := basePoint C scheme.h2cDomain state.commitment
  let proof := TokenProof.prove C wS wR scheme.pedersen state.commitment p tag state.s state.r
    scheme.sessionId scheme.publicKey
  return { commitment := state.commitment, tag := tag, proof := proof,
           sessionId := scheme.sessionId }

def verifyClientProofInternal (token : SpendToken S P) : Except SbtError Unit := do
  let p := basePoint C scheme.h2cDomain token.commitment
  reject (p = 0) .identityPoint
  (token.proof.verify C scheme.pedersen token.commitment p token.tag scheme.sessionId
    scheme.publicKey).mapError fun _ => .tokenProofFailed

def verifyTagWithSecretKey (token : SpendToken S P) (k : S) : Except SbtError Unit := do
  token.validate
  let p := basePoint C scheme.h2cDomain token.commitment
  reject (C.compress (k • p) ≠ C.compress token.tag) .tagOriginMismatch

/-- Every check is run, and all failures give one error. -/
def verifyToken (token : SpendToken S P) : Except SbtError Unit :=
  match scheme.secretKey with
  | none => .error .tagOriginCheckRequired
  | some k =>
      let structural := token.validate.isOk
      let sessionOk := token.sessionId == scheme.sessionId
      let proofOk := (verifyClientProofInternal C scheme token).isOk
      let tagOk := (verifyTagWithSecretKey C scheme token k).isOk
      if structural && sessionOk && proofOk && tagOk then .ok () else .error .tokenProofFailed

def verifyTagThreshold [DecidableEq S] (token : SpendToken S P)
    (evaluations : List (OprfEvaluation S P)) (spendSessionId : Bytes) :
    Except SbtError Unit := do
  token.validate
  reject (spendSessionId.length < minSessionIdLen) .sessionTooShort
  reject (spendSessionId = scheme.sessionId) .sessionMismatch
  reject (token.sessionId ≠ scheme.sessionId) .sessionMismatch
  verifyClientProofInternal C scheme token
  let p := basePoint C scheme.h2cDomain token.commitment
  reject (p = 0) .identityPoint
  let tPrime ← combineEvaluations C scheme.threshold scheme.commits evaluations p spendSessionId
  reject (C.compress tPrime ≠ C.compress token.tag) .tagOriginMismatch

/-- `evaluate_for_spend` with the nonce it draws. -/
def evaluateForSpend (w : Nonzero S) (token : SpendToken S P) (share : OprfSecretShare S)
    (commit : OprfServerCommit P) (h2cDomain spendSessionId : Bytes) :
    Except SbtError (OprfEvaluation S P) := do
  let p := basePoint C h2cDomain token.commitment
  reject (p = 0) .identityPoint
  evaluateServer C w share commit p spendSessionId

end Flow

end SbtScheme

/-! ## 3. What `new` accepts -/

/-- The checks of `new`, with the aggregate key. -/
structure Accepted [DecidableEq S] (C : Suite S P) (config : SbtSchemeConfig S P)
    (publicKey : P) : Prop where
  threshold_pos : 0 < config.threshold
  threshold_le : config.threshold ≤ config.commits.length
  session : minSessionIdLen ≤ config.sessionId.length
  domain : config.h2cDomain ≠ []
  valid : ∀ c ∈ config.commits, c.index ≠ 0 ∧ c.commit ≠ 0
  distinct : (config.commits.map (·.index)).Nodup
  first : aggregateOverQuorum S (config.commits.take config.threshold) = .ok publicKey
  second : 2 * config.threshold ≤ config.commits.length →
    aggregateOverQuorum S ((config.commits.drop config.threshold).take config.threshold) =
      .ok publicKey
  pinned : 2 * config.threshold ≤ config.commits.length ∨ config.expectedPublicKey ≠ none
  nonzero : publicKey ≠ 0
  expected : ∀ p, config.expectedPublicKey = some p → p = publicKey
  key : ∀ k, config.secretKey = some k → k • C.G = publicKey

variable [DecidableEq S] [DecidableEq P] {C : Suite S P} {config : SbtSchemeConfig S P}

omit [DecidableEq S] [Field S] [Module S P] [AddCommGroup P] in
theorem checkPinned_ok_iff {given : Option P} {agg : P} :
    checkPinned given agg = .ok () ↔ ∀ p, given = some p → p = agg := by
  cases given with
  | none => simp [checkPinned]
  | some p => simp [checkPinned]

theorem crossCheck_ok_iff {agg : P} : crossCheck S config agg = .ok () ↔
    (2 * config.threshold ≤ config.commits.length →
      aggregateOverQuorum S ((config.commits.drop config.threshold).take config.threshold) =
        .ok agg) := by
  unfold crossCheck
  by_cases h : 2 * config.threshold ≤ config.commits.length
  · rw [if_pos h]
    simp only [bind_ok_iff, reject_ok_iff, not_not, h, true_imp_iff]
    constructor
    · rintro ⟨_, hagg, rfl⟩
      exact hagg
    · exact fun hagg => ⟨agg, hagg, rfl⟩
  · rw [if_neg h]
    simp [h]

omit [Field S] [DecidableEq S] [Module S P] in
theorem validate_commit_ok_iff {c : OprfServerCommit P} :
    c.validate = .ok () ↔ c.index ≠ 0 ∧ c.commit ≠ 0 := by
  unfold OprfServerCommit.validate
  simp

/-- **A configuration passes `new` exactly when it meets the checks.** -/
theorem new_ok_iff {scheme : SbtScheme S P} : SbtScheme.new C config = .ok scheme ↔
    ∃ publicKey, Accepted C config publicKey ∧ scheme = SbtScheme.ofConfig config publicKey := by
  unfold SbtScheme.new
  simp only [bind_ok_iff, reject_ok_iff]
  constructor
  · rintro ⟨_, ht, _, hsession, _, hdomain, _, hloop, agg, hfirst, _, hcross, _, hpin, _, hzero,
      _, hexp, _, hkey, h⟩
    cases h
    obtain ⟨hvalid, hnd⟩ := distinctLoop_ok_iff.mp hloop
    refine ⟨agg, ⟨by omega, by omega, by omega, hdomain,
      fun c hc => validate_commit_ok_iff.mp (hvalid c hc), hnd, hfirst,
      crossCheck_ok_iff.mp hcross, by tauto, hzero, checkPinned_ok_iff.mp hexp, fun k hk => ?_⟩,
      rfl⟩
    exact checkPinned_ok_iff.mp hkey _ (by rw [hk]; rfl)
  · rintro ⟨publicKey, h, rfl⟩
    have hpos := h.threshold_pos
    have hle := h.threshold_le
    have hsession := h.session
    refine ⟨(), by omega, (), by omega, (), h.domain, (), ?_, _, h.first, (),
      crossCheck_ok_iff.mpr h.second, (), ?_, (), h.nonzero, (),
      checkPinned_ok_iff.mpr h.expected, (), ?_, rfl⟩
    · exact distinctLoop_ok_iff.mpr
        ⟨fun c hc => validate_commit_ok_iff.mpr (h.valid c hc), h.distinct⟩
    · have := h.pinned
      tauto
    · refine checkPinned_ok_iff.mpr fun p hp => ?_
      obtain ⟨k, hk, rfl⟩ := Option.map_eq_some_iff.mp hp
      exact h.key k hk

omit [DecidableEq P] in
theorem Accepted.commitsTo {publicKey : P} (h : Accepted C config publicKey) {key : UInt32 → S}
    (hkey : ∀ c ∈ config.commits, c.commit = key c.index • C.G) :
    CommitsTo C key config.commits :=
  ⟨h.distinct, fun c hc => (h.valid c hc).1, fun c hc => (h.valid c hc).2, hkey⟩

omit [DecidableEq P] in
/-- The aggregate of a quorum of distinct trustees is the weighted sum of their commitments. -/
theorem aggregateOverQuorum_eq (C : Suite S P) {quorum : List (OprfServerCommit P)}
    (hne : ∀ c ∈ quorum, c.index ≠ 0) : aggregateOverQuorum S quorum =
      .ok (quorum.map fun c => (weight (quorum.map (·.index)) c.index : S) • c.commit).sum := by
  have hindices : (quorum.map fun c => (c.index, c.commit)).map (·.1) = quorum.map (·.index) := by
    rw [List.map_map]
    rfl
  unfold aggregateOverQuorum
  rw [lagrangeCombine_eq C, hindices, List.map_map]
  · rfl
  · rw [hindices]
    intro j hj
    obtain ⟨c, hc, rfl⟩ := List.mem_map.mp hj
    exact hne c hc

/-! ## 4. Keys on one polynomial -/

/-- The commitments are those of the values of `f`, of degree below the threshold. -/
structure SharesKey (C : Suite S P) (f : Polynomial S) (config : SbtSchemeConfig S P) : Prop where
  degree : f.degree < config.threshold
  commit : ∀ c ∈ config.commits, c.commit = polyKey f c.index • C.G

section Shared

variable {f : Polynomial S} {publicKey : P}

omit [DecidableEq P] in
theorem SharesKey.commitsTo (hf : SharesKey C f config) (h : Accepted C config publicKey) :
    CommitsTo C (polyKey f) config.commits := h.commitsTo hf.commit

omit [DecidableEq P] in
/-- Every quorum aggregates to the key of the value at 0. -/
theorem SharesKey.aggregate (hf : SharesKey C f config) {quorum : List (OprfServerCommit P)}
    (hnd : (quorum.map (·.index)).Nodup) (hsub : quorum ⊆ config.commits)
    (hne : ∀ c ∈ config.commits, c.index ≠ 0) (hlen : quorum.length = config.threshold) :
    aggregateOverQuorum S quorum = .ok (f.eval 0 • C.G) := by
  have hsum := sum_weight_polyKey C (f := f) hnd (by rw [List.length_map, hlen]; exact hf.degree)
  rw [aggregateOverQuorum_eq C fun c hc => hne c (hsub hc), ← hsum, List.map_map, List.sum_smul,
    List.map_map]
  refine congrArg (fun l : List P => Except.ok l.sum) (List.map_congr_left fun c hc => ?_)
  rw [hf.commit c (hsub hc), smul_smul]
  rfl

omit [DecidableEq P] in
/-- The public key is that of the value at 0. -/
theorem SharesKey.publicKey_eq (hf : SharesKey C f config) (h : Accepted C config publicKey) :
    publicKey = f.eval 0 • C.G := by
  have hagg := hf.aggregate (h.distinct.sublist ((List.take_sublist _ _).map _))
    (List.take_subset config.threshold config.commits) (fun c hc => (h.valid c hc).1)
    (by rw [List.length_take, Nat.min_eq_left h.threshold_le])
  exact Except.ok.inj (h.first.symm.trans hagg)

/-- A configuration of one sharing passes `new`, if its key is given or there are commitments for
    two quorums. -/
theorem SharesKey.new_ok (hf : SharesKey C f config) (hpos : 0 < config.threshold)
    (hle : config.threshold ≤ config.commits.length)
    (hsession : minSessionIdLen ≤ config.sessionId.length) (hdomain : config.h2cDomain ≠ [])
    (hvalid : ∀ c ∈ config.commits, c.index ≠ 0 ∧ c.commit ≠ 0)
    (hnd : (config.commits.map (·.index)).Nodup)
    (hpinned : 2 * config.threshold ≤ config.commits.length ∨
      config.expectedPublicKey = some (f.eval 0 • C.G))
    (hexpected : ∀ p, config.expectedPublicKey = some p → p = f.eval 0 • C.G)
    (hkey : ∀ k, config.secretKey = some k → k • C.G = f.eval 0 • C.G)
    (hzero : f.eval 0 • C.G ≠ 0) :
    SbtScheme.new C config = .ok (SbtScheme.ofConfig config (f.eval 0 • C.G)) := by
  have hne : ∀ c ∈ config.commits, c.index ≠ 0 := fun c hc => (hvalid c hc).1
  refine new_ok_iff.mpr ⟨_, ⟨hpos, hle, hsession, hdomain, hvalid, hnd, ?_, fun h2 => ?_, ?_,
    hzero, hexpected, hkey⟩, rfl⟩
  · exact hf.aggregate (hnd.sublist ((List.take_sublist _ _).map _)) (List.take_subset _ _) hne
      (by rw [List.length_take, Nat.min_eq_left hle])
  · have hsub : ((config.commits.drop config.threshold).take config.threshold).Sublist
        config.commits := (List.take_sublist _ _).trans (List.drop_sublist _ _)
    refine hf.aggregate (hnd.sublist (hsub.map _)) hsub.subset hne ?_
    rw [List.length_take, List.length_drop]
    omega
  · rcases hpinned with h | h
    · exact .inl h
    · exact .inr (by rw [h]; exact Option.some_ne_none _)

omit [DecidableEq P] in
theorem SharesKey.key_ne_zero (hf : SharesKey C f config) (h : Accepted C config publicKey) :
    f.eval 0 ≠ 0 := by
  intro h0
  refine h.nonzero ?_
  rw [hf.publicKey_eq h, h0, zero_smul]

/-- A scheme of the same configuration that also holds the key. -/
theorem SharesKey.new_withKey (hf : SharesKey C f config) {scheme : SbtScheme S P}
    (h : SbtScheme.new C config = .ok scheme) :
    SbtScheme.new C { config with secretKey := some (f.eval 0) } =
      .ok { scheme with secretKey := some (f.eval 0) } := by
  obtain ⟨publicKey, hacc, rfl⟩ := new_ok_iff.mp h
  refine new_ok_iff.mpr ⟨publicKey, { hacc with key := ?_ }, rfl⟩
  intro k hk
  cases hk
  exact (hf.publicKey_eq hacc).symm

end Shared

/-- Four trustees with the keys `7 + 5 i`, any two of whom make a quorum. -/
def sampleConfig : SbtSchemeConfig SampleScalar SamplePoint where
  pedersen := PedersenParams.new sampleSuite
  commits := [⟨1, (12, 0)⟩, ⟨2, (17, 0)⟩, ⟨3, (22, 0)⟩, ⟨4, (27, 0)⟩]
  threshold := 2
  h2cDomain := ascii "d"
  sessionId := List.replicate 16 0
  clientSecret := zero32
  expectedPublicKey := none
  secretKey := none

theorem sampleConfig_sharesKey : SharesKey sampleSuite (polyOf [7, 5]) sampleConfig := by
  refine ⟨degree_polyOf_lt [7, 5], fun c hc => ?_⟩
  have hkey : ∀ i, polyKey (polyOf [(7 : SampleScalar), 5]) i = 7 + indexScalar i * 5 := by
    intro i
    simp [polyKey]
  rw [hkey]
  simp only [sampleConfig, List.mem_cons, List.not_mem_nil, or_false] at hc
  rcases hc with rfl | rfl | rfl | rfl <;> decide

theorem sampleConfig_commitsTo :
    CommitsTo sampleSuite (polyKey (polyOf [7, 5])) sampleConfig.commits := by
  have hvalid : ∀ c ∈ sampleConfig.commits, c.index ≠ 0 ∧ c.commit ≠ 0 := by
    intro c hc
    simp only [sampleConfig, List.mem_cons, List.not_mem_nil, or_false] at hc
    rcases hc with rfl | rfl | rfl | rfl <;> decide
  exact ⟨by decide, fun c hc => (hvalid c hc).1, fun c hc => (hvalid c hc).2,
    sampleConfig_sharesKey.commit⟩

theorem sampleConfig_new : SbtScheme.new sampleSuite sampleConfig =
    .ok (SbtScheme.ofConfig sampleConfig (7, 0)) := by
  have hzero : (polyOf [(7 : SampleScalar), 5]).eval 0 • sampleSuite.G = (7, 0) := by
    rw [eval_polyOf_cons, zero_mul, add_zero]
    decide
  have hto := sampleConfig_commitsTo
  have h := sampleConfig_sharesKey.new_ok (by decide) (by decide) (by decide) (by decide)
    (fun c hc => ⟨hto.index c hc, hto.commit c hc⟩) hto.distinct (.inl (by decide))
    (fun p hp => nomatch hp) (fun k hk => nomatch hk) (by rw [hzero]; decide)
  rwa [hzero] at h

/-- The scheme of `sampleConfig`. -/
def sampleScheme : SbtScheme SampleScalar SamplePoint := SbtScheme.ofConfig sampleConfig (7, 0)

end Sbt

end Specter
