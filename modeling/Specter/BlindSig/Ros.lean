/-
  File:      Specter/BlindSig/Ros.lean
  Subject:   SIGNING SESSIONS SIDE BY SIDE: what a requester gets that waits for the nonces of all
             its sessions before it sends a challenge (`ClauseSession` and `SignerSessionState` of
             specter-blind-sig).

  The signers are those of the source; the requester is not, it sends challenges of its own. It
  prepares two blindings for each session and picks between them so that the sessions' answers
  add up to one more signature, on a message no session was for.

  * `OneMore` -- the requester: what it prepares, sends and returns, from the nonces and the
    answers alone;
  * `OneMore.signature_signs`, `lastSignature_signs` -- all its signatures are signatures;
  * `threshold_sessions_forge` -- `n` threshold sessions give `n + 1` signatures;
  * `clause_sessions_forge` -- `n` clause sessions give `2 * n + 1`, and each of them two alone.
-/
import Specter.BlindSig.Blindness
import Specter.BlindSig.Threshold
import Specter.Lib.Ros

namespace Specter

open Lib

variable {S P : Type} [Field S] [AddCommGroup P] [Module S P]

/-! ## 1. The signers -/

/-- The secret nonces of a clause session. -/
structure ClauseSession (S : Type) where
  k0 : S
  k1 : S

/-- `ClauseSession::respond`: both challenges are answered. -/
def ClauseSession.respond (session : ClauseSession S) (e0 e1 signerSecret : S) : S × S :=
  (session.k0 + e0 * signerSecret, session.k1 + e1 * signerSecret)

/-- The secret nonce of one signer in a threshold session. -/
structure SignerSessionState (S : Type) where
  nonce : S

def SignerSessionState.nonceCommitment (C : Suite S P) (session : SignerSessionState S) : P :=
  session.nonce • C.G

/-- `signer_partial_response`. -/
def signerPartialResponse (session : SignerSessionState S) (blindedChallenge : S)
    (keyShare : Share S) : S :=
  session.nonce + blindedChallenge * keyShare.y

/-! ## 2. The requester -/

/-- A scalar's bytes spell it, lowest byte first, in at most `n` bits. -/
def CanonicalScalars (C : Suite S P) (n : ℕ) : Prop :=
  ∀ s, ofLE (C.asBytes s).toList < 2 ^ n ∧ ((ofLE (C.asBytes s).toList : ℕ) : S) = s

/-- What a requester prepares for `n` sessions: a message for each, two blindings to choose from,
    and one message more. -/
structure OneMore (S : Type) (n : ℕ) where
  messages : Fin n → Bytes
  factors : Fin n → Bool → BlindingFactors S
  last : Bytes

namespace OneMore

variable {n : ℕ} (A : OneMore S n) (C : Suite S P) (hash : P → Bytes → S) (pk : P) (rs : Fin n → P)

/-- The hash of the blinded nonce, for either choice of a session. -/
def hashed (i : Fin n) (choice : Bool) : S :=
  hash (SchnorrBlind.blindedNonce C (A.factors i choice) (rs i) pk) (A.messages i)

/-- The blinded challenge of either choice. -/
def challenge (i : Fin n) (choice : Bool) : S :=
  A.hashed C hash pk rs i choice + (A.factors i choice).beta

/-- The nonce of the signature nobody is asked for, and its challenge. -/
def lastNonce : P := ∑ i, Ros.weight (A.challenge C hash pk rs) i • rs i

def lastChallenge : S := hash (A.lastNonce C hash pk rs) A.last

/-- The choices that spell what the last challenge needs. -/
def choice (i : Fin n) : Bool :=
  Ros.digitsOf (ofLE (C.asBytes
    (A.lastChallenge C hash pk rs - Ros.offset (A.challenge C hash pk rs))).toList) i

/-- What the session is sent. -/
def sends (i : Fin n) : S := A.challenge C hash pk rs i (A.choice C hash pk rs i)

/-- The signature on a session's message, from its answer. -/
def signature (i : Fin n) (answer : S) : BlindSignature S where
  s := answer + (A.factors i (A.choice C hash pk rs i)).alpha
  e := A.hashed C hash pk rs i (A.choice C hash pk rs i)

/-- The signature on the message without a session, from all answers. -/
def lastSignature (answers : Fin n → S) : BlindSignature S where
  s := ∑ i, Ros.weight (A.challenge C hash pk rs) i * answers i
  e := A.lastChallenge C hash pk rs

/-- The two choices of every session differ in what they send. -/
def Distinct : Prop :=
  ∀ i, A.challenge C hash pk rs i false ≠ A.challenge C hash pk rs i true

instance [DecidableEq S] : Decidable (A.Distinct C hash pk rs) :=
  inferInstanceAs (Decidable (∀ i,
    A.challenge C hash pk rs i false ≠ A.challenge C hash pk rs i true))

/-- The signature is one for the message: the hash of its nonce is its challenge. -/
def Signs (C : Suite S P) (hash : P → Bytes → S) (pk : P) (message : Bytes)
    (sig : BlindSignature S) : Prop :=
  hash (sig.s • C.G - sig.e • pk) message = sig.e

variable {A C hash pk rs}

/-- A session's answer gives the signature on its message. -/
theorem signature_signs {i : Fin n} {answer : S}
    (h : Sigma.Accepts C.G pk (rs i) (A.sends C hash pk rs i) answer) :
    Signs C hash pk (A.messages i) (A.signature C hash pk rs i answer) :=
  congrArg (hash · (A.messages i)) (SchnorrBlind.unblinded_nonce h)

/-- **All answers together give the signature on the message without a session.** -/
theorem lastSignature_signs (hcanon : CanonicalScalars C n) (hdist : A.Distinct C hash pk rs)
    {answers : Fin n → S}
    (h : ∀ i, Sigma.Accepts C.G pk (rs i) (A.sends C hash pk rs i) (answers i)) :
    Signs C hash pk A.last (A.lastSignature C hash pk rs answers) := by
  obtain ⟨hlt, hval⟩ := hcanon
    (A.lastChallenge C hash pk rs - Ros.offset (A.challenge C hash pk rs))
  have hspelt : Ros.spelt (A.choice C hash pk rs) =
      A.lastChallenge C hash pk rs - Ros.offset (A.challenge C hash pk rs) :=
    (Ros.spelt_digitsOf hlt).trans hval
  have hacc : (∑ i, Ros.weight (A.challenge C hash pk rs) i * answers i) • C.G =
      A.lastNonce C hash pk rs + A.lastChallenge C hash pk rs • pk := Ros.forged hdist hspelt h
  unfold Signs lastSignature
  dsimp only
  rw [hacc, add_sub_cancel_right]
  rfl

end OneMore

/-! ## 3. Sessions of the two kinds -/

/-- What the aggregator makes of one threshold session's nonce commitments. -/
def combinedNonce (C : Suite S P) (keyset : ThresholdKeyset S P) (signers : List SignerId)
    (states : Nat → SignerSessionState S) : P :=
  (signers.zipIdx.map fun p =>
    Threshold.lagrangeCoefficient keyset signers p.1 • (states p.2).nonceCommitment C).sum

/-- And of the partial responses. -/
def combinedResponse (keyset : ThresholdKeyset S P) (signers : List SignerId)
    (states : Nat → SignerSessionState S) (blindedChallenge : S) : S :=
  (signers.zipIdx.map fun p =>
    Threshold.lagrangeCoefficient keyset signers p.1 *
      signerPartialResponse (states p.2) blindedChallenge (Threshold.shareOf keyset p.1)).sum

/-- **Threshold signers that keep sessions open side by side sign once more than they are asked
    to.** With a sound keyset, enough distinct known signers in each of `n` sessions, and scalars
    of at most `n` bits, a requester that has two blindings with different challenges for each
    session gets signatures on `n` messages and on one more, all accepted under the group key,
    from one answer per session. -/
theorem threshold_sessions_forge {C : Suite S P} {keyset : ThresholdKeyset S P}
    {f : Polynomial S} (hs : Threshold.Sound C keyset f) {n : ℕ} (hcanon : CanonicalScalars C n)
    {signers : Fin n → List SignerId} (hsigners : ∀ i, ¬ Threshold.Refused keyset (signers i))
    (states : Fin n → Nat → SignerSessionState S) (A : OneMore S n)
    (hdist : A.Distinct C (fun r m => SchnorrBlind.hashChallenge C r keyset.groupPublic m)
      keyset.groupPublic fun i => combinedNonce C keyset (signers i) (states i)) :
    let pk := keyset.groupPublic
    let hash := fun r m => SchnorrBlind.hashChallenge C r pk m
    let rs := fun i => combinedNonce C keyset (signers i) (states i)
    let answers := fun i =>
      combinedResponse keyset (signers i) (states i) (A.sends C hash pk rs i)
    (∀ i, SchnorrBlind.verify C pk (A.messages i) (A.signature C hash pk rs i (answers i)) =
        true) ∧
      SchnorrBlind.verify C pk A.last (A.lastSignature C hash pk rs answers) = true := by
  intro pk hash rs answers
  have h : ∀ i, Sigma.Accepts C.G pk (rs i) (A.sends C hash pk rs i) (answers i) := by
    intro i
    obtain ⟨hlen, hnd, hknown⟩ := Threshold.not_refused_iff.mp (hsigners i)
    have hacc := Threshold.responses_accepted hs hlen hnd hknown (fun j => (states i j).nonce)
      (A.sends C hash pk rs i)
    rw [List.map_map, List.map_map] at hacc
    exact hacc
  exact ⟨fun i => SchnorrBlind.verify_iff.mpr (OneMore.signature_signs (h i)),
    SchnorrBlind.verify_iff.mpr (OneMore.lastSignature_signs hcanon hdist h)⟩

section Sample

theorem sample_canonicalScalars {n : ℕ} (hn : 89 ≤ n) : CanonicalScalars sampleSuite n := by
  intro s
  have hlt : s.val < 2 ^ 89 := lt_trans (ZMod.val_lt s) (by norm_num)
  have hval : ofLE (sampleSuite.asBytes s).toList = s.val := by
    show ofLE (leBytes 32 s.val) = s.val
    rw [ofLE_leBytes, Nat.mod_eq_of_lt (lt_trans hlt (by norm_num))]
  rw [hval]
  exact ⟨lt_of_lt_of_le hlt (Nat.pow_le_pow_right (by norm_num) hn), ZMod.natCast_zmod_val s⟩

/-- One message for all sessions and another one, and a first factor of 0 or 1. -/
def sampleOneMore (n : ℕ) : OneMore SampleScalar n where
  messages _ := [4]
  factors _ choice := ⟨if choice then 1 else 0, 0⟩
  last := [1, 2, 3]

/-- The two choices of the sample, for one nonce. -/
def sampleChoice (hash : SamplePoint → Bytes → SampleScalar) (pk r : SamplePoint)
    (choice : Bool) : SampleScalar :=
  hash (SchnorrBlind.blindedNonce sampleSuite ⟨if choice then 1 else 0, 0⟩ r pk) [4] + 0

theorem sampleOneMore_distinct {n : ℕ} {hash : SamplePoint → Bytes → SampleScalar}
    {pk : SamplePoint} {rs : Fin n → SamplePoint}
    (h : ∀ i, sampleChoice hash pk (rs i) false ≠ sampleChoice hash pk (rs i) true) :
    (sampleOneMore n).Distinct sampleSuite hash pk rs := h

/-- The choices in a session of the signers 3 and 1. -/
def sampleThreshold (keyset : ThresholdKeyset SampleScalar SamplePoint) : Bool → SampleScalar :=
  sampleChoice (fun r m => SchnorrBlind.hashChallenge sampleSuite r keyset.groupPublic m)
    keyset.groupPublic (combinedNonce sampleSuite keyset [3, 1] fun j => ⟨(j + 5 : ℕ)⟩)

/-- Two of a dealer's three signers, in 89 sessions for one message, sign another one. -/
theorem threshold_sessions_forge_ninety :
    ∃ keyset, Threshold.dealerKeygen (P := SamplePoint) sampleSuite 2 3 ⟨7, fun i => i + 9⟩ =
        some keyset ∧
      ∃ (sigs : Fin 89 → BlindSignature SampleScalar) (last : BlindSignature SampleScalar),
        (∀ i, SchnorrBlind.verify sampleSuite keyset.groupPublic [4] (sigs i) = true) ∧
        SchnorrBlind.verify sampleSuite keyset.groupPublic [1, 2, 3] last = true := by
  have hrun : ((Threshold.dealerKeygen (P := SamplePoint) sampleSuite 2 3
      ⟨7, fun i => i + 9⟩).map fun keyset => decide (keyset.threshold = 2 ∧
        (keyset.shares 3).isSome ∧ (keyset.shares 1).isSome ∧
        sampleThreshold keyset false ≠ sampleThreshold keyset true)) = some true := by
    decide +kernel
  obtain ⟨keyset, hkeys, hfacts⟩ := Option.map_eq_some_iff.mp hrun
  obtain ⟨hthr, hthree, hfirst, hdiffer⟩ := of_decide_eq_true hfacts
  have htaken : ¬ Threshold.Refused keyset [3, 1] := by
    refine Threshold.not_refused_iff.mpr ⟨by simp [hthr], by decide, ?_⟩
    simp [hthree, hfirst]
  -- all sessions are alike, so what holds of one holds of 89
  obtain ⟨hsigs, hlast⟩ := threshold_sessions_forge (Threshold.dealerKeygen_sound hkeys)
    (sample_canonicalScalars (n := 89) le_rfl) (fun _ => htaken) (fun _ j => ⟨(j + 5 : ℕ)⟩)
    (sampleOneMore 89) (sampleOneMore_distinct fun _ => hdiffer)
  exact ⟨keyset, hkeys, _, _, hsigs, hlast⟩

end Sample

/-- **Clause sessions are no better**: a signer answers for both of its nonces, so that each session
    alone gives signatures on two messages, with any blindings, and `n` sessions side by side give
    signatures on `2 * n` messages and on one more as soon as scalars have at most `2 * n` bits. -/
theorem clause_sessions_forge (C : Suite S P) (secret : S) {n : ℕ}
    (sessions : Fin n → ClauseSession S) (A : OneMore S (n + n)) :
    let pk := secret • C.G
    let hash := fun r m => ClauseBlind.hashChallenge C r pk m
    let rs := Fin.append (fun i => (sessions i).k0 • C.G) fun i => (sessions i).k1 • C.G
    let answers := fun i => (sessions i).respond (A.sends C hash pk rs (Fin.castAdd n i))
      (A.sends C hash pk rs (Fin.natAdd n i)) secret
    (∀ i, ClauseBlind.verify C pk (A.messages (Fin.castAdd n i))
          (A.signature C hash pk rs (Fin.castAdd n i) (answers i).1) = true ∧
        ClauseBlind.verify C pk (A.messages (Fin.natAdd n i))
          (A.signature C hash pk rs (Fin.natAdd n i) (answers i).2) = true) ∧
      (CanonicalScalars C (n + n) → A.Distinct C hash pk rs →
        ClauseBlind.verify C pk A.last (A.lastSignature C hash pk rs
          (Fin.append (fun i => (answers i).1) fun i => (answers i).2)) = true) := by
  intro pk hash rs answers
  have h0 : ∀ i, Sigma.Accepts C.G pk (rs (Fin.castAdd n i))
      (A.sends C hash pk rs (Fin.castAdd n i)) (answers i).1 := by
    intro i
    have hacc := Sigma.Accepts.of_witness C.G secret (sessions i).k0
      (A.sends C hash pk rs (Fin.castAdd n i))
    rwa [show rs (Fin.castAdd n i) = (sessions i).k0 • C.G from Fin.append_left _ _ i]
  have h1 : ∀ i, Sigma.Accepts C.G pk (rs (Fin.natAdd n i))
      (A.sends C hash pk rs (Fin.natAdd n i)) (answers i).2 := by
    intro i
    have hacc := Sigma.Accepts.of_witness C.G secret (sessions i).k1
      (A.sends C hash pk rs (Fin.natAdd n i))
    rwa [show rs (Fin.natAdd n i) = (sessions i).k1 • C.G from Fin.append_right _ _ i]
  refine ⟨fun i => ⟨ClauseBlind.verify_iff.mpr (OneMore.signature_signs (h0 i)),
    ClauseBlind.verify_iff.mpr (OneMore.signature_signs (h1 i))⟩, fun hcanon hdist => ?_⟩
  refine ClauseBlind.verify_iff.mpr (OneMore.lastSignature_signs hcanon hdist fun j => ?_)
  refine Fin.addCases (fun i => ?_) (fun i => ?_) j
  · rw [Fin.append_left]
    exact h0 i
  · rw [Fin.append_right]
    exact h1 i

section Sample

/-- The choices for a nonce of a clause session. -/
def sampleClause (k : SampleScalar) : Bool → SampleScalar :=
  sampleChoice (fun r m => ClauseBlind.hashChallenge sampleSuite r
    ((7 : SampleScalar) • sampleSuite.G) m) ((7 : SampleScalar) • sampleSuite.G)
    (k • sampleSuite.G)

theorem sampleClause_differ : sampleClause 5 false ≠ sampleClause 5 true ∧
    sampleClause 8 false ≠ sampleClause 8 true := by
  decide +kernel

theorem sampleClause_distinct : (sampleOneMore (45 + 45)).Distinct sampleSuite
    (fun r m => ClauseBlind.hashChallenge sampleSuite r ((7 : SampleScalar) • sampleSuite.G) m)
    ((7 : SampleScalar) • sampleSuite.G)
    (Fin.append (fun _ : Fin 45 => (5 : SampleScalar) • sampleSuite.G)
      fun _ : Fin 45 => (8 : SampleScalar) • sampleSuite.G) := by
  refine sampleOneMore_distinct fun j => ?_
  refine Fin.addCases (fun i => ?_) (fun i => ?_) j
  · rw [Fin.append_left]
    exact sampleClause_differ.1
  · rw [Fin.append_right]
    exact sampleClause_differ.2

/-- 45 clause sessions: 90 signatures on one message and one on another. -/
theorem clause_sessions_forge_ninety_one :
    ∃ (sigs : Fin 45 → BlindSignature SampleScalar × BlindSignature SampleScalar)
      (last : BlindSignature SampleScalar),
      (∀ i, ClauseBlind.verify sampleSuite ((7 : SampleScalar) • sampleSuite.G) [4]
          (sigs i).1 = true ∧
        ClauseBlind.verify sampleSuite ((7 : SampleScalar) • sampleSuite.G) [4]
          (sigs i).2 = true) ∧
      ClauseBlind.verify sampleSuite ((7 : SampleScalar) • sampleSuite.G) [1, 2, 3] last =
        true := by
  obtain ⟨htwo, hmore⟩ := clause_sessions_forge sampleSuite 7 (fun _ : Fin 45 => ⟨5, 8⟩)
    (sampleOneMore (45 + 45))
  exact ⟨fun i => (_, _), _, htwo,
    hmore (sample_canonicalScalars (by norm_num)) sampleClause_distinct⟩

end Sample

end Specter
