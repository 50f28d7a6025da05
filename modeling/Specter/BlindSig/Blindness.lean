/-
  File:      Specter/BlindSig/Blindness.lean
  Subject:   PERFECT BLINDNESS of the two blind signature schemes
             (specter-blind-sig/src/schnorr_blind.rs, clause_blind.rs).

  What the signer sees of a session is its nonces, the challenges it is sent and its own
  responses. Whatever it saw and whatever signature comes up later under its key, there is
  exactly one way in which the requester could have drawn its blinding factors in that session
  and ended with that signature.

  * `Explains`, `ClauseExplains` -- the draw leads from the view to the signature;
  * `explains_iff`, `clauseExplains_iff` -- the one draw that does;
  * `perfect_blindness` -- so every view goes with every signature in exactly one way, and in
    the clause scheme in exactly one way for either choice.
-/
import Specter.BlindSig.ClauseBlind

namespace Specter

open Lib

variable {S P : Type} [Field S] [AddCommGroup P] [Module S P]

namespace SchnorrBlind

/-- What the signer sees of a session. -/
structure View (S P : Type) where
  r : P
  e : S
  sPrime : S

/-- The factors make the requester send the challenge of the view and unblind the response of
    the view to the signature. -/
def Explains (C : Suite S P) (pk : P) (view : View S P) (message : Bytes) (sig : BlindSignature S)
    (f : BlindingFactors S) : Prop :=
  blindChallenge C f view.r pk message = view.e ∧
    unblindSignature C view.sPrime f view.r pk message = sig

theorem explains_iff {C : Suite S P} {pk : P} {view : View S P} {message : Bytes}
    {sig : BlindSignature S} (hview : Sigma.Accepts C.G pk view.r view.e view.sPrime)
    (hsig : verify C pk message sig = true) (f : BlindingFactors S) :
    Explains C pk view message sig f ↔ f = ⟨sig.s - view.sPrime, view.e - sig.e⟩ := by
  obtain ⟨s, e⟩ := sig
  obtain ⟨α, β⟩ := f
  have hiff := hview.blinding_iff (H := fun p => hashChallenge C p pk message)
    (verify_iff.mp hsig) α β
  unfold Explains blindChallenge unblindSignature blindedNonce
  rw [BlindSignature.mk.injEq, BlindingFactors.mk.injEq]
  exact hiff

end SchnorrBlind

namespace ClauseBlind

/-- What the signer sees of a session with two nonces. -/
structure View (S P : Type) where
  r0 : P
  r1 : P
  e0 : S
  e1 : S
  s0 : S
  s1 : S

def ClauseExplains (C : Suite S P) (pk : P) (view : View S P) (message : Bytes)
    (sig : BlindSignature S) (rnd : ClauseRandom S) : Prop :=
  (clauseBlindChallenge C rnd view.r0 view.r1 pk message).2 = (view.e0, view.e1) ∧
    clauseUnblind C view.s0 view.s1 (clauseBlindChallenge C rnd view.r0 view.r1 pk message).1
      view.r0 view.r1 pk message = sig

theorem verify_iff {C : Suite S P} {pk : P} {message : Bytes} {sig : BlindSignature S} :
    verify C pk message sig = true ↔
      hashChallenge C (sig.s • C.G - sig.e • pk) pk message = sig.e := by
  unfold verify
  rw [beq_iff_eq, C.asBytes_inj]

/-- The draw with the choice `b`: the factors of the branch that is chosen, and for the decoy
    the challenge of the other. -/
theorem clauseExplains_iff {C : Suite S P} {pk : P} {view : View S P} {message : Bytes}
    {sig : BlindSignature S} (h0 : Sigma.Accepts C.G pk view.r0 view.e0 view.s0)
    (h1 : Sigma.Accepts C.G pk view.r1 view.e1 view.s1)
    (hsig : verify C pk message sig = true) (b : Bool) (rnd : ClauseRandom S) :
    rnd.chosen = b ∧ ClauseExplains C pk view message sig rnd ↔
      rnd = ⟨b, sig.s - select view.s0 view.s1 b, select view.e0 view.e1 b - sig.e,
        select view.e1 view.e0 b⟩ := by
  obtain ⟨s, e⟩ := sig
  obtain ⟨chosen, α, β, decoy⟩ := rnd
  have hhash := verify_iff.mp hsig
  -- the two challenges, the one sent for the chosen nonce and the decoy, and the signature
  have hbranch : ∀ {r : P} {c z c' : S}, Sigma.Accepts C.G pk r c z →
      ((hashChallenge C (r + α • C.G + β • pk) pk message + β = c ∧ decoy = c') ∧
        (z + α = s ∧ hashChallenge C (r + α • C.G + β • pk) pk message = e) ↔
        α = s - z ∧ β = c - e ∧ decoy = c') := by
    intro r c z c' h
    have hiff := h.blinding_iff (H := fun p => hashChallenge C p pk message) hhash α β
    constructor
    · rintro ⟨⟨hc, hd⟩, hs, he⟩
      obtain ⟨hα, hβ⟩ := hiff.mp ⟨hc, hs, he⟩
      exact ⟨hα, hβ, hd⟩
    · rintro ⟨hα, hβ, hd⟩
      obtain ⟨hc, hs, he⟩ := hiff.mpr ⟨hα, hβ⟩
      exact ⟨⟨hc, hd⟩, hs, he⟩
  rw [ClauseRandom.mk.injEq]
  refine and_congr_right fun hb => ?_
  subst hb
  unfold ClauseExplains clauseBlindChallenge clauseUnblind
  rw [Prod.mk.injEq, BlindSignature.mk.injEq]
  cases chosen with
  | false => exact hbranch h0
  | true =>
      -- the decoy stands first
      refine Iff.trans (and_congr_left fun _ => and_comm) ?_
      exact hbranch h1

end ClauseBlind

/-- **Perfect blindness.** For every key, every view the signer's responses answer and every
    signature accepted under the key on any message, exactly one pair of blinding factors leads
    from the view to the signature; in the clause scheme, for either choice, exactly one pair of
    factors with one decoy. -/
theorem perfect_blindness (C : Suite S P) (pk : P) (message : Bytes) (sig : BlindSignature S) :
    (∀ view : SchnorrBlind.View S P, Sigma.Accepts C.G pk view.r view.e view.sPrime →
      SchnorrBlind.verify C pk message sig = true →
      ∃! f, SchnorrBlind.Explains C pk view message sig f) ∧
    ∀ view : ClauseBlind.View S P, Sigma.Accepts C.G pk view.r0 view.e0 view.s0 →
      Sigma.Accepts C.G pk view.r1 view.e1 view.s1 →
      ClauseBlind.verify C pk message sig = true → ∀ b : Bool,
      ∃! rnd, rnd.chosen = b ∧ ClauseBlind.ClauseExplains C pk view message sig rnd := by
  refine ⟨fun view hview hsig => ?_, fun view h0 h1 hsig b => ?_⟩
  · refine ⟨_, (SchnorrBlind.explains_iff hview hsig _).mpr rfl, fun f hf => ?_⟩
    exact (SchnorrBlind.explains_iff hview hsig f).mp hf
  · refine ⟨_, (ClauseBlind.clauseExplains_iff h0 h1 hsig b _).mpr rfl, fun rnd hrnd => ?_⟩
    exact (ClauseBlind.clauseExplains_iff h0 h1 hsig b rnd).mp hrnd

/-- A signature made in a session with the nonce `11 • G` under the key of the secret 7, and one
    made with two nonces. -/
def sampleBlindSig : BlindSignature SampleScalar :=
  let r : SamplePoint := 11 • sampleSuite.G
  let pk : SamplePoint := 7 • sampleSuite.G
  let e := SchnorrBlind.blindChallenge sampleSuite ⟨5, 6⟩ r pk [1, 2]
  SchnorrBlind.unblindSignature sampleSuite (11 + e * 7) ⟨5, 6⟩ r pk [1, 2]

def sampleClauseSig : BlindSignature SampleScalar :=
  let r0 : SamplePoint := 11 • sampleSuite.G
  let r1 : SamplePoint := 12 • sampleSuite.G
  let pk : SamplePoint := 7 • sampleSuite.G
  let sent := ClauseBlind.clauseBlindChallenge sampleSuite ⟨true, 5, 6, 3⟩ r0 r1 pk [1, 2]
  ClauseBlind.clauseUnblind sampleSuite (11 + sent.2.1 * 7) (12 + sent.2.2 * 7) sent.1 r0 r1 pk
    [1, 2]

/-- The signatures go with sessions they were not made in, with the nonces `13 • G` and
    `14 • G`, in exactly one way too. -/
theorem perfect_blindness_other_session :
    (∃! f, SchnorrBlind.Explains sampleSuite (7 • sampleSuite.G)
      ⟨(13 : SampleScalar) • sampleSuite.G, 4, 13 + 4 * 7⟩ [1, 2] sampleBlindSig f) ∧
    ∃! rnd, rnd.chosen = false ∧ ClauseBlind.ClauseExplains sampleSuite (7 • sampleSuite.G)
      ⟨(13 : SampleScalar) • sampleSuite.G, (14 : SampleScalar) • sampleSuite.G, 4, 5,
        13 + 4 * 7, 14 + 5 * 7⟩ [1, 2] sampleClauseSig rnd := by
  refine ⟨?_, ?_⟩
  · exact (perfect_blindness sampleSuite (7 • sampleSuite.G) [1, 2] sampleBlindSig).1 _
      (by decide +kernel) (by decide +kernel)
  · exact (perfect_blindness sampleSuite (7 • sampleSuite.G) [1, 2] sampleClauseSig).2 _
      (by decide +kernel) (by decide +kernel) (by decide +kernel) false

end Specter
