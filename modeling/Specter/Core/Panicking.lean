/-
  File:      Specter/Core/Panicking.lean
  Subject:   WHERE VERIFICATION PANICS (`verify_presentation` of
             specter-credential/src/presentation.rs, `verify_token` of specter-core/src/verify.rs,
             `load` of specter-core/src/wallet.rs).

  `verify_presentation` checks the signature and the disclosed positions, and then indexes
  `proof_response` up to the number of hidden positions, whatever its length.

  * `Answerable` -- it does not come to that, or there are responses enough;
  * `Wallet.reached` -- the tokens `load` comes to verify;
  * `verification_returns_iff` -- the three functions return exactly on answerable
    presentations.
-/
import Specter.Core.Canonical
import Specter.Core.Wallet

namespace Specter

open Lib Serde

variable {S P : Type} [Field S] [AddCommGroup P] [Module S P]

/-! ## 1. Presentations -/

namespace Presentation

/-- A check before the indexing fails, or there is a response for every hidden position and one
    behind them. -/
def Answerable (C : Suite S P) (pres : Presentation S P) : Prop :=
  Issuer.signatureValid C pres.commitment pres.issuerPk pres.credSignatureS
      pres.credSignatureE = false ∨
    (∃ d ∈ pres.disclosed, Attributes.count ≤ d.1) ∨
    pres.hidden.length < pres.proofResponse.length

variable {C : Suite S P} {pp : PedersenParams P} {pres : Presentation S P}

/-- The indexing panics exactly where a response is missing. -/
theorem verifyPresentation_eq_none_iff :
    pres.verifyPresentation C pp = none ↔
      Issuer.signatureValid C pres.commitment pres.issuerPk pres.credSignatureS
          pres.credSignatureE = true ∧
        (∀ d ∈ pres.disclosed, d.1 < Attributes.count) ∧
        pres.proofResponse.length ≤ pres.hidden.length := by
  obtain ⟨hne, heq⟩ | ⟨⟨hsig, hidx⟩, ⟨hlen, accepted, heq, _⟩ | ⟨hlen, heq⟩⟩ :=
    verifyPresentation_cases C pp pres
  · rw [heq]
    exact ⟨fun h => (nomatch h), fun h => absurd ⟨h.1, h.2.1⟩ hne⟩
  · rw [heq]
    exact ⟨fun h => (nomatch h), fun h => absurd h.2.2 (Nat.not_le.mpr hlen)⟩
  · exact ⟨fun _ => ⟨hsig, hidx, hlen⟩, fun _ => heq⟩

theorem verifyPresentation_returns_iff :
    pres.verifyPresentation C pp ≠ none ↔ Answerable C pres := by
  rw [Ne, verifyPresentation_eq_none_iff]
  unfold Answerable
  rw [not_and_or, not_and_or, Bool.not_eq_true, Nat.not_le]
  simp only [not_forall, Nat.not_lt, exists_prop]

end Presentation

/-! ## 2. Tokens -/

/-- The value is refused at once, or the presentation is answerable. -/
def TokenAnswerable (C : Suite S P) (t : ProofCarryingToken S P) : Prop :=
  t.value = 0 ∨ ∀ pres ∈ t.presentation, Presentation.Answerable C pres

variable [DecidableEq P] {C : Suite S P} {U : CharTable} {A : Cipher} {gpk : P}
  {pp cpp : PedersenParams P} {now : UInt64}

theorem verifyToken_returns_iff {t : ProofCarryingToken S P} :
    verifyToken C t gpk pp cpp now ≠ none ↔ TokenAnswerable C t := by
  unfold verifyToken TokenAnswerable
  by_cases hvalue : t.value = 0
  · rw [if_pos hvalue]
    exact ⟨fun _ => .inl hvalue, fun _ h => (nomatch h)⟩
  · rw [if_neg hvalue, or_iff_right hvalue]
    unfold credentialVerdict
    cases hpres : t.presentation with
    | none => exact ⟨fun _ _ h => (nomatch h), fun _ h => (nomatch h)⟩
    | some pres =>
        have hreturns : pres.verifyPresentation C cpp ≠ none ↔ Presentation.Answerable C pres :=
          Presentation.verifyPresentation_returns_iff
        dsimp only
        cases hver : pres.verifyPresentation C cpp with
        | none =>
            rw [hver] at hreturns
            exact ⟨fun h => absurd rfl h, fun h => absurd rfl (hreturns.mpr (h pres rfl))⟩
        | some valid =>
            rw [hver] at hreturns
            constructor
            · intro _ p hp
              cases hp
              exact hreturns.mp fun h => (nomatch h)
            · intro _ h
              cases h

/-! ## 3. Wallets -/

namespace Wallet

/-- The tokens the loop of `load` comes to verify: all up to the first that does not decode or
    is not accepted. -/
def reachedTokens (C : Suite S P) (U : CharTable) (gpk : P) (pp cpp : PedersenParams P)
    (now : UInt64) : Nat → Bytes → List (ProofCarryingToken S P)
  | 0, _ => []
  | n + 1, rest =>
      if rest.length < 4 then []
      else
        let len := ofLE (rest.take 4)
        if (rest.drop 4).length < len then []
        else
          match deserializeToken C U ((rest.drop 4).take len) with
          | .error _ => []
          | .ok token => token ::
              match verifyToken C token gpk pp cpp now with
              | none => []
              | some vr =>
                  if vr.allValid = false then []
                  else reachedTokens C U gpk pp cpp now n ((rest.drop 4).drop len)

/-- A file that is long enough has room for its salt and its nonce. -/
theorem salt_inside {data : Bytes} (h : ¬ (data.length < 36 ∨ data.take 4 ≠ magic)) :
    ¬ 4 + 16 > data.length := by
  have hlen : ¬ data.length < 36 := fun hlt => h (.inl hlt)
  omega

theorem nonce_inside {data : Bytes} (h : ¬ (data.length < 36 ∨ data.take 4 ≠ magic)) :
    ¬ 20 + 12 > data.length := by
  have hlen : ¬ data.length < 36 := fun hlt => h (.inl hlt)
  omega

/-- The tokens `load` comes to verify, where the file opens. -/
def reached (C : Suite S P) (U : CharTable) (A : Cipher) (data passphrase : Bytes) (gpk : P)
    (pp cpp : PedersenParams P) (now : UInt64) : List (ProofCarryingToken S P) :=
  if h : data.length < 36 ∨ data.take 4 ≠ magic then []
  else
    let salt := slice data 4 16 (salt_inside h)
    let nonce := slice data 20 12 (nonce_inside h)
    let ctLen := ofLE ((data.drop 32).take 4)
    if 36 + ctLen > data.length then []
    else
      match A.decrypt ⟨salt, nonce, (data.drop 36).take ctLen⟩ passphrase with
      | .error _ => []
      | .ok payload =>
          if payload.length < 4 ∨ ofLE (payload.take 4) > maxTokensPerWallet then []
          else reachedTokens C U gpk pp cpp now (ofLE (payload.take 4)) (payload.drop 4)

/-- The loop returns exactly where the verification of every token it comes to does. -/
theorem loadTokens_returns_iff : ∀ (n : Nat) (rest : Bytes),
    loadTokens C U gpk pp cpp now n rest ≠ none ↔
      ∀ t ∈ reachedTokens C U gpk pp cpp now n rest, TokenAnswerable C t
  | 0, _ => ⟨fun _ t ht => (nomatch ht), fun _ h => (nomatch h)⟩
  | n + 1, rest => by
      unfold loadTokens reachedTokens
      by_cases hshort : rest.length < 4
      · rw [if_pos hshort, if_pos hshort]
        simp
      · rw [if_neg hshort, if_neg hshort]
        dsimp only
        by_cases hlen : (rest.drop 4).length < ofLE (rest.take 4)
        · rw [if_pos hlen, if_pos hlen]
          simp
        · rw [if_neg hlen, if_neg hlen]
          cases hdec : deserializeToken C U ((rest.drop 4).take (ofLE (rest.take 4))) with
          | error e => simp
          | ok token =>
              dsimp only
              have htoken : verifyToken C token gpk pp cpp now ≠ none ↔ TokenAnswerable C token :=
                verifyToken_returns_iff
              rw [List.forall_mem_cons, ← htoken]
              cases hver : verifyToken C token gpk pp cpp now with
              | none => simp
              | some vr =>
                  dsimp only
                  by_cases hall : vr.allValid = false
                  · rw [if_pos hall, if_pos hall]
                    simp
                  · rw [if_neg hall, if_neg hall,
                      ← loadTokens_returns_iff n ((rest.drop 4).drop (ofLE (rest.take 4)))]
                    cases loadTokens C U gpk pp cpp now n
                        ((rest.drop 4).drop (ofLE (rest.take 4))) with
                    | none => simp
                    | some res =>
                        cases res with
                        | error e => simp
                        | ok tokens => simp

theorem loadPayload_returns_iff (payload : Bytes) :
    loadPayload C U payload gpk pp cpp now ≠ none ↔
      ∀ t ∈ (if payload.length < 4 ∨ ofLE (payload.take 4) > maxTokensPerWallet then []
        else reachedTokens C U gpk pp cpp now (ofLE (payload.take 4)) (payload.drop 4)),
        TokenAnswerable C t := by
  unfold loadPayload
  by_cases hshort : payload.length < 4
  · rw [if_pos hshort, if_pos (.inl hshort)]
    simp
  · rw [if_neg hshort]
    dsimp only
    by_cases hcount : ofLE (payload.take 4) > maxTokensPerWallet
    · rw [if_pos hcount, if_pos (.inr hcount)]
      simp
    · rw [if_neg hcount, if_neg (by rintro (h | h); exacts [hshort h, hcount h]),
        ← loadTokens_returns_iff]
      cases loadTokens C U gpk pp cpp now (ofLE (payload.take 4)) (payload.drop 4) with
      | none => simp
      | some res =>
          cases res with
          | error e => simp
          | ok tokens => simp

theorem load_returns_iff (data passphrase : Bytes) :
    load C U A data passphrase gpk pp cpp now ≠ none ↔
      ∀ t ∈ reached C U A data passphrase gpk pp cpp now, TokenAnswerable C t := by
  unfold load reached
  by_cases hhead : data.length < 36 ∨ data.take 4 ≠ magic
  · rw [dif_pos hhead, dif_pos hhead]
    simp
  · rw [dif_neg hhead, dif_neg hhead]
    dsimp only
    by_cases hlen : 36 + ofLE ((data.drop 32).take 4) > data.length
    · rw [if_pos hlen, if_pos hlen]
      simp
    · rw [if_neg hlen, if_neg hlen]
      cases A.decrypt _ passphrase with
      | error e => simp
      | ok payload => exact loadPayload_returns_iff payload

end Wallet

/-! ## 4. Where they return -/

/-- **Where verification returns.** `verify_presentation` returns exactly on an answerable
    presentation, `verify_token` exactly on a token with such a presentation or none, and
    `load` exactly where every token it comes to verify is one. -/
theorem verification_returns_iff (C : Suite S P) (U : CharTable) (A : Cipher) (gpk : P)
    (pp cpp : PedersenParams P) (now : UInt64) :
    (∀ pres : Presentation S P,
      pres.verifyPresentation C cpp ≠ none ↔ Presentation.Answerable C pres) ∧
    (∀ t : ProofCarryingToken S P,
      verifyToken C t gpk pp cpp now ≠ none ↔ TokenAnswerable C t) ∧
    ∀ data passphrase : Bytes, Wallet.load C U A data passphrase gpk pp cpp now ≠ none ↔
      ∀ t ∈ Wallet.reached C U A data passphrase gpk pp cpp now, TokenAnswerable C t :=
  ⟨fun _ => Presentation.verifyPresentation_returns_iff, fun _ => verifyToken_returns_iff,
    fun data passphrase => Wallet.load_returns_iff data passphrase⟩

/-- A presentation signed by an issuer of the holder's own, without responses. -/
def sampleUnanswered : Presentation SampleScalar SamplePoint :=
  let issuer := Issuer.new sampleSuite 5
  let cred := issuer.issue sampleSuite ⟨true, true, "EU", true, 0⟩ ⟨21, 22⟩
  { Presentation.createPresentation sampleSuite cred [0, 1] issuer.pedersen fun j => j + 3 with
    proofResponse := [] }

/-- A token that carries it. -/
def sampleUnansweredToken : ProofCarryingToken SampleScalar SamplePoint :=
  { sampleBareToken with presentation := some sampleUnanswered }

/-- The token is decoded from its bytes; verifying its presentation, verifying it, and loading a
    wallet that holds it panic. -/
theorem unanswered_presentation_panics :
    deserializeToken sampleSuite asciiTable (serializeToken sampleSuite sampleUnansweredToken) =
        .ok sampleUnansweredToken ∧
      sampleUnanswered.verifyPresentation sampleSuite (PedersenParams.new sampleSuite) = none ∧
      verifyToken sampleSuite sampleUnansweredToken (7, 0) (PedersenParams.new sampleSuite)
        (PedersenParams.new sampleSuite) 0 = none ∧
      ∃ data, Wallet.save sampleSuite Wallet.sampleCipher ⟨[sampleUnansweredToken]⟩
          Wallet.samplePassphrase ⟨leArr 16 1, leArr 12 2⟩ = .ok data ∧
        Wallet.load sampleSuite asciiTable Wallet.sampleCipher data Wallet.samplePassphrase
          (7, 0) (PedersenParams.new sampleSuite) (PedersenParams.new sampleSuite) 0 = none := by
  have hfit : WireFits sampleUnansweredToken :=
    { steps := rfl
      credential := fun c hc => (nomatch hc)
      presentation := by
        intro p hp
        have hp' : sampleUnanswered = p := Option.some.inj hp
        rw [← hp']
        exact ⟨by decide +kernel, by decide +kernel, Nat.zero_le _⟩
      pool := by decide
      entries := fun e he => (nomatch he) }
  have hadm : Admitted asciiTable sampleUnansweredToken :=
    { value := by decide
      count := by decide
      chain := by decide
      jurisdiction := fun c hc => (nomatch hc)
      pool := by decide }
  have hdec : deserializeToken sampleSuite asciiTable
      (serializeToken sampleSuite sampleUnansweredToken) = .ok sampleUnansweredToken :=
    (deserializeToken_serializeToken_iff hfit).mpr ⟨hadm, rfl⟩
  have hpres : (sampleUnanswered.verifyPresentation sampleSuite
      (PedersenParams.new sampleSuite)).isNone := by decide +kernel
  have hver : (verifyToken sampleSuite sampleUnansweredToken (7, 0)
      (PedersenParams.new sampleSuite) (PedersenParams.new sampleSuite) 0).isNone := by
    decide +kernel
  have hlen : (serializeToken sampleSuite sampleUnansweredToken).length < 2 ^ 32 := by
    decide +kernel
  have hsave : ((Wallet.save sampleSuite Wallet.sampleCipher ⟨[sampleUnansweredToken]⟩
      Wallet.samplePassphrase ⟨leArr 16 1, leArr 12 2⟩).toOption.map fun data =>
        decide (data.length < 2 ^ 32)) = some true := by
    decide +kernel
  obtain ⟨data, hdata, hsize⟩ := Option.map_eq_some_iff.mp hsave
  refine ⟨hdec, Option.isNone_iff_eq_none.mp hpres, Option.isNone_iff_eq_none.mp hver, data,
    ok_of_toOption hdata, ?_⟩
  rw [Wallet.load_save (ok_of_toOption hdata) (of_decide_eq_true hsize)]
  exact Wallet.loadPayload_panics (show 1 ≤ 100000 by omega) hlen hdec
    (Option.isNone_iff_eq_none.mp hver)

end Specter
