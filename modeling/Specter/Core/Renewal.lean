/-
  File:      Specter/Core/Renewal.lean
  Subject:   RENEWING A TOKEN (specter-core/src/renewal.rs).

  `renewToken` burns the old nullifier before it asks the mint for the replacement, so a mint
  error leaves the set changed.

  * `renewToken_inv` -- what it does, in cases;
  * `renewToken_spends`, `renewToken_issued` -- it spends its input, for an issued token.
-/
import Specter.Core.Mint

namespace Specter

open Lib

variable {S P : Type} [Field S] [AddCommGroup P] [Module S P] [DecidableEq P]

structure RenewalResult (S P : Type) where
  newToken : ProofCarryingToken S P
  oldNullifier : Bytes32

inductive RenewalError where
  | invalidSignature
  | invalidValue
  | invalidFoldProof
  | invalidCredential
  | alreadySpent
  | mintError (reason : String)
  deriving DecidableEq

def RenewalError.display : RenewalError → String
  | .invalidSignature => "old token has invalid signature"
  | .invalidValue => "old token has invalid value commitment"
  | .invalidFoldProof => "old token has invalid fold proof"
  | .invalidCredential => "old token has invalid credential presentation"
  | .alreadySpent => "old token has already been spent or renewed"
  | .mintError reason => "mint error: " ++ reason

/-- `renew_token`; `none` where the verification panics. -/
def renewToken (C : Suite S P) (oldToken : ProofCarryingToken S P) (mint : Mint S P)
    (signers : List SignerId) (nullifierSet : NullifierSet) (rnd : IssueRandom S) :
    Option (Except RenewalError (RenewalResult S P) × NullifierSet) :=
  match verifyToken C oldToken mint.groupPublicKey mint.pedersen
      mint.credentialIssuer.pedersen 0 with
  | none => none
  | some vr => some <|
      if vr.signatureValid = false then (.error .invalidSignature, nullifierSet)
      else if vr.valueValid = false then (.error .invalidValue, nullifierSet)
      else if vr.foldValid = false then (.error .invalidFoldProof, nullifierSet)
      else if vr.credentialValid = some false then (.error .invalidCredential, nullifierSet)
      else
        let oldNullifier := oldToken.computeNullifier C
        match nullifierSet.insert oldNullifier with
        | (false, ns) => (.error .alreadySpent, ns)
        | (true, ns) =>
            match mint.issue C oldToken.value signers
                (oldToken.credential.map (·.attributes)) rnd with
            | .error e => (.error (.mintError e.display), ns)
            | .ok newToken => (.ok { newToken := newToken, oldNullifier := oldNullifier }, ns)

/-- The four verdicts `renew_token` asks for; the bound is not among them. -/
structure RenewalVerdicts (vr : VerificationResult) : Prop where
  signature : vr.signatureValid = true
  value : vr.valueValid = true
  fold : vr.foldValid = true
  credential : vr.credentialValid ≠ some false

/-- The old token passes the verification of a renewal. -/
def Renewable (C : Suite S P) (mint : Mint S P) (token : ProofCarryingToken S P) : Prop :=
  ∃ vr, verifyToken C token mint.groupPublicKey mint.pedersen
    mint.credentialIssuer.pedersen 0 = some vr ∧ RenewalVerdicts vr

theorem renewToken_returns {C : Suite S P} {token : ProofCarryingToken S P} {mint : Mint S P}
    (h : Renewable C mint token) (signers : List SignerId) (ns : NullifierSet)
    (rnd : IssueRandom S) : ∃ out, renewToken C token mint signers ns rnd = some out := by
  obtain ⟨vr, hvr, _⟩ := h
  unfold renewToken
  rw [hvr]
  exact ⟨_, rfl⟩

/-- **What `renewToken` does.** A token that is not verified or was spent before is refused with
    the set as it was. Any other is burned first; then the answer is the mint's. -/
theorem renewToken_inv {C : Suite S P} {token : ProofCarryingToken S P} {mint : Mint S P}
    {signers : List SignerId} {ns ns' : NullifierSet} {rnd : IssueRandom S}
    {res : Except RenewalError (RenewalResult S P)}
    (h : renewToken C token mint signers ns rnd = some (res, ns')) :
    (∃ e, res = .error e ∧ ns' = ns ∧
      (¬ Renewable C mint token ∨ token.computeNullifier C ∈ ns.nullifiers)) ∨
    (Renewable C mint token ∧ Burned C token ns ns' ∧
      ((∃ e, mint.issue C token.value signers (token.credential.map (·.attributes)) rnd =
          .error e ∧ res = .error (.mintError e.display)) ∨
        ∃ newToken, mint.issue C token.value signers (token.credential.map (·.attributes)) rnd =
          .ok newToken ∧ res = .ok ⟨newToken, token.computeNullifier C⟩)) := by
  unfold renewToken at h
  split at h
  · cases h
  rename_i vr hvr
  rw [Option.some.injEq] at h
  have hnot : ¬ RenewalVerdicts vr → ¬ Renewable C mint token := by
    rintro hverdicts ⟨vr', hvr', hok⟩
    rw [hvr] at hvr'
    cases hvr'
    exact hverdicts hok
  rcases refused_or h with ⟨hsig, e, hres, hns⟩ | ⟨hsig, h⟩
  · exact .inl ⟨e, hres, hns, .inl (hnot fun hv => Bool.false_ne_true (hsig ▸ hv.signature))⟩
  rcases refused_or h with ⟨hval, e, hres, hns⟩ | ⟨hval, h⟩
  · exact .inl ⟨e, hres, hns, .inl (hnot fun hv => Bool.false_ne_true (hval ▸ hv.value))⟩
  rcases refused_or h with ⟨hfold, e, hres, hns⟩ | ⟨hfold, h⟩
  · exact .inl ⟨e, hres, hns, .inl (hnot fun hv => Bool.false_ne_true (hfold ▸ hv.fold))⟩
  rcases refused_or h with ⟨hcred, e, hres, hns⟩ | ⟨hcred, h⟩
  · exact .inl ⟨e, hres, hns, .inl (hnot fun hv => hv.credential hcred)⟩
  have hok : Renewable C mint token :=
    ⟨vr, hvr, by simpa using hsig, by simpa using hval, by simpa using hfold, hcred⟩
  dsimp only at h
  rcases hins : ns.insert (token.computeNullifier C) with ⟨fresh, ns₁⟩
  rw [hins] at h
  cases fresh with
  | false =>
      obtain ⟨hmem, hsame⟩ := NullifierSet.insert_false hins
      cases h
      exact .inl ⟨_, rfl, hsame, .inr hmem⟩
  | true =>
      dsimp only at h
      split at h
      · rename_i e he
        cases h
        exact .inr ⟨hok, burned_of_insert hins, .inl ⟨e, he, rfl⟩⟩
      · rename_i t ht
        cases h
        exact .inr ⟨hok, burned_of_insert hins, .inr ⟨t, ht, rfl⟩⟩

/-- The tokens a renewal returns. -/
def renewalOutputs (res : Except RenewalError (RenewalResult S P)) :
    Option (List (ProofCarryingToken S P)) :=
  res.toOption.map fun r => [r.newToken]

/-- **`renewToken` spends its input.** -/
theorem renewToken_spends {C : Suite S P} {token : ProofCarryingToken S P} {mint : Mint S P}
    {signers : List SignerId} {ns ns' : NullifierSet} {rnd : IssueRandom S}
    {res : Except RenewalError (RenewalResult S P)}
    (h : renewToken C token mint signers ns rnd = some (res, ns')) :
    Spends C token ns (renewalOutputs res) ns' := by
  rcases renewToken_inv h with ⟨e, rfl, rfl, _⟩ | ⟨_, hburn, ⟨e, _, rfl⟩ | ⟨t, ht, rfl⟩⟩
  · exact .untouched
  · exact .lost hburn
  · refine .done hburn ?_
    show (t.value.toNat + 0) = _
    rw [(Mint.issueFull_ok ht).1, Nat.add_zero]

/-- The token of a renewal is an issued one. -/
theorem renewToken_issued {C : Suite S P} {mint : Mint S P} {old : ProofCarryingToken S P}
    {signers : List SignerId} {ns ns' : NullifierSet} {rnd : IssueRandom S} {r : RenewalResult S P}
    (h : renewToken C old mint signers ns rnd = some (.ok r, ns')) :
    mint.issue C old.value signers (old.credential.map (·.attributes)) rnd = .ok r.newToken := by
  rcases renewToken_inv h with ⟨e, he, _⟩ | ⟨_, _, ⟨e, _, he⟩ | ⟨t, ht, hr⟩⟩
  · cases he
  · cases he
  · cases hr
    exact ht

end Specter
