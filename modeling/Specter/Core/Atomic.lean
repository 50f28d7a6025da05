/-
  File:      Specter/Core/Atomic.lean
  Subject:   ALL OR NOTHING (transfer.rs, renewal.rs, mint.rs of specter-core): what the calls that
             spend a token leave behind when they fail, and what they hand out when they do not.

  `split` issues its outputs before it burns the input. `transfer` and `renewToken` burn first,
  and what they do after that can fail: the fold of a transfer, the issuing of a renewal.

  * `Restores` -- an error leaves the set as it was;
  * `transfer_restores_iff`, `transferChecked_restores_iff` -- for which tokens a transfer does;
  * `renewToken_complete_iff` -- when a renewal does, and that it is complete otherwise;
  * `split_complete` -- a split always is;
  * `issueFull_accepted_iff` -- which issued tokens the verification accepts.
-/
import Specter.Core.Lifecycle
import Specter.Core.Renewal

namespace Specter

open Lib

variable {S P : Type} [Field S] [AddCommGroup P] [Module S P]

/-- A call that answers `out` and leaves the set it carries: with an error, the set `ns`. -/
def Restores {ε α : Type} (ns : NullifierSet) (out : Except ε α × NullifierSet) : Prop :=
  ∀ e, out.1 = .error e → out.2 = ns

theorem Restores.of_ok {ε α : Type} {ns ns' : NullifierSet} {a : α} :
    Restores ns ((.ok a : Except ε α), ns') :=
  fun _ h => (nomatch h)

theorem Restores.of_same {ε α : Type} {ns : NullifierSet} {res : Except ε α} :
    Restores ns (res, ns) :=
  fun _ _ => rfl

variable {C : Suite S P} {ns ns' : NullifierSet}

/-- A set with a burned nullifier is not the set before. -/
theorem Burned.ne {t : ProofCarryingToken S P} (h : Burned C t ns ns') : ns' ≠ ns := by
  rintro rfl
  exact h.fresh (h.set ▸ Finset.mem_insert_self _ _)

/-! ## 1. Transfers -/

/-- The fold step of a transfer goes through: the chain is shorter than the bound, and its tip
    is the key of the owner. -/
structure FoldReady (C : Suite S P) (t : ProofCarryingToken S P) : Prop where
  steps : t.foldProof.steps < t.recursionBound
  owner : Accumulator.deriveOwnerSigningPk C t.ownerSecret = t.foldProof.currentOwnerPk

variable {t : ProofCarryingToken S P}

theorem foldReady_of_ok {rnd : TransferRandom S} {fold : AccumulatedProof S P}
    (h : foldStep C t rnd = .ok fold) : FoldReady C t := by
  obtain ⟨hsteps, _, howner, _⟩ := Accumulator.foldTransferSigned_ok h
  exact ⟨hsteps, howner⟩

theorem foldStep_of_ready (h : FoldReady C t) (rnd : TransferRandom S) :
    ∃ fold, foldStep C t rnd = .ok fold := by
  have hlt := UInt32.lt_iff_toNat_lt.mp h.steps
  have hbound := t.recursionBound.toNat_lt
  exact ⟨_, Accumulator.foldTransferSigned_of_tip h.steps (by omega) h.owner _ _ _⟩

omit [Field S] [AddCommGroup P] [Module S P] in
/-- A token with transfers left has room in its count. -/
theorem Spendable.count_lt (h : Spendable t) : t.transferCount.toNat + 1 < 2 ^ 32 := by
  have hlt := UInt32.lt_iff_toNat_lt.mp (UInt32.not_le.mp (of_decide_eq_false h.2))
  have hbound := t.recursionBound.toNat_lt
  omega

/-- What `transfer` asks of a token and the set it is given. -/
structure Transferable (C : Suite S P) (t : ProofCarryingToken S P) (ns : NullifierSet) :
    Prop where
  spendable : Spendable t
  fresh : t.computeNullifier C ∉ ns.nullifiers
  ready : FoldReady C t

instance [DecidableEq P] (C : Suite S P) (t : ProofCarryingToken S P) (ns : NullifierSet) :
    Decidable (Transferable C t ns) :=
  decidable_of_iff (Spendable t ∧ t.computeNullifier C ∉ ns.nullifiers ∧
      t.foldProof.steps < t.recursionBound ∧
      Accumulator.deriveOwnerSigningPk C t.ownerSecret = t.foldProof.currentOwnerPk)
    ⟨fun h => ⟨h.1, h.2.1, h.2.2.1, h.2.2.2⟩,
      fun h => ⟨h.spendable, h.fresh, h.ready.steps, h.ready.owner⟩⟩

/-- **When `transfer` succeeds.** -/
theorem transfer_ok_iff {rnd : TransferRandom S} :
    (∃ r, (transfer C t ns rnd).1 = .ok r) ↔ Transferable C t ns := by
  constructor
  · rintro ⟨r, hr⟩
    obtain ⟨hval, hren, hburn, _, fold, hfold, _⟩ := transfer_ok_inv (Prod.ext hr rfl)
    exact ⟨⟨hval, hren⟩, hburn.fresh, foldReady_of_ok hfold⟩
  · rintro ⟨hspend, hnew, hready⟩
    obtain ⟨fold, hfold⟩ := foldStep_of_ready hready rnd
    exact ⟨_, congrArg Prod.fst
      (transfer_of_fold hspend.1 hspend.2 hnew hspend.count_lt hfold)⟩

/-- **For which tokens `transfer` is all or nothing.** -/
theorem transfer_restores_iff {rnd : TransferRandom S} :
    Restores ns (transfer C t ns rnd) ↔
      (Spendable t → t.computeNullifier C ∈ ns.nullifiers ∨ FoldReady C t) := by
  by_cases hrefused : ¬ Spendable t ∨ t.computeNullifier C ∈ ns.nullifiers
  · obtain ⟨e, he⟩ := transfer_refused rnd hrefused
    rw [he]
    refine ⟨fun _ hspend => .inl (hrefused.resolve_left fun hn => hn hspend), fun _ => .of_same⟩
  · obtain ⟨hspend, hnew⟩ := not_or.mp hrefused
    rw [Classical.not_not] at hspend
    constructor
    · intro hrestores _
      have hburns := transfer_burns rnd hspend hnew
      cases hres : transfer C t ns rnd with
      | mk res ns' =>
          rw [hres] at hrestores hburns
          cases res with
          | error e =>
              have hburned : Burned C t ns ns' := ⟨hnew, hburns⟩
              exact absurd (hrestores e rfl) hburned.ne
          | ok r =>
              obtain ⟨_, _, _, _, fold, hfold, _⟩ := transfer_ok_inv hres
              exact .inr (foldReady_of_ok hfold)
    · intro h
      have hready := (h hspend).resolve_left hnew
      obtain ⟨fold, hfold⟩ := foldStep_of_ready hready rnd
      rw [transfer_of_fold hspend.1 hspend.2 hnew hspend.count_lt hfold]
      exact .of_ok

variable [DecidableEq P]

omit [Field S] [AddCommGroup P] [Module S P] [DecidableEq P] in
theorem preSpendError_eq_none {vr : VerificationResult} :
    preSpendError vr = none ↔ vr.allValid = true := by
  obtain ⟨sig, val, bound, fold, cred, vdf⟩ := vr
  unfold preSpendError VerificationResult.allValid
  cases sig <;> cases val <;> cases bound <;> cases fold <;>
    rcases cred with _ | _ | _ <;> rcases vdf with _ | _ | _ <;> decide

/-- **For which tokens `transferChecked` is all or nothing.** The verification leaves one way to
    fail behind it: a chain at the bound under a count that is not. -/
theorem transferChecked_restores_iff {gpk : P} {pp cpp : PedersenParams P} {now : UInt64}
    {rnd : TransferRandom S} :
    (∀ out ∈ transferChecked C t ns gpk pp cpp now rnd, Restores ns out) ↔
      (AllValid C t gpk pp cpp now → t.needsRenewal = false →
        t.computeNullifier C ∈ ns.nullifiers ∨ t.foldProof.steps < t.recursionBound) := by
  unfold transferChecked
  by_cases hvalid : AllValid C t gpk pp cpp now
  · have hver := allValid_iff.mp hvalid
    have howner := (foldVerdict_iff.mp hver.fold).1
    obtain ⟨vr, hvr, hall⟩ := hvalid
    rw [hvr]
    dsimp only
    rw [preSpendError_eq_none.mpr hall]
    have hone : (∀ out ∈ some (transfer C t ns rnd), Restores ns out) ↔
        Restores ns (transfer C t ns rnd) :=
      ⟨fun h => h _ rfl, fun h out hout => by cases hout; exact h⟩
    rw [hone, transfer_restores_iff]
    constructor
    · exact fun h _ hren => (h ⟨hver.value, hren⟩).imp_right (·.steps)
    · exact fun h hspend => (h ⟨vr, hvr, hall⟩ hspend.2).imp_right (⟨·, howner⟩)
  · refine ⟨fun _ h => absurd h hvalid, fun _ out hout => ?_⟩
    cases hvr : verifyToken C t gpk pp cpp now with
    | none =>
        rw [hvr] at hout
        cases hout
    | some vr =>
        rw [hvr] at hout
        dsimp only at hout
        cases herr : preSpendError vr with
        | none => exact absurd ⟨vr, hvr, preSpendError_eq_none.mp herr⟩ hvalid
        | some e =>
            rw [herr] at hout
            cases hout
            exact .of_same

/-- **When a transfer that fails leaves the set alone**, for the two variants, every token and
    every set. -/
theorem transfers_restore_iff (C : Suite S P) (t : ProofCarryingToken S P) (ns : NullifierSet) :
    (∀ rnd : TransferRandom S, Restores ns (transfer C t ns rnd) ↔
      (Spendable t → t.computeNullifier C ∈ ns.nullifiers ∨ FoldReady C t)) ∧
    ∀ (gpk : P) (pp cpp : PedersenParams P) (now : UInt64) (rnd : TransferRandom S),
      (∀ out ∈ transferChecked C t ns gpk pp cpp now rnd, Restores ns out) ↔
        (AllValid C t gpk pp cpp now → t.needsRenewal = false →
          t.computeNullifier C ∈ ns.nullifiers ∨ t.foldProof.steps < t.recursionBound) :=
  ⟨fun _ => transfer_restores_iff, fun _ _ _ _ _ => transferChecked_restores_iff⟩

/-- A token of a mint with bound 1 after its one transfer, the count set back to 0. -/
def sampleRewound : Option (ProofCarryingToken SampleScalar SamplePoint) := do
  let mint ← Mint.setup sampleSuite ⟨2, 3, 1⟩ sampleDealer 5
  let t ← (mint.issueFull sampleSuite 10 [3, 1] none none none (sampleIssueRandom 0)).toOption
  let r ← (transfer sampleSuite t .new ⟨leArr 32 101, 21⟩).1.toOption
  some { r.token with transferCount := 0 }

/-- It is accepted, and both transfers fail on it with its nullifier burned; the unchecked one
    fails so on a token whose owner secret was replaced. -/
theorem rewound_token_lost :
    ∃ mint t, Mint.setup sampleSuite ⟨2, 3, 1⟩ sampleDealer 5 = some mint ∧
      sampleRewound = some t ∧
      AllValid sampleSuite t mint.groupPublicKey mint.pedersen mint.credentialIssuer.pedersen 0 ∧
      (∃ out, transferChecked sampleSuite t .new mint.groupPublicKey mint.pedersen
          mint.credentialIssuer.pedersen 0 ⟨leArr 32 102, 22⟩ = some out ∧
        ¬ Restores .new out) ∧
      ¬ Restores .new (transfer sampleSuite t .new ⟨leArr 32 102, 22⟩) ∧
      ¬ Restores .new (transfer sampleSuite
        { t with ownerSecret := leArr 32 103, recursionBound := 2 } .new ⟨leArr 32 102, 22⟩) := by
  have hrun : ((Mint.setup (P := SamplePoint) sampleSuite ⟨2, 3, 1⟩ sampleDealer 5).bind fun mint =>
      sampleRewound.map fun t =>
        ((verifyToken sampleSuite t mint.groupPublicKey mint.pedersen
          mint.credentialIssuer.pedersen 0).map (·.allValid) == some true) &&
        decide (Spendable t ∧ t.foldProof.steps = t.recursionBound ∧ t.foldProof.steps = 1 ∧
          Accumulator.deriveOwnerSigningPk sampleSuite (leArr 32 103) ≠
            t.foldProof.currentOwnerPk)) = some true := by
    decide +kernel
  obtain ⟨mint, hmint, hrun⟩ := Option.bind_eq_some_iff.mp hrun
  obtain ⟨t, ht, hfacts⟩ := Option.map_eq_some_iff.mp hrun
  obtain ⟨hver, hfacts⟩ := (Bool.and_eq_true _ _).mp hfacts
  obtain ⟨vr, hvr, hall⟩ := Option.map_eq_some_iff.mp (eq_of_beq hver)
  obtain ⟨hspend, hsteps, hone, howner⟩ := of_decide_eq_true hfacts
  have hfold : ¬ t.foldProof.steps < t.recursionBound := by
    rw [hsteps]
    exact UInt32.lt_irrefl _
  have hnew : ∀ n, n ∉ NullifierSet.new.nullifiers := fun n => Finset.notMem_empty n
  have hlost : ¬ Restores .new (transfer sampleSuite t .new ⟨leArr 32 102, 22⟩) := by
    intro h
    rcases transfer_restores_iff.mp h hspend with hmem | hready
    · exact hnew _ hmem
    · exact hfold hready.steps
  refine ⟨mint, t, hmint, ht, ⟨vr, hvr, hall⟩, ⟨_, ?_, hlost⟩, hlost, fun h => ?_⟩
  · unfold transferChecked
    rw [hvr]
    dsimp only
    rw [preSpendError_eq_none.mpr hall]
  · have hspend' : Spendable { t with ownerSecret := leArr 32 103, recursionBound := 2 } := by
      refine ⟨hspend.1, ?_⟩
      have hlt := UInt32.not_le.mp (of_decide_eq_false hspend.2)
      rw [← hsteps, hone] at hlt
      exact decide_eq_false (UInt32.not_le.mpr (UInt32.lt_trans hlt
        (show (1 : UInt32) < 2 by decide)))
    rcases transfer_restores_iff.mp h hspend' with hmem | hready
    · exact hnew _ hmem
    · exact howner hready.owner

/-! ## 2. Renewals -/

/-- What a renewal hands out: the old token is burned, and the new one is worth as much, has
    made no transfer and is accepted. -/
structure Renewed (C : Suite S P) (mint : Mint S P) (t : ProofCarryingToken S P)
    (ns : NullifierSet) (r : RenewalResult S P) (ns' : NullifierSet) : Prop where
  burned : Burned C t ns ns'
  oldNullifier : r.oldNullifier = t.computeNullifier C
  value : r.newToken.value = t.value
  count : r.newToken.transferCount = 0
  valid : AllValid C r.newToken mint.groupPublicKey mint.pedersen mint.credentialIssuer.pedersen 0

variable {mint : Mint S P}

/-- A verified token has a value. -/
theorem Renewable.value_ne_zero (h : Renewable C mint t) : t.value ≠ 0 := by
  obtain ⟨vr, hvr, hverdicts⟩ := h
  intro h0
  unfold verifyToken at hvr
  rw [if_pos h0] at hvr
  cases hvr
  cases hverdicts.signature

/-- A token issued without a time lock is accepted. -/
theorem issue_accepted (hmint : mint.Sound C) {value : UInt64}
    {signers : List SignerId} {attributes : Option Attributes} {rnd : IssueRandom S}
    (h : mint.issue C value signers attributes rnd = .ok t) :
    t.value = value ∧ t.transferCount = 0 ∧
      AllValid C t mint.groupPublicKey mint.pedersen mint.credentialIssuer.pedersen 0 := by
  obtain ⟨hhonest, hcount, hvdf⟩ := issued_inv hmint h
  refine ⟨(Mint.issueFull_ok h).1, hcount, (allValid_iff_of_honest hhonest).mpr fun v hv => ?_⟩
  rw [hvdf] at hv
  cases hv

/-- **When a renewal is all or nothing.** For a token that passes the verification and was not
    spent before, it is exactly where the signers are enough, distinct and known; it then hands
    out what it should. A token that does not is refused with the set as it was. -/
theorem renewToken_complete_iff (hmint : mint.SetUp C) (t : ProofCarryingToken S P)
    (signers : List SignerId) (ns : NullifierSet) (rnd : IssueRandom S) :
    (∀ out ∈ renewToken C t mint signers ns rnd,
      Restores ns out ∧ ∀ r, out.1 = .ok r → Renewed C mint t ns r out.2) ↔
    (Renewable C mint t → t.computeNullifier C ∈ ns.nullifiers ∨
      (mint.keyset.threshold ≤ signers.length ∧ signers.Nodup ∧
        ∀ id ∈ signers, (mint.keyset.shares id).isSome)) := by
  constructor
  · intro h hrenewable
    by_contra hnot
    obtain ⟨hnew, hsigners⟩ := not_or.mp hnot
    obtain ⟨⟨res, ns'⟩, hout⟩ := renewToken_returns hrenewable signers ns rnd
    obtain ⟨hrestores, _⟩ := h _ hout
    rcases renewToken_inv hout with ⟨e, _, _, hrefused⟩ |
      ⟨_, hburn, ⟨e, _, rfl⟩ | ⟨new, hissue, _⟩⟩
    · exact hrefused.elim (fun hn => hn hrenewable) hnew
    · exact hburn.ne (hrestores _ rfl)
    · have hissuable := issuable_of_ok hissue
      exact hsigners ⟨hissuable.enough, hissuable.distinct, hissuable.known⟩
  · rintro h ⟨res, ns'⟩ hout
    rcases renewToken_inv hout with ⟨e, rfl, rfl, _⟩ |
      ⟨hrenewable, hburn, ⟨e, herror, rfl⟩ | ⟨new, hissue, rfl⟩⟩
    · exact ⟨.of_same, fun r hr => (nomatch hr)⟩
    · -- the mint does not fail on these signers
      obtain ⟨henough, hdistinct, hknown⟩ := (h hrenewable).resolve_left hburn.fresh
      obtain ⟨new, hissue, _⟩ := issueFull_honest hmint.sound
        ⟨hrenewable.value_ne_zero, henough, hdistinct, hknown⟩
        (t.credential.map (·.attributes)) none none rnd
      have hboth : Except.error e = Except.ok new := herror.symm.trans hissue
      cases hboth
    · obtain ⟨hvalue, hcount, hvalid⟩ := issue_accepted hmint.sound hissue
      refine ⟨.of_ok, fun r hr => ?_⟩
      cases hr
      exact ⟨hburn, rfl, hvalue, hcount, hvalid⟩

/-- A mint of three signers, two of which issue a token. -/
def sampleTrio : Option (Mint SampleScalar SamplePoint ×
    ProofCarryingToken SampleScalar SamplePoint) := do
  let mint ← Mint.setup sampleSuite ⟨2, 3, 2⟩ sampleDealer 5
  let t ← (mint.issueFull sampleSuite 10 [3, 1] none none none (sampleIssueRandom 0)).toOption
  some (mint, t)

theorem sampleTrio_some :
    ∃ mint t, sampleTrio = some (mint, t) ∧ mint.SetUp sampleSuite ∧
      Renewable sampleSuite mint t ∧ mint.keyset.threshold = 2 ∧
      (mint.keyset.shares 1).isSome ∧ (mint.keyset.shares 2).isSome := by
  have hrun : (Mint.setup (P := SamplePoint) sampleSuite ⟨2, 3, 2⟩ sampleDealer 5).bind (fun mint =>
      (mint.issueFull sampleSuite 10 [3, 1] none none none
        (sampleIssueRandom 0)).toOption.map fun t =>
        ((verifyToken sampleSuite t mint.groupPublicKey mint.pedersen
          mint.credentialIssuer.pedersen 0).map (·.allValid) == some true) &&
        decide (mint.keyset.threshold = 2 ∧ (mint.keyset.shares 1).isSome ∧
          (mint.keyset.shares 2).isSome)) = some true := by
    decide +kernel
  obtain ⟨mint, hmint, hrun⟩ := Option.bind_eq_some_iff.mp hrun
  obtain ⟨t, ht, hfacts⟩ := Option.map_eq_some_iff.mp hrun
  obtain ⟨hver, hfacts⟩ := (Bool.and_eq_true _ _).mp hfacts
  obtain ⟨vr, hvr, hall⟩ := Option.map_eq_some_iff.mp (eq_of_beq hver)
  simp only [VerificationResult.allValid, Bool.and_eq_true] at hall
  obtain ⟨⟨⟨⟨⟨hsig, hval⟩, _⟩, hfold⟩, hcred⟩, _⟩ := hall
  refine ⟨mint, t, ?_, .inl ⟨_, _, _, hmint⟩, ⟨vr, hvr, hsig, hval, hfold, ?_⟩,
    of_decide_eq_true hfacts⟩
  · unfold sampleTrio
    rw [hmint]
    show ((mint.issueFull _ _ _ _ _ _ _).toOption.bind fun t => some (mint, t)) = _
    rw [ht]
    rfl
  · rintro h
    rw [h] at hcred
    cases hcred

/-- Two signers renew its token. -/
theorem renewed_by_two :
    ∃ mint t r ns, sampleTrio = some (mint, t) ∧
      renewToken sampleSuite t mint [1, 2] .new (sampleIssueRandom 1) = some (.ok r, ns) ∧
      Renewed sampleSuite mint t .new r ns := by
  obtain ⟨mint, t, htrio, hmint, hrenewable, hthreshold, hone, htwo⟩ := sampleTrio_some
  have hcomplete := (renewToken_complete_iff hmint t [1, 2] .new (sampleIssueRandom 1)).mpr
    fun _ => .inr ⟨by rw [hthreshold]; decide, by decide, by simp [hone, htwo]⟩
  obtain ⟨⟨res, ns⟩, hout⟩ := renewToken_returns hrenewable [1, 2] .new (sampleIssueRandom 1)
  obtain ⟨hrestores, hrenewed⟩ := hcomplete _ hout
  rcases renewToken_inv hout with ⟨e, _, _, hrefused⟩ | ⟨_, hburn, ⟨e, _, rfl⟩ | ⟨new, _, rfl⟩⟩
  · exact absurd hrenewable (hrefused.resolve_right (Finset.notMem_empty _))
  · exact absurd (hrestores _ rfl) hburn.ne
  · exact ⟨mint, t, _, ns, htrio, hout, hrenewed _ rfl⟩

/-- Asked of no signers at all, its renewal fails and its nullifier is burned. -/
theorem renewal_without_signers_lost :
    ∃ mint t e ns, sampleTrio = some (mint, t) ∧
      renewToken sampleSuite t mint [] .new (sampleIssueRandom 1) = some (.error e, ns) ∧
      t.computeNullifier sampleSuite ∉ NullifierSet.new.nullifiers ∧
      t.computeNullifier sampleSuite ∈ ns.nullifiers := by
  obtain ⟨mint, t, htrio, _, hrenewable, hthreshold, _⟩ := sampleTrio_some
  obtain ⟨⟨res, ns⟩, hout⟩ := renewToken_returns hrenewable [] .new (sampleIssueRandom 1)
  have hfresh : t.computeNullifier sampleSuite ∉ NullifierSet.new.nullifiers :=
    Finset.notMem_empty _
  rcases renewToken_inv hout with ⟨e, _, _, hrefused⟩ |
    ⟨_, hburn, ⟨e, _, rfl⟩ | ⟨new, hissue, _⟩⟩
  · exact absurd hrenewable (hrefused.resolve_right hfresh)
  · exact ⟨mint, t, _, ns, htrio, hout, hfresh, hburn.set ▸ Finset.mem_insert_self _ _⟩
  · have henough := (issuable_of_ok hissue).enough
    rw [hthreshold] at henough
    exact absurd henough (by decide)

/-! ## 3. Splits -/

/-- What a split hands out: for a token that was verified and is burned, one accepted token for
    each value, none of them worth nothing, all of them together worth the old one. -/
structure SplitUp (C : Suite S P) (mint : Mint S P) (t : ProofCarryingToken S P)
    (values : List UInt64) (ns : NullifierSet) (ts : List (ProofCarryingToken S P))
    (ns' : NullifierSet) : Prop where
  verified : ∃ vr, Mint.Splittable C mint t vr
  burned : Burned C t ns ns'
  values : ts.map (·.value) = values
  positive : ∀ t' ∈ ts, 0 < t'.value.toNat
  valid : ∀ t' ∈ ts,
    AllValid C t' mint.groupPublicKey mint.pedersen mint.credentialIssuer.pedersen 0
  total : totalValue ts = t.value.toNat

/-- **A split is all or nothing**, for every token, every list of values, all signers and every
    set. -/
theorem split_complete (hmint : mint.SetUp C) {values : List UInt64} {signers : List SignerId}
    {rnd : Nat → IssueRandom S} {res : Except MintError (List (ProofCarryingToken S P))}
    (h : mint.split C t values signers ns rnd = some (res, ns')) :
    Restores ns (res, ns') ∧ ∀ ts, res = .ok ts → SplitUp C mint t values ns ts ns' := by
  rcases Mint.split_inv h with ⟨e, rfl, rfl⟩ | ⟨vr, ts, rfl, hvr, hzero, hsum, hts, hburn⟩
  · exact ⟨.of_same, fun ts hts => (nomatch hts)⟩
  · refine ⟨.of_ok, fun ts' hts' => ?_⟩
    cases hts'
    have hvalues := Mint.issueOutputs_values hts
    refine ⟨⟨vr, hvr⟩, hburn, hvalues, fun t' ht' => ?_, fun t' ht' => ?_, ?_⟩
    · have hmem : t'.value ∈ values := hvalues ▸ List.mem_map_of_mem ht'
      have hne : t'.value ≠ 0 := fun h0 => hzero (h0 ▸ hmem)
      exact Nat.pos_of_ne_zero fun h0 => hne (UInt64.toNat_inj.mp h0)
    · obtain ⟨v, rnd', hissue⟩ := Mint.mem_issueOutputs hts ht'
      exact (issue_accepted hmint.sound hissue).2.2
    · rw [Mint.totalValue_issueOutputs hts, ← Mint.checkedSum_ok hsum]

/-- Two signers split its token in two. -/
theorem sampleTrio_split :
    ∃ mint t ts ns, sampleTrio = some (mint, t) ∧
      mint.split sampleSuite t [3, 7] [1, 2] .new (fun i => sampleIssueRandom (i + 1)) =
        some (.ok ts, ns) ∧
      SplitUp sampleSuite mint t [3, 7] .new ts ns := by
  obtain ⟨mint, t, htrio, hmint, _⟩ := sampleTrio_some
  have hrun : (sampleTrio.bind fun p => (p.1.split sampleSuite p.2 [3, 7] [1, 2] .new
      fun i => sampleIssueRandom (i + 1)).map fun out => out.1.toOption.isSome) = some true := by
    decide +kernel
  rw [htrio] at hrun
  obtain ⟨⟨res, ns⟩, hout, hok⟩ := Option.map_eq_some_iff.mp hrun
  obtain ⟨ts, hts⟩ := Option.isSome_iff_exists.mp hok
  have hres : res = .ok ts := ok_of_toOption hts
  subst hres
  exact ⟨mint, t, ts, ns, htrio, hout, (split_complete hmint hout).2 ts rfl⟩

/-! ## 4. Issued tokens -/

/-- **Which issued tokens are accepted**: those without a time lock, and those whose time lock is
    within the limits of the verification. `issue_full` asks for neither limit. -/
theorem issueFull_accepted_iff (hmint : mint.SetUp C) {value : UInt64} {signers : List SignerId}
    {attributes : Option Attributes} {vdf : Option UInt64} {bond : Option Bytes32}
    {rnd : IssueRandom S} (h : mint.issueFull C value signers attributes vdf bond rnd = .ok t) :
    AllValid C t mint.groupPublicKey mint.pedersen mint.credentialIssuer.pedersen 0 ↔
      ∀ n ∈ vdf, 1 ≤ n.toNat ∧ n.toNat ≤ 10000000 := by
  obtain ⟨hhonest, _, hvdf⟩ := issued_inv hmint.sound h
  have hlimits : ∀ n : UInt64, (n ≠ 0 ∧ n ≤ Vdf.maxVdfIterations) ↔
      (1 ≤ n.toNat ∧ n.toNat ≤ 10000000) := by
    intro n
    rw [Ne, ← UInt64.toNat_inj, UInt64.le_iff_toNat_le]
    exact and_congr_left' Nat.one_le_iff_ne_zero.symm
  rw [allValid_iff_of_honest hhonest]
  unfold VdfWithin
  rw [hvdf]
  constructor
  · intro hwithin n hn
    exact (hlimits n).mp (hwithin _ (Option.mem_map_of_mem _ hn))
  · intro hwithin v hv
    obtain ⟨n, hn, rfl⟩ := Option.map_eq_some_iff.mp hv
    exact (hlimits n).mpr (hwithin n hn)

/-- The mint issues a token whose time lock has no iterations, and does not accept it. -/
theorem dead_token_issued :
    ∃ mint t, Mint.setup sampleSuite ⟨2, 3, 2⟩ sampleDealer 5 = some mint ∧
      mint.issueFull sampleSuite 10 [3, 1] none (some 0) none (sampleIssueRandom 0) = .ok t ∧
      ¬ AllValid sampleSuite t mint.groupPublicKey mint.pedersen
        mint.credentialIssuer.pedersen 0 := by
  have hrun : (Mint.setup (P := SamplePoint) sampleSuite ⟨2, 3, 2⟩ sampleDealer 5).bind (fun mint =>
      (mint.issueFull sampleSuite 10 [3, 1] none (some 0) none
        (sampleIssueRandom 0)).toOption.map fun t =>
        (verifyToken sampleSuite t mint.groupPublicKey mint.pedersen
          mint.credentialIssuer.pedersen 0).map (·.allValid)) = some (some false) := by
    decide +kernel
  obtain ⟨mint, hmint, hrun⟩ := Option.bind_eq_some_iff.mp hrun
  obtain ⟨t, ht, hver⟩ := Option.map_eq_some_iff.mp hrun
  refine ⟨mint, t, hmint, ok_of_toOption ht, ?_⟩
  rintro ⟨vr, hvr, hall⟩
  rw [hvr, Option.map_some, hall] at hver
  cases hver

/-- With three iterations it does. -/
theorem live_token_issued :
    ∃ mint t, Mint.setup sampleSuite ⟨2, 3, 2⟩ sampleDealer 5 = some mint ∧
      mint.issueFull sampleSuite 10 [3, 1] none (some 3) none (sampleIssueRandom 0) = .ok t ∧
      AllValid sampleSuite t mint.groupPublicKey mint.pedersen
        mint.credentialIssuer.pedersen 0 := by
  have hrun : (Mint.setup (P := SamplePoint) sampleSuite ⟨2, 3, 2⟩ sampleDealer 5).bind (fun mint =>
      (mint.issueFull sampleSuite 10 [3, 1] none (some 3) none
        (sampleIssueRandom 0)).toOption.map fun _ => true) = some true := by
    decide +kernel
  obtain ⟨mint, hmint, hrun⟩ := Option.bind_eq_some_iff.mp hrun
  obtain ⟨t, ht, _⟩ := Option.map_eq_some_iff.mp hrun
  refine ⟨mint, t, hmint, ok_of_toOption ht,
    (issueFull_accepted_iff (.inl ⟨_, _, _, hmint⟩) (ok_of_toOption ht)).mpr fun n hn => ?_⟩
  cases hn
  decide

end Specter
