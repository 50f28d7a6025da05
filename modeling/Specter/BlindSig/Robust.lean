/-
  File:      Specter/BlindSig/Robust.lean
  Subject:   ROUND 3 AGAINST ANY INPUT (`dkg_round3` of specter-blind-sig/src/dkg.rs).

  Shares, commitments and proofs come from others. The proofs are checked for every entry of the
  commitments, the shares for every entry of the shares; the key is then computed from both maps.

  * `PokPasses`, `SharePasses` -- what the two loops check of an entry;
  * `dkgRound3_panics_iff` -- the panic: an empty commitment vector whose proof is there, with
    nothing refused before it;
  * `dkgRound3_pure`, `dkgRound3_of_checked` -- a keyset comes out where every entry passes;
  * `silent` -- those from whom no share came: nothing is asked of their commitments;
  * `dkgRound3_robust_iff` -- the round is robust where there is no such panic, and the silent
    ones' vectors have the right length and their values add nothing.
-/
import Specter.BlindSig.Dkg
import Specter.Lib.Checks

namespace Specter

open Lib Lib.Sharing Lib.Checks

variable {S P : Type} [Field S] [AddCommGroup P] [Module S P] {C : Suite S P}

namespace Dkg

/-! ## 1. What the two loops check -/

/-- The proof of an entry is there and verifies for its first commitment. -/
def PokPasses (C : Suite S P) (allPoks : Keyed SignerId (ProofOfKnowledge S P))
    (entry : SignerId × List P) : Prop :=
  ∃ pok, AList.lookup entry.1 allPoks = some pok ∧
    ∃ commitment0, entry.2.head? = some commitment0 ∧
      verifyPok C entry.1 commitment0 pok = true

/-- The sender committed to a polynomial of the right length, and the share is its value. -/
def SharePasses (C : Suite S P) (participant : DkgParticipant S P)
    (allCommitments : Keyed SignerId (List P)) (entry : SignerId × S) : Prop :=
  ∃ commitments, AList.lookup entry.1 allCommitments = some commitments ∧
    commitments.length = participant.threshold ∧
    entry.2 • C.G = evaluatePolyPoints commitments (Suite.scalarFromU64 participant.id : S)

theorem checkPok_eq_pure_iff {allPoks : Keyed SignerId (ProofOfKnowledge S P)}
    {entry : SignerId × List P} :
    checkPok C allPoks entry = pure ⟨⟩ ↔ PokPasses C allPoks entry := by
  unfold checkPok PokPasses
  cases AList.lookup entry.1 allPoks with
  | none =>
      constructor
      · intro h
        cases h
      · rintro ⟨_, h, _⟩
        cases h
  | some pok =>
      cases entry.2.head? with
      | none =>
          constructor
          · intro h
            cases h
          · rintro ⟨_, _, _, h, _⟩
            cases h
      | some commitment0 =>
          show (if verifyPok C entry.1 commitment0 pok = false then throw _ else pure _) = _ ↔ _
          rw [ite_throw_eq_pure_iff, Bool.not_eq_false]
          constructor
          · intro h
            exact ⟨pok, rfl, commitment0, rfl, h.1⟩
          · rintro ⟨_, hpok, _, hhead, h⟩
            cases hpok
            cases hhead
            exact ⟨h, rfl⟩

theorem checkPok_panics_iff {allPoks : Keyed SignerId (ProofOfKnowledge S P)}
    {entry : SignerId × List P} :
    Panics (checkPok C allPoks entry) ↔ entry.2 = [] ∧ entry.1 ∈ allPoks := by
  rw [← AList.lookup_isSome, ← List.head?_eq_none_iff]
  unfold checkPok
  cases AList.lookup entry.1 allPoks with
  | none =>
      constructor
      · intro h
        cases h
      · rintro ⟨_, h⟩
        cases h
  | some pok =>
      cases entry.2.head? with
      | none => exact ⟨fun _ => ⟨rfl, rfl⟩, fun _ => rfl⟩
      | some commitment0 =>
          show Panics (if verifyPok C entry.1 commitment0 pok = false then throw _ else pure _) ↔ _
          rw [ite_throw_panics_iff]
          constructor
          · rintro ⟨_, h⟩
            cases h
          · rintro ⟨h, _⟩
            cases h

theorem checkShare_eq_pure_iff {participant : DkgParticipant S P}
    {allCommitments : Keyed SignerId (List P)} {entry : SignerId × S} :
    checkShare C participant allCommitments entry = pure ⟨⟩ ↔
      SharePasses C participant allCommitments entry := by
  unfold checkShare SharePasses
  cases AList.lookup entry.1 allCommitments with
  | none =>
      constructor
      · intro h
        cases h
      · rintro ⟨_, h, _⟩
        cases h
  | some commitments =>
      show (if commitments.length ≠ participant.threshold then throw _ else
        if C.compress (entry.2 • C.G) ≠ C.compress (evaluatePolyPoints commitments _) then throw _
        else pure _) = _ ↔ _
      rw [ite_throw_eq_pure_iff, ite_throw_eq_pure_iff, not_ne_iff, not_ne_iff, C.compress_inj]
      constructor
      · rintro ⟨hlen, hshare, _⟩
        exact ⟨commitments, rfl, hlen, hshare⟩
      · rintro ⟨_, hsome, hlen, hshare⟩
        cases hsome
        exact ⟨hlen, hshare, rfl⟩

theorem checkShare_not_panics {participant : DkgParticipant S P}
    {allCommitments : Keyed SignerId (List P)} {entry : SignerId × S} :
    ¬ Panics (checkShare C participant allCommitments entry) := by
  unfold checkShare
  cases AList.lookup entry.1 allCommitments with
  | none =>
      intro h
      cases h
  | some commitments =>
      show ¬ Panics (if commitments.length ≠ participant.threshold then throw _ else
        if C.compress (entry.2 • C.G) ≠ C.compress (evaluatePolyPoints commitments _) then throw _
        else pure _)
      rw [ite_throw_panics_iff, ite_throw_panics_iff]
      rintro ⟨_, _, h⟩
      cases h

/-! ## 2. The round -/

variable {participant : DkgParticipant S P} {receivedShares : Keyed SignerId S}
  {allCommitments : Keyed SignerId (List P)} {allPoks : Keyed SignerId (ProofOfKnowledge S P)}

/-- Every entry of the two maps passes its check. -/
structure Checked (C : Suite S P) (participant : DkgParticipant S P)
    (receivedShares : Keyed SignerId S) (allCommitments : Keyed SignerId (List P))
    (allPoks : Keyed SignerId (ProofOfKnowledge S P)) : Prop where
  poks : ∀ entry ∈ allCommitments.pairs, PokPasses C allPoks entry
  shares : ∀ entry ∈ receivedShares.pairs, SharePasses C participant allCommitments entry

/-- The participant's own value and the received ones. -/
def totalShare (participant : DkgParticipant S P) (receivedShares : Keyed SignerId S) : S :=
  (receivedShares.pairs.map (·.2)).foldl (· + ·)
    (evaluatePoly participant.secretPoly (Suite.scalarFromU64 participant.id))

/-- Walking the commitments, the round comes upon an empty vector whose proof is there. -/
def MeetsEmpty (C : Suite S P) (allCommitments : Keyed SignerId (List P))
    (allPoks : Keyed SignerId (ProofOfKnowledge S P)) : Prop :=
  ∃ before entry after, allCommitments.pairs = before ++ entry :: after ∧
    (∀ e ∈ before, PokPasses C allPoks e) ∧ entry.2 = [] ∧ entry.1 ∈ allPoks

/-- With a first commitment in every vector, there is a list of them. -/
theorem constants_of_poks (h : ∀ entry ∈ allCommitments.pairs, PokPasses C allPoks entry) :
    ∃ constants, allCommitments.pairs.mapM (fun p => p.2.head?) = some constants ∧
      allCommitments.pairs.map (fun p => p.2.head?) = constants.map some := by
  have hhead : ∀ p ∈ allCommitments.pairs, p.2.head? = some (p.2.headD 0) := by
    intro p hp
    obtain ⟨_, _, commitment0, hhead, _⟩ := h p hp
    rw [List.headD_eq_head?_getD, hhead]
    rfl
  refine ⟨allCommitments.pairs.map fun p => p.2.headD 0, mapM_eq_pure hhead, ?_⟩
  rw [List.map_map]
  exact List.map_congr_left hhead

/-- Where every entry passes a keyset comes out, computed from both maps. -/
theorem dkgRound3_of_checked (h : Checked C participant receivedShares allCommitments allPoks) :
    ∃ keyset, dkgRound3 C participant receivedShares allCommitments allPoks = pure keyset ∧
      keyset.shares participant.id = some
        { x := Suite.scalarFromU64 participant.id, y := totalShare participant receivedShares } ∧
      ∃ constants : List P, allCommitments.pairs.map (fun p => p.2.head?) = constants.map some ∧
        keyset.groupPublic = constants.sum := by
  obtain ⟨constants, hmapM, hmap⟩ := constants_of_poks h.poks
  have hpoks : allCommitments.pairs.forM (checkPok C allPoks) = pure ⟨⟩ :=
    forM_eq_pure fun e he => checkPok_eq_pure_iff.mpr (h.poks e he)
  have hshares : receivedShares.pairs.forM (checkShare C participant allCommitments) = pure ⟨⟩ :=
    forM_eq_pure fun e he => checkShare_eq_pure_iff.mpr (h.shares e he)
  unfold dkgRound3
  dsimp only
  rw [hpoks, pure_bind, hshares, pure_bind, hmapM]
  exact ⟨_, rfl, if_pos rfl, constants, hmap, rfl⟩

/-- A keyset says that every entry passed. -/
theorem checked_of_dkgRound3 {keyset : ThresholdKeyset S P}
    (h : dkgRound3 C participant receivedShares allCommitments allPoks = pure keyset) :
    Checked C participant receivedShares allCommitments allPoks := by
  unfold dkgRound3 at h
  obtain ⟨_, hpoks, h⟩ := bind_eq_pure_iff.mp h
  obtain ⟨_, hshares, _⟩ := bind_eq_pure_iff.mp h
  exact ⟨fun e he => checkPok_eq_pure_iff.mp (forM_eq_pure_iff.mp hpoks e he),
    fun e he => checkShare_eq_pure_iff.mp (forM_eq_pure_iff.mp hshares e he)⟩

/-- **Where round 3 panics.** The shares are checked without a panic, and where every proof
    passed each vector has its constant term. -/
theorem dkgRound3_panics_iff :
    Panics (dkgRound3 C participant receivedShares allCommitments allPoks) ↔
      MeetsEmpty C allCommitments allPoks := by
  have hloop : Panics (allCommitments.pairs.forM (checkPok C allPoks)) ↔
      MeetsEmpty C allCommitments allPoks := by
    unfold MeetsEmpty
    rw [forM_panics_iff]
    simp only [checkPok_eq_pure_iff, checkPok_panics_iff]
  rw [← hloop]
  constructor
  · intro hpanic
    have h := hpanic
    unfold dkgRound3 at h
    rcases bind_panics_iff.mp h with h | ⟨_, hpoks, h⟩
    · exact h
    · rcases bind_panics_iff.mp h with h | ⟨_, hshares, _⟩
      · obtain ⟨_, e, _, _, _, he⟩ := forM_panics_iff.mp h
        exact absurd he checkShare_not_panics
      · have hchecked : Checked C participant receivedShares allCommitments allPoks :=
          ⟨fun e he => checkPok_eq_pure_iff.mp (forM_eq_pure_iff.mp hpoks e he),
            fun e he => checkShare_eq_pure_iff.mp (forM_eq_pure_iff.mp hshares e he)⟩
        obtain ⟨keyset, hkeyset, _⟩ := dkgRound3_of_checked hchecked
        rw [hkeyset] at hpanic
        cases hpanic
  · intro h
    unfold dkgRound3
    exact bind_panics_iff.mpr (.inl h)

/-! ## 3. Robustness -/

/-- The keyset fits the commitments: their length, the own share, the group key. -/
structure Fits (C : Suite S P) (participant : DkgParticipant S P)
    (allCommitments : Keyed SignerId (List P)) (keyset : ThresholdKeyset S P) : Prop where
  lengths : ∀ p ∈ allCommitments.pairs, p.2.length = participant.threshold
  share : ∃ share, keyset.shares participant.id = some share ∧
    share.y • C.G = (allCommitments.pairs.map fun p =>
      evaluatePolyPoints p.2 (Suite.scalarFromU64 participant.id : S)).sum
  groupPublic : ∃ constants : List P,
    allCommitments.pairs.map (fun p => p.2.head?) = constants.map some ∧
      keyset.groupPublic = constants.sum

/-- The round does not panic, and a keyset it returns fits the commitments. -/
structure Robust (C : Suite S P) (participant : DkgParticipant S P)
    (receivedShares : Keyed SignerId S) (allCommitments : Keyed SignerId (List P))
    (allPoks : Keyed SignerId (ProofOfKnowledge S P)) : Prop where
  noPanic : ¬ Panics (dkgRound3 C participant receivedShares allCommitments allPoks)
  fits : ∀ keyset, dkgRound3 C participant receivedShares allCommitments allPoks = pure keyset →
    Fits C participant allCommitments keyset

/-- The commitments of those from whom no share came, the participant itself among them unless a
    share is labelled with its id. -/
def silent (receivedShares : Keyed SignerId S) (allCommitments : Keyed SignerId (List P)) :
    List (SignerId × List P) :=
  allCommitments.pairs.filter fun p => (AList.lookup p.1 receivedShares).isNone

/-- The silent ones' vectors have the length of the threshold, and at the participant's id their
    polynomials add up to its own, as where it is the only one. -/
structure SilentHarmless (participant : DkgParticipant S P) (receivedShares : Keyed SignerId S)
    (allCommitments : Keyed SignerId (List P)) : Prop where
  lengths : ∀ p ∈ silent receivedShares allCommitments, p.2.length = participant.threshold
  sum : ((silent receivedShares allCommitments).map fun p =>
    evaluatePolyPoints p.2 (Suite.scalarFromU64 participant.id : S)).sum =
      evaluatePolyPoints participant.commitments (Suite.scalarFromU64 participant.id : S)

/-- **The received shares are what their senders committed to**, so with the silent ones'
    polynomials they make up the sum of all. -/
theorem received_add_silent (h : Checked C participant receivedShares allCommitments allPoks) :
    (receivedShares.pairs.map (·.2)).sum • C.G +
        ((silent receivedShares allCommitments).map fun p =>
          evaluatePolyPoints p.2 (Suite.scalarFromU64 participant.id : S)).sum =
      (allCommitments.pairs.map fun p =>
        evaluatePolyPoints p.2 (Suite.scalarFromU64 participant.id : S)).sum := by
  have hshare : ∀ p ∈ receivedShares.pairs, ∃ commitments,
      AList.lookup p.1 allCommitments = some commitments ∧ p.2 • C.G =
        evaluatePolyPoints commitments (Suite.scalarFromU64 participant.id : S) := by
    intro p hp
    obtain ⟨commitments, hlook, _, hvalue⟩ := h.shares p hp
    exact ⟨commitments, hlook, hvalue⟩
  have hsplit := Keyed.sum_pairs_split (f := fun commitments =>
    evaluatePolyPoints commitments (Suite.scalarFromU64 participant.id : S))
    (g := fun share => share • C.G) hshare
  rw [List.sum_smul, List.map_map]
  exact hsplit

/-- What round 1 returns. -/
theorem dkgRound1_some {id : SignerId} {t : Nat} {rnd : Round1Random S}
    {pok : ProofOfKnowledge S P} (h : dkgRound1 C id t rnd = some (participant, pok)) :
    participant = honestParticipant C t id rnd := by
  rcases Nat.eq_zero_or_pos t with rfl | ht
  · cases h
  · rw [dkgRound1_eq ht] at h
    cases h
    rfl

/-- The share of a participant of round 1, times the base point: its committed polynomial at its
    own id, and the received shares. -/
theorem totalShare_smul {id : SignerId} {t : Nat} {rnd : Round1Random S} :
    totalShare (honestParticipant C t id rnd) receivedShares • C.G =
      evaluatePolyPoints (honestParticipant C t id rnd).commitments
        (Suite.scalarFromU64 id : S) + (receivedShares.pairs.map (·.2)).sum • C.G := by
  have hself : powerSum (Suite.scalarFromU64 id : S) (coeffs t rnd) • C.G =
      powerSum (Suite.scalarFromU64 id : S) ((coeffs t rnd).map (· • C.G)) := by
    rw [powerSum_eq, powerSum_smul]
  unfold totalShare
  rw [foldl_add, add_smul]
  exact congrArg (· + _) hself

/-- The lengths that the silent ones' vectors leave open are checked with the shares. -/
theorem lengths_of_silent (h : Checked C participant receivedShares allCommitments allPoks)
    (hsilent : ∀ p ∈ silent receivedShares allCommitments, p.2.length = participant.threshold) :
    ∀ p ∈ allCommitments.pairs, p.2.length = participant.threshold := by
  intro p hp
  cases hshare : AList.lookup p.1 receivedShares with
  | none => exact hsilent p (List.mem_filter.mpr ⟨hp, by rw [hshare]; rfl⟩)
  | some share =>
      obtain ⟨commitments, hlook, hlen, _⟩ :=
        h.shares (p.1, share) (Keyed.mem_pairs.mpr hshare)
      rw [Keyed.mem_pairs.mp hp] at hlook
      cases hlook
      exact hlen

/-- **When round 3 is robust.** Whatever maps a participant of round 1 is given, with its own
    commitments among them or not: the round does not panic and returns only keysets that fit the
    commitments, exactly if it meets no empty vector whose proof is there and, where every entry
    passes its check, the silent ones are harmless. -/
theorem dkgRound3_robust_iff (C : Suite S P) {id : SignerId} {t : Nat} {rnd : Round1Random S}
    {participant : DkgParticipant S P} {pok : ProofOfKnowledge S P}
    (hround1 : dkgRound1 C id t rnd = some (participant, pok))
    (receivedShares : Keyed SignerId S) (allCommitments : Keyed SignerId (List P))
    (allPoks : Keyed SignerId (ProofOfKnowledge S P)) :
    Robust C participant receivedShares allCommitments allPoks ↔
      ¬ MeetsEmpty C allCommitments allPoks ∧
        (Checked C participant receivedShares allCommitments allPoks →
          SilentHarmless participant receivedShares allCommitments) := by
  cases dkgRound1_some hround1
  constructor
  · intro hrobust
    refine ⟨fun hempty => hrobust.noPanic (dkgRound3_panics_iff.mpr hempty), fun hchecked => ?_⟩
    obtain ⟨keyset, hkeyset, hshare, _⟩ := dkgRound3_of_checked hchecked
    obtain ⟨hlengths, ⟨share, hshare', hfits⟩, _⟩ := hrobust.fits keyset hkeyset
    cases hshare.symm.trans hshare'
    refine ⟨fun p hp => hlengths p (List.mem_filter.mp hp).1, ?_⟩
    have hsum := received_add_silent hchecked
    rw [← hfits, totalShare_smul, add_comm] at hsum
    exact add_right_cancel hsum
  · intro hcond
    obtain ⟨hempty, hharmless⟩ := hcond
    refine ⟨fun hpanic => hempty (dkgRound3_panics_iff.mp hpanic), fun keyset hkeyset => ?_⟩
    have hchecked := checked_of_dkgRound3 hkeyset
    obtain ⟨hlengths, hsum⟩ := hharmless hchecked
    obtain ⟨keyset', hkeyset', hshare, hgroup⟩ := dkgRound3_of_checked hchecked
    rw [hkeyset] at hkeyset'
    cases hkeyset'
    refine ⟨lengths_of_silent hchecked hlengths, ⟨_, hshare, ?_⟩, hgroup⟩
    show totalShare _ receivedShares • C.G = _
    rw [totalShare_smul, ← received_add_silent hchecked, hsum, add_comm]
    rfl

/-- **Where everyone's share has come the round is robust**: no empty vector, and nobody silent but
    the participant itself. -/
theorem harmless_of_complete (hne : ∀ p ∈ allCommitments.pairs, p.2 ≠ [])
    (hlen : participant.commitments.length = participant.threshold)
    (hsilent : silent receivedShares allCommitments = [(participant.id, participant.commitments)]) :
    ¬ MeetsEmpty C allCommitments allPoks ∧
      SilentHarmless participant receivedShares allCommitments := by
  refine ⟨fun hempty => ?_, fun p hp => ?_, ?_⟩
  · obtain ⟨before, entry, after, hpairs, _, hnil, _⟩ := hempty
    refine hne entry ?_ hnil
    rw [hpairs]
    exact List.mem_append_right before List.mem_cons_self
  · rw [hsilent] at hp
    cases List.mem_singleton.mp hp
    exact hlen
  · rw [hsilent, List.map_singleton, List.sum_singleton]

/-! ## 4. A silent participant and an empty vector -/

/-- What participants 1 and 2 draw. -/
def sampleDraw (id : SignerId) : Round1Random SampleScalar :=
  ⟨fun j => (id.toNat * 3 + j * 4 + 2 : Nat), (id.toNat + 7 : Nat)⟩

def samplePoks : Keyed SignerId (ProofOfKnowledge SampleScalar SamplePoint) :=
  Keyed.ofPairs (Keyed.table [1, 2] fun id => honestPok sampleSuite id (sampleDraw id))

def sampleCommitments : Keyed SignerId (List SamplePoint) :=
  Keyed.ofPairs (honestCommitments sampleSuite 2 [1, 2] sampleDraw)

/-- Participant 1 has the share of participant 2: the round is robust. -/
theorem dkgRound3_robust_iff_complete :
    ∃ participant pok, dkgRound1 sampleSuite 1 2 (sampleDraw 1) = some (participant, pok) ∧
      Robust sampleSuite participant (Keyed.ofPairs (sentTo 2 [1, 2] sampleDraw 1))
        sampleCommitments samplePoks := by
  have hround1 : dkgRound1 sampleSuite 1 2 (sampleDraw 1) = some
      (honestParticipant sampleSuite 2 1 (sampleDraw 1),
        honestPok sampleSuite 1 (sampleDraw 1)) := dkgRound1_eq (by decide) (sampleDraw 1)
  have hcomplete : ¬ MeetsEmpty sampleSuite sampleCommitments samplePoks ∧
      SilentHarmless (honestParticipant sampleSuite 2 1 (sampleDraw 1))
        (Keyed.ofPairs (sentTo 2 [1, 2] sampleDraw 1)) sampleCommitments :=
    harmless_of_complete (by decide +kernel) rfl (by decide +kernel)
  exact ⟨_, _, hround1, (dkgRound3_robust_iff sampleSuite hround1 _ _ _).mpr
    ⟨hcomplete.1, fun _ => hcomplete.2⟩⟩

/-- Participant 1 has no share of participant 2, and returns a keyset whose share is not the
    committed one; given an empty vector of participant 2, it panics. -/
theorem round3_not_robust :
    ∃ participant pok, dkgRound1 sampleSuite 1 2 (sampleDraw 1) = some (participant, pok) ∧
      (AList.lookup participant.id sampleCommitments = some participant.commitments ∧
        ¬ Robust sampleSuite participant ∅ sampleCommitments samplePoks) ∧
      AList.lookup participant.id (sampleCommitments.insert 2 []) =
          some participant.commitments ∧
        ¬ Robust sampleSuite participant ∅ (sampleCommitments.insert 2 []) samplePoks := by
  have hround1 : dkgRound1 sampleSuite 1 2 (sampleDraw 1) = some
      (honestParticipant sampleSuite 2 1 (sampleDraw 1),
        honestPok sampleSuite 1 (sampleDraw 1)) := dkgRound1_eq (by decide) (sampleDraw 1)
  refine ⟨_, _, hround1, ⟨by decide +kernel, fun hrobust => ?_⟩, by decide +kernel,
    fun hrobust => hrobust.noPanic ?_⟩
  · have hrun : ((dkgRound3 sampleSuite (honestParticipant sampleSuite 2 1 (sampleDraw 1)) ∅
        sampleCommitments samplePoks).run.map fun r => r.toOption.map fun keyset =>
          (keyset.shares 1).map fun share => decide (share.y • sampleSuite.G =
            (sampleCommitments.pairs.map fun p => evaluatePolyPoints p.2
              (Suite.scalarFromU64 1 : SampleScalar)).sum)) = some (some (some false)) := by
      decide +kernel
    obtain ⟨r, hr, hkeyset⟩ := Option.map_eq_some_iff.mp hrun
    cases r with
    | error e => cases hkeyset
    | ok keyset =>
        obtain ⟨_, ⟨share, hshare, hfits⟩, _⟩ := hrobust.fits keyset hr
        obtain ⟨share', hshare', hne⟩ := Option.map_eq_some_iff.mp (Option.some.inj hkeyset)
        cases hshare.symm.trans hshare'
        exact of_decide_eq_false hne hfits
  · have hrun : (dkgRound3 sampleSuite (honestParticipant sampleSuite 2 1 (sampleDraw 1)) ∅
        (sampleCommitments.insert 2 []) samplePoks).run.isNone = true := by
      decide +kernel
    exact Option.isNone_iff_eq_none.mp hrun

end Dkg

end Specter
