/-
  File:      Specter/Credential/Repeats.lean
  Subject:   HONEST PRESENTATIONS FOR ANY LIST OF POSITIONS (`create_presentation`,
             `verify_presentation` of specter-credential/src/presentation.rs).

  The prover drops the positions that are out of range and keeps a position as often as it is
  listed; the hidden ones are those not listed at all. The verifier subtracts every entry, so a
  position listed `k` times is subtracted `k - 1` times too often.

  * `surplus` -- what is subtracted too often; `recomputedT_create` -- it stands in the nonce
    the verifier recomputes;
  * `RepeatsZero` -- the positions listed more than once hold zeros;
  * `create_accepted`, `repeatsZero_of_accepted` -- then a presentation of a signed credential
    is accepted, and but for an accident only then;
  * `create_accepted_iff` -- then, and but for an accident of the hash or of the generators only
    then, the presentation is accepted.
-/
import Specter.Credential.Disclosure

namespace Specter

open Lib Lib.Representation

variable {S P : Type} [Field S] [AddCommGroup P] [Module S P]

namespace Presentation

variable {C : Suite S P} {pp : PedersenParams P} {cred : Credential S P}

/-- The attribute at a position as often as it is listed after the first time. -/
def surplus (cred : Credential S P) (shown : List Nat) : List (Nat × S) :=
  shown.dedup.map fun i => (i, ((shown.count i - 1 : Nat) : S) * (entryOf cred i).2)

omit [AddCommGroup P] [Module S P] in
theorem coeff_entries (shown : List Nat) (i : Nat) :
    coeff (shown.map (entryOf cred)) i = (shown.count i : S) * (entryOf cred i).2 := by
  have hall : ∀ d ∈ shown.map (entryOf cred), d.1 = i → d.2 = (entryOf cred i).2 := by
    intro d hd heq
    obtain ⟨j, _, rfl⟩ := List.mem_map.mp hd
    rw [← heq]
    rfl
  have hfst : (shown.map (entryOf cred)).map (·.1) = shown := by
    rw [List.map_map]
    exact List.map_id _
  rw [coeff_of_all_eq hall, occurrences, hfst]

omit [AddCommGroup P] [Module S P] in
theorem coeff_surplus (shown : List Nat) (i : Nat) :
    coeff (surplus cred shown) i =
      if i ∈ shown then ((shown.count i - 1 : Nat) : S) * (entryOf cred i).2 else 0 := by
  have hfst : (surplus cred shown).map (·.1) = shown.dedup := by
    unfold surplus
    rw [List.map_map]
    exact List.map_id _
  by_cases hi : i ∈ shown
  · rw [if_pos hi]
    exact coeff_of_nodup (hfst.symm ▸ List.nodup_dedup shown)
      (List.mem_map_of_mem (List.mem_dedup.mpr hi))
  · rw [if_neg hi]
    refine coeff_eq_zero fun d hd heq => hi ?_
    rw [← List.mem_dedup, ← hfst, ← heq]
    exact List.mem_map_of_mem hd

/-- What is disclosed is every listed position once, and the surplus. -/
theorem combo_shown (G : Nat → P) {shown : List Nat} (hlt : ∀ i ∈ shown, i < Attributes.count) :
    combo G (shown.map (entryOf cred)) =
      combo G (shown.dedup.map (entryOf cred)) + combo G (surplus cred shown) := by
  rw [← combo_append]
  refine combo_ext G (n := Attributes.count) ?_ ?_ fun i _ => ?_
  · intro d hd
    obtain ⟨i, hi, rfl⟩ := List.mem_map.mp hd
    exact hlt i hi
  · intro d hd
    rcases List.mem_append.mp hd with hd | hd
    · obtain ⟨i, hi, rfl⟩ := List.mem_map.mp hd
      exact hlt i (List.mem_dedup.mp hi)
    · obtain ⟨i, hi, rfl⟩ := List.mem_map.mp hd
      exact hlt i (List.mem_dedup.mp hi)
  · rw [coeff_append, coeff_entries, coeff_entries, coeff_surplus]
    by_cases hi : i ∈ shown
    · have hpos : 1 ≤ shown.count i := List.count_pos_iff.mpr hi
      rw [if_pos hi, List.count_eq_one_of_mem (List.nodup_dedup shown) (List.mem_dedup.mpr hi),
        Nat.cast_sub hpos]
      ring
    · have hdedup : i ∉ shown.dedup := fun h => hi (List.mem_dedup.mp h)
      rw [if_neg hi, List.count_eq_zero_of_not_mem hi, List.count_eq_zero_of_not_mem hdedup]
      simp

theorem hiddenIndices_dedup (shown : List Nat) :
    hiddenIndices shown.dedup = hiddenIndices shown := by
  unfold hiddenIndices
  refine List.filter_congr fun i _ => ?_
  simp only [List.mem_dedup]

/-! ## 1. What the verifier subtracts too often -/

/-- The nonce the verifier recomputes from an honest presentation: the surplus stands in it. -/
theorem recomputedT_create
    (hcom : cred.commitment = pp.commitVector C cred.attributes.toScalars cred.blinding)
    (indices : List Nat) (randoms : Nat → S) :
    recomputedT C pp (createPresentation C cred indices pp randoms) =
      (createPresentation C cred indices pp randoms).proofCommitment +
        (createPresentation C cred indices pp randoms).proofChallenge •
          combo (PedersenParams.vectorGenerator C) (surplus cred (validDisclose indices)) := by
  refine recomputedT_create_of ?_
  have honce := commitment_sub_shown hcom (List.nodup_dedup (validDisclose indices))
    fun i hi => validDisclose_lt i (List.mem_dedup.mp hi)
  rw [hiddenIndices_dedup] at honce
  show cred.commitment - combo _ ((validDisclose indices).map (entryOf cred)) = _
  rw [combo_shown _ validDisclose_lt, ← honce]
  abel

/-! ## 2. When the presentation is accepted -/

/-- The positions listed more than once hold zeros. -/
def RepeatsZero (a : Attributes) (indices : List Nat) : Prop :=
  ∀ i, 1 < indices.count i → (a.toScalars : List S).getD i 0 = 0

/-- What would make a wrong presentation pass: a challenge of zero, the same challenge for
    another nonce, or a relation between the generators. None of it happens here. -/
structure NoAccident (C : Suite S P) (pp : PedersenParams P) (pres : Presentation S P)
    (excess : List (Nat × S)) : Prop where
  challenge : pres.proofChallenge ≠ 0
  hash : hashPresentationChallenge C pres.commitment (recomputedT C pp pres) pres.disclosed
      pres.issuerPk =
    hashPresentationChallenge C pres.commitment pres.proofCommitment pres.disclosed
      pres.issuerPk → recomputedT C pp pres = pres.proofCommitment
  generators : combo (PedersenParams.vectorGenerator C) excess = 0 → ∀ d ∈ excess, d.2 = 0

/-- The surplus consists of zeros exactly where the repeated positions hold zeros. -/
theorem surplus_zero_iff (C : Suite S P) {indices : List Nat} (hlen : indices.length < 2 ^ 64) :
    (∀ d ∈ surplus cred (validDisclose indices), d.2 = 0) ↔
      RepeatsZero (S := S) cred.attributes indices := by
  constructor
  · intro h i hmany
    by_cases hi : i < Attributes.count
    · have hcount : (validDisclose indices).count i = indices.count i :=
        List.count_filter (decide_eq_true hi)
      have hmem : i ∈ (validDisclose indices).dedup :=
        List.mem_dedup.mpr (List.count_pos_iff.mp (by omega))
      have hzero := h _ (List.mem_map_of_mem hmem)
      dsimp only at hzero
      rw [hcount] at hzero
      refine (mul_eq_zero.mp hzero).resolve_left fun h0 => ?_
      have hle : indices.count i ≤ indices.length := List.count_le_length
      have := natCast_eq_zero C (k := indices.count i - 1) (by omega) h0
      omega
    · -- out of range there is no attribute
      rw [List.getD_eq_getElem?_getD, List.getElem?_eq_none (Nat.not_lt.mp hi), Option.getD_none]
  · intro h d hd
    obtain ⟨i, hi, rfl⟩ := List.mem_map.mp hd
    dsimp only
    have hi' := List.mem_dedup.mp hi
    have hcount : (validDisclose indices).count i = indices.count i :=
      List.count_filter (decide_eq_true (validDisclose_lt i hi'))
    rw [hcount]
    rcases Nat.lt_or_ge 1 (indices.count i) with hmany | hone
    · rw [show (entryOf cred i).2 = 0 from h i hmany, mul_zero]
    · rw [Nat.sub_eq_zero_of_le hone, Nat.cast_zero, zero_mul]

/-- Where the repeated positions hold zeros, there is no surplus and the presentation of a signed
    credential is accepted. -/
theorem create_accepted
    (hsig : Issuer.signatureValid C cred.commitment cred.issuerPk cred.signatureS
      cred.signatureE = true)
    (hcom : cred.commitment = pp.commitVector C cred.attributes.toScalars cred.blinding)
    {indices : List Nat} (hlen : indices.length < 2 ^ 64)
    (hzero : RepeatsZero (S := S) cred.attributes indices) (randoms : Nat → S) :
    (createPresentation C cred indices pp randoms).verifyPresentation C pp = some true := by
  have hcombo : combo (PedersenParams.vectorGenerator C)
      (surplus cred (validDisclose indices)) = 0 := by
    refine List.sum_eq_zero fun x hx => ?_
    obtain ⟨d, hd, rfl⟩ := List.mem_map.mp hx
    rw [(surplus_zero_iff C hlen).mpr hzero d hd, zero_smul]
  refine (verifyPresentation_create_iff hsig).mpr ?_
  rw [recomputedT_create hcom, hcombo, smul_zero, add_zero]

/-- Accepted without an accident, a presentation has no surplus. -/
theorem repeatsZero_of_accepted
    (hsig : Issuer.signatureValid C cred.commitment cred.issuerPk cred.signatureS
      cred.signatureE = true)
    (hcom : cred.commitment = pp.commitVector C cred.attributes.toScalars cred.blinding)
    {indices : List Nat} (hlen : indices.length < 2 ^ 64) {randoms : Nat → S}
    (hno : NoAccident C pp (createPresentation C cred indices pp randoms)
      (surplus cred (validDisclose indices)))
    (h : (createPresentation C cred indices pp randoms).verifyPresentation C pp = some true) :
    RepeatsZero (S := S) cred.attributes indices := by
  refine (surplus_zero_iff C hlen).mp (hno.generators ?_)
  -- the same challenge, so the same nonce, so no surplus
  have hsame := hno.hash ((verifyPresentation_create_iff hsig).mp h)
  rw [recomputedT_create hcom, add_eq_left, smul_eq_zero] at hsame
  exact hsame.resolve_left hno.challenge

/-- **When an honest presentation is accepted.** For a credential issued over any attributes and
    any list of positions: where the positions listed more than once hold zeros, the
    presentation is accepted whatever the prover draws; and for every draw without an accident
    of the hash or of the generators it is accepted only there. -/
theorem create_accepted_iff (C : Suite S P) (secret : S) (a : Attributes) (rnd : IssuerRandom S)
    {indices : List Nat} (hlen : indices.length < 2 ^ 64) :
    let issuer := Issuer.new C secret
    let cred := issuer.issue C a rnd
    let create := createPresentation C cred indices issuer.pedersen
    (RepeatsZero (S := S) a indices →
      ∀ randoms, (create randoms).verifyPresentation C issuer.pedersen = some true) ∧
    ∀ randoms, NoAccident C issuer.pedersen (create randoms)
        (surplus cred (validDisclose indices)) →
      ((create randoms).verifyPresentation C issuer.pedersen = some true ↔
        RepeatsZero (S := S) a indices) := by
  intro issuer cred create
  have hsig := Issuer.issue_signed C issuer rfl a rnd
  exact ⟨create_accepted hsig rfl hlen, fun randoms hno =>
    ⟨repeatsZero_of_accepted hsig rfl hlen hno, fun h => create_accepted hsig rfl hlen h randoms⟩⟩

/-! ## 3. A position listed twice -/

/-- A holder who has passed the first check discloses it twice: refused. -/
theorem repeated_position_refused :
    let issuer := Issuer.new sampleSuite 5
    let cred := issuer.issue sampleSuite ⟨true, true, "EU", true, 0⟩ ⟨21, 22⟩
    (createPresentation sampleSuite cred [0, 0] issuer.pedersen
      fun j => j + 3).verifyPresentation sampleSuite issuer.pedersen = some false := by
  decide +kernel

/-- A holder who has not passed it may list it twice, and a position out of range besides. -/
theorem repeated_zero_accepted :
    let issuer := Issuer.new sampleSuite 5
    let cred := issuer.issue sampleSuite ⟨false, true, "EU", true, 0⟩ ⟨21, 22⟩
    (createPresentation sampleSuite cred [0, 7, 0] issuer.pedersen
      fun j => j + 3).verifyPresentation sampleSuite issuer.pedersen = some true := by
  have hlen : [0, 7, 0].length < 2 ^ 64 := by decide
  refine (create_accepted_iff sampleSuite 5 ⟨false, true, "EU", true, 0⟩ ⟨21, 22⟩ hlen).1 ?_ _
  intro i hmany
  by_cases hi : i = 0
  · subst hi
    decide +kernel
  · have hone : List.count i [0, 7, 0] = List.count i [7] := by
      simp [List.count_cons, Ne.symm hi]
    have hle : List.count i [7] ≤ 1 := List.count_le_length
    omega

end Presentation

end Specter
