/-
  File:      Specter/Credential/Disclosure.lean
  Subject:   WHAT AN ACCEPTED PRESENTATION DISCLOSES (`verify_presentation` of
             specter-credential/src/presentation.rs).

  The verifier subtracts the disclosed values from the commitment, one after the other, and
  checks a proof of knowledge of a representation of the rest over the positions that are not
  in the list. A position listed twice is subtracted twice.

  * `verifyPresentation_cases` -- what the verifier returns; `verifyPresentation_iff` -- when it
    accepts, as an equation;
  * `verifyPresentation_create` -- an honest presentation is accepted;
  * `Extraction` -- a second answer of the prover to its nonce; `Extraction.opening` -- it opens
    the commitment, the disclosed values of a position added up;
  * `disclosed_correct_iff` -- all disclosed values are those of the credential exactly where
    the positions listed more than once carry zeros.
-/
import Specter.Credential.Presentation
import Specter.Lib.Keyed
import Specter.Lib.Representation

namespace Specter

open Lib Lib.Representation

variable {S P : Type} [Field S] [AddCommGroup P] [Module S P]

namespace Presentation

/-! ## 1. The verifier as an equation -/

/-- The positions the verifier takes for hidden. -/
def hidden (pres : Presentation S P) : List Nat := hiddenIndices (pres.disclosed.map (·.1))

def responseAt (pres : Presentation S P) (j : Nat) : S := pres.proofResponse.getD j 0

/-- `C_hidden`: the commitment without what is disclosed. -/
def hiddenCommitment (C : Suite S P) (pres : Presentation S P) : P :=
  pres.commitment - combo (PedersenParams.vectorGenerator C) pres.disclosed

/-- The nonce the verifier recomputes from the responses. -/
def recomputedT (C : Suite S P) (pp : PedersenParams P) (pres : Presentation S P) : P :=
  blend (PedersenParams.vectorGenerator C) pp.h pres.hidden pres.responseAt -
    pres.proofChallenge • hiddenCommitment C pres

variable {C : Suite S P} {pp : PedersenParams P} {pres : Presentation S P}

/-- Where there are responses enough, every hidden position finds its own. -/
theorem mapM_responses (hlen : pres.hidden.length ≤ pres.proofResponse.length) :
    (pres.hidden.zipIdx.mapM fun p =>
      (pres.proofResponse[p.2]?).map (· • PedersenParams.vectorGenerator C p.1)) =
    some (pres.hidden.zipIdx.map fun p =>
      pres.responseAt p.2 • PedersenParams.vectorGenerator C p.1) := by
  refine mapM_eq_pure fun p hp => ?_
  have hlt : p.2 < pres.proofResponse.length :=
    Nat.lt_of_lt_of_le (List.mem_zipIdx' hp).1 hlen
  unfold responseAt
  rw [List.getD_eq_getElem?_getD, List.getElem?_eq_getElem hlt]
  rfl

/-- What the verifier returns: it rejects before it looks at the responses, or it compares the
    challenge with the one of the recomputed nonce, or the response for `h` is missing and it
    panics. -/
theorem verifyPresentation_cases (C : Suite S P) (pp : PedersenParams P)
    (pres : Presentation S P) :
    (¬(Issuer.signatureValid C pres.commitment pres.issuerPk pres.credSignatureS
          pres.credSignatureE = true ∧ ∀ d ∈ pres.disclosed, d.1 < Attributes.count) ∧
      pres.verifyPresentation C pp = some false) ∨
    (Issuer.signatureValid C pres.commitment pres.issuerPk pres.credSignatureS
        pres.credSignatureE = true ∧ ∀ d ∈ pres.disclosed, d.1 < Attributes.count) ∧
      ((pres.hidden.length < pres.proofResponse.length ∧
        ∃ accepted, pres.verifyPresentation C pp = some accepted ∧
          (accepted = true ↔ hashPresentationChallenge C pres.commitment (recomputedT C pp pres)
            pres.disclosed pres.issuerPk = pres.proofChallenge)) ∨
      (pres.proofResponse.length ≤ pres.hidden.length ∧
        pres.verifyPresentation C pp = none)) := by
  have hrange : ((pres.disclosed.map (·.1)).any (· ≥ Attributes.count)) = true ↔
      ¬ ∀ d ∈ pres.disclosed, d.1 < Attributes.count := by
    simp
  unfold verifyPresentation
  cases hsig : Issuer.signatureValid C pres.commitment pres.issuerPk pres.credSignatureS
      pres.credSignatureE with
  | false => exact .inl ⟨fun h => (nomatch h.1), if_pos rfl⟩
  | true =>
      rw [if_neg (by decide)]
      dsimp only
      by_cases hidx : ∀ d ∈ pres.disclosed, d.1 < Attributes.count
      · rw [if_neg (fun h => hrange.mp h hidx)]
        refine .inr ⟨⟨rfl, hidx⟩, ?_⟩
        rcases Nat.lt_or_ge pres.hidden.length pres.proofResponse.length with hlen | hlen
        · have hparts := mapM_responses (C := C) (Nat.le_of_lt hlen)
          have hblind : pres.proofResponse[pres.hidden.length]? =
              some (pres.responseAt pres.hidden.length) := by
            unfold responseAt
            rw [List.getD_eq_getElem?_getD, List.getElem?_eq_getElem hlen]
            rfl
          unfold hidden at hparts hblind
          refine .inl ⟨hlen, ?_⟩
          rw [hparts, Option.bind_eq_bind, Option.bind_some, hblind, Option.bind_eq_bind,
            Option.bind_some]
          refine ⟨_, rfl, ?_⟩
          rw [beq_iff_eq, C.asBytes_inj]
          unfold recomputedT blend
          rw [combo_attach]
          exact Iff.rfl
        · -- without a response for `h` the code panics
          have hblind : pres.proofResponse[pres.hidden.length]? = none :=
            List.getElem?_eq_none hlen
          unfold hidden at hblind
          refine .inr ⟨hlen, ?_⟩
          rw [hblind, Option.bind_eq_bind, Option.bind_eq_none_iff]
          exact fun _ _ => rfl
      · rw [if_pos (hrange.mpr hidx)]
        exact .inl ⟨fun h => hidx h.2, rfl⟩

/-- **The verifier as an equation**: the issuer's signature, positions in range, responses
    enough, and the challenge that answers to the recomputed nonce. -/
theorem verifyPresentation_iff :
    pres.verifyPresentation C pp = some true ↔
      Issuer.signatureValid C pres.commitment pres.issuerPk pres.credSignatureS
        pres.credSignatureE = true ∧
      (∀ d ∈ pres.disclosed, d.1 < Attributes.count) ∧
      pres.hidden.length < pres.proofResponse.length ∧
      hashPresentationChallenge C pres.commitment (recomputedT C pp pres) pres.disclosed
        pres.issuerPk = pres.proofChallenge := by
  obtain ⟨hne, heq⟩ | ⟨⟨hsig, hidx⟩, ⟨hlen, accepted, heq, hacc⟩ | ⟨hlen, heq⟩⟩ :=
    verifyPresentation_cases C pp pres
  · rw [heq]
    exact ⟨fun h => (nomatch h), fun h => absurd ⟨h.1, h.2.1⟩ hne⟩
  · rw [heq, Option.some.injEq, hacc]
    exact ⟨fun h => ⟨hsig, hidx, hlen, h⟩, fun h => h.2.2.2⟩
  · rw [heq]
    exact ⟨fun h => (nomatch h), fun h => absurd h.2.2.1 (Nat.not_lt.mpr hlen)⟩

/-! ## 2. Vector commitments as representations -/

/-- The values with their positions. -/
def indexed (values : List S) : List (Nat × S) := values.zipIdx.map fun p => (p.2, p.1)

omit [Field S] in
theorem mem_indexed {values : List S} {d : Nat × S} (hd : d ∈ indexed values) :
    d.1 < values.length := by
  obtain ⟨p, hp, rfl⟩ := List.mem_map.mp hd
  exact (List.mem_zipIdx' hp).1

omit [Field S] in
theorem indexed_fst (values : List S) : (indexed values).map (·.1) = List.range values.length := by
  unfold indexed
  rw [List.map_map]
  refine List.ext_getElem (by simp) fun i h₁ h₂ => ?_
  simp

theorem coeff_indexed {values : List S} {i : Nat} (hi : i < values.length) :
    coeff (indexed values) i = values.getD i 0 := by
  have hnd : ((indexed values).map (·.1)).Nodup := by
    rw [indexed_fst]
    exact List.nodup_range
  have hmem : (i, values[i]) ∈ indexed values := by
    refine List.mem_map.mpr ⟨(values[i], i), ?_, rfl⟩
    exact List.mem_zipIdx_iff_getElem?.mpr (List.getElem?_eq_getElem hi)
  rw [coeff_of_nodup hnd hmem, List.getD_eq_getElem?_getD, List.getElem?_eq_getElem hi]
  rfl

theorem commitVector_eq (values : List S) (b : S) :
    pp.commitVector C values b =
      combo (PedersenParams.vectorGenerator C) (indexed values) + b • pp.h := by
  unfold PedersenParams.commitVector combo indexed
  rw [List.map_map]
  rfl

omit [Field S] [AddCommGroup P] [Module S P] in
theorem mem_hidden {i : Nat} :
    i ∈ pres.hidden ↔ i < Attributes.count ∧ i ∉ pres.disclosed.map (·.1) := by
  unfold hidden hiddenIndices
  rw [List.mem_filter, List.mem_range, decide_eq_true_iff]

/-! ## 3. Completeness -/

/-- The attribute of a credential at a position. -/
def entryOf (cred : Credential S P) (i : Nat) : Nat × S :=
  (i, (cred.attributes.toScalars : List S).getD i 0)

/-- What a credential holds at the positions `idx`, and its blinding behind them. -/
def held (cred : Credential S P) (idx : List Nat) (j : Nat) : S :=
  (idx.map (fun i => (cred.attributes.toScalars : List S).getD i 0) ++ [cred.blinding]).getD j 0

omit [AddCommGroup P] [Module S P] in
theorem attach_held (cred : Credential S P) (idx : List Nat) :
    attach idx (held cred idx) = idx.map (entryOf cred) := by
  refine List.ext_getElem (by simp [attach]) fun j h₁ h₂ => ?_
  have hj : j < idx.length := by simpa using h₂
  simp [attach, held, entryOf, List.getElem?_append_left, hj]

/-- The commitment of a credential without the attributes at `shown` is what it holds at the
    other positions. -/
theorem commitment_sub_shown {cred : Credential S P}
    (hcom : cred.commitment = pp.commitVector C cred.attributes.toScalars cred.blinding)
    {shown : List Nat} (hnd : shown.Nodup) (hlt : ∀ i ∈ shown, i < Attributes.count) :
    cred.commitment - combo (PedersenParams.vectorGenerator C) (shown.map (entryOf cred)) =
      blend (PedersenParams.vectorGenerator C) pp.h (hiddenIndices shown)
        (held cred (hiddenIndices shown)) := by
  have hmem : ∀ i, i ∈ shown ++ hiddenIndices shown ↔ i < Attributes.count := by
    intro i
    unfold hiddenIndices
    rw [List.mem_append, List.mem_filter, List.mem_range, decide_eq_true_iff]
    refine ⟨fun h => h.elim (hlt i) (·.1), fun h => ?_⟩
    by_cases hi : i ∈ shown
    · exact .inl hi
    · exact .inr ⟨h, hi⟩
  have hnodup : (shown ++ hiddenIndices shown).Nodup := by
    refine List.nodup_append'.mpr ⟨hnd, List.nodup_range.filter _, fun i hi hi' => ?_⟩
    exact (decide_eq_true_iff.mp (List.mem_filter.mp hi').2) hi
  have hfst : ((shown ++ hiddenIndices shown).map (entryOf cred)).map (·.1) =
      shown ++ hiddenIndices shown := by
    rw [List.map_map]
    exact List.map_id _
  -- both lists name every position once, with the attribute there
  have hcombo : combo (PedersenParams.vectorGenerator C)
        (indexed (cred.attributes.toScalars : List S)) =
      combo (PedersenParams.vectorGenerator C)
        ((shown ++ hiddenIndices shown).map (entryOf cred)) := by
    refine combo_ext _ (n := Attributes.count) (fun d hd => mem_indexed hd) ?_ fun i hi => ?_
    · intro d hd
      obtain ⟨i, hi, rfl⟩ := List.mem_map.mp hd
      exact (hmem i).mp hi
    · have hin : entryOf cred i ∈ (shown ++ hiddenIndices shown).map (entryOf cred) :=
        List.mem_map_of_mem ((hmem i).mpr hi)
      rw [coeff_indexed hi]
      exact (coeff_of_nodup (hfst.symm ▸ hnodup) hin).symm
  have hlast : held cred (hiddenIndices shown) (hiddenIndices shown).length = cred.blinding := by
    simp [held]
  unfold blend
  rw [attach_held, hlast, hcom, commitVector_eq, hcombo, List.map_append, combo_append]
  abel

/-- The positions `create_presentation` discloses. -/
def validDisclose (indices : List Nat) : List Nat := indices.filter (· < Attributes.count)

theorem validDisclose_lt {indices : List Nat} : ∀ i ∈ validDisclose indices,
    i < Attributes.count := fun _ hi => of_decide_eq_true (List.mem_filter.mp hi).2

section Create

variable {cred : Credential S P} {indices : List Nat} {randoms : Nat → S}

theorem create_positions :
    (createPresentation C cred indices pp randoms).disclosed.map (·.1) =
      validDisclose indices := by
  show ((validDisclose indices).map (entryOf cred)).map (·.1) = validDisclose indices
  rw [List.map_map]
  exact List.map_id _

theorem create_hidden :
    (createPresentation C cred indices pp randoms).hidden =
      hiddenIndices (validDisclose indices) := by
  unfold hidden
  rw [create_positions]

/-- There is a response for every hidden position and one behind them. -/
theorem create_responses :
    (createPresentation C cred indices pp randoms).proofResponse.length =
      (hiddenIndices (validDisclose indices)).length + 1 := by
  simp [createPresentation, validDisclose]

theorem create_responseAt : ∀ j ≤ (hiddenIndices (validDisclose indices)).length,
    (createPresentation C cred indices pp randoms).responseAt j =
      randoms j + (createPresentation C cred indices pp randoms).proofChallenge *
        held cred (hiddenIndices (validDisclose indices)) j := by
  intro j hj
  rcases Nat.lt_or_eq_of_le hj with hlt | rfl
  · have hlt' : j < (hiddenIndices (indices.filter (· < Attributes.count))).length := hlt
    simp [responseAt, createPresentation, held, validDisclose, hlt', List.getElem?_append_left]
  · simp [responseAt, createPresentation, held, validDisclose]

/-- The nonce the verifier recomputes is the one the prover drew, moved by what its list misses
    of the hidden part of the commitment. -/
theorem recomputedT_create_of {X : P}
    (hsub : hiddenCommitment C (createPresentation C cred indices pp randoms) =
      blend (PedersenParams.vectorGenerator C) pp.h (hiddenIndices (validDisclose indices))
        (held cred (hiddenIndices (validDisclose indices))) - X) :
    recomputedT C pp (createPresentation C cred indices pp randoms) =
      (createPresentation C cred indices pp randoms).proofCommitment +
        (createPresentation C cred indices pp randoms).proofChallenge • X := by
  have hnonce : (createPresentation C cred indices pp randoms).proofCommitment =
      blend (PedersenParams.vectorGenerator C) pp.h (hiddenIndices (validDisclose indices))
        randoms := by
    unfold blend
    rw [combo_attach]
    rfl
  unfold recomputedT
  rw [create_hidden, blend_congr _ _ create_responseAt, hsub, hnonce,
    ← blend_response _ _ _ randoms (held cred (hiddenIndices (validDisclose indices)))
      (createPresentation C cred indices pp randoms).proofChallenge, smul_sub]
  abel

/-- The verifier on an honest presentation of a signed credential: the challenge for the
    recomputed nonce is the prover's. -/
theorem verifyPresentation_create_iff
    (hsig : Issuer.signatureValid C cred.commitment cred.issuerPk cred.signatureS
      cred.signatureE = true) :
    (createPresentation C cred indices pp randoms).verifyPresentation C pp = some true ↔
      hashPresentationChallenge C cred.commitment
        (recomputedT C pp (createPresentation C cred indices pp randoms))
        ((validDisclose indices).map (entryOf cred)) cred.issuerPk =
      hashPresentationChallenge C cred.commitment
        (createPresentation C cred indices pp randoms).proofCommitment
        ((validDisclose indices).map (entryOf cred)) cred.issuerPk := by
  rw [verifyPresentation_iff]
  refine ⟨fun h => h.2.2.2, fun h => ⟨hsig, fun d hd => ?_, ?_, h⟩⟩
  · obtain ⟨i, hi, rfl⟩ := List.mem_map.mp hd
    exact validDisclose_lt i hi
  · rw [create_hidden, create_responses]
    exact Nat.lt_succ_self _

end Create

/-- **An honest presentation is accepted**: of a signed credential whose commitment is to its
    attributes, disclosing distinct positions. -/
theorem verifyPresentation_create {cred : Credential S P}
    (hsig : Issuer.signatureValid C cred.commitment cred.issuerPk cred.signatureS
      cred.signatureE = true)
    (hcom : cred.commitment = pp.commitVector C cred.attributes.toScalars cred.blinding)
    {indices : List Nat} (hnd : indices.Nodup) (randoms : Nat → S) :
    (createPresentation C cred indices pp randoms).verifyPresentation C pp = some true := by
  have hsub : hiddenCommitment C (createPresentation C cred indices pp randoms) =
      blend (PedersenParams.vectorGenerator C) pp.h (hiddenIndices (validDisclose indices))
        (held cred (hiddenIndices (validDisclose indices))) - 0 := by
    rw [sub_zero]
    exact commitment_sub_shown hcom (hnd.filter _) validDisclose_lt
  rw [verifyPresentation_create_iff hsig, recomputedT_create_of hsub, smul_zero, add_zero]

/-! ## 4. Extraction -/

/-- A second answer of the prover to the nonce of an accepted presentation. -/
structure Extraction (C : Suite S P) (pp : PedersenParams P) (pres : Presentation S P) where
  challenge : S
  response : Nat → S
  challenge_ne : pres.proofChallenge ≠ challenge
  accepts : recomputedT C pp pres =
    blend (PedersenParams.vectorGenerator C) pp.h pres.hidden response -
      challenge • hiddenCommitment C pres

namespace Extraction

variable (x : Extraction C pp pres)

/-- What the two answers give for the `j`th hidden position, and behind the last for `h`. -/
def hiddenValue (j : Nat) : S :=
  (pres.proofChallenge - x.challenge)⁻¹ * (pres.responseAt j - x.response j)

/-- What the prover has committed to at each position: the disclosed values added up, and the
    extracted ones. -/
def values : List S :=
  (List.range Attributes.count).map
    (coeff (pres.disclosed ++ attach pres.hidden x.hiddenValue))

def blinding : S := x.hiddenValue pres.hidden.length

theorem hiddenCommitment_eq :
    hiddenCommitment C pres =
      blend (PedersenParams.vectorGenerator C) pp.h pres.hidden x.hiddenValue :=
  blend_extract x.accepts x.challenge_ne

/-- **The two answers open the commitment.** -/
theorem opening (hidx : ∀ d ∈ pres.disclosed, d.1 < Attributes.count) :
    pres.commitment = pp.commitVector C x.values x.blinding := by
  have hsub := x.hiddenCommitment_eq
  unfold hiddenCommitment blend at hsub
  have hlen : x.values.length = Attributes.count := by simp [values]
  have hall : ∀ d ∈ pres.disclosed ++ attach pres.hidden x.hiddenValue,
      d.1 < Attributes.count := by
    intro d hd
    rcases List.mem_append.mp hd with h | h
    · exact hidx d h
    · exact (mem_hidden.mp (mem_attach h)).1
  have hcombo : combo (PedersenParams.vectorGenerator C) (indexed x.values) =
      combo (PedersenParams.vectorGenerator C)
        (pres.disclosed ++ attach pres.hidden x.hiddenValue) := by
    refine combo_ext _ (fun d hd => hlen ▸ mem_indexed hd) hall fun i hi => ?_
    rw [coeff_indexed (hlen ▸ hi)]
    simp [values, hi]
  rw [commitVector_eq, hcombo, combo_append, add_assoc]
  exact (sub_eq_iff_eq_add'.mp hsub)

/-- At a disclosed position the opening holds the sum of the disclosed values. -/
theorem values_disclosed (hidx : ∀ d ∈ pres.disclosed, d.1 < Attributes.count) {d : Nat × S}
    (hd : d ∈ pres.disclosed) : x.values.getD d.1 0 = coeff pres.disclosed d.1 := by
  have hlt := hidx d hd
  have hzero : coeff (attach pres.hidden x.hiddenValue) d.1 = 0 := by
    refine coeff_eq_zero fun e he heq => ?_
    exact (mem_hidden.mp (heq ▸ mem_attach he)).2 (List.mem_map_of_mem hd)
  have hget : x.values.getD d.1 0 =
      coeff (pres.disclosed ++ attach pres.hidden x.hiddenValue) d.1 := by
    simp [values, hlt]
  rw [hget, coeff_append, hzero, add_zero]

/-- Who knows an opening of the hidden part can answer again. -/
def ofOpening (w : Nat → S)
    (hw : hiddenCommitment C pres =
      blend (PedersenParams.vectorGenerator C) pp.h pres.hidden w) : Extraction C pp pres where
  challenge := pres.proofChallenge - 1
  response j := pres.responseAt j - w j
  challenge_ne := fun h => one_ne_zero (sub_eq_self.mp h.symm)
  accepts := by
    unfold recomputedT
    rw [blend_sub, hw, sub_smul, one_smul]
    abel

theorem hiddenValue_ofOpening (w : Nat → S)
    (hw : hiddenCommitment C pres =
      blend (PedersenParams.vectorGenerator C) pp.h pres.hidden w) :
    (ofOpening w hw).hiddenValue = w := by
  funext j
  show (pres.proofChallenge - (pres.proofChallenge - 1))⁻¹ *
    (pres.responseAt j - (pres.responseAt j - w j)) = w j
  rw [sub_sub_cancel, sub_sub_cancel, inv_one, one_mul]

end Extraction

/-- Below `2 ^ 64` the scalars tell a number from zero. -/
theorem natCast_eq_zero (C : Suite S P) {k : Nat} (hk : k < 2 ^ 64) (h0 : (k : S) = 0) :
    k = 0 := by
  have hofNat : (UInt64.ofNat k).toNat = k := by
    rw [UInt64.toNat_ofNat']
    exact Nat.mod_eq_of_lt hk
  have heq : ((UInt64.ofNat k).toNat : S) = ((0 : UInt64).toNat : S) := by
    rw [hofNat, h0]
    simp
  rw [← hofNat, C.u64_inj _ _ heq]
  rfl

/-- **When an accepted presentation discloses the truth.** Let the credential be issued over
    the attributes `a`, let `pres` be accepted for its commitment and its prover answer a second
    challenge, and let the commitment bind the opening so found to the issuer's. Then every
    disclosed value is the attribute at its position exactly where the positions listed more
    than once carry only zeros. -/
theorem disclosed_correct_iff {issuer : Issuer S P} {a : Attributes} {rnd : IssuerRandom S}
    (hcom : pres.commitment = (issuer.issue C a rnd).commitment)
    (hacc : pres.verifyPresentation C issuer.pedersen = some true)
    (x : Extraction C issuer.pedersen pres)
    (hbind : issuer.pedersen.commitVector C x.values x.blinding =
      issuer.pedersen.commitVector C a.toScalars rnd.blinding → x.values = a.toScalars)
    (hlen : pres.disclosed.length < 2 ^ 64) :
    (∀ d ∈ pres.disclosed, d.2 = (a.toScalars : List S).getD d.1 0) ↔
      ∀ d ∈ pres.disclosed, 1 < occurrences pres.disclosed d.1 → d.2 = 0 := by
  obtain ⟨_, hidx, _, _⟩ := verifyPresentation_iff.mp hacc
  have hvalues : x.values = a.toScalars := hbind ((x.opening hidx).symm.trans hcom)
  have hsum : ∀ d ∈ pres.disclosed,
      (a.toScalars : List S).getD d.1 0 = coeff pres.disclosed d.1 := by
    intro d hd
    rw [← hvalues]
    exact x.values_disclosed hidx hd
  have hchar : ∀ k : Nat, k < pres.disclosed.length → (k : S) = 0 → k = 0 :=
    fun k hk h0 => natCast_eq_zero C (Nat.lt_trans hk hlen) h0
  rw [← all_eq_coeff_iff hchar]
  refine forall₂_congr fun d hd => ?_
  rw [hsum d hd]

/-! ## 5. A presentation that lists a position twice -/

def sampleIssuer : Issuer SampleScalar SamplePoint where
  secret := 5
  pub := (5 : SampleScalar) • sampleSuite.G
  pedersen := PedersenParams.new sampleSuite

/-- A holder without the first attribute. -/
def sampleHolder : Attributes := ⟨false, true, "EU", true, 0⟩

def sampleHeld : Credential SampleScalar SamplePoint :=
  sampleIssuer.issue sampleSuite sampleHolder ⟨21, 22⟩

/-- What the holder knows of the positions not in `disclosed`, and the blinding behind them. -/
def sampleHidden (disclosed : List (Nat × SampleScalar)) (j : Nat) : SampleScalar :=
  ((hiddenIndices (disclosed.map (·.1))).map
    (fun i => (sampleHolder.toScalars : List SampleScalar).getD i 0) ++
    [sampleHeld.blinding]).getD j 0

/-- The holder's presentation with `disclosed` for its list, the nonce drawn from `randoms`. -/
def samplePresent (disclosed : List (Nat × SampleScalar)) (randoms : Nat → SampleScalar) :
    Presentation SampleScalar SamplePoint :=
  let hidden := hiddenIndices (disclosed.map (·.1))
  let nonce := blend (PedersenParams.vectorGenerator sampleSuite) sampleIssuer.pedersen.h hidden
    randoms
  let challenge := hashPresentationChallenge sampleSuite sampleHeld.commitment nonce disclosed
    sampleHeld.issuerPk
  { commitment := sampleHeld.commitment
    issuerPk := sampleHeld.issuerPk
    credSignatureS := sampleHeld.signatureS
    credSignatureE := sampleHeld.signatureE
    disclosed := disclosed
    proofCommitment := nonce
    proofResponse := (List.range (hidden.length + 1)).map fun j =>
      randoms j + challenge * sampleHidden disclosed j
    proofChallenge := challenge }

/-- The first position twice, with values that cancel. -/
def sampleTwice : List (Nat × SampleScalar) := [(0, 1), (0, -1)]

/-- An accepted presentation that discloses the first attribute as 1, of a credential issued
    with 0 there; its prover can answer again, and the opening so found is the issuer's. -/
theorem accepted_disclosing_falsehood :
    ∃ (pres : Presentation SampleScalar SamplePoint)
      (x : Extraction sampleSuite sampleIssuer.pedersen pres),
      pres.commitment = sampleHeld.commitment ∧
      pres.verifyPresentation sampleSuite sampleIssuer.pedersen = some true ∧
      x.values = sampleHolder.toScalars ∧ pres.disclosed.length < 2 ^ 64 ∧
      ∃ d ∈ pres.disclosed, d.2 ≠ (sampleHolder.toScalars : List SampleScalar).getD d.1 0 := by
  have hw : hiddenCommitment sampleSuite (samplePresent sampleTwice (fun j => j + 3)) =
      blend (PedersenParams.vectorGenerator sampleSuite) sampleIssuer.pedersen.h
        (samplePresent sampleTwice fun j => j + 3).hidden (sampleHidden sampleTwice) := by
    decide +kernel
  refine ⟨_, Extraction.ofOpening _ hw, rfl, by decide +kernel, ?_, by decide,
    (0, 1), by decide +kernel, by decide +kernel⟩
  unfold Extraction.values
  rw [Extraction.hiddenValue_ofOpening]
  decide +kernel

/-- The first two positions, once each. -/
def sampleOnce : List (Nat × SampleScalar) := [(0, 0), (1, 1)]

/-- An accepted presentation that lists no position twice discloses what was issued. -/
theorem disclosed_correct_once :
    (samplePresent sampleOnce fun j => j + 3).verifyPresentation sampleSuite
        sampleIssuer.pedersen = some true ∧
      ∀ d ∈ (samplePresent sampleOnce fun j => j + 3).disclosed,
        d.2 = (sampleHolder.toScalars : List SampleScalar).getD d.1 0 := by
  have hacc : (samplePresent sampleOnce fun j => j + 3).verifyPresentation sampleSuite
      sampleIssuer.pedersen = some true := by
    decide +kernel
  have hw : hiddenCommitment sampleSuite (samplePresent sampleOnce (fun j => j + 3)) =
      blend (PedersenParams.vectorGenerator sampleSuite) sampleIssuer.pedersen.h
        (samplePresent sampleOnce fun j => j + 3).hidden (sampleHidden sampleOnce) := by
    decide +kernel
  have hcom : (samplePresent sampleOnce fun j => j + 3).commitment =
      (sampleIssuer.issue sampleSuite sampleHolder ⟨21, 22⟩).commitment := rfl
  refine ⟨hacc, (disclosed_correct_iff hcom hacc (Extraction.ofOpening _ hw) ?_
    (by decide)).mpr (by decide +kernel)⟩
  intro _
  unfold Extraction.values
  rw [Extraction.hiddenValue_ofOpening]
  decide +kernel

end Presentation

end Specter
