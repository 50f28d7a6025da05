/-
  File:      Specter/Primitives/RangeProof.lean
  Subject:   RANGE PROOFS BIT BY BIT (specter-primitives/src/range_proof.rs).

  A value is committed to once more, bit by bit, with blindings that add up to the one of the
  commitment; each bit comes with a proof that its commitment opens to 0 or to 1. What the prover
  draws at random is the argument `RangeRandom`.

  * `proveBitOr`, `verifyBitOr` -- the proof of one bit: one branch answered, the other simulated;
  * `weightedLoop` -- the loop that doubles a weight, of the prover over scalars and of the verifier
    over points; `weightedLoop_eq` -- it adds up the entries times the powers of 2;
  * `verifyRange64_iff` -- what the verifier checks;
  * `range_complete` -- the proof of every value is accepted, whatever is drawn;
  * `extractBit` -- the opening of a bit that two answers to it determine;
  * `range_sound` -- it opens the bit's commitment, and openings of 64 bits with the right sum
    open the commitment to the number they spell, below `2 ^ 64`.
-/
import Mathlib.Data.Nat.Digits.Defs
import Specter.Lib.Sharing
import Specter.Primitives.Pedersen

namespace Specter

open Lib Lib.Sharing

variable {S P : Type} [Field S] [AddCommGroup P] [Module S P]

structure BitOrProof (S P : Type) where
  a0 : P
  a1 : P
  c0 : S
  c1 : S
  r0 : S
  r1 : S

structure RangeProof (S P : Type) where
  bitCommits : List P
  bitProofs : List (BitOrProof S P)

/-- What the prover of one bit draws: the nonce of the branch it answers, challenge and response of
    the one it simulates. -/
structure BitRandom (S : Type) where
  w : S
  cSim : S
  rSim : S

/-- What `prove_range_64` draws: 63 blindings, and what each bit needs. -/
structure RangeRandom (S : Type) where
  blinding : Nat → S
  bit : Nat → BitRandom S

namespace RangeProof

/-! ## 1. One bit -/

def orChallenge (C : Suite S P) (commitment a0 a1 : P) : S :=
  C.hashToScalar (ascii "specter-range-bit-or:" ++ (C.compress commitment).toList ++
    (C.compress a0).toList ++ (C.compress a1).toList)

def proveBitOr (C : Suite S P) (params : PedersenParams P) (commitment : P) (bit : UInt64) (s : S)
    (rnd : BitRandom S) : BitOrProof S P :=
  let aRealPoint := rnd.w • params.h
  if bit = 0 then
    let statement1 := commitment - params.g
    let a1 := rnd.rSim • params.h - rnd.cSim • statement1
    let a0 := aRealPoint
    let c := orChallenge C commitment a0 a1
    let c0 := c - rnd.cSim
    { a0 := a0, a1 := a1, c0 := c0, c1 := rnd.cSim, r0 := rnd.w + c0 * s, r1 := rnd.rSim }
  else
    let statement0 := commitment
    let a0 := rnd.rSim • params.h - rnd.cSim • statement0
    let a1 := aRealPoint
    let c := orChallenge C commitment a0 a1
    let c1 := c - rnd.cSim
    { a0 := a0, a1 := a1, c0 := rnd.cSim, c1 := c1, r0 := rnd.rSim, r1 := rnd.w + c1 * s }

def verifyBitOr [DecidableEq S] [DecidableEq P] (C : Suite S P) (params : PedersenParams P)
    (commitment : P) (proof : BitOrProof S P) : Bool :=
  let c := orChallenge C commitment proof.a0 proof.a1
  if proof.c0 + proof.c1 ≠ c then false
  else if proof.r0 • params.h ≠ proof.a0 + proof.c0 • commitment then false
  else decide (proof.r1 • params.h = proof.a1 + proof.c1 • (commitment - params.g))

/-! ## 2. The range -/

def rangeBits : Nat := 64

/-- The loop `sum += two_pow_i * m; two_pow_i += two_pow_i`: the sum and the last weight. -/
def weightedLoop {M : Type} [AddCommGroup M] [Module S M] : M → S → List M → M × S
  | sum, twoPow, [] => (sum, twoPow)
  | sum, twoPow, m :: ms => weightedLoop (sum + twoPow • m) (twoPow + twoPow) ms

/-- The blindings of the bits: the last one is solved for. -/
def bitBlindings (r : S) (drawn : Nat → S) : List S :=
  let first := (List.range (rangeBits - 1)).map drawn
  let (accumulated, twoPow63) := weightedLoop (S := S) (0 : S) 1 first
  first ++ [(r - accumulated) * twoPow63⁻¹]

/-- `(v >> i) & 1`. -/
def bitAt (v : UInt64) (i : Nat) : UInt64 := (v >>> UInt64.ofNat i) &&& 1

def proveRange64 (C : Suite S P) (params : PedersenParams P) (v : UInt64) (r : S)
    (rnd : RangeRandom S) : RangeProof S P :=
  let blindings := bitBlindings r rnd.blinding
  let commitAt := fun i => params.commit (Suite.scalarFromU64 (bitAt v i)) (blindings.getD i 0)
  { bitCommits := (List.range rangeBits).map commitAt
    bitProofs := (List.range rangeBits).map fun i =>
      proveBitOr C params (commitAt i) (bitAt v i) (blindings.getD i 0) (rnd.bit i) }

def verifyRange64 [DecidableEq S] [DecidableEq P] (C : Suite S P) (params : PedersenParams P)
    (commitment : P) (proof : RangeProof S P) : Bool :=
  if proof.bitCommits.length ≠ rangeBits ∨ proof.bitProofs.length ≠ rangeBits then false
  else if (proof.bitCommits.zip proof.bitProofs).all
      (fun p => verifyBitOr C params p.1 p.2) = false then false
  else decide ((weightedLoop (0 : P) (1 : S) proof.bitCommits).1 = commitment)

/-! ## 3. What the checks say -/

variable {C : Suite S P} {params : PedersenParams P}

/-- The two branch equations of `verify_bit_or`. -/
def Branches (params : PedersenParams P) (commitment : P) (proof : BitOrProof S P) : Prop :=
  Sigma.Accepts params.h commitment proof.a0 proof.c0 proof.r0 ∧
    Sigma.Accepts params.h (commitment - params.g) proof.a1 proof.c1 proof.r1

theorem verifyBitOr_iff [DecidableEq S] [DecidableEq P] {B : P} {proof : BitOrProof S P} :
    verifyBitOr C params B proof = true ↔
      proof.c0 + proof.c1 = orChallenge C B proof.a0 proof.a1 ∧ Branches params B proof := by
  unfold verifyBitOr Branches Sigma.Accepts
  dsimp only
  by_cases hc : proof.c0 + proof.c1 = orChallenge C B proof.a0 proof.a1
  · by_cases h0 : proof.r0 • params.h = proof.a0 + proof.c0 • B
    · rw [if_neg (not_not.mpr hc), if_neg (not_not.mpr h0), decide_eq_true_iff]
      exact ⟨fun h1 => ⟨hc, h0, h1⟩, fun h => h.2.2⟩
    · rw [if_neg (not_not.mpr hc), if_pos h0]
      exact ⟨fun h => (nomatch h), fun h => absurd h.2.1 h0⟩
  · rw [if_pos hc]
    exact ⟨fun h => (nomatch h), fun h => absurd h.1 hc⟩

/-- **The loop adds up the entries times the powers of 2.** -/
theorem weightedLoop_eq {M : Type} [AddCommGroup M] [Module S M] (ms : List M) :
    ∀ (sum : M) (twoPow : S), weightedLoop sum twoPow ms =
      (sum + twoPow • powerSum (2 : S) ms, twoPow * 2 ^ ms.length) := by
  induction ms with
  | nil =>
      intro sum twoPow
      simp [weightedLoop, powerSum, powerLoop]
  | cons m ms ih =>
      intro sum twoPow
      rw [weightedLoop, ih, powerSum_cons, smul_add, smul_smul, List.length_cons, pow_succ',
        ← mul_two, add_assoc, mul_assoc]

theorem weightedLoop_fst {M : Type} [AddCommGroup M] [Module S M] (ms : List M) :
    (weightedLoop (0 : M) (1 : S) ms).1 = powerSum (2 : S) ms := by
  rw [weightedLoop_eq, zero_add, one_smul]

theorem verifyRange64_iff [DecidableEq S] [DecidableEq P] {commitment : P}
    {proof : RangeProof S P} : verifyRange64 C params commitment proof = true ↔
      (proof.bitCommits.length = rangeBits ∧ proof.bitProofs.length = rangeBits) ∧
      (∀ p ∈ proof.bitCommits.zip proof.bitProofs, verifyBitOr C params p.1 p.2 = true) ∧
      powerSum (2 : S) proof.bitCommits = commitment := by
  have hsum : (weightedLoop (0 : P) (1 : S) proof.bitCommits).1 =
      powerSum (2 : S) proof.bitCommits := by
    rw [weightedLoop_eq, zero_add, one_smul]
  unfold verifyRange64
  rw [hsum]
  by_cases hlen : proof.bitCommits.length = rangeBits ∧ proof.bitProofs.length = rangeBits
  · rw [if_neg (by tauto)]
    by_cases hall : (proof.bitCommits.zip proof.bitProofs).all
        (fun p => verifyBitOr C params p.1 p.2) = true
    · rw [if_neg (by simp [hall]), decide_eq_true_iff]
      exact ⟨fun h => ⟨hlen, List.all_eq_true.mp hall, h⟩, fun h => h.2.2⟩
    · rw [if_pos (by simpa using hall)]
      exact ⟨fun h => (nomatch h), fun h => absurd (List.all_eq_true.mpr h.2.1) hall⟩
  · rw [if_pos (by tauto)]
    exact ⟨fun h => (nomatch h), fun h => absurd h.1 hlen⟩

/-! ## 4. Completeness -/

/-- **The proof of a bit is accepted**, whichever branch is the real one. -/
theorem verifyBitOr_prove [DecidableEq S] [DecidableEq P] {bit : UInt64} (hbit : bit = 0 ∨ bit = 1)
    (s : S) (rnd : BitRandom S) :
    verifyBitOr C params (params.commit (Suite.scalarFromU64 bit) s)
      (proveBitOr C params (params.commit (Suite.scalarFromU64 bit) s) bit s rnd) = true := by
  have hzero : params.commit (Suite.scalarFromU64 0 : S) s = s • params.h := by
    simp [PedersenParams.commit, Suite.scalarFromU64]
  have hone : params.commit (Suite.scalarFromU64 1 : S) s - params.g = s • params.h := by
    simp [PedersenParams.commit, Suite.scalarFromU64]
  rw [verifyBitOr_iff]
  rcases hbit with rfl | rfl
  · unfold proveBitOr
    rw [if_pos rfl]
    refine ⟨sub_add_cancel _ _, ?_, Sigma.Accepts.of_simulation _ _ _ _⟩
    dsimp only
    rw [hzero]
    exact Sigma.Accepts.of_witness params.h s rnd.w _
  · unfold proveBitOr
    rw [if_neg (by decide)]
    refine ⟨add_sub_cancel _ _, Sigma.Accepts.of_simulation _ _ _ _, ?_⟩
    dsimp only
    rw [hone]
    exact Sigma.Accepts.of_witness params.h s rnd.w _

theorem bitAt_toNat (v : UInt64) {i : Nat} (hi : i < 64) :
    (bitAt v i).toNat = v.toNat / 2 ^ i % 2 := by
  unfold bitAt
  rw [UInt64.toNat_and, UInt64.toNat_shiftRight,
    UInt64.toNat_ofNat_of_lt' (Nat.lt_trans hi (by decide)), Nat.mod_eq_of_lt hi,
    Nat.shiftRight_eq_div_pow]
  exact Nat.and_one_is_mod _

theorem bitAt_eq (v : UInt64) {i : Nat} (hi : i < 64) : bitAt v i = 0 ∨ bitAt v i = 1 := by
  have h := bitAt_toNat v hi
  rcases Nat.mod_two_eq_zero_or_one (v.toNat / 2 ^ i) with h0 | h1
  · exact .inl (UInt64.toNat_inj.mp (h.trans h0))
  · exact .inr (UInt64.toNat_inj.mp (h.trans h1))

/-- The `n` low bits of a number, weighted, are the number modulo `2 ^ n`. -/
theorem sum_bits (m : Nat) : ∀ n, ∑ i ∈ Finset.range n, 2 ^ i * (m / 2 ^ i % 2) = m % 2 ^ n
  | 0 => by rw [Finset.sum_range_zero, Nat.pow_zero, Nat.mod_one]
  | n + 1 => by rw [Finset.sum_range_succ, sum_bits m n, Nat.mod_pow_succ]

theorem sum_bitAt_mod (v : UInt64) {n : Nat} (hn : n ≤ 64) : ∑ i ∈ Finset.range n,
    (2 : S) ^ i * Suite.scalarFromU64 (bitAt v i) = ((v.toNat % 2 ^ n : Nat) : S) := by
  unfold Suite.scalarFromU64
  rw [← sum_bits, Nat.cast_sum]
  refine Finset.sum_congr rfl fun i hi => ?_
  rw [bitAt_toNat v (Nat.lt_of_lt_of_le (Finset.mem_range.mp hi) hn), Nat.cast_mul, Nat.cast_pow,
    Nat.cast_ofNat]

theorem sum_bitAt (v : UInt64) : ∑ i ∈ Finset.range rangeBits,
    (2 : S) ^ i * Suite.scalarFromU64 (bitAt v i) = Suite.scalarFromU64 v := by
  unfold rangeBits
  rw [sum_bitAt_mod v le_rfl, Nat.mod_eq_of_lt v.toNat_lt]
  rfl

/-- `2 ^ 63` is not 0 among the scalars. -/
theorem two_pow_ne_zero (C : Suite S P) : (2 : S) ^ 63 ≠ 0 := by
  intro h
  have hnat : (9223372036854775808 : UInt64).toNat = 2 ^ 63 := by decide
  have h64 : ((9223372036854775808 : UInt64).toNat : S) = ((0 : UInt64).toNat : S) := by
    rw [hnat, Nat.cast_pow, Nat.cast_ofNat, h]
    exact Nat.cast_zero.symm
  exact absurd (C.u64_inj _ _ h64) (by decide)

/-- **The blindings of the bits add up to the one of the commitment**, whatever is drawn. -/
theorem powerSum_bitBlindings (C : Suite S P) (r : S) (drawn : Nat → S) :
    powerSum (2 : S) (bitBlindings r drawn) = r := by
  have happend : ∀ (ms : List S) (m : S),
      powerSum (2 : S) (ms ++ [m]) = powerSum (2 : S) ms + 2 ^ ms.length * m := by
    intro ms m
    induction ms with
    | nil => simp [powerSum, powerLoop]
    | cons a ms ih =>
        rw [List.cons_append, powerSum_cons, ih, powerSum_cons, List.length_cons, pow_succ',
          smul_eq_mul, smul_eq_mul]
        ring
  have hlen : ((List.range (rangeBits - 1)).map drawn).length = 63 := by simp [rangeBits]
  unfold bitBlindings
  dsimp only
  rw [weightedLoop_eq, happend, hlen, one_mul, zero_add, one_smul, mul_comm (_ - _) _,
    mul_inv_cancel_left₀ (two_pow_ne_zero C), add_sub_cancel]

theorem length_bitBlindings (r : S) (drawn : Nat → S) :
    (bitBlindings r drawn).length = rangeBits := by
  unfold bitBlindings
  simp [rangeBits]

/-- **The range proof is complete**: for every value, every blinding and whatever the prover
    draws, the proof is accepted for the commitment to the value. -/
theorem range_complete [DecidableEq S] [DecidableEq P] (C : Suite S P) (params : PedersenParams P)
    (v : UInt64) (r : S) (rnd : RangeRandom S) :
    verifyRange64 C params (params.commit (Suite.scalarFromU64 v) r)
      (proveRange64 C params v r rnd) = true := by
  have hblind : ∑ i ∈ Finset.range rangeBits,
      (2 : S) ^ i * (bitBlindings r rnd.blinding).getD i 0 = r := by
    have h := powerSum_bitBlindings C r rnd.blinding
    rw [← powerSum_getD _ _ (length_bitBlindings r rnd.blinding).le, powerSum_range] at h
    exact h
  rw [verifyRange64_iff]
  refine ⟨⟨by simp [proveRange64], by simp [proveRange64]⟩, fun p hp => ?_, ?_⟩
  · unfold proveRange64 at hp
    dsimp only at hp
    rw [List.zip_map'] at hp
    obtain ⟨i, hi, rfl⟩ := List.mem_map.mp hp
    exact verifyBitOr_prove (bitAt_eq v (List.mem_range.mp hi)) _ _
  · unfold proveRange64
    dsimp only
    rw [powerSum_range]
    unfold PedersenParams.commit
    simp only [smul_add, smul_smul, Finset.sum_add_distrib]
    rw [← Finset.sum_smul, ← Finset.sum_smul, sum_bitAt, hblind]

/-! ## 5. Soundness -/

/-- A bit and the blinding it is committed to with. -/
structure BitOpening (S : Type) where
  bit : Bool
  blinding : S

/-- The opening of the commitment `B`. -/
def BitOpening.Opens (params : PedersenParams P) (o : BitOpening S) (B : P) : Prop :=
  B = params.commit ((o.bit.toNat : Nat) : S) o.blinding

/-- What two answers to one bit determine: the branch whose challenges differ is the real one, and
    the responses to them give the blinding. -/
def extractBit [DecidableEq S] (proof proof' : BitOrProof S P) : BitOpening S :=
  if proof.c0 = proof'.c0 then
    { bit := true, blinding := (proof.c1 - proof'.c1)⁻¹ * (proof.r1 - proof'.r1) }
  else
    { bit := false, blinding := (proof.c0 - proof'.c0)⁻¹ * (proof.r0 - proof'.r0) }

/-- **Two answers to one bit open it**, however the prover splits the challenges. -/
theorem opens_extractBit [DecidableEq S] {B : P} {proof proof' : BitOrProof S P}
    (h0 : proof.a0 = proof'.a0) (h1 : proof.a1 = proof'.a1) (h : Branches params B proof)
    (h' : Branches params B proof') (hc : proof.c0 + proof.c1 ≠ proof'.c0 + proof'.c1) :
    (extractBit proof proof').Opens params B := by
  unfold Branches at h'
  rw [← h0, ← h1] at h'
  unfold BitOpening.Opens extractBit PedersenParams.commit
  rcases Sigma.Accepts.extract_or h h' hc with ⟨hne, hs⟩ | ⟨heq, hs⟩
  · rw [if_neg hne]
    dsimp only
    rw [Bool.toNat_false, Nat.cast_zero, zero_smul, zero_add]
    exact hs
  · rw [if_pos heq]
    dsimp only
    rw [Bool.toNat_true, Nat.cast_one, one_smul, ← hs, add_sub_cancel]

/-- The number the bits spell, the least first. -/
def bitsValue (os : List (BitOpening S)) : Nat := Nat.ofDigits 2 (os.map (·.bit.toNat))

omit [Field S] in
theorem bitsValue_lt (os : List (BitOpening S)) : bitsValue os < 2 ^ os.length := by
  have h := Nat.ofDigits_lt_base_pow_length (b := 2) (l := os.map (·.bit.toNat)) (by decide) ?_
  · rwa [List.length_map] at h
  · intro d hd
    obtain ⟨o, _, rfl⟩ := List.mem_map.mp hd
    exact o.bit.toNat_lt

/-- The blinding of the weighted sum: the same loop over the blindings. -/
def bitsBlinding (os : List (BitOpening S)) : S :=
  (weightedLoop (0 : S) (1 : S) (os.map (·.blinding))).1

/-- **Openings of bits open their weighted sum**, to the number the bits spell. -/
theorem powerSum_opens {os : List (BitOpening S)} {Bs : List P}
    (h : List.Forall₂ (BitOpening.Opens params) os Bs) :
    powerSum (2 : S) Bs = params.commit ((bitsValue os : Nat) : S) (bitsBlinding os) := by
  induction h with
  | nil => simp [powerSum, powerLoop, weightedLoop, PedersenParams.commit, bitsValue, bitsBlinding]
  | @cons o B os Bs hB _ ih =>
      have hvalue : bitsValue (o :: os) = o.bit.toNat + 2 * bitsValue os :=
        Nat.ofDigits_cons
      have hblinding : bitsBlinding (o :: os) = o.blinding + 2 * bitsBlinding os := by
        unfold bitsBlinding
        rw [weightedLoop_fst, weightedLoop_fst]
        exact powerSum_cons _ _ _
      rw [powerSum_cons, ih, show B = _ from hB, hvalue, hblinding]
      unfold PedersenParams.commit
      push_cast
      module

/-- **The range proof is sound.** Two answers to the proof of a bit that share `a0` and `a1` and
    differ in the joint challenge determine an opening of its commitment to 0 or to 1; an
    accepted proof of a bit is an answer. Where 64 commitments are opened to bits and their
    weighted sum is the commitment, as `verify_range_64` checks, the number these bits spell is
    below `2 ^ 64`, and it and the weighted sum of their blindings open the commitment. -/
theorem range_sound [DecidableEq S] [DecidableEq P] (C : Suite S P) (params : PedersenParams P) :
    (∀ (B : P) (proof proof' : BitOrProof S P), proof.a0 = proof'.a0 → proof.a1 = proof'.a1 →
      Branches params B proof → Branches params B proof' →
      proof.c0 + proof.c1 ≠ proof'.c0 + proof'.c1 → (extractBit proof proof').Opens params B) ∧
    (∀ (B : P) (proof : BitOrProof S P), verifyBitOr C params B proof = true →
      Branches params B proof) ∧
    (∀ (commitment : P) (proof : RangeProof S P),
      verifyRange64 C params commitment proof = true → proof.bitCommits.length = rangeBits ∧
        (weightedLoop (0 : P) (1 : S) proof.bitCommits).1 = commitment) ∧
    ∀ (openings : List (BitOpening S)) (commits : List P) (commitment : P),
      commits.length = rangeBits → List.Forall₂ (BitOpening.Opens params) openings commits →
      (weightedLoop (0 : P) (1 : S) commits).1 = commitment →
      bitsValue openings < 2 ^ 64 ∧
        commitment = params.commit ((bitsValue openings : Nat) : S) (bitsBlinding openings) := by
  refine ⟨fun B proof proof' h0 h1 h h' hc => opens_extractBit h0 h1 h h' hc,
    fun B proof h => (verifyBitOr_iff.mp h).2, fun commitment proof h => ?_,
    fun openings commits commitment hlen hbits hsum => ?_⟩
  · obtain ⟨⟨hlen, _⟩, _, hsum⟩ := verifyRange64_iff.mp h
    exact ⟨hlen, (weightedLoop_fst _).trans hsum⟩
  · have hlt := bitsValue_lt openings
    rw [hbits.length_eq, hlen] at hlt
    refine ⟨hlt, ?_⟩
    rw [← hsum, weightedLoop_fst]
    exact powerSum_opens hbits

/-- The bit 1 answered twice, with the first branch simulated; and 64 commitments to 1. -/
theorem range_sound_all_ones :
    (⟨true, 5⟩ : BitOpening SampleScalar).Opens (⟨(1, 0), (0, 1)⟩ : PedersenParams SamplePoint)
        (1, 5) ∧
    (weightedLoop (0 : SamplePoint) (1 : SampleScalar) (List.replicate 64 (1, 3))).1 =
      PedersenParams.commit ⟨(1, 0), (0, 1)⟩ (((2 ^ 64 - 1 : Nat)) : SampleScalar)
        (bitsBlinding (List.replicate 64 ⟨true, 3⟩)) := by
  obtain ⟨hbit, _, _, hrange⟩ := range_sound sampleSuite ⟨(1, 0), (0, 1)⟩
  have hextract : extractBit (P := SamplePoint) ⟨(-2, -7), (0, 4), 2, 1, 3, 9⟩
      ⟨(-2, -7), (0, 4), 2, 6, 3, 34⟩ = (⟨true, 5⟩ : BitOpening SampleScalar) := by
    unfold extractBit
    rw [if_pos rfl]
    exact congrArg (BitOpening.mk true) (by decide +kernel)
  have hones : List.Forall₂ (BitOpening.Opens (⟨(1, 0), (0, 1)⟩ : PedersenParams SamplePoint))
      (List.replicate 64 (⟨true, 3⟩ : BitOpening SampleScalar)) (List.replicate 64 (1, 3)) := by
    refine List.forall₂_iff_get.mpr ⟨by simp, fun i hi hi' => ?_⟩
    simp only [List.get_eq_getElem, List.getElem_replicate]
    unfold BitOpening.Opens
    decide +kernel
  have hvalue : bitsValue (List.replicate 64 (⟨true, 3⟩ : BitOpening SampleScalar)) = 2 ^ 64 - 1 :=
    by decide +kernel
  rw [← hextract, ← hvalue]
  exact ⟨hbit (1, 5) _ _ rfl rfl (by unfold Branches; decide +kernel)
      (by unfold Branches; decide +kernel) (by decide +kernel),
    (hrange _ _ _ (by decide) hones rfl).2⟩

end RangeProof

end Specter
