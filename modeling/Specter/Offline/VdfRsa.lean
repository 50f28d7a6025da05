/-
  File:      Specter/Offline/VdfRsa.lean
  Subject:   THE RSA TIME LOCK (specter-offline/src/vdf_rsa.rs).

  `evaluate` squares `T` times modulo `N` and proves the result with one power of the input;
  `verify` checks that proof against a challenge derived from the input, the output and `T`.
  Numbers are natural numbers, as the code's are of any size, and so is the counter of the
  primality test, which is a word in Specter/Offline/PrimeSearch.lean.

  * `isProbablyPrime_of_prime` -- the primality test accepts every prime, so that the search
    for the next one ends; `nextPrime` is odd and at least 3 (`nextPrime_odd`, `two_lt_nextPrime`);
  * `verify_iff` -- what an accepted proof is; `evaluate_verified` -- an evaluation is accepted;
  * `sound_iff` -- which proofs `verify` judges right: it looks at the input as a number and not
    modulo `N`, and a proof with the sign changed shows the output with the sign changed.
-/
import Mathlib.Data.Nat.Digits.Defs
import Mathlib.Data.Nat.Prime.Infinite
import Mathlib.FieldTheory.Finite.Basic
import Specter.Primitives.Suite

namespace Specter

open Lib

variable {S P : Type} [Field S] [AddCommGroup P] [Module S P]

structure RsaVdfParams where
  modulus : Nat
  bits : UInt32

structure RsaVdfProof where
  input : Nat
  output : Nat
  iterations : UInt64
  proofPi : Nat
  challengeL : Nat
  deriving DecidableEq

inductive VdfRsaError where
  | iterationsExceeded (requested max : UInt64)
  | zeroIterations
  | degenerateInput
  deriving DecidableEq

def VdfRsaError.display : VdfRsaError → String
  | .iterationsExceeded requested max =>
      "iterations (" ++ toString requested ++ ") exceeds maximum (" ++ toString max ++ ")"
  | .zeroIterations => "zero iterations provide no time-lock guarantee"
  | .degenerateInput => "degenerate input (0 or 1) has trivially known output"

namespace VdfRsa

/-! ## 1. The primality test -/

/-- `BigUint::modpow`. -/
def modpow (base exp modulus : Nat) : Nat := base ^ exp % modulus

/-- The loop `while d.is_even() { d >>= 1; r += 1 }` on a positive number: `r` and `d`. -/
def splitTwos (d : Nat) : Nat × Nat :=
  if d % 2 = 0 ∧ d ≠ 0 then
    let rest := splitTwos (d / 2)
    (rest.1 + 1, rest.2)
  else (0, d)
termination_by d
decreasing_by omega

/-- Whether one of the next squarings gives `n - 1`. -/
def squaresReach (n : Nat) : Nat → Nat → Bool
  | 0, _ => false
  | k + 1, x =>
      let x := modpow x 2 n
      if x = n - 1 then true else squaresReach n k x

/-- One round of the loop over the witnesses. -/
def witnessPasses (n r d w : Nat) : Bool :=
  if w ≥ n then true
  else
    let x := modpow w d n
    if x = 1 ∨ x = n - 1 then true else squaresReach n (r - 1) x

def witnesses : List Nat :=
  [2, 3, 5, 7, 11, 13, 17, 19, 23, 29, 31, 37, 41, 43, 47, 53, 59, 61, 67, 71, 73, 79, 83, 89]

def isProbablyPrimeMillerRabin (n rounds : Nat) : Bool :=
  if n < 2 then false
  else if n = 2 ∨ n = 3 then true
  else if n % 2 = 0 then false
  else
    let (r, d) := splitTwos (n - 1)
    (witnesses.take rounds).all (witnessPasses n r d)

theorem splitTwos_eq (d : Nat) : d = 2 ^ (splitTwos d).1 * (splitTwos d).2 := by
  induction d using splitTwos.induct with
  | case1 d h ih =>
      rw [splitTwos, if_pos h]
      show d = 2 ^ ((splitTwos (d / 2)).1 + 1) * (splitTwos (d / 2)).2
      rw [Nat.pow_succ, Nat.mul_comm _ 2, Nat.mul_assoc, ← ih]
      omega
  | case2 d h =>
      rw [splitTwos, if_neg h]
      simp

theorem squaresReach_iff {n : Nat} : ∀ {k x : Nat}, squaresReach n k x = true ↔
    ∃ i < k, x ^ 2 ^ (i + 1) % n = n - 1 := by
  intro k
  induction k with
  | zero => simp [squaresReach]
  | succ k ih =>
      intro x
      have hsq : ∀ i, (x ^ 2 % n) ^ 2 ^ (i + 1) % n = x ^ 2 ^ (i + 1 + 1) % n := by
        intro i
        rw [← Nat.pow_mod, ← Nat.pow_mul, ← Nat.pow_succ']
      unfold squaresReach modpow
      by_cases hx : x ^ 2 % n = n - 1
      · simp only [hx, if_true, true_iff]
        exact ⟨0, Nat.succ_pos k, by simpa using hx⟩
      · simp only [hx, if_false, ih, hsq]
        constructor
        · rintro ⟨i, hi, h⟩
          exact ⟨i + 1, by omega, h⟩
        · rintro ⟨i, hi, h⟩
          cases i with
          | zero => exact absurd (by simpa using h) hx
          | succ i => exact ⟨i, by omega, h⟩

/-- Where a `2 ^ r`-th power is 1, the squarings that lead there pass through -1 or start at 1. -/
theorem pow_eq_one_or_neg_one {R : Type*} [CommRing R] [NoZeroDivisors R] {a : R} {d : Nat} :
    ∀ {r : Nat}, a ^ (2 ^ r * d) = 1 → a ^ d = 1 ∨ ∃ i < r, a ^ (2 ^ i * d) = -1
  | 0, h => by
      left
      simpa using h
  | r + 1, h => by
      have hsq : a ^ (2 ^ r * d) * a ^ (2 ^ r * d) = 1 := by
        rw [← pow_add, ← h]
        congr 1
        ring
      rcases mul_self_eq_one_iff.mp hsq with h1 | h1
      · rcases pow_eq_one_or_neg_one h1 with h0 | ⟨i, hi, hm⟩
        · exact .inl h0
        · exact .inr ⟨i, by omega, hm⟩
      · exact .inr ⟨r, by omega, h1⟩

/-- A reduced number is the remainder of another when the two are equal in the ring. -/
theorem mod_eq_iff {N a c : Nat} (hc : c < N) : a % N = c ↔ (a : ZMod N) = c := by
  rw [ZMod.natCast_eq_natCast_iff', Nat.mod_eq_of_lt hc]

/-- A power modulo `p` is `p - 1` when it is -1 in the field. -/
theorem pow_mod_eq_pred {p a e : Nat} (hp : 2 ≤ p) (h : (a : ZMod p) ^ e = -1) :
    a ^ e % p = p - 1 := by
  rw [mod_eq_iff (by omega), Nat.cast_pow, h, Nat.cast_sub (by omega), ZMod.natCast_self,
    Nat.cast_one, zero_sub]

/-- A prime passes the round of every witness. -/
theorem witnessPasses_of_prime {p w : Nat} (hp : p.Prime) (hw : 0 < w) :
    witnessPasses p (splitTwos (p - 1)).1 (splitTwos (p - 1)).2 w = true := by
  have h2 := hp.two_le
  unfold witnessPasses
  by_cases hlarge : w ≥ p
  · rw [if_pos hlarge]
  rw [if_neg hlarge]
  have : Fact p.Prime := ⟨hp⟩
  have hw0 : (w : ZMod p) ≠ 0 := by
    rw [Ne, ZMod.natCast_eq_zero_iff]
    exact Nat.not_dvd_of_pos_of_lt hw (by omega)
  have hfermat : (w : ZMod p) ^ (2 ^ (splitTwos (p - 1)).1 * (splitTwos (p - 1)).2) = 1 := by
    rw [← splitTwos_eq]
    exact ZMod.pow_card_sub_one_eq_one hw0
  by_cases hfirst : modpow w (splitTwos (p - 1)).2 p = 1 ∨
      modpow w (splitTwos (p - 1)).2 p = p - 1
  · exact if_pos hfirst
  -- the first power is neither 1 nor -1, so a later squaring is -1
  show (if _ then _ else _) = _
  rw [if_neg hfirst, squaresReach_iff]
  rcases pow_eq_one_or_neg_one hfermat with h1 | ⟨i, hi, hm⟩
  · refine absurd (.inl ?_) hfirst
    show w ^ _ % p = 1
    rw [mod_eq_iff (by omega), Nat.cast_pow, h1, Nat.cast_one]
  · have hx := pow_mod_eq_pred h2 hm
    cases i with
    | zero =>
        rw [Nat.pow_zero, Nat.one_mul] at hx
        exact absurd (.inr hx) hfirst
    | succ i =>
        refine ⟨i, by omega, ?_⟩
        unfold modpow
        rw [← Nat.pow_mod, ← Nat.pow_mul, Nat.mul_comm]
        exact hx

/-- **The test accepts every prime.** -/
theorem isProbablyPrime_of_prime {p : Nat} (hp : p.Prime) (rounds : Nat) :
    isProbablyPrimeMillerRabin p rounds = true := by
  have h2 := hp.two_le
  unfold isProbablyPrimeMillerRabin
  rw [if_neg (by omega)]
  by_cases hsmall : p = 2 ∨ p = 3
  · rw [if_pos hsmall]
  · have hodd : p % 2 ≠ 0 := by
      intro h0
      exact hsmall (.inl ((Nat.prime_dvd_prime_iff_eq Nat.prime_two hp).mp
        (Nat.dvd_of_mod_eq_zero h0)).symm)
    rw [if_neg hsmall, if_neg hodd]
    have hpos : ∀ w ∈ witnesses, 0 < w := by decide
    exact List.all_eq_true.mpr fun w hw =>
      witnessPasses_of_prime hp (hpos w (List.mem_of_mem_take hw))

/-! ## 2. The challenge -/

theorem exists_probablyPrime {candidate : Nat} (hodd : candidate % 2 = 1) :
    ∃ k, isProbablyPrimeMillerRabin (candidate + 2 * k) 20 = true := by
  obtain ⟨p, hle, hp⟩ := Nat.exists_infinite_primes (candidate + 3)
  have hpodd : p % 2 = 1 := by
    rcases hp.eq_two_or_odd with h | h
    · omega
    · exact h
  refine ⟨(p - candidate) / 2, ?_⟩
  have heq : candidate + 2 * ((p - candidate) / 2) = p := by omega
  rw [heq]
  exact isProbablyPrime_of_prime hp 20

/-- The first number the search tries. -/
def firstCandidate (n : Nat) : Nat := if n % 2 = 0 then n + 1 else n

theorem firstCandidate_odd (n : Nat) : firstCandidate n % 2 = 1 := by
  unfold firstCandidate
  split <;> omega

/-- The search goes up by 2 until the test accepts. -/
def nextPrime (n : Nat) : Nat :=
  firstCandidate n + 2 * Nat.find (exists_probablyPrime (firstCandidate_odd n))

theorem nextPrime_odd (n : Nat) : nextPrime n % 2 = 1 := by
  have h := firstCandidate_odd n
  unfold nextPrime
  omega

theorem two_lt_nextPrime (n : Nat) : 2 < nextPrime n := by
  have hpass : isProbablyPrimeMillerRabin (nextPrime n) 20 = true :=
    Nat.find_spec (exists_probablyPrime (firstCandidate_odd n))
  have hodd := nextPrime_odd n
  have hge : ¬nextPrime n < 2 := by
    intro hlt
    unfold isProbablyPrimeMillerRabin at hpass
    rw [if_pos hlt] at hpass
    cases hpass
  omega

/-- `BigUint::to_bytes_be`. -/
def toBytesBe (n : Nat) : Bytes :=
  if n = 0 then [0] else (Nat.digits 256 n).reverse.map UInt8.ofNat

/-- `BigUint::from_bytes_be`. -/
def fromBytesBe (bytes : Bytes) : Nat := ofLE bytes.reverse

def deriveChallenge (C : Suite S P) (input output : Nat) (iterations : UInt64) : Nat :=
  let hash := C.sha256 (ascii "specter-vdf-challenge:" ++ toBytesBe input ++ toBytesBe output ++
    le64 iterations)
  let bytes := (hash.toList.take 16).modify 15 (· ||| 1)
  nextPrime (fromBytesBe bytes)

/-! ## 3. Evaluation and verification -/

def maxRsaVdfIterations : UInt64 := 10000000

/-- The loop `y = (y * y) % n`. -/
def squareLoop (n : Nat) : Nat → Nat → Nat
  | 0, y => y
  | k + 1, y => squareLoop n k (y * y % n)

/-- The loop of the proof, with its two accumulators. -/
def wesolowskiLoop (n input l : Nat) : Nat → Nat → Nat → Nat
  | 0, pi, _ => pi
  | k + 1, pi, r =>
      let twoR := r * 2
      let b := twoR / l
      let pi := pi * pi % n
      let pi := if b = 1 then pi * input % n else pi
      wesolowskiLoop n input l k pi (twoR % l)

def computeWesolowskiProof (params : RsaVdfParams) (input : Nat) (iterations : UInt64) (l : Nat) :
    Nat :=
  wesolowskiLoop params.modulus input l iterations.toNat 1 1

def evaluate (C : Suite S P) (params : RsaVdfParams) (input : Nat) (iterations : UInt64) :
    Except VdfRsaError RsaVdfProof :=
  if iterations = 0 then .error .zeroIterations
  else if iterations > maxRsaVdfIterations then
    .error (.iterationsExceeded iterations maxRsaVdfIterations)
  else if input ≤ 1 then .error .degenerateInput
  else
    let y := squareLoop params.modulus iterations.toNat input
    let challengeL := deriveChallenge C input y iterations
    let pi := computeWesolowskiProof params input iterations challengeL
    .ok { input := input, output := y, iterations := iterations, proofPi := pi,
          challengeL := challengeL }

def verify (C : Suite S P) (params : RsaVdfParams) (proof : RsaVdfProof) : Bool :=
  let n := params.modulus
  if proof.iterations = 0 then false
  else if proof.iterations > maxRsaVdfIterations then false
  else if proof.input ≤ 1 then false
  else
    let l := deriveChallenge C proof.input proof.output proof.iterations
    if l ≠ proof.challengeL then false
    else
      let r := modpow 2 proof.iterations.toNat l
      let piL := modpow proof.proofPi l n
      let xR := modpow proof.input r n
      let lhs := piL * xR % n
      lhs == proof.output

/-! ## 4. What they compute -/

theorem squareLoop_eq {n : Nat} : ∀ {k y : Nat}, y % n = y → squareLoop n k y = y ^ 2 ^ k % n := by
  intro k
  induction k with
  | zero =>
      intro y hy
      simp [squareLoop, hy]
  | succ k ih =>
      intro y _
      rw [squareLoop, ih (Nat.mod_mod _ _), ← Nat.pow_mod, ← Nat.pow_two, ← Nat.pow_mul,
        ← Nat.pow_succ']

/-- `T` squarings, at least one of them, give the `2 ^ T`-th power. -/
theorem squareLoop_pow {n k : Nat} (hk : k ≠ 0) (x : Nat) :
    squareLoop n k x = x ^ 2 ^ k % n := by
  cases k with
  | zero => exact absurd rfl hk
  | succ k =>
      rw [squareLoop, squareLoop_eq (Nat.mod_mod _ _), ← Nat.pow_mod, ← Nat.pow_two,
        ← Nat.pow_mul, ← Nat.pow_succ']

/-- One step of the long division of `2 ^ i` by `l`. -/
theorem pow_two_div {l : Nat} (hl : 0 < l) (i : Nat) :
    2 ^ (i + 1) / l = 2 ^ i / l * 2 + 2 ^ i % l * 2 / l := by
  have hdiv := Nat.div_add_mod (2 ^ i) l
  have heq : 2 ^ (i + 1) = 2 ^ i % l * 2 + l * (2 ^ i / l * 2) := by
    rw [Nat.pow_succ, ← Nat.mul_assoc, ← hdiv]
    simp only [Nat.mul_add_mod, Nat.mod_mod, Nat.mul_add_div hl, Nat.mod_div_self, Nat.add_zero]
    ring
  rw [heq, Nat.add_mul_div_left _ _ hl, Nat.add_comm]

/-- The accumulators are `x ^ (2 ^ i / l)` and `2 ^ i mod l` after `i` rounds. -/
theorem wesolowskiLoop_eq {n x l : Nat} (hl : 0 < l) : ∀ {k i : Nat},
    wesolowskiLoop n x l k (x ^ (2 ^ i / l) % n) (2 ^ i % l) = x ^ (2 ^ (i + k) / l) % n := by
  intro k
  induction k with
  | zero =>
      intro i
      rfl
  | succ k ih =>
      intro i
      have hsq : x ^ (2 ^ i / l) % n * (x ^ (2 ^ i / l) % n) % n =
          x ^ (2 ^ i / l * 2) % n := by
        rw [← Nat.mul_mod, ← Nat.pow_two, ← Nat.pow_mul]
      have hbit : 2 ^ i % l * 2 / l < 2 := by
        rw [Nat.div_lt_iff_lt_mul hl, Nat.mul_comm]
        exact Nat.mul_lt_mul_of_pos_left (Nat.mod_lt _ hl) (by omega)
      have hpi : (if 2 ^ i % l * 2 / l = 1
          then x ^ (2 ^ i / l) % n * (x ^ (2 ^ i / l) % n) % n * x % n
          else x ^ (2 ^ i / l) % n * (x ^ (2 ^ i / l) % n) % n) = x ^ (2 ^ (i + 1) / l) % n := by
        rw [hsq, pow_two_div hl]
        by_cases hb : 2 ^ i % l * 2 / l = 1
        · rw [if_pos hb, hb, Nat.pow_succ, Nat.mod_mul_mod]
        · have hb0 : 2 ^ i % l * 2 / l = 0 :=
            Nat.lt_one_iff.mp (Nat.lt_of_le_of_ne (Nat.le_of_lt_succ hbit) hb)
          rw [if_neg hb, hb0, Nat.add_zero]
      have hr : 2 ^ i % l * 2 % l = 2 ^ (i + 1) % l := by
        rw [Nat.mod_mul_mod, ← Nat.pow_succ]
      have hstep := ih (i := i + 1)
      rw [← hpi, ← hr, Nat.add_assoc, Nat.add_comm 1 k] at hstep
      exact hstep

/-- From the first round on the accumulator counts modulo `n` only. -/
theorem wesolowskiLoop_mod {n x l k pi r : Nat} :
    wesolowskiLoop n x l (k + 1) (pi % n) r = wesolowskiLoop n x l (k + 1) pi r := by
  rw [wesolowskiLoop, wesolowskiLoop, ← Nat.mul_mod]

theorem computeWesolowskiProof_eq {params : RsaVdfParams} {x l : Nat} {T : UInt64}
    (hT : T.toNat ≠ 0) (hl : 1 < l) :
    computeWesolowskiProof params x T l = x ^ (2 ^ T.toNat / l) % params.modulus := by
  obtain ⟨k, hk⟩ := Nat.exists_eq_succ_of_ne_zero hT
  have h := wesolowskiLoop_eq (n := params.modulus) (x := x) (l := l) (by omega) (k := k + 1)
    (i := 0)
  -- before the first round the accumulator is 1, which is not reduced where the modulus is 1
  rw [Nat.pow_zero, Nat.div_eq_of_lt hl, Nat.pow_zero, Nat.mod_eq_of_lt hl, Nat.zero_add,
    wesolowskiLoop_mod] at h
  unfold computeWesolowskiProof
  rw [hk]
  exact h

/-- What `verify` checks: the limits, the challenge, and the equation modulo `N`. -/
structure Passes (C : Suite S P) (N : Nat) (proof : RsaVdfProof) : Prop where
  least : 1 ≤ proof.iterations.toNat
  most : proof.iterations.toNat ≤ 10000000
  input : 2 ≤ proof.input
  challenge : proof.challengeL = deriveChallenge C proof.input proof.output proof.iterations
  reduced : proof.output < N
  equation : (proof.output : ZMod N) = (proof.proofPi : ZMod N) ^ proof.challengeL *
    (proof.input : ZMod N) ^ (2 ^ proof.iterations.toNat % proof.challengeL)

theorem iterations_eq_zero_iff {T : UInt64} : T = 0 ↔ T.toNat = 0 := UInt64.toNat_inj.symm

theorem iterations_gt_max_iff {T : UInt64} : T > maxRsaVdfIterations ↔ 10000000 < T.toNat :=
  UInt64.lt_iff_toNat_lt

/-- The equation of the check, in the ring. -/
theorem modpow_mul_eq_iff {N : Nat} (hN : 0 < N) {a b e f y : Nat} :
    modpow a e N * modpow b f N % N = y ↔
      y < N ∧ (y : ZMod N) = (a : ZMod N) ^ e * (b : ZMod N) ^ f := by
  unfold modpow
  rw [← Nat.mul_mod, ← Nat.cast_pow, ← Nat.cast_pow, ← Nat.cast_mul]
  constructor
  · intro h
    have hlt : y < N := h ▸ Nat.mod_lt _ hN
    exact ⟨hlt, ((mod_eq_iff hlt).mp h).symm⟩
  · rintro ⟨hlt, h⟩
    exact (mod_eq_iff hlt).mpr h.symm

theorem verify_iff {C : Suite S P} {params : RsaVdfParams} (hN : 0 < params.modulus)
    {proof : RsaVdfProof} : verify C params proof = true ↔ Passes C params.modulus proof := by
  unfold verify
  dsimp only
  constructor
  · intro h
    split at h
    · cases h
    · rename_i h0
      split at h
      · cases h
      · rename_i hle
        split at h
        · cases h
        · rename_i hx
          split at h
          · cases h
          · rename_i hl
            have hl' := not_not.mp hl
            rw [iterations_eq_zero_iff] at h0
            rw [iterations_gt_max_iff] at hle
            rw [beq_iff_eq, modpow_mul_eq_iff hN, hl'] at h
            exact ⟨by omega, by omega, by omega, hl'.symm, h.1, h.2⟩
  · rintro ⟨hleast, hmost, hx, hl, hlt, heq⟩
    rw [if_neg (by rw [iterations_eq_zero_iff]; omega),
      if_neg (by rw [iterations_gt_max_iff]; omega), if_neg (by omega),
      if_neg (not_not.mpr hl.symm), beq_iff_eq, modpow_mul_eq_iff hN, ← hl]
    exact ⟨hlt, heq⟩

section Challenge

variable {C : Suite S P} {x y : Nat} {T : UInt64}

theorem deriveChallenge_odd : Odd (deriveChallenge C x y T) :=
  Nat.odd_iff.mpr (nextPrime_odd _)

theorem two_lt_deriveChallenge : 2 < deriveChallenge C x y T := two_lt_nextPrime _

end Challenge

/-- A power that answers the challenge `l` shows the `2 ^ T`-th power. -/
theorem answer_pow {R : Type*} [CommRing R] (x : R) (T l : Nat) :
    (x ^ (2 ^ T / l)) ^ l * x ^ (2 ^ T % l) = x ^ 2 ^ T := by
  rw [← pow_mul, ← pow_add, Nat.mul_comm, Nat.div_add_mod]

/-- The answer with the sign changed shows the power with the sign changed, as `l` is odd. -/
theorem answer_neg_pow {R : Type*} [CommRing R] (x : R) (T : Nat) {l : Nat} (hl : Odd l) :
    (-(x ^ (2 ^ T / l))) ^ l * x ^ (2 ^ T % l) = -(x ^ 2 ^ T) := by
  rw [hl.neg_pow, neg_mul, answer_pow]

/-- What an evaluation returns: the `2 ^ T`-th power, and the power that answers its challenge. -/
def evaluated (C : Suite S P) (N x : Nat) (T : UInt64) : RsaVdfProof :=
  let y := x ^ 2 ^ T.toNat % N
  let l := deriveChallenge C x y T
  { input := x, output := y, iterations := T, proofPi := x ^ (2 ^ T.toNat / l) % N,
    challengeL := l }

theorem evaluate_eq {C : Suite S P} {params : RsaVdfParams} {x : Nat} {T : UInt64}
    (hleast : 1 ≤ T.toNat) (hmost : T.toNat ≤ 10000000) (hx : 2 ≤ x) :
    evaluate C params x T = .ok (evaluated C params.modulus x T) := by
  have hT : T.toNat ≠ 0 := Nat.ne_of_gt hleast
  have hout := squareLoop_pow (n := params.modulus) hT x
  have hl : 1 < deriveChallenge C x (x ^ 2 ^ T.toNat % params.modulus) T :=
    Nat.lt_of_succ_lt two_lt_deriveChallenge
  unfold evaluate
  rw [if_neg (mt iterations_eq_zero_iff.mp hT),
    if_neg (by rw [iterations_gt_max_iff]; omega), if_neg (by omega)]
  dsimp only
  rw [hout, computeWesolowskiProof_eq hT hl]
  rfl

theorem passes_evaluated {C : Suite S P} {N x : Nat} {T : UInt64} (hN : 0 < N)
    (hleast : 1 ≤ T.toNat) (hmost : T.toNat ≤ 10000000) (hx : 2 ≤ x) :
    Passes C N (evaluated C N x T) := by
  refine ⟨hleast, hmost, hx, rfl, Nat.mod_lt _ hN, ?_⟩
  unfold evaluated
  dsimp only
  rw [ZMod.natCast_mod, ZMod.natCast_mod, Nat.cast_pow, Nat.cast_pow, answer_pow]

/-- `RsaVdfParams::small_test`. -/
def smallTest : RsaVdfParams where
  modulus := 104729 * 104723
  bits := 34

/-- **The time lock is complete.** For every modulus other than 0, every input from 2 on and every
    number of rounds within the limits, `evaluate` returns the `2 ^ T`-th power of the input and
    the power of the input by the quotient of `2 ^ T` and the challenge, and `verify` accepts
    them. -/
theorem evaluate_verified (C : Suite S P) (params : RsaVdfParams) (hN : 0 < params.modulus)
    (x : Nat) (T : UInt64) (hx : 2 ≤ x) (hleast : 1 ≤ T.toNat) (hmost : T.toNat ≤ 10000000) :
    ∃ proof, evaluate C params x T = .ok proof ∧ proof.input = x ∧ proof.iterations = T ∧
      proof.output = x ^ 2 ^ T.toNat % params.modulus ∧
      proof.challengeL = deriveChallenge C x proof.output T ∧
      proof.proofPi = x ^ (2 ^ T.toNat / proof.challengeL) % params.modulus ∧
      verify C params proof = true :=
  ⟨evaluated C params.modulus x T, evaluate_eq hleast hmost hx, rfl, rfl, rfl, rfl, rfl,
    (verify_iff hN).mpr (passes_evaluated hN hleast hmost hx)⟩

/-- Five rounds on the input 3, and on the input 2 with the modulus 1. -/
theorem evaluate_verified_small_test :
    (∃ proof, evaluate sampleSuite smallTest 3 5 = .ok proof ∧ proof.output = 3 ^ 32 % 10967535067 ∧
      verify sampleSuite smallTest proof = true) ∧
    ∃ proof, evaluate sampleSuite ⟨1, 1⟩ 2 5 = .ok proof ∧ proof.output = 0 ∧
      verify sampleSuite ⟨1, 1⟩ proof = true := by
  obtain ⟨p, hp, _, _, hout, _, _, hv⟩ := evaluate_verified sampleSuite smallTest (by decide) 3 5
    (by decide) (by decide) (by decide)
  obtain ⟨q, hq, _, _, hout', _, _, hv'⟩ := evaluate_verified sampleSuite ⟨1, 1⟩ (by decide) 2 5
    (by decide) (by decide) (by decide)
  exact ⟨⟨p, hp, hout, hv⟩, q, hq, hout'.trans (by decide), hv'⟩

/-! ## 5. Which proofs are judged right -/

/-- Not an input whose output everyone knows. -/
def Nondegenerate (N x : Nat) : Prop := (x : ZMod N) ≠ 0 ∧ (x : ZMod N) ≠ 1 ∧ (x : ZMod N) ≠ -1

/-- The power of the input that answers the challenge of the proof. -/
def answer (C : Suite S P) (N : Nat) (proof : RsaVdfProof) : ZMod N :=
  (proof.input : ZMod N) ^ (2 ^ proof.iterations.toNat /
    deriveChallenge C proof.input proof.output proof.iterations)

/-- The verifier is right about a proof: if it accepts one that carries the answer, up to the
    sign, then the output is the `2 ^ T`-th power; and the input is not degenerate. -/
def Sound (C : Suite S P) (params : RsaVdfParams) (proof : RsaVdfProof) : Prop :=
  verify C params proof = true →
    ((proof.proofPi : ZMod params.modulus) = answer C params.modulus proof ∨
        (proof.proofPi : ZMod params.modulus) = -answer C params.modulus proof →
      proof.output = proof.input ^ 2 ^ proof.iterations.toNat % params.modulus) ∧
    Nondegenerate params.modulus proof.input

section Sound

variable {C : Suite S P} {params : RsaVdfParams} {proof : RsaVdfProof}

/-- What an accepted proof with the answer, or with minus the answer, shows. -/
theorem Passes.output_of_answer (h : Passes C params.modulus proof)
    (hpi : (proof.proofPi : ZMod params.modulus) = answer C params.modulus proof) :
    (proof.output : ZMod params.modulus) =
      (proof.input : ZMod params.modulus) ^ 2 ^ proof.iterations.toNat := by
  rw [h.equation, hpi, answer, ← h.challenge, answer_pow]

theorem Passes.output_of_neg_answer (h : Passes C params.modulus proof)
    (hpi : (proof.proofPi : ZMod params.modulus) = -answer C params.modulus proof) :
    (proof.output : ZMod params.modulus) =
      -(proof.input : ZMod params.modulus) ^ 2 ^ proof.iterations.toNat := by
  have hodd : Odd proof.challengeL := h.challenge ▸ deriveChallenge_odd
  rw [h.equation, hpi, answer, ← h.challenge, answer_neg_pow _ _ hodd]

theorem output_eq_iff {N a b : Nat} (ha : a < N) : a = b % N ↔ (a : ZMod N) = (b : ZMod N) := by
  rw [eq_comm, mod_eq_iff ha, eq_comm]

/-- In a ring of odd characteristic only 0 is its own negative. -/
theorem neg_eq_self_iff_of_odd {N : Nat} (hodd : Odd N) (a : ZMod N) : -a = a ↔ a = 0 := by
  refine ⟨fun h => ?_, fun h => by rw [h, neg_zero]⟩
  have h2 : (2 : ZMod N) * a = 0 := by
    rw [two_mul]
    nth_rewrite 1 [← h]
    exact neg_add_cancel a
  have hunit : IsUnit (2 : ZMod N) := by
    have := (ZMod.isUnit_iff_coprime 2 N).mpr (Nat.coprime_two_left.mpr hodd)
    exact_mod_cast this
  exact (hunit.mul_right_eq_zero).mp h2

/-- The proof with the output and the answer of the other sign. -/
def negated (C : Suite S P) (params : RsaVdfParams) (x : Nat) (T : UInt64) : RsaVdfProof :=
  let N := params.modulus
  let y := (N - x ^ 2 ^ T.toNat % N) % N
  let l := deriveChallenge C x y T
  { input := x, output := y, iterations := T, proofPi := N - x ^ (2 ^ T.toNat / l) % N,
    challengeL := l }

theorem cast_sub_mod {N : Nat} (hN : 0 < N) (a : Nat) :
    ((N - a % N : Nat) : ZMod N) = -(a : ZMod N) := by
  rw [Nat.cast_sub (Nat.mod_lt a hN).le, ZMod.natCast_self, zero_sub, ZMod.natCast_mod]

/-- It is accepted wherever the input and `T` are within the limits. -/
theorem passes_negated (hN : 0 < params.modulus) {x : Nat} {T : UInt64} (hleast : 1 ≤ T.toNat)
    (hmost : T.toNat ≤ 10000000) (hx : 2 ≤ x) :
    Passes C params.modulus (negated C params x T) := by
  refine ⟨hleast, hmost, hx, rfl, Nat.mod_lt _ hN, ?_⟩
  unfold negated
  dsimp only
  rw [ZMod.natCast_mod, cast_sub_mod hN, cast_sub_mod hN, Nat.cast_pow, Nat.cast_pow,
    answer_neg_pow _ _ deriveChallenge_odd]

/-- The verifier is right about a proof it accepts exactly when the input is not degenerate and
    the answer does not come with the other sign, or the power is 0. -/
theorem sound_iff_passes (hodd : Odd params.modulus) (hN : 0 < params.modulus) :
    Sound C params proof ↔ (Passes C params.modulus proof →
      Nondegenerate params.modulus proof.input ∧
      ¬((proof.proofPi : ZMod params.modulus) = -answer C params.modulus proof ∧
        (proof.input : ZMod params.modulus) ^ 2 ^ proof.iterations.toNat ≠ 0)) := by
  unfold Sound
  rw [verify_iff hN]
  refine forall_congr' fun h => ?_
  rw [output_eq_iff h.reduced, Nat.cast_pow]
  constructor
  · rintro ⟨hout, hnd⟩
    refine ⟨hnd, fun ⟨hpi, hne⟩ => hne ?_⟩
    rw [← neg_eq_self_iff_of_odd hodd, ← h.output_of_neg_answer hpi]
    exact hout (.inr hpi)
  · rintro ⟨hnd, hneg⟩
    refine ⟨fun hpi => ?_, hnd⟩
    rcases hpi with hpi | hpi
    · exact h.output_of_answer hpi
    · have hzero : (proof.input : ZMod params.modulus) ^ 2 ^ proof.iterations.toNat = 0 := by
        by_contra hne
        exact hneg ⟨hpi, hne⟩
      rw [h.output_of_neg_answer hpi, hzero, neg_zero]

end Sound

/-- **When `verify` is right**, for an odd modulus. Of the proofs that pass its checks these are
    the ones whose input is not 0, 1 or -1 modulo `N` and whose answer does not have the other
    sign, unless the power is 0. So it is right about every proof for an input and a number of
    rounds only where it accepts none at all, or where the power is 0 modulo `N`. -/
theorem sound_iff (C : Suite S P) (params : RsaVdfParams) (hodd : Odd params.modulus)
    (hN : 2 < params.modulus) :
    (∀ proof, Sound C params proof ↔ (Passes C params.modulus proof →
      Nondegenerate params.modulus proof.input ∧
      ¬((proof.proofPi : ZMod params.modulus) = -answer C params.modulus proof ∧
        (proof.input : ZMod params.modulus) ^ 2 ^ proof.iterations.toNat ≠ 0))) ∧
    ∀ (x : Nat) (T : UInt64), (∀ y pi l, Sound C params ⟨x, y, T, pi, l⟩) ↔
      (T = 0 ∨ T > maxRsaVdfIterations ∨ x ≤ 1 ∨
        (Nondegenerate params.modulus x ∧ (x : ZMod params.modulus) ^ 2 ^ T.toNat = 0)) := by
  have hpos : 0 < params.modulus := by omega
  refine ⟨fun proof => sound_iff_passes hodd hpos, fun x T => ⟨fun h => ?_, fun h y pi l => ?_⟩⟩
  · by_cases hT : T = 0 ∨ T > maxRsaVdfIterations ∨ x ≤ 1
    · tauto
    · rw [iterations_eq_zero_iff, iterations_gt_max_iff] at hT
      have hleast : 1 ≤ T.toNat := by omega
      have hmost : T.toNat ≤ 10000000 := by omega
      have hx : 2 ≤ x := by omega
      have hpass := passes_negated (C := C) hpos hleast hmost hx
      have hneg := (sound_iff_passes hodd hpos).mp (h _ _ _) hpass
      refine .inr (.inr (.inr ⟨hneg.1, not_not.mp fun hne => hneg.2 ⟨?_, hne⟩⟩))
      unfold answer
      dsimp only
      rw [cast_sub_mod hpos, Nat.cast_pow]
  · refine (sound_iff_passes hodd hpos).mpr fun hpass => ?_
    rcases h with h | h | h | ⟨hnd, hpow⟩
    · have hleast := hpass.least
      rw [iterations_eq_zero_iff] at h
      dsimp only at hleast
      omega
    · have hmost := hpass.most
      rw [iterations_gt_max_iff] at h
      dsimp only at hmost
      omega
    · have hinput := hpass.input
      dsimp only at hinput
      omega
    · exact ⟨hnd, fun hneg => hneg.2 hpow⟩

/-- One round asks for no power of the input, every challenge being above 2. -/
theorem answer_one_round {C : Suite S P} {N x y pi l : Nat} :
    answer C N ⟨x, y, 1, pi, l⟩ = 1 := by
  unfold answer
  have hdiv : 2 ^ (1 : UInt64).toNat / deriveChallenge C x y 1 = 0 :=
    Nat.div_eq_of_lt (two_lt_deriveChallenge (C := C))
  dsimp only
  rw [hdiv, pow_zero]

/-- One round on the input 42: the proof of its square is judged right, but not every proof. -/
theorem sound_iff_small_test :
    Sound sampleSuite smallTest ⟨42, 1764, 1, 1, deriveChallenge sampleSuite 42 1764 1⟩ ∧
    ¬∀ y pi l, Sound sampleSuite smallTest ⟨42, y, 1, pi, l⟩ := by
  have hiff := sound_iff sampleSuite smallTest (by decide +kernel) (by decide)
  constructor
  · refine (hiff.1 _).mpr fun _ => ⟨by unfold Nondegenerate; decide +kernel, fun h => ?_⟩
    rw [answer_one_round] at h
    exact absurd h.1 (by decide +kernel)
  · intro h
    rcases (hiff.2 42 1).mp h with h | h | h | ⟨_, h⟩
    · exact absurd h (by decide)
    · exact absurd h (by decide)
    · exact absurd h (by decide)
    · exact absurd h (by decide +kernel)

/-- One round on the input 2, with the output -4 and the answer -1. -/
def flippedProof : RsaVdfProof where
  input := 2
  output := smallTest.modulus - 4
  iterations := 1
  proofPi := smallTest.modulus - 1
  challengeL := deriveChallenge sampleSuite 2 (smallTest.modulus - 4) 1

/-- One round on the input `N + 1`. -/
def trivialProof : RsaVdfProof where
  input := smallTest.modulus + 1
  output := 1
  iterations := 1
  proofPi := 1
  challengeL := deriveChallenge sampleSuite (smallTest.modulus + 1) 1 1

/-- **A second output, and a trivial input.** With the modulus of `small_test` the output
    `N - 4` is accepted for the input 2 and one round, whose output is 4, with the answer `N - 1`;
    and the input `N + 1`, which is 1 modulo `N`, is accepted with the output 1. -/
theorem second_output_accepted : Odd smallTest.modulus ∧ 2 < smallTest.modulus ∧
    (verify sampleSuite smallTest flippedProof = true ∧
      (flippedProof.proofPi : ZMod smallTest.modulus) =
        -answer sampleSuite smallTest.modulus flippedProof ∧
      flippedProof.output ≠
        flippedProof.input ^ 2 ^ flippedProof.iterations.toNat % smallTest.modulus) ∧
    verify sampleSuite smallTest trivialProof = true ∧
      (trivialProof.input : ZMod smallTest.modulus) = 1 := by
  have hpos : 0 < smallTest.modulus := by decide
  have hflipped : flippedProof.challengeL =
      deriveChallenge sampleSuite flippedProof.input flippedProof.output
        flippedProof.iterations := by
    simp only [flippedProof]
  have htrivial : trivialProof.challengeL =
      deriveChallenge sampleSuite trivialProof.input trivialProof.output
        trivialProof.iterations := by
    simp only [trivialProof]
  refine ⟨by decide +kernel, by decide, ⟨(verify_iff hpos).mpr ⟨by decide, by decide, by decide,
    hflipped, by decide, ?_⟩, ?_, by decide +kernel⟩, (verify_iff hpos).mpr ⟨by decide, by decide,
    by decide, htrivial, by decide, ?_⟩, by decide +kernel⟩
  · -- `(-1) ^ l * 2 ^ 2 = -4`, the challenge `l` being odd and above 2
    have hodd : Odd flippedProof.challengeL := deriveChallenge_odd
    have hmod : 2 ^ flippedProof.iterations.toNat % flippedProof.challengeL = 2 :=
      Nat.mod_eq_of_lt two_lt_deriveChallenge
    have hpi : (flippedProof.proofPi : ZMod smallTest.modulus) = -1 := by decide +kernel
    rw [hmod, hpi, hodd.neg_one_pow]
    decide +kernel
  · have hone : answer sampleSuite smallTest.modulus flippedProof = 1 := answer_one_round
    rw [hone]
    decide +kernel
  · have hone : (trivialProof.input : ZMod smallTest.modulus) = 1 := by decide +kernel
    have hpi : (trivialProof.proofPi : ZMod smallTest.modulus) = 1 := Nat.cast_one
    rw [hone, hpi, one_pow, one_pow, one_mul]
    exact Nat.cast_one

end VdfRsa

end Specter
