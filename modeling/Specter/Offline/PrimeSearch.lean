/-
  File:      Specter/Offline/PrimeSearch.lean
  Subject:   THE SEARCH FOR A PRIME ON MACHINE WORDS (`next_prime` and
             `is_probably_prime_miller_rabin` of specter-offline/src/vdf_rsa.rs).

  The test counts the halvings of `n - 1` in a `u32` and loops `r - 1` times; the search goes on
  until the test accepts. A sum or difference of words that leaves the range is a panic.

  * `Words.test_eq`, `Words.test_overflows` -- the test on words is the one on natural numbers,
    but for the numbers `n` on which the counter overflows (`CounterOverflows`);
  * `Words.returns_or_panics`, `Words.returns_iff` -- the loop of `next_prime` ends, with the first
    candidate accepted where it meets no such number; `Words.returns_of_le` -- it meets none from
    a number of less than 2^32 bits on;
  * `Words.primeSearch_correct` -- what holds of the two functions;
  * `Words.primeSearch_overflows` -- the primes and the numbers the code panics on.
-/
import Mathlib.NumberTheory.Bertrand
import Mathlib.NumberTheory.PrimesCongruentOne
import Specter.Lib.Search
import Specter.Offline.VdfRsa

namespace Specter

open Lib

variable {S P : Type} [Field S] [AddCommGroup P] [Module S P]

namespace VdfRsa

/-! ## 1. The halvings -/

theorem splitTwos_odd {d : Nat} (hd : d ≠ 0) : (splitTwos d).2 % 2 = 1 := by
  induction d using splitTwos.induct with
  | case1 d h ih =>
      rw [splitTwos, if_pos h]
      exact ih (by omega)
  | case2 d h =>
      rw [splitTwos, if_neg h]
      show d % 2 = 1
      omega

/-- A number is divided by as many twos as it is halved. -/
theorem two_pow_dvd_iff {d k : Nat} (hd : d ≠ 0) : 2 ^ k ∣ d ↔ k ≤ (splitTwos d).1 := by
  have hodd : Nat.Coprime (2 ^ k) (splitTwos d).2 :=
    Nat.Coprime.pow_left k (Nat.coprime_two_left.mpr (Nat.odd_iff.mpr (splitTwos_odd hd)))
  constructor
  · intro h
    rw [splitTwos_eq d] at h
    exact (Nat.pow_dvd_pow_iff_le_right (by decide)).mp (hodd.dvd_of_dvd_mul_right h)
  · intro h
    rw [splitTwos_eq d]
    exact Nat.dvd_mul_right_of_dvd (Nat.pow_dvd_pow 2 h) _

/-! ## 2. The first accepted candidate -/

theorem le_firstCandidate (n : Nat) : n ≤ firstCandidate n := by
  unfold firstCandidate
  split <;> omega

theorem firstCandidate_le {n c : Nat} (hc : n ≤ c) (hodd : c % 2 = 1) : firstCandidate n ≤ c := by
  unfold firstCandidate
  split <;> omega

/-- An odd number from `n` on is a candidate. -/
theorem exists_candidate {n c : Nat} (hc : n ≤ c) (hodd : c % 2 = 1) :
    ∃ i, c = firstCandidate n + 2 * i := by
  have hle := firstCandidate_le hc hodd
  have hfirst := firstCandidate_odd n
  exact ⟨(c - firstCandidate n) / 2, by omega⟩

theorem le_nextPrime (n : Nat) : n ≤ nextPrime n :=
  Nat.le_trans (le_firstCandidate n) (Nat.le_add_right _ _)

theorem nextPrime_passes (n : Nat) : isProbablyPrimeMillerRabin (nextPrime n) 20 = true :=
  Nat.find_spec (exists_probablyPrime (firstCandidate_odd n))

/-- The candidates before the result are rejected. -/
theorem rejected_candidate {n i : Nat} (hlt : firstCandidate n + 2 * i < nextPrime n) :
    isProbablyPrimeMillerRabin (firstCandidate n + 2 * i) 20 = false := by
  unfold nextPrime at hlt
  have hmin := Nat.find_min (exists_probablyPrime (firstCandidate_odd n)) (m := i) (by omega)
  exact Bool.eq_false_iff.mpr hmin

theorem rejected_of_lt_nextPrime {n c : Nat} (hc : n ≤ c) (hodd : c % 2 = 1)
    (hlt : c < nextPrime n) : isProbablyPrimeMillerRabin c 20 = false := by
  obtain ⟨i, rfl⟩ := exists_candidate hc hodd
  exact rejected_candidate hlt

/-- No prime is passed over. -/
theorem nextPrime_le_of_prime {n p : Nat} (hp : p.Prime) (hodd : p % 2 = 1) (hn : n ≤ p) :
    nextPrime n ≤ p := by
  by_contra hlt
  have hrej := rejected_of_lt_nextPrime hn hodd (by omega)
  rw [isProbablyPrime_of_prime hp] at hrej
  cases hrej

theorem nextPrime_le_two_mul {n : Nat} (hn : 2 ≤ n) : nextPrime n ≤ 2 * n := by
  obtain ⟨p, hp, hlt, hle⟩ := Nat.exists_prime_lt_and_le_two_mul n (by omega)
  have hodd : p % 2 = 1 := by
    obtain h2 | hodd := hp.eq_two_or_odd
    · omega
    · exact hodd
  exact Nat.le_trans (nextPrime_le_of_prime hp hodd (by omega)) hle

/-! ## 3. The code on words -/

namespace Words

inductive Panic where
  | addOverflow
  | subOverflow
  deriving DecidableEq

/-- `r += 1`. -/
def incr (r : UInt32) : Except Panic UInt32 :=
  if r.toNat + 1 < UInt32.size then .ok (r + 1) else .error .addOverflow

/-- `r - 1`. -/
def decr (r : UInt32) : Except Panic UInt32 :=
  if r = 0 then .error .subOverflow else .ok (r - 1)

/-- The loop `while d.is_even() { d >>= 1; r += 1 }` on a positive number, with its counter. -/
def splitTwos (r : UInt32) (d : Nat) : Except Panic (UInt32 × Nat) :=
  if d % 2 = 0 ∧ d ≠ 0 then do
    let r ← incr r
    splitTwos r (d / 2)
  else .ok (r, d)
termination_by d
decreasing_by omega

/-- One round of the loop over the witnesses. -/
def witnessPasses (n : Nat) (r : UInt32) (d w : Nat) : Except Panic Bool :=
  if w ≥ n then .ok true
  else
    let x := modpow w d n
    if x = 1 ∨ x = n - 1 then .ok true
    else do
      let bound ← decr r
      return squaresReach n bound.toNat x

/-- The loop over the witnesses, left at the first that does not pass. -/
def allPass (n : Nat) (r : UInt32) (d : Nat) : List Nat → Except Panic Bool
  | [] => .ok true
  | w :: ws => do
      if ← witnessPasses n r d w then allPass n r d ws else return false

def isProbablyPrimeMillerRabin (n rounds : Nat) : Except Panic Bool :=
  if n < 2 then .ok false
  else if n = 2 ∨ n = 3 then .ok true
  else if n % 2 = 0 then .ok false
  else do
    let (r, d) ← splitTwos 0 (n - 1)
    allPass n r d (witnesses.take rounds)

/-- What `next_prime` has come to after `fuel` rounds of its loop. -/
def nextPrime (fuel n : Nat) : Search Panic Nat :=
  search (fun c => isProbablyPrimeMillerRabin c 20) (fun c => c + 2) fuel (firstCandidate n)

/-- The counter overflows: `n - 1` is halved `2 ^ 32` times. -/
def CounterOverflows (n : Nat) : Prop := 2 ≤ n ∧ 2 ^ UInt32.size ∣ n - 1

/-! ## 4. The test -/

theorem toNat_incr {r : UInt32} (h : r.toNat + 1 < UInt32.size) :
    (r + 1).toNat = r.toNat + 1 := by
  rw [UInt32.toNat_add]
  exact Nat.mod_eq_of_lt h

/-- **The counter counts the halvings**, up to its size. -/
theorem splitTwos_eq (r : UInt32) (d : Nat) :
    splitTwos r d =
      if r.toNat + (VdfRsa.splitTwos d).1 < UInt32.size
      then .ok (UInt32.ofNat (r.toNat + (VdfRsa.splitTwos d).1), (VdfRsa.splitTwos d).2)
      else .error .addOverflow := by
  induction d using VdfRsa.splitTwos.induct generalizing r with
  | case1 d h ih =>
      have hcount : VdfRsa.splitTwos d =
          ((VdfRsa.splitTwos (d / 2)).1 + 1, (VdfRsa.splitTwos (d / 2)).2) := by
        rw [VdfRsa.splitTwos, if_pos h]
      rw [splitTwos, if_pos h, hcount]
      unfold incr
      by_cases hr : r.toNat + 1 < UInt32.size
      · rw [if_pos hr]
        show splitTwos (r + 1) (d / 2) = _
        rw [ih, toNat_incr hr, Nat.add_assoc, Nat.add_comm 1]
      · rw [if_neg hr, if_neg (by omega)]
        rfl
  | case2 d h =>
      have hcount : VdfRsa.splitTwos d = (0, d) := by
        rw [VdfRsa.splitTwos, if_neg h]
      rw [splitTwos, if_neg h, hcount, Nat.add_zero, if_pos r.toNat_lt, UInt32.ofNat_toNat]

theorem decr_eq {r : UInt32} (hr : 1 ≤ r.toNat) :
    ∃ bound, decr r = .ok bound ∧ bound.toNat = r.toNat - 1 := by
  have hne : r ≠ 0 := by
    intro h
    rw [h] at hr
    exact absurd hr (by decide)
  refine ⟨r - 1, if_neg hne, ?_⟩
  exact UInt32.toNat_sub_of_le r 1 (UInt32.le_iff_toNat_le.mpr hr)

theorem witnessPasses_eq {n d : Nat} {r : UInt32} (hr : 1 ≤ r.toNat) (w : Nat) :
    witnessPasses n r d w = .ok (VdfRsa.witnessPasses n r.toNat d w) := by
  obtain ⟨bound, hbound, hnat⟩ := decr_eq hr
  unfold witnessPasses VdfRsa.witnessPasses
  by_cases hw : w ≥ n
  · rw [if_pos hw, if_pos hw]
  rw [if_neg hw, if_neg hw]
  by_cases hx : modpow w d n = 1 ∨ modpow w d n = n - 1
  · exact (if_pos hx).trans (congrArg Except.ok (if_pos hx).symm)
  · show (if _ then _ else _) = Except.ok (if _ then _ else _)
    rw [if_neg hx, if_neg hx, hbound, ← hnat]
    rfl

theorem allPass_eq {n d : Nat} {r : UInt32} (hr : 1 ≤ r.toNat) (ws : List Nat) :
    allPass n r d ws = .ok (ws.all (VdfRsa.witnessPasses n r.toNat d)) := by
  induction ws with
  | nil => rfl
  | cons w ws ih =>
      rw [allPass, witnessPasses_eq hr, List.all_cons]
      cases VdfRsa.witnessPasses n r.toNat d w with
      | false => rfl
      | true => exact ih

theorem counterOverflows_iff {n : Nat} (hn : 2 ≤ n) :
    CounterOverflows n ↔ UInt32.size ≤ (VdfRsa.splitTwos (n - 1)).1 := by
  unfold CounterOverflows
  rw [two_pow_dvd_iff (by omega), and_iff_right hn]

theorem splitTwos_zero (d : Nat) : splitTwos 0 d =
    if (VdfRsa.splitTwos d).1 < UInt32.size
    then .ok (UInt32.ofNat (VdfRsa.splitTwos d).1, (VdfRsa.splitTwos d).2)
    else .error .addOverflow := by
  rw [splitTwos_eq, UInt32.toNat_zero, Nat.zero_add]

/-- **Where the counter does not overflow** no difference does either, and the test answers as on
    the natural numbers. -/
theorem test_eq {n : Nat} (hn : ¬CounterOverflows n) (rounds : Nat) :
    isProbablyPrimeMillerRabin n rounds = .ok (VdfRsa.isProbablyPrimeMillerRabin n rounds) := by
  unfold isProbablyPrimeMillerRabin VdfRsa.isProbablyPrimeMillerRabin
  by_cases h2 : n < 2
  · rw [if_pos h2, if_pos h2]
  rw [if_neg h2, if_neg h2]
  by_cases h3 : n = 2 ∨ n = 3
  · rw [if_pos h3, if_pos h3]
  rw [if_neg h3, if_neg h3]
  by_cases heven : n % 2 = 0
  · rw [if_pos heven, if_pos heven]
  rw [if_neg heven, if_neg heven]
  have hlt : (VdfRsa.splitTwos (n - 1)).1 < UInt32.size := by
    rw [counterOverflows_iff (by omega)] at hn
    omega
  -- `n - 1` is even, so the counter is at least 1
  have hpos : 1 ≤ (VdfRsa.splitTwos (n - 1)).1 := by
    refine (two_pow_dvd_iff (by omega)).mp ?_
    rw [Nat.pow_one]
    omega
  have hnat : (UInt32.ofNat (VdfRsa.splitTwos (n - 1)).1).toNat =
      (VdfRsa.splitTwos (n - 1)).1 := UInt32.toNat_ofNat_of_lt' hlt
  rw [splitTwos_zero, if_pos hlt]
  have hall := allPass_eq (n := n) (d := (VdfRsa.splitTwos (n - 1)).2) (by rw [hnat]; exact hpos)
    (witnesses.take rounds)
  rw [hnat] at hall
  exact hall

theorem test_overflows {n : Nat} (hn : CounterOverflows n) (rounds : Nat) :
    isProbablyPrimeMillerRabin n rounds = .error .addOverflow := by
  have hsize : UInt32.size ≤ (VdfRsa.splitTwos (n - 1)).1 := (counterOverflows_iff hn.1).mp hn
  have hfour : 2 ^ 2 ∣ n - 1 :=
    (two_pow_dvd_iff (by have := hn.1; omega)).mpr (Nat.le_trans (by decide) hsize)
  have h2 := hn.1
  unfold isProbablyPrimeMillerRabin
  rw [if_neg (by omega), if_neg (by omega), if_neg (by omega), splitTwos_zero,
    if_neg (by omega)]
  rfl

/-! ## 5. The search -/

/-- The loop of `next_prime` ends, and returns `q`. -/
def Returns (n q : Nat) : Prop := ∃ rounds, ∀ fuel, rounds ≤ fuel → nextPrime fuel n = .found q

/-- The loop of `next_prime` ends, in an overflow of the counter. -/
def Panics (n : Nat) : Prop :=
  ∃ rounds, ∀ fuel, rounds ≤ fuel → nextPrime fuel n = .panicked .addOverflow

theorem iterate_add_two (c i : Nat) : (fun c => c + 2)^[i] c = c + 2 * i := by
  induction i with
  | zero => rfl
  | succ i ih =>
      rw [Function.iterate_succ_apply', ih]
      omega

theorem CounterOverflows.odd {c : Nat} (h : CounterOverflows c) : c % 2 = 1 := by
  have htwo : 2 ^ 1 ∣ c - 1 := Nat.dvd_trans (Nat.pow_dvd_pow 2 (by decide)) h.2
  have hc := h.1
  omega

theorem test_ok_iff {c : Nat} {accepted : Bool} :
    isProbablyPrimeMillerRabin c 20 = .ok accepted ↔
      ¬CounterOverflows c ∧ VdfRsa.isProbablyPrimeMillerRabin c 20 = accepted := by
  by_cases hc : CounterOverflows c
  · rw [test_overflows hc]
    exact ⟨fun h => (nomatch h), fun h => absurd hc h.1⟩
  · rw [test_eq hc, and_iff_right hc]
    exact ⟨Except.ok.inj, congrArg Except.ok⟩

/-- **What the search returns**, and when: the counter overflows for no candidate up to it. -/
theorem returns_iff {n q : Nat} : Returns n q ↔
    q = VdfRsa.nextPrime n ∧ ∀ c, n ≤ c → c ≤ q → ¬CounterOverflows c := by
  refine ends_found_iff.trans ?_
  simp only [Rejects, iterate_add_two, test_ok_iff]
  constructor
  · intro ⟨j, hrej, hq, hcount, hacc⟩
    have hfind : Nat.find (exists_probablyPrime (firstCandidate_odd n)) = j := by
      refine (Nat.find_eq_iff _).mpr ⟨hq ▸ hacc, fun i hi => ?_⟩
      rw [(hrej i hi).2]
      exact Bool.false_ne_true
    refine ⟨?_, fun c hc hle hover => ?_⟩
    · unfold VdfRsa.nextPrime
      rw [hfind, hq]
    · obtain ⟨i, rfl⟩ := exists_candidate hc hover.odd
      obtain hlt | heq := Nat.lt_or_eq_of_le (show i ≤ j by omega)
      · exact (hrej i hlt).1 hover
      · rw [heq, hq] at hover
        exact hcount hover
  · intro ⟨hq, hcount⟩
    refine ⟨Nat.find (exists_probablyPrime (firstCandidate_odd n)), fun i hi => ?_, hq.symm,
      hcount q (hq ▸ le_nextPrime n) le_rfl, hq ▸ nextPrime_passes n⟩
    have hle := le_firstCandidate n
    have hlt : firstCandidate n + 2 * i < VdfRsa.nextPrime n := by
      unfold VdfRsa.nextPrime
      omega
    exact ⟨hcount _ (by omega) (by omega), rejected_candidate hlt⟩

theorem exists_returns_iff {n : Nat} : (∃ q, Returns n q) ↔
    ∀ c, n ≤ c → c ≤ VdfRsa.nextPrime n → ¬CounterOverflows c := by
  constructor
  · intro ⟨q, h⟩
    obtain ⟨hq, hcount⟩ := returns_iff.mp h
    exact hq ▸ hcount
  · intro hcount
    exact ⟨_, returns_iff.mpr ⟨rfl, hcount⟩⟩

/-- **The loop always ends**: the search returns, or the counter overflows on its way. -/
theorem returns_or_panics (n : Nat) : (∃ q, Returns n q) ∨ Panics n := by
  by_cases hreturns : ∃ q, Returns n q
  · exact .inl hreturns
  rw [exists_returns_iff] at hreturns
  push Not at hreturns
  obtain ⟨c, hc, hle, hover⟩ := hreturns
  obtain ⟨i, rfl⟩ := exists_candidate hc hover.odd
  -- the first candidate on which the counter overflows
  classical
  have hex : ∃ i, CounterOverflows (firstCandidate n + 2 * i) := ⟨i, hover⟩
  have hfirst : Nat.find hex ≤ i := Nat.find_min' hex hover
  refine .inr (ends_panicked (n := Nat.find hex) (fun k hk => ?_) ?_)
  · rw [iterate_add_two]
    exact test_ok_iff.mpr ⟨Nat.find_min hex hk, rejected_candidate (by omega)⟩
  · rw [iterate_add_two]
    exact test_overflows (Nat.find_spec hex) 20

theorem not_counterOverflows_of_le {c : Nat} (hc : c ≤ 2 ^ UInt32.size) : ¬CounterOverflows c := by
  intro ⟨htwo, hdvd⟩
  have hle := Nat.le_of_dvd (by omega) hdvd
  generalize 2 ^ UInt32.size = bound at hc hle
  omega

/-- **The search ends** from every number of less than `2 ^ 32` bits on. -/
theorem returns_of_le {n : Nat} (hn : 2 * n ≤ 2 ^ UInt32.size) :
    Returns n (VdfRsa.nextPrime n) := by
  refine returns_iff.mpr ⟨rfl, fun c _ hc => not_counterOverflows_of_le (Nat.le_trans hc ?_)⟩
  by_cases h2 : 2 ≤ n
  · exact Nat.le_trans (nextPrime_le_two_mul h2) hn
  · have h3 : VdfRsa.nextPrime n ≤ 3 := nextPrime_le_of_prime Nat.prime_three rfl (by omega)
    have hpow : 2 ^ 2 ≤ 2 ^ UInt32.size := Nat.pow_le_pow_right (by decide) (by decide)
    exact Nat.le_trans h3 (Nat.le_trans (by decide) hpow)

/-! ## 6. What holds of the two functions -/

theorem test_ne_subOverflow (n rounds : Nat) :
    isProbablyPrimeMillerRabin n rounds ≠ .error .subOverflow := by
  by_cases hn : CounterOverflows n
  · rw [test_overflows hn]
    exact fun h => nomatch h
  · rw [test_eq hn]
    exact fun h => nomatch h

theorem test_addOverflow_iff {n rounds : Nat} :
    isProbablyPrimeMillerRabin n rounds = .error .addOverflow ↔ CounterOverflows n := by
  by_cases hn : CounterOverflows n
  · rw [test_overflows hn]
    exact iff_of_true rfl hn
  · rw [test_eq hn]
    exact iff_of_false (fun h => nomatch h) hn

theorem test_of_prime {p : Nat} (hp : p.Prime) (hcount : ¬CounterOverflows p) (rounds : Nat) :
    isProbablyPrimeMillerRabin p rounds = .ok true := by
  rw [test_eq hcount, isProbablyPrime_of_prime hp]

/-- The search skips no candidate the test accepts, and no odd prime. -/
theorem Returns.skipped {n q c : Nat} (h : Returns n q) (hn : n ≤ c) (hlt : c < q)
    (hodd : c % 2 = 1) : isProbablyPrimeMillerRabin c 20 = .ok false ∧ ¬c.Prime := by
  obtain ⟨hq, hcount⟩ := returns_iff.mp h
  refine ⟨test_ok_iff.mpr ⟨hcount c hn (Nat.le_of_lt hlt),
    rejected_of_lt_nextPrime hn hodd (hq ▸ hlt)⟩, fun hp => ?_⟩
  have hle := nextPrime_le_of_prime hp hodd hn
  omega

theorem Returns.result {n q : Nat} (h : Returns n q) :
    q % 2 = 1 ∧ 3 ≤ q ∧ n ≤ q ∧ isProbablyPrimeMillerRabin q 20 = .ok true := by
  obtain ⟨hq, hcount⟩ := returns_iff.mp h
  have hle : n ≤ q := hq ▸ le_nextPrime n
  refine ⟨hq ▸ nextPrime_odd n, hq ▸ two_lt_nextPrime n, hle, ?_⟩
  exact test_ok_iff.mpr ⟨hcount q hle le_rfl, hq ▸ nextPrime_passes n⟩

/-- **The test and the search on words.** `r - 1` never underflows, and nothing overflows but the
    counter `r`, where `n - 1` is halved `2 ^ 32` times. Every other prime is accepted. The search
    ends; it returns where it does not meet such a number, so from every `n` up to
    `2 ^ (2 ^ 32 - 1)` on, and what it returns is odd, at least 3 and `n`, and the first candidate
    the test accepts, with no odd prime before it. -/
theorem primeSearch_correct :
    (∀ n rounds, isProbablyPrimeMillerRabin n rounds ≠ .error .subOverflow) ∧
    (∀ n rounds, isProbablyPrimeMillerRabin n rounds = .error .addOverflow ↔
      CounterOverflows n) ∧
    (∀ p rounds, p.Prime → ¬CounterOverflows p →
      isProbablyPrimeMillerRabin p rounds = .ok true) ∧
    (∀ n, (∃ q, Returns n q) ∨ Panics n) ∧
    (∀ n, (∃ q, Returns n q) ↔
      ∀ c, n ≤ c → c ≤ VdfRsa.nextPrime n → ¬CounterOverflows c) ∧
    (∀ n, 2 * n ≤ 2 ^ UInt32.size → ∃ q, Returns n q) ∧
    (∀ n q, Returns n q →
      (q % 2 = 1 ∧ 3 ≤ q ∧ n ≤ q ∧ isProbablyPrimeMillerRabin q 20 = .ok true) ∧
      ∀ c, n ≤ c → c < q → c % 2 = 1 →
        isProbablyPrimeMillerRabin c 20 = .ok false ∧ ¬c.Prime) :=
  ⟨test_ne_subOverflow, fun _ _ => test_addOverflow_iff,
    fun _ rounds hp hcount => test_of_prime hp hcount rounds,
    returns_or_panics, fun _ => exists_returns_iff, fun _ hn => ⟨_, returns_of_le hn⟩,
    fun _ _ h => ⟨h.result, fun _ hn hlt hodd => h.skipped hn hlt hodd⟩⟩

theorem le_two_pow_size {m : Nat} (hm : m ≤ 2 ^ 5) : m ≤ 2 ^ UInt32.size :=
  Nat.le_trans hm (Nat.pow_le_pow_right (by decide) (by decide))

/-- The prime 13, whose counter comes to 2, and the search from 14 on. -/
theorem primeSearch_correct_thirteen :
    isProbablyPrimeMillerRabin 13 20 = .ok true ∧ ∃ q, Returns 14 q :=
  ⟨primeSearch_correct.2.2.1 13 20 (by norm_num)
      (not_counterOverflows_of_le (le_two_pow_size (by decide))),
    primeSearch_correct.2.2.2.2.2.1 14 (le_two_pow_size (by decide))⟩

theorem counterOverflows_succ {m : Nat} (hm : 0 < m) (h : 2 ^ UInt32.size ∣ m) :
    CounterOverflows (m + 1) :=
  ⟨Nat.succ_lt_succ hm, h⟩

theorem exists_prime_counterOverflows : ∃ p : Nat, p.Prime ∧ CounterOverflows p := by
  obtain ⟨p, hp, _, hmod⟩ :=
    Nat.exists_prime_gt_modEq_one (k := 2 ^ UInt32.size) 0 (Nat.two_pow_pos _).ne'
  exact ⟨p, hp, hp.two_le, (Nat.modEq_iff_dvd' hp.one_le).mp hmod.symm⟩

/-- The search from such a number on panics in its first round. -/
theorem nextPrime_panicked {n : Nat} (h : CounterOverflows n) (fuel : Nat) :
    nextPrime (fuel + 1) n = .panicked .addOverflow := by
  have hfirst : firstCandidate n = n := if_neg (by have := h.odd; omega)
  unfold nextPrime
  rw [hfirst, search, test_overflows h]

/-- There are primes on which the counter overflows, and the search panics from
    `2 ^ (2 ^ 32) + 1` on. -/
theorem primeSearch_overflows :
    (∃ p : Nat, p.Prime ∧ ∀ rounds, isProbablyPrimeMillerRabin p rounds = .error .addOverflow) ∧
    (∀ fuel, nextPrime (fuel + 1) (2 ^ UInt32.size + 1) = .panicked .addOverflow) ∧
    ¬∃ q, Returns (2 ^ UInt32.size + 1) q := by
  have hover := counterOverflows_succ (Nat.two_pow_pos UInt32.size) (Nat.dvd_refl _)
  refine ⟨?_, nextPrime_panicked hover, fun hq => ?_⟩
  · obtain ⟨p, hp, hcount⟩ := exists_prime_counterOverflows
    exact ⟨p, hp, test_overflows hcount⟩
  · exact exists_returns_iff.mp hq _ (Nat.le_refl _) (le_nextPrime _) hover

end Words

end VdfRsa

end Specter
