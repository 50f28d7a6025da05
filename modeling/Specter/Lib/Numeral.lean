/-
  File:      Specter/Lib/Numeral.lean
  Subject:   NUMERALS WITHOUT LEADING ZEROS, the highest digit first, and what two of them
             written one after the other still say. No program fact.

  * `numeral`, `value` -- the digits of a number and the number of digits read;
    `value_numeral`, `numeral_value` -- each undoes the other, where the first digit is not 0;
  * `joined` -- the number whose digits are those of two numbers in a row;
  * `append_numeral_iff` -- two pairs of numbers written without a mark between them give the same
    digits exactly if they are equal or leading digits of one second number have moved to the
    end of the first (`Moved`).
-/
import Mathlib.Data.Nat.Digits.Lemmas

namespace Lib

namespace Numeral

variable {b : ℕ}

/-! ## 1. Numbers and their digits -/

/-- The digits of `n`, the highest first; 0 has the digit 0. -/
def numeral (b n : ℕ) : List ℕ := if n = 0 then [0] else (Nat.digits b n).reverse

def value (b : ℕ) (digits : List ℕ) : ℕ := Nat.ofDigits b digits.reverse

theorem value_numeral (n : ℕ) : value b (numeral b n) = n := by
  unfold value numeral
  by_cases hn : n = 0
  · simp [hn]
  · rw [if_neg hn, List.reverse_reverse, Nat.ofDigits_digits]

theorem numeral_inj {m n : ℕ} (h : numeral b m = numeral b n) : m = n := by
  rw [← value_numeral (b := b) m, h, value_numeral]

theorem value_append (u v : List ℕ) : value b (u ++ v) = value b u * b ^ v.length + value b v := by
  unfold value
  rw [List.reverse_append, Nat.ofDigits_append, List.length_reverse]
  ring

theorem numeral_ne_nil (n : ℕ) : numeral b n ≠ [] := by
  unfold numeral
  by_cases hn : n = 0
  · simp [hn]
  · rw [if_neg hn]
    exact mt List.reverse_eq_nil_iff.mp (Nat.digits_ne_nil_iff_ne_zero.mpr hn)

theorem lt_of_mem_numeral (hb : 1 < b) {n d : ℕ} (hd : d ∈ numeral b n) : d < b := by
  unfold numeral at hd
  by_cases hn : n = 0
  · rw [if_pos hn, List.mem_singleton] at hd
    omega
  · rw [if_neg hn, List.mem_reverse] at hd
    exact Nat.digits_lt_base hb hd

/-- The first digit of a number other than 0 is not 0. -/
theorem head_numeral {n : ℕ} (hn : n ≠ 0) {d : ℕ} {ds : List ℕ} (h : numeral b n = d :: ds) :
    d ≠ 0 := by
  unfold numeral at h
  rw [if_neg hn, List.reverse_eq_cons_iff] at h
  have hlast := Nat.getLast_digit_ne_zero b hn
  simpa only [h, List.getLast_append_singleton] using hlast

/-- **Digits whose first is not 0 are the numeral of what they say.** -/
theorem numeral_value (hb : 1 < b) {d : ℕ} {ds : List ℕ} (hdigits : ∀ e ∈ d :: ds, e < b)
    (hd : d ≠ 0) : value b (d :: ds) ≠ 0 ∧ numeral b (value b (d :: ds)) = d :: ds := by
  have hrev : Nat.digits b (Nat.ofDigits b (d :: ds).reverse) = (d :: ds).reverse := by
    refine Nat.digits_ofDigits b hb _ (fun e he => hdigits e (List.mem_reverse.mp he)) fun _ => ?_
    rw [List.getLast_reverse]
    exact hd
  have hne : value b (d :: ds) ≠ 0 := by
    intro h0
    unfold value at h0
    rw [h0, Nat.digits_zero] at hrev
    exact List.cons_ne_nil d ds (List.reverse_eq_nil_iff.mp hrev.symm)
  refine ⟨hne, ?_⟩
  unfold numeral
  rw [if_neg hne]
  unfold value
  rw [hrev, List.reverse_reverse]

/-! ## 2. Two numbers in a row -/

/-- The number whose digits are those of `m` and then those of `n`. -/
def joined (b m n : ℕ) : ℕ := m * b ^ (numeral b n).length + n

theorem value_append_numeral (m n : ℕ) :
    value b (numeral b m ++ numeral b n) = joined b m n := by
  unfold joined
  rw [value_append, value_numeral, value_numeral]

theorem numeral_joined (hb : 1 < b) {m n : ℕ} (hm : m ≠ 0) :
    numeral b (joined b m n) = numeral b m ++ numeral b n := by
  obtain ⟨d, ds, hds⟩ := List.exists_cons_of_ne_nil (numeral_ne_nil (b := b) m)
  have hall : ∀ e ∈ numeral b m ++ numeral b n, e < b := by
    intro e he
    rcases List.mem_append.mp he with he | he
    · exact lt_of_mem_numeral hb he
    · exact lt_of_mem_numeral hb he
  rw [← value_append_numeral]
  rw [hds, List.cons_append] at hall ⊢
  exact (numeral_value hb hall (head_numeral hm hds)).2

theorem lt_joined (hb : 1 < b) {m k : ℕ} (hk : k ≠ 0) : m < joined b m k := by
  have hpow : 0 < b ^ (numeral b k).length := Nat.pow_pos (by omega)
  have hle : m ≤ m * b ^ (numeral b k).length := Nat.le_mul_of_pos_right m hpow
  unfold joined
  omega

/-- The leading digits `k` of `n` have moved to the end of `m`: the pair `m, n` has become the
    pair `m', n'`. -/
def Moved (b m n m' n' : ℕ) : Prop := ∃ k, k ≠ 0 ∧ m' = joined b m k ∧ n = joined b k n'

theorem Moved.append_eq (hb : 1 < b) {m n m' n' : ℕ} (hm : m ≠ 0) (h : Moved b m n m' n') :
    numeral b m ++ numeral b n = numeral b m' ++ numeral b n' := by
  obtain ⟨k, hk, rfl, rfl⟩ := h
  rw [numeral_joined hb hm, numeral_joined hb hk, List.append_assoc]

/-- Where the second numerals end alike and the first go on differently, digits have moved. -/
theorem moved_of_append (hb : 1 < b) {m n m' n' : ℕ} {w : List ℕ}
    (hleft : numeral b m' = numeral b m ++ w) (hright : numeral b n = w ++ numeral b n') :
    (m = m' ∧ n = n') ∨ Moved b m n m' n' := by
  cases w with
  | nil =>
      rw [List.append_nil] at hleft
      exact .inl ⟨(numeral_inj hleft).symm, numeral_inj hright⟩
  | cons d ds =>
      have hn : n ≠ 0 := by
        rintro rfl
        -- 0 has one digit, and there are two here
        have hzero : numeral b 0 = [0] := by simp [numeral]
        have hlen := congrArg List.length hright
        have hpos := List.length_pos_of_ne_nil (numeral_ne_nil (b := b) n')
        rw [hzero, List.length_singleton, List.length_append, List.length_cons] at hlen
        omega
      have hdigits : ∀ e ∈ d :: ds, e < b := fun e he => by
        refine lt_of_mem_numeral hb (n := n) ?_
        rw [hright]
        exact List.mem_append_left _ he
      obtain ⟨hk, hnum⟩ := numeral_value hb hdigits (head_numeral hn hright)
      refine .inr ⟨value b (d :: ds), hk, ?_, ?_⟩
      · rw [← value_numeral (b := b) m', hleft, value_append, value_numeral, joined, hnum]
      · rw [← value_numeral (b := b) n, hright, value_append, value_numeral]
        rfl

/-- **What two numbers written in a row say**: the pair, up to leading digits that may belong to
    the second or to the end of the first. -/
theorem append_numeral_iff (hb : 1 < b) {m n m' n' : ℕ} (hm : m ≠ 0) (hm' : m' ≠ 0) :
    numeral b m ++ numeral b n = numeral b m' ++ numeral b n' ↔
      (m = m' ∧ n = n') ∨ Moved b m n m' n' ∨ Moved b m' n' m n := by
  constructor
  · intro h
    rcases List.append_eq_append_iff.mp h with ⟨w, hleft, hright⟩ | ⟨w, hleft, hright⟩
    · rcases moved_of_append hb hleft hright with heq | hmoved
      · exact .inl heq
      · exact .inr (.inl hmoved)
    · rcases moved_of_append hb hleft hright with ⟨rfl, rfl⟩ | hmoved
      · exact .inl ⟨rfl, rfl⟩
      · exact .inr (.inr hmoved)
  · rintro (⟨rfl, rfl⟩ | hmoved | hmoved)
    · rfl
    · exact hmoved.append_eq hb hm
    · exact (hmoved.append_eq hb hm').symm

end Numeral

end Lib
