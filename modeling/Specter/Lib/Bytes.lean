/-
  File:      Specter/Lib/Bytes.lean
  Subject:   BYTE STRINGS: fixed-width arrays, little-endian integers, and when a
             concatenation can be taken apart again. No program fact.

  * `ByteArr n` -- a byte string that carries its length (`[u8; n]`);
  * `leBytes`, `ofLE` -- little-endian encoding and decoding, `ofLE_leBytes` the round trip;
  * `le32`, `le64` -- the encodings of the machine words, injective;
  * `append_inj_fixed`, `append_inj_arr`, `flatMap_arr_inj` -- a field of known width at the
    front of a stream, and a list of such fields, are read back uniquely;
  * `arrays` -- a stream cut into fields of one width, `arrays_flatMap`, `flatMap_arrays` the
    two round trips.
-/
import Mathlib.Data.Vector.Basic

namespace Lib

abbrev Bytes := List UInt8

/-- A byte string of length `n`. -/
abbrev ByteArr (n : Nat) := List.Vector UInt8 n

/-- The bytes of an ASCII literal. -/
def ascii (s : String) : Bytes := s.toList.map fun c => UInt8.ofNat c.toNat

/-! ## 1. Little-endian integers -/

/-- The `k` low bytes of `n`, least significant first. -/
def leBytes : Nat → Nat → Bytes
  | 0, _ => []
  | k + 1, n => UInt8.ofNat (n % 256) :: leBytes k (n / 256)

def ofLE : Bytes → Nat
  | [] => 0
  | b :: bs => b.toNat + 256 * ofLE bs

@[simp] theorem length_leBytes (k n : Nat) : (leBytes k n).length = k := by
  induction k generalizing n with
  | zero => rfl
  | succ k ih => simp [leBytes, ih]

theorem ofLE_leBytes (k n : Nat) : ofLE (leBytes k n) = n % 256 ^ k := by
  induction k generalizing n with
  | zero => simp [leBytes, ofLE, Nat.mod_one]
  | succ k ih =>
      have hb : (UInt8.ofNat (n % 256)).toNat = n % 256 := by
        rw [UInt8.toNat_ofNat']
        exact Nat.mod_eq_of_lt (Nat.mod_lt _ (by decide))
      rw [leBytes, ofLE, ih, hb, Nat.pow_succ, Nat.mul_comm (256 ^ k) 256, Nat.mod_mul]

theorem leBytes_inj {k m n : Nat} (hm : m < 256 ^ k) (hn : n < 256 ^ k)
    (h : leBytes k m = leBytes k n) : m = n := by
  have e := congrArg ofLE h
  rwa [ofLE_leBytes, ofLE_leBytes, Nat.mod_eq_of_lt hm, Nat.mod_eq_of_lt hn] at e

/-- The `k` low bytes of `n` as an array. -/
def leArr (k n : Nat) : ByteArr k := ⟨leBytes k n, length_leBytes k n⟩

theorem ofLE_leArr {k n : Nat} (hn : n < 256 ^ k) : ofLE (leArr k n).toList = n := by
  show ofLE (leBytes k n) = n
  rw [ofLE_leBytes, Nat.mod_eq_of_lt hn]

theorem ofLE_lt (bs : Bytes) : ofLE bs < 256 ^ bs.length := by
  induction bs with
  | nil => exact Nat.one_pos
  | cons b bs ih =>
      have hb := b.toNat_lt
      rw [ofLE, List.length_cons, Nat.pow_succ]
      omega

/-- **Read, then written.** -/
theorem leBytes_ofLE (bs : Bytes) : leBytes bs.length (ofLE bs) = bs := by
  induction bs with
  | nil => rfl
  | cons b bs ih =>
      have hb := b.toNat_lt
      have hlow : (b.toNat + 256 * ofLE bs) % 256 = b.toNat := by omega
      have hhigh : (b.toNat + 256 * ofLE bs) / 256 = ofLE bs := by omega
      rw [List.length_cons, ofLE, leBytes, hlow, hhigh, ih, UInt8.ofNat_toNat]

/-- `u32::to_le_bytes`. -/
def le32 (x : UInt32) : Bytes := leBytes 4 x.toNat

/-- `u64::to_le_bytes`. -/
def le64 (x : UInt64) : Bytes := leBytes 8 x.toNat

@[simp] theorem length_le32 (x : UInt32) : (le32 x).length = 4 := length_leBytes 4 _

@[simp] theorem length_le64 (x : UInt64) : (le64 x).length = 8 := length_leBytes 8 _

theorem le64_inj {x y : UInt64} (h : le64 x = le64 y) : x = y :=
  UInt64.toNat_inj.mp (leBytes_inj (k := 8) x.toNat_lt y.toNat_lt h)

/-! ## 2. Taking a concatenation apart -/

theorem append_inj_fixed {a b c d : Bytes} (hl : a.length = c.length) (h : a ++ b = c ++ d) :
    a = c ∧ b = d :=
  List.append_inj h hl

theorem append_inj_arr {n : Nat} {a c : ByteArr n} {b d : Bytes}
    (h : a.toList ++ b = c.toList ++ d) : a = c ∧ b = d := by
  obtain ⟨h1, h2⟩ := append_inj_fixed (by rw [a.toList_length, c.toList_length]) h
  exact ⟨List.Vector.eq _ _ h1, h2⟩

/-- A list of fields of one positive width is read back from their concatenation. -/
theorem flatMap_arr_inj {n : Nat} (hn : 0 < n) : ∀ (as bs : List (ByteArr n)),
    as.flatMap (·.toList) = bs.flatMap (·.toList) → as = bs
  | [], [], _ => rfl
  | [], b :: bs, h => by
      have hlen := congrArg List.length h
      rw [List.flatMap_nil, List.flatMap_cons, List.length_append, b.toList_length] at hlen
      simp only [List.length_nil] at hlen
      omega
  | a :: as, [], h => by
      have hlen := congrArg List.length h
      rw [List.flatMap_nil, List.flatMap_cons, List.length_append, a.toList_length] at hlen
      simp only [List.length_nil] at hlen
      omega
  | a :: as, b :: bs, h => by
      rw [List.flatMap_cons, List.flatMap_cons] at h
      obtain ⟨hab, hrest⟩ := append_inj_arr h
      rw [hab, flatMap_arr_inj hn as bs hrest]

/-! ## 3. Cutting a stream into fields -/

/-- The first `k` bytes, zeroes where there are none. -/
def takeArr (k : Nat) (bs : Bytes) : ByteArr k := List.Vector.ofFn fun i => bs.getD i 0

/-- `n` fields of `k` bytes from the front of the stream. -/
def arrays (k : Nat) : Nat → Bytes → List (ByteArr k)
  | 0, _ => []
  | n + 1, bs => takeArr k bs :: arrays k n (bs.drop k)

theorem takeArr_append {k : Nat} (a : ByteArr k) (rest : Bytes) :
    takeArr k (a.toList ++ rest) = a := by
  refine List.Vector.ext fun i => ?_
  have hi : i.val < a.toList.length := by
    rw [a.toList_length]
    exact i.isLt
  unfold takeArr
  rw [List.Vector.get_ofFn, List.getD_eq_getElem?_getD, List.getElem?_append_left hi,
    List.getElem?_eq_getElem hi, List.Vector.get_eq_get_toList]
  rfl

/-- **The fields of a concatenation are the arrays concatenated.** -/
theorem arrays_flatMap {k : Nat} : ∀ (as : List (ByteArr k)),
    arrays k as.length (as.flatMap (·.toList)) = as
  | [] => rfl
  | a :: as => by
      rw [List.flatMap_cons, List.length_cons, arrays, takeArr_append,
        List.drop_left' a.toList_length, arrays_flatMap as]

theorem toList_takeArr {k : Nat} {bs : Bytes} (h : k ≤ bs.length) :
    (takeArr k bs).toList = bs.take k := by
  have hlen : (bs.take k).length = k := by
    rw [List.length_take, Nat.min_eq_left h]
  have harr := takeArr_append ⟨bs.take k, hlen⟩ (bs.drop k)
  rw [List.Vector.toList_mk, List.take_append_drop] at harr
  rw [harr, List.Vector.toList_mk]

/-- A stream of whole fields is the concatenation of its fields. -/
theorem flatMap_arrays {k : Nat} : ∀ {n : Nat} {bs : Bytes}, bs.length = k * n →
    (arrays k n bs).flatMap (·.toList) = bs
  | 0, bs, h => by
      rw [Nat.mul_zero] at h
      rw [List.eq_nil_of_length_eq_zero h]
      rfl
  | n + 1, bs, h => by
      rw [Nat.mul_succ] at h
      have hrest : (bs.drop k).length = k * n := by
        rw [List.length_drop]
        omega
      rw [arrays, List.flatMap_cons, toList_takeArr (by omega), flatMap_arrays hrest,
        List.take_append_drop]

theorem length_flatMap_arr {k : Nat} (as : List (ByteArr k)) :
    (as.flatMap (·.toList)).length = k * as.length := by
  induction as with
  | nil => rfl
  | cons a as ih =>
      rw [List.flatMap_cons, List.length_append, a.toList_length, ih, List.length_cons,
        Nat.mul_succ, Nat.add_comm]

end Lib
