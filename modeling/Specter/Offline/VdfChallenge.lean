/-
  File:      Specter/Offline/VdfChallenge.lean
  Subject:   WHAT THE CHALLENGE OF THE RSA TIME LOCK IS BOUND TO (`derive_challenge` of
             specter-offline/src/vdf_rsa.rs).

  The challenge is the hash of the input, the output and the number of rounds. Input and output
  are written as bytes without a leading zero and without a length before them.

  * `challengeBytes` -- the bytes that are hashed; `deriveChallenge_eq` -- they are all the
    challenge depends on;
  * `toBytesBe_eq` -- `to_bytes_be` writes the numeral in base 256;
  * `challenge_bound_iff` -- the bytes of two statements differ unless they are one statement, or
    leading bytes of one output have moved to the end of the input.
-/
import Specter.Lib.Numeral
import Specter.Offline.VdfRsa

namespace Specter

open Lib Lib.Numeral

variable {S P : Type} [Field S] [AddCommGroup P] [Module S P]

namespace VdfRsa

/-- What `derive_challenge` hashes. -/
def challengeBytes (input output : Nat) (iterations : UInt64) : Bytes :=
  ascii "specter-vdf-challenge:" ++ toBytesBe input ++ toBytesBe output ++ le64 iterations

theorem deriveChallenge_eq (C : Suite S P) (input output : Nat) (iterations : UInt64) :
    deriveChallenge C input output iterations =
      nextPrime (fromBytesBe
        (((C.sha256 (challengeBytes input output iterations)).toList.take 16).modify 15
          (· ||| 1))) := rfl

theorem toBytesBe_eq (n : Nat) : toBytesBe n = (numeral 256 n).map UInt8.ofNat := by
  unfold toBytesBe numeral
  by_cases hn : n = 0
  · rw [if_pos hn, if_pos hn]
    rfl
  · rw [if_neg hn, if_neg hn]

/-- Digits below 256 are bytes. -/
theorem map_ofNat_inj {u v : List Nat} (hu : ∀ d ∈ u, d < 256) (hv : ∀ d ∈ v, d < 256)
    (h : u.map UInt8.ofNat = v.map UInt8.ofNat) : u = v := by
  have hback : ∀ l : List Nat, (∀ d ∈ l, d < 256) →
      (l.map UInt8.ofNat).map UInt8.toNat = l := by
    intro l hl
    rw [List.map_map]
    refine (List.map_congr_left fun d hd => ?_).trans (List.map_id l)
    exact UInt8.toNat_ofNat_of_lt' (hl d hd)
  rw [← hback u hu, h, hback v hv]

theorem toBytesBe_append_iff {m n m' n' : Nat} :
    toBytesBe m ++ toBytesBe n = toBytesBe m' ++ toBytesBe n' ↔
      numeral 256 m ++ numeral 256 n = numeral 256 m' ++ numeral 256 n' := by
  have hlt : ∀ a c d : Nat, d ∈ numeral 256 a ++ numeral 256 c → d < 256 := by
    intro a c d hd
    rcases List.mem_append.mp hd with hd | hd
    · exact lt_of_mem_numeral (by decide) hd
    · exact lt_of_mem_numeral (by decide) hd
  simp only [toBytesBe_eq, ← List.map_append]
  exact ⟨map_ofNat_inj (hlt m n) (hlt m' n'), fun h => congrArg _ h⟩

theorem challengeBytes_eq_iff {x y x' y' : Nat} {T T' : UInt64} :
    challengeBytes x y T = challengeBytes x' y' T' ↔
      numeral 256 x ++ numeral 256 y = numeral 256 x' ++ numeral 256 y' ∧ T = T' := by
  rw [← toBytesBe_append_iff]
  unfold challengeBytes
  simp only [List.append_assoc, List.append_cancel_left_eq]
  rw [← List.append_assoc, ← List.append_assoc,
    List.append_eq_append_iff_of_size_eq_right (by simp)]
  exact and_congr_right fun _ => ⟨le64_inj, fun h => congrArg le64 h⟩

/-- **When the challenge is bound to its statement.** Two statements whose bytes are equal are one
    statement unless they are about the same number of rounds and one comes from the other by
    moving leading bytes of the output to the end of the input. -/
theorem challenge_bound_iff (x y x' y' : Nat) (T T' : UInt64) (hx : 2 ≤ x) (hx' : 2 ≤ x') :
    (challengeBytes x y T = challengeBytes x' y' T' → x = x' ∧ y = y' ∧ T = T') ↔
      ¬(T = T' ∧ (Moved 256 x y x' y' ∨ Moved 256 x' y' x y)) := by
  have hne : ∀ {m n m' n' : Nat}, Moved 256 m n m' n' → m ≠ m' := by
    intro m n m' n' h
    obtain ⟨k, hk, rfl, _⟩ := h
    exact Nat.ne_of_lt (lt_joined (by decide) hk)
  rw [challengeBytes_eq_iff, append_numeral_iff (by decide) (by omega) (by omega)]
  constructor
  · rintro h ⟨rfl, hmoved⟩
    obtain ⟨hsame, _, _⟩ := h ⟨.inr hmoved, rfl⟩
    rcases hmoved with hmoved | hmoved
    · exact hne hmoved hsame
    · exact hne hmoved hsame.symm
  · rintro h ⟨⟨hxx, hyy⟩ | hmoved, hT⟩
    · exact ⟨hxx, hyy, hT⟩
    · exact absurd ⟨hT, hmoved⟩ h

/-- Input 2 and output 772, with a byte moved or not, or another number of rounds. -/
theorem challenge_bound_iff_bytes :
    (challengeBytes 2 772 1 = challengeBytes 2 773 1 →
      (2 : Nat) = 2 ∧ (772 : Nat) = 773 ∧ (1 : UInt64) = 1) ∧
    ¬(challengeBytes 2 772 1 = challengeBytes 515 4 1 →
      (2 : Nat) = 515 ∧ (772 : Nat) = 4 ∧ (1 : UInt64) = 1) := by
  constructor
  · refine (challenge_bound_iff 2 772 2 773 1 1 (by decide) (by decide)).mpr ?_
    rintro ⟨_, ⟨k, hk, h, _⟩ | ⟨k, hk, h, _⟩⟩
    · exact Nat.ne_of_lt (lt_joined (by decide) hk) h
    · exact Nat.ne_of_lt (lt_joined (by decide) hk) h
  · rw [challenge_bound_iff 2 772 515 4 1 1 (by decide) (by decide), not_not]
    exact ⟨rfl, .inl ⟨3, by decide, by simp [joined, numeral], by simp [joined, numeral]⟩⟩

/-- **Two statements, one challenge.** Input 2 with output `0x0304`, and input `0x0203` with
    output 4, are hashed as the bytes 2, 3, 4. -/
theorem statements_share_challenge :
    challengeBytes 2 0x0304 1 = challengeBytes 0x0203 4 1 ∧
      ¬((2 : Nat) = 0x0203 ∧ (0x0304 : Nat) = 4) ∧
      deriveChallenge sampleSuite 2 0x0304 1 = deriveChallenge sampleSuite 0x0203 4 1 := by
  have h : challengeBytes 2 0x0304 1 = challengeBytes 0x0203 4 1 := by
    simp [challengeBytes, toBytesBe]
  exact ⟨h, by decide, by rw [deriveChallenge_eq, deriveChallenge_eq, h]⟩

end VdfRsa

end Specter
