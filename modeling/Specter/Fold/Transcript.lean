/-
  File:      Specter/Fold/Transcript.lean
  Subject:   THE TRANSCRIPT OF THE FOLD (specter-fold/src/transcript.rs).

  * `Transcript` -- the bytes the sponge has absorbed, with the operations of the code;
  * `absorbed_eq` -- after a domain and a list of fields they are a stream in which the length of
    every string stands before it;
  * `challengeInput_inj` -- what the first challenge is made from determines the domain, the
    fields and the label of the challenge, as long as no label comes near 2^63 bytes: the tag
    before a challenge is no field because it is too large a length.
-/
import Specter.Lib.Framing
import Specter.Primitives.Suite

namespace Specter

open Lib

variable {S P : Type} [Field S] [AddCommGroup P] [Module S P]

namespace Fold

/-! ## 1. The transcript -/

/-- `(n as u64).to_le_bytes()`, for a length. -/
def lenLE (n : Nat) : Bytes := le64 (UInt64.ofNat n)

/-- What the sponge has absorbed. -/
structure Transcript where
  absorbed : Bytes

namespace Transcript

def new (domain : Bytes) : Transcript where
  absorbed := ascii "specter-transcript:" ++ lenLE domain.length ++ domain

def absorb (tr : Transcript) (label data : Bytes) : Transcript where
  absorbed := tr.absorbed ++ lenLE label.length ++ label ++ lenLE data.length ++ data

/-- What the sponge has absorbed when a challenge is squeezed. -/
def challengeInput (tr : Transcript) (label : Bytes) : Bytes :=
  tr.absorbed ++ ascii "challenge:" ++ lenLE label.length ++ label

/-- The challenge, and the transcript with the squeezed bytes absorbed again. -/
def challenge (C : Suite S P) (tr : Transcript) (label : Bytes) : S × Transcript :=
  let wide := C.shake256 64 (tr.challengeInput label)
  (C.fromBytesModOrderWide wide, { absorbed := tr.challengeInput label ++ wide.toList })

/-- The transcript after a domain and fields. -/
def ofScript {bound : Nat} (s : Script UInt8 bound) : Transcript :=
  s.fields.foldl (fun tr f => tr.absorb f.1 f.2) (new s.domain)

end Transcript

/-! ## 2. What it feeds to the hash -/

theorem length_lenLE (n : Nat) : (lenLE n).length = 8 := length_le64 _

/-- The length of a string that a buffer can hold is read back. -/
theorem lenLE_delimits {bound : Nat} (hbound : bound ≤ 2 ^ 64) : Delimits lenLE (· < bound) := by
  refine Delimits.of_width length_lenLE fun m n hm hn h => ?_
  have hword := congrArg UInt64.toNat (le64_inj h)
  have hnat : ∀ k < bound, (UInt64.ofNat k).toNat = k := fun k hk =>
    UInt64.toNat_ofNat_of_lt' (Nat.lt_of_lt_of_le hk hbound)
  rwa [hnat m hm, hnat n hn] at hword

namespace Transcript

theorem absorb_absorbed (tr : Transcript) (f : Bytes × Bytes) :
    (tr.absorb f.1 f.2).absorbed = tr.absorbed ++ Script.field lenLE f := by
  simp only [absorb, Script.field, framed, List.append_assoc]

/-- **A script is absorbed as its stream.** -/
theorem absorbed_eq {bound : Nat} (s : Script UInt8 bound) :
    (ofScript s).absorbed = s.stream lenLE (ascii "specter-transcript:") := by
  unfold ofScript
  rw [foldl_flatMap_of_append Transcript.absorbed absorb_absorbed]
  simp only [new, Script.stream, framed, List.append_assoc]

/-- Read as a length, the tag before a challenge is beyond 2^62. -/
theorem challenge_tag_ne_field {f : Bytes × Bytes} (hf : f.1.length < 2 ^ 62) (rest z : Bytes) :
    ascii "challenge:" ++ rest ≠ Script.field lenLE f ++ z := by
  intro h
  have htag : ascii "challenge:" = ascii "challeng" ++ ascii "e:" := by decide
  unfold Script.field framed at h
  simp only [htag, List.append_assoc] at h
  have hlen := (List.append_inj h (by rw [length_lenLE]; rfl)).1
  have hread : ofLE (lenLE f.1.length) = f.1.length := by
    have hlt : f.1.length < 2 ^ 64 := by omega
    unfold lenLE le64
    rw [UInt64.toNat_ofNat_of_lt' hlt, ofLE_leBytes, Nat.mod_eq_of_lt (by omega)]
  have hvalue : ofLE (ascii "challeng") = 7453005949693945955 := by decide
  rw [← hlen, hvalue] at hread
  omega

/-- **What the first challenge is made from** determines the script and the label. -/
theorem challengeInput_inj {s s' : Script UInt8 (2 ^ 62)} {label label' : Bytes}
    (hl : label.length < 2 ^ 64) (hl' : label'.length < 2 ^ 64)
    (h : (ofScript s).challengeInput label = (ofScript s').challengeInput label') :
    (s.domain = s'.domain ∧ s.fields = s'.fields) ∧ label = label' := by
  unfold challengeInput at h
  rw [absorbed_eq, absorbed_eq] at h
  simp only [List.append_assoc] at h
  obtain ⟨hscript, htail⟩ := Script.stream_append_inj (lenLE_delimits (by omega))
    (fun f z hf => challenge_tag_ne_field hf.1 _ z)
    (fun f z hf => challenge_tag_ne_field hf.1 _ z) h
  have hframe : framed lenLE label = framed lenLE label' := List.append_cancel_left htail
  exact ⟨hscript, (lenLE_delimits le_rfl).framed.inj hl hl' hframe⟩

end Transcript

end Fold

end Specter
