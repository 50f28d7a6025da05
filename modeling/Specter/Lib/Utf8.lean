/-
  File:      Specter/Lib/Utf8.lean
  Subject:   STRINGS AS UTF-8 BYTES, AND THE LOSSY DECODER. No program fact.

  * `utf8Bytes` -- the encoding of a string;
  * `fromUtf8Lossy` -- decoding that never fails: what is no character becomes U+FFFD, one for
    each longest run of bytes that could have begun a character;
  * `fromUtf8Lossy_utf8Bytes` -- the round trip;
  * `length_utf8Bytes_fromUtf8Lossy` -- a decoded string without U+FFFD is no longer than the
    bytes it was read from.
-/
import Specter.Lib.Bytes

namespace Lib

/-- `str::as_bytes`. -/
def utf8Bytes (s : String) : Bytes := s.toList.flatMap String.utf8EncodeChar

/-- The character the bytes begin with. -/
def decodeChar (bs : Bytes) : Option Char := bs.toByteArray.utf8DecodeChar? 0

def isContinuation (b : UInt8) : Bool := 0x80 ≤ b && b ≤ 0xBF

/-- Whether `b` may follow the first byte of a character of three bytes. -/
def secondOfThree (first b : UInt8) : Bool :=
  if first == 0xE0 then 0xA0 ≤ b && b ≤ 0xBF
  else if first == 0xED then 0x80 ≤ b && b ≤ 0x9F
  else isContinuation b

/-- Whether `b` may follow the first byte of a character of four bytes. -/
def secondOfFour (first b : UInt8) : Bool :=
  if first == 0xF0 then 0x90 ≤ b && b ≤ 0xBF
  else if first == 0xF4 then 0x80 ≤ b && b ≤ 0x8F
  else isContinuation b

/-- How many bytes one U+FFFD stands for, where no character begins. -/
def invalidLength : Bytes → Nat
  | first :: second :: rest =>
      if 0xE0 ≤ first ∧ first ≤ 0xEF then
        if secondOfThree first second then 2 else 1
      else if 0xF0 ≤ first ∧ first ≤ 0xF4 then
        if secondOfFour first second then
          match rest with
          | third :: _ => if isContinuation third then 3 else 2
          | [] => 2
        else 1
      else 1
  | _ => 1

/-- The decoder with a bound on its rounds; each round consumes a byte. -/
def lossyChars : Nat → Bytes → List Char
  | 0, _ => []
  | _, [] => []
  | n + 1, b :: bs =>
      match decodeChar (b :: bs) with
      | some c => c :: lossyChars n ((b :: bs).drop c.utf8Size)
      | none => '\uFFFD' :: lossyChars n ((b :: bs).drop (invalidLength (b :: bs)))

/-- `String::from_utf8_lossy`. -/
def fromUtf8Lossy (bs : Bytes) : String := String.ofList (lossyChars bs.length bs)

theorem decodeChar_encode (c : Char) (rest : Bytes) :
    decodeChar (String.utf8EncodeChar c ++ rest) = some c := by
  unfold decodeChar
  rw [List.toByteArray_append]
  exact ByteArray.utf8DecodeChar?_utf8EncodeChar_append

theorem utf8Size_le_of_decodeChar {bs : Bytes} {c : Char} (h : decodeChar bs = some c) :
    c.utf8Size ≤ bs.length := by
  have hle := ByteArray.le_size_of_utf8DecodeChar?_eq_some h
  rw [List.size_toByteArray] at hle
  omega

theorem lossyChars_encode : ∀ (cs : List Char) (n : Nat),
    (cs.flatMap String.utf8EncodeChar).length ≤ n →
      lossyChars n (cs.flatMap String.utf8EncodeChar) = cs
  | [], n, _ => by cases n <;> rfl
  | c :: cs, n, hn => by
      have hlen := String.length_utf8EncodeChar c
      have hpos := c.utf8Size_pos
      rw [List.flatMap_cons, List.length_append, hlen] at hn
      -- the encoding of `c` has a first byte, so a round is spent on it
      obtain ⟨m, rfl⟩ : ∃ m, n = m + 1 := ⟨n - 1, by omega⟩
      obtain ⟨b, bs, hb⟩ : ∃ b bs, (c :: cs).flatMap String.utf8EncodeChar = b :: bs := by
        rw [List.flatMap_cons]
        cases he : String.utf8EncodeChar c with
        | nil => rw [he] at hlen; simp at hlen; omega
        | cons b bs => exact ⟨b, _, rfl⟩
      have hdec : decodeChar (b :: bs) = some c := by
        rw [← hb, List.flatMap_cons]
        exact decodeChar_encode c _
      have hdrop : (b :: bs).drop c.utf8Size = cs.flatMap String.utf8EncodeChar := by
        rw [← hb, List.flatMap_cons, ← hlen, List.drop_left]
      rw [hb, lossyChars, hdec]
      show c :: lossyChars m ((b :: bs).drop c.utf8Size) = c :: cs
      rw [hdrop, lossyChars_encode cs m (by omega)]

/-- **The round trip.** -/
theorem fromUtf8Lossy_utf8Bytes (s : String) : fromUtf8Lossy (utf8Bytes s) = s := by
  unfold fromUtf8Lossy utf8Bytes
  rw [lossyChars_encode s.toList _ (Nat.le_refl _), String.ofList_toList]

theorem length_lossyChars : ∀ (n : Nat) (bs : Bytes), '\uFFFD' ∉ lossyChars n bs →
    ((lossyChars n bs).flatMap String.utf8EncodeChar).length ≤ bs.length
  | 0, bs, _ => by
      rw [lossyChars, List.flatMap_nil]
      exact Nat.zero_le _
  | n + 1, [], _ => Nat.le_refl 0
  | n + 1, b :: bs, h => by
      rw [lossyChars] at h ⊢
      cases hd : decodeChar (b :: bs) with
      | none =>
          rw [hd] at h
          exact absurd List.mem_cons_self h
      | some c =>
          rw [hd] at h
          dsimp only at h ⊢
          have ih := length_lossyChars n ((b :: bs).drop c.utf8Size)
            fun hm => h (List.mem_cons_of_mem _ hm)
          have hsize := utf8Size_le_of_decodeChar hd
          rw [List.length_drop] at ih
          rw [List.flatMap_cons, List.length_append, String.length_utf8EncodeChar]
          omega

/-- **Nothing grows without a U+FFFD**: a decoded string free of it has an encoding no longer
    than the bytes it was read from. -/
theorem length_utf8Bytes_fromUtf8Lossy {bs : Bytes} (h : '\uFFFD' ∉ (fromUtf8Lossy bs).toList) :
    (utf8Bytes (fromUtf8Lossy bs)).length ≤ bs.length := by
  unfold fromUtf8Lossy at h
  unfold utf8Bytes fromUtf8Lossy
  rw [String.toList_ofList] at h ⊢
  exact length_lossyChars _ bs h

/-- A round on bytes that begin no character. -/
theorem lossyChars_none {n : Nat} {b : UInt8} {bs : Bytes} (h : decodeChar (b :: bs) = none) :
    lossyChars (n + 1) (b :: bs) =
      '\uFFFD' :: lossyChars n ((b :: bs).drop (invalidLength (b :: bs))) := by
  rw [lossyChars, h]

theorem lossyChars_nil (n : Nat) : lossyChars n [] = [] := by
  cases n <;> rfl

/-- Bytes that begin no character and still begin the encoding of U+FFFD are a part of it. -/
theorem short_of_prefix_replacement {b : UInt8} {bs rest : Bytes}
    (hd : decodeChar (b :: bs) = none)
    (h : b :: bs <+: String.utf8EncodeChar '\uFFFD' ++ rest) :
    b :: bs = [0xEF] ∨ b :: bs = [0xEF, 0xBF] := by
  have henc : String.utf8EncodeChar '\uFFFD' = [0xEF, 0xBF, 0xBD] := by decide +kernel
  rw [henc] at h
  match bs, hd, h with
  | [], _, h => exact .inl (by simpa using h)
  | [c], _, h =>
      have hbc : b = 0xEF ∧ c = 0xBF := by simpa using h
      exact .inr (by rw [hbc.1, hbc.2])
  | c :: d :: more, hd, h =>
      have hbcd : b = 0xEF ∧ c = 0xBF ∧ d = 0xBD ∧ more <+: rest := by simpa using h
      obtain ⟨rfl, rfl, rfl, _⟩ := hbcd
      have hsome := decodeChar_encode '\uFFFD' more
      rw [henc] at hsome
      exact absurd (hsome.symm.trans hd) (by simp)

theorem length_lossyChars_of_prefix : ∀ (n : Nat) (bs : Bytes), bs.length ≤ n →
    bs <+: (lossyChars n bs).flatMap String.utf8EncodeChar →
      ((lossyChars n bs).flatMap String.utf8EncodeChar).length < bs.length + 3
  | 0, bs, hn, _ => by
      rw [lossyChars, List.flatMap_nil, List.length_nil]
      omega
  | n + 1, [], _, _ => by
      rw [lossyChars_nil, List.flatMap_nil, List.length_nil]
      omega
  | n + 1, b :: bs, hn, h => by
      cases hd : decodeChar (b :: bs) with
      | none =>
          rw [lossyChars_none hd] at h ⊢
          -- only a cut-off U+FFFD looks like the beginning of one, and nothing follows it
          rcases short_of_prefix_replacement hd (by rwa [List.flatMap_cons] at h) with he | he
          · rw [he]
            show (('\uFFFD' :: lossyChars n []).flatMap String.utf8EncodeChar).length < 4
            rw [lossyChars_nil]
            decide +kernel
          · rw [he]
            show (('\uFFFD' :: lossyChars n []).flatMap String.utf8EncodeChar).length < 5
            rw [lossyChars_nil]
            decide +kernel
      | some c =>
          have hround : lossyChars (n + 1) (b :: bs) =
              c :: lossyChars n ((b :: bs).drop c.utf8Size) := by
            rw [lossyChars, hd]
          have hsize := utf8Size_le_of_decodeChar hd
          have hpos := c.utf8Size_pos
          have hlen := String.length_utf8EncodeChar c
          rw [hround, List.flatMap_cons] at h ⊢
          -- the first character is there in full, so the rest of the bytes begins the rest
          obtain ⟨more, hmore⟩ := h
          have hsplit : (b :: bs).take c.utf8Size ++ ((b :: bs).drop c.utf8Size ++ more) =
              String.utf8EncodeChar c ++
                (lossyChars n ((b :: bs).drop c.utf8Size)).flatMap String.utf8EncodeChar := by
            rw [← List.append_assoc, List.take_append_drop, hmore]
          have hrest := (append_inj_fixed
            (by rw [List.length_take, hlen, Nat.min_eq_left hsize]) hsplit).2
          have hdrop : ((b :: bs).drop c.utf8Size).length + c.utf8Size = (b :: bs).length := by
            rw [List.length_drop]
            omega
          have ih := length_lossyChars_of_prefix n ((b :: bs).drop c.utf8Size) (by omega)
            ⟨more, hrest⟩
          rw [List.length_append, hlen]
          omega

/-- **Bytes that begin the encoding of what they decode to** are that encoding, but for at most
    two bytes. -/
theorem length_utf8Bytes_of_prefix {bs : Bytes} (h : bs <+: utf8Bytes (fromUtf8Lossy bs)) :
    (utf8Bytes (fromUtf8Lossy bs)).length < bs.length + 3 := by
  unfold utf8Bytes fromUtf8Lossy at h ⊢
  rw [String.toList_ofList] at h ⊢
  exact length_lossyChars_of_prefix _ bs (Nat.le_refl _) h

example : fromUtf8Lossy [0x45, 0x55, 0xC3, 0xA9, 0xF0, 0x9F, 0x41, 0xFF] = "EUé\uFFFDA\uFFFD" := by
  decide +kernel

end Lib
