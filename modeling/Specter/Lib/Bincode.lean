/-
  File:      Specter/Lib/Bincode.lean
  Subject:   THE BINCODE FORMAT with fixed-width little-endian lengths, for byte strings, strings,
             options and lists. No program fact.

  * `takeBytes`, `length`, `bytes`, `string`, `option`, `list` -- the decoders;
  * `encBytes`, `encString`, `encOption`, `encList` -- the encoders, and `reads_bytes`,
    `reads_string`, `reads_option`, `reads_list` the round trips.
-/
import Specter.Lib.Reader
import Specter.Lib.Utf8

namespace Lib

namespace Bincode

open Reader

inductive Error where
  | unexpectedEnd
  | invalidUtf8
  | invalidTag (tag : Nat)
  deriving DecidableEq

variable {α : Type}

/-- Strict decoding: the bytes of a string, and of no other. -/
def fromUtf8 (bs : Bytes) : Option String :=
  let s := fromUtf8Lossy bs
  if utf8Bytes s = bs then some s else none

def takeBytes (n : Nat) : Reader Error Bytes := fun data pos =>
  if pos + n > data.length then .error .unexpectedEnd
  else .ok ((data.drop pos).take n, pos + n)

/-- A length, or a `u64`. -/
def length : Reader Error Nat := do
  let bs ← takeBytes 8
  pure (ofLE bs)

def bytes : Reader Error Bytes := do
  let n ← length
  takeBytes n

def string : Reader Error String := do
  let bs ← bytes
  ofOption (fromUtf8 bs) fun _ => .invalidUtf8

def option (read : Reader Error α) : Reader Error (Option α) := do
  let tag ← takeBytes 1
  if tag = [0] then pure none
  else if tag = [1] then
    let a ← read
    pure (some a)
  else throw (.invalidTag (ofLE tag))

def list (read : Reader Error α) : Reader Error (List α) := do
  let n ← length
  replicateM read n

def encLength (n : Nat) : Bytes := leBytes 8 n

def encBytes (bs : Bytes) : Bytes := encLength bs.length ++ bs

def encString (s : String) : Bytes := encBytes (utf8Bytes s)

def encOption (enc : α → Bytes) : Option α → Bytes
  | none => [0]
  | some a => 1 :: enc a

def encList (enc : α → Bytes) (as : List α) : Bytes := encLength as.length ++ as.flatMap enc

@[simp] theorem length_encLength (n : Nat) : (encLength n).length = 8 := length_leBytes 8 n

@[simp] theorem length_encBytes (bs : Bytes) : (encBytes bs).length = 8 + bs.length := by
  simp [encBytes]

@[simp] theorem length_encString (s : String) :
    (encString s).length = 8 + (utf8Bytes s).length :=
  length_encBytes _

theorem reads_takeBytes (bs : Bytes) : Reads (takeBytes bs.length) bs bs := by
  intro data pos rest h
  have hlen := h.length
  rw [List.length_append] at hlen
  show (if pos + bs.length > data.length then _ else _) = _
  rw [if_neg (by omega), h.drop, List.take_left]

theorem reads_length {n : Nat} (h : n < 2 ^ 64) : Reads length (encLength n) n := by
  have hmap := Reads.map (f := ofLE) (reads_takeBytes (encLength n))
  unfold encLength at hmap
  rw [length_leBytes, ofLE_leBytes, Nat.mod_eq_of_lt (by simpa using h)] at hmap
  exact hmap

theorem reads_bytes {bs : Bytes} (h : bs.length < 2 ^ 64) : Reads bytes (encBytes bs) bs :=
  Reads.bind (reads_length h) (reads_takeBytes bs)

theorem fromUtf8_utf8Bytes (s : String) : fromUtf8 (utf8Bytes s) = some s := by
  unfold fromUtf8
  rw [fromUtf8Lossy_utf8Bytes]
  exact if_pos rfl

theorem reads_string {s : String} (h : (utf8Bytes s).length < 2 ^ 64) :
    Reads string (encString s) s := by
  have hbind := Reads.bind (f := fun bs => ofOption (fromUtf8 bs) fun _ => Error.invalidUtf8)
    (reads_bytes h) (Reads.ofOption (fromUtf8_utf8Bytes s))
  rwa [List.append_nil] at hbind

theorem reads_option {read : Reader Error α} {enc : α → Bytes} {o : Option α}
    (h : ∀ a ∈ o, Reads read (enc a) a) : Reads (option read) (encOption enc o) o := by
  cases o with
  | none => exact Reads.bind (reads_takeBytes [0]) (Reads.pure none)
  | some a => exact Reads.bind (reads_takeBytes [1]) (Reads.map (h a rfl))

theorem reads_list {read : Reader Error α} {enc : α → Bytes} {as : List α}
    (hlen : as.length < 2 ^ 64) (h : ∀ a ∈ as, Reads read (enc a) a) :
    Reads (list read) (encList enc as) as :=
  Reads.bind (reads_length hlen) (Reads.replicateM as h)

end Bincode

end Lib
