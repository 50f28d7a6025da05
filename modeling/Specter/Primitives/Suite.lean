/-
  File:      Specter/Primitives/Suite.lean
  Subject:   WHAT THE PROTOCOL TAKES FROM curve25519-dalek, sha2 AND sha3, as one parameter.

  Scalars are a field `S`, Ristretto points a module `P` over it; the rest of the three crates
  is the structure `Suite`: the base point, the byte encodings and the hash functions, together
  with the documented facts the code relies on (`compress` can be undone by `decompress`,
  `as_bytes` by `from_bytes_mod_order`, and the group order exceeds every `u64`). Nothing is
  assumed of the hash functions here; a result that needs one to be free of collisions says so,
  for the inputs it is about.

  * `Suite.hashToScalar` -- SHA-512 reduced to a scalar, the shape of every challenge;
  * `Suite.compress_inj`, `Suite.asBytes_inj` -- comparing encodings compares the values;
  * `sampleSuite` -- a suite that evaluates, over the prime field of order `2 ^ 89 - 1`.
-/
import Mathlib.Algebra.Module.Prod
import Mathlib.Data.ZMod.Basic
import Mathlib.NumberTheory.LucasLehmer
import Specter.Lib.Bytes
import Specter.Lib.Sigma

namespace Specter

open Lib

abbrev Bytes32 := ByteArr 32
abbrev Bytes64 := ByteArr 64

/-- `[0u8; 32]`. -/
def zero32 : Bytes32 := List.Vector.replicate 32 0

/-- The group, its encodings and the hash functions. -/
structure Suite (S P : Type) [Field S] [AddCommGroup P] [Module S P] where
  /-- `RISTRETTO_BASEPOINT_POINT`. -/
  G : P
  compress : P → Bytes32
  decompress : Bytes32 → Option P
  /-- `Scalar::as_bytes`. -/
  asBytes : S → Bytes32
  fromBytesModOrder : Bytes32 → S
  fromBytesModOrderWide : Bytes64 → S
  /-- `RistrettoPoint::from_uniform_bytes`. -/
  fromUniformBytes : Bytes64 → P
  sha256 : Bytes → Bytes32
  sha512 : Bytes → Bytes64
  /-- SHAKE-256, read for `n` bytes. -/
  shake256 : (n : Nat) → Bytes → ByteArr n
  decompress_compress : ∀ p, decompress (compress p) = some p
  fromBytesModOrder_asBytes : ∀ s, fromBytesModOrder (asBytes s) = s
  u64_inj : ∀ a b : UInt64, (a.toNat : S) = (b.toNat : S) → a = b

namespace Suite

variable {S P : Type} [Field S] [AddCommGroup P] [Module S P] (C : Suite S P)

/-- `Scalar::from_bytes_mod_order_wide(SHA-512(data))`. -/
def hashToScalar (data : Bytes) : S := C.fromBytesModOrderWide (C.sha512 data)

/-- `scalar_from_u64`. -/
def scalarFromU64 (v : UInt64) : S := (v.toNat : S)

theorem compress_inj {p q : P} : C.compress p = C.compress q ↔ p = q := by
  refine ⟨fun h => ?_, fun h => h ▸ rfl⟩
  have e := congrArg C.decompress h
  rw [C.decompress_compress, C.decompress_compress] at e
  exact Option.some.inj e

theorem asBytes_inj {s t : S} : C.asBytes s = C.asBytes t ↔ s = t := by
  refine ⟨fun h => ?_, fun h => h ▸ rfl⟩
  have e := congrArg C.fromBytesModOrder h
  rwa [C.fromBytesModOrder_asBytes, C.fromBytesModOrder_asBytes] at e

end Suite

/-! ## A suite that evaluates -/

/-- What a closed example reads off an evaluated result. -/
theorem ok_of_toOption {ε α : Type} {x : Except ε α} {a : α} (h : x.toOption = some a) :
    x = .ok a := by
  cases x with
  | error e => cases h
  | ok b => cases h; rfl

/-- The Mersenne prime `2 ^ 89 - 1`. -/
abbrev sampleOrder : Nat := 618970019642690137449562111

theorem prime_sampleOrder : sampleOrder.Prime := by
  have h := lucas_lehmer_sufficiency 89 (by norm_num) (by norm_num)
  have e : sampleOrder = mersenne 89 := by decide +kernel
  rw [e]
  exact h

instance : Fact sampleOrder.Prime := ⟨prime_sampleOrder⟩

abbrev SampleScalar := ZMod sampleOrder
abbrev SamplePoint := SampleScalar × SampleScalar

/-- Numerals of the sample field are casts, with no side condition to prove. -/
instance (n : Nat) : OfNat SampleScalar (n + 2) := ⟨((n + 2 : Nat) : SampleScalar)⟩

/-- A polynomial digest: no collision among the few inputs a closed example hashes. -/
def sampleDigest (base n : Nat) (data : Bytes) : ByteArr n :=
  leArr n (data.foldl (fun acc b => (acc * base + b.toNat + 1) % 2 ^ 256) 0)

def sampleCompress (p : SamplePoint) : Bytes32 :=
  ⟨leBytes 16 p.1.val ++ leBytes 16 p.2.val, by simp⟩

def sampleDecompress (b : Bytes32) : Option SamplePoint :=
  let x := ofLE (b.toList.take 16)
  let y := ofLE (b.toList.drop 16)
  if x < sampleOrder ∧ y < sampleOrder then some (x, y) else none

theorem sampleScalar_lt (x : SampleScalar) : x.val < 256 ^ 16 :=
  lt_trans (ZMod.val_lt x) (by norm_num)

theorem sampleDecompress_compress (p : SamplePoint) :
    sampleDecompress (sampleCompress p) = some p := by
  have hx : ofLE ((sampleCompress p).toList.take 16) = p.1.val := by
    show ofLE ((leBytes 16 p.1.val ++ leBytes 16 p.2.val).take 16) = _
    rw [List.take_left' (length_leBytes 16 _), ofLE_leBytes,
      Nat.mod_eq_of_lt (sampleScalar_lt p.1)]
  have hy : ofLE ((sampleCompress p).toList.drop 16) = p.2.val := by
    show ofLE ((leBytes 16 p.1.val ++ leBytes 16 p.2.val).drop 16) = _
    rw [List.drop_left' (length_leBytes 16 _), ofLE_leBytes,
      Nat.mod_eq_of_lt (sampleScalar_lt p.2)]
  unfold sampleDecompress
  rw [hx, hy]
  simp only [ZMod.val_lt, and_self, if_true, ZMod.natCast_val, ZMod.cast_id', id_eq]

def sampleSuite : Suite SampleScalar SamplePoint where
  G := (1, 0)
  compress := sampleCompress
  decompress := sampleDecompress
  asBytes s := leArr 32 s.val
  fromBytesModOrder b := (ofLE b.toList : SampleScalar)
  fromBytesModOrderWide b := (ofLE b.toList : SampleScalar)
  fromUniformBytes b :=
    ((ofLE b.toList : SampleScalar), ((ofLE b.toList / sampleOrder : Nat) : SampleScalar))
  sha256 := sampleDigest 257 32
  sha512 := sampleDigest 263 64
  shake256 := sampleDigest 269
  decompress_compress := sampleDecompress_compress
  fromBytesModOrder_asBytes s := by
    show ((ofLE (leArr 32 s.val).toList : Nat) : SampleScalar) = s
    rw [ofLE_leArr (lt_trans (ZMod.val_lt s) (by norm_num))]
    exact ZMod.natCast_zmod_val s
  u64_inj a b h := by
    have hlt : ∀ c : UInt64, c.toNat < sampleOrder := fun c =>
      lt_trans c.toNat_lt (by norm_num)
    have e := congrArg ZMod.val h
    rw [ZMod.val_natCast, ZMod.val_natCast, Nat.mod_eq_of_lt (hlt a),
      Nat.mod_eq_of_lt (hlt b)] at e
    exact UInt64.toNat_inj.mp e

end Specter
