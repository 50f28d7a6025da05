/-
  File:      Specter/Core/Token.lean
  Subject:   THE PROOF-CARRYING TOKEN AND THE NULLIFIER SET (specter-core/src/token.rs,
             nullifier.rs; `build_signed_message` of mint.rs).

  * `ProofCarryingToken` -- the sixteen fields of a token;
  * `NullifierSet` -- the in-memory set (`file: None`); `insert` answers and returns the set;
  * `insert_true`, `insert_false` -- what an answer says about the set before and after;
  * `buildSignedMessage_inj` -- the message the mint signs determines its three fields.
-/
import Mathlib.Data.Finset.Insert
import Specter.BlindSig.SchnorrBlind
import Specter.Credential.Presentation
import Specter.Fold.Accumulator
import Specter.Offline.Vdf

namespace Specter

open Lib

variable {S P : Type} [Field S] [AddCommGroup P] [Module S P]

/-! ## 1. Nullifiers -/

def computeNullifier (C : Suite S P) (secret tokenId : Bytes32) : Bytes32 :=
  C.shake256 32 (ascii "specter-nullifier:" ++ secret.toList ++ tokenId.toList)

/-- The spent nullifiers of a set without a backing file. -/
structure NullifierSet where
  nullifiers : Finset Bytes32
  deriving DecidableEq

namespace NullifierSet

protected def new : NullifierSet := ⟨∅⟩

/-- `insert`: `true` for a new nullifier, `false` for one already present. -/
def insert (ns : NullifierSet) (nullifier : Bytes32) : Bool × NullifierSet :=
  if nullifier ∈ ns.nullifiers then (false, ns)
  else (true, ⟨Insert.insert nullifier ns.nullifiers⟩)

def contains (ns : NullifierSet) (nullifier : Bytes32) : Bool :=
  decide (nullifier ∈ ns.nullifiers)

theorem insert_true {ns ns' : NullifierSet} {n : Bytes32} (h : ns.insert n = (true, ns')) :
    n ∉ ns.nullifiers ∧ ns'.nullifiers = Insert.insert n ns.nullifiers := by
  unfold insert at h
  by_cases hn : n ∈ ns.nullifiers
  · rw [if_pos hn] at h
    cases h
  · rw [if_neg hn] at h
    cases h
    exact ⟨hn, rfl⟩

theorem insert_false {ns ns' : NullifierSet} {n : Bytes32} (h : ns.insert n = (false, ns')) :
    n ∈ ns.nullifiers ∧ ns' = ns := by
  unfold insert at h
  by_cases hn : n ∈ ns.nullifiers
  · rw [if_pos hn] at h
    cases h
    exact ⟨hn, rfl⟩
  · rw [if_neg hn] at h
    cases h

end NullifierSet

/-! ## 2. Tokens -/

structure ProofCarryingToken (S P : Type) where
  tokenId : Bytes32
  value : UInt64
  valueCommitment : P
  valueProof : ValueProof S P
  mintSignature : BlindSignature S
  ownerSecret : Bytes32
  hashChainHead : Bytes32
  transferCount : UInt32
  recursionBound : UInt32
  foldProof : AccumulatedProof S P
  genesisOwnerHash : Bytes32
  credential : Option (Credential S P)
  presentation : Option (Presentation S P)
  vdfProof : Option VdfProof
  bondOwnerId : Option Bytes32
  credentialPool : List (Credential S P × Presentation S P)

/-- Equality of tokens, field by field. -/
instance [DecidableEq S] [DecidableEq P] : DecidableEq (ProofCarryingToken S P) := fun a b =>
  decidable_of_iff
    ((a.tokenId = b.tokenId ∧ a.value = b.value ∧ a.valueCommitment = b.valueCommitment ∧
      a.valueProof = b.valueProof ∧ a.mintSignature = b.mintSignature ∧
      a.ownerSecret = b.ownerSecret ∧ a.hashChainHead = b.hashChainHead ∧
      a.transferCount = b.transferCount) ∧
      a.recursionBound = b.recursionBound ∧ a.foldProof = b.foldProof ∧
      a.genesisOwnerHash = b.genesisOwnerHash ∧ a.credential = b.credential ∧
      a.presentation = b.presentation ∧ a.vdfProof = b.vdfProof ∧
      a.bondOwnerId = b.bondOwnerId ∧ a.credentialPool = b.credentialPool)
    (by
      constructor
      · obtain ⟨⟩ := a
        obtain ⟨⟩ := b
        intro ⟨⟨h1, h2, h3, h4, h5, h6, h7, h8⟩, h9, h10, h11, h12, h13, h14, h15, h16⟩
        dsimp only at *
        subst h1 h2 h3 h4 h5 h6 h7 h8 h9 h10 h11 h12 h13 h14 h15 h16
        rfl
      · intro h
        subst h
        exact ⟨⟨rfl, rfl, rfl, rfl, rfl, rfl, rfl, rfl⟩, rfl, rfl, rfl, rfl, rfl, rfl, rfl, rfl⟩)

/-- The message the mint signs: `token_id || value_commitment || genesis_owner_pk_hash`. -/
def buildSignedMessage (C : Suite S P) (tokenId : Bytes32) (valueCommitment : P)
    (genesisOwnerPkHash : Bytes32) : Bytes :=
  tokenId.toList ++ (C.compress valueCommitment).toList ++ genesisOwnerPkHash.toList

def advanceHashChain (C : Suite S P) (currentHead : Bytes32) (newData : Bytes) : Bytes32 :=
  C.shake256 32 (ascii "specter-hash-chain:" ++ currentHead.toList ++ newData)

namespace ProofCarryingToken

variable (t : ProofCarryingToken S P)

def needsRenewal : Bool := decide (t.transferCount ≥ t.recursionBound)

def computeNullifier (C : Suite S P) : Bytes32 :=
  Specter.computeNullifier C t.ownerSecret t.tokenId

def signedMessage (C : Suite S P) : Bytes :=
  buildSignedMessage C t.tokenId t.valueCommitment t.genesisOwnerHash

end ProofCarryingToken

theorem buildSignedMessage_inj {C : Suite S P} {id id' : Bytes32} {com com' : P}
    {pkh pkh' : Bytes32}
    (h : buildSignedMessage C id com pkh = buildSignedMessage C id' com' pkh') :
    id = id' ∧ com = com' ∧ pkh = pkh' := by
  unfold buildSignedMessage at h
  rw [List.append_assoc, List.append_assoc] at h
  obtain ⟨hid, hrest⟩ := append_inj_arr h
  obtain ⟨hcom, hpkh⟩ := append_inj_arr hrest
  exact ⟨hid, C.compress_inj.mp hcom, List.Vector.eq _ _ hpkh⟩

end Specter
