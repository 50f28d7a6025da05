/-
  File:      Specter/Net/Divergence.lean
  Subject:   HONEST CHAINS AND WHERE THEY PART (specter-net/src/attestation.rs).

  A chain built by `add_transfer` from an empty one is fixed by its token and the calls, the
  nonces of the signatures aside: the hash of an attestation does not cover its signature.

  * `attested`, `addTransfers_eq` -- the attestations the calls add, place by place;
  * `forks_attested` -- where two lists of calls first part, so do the hashes;
  * `divergence_exact` -- honest chains pass, two beginnings of one chain are consistent, and two
    chains conflict at exactly the place of their first different calls.
-/
import Specter.Net.Attestation

namespace Specter

open Lib

variable {S P : Type} [Field S] [AddCommGroup P] [Module S P] {C : Suite S P}

/-! ## 1. The attestations of a list of calls -/

/-- What the attestation says of a call. -/
def TransferCall.content (C : Suite S P) (c : TransferCall S) : Bytes32 × P × Bytes32 :=
  (c.senderHash, c.senderSecret • C.G, c.receiverHash)

namespace AttestationChain

/-- The attestations the calls add from position `i` on, after one with the hash `prev`. -/
def attested (C : Suite S P) (tokenId : Bytes32) :
    Nat → Bytes32 → List (TransferCall S) → List (Attestation S P)
  | _, _, [] => []
  | i, prev, c :: calls =>
      let att := Attestation.newSigned C tokenId c.senderHash c.senderSecret
        (c.senderSecret • C.G) c.receiverHash (UInt32.ofNat i) prev c.nonce
      att :: attested C tokenId (i + 1) att.hash calls

theorem attested_cons (C : Suite S P) {tokenId : Bytes32} {i : Nat} {prev : Bytes32}
    (c : TransferCall S) (calls : List (TransferCall S)) :
    attested C tokenId i prev (c :: calls) =
      Attestation.newSigned C tokenId c.senderHash c.senderSecret (c.senderSecret • C.G)
        c.receiverHash (UInt32.ofNat i) prev c.nonce ::
      attested C tokenId (i + 1) (Attestation.computeHash C tokenId c.senderHash
        (c.senderSecret • C.G) c.receiverHash (UInt32.ofNat i) prev) calls := rfl

/-- **The calls fix the chain**: the same token, and their attestations at the end, as long as
    the positions are machine words. -/
theorem addTransfers_eq {calls : List (TransferCall S)} {chain chain' : AttestationChain S P}
    (hlen : chain.attestations.length ≤ 2 ^ 32) (h : chain.addTransfers C calls = .ok chain') :
    chain'.tokenId = chain.tokenId ∧ chain'.attestations.length ≤ 2 ^ 32 ∧
      chain'.attestations = chain.attestations ++
        attested C chain.tokenId chain.attestations.length chain.lastHash calls := by
  induction calls generalizing chain with
  | nil =>
      cases h
      exact ⟨rfl, hlen, (List.append_nil _).symm⟩
  | cons c calls ih =>
      rw [addTransfers] at h
      unfold addTransfer at h
      by_cases hroom : chain.attestations.length < 2 ^ 32
      · rw [if_pos hroom] at h
        obtain ⟨htok, hlen', hatts⟩ := ih (by simpa using hroom) h
        refine ⟨htok, hlen', ?_⟩
        rw [hatts, attested, List.append_assoc, List.singleton_append]
        unfold lastHash
        rw [List.length_append, List.getLast?_concat]
        rfl
      · rw [if_neg hroom] at h
        cases h

/-- A chain the calls extend keeps passing. -/
theorem addTransfers_integrity {calls : List (TransferCall S)} {chain chain' : AttestationChain S P}
    (hchain : chain.verifyIntegrity C = true) (h : chain.addTransfers C calls = .ok chain') :
    chain'.verifyIntegrity C = true := by
  induction calls generalizing chain with
  | nil =>
      cases h
      exact hchain
  | cons c calls ih =>
      rw [addTransfers] at h
      cases hadd : chain.addTransfer C c.senderHash c.senderSecret (c.senderSecret • C.G)
          c.receiverHash c.nonce with
      | error e =>
          rw [hadd] at h
          cases h
      | ok next =>
          rw [hadd] at h
          exact ih (addTransfer_integrity hchain hadd) h

/-- A chain from an empty one is its calls' attestations, in machine words. -/
theorem addTransfers_new {tokenId : Bytes32} {calls : List (TransferCall S)}
    {chain : AttestationChain S P}
    (h : (AttestationChain.new tokenId).addTransfers C calls = .ok chain) :
    chain.tokenId = tokenId ∧ chain.attestations.length ≤ 2 ^ 32 ∧
      chain.attestations = attested C tokenId 0 zero32 calls :=
  addTransfers_eq (Nat.zero_le _) h

end AttestationChain

/-! ## 2. Where the hashes part -/

namespace AttestationChain

variable {tokenId : Bytes32}

/-- **The first different calls are the first different hashes.** Calls with one content at one
    position after one hash give one hash; with two contents they give two. -/
theorem forks_attested {as bs : List (TransferCall S)} {p : Nat} {c d : TransferCall S}
    (h : Forks (TransferCall.content C) as bs p c d) :
    ∀ {i : Nat} {prev : Bytes32},
      Attestation.NoCollision C (attested C tokenId i prev as) (attested C tokenId i prev bs) →
      ∃ a b, a.senderHash = c.senderHash ∧
        Forks (·.hash) (attested C tokenId i prev as) (attested C tokenId i prev bs) p a b := by
  induction as generalizing bs p with
  | nil => cases h.left
  | cons x as ih =>
      cases bs with
      | nil => cases h.right
      | cons y bs =>
          intro i prev hno
          cases p with
          | zero =>
              cases h.left
              cases h.right
              refine ⟨_, _, rfl, rfl, rfl, fun hhash => h.differ ?_, fun j hj => ?_⟩
              · exact Attestation.hashed_inj
                  (hno _ List.mem_cons_self _ List.mem_cons_self hhash)
              · exact absurd hj (Nat.not_lt_zero j)
          | succ p =>
              have hsame : TransferCall.content C x = TransferCall.content C y :=
                Option.some.inj (h.same 0 (Nat.zero_lt_succ p))
              obtain ⟨hsender, hrest⟩ := Prod.mk.inj hsame
              obtain ⟨hkey, hreceiver⟩ := Prod.mk.inj hrest
              have hhash : Attestation.computeHash C tokenId y.senderHash (y.senderSecret • C.G)
                  y.receiverHash (UInt32.ofNat i) prev =
                  Attestation.computeHash C tokenId x.senderHash (x.senderSecret • C.G)
                  x.receiverHash (UInt32.ofNat i) prev := by
                rw [hsender, hkey, hreceiver]
              -- the next attestations name one hash
              rw [attested_cons C x, attested_cons C y, hhash] at hno ⊢
              obtain ⟨a, b, hcheater, hfork⟩ := ih ((forks_cons_succ hsame).mp h)
                fun a ha b hb => hno a (List.mem_cons_of_mem _ ha) b (List.mem_cons_of_mem _ hb)
              exact ⟨a, b, hcheater, (forks_cons_succ hhash.symm).mpr hfork⟩

end AttestationChain

/-! ## 3. Honest chains -/

/-- **Honest chains and their divergence.** Every chain that calls of `add_transfer` under the
    senders' own keys build from an empty one passes `verify_integrity`, and two beginnings of it
    are consistent. Two such chains of one token, whose hashes do not collide, conflict at exactly
    the position of the first calls that differ in sender, key or receiver, and the sender the
    first chain names there is blamed, whatever follows in either. -/
theorem divergence_exact (C : Suite S P) :
    (∀ tokenId calls chain, (AttestationChain.new tokenId).addTransfers C calls = .ok chain →
      chain.verifyIntegrity C = true ∧
      ∀ A B : AttestationChain S P, A.tokenId = tokenId → B.tokenId = tokenId →
        A.attestations <+: chain.attestations → B.attestations <+: chain.attestations →
        detectDoubleSpend A B = .consistent) ∧
    ∀ tokenId callsA callsB A B,
      (AttestationChain.new tokenId).addTransfers C callsA = .ok A →
      (AttestationChain.new tokenId).addTransfers C callsB = .ok B →
      Attestation.NoCollision C A.attestations B.attestations →
      ∀ p c d, Forks (TransferCall.content C) callsA callsB p c d →
        ∃ q : UInt32, q.toNat = p ∧ detectDoubleSpend A B = .conflict q c.senderHash := by
  constructor
  · intro tokenId calls chain hchain
    refine ⟨AttestationChain.addTransfers_integrity rfl hchain, fun A B hA hB hpreA hpreB => ?_⟩
    unfold detectDoubleSpend
    rw [if_neg (fun hne => hne (hA.trans hB.symm)), firstFork_prefix hpreA hpreB]
  · intro tokenId callsA callsB A B hA hB hno p c d hfork
    obtain ⟨htokA, hlenA, hattsA⟩ := AttestationChain.addTransfers_new hA
    obtain ⟨htokB, _, hattsB⟩ := AttestationChain.addTransfers_new hB
    rw [hattsA, hattsB] at hno
    obtain ⟨a, b, hsender, hhashes⟩ := AttestationChain.forks_attested hfork hno
    rw [← hattsA, ← hattsB] at hhashes
    have hp : p < 2 ^ 32 :=
      Nat.lt_of_lt_of_le (List.getElem?_eq_some_iff.mp hhashes.left).1 hlenA
    refine ⟨UInt32.ofNat p, UInt32.toNat_ofNat_of_lt' hp, ?_⟩
    exact detectDoubleSpend_conflict.mpr
      ⟨htokA.trans htokB.symm, p, a, b, hhashes, rfl, hsender⟩

/-- Sender 1 hands the token to 2. Then 2 hands it to 3 and, in the other chain, with other nonces
    and one transfer more, to 4: the conflict is at position 1, and 2 is blamed. -/
theorem divergence_exact_second_call :
    ∃ A B, (AttestationChain.new (leArr 32 7)).addTransfers sampleSuite
        [⟨leArr 32 1, 11, leArr 32 2, 5⟩, ⟨leArr 32 2, 12, leArr 32 3, 6⟩] = .ok A ∧
      (AttestationChain.new (leArr 32 7)).addTransfers sampleSuite
        [⟨leArr 32 1, 11, leArr 32 2, 8⟩, ⟨leArr 32 2, 12, leArr 32 4, 9⟩,
          ⟨leArr 32 4, 14, leArr 32 5, 10⟩] = .ok B ∧
      A.verifyIntegrity sampleSuite = true ∧
      ∃ q : UInt32, q.toNat = 1 ∧ detectDoubleSpend A B = .conflict q (leArr 32 2) := by
  obtain ⟨A, hA, _⟩ := AttestationChain.addTransfers_ok (C := sampleSuite)
    [⟨leArr 32 1, 11, leArr 32 2, 5⟩, ⟨leArr 32 2, 12, leArr 32 3, 6⟩]
    (AttestationChain.new (leArr 32 7)) rfl (by decide)
  obtain ⟨B, hB, _⟩ := AttestationChain.addTransfers_ok (C := sampleSuite)
    [⟨leArr 32 1, 11, leArr 32 2, 8⟩, ⟨leArr 32 2, 12, leArr 32 4, 9⟩,
      ⟨leArr 32 4, 14, leArr 32 5, 10⟩] (AttestationChain.new (leArr 32 7)) rfl (by decide)
  have hno : Attestation.NoCollision sampleSuite A.attestations B.attestations := by
    rw [(AttestationChain.addTransfers_new hA).2.2, (AttestationChain.addTransfers_new hB).2.2]
    unfold Attestation.NoCollision
    decide +kernel
  have hcontent : TransferCall.content sampleSuite ⟨leArr 32 2, 12, leArr 32 3, 6⟩ ≠
      TransferCall.content sampleSuite ⟨leArr 32 2, 12, leArr 32 4, 9⟩ := by
    decide +kernel
  obtain ⟨hhonest, hpart⟩ := divergence_exact sampleSuite
  refine ⟨A, B, hA, hB, (hhonest _ _ A hA).1, hpart _ _ _ A B hA hB hno 1
    ⟨leArr 32 2, 12, leArr 32 3, 6⟩ _ ⟨rfl, rfl, hcontent, fun j hj => ?_⟩⟩
  rw [Nat.lt_one_iff.mp hj]
  rfl

end Specter
