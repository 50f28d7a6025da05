/-
  File:      Specter/Net/Gossip.lean
  Subject:   SIGNED NULLIFIER BROADCASTS (specter-net/src/gossip.rs).

  A node keeps the nullifiers it has seen and a bounded queue of messages for each peer. Its own
  broadcasts are signed with its validator key; a received one is checked against the key of the
  validator it names and, when new, passed on to the other peers under the original signature.

  * `verifyNullifierBroadcast_iff` -- the check as an equation between points;
  * `verifyNullifierBroadcast_sign` -- a broadcast signed under a key passes the check for it;
  * `Takes` -- what a received broadcast passes when it is accepted as new;
  * `handleVerifiedBroadcast_cases` -- such a broadcast is answered `Ok(true)` and recorded, any
    other is answered differently and changes nothing;
  * `broadcastNullifierSigned_seen`, `handleVerifiedBroadcast_seen`, `drainMessagesFor_seen` --
    no call takes anything out of the seen set.
-/
import Specter.Net.Consensus

namespace Specter

open Lib

variable {S P : Type} [Field S] [AddCommGroup P] [Module S P]

inductive GossipError where
  | unknownSender (sender : NodeId)
  | invalidSignature (sender : NodeId)
  | atCapacity
  deriving DecidableEq

def GossipError.display : GossipError → String
  | .unknownSender sender => "unknown sender: " ++ toString sender
  | .invalidSignature sender => "invalid signature from sender: " ++ toString sender
  | .atCapacity => "nullifier set at capacity"

/-- `Message::NullifierBroadcast`, the one message the gossip layer queues. -/
structure NullifierBroadcast where
  nullifier : Bytes32
  sender : NodeId
  signatureR : Bytes32
  signatureS : Bytes32
  deriving DecidableEq

/-! ## 1. Signatures -/

def nullifierSigChallenge (C : Suite S P) (r pk : P) (nullifier : Bytes32) (sender : NodeId) : S :=
  C.hashToScalar (ascii "specter-gossip-sig:" ++ (C.compress r).toList ++
    (C.compress pk).toList ++ nullifier.toList ++ le64 sender)

/-- `sign_nullifier_broadcast` with the nonce `k` it draws. -/
def signNullifierBroadcast (C : Suite S P) (nullifier : Bytes32) (sender : NodeId)
    (secretKey : S) (publicKey : P) (k : S) : Bytes32 × Bytes32 :=
  let r := k • C.G
  let e := nullifierSigChallenge C r publicKey nullifier sender
  let s := k + e * secretKey
  (C.compress r, C.asBytes s)

def verifyNullifierBroadcast (C : Suite S P) (nullifier : Bytes32) (sender : NodeId)
    (signatureR signatureS : Bytes32) (publicKey : P) : Bool :=
  match C.decompress signatureR with
  | none => false
  | some r =>
      let s := C.fromBytesModOrder signatureS
      if C.asBytes s ≠ signatureS then false
      else
        let e := nullifierSigChallenge C r publicKey nullifier sender
        C.compress (s • C.G) == C.compress (r + e • publicKey)

variable {C : Suite S P} {nullifier : Bytes32} {sender : NodeId} {sigR sigS : Bytes32}

/-- The check as an equation: `R` decodes, `s` is canonical, and the transcript is accepted. -/
theorem verifyNullifierBroadcast_iff {pk : P} :
    verifyNullifierBroadcast C nullifier sender sigR sigS pk = true ↔
      ∃ r, C.decompress sigR = some r ∧ C.asBytes (C.fromBytesModOrder sigS) = sigS ∧
        Sigma.Accepts C.G pk r (nullifierSigChallenge C r pk nullifier sender)
          (C.fromBytesModOrder sigS) := by
  unfold verifyNullifierBroadcast
  cases hr : C.decompress sigR with
  | none => simp
  | some r =>
      by_cases hs : C.asBytes (C.fromBytesModOrder sigS) = sigS
      · simp [hs, C.compress_inj, Sigma.Accepts]
      · simp [hs]

/-- **A signed broadcast passes the check** for the key it was signed under. -/
theorem verifyNullifierBroadcast_sign (sk k : S) :
    verifyNullifierBroadcast C nullifier sender
      (signNullifierBroadcast C nullifier sender sk (sk • C.G) k).1
      (signNullifierBroadcast C nullifier sender sk (sk • C.G) k).2 (sk • C.G) = true := by
  rw [verifyNullifierBroadcast_iff]
  refine ⟨k • C.G, C.decompress_compress _, ?_, ?_⟩
  · show C.asBytes (C.fromBytesModOrder (C.asBytes _)) = C.asBytes _
    rw [C.fromBytesModOrder_asBytes]
  · show Sigma.Accepts C.G (sk • C.G) (k • C.G) _ (C.fromBytesModOrder (C.asBytes _))
    rw [C.fromBytesModOrder_asBytes]
    exact .of_witness C.G sk k _

/-! ## 2. The protocol -/

def maxOutboxPerPeer : Nat := 10000

def maxKnownNullifiers : Nat := 1000000

structure GossipProtocol where
  nodeId : NodeId
  seenNullifiers : Finset Bytes32
  peers : List NodeId
  outbox : NodeId → Option (List NullifierBroadcast)

namespace GossipProtocol

protected def new (nodeId : NodeId) (peers : List NodeId) : GossipProtocol where
  nodeId := nodeId
  seenNullifiers := ∅
  peers := peers
  outbox p := if p ∈ peers then some [] else none

/-- The queues after `msg` is pushed for one peer, unless its queue is missing or full. -/
def push (msg : NullifierBroadcast) (outbox : NodeId → Option (List NullifierBroadcast))
    (peer : NodeId) : NodeId → Option (List NullifierBroadcast) :=
  match outbox peer with
  | none => outbox
  | some queue =>
      if queue.length ≥ maxOutboxPerPeer then outbox
      else Function.update outbox peer (some (queue ++ [msg]))

def broadcastNullifierSigned (g : GossipProtocol) (nullifier signatureR signatureS : Bytes32) :
    Bool × GossipProtocol :=
  if g.seenNullifiers.card ≥ maxKnownNullifiers then (false, g)
  else if nullifier ∈ g.seenNullifiers then (false, g)
  else
    (true,
      { g with
        seenNullifiers := insert nullifier g.seenNullifiers
        outbox := g.peers.foldl (push ⟨nullifier, g.nodeId, signatureR, signatureS⟩) g.outbox })

/-- The state after a broadcast of `sender` is accepted as new: passed on to every peer but the
    sender, with the sender's own id and signature. -/
def accept (g : GossipProtocol) (nullifier : Bytes32) (sender : NodeId)
    (signatureR signatureS : Bytes32) : GossipProtocol :=
  { g with
    seenNullifiers := insert nullifier g.seenNullifiers
    outbox := (g.peers.filter (· ≠ sender)).foldl
      (push ⟨nullifier, sender, signatureR, signatureS⟩) g.outbox }

def handleVerifiedBroadcast (C : Suite S P) (g : GossipProtocol) (nullifier : Bytes32)
    (sender : NodeId) (signatureR signatureS : Bytes32) (validatorKeys : NodeId → Option P) :
    Except GossipError Bool × GossipProtocol :=
  match validatorKeys sender with
  | none => (.error (.unknownSender sender), g)
  | some pubkey =>
      if verifyNullifierBroadcast C nullifier sender signatureR signatureS pubkey = false then
        (.error (.invalidSignature sender), g)
      else if g.seenNullifiers.card ≥ maxKnownNullifiers then (.error .atCapacity, g)
      else if nullifier ∈ g.seenNullifiers then (.ok false, g)
      else (.ok true, g.accept nullifier sender signatureR signatureS)

def drainMessagesFor (g : GossipProtocol) (peer : NodeId) :
    List NullifierBroadcast × GossipProtocol :=
  match g.outbox peer with
  | none => ([], g)
  | some queue => (queue, { g with outbox := Function.update g.outbox peer (some []) })

def hasNullifier (g : GossipProtocol) (nullifier : Bytes32) : Bool :=
  decide (nullifier ∈ g.seenNullifiers)

/-! ## 3. What the operations do -/

/-- What a received broadcast passes when it is accepted as new. -/
def Takes (C : Suite S P) (g : GossipProtocol) (validatorKeys : NodeId → Option P)
    (nullifier : Bytes32) (sender : NodeId) (signatureR signatureS : Bytes32) : Prop :=
  (validatorKeys sender).any
      (verifyNullifierBroadcast C nullifier sender signatureR signatureS) = true ∧
    g.seenNullifiers.card < maxKnownNullifiers ∧ nullifier ∉ g.seenNullifiers

instance (g : GossipProtocol) (keys : NodeId → Option P) :
    Decidable (g.Takes C keys nullifier sender sigR sigS) :=
  inferInstanceAs (Decidable (_ ∧ _ ∧ _))

/-- **A broadcast is accepted as new or changes nothing.** -/
theorem handleVerifiedBroadcast_cases (C : Suite S P) (g : GossipProtocol)
    (keys : NodeId → Option P) (nullifier : Bytes32) (sender : NodeId) (sigR sigS : Bytes32) :
    (g.Takes C keys nullifier sender sigR sigS ∧
        g.handleVerifiedBroadcast C nullifier sender sigR sigS keys =
          (.ok true, g.accept nullifier sender sigR sigS)) ∨
      (¬ g.Takes C keys nullifier sender sigR sigS ∧
        ∃ res, res ≠ .ok true ∧
          g.handleVerifiedBroadcast C nullifier sender sigR sigS keys = (res, g)) := by
  unfold Takes handleVerifiedBroadcast
  cases keys sender with
  | none => exact .inr ⟨by simp, _, by simp, rfl⟩
  | some pk =>
      dsimp only
      split
      · rename_i hver
        exact .inr ⟨by simp [hver], _, by simp, rfl⟩
      · rename_i hver
        split
        · rename_i hcap
          exact .inr ⟨fun h => absurd h.2.1 (Nat.not_lt.mpr hcap), _, by simp, rfl⟩
        · rename_i hcap
          split
          · rename_i hseen
            exact .inr ⟨fun h => h.2.2 hseen, _, by simp, rfl⟩
          · rename_i hseen
            exact .inl ⟨⟨by simpa using hver, Nat.not_le.mp hcap, hseen⟩, rfl⟩

omit [Field S] [AddCommGroup P] [Module S P] in
/-- An own broadcast only adds to the seen set, and below the cap its nullifier is in it. -/
theorem broadcastNullifierSigned_seen (g : GossipProtocol) (nullifier sigR sigS : Bytes32) :
    g.seenNullifiers ⊆ (g.broadcastNullifierSigned nullifier sigR sigS).2.seenNullifiers ∧
      (g.seenNullifiers.card < maxKnownNullifiers →
        nullifier ∈ (g.broadcastNullifierSigned nullifier sigR sigS).2.seenNullifiers) := by
  unfold broadcastNullifierSigned
  split
  · rename_i hcap
    exact ⟨Finset.Subset.refl _, fun h => absurd h (Nat.not_lt.mpr hcap)⟩
  · split
    · rename_i hseen
      exact ⟨Finset.Subset.refl _, fun _ => hseen⟩
    · exact ⟨Finset.subset_insert _ _, fun _ => Finset.mem_insert_self _ _⟩

/-- A received broadcast only adds to the seen set. -/
theorem handleVerifiedBroadcast_seen (C : Suite S P) (g : GossipProtocol)
    (keys : NodeId → Option P) (nullifier : Bytes32) (sender : NodeId) (sigR sigS : Bytes32) :
    g.seenNullifiers ⊆
      (g.handleVerifiedBroadcast C nullifier sender sigR sigS keys).2.seenNullifiers := by
  rcases handleVerifiedBroadcast_cases C g keys nullifier sender sigR sigS with
    ⟨_, e⟩ | ⟨_, res, _, e⟩
  · rw [e]
    exact Finset.subset_insert _ _
  · rw [e]

omit [Field S] [AddCommGroup P] [Module S P] in
/-- Draining a queue leaves the seen set alone. -/
theorem drainMessagesFor_seen (g : GossipProtocol) (peer : NodeId) :
    (g.drainMessagesFor peer).2.seenNullifiers = g.seenNullifiers := by
  unfold drainMessagesFor
  split <;> rfl

end GossipProtocol

end Specter
