/-
  File:      Specter/Net/Node.lean
  Subject:   THE NETWORK NODE (specter-net/src/node.rs): gossip and consensus side by side.

  `submit_nullifier` feeds both layers; `receive_nullifier_broadcast` feeds the gossip layer
  only. The `expect` on the consensus parameters is `none`; the nonce a submission draws is an
  argument.

  * `NodeOp`, `NetworkNode.exec` -- one call on a node or on one of its two public layers;
  * `exec_known` -- what a node knows, by gossip or in a committed block, it never forgets;
  * `submitNullifier_known` -- what a node submits it knows, below the cap of the gossip layer.
-/
import Specter.Net.Gossip

namespace Specter

open Lib

variable {S P : Type} [Field S] [AddCommGroup P] [Module S P]

structure NetworkNode (S P : Type) where
  id : NodeId
  gossip : GossipProtocol
  consensus : ConsensusState S P
  validatorKey : ValidatorKey S P

namespace NetworkNode

protected def new (id : NodeId) (peers : List NodeId) (ownKey : ValidatorKey S P)
    (allValidators : List NodeId) (allPubkeys : NodeId → Option P) : Option (NetworkNode S P) :=
  match ConsensusState.new id allValidators allPubkeys .test with
  | .error _ => none
  | .ok consensus =>
      some
        { id := id
          gossip := GossipProtocol.new id peers
          consensus := consensus
          validatorKey := ownKey }

def submitNullifier (C : Suite S P) (node : NetworkNode S P) (nullifier : Bytes32) (k : S) :
    NetworkNode S P :=
  let sig := signNullifierBroadcast C nullifier node.id node.validatorKey.secretKey
    node.validatorKey.publicKey k
  { node with
    gossip := (node.gossip.broadcastNullifierSigned nullifier sig.1 sig.2).2
    consensus := node.consensus.submitNullifier nullifier }

def receiveNullifierBroadcast (C : Suite S P) (node : NetworkNode S P) (nullifier : Bytes32)
    (sender : NodeId) (signatureR signatureS : Bytes32) :
    Except GossipError Bool × NetworkNode S P :=
  let res := node.gossip.handleVerifiedBroadcast C nullifier sender signatureR signatureS
    node.consensus.validatorKeys
  (res.1, { node with gossip := res.2 })

def isNullifierKnown (node : NetworkNode S P) (nullifier : Bytes32) : Bool :=
  node.gossip.hasNullifier nullifier || node.consensus.isCommitted nullifier

/-! ## 1. One call -/

end NetworkNode

inductive NodeOp (S P : Type) where
  | submitNullifier (nullifier : Bytes32) (k : S)
  | receiveNullifierBroadcast (nullifier : Bytes32) (sender : NodeId)
      (signatureR signatureS : Bytes32)
  | drainMessagesFor (peer : NodeId)
  | consensus (op : ConsensusOp S P)

namespace NetworkNode

/-- The node after one call; `none` only for a list that is no drain order. -/
def exec (C : Suite S P) (node : NetworkNode S P) : NodeOp S P → Option (NetworkNode S P)
  | .submitNullifier n k => some (node.submitNullifier C n k)
  | .receiveNullifierBroadcast n sender r s =>
      some (node.receiveNullifierBroadcast C n sender r s).2
  | .drainMessagesFor peer =>
      some { node with gossip := (node.gossip.drainMessagesFor peer).2 }
  | .consensus op => (node.consensus.exec C op).map fun s => { node with consensus := s }

variable {C : Suite S P} {node node' : NetworkNode S P}

omit [Field S] [AddCommGroup P] [Module S P] in
theorem isNullifierKnown_iff {n : Bytes32} :
    node.isNullifierKnown n = true ↔
      n ∈ node.gossip.seenNullifiers ∨ n ∈ node.consensus.committedNullifiers := by
  simp [isNullifierKnown, GossipProtocol.hasNullifier, ConsensusState.isCommitted]

/-- Neither the seen set nor the committed set loses anything in a call. -/
theorem exec_stores {op : NodeOp S P} (h : node.exec C op = some node') :
    node.gossip.seenNullifiers ⊆ node'.gossip.seenNullifiers ∧
      node.consensus.committedNullifiers ⊆ node'.consensus.committedNullifiers := by
  cases op with
  | submitNullifier n k =>
      cases h
      refine ⟨(node.gossip.broadcastNullifierSigned_seen _ _ _).1, ?_⟩
      exact ConsensusState.exec_committedNullifiers (C := C)
        (show node.consensus.exec C (.submitNullifier n) = some _ from rfl)
  | receiveNullifierBroadcast n sender r s =>
      cases h
      exact ⟨GossipProtocol.handleVerifiedBroadcast_seen C node.gossip _ n sender r s,
        Finset.Subset.refl _⟩
  | drainMessagesFor peer =>
      cases h
      refine ⟨?_, Finset.Subset.refl _⟩
      show _ ⊆ (node.gossip.drainMessagesFor peer).2.seenNullifiers
      rw [GossipProtocol.drainMessagesFor_seen]
  | consensus cop =>
      obtain ⟨s, hs, rfl⟩ := Option.map_eq_some_iff.mp h
      exact ⟨Finset.Subset.refl _, ConsensusState.exec_committedNullifiers hs⟩

/-- **A node forgets nothing**: what is known stays known. -/
theorem exec_known {op : NodeOp S P} (h : node.exec C op = some node') {n : Bytes32}
    (hn : node.isNullifierKnown n = true) : node'.isNullifierKnown n = true := by
  obtain ⟨hseen, hcom⟩ := exec_stores h
  rw [isNullifierKnown_iff] at hn ⊢
  exact hn.imp (fun hn => hseen hn) (fun hn => hcom hn)

/-- Below the cap of the gossip layer, a submitted nullifier is known. -/
theorem submitNullifier_known {n : Bytes32} {k : S}
    (hcap : node.gossip.seenNullifiers.card < maxKnownNullifiers) :
    (node.submitNullifier C n k).isNullifierKnown n = true :=
  isNullifierKnown_iff.mpr (.inl ((node.gossip.broadcastNullifierSigned_seen _ _ _).2 hcap))

end NetworkNode

/-! ## 2. A node that evaluates -/

/-- Node `i` of the four validators, with the other three as peers. -/
def sampleNetworkNode (i : NodeId) : NetworkNode SampleScalar SamplePoint where
  id := i
  gossip := GossipProtocol.new i ([1, 2, 3, 4].filter (· ≠ i))
  consensus := sampleNode i
  validatorKey := sampleKey i

theorem sampleNode_test (i : NodeId) :
    ConsensusState.new i [1, 2, 3, 4] sampleKeys .test = .ok (sampleNode i) := by
  unfold ConsensusState.new
  dsimp only
  rw [if_neg (by decide), if_neg (by decide)]
  rfl

theorem sampleNetworkNode_new (i : NodeId) :
    NetworkNode.new i ([1, 2, 3, 4].filter (· ≠ i)) (sampleKey i) [1, 2, 3, 4] sampleKeys =
      some (sampleNetworkNode i) := by
  unfold NetworkNode.new
  rw [sampleNode_test]
  rfl

/-- A broadcast as validator `i` signs it. -/
def sampleBroadcast (i : NodeId) (n : Bytes32) : NodeOp SampleScalar SamplePoint :=
  let sig := signNullifierBroadcast sampleSuite n i (sampleKey i).secretKey
    (sampleKey i).publicKey 9
  .receiveNullifierBroadcast n i sig.1 sig.2

end Specter
