/-
  File:      Specter/Net/World.lean
  Subject:   MANY NODES: every interleaving of the operations of `ConsensusState` at the nodes
             and of the votes the validators sign.

  The world keeps the state of every node and three records: the proposals a node has accepted
  (`receive_proposal` returned `Ok`), the ballots validators have signed, and the blocks
  `propose_block` has returned, with the height and view they were made in. Any operation with
  any argument may happen at any node at any time; what is assumed of honest validators and of
  signatures is a condition on steps (`Rules`), not part of the machine.

  * `World.machine` -- the steps; `step_node`, `step_sign` -- what each of them changes;
  * `Rules` -- an honest validator approves only what it accepted, once per height and view,
    and nobody delivers a forged vote in its name;
  * `start` -- all honest nodes fresh, with one list of validators and one map of keys.
-/
import Specter.Lib.Machine
import Specter.Net.Consensus

namespace Specter

open Lib

variable {S P : Type} [Field S] [AddCommGroup P] [Module S P]

/-- A vote as the validator signed it. -/
structure Ballot where
  voter : NodeId
  height : UInt64
  view : UInt64
  hash : Bytes32
  approve : Bool
  deriving DecidableEq

def Ballot.message (x : Ballot) : Bytes :=
  canonicalVoteBytes x.voter x.height x.hash x.approve x.view

/-- A block `propose_block` returned, with the proposer's height and view. -/
structure Proposal where
  leader : NodeId
  height : UInt64
  view : UInt64
  block : NullifierBlock
  deriving DecidableEq

structure World (S P : Type) where
  nodes : NodeId → ConsensusState S P
  accepted : List (NodeId × NullifierBlock)
  ballots : List Ballot
  proposals : List Proposal

inductive WorldAct (S P : Type) where
  /-- Node `i` performs an operation. -/
  | node (i : NodeId) (op : ConsensusOp S P)
  /-- Validator `i` signs a vote on `block` in its current view (`NetworkNode::sign_vote`). -/
  | sign (i : NodeId) (block : NullifierBlock) (approve : Bool)

namespace World

variable (C : Suite S P)

def start (nodes : NodeId → ConsensusState S P) : World S P := ⟨nodes, [], [], []⟩

def acceptedAfter (w : World S P) (i : NodeId) :
    ConsensusOp S P → List (NodeId × NullifierBlock)
  | .receiveProposal b =>
      match ((w.nodes i).receiveProposal b).1 with
      | .ok () => (i, b) :: w.accepted
      | .error _ => w.accepted
  | _ => w.accepted

def proposalsAfter (w : World S P) (i : NodeId) : ConsensusOp S P → List Proposal
  | .proposeBlock drained =>
      match ((w.nodes i).proposeBlock C drained).1 with
      | .ok b => ⟨i, (w.nodes i).currentHeight, (w.nodes i).view, b⟩ :: w.proposals
      | .error _ => w.proposals
  | _ => w.proposals

/-- The ballot validator `i` signs on `block`. -/
def ballotOf (w : World S P) (i : NodeId) (block : NullifierBlock) (approve : Bool) : Ballot :=
  ⟨i, block.height, (w.nodes i).view, block.hash, approve⟩

def machine : Machine (World S P) (WorldAct S P) where
  step w
    | .node i op => ((w.nodes i).exec C op).map fun s =>
        { nodes := Function.update w.nodes i s
          accepted := w.acceptedAfter i op
          ballots := w.ballots
          proposals := w.proposalsAfter C i op }
    | .sign i block approve => some { w with ballots := w.ballotOf i block approve :: w.ballots }

/-- The conditions on the environment: honest validators sign as the protocol says, and a vote
    that verifies in the name of an honest validator was signed by it. -/
def Rules (honest : Finset NodeId) (w : World S P) : WorldAct S P → Prop
  | .node i (.receiveVote v) => v.voter ∈ honest →
      ∀ pk ∈ (w.nodes i).validatorKeys v.voter, verifyVoteSignature C v pk = true →
        ∃ x ∈ w.ballots, x.message = v.message
  | .sign i block true => i ∈ honest →
      (i, block) ∈ w.accepted ∧ ∀ x ∈ w.ballots, x.voter = i → x.approve = true →
        x.height = block.height → x.view ≠ (w.nodes i).view
  | _ => True

instance (honest : Finset NodeId) :
    ∀ (w : World S P) (a : WorldAct S P), Decidable (Rules C honest w a)
  | w, .node i (.receiveVote v) => inferInstanceAs (Decidable (v.voter ∈ honest →
      ∀ pk ∈ (w.nodes i).validatorKeys v.voter, verifyVoteSignature C v pk = true →
        ∃ x ∈ w.ballots, x.message = v.message))
  | w, .sign i block true => inferInstanceAs (Decidable (i ∈ honest →
      (i, block) ∈ w.accepted ∧ ∀ x ∈ w.ballots, x.voter = i → x.approve = true →
        x.height = block.height → x.view ≠ (w.nodes i).view))
  | _, .sign _ _ false => isTrue trivial
  | _, .node _ (.submitNullifier _) => isTrue trivial
  | _, .node _ (.proposeBlock _) => isTrue trivial
  | _, .node _ (.receiveProposal _) => isTrue trivial
  | _, .node _ (.tryCommit _) => isTrue trivial
  | _, .node _ .triggerViewChange => isTrue trivial

/-- The blocks an action signs or commits. -/
def blocksOf : WorldAct S P → List NullifierBlock
  | .sign _ block _ => [block]
  | .node _ (.tryCommit block) => [block]
  | _ => []

/-- SHA-256 does not collide on the given blocks. -/
def CollisionFree (bs : List NullifierBlock) : Prop :=
  ∀ b ∈ bs, ∀ b' ∈ bs, C.sha256 b.bytes = C.sha256 b'.bytes → b.bytes = b'.bytes

instance (bs : List NullifierBlock) : Decidable (CollisionFree C bs) :=
  inferInstanceAs (Decidable (∀ b ∈ bs, ∀ b' ∈ bs, _ → _))

variable {C}

theorem step_node {w w' : World S P} {i : NodeId} {op : ConsensusOp S P}
    (h : (machine C).step w (.node i op) = some w') :
    ∃ s, (w.nodes i).exec C op = some s ∧ w'.nodes = Function.update w.nodes i s ∧
      w'.ballots = w.ballots ∧ w'.accepted = w.acceptedAfter i op ∧
      w'.proposals = w.proposalsAfter C i op := by
  obtain ⟨s, hs, rfl⟩ := Option.map_eq_some_iff.mp h
  exact ⟨s, hs, rfl, rfl, rfl, rfl⟩

theorem step_sign {w w' : World S P} {i : NodeId} {block : NullifierBlock} {approve : Bool}
    (h : (machine C).step w (.sign i block approve) = some w') :
    w' = { w with ballots := w.ballotOf i block approve :: w.ballots } :=
  (Option.some.inj h).symm

omit [Field S] [AddCommGroup P] [Module S P] in
/-- A signed message determines the ballot's fields in the vote that carries it. -/
theorem ballot_of_message {x : Ballot} {v : Vote S P} (h : x.message = v.message) :
    x.voter = v.voter ∧ x.height = v.blockHeight ∧ x.hash = v.blockHash ∧
      x.approve = v.approve := by
  obtain ⟨h1, h2, h3, h4, _⟩ := canonicalVoteBytes_inj h
  exact ⟨h1, h2, h3, h4⟩

end World

end Specter
