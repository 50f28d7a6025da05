/-
  File:      Specter/Net/Once.lean
  Subject:   NULLIFIERS ARE COMMITTED ONCE: no nullifier in two committed blocks or twice in
             one, the committed set is the union of the blocks, and nothing pending is committed.

  A nullifier is compared with the committed set when it is submitted, and never again:
  `try_commit` neither takes the block's nullifiers out of the pending pool nor looks whether
  they are committed already. A nullifier submitted at two nodes is committed from the block of
  one and stays pending at the other, which proposes it once more (`nullifier_committed_twice`).

  * `Once` -- the property of one state;
  * `FromProposals` -- only blocks that some node's `propose_block` returned are committed;
  * `FreshCommit` -- a block is committed at the node only if none of its nullifiers is pending
    or committed there;
  * `once_commit_iff` -- one commit keeps the property exactly if it is fresh;
  * `once_iff_freshCommits` -- a run keeps the property throughout exactly if all its commits
    are fresh.
-/
import Mathlib.Data.Finset.Lattice.Basic
import Specter.Net.World

namespace Specter

open Lib

variable {S P : Type} [Field S] [AddCommGroup P] [Module S P]

/-- The nullifiers of a list of blocks, with repetitions. -/
def blockNullifiers (blocks : List NullifierBlock) : List Bytes32 :=
  blocks.flatMap (·.nullifiers)

/-- Every nullifier is committed once, and nothing pending is committed. -/
structure Once (s : ConsensusState S P) : Prop where
  nodup : (blockNullifiers s.committedBlocks).Nodup
  union : s.committedNullifiers = (blockNullifiers s.committedBlocks).toFinset
  disjoint : Disjoint s.pendingNullifiers s.committedNullifiers

omit [Field S] [AddCommGroup P] [Module S P] in
/-- **A commit keeps the property exactly if it is fresh.** -/
theorem once_commit_iff {s : ConsensusState S P} (hs : Once s) {b : NullifierBlock}
    (hb : b.nullifiers.Nodup) :
    Once (s.commit b) ↔
      ∀ n ∈ b.nullifiers, n ∉ s.pendingNullifiers ∧ n ∉ s.committedNullifiers := by
  have hnull : blockNullifiers (s.commit b).committedBlocks =
      blockNullifiers s.committedBlocks ++ b.nullifiers := by
    show blockNullifiers (s.committedBlocks ++ [b]) = _
    unfold blockNullifiers
    rw [List.flatMap_append, List.flatMap_singleton]
  constructor
  · intro h n hn
    constructor
    · intro hpend
      have hmem : n ∈ (s.commit b).committedNullifiers :=
        Finset.mem_union_right _ (List.mem_toFinset.mpr hn)
      exact Finset.disjoint_left.mp h.disjoint hpend hmem
    · intro hcom
      have hnodup := h.nodup
      rw [hnull, List.nodup_append] at hnodup
      rw [hs.union, List.mem_toFinset] at hcom
      exact hnodup.2.2 n hcom n hn rfl
  · intro h
    refine ⟨?_, ?_, ?_⟩
    · rw [hnull, List.nodup_append]
      refine ⟨hs.nodup, hb, fun n hn m hm hnm => ?_⟩
      have hcom : n ∈ s.committedNullifiers := by
        rw [hs.union]
        exact List.mem_toFinset.mpr hn
      exact (h m hm).2 (hnm ▸ hcom)
    · rw [hnull, List.toFinset_append, ← hs.union]
      rfl
    · show Disjoint s.pendingNullifiers (s.committedNullifiers ∪ b.nullifiers.toFinset)
      rw [Finset.disjoint_union_right]
      refine ⟨hs.disjoint, Finset.disjoint_left.mpr fun n hpend hn => ?_⟩
      exact (h n (List.mem_toFinset.mp hn)).1 hpend

omit [Field S] [AddCommGroup P] [Module S P] in
/-- A change of other fields keeps the property. -/
theorem Once.frame {s s' : ConsensusState S P} (hs : Once s)
    (hblocks : s'.committedBlocks = s.committedBlocks)
    (hcom : s'.committedNullifiers = s.committedNullifiers)
    (hpend : Disjoint s'.pendingNullifiers s.committedNullifiers) : Once s' := by
  refine ⟨?_, ?_, ?_⟩
  · rw [hblocks]
    exact hs.nodup
  · rw [hblocks, hcom]
    exact hs.union
  · rw [hcom]
    exact hpend

namespace World

variable (C : Suite S P)

/-- A block handed to `try_commit` was returned by some node's `propose_block`. -/
def FromProposals (w : World S P) : WorldAct S P → Prop
  | .node _ (.tryCommit b) => ∃ p ∈ w.proposals, p.block = b
  | _ => True

instance : ∀ (w : World S P) (a : WorldAct S P), Decidable (FromProposals w a)
  | w, .node _ (.tryCommit b) => inferInstanceAs (Decidable (∃ p ∈ w.proposals, p.block = b))
  | _, .sign _ _ _ => isTrue trivial
  | _, .node _ (.submitNullifier _) => isTrue trivial
  | _, .node _ (.proposeBlock _) => isTrue trivial
  | _, .node _ (.receiveProposal _) => isTrue trivial
  | _, .node _ (.receiveVote _) => isTrue trivial
  | _, .node _ .triggerViewChange => isTrue trivial

/-- A block with a quorum is handed to node `i` only if none of its nullifiers is pending or
    committed there. -/
def FreshCommit (i : NodeId) (w : World S P) : WorldAct S P → Prop
  | .node j (.tryCommit b) => j = i → (w.nodes i).Quorate C b →
      ∀ n ∈ b.nullifiers,
        n ∉ (w.nodes i).pendingNullifiers ∧ n ∉ (w.nodes i).committedNullifiers
  | _ => True

-- by the members of the list: `Bytes32` is finite, and must not be searched
instance (i : NodeId) : ∀ (w : World S P) (a : WorldAct S P), Decidable (FreshCommit C i w a)
  | w, .node j (.tryCommit b) =>
      have _hall : Decidable (∀ n ∈ b.nullifiers,
          n ∉ (w.nodes i).pendingNullifiers ∧ n ∉ (w.nodes i).committedNullifiers) :=
        List.decidableBAll _ _
      inferInstanceAs (Decidable (j = i → (w.nodes i).Quorate C b → _))
  | _, .sign _ _ _ => isTrue trivial
  | _, .node _ (.submitNullifier _) => isTrue trivial
  | _, .node _ (.proposeBlock _) => isTrue trivial
  | _, .node _ (.receiveProposal _) => isTrue trivial
  | _, .node _ (.receiveVote _) => isTrue trivial
  | _, .node _ .triggerViewChange => isTrue trivial

/-- Proposed blocks list the drained set, so no nullifier twice. -/
def ProposalsNodup (w : World S P) : Prop := ∀ p ∈ w.proposals, p.block.nullifiers.Nodup

variable {C}

theorem proposalsNodup_step {w w' : World S P} {a : WorldAct S P} (hI : ProposalsNodup w)
    (h : (machine C).step w a = some w') : ProposalsNodup w' := by
  cases a with
  | sign i block approve =>
      have hw := step_sign h
      subst hw
      exact hI
  | node i op =>
      obtain ⟨s, hs, _, _, _, hprop⟩ := step_node h
      unfold ProposalsNodup
      rw [hprop]
      cases op with
      | proposeBlock drained =>
          obtain ⟨hdrain, _⟩ := ConsensusState.exec_proposeBlock hs
          intro p hp
          unfold proposalsAfter at hp
          dsimp only at hp
          unfold ConsensusState.proposeBlock at hp
          split at hp
          · rename_i b hb
            split at hb
            · cases hb
            · cases hb
              rcases List.mem_cons.mp hp with rfl | hold
              · exact hdrain.1
              · exact hI p hold
          · exact hI p hp
      | submitNullifier n => exact hI
      | receiveProposal b => exact hI
      | receiveVote v => exact hI
      | tryCommit b => exact hI
      | triggerViewChange => exact hI

/-- An operation of node `i` other than a commit with a quorum keeps the property. -/
theorem once_exec {s s' : ConsensusState S P} {op : ConsensusOp S P} (hs : Once s)
    (hop : ∀ b, op = .tryCommit b → ¬ s.Quorate C b) (h : s.exec C op = some s') : Once s' := by
  cases ConsensusState.exec_effect h with
  | refused href => exact hs
  | @submitted n hcom =>
      refine hs.frame rfl rfl ?_
      show Disjoint (insert n s.pendingNullifiers) s.committedNullifiers
      rw [Finset.disjoint_insert_left]
      exact ⟨hcom, hs.disjoint⟩
  | proposed hlead hdrain => exact hs.frame rfl rfl (Finset.disjoint_empty_left _)
  | recorded hseen => exact hs.frame rfl rfl hs.disjoint
  | voted herr => exact hs.frame rfl rfl hs.disjoint
  | @committed b hq hnext => exact absurd hq (hop b rfl)
  | viewChanged hnext => exact hs.frame rfl rfl hs.disjoint

/-- One step keeps the property at node `i` exactly if it is fresh there. -/
theorem once_step_iff {i : NodeId} {w w' : World S P} {a : WorldAct S P}
    (hI : ProposalsNodup w) (hs : Once (w.nodes i)) (hfrom : FromProposals w a)
    (h : (machine C).step w a = some w') : Once (w'.nodes i) ↔ FreshCommit C i w a := by
  cases a with
  | sign j block approve =>
      have hw := step_sign h
      subst hw
      exact ⟨fun _ => trivial, fun _ => hs⟩
  | node j op =>
      obtain ⟨s, hexec, hnodes, _, _, _⟩ := step_node h
      rw [hnodes]
      by_cases hji : j = i
      · subst hji
        rw [Function.update_self]
        by_cases hcommit : ∃ b, op = .tryCommit b ∧ (w.nodes j).Quorate C b
        · -- a commit: decided by its freshness
          obtain ⟨b, rfl, hq⟩ := hcommit
          obtain ⟨p, hp, rfl⟩ := hfrom
          have hstate := ConsensusState.exec_tryCommit hq hexec
          rw [hstate, once_commit_iff hs (hI p hp)]
          exact ⟨fun hfresh _ _ => hfresh, fun hfresh => hfresh rfl hq⟩
        · have hop : ∀ b, op = .tryCommit b → ¬ (w.nodes j).Quorate C b :=
            fun b hb hq => hcommit ⟨b, hb, hq⟩
          refine ⟨fun _ => ?_, fun _ => once_exec hs hop hexec⟩
          cases op with
          | tryCommit b => exact fun _ hq => absurd hq (hop b rfl)
          | submitNullifier n => trivial
          | proposeBlock drained => trivial
          | receiveProposal b => trivial
          | receiveVote v => trivial
          | triggerViewChange => trivial
      · rw [Function.update_of_ne (Ne.symm hji)]
        refine ⟨fun _ => ?_, fun _ => hs⟩
        cases op with
        | tryCommit b => exact fun hj => absurd hj hji
        | submitNullifier n => trivial
        | proposeBlock drained => trivial
        | receiveProposal b => trivial
        | receiveVote v => trivial
        | triggerViewChange => trivial

omit [Field S] [AddCommGroup P] [Module S P] in
theorem once_new {i : NodeId} {validators : List NodeId} {keys : NodeId → Option P}
    {mode : ConsensusMode} {s : ConsensusState S P}
    (h : ConsensusState.new i validators keys mode = .ok s) : Once s := by
  obtain ⟨_, _, _, _, _, hblocks, _, hcom, hpend, _⟩ := ConsensusState.new_ok h
  refine ⟨?_, ?_, ?_⟩
  · rw [hblocks]
    exact List.nodup_nil
  · rw [hblocks, hcom]
    rfl
  · rw [hpend]
    exact Finset.disjoint_empty_left _

/-- **When nullifiers are committed once.** In every run in which only proposed blocks are
    committed, and for every node: the property holds at the node in every state of the run if
    and only if every commit of the run at that node is fresh. -/
theorem once_iff_freshCommits (C : Suite S P) (i : NodeId) (validators : List NodeId)
    (keys : NodeId → Option P) (mode : ConsensusMode) (nodes : NodeId → ConsensusState S P)
    (hnew : ConsensusState.new i validators keys mode = .ok (nodes i))
    (acts : List (WorldAct S P))
    (hfrom : (machine C).AllSteps FromProposals (start nodes) acts) :
    (machine C).Always (fun w => Once (w.nodes i)) (start nodes) acts ↔
      (machine C).AllSteps (FreshCommit C i) (start nodes) acts :=
  (machine C).always_iff_allSteps (fun _ _ _ hI hs => proposalsNodup_step hI hs)
    (fun _ _ _ hI hs hR h => once_step_iff hI hs hR h) acts (start nodes)
    (fun _ hp => by cases hp) (once_new hnew) hfrom

/-! ## A nullifier pending at two nodes -/

def pendingBlock : NullifierBlock := NullifierBlock.new sampleSuite 0 1 [leArr 32 5] zero32

def repeatedBlock : NullifierBlock :=
  NullifierBlock.new sampleSuite 1 2 [leArr 32 5] pendingBlock.hash

/-- A nullifier is submitted at nodes 1 and 2; node 2 commits it from the block of leader 1. -/
def commitPending : List (WorldAct SampleScalar SamplePoint) :=
  [.node 1 (.submitNullifier (leArr 32 5)), .node 2 (.submitNullifier (leArr 32 5)),
    .node 1 (.proposeBlock [leArr 32 5]),
    .node 2 (.receiveVote (sampleVote 1 pendingBlock 0)),
    .node 2 (.receiveVote (sampleVote 2 pendingBlock 0)),
    .node 2 (.receiveVote (sampleVote 3 pendingBlock 0)), .node 2 (.tryCommit pendingBlock)]

/-- Node 2, leader of the next height, proposes it again, and the block is committed. -/
def commitAgain : List (WorldAct SampleScalar SamplePoint) :=
  [.node 2 (.proposeBlock [leArr 32 5]),
    .node 2 (.receiveVote (sampleVote 1 repeatedBlock 0)),
    .node 2 (.receiveVote (sampleVote 2 repeatedBlock 0)),
    .node 2 (.receiveVote (sampleVote 3 repeatedBlock 0)), .node 2 (.tryCommit repeatedBlock)]

/-- **A nullifier is committed twice**, from the blocks of two honest leaders. -/
theorem nullifier_committed_twice :
    ∃ w, (machine sampleSuite).AllSteps FromProposals (start sampleNode)
        (commitPending ++ commitAgain) ∧
      (machine sampleSuite).run (start sampleNode) (commitPending ++ commitAgain) = some w ∧
      (w.nodes 2).committedBlocks = [pendingBlock, repeatedBlock] ∧
      leArr 32 5 ∈ pendingBlock.nullifiers ∧ leArr 32 5 ∈ repeatedBlock.nullifiers ∧
      ¬ Once (w.nodes 2) := by
  have hfrom : (machine sampleSuite).AllSteps FromProposals (start sampleNode)
      (commitPending ++ commitAgain) := by decide +kernel
  have hrun : ((machine sampleSuite).run (start sampleNode) (commitPending ++ commitAgain)).map
      (fun w => decide ((w.nodes 2).committedBlocks = [pendingBlock, repeatedBlock])) =
      some true := by decide +kernel
  obtain ⟨w, hw, hfacts⟩ := Option.map_eq_some_iff.mp hrun
  have hblocks := of_decide_eq_true hfacts
  refine ⟨w, hfrom, hw, hblocks, by decide, by decide, fun honce => ?_⟩
  have hnodup := honce.nodup
  rw [hblocks] at hnodup
  exact absurd hnodup (by decide)

/-- The first part of the run with nothing pending at node 2: the commit is fresh. -/
theorem once_iff_freshCommits_one_block :
    (machine sampleSuite).AllSteps FromProposals (start sampleNode) (commitPending.eraseIdx 1) ∧
      (machine sampleSuite).Always (fun w => Once (w.nodes 2)) (start sampleNode)
        (commitPending.eraseIdx 1) := by
  have hfrom : (machine sampleSuite).AllSteps FromProposals (start sampleNode)
      (commitPending.eraseIdx 1) := by decide +kernel
  have hfresh : (machine sampleSuite).AllSteps (FreshCommit sampleSuite 2) (start sampleNode)
      (commitPending.eraseIdx 1) := by decide +kernel
  exact ⟨hfrom, (once_iff_freshCommits sampleSuite 2 _ _ .production sampleNode
    (sampleNode_new 2) _ hfrom).mpr hfresh⟩

end World

end Specter
