/-
  File:      Specter/Net/Backing.lean
  Subject:   THE VOTES BEHIND A COMMIT, over every run of one node with arbitrary arguments.

  `receive_vote` compares a vote with the height and view in force when it arrives;
  `try_commit` counts the table for the block's hash later. The table is cleared by a view
  change, a commit removes only the entry of the committed hash and moves on to the next
  height, and the block's own height is compared with nothing. So a block can be committed on
  approvals left over from an earlier height; where none are left and blocks are committed at
  their own height, every commit is backed by a current quorum.

  * `Tally` -- a node with the votes it has accepted so far;
  * `TallyInv` -- the table holds accepted, verified votes of the view in force, one per voter,
    and every accepted vote of the height and view in force;
  * `Backed` -- a current quorum stands behind a block; `backed_iff` -- read off the table;
  * `NothingLeft` -- a block is handed to `try_commit` at its own height, with no approval from
    another height in the table for it;
  * `commit_backed` -- then its commit is backed; `commits_backed` -- all commits of a run.
-/
import Mathlib.Data.List.Perm.Subperm
import Specter.Lib.Machine
import Specter.Net.Consensus

namespace Specter

open Lib

variable {S P : Type} [Field S] [AddCommGroup P] [Module S P]

/-- A node and the votes `receive_vote` has returned `Ok` for. -/
structure Tally (S P : Type) where
  node : ConsensusState S P
  received : List (Vote S P)

namespace Tally

/-- The votes accepted after an operation. -/
def receivedAfter (C : Suite S P) (t : Tally S P) : ConsensusOp S P → List (Vote S P)
  | .receiveVote v =>
      match (t.node.receiveVote C v).1 with
      | .ok () => v :: t.received
      | .error _ => t.received
  | _ => t.received

def machine (C : Suite S P) : Machine (Tally S P) (ConsensusOp S P) where
  step t op := (t.node.exec C op).map fun s => ⟨s, t.receivedAfter C op⟩

/-- The vote is signed by the validator it names. -/
def SignedAt (C : Suite S P) (s : ConsensusState S P) (v : Vote S P) : Prop :=
  ∃ pk, s.validatorKeys v.voter = some pk ∧ verifyVoteSignature C v pk = true

/-! ## 1. The invariant -/

structure TallyInv (C : Suite S P) (t : Tally S P) : Prop where
  /-- A vote in the table was accepted, for that hash and in the view in force. -/
  table : ∀ h, ∀ v ∈ t.node.votes h, v ∈ t.received ∧ v.blockHash = h ∧
    SignedAt C t.node v ∧ v.view = t.node.view
  /-- One vote per voter and hash. -/
  single : ∀ h, ((t.node.votes h).map (·.voter)).Nodup
  /-- No accepted vote is ahead of the node. -/
  past : ∀ v ∈ t.received, v.blockHeight ≤ t.node.currentHeight ∧ v.view ≤ t.node.view
  /-- An accepted vote of the height and view in force is still in the table. -/
  present : ∀ v ∈ t.received, v.blockHeight = t.node.currentHeight →
    v.view = t.node.view → v ∈ t.node.votes v.blockHash

variable {C : Suite S P}

theorem tallyInv_new {id : NodeId} {validators : List NodeId} {keys : NodeId → Option P}
    {mode : ConsensusMode} {s : ConsensusState S P}
    (h : ConsensusState.new id validators keys mode = .ok s) :
    TallyInv C ⟨s, []⟩ ∧ 1 ≤ s.quorumSize := by
  obtain ⟨_, _, _, hquorum, _, _, hvotes, _⟩ := ConsensusState.new_ok h
  have hn : 1 ≤ validators.length := by
    unfold ConsensusState.new at h
    dsimp only at h
    split at h
    · cases h
    · omega
  refine ⟨⟨fun k v hv => ?_, fun k => ?_, fun _ hv => ?_, fun _ hv => ?_⟩, ?_⟩
  · dsimp only at hv
    rw [hvotes k] at hv
    cases hv
  · dsimp only
    rw [hvotes k]
    exact List.nodup_nil
  · cases hv
  · cases hv
  · rw [hquorum]
    split <;> omega

/-- A change that leaves the votes, the counters and the keys alone keeps the invariant. -/
theorem TallyInv.frame {t : Tally S P} (hI : TallyInv C t) {s : ConsensusState S P}
    (hvotes : s.votes = t.node.votes) (hheight : s.currentHeight = t.node.currentHeight)
    (hview : s.view = t.node.view) (hkeys : s.validatorKeys = t.node.validatorKeys) :
    TallyInv C ⟨s, t.received⟩ := by
  refine ⟨fun h v hv => ?_, fun h => ?_, fun v hv => ?_, fun v hv h1 h2 => ?_⟩
  · dsimp only at hv ⊢
    rw [hvotes] at hv
    obtain ⟨h1, h2, h3, h4⟩ := hI.table h v hv
    unfold SignedAt at h3 ⊢
    rw [hkeys, hview]
    exact ⟨h1, h2, h3, h4⟩
  · dsimp only
    rw [hvotes]
    exact hI.single h
  · dsimp only
    rw [hheight, hview]
    exact hI.past v hv
  · dsimp only at hv h1 h2 ⊢
    rw [hheight] at h1
    rw [hview] at h2
    rw [hvotes]
    exact hI.present v hv h1 h2

theorem TallyInv.recordVote {t : Tally S P} (hI : TallyInv C t) {v : Vote S P}
    (hadm : t.node.Admits C v) : TallyInv C ⟨t.node.recordVote v, v :: t.received⟩ := by
  refine ⟨fun h u hu => ?_, fun h => ?_, fun u hu => ?_, fun u hu h1 h2 => ?_⟩
  · rcases ConsensusState.mem_votes_recordVote.mp hu with hold | ⟨rfl, rfl⟩
    · obtain ⟨h1, h2, h3, h4⟩ := hI.table h u hold
      exact ⟨List.mem_cons_of_mem _ h1, h2, h3, h4⟩
    · exact ⟨List.mem_cons_self, rfl, hadm.signed, hadm.view⟩
  · exact ConsensusState.SingleVotes.recordVote hI.single hadm.single h
  · rcases List.mem_cons.mp hu with rfl | hold
    · exact ⟨UInt64.le_of_eq hadm.height, UInt64.le_of_eq hadm.view⟩
    · exact hI.past u hold
  · rw [ConsensusState.mem_votes_recordVote]
    rcases List.mem_cons.mp hu with rfl | hold
    · exact .inr ⟨rfl, rfl⟩
    · exact .inl (hI.present u hold h1 h2)

theorem TallyInv.commit {t : Tally S P} (hI : TallyInv C t)
    (hnext : ConsensusState.HasNext t.node.currentHeight) (block : NullifierBlock) :
    TallyInv C ⟨t.node.commit block, t.received⟩ := by
  refine ⟨fun h v hv => ?_, ConsensusState.SingleVotes.commit hI.single block, fun v hv => ?_,
    fun v hv h1 _ => ?_⟩
  · exact hI.table h v (ConsensusState.mem_votes_commit.mp hv).1
  · obtain ⟨h1, h2⟩ := hI.past v hv
    exact ⟨UInt64.le_of_lt (ConsensusState.lt_next hnext h1), h2⟩
  · -- the height moved on, so no accepted vote is of the height in force
    exact absurd h1 (UInt64.ne_of_lt (ConsensusState.lt_next hnext (hI.past v hv).1))

theorem TallyInv.viewChange {t : Tally S P} (hI : TallyInv C t)
    (hnext : ConsensusState.HasNext t.node.view) :
    TallyInv C ⟨t.node.triggerViewChange, t.received⟩ := by
  refine ⟨fun _ _ hv => ?_, fun _ => List.nodup_nil, fun v hv => ?_, fun v hv _ h2 => ?_⟩
  · cases hv
  · obtain ⟨h1, h2⟩ := hI.past v hv
    exact ⟨h1, UInt64.le_of_lt (ConsensusState.lt_next hnext h2)⟩
  · exact absurd h2 (UInt64.ne_of_lt (ConsensusState.lt_next hnext (hI.past v hv).2))

theorem tallyInv_step {t t' : Tally S P} {op : ConsensusOp S P} (hI : TallyInv C t)
    (h : (machine C).step t op = some t') : TallyInv C t' := by
  obtain ⟨s, hs, rfl⟩ := Option.map_eq_some_iff.mp h
  cases ConsensusState.exec_effect hs with
  | refused href =>
      have hrec : t.receivedAfter C op = t.received := by
        cases op with
        | receiveVote v =>
            obtain ⟨e, he⟩ := href
            unfold receivedAfter ConsensusState.receiveVote
            dsimp only
            rw [he]
        | submitNullifier n => rfl
        | proposeBlock drained => rfl
        | receiveProposal b => rfl
        | tryCommit b => rfl
        | triggerViewChange => rfl
      rw [hrec]
      exact hI
  | submitted hn => exact hI.frame rfl rfl rfl rfl
  | proposed hlead hdrain => exact hI.frame rfl rfl rfl rfl
  | recorded hseen => exact hI.frame rfl rfl rfl rfl
  | @voted v hadm =>
      have hrec : t.receivedAfter C (.receiveVote v) = v :: t.received := by
        unfold receivedAfter ConsensusState.receiveVote
        dsimp only
        rw [hadm]
      rw [hrec]
      exact hI.recordVote (ConsensusState.admits_of_voteError hadm)
  | @committed b hq hnext => exact hI.commit hnext b
  | viewChanged hnext => exact hI.viewChange hnext

/-! ## 2. Current quorums -/

/-- Accepted approvals of at least a quorum of different validators stand behind `block`, each
    signed over its hash and its height, at the height and in the view in force. -/
def Backed (C : Suite S P) (t : Tally S P) (block : NullifierBlock) : Prop :=
  ∃ vs : List (Vote S P), (vs.map (·.voter)).Nodup ∧ t.node.quorumSize ≤ vs.length ∧
    ∀ v ∈ vs, v ∈ t.received ∧ v.approve = true ∧ SignedAt C t.node v ∧
      v.blockHash = block.hash ∧ v.blockHeight = block.height ∧
      v.blockHeight = t.node.currentHeight ∧ v.view = t.node.view

/-- The block carries the current height, and a quorum of the approvals in the table for its
    hash came in at the current height. -/
def CurrentQuorum (s : ConsensusState S P) (block : NullifierBlock) : Prop :=
  block.height = s.currentHeight ∧
    s.quorumSize ≤ ((s.approvals block.hash).filter
      fun v => v.blockHeight == s.currentHeight).length

instance (s : ConsensusState S P) (block : NullifierBlock) : Decidable (CurrentQuorum s block) :=
  inferInstanceAs (Decidable (_ ∧ _))

/-- Under the invariant a block is backed exactly on a current quorum. -/
theorem backed_iff {t : Tally S P} (hI : TallyInv C t) (hq : 1 ≤ t.node.quorumSize)
    {block : NullifierBlock} : Backed C t block ↔ CurrentQuorum t.node block := by
  constructor
  · intro h
    obtain ⟨vs, hnodup, hlen, hall⟩ := h
    constructor
    · -- a quorum has a member, and its vote carries both heights
      obtain ⟨v, hv⟩ := List.exists_mem_of_length_pos (Nat.lt_of_lt_of_le hq hlen)
      obtain ⟨_, _, _, _, hblock, hcur, _⟩ := hall v hv
      rw [← hblock, hcur]
    · have hsub : vs ⊆ (t.node.approvals block.hash).filter
          fun v => v.blockHeight == t.node.currentHeight := by
        intro v hv
        obtain ⟨hrec, happ, _, hhash, _, hcur, hview⟩ := hall v hv
        have hin := hI.present v hrec hcur hview
        rw [hhash] at hin
        refine List.mem_filter.mpr ⟨List.mem_filter.mpr ⟨hin, happ⟩, ?_⟩
        exact beq_iff_eq.mpr hcur
      have hle := (List.subperm_of_subset hnodup.of_map hsub).length_le
      omega
  · intro h
    obtain ⟨hheight, hlen⟩ := h
    refine ⟨_, ?_, hlen, fun v hv => ?_⟩
    · have hsl : ((t.node.approvals block.hash).filter
          fun v => v.blockHeight == t.node.currentHeight).Sublist
            (t.node.votes block.hash) :=
        List.filter_sublist.trans List.filter_sublist
      exact (hI.single block.hash).sublist (hsl.map _)
    · obtain ⟨hv, hcur⟩ := List.mem_filter.mp hv
      obtain ⟨hv, happ⟩ := List.mem_filter.mp hv
      obtain ⟨hrec, hhash, hsig, hview⟩ := hI.table block.hash v hv
      have hcur' : v.blockHeight = t.node.currentHeight := beq_iff_eq.mp hcur
      exact ⟨hrec, happ, hsig, hhash, hcur'.trans hheight.symm, hcur', hview⟩

theorem inv_step {t t' : Tally S P} {op : ConsensusOp S P}
    (hI : TallyInv C t ∧ 1 ≤ t.node.quorumSize) (h : (machine C).step t op = some t') :
    TallyInv C t' ∧ 1 ≤ t'.node.quorumSize := by
  refine ⟨tallyInv_step hI.1 h, ?_⟩
  obtain ⟨s', hs', rfl⟩ := Option.map_eq_some_iff.mp h
  rw [(ConsensusState.exec_config hs').quorumSize]
  exact hI.2

/-- The invariant and a positive quorum in every reachable state. -/
theorem tallyInv_run {id : NodeId} {validators : List NodeId} {keys : NodeId → Option P}
    {mode : ConsensusMode} {s : ConsensusState S P}
    (hnew : ConsensusState.new id validators keys mode = .ok s) {ops : List (ConsensusOp S P)}
    {t : Tally S P} (hrun : (machine C).run ⟨s, []⟩ ops = some t) :
    TallyInv C t ∧ 1 ≤ t.node.quorumSize :=
  (machine C).run_invariant (I := fun t => TallyInv C t ∧ 1 ≤ t.node.quorumSize)
    (fun _ _ _ hI hs => inv_step hI hs) ops _ t (tallyInv_new hnew) hrun

/-- A block is handed to `try_commit` at its own height, and no approval from another height is
    left in the table for it. -/
def NothingLeft (t : Tally S P) : ConsensusOp S P → Prop
  | .tryCommit b => b.height = t.node.currentHeight ∧
      ∀ v ∈ t.node.approvals b.hash, v.blockHeight = t.node.currentHeight
  | _ => True

instance (t : Tally S P) : ∀ op : ConsensusOp S P, Decidable (NothingLeft t op)
  | .tryCommit b => inferInstanceAs (Decidable (b.height = t.node.currentHeight ∧
      ∀ v ∈ t.node.approvals b.hash, v.blockHeight = t.node.currentHeight))
  | .submitNullifier _ => isTrue trivial
  | .proposeBlock _ => isTrue trivial
  | .receiveProposal _ => isTrue trivial
  | .receiveVote _ => isTrue trivial
  | .triggerViewChange => isTrue trivial

/-- What the call commits is backed by a current quorum. -/
def CommitBacked (C : Suite S P) (t : Tally S P) : ConsensusOp S P → Prop
  | .tryCommit b => (t.node.tryCommit C b).1 = .ok true → Backed C t b
  | _ => True

/-- With nothing left over, all approvals in the table for the block are current. -/
theorem commit_backed {t : Tally S P} (hI : TallyInv C t) (hq : 1 ≤ t.node.quorumSize)
    {op : ConsensusOp S P} (hleft : NothingLeft t op) : CommitBacked C t op := by
  cases op with
  | tryCommit b =>
      intro hok
      obtain ⟨hheight, hcur⟩ := hleft
      obtain ⟨_, hlen⟩ := ConsensusState.tryCommit_ok_true_iff.mp hok
      refine (backed_iff hI hq).mpr ⟨hheight, ?_⟩
      have hall : (t.node.approvals b.hash).filter
          (fun v => v.blockHeight == t.node.currentHeight) = t.node.approvals b.hash :=
        List.filter_eq_self.mpr fun v hv => beq_iff_eq.mpr (hcur v hv)
      rw [hall]
      exact hlen
  | submitNullifier n => trivial
  | proposeBlock drained => trivial
  | receiveProposal b => trivial
  | receiveVote v => trivial
  | triggerViewChange => trivial

/-- **When commits are backed by a current quorum.** In every run from a new node in which each
    block is handed to `try_commit` at its own height, with no approval from another height left
    in the table for it, a current quorum stands behind everything that is committed. -/
theorem commits_backed (C : Suite S P) (id : NodeId) (validators : List NodeId)
    (keys : NodeId → Option P) (mode : ConsensusMode) (s : ConsensusState S P)
    (hnew : ConsensusState.new id validators keys mode = .ok s) (ops : List (ConsensusOp S P))
    (hleft : (machine C).AllSteps NothingLeft ⟨s, []⟩ ops) :
    (machine C).AllSteps (CommitBacked C) ⟨s, []⟩ ops :=
  (machine C).allSteps_under (I := fun t => TallyInv C t ∧ 1 ≤ t.node.quorumSize)
    (fun _ _ _ hI hc hs => ⟨inv_step hI hs, commit_backed hI.1 hI.2 hc⟩) ops _
    (tallyInv_new hnew) hleft

/-- Two blocks for height 0. -/
def firstBlock : NullifierBlock := NullifierBlock.new sampleSuite 0 1 [leArr 32 1] zero32

def otherBlock : NullifierBlock := NullifierBlock.new sampleSuite 0 1 [leArr 32 2] zero32

/-- Three validators approve both blocks at height 0, and the first one is committed. -/
def leftoverOps : List (ConsensusOp SampleScalar SamplePoint) :=
  [.receiveVote (sampleVote 1 firstBlock 0), .receiveVote (sampleVote 2 firstBlock 0),
    .receiveVote (sampleVote 3 firstBlock 0), .receiveVote (sampleVote 1 otherBlock 0),
    .receiveVote (sampleVote 2 otherBlock 0), .receiveVote (sampleVote 3 otherBlock 0),
    .tryCommit firstBlock]

/-- **A commit on leftover votes.** At height 1 the second block is committed too, with votes
    for height 0 only: no current quorum stands behind it. -/
theorem commit_on_leftover_votes :
    ∃ s t, ConsensusState.new 1 [1, 2, 3, 4] sampleKeys .production = .ok s ∧
      (machine sampleSuite).run ⟨s, []⟩ leftoverOps = some t ∧
      (t.node.tryCommit sampleSuite otherBlock).1 = .ok true ∧
      ¬ Backed sampleSuite t otherBlock := by
  have hrun : ((ConsensusState.new 1 [1, 2, 3, 4] sampleKeys .production).toOption.bind
      fun s => ((machine sampleSuite).run ⟨s, []⟩ leftoverOps).map
      fun t => decide (t.node.Quorate sampleSuite otherBlock ∧
        ¬ CurrentQuorum t.node otherBlock)) = some true := by decide +kernel
  obtain ⟨s, hs, hrun⟩ := Option.bind_eq_some_iff.mp hrun
  obtain ⟨t, ht, hfacts⟩ := Option.map_eq_some_iff.mp hrun
  obtain ⟨hquorate, hnot⟩ := of_decide_eq_true hfacts
  have hnew := ok_of_toOption hs
  obtain ⟨hI, hq⟩ := tallyInv_run hnew ht
  exact ⟨s, t, hnew, ht, ConsensusState.tryCommit_ok_true_iff.mpr hquorate,
    fun hb => hnot ((backed_iff hI hq).mp hb)⟩

/-- The first commit of that run, on the votes for the first block alone, is backed. -/
theorem commits_backed_first :
    ∃ s, ConsensusState.new 1 [1, 2, 3, 4] sampleKeys .production = .ok s ∧
      ((machine sampleSuite).run ⟨s, []⟩ leftoverOps).isSome ∧
      (machine sampleSuite).AllSteps (CommitBacked sampleSuite) ⟨s, []⟩ leftoverOps := by
  have hrun : ((ConsensusState.new 1 [1, 2, 3, 4] sampleKeys .production).toOption.map
      fun s => decide (((machine sampleSuite).run ⟨s, []⟩ leftoverOps).isSome ∧
        (machine sampleSuite).AllSteps NothingLeft ⟨s, []⟩ leftoverOps)) = some true := by
    decide +kernel
  obtain ⟨s, hs, hfacts⟩ := Option.map_eq_some_iff.mp hrun
  obtain ⟨hend, hleft⟩ := of_decide_eq_true hfacts
  have hnew := ok_of_toOption hs
  exact ⟨s, hnew, hend, commits_backed sampleSuite 1 _ _ _ s hnew _ hleft⟩

end Tally

end Specter
