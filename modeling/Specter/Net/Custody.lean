/-
  File:      Specter/Net/Custody.lean
  Subject:   WHERE AN ACCEPTED NULLIFIER IS: pending, committed, or in a block this node proposed
             for the height and view in force.

  Two ways to lose one. `receive_nullifier_broadcast` answers `Ok(true)` and records the
  nullifier in the gossip layer only, so consensus never hears of it. And `propose_block` empties
  the pool before any vote exists: a view change, or the commit of another block, puts the
  proposal out of force, and nothing returns its nullifiers to the pool
  (`accepted_nullifiers_lost` does both in one run).

  * `Custody` -- the node, with the nullifiers it accepted and the blocks it proposed;
  * `Held`, `NotLost` -- the property;
  * `Kept` -- the condition on one call; `notLost_step_iff` -- a call keeps the property exactly
    if it meets the condition;
  * `notLost_iff_kept` -- a run loses nothing exactly if all its calls meet the condition.
-/
import Specter.Lib.Machine
import Specter.Net.Node
import Specter.Net.World

namespace Specter

open Lib

variable {S P : Type} [Field S] [AddCommGroup P] [Module S P]

/-- A node with what it has accepted and proposed so far. -/
structure Custody (S P : Type) where
  node : NetworkNode S P
  accepted : List Bytes32
  proposals : List Proposal

namespace Custody

variable (C : Suite S P)

def start (node : NetworkNode S P) : Custody S P := ⟨node, [], []⟩

/-- The nullifier a call accepts, if any. -/
def acceptedBy (c : Custody S P) : NodeOp S P → List Bytes32
  | .submitNullifier n _ => [n]
  | .receiveNullifierBroadcast n sender r s =>
      if (c.node.receiveNullifierBroadcast C n sender r s).1 = .ok true then [n] else []
  | _ => []

/-- The block a call proposes, if any. -/
def proposedBy (c : Custody S P) : NodeOp S P → List Proposal
  | .consensus (.proposeBlock drained) =>
      match (c.node.consensus.proposeBlock C drained).1 with
      | .ok b => [⟨c.node.id, c.node.consensus.currentHeight, c.node.consensus.view, b⟩]
      | .error _ => []
  | _ => []

def machine : Machine (Custody S P) (NodeOp S P) where
  step c op := (c.node.exec C op).map fun node =>
    { node := node
      accepted := c.acceptedBy C op ++ c.accepted
      proposals := c.proposedBy C op ++ c.proposals }

/-- The proposal is for the height and view in force at the node. -/
def InForce (s : ConsensusState S P) (p : Proposal) : Prop :=
  p.height = s.currentHeight ∧ p.view = s.view

/-- Consensus has the nullifier: pending, committed, or in an own proposal in force. -/
def Held (s : ConsensusState S P) (proposals : List Proposal) (n : Bytes32) : Prop :=
  n ∈ s.pendingNullifiers ∨ n ∈ s.committedNullifiers ∨
    ∃ p ∈ proposals, InForce s p ∧ n ∈ p.block.nullifiers

/-- Every nullifier the node accepted is still held. -/
def NotLost (c : Custody S P) : Prop :=
  ∀ n ∈ c.accepted, Held c.node.consensus c.proposals n

/-- The pool is below its cap when the call is made. -/
def BelowCap (c : Custody S P) (_ : NodeOp S P) : Prop :=
  c.node.consensus.pendingNullifiers.card < ConsensusState.maxPendingNullifiers

/-- Every accepted nullifier of an own proposal in force is also pending or committed, or in
    `extra`. -/
def Covered (c : Custody S P) (extra : List Bytes32) : Prop :=
  ∀ p ∈ c.proposals, InForce c.node.consensus p →
    ∀ n ∈ p.block.nullifiers, n ∈ c.accepted →
      n ∈ c.node.consensus.pendingNullifiers ∨ n ∈ c.node.consensus.committedNullifiers ∨
        n ∈ extra

/-- The condition on one call: a broadcast is accepted as new only if consensus holds its
    nullifier already, and own proposals are put out of force only if they are covered, by the
    block that is committed if there is one. -/
def Kept (c : Custody S P) : NodeOp S P → Prop
  | .receiveNullifierBroadcast n sender r s =>
      c.node.gossip.Takes C c.node.consensus.validatorKeys n sender r s →
        Held c.node.consensus c.proposals n
  | .consensus (.tryCommit b) => c.node.consensus.Quorate C b → c.Covered b.nullifiers
  | .consensus .triggerViewChange => c.Covered []
  | _ => True

instance (s : ConsensusState S P) (p : Proposal) : Decidable (InForce s p) :=
  inferInstanceAs (Decidable (_ ∧ _))

instance (s : ConsensusState S P) (ps : List Proposal) (n : Bytes32) : Decidable (Held s ps n) :=
  inferInstanceAs (Decidable (_ ∨ _ ∨ _))

instance (c : Custody S P) (op : NodeOp S P) : Decidable (BelowCap c op) :=
  inferInstanceAs (Decidable (_ < _))

-- by the members of the list: `Bytes32` is finite, and must not be searched
instance (c : Custody S P) (extra : List Bytes32) : Decidable (c.Covered extra) :=
  have _hall (p : Proposal) : Decidable (∀ n ∈ p.block.nullifiers, n ∈ c.accepted →
      n ∈ c.node.consensus.pendingNullifiers ∨ n ∈ c.node.consensus.committedNullifiers ∨
        n ∈ extra) := List.decidableBAll _ _
  inferInstanceAs (Decidable (∀ p ∈ c.proposals, InForce c.node.consensus p → _))

instance : ∀ (c : Custody S P) (op : NodeOp S P), Decidable (Kept C c op)
  | _, .submitNullifier _ _ => isTrue trivial
  | c, .receiveNullifierBroadcast n sender r s => inferInstanceAs (Decidable
      (c.node.gossip.Takes C c.node.consensus.validatorKeys n sender r s →
        Held c.node.consensus c.proposals n))
  | _, .drainMessagesFor _ => isTrue trivial
  | c, .consensus (.tryCommit b) =>
      inferInstanceAs (Decidable (c.node.consensus.Quorate C b → c.Covered b.nullifiers))
  | c, .consensus .triggerViewChange => inferInstanceAs (Decidable (c.Covered []))
  | _, .consensus (.submitNullifier _) => isTrue trivial
  | _, .consensus (.proposeBlock _) => isTrue trivial
  | _, .consensus (.receiveProposal _) => isTrue trivial
  | _, .consensus (.receiveVote _) => isTrue trivial

/-- Own proposals are not ahead of the node. -/
def Past (c : Custody S P) : Prop :=
  ∀ p ∈ c.proposals, p.height ≤ c.node.consensus.currentHeight ∧ p.view ≤ c.node.consensus.view

variable {C} {c c' : Custody S P}

/-! ## 1. Proposals in force -/

theorem step_some {op : NodeOp S P} (h : (machine C).step c op = some c') :
    c.node.exec C op = some c'.node ∧ c'.accepted = c.acceptedBy C op ++ c.accepted ∧
      c'.proposals = c.proposedBy C op ++ c.proposals := by
  obtain ⟨node, hnode, rfl⟩ := Option.map_eq_some_iff.mp h
  exact ⟨hnode, rfl, rfl⟩

/-- A leader's call of `propose_block` adds one block, for the height and view in force, with
    the drained nullifiers. -/
theorem proposedBy_leader (drained : List Bytes32)
    (hlead : c.node.consensus.currentLeader = c.node.consensus.nodeId) :
    ∃ b, b.nullifiers = drained ∧ c.proposedBy C (.consensus (.proposeBlock drained)) =
      [⟨c.node.id, c.node.consensus.currentHeight, c.node.consensus.view, b⟩] := by
  unfold proposedBy ConsensusState.proposeBlock
  dsimp only
  rw [if_neg (fun h => h hlead)]
  exact ⟨_, rfl, rfl⟩

/-- Nothing is proposed but by a leader. -/
theorem mem_proposedBy {op : NodeOp S P} {p : Proposal} (hp : p ∈ c.proposedBy C op) :
    InForce c.node.consensus p := by
  unfold proposedBy at hp
  split at hp
  · split at hp
    · obtain rfl := List.mem_singleton.mp hp
      exact ⟨rfl, rfl⟩
    · cases hp
  · cases hp

/-- The height and the view never go down. -/
theorem counters_mono {s s' : ConsensusState S P} (op : ConsensusOp S P)
    (h : s.exec C op = some s') : s.currentHeight ≤ s'.currentHeight ∧ s.view ≤ s'.view := by
  cases ConsensusState.exec_effect h with
  | refused href => exact ⟨UInt64.le_rfl, UInt64.le_rfl⟩
  | submitted hn => exact ⟨UInt64.le_rfl, UInt64.le_rfl⟩
  | proposed hlead hdrain => exact ⟨UInt64.le_rfl, UInt64.le_rfl⟩
  | recorded hseen => exact ⟨UInt64.le_rfl, UInt64.le_rfl⟩
  | voted herr => exact ⟨UInt64.le_rfl, UInt64.le_rfl⟩
  | committed hq hnext =>
      exact ⟨UInt64.le_of_lt (ConsensusState.lt_next hnext UInt64.le_rfl), UInt64.le_rfl⟩
  | viewChanged hnext =>
      exact ⟨UInt64.le_rfl, UInt64.le_of_lt (ConsensusState.lt_next hnext UInt64.le_rfl)⟩

/-- A call on the node moves its counters as some consensus operation does, or not at all. -/
theorem counters_mono_node {op : NodeOp S P} {node : NetworkNode S P}
    (h : c.node.exec C op = some node) :
    c.node.consensus.currentHeight ≤ node.consensus.currentHeight ∧
      c.node.consensus.view ≤ node.consensus.view := by
  cases op with
  | submitNullifier n k =>
      cases h
      exact counters_mono (C := C) (.submitNullifier n) rfl
  | receiveNullifierBroadcast n sender r s =>
      cases h
      exact ⟨UInt64.le_rfl, UInt64.le_rfl⟩
  | drainMessagesFor peer =>
      cases h
      exact ⟨UInt64.le_rfl, UInt64.le_rfl⟩
  | consensus cop =>
      obtain ⟨s, hs, rfl⟩ := Option.map_eq_some_iff.mp h
      exact counters_mono cop hs

theorem past_step {op : NodeOp S P} (hI : Past c) (h : (machine C).step c op = some c') :
    Past c' := by
  obtain ⟨hexec, _, hprop⟩ := step_some h
  obtain ⟨hheight, hview⟩ := counters_mono_node hexec
  intro p hp
  rw [hprop] at hp
  have hle : p.height ≤ c.node.consensus.currentHeight ∧ p.view ≤ c.node.consensus.view := by
    rcases List.mem_append.mp hp with hnew | hold
    · obtain ⟨eh, ev⟩ := mem_proposedBy hnew
      exact ⟨UInt64.le_of_eq eh, UInt64.le_of_eq ev⟩
    · exact hI p hold
  exact ⟨UInt64.le_trans hle.1 hheight, UInt64.le_trans hle.2 hview⟩

omit [Field S] [AddCommGroup P] [Module S P] in
/-- A change that takes nothing out of the pool and moves no counter keeps what is held. -/
theorem Held.grow {s s' : ConsensusState S P} {ps ps' : List Proposal} {n : Bytes32}
    (hpend : s.pendingNullifiers ⊆ s'.pendingNullifiers)
    (hcom : s'.committedNullifiers = s.committedNullifiers)
    (hheight : s'.currentHeight = s.currentHeight) (hview : s'.view = s.view) (hps : ps ⊆ ps')
    (h : Held s ps n) : Held s' ps' n := by
  unfold Held InForce
  rw [hcom, hheight, hview]
  rcases h with hp | hc | ⟨p, hp, hforce, hn⟩
  · exact .inl (hpend hp)
  · exact .inr (.inl hc)
  · exact .inr (.inr ⟨p, hps hp, hforce, hn⟩)

omit [Field S] [AddCommGroup P] [Module S P] in
/-- With no own proposal in force, what is held is pending or committed. -/
theorem held_iff_of_none {s : ConsensusState S P} {ps : List Proposal} {n : Bytes32}
    (hnone : ∀ p ∈ ps, ¬ InForce s p) :
    Held s ps n ↔ n ∈ s.pendingNullifiers ∨ n ∈ s.committedNullifiers := by
  constructor
  · rintro (hp | hc | ⟨p, hp, hforce, _⟩)
    · exact .inl hp
    · exact .inr hc
    · exact absurd hforce (hnone p hp)
  · rintro (hp | hc)
    · exact .inl hp
    · exact .inr (.inl hc)

omit [Field S] [AddCommGroup P] [Module S P] in
/-- Where nothing is lost, own proposals are covered exactly if every accepted nullifier is. -/
theorem covered_iff (hc : NotLost c) (extra : List Bytes32) :
    c.Covered extra ↔ ∀ n ∈ c.accepted, n ∈ c.node.consensus.pendingNullifiers ∨
      n ∈ c.node.consensus.committedNullifiers ∨ n ∈ extra := by
  constructor
  · intro hcov n hn
    rcases hc n hn with hp | hcom | ⟨p, hp, hforce, hmem⟩
    · exact .inl hp
    · exact .inr (.inl hcom)
    · exact hcov p hp hforce n hmem hn
  · intro h p _ _ n _ hn
    exact h n hn

/-! ## 2. What each call keeps -/

omit [Field S] [AddCommGroup P] [Module S P] in
/-- A submission loses nothing, and its own nullifier is held. -/
theorem held_submit {s : ConsensusState S P} (ps : List Proposal) (n : Bytes32)
    (hcap : s.pendingNullifiers.card < ConsensusState.maxPendingNullifiers) :
    Held (s.submitNullifier n) ps n ∧
      ∀ m, Held s ps m → Held (s.submitNullifier n) ps m := by
  unfold ConsensusState.submitNullifier
  rw [if_neg (Nat.not_le.mpr hcap)]
  split
  · rename_i hcom
    exact ⟨.inr (.inl hcom), fun _ h => h⟩
  · refine ⟨.inl (Finset.mem_insert_self _ _), fun m h => ?_⟩
    exact h.grow (Finset.subset_insert _ _) rfl rfl rfl (List.Subset.refl _)

theorem notLost_submit {n : Bytes32} {k : S} (hc : NotLost c)
    (hcap : BelowCap c (.submitNullifier n k))
    (h : (machine C).step c (.submitNullifier n k) = some c') : NotLost c' := by
  cases h
  obtain ⟨hself, hold⟩ := held_submit c.proposals n hcap
  intro m hm
  rcases List.mem_cons.mp hm with rfl | hm
  · exact hself
  · exact hold m (hc m hm)

/-- A received broadcast changes nothing in consensus: the nullifier it accepts is held only if
    it was before. -/
theorem notLost_receive_iff {n : Bytes32} {sender : NodeId} {r s : Bytes32} (hc : NotLost c)
    (h : (machine C).step c (.receiveNullifierBroadcast n sender r s) = some c') :
    NotLost c' ↔ Kept C c (.receiveNullifierBroadcast n sender r s) := by
  cases h
  unfold Kept NotLost acceptedBy NetworkNode.receiveNullifierBroadcast
  dsimp only
  rcases GossipProtocol.handleVerifiedBroadcast_cases C c.node.gossip
    c.node.consensus.validatorKeys n sender r s with ⟨htakes, e⟩ | ⟨htakes, res, hres, e⟩
  · rw [e, if_pos rfl]
    constructor
    · intro h _
      exact h n List.mem_cons_self
    · intro h m hm
      rcases List.mem_cons.mp hm with rfl | hm
      · exact h htakes
      · exact hc m hm
  · rw [e]
    rw [if_neg hres]
    exact ⟨fun _ ht => absurd ht htakes, fun _ => hc⟩

omit [Field S] [AddCommGroup P] [Module S P] in
/-- At a later height or in a later view no own proposal is in force. -/
theorem none_inForce {s : ConsensusState S P} (hpast : Past c)
    (hlater : c.node.consensus.currentHeight < s.currentHeight ∨ c.node.consensus.view < s.view) :
    ∀ p ∈ c.proposals, ¬ InForce s p := by
  intro p hp hforce
  obtain ⟨hheight, hview⟩ := hpast p hp
  obtain ⟨hheight', hview'⟩ := hforce
  rcases hlater with hlt | hlt
  · exact UInt64.ne_of_lt (UInt64.lt_of_le_of_lt hheight hlt) hheight'
  · exact UInt64.ne_of_lt (UInt64.lt_of_le_of_lt hview hlt) hview'

/-- A consensus operation keeps everything, but for a commit and a view change, which put the
    own proposals out of force. -/
theorem notLost_consensus_iff {op : ConsensusOp S P} (hpast : Past c) (hc : NotLost c)
    (h : (machine C).step c (.consensus op) = some c') :
    NotLost c' ↔ Kept C c (.consensus op) := by
  obtain ⟨hexec, hacc, hprop⟩ := step_some h
  obtain ⟨s, hs, hnode⟩ := Option.map_eq_some_iff.mp hexec
  have hcons : c'.node.consensus = s := by rw [← hnode]
  have hacc' : c'.accepted = c.accepted := hacc
  unfold NotLost
  rw [hacc', hcons, hprop]
  cases ConsensusState.exec_effect hs with
  | refused href =>
      -- nothing moved, and neither condition applies
      refine ⟨fun _ => ?_, fun _ n hn => (hc n hn).grow (Finset.Subset.refl _) rfl rfl rfl
        (List.subset_append_right _ _)⟩
      cases op with
      | tryCommit b => exact fun hq => absurd hq href
      | triggerViewChange => exact href.elim
      | submitNullifier n => trivial
      | proposeBlock drained => trivial
      | receiveProposal b => trivial
      | receiveVote v => trivial
  | submitted hn =>
      exact ⟨fun _ => trivial, fun _ n hn => (hc n hn).grow (Finset.subset_insert _ _) rfl rfl rfl
        (List.subset_append_right _ _)⟩
  | @proposed drained hlead hdrain =>
      -- the pool moves into the proposal
      refine ⟨fun _ => trivial, fun _ n hn => ?_⟩
      obtain ⟨b, hb, e⟩ := proposedBy_leader (C := C) drained hlead
      rw [e]
      rcases hc n hn with hpend | hcom | ⟨p, hp, hforce, hmem⟩
      · refine .inr (.inr ⟨_, List.mem_cons_self, ⟨rfl, rfl⟩, ?_⟩)
        rw [hb]
        exact List.mem_toFinset.mp (hdrain.2 ▸ hpend)
      · exact .inr (.inl hcom)
      · exact .inr (.inr ⟨p, List.mem_cons_of_mem _ hp, hforce, hmem⟩)
  | recorded hseen =>
      exact ⟨fun _ => trivial, fun _ n hn => (hc n hn).grow (Finset.Subset.refl _) rfl rfl rfl
        (List.subset_append_right _ _)⟩
  | voted herr =>
      exact ⟨fun _ => trivial, fun _ n hn => (hc n hn).grow (Finset.Subset.refl _) rfl rfl rfl
        (List.subset_append_right _ _)⟩
  | @committed b hq hnext =>
      have hnone : ∀ p ∈ c.proposals, ¬ InForce (c.node.consensus.commit b) p :=
        none_inForce hpast (.inl (ConsensusState.lt_next hnext UInt64.le_rfl))
      show (∀ n ∈ c.accepted, Held _ c.proposals n) ↔ (_ → c.Covered b.nullifiers)
      rw [forall_prop_of_true hq, covered_iff hc]
      refine forall₂_congr fun n _ => ?_
      rw [held_iff_of_none hnone]
      show n ∈ _ ∨ n ∈ c.node.consensus.committedNullifiers ∪ b.nullifiers.toFinset ↔ _
      rw [Finset.mem_union, List.mem_toFinset]
      exact Iff.rfl
  | viewChanged hnext =>
      have hnone : ∀ p ∈ c.proposals, ¬ InForce c.node.consensus.triggerViewChange p :=
        none_inForce hpast (.inr (ConsensusState.lt_next hnext UInt64.le_rfl))
      show (∀ n ∈ c.accepted, Held _ c.proposals n) ↔ c.Covered []
      rw [covered_iff hc]
      refine forall₂_congr fun n _ => ?_
      rw [held_iff_of_none hnone]
      simp [ConsensusState.triggerViewChange]

/-- **One call keeps the property exactly if it meets the condition.** -/
theorem notLost_step_iff {op : NodeOp S P} (hpast : Past c) (hc : NotLost c)
    (hcap : BelowCap c op) (h : (machine C).step c op = some c') :
    NotLost c' ↔ Kept C c op := by
  cases op with
  | submitNullifier n k => exact ⟨fun _ => trivial, fun _ => notLost_submit hc hcap h⟩
  | receiveNullifierBroadcast n sender r s => exact notLost_receive_iff hc h
  | drainMessagesFor peer =>
      cases h
      exact ⟨fun _ => trivial, fun _ => hc⟩
  | consensus cop => exact notLost_consensus_iff hpast hc h

/-- **When no nullifier is lost.** In every run of a network node, from whatever state, in which
    the pool stays below its cap: every nullifier accepted in the run is held in every later
    state of it if and only if every call of the run meets the condition `Kept`. -/
theorem notLost_iff_kept (C : Suite S P) (node : NetworkNode S P) (ops : List (NodeOp S P))
    (hcap : (machine C).AllSteps BelowCap (start node) ops) :
    (machine C).Always NotLost (start node) ops ↔
      (machine C).AllSteps (Kept C) (start node) ops :=
  (machine C).always_iff_allSteps (fun _ _ _ hI h => past_step hI h)
    (fun _ _ _ hI hc hR h => notLost_step_iff hI hc hR h) ops (start node)
    (fun _ hp => by cases hp) (fun _ hn => by cases hn) hcap

/-! ## 3. Two nullifiers lost -/

/-- Leader 1 submits a nullifier and proposes it, and the view changes; then a nullifier of
    validator 2 arrives. -/
def losingRun : List (NodeOp SampleScalar SamplePoint) :=
  [.submitNullifier (leArr 32 5) 3, .consensus (.proposeBlock [leArr 32 5]),
    .consensus .triggerViewChange, sampleBroadcast 2 (leArr 32 6)]

/-- **Accepted nullifiers are lost**: the submitted one with the view, the received one at
    once. -/
theorem accepted_nullifiers_lost :
    ∃ c, NetworkNode.new 1 [2, 3, 4] (sampleKey 1) [1, 2, 3, 4] sampleKeys =
        some (sampleNetworkNode 1) ∧
      (machine sampleSuite).AllSteps BelowCap (start (sampleNetworkNode 1)) losingRun ∧
      (machine sampleSuite).run (start (sampleNetworkNode 1)) losingRun = some c ∧
      c.accepted = [leArr 32 6, leArr 32 5] ∧ c.node.gossip.seenNullifiers.card = 2 ∧
      ¬ Held c.node.consensus c.proposals (leArr 32 5) ∧
      ¬ Held c.node.consensus c.proposals (leArr 32 6) := by
  have hcap : (machine sampleSuite).AllSteps BelowCap (start (sampleNetworkNode 1)) losingRun := by
    decide +kernel
  have hrun : ((machine sampleSuite).run (start (sampleNetworkNode 1)) losingRun).map
      (fun c => decide (c.accepted = [leArr 32 6, leArr 32 5] ∧
        c.node.gossip.seenNullifiers.card = 2 ∧
        ¬ Held c.node.consensus c.proposals (leArr 32 5) ∧
        ¬ Held c.node.consensus c.proposals (leArr 32 6))) = some true := by decide +kernel
  obtain ⟨c, hc, hfacts⟩ := Option.map_eq_some_iff.mp hrun
  exact ⟨c, sampleNetworkNode_new 1, hcap, hc, of_decide_eq_true hfacts⟩

def submittedBlock : NullifierBlock := NullifierBlock.new sampleSuite 0 1 [leArr 32 5] zero32

/-- The proposal is committed before anything puts it out of force; the broadcast that comes
    back is known already. -/
def keepingRun : List (NodeOp SampleScalar SamplePoint) :=
  [.submitNullifier (leArr 32 5) 3, .consensus (.proposeBlock [leArr 32 5]),
    .consensus (.receiveVote (sampleVote 1 submittedBlock 0)),
    .consensus (.receiveVote (sampleVote 2 submittedBlock 0)),
    .consensus (.receiveVote (sampleVote 3 submittedBlock 0)),
    .consensus (.tryCommit submittedBlock), .consensus .triggerViewChange,
    sampleBroadcast 2 (leArr 32 5)]

theorem notLost_iff_kept_committed :
    (machine sampleSuite).AllSteps BelowCap (start (sampleNetworkNode 1)) keepingRun ∧
      (machine sampleSuite).Always NotLost (start (sampleNetworkNode 1)) keepingRun := by
  have hcap : (machine sampleSuite).AllSteps BelowCap (start (sampleNetworkNode 1))
      keepingRun := by decide +kernel
  have hkept : (machine sampleSuite).AllSteps (Kept sampleSuite) (start (sampleNetworkNode 1))
      keepingRun := by decide +kernel
  exact ⟨hcap, (notLost_iff_kept sampleSuite _ _ hcap).mpr hkept⟩

end Custody

end Specter
