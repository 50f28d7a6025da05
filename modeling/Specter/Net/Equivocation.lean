/-
  File:      Specter/Net/Equivocation.lean
  Subject:   WHO IS ACCUSED: what stands behind an `Equivocation` error of `receive_proposal`.

  The table of seen proposals is keyed by height and leader as the block states them; blocks
  carry no view and no signature of their leader. So blocks injected in the name of a leader
  that never proposed accuse it, and so does a second proposal at the same height when the
  schedule comes round to the leader again after as many view changes as there are validators
  (`accused_without_double_proposal`). What holds is an equivocation per height:

  * `receiveProposal_cases` -- the three outcomes of a received proposal;
  * `WitnessInv` -- every entry of a table is a block the node accepted, every proposal was made
    by the leader scheduled for its height and view;
  * `Authentic` -- blocks in the name of a leader come from its own `propose_block`;
  * `scheduledLeader_view` -- the views in which a validator leads a height are congruent;
  * `accusation_witnessed` -- the accusing node accepted another block of that height and
    leader; if blocks in the leader's name are authentic, it proposed two different blocks at
    that height, so a leader that proposes once per height is never accused.
-/
import Mathlib.Data.Nat.ModEq
import Specter.Net.World

namespace Specter

open Lib

variable {S P : Type} [Field S] [AddCommGroup P] [Module S P]

namespace ConsensusState

omit [Field S] [AddCommGroup P] [Module S P] in
/-- A hash other than the one in the table accuses the leader. -/
theorem receiveProposal_accuses {s : ConsensusState S P} {b : NullifierBlock} {prev : Bytes32}
    (hseen : s.seenProposals (b.height, b.leader) = some prev) (hne : prev ≠ b.hash) :
    s.receiveProposal b = (.error (.equivocation b.leader b.height), s) := by
  unfold receiveProposal
  rw [hseen]
  dsimp only
  rw [if_pos hne]

omit [Field S] [AddCommGroup P] [Module S P] in
/-- The outcomes of a received proposal: an accusation, a known hash, or a first one. -/
theorem receiveProposal_cases (s : ConsensusState S P) (b : NullifierBlock) :
    (∃ prev, s.seenProposals (b.height, b.leader) = some prev ∧ prev ≠ b.hash ∧
      s.receiveProposal b = (.error (.equivocation b.leader b.height), s)) ∨
    s.receiveProposal b = (.ok (), s) ∨
    s.receiveProposal b = (.ok (), s.recordProposal b) := by
  cases hseen : s.seenProposals (b.height, b.leader) with
  | none =>
      refine .inr (.inr ?_)
      unfold receiveProposal
      rw [hseen]
  | some prev =>
      by_cases hne : prev = b.hash
      · refine .inr (.inl ?_)
        unfold receiveProposal
        rw [hseen]
        dsimp only
        rw [if_neg (fun h => h hne)]
      · exact .inl ⟨prev, rfl, hne, receiveProposal_accuses hseen hne⟩

/-- A validator leads a height in views that are congruent modulo the number of validators. -/
theorem scheduledLeader_view {validators : List NodeId} (hnodup : validators.Nodup)
    (hne : validators ≠ []) {height view view' : Nat}
    (h : scheduledLeader validators height view = scheduledLeader validators height view') :
    view % validators.length = view' % validators.length := by
  have hpos : 0 < validators.length := List.length_pos_iff.mpr hne
  have hget : ∀ v, (height % validators.length + v % validators.length) % validators.length <
      validators.length := fun v => Nat.mod_lt _ hpos
  unfold scheduledLeader at h
  rw [List.getD_eq_getElem?_getD, List.getElem?_eq_getElem (hget view), Option.getD_some,
    List.getD_eq_getElem?_getD, List.getElem?_eq_getElem (hget view'), Option.getD_some,
    hnodup.getElem_inj_iff, ← Nat.add_mod, ← Nat.add_mod] at h
  exact Nat.ModEq.add_left_cancel' height h

end ConsensusState

namespace World

/-! ## 1. What the tables and the records say -/

/-- The invariant behind an accusation. -/
structure WitnessInv (validators : List NodeId) (w : World S P) : Prop where
  config : ∀ i, (w.nodes i).nodeId = i ∧ (w.nodes i).validators = validators
  seen : ∀ i key h, (w.nodes i).seenProposals key = some h →
    ∃ b, (i, b) ∈ w.accepted ∧ b.height = key.1 ∧ b.leader = key.2 ∧ b.hash = h
  proposals : ∀ p ∈ w.proposals,
    p.leader = ConsensusState.scheduledLeader validators p.height.toNat p.view.toNat ∧
      p.block.height = p.height

/-- A block in the name of `L` that reaches a node was returned by `L`'s `propose_block`. -/
def Authentic (L : NodeId) (w : World S P) : WorldAct S P → Prop
  | .node _ (.receiveProposal b) => b.leader = L → ∃ p ∈ w.proposals, p.leader = L ∧ p.block = b
  | _ => True

instance (L : NodeId) : ∀ (w : World S P) (a : WorldAct S P), Decidable (Authentic L w a)
  | w, .node _ (.receiveProposal b) => inferInstanceAs
      (Decidable (b.leader = L → ∃ p ∈ w.proposals, p.leader = L ∧ p.block = b))
  | _, .sign _ _ _ => isTrue trivial
  | _, .node _ (.submitNullifier _) => isTrue trivial
  | _, .node _ (.proposeBlock _) => isTrue trivial
  | _, .node _ (.tryCommit _) => isTrue trivial
  | _, .node _ (.receiveVote _) => isTrue trivial
  | _, .node _ .triggerViewChange => isTrue trivial

/-- The accepted blocks in the name of `L` are `L`'s own. -/
def AcceptedOwn (L : NodeId) (w : World S P) : Prop :=
  ∀ i b, (i, b) ∈ w.accepted → b.leader = L → ∃ p ∈ w.proposals, p.leader = L ∧ p.block = b

variable {C : Suite S P} {validators : List NodeId}

omit [Field S] [AddCommGroup P] [Module S P] in
/-- What a received proposal adds to the accepted ones. -/
theorem acceptedAfter_cases (w : World S P) (i : NodeId) (op : ConsensusOp S P) :
    w.acceptedAfter i op = w.accepted ∨
      ∃ b, op = .receiveProposal b ∧ w.acceptedAfter i op = (i, b) :: w.accepted := by
  cases op with
  | receiveProposal b =>
      unfold acceptedAfter
      dsimp only
      rcases (w.nodes i).receiveProposal_cases b with ⟨_, _, _, e⟩ | e | e
      · rw [e]
        exact .inl rfl
      · rw [e]
        exact .inr ⟨b, rfl, rfl⟩
      · rw [e]
        exact .inr ⟨b, rfl, rfl⟩
  | submitNullifier n => exact .inl rfl
  | proposeBlock drained => exact .inl rfl
  | receiveVote v => exact .inl rfl
  | tryCommit b => exact .inl rfl
  | triggerViewChange => exact .inl rfl

/-- What a proposal adds to the record. -/
theorem proposalsAfter_cases (w : World S P) (i : NodeId) (op : ConsensusOp S P) :
    w.proposalsAfter C i op = w.proposals ∨
      ∃ b, (w.nodes i).currentLeader = (w.nodes i).nodeId ∧
        b.height = (w.nodes i).currentHeight ∧
        w.proposalsAfter C i op =
          ⟨i, (w.nodes i).currentHeight, (w.nodes i).view, b⟩ :: w.proposals := by
  cases op with
  | proposeBlock drained =>
      unfold proposalsAfter
      dsimp only
      unfold ConsensusState.proposeBlock
      by_cases hlead : (w.nodes i).currentLeader = (w.nodes i).nodeId
      · rw [if_neg (fun h => h hlead)]
        exact .inr ⟨_, hlead, rfl, rfl⟩
      · rw [if_pos hlead]
        exact .inl rfl
  | receiveProposal b => exact .inl rfl
  | submitNullifier n => exact .inl rfl
  | receiveVote v => exact .inl rfl
  | tryCommit b => exact .inl rfl
  | triggerViewChange => exact .inl rfl

/-- The seen table of a node after an operation. -/
theorem exec_seen {s s' : ConsensusState S P} {op : ConsensusOp S P}
    (h : s.exec C op = some s') :
    s'.seenProposals = s.seenProposals ∨
      ∃ b, op = .receiveProposal b ∧ s.receiveProposal b = (.ok (), s.recordProposal b) ∧
        s' = s.recordProposal b := by
  cases ConsensusState.exec_effect h with
  | @recorded b hseen =>
      refine .inr ⟨b, rfl, ?_, rfl⟩
      unfold ConsensusState.receiveProposal
      rw [hseen]
  | refused href => exact .inl rfl
  | submitted hn => exact .inl rfl
  | proposed hlead hdrain => exact .inl rfl
  | voted herr => exact .inl rfl
  | committed hq hnext => exact .inl rfl
  | viewChanged hnext => exact .inl rfl

omit [Field S] [AddCommGroup P] [Module S P] in
theorem witnessInv_start {keys : NodeId → Option P} {mode : ConsensusMode}
    {nodes : NodeId → ConsensusState S P}
    (hnew : ∀ i, ConsensusState.new i validators keys mode = .ok (nodes i)) :
    WitnessInv validators (start nodes) := by
  refine ⟨fun i => ?_, fun i key h hseen => ?_, fun _ hp => ?_⟩
  · obtain ⟨hid, hval, _⟩ := ConsensusState.new_ok (hnew i)
    exact ⟨hid, hval⟩
  · obtain ⟨_, _, _, _, _, _, _, _, _, hnone⟩ := ConsensusState.new_ok (hnew i)
    change (nodes i).seenProposals key = some h at hseen
    rw [hnone key] at hseen
    cases hseen
  · cases hp

omit [Field S] [AddCommGroup P] [Module S P] in
theorem accepted_subset_after (w : World S P) (i : NodeId) (op : ConsensusOp S P) :
    w.accepted ⊆ w.acceptedAfter i op := by
  rcases w.acceptedAfter_cases i op with e | ⟨b, _, e⟩ <;> rw [e]
  · exact fun _ hx => hx
  · exact List.subset_cons_self _ _

/-- An entry of the table after an operation: an old one is an old acceptance, a new one is the
    block just accepted. -/
theorem WitnessInv.seen_after {w : World S P} (hI : WitnessInv validators w) {i : NodeId}
    {op : ConsensusOp S P} {s : ConsensusState S P} (hs : (w.nodes i).exec C op = some s)
    {key : UInt64 × NodeId} {hash : Bytes32} (hseen : s.seenProposals key = some hash) :
    ∃ b, (i, b) ∈ w.acceptedAfter i op ∧ b.height = key.1 ∧ b.leader = key.2 ∧ b.hash = hash := by
  have hold : (w.nodes i).seenProposals key = some hash →
      ∃ b, (i, b) ∈ w.acceptedAfter i op ∧ b.height = key.1 ∧ b.leader = key.2 ∧
        b.hash = hash := by
    intro h
    obtain ⟨b, hb, hrest⟩ := hI.seen i key hash h
    exact ⟨b, w.accepted_subset_after i op hb, hrest⟩
  rcases exec_seen hs with e | ⟨b, rfl, hok, rfl⟩
  · exact hold (e ▸ hseen)
  · unfold ConsensusState.recordProposal at hseen
    dsimp only at hseen
    by_cases hkey : key = (b.height, b.leader)
    · rw [hkey, Function.update_self] at hseen
      cases hseen
      have hmem : (i, b) ∈ w.acceptedAfter i (.receiveProposal b) := by
        unfold acceptedAfter
        dsimp only
        rw [hok]
        exact List.mem_cons_self
      exact ⟨b, hmem, by rw [hkey], by rw [hkey], rfl⟩
    · rw [Function.update_of_ne hkey] at hseen
      exact hold hseen

theorem witnessInv_step {w w' : World S P} {a : WorldAct S P} (hI : WitnessInv validators w)
    (h : (machine C).step w a = some w') : WitnessInv validators w' := by
  cases a with
  | sign i block approve =>
      have hw := step_sign h
      subst hw
      exact ⟨hI.config, hI.seen, hI.proposals⟩
  | node i op =>
      obtain ⟨s, hs, hnodes, _, hacc, hprop⟩ := step_node h
      have hconf := ConsensusState.exec_config hs
      refine ⟨fun j => ?_, fun j key hash hseen => ?_, fun p hp => ?_⟩
      · rw [hnodes]
        by_cases hji : j = i
        · rw [hji, Function.update_self, hconf.nodeId, hconf.validators]
          exact hI.config i
        · rw [Function.update_of_ne hji]
          exact hI.config j
      · rw [hnodes] at hseen
        rw [hacc]
        by_cases hji : j = i
        · subst hji
          rw [Function.update_self] at hseen
          exact hI.seen_after hs hseen
        · rw [Function.update_of_ne hji] at hseen
          obtain ⟨b, hb, hrest⟩ := hI.seen j key hash hseen
          exact ⟨b, w.accepted_subset_after i op hb, hrest⟩
      · rw [hprop] at hp
        rcases proposalsAfter_cases (C := C) w i op with e | ⟨b, hlead, hheight, e⟩
        · rw [e] at hp
          exact hI.proposals p hp
        · rw [e] at hp
          rcases List.mem_cons.mp hp with rfl | hold
          · obtain ⟨hid, hval⟩ := hI.config i
            unfold ConsensusState.currentLeader at hlead
            rw [hval, hid] at hlead
            exact ⟨hlead.symm, hheight⟩
          · exact hI.proposals p hold

theorem acceptedOwn_step {L : NodeId} {w w' : World S P} {a : WorldAct S P}
    (hI : AcceptedOwn L w) (hauth : Authentic L w a) (h : (machine C).step w a = some w') :
    AcceptedOwn L w' := by
  cases a with
  | sign i block approve =>
      have hw := step_sign h
      subst hw
      exact hI
  | node i op =>
      obtain ⟨s, hs, _, _, hacc, hprop⟩ := step_node h
      have hgrow : w.proposals ⊆ w'.proposals := by
        rw [hprop]
        rcases proposalsAfter_cases (C := C) w i op with e | ⟨b, _, _, e⟩ <;> rw [e]
        · exact fun _ hx => hx
        · exact List.subset_cons_self _ _
      intro j b hb hlead
      rw [hacc] at hb
      have hown : ∃ p ∈ w.proposals, p.leader = L ∧ p.block = b := by
        rcases w.acceptedAfter_cases i op with e | ⟨b', rfl, e⟩
        · rw [e] at hb
          exact hI j b hb hlead
        · rw [e] at hb
          rcases List.mem_cons.mp hb with heq | hold
          · cases heq
            exact hauth hlead
          · exact hI j b hold hlead
      obtain ⟨p, hp, hrest⟩ := hown
      exact ⟨p, hgrow hp, hrest⟩

/-! ## 2. Accusations -/

omit [Field S] [AddCommGroup P] [Module S P] in
/-- An accusation comes from an entry of the table with another hash. -/
theorem WitnessInv.accused {w : World S P} (hI : WitnessInv validators w) {i : NodeId}
    {b : NullifierBlock} {L : NodeId} {h : UInt64}
    (hacc : ((w.nodes i).receiveProposal b).1 = .error (.equivocation L h)) :
    ∃ b', (i, b') ∈ w.accepted ∧ b'.height = h ∧ b'.leader = L ∧ b'.hash ≠ b.hash ∧
      b.leader = L ∧ b.height = h := by
  rcases (w.nodes i).receiveProposal_cases b with ⟨prev, hseen, hne, e⟩ | e | e
  · rw [e] at hacc
    cases hacc
    obtain ⟨b', hb', hheight, hleader, hhash⟩ := hI.seen i _ prev hseen
    exact ⟨b', hb', hheight, hleader, fun heq => hne (hhash.symm.trans heq), rfl, rfl⟩
  · rw [e] at hacc
    cases hacc
  · rw [e] at hacc
    cases hacc

/-- **What stands behind an accusation.** In every run, with any injected blocks: if
    `receive_proposal` names `L` at height `h`, the accusing node had accepted another block of
    that height and leader. If moreover the blocks in the name of `L` that reach nodes are
    authentic, then `L` called `propose_block` twice at that height and got two different
    blocks, in views congruent modulo the number of validators where these are distinct; so a
    leader that proposes at most once per height is never accused. -/
theorem accusation_witnessed (C : Suite S P) (keys : NodeId → Option P) (mode : ConsensusMode)
    (validators : List NodeId) (nodes : NodeId → ConsensusState S P)
    (hnew : ∀ i, ConsensusState.new i validators keys mode = .ok (nodes i))
    (acts : List (WorldAct S P)) (w : World S P)
    (hrun : (machine C).run (start nodes) acts = some w) (i : NodeId) (b : NullifierBlock)
    (L : NodeId) (h : UInt64)
    (hacc : ((w.nodes i).receiveProposal b).1 = .error (.equivocation L h)) :
    (∃ b', (i, b') ∈ w.accepted ∧ b'.height = h ∧ b'.leader = L ∧ b'.hash ≠ b.hash) ∧
    ((machine C).AllSteps (Authentic L) (start nodes) acts →
      Authentic L w (.node i (.receiveProposal b)) →
      (∃ p ∈ w.proposals, ∃ p' ∈ w.proposals, p.leader = L ∧ p'.leader = L ∧
        p.block ≠ p'.block ∧ p.block.height = h ∧ p'.block.height = h ∧
        p.height = h ∧ p'.height = h ∧ (validators.Nodup →
          p.view.toNat % validators.length = p'.view.toNat % validators.length)) ∧
      ¬ ((w.proposals.filter (·.leader = L)).map (·.block.height)).Nodup) := by
  have hI : WitnessInv validators w := (machine C).run_invariant
    (fun _ _ _ hI hs => witnessInv_step hI hs) acts _ w (witnessInv_start hnew) hrun
  obtain ⟨b', hb', hheight', hleader', hhash, hleader, hheight⟩ := hI.accused hacc
  refine ⟨⟨b', hb', hheight', hleader', hhash⟩, fun hauth hlast => ?_⟩
  have hown : AcceptedOwn L w := (machine C).run_invariant_of
    (fun _ _ _ hI hc hs => acceptedOwn_step hI hc hs) acts _ w (fun _ _ hx => by cases hx)
    hauth hrun
  obtain ⟨p, hp, hpL, hpb⟩ := hlast hleader
  obtain ⟨p', hp', hpL', hpb'⟩ := hown i b' hb' hleader'
  have hne : p.block ≠ p'.block := by
    intro heq
    rw [hpb, hpb'] at heq
    exact hhash (congrArg NullifierBlock.hash heq.symm)
  have hph : p.block.height = h := by rw [hpb, hheight]
  have hph' : p'.block.height = h := by rw [hpb', hheight']
  have hat : p.height = h := (hI.proposals p hp).2.symm.trans hph
  have hat' : p'.height = h := (hI.proposals p' hp').2.symm.trans hph'
  refine ⟨⟨p, hp, p', hp', hpL, hpL', hne, hph, hph', hat, hat', fun hnodup => ?_⟩,
    fun hnodup => ?_⟩
  · have hvals : validators ≠ [] := by
      intro hnil
      have hnew' := hnew i
      subst hnil
      cases hnew'
    have e := (hI.proposals p hp).1.symm.trans (hpL.trans (hpL'.symm.trans (hI.proposals p' hp').1))
    rw [hat, hat'] at e
    exact ConsensusState.scheduledLeader_view hnodup hvals e
  · have hin : p ∈ w.proposals.filter (·.leader = L) :=
      List.mem_filter.mpr ⟨hp, by simpa using hpL⟩
    have hin' : p' ∈ w.proposals.filter (·.leader = L) :=
      List.mem_filter.mpr ⟨hp', by simpa using hpL'⟩
    have heq := List.inj_on_of_nodup_map hnodup hin hin' (hph.trans hph'.symm)
    exact hne (congrArg Proposal.block heq)

/-! ## 3. Accused without two proposals in one view -/

/-- Blocks in the name of leader 2, which has proposed nothing. -/
def injectedBlock : NullifierBlock := NullifierBlock.new sampleSuite 0 2 [] zero32

def injectedOther : NullifierBlock := NullifierBlock.new sampleSuite 0 2 [leArr 32 9] zero32

/-- Leader 1 proposes in view 0 and, after four view changes, in view 4. -/
def earlyBlock : NullifierBlock := NullifierBlock.new sampleSuite 0 1 [] zero32

def lateBlock : NullifierBlock := NullifierBlock.new sampleSuite 0 1 [leArr 32 9] zero32

def rescheduledRun : List (WorldAct SampleScalar SamplePoint) :=
  [.node 1 (.proposeBlock []), .node 3 (.receiveProposal earlyBlock),
    .node 1 .triggerViewChange, .node 1 .triggerViewChange, .node 1 .triggerViewChange,
    .node 1 .triggerViewChange, .node 1 (.submitNullifier (leArr 32 9)),
    .node 1 (.proposeBlock [leArr 32 9])]

/-- **Accused without two blocks in one view.** Leader 2 is accused after two injected blocks
    although it never proposed; leader 1 is accused for one block in view 0 and one in view 4. -/
theorem accused_without_double_proposal :
    (∃ w, (machine sampleSuite).run (start sampleNode)
        [.node 3 (.receiveProposal injectedBlock)] = some w ∧
      ((w.nodes 3).receiveProposal injectedOther).1 = .error (.equivocation 2 0) ∧
      w.proposals = []) ∧
    (∃ w, (machine sampleSuite).run (start sampleNode) rescheduledRun = some w ∧
      ((w.nodes 3).receiveProposal lateBlock).1 = .error (.equivocation 1 0) ∧
      w.proposals.map (fun p => (p.leader, p.height, p.view)) = [(1, 0, 4), (1, 0, 0)]) := by
  have hinject : ((machine sampleSuite).run (start sampleNode)
      [.node 3 (.receiveProposal injectedBlock)]).map
      (fun w => decide ((w.nodes 3).seenProposals (0, 2) = some injectedBlock.hash ∧
        injectedBlock.hash ≠ injectedOther.hash ∧ w.proposals = [])) = some true := by
    decide +kernel
  have hresched : ((machine sampleSuite).run (start sampleNode) rescheduledRun).map
      (fun w => decide ((w.nodes 3).seenProposals (0, 1) = some earlyBlock.hash ∧
        earlyBlock.hash ≠ lateBlock.hash ∧
        w.proposals.map (fun p => (p.leader, p.height, p.view)) = [(1, 0, 4), (1, 0, 0)])) =
      some true := by decide +kernel
  constructor
  · obtain ⟨w, hw, hfacts⟩ := Option.map_eq_some_iff.mp hinject
    obtain ⟨hseen, hne, hprop⟩ := of_decide_eq_true hfacts
    refine ⟨w, hw, ?_, hprop⟩
    rw [ConsensusState.receiveProposal_accuses hseen hne]
    rfl
  · obtain ⟨w, hw, hfacts⟩ := Option.map_eq_some_iff.mp hresched
    obtain ⟨hseen, hne, hprop⟩ := of_decide_eq_true hfacts
    refine ⟨w, hw, ?_, hprop⟩
    rw [ConsensusState.receiveProposal_accuses hseen hne]
    rfl

/-- The accusation of leader 1 in that run, whose blocks are all its own. -/
theorem accusation_witnessed_rescheduled :
    ∃ w, (machine sampleSuite).run (start sampleNode) rescheduledRun = some w ∧
      ((w.nodes 3).receiveProposal lateBlock).1 = .error (.equivocation 1 0) ∧
      (∃ b', (3, b') ∈ w.accepted ∧ b'.height = 0 ∧ b'.leader = 1 ∧ b'.hash ≠ lateBlock.hash) ∧
      (∃ p ∈ w.proposals, ∃ p' ∈ w.proposals, p.leader = 1 ∧ p'.leader = 1 ∧
        p.block ≠ p'.block ∧ p.height = 0 ∧ p'.height = 0 ∧
        p.view.toNat % 4 = p'.view.toNat % 4) := by
  have hauth : (machine sampleSuite).AllSteps (Authentic 1) (start sampleNode)
      rescheduledRun := by decide +kernel
  have hresched : ((machine sampleSuite).run (start sampleNode) rescheduledRun).map
      (fun w => decide ((w.nodes 3).seenProposals (0, 1) = some earlyBlock.hash ∧
        earlyBlock.hash ≠ lateBlock.hash ∧
        ∃ p ∈ w.proposals, p.leader = 1 ∧ p.block = lateBlock)) = some true := by decide +kernel
  obtain ⟨w, hw, hfacts⟩ := Option.map_eq_some_iff.mp hresched
  obtain ⟨hseen, hne, hown⟩ := of_decide_eq_true hfacts
  have hacc : ((w.nodes 3).receiveProposal lateBlock).1 = .error (.equivocation 1 0) := by
    rw [ConsensusState.receiveProposal_accuses hseen hne]
    rfl
  obtain ⟨hfirst, hsecond⟩ := accusation_witnessed sampleSuite sampleKeys .production _ sampleNode
    sampleNode_new _ w hw 3 lateBlock 1 0 hacc
  obtain ⟨⟨p, hp, p', hp', h1, h2, h3, _, _, h4, h5, h6⟩, _⟩ := hsecond hauth (fun _ => hown)
  exact ⟨w, hw, hacc, hfirst, p, hp, p', hp', h1, h2, h3, h4, h5, h6 (by decide)⟩

end World

end Specter
