/-
  File:      Specter/Net/Agreement.lean
  Subject:   AGREEMENT: no two honest nodes commit different blocks at one index.

  A view change clears the table of votes and nothing remembers across views what a validator
  has approved, so with one approval per (height, view) two views at one height can each gather
  a quorum (`views_commit_two_blocks`). Agreement holds in every run in which the honest
  validators are locked: they approve at most one block per height, whatever the view, and only
  blocks whose hash field is the hash of their contents.

  * `Committee` -- 3f+1 validators of which at most f are not honest;
  * `Locked` -- the condition on the votes honest validators sign;
  * `Certified` -- a quorum whose honest members approved a hash at a height;
    `certified_unique` -- one hash per height, by quorum intersection;
  * `NodeInv` -- what the table and the chain of an honest node hold;
    `commit_certified` -- a committed block is certified at the index it takes: votes left over
    from earlier heights cannot carry it;
  * `agreement` -- agreement over every run.
-/
import Specter.Lib.Quorum
import Specter.Net.World

namespace Specter

open Lib

variable {S P : Type} [Field S] [AddCommGroup P] [Module S P]

/-- The validators, their keys, and the honest ones among them. -/
structure Committee (P : Type) where
  validators : List NodeId
  keys : NodeId → Option P
  honest : Finset NodeId
  faults : Nat
  size : validators.length = 3 * faults + 1
  byzantine : (validators.toFinset \ honest).card ≤ faults
  known : ∀ i pk, keys i = some pk → i ∈ validators

namespace World

variable (C : Suite S P) (K : Committee P)

/-- An honest validator approves a block only if its hash is the hash of its contents and it
    has approved no other block of that height. -/
def Locked (w : World S P) : WorldAct S P → Prop
  | .sign i block true => i ∈ K.honest → block.WellFormed C ∧
      ∀ x ∈ w.ballots, x.voter = i → x.approve = true → x.height = block.height →
        x.hash = block.hash
  | _ => True

instance : ∀ (w : World S P) (a : WorldAct S P), Decidable (Locked C K w a)
  | w, .sign i block true => inferInstanceAs (Decidable (i ∈ K.honest → block.WellFormed C ∧
      ∀ x ∈ w.ballots, x.voter = i → x.approve = true → x.height = block.height →
        x.hash = block.hash))
  | _, .sign _ _ false => isTrue trivial
  | _, .node _ _ => isTrue trivial

/-! ## 1. Certificates -/

/-- Validator `q` has approved the hash `h` at height `k`. -/
def Approved (ballots : List Ballot) (q : NodeId) (k : Nat) (h : Bytes32) : Prop :=
  ∃ x ∈ ballots, x.voter = q ∧ x.approve = true ∧ x.height.toNat = k ∧ x.hash = h

/-- A quorum of validators whose honest members approved `h` at height `k`. -/
def Certified (ballots : List Ballot) (k : Nat) (h : Bytes32) : Prop :=
  ∃ Q : Finset NodeId, Q ⊆ K.validators.toFinset ∧ 2 * K.faults + 1 ≤ Q.card ∧
    ∀ q ∈ Q, q ∈ K.honest → Approved ballots q k h

/-- What the approvals of honest validators satisfy. -/
structure BallotInv (bs : List NullifierBlock) (ballots : List Ballot) : Prop where
  formed : ∀ x ∈ ballots, x.voter ∈ K.honest → x.approve = true →
    ∃ b ∈ bs, b.WellFormed C ∧ b.hash = x.hash ∧ b.height = x.height
  locked : ∀ x ∈ ballots, ∀ y ∈ ballots, x.voter ∈ K.honest → y.voter = x.voter →
    x.approve = true → y.approve = true → y.height = x.height → y.hash = x.hash

variable {C K} {bs : List NullifierBlock} {ballots : List Ballot}

theorem Approved.mono {more : List Ballot} (hsub : ballots ⊆ more) {q : NodeId} {k : Nat}
    {h : Bytes32} (ha : Approved ballots q k h) : Approved more q k h := by
  obtain ⟨x, hx, hrest⟩ := ha
  exact ⟨x, hsub hx, hrest⟩

omit [AddCommGroup P] in
theorem Certified.mono {more : List Ballot} (hsub : ballots ⊆ more) {k : Nat} {h : Bytes32}
    (hc : Certified K ballots k h) : Certified K more k h := by
  obtain ⟨Q, hQ, hcard, hall⟩ := hc
  exact ⟨Q, hQ, hcard, fun q hq hh => (hall q hq hh).mono hsub⟩

/-- **One hash per height**: two certificates share an honest validator, and it is locked. -/
theorem certified_unique (hB : BallotInv C K bs ballots) {k : Nat} {h h' : Bytes32}
    (hc : Certified K ballots k h) (hc' : Certified K ballots k h') : h = h' := by
  obtain ⟨Q, hQ, hcard, hall⟩ := hc
  obtain ⟨Q', hQ', hcard', hall'⟩ := hc'
  have hsize : K.validators.toFinset.card ≤ 3 * K.faults + 1 := by
    rw [← K.size]
    exact List.toFinset_card_le _
  have hlt : K.validators.toFinset.card + K.faults < Q.card + Q'.card := by omega
  obtain ⟨q, hq, hq', hgood⟩ := Quorum.exists_good_common hQ hQ' K.byzantine hlt
  have hhonest : q ∈ K.honest := by
    refine Classical.byContradiction fun hno => hgood ?_
    exact Finset.mem_sdiff.mpr ⟨hQ hq, hno⟩
  obtain ⟨x, hx, hxq, hxa, hxk, hxh⟩ := hall q hq hhonest
  obtain ⟨y, hy, hyq, hya, hyk, hyh⟩ := hall' q hq' hhonest
  have hheight : y.height = x.height := UInt64.toNat_inj.mp (hyk.trans hxk.symm)
  have hhash := hB.locked x hx y hy (hxq ▸ hhonest) (hyq.trans hxq.symm) hxa hya hheight
  rw [← hxh, ← hyh, hhash]

/-! ## 2. One node -/

/-- The invariant of an honest node, against the ballots signed so far. -/
structure NodeInv (C : Suite S P) (K : Committee P) (bs : List NullifierBlock)
    (ballots : List Ballot) (s : ConsensusState S P) : Prop where
  quorum : s.quorumSize = 2 * K.faults + 1
  keys : s.validatorKeys = K.keys
  height : s.currentHeight.toNat = s.committedBlocks.length
  /-- Votes in the table: for that hash, by a validator, not from the future, and an honest
      approval among them was really signed. -/
  table : ∀ h, ∀ v ∈ s.votes h, v.voter ∈ K.validators ∧
    v.blockHeight ≤ s.currentHeight ∧
    (v.voter ∈ K.honest → v.approve = true → Approved ballots v.voter v.blockHeight.toNat h)
  single : ∀ h, ((s.votes h).map (·.voter)).Nodup
  /-- A vote left over from height `k` is not for the block committed at index `k`. -/
  stale : ∀ h, ∀ v ∈ s.votes h, ∀ b, s.committedBlocks[v.blockHeight.toNat]? = some b →
    b.hash ≠ h
  certified : ∀ (k : Nat) b, s.committedBlocks[k]? = some b →
    b ∈ bs ∧ b.WellFormed C ∧ b.height.toNat = k ∧ Certified K ballots k b.hash

theorem NodeInv.mono {more : List Ballot} (hsub : ballots ⊆ more) {s : ConsensusState S P}
    (hI : NodeInv C K bs ballots s) : NodeInv C K bs more s := by
  refine ⟨hI.quorum, hI.keys, hI.height, fun h v hv => ?_, hI.single, hI.stale, fun k b hb => ?_⟩
  · obtain ⟨h1, h2, h3⟩ := hI.table h v hv
    exact ⟨h1, h2, fun hh ha => (h3 hh ha).mono hsub⟩
  · obtain ⟨h1, h2, h3, h4⟩ := hI.certified k b hb
    exact ⟨h1, h2, h3, h4.mono hsub⟩

/-- A change of other fields keeps the invariant. -/
theorem NodeInv.frame {s s' : ConsensusState S P} (hI : NodeInv C K bs ballots s)
    (hc : ConsensusState.SameConfig s s') (hvotes : s'.votes = s.votes)
    (hheight : s'.currentHeight = s.currentHeight)
    (hblocks : s'.committedBlocks = s.committedBlocks) : NodeInv C K bs ballots s' := by
  refine ⟨hc.quorumSize.trans hI.quorum, hc.validatorKeys.trans hI.keys, ?_, ?_, ?_, ?_, ?_⟩
  · rw [hheight, hblocks]
    exact hI.height
  · rw [hvotes, hheight]
    exact hI.table
  · rw [hvotes]
    exact hI.single
  · rw [hvotes, hblocks]
    exact hI.stale
  · rw [hblocks]
    exact hI.certified

theorem NodeInv.recordVote {s : ConsensusState S P} (hI : NodeInv C K bs ballots s)
    {v : Vote S P} (hadm : s.Admits C v)
    (hsigned : v.voter ∈ K.honest → ∃ x ∈ ballots, x.message = v.message) :
    NodeInv C K bs ballots (s.recordVote v) := by
  refine ⟨hI.quorum, hI.keys, hI.height, fun h u hu => ?_,
    ConsensusState.SingleVotes.recordVote hI.single hadm.single, fun h u hu b hb => ?_,
    hI.certified⟩
  · rcases ConsensusState.mem_votes_recordVote.mp hu with hold | ⟨rfl, rfl⟩
    · exact hI.table h u hold
    · obtain ⟨pk, hpk, _⟩ := hadm.signed
      rw [hI.keys] at hpk
      refine ⟨K.known _ pk hpk, UInt64.le_of_eq hadm.height, fun hh ha => ?_⟩
      obtain ⟨x, hx, hmsg⟩ := hsigned hh
      obtain ⟨h1, h2, h3, h4⟩ := ballot_of_message hmsg
      exact ⟨x, hx, h1, h4.trans ha, by rw [h2], h3⟩
  · rcases ConsensusState.mem_votes_recordVote.mp hu with hold | ⟨rfl, rfl⟩
    · exact hI.stale h u hold b hb
    · -- the vote is for the current height, where nothing is committed yet
      have hlen := (List.getElem?_eq_some_iff.mp hb).1
      rw [hadm.height, hI.height] at hlen
      exact absurd hlen (Nat.lt_irrefl _)

theorem NodeInv.viewChange {s : ConsensusState S P} (hI : NodeInv C K bs ballots s) :
    NodeInv C K bs ballots s.triggerViewChange := by
  refine ⟨hI.quorum, hI.keys, hI.height, fun _ _ hv => ?_, fun _ => List.nodup_nil,
    fun _ _ hv => ?_, hI.certified⟩
  · cases hv
  · cases hv

/-- An honest approval in the table for a block that hashes to its key is for the block's own
    height. -/
theorem NodeInv.approval (hB : BallotInv C K bs ballots) (hcol : CollisionFree C bs)
    {s : ConsensusState S P} (hI : NodeInv C K bs ballots s) {b : NullifierBlock} (hb : b ∈ bs)
    (hwf : b.WellFormed C) {v : Vote S P} (hv : v ∈ s.votes b.hash) (ha : v.approve = true)
    (hh : v.voter ∈ K.honest) :
    Approved ballots v.voter b.height.toNat b.hash ∧ v.blockHeight.toNat = b.height.toNat := by
  obtain ⟨_, _, happ⟩ := hI.table b.hash v hv
  obtain ⟨x, hx, hxv, hxa, hxk, hxh⟩ := happ hh ha
  obtain ⟨b', hb', hwf', hhash', hheight'⟩ := hB.formed x hx (hxv ▸ hh) hxa
  have heq : b' = b :=
    NullifierBlock.eq_of_hash hwf' hwf (hcol b' hb' b hb) (hhash'.trans hxh)
  have hk : b.height.toNat = v.blockHeight.toNat := by
    rw [← heq, hheight', hxk]
  exact ⟨⟨x, hx, hxv, hxa, hxk.trans hk.symm, hxh⟩, hk.symm⟩

/-- **A block with a quorum is certified at the node's height.** The honest approvals for its
    hash are for the block's own height; that height is not an earlier one, because there
    another block is committed and certificates are unique. -/
theorem commit_certified (hB : BallotInv C K bs ballots) (hcol : CollisionFree C bs)
    {s : ConsensusState S P} (hI : NodeInv C K bs ballots s) {b : NullifierBlock} (hb : b ∈ bs)
    (hq : s.Quorate C b) :
    b.height = s.currentHeight ∧ Certified K ballots s.currentHeight.toNat b.hash := by
  obtain ⟨hwf, hlen⟩ := hq
  have hmem : ∀ v ∈ s.approvals b.hash, v ∈ s.votes b.hash ∧ v.approve = true :=
    fun v hv => List.mem_filter.mp hv
  have hnodup : ((s.approvals b.hash).map (·.voter)).Nodup :=
    (hI.single b.hash).sublist (List.filter_sublist.map _)
  have hheights : ∀ v ∈ s.approvals b.hash, v.voter ∈ K.honest →
      Approved ballots v.voter b.height.toNat b.hash ∧
        v.blockHeight.toNat = b.height.toNat :=
    fun v hv hh => hI.approval hB hcol hb hwf (hmem v hv).1 (hmem v hv).2 hh
  have hQcard : ((s.approvals b.hash).map (·.voter)).toFinset.card =
      (s.approvals b.hash).length := Quorum.card_map_of_nodup hnodup
  have hcert : Certified K ballots b.height.toNat b.hash := by
    refine ⟨((s.approvals b.hash).map (·.voter)).toFinset, fun q hq => ?_, ?_, fun q hq hh => ?_⟩
    · obtain ⟨v, hv, rfl⟩ := List.mem_map.mp (List.mem_toFinset.mp hq)
      exact List.mem_toFinset.mpr (hI.table b.hash v (hmem v hv).1).1
    · rw [hQcard, ← hI.quorum]
      exact hlen
    · obtain ⟨v, hv, rfl⟩ := List.mem_map.mp (List.mem_toFinset.mp hq)
      exact (hheights v hv hh).1
  have hheight : b.height.toNat = s.currentHeight.toNat := by
    -- some honest validator is behind the block
    obtain ⟨q, hq, hgood⟩ := Quorum.exists_good (A := ((s.approvals b.hash).map (·.voter)).toFinset)
      K.byzantine (by rw [hQcard]; have := hI.quorum; omega)
    obtain ⟨v, hv, rfl⟩ := List.mem_map.mp (List.mem_toFinset.mp hq)
    obtain ⟨hvotes, _⟩ := hmem v hv
    obtain ⟨hval, hle, _⟩ := hI.table b.hash v hvotes
    have hh : v.voter ∈ K.honest := by
      refine Classical.byContradiction fun hno => hgood ?_
      exact Finset.mem_sdiff.mpr ⟨List.mem_toFinset.mpr hval, hno⟩
    have hvk := (hheights v hv hh).2
    refine Nat.le_antisymm (hvk ▸ UInt64.le_iff_toNat_le.mp hle) (Nat.le_of_not_lt fun hlt => ?_)
    have hin : b.height.toNat < s.committedBlocks.length := hI.height ▸ hlt
    have hget := List.getElem?_eq_getElem hin
    obtain ⟨_, _, _, hcert'⟩ := hI.certified _ _ hget
    have hget' : s.committedBlocks[v.blockHeight.toNat]? =
        some (s.committedBlocks.get ⟨_, hin⟩) := by
      rw [hvk]
      exact hget
    exact hI.stale b.hash v hvotes _ hget' (certified_unique hB hcert' hcert)
  exact ⟨UInt64.toNat_inj.mp hheight, hheight ▸ hcert⟩

theorem NodeInv.commit (hB : BallotInv C K bs ballots) (hcol : CollisionFree C bs)
    {s : ConsensusState S P} (hI : NodeInv C K bs ballots s) {b : NullifierBlock} (hb : b ∈ bs)
    (hq : s.Quorate C b) (hnext : ConsensusState.HasNext s.currentHeight) :
    NodeInv C K bs ballots (s.commit b) := by
  obtain ⟨hheight, hcert⟩ := commit_certified hB hcol hI hb hq
  -- a block of the new chain is an old one, or the new one at the top
  have hblocks : ∀ (k : Nat) b', (s.commit b).committedBlocks[k]? = some b' →
      s.committedBlocks[k]? = some b' ∨ (k = s.currentHeight.toNat ∧ b' = b) := by
    intro k b' hb'
    change (s.committedBlocks ++ [b])[k]? = some b' at hb'
    rcases Nat.lt_or_ge k s.committedBlocks.length with hlt | hge
    · rw [List.getElem?_append_left hlt] at hb'
      exact .inl hb'
    · rw [List.getElem?_append_right hge] at hb'
      obtain ⟨hk, he⟩ := List.getElem?_eq_some_iff.mp hb'
      rw [List.length_singleton] at hk
      refine .inr ⟨by rw [hI.height]; omega, ?_⟩
      rw [← he]
      exact List.getElem_singleton hk
  refine ⟨hI.quorum, hI.keys, ?_, fun h v hv => ?_,
    ConsensusState.SingleVotes.commit hI.single b, fun h v hv b' hb' => ?_, fun k b' hb' => ?_⟩
  · show (s.currentHeight + 1).toNat = (s.committedBlocks ++ [b]).length
    rw [ConsensusState.toNat_next hnext, List.length_append, hI.height]
    rfl
  · obtain ⟨h1, h2, h3⟩ := hI.table h v (ConsensusState.mem_votes_commit.mp hv).1
    refine ⟨h1, UInt64.le_iff_toNat_le.mpr ?_, h3⟩
    show v.blockHeight.toNat ≤ (s.currentHeight + 1).toNat
    rw [ConsensusState.toNat_next hnext]
    exact Nat.le_succ_of_le (UInt64.le_iff_toNat_le.mp h2)
  · obtain ⟨hv, hne⟩ := ConsensusState.mem_votes_commit.mp hv
    rcases hblocks _ b' hb' with hold | ⟨_, rfl⟩
    · exact hI.stale h v hv b' hold
    · exact hne.symm
  · rcases hblocks k b' hb' with hold | ⟨rfl, rfl⟩
    · exact hI.certified k b' hold
    · exact ⟨hb, hq.1, by rw [hheight], hcert⟩

/-- An operation at an honest node keeps its invariant. -/
theorem NodeInv.exec (hB : BallotInv C K bs ballots) (hcol : CollisionFree C bs)
    {s s' : ConsensusState S P} {op : ConsensusOp S P} (hI : NodeInv C K bs ballots s)
    (hvote : ∀ v, op = .receiveVote v → v.voter ∈ K.honest → s.Admits C v →
      ∃ x ∈ ballots, x.message = v.message)
    (hblock : ∀ b, op = .tryCommit b → b ∈ bs) (h : s.exec C op = some s') :
    NodeInv C K bs ballots s' := by
  have hc := ConsensusState.exec_config h
  cases ConsensusState.exec_effect h with
  | refused href => exact hI
  | submitted hn => exact hI.frame hc rfl rfl rfl
  | proposed hlead hdrain => exact hI.frame hc rfl rfl rfl
  | recorded hseen => exact hI.frame hc rfl rfl rfl
  | @voted v herr =>
      have hadm := ConsensusState.admits_of_voteError herr
      exact hI.recordVote hadm fun hh => hvote v rfl hh hadm
  | @committed b hq hnext => exact hI.commit hB hcol (hblock b rfl) hq hnext
  | viewChanged hnext => exact hI.viewChange

/-! ## 3. All nodes -/

/-- The invariant of the world. -/
structure AgreeInv (C : Suite S P) (K : Committee P) (bs : List NullifierBlock)
    (w : World S P) : Prop where
  ballots : BallotInv C K bs w.ballots
  nodes : ∀ i ∈ K.honest, NodeInv C K bs w.ballots (w.nodes i)

/-- A step that keeps to the rules, by locked validators, on blocks of `bs`. -/
structure LockedStep (C : Suite S P) (K : Committee P) (bs : List NullifierBlock)
    (w : World S P) (a : WorldAct S P) : Prop where
  rules : Rules C K.honest w a
  locked : Locked C K w a
  blocks : ∀ b ∈ blocksOf a, b ∈ bs

theorem agreeInv_start {nodes : NodeId → ConsensusState S P} {mode : ConsensusMode}
    (hnew : ∀ i ∈ K.honest, ConsensusState.new i K.validators K.keys mode = .ok (nodes i)) :
    AgreeInv C K bs (start nodes) := by
  refine ⟨⟨fun _ hx => ?_, fun _ hx => ?_⟩, fun i hi => ?_⟩
  · cases hx
  · cases hx
  · obtain ⟨_, _, hkeys, hquorum, hheight, hblocks, hvotes, _⟩ :=
      ConsensusState.new_ok (hnew i hi)
    refine ⟨?_, hkeys, ?_, fun h v hv => ?_, fun h => ?_, fun h v hv => ?_, fun k b hb => ?_⟩
    · show (nodes i).quorumSize = _
      have := K.size
      rw [hquorum]
      split <;> omega
    · show (nodes i).currentHeight.toNat = (nodes i).committedBlocks.length
      rw [hheight, hblocks]
      rfl
    · change v ∈ (nodes i).votes h at hv
      rw [hvotes h] at hv
      cases hv
    · show (((nodes i).votes h).map (·.voter)).Nodup
      rw [hvotes h]
      exact List.nodup_nil
    · change v ∈ (nodes i).votes h at hv
      rw [hvotes h] at hv
      cases hv
    · change (nodes i).committedBlocks[k]? = some b at hb
      rw [hblocks] at hb
      cases hb

/-- A signed ballot keeps the invariant of the ballots. -/
theorem ballotInv_sign {w : World S P} {i : NodeId} {block : NullifierBlock} {approve : Bool}
    (hB : BallotInv C K bs w.ballots) (hlock : Locked C K w (.sign i block approve))
    (hb : block ∈ bs) : BallotInv C K bs (w.ballotOf i block approve :: w.ballots) := by
  have hnew : i ∈ K.honest → approve = true → block.WellFormed C ∧
      ∀ x ∈ w.ballots, x.voter = i → x.approve = true → x.height = block.height →
        x.hash = block.hash := by
    intro hi ha
    subst ha
    exact hlock hi
  refine ⟨fun x hx hh ha => ?_, fun x hx y hy hh hv hxa hya hk => ?_⟩
  · rcases List.mem_cons.mp hx with rfl | hold
    · exact ⟨block, hb, (hnew hh ha).1, rfl, rfl⟩
    · exact hB.formed x hold hh ha
  · rcases List.mem_cons.mp hx with rfl | hx'
    · rcases List.mem_cons.mp hy with rfl | hy'
      · rfl
      · exact (hnew hh hxa).2 y hy' hv hya hk
    · rcases List.mem_cons.mp hy with rfl | hy'
      · have hi : i ∈ K.honest := by
          rw [show i = x.voter from hv]
          exact hh
        exact ((hnew hi hya).2 x hx' hv.symm hxa hk.symm).symm
      · exact hB.locked x hx' y hy' hh hv hxa hya hk

theorem agreeInv_step (hcol : CollisionFree C bs) {w w' : World S P} {a : WorldAct S P}
    (hI : AgreeInv C K bs w) (hstep : LockedStep C K bs w a)
    (h : (machine C).step w a = some w') : AgreeInv C K bs w' := by
  cases a with
  | node i op =>
      obtain ⟨s, hs, hnodes, hballots, _, _⟩ := step_node h
      refine ⟨hballots ▸ hI.ballots, fun j hj => ?_⟩
      rw [hnodes, hballots]
      by_cases hji : j = i
      · subst hji
        rw [Function.update_self]
        refine (hI.nodes j hj).exec hI.ballots hcol (fun v hv hh hadm => ?_) (fun b hb => ?_) hs
        · subst hv
          obtain ⟨pk, hpk, hsig⟩ := hadm.signed
          exact hstep.rules hh pk hpk hsig
        · subst hb
          exact hstep.blocks b List.mem_cons_self
      · rw [Function.update_of_ne hji]
        exact hI.nodes j hj
  | sign i block approve =>
      have hw := step_sign h
      subst hw
      refine ⟨?_, fun j hj => ?_⟩
      · exact ballotInv_sign hI.ballots hstep.locked (hstep.blocks block List.mem_cons_self)
      · exact (hI.nodes j hj).mono (List.subset_cons_self _ _)

/-- The invariant at the end of every run of locked validators. -/
theorem agreeInv_run {nodes : NodeId → ConsensusState S P} {mode : ConsensusMode}
    (hnew : ∀ i ∈ K.honest, ConsensusState.new i K.validators K.keys mode = .ok (nodes i))
    {acts : List (WorldAct S P)} (hcol : CollisionFree C (acts.flatMap blocksOf))
    (hrules : (machine C).AllSteps (Rules C K.honest) (start nodes) acts)
    (hlock : (machine C).AllSteps (Locked C K) (start nodes) acts) {w : World S P}
    (hrun : (machine C).run (start nodes) acts = some w) :
    AgreeInv C K (acts.flatMap blocksOf) w := by
  have hblocks : (machine C).AllSteps (fun _ a => ∀ b ∈ blocksOf a, b ∈ acts.flatMap blocksOf)
      (start nodes) acts :=
    (machine C).allSteps_of_forall acts _ fun a ha _ b hb => List.mem_flatMap.mpr ⟨a, ha, hb⟩
  have hall := (machine C).allSteps_and acts _ hrules
    ((machine C).allSteps_and acts _ hlock hblocks)
  exact (machine C).run_invariant_of
    (fun w a w' hI hc hs => agreeInv_step hcol hI ⟨hc.1, hc.2.1, hc.2.2⟩ hs)
    acts _ w (agreeInv_start hnew) hall hrun

theorem AgreeInv.agree (hcol : CollisionFree C bs) {w : World S P} (hI : AgreeInv C K bs w)
    {i j : NodeId} (hi : i ∈ K.honest) (hj : j ∈ K.honest) {k : Nat} {b b' : NullifierBlock}
    (hb : (w.nodes i).committedBlocks[k]? = some b)
    (hb' : (w.nodes j).committedBlocks[k]? = some b') : b = b' := by
  obtain ⟨hin, hwf, _, hc⟩ := (hI.nodes i hi).certified k b hb
  obtain ⟨hin', hwf', _, hc'⟩ := (hI.nodes j hj).certified k b' hb'
  exact NullifierBlock.eq_of_hash hwf hwf' (hcol b hin b' hin')
    (certified_unique hI.ballots hc hc')

/-- **Agreement.** Take 3f+1 validators of which at most f are not honest, every interleaving
    of the operations at the nodes, and signatures that are not forged. If the honest
    validators are locked, then no two honest nodes ever have different blocks at one index. -/
theorem agreement (C : Suite S P) (K : Committee P) (mode : ConsensusMode)
    (nodes : NodeId → ConsensusState S P)
    (hnew : ∀ i ∈ K.honest, ConsensusState.new i K.validators K.keys mode = .ok (nodes i))
    (acts : List (WorldAct S P)) (hcol : CollisionFree C (acts.flatMap blocksOf))
    (hrules : (machine C).AllSteps (Rules C K.honest) (start nodes) acts)
    (hlock : (machine C).AllSteps (Locked C K) (start nodes) acts) (w : World S P)
    (hrun : (machine C).run (start nodes) acts = some w) (i j : NodeId) (hi : i ∈ K.honest)
    (hj : j ∈ K.honest) (k : Nat) (b b' : NullifierBlock)
    (hb : (w.nodes i).committedBlocks[k]? = some b)
    (hb' : (w.nodes j).committedBlocks[k]? = some b') : b = b' :=
  (agreeInv_run hnew hcol hrules hlock hrun).agree hcol hi hj hb hb'

/-! ## 4. Four honest validators -/

/-- The validators 1 to 4, all of them honest. -/
def sampleCommittee : Committee SamplePoint where
  validators := [1, 2, 3, 4]
  keys := sampleKeys
  honest := {1, 2, 3, 4}
  faults := 1
  size := rfl
  byzantine := by decide
  known i pk h := by
    unfold sampleKeys at h
    split at h
    · assumption
    · cases h

/-- The first block of leader 1, and the one of leader 2 for the same height. -/
def blockOfOne : NullifierBlock := NullifierBlock.new sampleSuite 0 1 [] zero32

def blockOfTwo : NullifierBlock := NullifierBlock.new sampleSuite 0 2 [] zero32

/-- Leader 1 proposes in view 0; validators 1, 2 and 3 approve, and node 1 commits. -/
def firstView : List (WorldAct SampleScalar SamplePoint) :=
  [.node 1 (.proposeBlock []), .node 1 (.receiveProposal blockOfOne),
    .node 2 (.receiveProposal blockOfOne), .node 3 (.receiveProposal blockOfOne),
    .sign 1 blockOfOne true, .sign 2 blockOfOne true, .sign 3 blockOfOne true,
    .node 1 (.receiveVote (sampleVote 1 blockOfOne 0)),
    .node 1 (.receiveVote (sampleVote 2 blockOfOne 0)),
    .node 1 (.receiveVote (sampleVote 3 blockOfOne 0)), .node 1 (.tryCommit blockOfOne)]

/-- Nodes 2, 3 and 4 change the view; leader 2 proposes, they approve, and node 2 commits. -/
def secondView : List (WorldAct SampleScalar SamplePoint) :=
  [.node 2 .triggerViewChange, .node 3 .triggerViewChange, .node 4 .triggerViewChange,
    .node 2 (.proposeBlock []), .node 2 (.receiveProposal blockOfTwo),
    .node 3 (.receiveProposal blockOfTwo), .node 4 (.receiveProposal blockOfTwo),
    .sign 2 blockOfTwo true, .sign 3 blockOfTwo true, .sign 4 blockOfTwo true,
    .node 2 (.receiveVote (sampleVote 2 blockOfTwo 1)),
    .node 2 (.receiveVote (sampleVote 3 blockOfTwo 1)),
    .node 2 (.receiveVote (sampleVote 4 blockOfTwo 1)), .node 2 (.tryCommit blockOfTwo)]

/-- Node 2 receives the votes of view 0 as well and commits the same block. -/
def sameView : List (WorldAct SampleScalar SamplePoint) :=
  [.node 2 (.receiveVote (sampleVote 1 blockOfOne 0)),
    .node 2 (.receiveVote (sampleVote 2 blockOfOne 0)),
    .node 2 (.receiveVote (sampleVote 3 blockOfOne 0)), .node 2 (.tryCommit blockOfOne)]

/-- **Two views commit two blocks at one height**, with every validator honest: each approves
    only what it accepted, once per height and view. -/
theorem views_commit_two_blocks :
    ∃ nodes w b b', (∀ i ∈ sampleCommittee.honest, ConsensusState.new i
        sampleCommittee.validators sampleCommittee.keys .production = .ok (nodes i)) ∧
      (machine sampleSuite).AllSteps (Rules sampleSuite sampleCommittee.honest)
        (start nodes) (firstView ++ secondView) ∧
      CollisionFree sampleSuite ((firstView ++ secondView).flatMap blocksOf) ∧
      (machine sampleSuite).run (start nodes) (firstView ++ secondView) = some w ∧
      (w.nodes 1).committedBlocks[0]? = some b ∧ (w.nodes 2).committedBlocks[0]? = some b' ∧
      b ≠ b' := by
  have hrules : (machine sampleSuite).AllSteps (Rules sampleSuite sampleCommittee.honest)
      (start sampleNode) (firstView ++ secondView) := by decide +kernel
  have hcol : CollisionFree sampleSuite ((firstView ++ secondView).flatMap blocksOf) := by
    decide +kernel
  have hrun : ((machine sampleSuite).run (start sampleNode) (firstView ++ secondView)).map
      (fun w => decide ((w.nodes 1).committedBlocks[0]? = some blockOfOne ∧
        (w.nodes 2).committedBlocks[0]? = some blockOfTwo ∧ blockOfOne ≠ blockOfTwo)) =
      some true := by decide +kernel
  obtain ⟨w, hw, hfacts⟩ := Option.map_eq_some_iff.mp hrun
  obtain ⟨h1, h2, hne⟩ := of_decide_eq_true hfacts
  exact ⟨sampleNode, w, blockOfOne, blockOfTwo, fun i _ => sampleNode_new i, hrules, hcol, hw,
    h1, h2, hne⟩

/-- Nodes 1 and 2 both commit in view 0. -/
theorem agreement_in_one_view :
    ∃ w b b', (machine sampleSuite).run (start sampleNode) (firstView ++ sameView) = some w ∧
      (w.nodes 1).committedBlocks[0]? = some b ∧ (w.nodes 2).committedBlocks[0]? = some b' ∧
      b = b' := by
  have hrules : (machine sampleSuite).AllSteps (Rules sampleSuite sampleCommittee.honest)
      (start sampleNode) (firstView ++ sameView) := by decide +kernel
  have hlock : (machine sampleSuite).AllSteps (Locked sampleSuite sampleCommittee)
      (start sampleNode) (firstView ++ sameView) := by decide +kernel
  have hcol : CollisionFree sampleSuite ((firstView ++ sameView).flatMap blocksOf) := by
    decide +kernel
  have hrun : ((machine sampleSuite).run (start sampleNode) (firstView ++ sameView)).map
      (fun w => decide ((w.nodes 1).committedBlocks[0]?.isSome ∧
        (w.nodes 2).committedBlocks[0]?.isSome)) = some true := by decide +kernel
  obtain ⟨w, hw, hfacts⟩ := Option.map_eq_some_iff.mp hrun
  obtain ⟨h1, h2⟩ := of_decide_eq_true hfacts
  obtain ⟨b, hb⟩ := Option.isSome_iff_exists.mp h1
  obtain ⟨b', hb'⟩ := Option.isSome_iff_exists.mp h2
  exact ⟨w, b, b', hw, hb, hb', agreement sampleSuite sampleCommittee .production sampleNode
    (fun i _ => sampleNode_new i) _ hcol hrules hlock w hw 1 2 (by decide) (by decide) 0 b b'
    hb hb'⟩

end World

end Specter
