/-
  File:      Specter/Net/Consensus.lean
  Subject:   THE CONSENSUS STATE OF ONE NODE (specter-net/src/consensus.rs).

  Blocks, signed votes and `ConsensusState` with its six operations. A method with `&mut self`
  returns the state it leaves behind. The maps of the source are functions (an absent vote list
  is the empty list, as `unwrap_or_default` reads it), and `drain()` takes the order the set is
  drained in as an argument. The counters `current_height` and `view` are machine words, as the
  heights and views of blocks and votes are; a call that overflows one of them panics, as it
  does where overflows are checked.

  * `blockBytes_inj`, `canonicalVoteBytes_inj` -- what is hashed and signed determines the
    fields of the block and of the vote;
  * `admits_of_voteError` -- what an admitted vote has passed;
  * `tryCommit_ok_true_iff` -- a block is committed exactly on a quorum of approvals in the
    table for its own hash;
  * `ConsensusOp`, `exec` -- one operation with arbitrary arguments;
  * `Effect`, `exec_effect` -- everything an operation can do, with the guards it has passed,
    the case analysis every invariant starts from; `exec_config` -- no operation changes the
    node's configuration;
  * `quorumsIntersect_iff` -- for which numbers of validators two quorums share more members
    than there may be faults.
-/
import Mathlib.Data.Finset.Basic
import Mathlib.Data.Finset.Union
import Mathlib.Data.Finset.Dedup
import Mathlib.Logic.Function.Basic
import Specter.Lib.Quorum
import Specter.Primitives.Suite

namespace Specter

open Lib

variable {S P : Type} [Field S] [AddCommGroup P] [Module S P]

abbrev NodeId := UInt64

/-! ## 1. Blocks -/

structure NullifierBlock where
  height : UInt64
  leader : NodeId
  nullifiers : List Bytes32
  prevHash : Bytes32
  hash : Bytes32
  deriving DecidableEq

/-- What `compute_hash` feeds to SHA-256. -/
def blockBytes (height : UInt64) (leader : NodeId) (nullifiers : List Bytes32)
    (prevHash : Bytes32) : Bytes :=
  ascii "specter-block:" ++ (le64 height ++ (le64 leader ++
    (prevHash.toList ++ nullifiers.flatMap (·.toList))))

namespace NullifierBlock

def computeHash (C : Suite S P) (height : UInt64) (leader : NodeId) (nullifiers : List Bytes32)
    (prevHash : Bytes32) : Bytes32 :=
  C.sha256 (blockBytes height leader nullifiers prevHash)

protected def new (C : Suite S P) (height : UInt64) (leader : NodeId)
    (nullifiers : List Bytes32) (prevHash : Bytes32) : NullifierBlock where
  height := height
  leader := leader
  nullifiers := nullifiers
  prevHash := prevHash
  hash := computeHash C height leader nullifiers prevHash

/-- The bytes the hash of the block ought to be computed from. -/
def bytes (b : NullifierBlock) : Bytes := blockBytes b.height b.leader b.nullifiers b.prevHash

/-- The test of `try_commit`: the hash field is the hash of the contents. -/
def WellFormed (C : Suite S P) (b : NullifierBlock) : Prop :=
  computeHash C b.height b.leader b.nullifiers b.prevHash = b.hash

instance (C : Suite S P) (b : NullifierBlock) : Decidable (b.WellFormed C) :=
  inferInstanceAs (Decidable (_ = _))

end NullifierBlock

theorem blockBytes_inj {h h' : UInt64} {l l' : NodeId} {ns ns' : List Bytes32}
    {p p' : Bytes32} (e : blockBytes h l ns p = blockBytes h' l' ns' p') :
    h = h' ∧ l = l' ∧ ns = ns' ∧ p = p' := by
  unfold blockBytes at e
  obtain ⟨_, e⟩ := append_inj_fixed rfl e
  obtain ⟨eh, e⟩ := append_inj_fixed (by rw [length_le64, length_le64]) e
  obtain ⟨el, e⟩ := append_inj_fixed (by rw [length_le64, length_le64]) e
  obtain ⟨ep, e⟩ := append_inj_arr e
  exact ⟨le64_inj eh, le64_inj el, flatMap_arr_inj (by decide) ns ns' e, ep⟩

/-- Two well-formed blocks with one hash are one block, where SHA-256 does not collide. -/
theorem NullifierBlock.eq_of_hash {C : Suite S P} {b b' : NullifierBlock}
    (hb : b.WellFormed C) (hb' : b'.WellFormed C)
    (hcol : C.sha256 b.bytes = C.sha256 b'.bytes → b.bytes = b'.bytes) (h : b.hash = b'.hash) :
    b = b' := by
  have hsha : C.sha256 b.bytes = C.sha256 b'.bytes := by
    unfold NullifierBlock.WellFormed NullifierBlock.computeHash at hb hb'
    exact hb.trans (h.trans hb'.symm)
  obtain ⟨e1, e2, e3, e4⟩ := blockBytes_inj (hcol hsha)
  obtain ⟨height, leader, nullifiers, prevHash, hash⟩ := b
  obtain ⟨height', leader', nullifiers', prevHash', hash'⟩ := b'
  dsimp only at e1 e2 e3 e4 h
  subst e1 e2 e3 e4 h
  rfl

/-! ## 2. Votes -/

structure VoteSignature (S P : Type) where
  r : P
  s : S
  deriving DecidableEq

structure Vote (S P : Type) where
  voter : NodeId
  blockHeight : UInt64
  view : UInt64
  blockHash : Bytes32
  approve : Bool
  signature : VoteSignature S P
  deriving DecidableEq

structure ValidatorKey (S P : Type) where
  nodeId : NodeId
  publicKey : P
  secretKey : S

def canonicalVoteBytes (voter : NodeId) (height : UInt64) (hash : Bytes32) (approve : Bool)
    (view : UInt64) : Bytes :=
  ascii "specter-hybrid-vote:" ++ (le64 voter ++ (le64 height ++ (le64 view ++
    (hash.toList ++ [if approve then 1 else 0]))))

def voteChallenge (C : Suite S P) (r pk : P) (msg : Bytes) : S :=
  C.hashToScalar (ascii "specter-vote-challenge:" ++ (C.compress r).toList ++
    (C.compress pk).toList ++ msg)

/-- `vote_message` of a vote's own fields. -/
def Vote.message (v : Vote S P) : Bytes :=
  canonicalVoteBytes v.voter v.blockHeight v.blockHash v.approve v.view

def verifyVoteSignature (C : Suite S P) (vote : Vote S P) (voterPubkey : P) : Bool :=
  let e := voteChallenge C vote.signature.r voterPubkey vote.message
  C.compress (vote.signature.s • C.G) == C.compress (vote.signature.r + e • voterPubkey)

/-- `sign_vote_with_view` with the nonce `k` it draws. -/
def ValidatorKey.signVoteWithView (C : Suite S P) (key : ValidatorKey S P) (blockHeight : UInt64)
    (blockHash : Bytes32) (approve : Bool) (view : UInt64) (k : S) : Vote S P :=
  let msg := canonicalVoteBytes key.nodeId blockHeight blockHash approve view
  let r := k • C.G
  let e := voteChallenge C r key.publicKey msg
  { voter := key.nodeId
    blockHeight := blockHeight
    view := view
    blockHash := blockHash
    approve := approve
    signature := { r := r, s := k + e * key.secretKey } }

theorem canonicalVoteBytes_inj {i i' : NodeId} {h h' : UInt64} {x x' : Bytes32} {a a' : Bool}
    {w w' : UInt64} (e : canonicalVoteBytes i h x a w = canonicalVoteBytes i' h' x' a' w') :
    i = i' ∧ h = h' ∧ x = x' ∧ a = a' ∧ w = w' := by
  unfold canonicalVoteBytes at e
  obtain ⟨_, e⟩ := append_inj_fixed rfl e
  obtain ⟨ei, e⟩ := append_inj_fixed (by rw [length_le64, length_le64]) e
  obtain ⟨eh, e⟩ := append_inj_fixed (by rw [length_le64, length_le64]) e
  obtain ⟨ew, e⟩ := append_inj_fixed (by rw [length_le64, length_le64]) e
  obtain ⟨ex, e⟩ := append_inj_arr e
  have ea : a = a' := by
    cases a <;> cases a' <;> first | rfl | exact absurd e (by decide)
  exact ⟨le64_inj ei, le64_inj eh, ex, ea, le64_inj ew⟩

/-! ## 3. The state -/

inductive ConsensusMode where
  | production
  | test
  deriving DecidableEq

inductive ConsensusError where
  | notLeader (leader selfId : NodeId)
  | insufficientValidators (min got : Nat)
  | unknownVoter (voter : NodeId)
  | invalidVoteSignature (voter : NodeId)
  | duplicateVote (voter : NodeId)
  | equivocation (leader : NodeId) (height : UInt64)
  | wrongHeight (expected got : UInt64)
  | wrongView (expected got : UInt64)
  | invalidBlockHash
  deriving DecidableEq

def ConsensusError.display : ConsensusError → String
  | .notLeader leader selfId =>
      "not the current leader: leader is " ++ toString leader ++ ", self is " ++ toString selfId
  | .insufficientValidators min got =>
      "insufficient validators: need at least " ++ toString min ++ ", got " ++ toString got
  | .unknownVoter voter => "unknown voter: " ++ toString voter
  | .invalidVoteSignature voter => "invalid vote signature from voter " ++ toString voter
  | .duplicateVote voter => "duplicate vote from voter " ++ toString voter
  | .equivocation leader height =>
      "equivocation detected: leader " ++ toString leader ++
        " proposed different blocks at height " ++ toString height
  | .wrongHeight expected got =>
      "vote for wrong height: expected " ++ toString expected ++ ", got " ++ toString got
  | .wrongView expected got =>
      "vote for wrong view: expected " ++ toString expected ++ ", got " ++ toString got
  | .invalidBlockHash => "block hash mismatch: block contents do not match hash"

structure ConsensusState (S P : Type) where
  nodeId : NodeId
  totalValidators : Nat
  maxFaults : Nat
  quorumSize : Nat
  validators : List NodeId
  validatorKeys : NodeId → Option P
  currentHeight : UInt64
  committedBlocks : List NullifierBlock
  committedNullifiers : Finset Bytes32
  pendingNullifiers : Finset Bytes32
  votes : Bytes32 → List (Vote S P)
  view : UInt64
  seenProposals : UInt64 × NodeId → Option Bytes32

namespace ConsensusState

/-- The state `new` returns when it accepts the list of validators. -/
def fresh (nodeId : NodeId) (validators : List NodeId) (validatorKeys : NodeId → Option P) :
    ConsensusState S P :=
  let n := validators.length
  let maxFaults := (n - 1) / 3
  { nodeId := nodeId
    totalValidators := n
    maxFaults := maxFaults
    quorumSize := if n < 4 then n else 2 * maxFaults + 1
    validators := validators
    validatorKeys := validatorKeys
    currentHeight := 0
    committedBlocks := []
    committedNullifiers := ∅
    pendingNullifiers := ∅
    votes := fun _ => []
    view := 0
    seenProposals := fun _ => none }

protected def new (nodeId : NodeId) (validators : List NodeId) (validatorKeys : NodeId → Option P)
    (mode : ConsensusMode) : Except ConsensusError (ConsensusState S P) :=
  let n := validators.length
  if n < 1 then .error (.insufficientValidators 4 0)
  else if mode = .production ∧ n < 4 then .error (.insufficientValidators 4 n)
  else .ok (fresh nodeId validators validatorKeys)

/-- The leader scheduled for a height and a view; `new` refuses the empty list, so the index
    is in range. -/
def scheduledLeader (validators : List NodeId) (height view : Nat) : NodeId :=
  validators.getD (((height % validators.length) + (view % validators.length)) %
    validators.length) 0

def currentLeader (s : ConsensusState S P) : NodeId :=
  scheduledLeader s.validators s.currentHeight.toNat s.view.toNat

def maxPendingNullifiers : Nat := 100000

def submitNullifier (s : ConsensusState S P) (nullifier : Bytes32) : ConsensusState S P :=
  if s.pendingNullifiers.card ≥ maxPendingNullifiers then s
  else if nullifier ∈ s.committedNullifiers then s
  else { s with pendingNullifiers := insert nullifier s.pendingNullifiers }

/-- The hash of the last committed block, zeros before the first. -/
def lastHash (s : ConsensusState S P) : Bytes32 :=
  (s.committedBlocks.getLast?.map (·.hash)).getD zero32

/-- `drained` lists the pending set, in the order `drain()` happens to yield. -/
def DrainOrder (s : ConsensusState S P) (drained : List Bytes32) : Prop :=
  drained.Nodup ∧ drained.toFinset = s.pendingNullifiers

instance (s : ConsensusState S P) (drained : List Bytes32) : Decidable (s.DrainOrder drained) :=
  inferInstanceAs (Decidable (_ ∧ _))

def proposeBlock (C : Suite S P) (s : ConsensusState S P) (drained : List Bytes32) :
    Except ConsensusError NullifierBlock × ConsensusState S P :=
  if s.currentLeader ≠ s.nodeId then (.error (.notLeader s.currentLeader s.nodeId), s)
  else
    (.ok (NullifierBlock.new C s.currentHeight s.nodeId drained s.lastHash),
      { s with pendingNullifiers := ∅ })

/-- The state with the hash of `block` recorded for its height and leader. -/
def recordProposal (s : ConsensusState S P) (block : NullifierBlock) : ConsensusState S P :=
  { s with
    seenProposals :=
      Function.update s.seenProposals (block.height, block.leader) (some block.hash) }

def receiveProposal (s : ConsensusState S P) (block : NullifierBlock) :
    Except ConsensusError Unit × ConsensusState S P :=
  match s.seenProposals (block.height, block.leader) with
  | some prev =>
      if prev ≠ block.hash then (.error (.equivocation block.leader block.height), s)
      else (.ok (), s)
  | none => (.ok (), s.recordProposal block)

/-- The checks of `receive_vote`, in order; `none` when the vote is admitted. -/
def voteError (C : Suite S P) (s : ConsensusState S P) (vote : Vote S P) :
    Option ConsensusError :=
  match s.validatorKeys vote.voter with
  | none => some (.unknownVoter vote.voter)
  | some voterPk =>
      if vote.blockHeight ≠ s.currentHeight then
        some (.wrongHeight s.currentHeight vote.blockHeight)
      else if vote.view ≠ s.view then some (.wrongView s.view vote.view)
      else if verifyVoteSignature C vote voterPk = false then
        some (.invalidVoteSignature vote.voter)
      else if (s.votes vote.blockHash).any (·.voter == vote.voter) then
        some (.duplicateVote vote.voter)
      else none

/-- The state with `vote` added to the table. -/
def recordVote (s : ConsensusState S P) (vote : Vote S P) : ConsensusState S P :=
  { s with votes := Function.update s.votes vote.blockHash (s.votes vote.blockHash ++ [vote]) }

def receiveVote (C : Suite S P) (s : ConsensusState S P) (vote : Vote S P) :
    Except ConsensusError Unit × ConsensusState S P :=
  match s.voteError C vote with
  | some e => (.error e, s)
  | none => (.ok (), s.recordVote vote)

/-- The approving votes in the table for a hash. -/
def approvals (s : ConsensusState S P) (hash : Bytes32) : List (Vote S P) :=
  (s.votes hash).filter (·.approve)

/-- The state with `block` committed. -/
def commit (s : ConsensusState S P) (block : NullifierBlock) : ConsensusState S P :=
  { s with
    committedNullifiers := s.committedNullifiers ∪ block.nullifiers.toFinset
    committedBlocks := s.committedBlocks ++ [block]
    currentHeight := s.currentHeight + 1
    votes := Function.update s.votes block.hash [] }

def tryCommit (C : Suite S P) (s : ConsensusState S P) (block : NullifierBlock) :
    Except ConsensusError Bool × ConsensusState S P :=
  if ¬ block.WellFormed C then (.error .invalidBlockHash, s)
  else if (s.approvals block.hash).length ≥ s.quorumSize then (.ok true, s.commit block)
  else (.ok false, s)

def isCommitted (s : ConsensusState S P) (nullifier : Bytes32) : Bool :=
  decide (nullifier ∈ s.committedNullifiers)

def triggerViewChange (s : ConsensusState S P) : ConsensusState S P :=
  { s with view := s.view + 1, votes := fun _ => [] }

/-! ## 4. What the operations do -/

omit [Field S] [AddCommGroup P] [Module S P] in
theorem new_fresh {id : NodeId} {validators : List NodeId} {keys : NodeId → Option P}
    {mode : ConsensusMode} {s : ConsensusState S P}
    (h : ConsensusState.new id validators keys mode = .ok s) : s = fresh id validators keys := by
  unfold ConsensusState.new at h
  dsimp only at h
  split at h
  · cases h
  · split at h
    · cases h
    · exact (Except.ok.inj h).symm

omit [Field S] [AddCommGroup P] [Module S P] in
/-- What `new` sets up. -/
theorem new_ok {id : NodeId} {validators : List NodeId}
    {keys : NodeId → Option P} {mode : ConsensusMode} {s : ConsensusState S P}
    (h : ConsensusState.new id validators keys mode = .ok s) :
    s.nodeId = id ∧ s.validators = validators ∧ s.validatorKeys = keys ∧
      s.quorumSize = (if validators.length < 4 then validators.length
        else 2 * ((validators.length - 1) / 3) + 1) ∧
      s.currentHeight = 0 ∧ s.committedBlocks = [] ∧ (∀ h, s.votes h = []) ∧
      s.committedNullifiers = ∅ ∧ s.pendingNullifiers = ∅ ∧
      (∀ k, s.seenProposals k = none) := by
  obtain rfl := new_fresh h
  exact ⟨rfl, rfl, rfl, rfl, rfl, rfl, fun _ => rfl, rfl, rfl, fun _ => rfl⟩

/-- The quorum test of `try_commit`: well formed, with a quorum of approvals in the table. -/
def Quorate (C : Suite S P) (s : ConsensusState S P) (block : NullifierBlock) : Prop :=
  block.WellFormed C ∧ s.quorumSize ≤ (s.approvals block.hash).length

instance (C : Suite S P) (s : ConsensusState S P) (block : NullifierBlock) :
    Decidable (s.Quorate C block) :=
  inferInstanceAs (Decidable (_ ∧ _))

variable {C : Suite S P} {s : ConsensusState S P}

theorem tryCommit_true {block : NullifierBlock} (h : s.Quorate C block) :
    s.tryCommit C block = (.ok true, s.commit block) := by
  unfold tryCommit
  rw [if_neg (Classical.not_not.mpr h.1), if_pos h.2]

theorem tryCommit_false {block : NullifierBlock} (h : ¬ s.Quorate C block) :
    (s.tryCommit C block).1 ≠ .ok true ∧ (s.tryCommit C block).2 = s := by
  unfold tryCommit
  by_cases hwf : block.WellFormed C
  · have hq : ¬ (s.approvals block.hash).length ≥ s.quorumSize := fun hq => h ⟨hwf, hq⟩
    rw [if_neg (Classical.not_not.mpr hwf), if_neg hq]
    exact ⟨by simp, rfl⟩
  · rw [if_pos hwf]
    exact ⟨by simp, rfl⟩

theorem tryCommit_ok_true_iff {block : NullifierBlock} :
    (s.tryCommit C block).1 = .ok true ↔ s.Quorate C block := by
  constructor
  · intro h
    refine Classical.byContradiction fun hn => ?_
    exact (tryCommit_false hn).1 h
  · intro h
    rw [tryCommit_true h]

/-- What an admitted vote has passed. -/
structure Admits (C : Suite S P) (s : ConsensusState S P) (vote : Vote S P) : Prop where
  signed : ∃ pk, s.validatorKeys vote.voter = some pk ∧ verifyVoteSignature C vote pk = true
  height : vote.blockHeight = s.currentHeight
  view : vote.view = s.view
  single : ∀ v ∈ s.votes vote.blockHash, v.voter ≠ vote.voter

theorem admits_of_voteError {vote : Vote S P} (h : s.voteError C vote = none) :
    s.Admits C vote := by
  unfold voteError at h
  split at h
  · cases h
  · rename_i pk hpk
    split at h
    · cases h
    · rename_i hheight
      split at h
      · cases h
      · rename_i hview
        split at h
        · cases h
        · rename_i hsig
          split at h
          · cases h
          · rename_i hdup
            refine ⟨⟨pk, hpk, by simpa using hsig⟩, Classical.not_not.mp hheight,
              Classical.not_not.mp hview, fun v hv hvoter => hdup ?_⟩
            exact List.any_eq_true.mpr ⟨v, hv, by simpa using hvoter⟩

section Table

omit [Field S] [AddCommGroup P] [Module S P]

/-- The table after a vote is recorded. -/
@[simp] theorem mem_votes_recordVote {u v : Vote S P} {h : Bytes32} :
    u ∈ (s.recordVote v).votes h ↔ u ∈ s.votes h ∨ (u = v ∧ h = v.blockHash) := by
  unfold recordVote
  by_cases hh : h = v.blockHash
  · subst hh
    simp
  · simp [hh]

/-- The table after a commit: the entry of the block is gone. -/
@[simp] theorem mem_votes_commit {u : Vote S P} {b : NullifierBlock} {h : Bytes32} :
    u ∈ (s.commit b).votes h ↔ u ∈ s.votes h ∧ h ≠ b.hash := by
  unfold commit
  by_cases hh : h = b.hash
  · subst hh
    simp
  · simp [hh]

/-- One vote per voter and hash. -/
def SingleVotes (s : ConsensusState S P) : Prop := ∀ h, ((s.votes h).map (·.voter)).Nodup

theorem SingleVotes.recordVote (hs : s.SingleVotes) {v : Vote S P}
    (hnew : ∀ u ∈ s.votes v.blockHash, u.voter ≠ v.voter) : (s.recordVote v).SingleVotes := by
  intro h
  show ((Function.update s.votes v.blockHash _ h).map (·.voter)).Nodup
  by_cases hh : h = v.blockHash
  · rw [hh, Function.update_self, List.map_append, List.nodup_append]
    refine ⟨hs _, List.nodup_singleton _, fun i hi j hj hij => ?_⟩
    obtain ⟨u, hu, rfl⟩ := List.mem_map.mp hi
    exact hnew u hu (hij.trans (List.mem_singleton.mp hj))
  · rw [Function.update_of_ne hh]
    exact hs h

theorem SingleVotes.commit (hs : s.SingleVotes) (b : NullifierBlock) :
    (s.commit b).SingleVotes := by
  intro h
  show ((Function.update s.votes b.hash [] h).map (·.voter)).Nodup
  by_cases hh : h = b.hash
  · rw [hh, Function.update_self]
    exact List.nodup_nil
  · rw [Function.update_of_ne hh]
    exact hs h

end Table

end ConsensusState

/-! ## 5. One operation -/

inductive ConsensusOp (S P : Type) where
  | submitNullifier (nullifier : Bytes32)
  | proposeBlock (drained : List Bytes32)
  | receiveProposal (block : NullifierBlock)
  | receiveVote (vote : Vote S P)
  | tryCommit (block : NullifierBlock)
  | triggerViewChange

namespace ConsensusState

/-- A counter with room for one more step. -/
def HasNext (n : UInt64) : Prop := n.toNat + 1 < 2 ^ 64

instance (n : UInt64) : Decidable (HasNext n) := inferInstanceAs (Decidable (_ < _))

theorem toNat_next {n : UInt64} (h : HasNext n) : (n + 1).toNat = n.toNat + 1 := by
  rw [UInt64.toNat_add]
  exact Nat.mod_eq_of_lt h

/-- A counter that moves on is ahead of what it was ahead of or at. -/
theorem lt_next {n m : UInt64} (hnext : HasNext n) (h : m ≤ n) : m < n + 1 := by
  rw [UInt64.lt_iff_toNat_lt, toNat_next hnext]
  exact Nat.lt_succ_of_le (UInt64.le_iff_toNat_le.mp h)

/-- The state after one operation; `none` for a list that is no drain order, and where a counter
    overflows (the call panics). -/
def exec (C : Suite S P) (s : ConsensusState S P) : ConsensusOp S P → Option (ConsensusState S P)
  | .submitNullifier n => some (s.submitNullifier n)
  | .proposeBlock drained =>
      if s.DrainOrder drained then some (s.proposeBlock C drained).2 else none
  | .receiveProposal b => some (s.receiveProposal b).2
  | .receiveVote v => some (s.receiveVote C v).2
  | .tryCommit b =>
      if s.Quorate C b ∧ ¬ HasNext s.currentHeight then none else some (s.tryCommit C b).2
  | .triggerViewChange => if HasNext s.view then some s.triggerViewChange else none

variable {C : Suite S P} {s s' : ConsensusState S P}

/-- What two states of one node have in common. -/
structure SameConfig (s s' : ConsensusState S P) : Prop where
  nodeId : s'.nodeId = s.nodeId
  quorumSize : s'.quorumSize = s.quorumSize
  validators : s'.validators = s.validators
  validatorKeys : s'.validatorKeys = s.validatorKeys

/-- Why an operation leaves the state as it is. -/
def Refused (C : Suite S P) (s : ConsensusState S P) : ConsensusOp S P → Prop
  | .submitNullifier n =>
      s.pendingNullifiers.card ≥ maxPendingNullifiers ∨ n ∈ s.committedNullifiers
  | .proposeBlock _ => s.currentLeader ≠ s.nodeId
  | .receiveProposal b => ∃ prev, s.seenProposals (b.height, b.leader) = some prev
  | .receiveVote v => ∃ e, s.voteError C v = some e
  | .tryCommit b => ¬ s.Quorate C b
  | .triggerViewChange => False

/-- Everything one operation can do to the state, with the guard it has passed. -/
inductive Effect (C : Suite S P) (s : ConsensusState S P) :
    ConsensusOp S P → ConsensusState S P → Prop
  | refused {op : ConsensusOp S P} (h : s.Refused C op) : Effect C s op s
  | submitted {n : Bytes32} (h : n ∉ s.committedNullifiers) :
      Effect C s (.submitNullifier n)
        { s with pendingNullifiers := insert n s.pendingNullifiers }
  | proposed {drained : List Bytes32} (hlead : s.currentLeader = s.nodeId)
      (hdrain : s.DrainOrder drained) :
      Effect C s (.proposeBlock drained) { s with pendingNullifiers := ∅ }
  | recorded {b : NullifierBlock} (h : s.seenProposals (b.height, b.leader) = none) :
      Effect C s (.receiveProposal b) (s.recordProposal b)
  | voted {v : Vote S P} (h : s.voteError C v = none) :
      Effect C s (.receiveVote v) (s.recordVote v)
  | committed {b : NullifierBlock} (h : s.Quorate C b) (hnext : HasNext s.currentHeight) :
      Effect C s (.tryCommit b) (s.commit b)
  | viewChanged (hnext : HasNext s.view) : Effect C s .triggerViewChange s.triggerViewChange

theorem exec_proposeBlock {drained : List Bytes32}
    (h : s.exec C (.proposeBlock drained) = some s') :
    s.DrainOrder drained ∧ s' = (s.proposeBlock C drained).2 := by
  change (if _ then _ else _) = _ at h
  split at h
  · rename_i hd
    exact ⟨hd, (Option.some.inj h).symm⟩
  · cases h

/-- **What an operation does**: the one case analysis of the operations. -/
theorem exec_effect {op : ConsensusOp S P} (h : s.exec C op = some s') : s.Effect C op s' := by
  cases op with
  | submitNullifier n =>
      cases h
      unfold submitNullifier
      split
      · rename_i hcap
        exact .refused (.inl hcap)
      · split
        · rename_i hcom
          exact .refused (.inr hcom)
        · rename_i hcom
          exact .submitted hcom
  | proposeBlock drained =>
      obtain ⟨hdrain, rfl⟩ := exec_proposeBlock h
      unfold proposeBlock
      split
      · rename_i hlead
        exact .refused hlead
      · rename_i hlead
        exact .proposed (Classical.not_not.mp hlead) hdrain
  | receiveProposal b =>
      cases h
      unfold receiveProposal
      cases hseen : s.seenProposals (b.height, b.leader) with
      | some prev =>
          dsimp only
          split <;> exact .refused ⟨prev, hseen⟩
      | none => exact .recorded hseen
  | receiveVote v =>
      cases h
      unfold receiveVote
      cases herr : s.voteError C v with
      | some e => exact .refused ⟨e, herr⟩
      | none => exact .voted herr
  | tryCommit b =>
      change (if _ then _ else _) = _ at h
      split at h
      · cases h
      · rename_i hover
        cases h
        by_cases hq : s.Quorate C b
        · rw [tryCommit_true hq]
          exact .committed hq (Classical.not_not.mp fun hn => hover ⟨hq, hn⟩)
        · rw [(tryCommit_false hq).2]
          exact .refused hq
  | triggerViewChange =>
      change (if _ then _ else _) = _ at h
      split at h
      · rename_i hnext
        cases h
        exact .viewChanged hnext
      · cases h

theorem exec_tryCommit {b : NullifierBlock} (hq : s.Quorate C b)
    (h : s.exec C (.tryCommit b) = some s') : s' = s.commit b := by
  cases exec_effect h with
  | refused hno => exact absurd hq hno
  | committed _ _ => rfl

/-- The committed set only grows. -/
theorem exec_committedNullifiers {op : ConsensusOp S P} (h : s.exec C op = some s') :
    s.committedNullifiers ⊆ s'.committedNullifiers := by
  cases exec_effect h with
  | committed hq hnext => exact Finset.subset_union_left
  | refused href => exact Finset.Subset.refl _
  | submitted hn => exact Finset.Subset.refl _
  | proposed hlead hdrain => exact Finset.Subset.refl _
  | recorded hseen => exact Finset.Subset.refl _
  | voted herr => exact Finset.Subset.refl _
  | viewChanged hnext => exact Finset.Subset.refl _

/-- **No operation changes the configuration of a node.** -/
theorem exec_config {op : ConsensusOp S P} (h : s.exec C op = some s') : SameConfig s s' := by
  cases exec_effect h <;> exact ⟨rfl, rfl, rfl, rfl⟩

/-! ## 6. What two quorums share -/

/-- Any two sets of validators of the size of a quorum share more members than there may be
    faults. -/
def QuorumsIntersect (s : ConsensusState S P) : Prop :=
  ∀ A B : Finset NodeId, A ⊆ s.validators.toFinset → B ⊆ s.validators.toFinset →
    s.quorumSize ≤ A.card → s.quorumSize ≤ B.card → s.maxFaults < (A ∩ B).card

omit [Field S] [AddCommGroup P] [Module S P] in
theorem quorumsIntersect_of_card {s : ConsensusState S P}
    (hquorum : s.quorumSize = 2 * s.maxFaults + 1)
    (h : s.validators.toFinset.card ≤ 3 * s.maxFaults + 1) : s.QuorumsIntersect := by
  intro A B hA hB hcardA hcardB
  exact Quorum.card_inter_of_lt hA hB (by omega)

omit [Field S] [AddCommGroup P] [Module S P] in
theorem card_of_quorumsIntersect {s : ConsensusState S P}
    (hquorum : s.quorumSize = 2 * s.maxFaults + 1) (h : s.QuorumsIntersect) :
    s.validators.toFinset.card ≤ 3 * s.maxFaults + 1 := by
  refine Nat.not_lt.mp fun hlt => ?_
  obtain ⟨A, hA, B, hB, hcardA, hcardB, hinter⟩ := Quorum.exists_card_inter_le
    (U := s.validators.toFinset) (k := s.maxFaults) (q := s.quorumSize) (by omega) (by omega)
  exact absurd (h A B hA hB hcardA.ge hcardB.ge) (Nat.not_lt.mpr hinter)

omit [Field S] [AddCommGroup P] [Module S P] in
/-- **Where quorums intersect.** Of four validators or more, two quorums share more than
    `max_faults` members exactly if no more than `3 * max_faults + 1` of the validators are
    distinct; where none is listed twice, exactly if their number is 1 modulo 3. -/
theorem quorumsIntersect_iff {id : NodeId} {validators : List NodeId} {keys : NodeId → Option P}
    {mode : ConsensusMode} {s : ConsensusState S P} (hfour : 4 ≤ validators.length)
    (hnew : ConsensusState.new id validators keys mode = .ok s) :
    (s.QuorumsIntersect ↔ validators.toFinset.card ≤ 3 * ((validators.length - 1) / 3) + 1) ∧
      (validators.Nodup → (s.QuorumsIntersect ↔ validators.length % 3 = 1)) := by
  obtain rfl := new_fresh hnew
  have hquorum : (fresh (S := S) id validators keys).quorumSize =
      2 * (fresh (S := S) id validators keys).maxFaults + 1 := if_neg (Nat.not_lt.mpr hfour)
  have hiff : (fresh (S := S) id validators keys).QuorumsIntersect ↔
      validators.toFinset.card ≤ 3 * ((validators.length - 1) / 3) + 1 :=
    ⟨card_of_quorumsIntersect hquorum, quorumsIntersect_of_card hquorum⟩
  refine ⟨hiff, fun hnodup => hiff.trans ?_⟩
  rw [List.toFinset_card_of_nodup hnodup]
  omega

end ConsensusState

/-! ## 7. Four validators that evaluate -/

def sampleKey (i : NodeId) : ValidatorKey SampleScalar SamplePoint where
  nodeId := i
  publicKey := (i.toNat + 2 : SampleScalar) • sampleSuite.G
  secretKey := i.toNat + 2

/-- The public keys of the validators 1 to 4. -/
def sampleKeys (i : NodeId) : Option SamplePoint :=
  if i ∈ [(1 : NodeId), 2, 3, 4] then some (sampleKey i).publicKey else none

/-- The approving vote of validator `i` for `block` in a view. -/
def sampleVote (i : NodeId) (block : NullifierBlock) (view : UInt64) :
    Vote SampleScalar SamplePoint :=
  (sampleKey i).signVoteWithView sampleSuite block.height block.hash true view 5

/-- Node `i` of the four. -/
def sampleNode (i : NodeId) : ConsensusState SampleScalar SamplePoint :=
  ConsensusState.fresh i [1, 2, 3, 4] sampleKeys

theorem sampleNode_new (i : NodeId) :
    ConsensusState.new i [1, 2, 3, 4] sampleKeys .production = .ok (sampleNode i) := by
  unfold ConsensusState.new
  dsimp only
  rw [if_neg (by decide), if_neg (by decide)]
  rfl

namespace ConsensusState

/-- Quorums of 3 out of 4 intersect; the constructor takes 5 validators too, with the same
    quorum. -/
theorem quorumsIntersect_iff_four :
    (sampleNode 1).QuorumsIntersect ∧
      ¬ (fresh (S := SampleScalar) 1 [1, 2, 3, 4, 5] sampleKeys).QuorumsIntersect := by
  have hfour := quorumsIntersect_iff (by decide) (sampleNode_new 1)
  have hfive : ConsensusState.new (S := SampleScalar) 1 [1, 2, 3, 4, 5] sampleKeys .production =
      .ok (fresh 1 [1, 2, 3, 4, 5] sampleKeys) := rfl
  refine ⟨(hfour.2 (by decide)).mpr rfl, fun h => ?_⟩
  exact absurd (((quorumsIntersect_iff (by decide) hfive).2 (by decide)).mp h) (by decide)

/-- With 5 validators the quorums 1, 2, 3 and 3, 4, 5 share one member, and one may be faulty. -/
theorem quorums_of_five_share_one :
    ∃ s, ConsensusState.new (S := SampleScalar) 1 [1, 2, 3, 4, 5] sampleKeys .production = .ok s ∧
      s.maxFaults = 1 ∧ s.quorumSize = 3 ∧ ¬ s.QuorumsIntersect := by
  refine ⟨fresh 1 [1, 2, 3, 4, 5] sampleKeys, rfl, rfl, rfl, fun h => ?_⟩
  have hshare := h {1, 2, 3} {3, 4, 5} (by decide) (by decide) (by decide) (by decide)
  exact absurd hshare (by decide)

end ConsensusState

end Specter
