/-
  File:      Specter/Core/Networked.lean
  Subject:   THE NETWORKED NODE (specter-core/src/networked.rs): a mint, a network node and a
             local nullifier set.

  Three stores know of spends: the local set, the seen set of the gossip layer and the committed
  set of consensus. `is_double_spend` reads the last two, `transfer_token` checks the first, and
  nothing the network learns is ever put into it: a node that has heard of a spend from a peer
  transfers the token all the same (`known_token_transferred`).

  The mint `Mint::setup` builds is an argument of `new`; the bond registry, which no method here
  reads, is left out. What `transfer_token` draws is the argument `SendRandom`.

  * `transferToken_refused_iff` -- when a transfer is an error that leaves the node as it is;
  * `mem_nullifierSet_run` -- the local set holds what this node's own transfers burned;
  * `spent_stays_spent` -- what a transfer spent is known and refused for the rest of the run;
  * `known_refused_iff` -- in every run, what the network knows blocks a transfer exactly if the
    node tried to spend the nullifier itself, or the token cannot be spent at all.
-/
import Specter.Core.Transfer
import Specter.Lib.Machine
import Specter.Net.Node

namespace Specter

open Lib

variable {S P : Type} [Field S] [AddCommGroup P] [Module S P]

structure NetworkedNode (S P : Type) where
  mint : Mint S P
  network : NetworkNode S P
  nullifierSet : NullifierSet

/-- What `transfer_token` draws: for the transfer, for the new credential, and the nonce of the
    broadcast's signature. -/
structure SendRandom (S : Type) where
  transfer : TransferRandom S
  credential : CredentialRandom S
  broadcast : S

namespace NetworkedNode

protected def new (nodeId : NodeId) (peers : List NodeId) (ownKey : ValidatorKey S P)
    (allValidators : List NodeId) (allPubkeys : NodeId → Option P) (mint : Mint S P) :
    Option (NetworkedNode S P) :=
  (NetworkNode.new nodeId peers ownKey allValidators allPubkeys).map fun network =>
    { mint := mint, network := network, nullifierSet := NullifierSet.new }

/-- `mint_token`; it reads the node and changes nothing. -/
def mintToken (C : Suite S P) (node : NetworkedNode S P) (value : UInt64)
    (signers : List SignerId) (attributes : Option Attributes) (vdfIterations : Option UInt64)
    (bondOwnerId : Option Bytes32) (rnd : IssueRandom S) :
    Except String (ProofCarryingToken S P) :=
  (node.mint.issueFull C value signers attributes vdfIterations bondOwnerId rnd).mapError
    MintError.display

/-- The network after `transfer_token` publishes a nullifier: gossip and the pending pool
    through `submit_nullifier`, then the pending pool once more. -/
def publish (C : Suite S P) (network : NetworkNode S P) (nullifier : Bytes32) (k : S) :
    NetworkNode S P :=
  let network' := network.submitNullifier C nullifier k
  { network' with consensus := network'.consensus.submitNullifier nullifier }

def transferToken (C : Suite S P) (node : NetworkedNode S P) (token : ProofCarryingToken S P)
    (rnd : SendRandom S) : Except String (TransferResult S P) × NetworkedNode S P :=
  match transfer C token node.nullifierSet rnd.transfer with
  | (.error e, ns) => (.error e.display, { node with nullifierSet := ns })
  | (.ok result, ns) =>
      (.ok
        { result with
          token := refreshCredential C result.token node.mint.credentialIssuer rnd.credential },
        { node with
          nullifierSet := ns
          network := publish C node.network result.spentNullifier rnd.broadcast })

def isDoubleSpend (node : NetworkedNode S P) (nullifier : Bytes32) : Bool :=
  node.network.isNullifierKnown nullifier

/-! ## 1. When a transfer is refused -/

variable {C : Suite S P} {node node' : NetworkedNode S P}

/-- The local set after a transfer is the one `transfer` leaves. -/
theorem transferToken_nullifierSet (token : ProofCarryingToken S P) (rnd : SendRandom S) :
    (node.transferToken C token rnd).2.nullifierSet =
      (transfer C token node.nullifierSet rnd.transfer).2 := by
  unfold transferToken
  split
  · rename_i e ns h
    rw [h]
  · rename_i result ns h
    rw [h]

/-- **When a transfer is an error that leaves the node as it is**: the token cannot be spent, or
    its nullifier is in the local set. The network is not asked. -/
theorem transferToken_refused_iff {token : ProofCarryingToken S P} {rnd : SendRandom S} :
    (∃ e, node.transferToken C token rnd = (.error e, node)) ↔
      ¬ Spendable token ∨ token.computeNullifier C ∈ node.nullifierSet.nullifiers := by
  constructor
  · intro herr
    obtain ⟨e, he⟩ := herr
    refine Classical.byContradiction fun hn => ?_
    obtain ⟨hspend, hnew⟩ := not_or.mp hn
    -- the nullifier is burned, so the set is another one
    have hset := transfer_burns rnd.transfer (Classical.not_not.mp hspend) hnew
    rw [← transferToken_nullifierSet, he] at hset
    exact hnew (hset ▸ Finset.mem_insert_self _ _)
  · intro h
    obtain ⟨e, he⟩ := transfer_refused rnd.transfer h
    refine ⟨e.display, ?_⟩
    unfold transferToken
    rw [he]

/-! ## 2. Runs -/

end NetworkedNode

inductive NetworkedOp (S P : Type) where
  | mintToken (value : UInt64) (signers : List SignerId) (attributes : Option Attributes)
      (vdfIterations : Option UInt64) (bondOwnerId : Option Bytes32) (rnd : IssueRandom S)
  | transferToken (token : ProofCarryingToken S P) (rnd : SendRandom S)
  /-- A received broadcast, a block proposed, voted on or committed, a view change. -/
  | network (op : NodeOp S P)

namespace NetworkedNode

def machine (C : Suite S P) : Machine (NetworkedNode S P) (NetworkedOp S P) where
  step node
    | .mintToken _ _ _ _ _ _ => some node
    | .transferToken token rnd => some (node.transferToken C token rnd).2
    | .network op => (node.network.exec C op).map fun network => { node with network := network }

/-- Among the calls is a `transfer_token` of a spendable token with the nullifier `n`. -/
def TriedIn (C : Suite S P) (ops : List (NetworkedOp S P)) (n : Bytes32) : Prop :=
  ∃ token rnd, NetworkedOp.transferToken token rnd ∈ ops ∧ Spendable token ∧
    token.computeNullifier C = n

variable {C : Suite S P} {node node' : NetworkedNode S P}

/-- One call adds to the local set what it tries to spend, and nothing else. -/
theorem mem_nullifierSet_step {op : NetworkedOp S P} (h : (machine C).step node op = some node')
    (n : Bytes32) :
    n ∈ node'.nullifierSet.nullifiers ↔
      n ∈ node.nullifierSet.nullifiers ∨ TriedIn C [op] n := by
  have hother : (∀ token rnd, op ≠ .transferToken token rnd) → ¬ TriedIn C [op] n := by
    intro hne htried
    obtain ⟨token, rnd, hmem, _⟩ := htried
    exact hne token rnd (List.mem_singleton.mp hmem).symm
  cases op with
  | mintToken value signers attributes vdf bond rnd =>
      cases h
      exact ⟨.inl, fun h => h.resolve_right (hother (by simp))⟩
  | transferToken token rnd =>
      cases h
      rw [transferToken_nullifierSet, transfer_set]
      by_cases hspend : Spendable token
      · rw [if_pos hspend, Finset.mem_insert]
        constructor
        · intro hin
          rcases hin with rfl | hold
          · exact .inr ⟨token, rnd, List.mem_singleton.mpr rfl, hspend, rfl⟩
          · exact .inl hold
        · intro hin
          rcases hin with hold | ⟨t, r, hmem, _, hn⟩
          · exact .inr hold
          · cases List.mem_singleton.mp hmem
            exact .inl hn.symm
      · rw [if_neg hspend]
        refine ⟨.inl, ?_⟩
        intro hin
        rcases hin with hold | ⟨t, r, hmem, hs, _⟩
        · exact hold
        · cases List.mem_singleton.mp hmem
          exact absurd hs hspend
  | network nop =>
      obtain ⟨network, _, rfl⟩ := Option.map_eq_some_iff.mp h
      exact ⟨.inl, fun h => h.resolve_right (hother (by simp))⟩

theorem triedIn_cons {op : NetworkedOp S P} {ops : List (NetworkedOp S P)} {n : Bytes32} :
    TriedIn C (op :: ops) n ↔ TriedIn C [op] n ∨ TriedIn C ops n := by
  unfold TriedIn
  constructor
  · intro h
    obtain ⟨token, rnd, hmem, hrest⟩ := h
    rcases List.mem_cons.mp hmem with e | hmem
    · exact .inl ⟨token, rnd, List.mem_singleton.mpr e, hrest⟩
    · exact .inr ⟨token, rnd, hmem, hrest⟩
  · intro h
    rcases h with ⟨token, rnd, hmem, hrest⟩ | ⟨token, rnd, hmem, hrest⟩
    · exact ⟨token, rnd, List.mem_cons.mpr (.inl (List.mem_singleton.mp hmem)), hrest⟩
    · exact ⟨token, rnd, List.mem_cons_of_mem _ hmem, hrest⟩

/-- **The local set of a run**: what it held at first and what the run's own transfers burned.
    Nothing the network learns gets in. -/
theorem mem_nullifierSet_run (ops : List (NetworkedOp S P)) {node node' : NetworkedNode S P}
    (h : (machine C).run node ops = some node') (n : Bytes32) :
    n ∈ node'.nullifierSet.nullifiers ↔
      n ∈ node.nullifierSet.nullifiers ∨ TriedIn C ops n := by
  induction ops generalizing node with
  | nil =>
      cases h
      refine ⟨.inl, fun h => h.resolve_right ?_⟩
      intro htried
      obtain ⟨_, _, hmem, _⟩ := htried
      cases hmem
  | cons op ops ih =>
      obtain ⟨mid, hstep, hrun⟩ := (machine C).run_cons h
      rw [ih hrun, mem_nullifierSet_step hstep, or_assoc, ← triedIn_cons]

/-- A published nullifier is known, and nothing known before is forgotten. -/
theorem publish_known {network : NetworkNode S P} {n m : Bytes32} {k : S}
    (h : network.isNullifierKnown m = true ∨
      (m = n ∧ network.gossip.seenNullifiers.card < maxKnownNullifiers)) :
    (publish C network n k).isNullifierKnown m = true := by
  have hsubmit : (network.submitNullifier C n k).isNullifierKnown m = true := by
    rcases h with hold | ⟨rfl, hcap⟩
    · exact NetworkNode.exec_known (C := C)
        (show network.exec C (.submitNullifier n k) = some _ from rfl) hold
    · exact NetworkNode.submitNullifier_known hcap
  exact NetworkNode.exec_known (C := C)
    (show (network.submitNullifier C n k).exec C (.consensus (.submitNullifier n)) = some _
      from rfl) hsubmit

/-- **A successful transfer makes its nullifier known**, below the cap of the gossip layer. -/
theorem transferToken_known {token : ProofCarryingToken S P} {rnd : SendRandom S}
    {r : TransferResult S P} (h : node.transferToken C token rnd = (.ok r, node'))
    (hcap : node.network.gossip.seenNullifiers.card < maxKnownNullifiers) :
    node'.isDoubleSpend (token.computeNullifier C) = true := by
  unfold transferToken at h
  split at h
  · cases h
  · rename_i result ns htr
    cases h
    obtain ⟨_, hspent, _⟩ := transfer_ok htr
    exact publish_known (.inr ⟨hspent.symm, hcap⟩)

/-- A transfer forgets nothing. -/
theorem transferToken_keeps_known {token : ProofCarryingToken S P} {rnd : SendRandom S}
    {n : Bytes32} (hn : node.isDoubleSpend n = true) :
    (node.transferToken C token rnd).2.isDoubleSpend n = true := by
  unfold transferToken
  split
  · exact hn
  · exact publish_known (.inl hn)

/-- **What the network knows it knows for the rest of the run.** -/
theorem known_run (ops : List (NetworkedOp S P)) (h : (machine C).run node ops = some node')
    {n : Bytes32} (hn : node.isDoubleSpend n = true) : node'.isDoubleSpend n = true := by
  refine (machine C).run_invariant (I := fun x => x.isDoubleSpend n = true)
    (fun x op x' hx hstep => ?_) ops node node' hn h
  cases op with
  | mintToken value signers attributes vdf bond rnd =>
      cases hstep
      exact hx
  | transferToken token rnd =>
      cases hstep
      exact transferToken_keeps_known hx
  | network nop =>
      obtain ⟨network, hexec, rfl⟩ := Option.map_eq_some_iff.mp hstep
      exact NetworkNode.exec_known hexec hx

/-- **What a node has spent stays spent there.** After a successful transfer, below the cap of the
    gossip layer, the nullifier is a double spend to the node for the rest of every run, and every
    token with it is refused with the node left as it is. -/
theorem spent_stays_spent {token : ProofCarryingToken S P} {rnd : SendRandom S}
    {r : TransferResult S P} {ops : List (NetworkedOp S P)} {last : NetworkedNode S P}
    (h : node.transferToken C token rnd = (.ok r, node'))
    (hcap : node.network.gossip.seenNullifiers.card < maxKnownNullifiers)
    (hrun : (machine C).run node' ops = some last) :
    last.isDoubleSpend (token.computeNullifier C) = true ∧
      ∀ (t : ProofCarryingToken S P) (rnd' : SendRandom S),
        t.computeNullifier C = token.computeNullifier C →
          ∃ e, last.transferToken C t rnd' = (.error e, last) := by
  refine ⟨known_run ops hrun (transferToken_known h hcap), fun t rnd' ht => ?_⟩
  have hspend : Spendable token := by
    unfold transferToken at h
    split at h
    · cases h
    · rename_i result ns htr
      obtain ⟨hvalue, hren, _⟩ := transfer_ok_inv htr
      exact ⟨hvalue, hren⟩
  have hstep : (machine C).step node (.transferToken token rnd) = some node' := by
    show some (node.transferToken C token rnd).2 = _
    rw [h]
  have hburned : token.computeNullifier C ∈ node'.nullifierSet.nullifiers :=
    (mem_nullifierSet_step hstep _).mpr
      (.inr ⟨token, rnd, List.mem_singleton.mpr rfl, hspend, rfl⟩)
  refine transferToken_refused_iff.mpr (.inr ?_)
  rw [ht]
  exact (mem_nullifierSet_run ops hrun _).mpr (.inl hburned)

omit [Field S] [AddCommGroup P] [Module S P] in
theorem new_nullifierSet {id : NodeId} {peers : List NodeId} {key : ValidatorKey S P}
    {validators : List NodeId} {keys : NodeId → Option P} {mint : Mint S P}
    (h : NetworkedNode.new id peers key validators keys mint = some node) :
    node.nullifierSet.nullifiers = ∅ := by
  obtain ⟨network, _, rfl⟩ := Option.map_eq_some_iff.mp h
  rfl

/-- **When what the network knows blocks a transfer.** For every state a run of a new node
    reaches and every token whose nullifier is known there by gossip or in a committed block:
    `transfer_token` is an error and leaves the node as it is exactly if the token cannot be
    spent at all or the run itself has tried to spend its nullifier. -/
theorem known_refused_iff (C : Suite S P) (id : NodeId) (peers : List NodeId)
    (key : ValidatorKey S P) (validators : List NodeId) (keys : NodeId → Option P)
    (mint : Mint S P) (start node : NetworkedNode S P)
    (hnew : NetworkedNode.new id peers key validators keys mint = some start)
    (ops : List (NetworkedOp S P)) (hrun : (machine C).run start ops = some node)
    (token : ProofCarryingToken S P) (rnd : SendRandom S) :
    (node.isDoubleSpend (token.computeNullifier C) = true →
        ∃ e, node.transferToken C token rnd = (.error e, node)) ↔
      (node.isDoubleSpend (token.computeNullifier C) = true →
        ¬ Spendable token ∨ TriedIn C ops (token.computeNullifier C)) := by
  have hset : token.computeNullifier C ∈ node.nullifierSet.nullifiers ↔
      TriedIn C ops (token.computeNullifier C) := by
    rw [mem_nullifierSet_run ops hrun, new_nullifierSet hnew]
    simp
  rw [transferToken_refused_iff, hset]

/-! ## 3. A spend heard of from a peer -/

/-- A new node of validator 1, with the one-signer mint. -/
def sampleNetworked : NetworkedNode SampleScalar SamplePoint where
  mint := sampleMint
  network := sampleNetworkNode 1
  nullifierSet := NullifierSet.new

theorem sampleNetworked_new :
    NetworkedNode.new 1 [2, 3, 4] (sampleKey 1) [1, 2, 3, 4] sampleKeys sampleMint =
      some sampleNetworked := by
  show (NetworkNode.new 1 ([1, 2, 3, 4].filter (· ≠ 1)) (sampleKey 1) _ _).map _ = _
  rw [sampleNetworkNode_new 1]
  rfl

def sampleMintOp : NetworkedOp SampleScalar SamplePoint :=
  .mintToken 10 [1] none none none (sampleIssueRandom 0)

def sampleSend : SendRandom SampleScalar where
  transfer := ⟨leArr 32 77, 4⟩
  credential := { issuer := ⟨1, 2⟩, presentation := fun i => i }
  broadcast := 6

/-- **A known spend is spent again**: the node mints a token, hears of its nullifier in a
    broadcast validator 2 signed, answers that it is a double spend, and transfers it. -/
theorem known_token_transferred :
    ∃ t node r, NetworkedNode.new 1 [2, 3, 4] (sampleKey 1) [1, 2, 3, 4] sampleKeys sampleMint =
        some sampleNetworked ∧
      sampleNetworked.mintToken sampleSuite 10 [1] none none none (sampleIssueRandom 0) =
        .ok t ∧
      (machine sampleSuite).run sampleNetworked
        [sampleMintOp, .network (sampleBroadcast 2 (t.computeNullifier sampleSuite))] =
          some node ∧
      node.isDoubleSpend (t.computeNullifier sampleSuite) = true ∧
      (node.transferToken sampleSuite t sampleSend).1 = .ok r := by
  have hrun : ((sampleNetworked.mintToken sampleSuite 10 [1] none none none
      (sampleIssueRandom 0)).toOption.bind fun t => ((machine sampleSuite).run sampleNetworked
        [sampleMintOp, .network (sampleBroadcast 2 (t.computeNullifier sampleSuite))]).bind
      fun node => (node.transferToken sampleSuite t sampleSend).1.toOption.map fun _ =>
        node.isDoubleSpend (t.computeNullifier sampleSuite)) = some true := by decide +kernel
  obtain ⟨t, ht, hrun⟩ := Option.bind_eq_some_iff.mp hrun
  obtain ⟨node, hnode, hrun⟩ := Option.bind_eq_some_iff.mp hrun
  obtain ⟨r, hr, hknown⟩ := Option.map_eq_some_iff.mp hrun
  exact ⟨t, node, r, sampleNetworked_new, ok_of_toOption ht, hnode, hknown, ok_of_toOption hr⟩

/-- A token the node has transferred itself is known and refused. -/
theorem known_refused_iff_own_transfer :
    ∃ t node, sampleNetworked.mintToken sampleSuite 10 [1] none none none
        (sampleIssueRandom 0) = .ok t ∧
      (machine sampleSuite).run sampleNetworked [sampleMintOp, .transferToken t sampleSend] =
        some node ∧
      node.isDoubleSpend (t.computeNullifier sampleSuite) = true ∧
      ∃ e, node.transferToken sampleSuite t sampleSend = (.error e, node) := by
  have hrun : ((sampleNetworked.mintToken sampleSuite 10 [1] none none none
      (sampleIssueRandom 0)).toOption.bind fun t => ((machine sampleSuite).run sampleNetworked
        [sampleMintOp, .transferToken t sampleSend]).map fun node =>
        decide (node.isDoubleSpend (t.computeNullifier sampleSuite) = true ∧ Spendable t)) =
      some true := by decide +kernel
  obtain ⟨t, ht, hrun⟩ := Option.bind_eq_some_iff.mp hrun
  obtain ⟨node, hnode, hfacts⟩ := Option.map_eq_some_iff.mp hrun
  obtain ⟨hknown, hspend⟩ := of_decide_eq_true hfacts
  refine ⟨t, node, ok_of_toOption ht, hnode, hknown, ?_⟩
  refine (known_refused_iff sampleSuite 1 _ _ _ _ _ sampleNetworked node sampleNetworked_new _
    hnode t sampleSend).mpr (fun _ => .inr ?_) hknown
  exact ⟨t, sampleSend, by simp, hspend, rfl⟩

/-- The node goes on to hear of the spend from validator 2. -/
theorem spent_stays_spent_heard :
    ∃ (t : ProofCarryingToken SampleScalar SamplePoint)
      (last : NetworkedNode SampleScalar SamplePoint),
      sampleNetworked.mintToken sampleSuite 10 [1] none none none (sampleIssueRandom 0) = .ok t ∧
      (machine sampleSuite).run sampleNetworked [.transferToken t sampleSend,
        .network (sampleBroadcast 2 (t.computeNullifier sampleSuite))] = some last ∧
      last.isDoubleSpend (t.computeNullifier sampleSuite) = true ∧
      ∃ e, last.transferToken sampleSuite t sampleSend = (.error e, last) := by
  have hrun : ((sampleNetworked.mintToken sampleSuite 10 [1] none none none
      (sampleIssueRandom 0)).toOption.bind fun t =>
        (sampleNetworked.transferToken sampleSuite t sampleSend).1.toOption.bind fun _ =>
          (machine sampleSuite).run (sampleNetworked.transferToken sampleSuite t sampleSend).2
            [.network (sampleBroadcast 2 (t.computeNullifier sampleSuite))]).isSome = true := by
    decide +kernel
  obtain ⟨last, hlast⟩ := Option.isSome_iff_exists.mp hrun
  obtain ⟨t, ht, hlast⟩ := Option.bind_eq_some_iff.mp hlast
  obtain ⟨r, hr, hlast⟩ := Option.bind_eq_some_iff.mp hlast
  obtain ⟨hknown, hrefused⟩ :=
    spent_stays_spent (Prod.ext (ok_of_toOption hr) rfl) (by decide) hlast
  exact ⟨t, last, ok_of_toOption ht, hlast, hknown, hrefused t sampleSend rfl⟩

end NetworkedNode

end Specter
