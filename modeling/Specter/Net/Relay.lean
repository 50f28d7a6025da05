/-
  File:      Specter/Net/Relay.lean
  Subject:   ONE NODE AS A RELAY of nullifier broadcasts (specter-net/src/gossip.rs, node.rs):
             where the messages in its queues come from.

  Whether it starts a broadcast or passes one on, a node does the same: it records the nullifier
  and pushes one message for each of some peers, `relay`. The machine of one node keeps what was
  drained beside the queues, so that a message once placed is not lost from sight.

  * `relay_mem` -- the queues hold what they held, and the message relayed;
  * `relay_queue` -- they get copies of it, at most one for each entry of a peer;
  * `submitNullifier_effect`, `receiveNullifierBroadcast_effect` -- what the two calls do;
  * `gossip_authentic` -- every message ever queued verifies under the key of its sender, and
    every nullifier known was submitted here or arrived so signed.
-/
import Specter.Lib.Machine
import Specter.Net.Node

namespace Specter

open Lib

variable {S P : Type} [Field S] [AddCommGroup P] [Module S P]

/-! ## 1. Relaying -/

/-- The message verifies under the key registered for its sender. -/
def NullifierBroadcast.Genuine (C : Suite S P) (keys : NodeId → Option P)
    (m : NullifierBroadcast) : Prop :=
  (keys m.sender).any
    (verifyNullifierBroadcast C m.nullifier m.sender m.signatureR m.signatureS) = true

instance (C : Suite S P) (keys : NodeId → Option P) (m : NullifierBroadcast) :
    Decidable (m.Genuine C keys) :=
  inferInstanceAs (Decidable (_ = true))

namespace GossipProtocol

/-- The nullifier of `m` recorded, and `m` pushed for each peer of the list. -/
def relay (g : GossipProtocol) (m : NullifierBroadcast) (dest : List NodeId) : GossipProtocol :=
  { g with
    seenNullifiers := insert m.nullifier g.seenNullifiers
    outbox := dest.foldl (push m) g.outbox }

/-- The messages queued for a peer. -/
def queue (g : GossipProtocol) (peer : NodeId) : List NullifierBroadcast :=
  (g.outbox peer).getD []

variable {g : GossipProtocol} {m : NullifierBroadcast}
  {outbox : NodeId → Option (List NullifierBroadcast)} {dest : List NodeId}

/-- Pushing leaves the queues alone, or the queue was there, not full, and gets the message. -/
theorem push_cases (m : NullifierBroadcast) (outbox : NodeId → Option (List NullifierBroadcast))
    (peer : NodeId) :
    push m outbox peer = outbox ∨ ∃ q, outbox peer = some q ∧
      push m outbox peer = Function.update outbox peer (some (q ++ [m])) := by
  unfold push
  cases hq : outbox peer with
  | none => exact .inl rfl
  | some q =>
      dsimp only
      by_cases hfull : q.length ≥ maxOutboxPerPeer
      · exact .inl (if_pos hfull)
      · exact .inr ⟨q, rfl, if_neg hfull⟩

theorem push_room {peer : NodeId} {q : List NullifierBroadcast} (hq : outbox peer = some q)
    (hroom : q.length < maxOutboxPerPeer) :
    push m outbox peer = Function.update outbox peer (some (q ++ [m])) := by
  unfold push
  rw [hq]
  dsimp only
  rw [if_neg (Nat.not_le.mpr hroom)]

theorem push_mem {peer p : NodeId} {x : NullifierBroadcast}
    (h : x ∈ (push m outbox peer p).getD []) : x ∈ (outbox p).getD [] ∨ x = m := by
  rcases push_cases m outbox peer with e | ⟨q, hq, e⟩
  · rw [e] at h
    exact .inl h
  · rw [e] at h
    by_cases hp : p = peer
    · rw [hp, Function.update_self] at h
      rcases List.mem_append.mp h with h | h
      · rw [hp, hq]
        exact .inl h
      · exact .inr (List.mem_singleton.mp h)
    · rw [Function.update_of_ne hp] at h
      exact .inl h

theorem foldl_push_mem {p : NodeId} {x : NullifierBroadcast}
    (h : x ∈ (dest.foldl (push m) outbox p).getD []) : x ∈ (outbox p).getD [] ∨ x = m := by
  induction dest generalizing outbox with
  | nil => exact .inl h
  | cons peer dest ih =>
      rcases ih h with h | h
      · exact push_mem h
      · exact .inr h

/-- **The queues hold what they held, and the message relayed.** -/
theorem relay_mem {p : NodeId} {x : NullifierBroadcast} (h : x ∈ (g.relay m dest).queue p) :
    x ∈ g.queue p ∨ x = m :=
  foldl_push_mem h

/-- **One round over a list of peers** gives each as many copies as it has entries there, fewer
    where its queue is full, and at least one where it is not. -/
theorem foldl_push_eq (m : NullifierBroadcast) (dest : List NodeId)
    (outbox : NodeId → Option (List NullifierBroadcast)) (p : NodeId) :
    ∃ k ≤ dest.count p, dest.foldl (push m) outbox p =
        (outbox p).map (· ++ List.replicate k m) ∧
      (p ∈ dest → ∀ q, outbox p = some q → q.length < maxOutboxPerPeer → 1 ≤ k) := by
  induction dest generalizing outbox with
  | nil => exact ⟨0, Nat.le_refl _, by simp, fun h => by cases h⟩
  | cons peer dest ih =>
      obtain ⟨k, hk, heq, hone⟩ := ih (push m outbox peer)
      by_cases hp : peer = p
      · subst hp
        rw [List.foldl_cons, heq, List.count_cons_self]
        by_cases hroom : ∃ q, outbox peer = some q ∧ q.length < maxOutboxPerPeer
        · -- the copy of this entry, and those of the entries to come
          obtain ⟨q, hq, hlen⟩ := hroom
          refine ⟨k + 1, by omega, ?_, fun _ _ _ _ => by omega⟩
          rw [push_room hq hlen, Function.update_self, hq, Option.map_some, Option.map_some,
            List.append_assoc, List.replicate_succ, List.singleton_append]
        · have hsame : push m outbox peer = outbox := by
            unfold push
            cases hq : outbox peer with
            | none => rfl
            | some q => exact if_pos (Nat.not_lt.mp fun hlen => hroom ⟨q, hq, hlen⟩)
          exact ⟨k, by omega, by rw [hsame], fun _ q hq hlen => absurd ⟨q, hq, hlen⟩ hroom⟩
      · have hsame : push m outbox peer p = outbox p := by
          rcases push_cases m outbox peer with e | ⟨q, _, e⟩
          · rw [e]
          · rw [e, Function.update_of_ne (Ne.symm hp)]
        rw [hsame] at heq hone
        refine ⟨k, ?_, heq, fun hmem => hone ((List.mem_cons.mp hmem).resolve_left (Ne.symm hp))⟩
        rwa [List.count_cons_of_ne hp]

/-- **What relaying adds to a queue**: copies of the message, at most one for each entry of the
    peer, and at least one if it has a queue with room. -/
theorem relay_queue (g : GossipProtocol) (m : NullifierBroadcast) (dest : List NodeId)
    (p : NodeId) :
    ∃ k ≤ dest.count p, (g.relay m dest).queue p = g.queue p ++ List.replicate k m ∧
      (p ∈ dest → ∀ q, g.outbox p = some q → q.length < maxOutboxPerPeer → 1 ≤ k) := by
  obtain ⟨k, hk, heq, hone⟩ := foldl_push_eq m dest g.outbox p
  unfold queue relay
  dsimp only
  rw [heq]
  cases hq : g.outbox p with
  | none => exact ⟨0, Nat.zero_le _, rfl, fun _ q h => by cases h⟩
  | some q => exact ⟨k, hk, rfl, fun hmem q' hq' => hone hmem q' (hq.trans hq')⟩

/-- Relaying makes no queue and loses none. -/
theorem relay_outbox_isSome (g : GossipProtocol) (m : NullifierBroadcast) (dest : List NodeId)
    (p : NodeId) : ((g.relay m dest).outbox p).isSome = (g.outbox p).isSome := by
  obtain ⟨k, _, heq, _⟩ := foldl_push_eq m dest g.outbox p
  unfold relay
  dsimp only
  rw [heq, Option.isSome_map]

/-- **An own broadcast relays its message to all peers, or changes nothing.** -/
theorem broadcastNullifierSigned_cases (g : GossipProtocol) (n sigR sigS : Bytes32) :
    (g.seenNullifiers.card < maxKnownNullifiers ∧ n ∉ g.seenNullifiers ∧
        (g.broadcastNullifierSigned n sigR sigS).2 =
          g.relay ⟨n, g.nodeId, sigR, sigS⟩ g.peers) ∨
      ((maxKnownNullifiers ≤ g.seenNullifiers.card ∨ n ∈ g.seenNullifiers) ∧
        (g.broadcastNullifierSigned n sigR sigS).2 = g) := by
  unfold broadcastNullifierSigned
  split
  · rename_i hcap
    exact .inr ⟨.inl hcap, rfl⟩
  · rename_i hcap
    split
    · rename_i hseen
      exact .inr ⟨.inr hseen, rfl⟩
    · rename_i hseen
      exact .inl ⟨Nat.not_le.mp hcap, hseen, rfl⟩

/-- A received broadcast that is accepted is relayed to the peers that did not start it. -/
theorem accept_eq_relay (g : GossipProtocol) (m : NullifierBroadcast) :
    g.accept m.nullifier m.sender m.signatureR m.signatureS =
      g.relay m (g.peers.filter (· ≠ m.sender)) := rfl

theorem queue_drain (g : GossipProtocol) (peer p : NodeId) :
    (g.drainMessagesFor peer).2.queue p = if p = peer then [] else g.queue p := by
  unfold drainMessagesFor queue
  cases hq : g.outbox peer with
  | none =>
      by_cases hp : p = peer
      · rw [if_pos hp, hp, hq]
        rfl
      · rw [if_neg hp]
  | some q =>
      dsimp only
      by_cases hp : p = peer
      · rw [if_pos hp, hp, Function.update_self]
        rfl
      · rw [if_neg hp, Function.update_of_ne hp]

theorem outbox_drain_isSome (g : GossipProtocol) (peer p : NodeId) :
    ((g.drainMessagesFor peer).2.outbox p).isSome = (g.outbox p).isSome := by
  unfold drainMessagesFor
  cases hq : g.outbox peer with
  | none => rfl
  | some q =>
      dsimp only
      by_cases hp : p = peer
      · rw [hp, Function.update_self, hq]
        rfl
      · rw [Function.update_of_ne hp]

theorem drained_eq (g : GossipProtocol) (peer : NodeId) :
    (g.drainMessagesFor peer).1 = g.queue peer := by
  unfold drainMessagesFor queue
  cases g.outbox peer <;> rfl

end GossipProtocol

namespace NetworkNode

/-! ## 2. The calls of a node -/

/-- What `new` sets and no gossip call changes: the node's id, peers and keys; nothing is
    committed. -/
structure Stands (i : NodeId) (ps : List NodeId) (key : ValidatorKey S P)
    (K : NodeId → Option P) (node : NetworkNode S P) : Prop where
  id : node.id = i
  gossipId : node.gossip.nodeId = i
  peers : node.gossip.peers = ps
  ownKey : node.validatorKey = key
  keys : node.consensus.validatorKeys = K
  uncommitted : node.consensus.committedNullifiers = ∅

variable {C : Suite S P} {node : NetworkNode S P} {i : NodeId} {ps : List NodeId}
  {key : ValidatorKey S P} {K : NodeId → Option P}

omit [Field S] [AddCommGroup P] [Module S P] in
theorem stands_new {validators : List NodeId}
    (h : NetworkNode.new i ps key validators K = some node) :
    Stands i ps key K node ∧ node.gossip = GossipProtocol.new i ps := by
  unfold NetworkNode.new at h
  split at h
  · cases h
  · rename_i consensus hnew
    cases h
    unfold ConsensusState.new at hnew
    dsimp only at hnew
    split at hnew
    · cases hnew
    · split at hnew
      · cases hnew
      · cases hnew
        exact ⟨⟨rfl, rfl, rfl, rfl, rfl, rfl⟩, rfl⟩

omit [Field S] [AddCommGroup P] [Module S P] in
/-- Another gossip layer with the same id and peers, and a consensus layer with the same keys and
    nothing committed. -/
theorem Stands.with (h : Stands i ps key K node) {g : GossipProtocol} {c : ConsensusState S P}
    (hid : g.nodeId = node.gossip.nodeId) (hpeers : g.peers = node.gossip.peers)
    (hkeys : c.validatorKeys = node.consensus.validatorKeys)
    (hcom : c.committedNullifiers = node.consensus.committedNullifiers) :
    Stands i ps key K { node with gossip := g, consensus := c } :=
  ⟨h.id, hid.trans h.gossipId, hpeers.trans h.peers, h.ownKey, hkeys.trans h.keys,
    hcom.trans h.uncommitted⟩

omit [Field S] [AddCommGroup P] [Module S P] in
theorem Stands.drain (h : Stands i ps key K node) (peer : NodeId) :
    Stands i ps key K { node with gossip := (node.gossip.drainMessagesFor peer).2 } := by
  have hsame : (node.gossip.drainMessagesFor peer).2.nodeId = node.gossip.nodeId ∧
      (node.gossip.drainMessagesFor peer).2.peers = node.gossip.peers := by
    unfold GossipProtocol.drainMessagesFor
    split
    · exact ⟨rfl, rfl⟩
    · exact ⟨rfl, rfl⟩
  exact h.with hsame.1 hsame.2 rfl rfl

/-- The message a submission signs. -/
def ownMessage (C : Suite S P) (key : ValidatorKey S P) (i : NodeId) (n : Bytes32) (k : S) :
    NullifierBroadcast :=
  let sig := signNullifierBroadcast C n i key.secretKey key.publicKey k
  ⟨n, i, sig.1, sig.2⟩

/-- The key pair of a node that is registered makes its messages genuine. -/
theorem ownMessage_genuine (hpair : key.publicKey = key.secretKey • C.G)
    (hown : K i = some key.publicKey) (n : Bytes32) (k : S) :
    (ownMessage C key i n k).Genuine C K := by
  unfold NullifierBroadcast.Genuine ownMessage
  dsimp only
  rw [hown, Option.any_some, hpair]
  exact verifyNullifierBroadcast_sign key.secretKey k

/-- **What a submission does**: it relays its own message to all peers, or leaves the gossip
    layer alone. -/
theorem submitNullifier_effect (h : Stands i ps key K node) (n : Bytes32) (k : S) :
    Stands i ps key K (node.submitNullifier C n k) ∧
      ((n ∉ node.gossip.seenNullifiers ∧ (node.submitNullifier C n k).gossip =
          node.gossip.relay (ownMessage C key i n k) ps) ∨
        ((maxKnownNullifiers ≤ node.gossip.seenNullifiers.card ∨
            n ∈ node.gossip.seenNullifiers) ∧
          (node.submitNullifier C n k).gossip = node.gossip)) := by
  have hkeys : (node.consensus.submitNullifier n).validatorKeys = node.consensus.validatorKeys ∧
      (node.consensus.submitNullifier n).committedNullifiers =
        node.consensus.committedNullifiers := by
    unfold ConsensusState.submitNullifier
    split
    · exact ⟨rfl, rfl⟩
    · split
      · exact ⟨rfl, rfl⟩
      · exact ⟨rfl, rfl⟩
  let sig := signNullifierBroadcast C n node.id node.validatorKey.secretKey
    node.validatorKey.publicKey k
  have hsig : sig = signNullifierBroadcast C n i key.secretKey key.publicKey k := by
    show signNullifierBroadcast C n node.id node.validatorKey.secretKey
      node.validatorKey.publicKey k = _
    rw [h.id, h.ownKey]
  rcases node.gossip.broadcastNullifierSigned_cases n sig.1 sig.2 with
    ⟨_, hnew, hrelay⟩ | ⟨hold, hsame⟩
  · have hmsg : (⟨n, node.gossip.nodeId, sig.1, sig.2⟩ : NullifierBroadcast) =
        ownMessage C key i n k := by
      rw [h.gossipId, hsig]
      rfl
    rw [hmsg, h.peers] at hrelay
    refine ⟨?_, .inl ⟨hnew, hrelay⟩⟩
    refine h.with ?_ ?_ hkeys.1 hkeys.2
    · show (node.gossip.broadcastNullifierSigned n sig.1 sig.2).2.nodeId = _
      rw [hrelay]
      rfl
    · show (node.gossip.broadcastNullifierSigned n sig.1 sig.2).2.peers = _
      rw [hrelay]
      rfl
  · refine ⟨?_, .inr ⟨hold, hsame⟩⟩
    refine h.with ?_ ?_ hkeys.1 hkeys.2
    · exact congrArg GossipProtocol.nodeId hsame
    · exact congrArg GossipProtocol.peers hsame

/-- A received message, as the call takes it. -/
def receive (C : Suite S P) (node : NetworkNode S P) (m : NullifierBroadcast) :
    Except GossipError Bool × NetworkNode S P :=
  node.receiveNullifierBroadcast C m.nullifier m.sender m.signatureR m.signatureS

/-- **What a received message does**: genuine, new and below the cap it is relayed to the peers
    that did not start it; any other is answered something else and changes nothing. -/
theorem receive_effect (h : Stands i ps key K node) (m : NullifierBroadcast) :
    Stands i ps key K (node.receive C m).2 ∧
      ((m.Genuine C K ∧ m.nullifier ∉ node.gossip.seenNullifiers ∧
          (node.receive C m).1 = .ok true ∧
          (node.receive C m).2.gossip = node.gossip.relay m (ps.filter (· ≠ m.sender))) ∨
        (¬ (m.Genuine C K ∧ node.gossip.seenNullifiers.card < maxKnownNullifiers ∧
            m.nullifier ∉ node.gossip.seenNullifiers) ∧
          (node.receive C m).1 ≠ .ok true ∧ (node.receive C m).2 = node)) := by
  rcases GossipProtocol.handleVerifiedBroadcast_cases C node.gossip
    node.consensus.validatorKeys m.nullifier m.sender m.signatureR m.signatureS with
      ⟨htakes, e⟩ | ⟨hnot, res, hres, e⟩
  · have hgossip : (node.receive C m).2 =
        { node with gossip := node.gossip.relay m (ps.filter (· ≠ m.sender)) } := by
      unfold receive receiveNullifierBroadcast
      rw [e, GossipProtocol.accept_eq_relay, h.peers]
    have hans : (node.receive C m).1 = .ok true := congrArg Prod.fst e
    rw [h.keys] at htakes
    rw [hgossip]
    exact ⟨h.with rfl rfl rfl rfl, .inl ⟨htakes.1, htakes.2.2, hans, rfl⟩⟩
  · have hsame : (node.receive C m).2 = node := by
      unfold receive receiveNullifierBroadcast
      rw [e]
    have hans : (node.receive C m).1 = res := congrArg Prod.fst e
    rw [h.keys] at hnot
    rw [hsame]
    exact ⟨h, .inr ⟨hnot, fun e' => hres (hans.symm.trans e'), rfl⟩⟩

end NetworkNode

/-! ## 3. Runs of one node -/

inductive GossipCall (S : Type) where
  | submit (nullifier : Bytes32) (k : S)
  | receive (m : NullifierBroadcast)
  | drain (peer : NodeId)

/-- A node, what was ever drained from its queues, and the arguments of its calls. -/
structure RelayRun (S P : Type) where
  node : NetworkNode S P
  drained : List (NodeId × NullifierBroadcast)
  submitted : List Bytes32
  received : List NullifierBroadcast

namespace RelayRun

def start (node : NetworkNode S P) : RelayRun S P := ⟨node, [], [], []⟩

def machine (C : Suite S P) : Machine (RelayRun S P) (GossipCall S) where
  step w
    | .submit n k => some
        { w with node := w.node.submitNullifier C n k, submitted := n :: w.submitted }
    | .receive m => some
        { w with node := (w.node.receive C m).2, received := m :: w.received }
    | .drain peer => some
        { w with
          node := { w.node with gossip := (w.node.gossip.drainMessagesFor peer).2 }
          drained := w.drained ++ (w.node.gossip.drainMessagesFor peer).1.map fun m => (peer, m) }

/-- The message was placed in the peer's queue, now or before. -/
def Placed (w : RelayRun S P) (peer : NodeId) (m : NullifierBroadcast) : Prop :=
  (peer, m) ∈ w.drained ∨ m ∈ w.node.gossip.queue peer

/-- The nullifier was submitted here, or arrived in a genuine message. -/
def Vouched (C : Suite S P) (keys : NodeId → Option P) (w : RelayRun S P) (n : Bytes32) : Prop :=
  n ∈ w.submitted ∨ ∃ m ∈ w.received, m.nullifier = n ∧ m.Genuine C keys

structure RelayInv (C : Suite S P) (i : NodeId) (ps : List NodeId) (key : ValidatorKey S P)
    (K : NodeId → Option P) (w : RelayRun S P) : Prop where
  stands : NetworkNode.Stands i ps key K w.node
  genuine : ∀ p m, w.Placed p m → m.Genuine C K
  vouched : ∀ n ∈ w.node.gossip.seenNullifiers, Vouched C K w n

variable {C : Suite S P} {i : NodeId} {ps : List NodeId} {key : ValidatorKey S P}
  {K : NodeId → Option P} {w w' : RelayRun S P}

/-- A genuine message, relayed by a node that vouches for it. -/
theorem RelayInv.relayed (hI : RelayInv C i ps key K w) {m : NullifierBroadcast}
    {dest : List NodeId} (hgen : m.Genuine C K) (hstands : NetworkNode.Stands i ps key K w'.node)
    (hgossip : w'.node.gossip = w.node.gossip.relay m dest) (hdrained : w'.drained = w.drained)
    (hvouch : Vouched C K w' m.nullifier)
    (hkeep : ∀ n, Vouched C K w n → Vouched C K w' n) : RelayInv C i ps key K w' := by
  refine ⟨hstands, fun p x hx => ?_, fun n hn => ?_⟩
  · rcases hx with hx | hx
    · rw [hdrained] at hx
      exact hI.genuine p x (.inl hx)
    · rw [hgossip] at hx
      rcases GossipProtocol.relay_mem hx with hx | rfl
      · exact hI.genuine p x (.inr hx)
      · exact hgen
  · rw [hgossip] at hn
    rcases Finset.mem_insert.mp hn with rfl | hn
    · exact hvouch
    · exact hkeep n (hI.vouched n hn)

/-- The gossip layer and what was drained are as they were. -/
theorem RelayInv.untouched (hI : RelayInv C i ps key K w)
    (hstands : NetworkNode.Stands i ps key K w'.node)
    (hgossip : w'.node.gossip = w.node.gossip) (hdrained : w'.drained = w.drained)
    (hkeep : ∀ n, Vouched C K w n → Vouched C K w' n) : RelayInv C i ps key K w' := by
  refine ⟨hstands, fun p x hx => ?_, fun n hn => ?_⟩
  · refine hI.genuine p x ?_
    unfold Placed at hx ⊢
    rwa [hdrained, hgossip] at hx
  · rw [hgossip] at hn
    exact hkeep n (hI.vouched n hn)

/-- **Every call keeps the queues genuine.** -/
theorem relayInv_step {call : GossipCall S} (hpair : key.publicKey = key.secretKey • C.G)
    (hown : K i = some key.publicKey) (hI : RelayInv C i ps key K w)
    (h : (machine C).step w call = some w') : RelayInv C i ps key K w' := by
  cases call with
  | submit n k =>
      cases h
      obtain ⟨hstands, heff⟩ := NetworkNode.submitNullifier_effect (C := C) hI.stands n k
      have hkeep : ∀ x, Vouched C K w x → Vouched C K { w with
          node := w.node.submitNullifier C n k, submitted := n :: w.submitted } x := fun x hx =>
        hx.imp (List.mem_cons_of_mem _) fun h => h
      rcases heff with ⟨_, hrelay⟩ | ⟨_, hsame⟩
      · exact hI.relayed (NetworkNode.ownMessage_genuine hpair hown n k) hstands hrelay rfl
          (.inl List.mem_cons_self) hkeep
      · exact hI.untouched hstands hsame rfl hkeep
  | receive m =>
      cases h
      obtain ⟨hstands, heff⟩ := NetworkNode.receive_effect (C := C) hI.stands m
      have hkeep : ∀ x, Vouched C K w x → Vouched C K { w with
          node := (w.node.receive C m).2, received := m :: w.received } x := by
        intro x hx
        refine hx.imp (fun h => h) ?_
        rintro ⟨m', hm', h⟩
        exact ⟨m', List.mem_cons_of_mem _ hm', h⟩
      rcases heff with ⟨hgen, _, _, hrelay⟩ | ⟨_, _, hsame⟩
      · exact hI.relayed hgen hstands hrelay rfl (.inr ⟨m, List.mem_cons_self, rfl, hgen⟩) hkeep
      · exact hI.untouched hstands (congrArg NetworkNode.gossip hsame) rfl hkeep
  | drain peer =>
      cases h
      refine ⟨hI.stands.drain peer, fun p x hx => ?_, fun n hn => ?_⟩
      · rcases hx with hx | hx
        · rcases List.mem_append.mp hx with hx | hx
          · exact hI.genuine p x (.inl hx)
          · obtain ⟨m, hm, e⟩ := List.mem_map.mp hx
            cases e
            rw [GossipProtocol.drained_eq] at hm
            exact hI.genuine peer x (.inr hm)
        · rw [GossipProtocol.queue_drain] at hx
          split at hx
          · cases hx
          · exact hI.genuine p x (.inr hx)
      · rw [GossipProtocol.drainMessagesFor_seen] at hn
        exact hI.vouched n hn

/-- **Gossip is authentic.** Let a node be made with a key pair whose public key is registered
    under its id, and take any sequence of submissions, received messages (of any contents) and
    drained queues. Every message ever placed in a queue verifies under the key registered for
    its sender; every nullifier known was submitted here or arrived in such a message; and a
    received message that is not answered `Ok(true)` changes neither the seen set nor a queue. -/
theorem gossip_authentic (C : Suite S P) (K : NodeId → Option P) (i : NodeId) (ps : List NodeId)
    (key : ValidatorKey S P) (validators : List NodeId) {node : NetworkNode S P}
    (hnew : NetworkNode.new i ps key validators K = some node)
    (hpair : key.publicKey = key.secretKey • C.G) (hown : K i = some key.publicKey)
    (calls : List (GossipCall S)) {w : RelayRun S P}
    (hrun : (machine C).run (start node) calls = some w) :
    (∀ p m, w.Placed p m → m.Genuine C K) ∧
      (∀ n, w.node.isNullifierKnown n = true → Vouched C K w n) ∧
      ∀ m, (w.node.receive C m).1 ≠ .ok true →
        (w.node.receive C m).2.gossip.seenNullifiers = w.node.gossip.seenNullifiers ∧
          (w.node.receive C m).2.gossip.outbox = w.node.gossip.outbox := by
  obtain ⟨hstands, hgossip⟩ := NetworkNode.stands_new hnew
  have hstart : RelayInv C i ps key K (start node) := by
    refine ⟨hstands, fun p m hm => ?_, fun n hn => ?_⟩
    · rcases hm with hm | hm
      · cases hm
      · rw [show (start node).node.gossip = _ from hgossip] at hm
        unfold GossipProtocol.queue GossipProtocol.new at hm
        dsimp only at hm
        split at hm
        · cases hm
        · cases hm
    · rw [show (start node).node.gossip = _ from hgossip] at hn
      cases hn
  have hI : RelayInv C i ps key K w := (machine C).run_invariant
    (fun _ _ _ hI h => relayInv_step hpair hown hI h) calls _ w hstart hrun
  refine ⟨hI.genuine, fun n hn => ?_, fun m hm => ?_⟩
  · rcases NetworkNode.isNullifierKnown_iff.mp hn with hn | hn
    · exact hI.vouched n hn
    · rw [hI.stands.uncommitted] at hn
      cases hn
  · obtain ⟨_, heff⟩ := NetworkNode.receive_effect (C := C) hI.stands m
    rcases heff with ⟨_, _, hok, _⟩ | ⟨_, _, hsame⟩
    · exact absurd hok hm
    · rw [hsame]
      exact ⟨rfl, rfl⟩

/-- Node 1 of four submits one nullifier, takes another from node 2 and drops a forged one, and
    hands its queue for node 3 over. -/
def sampleRelay : List (GossipCall SampleScalar) :=
  [.submit (leArr 32 5) 9,
    .receive (NetworkNode.ownMessage sampleSuite (sampleKey 2) 2 (leArr 32 6) 4),
    .receive ⟨leArr 32 7, 3, leArr 32 1, leArr 32 1⟩, .drain 3]

/-- Both nullifiers went out to node 3, genuine; the forged one is not known. -/
theorem gossip_authentic_two_nullifiers :
    ∃ w, (machine sampleSuite).run (start (sampleNetworkNode 1)) sampleRelay = some w ∧
      w.drained.map (fun pm => (pm.1, pm.2.nullifier)) = [(3, leArr 32 5), (3, leArr 32 6)] ∧
      (∀ p m, w.Placed p m → m.Genuine sampleSuite sampleKeys) ∧
      w.node.isNullifierKnown (leArr 32 7) = false := by
  have hrun : ((machine sampleSuite).run (start (sampleNetworkNode 1)) sampleRelay).map (fun w =>
      decide (w.drained.map (fun pm => (pm.1, pm.2.nullifier)) =
        [(3, leArr 32 5), (3, leArr 32 6)] ∧ w.node.isNullifierKnown (leArr 32 7) = false)) =
      some true := by
    decide +kernel
  obtain ⟨w, hw, hfacts⟩ := Option.map_eq_some_iff.mp hrun
  obtain ⟨hdrained, hforged⟩ := of_decide_eq_true hfacts
  have hgen := (gossip_authentic sampleSuite sampleKeys 1 ([1, 2, 3, 4].filter (· ≠ 1))
    (sampleKey 1) [1, 2, 3, 4] (sampleNetworkNode_new 1) rfl rfl sampleRelay hw).1
  exact ⟨w, hw, hdrained, hgen, hforged⟩

end RelayRun

end Specter
