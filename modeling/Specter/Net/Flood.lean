/-
  File:      Specter/Net/Flood.lean
  Subject:   A NETWORK OF RELAYS (specter-net/src/gossip.rs, node.rs): nullifiers submitted
             anywhere, queues drained and their messages delivered in any order.

  A relay keeps the sender of a message and leaves out that sender, not the peer it heard from.
  The network keeps, beside its nodes, the messages in flight, what was ever drained from each
  queue, and what was submitted where. A delivered message may stay in flight.

  * `FloodInv` -- what a node has seen, each of its peers has seen, or it waits in the queue for
    it, or is in flight to it; messages are genuine and their senders have seen them;
  * `FloodInv.relayed` -- relaying a message keeps it, the one step that carries the argument;
  * `gossip_converges` -- with everything delivered, everything is known everywhere, and nothing
    was queued for a peer more often than the node lists that peer.
-/
import Mathlib.Logic.Relation
import Specter.Net.Relay

namespace Specter

open Lib GossipProtocol

variable {S P : Type} [Field S] [AddCommGroup P] [Module S P]

/-! ## 1. The network -/

/-- A finite graph of nodes, symmetric and connected. A list of peers may name one twice. -/
structure Topology where
  members : Finset NodeId
  peers : NodeId → List NodeId
  closed : ∀ u ∈ members, ∀ v ∈ peers u, v ∈ members
  symm : ∀ u ∈ members, ∀ v ∈ peers u, u ∈ peers v
  connected : ∀ u ∈ members, ∀ v ∈ members, Relation.ReflTransGen (fun a b => b ∈ peers a) u v

structure Flood (S P : Type) where
  node : NodeId → NetworkNode S P
  /-- Everything drained so far at the first node for the second. -/
  drained : NodeId → NodeId → List NullifierBroadcast
  inFlight : List (NodeId × NullifierBroadcast)
  submitted : List (NodeId × Bytes32)

inductive FloodStep (S : Type) where
  | submit (u : NodeId) (nullifier : Bytes32) (k : S)
  | drain (u peer : NodeId)
  /-- The message at the index is delivered, and stays in flight if it is kept. -/
  | deliver (index : Nat) (keep : Bool)

namespace Flood

def start (nodes : NodeId → NetworkNode S P) : Flood S P := ⟨nodes, fun _ _ => [], [], []⟩

/-- The nullifiers seen at a node. -/
def seen (w : Flood S P) (u : NodeId) : Finset Bytes32 := (w.node u).gossip.seenNullifiers

/-- The messages waiting at a node for a peer. -/
def queue (w : Flood S P) (u p : NodeId) : List NullifierBroadcast := (w.node u).gossip.queue p

/-- All the messages a node ever queued for a peer. -/
def enqueued (w : Flood S P) (u p : NodeId) : List NullifierBroadcast :=
  w.drained u p ++ w.queue u p

def step (C : Suite S P) (T : Topology) (w : Flood S P) : FloodStep S → Option (Flood S P)
  | .submit u n k =>
      if u ∈ T.members then some
        { w with
          node := Function.update w.node u ((w.node u).submitNullifier C n k)
          submitted := (u, n) :: w.submitted }
      else none
  | .drain u p =>
      if u ∈ T.members then
        let r := (w.node u).gossip.drainMessagesFor p
        some
          { w with
            node := Function.update w.node u { w.node u with gossip := r.2 }
            drained := Function.update w.drained u
              (Function.update (w.drained u) p (w.drained u p ++ r.1))
            inFlight := w.inFlight ++ r.1.map fun m => (p, m) }
      else none
  | .deliver index keep =>
      match w.inFlight[index]? with
      | none => none
      | some (v, m) => some
          { w with
            node := Function.update w.node v ((w.node v).receive C m).2
            inFlight := if keep then w.inFlight else w.inFlight.eraseIdx index }

def machine (C : Suite S P) (T : Topology) : Machine (Flood S P) (FloodStep S) where
  step := step C T

/-- Neither the seen set of the node nor one of its queues is full. -/
def HasRoom (w : Flood S P) (u : NodeId) : Prop :=
  (w.seen u).card < maxKnownNullifiers ∧
    ∀ p ∈ (w.node u).gossip.peers, ∀ q ∈ (w.node u).gossip.outbox p, q.length < maxOutboxPerPeer

instance (w : Flood S P) (u : NodeId) : Decidable (w.HasRoom u) :=
  have : Decidable (∀ p ∈ (w.node u).gossip.peers, ∀ q ∈ (w.node u).gossip.outbox p,
      q.length < maxOutboxPerPeer) := List.decidableBAll _ _
  inferInstanceAs (Decidable (_ ∧ _))

/-- The node that acts has room. -/
def Below (w : Flood S P) : FloodStep S → Prop
  | .submit u _ _ => w.HasRoom u
  | .drain _ _ => True
  | .deliver index _ => ∀ vm ∈ w.inFlight[index]?, w.HasRoom vm.1

instance (w : Flood S P) : ∀ a : FloodStep S, Decidable (w.Below a)
  | .submit u _ _ => inferInstanceAs (Decidable (w.HasRoom u))
  | .drain _ _ => .isTrue trivial
  | .deliver index _ => inferInstanceAs (Decidable (∀ vm ∈ w.inFlight[index]?, w.HasRoom vm.1))

/-- Nothing is queued at a member for a peer, and nothing is in flight. -/
def Quiet (T : Topology) (w : Flood S P) : Prop :=
  w.inFlight = [] ∧ ∀ u ∈ T.members, ∀ p ∈ T.peers u, w.queue u p = []

/-! ## 2. The invariant -/

/-- A message of the run: genuine, and started by a member that has seen its nullifier. -/
structure Carried (C : Suite S P) (T : Topology) (K : NodeId → Option P) (w : Flood S P)
    (m : NullifierBroadcast) : Prop where
  genuine : m.Genuine C K
  member : m.sender ∈ T.members
  seen : m.nullifier ∈ w.seen m.sender

/-- The peer `v` of `u` has seen the nullifier, or will hear of it. -/
def Reaches (w : Flood S P) (u v : NodeId) (n : Bytes32) : Prop :=
  n ∈ w.seen v ∨ (∃ m ∈ w.queue u v, m.nullifier = n) ∨
    ∃ m, (v, m) ∈ w.inFlight ∧ m.nullifier = n

structure FloodInv (C : Suite S P) (T : Topology) (K : NodeId → Option P)
    (key : NodeId → ValidatorKey S P) (w : Flood S P) : Prop where
  stands : ∀ u ∈ T.members, NetworkNode.Stands u (T.peers u) (key u) K (w.node u)
  queues : ∀ u ∈ T.members, ∀ p, ((w.node u).gossip.outbox p).isSome ↔ p ∈ T.peers u
  carried : ∀ u ∈ T.members, ∀ p, ∀ m ∈ w.queue u p, Carried C T K w m
  flying : ∀ vm ∈ w.inFlight, vm.1 ∈ T.members ∧ Carried C T K w vm.2
  reaches : ∀ u ∈ T.members, ∀ v ∈ T.peers u, ∀ n ∈ w.seen u, w.Reaches u v n
  listed : ∀ u ∈ T.members, ∀ p,
    (∀ n, ((w.enqueued u p).map (·.nullifier)).count n ≤ (T.peers u).count p) ∧
    ∀ m ∈ w.enqueued u p, m.nullifier ∈ w.seen u
  submitted : ∀ un ∈ w.submitted, un.1 ∈ T.members ∧ un.2 ∈ w.seen un.1

variable {C : Suite S P} {T : Topology} {K : NodeId → Option P} {key : NodeId → ValidatorKey S P}
  {w w' : Flood S P} {u : NodeId} {node' : NetworkNode S P}

theorem Carried.mono {m : NullifierBroadcast} (hmono : ∀ v, w.seen v ⊆ w'.seen v)
    (h : Carried C T K w m) : Carried C T K w' m :=
  ⟨h.genuine, h.member, hmono _ h.seen⟩

omit [Field S] [AddCommGroup P] [Module S P] in
/-- Where the seen sets and the queue at `u` only grow, and what left the air was seen, a peer
    that was reached still is. -/
theorem Reaches.mono {v : NodeId} {n : Bytes32} (hmono : ∀ v, w.seen v ⊆ w'.seen v)
    (hqueue : ∀ m ∈ w.queue u v, m ∈ w'.queue u v)
    (hlost : ∀ vm ∈ w.inFlight, vm ∈ w'.inFlight ∨ vm.2.nullifier ∈ w'.seen vm.1)
    (h : w.Reaches u v n) : w'.Reaches u v n := by
  rcases h with h | ⟨m, hm, hn⟩ | ⟨m, hm, hn⟩
  · exact .inl (hmono v h)
  · exact .inr (.inl ⟨m, hqueue m hm, hn⟩)
  · rcases hlost (v, m) hm with h | h
    · exact .inr (.inr ⟨m, h, hn⟩)
    · exact .inl (hn ▸ h)

omit [Field S] [AddCommGroup P] [Module S P] in
/-- The seen sets of a network in which one node changed, and only saw more. -/
theorem seen_mono (hnode : w'.node = Function.update w.node u node')
    (hseen : w.seen u ⊆ node'.gossip.seenNullifiers) (v : NodeId) : w.seen v ⊆ w'.seen v := by
  unfold seen
  rw [hnode]
  by_cases hv : v = u
  · rw [hv, Function.update_self]
    exact hseen
  · rw [Function.update_of_ne hv]

/-- **One node acts.** What is asked of the node that acts, and of the air, for the invariant to
    hold of the whole network. -/
theorem FloodInv.update (hI : FloodInv C T K key w)
    (hnode : w'.node = Function.update w.node u node')
    (hstands : NetworkNode.Stands u (T.peers u) (key u) K node')
    (hsome : ∀ p, (node'.gossip.outbox p).isSome = ((w.node u).gossip.outbox p).isSome)
    (hseen : w.seen u ⊆ node'.gossip.seenNullifiers)
    (hqueue : ∀ p, ∀ m ∈ node'.gossip.queue p, m ∈ w.queue u p ∨ Carried C T K w' m)
    (hreach : ∀ v ∈ T.peers u, ∀ n ∈ node'.gossip.seenNullifiers, w'.Reaches u v n)
    (hlost : ∀ vm ∈ w.inFlight, vm ∈ w'.inFlight ∨ vm.2.nullifier ∈ w'.seen vm.1)
    (hfly : ∀ vm ∈ w'.inFlight, vm ∈ w.inFlight ∨ vm.1 ∈ T.members ∧ Carried C T K w' vm.2)
    (hlisted : ∀ p, (∀ n, ((w'.enqueued u p).map (·.nullifier)).count n ≤ (T.peers u).count p) ∧
      ∀ m ∈ w'.enqueued u p, m.nullifier ∈ node'.gossip.seenNullifiers)
    (hdrained : ∀ v, v ≠ u → w'.drained v = w.drained v)
    (hsub : ∀ un ∈ w'.submitted, un ∈ w.submitted ∨ un.1 ∈ T.members ∧ un.2 ∈ w'.seen un.1) :
    FloodInv C T K key w' := by
  have hself : w'.node u = node' := by rw [hnode, Function.update_self]
  have hother : ∀ v, v ≠ u → w'.node v = w.node v := fun v hv => by
    rw [hnode, Function.update_of_ne hv]
  have hmono := seen_mono hnode hseen
  have hqother : ∀ v p, v ≠ u → w'.queue v p = w.queue v p := fun v p hv =>
    congrArg (fun x => x.gossip.queue p) (hother v hv)
  refine ⟨fun v hv => ?_, fun v hv p => ?_, fun v hv p m hm => ?_, fun vm hvm => ?_,
    fun v hv p hp n hn => ?_, fun v hv p => ?_, fun un hun => ?_⟩
  · by_cases h : v = u
    · rw [h, hself]
      exact hstands
    · rw [hother v h]
      exact hI.stands v hv
  · by_cases h : v = u
    · rw [h, hself, hsome p]
      exact hI.queues u (h ▸ hv) p
    · rw [hother v h]
      exact hI.queues v hv p
  · by_cases h : v = u
    · subst h
      have hm' : m ∈ node'.gossip.queue p := hself ▸ hm
      rcases hqueue p m hm' with hm' | hm'
      · exact (hI.carried v hv p m hm').mono hmono
      · exact hm'
    · rw [hqother v p h] at hm
      exact (hI.carried v hv p m hm).mono hmono
  · rcases hfly vm hvm with h | h
    · obtain ⟨hmem, hcar⟩ := hI.flying vm h
      exact ⟨hmem, hcar.mono hmono⟩
    · exact h
  · by_cases h : v = u
    · subst h
      have hn' : n ∈ node'.gossip.seenNullifiers := hself ▸ hn
      exact hreach p hp n hn'
    · have hn' : n ∈ w.seen v := by
        unfold seen at hn ⊢
        rwa [hother v h] at hn
      refine (hI.reaches v hv p hp n hn').mono hmono (fun m hm => ?_) hlost
      rw [hqother v p h]
      exact hm
  · by_cases h : v = u
    · subst h
      refine ⟨(hlisted p).1, fun m hm => ?_⟩
      unfold seen
      rw [hself]
      exact (hlisted p).2 m hm
    · have hsame : w'.enqueued v p = w.enqueued v p := by
        unfold enqueued
        rw [hdrained v h, hqother v p h]
      obtain ⟨hcount, hin⟩ := hI.listed v hv p
      rw [hsame]
      exact ⟨hcount, fun m hm => hmono v (hin m hm)⟩
  · rcases hsub un hun with h | h
    · obtain ⟨hmem, hn⟩ := hI.submitted un h
      exact ⟨hmem, hmono _ hn⟩
    · exact h

/-- A node that leaves its gossip layer alone, while the air loses only what was seen. -/
theorem FloodInv.untouched (hI : FloodInv C T K key w) (hu : u ∈ T.members)
    (hnode : w'.node = Function.update w.node u node')
    (hstands : NetworkNode.Stands u (T.peers u) (key u) K node')
    (hgossip : node'.gossip = (w.node u).gossip)
    (hlost : ∀ vm ∈ w.inFlight, vm ∈ w'.inFlight ∨ vm.2.nullifier ∈ w'.seen vm.1)
    (hfly : ∀ vm ∈ w'.inFlight, vm ∈ w.inFlight) (hdrained : w'.drained = w.drained)
    (hsub : ∀ un ∈ w'.submitted, un ∈ w.submitted ∨ un.1 ∈ T.members ∧ un.2 ∈ w'.seen un.1) :
    FloodInv C T K key w' := by
  have hseen : w.seen u ⊆ node'.gossip.seenNullifiers := by
    rw [hgossip]
    exact Finset.Subset.refl _
  have hmono := seen_mono hnode hseen
  have hqueue : ∀ p, w'.queue u p = w.queue u p := fun p => by
    unfold queue
    rw [hnode, Function.update_self, hgossip]
  refine hI.update hnode hstands (fun p => by rw [hgossip]) hseen (fun p m hm => ?_)
    (fun v hv n hn => ?_) hlost (fun vm h => .inl (hfly vm h)) (fun p => ?_)
    (fun v _ => by rw [hdrained]) hsub
  · rw [hgossip] at hm
    exact .inl hm
  · rw [hgossip] at hn
    refine (hI.reaches u hu v hv n hn).mono hmono (fun m hm => ?_) hlost
    rw [hqueue v]
    exact hm
  · have hsame : w'.enqueued u p = w.enqueued u p := by
      unfold enqueued
      rw [hdrained, hqueue p]
    rw [hsame, hgossip]
    exact hI.listed u hu p

omit [Field S] [AddCommGroup P] [Module S P] in
/-- Copies of a message with a nullifier not seen so far go behind messages whose nullifiers
    were. -/
theorem listed_append {l : List NullifierBroadcast} {m : NullifierBroadcast}
    {old new : Finset Bytes32} {k entries : Nat}
    (hcount : ∀ n, (l.map (·.nullifier)).count n ≤ entries)
    (hin : ∀ x ∈ l, x.nullifier ∈ old) (hsub : old ⊆ new) (hnew : m.nullifier ∉ old)
    (hm : m.nullifier ∈ new) (hk : k ≤ entries) :
    (∀ n, ((l ++ List.replicate k m).map (·.nullifier)).count n ≤ entries) ∧
      ∀ x ∈ l ++ List.replicate k m, x.nullifier ∈ new := by
  refine ⟨fun n => ?_, fun x hx => ?_⟩
  · rw [List.map_append, List.map_replicate, List.count_append]
    by_cases hn : m.nullifier = n
    · have hzero : (l.map (·.nullifier)).count n = 0 := by
        refine List.count_eq_zero_of_not_mem fun hmem => ?_
        obtain ⟨x, hx, hxn⟩ := List.mem_map.mp hmem
        exact hnew (hn ▸ hxn ▸ hin x hx)
      rw [hzero, hn, List.count_replicate_self, Nat.zero_add]
      exact hk
    · have hzero : (List.replicate k m.nullifier).count n = 0 :=
        List.count_eq_zero_of_not_mem fun hmem => hn (List.eq_of_mem_replicate hmem).symm
      rw [hzero, Nat.add_zero]
      exact hcount n
  · rcases List.mem_append.mp hx with hx | hx
    · exact hsub (hin x hx)
    · rw [List.eq_of_mem_replicate hx]
      exact hm

/-- **A node relays a message it had not seen.** The peers it leaves out have seen it: that is
    what the sender of a message in flight is for. -/
theorem FloodInv.relayed (hI : FloodInv C T K key w) (hu : u ∈ T.members) (hroom : w.HasRoom u)
    (hnode : w'.node = Function.update w.node u node')
    (hstands : NetworkNode.Stands u (T.peers u) (key u) K node') {m : NullifierBroadcast}
    {dest : List NodeId} (hgossip : node'.gossip = (w.node u).gossip.relay m dest)
    (hnew : m.nullifier ∉ w.seen u) (hdest : dest.Sublist (T.peers u))
    (hcar : Carried C T K w' m) (hskip : ∀ v ∈ T.peers u, v ∉ dest → m.nullifier ∈ w'.seen v)
    (hlost : ∀ vm ∈ w.inFlight, vm ∈ w'.inFlight ∨ vm.2.nullifier ∈ w'.seen vm.1)
    (hfly : ∀ vm ∈ w'.inFlight, vm ∈ w.inFlight) (hdrained : w'.drained = w.drained)
    (hsub : ∀ un ∈ w'.submitted, un ∈ w.submitted ∨ un.1 ∈ T.members ∧ un.2 ∈ w'.seen un.1) :
    FloodInv C T K key w' := by
  have hseen : w.seen u ⊆ node'.gossip.seenNullifiers := by
    rw [hgossip]
    exact Finset.subset_insert _ _
  have hmono := seen_mono hnode hseen
  have hqueue : ∀ p, ∃ k ≤ (T.peers u).count p,
      node'.gossip.queue p = w.queue u p ++ List.replicate k m ∧ (p ∈ dest → 1 ≤ k) := by
    intro p
    obtain ⟨k, hk, heq, hone⟩ := relay_queue (w.node u).gossip m dest p
    refine ⟨k, hk.trans (hdest.count_le p), by rw [hgossip]; exact heq, fun hp => ?_⟩
    have hp' := hdest.subset hp
    obtain ⟨q, hq⟩ := Option.isSome_iff_exists.mp ((hI.queues u hu p).mpr hp')
    exact hone hp q hq (hroom.2 p ((hI.stands u hu).peers ▸ hp') q hq)
  have hqueue' : ∀ p, w'.queue u p = node'.gossip.queue p := fun p => by
    unfold queue
    rw [hnode, Function.update_self]
  refine hI.update hnode hstands (fun p => ?_) hseen (fun p x hx => ?_) (fun v hv n hn => ?_)
    hlost (fun vm h => .inl (hfly vm h)) (fun p => ?_) (fun v _ => by rw [hdrained]) hsub
  · rw [hgossip]
    exact relay_outbox_isSome _ m dest p
  · obtain ⟨k, _, heq, _⟩ := hqueue p
    rw [heq] at hx
    rcases List.mem_append.mp hx with hx | hx
    · exact .inl hx
    · rw [List.eq_of_mem_replicate hx]
      exact .inr hcar
  · rw [hgossip] at hn
    rcases Finset.mem_insert.mp hn with rfl | hn
    · by_cases hv' : v ∈ dest
      · obtain ⟨k, _, heq, hone⟩ := hqueue v
        refine .inr (.inl ⟨m, ?_, rfl⟩)
        rw [hqueue' v, heq]
        exact List.mem_append_right _
          (List.mem_replicate.mpr ⟨Nat.one_le_iff_ne_zero.mp (hone hv'), rfl⟩)
      · exact .inl (hskip v hv hv')
    · obtain ⟨k, _, heq, _⟩ := hqueue v
      refine (hI.reaches u hu v hv n hn).mono hmono (fun x hx => ?_) hlost
      rw [hqueue' v, heq]
      exact List.mem_append_left _ hx
  · obtain ⟨hcount, hin⟩ := hI.listed u hu p
    obtain ⟨k, hk, heq, _⟩ := hqueue p
    have hsame : w'.enqueued u p = w.enqueued u p ++ List.replicate k m := by
      unfold enqueued
      rw [hdrained, hqueue' p, heq, List.append_assoc]
    have hm : m.nullifier ∈ node'.gossip.seenNullifiers := by
      rw [hgossip]
      exact Finset.mem_insert_self _ _
    rw [hsame]
    exact listed_append hcount hin hseen hnew hm hk

/-- Draining a queue puts its messages in the air. -/
theorem FloodInv.drain (hI : FloodInv C T K key w) (hu : u ∈ T.members) (p : NodeId)
    (hnode : w'.node = Function.update w.node u
      { w.node u with gossip := ((w.node u).gossip.drainMessagesFor p).2 })
    (hdrained : w'.drained = Function.update w.drained u
      (Function.update (w.drained u) p (w.drained u p ++ w.queue u p)))
    (hflight : w'.inFlight = w.inFlight ++ (w.queue u p).map fun m => (p, m))
    (hsub : w'.submitted = w.submitted) : FloodInv C T K key w' := by
  have hseen : ((w.node u).gossip.drainMessagesFor p).2.seenNullifiers = w.seen u :=
    drainMessagesFor_seen _ p
  have hmono := seen_mono hnode (Finset.subset_of_eq hseen.symm)
  have hqueue : ∀ q, w'.queue u q = if q = p then [] else w.queue u q := fun q => by
    unfold queue
    rw [hnode, Function.update_self]
    exact queue_drain _ p q
  refine hI.update hnode ((hI.stands u hu).drain p) (fun q => outbox_drain_isSome _ p q)
    (Finset.subset_of_eq hseen.symm) (fun q m hm => ?_) (fun v hv n hn => ?_) (fun vm hvm => ?_)
    (fun vm hvm => ?_) (fun q => ?_) (fun v hv => ?_) (fun un hun => ?_)
  · rw [queue_drain] at hm
    split at hm
    · cases hm
    · exact .inl hm
  · rw [hseen] at hn
    rcases hI.reaches u hu v hv n hn with h | ⟨m, hm, hmn⟩ | ⟨m, hm, hmn⟩
    · exact .inl (hmono v h)
    · by_cases hvp : v = p
      · -- what waited for this peer is now in flight to it
        refine .inr (.inr ⟨m, ?_, hmn⟩)
        rw [hflight]
        exact List.mem_append_right _ (List.mem_map.mpr ⟨m, hvp ▸ hm, by rw [hvp]⟩)
      · refine .inr (.inl ⟨m, ?_, hmn⟩)
        rw [hqueue v, if_neg hvp]
        exact hm
    · refine .inr (.inr ⟨m, ?_, hmn⟩)
      rw [hflight]
      exact List.mem_append_left _ hm
  · rw [hflight]
    exact .inl (List.mem_append_left _ hvm)
  · rw [hflight] at hvm
    rcases List.mem_append.mp hvm with hvm | hvm
    · exact .inl hvm
    · obtain ⟨m, hm, rfl⟩ := List.mem_map.mp hvm
      have hsome : ((w.node u).gossip.outbox p).isSome := by
        unfold queue GossipProtocol.queue at hm
        cases hq : (w.node u).gossip.outbox p with
        | none => rw [hq] at hm; cases hm
        | some q => rfl
      exact .inr ⟨T.closed u hu p ((hI.queues u hu p).mp hsome),
        (hI.carried u hu p m hm).mono hmono⟩
  · have hsame : w'.enqueued u q = w.enqueued u q := by
      unfold enqueued
      rw [hdrained, Function.update_self, hqueue q]
      by_cases hq : q = p
      · rw [hq, Function.update_self, if_pos rfl, List.append_nil]
      · rw [Function.update_of_ne hq, if_neg hq]
    rw [hsame, hseen]
    exact hI.listed u hu q
  · rw [hdrained, Function.update_of_ne hv]
  · rw [hsub] at hun
    exact .inl hun

/-- A submission below the cap: the nullifier is seen, and its message waits for every peer. -/
theorem FloodInv.submit (hI : FloodInv C T K key w) (hu : u ∈ T.members) (hroom : w.HasRoom u)
    (hpair : (key u).publicKey = (key u).secretKey • C.G) (hown : K u = some (key u).publicKey)
    (n : Bytes32) (k : S)
    (hnode : w'.node = Function.update w.node u ((w.node u).submitNullifier C n k))
    (hdrained : w'.drained = w.drained) (hflight : w'.inFlight = w.inFlight)
    (hsub : w'.submitted = (u, n) :: w.submitted) : FloodInv C T K key w' := by
  obtain ⟨hstands, heff⟩ := NetworkNode.submitNullifier_effect (C := C) (hI.stands u hu) n k
  have hself : w'.seen u = ((w.node u).submitNullifier C n k).gossip.seenNullifiers := by
    unfold seen
    rw [hnode, Function.update_self]
  have hn : n ∈ w'.seen u := by
    rw [hself]
    rcases heff with ⟨_, hrelay⟩ | ⟨hold, hsame⟩
    · rw [hrelay]
      exact Finset.mem_insert_self _ _
    · rw [hsame]
      rcases hold with hcap | hold
      · exact absurd hroom.1 (Nat.not_lt.mpr hcap)
      · exact hold
  have hlost : ∀ vm ∈ w.inFlight, vm ∈ w'.inFlight ∨ vm.2.nullifier ∈ w'.seen vm.1 :=
    fun vm hvm => .inl (hflight ▸ hvm)
  have hfly : ∀ vm ∈ w'.inFlight, vm ∈ w.inFlight := fun vm hvm => hflight ▸ hvm
  have hsub' : ∀ un ∈ w'.submitted,
      un ∈ w.submitted ∨ un.1 ∈ T.members ∧ un.2 ∈ w'.seen un.1 := by
    intro un hun
    rw [hsub] at hun
    rcases List.mem_cons.mp hun with rfl | hun
    · exact .inr ⟨hu, hn⟩
    · exact .inl hun
  rcases heff with ⟨hnew, hrelay⟩ | ⟨_, hsame⟩
  · exact hI.relayed hu hroom hnode hstands hrelay hnew (List.Sublist.refl _)
      ⟨NetworkNode.ownMessage_genuine hpair hown n k, hu, hn⟩ (fun v hv hv' => absurd hv hv')
      hlost hfly hdrained hsub'
  · exact hI.untouched hu hnode hstands hsame hlost hfly hdrained hsub'

/-- A delivery below the cap: the message is genuine, so afterwards its nullifier is seen; and
    the peer that is left out when it is passed on has seen it, being its sender. -/
theorem FloodInv.deliver (hI : FloodInv C T K key w) {index : Nat} {keep : Bool} {v : NodeId}
    {m : NullifierBroadcast} (hvm : w.inFlight[index]? = some (v, m)) (hroom : w.HasRoom v)
    (hnode : w'.node = Function.update w.node v ((w.node v).receive C m).2)
    (hdrained : w'.drained = w.drained)
    (hflight : w'.inFlight = if keep then w.inFlight else w.inFlight.eraseIdx index)
    (hsub : w'.submitted = w.submitted) : FloodInv C T K key w' := by
  obtain ⟨hv, hcar⟩ := hI.flying (v, m) (List.mem_of_getElem? hvm)
  obtain ⟨hstands, heff⟩ := NetworkNode.receive_effect (C := C) (hI.stands v hv) m
  have hself : w'.seen v = ((w.node v).receive C m).2.gossip.seenNullifiers := by
    unfold seen
    rw [hnode, Function.update_self]
  have hn : m.nullifier ∈ w'.seen v := by
    rw [hself]
    rcases heff with ⟨_, _, _, hrelay⟩ | ⟨hnot, _, hsame⟩
    · rw [hrelay]
      exact Finset.mem_insert_self _ _
    · rw [hsame]
      exact Classical.not_not.mp fun hnew => hnot ⟨hcar.genuine, hroom.1, hnew⟩
  have hlost : ∀ x ∈ w.inFlight, x ∈ w'.inFlight ∨ x.2.nullifier ∈ w'.seen x.1 := by
    intro x hx
    rw [hflight]
    split
    · exact .inl hx
    · obtain ⟨j, hj⟩ := List.mem_iff_getElem?.mp hx
      by_cases hji : j = index
      · rw [hji, hvm] at hj
        cases hj
        exact .inr hn
      · exact .inl (List.mem_eraseIdx_iff_getElem?.mpr ⟨j, hji, hj⟩)
  have hfly : ∀ x ∈ w'.inFlight, x ∈ w.inFlight := by
    intro x hx
    rw [hflight] at hx
    split at hx
    · exact hx
    · exact List.mem_of_mem_eraseIdx hx
  have hsub' : ∀ un ∈ w'.submitted,
      un ∈ w.submitted ∨ un.1 ∈ T.members ∧ un.2 ∈ w'.seen un.1 := fun un hun => .inl (hsub ▸ hun)
  rcases heff with ⟨_, hnew, _, hrelay⟩ | ⟨_, _, hsame⟩
  · have hgrow : w.seen v ⊆ ((w.node v).receive C m).2.gossip.seenNullifiers := by
      rw [hrelay]
      exact Finset.subset_insert _ _
    have hmono := seen_mono hnode hgrow
    refine hI.relayed hv hroom hnode hstands hrelay hnew List.filter_sublist (hcar.mono hmono)
      (fun p hp hp' => ?_) hlost hfly hdrained hsub'
    have hsender : p = m.sender := by
      by_contra hne
      exact hp' (List.mem_filter.mpr ⟨hp, decide_eq_true hne⟩)
    rw [hsender]
    exact hmono _ hcar.seen
  · exact hI.untouched hv hnode hstands (congrArg NetworkNode.gossip hsame) hlost hfly hdrained
      hsub'

/-- **Every step below the caps keeps the invariant.** -/
theorem floodInv_step {a : FloodStep S} (hpair : ∀ u ∈ T.members,
      (key u).publicKey = (key u).secretKey • C.G)
    (hown : ∀ u ∈ T.members, K u = some (key u).publicKey) (hI : FloodInv C T K key w)
    (hbelow : w.Below a) (h : (machine C T).step w a = some w') : FloodInv C T K key w' := by
  change step C T w a = some w' at h
  cases a with
  | submit u n k =>
      simp only [step] at h
      split at h
      · rename_i hu
        cases h
        exact hI.submit hu hbelow (hpair u hu) (hown u hu) n k rfl rfl rfl rfl
      · cases h
  | drain u p =>
      simp only [step] at h
      split at h
      · rename_i hu
        cases h
        exact hI.drain hu p rfl (by rw [drained_eq]; rfl) (by rw [drained_eq]; rfl) rfl
      · cases h
  | deliver index keep =>
      simp only [step] at h
      split at h
      · cases h
      · rename_i v m hvm
        cases h
        exact hI.deliver hvm (hbelow (v, m) hvm) rfl rfl rfl rfl

/-! ## 3. Convergence -/

theorem floodInv_start {nodes : NodeId → NetworkNode S P} {validators : NodeId → List NodeId}
    (hnew : ∀ u ∈ T.members,
      NetworkNode.new u (T.peers u) (key u) (validators u) K = some (nodes u)) :
    FloodInv C T K key (start nodes) := by
  have hgossip : ∀ u ∈ T.members, (nodes u).gossip = GossipProtocol.new u (T.peers u) :=
    fun u hu => (NetworkNode.stands_new (hnew u hu)).2
  have hempty : ∀ u ∈ T.members, ∀ p, (start nodes).queue u p = [] := by
    intro u hu p
    show (nodes u).gossip.queue p = []
    rw [hgossip u hu]
    unfold GossipProtocol.queue GossipProtocol.new
    dsimp only
    split
    · rfl
    · rfl
  have hseen : ∀ u ∈ T.members, (start nodes).seen u = ∅ := by
    intro u hu
    show (nodes u).gossip.seenNullifiers = ∅
    rw [hgossip u hu]
    rfl
  refine ⟨fun u hu => (NetworkNode.stands_new (hnew u hu)).1, fun u hu p => ?_,
    fun u hu p m hm => ?_, fun _ h => (by cases h), fun u hu v _ n hn => ?_, fun u hu p => ?_,
    fun _ h => by cases h⟩
  · show ((nodes u).gossip.outbox p).isSome ↔ _
    rw [hgossip u hu]
    unfold GossipProtocol.new
    by_cases hp : p ∈ T.peers u <;> simp [hp]
  · rw [hempty u hu p] at hm
    cases hm
  · rw [hseen u hu] at hn
    cases hn
  · have hnone : (start nodes).enqueued u p = [] := by
      unfold enqueued
      rw [hempty u hu p]
      rfl
    rw [hnone]
    exact ⟨fun _ => Nat.zero_le _, fun _ h => by cases h⟩

/-- With nothing waiting and nothing in flight, a nullifier seen at one member is seen at all. -/
theorem FloodInv.everywhere (hI : FloodInv C T K key w) (hquiet : Quiet T w) {n : Bytes32}
    (hu : u ∈ T.members) (hn : n ∈ w.seen u) {v : NodeId} (hv : v ∈ T.members) : n ∈ w.seen v := by
  -- along a path: each node on it is a member and has seen the nullifier
  have hpath : ∀ b, Relation.ReflTransGen (fun a b => b ∈ T.peers a) u b →
      b ∈ T.members ∧ n ∈ w.seen b := by
    intro b h
    induction h with
    | refl => exact ⟨hu, hn⟩
    | @tail a b _ hb ih =>
        obtain ⟨ha, hna⟩ := ih
        refine ⟨T.closed a ha b hb, ?_⟩
        rcases hI.reaches a ha b hb n hna with h | ⟨m, hm, _⟩ | ⟨m, hm, _⟩
        · exact h
        · rw [hquiet.2 a ha b hb] at hm
          cases hm
        · rw [hquiet.1] at hm
          cases hm
  exact (hpath v (T.connected u hu v hv)).2

/-- **Gossip converges.** Take nodes on a symmetric connected graph, made with one map of
    validator keys in which each has its own key pair registered, and any interleaving of
    submissions, drained queues and deliveries, repeated or not, that meets no cap and loses no
    message. Whenever nothing is queued and nothing in flight, every nullifier submitted anywhere
    is known to every node; and no node ever queued a nullifier for a peer more often than it
    lists that peer. -/
theorem gossip_converges (C : Suite S P) (T : Topology) (K : NodeId → Option P)
    (key : NodeId → ValidatorKey S P) (validators : NodeId → List NodeId)
    (nodes : NodeId → NetworkNode S P)
    (hnew : ∀ u ∈ T.members,
      NetworkNode.new u (T.peers u) (key u) (validators u) K = some (nodes u))
    (hpair : ∀ u ∈ T.members, (key u).publicKey = (key u).secretKey • C.G)
    (hown : ∀ u ∈ T.members, K u = some (key u).publicKey) (steps : List (FloodStep S))
    {w : Flood S P} (hbelow : (machine C T).AllSteps Below (start nodes) steps)
    (hrun : (machine C T).run (start nodes) steps = some w) :
    (Quiet T w → ∀ un ∈ w.submitted, ∀ v ∈ T.members,
      (w.node v).isNullifierKnown un.2 = true) ∧
    ∀ u ∈ T.members, ∀ p n,
      ((w.enqueued u p).map (·.nullifier)).count n ≤ (T.peers u).count p := by
  have hI : FloodInv C T K key w := (machine C T).run_invariant_of
    (fun _ _ _ hI hc h => floodInv_step hpair hown hI hc h) steps _ w (floodInv_start hnew)
    hbelow hrun
  refine ⟨fun hquiet un hun v hv => ?_, fun u hu p n => ?_⟩
  · obtain ⟨hu, hn⟩ := hI.submitted un hun
    exact NetworkNode.isNullifierKnown_iff.mpr (.inl (hI.everywhere hquiet hu hn hv))
  · exact (hI.listed u hu p).1 n

/-! ## 4. Three nodes in a line -/

/-- The peers on the line 1 -- 2 -- 3. -/
def linePeers (u : NodeId) : List NodeId :=
  if u = 1 then [2] else if u = 2 then [1, 3] else if u = 3 then [2] else []

theorem mem_line {u : NodeId} (h : u ∈ ([1, 2, 3] : List NodeId).toFinset) :
    u = 1 ∨ u = 2 ∨ u = 3 := by
  simpa using h

def sampleLine : Topology where
  members := ([1, 2, 3] : List NodeId).toFinset
  peers := linePeers
  closed u hu v hv := by
    rcases mem_line hu with rfl | rfl | rfl <;> simp [linePeers] at hv ⊢
    · exact .inr (.inl hv)
    · rcases hv with rfl | rfl
      · exact .inl rfl
      · exact .inr (.inr rfl)
    · exact .inr (.inl hv)
  symm u hu v hv := by
    rcases mem_line hu with rfl | rfl | rfl <;> simp [linePeers] at hv
    · rw [hv]
      decide
    · rcases hv with rfl | rfl <;> decide
    · rw [hv]
      decide
  connected u hu v hv := by
    -- every node is one step away from the middle, and back
    have hin : Relation.ReflTransGen (fun a b => b ∈ linePeers a) u 2 := by
      rcases mem_line hu with rfl | rfl | rfl
      · exact .single (by decide)
      · exact .refl
      · exact .single (by decide)
    have hout : Relation.ReflTransGen (fun a b => b ∈ linePeers a) 2 v := by
      rcases mem_line hv with rfl | rfl | rfl
      · exact .single (by decide)
      · exact .refl
      · exact .single (by decide)
    exact hin.trans hout

def lineNode (u : NodeId) : NetworkNode SampleScalar SamplePoint where
  id := u
  gossip := GossipProtocol.new u (linePeers u)
  consensus := sampleNode u
  validatorKey := sampleKey u

/-- A nullifier submitted at one end, its message delivered twice in the middle, and passed on to
    the other end and back. -/
def lineSteps : List (FloodStep SampleScalar) :=
  [.submit 1 (leArr 32 5) 9, .drain 1 2, .deliver 0 true, .deliver 0 false, .drain 2 3,
    .deliver 0 false, .drain 3 2, .deliver 0 false]

theorem gossip_converges_line :
    ∃ w, (machine sampleSuite sampleLine).run (start lineNode) lineSteps = some w ∧
      (w.node 3).isNullifierKnown (leArr 32 5) = true ∧
      ((w.enqueued 2 3).map (·.nullifier)).count (leArr 32 5) ≤ 1 := by
  have hrun : ((machine sampleSuite sampleLine).run (start lineNode) lineSteps).map (fun w =>
      w.inFlight.isEmpty && (w.queue 1 2).isEmpty && (w.queue 2 1).isEmpty &&
        (w.queue 2 3).isEmpty && (w.queue 3 2).isEmpty &&
        decide (w.submitted = [(1, leArr 32 5)])) = some true := by
    decide +kernel
  obtain ⟨w, hw, hfacts⟩ := Option.map_eq_some_iff.mp hrun
  simp only [Bool.and_eq_true, List.isEmpty_iff, decide_eq_true_iff] at hfacts
  obtain ⟨⟨⟨⟨⟨hflight, h12⟩, h21⟩, h23⟩, h32⟩, hsub⟩ := hfacts
  have hnew : ∀ u ∈ sampleLine.members, NetworkNode.new u (sampleLine.peers u) (sampleKey u)
      [1, 2, 3, 4] sampleKeys = some (lineNode u) := by
    intro u _
    unfold NetworkNode.new
    rw [sampleNode_test]
    rfl
  have hown : ∀ u ∈ sampleLine.members, sampleKeys u = some (sampleKey u).publicKey := by
    intro u hu
    rcases mem_line hu with rfl | rfl | rfl <;> rfl
  obtain ⟨hknown, hlisted⟩ := gossip_converges sampleSuite sampleLine sampleKeys sampleKey
    (fun _ => [1, 2, 3, 4]) lineNode hnew (fun _ _ => rfl) hown lineSteps (by decide +kernel) hw
  have hquiet : Quiet sampleLine w := by
    refine ⟨hflight, fun u hu p hp => ?_⟩
    rcases mem_line hu with rfl | rfl | rfl <;> simp [sampleLine, linePeers] at hp
    · rw [hp]
      exact h12
    · rcases hp with rfl | rfl
      · exact h21
      · exact h23
    · rw [hp]
      exact h32
  refine ⟨w, hw, hknown hquiet (1, leArr 32 5) ?_ 3 (by decide), hlisted 2 (by decide) 3 _⟩
  rw [hsub]
  exact List.mem_singleton_self _

/-! ## 5. A peer listed twice -/

/-- Two nodes, the first of which lists the second twice. -/
def doubledPeers (u : NodeId) : List NodeId :=
  if u = 1 then [2, 2] else if u = 2 then [1] else []

theorem mem_doubled {u : NodeId} (h : u ∈ ([1, 2] : List NodeId).toFinset) : u = 1 ∨ u = 2 := by
  simpa using h

def sampleDoubled : Topology where
  members := ([1, 2] : List NodeId).toFinset
  peers := doubledPeers
  closed u hu v hv := by
    rcases mem_doubled hu with rfl | rfl <;> simp [doubledPeers] at hv ⊢
    · exact .inr hv
    · exact .inl hv
  symm u hu v hv := by
    rcases mem_doubled hu with rfl | rfl <;> simp [doubledPeers] at hv <;> rw [hv] <;> decide
  connected u hu v hv := by
    rcases mem_doubled hu with rfl | rfl <;> rcases mem_doubled hv with rfl | rfl
    · exact .refl
    · exact .single (by decide)
    · exact .single (by decide)
    · exact .refl

def doubledNode (u : NodeId) : NetworkNode SampleScalar SamplePoint :=
  { lineNode u with gossip := GossipProtocol.new u (doubledPeers u) }

/-- A peer that is listed twice gets a nullifier twice. -/
theorem doubled_peer_enqueued_twice :
    (∀ u ∈ sampleDoubled.members, NetworkNode.new u (sampleDoubled.peers u) (sampleKey u)
        [1, 2, 3, 4] sampleKeys = some (doubledNode u)) ∧
      (∀ u ∈ sampleDoubled.members, sampleKeys u = some (sampleKey u).publicKey) ∧
      (machine sampleSuite sampleDoubled).AllSteps Below (start doubledNode)
        [.submit 1 (leArr 32 5) 9] ∧
      ∃ w, (machine sampleSuite sampleDoubled).run (start doubledNode)
          [.submit 1 (leArr 32 5) 9] = some w ∧
        ((w.enqueued 1 2).map (·.nullifier)).count (leArr 32 5) = 2 := by
  refine ⟨fun u _ => ?_, fun u hu => ?_, by decide +kernel, ?_⟩
  · unfold NetworkNode.new
    rw [sampleNode_test]
    rfl
  · rcases mem_doubled hu with rfl | rfl <;> rfl
  · have hrun : ((machine sampleSuite sampleDoubled).run (start doubledNode)
        [.submit 1 (leArr 32 5) 9]).map (fun w =>
          decide (((w.enqueued 1 2).map (·.nullifier)).count (leArr 32 5) = 2)) = some true := by
      decide +kernel
    obtain ⟨w, hw, hcount⟩ := Option.map_eq_some_iff.mp hrun
    exact ⟨w, hw, of_decide_eq_true hcount⟩

end Flood

end Specter
