/-
  File:      Specter/Core/Forks.lean
  Subject:   FORKED CHAINS: one token, one mint and its one nullifier set, and a holder who
             transfers copies of the token against OTHER sets before coming to the mint.

  The holder keeps every token derived so far. A transfer elsewhere is checked against the set
  it is made with, never against the mint's, and every descendant carries a nullifier of its
  own; `verify_token` looks at the signatures of the chain and not at the nullifiers of its
  ancestors. So the mint accepts an ancestor and its descendant both (`forked_spend`). What the
  code does keep:

  * `ForkInv` -- every held token is worth the first one, there are as many as transfers plus
    one, and each accepted token is a held one whose nullifier is burned, none of them twice;
  * `accepted_le_forks` -- the mint accepts each derived token at most once, and in total at
    most the value times one plus the number of transfers made elsewhere;
  * `accepted_le_of_usedOnce` -- at most the value, in every run that uses no token again once
    it was transferred elsewhere or taken by the mint; a run without a successful transfer
    elsewhere is one of these (`usedOnce_of_noneElsewhere`).
-/
import Specter.Core.Atomic
import Specter.Core.Supply

namespace Specter

open Lib

variable {S P : Type} [Field S] [AddCommGroup P] [Module S P]

/-! ## 1. The holder and the mint -/

structure Fork (S P : Type) where
  /-- The first token and every token derived from it. -/
  held : List (ProofCarryingToken S P)
  mintSet : NullifierSet
  /-- The tokens `split` or `renew_token` accepted against the mint's set. -/
  accepted : List (ProofCarryingToken S P)
  /-- The successful transfers against other sets. -/
  transfers : Nat

inductive ForkAct (S P : Type) where
  | transferElsewhere (token : ProofCarryingToken S P) (otherSet : NullifierSet)
      (rnd : TransferRandom S)
  | split (token : ProofCarryingToken S P) (outputValues : List UInt64)
      (signers : List SignerId) (rnd : Nat → IssueRandom S)
  | renew (token : ProofCarryingToken S P) (signers : List SignerId) (rnd : IssueRandom S)
  /-- Some other holder's nullifier reaches the mint's set. -/
  | otherHolder (nullifier : Bytes32)

namespace Fork

variable [DecidableEq P] (C : Suite S P) (mint : Mint S P)

def start (t : ProofCarryingToken S P) (mintSet : NullifierSet) : Fork S P :=
  ⟨[t], mintSet, [], 0⟩

/-- A copy of a held token is presented to the mint. -/
def present (s : Fork S P) (call : SpendCall S P) : Option (Fork S P) :=
  if ∃ t ∈ s.held, IsCopy t call.token then
    match call.outcome C mint s.mintSet with
    | (none, ns) => some { s with mintSet := ns }
    | (some _, ns) => some { s with mintSet := ns, accepted := call.token :: s.accepted }
  else none

def machine : Machine (Fork S P) (ForkAct S P) where
  step s
    | .transferElsewhere c otherSet rnd =>
        if ∃ t ∈ s.held, IsCopy t c then
          match (transfer C c otherSet rnd).1 with
          | .error _ => some s
          | .ok r => some { s with held := r.token :: s.held, transfers := s.transfers + 1 }
        else none
    | .split c values signers rnd => s.present C mint (.split c values signers rnd)
    | .renew c signers rnd => s.present C mint (.renew c signers rnd)
    | .otherHolder n => some { s with mintSet := (s.mintSet.insert n).2 }

/-! ## 2. The invariant -/

structure ForkInv (C : Suite S P) (v : UInt64) (s : Fork S P) : Prop where
  value : ∀ t ∈ s.held, t.value = v
  count : s.held.length = 1 + s.transfers
  once : (s.accepted.map fun a => a.computeNullifier C).Nodup
  burned : ∀ a ∈ s.accepted, a.computeNullifier C ∈ s.mintSet.nullifiers
  derived : ∀ a ∈ s.accepted, a.value = v ∧
    ∃ t ∈ s.held, t.computeNullifier C = a.computeNullifier C

variable {C mint}

omit [DecidableEq P] in
theorem forkInv_start (t : ProofCarryingToken S P) (ns : NullifierSet) :
    ForkInv C t.value (start t ns) where
  value u hu := by rw [List.mem_singleton.mp hu]
  count := rfl
  once := List.nodup_nil
  burned _ ha := by cases ha
  derived _ ha := by cases ha

omit [DecidableEq P] in
/-- A larger set of the mint keeps the invariant. -/
theorem ForkInv.grow {v : UInt64} {s : Fork S P} (hI : ForkInv C v s) {ns : NullifierSet}
    (hsub : s.mintSet.nullifiers ⊆ ns.nullifiers) : ForkInv C v { s with mintSet := ns } :=
  ⟨hI.value, hI.count, hI.once, fun a ha => hsub (hI.burned a ha), hI.derived⟩

theorem forkInv_present {v : UInt64} {s s' : Fork S P} {call : SpendCall S P}
    (hI : ForkInv C v s) (h : s.present C mint call = some s') : ForkInv C v s' := by
  unfold present at h
  split at h
  · rename_i hcopy
    obtain ⟨t, ht, hc⟩ := hcopy
    have hsp := call.outcome_spends C mint s.mintSet
    have hgrow : s.mintSet.nullifiers ⊆ (call.outcome C mint s.mintSet).2.nullifiers := by
      rcases hsp.set with heq | hburn
      · rw [heq]
      · rw [hburn.set]
        exact Finset.subset_insert _ _
    split at h
    · rename_i ns ho
      cases h
      rw [ho] at hgrow
      exact hI.grow hgrow
    · rename_i ts ns ho
      cases h
      rw [ho] at hsp hgrow
      obtain ⟨hburn, _⟩ := hsp.ok ts rfl
      have hI' := hI.grow hgrow
      refine ⟨hI'.value, hI'.count, ?_, fun a ha => ?_, fun a ha => ?_⟩
      · -- the nullifier was fresh, so no token accepted before has it
        show ((call.token :: s.accepted).map _).Nodup
        rw [List.map_cons, List.nodup_cons]
        refine ⟨fun hmem => ?_, hI.once⟩
        obtain ⟨a, ha, hn⟩ := List.mem_map.mp hmem
        exact hburn.fresh (hn ▸ hI.burned a ha)
      · rcases List.mem_cons.mp ha with rfl | hold
        · show call.token.computeNullifier C ∈ ns.nullifiers
          rw [hburn.set]
          exact Finset.mem_insert_self _ _
        · exact hI'.burned a hold
      · rcases List.mem_cons.mp ha with rfl | hold
        · exact ⟨hc.2.2.trans (hI.value t ht), t, ht, (hc.nullifier C).symm⟩
        · exact hI.derived a hold
  · cases h

theorem forkInv_step {v : UInt64} {s s' : Fork S P} {act : ForkAct S P} (hI : ForkInv C v s)
    (h : (machine C mint).step s act = some s') : ForkInv C v s' := by
  cases act with
  | transferElsewhere c otherSet rnd =>
      change (if _ then _ else _) = _ at h
      split at h
      · rename_i hcopy
        obtain ⟨t, ht, hc⟩ := hcopy
        cases hr : (transfer C c otherSet rnd).1 with
        | error e =>
            rw [hr] at h
            cases h
            exact hI
        | ok r =>
            rw [hr] at h
            cases h
            have hval : r.token.value = v := by
              obtain ⟨_, _, _, hv, _⟩ := transfer_ok (Prod.ext hr rfl)
              rw [hv, hc.2.2, hI.value t ht]
            refine ⟨fun u hu => ?_, ?_, hI.once, hI.burned, fun a ha => ?_⟩
            · rcases List.mem_cons.mp hu with rfl | hold
              · exact hval
              · exact hI.value u hold
            · show s.held.length + 1 = 1 + (s.transfers + 1)
              rw [hI.count]
              omega
            · obtain ⟨hv, u, hu, hn⟩ := hI.derived a ha
              exact ⟨hv, u, List.mem_cons_of_mem _ hu, hn⟩
      · cases h
  | split c values signers rnd => exact forkInv_present hI h
  | renew c signers rnd => exact forkInv_present hI h
  | otherHolder n =>
      cases h
      refine hI.grow ?_
      unfold NullifierSet.insert
      split
      · exact Finset.Subset.refl _
      · exact Finset.subset_insert _ _

/-! ## 3. What the mint accepts -/

omit [Field S] [AddCommGroup P] [Module S P] [DecidableEq P] in
theorem totalValue_const {v : UInt64} : ∀ {ts : List (ProofCarryingToken S P)},
    (∀ t ∈ ts, t.value = v) → totalValue ts = v.toNat * ts.length
  | [], _ => rfl
  | t :: ts, h => by
      have ih := totalValue_const fun u hu => h u (List.mem_cons_of_mem _ hu)
      have ht : t.value = v := h t List.mem_cons_self
      unfold totalValue at ih ⊢
      rw [List.map_cons, List.sum_cons, ih, ht, List.length_cons, Nat.mul_succ, Nat.add_comm]

omit [DecidableEq P] in
/-- The accepted tokens are at most as many as the held ones. -/
theorem ForkInv.accepted_length_le {v : UInt64} {s : Fork S P} (hI : ForkInv C v s) :
    s.accepted.length ≤ s.held.length := by
  have hsub : (s.accepted.map fun a => a.computeNullifier C) ⊆
      s.held.map fun t => t.computeNullifier C := by
    intro n hn
    obtain ⟨a, ha, rfl⟩ := List.mem_map.mp hn
    obtain ⟨_, t, ht, htn⟩ := hI.derived a ha
    exact List.mem_map.mpr ⟨t, ht, htn⟩
  have hle := (List.subperm_of_subset hI.once hsub).length_le
  rwa [List.length_map, List.length_map] at hle

/-- **What the mint accepts from one token**: over every run of transfers of copies against
    other sets and of splits and renewals at the mint, each derived token is accepted at most
    once, and the value accepted in total is at most the token's value times one plus the
    number of transfers made elsewhere. -/
theorem accepted_le_forks (C : Suite S P) (mint : Mint S P) (t : ProofCarryingToken S P)
    (mintSet : NullifierSet) (acts : List (ForkAct S P)) (s : Fork S P)
    (h : (machine C mint).run (start t mintSet) acts = some s) :
    (s.accepted.map fun a => a.computeNullifier C).Nodup ∧
      totalValue s.accepted ≤ t.value.toNat * (1 + s.transfers) := by
  have hI : ForkInv C t.value s := (machine C mint).run_invariant
    (fun _ _ _ hI hs => forkInv_step hI hs) acts _ s (forkInv_start t mintSet) h
  refine ⟨hI.once, ?_⟩
  rw [totalValue_const fun a ha => (hI.derived a ha).1, ← hI.count]
  exact Nat.mul_le_mul_left _ hI.accepted_length_le

/-! ## 4. Runs that use no token twice -/

/-- `c` is a copy of the token derived last. -/
def Newest (s : Fork S P) (c : ProofCarryingToken S P) : Prop :=
  match s.held with
  | [] => False
  | t :: _ => IsCopy t c

instance (s : Fork S P) (c : ProofCarryingToken S P) : Decidable (s.Newest c) :=
  match h : s.held with
  | [] => isFalse fun hn => by unfold Newest at hn; rw [h] at hn; exact hn
  | t :: _ => decidable_of_iff (IsCopy t c) (by unfold Newest; rw [h])

/-- The holder uses no token again once it was handed on: what the mint is shown, and what goes
    through elsewhere, is the token derived last, and nothing the mint took goes elsewhere. -/
def UsedOnce (C : Suite S P) (s : Fork S P) : ForkAct S P → Prop
  | .transferElsewhere c otherSet _ => Transferable C c otherSet →
      s.Newest c ∧ c.computeNullifier C ∉ s.mintSet.nullifiers
  | .split c _ _ _ | .renew c _ _ => s.Newest c
  | .otherHolder _ => True

instance (C : Suite S P) (s : Fork S P) : ∀ act, Decidable (UsedOnce C s act)
  | .transferElsewhere c otherSet _ => inferInstanceAs (Decidable (Transferable C c otherSet →
      s.Newest c ∧ c.computeNullifier C ∉ s.mintSet.nullifiers))
  | .split c _ _ _ => inferInstanceAs (Decidable (s.Newest c))
  | .renew c _ _ => inferInstanceAs (Decidable (s.Newest c))
  | .otherHolder _ => inferInstanceAs (Decidable True)

/-- What the mint accepted is the token derived last. -/
structure OnceInv (C : Suite S P) (v : UInt64) (s : Fork S P) : Prop extends ForkInv C v s where
  newest : ∀ a ∈ s.accepted, ∃ t rest, s.held = t :: rest ∧
    a.computeNullifier C = t.computeNullifier C

omit [DecidableEq P] in
theorem Newest.nullifier {s : Fork S P} {c : ProofCarryingToken S P} (h : s.Newest c) :
    ∃ t rest, s.held = t :: rest ∧ c.computeNullifier C = t.computeNullifier C := by
  unfold Newest at h
  split at h
  · exact h.elim
  · rename_i t rest hheld
    exact ⟨t, rest, hheld, h.nullifier C⟩

theorem newest_present {s s' : Fork S P} (call : SpendCall S P)
    (hnew : ∀ a ∈ s.accepted, ∃ t rest, s.held = t :: rest ∧
      a.computeNullifier C = t.computeNullifier C)
    (hc : s.Newest call.token) (h : s.present C mint call = some s') :
    ∀ a ∈ s'.accepted, ∃ t rest, s'.held = t :: rest ∧
      a.computeNullifier C = t.computeNullifier C := by
  unfold present at h
  split at h
  · split at h
    · cases h
      exact hnew
    · cases h
      intro a ha
      rcases List.mem_cons.mp ha with rfl | hold
      · exact hc.nullifier
      · exact hnew a hold
  · cases h

theorem onceInv_step {v : UInt64} {s s' : Fork S P} {act : ForkAct S P} (hI : OnceInv C v s)
    (hact : UsedOnce C s act) (h : (machine C mint).step s act = some s') : OnceInv C v s' := by
  refine ⟨forkInv_step hI.toForkInv h, ?_⟩
  cases act with
  | transferElsewhere c otherSet rnd =>
      change (if _ then _ else _) = _ at h
      split at h
      · cases hr : (transfer C c otherSet rnd).1 with
        | error e =>
            rw [hr] at h
            cases h
            exact hI.newest
        | ok r =>
            rw [hr] at h
            cases h
            obtain ⟨hc, hfresh⟩ := hact (transfer_ok_iff.mp ⟨r, hr⟩)
            obtain ⟨t, rest, hheld, hn⟩ := hc.nullifier (C := C)
            -- the token the mint accepted would be this one, which it has not burned
            intro a ha
            obtain ⟨t', rest', hheld', hn'⟩ := hI.newest a ha
            rw [hheld] at hheld'
            cases hheld'
            exact absurd (hn ▸ hn' ▸ hI.burned a ha) hfresh
      · cases h
  | split c values signers rnd =>
      exact newest_present (.split c values signers rnd) hI.newest hact h
  | renew c signers rnd => exact newest_present (.renew c signers rnd) hI.newest hact h
  | otherHolder n =>
      cases h
      exact hI.newest

omit [DecidableEq P] in
/-- Tokens that all have one nullifier, and none of them twice, are at most one. -/
theorem OnceInv.accepted_length_le_one {v : UInt64} {s : Fork S P} (hI : OnceInv C v s) :
    s.accepted.length ≤ 1 := by
  match haccepted : s.accepted with
  | [] => exact Nat.zero_le _
  | [_] => exact Nat.le_refl _
  | a :: b :: rest =>
      have hmem : a ∈ s.accepted ∧ b ∈ s.accepted := by
        rw [haccepted]
        exact ⟨List.mem_cons_self, List.mem_cons_of_mem _ List.mem_cons_self⟩
      obtain ⟨t, _, hheld, ha⟩ := hI.newest a hmem.1
      obtain ⟨t', _, hheld', hb⟩ := hI.newest b hmem.2
      rw [hheld] at hheld'
      cases hheld'
      have honce := hI.once
      rw [haccepted, List.map_cons, List.map_cons, ha, hb] at honce
      exact absurd List.mem_cons_self (List.nodup_cons.mp honce).1

/-- No transfer against another set goes through. -/
def NoneElsewhere (C : Suite S P) (_ : Fork S P) : ForkAct S P → Prop
  | .transferElsewhere c otherSet _ => ¬ Transferable C c otherSet
  | .split _ _ _ _ | .renew _ _ _ | .otherHolder _ => True

/-- Where nothing goes elsewhere, the first token is the only one there is to use. -/
theorem usedOnce_of_noneElsewhere {t : ProofCarryingToken S P} {mintSet : NullifierSet}
    {acts : List (ForkAct S P)}
    (h : (machine C mint).AllSteps (NoneElsewhere C) (start t mintSet) acts) :
    (machine C mint).AllSteps (UsedOnce C) (start t mintSet) acts := by
  refine (machine C mint).allSteps_under (I := fun s => s.held = [t]) ?_ acts _ rfl h
  intro s act s' hheld hnone hs
  have hpresent : ∀ {call : SpendCall S P}, s.present C mint call = some s' →
      s'.held = [t] ∧ s.Newest call.token := by
    intro call hs
    unfold present at hs
    split at hs
    · rename_i hcopy
      obtain ⟨u, hu, hc⟩ := hcopy
      rw [hheld, List.mem_singleton] at hu
      have hnew : s.Newest call.token := by
        unfold Newest
        rw [hheld]
        exact hu ▸ hc
      split at hs <;> cases hs <;> exact ⟨hheld, hnew⟩
    · cases hs
  cases act with
  | transferElsewhere c otherSet rnd =>
      refine ⟨?_, fun hadm => absurd hadm hnone⟩
      change (if _ then _ else _) = _ at hs
      split at hs
      · cases hr : (transfer C c otherSet rnd).1 with
        | error e =>
            rw [hr] at hs
            cases hs
            exact hheld
        | ok r => exact absurd (transfer_ok_iff.mp ⟨r, hr⟩) hnone
      · cases hs
  | split c values signers rnd => exact hpresent hs
  | renew c signers rnd => exact hpresent hs
  | otherHolder n =>
      cases hs
      exact ⟨hheld, trivial⟩

/-- **The mint accepts no more than the token's value** in every run that uses no token again
    once it was transferred elsewhere or taken by the mint. -/
theorem accepted_le_of_usedOnce (C : Suite S P) (mint : Mint S P) (t : ProofCarryingToken S P)
    (mintSet : NullifierSet) (acts : List (ForkAct S P)) (s : Fork S P)
    (hacts : (machine C mint).AllSteps (UsedOnce C) (start t mintSet) acts)
    (h : (machine C mint).run (start t mintSet) acts = some s) :
    totalValue s.accepted ≤ t.value.toNat := by
  have hstart : OnceInv C t.value (start t mintSet) :=
    ⟨forkInv_start t mintSet, fun _ ha => by cases ha⟩
  have hI := (machine C mint).run_invariant_of (fun _ _ _ hI hact hs => onceInv_step hI hact hs)
    acts _ s hstart hacts h
  rw [totalValue_const fun a ha => (hI.derived a ha).1]
  exact (Nat.mul_le_mul_left _ hI.accepted_length_le_one).trans_eq (Nat.mul_one _)

/-- **A forked chain is accepted twice.** A token worth 10 is transferred against a fresh set;
    the mint then renews the token and its descendant, 20 in total, although the owner secrets
    and the nullifiers of the two are different. -/
theorem forked_spend :
    ∃ t r s, sampleMint.issue sampleSuite 10 [1] none (sampleIssueRandom 0) = .ok t ∧
      (transfer sampleSuite t NullifierSet.new ⟨leArr 32 99, 21⟩).1 = .ok r ∧
      t.ownerSecret ≠ r.token.ownerSecret ∧
      t.computeNullifier sampleSuite ≠ r.token.computeNullifier sampleSuite ∧
      (machine sampleSuite sampleMint).run (start t NullifierSet.new)
        [.transferElsewhere t NullifierSet.new ⟨leArr 32 99, 21⟩,
          .renew t [1] (sampleIssueRandom 1), .renew r.token [1] (sampleIssueRandom 2)] = some s ∧
      t.value.toNat < totalValue s.accepted := by
  have hrun : ((sampleMint.issue sampleSuite 10 [1] none (sampleIssueRandom 0)).toOption.bind
      fun t => (transfer sampleSuite t NullifierSet.new ⟨leArr 32 99, 21⟩).1.toOption.bind
      fun r => ((machine sampleSuite sampleMint).run (start t NullifierSet.new)
        [.transferElsewhere t NullifierSet.new ⟨leArr 32 99, 21⟩,
          .renew t [1] (sampleIssueRandom 1), .renew r.token [1] (sampleIssueRandom 2)]).map
      fun s => decide (t.ownerSecret ≠ r.token.ownerSecret ∧
        t.computeNullifier sampleSuite ≠ r.token.computeNullifier sampleSuite ∧
        t.value.toNat < totalValue s.accepted)) = some true := by decide +kernel
  obtain ⟨t, ht, hrun⟩ := Option.bind_eq_some_iff.mp hrun
  obtain ⟨r, hr, hrun⟩ := Option.bind_eq_some_iff.mp hrun
  obtain ⟨s, hs, hfacts⟩ := Option.map_eq_some_iff.mp hrun
  obtain ⟨hsecret, hnull, htotal⟩ := of_decide_eq_true hfacts
  exact ⟨t, r, s, ok_of_toOption ht, ok_of_toOption hr, hsecret, hnull, hs, htotal⟩

/-- The bound where the token is transferred once and its descendant is split. -/
theorem accepted_le_of_usedOnce_handed_on :
    ∃ t r s, sampleMint.issue sampleSuite 5 [1] none (sampleIssueRandom 0) = .ok t ∧
      (transfer sampleSuite t NullifierSet.new ⟨leArr 32 99, 21⟩).1 = .ok r ∧
      (machine sampleSuite sampleMint).run (start t NullifierSet.new)
        [.transferElsewhere t NullifierSet.new ⟨leArr 32 99, 21⟩,
          .split r.token [2, 3] [1] fun i => sampleIssueRandom (i + 2)] = some s ∧
      s.accepted.length = 1 ∧ totalValue s.accepted ≤ t.value.toNat := by
  have hrun : ((sampleMint.issue sampleSuite 5 [1] none (sampleIssueRandom 0)).toOption.bind
      fun t => (transfer sampleSuite t NullifierSet.new ⟨leArr 32 99, 21⟩).1.toOption.bind
      fun r => ((machine sampleSuite sampleMint).run (start t NullifierSet.new)
        [.transferElsewhere t NullifierSet.new ⟨leArr 32 99, 21⟩,
          .split r.token [2, 3] [1] fun i => sampleIssueRandom (i + 2)]).map
      fun s => decide (s.accepted.length = 1 ∧
        (machine sampleSuite sampleMint).AllSteps (UsedOnce sampleSuite)
          (start t NullifierSet.new)
          [.transferElsewhere t NullifierSet.new ⟨leArr 32 99, 21⟩,
            .split r.token [2, 3] [1] fun i => sampleIssueRandom (i + 2)])) = some true := by
    decide +kernel
  obtain ⟨t, ht, hrun⟩ := Option.bind_eq_some_iff.mp hrun
  obtain ⟨r, hr, hrun⟩ := Option.bind_eq_some_iff.mp hrun
  obtain ⟨s, hs, hfacts⟩ := Option.map_eq_some_iff.mp hrun
  obtain ⟨hlen, hacts⟩ := of_decide_eq_true hfacts
  exact ⟨t, r, s, ok_of_toOption ht, ok_of_toOption hr, hs, hlen,
    accepted_le_of_usedOnce sampleSuite sampleMint t NullifierSet.new _ s hacts hs⟩

end Fork

end Specter
