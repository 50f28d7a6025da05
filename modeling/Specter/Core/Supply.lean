/-
  File:      Specter/Core/Supply.lean
  Subject:   VALUE OVER ONE NULLIFIER SET: runs of `transfer`, `transfer_checked`, `split` and
             `renew_token` on copies of the tokens in circulation, all against one in-memory set.

  The machine keeps the tokens in circulation (those it starts with and every output), the set,
  and the log of the calls that returned `Ok` with what they consumed and returned. A call is
  enabled on any copy of a token in circulation: a token with its id, owner secret and value.

  * `IsCopy` -- what a holder can hand in again;
  * `SpendCall.outcome_spends` -- each of the four calls spends the token it is made on;
  * `SupplyInv` -- consumed tokens are burned, none is consumed twice, every call conserves;
  * `unspentTotal_step` -- no call raises the value of the unspent tokens;
  * `supply_conserved` -- the three facts over every run.
-/
import Mathlib.Algebra.BigOperators.Group.Finset.Basic
import Mathlib.Algebra.Order.BigOperators.Group.Finset
import Specter.Core.Renewal
import Specter.Core.Transfer
import Specter.Lib.Machine

namespace Specter

open Lib

variable {S P : Type} [Field S] [AddCommGroup P] [Module S P]

/-! ## 1. Copies and calls -/

/-- `c` can be handed in as `t`: a byte copy, or one that differs in fields that neither the
    nullifier nor the value depends on. -/
def IsCopy (t c : ProofCarryingToken S P) : Prop :=
  c.tokenId = t.tokenId ∧ c.ownerSecret = t.ownerSecret ∧ c.value = t.value

instance (t c : ProofCarryingToken S P) : Decidable (IsCopy t c) :=
  inferInstanceAs (Decidable (_ ∧ _ ∧ _))

theorem IsCopy.nullifier {t c : ProofCarryingToken S P} (h : IsCopy t c) (C : Suite S P) :
    c.computeNullifier C = t.computeNullifier C := by
  unfold ProofCarryingToken.computeNullifier
  rw [h.1, h.2.1]

/-- A call that spends a token, with its arguments and what it draws. -/
inductive SpendCall (S P : Type) where
  | transfer (token : ProofCarryingToken S P) (rnd : TransferRandom S)
  | transferChecked (token : ProofCarryingToken S P) (groupPublicKey : P)
      (pedersen credentialPedersen : PedersenParams P) (currentTime : UInt64)
      (rnd : TransferRandom S)
  | split (token : ProofCarryingToken S P) (outputValues : List UInt64)
      (signers : List SignerId) (rnd : Nat → IssueRandom S)
  | renew (token : ProofCarryingToken S P) (signers : List SignerId) (rnd : IssueRandom S)

namespace SpendCall

variable [DecidableEq P]

def token : SpendCall S P → ProofCarryingToken S P
  | .transfer t _ | .transferChecked t _ _ _ _ _ | .split t _ _ _ | .renew t _ _ => t

/-- What a call returns when it is `Ok`, and the set it leaves; a panic of the verification
    returns nothing and leaves the set. -/
def outcome (C : Suite S P) (mint : Mint S P) (ns : NullifierSet) :
    SpendCall S P → Option (List (ProofCarryingToken S P)) × NullifierSet
  | .transfer t rnd =>
      let r := Specter.transfer C t ns rnd
      (transferOutputs r.1, r.2)
  | .transferChecked t gpk pp cpp now rnd =>
      match Specter.transferChecked C t ns gpk pp cpp now rnd with
      | none => (none, ns)
      | some r => (transferOutputs r.1, r.2)
  | .split t values signers rnd =>
      match mint.split C t values signers ns rnd with
      | none => (none, ns)
      | some r => (r.1.toOption, r.2)
  | .renew t signers rnd =>
      match renewToken C t mint signers ns rnd with
      | none => (none, ns)
      | some r => (renewalOutputs r.1, r.2)

/-- **Each call spends the token it is made on.** -/
theorem outcome_spends (C : Suite S P) (mint : Mint S P) (ns : NullifierSet)
    (call : SpendCall S P) :
    Spends C call.token ns (call.outcome C mint ns).1 (call.outcome C mint ns).2 := by
  cases call with
  | transfer t rnd => exact transfer_spends rfl
  | transferChecked t gpk pp cpp now rnd =>
      unfold outcome
      dsimp only
      cases h : Specter.transferChecked C t ns gpk pp cpp now rnd with
      | none => exact .untouched
      | some r => exact transferChecked_spends h
  | split t values signers rnd =>
      unfold outcome
      dsimp only
      cases h : mint.split C t values signers ns rnd with
      | none => exact .untouched
      | some r => exact Mint.split_spends h
  | renew t signers rnd =>
      unfold outcome
      dsimp only
      cases h : renewToken C t mint signers ns rnd with
      | none => exact .untouched
      | some r => exact renewToken_spends h

end SpendCall

/-! ## 2. The machine -/

structure Supply (S P : Type) where
  circulation : Finset (ProofCarryingToken S P)
  ns : NullifierSet
  /-- The `Ok` calls so far: the token consumed and the tokens returned. -/
  log : List (ProofCarryingToken S P × List (ProofCarryingToken S P))

namespace Supply

variable [DecidableEq S] [DecidableEq P] (C : Suite S P) (mint : Mint S P)

/-- The tokens issued so far, and a set. -/
def start (issued : Finset (ProofCarryingToken S P)) (ns : NullifierSet) : Supply S P :=
  ⟨issued, ns, []⟩

/-- The state after a call with the given outcome. -/
def after (s : Supply S P) (token : ProofCarryingToken S P) :
    Option (List (ProofCarryingToken S P)) × NullifierSet → Supply S P
  | (none, ns) => ⟨s.circulation, ns, s.log⟩
  | (some ts, ns) => ⟨s.circulation ∪ ts.toFinset, ns, s.log ++ [(token, ts)]⟩

def machine : Machine (Supply S P) (SpendCall S P) where
  step s call :=
    if ∃ t ∈ s.circulation, IsCopy t call.token then
      some (s.after call.token (call.outcome C mint s.ns))
    else none

/-- The tokens in circulation whose nullifier is not in the set. -/
def unspent (s : Supply S P) : Finset (ProofCarryingToken S P) :=
  s.circulation.filter fun t => t.computeNullifier C ∉ s.ns.nullifiers

def unspentTotal (s : Supply S P) : Nat := ∑ t ∈ s.unspent C, t.value.toNat

variable {C mint}

theorem step_some {s s' : Supply S P} {call : SpendCall S P}
    (h : (machine C mint).step s call = some s') :
    (∃ t ∈ s.circulation, IsCopy t call.token) ∧
      s' = s.after call.token (call.outcome C mint s.ns) := by
  change (if _ then _ else _) = _ at h
  split at h
  · rename_i hcopy
    exact ⟨hcopy, (Option.some.inj h).symm⟩
  · cases h

/-! ## 3. What a call keeps -/

/-- The invariant of the log. -/
structure SupplyInv (C : Suite S P) (s : Supply S P) : Prop where
  burned : ∀ e ∈ s.log, e.1.computeNullifier C ∈ s.ns.nullifiers
  once : (s.log.map fun e => (e.1.tokenId, e.1.ownerSecret)).Nodup
  conserves : ∀ e ∈ s.log, totalValue e.2 = e.1.value.toNat

omit [DecidableEq S] [DecidableEq P] in
theorem supplyInv_start (issued : Finset (ProofCarryingToken S P)) (ns : NullifierSet) :
    SupplyInv C (start issued ns) where
  burned _ he := by cases he
  once := List.nodup_nil
  conserves _ he := by cases he

theorem supplyInv_step {s s' : Supply S P} {call : SpendCall S P} (hI : SupplyInv C s)
    (h : (machine C mint).step s call = some s') : SupplyInv C s' := by
  obtain ⟨_, rfl⟩ := step_some h
  have hsp := call.outcome_spends C mint s.ns
  generalize call.outcome C mint s.ns = o at hsp
  obtain ⟨out, ns'⟩ := o
  dsimp only at hsp
  have hgrow : s.ns.nullifiers ⊆ ns'.nullifiers := by
    rcases hsp.set with heq | hburn
    · intro n hn
      rw [heq]
      exact hn
    · intro n hn
      rw [hburn.set]
      exact Finset.mem_insert_of_mem hn
  cases out with
  | none =>
      exact ⟨fun e he => hgrow (hI.burned e he), hI.once, hI.conserves⟩
  | some ts =>
      obtain ⟨hburn, hval⟩ := hsp.ok ts rfl
      have hmem : call.token.computeNullifier C ∈ ns'.nullifiers := by
        rw [hburn.set]
        exact Finset.mem_insert_self _ _
      refine ⟨fun e he => ?_, ?_, fun e he => ?_⟩
      · rcases List.mem_append.mp he with hold | hnew
        · exact hgrow (hI.burned e hold)
        · rw [List.mem_singleton.mp hnew]
          exact hmem
      · -- a pair consumed before has its nullifier in the set, so the call could not be `Ok`
        show ((s.log ++ [(call.token, ts)]).map _).Nodup
        rw [List.map_append, List.nodup_append]
        refine ⟨hI.once, List.nodup_singleton _, fun p hp q hq hpq => ?_⟩
        obtain ⟨e, he, rfl⟩ := List.mem_map.mp hp
        have hpair : (e.1.tokenId, e.1.ownerSecret) =
            (call.token.tokenId, call.token.ownerSecret) :=
          hpq.trans (List.mem_singleton.mp hq)
        obtain ⟨hid, hsec⟩ := Prod.mk.inj hpair
        have hn : e.1.computeNullifier C = call.token.computeNullifier C := by
          unfold ProofCarryingToken.computeNullifier
          rw [hid, hsec]
        exact hburn.fresh (hn ▸ hI.burned e he)
      · rcases List.mem_append.mp he with hold | hnew
        · exact hI.conserves e hold
        · rw [List.mem_singleton.mp hnew]
          exact hval

/-! ## 4. The unspent value -/

omit [Field S] [AddCommGroup P] [Module S P] in
/-- Counting each token of a list once gives at most the total. -/
theorem sum_toFinset_le (ts : List (ProofCarryingToken S P)) :
    ∑ t ∈ ts.toFinset, t.value.toNat ≤ totalValue ts := by
  induction ts with
  | nil => exact Nat.le_refl 0
  | cons t ts ih =>
      have hins : ∑ u ∈ insert t ts.toFinset, u.value.toNat ≤
          t.value.toNat + ∑ u ∈ ts.toFinset, u.value.toNat := by
        by_cases ht : t ∈ ts.toFinset
        · rw [Finset.insert_eq_of_mem ht]
          omega
        · rw [Finset.sum_insert ht]
      rw [List.toFinset_cons]
      unfold totalValue at ih ⊢
      rw [List.map_cons, List.sum_cons]
      omega

/-- Burning the nullifier of a token in circulation takes its value out of the unspent total. -/
theorem unspentTotal_burn {s : Supply S P} {t c : ProofCarryingToken S P} {ns' : NullifierSet}
    (ht : t ∈ s.circulation) (hc : IsCopy t c) (hburn : Burned C c s.ns ns') :
    t.value.toNat + unspentTotal C ⟨s.circulation, ns', s.log⟩ ≤ unspentTotal C s := by
  have hn := hc.nullifier C
  have hin : t ∈ s.unspent C :=
    Finset.mem_filter.mpr ⟨ht, fun hmem => hburn.fresh (hn ▸ hmem)⟩
  have hsub : unspent C ⟨s.circulation, ns', s.log⟩ ⊆ (s.unspent C).erase t := by
    intro u hu
    obtain ⟨hu1, hu2⟩ := Finset.mem_filter.mp hu
    rw [hburn.set, Finset.mem_insert, not_or] at hu2
    refine Finset.mem_erase.mpr ⟨fun hut => hu2.1 ?_, Finset.mem_filter.mpr ⟨hu1, hu2.2⟩⟩
    rw [hut, hn]
  have hle : unspentTotal C ⟨s.circulation, ns', s.log⟩ ≤
      ∑ u ∈ (s.unspent C).erase t, u.value.toNat :=
    Finset.sum_le_sum_of_subset hsub
  have hsplit := Finset.add_sum_erase (s.unspent C) (fun u => u.value.toNat) hin
  unfold unspentTotal at hle ⊢
  omega

/-- Outputs add at most their total. -/
theorem unspentTotal_outputs (circ : Finset (ProofCarryingToken S P)) (ns : NullifierSet)
    (log log' : List (ProofCarryingToken S P × List (ProofCarryingToken S P)))
    (ts : List (ProofCarryingToken S P)) :
    unspentTotal C ⟨circ ∪ ts.toFinset, ns, log'⟩ ≤
      unspentTotal C ⟨circ, ns, log⟩ + totalValue ts := by
  have hsub : unspent C ⟨circ ∪ ts.toFinset, ns, log'⟩ ⊆
      unspent C ⟨circ, ns, log⟩ ∪ ts.toFinset := by
    intro u hu
    obtain ⟨hu1, hu2⟩ := Finset.mem_filter.mp hu
    rcases Finset.mem_union.mp hu1 with hold | hnew
    · exact Finset.mem_union_left _ (Finset.mem_filter.mpr ⟨hold, hu2⟩)
    · exact Finset.mem_union_right _ hnew
  calc unspentTotal C ⟨circ ∪ ts.toFinset, ns, log'⟩
      ≤ ∑ u ∈ unspent C ⟨circ, ns, log⟩ ∪ ts.toFinset, u.value.toNat :=
        Finset.sum_le_sum_of_subset hsub
    _ ≤ unspentTotal C ⟨circ, ns, log⟩ + ∑ u ∈ ts.toFinset, u.value.toNat := by
        unfold unspentTotal
        rw [← Finset.sum_union_inter]
        exact Nat.le_add_right _ _
    _ ≤ unspentTotal C ⟨circ, ns, log⟩ + totalValue ts :=
        Nat.add_le_add_left (sum_toFinset_le ts) _

/-- **No call raises the unspent value.** -/
theorem unspentTotal_step {s s' : Supply S P} {call : SpendCall S P}
    (h : (machine C mint).step s call = some s') : unspentTotal C s' ≤ unspentTotal C s := by
  obtain ⟨⟨t, ht, hc⟩, rfl⟩ := step_some h
  have hsp := call.outcome_spends C mint s.ns
  generalize call.outcome C mint s.ns = o at hsp
  obtain ⟨out, ns'⟩ := o
  dsimp only at hsp
  cases out with
  | none =>
      show unspentTotal C ⟨s.circulation, ns', s.log⟩ ≤ _
      rcases hsp.set with heq | hburn
      · rw [heq]
      · have := unspentTotal_burn ht hc hburn
        omega
  | some ts =>
      obtain ⟨hburn, hval⟩ := hsp.ok ts rfl
      have hout := unspentTotal_outputs (C := C) s.circulation ns' s.log
        (s.log ++ [(call.token, ts)]) ts
      have hin := unspentTotal_burn ht hc hburn
      have hv : call.token.value = t.value := hc.2.2
      show unspentTotal C ⟨s.circulation ∪ ts.toFinset, ns', _⟩ ≤ _
      rw [hv] at hval
      omega

/-- **Value conservation over one set.** In every run, from any issued tokens and any set: no
    pair of token id and owner secret is consumed by two `Ok` calls, every `Ok` call returns
    exactly the value it consumed, and from any point of the run on the value of the unspent
    tokens does not grow. -/
theorem supply_conserved (C : Suite S P) (mint : Mint S P)
    (issued : Finset (ProofCarryingToken S P)) (ns : NullifierSet)
    (calls later : List (SpendCall S P)) (s s' : Supply S P)
    (h : (machine C mint).run (start issued ns) calls = some s)
    (h' : (machine C mint).run s later = some s') :
    (s'.log.map fun e => (e.1.tokenId, e.1.ownerSecret)).Nodup ∧
      (∀ e ∈ s'.log, totalValue e.2 = e.1.value.toNat) ∧
      s'.unspentTotal C ≤ s.unspentTotal C := by
  have hstep : ∀ x a x', SupplyInv C x → (machine C mint).step x a = some x' → SupplyInv C x' :=
    fun _ _ _ hI hs => supplyInv_step hI hs
  have hs : SupplyInv C s :=
    (machine C mint).run_invariant hstep calls _ s (supplyInv_start issued ns) h
  have hs' : SupplyInv C s' := (machine C mint).run_invariant hstep later s s' hs h'
  exact ⟨hs'.once, hs'.conserves,
    (machine C mint).run_antitone (fun _ _ _ hs => unspentTotal_step hs) later s s' h'⟩

/-- A token worth 10 is split into 4 and 6, and the 4 is transferred: two `Ok` calls. -/
theorem supply_conserved_split_transfer :
    ∃ t u s s', sampleMint.issue sampleSuite 10 [1] none (sampleIssueRandom 0) = .ok t ∧
      sampleMint.issue sampleSuite 4 [1] none (sampleIssueRandom 1) = .ok u ∧
      (machine sampleSuite sampleMint).run (start {t} NullifierSet.new)
        [.split t [4, 6] [1] fun i => sampleIssueRandom (i + 1)] = some s ∧
      (machine sampleSuite sampleMint).run s [.transfer u ⟨leArr 32 99, 21⟩] = some s' ∧
      s'.log.length = 2 ∧
      (s'.log.map fun e => (e.1.tokenId, e.1.ownerSecret)).Nodup ∧
      (∀ e ∈ s'.log, totalValue e.2 = e.1.value.toNat) ∧
      s'.unspentTotal sampleSuite ≤ s.unspentTotal sampleSuite := by
  have hrun : ((sampleMint.issue sampleSuite 10 [1] none (sampleIssueRandom 0)).toOption.bind
      fun t => (sampleMint.issue sampleSuite 4 [1] none (sampleIssueRandom 1)).toOption.bind
      fun u => ((machine sampleSuite sampleMint).run (start {t} NullifierSet.new)
        [.split t [4, 6] [1] fun i => sampleIssueRandom (i + 1)]).bind
      fun s => ((machine sampleSuite sampleMint).run s [.transfer u ⟨leArr 32 99, 21⟩]).map
      fun s' => s'.log.length) = some 2 := by decide +kernel
  obtain ⟨t, ht, hrun⟩ := Option.bind_eq_some_iff.mp hrun
  obtain ⟨u, hu, hrun⟩ := Option.bind_eq_some_iff.mp hrun
  obtain ⟨s, hs, hrun⟩ := Option.bind_eq_some_iff.mp hrun
  obtain ⟨s', hs', hlen⟩ := Option.map_eq_some_iff.mp hrun
  exact ⟨t, u, s, s', ok_of_toOption ht, ok_of_toOption hu, hs, hs', hlen,
    supply_conserved sampleSuite sampleMint {t} NullifierSet.new _ _ s s' hs hs'⟩

end Supply

end Specter
