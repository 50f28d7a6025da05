/-
  File:      Specter/Offline/Collateral.lean
  Subject:   WHAT BECOMES OF DEPOSITED COLLATERAL, over whole runs of the bond registry.

  The registry is run beside the log of its calls: each call with its time, the bond it was
  about and the answer it got, the newest first. Every sum is a sum over that log.

  * `registeredSince`, `settledSince` -- what an owner registered and settled since the deposit
    of the bond it has now;
  * `books_invariant` -- the two maps agree, exposures are within amounts and cover what was
    registered and not settled, and the coverage check answers as the registration would;
  * `collateral_conserved` -- what was deposited is what was withdrawn, slashed, or is staked
    still, and each deposit is paid out at most once.
-/
import Specter.Lib.Machine
import Specter.Offline.Bonds

namespace Specter

open Lib BondRegistry

variable {S P : Type} [Field S] [AddCommGroup P] [Module S P]

/-! ## 1. The registry and the log of its calls -/

structure BondEvent where
  call : BondCall
  bondId : Option Bytes32
  reply : BondReply

structure Books where
  registry : BondRegistry
  log : List BondEvent

namespace Books

/-- An empty registry with the lock period `lock` (`lock_period_secs` is a public field; `new`
    sets it to a week). -/
def start (lock : UInt64) : Books := ⟨⟨∅, ∅, lock⟩, []⟩

/-- The bond a call is about: its owner's, for a deposit the new one. -/
def aboutBond (C : Suite S P) (r : BondRegistry) : BondOp → Option Bytes32
  | .deposit o amount nonce => some (newBondId C o amount nonce)
  | op => r.ownerBonds.lookup op.ownerId

def machine (C : Suite S P) : Machine Books BondCall where
  step b call := some
    { registry := (b.registry.exec C call).2
      log := ⟨call, aboutBond C b.registry call.op, (b.registry.exec C call).1⟩ :: b.log }

end Books

namespace BondEvent

/-- The event is an accepted deposit of the owner. -/
def Opens (o : Bytes32) (e : BondEvent) : Prop :=
  e.call.op.ownerId = o ∧ ∃ bond, e.reply = .deposited bond

instance (o : Bytes32) (e : BondEvent) : Decidable (e.Opens o) :=
  match h : e.reply with
  | .deposited bond => decidable_of_iff (e.call.op.ownerId = o)
      ⟨fun ho => ⟨ho, bond, h⟩, fun ho => ho.1⟩
  | .refused _ => .isFalse fun ⟨_, _, h'⟩ => by rw [h] at h'; cases h'
  | .done => .isFalse fun ⟨_, _, h'⟩ => by rw [h] at h'; cases h'
  | .amount _ => .isFalse fun ⟨_, _, h'⟩ => by rw [h] at h'; cases h'
  | .panicked => .isFalse fun ⟨_, _, h'⟩ => by rw [h] at h'; cases h'

def registered (o : Bytes32) (e : BondEvent) : Nat :=
  match e.call.op, e.reply with
  | .registerOfflineSpend o' amount, .done => if o' = o then amount.toNat else 0
  | _, _ => 0

def settled (o : Bytes32) (e : BondEvent) : Nat :=
  match e.call.op, e.reply with
  | .settle o' amount, .done => if o' = o then amount.toNat else 0
  | _, _ => 0

def deposited (e : BondEvent) : Nat :=
  match e.call.op, e.reply with
  | .deposit _ _ _, .deposited bond => bond.amount.toNat
  | _, _ => 0

def slashed (e : BondEvent) : Nat :=
  match e.call.op, e.reply with
  | .slash _ _ _, .amount v => v.toNat
  | _, _ => 0

def withdrawn (e : BondEvent) : Nat :=
  match e.call.op, e.reply with
  | .withdraw _, .amount v => v.toNat
  | _, _ => 0

/-- The event is an accepted deposit of the bond, or pays the bond out. -/
def deposits (id : Bytes32) (e : BondEvent) : Nat :=
  match e.call.op, e.reply with
  | .deposit _ _ _, .deposited _ => if e.bondId = some id then 1 else 0
  | _, _ => 0

def payouts (id : Bytes32) (e : BondEvent) : Nat :=
  match e.call.op, e.reply with
  | .slash _ _ _, .amount _ => if e.bondId = some id then 1 else 0
  | .withdraw _, .amount _ => if e.bondId = some id then 1 else 0
  | _, _ => 0

end BondEvent

namespace Books

/-- A measure of the events, summed since the owner's last accepted deposit. -/
def since (f : Bytes32 → BondEvent → Nat) (o : Bytes32) : List BondEvent → Nat
  | [] => 0
  | e :: log => if e.Opens o then 0 else f o e + since f o log

def registeredSince : Bytes32 → List BondEvent → Nat := since BondEvent.registered

def settledSince : Bytes32 → List BondEvent → Nat := since BondEvent.settled

/-- A measure of the events, summed over the log. -/
def sumOver (f : BondEvent → Nat) (log : List BondEvent) : Nat := (log.map f).sum

/-- The amount staked in a bond. -/
def staked (bond : Bond) : Nat := if bond.active then bond.amount.toNat else 0

/-- One for a bond that is active under the id. -/
def activeAt (r : BondRegistry) (id : Bytes32) : Nat :=
  if (r.bonds.lookup id).any (·.active) then 1 else 0

variable {C : Suite S P} {b b' : Books}

theorem step_some {call : BondCall} (h : (machine C).step b call = some b') :
    Effect C b.registry call.time call.op (b.registry.exec C call).1 b'.registry ∧
      b'.log = ⟨call, aboutBond C b.registry call.op, (b.registry.exec C call).1⟩ :: b.log := by
  cases h
  exact ⟨exec_effect C b.registry call, rfl⟩

/-- What another owner's call adds is nothing. -/
theorem since_other {f : Bytes32 → BondEvent → Nat} {o : Bytes32} {e : BondEvent}
    {log : List BondEvent} (hne : o ≠ e.call.op.ownerId) (hf : f o e = 0) :
    since f o (e :: log) = since f o log := by
  have hopens : ¬ e.Opens o := fun h => hne h.1.symm
  rw [since, if_neg hopens, hf, Nat.zero_add]

theorem registered_other {o : Bytes32} {e : BondEvent} (hne : o ≠ e.call.op.ownerId) :
    e.registered o = 0 := by
  obtain ⟨⟨t, op⟩, id, reply⟩ := e
  unfold BondEvent.registered
  split
  · rename_i hop _
    dsimp only at hop
    rw [hop] at hne
    exact if_neg fun e => hne e.symm
  · rfl

theorem settled_other {o : Bytes32} {e : BondEvent} (hne : o ≠ e.call.op.ownerId) :
    e.settled o = 0 := by
  obtain ⟨⟨t, op⟩, id, reply⟩ := e
  unfold BondEvent.settled
  split
  · rename_i hop _
    dsimp only at hop
    rw [hop] at hne
    exact if_neg fun e => hne e.symm
  · rfl

/-! ## 2. The invariant -/

/-- The maps agree, and an active bond is exposed to all that was registered and not settled
    since it was deposited. -/
structure BooksInv (b : Books) : Prop where
  registry : RegistryInv b.registry
  covered : ∀ o id bond, b.registry.ownBond o = .ok (id, bond) → bond.active = true →
    registeredSince o b.log ≤ bond.offlineExposure.toNat + settledSince o b.log

theorem booksInv_start (lock : UInt64) : BooksInv (start lock) := by
  refine ⟨registryInv_empty, fun o id bond h _ => ?_⟩
  have ho := (ownBond_ok.mp h).1
  rw [show (start lock).registry.ownerBonds = ∅ from rfl, AList.lookup_empty] at ho
  cases ho

/-- The call draws no id in use. -/
def Fresh (C : Suite S P) (b : Books) (call : BondCall) : Prop := FreshId C b.registry call.op

instance (b : Books) (call : BondCall) : Decidable (Fresh C b call) :=
  inferInstanceAs (Decidable (FreshId C b.registry call.op))

/-- The owner's own call keeps its bond covered. -/
theorem covered_own {r r' : BondRegistry} {t : UInt64} {op : BondOp} {reply : BondReply}
    {about : Option Bytes32} {log : List BondEvent} (h : Effect C r t op reply r')
    (hcov : ∀ id bond, r.ownBond op.ownerId = .ok (id, bond) → bond.active = true →
      registeredSince op.ownerId log ≤ bond.offlineExposure.toNat + settledSince op.ownerId log)
    {id : Bytes32} {bond : Bond} (hown : r'.ownBond op.ownerId = .ok (id, bond))
    (hact : bond.active = true) :
    registeredSince op.ownerId (⟨⟨t, op⟩, about, reply⟩ :: log) ≤
      bond.offlineExposure.toNat + settledSince op.ownerId (⟨⟨t, op⟩, about, reply⟩ :: log) := by
  cases h with
  | refused e =>
      have := hcov id bond hown hact
      simpa [registeredSince, settledSince, since, BondEvent.Opens, BondEvent.registered,
        BondEvent.settled] using this
  | deposited hpos hmax hnone =>
      simp [registeredSince, since, BondEvent.Opens, BondOp.ownerId]
  | @registered o id₀ amount total bond₀ hown₀ hact₀ hadd hle =>
      cases (ownBond_put hown₀).symm.trans hown
      have := hcov _ _ hown₀ hact₀
      simp only [registeredSince, settledSince, since, BondEvent.Opens, BondEvent.registered,
        BondEvent.settled, BondOp.ownerId, reduceCtorEq, exists_false, and_false, if_false,
        if_true] at this ⊢
      omega
  | @settled o id₀ amount bond₀ hown₀ =>
      cases (ownBond_put hown₀).symm.trans hown
      have := hcov _ _ hown₀ hact
      have hsub := saturatingSub_toNat bond₀.offlineExposure amount
      simp only [registeredSince, settledSince, since, BondEvent.Opens, BondEvent.registered,
        BondEvent.settled, BondOp.ownerId, reduceCtorEq, exists_false, and_false, if_false,
        if_true] at this ⊢
      omega
  | slashed hne hown₀ hact₀ =>
      cases (ownBond_put hown₀).symm.trans hown
      cases hact
  | @requested o id₀ bond₀ reply hown₀ hact₀ hexp hreply =>
      cases (ownBond_put hown₀).symm.trans hown
      have := hcov _ _ hown₀ hact₀
      rcases hreply with rfl | ⟨v, rfl⟩ <;>
        simpa [registeredSince, settledSince, since, BondEvent.Opens, BondEvent.registered,
          BondEvent.settled] using this
  | withdrawn hown₀ hact₀ hreq hlock hexp =>
      cases ownBond_remove.symm.trans hown

/-- **Every call keeps the invariant.** -/
theorem booksInv_step {call : BondCall} (hI : BooksInv b) (hfresh : Fresh C b call)
    (h : (machine C).step b call = some b') : BooksInv b' := by
  obtain ⟨heff, hlog⟩ := step_some h
  refine ⟨registryInv_effect hI.registry hfresh heff, fun o id bond hown hact => ?_⟩
  rw [hlog]
  by_cases ho : o = call.op.ownerId
  · subst ho
    exact covered_own heff (hI.covered _) hown hact
  · rw [heff.frame hI.registry hfresh ho] at hown
    unfold registeredSince settledSince
    rw [since_other ho (registered_other ho), since_other ho (settled_other ho)]
    exact hI.covered o id bond hown hact

/-- **What holds of every registry that calls can lead to**: exposures are within amounts, and
    these below the cap; an owner has at most one active bond, the one the owner map has for it;
    an active bond is exposed to at least what was registered less what was settled since its
    deposit; and the coverage check is true exactly where the registration would succeed. -/
theorem books_invariant (lock : UInt64) (calls : List BondCall) {b : Books}
    (hfresh : (machine C).AllSteps (Fresh C) (start lock) calls)
    (hrun : (machine C).run (start lock) calls = some b) :
    (∀ id bond, b.registry.bonds.lookup id = some bond →
      bond.offlineExposure ≤ bond.amount ∧ bond.amount.toNat ≤ (2 ^ 64 - 1) / 2) ∧
    (∀ id id' bond bond', b.registry.bonds.lookup id = some bond →
      b.registry.bonds.lookup id' = some bond' → bond.active = true → bond'.active = true →
      bond.ownerId = bond'.ownerId → id = id') ∧
    (∀ id bond, b.registry.bonds.lookup id = some bond → bond.active = true →
      b.registry.ownerBonds.lookup bond.ownerId = some id) ∧
    (∀ id bond, b.registry.bonds.lookup id = some bond → bond.active = true →
      registeredSince bond.ownerId b.log - settledSince bond.ownerId b.log ≤
        bond.offlineExposure.toNat) ∧
    ∀ o v, b.registry.checkCoverage o v = true ↔
      (b.registry.registerOfflineSpend o v).1 = .ok () := by
  have hI : BooksInv b := (machine C).run_invariant_of
    (fun _ _ _ hI hf h => booksInv_step hI hf h) calls _ b (booksInv_start lock) hfresh hrun
  refine ⟨fun id bond hb => ?_, fun id id' bond bond' hb hb' ha ha' ho => ?_, hI.registry.active,
    fun id bond hb ha => ?_, fun o v => checkCoverage_iff⟩
  · obtain ⟨hexp, hmax⟩ := hI.registry.bounded id bond hb
    exact ⟨hexp, UInt64.le_iff_toNat_le.mp hmax⟩
  · have h := hI.registry.active id bond hb ha
    rw [ho, hI.registry.active id' bond' hb' ha'] at h
    exact (Option.some.inj h).symm
  · have hown := ownBond_ok.mpr ⟨hI.registry.active id bond hb ha, hb⟩
    have := hI.covered _ id bond hown ha
    omega

/-- One owner's life with a bond: staked, spent against and settled in part, slashed, staked
    again, and withdrawn. -/
def sampleCalls : List BondCall :=
  let o : Bytes32 := leArr 32 1
  [⟨1, .deposit o 1000 (leArr 16 7)⟩, ⟨2, .registerOfflineSpend o 500⟩, ⟨3, .settle o 200⟩,
    ⟨4, .slash o (leArr 32 2) (leArr 32 3)⟩, ⟨5, .deposit o 400 (leArr 16 8)⟩,
    ⟨6, .registerOfflineSpend o 300⟩, ⟨7, .deposit (leArr 32 9) 70 (leArr 16 6)⟩,
    ⟨8, .requestWithdrawal (leArr 32 9)⟩, ⟨604900, .withdraw (leArr 32 9)⟩]

/-- After that life the second bond covers another 100 and no more. -/
theorem books_invariant_two_deposits :
    ∃ b, (machine sampleSuite).run (start 604800) sampleCalls = some b ∧
      (b.registry.registerOfflineSpend (leArr 32 1) 100).1 = .ok () ∧
      (b.registry.registerOfflineSpend (leArr 32 1) 101).1 ≠ .ok () := by
  have hrun : ((machine sampleSuite).run (start 604800) sampleCalls).map (fun b =>
      decide (b.registry.checkCoverage (leArr 32 1) 100 = true ∧
        b.registry.checkCoverage (leArr 32 1) 101 = false)) = some true := by
    decide +kernel
  obtain ⟨b, hb, hfacts⟩ := Option.map_eq_some_iff.mp hrun
  obtain ⟨hyes, hno⟩ := of_decide_eq_true hfacts
  have hfresh : (machine sampleSuite).AllSteps (Fresh sampleSuite) (start 604800) sampleCalls := by
    decide +kernel
  obtain ⟨_, _, _, _, hcheck⟩ := books_invariant 604800 sampleCalls hfresh hb
  refine ⟨b, hb, (hcheck _ _).mp hyes, fun h => ?_⟩
  rw [← hcheck, hno] at h
  cases h

/-! ## 3. Conservation -/

/-- What was deposited is what was paid out and what is staked, in all and bond by bond. -/
structure Conserved (b : Books) : Prop where
  total : sumOver BondEvent.deposited b.log =
    sumOver BondEvent.withdrawn b.log + sumOver BondEvent.slashed b.log +
      b.registry.bonds.total staked
  each : ∀ id, sumOver (BondEvent.deposits id) b.log =
    sumOver (BondEvent.payouts id) b.log + activeAt b.registry id

theorem conserved_start (lock : UInt64) : Conserved (start lock) := by
  refine ⟨rfl, fun id => ?_⟩
  have hnone : (start lock).registry.bonds.lookup id = none := AList.lookup_empty id
  unfold activeAt
  rw [hnone]
  rfl

theorem sumOver_cons (f : BondEvent → Nat) (e : BondEvent) (log : List BondEvent) :
    sumOver f (e :: log) = f e + sumOver f log := by
  unfold sumOver
  rw [List.map_cons, List.sum_cons]

theorem activeAt_put {r : BondRegistry} {id id' : Bytes32} {bond : Bond} :
    activeAt (r.put id bond) id' =
      if id' = id then (if bond.active then 1 else 0) else activeAt r id' := by
  unfold activeAt
  rw [lookup_put]
  by_cases h : id' = id
  · rw [if_pos h, if_pos h, Option.any_some]
  · rw [if_neg h, if_neg h]

theorem activeAt_remove {r : BondRegistry} {o id id' : Bytes32} :
    activeAt (r.remove o id) id' = if id' = id then 0 else activeAt r id' := by
  unfold activeAt
  by_cases h : id' = id
  · have hnone : (r.remove o id).bonds.lookup id = none := AList.lookup_erase id r.bonds
    rw [if_pos h, h, hnone]
    rfl
  · have hsame : (r.remove o id).bonds.lookup id' = r.bonds.lookup id' := AList.lookup_erase_ne h
    rw [if_neg h, hsame]

/-- The owner's bond, rewritten with the same stake, leaves all stakes as they were. -/
theorem stakes_put {r : BondRegistry} {o id : Bytes32} {bond : Bond} (bond' : Bond)
    (hown : r.ownBond o = .ok (id, bond)) (hamount : bond'.amount = bond.amount)
    (hact : bond'.active = bond.active) :
    (r.put id bond').bonds.total staked = r.bonds.total staked ∧
      ∀ id', activeAt (r.put id bond') id' = activeAt r id' := by
  have hb := (ownBond_ok.mp hown).2
  refine ⟨?_, fun id' => ?_⟩
  · have hsum := Keyed.total_insert staked bond' hb
    have hstake : staked bond' = staked bond := by
      unfold staked
      rw [hamount, hact]
    show Keyed.total staked (r.bonds.insert id bond') = _
    omega
  · rw [activeAt_put]
    by_cases h : id' = id
    · rw [if_pos h, hact, h]
      unfold activeAt
      rw [hb, Option.any_some]
    · rw [if_neg h]

/-- An active bond counts for one until it is paid out. -/
theorem paid_out {r : BondRegistry} {id₀ : Bytes32} {bond : Bond}
    (hb : r.bonds.lookup id₀ = some bond) (hact : bond.active = true) (id : Bytes32) :
    0 + activeAt r id =
      (if some id₀ = some id then 1 else 0) + if id = id₀ then 0 else activeAt r id := by
  by_cases hid : id = id₀
  · have hone : activeAt r id₀ = 1 := by
      unfold activeAt
      rw [hb, Option.any_some, hact]
      rfl
    rw [hid, if_pos rfl, if_pos rfl, hone]
  · rw [if_neg hid, if_neg fun e => hid (Option.some.inj e).symm]

/-- What one call adds to the two sides, in all and for one bond. -/
theorem conserved_effect {r r' : BondRegistry} {call : BondCall} {reply : BondReply}
    (hfresh : FreshId C r call.op) (h : Effect C r call.time call.op reply r') :
    (BondEvent.deposited ⟨call, aboutBond C r call.op, reply⟩ + r.bonds.total staked =
      BondEvent.withdrawn ⟨call, aboutBond C r call.op, reply⟩ +
        BondEvent.slashed ⟨call, aboutBond C r call.op, reply⟩ + r'.bonds.total staked) ∧
    ∀ id, BondEvent.deposits id ⟨call, aboutBond C r call.op, reply⟩ + activeAt r id =
      BondEvent.payouts id ⟨call, aboutBond C r call.op, reply⟩ + activeAt r' id := by
  obtain ⟨t, op⟩ := call
  cases h with
  | refused e =>
      cases op <;> simp [BondEvent.deposited, BondEvent.withdrawn, BondEvent.slashed,
        BondEvent.deposits, BondEvent.payouts]
  | @deposited o amount nonce hpos hmax hnone =>
      refine ⟨?_, fun id => ?_⟩
      · have hsum := Keyed.total_insert_new staked (freshBond C o amount nonce) hfresh
        simp only [BondEvent.deposited, BondEvent.withdrawn, BondEvent.slashed, Nat.zero_add]
        exact hsum.symm
      · have hput : activeAt (r.enter (freshBond C o amount nonce)) id =
            activeAt (r.put (newBondId C o amount nonce) (freshBond C o amount nonce)) id := rfl
        have hnew : r.bonds.lookup (newBondId C o amount nonce) = none :=
          AList.lookup_eq_none.mpr hfresh
        rw [hput, activeAt_put]
        simp only [BondEvent.deposits, BondEvent.payouts, aboutBond, Option.some.injEq,
          Nat.zero_add]
        by_cases hid : id = newBondId C o amount nonce
        · rw [if_pos hid.symm, if_pos hid, hid]
          unfold activeAt
          rw [hnew]
          rfl
        · rw [if_neg fun e => hid e.symm, if_neg hid, Nat.zero_add]
  | @registered o id₀ amount total bond hown hact hadd hle =>
      obtain ⟨htotal, heach⟩ := stakes_put { bond with offlineExposure := total } hown rfl rfl
      rw [htotal]
      exact ⟨rfl, fun id => congrArg (0 + ·) (heach id).symm⟩
  | @settled o id₀ amount bond hown =>
      obtain ⟨htotal, heach⟩ := stakes_put
        { bond with offlineExposure := saturatingSub bond.offlineExposure amount } hown rfl rfl
      rw [htotal]
      exact ⟨rfl, fun id => congrArg (0 + ·) (heach id).symm⟩
  | @slashed o id₀ a b₀ bond hne hown hact =>
      obtain ⟨ho, hb⟩ := ownBond_ok.mp hown
      have hstake : staked bond = bond.amount.toNat := if_pos hact
      refine ⟨?_, fun id => ?_⟩
      · have hsum := Keyed.total_insert staked { bond with active := false } hb
        have hnone : staked { bond with active := false } = 0 := rfl
        simp only [BondEvent.deposited, BondEvent.withdrawn, BondEvent.slashed]
        show _ = _ + Keyed.total staked (r.bonds.insert id₀ { bond with active := false })
        omega
      · have hpays : BondEvent.payouts id ⟨⟨t, .slash o a b₀⟩, aboutBond C r (.slash o a b₀),
            .amount bond.amount⟩ = if r.ownerBonds.lookup o = some id then 1 else 0 := rfl
        rw [hpays, ho, activeAt_put]
        exact paid_out hb hact id
  | @requested o id₀ bond reply hown hact hexp hreply =>
      obtain ⟨htotal, heach⟩ := stakes_put { bond with withdrawalRequestedAt := t } hown rfl rfl
      rw [htotal]
      rcases hreply with rfl | ⟨v, rfl⟩
      · exact ⟨rfl, fun id => congrArg (0 + ·) (heach id).symm⟩
      · exact ⟨rfl, fun id => congrArg (0 + ·) (heach id).symm⟩
  | @withdrawn o id₀ bond hown hact hreq hlock hexp =>
      obtain ⟨ho, hb⟩ := ownBond_ok.mp hown
      have hstake : staked bond = bond.amount.toNat := if_pos hact
      refine ⟨?_, fun id => ?_⟩
      · have hsum := Keyed.total_erase staked hb
        simp only [BondEvent.deposited, BondEvent.withdrawn, BondEvent.slashed]
        show _ = _ + Keyed.total staked (r.bonds.erase id₀)
        omega
      · have hpays : BondEvent.payouts id ⟨⟨t, .withdraw o⟩, aboutBond C r (.withdraw o),
            .amount bond.amount⟩ = if r.ownerBonds.lookup o = some id then 1 else 0 := rfl
        rw [hpays, ho, activeAt_remove]
        exact paid_out hb hact id

theorem conserved_step {call : BondCall} (hI : Conserved b) (hfresh : Fresh C b call)
    (h : (machine C).step b call = some b') : Conserved b' := by
  obtain ⟨heff, hlog⟩ := step_some h
  obtain ⟨htotal, heach⟩ := conserved_effect hfresh heff
  refine ⟨?_, fun id => ?_⟩
  · have := hI.total
    rw [hlog, sumOver_cons, sumOver_cons, sumOver_cons]
    omega
  · have := hI.each id
    have hid := heach id
    rw [hlog, sumOver_cons, sumOver_cons]
    omega

/-- **Collateral is conserved.** Over every run from an empty registry, what was deposited is
    what was withdrawn, what was slashed and what is staked now; and each bond is paid out, by
    withdrawal or by slashing, as often as it was deposited and is not staked any more. -/
theorem collateral_conserved (lock : UInt64) (calls : List BondCall) {b : Books}
    (hfresh : (machine C).AllSteps (Fresh C) (start lock) calls)
    (hrun : (machine C).run (start lock) calls = some b) :
    sumOver BondEvent.deposited b.log =
        sumOver BondEvent.withdrawn b.log + sumOver BondEvent.slashed b.log +
          b.registry.bonds.total staked ∧
      ∀ id, sumOver (BondEvent.payouts id) b.log ≤ sumOver (BondEvent.deposits id) b.log := by
  have hI : Conserved b := (machine C).run_invariant_of
    (fun _ _ _ hI hf h => conserved_step hI hf h) calls _ b (conserved_start lock) hfresh hrun
  refine ⟨hI.total, fun id => ?_⟩
  have := hI.each id
  omega

/-- Of 1470 deposited in all, 1000 were slashed, 70 withdrawn, and 400 are staked. -/
theorem collateral_conserved_two_deposits :
    ∃ b, (machine sampleSuite).run (start 604800) sampleCalls = some b ∧
      sumOver BondEvent.deposited b.log = 1470 ∧
      sumOver BondEvent.withdrawn b.log + sumOver BondEvent.slashed b.log +
        b.registry.bonds.total staked = 1470 := by
  have hrun : ((machine sampleSuite).run (start 604800) sampleCalls).map (fun b =>
      decide (sumOver BondEvent.deposited b.log = 1470)) = some true := by
    decide +kernel
  obtain ⟨b, hb, hfacts⟩ := Option.map_eq_some_iff.mp hrun
  have hsum := of_decide_eq_true hfacts
  have hfresh : (machine sampleSuite).AllSteps (Fresh sampleSuite) (start 604800) sampleCalls := by
    decide +kernel
  have hcons := (collateral_conserved 604800 sampleCalls hfresh hb).1
  exact ⟨b, hb, hsum, hcons.symm.trans hsum⟩

end Books

end Specter
