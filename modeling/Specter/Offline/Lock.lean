/-
  File:      Specter/Offline/Lock.lean
  Subject:   WHAT THE LOCK PERIOD COVERS: withdrawals of bonds and the offline spends before them
             (`request_withdrawal`, `withdraw`, `register_offline_spend` of
             specter-offline/src/bonds.rs).

  A request arms the bond with its time; `withdraw` waits for the lock period from there. A
  spend registered in between does not disarm the bond, and its settlement clears the way.

  * `spentSince`, `lastSpend` -- the spends of a bond since it was last armed, and the time of
    its last one, read off the log;
  * `LockKept` -- no withdrawal in the log without the lock period after the last spend;
  * `lockInv_step` -- a call that registers no spend on an armed bond keeps it so;
  * `lock_kept_of_unarmed` -- so do runs of such calls; and any spend on an armed bond can be
    followed by a settlement and a withdrawal that break it.
-/
import Specter.Offline.Collateral

namespace Specter

open Lib BondRegistry

variable {S P : Type} [Field S] [AddCommGroup P] [Module S P]

/-! ## 1. Spends and withdrawals in the log -/

namespace BondEvent

/-- An offline spend registered on the bond. -/
def spends (id : Bytes32) (e : BondEvent) : Bool :=
  match e.call.op, e.reply with
  | .registerOfflineSpend _ _, .done => decide (e.bondId = some id)
  | _, _ => false

/-- A request recorded on the bond. -/
def arms (id : Bytes32) (e : BondEvent) : Bool :=
  match e.call.op, e.reply with
  | .requestWithdrawal _, .amount _ => decide (e.bondId = some id)
  | .requestWithdrawal _, .panicked => decide (e.bondId = some id)
  | _, _ => false

def makes (id : Bytes32) (e : BondEvent) : Bool :=
  match e.call.op, e.reply with
  | .deposit _ _ _, .deposited _ => decide (e.bondId = some id)
  | _, _ => false

def withdraws (id : Bytes32) (e : BondEvent) : Bool :=
  match e.call.op, e.reply with
  | .withdraw _, .amount _ => decide (e.bondId = some id)
  | _, _ => false

end BondEvent

namespace Books

/-- A spend was registered on the bond after it was last armed. -/
def spentSince (id : Bytes32) : List BondEvent → Bool
  | [] => false
  | e :: log => e.spends id || (!e.arms id && !e.makes id && spentSince id log)

/-- The time of the last spend registered on the bond since it was made. -/
def lastSpend (id : Bytes32) : List BondEvent → Option UInt64
  | [] => none
  | e :: log =>
      if e.makes id then none else if e.spends id then some e.call.time else lastSpend id log

/-- No bond is withdrawn with a spend after its request, or before the lock period is over that
    starts with its last spend. -/
def LockKept (lock : UInt64) : List BondEvent → Prop
  | [] => True
  | e :: log =>
      (∀ id, e.withdraws id = true → spentSince id log = false ∧
        ∀ t ∈ lastSpend id log, t.toNat + lock.toNat ≤ e.call.time.toNat) ∧ LockKept lock log

/-- The time of the call is not before that of the last one. -/
def InOrder (b : Books) (call : BondCall) : Prop := ∀ e ∈ b.log.head?, e.call.time ≤ call.time

/-- The call does not register a spend on a bond whose withdrawal is requested. -/
def UnarmedSpend (b : Books) (call : BondCall) : Prop :=
  match call.op with
  | .registerOfflineSpend o amount =>
      b.registry.checkCoverage o amount = true →
        ∀ bond ∈ b.registry.getBond o, bond.withdrawalRequestedAt = 0
  | _ => True

instance (b : Books) (call : BondCall) : Decidable (InOrder b call) :=
  inferInstanceAs (Decidable (∀ e ∈ b.log.head?, e.call.time ≤ call.time))

instance (b : Books) : ∀ call, Decidable (UnarmedSpend b call)
  | ⟨_, .registerOfflineSpend o amount⟩ => inferInstanceAs (Decidable
      (b.registry.checkCoverage o amount = true →
        ∀ bond ∈ b.registry.getBond o, bond.withdrawalRequestedAt = 0))
  | ⟨_, .deposit _ _ _⟩ => .isTrue trivial
  | ⟨_, .settle _ _⟩ => .isTrue trivial
  | ⟨_, .slash _ _ _⟩ => .isTrue trivial
  | ⟨_, .requestWithdrawal _⟩ => .isTrue trivial
  | ⟨_, .withdraw _⟩ => .isTrue trivial

/-! ## 2. The invariant -/

/-- The log is in order, an armed bond was not spent against since, and the lock was kept. -/
structure LockInv (b : Books) : Prop where
  ordered : ∀ e ∈ b.log, ∀ last ∈ b.log.head?, e.call.time ≤ last.call.time
  armed : ∀ id bond, b.registry.bonds.lookup id = some bond → bond.withdrawalRequestedAt ≠ 0 →
    spentSince id b.log = false ∧ ∀ t ∈ lastSpend id b.log, t ≤ bond.withdrawalRequestedAt
  kept : LockKept b.registry.lockPeriodSecs b.log

theorem lockInv_start (lock : UInt64) : LockInv (start lock) := by
  refine ⟨fun e he => ?_, fun id bond h => ?_, trivial⟩
  · cases he
  · rw [show (start lock).registry.bonds = ∅ from rfl, AList.lookup_empty] at h
    cases h

theorem lastSpend_mem {id : Bytes32} {t : UInt64} : ∀ {log : List BondEvent},
    lastSpend id log = some t → ∃ e ∈ log, e.call.time = t
  | [], h => by cases h
  | e :: log, h => by
      unfold lastSpend at h
      split at h
      · cases h
      · split at h
        · exact ⟨e, List.mem_cons_self, Option.some.inj h⟩
        · obtain ⟨e', he', ht⟩ := lastSpend_mem h
          exact ⟨e', List.mem_cons_of_mem _ he', ht⟩

/-- An event that neither spends, arms nor makes the bond leaves its history as it was. -/
theorem history_other {id : Bytes32} {e : BondEvent} {log : List BondEvent}
    (hs : e.spends id = false) (ha : e.arms id = false) (hm : e.makes id = false) :
    spentSince id (e :: log) = spentSince id log ∧ lastSpend id (e :: log) = lastSpend id log := by
  simp [spentSince, lastSpend, hs, ha, hm]

/-- Nor does an event about another bond. -/
theorem history_about {id : Bytes32} {e : BondEvent} {log : List BondEvent}
    (hne : e.bondId ≠ some id) :
    spentSince id (e :: log) = spentSince id log ∧ lastSpend id (e :: log) = lastSpend id log := by
  refine history_other ?_ ?_ ?_
  · unfold BondEvent.spends
    split
    · exact decide_eq_false hne
    · rfl
  · unfold BondEvent.arms
    split
    · exact decide_eq_false hne
    · exact decide_eq_false hne
    · rfl
  · unfold BondEvent.makes
    split
    · exact decide_eq_false hne
    · rfl

/-- A request recorded on the bond ends the account of spends since it was armed. -/
theorem history_arms (id : Bytes32) {o : Bytes32} {time : UInt64} {reply : BondReply}
    {log : List BondEvent} (hreply : reply = .panicked ∨ ∃ v, reply = .amount v) :
    spentSince id (⟨⟨time, .requestWithdrawal o⟩, some id, reply⟩ :: log) = false ∧
      lastSpend id (⟨⟨time, .requestWithdrawal o⟩, some id, reply⟩ :: log) =
        lastSpend id log := by
  rcases hreply with rfl | ⟨v, rfl⟩
  · exact ⟨by simp [spentSince, BondEvent.spends, BondEvent.arms], rfl⟩
  · exact ⟨by simp [spentSince, BondEvent.spends, BondEvent.arms], rfl⟩

variable {C : Suite S P} {b b' : Books}

/-- A bond as armed as before stays unspent under an event that adds nothing to its history. -/
theorem armed_same {id : Bytes32} {e : BondEvent} {bond bond₀ : Bond} (hI : LockInv b)
    (hhist : spentSince id (e :: b.log) = spentSince id b.log ∧
      lastSpend id (e :: b.log) = lastSpend id b.log)
    (hb₀ : b.registry.bonds.lookup id = some bond₀)
    (hsame : bond.withdrawalRequestedAt = bond₀.withdrawalRequestedAt)
    (hreq : bond.withdrawalRequestedAt ≠ 0) :
    spentSince id (e :: b.log) = false ∧
      ∀ t ∈ lastSpend id (e :: b.log), t ≤ bond.withdrawalRequestedAt := by
  rw [hhist.1, hhist.2, hsame]
  exact hI.armed id bond₀ hb₀ (hsame ▸ hreq)

/-- A bond stays as armed as it is, and its history as it was, unless the call is about it. -/
theorem armed_other {r' : BondRegistry} {id id₀ : Bytes32} {e : BondEvent} {bond : Bond}
    (hI : LockInv b) (habout : e.bondId = some id₀) (hid : id ≠ id₀)
    (hlook : r'.bonds.lookup id = b.registry.bonds.lookup id)
    (hb : r'.bonds.lookup id = some bond) (hreq : bond.withdrawalRequestedAt ≠ 0) :
    spentSince id (e :: b.log) = false ∧
      ∀ t ∈ lastSpend id (e :: b.log), t ≤ bond.withdrawalRequestedAt := by
  have hne : e.bondId ≠ some id := fun h => hid (Option.some.inj (habout.symm.trans h)).symm
  exact armed_same hI (history_about hne) (hlook.symm.trans hb) rfl hreq

/-- Where one bond is rewritten, the call being about it, only that bond is to be looked at. -/
theorem armed_rewritten {r' : BondRegistry} {id id₀ : Bytes32} {e : BondEvent}
    {bond bond₁ : Bond} (hI : LockInv b) (habout : e.bondId = some id₀)
    (hlook : ∀ x, r'.bonds.lookup x = if x = id₀ then some bond₁ else b.registry.bonds.lookup x)
    (hb : r'.bonds.lookup id = some bond) (hreq : bond.withdrawalRequestedAt ≠ 0)
    (hself : bond₁.withdrawalRequestedAt ≠ 0 → spentSince id₀ (e :: b.log) = false ∧
      ∀ t ∈ lastSpend id₀ (e :: b.log), t ≤ bond₁.withdrawalRequestedAt) :
    spentSince id (e :: b.log) = false ∧
      ∀ t ∈ lastSpend id (e :: b.log), t ≤ bond.withdrawalRequestedAt := by
  by_cases hid : id = id₀
  · subst hid
    rw [hlook, if_pos rfl] at hb
    cases hb
    exact hself hreq
  · exact armed_other hI habout hid ((hlook id).trans (if_neg hid)) hb hreq

/-- **A call that spends on no armed bond leaves the armed bonds unspent.** -/
theorem armed_effect {call : BondCall} {reply : BondReply} {r' : BondRegistry} (hI : LockInv b)
    (htimes : ∀ e ∈ b.log, e.call.time ≤ call.time) (hunarmed : UnarmedSpend b call)
    (h : Effect C b.registry call.time call.op reply r') {id : Bytes32} {bond : Bond}
    (hb : r'.bonds.lookup id = some bond) (hreq : bond.withdrawalRequestedAt ≠ 0) :
    spentSince id (⟨call, aboutBond C b.registry call.op, reply⟩ :: b.log) = false ∧
      ∀ t ∈ lastSpend id (⟨call, aboutBond C b.registry call.op, reply⟩ :: b.log),
        t ≤ bond.withdrawalRequestedAt := by
  obtain ⟨time, op⟩ := call
  cases h with
  | refused e =>
      refine armed_same hI ?_ hb rfl hreq
      refine history_other ?_ ?_ ?_ <;> cases op <;> rfl
  | @deposited o amount nonce hpos hmax hnone =>
      by_cases hid : id = newBondId C o amount nonce
      · -- the new bond is not armed
        rw [hid] at hb
        cases (AList.lookup_insert _).symm.trans hb
        exact absurd rfl hreq
      · exact armed_other hI rfl hid (AList.lookup_insert_ne hid) hb hreq
  | @registered o id₀ amount total bond₀ hown hact hadd hle =>
      obtain ⟨ho, hb₀⟩ := ownBond_ok.mp hown
      refine armed_rewritten hI ho (fun _ => lookup_put) hb hreq fun hne => absurd ?_ hne
      -- a spend is on an unarmed bond
      have hcov : b.registry.checkCoverage o amount = true := by
        rw [checkCoverage_iff]
        unfold registerOfflineSpend
        rw [hown]
        dsimp only
        rw [if_neg (by simp [hact]), checkedAdd_some.mpr hadd]
        dsimp only
        rw [if_neg (UInt64.not_lt.mpr hle)]
      exact hunarmed hcov bond₀ (getBond_some.mpr ⟨id₀, hown⟩)
  | @settled o id₀ amount bond₀ hown =>
      obtain ⟨ho, hb₀⟩ := ownBond_ok.mp hown
      exact armed_rewritten hI ho (fun _ => lookup_put) hb hreq
        (armed_same hI (history_other rfl rfl rfl) hb₀ rfl)
  | @slashed o id₀ x y bond₀ hne hown hact =>
      obtain ⟨ho, hb₀⟩ := ownBond_ok.mp hown
      exact armed_rewritten hI ho (fun _ => lookup_put) hb hreq
        (armed_same hI (history_other rfl rfl rfl) hb₀ rfl)
  | @requested o id₀ bond₀ _ hown hact hexp hreply =>
      obtain ⟨ho, hb₀⟩ := ownBond_ok.mp hown
      refine armed_rewritten hI ho (fun _ => lookup_put) hb hreq fun _ => ?_
      -- the history starts anew, and every spend was before now
      rw [show aboutBond C b.registry (.requestWithdrawal o) = some id₀ from ho]
      obtain ⟨hspent, hlast⟩ := history_arms id₀ hreply
      refine ⟨hspent, fun t ht => ?_⟩
      obtain ⟨e, he, rfl⟩ := lastSpend_mem (hlast.symm.trans ht)
      exact htimes e he
  | @withdrawn o id₀ bond₀ hown hact hreq₀ hlock hexp =>
      obtain ⟨ho, hb₀⟩ := ownBond_ok.mp hown
      by_cases hid : id = id₀
      · rw [hid] at hb
        cases (AList.lookup_erase id₀ b.registry.bonds).symm.trans hb
      · exact armed_other hI ho hid (AList.lookup_erase_ne hid) hb hreq

/-- A bond withdrawn was armed, and the lock period was over. -/
theorem withdraws_effect {r r' : BondRegistry} {call : BondCall} {reply : BondReply}
    (h : Effect C r call.time call.op reply r') {id : Bytes32}
    (hw : BondEvent.withdraws id ⟨call, aboutBond C r call.op, reply⟩ = true) :
    ∃ bond, r.bonds.lookup id = some bond ∧ bond.withdrawalRequestedAt ≠ 0 ∧
      bond.withdrawalRequestedAt.toNat + r.lockPeriodSecs.toNat ≤ call.time.toNat := by
  obtain ⟨time, op⟩ := call
  cases h with
  | refused e => cases op <;> cases hw
  | deposited hpos hmax hnone => cases hw
  | registered hown hact hadd hle => cases hw
  | settled hown => cases hw
  | slashed hne hown hact => cases hw
  | requested hown hact hexp hreply => rcases hreply with rfl | ⟨v, rfl⟩ <;> cases hw
  | @withdrawn o id₀ bond hown hact hreq hlock hexp =>
      obtain ⟨ho, hb⟩ := ownBond_ok.mp hown
      have habout : r.ownerBonds.lookup o = some id := of_decide_eq_true hw
      rw [ho] at habout
      cases habout
      exact ⟨bond, hb, hreq, hlock⟩

/-- **A call in order that spends on no armed bond keeps the lock.** -/
theorem lockInv_step {call : BondCall} (hI : LockInv b) (horder : InOrder b call)
    (hunarmed : UnarmedSpend b call) (h : (machine C).step b call = some b') : LockInv b' := by
  obtain ⟨heff, hlog⟩ := step_some h
  have htimes : ∀ e ∈ b.log, e.call.time ≤ call.time := by
    intro e he
    cases hlast : b.log.head? with
    | none => rw [List.head?_eq_none_iff.mp hlast] at he; cases he
    | some last => exact UInt64.le_trans (hI.ordered e he last hlast) (horder last hlast)
  refine ⟨?_, fun id bond hb hreq => ?_, ?_⟩
  · rw [hlog]
    intro e he last hlast
    cases hlast
    cases he with
    | head => exact UInt64.le_refl _
    | tail _ he => exact htimes e he
  · rw [hlog]
    exact armed_effect hI htimes hunarmed heff hb hreq
  · rw [hlog, heff.lockPeriodSecs]
    refine ⟨fun id hw => ?_, hI.kept⟩
    obtain ⟨bond, hb, hreq, hlock⟩ := withdraws_effect heff hw
    obtain ⟨hspent, hlast⟩ := hI.armed id bond hb hreq
    refine ⟨hspent, fun t ht => ?_⟩
    exact Nat.le_trans (Nat.add_le_add_right (UInt64.le_iff_toNat_le.mp (hlast t ht)) _) hlock

theorem lockPeriodSecs_run {lock : UInt64} {calls : List BondCall}
    (hrun : (machine C).run (start lock) calls = some b) : b.registry.lockPeriodSecs = lock :=
  (machine C).run_invariant (I := fun b => b.registry.lockPeriodSecs = lock)
    (fun _ _ _ hI h => (step_some h).1.lockPeriodSecs.trans hI) calls _ b rfl hrun

/-! ## 3. A spend on an armed bond -/

theorem checkCoverage_inv {r : BondRegistry} {o id : Bytes32} {v : UInt64} {bond : Bond}
    (hown : r.ownBond o = .ok (id, bond)) (h : r.checkCoverage o v = true) :
    bond.active = true ∧ ∃ total, checkedAdd bond.offlineExposure v = some total ∧
      total ≤ bond.amount := by
  unfold checkCoverage at h
  rw [getBond_some.mpr ⟨id, hown⟩] at h
  dsimp only at h
  split at h
  · cases h
  · rename_i hact
    refine ⟨Bool.eq_true_of_not_eq_false hact, ?_⟩
    cases hadd : checkedAdd bond.offlineExposure v with
    | none => rw [hadd] at h; cases h
    | some total =>
        rw [hadd] at h
        exact ⟨total, rfl, of_decide_eq_true h⟩

/-- Settling a bond for its whole amount clears any exposure within it. -/
theorem saturatingSub_of_le {a b : UInt64} (h : a ≤ b) : saturatingSub a b = 0 := by
  refine UInt64.toNat_inj.mp ?_
  rw [saturatingSub_toNat, Nat.sub_eq_zero_of_le (UInt64.le_iff_toNat_le.mp h)]
  rfl

/-- **A spend on an armed bond, settled and followed by the withdrawal, breaks the lock.** -/
theorem armed_spend_breaks {o id : Bytes32} {v t₁ t₂ : UInt64} {bond : Bond}
    (hown : b.registry.ownBond o = .ok (id, bond)) (hreq : bond.withdrawalRequestedAt ≠ 0)
    (hcov : b.registry.checkCoverage o v = true)
    (hlock : bond.withdrawalRequestedAt.toNat + b.registry.lockPeriodSecs.toNat ≤ t₂.toNat) :
    ∃ b', (machine C).run b [⟨t₁, .registerOfflineSpend o v⟩, ⟨t₁, .settle o bond.amount⟩,
        ⟨t₂, .withdraw o⟩] = some b' ∧ ¬ LockKept b.registry.lockPeriodSecs b'.log := by
  obtain ⟨hact, total, hadd, hle⟩ := checkCoverage_inv hown hcov
  have ho := (ownBond_ok.mp hown).1
  have hregister : b.registry.exec C ⟨t₁, .registerOfflineSpend o v⟩ =
      (.done, b.registry.put id { bond with offlineExposure := total }) := by
    unfold exec registerOfflineSpend
    simp only [hown, hact, hadd, UInt64.not_lt.mpr hle, if_false, Bool.true_eq_false, replyOf]
  -- the registry after the spend, and after the settlement: the bond is as armed as before
  let r₁ := b.registry.put id { bond with offlineExposure := total }
  have hown₁ : r₁.ownBond o = .ok (id, { bond with offlineExposure := total }) := ownBond_put hown
  let r₂ := r₁.put id { bond with offlineExposure := 0 }
  have hsettle : r₁.exec C ⟨t₁, .settle o bond.amount⟩ = (.done, r₂) := by
    unfold exec settle
    simp only [hown₁, saturatingSub_of_le hle, replyOf]
    rfl
  have hown₂ : r₂.ownBond o = .ok (id, { bond with offlineExposure := 0 }) := ownBond_put hown₁
  have hwithdraw : (r₂.exec C ⟨t₂, .withdraw o⟩).1 = .amount bond.amount := by
    have hlt : bond.withdrawalRequestedAt.toNat + b.registry.lockPeriodSecs.toNat < 2 ^ 64 :=
      Nat.lt_of_le_of_lt hlock t₂.toNat_lt
    have hsum : checkedAdd bond.withdrawalRequestedAt r₂.lockPeriodSecs =
        some (bond.withdrawalRequestedAt + b.registry.lockPeriodSecs) := if_pos hlt
    have hdue : ¬ t₂ < bond.withdrawalRequestedAt + b.registry.lockPeriodSecs := by
      rw [UInt64.lt_iff_toNat_lt, UInt64.toNat_add, Nat.mod_eq_of_lt hlt]
      omega
    unfold exec withdraw
    simp only [hown₂, hact, hreq, hsum, hdue, if_false, Bool.true_eq_false, replyOf]
    rfl
  refine ⟨⟨(r₂.exec C ⟨t₂, .withdraw o⟩).2,
    [⟨⟨t₂, .withdraw o⟩, r₂.ownerBonds.lookup o, (r₂.exec C ⟨t₂, .withdraw o⟩).1⟩,
      ⟨⟨t₁, .settle o bond.amount⟩, r₁.ownerBonds.lookup o, .done⟩,
      ⟨⟨t₁, .registerOfflineSpend o v⟩, b.registry.ownerBonds.lookup o, .done⟩] ++ b.log⟩, ?_, ?_⟩
  · simp only [Machine.run, machine, hregister]
    rw [hsettle]
    rfl
  · rintro ⟨hkept, _⟩
    rw [hwithdraw] at hkept
    have hnot := (hkept id (decide_eq_true ho)).1
    simp [spentSince, BondEvent.spends, BondEvent.arms, BondEvent.makes, ho] at hnot

/-- **The lock covers every spend where none is registered on an armed bond.** In every run with
    times in order and no spend registered on a bond whose withdrawal is requested, a withdrawal
    comes with no spend after its request, and the lock period or more after the last spend the
    bond covered. From every registry reached, a spend on an armed bond with a settlement and a
    withdrawal after it breaks that, once the lock period that began with the request is over. -/
theorem lock_kept_of_unarmed (lock : UInt64) (calls : List BondCall) {b : Books}
    (horder : (machine C).AllSteps InOrder (start lock) calls)
    (hrun : (machine C).run (start lock) calls = some b) :
    ((machine C).AllSteps UnarmedSpend (start lock) calls → LockKept lock b.log) ∧
      ∀ o v t₁ t₂ bond, b.registry.getBond o = some bond → bond.withdrawalRequestedAt ≠ 0 →
        b.registry.checkCoverage o v = true →
        bond.withdrawalRequestedAt.toNat + lock.toNat ≤ t₂.toNat →
        ∃ b', (machine C).run b [⟨t₁, .registerOfflineSpend o v⟩, ⟨t₁, .settle o bond.amount⟩,
          ⟨t₂, .withdraw o⟩] = some b' ∧ ¬ LockKept lock b'.log := by
  have hlock := lockPeriodSecs_run hrun
  refine ⟨fun hunarmed => ?_, fun o v t₁ t₂ bond hbond hreq hcov hdue => ?_⟩
  · have hI : LockInv b := (machine C).run_invariant_of
      (fun _ _ _ hI hc h => lockInv_step hI hc.1 hc.2 h) calls _ b (lockInv_start lock)
      ((machine C).allSteps_and calls _ horder hunarmed) hrun
    rw [← hlock]
    exact hI.kept
  · obtain ⟨id, hown⟩ := getBond_some.mp hbond
    rw [← hlock] at hdue ⊢
    exact armed_spend_breaks hown hreq hcov hdue

/-- A bond staked, spent against, settled, and its withdrawal requested at 10. -/
def armedCalls : List BondCall :=
  let o : Bytes32 := leArr 32 1
  [⟨1, .deposit o 1000 (leArr 16 7)⟩, ⟨2, .registerOfflineSpend o 500⟩, ⟨3, .settle o 500⟩,
    ⟨10, .requestWithdrawal o⟩]

/-- The bond, left alone then, keeps the lock; a spend of 400 on it can be followed by its
    withdrawal a week after the request. -/
theorem lock_kept_of_unarmed_request :
    ∃ b b', (machine sampleSuite).run (start 604800) armedCalls = some b ∧
      LockKept 604800 b.log ∧
      (machine sampleSuite).run b [⟨604809, .registerOfflineSpend (leArr 32 1) 400⟩,
        ⟨604809, .settle (leArr 32 1) 1000⟩, ⟨604810, .withdraw (leArr 32 1)⟩] = some b' ∧
      ¬ LockKept 604800 b'.log := by
  have hrun : ((machine sampleSuite).run (start 604800) armedCalls).map (fun b =>
      decide ((b.registry.getBond (leArr 32 1)).map
          (fun bond => (bond.amount, bond.withdrawalRequestedAt)) = some (1000, 10) ∧
        b.registry.checkCoverage (leArr 32 1) 400 = true)) = some true := by
    decide +kernel
  obtain ⟨b, hb, hfacts⟩ := Option.map_eq_some_iff.mp hrun
  obtain ⟨hbond, hcov⟩ := of_decide_eq_true hfacts
  obtain ⟨bond, hget, hfields⟩ := Option.map_eq_some_iff.mp hbond
  obtain ⟨hamount, hreq⟩ := Prod.mk.inj hfields
  obtain ⟨hkept, hbreak⟩ := lock_kept_of_unarmed 604800 armedCalls (by decide +kernel) hb
  obtain ⟨b', hb', hnot⟩ := hbreak (leArr 32 1) 400 604809 604810 bond hget
    (by rw [hreq]; decide) hcov (by rw [hreq]; decide)
  rw [hamount] at hb'
  exact ⟨b, b', hb, hkept (by decide +kernel), hb', hnot⟩

/-- A bond whose withdrawal was requested at 10 is spent against at 604809, settled, and paid
    out a second later. -/
theorem withdrawn_a_second_after_spend :
    ¬ ∀ (calls : List BondCall) (b : Books),
      (machine sampleSuite).AllSteps InOrder (start 604800) calls →
      (machine sampleSuite).run (start 604800) calls = some b → LockKept 604800 b.log := by
  intro hall
  have hrun : ((machine sampleSuite).run (start 604800) (armedCalls ++
      [⟨604809, .registerOfflineSpend (leArr 32 1) 400⟩, ⟨604809, .settle (leArr 32 1) 400⟩,
        ⟨604810, .withdraw (leArr 32 1)⟩])).map (fun b => b.log.head?.any fun e =>
          e.bondId.any fun id => e.withdraws id && spentSince id b.log.tail) = some true := by
    decide +kernel
  obtain ⟨b, hb, hfacts⟩ := Option.map_eq_some_iff.mp hrun
  have hkept := hall _ b (by decide +kernel) hb
  cases hlog : b.log with
  | nil => rw [hlog] at hfacts; cases hfacts
  | cons e log =>
      rw [hlog] at hfacts hkept
      cases hid : e.bondId with
      | none => simp [hid] at hfacts
      | some id =>
          simp only [List.head?_cons, Option.any_some, hid, List.tail_cons, Bool.and_eq_true]
            at hfacts
          exact Bool.false_ne_true ((hkept.1 id hfacts.1).1.symm.trans hfacts.2)

end Books

end Specter
