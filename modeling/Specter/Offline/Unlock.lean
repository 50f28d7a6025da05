/-
  File:      Specter/Offline/Unlock.lean
  Subject:   WHETHER AN ANNOUNCED UNLOCK TIME IS HONOURED (`request_withdrawal`, `withdraw` of
             specter-offline/src/bonds.rs).

  A request answers with the time at which the lock period is over, and records its own time; the
  withdrawal forms the sum again. The time 0 stands for a request that was not made, and the first
  sum is not checked for overflow.

  * `Requestable` -- the registries in which an owner's request is granted;
  * `withdraw_requested_iff` -- when the withdrawal that follows a request is granted;
  * `unlock_honoured_iff` -- the announced time is honoured exactly where the request is not made
    at time 0 and the lock period does not lead beyond the end of time.
-/
import Specter.Offline.Bonds

namespace Specter

open Lib

variable {S P : Type} [Field S] [AddCommGroup P] [Module S P]

namespace BondRegistry

variable {r : BondRegistry} {o : Bytes32} {t : UInt64}

/-- The owner's bond is active and has nothing to settle. -/
def Requestable (r : BondRegistry) (o : Bytes32) : Prop :=
  ∃ bond, r.getBond o = some bond ∧ bond.active = true ∧ bond.offlineExposure = 0

/-- The request does not overflow, and the time it answers with is the first one at which a
    withdrawal is granted. -/
def UnlockHonoured (r : BondRegistry) (o : Bytes32) (t : UInt64) : Prop :=
  (r.requestWithdrawal o t).1 ≠ none ∧
    ∀ u, (r.requestWithdrawal o t).1 = some (.ok u) → ∀ t',
      (∃ amount, ((r.requestWithdrawal o t).2.withdraw o t').1 = .ok amount) ↔ u ≤ t'

theorem requestWithdrawal_granted {id : Bytes32} {bond : Bond}
    (hown : r.ownBond o = .ok (id, bond)) (hact : bond.active = true)
    (hexp : bond.offlineExposure = 0) :
    r.requestWithdrawal o t = ((checkedAdd t r.lockPeriodSecs).map .ok,
      r.put id { bond with withdrawalRequestedAt := t }) := by
  unfold requestWithdrawal
  rw [hown]
  dsimp only
  rw [if_neg (by rw [hact]; decide), if_neg (by rw [hexp]; decide)]

theorem requestWithdrawal_refused (h : ¬Requestable r o) :
    ∃ e, (r.requestWithdrawal o t).1 = some (.error e) := by
  unfold requestWithdrawal
  cases hown : r.ownBond o with
  | error e => exact ⟨e, rfl⟩
  | ok p =>
      obtain ⟨id, bond⟩ := p
      dsimp only
      by_cases hact : bond.active = false
      · rw [if_pos hact]
        exact ⟨_, rfl⟩
      · by_cases hexp : bond.offlineExposure > 0
        · rw [if_neg hact, if_pos hexp]
          exact ⟨_, rfl⟩
        · exact absurd ⟨bond, getBond_some.mpr ⟨id, hown⟩, active_of_not hact,
            exposure_of_not hexp⟩ h

/-- **The withdrawal after a request** is granted from the end of the lock period on, unless the
    request was made at time 0. -/
theorem withdraw_requested_iff {id : Bytes32} {bond : Bond} {t' : UInt64}
    (hown : r.ownBond o = .ok (id, bond)) (hact : bond.active = true)
    (hexp : bond.offlineExposure = 0) :
    (∃ amount, ((r.put id { bond with withdrawalRequestedAt := t }).withdraw o t').1 =
        .ok amount) ↔
      t ≠ 0 ∧ t.toNat + r.lockPeriodSecs.toNat ≤ t'.toNat := by
  have hlock : (r.put id { bond with withdrawalRequestedAt := t }).lockPeriodSecs =
    r.lockPeriodSecs := rfl
  unfold withdraw
  rw [ownBond_put hown]
  dsimp only
  rw [if_neg (by rw [hact]; decide), hlock]
  by_cases ht : t = 0
  · rw [if_pos ht]
    exact ⟨fun ⟨_, h⟩ => (nomatch h), fun h => absurd ht h.1⟩
  · rw [if_neg ht]
    cases hadd : checkedAdd t r.lockPeriodSecs with
    | none =>
        have hover : ¬t.toNat + r.lockPeriodSecs.toNat < 2 ^ 64 := by
          intro hlt
          unfold checkedAdd at hadd
          rw [if_pos hlt] at hadd
          cases hadd
        have ht' := t'.toNat_lt
        refine ⟨fun ⟨_, h⟩ => (nomatch h), fun h => ?_⟩
        omega
    | some u =>
        have hu := checkedAdd_some.mp hadd
        dsimp only
        by_cases hlt : t' < u
        · rw [if_pos hlt]
          rw [UInt64.lt_iff_toNat_lt] at hlt
          refine ⟨fun ⟨_, h⟩ => (nomatch h), fun h => ?_⟩
          omega
        · rw [if_neg hlt, if_neg (by rw [hexp]; decide)]
          rw [UInt64.lt_iff_toNat_lt] at hlt
          exact ⟨fun _ => ⟨ht, by omega⟩, fun _ => ⟨_, rfl⟩⟩

/-- **When an announced unlock time is honoured**, in every registry, with every lock period: where
    the owner's request is refused, and where it is made at a time other than 0 from which the lock
    period does not lead beyond `u64::MAX`. -/
theorem unlock_honoured_iff (r : BondRegistry) (o : Bytes32) (t : UInt64) :
    UnlockHonoured r o t ↔
      (Requestable r o → t ≠ 0 ∧ t.toNat + r.lockPeriodSecs.toNat < 2 ^ 64) := by
  by_cases hreq : Requestable r o
  · obtain ⟨bond, hbond, hact, hexp⟩ := hreq
    obtain ⟨id, hown⟩ := getBond_some.mp hbond
    unfold UnlockHonoured
    rw [requestWithdrawal_granted hown hact hexp]
    constructor
    · rintro ⟨hsome, hall⟩ _
      obtain ⟨u, hu⟩ : ∃ u, checkedAdd t r.lockPeriodSecs = some u := by
        cases hadd : checkedAdd t r.lockPeriodSecs with
        | none => exact absurd (by rw [hadd]; rfl) hsome
        | some u => exact ⟨u, rfl⟩
      -- at the announced time itself the withdrawal is granted
      have hgranted := (hall u (by rw [hu]; rfl) u).mpr (UInt64.le_refl u)
      have hne := ((withdraw_requested_iff hown hact hexp).mp hgranted).1
      exact ⟨hne, checkedAdd_some.mp hu ▸ u.toNat_lt⟩
    · intro h
      obtain ⟨hne, hlt⟩ := h ⟨bond, hbond, hact, hexp⟩
      have hu : checkedAdd t r.lockPeriodSecs = some (t + r.lockPeriodSecs) := if_pos hlt
      rw [hu]
      refine ⟨fun h => (nomatch h), fun u heq t' => ?_⟩
      cases heq
      rw [withdraw_requested_iff hown hact hexp, ← checkedAdd_some.mp hu,
        UInt64.le_iff_toNat_le]
      exact ⟨fun h => h.2, fun h => ⟨hne, h⟩⟩
  · obtain ⟨e, he⟩ := requestWithdrawal_refused (t := t) hreq
    refine ⟨fun _ h => absurd h hreq, fun _ => ⟨?_, fun u hu => ?_⟩⟩
    · rw [he]
      exact fun h => (nomatch h)
    · rw [he] at hu
      cases hu

/-- A registry with one deposit, of the owner 1. -/
def oneDeposit (lock : UInt64) : BondRegistry :=
  (({ BondRegistry.new with lockPeriodSecs := lock } : BondRegistry).deposit sampleSuite
    (leArr 32 1) 100 (leArr 16 0)).2

/-- **A request that counts for none, and one that overflows.** After one deposit, with a lock
    period of 100 seconds: a request at time 0 announces the time 100, and no withdrawal is granted
    then; a request at the last second of all is recorded and overflows. -/
theorem request_at_zero_not_honoured :
    (((oneDeposit 100).requestWithdrawal (leArr 32 1) 0).1 = some (.ok 100) ∧
      (((oneDeposit 100).requestWithdrawal (leArr 32 1) 0).2.withdraw (leArr 32 1) 100).1 =
        .error .withdrawalNotRequested) ∧
    ((oneDeposit 100).requestWithdrawal (leArr 32 1) 18446744073709551615).1 = none ∧
    ¬UnlockHonoured (oneDeposit 100) (leArr 32 1) 0 ∧
    ¬UnlockHonoured (oneDeposit 100) (leArr 32 1) 18446744073709551615 := by
  have hzero : ((oneDeposit 100).requestWithdrawal (leArr 32 1) 0).1 = some (.ok 100) := by
    decide +kernel
  have hrefused : (((oneDeposit 100).requestWithdrawal (leArr 32 1) 0).2.withdraw
      (leArr 32 1) 100).1 = .error .withdrawalNotRequested := by
    decide +kernel
  have hlast : ((oneDeposit 100).requestWithdrawal (leArr 32 1) 18446744073709551615).1 = none := by
    decide +kernel
  refine ⟨⟨hzero, hrefused⟩, hlast, fun h => ?_, fun h => h.1 hlast⟩
  obtain ⟨amount, hamount⟩ := (h.2 100 hzero 100).mpr (UInt64.le_refl 100)
  rw [hrefused] at hamount
  cases hamount

end BondRegistry

end Specter
