/-
  File:      Specter/Offline/Bonds.lean
  Subject:   THE BOND REGISTRY (specter-offline/src/bonds.rs): deposits, the exposure they cover,
             slashing, and withdrawal after a lock period.

  Two maps: the bonds by their id, and the id of each owner's latest bond. A slashed bond stays
  in the first map until its owner deposits again and after. The nonce a deposit draws is an
  argument; `request_withdrawal` panics where its result overflows, with the request recorded.

  * `Effect`, `exec_effect` -- what one call can do to the registry, its guards included;
  * `RegistryInv` -- the two maps agree, and no bond is exposed beyond its amount;
    `registryInv_effect` -- every call with a fresh id keeps it;
  * `checkCoverage_iff` -- the check answers as the registration would;
  * `Effect.frame` -- a call leaves every other owner's bond alone.
-/
import Specter.Lib.Keyed
import Specter.Primitives.Suite

namespace Specter

open Lib

variable {S P : Type} [Field S] [AddCommGroup P] [Module S P]

structure Bond where
  bondId : Bytes32
  ownerId : Bytes32
  amount : UInt64
  active : Bool
  offlineExposure : UInt64
  withdrawalRequestedAt : UInt64
  deriving DecidableEq

inductive BondError where
  | noBond
  | bondSlashed
  | insufficientBond (available needed : UInt64)
  | exposureNotSettled (remaining : UInt64)
  | withdrawalNotRequested
  | lockPeriodNotElapsed
  | alreadyHasBond
  | insufficientEvidence
  | invalidAmount
  deriving DecidableEq

def BondError.display : BondError → String
  | .noBond => "no bond registered for this owner"
  | .bondSlashed => "bond has been slashed"
  | .insufficientBond available needed =>
      "insufficient bond: available " ++ toString available ++ ", needed " ++ toString needed
  | .exposureNotSettled remaining =>
      "cannot withdraw: offline exposure not settled (" ++ toString remaining ++ " remaining)"
  | .withdrawalNotRequested => "withdrawal not yet requested - call request_withdrawal first"
  | .lockPeriodNotElapsed =>
      "lock period has not elapsed - bond can still be slashed during this period"
  | .alreadyHasBond => "owner already has an active bond"
  | .insufficientEvidence =>
      "insufficient evidence for slash: must provide two distinct conflicting nullifiers"
  | .invalidAmount => "invalid bond amount: must be > 0 and <= MAX_BOND_AMOUNT"

structure BondRegistry where
  bonds : Keyed Bytes32 Bond
  ownerBonds : Keyed Bytes32 Bytes32
  lockPeriodSecs : UInt64

namespace BondRegistry

/-! ## 1. The operations -/

/-- `u64::checked_add`. -/
def checkedAdd (a b : UInt64) : Option UInt64 :=
  if a.toNat + b.toNat < 2 ^ 64 then some (a + b) else none

/-- `u64::saturating_sub`. -/
def saturatingSub (a b : UInt64) : UInt64 := if b ≤ a then a - b else 0

protected def new : BondRegistry where
  bonds := ∅
  ownerBonds := ∅
  lockPeriodSecs := 604800

/-- `u64::MAX / 2`. -/
def maxBondAmount : UInt64 := 9223372036854775807

def getBond (r : BondRegistry) (ownerId : Bytes32) : Option Bond :=
  (r.ownerBonds.lookup ownerId).bind fun bondId => r.bonds.lookup bondId

/-- The two lookups the operations on a bond start with. -/
def ownBond (r : BondRegistry) (ownerId : Bytes32) : Except BondError (Bytes32 × Bond) :=
  match r.ownerBonds.lookup ownerId with
  | none => .error .noBond
  | some bondId =>
      match r.bonds.lookup bondId with
      | none => .error .noBond
      | some bond => .ok (bondId, bond)

/-- The registry with another bond under the id. -/
def put (r : BondRegistry) (bondId : Bytes32) (bond : Bond) : BondRegistry :=
  { r with bonds := r.bonds.insert bondId bond }

/-- The id of a new bond: the hash of its owner, its amount and the nonce drawn. -/
def newBondId (C : Suite S P) (ownerId : Bytes32) (amount : UInt64) (nonce : ByteArr 16) :
    Bytes32 :=
  C.sha256 (ascii "specter-bond:" ++ ownerId.toList ++ le64 amount ++ nonce.toList)

def deposit (C : Suite S P) (r : BondRegistry) (ownerId : Bytes32) (amount : UInt64)
    (nonce : ByteArr 16) : Except BondError Bond × BondRegistry :=
  if amount = 0 then (.error .invalidAmount, r)
  else if amount > maxBondAmount then (.error .invalidAmount, r)
  else if (r.getBond ownerId).any (·.active) then (.error .alreadyHasBond, r)
  else
    let bondId := newBondId C ownerId amount nonce
    let bond : Bond :=
      { bondId := bondId
        ownerId := ownerId
        amount := amount
        active := true
        offlineExposure := 0
        withdrawalRequestedAt := 0 }
    (.ok bond,
      { r with
        bonds := r.bonds.insert bondId bond
        ownerBonds := r.ownerBonds.insert ownerId bondId })

def checkCoverage (r : BondRegistry) (ownerId : Bytes32) (tokenValue : UInt64) : Bool :=
  match r.getBond ownerId with
  | none => false
  | some bond =>
      if bond.active = false then false
      else
        match checkedAdd bond.offlineExposure tokenValue with
        | none => false
        | some total => decide (bond.amount ≥ total)

def registerOfflineSpend (r : BondRegistry) (ownerId : Bytes32) (amount : UInt64) :
    Except BondError Unit × BondRegistry :=
  match r.ownBond ownerId with
  | .error e => (.error e, r)
  | .ok (bondId, bond) =>
      if bond.active = false then (.error .bondSlashed, r)
      else
        match checkedAdd bond.offlineExposure amount with
        | none =>
            (.error (.insufficientBond (saturatingSub bond.amount bond.offlineExposure) amount), r)
        | some totalExposure =>
            if bond.amount < totalExposure then
              (.error (.insufficientBond (saturatingSub bond.amount bond.offlineExposure) amount),
                r)
            else (.ok (), r.put bondId { bond with offlineExposure := totalExposure })

/-- No check on `active`: a slashed bond is settled too. -/
def settle (r : BondRegistry) (ownerId : Bytes32) (amount : UInt64) :
    Except BondError Unit × BondRegistry :=
  match r.ownBond ownerId with
  | .error e => (.error e, r)
  | .ok (bondId, bond) =>
      (.ok (), r.put bondId
        { bond with offlineExposure := saturatingSub bond.offlineExposure amount })

def slash (r : BondRegistry) (ownerId evidenceNullifierA evidenceNullifierB : Bytes32) :
    Except BondError UInt64 × BondRegistry :=
  if evidenceNullifierA = evidenceNullifierB then (.error .insufficientEvidence, r)
  else
    match r.ownBond ownerId with
    | .error e => (.error e, r)
    | .ok (bondId, bond) =>
        if bond.active = false then (.error .bondSlashed, r)
        else (.ok bond.amount, r.put bondId { bond with active := false })

/-- The result is `none` where `current_time + lock_period_secs` overflows: the request is
    recorded before the sum is formed. -/
def requestWithdrawal (r : BondRegistry) (ownerId : Bytes32) (currentTime : UInt64) :
    Option (Except BondError UInt64) × BondRegistry :=
  match r.ownBond ownerId with
  | .error e => (some (.error e), r)
  | .ok (bondId, bond) =>
      if bond.active = false then (some (.error .bondSlashed), r)
      else if bond.offlineExposure > 0 then
        (some (.error (.exposureNotSettled bond.offlineExposure)), r)
      else
        ((checkedAdd currentTime r.lockPeriodSecs).map .ok,
          r.put bondId { bond with withdrawalRequestedAt := currentTime })

def withdraw (r : BondRegistry) (ownerId : Bytes32) (currentTime : UInt64) :
    Except BondError UInt64 × BondRegistry :=
  match r.ownBond ownerId with
  | .error e => (.error e, r)
  | .ok (bondId, bond) =>
      if bond.active = false then (.error .bondSlashed, r)
      else if bond.withdrawalRequestedAt = 0 then (.error .withdrawalNotRequested, r)
      else
        match checkedAdd bond.withdrawalRequestedAt r.lockPeriodSecs with
        | none => (.error .lockPeriodNotElapsed, r)
        | some unlockTime =>
            if currentTime < unlockTime then (.error .lockPeriodNotElapsed, r)
            else if bond.offlineExposure > 0 then
              (.error (.exposureNotSettled bond.offlineExposure), r)
            else
              (.ok bond.amount,
                { r with
                  bonds := r.bonds.erase bondId
                  ownerBonds := r.ownerBonds.erase ownerId })

end BondRegistry

/-! ## 2. One call -/

inductive BondOp where
  | deposit (ownerId : Bytes32) (amount : UInt64) (nonce : ByteArr 16)
  | registerOfflineSpend (ownerId : Bytes32) (amount : UInt64)
  | settle (ownerId : Bytes32) (amount : UInt64)
  | slash (ownerId evidenceNullifierA evidenceNullifierB : Bytes32)
  | requestWithdrawal (ownerId : Bytes32)
  | withdraw (ownerId : Bytes32)

def BondOp.ownerId : BondOp → Bytes32
  | .deposit o _ _ => o
  | .registerOfflineSpend o _ => o
  | .settle o _ => o
  | .slash o _ _ => o
  | .requestWithdrawal o => o
  | .withdraw o => o

/-- A call and the time it is made at, which is the `current_time` of the two calls that take
    one. -/
structure BondCall where
  time : UInt64
  op : BondOp

inductive BondReply where
  | refused (e : BondError)
  | deposited (bond : Bond)
  | done
  | amount (value : UInt64)
  | panicked
  deriving DecidableEq

namespace BondRegistry

/-- The answer of an operation with its value read by `f`. -/
def replyOf {α : Type} (f : α → BondReply) : Except BondError α × BondRegistry →
    BondReply × BondRegistry
  | (.error e, r) => (.refused e, r)
  | (.ok a, r) => (f a, r)

def exec (C : Suite S P) (r : BondRegistry) (call : BondCall) : BondReply × BondRegistry :=
  match call.op with
  | .deposit o amount nonce => replyOf .deposited (r.deposit C o amount nonce)
  | .registerOfflineSpend o amount => replyOf (fun _ => .done) (r.registerOfflineSpend o amount)
  | .settle o amount => replyOf (fun _ => .done) (r.settle o amount)
  | .slash o a b => replyOf .amount (r.slash o a b)
  | .requestWithdrawal o =>
      match r.requestWithdrawal o call.time with
      | (none, r') => (.panicked, r')
      | (some res, r') => replyOf .amount (res, r')
  | .withdraw o => replyOf .amount (r.withdraw o call.time)

/-- The bond a deposit makes, and the registry that has it for its owner's. -/
def freshBond (C : Suite S P) (ownerId : Bytes32) (amount : UInt64) (nonce : ByteArr 16) :
    Bond where
  bondId := newBondId C ownerId amount nonce
  ownerId := ownerId
  amount := amount
  active := true
  offlineExposure := 0
  withdrawalRequestedAt := 0

def enter (r : BondRegistry) (bond : Bond) : BondRegistry :=
  { r with
    bonds := r.bonds.insert bond.bondId bond
    ownerBonds := r.ownerBonds.insert bond.ownerId bond.bondId }

def remove (r : BondRegistry) (ownerId bondId : Bytes32) : BondRegistry :=
  { r with bonds := r.bonds.erase bondId, ownerBonds := r.ownerBonds.erase ownerId }

/-- **What one call can do.** -/
inductive Effect (C : Suite S P) (r : BondRegistry) (t : UInt64) :
    BondOp → BondReply → BondRegistry → Prop where
  | refused {op : BondOp} (e : BondError) : Effect C r t op (.refused e) r
  | deposited {o : Bytes32} {amount : UInt64} {nonce : ByteArr 16}
      (hpos : amount ≠ 0) (hmax : amount ≤ maxBondAmount)
      (hnone : ∀ bond ∈ r.getBond o, bond.active = false) :
      Effect C r t (.deposit o amount nonce) (.deposited (freshBond C o amount nonce))
        (r.enter (freshBond C o amount nonce))
  | registered {o id : Bytes32} {amount total : UInt64} {bond : Bond}
      (hown : r.ownBond o = .ok (id, bond)) (hact : bond.active = true)
      (hadd : total.toNat = bond.offlineExposure.toNat + amount.toNat) (hle : total ≤ bond.amount) :
      Effect C r t (.registerOfflineSpend o amount) .done
        (r.put id { bond with offlineExposure := total })
  | settled {o id : Bytes32} {amount : UInt64} {bond : Bond}
      (hown : r.ownBond o = .ok (id, bond)) :
      Effect C r t (.settle o amount) .done
        (r.put id { bond with offlineExposure := saturatingSub bond.offlineExposure amount })
  | slashed {o id a b : Bytes32} {bond : Bond} (hne : a ≠ b)
      (hown : r.ownBond o = .ok (id, bond)) (hact : bond.active = true) :
      Effect C r t (.slash o a b) (.amount bond.amount) (r.put id { bond with active := false })
  | requested {o id : Bytes32} {bond : Bond} {reply : BondReply}
      (hown : r.ownBond o = .ok (id, bond)) (hact : bond.active = true)
      (hexp : bond.offlineExposure = 0)
      (hreply : reply = .panicked ∨ ∃ v, reply = .amount v) :
      Effect C r t (.requestWithdrawal o) reply
        (r.put id { bond with withdrawalRequestedAt := t })
  | withdrawn {o id : Bytes32} {bond : Bond}
      (hown : r.ownBond o = .ok (id, bond)) (hact : bond.active = true)
      (hreq : bond.withdrawalRequestedAt ≠ 0)
      (hlock : bond.withdrawalRequestedAt.toNat + r.lockPeriodSecs.toNat ≤ t.toNat)
      (hexp : bond.offlineExposure = 0) :
      Effect C r t (.withdraw o) (.amount bond.amount) (r.remove o id)

variable {C : Suite S P} {r r' : BondRegistry}

theorem checkedAdd_some {a b c : UInt64} :
    checkedAdd a b = some c ↔ c.toNat = a.toNat + b.toNat := by
  unfold checkedAdd
  constructor
  · intro h
    split at h
    · rename_i hlt
      cases h
      rw [UInt64.toNat_add, Nat.mod_eq_of_lt hlt]
    · cases h
  · intro h
    have hlt : a.toNat + b.toNat < 2 ^ 64 := h ▸ c.toNat_lt
    rw [if_pos hlt]
    refine congrArg some (UInt64.toNat_inj.mp ?_)
    rw [UInt64.toNat_add, Nat.mod_eq_of_lt hlt, h]

theorem saturatingSub_toNat (a b : UInt64) : (saturatingSub a b).toNat = a.toNat - b.toNat := by
  unfold saturatingSub
  by_cases h : b ≤ a
  · rw [if_pos h, UInt64.toNat_sub_of_le _ _ h]
  · rw [if_neg h]
    have hlt : a.toNat < b.toNat := UInt64.lt_iff_toNat_lt.mp (UInt64.not_le.mp h)
    show 0 = a.toNat - b.toNat
    omega

/-- An owner's bond found is the bond the two maps have for the owner. -/
theorem ownBond_ok {o id : Bytes32} {bond : Bond} :
    r.ownBond o = .ok (id, bond) ↔
      r.ownerBonds.lookup o = some id ∧ r.bonds.lookup id = some bond := by
  unfold ownBond
  cases ho : r.ownerBonds.lookup o with
  | none => simp
  | some id' =>
      dsimp only
      cases hb : r.bonds.lookup id' with
      | none =>
          simp only [Option.some.injEq, reduceCtorEq, false_iff, not_and]
          rintro rfl
          rw [hb]
          simp
      | some bond' =>
          simp only [Except.ok.injEq, Prod.mk.injEq, Option.some.injEq]
          constructor
          · rintro ⟨rfl, rfl⟩
            exact ⟨rfl, hb⟩
          · rintro ⟨rfl, h⟩
            rw [hb] at h
            exact ⟨rfl, Option.some.inj h⟩

theorem getBond_some {o : Bytes32} {bond : Bond} :
    r.getBond o = some bond ↔ ∃ id, r.ownBond o = .ok (id, bond) := by
  unfold getBond
  rw [Option.bind_eq_some_iff]
  exact exists_congr fun id => ownBond_ok.symm

theorem active_of_not {bond : Bond} (h : ¬ bond.active = false) : bond.active = true :=
  Bool.eq_true_of_not_eq_false h

theorem exposure_of_not {bond : Bond} (h : ¬ bond.offlineExposure > 0) :
    bond.offlineExposure = 0 := by
  simpa [UInt64.pos_iff_ne_zero] using h

theorem deposit_effect (o : Bytes32) (amount : UInt64) (nonce : ByteArr 16) (t : UInt64) :
    Effect C r t (.deposit o amount nonce) (replyOf .deposited (r.deposit C o amount nonce)).1
      (replyOf .deposited (r.deposit C o amount nonce)).2 := by
  unfold deposit
  split
  · exact .refused _
  · rename_i hpos
    split
    · exact .refused _
    · rename_i hmax
      split
      · exact .refused _
      · rename_i hnone
        refine .deposited hpos (UInt64.not_lt.mp hmax) fun bond hb => ?_
        rw [Option.mem_def.mp hb] at hnone
        simpa using hnone

theorem registerOfflineSpend_effect (o : Bytes32) (amount t : UInt64) :
    Effect C r t (.registerOfflineSpend o amount)
      (replyOf (fun _ => .done) (r.registerOfflineSpend o amount)).1
      (replyOf (fun _ => .done) (r.registerOfflineSpend o amount)).2 := by
  unfold registerOfflineSpend
  split
  · exact .refused _
  · rename_i id bond hown
    split
    · exact .refused _
    · rename_i hact
      split
      · exact .refused _
      · rename_i total hadd
        split
        · exact .refused _
        · rename_i hle
          exact .registered hown (active_of_not hact) (checkedAdd_some.mp hadd)
            (UInt64.not_lt.mp hle)

theorem settle_effect (o : Bytes32) (amount t : UInt64) :
    Effect C r t (.settle o amount) (replyOf (fun _ => .done) (r.settle o amount)).1
      (replyOf (fun _ => .done) (r.settle o amount)).2 := by
  unfold settle
  split
  · exact .refused _
  · rename_i id bond hown
    exact .settled hown

theorem slash_effect (o x y : Bytes32) (t : UInt64) :
    Effect C r t (.slash o x y) (replyOf .amount (r.slash o x y)).1
      (replyOf .amount (r.slash o x y)).2 := by
  unfold slash
  split
  · exact .refused _
  · rename_i hne
    split
    · exact .refused _
    · rename_i id bond hown
      split
      · exact .refused _
      · rename_i hact
        exact .slashed hne hown (active_of_not hact)

/-- The request is recorded also where the sum overflows. -/
theorem requestWithdrawal_effect (o : Bytes32) (t : UInt64) :
    Effect C r t (.requestWithdrawal o) (r.exec C ⟨t, .requestWithdrawal o⟩).1
      (r.exec C ⟨t, .requestWithdrawal o⟩).2 := by
  unfold exec
  dsimp only [requestWithdrawal]
  cases hown : r.ownBond o with
  | error e => exact .refused _
  | ok p =>
      obtain ⟨id, bond⟩ := p
      dsimp only
      by_cases hact : bond.active = false
      · rw [if_pos hact]
        exact .refused _
      · rw [if_neg hact]
        by_cases hexp : bond.offlineExposure > 0
        · rw [if_pos hexp]
          exact .refused _
        · rw [if_neg hexp]
          have hact' := active_of_not hact
          have hzero := exposure_of_not hexp
          cases checkedAdd t r.lockPeriodSecs with
          | none => exact .requested hown hact' hzero (.inl rfl)
          | some v => exact .requested hown hact' hzero (.inr ⟨v, rfl⟩)

theorem withdraw_effect (o : Bytes32) (t : UInt64) :
    Effect C r t (.withdraw o) (replyOf .amount (r.withdraw o t)).1
      (replyOf .amount (r.withdraw o t)).2 := by
  unfold withdraw
  split
  · exact .refused _
  · rename_i id bond hown
    split
    · exact .refused _
    · rename_i hact
      split
      · exact .refused _
      · rename_i hreq
        split
        · exact .refused _
        · rename_i unlock hadd
          split
          · exact .refused _
          · rename_i hlock
            split
            · exact .refused _
            · rename_i hexp
              have hle : unlock.toNat ≤ t.toNat :=
                UInt64.le_iff_toNat_le.mp (UInt64.not_lt.mp hlock)
              rw [checkedAdd_some.mp hadd] at hle
              exact .withdrawn hown (active_of_not hact) hreq hle (exposure_of_not hexp)

/-- **Every call has one of these effects.** -/
theorem exec_effect (C : Suite S P) (r : BondRegistry) (call : BondCall) :
    Effect C r call.time call.op (r.exec C call).1 (r.exec C call).2 := by
  obtain ⟨t, op⟩ := call
  cases op with
  | deposit o amount nonce => exact deposit_effect o amount nonce t
  | registerOfflineSpend o amount => exact registerOfflineSpend_effect o amount t
  | settle o amount => exact settle_effect o amount t
  | slash o x y => exact slash_effect o x y t
  | requestWithdrawal o => exact requestWithdrawal_effect o t
  | withdraw o => exact withdraw_effect o t

/-! ## 3. The two maps agree -/

/-- What holds of the two maps: an owner's entry leads to a bond of that owner, an active bond is
    its owner's entry, and no bond is exposed beyond its amount. -/
structure RegistryInv (r : BondRegistry) : Prop where
  mapped : ∀ o id, r.ownerBonds.lookup o = some id →
    ∃ bond, r.bonds.lookup id = some bond ∧ bond.ownerId = o
  active : ∀ id bond, r.bonds.lookup id = some bond → bond.active = true →
    r.ownerBonds.lookup bond.ownerId = some id
  bounded : ∀ id bond, r.bonds.lookup id = some bond →
    bond.offlineExposure ≤ bond.amount ∧ bond.amount ≤ maxBondAmount

theorem registryInv_empty {lock : UInt64} : RegistryInv ⟨∅, ∅, lock⟩ := by
  refine ⟨fun o id h => ?_, fun id bond h _ => ?_, fun id bond h => ?_⟩
  · rw [AList.lookup_empty] at h
    cases h
  · rw [AList.lookup_empty] at h
    cases h
  · rw [AList.lookup_empty] at h
    cases h

theorem RegistryInv.ownerId (hI : RegistryInv r) {o id : Bytes32} {bond : Bond}
    (hown : r.ownBond o = .ok (id, bond)) : bond.ownerId = o := by
  obtain ⟨ho, hb⟩ := ownBond_ok.mp hown
  obtain ⟨bond', hb', howner⟩ := hI.mapped o id ho
  rw [hb] at hb'
  cases hb'
  exact howner

theorem lookup_put {id id' : Bytes32} {bond : Bond} :
    (r.put id bond).bonds.lookup id' = if id' = id then some bond else r.bonds.lookup id' := by
  unfold put
  by_cases h : id' = id
  · rw [if_pos h, h]
    exact AList.lookup_insert _
  · rw [if_neg h]
    exact AList.lookup_insert_ne h

/-- Rewriting an owner's bond with no more life, the same amount, and an exposure within it. -/
theorem RegistryInv.put (hI : RegistryInv r) {o id : Bytes32} {bond bond' : Bond}
    (hown : r.ownBond o = .ok (id, bond)) (howner : bond'.ownerId = bond.ownerId)
    (hamount : bond'.amount = bond.amount) (hact : bond'.active = true → bond.active = true)
    (hexp : bond'.offlineExposure ≤ bond.amount) : RegistryInv (r.put id bond') := by
  obtain ⟨ho, hb⟩ := ownBond_ok.mp hown
  refine ⟨fun o' id' h => ?_, fun id' b h ha => ?_, fun id' b h => ?_⟩
  · obtain ⟨b, hb', howner'⟩ := hI.mapped o' id' h
    rw [lookup_put]
    by_cases hid : id' = id
    · rw [hid, hb] at hb'
      cases hb'
      exact ⟨bond', if_pos hid, howner.trans howner'⟩
    · exact ⟨b, (if_neg hid).trans hb', howner'⟩
  · rw [lookup_put] at h
    split at h
    · rename_i hid
      cases h
      rw [hid, howner]
      exact hI.active id bond hb (hact ha)
    · exact hI.active id' b h ha
  · rw [lookup_put] at h
    split at h
    · cases h
      rw [hamount]
      exact ⟨hexp, (hI.bounded id bond hb).2⟩
    · exact hI.bounded id' b h

/-- A new bond under an id that is not in use. -/
theorem RegistryInv.enter (hI : RegistryInv r) {bond : Bond} (hfresh : bond.bondId ∉ r.bonds)
    (hnone : ∀ b ∈ r.getBond bond.ownerId, b.active = false)
    (hexp : bond.offlineExposure ≤ bond.amount) (hmax : bond.amount ≤ maxBondAmount) :
    RegistryInv (r.enter bond) := by
  have hlook : ∀ id, (r.enter bond).bonds.lookup id =
      if id = bond.bondId then some bond else r.bonds.lookup id := fun id => lookup_put
  have hnew : r.bonds.lookup bond.bondId = none := AList.lookup_eq_none.mpr hfresh
  have hold : ∀ o id, o ≠ bond.ownerId → r.ownerBonds.lookup o = some id →
      (r.enter bond).ownerBonds.lookup o = some id := fun o id hne h =>
    (AList.lookup_insert_ne hne).trans h
  refine ⟨fun o id h => ?_, fun id b h ha => ?_, fun id b h => ?_⟩
  · by_cases ho : o = bond.ownerId
    · rw [ho] at h
      cases (AList.lookup_insert r.ownerBonds).symm.trans h
      exact ⟨bond, (hlook _).trans (if_pos rfl), ho.symm⟩
    · obtain ⟨b, hb, howner⟩ := hI.mapped o id ((AList.lookup_insert_ne ho).symm.trans h)
      have hid : id ≠ bond.bondId := by
        intro e
        rw [e, hnew] at hb
        cases hb
      exact ⟨b, (hlook id).trans ((if_neg hid).trans hb), howner⟩
  · rw [hlook] at h
    split at h
    · rename_i hid
      cases h
      rw [hid]
      exact AList.lookup_insert _
    · have hmap := hI.active id b h ha
      refine hold _ _ (fun e => ?_) hmap
      rw [e] at hmap
      have hdead := hnone b (getBond_some.mpr ⟨id, ownBond_ok.mpr ⟨hmap, h⟩⟩)
      rw [ha] at hdead
      cases hdead
  · rw [hlook] at h
    split at h
    · cases h
      exact ⟨hexp, hmax⟩
    · exact hI.bounded id b h

/-- An owner's bond taken out of both maps. -/
theorem RegistryInv.remove (hI : RegistryInv r) {o id : Bytes32} {bond : Bond}
    (hown : r.ownBond o = .ok (id, bond)) : RegistryInv (r.remove o id) := by
  obtain ⟨ho, hb⟩ := ownBond_ok.mp hown
  have hlook : ∀ id' b, (r.remove o id).bonds.lookup id' = some b →
      id' ≠ id ∧ r.bonds.lookup id' = some b := by
    intro id' b h
    by_cases hid : id' = id
    · rw [hid] at h
      cases (AList.lookup_erase id r.bonds).symm.trans h
    · exact ⟨hid, (AList.lookup_erase_ne hid).symm.trans h⟩
  refine ⟨fun o' id' h => ?_, fun id' b h ha => ?_, fun id' b h => ?_⟩
  · by_cases ho' : o' = o
    · rw [ho'] at h
      cases (AList.lookup_erase o r.ownerBonds).symm.trans h
    · obtain ⟨b, hb', howner⟩ := hI.mapped o' id' ((AList.lookup_erase_ne ho').symm.trans h)
      refine ⟨b, (AList.lookup_erase_ne fun e => ?_).trans hb', howner⟩
      rw [e, hb] at hb'
      cases hb'
      exact ho' (howner.symm.trans (hI.ownerId hown))
  · obtain ⟨hid, hb'⟩ := hlook id' b h
    have hmap := hI.active id' b hb' ha
    refine (AList.lookup_erase_ne fun e => ?_).trans hmap
    rw [e, ho] at hmap
    exact hid (Option.some.inj hmap).symm
  · exact hI.bounded id' b (hlook id' b h).2

/-- The id a deposit draws is not in use; the other calls draw none. -/
def FreshId (C : Suite S P) (r : BondRegistry) : BondOp → Prop
  | .deposit o amount nonce => newBondId C o amount nonce ∉ r.bonds
  | _ => True

instance (r : BondRegistry) : ∀ op, Decidable (FreshId C r op)
  | .deposit _ _ _ => inferInstanceAs (Decidable (¬ _))
  | .registerOfflineSpend _ _ => .isTrue trivial
  | .settle _ _ => .isTrue trivial
  | .slash _ _ _ => .isTrue trivial
  | .requestWithdrawal _ => .isTrue trivial
  | .withdraw _ => .isTrue trivial

/-- **Every call keeps the two maps in agreement.** -/
theorem registryInv_effect {t : UInt64} {op : BondOp} {reply : BondReply} (hI : RegistryInv r)
    (hfresh : FreshId C r op) (h : Effect C r t op reply r') : RegistryInv r' := by
  cases h with
  | refused e => exact hI
  | deposited hpos hmax hnone => exact hI.enter hfresh hnone UInt64.zero_le hmax
  | @registered o id amount total bond hown hact hadd hle =>
      exact hI.put hown rfl rfl (fun h => h) hle
  | @settled o id amount bond hown =>
      refine hI.put hown rfl rfl (fun h => h) (UInt64.le_iff_toNat_le.mpr ?_)
      have hle := UInt64.le_iff_toNat_le.mp (hI.bounded id bond (ownBond_ok.mp hown).2).1
      show (saturatingSub bond.offlineExposure amount).toNat ≤ bond.amount.toNat
      rw [saturatingSub_toNat]
      omega
  | @slashed o id a b bond hne hown hact =>
      exact hI.put hown rfl rfl (fun h => by cases h)
        (hI.bounded id bond (ownBond_ok.mp hown).2).1
  | @requested o id bond _ hown hact hexp hreply =>
      exact hI.put hown rfl rfl (fun h => h) (hI.bounded id bond (ownBond_ok.mp hown).2).1
  | withdrawn hown hact hreq hlock hexp => exact hI.remove hown

/-- **The check answers as the registration would.** -/
theorem checkCoverage_iff {o : Bytes32} {v : UInt64} :
    r.checkCoverage o v = true ↔ (r.registerOfflineSpend o v).1 = .ok () := by
  unfold checkCoverage registerOfflineSpend
  cases hown : r.ownBond o with
  | error e =>
      have hnone : r.getBond o = none := by
        refine Option.eq_none_iff_forall_ne_some.mpr fun bond hb => ?_
        obtain ⟨id, h⟩ := getBond_some.mp hb
        rw [hown] at h
        cases h
      simp [hnone]
  | ok p =>
      obtain ⟨id, bond⟩ := p
      rw [getBond_some.mpr ⟨id, hown⟩]
      dsimp only
      by_cases hact : bond.active = false
      · simp [hact]
      · rw [if_neg hact, if_neg hact]
        cases checkedAdd bond.offlineExposure v with
        | none => simp
        | some total =>
            by_cases hle : bond.amount < total
            · simp [hle]
            · simp [hle, UInt64.not_lt.mp hle]

/-! ## 4. The bonds of the other owners -/

/-- Where the two maps are unchanged on an owner's way, so is the owner's bond. -/
theorem ownBond_congr {o : Bytes32} (howner : r'.ownerBonds.lookup o = r.ownerBonds.lookup o)
    (hbond : ∀ id, r.ownerBonds.lookup o = some id → r'.bonds.lookup id = r.bonds.lookup id) :
    r'.ownBond o = r.ownBond o := by
  unfold ownBond
  rw [howner]
  cases h : r.ownerBonds.lookup o with
  | none => rfl
  | some id =>
      dsimp only
      rw [hbond id h]

theorem ownBond_put {o id : Bytes32} {bond bond' : Bond} (hown : r.ownBond o = .ok (id, bond)) :
    (r.put id bond').ownBond o = .ok (id, bond') :=
  ownBond_ok.mpr ⟨(ownBond_ok.mp hown).1, lookup_put.trans (if_pos rfl)⟩

theorem ownBond_remove {o id : Bytes32} : (r.remove o id).ownBond o = .error .noBond := by
  have hnone : (r.remove o id).ownerBonds.lookup o = none := AList.lookup_erase o r.ownerBonds
  unfold ownBond
  rw [hnone]

/-- Two owners' bonds have two ids. -/
theorem RegistryInv.id_ne (hI : RegistryInv r) {o o' id id' : Bytes32} {bond : Bond}
    (hown : r.ownBond o = .ok (id, bond)) (hne : o' ≠ o)
    (h : r.ownerBonds.lookup o' = some id') : id' ≠ id := by
  obtain ⟨bond', hb', howner⟩ := hI.mapped o' id' h
  intro e
  rw [e, (ownBond_ok.mp hown).2] at hb'
  cases hb'
  exact hne (howner.symm.trans (hI.ownerId hown))

/-- **A call leaves every other owner's bond alone.** -/
theorem Effect.frame {t : UInt64} {op : BondOp} {reply : BondReply} (hI : RegistryInv r)
    (hfresh : FreshId C r op) (h : Effect C r t op reply r') {o' : Bytes32}
    (hne : o' ≠ op.ownerId) : r'.ownBond o' = r.ownBond o' := by
  have hput : ∀ {id : Bytes32} {bond bond' : Bond}, r.ownBond op.ownerId = .ok (id, bond) →
      (r.put id bond').ownBond o' = r.ownBond o' := fun hown =>
    ownBond_congr rfl fun id' h' => lookup_put.trans (if_neg (hI.id_ne hown hne h'))
  cases h with
  | refused e => rfl
  | @deposited o amount nonce hpos hmax hnone =>
      refine ownBond_congr (AList.lookup_insert_ne hne) fun id' h' => ?_
      obtain ⟨bond', hb', _⟩ := hI.mapped o' id' h'
      refine AList.lookup_insert_ne fun e => hfresh ?_
      have hid : id' = newBondId C o amount nonce := e
      rw [← AList.lookup_isSome, ← hid, hb']
      rfl
  | registered hown hact hadd hle => exact hput hown
  | settled hown => exact hput hown
  | slashed hneq hown hact => exact hput hown
  | requested hown hact hexp hreply => exact hput hown
  | @withdrawn o id bond hown hact hreq hlock hexp =>
      refine ownBond_congr (AList.lookup_erase_ne hne) fun id' h' => ?_
      exact AList.lookup_erase_ne (hI.id_ne hown hne h')

/-- No call changes the lock period. -/
theorem Effect.lockPeriodSecs {t : UInt64} {op : BondOp} {reply : BondReply}
    (h : Effect C r t op reply r') : r'.lockPeriodSecs = r.lockPeriodSecs := by
  cases h <;> rfl

end BondRegistry

end Specter
