/-
  File:      Specter/Core/Payments.lean
  Subject:   PAYMENTS BETWEEN WALLETS (`add_token`, `remove_token`, `select_token`, `take_token`,
             `balance` of specter-core/src/wallet.rs, with transfers and renewals).

  A payment takes the smallest token that covers the amount out of one wallet, transfers it and
  adds the result to another; a renewal takes a token out by its id and adds its replacement.
  The functions own the tokens they are given, so a token that an error or a full wallet stops is
  gone.

  * `takeToken_inv`, `selectToken_takeToken` -- what is taken; the reference and the owning
    variant choose the same token;
  * `balance_eq` -- the balance is the sum, cut off at 2^64 - 1;
  * `pursesInv_step` -- every call keeps the tokens honest, and their values and those of the lost
    ones equal to what was issued;
  * `payments_conserve` -- so does every run; where the draws are fresh, the tokens held are
    distinct and unspent, and where moreover no receiving wallet is full and every renewal has its
    signers, no token is lost;
  * `pay_hands_over` -- in such a run a payment succeeds exactly if some token covers it.
-/
import Mathlib.Algebra.BigOperators.Fin
import Mathlib.Algebra.Order.BigOperators.Group.Multiset
import Specter.Core.Wallet
import Specter.Lib.BestFit
import Specter.Lib.Machine

namespace Specter

open Lib

variable {S P : Type}

/-! ## 1. The operations of a wallet -/

/-- `u64::saturating_add`. -/
def saturatingAdd (a b : UInt64) : UInt64 :=
  if a.toNat + b.toNat < 2 ^ 64 then a + b else UInt64.ofNat (2 ^ 64 - 1)

namespace Wallet

protected def new : Wallet S P := ⟨[]⟩

def maxTokens : Nat := 100000

def addToken (w : Wallet S P) (token : ProofCarryingToken S P) : Bool × Wallet S P :=
  if w.tokens.length ≥ maxTokens then (false, w) else (true, ⟨w.tokens ++ [token]⟩)

def removeToken (w : Wallet S P) (tokenId : Bytes32) :
    Option (ProofCarryingToken S P) × Wallet S P :=
  match w.tokens.findIdx? fun t => decide (t.tokenId = tokenId) with
  | some pos => (w.tokens[pos]?, ⟨w.tokens.eraseIdx pos⟩)
  | none => (none, w)

def balance (w : Wallet S P) : UInt64 :=
  (w.tokens.map fun t => t.value).foldl saturatingAdd 0

def tokenCount (w : Wallet S P) : Nat := w.tokens.length

/-- The filter of `select_token` and `take_token`. -/
def covers (amount : UInt64) (t : ProofCarryingToken S P) : Bool :=
  decide (t.value ≥ amount) && !t.needsRenewal

def selectToken (w : Wallet S P) (amount : UInt64) : Option (ProofCarryingToken S P) :=
  (w.tokens.filter (covers amount)).argmin fun t => t.value.toNat

def takeToken (w : Wallet S P) (amount : UInt64) :
    Option (ProofCarryingToken S P) × Wallet S P :=
  match bestFit (fun t => t.value.toNat) (covers amount) w.tokens with
  | some (_, idx) => (w.tokens[idx]?, ⟨w.tokens.eraseIdx idx⟩)
  | none => (none, w)

def tokensNeedingRenewal (w : Wallet S P) : List (ProofCarryingToken S P) :=
  w.tokens.filter (·.needsRenewal)

def isEmpty (w : Wallet S P) : Bool := w.tokens.isEmpty

/-! ## 2. What they do -/

variable {w w' : Wallet S P} {t : ProofCarryingToken S P}

theorem addToken_true (h : w.addToken t = (true, w')) :
    w.tokens.length < maxTokens ∧ w' = ⟨w.tokens ++ [t]⟩ := by
  unfold addToken at h
  split at h
  · cases h
  · rename_i hroom
    cases h
    exact ⟨Nat.lt_of_not_le hroom, rfl⟩

theorem addToken_false (h : w.addToken t = (false, w')) :
    maxTokens ≤ w.tokens.length ∧ w' = w := by
  unfold addToken at h
  split at h
  · rename_i hfull
    cases h
    exact ⟨hfull, rfl⟩
  · cases h

theorem covers_iff {amount : UInt64} :
    covers amount t = true ↔ amount ≤ t.value ∧ t.needsRenewal = false := by
  simp [covers]

/-- **What is taken**: the first of the smallest tokens that cover the amount, and the rest stays
    in its order. -/
theorem takeToken_inv {amount : UInt64} (h : w.takeToken amount = (some t, w')) :
    ∃ pre post, w.tokens = pre ++ t :: post ∧ w'.tokens = pre ++ post ∧
      FirstLeast (fun t => t.value.toNat) (covers amount) pre t post := by
  unfold takeToken at h
  split at h
  · rename_i a i hbest
    obtain ⟨pre, post, hw, rfl, hleast⟩ := bestFit_some hbest
    rw [hw, getElem?_split, eraseIdx_split] at h
    cases h
    exact ⟨pre, post, hw, rfl, hleast⟩
  · cases h

theorem takeToken_none {amount : UInt64} (h : w.takeToken amount = (none, w')) :
    w' = w ∧ ∀ t ∈ w.tokens, covers amount t = false := by
  unfold takeToken at h
  split at h
  · rename_i a i hbest
    obtain ⟨pre, post, hw, rfl, _⟩ := bestFit_some hbest
    rw [hw, getElem?_split] at h
    cases h
  · rename_i hbest
    cases h
    exact ⟨rfl, bestFit_eq_none.mp hbest⟩

/-- **`take_token` takes what `select_token` shows.** -/
theorem selectToken_takeToken (w : Wallet S P) (amount : UInt64) :
    (w.takeToken amount).1 = w.selectToken amount := by
  unfold takeToken selectToken
  rw [← bestFit_entry]
  cases hbest : bestFit (fun t => t.value.toNat) (covers amount) w.tokens with
  | none => rfl
  | some p =>
      obtain ⟨a, i⟩ := p
      obtain ⟨pre, post, hw, rfl, _⟩ := bestFit_some hbest
      show w.tokens[pre.length]? = some a
      rw [hw, getElem?_split]

/-- What is removed is the first token with the id. -/
theorem removeToken_inv {tokenId : Bytes32} (h : w.removeToken tokenId = (some t, w')) :
    ∃ pre post, w.tokens = pre ++ t :: post ∧ w'.tokens = pre ++ post ∧ t.tokenId = tokenId ∧
      ∀ b ∈ pre, b.tokenId ≠ tokenId := by
  unfold removeToken at h
  split at h
  · rename_i pos hpos
    obtain ⟨hlt, hid, hbefore⟩ := List.findIdx?_eq_some_iff_getElem.mp hpos
    have hsplit : w.tokens = w.tokens.take pos ++ w.tokens[pos] :: w.tokens.drop (pos + 1) := by
      rw [List.getElem_cons_drop, List.take_append_drop]
    rw [List.getElem?_eq_getElem hlt] at h
    cases h
    refine ⟨w.tokens.take pos, w.tokens.drop (pos + 1), hsplit, List.eraseIdx_eq_take_drop_succ _ _,
      of_decide_eq_true hid, fun b hb he => ?_⟩
    obtain ⟨j, hj, rfl⟩ := List.mem_take_iff_getElem.mp hb
    exact hbefore j (by omega) (decide_eq_true he)
  · cases h

theorem toNat_saturatingAdd (a b : UInt64) :
    (saturatingAdd a b).toNat = min (2 ^ 64 - 1) (a.toNat + b.toNat) := by
  have ha := a.toNat_lt
  have hb := b.toNat_lt
  unfold saturatingAdd
  split
  · rename_i hlt
    rw [UInt64.toNat_add, Nat.mod_eq_of_lt hlt]
    omega
  · rw [UInt64.toNat_ofNat']
    omega

theorem toNat_foldl_saturatingAdd (vs : List UInt64) : ∀ acc : UInt64,
    (vs.foldl saturatingAdd acc).toNat =
      min (2 ^ 64 - 1) (acc.toNat + (vs.map (·.toNat)).sum) := by
  induction vs with
  | nil =>
      intro acc
      have hacc := acc.toNat_lt
      simp only [List.foldl_nil, List.map_nil, List.sum_nil]
      omega
  | cons v vs ih =>
      intro acc
      rw [List.foldl_cons, ih, toNat_saturatingAdd, List.map_cons, List.sum_cons]
      omega

/-- **The balance is the sum of the values**, or the largest amount there is. -/
theorem balance_eq (w : Wallet S P) :
    w.balance.toNat = min (2 ^ 64 - 1) (totalValue w.tokens) := by
  unfold balance totalValue
  rw [toNat_foldl_saturatingAdd, List.map_map]
  simp only [UInt64.toNat_zero, Nat.zero_add]
  rfl

end Wallet

/-! ## 3. Payments -/

/-- The wallets, the spent nullifiers, what was issued so far, and the tokens that were dropped. -/
structure Purses (ι S P : Type) where
  wallet : ι → Wallet S P
  spent : NullifierSet
  issued : Nat
  lost : List (ProofCarryingToken S P)

inductive PaymentCall (ι S : Type) where
  | mint (i : ι) (value : UInt64) (signers : List SignerId) (attributes : Option Attributes)
      (vdf : Option UInt64) (bond : Option Bytes32) (rnd : IssueRandom S)
  | pay (i j : ι) (amount : UInt64) (rnd : TransferRandom S)
  | renew (i : ι) (tokenId : Bytes32) (signers : List SignerId) (rnd : IssueRandom S)

namespace Purses

variable {ι : Type}

def start : Purses ι S P := ⟨fun _ => .new, .new, 0, []⟩

section Fields

variable [DecidableEq ι]

def setWallet (p : Purses ι S P) (i : ι) (w : Wallet S P) : Purses ι S P :=
  { p with wallet := Function.update p.wallet i w }

/-- `add_token`; the token is dropped where the wallet is full. -/
def credit (p : Purses ι S P) (i : ι) (t : ProofCarryingToken S P) : Purses ι S P :=
  match (p.wallet i).addToken t with
  | (true, w) => p.setWallet i w
  | (false, _) => { p with lost := t :: p.lost }

end Fields

/-! ## 4. The tokens in circulation -/

section Held

variable [Fintype ι]

/-- All tokens in the wallets. -/
def held (p : Purses ι S P) : Multiset (ProofCarryingToken S P) :=
  ∑ i, ((p.wallet i).tokens : Multiset (ProofCarryingToken S P))

theorem held_start : held (start : Purses ι S P) = 0 := by
  simp [held, start, Wallet.new]

variable [DecidableEq ι] {p : Purses ι S P} {i : ι} {w : Wallet S P} {t : ProofCarryingToken S P}

theorem held_setWallet (p : Purses ι S P) (i : ι) (w : Wallet S P) :
    held (p.setWallet i w) + ((p.wallet i).tokens : Multiset (ProofCarryingToken S P)) =
      held p + (w.tokens : Multiset (ProofCarryingToken S P)) := by
  have hupdate : (fun j => ((Function.update p.wallet i w j).tokens :
      Multiset (ProofCarryingToken S P))) =
      Function.update (fun j => ((p.wallet j).tokens : Multiset (ProofCarryingToken S P))) i
        (w.tokens : Multiset (ProofCarryingToken S P)) := by
    funext j
    exact Function.apply_update (fun _ (v : Wallet S P) =>
      (v.tokens : Multiset (ProofCarryingToken S P))) p.wallet i w j
  have hrest := Finset.add_sum_erase Finset.univ
    (fun j => ((p.wallet j).tokens : Multiset (ProofCarryingToken S P))) (Finset.mem_univ i)
  unfold held setWallet
  rw [hupdate, Finset.sum_update_of_mem (Finset.mem_univ i), ← hrest,
    Finset.sdiff_singleton_eq_erase]
  abel

/-- A token put at the end of a wallet. -/
theorem held_put : held (p.setWallet i ⟨(p.wallet i).tokens ++ [t]⟩) = t ::ₘ held p := by
  have h := held_setWallet p i ⟨(p.wallet i).tokens ++ [t]⟩
  refine add_right_cancel (h.trans ?_)
  rw [← Multiset.coe_add, Multiset.coe_singleton, ← Multiset.singleton_add]
  abel

/-- A token taken out of a wallet. -/
theorem held_take {pre post : List (ProofCarryingToken S P)}
    (hp : (p.wallet i).tokens = pre ++ t :: post) (hw : w.tokens = pre ++ post) :
    held p = t ::ₘ held (p.setWallet i w) := by
  have h := held_setWallet p i w
  rw [hp, hw] at h
  refine add_right_cancel (h.symm.trans ?_)
  rw [← Multiset.coe_add, ← Multiset.cons_coe, ← Multiset.coe_add, ← Multiset.singleton_add,
    ← Multiset.singleton_add]
  abel

/-- No wallet holds more than `add_token` lets it. -/
def Roomy (p : Purses ι S P) : Prop := ∀ i, (p.wallet i).tokens.length ≤ Wallet.maxTokens

omit [Fintype ι] in
/-- What adding a token does: it is in circulation now, or the wallet was full and it is lost. -/
theorem credit_cases (p : Purses ι S P) (i : ι) (t : ProofCarryingToken S P) :
    ((p.wallet i).tokens.length < Wallet.maxTokens ∧
      p.credit i t = p.setWallet i ⟨(p.wallet i).tokens ++ [t]⟩) ∨
    (Wallet.maxTokens ≤ (p.wallet i).tokens.length ∧
      p.credit i t = { p with lost := t :: p.lost }) := by
  unfold credit
  rcases hadd : (p.wallet i).addToken t with ⟨added, w⟩
  cases added with
  | true =>
      obtain ⟨hroom, rfl⟩ := Wallet.addToken_true hadd
      exact .inl ⟨hroom, rfl⟩
  | false =>
      obtain ⟨hfull, rfl⟩ := Wallet.addToken_false hadd
      exact .inr ⟨hfull, rfl⟩

omit [Fintype ι] in
theorem credit_issued (p : Purses ι S P) (i : ι) (t : ProofCarryingToken S P) :
    (p.credit i t).issued = p.issued := by
  rcases credit_cases p i t with ⟨_, hc⟩ | ⟨_, hc⟩ <;> simp only [hc, setWallet]

omit [Fintype ι] in
theorem credit_spent (p : Purses ι S P) (i : ι) (t : ProofCarryingToken S P) :
    (p.credit i t).spent = p.spent := by
  rcases credit_cases p i t with ⟨_, hc⟩ | ⟨_, hc⟩ <;> simp only [hc, setWallet]

/-- What the wallets hold and what was lost, as integers. -/
def worth (p : Purses ι S P) : Nat :=
  ((held p).map fun t => t.value.toNat).sum + totalValue p.lost

theorem worth_credit (p : Purses ι S P) (i : ι) (t : ProofCarryingToken S P) :
    worth (p.credit i t) = worth p + t.value.toNat := by
  rcases credit_cases p i t with ⟨_, h⟩ | ⟨_, h⟩
  · rw [h]
    unfold worth
    rw [held_put, Multiset.map_cons, Multiset.sum_cons]
    show _ + totalValue p.lost = _
    omega
  · rw [h]
    unfold worth totalValue
    rw [List.map_cons, List.sum_cons]
    show ((held p).map fun t => t.value.toNat).sum + _ = _
    omega

/-- A token taken out, and what becomes of it is up to the call. -/
structure Takes (p : Purses ι S P) (i : ι) (t : ProofCarryingToken S P) (w : Wallet S P) :
    Prop where
  held : held p = t ::ₘ held (p.setWallet i w)
  fewer : w.tokens.length + 1 = (p.wallet i).tokens.length

theorem takes_of_split {pre post : List (ProofCarryingToken S P)}
    (hp : (p.wallet i).tokens = pre ++ t :: post) (hw : w.tokens = pre ++ post) :
    Takes p i t w := by
  refine ⟨held_take hp hw, ?_⟩
  rw [hp, hw]
  simp only [List.length_append, List.length_cons]
  omega

theorem Takes.mem (h : Takes p i t w) : t ∈ Purses.held p := by
  rw [h.held]
  exact Multiset.mem_cons_self t _

theorem Takes.worth (h : Takes p i t w) (ns : NullifierSet) :
    worth { p.setWallet i w with spent := ns } + t.value.toNat = worth p := by
  unfold Purses.worth
  rw [h.held, Multiset.map_cons, Multiset.sum_cons]
  show ((Purses.held (p.setWallet i w)).map fun t => t.value.toNat).sum + totalValue p.lost + _ = _
  omega

theorem Takes.worth_lost (h : Takes p i t w) (ns : NullifierSet) :
    Purses.worth { p.setWallet i w with spent := ns, lost := t :: p.lost } = Purses.worth p := by
  unfold Purses.worth totalValue
  rw [h.held, Multiset.map_cons, Multiset.sum_cons, List.map_cons, List.sum_cons]
  show ((Purses.held (p.setWallet i w)).map fun t => t.value.toNat).sum + _ = _
  omega

omit [Fintype ι] in
theorem roomy_credit (h : Roomy p) : Roomy (p.credit i t) := by
  rcases credit_cases p i t with ⟨hroom, hc⟩ | ⟨_, hc⟩
  · rw [hc]
    intro j
    by_cases hj : j = i
    · subst hj
      simp only [setWallet, Function.update_self, List.length_append, List.length_singleton]
      omega
    · simp only [setWallet, Function.update_of_ne hj]
      exact h j
  · rw [hc]
    exact h

theorem Takes.roomy (h : Takes p i t w) (hp : Roomy p) : Roomy (p.setWallet i w) := by
  intro j
  by_cases hj : j = i
  · subst hj
    have hle := hp j
    have hfewer := h.fewer
    simp only [setWallet, Function.update_self]
    omega
  · simp only [setWallet, Function.update_of_ne hj]
    exact hp j

omit [Fintype ι] in
theorem credit_of_room (h : (p.wallet i).tokens.length < Wallet.maxTokens) :
    p.credit i t = p.setWallet i ⟨(p.wallet i).tokens ++ [t]⟩ := by
  rcases credit_cases p i t with ⟨_, hc⟩ | ⟨hfull, _⟩
  · exact hc
  · omega

/-- The wallet a token was taken out of has room again. -/
theorem Takes.room (h : Takes p i t w) (hp : Roomy p) (ns : NullifierSet) {j : ι}
    (hj : j = i ∨ (p.wallet j).tokens.length < Wallet.maxTokens) :
    ((Purses.wallet { p.setWallet i w with spent := ns } j).tokens.length) < Wallet.maxTokens := by
  have hle := hp i
  have hfewer := h.fewer
  by_cases hji : j = i
  · subst hji
    simp only [setWallet, Function.update_self]
    omega
  · simp only [setWallet, Function.update_of_ne hji]
    exact hj.resolve_left hji

theorem mem_held_credit {u : ProofCarryingToken S P} (h : u ∈ held (p.credit i t)) :
    u = t ∨ u ∈ held p := by
  rcases credit_cases p i t with ⟨_, hc⟩ | ⟨_, hc⟩
  · rw [hc, held_put] at h
    exact Multiset.mem_cons.mp h
  · rw [hc] at h
    exact .inr h

end Held

/-! ## 5. Calls -/

variable [Field S] [AddCommGroup P] [Module S P]

/-- One call; `none` where the verification of a renewal panics. -/
def step [DecidableEq ι] [DecidableEq P] (C : Suite S P) (mint : Mint S P) (p : Purses ι S P) :
    PaymentCall ι S → Option (Purses ι S P)
  | .mint i value signers attributes vdf bond rnd =>
      match mint.issueFull C value signers attributes vdf bond rnd with
      | .error _ => some p
      | .ok t => some (credit { p with issued := p.issued + value.toNat } i t)
  | .pay i j amount rnd =>
      match (p.wallet i).takeToken amount with
      | (none, _) => some p
      | (some t, w) =>
          match transfer C t p.spent rnd with
          | (.error _, ns) => some { p.setWallet i w with spent := ns, lost := t :: p.lost }
          | (.ok r, ns) => some (credit { p.setWallet i w with spent := ns } j r.token)
  | .renew i tokenId signers rnd =>
      match (p.wallet i).removeToken tokenId with
      | (none, _) => some p
      | (some t, w) =>
          match renewToken C t mint signers p.spent rnd with
          | none => none
          | some (.error _, ns) => some { p.setWallet i w with spent := ns, lost := t :: p.lost }
          | some (.ok r, ns) => some (credit { p.setWallet i w with spent := ns } i r.newToken)

def machine [DecidableEq ι] [DecidableEq P] (C : Suite S P) (mint : Mint S P) :
    Machine (Purses ι S P) (PaymentCall ι S) where
  step := step C mint

/-! ## 6. Runs -/

section Runs

variable [Fintype ι] {p p' : Purses ι S P} {i : ι} {w : Wallet S P} {t : ProofCarryingToken S P}
  {C : Suite S P} {mint : Mint S P}

/-- **What holds after every run**: the tokens held are honest, their values and those of the
    lost ones add up to what was issued, and no wallet is over its limit. -/
structure PursesInv (C : Suite S P) (mint : Mint S P) (p : Purses ι S P) : Prop where
  honest : ∀ t ∈ held p, Honest C mint t
  conserved : worth p = p.issued
  roomy : Roomy p

theorem pursesInv_start : PursesInv C mint (start : Purses ι S P) := by
  refine ⟨fun t ht => ?_, ?_, fun i => ?_⟩
  · rw [held_start] at ht
    cases ht
  · unfold worth
    rw [held_start]
    rfl
  · exact Nat.zero_le _

variable [DecidableEq ι]

/-- A token issued. -/
theorem PursesInv.issue (h : PursesInv C mint p) (ht : Honest C mint t) (i : ι) :
    PursesInv C mint (Purses.credit { p with issued := p.issued + t.value.toNat } i t) := by
  refine ⟨fun u hu => ?_, ?_, roomy_credit h.roomy⟩
  · rcases mem_held_credit hu with rfl | hu
    · exact ht
    · exact h.honest u hu
  · rw [worth_credit, credit_issued]
    exact congrArg (· + t.value.toNat) h.conserved

/-- A token taken out that is not put anywhere. -/
theorem PursesInv.lose (h : PursesInv C mint p) (hw : Takes p i t w) (ns : NullifierSet) :
    PursesInv C mint { p.setWallet i w with spent := ns, lost := t :: p.lost } :=
  ⟨fun u hu => h.honest u (hw.held ▸ Multiset.mem_cons_of_mem hu),
    (hw.worth_lost ns).trans h.conserved, hw.roomy h.roomy⟩

/-- A token taken out, and another one of its value put into a wallet. -/
theorem PursesInv.exchange (h : PursesInv C mint p) (hw : Takes p i t w) (ns : NullifierSet)
    {r : ProofCarryingToken S P} (hr : Honest C mint r) (hvalue : r.value = t.value) (j : ι) :
    PursesInv C mint (Purses.credit { p.setWallet i w with spent := ns } j r) := by
  refine ⟨fun u hu => ?_, ?_, roomy_credit (hw.roomy h.roomy)⟩
  · rcases mem_held_credit hu with rfl | hu
    · exact hr
    · exact h.honest u (hw.held ▸ Multiset.mem_cons_of_mem hu)
  · rw [worth_credit, hvalue, hw.worth, credit_issued]
    exact h.conserved

variable [DecidableEq P]

/-- **Every call keeps the invariant.** -/
theorem pursesInv_step (hmint : mint.Sound C) (h : PursesInv C mint p) {c : PaymentCall ι S}
    (hs : step C mint p c = some p') : PursesInv C mint p' := by
  cases c with
  | mint i value signers attributes vdf bond rnd =>
      simp only [step] at hs
      split at hs
      · cases hs
        exact h
      · rename_i t hissue
        cases hs
        rw [← (Mint.issueFull_ok hissue).1]
        exact h.issue (honest_of_issued hmint hissue) i
  | pay i j amount rnd =>
      simp only [step] at hs
      split at hs
      · cases hs
        exact h
      · rename_i t w htake
        obtain ⟨pre, post, hp, hw, _⟩ := Wallet.takeToken_inv htake
        have htakes := takes_of_split hp hw
        split at hs
        · cases hs
          exact h.lose htakes _
        · rename_i r ns htransfer
          cases hs
          have ht := h.honest t htakes.mem
          obtain ⟨_, _, _, hvalue, _⟩ := transfer_ok htransfer
          exact h.exchange htakes ns (honest_transfer ht htransfer) hvalue j
  | renew i tokenId signers rnd =>
      simp only [step] at hs
      split at hs
      · cases hs
        exact h
      · rename_i t w htake
        obtain ⟨pre, post, hp, hw, _⟩ := Wallet.removeToken_inv htake
        have htakes := takes_of_split hp hw
        split at hs
        · cases hs
        · cases hs
          exact h.lose htakes _
        · rename_i r ns hrenew
          cases hs
          have hissue := renewToken_issued hrenew
          exact h.exchange htakes ns (honest_of_issued hmint hissue) (Mint.issueFull_ok hissue).1 i

/-! ## 7. Fresh draws -/

/-- The nullifiers of the tokens are distinct, and none is spent. -/
structure Live (C : Suite S P) (ts : Multiset (ProofCarryingToken S P)) (ns : NullifierSet) :
    Prop where
  distinct : (ts.map fun t => t.computeNullifier C).Nodup
  unspent : ∀ t ∈ ts, t.computeNullifier C ∉ ns.nullifiers

variable {ts : Multiset (ProofCarryingToken S P)} {ns ns' : NullifierSet}

omit [DecidableEq ι] [DecidableEq P] in
theorem live_start : Live C (held (start : Purses ι S P)) (start : Purses ι S P).spent := by
  rw [held_start]
  exact ⟨Multiset.nodup_zero, fun t ht => (nomatch ht)⟩

omit [DecidableEq P] in
theorem Live.tail (h : Live C (t ::ₘ ts) ns) : Live C ts ns := by
  have hd := h.distinct
  rw [Multiset.map_cons, Multiset.nodup_cons] at hd
  exact ⟨hd.2, fun u hu => h.unspent u (Multiset.mem_cons_of_mem hu)⟩

omit [DecidableEq P] in
/-- Without the token the others stay live when it is spent. -/
theorem Live.spend (h : Live C (t ::ₘ ts) ns) (hns : ns' = ns ∨ Burned C t ns ns') :
    Live C ts ns' := by
  have hd := h.distinct
  rw [Multiset.map_cons, Multiset.nodup_cons] at hd
  rcases hns with rfl | hburn
  · exact h.tail
  · refine ⟨hd.2, fun u hu hmem => ?_⟩
    rw [hburn.set, Finset.mem_insert] at hmem
    rcases hmem with he | hmem
    · exact hd.1 (he ▸ Multiset.mem_map_of_mem (fun t => t.computeNullifier C) hu)
    · exact h.tail.unspent u hu hmem

omit [DecidableEq P] in
theorem Live.add (h : Live C ts ns) (hnew : t.computeNullifier C ∉ ns.nullifiers)
    (hother : ∀ u ∈ ts, u.computeNullifier C ≠ t.computeNullifier C) : Live C (t ::ₘ ts) ns := by
  refine ⟨?_, fun u hu => ?_⟩
  · rw [Multiset.map_cons, Multiset.nodup_cons]
    refine ⟨fun hmem => ?_, h.distinct⟩
    obtain ⟨u, hu, he⟩ := Multiset.mem_map.mp hmem
    exact hother u hu he
  · rcases Multiset.mem_cons.mp hu with rfl | hu
    · exact hnew
    · exact h.unspent u hu

omit [DecidableEq P] in
/-- Adding a token of a new nullifier to a wallet. -/
theorem live_credit (h : Live C (held p) p.spent) (hnew : t.computeNullifier C ∉ p.spent.nullifiers)
    (hother : ∀ u ∈ held p, u.computeNullifier C ≠ t.computeNullifier C) :
    Live C (held (p.credit i t)) (p.credit i t).spent := by
  rw [credit_spent]
  rcases credit_cases p i t with ⟨_, hc⟩ | ⟨_, hc⟩
  · rw [hc, held_put]
    exact h.add hnew hother
  · rw [hc]
    exact h

/-- The nullifier of the token that a call is to make. -/
def drawn (C : Suite S P) (p : Purses ι S P) : PaymentCall ι S → Option Bytes32
  | .mint _ _ _ _ _ _ rnd => some (computeNullifier C rnd.ownerSecret rnd.tokenId)
  | .pay i _ amount rnd => ((p.wallet i).takeToken amount).1.map fun t =>
      computeNullifier C rnd.newOwnerSecret t.tokenId
  | .renew _ _ _ rnd => some (computeNullifier C rnd.ownerSecret rnd.tokenId)

/-- **The draws of a call are fresh**: no token spent or held has the nullifier. -/
def Fresh (C : Suite S P) (p : Purses ι S P) (c : PaymentCall ι S) : Prop :=
  ∀ n ∈ drawn C p c, n ∉ p.spent.nullifiers ∧ ∀ t ∈ held p, t.computeNullifier C ≠ n

omit [DecidableEq P] in
/-- What is left of the tokens when a call spends one, with the token it makes. -/
theorem live_exchange (hlive : Live C (held p) p.spent) (hw : Takes p i t w)
    (hburn : Burned C t p.spent ns) {r : ProofCarryingToken S P}
    (hnew : r.computeNullifier C ∉ p.spent.nullifiers)
    (hother : ∀ u ∈ held p, u.computeNullifier C ≠ r.computeNullifier C) (j : ι) :
    Live C (held (Purses.credit { p.setWallet i w with spent := ns } j r))
      (Purses.credit { p.setWallet i w with spent := ns } j r).spent := by
  rw [hw.held] at hlive hother
  refine live_credit (hlive.spend (.inr hburn)) ?_ fun u hu =>
    hother u (Multiset.mem_cons_of_mem hu)
  intro hmem
  have hmem' : r.computeNullifier C ∈ ns.nullifiers := hmem
  rw [hburn.set, Finset.mem_insert] at hmem'
  rcases hmem' with he | hin
  · exact hother t (Multiset.mem_cons_self t _) he.symm
  · exact hnew hin

/-- **Fresh calls keep the tokens live.** -/
theorem live_step (h : Live C (held p) p.spent) {c : PaymentCall ι S} (hc : Fresh C p c)
    (hs : step C mint p c = some p') : Live C (held p') p'.spent := by
  cases c with
  | mint i value signers attributes vdf bond rnd =>
      simp only [step] at hs
      split at hs
      · cases hs
        exact h
      · rename_i t hissue
        cases hs
        obtain ⟨_, signature, _, rfl⟩ := Mint.issueFull_inv hissue
        obtain ⟨hnew, hother⟩ := hc _ rfl
        exact live_credit (p := { p with issued := p.issued + value.toNat }) h hnew hother
  | pay i j amount rnd =>
      simp only [step] at hs
      split at hs
      · cases hs
        exact h
      · rename_i t w htake
        obtain ⟨pre, post, hp, hw, _⟩ := Wallet.takeToken_inv htake
        have htakes := takes_of_split hp hw
        split at hs
        · rename_i e ns htransfer
          cases hs
          rw [htakes.held] at h
          exact h.spend (transfer_spends htransfer).set
        · rename_i r ns htransfer
          cases hs
          obtain ⟨_, _, hburn, _, fold, _, rfl⟩ := transfer_ok_inv htransfer
          obtain ⟨hnew, hother⟩ := hc (computeNullifier C rnd.newOwnerSecret t.tokenId)
            (by simp only [drawn, htake, Option.map_some, Option.mem_def])
          exact live_exchange (r := handedOver C t rnd fold) h htakes hburn hnew hother j
  | renew i tokenId signers rnd =>
      simp only [step] at hs
      split at hs
      · cases hs
        exact h
      · rename_i t w htake
        obtain ⟨pre, post, hp, hw, _⟩ := Wallet.removeToken_inv htake
        have htakes := takes_of_split hp hw
        split at hs
        · cases hs
        · rename_i e ns hrenew
          cases hs
          rw [htakes.held] at h
          exact h.spend (renewToken_spends hrenew).set
        · rename_i r ns hrenew
          cases hs
          have hburn := ((renewToken_spends hrenew).ok _ rfl).1
          obtain ⟨_, signature, _, hr⟩ := Mint.issueFull_inv (renewToken_issued hrenew)
          obtain ⟨hnew, hother⟩ := hc _ rfl
          have hnull : r.newToken.computeNullifier C =
              computeNullifier C rnd.ownerSecret rnd.tokenId := by
            rw [hr]
            rfl
          rw [← hnull] at hnew hother
          exact live_exchange h htakes hburn hnew hother i

/-! ## 8. Nothing is lost -/

omit [Fintype ι] [DecidableEq ι] [DecidableEq P] in
/-- **The token a wallet chooses can be transferred.** -/
theorem transfer_of_covers (h : Honest C mint t) {amount : UInt64}
    (hcovers : Wallet.covers amount t = true) (hnew : t.computeNullifier C ∉ ns.nullifiers)
    (rnd : TransferRandom S) :
    ∃ r, transfer C t ns rnd = (.ok r, ⟨insert (t.computeNullifier C) ns.nullifiers⟩) ∧
      r.token.tokenId = t.tokenId ∧ r.token.value = t.value ∧
      r.token.ownerSecret = rnd.newOwnerSecret := by
  have hren := (Wallet.covers_iff.mp hcovers).2
  have hlt : t.transferCount < t.recursionBound := by
    unfold ProofCarryingToken.needsRenewal at hren
    exact UInt32.not_le.mp (of_decide_eq_false hren)
  rw [h.bound, UInt32.lt_iff_toNat_lt] at hlt
  obtain ⟨r, hr, hid, hvalue, _, _, _, hown, _⟩ := transfer_succeeds h hlt hnew rnd
  exact ⟨r, hr, hid, hvalue, hown⟩

/-- The wallet that gets a token has room, and a renewal has the signers it needs. -/
def Orderly (mint : Mint S P) (p : Purses ι S P) : PaymentCall ι S → Prop
  | .mint i _ _ _ _ _ _ => (p.wallet i).tokens.length < Wallet.maxTokens
  | .pay i j _ _ => j = i ∨ (p.wallet j).tokens.length < Wallet.maxTokens
  | .renew _ _ signers _ => mint.keyset.threshold ≤ signers.length ∧ signers.Nodup ∧
      ∀ id ∈ signers, (mint.keyset.shares id).isSome

instance (C : Suite S P) (p : Purses ι S P) (c : PaymentCall ι S) :
    Decidable (Fresh C p c) :=
  -- over the option, not over all nullifiers
  @Option.decidableForallMem _ _ (fun n => inferInstanceAs (Decidable
    (n ∉ p.spent.nullifiers ∧ ∀ t ∈ held p, t.computeNullifier C ≠ n))) (drawn C p c)

instance (mint : Mint S P) (p : Purses ι S P) : ∀ c : PaymentCall ι S,
    Decidable (Orderly mint p c)
  | .mint _ _ _ _ _ _ _ => inferInstanceAs (Decidable (_ < _))
  | .pay _ _ _ _ => inferInstanceAs (Decidable (_ ∨ _ < _))
  | .renew _ _ signers _ =>
      have : Decidable (∀ id ∈ signers, (mint.keyset.shares id).isSome = true) :=
        List.decidableBAll _ signers
      inferInstanceAs (Decidable (_ ∧ _ ∧ ∀ id ∈ signers, (mint.keyset.shares id).isSome = true))

end Runs

def payer : Fin 2 := ⟨0, Nat.two_pos⟩

def payee : Fin 2 := ⟨1, Nat.one_lt_two⟩

/-- Two tokens are issued to the first of two wallets; the smaller is paid to the second, paid
    back, and renewed; the larger is paid. -/
def samplePayments : List (PaymentCall (Fin 2) SampleScalar) :=
  [.mint payer 10 [1, 2] none none none (sampleIssueRandom 0),
    .mint payer 7 [3, 1] none none none (sampleIssueRandom 1),
    .pay payer payee 5 ⟨leArr 32 101, 21⟩, .pay payee payer 7 ⟨leArr 32 102, 22⟩,
    .renew payer (leArr 32 2) [2, 3] (sampleIssueRandom 2),
    .pay payer payee 8 ⟨leArr 32 103, 23⟩]

theorem samplePayments_run :
    ∃ (mint : Mint SampleScalar SamplePoint) (p : Purses (Fin 2) SampleScalar SamplePoint),
      mint.SetUp sampleSuite ∧ (machine sampleSuite mint).run start samplePayments = some p ∧
      (machine sampleSuite mint).AllSteps (fun q c => Fresh sampleSuite q c ∧ Orderly mint q c)
        start samplePayments ∧
      p.issued = 17 ∧ (p.wallet 0).tokens.length = 1 ∧
      (p.wallet 1).tokens.map (fun t => (t.value, t.needsRenewal)) = [(10, false)] := by
  have hrun : (Mint.setup (P := SamplePoint) sampleSuite ⟨2, 3, 2⟩ sampleDealer 5).bind
      (fun mint => ((machine sampleSuite mint).run start samplePayments).map fun p =>
        decide ((machine sampleSuite mint).AllSteps
          (fun q c => Fresh sampleSuite q c ∧ Orderly mint q c) start samplePayments) &&
        decide (p.issued = 17 ∧ (p.wallet 0).tokens.length = 1 ∧
          (p.wallet 1).tokens.map (fun t => (t.value, t.needsRenewal)) = [(10, false)])) =
        some true := by
    decide +kernel
  obtain ⟨mint, hmint, hrun⟩ := Option.bind_eq_some_iff.mp hrun
  obtain ⟨p, hp, hfacts⟩ := Option.map_eq_some_iff.mp hrun
  obtain ⟨hall, hfacts⟩ := Bool.and_eq_true_iff.mp hfacts
  exact ⟨mint, p, .inl ⟨_, _, _, hmint⟩, hp, of_decide_eq_true hall, of_decide_eq_true hfacts⟩

section Pay

variable [Fintype ι] [DecidableEq ι] [DecidableEq P] {p : Purses ι S P} {C : Suite S P}
  {mint : Mint S P}

/-- **A payment succeeds exactly if some token covers it.** After a run of fresh calls, let the
    payee be another wallet with room. Then either no token of the payer covers the amount and
    nothing changes, or the first of the smallest that do, the one `select_token` shows, leaves
    the payer, the others stay in their order, and a token of its id and value is added for the
    payee; what was spent is the nullifier of the old one. -/
theorem pay_hands_over (hmint : mint.SetUp C) {calls : List (PaymentCall ι S)}
    (hfresh : (machine C mint).AllSteps (Fresh C) start calls)
    (hr : (machine C mint).run start calls = some p) {i j : ι} (hij : j ≠ i) (amount : UInt64)
    (rnd : TransferRandom S) (hroom : (p.wallet j).tokens.length < Wallet.maxTokens) :
    ((∀ u ∈ (p.wallet i).tokens, amount ≤ u.value → u.needsRenewal = true) ∧
      (p.wallet i).selectToken amount = none ∧ step C mint p (.pay i j amount rnd) = some p) ∨
    ∃ pre t post r, (p.wallet i).tokens = pre ++ t :: post ∧ amount ≤ t.value ∧
      t.needsRenewal = false ∧
      (∀ u ∈ (p.wallet i).tokens, amount ≤ u.value → u.needsRenewal = false →
        t.value ≤ u.value) ∧
      (∀ u ∈ pre, amount ≤ u.value → u.needsRenewal = false → t.value < u.value) ∧
      (p.wallet i).selectToken amount = some t ∧
      step C mint p (.pay i j amount rnd) =
        some { p with
          wallet := Function.update (Function.update p.wallet i ⟨pre ++ post⟩) j
            ⟨(p.wallet j).tokens ++ [r]⟩
          spent := ⟨insert (t.computeNullifier C) p.spent.nullifiers⟩ } ∧
      r.tokenId = t.tokenId ∧ r.value = t.value ∧ r.ownerSecret = rnd.newOwnerSecret ∧
      Honest C mint r := by
  have hI : PursesInv C mint p ∧ Live C (held p) p.spent := (machine C mint).run_invariant_of
    (I := fun q : Purses ι S P => PursesInv C mint q ∧ Live C (held q) q.spent)
    (fun q c q' hq hc hs => ⟨pursesInv_step hmint.sound hq.1 hs, live_step hq.2 hc hs⟩)
    calls _ _ ⟨pursesInv_start, live_start⟩ hfresh hr
  have hselect := (p.wallet i).selectToken_takeToken amount
  rcases htake : (p.wallet i).takeToken amount with ⟨taken, w⟩
  rw [htake] at hselect
  cases taken with
  | none =>
      obtain ⟨_, hnone⟩ := Wallet.takeToken_none htake
      refine .inl ⟨fun u hu hle => ?_, hselect.symm, by simp only [step, htake]⟩
      by_contra hren
      have hc := Wallet.covers_iff.mpr ⟨hle, Bool.not_eq_true _ ▸ hren⟩
      exact Bool.false_ne_true ((hnone u hu).symm.trans hc)
  | some t =>
      obtain ⟨pre, post, hp, hw, hleast⟩ := Wallet.takeToken_inv htake
      have htakes := takes_of_split hp hw
      have ht := hI.1.honest t htakes.mem
      obtain ⟨hle, hren⟩ := Wallet.covers_iff.mp hleast.passes
      obtain ⟨r, htr, hid, hvalue, hown⟩ :=
        transfer_of_covers ht hleast.passes (hI.2.unspent t htakes.mem) rnd
      refine .inr ⟨pre, t, post, r.token, hp, hle, hren, fun u hu hu₁ hu₂ => ?_,
        fun u hu hu₁ hu₂ => ?_, hselect.symm, ?_, hid, hvalue, hown, honest_transfer ht htr⟩
      · rw [hp] at hu
        exact UInt64.le_iff_toNat_le.mpr (hleast.le hu (Wallet.covers_iff.mpr ⟨hu₁, hu₂⟩))
      · exact UInt64.lt_iff_toNat_lt.mpr
          (hleast.before u hu (Wallet.covers_iff.mpr ⟨hu₁, hu₂⟩))
      · simp only [step, htake, htr]
        rw [credit_of_room (htakes.room hI.1.roomy _ (.inr hroom))]
        have hwallet : w = ⟨pre ++ post⟩ := by
          obtain ⟨tokens⟩ := w
          exact congrArg Wallet.mk hw
        subst hwallet
        simp only [setWallet, Function.update_of_ne hij]

end Pay

/-- After that run the second wallet pays its token back. -/
theorem pay_hands_over_run :
    ∃ (mint : Mint SampleScalar SamplePoint) (p p' : Purses (Fin 2) SampleScalar SamplePoint)
      (r : ProofCarryingToken SampleScalar SamplePoint),
      (machine sampleSuite mint).run start samplePayments = some p ∧
      step sampleSuite mint p (.pay 1 0 10 ⟨leArr 32 104, 24⟩) = some p' ∧
      (p'.wallet 0).tokens = (p.wallet 0).tokens ++ [r] ∧ Honest sampleSuite mint r := by
  obtain ⟨mint, p, hmint, hp, hall, _, hlen, hone⟩ := samplePayments_run
  have hfresh := (machine sampleSuite mint).allSteps_imp (fun _ _ h => h.1) _ _ hall
  have hroom : (p.wallet 0).tokens.length < Wallet.maxTokens := by
    rw [hlen]
    decide
  rcases pay_hands_over hmint hfresh hp (show (0 : Fin 2) ≠ 1 by decide) 10 ⟨leArr 32 104, 24⟩
      hroom with ⟨hno, _⟩ | ⟨pre, t, post, r, _, _, _, _, _, _, hstep, _, _, _, hr⟩
  · -- the token covers the amount
    obtain ⟨t, ht, he⟩ := List.mem_map.mp (hone ▸ List.mem_singleton_self (10, false))
    obtain ⟨hvalue, hren⟩ := Prod.mk.inj he
    exact absurd (hno t ht (by rw [hvalue]; decide)) (by rw [hren]; decide)
  · refine ⟨mint, p, _, r, hp, hstep, ?_, hr⟩
    dsimp only
    rw [Function.update_self]

end Purses

end Specter
