/-
  File:      Specter/Fold/NovaIvc.lean
  Subject:   THE NOVA CIRCUIT AND ITS ENGINE (specter-fold/src/nova_ivc.rs): what a recursive proof
             over `TransferCircuit` says of the transfers folded into it.

  The field, the constraint system of bellpepper-core and the prover and verifier of nova-snark
  are parameters (`Lib.ConstraintSystem`, `Lib.RecursiveSnark`). The secondary circuit is the
  identity on the other curve and is left out; so are the names of constraints and variables, and
  the texts of errors.

  * `synthesize_inv`, `Synthesized` -- the calls a run of the circuit makes, and what they add;
  * `step_iff` -- the constraints fix the counter and leave the state hash open;
  * `executes` -- the prover's own values meet them;
  * `nova_counts_steps` -- so an accepted proof, if the argument is sound for it, says how many
    steps were made, and nothing of the transfers; and the engine's proofs are accepted for one
    step more than transfers were folded.
-/
import Mathlib.Data.Fin.VecNotation
import Mathlib.Tactic.Ring
import Specter.Lib.Checks
import Specter.Lib.Circuit
import Specter.Primitives.Suite

namespace Specter.Nova

open Lib

variable {K : Type} [Field K]

/-! ## 1. The circuit -/

/-- `state_hash` is read by nothing. -/
structure TransferCircuit where
  newOwnerData : UInt64
  stateHash : UInt64

def TransferCircuit.new (data stateHash : UInt64) : TransferCircuit := ⟨data, stateHash⟩

def TransferCircuit.blank : TransferCircuit := ⟨0, 0⟩

/-- `F::from(u64)`. -/
def fromU64 (x : UInt64) : K := (x.toNat : K)

abbrev arity : Nat := 2

section Synthesize

variable (B : ConstraintSystem K)

/-- `z.get_value().ok_or(AssignmentMissing)`. -/
def getValue (z : B.Num) : Except B.SynthesisError K :=
  match B.getValue z with
  | none => .error B.assignmentMissing
  | some v => .ok v

def TransferCircuit.synthesize (self : TransferCircuit) (cs : B.State) (z : Fin arity → B.Num) :
    Except B.SynthesisError ((Fin arity → B.Num) × B.State) := do
  let (newCount, cs) ← B.alloc cs (do
    let old ← getValue B (z 0)
    pure (old + 1))
  let cs := B.enforce cs (fun lc => B.add lc (B.getVariable newCount)) (fun lc => B.add lc B.one)
    (fun lc => B.add (B.add lc (B.getVariable (z 0))) B.one)
  let (ownerData, cs) ← B.alloc cs (pure (fromU64 self.newOwnerData))
  let (newState, cs) ← B.alloc cs (do
    let oldState ← getValue B (z 1)
    pure (oldState + fromU64 self.newOwnerData + 1))
  let cs := B.enforce cs (fun lc => B.add lc (B.getVariable newState)) (fun lc => B.add lc B.one)
    (fun lc => B.add (B.add (B.add lc (B.getVariable (z 1))) (B.getVariable ownerData)) B.one)
  pure (![newCount, newState], cs)

def TransferCircuit.circuit (self : TransferCircuit) : StepCircuit B arity := ⟨self.synthesize B⟩

/-- The circuit of setup. -/
abbrev setup : StepCircuit B arity := TransferCircuit.blank.circuit B

end Synthesize

variable {B : ConstraintSystem K} {L : B.Laws} {c : TransferCircuit} {cs cs' : B.State}
  {z out : Fin arity → B.Num}

/-- The state after the count is enforced. -/
def countEnforced (B : ConstraintSystem K) (z : Fin arity → B.Num) (newCount : B.Num)
    (cs : B.State) : B.State :=
  B.enforce cs (fun lc => B.add lc (B.getVariable newCount)) (fun lc => B.add lc B.one)
    (fun lc => B.add (B.add lc (B.getVariable (z 0))) B.one)

/-- The state after the state hash is enforced. -/
def stateEnforced (B : ConstraintSystem K) (z : Fin arity → B.Num) (ownerData newState : B.Num)
    (cs : B.State) : B.State :=
  B.enforce cs (fun lc => B.add lc (B.getVariable newState)) (fun lc => B.add lc B.one)
    (fun lc => B.add (B.add (B.add lc (B.getVariable (z 1))) (B.getVariable ownerData)) B.one)

/-- **The calls a run makes**: three allocations, and the two constraints. -/
theorem synthesize_inv (h : c.synthesize B cs z = .ok (out, cs')) :
    ∃ x s₁ d s₂ y s₃,
      B.alloc cs (do pure ((← getValue B (z 0)) + 1)) = .ok (x, s₁) ∧
      B.alloc (countEnforced B z x s₁) (pure (fromU64 c.newOwnerData)) = .ok (d, s₂) ∧
      B.alloc s₂ (do pure ((← getValue B (z 1)) + fromU64 c.newOwnerData + 1)) = .ok (y, s₃) ∧
      out = ![x, y] ∧ cs' = stateEnforced B z d y s₃ := by
  unfold TransferCircuit.synthesize at h
  obtain ⟨⟨x, s₁⟩, hx, h⟩ := Checks.bind_ok_iff.mp h
  obtain ⟨⟨d, s₂⟩, hd, h⟩ := Checks.bind_ok_iff.mp h
  obtain ⟨⟨y, s₃⟩, hy, h⟩ := Checks.bind_ok_iff.mp h
  cases h
  exact ⟨x, s₁, d, s₂, y, s₃, hx, hd, hy, rfl, rfl⟩

/-- What a run adds: the two outputs and the data of the step are new variables, and the
    constraints tie the outputs to the inputs and the data. -/
structure Synthesized (L : B.Laws) (cs : B.State) (z out : Fin arity → B.Num) (data : B.Variable)
    (cs' : B.State) : Prop where
  count_new : ¬ L.Known cs (B.getVariable (out 0))
  data_new : ¬ L.Known cs data
  state_new : ¬ L.Known cs (B.getVariable (out 1))
  data_ne_count : data ≠ B.getVariable (out 0)
  state_ne_count : B.getVariable (out 1) ≠ B.getVariable (out 0)
  state_ne_data : B.getVariable (out 1) ≠ data
  satisfied : ∀ w, L.Satisfied cs' w ↔ L.Satisfied cs w ∧
    w (B.getVariable (out 0)) * w B.one = w (B.getVariable (z 0)) + w B.one ∧
    w (B.getVariable (out 1)) * w B.one = w (B.getVariable (z 1)) + w data + w B.one

theorem synthesized {v v₁ v₂ : Except B.SynthesisError K} {x d y : B.Num} {s₁ s₂ s₃ : B.State}
    (hx : B.alloc cs v = .ok (x, s₁)) (hd : B.alloc (countEnforced B z x s₁) v₁ = .ok (d, s₂))
    (hy : B.alloc s₂ v₂ = .ok (y, s₃)) :
    Synthesized L cs z ![x, y] (B.getVariable d) (stateEnforced B z d y s₃) := by
  obtain ⟨hxnew, hxknown, hxsat, _⟩ := L.alloc_new hx
  obtain ⟨hdnew, hdknown, hdsat, _⟩ := L.alloc_new hd
  obtain ⟨hynew, hyknown, hysat, _⟩ := L.alloc_new hy
  have hcount : ∀ u, L.Known (countEnforced B z x s₁) u ↔
      L.Known cs u ∨ u = B.getVariable x := fun u =>
    (L.enforce_known _ _ _ _ u).trans (hxknown u)
  refine ⟨hxnew, fun h => hdnew ((hcount _).mpr (.inl h)),
    fun h => hynew ((hdknown _).mpr (.inl ((hcount _).mpr (.inl h)))),
    fun h => hdnew ((hcount _).mpr (.inr h)),
    fun h => hynew ((hdknown _).mpr (.inl ((hcount _).mpr (.inr h)))),
    fun h => hynew ((hdknown _).mpr (.inr h)), fun w => ?_⟩
  unfold stateEnforced
  rw [L.enforce_satisfied, hysat, hdsat]
  unfold countEnforced
  rw [L.enforce_satisfied, hxsat]
  simp only [L.eval_add, L.eval_zero, zero_add, and_assoc, Matrix.cons_val_zero,
    Matrix.cons_val_one]

/-- **At setup the data of the step does not matter**: every circuit makes the same calls. -/
theorem synthesize_setup (hs : L.proving cs = false) :
    ∃ r, ∀ c : TransferCircuit, c.synthesize B cs z = .ok r := by
  obtain ⟨⟨x, s₁⟩, hx⟩ := L.alloc_setup hs
  have hs₁ : L.proving (countEnforced B z x s₁) = false := by
    rw [countEnforced, L.enforce_proving, (L.alloc_new (hx (.ok 0))).2.2.2, hs]
  obtain ⟨⟨d, s₂⟩, hd⟩ := L.alloc_setup hs₁
  have hs₂ : L.proving s₂ = false := (L.alloc_new (hd (.ok 0))).2.2.2.trans hs₁
  obtain ⟨⟨y, s₃⟩, hy⟩ := L.alloc_setup hs₂
  refine ⟨(![x, y], stateEnforced B z d y s₃), fun c => ?_⟩
  unfold TransferCircuit.synthesize
  refine Checks.bind_ok_iff.mpr ⟨_, hx _, Checks.bind_ok_iff.mpr ⟨_, hd _, ?_⟩⟩
  exact Checks.bind_ok_iff.mpr ⟨_, hy _, rfl⟩

/-! ## 2. What the constraints say -/

variable {S : Start L arity}

/-- **One step of the constraints**: the counter goes up by one, and the state hash may become
    anything, as the data of the step is a variable of its own. -/
theorem step_iff (x x' : Fin arity → K) : (setup B).Step S x x' ↔ x' 0 = x 0 + 1 := by
  obtain ⟨⟨out, cs'⟩, hrun⟩ := synthesize_setup (z := S.input none) (S.proving none)
  have hshape : (setup B).shape S = .ok (out, cs') := hrun TransferCircuit.blank
  obtain ⟨n, s₁, d, s₂, y, s₃, hn, hd, hy, rfl, rfl⟩ := synthesize_inv (hrun .blank)
  have hsyn : Synthesized L (S.state none) (S.input none) ![n, y] _ _ := synthesized hn hd hy
  constructor
  · intro hstep
    obtain ⟨out', s, w, hrun', hw, hin, hout⟩ := hstep
    cases hshape.symm.trans hrun'
    obtain ⟨hone, hcount, _⟩ := (hsyn.satisfied w).mp hw
    rw [S.satisfied_one hone, mul_one, hin] at hcount
    exact (hout 0).trans hcount
  · intro h
    classical
    -- the data of the step is what the state hash needs
    obtain ⟨w₀, hw₀, hin₀⟩ := S.satisfied_free x
    let w : B.Variable → K := Function.update (Function.update (Function.update w₀
      (B.getVariable n) (x' 0)) (B.getVariable d) (x' 1 - x 1 - 1)) (B.getVariable y) (x' 1)
    have hknown : ∀ v, L.Known (S.state none) v → w v = w₀ v := by
      intro v hv
      have hvn : v ≠ B.getVariable n := fun he => hsyn.count_new (he ▸ hv)
      have hvd : v ≠ B.getVariable d := fun he => hsyn.data_new (he ▸ hv)
      have hvy : v ≠ B.getVariable y := fun he => hsyn.state_new (he ▸ hv)
      simp only [w, Function.update_of_ne hvy, Function.update_of_ne hvd,
        Function.update_of_ne hvn]
    have hsat : L.Satisfied (S.state none) w := S.satisfied_known hknown hw₀
    have hone : w B.one = 1 := S.satisfied_one hsat
    have hin : ∀ i, w (B.getVariable (S.input none i)) = x i := fun i =>
      (hknown _ (S.known_input none i)).trans (hin₀ i)
    have hwn : w (B.getVariable n) = x' 0 := by
      have hnd : B.getVariable n ≠ B.getVariable d := Ne.symm hsyn.data_ne_count
      have hny : B.getVariable n ≠ B.getVariable y := Ne.symm hsyn.state_ne_count
      simp only [w, Function.update_of_ne hny, Function.update_of_ne hnd, Function.update_self]
    have hwd : w (B.getVariable d) = x' 1 - x 1 - 1 := by
      have hdy : B.getVariable d ≠ B.getVariable y := Ne.symm hsyn.state_ne_data
      simp only [w, Function.update_of_ne hdy, Function.update_self]
    have hwy : w (B.getVariable y) = x' 1 := Function.update_self _ _ _
    refine ⟨_, _, w, hshape, (hsyn.satisfied w).mpr ⟨hsat, ?_, ?_⟩, hin, fun i => ?_⟩
    · show w (B.getVariable n) * _ = _
      rw [hwn, hone, hin, mul_one, h]
    · show w (B.getVariable y) * _ = _
      rw [hwy, hwd, hone, hin]
      ring
    · fin_cases i
      · exact hwn.symm
      · exact hwy.symm

/-- **Many steps** fix the counter, and nothing else. -/
theorem chain_setup {k : Nat} (hk : 0 < k) (x x' : Fin arity → K) :
    Chain ((setup B).Step S) k x x' ↔ x' 0 = x 0 + k := by
  obtain ⟨m, rfl⟩ := Nat.exists_eq_succ_of_ne_zero (Nat.pos_iff_ne_zero.mp hk)
  have hadd : ∀ (m : Nat) (x : K), (· + 1)^[m] x = x + m := by
    intro m
    induction m with
    | zero =>
        intro x
        simp
    | succ m ih =>
        intro x
        rw [Function.iterate_succ_apply, ih, Nat.cast_succ]
        ring
  rw [← hadd]
  exact chain_iff (f := fun z : Fin arity → K => z 0) step_iff fun x => ⟨fun _ => x, rfl⟩

/-- **The prover's own values meet the constraints.** -/
theorem executes (c : TransferCircuit) (x : Fin arity → K) :
    (setup B).Executes S (c.circuit B) x ![x 0 + 1, x 1 + fromU64 c.newOwnerData + 1] := by
  obtain ⟨r, hsetup⟩ := synthesize_setup (z := S.input none) (S.proving none)
  refine ⟨(hsetup c).trans (hsetup TransferCircuit.blank).symm, ?_⟩
  have hs : L.proving (S.state (some x)) = true := S.proving (some x)
  have hin : ∀ i, getValue B (S.input (some x) i) = .ok (x i) := by
    intro i
    unfold getValue
    rw [S.getValue_input]
  obtain ⟨n, s₁, hn, hnval, hnkept, hold₁⟩ := L.alloc_proving (x 0 + 1) hs
  have hs₁ : L.proving (countEnforced B (S.input (some x)) n s₁) = true := by
    rw [countEnforced, L.enforce_proving, (L.alloc_new hn).2.2.2, hs]
  obtain ⟨d, s₂, hd, _, hdkept, hold₂⟩ :=
    L.alloc_proving (fromU64 c.newOwnerData : K) hs₁
  have hs₂ : L.proving s₂ = true := (L.alloc_new hd).2.2.2.trans hs₁
  obtain ⟨y, s₃, hy, hyval, hykept, hold₃⟩ :=
    L.alloc_proving (x 1 + fromU64 c.newOwnerData + 1) hs₂
  have hsyn : Synthesized L (S.state (some x)) (S.input (some x)) ![n, y] _ _ :=
    synthesized hn hd hy
  have hrun : c.synthesize B (S.state (some x)) (S.input (some x)) =
      .ok (![n, y], stateEnforced B (S.input (some x)) d y s₃) := by
    unfold TransferCircuit.synthesize
    rw [hin 0, hin 1]
    exact Checks.bind_ok_iff.mpr ⟨_, hn, Checks.bind_ok_iff.mpr ⟨_, hd,
      Checks.bind_ok_iff.mpr ⟨_, hy, rfl⟩⟩⟩
  -- what was known keeps its value through the three allocations
  have hknown₁ : ∀ u, L.Known (countEnforced B (S.input (some x)) n s₁) u ↔
      L.Known (S.state (some x)) u ∨ u = B.getVariable n := fun u =>
    (L.enforce_known _ _ _ _ u).trans ((L.alloc_new hn).2.1 u)
  have hkept₂ : ∀ u, L.Known (countEnforced B (S.input (some x)) n s₁) u →
      L.value s₃ u = L.value s₁ u := fun u hu => by
    rw [hold₃ u (((L.alloc_new hd).2.1 u).mpr (.inl hu)), hold₂ u hu, countEnforced,
      L.enforce_value]
  have hkept : ∀ u, L.Known (S.state (some x)) u → L.value s₃ u = L.value (S.state (some x)) u :=
    fun u hu => (hkept₂ u ((hknown₁ u).mpr (.inl hu))).trans (hold₁ u hu)
  have hvalue : L.value (stateEnforced B (S.input (some x)) d y s₃) = L.value s₃ :=
    L.enforce_value _ _ _ _
  have hsat : L.Satisfied (S.state (some x)) (L.value s₃) :=
    S.satisfied_known hkept (S.satisfied_value x)
  have hone : L.value s₃ B.one = 1 := S.satisfied_one hsat
  have hinput : ∀ i, L.value s₃ (B.getVariable (S.input (some x) i)) = x i := fun i =>
    (hkept _ (S.known_input _ i)).trans (S.value_input x i)
  have hcount : L.value s₃ (B.getVariable n) = x 0 + 1 :=
    (hkept₂ _ ((hknown₁ _).mpr (.inr rfl))).trans hnkept
  have hdata : L.value s₃ (B.getVariable d) = fromU64 c.newOwnerData :=
    (hold₃ _ (((L.alloc_new hd).2.1 _).mpr (.inr rfl))).trans hdkept
  refine ⟨_, _, hrun, ?_, fun i => ?_⟩
  · rw [hvalue, hsyn.satisfied]
    refine ⟨hsat, ?_, ?_⟩
    · show L.value s₃ (B.getVariable n) * _ = _
      rw [hcount, hone, hinput, mul_one]
    · show L.value s₃ (B.getVariable y) * _ = _
      rw [hykept, hdata, hone, hinput, mul_one]
  · fin_cases i
    · exact hnval
    · exact hyval

/-! ## 3. The engine -/

/-- `NovaEngine`, with the public parameters of the blank circuit. -/
structure NovaEngine (S : Start L arity) where
  snark : RecursiveSnark S (setup B)

namespace NovaEngine

/-- The first inputs, as the engine makes them of two numbers. -/
def start (count stateHash : UInt64) : Fin arity → K := ![fromU64 count, fromU64 stateHash]

theorem start_inj {count count' stateHash stateHash' : UInt64} :
    (start count' stateHash' : Fin arity → K) = start count stateHash ↔
      (fromU64 count' : K) = fromU64 count ∧ (fromU64 stateHash' : K) = fromU64 stateHash := by
  constructor
  · intro h
    exact ⟨congrFun h 0, congrFun h 1⟩
  · intro h
    rw [start, start, h.1, h.2]

variable (N : NovaEngine S)

/-- The genesis proof has made a step. -/
def proveGenesis (initialCount initialStateHash : UInt64) : Option N.snark.Proof := do
  let circuit := TransferCircuit.new 0 0
  let snark ← N.snark.new (circuit.circuit B) (start initialCount initialStateHash)
  N.snark.proveStep snark (circuit.circuit B)

def foldStep (snark : N.snark.Proof) (newOwnerData stateHash : UInt64) : Option N.snark.Proof :=
  N.snark.proveStep snark ((TransferCircuit.new newOwnerData stateHash).circuit B)

def verify (snark : N.snark.Proof) (numSteps : Nat) (initialCount initialStateHash : UInt64) :
    Bool :=
  (N.snark.verify snark numSteps (start initialCount initialStateHash)).isSome

/-- A genesis proof, and a step for each transfer. -/
def proveTransfers (initialCount initialStateHash : UInt64) (transfers : List (UInt64 × UInt64)) :
    Option N.snark.Proof := do
  let snark ← N.proveGenesis initialCount initialStateHash
  transfers.foldlM (fun snark t => N.foldStep snark t.1 t.2) snark

/-- The outputs after these transfers. -/
def outputs (z : Fin arity → K) : List (UInt64 × UInt64) → Fin arity → K
  | [] => z
  | t :: transfers => outputs ![z 0 + 1, z 1 + fromU64 t.1 + 1] transfers

theorem executesAll (transfers : List (UInt64 × UInt64)) :
    ∀ z : Fin arity → K, (setup B).ExecutesAll S
      (transfers.map fun t => (TransferCircuit.new t.1 t.2).circuit B) z (outputs z transfers) := by
  induction transfers with
  | nil =>
      intro z
      exact rfl
  | cons t transfers ih =>
      intro z
      exact ⟨_, executes (TransferCircuit.new t.1 t.2) z, ih _⟩

theorem outputs_eq (transfers : List (UInt64 × UInt64)) :
    ∀ z : Fin arity → K, outputs z transfers = ![z 0 + transfers.length,
      z 1 + (transfers.map fun t => fromU64 t.1).sum + transfers.length] := by
  induction transfers with
  | nil =>
      intro z
      funext i
      fin_cases i <;> simp [outputs]
  | cons t transfers ih =>
      intro z
      rw [outputs, ih]
      funext i
      fin_cases i
      · simp
        ring
      · simp
        ring

/-- **A proof counts its steps.** Where the argument is sound for a proof and it is accepted, with
    whatever first inputs, the counter went up by the number of steps, and as many steps of the
    constraints lead to every state hash. The proof the engine makes of any transfers exists and is
    accepted for one step more than there are transfers, and where it binds, for no other number
    and for no first inputs but those equal in the field. -/
theorem nova_counts_steps :
    (∀ snark n count stateHash, N.snark.Sound snark → N.verify snark n count stateHash = true →
      ∃ out, N.snark.verify snark n (start count stateHash) = some out ∧ 0 < n ∧
        out 0 = fromU64 count + n ∧
        ∀ h : K, Chain ((setup B).Step S) n (start count stateHash) ![out 0, h]) ∧
    ∀ count stateHash transfers, ∃ snark,
      N.proveTransfers count stateHash transfers = some snark ∧
      N.snark.verify snark (transfers.length + 1) (start count stateHash) =
        some ![fromU64 count + (transfers.length + 1 : K),
          fromU64 stateHash + (transfers.map fun t => (fromU64 t.1 : K)).sum +
            (transfers.length + 1 : K)] ∧
      (N.snark.Binds snark → ∀ n count' stateHash', N.verify snark n count' stateHash' = true ↔
        n = transfers.length + 1 ∧ (fromU64 count' : K) = fromU64 count ∧
          (fromU64 stateHash' : K) = fromU64 stateHash) := by
  constructor
  · intro snark n count stateHash hsound h
    obtain ⟨out, hout⟩ := Option.isSome_iff_exists.mp h
    obtain ⟨hn, hchain⟩ := hsound _ _ _ hout
    have hcount := (chain_setup hn _ _).mp hchain
    exact ⟨out, hout, hn, hcount, fun s => (chain_setup hn _ _).mpr hcount⟩
  · intro count stateHash transfers
    obtain ⟨snark₀, snark, hnew, hfold, hver⟩ := N.snark.complete _ _ _ _
      (executesAll ((0, 0) :: transfers) (start count stateHash))
    have hgenesis : N.proveGenesis count stateHash =
        N.snark.proveStep snark₀ ((TransferCircuit.new 0 0).circuit B) :=
      congrArg (· >>= fun p => N.snark.proveStep p ((TransferCircuit.new 0 0).circuit B)) hnew
    have hrun : N.proveTransfers count stateHash transfers = some snark := by
      simp only [List.foldlM_cons, List.foldlM_map] at hfold
      rw [proveTransfers, hgenesis]
      exact hfold
    rw [List.length_map] at hver
    refine ⟨snark, hrun, ?_, fun hbinds n count' stateHash' => ?_⟩
    · rw [hver, outputs_eq]
      refine congrArg some (funext fun i => ?_)
      fin_cases i
      · simp [start]
      · simp [start, fromU64]
    · rw [verify, Option.isSome_iff_exists, ← start_inj]
      constructor
      · intro h
        obtain ⟨out, hout⟩ := h
        exact hbinds _ _ _ _ _ _ hver hout
      · intro h
        obtain ⟨rfl, hstart⟩ := h
        exact ⟨_, hstart ▸ hver⟩

/-- An engine whose proofs count. -/
noncomputable def counting (K : Type) [Field K] : NovaEngine (Vectors.start K arity) :=
  ⟨counted _ _⟩

/-- Two transfers: three steps, and not two; and three steps lead to every state hash. -/
theorem nova_counts_steps_two_transfers :
    ∃ snark, (counting SampleScalar).proveTransfers 0 0 [(5, 9), (7, 1)] = some snark ∧
      (counting SampleScalar).verify snark 3 0 0 = true ∧
      (counting SampleScalar).verify snark 2 0 0 = false ∧
      ∃ out : SampleScalar, ∀ h, Chain ((setup (Vectors.system SampleScalar)).Step
        (Vectors.start SampleScalar arity)) 3 (start 0 0) ![out, h] := by
  obtain ⟨hcount, hprove⟩ := (counting SampleScalar).nova_counts_steps
  obtain ⟨snark, hrun, hout, hver⟩ := hprove 0 0 [(5, 9), (7, 1)]
  have hthree : (counting SampleScalar).verify snark 3 0 0 = true :=
    (hver (counted_binds snark) 3 0 0).mpr ⟨rfl, rfl, rfl⟩
  have hsound : (counting SampleScalar).snark.Sound snark := by
    intro k z z' h
    obtain ⟨_, hk, hz, hz'⟩ := Counted.verify_iff.mp h
    obtain ⟨_, hk₀, hz₀, hz₀'⟩ := Counted.verify_iff.mp hout
    rw [hz.trans hz₀.symm, hz'.trans hz₀'.symm, hk.trans hk₀.symm]
    refine ⟨by decide, (chain_setup (by decide) _ _).mpr ?_⟩
    simp only [start, Matrix.cons_val_zero, List.length_cons, List.length_nil]
    norm_num
  obtain ⟨out, _, _, _, hchain⟩ := hcount snark 3 0 0 hsound hthree
  refine ⟨snark, hrun, hthree, ?_, out 0, hchain⟩
  rw [← Bool.not_eq_true, hver (counted_binds snark)]
  simp

end NovaEngine

end Specter.Nova
