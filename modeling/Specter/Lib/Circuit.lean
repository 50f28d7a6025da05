/-
  File:      Specter/Lib/Circuit.lean
  Subject:   STEP CIRCUITS AND WHAT A PROOF OF MANY STEPS SAYS.

  A circuit is written once against a constraint system and run twice: at setup, where the values
  of its variables are not computed and only the constraints count, and by the prover, who
  computes the values. A step circuit maps `n` inputs to `n` outputs; a recursive proof says that
  its constraints can be met a number of times in a row.

  The constraint system and the proof system are parameters. `ConstraintSystem` stands for what a
  circuit calls of bellpepper-core (`ConstraintSystem`, `AllocatedNum`, `LinearCombination`), and
  `Laws` for what these calls are documented to do; `Start` stands for the systems the proof
  system hands to a circuit, `RecursiveSnark` for its `RecursiveSNARK`.

  * `StepCircuit.Step` -- what the constraints say of inputs and outputs;
    `StepCircuit.Executes` -- what the prover does with them;
  * `Chain` -- steps in a row; `chain_iff`;
  * `RecursiveSnark` -- proofs of chains; that what a proof is accepted for is a chain (`Sound`),
    and that it is accepted for one number of steps and one start (`Binds`), is said of a proof;
  * `Vectors.system`, `counted` -- a constraint system and a proof system that keep these laws.
-/
import Mathlib.Algebra.Field.Basic
import Mathlib.Algebra.BigOperators.Group.List.Basic
import Mathlib.Data.Fintype.Basic
import Mathlib.Logic.Function.Basic

namespace Lib

/-! ## 1. Constraint systems -/

/-- The calls a circuit makes, on the state of a constraint system. -/
structure ConstraintSystem (K : Type) where
  State : Type
  /-- An allocated number: a variable, and its value where there is one. -/
  Num : Type
  Variable : Type
  LinearCombination : Type
  SynthesisError : Type
  assignmentMissing : SynthesisError
  one : Variable
  getValue : Num → Option K
  getVariable : Num → Variable
  /-- `lc + variable`. -/
  add : LinearCombination → Variable → LinearCombination
  alloc : State → Except SynthesisError K → Except SynthesisError (Num × State)
  /-- `a * b = c`, each written as what is added to an empty combination. -/
  enforce : State → (LinearCombination → LinearCombination) →
    (LinearCombination → LinearCombination) → (LinearCombination → LinearCombination) → State

/-- What the calls do. Of a state it is known whether it is the prover's, which variables were
    allocated, what the prover computed for them, and which assignments meet the constraints
    enforced so far. -/
structure ConstraintSystem.Laws {K : Type} [Field K] (B : ConstraintSystem K) where
  proving : B.State → Bool
  Known : B.State → B.Variable → Prop
  value : B.State → B.Variable → K
  Satisfied : B.State → (B.Variable → K) → Prop
  zero : B.LinearCombination
  eval : (B.Variable → K) → B.LinearCombination → K
  eval_zero : ∀ w, eval w zero = 0
  eval_add : ∀ w lc v, eval w (B.add lc v) = eval w lc + w v
  enforce_satisfied : ∀ s a b c w, Satisfied (B.enforce s a b c) w ↔
    Satisfied s w ∧ eval w (a zero) * eval w (b zero) = eval w (c zero)
  enforce_known : ∀ s a b c v, Known (B.enforce s a b c) v ↔ Known s v
  enforce_proving : ∀ s a b c, proving (B.enforce s a b c) = proving s
  enforce_value : ∀ s a b c, value (B.enforce s a b c) = value s
  /-- A new variable, on which no constraint stands. -/
  alloc_new : ∀ {s v x s'}, B.alloc s v = .ok (x, s') → ¬ Known s (B.getVariable x) ∧
    (∀ u, Known s' u ↔ Known s u ∨ u = B.getVariable x) ∧
    (∀ w, Satisfied s' w ↔ Satisfied s w) ∧ proving s' = proving s
  /-- At setup the value is not computed. -/
  alloc_setup : ∀ {s}, proving s = false → ∃ r, ∀ v, B.alloc s v = .ok r
  /-- The prover keeps it. -/
  alloc_proving : ∀ {s} v, proving s = true → ∃ x s', B.alloc s (.ok v) = .ok (x, s') ∧
    B.getValue x = some v ∧ value s' (B.getVariable x) = v ∧
    ∀ u, Known s u → value s' u = value s u

/-- Where a circuit with `n` inputs begins: without values at setup, with them for the prover.
    What stands there before leaves the inputs free. -/
structure Start {K : Type} [Field K] {B : ConstraintSystem K} (L : B.Laws) (n : Nat) where
  state : Option (Fin n → K) → B.State
  input : Option (Fin n → K) → Fin n → B.Num
  proving : ∀ z, L.proving (state z) = z.isSome
  known_input : ∀ z i, L.Known (state z) (B.getVariable (input z i))
  satisfied_one : ∀ {z w}, L.Satisfied (state z) w → w B.one = 1
  satisfied_known : ∀ {z w w'}, (∀ v, L.Known (state z) v → w' v = w v) →
    L.Satisfied (state z) w → L.Satisfied (state z) w'
  satisfied_free : ∀ z : Fin n → K, ∃ w, L.Satisfied (state none) w ∧
    ∀ i, w (B.getVariable (input none i)) = z i
  satisfied_value : ∀ z, L.Satisfied (state (some z)) (L.value (state (some z)))
  getValue_input : ∀ z i, B.getValue (input (some z) i) = some (z i)
  value_input : ∀ z i, L.value (state (some z)) (B.getVariable (input (some z) i)) = z i

/-! ## 2. Step circuits -/

structure StepCircuit {K : Type} (B : ConstraintSystem K) (n : Nat) where
  synthesize : B.State → (Fin n → B.Num) → Except B.SynthesisError ((Fin n → B.Num) × B.State)

namespace StepCircuit

variable {K : Type} [Field K] {B : ConstraintSystem K} {L : B.Laws} {n : Nat} (S : Start L n)

/-- The outputs and the constraints, as setup sees them. -/
def shape (c : StepCircuit B n) : Except B.SynthesisError ((Fin n → B.Num) × B.State) :=
  c.synthesize (S.state none) (S.input none)

/-- **What the constraints say** of inputs and outputs. -/
def Step (c : StepCircuit B n) (z z' : Fin n → K) : Prop :=
  ∃ out s w, c.shape S = .ok (out, s) ∧ L.Satisfied s w ∧
    (∀ i, w (B.getVariable (S.input none i)) = z i) ∧ ∀ i, z' i = w (B.getVariable (out i))

/-- The prover runs `c` on constraints set up with `setup`, and its values meet them. -/
def Executes (setup c : StepCircuit B n) (z z' : Fin n → K) : Prop :=
  c.shape S = setup.shape S ∧
    ∃ out s, c.synthesize (S.state (some z)) (S.input (some z)) = .ok (out, s) ∧
      L.Satisfied s (L.value s) ∧ ∀ i, B.getValue (out i) = some (z' i)

variable {S}

theorem Executes.unique {setup c : StepCircuit B n} {z y y' : Fin n → K}
    (h : setup.Executes S c z y) (h' : setup.Executes S c z y') : y = y' := by
  obtain ⟨_, out, s, hrun, _, hy⟩ := h
  obtain ⟨_, out', s', hrun', _, hy'⟩ := h'
  cases hrun.symm.trans hrun'
  exact funext fun i => Option.some.inj ((hy i).symm.trans (hy' i))

variable (S)

/-- The prover runs one circuit after the other. -/
def ExecutesAll (setup : StepCircuit B n) :
    List (StepCircuit B n) → (Fin n → K) → (Fin n → K) → Prop
  | [], z, z' => z = z'
  | c :: cs, z, z' => ∃ y, setup.Executes S c z y ∧ ExecutesAll setup cs y z'

end StepCircuit

/-! ## 3. Steps in a row -/

/-- `k` steps in a row. -/
def Chain {Z : Type} (R : Z → Z → Prop) : Nat → Z → Z → Prop
  | 0, z, z' => z = z'
  | k + 1, z, z' => ∃ y, R z y ∧ Chain R k y z'

/-- A step that fixes `f` of the state and leaves the rest open: so do many steps. -/
theorem chain_iff {Z A : Type} {R : Z → Z → Prop} {f : Z → A} {g : A → A}
    (h : ∀ z z', R z z' ↔ f z' = g (f z)) (hsurj : Function.Surjective f) :
    ∀ {k : Nat} {z z' : Z}, Chain R (k + 1) z z' ↔ f z' = g^[k + 1] (f z)
  | 0, z, z' => by
      simp [Chain, h]
  | k + 1, z, z' => by
      rw [Function.iterate_succ_apply, Chain]
      simp only [chain_iff h hsurj, h]
      constructor
      · intro hy
        obtain ⟨y, hy, hz⟩ := hy
        rw [hz, hy]
      · intro hz
        obtain ⟨y, hy⟩ := hsurj (g (f z))
        exact ⟨y, hy, by rw [hz, hy]⟩

/-! ## 4. Recursive proofs -/

/-- A prover and a verifier for chains of one step circuit. Running circuits of that shape whose
    constraints are met gives a proof that is accepted for its number of steps and first inputs. -/
structure RecursiveSnark {K : Type} [Field K] {B : ConstraintSystem K} {L : B.Laws} {n : Nat}
    (S : Start L n) (setup : StepCircuit B n) where
  Proof : Type
  new : StepCircuit B n → (Fin n → K) → Option Proof
  proveStep : Proof → StepCircuit B n → Option Proof
  verify : Proof → Nat → (Fin n → K) → Option (Fin n → K)
  complete : ∀ c cs z z', setup.ExecutesAll S (c :: cs) z z' →
    ∃ p₀ p, new c z = some p₀ ∧ (c :: cs).foldlM proveStep p₀ = some p ∧
      verify p (cs.length + 1) z = some z'

section Proofs

variable {K : Type} [Field K] {B : ConstraintSystem K} {L : B.Laws} {n : Nat} {S : Start L n}
  {setup : StepCircuit B n}

/-- The argument is sound for this proof: whatever it is accepted for is a chain. -/
def RecursiveSnark.Sound (R : RecursiveSnark S setup) (p : R.Proof) : Prop :=
  ∀ k z z', R.verify p k z = some z' → 0 < k ∧ Chain (setup.Step S) k z z'

/-- The proof is accepted for one number of steps and for one start. -/
def RecursiveSnark.Binds (R : RecursiveSnark S setup) (p : R.Proof) : Prop :=
  ∀ k k' z z' y y', R.verify p k z = some y → R.verify p k' z' = some y' → k' = k ∧ z' = z

/-- How many steps were made, from where, and to where. -/
structure Counted (n : Nat) (K : Type) where
  steps : Nat
  start : Fin n → K
  current : Fin n → K

namespace Counted

open Classical in
noncomputable def proveStep (S : Start L n) (setup : StepCircuit B n) (p : Counted n K)
    (c : StepCircuit B n) : Option (Counted n K) :=
  if h : ∃ z, setup.Executes S c p.current z then some ⟨p.steps + 1, p.start, h.choose⟩ else none

open Classical in
noncomputable def verify (p : Counted n K) (k : Nat) (z : Fin n → K) : Option (Fin n → K) :=
  if 0 < k ∧ k = p.steps ∧ z = p.start then some p.current else none

omit [Field K] in
theorem verify_iff {p : Counted n K} {k : Nat} {y y' : Fin n → K} :
    p.verify k y = some y' ↔ 0 < k ∧ k = p.steps ∧ y = p.start ∧ y' = p.current := by
  unfold verify
  split
  · rename_i h
    obtain ⟨hk, rfl, rfl⟩ := h
    simp [hk, eq_comm]
  · rename_i h
    simp only [reduceCtorEq, false_iff]
    exact fun hk => h ⟨hk.1, hk.2.1, hk.2.2.1⟩

theorem foldlM_proveStep {z' : Fin n → K} :
    ∀ {cs : List (StepCircuit B n)} {p : Counted n K}, setup.ExecutesAll S cs p.current z' →
      cs.foldlM (proveStep S setup) p = some ⟨p.steps + cs.length, p.start, z'⟩
  | [], p, h => by
      cases h
      rfl
  | c :: cs, p, h => by
      obtain ⟨y, hy, hrest⟩ := h
      have hex : ∃ z, setup.Executes S c p.current z := ⟨y, hy⟩
      have hsame : hex.choose = y := hex.choose_spec.unique hy
      have hstep : proveStep S setup p c = some ⟨p.steps + 1, p.start, y⟩ := by
        unfold proveStep
        rw [dif_pos hex, hsame]
      have hcs := foldlM_proveStep (p := ⟨p.steps + 1, p.start, y⟩) hrest
      rw [List.foldlM_cons, hstep, List.length_cons, Nat.add_comm cs.length, ← Nat.add_assoc]
      exact hcs

end Counted

/-- **There are such provers and verifiers**: one that counts. -/
noncomputable def counted (S : Start L n) (setup : StepCircuit B n) : RecursiveSnark S setup where
  Proof := Counted n K
  new _ z := some ⟨0, z, z⟩
  proveStep := Counted.proveStep S setup
  verify := Counted.verify
  complete := by
    intro c cs z z' h
    refine ⟨_, _, rfl, Counted.foldlM_proveStep (p := ⟨0, z, z⟩) h, ?_⟩
    exact Counted.verify_iff.mpr ⟨Nat.succ_pos _, (Nat.zero_add _).symm, rfl, rfl⟩

/-- Its proofs bind. -/
theorem counted_binds (p : Counted n K) : (counted S setup).Binds p := by
  intro k k' z z' y y' h h'
  obtain ⟨_, hk, hz, _⟩ := Counted.verify_iff.mp h
  obtain ⟨_, hk', hz', _⟩ := Counted.verify_iff.mp h'
  exact ⟨hk'.trans hk.symm, hz'.trans hz.symm⟩

end Proofs

/-! ## 5. A constraint system -/

namespace Vectors

variable {K : Type} [Field K]

inductive Variable where
  | one
  | alloc (i : Nat)
  deriving DecidableEq

/-- What was allocated and enforced so far: a value for every variable of the prover's, and the
    constraints as three sums of variables. -/
structure System (K : Type) where
  proving : Bool
  next : Nat
  value : Nat → K
  constraints : List (List Variable × List Variable × List Variable)

def read (w : Nat → K) : Variable → K
  | .one => 1
  | .alloc i => w i

/-- A constraint system that keeps what it is given. -/
def system (K : Type) [Field K] : ConstraintSystem K where
  State := System K
  Num := Variable × Option K
  Variable := Variable
  LinearCombination := List Variable
  SynthesisError := Unit
  assignmentMissing := ()
  one := .one
  getValue x := x.2
  getVariable x := x.1
  add lc v := lc ++ [v]
  alloc s v :=
    if s.proving then
      match v with
      | .error e => .error e
      | .ok v => .ok ((.alloc s.next, some v),
          { s with next := s.next + 1, value := Function.update s.value s.next v })
    else .ok ((.alloc s.next, none), { s with next := s.next + 1 })
  enforce s a b c := { s with constraints := s.constraints ++ [(a [], b [], c [])] }

def known (s : System K) : Variable → Prop
  | .one => True
  | .alloc i => i < s.next

/-- The assignments are those that give `one` its value. -/
def Satisfied (s : System K) (w : Variable → K) : Prop :=
  w .one = 1 ∧ ∀ k ∈ s.constraints,
    (k.1.map w).sum * (k.2.1.map w).sum = (k.2.2.map w).sum

theorem sum_map_concat (w : Variable → K) (lc : List Variable) (v : Variable) :
    ((lc ++ [v]).map w).sum = (lc.map w).sum + w v := by
  rw [List.map_append, List.sum_append, List.map_singleton, List.sum_singleton]

/-- It keeps the laws. -/
def laws (K : Type) [Field K] : (system K).Laws where
  proving s := s.proving
  Known := known
  value s := read s.value
  Satisfied := Satisfied
  zero := []
  eval w lc := (lc.map w).sum
  eval_zero _ := rfl
  eval_add := sum_map_concat
  enforce_satisfied s a b c w := by
    simp [Satisfied, system, or_imp, forall_and, and_assoc]
  enforce_known s a b c v := by
    cases v <;> exact Iff.rfl
  enforce_proving _ _ _ _ := rfl
  enforce_value _ _ _ _ := rfl
  alloc_new := by
    intro s v x s' h
    have hnext : x.1 = .alloc s.next ∧ s'.next = s.next + 1 ∧
        s'.constraints = s.constraints ∧ s'.proving = s.proving := by
      simp only [system] at h
      split at h
      · split at h
        · cases h
        · cases h
          exact ⟨rfl, rfl, rfl, rfl⟩
      · cases h
        exact ⟨rfl, rfl, rfl, rfl⟩
    obtain ⟨hx, hlen, hcs, hproving⟩ := hnext
    have hvar : (system K).getVariable x = .alloc s.next := hx
    rw [hvar]
    refine ⟨Nat.lt_irrefl s.next, fun u => ?_, fun w => ?_, hproving⟩
    · cases u with
      | one => exact iff_of_true trivial (.inl trivial)
      | alloc i =>
          show i < s'.next ↔ i < s.next ∨ Variable.alloc i = Variable.alloc s.next
          rw [hlen, Nat.lt_succ_iff_lt_or_eq, Variable.alloc.injEq]
    · unfold Satisfied
      rw [hcs]
  alloc_setup := by
    intro s hs
    exact ⟨_, fun v => if_neg (by rw [hs]; exact Bool.false_ne_true)⟩
  alloc_proving := by
    intro s v hs
    refine ⟨_, _, if_pos hs, rfl, Function.update_self _ _ _, fun u hu => ?_⟩
    cases u with
    | one => rfl
    | alloc i => exact Function.update_of_ne (Nat.ne_of_lt hu) _ _

/-- A circuit begins with its inputs. -/
def start (K : Type) [Field K] (n : Nat) : Start (laws K) n where
  state z := ⟨z.isSome, n, fun i => if h : i < n then (z.elim 0 fun z => z ⟨i, h⟩) else 0, []⟩
  input z i := (.alloc i, z.map fun z => z i)
  proving _ := rfl
  known_input _ i := i.isLt
  satisfied_one h := h.1
  satisfied_known := by
    intro z w w' h hw
    exact ⟨(h .one trivial).trans hw.1, fun k hk => absurd hk List.not_mem_nil⟩
  satisfied_free z := by
    refine ⟨read fun i => if h : i < n then z ⟨i, h⟩ else 0, ⟨rfl, fun k hk => ?_⟩, fun i => ?_⟩
    · exact absurd hk List.not_mem_nil
    · exact dif_pos i.isLt
  satisfied_value _ := ⟨rfl, fun k hk => absurd hk List.not_mem_nil⟩
  getValue_input _ _ := rfl
  value_input z i := dif_pos i.isLt

end Vectors

end Lib
