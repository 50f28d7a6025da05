/-
  File:      Specter/Lib/Fork.lean
  Subject:   WHERE TWO LISTS PART. Two lists compared entry by entry through a key, as far as the
             shorter one goes. No program fact.

  * `firstFork` -- the first index at which the keys differ, with the two entries;
  * `Forks` -- that index as a relation: the keys differ there and agree before;
  * `firstFork_iff` -- the search finds it; `Forks.symm` -- it is the same seen from either list;
  * `firstFork_prefix` -- two beginnings of one list do not part.
-/
import Mathlib.Data.Nat.Notation

namespace Lib

variable {α κ : Type*}

/-- The first index at which the keys of the two lists differ, and the entries there. -/
def firstFork [DecidableEq κ] (f : α → κ) : List α → List α → Option (ℕ × α × α)
  | a :: as, b :: bs =>
      if f a = f b then (firstFork f as bs).map fun x => (x.1 + 1, x.2) else some (0, a, b)
  | _, _ => none

/-- The entries at `k` have different keys, and all pairs before have the same. -/
structure Forks (f : α → κ) (as bs : List α) (k : ℕ) (a b : α) : Prop where
  left : as[k]? = some a
  right : bs[k]? = some b
  differ : f a ≠ f b
  same : ∀ j < k, as[j]?.map f = bs[j]?.map f

theorem Forks.symm {f : α → κ} {as bs : List α} {k : ℕ} {a b : α} (h : Forks f as bs k a b) :
    Forks f bs as k b a :=
  ⟨h.right, h.left, h.differ.symm, fun j hj => (h.same j hj).symm⟩

/-- Two lists with the same key in front part where their tails do, one further on. -/
theorem forks_cons_succ {f : α → κ} {x y a b : α} {as bs : List α} {k : ℕ} (hxy : f x = f y) :
    Forks f (x :: as) (y :: bs) (k + 1) a b ↔ Forks f as bs k a b := by
  constructor
  · intro h
    refine ⟨h.left, h.right, h.differ, fun j hj => ?_⟩
    exact h.same (j + 1) (Nat.succ_lt_succ hj)
  · intro h
    refine ⟨h.left, h.right, h.differ, fun j hj => ?_⟩
    cases j with
    | zero => exact congrArg some hxy
    | succ j => exact h.same j (Nat.lt_of_succ_lt_succ hj)

/-- **The search finds the fork.** -/
theorem firstFork_iff [DecidableEq κ] {f : α → κ} {as bs : List α} {k : ℕ} {a b : α} :
    firstFork f as bs = some (k, a, b) ↔ Forks f as bs k a b := by
  induction as generalizing bs k with
  | nil =>
      constructor
      · intro h
        cases h
      · intro h
        cases h.left
  | cons x as ih =>
      cases bs with
      | nil =>
          constructor
          · intro h
            cases h
          · intro h
            cases h.right
      | cons y bs =>
          by_cases hxy : f x = f y
          · rw [firstFork, if_pos hxy, Option.map_eq_some_iff]
            cases k with
            | zero =>
                constructor
                · rintro ⟨r, _, hr⟩
                  cases hr
                · intro h
                  -- the heads have the same key
                  cases h.left
                  cases h.right
                  exact absurd hxy h.differ
            | succ k =>
                rw [forks_cons_succ hxy, ← ih]
                constructor
                · rintro ⟨⟨j, r⟩, h, hr⟩
                  cases hr
                  exact h
                · exact fun h => ⟨(k, a, b), h, rfl⟩
          · rw [firstFork, if_neg hxy, Option.some.injEq, Prod.mk.injEq, Prod.mk.injEq]
            constructor
            · rintro ⟨rfl, rfl, rfl⟩
              exact ⟨rfl, rfl, hxy, fun j hj => absurd hj (Nat.not_lt_zero j)⟩
            · intro h
              cases k with
              | zero =>
                  cases h.left
                  cases h.right
                  exact ⟨rfl, rfl, rfl⟩
              | succ k =>
                  have hhead : some (f x) = some (f y) := h.same 0 (Nat.zero_lt_succ k)
                  exact absurd (Option.some.inj hhead) hxy

/-- **Two beginnings of one list do not part.** -/
theorem firstFork_prefix [DecidableEq κ] {f : α → κ} {l as bs : List α} (has : as <+: l)
    (hbs : bs <+: l) : firstFork f as bs = none := by
  induction l generalizing as bs with
  | nil =>
      rw [List.prefix_nil.mp has]
      rfl
  | cons x l ih =>
      cases as with
      | nil => rfl
      | cons a as =>
          cases bs with
          | nil => rfl
          | cons b bs =>
              obtain ⟨hxa, hrestA⟩ := List.cons_prefix_cons.mp has
              obtain ⟨hxb, hrestB⟩ := List.cons_prefix_cons.mp hbs
              rw [firstFork, if_pos (by rw [hxa, hxb]), ih hrestA hrestB]
              rfl

end Lib
