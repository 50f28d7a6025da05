/-
  File:      Specter/Lib/Search.lean
  Subject:   THE FIRST CANDIDATE A TEST ACCEPTS, for a test that may panic: candidates are tested
             one after another, without end if it has to be. No program fact.

  * `search` -- the search cut off after a number of rounds; `search_add` takes rejected
    candidates off its front;
  * `Ends` -- it has come to its end, however many more rounds it is given;
  * `ends_found_iff` -- it finds the first candidate that is not rejected, where that one is
    accepted; `ends_panicked` -- and panics where the test does.
-/
import Mathlib.Data.Nat.Notation
import Mathlib.Logic.Function.Iterate

namespace Lib

/-- Where a search is after some rounds. -/
inductive Search (ε α : Type*) where
  | running (a : α)
  | panicked (e : ε)
  | found (a : α)
  deriving DecidableEq

variable {ε α : Type*}

/-- The search from `a` on, cut off after `fuel` rounds. -/
def search (test : α → Except ε Bool) (next : α → α) : Nat → α → Search ε α
  | 0, a => .running a
  | fuel + 1, a =>
      match test a with
      | .error e => .panicked e
      | .ok true => .found a
      | .ok false => search test next fuel (next a)

/-- The search from `a` has come to `s` after some rounds, and stays there. -/
def Ends (test : α → Except ε Bool) (next : α → α) (a : α) (s : Search ε α) : Prop :=
  ∃ rounds, ∀ fuel, rounds ≤ fuel → search test next fuel a = s

/-- The first `n` candidates are rejected. -/
def Rejects (test : α → Except ε Bool) (next : α → α) (a : α) (n : Nat) : Prop :=
  ∀ i < n, test (next^[i] a) = .ok false

variable {test : α → Except ε Bool} {next : α → α} {a b : α} {e : ε} {n fuel : Nat}

/-- Rejected candidates are passed over. -/
theorem search_add (h : Rejects test next a n) (fuel : Nat) :
    search test next (n + fuel) a = search test next fuel (next^[n] a) := by
  induction n generalizing a with
  | zero => rw [Nat.zero_add, Function.iterate_zero_apply]
  | succ n ih =>
      have hfirst : test a = .ok false := h 0 (Nat.succ_pos n)
      have hrest : Rejects test next (next a) n := fun i hi => h (i + 1) (Nat.succ_lt_succ hi)
      rw [Nat.add_right_comm, search, hfirst, Function.iterate_succ_apply]
      exact ih hrest

theorem ends_of_round {s : Search ε α} (h : Rejects test next a n)
    (hs : ∀ fuel, search test next (fuel + 1) (next^[n] a) = s) : Ends test next a s := by
  refine ⟨n + 1, fun fuel hfuel => ?_⟩
  obtain ⟨k, rfl⟩ := Nat.exists_eq_add_of_le hfuel
  rw [Nat.add_assoc, Nat.add_comm 1 k, search_add h]
  exact hs k

theorem ends_panicked (h : Rejects test next a n) (he : test (next^[n] a) = .error e) :
    Ends test next a (.panicked e) :=
  ends_of_round h fun fuel => by rw [search, he]

theorem exists_of_found (h : search test next fuel a = .found b) :
    ∃ n, Rejects test next a n ∧ next^[n] a = b ∧ test b = .ok true := by
  induction fuel generalizing a with
  | zero => cases h
  | succ fuel ih =>
      cases hfirst : test a with
      | error e =>
          rw [search, hfirst] at h
          cases h
      | ok accepted =>
          cases accepted with
          | true =>
              rw [search, hfirst] at h
              cases h
              exact ⟨0, fun i hi => absurd hi (Nat.not_lt_zero i), rfl, hfirst⟩
          | false =>
              rw [search, hfirst] at h
              obtain ⟨n, hrest, hb, htest⟩ := ih h
              refine ⟨n + 1, fun i hi => ?_, hb, htest⟩
              cases i with
              | zero => exact hfirst
              | succ i => exact hrest i (Nat.lt_of_succ_lt_succ hi)

/-- **What the search finds**: the candidate that is accepted after none but rejected ones. -/
theorem ends_found_iff : Ends test next a (.found b) ↔
    ∃ n, Rejects test next a n ∧ next^[n] a = b ∧ test b = .ok true := by
  constructor
  · intro ⟨rounds, h⟩
    exact exists_of_found (h rounds (Nat.le_refl rounds))
  · intro ⟨n, hrej, hb, htest⟩
    refine ends_of_round hrej fun fuel => ?_
    rw [hb, search, htest]

end Lib
