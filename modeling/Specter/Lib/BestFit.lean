/-
  File:      Specter/Lib/BestFit.lean
  Subject:   THE BEST FIT IN A LIST: the first of the smallest entries among those that pass a
             test, with its place. No program fact.

  * `bestFit` -- what `enumerate().filter(..).min_by_key(..)` finds;
  * `FirstLeast` -- an entry between the entries before and behind it;
  * `bestFit_some`, `bestFit_eq_none` -- what is found, and when nothing is;
  * `bestFit_entry` -- without the places the same entry is found;
  * `getElem?_split`, `eraseIdx_split` -- taking the entry out of the list.
-/
import Mathlib.Data.List.MinMax

namespace Lib

variable {α κ : Type*} [LinearOrder κ]

/-- The place of the first least entry among those that pass, counted from `k`. -/
def bestFitFrom (key : α → κ) (ok : α → Bool) (k : Nat) (xs : List α) : Option (α × Nat) :=
  ((xs.zipIdx k).filter fun p => ok p.1).argmin fun p => key p.1

def bestFit (key : α → κ) (ok : α → Bool) (xs : List α) : Option (α × Nat) :=
  bestFitFrom key ok 0 xs

/-- `a` passes, is below all that pass before it, and not above those behind it. -/
structure FirstLeast (key : α → κ) (ok : α → Bool) (pre : List α) (a : α) (post : List α) :
    Prop where
  passes : ok a = true
  before : ∀ b ∈ pre, ok b = true → key a < key b
  behind : ∀ b ∈ post, ok b = true → key a ≤ key b

theorem FirstLeast.le {key : α → κ} {ok : α → Bool} {pre post : List α} {a b : α}
    (h : FirstLeast key ok pre a post) (hb : b ∈ pre ++ a :: post) (hok : ok b = true) :
    key a ≤ key b := by
  rcases List.mem_append.mp hb with hpre | hrest
  · exact le_of_lt (h.before b hpre hok)
  · rcases List.mem_cons.mp hrest with rfl | hpost
    · exact le_refl _
    · exact h.behind b hpost hok

variable (key : α → κ) (ok : α → Bool)

theorem bestFitFrom_cons (k : Nat) (a : α) (xs : List α) :
    bestFitFrom key ok k (a :: xs) =
      if ok a = true then
        match bestFitFrom key ok (k + 1) xs with
        | none => some (a, k)
        | some p => if key p.1 < key a then some p else some (a, k)
      else bestFitFrom key ok (k + 1) xs := by
  unfold bestFitFrom
  rw [List.zipIdx_cons, List.filter_cons]
  dsimp only
  split
  · rw [List.argmin_cons]
    cases ((xs.zipIdx (k + 1)).filter fun p => ok p.1).argmin fun p => key p.1 with
    | none => rfl
    | some p => rfl
  · rfl

theorem bestFitFrom_some {a : α} {i : Nat} : ∀ {xs : List α} {k : Nat},
    bestFitFrom key ok k xs = some (a, i) →
      ∃ pre post, xs = pre ++ a :: post ∧ i = k + pre.length ∧ FirstLeast key ok pre a post
  | [], k, h => by cases h
  | x :: xs, k, h => by
      rw [bestFitFrom_cons] at h
      by_cases hx : ok x = true
      · rw [if_pos hx] at h
        cases hrest : bestFitFrom key ok (k + 1) xs with
        | none =>
            rw [hrest] at h
            have hnone : ∀ b ∈ xs, ok b = true → False := by
              intro b hb hok
              obtain ⟨j, hj⟩ := List.mem_iff_getElem?.mp hb
              have hin : (b, k + 1 + j) ∈ (xs.zipIdx (k + 1)).filter fun p => ok p.1 :=
                List.mem_filter.mpr ⟨List.mk_add_mem_zipIdx_iff_getElem?.mpr hj, hok⟩
              have hempty := List.argmin_eq_none.mp hrest
              rw [hempty] at hin
              cases hin
            cases h
            exact ⟨[], xs, rfl, rfl, hx, fun b hb => (nomatch hb),
              fun b hb hok => (hnone b hb hok).elim⟩
        | some p =>
            obtain ⟨c, j⟩ := p
            obtain ⟨pre, post, hxs, hj, hleast⟩ := bestFitFrom_some hrest
            rw [hrest] at h
            dsimp only at h
            split at h
            · rename_i hlt
              cases h
              refine ⟨x :: pre, post, by rw [hxs]; rfl, ?_, hleast.passes, ?_, hleast.behind⟩
              · rw [hj, List.length_cons]
                omega
              · intro b hb hok
                rcases List.mem_cons.mp hb with rfl | hpre
                · exact hlt
                · exact hleast.before b hpre hok
            · rename_i hge
              cases h
              refine ⟨[], xs, rfl, rfl, hx, fun b hb => (nomatch hb), fun b hb hok => ?_⟩
              rw [hxs] at hb
              exact le_trans (not_lt.mp hge) (hleast.le hb hok)
      · rw [if_neg hx] at h
        obtain ⟨pre, post, hxs, hj, hleast⟩ := bestFitFrom_some h
        refine ⟨x :: pre, post, by rw [hxs]; rfl, ?_, hleast.passes, ?_, hleast.behind⟩
        · rw [hj, List.length_cons]
          omega
        · intro b hb hok
          rcases List.mem_cons.mp hb with rfl | hpre
          · exact absurd hok hx
          · exact hleast.before b hpre hok

variable {key ok} {xs : List α}

/-- **What is found is the first of the least entries that pass, at its place.** -/
theorem bestFit_some {a : α} {i : Nat} (h : bestFit key ok xs = some (a, i)) :
    ∃ pre post, xs = pre ++ a :: post ∧ pre.length = i ∧ FirstLeast key ok pre a post := by
  obtain ⟨pre, post, hxs, hi, hleast⟩ := bestFitFrom_some key ok h
  exact ⟨pre, post, hxs, by omega, hleast⟩

theorem bestFitFrom_entry (key : α → κ) (ok : α → Bool) : ∀ (xs : List α) (k : Nat),
    (bestFitFrom key ok k xs).map (·.1) = (xs.filter ok).argmin key
  | [], _ => rfl
  | x :: xs, k => by
      rw [bestFitFrom_cons, List.filter_cons]
      split
      · rw [List.argmin_cons, ← bestFitFrom_entry key ok xs (k + 1)]
        cases bestFitFrom key ok (k + 1) xs with
        | none => rfl
        | some p =>
            dsimp only [Option.map_some]
            split <;> rfl
      · exact bestFitFrom_entry key ok xs (k + 1)

/-- **The search without places finds the same entry.** -/
theorem bestFit_entry (key : α → κ) (ok : α → Bool) (xs : List α) :
    (bestFit key ok xs).map (·.1) = (xs.filter ok).argmin key :=
  bestFitFrom_entry key ok xs 0

theorem bestFit_eq_none : bestFit key ok xs = none ↔ ∀ a ∈ xs, ok a = false := by
  rw [← Option.map_eq_none_iff (f := (·.1)), bestFit_entry, List.argmin_eq_none,
    List.filter_eq_nil_iff]
  exact forall₂_congr fun a _ => Bool.not_eq_true (ok a) ▸ Iff.rfl

theorem getElem?_split (pre : List α) (a : α) (post : List α) :
    (pre ++ a :: post)[pre.length]? = some a := by
  rw [List.getElem?_append_right (Nat.le_refl _), Nat.sub_self]
  rfl

theorem eraseIdx_split (pre : List α) (a : α) (post : List α) :
    (pre ++ a :: post).eraseIdx pre.length = pre ++ post := by
  rw [List.eraseIdx_append_of_length_le (Nat.le_refl _), Nat.sub_self]
  rfl

end Lib
