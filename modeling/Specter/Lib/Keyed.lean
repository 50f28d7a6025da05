/-
  File:      Specter/Lib/Keyed.lean
  Subject:   MAPS BUILT BY INSERTION, and monadic loops over lists. No program fact.

  A map is an association list without repeated keys; its order stands for the order in which a
  hash map is walked.

  * `pairs` -- the entries in that order; `ofPairs` -- one insertion after the other, a later
    one replacing an earlier;
  * `table` -- the pairs of a function over a list of keys;
  * `keys_ofPairs` -- a key stands where it was inserted last; `lookup_table`, `pairs_table` -- the
    map of a function over keys, repeated or not;
  * `lastIdx`, `ofPairs_zipIdx` -- of keys inserted with their positions the last one is kept;
  * `total`, `total_insert`, `total_erase` -- the sum of a measure over a map, and how an
    insertion or a removal changes it;
  * `sum_pairs_split` -- a sum over one map, split by the keys of another;
  * `forM_eq_pure`, `mapM_eq_pure` -- loops every round of which succeeds.
-/
import Mathlib.Algebra.BigOperators.Group.List.Basic
import Mathlib.Algebra.Ring.Nat
import Mathlib.Data.List.AList
import Mathlib.Data.List.Dedup

namespace Lib

/-- A map from keys to values. -/
abbrev Keyed (κ α : Type*) := AList fun _ : κ => α

namespace Keyed

variable {κ α β : Type*} [DecidableEq κ]

def pairs (m : Keyed κ α) : List (κ × α) := m.entries.map fun e => (e.1, e.2)

/-- The map after inserting the pairs in turn. -/
def ofPairs (l : List (κ × α)) : Keyed κ α := l.foldl (fun m p => m.insert p.1 p.2) ∅

theorem mem_pairs {m : Keyed κ α} {k : κ} {a : α} :
    (k, a) ∈ m.pairs ↔ AList.lookup k m = some a := by
  rw [← Option.mem_def, AList.mem_lookup_iff]
  unfold pairs
  simp

omit [DecidableEq κ] in
theorem map_fst_pairs (m : Keyed κ α) : m.pairs.map (·.1) = m.keys := by
  unfold pairs AList.keys List.keys
  rw [List.map_map]
  rfl

omit [DecidableEq κ] in
theorem mem_iff {m : Keyed κ α} {k : κ} : k ∈ m ↔ k ∈ m.pairs.map (·.1) := by
  rw [map_fst_pairs, AList.mem_keys]

/-- The pairs of a function over a list of keys. -/
def table (ks : List κ) (g : κ → α) : List (κ × α) := ks.map fun k => (k, g k)

omit [DecidableEq κ] in
@[simp] theorem map_fst_table (ks : List κ) (g : κ → α) : (table ks g).map (·.1) = ks := by
  simp [table, Function.comp_def]

omit [DecidableEq κ] in
theorem reverse_table (ks : List κ) (g : κ → α) : (table ks g).reverse = table ks.reverse g := by
  simp [table]

/-! ## Repeated keys -/

/-- Filtering and taking the last occurrences commute. -/
theorem dedup_filter (p : κ → Bool) (ks : List κ) : (ks.filter p).dedup = ks.dedup.filter p := by
  induction ks with
  | nil => rfl
  | cons k ks ih =>
      by_cases hp : p k = true
      · rw [List.filter_cons_of_pos hp]
        by_cases hk : k ∈ ks
        · rw [List.dedup_cons_of_mem (List.mem_filter.mpr ⟨hk, hp⟩), List.dedup_cons_of_mem hk, ih]
        · have hk' : k ∉ ks.filter p := fun h => hk (List.mem_filter.mp h).1
          rw [List.dedup_cons_of_notMem hk', List.dedup_cons_of_notMem hk,
            List.filter_cons_of_pos hp, ih]
      · rw [List.filter_cons_of_neg hp, ih]
        by_cases hk : k ∈ ks
        · rw [List.dedup_cons_of_mem hk]
        · rw [List.dedup_cons_of_notMem hk, List.filter_cons_of_neg hp]

theorem keys_foldl (l : List (κ × α)) : ∀ m : Keyed κ α,
    (l.foldl (fun m p => m.insert p.1 p.2) m).keys =
      (l.map (·.1)).dedup.reverse ++ m.keys.filter (· ∉ l.map (·.1)) := by
  induction l with
  | nil =>
      intro m
      simp
  | cons p l ih =>
      intro m
      have herase : m.keys.erase p.1 = m.keys.filter (· ≠ p.1) := by
        rw [(AList.keys_nodup m).erase_eq_filter]
        exact List.filter_congr fun k _ => by simp [bne, Bool.beq_eq_decide_eq]
      have hrest : (m.keys.erase p.1).filter (· ∉ l.map (·.1)) =
          m.keys.filter (· ∉ (p :: l).map (·.1)) := by
        rw [herase, List.filter_filter]
        refine List.filter_congr fun k _ => ?_
        rw [← Bool.decide_and, decide_eq_decide, List.map_cons, List.mem_cons, not_or, and_comm]
      rw [List.foldl_cons, ih, AList.keys_insert]
      by_cases hp : p.1 ∈ l.map (·.1)
      · rw [List.filter_cons_of_neg (by simpa using hp), hrest, List.map_cons,
          List.dedup_cons_of_mem hp]
      · rw [List.filter_cons_of_pos (by simpa using hp), hrest, List.map_cons,
          List.dedup_cons_of_notMem hp, List.reverse_cons, List.append_assoc, List.singleton_append]

/-- A key stands where it was inserted last. -/
theorem keys_ofPairs (l : List (κ × α)) :
    (ofPairs l).pairs.map (·.1) = (l.map (·.1)).dedup.reverse := by
  have h := keys_foldl l ∅
  rw [AList.keys_empty, List.filter_nil, List.append_nil] at h
  rw [map_fst_pairs]
  exact h

theorem pairs_eq_table {m : Keyed κ α} {v : κ → α}
    (h : ∀ k ∈ m.pairs.map (·.1), AList.lookup k m = some (v k)) :
    m.pairs = table (m.pairs.map (·.1)) v := by
  unfold table
  rw [List.map_map]
  refine (List.map_id m.pairs).symm.trans (List.map_congr_left fun p hp => ?_)
  have hv := h p.1 (List.mem_map_of_mem hp)
  rw [mem_pairs.mp hp] at hv
  exact Prod.ext rfl (Option.some.inj hv)

theorem lookup_foldl_map {g : κ → α → β} {k : κ} (l : List (κ × α)) :
    ∀ (m : Keyed κ α) (n : Keyed κ β), AList.lookup k n = (AList.lookup k m).map (g k) →
      AList.lookup k ((l.map fun p => (p.1, g p.1 p.2)).foldl (fun n p => n.insert p.1 p.2) n) =
        (AList.lookup k (l.foldl (fun m p => m.insert p.1 p.2) m)).map (g k) := by
  induction l with
  | nil => exact fun _ _ h => h
  | cons p l ih =>
      intro m n h
      refine ih (m.insert p.1 p.2) (n.insert p.1 (g p.1 p.2)) ?_
      by_cases hk : k = p.1
      · rw [hk, AList.lookup_insert, AList.lookup_insert]
        rfl
      · rw [AList.lookup_insert_ne hk, AList.lookup_insert_ne hk, h]

/-- Mapping the values maps the values that are looked up. -/
theorem lookup_ofPairs_map {g : κ → α → β} {k : κ} (l : List (κ × α)) :
    AList.lookup k (ofPairs (l.map fun p => (p.1, g p.1 p.2))) =
      (AList.lookup k (ofPairs l)).map (g k) :=
  lookup_foldl_map l ∅ ∅ (by rw [AList.lookup_empty, AList.lookup_empty]; rfl)

theorem lookup_foldl {k : κ} {a : α} (l : List (κ × α)) : ∀ m : Keyed κ α,
    AList.lookup k (l.foldl (fun m p => m.insert p.1 p.2) m) = some a →
      (k, a) ∈ l ∨ AList.lookup k m = some a := by
  induction l with
  | nil => exact fun _ h => .inr h
  | cons p l ih =>
      intro m h
      rcases ih (m.insert p.1 p.2) h with h | h
      · exact .inl (List.mem_cons_of_mem p h)
      · by_cases hk : k = p.1
        · subst hk
          rw [AList.lookup_insert] at h
          cases h
          exact .inl List.mem_cons_self
        · rw [AList.lookup_insert_ne hk] at h
          exact .inr h

/-- What is looked up was inserted. -/
theorem mem_of_lookup_ofPairs {k : κ} {a : α} {l : List (κ × α)}
    (h : AList.lookup k (ofPairs l) = some a) : (k, a) ∈ l := by
  rcases lookup_foldl l ∅ h with h | h
  · exact h
  · cases h

theorem mem_ofPairs {k : κ} {l : List (κ × α)} : k ∈ ofPairs l ↔ k ∈ l.map (·.1) := by
  rw [mem_iff, keys_ofPairs, List.mem_reverse, List.mem_dedup]

/-- A function over keys, each repeated as often as it likes. -/
theorem lookup_table {ks : List κ} (g : κ → α) {k : κ} (hk : k ∈ ks) :
    AList.lookup k (ofPairs (table ks g)) = some (g k) := by
  have hmem : k ∈ ofPairs (table ks g) := by
    rw [mem_ofPairs, map_fst_table]
    exact hk
  obtain ⟨a, ha⟩ := Option.isSome_iff_exists.mp (AList.lookup_isSome.mpr hmem)
  obtain ⟨j, _, hj⟩ := List.mem_map.mp (mem_of_lookup_ofPairs ha)
  cases hj
  exact ha

theorem pairs_table_dedup (ks : List κ) (g : κ → α) :
    (ofPairs (table ks g)).pairs = table ks.dedup.reverse g := by
  have hkeys : (ofPairs (table ks g)).pairs.map (·.1) = ks.dedup.reverse := by
    rw [keys_ofPairs, map_fst_table]
  rw [pairs_eq_table (v := g), hkeys]
  intro k hk
  rw [hkeys, List.mem_reverse, List.mem_dedup] at hk
  exact lookup_table g hk

theorem pairs_table {ks : List κ} (hnd : ks.Nodup) (g : κ → α) :
    (ofPairs (table ks g)).pairs = table ks.reverse g := by
  rw [pairs_table_dedup, hnd.dedup]

/-- Where a key stands last. -/
def lastIdx (ks : List κ) (k : κ) : Nat := (AList.lookup k (ofPairs ks.zipIdx)).getD 0

theorem lookup_zipIdx {ks : List κ} {k : κ} (hk : k ∈ ks) :
    AList.lookup k (ofPairs ks.zipIdx) = some (lastIdx ks k) := by
  have hmem : k ∈ ofPairs ks.zipIdx := by
    rw [mem_ofPairs, List.zipIdx_map_fst]
    exact hk
  obtain ⟨i, hi⟩ := Option.isSome_iff_exists.mp (AList.lookup_isSome.mpr hmem)
  unfold lastIdx
  rw [hi]
  rfl

theorem getElem?_lastIdx {ks : List κ} {k : κ} (hk : k ∈ ks) : ks[lastIdx ks k]? = some k :=
  List.mem_zipIdx_iff_getElem?.mp (mem_of_lookup_ofPairs (lookup_zipIdx hk))

theorem lastIdx_of_nodup {ks : List κ} (hnd : ks.Nodup) {k : κ} (hk : k ∈ ks) :
    lastIdx ks k = ks.idxOf k := by
  obtain ⟨hlt, hget⟩ := List.getElem?_eq_some_iff.mp (getElem?_lastIdx hk)
  rw [← hnd.idxOf_getElem _ hlt, hget]

omit [DecidableEq κ] in
theorem ext_pairs {m n : Keyed κ α} (h : m.pairs = n.pairs) : m = n := by
  have hinj : Function.Injective fun e : Sigma fun _ : κ => α => (e.1, e.2) := by
    intro e f hef
    obtain ⟨hfst, hsnd⟩ := Prod.mk.inj hef
    exact Sigma.ext hfst (heq_of_eq hsnd)
  exact AList.ext (List.map_injective_iff.mpr hinj h)

/-- **Keys inserted with their positions**: the last position of each is kept. -/
theorem ofPairs_zipIdx (ks : List κ) (g : κ → Nat → α) :
    ofPairs (ks.zipIdx.map fun p => (p.1, g p.1 p.2)) =
      ofPairs (table ks.dedup fun k => g k (lastIdx ks k)) := by
  have hkeys : (ofPairs (ks.zipIdx.map fun p => (p.1, g p.1 p.2))).pairs.map (·.1) =
      ks.dedup.reverse := by
    rw [keys_ofPairs, List.map_map]
    exact congrArg (fun l : List κ => l.dedup.reverse) (List.zipIdx_map_fst 0 ks)
  refine ext_pairs ?_
  rw [pairs_table_dedup, List.dedup_idem, pairs_eq_table (v := fun k => g k (lastIdx ks k)), hkeys]
  intro k hk
  rw [hkeys, List.mem_reverse, List.mem_dedup] at hk
  rw [lookup_ofPairs_map, lookup_zipIdx hk]
  rfl

/-! ## Totals over a map -/

/-- The sum of a measure over the values. -/
def total (f : α → Nat) (m : Keyed κ α) : Nat := (m.pairs.map fun p => f p.2).sum

/-- Taking a key out of a list of entries takes its measure out of the sum. -/
theorem sum_kerase (f : α → Nat) {k : κ} {a : α} : ∀ {l : List (Sigma fun _ : κ => α)},
    List.dlookup k l = some a →
      ((List.kerase k l).map fun e => f e.2).sum + f a = (l.map fun e => f e.2).sum
  | [], h => by cases h
  | ⟨k', a'⟩ :: l, h => by
      by_cases hk : k = k'
      · subst hk
        rw [List.dlookup_cons_eq] at h
        cases h
        have hk : List.kerase k (⟨k, a⟩ :: l) = l := List.kerase_cons_eq rfl
        rw [hk, List.map_cons, List.sum_cons, Nat.add_comm]
      · rw [List.dlookup_cons_ne l ⟨k', a'⟩ hk] at h
        have ih := sum_kerase f h
        rw [List.kerase_cons_ne hk, List.map_cons, List.sum_cons, List.map_cons, List.sum_cons]
        omega

omit [DecidableEq κ] in
theorem total_eq (f : α → Nat) (m : Keyed κ α) :
    m.total f = (m.entries.map fun e => f e.2).sum := by
  unfold total pairs
  rw [List.map_map]
  rfl

theorem total_erase (f : α → Nat) {m : Keyed κ α} {k : κ} {a : α}
    (h : AList.lookup k m = some a) : Keyed.total f (m.erase k) + f a = m.total f := by
  rw [total_eq, total_eq]
  exact sum_kerase f h

theorem total_insert_new (f : α → Nat) {m : Keyed κ α} {k : κ} (a : α) (h : k ∉ m) :
    Keyed.total f (m.insert k a) = f a + m.total f := by
  rw [total_eq, total_eq, AList.entries_insert_of_notMem h, List.map_cons, List.sum_cons]

theorem total_insert (f : α → Nat) {m : Keyed κ α} {k : κ} {a : α} (b : α)
    (h : AList.lookup k m = some a) : Keyed.total f (m.insert k b) + f a = f b + m.total f := by
  have hsum := sum_kerase f h
  rw [total_eq, total_eq, AList.entries_insert, List.map_cons, List.sum_cons, Nat.add_assoc]
  exact congrArg (f b + ·) hsum

/-! ## Two maps -/

omit [DecidableEq κ] in
theorem nodup_keys (m : Keyed κ α) : (m.pairs.map (·.1)).Nodup := by
  rw [map_fst_pairs]
  exact AList.keys_nodup m

/-- **The sum over a map**, split by whether a second map has the key too; where it has, its own
    entry has the same measure. -/
theorem sum_pairs_split {M : Type*} [AddCommMonoid M] {m : Keyed κ α} {s : Keyed κ β}
    {f : α → M} {g : β → M}
    (h : ∀ p ∈ s.pairs, ∃ a, AList.lookup p.1 m = some a ∧ g p.2 = f a) :
    (s.pairs.map fun p => g p.2).sum +
        ((m.pairs.filter fun p => (AList.lookup p.1 s).isNone).map fun p => f p.2).sum =
      (m.pairs.map fun p => f p.2).sum := by
  -- the measure of `m` as a function of the key
  let F : κ → M := fun k => ((AList.lookup k m).map f).getD 0
  have hm : ∀ p ∈ m.pairs, f p.2 = F p.1 := by
    intro p hp
    show f p.2 = ((AList.lookup p.1 m).map f).getD 0
    rw [mem_pairs.mp hp]
    rfl
  have hs : ∀ p ∈ s.pairs, g p.2 = F p.1 := by
    intro p hp
    obtain ⟨a, ha, hga⟩ := h p hp
    show g p.2 = ((AList.lookup p.1 m).map f).getD 0
    rw [ha, hga]
    rfl
  let shared := m.pairs.filter fun p => (AList.lookup p.1 s).isSome
  have hshared : (s.pairs.map (·.1)).Perm (shared.map (·.1)) := by
    refine (List.perm_ext_iff_of_nodup (nodup_keys s)
      ((nodup_keys m).sublist (List.filter_sublist.map _))).mpr fun k => ?_
    constructor
    · intro hk
      obtain ⟨p, hp, rfl⟩ := List.mem_map.mp hk
      obtain ⟨a, ha, _⟩ := h p hp
      refine List.mem_map.mpr ⟨(p.1, a), List.mem_filter.mpr ⟨mem_pairs.mpr ha, ?_⟩, rfl⟩
      rw [mem_pairs.mp hp]
      rfl
    · intro hk
      obtain ⟨p, hp, rfl⟩ := List.mem_map.mp hk
      obtain ⟨b, hb⟩ := Option.isSome_iff_exists.mp (List.mem_filter.mp hp).2
      exact List.mem_map.mpr ⟨(p.1, b), mem_pairs.mpr hb, rfl⟩
  let rest := m.pairs.filter fun p => (AList.lookup p.1 s).isNone
  have hsplit : (shared ++ rest).Perm m.pairs := by
    have hp := List.filter_append_perm (fun p => (AList.lookup p.1 s).isSome) m.pairs
    simpa [shared, rest] using hp
  have hleft : (s.pairs.map fun p => g p.2) = (s.pairs.map (·.1)).map F := by
    rw [List.map_map]
    exact List.map_congr_left hs
  have hright : (shared.map fun p => f p.2) = (shared.map (·.1)).map F := by
    rw [List.map_map]
    exact List.map_congr_left fun p hp => hm p (List.mem_filter.mp hp).1
  calc (s.pairs.map fun p => g p.2).sum + (rest.map fun p => f p.2).sum
      = (shared.map fun p => f p.2).sum + (rest.map fun p => f p.2).sum := by
        rw [hleft, hright, (hshared.map F).sum_eq]
    _ = (m.pairs.map fun p => f p.2).sum := by
        rw [← List.sum_append, ← List.map_append, (hsplit.map _).sum_eq]

end Keyed

/-! ## Loops in a monad -/

section Loops

variable {m : Type → Type*} [Monad m] [LawfulMonad m] {α β : Type}

/-- A loop every round of which goes through goes through. -/
theorem forM_eq_pure {f : α → m PUnit} {l : List α} (h : ∀ a ∈ l, f a = pure ⟨⟩) :
    l.forM f = pure ⟨⟩ := by
  induction l with
  | nil => rfl
  | cons a l ih =>
      show (f a >>= fun _ => l.forM f) = pure ⟨⟩
      rw [h a List.mem_cons_self, pure_bind]
      exact ih fun b hb => h b (List.mem_cons_of_mem a hb)

/-- A loop whose rounds all return returns their values. -/
theorem mapM_eq_pure {f : α → m β} {g : α → β} {l : List α} (h : ∀ a ∈ l, f a = pure (g a)) :
    l.mapM f = pure (l.map g) := by
  induction l with
  | nil => rfl
  | cons a l ih =>
      rw [List.mapM_cons, h a List.mem_cons_self, ih fun b hb => h b (List.mem_cons_of_mem a hb)]
      simp

end Loops

end Lib
