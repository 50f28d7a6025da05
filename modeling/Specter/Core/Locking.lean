/-
  File:      Specter/Core/Locking.lean
  Subject:   THE LIFE OF THE LOCK FILE (`NullifierSet::with_file` and the `Drop` of
             specter-core/src/nullifier.rs).

  The lock file is the first thing `with_file` makes and belongs to no set before the last line;
  what returns in between leaves it behind. Its name is the path's with another extension, which
  for a path with the extension `lock` is the path.

  * `withFile_of_locks` -- what `with_file` does once the lock file is made;
  * `insertAll_frame`, `insertAll_inStep` -- what inserts on the open set leave alone, and that
    the file keeps the entries of the set;
  * `LockLifeCycle` -- what the lock file is for; `lockLifeCycle_iff` -- the calls it holds of.
-/
import Specter.Core.SpendFile

namespace Specter

open Lib FileSystem

namespace FileBackedSet

variable {fs fs' : FileSystem} {path : Pathname} {fault : Option (OpenCall × OsError)}

/-! ## 1. What `with_file` does -/

/-- The set of the whole entries of a file. -/
def entriesOf (bytes : Bytes) : Finset Bytes32 := (arrays 32 (bytes.length / 32) bytes).toFinset

/-- What is left to go well behind the lock file. -/
structure Loads (fs : FileSystem) (path : Pathname) (fault : Option (OpenCall × OsError)) :
    Prop where
  noFault : fault = none
  size : (fs.contents path).length ≤ maxNullifierFileSize
  whole : (fs.contents path).length % 32 = 0

theorem opened_lock : opened fs path (lockPathOf path) ≠ none := by
  unfold opened FileSystem.put
  by_cases hsame : lockPathOf path = path
  · rw [hsame, Function.update_self]
    exact Option.some_ne_none _
  · rw [Function.update_of_ne hsame, Function.update_self]
    exact Option.some_ne_none _

/-- **Where the lock file is made**, the set is opened if all goes well behind it, and else the
    lock file stays. -/
theorem withFile_of_locks (h : Locks fs path fault) :
    (Loads fs path fault ∧ withFile fs path fault =
      (.ok ⟨entriesOf (fs.contents path), path, lockPathOf path⟩, opened fs path)) ∨
    (¬ Loads fs path fault ∧ ∃ e fs', withFile fs path fault = (.error e, fs') ∧
      fs' (lockPathOf path) ≠ none) := by
  obtain ⟨hnew, hopen⟩ := h.opens
  have hput : (fs.put (lockPathOf path) []) (lockPathOf path) ≠ none := by
    unfold FileSystem.put
    rw [Function.update_self]
    exact Option.some_ne_none _
  unfold withFile
  rw [if_neg h.noParent]
  dsimp only
  rw [osCall_of_ne h.allowed, hnew]
  dsimp only
  rw [hopen]
  cases hfile : osCall fault .file (.ok (opened fs path)) with
  | error e =>
      refine .inr ⟨fun hloads => ?_, _, _, rfl, hput⟩
      rw [hloads.noFault] at hfile
      cases hfile
  | ok fs₁ =>
      obtain ⟨rfl, hnofile⟩ := osCall_ok hfile
      dsimp only
      rw [contents_opened]
      cases hmeta : osCall fault .metadata (.ok (fs.contents path).length) with
      | error e =>
          refine .inr ⟨fun hloads => ?_, _, _, rfl, opened_lock⟩
          rw [hloads.noFault] at hmeta
          cases hmeta
      | ok len =>
          obtain ⟨rfl, hnometa⟩ := osCall_ok hmeta
          dsimp only
          by_cases hsize : (fs.contents path).length > maxNullifierFileSize
          · rw [if_pos hsize]
            exact .inr ⟨fun hloads => absurd hsize (Nat.not_lt.mpr hloads.size), _, _, rfl,
              opened_lock⟩
          · rw [if_neg hsize]
            cases hread : osCall fault .read (.ok (fs.contents path)) with
            | error e =>
                refine .inr ⟨fun hloads => ?_, _, _, rfl, opened_lock⟩
                rw [hloads.noFault] at hread
                cases hread
            | ok buf =>
                obtain ⟨rfl, hnoread⟩ := osCall_ok hread
                dsimp only
                by_cases hwhole : (fs.contents path).length % 32 = 0
                · rw [if_neg (Classical.not_not.mpr hwhole)]
                  refine .inl ⟨⟨?_, Nat.not_lt.mp hsize, hwhole⟩, rfl⟩
                  cases hfault : fault with
                  | none => rfl
                  | some c =>
                      obtain ⟨call, e⟩ := c
                      cases call with
                      | lock => exact absurd hfault (h.allowed e)
                      | file => exact absurd hfault (hnofile e)
                      | metadata => exact absurd hfault (hnometa e)
                      | read => exact absurd hfault (hnoread e)
                · rw [if_pos hwhole]
                  exact .inr ⟨fun hloads => hwhole hloads.whole, _, _, rfl, opened_lock⟩

/-! ## 2. While the set is open -/

/-- Inserts on an open set, each with how far its write gets. -/
def insertAll (s : FileBackedSet) (fs : FileSystem) :
    List (Bytes32 × WriteOutcome) → FileBackedSet × FileSystem
  | [] => (s, fs)
  | c :: calls => insertAll (s.insert fs c.1 c.2).2.1 (s.insert fs c.1 c.2).2.2 calls

/-- An insert keeps the two paths and touches the file only. -/
theorem insert_frame (s : FileBackedSet) (fs : FileSystem) (n : Bytes32) (write : WriteOutcome) :
    (s.insert fs n write).2.1.path = s.path ∧ (s.insert fs n write).2.1.lockPath = s.lockPath ∧
      ∀ p, p ≠ s.path → (s.insert fs n write).2.2 p = fs p := by
  unfold insert
  split
  · exact ⟨rfl, rfl, fun _ _ => rfl⟩
  · cases write with
    | done => exact ⟨rfl, rfl, fun _ hp => append_ne hp⟩
    | writeFails k => exact ⟨rfl, rfl, fun _ hp => append_ne hp⟩
    | flushFails => exact ⟨rfl, rfl, fun _ hp => append_ne hp⟩
    | syncFails => exact ⟨rfl, rfl, fun _ hp => append_ne hp⟩

theorem insertAll_frame (calls : List (Bytes32 × WriteOutcome)) :
    ∀ (s : FileBackedSet) (fs : FileSystem), (insertAll s fs calls).1.path = s.path ∧
      (insertAll s fs calls).1.lockPath = s.lockPath ∧
      ∀ p, p ≠ s.path → (insertAll s fs calls).2 p = fs p := by
  induction calls with
  | nil => exact fun s fs => ⟨rfl, rfl, fun _ _ => rfl⟩
  | cons c calls ih =>
      intro s fs
      obtain ⟨hpath, hlock, hothers⟩ := insert_frame s fs c.1 c.2
      obtain ⟨hpath', hlock', hothers'⟩ := ih (s.insert fs c.1 c.2).2.1 (s.insert fs c.1 c.2).2.2
      refine ⟨hpath'.trans hpath, hlock'.trans hlock, fun p hp => ?_⟩
      exact (hothers' p (by rw [hpath]; exact hp)).trans (hothers p hp)

/-- The open set is the set of the entries of its file, and the file has whole entries. -/
structure InStep (s : FileBackedSet) (fs : FileSystem) : Prop where
  whole : (fs.contents s.path).length % 32 = 0
  entries : s.nullifiers = entriesOf (fs.contents s.path)

theorem entriesOf_append {bytes : Bytes} (h : bytes.length % 32 = 0) (n : Bytes32) :
    entriesOf (bytes ++ n.toList) = Insert.insert n (entriesOf bytes) := by
  have hlen : bytes.length = 32 * (bytes.length / 32) := by omega
  have hall := flatMap_arrays hlen
  have hcount : (arrays 32 (bytes.length / 32) bytes ++ [n]).length =
      (bytes ++ n.toList).length / 32 := by
    have h32 := n.toList_length
    have hcut := length_flatMap_arr (arrays 32 (bytes.length / 32) bytes)
    rw [hall] at hcut
    rw [List.length_append, List.length_append, List.length_singleton]
    omega
  have hmore : (arrays 32 (bytes.length / 32) bytes ++ [n]).flatMap (·.toList) =
      bytes ++ n.toList := by
    rw [List.flatMap_append, hall, List.flatMap_cons, List.flatMap_nil, List.append_nil]
  unfold entriesOf
  rw [← hcount, ← hmore, arrays_flatMap, List.toFinset_append, Finset.union_comm]
  rfl

/-- An insert whose write is done keeps them in step. -/
theorem insert_inStep {s : FileBackedSet} (h : InStep s fs) (n : Bytes32) :
    InStep (s.insert fs n .done).2.1 (s.insert fs n .done).2.2 := by
  have hall : n.toList.take WriteOutcome.done.bytes = n.toList :=
    List.take_of_length_le (Nat.le_of_eq n.toList_length)
  unfold insert
  split
  · exact h
  · refine ⟨?_, ?_⟩
    · show ((fs.append s.path (n.toList.take WriteOutcome.done.bytes)).contents s.path).length % 32
        = 0
      rw [hall, contents_append, List.length_append, n.toList_length, Nat.add_mod_right, h.whole]
    · show Insert.insert n s.nullifiers =
        entriesOf ((fs.append s.path (n.toList.take WriteOutcome.done.bytes)).contents s.path)
      rw [hall, contents_append, entriesOf_append h.whole, h.entries]

/-- An insert whose write is done leaves the nullifier in the set. -/
theorem mem_insert_done (s : FileBackedSet) (fs : FileSystem) (n : Bytes32) :
    n ∈ (s.insert fs n .done).2.1.nullifiers := by
  unfold insert
  split
  · assumption
  · exact Finset.mem_insert_self _ _

theorem insertAll_inStep (calls : List (Bytes32 × WriteOutcome))
    (hdone : ∀ c ∈ calls, c.2 = .done) :
    ∀ {s : FileBackedSet} {fs : FileSystem}, InStep s fs →
      InStep (insertAll s fs calls).1 (insertAll s fs calls).2 := by
  induction calls with
  | nil => exact fun h => h
  | cons c calls ih =>
      intro s fs h
      obtain ⟨n, write⟩ := c
      obtain rfl : write = .done := hdone _ List.mem_cons_self
      exact ih (fun c hc => hdone c (List.mem_cons_of_mem _ hc)) (insert_inStep h n)

/-! ## 3. The life of the lock file -/

/-- What dropping a set has to do to the files `fs`: the lock file is gone, every other file is
    as it was, the data file among them, and it can be opened again with all its entries. -/
structure Released (fs : FileSystem) (path : Pathname) (fs' : FileSystem) : Prop where
  lock : fs' (lockPathOf path) = none
  others : ∀ p, p ≠ lockPathOf path → fs' p = fs p
  contents : fs'.contents path = fs.contents path
  unblocked : ∀ lock, (withFile fs' path none).1 ≠ .error (.locked lock)
  reopened : ∀ s, (withFile fs' path none).1 = .ok s →
    s.nullifiers = entriesOf (fs.contents path)

/-- What the lock file is for. A refused call leaves none behind that was not there; a set that
    is opened has made its own, and removes it and nothing else when it is dropped, after any
    inserts; with their writes done, the file then holds the entries of the set. -/
structure LockLifeCycle (fs : FileSystem) (path : Pathname)
    (fault : Option (OpenCall × OsError)) : Prop where
  refused : ∀ e fs', withFile fs path fault = (.error e, fs') →
    fs' (lockPathOf path) ≠ none → fs (lockPathOf path) ≠ none
  made : ∀ s fs', withFile fs path fault = (.ok s, fs') →
    fs (lockPathOf path) = none ∧ fs' (lockPathOf path) ≠ none
  dropped : ∀ s fs', withFile fs path fault = (.ok s, fs') → ∀ calls,
    Released (insertAll s fs' calls).2 path
      ((insertAll s fs' calls).1.drop (insertAll s fs' calls).2)
  kept : ∀ s fs', withFile fs path fault = (.ok s, fs') → ∀ calls, (∀ c ∈ calls, c.2 = .done) →
    (insertAll s fs' calls).1.nullifiers = entriesOf ((insertAll s fs' calls).2.contents path)

theorem lockPathOf_eq_iff (hname : path.fileName ≠ none) :
    lockPathOf path = path ↔ path.extension = some (ascii "lock") := by
  constructor
  · intro h
    by_contra hext
    exact Pathname.withExtension_ne hname (by decide +kernel) hext h
  · intro h
    exact Pathname.withExtension_eq (by decide +kernel) h

/-- Where the lock file is the file, nothing can be in it. -/
theorem Released.contents_nil (h : Released fs path fs') (hsame : lockPathOf path = path) :
    fs.contents path = [] := by
  have hgone := h.lock
  rw [hsame] at hgone
  rw [← h.contents, contents_of_none hgone]

/-- Where the lock file is another file, it can be removed alone. -/
theorem released_of_ne (hlocks : Locks fs path fault) (hne : lockPathOf path ≠ path)
    (fs' : FileSystem) : Released fs' path (fs'.remove (lockPathOf path)) := by
  have hagain : Locks (fs'.remove (lockPathOf path)) path none :=
    ⟨hlocks.noParent, hlocks.named, remove_self, fun _ h => (nomatch h)⟩
  refine ⟨remove_self, fun p hp => Function.update_of_ne hp _ _, contents_remove_ne hne, ?_, ?_⟩
  · intro lock hlock
    rw [withFile_free ⟨hlocks.named, hlocks.noParent⟩ remove_self] at hlock
    split at hlock
    · cases hlock
    · split at hlock
      · cases hlock
      · cases hlock
  · intro s hs
    rcases withFile_of_locks hagain with ⟨_, hok⟩ | ⟨_, e, fs'', herror, _⟩
    · rw [hok] at hs
      cases hs
      rw [contents_remove_ne hne]
    · rw [herror] at hs
      cases hs

/-- **When the lock file does what it is for**: where it is made at all, exactly if all goes well
    behind it and the path does not itself end in `.lock`. -/
theorem lockLifeCycle_iff (fs : FileSystem) (path : Pathname)
    (fault : Option (OpenCall × OsError)) :
    LockLifeCycle fs path fault ↔
      (Locks fs path fault → Loads fs path fault ∧ path.extension ≠ some (ascii "lock")) := by
  constructor
  · intro h hlocks
    rcases withFile_of_locks hlocks with ⟨hloads, hok⟩ | ⟨_, e, fs', herror, hleft⟩
    · refine ⟨hloads, fun hext => ?_⟩
      -- the file is the lock file: an entry written to it goes when it is removed
      have hsame := (lockPathOf_eq_iff hlocks.named).mpr hext
      have hnothing := (h.dropped _ _ hok [(zero32, .done)]).contents_nil hsame
      have hkept := h.kept _ _ hok [(zero32, .done)] fun c hc => by
        rw [List.mem_singleton.mp hc]
      rw [hnothing] at hkept
      have hmem : zero32 ∈ entriesOf [] := hkept ▸ mem_insert_done _ _ _
      exact absurd hmem (Finset.notMem_empty _)
    · exact absurd hlocks.free (h.refused e fs' herror hleft)
  · intro h
    by_cases hlocks : Locks fs path fault
    · obtain ⟨hloads, hext⟩ := h hlocks
      have hne : lockPathOf path ≠ path := fun hsame =>
        hext ((lockPathOf_eq_iff hlocks.named).mp hsame)
      rcases withFile_of_locks hlocks with ⟨_, hok⟩ | ⟨hnot, _⟩
      · refine ⟨fun e fs' he => ?_, fun s fs' hs => ?_, fun s fs' hs calls => ?_,
          fun s fs' hs calls hdone => ?_⟩
        · rw [hok] at he
          cases he
        · rw [hok] at hs
          cases hs
          exact ⟨hlocks.free, opened_lock⟩
        · rw [hok] at hs
          cases hs
          obtain ⟨_, hlock, _⟩ := insertAll_frame calls
            ⟨entriesOf (fs.contents path), path, lockPathOf path⟩ (opened fs path)
          unfold drop
          rw [hlock]
          exact released_of_ne hlocks hne _
        · rw [hok] at hs
          cases hs
          have hstart : InStep ⟨entriesOf (fs.contents path), path, lockPathOf path⟩
              (opened fs path) := by
            refine ⟨?_, ?_⟩
            · rw [contents_opened]
              exact hloads.whole
            · rw [contents_opened]
          obtain ⟨hpath, _, _⟩ := insertAll_frame calls
            ⟨entriesOf (fs.contents path), path, lockPathOf path⟩ (opened fs path)
          have hentries := (insertAll_inStep calls hdone hstart).entries
          rw [hpath] at hentries
          exact hentries
      · exact absurd hloads hnot
    · obtain ⟨e, he⟩ := withFile_of_not_locks hlocks
      refine ⟨fun e' fs' he' => ?_, fun s fs' hs => ?_, fun s fs' hs => ?_, fun s fs' hs => ?_⟩
      · rw [he] at he'
        cases he'
        exact fun hthere => hthere
      · rw [he] at hs
        cases hs
      · rw [he] at hs
        cases hs
      · rw [he] at hs
        cases hs

def sampleSpent : Pathname := [.normal (ascii "spent.bin")]

def sampleSpentLock : Pathname := [.normal (ascii "spent.lock")]

/-- One file of 33 bytes, and no other. -/
def tornFiles : FileSystem := fun p => if p = sampleSpent then some (List.replicate 33 0) else none

/-- The file of 33 bytes is refused and the lock file left behind, and every later call is
    refused for it; the entry inserted through a path that ends in `.lock` is removed with the
    lock. -/
theorem lock_left_behind :
    (∃ e fs', withFile tornFiles sampleSpent none = (.error e, fs') ∧
      tornFiles (lockPathOf sampleSpent) = none ∧ fs' (lockPathOf sampleSpent) ≠ none ∧
      ∃ e', withFile fs' sampleSpent none = (.error e', fs')) ∧
    ∃ s fs', withFile (fun _ => none) sampleSpentLock none = (.ok s, fs') ∧
      (s.insert fs' zero32 .done).1 = true ∧
      ((s.insert fs' zero32 .done).2.1.drop (s.insert fs' zero32 .done).2.2) sampleSpentLock =
        none := by
  constructor
  · have hlocks : Locks tornFiles sampleSpent none :=
      ⟨by decide +kernel, by decide +kernel, by decide +kernel, fun _ h => (nomatch h)⟩
    have htorn : ¬ (tornFiles.contents sampleSpent).length % 32 = 0 := by decide +kernel
    rcases withFile_of_locks hlocks with ⟨hloads, _⟩ | ⟨_, e, fs', herror, hleft⟩
    · exact absurd hloads.whole htorn
    · exact ⟨e, fs', herror, hlocks.free, hleft, withFile_locked hleft⟩
  · have hlocks : Locks (fun _ => none) sampleSpentLock none :=
      ⟨by decide +kernel, by decide +kernel, rfl, fun _ h => (nomatch h)⟩
    have hloads : Loads (fun _ => none) sampleSpentLock none := ⟨rfl, Nat.zero_le _, rfl⟩
    rcases withFile_of_locks hlocks with ⟨_, hok⟩ | ⟨hnot, _⟩
    · exact ⟨_, _, hok, by decide +kernel, by decide +kernel⟩
    · exact absurd hloads hnot

end FileBackedSet

end Specter
