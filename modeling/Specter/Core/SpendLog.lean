/-
  File:      Specter/Core/SpendLog.lean
  Subject:   THE SPEND LOG OVER MANY SESSIONS: one file, opened, written, closed and opened again,
             with and without faults (`NullifierSet` of specter-core/src/nullifier.rs).

  The machine keeps the files, the set that is open, and the history of the calls, the newest
  first. A write may stop early, `flush` and `sync_all` may fail, and the process may stop
  between calls or inside one. Nothing but the operator removes a stale lock file, so a step in
  which the process stops takes both together: the stop, and the lock file removed by hand before
  the next start.

  * `written` -- the nullifiers that are in the file, read off the history;
  * `LogInv`, `logInv_step` -- the file is their concatenation, the open set their set, and the
    lock file there exactly while a set is open: kept by every clean step;
  * `spend_log_durable` -- sessions without faults: the first insert of each nullifier is the one
    answered `true`, and each set opened is the one closed before;
  * `spend_log_safe_of_clean` -- sessions with clean faults lose and forge nothing; and an append
    that stops inside an entry shuts the file for every later session.
-/
import Specter.Core.SpendFile
import Specter.Lib.Machine

namespace Specter

open Lib FileBackedSet FileSystem

/-! ## 1. Calls and their history -/

inductive LogCall where
  | withFile
  | insert (nullifier : Bytes32) (write : WriteOutcome)
  | contains (nullifier : Bytes32)
  | len
  | drop
  /-- The process stops between calls; the operator removes the lock file. -/
  | stop
  /-- It stops in `with_file`, with the two files made; the operator removes the lock file. -/
  | stopOpening
  /-- It stops in `insert`, with `k` bytes written and the set not yet changed; the operator
      removes the lock file. -/
  | stopInserting (nullifier : Bytes32) (k : Fin 33)

inductive LogEvent where
  | opened (set : Finset Bytes32)
  | refused (e : FileError)
  | accepted (nullifier : Bytes32)
  | known (nullifier : Bytes32)
  | failed (nullifier : Bytes32)
  | answered (nullifier : Bytes32) (present : Bool)
  | counted (len : Nat)
  | dropped (set : Finset Bytes32)
  | stopped
  | interrupted (nullifier : Bytes32) (k : Fin 33)

structure SpendLog where
  fs : FileSystem
  session : Option FileBackedSet
  log : List LogEvent

namespace SpendLog

def start (fs : FileSystem) : SpendLog := ⟨fs, none, []⟩

/-- What one insert on the set is in the history: accepted where it is answered `true`. -/
def insertEvent (s : FileBackedSet) (n : Bytes32) (answer : Bool) : LogEvent :=
  if answer then .accepted n else if n ∈ s.nullifiers then .known n else .failed n

/-- One call; the calls on a set are enabled while one is open. -/
def step (path : Pathname) (w : SpendLog) : LogCall → Option SpendLog
  | .withFile =>
      match withFile w.fs path none with
      | (.ok s, fs) => some ⟨fs, some s, .opened s.nullifiers :: w.log⟩
      | (.error e, fs) => some ⟨fs, w.session, .refused e :: w.log⟩
  | .insert n write => w.session.map fun s =>
      let r := s.insert w.fs n write
      ⟨r.2.2, some r.2.1, insertEvent s n r.1 :: w.log⟩
  | .contains n => w.session.map fun s => ⟨w.fs, some s, .answered n (s.contains n) :: w.log⟩
  | .len => w.session.map fun s => ⟨w.fs, some s, .counted s.len :: w.log⟩
  | .drop => w.session.map fun s => ⟨s.drop w.fs, none, .dropped s.nullifiers :: w.log⟩
  | .stop => some ⟨w.fs.remove (lockPathOf path), none, .stopped :: w.log⟩
  | .stopOpening =>
      if w.session.isSome then none
      else some ⟨(withFile w.fs path none).2.remove (lockPathOf path), none, .stopped :: w.log⟩
  | .stopInserting n k => w.session.bind fun s =>
      if n ∈ s.nullifiers then none
      else some ⟨(w.fs.append s.path (n.toList.take k)).remove (lockPathOf path), none,
        .interrupted n k :: w.log⟩

def machine (path : Pathname) : Machine SpendLog LogCall where
  step := step path

/-! ## 2. What the history says -/

/-- The nullifiers whose bytes are all in the file: accepted ones, and those of an insert cut
    short with all bytes written. Oldest first. -/
def written : List LogEvent → List Bytes32
  | [] => []
  | .accepted n :: log => written log ++ [n]
  | .interrupted n k :: log => if k = 32 then written log ++ [n] else written log
  | _ :: log => written log

def acceptedIn : List LogEvent → List Bytes32
  | [] => []
  | .accepted n :: log => acceptedIn log ++ [n]
  | _ :: log => acceptedIn log

def interruptedIn : List LogEvent → List Bytes32
  | [] => []
  | .interrupted n _ :: log => n :: interruptedIn log
  | _ :: log => interruptedIn log

/-- The nullifiers of all the inserts that returned. -/
def insertsIn : List LogEvent → List Bytes32
  | [] => []
  | .accepted n :: log => n :: insertsIn log
  | .known n :: log => n :: insertsIn log
  | .failed n :: log => n :: insertsIn log
  | _ :: log => insertsIn log

/-- A set is open at the end of the history. -/
def live : List LogEvent → Bool
  | [] => false
  | .opened _ :: _ => true
  | .dropped _ :: _ => false
  | .stopped :: _ => false
  | .interrupted _ _ :: _ => false
  | _ :: log => live log

/-- The set that was dropped last. -/
def lastDropped : List LogEvent → Finset Bytes32
  | [] => ∅
  | .dropped set :: _ => set
  | _ :: log => lastDropped log

theorem mem_written {n : Bytes32} {log : List LogEvent} (h : n ∈ written log) :
    n ∈ acceptedIn log ∨ n ∈ interruptedIn log := by
  induction log with
  | nil => cases h
  | cons e log ih =>
      cases e with
      | accepted m =>
          rcases List.mem_append.mp h with h | h
          · rcases ih h with h | h
            · exact .inl (List.mem_append_left _ h)
            · exact .inr h
          · exact .inl (List.mem_append_right _ h)
      | interrupted m k =>
          unfold written at h
          split at h
          · rcases List.mem_append.mp h with h | h
            · rcases ih h with h | h
              · exact .inl h
              · exact .inr (List.mem_cons_of_mem _ h)
            · rw [List.mem_singleton] at h
              exact .inr (List.mem_cons.mpr (.inl h))
          · rcases ih h with h | h
            · exact .inl h
            · exact .inr (List.mem_cons_of_mem _ h)
      | _ => exact ih h

theorem written_of_accepted {n : Bytes32} {log : List LogEvent} (h : n ∈ acceptedIn log) :
    n ∈ written log := by
  induction log with
  | nil => cases h
  | cons e log ih =>
      cases e with
      | accepted m =>
          rcases List.mem_append.mp h with h | h
          · exact List.mem_append_left _ (ih h)
          · exact List.mem_append_right _ h
      | interrupted m k =>
          unfold written
          split
          · exact List.mem_append_left _ (ih h)
          · exact ih h
      | _ => exact ih h

/-- The set that stands for the entries of the file. -/
def openSet (path : Pathname) (log : List LogEvent) : FileBackedSet :=
  ⟨(written log).toFinset, path, lockPathOf path⟩

/-- The bytes are the concatenation of the entries, none twice, and as many as `with_file`
    reads. -/
structure Holds (bytes : Bytes) (entries : List Bytes32) : Prop where
  contents : bytes = entries.flatMap (·.toList)
  cap : entries.length ≤ 10000000
  nodup : entries.Nodup

theorem Holds.length_eq {bytes : Bytes} {entries : List Bytes32} (h : Holds bytes entries) :
    bytes.length = 32 * entries.length := by
  rw [h.contents, length_flatMap_arr]

theorem Holds.add {bytes : Bytes} {entries : List Bytes32} (h : Holds bytes entries) {n : Bytes32}
    (hn : n ∉ entries) (hroom : bytes.length + 32 ≤ maxNullifierFileSize) :
    Holds (bytes ++ n.toList) (entries ++ [n]) := by
  refine ⟨?_, ?_, List.Nodup.append h.nodup (List.nodup_singleton n)
    (List.disjoint_singleton.mpr hn)⟩
  · rw [h.contents, List.flatMap_append, List.flatMap_cons, List.flatMap_nil, List.append_nil]
  · have hlen := h.length_eq
    unfold maxNullifierFileSize at hroom
    rw [List.length_append, List.length_singleton]
    omega

/-- The file holds its entries, a set that is open is their set, and the lock file is there
    exactly while one is. -/
structure LogInv (path : Pathname) (w : SpendLog) : Prop where
  file : Holds (w.fs.contents path) (written w.log)
  session : ∀ s ∈ w.session,
    path.Named ∧ s = openSet path w.log ∧ w.fs (lockPathOf path) ≠ none
  idle : w.session = none → w.fs (lockPathOf path) = none
  isLive : live w.log = w.session.isSome

theorem logInv_start {fs : FileSystem} {path : Pathname} (hempty : fs.contents path = [])
    (hlock : fs (lockPathOf path) = none) : LogInv path (start fs) :=
  ⟨⟨hempty, Nat.zero_le _, List.nodup_nil⟩, fun _ h => (nomatch h), fun _ => hlock, rfl⟩

variable {path : Pathname} {w w' : SpendLog}

/-- Removing the lock file leaves the entries alone. -/
theorem LogInv.contents_unlocked (hI : LogInv path w)
    (hext : path.extension ≠ some (ascii "lock")) :
    (w.fs.remove (lockPathOf path)).contents path = w.fs.contents path := by
  by_cases hsame : lockPathOf path = path
  · -- a path without a file name: there is no file
    cases hs : w.session with
    | some s => exact absurd hsame (lockPathOf_ne (hI.session s hs).1 hext)
    | none =>
        have hnone := hI.idle hs
        rw [hsame] at hnone ⊢
        unfold FileSystem.contents
        rw [remove_self, hnone]
  · exact contents_remove_ne hsame

/-- What one call can do. -/
inductive Effect (path : Pathname) (w : SpendLog) : LogCall → SpendLog → Prop where
  | opened (hidle : w.session = none) (hnamed : path.Named) :
      Effect path w .withFile ⟨FileBackedSet.opened w.fs path, some (openSet path w.log),
        .opened (written w.log).toFinset :: w.log⟩
  | refused (e : FileError) (hwhy : w.session ≠ none ∨ ¬ path.Named) :
      Effect path w .withFile ⟨w.fs, w.session, .refused e :: w.log⟩
  | known {n : Bytes32} {write : WriteOutcome} (hs : w.session = some (openSet path w.log))
      (hn : n ∈ written w.log) :
      Effect path w (.insert n write) ⟨w.fs, some (openSet path w.log), .known n :: w.log⟩
  | accepted {n : Bytes32} (hs : w.session = some (openSet path w.log)) (hn : n ∉ written w.log) :
      Effect path w (.insert n .done) ⟨w.fs.append path n.toList,
        some (openSet path (.accepted n :: w.log)), .accepted n :: w.log⟩
  | failed {n : Bytes32} {write : WriteOutcome} (hs : w.session = some (openSet path w.log))
      (hn : n ∉ written w.log) (hwrite : write ≠ .done) :
      Effect path w (.insert n write) ⟨w.fs.append path (n.toList.take write.bytes),
        some (openSet path w.log), .failed n :: w.log⟩
  | answered {n : Bytes32} (hs : w.session = some (openSet path w.log)) :
      Effect path w (.contains n) ⟨w.fs, some (openSet path w.log),
        .answered n (decide (n ∈ written w.log)) :: w.log⟩
  | counted (hs : w.session = some (openSet path w.log)) :
      Effect path w .len ⟨w.fs, some (openSet path w.log),
        .counted (written w.log).toFinset.card :: w.log⟩
  | dropped (hs : w.session = some (openSet path w.log)) :
      Effect path w .drop ⟨w.fs.remove (lockPathOf path), none,
        .dropped (written w.log).toFinset :: w.log⟩
  | stopped {call : LogCall} {fs : FileSystem} (hcall : call = .stop ∨ call = .stopOpening)
      (hfile : fs.contents path = w.fs.contents path) (hlock : fs (lockPathOf path) = none) :
      Effect path w call ⟨fs, none, .stopped :: w.log⟩
  | interrupted {n : Bytes32} {k : Fin 33} (hs : w.session = some (openSet path w.log))
      (hn : n ∉ written w.log) :
      Effect path w (.stopInserting n k)
        ⟨(w.fs.append path (n.toList.take k)).remove (lockPathOf path), none,
          .interrupted n k :: w.log⟩

theorem LogInv.session_eq (hI : LogInv path w) {s : FileBackedSet} (hs : w.session = some s) :
    s = openSet path w.log := (hI.session s hs).2.1

/-- `with_file` in a state of the invariant. -/
theorem LogInv.withFile_cases (hI : LogInv path w) :
    (w.session = none ∧ path.Named ∧ withFile w.fs path none =
        (.ok (openSet path w.log), FileBackedSet.opened w.fs path)) ∨
      (w.session ≠ none ∨ ¬ path.Named) ∧ ∃ e, withFile w.fs path none = (.error e, w.fs) := by
  by_cases hnamed : path.Named
  · cases hs : w.session with
    | none =>
        exact .inl ⟨rfl, hnamed, withFile_ok hnamed (hI.idle hs) hI.file.contents hI.file.cap⟩
    | some s =>
        exact .inr ⟨.inl (Option.some_ne_none s), withFile_locked (hI.session s hs).2.2⟩
  · exact .inr ⟨.inr hnamed, withFile_unnamed hnamed⟩

theorem openSet_accepted {n : Bytes32} {log : List LogEvent} :
    ({ openSet path log with nullifiers := Insert.insert n (openSet path log).nullifiers } :
      FileBackedSet) = openSet path (.accepted n :: log) := by
  have hset : (written (.accepted n :: log)).toFinset = Insert.insert n (written log).toFinset := by
    show (written log ++ [n]).toFinset = _
    rw [List.toFinset_append, List.toFinset_cons, List.toFinset_nil, Finset.union_comm]
    rfl
  unfold openSet
  rw [hset]

/-- An entry is all of its 32 bytes. -/
theorem take_entry (n : Bytes32) : n.toList.take 32 = n.toList :=
  List.take_of_length_le (Nat.le_of_eq n.toList_length)

theorem insert_effect {n : Bytes32} (write : WriteOutcome)
    (hs : w.session = some (openSet path w.log)) :
    Effect path w (.insert n write) ⟨((openSet path w.log).insert w.fs n write).2.2,
      some ((openSet path w.log).insert w.fs n write).2.1,
      insertEvent (openSet path w.log) n ((openSet path w.log).insert w.fs n write).1 ::
        w.log⟩ := by
  unfold FileBackedSet.insert insertEvent
  by_cases hn : n ∈ written w.log
  · have hmem : n ∈ (openSet path w.log).nullifiers := List.mem_toFinset.mpr hn
    rw [if_pos hmem, if_pos hmem]
    exact .known hs hn
  · have hmem : n ∉ (openSet path w.log).nullifiers := fun h => hn (List.mem_toFinset.mp h)
    rw [if_neg hmem, if_neg hmem]
    cases write with
    | done =>
        have hall : n.toList.take WriteOutcome.done.bytes = n.toList := take_entry n
        dsimp only
        rw [hall, openSet_accepted, if_pos rfl]
        exact .accepted hs hn
    | writeFails k => exact .failed hs hn (by simp)
    | flushFails => exact .failed hs hn (by simp)
    | syncFails => exact .failed hs hn (by simp)

/-- **Every call has one of these effects.** -/
theorem effect_of_step {call : LogCall} (hI : LogInv path w)
    (hext : path.extension ≠ some (ascii "lock")) (h : (machine path).step w call = some w') :
    Effect path w call w' := by
  cases call with
  | withFile =>
      change step path w .withFile = some w' at h
      unfold step at h
      rcases hI.withFile_cases with ⟨hidle, hnamed, heq⟩ | ⟨hwhy, e, heq⟩
      · rw [heq] at h
        cases h
        exact .opened hidle hnamed
      · rw [heq] at h
        cases h
        exact .refused e hwhy
  | insert n write =>
      obtain ⟨s, hs, rfl⟩ := Option.map_eq_some_iff.mp h
      obtain rfl := hI.session_eq hs
      exact insert_effect write hs
  | contains n =>
      obtain ⟨s, hs, rfl⟩ := Option.map_eq_some_iff.mp h
      obtain rfl := hI.session_eq hs
      have hmem : (openSet path w.log).contains n = decide (n ∈ written w.log) :=
        decide_eq_decide.mpr List.mem_toFinset
      rw [hmem]
      exact .answered hs
  | len =>
      obtain ⟨s, hs, rfl⟩ := Option.map_eq_some_iff.mp h
      obtain rfl := hI.session_eq hs
      exact .counted hs
  | drop =>
      obtain ⟨s, hs, rfl⟩ := Option.map_eq_some_iff.mp h
      obtain rfl := hI.session_eq hs
      exact .dropped hs
  | stop =>
      cases h
      exact .stopped (.inl rfl) (hI.contents_unlocked hext) remove_self
  | stopOpening =>
      change (if w.session.isSome then none else some _) = some w' at h
      split at h
      · cases h
      · cases h
        refine .stopped (.inr rfl) ?_ remove_self
        rcases hI.withFile_cases with ⟨_, hnamed, heq⟩ | ⟨_, e, heq⟩
        · rw [heq, contents_remove_ne (lockPathOf_ne hnamed hext)]
          exact contents_opened
        · rw [heq]
          exact hI.contents_unlocked hext
  | stopInserting n k =>
      obtain ⟨s, hs, h⟩ := Option.bind_eq_some_iff.mp h
      obtain rfl := hI.session_eq hs
      split at h
      · cases h
      · rename_i hmem
        cases h
        exact .interrupted hs fun hn => hmem (List.mem_toFinset.mpr hn)

/-- The bytes a call leaves in the file are an entry or nothing, and the file keeps to the size
    that `with_file` reads. -/
def Clean (path : Pathname) (w : SpendLog) : LogCall → Prop
  | .insert n write => ∀ s ∈ w.session, n ∉ s.nullifiers →
      (write = .done ∨ write = .writeFails 0) ∧
        (w.fs.contents path).length + write.bytes ≤ maxNullifierFileSize
  | .stopInserting _ k => (k = 0 ∨ k = 32) ∧
      (w.fs.contents path).length + k.val ≤ maxNullifierFileSize
  | _ => True

instance (path : Pathname) (w : SpendLog) : ∀ call, Decidable (Clean path w call)
  | .insert n write => inferInstanceAs (Decidable (∀ s ∈ w.session, n ∉ s.nullifiers →
      (write = .done ∨ write = .writeFails 0) ∧
        (w.fs.contents path).length + write.bytes ≤ maxNullifierFileSize))
  | .stopInserting _ k => inferInstanceAs (Decidable ((k = 0 ∨ k = 32) ∧
      (w.fs.contents path).length + k.val ≤ maxNullifierFileSize))
  | .withFile => .isTrue trivial
  | .contains _ => .isTrue trivial
  | .len => .isTrue trivial
  | .drop => .isTrue trivial
  | .stop => .isTrue trivial
  | .stopOpening => .isTrue trivial

/-- A call on the open set that leaves the lock file alone keeps a set open. -/
theorem LogInv.still_open (hI : LogInv path w) (hs : w.session = some (openSet path w.log))
    {fs : FileSystem} {e : LogEvent} (hlive : live (e :: w.log) = live w.log)
    (hfile : Holds (fs.contents path) (written (e :: w.log)))
    (hlock : fs (lockPathOf path) = w.fs (lockPathOf path)) :
    LogInv path ⟨fs, some (openSet path (e :: w.log)), e :: w.log⟩ := by
  obtain ⟨hnamed, _, hheld⟩ := hI.session _ hs
  refine ⟨hfile, fun s h => ?_, fun h => (nomatch h), ?_⟩
  · cases h
    exact ⟨hnamed, rfl, fun h => hheld (hlock.symm.trans h)⟩
  · have hopen := hI.isLive
    rw [hs] at hopen
    exact hlive.trans hopen

/-- **Every clean call keeps the invariant.** -/
theorem logInv_effect {call : LogCall} (hI : LogInv path w)
    (hext : path.extension ≠ some (ascii "lock")) (hclean : Clean path w call)
    (h : Effect path w call w') : LogInv path w' := by
  have happ : ∀ {bytes : Bytes}, w.session = some (openSet path w.log) →
      (w.fs.append path bytes) (lockPathOf path) = w.fs (lockPathOf path) := fun hs =>
    append_ne (lockPathOf_ne (hI.session _ hs).1 hext)
  cases h with
  | opened hidle hnamed =>
      refine ⟨?_, fun s hs => ?_, fun h => (nomatch h), rfl⟩
      · show Holds ((FileBackedSet.opened w.fs path).contents path) (written w.log)
        rw [contents_opened]
        exact hI.file
      · cases hs
        refine ⟨hnamed, rfl, ?_⟩
        show (FileBackedSet.opened w.fs path) (lockPathOf path) ≠ none
        unfold FileBackedSet.opened FileSystem.put
        rw [Function.update_of_ne (lockPathOf_ne hnamed hext), Function.update_self]
        exact Option.some_ne_none _
  | refused e hwhy => exact ⟨hI.file, hI.session, hI.idle, hI.isLive⟩
  | @known n write hs hn => exact hI.still_open (e := .known n) hs rfl hI.file rfl
  | @accepted n hs hn =>
      refine hI.still_open hs rfl ?_ (happ hs)
      rw [contents_append]
      exact hI.file.add hn (hclean _ hs fun h => hn (List.mem_toFinset.mp h)).2
  | @failed n write hs hn hwrite =>
      refine hI.still_open (e := .failed n) hs rfl ?_ (happ hs)
      -- the failed write left nothing
      have hzero : write.bytes = 0 := by
        rcases (hclean _ hs fun h => hn (List.mem_toFinset.mp h)).1 with h | h
        · exact absurd h hwrite
        · rw [h]
          rfl
      rw [contents_append, hzero, List.take_zero, List.append_nil]
      exact hI.file
  | @answered n hs =>
      exact hI.still_open (e := .answered n (decide (n ∈ written w.log))) hs rfl hI.file rfl
  | counted hs =>
      exact hI.still_open (e := .counted (written w.log).toFinset.card) hs rfl hI.file rfl
  | dropped hs =>
      refine ⟨?_, fun _ h => (nomatch h), fun _ => remove_self, rfl⟩
      show Holds ((w.fs.remove (lockPathOf path)).contents path) (written w.log)
      rw [hI.contents_unlocked hext]
      exact hI.file
  | stopped hcall hfile hlock =>
      refine ⟨?_, fun _ h => (nomatch h), fun _ => hlock, rfl⟩
      rw [hfile]
      exact hI.file
  | @interrupted n k hs hn =>
      have hne := lockPathOf_ne (hI.session _ hs).1 hext
      obtain ⟨hk, hroom⟩ := hclean
      refine ⟨?_, fun _ h => (nomatch h), fun _ => remove_self, rfl⟩
      rw [contents_remove_ne hne, contents_append]
      rcases hk with rfl | rfl
      · rw [show ((0 : Fin 33) : Nat) = 0 from rfl, List.take_zero, List.append_nil]
        exact hI.file
      · have hall : n.toList.take (32 : Fin 33) = n.toList := take_entry n
        rw [hall]
        exact hI.file.add hn hroom

theorem logInv_step {call : LogCall} (hI : LogInv path w)
    (hext : path.extension ≠ some (ascii "lock")) (hclean : Clean path w call)
    (h : (machine path).step w call = some w') : LogInv path w' :=
  logInv_effect hI hext hclean (effect_of_step hI hext h)

/-! ## 4. Sessions without faults -/

/-- The calls of a session in which nothing goes wrong. -/
def faultless : LogCall → Bool
  | .withFile => true
  | .insert _ write => decide (write = .done)
  | .contains _ => true
  | .len => true
  | .drop => true
  | _ => false

/-- Of the inserts of a nullifier the first is answered `true` and every other `false`, and
    `contains` answers whether there was one. -/
def FirstOnly : List LogEvent → Prop
  | [] => True
  | .accepted n :: log => n ∉ insertsIn log ∧ FirstOnly log
  | .known n :: log => n ∈ insertsIn log ∧ FirstOnly log
  | .failed _ :: _ => False
  | .answered n b :: log => (b = true ↔ n ∈ insertsIn log) ∧ FirstOnly log
  | _ :: log => FirstOnly log

/-- Each set opened is the one dropped before it, and only a path that is no file name, or a set
    already open, is refused. -/
def Reopened (path : Pathname) : List LogEvent → Prop
  | [] => True
  | .opened set :: log => set = lastDropped log ∧ Reopened path log
  | .refused _ :: log => (live log = true ∨ ¬ path.Named) ∧ Reopened path log
  | _ :: log => Reopened path log

/-- What holds over sessions without faults. -/
structure SessionInv (path : Pathname) (w : SpendLog) : Prop where
  inv : LogInv path w
  first : FirstOnly w.log
  reopened : Reopened path w.log
  accepted : acceptedIn w.log = written w.log
  inserts : ∀ n, n ∈ insertsIn w.log ↔ n ∈ written w.log
  held : w.session = none → lastDropped w.log = (written w.log).toFinset

/-- A call without a fault is clean while there is room for the entry it writes. -/
theorem SessionInv.clean {call : LogCall} (hI : SessionInv path w)
    (hfault : faultless call = true) (heff : Effect path w call w')
    (hcount : (acceptedIn w'.log).length ≤ 10000000) : Clean path w call := by
  cases call with
  | insert n write =>
      intro s hs hn
      obtain rfl := hI.inv.session_eq hs
      have hdone : write = .done := of_decide_eq_true hfault
      subst hdone
      refine ⟨.inl rfl, ?_⟩
      cases heff with
      | known hs' hn' => exact absurd (List.mem_toFinset.mpr hn') hn
      | failed hs' hn' hne => exact absurd rfl hne
      | stopped hcall hfile hlock => rcases hcall with h | h <;> cases h
      | accepted hs' hn' =>
          have hlen := hI.inv.file.length_eq
          simp only [acceptedIn, hI.accepted, List.length_append, List.length_singleton] at hcount
          simp only [WriteOutcome.bytes, maxNullifierFileSize]
          omega
  | stopInserting n k => cases hfault
  | _ => trivial

theorem sessionInv_step {call : LogCall} (hI : SessionInv path w)
    (hext : path.extension ≠ some (ascii "lock")) (hfault : faultless call = true)
    (hcap : ∀ w', (machine path).step w call = some w' → (acceptedIn w'.log).length ≤ 10000000)
    (h : (machine path).step w call = some w') : SessionInv path w' := by
  have heff := effect_of_step hI.inv hext h
  have hclean := hI.clean hfault heff (hcap w' h)
  have hinv := logInv_effect hI.inv hext hclean heff
  cases heff with
  | opened hidle hnamed =>
      exact ⟨hinv, hI.first, ⟨(hI.held hidle).symm, hI.reopened⟩, hI.accepted, hI.inserts,
        fun h => (nomatch h)⟩
  | refused e hwhy =>
      refine ⟨hinv, hI.first, ⟨?_, hI.reopened⟩, hI.accepted, hI.inserts, hI.held⟩
      rcases hwhy with hopen | hnamed
      · exact .inl (hI.inv.isLive.trans (Option.isSome_iff_ne_none.mpr hopen))
      · exact .inr hnamed
  | @known n write hs hn =>
      refine ⟨hinv, ⟨(hI.inserts n).mpr hn, hI.first⟩, hI.reopened, hI.accepted, fun m => ?_,
        fun h => (nomatch h)⟩
      constructor
      · intro hm
        rcases List.mem_cons.mp hm with rfl | hm
        · exact hn
        · exact (hI.inserts m).mp hm
      · exact fun hm => List.mem_cons_of_mem _ ((hI.inserts m).mpr hm)
  | @accepted n hs hn =>
      refine ⟨hinv, ⟨fun hm => hn ((hI.inserts n).mp hm), hI.first⟩, hI.reopened,
        congrArg (· ++ [n]) hI.accepted, fun m => ?_, fun h => (nomatch h)⟩
      show m ∈ n :: insertsIn w.log ↔ m ∈ written w.log ++ [n]
      rw [List.mem_cons, List.mem_append, List.mem_singleton, hI.inserts m]
      exact or_comm
  | failed hs hn hwrite => exact absurd (of_decide_eq_true hfault) hwrite
  | @answered n hs =>
      exact ⟨hinv, ⟨decide_eq_true_iff.trans (hI.inserts n).symm, hI.first⟩, hI.reopened,
        hI.accepted, hI.inserts, fun h => (nomatch h)⟩
  | counted hs =>
      exact ⟨hinv, hI.first, hI.reopened, hI.accepted, hI.inserts, fun h => (nomatch h)⟩
  | dropped hs =>
      exact ⟨hinv, hI.first, hI.reopened, hI.accepted, hI.inserts, fun _ => rfl⟩
  | stopped hcall hfile hlock =>
      rcases hcall with rfl | rfl
      · cases hfault
      · cases hfault
  | interrupted hs hn => cases hfault

/-- A call adds one event to the history. -/
theorem step_log {call : LogCall} (h : (machine path).step w call = some w') :
    ∃ e, w'.log = e :: w.log := by
  change step path w call = some w' at h
  cases call with
  | withFile =>
      simp only [step] at h
      split at h
      · cases h
        exact ⟨_, rfl⟩
      · cases h
        exact ⟨_, rfl⟩
  | insert n write =>
      obtain ⟨s, _, rfl⟩ := Option.map_eq_some_iff.mp h
      exact ⟨_, rfl⟩
  | contains n =>
      obtain ⟨s, _, rfl⟩ := Option.map_eq_some_iff.mp h
      exact ⟨_, rfl⟩
  | len =>
      obtain ⟨s, _, rfl⟩ := Option.map_eq_some_iff.mp h
      exact ⟨_, rfl⟩
  | drop =>
      obtain ⟨s, _, rfl⟩ := Option.map_eq_some_iff.mp h
      exact ⟨_, rfl⟩
  | stop =>
      cases h
      exact ⟨_, rfl⟩
  | stopOpening =>
      simp only [step] at h
      split at h
      · cases h
      · cases h
        exact ⟨_, rfl⟩
  | stopInserting n k =>
      obtain ⟨s, _, h⟩ := Option.bind_eq_some_iff.mp h
      split at h
      · cases h
      · cases h
        exact ⟨_, rfl⟩

theorem acceptedIn_cons (e : LogEvent) (log : List LogEvent) :
    (acceptedIn log).length ≤ (acceptedIn (e :: log)).length := by
  cases e with
  | accepted n =>
      show _ ≤ (acceptedIn log ++ [n]).length
      rw [List.length_append]
      exact Nat.le_add_right _ _
  | _ => exact Nat.le_refl _

/-- **The spend log without faults.** On every path without the extension `lock`, with no file
    there or an empty one, over every sequence of sessions without I/O errors and with at most
    10,000,000 entries in all: the file is the concatenation of the accepted nullifiers in order,
    none twice; of the inserts of a nullifier exactly the first is answered `true`; and every set
    that is opened is the one that was dropped before. -/
theorem spend_log_durable (path : Pathname) (hext : path.extension ≠ some (ascii "lock"))
    (fs : FileSystem) (hempty : fs.contents path = []) (hlock : fs (lockPathOf path) = none)
    (calls : List LogCall) (hfault : ∀ c ∈ calls, faultless c = true) {w : SpendLog}
    (hrun : (machine path).run (start fs) calls = some w)
    (hcap : (acceptedIn w.log).length ≤ 10000000) :
    w.fs.contents path = (acceptedIn w.log).flatMap (·.toList) ∧ (acceptedIn w.log).Nodup ∧
      FirstOnly w.log ∧ Reopened path w.log := by
  have hstart : SessionInv path (start fs) :=
    ⟨logInv_start hempty hlock, trivial, trivial, rfl, fun _ => Iff.rfl, fun _ => rfl⟩
  have hbound := (machine path).allSteps_le_of_run (f := fun w => (acceptedIn w.log).length)
    (fun s a s' h => by
      obtain ⟨e, he⟩ := step_log h
      rw [he]
      exact acceptedIn_cons e s.log) calls (start fs) w hrun
  have hcond := (machine path).allSteps_and calls (start fs)
    ((machine path).allSteps_of_forall (C := fun _ c => faultless c = true) calls (start fs)
      fun c hc _ => hfault c hc) hbound
  have hI : SessionInv path w := (machine path).run_invariant_of
    (fun s a s' hI hc h => sessionInv_step hI hext hc.1
      (fun s'' hs'' => Nat.le_trans (hc.2 s'' hs'') hcap) h) calls _ w hstart hcond hrun
  rw [hI.accepted]
  exact ⟨hI.inv.file.contents, hI.inv.file.nodup, hI.first, hI.reopened⟩

/-- Two nullifiers in three sessions, the first of them tried again in the second session. -/
def sampleSessions : List LogCall :=
  [.withFile, .insert (leArr 32 1) .done, .drop, .withFile, .insert (leArr 32 1) .done,
    .insert (leArr 32 2) .done, .contains (leArr 32 2), .drop, .withFile]

def samplePath : Pathname := [.normal (ascii "spent.bin")]

theorem spend_log_durable_three_sessions :
    ∃ w, (machine samplePath).run (start fun _ => none) sampleSessions = some w ∧
      acceptedIn w.log = [leArr 32 1, leArr 32 2] ∧
      w.fs.contents samplePath = [leArr 32 1, leArr 32 2].flatMap (·.toList) ∧
      FirstOnly w.log ∧ Reopened samplePath w.log := by
  have hrun : ((machine samplePath).run (start fun _ => none) sampleSessions).map (fun w =>
      decide (acceptedIn w.log = [leArr 32 1, leArr 32 2])) = some true := by
    decide +kernel
  obtain ⟨w, hw, hfacts⟩ := Option.map_eq_some_iff.mp hrun
  have hacc := of_decide_eq_true hfacts
  have hfault : sampleSessions.all faultless = true := by decide +kernel
  obtain ⟨hfile, _, hfirst, hopen⟩ := spend_log_durable samplePath (by decide +kernel)
    (fun _ => none) rfl rfl sampleSessions (List.all_eq_true.mp hfault) hw
    (by rw [hacc]; decide)
  exact ⟨w, hw, hacc, by rw [hfile, hacc], hfirst, hopen⟩

/-! ## 5. Sessions with faults -/

/-- A set opened has every nullifier accepted so far and no other than these and those of an
    insert a stop cut short; an insert is answered `false` as known for no other reason; and only
    a path that is no file name, or a set already open, is refused. -/
def CrashSafe (path : Pathname) : List LogEvent → Prop
  | [] => True
  | .opened set :: log =>
      ((∀ n ∈ acceptedIn log, n ∈ set) ∧
        ∀ n ∈ set, n ∈ acceptedIn log ∨ n ∈ interruptedIn log) ∧ CrashSafe path log
  | .refused _ :: log => (live log = true ∨ ¬ path.Named) ∧ CrashSafe path log
  | .known n :: log => (n ∈ acceptedIn log ∨ n ∈ interruptedIn log) ∧ CrashSafe path log
  | _ :: log => CrashSafe path log

theorem crashSafe_effect {call : LogCall} (hI : LogInv path w) (hsafe : CrashSafe path w.log)
    (h : Effect path w call w') : CrashSafe path w'.log := by
  cases h with
  | opened hidle hnamed =>
      refine ⟨⟨fun n hn => ?_, fun n hn => ?_⟩, hsafe⟩
      · exact List.mem_toFinset.mpr (written_of_accepted hn)
      · exact mem_written (List.mem_toFinset.mp hn)
  | refused e hwhy =>
      refine ⟨?_, hsafe⟩
      rcases hwhy with hopen | hnamed
      · exact .inl (hI.isLive.trans (Option.isSome_iff_ne_none.mpr hopen))
      · exact .inr hnamed
  | known hs hn => exact ⟨mem_written hn, hsafe⟩
  | _ => exact hsafe

/-- **An append that stops inside an entry shuts the file**: the set is dropped, and the next
    session is refused. -/
theorem torn_write_breaks (hI : LogInv path w) (hext : path.extension ≠ some (ascii "lock"))
    {s : FileBackedSet} (hs : w.session = some s) {n : Bytes32} (hn : n ∉ s.nullifiers)
    {k : Fin 32} (hk : k ≠ 0) :
    ∃ w', (machine path).run w [.insert n (.writeFails k), .drop, .withFile] = some w' ∧
      ¬ CrashSafe path w'.log := by
  obtain ⟨hnamed, rfl, _⟩ := hI.session s hs
  have hne := lockPathOf_ne hnamed hext
  let fs₁ := w.fs.append path (n.toList.take k)
  let fs₂ := fs₁.remove (lockPathOf path)
  have hinsert : step path w (.insert n (.writeFails k)) =
      some ⟨fs₁, some (openSet path w.log), .failed n :: w.log⟩ := by
    simp only [step, hs, Option.map_some, FileBackedSet.insert, insertEvent, hn, if_false]
    rfl
  have hlen : (fs₂.contents path).length % 32 ≠ 0 := by
    have htake : (n.toList.take k).length = k := by
      rw [List.length_take, n.toList_length]
      omega
    have hpos : 0 < k.val := Nat.pos_of_ne_zero fun h => hk (Fin.ext h)
    rw [contents_remove_ne hne, contents_append, List.length_append, hI.file.length_eq, htake,
      Nat.mul_add_mod]
    omega
  have hfree : fs₂ (lockPathOf path) = none := remove_self
  obtain ⟨e, hopen, _⟩ := withFile_torn hnamed hfree hlen
  have hdrop : step path ⟨fs₁, some (openSet path w.log), .failed n :: w.log⟩ .drop =
      some ⟨fs₂, none, .dropped (openSet path w.log).nullifiers :: .failed n :: w.log⟩ := rfl
  refine ⟨⟨FileBackedSet.opened fs₂ path, none, .refused e ::
    .dropped (openSet path w.log).nullifiers :: .failed n :: w.log⟩, ?_, ?_⟩
  · simp only [Machine.run, machine, hinsert, hdrop]
    simp only [step, hopen]
  · rintro ⟨hwhy, _⟩
    rcases hwhy with h | h
    · cases h
    · exact h hnamed

/-- **The spend log under faults that leave whole entries.** Let the path not have the extension
    `lock`. In every run in which a failed write leaves none of its bytes and neither `flush` nor
    `sync_all` fails, a process stopped in an insert has written none or all of the entry, and the
    file does not outgrow what `with_file` reads: every set opened has all the nullifiers accepted
    before, no other insert is spoilt, and no session is refused. From every such state with a
    set open, an append that stops inside an entry makes the next session fail. -/
theorem spend_log_safe_of_clean (path : Pathname) (hext : path.extension ≠ some (ascii "lock"))
    (fs : FileSystem) (hempty : fs.contents path = []) (hlock : fs (lockPathOf path) = none)
    (calls : List LogCall) {w : SpendLog}
    (hclean : (machine path).AllSteps (Clean path) (start fs) calls)
    (hrun : (machine path).run (start fs) calls = some w) :
    CrashSafe path w.log ∧
      ∀ s n k, w.session = some s → n ∉ s.nullifiers → k ≠ 0 →
        ∃ w', (machine path).run w [.insert n (.writeFails k), .drop, .withFile] = some w' ∧
          ¬ CrashSafe path w'.log := by
  obtain ⟨hI, hsafe⟩ : LogInv path w ∧ CrashSafe path w.log :=
    (machine path).run_invariant_of (I := fun w => LogInv path w ∧ CrashSafe path w.log)
      (fun s a s' hI hc h => ⟨logInv_step hI.1 hext hc h,
        crashSafe_effect hI.1 hI.2 (effect_of_step hI.1 hext h)⟩)
      calls _ w ⟨logInv_start hempty hlock, trivial⟩ hclean hrun
  exact ⟨hsafe, fun s n k hs hn hk => torn_write_breaks hI hext hs hn hk⟩

/-- A write that leaves nothing and is tried again; a stop with the second entry written; a stop
    in `with_file`; and a set open at the end. -/
def sampleFaults : List LogCall :=
  [.withFile, .insert (leArr 32 1) (.writeFails 0), .insert (leArr 32 1) .done,
    .stopInserting (leArr 32 2) 32, .withFile, .insert (leArr 32 2) .done, .stop, .stopOpening,
    .withFile]

theorem spend_log_safe_of_clean_faults :
    ∃ w, (machine samplePath).run (start fun _ => none) sampleFaults = some w ∧
      CrashSafe samplePath w.log ∧
      ∃ w', (machine samplePath).run w [.insert (leArr 32 3) (.writeFails 5), .drop, .withFile] =
        some w' ∧ ¬ CrashSafe samplePath w'.log := by
  have hrun : ((machine samplePath).run (start fun _ => none) sampleFaults).map (fun w =>
      w.session.any fun s => !s.contains (leArr 32 3)) = some true := by
    decide +kernel
  obtain ⟨w, hw, hfacts⟩ := Option.map_eq_some_iff.mp hrun
  obtain ⟨s, hs, hn⟩ := (Option.any_eq_true _ _).mp hfacts
  obtain ⟨hsafe, htorn⟩ := spend_log_safe_of_clean samplePath (by decide +kernel) (fun _ => none)
    rfl rfl sampleFaults (by decide +kernel) hw
  refine ⟨w, hw, hsafe, htorn s (leArr 32 3) 5 hs (fun hmem => ?_) (by decide)⟩
  unfold FileBackedSet.contains at hn
  rw [decide_eq_true hmem] at hn
  cases hn

/-- The log ends with an opening refused while no session was open. -/
def shutOut : List LogEvent → Bool
  | .refused _ :: log => !live log
  | _ => false

/-- The log ends with an opening whose set lacks the nullifier. -/
def openedWithout (n : Bytes32) : List LogEvent → Bool
  | .opened set :: _ => !decide (n ∈ set)
  | _ => false

theorem not_crashSafe_of_shutOut {path : Pathname} (hnamed : path.Named) :
    ∀ {log : List LogEvent}, shutOut log = true → ¬ CrashSafe path log
  | .refused _ :: log, h => by
      rintro ⟨hlive | hunnamed, _⟩
      · rw [shutOut, hlive] at h
        cases h
      · exact hunnamed hnamed

theorem not_crashSafe_of_openedWithout {path : Pathname} {n : Bytes32} :
    ∀ {log : List LogEvent}, n ∈ acceptedIn log → openedWithout n log = true →
      ¬ CrashSafe path log
  | .opened set :: log, hacc, h => by
      rintro ⟨⟨hmem, _⟩, _⟩
      rw [openedWithout, decide_eq_true (hmem n hacc)] at h
      cases h

/-- One byte of an entry is left by a failed write. The next entry is accepted behind it, and
    the file cannot be opened again; with the 31 bytes of another failed write behind it, it can,
    and the accepted nullifier is not in the set. -/
theorem torn_write_loses_entry :
    ∃ w w', (machine samplePath).run (start fun _ => none) [.withFile,
        .insert (leArr 32 1) (.writeFails 1), .insert (leArr 32 2) .done, .drop, .withFile] =
          some w ∧ ¬ CrashSafe samplePath w.log ∧
      (machine samplePath).run (start fun _ => none) [.withFile,
        .insert (leArr 32 1) (.writeFails 1), .insert (leArr 32 2) .done,
        .insert (leArr 32 3) (.writeFails 31), .drop, .withFile] = some w' ∧
      leArr 32 2 ∈ acceptedIn w'.log ∧ (w'.session.any fun s => !s.contains (leArr 32 2)) ∧
      ¬ CrashSafe samplePath w'.log := by
  have hshut : ((machine samplePath).run (start fun _ => none) [.withFile,
      .insert (leArr 32 1) (.writeFails 1), .insert (leArr 32 2) .done, .drop, .withFile]).map
      (fun w => shutOut w.log) = some true := by
    decide +kernel
  have hlost : ((machine samplePath).run (start fun _ => none) [.withFile,
      .insert (leArr 32 1) (.writeFails 1), .insert (leArr 32 2) .done,
      .insert (leArr 32 3) (.writeFails 31), .drop, .withFile]).map
      (fun w => decide (leArr 32 2 ∈ acceptedIn w.log) && openedWithout (leArr 32 2) w.log &&
        w.session.any fun s => !s.contains (leArr 32 2)) = some true := by
    decide +kernel
  obtain ⟨w, hw, hfacts⟩ := Option.map_eq_some_iff.mp hshut
  obtain ⟨w', hw', hfacts'⟩ := Option.map_eq_some_iff.mp hlost
  rw [Bool.and_eq_true, Bool.and_eq_true] at hfacts'
  obtain ⟨⟨hin, hlacks⟩, hsession⟩ := hfacts'
  have hacc := of_decide_eq_true hin
  exact ⟨w, w', hw, not_crashSafe_of_shutOut (by decide +kernel) hfacts, hw', hacc, hsession,
    not_crashSafe_of_openedWithout hacc hlacks⟩

end SpendLog

end Specter
