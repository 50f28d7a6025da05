/-
  File:      Specter/Core/SpendFile.lean
  Subject:   THE NULLIFIER SET WITH A FILE BEHIND IT (`with_file`, `insert`, `contains` and the
             `Drop` of specter-core/src/nullifier.rs).

  A path is the list of its components, the file system the contents of each path. Nobody else
  touches the two files. What the operating system does is an argument: which call of `with_file`
  fails, and how far the write of `insert` gets.

  * `withExtension_ne` -- the lock file is another file, unless the extension is `lock`;
  * `Locks`, `withFile_of_not_locks` -- when the lock file is made, and that nothing is else;
  * `withFile_ok` -- a file of whole entries, not too many, is opened and read back;
  * `withFile_torn` -- a file with part of an entry is refused, and the lock file left behind;
  * `withFile_locked`, `withFile_unnamed` -- the refusals that leave everything as it was.
-/
import Specter.Core.Token

namespace Specter

open Lib

/-! ## 1. Paths -/

inductive PathComponent where
  | rootDir
  | curDir
  | parentDir
  | normal (name : Bytes)
  deriving DecidableEq

/-- A path as `Path::components` yields it, which is also how paths compare. -/
abbrev Pathname := List PathComponent

namespace Pathname

/-- The last component, where it is a name. -/
def fileName (p : Pathname) : Option Bytes :=
  match p.getLast? with
  | some (.normal name) => some name
  | _ => none

/-- `.` -/
def dot : UInt8 := 46

/-- A file name cut at its last dot; a name with no dot, or with its only dot in front, is all
    stem. -/
def splitAtDot (name : Bytes) : Bytes × Option Bytes :=
  match name.reverse.dropWhile (· ≠ dot) with
  | [] => (name, none)
  | [_] => (name, none)
  | _ :: before => (before.reverse, some (name.reverse.takeWhile (· ≠ dot)).reverse)

def extension (p : Pathname) : Option Bytes := p.fileName.bind fun name => (splitAtDot name).2

def withExtension (p : Pathname) (ext : Bytes) : Pathname :=
  match p.fileName with
  | none => p
  | some name =>
      let stem := (splitAtDot name).1
      p.dropLast ++ [.normal (if ext = [] then stem else stem ++ dot :: ext)]

def display (p : Pathname) : Bytes :=
  let text : PathComponent → Bytes
    | .rootDir => []
    | .curDir => [dot]
    | .parentDir => [dot, dot]
    | .normal name => name
  if p = [.rootDir] then ascii "/" else List.intercalate (ascii "/") (p.map text)

/-- The path has a file name and no `..`. -/
def Named (p : Pathname) : Prop := p.fileName ≠ none ∧ .parentDir ∉ p

instance (p : Pathname) : Decidable p.Named := inferInstanceAs (Decidable (_ ∧ _))

theorem fileName_append (p : Pathname) (name : Bytes) :
    fileName (p ++ [.normal name]) = some name := by
  unfold fileName
  rw [List.getLast?_append]
  rfl

/-- What the two parts of a file name give together. -/
theorem splitAtDot_eq (name : Bytes) :
    splitAtDot name = (name, none) ∨
      ∃ stem ext, splitAtDot name = (stem, some ext) ∧ name = stem ++ dot :: ext := by
  have hsplit : name.reverse.takeWhile (· ≠ dot) ++ name.reverse.dropWhile (· ≠ dot) =
      name.reverse := List.takeWhile_append_dropWhile
  unfold splitAtDot
  split
  · exact .inl rfl
  · exact .inl rfl
  · rename_i d before _ hdrop
    refine .inr ⟨_, _, rfl, ?_⟩
    have hd : d = dot := by
      have hhead := List.head?_dropWhile_not (fun b : UInt8 => decide (b ≠ dot)) name.reverse
      rw [hdrop] at hhead
      simpa using hhead
    rw [hdrop, hd] at hsplit
    have := congrArg List.reverse hsplit
    simpa using this.symm

/-- **The lock file is another file**, where the path has a name without the extension. -/
theorem withExtension_ne {p : Pathname} {ext : Bytes} (hname : p.fileName ≠ none)
    (hne : ext ≠ []) (hext : p.extension ≠ some ext) : p.withExtension ext ≠ p := by
  obtain ⟨name, hn⟩ := Option.ne_none_iff_exists'.mp hname
  unfold extension at hext
  rw [hn, Option.bind_some] at hext
  intro heq
  have hlast := congrArg fileName heq
  unfold withExtension at hlast
  rw [hn] at hlast
  dsimp only at hlast
  rw [fileName_append, if_neg hne, Option.some.injEq] at hlast
  rcases splitAtDot_eq name with hs | ⟨stem, ext', hs, hname'⟩
  · -- all stem: the new name is longer
    rw [hs] at hlast
    have hlen := congrArg List.length hlast
    simp at hlen
  · rw [hs] at hlast hext
    dsimp only at hlast hext
    rw [hname'] at hlast
    have htail := List.append_cancel_left hlast
    exact hext (congrArg some (List.cons.inj htail).2.symm)

/-- A path with the extension is the path with the extension. -/
theorem withExtension_eq {p : Pathname} {ext : Bytes} (hne : ext ≠ [])
    (hext : p.extension = some ext) : p.withExtension ext = p := by
  obtain ⟨name, hn, hcut⟩ := Option.bind_eq_some_iff.mp hext
  have hlast : p = p.dropLast ++ [.normal name] := by
    unfold fileName at hn
    split at hn
    · rename_i name' hget
      cases hn
      exact (List.dropLast_append_getLast? _ hget).symm
    · cases hn
  unfold withExtension
  rw [hn]
  dsimp only
  rw [if_neg hne]
  rcases splitAtDot_eq name with hs | ⟨stem, ext', hs, hname⟩
  · rw [hs] at hcut
    cases hcut
  · rw [hs] at hcut ⊢
    cases hcut
    dsimp only
    rw [← hname]
    exact hlast.symm

theorem fileName_withExtension {p : Pathname} {ext : Bytes} (hname : p.fileName ≠ none) :
    (p.withExtension ext).fileName ≠ none := by
  obtain ⟨name, hn⟩ := Option.ne_none_iff_exists'.mp hname
  unfold withExtension
  rw [hn]
  dsimp only
  rw [fileName_append]
  exact Option.some_ne_none _

end Pathname

/-! ## 2. Files -/

abbrev FileSystem := Pathname → Option Bytes

/-- What the operating system reports. -/
inductive OsError where
  | notFound
  | alreadyExists
  | isADirectory
  | other
  deriving DecidableEq

namespace FileSystem

def contents (fs : FileSystem) (p : Pathname) : Bytes := (fs p).getD []

def put (fs : FileSystem) (p : Pathname) (bytes : Bytes) : FileSystem :=
  Function.update fs p (some bytes)

def remove (fs : FileSystem) (p : Pathname) : FileSystem := Function.update fs p none

/-- `create_new`; the paths without a file name are directories, save the empty one. -/
def createNew (fs : FileSystem) (p : Pathname) : Except OsError FileSystem :=
  match p.fileName, fs p with
  | none, _ => .error (if p = [] then .notFound else .alreadyExists)
  | some _, some _ => .error .alreadyExists
  | some _, none => .ok (fs.put p [])

/-- `read(true).append(true).create(true)`. -/
def openAppend (fs : FileSystem) (p : Pathname) : Except OsError FileSystem :=
  match p.fileName with
  | none => .error (if p = [] then .notFound else .isADirectory)
  | some _ => .ok (fs.put p (fs.contents p))

def append (fs : FileSystem) (p : Pathname) (bytes : Bytes) : FileSystem :=
  fs.put p (fs.contents p ++ bytes)

theorem contents_remove_ne {fs : FileSystem} {p q : Pathname} (h : p ≠ q) :
    (fs.remove p).contents q = fs.contents q := by
  unfold FileSystem.contents FileSystem.remove
  rw [Function.update_of_ne h.symm]

theorem remove_self {fs : FileSystem} {p : Pathname} : (fs.remove p) p = none :=
  Function.update_self _ _ _

theorem contents_of_none {fs : FileSystem} {p : Pathname} (h : fs p = none) :
    fs.contents p = [] := by
  unfold FileSystem.contents
  rw [h]
  rfl

theorem contents_append {fs : FileSystem} {p : Pathname} {bytes : Bytes} :
    (fs.append p bytes).contents p = fs.contents p ++ bytes := by
  unfold FileSystem.append FileSystem.put FileSystem.contents
  rw [Function.update_self]
  rfl

theorem append_ne {fs : FileSystem} {p q : Pathname} {bytes : Bytes} (h : q ≠ p) :
    (fs.append p bytes) q = fs q :=
  Function.update_of_ne h _ _

end FileSystem

/-! ## 3. The set -/

inductive FileError where
  | pathTraversal
  | locked (lockPath : Pathname)
  | tooLarge (len : Nat)
  | badSize (len : Nat)
  | os (e : OsError)
  deriving DecidableEq

inductive ErrorKind where
  | invalidInput
  | wouldBlock
  | invalidData
  | os (e : OsError)
  deriving DecidableEq

def FileError.kind : FileError → ErrorKind
  | .pathTraversal => .invalidInput
  | .locked _ => .wouldBlock
  | .tooLarge _ => .invalidData
  | .badSize _ => .invalidData
  | .os e => .os e

/-- The texts of the errors the code makes itself. -/
def FileError.message : FileError → Option Bytes
  | .pathTraversal => some (ascii "path traversal (..) not allowed in nullifier file path")
  | .locked lockPath =>
      some (ascii "nullifier file is locked by another process (" ++ lockPath.display ++ ascii ")")
  | .tooLarge len => some (ascii ("nullifier file too large: " ++ toString len ++ " bytes"))
  | .badSize len =>
      some (ascii ("nullifier file has invalid size " ++ toString len ++
        " (not a multiple of 32)"))
  | .os _ => none

/-- A `NullifierSet` with a file: the set, the path its file is open at, and its lock. -/
structure FileBackedSet where
  nullifiers : Finset Bytes32
  path : Pathname
  lockPath : Pathname

/-- The calls of `with_file` that the operating system can fail. -/
inductive OpenCall where
  | lock
  | file
  | metadata
  | read
  deriving DecidableEq

/-- The result of a call, unless it is the one that fails. -/
def osCall {α : Type} (fault : Option (OpenCall × OsError)) (call : OpenCall)
    (result : Except OsError α) : Except OsError α :=
  match fault with
  | none => result
  | some (c, e) => if c = call then .error e else result

theorem osCall_fails {α : Type} (call : OpenCall) (e : OsError) (result : Except OsError α) :
    osCall (some (call, e)) call result = .error e :=
  if_pos rfl

/-- A call that does not fail has its result. -/
theorem osCall_of_ne {α : Type} {fault : Option (OpenCall × OsError)} {call : OpenCall}
    (h : ∀ e, fault ≠ some (call, e)) (result : Except OsError α) :
    osCall fault call result = result := by
  unfold osCall
  split
  · rfl
  · rename_i c e
    rw [if_neg]
    rintro rfl
    exact h e rfl

theorem osCall_ok {α : Type} {fault : Option (OpenCall × OsError)} {call : OpenCall} {a b : α}
    (h : osCall fault call (.ok a) = .ok b) : b = a ∧ ∀ e, fault ≠ some (call, e) := by
  have hne : ∀ e, fault ≠ some (call, e) := by
    rintro e rfl
    rw [osCall_fails] at h
    cases h
  rw [osCall_of_ne hne] at h
  cases h
  exact ⟨rfl, hne⟩

/-- How far an append of 32 bytes gets: all the way; an error after some of the bytes; an error
    of `flush` or of `sync_all`, with all of them written. -/
inductive WriteOutcome where
  | done
  | writeFails (k : Fin 32)
  | flushFails
  | syncFails
  deriving DecidableEq

/-- The bytes an append leaves in the file. -/
def WriteOutcome.bytes : WriteOutcome → Nat
  | .done => 32
  | .writeFails k => k
  | .flushFails => 32
  | .syncFails => 32

namespace FileBackedSet

def lockPathOf (path : Pathname) : Pathname := path.withExtension (ascii "lock")

def maxNullifierFileSize : Nat := 320000000

/-- `with_file`. An error after the lock file is made leaves the lock file there. -/
def withFile (fs : FileSystem) (path : Pathname) (fault : Option (OpenCall × OsError)) :
    Except FileError FileBackedSet × FileSystem :=
  if .parentDir ∈ path then (.error .pathTraversal, fs)
  else
    let lockPath := lockPathOf path
    match osCall fault .lock (fs.createNew lockPath) with
    | .error .alreadyExists => (.error (.locked lockPath), fs)
    | .error e => (.error (.os e), fs)
    | .ok fs =>
        match osCall fault .file (fs.openAppend path) with
        | .error e => (.error (.os e), fs)
        | .ok fs =>
            match osCall fault .metadata (.ok (fs.contents path).length) with
            | .error e => (.error (.os e), fs)
            | .ok len =>
                if len > maxNullifierFileSize then (.error (.tooLarge len), fs)
                else
                  match osCall fault .read (.ok (fs.contents path)) with
                  | .error e => (.error (.os e), fs)
                  | .ok buf =>
                      if buf.length % 32 ≠ 0 then (.error (.badSize buf.length), fs)
                      else
                        (.ok
                          { nullifiers := (arrays 32 (buf.length / 32) buf).toFinset
                            path := path
                            lockPath := lockPath }, fs)

/-- The file is written before the set; a failed write rejects the nullifier. -/
def insert (s : FileBackedSet) (fs : FileSystem) (nullifier : Bytes32) (write : WriteOutcome) :
    Bool × FileBackedSet × FileSystem :=
  if nullifier ∈ s.nullifiers then (false, s, fs)
  else
    let fs' := fs.append s.path (nullifier.toList.take write.bytes)
    match write with
    | .done => (true, { s with nullifiers := Insert.insert nullifier s.nullifiers }, fs')
    | .writeFails _ => (false, s, fs')
    | .flushFails => (false, s, fs')
    | .syncFails => (false, s, fs')

def contains (s : FileBackedSet) (nullifier : Bytes32) : Bool := decide (nullifier ∈ s.nullifiers)

def len (s : FileBackedSet) : Nat := s.nullifiers.card

/-- `Drop`: the lock file is removed. -/
def drop (s : FileBackedSet) (fs : FileSystem) : FileSystem := fs.remove s.lockPath

/-! ## 4. What the calls do -/

variable {fs : FileSystem} {path : Pathname} {fault : Option (OpenCall × OsError)}

theorem lockPathOf_ne (hnamed : path.Named) (hext : path.extension ≠ some (ascii "lock")) :
    lockPathOf path ≠ path :=
  Pathname.withExtension_ne hnamed.1 (by decide +kernel) hext

/-- The files once the set is open: the lock file is there, and the file too. -/
def opened (fs : FileSystem) (path : Pathname) : FileSystem :=
  (fs.put (lockPathOf path) []).put path (fs.contents path)

theorem contents_opened : (opened fs path).contents path = fs.contents path := by
  unfold opened FileSystem.put FileSystem.contents
  rw [Function.update_self]
  rfl

/-- The lock file is made: the path has no `..` and a file name, nothing is at the lock file's
    place, and the operating system lets it. -/
structure Locks (fs : FileSystem) (path : Pathname) (fault : Option (OpenCall × OsError)) :
    Prop where
  noParent : .parentDir ∉ path
  named : path.fileName ≠ none
  free : fs (lockPathOf path) = none
  allowed : ∀ e, fault ≠ some (.lock, e)

/-- The lock file made, and the file opened behind it. -/
theorem Locks.opens (h : Locks fs path fault) :
    fs.createNew (lockPathOf path) = .ok (fs.put (lockPathOf path) []) ∧
      (fs.put (lockPathOf path) []).openAppend path = .ok (opened fs path) := by
  obtain ⟨name, hname⟩ := Option.ne_none_iff_exists'.mp h.named
  have hsome : (lockPathOf path).fileName ≠ none := Pathname.fileName_withExtension h.named
  obtain ⟨lockName, hlock⟩ := Option.ne_none_iff_exists'.mp hsome
  have hsame : (fs.put (lockPathOf path) []).contents path = fs.contents path := by
    unfold FileSystem.contents FileSystem.put
    by_cases hp : path = lockPathOf path
    · -- the file is the lock file just made: nothing was there before
      rw [← hp, Function.update_self]
      have hfree := h.free
      rw [← hp] at hfree
      rw [hfree]
      rfl
    · rw [Function.update_of_ne hp]
  constructor
  · unfold FileSystem.createNew
    rw [h.free, hlock]
  · unfold FileSystem.openAppend opened
    rw [hname, hsame]

/-- The call where the path is a name and the lock file free. -/
theorem withFile_free (hnamed : path.Named) (hfree : fs (lockPathOf path) = none) :
    withFile fs path none =
      if (fs.contents path).length > maxNullifierFileSize then
        (.error (.tooLarge (fs.contents path).length), opened fs path)
      else if (fs.contents path).length % 32 ≠ 0 then
        (.error (.badSize (fs.contents path).length), opened fs path)
      else
        (.ok ⟨(arrays 32 ((fs.contents path).length / 32) (fs.contents path)).toFinset, path,
          lockPathOf path⟩, opened fs path) := by
  have hlocks : Locks fs path none := ⟨hnamed.2, hnamed.1, hfree, fun _ h => (nomatch h)⟩
  obtain ⟨hnew, hopen⟩ := hlocks.opens
  unfold withFile
  rw [if_neg hnamed.2]
  simp only [osCall, hnew, hopen, contents_opened]

/-- **A file of whole entries, not too many, is read back.** -/
theorem withFile_ok {entries : List Bytes32} (hnamed : path.Named)
    (hfree : fs (lockPathOf path) = none)
    (hfile : fs.contents path = entries.flatMap (·.toList)) (hcap : entries.length ≤ 10000000) :
    withFile fs path none =
      (.ok ⟨entries.toFinset, path, lockPathOf path⟩, opened fs path) := by
  have hlen : (fs.contents path).length = 32 * entries.length := by
    rw [hfile, length_flatMap_arr]
  have hsmall : ¬ (fs.contents path).length > maxNullifierFileSize := by
    rw [hlen]
    unfold maxNullifierFileSize
    omega
  have hwhole : ¬ (fs.contents path).length % 32 ≠ 0 := by
    rw [hlen, Nat.mul_mod_right]
    exact fun h => h rfl
  rw [withFile_free hnamed hfree, if_neg hsmall, if_neg hwhole, hlen,
    Nat.mul_div_cancel_left _ (by decide), hfile, arrays_flatMap]

/-- **A file whose length is not a multiple of 32 is refused**, with the lock file left there. -/
theorem withFile_torn (hnamed : path.Named) (hfree : fs (lockPathOf path) = none)
    (htorn : (fs.contents path).length % 32 ≠ 0) :
    ∃ e, withFile fs path none = (.error e, opened fs path) ∧ e.kind = .invalidData := by
  rw [withFile_free hnamed hfree]
  split
  · exact ⟨_, rfl, rfl⟩
  · exact ⟨_, rfl, rfl⟩

/-- Where the lock file is not made, nothing is. -/
theorem withFile_of_not_locks (h : ¬ Locks fs path fault) :
    ∃ e, withFile fs path fault = (.error e, fs) := by
  have herror : ∀ e, osCall fault .lock (fs.createNew (lockPathOf path)) = .error e →
      ∃ e', withFile fs path fault = (.error e', fs) := by
    intro e he
    unfold withFile
    split
    · exact ⟨_, rfl⟩
    · dsimp only
      rw [he]
      cases e with
      | notFound => exact ⟨_, rfl⟩
      | alreadyExists => exact ⟨_, rfl⟩
      | isADirectory => exact ⟨_, rfl⟩
      | other => exact ⟨_, rfl⟩
  by_cases hfault : ∃ e, fault = some (.lock, e)
  · obtain ⟨e, rfl⟩ := hfault
    exact herror e (osCall_fails _ _ _)
  · have hcall : osCall fault .lock (fs.createNew (lockPathOf path)) =
        fs.createNew (lockPathOf path) :=
      osCall_of_ne (fun e he => hfault ⟨e, he⟩) _
    by_cases hparent : .parentDir ∈ path
    · unfold withFile
      rw [if_pos hparent]
      exact ⟨_, rfl⟩
    · rw [hcall] at herror
      cases hname : (lockPathOf path).fileName with
      | none =>
          refine herror (if lockPathOf path = [] then .notFound else .alreadyExists) ?_
          unfold FileSystem.createNew
          rw [hname]
      | some name =>
          cases hheld : fs (lockPathOf path) with
          | none =>
              refine absurd ⟨hparent, ?_, hheld, fun e he => hfault ⟨e, he⟩⟩ h
              intro hpath
              have hsame : lockPathOf path = path := by
                unfold lockPathOf Pathname.withExtension
                rw [hpath]
              rw [hsame, hpath] at hname
              cases hname
          | some bytes =>
              refine herror .alreadyExists ?_
              unfold FileSystem.createNew
              rw [hname, hheld]

theorem withFile_locked (hheld : fs (lockPathOf path) ≠ none) :
    ∃ e, withFile fs path none = (.error e, fs) :=
  withFile_of_not_locks fun h => hheld h.free

/-- **A path with `..`, or without a file name, is refused.** -/
theorem withFile_unnamed (h : ¬ path.Named) : ∃ e, withFile fs path none = (.error e, fs) :=
  withFile_of_not_locks fun hlocks => h ⟨hlocks.named, hlocks.noParent⟩

end FileBackedSet

end Specter
