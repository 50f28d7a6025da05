/-
  File:      Specter/Core/SharedLog.lean
  Subject:   THE SHARED SPEND LOG OVER MANY PROCESSES: threads inside one process, and processes
             one after the other over the same file (`ConcurrentNullifierSet::with_file` of
             specter-core/src/nullifier.rs).

  A process opens the file, its threads call the set, and it closes the set or stops, wherever its
  threads are; what they were doing is lost with it. The machine of one thread, `SpendLog`, is the
  abstract one here.

  * `Follows`, `follows_step` -- every step is followed by calls of the spend log, for the writes
    and deaths that `Torn` allows;
  * `refines_log` -- so every interleaving of threads and processes is a history of the spend log,
    and the answers are the ones in the history;
  * `spent_once` -- where nothing is left half written, no nullifier is accepted twice, by whatever
    thread of whatever process.
-/
import Specter.Core.SharedSet
import Specter.Core.SpendLog

namespace Specter

open Lib Lib.Guarded FileBackedSet FileSystem SharedSet

structure SharedLog (τ : Type) where
  fs : FileSystem
  session : Option FileBackedSet
  lock : Lock τ SetCall Point Answer

inductive SharedCall (τ : Type) where
  | thread (l : Label τ SetCall Outcome)
  | withFile
  | drop
  /-- The process stops with its threads; the operator removes the lock file. -/
  | stop
  /-- It stops in `with_file`; the operator removes the lock file. -/
  | stopOpening

namespace SharedLog

variable {τ : Type}

def start (fs : FileSystem) : SharedLog τ := ⟨fs, none, .idle⟩

/-- The set behind the lock, and the files. -/
def stateOf (s : FileBackedSet) (fs : FileSystem) : SharedState := ⟨s.nullifiers, some s.path, fs⟩

/-- A process that stops takes its threads with it. -/
def abandon (L : Lock τ SetCall Point Answer) : Lock τ SetCall Point Answer :=
  { waiting := []
    holder := none
    poisoned := false
    stays :=
      match L.holder with
      | none => L.stays
      | some H => ⟨H.thread, H.call, none⟩ :: L.stays }

/-- One step of a thread, or of the process. The set is closed once no thread is in a call. -/
def step [DecidableEq τ] (path : Pathname) (W : SharedLog τ) : SharedCall τ → Option (SharedLog τ)
  | .thread l => W.session.bind fun s =>
      (shared.threads.step (W.lock, stateOf s W.fs) l).map fun r =>
        ⟨r.2.fs, some { s with nullifiers := r.2.nullifiers }, r.1⟩
  | .withFile =>
      match withFile W.fs path none with
      | (.ok s, fs) => some ⟨fs, some s, W.lock⟩
      | (.error _, fs) => some ⟨fs, W.session, W.lock⟩
  | .drop => W.session.bind fun s =>
      if W.lock.holder.isNone ∧ W.lock.waiting.isEmpty then
        some ⟨s.drop W.fs, none, { W.lock with poisoned := false }⟩
      else none
  | .stop => some ⟨W.fs.remove (lockPathOf path), none, abandon W.lock⟩
  | .stopOpening =>
      if W.session.isSome then none
      else some ⟨(withFile W.fs path none).2.remove (lockPathOf path), none, W.lock⟩

def machine [DecidableEq τ] (path : Pathname) : Machine (SharedLog τ) (SharedCall τ) where
  step := step path

/-! ## 1. What the history says of the stays -/

/-- An event that is the answer of a stay. -/
inductive Reports : Stay τ SetCall Answer → LogEvent → Prop where
  | accepted {t n} : Reports ⟨t, .insert n, some (.bool true)⟩ (.accepted n)
  | known {t n} : Reports ⟨t, .insert n, some (.bool false)⟩ (.known n)
  | failed {t n} : Reports ⟨t, .insert n, some (.bool false)⟩ (.failed n)
  | answered {t n b} : Reports ⟨t, .contains n, some (.bool b)⟩ (.answered n b)
  | counted {t k} : Reports ⟨t, .len, some (.size k)⟩ (.counted k)

/-- **The answers of the stays are in the history, in their order**; an event need not have been
    answered to anyone. -/
inductive Recorded : List (Stay τ SetCall Answer) → List LogEvent → Prop where
  | start : Recorded [] []
  | reports {y e ys log} (before : Recorded ys log) (hy : Reports y e) :
      Recorded (y :: ys) (e :: log)
  | died {t c ys log} (before : Recorded ys log) : Recorded (⟨t, c, none⟩ :: ys) log
  | event {ys log} (e : LogEvent) (before : Recorded ys log) : Recorded ys (e :: log)

/-- What the stays were answered `true`, the history has accepted. -/
theorem Recorded.accepted {ys : List (Stay τ SetCall Answer)} {log : List LogEvent}
    (h : Recorded ys log) : (accepted ys).reverse.Sublist (SpendLog.acceptedIn log) := by
  induction h with
  | start => exact List.Sublist.refl _
  | @reports y e ys log before hy ih =>
      cases hy with
      | @accepted t n =>
          show (n :: SharedSet.accepted ys).reverse.Sublist (SpendLog.acceptedIn log ++ [n])
          rw [List.reverse_cons]
          exact ih.append_right [n]
      | known => exact ih
      | failed => exact ih
      | answered => exact ih
      | counted => exact ih
  | @died t c ys log before ih =>
      cases c with
      | insert n => exact ih
      | contains n => exact ih
      | len => exact ih
  | event e before ih =>
      cases e with
      | accepted n => exact ih.trans (List.sublist_append_left _ _)
      | _ => exact ih

/-! ## 2. The calls that follow a stay -/

section Follow

variable (Torn : Nat → Prop) (Room : Nat → Prop)

/-- What a call of the spend log may leave in the file: of an entry that fails a number of bytes
    that `Torn` allows, and an entry only where `Room` has room for it. -/
def Allowed (path : Pathname) (w : SpendLog) : LogCall → Prop
  | .insert n write => ∀ s ∈ w.session, n ∉ s.nullifiers →
      (write = .done ∨ write ≠ .done ∧ Torn write.bytes) ∧ Room (w.fs.contents path).length
  | .stopInserting _ k => (Torn k ∨ k.val = 32) ∧ Room (w.fs.contents path).length
  | _ => True

end Follow

variable {Torn Room : Nat → Prop} {path : Pathname}

/-- A write that stops after `k` bytes, or fails behind all of them. -/
def failedAt (k : Nat) : WriteOutcome := if h : k < 32 then .writeFails ⟨k, h⟩ else .flushFails

theorem failedAt_bytes {k : Nat} (hk : k ≤ 32) : (failedAt k).bytes = k := by
  unfold failedAt
  split
  · rfl
  · show 32 = k
    omega

theorem failedAt_ne (k : Nat) : failedAt k ≠ .done := by
  unfold failedAt
  split <;> simp

/-- With the file there, every number of bytes is an append. -/
theorem wrote_stateOf {b : FileBackedSet} {fs : FileSystem} (hfile : fs b.path ≠ none)
    (n : Bytes32) (k : Nat) :
    (stateOf b fs).wrote n k = stateOf b (fs.append b.path (n.toList.take k)) := by
  show (if k = 0 then stateOf b fs else stateOf b (fs.append b.path (n.toList.take k))) = _
  split
  · rename_i hk
    have hsame : fs.append b.path [] = fs := by
      obtain ⟨bytes, hbytes⟩ := Option.ne_none_iff_exists'.mp hfile
      unfold FileSystem.append FileSystem.put FileSystem.contents
      rw [List.append_nil, hbytes, Option.getD_some, ← hbytes]
      exact Function.update_eq_self _ _
    rw [hk, List.take_zero, hsame]
  · rfl

theorem insert_failedAt {b : FileBackedSet} {fs : FileSystem} {n : Bytes32} {k : Nat}
    (hn : n ∉ b.nullifiers) (hk : k ≤ 32) :
    b.insert fs n (failedAt k) = (false, b, fs.append b.path (n.toList.take k)) := by
  have hbytes := failedAt_bytes hk
  have hne := failedAt_ne k
  unfold FileBackedSet.insert
  rw [if_neg hn]
  dsimp only
  rw [hbytes]
  cases hw : failedAt k with
  | done => exact absurd hw hne
  | _ => rfl

/-- A state of the spend log with a set open, its file and its lock file there. -/
structure Open (path : Pathname) (w : SpendLog) (b : FileBackedSet) : Prop where
  session : w.session = some b
  path_eq : b.path = path
  lock_eq : b.lockPath = lockPathOf path
  file : w.fs path ≠ none
  locked : w.fs (lockPathOf path) ≠ none

theorem append_some {fs : FileSystem} {p q : Pathname} {bytes : Bytes} (h : fs q ≠ none) :
    (fs.append p bytes) q ≠ none := by
  by_cases hq : q = p
  · subst hq
    unfold FileSystem.append FileSystem.put
    rw [Function.update_self]
    exact Option.some_ne_none _
  · rwa [append_ne hq]

theorem Open.append {w : SpendLog} {b b' : FileBackedSet} (h : Open path w b) {bytes : Bytes}
    {log : List LogEvent} (hpath : b'.path = b.path) (hlock : b'.lockPath = b.lockPath) :
    Open path ⟨w.fs.append path bytes, some b', log⟩ b' :=
  ⟨rfl, hpath.trans h.path_eq, hlock.trans h.lock_eq, append_some h.file, append_some h.locked⟩

/-- One call. -/
theorem run_one (Torn Room : Nat → Prop) {w w' : SpendLog} {c : LogCall}
    (hs : SpendLog.step path w c = some w') (hc : Allowed Torn Room path w c) :
    (SpendLog.machine path).run w [c] = some w' ∧
      (SpendLog.machine path).AllSteps (Allowed Torn Room path) w [c] := by
  have hstep : (SpendLog.machine path).step w c = some w' := hs
  constructor
  · rw [Machine.run, hstep]
    rfl
  · rw [Machine.allSteps_cons_iff _ hstep]
    exact ⟨hc, trivial⟩

/-- The calls that follow a stay lead here. -/
def Leads (Torn Room : Nat → Prop) (path : Pathname) (w : SpendLog)
    (ys : List (Stay τ SetCall Answer)) (s' : SharedState) : Prop :=
  ∃ calls w' b', (SpendLog.machine path).run w calls = some w' ∧
    (SpendLog.machine path).AllSteps (Allowed Torn Room path) w calls ∧ Open path w' b' ∧
    stateOf b' w'.fs = s' ∧ Recorded ys w'.log

variable {w : SpendLog} {b : FileBackedSet} {ys : List (Stay τ SetCall Answer)}

/-- A stay without a call. -/
theorem Open.still (h : Open path w b) (hrec : Recorded ys w.log) :
    Leads Torn Room path w ys (stateOf b w.fs) :=
  ⟨[], w, b, rfl, trivial, h, rfl, hrec⟩

/-- An insert that is accepted. -/
theorem Open.accepts (h : Open path w b) {n : Bytes32} (hn : n ∉ b.nullifiers)
    (hroom : Room (w.fs.contents path).length) (hrec : Recorded ys (.accepted n :: w.log)) :
    Leads Torn Room path w ys (((stateOf b w.fs).wrote n 32).accept n) := by
  have hpath := h.path_eq
  subst hpath
  have hins : b.insert w.fs n .done =
      (true, { b with nullifiers := Insert.insert n b.nullifiers },
        w.fs.append b.path (n.toList.take 32)) := by
    unfold FileBackedSet.insert
    rw [if_neg hn]
    rfl
  have hstep : SpendLog.step b.path w (.insert n .done) =
      some ⟨w.fs.append b.path (n.toList.take 32),
        some { b with nullifiers := Insert.insert n b.nullifiers }, .accepted n :: w.log⟩ := by
    simp only [SpendLog.step, h.session, Option.map_some, hins, SpendLog.insertEvent, if_true]
  obtain ⟨hr, hall⟩ := run_one Torn Room hstep
    (fun s hs _ => ⟨.inl rfl, hroom⟩)
  refine ⟨_, _, _, hr, hall, h.append rfl rfl, ?_, hrec⟩
  rw [wrote_stateOf h.file]
  rfl

/-- An insert whose write fails. -/
theorem Open.fails (h : Open path w b) {n : Bytes32} {k : Nat} (hn : n ∉ b.nullifiers)
    (hk : k ≤ 32) (htorn : Torn k) (hroom : Room (w.fs.contents path).length)
    (hrec : Recorded ys (.failed n :: w.log)) :
    Leads Torn Room path w ys ((stateOf b w.fs).wrote n k) := by
  have hpath := h.path_eq
  subst hpath
  have hstep : SpendLog.step b.path w (.insert n (failedAt k)) =
      some ⟨w.fs.append b.path (n.toList.take k), some b, .failed n :: w.log⟩ := by
    have hno : (if (false : Bool) = true then LogEvent.accepted n
        else if n ∈ b.nullifiers then .known n else .failed n) = .failed n := by
      rw [if_neg Bool.false_ne_true, if_neg hn]
    simp only [SpendLog.step, h.session, Option.map_some, insert_failedAt hn hk,
      SpendLog.insertEvent, hno]
  obtain ⟨hr, hall⟩ := run_one Torn Room hstep
    (fun s hs _ => ⟨.inr ⟨failedAt_ne k, by rwa [failedAt_bytes hk]⟩, hroom⟩)
  exact ⟨_, _, b, hr, hall, h.append rfl rfl, (wrote_stateOf h.file n k).symm, hrec⟩

/-- **Every stay is followed by at most one call of the spend log.** -/
theorem Open.follows (h : Open path w b) {s' : SharedState} {y : Stay τ SetCall Answer}
    (he : Effect Torn (stateOf b w.fs) y s') (hroom : Room (w.fs.contents path).length)
    (hrec : Recorded ys w.log) : Leads Torn Room path w (y :: ys) s' := by
  cases he with
  | @known t n hn =>
      have hstep : SpendLog.step path w (.insert n .done) =
          some ⟨w.fs, some b, .known n :: w.log⟩ := by
        have hmem : n ∈ b.nullifiers := hn
        simp [SpendLog.step, h.session, FileBackedSet.insert, SpendLog.insertEvent, hmem]
      obtain ⟨hr, hall⟩ := run_one Torn Room hstep
        (fun s hs hnew => absurd hn (Option.some.inj (h.session.symm.trans hs) ▸ hnew))
      exact ⟨_, _, b, hr, hall, ⟨rfl, h.path_eq, h.lock_eq, h.file, h.locked⟩, rfl,
        .reports hrec .known⟩
  | accepted hn => exact h.accepts hn hroom (.reports hrec .accepted)
  | refused hn hk htorn => exact h.fails hn hk htorn hroom (.reports hrec .failed)
  | @contains t n =>
      have hstep : SpendLog.step path w (.contains n) =
          some ⟨w.fs, some b, .answered n (decide (n ∈ b.nullifiers)) :: w.log⟩ := by
        simp only [SpendLog.step, h.session, Option.map_some]
        rfl
      obtain ⟨hr, hall⟩ := run_one Torn Room hstep trivial
      exact ⟨_, _, b, hr, hall, ⟨rfl, h.path_eq, h.lock_eq, h.file, h.locked⟩, rfl,
        .reports hrec .answered⟩
  | @len t =>
      have hstep : SpendLog.step path w .len =
          some ⟨w.fs, some b, .counted b.nullifiers.card :: w.log⟩ := by
        simp only [SpendLog.step, h.session, Option.map_some]
        rfl
      obtain ⟨hr, hall⟩ := run_one Torn Room hstep trivial
      exact ⟨_, _, b, hr, hall, ⟨rfl, h.path_eq, h.lock_eq, h.file, h.locked⟩, rfl,
        .reports hrec .counted⟩
  | died => exact h.still (.died hrec)
  | diedWriting hn hk htorn => exact h.fails hn hk htorn hroom (.event _ (.died hrec))
  | diedAccepting hn => exact h.accepts hn hroom (.event _ (.died hrec))

/-! ## 3. Every step is followed -/

/-- What the sections keep. -/
def Standing (Torn : Nat → Prop) (c : SetCall) (s : SharedState) (p : Point) (s' : SharedState) :
    Prop :=
  CallAt Torn s c p s'

/-- **What the spend log is to the shared one**: the set that is open, as it was when the lock was
    last free, and a history that has the answers. -/
structure Follows (Torn Room : Nat → Prop) (path : Pathname) (W : SharedLog τ) (w : SpendLog) :
    Prop where
  recorded : Recorded W.lock.stays w.log
  closed : W.session = none → w.session = none ∧ w.fs = W.fs ∧ W.lock.holder = none
  opened : ∀ s, W.session = some s → ∃ b, Open path w b ∧ s.path = path ∧
    s.lockPath = lockPathOf path ∧
    Settled (Standing Torn) (stateOf b w.fs) (W.lock, stateOf s W.fs) ∧
    (W.lock.holder ≠ none → Room (w.fs.contents path).length)

/-- What a step may tear: a write fails, or a thread dies, with a number of bytes in the file that
    `Torn` allows; a process stops there, or behind a whole entry; and a thread enters the lock
    only where `Room` has room for an entry. -/
def Tidy (Torn Room : Nat → Prop) (path : Pathname) (W : SharedLog τ) : SharedCall τ → Prop
  | .thread (.lock _) => Room (W.fs.contents path).length
  | .thread (.act .failed) => ∀ H ∈ W.lock.holder, Torn H.point.bytes
  | .thread .die => ∀ H ∈ W.lock.holder, Torn H.point.bytes
  | .stop => ∀ H ∈ W.lock.holder, Torn H.point.bytes ∨ H.point.bytes = 32
  | _ => True

/-- Nothing half written, and room for every entry. -/
def Clean (path : Pathname) : SharedLog τ → SharedCall τ → Prop :=
  Tidy (fun k => k = 0) (fun len => len + 32 ≤ maxNullifierFileSize) path

instance (path : Pathname) (W : SharedLog τ) : ∀ c, Decidable (Clean path W c)
  | .thread (.lock _) => inferInstanceAs (Decidable (_ ≤ _))
  | .thread (.act .failed) => inferInstanceAs (Decidable (∀ H ∈ W.lock.holder, H.point.bytes = 0))
  | .thread .die => inferInstanceAs (Decidable (∀ H ∈ W.lock.holder, H.point.bytes = 0))
  | .stop => inferInstanceAs (Decidable (∀ H ∈ W.lock.holder,
      H.point.bytes = 0 ∨ H.point.bytes = 32))
  | .thread (.call _ _) => .isTrue trivial
  | .thread (.act .ok) => .isTrue trivial
  | .thread (.act (.wrote _)) => .isTrue trivial
  | .thread .unlock => .isTrue trivial
  | .withFile => .isTrue trivial
  | .drop => .isTrue trivial
  | .stopOpening => .isTrue trivial

/-- The file a section writes to stays the same. -/
theorem callAt_file {s s' : SharedState} {c : SetCall} {p : Point} (h : CallAt Torn s c p s') :
    s'.file = s.file := by
  cases h with
  | insert hat =>
      cases hat with
      | check => rfl
      | known hn => rfl
      | accepted hn => exact wrote_file 32
      | writing hn hfile hk => exact wrote_file _
      | flushing hn => exact wrote_file 32
      | syncing hn => exact wrote_file 32
      | accepting hn => exact wrote_file 32
      | reporting hn hk htorn => exact wrote_file _
      | refused hn hk htorn => exact wrote_file _
  | _ => rfl

theorem settled_file {L : Lock τ SetCall Point Answer} {v s' : SharedState}
    (h : Settled (Standing Torn) v (L, s')) : s'.file = v.file := by
  cases hH : L.holder with
  | none =>
      have hsame : s' = v := (settled_free hH).mp h
      rw [hsame]
  | some H => exact callAt_file ((settled_held hH).mp h)

variable [DecidableEq τ] {W W' : SharedLog τ}

/-- A step of a thread. -/
theorem Follows.thread (h : Follows Torn Room path W w) {l : Label τ SetCall Outcome}
    (hc : Tidy Torn Room path W (.thread l)) (hs : step path W (.thread l) = some W') :
    ∃ calls w', (SpendLog.machine path).run w calls = some w' ∧
      (SpendLog.machine path).AllSteps (Allowed Torn Room path) w calls ∧
      Follows Torn Room path W' w' := by
  obtain ⟨s, hsession, hs⟩ := Option.bind_eq_some_iff.mp hs
  obtain ⟨⟨L, s'⟩, hstep, rfl⟩ := Option.map_eq_some_iff.mp hs
  obtain ⟨b, hopen, hpath, hlockPath, hsettled, hroom⟩ := h.opened s hsession
  have hact : ∀ H e r, W.lock.holder = some H → l = .act e →
      Standing Torn H.call (stateOf b w.fs) H.point (stateOf s W.fs) →
      shared.step H.point (stateOf s W.fs) e = some r →
      Standing Torn H.call (stateOf b w.fs) r.1 r.2 := by
    intro H e r hH hl hat hr
    refine callAt_step hat hr fun he _ => ?_
    subst hl he
    exact hc H hH
  -- the state is what the set and the files make of it
  have hstate : ∀ {v : SharedState}, Settled (Standing Torn) v (L, s') → v.file = some path →
      s' = stateOf { s with nullifiers := s'.nullifiers } s'.fs := by
    intro v hv hfile
    have hfile' : s'.file = some s.path := by rw [settled_file hv, hfile, hpath]
    obtain ⟨nullifiers, file, fs⟩ := s'
    cases hfile'
    rfl
  have hbfile : (stateOf b w.fs).file = some path := congrArg some hopen.path_eq
  rcases settled_step (fun c v => callAt_enter v c) hact hsettled hstep with
    ⟨hstays, hsettled'⟩ | ⟨H, a, hleave⟩
  · refine ⟨[], w, rfl, trivial, ?_, fun hnone => absurd hnone (Option.some_ne_none _),
      fun s₁ hs₁ => ?_⟩
    · show Recorded L.stays w.log
      rw [hstays]
      exact h.recorded
    · cases hs₁
      refine ⟨b, hopen, hpath, hlockPath, ?_, fun hheld => ?_⟩
      · rw [← hstate hsettled' hbfile]
        exact hsettled'
      · cases hH : W.lock.holder with
        | some H => exact hroom (by rw [hH]; exact Option.some_ne_none H)
        | none =>
            -- the thread has just taken the lock
            have hsame : stateOf s W.fs = stateOf b w.fs := (settled_free hH).mp hsettled
            have hfs : W.fs = w.fs := congrArg (·.fs) hsame
            cases l with
            | lock t =>
                rw [← hfs]
                exact hc
            | call t c =>
                simp only [threads] at hstep
                split at hstep
                · cases hstep
                · cases hstep
                  exact absurd hH hheld
            | act e => simp [threads, hH] at hstep
            | unlock => simp [threads, hH] at hstep
            | die => simp [threads, hH] at hstep
  · have hat : CallAt Torn (stateOf b w.fs) H.call H.point (stateOf s W.fs) :=
      (settled_held hleave.held).mp hsettled
    have hroom' := hroom (by rw [hleave.held]; exact Option.some_ne_none H)
    have heffect : Effect Torn (stateOf b w.fs) ⟨H.thread, H.call, a⟩ (stateOf s W.fs) := by
      rcases hleave.how with ⟨_, a', rfl, ha'⟩ | ⟨rfl, rfl⟩
      · exact hat.answered ha'
      · exact hat.died fun _ => hc H hleave.held
    obtain ⟨calls, w', b', hr, hall, hopen', hsame, hrec⟩ := hopen.follows heffect hroom' h.recorded
    have hvalue : s' = stateOf b' w'.fs := hleave.value.trans hsame.symm
    have hsettled' : Settled (Standing Torn) (stateOf b' w'.fs) (L, s') :=
      (settled_free hleave.free).mpr hvalue
    refine ⟨calls, w', hr, hall, ?_, fun hnone => absurd hnone (Option.some_ne_none _),
      fun s₁ hs₁ => ?_⟩
    · show Recorded L.stays w'.log
      rw [hleave.stays]
      exact hrec
    · cases hs₁
      refine ⟨b', hopen', hpath, hlockPath, ?_, fun hheld => absurd hleave.free hheld⟩
      rw [← hstate hsettled' (congrArg some hopen'.path_eq)]
      exact hsettled'

omit [DecidableEq τ] in
/-- Where `with_file` succeeds, the set is at the path, with its file and its lock file there. -/
theorem open_of_withFile {fs fs' : FileSystem} {s : FileBackedSet} (log : List LogEvent)
    (h : withFile fs path none = (.ok s, fs')) : Open path ⟨fs', some s, log⟩ s := by
  by_cases hlocks : Locks fs path none
  · rw [withFile_free ⟨hlocks.named, hlocks.noParent⟩ hlocks.free] at h
    split at h
    · cases h
    · split at h
      · cases h
      · cases h
        have hfile : (FileBackedSet.opened fs path) path ≠ none := by
          unfold FileBackedSet.opened FileSystem.put
          rw [Function.update_self]
          exact Option.some_ne_none _
        have hlock : (FileBackedSet.opened fs path) (lockPathOf path) ≠ none := by
          by_cases hsame : lockPathOf path = path
          · rw [hsame]
            exact hfile
          · unfold FileBackedSet.opened FileSystem.put
            rw [Function.update_of_ne hsame, Function.update_self]
            exact Option.some_ne_none _
        exact ⟨rfl, rfl, rfl, hfile, hlock⟩
  · obtain ⟨e, he⟩ := withFile_of_not_locks hlocks
    rw [he] at h
    cases h

omit [DecidableEq τ] in
/-- A section leaves the files that are there. -/
theorem callAt_there {s s' : SharedState} {c : SetCall} {p : Point} (h : CallAt Torn s c p s')
    {q : Pathname} (hq : s.fs q ≠ none) : s'.fs q ≠ none := by
  have hwrote : ∀ n k, (s.wrote n k).fs q ≠ none := by
    intro n k
    unfold SharedState.wrote
    split
    · exact hq
    · split
      · exact hq
      · exact append_some hq
  cases h with
  | insert hat =>
      cases hat with
      | check => exact hq
      | known hn => exact hq
      | _ => exact hwrote _ _
  | _ => exact hq

omit [DecidableEq τ] in
theorem settled_there {L : Lock τ SetCall Point Answer} {v s' : SharedState}
    (h : Settled (Standing Torn) v (L, s')) {q : Pathname} (hq : v.fs q ≠ none) :
    s'.fs q ≠ none := by
  cases hH : L.holder with
  | none =>
      have hsame : s' = v := (settled_free hH).mp h
      rwa [hsame]
  | some H => exact callAt_there ((settled_held hH).mp h) hq

/-- `with_file` in either log. -/
theorem Follows.withFile (h : Follows Torn Room path W w)
    (hs : step path W .withFile = some W') :
    ∃ w', SpendLog.step path w .withFile = some w' ∧ Follows Torn Room path W' w' := by
  cases hsession : W.session with
  | none =>
      obtain ⟨hw, hfs, hfree⟩ := h.closed hsession
      cases hrun : FileBackedSet.withFile W.fs path none with
      | mk r fs' =>
          simp only [step, hrun] at hs
          simp only [SpendLog.step, hfs, hrun]
          cases r with
          | ok s =>
              cases hs
              refine ⟨_, rfl, .event _ h.recorded,
                fun hnone => absurd hnone (Option.some_ne_none _), fun s₁ hs₁ => ?_⟩
              cases hs₁
              have hopen := open_of_withFile (.opened s.nullifiers :: w.log) hrun
              exact ⟨s, hopen, hopen.path_eq, hopen.lock_eq, (settled_free hfree).mpr rfl,
                fun hheld => absurd hfree hheld⟩
          | error e =>
              cases hs
              refine ⟨_, rfl, .event _ h.recorded, fun _ => ⟨hw, rfl, hfree⟩, fun s₁ hs₁ => ?_⟩
              exact absurd (hsession.symm.trans hs₁) (by simp)
  | some s =>
      -- a set is open: the lock file is there for both
      obtain ⟨b, hopen, hpath, hlockPath, hsettled, hroom⟩ := h.opened s hsession
      obtain ⟨e, he⟩ := withFile_locked (settled_there hsettled hopen.locked)
      obtain ⟨e', he'⟩ := withFile_locked hopen.locked
      have heW : FileBackedSet.withFile W.fs path none = (.error e, W.fs) := he
      simp only [step, heW] at hs
      cases hs
      simp only [SpendLog.step, he']
      exact ⟨_, rfl, .event _ h.recorded, fun hnone => absurd (hsession.symm.trans hnone) (by simp),
        fun s₁ hs₁ => ⟨b, ⟨hopen.session, hopen.path_eq, hopen.lock_eq, hopen.file, hopen.locked⟩,
          by cases hsession.symm.trans hs₁; exact ⟨hpath, hlockPath, hsettled, hroom⟩⟩⟩

omit [DecidableEq τ] in
/-- Nothing is open, and what the threads were answered stays on record. -/
theorem follows_closed {W : SharedLog τ} {w : SpendLog} (hrec : Recorded W.lock.stays w.log)
    (hW : W.session = none) (hw : w.session = none) (hfs : w.fs = W.fs)
    (hfree : W.lock.holder = none) : Follows Torn Room path W w :=
  ⟨hrec, fun _ => ⟨hw, hfs, hfree⟩, fun s hs => absurd (hW.symm.trans hs) (by simp)⟩

theorem Follows.drop (h : Follows Torn Room path W w) (hs : step path W .drop = some W') :
    ∃ w', SpendLog.step path w .drop = some w' ∧ Follows Torn Room path W' w' := by
  obtain ⟨s, hsession, hs⟩ := Option.bind_eq_some_iff.mp hs
  obtain ⟨b, hopen, hpath, hlockPath, hsettled, _⟩ := h.opened s hsession
  split at hs
  · rename_i hidle
    cases hs
    have hfree : W.lock.holder = none := Option.isNone_iff_eq_none.mp hidle.1
    have hsame : stateOf s W.fs = stateOf b w.fs := (settled_free hfree).mp hsettled
    have hfs : w.fs = W.fs := congrArg (·.fs) hsame.symm
    refine ⟨⟨b.drop w.fs, none, .dropped b.nullifiers :: w.log⟩, ?_,
      follows_closed (.event _ h.recorded) rfl rfl ?_ hfree⟩
    · simp only [SpendLog.step, hopen.session, Option.map_some]
    · show b.drop w.fs = s.drop W.fs
      unfold FileBackedSet.drop
      rw [hfs, hopen.lock_eq, hlockPath]
  · cases hs

omit [DecidableEq τ] in
/-- **A process stopped wherever its thread stands**: between calls, in an insert, or behind an
    accepted one. -/
theorem Open.stopped (h : Open path w b) {c : SetCall} {p : Point} {s' : SharedState}
    (hat : CallAt Torn (stateOf b w.fs) c p s') (htorn : Torn p.bytes ∨ p.bytes = 32)
    (hroom : Room (w.fs.contents path).length) (hrec : Recorded ys w.log) :
    ∃ calls w', (SpendLog.machine path).run w calls = some w' ∧
      (SpendLog.machine path).AllSteps (Allowed Torn Room path) w calls ∧
      w'.session = none ∧ w'.fs = s'.fs.remove (lockPathOf path) ∧ Recorded ys w'.log := by
  have hplain : ∀ {w : SpendLog}, Recorded ys w.log → ∃ calls w',
      (SpendLog.machine path).run w calls = some w' ∧
      (SpendLog.machine path).AllSteps (Allowed Torn Room path) w calls ∧
      w'.session = none ∧ w'.fs = w.fs.remove (lockPathOf path) ∧ Recorded ys w'.log := by
    intro w hrec
    have hstep : SpendLog.step path w .stop =
        some ⟨w.fs.remove (lockPathOf path), none, .stopped :: w.log⟩ := rfl
    obtain ⟨hr, hall⟩ := run_one Torn Room hstep trivial
    exact ⟨_, _, hr, hall, rfl, rfl, .event _ hrec⟩
  have hcut : ∀ n k, n ∉ b.nullifiers → k ≤ 32 → (Torn k ∨ k = 32) → ∃ calls w',
      (SpendLog.machine path).run w calls = some w' ∧
      (SpendLog.machine path).AllSteps (Allowed Torn Room path) w calls ∧
      w'.session = none ∧ w'.fs = ((stateOf b w.fs).wrote n k).fs.remove (lockPathOf path) ∧
      Recorded ys w'.log := by
    intro n k hn hk htorn
    have hlt : k < 33 := Nat.lt_succ_of_le hk
    have hstep : SpendLog.step path w (.stopInserting n ⟨k, hlt⟩) =
        some ⟨(w.fs.append path (n.toList.take k)).remove (lockPathOf path), none,
          .interrupted n ⟨k, hlt⟩ :: w.log⟩ := by
      simp only [SpendLog.step, h.session, Option.bind_some, if_neg hn, h.path_eq]
    have hallowed : Allowed Torn Room path w (.stopInserting n ⟨k, hlt⟩) := ⟨htorn, hroom⟩
    obtain ⟨hr, hall⟩ := run_one Torn Room hstep hallowed
    refine ⟨_, _, hr, hall, rfl, ?_, .event _ hrec⟩
    have hfile : w.fs b.path ≠ none := h.path_eq.symm ▸ h.file
    rw [wrote_stateOf hfile, h.path_eq]
    rfl
  cases hat with
  | insert hat =>
      cases hat with
      | check => exact hplain hrec
      | known hn => exact hplain hrec
      | writing hn hfile hk => exact hcut _ _ hn (Nat.le_of_lt hk) htorn
      | flushing hn => exact hcut _ 32 hn (Nat.le_refl 32) (.inr rfl)
      | syncing hn => exact hcut _ 32 hn (Nat.le_refl 32) (.inr rfl)
      | accepting hn => exact hcut _ 32 hn (Nat.le_refl 32) (.inr rfl)
      | reporting hn hk hleft => exact hcut _ _ hn hk (.inl hleft)
      | refused hn hk hleft => exact hcut _ _ hn hk (.inl hleft)
      | accepted hn =>
          have hleads : Leads Torn Room path w ys _ := h.accepts hn hroom (.event _ hrec)
          obtain ⟨calls, w₁, b₁, hr₁, hall₁, _, hsame, hrec₁⟩ := hleads
          obtain ⟨more, w₂, hr₂, hall₂, hnone, hfs, hrec₂⟩ := hplain hrec₁
          refine ⟨calls ++ more, w₂, Machine.run_append _ hr₁ hr₂,
            Machine.allSteps_append _ hall₁ hr₁ hall₂, hnone, ?_, hrec₂⟩
          rw [hfs, ← hsame]
          rfl
  | _ => exact hplain hrec

/-- A process that stops. -/
theorem Follows.stop (h : Follows Torn Room path W w) (hc : Tidy Torn Room path W .stop)
    (hs : step path W .stop = some W') :
    ∃ calls w', (SpendLog.machine path).run w calls = some w' ∧
      (SpendLog.machine path).AllSteps (Allowed Torn Room path) w calls ∧
      Follows Torn Room path W' w' := by
  cases hs
  cases hH : W.lock.holder with
  | none =>
      have hstays : (abandon W.lock).stays = W.lock.stays := by
        unfold abandon
        rw [hH]
      have hrec : Recorded (abandon W.lock).stays w.log := by
        rw [hstays]
        exact h.recorded
      have hfs : w.fs = W.fs := by
        cases hsession : W.session with
        | none => exact (h.closed hsession).2.1
        | some s =>
            obtain ⟨b, _, _, _, hsettled, _⟩ := h.opened s hsession
            have hsame : stateOf s W.fs = stateOf b w.fs := (settled_free hH).mp hsettled
            exact congrArg (·.fs) hsame.symm
      have hstep : SpendLog.step path w .stop =
          some ⟨w.fs.remove (lockPathOf path), none, .stopped :: w.log⟩ := rfl
      obtain ⟨hr, hall⟩ := run_one Torn Room hstep trivial
      exact ⟨_, _, hr, hall, follows_closed (.event _ hrec) rfl rfl (by rw [hfs]) rfl⟩
  | some H =>
      cases hsession : W.session with
      | none => exact absurd ((h.closed hsession).2.2.symm.trans hH) (by simp)
      | some s =>
          obtain ⟨b, hopen, _, _, hsettled, hroom⟩ := h.opened s hsession
          have hat : CallAt Torn (stateOf b w.fs) H.call H.point (stateOf s W.fs) :=
            (settled_held hH).mp hsettled
          have hstays : (abandon W.lock).stays = ⟨H.thread, H.call, none⟩ :: W.lock.stays := by
            unfold abandon
            rw [hH]
          obtain ⟨calls, w', hr, hall, hnone, hfs, hrec⟩ := hopen.stopped hat (hc H hH)
            (hroom (by rw [hH]; exact Option.some_ne_none H)) (.died h.recorded)
          exact ⟨calls, w', hr, hall, follows_closed (by rw [hstays]; exact hrec) rfl hnone hfs rfl⟩

/-- **Every step is followed by calls of the spend log.** -/
theorem follows_step (h : Follows Torn Room path W w) {c : SharedCall τ}
    (hc : Tidy Torn Room path W c) (hs : step path W c = some W') :
    ∃ calls w', (SpendLog.machine path).run w calls = some w' ∧
      (SpendLog.machine path).AllSteps (Allowed Torn Room path) w calls ∧
      Follows Torn Room path W' w' := by
  cases c with
  | thread l => exact h.thread hc hs
  | withFile =>
      obtain ⟨w', hstep, hfollows⟩ := h.withFile hs
      obtain ⟨hr, hall⟩ := run_one Torn Room hstep trivial
      exact ⟨_, w', hr, hall, hfollows⟩
  | drop =>
      obtain ⟨w', hstep, hfollows⟩ := h.drop hs
      obtain ⟨hr, hall⟩ := run_one Torn Room hstep trivial
      exact ⟨_, w', hr, hall, hfollows⟩
  | stop => exact h.stop hc hs
  | stopOpening =>
      simp only [step] at hs
      split at hs
      · cases hs
      · rename_i hidle
        cases hs
        have hsession : W.session = none := by
          cases hW : W.session with
          | none => rfl
          | some s => exact absurd (by rw [hW]; rfl) hidle
        obtain ⟨hw, hfs, hfree⟩ := h.closed hsession
        have hstep : SpendLog.step path w .stopOpening =
            some ⟨(FileBackedSet.withFile W.fs path none).2.remove (lockPathOf path), none,
              .stopped :: w.log⟩ := by
          simp only [SpendLog.step, hw, hfs]
          rfl
        obtain ⟨hr, hall⟩ := run_one Torn Room hstep trivial
        exact ⟨_, _, hr, hall, follows_closed (.event _ h.recorded) rfl rfl rfl hfree⟩

/-! ## 4. Runs -/

omit [DecidableEq τ] in
theorem follows_start (fs : FileSystem) :
    Follows Torn Room path (start fs : SharedLog τ) (SpendLog.start fs) :=
  follows_closed .start rfl rfl rfl rfl

theorem follows_run {fs : FileSystem} {ls : List (SharedCall τ)}
    (hc : (machine path).AllSteps (Tidy Torn Room path) (start fs) ls)
    (hr : (machine path).run (start fs) ls = some W) :
    ∃ calls w, (SpendLog.machine path).run (.start fs) calls = some w ∧
      (SpendLog.machine path).AllSteps (Allowed Torn Room path) (.start fs) calls ∧
      Follows Torn Room path W w :=
  (machine path).run_simulates (fun _ _ _ _ h hc hs => follows_step h hc hs) (follows_start fs)
    hc hr

omit [DecidableEq τ] in
/-- While nobody holds the lock, the two logs are in one state. -/
theorem Follows.settled (h : Follows Torn Room path W w) (hfree : W.lock.holder = none) :
    w.fs = W.fs ∧ w.session = W.session := by
  cases hsession : W.session with
  | none =>
      obtain ⟨hw, hfs, _⟩ := h.closed hsession
      exact ⟨hfs, hw⟩
  | some s =>
      obtain ⟨b, hopen, hpath, hlockPath, hsettled, _⟩ := h.opened s hsession
      have hsame : stateOf s W.fs = stateOf b w.fs := (settled_free hfree).mp hsettled
      have hset : s.nullifiers = b.nullifiers := congrArg (·.nullifiers) hsame
      have hb : b = s := by
        obtain ⟨bset, bpath, block⟩ := b
        obtain ⟨sset, spath, slock⟩ := s
        have h₁ : bpath = path := hopen.path_eq
        have h₂ : block = lockPathOf path := hopen.lock_eq
        have h₃ : spath = path := hpath
        have h₄ : slock = lockPathOf path := hlockPath
        have h₅ : sset = bset := hset
        rw [h₁, h₂, h₃, h₄, h₅]
      exact ⟨congrArg (·.fs) hsame.symm, by rw [hopen.session, hb]⟩

/-- **The shared log refines the spend log of one thread.** Whatever the interleaving of the
    threads, wherever writes fail, threads die and processes stop, the answers the threads got are
    those of one history of single calls, and whenever nobody holds the lock the set and the files
    are the ones this history leads to. -/
theorem refines_log {fs : FileSystem} {ls : List (SharedCall τ)}
    (hr : (machine path).run (start fs) ls = some W) :
    ∃ calls w, (SpendLog.machine path).run (.start fs) calls = some w ∧
      Recorded W.lock.stays w.log ∧
      (W.lock.holder = none → w.fs = W.fs ∧ w.session = W.session) := by
  have htidy : (machine path).AllSteps (Tidy (fun _ => True) (fun _ => True) path)
      (start fs : SharedLog τ) ls := by
    refine (machine path).allSteps_of_forall ls _ fun c _ W => ?_
    cases c with
    | thread l =>
        cases l with
        | act e => cases e <;> simp [Tidy]
        | _ => simp [Tidy]
    | _ => simp [Tidy]
  obtain ⟨calls, w, hrun, _, hfollows⟩ := follows_run htidy hr
  exact ⟨calls, w, hrun, hfollows.recorded, hfollows.settled⟩

/-- Two threads race to insert one nullifier; a third dies over a write that fails; the process
    stops while one of them waits, and the next process is asked for the same nullifier. -/
def sampleProcesses : List (SharedCall Nat) :=
  [.withFile, .thread (.call 1 (.insert (leArr 32 7))), .thread (.call 2 (.insert (leArr 32 7))),
    .thread (.call 3 (.insert (leArr 32 9))), .thread (.lock 3), .thread (.act .ok),
    .thread (.act .failed), .thread .die, .thread (.lock 2), .thread (.act .ok),
    .thread (.act (.wrote 32)), .thread (.act .ok), .thread (.act .ok), .thread (.act .ok),
    .thread .unlock, .stop, .withFile, .thread (.call 1 (.insert (leArr 32 7))),
    .thread (.lock 1), .thread (.act .ok), .thread .unlock]

theorem refines_log_processes :
    ∃ (W : SharedLog Nat) (calls : List LogCall) (w : SpendLog),
      (machine SpendLog.samplePath).run (start fun _ => none) sampleProcesses = some W ∧
      (SpendLog.machine SpendLog.samplePath).run (.start fun _ => none) calls = some w ∧
      Recorded W.lock.stays w.log ∧ w.fs = W.fs ∧ w.session = W.session := by
  have hrun : ((machine SpendLog.samplePath).run (start fun _ => none) sampleProcesses).map
      (fun W => W.lock.holder.isNone) = some true := by
    decide +kernel
  obtain ⟨W, hW, hfree⟩ := Option.map_eq_some_iff.mp hrun
  obtain ⟨calls, w, hr, hrec, hsame⟩ := refines_log hW
  exact ⟨W, calls, w, hW, hr, hrec, hsame (Option.isNone_iff_eq_none.mp hfree)⟩

end SharedLog

end Specter
