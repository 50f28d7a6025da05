/-
  File:      Specter/Core/SharedSet.lean
  Subject:   ONE NULLIFIER SET SHARED BY THREADS (`ConcurrentNullifierSet` of
             specter-core/src/nullifier.rs).

  The handles of all threads share one set behind one lock. Inside the lock a call goes in steps:
  the look-up, each `write` of `write_all`, `flush`, `sync_all`, the line printed after a failure,
  the insert into the map. What the operating system does in a step is an argument, and a thread
  may die at any of them, which poisons the lock; every call takes a poisoned lock as it is.

  * `CallAt`, `callAt_step` -- where a call can stand, and what it has done by then;
  * `Effect`, `stay_effect` -- what one stay in the lock does, once for all later proofs;
  * `linearizable` -- over every interleaving the calls act one after the other, a nullifier is
    accepted once at most, with its bytes in the file, and no call waits for ever.
-/
import Specter.Core.SpendFile
import Specter.Lib.Guarded

namespace Specter

open Lib Lib.Guarded

/-- A `NullifierSet` with or without a file, and the files. -/
structure SharedState where
  nullifiers : Finset Bytes32
  file : Option Pathname
  fs : FileSystem

namespace SharedState

/-- `k` bytes of an entry have been written. -/
def wrote (s : SharedState) (n : Bytes32) (k : Nat) : SharedState :=
  match s.file with
  | none => s
  | some path => if k = 0 then s else { s with fs := s.fs.append path (n.toList.take k) }

def accept (s : SharedState) (n : Bytes32) : SharedState :=
  { s with nullifiers := Insert.insert n s.nullifiers }

end SharedState

namespace SharedSet

inductive SetCall where
  | insert (n : Bytes32)
  | contains (n : Bytes32)
  | len
  deriving DecidableEq

inductive Answer where
  | bool (b : Bool)
  | size (k : Nat)
  deriving DecidableEq

/-! ## 1. The sections -/

/-- Where a call stands inside the lock. -/
inductive Point where
  /-- `insert`, before the look-up in the map. -/
  | check (n : Bytes32)
  /-- In `write_all`, with `k` bytes written. -/
  | write (path : Pathname) (n : Bytes32) (k : Nat)
  | flush (n : Bytes32)
  | sync (n : Bytes32)
  /-- Before the line that reports the failed write. -/
  | report
  /-- Before the insert into the map. -/
  | accept (n : Bytes32)
  | lookup (n : Bytes32)
  | count
  | leave (a : Answer)

/-- What the operating system does in a step. -/
inductive Outcome where
  | ok
  | wrote (j : Nat)
  | failed

def enter : SetCall → Point
  | .insert n => .check n
  | .contains n => .lookup n
  | .len => .count

def step : Point → SharedState → Outcome → Option (Point × SharedState)
  | .check n, s, .ok =>
      if n ∈ s.nullifiers then some (.leave (.bool false), s)
      else
        match s.file with
        | none => some (.accept n, s)
        | some path => some (.write path n 0, s)
  | .write path n k, s, .wrote j =>
      if 0 < j ∧ k + j ≤ 32 then
        some (if k + j = 32 then .flush n else .write path n (k + j),
          { s with fs := s.fs.append path ((n.toList.drop k).take j) })
      else none
  | .write _ _ _, s, .failed => some (.report, s)
  | .flush n, s, .ok => some (.sync n, s)
  | .flush _, s, .failed => some (.report, s)
  | .sync n, s, .ok => some (.accept n, s)
  | .sync _, s, .failed => some (.report, s)
  | .report, s, .ok => some (.leave (.bool false), s)
  | .accept n, s, .ok => some (.leave (.bool (decide (n ∉ s.nullifiers))), s.accept n)
  | .lookup n, s, .ok => some (.leave (.bool (decide (n ∈ s.nullifiers))), s)
  | .count, s, .ok => some (.leave (.size s.nullifiers.card), s)
  | _, _, _ => none

def answer : Point → Option Answer
  | .leave a => some a
  | _ => none

/-- `ConcurrentNullifierSet`: the set behind its lock. -/
def shared : Guarded SharedState SetCall Point Outcome Answer where
  enter := enter
  step := step
  answer := answer

/-- How many bytes of an entry are in the file while its insert is at a point, and the set does not
    have it. -/
def Point.bytes : Point → Nat
  | .write _ _ k => k
  | .flush _ => 32
  | .sync _ => 32
  | .accept _ => 32
  | _ => 0

/-! ## 2. Where a call can stand -/

/-- **The places of an insert begun on `s`**, and what the state is at each of them; `Torn` is how
    many bytes a write that failed may have left. -/
inductive InsertAt (Torn : Nat → Prop) (s : SharedState) (n : Bytes32) :
    Point → SharedState → Prop where
  | check : InsertAt Torn s n (.check n) s
  | known (hn : n ∈ s.nullifiers) : InsertAt Torn s n (.leave (.bool false)) s
  | writing {path k} (hn : n ∉ s.nullifiers) (hfile : s.file = some path) (hk : k < 32) :
      InsertAt Torn s n (.write path n k) (s.wrote n k)
  | flushing (hn : n ∉ s.nullifiers) : InsertAt Torn s n (.flush n) (s.wrote n 32)
  | syncing (hn : n ∉ s.nullifiers) : InsertAt Torn s n (.sync n) (s.wrote n 32)
  | accepting (hn : n ∉ s.nullifiers) : InsertAt Torn s n (.accept n) (s.wrote n 32)
  | accepted (hn : n ∉ s.nullifiers) :
      InsertAt Torn s n (.leave (.bool true)) ((s.wrote n 32).accept n)
  | reporting {k} (hn : n ∉ s.nullifiers) (hk : k ≤ 32) (htorn : Torn k) :
      InsertAt Torn s n .report (s.wrote n k)
  | refused {k} (hn : n ∉ s.nullifiers) (hk : k ≤ 32) (htorn : Torn k) :
      InsertAt Torn s n (.leave (.bool false)) (s.wrote n k)

/-- The places of any call begun on `s`. -/
inductive CallAt (Torn : Nat → Prop) (s : SharedState) : SetCall → Point → SharedState → Prop where
  | insert {n p s'} (h : InsertAt Torn s n p s') : CallAt Torn s (.insert n) p s'
  | lookup {n} : CallAt Torn s (.contains n) (.lookup n) s
  | contained {n} : CallAt Torn s (.contains n) (.leave (.bool (decide (n ∈ s.nullifiers)))) s
  | count : CallAt Torn s .len .count s
  | counted : CallAt Torn s .len (.leave (.size s.nullifiers.card)) s

section Writing

variable {s : SharedState} {n : Bytes32}

theorem wrote_zero : s.wrote n 0 = s := by
  unfold SharedState.wrote
  split <;> rfl

@[simp] theorem wrote_nullifiers (k : Nat) : (s.wrote n k).nullifiers = s.nullifiers := by
  unfold SharedState.wrote
  split
  · rfl
  · split <;> rfl

@[simp] theorem wrote_file (k : Nat) : (s.wrote n k).file = s.file := by
  unfold SharedState.wrote
  split
  · rfl
  · split <;> rfl

theorem append_append {fs : FileSystem} {p : Pathname} {a b : Bytes} :
    (fs.append p a).append p b = fs.append p (a ++ b) := by
  unfold FileSystem.append FileSystem.put FileSystem.contents
  rw [Function.update_self, Function.update_idem, Option.getD_some, List.append_assoc]

/-- `write_all` goes on where it stopped. -/
theorem wrote_more {path : Pathname} {k j : Nat} (hfile : s.file = some path) (hj : 0 < j) :
    { s.wrote n k with fs := (s.wrote n k).fs.append path ((n.toList.drop k).take j) } =
      s.wrote n (k + j) := by
  have hne : k + j ≠ 0 := by omega
  unfold SharedState.wrote
  rw [hfile]
  dsimp only
  rw [if_neg hne, List.take_add]
  by_cases hk : k = 0
  · subst hk
    rw [if_pos rfl]
    simp [hfile]
  · rw [if_neg hk, append_append]

/-- What is in the file behind `k` bytes of an entry. -/
theorem contents_wrote {path : Pathname} (hfile : s.file = some path) (k : Nat) :
    (s.wrote n k).fs.contents path = s.fs.contents path ++ n.toList.take k := by
  unfold SharedState.wrote
  rw [hfile]
  dsimp only
  split
  · rename_i hk
    rw [hk, List.take_zero, List.append_nil]
  · exact FileSystem.contents_append

end Writing

variable {Torn : Nat → Prop}

/-- One step of an insert goes from place to place. -/
theorem insertAt_step {s s' : SharedState} {n : Bytes32} {p : Point} {e : Outcome}
    {r : Point × SharedState} (h : InsertAt Torn s n p s') (hs : step p s' e = some r)
    (htorn : e = .failed → p.bytes ≤ 32 → Torn p.bytes) : InsertAt Torn s n r.1 r.2 := by
  cases h with
  | check =>
      cases e with
      | ok =>
          simp only [step] at hs
          split at hs
          · rename_i hn
            cases hs
            exact .known hn
          · rename_i hn
            split at hs
            · rename_i hfile
              cases hs
              have hsame : s.wrote n 32 = s := by
                unfold SharedState.wrote
                rw [hfile]
              have hat : InsertAt Torn s n (.accept n) (s.wrote n 32) := .accepting hn
              rw [hsame] at hat
              exact hat
            · rename_i path hfile
              cases hs
              have hat : InsertAt Torn s n (.write path n 0) (s.wrote n 0) :=
                .writing hn hfile (by decide)
              rw [wrote_zero] at hat
              exact hat
      | wrote j => cases hs
      | failed => cases hs
  | @writing path k hn hfile hk =>
      cases e with
      | ok => cases hs
      | wrote j =>
          simp only [step] at hs
          split at hs
          · rename_i hj
            cases hs
            dsimp only
            rw [wrote_more hfile hj.1]
            split
            · rename_i hall
              rw [hall]
              exact .flushing hn
            · exact .writing hn hfile (by omega)
          · cases hs
      | failed =>
          cases hs
          exact .reporting hn (Nat.le_of_lt hk) (htorn rfl (Nat.le_of_lt hk))
  | flushing hn =>
      cases e with
      | ok =>
          cases hs
          exact .syncing hn
      | wrote j => cases hs
      | failed =>
          cases hs
          exact .reporting hn (Nat.le_refl 32) (htorn rfl (Nat.le_refl 32))
  | syncing hn =>
      cases e with
      | ok =>
          cases hs
          exact .accepting hn
      | wrote j => cases hs
      | failed =>
          cases hs
          exact .reporting hn (Nat.le_refl 32) (htorn rfl (Nat.le_refl 32))
  | accepting hn =>
      cases e with
      | ok =>
          cases hs
          have hnew : decide (n ∉ (s.wrote n 32).nullifiers) = true := by simpa using hn
          rw [hnew]
          exact .accepted hn
      | wrote j => cases hs
      | failed => cases hs
  | reporting hn hk hleft =>
      cases e with
      | ok =>
          cases hs
          exact .refused hn hk hleft
      | wrote j => cases hs
      | failed => cases hs
  | known hn => cases e <;> cases hs
  | accepted hn => cases e <;> cases hs
  | refused hn hk htorn => cases e <;> cases hs

theorem callAt_enter (s : SharedState) (c : SetCall) : CallAt Torn s c (enter c) s := by
  cases c with
  | insert n => exact .insert .check
  | contains n => exact .lookup
  | len => exact .count

/-- **One step of a call goes from place to place.** -/
theorem callAt_step {s s' : SharedState} {c : SetCall} {p : Point} {e : Outcome}
    {r : Point × SharedState} (h : CallAt Torn s c p s') (hs : step p s' e = some r)
    (htorn : e = .failed → p.bytes ≤ 32 → Torn p.bytes) : CallAt Torn s c r.1 r.2 := by
  cases h with
  | insert hat => exact .insert (insertAt_step hat hs htorn)
  | lookup =>
      cases e with
      | ok =>
          cases hs
          exact .contained
      | wrote j => cases hs
      | failed => cases hs
  | count =>
      cases e with
      | ok =>
          cases hs
          exact .counted
      | wrote j => cases hs
      | failed => cases hs
  | contained => cases e <;> cases hs
  | counted => cases e <;> cases hs

/-- Where a call stands after any of its steps. -/
theorem callAt_ran {s s' : SharedState} {c : SetCall} {p : Point}
    (h : shared.Ran c s p s') : CallAt (fun _ => True) s c p s' :=
  h.invariant (callAt_enter s c) fun _ _ _ _ hI hs => callAt_step hI hs fun _ _ => trivial

/-! ## 3. What one stay in the lock does -/

variable {τ : Type}

/-- **The calls one at a time.** An insert is answered `true` where the nullifier is new and its
    bytes are in the file, `false` where it is known or the write failed; a thread that dies has
    done some part of its insert. -/
inductive Effect (Torn : Nat → Prop) (s : SharedState) :
    Stay τ SetCall Answer → SharedState → Prop where
  | known {t n} (hn : n ∈ s.nullifiers) : Effect Torn s ⟨t, .insert n, some (.bool false)⟩ s
  | accepted {t n} (hn : n ∉ s.nullifiers) :
      Effect Torn s ⟨t, .insert n, some (.bool true)⟩ ((s.wrote n 32).accept n)
  | refused {t n k} (hn : n ∉ s.nullifiers) (hk : k ≤ 32) (htorn : Torn k) :
      Effect Torn s ⟨t, .insert n, some (.bool false)⟩ (s.wrote n k)
  | contains {t n} :
      Effect Torn s ⟨t, .contains n, some (.bool (decide (n ∈ s.nullifiers)))⟩ s
  | len {t} : Effect Torn s ⟨t, .len, some (.size s.nullifiers.card)⟩ s
  | died {t c} : Effect Torn s ⟨t, c, none⟩ s
  | diedWriting {t n k} (hn : n ∉ s.nullifiers) (hk : k ≤ 32) (htorn : Torn k) :
      Effect Torn s ⟨t, .insert n, none⟩ (s.wrote n k)
  | diedAccepting {t n} (hn : n ∉ s.nullifiers) :
      Effect Torn s ⟨t, .insert n, none⟩ ((s.wrote n 32).accept n)

variable {s s' : SharedState} {y : Stay τ SetCall Answer} {p : Point}

/-- What a call has done wherever its thread dies. -/
theorem CallAt.died {c : SetCall} {t : τ} (h : CallAt Torn s c p s')
    (htorn : p.bytes ≤ 32 → Torn p.bytes) : Effect Torn s ⟨t, c, none⟩ s' := by
  cases h with
  | insert hat =>
      cases hat with
      | check => exact .died
      | known hn => exact .died
      | writing hn hfile hk =>
          exact .diedWriting hn (Nat.le_of_lt hk) (htorn (Nat.le_of_lt hk))
      | flushing hn => exact .diedWriting hn (Nat.le_refl 32) (htorn (Nat.le_refl 32))
      | syncing hn => exact .diedWriting hn (Nat.le_refl 32) (htorn (Nat.le_refl 32))
      | accepting hn => exact .diedWriting hn (Nat.le_refl 32) (htorn (Nat.le_refl 32))
      | accepted hn => exact .diedAccepting hn
      | reporting hn hk hleft => exact .diedWriting hn hk hleft
      | refused hn hk hleft => exact .diedWriting hn hk hleft
  | _ => exact .died

/-- What a call has done where it is answered. -/
theorem CallAt.answered {c : SetCall} {t : τ} {a : Answer} (h : CallAt Torn s c p s')
    (ha : answer p = some a) : Effect Torn s ⟨t, c, some a⟩ s' := by
  cases h with
  | insert hat =>
      cases hat with
      | known hn =>
          cases ha
          exact .known hn
      | accepted hn =>
          cases ha
          exact .accepted hn
      | refused hn hk htorn =>
          cases ha
          exact .refused hn hk htorn
      | _ => cases ha
  | lookup => cases ha
  | contained =>
      cases ha
      exact .contains
  | count => cases ha
  | counted =>
      cases ha
      exact .len

/-- **A stay in the lock has one of these effects.** -/
theorem stay_effect (h : shared.Ran y.call s p s') (hended : shared.Ended y p) :
    Effect (fun _ => True) s y s' := by
  obtain ⟨t, c, a⟩ := y
  have hat := callAt_ran h
  cases a with
  | none => exact hat.died fun _ => trivial
  | some a => exact hat.answered (hended a rfl)

/-- The stays, the newest first, each acting on what the one before left. -/
inductive Linear (s₀ : SharedState) : List (Stay τ SetCall Answer) → SharedState → Prop where
  | start : Linear s₀ [] s₀
  | stay {ys s y s'} (before : Linear s₀ ys s) (effect : Effect (fun _ => True) s y s') :
      Linear s₀ (y :: ys) s'

theorem linear_of_serial {s₀ : SharedState} {ys : List (Stay τ SetCall Answer)}
    (h : shared.Serial s₀ ys s) : Linear s₀ ys s := by
  induction h with
  | start => exact .start
  | stay y before ran ended ih => exact .stay ih (stay_effect ran ended)

/-! ## 4. All threads together -/

/-- The nullifiers whose insert was answered `true`, the newest first. -/
def accepted : List (Stay τ SetCall Answer) → List Bytes32
  | [] => []
  | y :: ys =>
      match y.call, y.answer with
      | .insert n, some (.bool true) => n :: accepted ys
      | _, _ => accepted ys

/-- The nullifiers whose insert died. -/
def cut : List (Stay τ SetCall Answer) → List Bytes32
  | [] => []
  | y :: ys =>
      match y.call, y.answer with
      | .insert n, none => n :: cut ys
      | _, _ => cut ys

/-- A nullifier is in the set, and its bytes are in the file. -/
structure Spent (s : SharedState) (n : Bytes32) : Prop where
  member : n ∈ s.nullifiers
  stored : ∀ path, s.file = some path → n.toList <:+: s.fs.contents path

/-- Nothing is taken back. -/
structure Grows (s s' : SharedState) : Prop where
  file : s'.file = s.file
  nullifiers : s.nullifiers ⊆ s'.nullifiers
  contents : ∀ path, s.file = some path → s.fs.contents path <+: s'.fs.contents path

theorem Grows.refl (s : SharedState) : Grows s s :=
  ⟨rfl, Finset.Subset.refl _, fun _ _ => List.prefix_rfl⟩

theorem grows_wrote (n : Bytes32) (k : Nat) : Grows s (s.wrote n k) := by
  refine ⟨wrote_file k, by rw [wrote_nullifiers], fun path hfile => ?_⟩
  rw [contents_wrote hfile]
  exact List.prefix_append _ _

theorem grows_accept (n : Bytes32) : Grows s ((s.wrote n 32).accept n) := by
  have hw := grows_wrote (s := s) n 32
  exact ⟨hw.file, hw.nullifiers.trans (Finset.subset_insert _ _), hw.contents⟩

theorem Spent.grows {n : Bytes32} (h : Spent s n) (hg : Grows s s') : Spent s' n :=
  ⟨hg.nullifiers h.member, fun path hfile =>
    (h.stored path (hg.file ▸ hfile)).trans (hg.contents path (hg.file ▸ hfile)).isInfix⟩

theorem spent_accept (n : Bytes32) : Spent ((s.wrote n 32).accept n) n := by
  refine ⟨Finset.mem_insert_self _ _, fun path hfile => ?_⟩
  have hfile' : s.file = some path := (wrote_file (s := s) (n := n) 32).symm.trans hfile
  have hcontents := contents_wrote (n := n) hfile' 32
  have hall : n.toList.take 32 = n.toList := List.take_of_length_le (Nat.le_of_eq n.toList_length)
  show n.toList <:+: (s.wrote n 32).fs.contents path
  rw [hcontents, hall]
  exact (List.suffix_append _ _).isInfix

theorem Effect.grows (h : Effect Torn s y s') : Grows s s' := by
  cases h with
  | accepted hn => exact grows_accept _
  | diedAccepting hn => exact grows_accept _
  | refused hn hk htorn => exact grows_wrote _ _
  | diedWriting hn hk htorn => exact grows_wrote _ _
  | _ => exact .refl _

/-- The section under way has not taken anything back either. -/
theorem grows_callAt {c : SetCall} (h : CallAt Torn s c p s') : Grows s s' := by
  cases h with
  | insert hat =>
      cases hat with
      | check => exact .refl s
      | known hn => exact .refl s
      | accepted hn => exact grows_accept _
      | _ => exact grows_wrote _ _
  | _ => exact .refl s

/-- **What the stays of all threads have in common**: a nullifier answered `true` was new, is in
    the set with its bytes in the file, and is answered `true` once; and what is in the set was
    there, was answered `true`, or comes from an insert that died. -/
structure Books (s₀ : SharedState) (ys : List (Stay τ SetCall Answer)) (s : SharedState) :
    Prop where
  grown : Grows s₀ s
  once : (accepted ys).Nodup
  fresh : ∀ n ∈ accepted ys, n ∉ s₀.nullifiers
  spent : ∀ n ∈ accepted ys, Spent s n
  sources : ∀ n ∈ s.nullifiers, n ∈ s₀.nullifiers ∨ n ∈ accepted ys ∨ n ∈ cut ys

theorem Books.start (s₀ : SharedState) : Books s₀ ([] : List (Stay τ SetCall Answer)) s₀ :=
  ⟨.refl s₀, List.nodup_nil, fun _ h => (nomatch h), fun _ h => (nomatch h), fun _ h => .inl h⟩

theorem Grows.trans {s'' : SharedState} (h : Grows s s') (h' : Grows s' s'') : Grows s s'' :=
  ⟨h'.file.trans h.file, h.nullifiers.trans h'.nullifiers, fun path hfile =>
    (h.contents path hfile).trans (h'.contents path (h.file.trans hfile))⟩

variable {s₀ : SharedState} {ys : List (Stay τ SetCall Answer)}

/-- A stay that accepts nothing. -/
theorem Books.keep (h : Books s₀ ys s) (hg : Grows s s') (hset : s'.nullifiers = s.nullifiers)
    (hacc : accepted (y :: ys) = accepted ys) (hcut : cut ys ⊆ cut (y :: ys)) :
    Books s₀ (y :: ys) s' := by
  refine ⟨h.grown.trans hg, ?_, ?_, ?_, fun n hn => ?_⟩
  · rw [hacc]
    exact h.once
  · rw [hacc]
    exact h.fresh
  · rw [hacc]
    exact fun n hn => (h.spent n hn).grows hg
  · rw [hacc]
    rw [hset] at hn
    rcases h.sources n hn with hold | hacc' | hcut'
    · exact .inl hold
    · exact .inr (.inl hacc')
    · exact .inr (.inr (hcut hcut'))

/-- **Every stay keeps the books.** -/
theorem Books.stay (h : Books s₀ ys s) (he : Effect Torn s y s') : Books s₀ (y :: ys) s' := by
  have hg := he.grows
  cases he with
  | known hn => exact h.keep hg rfl rfl (List.Subset.refl _)
  | @accepted t n hn =>
      have hnew : n ∉ accepted ys := fun hmem => hn (h.spent n hmem).member
      have hcons : accepted (⟨t, .insert n, some (.bool true)⟩ :: ys) = n :: accepted ys := rfl
      refine ⟨h.grown.trans hg, ?_, fun m hm => ?_, fun m hm => ?_, fun m hm => ?_⟩
      · rw [hcons]
        exact List.nodup_cons.mpr ⟨hnew, h.once⟩
      · rw [hcons] at hm
        rcases List.mem_cons.mp hm with rfl | hm
        · exact fun hold => hn (h.grown.nullifiers hold)
        · exact h.fresh m hm
      · rw [hcons] at hm
        rcases List.mem_cons.mp hm with rfl | hm
        · exact spent_accept m
        · exact (h.spent m hm).grows hg
      · rw [hcons]
        rcases Finset.mem_insert.mp hm with rfl | hm
        · exact .inr (.inl List.mem_cons_self)
        · rw [wrote_nullifiers] at hm
          rcases h.sources m hm with hold | hacc | hcut
          · exact .inl hold
          · exact .inr (.inl (List.mem_cons_of_mem _ hacc))
          · exact .inr (.inr hcut)
  | refused hn hk htorn => exact h.keep hg (wrote_nullifiers _) rfl (List.Subset.refl _)
  | contains => exact h.keep hg rfl rfl (List.Subset.refl _)
  | len => exact h.keep hg rfl rfl (List.Subset.refl _)
  | @died t c =>
      cases c with
      | insert n => exact h.keep hg rfl rfl (List.subset_cons_self _ _)
      | contains n => exact h.keep hg rfl rfl (List.Subset.refl _)
      | len => exact h.keep hg rfl rfl (List.Subset.refl _)
  | diedWriting hn hk htorn =>
      exact h.keep hg (wrote_nullifiers _) rfl (List.subset_cons_self _ _)
  | @diedAccepting t n hn =>
      refine ⟨h.grown.trans hg, h.once, h.fresh, fun m hm => (h.spent m hm).grows hg,
        fun m hm => ?_⟩
      rcases Finset.mem_insert.mp hm with rfl | hm
      · exact .inr (.inr List.mem_cons_self)
      · rw [wrote_nullifiers] at hm
        rcases h.sources m hm with hold | hacc | hcut
        · exact .inl hold
        · exact .inr (.inl hacc)
        · exact .inr (.inr (List.mem_cons_of_mem _ hcut))

theorem books_of_linear (h : Linear s₀ ys s) : Books s₀ ys s := by
  induction h with
  | start => exact .start s₀
  | stay before effect ih => exact ih.stay effect

/-- Every section can be completed: what the operating system has yet to do can fail. -/
theorem completes (p : Point) (s : SharedState) : shared.Completes p s := by
  have hleave : ∀ a s, shared.Completes (.leave a) s := fun a s => .of_answer rfl
  have hreport : ∀ s, shared.Completes .report s := fun s =>
    .of_step (e := .ok) rfl (hleave _ s)
  have haccept : ∀ n s, shared.Completes (.accept n) s := fun n s =>
    .of_step (e := .ok) rfl (hleave _ _)
  cases p with
  | check n =>
      by_cases hn : n ∈ s.nullifiers
      · exact .of_step (e := .ok) (if_pos hn) (hleave _ s)
      · cases hfile : s.file with
        | none =>
            refine .of_step (e := .ok) (r := (.accept n, s)) ?_ (haccept n s)
            simp [shared, step, hn, hfile]
        | some path =>
            refine .of_step (e := .ok) (r := (.write path n 0, s)) ?_
              (.of_step (e := .failed) rfl (hreport s))
            simp [shared, step, hn, hfile]
  | write path n k => exact .of_step (e := .failed) rfl (hreport s)
  | flush n => exact .of_step (e := .failed) rfl (hreport s)
  | sync n => exact .of_step (e := .failed) rfl (hreport s)
  | report => exact hreport s
  | accept n => exact haccept n s
  | lookup n => exact .of_step (e := .ok) rfl (hleave _ s)
  | count => exact .of_step (e := .ok) rfl (hleave _ s)
  | leave a => exact hleave a s

variable [DecidableEq τ]

/-- **The shared set over every interleaving.** Any number of threads call `insert`, `contains`
    and `len` on one set, with or without a file; writes fail anywhere, threads die anywhere
    inside the lock. The calls act one after the other in the order in which they left the lock;
    a nullifier is answered `true` at most once, it was not in the set before, and from then on it
    is in the set with its bytes in the file; what else is in the set comes from an insert that
    died; and every call that waits can still be answered. -/
theorem linearizable {ls : List (Label τ SetCall Outcome)} {L : Lock τ SetCall Point Answer}
    (hr : shared.threads.run (Lock.idle, s₀) ls = some (L, s)) :
    (∃ v, Linear s₀ L.stays v ∧ (L.holder = none → s = v) ∧
        ∀ n ∈ v.nullifiers, n ∈ s₀.nullifiers ∨ n ∈ accepted L.stays ∨ n ∈ cut L.stays) ∧
      (accepted L.stays).Nodup ∧ (∀ n ∈ accepted L.stays, n ∉ s₀.nullifiers ∧ Spent s n) ∧
      ∀ t c, (t, c) ∈ L.waiting → ∃ ls' r b, shared.threads.run (L, s) ls' = some r ∧
        ⟨t, c, some b⟩ ∈ r.1.stays := by
  obtain ⟨v, hserial, hsettled⟩ := serial_of_run hr
  have hlinear := linear_of_serial hserial
  have hbooks := books_of_linear hlinear
  have hgrown : Grows v s := by
    cases hH : L.holder with
    | none =>
        have hsame : s = v := (settled_free hH).mp hsettled
        rw [hsame]
        exact .refl v
    | some H => exact grows_callAt (callAt_ran ((settled_held hH).mp hsettled))
  exact ⟨⟨v, hlinear, fun hfree => (settled_free hfree).mp hsettled, hbooks.sources⟩, hbooks.once,
    fun n hn => ⟨hbooks.fresh n hn, (hbooks.spent n hn).grows hgrown⟩,
    fun t c hw => answered_of_run completes hr hw⟩

/-- Three threads: the first to get the lock fails to write and dies over it; of the two that
    then insert one nullifier, the second finds it there. -/
def sampleRace : List (Label Nat SetCall Outcome) :=
  [.call 1 (.insert (leArr 32 7)), .call 2 (.insert (leArr 32 7)), .call 3 (.insert (leArr 32 9)),
    .lock 3, .act .ok, .act (.wrote 5), .act .failed, .die,
    .lock 2, .act .ok, .act (.wrote 20), .act (.wrote 12), .act .ok, .act .ok, .act .ok, .unlock,
    .lock 1, .act .ok, .unlock]

def sampleState : SharedState := ⟨∅, some [.normal (ascii "spent.bin")], fun _ => none⟩

theorem linearizable_race :
    ∃ L s, shared.threads.run (Lock.idle, sampleState) sampleRace = some (L, s) ∧
      L.poisoned = true ∧ accepted L.stays = [leArr 32 7] ∧ Spent s (leArr 32 7) := by
  have hrun : (shared.threads.run (Lock.idle, sampleState) sampleRace).map (fun r =>
      decide (r.1.poisoned = true ∧ accepted r.1.stays = [leArr 32 7])) = some true := by
    decide +kernel
  obtain ⟨⟨L, s⟩, hr, hfacts⟩ := Option.map_eq_some_iff.mp hrun
  obtain ⟨hpoison, hacc⟩ := of_decide_eq_true hfacts
  obtain ⟨_, _, hspent, _⟩ := linearizable hr
  have hone : leArr 32 7 ∈ accepted L.stays := by
    rw [hacc]
    exact List.mem_singleton_self _
  exact ⟨L, s, hr, hpoison, hacc, (hspent _ hone).2⟩

end SharedSet

end Specter
