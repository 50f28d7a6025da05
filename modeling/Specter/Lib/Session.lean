/-
  File:      Specter/Lib/Session.lean
  Subject:   SESSIONS OVER A CHANNEL SOMEBODY ELSE CONTROLS: a program that writes and reads
             messages, and the histories it can have. No program fact.

  A session is the tree of a program's reads and writes: what it does next depends on what it
  read. The environment answers every read as it likes, and may break the channel at any time;
  a session that meets an I/O error ends without a result. A write that fails may have put the
  message on the wire all the same (`Act.cut`).

  * `Session.machine` -- the acts a session takes part in, as a machine; a history is a run of it;
  * `sent`, `received` -- the messages of a history;
  * `exchange` -- both sides send two messages, one of them first; `exchange_run` says what a
    history of an exchange looks like, `Unfinished` how far one got that did not come through.
-/
import Mathlib.Data.List.Basic
import Specter.Lib.Machine

namespace Lib

/-- A program that exchanges messages of type `μ` and ends with a result, or with none. -/
inductive Session (μ α : Type) where
  | done (result : Option α)
  | write (message : μ) (next : Session μ α)
  | read (next : μ → Session μ α)

/-- One act of a session on its channel. -/
inductive Act (μ : Type) where
  | wrote (message : μ)
  /-- The write failed with the message handed over, in part or whole. -/
  | cut (message : μ)
  | got (message : μ)
  /-- An I/O error before anything was handed over or read. -/
  | lost
  deriving DecidableEq

namespace Act

variable {μ : Type}

def sent? : Act μ → Option μ
  | wrote m => some m
  | cut m => some m
  | _ => none

def received? : Act μ → Option μ
  | got m => some m
  | _ => none

end Act

section History

variable {μ : Type} (m : μ) (h : List (Act μ))

/-- The messages a history handed over to the channel. -/
def sent (h : List (Act μ)) : List μ := h.filterMap Act.sent?

/-- The messages a history took from the channel. -/
def received (h : List (Act μ)) : List μ := h.filterMap Act.received?

@[simp] theorem sent_nil : sent ([] : List (Act μ)) = [] := rfl
@[simp] theorem sent_wrote : sent (.wrote m :: h) = m :: sent h := rfl
@[simp] theorem sent_cut : sent (.cut m :: h) = m :: sent h := rfl
@[simp] theorem sent_got : sent (.got m :: h) = sent h := rfl
@[simp] theorem sent_lost : sent (.lost :: h) = sent h := rfl

@[simp] theorem received_nil : received ([] : List (Act μ)) = [] := rfl
@[simp] theorem received_wrote : received (.wrote m :: h) = received h := rfl
@[simp] theorem received_cut : received (.cut m :: h) = received h := rfl
@[simp] theorem received_got : received (.got m :: h) = m :: received h := rfl
@[simp] theorem received_lost : received (.lost :: h) = received h := rfl

@[simp] theorem sent_append (h h' : List (Act μ)) : sent (h ++ h') = sent h ++ sent h' :=
  List.filterMap_append ..

@[simp] theorem received_append (h h' : List (Act μ)) :
    received (h ++ h') = received h ++ received h' := List.filterMap_append ..

end History

/-! ## 1. Sessions and their histories -/

namespace Session

variable {μ α : Type}

/-- The result, of a session that ended with one. -/
def result : Session μ α → Option α
  | done r => r
  | _ => none

section Machine

variable [DecidableEq μ]

/-- What an act leads to; `none` where the session is not at such an act. -/
def step : Session μ α → Act μ → Option (Session μ α)
  | write m next, .wrote m' => if m' = m then some next else none
  | write m _, .cut m' => if m' = m then some (done none) else none
  | read next, .got m => some (next m)
  | write _ _, .lost => some (done none)
  | read _, .lost => some (done none)
  | _, _ => none

def machine : Machine (Session μ α) (Act μ) := ⟨step⟩

/-- The session a history leads to. -/
abbrev run (s : Session μ α) (h : List (Act μ)) : Option (Session μ α) := machine.run s h

theorem run_done {r : Option α} {h : List (Act μ)} {s : Session μ α}
    (hr : run (done r) h = some s) : h = [] ∧ s = done r := by
  cases h with
  | nil => exact ⟨rfl, (Option.some.inj hr).symm⟩
  | cons a h =>
      obtain ⟨_, hstep, _⟩ := machine.run_cons hr
      cases a <;> cases hstep

/-- The histories of a write: none yet, past it, or broken off there. -/
theorem run_write {m : μ} {next : Session μ α} {h : List (Act μ)} {s : Session μ α}
    (hr : run (write m next) h = some s) :
    (h = [] ∧ s = write m next) ∨ (∃ h', h = .wrote m :: h' ∧ run next h' = some s) ∨
      ((h = [.cut m] ∨ h = [.lost]) ∧ s = done none) := by
  cases h with
  | nil => exact .inl ⟨rfl, (Option.some.inj hr).symm⟩
  | cons a h =>
      obtain ⟨t, hstep, hrest⟩ := machine.run_cons hr
      cases a with
      | wrote m' =>
          obtain ⟨rfl, ht⟩ := Option.ite_none_right_eq_some.mp hstep
          cases ht
          exact .inr (.inl ⟨h, rfl, hrest⟩)
      | cut m' =>
          obtain ⟨rfl, ht⟩ := Option.ite_none_right_eq_some.mp hstep
          cases ht
          obtain ⟨rfl, rfl⟩ := run_done hrest
          exact .inr (.inr ⟨.inl rfl, rfl⟩)
      | got m' => cases hstep
      | lost =>
          cases hstep
          obtain ⟨rfl, rfl⟩ := run_done hrest
          exact .inr (.inr ⟨.inr rfl, rfl⟩)

/-- The histories of a read: none yet, past it, or broken off there. -/
theorem run_read {next : μ → Session μ α} {h : List (Act μ)} {s : Session μ α}
    (hr : run (read next) h = some s) :
    (h = [] ∧ s = read next) ∨ (∃ m h', h = .got m :: h' ∧ run (next m) h' = some s) ∨
      (h = [.lost] ∧ s = done none) := by
  cases h with
  | nil => exact .inl ⟨rfl, (Option.some.inj hr).symm⟩
  | cons a h =>
      obtain ⟨t, hstep, hrest⟩ := machine.run_cons hr
      cases a with
      | wrote m' => cases hstep
      | cut m' => cases hstep
      | got m =>
          cases hstep
          exact .inr (.inl ⟨m, h, rfl, hrest⟩)
      | lost =>
          cases hstep
          obtain ⟨rfl, rfl⟩ := run_done hrest
          exact .inr (.inr ⟨rfl, rfl⟩)

end Machine

/-! ## 2. An exchange of two messages each -/

def writePair (mine : μ × μ) (next : Session μ α) : Session μ α :=
  write mine.1 (write mine.2 next)

def readPair (next : μ × μ → Session μ α) : Session μ α := read fun a => read fun b => next (a, b)

/-- Both sides send two messages; this one writes `first`, or answers. -/
def exchange (first : Bool) (mine : μ × μ) (next : μ × μ → Session μ α) : Session μ α :=
  if first then writePair mine (readPair next)
  else readPair fun theirs => writePair mine (next theirs)

/-- The history of an exchange that came through. -/
def exchanged (first : Bool) (mine theirs : μ × μ) : List (Act μ) :=
  if first then [.wrote mine.1, .wrote mine.2, .got theirs.1, .got theirs.2]
  else [.got theirs.1, .got theirs.2, .wrote mine.1, .wrote mine.2]

@[simp] theorem sent_exchanged (first : Bool) (mine theirs : μ × μ) :
    sent (exchanged first mine theirs) = [mine.1, mine.2] := by cases first <;> rfl

@[simp] theorem received_exchanged (first : Bool) (mine theirs : μ × μ) :
    received (exchanged first mine theirs) = [theirs.1, theirs.2] := by cases first <;> rfl

/-- How far an exchange got that has not come through: no result, and the side that answers has
    sent nothing before it read both messages. -/
structure Unfinished (first : Bool) (mine : μ × μ) (h : List (Act μ)) (s : Session μ α) :
    Prop where
  result : s.result = none
  sent_prefix : sent h <+: [mine.1, mine.2]
  answers : first = false → sent h ≠ [] → (received h).length = 2

variable [DecidableEq μ]

theorem writePair_run {mine : μ × μ} {next : Session μ α} {h : List (Act μ)} {s : Session μ α}
    (hr : run (writePair mine next) h = some s) :
    (s.result = none ∧ sent h <+: [mine.1, mine.2] ∧ received h = []) ∨
      ∃ h', h = .wrote mine.1 :: .wrote mine.2 :: h' ∧ run next h' = some s := by
  rcases run_write hr with ⟨rfl, rfl⟩ | ⟨h1, rfl, hr1⟩ | ⟨rfl | rfl, rfl⟩
  · exact .inl ⟨rfl, by simp, rfl⟩
  · rcases run_write hr1 with ⟨rfl, rfl⟩ | ⟨h2, rfl, hr2⟩ | ⟨rfl | rfl, rfl⟩
    · exact .inl ⟨rfl, by simp, rfl⟩
    · exact .inr ⟨h2, rfl, hr2⟩
    all_goals exact .inl ⟨rfl, by simp, rfl⟩
  all_goals exact .inl ⟨rfl, by simp, rfl⟩

theorem readPair_run {next : μ × μ → Session μ α} {h : List (Act μ)} {s : Session μ α}
    (hr : run (readPair next) h = some s) :
    (s.result = none ∧ sent h = []) ∨
      ∃ theirs h', h = .got theirs.1 :: .got theirs.2 :: h' ∧ run (next theirs) h' = some s := by
  rcases run_read hr with ⟨rfl, rfl⟩ | ⟨c, h1, rfl, hr1⟩ | ⟨rfl, rfl⟩
  · exact .inl ⟨rfl, rfl⟩
  · rcases run_read hr1 with ⟨rfl, rfl⟩ | ⟨d, h2, rfl, hr2⟩ | ⟨rfl, rfl⟩
    · exact .inl ⟨rfl, rfl⟩
    · exact .inr ⟨(c, d), h2, rfl, hr2⟩
    · exact .inl ⟨rfl, rfl⟩
  · exact .inl ⟨rfl, rfl⟩

/-- **The histories of an exchange**: it has not come through, or both sides' messages stand at
    the front. -/
theorem exchange_run {first : Bool} {mine : μ × μ} {next : μ × μ → Session μ α}
    {h : List (Act μ)} {s : Session μ α} (hr : run (exchange first mine next) h = some s) :
    Unfinished first mine h s ∨
      ∃ theirs h', h = exchanged first mine theirs ++ h' ∧ run (next theirs) h' = some s := by
  unfold exchange at hr
  cases first with
  | true =>
      rw [if_pos rfl] at hr
      rcases writePair_run hr with ⟨hnone, hsent, _⟩ | ⟨h1, rfl, hr1⟩
      · exact .inl ⟨hnone, hsent, nofun⟩
      rcases readPair_run hr1 with ⟨hnone, hsent⟩ | ⟨theirs, h2, rfl, hr2⟩
      · exact .inl ⟨hnone, by simp [hsent], nofun⟩
      · exact .inr ⟨theirs, h2, rfl, hr2⟩
  | false =>
      rw [if_neg Bool.false_ne_true] at hr
      rcases readPair_run hr with ⟨hnone, hsent⟩ | ⟨theirs, h1, rfl, hr1⟩
      · exact .inl ⟨hnone, by simp [hsent], fun _ hne => absurd hsent hne⟩
      rcases writePair_run hr1 with ⟨hnone, hsent, hgot⟩ | ⟨h2, rfl, hr2⟩
      · exact .inl ⟨hnone, by simpa using hsent, fun _ _ => by simp [hgot]⟩
      · exact .inr ⟨theirs, h2, rfl, hr2⟩

/-- With both sides' messages passed on, an exchange comes through. -/
theorem run_exchanged (first : Bool) (mine theirs : μ × μ) (next : μ × μ → Session μ α)
    (h : List (Act μ)) :
    run (exchange first mine next) (exchanged first mine theirs ++ h) = run (next theirs) h := by
  cases first <;> simp [exchange, exchanged, writePair, readPair, run, Machine.run, machine, step]

end Session

end Lib
