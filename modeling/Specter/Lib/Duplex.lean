/-
  File:      Specter/Lib/Duplex.lean
  Subject:   TWO PROGRAMS AT THE ENDS OF A BYTE STREAM: each writes bytes and reads as many as it
             says, the bytes travel in pieces of any size, and any read or write may fail. No
             program fact.

  A turn lets one side put one byte on the wire, or take all the bytes it waits for off it; or it
  ends a side without a result, as an error, a time-out or a closed stream does, with what it has
  written so far on the wire. While nothing fails, what one side does never depends on when the
  other acts, so the order of the turns does not matter.

  * `Diamond`, `completes` -- a machine whose steps commute: if one run ends, every run can be
    continued to the same end, after as many steps;
  * `Stream`, `duplex` -- programs and the wire between them; `smooth`, the turns without a
    failure; `smooth_diamond`;
  * `Passes.pass_right`, `pass_left` -- how to run a pair of programs;
  * `failedFrom_run` -- a run with failures is one without, but for the sides that have failed;
  * `all_orders_end` -- where one order of turns ends both sides, every order does, and with
    failures a side has that result or none;
  * `answers_of_run` -- what a side returns, it returns over the bytes it has read;
  * `read_le` -- and these are no more than the other side can write.
-/
import Specter.Lib.Bytes
import Specter.Lib.Machine
import Specter.Lib.Session

namespace Lib

/-! ## 1. Steps that commute -/

section Diamond

variable {σ α : Type} {M : Machine σ α}

/-- Two steps from one state lead to the same state, or can be made up for. -/
def Machine.Diamond (M : Machine σ α) : Prop :=
  ∀ s a b s₁ s₂, M.step s a = some s₁ → M.step s b = some s₂ →
    s₁ = s₂ ∨ ∃ t, M.step s₁ b = some t ∧ M.step s₂ a = some t

/-- **If one run ends where nothing can be done, every run can be continued to there**, and all
    take the same number of steps. -/
theorem Machine.Diamond.completes (hd : M.Diamond) {t : σ} (hend : ∀ a, M.step t a = none) :
    ∀ {n : Nat} {as : List α} {s : σ}, as.length = n → M.run s as = some t →
      ∀ {bs : List α} {u : σ}, M.run s bs = some u →
        ∃ cs, M.run u cs = some t ∧ bs.length + cs.length = n := by
  intro n
  induction n with
  | zero =>
      intro as s has hr bs u hu
      rw [List.length_eq_zero_iff.mp has] at hr
      cases hr
      cases bs with
      | nil =>
          cases hu
          exact ⟨[], rfl, rfl⟩
      | cons b bs =>
          obtain ⟨_, hstep, _⟩ := M.run_cons hu
          cases (hend b).symm.trans hstep
  | succ n ih =>
      intro as s has hr bs u hu
      cases as with
      | nil => cases has
      | cons a as =>
          have has' : as.length = n := Nat.succ.inj has
          cases bs with
          | nil =>
              cases hu
              exact ⟨a :: as, hr, by rw [List.length_nil, Nat.zero_add, has]⟩
          | cons b bs =>
              obtain ⟨s₁, ha, hr₁⟩ := M.run_cons hr
              obtain ⟨s₂, hb, hu₂⟩ := M.run_cons hu
              have hback : ∃ cs, cs.length = n ∧ M.run s₂ cs = some t := by
                rcases hd s a b s₁ s₂ ha hb with rfl | ⟨v, hv₁, hv₂⟩
                · exact ⟨as, has', hr₁⟩
                · -- `b` is a step of the ending run's rest, so `a` and what is left end it too
                  have hone : M.run s₁ [b] = some v := by
                    rw [Machine.run, hv₁]
                    rfl
                  obtain ⟨cs, hcs, hlen⟩ := ih has' hr₁ hone
                  refine ⟨a :: cs, ?_, ?_⟩
                  · rw [List.length_cons, ← hlen, List.length_singleton, Nat.add_comm]
                  · rw [Machine.run, hv₂]
                    exact hcs
              obtain ⟨cs, hlen, hcs⟩ := hback
              obtain ⟨ds, hds, hsum⟩ := ih hlen hcs hu₂
              exact ⟨ds, hds, by rw [List.length_cons]; omega⟩

end Diamond

/-! ## 2. The programs and the wire -/

/-- A program that writes and reads bytes, and ends with a result or with none. -/
inductive Stream (α : Type) where
  | done (result : Option α)
  /-- `write_all`. -/
  | write (bytes : Bytes) (next : Stream α)
  /-- `read_exact` into `n` bytes. -/
  | read (n : Nat) (next : Bytes → Stream α)

namespace Stream

def writeArr {α : Type} {n : Nat} (a : ByteArr n) (next : Stream α) : Stream α :=
  .write a.toList next

def readArr {α : Type} {n : Nat} (next : ByteArr n → Stream α) : Stream α :=
  .read n fun bytes => next (takeArr n bytes)

end Stream

/-- A session whose messages are arrays of one length, on a byte stream. -/
def Session.toStream {α : Type} {n : Nat} : Session (ByteArr n) α → Stream α
  | .done result => .done result
  | .write message next => .writeArr message next.toStream
  | .read next => .readArr fun message => (next message).toStream

/-- One step of a program: what is left of it, what it put on the wire, and what it took of the
    bytes that have come in. -/
def Stream.step {α : Type} (s : Stream α) (inbox : Bytes) : Option (Stream α × Bytes × Bytes) :=
  match s with
  | .done _ => none
  | .write [] next => some (next, [], [])
  | .write (b :: bs) next => some (.write bs next, [b], [])
  | .read n next => if n ≤ inbox.length then some (next (inbox.take n), [], inbox.take n) else none

/-- A read or write that fails: the program ends there, without a result. -/
def Stream.fail {α : Type} : Stream α → Option (Stream α)
  | .done _ => none
  | _ => some (.done none)

theorem Stream.fail_eq {α : Type} {s s' : Stream α} (h : s.fail = some s') : s' = .done none := by
  cases s <;> cases h <;> rfl

theorem takeArr_toList {k : Nat} (a : ByteArr k) : takeArr k a.toList = a := by
  have h := takeArr_append a []
  rwa [List.append_nil] at h

/-- An array that stands in front of what has come in is read. -/
theorem Stream.step_readArr {α : Type} {n : Nat} {cont : ByteArr n → Stream α} (a : ByteArr n)
    (rest : Bytes) :
    (Stream.readArr cont).step (a.toList ++ rest) = some (cont a, [], a.toList) := by
  have hle : n ≤ (a.toList ++ rest).length := by
    rw [List.length_append, a.toList_length]
    omega
  show (if n ≤ (a.toList ++ rest).length then _ else none) = _
  rw [if_pos hle, List.take_left' a.toList_length]
  dsimp only
  rw [takeArr_toList]

theorem Stream.took_le {α : Type} {s s' : Stream α} {inbox out took : Bytes}
    (h : s.step inbox = some (s', out, took)) : took.length ≤ inbox.length := by
  cases s with
  | done r => cases h
  | write bytes next => cases bytes <;> cases h <;> exact Nat.zero_le _
  | read n next =>
      obtain ⟨hn, he⟩ := Option.ite_none_right_eq_some.mp h
      cases he
      exact List.length_take_le' n inbox

/-- What comes in later does not change a step. -/
theorem Stream.step_append {α : Type} {s s' : Stream α} {inbox out took : Bytes}
    (h : s.step inbox = some (s', out, took)) (more : Bytes) :
    s.step (inbox ++ more) = some (s', out, took) ∧
      (inbox ++ more).drop took.length = inbox.drop took.length ++ more := by
  cases s with
  | done r => cases h
  | write bytes next =>
      cases bytes with
      | nil => cases h; exact ⟨rfl, rfl⟩
      | cons b bs => cases h; exact ⟨rfl, rfl⟩
  | read n next =>
      obtain ⟨hn, he⟩ := Option.ite_none_right_eq_some.mp h
      cases he
      have hle : n ≤ (inbox ++ more).length := by
        rw [List.length_append]
        omega
      refine ⟨?_, ?_⟩
      · show (if n ≤ (inbox ++ more).length then _ else none) = _
        rw [if_pos hle, List.take_append_of_le_length hn]
      · rw [List.length_take_of_le hn, List.drop_append_of_le_length hn]

inductive Side where
  | left
  | right
  deriving DecidableEq

/-- Two programs, the bytes on their way to each of them, and the bytes each has read. -/
structure Pair (α : Type) where
  left : Stream α
  right : Stream α
  toLeft : Bytes
  toRight : Bytes
  readLeft : Bytes
  readRight : Bytes

namespace Pair

variable {α : Type}

def start (left right : Stream α) : Pair α := ⟨left, right, [], [], [], []⟩

def act (d : Pair α) : Side → Option (Pair α)
  | .left => (d.left.step d.toLeft).map fun r =>
      { d with
        left := r.1
        toLeft := d.toLeft.drop r.2.2.length
        toRight := d.toRight ++ r.2.1
        readLeft := d.readLeft ++ r.2.2 }
  | .right => (d.right.step d.toRight).map fun r =>
      { d with
        right := r.1
        toLeft := d.toLeft ++ r.2.1
        toRight := d.toRight.drop r.2.2.length
        readRight := d.readRight ++ r.2.2 }

def fail (d : Pair α) : Side → Option (Pair α)
  | .left => d.left.fail.map fun s => { d with left := s }
  | .right => d.right.fail.map fun s => { d with right := s }

end Pair

inductive Turn where
  | acts (s : Side)
  | fails (s : Side)

def duplex (α : Type) : Machine (Pair α) Turn where
  step d
    | .acts s => d.act s
    | .fails s => d.fail s

/-- The turns in which nothing fails. -/
def smooth (α : Type) : Machine (Pair α) Side := ⟨Pair.act⟩

variable {α : Type} {d d' : Pair α}

theorem smooth_run : ∀ (as : List Side) (d : Pair α),
    (duplex α).run d (as.map .acts) = (smooth α).run d as
  | [], _ => rfl
  | a :: as, d => by
      have hstep : (duplex α).step d (.acts a) = (smooth α).step d a := rfl
      rw [List.map_cons, Machine.run, Machine.run, hstep]
      cases (smooth α).step d a with
      | none => rfl
      | some d₁ => exact smooth_run as d₁

/-- The two sides' steps commute. -/
theorem smooth_commutes {d₁ d₂ : Pair α} (h₁ : (smooth α).step d .left = some d₁)
    (h₂ : (smooth α).step d .right = some d₂) :
    ∃ t, (smooth α).step d₁ .right = some t ∧ (smooth α).step d₂ .left = some t := by
  obtain ⟨⟨s₁, out₁, took₁⟩, hs₁, rfl⟩ := Option.map_eq_some_iff.mp h₁
  obtain ⟨⟨s₂, out₂, took₂⟩, hs₂, rfl⟩ := Option.map_eq_some_iff.mp h₂
  obtain ⟨hstep₁, hdrop₁⟩ := Stream.step_append hs₁ out₂
  obtain ⟨hstep₂, hdrop₂⟩ := Stream.step_append hs₂ out₁
  refine ⟨⟨s₁, s₂, d.toLeft.drop took₁.length ++ out₂, d.toRight.drop took₂.length ++ out₁,
    d.readLeft ++ took₁, d.readRight ++ took₂⟩, ?_, ?_⟩
  · show (d.right.step (d.toRight ++ out₁)).map _ = _
    rw [hstep₂, Option.map_some, hdrop₂]
  · show (d.left.step (d.toLeft ++ out₂)).map _ = _
    rw [hstep₁, Option.map_some, hdrop₁]

theorem smooth_diamond : (smooth α).Diamond := by
  intro d a b d₁ d₂ h₁ h₂
  cases a with
  | left =>
      cases b with
      | left => exact .inl (Option.some.inj (h₁.symm.trans h₂))
      | right => exact .inr (smooth_commutes h₁ h₂)
  | right =>
      cases b with
      | left =>
          obtain ⟨t, ht₂, ht₁⟩ := smooth_commutes h₂ h₁
          exact .inr ⟨t, ht₁, ht₂⟩
      | right => exact .inl (Option.some.inj (h₁.symm.trans h₂))

/-! ## 3. Running a pair -/

def Reaches (d d' : Pair α) : Prop := ∃ as, (smooth α).run d as = some d'

namespace Reaches

theorem refl (d : Pair α) : Reaches d d := ⟨[], rfl⟩

theorem trans {d₁ d₂ d₃ : Pair α} (h : Reaches d₁ d₂) (h' : Reaches d₂ d₃) : Reaches d₁ d₃ := by
  obtain ⟨as, ha⟩ := h
  obtain ⟨bs, hb⟩ := h'
  exact ⟨as ++ bs, (smooth α).run_append ha hb⟩

theorem head {d e f : Pair α} {a : Side} (h : d.act a = some e) (h' : Reaches e f) :
    Reaches d f := by
  obtain ⟨as, ha⟩ := h'
  refine ⟨a :: as, ?_⟩
  have hstep : (smooth α).step d a = some e := h
  rw [Machine.run, hstep]
  exact ha

variable {l r s next : Stream α} {toLeft toRight readLeft readRight out took : Bytes}

theorem act_left (h : l.step toLeft = some (s, out, took)) :
    Reaches ⟨l, r, toLeft, toRight, readLeft, readRight⟩
      ⟨s, r, toLeft.drop took.length, toRight ++ out, readLeft ++ took, readRight⟩ := by
  refine head (a := .left) ?_ (refl _)
  show (l.step toLeft).map _ = _
  rw [h]
  rfl

theorem act_right (h : r.step toRight = some (s, out, took)) :
    Reaches ⟨l, r, toLeft, toRight, readLeft, readRight⟩
      ⟨l, s, toLeft ++ out, toRight.drop took.length, readLeft, readRight ++ took⟩ := by
  refine head (a := .right) ?_ (refl _)
  show (r.step toRight).map _ = _
  rw [h]
  rfl

/-- The left side writes, byte by byte. -/
theorem write_left : ∀ bytes toRight : Bytes,
    Reaches ⟨.write bytes next, r, toLeft, toRight, readLeft, readRight⟩
      ⟨next, r, toLeft, toRight ++ bytes, readLeft, readRight⟩
  | [], toRight => by
      have hstep : Reaches ⟨.write [] next, r, toLeft, toRight, readLeft, readRight⟩ _ :=
        act_left rfl
      rwa [List.append_nil readLeft] at hstep
  | b :: bs, toRight => by
      have hstep : Reaches ⟨.write (b :: bs) next, r, toLeft, toRight, readLeft, readRight⟩ _ :=
        act_left rfl
      have hrest := write_left bs (toRight ++ [b])
      rw [List.append_assoc, List.singleton_append] at hrest
      rw [List.append_nil readLeft] at hstep
      exact hstep.trans hrest

theorem write_right : ∀ bytes toLeft : Bytes,
    Reaches ⟨l, .write bytes next, toLeft, toRight, readLeft, readRight⟩
      ⟨l, next, toLeft ++ bytes, toRight, readLeft, readRight⟩
  | [], toLeft => by
      have hstep : Reaches ⟨l, .write [] next, toLeft, toRight, readLeft, readRight⟩ _ :=
        act_right rfl
      rwa [List.append_nil readRight] at hstep
  | b :: bs, toLeft => by
      have hstep : Reaches ⟨l, .write (b :: bs) next, toLeft, toRight, readLeft, readRight⟩ _ :=
        act_right rfl
      have hrest := write_right bs (toLeft ++ [b])
      rw [List.append_assoc, List.singleton_append] at hrest
      rw [List.append_nil readRight] at hstep
      exact hstep.trans hrest

/-- The left side reads an array that stands in front of what has come in. -/
theorem read_left {n : Nat} (a : ByteArr n) (rest : Bytes) {cont : ByteArr n → Stream α} :
    Reaches ⟨.readArr cont, r, a.toList ++ rest, toRight, readLeft, readRight⟩
      ⟨cont a, r, rest, toRight, readLeft ++ a.toList, readRight⟩ := by
  have hstep : Reaches ⟨.readArr cont, r, a.toList ++ rest, toRight, readLeft, readRight⟩ _ :=
    act_left (Stream.step_readArr a rest)
  rwa [List.append_nil, List.drop_left] at hstep

theorem read_right {n : Nat} (a : ByteArr n) (rest : Bytes) {cont : ByteArr n → Stream α} :
    Reaches ⟨l, .readArr cont, toLeft, a.toList ++ rest, readLeft, readRight⟩
      ⟨l, cont a, toLeft, rest, readLeft, readRight ++ a.toList⟩ := by
  have hstep : Reaches ⟨l, .readArr cont, toLeft, a.toList ++ rest, readLeft, readRight⟩ _ :=
    act_right (Stream.step_readArr a rest)
  rwa [List.append_nil, List.drop_left] at hstep

end Reaches

/-- With nothing on the wire, one pair of programs can go on as another, with nothing on the
    wire. -/
def Passes (l r l' r' : Stream α) : Prop :=
  ∀ readLeft readRight, ∃ readLeft' readRight',
    Reaches ⟨l, r, [], [], readLeft, readRight⟩ ⟨l', r', [], [], readLeft', readRight'⟩

namespace Passes

variable {l r l' r' l₁ r₁ : Stream α}

theorem refl (l r : Stream α) : Passes l r l r := fun readLeft readRight =>
  ⟨readLeft, readRight, .refl _⟩

theorem trans (h : Passes l r l₁ r₁) (h' : Passes l₁ r₁ l' r') : Passes l r l' r' := by
  intro readLeft readRight
  obtain ⟨readLeft₁, readRight₁, h⟩ := h readLeft readRight
  obtain ⟨readLeft', readRight', h'⟩ := h' readLeft₁ readRight₁
  exact ⟨readLeft', readRight', h.trans h'⟩

/-- **What the left side writes is what the right side reads.** -/
theorem pass_right {n : Nat} (a : ByteArr n) {cont : ByteArr n → Stream α} :
    Passes (.writeArr a l) (.readArr cont) l (cont a) := by
  intro readLeft readRight
  have hread : Reaches ⟨l, .readArr cont, [], a.toList ++ [], readLeft, readRight⟩
      ⟨l, cont a, [], [], readLeft, readRight ++ a.toList⟩ := .read_right a []
  rw [List.append_nil] at hread
  exact ⟨_, _, (Reaches.write_left a.toList []).trans hread⟩

theorem pass_left {n : Nat} (a : ByteArr n) {cont : ByteArr n → Stream α} :
    Passes (.readArr cont) (.writeArr a r) (cont a) r := by
  intro readLeft readRight
  have hread : Reaches ⟨.readArr cont, r, a.toList ++ [], [], readLeft, readRight⟩
      ⟨cont a, r, [], [], readLeft ++ a.toList, readRight⟩ := .read_left a []
  rw [List.append_nil] at hread
  exact ⟨_, _, (Reaches.write_right a.toList []).trans hread⟩

end Passes

/-! ## 4. Runs with failures -/

/-- `d` is `e`, but for sides that have failed on the way. -/
def FailedFrom (e d : Pair α) : Prop :=
  ∃ l r, d = { e with left := l, right := r } ∧ (l = e.left ∨ l = .done none) ∧
    (r = e.right ∨ r = .done none)

theorem failedFrom_step {e d d' : Pair α} {t : Turn} (h : FailedFrom e d)
    (hs : (duplex α).step d t = some d') :
    ∃ e', Reaches e e' ∧ FailedFrom e' d' := by
  obtain ⟨l, r, rfl, hl, hr⟩ := h
  cases t with
  | acts s =>
      cases s with
      | left =>
          obtain ⟨⟨s, out, took⟩, hstep, rfl⟩ := Option.map_eq_some_iff.mp hs
          rcases hl with rfl | rfl
          · exact ⟨_, .act_left hstep, s, r, rfl, .inl rfl, hr⟩
          · cases hstep
      | right =>
          obtain ⟨⟨s, out, took⟩, hstep, rfl⟩ := Option.map_eq_some_iff.mp hs
          rcases hr with rfl | rfl
          · exact ⟨_, .act_right hstep, l, s, rfl, hl, .inl rfl⟩
          · cases hstep
  | fails s =>
      cases s with
      | left =>
          obtain ⟨s, hfail, rfl⟩ := Option.map_eq_some_iff.mp hs
          exact ⟨e, .refl e, s, r, rfl, .inr (Stream.fail_eq hfail), hr⟩
      | right =>
          obtain ⟨s, hfail, rfl⟩ := Option.map_eq_some_iff.mp hs
          exact ⟨e, .refl e, l, s, rfl, hl, .inr (Stream.fail_eq hfail)⟩

/-- **A run with failures is one without**, but for the sides that have failed. -/
theorem failedFrom_run {ts : List Turn} (h : (duplex α).run d ts = some d') :
    ∃ e, Reaches d e ∧ FailedFrom e d' := by
  refine (duplex α).run_invariant (I := fun x => ∃ e, Reaches d e ∧ FailedFrom e x)
    (fun x t x' hx hs => ?_) ts d d' ⟨d, .refl d, d.left, d.right, rfl, .inl rfl, .inl rfl⟩ h
  obtain ⟨e, he, hfrom⟩ := hx
  obtain ⟨e', hmore, hfrom'⟩ := failedFrom_step hfrom hs
  exact ⟨e', he.trans hmore, hfrom'⟩

theorem Reaches.done_left {e e' : Pair α} {a : Option α} (h : Reaches e e')
    (hdone : e.left = .done a) : e'.left = .done a := by
  obtain ⟨as, hrun⟩ := h
  refine (smooth α).run_invariant (I := fun x => x.left = .done a) (fun x s x' hx hs => ?_)
    as e e' hdone hrun
  cases s with
  | left =>
      obtain ⟨_, hstep, _⟩ := Option.map_eq_some_iff.mp hs
      rw [hx] at hstep
      cases hstep
  | right =>
      obtain ⟨_, _, rfl⟩ := Option.map_eq_some_iff.mp hs
      exact hx

theorem Reaches.done_right {e e' : Pair α} {b : Option α} (h : Reaches e e')
    (hdone : e.right = .done b) : e'.right = .done b := by
  obtain ⟨as, hrun⟩ := h
  refine (smooth α).run_invariant (I := fun x => x.right = .done b) (fun x s x' hx hs => ?_)
    as e e' hdone hrun
  cases s with
  | left =>
      obtain ⟨_, _, rfl⟩ := Option.map_eq_some_iff.mp hs
      exact hx
  | right =>
      obtain ⟨_, hstep, _⟩ := Option.map_eq_some_iff.mp hs
      rw [hx] at hstep
      cases hstep

/-- **Where one order of turns brings both programs to an end, every order does**: while nothing
    fails, any run so far can be continued, only to that end, and no run is longer; and with
    failures a side that has ended has its result of that end, or none. -/
theorem all_orders_end {last : Pair α} {a b : Option α} (h : Reaches d last)
    (hleft : last.left = .done a) (hright : last.right = .done b) :
    (∃ n, ∀ (as : List Side) d', (duplex α).run d (as.map .acts) = some d' →
      ∃ bs : List Side, (duplex α).run d' (bs.map .acts) = some last ∧ as.length + bs.length = n) ∧
    ∀ ts d', (duplex α).run d ts = some d' →
      (∀ r, d'.left = .done r → r = a ∨ r = none) ∧
      ∀ r, d'.right = .done r → r = b ∨ r = none := by
  obtain ⟨as, ha⟩ := h
  have hend : ∀ s, (smooth α).step last s = none := by
    obtain ⟨l, r, toLeft, toRight, readLeft, readRight⟩ := last
    cases hleft
    cases hright
    intro s
    cases s <;> rfl
  have hback : ∀ {e : Pair α}, Reaches d e → Reaches e last := by
    intro e hx
    obtain ⟨bs, hb⟩ := hx
    obtain ⟨cs, hc, _⟩ := smooth_diamond.completes hend rfl ha hb
    exact ⟨cs, hc⟩
  refine ⟨⟨as.length, fun bs d' hb => ?_⟩, fun ts d' ht => ?_⟩
  · rw [smooth_run] at hb
    obtain ⟨cs, hc, hlen⟩ := smooth_diamond.completes hend rfl ha hb
    exact ⟨cs, by rw [smooth_run, hc], hlen⟩
  · obtain ⟨e, he, l, r, rfl, hl, hr⟩ := failedFrom_run ht
    constructor
    · rintro x rfl
      rcases hl with hl | hl
      · have hlast := (hback he).done_left hl.symm
        rw [hleft] at hlast
        cases hlast
        exact .inl rfl
      · cases hl
        exact .inr rfl
    · rintro x rfl
      rcases hr with hr | hr
      · have hlast := (hback he).done_right hr.symm
        rw [hright] at hlast
        cases hlast
        exact .inl rfl
      · cases hr
        exact .inr rfl

/-! ## 5. What a side returns -/

/-- The program reads these bytes and no more, and returns the result. -/
inductive Stream.Answers : Stream α → Bytes → α → Prop where
  | done (result : α) : Answers (.done (some result)) [] result
  | write {bytes next input result} (h : Answers next input result) :
      Answers (.write bytes next) input result
  | read {n next bytes input result} (hn : bytes.length = n)
      (h : Answers (next bytes) input result) : Answers (.read n next) (bytes ++ input) result

theorem Stream.Answers.of_done {input : Bytes} {ended : Option α} {result : α}
    (h : (Stream.done ended).Answers input result) : input = [] ∧ ended = some result := by
  cases h
  exact ⟨rfl, rfl⟩

theorem Stream.Answers.of_writeArr {n : Nat} {a : ByteArr n} {next : Stream α} {input : Bytes}
    {result : α} (h : (Stream.writeArr a next).Answers input result) :
    next.Answers input result := by
  cases h with
  | write h => exact h

/-- A program that reads an array has it in front of what it reads. -/
theorem Stream.Answers.of_readArr {n : Nat} {cont : ByteArr n → Stream α} {input : Bytes}
    {result : α} (h : (Stream.readArr cont).Answers input result) :
    ∃ a rest, input = a.toList ++ rest ∧ (cont a).Answers rest result := by
  cases h with
  | @read _ _ bytes rest _ hn h =>
      refine ⟨takeArr n bytes, rest, ?_, h⟩
      rw [toList_takeArr (by omega), List.take_of_length_le (by omega)]

/-- **A side's result is an answer to the bytes it has read**, whatever program sent them and
    whatever fails. -/
theorem answers_of_run {ts : List Turn} {result : α} (hrun : (duplex α).run d ts = some d')
    (hleft : d'.left = .done (some result)) :
    ∃ input, d'.readLeft = d.readLeft ++ input ∧ d.left.Answers input result := by
  induction ts generalizing d with
  | nil =>
      cases hrun
      refine ⟨[], (List.append_nil _).symm, ?_⟩
      rw [hleft]
      exact .done result
  | cons t ts ih =>
      obtain ⟨d₁, hstep, hrest⟩ := (duplex α).run_cons hrun
      obtain ⟨input, hread, hans⟩ := ih hrest
      cases t with
      | fails s =>
          cases s with
          | left =>
              obtain ⟨s, hfail, rfl⟩ := Option.map_eq_some_iff.mp hstep
              have hfailed : s = .done none := Stream.fail_eq hfail
              cases (hfailed ▸ hans : (Stream.done none).Answers input result)
          | right =>
              obtain ⟨_, _, rfl⟩ := Option.map_eq_some_iff.mp hstep
              exact ⟨input, hread, hans⟩
      | acts s =>
          cases s with
          | right =>
              obtain ⟨_, _, rfl⟩ := Option.map_eq_some_iff.mp hstep
              exact ⟨input, hread, hans⟩
          | left =>
              obtain ⟨⟨s, out, took⟩, hs, rfl⟩ := Option.map_eq_some_iff.mp hstep
              dsimp only at hread hans
              refine ⟨took ++ input, by rw [hread, List.append_assoc], ?_⟩
              cases hl : d.left with
              | done r => rw [hl] at hs; cases hs
              | write bytes next =>
                  rw [hl] at hs
                  cases bytes with
                  | nil => cases hs; exact .write hans
                  | cons b bs =>
                      cases hs
                      cases hans with
                      | write hans => exact .write hans
              | read n next =>
                  rw [hl] at hs
                  obtain ⟨hn, he⟩ := Option.ite_none_right_eq_some.mp hs
                  cases he
                  exact .read (List.length_take_of_le hn) hans

/-- The program writes at most `n` more bytes. -/
def Stream.Writes : Nat → Stream α → Prop
  | _, .done _ => True
  | n, .write bytes next => bytes.length ≤ n ∧ next.Writes (n - bytes.length)
  | n, .read _ next => ∀ bytes, (next bytes).Writes n

theorem Stream.writes_writeArr {n k : Nat} (a : ByteArr n) {next : Stream α}
    (h : next.Writes k) : (Stream.writeArr a next).Writes (n + k) := by
  have hlen : a.toList.length = n := a.toList_length
  refine ⟨by omega, ?_⟩
  rw [hlen, Nat.add_sub_cancel_left]
  exact h

theorem Stream.writes_step {s s' : Stream α} {inbox out took : Bytes} {n : Nat}
    (h : s.step inbox = some (s', out, took)) (hs : s.Writes n) :
    out.length ≤ n ∧ s'.Writes (n - out.length) := by
  cases s with
  | done r => cases h
  | write bytes next =>
      cases bytes with
      | nil => cases h; exact ⟨Nat.zero_le _, hs.2⟩
      | cons b bs =>
          cases h
          obtain ⟨hle, hnext⟩ := hs
          rw [List.length_cons] at hle hnext
          refine ⟨?_, ?_⟩
          · rw [List.length_singleton]
            omega
          · show bs.length ≤ n - 1 ∧ next.Writes (n - 1 - bs.length)
            rw [Nat.sub_sub, Nat.add_comm 1]
            exact ⟨by omega, hnext⟩
  | read m next =>
      obtain ⟨hm, he⟩ := Option.ite_none_right_eq_some.mp h
      cases he
      exact ⟨Nat.zero_le _, hs _⟩

/-- **A side reads no more than the other can write**, in any order of turns. -/
theorem read_le {ts : List Turn} {can : Nat} (hcan : d.right.Writes can)
    (hrun : (duplex α).run d ts = some d') :
    d'.readLeft.length + d'.toLeft.length ≤ d.readLeft.length + d.toLeft.length + can := by
  induction ts generalizing d can with
  | nil =>
      cases hrun
      omega
  | cons t ts ih =>
      obtain ⟨d₁, hstep, hrest⟩ := (duplex α).run_cons hrun
      cases t with
      | fails s =>
          cases s with
          | left =>
              obtain ⟨s, _, rfl⟩ := Option.map_eq_some_iff.mp hstep
              exact ih (d := { d with left := s }) hcan hrest
          | right =>
              obtain ⟨s, hfail, rfl⟩ := Option.map_eq_some_iff.mp hstep
              have hfailed : s.Writes can := by
                rw [Stream.fail_eq hfail]
                trivial
              exact ih (d := { d with right := s }) hfailed hrest
      | acts s =>
          cases s with
          | left =>
              obtain ⟨⟨s, out, took⟩, hs, rfl⟩ := Option.map_eq_some_iff.mp hstep
              have htook := Stream.took_le hs
              have hle := ih (d := ⟨s, d.right, d.toLeft.drop took.length, d.toRight ++ out,
                d.readLeft ++ took, d.readRight⟩) hcan hrest
              simp only [List.length_append, List.length_drop] at hle
              omega
          | right =>
              obtain ⟨⟨s, out, took⟩, hs, rfl⟩ := Option.map_eq_some_iff.mp hstep
              obtain ⟨hout, hcan'⟩ := Stream.writes_step hs hcan
              have hle := ih (d := ⟨d.left, s, d.toLeft ++ out, d.toRight.drop took.length,
                d.readLeft, d.readRight ++ took⟩) hcan' hrest
              simp only [List.length_append] at hle
              omega

end Lib
