/-
  File:      Specter/Lib/Guarded.lean
  Subject:   AN OBJECT BEHIND A LOCK and the threads that call it. A call waits for the lock, runs
             its section in steps of its own, and gives the lock back with an answer; or its
             thread dies inside, which frees the lock and poisons it. No program fact.

  The value between two stays in the lock is what matters: `Settled` keeps it, `settled_step` says
  when it changes, and everything else is derived from these two.

  * `Guarded.threads` -- the machine of the lock and its threads;
  * `Serial`, `serial_of_run` -- every run is a row of stays, one after the other, each of them a
    section that ran alone, to its answer or to where its thread died;
  * `answered_of_run` -- a call that waits is answered, whoever died before.
-/
import Mathlib.Data.List.Nodup
import Specter.Lib.Machine

namespace Lib

/-- An object whose calls run behind a lock: where the section of a call begins, what one step of
    a section does to the value, with what the surroundings do as an argument, and where it is
    over. -/
structure Guarded (σ κ π ε β : Type*) where
  enter : κ → π
  step : π → σ → ε → Option (π × σ)
  answer : π → Option β

namespace Guarded

/-- One stay in the lock: whose, for which call, and the answer; `none` where the thread died. -/
structure Stay (τ κ β : Type*) where
  thread : τ
  call : κ
  answer : Option β

/-- A thread inside the lock. -/
structure Holder (τ κ π : Type*) where
  thread : τ
  call : κ
  point : π

/-- The lock: who waits for it and with which call, who holds it, whether a thread died holding
    it, and the stays that are over, the newest first. -/
structure Lock (τ κ π β : Type*) where
  waiting : List (τ × κ)
  holder : Option (Holder τ κ π)
  poisoned : Bool
  stays : List (Stay τ κ β)

inductive Label (τ κ ε : Type*) where
  | call (t : τ) (c : κ)
  | lock (t : τ)
  | act (e : ε)
  | unlock
  | die

variable {σ κ π ε β τ : Type*}

def Lock.idle : Lock τ κ π β := ⟨[], none, false, []⟩

/-- The thread is in a call. -/
def Lock.busy (L : Lock τ κ π β) (t : τ) : Prop :=
  t ∈ L.waiting.map (·.1) ∨ ∃ h ∈ L.holder, h.thread = t

instance [DecidableEq τ] (L : Lock τ κ π β) (t : τ) : Decidable (L.busy t) :=
  inferInstanceAs (Decidable (_ ∨ _))

def ofThread [DecidableEq τ] (t : τ) (w : τ × κ) : Bool := decide (w.1 = t)

/-- The lock taken by a thread that waits. A poisoned lock hands out the same guard, inside an
    error, and the caller takes it from there. -/
def Lock.take [DecidableEq τ] (L : Lock τ κ π β) (enter : κ → π) (t : τ) :
    Option (Lock τ κ π β) :=
  match L.holder, L.waiting.find? (ofThread t) with
  | none, some w => some { L with
      waiting := L.waiting.filter fun w => !ofThread t w
      holder := some ⟨w.1, w.2, enter w.2⟩ }
  | _, _ => none

/-- The lock given back. -/
def Lock.release (L : Lock τ κ π β) (h : Holder τ κ π) (answer : Option β) : Lock τ κ π β :=
  { L with holder := none, stays := ⟨h.thread, h.call, answer⟩ :: L.stays }

/-- The steps of one section. -/
def sections (G : Guarded σ κ π ε β) : Machine (π × σ) ε where
  step s e := G.step s.1 s.2 e

/-- The lock, its threads and the value. -/
def threads [DecidableEq τ] (G : Guarded σ κ π ε β) :
    Machine (Lock τ κ π β × σ) (Label τ κ ε) where
  step s
    | .call t c =>
        if s.1.busy t then none
        else some ({ s.1 with waiting := s.1.waiting ++ [(t, c)] }, s.2)
    | .lock t => (s.1.take G.enter t).map fun L => (L, s.2)
    | .act e => s.1.holder.bind fun h => (G.step h.point s.2 e).map fun r =>
        ({ s.1 with holder := some { h with point := r.1 } }, r.2)
    | .unlock => s.1.holder.bind fun h => (G.answer h.point).map fun b =>
        (s.1.release h (some b), s.2)
    | .die => s.1.holder.map fun h => ({ s.1.release h none with poisoned := true }, s.2)

variable (G : Guarded σ κ π ε β)

/-! ## 1. Stays -/

/-- The section of `c`, begun on `v`, has come to `p` and made `v'` of the value. -/
def Ran (c : κ) (v : σ) (p : π) (v' : σ) : Prop :=
  ∃ es, G.sections.run (G.enter c, v) es = some (p, v')

/-- The value was `v` when the lock was last free, and `I` holds of the section under way: of its
    call, `v`, where it stands and the value now. -/
def Settled (I : κ → σ → π → σ → Prop) (v : σ) (s : Lock τ κ π β × σ) : Prop :=
  match s.1.holder with
  | none => s.2 = v
  | some h => I h.call v h.point s.2

/-- A stay ended at `p`: with the answer of `p`, or with none. -/
def Ended (y : Stay τ κ β) (p : π) : Prop := ∀ b, y.answer = some b → G.answer p = some b

/-- The stays, the newest first, each begun on what the one before left. -/
inductive Serial (v₀ : σ) : List (Stay τ κ β) → σ → Prop where
  | start : Serial v₀ [] v₀
  | stay {ys v p v'} (y : Stay τ κ β) (before : Serial v₀ ys v) (ran : G.Ran y.call v p v')
      (ended : G.Ended y p) : Serial v₀ (y :: ys) v'

variable {G}

theorem ran_enter (c : κ) (v : σ) : G.Ran c v (G.enter c) v := ⟨[], rfl⟩

theorem Ran.act {c : κ} {v v' : σ} {p : π} {e : ε} {r : π × σ} (h : G.Ran c v p v')
    (hs : G.step p v' e = some r) : G.Ran c v r.1 r.2 := by
  obtain ⟨es, hes⟩ := h
  exact ⟨es ++ [e], G.sections.run_concat hes hs⟩

/-- **An invariant of a section**: it holds where the section begins and every step keeps it. -/
theorem Ran.invariant {I : π → σ → Prop} {c : κ} {v v' : σ} {p : π} (h : G.Ran c v p v')
    (hstart : I (G.enter c) v)
    (hstep : ∀ p v e r, I p v → G.step p v e = some r → I r.1 r.2) : I p v' := by
  obtain ⟨es, hes⟩ := h
  exact G.sections.run_invariant (I := fun s => I s.1 s.2) (fun s e r hI hs => hstep _ _ e r hI hs)
    es _ _ hstart hes

variable {I : κ → σ → π → σ → Prop}

theorem settled_free {v : σ} {s : Lock τ κ π β × σ} (hfree : s.1.holder = none) :
    Settled I v s ↔ s.2 = v := by
  unfold Settled
  rw [hfree]

theorem settled_held {v : σ} {s : Lock τ κ π β × σ} {H : Holder τ κ π}
    (hH : s.1.holder = some H) : Settled I v s ↔ I H.call v H.point s.2 := by
  unfold Settled
  rw [hH]

variable [DecidableEq τ] {v : σ} {s s' : Lock τ κ π β × σ} {l : Label τ κ ε}

omit [DecidableEq τ] in
theorem ofThread_eq [DecidableEq τ] {t : τ} {w : τ × κ} (h : ofThread t w = true) : w.1 = t :=
  of_decide_eq_true h

theorem take_some {L L' : Lock τ κ π β} {enter : κ → π} {t : τ} (h : L.take enter t = some L') :
    L.holder = none ∧ L'.stays = L.stays ∧ L'.poisoned = L.poisoned ∧
      ∃ c, (t, c) ∈ L.waiting ∧ L'.holder = some ⟨t, c, enter c⟩ := by
  unfold Lock.take at h
  split at h
  · rename_i w hholder hfind
    cases h
    have ht : w.1 = t := ofThread_eq (List.find?_some hfind)
    exact ⟨hholder, rfl, rfl, w.2, ht ▸ List.mem_of_find?_eq_some hfind, by rw [ht]⟩
  · cases h

/-- A stay is over with this step: `H` leaves the lock with the answer of its point, or dies. -/
structure Leaves (G : Guarded σ κ π ε β) (s s' : Lock τ κ π β × σ) (H : Holder τ κ π)
    (a : Option β) (l : Label τ κ ε) : Prop where
  held : s.1.holder = some H
  stays : s'.1.stays = ⟨H.thread, H.call, a⟩ :: s.1.stays
  value : s'.2 = s.2
  free : s'.1.holder = none
  how : (l = .unlock ∧ ∃ b, a = some b ∧ G.answer H.point = some b) ∨ (l = .die ∧ a = none)

/-- **What one step does to the stays and to the value they leave**: nothing, or one stay is over.
    The invariant of the sections holds where they begin, and this step keeps it. -/
theorem settled_step (hstart : ∀ c v, I c v (G.enter c) v)
    (hact : ∀ H e r, s.1.holder = some H → l = .act e → I H.call v H.point s.2 →
      G.step H.point s.2 e = some r → I H.call v r.1 r.2)
    (h : Settled I v s) (hs : G.threads.step s l = some s') :
    (s'.1.stays = s.1.stays ∧ Settled I v s') ∨ ∃ H a, Leaves G s s' H a l := by
  obtain ⟨L, u⟩ := s
  cases l with
  | call t c =>
      left
      simp only [threads] at hs
      split at hs
      · cases hs
      · cases hs
        exact ⟨rfl, h⟩
  | lock t =>
      left
      obtain ⟨L', hL, rfl⟩ := Option.map_eq_some_iff.mp hs
      obtain ⟨hnone, hstays, _, c, _, hholder⟩ := take_some hL
      have hu : u = v := (settled_free hnone).mp h
      exact ⟨hstays, (settled_held hholder).mpr (hu ▸ hstart c u)⟩
  | act e =>
      left
      obtain ⟨H, hH, hs⟩ := Option.bind_eq_some_iff.mp hs
      obtain ⟨r, hr, rfl⟩ := Option.map_eq_some_iff.mp hs
      exact ⟨rfl, hact H e r hH rfl ((settled_held hH).mp h) hr⟩
  | unlock =>
      right
      obtain ⟨H, hH, hs⟩ := Option.bind_eq_some_iff.mp hs
      obtain ⟨b, hb, rfl⟩ := Option.map_eq_some_iff.mp hs
      exact ⟨H, some b, hH, rfl, rfl, rfl, .inl ⟨rfl, b, rfl, hb⟩⟩
  | die =>
      right
      obtain ⟨H, hH, rfl⟩ := Option.map_eq_some_iff.mp hs
      exact ⟨H, none, hH, rfl, rfl, rfl, .inr ⟨rfl, rfl⟩⟩

/-- **Every run is serial**: the stays one after the other, and where the lock is held, one more
    section on its way. -/
theorem serial_of_run {v₀ : σ} {ls : List (Label τ κ ε)}
    (hr : G.threads.run (Lock.idle, v₀) ls = some s) :
    ∃ v, G.Serial v₀ s.1.stays v ∧ Settled G.Ran v s := by
  refine G.threads.run_invariant (I := fun s => ∃ v, G.Serial v₀ s.1.stays v ∧ Settled G.Ran v s)
    (fun s l s' hI hs => ?_) ls _ s ⟨v₀, .start, (settled_free rfl).mpr rfl⟩ hr
  obtain ⟨v, hserial, hsettled⟩ := hI
  have hact : ∀ H e r, s.1.holder = some H → l = .act e → G.Ran H.call v H.point s.2 →
      G.step H.point s.2 e = some r → G.Ran H.call v r.1 r.2 := fun H e r _ _ hran hr => hran.act hr
  rcases settled_step ran_enter hact hsettled hs with ⟨hstays, hsettled'⟩ | ⟨H, a, hleave⟩
  · exact ⟨v, hstays ▸ hserial, hsettled'⟩
  · have hran := (settled_held hleave.held).mp hsettled
    refine ⟨s'.2, ?_, (settled_free hleave.free).mpr rfl⟩
    rw [hleave.stays, hleave.value]
    refine hserial.stay ⟨H.thread, H.call, a⟩ hran fun b hb => ?_
    rcases hleave.how with ⟨_, b', rfl, hb'⟩ | ⟨_, rfl⟩
    · cases hb
      exact hb'
    · cases hb

/-! ## 2. No call waits for ever -/

/-- A section at `p` on `v` can be driven to an answer. -/
def Completes (G : Guarded σ κ π ε β) (p : π) (v : σ) : Prop :=
  ∃ es p' v' b, G.sections.run (p, v) es = some (p', v') ∧ G.answer p' = some b

omit [DecidableEq τ] in
theorem Completes.of_answer {p : π} {b : β} (h : G.answer p = some b) : G.Completes p v :=
  ⟨[], p, v, b, rfl, h⟩

omit [DecidableEq τ] in
theorem Completes.of_step {p : π} {e : ε} {r : π × σ} (hs : G.step p v e = some r)
    (h : G.Completes r.1 r.2) : G.Completes p v := by
  obtain ⟨es, p', v', b, hr, hb⟩ := h
  refine ⟨e :: es, p', v', b, ?_, hb⟩
  have hstep : G.sections.step (p, v) e = some r := hs
  rw [Machine.run, hstep]
  exact hr

/-- The steps of a section, taken by the thread that holds the lock. -/
theorem run_acts {es : List ε} {L : Lock τ κ π β} {H : Holder τ κ π} {p' : π} {v v' : σ}
    (hH : L.holder = some H) (hr : G.sections.run (H.point, v) es = some (p', v')) :
    G.threads.run (L, v) (es.map .act) =
      some ({ L with holder := some { H with point := p' } }, v') := by
  induction es generalizing L H v with
  | nil =>
      cases hr
      obtain ⟨waiting, holder, poisoned, stays⟩ := L
      cases hH
      rfl
  | cons e es ih =>
      obtain ⟨r, hs, hr⟩ := G.sections.run_cons hr
      have hstep : G.threads.step (L, v) (.act e) =
          some ({ L with holder := some { H with point := r.1 } }, r.2) := by
        show L.holder.bind _ = _
        rw [hH, Option.bind_some]
        exact Option.map_eq_some_iff.mpr ⟨r, hs, rfl⟩
      rw [List.map_cons, Machine.run, hstep]
      exact ih (L := { L with holder := some { H with point := r.1 } })
        (H := { H with point := r.1 }) rfl hr

/-- A thread in the lock whose section can be completed leaves it with an answer. -/
theorem leaves {L : Lock τ κ π β} {H : Holder τ κ π} (hH : L.holder = some H)
    (hc : G.Completes H.point v) :
    ∃ ls b v', G.threads.run (L, v) ls =
      some ({ L with holder := none, stays := ⟨H.thread, H.call, some b⟩ :: L.stays }, v') := by
  obtain ⟨es, p', v', b, hr, hb⟩ := hc
  refine ⟨es.map .act ++ [.unlock], b, v', G.threads.run_concat (run_acts hH hr) ?_⟩
  show (G.answer p').map _ = _
  rw [hb]
  rfl

/-- No thread waits twice. -/
theorem waiting_of_run {v₀ : σ} {ls : List (Label τ κ ε)}
    (hr : G.threads.run (Lock.idle, v₀) ls = some s) : (s.1.waiting.map (·.1)).Nodup := by
  refine G.threads.run_invariant (I := fun s => (s.1.waiting.map (·.1)).Nodup)
    (fun s l s' hI hs => ?_) ls _ s (by simp [Lock.idle]) hr
  obtain ⟨L, u⟩ := s
  cases l with
  | call t c =>
      simp only [threads] at hs
      split at hs
      · cases hs
      · rename_i hbusy
        cases hs
        have hnot : t ∉ L.waiting.map (·.1) := fun ht => hbusy (.inl ht)
        rw [List.map_append]
        exact List.Nodup.append hI (List.nodup_singleton t) (List.disjoint_singleton.mpr hnot)
  | lock t =>
      obtain ⟨L', hL, rfl⟩ := Option.map_eq_some_iff.mp hs
      unfold Lock.take at hL
      split at hL
      · cases hL
        exact hI.sublist (List.filter_sublist.map _)
      · cases hL
  | act e =>
      obtain ⟨H, hH, hs⟩ := Option.bind_eq_some_iff.mp hs
      obtain ⟨r, hr, rfl⟩ := Option.map_eq_some_iff.mp hs
      exact hI
  | unlock =>
      obtain ⟨H, hH, hs⟩ := Option.bind_eq_some_iff.mp hs
      obtain ⟨b, hb, rfl⟩ := Option.map_eq_some_iff.mp hs
      exact hI
  | die =>
      obtain ⟨H, hH, rfl⟩ := Option.map_eq_some_iff.mp hs
      exact hI

omit [DecidableEq τ] in
/-- The entry of a thread that waits once. -/
theorem find_waiting [DecidableEq τ] {t : τ} {c : κ} {ws : List (τ × κ)}
    (hnodup : (ws.map (·.1)).Nodup) (hw : (t, c) ∈ ws) : ws.find? (ofThread t) = some (t, c) := by
  induction ws with
  | nil => cases hw
  | cons w ws ih =>
      rw [List.map_cons, List.nodup_cons] at hnodup
      rcases List.mem_cons.mp hw with rfl | hw
      · exact List.find?_cons_of_pos (decide_eq_true rfl)
      · have hne : ofThread t w = false := by
          refine decide_eq_false fun h => hnodup.1 ?_
          rw [h]
          exact List.mem_map_of_mem (f := (·.1)) hw
        rw [List.find?_cons_of_neg (by simp [hne])]
        exact ih hnodup.2 hw

/-- **No call waits for ever**: where every section can be completed, a call that waits is
    answered in some continuation, whoever holds the lock or died in it. -/
theorem answered_of_run (hc : ∀ p v, G.Completes p v) {v₀ : σ} {ls : List (Label τ κ ε)}
    (hr : G.threads.run (Lock.idle, v₀) ls = some s) {t : τ} {c : κ}
    (hw : (t, c) ∈ s.1.waiting) :
    ∃ ls' s' b, G.threads.run s ls' = some s' ∧ ⟨t, c, some b⟩ ∈ s'.1.stays := by
  have hfind := find_waiting (waiting_of_run hr) hw
  obtain ⟨L, v⟩ := s
  -- whoever is inside leaves first
  obtain ⟨ls₁, L₁, v₁, hr₁, hfree, hwait⟩ : ∃ ls L₁ v₁, G.threads.run (L, v) ls = some (L₁, v₁) ∧
      L₁.holder = none ∧ L₁.waiting = L.waiting := by
    cases hH : L.holder with
    | none => exact ⟨[], L, v, rfl, hH, rfl⟩
    | some H =>
        obtain ⟨ls, b, v', hr⟩ := leaves hH (hc H.point v)
        exact ⟨ls, _, v', hr, rfl, rfl⟩
  have htake : L₁.take G.enter t = some { L₁ with
      waiting := L.waiting.filter fun w => !ofThread t w
      holder := some ⟨t, c, G.enter c⟩ } := by
    unfold Lock.take
    rw [hfree, hwait, hfind]
  have hlock : G.threads.step (L₁, v₁) (.lock t) = some ({ L₁ with
      waiting := L.waiting.filter fun w => !ofThread t w
      holder := some ⟨t, c, G.enter c⟩ }, v₁) := by
    show (L₁.take G.enter t).map _ = _
    rw [htake]
    rfl
  obtain ⟨ls₂, b, v₂, hr₂⟩ := leaves (G := G) (v := v₁) (L := { L₁ with
      waiting := L.waiting.filter fun w => !ofThread t w
      holder := some ⟨t, c, G.enter c⟩ }) rfl (hc _ _)
  exact ⟨ls₁ ++ [.lock t] ++ ls₂, _, b, G.threads.run_append (G.threads.run_concat hr₁ hlock) hr₂,
    List.mem_cons_self⟩

end Guarded

end Lib
