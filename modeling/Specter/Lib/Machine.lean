/-
  File:      Specter/Lib/Machine.lean
  Subject:   PARTIAL MACHINES AND THEIR RUNS. A machine is a partial step function over labels
             (`none`: the label is not enabled), a run is a list of labels. No program fact.

  * `Machine.run` -- the state a list of labels leads to;
  * `Machine.AllSteps C` -- every step taken along the list meets the step condition `C`;
  * `Machine.Always P` -- every state met along the list satisfies `P`;
  * `run_invariant`, `run_invariant_of` -- an invariant kept by every step (by every step that
    meets `C`) holds at the end of every run (of every run whose steps meet `C`);
  * `run_simulates` -- step by step simulation by another machine carries over to runs;
  * `always_iff_allSteps` -- where a step breaks `P` exactly when it misses `C`, the runs that
    satisfy `P` throughout are exactly the runs all of whose steps meet `C`.
-/
import Mathlib.Logic.Basic
import Mathlib.Data.Nat.Notation

namespace Lib

/-- A machine: what one label does to a state, `none` where the label is not enabled. -/
structure Machine (σ α : Type*) where
  step : σ → α → Option σ

namespace Machine

variable {σ α : Type*} (M : Machine σ α)

/-- The state a list of labels leads to, `none` as soon as one of them is not enabled. -/
def run : σ → List α → Option σ
  | s, [] => some s
  | s, a :: as =>
      match M.step s a with
      | none => none
      | some s' => run s' as

/-- Every step taken along the labels meets `C` in the state it is taken from. -/
def AllSteps (C : σ → α → Prop) : σ → List α → Prop
  | _, [] => True
  | s, a :: as =>
      match M.step s a with
      | none => True
      | some s' => C s a ∧ AllSteps C s' as

/-- Every state met along the labels satisfies `P`, the first and the last included. -/
def Always (P : σ → Prop) : σ → List α → Prop
  | s, [] => P s
  | s, a :: as => P s ∧
      match M.step s a with
      | none => True
      | some s' => Always P s' as

theorem allSteps_cons_iff {C : σ → α → Prop} {s s' : σ} {a : α} {as : List α}
    (hs : M.step s a = some s') :
    M.AllSteps C s (a :: as) ↔ C s a ∧ M.AllSteps C s' as := by
  rw [AllSteps, hs]

theorem allSteps_cons_stuck {C : σ → α → Prop} {s : σ} {a : α} {as : List α}
    (hs : M.step s a = none) : M.AllSteps C s (a :: as) := by
  rw [AllSteps, hs]
  trivial

instance decidableAllSteps (C : σ → α → Prop) [∀ s a, Decidable (C s a)] :
    ∀ (s : σ) (as : List α), Decidable (M.AllSteps C s as)
  | _, [] => isTrue trivial
  | s, a :: as =>
      match hs : M.step s a with
      | none => isTrue (M.allSteps_cons_stuck hs)
      | some s' =>
          have := decidableAllSteps C s' as
          decidable_of_iff (C s a ∧ M.AllSteps C s' as) (M.allSteps_cons_iff hs).symm

theorem run_cons {s t : σ} {a : α} {as : List α} (h : M.run s (a :: as) = some t) :
    ∃ s', M.step s a = some s' ∧ M.run s' as = some t := by
  unfold run at h
  cases hs : M.step s a with
  | none => rw [hs] at h; cases h
  | some s' => rw [hs] at h; exact ⟨s', rfl, h⟩

theorem run_concat {a : α} {t u : σ} : ∀ {as : List α} {s : σ}, M.run s as = some t →
    M.step t a = some u → M.run s (as ++ [a]) = some u
  | [], s, h, hs => by
      cases h
      rw [List.nil_append, run, hs]
      rfl
  | b :: as, s, h, hs => by
      obtain ⟨s', hb, hr⟩ := M.run_cons h
      rw [List.cons_append, run, hb]
      exact run_concat hr hs

theorem run_append {as bs : List α} {s t u : σ} (h : M.run s as = some t)
    (h' : M.run t bs = some u) : M.run s (as ++ bs) = some u := by
  induction as generalizing s with
  | nil =>
      cases h
      exact h'
  | cons a as ih =>
      obtain ⟨s', hs, hr⟩ := M.run_cons h
      rw [List.cons_append, run, hs]
      exact ih hr

theorem always_head {P : σ → Prop} : ∀ {s : σ} {as : List α}, M.Always P s as → P s
  | _, [], h => h
  | _, _ :: _, h => h.1

theorem always_last {P : σ → Prop} {t : σ} : ∀ {s : σ} {as : List α}, M.Always P s as →
    M.run s as = some t → P t
  | _, [], h, hr => by cases hr; exact h
  | s, a :: as, h, hr => by
      obtain ⟨s', hs, hr'⟩ := M.run_cons hr
      unfold Always at h
      rw [hs] at h
      exact always_last h.2 hr'

instance decidableAlways (P : σ → Prop) [DecidablePred P] :
    ∀ (s : σ) (as : List α), Decidable (M.Always P s as)
  | s, [] => inferInstanceAs (Decidable (P s))
  | s, a :: as =>
      have : Decidable (match M.step s a with
          | none => True
          | some s' => M.Always P s' as) :=
        match M.step s a with
        | none => isTrue trivial
        | some s' => decidableAlways P s' as
      inferInstanceAs (Decidable (P s ∧ _))

/-- Steps between states met along a list that satisfies `P` throughout. -/
theorem allSteps_of_always {P : σ → Prop} : ∀ {s : σ} {as : List α}, M.Always P s as →
    M.AllSteps (fun s a => ∀ s', M.step s a = some s' → P s ∧ P s') s as
  | _, [], _ => trivial
  | s, a :: as, h => by
      cases hs : M.step s a with
      | none => exact M.allSteps_cons_stuck hs
      | some s' =>
          unfold Always at h
          rw [hs] at h
          rw [M.allSteps_cons_iff hs]
          refine ⟨fun s'' hs'' => ?_, allSteps_of_always h.2⟩
          cases hs.symm.trans hs''
          exact ⟨h.1, M.always_head h.2⟩

theorem allSteps_of_forall {C : σ → α → Prop} :
    ∀ (as : List α) (s : σ), (∀ a ∈ as, ∀ s, C s a) → M.AllSteps C s as
  | [], _, _ => trivial
  | a :: as, s, h => by
      cases hs : M.step s a with
      | none => exact M.allSteps_cons_stuck hs
      | some s' =>
          rw [M.allSteps_cons_iff hs]
          exact ⟨h a List.mem_cons_self s,
            allSteps_of_forall as s' fun b hb => h b (List.mem_cons_of_mem _ hb)⟩

theorem allSteps_imp {C D : σ → α → Prop} (h : ∀ s a, C s a → D s a) :
    ∀ (as : List α) (s : σ), M.AllSteps C s as → M.AllSteps D s as
  | [], _, _ => trivial
  | a :: as, s, hC => by
      cases hs : M.step s a with
      | none => exact M.allSteps_cons_stuck hs
      | some s' =>
          rw [M.allSteps_cons_iff hs] at hC ⊢
          exact ⟨h s a hC.1, allSteps_imp h as s' hC.2⟩

theorem allSteps_append {C : σ → α → Prop} {as bs : List α} {s t : σ} (h : M.AllSteps C s as)
    (hr : M.run s as = some t) (h' : M.AllSteps C t bs) : M.AllSteps C s (as ++ bs) := by
  induction as generalizing s with
  | nil =>
      cases hr
      exact h'
  | cons a as ih =>
      obtain ⟨s', hs, hr⟩ := M.run_cons hr
      rw [List.cons_append, M.allSteps_cons_iff hs]
      rw [M.allSteps_cons_iff hs] at h
      exact ⟨h.1, ih h.2 hr⟩

/-- What holds at the end of a run and goes back over every step holds behind every step. -/
theorem allSteps_of_last {P : σ → Prop} (hback : ∀ s a s', M.step s a = some s' → P s' → P s) :
    ∀ {as : List α} {s t : σ}, M.run s as = some t → P t →
      P s ∧ M.AllSteps (fun s a => ∀ s', M.step s a = some s' → P s') s as
  | [], _, _, hr, hP => by
      cases hr
      exact ⟨hP, trivial⟩
  | a :: as, s, t, hr, hP => by
      obtain ⟨s', hs, hr'⟩ := M.run_cons hr
      obtain ⟨hs', hall⟩ := allSteps_of_last hback hr' hP
      rw [M.allSteps_cons_iff hs]
      refine ⟨hback s a s' hs hs', fun s'' hs'' => ?_, hall⟩
      cases hs.symm.trans hs''
      exact hs'

/-- Labels that meet `C` wherever `I` holds, where `C` keeps `I`. -/
theorem allSteps_of_invariant {I : σ → Prop} {C : σ → α → Prop}
    (hstep : ∀ s a s', I s → C s a → M.step s a = some s' → I s') :
    ∀ (as : List α) (s : σ), I s → (∀ a ∈ as, ∀ s, I s → C s a) → M.AllSteps C s as
  | [], _, _, _ => trivial
  | a :: as, s, hI, hC => by
      cases hs : M.step s a with
      | none => exact M.allSteps_cons_stuck hs
      | some s' =>
          rw [M.allSteps_cons_iff hs]
          have hc := hC a List.mem_cons_self s hI
          exact ⟨hc, allSteps_of_invariant hstep as s' (hstep s a s' hI hc hs)
            fun b hb => hC b (List.mem_cons_of_mem _ hb)⟩

/-- Where a step that meets `C` keeps `I` and meets `D`, all steps of a run that meet `C` do. -/
theorem allSteps_under {I : σ → Prop} {C D : σ → α → Prop}
    (hstep : ∀ s a s', I s → C s a → M.step s a = some s' → I s' ∧ D s a) :
    ∀ (as : List α) (s : σ), I s → M.AllSteps C s as → M.AllSteps D s as
  | [], _, _, _ => trivial
  | a :: as, s, hI, hC => by
      cases hs : M.step s a with
      | none => exact M.allSteps_cons_stuck hs
      | some s' =>
          rw [M.allSteps_cons_iff hs] at hC ⊢
          obtain ⟨hI', hD⟩ := hstep s a s' hI hC.1 hs
          exact ⟨hD, allSteps_under hstep as s' hI' hC.2⟩

theorem allSteps_and {C D : σ → α → Prop} :
    ∀ (as : List α) (s : σ), M.AllSteps C s as → M.AllSteps D s as →
      M.AllSteps (fun s a => C s a ∧ D s a) s as
  | [], _, _, _ => trivial
  | a :: as, s, h, h' => by
      cases hs : M.step s a with
      | none => exact M.allSteps_cons_stuck hs
      | some s' =>
          rw [M.allSteps_cons_iff hs] at h h' ⊢
          exact ⟨⟨h.1, h'.1⟩, allSteps_and as s' h.2 h'.2⟩

/-- **An invariant kept by every step that meets `C`** holds at the end of every run all of
    whose steps meet `C`. -/
theorem run_invariant_of {I : σ → Prop} {C : σ → α → Prop}
    (hstep : ∀ s a s', I s → C s a → M.step s a = some s' → I s') :
    ∀ (as : List α) (s t : σ), I s → M.AllSteps C s as → M.run s as = some t → I t
  | [], _, _, hI, _, h => by cases h; exact hI
  | a :: as, s, t, hI, hC, h => by
      obtain ⟨s', hs, hr⟩ := M.run_cons h
      obtain ⟨hc, hC'⟩ := (M.allSteps_cons_iff hs).mp hC
      exact run_invariant_of hstep as s' t (hstep s a s' hI hc hs) hC' hr

/-- **An invariant kept by every step** holds at the end of every run. -/
theorem run_invariant {I : σ → Prop} (hstep : ∀ s a s', I s → M.step s a = some s' → I s')
    (as : List α) (s t : σ) (hI : I s) (h : M.run s as = some t) : I t :=
  M.run_invariant_of (C := fun _ _ => True) (fun s a s' hI _ hs => hstep s a s' hI hs)
    as s t hI (M.allSteps_of_forall as s fun _ _ _ => trivial) h

/-- **Simulation**: where every step that meets `C` is followed by a run of another machine whose
    steps meet `D`, every run of such steps is. -/
theorem run_simulates {ρ β : Type*} {N : Machine ρ β} {R : σ → ρ → Prop} {C : σ → α → Prop}
    {D : ρ → β → Prop}
    (hstep : ∀ s a s' r, R s r → C s a → M.step s a = some s' →
      ∃ bs r', N.run r bs = some r' ∧ N.AllSteps D r bs ∧ R s' r')
    {as : List α} {s t : σ} {r : ρ} (hR : R s r) (hC : M.AllSteps C s as)
    (hr : M.run s as = some t) :
    ∃ bs r', N.run r bs = some r' ∧ N.AllSteps D r bs ∧ R t r' := by
  induction as generalizing s r with
  | nil =>
      cases hr
      exact ⟨[], r, rfl, trivial, hR⟩
  | cons a as ih =>
      obtain ⟨s', hs, hr⟩ := M.run_cons hr
      obtain ⟨hc, hC'⟩ := (M.allSteps_cons_iff hs).mp hC
      obtain ⟨bs, r₁, hr₁, hD₁, hR₁⟩ := hstep s a s' r hR hc hs
      obtain ⟨cs, r₂, hr₂, hD₂, hR₂⟩ := ih hR₁ hC' hr
      exact ⟨bs ++ cs, r₂, N.run_append hr₁ hr₂, N.allSteps_append hD₁ hr₁ hD₂, hR₂⟩

/-- Simulation label by label. -/
theorem run_tracks {ρ : Type*} {N : Machine ρ α} {R : σ → ρ → Prop} {C : σ → α → Prop}
    (hstep : ∀ s a s' r, R s r → C s a → M.step s a = some s' →
      ∃ r', N.step r a = some r' ∧ R s' r')
    {as : List α} {s t : σ} {r : ρ} (hR : R s r) (hC : M.AllSteps C s as)
    (hr : M.run s as = some t) : ∃ r', N.run r as = some r' ∧ R t r' := by
  induction as generalizing s r with
  | nil =>
      cases hr
      exact ⟨r, rfl, hR⟩
  | cons a as ih =>
      obtain ⟨s', hs, hr⟩ := M.run_cons hr
      obtain ⟨hc, hC'⟩ := (M.allSteps_cons_iff hs).mp hC
      obtain ⟨r₁, hr₁, hR₁⟩ := hstep s a s' r hR hc hs
      obtain ⟨r₂, hr₂, hR₂⟩ := ih hR₁ hC' hr
      refine ⟨r₂, ?_, hR₂⟩
      rw [run, hr₁]
      exact hr₂

/-- **Where no action of a kind gets stuck and all keep an invariant**, every sequence of them
    runs to its end, in a state with the invariant. -/
theorem run_exists {I : σ → Prop} {A : α → Prop}
    (hstep : ∀ s a, I s → A a → ∃ s', M.step s a = some s' ∧ I s') :
    ∀ (as : List α) (s : σ), I s → (∀ a ∈ as, A a) → ∃ t, M.run s as = some t ∧ I t
  | [], s, hI, _ => ⟨s, rfl, hI⟩
  | a :: as, s, hI, hA => by
      obtain ⟨s', hs, hI'⟩ := hstep s a hI (hA a List.mem_cons_self)
      obtain ⟨t, hr, ht⟩ := run_exists hstep as s' hI' fun b hb =>
        hA b (List.mem_cons_of_mem a hb)
      refine ⟨t, ?_, ht⟩
      rw [run, hs]
      exact hr

/-- A measure no step raises is not raised by a run. -/
theorem run_antitone {f : σ → ℕ} (hstep : ∀ s a s', M.step s a = some s' → f s' ≤ f s)
    (as : List α) (s t : σ) (h : M.run s as = some t) : f t ≤ f s :=
  M.run_invariant (I := fun x => f x ≤ f s)
    (fun _ a _ hI hs => Nat.le_trans (hstep _ a _ hs) hI) as s t (Nat.le_refl _) h

/-- A measure no step lowers is below its last value all along the run. -/
theorem allSteps_le_of_run {f : σ → ℕ} (hstep : ∀ s a s', M.step s a = some s' → f s ≤ f s') :
    ∀ (as : List α) (s t : σ), M.run s as = some t →
      M.AllSteps (fun s a => ∀ s', M.step s a = some s' → f s' ≤ f t) s as
  | [], _, _, _ => trivial
  | a :: as, s, t, h => by
      obtain ⟨s', hs, hr⟩ := M.run_cons h
      rw [M.allSteps_cons_iff hs]
      refine ⟨fun s'' hs'' => ?_, allSteps_le_of_run hstep as s' t hr⟩
      cases hs.symm.trans hs''
      exact M.run_invariant (I := fun x => f s' ≤ f x)
        (fun x b y hI hxy => Nat.le_trans hI (hstep x b y hxy)) as s' t (Nat.le_refl _) hr

/-- **Runs that satisfy `P` throughout are the runs whose steps all meet `C`**, given an
    invariant `I` under which a step from a `P` state ends in a `P` state iff it meets `C`,
    among the runs whose steps all meet `R`. -/
theorem always_iff_allSteps {I P : σ → Prop} {R C : σ → α → Prop}
    (hI : ∀ s a s', I s → M.step s a = some s' → I s')
    (hiff : ∀ s a s', I s → P s → R s a → M.step s a = some s' → (P s' ↔ C s a)) :
    ∀ (as : List α) (s : σ), I s → P s → M.AllSteps R s as →
      (M.Always P s as ↔ M.AllSteps C s as)
  | [], _, _, hP, _ => ⟨fun _ => trivial, fun _ => hP⟩
  | a :: as, s, hs, hP, hR => by
      unfold Always AllSteps
      cases hst : M.step s a with
      | none => exact ⟨fun _ => trivial, fun _ => ⟨hP, trivial⟩⟩
      | some s' =>
          obtain ⟨hRa, hR'⟩ := (M.allSteps_cons_iff hst).mp hR
          have hs' := hI s a s' hs hst
          constructor
          · rintro ⟨_, h⟩
            have hP' : P s' := M.always_head h
            exact ⟨(hiff s a s' hs hP hRa hst).mp hP',
              (always_iff_allSteps hI hiff as s' hs' hP' hR').mp h⟩
          · rintro ⟨hC, h⟩
            have hP' : P s' := (hiff s a s' hs hP hRa hst).mpr hC
            exact ⟨hP, (always_iff_allSteps hI hiff as s' hs' hP' hR').mpr h⟩

end Machine

end Lib
