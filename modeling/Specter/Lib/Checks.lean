/-
  File:      Specter/Lib/Checks.lean
  Subject:   A SEQUENCE OF CHECKS, the first that fails giving its error. No program fact.

  * `reject` -- `if bad { return Err(e) }`, `require` -- `ok_or`; `bind_ok_iff`, `reject_ok_iff`,
    `require_ok_iff` -- what a sequence that went through says;
  * `forM_ok_iff` -- a loop of checks goes through when every round does;
  * `distinctLoop` -- a loop that also refuses a key seen before, and `distinctLoop_ok_iff`;
  * `Panics`, `forM_eq_pure_iff`, `forM_panics_iff` -- where a check can also panic: what a loop
    that went through says, and at which round a loop panics.
-/
import Mathlib.Data.List.Nodup

namespace Lib

namespace Checks

variable {ε α β κ : Type}

/-- Stop with the error `e` where `bad` holds. -/
def reject (bad : Prop) [Decidable bad] (e : ε) : Except ε Unit :=
  if bad then .error e else .ok ()

@[simp] theorem reject_ok_iff {bad : Prop} [Decidable bad] {e : ε} {u : Unit} :
    reject bad e = .ok u ↔ ¬bad := by
  unfold reject
  by_cases h : bad <;> simp [h]

@[simp] theorem bind_ok_iff {x : Except ε α} {f : α → Except ε β} {b : β} :
    (x >>= f) = .ok b ↔ ∃ a, x = .ok a ∧ f a = .ok b := by
  cases x with
  | error e =>
      refine ⟨fun h => (nomatch h), ?_⟩
      rintro ⟨_, h, _⟩
      cases h
  | ok a =>
      refine ⟨fun h => ⟨a, rfl, h⟩, ?_⟩
      rintro ⟨_, h, hf⟩
      cases h
      exact hf

@[simp] theorem mapError_ok_iff {δ : Type} {x : Except ε α} {f : ε → δ} {a : α} :
    x.mapError f = .ok a ↔ x = .ok a := by
  cases x with
  | error e => simp [Except.mapError]
  | ok b => simp [Except.mapError]

/-- The value of an option, or the error its absence is. -/
def require (o : Option α) (e : ε) : Except ε α :=
  match o with
  | some a => .ok a
  | none => .error e

@[simp] theorem require_ok_iff {o : Option α} {e : ε} {a : α} :
    require o e = .ok a ↔ o = some a := by
  cases o with
  | none => simp [require]
  | some b => simp [require]

/-- A loop of checks goes through when every round does. -/
theorem forM_ok_iff {f : α → Except ε Unit} {l : List α} :
    l.forM f = .ok () ↔ ∀ a ∈ l, f a = .ok () := by
  induction l with
  | nil => exact ⟨fun _ _ h => (List.not_mem_nil h).elim, fun _ => rfl⟩
  | cons a l ih =>
      show (f a >>= fun _ => l.forM f) = .ok () ↔ _
      rw [bind_ok_iff, List.forall_mem_cons, ← ih]
      exact ⟨fun ⟨_, ha, hl⟩ => ⟨ha, hl⟩, fun ⟨ha, hl⟩ => ⟨(), ha, hl⟩⟩

variable [DecidableEq κ]

/-- Check each entry in turn, and refuse one whose key an earlier entry has. -/
def distinctLoop (check : α → Except ε Unit) (key : α → κ) (repeated : κ → ε) :
    List κ → List α → Except ε Unit
  | _, [] => .ok ()
  | seen, a :: as => do
      check a
      reject (key a ∈ seen) (repeated (key a))
      distinctLoop check key repeated (key a :: seen) as

theorem distinctLoop_ok_iff_seen {check : α → Except ε Unit} {key : α → κ} {repeated : κ → ε}
    {as : List α} : ∀ {seen : List κ}, distinctLoop check key repeated seen as = .ok () ↔
      (∀ a ∈ as, check a = .ok () ∧ key a ∉ seen) ∧ (as.map key).Nodup := by
  induction as with
  | nil => simp [distinctLoop]
  | cons a as ih =>
      intro seen
      have hrest : (∀ b ∈ as, check b = .ok () ∧ key b ∉ key a :: seen) ↔
          (∀ b ∈ as, check b = .ok () ∧ key b ∉ seen) ∧ key a ∉ as.map key := by
        constructor
        · intro h
          refine ⟨fun b hb => ⟨(h b hb).1, fun hs => (h b hb).2 (List.mem_cons_of_mem _ hs)⟩, ?_⟩
          intro ha
          obtain ⟨b, hb, hkey⟩ := List.mem_map.mp ha
          exact (h b hb).2 (hkey ▸ List.mem_cons_self)
        · intro h b hb
          refine ⟨(h.1 b hb).1, fun hs => ?_⟩
          rcases List.mem_cons.mp hs with heq | hs
          · exact h.2 (heq ▸ List.mem_map_of_mem hb)
          · exact (h.1 b hb).2 hs
      rw [distinctLoop, bind_ok_iff, List.forall_mem_cons, List.map_cons, List.nodup_cons]
      constructor
      · rintro ⟨_, ha, h⟩
        obtain ⟨_, hseen, h⟩ := bind_ok_iff.mp h
        obtain ⟨hall, hnd⟩ := ih.mp h
        obtain ⟨hall', hnew⟩ := hrest.mp hall
        exact ⟨⟨⟨ha, reject_ok_iff.mp hseen⟩, hall'⟩, hnew, hnd⟩
      · rintro ⟨⟨⟨ha, hseen⟩, hall⟩, hnew, hnd⟩
        exact ⟨(), ha, bind_ok_iff.mpr ⟨(), reject_ok_iff.mpr hseen,
          ih.mpr ⟨hrest.mpr ⟨hall, hnew⟩, hnd⟩⟩⟩

/-- **The loop goes through when every entry passes and no key is repeated.** -/
theorem distinctLoop_ok_iff {check : α → Except ε Unit} {key : α → κ} {repeated : κ → ε}
    {as : List α} : distinctLoop check key repeated [] as = .ok () ↔
      (∀ a ∈ as, check a = .ok ()) ∧ (as.map key).Nodup := by
  rw [distinctLoop_ok_iff_seen]
  simp

end Checks

/-! ## Checks that can panic -/

namespace Checks

variable {ε α β : Type}

/-- There is no result, not even an error. -/
def Panics (x : ExceptT ε Option α) : Prop := x.run = none

theorem bind_eq_pure_iff {x : ExceptT ε Option α} {f : α → ExceptT ε Option β} {b : β} :
    x >>= f = pure b ↔ ∃ a, x = pure a ∧ f a = pure b := by
  constructor
  · intro h
    cases x with
    | none => cases h
    | some r =>
        cases r with
        | error e => cases h
        | ok a => exact ⟨a, rfl, h⟩
  · rintro ⟨a, rfl, h⟩
    exact h

theorem bind_panics_iff {x : ExceptT ε Option α} {f : α → ExceptT ε Option β} :
    Panics (x >>= f) ↔ Panics x ∨ ∃ a, x = pure a ∧ Panics (f a) := by
  constructor
  · intro h
    cases x with
    | none => exact .inl rfl
    | some r =>
        cases r with
        | error e => cases h
        | ok a => exact .inr ⟨a, rfl, h⟩
  · intro h
    rcases h with h | ⟨a, rfl, h⟩
    · have hx : x = (none : Option (Except ε α)) := h
      rw [hx]
      rfl
    · exact h

/-- A refusal in front of `x`. -/
theorem ite_throw_eq_pure_iff {bad : Prop} [Decidable bad] {e : ε} {x : ExceptT ε Option α}
    {a : α} : (if bad then throw e else x) = pure a ↔ ¬bad ∧ x = pure a := by
  by_cases h : bad
  · rw [if_pos h]
    refine ⟨fun hx => ?_, fun hx => absurd h hx.1⟩
    cases hx
  · rw [if_neg h]
    exact ⟨fun hx => ⟨h, hx⟩, fun hx => hx.2⟩

theorem ite_throw_panics_iff {bad : Prop} [Decidable bad] {e : ε} {x : ExceptT ε Option α} :
    Panics (if bad then throw e else x) ↔ ¬bad ∧ Panics x := by
  by_cases h : bad
  · rw [if_pos h]
    refine ⟨fun hx => ?_, fun hx => absurd h hx.1⟩
    cases hx
  · rw [if_neg h]
    exact ⟨fun hx => ⟨h, hx⟩, fun hx => hx.2⟩

/-- A loop goes through when every round does. -/
theorem forM_eq_pure_iff {f : α → ExceptT ε Option PUnit} {l : List α} :
    l.forM f = pure ⟨⟩ ↔ ∀ a ∈ l, f a = pure ⟨⟩ := by
  induction l with
  | nil => exact ⟨fun _ _ h => (List.not_mem_nil h).elim, fun _ => rfl⟩
  | cons a l ih =>
      show (f a >>= fun _ => l.forM f) = pure ⟨⟩ ↔ _
      rw [bind_eq_pure_iff, List.forall_mem_cons, ← ih]
      exact ⟨fun ⟨_, ha, hl⟩ => ⟨ha, hl⟩, fun ⟨ha, hl⟩ => ⟨⟨⟩, ha, hl⟩⟩

/-- **A loop panics at a round that does**, if those before it went through. -/
theorem forM_panics_iff {f : α → ExceptT ε Option PUnit} {l : List α} :
    Panics (l.forM f) ↔ ∃ before a after, l = before ++ a :: after ∧
      (∀ b ∈ before, f b = pure ⟨⟩) ∧ Panics (f a) := by
  induction l with
  | nil =>
      constructor
      · intro h
        cases h
      · rintro ⟨before, a, after, h, _⟩
        exact absurd h.symm (List.append_ne_nil_of_right_ne_nil before (List.cons_ne_nil a after))
  | cons x l ih =>
      show Panics (f x >>= fun _ => l.forM f) ↔ _
      rw [bind_panics_iff]
      constructor
      · intro h
        rcases h with h | ⟨_, hx, h⟩
        · exact ⟨[], x, l, rfl, fun b hb => (List.not_mem_nil hb).elim, h⟩
        · obtain ⟨before, a, after, rfl, hbefore, ha⟩ := ih.mp h
          exact ⟨x :: before, a, after, rfl, List.forall_mem_cons.mpr ⟨hx, hbefore⟩, ha⟩
      · rintro ⟨before, a, after, h, hbefore, ha⟩
        cases before with
        | nil =>
            obtain ⟨rfl, _⟩ := List.cons.inj h
            exact .inl ha
        | cons b before =>
            obtain ⟨rfl, rfl⟩ := List.cons.inj h
            obtain ⟨hx, hbefore⟩ := List.forall_mem_cons.mp hbefore
            exact .inr ⟨⟨⟩, hx, ih.mpr ⟨before, a, after, rfl, hbefore, ha⟩⟩

end Checks

end Lib
