/-
  File:      Specter/Lib/Framing.lean
  Subject:   CODES READ FROM THE FRONT OF A STREAM: when words written one after another can be
             taken apart in one way only. No program fact.

  * `Delimits f V` -- of the values that meet `V`, only one has a word of `f` at the front of a
    given stream, and its word ends at one place;
  * `Delimits.of_width`, `Delimits.prod`, `Delimits.framed` -- words of one length, one word
    behind another, a string behind its length;
  * `Delimits.flatMap_append_inj` -- a list of words is read back from a stream, up to a rest that
    does not begin with a word;
  * `Script` -- a domain and labelled data behind it; `Script.stream`, every string of it behind
    its length, determines it (`Script.stream_append_inj`, `Script.stream_inj_iff`).
-/
import Mathlib.Data.List.Basic

namespace Lib

variable {α β γ : Type*}

/-! ## 1. Words -/

/-- At the front of a stream stands the word of one value at most, among those that meet `V`. -/
def Delimits (f : α → List γ) (V : α → Prop) : Prop :=
  ∀ ⦃a b⦄, V a → V b → ∀ ⦃x y⦄, f a ++ x = f b ++ y → a = b ∧ x = y

/-- A string behind its length. -/
def framed (len : Nat → List γ) (s : List γ) : List γ := len s.length ++ s

namespace Delimits

variable {f : α → List γ} {V : α → Prop} {g : β → List γ} {W : β → Prop}

theorem inj (hf : Delimits f V) {a b : α} (ha : V a) (hb : V b) (h : f a = f b) : a = b := by
  have hrest : f a ++ [] = f b ++ [] := by rw [h]
  exact (hf ha hb hrest).1

theorem of_width {k : Nat} (hlen : ∀ a, (f a).length = k)
    (hinj : ∀ a b, V a → V b → f a = f b → a = b) : Delimits f V := by
  intro a b ha hb x y h
  obtain ⟨hab, hxy⟩ := List.append_inj h (by rw [hlen, hlen])
  exact ⟨hinj a b ha hb hab, hxy⟩

theorem prod (hf : Delimits f V) (hg : Delimits g W) :
    Delimits (fun p : α × β => f p.1 ++ g p.2) (fun p => V p.1 ∧ W p.2) := by
  intro p q hp hq x y h
  rw [List.append_assoc, List.append_assoc] at h
  obtain ⟨hfst, hrest⟩ := hf hp.1 hq.1 h
  obtain ⟨hsnd, hxy⟩ := hg hp.2 hq.2 hrest
  exact ⟨Prod.ext hfst hsnd, hxy⟩

theorem framed {len : Nat → List γ} {bound : Nat} (hlen : Delimits len (· < bound)) :
    Delimits (framed len) (fun s => s.length < bound) := by
  intro s t hs ht x y h
  unfold Lib.framed at h
  rw [List.append_assoc, List.append_assoc] at h
  obtain ⟨hl, hrest⟩ := hlen hs ht h
  exact List.append_inj hrest hl

/-- **A list of words is read back**, up to a rest that does not begin with a word. -/
theorem flatMap_append_inj (hf : Delimits f V) {x y : List γ}
    (hx : ∀ a z, V a → x ≠ f a ++ z) (hy : ∀ a z, V a → y ≠ f a ++ z) :
    ∀ {as bs : List α}, (∀ a ∈ as, V a) → (∀ b ∈ bs, V b) →
      as.flatMap f ++ x = bs.flatMap f ++ y → as = bs ∧ x = y
  | [], [], _, _, h => ⟨rfl, h⟩
  | [], b :: bs, _, hbs, h => by
      rw [List.flatMap_nil, List.nil_append, List.flatMap_cons, List.append_assoc] at h
      exact absurd h (hx b _ (hbs b List.mem_cons_self))
  | a :: as, [], has, _, h => by
      rw [List.flatMap_nil, List.nil_append, List.flatMap_cons, List.append_assoc] at h
      exact absurd h.symm (hy a _ (has a List.mem_cons_self))
  | a :: as, b :: bs, has, hbs, h => by
      rw [List.flatMap_cons, List.flatMap_cons, List.append_assoc, List.append_assoc] at h
      obtain ⟨hab, hrest⟩ := hf (has a List.mem_cons_self) (hbs b List.mem_cons_self) h
      obtain ⟨htail, hxy⟩ := flatMap_append_inj hf hx hy
        (fun c hc => has c (List.mem_cons_of_mem a hc))
        (fun c hc => hbs c (List.mem_cons_of_mem b hc)) hrest
      exact ⟨by rw [hab, htail], hxy⟩

end Delimits

/-- What writes one word after another has written the concatenation. -/
theorem foldl_flatMap_of_append {σ : Type*} {f : α → List γ} (out : σ → List γ)
    {write : σ → α → σ} (h : ∀ s a, out (write s a) = out s ++ f a) (as : List α) (s : σ) :
    out (as.foldl write s) = out s ++ as.flatMap f := by
  induction as generalizing s with
  | nil => rw [List.foldl_nil, List.flatMap_nil, List.append_nil]
  | cons a as ih => rw [List.foldl_cons, ih, h, List.flatMap_cons, List.append_assoc]

/-! ## 2. A domain and fields -/

/-- A domain and the fields behind it, each a label and its data, all shorter than `bound`. -/
structure Script (γ : Type*) (bound : Nat) where
  domain : List γ
  fields : List (List γ × List γ)
  domain_lt : domain.length < bound
  fields_lt : ∀ f ∈ fields, f.1.length < bound ∧ f.2.length < bound

namespace Script

variable {bound : Nat} {len : Nat → List γ}

/-- The word of a field: the label behind its length, the data behind its length. -/
def field (len : Nat → List γ) (f : List γ × List γ) : List γ := framed len f.1 ++ framed len f.2

/-- A header, the domain, the fields. -/
def stream (len : Nat → List γ) (header : List γ) (s : Script γ bound) : List γ :=
  header ++ framed len s.domain ++ s.fields.flatMap (field len)

theorem field_delimits (hlen : Delimits len (· < bound)) :
    Delimits (field len) (fun f => f.1.length < bound ∧ f.2.length < bound) :=
  hlen.framed.prod hlen.framed

/-- **The stream determines the script**, also with a rest behind it that does not begin with a
    field. -/
theorem stream_append_inj (hlen : Delimits len (· < bound)) {header : List γ}
    {s s' : Script γ bound} {x y : List γ}
    (hx : ∀ f z, f.1.length < bound ∧ f.2.length < bound → x ≠ field len f ++ z)
    (hy : ∀ f z, f.1.length < bound ∧ f.2.length < bound → y ≠ field len f ++ z)
    (h : s.stream len header ++ x = s'.stream len header ++ y) :
    (s.domain = s'.domain ∧ s.fields = s'.fields) ∧ x = y := by
  unfold stream at h
  simp only [List.append_assoc] at h
  obtain ⟨hdomain, hrest⟩ := hlen.framed s.domain_lt s'.domain_lt (List.append_cancel_left h)
  obtain ⟨hfields, hxy⟩ :=
    (field_delimits hlen).flatMap_append_inj hx hy s.fields_lt s'.fields_lt hrest
  exact ⟨⟨hdomain, hfields⟩, hxy⟩

/-- Where a length is never written as nothing, streams are equal for equal scripts only. -/
theorem stream_inj_iff (hlen : Delimits len (· < bound)) (hne : ∀ n, len n ≠ [])
    {header : List γ} {s s' : Script γ bound} :
    s.stream len header = s'.stream len header ↔
      s.domain = s'.domain ∧ s.fields = s'.fields := by
  have hend : ∀ f z, f.1.length < bound ∧ f.2.length < bound → [] ≠ field len f ++ z := by
    intro f z _ h
    unfold field framed at h
    simp only [List.append_assoc, List.nil_eq_append_iff] at h
    exact hne _ h.1
  constructor
  · intro h
    have hrest : s.stream len header ++ [] = s'.stream len header ++ [] := by rw [h]
    exact (stream_append_inj hlen hend hend hrest).1
  · intro ⟨hdomain, hfields⟩
    unfold stream
    rw [hdomain, hfields]

end Script

end Lib
