/-
  File:      Specter/Lib/Reader.lean
  Subject:   READING A BYTE BUFFER FROM A POSITION, with errors. No program fact.

  * `Reader ε α` -- a decoder: the buffer is fixed, the position moves, an error stops it;
  * `Ahead data pos rest` -- what is still to be read;
  * `Reads r bs a` -- wherever `bs` is ahead, `r` answers `a` and moves behind it; the rules
    `Reads.pure`, `Reads.bind`, `Reads.replicateM` follow the shape of a decoder, so a round
    trip is proved field by field;
  * `Rejects r bs` -- wherever `bs` is ahead, `r` ends in an error;
  * `ReadsIf p r bs a` -- `r` reads `a` exactly under the condition `p`: each check of a decoder
    adds its test (`ReadsIf.ensure`), so one derivation gives the round trip and its limits;
  * `Yields r Q` -- whatever the buffer, an answer of `r` satisfies `Q`.
-/
import Specter.Lib.Bytes

namespace Lib

/-- A decoder over a fixed buffer: the position is the state. -/
abbrev Reader (ε α : Type) := ReaderT Bytes (StateT Nat (Except ε)) α

namespace Reader

variable {ε α β : Type}

/-- The decoder on a buffer, from a position. -/
def run (r : Reader ε α) (data : Bytes) (pos : Nat) : Except ε (α × Nat) := r data pos

/-- The answer of a decoder started at the beginning. -/
def decode (r : Reader ε α) (data : Bytes) : Except ε α := (r.run data 0).map Prod.fst

/-- Stop with `e` unless `p` holds. -/
def ensure (p : Prop) [Decidable p] (e : ε) : Reader ε Unit :=
  if p then pure () else throw e

/-- An optional value, or the error its absence is at the current position. -/
def ofOption (o : Option α) (e : Nat → ε) : Reader ε α := fun _ pos =>
  match o with
  | some a => .ok (a, pos)
  | none => .error (e pos)

/-- Whether `n` more bytes are there. -/
def available (n : Nat) : Reader ε Bool := fun data pos =>
  .ok (decide (pos + n ≤ data.length), pos)

/-- `n` rounds of one decoder. -/
def replicateM (r : Reader ε α) : Nat → Reader ε (List α)
  | 0 => pure []
  | n + 1 => do
      let a ← r
      let as ← replicateM r n
      pure (a :: as)

@[simp] theorem run_pure (a : α) (data : Bytes) (pos : Nat) :
    (pure a : Reader ε α).run data pos = .ok (a, pos) := rfl

theorem run_bind (r : Reader ε α) (f : α → Reader ε β) (data : Bytes) (pos : Nat) :
    (r >>= f).run data pos =
      match r.run data pos with
      | .error e => .error e
      | .ok (a, pos') => (f a).run data pos' := by
  show (r data pos >>= fun p => f p.1 data p.2) = _
  unfold run
  cases r data pos with
  | error e => rfl
  | ok p => rfl

theorem run_bind_of_ok {r : Reader ε α} {f : α → Reader ε β} {data : Bytes} {pos pos' : Nat}
    {a : α} (h : r.run data pos = .ok (a, pos')) :
    (r >>= f).run data pos = (f a).run data pos' := by
  rw [run_bind, h]

/-- **A successful sequence taken apart.** -/
theorem run_bind_ok {r : Reader ε α} {f : α → Reader ε β} {data : Bytes} {pos pos'' : Nat}
    {b : β} (h : (r >>= f).run data pos = .ok (b, pos'')) :
    ∃ a pos', r.run data pos = .ok (a, pos') ∧ (f a).run data pos' = .ok (b, pos'') := by
  rw [run_bind] at h
  cases hr : r.run data pos with
  | error e =>
      rw [hr] at h
      cases h
  | ok p =>
      rw [hr] at h
      exact ⟨p.1, p.2, rfl, h⟩

theorem run_ensure_ok {p : Prop} [Decidable p] {e : ε} {data : Bytes} {pos pos' : Nat}
    (h : (ensure p e).run data pos = .ok ((), pos')) : p := by
  unfold ensure at h
  by_cases hp : p
  · exact hp
  · rw [if_neg hp] at h
    cases h

/-! ## 1. What is ahead -/

/-- The position is inside the buffer and `rest` is what stands from there on. -/
structure Ahead (data : Bytes) (pos : Nat) (rest : Bytes) : Prop where
  le : pos ≤ data.length
  drop : data.drop pos = rest

theorem Ahead.start (data : Bytes) : Ahead data 0 data := ⟨Nat.zero_le _, List.drop_zero⟩

theorem Ahead.length {data rest : Bytes} {pos : Nat} (h : Ahead data pos rest) :
    pos + rest.length = data.length := by
  have := h.le
  rw [← h.drop, List.length_drop]
  omega

theorem Ahead.advance {data bs rest : Bytes} {pos : Nat} (h : Ahead data pos (bs ++ rest)) :
    Ahead data (pos + bs.length) rest := by
  refine ⟨?_, ?_⟩
  · have := h.length
    rw [List.length_append] at this
    omega
  · rw [← List.drop_drop, h.drop, List.drop_left]

/-! ## 2. Reading a given encoding -/

/-- Wherever `bs` is ahead, `r` answers `a` and moves behind it. -/
def Reads (r : Reader ε α) (bs : Bytes) (a : α) : Prop :=
  ∀ (data : Bytes) (pos : Nat) (rest : Bytes), Ahead data pos (bs ++ rest) →
    r.run data pos = .ok (a, pos + bs.length)

/-- Wherever `bs` is ahead, `r` ends in an error. -/
def Rejects (r : Reader ε α) (bs : Bytes) : Prop :=
  ∀ (data : Bytes) (pos : Nat) (rest : Bytes), Ahead data pos (bs ++ rest) →
    ∃ e, r.run data pos = .error e

theorem Reads.pure (a : α) : Reads (pure a : Reader ε α) [] a := by
  intro data pos rest _
  exact run_pure a data pos

theorem Reads.bind {r : Reader ε α} {f : α → Reader ε β} {bs cs : Bytes} {a : α} {b : β}
    (hr : Reads r bs a) (hf : Reads (f a) cs b) : Reads (r >>= f) (bs ++ cs) b := by
  intro data pos rest h
  rw [List.append_assoc] at h
  rw [run_bind_of_ok (hr data pos _ h), hf data _ rest h.advance, List.length_append,
    Nat.add_assoc]

/-- The last step of a sequence only assembles the answer. -/
theorem Reads.map {r : Reader ε α} {f : α → β} {bs : Bytes} {a : α} (hr : Reads r bs a) :
    Reads (r >>= fun x => Pure.pure (f x)) bs (f a) := by
  have h := Reads.bind (f := fun x => Pure.pure (f x)) hr (Reads.pure (f a))
  rwa [List.append_nil] at h

theorem Reads.ofOption {o : Option α} {e : Nat → ε} {a : α} (h : o = some a) :
    Reads (ofOption o e) [] a := by
  intro data pos rest _
  subst h
  rfl

/-- A list of fields read one after the other. -/
theorem Reads.replicateM {r : Reader ε α} {enc : α → Bytes} :
    ∀ as : List α, (∀ a ∈ as, Reads r (enc a) a) →
      Reads (replicateM r as.length) (as.flatMap enc) as
  | [], _ => Reads.pure []
  | a :: as, h => by
      rw [List.flatMap_cons]
      have ih := Reads.replicateM as fun x hx => h x (List.mem_cons_of_mem a hx)
      exact Reads.bind (h a List.mem_cons_self) (Reads.map ih)

theorem Reads.decode {r : Reader ε α} {bs : Bytes} {a : α} (h : Reads r bs a) :
    r.decode bs = .ok a := by
  have hrun := h bs 0 [] (by rw [List.append_nil]; exact Ahead.start bs)
  unfold Reader.decode
  rw [hrun]
  rfl

theorem Rejects.left {r : Reader ε α} {f : α → Reader ε β} {bs : Bytes} (h : Rejects r bs) :
    Rejects (r >>= f) bs := by
  intro data pos rest hd
  obtain ⟨e, he⟩ := h data pos rest hd
  exact ⟨e, by rw [run_bind, he]⟩

theorem Rejects.right {r : Reader ε α} {f : α → Reader ε β} {bs cs : Bytes} {a : α}
    (hr : Reads r bs a) (hf : Rejects (f a) cs) : Rejects (r >>= f) (bs ++ cs) := by
  intro data pos rest h
  rw [List.append_assoc] at h
  obtain ⟨e, he⟩ := hf data _ rest h.advance
  exact ⟨e, by rw [run_bind_of_ok (hr data pos _ h), he]⟩

theorem Rejects.append {r : Reader ε α} {bs : Bytes} (cs : Bytes) (h : Rejects r bs) :
    Rejects r (bs ++ cs) := by
  intro data pos rest hd
  rw [List.append_assoc] at hd
  exact h data pos (cs ++ rest) hd

theorem Rejects.decode {r : Reader ε α} {bs : Bytes} (h : Rejects r bs) :
    ∃ e, r.decode bs = .error e := by
  obtain ⟨e, he⟩ := h bs 0 [] (by rw [List.append_nil]; exact Ahead.start bs)
  refine ⟨e, ?_⟩
  unfold Reader.decode
  rw [he]
  rfl

/-! ## 3. Reading under a condition -/

/-- `r` reads `a` from `bs` where `p` holds, and rejects `bs` where it does not. -/
structure ReadsIf (p : Prop) (r : Reader ε α) (bs : Bytes) (a : α) : Prop where
  reads : p → Reads r bs a
  rejects : ¬ p → Rejects r bs

theorem Reads.always {r : Reader ε α} {bs : Bytes} {a : α} (h : Reads r bs a) :
    ReadsIf True r bs a :=
  ⟨fun _ => h, fun hn => absurd trivial hn⟩

theorem ReadsIf.congr {p q : Prop} {r : Reader ε α} {bs : Bytes} {a : α} (h : ReadsIf p r bs a)
    (hpq : p ↔ q) : ReadsIf q r bs a :=
  ⟨fun hq => h.reads (hpq.mpr hq), fun hq => h.rejects fun hp => hq (hpq.mp hp)⟩

/-- An unconditional field, then the rest under its condition. -/
theorem ReadsIf.bind {p : Prop} {r : Reader ε α} {f : α → Reader ε β} {bs cs : Bytes} {a : α}
    {b : β} (hr : Reads r bs a) (hf : ReadsIf p (f a) cs b) :
    ReadsIf p (r >>= f) (bs ++ cs) b :=
  ⟨fun hp => Reads.bind hr (hf.reads hp), fun hp => Rejects.right hr (hf.rejects hp)⟩

/-- Two conditional parts: the sequence reads where both do. -/
theorem ReadsIf.both {p q : Prop} {r : Reader ε α} {f : α → Reader ε β} {bs cs : Bytes} {a : α}
    {b : β} (hr : ReadsIf p r bs a) (hf : ReadsIf q (f a) cs b) :
    ReadsIf (p ∧ q) (r >>= f) (bs ++ cs) b := by
  refine ⟨fun h => Reads.bind (hr.reads h.1) (hf.reads h.2), fun h => ?_⟩
  by_cases hp : p
  · exact Rejects.right (hr.reads hp) (hf.rejects fun hq => h ⟨hp, hq⟩)
  · exact (hr.rejects hp).left.append cs

theorem readsIf_ensure {p : Prop} [Decidable p] {e : ε} : ReadsIf p (ensure p e) [] () := by
  constructor
  · intro hp data pos rest _
    unfold Reader.ensure
    rw [if_pos hp]
    rfl
  · intro hp data pos rest _
    unfold Reader.ensure
    rw [if_neg hp]
    exact ⟨e, rfl⟩

/-- A conditional step that reads nothing. -/
theorem ReadsIf.silent {p q : Prop} {r : Reader ε α} {f : α → Reader ε β} {cs : Bytes} {a : α}
    {b : β} (hr : ReadsIf p r [] a) (hf : ReadsIf q (f a) cs b) :
    ReadsIf (p ∧ q) (r >>= f) cs b :=
  ReadsIf.both hr hf

/-- A check adds its test to the condition. -/
theorem ReadsIf.ensure {p q : Prop} [Decidable p] {e : ε} {f : Unit → Reader ε β} {cs : Bytes}
    {b : β} (hf : ReadsIf q (f ()) cs b) : ReadsIf (p ∧ q) (ensure p e >>= f) cs b :=
  readsIf_ensure.silent hf

theorem run_available_bind {f : Bool → Reader ε β} {n : Nat} {data cs rest : Bytes} {pos : Nat}
    (hn : n ≤ cs.length) (h : Ahead data pos (cs ++ rest)) :
    (available n >>= f).run data pos = (f true).run data pos := by
  have hlen := h.length
  rw [List.length_append] at hlen
  have hav : (available n : Reader ε Bool).run data pos = .ok (true, pos) := by
    show Except.ok (decide (pos + n ≤ data.length), pos) = _
    rw [decide_eq_true (by omega)]
  exact run_bind_of_ok hav

/-- The question for `n` more bytes is answered by what is ahead. -/
theorem ReadsIf.available {p : Prop} {f : Bool → Reader ε β} {n : Nat} {cs : Bytes} {b : β}
    (hn : n ≤ cs.length) (hf : ReadsIf p (f true) cs b) :
    ReadsIf p (Reader.available n >>= f) cs b := by
  constructor
  · intro hp data pos rest h
    rw [run_available_bind hn h]
    exact hf.reads hp data pos rest h
  · intro hp data pos rest h
    rw [run_available_bind hn h]
    exact hf.rejects hp data pos rest h

theorem ReadsIf.decode {p : Prop} {r : Reader ε α} {bs : Bytes} {a b : α}
    (h : ReadsIf p r bs a) : r.decode bs = .ok b ↔ p ∧ b = a := by
  by_cases hp : p
  · rw [(h.reads hp).decode]
    constructor
    · intro hb
      cases hb
      exact ⟨hp, rfl⟩
    · rintro ⟨_, rfl⟩
      rfl
  · obtain ⟨e, he⟩ := (h.rejects hp).decode
    rw [he]
    exact ⟨fun hb => (nomatch hb), fun hb => absurd hb.1 hp⟩

/-! ## 4. What every answer satisfies -/

/-- Whatever the buffer, an answer of `r` satisfies `Q`. -/
def Yields (r : Reader ε α) (Q : α → Prop) : Prop :=
  ∀ (data : Bytes) (pos : Nat) (a : α) (pos' : Nat), r.run data pos = .ok (a, pos') → Q a

theorem Yields.pure {Q : α → Prop} {a : α} (h : Q a) : Yields (pure a : Reader ε α) Q := by
  intro data pos b pos' hb
  rw [run_pure] at hb
  cases hb
  exact h

theorem Yields.bind {r : Reader ε α} {f : α → Reader ε β} {Q : α → Prop} {R : β → Prop}
    (hr : Yields r Q) (hf : ∀ a, Q a → Yields (f a) R) : Yields (r >>= f) R := by
  intro data pos b pos'' h
  obtain ⟨a, pos', ha, hb⟩ := run_bind_ok h
  exact hf a (hr data pos a pos' ha) data pos' b pos'' hb

theorem Yields.any (r : Reader ε α) : Yields r fun _ => True := fun _ _ _ _ _ => trivial

theorem Yields.ensure {p : Prop} [Decidable p] {e : ε} : Yields (ensure p e) fun _ => p :=
  fun _ _ _ _ h => run_ensure_ok h

theorem Yields.replicateM {r : Reader ε α} : ∀ n : Nat,
    Yields (replicateM r n) fun as => as.length = n
  | 0 => Yields.pure rfl
  | n + 1 => .bind (.any r) fun _ _ => .bind (Yields.replicateM n) fun as has =>
      .pure (by rw [List.length_cons, has])

theorem Yields.decode {r : Reader ε α} {Q : α → Prop} (h : Yields r Q) {data : Bytes} {a : α}
    (ha : r.decode data = .ok a) : Q a := by
  unfold Reader.decode at ha
  cases hr : r.run data 0 with
  | error e =>
      rw [hr] at ha
      cases ha
  | ok p =>
      rw [hr] at ha
      cases ha
      exact h data 0 p.1 p.2 hr

end Reader

end Lib
