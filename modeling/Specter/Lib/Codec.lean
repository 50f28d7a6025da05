/-
  File:      Specter/Lib/Codec.lean
  Subject:   DECODERS COMPARED: with an encoder, with a stricter decoder, with one that may
             panic. No program fact.

  * `Fault` -- a panic, or an error that is returned; `total r` is the decoder `r` seen as one
    that may panic and does not;
  * `Local r` -- `r` depends on the bytes it consumes alone: it answers the same in every buffer
    that holds them, and its position stays inside;
  * `Codes x y V` -- `x` is the part of `y` that accepts only what an encoder writes: where `y`
    answers `a`, having to be coded as `bs` by `V`, `x` answers exactly where `bs` is ahead.
    The rules follow the shape of a decoder.
-/
import Specter.Lib.Reader

namespace Lib

/-- A panic, or an error of the program. -/
inductive Fault (ε : Type) where
  | panic
  | error (e : ε)
  deriving DecidableEq

namespace Reader

variable {ε α β : Type}

/-- The monad of the decoders. -/
abbrev M (ε : Type) := ReaderT Bytes (StateT Nat (Except ε))

theorem run_ofOption_ok {o : Option α} {e : Nat → ε} {data : Bytes} {pos pos' : Nat} {a : α}
    (h : (ofOption o e).run data pos = .ok (a, pos')) : o = some a ∧ pos' = pos := by
  cases o with
  | none => cases h
  | some b =>
      cases h
      exact ⟨rfl, rfl⟩

theorem run_ensure_eq {p : Prop} [Decidable p] {e : ε} {data : Bytes} {pos pos' : Nat} {u : Unit}
    (h : (ensure p e).run data pos = .ok (u, pos')) : p ∧ pos' = pos := by
  refine ⟨run_ensure_ok h, ?_⟩
  unfold ensure at h
  rw [if_pos (run_ensure_ok h)] at h
  cases h
  rfl

theorem run_ensure_of {p : Prop} [Decidable p] (hp : p) (e : ε) (data : Bytes) (pos : Nat) :
    (ensure p e).run data pos = .ok ((), pos) := by
  unfold ensure
  rw [if_pos hp]
  rfl

/-- A successful start is the run with its answer. -/
theorem decode_ok_iff {r : Reader ε α} {data : Bytes} {a : α} :
    r.decode data = .ok a ↔ ∃ pos, r.run data 0 = .ok (a, pos) := by
  unfold decode
  cases r.run data 0 with
  | error e =>
      constructor
      · intro h
        cases h
      · rintro ⟨pos, h⟩
        cases h
  | ok p =>
      constructor
      · intro h
        cases h
        exact ⟨p.2, rfl⟩
      · rintro ⟨pos, h⟩
        cases h
        rfl

/-! ## 1. Panics -/

/-- The decoder among those that may panic. -/
def total (r : Reader ε α) : Reader (Fault ε) α := fun data pos =>
  (r data pos).mapError Fault.error

theorem total_bind (r : Reader ε α) (f : α → Reader ε β) :
    total (r >>= f) = total r >>= fun a => total (f a) := by
  funext data pos
  show (r data pos >>= fun p => f p.1 data p.2).mapError Fault.error =
    ((r data pos).mapError Fault.error >>= fun p => (f p.1 data p.2).mapError Fault.error)
  cases r data pos with
  | error e => rfl
  | ok p => rfl

/-- What is returned, as an answer or as an error, is no panic. -/
theorem mapError_ne_panic (x : Except ε α) : x.mapError Fault.error ≠ .error Fault.panic := by
  cases x with
  | error e => exact fun h => (nomatch h)
  | ok a => exact fun h => (nomatch h)

/-! ## 2. Locality -/

/-- The decoder depends on the bytes it consumes, and on nothing behind them. -/
structure Local (r : Reader ε α) : Prop where
  extension : ∀ {data : Bytes} {pos pos' : Nat} {a : α} (ext : Bytes),
    r.run data pos = .ok (a, pos') → r.run (data ++ ext) pos = .ok (a, pos')
  restriction : ∀ {data ext : Bytes} {pos pos' : Nat} {a : α},
    r.run (data ++ ext) pos = .ok (a, pos') → pos' ≤ data.length →
      r.run data pos = .ok (a, pos')
  advance : ∀ {data : Bytes} {pos pos' : Nat} {a : α},
    r.run data pos = .ok (a, pos') → pos ≤ pos'
  inside : ∀ {data : Bytes} {pos pos' : Nat} {a : α},
    pos ≤ data.length → r.run data pos = .ok (a, pos') → pos' ≤ data.length

theorem Local.pure (a : α) : Local (pure a : Reader ε α) where
  extension := by
    intro data pos pos' b ext h
    rw [run_pure] at h ⊢
    exact h
  restriction := by
    intro data ext pos pos' b h _
    rw [run_pure] at h ⊢
    exact h
  advance := by
    intro data pos pos' b h
    rw [run_pure] at h
    cases h
    exact Nat.le_refl _
  inside := by
    intro data pos pos' b hpos h
    rw [run_pure] at h
    cases h
    exact hpos

theorem Local.bind {r : Reader ε α} {f : α → Reader ε β} (hr : Local r)
    (hf : ∀ a, Local (f a)) : Local (r >>= f) where
  extension := by
    intro data pos pos' b ext h
    obtain ⟨a, mid, ha, hb⟩ := run_bind_ok h
    rw [run_bind_of_ok (hr.extension ext ha)]
    exact (hf a).extension ext hb
  restriction := by
    intro data ext pos pos' b h hle
    obtain ⟨a, mid, ha, hb⟩ := run_bind_ok h
    -- the second part starts where the first ended, so that is inside as well
    have hmid : mid ≤ data.length := Nat.le_trans ((hf a).advance hb) hle
    rw [run_bind_of_ok (hr.restriction ha hmid)]
    exact (hf a).restriction hb hle
  advance := by
    intro data pos pos' b h
    obtain ⟨a, mid, ha, hb⟩ := run_bind_ok h
    exact Nat.le_trans (hr.advance ha) ((hf a).advance hb)
  inside := by
    intro data pos pos' b hpos h
    obtain ⟨a, mid, ha, hb⟩ := run_bind_ok h
    exact (hf a).inside (hr.inside hpos ha) hb

/-- A decoder that looks at the position alone and does not move it. -/
theorem Local.still {r : Reader ε α}
    (hsame : ∀ (data data' : Bytes) (pos : Nat), r.run data pos = r.run data' pos)
    (hstay : ∀ {data : Bytes} {pos pos' : Nat} {a : α},
      r.run data pos = .ok (a, pos') → pos' = pos) : Local r where
  extension := by
    intro data pos pos' a ext h
    rw [hsame _ data]
    exact h
  restriction := by
    intro data ext pos pos' a h _
    rw [hsame _ (data ++ ext)]
    exact h
  advance := by
    intro data pos pos' a h
    exact Nat.le_of_eq (hstay h).symm
  inside := by
    intro data pos pos' a hpos h
    rwa [hstay h]

theorem Local.ofOption (o : Option α) (e : Nat → ε) : Local (ofOption o e) :=
  .still (fun _ _ _ => rfl) fun h => (run_ofOption_ok h).2

theorem Local.throw (e : ε) : Local (throw e : Reader ε α) :=
  .still (fun _ _ _ => rfl) fun h => (nomatch h)

/-! ## 3. A decoder and the encoder it belongs to -/

/-- Where `y` answers `a`, some `bs` with `V a bs` is what an encoder writes for `a`, and `x`
    answers, with the same `a`, exactly where `bs` is ahead. -/
structure Codes (x y : Reader ε α) (V : α → Bytes → Prop) : Prop where
  refines : ∀ {data : Bytes} {pos pos' : Nat} {a : α},
    x.run data pos = .ok (a, pos') → y.run data pos = .ok (a, pos')
  codes : ∀ {data : Bytes} {pos pos' : Nat} {a : α}, y.run data pos = .ok (a, pos') →
    ∃ bs, V a bs ∧
      (x.run data pos = .ok (a, pos') → data.drop pos = bs ++ data.drop pos') ∧
      ∀ rest, data.drop pos = bs ++ rest → x.run data pos = .ok (a, pos')

theorem Codes.pure {V : α → Bytes → Prop} {a : α} (h : V a []) :
    Codes (pure a : Reader ε α) (pure a) V where
  refines := id
  codes := by
    intro data pos pos' b hb
    rw [run_pure] at hb
    cases hb
    exact ⟨[], h, fun _ => rfl, fun _ _ => run_pure a data pos⟩

/-- **In sequence**: what the parts write stands one behind the other. -/
theorem Codes.bind {x y : Reader ε α} {g h : α → Reader ε β} {V : α → Bytes → Prop}
    {W : β → Bytes → Prop} (hxy : Codes x y V)
    (hgh : ∀ a bs, V a bs → Codes (g a) (h a) fun b cs => W b (bs ++ cs)) :
    Codes (x >>= g) (y >>= h) W where
  refines := by
    intro data pos pos' b hb
    obtain ⟨a, mid, ha, hga⟩ := run_bind_ok hb
    have hya := hxy.refines ha
    obtain ⟨bs, hV, _⟩ := hxy.codes hya
    rw [run_bind_of_ok hya]
    exact (hgh a bs hV).refines hga
  codes := by
    intro data pos pos' b hb
    obtain ⟨a, mid, hya, hha⟩ := run_bind_ok hb
    obtain ⟨bs, hV, hsplit, hx⟩ := hxy.codes hya
    obtain ⟨cs, hW, hsplit', hg⟩ := (hgh a bs hV).codes hha
    refine ⟨bs ++ cs, hW, fun hrun => ?_, fun rest hrest => ?_⟩
    · obtain ⟨a', mid', hxa, hga⟩ := run_bind_ok hrun
      have hsame := hxy.refines hxa
      rw [hya] at hsame
      cases hsame
      rw [hsplit hxa, hsplit' hga, List.append_assoc]
    · rw [List.append_assoc] at hrest
      have hxa := hx _ hrest
      -- `x` has consumed `bs`, so `cs` is what is left
      have hmid : data.drop mid = cs ++ rest :=
        List.append_cancel_left ((hsplit hxa).symm.trans hrest)
      rw [run_bind_of_ok hxa]
      exact hg rest hmid

theorem Codes.imp {x y : Reader ε α} {V W : α → Bytes → Prop} (h : Codes x y V)
    (hVW : ∀ a bs, V a bs → W a bs) : Codes x y W where
  refines := h.refines
  codes := by
    intro data pos pos' a ha
    obtain ⟨bs, hV, hsplit, hx⟩ := h.codes ha
    exact ⟨bs, hVW a bs hV, hsplit, hx⟩

/-- A decoder that accepts nothing but what the encoder writes. -/
theorem Codes.exact {r : Reader ε α} {V : α → Bytes → Prop}
    (h : ∀ {data : Bytes} {pos pos' : Nat} {a : α}, r.run data pos = .ok (a, pos') →
      ∃ bs, V a bs ∧ data.drop pos = bs ++ data.drop pos') : Codes r r V where
  refines := id
  codes := by
    intro data pos pos' a ha
    obtain ⟨bs, hV, hsplit⟩ := h ha
    exact ⟨bs, hV, fun _ => hsplit, fun _ _ => ha⟩

/-- A further test on the bytes of one field, passed exactly by what the encoder writes. -/
theorem Codes.refuse {r : Reader ε α} {p : α → Prop} [DecidablePred p] {e : ε}
    {V : α → Bytes → Prop}
    (h : ∀ {data : Bytes} {pos pos' : Nat} {a : α}, r.run data pos = .ok (a, pos') →
      ∃ bs, V a bs ∧ (p a → data.drop pos = bs ++ data.drop pos') ∧
        ∀ rest, data.drop pos = bs ++ rest → p a) :
    Codes (r >>= fun a => Reader.ensure (p a) e >>= fun _ => Pure.pure a) r V where
  refines := by
    intro data pos pos' a ha
    obtain ⟨b, mid, hb, hrest⟩ := run_bind_ok ha
    obtain ⟨_, mid', hens, hpure⟩ := run_bind_ok hrest
    obtain ⟨_, rfl⟩ := run_ensure_eq hens
    rw [run_pure] at hpure
    cases hpure
    exact hb
  codes := by
    intro data pos pos' a ha
    obtain ⟨bs, hV, hsplit, hp⟩ := h ha
    refine ⟨bs, hV, fun hrun => ?_, fun rest hrest => ?_⟩
    · obtain ⟨b, mid, hb, hrest⟩ := run_bind_ok hrun
      obtain ⟨_, mid', hens, hpure⟩ := run_bind_ok hrest
      rw [ha] at hb
      cases hb
      exact hsplit (run_ensure_eq hens).1
    · rw [run_bind_of_ok ha, run_bind_of_ok (run_ensure_of (hp rest hrest) e data pos')]
      exact run_pure a data pos'

/-- **The canonical inputs**: where `y` answers `a` on a whole buffer, `x` does and nothing is
    left exactly where the buffer is what is written for `a`. -/
theorem Codes.decode_iff {x y : Reader ε α} {w : α → Bytes}
    (h : Codes x y fun a bs => bs = w a) {data : Bytes} {a : α} {pos : Nat}
    (hy : y.run data 0 = .ok (a, pos)) :
    (x.run data 0 = .ok (a, pos) ∧ data.length ≤ pos) ↔ w a = data := by
  obtain ⟨bs, rfl, hsplit, hx⟩ := h.codes hy
  constructor
  · rintro ⟨hrun, hle⟩
    have hdata := hsplit hrun
    rw [List.drop_zero, List.drop_of_length_le hle, List.append_nil] at hdata
    exact hdata.symm
  · intro hw
    have hrun := hx [] (by rw [List.drop_zero, List.append_nil, hw])
    have hdata := hsplit hrun
    rw [List.drop_zero, hw, List.self_eq_append_right] at hdata
    exact ⟨hrun, List.drop_eq_nil_iff.mp hdata⟩

end Reader

end Lib
