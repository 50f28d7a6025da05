/-
  File:      Specter/Sbt/Transcript.lean
  Subject:   WHAT THE TRANSCRIPTS HASH (specter-sbt/src/transcript.rs, proof.rs, beside
             specter-fold/src/transcript.rs).

  * `Transcript.absorbed_eq` -- after a domain and fields the sponge has absorbed a stream in
    which the length of every string stands before it;
  * `transcripts_unambiguous` -- below 2^64 bytes a string, each of the two transcripts absorbs
    the same bytes for the same domain and fields only;
  * `DdhStatement`, `TokenStatement` -- what the two proofs are about; their challenges are made
    from bytes that determine it (`DdhStatement.input_inj`, `TokenStatement.input_inj`), and never
    from the same bytes (`ddh_input_ne_token_input`);
  * `challenges_bind` -- so a challenge binds what it is drawn for, unless the hash collides.
-/
import Specter.Fold.Transcript
import Specter.Sbt.Oprf

namespace Specter

open Lib

variable {S P : Type} [Field S] [AddCommGroup P] [Module S P]

namespace Sbt

/-! ## 1. The stream -/

/-- `(n as u64).to_be_bytes()`, for a length. -/
def lenBE (n : Nat) : Bytes := (leBytes 8 n).reverse

theorem length_lenBE (n : Nat) : (lenBE n).length = 8 := by
  unfold lenBE
  rw [List.length_reverse, length_leBytes]

theorem lenBE_delimits : Delimits lenBE (· < 2 ^ 64) :=
  Delimits.of_width length_lenBE fun _ _ hm hn h =>
    leBytes_inj (k := 8) (by omega) (by omega) (List.reverse_injective h)

namespace Transcript

/-- The transcript after a domain and fields. -/
def ofScript {bound : Nat} (s : Script UInt8 bound) : Transcript :=
  s.fields.foldl (fun tr f => tr.appendBytes f.1 f.2) (new s.domain)

theorem appendBytes_absorbed (tr : Transcript) (f : Bytes × Bytes) :
    (tr.appendBytes f.1 f.2).absorbed = tr.absorbed ++ Script.field lenBE f := by
  simp only [appendBytes, lenBytes, Script.field, framed, lenBE, List.append_assoc]

/-- **A script is absorbed as its stream.** -/
theorem absorbed_eq {bound : Nat} (s : Script UInt8 bound) :
    (ofScript s).absorbed = s.stream lenBE (ascii "SPECTER-SBT-TRANSCRIPT-v1/") := by
  unfold ofScript
  rw [foldl_flatMap_of_append Transcript.absorbed appendBytes_absorbed]
  simp only [new, lenBytes, Script.stream, framed, lenBE, List.append_assoc]

theorem ofScript_inj_iff {s s' : Script UInt8 (2 ^ 64)} :
    (ofScript s).absorbed = (ofScript s').absorbed ↔
      s.domain = s'.domain ∧ s.fields = s'.fields := by
  rw [absorbed_eq, absorbed_eq]
  exact Script.stream_inj_iff lenBE_delimits
    (fun n => List.ne_nil_of_length_eq_add_one (length_lenBE n))

-- the two appends whose plain concatenations are the same
example :
    (((new (ascii "x")).appendBytes (ascii "m") (ascii "ab")).appendBytes (ascii "m")
      (ascii "cd")).absorbed ≠
    (((new (ascii "x")).appendBytes (ascii "m") (ascii "abc")).appendBytes (ascii "m")
      (ascii "d")).absorbed := by
  decide

end Transcript

end Sbt

/-- **Neither transcript is ambiguous**: the bytes absorbed for a domain and a list of fields, in
    strings of less than 2^64 bytes, are absorbed for no other domain and fields. -/
theorem transcripts_unambiguous (s s' : Script UInt8 (2 ^ 64)) :
    ((Fold.Transcript.ofScript s).absorbed = (Fold.Transcript.ofScript s').absorbed ↔
      s.domain = s'.domain ∧ s.fields = s'.fields) ∧
    ((Sbt.Transcript.ofScript s).absorbed = (Sbt.Transcript.ofScript s').absorbed ↔
      s.domain = s'.domain ∧ s.fields = s'.fields) := by
  refine ⟨?_, Sbt.Transcript.ofScript_inj_iff⟩
  rw [Fold.Transcript.absorbed_eq, Fold.Transcript.absorbed_eq]
  exact Script.stream_inj_iff (Fold.lenLE_delimits le_rfl)
    (fun n => List.ne_nil_of_length_eq_add_one (Fold.length_lenLE n))

namespace Sbt

/-! ## 2. What the two proofs are about -/

/-- What a proof of equal discrete logs is about, and its nonces. -/
@[ext]
structure DdhStatement (P : Type) where
  g : P
  h : P
  a : P
  b : P
  sessionId : Bytes
  trusteeIndex : UInt32
  tG : P
  tH : P
  session_lt : sessionId.length < 2 ^ 64

/-- What a token proof is about, and its nonce. -/
@[ext]
structure TokenStatement (P : Type) where
  params : PedersenParams P
  commitment : P
  p : P
  tag : P
  context : Bytes
  y : P
  t : P
  context_lt : context.length < 2 ^ 64

/-- A point as a field, under its name. -/
def pointField (C : Suite S P) (name : String) (p : P) : Bytes × Bytes :=
  (ascii name, (C.compress p).toList)

theorem toList_compress_inj {C : Suite S P} {p q : P} :
    (C.compress p).toList = (C.compress q).toList ↔ p = q :=
  List.Vector.toList_injective.eq_iff.trans C.compress_inj

theorem reverse_le32_inj {i j : UInt32} : (le32 i).reverse = (le32 j).reverse ↔ i = j := by
  refine ⟨fun h => ?_, fun h => by rw [h]⟩
  exact UInt32.toNat_inj.mp
    (leBytes_inj (k := 4) i.toNat_lt j.toNat_lt (List.reverse_injective h))

namespace DdhStatement

variable {C : Suite S P} {x x' : DdhStatement P}

def fields (C : Suite S P) (x : DdhStatement P) : List (Bytes × Bytes) :=
  [(ascii "session", x.sessionId), (ascii "trustee", (le32 x.trusteeIndex).reverse),
    pointField C "G" x.g, pointField C "H" x.h, pointField C "A" x.a, pointField C "B" x.b,
    pointField C "T_G" x.tG, pointField C "T_H" x.tH, (ascii "c", [])]

theorem domain_lt : (ascii "sbt-ddh-eq").length < 2 ^ 64 := by decide

theorem fields_lt : ∀ f ∈ x.fields C, f.1.length < 2 ^ 64 ∧ f.2.length < 2 ^ 64 := by
  simpa [fields, pointField, ascii] using x.session_lt

def script (C : Suite S P) (x : DdhStatement P) : Script UInt8 (2 ^ 64) where
  domain := ascii "sbt-ddh-eq"
  fields := x.fields C
  domain_lt := domain_lt
  fields_lt := fields_lt

/-- What the challenge is made from. -/
def input (C : Suite S P) (x : DdhStatement P) : Bytes :=
  (Transcript.ofScript (x.script C)).absorbed

theorem ddhChallenge_eq : ddhChallenge C x.g x.h x.a x.b x.sessionId x.trusteeIndex x.tG x.tH =
    C.fromBytesModOrderWide (C.shake256 64 (x.input C)) := rfl

/-- **The challenge of the equality proof is made from its whole statement.** -/
theorem input_inj (h : x.input C = x'.input C) : x = x' := by
  have hfields := (Transcript.ofScript_inj_iff.mp h).2
  simp only [script, fields, pointField, List.cons.injEq, Prod.mk.injEq, true_and,
    toList_compress_inj, reverse_le32_inj] at hfields
  obtain ⟨hsid, hi, hg, hh, ha, hb, htG, htH, _⟩ := hfields
  exact DdhStatement.ext hg hh ha hb hsid hi htG htH

end DdhStatement

namespace TokenStatement

variable {C : Suite S P} {x x' : TokenStatement P}

def fields (C : Suite S P) (x : TokenStatement P) : List (Bytes × Bytes) :=
  [(ascii "ctx", x.context), pointField C "gen_g" x.params.g, pointField C "gen_h" x.params.h,
    pointField C "Y" x.y, pointField C "C" x.commitment, pointField C "P" x.p,
    pointField C "T" x.tag, pointField C "t" x.t, (ascii "c", [])]

theorem domain_lt : (ascii "sbt-token-pok-v2").length < 2 ^ 64 := by decide

theorem fields_lt : ∀ f ∈ x.fields C, f.1.length < 2 ^ 64 ∧ f.2.length < 2 ^ 64 := by
  simpa [fields, pointField, ascii] using x.context_lt

def script (C : Suite S P) (x : TokenStatement P) : Script UInt8 (2 ^ 64) where
  domain := ascii "sbt-token-pok-v2"
  fields := x.fields C
  domain_lt := domain_lt
  fields_lt := fields_lt

/-- What the challenge is made from. -/
def input (C : Suite S P) (x : TokenStatement P) : Bytes :=
  (Transcript.ofScript (x.script C)).absorbed

theorem tokenChallenge_eq :
    tokenChallenge C x.params x.commitment x.p x.tag x.context x.y x.t =
      C.fromBytesModOrderWide (C.shake256 64 (x.input C)) := rfl

/-- **The challenge of the token proof is made from its whole statement.** -/
theorem input_inj (h : x.input C = x'.input C) : x = x' := by
  have hfields := (Transcript.ofScript_inj_iff.mp h).2
  simp only [script, fields, pointField, List.cons.injEq, Prod.mk.injEq, true_and,
    toList_compress_inj] at hfields
  obtain ⟨hctx, hg, hh, hy, hcom, hp, htag, ht, _⟩ := hfields
  have hparams : x.params = x'.params := congrArg₂ PedersenParams.mk hg hh
  exact TokenStatement.ext hparams hcom hp htag hctx hy ht

end TokenStatement

/-- The two proofs never draw their challenges from the same bytes. -/
theorem ddh_input_ne_token_input {C : Suite S P} (x : DdhStatement P) (y : TokenStatement P) :
    x.input C ≠ y.input C := by
  intro h
  have hdomain := congrArg List.length (Transcript.ofScript_inj_iff.mp h).1
  exact absurd hdomain (by decide : (ascii "sbt-ddh-eq").length ≠
    (ascii "sbt-token-pok-v2").length)

/-- What one of the two proofs is about. -/
inductive Statement (P : Type) where
  | ddh (x : DdhStatement P)
  | token (y : TokenStatement P)

namespace Statement

variable {C : Suite S P} {x y : Statement P}

def challenge (C : Suite S P) : Statement P → S
  | .ddh x => ddhChallenge C x.g x.h x.a x.b x.sessionId x.trusteeIndex x.tG x.tH
  | .token y => tokenChallenge C y.params y.commitment y.p y.tag y.context y.y y.t

def input (C : Suite S P) : Statement P → Bytes
  | .ddh x => x.input C
  | .token y => y.input C

theorem challenge_eq (C : Suite S P) (x : Statement P) :
    x.challenge C = C.fromBytesModOrderWide (C.shake256 64 (x.input C)) := by
  cases x with
  | ddh x => exact x.ddhChallenge_eq
  | token y => exact y.tokenChallenge_eq

theorem input_inj (h : x.input C = y.input C) : x = y := by
  cases x with
  | ddh x =>
      cases y with
      | ddh y => exact congrArg Statement.ddh (DdhStatement.input_inj h)
      | token y => exact absurd h (ddh_input_ne_token_input x y)
  | token x =>
      cases y with
      | ddh y => exact absurd h.symm (ddh_input_ne_token_input y x)
      | token y => exact congrArg Statement.token (TokenStatement.input_inj h)

end Statement

end Sbt

/-! ## 3. Challenges that agree -/

/-- Two strings that the hash and the reduction bring to one scalar. -/
def Collides (C : Suite S P) (b b' : Bytes) : Prop :=
  b ≠ b' ∧ C.fromBytesModOrderWide (C.shake256 64 b) = C.fromBytesModOrderWide (C.shake256 64 b')

theorem eq_or_collides {C : Suite S P} {b b' : Bytes}
    (h : C.fromBytesModOrderWide (C.shake256 64 b) = C.fromBytesModOrderWide (C.shake256 64 b')) :
    b = b' ∨ Collides C b b' := by
  by_cases he : b = b'
  · exact .inl he
  · exact .inr ⟨he, h⟩

/-- **A challenge binds what it is drawn for**, unless the hash collides: the first challenge of
    the fold's transcript its domain, fields and label, and the challenges of the two token proofs
    which of them it is for, its statement and its nonces. -/
theorem challenges_bind (C : Suite S P) :
    (∀ (s s' : Script UInt8 (2 ^ 62)) (label label' : Bytes), label.length < 2 ^ 64 →
      label'.length < 2 ^ 64 →
      ((Fold.Transcript.ofScript s).challenge C label).1 =
        ((Fold.Transcript.ofScript s').challenge C label').1 →
      ((s.domain = s'.domain ∧ s.fields = s'.fields) ∧ label = label') ∨
        Collides C ((Fold.Transcript.ofScript s).challengeInput label)
          ((Fold.Transcript.ofScript s').challengeInput label')) ∧
    ∀ x y : Sbt.Statement P, x.challenge C = y.challenge C →
      x = y ∨ Collides C (x.input C) (y.input C) := by
  constructor
  · intro s s' label label' hl hl' h
    exact (eq_or_collides h).imp_left (Fold.Transcript.challengeInput_inj hl hl')
  · intro x y h
    rw [Sbt.Statement.challenge_eq, Sbt.Statement.challenge_eq] at h
    exact (eq_or_collides h).imp_left Sbt.Statement.input_inj

/-- Two labels that get one challenge of the sample suite, whose hash does collide. -/
theorem challenges_bind_labels :
    let s : Script UInt8 (2 ^ 62) := ⟨ascii "fold", [], by decide, fun _ h => by cases h⟩
    let label : Bytes := [50, 26, 99, 24, 32, 58, 19, 81, 69, 42, 65, 72, 94, 30]
    Collides sampleSuite ((Fold.Transcript.ofScript s).challengeInput label)
      ((Fold.Transcript.ofScript s).challengeInput (List.replicate 14 60)) := by
  intro s label
  have hsame : ((Fold.Transcript.ofScript s).challenge sampleSuite label).1 =
      ((Fold.Transcript.ofScript s).challenge sampleSuite (List.replicate 14 60)).1 := by
    decide +kernel
  rcases (challenges_bind sampleSuite).1 s s label (List.replicate 14 60) (by decide) (by decide)
    hsame with ⟨_, hlabel⟩ | hcollides
  · exact absurd hlabel (by decide)
  · exact hcollides

end Specter
