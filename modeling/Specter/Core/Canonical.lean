/-
  File:      Specter/Core/Canonical.lean
  Subject:   WHICH BYTES ARE THE ENCODING OF THE TOKEN THEY DECODE TO
             (`serialize_token`, `deserialize_token` of specter-core/src/serde_token.rs).

  The decoder accepts more than the encoder writes: any flag but 1 for an absent section, any
  byte but 0 for a true attribute, bytes that are no UTF-8 in a jurisdiction, a buffer that
  ends before the count of the pool, and anything behind the last section.

  * `Primitives.strict` -- the helpers with these five refused; `Strict` -- the decoder over
    them reads the whole buffer;
  * `strict_iff_serializeToken` -- among the buffers that decode, the strict ones are those the
    encoder writes;
  * `strict_extended`, `strict_truncated_iff` -- what becomes of such a buffer with bytes added
    or cut off.
-/
import Specter.Core.Decoding

namespace Specter

open Lib Lib.Reader

variable {S P : Type} [Field S] [AddCommGroup P] [Module S P]

/-- `CompressedRistretto::decompress` accepts one encoding of a point, the one `compress`
    writes. -/
def Suite.DecompressCanonical (C : Suite S P) : Prop :=
  ∀ b p, C.decompress b = some p → C.compress p = b

namespace Serde

/-! ## 1. The strict decoder -/

/-- Refuse an answer. -/
def refuseUnless {α : Type} (r : Reader SerdeError α) (p : α → Prop) [DecidablePred p] :
    Reader SerdeError α := do
  let a ← r
  Reader.ensure (p a) (.io "not canonical")
  pure a

/-- The bytes of a jurisdiction. -/
def readTextBytes : Reader SerdeError Bytes := do
  let len ← readU8
  let bytes ← readBytes len.toNat
  pure bytes.toList

/-- The helpers that accept what the encoder writes: flags and booleans are 0 or 1, a
    jurisdiction is UTF-8, and the count of the pool is there. -/
def Primitives.strict (C : Suite S P) : Primitives (M SerdeError) S P :=
  { source C with
    flag := refuseUnless readU8 fun b => b ≤ 1
    bool := refuseUnless readU8 fun b => b ≤ 1
    text := do
      let bytes ← refuseUnless readTextBytes fun b => utf8Bytes (fromUtf8Lossy b) = b
      pure (fromUtf8Lossy bytes)
    poolAhead := refuseUnless (available 2) fun present => present = true }

/-- The decoder over the strict helpers reads a token and leaves nothing behind it. -/
def Strict (C : Suite S P) (U : CharTable) (data : Bytes) : Prop :=
  ∃ t pos, Reader.run ((Primitives.strict C).token U) data 0 = .ok (t, pos) ∧ data.length ≤ pos

/-! ## 2. Field by field -/

theorem codes_bytes (n : Nat) :
    Codes (readBytes n) (readBytes n) fun b bs => bs = b.toList :=
  .exact fun h => ⟨_, rfl, (run_readBytes_ok h).2.2⟩

/-- A field of fixed width that is computed from its bytes and written back to them. -/
theorem codes_word {α : Type} {n : Nat} {f : ByteArr n → α} {w : α → Bytes}
    (h : ∀ b, w (f b) = b.toList) :
    Codes (readBytes n >>= fun b => (pure (f b) : Reader SerdeError α))
      (readBytes n >>= fun b => pure (f b)) fun a bs => bs = w a := by
  refine .bind (codes_bytes n) ?_
  rintro b _ rfl
  exact .pure (by rw [h, List.append_nil])

theorem codes_u8 : Codes readU8 readU8 fun b bs => bs = [b] := by
  refine codes_word (w := fun b => [b]) fun b => ?_
  obtain ⟨l, hl⟩ := b
  match l, hl with
  | [x], _ => rfl

/-- The little-endian words are written back as they were read. -/
theorem leBytes_word {n k : Nat} (b : ByteArr n) (hk : k = ofLE b.toList % 256 ^ n) :
    leBytes n k = b.toList := by
  have hlt := ofLE_lt b.toList
  have hback := leBytes_ofLE b.toList
  rw [b.toList_length] at hlt hback
  rw [hk, Nat.mod_eq_of_lt hlt, hback]

theorem codes_u16 : Codes readU16 readU16 fun x bs => bs = leBytes 2 x.toNat :=
  codes_word (w := fun x : UInt16 => leBytes 2 x.toNat) fun b =>
    leBytes_word b (UInt16.toNat_ofNat' ..)

theorem codes_u32 : Codes readU32 readU32 fun x bs => bs = le32 x :=
  codes_word fun b => leBytes_word b (UInt32.toNat_ofNat' ..)

theorem codes_u64 : Codes readU64 readU64 fun x bs => bs = le64 x :=
  codes_word fun b => leBytes_word b (UInt64.toNat_ofNat' ..)

/-- A field that is decoded from its bytes by a partial inverse of the encoder. -/
theorem codes_ofOption {α : Type} {n : Nat} {f : ByteArr n → Option α} {e : Nat → SerdeError}
    {w : α → Bytes} (h : ∀ b a, f b = some a → w a = b.toList) :
    Codes (readBytes n >>= fun b => ofOption (f b) e)
      (readBytes n >>= fun b => ofOption (f b) e) fun a bs => bs = w a := by
  refine .exact fun {data pos pos' a} hrun => ⟨_, rfl, ?_⟩
  obtain ⟨b, mid, hb, ha⟩ := run_bind_ok hrun
  obtain ⟨hf, rfl⟩ := run_ofOption_ok ha
  rw [h b a hf]
  exact (run_readBytes_ok hb).2.2

theorem codes_scalar (C : Suite S P) :
    Codes (readScalar C) (readScalar C) fun s bs => bs = writeScalar C s := by
  refine codes_ofOption fun b s h => ?_
  unfold Suite.fromCanonicalBytes at h
  by_cases hb : C.asBytes (C.fromBytesModOrder b) = b
  · rw [if_pos hb] at h
    cases h
    exact congrArg _ hb
  · rw [if_neg hb] at h
    cases h

theorem codes_point {C : Suite S P} (hC : C.DecompressCanonical) :
    Codes (readPoint C) (readPoint C) fun p bs => bs = writePoint C p :=
  codes_ofOption fun b p h => congrArg _ (hC b p h)

/-- A byte accepted where it is the one written for what it means. -/
theorem codes_byte {w : UInt8 → UInt8} (h : ∀ b, b ≤ 1 ↔ w b = b) :
    Codes (refuseUnless readU8 fun b => b ≤ 1) readU8 fun b bs => bs = [w b] := by
  refine .refuse fun {data pos pos' b} hrun => ⟨_, rfl, ?_, fun rest hrest => (h b).mpr ?_⟩
  · intro hb
    obtain ⟨_, rfl, hsplit, _⟩ := codes_u8.codes hrun
    rw [(h b).mp hb]
    exact hsplit hrun
  · obtain ⟨_, rfl, hsplit, _⟩ := codes_u8.codes hrun
    rw [hsplit hrun] at hrest
    exact (List.cons.inj hrest).1.symm

theorem le_one_iff_flag (b : UInt8) : b ≤ 1 ↔ (if b = 1 then (1 : UInt8) else 0) = b := by
  constructor
  · intro h
    by_cases hb : b = 1
    · rw [if_pos hb, hb]
    · rw [if_neg hb]
      exact UInt8.toNat_inj.mp (by
        have h1 : b.toNat ≤ 1 := h
        have h2 : b.toNat ≠ 1 := fun e => hb (UInt8.toNat_inj.mp e)
        show 0 = b.toNat
        omega)
  · intro h
    rw [← h]
    by_cases hb : b = 1
    · rw [if_pos hb]
      exact UInt8.le_refl 1
    · rw [if_neg hb]
      exact UInt8.le_of_lt (by decide)

theorem le_one_iff_bool (b : UInt8) : b ≤ 1 ↔ writeBool (b != 0) = b := by
  rw [le_one_iff_flag]
  unfold writeBool
  by_cases h0 : b = 0
  · subst h0
    decide
  · have hne : (b != 0) = true := bne_iff_ne.mpr h0
    rw [hne, if_pos rfl]
    by_cases h1 : b = 1
    · rw [if_pos h1]
    · rw [if_neg h1]
      exact ⟨fun h => absurd h.symm h0, fun h => absurd h.symm h1⟩

/-- A length byte that agrees with the length of the string is its length. -/
theorem text_eq_of_ahead {bytes rest rest' : Bytes} {len : UInt8}
    (hlen : bytes.length = len.toNat)
    (h : len :: bytes ++ rest = writeString (fromUtf8Lossy bytes) ++ rest') :
    utf8Bytes (fromUtf8Lossy bytes) = bytes := by
  obtain ⟨hbyte, hbytes⟩ := List.cons.inj h
  have hmod : len.toNat = (utf8Bytes (fromUtf8Lossy bytes)).length % 256 := by
    rw [hbyte, UInt8.toNat_ofNat']
  have hle : bytes.length ≤ (utf8Bytes (fromUtf8Lossy bytes)).length := by
    rw [hlen, hmod]
    exact Nat.mod_le _ _
  have hfront : bytes <+: utf8Bytes (fromUtf8Lossy bytes) :=
    List.prefix_of_prefix_length_le ⟨rest, hbytes⟩ (List.prefix_append _ _) hle
  have hshort := length_utf8Bytes_of_prefix hfront
  -- less than three bytes apart and equal modulo 256
  exact (hfront.eq_of_length (by omega)).symm

theorem codes_textBytes :
    Codes (refuseUnless readTextBytes fun b => utf8Bytes (fromUtf8Lossy b) = b) readTextBytes
      fun b bs => bs = writeString (fromUtf8Lossy b) := by
  refine .refuse fun {data pos pos' b} hrun => ?_
  obtain ⟨len, mid, hlen, hrest⟩ := run_bind_ok hrun
  obtain ⟨bytes, mid', hbytes, hpure⟩ := run_bind_ok hrest
  rw [run_pure] at hpure
  cases hpure
  obtain ⟨_, rfl, hsplit, _⟩ := codes_u8.codes hlen
  have hahead : data.drop pos = len :: bytes.toList ++ data.drop pos' := by
    rw [hsplit hlen, (run_readBytes_ok hbytes).2.2]
    rfl
  refine ⟨_, rfl, fun hutf8 => ?_, fun rest hrest => ?_⟩
  · unfold writeString
    rw [hutf8, bytes.toList_length, UInt8.ofNat_toNat]
    exact hahead
  · exact text_eq_of_ahead bytes.toList_length (hahead.symm.trans hrest)

theorem codes_text {C : Suite S P} :
    Codes (Primitives.strict C).text (Primitives.source C).text fun s bs => bs = writeString s := by
  have hsource : (Primitives.source C).text =
      readTextBytes >>= fun bytes => (pure (fromUtf8Lossy bytes) : Reader SerdeError String) := by
    show readString = _
    unfold readString readTextBytes
    simp only [bind_assoc, pure_bind]
  rw [hsource]
  refine .bind codes_textBytes ?_
  rintro bytes _ rfl
  exact .pure (List.append_nil _)

/-- The count of the pool is there, or the pool is empty and its two bytes are missing. -/
theorem codes_poolAhead :
    Codes (refuseUnless (available 2) fun present => present = true) (available 2)
      fun present bs => bs = if present then [] else [0, 0] := by
  refine .refuse fun {data pos pos' present} hrun => ?_
  obtain ⟨hav, rfl⟩ : decide (pos + 2 ≤ data.length) = present ∧ pos = pos' :=
    Prod.mk.inj (Except.ok.inj hrun)
  refine ⟨_, rfl, ?_, fun rest hrest => ?_⟩
  · intro hpresent
    rw [if_pos hpresent, List.nil_append]
  · cases present with
    | true => rfl
    | false =>
        have hlen := congrArg List.length hrest
        rw [List.length_drop] at hlen
        simp only [Bool.false_eq_true, if_false, List.cons_append, List.nil_append,
          List.length_cons] at hlen
        exact absurd (of_decide_eq_false hav) (by omega)

/-! ## 3. Section by section -/

section Sections

variable {C : Suite S P} (hC : C.DecompressCanonical)

theorem codes_ensure (p : Prop) [Decidable p] (e : SerdeError) :
    Codes ((Primitives.strict C).ensure p e) ((Primitives.source C).ensure p e)
      fun _ bs => p ∧ bs = [] := by
  unfold Primitives.ensure
  by_cases hp : p
  · rw [if_pos hp, if_pos hp]
    exact .pure ⟨hp, rfl⟩
  · rw [if_neg hp, if_neg hp]
    exact .exact fun h => (nomatch h)

theorem codes_times {α : Type} {x y : Reader SerdeError α} {w : α → Bytes}
    (h : Codes x y fun a bs => bs = w a) :
    ∀ n, Codes (Primitives.times (m := M SerdeError) x n) (Primitives.times (m := M SerdeError) y n)
      fun as bs => as.length = n ∧ bs = as.flatMap w
  | 0 => .pure ⟨rfl, rfl⟩
  | n + 1 => by
      refine .bind h ?_
      rintro a _ rfl
      refine .bind (codes_times h n) ?_
      rintro as _ ⟨hlen, rfl⟩
      refine .pure ⟨?_, ?_⟩
      · rw [List.length_cons, hlen]
      · rw [List.flatMap_cons, List.append_nil]

theorem codes_option {α : Type} {x y : Reader SerdeError α} {w : α → Bytes}
    (h : Codes x y fun a bs => bs = w a) :
    Codes ((Primitives.strict C).option x) ((Primitives.source C).option y)
      fun o bs => bs = writeOption w o := by
  refine .bind (codes_byte le_one_iff_flag) ?_
  rintro flag _ rfl
  by_cases hf : flag = 1
  · rw [if_pos hf, if_pos hf, if_pos hf]
    refine .bind h ?_
    rintro a _ rfl
    exact .pure (by rw [List.append_nil]; rfl)
  · rw [if_neg hf, if_neg hf, if_neg hf]
    exact .pure rfl

theorem codes_vdf : Codes (Primitives.strict C).vdf (Primitives.source C).vdf
    fun vdf bs => bs = writeVdf vdf := by
  refine .bind (codes_bytes 32) ?_
  rintro seed _ rfl
  refine .bind codes_u64 ?_
  rintro iterations _ rfl
  refine .bind (codes_bytes 32) ?_
  rintro output _ rfl
  exact .pure (by unfold writeVdf; simp only [List.append_assoc, List.append_nil])

include hC

theorem codes_credential {check : String → Reader SerdeError Unit}
    (hcheck : ∀ s, Codes (check s) (check s) fun _ bs => bs = []) :
    Codes ((Primitives.strict C).credential check) ((Primitives.source C).credential check)
      fun cred bs => bs = writeCredential C cred := by
  refine .bind (codes_point hC) ?_
  rintro commitment _ rfl
  refine .bind (codes_scalar C) ?_
  rintro blinding _ rfl
  refine .bind (codes_byte le_one_iff_bool) ?_
  rintro kycPassed _ rfl
  refine .bind (codes_byte le_one_iff_bool) ?_
  rintro notSanctioned _ rfl
  refine .bind codes_text ?_
  rintro jurisdiction _ rfl
  refine .bind (hcheck jurisdiction) ?_
  rintro _ _ rfl
  refine .bind (codes_byte le_one_iff_bool) ?_
  rintro ageOver18 _ rfl
  refine .bind codes_u64 ?_
  rintro expiresAt _ rfl
  refine .bind (codes_scalar C) ?_
  rintro signatureS _ rfl
  refine .bind (codes_scalar C) ?_
  rintro signatureE _ rfl
  refine .bind (codes_point hC) ?_
  rintro issuerPk _ rfl
  exact .pure (by unfold writeCredential; simp only [List.append_assoc, List.append_nil,
    List.nil_append])

theorem codes_presentation :
    Codes (Primitives.strict C).presentation (Primitives.source C).presentation
      fun pres bs => bs = writePresentation C pres := by
  have hdisclosed : Codes (Primitives.strict C).disclosed (Primitives.source C).disclosed
      fun d bs => bs = UInt8.ofNat d.1 :: writeScalar C d.2 := by
    refine .bind codes_u8 ?_
    rintro idx _ rfl
    refine .bind (codes_scalar C) ?_
    rintro val _ rfl
    exact .pure (by rw [UInt8.ofNat_toNat, List.append_nil]; rfl)
  refine .bind (codes_point hC) ?_
  rintro commitment _ rfl
  refine .bind (codes_point hC) ?_
  rintro issuerPk _ rfl
  refine .bind (codes_scalar C) ?_
  rintro credSignatureS _ rfl
  refine .bind (codes_scalar C) ?_
  rintro credSignatureE _ rfl
  refine .bind codes_u8 ?_
  rintro nDisclosed _ rfl
  refine .bind (codes_times hdisclosed nDisclosed.toNat) ?_
  rintro disclosed _ ⟨hdisclosed, rfl⟩
  refine .bind (codes_point hC) ?_
  rintro proofCommitment _ rfl
  refine .bind codes_u8 ?_
  rintro nResponses _ rfl
  refine .bind (codes_times (codes_scalar C) nResponses.toNat) ?_
  rintro proofResponse _ ⟨hresponses, rfl⟩
  refine .bind (codes_scalar C) ?_
  rintro proofChallenge _ rfl
  refine .pure ?_
  unfold writePresentation
  rw [hdisclosed, hresponses, UInt8.ofNat_toNat, UInt8.ofNat_toNat]
  simp only [List.append_assoc, List.append_nil]

theorem codes_step : Codes (Primitives.strict C).step (Primitives.source C).step
    fun step bs => bs = writeStep C step := by
  refine .bind (codes_point hC) ?_
  rintro newOwnerPk _ rfl
  refine .bind (codes_point hC) ?_
  rintro sigR _ rfl
  refine .bind (codes_scalar C) ?_
  rintro sigS _ rfl
  exact .pure (by unfold writeStep; simp only [List.append_assoc, List.append_nil])

theorem codes_poolBody : Codes (Primitives.strict C).poolBody (Primitives.source C).poolBody
    fun pool bs => bs = writePool C pool := by
  have hentry : Codes (Primitives.strict C).poolEntry (Primitives.source C).poolEntry
      fun e bs => bs = writeCredential C e.1 ++ writePresentation C e.2 := by
    refine .bind (codes_credential hC fun _ => .pure rfl) ?_
    rintro cred _ rfl
    refine .bind (codes_presentation hC) ?_
    rintro pres _ rfl
    exact .pure (by rw [List.append_nil])
  refine .bind codes_u16 ?_
  rintro poolCount _ rfl
  refine .bind (codes_ensure _ _) ?_
  rintro _ _ ⟨_, rfl⟩
  refine (codes_times hentry poolCount.toNat).imp ?_
  rintro pool _ ⟨hlen, rfl⟩
  unfold writePool
  rw [hlen, List.nil_append]

theorem codes_pool : Codes (Primitives.strict C).pool (Primitives.source C).pool
    fun pool bs => bs = writePool C pool := by
  refine .bind codes_poolAhead ?_
  rintro present _ rfl
  cases present with
  | false => exact .pure (by simp [writePool, leBytes])
  | true => exact (codes_poolBody hC).imp fun _ _ h => h

theorem codes_fixed : Codes (Primitives.strict C).fixed (Primitives.source C).fixed
    fun t bs => bs = writeFixed C t := by
  have hmagic : Codes (Primitives.strict C).bytes4 (Primitives.source C).bytes4
      fun m bs => bs = m := codes_word fun _ => rfl
  refine .bind hmagic ?_
  rintro m _ rfl
  refine .bind (codes_ensure _ _) ?_
  rintro _ _ ⟨hmagic, rfl⟩
  refine .bind codes_u8 ?_
  rintro v _ rfl
  refine .bind (codes_ensure _ _) ?_
  rintro _ _ ⟨hversion, rfl⟩
  refine .bind (codes_bytes 32) ?_
  rintro tokenId _ rfl
  refine .bind codes_u64 ?_
  rintro value _ rfl
  refine .bind (codes_ensure _ _) ?_
  rintro _ _ ⟨_, rfl⟩
  refine .bind (codes_point hC) ?_
  rintro valueCommitment _ rfl
  refine .bind (codes_point hC) ?_
  rintro vpCommitment _ rfl
  refine .bind (codes_scalar C) ?_
  rintro vpResponse _ rfl
  refine .bind (codes_scalar C) ?_
  rintro sigS _ rfl
  refine .bind (codes_scalar C) ?_
  rintro sigE _ rfl
  refine .bind (codes_bytes 32) ?_
  rintro ownerSecret _ rfl
  refine .bind (codes_bytes 32) ?_
  rintro hashChainHead _ rfl
  refine .bind codes_u32 ?_
  rintro transferCount _ rfl
  refine .bind codes_u32 ?_
  rintro recursionBound _ rfl
  refine .bind (codes_ensure _ _) ?_
  rintro _ _ ⟨_, rfl⟩
  refine .bind (codes_point hC) ?_
  rintro genesisOwnerPk _ rfl
  refine .bind codes_u32 ?_
  rintro foldSteps _ rfl
  refine .bind (codes_ensure _ _) ?_
  rintro _ _ ⟨_, rfl⟩
  refine .bind (codes_times (codes_step hC) foldSteps.toNat) ?_
  rintro stepsChain _ ⟨_, rfl⟩
  refine .bind (codes_bytes 32) ?_
  rintro genesisOwnerHash _ rfl
  refine .pure ?_
  unfold writeFixed writeHead writeChain
  rw [hmagic, hversion]
  simp only [List.append_assoc, List.append_nil, List.nil_append]

end Sections

/-! ## 4. The whole token -/

/-- Everything before the pool. -/
def writeFront (C : Suite S P) (token : ProofCarryingToken S P) : Bytes :=
  writeFixed C token ++ (writeOption (writeCredential C) token.credential ++
    (writeOption (writePresentation C) token.presentation ++
    (writeOption writeVdf token.vdfProof ++ writeOption (·.toList) token.bondOwnerId)))

theorem serializeToken_front (C : Suite S P) (token : ProofCarryingToken S P) :
    serializeToken C token = writeFront C token ++ writePool C token.credentialPool := by
  rw [serializeToken_eq]
  unfold writeFront writeTail
  simp only [List.append_assoc]

variable {C : Suite S P} {U : CharTable}

theorem codes_front (hC : C.DecompressCanonical) :
    Codes ((Primitives.strict C).front U) ((Primitives.source C).front U)
      fun t bs => bs = writeFront C t := by
  refine .bind (codes_fixed hC) ?_
  rintro fixed _ rfl
  have hcheck : ∀ s, Codes ((Primitives.strict C).jurisdiction U s)
      ((Primitives.source C).jurisdiction U s) fun _ bs => bs = [] := fun s =>
    (codes_ensure _ _).imp fun _ _ h => h.2
  refine .bind (codes_option (codes_credential hC hcheck)) ?_
  rintro credential _ rfl
  refine .bind (codes_option (codes_presentation hC)) ?_
  rintro presentation _ rfl
  refine .bind (codes_option codes_vdf) ?_
  rintro vdfProof _ rfl
  refine .bind (codes_option (codes_bytes 32)) ?_
  rintro bondOwnerId _ rfl
  exact .pure (by rw [List.append_nil]; rfl)

theorem codes_token (hC : C.DecompressCanonical) :
    Codes ((Primitives.strict C).token U) ((Primitives.source C).token U)
      fun t bs => bs = serializeToken C t := by
  refine .bind (codes_front hC) ?_
  rintro front _ rfl
  refine .bind (codes_pool hC) ?_
  rintro pool _ rfl
  exact .pure (by rw [serializeToken_front, List.append_nil]; rfl)

theorem deserializeToken_ok_iff {data : Bytes} {t : ProofCarryingToken S P} :
    deserializeToken C U data = .ok t ↔
      ∃ pos, Reader.run ((Primitives.source C).token U) data 0 = .ok (t, pos) := by
  rw [← Primitives.token_source, decode_ok_iff]

/-- **Among the buffers that decode, the strict ones are those the encoder writes.** -/
theorem strict_iff_serializeToken (hC : C.DecompressCanonical) {data : Bytes}
    {t : ProofCarryingToken S P} (h : deserializeToken C U data = .ok t) :
    Strict C U data ↔ serializeToken C t = data := by
  obtain ⟨pos, hrun⟩ := deserializeToken_ok_iff.mp h
  rw [← (codes_token hC).decode_iff hrun]
  constructor
  · rintro ⟨t', pos', hstrict, hle⟩
    have hsame := (codes_token hC).refines hstrict
    rw [hrun] at hsame
    cases hsame
    exact ⟨hstrict, hle⟩
  · rintro ⟨hstrict, hle⟩
    exact ⟨t, pos, hstrict, hle⟩

/-! ## 5. Bytes added and bytes cut off -/

theorem two_le_writePool (pool : List (Credential S P × Presentation S P)) :
    2 ≤ (writePool C pool).length := by
  unfold writePool
  rw [List.length_append, length_leBytes]
  omega

/-- A strict buffer: the part before the pool, the entries, and nothing behind them. -/
theorem run_strict (hC : C.DecompressCanonical) {data : Bytes} {t : ProofCarryingToken S P}
    (hstrict : Strict C U data) (h : deserializeToken C U data = .ok t) :
    ∃ t₀, Reader.run ((Primitives.source C).front U) data 0 =
        .ok (t₀, (writeFront C t).length) ∧
      (writeFront C t).length + 2 ≤ data.length ∧
      Reader.run (Primitives.source C).poolBody data (writeFront C t).length =
        .ok (t.credentialPool, data.length) ∧
      t = { t₀ with credentialPool := t.credentialPool } := by
  have hdata := (strict_iff_serializeToken hC h).mp hstrict
  rw [serializeToken_front] at hdata
  have hlen := congrArg List.length hdata
  have htwo := two_le_writePool (C := C) t.credentialPool
  rw [List.length_append] at hlen
  obtain ⟨pos, hrun⟩ := deserializeToken_ok_iff.mp h
  obtain ⟨t₀, mid, hfront, htail⟩ := run_token_ok hrun
  have hmid := Local.inside ((source_local C).front U) (Nat.zero_le _) hfront
  have hsame : writeFront C t₀ = writeFront C t := by
    rcases htail with ⟨_, entries, _, rfl⟩ | ⟨_, _, rfl⟩ <;> rfl
  -- the front has consumed what is written for it
  obtain ⟨_, rfl, hsplit, hx⟩ := (codes_front hC).codes hfront
  rw [hsame, List.drop_zero] at hsplit hx
  have hrest : data.drop mid = writePool C t.credentialPool :=
    List.append_cancel_left ((hsplit (hx _ hdata.symm)).symm.trans hdata.symm)
  have hmidlen := congrArg List.length hrest
  rw [List.length_drop] at hmidlen
  obtain rfl : mid = (writeFront C t).length := by omega
  rcases htail with ⟨_, entries, hbody, rfl⟩ | ⟨hnone, _, _⟩
  · refine ⟨t₀, hfront, by omega, ?_, rfl⟩
    have hpos := Local.inside (source_local C).poolBody hmid hbody
    -- and so has the pool
    obtain ⟨_, rfl, hsplit', hx'⟩ := (codes_poolBody hC).codes hbody
    have hend := hsplit' (hx' [] (by rw [List.append_nil]; exact hrest))
    rw [hrest, List.self_eq_append_right, List.drop_eq_nil_iff] at hend
    rw [hbody, Nat.le_antisymm hpos hend]
  · omega

theorem run_token_pool {data : Bytes} {t₀ : ProofCarryingToken S P} {mid pos : Nat}
    {entries : List (Credential S P × Presentation S P)}
    (hfront : Reader.run ((Primitives.source C).front U) data 0 = .ok (t₀, mid))
    (hahead : mid + 2 ≤ data.length)
    (hbody : Reader.run (Primitives.source C).poolBody data mid = .ok (entries, pos)) :
    deserializeToken C U data = .ok { t₀ with credentialPool := entries } := by
  refine deserializeToken_ok_iff.mpr ⟨pos, ?_⟩
  have hav : Reader.run (available 2) data mid =
      (.ok (decide (mid + 2 ≤ data.length), mid) : Except SerdeError _) := rfl
  rw [decide_eq_true hahead] at hav
  have hpool : Reader.run (Primitives.source C).pool data mid = .ok (entries, pos) :=
    (run_bind_of_ok hav).trans hbody
  exact (run_bind_of_ok hfront).trans (run_bind_of_ok hpool)

theorem run_token_none {data : Bytes} {t₀ : ProofCarryingToken S P} {mid : Nat}
    (hfront : Reader.run ((Primitives.source C).front U) data 0 = .ok (t₀, mid))
    (hahead : data.length < mid + 2) :
    deserializeToken C U data = .ok { t₀ with credentialPool := [] } := by
  refine deserializeToken_ok_iff.mpr ⟨mid, ?_⟩
  have hav : Reader.run (available 2) data mid =
      (.ok (decide (mid + 2 ≤ data.length), mid) : Except SerdeError _) := rfl
  rw [decide_eq_false (Nat.not_le.mpr hahead)] at hav
  have hpool : Reader.run (Primitives.source C).pool data mid = .ok ([], mid) :=
    (run_bind_of_ok hav).trans rfl
  exact (run_bind_of_ok hfront).trans (run_bind_of_ok hpool)

/-- **Bytes behind a strict buffer change nothing.** -/
theorem strict_extended (hC : C.DecompressCanonical) {data : Bytes} {t : ProofCarryingToken S P}
    (hstrict : Strict C U data) (h : deserializeToken C U data = .ok t) (ext : Bytes) :
    deserializeToken C U (data ++ ext) = .ok t := by
  obtain ⟨t₀, hfront, hahead, hbody, ht⟩ := run_strict hC hstrict h
  rw [ht]
  refine run_token_pool (Local.extension ((source_local C).front U) ext hfront) ?_
    (Local.extension (source_local C).poolBody ext hbody)
  rw [List.length_append]
  omega

/-- **A strict buffer cut off** decodes exactly where the cut falls into the count of the pool,
    and then to the token without its pool. -/
theorem strict_truncated_iff (hC : C.DecompressCanonical) {data : Bytes}
    {t t' : ProofCarryingToken S P} (hstrict : Strict C U data)
    (h : deserializeToken C U data = .ok t) {n : Nat} (hn : n < data.length) :
    deserializeToken C U (data.take n) = .ok t' ↔
      (writeFront C t).length ≤ n ∧ n < (writeFront C t).length + 2 ∧
        t' = { t with credentialPool := [] } := by
  obtain ⟨t₀, hfront, hahead, hbody, ht⟩ := run_strict hC hstrict h
  have hdata : data.take n ++ data.drop n = data := List.take_append_drop n data
  have hlen : (data.take n).length = n := by
    rw [List.length_take]
    omega
  rw [← hdata] at hfront hbody
  constructor
  · intro h'
    obtain ⟨pos, hrun⟩ := deserializeToken_ok_iff.mp h'
    obtain ⟨t₁, mid, hfront', htail⟩ := run_token_ok hrun
    have hmid := Local.inside ((source_local C).front U) (Nat.zero_le _) hfront'
    have hext := Local.extension ((source_local C).front U) (data.drop n) hfront'
    rw [hfront] at hext
    cases hext
    rcases htail with ⟨_, entries, hbody', rfl⟩ | ⟨hnone, _, rfl⟩
    · -- the entries end with the buffer, behind the cut
      have hpos := Local.inside (source_local C).poolBody hmid hbody'
      have hext := Local.extension (source_local C).poolBody (data.drop n) hbody'
      rw [hbody] at hext
      cases hext
      rw [hdata] at hpos
      omega
    · refine ⟨by omega, by omega, ?_⟩
      rw [ht]
  · rintro ⟨hle, hlt, rfl⟩
    have hfront' := Local.restriction ((source_local C).front U) hfront (by omega)
    rw [run_token_none hfront' (by omega), ht]

/-- **Canonicity**: a buffer that decodes is the encoding of its token exactly where it is
    strict. With bytes behind it a strict buffer decodes to the same token; cut off it decodes
    only where the cut falls into the count of the pool, to the token without its pool; and no
    second strict buffer decodes to its token. -/
theorem deserializeToken_canonical (hC : C.DecompressCanonical) {data : Bytes}
    {t : ProofCarryingToken S P} (h : deserializeToken C U data = .ok t) :
    (serializeToken C t = data ↔ Strict C U data) ∧
    (Strict C U data →
      (∀ ext, deserializeToken C U (data ++ ext) = .ok t) ∧
      (∀ n t', n < data.length → (deserializeToken C U (data.take n) = .ok t' ↔
        (writeFront C t).length ≤ n ∧ n < (writeFront C t).length + 2 ∧
          t' = { t with credentialPool := [] })) ∧
      ∀ data', Strict C U data' → deserializeToken C U data' = .ok t → data' = data) := by
  refine ⟨(strict_iff_serializeToken hC h).symm, fun hstrict => ⟨strict_extended hC hstrict h,
    fun n t' hn => strict_truncated_iff hC hstrict h hn, fun data' hstrict' h' => ?_⟩⟩
  rw [← (strict_iff_serializeToken hC h').mp hstrict',
    (strict_iff_serializeToken hC h).mp hstrict]

/-! ## 6. A token and its encodings -/

theorem sampleSuite_decompressCanonical : sampleSuite.DecompressCanonical := by
  intro b p h
  have hlen : ∀ l : Bytes, l.length = 16 → ofLE l < sampleOrder →
      leBytes 16 (ofLE l : SampleScalar).val = l := by
    intro l hl hlt
    rw [ZMod.val_natCast, Nat.mod_eq_of_lt hlt, ← hl, leBytes_ofLE]
  change sampleDecompress b = some p at h
  unfold sampleDecompress at h
  dsimp only at h
  by_cases hlt : ofLE (b.toList.take 16) < sampleOrder ∧ ofLE (b.toList.drop 16) < sampleOrder
  · rw [if_pos hlt] at h
    cases h
    refine List.Vector.eq _ _ ?_
    show leBytes 16 _ ++ leBytes 16 _ = b.toList
    rw [hlen _ (by simp) hlt.1, hlen _ (by simp) hlt.2, List.take_append_drop]
  · rw [if_neg hlt] at h
    cases h

/-- A token with no optional section and no pool. -/
def sampleBareToken : ProofCarryingToken SampleScalar SamplePoint :=
  { sampleWireToken with
    credential := none
    presentation := none
    vdfProof := none
    bondOwnerId := none
    credentialPool := [] }

/-- Its encoding with one byte behind it, and without the count of the pool, are two more
    buffers that decode to it. -/
theorem longer_and_shorter_decode :
    let data := serializeToken sampleSuite sampleBareToken
    deserializeToken sampleSuite asciiTable (data ++ [0]) = .ok sampleBareToken ∧
      deserializeToken sampleSuite asciiTable (data.take (data.length - 2)) =
        .ok sampleBareToken ∧
      serializeToken sampleSuite sampleBareToken ≠ data ++ [0] ∧
      serializeToken sampleSuite sampleBareToken ≠ data.take (data.length - 2) := by
  refine ⟨ok_of_toOption (by decide +kernel), ok_of_toOption (by decide +kernel), ?_, ?_⟩
  · exact fun h => absurd (congrArg List.length h) (by simp)
  · exact fun h => absurd (congrArg List.length h) (by decide +kernel)

/-- The encoding of the sample token is strict, and so more bytes change nothing. -/
theorem sampleWireToken_canonical :
    Strict sampleSuite asciiTable (serializeToken sampleSuite sampleWireToken) ∧
      ∀ ext, deserializeToken sampleSuite asciiTable
        (serializeToken sampleSuite sampleWireToken ++ ext) = .ok sampleWireToken := by
  have hdec : deserializeToken sampleSuite asciiTable
      (serializeToken sampleSuite sampleWireToken) = .ok sampleWireToken :=
    (deserializeToken_serializeToken_iff sampleWireToken_fits).mpr
      ⟨sampleWireToken_admitted, rfl⟩
  obtain ⟨hstrict, hthen⟩ := deserializeToken_canonical sampleSuite_decompressCanonical hdec
  exact ⟨hstrict.mp rfl, (hthen (hstrict.mp rfl)).1⟩

end Serde

end Specter
