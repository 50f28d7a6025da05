/-
  File:      Specter/Core/Decoding.lean
  Subject:   THE TOKEN DECODER OVER ITS PRIMITIVES (`deserialize_token` and the `read_*`
             helpers of specter-core/src/serde_token.rs).

  `deserialize_token` reaches the buffer through the helpers alone. `Primitives` lists them, in
  any monad, and the decoder is written once over them.

  * `Primitives.source` -- the helpers of Specter.Core.Serde; the decoder over them is
    `deserializeToken` (`token_source`);
  * `Primitives.checked` -- the helpers with every operation that can panic spelled out: the
    slice, the index, the conversions to arrays, the subtraction in an error's offset;
  * `Related` -- a relation between two runs that holds of the helpers and passes through a
    sequence holds of the decoders (`Related.token`);
  * `deserializeToken_safe` -- with every panic spelled out, the decoder is the one without,
    its cursor stays inside the buffer, and what it decodes is within the limits.
-/
import Specter.Core.Serde
import Specter.Lib.Codec

namespace Specter

open Lib Lib.Reader

variable {S P : Type}

namespace Serde

/-! ## 1. The decoder over its primitives -/

/-- What `deserialize_token` asks of the buffer. -/
structure Primitives (m : Type → Type) (S P : Type) where
  /-- `read_bytes(data, &mut pos, 4)`. -/
  bytes4 : m Bytes
  u8 : m UInt8
  u16 : m UInt16
  u32 : m UInt32
  u64 : m UInt64
  array32 : m Bytes32
  point : m P
  scalar : m S
  /-- The byte in front of an optional section. -/
  flag : m UInt8
  /-- The byte of a boolean attribute. -/
  bool : m UInt8
  /-- The length byte of a jurisdiction and the string behind it. -/
  text : m String
  /-- `pos + 2 <= data.len()`. -/
  poolAhead : m Bool
  /-- `return Err(e)`. -/
  fail : SerdeError → m Unit

namespace Primitives

section Decoder

variable {m : Type → Type} [Monad m] (p : Primitives m S P)

def ensure (q : Prop) [Decidable q] (e : SerdeError) : m Unit := if q then pure () else p.fail e

/-- `for _ in 0..n`. -/
def times {α : Type} (r : m α) : Nat → m (List α)
  | 0 => pure []
  | n + 1 => do
      let a ← r
      let as ← times r n
      pure (a :: as)

def option {α : Type} (read : m α) : m (Option α) := do
  let flag ← p.flag
  if flag = 1 then
    let a ← read
    pure (some a)
  else pure none

def credential (check : String → m Unit) : m (Credential S P) := do
  let commitment ← p.point
  let blinding ← p.scalar
  let kycPassed ← p.bool
  let notSanctioned ← p.bool
  let jurisdiction ← p.text
  check jurisdiction
  let ageOver18 ← p.bool
  let expiresAt ← p.u64
  let signatureS ← p.scalar
  let signatureE ← p.scalar
  let issuerPk ← p.point
  pure
    { commitment := commitment
      blinding := blinding
      attributes :=
        { kycPassed := kycPassed != 0
          notSanctioned := notSanctioned != 0
          jurisdiction := jurisdiction
          ageOver18 := ageOver18 != 0
          expiresAt := expiresAt }
      signatureS := signatureS
      signatureE := signatureE
      issuerPk := issuerPk }

def disclosed : m (Nat × S) := do
  let idx ← p.u8
  let val ← p.scalar
  pure (idx.toNat, val)

def presentation : m (Presentation S P) := do
  let commitment ← p.point
  let issuerPk ← p.point
  let credSignatureS ← p.scalar
  let credSignatureE ← p.scalar
  let nDisclosed ← p.u8
  let disclosed ← times p.disclosed nDisclosed.toNat
  let proofCommitment ← p.point
  let nResponses ← p.u8
  let proofResponse ← times p.scalar nResponses.toNat
  let proofChallenge ← p.scalar
  pure
    { commitment := commitment
      issuerPk := issuerPk
      credSignatureS := credSignatureS
      credSignatureE := credSignatureE
      disclosed := disclosed
      proofCommitment := proofCommitment
      proofResponse := proofResponse
      proofChallenge := proofChallenge }

def vdf : m VdfProof := do
  let seed ← p.array32
  let iterations ← p.u64
  let output ← p.array32
  pure { seed := seed, iterations := iterations, output := output }

def step : m (TransferStep S P) := do
  let newOwnerPk ← p.point
  let sigR ← p.point
  let sigS ← p.scalar
  pure { newOwnerPk := newOwnerPk, sigR := sigR, sigS := sigS }

def jurisdiction (U : CharTable) (jurisdiction : String) : m Unit :=
  p.ensure (jurisdiction.toList.all (safeChar U) = true) (.io "invalid jurisdiction characters")

def poolEntry : m (Credential S P × Presentation S P) := do
  let cred ← p.credential fun _ => pure ()
  let pres ← p.presentation
  pure (cred, pres)

/-- The count of the pool and its entries. -/
def poolBody : m (List (Credential S P × Presentation S P)) := do
  let poolCount ← p.u16
  p.ensure (poolCount.toNat ≤ maxPool) (.io ("credential pool count " ++ toString poolCount ++
    " exceeds cap " ++ toString maxPool))
  times p.poolEntry poolCount.toNat

def pool : m (List (Credential S P × Presentation S P)) := do
  let present ← p.poolAhead
  if present then p.poolBody else pure []

def fixed : m (ProofCarryingToken S P) := do
  let magicBytes ← p.bytes4
  p.ensure (magicBytes = magic) .invalidMagic
  let v ← p.u8
  p.ensure (v = version) (.unsupportedVersion v)
  let tokenId ← p.array32
  let value ← p.u64
  p.ensure (value ≠ 0) (.io "token value must be non-zero")
  let valueCommitment ← p.point
  let vpCommitment ← p.point
  let vpResponse ← p.scalar
  let sigS ← p.scalar
  let sigE ← p.scalar
  let ownerSecret ← p.array32
  let hashChainHead ← p.array32
  let transferCount ← p.u32
  let recursionBound ← p.u32
  p.ensure (transferCount ≤ recursionBound) (.io "transfer_count exceeds recursion_bound")
  let genesisOwnerPk ← p.point
  let foldSteps ← p.u32
  p.ensure (foldSteps.toNat ≤ maxFoldSteps) (.io ("fold steps " ++ toString foldSteps ++
    " exceeds cap " ++ toString maxFoldSteps))
  let stepsChain ← times p.step foldSteps.toNat
  let genesisOwnerHash ← p.array32
  pure
    { tokenId := tokenId
      value := value
      valueCommitment := valueCommitment
      valueProof := { commitment := vpCommitment, response := vpResponse }
      mintSignature := { s := sigS, e := sigE }
      ownerSecret := ownerSecret
      hashChainHead := hashChainHead
      transferCount := transferCount
      recursionBound := recursionBound
      foldProof :=
        { genesisOwnerPk := genesisOwnerPk, stepsChain := stepsChain, steps := foldSteps }
      genesisOwnerHash := genesisOwnerHash
      credential := none
      presentation := none
      vdfProof := none
      bondOwnerId := none
      credentialPool := [] }

/-- The token up to its pool. -/
def front (U : CharTable) : m (ProofCarryingToken S P) := do
  let fixed ← p.fixed
  let credential ← p.option (p.credential (p.jurisdiction U))
  let presentation ← p.option p.presentation
  let vdfProof ← p.option p.vdf
  let bondOwnerId ← p.option p.array32
  pure
    { fixed with
      credential := credential
      presentation := presentation
      vdfProof := vdfProof
      bondOwnerId := bondOwnerId }

/-- `deserialize_token`. -/
def token (U : CharTable) : m (ProofCarryingToken S P) := do
  let front ← p.front U
  let credentialPool ← p.pool
  pure { front with credentialPool := credentialPool }

end Decoder

/-! ## 2. The helpers of the source -/

section Source

variable [Field S] [AddCommGroup P] [Module S P] (C : Suite S P)

def source : Primitives (M SerdeError) S P where
  bytes4 := do
    let bytes ← readBytes 4
    pure bytes.toList
  u8 := readU8
  u16 := readU16
  u32 := readU32
  u64 := readU64
  array32 := readArray32
  point := readPoint C
  scalar := readScalar C
  flag := readU8
  bool := readU8
  text := readString
  poolAhead := available 2
  fail e := throw e

theorem times_source {α : Type} (r : Reader SerdeError α) (n : Nat) :
    times (m := M SerdeError) r n = replicateM r n := by
  induction n with
  | zero => rfl
  | succ n ih =>
      unfold times replicateM
      rw [ih]

theorem option_source {α : Type} (r : Reader SerdeError α) :
    (source C).option r = readOption r := rfl

theorem credential_source (check : String → Reader SerdeError Unit) :
    (source C).credential check = readCredential C check := by
  unfold credential readCredential readBool
  simp only [bind_assoc, pure_bind]
  rfl

theorem presentation_source : (source C).presentation = readPresentation C := by
  unfold presentation readPresentation
  simp only [times_source]
  rfl

theorem fixed_source : (source C).fixed = readFixed C := by
  unfold fixed readFixed
  simp only [times_source, source, bind_assoc, pure_bind]
  rfl

theorem poolEntry_source : (source C).poolEntry = readPoolEntry C := by
  unfold poolEntry readPoolEntry
  rw [credential_source, presentation_source]

theorem pool_source : (source C).pool = readPool C := by
  unfold pool poolBody readPool
  simp only [times_source, poolEntry_source]
  rfl

theorem token_source_eq (U : CharTable) :
    (source C).token U = readFixed C >>= readSections C U := by
  unfold token front readSections
  rw [fixed_source, credential_source, presentation_source, pool_source]
  simp only [bind_assoc, pure_bind, option_source]
  rfl

/-- **Over the helpers of the source the decoder is `deserialize_token`.** -/
theorem token_source (U : CharTable) (data : Bytes) :
    Reader.decode ((source C).token U) data = deserializeToken C U data := by
  rw [token_source_eq]
  rfl

end Source

/-! ## 3. Two runs over related helpers -/

/-- `R` passes through a sequence and relates the helpers of `p` to those of `q`, but for the
    question whether a pool follows. -/
structure Related {m n : Type → Type} [Monad m] [Monad n] (R : ∀ α : Type, m α → n α → Prop)
    (p : Primitives m S P) (q : Primitives n S P) : Prop where
  pure : ∀ {α : Type} (a : α), R α (pure a) (pure a)
  bind : ∀ {α β : Type} {x : m α} {y : n α} {f : α → m β} {g : α → n β},
    R α x y → (∀ a, R β (f a) (g a)) → R β (x >>= f) (y >>= g)
  bytes4 : R Bytes p.bytes4 q.bytes4
  u8 : R UInt8 p.u8 q.u8
  u16 : R UInt16 p.u16 q.u16
  u32 : R UInt32 p.u32 q.u32
  u64 : R UInt64 p.u64 q.u64
  array32 : R Bytes32 p.array32 q.array32
  point : R P p.point q.point
  scalar : R S p.scalar q.scalar
  flag : R UInt8 p.flag q.flag
  bool : R UInt8 p.bool q.bool
  text : R String p.text q.text
  fail : ∀ e, R Unit (p.fail e) (q.fail e)

namespace Related

variable {m n : Type → Type} [Monad m] [Monad n] {R : ∀ α : Type, m α → n α → Prop}
  {p : Primitives m S P} {q : Primitives n S P} (h : Related R p q)

include h

theorem ensure (c : Prop) [Decidable c] (e : SerdeError) :
    R Unit (p.ensure c e) (q.ensure c e) := by
  unfold Primitives.ensure
  by_cases hc : c
  · rw [if_pos hc, if_pos hc]
    exact h.pure ()
  · rw [if_neg hc, if_neg hc]
    exact h.fail e

theorem times {α : Type} {x : m α} {y : n α} (hxy : R α x y) :
    ∀ k, R (List α) (Primitives.times x k) (Primitives.times y k)
  | 0 => h.pure []
  | k + 1 => h.bind hxy fun _ => h.bind (times hxy k) fun _ => h.pure _

theorem option {α : Type} {x : m α} {y : n α} (hxy : R α x y) :
    R (Option α) (p.option x) (q.option y) := by
  refine h.bind h.flag fun flag => ?_
  by_cases hf : flag = 1
  · rw [if_pos hf, if_pos hf]
    exact h.bind hxy fun _ => h.pure _
  · rw [if_neg hf, if_neg hf]
    exact h.pure none

theorem credential {check : String → m Unit} {check' : String → n Unit}
    (hcheck : ∀ s, R Unit (check s) (check' s)) :
    R (Credential S P) (p.credential check) (q.credential check') :=
  h.bind h.point fun _ => h.bind h.scalar fun _ => h.bind h.bool fun _ => h.bind h.bool fun _ =>
    h.bind h.text fun s => h.bind (hcheck s) fun _ => h.bind h.bool fun _ =>
    h.bind h.u64 fun _ => h.bind h.scalar fun _ => h.bind h.scalar fun _ =>
    h.bind h.point fun _ => h.pure _

theorem presentation : R (Presentation S P) p.presentation q.presentation := by
  have hdisclosed : R (Nat × S) p.disclosed q.disclosed :=
    h.bind h.u8 fun _ => h.bind h.scalar fun _ => h.pure _
  exact h.bind h.point fun _ => h.bind h.point fun _ => h.bind h.scalar fun _ =>
    h.bind h.scalar fun _ => h.bind h.u8 fun _ => h.bind (h.times hdisclosed _) fun _ =>
    h.bind h.point fun _ => h.bind h.u8 fun _ => h.bind (h.times h.scalar _) fun _ =>
    h.bind h.scalar fun _ => h.pure _

theorem poolBody : R (List (Credential S P × Presentation S P)) p.poolBody q.poolBody := by
  have hentry : R (Credential S P × Presentation S P) p.poolEntry q.poolEntry :=
    h.bind (h.credential fun _ => h.pure ()) fun _ => h.bind h.presentation fun _ => h.pure _
  exact h.bind h.u16 fun _ => h.bind (h.ensure _ _) fun _ => h.times hentry _

theorem fixed : R (ProofCarryingToken S P) p.fixed q.fixed := by
  have hstep : R (TransferStep S P) p.step q.step :=
    h.bind h.point fun _ => h.bind h.point fun _ => h.bind h.scalar fun _ => h.pure _
  refine h.bind h.bytes4 fun _ => h.bind (h.ensure _ _) fun _ => h.bind h.u8 fun _ =>
    h.bind (h.ensure _ _) fun _ => ?_
  refine h.bind h.array32 fun _ => h.bind h.u64 fun _ => h.bind (h.ensure _ _) fun _ => ?_
  refine h.bind h.point fun _ => h.bind h.point fun _ => h.bind h.scalar fun _ =>
    h.bind h.scalar fun _ => h.bind h.scalar fun _ => ?_
  refine h.bind h.array32 fun _ => h.bind h.array32 fun _ => h.bind h.u32 fun _ =>
    h.bind h.u32 fun _ => h.bind (h.ensure _ _) fun _ => ?_
  exact h.bind h.point fun _ => h.bind h.u32 fun _ => h.bind (h.ensure _ _) fun _ =>
    h.bind (h.times hstep _) fun _ => h.bind h.array32 fun _ => h.pure _

theorem front (U : CharTable) : R (ProofCarryingToken S P) (p.front U) (q.front U) := by
  have hvdf : R VdfProof p.vdf q.vdf :=
    h.bind h.array32 fun _ => h.bind h.u64 fun _ => h.bind h.array32 fun _ => h.pure _
  exact h.bind h.fixed fun _ => h.bind (h.option (h.credential fun _ => h.ensure _ _)) fun _ =>
    h.bind (h.option h.presentation) fun _ => h.bind (h.option hvdf) fun _ =>
    h.bind (h.option h.array32) fun _ => h.pure _

/-- **What relates the helpers relates the decoders.** -/
theorem token (hpool : R Bool p.poolAhead q.poolAhead) (U : CharTable) :
    R (ProofCarryingToken S P) (p.token U) (q.token U) := by
  refine h.bind (h.front U) fun _ => h.bind (h.bind hpool fun present => ?_) fun _ => h.pure _
  cases present with
  | false => exact h.pure []
  | true => exact h.poolBody

end Related

/-! ## 4. The helpers with every panic spelled out -/

variable [Field S] [AddCommGroup P] [Module S P]

namespace Checked

/-- `&data[lo..hi]`. -/
def slice (data : Bytes) (lo hi : Nat) : Except (Fault SerdeError) Bytes :=
  if lo ≤ hi ∧ hi ≤ data.length then .ok ((data.take hi).drop lo) else .error .panic

/-- `bytes[i]`. -/
def index (bytes : Bytes) (i : Nat) : Reader (Fault SerdeError) UInt8 :=
  match bytes[i]? with
  | some b => pure b
  | none => throw .panic

/-- `bytes.try_into().unwrap()`; `copy_from_slice` into an array panics alike. -/
def intoArray (n : Nat) (bytes : Bytes) : Reader (Fault SerdeError) (ByteArr n) :=
  if h : bytes.length = n then pure ⟨bytes, h⟩ else throw .panic

/-- `*pos - 32`. -/
def offset : Reader (Fault SerdeError) Nat := fun _ pos =>
  if 32 ≤ pos then .ok (pos - 32, pos) else .error .panic

def readBytes (len : Nat) : Reader (Fault SerdeError) Bytes := fun data pos =>
  if pos + len > data.length then .error (.error (.bufferTooShort (pos + len) data.length))
  else (slice data pos (pos + len)).map fun bytes => (bytes, pos + len)

def readU8 : Reader (Fault SerdeError) UInt8 := do
  let bytes ← readBytes 1
  index bytes 0

def readU16 : Reader (Fault SerdeError) UInt16 := do
  let bytes ← readBytes 2
  let arr ← intoArray 2 bytes
  pure (UInt16.ofNat (ofLE arr.toList))

def readU32 : Reader (Fault SerdeError) UInt32 := do
  let bytes ← readBytes 4
  let arr ← intoArray 4 bytes
  pure (UInt32.ofNat (ofLE arr.toList))

def readU64 : Reader (Fault SerdeError) UInt64 := do
  let bytes ← readBytes 8
  let arr ← intoArray 8 bytes
  pure (UInt64.ofNat (ofLE arr.toList))

def readArray32 : Reader (Fault SerdeError) Bytes32 := do
  let bytes ← readBytes 32
  intoArray 32 bytes

/-- `CompressedRistretto::from_slice` refuses a slice of another length; the offset of the
    second error is computed whether or not there is one. -/
def readPoint (C : Suite S P) : Reader (Fault SerdeError) P := do
  let bytes ← readBytes 32
  let compressed ← if h : bytes.length = 32 then pure (⟨bytes, h⟩ : Bytes32) else do
    let at_ ← offset
    throw (.error (.invalidPoint at_))
  let at_ ← offset
  match C.decompress compressed with
  | some p => pure p
  | none => throw (.error (.invalidPoint at_))

def readScalar (C : Suite S P) : Reader (Fault SerdeError) S := do
  let bytes ← readBytes 32
  let arr ← intoArray 32 bytes
  let at_ ← offset
  match C.fromCanonicalBytes arr with
  | some s => pure s
  | none => throw (.error (.invalidScalar at_))

def readText : Reader (Fault SerdeError) String := do
  let len ← readU8
  let bytes ← readBytes len.toNat
  pure (fromUtf8Lossy bytes)

/-- What follows `read_bytes` gets the bytes asked for, with the position behind them. -/
theorem readBytes_bind {α : Type} {n : Nat} {f : Bytes → Reader (Fault SerdeError) α}
    {g : ByteArr n → Reader SerdeError α}
    (h : ∀ (b : ByteArr n) (data : Bytes) (pos : Nat), n ≤ pos →
      (f b.toList).run data pos = (total (g b)).run data pos) :
    (readBytes n >>= f) = total (Serde.readBytes n >>= g) := by
  rw [total_bind]
  funext data pos
  show (readBytes n >>= f).run data pos =
    (total (Serde.readBytes n) >>= fun b => total (g b)).run data pos
  rw [run_bind, run_bind]
  unfold run readBytes total Serde.readBytes
  by_cases hlen : pos + n > data.length
  · rw [if_pos hlen, dif_pos hlen]
    rfl
  · have hslice : slice data pos (pos + n) = .ok (Serde.slice data pos n hlen).toList := by
      unfold slice Serde.slice
      rw [if_pos ⟨by omega, by omega⟩, List.drop_take, Nat.add_sub_cancel_left]
      rfl
    rw [if_neg hlen, dif_neg hlen, hslice]
    exact h _ data (pos + n) (Nat.le_add_left n pos)

theorem intoArray_toList {n : Nat} (b : ByteArr n) : intoArray n b.toList = pure b := by
  unfold intoArray
  rw [dif_pos b.toList_length]
  rfl

theorem run_offset {data : Bytes} {pos : Nat} (h : 32 ≤ pos) :
    offset.run data pos = .ok (pos - 32, pos) := if_pos h

theorem readU8_eq : readU8 = total Serde.readU8 := by
  refine readBytes_bind fun b data pos _ => ?_
  obtain ⟨l, hl⟩ := b
  match l, hl with
  | [x], _ => rfl

theorem readU16_eq : readU16 = total Serde.readU16 :=
  readBytes_bind fun b data pos _ => by rw [intoArray_toList, pure_bind]; rfl

theorem readU32_eq : readU32 = total Serde.readU32 :=
  readBytes_bind fun b data pos _ => by rw [intoArray_toList, pure_bind]; rfl

theorem readU64_eq : readU64 = total Serde.readU64 :=
  readBytes_bind fun b data pos _ => by rw [intoArray_toList, pure_bind]; rfl

theorem readBytes_eq (n : Nat) :
    readBytes n = total (Serde.readBytes n >>= fun b => pure b.toList) := by
  have h := readBytes_bind (n := n) (f := fun bytes => (pure bytes : Reader _ Bytes))
    (g := fun b => pure b.toList) fun _ _ _ _ => rfl
  rwa [bind_pure] at h

theorem readArray32_eq : readArray32 = total Serde.readArray32 := by
  have h := readBytes_bind (n := 32) (f := intoArray 32)
    (g := fun b => pure b) fun b _ _ _ => by rw [intoArray_toList]; rfl
  rwa [bind_pure] at h

theorem readPoint_eq (C : Suite S P) : readPoint C = total (Serde.readPoint C) := by
  refine readBytes_bind fun b data pos hpos => ?_
  rw [dif_pos b.toList_length, pure_bind, run_bind, run_offset hpos]
  show (match C.decompress b with
    | some p => (pure p : Reader (Fault SerdeError) P)
    | none => throw (Fault.error (SerdeError.invalidPoint (pos - 32)))).run data pos = _
  unfold run total Reader.ofOption
  cases C.decompress b with
  | none => rfl
  | some p => rfl

theorem readScalar_eq (C : Suite S P) : readScalar C = total (Serde.readScalar C) := by
  refine readBytes_bind fun b data pos hpos => ?_
  rw [intoArray_toList, pure_bind, run_bind, run_offset hpos]
  show (match C.fromCanonicalBytes b with
    | some s => (pure s : Reader (Fault SerdeError) S)
    | none => throw (Fault.error (SerdeError.invalidScalar (pos - 32)))).run data pos = _
  unfold run total Reader.ofOption
  cases C.fromCanonicalBytes b with
  | none => rfl
  | some s => rfl

theorem readText_eq : readText = total Serde.readString := by
  unfold readText Serde.readString
  rw [readU8_eq, total_bind]
  refine bind_congr fun len => ?_
  exact readBytes_bind fun _ _ _ _ => rfl

end Checked

/-- The helpers with every panic spelled out. -/
def checked (C : Suite S P) : Primitives (M (Fault SerdeError)) S P where
  bytes4 := Checked.readBytes 4
  u8 := Checked.readU8
  u16 := Checked.readU16
  u32 := Checked.readU32
  u64 := Checked.readU64
  array32 := Checked.readArray32
  point := Checked.readPoint C
  scalar := Checked.readScalar C
  flag := Checked.readU8
  bool := Checked.readU8
  text := Checked.readText
  poolAhead := available 2
  fail e := throw (.error e)

/-- No helper panics, wherever it starts. -/
theorem checked_related (C : Suite S P) :
    Related (fun _ x y => x = total y) (checked C) (source C) where
  pure _ := rfl
  bind := by
    rintro α β x y f g rfl hfg
    rw [total_bind, funext hfg]
  bytes4 := Checked.readBytes_eq 4
  u8 := Checked.readU8_eq
  u16 := Checked.readU16_eq
  u32 := Checked.readU32_eq
  u64 := Checked.readU64_eq
  array32 := Checked.readArray32_eq
  point := Checked.readPoint_eq C
  scalar := Checked.readScalar_eq C
  flag := Checked.readU8_eq
  bool := Checked.readU8_eq
  text := Checked.readText_eq
  fail _ := rfl

end Primitives

/-! ## 5. The decoder inside its buffer -/

variable [Field S] [AddCommGroup P] [Module S P]

theorem run_readBytes_ok {len : Nat} {data : Bytes} {pos pos' : Nat} {b : ByteArr len}
    (h : (readBytes len).run data pos = .ok (b, pos')) :
    pos' = pos + len ∧ pos + len ≤ data.length ∧ data.drop pos = b.toList ++ data.drop pos' := by
  unfold run readBytes at h
  by_cases hlen : pos + len > data.length
  · rw [dif_pos hlen] at h
    cases h
  · rw [dif_neg hlen] at h
    cases h
    refine ⟨rfl, Nat.not_lt.mp hlen, ?_⟩
    show data.drop pos = (data.drop pos).take len ++ data.drop (pos + len)
    rw [← List.drop_drop, List.take_append_drop]

theorem run_readBytes_of {len : Nat} {data rest : Bytes} {pos : Nat} {b : ByteArr len}
    (hpos : pos ≤ data.length) (h : data.drop pos = b.toList ++ rest) :
    (readBytes len).run data pos = .ok (b, pos + len) := by
  have hrun := reads_bytes b data pos rest ⟨hpos, h⟩
  rwa [b.toList_length] at hrun

theorem local_readBytes (len : Nat) : Local (readBytes len) where
  extension := by
    intro data pos pos' b ext h
    obtain ⟨rfl, hle, hdrop⟩ := run_readBytes_ok h
    have hmore : (data ++ ext).drop pos = b.toList ++ (data.drop (pos + len) ++ ext) := by
      rw [List.drop_append_of_le_length (by omega), hdrop, List.append_assoc]
    refine run_readBytes_of ?_ hmore
    rw [List.length_append]
    omega
  restriction := by
    intro data ext pos pos' b h hle
    obtain ⟨rfl, _, hdrop⟩ := run_readBytes_ok h
    rw [List.drop_append_of_le_length (by omega), List.drop_append_of_le_length hle,
      ← List.append_assoc] at hdrop
    exact run_readBytes_of (by omega) (List.append_cancel_right hdrop)
  advance := by
    intro data pos pos' b h
    obtain ⟨rfl, _, _⟩ := run_readBytes_ok h
    exact Nat.le_add_right pos len
  inside := by
    intro data pos pos' b _ h
    obtain ⟨rfl, hle, _⟩ := run_readBytes_ok h
    exact hle

/-- The helpers depend on the bytes they consume. -/
theorem source_local (C : Suite S P) :
    Primitives.Related (fun _ x _ => Local x) (Primitives.source C) (Primitives.source C) where
  pure a := .pure a
  bind := .bind
  bytes4 := .bind (local_readBytes 4) fun _ => .pure _
  u8 := .bind (local_readBytes 1) fun _ => .pure _
  u16 := .bind (local_readBytes 2) fun _ => .pure _
  u32 := .bind (local_readBytes 4) fun _ => .pure _
  u64 := .bind (local_readBytes 8) fun _ => .pure _
  array32 := local_readBytes 32
  point := .bind (local_readBytes 32) fun _ => .ofOption _ _
  scalar := .bind (local_readBytes 32) fun _ => .ofOption _ _
  flag := .bind (local_readBytes 1) fun _ => .pure _
  bool := .bind (local_readBytes 1) fun _ => .pure _
  text := .bind (.bind (local_readBytes 1) fun _ => .pure _) fun len =>
    .bind (local_readBytes len.toNat) fun _ => .pure _
  fail e := .throw e

/-- A decoded token is its part before the pool, and the pool where there are two more bytes. -/
theorem run_token_ok {C : Suite S P} {U : CharTable} {data : Bytes} {pos : Nat}
    {t : ProofCarryingToken S P}
    (h : Reader.run ((Primitives.source C).token U) data 0 = .ok (t, pos)) :
    ∃ t₀ mid, Reader.run ((Primitives.source C).front U) data 0 = .ok (t₀, mid) ∧
      ((mid + 2 ≤ data.length ∧ ∃ entries,
          Reader.run (Primitives.source C).poolBody data mid = .ok (entries, pos) ∧
          t = { t₀ with credentialPool := entries }) ∨
        (data.length < mid + 2 ∧ pos = mid ∧ t = { t₀ with credentialPool := [] })) := by
  obtain ⟨t₀, mid, hfront, hrest⟩ := run_bind_ok h
  obtain ⟨entries, pos₁, hpool, hpure⟩ := run_bind_ok hrest
  obtain ⟨present, pos₂, hahead, hbody⟩ := run_bind_ok hpool
  rw [run_pure] at hpure
  cases hpure
  refine ⟨t₀, mid, hfront, ?_⟩
  have hpresent : decide (mid + 2 ≤ data.length) = present ∧ mid = pos₂ := by
    have hav : Reader.run (available 2) data mid =
        (.ok (decide (mid + 2 ≤ data.length), mid) : Except SerdeError _) := rfl
    exact Prod.mk.inj (Except.ok.inj (hav.symm.trans hahead))
  obtain ⟨hdec, rfl⟩ := hpresent
  cases present with
  | false =>
      rw [if_neg (by decide), run_pure] at hbody
      cases hbody
      exact .inr ⟨Nat.not_le.mp (of_decide_eq_false hdec), rfl, rfl⟩
  | true =>
      rw [if_pos rfl] at hbody
      exact .inl ⟨of_decide_eq_true hdec, entries, hbody, rfl⟩

/-- The cursor ends inside the buffer. -/
theorem token_inside {C : Suite S P} {U : CharTable} {data : Bytes} {pos : Nat}
    {t : ProofCarryingToken S P}
    (h : Reader.run ((Primitives.source C).token U) data 0 = .ok (t, pos)) :
    pos ≤ data.length := by
  obtain ⟨t₀, mid, hfront, htail⟩ := run_token_ok h
  have hmid : mid ≤ data.length :=
    Local.inside ((source_local C).front U) (Nat.zero_le _) hfront
  rcases htail with ⟨_, entries, hbody, _⟩ | ⟨_, rfl, _⟩
  · exact Local.inside (source_local C).poolBody hmid hbody
  · exact hmid

/-! ## 6. The decoder never panics -/

/-- `deserialize_token` with every panic spelled out, and the cursor it ends at. -/
def deserializeTokenChecked (C : Suite S P) (U : CharTable) (data : Bytes) :
    Except (Fault SerdeError) (ProofCarryingToken S P × Nat) :=
  Reader.run ((Primitives.checked C).token U) data 0

/-- With every panic spelled out, the decoder is the one without. -/
theorem deserializeTokenChecked_eq (C : Suite S P) (U : CharTable) (data : Bytes) :
    deserializeTokenChecked C U data =
      (Reader.run ((Primitives.source C).token U) data 0).mapError Fault.error := by
  have h := (Primitives.checked_related C).token rfl U
  unfold deserializeTokenChecked
  rw [h]
  rfl

/-- **The decoder is safe on every input.** With every slice, index, conversion and
    subtraction of the helpers free to panic, none does: `deserialize_token` returns what
    `deserializeToken` says, its cursor ends inside the input, and a decoded token has a
    value, no more transfers than its bound, as many steps as it counts, and no more steps and
    pool entries than the caps. -/
theorem deserializeToken_safe (C : Suite S P) (U : CharTable) (data : Bytes) :
    deserializeTokenChecked C U data ≠ .error .panic ∧
    (deserializeTokenChecked C U data).map Prod.fst =
      (deserializeToken C U data).mapError Fault.error ∧
    ∀ t pos, deserializeTokenChecked C U data = .ok (t, pos) →
      pos ≤ data.length ∧ t.value ≠ 0 ∧ t.transferCount ≤ t.recursionBound ∧
      t.foldProof.steps.toNat = t.foldProof.stepsChain.length ∧
      t.foldProof.stepsChain.length ≤ 10000 ∧ t.credentialPool.length ≤ 10000 := by
  have hdecode := Primitives.token_source C U data
  unfold Reader.decode at hdecode
  rw [deserializeTokenChecked_eq]
  refine ⟨mapError_ne_panic _, ?_, fun t pos h => ?_⟩
  · rw [← hdecode]
    cases Reader.run ((Primitives.source C).token U) data 0 with
    | error e => rfl
    | ok p => rfl
  · cases hrun : Reader.run ((Primitives.source C).token U) data 0 with
    | error e =>
        rw [hrun] at h
        cases h
    | ok p =>
        rw [hrun] at h hdecode
        cases h
        obtain ⟨hadm, hsteps, _⟩ := (yields_token U).decode hdecode.symm
        exact ⟨token_inside hrun, hadm.value, hadm.count, hsteps, hadm.chain, hadm.pool⟩

/-- The encoding of the sample token, decoded with every panic spelled out. -/
theorem sampleWireToken_decoded_safely :
    let data := serializeToken sampleSuite sampleWireToken
    deserializeTokenChecked sampleSuite asciiTable data ≠ .error .panic ∧
      deserializeTokenChecked sampleSuite asciiTable data =
        .ok (sampleWireToken, data.length) ∧
      sampleWireToken.foldProof.steps.toNat = sampleWireToken.foldProof.stepsChain.length := by
  intro data
  have hrun : Reader.run ((Primitives.source sampleSuite).token asciiTable) data 0 =
      .ok (sampleWireToken, data.length) := by
    have hreads := (readsIf_token (C := sampleSuite) sampleWireToken_fits).reads
      sampleWireToken_admitted
    rw [Primitives.token_source_eq, hreads data 0 [] ?_, Nat.zero_add]
    rw [List.append_nil]
    exact Ahead.start data
  have hdecoded : deserializeTokenChecked sampleSuite asciiTable data =
      .ok (sampleWireToken, data.length) := by
    rw [deserializeTokenChecked_eq, hrun]
    rfl
  obtain ⟨hpanic, _, hlimits⟩ := deserializeToken_safe sampleSuite asciiTable data
  obtain ⟨_, _, _, hsteps, _⟩ := hlimits _ _ hdecoded
  exact ⟨hpanic, hdecoded, hsteps⟩

end Serde

end Specter
