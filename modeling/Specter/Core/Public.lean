/-
  File:      Specter/Core/Public.lean
  Subject:   THE BYTES A SENDER PUTS ON THE WIRE (`serialize_token_public` of
             specter-core/src/serde_token.rs).

  The token is serialized whole and two stretches are then overwritten with zeros, at offsets
  computed from the number of fold steps.

  * `serializeTokenPublic_eq` -- what the overwriting leaves: the owner secret and the blinding
    of the token's own credential are gone, the blindings of the pool are not;
  * `serializeTokenPublic_eq_iff` -- two tokens that agree but for their secrets have the same
    public bytes exactly where the blindings of their pools agree;
  * `received_iff` -- a token sent this way is accepted by the receiver exactly where the key of
    the zero secret is its chain tip and the decoder admits it.
-/
import Specter.Core.Mint
import Specter.Core.Serde

namespace Specter

open Lib Lib.Reader

variable {S P : Type} [Field S] [AddCommGroup P] [Module S P]

namespace Serde

/-- `buf[off..off + len].fill(0)`. -/
def fillZero (buf : Bytes) (off len : Nat) : Bytes :=
  buf.take off ++ List.replicate len 0 ++ buf.drop (off + len)

def ownerSecretOffset : Nat := 4 + 1 + 32 + 8 + 32 + 32 + 32 + 32 + 32

def credFlagOffset (foldSteps : Nat) : Nat :=
  ownerSecretOffset + 32 + 32 + 4 + 4 + 32 + 4 + foldSteps * 96 + 32

/-- The second overwriting: the blinding behind the flag byte of a present credential. -/
def fillBlinding (buf : Bytes) (foldSteps : Nat) : Bytes :=
  let flag := credFlagOffset foldSteps
  if buf.length > flag ∧ buf[flag]? = some 1 then
    let blindingOffset := flag + 1 + 32
    if buf.length ≥ blindingOffset + 32 then fillZero buf blindingOffset 32 else buf
  else buf

def serializeTokenPublic (C : Suite S P) (token : ProofCarryingToken S P) : Bytes :=
  let buf := serializeToken C token
  let buf := if buf.length ≥ ownerSecretOffset + 32 then fillZero buf ownerSecretOffset 32 else buf
  fillBlinding buf token.foldProof.steps.toNat

variable {C : Suite S P}

/-! ## 1. What is overwritten -/

theorem fillZero_append {a b c : Bytes} {off len : Nat} (ha : a.length = off)
    (hb : b.length = len) :
    fillZero (a ++ (b ++ c)) off len = a ++ (List.replicate len 0 ++ c) := by
  subst ha hb
  unfold fillZero
  rw [List.take_left, ← List.drop_drop, List.drop_left, List.drop_left, List.append_assoc]

@[simp] theorem length_writePoint (p : P) : (writePoint C p).length = 32 :=
  (C.compress p).toList_length

@[simp] theorem length_writeScalar (s : S) : (writeScalar C s).length = 32 :=
  (C.asBytes s).toList_length

theorem length_writeHead (token : ProofCarryingToken S P) :
    (writeHead C token).length = ownerSecretOffset := by
  have hmagic : magic.length = 4 := rfl
  unfold writeHead
  simp [hmagic, ownerSecretOffset]

theorem length_writeSteps (chain : List (TransferStep S P)) :
    (chain.flatMap (writeStep C)).length = chain.length * 96 := by
  induction chain with
  | nil => rfl
  | cons step chain ih =>
      rw [List.flatMap_cons, List.length_append, ih]
      simp [writeStep]
      omega

theorem length_writeChain {token : ProofCarryingToken S P}
    (hsteps : token.foldProof.steps.toNat = token.foldProof.stepsChain.length) :
    ownerSecretOffset + 32 + (writeChain C token).length =
      credFlagOffset token.foldProof.steps.toNat := by
  have hlen := length_writeSteps (C := C) token.foldProof.stepsChain
  unfold writeChain credFlagOffset
  rw [hsteps]
  simp only [List.length_append, length_le32, length_writePoint, List.Vector.toList_length, hlen]
  omega

/-- What stands behind the blinding in a credential block. -/
def writeCredentialRest (C : Suite S P) (cred : Credential S P) : Bytes :=
  [writeBool cred.attributes.kycPassed] ++ [writeBool cred.attributes.notSanctioned] ++
  writeString cred.attributes.jurisdiction ++ [writeBool cred.attributes.ageOver18] ++
  le64 cred.attributes.expiresAt ++ writeScalar C cred.signatureS ++
  writeScalar C cred.signatureE ++ writePoint C cred.issuerPk

theorem writeCredential_eq (cred : Credential S P) :
    writeCredential C cred = writePoint C cred.commitment ++
      (writeScalar C cred.blinding ++ writeCredentialRest C cred) := by
  unfold writeCredential writeCredentialRest
  simp only [List.append_assoc]

/-- The credential block with zeros for the blinding. -/
def sealCredential (C : Suite S P) (cred : Credential S P) : Bytes :=
  writePoint C cred.commitment ++ (List.replicate 32 0 ++ writeCredentialRest C cred)

/-- The second overwriting finds the flag byte and, behind it, the blinding. -/
theorem fillBlinding_eq {pre rest : Bytes} {cred : Option (Credential S P)} {n : Nat}
    (hpre : pre.length = credFlagOffset n) :
    fillBlinding (pre ++ (writeOption (writeCredential C) cred ++ rest)) n =
      pre ++ (writeOption (sealCredential C) cred ++ rest) := by
  have hflag : ∀ b bs, (pre ++ b :: bs)[credFlagOffset n]? = some b := by
    intro b bs
    rw [← hpre, List.getElem?_append_right (Nat.le_refl _), Nat.sub_self]
    rfl
  cases cred with
  | none =>
      show fillBlinding (pre ++ 0 :: rest) n = pre ++ 0 :: rest
      unfold fillBlinding
      rw [if_neg]
      intro h
      rw [hflag] at h
      exact absurd h.2 (by decide)
  | some c =>
      show fillBlinding (pre ++ 1 :: (writeCredential C c ++ rest)) n =
        pre ++ 1 :: (sealCredential C c ++ rest)
      unfold fillBlinding
      rw [if_pos ⟨by simp [hpre], hflag _ _⟩]
      dsimp only
      rw [if_pos]
      · -- the flag byte and the commitment stand before the blinding
        rw [writeCredential_eq, sealCredential]
        have hsplit : ∀ x : Bytes,
            pre ++ 1 :: (writePoint C c.commitment ++ (x ++ writeCredentialRest C c) ++ rest) =
              (pre ++ [1] ++ writePoint C c.commitment) ++
                (x ++ (writeCredentialRest C c ++ rest)) := by
          intro x
          simp only [List.append_assoc, List.cons_append, List.nil_append]
        rw [hsplit, hsplit, fillZero_append]
        · simp [hpre]
        · exact length_writeScalar _
      · rw [writeCredential_eq]
        simp [hpre]
        omega

/-- **The public bytes**: zeros for the owner secret and for the blinding of the token's own
    credential; everything else, the pool included, as it is. -/
theorem serializeTokenPublic_eq {token : ProofCarryingToken S P}
    (hsteps : token.foldProof.steps.toNat = token.foldProof.stepsChain.length) :
    serializeTokenPublic C token =
      writeHead C token ++ List.replicate 32 0 ++ writeChain C token ++
        (writeOption (sealCredential C) token.credential ++ writeTail C token) := by
  have hhead := length_writeHead (C := C) token
  have hsecret : token.ownerSecret.toList.length = 32 := token.ownerSecret.toList_length
  have hbuf : serializeToken C token = writeHead C token ++ (token.ownerSecret.toList ++
      (writeChain C token ++ (writeOption (writeCredential C) token.credential ++
        writeTail C token))) := by
    unfold serializeToken
    simp only [List.append_assoc]
  unfold serializeTokenPublic
  rw [hbuf]
  dsimp only
  rw [if_pos, fillZero_append hhead hsecret]
  · rw [← List.append_assoc, ← List.append_assoc]
    refine fillBlinding_eq ?_
    have hchain := length_writeChain (C := C) hsteps
    simp only [List.length_append, List.length_replicate, hhead]
    omega
  · simp only [List.length_append, hhead, hsecret]
    omega

/-! ## 2. What the public bytes say about the secrets -/

/-- The credential without its blinding. -/
def unblind (cred : Credential S P) : Credential S P := { cred with blinding := 0 }

def unblindEntry (e : Credential S P × Presentation S P) : Credential S P × Presentation S P :=
  (unblind e.1, e.2)

/-- The token without its secrets: the owner secret, the blinding of its credential and the
    blindings in its pool. Two tokens differ only in these where this agrees. -/
def withoutSecrets (token : ProofCarryingToken S P) : ProofCarryingToken S P :=
  { token with
    ownerSecret := zero32
    credential := token.credential.map unblind
    credentialPool := token.credentialPool.map unblindEntry }

/-- The blindings of the pool, in order. -/
def poolBlindings (token : ProofCarryingToken S P) : List S :=
  token.credentialPool.map fun e => e.1.blinding

omit [AddCommGroup P] [Module S P] in
theorem entry_ext {e e' : Credential S P × Presentation S P}
    (h : unblindEntry e = unblindEntry e') (hb : e.1.blinding = e'.1.blinding) : e = e' := by
  obtain ⟨⟨com, b, a, s, c, pk⟩, p⟩ := e
  obtain ⟨⟨com', b', a', s', c', pk'⟩, p'⟩ := e'
  simp only [unblindEntry, unblind, Prod.mk.injEq, Credential.mk.injEq] at h hb ⊢
  obtain ⟨⟨hcom, _, ha, hs, hc, hpk⟩, hp⟩ := h
  exact ⟨⟨hcom, hb, ha, hs, hc, hpk⟩, hp⟩

omit [AddCommGroup P] [Module S P] in
/-- A pool is its entries without their blindings, and the blindings. -/
theorem pool_ext : ∀ {pool pool' : List (Credential S P × Presentation S P)},
    pool.map unblindEntry = pool'.map unblindEntry →
    pool.map (·.1.blinding) = pool'.map (·.1.blinding) → pool = pool'
  | [], [], _, _ => rfl
  | [], _ :: _, h, _ => by simp at h
  | _ :: _, [], h, _ => by simp at h
  | e :: pool, e' :: pool', h, hb => by
      simp only [List.map_cons, List.cons.injEq] at h hb
      rw [entry_ext h.1 hb.1, pool_ext h.2 hb.2]

/-- The bytes of pools that agree but for their blindings give the blindings away. -/
theorem blindings_of_entries : ∀ {pool pool' : List (Credential S P × Presentation S P)},
    pool.map unblindEntry = pool'.map unblindEntry →
    (pool.flatMap fun e => writeCredential C e.1 ++ writePresentation C e.2) =
      (pool'.flatMap fun e => writeCredential C e.1 ++ writePresentation C e.2) →
    pool.map (·.1.blinding) = pool'.map (·.1.blinding)
  | [], [], _, _ => rfl
  | [], _ :: _, h, _ => by simp at h
  | _ :: _, [], h, _ => by simp at h
  | e :: pool, e' :: pool', h, hbytes => by
      simp only [List.map_cons, List.cons.injEq] at h ⊢
      have hcom : e.1.commitment = e'.1.commitment := congrArg (·.1.commitment) h.1
      have hrest : writeCredentialRest C e.1 = writeCredentialRest C e'.1 := by
        show writeCredentialRest C (unblind e.1) = writeCredentialRest C (unblind e'.1)
        rw [show unblind e.1 = unblind e'.1 from congrArg (·.1) h.1]
      have hpres : e.2 = e'.2 := congrArg (·.2) h.1
      rw [List.flatMap_cons, List.flatMap_cons, writeCredential_eq e.1, writeCredential_eq e'.1,
        hcom, hrest, hpres] at hbytes
      simp only [List.append_assoc] at hbytes
      obtain ⟨hb, hbytes⟩ := append_inj_arr (List.append_cancel_left hbytes)
      have htail := List.append_cancel_left (List.append_cancel_left hbytes)
      exact ⟨C.asBytes_inj.mp hb, blindings_of_entries h.2 htail⟩

theorem sealCredential_section {cred cred' : Option (Credential S P)}
    (h : cred.map unblind = cred'.map unblind) :
    writeOption (sealCredential C) cred = writeOption (sealCredential C) cred' := by
  have hmap : ∀ o : Option (Credential S P),
      writeOption (sealCredential C) (o.map unblind) = writeOption (sealCredential C) o := by
    intro o
    cases o <;> rfl
  rw [← hmap cred, h, hmap]

/-- **What the public bytes give away**: of two tokens that differ only in their secrets, with
    chains of the stated length, they are the same exactly where the blindings of the pools
    are. -/
theorem serializeTokenPublic_eq_iff {token token' : ProofCarryingToken S P}
    (hsame : withoutSecrets token = withoutSecrets token')
    (hsteps : token.foldProof.steps.toNat = token.foldProof.stepsChain.length) :
    serializeTokenPublic C token = serializeTokenPublic C token' ↔
      poolBlindings token = poolBlindings token' := by
  have hfold : token.foldProof = token'.foldProof :=
    congrArg (·.foldProof) hsame
  have hhead : writeHead C token = writeHead C token' := by
    show writeHead C (withoutSecrets token) = writeHead C (withoutSecrets token')
    rw [hsame]
  have hchain : writeChain C token = writeChain C token' := by
    show writeChain C (withoutSecrets token) = writeChain C (withoutSecrets token')
    rw [hsame]
  have hcred : writeOption (sealCredential C) token.credential =
      writeOption (sealCredential C) token'.credential :=
    sealCredential_section (congrArg (·.credential) hsame)
  have hpres : token.presentation = token'.presentation :=
    congrArg (·.presentation) hsame
  have hvdf : token.vdfProof = token'.vdfProof := congrArg (·.vdfProof) hsame
  have hbond : token.bondOwnerId = token'.bondOwnerId :=
    congrArg (·.bondOwnerId) hsame
  have hpool : token.credentialPool.map unblindEntry = token'.credentialPool.map unblindEntry :=
    congrArg (·.credentialPool) hsame
  have hlen : token.credentialPool.length = token'.credentialPool.length := by
    simpa using congrArg List.length hpool
  rw [serializeTokenPublic_eq hsteps, serializeTokenPublic_eq (hfold ▸ hsteps), hhead, hchain,
    hcred]
  unfold writeTail writePool poolBlindings
  rw [hpres, hvdf, hbond, hlen]
  constructor
  · intro hbytes
    -- everything before the pool entries is common, so the entries agree byte for byte
    have hentries := List.append_cancel_left (List.append_cancel_left (List.append_cancel_left
      (List.append_cancel_left hbytes)))
    exact blindings_of_entries hpool hentries
  · intro hb
    rw [pool_ext hpool hb]

/-- The sample token with another blinding in its pool. -/
def samplePoolTwin : ProofCarryingToken SampleScalar SamplePoint :=
  { sampleWireToken with
    credentialPool := [({ sampleCredential with blinding := 6 }, samplePresentation)] }

/-- Two tokens that differ in one blinding of the pool, told apart by their public bytes. -/
theorem serializeTokenPublic_tells_pool :
    ∃ token token' : ProofCarryingToken SampleScalar SamplePoint,
      withoutSecrets token = withoutSecrets token' ∧
      token.foldProof.steps.toNat = token.foldProof.stepsChain.length ∧
      serializeTokenPublic sampleSuite token ≠ serializeTokenPublic sampleSuite token' :=
  ⟨sampleWireToken, samplePoolTwin, by decide +kernel, by decide, by decide +kernel⟩

/-- The sample token under another owner secret and with another blinding of its own. -/
def sampleSecretTwin : ProofCarryingToken SampleScalar SamplePoint :=
  { sampleWireToken with
    ownerSecret := leArr 32 70
    credential := some { sampleCredential with blinding := 6 } }

theorem serializeTokenPublic_hides_own :
    sampleWireToken ≠ sampleSecretTwin ∧
      serializeTokenPublic sampleSuite sampleWireToken =
        serializeTokenPublic sampleSuite sampleSecretTwin :=
  ⟨by decide +kernel,
    (serializeTokenPublic_eq_iff (by decide +kernel) (by decide)).mpr (by decide +kernel)⟩

/-! ## 3. The receiver -/

/-- The token whose bytes the public ones are. -/
def publicPart (token : ProofCarryingToken S P) : ProofCarryingToken S P :=
  { token with ownerSecret := zero32, credential := token.credential.map unblind }

/-- Where the scalar 0 is 32 zero bytes, the public bytes are those of `publicPart`. -/
theorem serializeTokenPublic_publicPart {token : ProofCarryingToken S P}
    (hzero : C.asBytes 0 = zero32)
    (hsteps : token.foldProof.steps.toNat = token.foldProof.stepsChain.length) :
    serializeTokenPublic C token = serializeToken C (publicPart token) := by
  have hz : zero32.toList = List.replicate 32 0 := rfl
  have hcred : writeOption (writeCredential C) (token.credential.map unblind) =
      writeOption (sealCredential C) token.credential := by
    cases token.credential with
    | none => rfl
    | some c =>
        show 1 :: writeCredential C (unblind c) = 1 :: sealCredential C c
        rw [writeCredential_eq]
        unfold writeScalar sealCredential
        rw [show (unblind c).blinding = 0 from rfl, hzero, hz]
        rfl
  rw [serializeTokenPublic_eq hsteps]
  unfold serializeToken
  rw [← hz, ← hcred, List.append_assoc _ (writeOption _ _) (writeTail C _)]
  rfl

/-- The fixed part is decoded as it was written, whatever stands behind it. -/
theorem deserializeToken_fixed {U : CharTable} {token token' : ProofCarryingToken S P}
    {rest : Bytes} (hsteps : token.foldProof.steps.toNat = token.foldProof.stepsChain.length)
    (h : deserializeToken C U (writeFixed C token ++ rest) = .ok token') :
    fixedPart token' = fixedPart token := by
  have hfixed := readsIf_fixed (C := C) hsteps
  have hahead := Ahead.start (writeFixed C token ++ rest)
  unfold deserializeToken Reader.decode at h
  cases hrun : Reader.run (readFixed C >>= readSections C U) (writeFixed C token ++ rest) 0 with
  | error e =>
      rw [hrun] at h
      cases h
  | ok q =>
      rw [hrun] at h
      cases h
      obtain ⟨fixed, pos, hf, hs⟩ := run_bind_ok hrun
      by_cases hadm : FixedAdmitted token
      · rw [hfixed.reads hadm _ 0 rest hahead] at hf
        cases hf
        exact (yields_sections U _ _ _ _ _ hs).1
      · obtain ⟨e, he⟩ := hfixed.rejects hadm _ 0 rest hahead
        rw [he] at hf
        cases hf

theorem credentialVerdict_publicPart (token : ProofCarryingToken S P) (cpp : PedersenParams P)
    (now : UInt64) :
    credentialVerdict C (publicPart token) cpp now = credentialVerdict C token cpp now := by
  unfold credentialVerdict publicPart
  cases token.credential <;> rfl

variable [DecidableEq P]

/-- Of the checks an accepted token passes, only the owner binding reads what is zeroed. -/
theorem verified_publicPart {token : ProofCarryingToken S P} {gpk : P}
    {pp cpp : PedersenParams P} {now : UInt64} (h : Verified C token gpk pp cpp now) :
    Verified C (publicPart token) gpk pp cpp now ↔
      Accumulator.deriveOwnerSigningPk C zero32 = token.foldProof.currentOwnerPk := by
  obtain ⟨_, hsteps, hsigned⟩ := foldVerdict_iff.mp h.fold
  constructor
  · intro hpub
    exact (foldVerdict_iff.mp hpub.fold).1
  · intro htip
    exact
      { value := h.value
        signature := h.signature
        valueProof := h.valueProof
        bound := h.bound
        fold := foldVerdict_iff.mpr ⟨htip, hsteps, hsigned⟩
        credential := by
          rw [credentialVerdict_publicPart]
          exact h.credential
        vdf := h.vdf }

/-- What the receiver does with the bytes of `send`: decode them, and accept the token if it
    verifies. -/
def Received (C : Suite S P) (U : CharTable) (token : ProofCarryingToken S P) (gpk : P)
    (pp cpp : PedersenParams P) (now : UInt64) : Prop :=
  ∃ token', deserializeToken C U (serializeTokenPublic C token) = .ok token' ∧
    AllValid C token' gpk pp cpp now

omit [DecidableEq P] [AddCommGroup P] [Module S P] in
theorem wireFits_publicPart {token : ProofCarryingToken S P} (h : WireFits token) :
    WireFits (publicPart token) where
  steps := h.steps
  credential := by
    intro c hc
    obtain ⟨c₀, hc₀, rfl⟩ := Option.map_eq_some_iff.mp hc
    exact h.credential c₀ hc₀
  presentation := h.presentation
  pool := h.pool
  entries := h.entries

omit [DecidableEq P] [AddCommGroup P] [Module S P] in
theorem admitted_publicPart {U : CharTable} {token : ProofCarryingToken S P} :
    Admitted U (publicPart token) ↔ Admitted U token := by
  have hj : (∀ c ∈ token.credential.map unblind, SafeJurisdiction U c) ↔
      ∀ c ∈ token.credential, SafeJurisdiction U c := by
    cases token.credential with
    | none => exact ⟨fun _ c hc => (nomatch hc), fun _ c hc => (nomatch hc)⟩
    | some c =>
        constructor
        · intro h c' hc'
          cases hc'
          exact h (unblind c) rfl
        · intro h c' hc'
          cases hc'
          exact h c rfl
  exact ⟨fun h => ⟨h.value, h.count, h.chain, hj.mp h.jurisdiction, h.pool⟩,
    fun h => ⟨h.value, h.count, h.chain, hj.mpr h.jurisdiction, h.pool⟩⟩

/-- **When a sent token is received.** Let `token` be accepted by its holder. If the receiver
    accepts what `serialize_token_public` sends, then the key derived from the all-zero secret
    is the tip of its chain; and if its counts and lengths are those its bytes say, the
    receiver accepts exactly where that is so and the decoder's limits are kept. -/
theorem received_iff {U : CharTable} {token : ProofCarryingToken S P} {gpk : P}
    {pp cpp : PedersenParams P} {now : UInt64} (hzero : C.asBytes 0 = zero32)
    (hvalid : AllValid C token gpk pp cpp now) :
    (Received C U token gpk pp cpp now →
      Accumulator.deriveOwnerSigningPk C zero32 = token.foldProof.currentOwnerPk) ∧
    (WireFits token → (Received C U token gpk pp cpp now ↔
      Accumulator.deriveOwnerSigningPk C zero32 = token.foldProof.currentOwnerPk ∧
        Admitted U token)) := by
  have hver := allValid_iff.mp hvalid
  obtain ⟨_, hsteps, _⟩ := foldVerdict_iff.mp hver.fold
  have hbytes := serializeTokenPublic_publicPart hzero hsteps
  refine ⟨?_, fun hfit => ?_⟩
  · rintro ⟨token', hdec, hval'⟩
    rw [hbytes, serializeToken_eq] at hdec
    have hsteps' : (publicPart token).foldProof.steps.toNat =
        (publicPart token).foldProof.stepsChain.length := hsteps
    have hsame := deserializeToken_fixed hsteps' hdec
    have hsecret : token'.ownerSecret = zero32 := congrArg (·.ownerSecret) hsame
    have hfold : token'.foldProof = token.foldProof := congrArg (·.foldProof) hsame
    have htip := (foldVerdict_iff.mp (allValid_iff.mp hval').fold).1
    rwa [hsecret, hfold] at htip
  · have hfit' := wireFits_publicPart hfit
    constructor
    · rintro ⟨token', hdec, hval'⟩
      rw [hbytes, deserializeToken_serializeToken_iff hfit'] at hdec
      obtain ⟨hadm, rfl⟩ := hdec
      exact ⟨(verified_publicPart hver).mp (allValid_iff.mp hval'), admitted_publicPart.mp hadm⟩
    · rintro ⟨htip, hadm⟩
      refine ⟨publicPart token, ?_, allValid_iff.mpr ((verified_publicPart hver).mpr htip)⟩
      rw [hbytes, deserializeToken_serializeToken_iff hfit']
      exact ⟨admitted_publicPart.mpr hadm, rfl⟩

/-- A token the mint issued and its holder accepts is refused by the receiver. -/
theorem issued_token_not_received :
    ∃ token, sampleMint.issue sampleSuite 10 [1] none (sampleIssueRandom 0) = .ok token ∧
      AllValid sampleSuite token sampleMint.groupPublicKey sampleMint.pedersen
        sampleMint.credentialIssuer.pedersen 0 ∧
      ¬ Received sampleSuite asciiTable token sampleMint.groupPublicKey sampleMint.pedersen
        sampleMint.credentialIssuer.pedersen 0 := by
  have hrun : ((sampleMint.issue sampleSuite 10 [1] none (sampleIssueRandom 0)).toOption.bind
      fun t => (verifyToken sampleSuite t sampleMint.groupPublicKey sampleMint.pedersen
        sampleMint.credentialIssuer.pedersen 0).bind
      fun vr => (deserializeToken sampleSuite asciiTable
        (serializeTokenPublic sampleSuite t)).toOption.bind
      fun t' => (verifyToken sampleSuite t' sampleMint.groupPublicKey sampleMint.pedersen
        sampleMint.credentialIssuer.pedersen 0).map
      fun vr' => decide (vr.allValid = true ∧ vr'.allValid = false)) = some true := by
    decide +kernel
  obtain ⟨t, ht, hrun⟩ := Option.bind_eq_some_iff.mp hrun
  obtain ⟨vr, hvr, hrun⟩ := Option.bind_eq_some_iff.mp hrun
  obtain ⟨t', ht', hrun⟩ := Option.bind_eq_some_iff.mp hrun
  obtain ⟨vr', hvr', hfacts⟩ := Option.map_eq_some_iff.mp hrun
  obtain ⟨hall, hnot⟩ := of_decide_eq_true hfacts
  refine ⟨t, ok_of_toOption ht, ⟨vr, hvr, hall⟩, ?_⟩
  rintro ⟨t'', hdec, vr'', hvr'', hall''⟩
  rw [ok_of_toOption ht'] at hdec
  cases hdec
  rw [hvr'] at hvr''
  cases hvr''
  rw [hnot] at hall''
  cases hall''

/-- The draws of an issuance whose owner secret is all zeros. -/
def zeroSecretRandom : IssueRandom SampleScalar :=
  { sampleIssueRandom 0 with ownerSecret := zero32 }

/-- A token owned by the zero secret is received. -/
theorem zero_secret_token_received :
    ∃ token, sampleMint.issue sampleSuite 10 [1] none zeroSecretRandom = .ok token ∧
      Received sampleSuite asciiTable token sampleMint.groupPublicKey sampleMint.pedersen
        sampleMint.credentialIssuer.pedersen 0 := by
  have hrun : ((sampleMint.issue sampleSuite 10 [1] none zeroSecretRandom).toOption.bind
      fun t => (verifyToken sampleSuite t sampleMint.groupPublicKey sampleMint.pedersen
        sampleMint.credentialIssuer.pedersen 0).map
      fun vr => decide (vr.allValid = true ∧
        Accumulator.deriveOwnerSigningPk sampleSuite zero32 = t.foldProof.currentOwnerPk ∧
        t.foldProof.steps.toNat = t.foldProof.stepsChain.length ∧
        t.credential = none ∧ t.presentation = none ∧ t.credentialPool = [] ∧ t.value ≠ 0 ∧
        t.transferCount ≤ t.recursionBound ∧
        t.foldProof.stepsChain.length ≤ maxFoldSteps)) = some true := by
    decide +kernel
  obtain ⟨t, ht, hrun⟩ := Option.bind_eq_some_iff.mp hrun
  obtain ⟨vr, hvr, hfacts⟩ := Option.map_eq_some_iff.mp hrun
  obtain ⟨hall, htip, hsteps, hcred, hpres, hpool, hvalue, hcount, hchain⟩ :=
    of_decide_eq_true hfacts
  have hfit : WireFits t :=
    { steps := hsteps
      credential := by rw [hcred]; exact fun c hc => (nomatch hc)
      presentation := by rw [hpres]; exact fun p hp => (nomatch hp)
      pool := by rw [hpool]; decide
      entries := by rw [hpool]; exact fun e he => (nomatch he) }
  have hadm : Admitted asciiTable t :=
    { value := hvalue
      count := hcount
      chain := hchain
      jurisdiction := by rw [hcred]; exact fun c hc => (nomatch hc)
      pool := by rw [hpool]; decide }
  exact ⟨t, ok_of_toOption ht,
    ((received_iff (by decide +kernel) ⟨vr, hvr, hall⟩).2 hfit).mpr ⟨htip, hadm⟩⟩

end Serde

end Specter
