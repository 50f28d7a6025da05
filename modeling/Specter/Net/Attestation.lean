/-
  File:      Specter/Net/Attestation.lean
  Subject:   ATTESTATION CHAINS AND WHO IS BLAMED (specter-net/src/attestation.rs).

  Each transfer made offline is attested by its sender, under a key the attestation itself names
  and with the hash of the attestation before. Two chains of one token are compared by the hashes
  of their attestations; the sender named by the first chain where they part is called the
  cheater. Nothing in either chain says whose turn it was to send.

  * `verifyFrom_get` -- an attestation of a chain that passes is signed under its own key;
  * `addTransfer_integrity` -- a chain built transfer by transfer passes;
  * `detectDoubleSpend_conflict` -- a conflict is the first fork of the two chains;
  * `Attestation.NoCollision` -- the hash keeps apart what the attestations of two chains hash;
  * `Blamed`, `BlameSound` -- the two attestations at the fork were signed by one sender with one
    key, and the comparison the other way round says the same;
  * `MadeByHolder`, `holderAt_eq` -- an attestation of whoever received the token before, who is
    the same in both chains;
  * `blameSound_of_holders` -- blame is sound where both attestations at the fork were made by the
    holder, and is not where one of them only was;
  * `verifyIntegrity_hands_over` -- how the attestations of a chain that passes are linked; who
    received the token before is not asked.
-/
import Specter.Lib.Fork
import Specter.Lib.Sigma
import Specter.Primitives.Suite

namespace Specter

open Lib

variable {S P : Type} [Field S] [AddCommGroup P] [Module S P]

/-! ## 1. Attestations -/

structure AttestationSig (S P : Type) where
  r : P
  s : S

structure Attestation (S P : Type) where
  tokenId : Bytes32
  senderHash : Bytes32
  senderPubkey : P
  receiverHash : Bytes32
  chainPosition : UInt32
  prevHash : Bytes32
  hash : Bytes32
  signature : AttestationSig S P

namespace Attestation

def sigChallenge (C : Suite S P) (r pk : P) (msg : Bytes32) : S :=
  C.hashToScalar (ascii "specter-attestation-sig:" ++ (C.compress r).toList ++
    (C.compress pk).toList ++ msg.toList)

def computeHash (C : Suite S P) (tokenId sender : Bytes32) (senderPubkey : P) (receiver : Bytes32)
    (position : UInt32) (prev : Bytes32) : Bytes32 :=
  C.sha256 (ascii "specter-attestation-v3:" ++ tokenId.toList ++ sender.toList ++
    (C.compress senderPubkey).toList ++ receiver.toList ++ le32 position ++ prev.toList)

/-- `new_signed` with the nonce `k` it draws. -/
def newSigned (C : Suite S P) (tokenId senderHash : Bytes32) (senderSecret : S) (senderPubkey : P)
    (receiverHash : Bytes32) (chainPosition : UInt32) (prevHash : Bytes32) (k : S) :
    Attestation S P :=
  let hash := computeHash C tokenId senderHash senderPubkey receiverHash chainPosition prevHash
  let r := k • C.G
  let challenge := sigChallenge C r senderPubkey hash
  let s := k + challenge * senderSecret
  { tokenId := tokenId
    senderHash := senderHash
    senderPubkey := senderPubkey
    receiverHash := receiverHash
    chainPosition := chainPosition
    prevHash := prevHash
    hash := hash
    signature := ⟨r, s⟩ }

def verifySignature (C : Suite S P) (att : Attestation S P) : Bool :=
  let expectedHash := computeHash C att.tokenId att.senderHash att.senderPubkey att.receiverHash
    att.chainPosition att.prevHash
  if expectedHash ≠ att.hash then false
  else
    let challenge := sigChallenge C att.signature.r att.senderPubkey att.hash
    C.compress (att.signature.s • C.G) ==
      C.compress (att.signature.r + challenge • att.senderPubkey)

end Attestation

/-! ## 2. Chains -/

inductive AttestationError where
  | chainTooLong
  deriving DecidableEq

def AttestationError.display : AttestationError → String
  | .chainTooLong => "attestation chain exceeded u32::MAX entries"

structure AttestationChain (S P : Type) where
  tokenId : Bytes32
  attestations : List (Attestation S P)

namespace AttestationChain

protected def new (tokenId : Bytes32) : AttestationChain S P := ⟨tokenId, []⟩

/-- The hash the next attestation has to name. -/
def lastHash (chain : AttestationChain S P) : Bytes32 :=
  (chain.attestations.getLast?.map (·.hash)).getD zero32

def addTransfer (C : Suite S P) (chain : AttestationChain S P) (senderHash : Bytes32)
    (senderSecret : S) (senderPubkey : P) (receiverHash : Bytes32) (k : S) :
    Except AttestationError (AttestationChain S P) :=
  if chain.attestations.length < 2 ^ 32 then
    let attestation := Attestation.newSigned C chain.tokenId senderHash senderSecret senderPubkey
      receiverHash (UInt32.ofNat chain.attestations.length) chain.lastHash k
    .ok { chain with attestations := chain.attestations ++ [attestation] }
  else .error .chainTooLong

/-- The loop of `verify_integrity` from index `i`, with the hash of the attestation before. -/
def verifyFrom (C : Suite S P) (tokenId : Bytes32) :
    Nat → Bytes32 → List (Attestation S P) → Bool
  | _, _, [] => true
  | i, expectedPrev, att :: rest =>
      if att.chainPosition ≠ UInt32.ofNat i then false
      else if att.prevHash ≠ expectedPrev then false
      else if att.tokenId ≠ tokenId then false
      else if att.verifySignature C = false then false
      else verifyFrom C tokenId (i + 1) att.hash rest

def verifyIntegrity (C : Suite S P) (chain : AttestationChain S P) : Bool :=
  verifyFrom C chain.tokenId 0 zero32 chain.attestations

end AttestationChain

inductive ChainComparison where
  | consistent
  | conflict (position : UInt32) (cheaterHash : Bytes32)
  | differentTokens
  deriving DecidableEq

/-- The loop stops at the first index, up to the shorter length, at which the hashes differ. -/
def detectDoubleSpend (chainA chainB : AttestationChain S P) : ChainComparison :=
  if chainA.tokenId ≠ chainB.tokenId then .differentTokens
  else
    match firstFork (·.hash) chainA.attestations chainB.attestations with
    | none => .consistent
    | some (i, a, _) => .conflict (UInt32.ofNat i) a.senderHash

/-! ## 3. What the two checks say -/

namespace AttestationChain

variable {C : Suite S P} {tokenId : Bytes32}

theorem verifyFrom_cons {i : Nat} {prev : Bytes32} {att : Attestation S P}
    {rest : List (Attestation S P)} :
    verifyFrom C tokenId i prev (att :: rest) = true ↔
      (att.chainPosition = UInt32.ofNat i ∧ att.prevHash = prev ∧ att.tokenId = tokenId ∧
        att.verifySignature C = true) ∧ verifyFrom C tokenId (i + 1) att.hash rest = true := by
  rw [verifyFrom]
  by_cases hpos : att.chainPosition = UInt32.ofNat i
  · by_cases hprev : att.prevHash = prev
    · by_cases htok : att.tokenId = tokenId
      · by_cases hsig : att.verifySignature C = true
        · simp [hpos, hprev, htok, hsig]
        · simp [hpos, hprev, htok, hsig]
      · simp [hpos, hprev, htok]
    · simp [hpos, hprev]
  · simp [hpos]

/-- **An attestation of a chain that passes is signed under its own key**, and numbered by its
    place. -/
theorem verifyFrom_get {i k : Nat} {prev : Bytes32} {att : Attestation S P}
    {atts : List (Attestation S P)} (h : verifyFrom C tokenId i prev atts = true)
    (hk : atts[k]? = some att) :
    att.verifySignature C = true ∧ att.chainPosition = UInt32.ofNat (i + k) := by
  induction atts generalizing i k prev with
  | nil => cases hk
  | cons x atts ih =>
      obtain ⟨⟨hpos, _, _, hsig⟩, hrest⟩ := verifyFrom_cons.mp h
      cases k with
      | zero =>
          cases hk
          exact ⟨hsig, hpos⟩
      | succ k =>
          obtain ⟨hs, hp⟩ := ih hrest hk
          rw [Nat.add_assoc, Nat.add_comm 1 k] at hp
          exact ⟨hs, hp⟩

theorem verifyFrom_append {i : Nat} {prev : Bytes32} {att : Attestation S P}
    {atts : List (Attestation S P)} :
    verifyFrom C tokenId i prev (atts ++ [att]) = true ↔
      verifyFrom C tokenId i prev atts = true ∧
        att.chainPosition = UInt32.ofNat (i + atts.length) ∧
        att.prevHash = (atts.getLast?.map (·.hash)).getD prev ∧
        att.tokenId = tokenId ∧ att.verifySignature C = true := by
  induction atts generalizing i prev with
  | nil => simp [verifyFrom]
  | cons x atts ih =>
      have hlast : ((x :: atts).getLast?.map (·.hash)).getD prev =
          (atts.getLast?.map (·.hash)).getD x.hash := by
        rw [List.getLast?_cons]
        cases atts.getLast? with
        | none => rfl
        | some y => rfl
      have hlen : i + 1 + atts.length = i + (x :: atts).length := by
        rw [List.length_cons]
        omega
      rw [List.cons_append, verifyFrom_cons, ih, verifyFrom_cons, hlast, hlen]
      exact and_assoc.symm

/-- A signed attestation verifies under the key of its secret. -/
theorem verifySignature_newSigned (tokenId senderHash : Bytes32) (x : S) (receiverHash : Bytes32)
    (position : UInt32) (prevHash : Bytes32) (k : S) :
    (Attestation.newSigned C tokenId senderHash x (x • C.G) receiverHash position prevHash
      k).verifySignature C = true := by
  unfold Attestation.verifySignature Attestation.newSigned
  dsimp only
  rw [if_neg fun h => h rfl, beq_iff_eq, C.compress_inj]
  exact Sigma.Accepts.of_witness C.G x k _

/-- **A chain built transfer by transfer passes**, whoever the senders say they are. -/
theorem addTransfer_integrity {chain chain' : AttestationChain S P} {senderHash : Bytes32} {x : S}
    {receiverHash : Bytes32} {k : S} (hchain : chain.verifyIntegrity C = true)
    (h : chain.addTransfer C senderHash x (x • C.G) receiverHash k = .ok chain') :
    chain'.verifyIntegrity C = true := by
  unfold addTransfer at h
  split at h
  · cases h
    unfold verifyIntegrity
    rw [verifyFrom_append]
    refine ⟨hchain, ?_, rfl, rfl, verifySignature_newSigned _ _ x _ _ _ k⟩
    show UInt32.ofNat chain.attestations.length = UInt32.ofNat (0 + chain.attestations.length)
    rw [Nat.zero_add]
  · cases h

end AttestationChain

omit [Field S] [AddCommGroup P] [Module S P] in
/-- **A conflict is the first fork of the two chains.** -/
theorem detectDoubleSpend_conflict {A B : AttestationChain S P} {p : UInt32} {h : Bytes32} :
    detectDoubleSpend A B = .conflict p h ↔
      A.tokenId = B.tokenId ∧ ∃ i a b, Forks (·.hash) A.attestations B.attestations i a b ∧
        UInt32.ofNat i = p ∧ a.senderHash = h := by
  unfold detectDoubleSpend
  by_cases htok : A.tokenId = B.tokenId
  · rw [if_neg fun hne => hne htok]
    cases hfork : firstFork (·.hash) A.attestations B.attestations with
    | none =>
        constructor
        · intro e
          cases e
        · intro hconf
          obtain ⟨_, i, a, b, hf, _⟩ := hconf
          rw [firstFork_iff.mpr hf] at hfork
          cases hfork
    | some r =>
        obtain ⟨i, a, b⟩ := r
        have hf := firstFork_iff.mp hfork
        constructor
        · intro e
          cases e
          exact ⟨htok, i, a, b, hf, rfl, rfl⟩
        · intro hconf
          obtain ⟨_, i', a', b', hf', rfl, rfl⟩ := hconf
          rw [firstFork_iff.mpr hf'] at hfork
          cases hfork
          rfl
  · rw [if_pos htok]
    constructor
    · intro e
      cases e
    · intro hconf
      obtain ⟨h', _⟩ := hconf
      exact absurd h' htok

/-! ## 4. What the hashes say -/

section Hashes

variable {C : Suite S P}

/-- The hash of an attestation that verifies is that of its fields, the receiver among them. -/
theorem Attestation.hash_eq {att : Attestation S P}
    (h : att.verifySignature C = true) :
    att.hash = computeHash C att.tokenId att.senderHash att.senderPubkey att.receiverHash
      att.chainPosition att.prevHash := by
  unfold verifySignature at h
  dsimp only at h
  split at h
  · cases h
  · rename_i hne
    exact (Classical.not_not.mp hne).symm

/-- The bytes whose digest is an attestation's hash. -/
def Attestation.hashed (C : Suite S P) (att : Attestation S P) : Bytes :=
  ascii "specter-attestation-v3:" ++ att.tokenId.toList ++ att.senderHash.toList ++
    (C.compress att.senderPubkey).toList ++ att.receiverHash.toList ++ le32 att.chainPosition ++
    att.prevHash.toList

/-- The digest keeps apart what the attestations of two lists hash. No function into 32 bytes is
    injective on all byte strings; this asks it of the strings at hand. -/
def Attestation.NoCollision (C : Suite S P) (as bs : List (Attestation S P)) : Prop :=
  ∀ a ∈ as, ∀ b ∈ bs, C.sha256 (a.hashed C) = C.sha256 (b.hashed C) → a.hashed C = b.hashed C

/-- Every field of the hashed bytes has its own width, so they tell the fields. -/
theorem Attestation.hashed_inj {a b : Attestation S P} (h : a.hashed C = b.hashed C) :
    (a.senderHash, a.senderPubkey, a.receiverHash) =
      (b.senderHash, b.senderPubkey, b.receiverHash) := by
  unfold hashed at h
  simp only [List.append_assoc] at h
  obtain ⟨_, h⟩ := append_inj_fixed rfl h
  obtain ⟨_, h⟩ := append_inj_arr h
  obtain ⟨hsender, h⟩ := append_inj_arr h
  obtain ⟨hkey, h⟩ := append_inj_arr h
  obtain ⟨hreceiver, _⟩ := append_inj_arr h
  rw [hsender, C.compress_inj.mp hkey, hreceiver]

end Hashes

/-! ## 5. Blame -/

/-- At the index numbered `p` the two chains part, both name the sender `h` and one key, and both
    attestations are signed under it: one key signed two different transfers. -/
def Blamed (C : Suite S P) (A B : AttestationChain S P) (p : UInt32) (h : Bytes32) : Prop :=
  ∃ i a b, Forks (·.hash) A.attestations B.attestations i a b ∧ UInt32.ofNat i = p ∧
    a.senderHash = h ∧ b.senderHash = h ∧ a.senderPubkey = b.senderPubkey ∧
    a.verifySignature C = true ∧ b.verifySignature C = true

/-- Whoever the comparison calls the cheater is one, and it says so the other way round. -/
def BlameSound (C : Suite S P) (A B : AttestationChain S P) : Prop :=
  ∀ p h, detectDoubleSpend A B = .conflict p h →
    Blamed C A B p h ∧ detectDoubleSpend B A = .conflict p h

/-- Where chains of one token part, both name one sender and one key. -/
def OneSenderAtFork (A B : AttestationChain S P) : Prop :=
  A.tokenId = B.tokenId → ∀ i a b, Forks (·.hash) A.attestations B.attestations i a b →
    a.senderHash = b.senderHash ∧ a.senderPubkey = b.senderPubkey

/-- Blame is sound where the two chains name one sender and one key at the fork. -/
theorem blameSound_iff {C : Suite S P} {A B : AttestationChain S P}
    (hA : A.verifyIntegrity C = true) (hB : B.verifyIntegrity C = true) :
    BlameSound C A B ↔ OneSenderAtFork A B := by
  constructor
  · intro hsound htok i a b hfork
    obtain ⟨⟨i', a', b', hfork', _, ha', hb', hkey, _⟩, _⟩ := hsound (UInt32.ofNat i) a.senderHash
      (detectDoubleSpend_conflict.mpr ⟨htok, i, a, b, hfork, rfl, rfl⟩)
    -- there is one first fork
    cases (firstFork_iff.mpr hfork).symm.trans (firstFork_iff.mpr hfork')
    exact ⟨hb'.symm, hkey⟩
  · intro hone p h hconf
    obtain ⟨htok, i, a, b, hfork, rfl, rfl⟩ := detectDoubleSpend_conflict.mp hconf
    obtain ⟨hhash, hkey⟩ := hone htok i a b hfork
    have hsigA := (AttestationChain.verifyFrom_get hA hfork.left).1
    have hsigB := (AttestationChain.verifyFrom_get hB hfork.right).1
    refine ⟨⟨i, a, b, hfork, rfl, rfl, hhash.symm, hkey, hsigA, hsigB⟩, ?_⟩
    exact detectDoubleSpend_conflict.mpr ⟨htok.symm, i, b, a, hfork.symm, rfl, hhash.symm⟩

/-! ## 6. Made by the holder -/

/-- Whom the token was handed to before position `i`: `owner`, and then the receivers. -/
def AttestationChain.holderAt (owner : Bytes32) (chain : AttestationChain S P) : Nat → Bytes32
  | 0 => owner
  | i + 1 => (chain.attestations[i]?.map (·.receiverHash)).getD owner

/-- Where `A` parts from `B`, the attestation of `A` was made by the holder: it names as its sender
    whom the token was handed to before, and is signed under that one's key. Users are known by
    what `idOf` makes of their keys, the first one by `owner`. -/
def MadeByHolder (idOf : P → Bytes32) (owner : Bytes32) (A B : AttestationChain S P) : Prop :=
  A.tokenId = B.tokenId → ∀ i a b, Forks (·.hash) A.attestations B.attestations i a b →
    a.senderHash = A.holderAt owner i ∧ idOf a.senderPubkey = A.holderAt owner i

section Holder

variable {C : Suite S P} {A B : AttestationChain S P} {idOf : P → Bytes32} {owner : Bytes32}

/-- **The token has one holder at the fork**: the attestations before have the same hashes, and
    with them the same receivers. -/
theorem holderAt_eq (hA : A.verifyIntegrity C = true) (hB : B.verifyIntegrity C = true)
    (hno : Attestation.NoCollision C A.attestations B.attestations) {i : Nat}
    {a b : Attestation S P} (hfork : Forks (·.hash) A.attestations B.attestations i a b) :
    A.holderAt owner i = B.holderAt owner i := by
  cases i with
  | zero => rfl
  | succ j =>
      have hlenA := (List.getElem?_eq_some_iff.mp hfork.left).1
      have hlenB := (List.getElem?_eq_some_iff.mp hfork.right).1
      have hx := List.getElem?_eq_getElem (Nat.lt_of_succ_lt hlenA)
      have hy := List.getElem?_eq_getElem (Nat.lt_of_succ_lt hlenB)
      have hsame := hfork.same j (Nat.lt_succ_self j)
      rw [hx, hy] at hsame
      have hhash := Option.some.inj hsame
      have hsigX := (AttestationChain.verifyFrom_get hA hx).1
      have hsigY := (AttestationChain.verifyFrom_get hB hy).1
      have hfields := Attestation.hashed_inj (hno _ (List.getElem_mem _) _ (List.getElem_mem _)
        ((Attestation.hash_eq hsigX).symm.trans (hhash.trans (Attestation.hash_eq hsigY))))
      show (A.attestations[j]?.map _).getD owner = (B.attestations[j]?.map _).getD owner
      rw [hx, hy]
      exact congrArg (·.2.2) hfields

/-- Two attestations of one holder name one sender and one key. -/
theorem oneSender_of_holder (hA : A.verifyIntegrity C = true) (hB : B.verifyIntegrity C = true)
    (hno : Attestation.NoCollision C A.attestations B.attestations)
    (hid : ∀ a ∈ A.attestations, ∀ b ∈ B.attestations,
      idOf a.senderPubkey = idOf b.senderPubkey → a.senderPubkey = b.senderPubkey)
    (hholdA : MadeByHolder idOf owner A B) (hholdB : MadeByHolder idOf owner B A) :
    OneSenderAtFork A B := by
  intro htok i a b hfork
  obtain ⟨hsendA, hkeyA⟩ := hholdA htok i a b hfork
  obtain ⟨hsendB, hkeyB⟩ := hholdB htok.symm i b a hfork.symm
  have hholder : A.holderAt owner i = B.holderAt owner i := holderAt_eq hA hB hno hfork
  refine ⟨hsendA.trans (hholder.trans hsendB.symm), ?_⟩
  exact hid a (List.mem_of_getElem? hfork.left) b (List.mem_of_getElem? hfork.right)
    (hkeyA.trans (hholder.trans hkeyB.symm))

/-- Who shares sender and key with the holder's attestation is the holder. -/
theorem holder_of_oneSender (hA : A.verifyIntegrity C = true) (hB : B.verifyIntegrity C = true)
    (hno : Attestation.NoCollision C A.attestations B.attestations)
    (hone : OneSenderAtFork A B) (hholdA : MadeByHolder idOf owner A B) :
    MadeByHolder idOf owner B A := by
  intro htok i b a hfork
  obtain ⟨hsend, hkey⟩ := hholdA htok.symm i a b hfork.symm
  obtain ⟨hhash, hpk⟩ := hone htok.symm i a b hfork.symm
  have hholder : A.holderAt owner i = B.holderAt owner i := holderAt_eq hA hB hno hfork.symm
  exact ⟨hhash.symm.trans (hsend.trans hholder), hpk ▸ hkey.trans hholder⟩

end Holder

/-- **When blame is sound.** Take two chains that pass `verify_integrity`, whose hashes and whose
    users' keys do not collide. Where both attestations at the fork were made by the holder of
    the token, the sender blamed signed two different transfers at one position, and is blamed
    either way round; where one of them was and the other was not, it is not so. -/
theorem blameSound_of_holders (C : Suite S P) (idOf : P → Bytes32) (owner : Bytes32)
    (A B : AttestationChain S P) (hA : A.verifyIntegrity C = true)
    (hB : B.verifyIntegrity C = true)
    (hno : Attestation.NoCollision C A.attestations B.attestations)
    (hid : ∀ a ∈ A.attestations, ∀ b ∈ B.attestations,
      idOf a.senderPubkey = idOf b.senderPubkey → a.senderPubkey = b.senderPubkey) :
    (MadeByHolder idOf owner A B → MadeByHolder idOf owner B A → BlameSound C A B) ∧
    (MadeByHolder idOf owner A B → ¬ MadeByHolder idOf owner B A → ¬ BlameSound C A B) ∧
    (MadeByHolder idOf owner B A → ¬ MadeByHolder idOf owner A B → ¬ BlameSound C A B) := by
  have hnoB : Attestation.NoCollision C B.attestations A.attestations :=
    fun b hb a ha h => (hno a ha b hb h.symm).symm
  refine ⟨fun hholdA hholdB => ?_, fun hholdA hnot hsound => ?_, fun hholdB hnot hsound => ?_⟩
  · exact (blameSound_iff hA hB).mpr (oneSender_of_holder hA hB hno hid hholdA hholdB)
  · exact hnot (holder_of_oneSender hA hB hno ((blameSound_iff hA hB).mp hsound) hholdA)
  · have hone : OneSenderAtFork B A := fun htok i b a hfork =>
      have h := (blameSound_iff hA hB).mp hsound htok.symm i a b hfork.symm
      ⟨h.1.symm, h.2.symm⟩
    exact hnot (holder_of_oneSender hB hA hnoB hone hholdB)

/-- A user is known by the compressed key. -/
def sampleUser (x : SampleScalar) : Bytes32 := sampleSuite.compress (x • sampleSuite.G)

/-- A chain of one token, from hand to hand. -/
def sampleCustody (transfers : List (SampleScalar × SampleScalar)) :
    Option (AttestationChain SampleScalar SamplePoint) :=
  transfers.foldlM (fun chain t => (chain.addTransfer sampleSuite (sampleUser t.1) t.1
    (t.1 • sampleSuite.G) (sampleUser t.2) (t.1 + 1)).toOption) (.new (leArr 32 7))

/-- The user 11 hands the token to 12, who hands it to 13 and to 14 as well: 12 is blamed, and
    rightly so. -/
theorem blameSound_of_holders_double_spend :
    ∃ A B, sampleCustody [(11, 12), (12, 13)] = some A ∧
      sampleCustody [(11, 12), (12, 14)] = some B ∧
      detectDoubleSpend A B = .conflict 1 (sampleUser 12) ∧ BlameSound sampleSuite A B := by
  have hrun : ((sampleCustody [(11, 12), (12, 13)]).bind fun A =>
      (sampleCustody [(11, 12), (12, 14)]).map fun B =>
        decide ((A.verifyIntegrity sampleSuite = true ∧ B.verifyIntegrity sampleSuite = true) ∧
          detectDoubleSpend A B = .conflict 1 (sampleUser 12) ∧
          ∀ a ∈ A.attestations, ∀ b ∈ B.attestations,
            sampleSuite.sha256 (a.hashed sampleSuite) = sampleSuite.sha256 (b.hashed sampleSuite) →
            a.hashed sampleSuite = b.hashed sampleSuite) &&
        (firstFork (·.hash) A.attestations B.attestations).all fun r =>
          decide ((r.2.1.senderHash = A.holderAt (sampleUser 11) r.1 ∧
              sampleSuite.compress r.2.1.senderPubkey = A.holderAt (sampleUser 11) r.1) ∧
            r.2.2.senderHash = B.holderAt (sampleUser 11) r.1 ∧
            sampleSuite.compress r.2.2.senderPubkey = B.holderAt (sampleUser 11) r.1)) =
      some true := by
    decide +kernel
  obtain ⟨A, hA, hrun⟩ := Option.bind_eq_some_iff.mp hrun
  obtain ⟨B, hB, hfacts⟩ := Option.map_eq_some_iff.mp hrun
  obtain ⟨hchecks, hfork⟩ := Bool.and_eq_true_iff.mp hfacts
  obtain ⟨⟨hintA, hintB⟩, hconf, hno⟩ := of_decide_eq_true hchecks
  refine ⟨A, B, hA, hB, hconf, (blameSound_of_holders sampleSuite sampleSuite.compress
    (sampleUser 11) A B hintA hintB hno fun _ _ _ _ h => sampleSuite.compress_inj.mp h).1 ?_ ?_⟩
  · intro _ i a b h
    rw [firstFork_iff.mpr h] at hfork
    exact (of_decide_eq_true hfork).1
  · intro _ i b a h
    rw [firstFork_iff.mpr h.symm] at hfork
    exact (of_decide_eq_true hfork).2

/-! ## 7. A framing -/

/-- A chain of one token, from the transfers `(sender, secret, receiver)`. -/
def sampleChain (transfers : List (Nat × SampleScalar × Nat)) :
    Option (AttestationChain SampleScalar SamplePoint) :=
  transfers.foldlM (fun chain t => (chain.addTransfer sampleSuite (leArr 32 t.1) t.2.1
    (t.2.1 • sampleSuite.G) (leArr 32 t.2.2) (t.2.1 + 1)).toOption) (.new (leArr 32 7))

/-- Sender 1 hands the token to 2, once. Somebody with another key attests a transfer of the same
    token under the name of sender 1: the two chains pass, and sender 1 is blamed. -/
theorem framed_by_another_key :
    ∃ A B, sampleChain [(1, 11, 2)] = some A ∧ sampleChain [(1, 99, 4)] = some B ∧
      A.verifyIntegrity sampleSuite = true ∧ B.verifyIntegrity sampleSuite = true ∧
      detectDoubleSpend A B = .conflict 0 (leArr 32 1) ∧
      A.attestations.map (·.senderPubkey) ≠ B.attestations.map (·.senderPubkey) ∧
      ¬ BlameSound sampleSuite A B := by
  have hrun : ((sampleChain [(1, 11, 2)]).bind fun A =>
      (sampleChain [(1, 99, 4)]).map fun B =>
        decide ((A.verifyIntegrity sampleSuite = true ∧ B.verifyIntegrity sampleSuite = true) ∧
          detectDoubleSpend A B = .conflict 0 (leArr 32 1) ∧
          A.attestations.map (·.senderPubkey) ≠ B.attestations.map (·.senderPubkey)) &&
        (firstFork (·.hash) A.attestations B.attestations).all fun r =>
          decide (r.2.1.senderPubkey ≠ r.2.2.senderPubkey)) = some true := by
    decide +kernel
  obtain ⟨A, hA, hrun⟩ := Option.bind_eq_some_iff.mp hrun
  obtain ⟨B, hB, hfacts⟩ := Option.map_eq_some_iff.mp hrun
  obtain ⟨hchecks, hfork⟩ := Bool.and_eq_true_iff.mp hfacts
  obtain ⟨⟨hintA, hintB⟩, hconf, hkeys⟩ := of_decide_eq_true hchecks
  refine ⟨A, B, hA, hB, hintA, hintB, hconf, hkeys, fun hsound => ?_⟩
  obtain ⟨⟨i, a, b, h, _, _, _, hkey, _⟩, _⟩ := hsound 0 (leArr 32 1) hconf
  rw [firstFork_iff.mpr h] at hfork
  exact of_decide_eq_true hfork hkey

/-! ## 8. Who hands over -/

namespace AttestationChain

variable {C : Suite S P} {tokenId : Bytes32}

/-- What links an attestation of a chain that passes to the one before it: its place, the token,
    the hash before, which is that of all fields before, and the signature under its own key. -/
structure Linked (C : Suite S P) (tokenId : Bytes32) (i : Nat) (a b : Attestation S P) :
    Prop where
  position : b.chainPosition = UInt32.ofNat (i + 1)
  token : a.tokenId = tokenId ∧ b.tokenId = tokenId
  prevHash : b.prevHash = a.hash
  hash : a.hash = Attestation.computeHash C a.tokenId a.senderHash a.senderPubkey a.receiverHash
    a.chainPosition a.prevHash
  signed : b.verifySignature C = true

theorem verifyFrom_linked {a b : Attestation S P} :
    ∀ {atts : List (Attestation S P)} {i k : Nat} {prev : Bytes32},
      verifyFrom C tokenId i prev atts = true → atts[k]? = some a → atts[k + 1]? = some b →
        Linked C tokenId (i + k) a b
  | [], _, _, _, _, ha, _ => by cases ha
  | [_], _, _, _, _, _, hb => by cases hb
  | x :: y :: atts, i, k, prev, h, ha, hb => by
      obtain ⟨⟨_, _, htokx, hsigx⟩, hrest⟩ := verifyFrom_cons.mp h
      cases k with
      | zero =>
          obtain ⟨⟨hpos, hprev, htok, hsig⟩, _⟩ := verifyFrom_cons.mp hrest
          cases ha
          cases hb
          exact ⟨hpos, ⟨htokx, htok⟩, hprev, Attestation.hash_eq hsigx, hsig⟩
      | succ k =>
          have hlinked := verifyFrom_linked hrest ha hb
          rw [Nat.add_assoc, Nat.add_comm 1 k] at hlinked
          exact hlinked

/-- Each transfer is made by the one who received the token in the transfer before. -/
def HandsOver (chain : AttestationChain S P) : Prop :=
  ∀ i a b, chain.attestations[i]? = some a → chain.attestations[i + 1]? = some b →
    b.senderHash = a.receiverHash

end AttestationChain

/-- One call of `add_transfer`, by the owner of the secret. -/
structure TransferCall (S : Type) where
  senderHash : Bytes32
  senderSecret : S
  receiverHash : Bytes32
  nonce : S

def TransferCall.names (c : TransferCall S) : Bytes32 × Bytes32 := (c.senderHash, c.receiverHash)

namespace AttestationChain

variable {C : Suite S P}

/-- Calls of `add_transfer` in a row, up to the first error. -/
def addTransfers (C : Suite S P) (chain : AttestationChain S P) :
    List (TransferCall S) → Except AttestationError (AttestationChain S P)
  | [] => .ok chain
  | c :: calls =>
      match chain.addTransfer C c.senderHash c.senderSecret (c.senderSecret • C.G)
          c.receiverHash c.nonce with
      | .error e => .error e
      | .ok chain' => addTransfers C chain' calls

/-- The sender and the receiver an attestation names. -/
def names (att : Attestation S P) : Bytes32 × Bytes32 := (att.senderHash, att.receiverHash)

/-- **Whatever the calls name, the chain passes** and names it, as long as there is room. -/
theorem addTransfers_ok (calls : List (TransferCall S)) :
    ∀ chain : AttestationChain S P, chain.verifyIntegrity C = true →
      chain.attestations.length + calls.length ≤ 2 ^ 32 →
      ∃ chain', chain.addTransfers C calls = .ok chain' ∧ chain'.verifyIntegrity C = true ∧
        chain'.attestations.map names =
          chain.attestations.map names ++ calls.map TransferCall.names := by
  induction calls with
  | nil => exact fun chain h _ => ⟨chain, rfl, h, by simp⟩
  | cons c calls ih =>
      intro chain h hroom
      rw [List.length_cons] at hroom
      have hadd : ∃ chain', chain.addTransfer C c.senderHash c.senderSecret
          (c.senderSecret • C.G) c.receiverHash c.nonce = .ok chain' ∧
          chain'.attestations.length = chain.attestations.length + 1 ∧
          chain'.attestations.map names =
            chain.attestations.map names ++ [TransferCall.names c] := by
        unfold addTransfer
        rw [if_pos (by omega)]
        exact ⟨_, rfl, List.length_append, List.map_append⟩
      obtain ⟨chain', hchain', hlen, hnames⟩ := hadd
      obtain ⟨chain'', hall, hpasses, hnames'⟩ := ih chain' (addTransfer_integrity h hchain')
        (by omega)
      refine ⟨chain'', ?_, hpasses, ?_⟩
      · rw [addTransfers, hchain']
        exact hall
      · rw [hnames', hnames, List.map_cons, List.append_assoc, List.singleton_append]

omit [Field S] [AddCommGroup P] [Module S P] in
/-- What holds of neighbours holds of those with the same names. -/
theorem neighbours_of_map {α β γ : Type} {f : α → γ} {g : β → γ} {R : γ → γ → Prop}
    {as : List α} {bs : List β} (h : as.map f = bs.map g)
    (hall : ∀ i a a', as[i]? = some a → as[i + 1]? = some a' → R (f a) (f a')) (i : Nat) (b b' : β)
    (hb : bs[i]? = some b) (hb' : bs[i + 1]? = some b') : R (g b) (g b') := by
  have hget : ∀ j, (as[j]?).map f = (bs[j]?).map g := fun j => by
    rw [← List.getElem?_map, h, List.getElem?_map]
  have hfirst := hget i
  have hsecond := hget (i + 1)
  rw [hb, Option.map_some] at hfirst
  rw [hb', Option.map_some] at hsecond
  obtain ⟨a, ha, hfa⟩ := Option.map_eq_some_iff.mp hfirst
  obtain ⟨a', ha', hfa'⟩ := Option.map_eq_some_iff.mp hsecond
  rw [← hfa, ← hfa']
  exact hall i a a' ha ha'

omit [Field S] [AddCommGroup P] [Module S P] in
theorem handsOver_iff {chain : AttestationChain S P} {calls : List (TransferCall S)}
    (h : chain.attestations.map names = calls.map TransferCall.names) :
    chain.HandsOver ↔ ∀ i c d, calls[i]? = some c → calls[i + 1]? = some d →
      d.senderHash = c.receiverHash := by
  constructor
  · intro hands
    exact neighbours_of_map (R := fun p q : Bytes32 × Bytes32 => q.1 = p.2) h hands
  · intro hands
    exact neighbours_of_map (R := fun p q : Bytes32 × Bytes32 => q.1 = p.2) h.symm hands

end AttestationChain

/-- **What a chain that passes says about who hands over.** Every attestation is linked to the
    one before it, by a hash of all its fields, and signed under the key it names itself. Nobody
    is held to the names: any list of transfers gives a chain that passes, and each is made by
    the receiver of the one before exactly where the callers say so. -/
theorem verifyIntegrity_hands_over (C : Suite S P) :
    (∀ chain : AttestationChain S P, chain.verifyIntegrity C = true → ∀ i a b,
      chain.attestations[i]? = some a → chain.attestations[i + 1]? = some b →
        AttestationChain.Linked C chain.tokenId i a b) ∧
    ∀ (tokenId : Bytes32) (calls : List (TransferCall S)), calls.length ≤ 2 ^ 32 →
      ∃ chain, (AttestationChain.new tokenId).addTransfers C calls = .ok chain ∧
        chain.verifyIntegrity C = true ∧
        (chain.HandsOver ↔ ∀ i c d, calls[i]? = some c → calls[i + 1]? = some d →
          d.senderHash = c.receiverHash) := by
  constructor
  · intro chain h i a b ha hb
    have hlinked := AttestationChain.verifyFrom_linked h ha hb
    rw [Nat.zero_add] at hlinked
    exact hlinked
  · intro tokenId calls hlen
    obtain ⟨chain, hall, hpasses, hnames⟩ := AttestationChain.addTransfers_ok (C := C) calls
      (AttestationChain.new tokenId) rfl (by simpa [AttestationChain.new] using hlen)
    exact ⟨chain, hall, hpasses, AttestationChain.handsOver_iff hnames⟩

/-- The transfers 1 → 2 and 3 → 4: the chain passes, and the sender of the second is not the
    receiver of the first. -/
theorem stranger_hands_over :
    ∃ chain, sampleChain [(1, 11, 2), (3, 13, 4)] = some chain ∧
      chain.verifyIntegrity sampleSuite = true ∧
      ∃ a b, chain.attestations[0]? = some a ∧ chain.attestations[1]? = some b ∧
        b.senderHash ≠ a.receiverHash := by
  have hrun : ((sampleChain [(1, 11, 2), (3, 13, 4)]).map fun chain =>
      chain.verifyIntegrity sampleSuite &&
        decide (chain.attestations.map AttestationChain.names =
          [(leArr 32 1, leArr 32 2), (leArr 32 3, leArr 32 4)])) = some true := by
    decide +kernel
  obtain ⟨chain, hchain, hfacts⟩ := Option.map_eq_some_iff.mp hrun
  obtain ⟨hpasses, hnames⟩ := Bool.and_eq_true_iff.mp hfacts
  obtain ⟨a, rest, hatts, ha, hrest⟩ := List.map_eq_cons_iff.mp (of_decide_eq_true hnames)
  obtain ⟨b, _, rfl, hb, _⟩ := List.map_eq_cons_iff.mp hrest
  refine ⟨chain, hchain, hpasses, a, b, by rw [hatts]; rfl, by rw [hatts]; rfl, ?_⟩
  rw [show b.senderHash = leArr 32 3 from congrArg Prod.fst hb,
    show a.receiverHash = leArr 32 2 from congrArg Prod.snd ha]
  decide +kernel

/-- The transfers 1 → 2 and 2 → 3, one handed over to the other. -/
theorem verifyIntegrity_hands_over_two :
    ∃ chain, (AttestationChain.new (leArr 32 7)).addTransfers sampleSuite
        [⟨leArr 32 1, 11, leArr 32 2, 12⟩, ⟨leArr 32 2, 12, leArr 32 3, 13⟩] = .ok chain ∧
      chain.verifyIntegrity sampleSuite = true ∧ chain.HandsOver := by
  obtain ⟨chain, hall, hpasses, hiff⟩ := (verifyIntegrity_hands_over sampleSuite).2 (leArr 32 7)
    [⟨leArr 32 1, 11, leArr 32 2, 12⟩, ⟨leArr 32 2, 12, leArr 32 3, 13⟩] (by decide)
  refine ⟨chain, hall, hpasses, hiff.mpr fun i c d hc hd => ?_⟩
  cases i with
  | zero =>
      cases hc
      cases hd
      rfl
  | succ i => cases hd

end Specter
