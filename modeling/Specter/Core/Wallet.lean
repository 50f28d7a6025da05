/-
  File:      Specter/Core/Wallet.lean
  Subject:   SAVING AND LOADING A WALLET (`save`, `load` of specter-core/src/wallet.rs;
             secure_store.rs).

  `save` writes every token as it is and encrypts the whole; `load` decrypts, decodes every
  token and verifies it, and fails as a whole. The key derivation and the cipher are the
  parameter `Cipher`.

  * `load_save` -- what is loaded from saved bytes is what the payload decodes to;
    `loadTokens_iff` -- it is the tokens saved exactly where each of them comes back from its
    bytes and is accepted;
  * `Obtained` -- the tokens a mint hands out, and what becomes of them by transfers;
    `Provisioned` -- how their credentials are stocked;
  * `Loadable` -- the limits of decoder and verifier that issuance does not keep;
  * `load_save_iff` -- a wallet of obtained tokens loads again exactly where its tokens are
    within them.
-/
import Specter.Core.Lifecycle
import Specter.Core.Renewal
import Specter.Core.Serde

namespace Specter

open Lib Serde

variable {S P : Type} [Field S] [AddCommGroup P] [Module S P]

/-! ## 1. The store -/

/-- What the code takes from argon2 and chacha20poly1305: a ciphertext is the plaintext's length
    and a tag longer, and opens to it. -/
structure Cipher where
  deriveKey : Bytes → ByteArr 16 → Bytes32
  aeadEncrypt : Bytes32 → ByteArr 12 → Bytes → Option Bytes
  aeadDecrypt : Bytes32 → ByteArr 12 → Bytes → Option Bytes
  length_aeadEncrypt : ∀ key nonce m c,
    aeadEncrypt key nonce m = some c → c.length = m.length + 16
  aeadDecrypt_aeadEncrypt : ∀ key nonce m c,
    aeadEncrypt key nonce m = some c → aeadDecrypt key nonce c = some m

structure EncryptedData where
  salt : ByteArr 16
  nonce : ByteArr 12
  ciphertext : Bytes

inductive SecureStoreError where
  | decryptionFailed
  | encryptionFailed
  | passphraseTooShort (min got : Nat)
  deriving DecidableEq

def SecureStoreError.display : SecureStoreError → String
  | .decryptionFailed => "decryption failed - wrong passphrase or corrupted data"
  | .encryptionFailed => "encryption failed - buffer overflow or AEAD error"
  | .passphraseTooShort min got =>
      "passphrase too short: need at least " ++ toString min ++ " bytes, got " ++ toString got

def minPassphraseLen : Nat := 12

/-- What one encryption draws. -/
structure StoreRandom where
  salt : ByteArr 16
  nonce : ByteArr 12

def Cipher.encrypt (A : Cipher) (plaintext passphrase : Bytes) (rnd : StoreRandom) :
    Except SecureStoreError EncryptedData :=
  if passphrase.length < minPassphraseLen then
    .error (.passphraseTooShort minPassphraseLen passphrase.length)
  else
    match A.aeadEncrypt (A.deriveKey passphrase rnd.salt) rnd.nonce plaintext with
    | none => .error .encryptionFailed
    | some ciphertext => .ok { salt := rnd.salt, nonce := rnd.nonce, ciphertext := ciphertext }

def Cipher.decrypt (A : Cipher) (encrypted : EncryptedData) (passphrase : Bytes) :
    Except SecureStoreError Bytes :=
  match A.aeadDecrypt (A.deriveKey passphrase encrypted.salt) encrypted.nonce
      encrypted.ciphertext with
  | none => .error .decryptionFailed
  | some plaintext => .ok plaintext

/-! ## 2. Saving and loading -/

structure Wallet (S P : Type) where
  tokens : List (ProofCarryingToken S P)

inductive WalletError where
  | invalidFormat
  | tokenVerificationFailed
  | wrongPassphrase
  | tokenError (reason : String)
  deriving DecidableEq

namespace Wallet

def magic : Bytes := ascii "SWLT"

def maxTokensPerWallet : Nat := 100000

/-- A token behind its length. -/
def frame (C : Suite S P) (token : ProofCarryingToken S P) : Bytes :=
  leBytes 4 (serializeToken C token).length ++ serializeToken C token

def payload (C : Suite S P) (w : Wallet S P) : Bytes :=
  leBytes 4 w.tokens.length ++ w.tokens.flatMap (frame C)

def save (C : Suite S P) (A : Cipher) (w : Wallet S P) (passphrase : Bytes) (rnd : StoreRandom) :
    Except WalletError Bytes :=
  match A.encrypt (w.payload C) passphrase rnd with
  | .error e => .error (.tokenError e.display)
  | .ok encrypted =>
      .ok (magic ++ encrypted.salt.toList ++ encrypted.nonce.toList ++
        leBytes 4 encrypted.ciphertext.length ++ encrypted.ciphertext)

variable [DecidableEq P]

/-- The loop of `load` over what is left of the payload; `none` where a verification panics. -/
def loadTokens (C : Suite S P) (U : CharTable) (gpk : P) (pp cpp : PedersenParams P)
    (now : UInt64) : Nat → Bytes → Option (Except WalletError (List (ProofCarryingToken S P)))
  | 0, _ => some (.ok [])
  | n + 1, rest =>
      if rest.length < 4 then some (.error .invalidFormat)
      else
        let len := ofLE (rest.take 4)
        if (rest.drop 4).length < len then some (.error .invalidFormat)
        else
          match deserializeToken C U ((rest.drop 4).take len) with
          | .error e => some (.error (.tokenError e.display))
          | .ok token =>
              match verifyToken C token gpk pp cpp now with
              | none => none
              | some vr =>
                  if vr.allValid = false then some (.error .tokenVerificationFailed)
                  else
                    match loadTokens C U gpk pp cpp now n ((rest.drop 4).drop len) with
                    | some (.ok tokens) => some (.ok (token :: tokens))
                    | r => r

/-- The part of `load` behind the decryption. -/
def loadPayload (C : Suite S P) (U : CharTable) (data : Bytes) (gpk : P)
    (pp cpp : PedersenParams P) (now : UInt64) : Option (Except WalletError (Wallet S P)) :=
  if data.length < 4 then some (.error .invalidFormat)
  else
    let count := ofLE (data.take 4)
    if count > maxTokensPerWallet then some (.error .invalidFormat)
    else
      match loadTokens C U gpk pp cpp now count (data.drop 4) with
      | none => none
      | some (.error e) => some (.error e)
      | some (.ok tokens) => some (.ok { tokens := tokens })

def load (C : Suite S P) (U : CharTable) (A : Cipher) (data passphrase : Bytes) (gpk : P)
    (pp cpp : PedersenParams P) (now : UInt64) : Option (Except WalletError (Wallet S P)) :=
  if h : data.length < 36 ∨ data.take 4 ≠ magic then some (.error .invalidFormat)
  else
    have hlen : ¬ data.length < 36 := fun hlt => h (.inl hlt)
    let salt := slice data 4 16 (by omega)
    let nonce := slice data 20 12 (by omega)
    let ctLen := ofLE ((data.drop 32).take 4)
    if 36 + ctLen > data.length then some (.error .invalidFormat)
    else
      match A.decrypt ⟨salt, nonce, (data.drop 36).take ctLen⟩ passphrase with
      | .error _ => some (.error .wrongPassphrase)
      | .ok payload => loadPayload C U payload gpk pp cpp now

/-! ## 3. What comes back -/

variable {C : Suite S P} {U : CharTable} {A : Cipher} {w : Wallet S P} {gpk : P}
  {pp cpp : PedersenParams P} {now : UInt64}

/-- A field at a known place of a buffer. -/
theorem slice_eq {n pos : Nat} {data : Bytes} (pre : Bytes) {post : Bytes} {a : ByteArr n}
    (hdata : data = pre ++ (a.toList ++ post)) (hpos : pre.length = pos)
    (h : ¬ pos + n > data.length) : slice data pos n h = a := by
  refine List.Vector.eq _ _ ?_
  show (data.drop pos).take n = a.toList
  rw [hdata, List.drop_left' hpos, List.take_left' a.toList_length]

/-- A number of four bytes in front of a buffer, and what is behind it. -/
theorem number_ahead {n : Nat} (hn : n < 2 ^ 32) (rest : Bytes) :
    ¬ (leBytes 4 n ++ rest).length < 4 ∧ ofLE ((leBytes 4 n ++ rest).take 4) = n ∧
      (leBytes 4 n ++ rest).drop 4 = rest := by
  have hfour : (leBytes 4 n).length = 4 := length_leBytes 4 _
  refine ⟨?_, ?_, List.drop_left' hfour⟩
  · rw [List.length_append, hfour]
    omega
  · rw [List.take_left' hfour, ofLE_leBytes]
    exact Nat.mod_eq_of_lt hn

omit [DecidableEq P] in
/-- The bytes of a saved wallet, and the ciphertext in them. -/
theorem save_ok {passphrase data : Bytes} {rnd : StoreRandom}
    (h : w.save C A passphrase rnd = .ok data) :
    ∃ c, A.aeadEncrypt (A.deriveKey passphrase rnd.salt) rnd.nonce (w.payload C) = some c ∧
      data = magic ++ (rnd.salt.toList ++ (rnd.nonce.toList ++ (leBytes 4 c.length ++ c))) := by
  unfold save Cipher.encrypt at h
  by_cases hpass : passphrase.length < minPassphraseLen
  · rw [if_pos hpass] at h
    cases h
  · rw [if_neg hpass] at h
    cases hc : A.aeadEncrypt (A.deriveKey passphrase rnd.salt) rnd.nonce (w.payload C) with
    | none =>
        rw [hc] at h
        cases h
    | some c =>
        rw [hc] at h
        cases h
        simp only [List.append_assoc]
        exact ⟨c, rfl, rfl⟩

/-- **Loading saved bytes is loading the payload.** -/
theorem load_save {passphrase data : Bytes} {rnd : StoreRandom}
    (h : w.save C A passphrase rnd = .ok data) (hsize : data.length < 2 ^ 32) :
    load C U A data passphrase gpk pp cpp now = loadPayload C U (w.payload C) gpk pp cpp now := by
  obtain ⟨c, hc, hdata⟩ := save_ok h
  have hmagic : magic.length = 4 := by decide
  have hlen : data.length = 36 + c.length := by
    rw [hdata]
    simp only [List.length_append, List.Vector.toList_length, length_leBytes, hmagic]
    omega
  have hhead : ¬ (data.length < 36 ∨ data.take 4 ≠ magic) := by
    rintro (hlt | hne)
    · omega
    · refine hne ?_
      rw [hdata]
      exact List.take_left' hmagic
  have hsalt : ∀ hin, slice data 4 16 hin = rnd.salt := slice_eq magic hdata hmagic
  have hnonce : ∀ hin, slice data 20 12 hin = rnd.nonce :=
    slice_eq (magic ++ rnd.salt.toList) (by rw [hdata, List.append_assoc]) (by simp [hmagic])
  -- the length field, then the ciphertext
  have hpre : (magic ++ rnd.salt.toList ++ rnd.nonce.toList).length = 32 := by simp [hmagic]
  have hdrop : data.drop 32 = leBytes 4 c.length ++ c := by
    rw [hdata, ← List.append_assoc, ← List.append_assoc, ← List.append_assoc,
      List.append_assoc _ (leBytes 4 c.length), List.drop_left' hpre]
  obtain ⟨_, hnum, hrest⟩ := number_ahead (show c.length < 2 ^ 32 by omega) c
  have hct : ofLE ((data.drop 32).take 4) = c.length := by
    rw [hdrop]
    exact hnum
  have hcipher : (data.drop 36).take c.length = c := by
    rw [show 36 = 32 + 4 from rfl, ← List.drop_drop, hdrop, hrest]
    exact List.take_length
  unfold load
  rw [dif_neg hhead]
  dsimp only
  rw [hct, if_neg (by omega), hsalt, hnonce, hcipher]
  unfold Cipher.decrypt
  rw [A.aeadDecrypt_aeadEncrypt _ _ _ _ hc]

/-- One round of the loop, on a token's frame. -/
theorem loadTokens_frame {t : ProofCarryingToken S P}
    (hlen : (serializeToken C t).length < 2 ^ 32) (n : Nat) (more : Bytes) :
    loadTokens C U gpk pp cpp now (n + 1) (frame C t ++ more) =
      match deserializeToken C U (serializeToken C t) with
      | .error e => some (.error (.tokenError e.display))
      | .ok token =>
          match verifyToken C token gpk pp cpp now with
          | none => none
          | some vr =>
              if vr.allValid = false then some (.error .tokenVerificationFailed)
              else
                match loadTokens C U gpk pp cpp now n more with
                | some (.ok tokens) => some (.ok (token :: tokens))
                | r => r := by
  have hframe : frame C t ++ more =
      leBytes 4 (serializeToken C t).length ++ (serializeToken C t ++ more) :=
    List.append_assoc _ _ _
  obtain ⟨hshort, hnum, hrest⟩ := number_ahead hlen (serializeToken C t ++ more)
  have hfits : ¬ (serializeToken C t ++ more).length < (serializeToken C t).length := by
    rw [List.length_append]
    omega
  rw [hframe, loadTokens, if_neg hshort]
  dsimp only
  rw [hnum, hrest, if_neg hfits, List.take_left, List.drop_left]

/-- **The tokens come back exactly where each comes back from its bytes and is accepted.** -/
theorem loadTokens_iff (tokens : List (ProofCarryingToken S P))
    (hlen : ∀ t ∈ tokens, (serializeToken C t).length < 2 ^ 32) :
    loadTokens C U gpk pp cpp now tokens.length (tokens.flatMap (frame C)) = some (.ok tokens) ↔
      ∀ t ∈ tokens, deserializeToken C U (serializeToken C t) = .ok t ∧
        AllValid C t gpk pp cpp now := by
  induction tokens with
  | nil => simp [loadTokens]
  | cons t tokens ih =>
      have ih' := ih fun t ht => hlen t (List.mem_cons_of_mem _ ht)
      rw [List.forall_mem_cons, ← ih', List.flatMap_cons, List.length_cons,
        loadTokens_frame (hlen t List.mem_cons_self)]
      constructor
      · intro h
        split at h
        · cases h
        · rename_i token hdec
          split at h
          · cases h
          · rename_i vr hvr
            split at h
            · cases h
            · rename_i hall
              split at h
              · rename_i tokens' hrest
                cases h
                exact ⟨⟨hdec, vr, hvr, by simpa using hall⟩, hrest⟩
              · rename_i hno
                exact absurd h (hno _)
      · rintro ⟨⟨hdec, vr, hvr, hall⟩, hrest⟩
        rw [hdec]
        dsimp only
        rw [hvr]
        dsimp only
        rw [if_neg (by rw [hall]; simp), hrest]

/-- A payload of at most as many tokens as a wallet may hold. -/
theorem loadPayload_iff (hcount : w.tokens.length ≤ maxTokensPerWallet)
    (hlen : ∀ t ∈ w.tokens, (serializeToken C t).length < 2 ^ 32) :
    loadPayload C U (w.payload C) gpk pp cpp now = some (.ok w) ↔
      ∀ t ∈ w.tokens, deserializeToken C U (serializeToken C t) = .ok t ∧
        AllValid C t gpk pp cpp now := by
  have hmax : w.tokens.length ≤ 100000 := hcount
  obtain ⟨hshort, hnum, hrest⟩ := number_ahead (show w.tokens.length < 2 ^ 32 by omega)
    (w.tokens.flatMap (frame C))
  rw [← loadTokens_iff w.tokens hlen]
  unfold loadPayload payload
  rw [if_neg hshort]
  dsimp only
  rw [hnum, hrest, if_neg (Nat.not_lt.mpr hcount)]
  cases loadTokens C U gpk pp cpp now w.tokens.length (w.tokens.flatMap (frame C)) with
  | none => simp
  | some res =>
      cases res with
      | error e => simp
      | ok tokens =>
          obtain ⟨tokens'⟩ := w
          simp

/-- A first token whose verification panics takes the load with it. -/
theorem loadPayload_panics {t : ProofCarryingToken S P} {ts : List (ProofCarryingToken S P)}
    (hcount : (t :: ts).length ≤ maxTokensPerWallet)
    (hlen : (serializeToken C t).length < 2 ^ 32)
    (hdec : deserializeToken C U (serializeToken C t) = .ok t)
    (hver : verifyToken C t gpk pp cpp now = none) :
    loadPayload C U (payload C ⟨t :: ts⟩) gpk pp cpp now = none := by
  have hmax : (t :: ts).length ≤ 100000 := hcount
  obtain ⟨hshort, hnum, hrest⟩ := number_ahead (show (t :: ts).length < 2 ^ 32 by omega)
    ((t :: ts).flatMap (frame C))
  unfold loadPayload payload
  rw [if_neg hshort]
  dsimp only
  rw [hnum, hrest, if_neg (Nat.not_lt.mpr hcount), List.length_cons, List.flatMap_cons,
    loadTokens_frame hlen, hdec]
  dsimp only
  rw [hver]

end Wallet

/-! ## 4. The tokens of a mint -/

/-- A token that `issue_full`, `split` or `renew_token` of the mint returned, or a transfer made
    of one. -/
inductive Obtained [DecidableEq P] (C : Suite S P) (mint : Mint S P) :
    ProofCarryingToken S P → Prop where
  | issued {t value signers attributes vdf bond rnd}
      (h : mint.issueFull C value signers attributes vdf bond rnd = .ok t) : Obtained C mint t
  | split {old values signers ns ns' rnd ts t}
      (h : mint.split C old values signers ns rnd = some (.ok ts, ns')) (ht : t ∈ ts) :
      Obtained C mint t
  | renewed {old signers ns ns' rnd r}
      (h : renewToken C old mint signers ns rnd = some (.ok r, ns')) : Obtained C mint r.newToken
  | transferred {t ns ns' rnd r} (ht : Obtained C mint t)
      (h : transfer C t ns rnd = (.ok r, ns')) : Obtained C mint r.token

/-- How a token carries its credentials: the pool holds credentials over the attributes of its
    own, and the presentations fit their bytes. -/
structure Provisioned (t : ProofCarryingToken S P) : Prop where
  pool : ∀ e ∈ t.credentialPool, ∃ c, t.credential = some c ∧ c.attributes = e.1.attributes
  presentation : ∀ p ∈ t.presentation, PresentationFits p
  entries : ∀ e ∈ t.credentialPool, PresentationFits e.2

variable {C : Suite S P} {mint : Mint S P} {t : ProofCarryingToken S P}

/-- A presentation discloses two of five positions and answers for three and the blinding. -/
theorem issueCredential_fits (attrs : Attributes) (rnd : CredentialRandom S) :
    PresentationFits (mint.issueCredential C attrs rnd).2 := by
  have hshown : [Presentation.attrKycPassed, Presentation.attrNotSanctioned].filter
      (· < Attributes.count) = [0, 1] := by decide
  have hhidden : Presentation.hiddenIndices [0, 1] = [2, 3, 4] := by decide
  unfold Mint.issueCredential Presentation.createPresentation
  dsimp only
  rw [hshown, hhidden]
  refine ⟨?_, fun d hd => ?_, ?_⟩
  · simp
  · obtain ⟨i, hi, rfl⟩ := List.mem_map.mp hd
    show i < 256
    rcases List.mem_pair.mp hi with rfl | rfl <;> decide
  · simp

theorem provisioned_of_issued {value : UInt64} {signers : List SignerId}
    {attributes : Option Attributes} {vdf : Option UInt64} {bond : Option Bytes32}
    {rnd : IssueRandom S} (h : mint.issueFull C value signers attributes vdf bond rnd = .ok t) :
    Provisioned t := by
  obtain ⟨_, signature, _, rfl⟩ := Mint.issueFull_inv h
  cases attributes with
  | none =>
      refine ⟨fun e he => ?_, fun p hp => ?_, fun e he => ?_⟩
      · cases he
      · cases hp
      · cases he
  | some attrs =>
      refine ⟨fun e he => ?_, fun p hp => ?_, fun e he => ?_⟩
      · obtain ⟨i, _, rfl⟩ := List.mem_map.mp he
        exact ⟨_, rfl, rfl⟩
      · cases hp
        exact issueCredential_fits attrs rnd.credential
      · obtain ⟨i, _, rfl⟩ := List.mem_map.mp he
        exact issueCredential_fits attrs (rnd.pool i)

/-- A transfer moves the head of the pool into place. -/
theorem provisioned_transfer {ns ns' : NullifierSet} {rnd : TransferRandom S}
    {r : TransferResult S P} (h : Provisioned t) (hok : transfer C t ns rnd = (.ok r, ns')) :
    Provisioned r.token := by
  obtain ⟨_, _, _, _, fold, _, rfl⟩ := transfer_ok_inv hok
  have hpool := h.pool
  have hentries := h.entries
  cases hcred : t.credentialPool with
  | nil =>
      refine ⟨fun e he => ?_, fun p hp => ?_, fun e he => ?_⟩
      · simp [handedOver, nextCredential, hcred] at he
      · simp only [handedOver, nextCredential, hcred] at hp
        exact h.presentation p hp
      · simp [handedOver, nextCredential, hcred] at he
  | cons e₀ pool =>
      rw [hcred] at hpool hentries
      obtain ⟨c, hc, hattr⟩ := hpool e₀ List.mem_cons_self
      refine ⟨fun e he => ?_, fun p hp => ?_, fun e he => ?_⟩
      · -- both agree with the credential they replace
        simp only [handedOver, nextCredential, hcred] at he ⊢
        obtain ⟨c', hc', hattr'⟩ := hpool e (List.mem_cons_of_mem _ he)
        rw [hc] at hc'
        cases hc'
        exact ⟨e₀.1, rfl, hattr.symm.trans hattr'⟩
      · simp only [handedOver, nextCredential, hcred] at hp
        cases hp
        exact hentries e₀ List.mem_cons_self
      · simp only [handedOver, nextCredential, hcred] at he
        exact hentries e (List.mem_cons_of_mem _ he)

variable [DecidableEq P]

/-- **What holds of every token of a sound mint**: it is honest, and provisioned. -/
theorem Obtained.honest (hmint : mint.Sound C) (h : Obtained C mint t) :
    Honest C mint t ∧ Provisioned t := by
  induction h with
  | issued h => exact ⟨honest_of_issued hmint h, provisioned_of_issued h⟩
  | split h ht =>
      obtain ⟨v, rnd', hissue⟩ := Mint.split_issued h ht
      exact ⟨honest_of_issued hmint hissue, provisioned_of_issued hissue⟩
  | renewed h =>
      have hissue := renewToken_issued h
      exact ⟨honest_of_issued hmint hissue, provisioned_of_issued hissue⟩
  | transferred _ h ih => exact ⟨honest_transfer ih.1 h, provisioned_transfer ih.2 h⟩

/-! ## 5. Which wallets load again -/

/-- The limits of the decoder and of the verifier that issuance does not keep to: on the length
    of the chain and of the pool, on the jurisdiction of the token's own credential, and on the
    time lock. -/
structure Loadable (U : CharTable) (t : ProofCarryingToken S P) : Prop where
  chain : t.foldProof.stepsChain.length ≤ maxFoldSteps
  pool : t.credentialPool.length ≤ maxPool
  jurisdiction : ∀ c ∈ t.credential, SafeJurisdiction U c ∧ CredentialFits c
  vdf : VdfWithin t

variable {U : CharTable}

/-- **Which tokens come back from their bytes and are accepted.** -/
theorem comes_back_iff (hmint : mint.Sound C) (h : Obtained C mint t) :
    (deserializeToken C U (serializeToken C t) = .ok t ∧
      AllValid C t mint.groupPublicKey mint.pedersen mint.credentialIssuer.pedersen 0) ↔
      Loadable U t := by
  obtain ⟨hhonest, hprov⟩ := h.honest hmint
  rw [allValid_iff_of_honest hhonest]
  constructor
  · rintro ⟨hdec, hvdf⟩
    -- what was decoded is within the decoder's limits, whatever its bytes
    obtain ⟨hadm, hfits⟩ := deserializeToken_wellFormed hdec
    exact ⟨hadm.chain, hadm.pool, fun c hc => ⟨hadm.jurisdiction c hc, hfits c hc⟩, hvdf⟩
  · intro hl
    have hpoolCap : t.credentialPool.length ≤ 10000 := hl.pool
    have hwire : WireFits t :=
      { steps := hhonest.steps
        credential := fun c hc => (hl.jurisdiction c hc).2
        presentation := hprov.presentation
        pool := by omega
        entries := by
          intro e he
          obtain ⟨c, hc, hattr⟩ := hprov.pool e he
          refine ⟨?_, hprov.entries e he⟩
          unfold CredentialFits
          rw [← hattr]
          exact (hl.jurisdiction c hc).2 }
    have hadm : Admitted U t :=
      { value := hhonest.value
        count := hhonest.within
        chain := hl.chain
        jurisdiction := fun c hc => (hl.jurisdiction c hc).1
        pool := hl.pool }
    exact ⟨(deserializeToken_serializeToken_iff hwire).mpr ⟨hadm, rfl⟩, hl.vdf⟩

namespace Wallet

omit [DecidableEq P] in
/-- Every token of a saved wallet is shorter than the saved bytes. -/
theorem length_token_lt {A : Cipher} {w : Wallet S P} {passphrase data : Bytes}
    {rnd : StoreRandom} (h : w.save C A passphrase rnd = .ok data) {t : ProofCarryingToken S P}
    (ht : t ∈ w.tokens) : (serializeToken C t).length < data.length := by
  obtain ⟨c, hc, rfl⟩ := save_ok h
  have hcipher := A.length_aeadEncrypt _ _ _ _ hc
  have hframe : (frame C t).length ≤ (w.tokens.flatMap (frame C)).length := by
    rw [List.length_flatMap]
    exact List.le_sum_of_mem (List.mem_map_of_mem ht)
  have hone : (frame C t).length = 4 + (serializeToken C t).length := by
    unfold frame
    rw [List.length_append, length_leBytes]
  unfold payload at hcipher
  simp only [List.length_append, length_leBytes] at hcipher ⊢
  omega

/-- Saved and loaded again by the mint's keys, a wallet of tokens that come back. -/
theorem loads_iff (hmint : mint.Sound C) {A : Cipher} {w : Wallet S P}
    (hcount : w.tokens.length ≤ maxTokensPerWallet) (hobt : ∀ t ∈ w.tokens, Obtained C mint t)
    {passphrase data : Bytes} {rnd : StoreRandom} (hsave : w.save C A passphrase rnd = .ok data)
    (hsize : data.length < 2 ^ 32) :
    load C U A data passphrase mint.groupPublicKey mint.pedersen mint.credentialIssuer.pedersen 0 =
        some (.ok w) ↔
      ∀ t ∈ w.tokens, Loadable U t := by
  rw [load_save hsave hsize, loadPayload_iff hcount fun t ht =>
    Nat.lt_trans (length_token_lt hsave ht) hsize]
  exact forall₂_congr fun t ht => comes_back_iff hmint (hobt t ht)

/-- **Which saved wallets load again.** A wallet of at most 100,000 tokens that one mint issued,
    split, renewed or that were transferred since, saved under a passphrase and loaded under it
    with the mint's keys, comes back with the same tokens in the same order exactly where every
    one of them is within the limits: at most 10,000 hand-overs and pool entries, a jurisdiction
    of at most 255 bytes of letters, digits, `-` and `_`, a time lock of 1 to 10,000,000
    iterations. -/
theorem load_save_iff (hmint : mint.SetUp C) (A : Cipher) (w : Wallet S P)
    (hcount : w.tokens.length ≤ 100000) (hobt : ∀ t ∈ w.tokens, Obtained C mint t)
    {passphrase data : Bytes} {rnd : StoreRandom} (hsave : w.save C A passphrase rnd = .ok data)
    (hsize : data.length < 2 ^ 32) :
    load C U A data passphrase mint.groupPublicKey mint.pedersen mint.credentialIssuer.pedersen 0 =
        some (.ok w) ↔
      ∀ t ∈ w.tokens, Loadable U t :=
  loads_iff hmint.sound hcount hobt hsave hsize

/-- A cipher that evaluates: every byte moved by the key, and a tag over the plaintext. -/
def sampleTag (key : Bytes32) (nonce : ByteArr 12) (m : Bytes) : Bytes :=
  leBytes 16 (ofLE (sampleDigest 263 32 (key.toList ++ nonce.toList ++ m)).toList)

def sampleCipher : Cipher where
  deriveKey passphrase salt := sampleDigest 257 32 (passphrase ++ salt.toList)
  aeadEncrypt key nonce m := some (m.map (· + key.head) ++ sampleTag key nonce m)
  aeadDecrypt key nonce c :=
    let m := (c.take (c.length - 16)).map (· - key.head)
    if c.drop (c.length - 16) = sampleTag key nonce m then some m else none
  length_aeadEncrypt key nonce m c h := by
    cases h
    simp [sampleTag]
  aeadDecrypt_aeadEncrypt key nonce m c h := by
    cases h
    have hlen : (m.map (· + key.head) ++ sampleTag key nonce m).length - 16 =
        (m.map (· + key.head)).length := by
      simp [sampleTag]
    have hback : (m.map (· + key.head)).map (· - key.head) = m := by
      rw [List.map_map]
      refine (List.map_congr_left fun b _ => ?_).trans (List.map_id m)
      show b + key.head - key.head = b
      exact UInt8.add_sub_cancel b key.head
    dsimp only
    rw [hlen, List.take_left, List.drop_left, hback, if_pos rfl]

def samplePassphrase : Bytes := ascii "correct horse"

/-- A wallet with one token over the attributes `a`, issued by a mint with one signer and bound 1,
    and its saved bytes. -/
def sampleSaved (a : Attributes) : Option (Mint SampleScalar SamplePoint ×
    ProofCarryingToken SampleScalar SamplePoint × Bytes) :=
  (Mint.setup sampleSuite ⟨1, 1, 1⟩ sampleDealer 5).bind fun mint =>
    (mint.issueFull sampleSuite 10 [1] (some a) none none (sampleIssueRandom 0)).toOption.bind
      fun t => (save sampleSuite sampleCipher ⟨[t]⟩ samplePassphrase
        ⟨leArr 16 1, leArr 12 2⟩).toOption.map fun data => (mint, t, data)

theorem sampleSaved_run {a : Attributes} {out : Mint SampleScalar SamplePoint ×
    ProofCarryingToken SampleScalar SamplePoint × Bytes} (h : sampleSaved a = some out) :
    out.1.SetUp sampleSuite ∧ Obtained sampleSuite out.1 out.2.1 ∧
      save sampleSuite sampleCipher ⟨[out.2.1]⟩ samplePassphrase ⟨leArr 16 1, leArr 12 2⟩ =
        .ok out.2.2 := by
  obtain ⟨mint, hmint, h⟩ := Option.bind_eq_some_iff.mp h
  obtain ⟨t, ht, h⟩ := Option.bind_eq_some_iff.mp h
  obtain ⟨data, hdata, rfl⟩ := Option.map_eq_some_iff.mp h
  exact ⟨.inl ⟨_, _, _, hmint⟩, .issued (ok_of_toOption ht), ok_of_toOption hdata⟩

/-- A credential whose jurisdiction has a space in it: the token is accepted, the wallet that
    holds it is saved, and cannot be loaded. -/
theorem spaced_jurisdiction_lost :
    ∃ (mint : Mint SampleScalar SamplePoint) (t : ProofCarryingToken SampleScalar SamplePoint)
      (data : Bytes), mint.SetUp sampleSuite ∧ Obtained sampleSuite mint t ∧
      AllValid sampleSuite t mint.groupPublicKey mint.pedersen mint.credentialIssuer.pedersen 0 ∧
      save sampleSuite sampleCipher ⟨[t]⟩ samplePassphrase ⟨leArr 16 1, leArr 12 2⟩ = .ok data ∧
      data.length < 2 ^ 32 ∧
      load sampleSuite asciiTable sampleCipher data samplePassphrase mint.groupPublicKey
        mint.pedersen mint.credentialIssuer.pedersen 0 ≠ some (.ok ⟨[t]⟩) := by
  have hrun : ((sampleSaved ⟨true, true, "New York", true, 0⟩).map fun out =>
      decide (out.2.2.length < 2 ^ 32 ∧ out.2.1.vdfProof = none ∧
        (out.2.1.credential.map fun c => decide (SafeJurisdiction asciiTable c)) =
          some false)) = some true := by
    decide +kernel
  obtain ⟨out, hout, hfacts⟩ := Option.map_eq_some_iff.mp hrun
  obtain ⟨hsize, hvdf, hcred⟩ := of_decide_eq_true hfacts
  obtain ⟨hmint, hobt, hsave⟩ := sampleSaved_run hout
  have hone : ∀ t ∈ [out.2.1], Obtained sampleSuite out.1 t := by
    intro t ht
    rw [List.mem_singleton.mp ht]
    exact hobt
  refine ⟨out.1, out.2.1, out.2.2, hmint, hobt, ?_, hsave, hsize, fun hload => ?_⟩
  · refine (allValid_iff_of_honest (hobt.honest hmint.sound).1).mpr fun v hv => ?_
    rw [hvdf] at hv
    cases hv
  · have hcount : (⟨[out.2.1]⟩ : Wallet SampleScalar SamplePoint).tokens.length ≤ 100000 :=
      show 1 ≤ 100000 by omega
    have hall := (loads_iff hmint.sound hcount hone hsave hsize).mp hload
    obtain ⟨c, hc, hunsafe⟩ := Option.map_eq_some_iff.mp hcred
    have hsafe := ((hall _ (List.mem_singleton_self _)).jurisdiction c hc).1
    exact absurd hsafe (of_decide_eq_false hunsafe)

/-- With a plain jurisdiction it is loaded again. -/
theorem plain_jurisdiction_loads :
    ∃ (mint : Mint SampleScalar SamplePoint) (t : ProofCarryingToken SampleScalar SamplePoint)
      (data : Bytes), mint.SetUp sampleSuite ∧ Obtained sampleSuite mint t ∧
      save sampleSuite sampleCipher ⟨[t]⟩ samplePassphrase ⟨leArr 16 1, leArr 12 2⟩ = .ok data ∧
      data.length < 2 ^ 32 ∧
      load sampleSuite asciiTable sampleCipher data samplePassphrase mint.groupPublicKey
        mint.pedersen mint.credentialIssuer.pedersen 0 = some (.ok ⟨[t]⟩) := by
  have hrun : ((sampleSaved ⟨true, true, "EU", true, 0⟩).map fun out =>
      decide (out.2.2.length < 2 ^ 32 ∧ out.2.1.vdfProof = none ∧
        out.2.1.foldProof.stepsChain.length = 0 ∧ out.2.1.credentialPool.length = 1 ∧
        (out.2.1.credential.all fun c => decide (SafeJurisdiction asciiTable c) &&
          decide ((utf8Bytes c.attributes.jurisdiction).length ≤ 255)) = true)) = some true := by
    decide +kernel
  obtain ⟨out, hout, hfacts⟩ := Option.map_eq_some_iff.mp hrun
  obtain ⟨hsize, hvdf, hchain, hpool, hcred⟩ := of_decide_eq_true hfacts
  obtain ⟨hmint, hobt, hsave⟩ := sampleSaved_run hout
  refine ⟨out.1, out.2.1, out.2.2, hmint, hobt, hsave, hsize, ?_⟩
  refine (load_save_iff hmint sampleCipher ⟨[out.2.1]⟩ (show 1 ≤ 100000 by omega) ?_ hsave
    hsize).mpr ?_
  · intro t ht
    rw [List.mem_singleton.mp ht]
    exact hobt
  · intro t ht
    rw [List.mem_singleton.mp ht]
    refine ⟨by rw [hchain]; decide, by rw [hpool]; decide, fun c hc => ?_, fun v hv => ?_⟩
    · rw [hc] at hcred
      simpa [CredentialFits] using hcred
    · rw [hvdf] at hv
      cases hv

end Wallet

end Specter
