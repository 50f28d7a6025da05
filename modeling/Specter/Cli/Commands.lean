/-
  File:      Specter/Cli/Commands.lean
  Subject:   THE COMMANDS OF THE CLI OVER THE WALLET FILE (`cmd_setup`, `cmd_mint`, `cmd_balance`,
             `cmd_transfer`, `cmd_save`, `cmd_load`, `cmd_send`, `cmd_receive` of
             specter-cli/src/main.rs).

  Every invocation sets up a mint of its own, loads the wallet under the keys of that mint, and
  writes it back. A wallet that does not load counts as an empty one. What the invocation draws
  and how the write and the connection end are arguments; the identity file and the printed lines
  are left out. Of a write that fails any number of bytes may be in the file; an existing file can
  be read. One passphrase serves all invocations.

  The commands are written over a store of one wallet, of which the file is one and the shelf,
  a wallet without bytes, is another.

  * `command_simulates` -- stores that read and write alike make every command do the same;
  * `load_torn` -- a file that was not written to its end does not load;
  * `commands_refine` -- so over the file every sequence of commands does what it does over the
    shelf, failed writes included;
  * `strangers_forget` -- where no token is valid under the keys of a later invocation, no wallet
    of a run has more than one token, and no command transfers, sends or receives one;
  * `sent_token_refused` -- a token that is sent is not received, under whatever keys.
-/
import Specter.Core.Payments
import Specter.Core.Sizes

namespace Specter

open Lib Serde

variable {S P : Type} [Field S] [AddCommGroup P] [Module S P]

/-! ## 1. Invocations -/

/-- How `fs::write` ends: well, or with the file not opened, or with some of the bytes in it. -/
inductive WriteResult where
  | done
  | refused
  | torn (written : Nat)

/-- What an invocation draws and reads from its surroundings. -/
structure Invocation (S : Type) where
  keys : Nat → Round1Random S
  issuerSecret : S
  store : StoreRandom
  now : UInt64
  write : WriteResult

def defaultAttrs : Attributes := ⟨true, true, "EU", true, 0⟩

def defaultMint (C : Suite S P) (inv : Invocation S) : Option (Mint S P) :=
  Mint.setupWithDkg C ⟨2, 3, 20⟩ inv.keys inv.issuerSecret

/-- How a command that saves may fail. -/
inductive StoreFailure where
  | save (e : WalletError)
  | write

/-- Where a wallet is kept between invocations: `load_or_create_wallet`, `none` where a
    verification panics, and `save` with `fs::write`, which answers with the number of bytes. -/
structure WalletStore (F S P : Type) where
  loadOrCreateWallet : F → Mint S P → Invocation S → Option (Wallet S P)
  put : F → Wallet S P → Invocation S → Except StoreFailure Nat × F

/-! ## 2. The connection -/

def encryptWithKey (A : Cipher) (plaintext : Bytes) (key : Bytes32) (nonce : ByteArr 12) :
    Option Bytes :=
  (A.aeadEncrypt key nonce plaintext).map fun ciphertext => nonce.toList ++ ciphertext

def decryptWithKey (A : Cipher) (data : Bytes) (key : Bytes32) : Option Bytes :=
  if data.length < 12 then none
  else A.aeadDecrypt key (takeArr 12 data) (data.drop 12)

def maxTokenSize : Nat := 65536

/-- What `cmd_receive` reads off the stream. -/
inductive Frame where
  | connectionError
  | invalidSize (len : Nat)
  | frame (bytes : Bytes)

def readFrame (stream : Bytes) : Frame :=
  if stream.length < 4 then .connectionError
  else
    let len := ofLE (stream.take 4)
    if len > maxTokenSize ∨ len = 0 then .invalidSize len
    else if (stream.drop 4).length < len then .connectionError
    else .frame ((stream.drop 4).take len)

/-- The sender's side: connecting and the handshake may fail; then a key is agreed, a nonce drawn,
    and the stream takes the bytes or not. -/
inductive Outgoing where
  | connectFailed
  | handshakeFailed
  | agreed (key : Bytes32) (nonce : ByteArr 12) (taken : Bool)

/-- The receiver's side. -/
inductive Incoming where
  | bindFailed
  | acceptFailed
  | handshakeFailed
  | agreed (key : Bytes32) (stream : Bytes)

/-! ## 3. The commands -/

inductive Command (S : Type) where
  | setup
  | mint (value : UInt64) (rnd : IssueRandom S)
  | balance
  | transfer (rnd : TransferRandom S)
  | save
  | load
  | send (net : Outgoing)
  | receive (net : Incoming)

/-- How an invocation ends. -/
inductive Report where
  | panicked
  | storeFailed (e : StoreFailure)
  | setUp
  | minted (tokenId : Bytes32) (balance : UInt64)
  | shown (balance : UInt64) (count needing : Nat)
  | loaded (balance : UInt64) (count : Nat)
  | saved (bytes count : Nat)
  | walletEmpty
  | noTransferable
  | transferFailed (e : TransferError)
  | transferred (tokenId nullifier : Bytes32) (balance : UInt64)
  | connectionFailed
  | encryptionFailed
  | sent (tokenId : Bytes32) (wire : Bytes)
  | sentUnsaved (e : StoreFailure) (wire : Bytes)
  | invalidSize (len : Nat)
  | decryptionFailed
  | undecodable (e : SerdeError)
  | invalidToken
  | received (tokenId : Bytes32)

/-- The bytes of a token that was sent. -/
def Report.wire : Report → Option Bytes
  | .sent _ wire => some wire
  | _ => none

section Commands

variable {F : Type} [DecidableEq P] (W : WalletStore F S P) (C : Suite S P) (U : CharTable)
  (A : Cipher)

/-- The report after the wallet was put into the store, or was not. -/
def afterPut (x : Except StoreFailure Nat × F) (done : Nat → Report)
    (failed : StoreFailure → Report) : Report × F :=
  match x with
  | (.ok bytes, file) => (done bytes, file)
  | (.error e, file) => (failed e, file)

theorem afterPut_store (x : Except StoreFailure Nat × F) (done : Nat → Report)
    (failed : StoreFailure → Report) : (afterPut x done failed).2 = x.2 := by
  rcases x with ⟨_ | _, _⟩ <;> rfl

/-- Sets up the mint, loads the wallet and goes on with both. -/
def withWallet (file : F) (inv : Invocation S) (next : Mint S P → Wallet S P → Report × F) :
    Report × F :=
  match defaultMint C inv with
  | none => (.panicked, file)
  | some mint =>
      match W.loadOrCreateWallet file mint inv with
      | none => (.panicked, file)
      | some w => next mint w

def cmdSetup (file : F) (inv : Invocation S) : Report × F :=
  match defaultMint C inv with
  | none => (.panicked, file)
  | some _ => afterPut (W.put file .new inv) (fun _ => .setUp) .storeFailed

/-- The token is issued before the wallet is loaded; its `unwrap` is a panic. -/
def cmdMint (file : F) (inv : Invocation S) (value : UInt64) (rnd : IssueRandom S) : Report × F :=
  match defaultMint C inv with
  | none => (.panicked, file)
  | some mint =>
      match mint.issue C value [1, 2] (some defaultAttrs) rnd with
      | .error _ => (.panicked, file)
      | .ok token =>
          match W.loadOrCreateWallet file mint inv with
          | none => (.panicked, file)
          | some w =>
              let w' := (w.addToken token).2
              afterPut (W.put file w' inv) (fun _ => .minted token.tokenId w'.balance)
                .storeFailed

def cmdBalance (file : F) (inv : Invocation S) : Report × F :=
  withWallet W C file inv fun _ w =>
    (.shown w.balance w.tokenCount w.tokensNeedingRenewal.length, file)

def cmdTransfer (file : F) (inv : Invocation S) (rnd : TransferRandom S) : Report × F :=
  withWallet W C file inv fun _ w =>
    if w.isEmpty then (.walletEmpty, file)
    else
      match w.takeToken 1 with
      | (none, _) => (.noTransferable, file)
      | (some token, w) =>
          match transfer C token .new rnd with
          | (.error e, _) => (.transferFailed e, file)
          | (.ok r, _) =>
              let w' := (w.addToken r.token).2
              afterPut (W.put file w' inv)
                (fun _ => .transferred token.tokenId r.spentNullifier w'.balance) .storeFailed

def cmdSave (file : F) (inv : Invocation S) : Report × F :=
  withWallet W C file inv fun _ w =>
    afterPut (W.put file w inv) (fun bytes => .saved bytes w.tokenCount) .storeFailed

def cmdLoad (file : F) (inv : Invocation S) : Report × F :=
  withWallet W C file inv fun _ w => (.loaded w.balance w.tokenCount, file)

/-- The wallet is saved, without the token, only when all bytes were taken. -/
def cmdSend (file : F) (inv : Invocation S) (net : Outgoing) : Report × F :=
  withWallet W C file inv fun _ w =>
    if w.isEmpty then (.walletEmpty, file)
    else
      match w.takeToken 1 with
      | (none, _) => (.noTransferable, file)
      | (some token, w) =>
          let plaintext := serializeTokenPublic C token
          match net with
          | .connectFailed => (.connectionFailed, file)
          | .handshakeFailed => (.connectionFailed, file)
          | .agreed key nonce taken =>
              match encryptWithKey A plaintext key nonce with
              | none => (.encryptionFailed, file)
              | some encrypted =>
                  if taken = false then (.connectionFailed, file)
                  else
                    let wire := leBytes 4 encrypted.length ++ encrypted
                    afterPut (W.put file w inv) (fun _ => .sent token.tokenId wire)
                      fun e => .sentUnsaved e wire

/-- The token against the keys of a new mint. -/
def withVerdict (file : F) (inv : Invocation S) (token : ProofCarryingToken S P)
    (next : Mint S P → Report × F) : Report × F :=
  match defaultMint C inv with
  | none => (.panicked, file)
  | some mint =>
      match verifyToken C token mint.groupPublicKey mint.pedersen mint.credentialIssuer.pedersen
          0 with
      | none => (.panicked, file)
      | some vr => if vr.allValid = true then next mint else (.invalidToken, file)

/-- The mint is set up only once a token has been decoded; the wallet is loaded last. -/
def cmdReceive (file : F) (inv : Invocation S) (net : Incoming) : Report × F :=
  match net with
  | .bindFailed => (.connectionFailed, file)
  | .acceptFailed => (.connectionFailed, file)
  | .handshakeFailed => (.connectionFailed, file)
  | .agreed key stream =>
      match readFrame stream with
      | .connectionError => (.connectionFailed, file)
      | .invalidSize len => (.invalidSize len, file)
      | .frame encrypted =>
          match decryptWithKey A encrypted key with
          | none => (.decryptionFailed, file)
          | some buf =>
              match deserializeToken C U buf with
              | .error e => (.undecodable e, file)
              | .ok token =>
                  withVerdict C file inv token fun mint =>
                    match W.loadOrCreateWallet file mint inv with
                    | none => (.panicked, file)
                    | some w =>
                        afterPut (W.put file (w.addToken token).2 inv)
                          (fun _ => .received token.tokenId) .storeFailed

def command (file : F) (inv : Invocation S) : Command S → Report × F
  | .setup => cmdSetup W C file inv
  | .mint value rnd => cmdMint W C file inv value rnd
  | .balance => cmdBalance W C file inv
  | .transfer rnd => cmdTransfer W C file inv rnd
  | .save => cmdSave W C file inv
  | .load => cmdLoad W C file inv
  | .send net => cmdSend W C A file inv net
  | .receive net => cmdReceive W C U A file inv net

end Commands

/-! ## 4. Two stores that behave alike -/

section Simulation

variable {F G : Type} {W : WalletStore F S P} {V : WalletStore G S P} {C : Suite S P}
  {Fits : F → Prop} {R : F → G → Prop} {f : F} {g : G} {inv : Invocation S}

/-- Related stores load the same wallet, and answer alike and stay related when the same wallet is
    put into them, as long as what was written fits. -/
structure Alike (W : WalletStore F S P) (V : WalletStore G S P) (Fits : F → Prop)
    (R : F → G → Prop) : Prop where
  load : ∀ f g mint inv, R f g → W.loadOrCreateWallet f mint inv = V.loadOrCreateWallet g mint inv
  put : ∀ f g w inv, R f g → Fits (W.put f w inv).2 →
    (W.put f w inv).1 = (V.put g w inv).1 ∧ R (W.put f w inv).2 (V.put g w inv).2

/-- Two ends of one command. -/
def SameEnd (R : F → G → Prop) (x : Report × F) (y : Report × G) : Prop :=
  x.1 = y.1 ∧ R x.2 y.2

omit [Field S] [AddCommGroup P] [Module S P] in
theorem sameEnd_put (h : Alike W V Fits R) (hR : R f g) {w : Wallet S P} {done : Nat → Report}
    {failed : StoreFailure → Report} (hfits : Fits (afterPut (W.put f w inv) done failed).2) :
    SameEnd R (afterPut (W.put f w inv) done failed) (afterPut (V.put g w inv) done failed) := by
  rw [afterPut_store] at hfits
  obtain ⟨hans, hR'⟩ := h.put f g w inv hR hfits
  refine ⟨?_, by rwa [afterPut_store, afterPut_store]⟩
  rcases hW : W.put f w inv with ⟨_ | _, _⟩ <;> rcases hV : V.put g w inv with ⟨_ | _, _⟩ <;>
    rw [hW, hV] at hans <;> cases hans <;> rfl

theorem sameEnd_withWallet (h : Alike W V Fits R) (hR : R f g)
    {next : Mint S P → Wallet S P → Report × F} {next' : Mint S P → Wallet S P → Report × G}
    (hnext : ∀ mint w, Fits (next mint w).2 → SameEnd R (next mint w) (next' mint w))
    (hfits : Fits (withWallet W C f inv next).2) :
    SameEnd R (withWallet W C f inv next) (withWallet V C g inv next') := by
  unfold withWallet at hfits ⊢
  cases hmint : defaultMint C inv with
  | none => exact ⟨rfl, hR⟩
  | some mint =>
      rw [hmint] at hfits
      dsimp only at hfits ⊢
      rw [← h.load f g mint inv hR]
      cases hload : W.loadOrCreateWallet f mint inv with
      | none => exact ⟨rfl, hR⟩
      | some w =>
          rw [hload] at hfits
          exact hnext mint w hfits

variable [DecidableEq P] {U : CharTable} {A : Cipher}

theorem sameEnd_withVerdict (hR : R f g) {token : ProofCarryingToken S P}
    {next : Mint S P → Report × F} {next' : Mint S P → Report × G}
    (hnext : ∀ mint, Fits (next mint).2 → SameEnd R (next mint) (next' mint))
    (hfits : Fits (withVerdict C f inv token next).2) :
    SameEnd R (withVerdict C f inv token next) (withVerdict C g inv token next') := by
  unfold withVerdict at hfits ⊢
  cases hmint : defaultMint C inv with
  | none => exact ⟨rfl, hR⟩
  | some mint =>
      rw [hmint] at hfits
      dsimp only at hfits ⊢
      cases hvr : verifyToken C token mint.groupPublicKey mint.pedersen
          mint.credentialIssuer.pedersen 0 with
      | none => exact ⟨rfl, hR⟩
      | some vr =>
          rw [hvr] at hfits
          dsimp only at hfits ⊢
          by_cases hall : vr.allValid = true
          · rw [if_pos hall] at hfits
            rw [if_pos hall, if_pos hall]
            exact hnext mint hfits
          · rw [if_neg hall, if_neg hall]
            exact ⟨rfl, hR⟩

/-- **Every command ends alike over stores that behave alike.** -/
theorem command_simulates (h : Alike W V Fits R) (hR : R f g) {c : Command S}
    (hfits : Fits (command W C U A f inv c).2) :
    SameEnd R (command W C U A f inv c) (command V C U A g inv c) := by
  cases c with
  | setup =>
      simp only [command, cmdSetup] at hfits ⊢
      cases hmint : defaultMint C inv with
      | none => exact ⟨rfl, hR⟩
      | some mint =>
          rw [hmint] at hfits
          exact sameEnd_put h hR hfits
  | mint value rnd =>
      simp only [command, cmdMint] at hfits ⊢
      cases hmint : defaultMint C inv with
      | none => exact ⟨rfl, hR⟩
      | some mint =>
          rw [hmint] at hfits
          dsimp only at hfits ⊢
          cases hissue : mint.issue C value [1, 2] (some defaultAttrs) rnd with
          | error e => exact ⟨rfl, hR⟩
          | ok token =>
              rw [hissue] at hfits
              dsimp only at hfits ⊢
              rw [← h.load f g mint inv hR]
              cases hload : W.loadOrCreateWallet f mint inv with
              | none => exact ⟨rfl, hR⟩
              | some w =>
                  rw [hload] at hfits
                  exact sameEnd_put h hR hfits
  | balance =>
      simp only [command, cmdBalance] at hfits ⊢
      refine sameEnd_withWallet h hR (fun mint w _ => ?_) hfits
      exact ⟨rfl, hR⟩
  | transfer rnd =>
      simp only [command, cmdTransfer] at hfits ⊢
      refine sameEnd_withWallet h hR (fun mint w hw => ?_) hfits
      by_cases hempty : w.isEmpty = true
      · rw [if_pos hempty, if_pos hempty]
        exact ⟨rfl, hR⟩
      · rw [if_neg hempty] at hw
        rw [if_neg hempty, if_neg hempty]
        rcases htake : w.takeToken 1 with ⟨_ | token, w'⟩
        · exact ⟨rfl, hR⟩
        · rw [htake] at hw
          dsimp only at hw ⊢
          rcases htransfer : transfer C token .new rnd with ⟨_ | r, ns⟩
          · exact ⟨rfl, hR⟩
          · rw [htransfer] at hw
            exact sameEnd_put h hR hw
  | save =>
      simp only [command, cmdSave] at hfits ⊢
      exact sameEnd_withWallet h hR (fun mint w hw => sameEnd_put h hR hw) hfits
  | load =>
      simp only [command, cmdLoad] at hfits ⊢
      refine sameEnd_withWallet h hR (fun mint w _ => ?_) hfits
      exact ⟨rfl, hR⟩
  | send net =>
      simp only [command, cmdSend] at hfits ⊢
      refine sameEnd_withWallet h hR (fun mint w hw => ?_) hfits
      by_cases hempty : w.isEmpty = true
      · rw [if_pos hempty, if_pos hempty]
        exact ⟨rfl, hR⟩
      · rw [if_neg hempty] at hw
        rw [if_neg hempty, if_neg hempty]
        rcases htake : w.takeToken 1 with ⟨_ | token, w'⟩
        · exact ⟨rfl, hR⟩
        · rw [htake] at hw
          cases net with
          | connectFailed => exact ⟨rfl, hR⟩
          | handshakeFailed => exact ⟨rfl, hR⟩
          | agreed key nonce taken =>
              dsimp only at hw ⊢
              cases henc : encryptWithKey A (serializeTokenPublic C token) key nonce with
              | none => exact ⟨rfl, hR⟩
              | some encrypted =>
                  rw [henc] at hw
                  cases taken with
                  | false => exact ⟨rfl, hR⟩
                  | true => exact sameEnd_put h hR hw
  | receive net =>
      cases net with
      | bindFailed => exact ⟨rfl, hR⟩
      | acceptFailed => exact ⟨rfl, hR⟩
      | handshakeFailed => exact ⟨rfl, hR⟩
      | agreed key stream =>
          simp only [command, cmdReceive] at hfits ⊢
          cases hread : readFrame stream with
          | connectionError => exact ⟨rfl, hR⟩
          | invalidSize len => exact ⟨rfl, hR⟩
          | frame encrypted =>
              rw [hread] at hfits
              dsimp only at hfits ⊢
              cases hdec : decryptWithKey A encrypted key with
              | none => exact ⟨rfl, hR⟩
              | some buf =>
                  rw [hdec] at hfits
                  dsimp only at hfits ⊢
                  cases htoken : deserializeToken C U buf with
                  | error e => exact ⟨rfl, hR⟩
                  | ok token =>
                      rw [htoken] at hfits
                      refine sameEnd_withVerdict hR (fun mint hw => ?_) hfits
                      rw [← h.load f g mint inv hR]
                      cases hload : W.loadOrCreateWallet f mint inv with
                      | none => exact ⟨rfl, hR⟩
                      | some w =>
                          rw [hload] at hw
                          exact sameEnd_put h hR hw

/-- What putting a wallet keeps, every command keeps. -/
theorem command_keeps {I : F → Prop} (hput : ∀ f w inv, I f → I (W.put f w inv).2) (hI : I f)
    (inv : Invocation S) (c : Command S) : I (command W C U A f inv c).2 := by
  have halike : Alike W W (fun _ => True) (fun f g => f = g ∧ I f) := by
    refine ⟨fun f g mint inv hR => by rw [hR.1], fun f g w inv hR _ => ?_⟩
    obtain ⟨rfl, hf⟩ := hR
    exact ⟨rfl, rfl, hput f w inv hf⟩
  have hend : SameEnd (fun f g => f = g ∧ I f) (command W C U A f inv c)
      (command W C U A f inv c) :=
    command_simulates halike (show f = f ∧ I f from ⟨rfl, hI⟩) trivial
  exact hend.2.2

end Simulation

/-! ## 5. The file and the shelf -/

namespace Wallet

variable {C : Suite S P} {A : Cipher} {w : Wallet S P} {passphrase data : Bytes}
  {rnd : StoreRandom}

/-- The number of bytes of a saved wallet. -/
def savedLength (C : Suite S P) (w : Wallet S P) : Nat := 36 + ((w.payload C).length + 16)

/-- The length of the ciphertext stands in front of it. -/
theorem save_header (h : w.save C A passphrase rnd = .ok data) :
    data.length = w.savedLength C ∧
      ofLE ((data.drop 32).take 4) = (data.length - 36) % 2 ^ 32 := by
  obtain ⟨c, hc, hdata⟩ := save_ok h
  have hmagic : magic.length = 4 := by decide
  have hcipher := A.length_aeadEncrypt _ _ _ _ hc
  have hlen : data.length = 36 + c.length := by
    rw [hdata]
    simp only [List.length_append, List.Vector.toList_length, length_leBytes, hmagic]
    omega
  have hpre : (magic ++ rnd.salt.toList ++ rnd.nonce.toList).length = 32 := by simp [hmagic]
  have hdrop : data.drop 32 = leBytes 4 c.length ++ c := by
    rw [hdata, ← List.append_assoc, ← List.append_assoc, ← List.append_assoc,
      List.append_assoc _ (leBytes 4 c.length), List.drop_left' hpre]
  refine ⟨by rw [hlen, hcipher]; rfl, ?_⟩
  rw [hdrop, List.take_left' (length_leBytes 4 c.length), ofLE_leBytes, hlen,
    Nat.add_sub_cancel_left]
  rfl

variable [DecidableEq P]

/-- **A saved wallet that was not written to its end does not load**, under whatever keys. -/
theorem load_torn {U : CharTable} {gpk : P} {pp cpp : PedersenParams P} {now : UInt64}
    (h : w.save C A passphrase rnd = .ok data) (hsize : w.savedLength C < 2 ^ 32) {k : Nat}
    (hk : k < data.length) :
    load C U A (data.take k) passphrase gpk pp cpp now = some (.error .invalidFormat) := by
  obtain ⟨hlen, hheader⟩ := save_header h
  unfold load
  split
  · rfl
  · rename_i hhead
    have hlong : ¬ (data.take k).length < 36 := fun hlt => hhead (.inl hlt)
    rw [List.length_take] at hlong
    have hsame : ((data.take k).drop 32).take 4 = (data.drop 32).take 4 := by
      rw [List.drop_take, List.take_take]
      congr 1
      omega
    have hmissing : 36 + (data.length - 36) > (data.take k).length := by
      rw [List.length_take]
      omega
    dsimp only
    rw [hsame, hheader, Nat.mod_eq_of_lt (by omega), if_pos hmissing]

end Wallet

/-- The wallet file, and the wallets written to it so far. -/
structure WalletFile (S P : Type) where
  bytes : Option Bytes
  written : List (Wallet S P)

section Stores

variable [DecidableEq P] (C : Suite S P) (U : CharTable) (A : Cipher) (passphrase : Bytes)

def walletFile : WalletStore (WalletFile S P) S P where
  loadOrCreateWallet file mint inv :=
    match file.bytes with
    | none => some .new
    | some data =>
        match Wallet.load C U A data passphrase mint.groupPublicKey mint.pedersen
            mint.credentialIssuer.pedersen inv.now with
        | none => none
        | some (.error _) => some .new
        | some (.ok w) => some w
  put file w inv :=
    match w.save C A passphrase inv.store with
    | .error e => (.error (.save e), file)
    | .ok data =>
        let written := w :: file.written
        match inv.write with
        | .done => (.ok data.length, ⟨some data, written⟩)
        | .refused => (.error .write, ⟨file.bytes, written⟩)
        | .torn k => (.error .write, ⟨some (data.take k), written⟩)

/-- A wallet without bytes, or none that loads: what is put is there, unless it was torn, and what
    is taken down is what its tokens decode to and the keys accept. -/
def walletShelf : WalletStore (Option (Wallet S P)) S P where
  loadOrCreateWallet shelf mint inv :=
    match shelf with
    | none => some .new
    | some w =>
        match Wallet.loadPayload C U (w.payload C) mint.groupPublicKey mint.pedersen
            mint.credentialIssuer.pedersen inv.now with
        | none => none
        | some (.error _) => some .new
        | some (.ok w) => some w
  put shelf w inv :=
    match A.encrypt (w.payload C) passphrase inv.store with
    | .error e => (.error (.save (.tokenError e.display)), shelf)
    | .ok _ =>
        match inv.write with
        | .done => (.ok (w.savedLength C), some w)
        | .refused => (.error .write, shelf)
        | .torn k => (.error .write, if k < w.savedLength C then none else some w)

variable {C U A passphrase}

/-- What the shelf says of the file. -/
def OnShelf (C : Suite S P) (U : CharTable) (A : Cipher) (passphrase : Bytes)
    (file : WalletFile S P) : Option (Wallet S P) → Prop
  | none => file.bytes = none ∨ ∃ data, file.bytes = some data ∧
      ∀ gpk pp cpp now, Wallet.load C U A data passphrase gpk pp cpp now =
        some (.error .invalidFormat)
  | some w => w ∈ file.written ∧ ∃ rnd data, file.bytes = some data ∧
      w.save C A passphrase rnd = .ok data ∧ w.savedLength C < 2 ^ 32

/-- Every wallet that was written has a length of four bytes. -/
def Fits (C : Suite S P) (file : WalletFile S P) : Prop :=
  ∀ w ∈ file.written, w.savedLength C < 2 ^ 32

/-- **The file behaves like the shelf.** -/
theorem file_alike_shelf : Alike (walletFile C U A passphrase) (walletShelf C U A passphrase)
    (Fits C) (OnShelf C U A passphrase) where
  load := by
    intro file shelf mint inv h
    cases shelf with
    | none =>
        rcases h with h | ⟨data, h, hload⟩
        · simp only [walletFile, walletShelf, h]
        · simp only [walletFile, walletShelf, h, hload]
    | some w =>
        obtain ⟨_, rnd, data, h, hsave, hsize⟩ := h
        obtain ⟨hlen, _⟩ := Wallet.save_header hsave
        simp only [walletFile, walletShelf, h, Wallet.load_save hsave (hlen ▸ hsize)]
  put := by
    intro file shelf w inv h hfits
    have hsave : w.save C A passphrase inv.store =
        match A.encrypt (w.payload C) passphrase inv.store with
        | .error e => .error (.tokenError e.display)
        | .ok encrypted => .ok (Wallet.magic ++ encrypted.salt.toList ++ encrypted.nonce.toList ++
            leBytes 4 encrypted.ciphertext.length ++ encrypted.ciphertext) := rfl
    cases henc : A.encrypt (w.payload C) passphrase inv.store with
    | error e =>
        rw [henc] at hsave
        simp only [walletFile, walletShelf, hsave, henc]
        exact ⟨trivial, h⟩
    | ok encrypted =>
        rw [henc] at hsave
        obtain ⟨hlen, _⟩ := Wallet.save_header hsave
        have hsize : w.savedLength C < 2 ^ 32 := by
          refine hfits w ?_
          simp only [walletFile, hsave]
          split <;> exact List.mem_cons_self
        simp only [walletFile, walletShelf, hsave, henc]
        cases inv.write with
        | done => exact ⟨congrArg Except.ok hlen, List.mem_cons_self, _, _, rfl, hsave, hsize⟩
        | refused =>
            refine ⟨rfl, ?_⟩
            cases shelf with
            | none => exact h
            | some u => exact ⟨List.mem_cons_of_mem w h.1, h.2⟩
        | torn k =>
            refine ⟨rfl, ?_⟩
            dsimp only
            split
            · rename_i hk
              exact .inr ⟨_, rfl, fun gpk pp cpp now =>
                Wallet.load_torn hsave hsize (hlen ▸ hk)⟩
            · rename_i hk
              refine ⟨List.mem_cons_self, _, _, ?_, hsave, hsize⟩
              rw [List.take_of_length_le (by omega)]

end Stores

/-! ## 6. Runs of commands -/

section Runs

variable {F : Type} [DecidableEq P]

/-- One command after the other over one store; the reports so far are kept, the last one first. -/
def commands (W : WalletStore F S P) (C : Suite S P) (U : CharTable) (A : Cipher) :
    Machine (F × List Report) (Invocation S × Command S) where
  step s a :=
    let (report, file) := command W C U A s.1 a.1 a.2
    some (file, report :: s.2)

def emptyFile : WalletFile S P × List Report := (⟨none, []⟩, [])

variable {C : Suite S P} {U : CharTable} {A : Cipher} {passphrase : Bytes}
  {file : WalletFile S P} {reports : List Report} {cs : List (Invocation S × Command S)}

theorem commands_step {W : WalletStore F S P} (s : F × List Report)
    (a : Invocation S × Command S) :
    (commands W C U A).step s a = some ((command W C U A s.1 a.1 a.2).2,
      (command W C U A s.1 a.1 a.2).1 :: s.2) := rfl

/-- A command and then `balance`, which leaves the store as it is. -/
theorem run_then_balance {W : WalletStore F S P}
    {D : F × List Report → Invocation S × Command S → Prop} (s : F × List Report)
    (a : Invocation S × Command S) (inv : Invocation S) (hfirst : D s a)
    (hsecond : ∀ r, D ((command W C U A s.1 a.1 a.2).2, r :: s.2) (inv, .balance)) :
    ∃ reports, (commands W C U A).run s [a, (inv, .balance)] =
        some ((command W C U A s.1 a.1 a.2).2, reports) ∧
      (commands W C U A).AllSteps D s [a, (inv, .balance)] := by
  have hbalance : ∀ f : F, (command W C U A f inv .balance).2 = f := by
    intro f
    simp only [command, cmdBalance, withWallet]
    split
    · rfl
    · split <;> rfl
  refine ⟨(command W C U A (command W C U A s.1 a.1 a.2).2 inv .balance).1 ::
    (command W C U A s.1 a.1 a.2).1 :: s.2, ?_, ?_⟩
  · simp only [Machine.run, commands_step, hbalance]
  · simp only [Machine.AllSteps, commands_step]
    exact ⟨hfirst, hsecond _, trivial⟩

/-- Wallets once written stay on record. -/
theorem written_mono (f : WalletFile S P) (inv : Invocation S) (c : Command S) :
    ∀ w ∈ f.written, w ∈ (command (walletFile C U A passphrase) C U A f inv c).2.written := by
  refine command_keeps (I := fun g : WalletFile S P => ∀ w ∈ f.written, w ∈ g.written)
    (fun g u inv' hg w hw => ?_) (fun _ hw => hw) inv c
  simp only [walletFile]
  split
  · exact hg w hw
  · split <;> exact List.mem_cons_of_mem u (hg w hw)

theorem fits_back {s s' : WalletFile S P × List Report} {a : Invocation S × Command S}
    (hs : (commands (walletFile C U A passphrase) C U A).step s a = some s')
    (h : Fits C s'.1) : Fits C s.1 := by
  cases hs
  exact fun w hw => h w (written_mono s.1 a.1 a.2 w hw)

/-- What the two runs have in common. -/
def Tracks (C : Suite S P) (U : CharTable) (A : Cipher) (passphrase : Bytes)
    (s : WalletFile S P × List Report) (r : Option (Wallet S P) × List Report) : Prop :=
  OnShelf C U A passphrase s.1 r.1 ∧ s.2 = r.2

theorem tracks_step {s s' : WalletFile S P × List Report}
    {r : Option (Wallet S P) × List Report} {a : Invocation S × Command S}
    (h : Tracks C U A passphrase s r)
    (hs : (commands (walletFile C U A passphrase) C U A).step s a = some s')
    (hfits : Fits C s'.1) :
    ∃ r', (commands (walletShelf C U A passphrase) C U A).step r a = some r' ∧
      Tracks C U A passphrase s' r' := by
  obtain ⟨hshelf, he⟩ := h
  cases hs
  obtain ⟨hreport, hnext⟩ := command_simulates file_alike_shelf hshelf hfits
  exact ⟨_, rfl, hnext, congrArg₂ List.cons hreport he⟩

/-- **The file refines the shelf.** Whatever commands are run, whatever they draw and however
    their writes and connections end: as long as the wallets written are shorter than 2^32 bytes,
    every command ends as over the shelf, and the file is what is on the shelf. -/
theorem commands_refine
    (hr : (commands (walletFile C U A passphrase) C U A).run emptyFile cs = some (file, reports))
    (hfits : Fits C file) :
    ∃ shelf, (commands (walletShelf C U A passphrase) C U A).run (none, []) cs =
        some (shelf, reports) ∧
      OnShelf C U A passphrase file shelf := by
  have hall := ((commands (walletFile C U A passphrase) C U A).allSteps_of_last
    (P := fun s => Fits C s.1) (fun _ _ _ hs h => fits_back hs h) hr hfits).2
  have hstart : Tracks C U A passphrase emptyFile (none, []) := ⟨.inl rfl, rfl⟩
  obtain ⟨⟨shelf, reports'⟩, hrun, hshelf, he⟩ :=
    (commands (walletFile C U A passphrase) C U A).run_tracks
      (fun _ _ s' _ h hc hs => tracks_step h hs (hc s' hs)) hstart hall hr
  cases he
  exact ⟨shelf, hrun, hshelf⟩

/-- An invocation that draws its keys by `n`. -/
def sampleInvocation (n : Nat) (write : WriteResult) : Invocation SampleScalar where
  keys i := ⟨fun j => i + 3 * j + n, i + 7⟩
  issuerSecret := 5 + n
  store := ⟨leArr 16 1, leArr 12 2⟩
  now := 0
  write := write

/-- The wallet is set up, written again up to 20 bytes, and shown. -/
def sampleCommands : List (Invocation SampleScalar × Command SampleScalar) :=
  [(sampleInvocation 0 .done, .setup), (sampleInvocation 1 (.torn 20), .save),
    (sampleInvocation 2 .done, .balance)]

def sampleFile : WalletStore (WalletFile SampleScalar SamplePoint) SampleScalar SamplePoint :=
  walletFile sampleSuite Serde.asciiTable Wallet.sampleCipher Wallet.samplePassphrase

theorem commands_refine_torn :
    ∃ (file : WalletFile SampleScalar SamplePoint) (reports : List Report) (shelf : _),
      (commands sampleFile sampleSuite Serde.asciiTable Wallet.sampleCipher).run emptyFile
        sampleCommands = some (file, reports) ∧ file.bytes.map (·.length) = some 20 ∧
      (commands (walletShelf sampleSuite Serde.asciiTable Wallet.sampleCipher
        Wallet.samplePassphrase) sampleSuite Serde.asciiTable Wallet.sampleCipher).run (none, [])
          sampleCommands = some (shelf, reports) := by
  have hrun : ((commands sampleFile sampleSuite Serde.asciiTable Wallet.sampleCipher).run
      emptyFile sampleCommands).map (fun s => decide (s.1.bytes.map (·.length) = some 20) &&
          s.1.written.all fun w => decide (w.savedLength sampleSuite < 2 ^ 32)) = some true := by
    decide +kernel
  obtain ⟨⟨file, reports⟩, hr, hfacts⟩ := Option.map_eq_some_iff.mp hrun
  obtain ⟨hbytes, hfits⟩ := Bool.and_eq_true_iff.mp hfacts
  have hfits' : Fits sampleSuite file := fun w hw =>
    of_decide_eq_true (List.all_eq_true.mp hfits w hw)
  obtain ⟨shelf, hshelf, _⟩ := commands_refine hr hfits'
  exact ⟨file, reports, shelf, hr, of_decide_eq_true hbytes, hshelf⟩

/-! ## 7. Keys of its own for every invocation -/

/-- No token that was ever written comes back valid under the keys of this invocation, and no
    token it receives is. -/
structure Stranger (C : Suite S P) (U : CharTable) (A : Cipher)
    (s : WalletFile S P × List Report) (a : Invocation S × Command S) : Prop where
  stored : ∀ mint, defaultMint C a.1 = some mint → ∀ w ∈ s.1.written, ∀ t ∈ w.tokens, ∀ t',
    deserializeToken C U (serializeToken C t) = .ok t' →
      ¬ AllValid C t' mint.groupPublicKey mint.pedersen mint.credentialIssuer.pedersen a.1.now
  incoming : ∀ mint, defaultMint C a.1 = some mint → ∀ key stream encrypted buf t,
    a.2 = .receive (.agreed key stream) → readFrame stream = .frame encrypted →
      decryptWithKey A encrypted key = some buf → deserializeToken C U buf = .ok t →
        ¬ AllValid C t mint.groupPublicKey mint.pedersen mint.credentialIssuer.pedersen 0

/-- What a command reports that has seen an empty wallet. -/
def Forgetful (c : Command S) : Report → Prop
  | .minted _ balance => ∃ value rnd, c = .mint value rnd ∧ balance = value
  | .shown balance count needing => balance = 0 ∧ count = 0 ∧ needing = 0
  | .loaded balance count => balance = 0 ∧ count = 0
  | .saved _ count => count = 0
  | .noTransferable => False
  | .transferFailed _ => False
  | .transferred _ _ _ => False
  | .sent _ _ => False
  | .sentUnsaved _ _ => False
  | .received _ => False
  | _ => True

/-- An empty wallet, or one with nothing but a token that `cmd_mint` issues. -/
def JustMinted (C : Suite S P) (w : Wallet S P) : Prop :=
  w = .new ∨ ∃ inv mint value rnd token, defaultMint C inv = some mint ∧
    mint.issue C value [1, 2] (some defaultAttrs) rnd = .ok token ∧ w = ⟨[token]⟩

omit [DecidableEq P] in
theorem JustMinted.tokens_le {w : Wallet S P} (h : JustMinted C w) : w.tokens.length ≤ 1 := by
  rcases h with rfl | ⟨_, _, _, _, token, _, _, rfl⟩
  · exact Nat.zero_le 1
  · exact Nat.le_refl 1

omit [DecidableEq P] in
/-- **Such a wallet is short**, so its length takes four bytes. -/
theorem JustMinted.savedLength_lt {w : Wallet S P} (h : JustMinted C w) :
    w.savedLength C < 2 ^ 32 := by
  unfold Wallet.savedLength
  rw [Wallet.length_payload]
  rcases h with rfl | ⟨inv, mint, value, rnd, token, hmint, hissue, rfl⟩
  · exact (by decide : 36 + (4 + 0 + 16) < 2 ^ 32)
  · have hsize := (weighs_of_issued hissue).serializedSize
    have hbound : mint.recursionBound = 20 := Mint.setupWithDkg_recursionBound hmint
    have hweight : attributesWeight (some defaultAttrs) = 562 := by decide +kernel
    have hfresh : token.foldProof.stepsChain = [] ∧ token.vdfProof = none ∧
        token.bondOwnerId = none := by
      obtain ⟨_, signature, _, rfl⟩ := Mint.issueFull_inv hissue
      exact ⟨rfl, rfl, rfl⟩
    obtain ⟨hchain, hvdf, hbond⟩ := hfresh
    have hpool : UInt32.toNat 20 = 20 := rfl
    rw [hweight, hbound, hchain, hvdf, hbond, Option.isSome_some, if_pos rfl, hpool] at hsize
    simp only [optionSize, List.length_nil] at hsize
    rw [List.map_cons, List.map_nil, List.sum_cons, List.sum_nil, hsize]
    omega

omit [Field S] [AddCommGroup P] [Module S P] [DecidableEq P] in
/-- The balance of a wallet with one token. -/
theorem balance_singleton (token : ProofCarryingToken S P) :
    (⟨[token]⟩ : Wallet S P).balance = token.value := by
  have hlt := token.value.toNat_lt
  refine UInt64.toNat_inj.mp ?_
  rw [Wallet.balance_eq]
  simp only [totalValue, List.map_cons, List.map_nil, List.sum_cons, List.sum_nil]
  omega

/-- A wallet whose first token does not come back valid does not load. -/
theorem loadPayload_stranger {w : Wallet S P} {gpk : P} {pp cpp : PedersenParams P} {now : UInt64}
    (hsize : w.savedLength C < 2 ^ 32)
    (h : ∀ t ∈ w.tokens, ∀ t', deserializeToken C U (serializeToken C t) = .ok t' →
      ¬ AllValid C t' gpk pp cpp now) :
    Wallet.loadPayload C U (w.payload C) gpk pp cpp now = none ∨
      (∃ e, Wallet.loadPayload C U (w.payload C) gpk pp cpp now = some (.error e)) ∨
      Wallet.loadPayload C U (w.payload C) gpk pp cpp now = some (.ok .new) := by
  obtain ⟨tokens⟩ := w
  have hbytes : 4 + (tokens.flatMap (Wallet.frame C)).length < 2 ^ 32 := by
    unfold Wallet.savedLength Wallet.payload at hsize
    rw [List.length_append, length_leBytes] at hsize
    dsimp only at hsize
    omega
  have hframe : ∀ t, 4 + (serializeToken C t).length = (Wallet.frame C t).length := by
    intro t
    unfold Wallet.frame
    rw [List.length_append, length_leBytes]
  have hcount : tokens.length ≤ (tokens.flatMap (Wallet.frame C)).length := by
    have hone : ∀ n ∈ tokens.map fun t => (Wallet.frame C t).length, 1 ≤ n := by
      intro n hn
      obtain ⟨t, _, rfl⟩ := List.mem_map.mp hn
      have := hframe t
      omega
    have hle := List.length_le_sum_of_one_le _ hone
    rwa [List.length_map, ← List.length_flatMap] at hle
  obtain ⟨hshort, hnum, hrest⟩ := Wallet.number_ahead (show tokens.length < 2 ^ 32 by omega)
    (tokens.flatMap (Wallet.frame C))
  unfold Wallet.loadPayload Wallet.payload
  rw [if_neg hshort]
  dsimp only
  rw [hnum, hrest]
  split
  · exact .inr (.inl ⟨_, rfl⟩)
  · cases tokens with
    | nil => exact .inr (.inr rfl)
    | cons t ts =>
        have hlen : (serializeToken C t).length < 2 ^ 32 := by
          have hle : (Wallet.frame C t).length ≤ ((t :: ts).flatMap (Wallet.frame C)).length := by
            rw [List.flatMap_cons, List.length_append]
            omega
          have := hframe t
          omega
        rw [List.length_cons, List.flatMap_cons, Wallet.loadTokens_frame hlen]
        cases hdec : deserializeToken C U (serializeToken C t) with
        | error e => exact .inr (.inl ⟨_, rfl⟩)
        | ok t' =>
            dsimp only
            cases hvr : verifyToken C t' gpk pp cpp now with
            | none => exact .inl rfl
            | some vr =>
                dsimp only
                have hall : vr.allValid = false := by
                  by_contra hv
                  exact h t List.mem_cons_self t' hdec ⟨vr, hvr, Bool.not_eq_false _ ▸ hv⟩
                rw [if_pos hall]
                exact .inr (.inl ⟨_, rfl⟩)

/-- A report of an empty wallet, and no wallet put into the store but a just minted one. -/
def Forgets (C : Suite S P) (W : WalletStore F S P) (f : F) (inv : Invocation S) (c : Command S)
    (x : Report × F) : Prop :=
  Forgetful c x.1 ∧ (x.2 = f ∨ ∃ w : Wallet S P, JustMinted C w ∧ x.2 = (W.put f w inv).2)

variable {W : WalletStore F S P} {f : F} {inv : Invocation S} {c : Command S}

omit [DecidableEq P] in
theorem forgets_put {w : Wallet S P} {done : Nat → Report} (hw : JustMinted C w)
    (hdone : ∀ n, Forgetful c (done n)) :
    Forgets C W f inv c (afterPut (W.put f w inv) done .storeFailed) := by
  refine ⟨?_, .inr ⟨w, hw, afterPut_store _ _ _⟩⟩
  rcases W.put f w inv with ⟨_ | n, _⟩
  · trivial
  · exact hdone n

omit [DecidableEq P] in
theorem forgets_withWallet {next : Mint S P → Wallet S P → Report × F}
    (hload : ∀ mint, defaultMint C inv = some mint → W.loadOrCreateWallet f mint inv = none ∨
      W.loadOrCreateWallet f mint inv = some .new)
    (hnext : ∀ mint, Forgets C W f inv c (next mint .new)) :
    Forgets C W f inv c (withWallet W C f inv next) := by
  unfold withWallet
  cases hmint : defaultMint C inv with
  | none => exact ⟨trivial, .inl rfl⟩
  | some mint =>
      dsimp only
      rcases hload mint hmint with h | h
      · rw [h]
        exact ⟨trivial, .inl rfl⟩
      · rw [h]
        exact hnext mint

/-- **A command that sees an empty wallet**, and receives nothing valid, writes no wallet but a
    just minted one. -/
theorem forgets_step
    (hload : ∀ mint, defaultMint C inv = some mint → W.loadOrCreateWallet f mint inv = none ∨
      W.loadOrCreateWallet f mint inv = some .new)
    (hin : ∀ mint, defaultMint C inv = some mint → ∀ key stream encrypted buf t,
      c = .receive (.agreed key stream) → readFrame stream = .frame encrypted →
        decryptWithKey A encrypted key = some buf → deserializeToken C U buf = .ok t →
          ¬ AllValid C t mint.groupPublicKey mint.pedersen mint.credentialIssuer.pedersen 0) :
    Forgets C W f inv c (command W C U A f inv c) := by
  cases c with
  | setup =>
      simp only [command, cmdSetup]
      cases hmint : defaultMint C inv with
      | none => exact ⟨trivial, .inl rfl⟩
      | some mint => exact forgets_put (.inl rfl) fun _ => trivial
  | mint value rnd =>
      simp only [command, cmdMint]
      cases hmint : defaultMint C inv with
      | none => exact ⟨trivial, .inl rfl⟩
      | some mint =>
          dsimp only
          cases hissue : mint.issue C value [1, 2] (some defaultAttrs) rnd with
          | error e => exact ⟨trivial, .inl rfl⟩
          | ok token =>
              dsimp only
              rcases hload mint hmint with h | h
              · rw [h]
                exact ⟨trivial, .inl rfl⟩
              · rw [h]
                have hadd : (Wallet.new.addToken token).2 = ⟨[token]⟩ := rfl
                have hvalue : token.value = value := by
                  obtain ⟨_, signature, _, rfl⟩ := Mint.issueFull_inv hissue
                  rfl
                dsimp only
                rw [hadd]
                exact forgets_put (.inr ⟨inv, mint, value, rnd, token, hmint, hissue, rfl⟩)
                  fun _ => ⟨value, rnd, rfl, (balance_singleton token).trans hvalue⟩
  | balance =>
      simp only [command, cmdBalance]
      exact forgets_withWallet hload fun mint => ⟨⟨rfl, rfl, rfl⟩, .inl rfl⟩
  | transfer rnd =>
      simp only [command, cmdTransfer]
      exact forgets_withWallet hload fun mint => ⟨trivial, .inl rfl⟩
  | save =>
      simp only [command, cmdSave]
      exact forgets_withWallet hload fun mint => forgets_put (.inl rfl) fun _ => rfl
  | load =>
      simp only [command, cmdLoad]
      exact forgets_withWallet hload fun mint => ⟨⟨rfl, rfl⟩, .inl rfl⟩
  | send net =>
      simp only [command, cmdSend]
      exact forgets_withWallet hload fun mint => ⟨trivial, .inl rfl⟩
  | receive net =>
      cases net with
      | bindFailed => exact ⟨trivial, .inl rfl⟩
      | acceptFailed => exact ⟨trivial, .inl rfl⟩
      | handshakeFailed => exact ⟨trivial, .inl rfl⟩
      | agreed key stream =>
          simp only [command, cmdReceive]
          cases hread : readFrame stream with
          | connectionError => exact ⟨trivial, .inl rfl⟩
          | invalidSize len => exact ⟨trivial, .inl rfl⟩
          | frame encrypted =>
              dsimp only
              cases hdec : decryptWithKey A encrypted key with
              | none => exact ⟨trivial, .inl rfl⟩
              | some buf =>
                  dsimp only
                  cases htoken : deserializeToken C U buf with
                  | error e => exact ⟨trivial, .inl rfl⟩
                  | ok token =>
                      dsimp only [withVerdict]
                      cases hmint : defaultMint C inv with
                      | none => exact ⟨trivial, .inl rfl⟩
                      | some mint =>
                          dsimp only
                          cases hvr : verifyToken C token mint.groupPublicKey mint.pedersen
                              mint.credentialIssuer.pedersen 0 with
                          | none => exact ⟨trivial, .inl rfl⟩
                          | some vr =>
                              dsimp only
                              have hall : ¬ vr.allValid = true := fun hv =>
                                hin mint hmint key stream encrypted buf token rfl hread hdec htoken
                                  ⟨vr, hvr, hv⟩
                              rw [if_neg hall]
                              exact ⟨trivial, .inl rfl⟩

/-- What holds of the file after every such run. -/
structure Forgotten (C : Suite S P) (U : CharTable) (A : Cipher) (passphrase : Bytes)
    (file : WalletFile S P) : Prop where
  shelf : ∃ shelf, OnShelf C U A passphrase file shelf
  written : ∀ w ∈ file.written, JustMinted C w

theorem forgotten_step {s : WalletFile S P × List Report} {a : Invocation S × Command S}
    (h : Forgotten C U A passphrase s.1) (hstranger : Stranger C U A s a) :
    Forgotten C U A passphrase (command (walletFile C U A passphrase) C U A s.1 a.1 a.2).2 ∧
      Forgetful a.2 (command (walletFile C U A passphrase) C U A s.1 a.1 a.2).1 := by
  obtain ⟨shelf, hshelf⟩ := h.shelf
  have hload : ∀ mint, defaultMint C a.1 = some mint →
      (walletFile C U A passphrase).loadOrCreateWallet s.1 mint a.1 = none ∨
      (walletFile C U A passphrase).loadOrCreateWallet s.1 mint a.1 = some .new := by
    intro mint hmint
    rw [file_alike_shelf.load s.1 shelf mint a.1 hshelf]
    cases shelf with
    | none => exact .inr rfl
    | some w =>
        simp only [walletShelf]
        rcases loadPayload_stranger hshelf.2.choose_spec.choose_spec.2.2
          (fun t ht t' ht' => hstranger.stored mint hmint w hshelf.1 t ht t' ht') with
          hl | ⟨e, hl⟩ | hl
        · rw [hl]
          exact .inl rfl
        · rw [hl]
          exact .inr rfl
        · rw [hl]
          exact .inr rfl
  obtain ⟨hreport, hfile⟩ := forgets_step (U := U) (A := A) (c := a.2) hload hstranger.incoming
  have hwritten : ∀ w ∈ (command (walletFile C U A passphrase) C U A s.1 a.1 a.2).2.written,
      JustMinted C w := by
    intro w hw
    rcases hfile with hsame | ⟨u, hu, hput⟩
    · rw [hsame] at hw
      exact h.written w hw
    · rw [hput] at hw
      simp only [walletFile] at hw
      split at hw
      · exact h.written w hw
      · split at hw <;> rcases List.mem_cons.mp hw with rfl | hw <;>
          first | exact hu | exact h.written w hw
  -- the wallets are short, so the command ends as over the shelf
  obtain ⟨_, hnext⟩ := command_simulates (c := a.2) file_alike_shelf hshelf
    (fun w hw => (hwritten w hw).savedLength_lt)
  exact ⟨⟨⟨_, hnext⟩, hwritten⟩, hreport⟩

/-- Every report of such a run is one of an empty wallet; the last one stands first. -/
theorem forgotten_run : ∀ {cs : List (Invocation S × Command S)}
    {s s' : WalletFile S P × List Report}, Forgotten C U A passphrase s.1 →
      (commands (walletFile C U A passphrase) C U A).run s cs = some s' →
      (commands (walletFile C U A passphrase) C U A).AllSteps (Stranger C U A) s cs →
      Forgotten C U A passphrase s'.1 ∧
        ∃ new, s'.2 = new ++ s.2 ∧ List.Forall₂ (fun a r => Forgetful a.2 r) cs new.reverse
  | [], s, s', h, hr, _ => by
      cases hr
      exact ⟨h, [], rfl, .nil⟩
  | a :: cs, s, s', h, hr, hall => by
      obtain ⟨s₁, hs, hr⟩ := (commands (walletFile C U A passphrase) C U A).run_cons hr
      obtain ⟨hstranger, hall⟩ :=
        ((commands (walletFile C U A passphrase) C U A).allSteps_cons_iff hs).mp hall
      obtain ⟨hfile, hreport⟩ := forgotten_step h hstranger
      rw [commands_step] at hs
      obtain rfl := Option.some.inj hs
      obtain ⟨hlast, new, hnew, hrest⟩ := forgotten_run hfile hr hall
      refine ⟨hlast, new ++ [(command (walletFile C U A passphrase) C U A s.1 a.1 a.2).1], ?_, ?_⟩
      · rw [hnew, List.append_assoc]
        rfl
      · rw [List.reverse_append]
        exact .cons hreport hrest

/-- **With keys of its own an invocation finds no tokens.** Where in a run no token written before
    comes back valid under the keys that a later invocation draws, and none that is received is,
    every wallet ever written has at most one token, no command transfers, sends or receives one,
    `balance` and `load` show nothing, and `mint` shows the value just minted. -/
theorem strangers_forget
    (hr : (commands (walletFile C U A passphrase) C U A).run emptyFile cs = some (file, reports))
    (hstrangers : (commands (walletFile C U A passphrase) C U A).AllSteps (Stranger C U A)
      emptyFile cs) :
    (∀ w ∈ file.written, w.tokens.length ≤ 1) ∧
      List.Forall₂ (fun a r => Forgetful a.2 r) cs reports.reverse := by
  have hstart : Forgotten C U A passphrase (emptyFile : WalletFile S P × List Report).1 :=
    ⟨⟨none, .inl rfl⟩, fun w hw => (nomatch hw)⟩
  obtain ⟨hend, new, hnew, hreports⟩ := forgotten_run hstart hr hstrangers
  have hnew : reports = new := hnew.trans (List.append_nil new)
  exact ⟨fun w hw => (hend.written w hw).tokens_le, hnew ▸ hreports⟩

/-- A token is minted under one set of keys, and the wallet shown under another. -/
def sampleStrangers : List (Invocation SampleScalar × Command SampleScalar) :=
  [(sampleInvocation 0 .done, .mint 10 (sampleIssueRandom 0)),
    (sampleInvocation 1 .done, .balance)]

/-- The token of that run, and how the keys of the second invocation judge it. -/
theorem sampleStrangers_token :
    ∃ (mint mint' : Mint SampleScalar SamplePoint)
      (token : ProofCarryingToken SampleScalar SamplePoint),
      defaultMint sampleSuite (sampleInvocation 0 .done) = some mint ∧
      defaultMint sampleSuite (sampleInvocation 1 .done) = some mint' ∧
      mint.issue sampleSuite 10 [1, 2] (some defaultAttrs) (sampleIssueRandom 0) = .ok token ∧
      Loadable Serde.asciiTable token ∧
      ¬ AllValid sampleSuite token mint'.groupPublicKey mint'.pedersen
        mint'.credentialIssuer.pedersen (sampleInvocation 1 .done).now := by
  have hrun : (defaultMint (P := SamplePoint) sampleSuite (sampleInvocation 0 .done)).bind
      (fun mint => (defaultMint sampleSuite (sampleInvocation 1 .done)).bind fun mint' =>
        (mint.issue sampleSuite 10 [1, 2] (some defaultAttrs)
          (sampleIssueRandom 0)).toOption.map fun token =>
          decide (token.foldProof.stepsChain.length = 0 ∧ token.credentialPool.length = 20 ∧
            token.vdfProof = none) &&
          (token.credential.all fun c => decide (Serde.SafeJurisdiction Serde.asciiTable c) &&
            decide ((utf8Bytes c.attributes.jurisdiction).length ≤ 255)) &&
          ((verifyToken sampleSuite token mint'.groupPublicKey mint'.pedersen
            mint'.credentialIssuer.pedersen (sampleInvocation 1 .done).now).map (·.allValid) ==
              some false)) = some true := by
    decide +kernel
  obtain ⟨mint, hmint, hrun⟩ := Option.bind_eq_some_iff.mp hrun
  obtain ⟨mint', hmint', hrun⟩ := Option.bind_eq_some_iff.mp hrun
  obtain ⟨token, hissue, hfacts⟩ := Option.map_eq_some_iff.mp hrun
  obtain ⟨hfacts, hver⟩ := Bool.and_eq_true_iff.mp hfacts
  obtain ⟨hfacts, hcred⟩ := Bool.and_eq_true_iff.mp hfacts
  obtain ⟨hchain, hpool, hvdf⟩ := of_decide_eq_true hfacts
  obtain ⟨vr, hvr, hall⟩ := Option.map_eq_some_iff.mp (eq_of_beq hver)
  refine ⟨mint, mint', token, hmint, hmint', ok_of_toOption hissue, ⟨by rw [hchain]; decide,
    by rw [hpool]; decide, fun c hc => ?_, fun v hv => ?_⟩, ?_⟩
  · rw [hc] at hcred
    simpa [Serde.CredentialFits] using hcred
  · rw [hvdf] at hv
    cases hv
  · intro h
    obtain ⟨vr', hvr', hall'⟩ := h
    cases hvr.symm.trans hvr'
    exact Bool.false_ne_true (hall.symm.trans hall')

/-- A token minted into an empty file, which comes back but not valid under the keys of the next
    invocation, is such a run. -/
theorem minted_then_shown {mint mint' : Mint S P} {token : ProofCarryingToken S P}
    {inv inv' : Invocation S} {value : UInt64} {rnd : IssueRandom S} {data : Bytes}
    (hcs : cs = [(inv, .mint value rnd), (inv', .balance)]) (hmint : defaultMint C inv = some mint)
    (hmint' : defaultMint C inv' = some mint')
    (hissue : mint.issue C value [1, 2] (some defaultAttrs) rnd = .ok token)
    (hsave : (⟨[token]⟩ : Wallet S P).save C A passphrase inv.store = .ok data)
    (hwrite : inv.write = .done)
    (hback : deserializeToken C U (serializeToken C token) = .ok token)
    (h : ¬ AllValid C token mint'.groupPublicKey mint'.pedersen mint'.credentialIssuer.pedersen
      inv'.now) :
    ∃ file reports, (commands (walletFile C U A passphrase) C U A).run emptyFile cs =
        some (file, reports) ∧ file.written = [⟨[token]⟩] ∧
      (commands (walletFile C U A passphrase) C U A).AllSteps (Stranger C U A) emptyFile cs := by
  subst hcs
  have hfirst : (command (walletFile C U A passphrase) C U A emptyFile.1 inv
      (.mint value rnd)).2 = ⟨some data, [⟨[token]⟩]⟩ := by
    have hput : ((walletFile C U A passphrase).put emptyFile.1 ⟨[token]⟩ inv).2 =
        ⟨some data, [⟨[token]⟩]⟩ := by
      simp only [walletFile, hsave, hwrite]
      rfl
    simp only [command, cmdMint, hmint, hissue]
    show (afterPut ((walletFile C U A passphrase).put emptyFile.1 ⟨[token]⟩ inv) _ _).2 = _
    rw [afterPut_store, hput]
  have hsecond : ∀ rs, Stranger C U A (⟨some data, [⟨[token]⟩]⟩, rs) (inv', .balance) := by
    intro rs
    refine ⟨fun m hm w hw t ht t' hdec => ?_, fun _ _ _ _ _ _ _ h => (nomatch h)⟩
    cases hm.symm.trans hmint'
    rw [List.mem_singleton.mp hw] at ht
    rw [List.mem_singleton.mp ht, hback] at hdec
    cases hdec
    exact h
  obtain ⟨reports, hr, hstrangers⟩ := run_then_balance (W := walletFile C U A passphrase)
    (D := Stranger C U A) emptyFile (inv, .mint value rnd) inv'
    ⟨fun _ _ _ hw => (nomatch hw), fun _ _ _ _ _ _ _ h => (nomatch h)⟩ fun r => by
      rw [hfirst]
      exact hsecond _
  rw [hfirst] at hr
  exact ⟨_, reports, hr, rfl, hstrangers⟩

/-- Saving with the sample cipher succeeds. -/
theorem sample_save (w : Wallet SampleScalar SamplePoint) (rnd : StoreRandom) :
    ∃ data, w.save sampleSuite Wallet.sampleCipher Wallet.samplePassphrase rnd = .ok data := by
  unfold Wallet.save Cipher.encrypt
  rw [if_neg (by decide)]
  exact ⟨_, rfl⟩

/-- The minted token is in the file, and the next invocation shows an empty wallet. -/
theorem strangers_forget_minted :
    ∃ (file : WalletFile SampleScalar SamplePoint) (reports : List Report)
      (token : ProofCarryingToken SampleScalar SamplePoint),
      (commands sampleFile sampleSuite Serde.asciiTable Wallet.sampleCipher).run emptyFile
        sampleStrangers = some (file, reports) ∧ file.written = [⟨[token]⟩] ∧
      List.Forall₂ (fun a r => Forgetful a.2 r) sampleStrangers reports.reverse := by
  obtain ⟨mint, mint', token, hmint, hmint', hissue, hloadable, hstranger⟩ :=
    sampleStrangers_token
  have hback : deserializeToken sampleSuite Serde.asciiTable (serializeToken sampleSuite token) =
      .ok token :=
    ((comes_back_iff (Mint.setupWithDkg_sound hmint) (.issued hissue)).mpr hloadable).1
  obtain ⟨data, hsave⟩ := sample_save ⟨[token]⟩ (sampleInvocation 0 .done).store
  have hmet := minted_then_shown (show sampleStrangers = _ from rfl) hmint hmint' hissue hsave rfl
    hback hstranger
  generalize sampleStrangers = cs at hmet ⊢
  obtain ⟨file, reports, hr, hwritten, hstrangers⟩ := hmet
  exact ⟨file, reports, token, hr, hwritten, (strangers_forget hr hstrangers).2⟩

end Runs

/-! ## 8. What is sent is not received -/

section Sending

variable {F : Type} [DecidableEq P] {C : Suite S P} {U : CharTable} {A : Cipher}

/-- What the loop of `load` returns is valid. -/
theorem Wallet.loadTokens_valid {gpk : P} {pp cpp : PedersenParams P} {now : UInt64} :
    ∀ {n : Nat} {rest : Bytes} {tokens : List (ProofCarryingToken S P)},
      Wallet.loadTokens C U gpk pp cpp now n rest = some (.ok tokens) →
        ∀ t ∈ tokens, AllValid C t gpk pp cpp now
  | 0, rest, tokens, h, t, ht => by
      cases h
      cases ht
  | n + 1, rest, tokens, h, t, ht => by
      unfold Wallet.loadTokens at h
      split at h
      · cases h
      · dsimp only at h
        split at h
        · cases h
        · split at h
          · cases h
          · rename_i token hdec
            split at h
            · cases h
            · rename_i vr hvr
              split at h
              · cases h
              · rename_i hall
                split at h
                · rename_i tokens' hrest
                  cases h
                  rcases List.mem_cons.mp ht with rfl | ht
                  · exact ⟨vr, hvr, Bool.not_eq_false _ ▸ hall⟩
                  · exact Wallet.loadTokens_valid hrest t ht
                · rename_i hno
                  exact absurd h (hno _)

/-- **A wallet that loads has valid tokens only.** -/
theorem Wallet.load_valid {data passphrase : Bytes} {gpk : P} {pp cpp : PedersenParams P}
    {now : UInt64} {w : Wallet S P}
    (h : Wallet.load C U A data passphrase gpk pp cpp now = some (.ok w)) :
    ∀ t ∈ w.tokens, AllValid C t gpk pp cpp now := by
  unfold Wallet.load at h
  split at h
  · cases h
  · dsimp only at h
    split at h
    · cases h
    · split at h
      · cases h
      · unfold Wallet.loadPayload at h
        split at h
        · cases h
        · dsimp only at h
          split at h
          · cases h
          · split at h
            · cases h
            · cases h
            · rename_i tokens htokens
              cases h
              exact Wallet.loadTokens_valid htokens

/-- The receiver reads the frame the sender wrote. -/
theorem readFrame_wire {encrypted : Bytes} (hlen : encrypted.length < 2 ^ 32) (rest : Bytes) :
    readFrame (leBytes 4 encrypted.length ++ encrypted ++ rest) = .invalidSize encrypted.length ∨
      readFrame (leBytes 4 encrypted.length ++ encrypted ++ rest) = .frame encrypted := by
  obtain ⟨hshort, hnum, hrest⟩ := Wallet.number_ahead hlen (encrypted ++ rest)
  rw [List.append_assoc]
  unfold readFrame
  rw [if_neg hshort]
  dsimp only
  rw [hnum, hrest]
  split
  · exact .inl rfl
  · rw [if_neg (by rw [List.length_append]; omega), List.take_left]
    exact .inr rfl

/-- The receiver decrypts what the sender encrypted. -/
theorem decrypt_encrypt {plaintext encrypted : Bytes} {key : Bytes32} {nonce : ByteArr 12}
    (h : encryptWithKey A plaintext key nonce = some encrypted) :
    decryptWithKey A encrypted key = some plaintext := by
  obtain ⟨c, hc, rfl⟩ := Option.map_eq_some_iff.mp h
  have hlen : nonce.toList.length = 12 := nonce.toList_length
  unfold decryptWithKey
  rw [if_neg (by rw [List.length_append]; omega), List.drop_left' hlen]
  rw [takeArr_append]
  exact A.aeadDecrypt_aeadEncrypt _ _ _ _ hc

/-- What a command that has sent a token did. -/
structure Sends (W : WalletStore F S P) (C : Suite S P) (A : Cipher) (f f' : F)
    (inv : Invocation S) (key : Bytes32) (id : Bytes32) (wire : Bytes)
    (t : ProofCarryingToken S P) : Prop where
  loaded : ∃ mint w w', defaultMint C inv = some mint ∧
    W.loadOrCreateWallet f mint inv = some w ∧ w.takeToken 1 = (some t, w') ∧
    f' = (W.put f w' inv).2
  tokenId : t.tokenId = id
  wire : ∃ nonce encrypted, encryptWithKey A (serializeTokenPublic C t) key nonce =
    some encrypted ∧ wire = leBytes 4 encrypted.length ++ encrypted

theorem sends_of_report {W : WalletStore F S P} {f f' : F} {inv : Invocation S} {net : Outgoing}
    {id : Bytes32} {wire : Bytes}
    (h : command W C U A f inv (.send net) = (.sent id wire, f')) :
    ∃ key nonce t, net = .agreed key nonce true ∧ Sends W C A f f' inv key id wire t := by
  simp only [command, cmdSend, withWallet] at h
  split at h
  · cases h
  rename_i mint hmint
  split at h
  · cases h
  rename_i w hload
  split at h
  · cases h
  split at h
  · cases h
  rename_i t w' htake
  split at h
  · cases h
  · cases h
  rename_i key nonce taken
  split at h
  · cases h
  rename_i encrypted henc
  split at h
  · cases h
  rename_i htaken
  have hstore := congrArg (·.2) h
  rw [afterPut_store] at hstore
  rcases hput : W.put f w' inv with ⟨_ | n, g⟩
  · rw [hput] at h
    cases h
  · rw [hput] at h
    cases h
    exact ⟨key, nonce, t, by rw [eq_true_of_ne_false htaken], ⟨mint, w, w', hmint, hload, htake,
      hstore.symm⟩, rfl, nonce, encrypted, henc, rfl⟩

/-- **The receiver of the public bytes of a token refuses it**, under whatever keys and into
    whatever store, unless the key of the all-zero secret is the tip of its chain. -/
theorem receive_refuses {G : Type} (V : WalletStore G S P) (g : G) (inv : Invocation S)
    {t : ProofCarryingToken S P} (hzero : C.asBytes 0 = zero32)
    (hsteps : t.foldProof.steps.toNat = t.foldProof.stepsChain.length)
    (htip : Accumulator.deriveOwnerSigningPk C zero32 ≠ t.foldProof.currentOwnerPk)
    {encrypted rest : Bytes} {key : Bytes32} {nonce : ByteArr 12}
    (henc : encryptWithKey A (serializeTokenPublic C t) key nonce = some encrypted)
    (hlen : encrypted.length < 2 ^ 32) :
    ∃ r, command V C U A g inv (.receive (.agreed key
        (leBytes 4 encrypted.length ++ encrypted ++ rest))) = (r, g) ∧ ∀ id, r ≠ .received id := by
  simp only [command, cmdReceive]
  rcases readFrame_wire hlen rest with hread | hread
  · rw [hread]
    exact ⟨_, rfl, by simp⟩
  rw [hread]
  dsimp only
  rw [decrypt_encrypt henc]
  dsimp only
  cases hdec : deserializeToken C U (serializeTokenPublic C t) with
  | error e => exact ⟨_, rfl, by simp⟩
  | ok t' =>
      dsimp only [withVerdict]
      cases hmint : defaultMint C inv with
      | none => exact ⟨_, rfl, by simp⟩
      | some mint =>
          dsimp only
          cases hvr : verifyToken C t' mint.groupPublicKey mint.pedersen
              mint.credentialIssuer.pedersen 0 with
          | none => exact ⟨_, rfl, by simp⟩
          | some vr =>
              dsimp only
              have hinvalid : ¬ vr.allValid = true := by
                intro hall
                have hver := allValid_iff.mp (show AllValid C t' _ _ _ _ from ⟨vr, hvr, hall⟩)
                rw [serializeTokenPublic_publicPart hzero hsteps, serializeToken_eq] at hdec
                have hsame := deserializeToken_fixed (show (publicPart t).foldProof.steps.toNat =
                  (publicPart t).foldProof.stepsChain.length from hsteps) hdec
                have hsecret : t'.ownerSecret = zero32 := congrArg (·.ownerSecret) hsame
                have hfold : t'.foldProof = t.foldProof := congrArg (·.foldProof) hsame
                have hown := (foldVerdict_iff.mp hver.fold).1
                rw [hsecret, hfold] at hown
                exact htip hown
              rw [if_neg hinvalid]
              exact ⟨_, rfl, by simp⟩

/-- **A token that is sent is lost.** When `send` reports a token as sent, the token was in the
    wallet and the wallet was written without it; whoever runs `receive` with the session key on
    these bytes, in whatever state, refuses it and writes nothing, unless the key of the all-zero
    secret is the tip of the token's chain. -/
theorem sent_token_refused (hzero : C.asBytes 0 = zero32) {passphrase : Bytes}
    {f f' : WalletFile S P} {inv : Invocation S} {net : Outgoing} {id : Bytes32} {wire : Bytes}
    (hsent : command (walletFile C U A passphrase) C U A f inv (.send net) = (.sent id wire, f'))
    (hwire : wire.length < 2 ^ 32) :
    ∃ key nonce t, net = .agreed key nonce true ∧
      Sends (walletFile C U A passphrase) C A f f' inv key id wire t ∧
      (Accumulator.deriveOwnerSigningPk C zero32 ≠ t.foldProof.currentOwnerPk →
        ∀ {G : Type} (V : WalletStore G S P) (g : G) (inv' : Invocation S) (rest : Bytes),
          ∃ r, command V C U A g inv' (.receive (.agreed key (wire ++ rest))) = (r, g) ∧
            ∀ id', r ≠ .received id') := by
  obtain ⟨key, nonce, t, hnet, hsends⟩ := sends_of_report hsent
  refine ⟨key, nonce, t, hnet, hsends, fun htip G V g inv' rest => ?_⟩
  obtain ⟨mint, w, w', hmint, hload, htake, _⟩ := hsends.loaded
  obtain ⟨nonce', encrypted, henc, rfl⟩ := hsends.wire
  have ht : t ∈ w.tokens := by
    obtain ⟨pre, post, hw, _⟩ := Wallet.takeToken_inv htake
    rw [hw]
    simp
  have hsteps : t.foldProof.steps.toNat = t.foldProof.stepsChain.length := by
    have hvalid : AllValid C t mint.groupPublicKey mint.pedersen mint.credentialIssuer.pedersen
        inv.now := by
      simp only [walletFile] at hload
      split at hload
      · cases hload
        cases ht
      · split at hload
        · cases hload
        · cases hload
          cases ht
        · rename_i hok
          cases hload
          exact Wallet.load_valid hok t ht
    exact (foldVerdict_iff.mp (allValid_iff.mp hvalid).fold).2.1
  have hlen : encrypted.length < 2 ^ 32 := by
    rw [List.length_append] at hwire
    omega
  exact receive_refuses V g inv' hzero hsteps htip henc hlen

/-- A file with one token without a credential, minted under the keys of `sampleInvocation 0`. -/
def sampleSent : Option (WalletFile SampleScalar SamplePoint) :=
  (defaultMint sampleSuite (sampleInvocation 0 .done)).bind fun mint =>
    (mint.issue sampleSuite 10 [1, 2] none (sampleIssueRandom 0)).toOption.bind fun t =>
      (Wallet.save sampleSuite Wallet.sampleCipher ⟨[t]⟩ Wallet.samplePassphrase
        ⟨leArr 16 1, leArr 12 2⟩).toOption.map fun data => ⟨some data, []⟩

def sampleOutgoing : Command SampleScalar := .send (.agreed (leArr 32 5) (leArr 12 6) true)

/-- The token is sent, and refused by every invocation that receives it. -/
theorem sent_token_refused_once :
    ∃ (f f' : WalletFile SampleScalar SamplePoint) (id : Bytes32) (wire : Bytes),
      command sampleFile sampleSuite Serde.asciiTable Wallet.sampleCipher f
        (sampleInvocation 0 .done) sampleOutgoing = (.sent id wire, f') ∧
      ∀ inv', ∃ r, command sampleFile sampleSuite Serde.asciiTable Wallet.sampleCipher f' inv'
          (.receive (.agreed (leArr 32 5) wire)) = (r, f') ∧ ∀ id', r ≠ .received id' := by
  have hrun : (sampleSent.map fun f =>
      ((command sampleFile sampleSuite Serde.asciiTable Wallet.sampleCipher f
        (sampleInvocation 0 .done) sampleOutgoing).1.wire.any
          fun wire => decide (wire.length < 2 ^ 32)) &&
      ((defaultMint sampleSuite (sampleInvocation 0 .done)).bind fun mint =>
        (sampleFile.loadOrCreateWallet f mint (sampleInvocation 0 .done)).bind fun w =>
          (w.takeToken 1).1.map fun t => decide (Accumulator.deriveOwnerSigningPk sampleSuite
            zero32 ≠ t.foldProof.currentOwnerPk)) == some true) = some true := by
    decide +kernel
  have hzero : sampleSuite.asBytes 0 = zero32 := by decide +kernel
  obtain ⟨f, _, hfacts⟩ := Option.map_eq_some_iff.mp hrun
  obtain ⟨hreport, htips⟩ := Bool.and_eq_true_iff.mp hfacts
  cases hsent : command sampleFile sampleSuite Serde.asciiTable Wallet.sampleCipher f
      (sampleInvocation 0 .done) sampleOutgoing with
  | mk report f' =>
      rw [hsent] at hreport
      cases report with
      | sent id wire =>
          obtain ⟨key, nonce, t, hnet, hsends, hrefused⟩ :=
            sent_token_refused hzero hsent (of_decide_eq_true hreport)
          cases hnet
          obtain ⟨mint, w, w', hmint, hload, htake, _⟩ := hsends.loaded
          have htip : Accumulator.deriveOwnerSigningPk sampleSuite zero32 ≠
              t.foldProof.currentOwnerPk := by
            have htips := eq_of_beq htips
            rw [hmint, Option.bind_some] at htips
            have hload : sampleFile.loadOrCreateWallet f mint (sampleInvocation 0 .done) =
              some w := hload
            rw [hload, Option.bind_some, htake] at htips
            exact of_decide_eq_true (Option.some.inj htips)
          refine ⟨f, f', id, wire, hsent, fun inv' => ?_⟩
          have hr := hrefused htip sampleFile f' inv' []
          rwa [List.append_nil] at hr
      | _ => cases hreport

end Sending

end Specter
