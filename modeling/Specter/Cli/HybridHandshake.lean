/-
  File:      Specter/Cli/HybridHandshake.lean
  Subject:   `hybrid_authenticated_handshake` (specter-cli/src/main.rs, feature `pq-handshake`):
             the signed exchange with an ML-KEM-768 key and ciphertext among its messages, byte by
             byte on the wire.

  The call shares its hello, the decoding of the peer's hello and the order of the transcript with
  `authenticated_handshake`; the rest is its own. ML-KEM is a parameter with the one fact the code
  relies on, that a parsed key is the key that was written out. A read or write that fails or
  times out ends a call without a result; the lines it prints are left out.

  * `hybrid_keys_agree` -- an initiator and a responder that admit each other end with one session
    key, however their bytes travel, as long as nothing fails; and else with that key or none;
  * `hybrid_key_binds` -- what two calls with one session key have in common, whoever they talked
    to;
  * `mixed_versions_share_no_key` -- a hybrid call gets no key from a peer built without the
    feature.
-/
import Specter.Cli.Handshake
import Specter.Lib.Duplex

namespace Specter

open Lib

/-! ## 1. The call -/

/-- What the code takes from the `ml-kem` crate; what it draws is an argument. -/
structure MlKem768 where
  /-- `DecapsulationKey`. -/
  Dk : Type
  /-- `EncapsulationKey`. -/
  Ek : Type
  generate : Bytes64 → Dk × Ek
  asBytes : Ek → ByteArr 1184
  fromBytes : ByteArr 1184 → Ek
  encapsulate : Ek → Bytes32 → Option (ByteArr 1088 × Bytes32)
  decapsulate : Dk → ByteArr 1088 → Option Bytes32
  fromBytes_asBytes : ∀ ek, fromBytes (asBytes ek) = ek

/-- The draws decrypt: what is encapsulated to the generated key with these coins, its owner
    decapsulates. -/
def MlKem768.Decapsulates (kem : MlKem768) (seed : Bytes64) (coins : Bytes32) : Prop :=
  ∃ ct ss, kem.encapsulate (kem.generate seed).2 coins = some (ct, ss) ∧
    kem.decapsulate (kem.generate seed).1 ct = some ss

variable {S P : Type} [Field S] [AddCommGroup P] [Module S P]

/-- A call with what it draws for its ML-KEM leg: the seed of `MlKem768::generate`, the coins of
    `encapsulate`. -/
structure HybridHandshake (C : Suite S P) (kem : MlKem768) extends Handshake C where
  seed : Bytes64
  coins : Bytes32

/-- What both hellos and the ML-KEM leg determine. -/
structure HybridAgreed (P : Type) extends Agreed P where
  kyberShared : Bytes32

namespace HybridAgreed

def hybridTranscript (a : HybridAgreed P) : Bytes :=
  ascii "specter-hybrid-sigma-transcript:" ++ a.parties.1.toList ++ a.parties.2.1.toList ++
    a.parties.2.2.1.toList ++ a.parties.2.2.2.toList ++ a.shared.toList ++ a.kyberShared.toList

/-- `transcript_msg`. -/
def transcriptMsg (C : Suite S P) (a : HybridAgreed P) : Bytes32 :=
  takeArr 32 (C.sha512 a.hybridTranscript).toList

def keyInput (C : Suite S P) (a : HybridAgreed P) : Bytes :=
  ascii "specter-hybrid-sigma-key:" ++ a.shared.toList ++ a.kyberShared.toList ++
    (a.transcriptMsg C).toList

/-- `session_key`. -/
def hybridKey (C : Suite S P) (a : HybridAgreed P) : Bytes32 :=
  takeArr 32 (C.sha512 (a.keyInput C)).toList

end HybridAgreed

/-- `sig_challenge` of the hybrid call. -/
def hybridSigChallenge (C : Suite S P) (r pk : P) (msg : Bytes32) : S :=
  C.hashToScalar (ascii "specter-hybrid-sigma-sig:" ++ (C.compress r).toList ++
    (C.compress pk).toList ++ msg.toList)

/-- The check of the peer's signature. -/
def hybridVerifySig [DecidableEq P] (C : Suite S P) (theirIdPk : P) (msg : Bytes32)
    (theirs : Bytes32 × Bytes32) : Bool :=
  match C.decompress theirs.1 with
  | none => false
  | some theirRPoint =>
      match C.fromCanonicalBytes theirs.2 with
      | none => false
      | some theirSScalar =>
          let expectedE := hybridSigChallenge C theirRPoint theirIdPk msg
          decide (theirSScalar • C.G = theirRPoint + expectedE • theirIdPk)

namespace HybridHandshake

variable {C : Suite S P} {kem : MlKem768} (H : HybridHandshake C kem)

/-- My Schnorr signature over the hybrid transcript. -/
def hybridSign (msg : Bytes32) : Bytes32 × Bytes32 :=
  let rPoint := H.k • C.G
  let e := hybridSigChallenge C rPoint H.myIdentity.publicKey msg
  let s := H.k + e * H.myIdentity.secret
  (C.compress rPoint, C.asBytes s)

variable [DecidableEq P]

/-- The check of the peer's signature, and the session key. -/
def conclude (a : HybridAgreed P) (theirR theirS : Bytes32) : Stream Bytes32 :=
  .done (if hybridVerifySig C a.peer (a.transcriptMsg C) (theirR, theirS) then
    some (a.hybridKey C) else none)

/-- The exchange of signatures, the initiator's first. -/
def exchangeSignatures (a : HybridAgreed P) : Stream Bytes32 :=
  let sig := H.hybridSign (a.transcriptMsg C)
  if H.isInitiator then
    .writeArr sig.1 <| .writeArr sig.2 <|
      .readArr fun theirR => .readArr fun theirS => conclude (C := C) a theirR theirS
  else
    .readArr fun theirR => .readArr fun theirS =>
      .writeArr sig.1 <| .writeArr sig.2 <| conclude (C := C) a theirR theirS

/-- The initiator's ML-KEM leg, once all of the responder's hello has come in. -/
def decapsulateLeg (theirs : Bytes32 × Bytes32) (theirCt : ByteArr 1088) : Stream Bytes32 :=
  match H.agreed theirs with
  | none => .done none
  | some a =>
      match kem.decapsulate (kem.generate H.seed).1 theirCt with
      | none => .done none
      | some kyberShared => H.exchangeSignatures { a with kyberShared }

/-- The responder's ML-KEM leg: its ciphertext follows its hello. -/
def encapsulateLeg (theirs : Bytes32 × Bytes32) (theirEk : ByteArr 1184) : Stream Bytes32 :=
  match H.agreed theirs with
  | none => .done none
  | some a =>
      match kem.encapsulate (kem.fromBytes theirEk) H.coins with
      | none => .done none
      | some (ct, kyberShared) => .writeArr ct (H.exchangeSignatures { a with kyberShared })

/-- **`hybrid_authenticated_handshake`**: the initiator's hello carries its encapsulation key, the
    responder's a ciphertext, written after the peer's hello has been looked at. -/
def hybridAuthenticatedHandshake : Stream Bytes32 :=
  if H.isInitiator then
    .writeArr H.hello.1 <| .writeArr H.hello.2 <|
      .writeArr (kem.asBytes (kem.generate H.seed).2) <|
        .readArr fun theirId => .readArr fun theirEphem => .readArr fun theirCt =>
          H.decapsulateLeg (theirId, theirEphem) theirCt
  else
    .readArr fun theirId => .readArr fun theirEphem => .readArr fun theirEk =>
      .writeArr H.hello.1 <| .writeArr H.hello.2 <|
        H.encapsulateLeg (theirId, theirEphem) theirEk

/-! ## 2. Two hybrid calls -/

theorem hybridVerifySig_sign (m : Bytes32) :
    hybridVerifySig C H.myIdentity.publicKey m (H.hybridSign m) = true := by
  unfold hybridVerifySig hybridSign
  dsimp only
  rw [C.decompress_compress, C.fromCanonicalBytes_asBytes]
  refine decide_eq_true ?_
  rw [add_smul, mul_smul, ← H.myIdentity.publicKey_eq]

/-- Signatures of one transcript bring both sides to its key. -/
theorem passes_keys {K : HybridHandshake C kem} {a b : HybridAgreed P}
    (hinit : H.isInitiator = true) (hresp : K.isInitiator = false)
    (ha : a.peer = K.myIdentity.publicKey) (hb : b.peer = H.myIdentity.publicKey)
    (hmsg : b.transcriptMsg C = a.transcriptMsg C) :
    Passes (H.exchangeSignatures a) (K.exchangeSignatures b) (.done (some (a.hybridKey C)))
      (.done (some (b.hybridKey C))) := by
  unfold exchangeSignatures
  simp only [hinit, hresp, if_true, Bool.false_eq_true, if_false]
  refine .trans (.pass_right _) (.trans (.pass_right _) (.trans (.pass_left _)
    (.trans (.pass_left _) ?_)))
  unfold conclude
  rw [Prod.mk.eta, Prod.mk.eta, ha, hb, hmsg, hybridVerifySig_sign, ← hmsg, hybridVerifySig_sign]
  exact .refl _ _

/-- One order of turns in which both sides return a key. -/
theorem passes_one_key {K : HybridHandshake C kem} (hinit : H.isInitiator = true)
    (hresp : K.isInitiator = false) (hHK : H.Admits K.toHandshake) (hKH : K.Admits H.toHandshake)
    (hne : H.myIdentity.publicKey ≠ K.myIdentity.publicKey)
    (hkem : kem.Decapsulates H.seed K.coins) :
    ∃ key, Passes H.hybridAuthenticatedHandshake K.hybridAuthenticatedHandshake
      (.done (some key)) (.done (some key)) := by
  obtain ⟨ct, ss, henc, hdec⟩ := hkem
  have hids : H.hello.1 ≠ K.hello.1 := fun h => hne (C.compress_inj.mp h)
  -- both sides hold the same parties and the same two secrets
  let parties := ordered H.hello K.hello
  let shared := C.compress (H.ephemSk • K.ephemSk • C.G)
  have hH : H.agreed K.hello = some ⟨K.myIdentity.publicKey, parties, shared⟩ :=
    Handshake.agreed_hello hHK
  have hK : K.agreed H.hello = some ⟨H.myIdentity.publicKey, parties, shared⟩ := by
    have h := Handshake.agreed_hello hKH
    rwa [← ordered_mirror hids, smul_comm] at h
  let a : HybridAgreed P := ⟨⟨K.myIdentity.publicKey, parties, shared⟩, ss⟩
  let b : HybridAgreed P := ⟨⟨H.myIdentity.publicKey, parties, shared⟩, ss⟩
  have hleft : H.decapsulateLeg K.hello ct = H.exchangeSignatures a := by
    unfold decapsulateLeg
    rw [hH]
    dsimp only
    rw [hdec]
  have hright : K.encapsulateLeg H.hello (kem.asBytes (kem.generate H.seed).2) =
      .writeArr ct (K.exchangeSignatures b) := by
    unfold encapsulateLeg
    rw [hK, kem.fromBytes_asBytes]
    dsimp only
    rw [henc]
  refine ⟨a.hybridKey C, ?_⟩
  unfold hybridAuthenticatedHandshake
  simp only [hinit, hresp, if_true, Bool.false_eq_true, if_false]
  refine .trans (.pass_right _) (.trans (.pass_right _) (.trans (.pass_right _)
    (.trans (.pass_left _) (.trans (.pass_left _) ?_))))
  rw [Prod.mk.eta, hright]
  refine .trans (.pass_left ct) ?_
  rw [hleft]
  exact H.passes_keys hinit hresp rfl rfl rfl

/-- **A hybrid initiator and a hybrid responder end with one session key**, when their identities
    differ, each admits the other and the ML-KEM draws decrypt: as long as no read or write fails,
    whatever order these come in and in whatever pieces the bytes travel, the run so far can be
    continued, only to both returning the key with nothing left on the wire, and no run is longer;
    and whatever fails, a side that returns has this key or none. -/
theorem hybrid_keys_agree {K : HybridHandshake C kem} (hinit : H.isInitiator = true)
    (hresp : K.isInitiator = false) (hHK : H.Admits K.toHandshake) (hKH : K.Admits H.toHandshake)
    (hne : H.myIdentity.publicKey ≠ K.myIdentity.publicKey)
    (hkem : kem.Decapsulates H.seed K.coins) :
    let start := Pair.start H.hybridAuthenticatedHandshake K.hybridAuthenticatedHandshake
    ∃ key readLeft readRight,
      (∃ n, ∀ (as : List Side) d, (duplex Bytes32).run start (as.map .acts) = some d →
        ∃ bs : List Side, (duplex Bytes32).run d (bs.map .acts) =
            some ⟨.done (some key), .done (some key), [], [], readLeft, readRight⟩ ∧
          as.length + bs.length = n) ∧
      ∀ ts d, (duplex Bytes32).run start ts = some d →
        (∀ r, d.left = .done r → r = some key ∨ r = none) ∧
        ∀ r, d.right = .done r → r = some key ∨ r = none := by
  obtain ⟨key, hkey⟩ := H.passes_one_key hinit hresp hHK hKH hne hkem
  obtain ⟨readLeft, readRight, hkey⟩ := hkey [] []
  exact ⟨key, readLeft, readRight, all_orders_end hkey rfl rfl⟩

end HybridHandshake

section Sample

/-- An exclusive or with the key's first bytes, in place of ML-KEM. -/
def maskWith (key : ByteArr 1184) (m : Bytes32) : Bytes32 :=
  List.Vector.ofFn fun i => key.toList.getD i 0 ^^^ m.get i

/-- A key encapsulation that evaluates. -/
def sampleKem : MlKem768 where
  Dk := ByteArr 1184
  Ek := ByteArr 1184
  generate seed := (takeArr 1184 seed.toList, takeArr 1184 seed.toList)
  asBytes ek := ek
  fromBytes ek := ek
  encapsulate ek coins := some (takeArr 1088 (maskWith ek coins).toList, coins)
  decapsulate dk ct := some (maskWith dk (takeArr 32 ct.toList))
  fromBytes_asBytes _ := rfl

/-- An initiator that expects the other sample. -/
def sampleInitiator : HybridHandshake sampleSuite sampleKem :=
  ⟨⟨⟨3, (3 : SampleScalar) • sampleSuite.G, rfl⟩, some ((11 : SampleScalar) • sampleSuite.G),
    true, 5, 7⟩, List.Vector.replicate 64 9, zero32⟩

def sampleResponder : HybridHandshake sampleSuite sampleKem :=
  ⟨⟨⟨11, (11 : SampleScalar) • sampleSuite.G, rfl⟩, none, false, 13, 17⟩,
    List.Vector.replicate 64 0, List.Vector.replicate 32 21⟩

theorem sampleResponder_admits :
    sampleResponder.Admits sampleInitiator.toHandshake := fun _ h => nomatch h

theorem sampleInitiator_admits :
    sampleInitiator.Admits sampleResponder.toHandshake := fun _ h => (Option.some.inj h).symm

theorem sample_identities_differ :
    sampleInitiator.myIdentity.publicKey ≠ sampleResponder.myIdentity.publicKey := by
  decide +kernel

theorem sample_decapsulates :
    sampleKem.Decapsulates sampleInitiator.seed sampleResponder.coins :=
  ⟨_, _, rfl, by decide +kernel⟩

/-- A run of the two samples to its end, and what the responder may end with in any run. -/
theorem hybrid_keys_agree_sample : ∃ key,
    let start := Pair.start sampleInitiator.hybridAuthenticatedHandshake
      sampleResponder.hybridAuthenticatedHandshake
    (∃ (as : List Side) (d : Pair Bytes32), (duplex Bytes32).run start (as.map .acts) = some d ∧
      d.left = .done (some key) ∧ d.right = .done (some key)) ∧
    ∀ ts d, (duplex Bytes32).run start ts = some d →
      ∀ r, d.right = .done r → r = some key ∨ r = none := by
  obtain ⟨key, readLeft, readRight, ⟨n, hsmooth⟩, hends⟩ :=
    sampleInitiator.hybrid_keys_agree rfl rfl sampleInitiator_admits sampleResponder_admits
      sample_identities_differ sample_decapsulates
  obtain ⟨as, has, _⟩ := hsmooth [] _ rfl
  exact ⟨key, ⟨as, _, has, rfl, rfl⟩, fun ts d hrun => (hends ts d hrun).2⟩

end Sample

namespace HybridHandshake

variable {C : Suite S P} {kem : MlKem768} (H : HybridHandshake C kem) [DecidableEq P]

/-! ## 3. What a key stands for -/

omit [AddCommGroup P] [DecidableEq P] in
/-- A hybrid transcript spells out its parties and both secrets. -/
theorem hybridTranscript_inj {a b : HybridAgreed P} (h : a.hybridTranscript = b.hybridTranscript) :
    a.parties = b.parties ∧ a.shared = b.shared ∧ a.kyberShared = b.kyberShared := by
  unfold HybridAgreed.hybridTranscript at h
  simp only [List.append_assoc] at h
  obtain ⟨_, h⟩ := append_inj_fixed rfl h
  obtain ⟨h1, h⟩ := append_inj_arr h
  obtain ⟨h2, h⟩ := append_inj_arr h
  obtain ⟨h3, h⟩ := append_inj_arr h
  obtain ⟨h4, h⟩ := append_inj_arr h
  obtain ⟨h5, h⟩ := append_inj_arr h
  exact ⟨Prod.ext h1 (Prod.ext h2 (Prod.ext h3 h4)), h5, List.Vector.eq _ _ h⟩

omit [DecidableEq P] in
/-- What a key is hashed from spells out the hashed transcript. -/
theorem keyInput_inj {a b : HybridAgreed P} (h : a.keyInput C = b.keyInput C) :
    a.transcriptMsg C = b.transcriptMsg C := by
  unfold HybridAgreed.keyInput at h
  simp only [List.append_assoc] at h
  obtain ⟨_, h⟩ := append_inj_fixed rfl h
  obtain ⟨_, h⟩ := append_inj_arr h
  obtain ⟨_, h⟩ := append_inj_arr h
  exact List.Vector.eq _ _ h

omit [DecidableEq P] in
/-- What is agreed names the parties of the two hellos. -/
theorem parties_of_agreed {theirs : Bytes32 × Bytes32} {a : Agreed P}
    (h : H.agreed theirs = some a) : a.parties = ordered H.hello theirs := by
  unfold Handshake.agreed at h
  cases hid : C.decompress theirs.1 with
  | none => rw [hid] at h; cases h
  | some theirIdPk =>
      cases hephem : C.decompress theirs.2 with
      | none => rw [hid, hephem] at h; cases h
      | some theirEphemPk =>
          rw [hid, hephem] at h
          dsimp only at h
          cases hex : H.expectedPeerPk with
          | none =>
              rw [hex] at h
              cases h
              rfl
          | some expected =>
              rw [hex] at h
              obtain ⟨_, h⟩ := Option.ite_none_right_eq_some.mp h
              cases h
              rfl

/-- What a call reads: the peer's hello, its ML-KEM message and its signature. -/
structure Heard where
  hello : Bytes32 × Bytes32
  leg : Bytes
  sig : Bytes32 × Bytes32

def Heard.bytes (m : Heard) : Bytes :=
  m.hello.1.toList ++ (m.hello.2.toList ++ (m.leg ++ (m.sig.1.toList ++ m.sig.2.toList)))

/-- The initiator reads a ciphertext, the responder an encapsulation key. -/
def legLength : Nat := if H.isInitiator then 1088 else 1184

/-- The ML-KEM secret a call gets from the message it read. -/
def kyberShared (leg : Bytes) : Option Bytes32 :=
  if H.isInitiator then kem.decapsulate (kem.generate H.seed).1 (takeArr 1088 leg)
  else (kem.encapsulate (kem.fromBytes (takeArr 1184 leg)) H.coins).map (·.2)

/-- What stands behind a returned key: the hello that was read decodes and is admitted, the
    ML-KEM message that was read gives a secret, and the signature that was read passes the check
    over the transcript of both. -/
structure Accepted (m : Heard) (a : HybridAgreed P) (key : Bytes32) : Prop where
  leg_length : m.leg.length = H.legLength
  agreed : H.agreed m.hello = some a.toAgreed
  secret : H.kyberShared m.leg = some a.kyberShared
  signed : hybridVerifySig C a.peer (a.transcriptMsg C) m.sig = true
  key_eq : key = a.hybridKey C

theorem conclude_answers {a : HybridAgreed P} {theirR theirS key : Bytes32} {input : Bytes}
    (h : (conclude (C := C) a theirR theirS).Answers input key) :
    input = [] ∧ hybridVerifySig C a.peer (a.transcriptMsg C) (theirR, theirS) = true ∧
      key = a.hybridKey C := by
  obtain ⟨rfl, hres⟩ := h.of_done
  obtain ⟨hv, hkey⟩ := Option.ite_none_right_eq_some.mp hres
  exact ⟨rfl, hv, (Option.some.inj hkey).symm⟩

/-- The exchange of signatures reads one, which passes the check. -/
theorem signatures_answers {a : HybridAgreed P} {input : Bytes} {key : Bytes32}
    (h : (H.exchangeSignatures a).Answers input key) :
    ∃ sig : Bytes32 × Bytes32, input = sig.1.toList ++ sig.2.toList ∧
      hybridVerifySig C a.peer (a.transcriptMsg C) sig = true ∧ key = a.hybridKey C := by
  unfold exchangeSignatures at h
  dsimp only at h
  cases hinit : H.isInitiator with
  | true =>
      rw [hinit, if_pos rfl] at h
      obtain ⟨theirR, _, rfl, hr⟩ := h.of_writeArr.of_writeArr.of_readArr
      obtain ⟨theirS, _, rfl, hs⟩ := hr.of_readArr
      obtain ⟨rfl, hv, hkey⟩ := conclude_answers hs
      exact ⟨(theirR, theirS), by rw [List.append_nil], hv, hkey⟩
  | false =>
      rw [hinit, if_neg Bool.false_ne_true] at h
      obtain ⟨theirR, _, rfl, hr⟩ := h.of_readArr
      obtain ⟨theirS, _, rfl, hs⟩ := hr.of_readArr
      obtain ⟨rfl, hv, hkey⟩ := conclude_answers hs.of_writeArr.of_writeArr
      exact ⟨(theirR, theirS), by rw [List.append_nil], hv, hkey⟩

/-- **A key is returned only over what was read**: a hello, an ML-KEM message and the peer's
    signature over their transcript. -/
theorem accepted_of_answers {input : Bytes} {key : Bytes32}
    (h : H.hybridAuthenticatedHandshake.Answers input key) :
    ∃ m a, input = m.bytes ∧ H.Accepted m a key := by
  unfold hybridAuthenticatedHandshake at h
  cases hinit : H.isInitiator with
  | true =>
      rw [hinit, if_pos rfl] at h
      obtain ⟨theirId, _, rfl, hid⟩ := h.of_writeArr.of_writeArr.of_writeArr.of_readArr
      obtain ⟨theirEphem, _, rfl, hephem⟩ := hid.of_readArr
      obtain ⟨theirCt, _, rfl, hleg⟩ := hephem.of_readArr
      unfold decapsulateLeg at hleg
      cases hag : H.agreed (theirId, theirEphem) with
      | none =>
          rw [hag] at hleg
          cases hleg.of_done.2
      | some a =>
          rw [hag] at hleg
          dsimp only at hleg
          cases hdec : kem.decapsulate (kem.generate H.seed).1 theirCt with
          | none =>
              rw [hdec] at hleg
              cases hleg.of_done.2
          | some kyberShared =>
              rw [hdec] at hleg
              obtain ⟨sig, rfl, hv, hkey⟩ := H.signatures_answers hleg
              refine ⟨⟨(theirId, theirEphem), theirCt.toList, sig⟩, { a with kyberShared }, rfl,
                ?_, hag, ?_, hv, hkey⟩
              · rw [legLength, hinit, if_pos rfl, theirCt.toList_length]
              · rw [HybridHandshake.kyberShared, hinit, if_pos rfl, takeArr_toList, hdec]
  | false =>
      rw [hinit, if_neg Bool.false_ne_true] at h
      obtain ⟨theirId, _, rfl, hid⟩ := h.of_readArr
      obtain ⟨theirEphem, _, rfl, hephem⟩ := hid.of_readArr
      obtain ⟨theirEk, _, rfl, hek⟩ := hephem.of_readArr
      have hleg := hek.of_writeArr.of_writeArr
      unfold encapsulateLeg at hleg
      cases hag : H.agreed (theirId, theirEphem) with
      | none =>
          rw [hag] at hleg
          cases hleg.of_done.2
      | some a =>
          rw [hag] at hleg
          dsimp only at hleg
          cases henc : kem.encapsulate (kem.fromBytes theirEk) H.coins with
          | none =>
              rw [henc] at hleg
              cases hleg.of_done.2
          | some enc =>
              rw [henc] at hleg
              obtain ⟨ct, kyberShared⟩ := enc
              obtain ⟨sig, rfl, hv, hkey⟩ := H.signatures_answers hleg.of_writeArr
              refine ⟨⟨(theirId, theirEphem), theirEk.toList, sig⟩, { a with kyberShared }, rfl,
                ?_, hag, ?_, hv, hkey⟩
              · rw [legLength, hinit, if_neg Bool.false_ne_true, theirEk.toList_length]
              · rw [HybridHandshake.kyberShared, hinit, if_neg Bool.false_ne_true, takeArr_toList,
                  henc, Option.map_some]

/-- **Two calls that return one session key**, each to whatever program is at the other end of its
    stream, have each checked the signature they read over the transcript of the hello and the
    ML-KEM message they read, exchanged the same two hellos (this way round or the other) and hold
    the same Diffie-Hellman and the same ML-KEM secret, unless the truncated SHA-512 of their key
    inputs or of their transcripts collides. -/
theorem hybrid_key_binds {K : HybridHandshake C kem} {peer peer' : Stream Bytes32}
    {d e : Pair Bytes32} {ts ts' : List Turn} {key : Bytes32}
    (hrun : (duplex Bytes32).run (.start H.hybridAuthenticatedHandshake peer) ts = some d)
    (hrun' : (duplex Bytes32).run (.start K.hybridAuthenticatedHandshake peer') ts' = some e)
    (hkey : d.left = .done (some key)) (hkey' : e.left = .done (some key)) :
    ∃ m a m' b, d.readLeft = m.bytes ∧ H.Accepted m a key ∧ e.readLeft = m'.bytes ∧
      K.Accepted m' b key ∧
      ((a.shared = b.shared ∧ a.kyberShared = b.kyberShared ∧
          ((H.hello = K.hello ∧ m.hello = m'.hello) ∨
            (H.hello = m'.hello ∧ m.hello = K.hello))) ∨
        (a.keyInput C ≠ b.keyInput C ∧ a.hybridKey C = b.hybridKey C) ∨
        (a.hybridTranscript ≠ b.hybridTranscript ∧ a.transcriptMsg C = b.transcriptMsg C)) := by
  obtain ⟨input, hread, hin⟩ := answers_of_run hrun hkey
  obtain ⟨input', hread', hin'⟩ := answers_of_run hrun' hkey'
  obtain ⟨m, a, rfl, ha⟩ := H.accepted_of_answers hin
  obtain ⟨m', b, rfl, hb⟩ := K.accepted_of_answers hin'
  refine ⟨m, a, m', b, hread, ha, hread', hb, ?_⟩
  by_cases hk : a.keyInput C = b.keyInput C
  · have hmsg := keyInput_inj hk
    by_cases ht : a.hybridTranscript = b.hybridTranscript
    · obtain ⟨hparties, hshared, hkyber⟩ := hybridTranscript_inj ht
      rw [H.parties_of_agreed ha.agreed, K.parties_of_agreed hb.agreed] at hparties
      exact .inl ⟨hshared, hkyber, ordered_eq hparties⟩
    · exact .inr (.inr ⟨ht, hmsg⟩)
  · exact .inr (.inl ⟨hk, ha.key_eq.symm.trans hb.key_eq⟩)

/-- The initiator's call and the same call over again. -/
theorem hybrid_key_binds_sample : ∃ (d : Pair Bytes32) (m : Heard)
    (a : HybridAgreed SamplePoint) (key : Bytes32),
    d.left = .done (some key) ∧ d.readLeft = m.bytes ∧ sampleInitiator.Accepted m a key := by
  obtain ⟨key, hkey⟩ := sampleInitiator.passes_one_key rfl rfl sampleInitiator_admits
    sampleResponder_admits sample_identities_differ sample_decapsulates
  obtain ⟨readLeft, readRight, as, hrun⟩ := hkey [] []
  rw [← smooth_run] at hrun
  obtain ⟨m, a, _, _, hread, ha, _⟩ :=
    sampleInitiator.hybrid_key_binds (K := sampleInitiator) hrun hrun rfl rfl
  exact ⟨_, m, a, key, rfl, hread, ha⟩

/-! ## 4. A peer without the feature -/

/-- A hybrid call returns a key only over the messages of its peer. -/
theorem length_heard {m : Heard} {a : HybridAgreed P} {key : Bytes32} (h : H.Accepted m a key) :
    1216 ≤ m.bytes.length := by
  have hleg : 1088 ≤ m.leg.length := by
    rw [h.leg_length, legLength]
    split <;> decide
  simp only [Heard.bytes, List.length_append, List.Vector.toList_length]
  omega

omit [DecidableEq P] in
theorem exchange_writes {α : Type} {first : Bool} {mine : Bytes32 × Bytes32}
    {next : Bytes32 × Bytes32 → Session Bytes32 α} {n : Nat}
    (h : ∀ theirs, (next theirs).toStream.Writes n) :
    (Session.exchange first mine next).toStream.Writes (32 + (32 + n)) := by
  unfold Session.exchange
  cases first with
  | true =>
      rw [if_pos rfl]
      exact Stream.writes_writeArr _ (Stream.writes_writeArr _ fun _ _ => h _)
  | false =>
      rw [if_neg Bool.false_ne_true]
      exact fun _ _ => Stream.writes_writeArr _ (Stream.writes_writeArr _ (h _))

/-- A classical call writes its hello and its signature. -/
theorem classical_writes (K : Handshake C) : K.authenticatedHandshake.toStream.Writes 128 := by
  unfold Handshake.authenticatedHandshake
  refine exchange_writes (n := 64) fun theirs => ?_
  cases K.agreed theirs with
  | none => trivial
  | some a => exact exchange_writes (n := 0) fun theirSig => trivial

/-- **A hybrid call returns no key when the peer is built without the feature**: whatever the two
    roles, whatever the order in which bytes travel and whatever fails, the other side does not
    write as many bytes as the call reads. -/
theorem mixed_versions_share_no_key (K : Handshake C) {ts : List Turn} {d : Pair Bytes32}
    (hrun : (duplex Bytes32).run (.start H.hybridAuthenticatedHandshake
      K.authenticatedHandshake.toStream) ts = some d) (key : Bytes32) :
    d.left ≠ .done (some key) := by
  intro hkey
  obtain ⟨input, hread, hin⟩ := answers_of_run hrun hkey
  obtain ⟨m, a, rfl, ha⟩ := H.accepted_of_answers hin
  have hwritten := read_le (d := .start H.hybridAuthenticatedHandshake
    K.authenticatedHandshake.toStream) (classical_writes K) hrun
  have hlong := H.length_heard ha
  have hlen : d.readLeft.length = m.bytes.length := congrArg List.length hread
  simp only [Pair.start, List.length_nil] at hwritten
  omega

/-- The first byte of the hello is on its way, and then the call times out. -/
theorem mixed_versions_share_no_key_sample : ∃ d,
    (duplex Bytes32).run (.start sampleInitiator.hybridAuthenticatedHandshake
      sampleResponder.authenticatedHandshake.toStream) [.acts .left, .fails .left] = some d ∧
    d.left = .done none ∧ ∀ key, d.left ≠ .done (some key) := by
  have hstep : ∃ d, (duplex Bytes32).run (.start sampleInitiator.hybridAuthenticatedHandshake
      sampleResponder.authenticatedHandshake.toStream) [.acts .left, .fails .left] = some d ∧
      d.left = .done none := ⟨_, rfl, rfl⟩
  obtain ⟨d, hrun, hnone⟩ := hstep
  exact ⟨d, hrun, hnone, sampleInitiator.mixed_versions_share_no_key _ hrun⟩

end HybridHandshake

end Specter
