/-
  File:      Specter/Cli/Handshake.lean
  Subject:   ONE RUN OF `authenticated_handshake` (specter-cli/src/main.rs): hellos, the sorted
             transcript, the two signatures, the session key.

  The function is a session over the TCP stream, every message a 32-byte array; the two random
  scalars it draws are arguments. What the other side's hello determines -- the peer, the
  identities and ephemeral keys in the order of the transcript, the shared secret -- is
  `Agreed`. The lines it prints are left out.

  * `Stage`, `stage_of_run` -- how far a history can have got, once for all later proofs;
  * `ordered_eq` -- two sorted transcripts name the same parties only if one is the other or its
    mirror image;
  * `mirror_accepts` -- two calls fed with each other's messages accept with one session key,
    whatever their roles;
  * `reflected_initiator_accepts` -- an initiator fed with its own messages accepts them.
-/
import Specter.Core.Serde
import Specter.Lib.Session

namespace Specter

open Lib Lib.Session

variable {S P : Type} [Field S] [AddCommGroup P] [Module S P]

/-- A long-term Ristretto key pair. -/
structure NodeIdentity (C : Suite S P) where
  secret : S
  publicKey : P
  publicKey_eq : publicKey = secret • C.G

/-- What `authenticated_handshake` is called with, and the two scalars it draws: `ephem_sk` and
    the nonce `k` of its signature. -/
structure Handshake (C : Suite S P) where
  myIdentity : NodeIdentity C
  expectedPeerPk : Option P
  isInitiator : Bool
  ephemSk : S
  k : S

/-- What the other side's hello determines for a call: whom it talks to, `id_a`, `id_b`,
    `ephem_a`, `ephem_b`, and the compressed Diffie-Hellman secret. -/
structure Agreed (P : Type) where
  peer : P
  parties : Bytes32 × Bytes32 × Bytes32 × Bytes32
  shared : Bytes32

/-! ## 1. The messages -/

/-- Both hellos, in the order of the identities. -/
def ordered (mine theirs : Bytes32 × Bytes32) : Bytes32 × Bytes32 × Bytes32 × Bytes32 :=
  if mine.1.toList < theirs.1.toList then (mine.1, theirs.1, mine.2, theirs.2)
  else (theirs.1, mine.1, theirs.2, mine.2)

namespace Agreed

def transcript (a : Agreed P) : Bytes :=
  ascii "specter-sigma-transcript:" ++ a.parties.1.toList ++ a.parties.2.1.toList ++
    a.parties.2.2.1.toList ++ a.parties.2.2.2.toList ++ a.shared.toList

/-- `transcript_msg`. -/
def msg (C : Suite S P) (a : Agreed P) : Bytes32 := takeArr 32 (C.sha512 a.transcript).toList

/-- `session_key`. -/
def sessionKey (C : Suite S P) (a : Agreed P) : Bytes32 :=
  takeArr 32 (C.sha512 (ascii "specter-sigma-key:" ++ a.shared.toList ++
    (a.msg C).toList)).toList

end Agreed

def sigChallenge (C : Suite S P) (r pk : P) (msg : Bytes32) : S :=
  C.hashToScalar (ascii "specter-sigma-sig:" ++ (C.compress r).toList ++
    (C.compress pk).toList ++ msg.toList)

/-- The check of the peer's Schnorr signature `(their_r, their_s)`. -/
def verifySig [DecidableEq P] (C : Suite S P) (theirIdPk : P) (msg : Bytes32)
    (theirs : Bytes32 × Bytes32) : Bool :=
  match C.decompress theirs.1 with
  | none => false
  | some theirRPoint =>
      match C.fromCanonicalBytes theirs.2 with
      | none => false
      | some theirSScalar =>
          let expectedE := sigChallenge C theirRPoint theirIdPk msg
          decide (theirSScalar • C.G = theirRPoint + expectedE • theirIdPk)

namespace Handshake

variable {C : Suite S P} (H : Handshake C)

def ephemPk : Bytes32 := C.compress (H.ephemSk • C.G)

def hello : Bytes32 × Bytes32 := (C.compress H.myIdentity.publicKey, H.ephemPk)

/-- The other side's hello, decoded and, where a peer is expected, compared with it. -/
def agreed (theirs : Bytes32 × Bytes32) : Option (Agreed P) :=
  match C.decompress theirs.1 with
  | none => none
  | some theirIdPk =>
      match C.decompress theirs.2 with
      | none => none
      | some theirEphemPk =>
          let result : Agreed P :=
            ⟨theirIdPk, ordered H.hello theirs, C.compress (H.ephemSk • theirEphemPk)⟩
          match H.expectedPeerPk with
          | none => some result
          | some expected =>
              if C.compress theirIdPk = C.compress expected then some result else none

/-- My Schnorr signature over the transcript. -/
def sign (msg : Bytes32) : Bytes32 × Bytes32 :=
  let rPoint := H.k • C.G
  let e := sigChallenge C rPoint H.myIdentity.publicKey msg
  let s := H.k + e * H.myIdentity.secret
  (C.compress rPoint, C.asBytes s)

/-- **`authenticated_handshake`**: an exchange of hellos (`write_hello`, `read_hello`), then one
    of signatures (`write_sig`, `read_sig`), the initiator writing first in both. The responder
    checks the signature it read only after it has written its own. -/
def authenticatedHandshake [DecidableEq P] : Session Bytes32 Bytes32 :=
  exchange H.isInitiator H.hello fun theirs =>
    match H.agreed theirs with
    | none => done none
    | some a =>
        exchange H.isInitiator (H.sign (a.msg C)) fun theirSig =>
          done (if verifySig C a.peer (a.msg C) theirSig then some (a.sessionKey C) else none)

end Handshake

/-! ## 2. The order of the transcript -/

/-- **Sorted hellos name the same parties** only if they are the same two hellos, the same way
    round or the other. -/
theorem ordered_eq {mine theirs mine' theirs' : Bytes32 × Bytes32}
    (h : ordered mine theirs = ordered mine' theirs') :
    (mine = mine' ∧ theirs = theirs') ∨ (mine = theirs' ∧ theirs = mine') := by
  unfold ordered at h
  split at h <;> split at h <;> simp only [Prod.mk.injEq] at h <;> obtain ⟨h1, h2, h3, h4⟩ := h
  · exact .inl ⟨Prod.ext h1 h3, Prod.ext h2 h4⟩
  · exact .inr ⟨Prod.ext h1 h3, Prod.ext h2 h4⟩
  · exact .inr ⟨Prod.ext h2 h4, Prod.ext h1 h3⟩
  · exact .inl ⟨Prod.ext h2 h4, Prod.ext h1 h3⟩

/-- Two sides with different identities sort their hellos alike. -/
theorem ordered_mirror {mine theirs : Bytes32 × Bytes32} (hne : mine.1 ≠ theirs.1) :
    ordered mine theirs = ordered theirs mine := by
  unfold ordered
  by_cases h : mine.1.toList < theirs.1.toList
  · rw [if_pos h, if_neg (List.lt_asymm h)]
  · have h' : theirs.1.toList < mine.1.toList := by
      by_contra h'
      exact hne (List.Vector.toList_injective
        (List.le_antisymm (List.not_lt.mp h') (List.not_lt.mp h)))
    rw [if_neg h, if_pos h']

/-- A transcript spells out its parties and its secret. -/
theorem Agreed.transcript_inj {P : Type} {a a' : Agreed P} (h : a.transcript = a'.transcript) :
    a.parties = a'.parties ∧ a.shared = a'.shared := by
  unfold Agreed.transcript at h
  simp only [List.append_assoc] at h
  obtain ⟨_, h⟩ := append_inj_fixed rfl h
  obtain ⟨h1, h⟩ := append_inj_arr h
  obtain ⟨h2, h⟩ := append_inj_arr h
  obtain ⟨h3, h⟩ := append_inj_arr h
  obtain ⟨h4, h⟩ := append_inj_arr h
  exact ⟨Prod.ext h1 (Prod.ext h2 (Prod.ext h3 h4)), List.Vector.eq _ _ h⟩

/-! ## 3. How far a history can have got -/

namespace Handshake

variable {C : Suite S P}

/-- What the hello in a history determines. -/
def agreedIn (H : Handshake C) (h : List (Act Bytes32)) : Option (Agreed P) :=
  match received h with
  | id :: ephem :: _ => H.agreed (id, ephem)
  | _ => none

/-- The transcript whose signature has been handed over whole. -/
def signedIn (H : Handshake C) (h : List (Act Bytes32)) : Option Bytes32 :=
  if (sent h).length = 4 then (H.agreedIn h).map (·.msg C) else none

@[simp] theorem agreedIn_exchanged {H : Handshake C} {h : List (Act Bytes32)} (first : Bool)
    (mine theirs : Bytes32 × Bytes32) :
    H.agreedIn (exchanged first mine theirs ++ h) = H.agreed theirs := by
  simp [agreedIn]

variable [DecidableEq P]

/-- The history holds a signature of the peer that passes the check. -/
def verifiedIn (H : Handshake C) (h : List (Act Bytes32)) : Bool :=
  match H.agreedIn h, received h with
  | some a, _ :: _ :: r :: s :: _ => verifySig C a.peer (a.msg C) (r, s)
  | _, _ => false

/-- **The stages of a call**: in the first exchange; ended by the other side's hello; in the
    second exchange; through both. -/
inductive Stage (H : Handshake C) : List (Act Bytes32) → Session Bytes32 Bytes32 → Prop where
  | greeting {h s} (unfinished : Unfinished H.isInitiator H.hello h s) : Stage H h s
  | refused {theirs} (agreed : H.agreed theirs = none) :
      Stage H (exchanged H.isInitiator H.hello theirs) (done none)
  | signing {theirs a h s} (agreed : H.agreed theirs = some a)
      (unfinished : Unfinished H.isInitiator (H.sign (a.msg C)) h s) :
      Stage H (exchanged H.isInitiator H.hello theirs ++ h) s
  | finished {theirs a} (theirSig : Bytes32 × Bytes32) (agreed : H.agreed theirs = some a) :
      Stage H (exchanged H.isInitiator H.hello theirs ++
          exchanged H.isInitiator (H.sign (a.msg C)) theirSig)
        (done (if verifySig C a.peer (a.msg C) theirSig then some (a.sessionKey C) else none))

variable {H : Handshake C} {h : List (Act Bytes32)} {s : Session Bytes32 Bytes32}

theorem stage_of_run (hr : Session.run H.authenticatedHandshake h = some s) : Stage H h s := by
  rcases exchange_run hr with hun | ⟨theirs, h1, rfl, hr1⟩
  · exact .greeting hun
  cases hag : H.agreed theirs with
  | none =>
      rw [hag] at hr1
      obtain ⟨rfl, rfl⟩ := run_done hr1
      rw [List.append_nil]
      exact .refused hag
  | some a =>
      rw [hag] at hr1
      rcases exchange_run hr1 with hun | ⟨theirSig, h2, rfl, hr2⟩
      · exact .signing hag hun
      obtain ⟨rfl, rfl⟩ := run_done hr2
      rw [List.append_nil]
      exact .finished theirSig hag

namespace Stage

/-- A call returns a key only over a signature that passed the check. -/
theorem accepted (hs : Stage H h s) {key : Bytes32} (hkey : s.result = some key) :
    H.verifiedIn h = true ∧ (sent h).length = 4 ∧
      ∃ a, H.agreedIn h = some a ∧ key = a.sessionKey C := by
  cases hs with
  | greeting hun => rw [hun.result] at hkey; cases hkey
  | refused _ => cases hkey
  | signing _ hun => rw [hun.result] at hkey; cases hkey
  | @finished theirs a theirSig hag =>
      by_cases hv : verifySig C a.peer (a.msg C) theirSig = true
      · rw [if_pos hv] at hkey
        refine ⟨?_, by simp, a, by rw [agreedIn_exchanged, hag], (Option.some.inj hkey).symm⟩
        simp [verifiedIn, hag, hv]
      · rw [if_neg hv] at hkey
        cases hkey

theorem sent_le (hs : Stage H h s) : (sent h).length ≤ 4 := by
  cases hs with
  | greeting hun =>
      have hle := hun.sent_prefix.length_le
      simp only [List.length_cons, List.length_nil] at hle
      omega
  | refused _ => simp
  | signing _ hun =>
      have hle := hun.sent_prefix.length_le
      simp at hle ⊢
      omega
  | finished _ _ => simp

/-- The responder has read the hello before it sends anything. -/
theorem answers (hs : Stage H h s) (hresp : H.isInitiator = false) (hne : sent h ≠ []) :
    2 ≤ (received h).length := by
  cases hs with
  | greeting hun => exact (hun.answers hresp hne).ge
  | refused _ => simp
  | signing _ _ => simp
  | finished _ _ => simp

/-- The responder has read the signature before it sends its own. -/
theorem answers_signature (hs : Stage H h s) (hresp : H.isInitiator = false)
    (hlt : (received h).length < 4) : (sent h).length ≤ 2 := by
  cases hs with
  | greeting hun => exact hun.sent_prefix.length_le
  | refused _ => simp
  | @signing theirs a h' s' _ hun =>
      by_cases hne : sent h' = []
      · simp [hne]
      · have hgot := hun.answers hresp hne
        simp [hgot] at hlt
  | finished _ _ => simp at hlt

end Stage

omit [DecidableEq P] in
theorem agreedIn_append {a : Agreed P} (hag : H.agreedIn h = some a) (h' : List (Act Bytes32)) :
    H.agreedIn (h ++ h') = some a := by
  unfold agreedIn at hag ⊢
  rw [received_append]
  split at hag
  · rename_i id ephem rest hgot
    rw [hgot]
    exact hag
  · cases hag

omit [DecidableEq P] in
/-- What is agreed names the parties of the two hellos. -/
theorem parties_of_agreedIn {a : Agreed P} (hag : H.agreedIn h = some a) :
    ∃ theirs, (received h)[1]? = some theirs.2 ∧ a.parties = ordered H.hello theirs := by
  unfold agreedIn at hag
  split at hag
  · rename_i id ephem rest hgot
    refine ⟨(id, ephem), by rw [hgot]; rfl, ?_⟩
    unfold agreed at hag
    split at hag
    · cases hag
    · split at hag
      · cases hag
      · dsimp only at hag
        split at hag
        · cases hag; rfl
        · obtain ⟨_, hag⟩ := Option.ite_none_right_eq_some.mp hag
          cases hag; rfl
  · cases hag

theorem signedIn_concat {m : Bytes32} {x : Act Bytes32} (hs : H.Stage (h ++ [x]) s)
    (hm : H.signedIn h = some m) : H.signedIn (h ++ [x]) = some m := by
  obtain ⟨hlen, hm⟩ := Option.ite_none_right_eq_some.mp hm
  obtain ⟨a, hag, rfl⟩ := Option.map_eq_some_iff.mp hm
  have hle := hs.sent_le
  rw [sent_append, List.length_append] at hle
  unfold signedIn
  rw [if_pos (by rw [sent_append, List.length_append]; omega), agreedIn_append hag]
  rfl

/-- A signature that is checked twice passes twice. -/
theorem verifiedIn_append {a : Agreed P} (hag : H.agreedIn h = some a)
    (hgot : 4 ≤ (received h).length) (h' : List (Act Bytes32)) :
    H.verifiedIn (h ++ h') = H.verifiedIn h := by
  unfold verifiedIn
  rw [agreedIn_append hag, hag, received_append]
  match received h, hgot with
  | _ :: _ :: r :: s :: _, _ => rfl

theorem agreedIn_of_verifiedIn (hv : H.verifiedIn h = true) :
    4 ≤ (received h).length ∧ ∃ a, H.agreedIn h = some a := by
  unfold verifiedIn at hv
  split at hv
  · rename_i a _ _ _ _ _ hag hgot
    exact ⟨by rw [hgot]; simp, a, hag⟩
  · cases hv

/-! ## 4. Messages that are accepted -/

/-- Both exchanges whole, with what the other side sent. -/
def script (H : Handshake C) (theirs : Bytes32 × Bytes32) (a : Agreed P)
    (theirSig : Bytes32 × Bytes32) : List (Act Bytes32) :=
  exchanged H.isInitiator H.hello theirs ++ exchanged H.isInitiator (H.sign (a.msg C)) theirSig

theorem run_script {theirs : Bytes32 × Bytes32} {a : Agreed P} {theirSig : Bytes32 × Bytes32}
    (hag : H.agreed theirs = some a) (hv : verifySig C a.peer (a.msg C) theirSig = true) :
    Session.run H.authenticatedHandshake (H.script theirs a theirSig) =
      some (done (some (a.sessionKey C))) := by
  unfold authenticatedHandshake script
  rw [run_exchanged, hag]
  dsimp only
  rw [← List.append_nil (exchanged _ (H.sign _) _), run_exchanged, if_pos hv]
  rfl

/-- `H` is ready to talk to the identity of `K`. -/
def Admits (H K : Handshake C) : Prop :=
  ∀ expected, H.expectedPeerPk = some expected → expected = K.myIdentity.publicKey

theorem verifySig_sign (H : Handshake C) (m : Bytes32) :
    verifySig C H.myIdentity.publicKey m (H.sign m) = true := by
  unfold verifySig sign
  dsimp only
  rw [C.decompress_compress, C.fromCanonicalBytes_asBytes]
  refine decide_eq_true ?_
  rw [add_smul, mul_smul, ← H.myIdentity.publicKey_eq]

omit [DecidableEq P] in
theorem agreed_hello {K : Handshake C} (hadm : H.Admits K) :
    H.agreed K.hello = some ⟨K.myIdentity.publicKey, ordered H.hello K.hello,
      C.compress (H.ephemSk • K.ephemSk • C.G)⟩ := by
  unfold agreed
  have hephem : C.decompress K.hello.2 = some (K.ephemSk • C.G) := C.decompress_compress _
  have hid : C.decompress K.hello.1 = some K.myIdentity.publicKey := C.decompress_compress _
  rw [hid, hephem]
  dsimp only
  cases hex : H.expectedPeerPk with
  | none => rfl
  | some expected =>
      rw [hadm expected hex]
      exact if_pos rfl

/-- **Two calls fed with each other's messages accept, with one session key**, whatever their
    roles, when their identities differ and each admits the other. -/
theorem mirror_accepts {K : Handshake C} (hHK : H.Admits K) (hKH : K.Admits H)
    (hne : H.myIdentity.publicKey ≠ K.myIdentity.publicKey) :
    ∃ a b key, H.agreed K.hello = some a ∧ K.agreed H.hello = some b ∧ b.msg C = a.msg C ∧
      Session.run H.authenticatedHandshake (H.script K.hello a (K.sign (a.msg C))) =
        some (done (some key)) ∧
      Session.run K.authenticatedHandshake (K.script H.hello b (H.sign (a.msg C))) =
        some (done (some key)) := by
  have hids : H.hello.1 ≠ K.hello.1 := fun h => hne (C.compress_inj.mp h)
  -- the same parties and the same secret, so both hash the same transcript
  have hK : K.agreed H.hello = some ⟨H.myIdentity.publicKey, ordered H.hello K.hello,
      C.compress (H.ephemSk • K.ephemSk • C.G)⟩ := by
    rw [agreed_hello hKH, ordered_mirror hids, smul_comm]
  exact ⟨_, _, _, agreed_hello hHK, hK, rfl,
    run_script (agreed_hello hHK) (verifySig_sign K _), run_script hK (verifySig_sign H _)⟩

/-- **An initiator accepts its own messages sent back to it**: the peer is then itself, and no
    other run is needed. -/
theorem reflected_initiator_accepts (hinit : H.isInitiator = true) (hadm : H.Admits H) :
    ∃ a, H.agreed H.hello = some a ∧ a.peer = H.myIdentity.publicKey ∧
      Session.run H.authenticatedHandshake
        [.wrote H.hello.1, .wrote H.hello.2, .got H.hello.1, .got H.hello.2,
          .wrote (H.sign (a.msg C)).1, .wrote (H.sign (a.msg C)).2,
          .got (H.sign (a.msg C)).1, .got (H.sign (a.msg C)).2] =
        some (done (some (a.sessionKey C))) := by
  refine ⟨_, agreed_hello hadm, rfl, ?_⟩
  have hrun := run_script (agreed_hello hadm) (verifySig_sign H _)
  unfold script exchanged at hrun
  rw [hinit] at hrun
  exact hrun

end Handshake

end Specter
