/-
  File:      Specter/Cli/Sessions.lean
  Subject:   ANY NUMBER OF HANDSHAKES AT ONCE on a network that belongs to the adversary
             (specter-cli/src/main.rs).

  The world is the list of all runs of `authenticated_handshake` by honest parties. A step starts
  a run or lets one run take part in one act; what a run reads is the adversary's choice, and
  what it writes the adversary sees. Nothing else is modelled of the adversary: what it cannot do
  is a condition on the worlds met.

  * `Unforgeable`, `NoCollision`, `Unpredicted` -- signatures under an honest key come from runs
    of that key, the transcripts hashed do not collide, nobody reads an ephemeral key before it
    was sent;
  * `Backed`, `backed_step` -- the invariant behind a checked signature: another run signed the
    transcript;
  * `handshake_agreement` -- an accepted handshake with an honest peer has its other end, a run
    of the peer on the same transcript, an initiator's where the accepting run responds;
  * `crossed_initiators` -- two initiators connected to each other both accept.
-/
import Specter.Cli.Handshake

namespace Specter

open Lib Lib.Session

variable {S P : Type} [Field S] [AddCommGroup P] [Module S P] [DecidableEq P]

/-! ## 1. The world -/

/-- A run of `authenticated_handshake`: the call, its history so far, and the session that is
    left of it. -/
structure HandshakeRun (C : Suite S P) where
  call : Handshake C
  history : List (Act Bytes32)
  session : Session Bytes32 Bytes32
  follows : Session.run call.authenticatedHandshake history = some session

namespace HandshakeRun

variable {C : Suite S P}

def start (call : Handshake C) : HandshakeRun C := ⟨call, [], call.authenticatedHandshake, rfl⟩

def step (r : HandshakeRun C) (a : Act Bytes32) : Option (HandshakeRun C) :=
  match h : r.session.step a with
  | none => none
  | some s => some ⟨r.call, r.history ++ [a], s, machine.run_concat r.follows h⟩

def identity (r : HandshakeRun C) : P := r.call.myIdentity.publicKey

/-- What the run has agreed on with the other side's hello. -/
def agreed (r : HandshakeRun C) : Option (Agreed P) := r.call.agreedIn r.history

/-- The run holds a signature of its peer that passes the check. -/
def verified (r : HandshakeRun C) : Bool := r.call.verifiedIn r.history

/-- The transcript whose signature the run has put on the wire. -/
def signed (r : HandshakeRun C) : Option Bytes32 := r.call.signedIn r.history

/-- The ephemeral key the run has read. -/
def theirEphem (r : HandshakeRun C) : Option Bytes32 := (received r.history)[1]?

/-- The run has put its own hello on the wire. -/
def greeted (r : HandshakeRun C) : Prop := 2 ≤ (sent r.history).length

instance (r : HandshakeRun C) : Decidable r.greeted := inferInstanceAs (Decidable (_ ≤ _))

theorem stage (r : HandshakeRun C) : r.call.Stage r.history r.session :=
  Handshake.stage_of_run r.follows

end HandshakeRun

abbrev Sessions (C : Suite S P) := List (HandshakeRun C)

inductive NetworkStep (C : Suite S P) where
  | start (call : Handshake C)
  | act (i : Nat) (a : Act Bytes32)

/-- Starting a run, and one act of a run. -/
def sessions (C : Suite S P) : Machine (Sessions C) (NetworkStep C) where
  step w
    | .start call => some (w ++ [.start call])
    | .act i a =>
        match w[i]? with
        | none => none
        | some r =>
            match r.step a with
            | none => none
            | some r' => some (w.set i r')

section Conditions

variable {C : Suite S P}

/-- A signature that passes the check under an honest key was put on the wire by a run under
    that key. -/
def Unforgeable (honest : P → Prop) (w : Sessions C) : Prop :=
  ∀ r ∈ w, r.verified = true → ∀ a ∈ r.agreed, honest a.peer →
    ∃ r' ∈ w, r'.identity = a.peer ∧ r'.signed = some (a.msg C)

/-- The transcripts hashed do not collide. -/
def NoCollision (w : Sessions C) : Prop :=
  ∀ r ∈ w, ∀ r' ∈ w, ∀ a ∈ r.agreed, ∀ a' ∈ r'.agreed, a.msg C = a'.msg C →
    a.transcript = a'.transcript

/-- Ephemeral keys are drawn afresh, and nobody reads one before it was sent. -/
def Unpredicted (w : Sessions C) : Prop :=
  (w.map (·.call.ephemPk)).Nodup ∧
    ∀ r ∈ w, ∀ r' ∈ w, r.theirEphem = some r'.call.ephemPk → r'.greeted

instance (honest : P → Prop) [DecidablePred honest] (w : Sessions C) :
    Decidable (Unforgeable honest w) :=
  inferInstanceAs (Decidable (∀ r ∈ w, r.verified = true → ∀ a ∈ r.agreed, honest a.peer → _))

instance (w : Sessions C) : Decidable (NoCollision w) :=
  inferInstanceAs (Decidable (∀ r ∈ w, ∀ r' ∈ w, ∀ a ∈ r.agreed, ∀ a' ∈ r'.agreed, _ → _))

instance (w : Sessions C) : Decidable (Unpredicted w) :=
  inferInstanceAs (Decidable (_ ∧ ∀ r ∈ w, ∀ r' ∈ w, _ → r'.greeted))

end Conditions

/-! ## 2. What a run keeps -/

namespace HandshakeRun

variable {C : Suite S P} {r r' : HandshakeRun C} {x : Act Bytes32}

theorem step_eq (hs : r.step x = some r') :
    r'.call = r.call ∧ r'.history = r.history ++ [x] := by
  unfold step at hs
  split at hs
  · cases hs
  · cases hs; exact ⟨rfl, rfl⟩

theorem step_agreed {a : Agreed P} (hs : r.step x = some r') (hag : r.agreed = some a) :
    r'.agreed = some a := by
  obtain ⟨hcall, hhist⟩ := step_eq hs
  unfold agreed
  rw [hcall, hhist]
  exact Handshake.agreedIn_append hag _

theorem step_signed {m : Bytes32} (hs : r.step x = some r') (hm : r.signed = some m) :
    r'.signed = some m := by
  obtain ⟨hcall, hhist⟩ := step_eq hs
  have hst := r'.stage
  unfold signed
  rw [hcall, hhist] at hst ⊢
  exact Handshake.signedIn_concat hst hm

/-- **A responder that has just read a signature has not signed yet.** -/
theorem step_verified (hs : r.step x = some r') (hresp : r.call.isInitiator = false)
    (hv : r'.verified = true) : r.verified = true ∨ r'.signed = none := by
  obtain ⟨hcall, hhist⟩ := step_eq hs
  unfold verified at hv ⊢
  obtain ⟨hgot', a, hag'⟩ := Handshake.agreedIn_of_verifiedIn hv
  by_cases hgot : 4 ≤ (received r.history).length
  · left
    rw [hcall, hhist] at hv hag'
    have hag : r.call.agreedIn r.history = some a := by
      rw [← hag']
      unfold Handshake.agreedIn
      rw [received_append]
      match received r.history, hgot with
      | _ :: _ :: _, _ => rfl
    rwa [Handshake.verifiedIn_append hag hgot] at hv
  · right
    have hsent := r.stage.answers_signature hresp (by omega)
    rw [hhist, received_append, List.length_append] at hgot'
    unfold signed Handshake.signedIn
    rw [hhist, if_neg]
    -- the act was a read, so nothing was sent with it
    cases x with
    | got m => simp; omega
    | wrote m => simp at hgot'; omega
    | cut m => simp at hgot'; omega
    | lost => simp at hgot'; omega

end HandshakeRun

/-! ## 3. What a step of the world keeps -/

section World

variable {C : Suite S P} {honest : P → Prop} {w w' : Sessions C} {l : NetworkStep C}

theorem sessions_step (hs : (sessions C).step w l = some w') :
    (∃ call, w' = w ++ [.start call]) ∨
      ∃ i x r r', w[i]? = some r ∧ r.step x = some r' ∧ w' = w.set i r' := by
  cases l with
  | start call => exact .inl ⟨call, (Option.some.inj hs).symm⟩
  | act i x =>
      simp only [sessions] at hs
      split at hs
      · cases hs
      · rename_i r hi
        split at hs
        · cases hs
        · rename_i r' hstep
          exact .inr ⟨i, x, r, r', hi, hstep, (Option.some.inj hs).symm⟩

/-- Where a run of the new world comes from. -/
theorem run_before {i : Nat} {r' : HandshakeRun C} (hs : (sessions C).step w l = some w')
    (hi : w'[i]? = some r') :
    (∃ call, r' = .start call) ∨
      ∃ r, w[i]? = some r ∧ (r' = r ∨ ∃ x, r.step x = some r') := by
  rcases sessions_step hs with ⟨call, rfl⟩ | ⟨k, x, r, r1, hk, hstep, rfl⟩
  · rw [List.getElem?_append] at hi
    split at hi
    · exact .inr ⟨r', hi, .inl rfl⟩
    · exact .inl ⟨call, by simpa using List.mem_of_getElem? hi⟩
  · right
    by_cases hki : k = i
    · subst hki
      rw [List.getElem?_set_self (List.getElem?_eq_some_iff.mp hk).1] at hi
      cases hi
      exact ⟨r, hk, .inr ⟨x, hstep⟩⟩
    · rw [List.getElem?_set_ne hki] at hi
      exact ⟨r', hi, .inl rfl⟩

/-- Where a run of the old world is found. -/
theorem run_after {i : Nat} {r : HandshakeRun C} (hs : (sessions C).step w l = some w')
    (hi : w[i]? = some r) : ∃ r', w'[i]? = some r' ∧ (r' = r ∨ ∃ x, r.step x = some r') := by
  have hlt := (List.getElem?_eq_some_iff.mp hi).1
  rcases sessions_step hs with ⟨call, rfl⟩ | ⟨k, x, r0, r1, hk, hstep, rfl⟩
  · exact ⟨r, by rw [List.getElem?_append_left hlt, hi], .inl rfl⟩
  · by_cases hki : k = i
    · subst hki
      cases hk.symm.trans hi
      exact ⟨r1, List.getElem?_set_self hlt, .inr ⟨x, hstep⟩⟩
    · exact ⟨r, by rw [List.getElem?_set_ne hki, hi], .inl rfl⟩

theorem signed_after {i : Nat} {r : HandshakeRun C} {m : Bytes32}
    (hs : (sessions C).step w l = some w') (hi : w[i]? = some r) (hm : r.signed = some m) :
    ∃ r', w'[i]? = some r' ∧ r'.call = r.call ∧ r'.signed = some m := by
  obtain ⟨r', hi', rfl | ⟨x, hstep⟩⟩ := run_after hs hi
  · exact ⟨r', hi', rfl, hm⟩
  · exact ⟨r', hi', (HandshakeRun.step_eq hstep).1, HandshakeRun.step_signed hstep hm⟩

/-- A responder that has signed checked its signature in an earlier world. -/
theorem verified_before {i : Nat} {r : HandshakeRun C} {a : Agreed P} {m : Bytes32}
    (hs : (sessions C).step w l = some w') (hi : w'[i]? = some r)
    (hresp : r.call.isInitiator = false) (hv : r.verified = true) (hag : r.agreed = some a)
    (hm : r.signed = some m) :
    ∃ r0, w[i]? = some r0 ∧ r0.call = r.call ∧ r0.verified = true ∧ r0.agreed = some a := by
  rcases run_before hs hi with ⟨call, rfl⟩ | ⟨r0, h0, rfl | ⟨x, hstep⟩⟩
  · cases hv
  · exact ⟨r, h0, rfl, hv, hag⟩
  · have hcall := (HandshakeRun.step_eq hstep).1
    rcases HandshakeRun.step_verified hstep (hcall ▸ hresp) hv with hv0 | hnone
    · obtain ⟨_, a0, hag0⟩ := Handshake.agreedIn_of_verifiedIn hv0
      have ha := (HandshakeRun.step_agreed hstep hag0).symm.trans hag
      exact ⟨r0, h0, hcall.symm, hv0, ha ▸ hag0⟩
    · rw [hnone] at hm
      cases hm

/-- **Every checked signature of an honest peer has another run behind it**, except where an
    initiator's peer is itself. -/
def Backed (honest : P → Prop) (w : Sessions C) : Prop :=
  ∀ (i : Nat) (r : HandshakeRun C) (a : Agreed P), w[i]? = some r → r.verified = true →
    r.agreed = some a → honest a.peer →
    (r.call.isInitiator = true → a.peer ≠ r.identity) →
      ∃ (j : Nat) (r' : HandshakeRun C), w[j]? = some r' ∧ j ≠ i ∧ r'.identity = a.peer ∧
        r'.signed = some (a.msg C)

theorem backed_step (hb : Backed honest w) (hunf : Unforgeable honest w')
    (hs : (sessions C).step w l = some w') : Backed honest w' := by
  intro i r a hi hv hag hp hself
  obtain ⟨r1, hmem, hid, hsigned⟩ := hunf r (List.mem_of_getElem? hi) hv a hag hp
  obtain ⟨j, hj⟩ := List.getElem?_of_mem hmem
  by_cases hji : j ≠ i
  · exact ⟨j, r1, hj, hji, hid, hsigned⟩
  -- the signature is the run's own: a responder's, so it was checked before this step
  obtain rfl := not_not.mp hji
  cases hj.symm.trans hi
  have hresp : r.call.isInitiator = false :=
    Bool.eq_false_iff.mpr fun hinit => hself hinit hid.symm
  obtain ⟨r0, h0, hcall, hv0, hag0⟩ := verified_before hs hi hresp hv hag hsigned
  have hid0 : r0.identity = r.identity := by
    unfold HandshakeRun.identity
    rw [hcall]
  obtain ⟨k, r2, hk, hkj, hid2, hsigned2⟩ :=
    hb j r0 a h0 hv0 hag0 hp (by rw [hcall, hid0]; exact hself)
  obtain ⟨r3, hk3, hcall3, hsigned3⟩ := signed_after hs hk hsigned2
  refine ⟨k, r3, hk3, hkj, ?_, hsigned3⟩
  rw [← hid2]
  unfold HandshakeRun.identity
  rw [hcall3]

/-! ## 4. Roles -/

/-- A responder whose hello is out read the other side's before. -/
theorem read_before {r : HandshakeRun C} {e : Bytes32} (hs : (sessions C).step w l = some w')
    (hr : r ∈ w') (hresp : r.call.isInitiator = false) (hout : r.greeted)
    (he : r.theirEphem = some e) : ∃ r0 ∈ w, r0.call = r.call ∧ r0.theirEphem = some e := by
  obtain ⟨i, hi⟩ := List.getElem?_of_mem hr
  rcases run_before hs hi with ⟨call, rfl⟩ | ⟨r0, h0, rfl | ⟨x, hstep⟩⟩
  · cases he
  · exact ⟨r, List.mem_of_getElem? h0, rfl, he⟩
  · obtain ⟨hcall, hhist⟩ := HandshakeRun.step_eq hstep
    refine ⟨r0, List.mem_of_getElem? h0, hcall.symm, ?_⟩
    unfold HandshakeRun.theirEphem at he ⊢
    unfold HandshakeRun.greeted at hout
    rw [hhist] at he hout
    by_cases hgot : 2 ≤ (received r0.history).length
    · rwa [received_append, List.getElem?_append_left (by omega)] at he
    -- it reads the hello in this very step, and has sent nothing
    · have hempty : sent r0.history = [] := by
        by_contra hne
        exact hgot (r0.stage.answers (hcall ▸ hresp) hne)
      have hlt := (List.getElem?_eq_some_iff.mp he).1
      cases x with
      | got m => simp [hempty] at hout
      | wrote m => simp at hlt; omega
      | cut m => simp at hlt; omega
      | lost => simp at hlt; omega

/-- No two responders have read each other's ephemeral keys. -/
def Uncrossed (w : Sessions C) : Prop :=
  ∀ r ∈ w, ∀ r' ∈ w, r.call.isInitiator = false → r'.call.isInitiator = false →
    r.theirEphem = some r'.call.ephemPk → r'.theirEphem = some r.call.ephemPk → False

theorem uncrossed_step (hu : Uncrossed w) (hp : Unpredicted w')
    (hs : (sessions C).step w l = some w') : Uncrossed w' := by
  intro r hr r' hr' hresp hresp' he he'
  obtain ⟨r0, h0, hcall, he0⟩ := read_before hs hr hresp (hp.2 r' hr' r hr he') he
  obtain ⟨r0', h0', hcall', he0'⟩ := read_before hs hr' hresp' (hp.2 r hr r' hr' he) he'
  rw [← hcall] at hresp he0'
  rw [← hcall'] at hresp' he0
  exact hu r0 h0 r0' h0' hresp hresp' he0 he0'

/-- Two different runs that agreed on the same parties are not both responders. -/
theorem initiator_of_responder {i j : Nat} {r r' : HandshakeRun C} {a a' : Agreed P}
    (hu : Uncrossed w) (hfresh : (w.map (·.call.ephemPk)).Nodup) (hi : w[i]? = some r)
    (hj : w[j]? = some r') (hij : i ≠ j) (hag : r.agreed = some a) (hag' : r'.agreed = some a')
    (hparties : a'.parties = a.parties) (hresp : r.call.isInitiator = false) :
    r'.call.isInitiator = true := by
  by_contra hinit
  have hresp' : r'.call.isInitiator = false := Bool.eq_false_iff.mpr hinit
  obtain ⟨theirs, hgot, hord⟩ := Handshake.parties_of_agreedIn hag
  obtain ⟨theirs', hgot', hord'⟩ := Handshake.parties_of_agreedIn hag'
  have hordered := hord.symm.trans (hparties.symm.trans hord')
  rcases ordered_eq hordered with ⟨hmine, _⟩ | ⟨hmine, htheirs⟩
  · -- the same way round: one ephemeral key drawn twice
    have hephem : r.call.ephemPk = r'.call.ephemPk := congrArg Prod.snd hmine
    refine hij ((List.getElem?_inj ?_ hfresh).mp ?_)
    · rw [List.length_map]
      exact (List.getElem?_eq_some_iff.mp hi).1
    · rw [List.getElem?_map, List.getElem?_map, hi, hj]
      exact congrArg some hephem
  · refine hu r (List.mem_of_getElem? hi) r' (List.mem_of_getElem? hj) hresp hresp' ?_ ?_
    · rw [htheirs] at hgot
      exact hgot
    · rw [← hmine] at hgot'
      exact hgot'

end World

/-- **Agreement of the handshake.** Along any run of the world in which signatures under honest
    keys are not forged, and with no collision among the transcripts, a run that returns a key
    with an honest peer has its other end: another run, by that peer, that agreed on the same
    identities and ephemeral keys and signed the same transcript -- unless it is an initiator and
    the peer is itself. Where ephemeral keys are not known before they are sent, the other end of
    a responder is an initiator. -/
theorem handshake_agreement (C : Suite S P) (honest : P → Prop) (steps : List (NetworkStep C))
    (w : Sessions C) (hrun : (sessions C).run [] steps = some w)
    (hunf : (sessions C).Always (Unforgeable honest) [] steps) (hinj : NoCollision w)
    (i : Nat) (r : HandshakeRun C) (key : Bytes32) (a : Agreed P) (hi : w[i]? = some r)
    (hkey : r.session.result = some key) (hag : r.agreed = some a) (hp : honest a.peer)
    (hself : r.call.isInitiator = true → a.peer ≠ r.identity) :
    ∃ (j : Nat) (r' : HandshakeRun C) (a' : Agreed P), w[j]? = some r' ∧ j ≠ i ∧
      r'.identity = a.peer ∧ r'.agreed = some a' ∧ a'.parties = a.parties ∧
      a'.transcript = a.transcript ∧ r'.signed = some (a.msg C) ∧
      ((sessions C).Always Unpredicted [] steps →
        r.call.isInitiator = false → r'.call.isInitiator = true) := by
  have hbacked : Backed honest w := (sessions C).run_invariant_of
    (fun _ _ _ hb hc hs => backed_step hb (hc _ hs).2 hs) steps [] w
    (fun _ _ _ h => by cases h) ((sessions C).allSteps_of_always hunf) hrun
  obtain ⟨hv, _, _⟩ := r.stage.accepted hkey
  obtain ⟨j, r', hj, hji, hid, hsigned⟩ := hbacked i r a hi hv hag hp hself
  -- a signed transcript was agreed on
  obtain ⟨a', hag', hmsg⟩ :=
    Option.map_eq_some_iff.mp (Option.ite_none_right_eq_some.mp hsigned).2
  have htranscript : a'.transcript = a.transcript :=
    (hinj r (List.mem_of_getElem? hi) r' (List.mem_of_getElem? hj) a hag a' hag' hmsg.symm).symm
  have hparties := (Agreed.transcript_inj htranscript).1
  refine ⟨j, r', a', hj, hji, hid, hag', hparties, htranscript, hsigned, fun hunp hresp => ?_⟩
  have huncrossed : Uncrossed w := (sessions C).run_invariant_of
    (fun _ _ _ hu hc hs => uncrossed_step hu (hc _ hs).2 hs) steps [] w
    (fun _ h => by cases h) ((sessions C).allSteps_of_always hunp) hrun
  exact initiator_of_responder huncrossed ((sessions C).always_last hunp hrun).1 hi hj hji.symm
    hag hag' hparties hresp

/-! ## 5. A world that evaluates -/

def sampleIdentity (secret : SampleScalar) : NodeIdentity sampleSuite :=
  ⟨secret, secret • sampleSuite.G, rfl⟩

/-- Two parties that expect nobody in particular, in any roles. -/
def alice (isInitiator : Bool) : Handshake sampleSuite :=
  ⟨sampleIdentity 3, none, isInitiator, 5, 7⟩

def bob (isInitiator : Bool) : Handshake sampleSuite :=
  ⟨sampleIdentity 11, none, isInitiator, 13, 17⟩

def ofAliceOrBob (p : SamplePoint) : Prop :=
  p = (sampleIdentity 3).publicKey ∨ p = (sampleIdentity 11).publicKey

instance : DecidablePred ofAliceOrBob := fun _ => inferInstanceAs (Decidable (_ ∨ _))

def sends (i : Nat) (m : Bytes32 × Bytes32) : List (NetworkStep sampleSuite) :=
  [.act i (.wrote m.1), .act i (.wrote m.2)]

def reads (i : Nat) (m : Bytes32 × Bytes32) : List (NetworkStep sampleSuite) :=
  [.act i (.got m.1), .act i (.got m.2)]

/-- The transcript two parties hash. -/
def transcriptOf (H K : Handshake sampleSuite) : Bytes32 :=
  ((H.agreed K.hello).map (·.msg sampleSuite)).getD zero32

/-- Alice initiates, Bob responds, and the network passes everything on. -/
def passedOn : List (NetworkStep sampleSuite) :=
  let H := alice true
  let K := bob false
  let m := transcriptOf H K
  [.start H, .start K] ++ sends 0 H.hello ++ reads 1 H.hello ++ sends 1 K.hello ++
    reads 0 K.hello ++ sends 0 (H.sign m) ++ reads 1 (H.sign m) ++ sends 1 (K.sign m) ++
    reads 0 (K.sign m)

/-- Two initiators, connected to each other. -/
def crossed : List (NetworkStep sampleSuite) :=
  let H := alice true
  let K := bob true
  let m := transcriptOf H K
  [.start H, .start K] ++ sends 0 H.hello ++ sends 1 K.hello ++ reads 0 K.hello ++
    reads 1 H.hello ++ sends 0 (H.sign m) ++ sends 1 (K.sign m) ++ reads 0 (K.sign m) ++
    reads 1 (H.sign m)

/-- Bob's run, a responder's, returns a key with Alice as its peer, and Alice's run is the
    initiator's at its other end. -/
theorem handshake_agreement_passed_on : ∃ w ∈ (sessions sampleSuite).run [] passedOn,
    ∃ r ∈ w[1]?, r.session.result.isSome ∧
      r.agreed.map (·.peer) = some (alice true).myIdentity.publicKey ∧
      ∃ r' ∈ w, r'.identity = (alice true).myIdentity.publicKey ∧ r'.call.isInitiator = true := by
  obtain ⟨w, hw, hunf, hunp, hinj, r, hr, key, hkey, a, hag, hp, hpeer, hresp⟩ :
      ∃ w ∈ (sessions sampleSuite).run [] passedOn,
        (sessions sampleSuite).Always (Unforgeable ofAliceOrBob) [] passedOn ∧
        (sessions sampleSuite).Always Unpredicted [] passedOn ∧ NoCollision w ∧
        ∃ r ∈ w[1]?, ∃ key ∈ r.session.result, ∃ a ∈ r.agreed, ofAliceOrBob a.peer ∧
          a.peer = (alice true).myIdentity.publicKey ∧ r.call.isInitiator = false := by
    decide +kernel
  obtain ⟨j, r', a', hj, _, hid, _, _, _, _, hrole⟩ :=
    handshake_agreement sampleSuite ofAliceOrBob passedOn w hw hunf hinj 1 r key a hr hkey hag hp
      fun hinit => absurd (hresp.symm.trans hinit) Bool.false_ne_true
  exact ⟨w, hw, r, hr, by rw [hkey]; rfl, by rw [hag, ← hpeer]; rfl, r', List.mem_of_getElem? hj,
    hid.trans hpeer, hrole hunp hresp⟩

/-- **Two initiators accept each other**: nothing is forged, predicted or collides, Alice's run
    returns a key with Bob as its peer, and no run is a responder. -/
theorem crossed_initiators : ∃ w ∈ (sessions sampleSuite).run [] crossed,
    (sessions sampleSuite).Always (Unforgeable ofAliceOrBob) [] crossed ∧
    (sessions sampleSuite).Always Unpredicted [] crossed ∧ NoCollision w ∧
    ∃ r ∈ w[0]?, ∃ key ∈ r.session.result, ∃ a ∈ r.agreed, ofAliceOrBob a.peer ∧
      a.peer ≠ r.identity ∧ ∀ r' ∈ w, r'.call.isInitiator = r.call.isInitiator := by
  decide +kernel

end Specter
