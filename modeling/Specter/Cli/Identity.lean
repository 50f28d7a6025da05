/-
  File:      Specter/Cli/Identity.lean
  Subject:   THE IDENTITY FILE (`NodeIdentity::load_or_create`, `encode`, `decode` of
             specter-cli/src/main.rs).

  A start of the program reads the file, or makes an identity and writes it. Whether the file can
  be read, what is drawn and how the write ends are arguments; the printed lines are left out.

  * `decode_iff` -- which bytes are an identity: what `encode` writes, and anything behind it;
  * `decode_torn` -- a file that was not written to its end is none;
  * `held_loadOrCreate` -- so the file is a cell that holds one identity or none;
  * `identity_kept` -- what a run of starts returns, and what is in the file after it.
-/
import Specter.Cli.Commands
import Specter.Cli.Handshake

namespace Specter

open Lib Serde

variable {S P : Type} [Field S] [AddCommGroup P] [Module S P]

namespace NodeIdentity

variable {C : Suite S P} {A : Cipher} {passphrase data : Bytes}

/-! ## 1. The format -/

def generate (C : Suite S P) (secret : S) : NodeIdentity C := ⟨secret, secret • C.G, rfl⟩

theorem generate_secret (id : NodeIdentity C) : generate C id.secret = id := by
  obtain ⟨secret, publicKey, rfl⟩ := id
  rfl

def magic : Bytes := ascii "SID1"

/-- `none` where the `expect` panics. -/
def encode (A : Cipher) (id : NodeIdentity C) (passphrase : Bytes) (rnd : StoreRandom) :
    Option Bytes :=
  match A.encrypt (C.asBytes id.secret).toList passphrase rnd with
  | .error _ => none
  | .ok enc => some (magic ++ enc.salt.toList ++ enc.nonce.toList ++
      leBytes 4 enc.ciphertext.length ++ enc.ciphertext)

def decode (C : Suite S P) (A : Cipher) (data passphrase : Bytes) : Option (NodeIdentity C) :=
  if data.length < 36 ∨ data.take 4 ≠ magic then none
  else
    let salt := takeArr 16 (data.drop 4)
    let nonce := takeArr 12 (data.drop 20)
    let ctLen := ofLE ((data.drop 32).take 4)
    if 36 + ctLen > data.length then none
    else
      match A.decrypt ⟨salt, nonce, (data.drop 36).take ctLen⟩ passphrase with
      | .error _ => none
      | .ok pt =>
          if pt.length ≠ 32 then none
          else
            match C.fromCanonicalBytes (takeArr 32 pt) with
            | none => none
            | some secret => some (generate C secret)

/-- The bytes of a file around its ciphertext. -/
def envelope (salt : ByteArr 16) (nonce : ByteArr 12) (c : Bytes) : Bytes :=
  magic ++ (salt.toList ++ (nonce.toList ++ (leBytes 4 c.length ++ c)))

theorem length_magic : magic.length = 4 := by decide

theorem length_envelope (salt : ByteArr 16) (nonce : ByteArr 12) (c : Bytes) :
    (envelope salt nonce c).length = 36 + c.length := by
  unfold envelope
  simp only [List.length_append, List.Vector.toList_length, length_leBytes, length_magic]
  omega

/-- The five parts of a file that is long enough. -/
theorem parts (h : 36 ≤ data.length) :
    data = data.take 4 ++ ((takeArr 16 (data.drop 4)).toList ++
      ((takeArr 12 (data.drop 20)).toList ++ ((data.drop 32).take 4 ++ data.drop 36))) := by
  have hsalt : (takeArr 16 (data.drop 4)).toList = (data.drop 4).take 16 :=
    toList_takeArr (by rw [List.length_drop]; omega)
  have hnonce : (takeArr 12 (data.drop 20)).toList = (data.drop 20).take 12 :=
    toList_takeArr (by rw [List.length_drop]; omega)
  have hjoin : ∀ n k, (data.drop n).take k ++ data.drop (n + k) = data.drop n := by
    intro n k
    rw [← List.drop_drop, List.take_append_drop]
  rw [hsalt, hnonce, hjoin 32 4, hjoin 20 12, hjoin 4 16, List.take_append_drop]

/-- What the reader finds in an envelope. -/
theorem read_envelope (salt : ByteArr 16) (nonce : ByteArr 12) {c : Bytes} (hc : c.length < 2 ^ 32)
    (rest : Bytes) (hdata : data = envelope salt nonce c ++ rest) :
    ¬ (data.length < 36 ∨ data.take 4 ≠ magic) ∧ takeArr 16 (data.drop 4) = salt ∧
      takeArr 12 (data.drop 20) = nonce ∧ ofLE ((data.drop 32).take 4) = c.length ∧
      ¬ 36 + c.length > data.length ∧ (data.drop 36).take c.length = c := by
  have hlen : data.length = 36 + c.length + rest.length := by
    rw [hdata, List.length_append, length_envelope]
  have hsplit : data = magic ++ (salt.toList ++ (nonce.toList ++ (leBytes 4 c.length ++
      (c ++ rest)))) := by
    rw [hdata, envelope]
    simp only [List.append_assoc]
  have h4 : data.drop 4 = salt.toList ++ (nonce.toList ++ (leBytes 4 c.length ++ (c ++ rest))) := by
    rw [hsplit, List.drop_left' length_magic]
  have h20 : data.drop 20 = nonce.toList ++ (leBytes 4 c.length ++ (c ++ rest)) := by
    rw [show 20 = 4 + 16 from rfl, ← List.drop_drop, h4, List.drop_left' salt.toList_length]
  have h32 : data.drop 32 = leBytes 4 c.length ++ (c ++ rest) := by
    rw [show 32 = 20 + 12 from rfl, ← List.drop_drop, h20, List.drop_left' nonce.toList_length]
  obtain ⟨_, hnum, hrest⟩ := Wallet.number_ahead hc (c ++ rest)
  have h36 : data.drop 36 = c ++ rest := by
    rw [show 36 = 32 + 4 from rfl, ← List.drop_drop, h32, hrest]
  refine ⟨?_, by rw [h4, takeArr_append], by rw [h20, takeArr_append], by rw [h32, hnum], ?_, ?_⟩
  · simp only [not_or, not_lt, not_not]
    refine ⟨by omega, ?_⟩
    rw [hsplit, List.take_left' length_magic]
  · omega
  · rw [h36, List.take_left]

/-- The secret in a plaintext. -/
theorem plaintext_iff {pt : Bytes} {id : NodeIdentity C} :
    (pt.length = 32 ∧ ∃ secret, C.fromCanonicalBytes (takeArr 32 pt) = some secret ∧
      generate C secret = id) ↔ pt = (C.asBytes id.secret).toList := by
  constructor
  · intro h
    obtain ⟨hlen, secret, hsecret, rfl⟩ := h
    unfold Suite.fromCanonicalBytes at hsecret
    split at hsecret
    · rename_i hcanon
      cases hsecret
      show pt = (C.asBytes (C.fromBytesModOrder _)).toList
      rw [hcanon, toList_takeArr hlen.ge, List.take_of_length_le hlen.le]
    · cases hsecret
  · intro h
    have hpt : takeArr 32 pt = C.asBytes id.secret := by
      rw [h, ← List.append_nil (C.asBytes id.secret).toList, takeArr_append]
    exact ⟨by rw [h]; exact List.Vector.toList_length _, id.secret,
      by rw [hpt, C.fromCanonicalBytes_asBytes], generate_secret id⟩

/-- **Which bytes are an identity**: an envelope around a ciphertext that opens to the canonical
    bytes of its secret, and anything behind it. -/
theorem decode_iff {id : NodeIdentity C} : decode C A data passphrase = some id ↔
    ∃ salt nonce c rest, c.length < 2 ^ 32 ∧ data = envelope salt nonce c ++ rest ∧
      A.aeadDecrypt (A.deriveKey passphrase salt) nonce c = some (C.asBytes id.secret).toList := by
  constructor
  · intro h
    unfold decode at h
    split at h
    · cases h
    rename_i hhead
    simp only [not_or, not_lt, not_not] at hhead
    dsimp only at h
    split at h
    · cases h
    rename_i hin
    split at h
    · cases h
    rename_i pt hpt
    split at h
    · cases h
    rename_i hlen
    split at h
    · cases h
    rename_i secret hsecret
    cases h
    have hfour : ((data.drop 32).take 4).length = 4 := by
      rw [List.length_take, List.length_drop]
      omega
    have hnum := leBytes_ofLE ((data.drop 32).take 4)
    have hlt := ofLE_lt ((data.drop 32).take 4)
    rw [hfour] at hnum hlt
    have hct : ((data.drop 36).take (ofLE ((data.drop 32).take 4))).length =
        ofLE ((data.drop 32).take 4) := by
      rw [List.length_take, List.length_drop]
      omega
    refine ⟨takeArr 16 (data.drop 4), takeArr 12 (data.drop 20), _,
      (data.drop 36).drop (ofLE ((data.drop 32).take 4)), hct.trans_lt hlt, ?_, ?_⟩
    · rw [envelope, hct, hnum, ← hhead.2]
      simp only [List.append_assoc, List.take_append_drop]
      exact parts hhead.1
    · unfold Cipher.decrypt at hpt
      split at hpt
      · cases hpt
      · rename_i pt' hopen
        cases hpt
        rw [← plaintext_iff.mp ⟨not_not.mp hlen, secret, hsecret, rfl⟩]
        exact hopen
  · intro h
    obtain ⟨salt, nonce, c, rest, hc, hdata, hopen⟩ := h
    obtain ⟨hhead, hsalt, hnonce, hnum, hin, hct⟩ := read_envelope salt nonce hc rest hdata
    obtain ⟨hlen, secret, hsecret, hid⟩ := plaintext_iff.mpr
      (rfl : (C.asBytes id.secret).toList = (C.asBytes id.secret).toList)
    unfold decode Cipher.decrypt
    rw [if_neg hhead]
    dsimp only
    rw [hnum, if_neg hin, hsalt, hnonce, hct, hopen]
    dsimp only
    rw [if_neg (not_not.mpr hlen), hsecret, ← hid]

/-- The bytes of a file that `encode` wrote. -/
theorem encode_inv {id : NodeIdentity C} {rnd : StoreRandom}
    (h : encode A id passphrase rnd = some data) :
    ∃ c, A.aeadEncrypt (A.deriveKey passphrase rnd.salt) rnd.nonce (C.asBytes id.secret).toList =
      some c ∧ c.length = 48 ∧ data = envelope rnd.salt rnd.nonce c := by
  unfold encode Cipher.encrypt at h
  split at h
  · cases h
  rename_i enc henc
  cases h
  split at henc
  · cases henc
  split at henc
  · cases henc
  rename_i c hc
  cases henc
  have hlen := A.length_aeadEncrypt _ _ _ _ hc
  rw [List.Vector.toList_length] at hlen
  refine ⟨c, hc, hlen, ?_⟩
  rw [envelope]
  simp only [List.append_assoc]

/-- **What was encoded is decoded**, whatever stands behind it. -/
theorem decode_encode {id : NodeIdentity C} {rnd : StoreRandom}
    (h : encode A id passphrase rnd = some data) (rest : Bytes) :
    decode C A (data ++ rest) passphrase = some id := by
  obtain ⟨c, hc, hlen, rfl⟩ := encode_inv h
  exact decode_iff.mpr ⟨_, _, c, rest, by omega, rfl, A.aeadDecrypt_aeadEncrypt _ _ _ _ hc⟩

/-- **A file that was not written to its end** is no identity. -/
theorem decode_torn {id : NodeIdentity C} {rnd : StoreRandom}
    (h : encode A id passphrase rnd = some data) {k : Nat} (hk : k < data.length)
    (passphrase' : Bytes) : decode C A (data.take k) passphrase' = none := by
  obtain ⟨c, _, hlen, rfl⟩ := encode_inv h
  rw [length_envelope] at hk
  by_contra hsome
  obtain ⟨id', hid'⟩ := Option.ne_none_iff_exists'.mp hsome
  obtain ⟨salt, nonce, c', rest, _, hdata, _⟩ := decode_iff.mp hid'
  have hshort : ((envelope rnd.salt rnd.nonce c).take k).length = k := by
    rw [List.length_take, length_envelope]
    omega
  have hlong : k = 36 + c'.length + rest.length := by
    rw [← hshort, hdata, List.length_append, length_envelope]
  -- both have the same bytes 32 to 35, which say how long the ciphertext is
  have hwhole : envelope rnd.salt rnd.nonce c = envelope salt nonce c' ++
      (rest ++ (envelope rnd.salt rnd.nonce c).drop k) := by
    rw [← List.append_assoc, ← hdata, List.take_append_drop]
  obtain ⟨_, _, _, hnum, _, _⟩ := read_envelope rnd.salt rnd.nonce (c := c) (by omega) []
    (List.append_nil _).symm
  obtain ⟨_, _, _, hnum', _, _⟩ := read_envelope salt nonce (c := c') (by omega) _ hwhole
  omega

/-! ## 2. Starts of the program -/

/-- What a start finds and draws: whether the file can be read, the secret and the salt of a new
    identity, and how writing it ends. -/
structure Start (S : Type) where
  passphrase : Bytes
  readable : Bool
  secret : S
  store : StoreRandom
  write : WriteResult

/-- The file after `fs::write`. -/
def fileAfter (file : Option Bytes) (data : Bytes) : WriteResult → Option Bytes
  | .done => some data
  | .refused => file
  | .torn k => some (data.take k)

variable (C A)

def create (file : Option Bytes) (s : Start S) : Option (NodeIdentity C × Option Bytes) :=
  let id := generate C s.secret
  (encode A id s.passphrase s.store).map fun data => (id, fileAfter file data s.write)

def loadOrCreate (file : Option Bytes) (s : Start S) : Option (NodeIdentity C × Option Bytes) :=
  match if s.readable then file else none with
  | some data =>
      match decode C A data s.passphrase with
      | some id => some (id, file)
      | none => create C A file s
  | none => create C A file s

/-- The identity a passphrase finds in the file. -/
def held (passphrase : Bytes) (file : Option Bytes) : Option (NodeIdentity C) :=
  file.bind fun data => decode C A data passphrase

/-- A start over a cell instead of a file: what the cell holds is returned and stays, and a new
    identity comes into it as far as it was written. -/
def cellStart (cell : Option (NodeIdentity C)) (s : Start S) :
    NodeIdentity C × Option (NodeIdentity C) :=
  match if s.readable then cell else none with
  | some id => (id, cell)
  | none =>
      let id := generate C s.secret
      match s.write with
      | .done => (id, some id)
      | .refused => (id, cell)
      | .torn k => (id, if k < 84 then none else some id)

variable {C A} {file file' : Option Bytes} {s : Start S} {id : NodeIdentity C}

/-- The cell after a new identity was written. -/
theorem held_create (h : create C A file s = some (id, file')) :
    id = generate C s.secret ∧ held C A s.passphrase file' =
      match s.write with
      | .done => some id
      | .refused => held C A s.passphrase file
      | .torn k => if k < 84 then none else some id := by
  obtain ⟨data, hdata, he⟩ := Option.map_eq_some_iff.mp h
  cases he
  refine ⟨rfl, ?_⟩
  have hwhole := decode_encode hdata []
  rw [List.append_nil] at hwhole
  obtain ⟨c, _, hc, henv⟩ := encode_inv hdata
  have hlen : data.length = 84 := by rw [henv, length_envelope, hc]
  cases s.write with
  | done => exact hwhole
  | refused => rfl
  | torn k =>
      show decode C A (data.take k) s.passphrase = _
      dsimp only
      split
      · rename_i hk
        exact decode_torn hdata (hlen ▸ hk) s.passphrase
      · rename_i hk
        rw [List.take_of_length_le (by omega), hwhole]

/-- **A start does to the file what it does to the cell.** -/
theorem held_loadOrCreate (h : loadOrCreate C A file s = some (id, file')) :
    cellStart C (held C A s.passphrase file) s = (id, held C A s.passphrase file') := by
  have hcreate : create C A file s = some (id, file') →
      (if s.readable then held C A s.passphrase file else none) = none →
      cellStart C (held C A s.passphrase file) s = (id, held C A s.passphrase file') := by
    intro hc hnone
    obtain ⟨rfl, hheld⟩ := held_create hc
    rw [hheld, cellStart, hnone]
    cases s.write <;> rfl
  unfold loadOrCreate at h
  cases hread : s.readable with
  | false =>
      rw [hread] at h hcreate
      exact hcreate h rfl
  | true =>
      rw [hread, if_pos rfl] at h hcreate
      cases file with
      | none => exact hcreate h rfl
      | some data =>
          dsimp only at h
          cases hdec : decode C A data s.passphrase with
          | none =>
              rw [hdec] at h
              exact hcreate h hdec
          | some found =>
              rw [hdec] at h
              cases h
              have hheld : held C A s.passphrase (some data) = some id := hdec
              rw [cellStart, hread, if_pos rfl, hheld]

/-- Starts one after the other, and what they returned, the last one first. -/
def starts (C : Suite S P) (A : Cipher) :
    Machine (Option Bytes × List (Start S × NodeIdentity C)) (Start S) where
  step x s := (loadOrCreate C A x.1 s).map fun r => (r.2, (s, r.1) :: x.2)

def cellStarts (C : Suite S P) :
    Machine (Option (NodeIdentity C) × List (Start S × NodeIdentity C)) (Start S) where
  step x s := some ((cellStart C x.1 s).2, (s, (cellStart C x.1 s).1) :: x.2)

theorem starts_track (x : Option Bytes × List (Start S × NodeIdentity C)) (s : Start S)
    (x' : Option Bytes × List (Start S × NodeIdentity C))
    (y : Option (NodeIdentity C) × List (Start S × NodeIdentity C))
    (hy : y = (held C A passphrase x.1, x.2)) (hpass : s.passphrase = passphrase)
    (hs : (starts C A).step x s = some x') :
    ∃ y', (cellStarts C).step y s = some y' ∧ y' = (held C A passphrase x'.1, x'.2) := by
  obtain ⟨⟨id, file⟩, hload, rfl⟩ := Option.map_eq_some_iff.mp hs
  have hcell := held_loadOrCreate hload
  rw [hpass] at hcell
  refine ⟨_, rfl, ?_⟩
  rw [hy]
  dsimp only
  rw [hcell]

/-- A start that can read the file returns the identity of the start before it, if that one wrote
    what it had to. -/
def Continues : List (Start S × NodeIdentity C) → Prop
  | [] => True
  | [_] => True
  | later :: earlier :: rest =>
      (later.1.readable = true → earlier.1.write = .done → later.2 = earlier.2) ∧
        Continues (earlier :: rest)

/-- What holds of cell and records along a run: the last start, if it wrote what it had to, left
    its identity in the cell. -/
structure CellInv (x : Option (NodeIdentity C) × List (Start S × NodeIdentity C)) : Prop where
  last : ∀ r ∈ x.2.head?, r.1.write = .done → x.1 = some r.2
  continues : Continues x.2

theorem cellInv_step {x x' : Option (NodeIdentity C) × List (Start S × NodeIdentity C)}
    (h : CellInv x) (hs : (cellStarts C).step x s = some x') : CellInv x' := by
  cases hs
  have hlast : s.write = .done → (cellStart C x.1 s).2 = some (cellStart C x.1 s).1 := by
    intro hdone
    unfold cellStart
    split
    · rename_i id hid
      split at hid
      · exact hid
      · cases hid
    · rw [hdone]
  refine ⟨fun r hr => ?_, ?_⟩
  · cases hr
    exact hlast
  · have hold := h.continues
    have hhead := h.last
    cases hrecords : x.2 with
    | nil => trivial
    | cons earlier rest =>
        rw [hrecords] at hold hhead
        refine ⟨fun hread hdone => ?_, hold⟩
        have hcell := hhead earlier rfl hdone
        show (cellStart C x.1 s).1 = earlier.2
        rw [hcell, cellStart, if_pos hread]

/-- **What the identity file does over any run of starts** under one passphrase: it is a cell that
    holds an identity or none, whatever is drawn and however reading and writing end; and a start
    that can read it returns the identity of the start before it, if that one wrote to the end. -/
theorem identity_kept {ss : List (Start S)} {records : List (Start S × NodeIdentity C)}
    (hpass : ∀ s ∈ ss, s.passphrase = passphrase)
    (hr : (starts C A).run (file, []) ss = some (file', records)) :
    (cellStarts C).run (held C A passphrase file, []) ss =
        some (held C A passphrase file', records) ∧
      Continues records := by
  have hcells : (cellStarts C).run (held C A passphrase file, []) ss =
      some (held C A passphrase file', records) := by
    obtain ⟨y, hy, rfl⟩ := (starts C A).run_tracks (N := cellStarts C)
      (R := fun x y => y = (held C A passphrase x.1, x.2))
      (C := fun _ s => s.passphrase = passphrase) starts_track rfl
      ((starts C A).allSteps_of_forall ss _ fun s hs _ => hpass s hs) hr
    exact hy
  have hstart : CellInv (held C A passphrase file, ([] : List (Start S × NodeIdentity C))) :=
    ⟨fun r hr => (nomatch hr), trivial⟩
  exact ⟨hcells, ((cellStarts C).run_invariant (fun _ _ _ h hs => cellInv_step h hs) ss _ _ hstart
    hcells).continues⟩

/-- A start over an empty file, one over what it wrote, and one that cannot read it. -/
def sampleStarts : List (Start SampleScalar) :=
  [⟨Wallet.samplePassphrase, true, 5, ⟨leArr 16 1, leArr 12 2⟩, .done⟩,
    ⟨Wallet.samplePassphrase, true, 6, ⟨leArr 16 3, leArr 12 4⟩, .done⟩,
    ⟨Wallet.samplePassphrase, false, 7, ⟨leArr 16 5, leArr 12 6⟩, .torn 50⟩]

theorem identity_kept_twice :
    ∃ (file : Option Bytes) (records : List (Start SampleScalar × NodeIdentity sampleSuite)),
      (starts sampleSuite Wallet.sampleCipher).run (none, []) sampleStarts =
        some (file, records) ∧ records.map (·.2.secret) = [7, 5, 5] ∧
      held sampleSuite Wallet.sampleCipher Wallet.samplePassphrase file = none ∧
      Continues records := by
  have hrun : ((starts sampleSuite Wallet.sampleCipher).run (none, []) sampleStarts).isSome =
      true := by
    decide +kernel
  obtain ⟨⟨file, records⟩, hr⟩ := Option.isSome_iff_exists.mp hrun
  have hpass : ∀ s ∈ sampleStarts, s.passphrase = Wallet.samplePassphrase := by
    simp [sampleStarts]
  obtain ⟨hcells, hcontinues⟩ := identity_kept hpass hr
  have hcell : ((cellStarts sampleSuite).run (none, []) sampleStarts).map (fun x =>
      (x.1, x.2.map (·.2.secret))) = some (none, [7, 5, 5]) := rfl
  have hrun' : (cellStarts sampleSuite).run (none, []) sampleStarts =
      some (held sampleSuite Wallet.sampleCipher Wallet.samplePassphrase file, records) := hcells
  rw [hrun'] at hcell
  obtain ⟨hheld, hsecrets⟩ := Prod.mk.inj (Option.some.inj hcell)
  exact ⟨file, records, hr, hsecrets, hheld, hcontinues⟩

end NodeIdentity

end Specter
