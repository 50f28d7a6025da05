/-
  File:      Specter/Core/Setup.lean
  Subject:   SETTING UP A MINT (`Mint::setup`, `Mint::setup_with_dkg` of specter-core/src/mint.rs).

  A mint gets its keyset from a dealer, or from a run of the key generation whose participants'
  shares are merged into one keyset. Either way the keyset is sound.

  * `Mint.SetUp` -- the mints the two functions return;
  * `Mint.Sound` -- what they have in common; `Mint.SetUp.sound`.
-/
import Specter.BlindSig.Dkg
import Specter.Core.Mint

namespace Specter

open Lib

variable {S P : Type} [Field S] [AddCommGroup P] [Module S P]

/-- The two counts are `usize`. -/
structure MintConfig where
  threshold : UInt64
  totalSigners : UInt64
  recursionBound : UInt32

namespace Mint

/-- The mint around a keyset. -/
def withKeyset (C : Suite S P) (config : MintConfig) (keyset : ThresholdKeyset S P)
    (issuerSecret : S) : Mint S P where
  keyset := keyset
  pedersen := .new C
  credentialIssuer := .new C issuerSecret
  recursionBound := config.recursionBound

/-- `Mint::setup`; `none` where the dealer panics. -/
def setup (C : Suite S P) (config : MintConfig) (dealer : Threshold.DealerRandom S)
    (issuerSecret : S) : Option (Mint S P) := do
  let keyset ← Threshold.dealerKeygen C config.threshold.toNat config.totalSigners.toNat dealer
  some (withKeyset C config keyset issuerSecret)

/-- The participants' own shares put into `combined`, as the loop over the keysets does. -/
def mergeShares (keysets : Keyed SignerId (ThresholdKeyset S P))
    (combined : ThresholdKeyset S P) : ThresholdKeyset S P :=
  { combined with
    shares := keysets.pairs.foldl
      (fun shares p => match p.2.shares p.1 with
        | none => shares
        | some share => fun id => if id = p.1 then some share else shares id)
      combined.shares }

/-- The signers `1, …, n`. -/
def signerIds (n : Nat) : List SignerId := (List.range n).map fun i => UInt64.ofNat (i + 1)

/-- `Mint::setup_with_dkg`; `none` where the key generation fails (`expect`). -/
def setupWithDkg (C : Suite S P) (config : MintConfig) (rnd : Nat → Round1Random S)
    (issuerSecret : S) : Option (Mint S P) := do
  match ← (Dkg.runDkg C config.threshold.toNat (signerIds config.totalSigners.toNat) rnd).run with
  | .error _ => none
  | .ok keysets =>
      let first ← AList.lookup 1 keysets
      some (withKeyset C config (mergeShares keysets first) issuerSecret)

/-- A mint that was set up, by a dealer or by a run of the key generation. -/
def SetUp (C : Suite S P) (mint : Mint S P) : Prop :=
  (∃ config dealer issuerSecret, setup C config dealer issuerSecret = some mint) ∨
    ∃ config rnd issuerSecret, setupWithDkg C config rnd issuerSecret = some mint

/-- The keyset shares a polynomial and the issuer's key belongs to its secret. -/
structure Sound (C : Suite S P) (mint : Mint S P) : Prop where
  keyset : ∃ f, Threshold.Sound C mint.keyset f
  issuer : mint.credentialIssuer.pub = mint.credentialIssuer.secret • C.G

variable {C : Suite S P} {mint : Mint S P}

theorem signerIds_nodup {n : Nat} (hn : n < 2 ^ 64) : (signerIds n).Nodup := by
  refine List.Nodup.map_on (fun i hi j hj h => ?_) List.nodup_range
  have hi' := List.mem_range.mp hi
  have hj' := List.mem_range.mp hj
  have h' := congrArg UInt64.toNat h
  rw [UInt64.toNat_ofNat', UInt64.toNat_ofNat', Nat.mod_eq_of_lt (by omega),
    Nat.mod_eq_of_lt (by omega)] at h'
  omega

/-- Merging the keysets of a group gives every one of `ids` its share. -/
theorem foldl_shares {t : Nat} {all : List SignerId} {f : Polynomial S} (ids : List SignerId) :
    ∀ shares : SignerId → Option (Share S),
    (Keyed.table ids (Dkg.keysetOn C t all f)).foldl
      (fun shares p => match p.2.shares p.1 with
        | none => shares
        | some share => fun id => if id = p.1 then some share else shares id) shares =
      fun id => if id ∈ ids then some (Threshold.shareOn f id) else shares id := by
  induction ids with
  | nil =>
      intro shares
      simp [Keyed.table]
  | cons j ids ih =>
      intro shares
      have hown : (Dkg.keysetOn C t all f j).shares j = some (Threshold.shareOn f j) := if_pos rfl
      show ((Keyed.table ids (Dkg.keysetOn C t all f)).foldl _
        (match (Dkg.keysetOn C t all f j).shares j with
          | none => shares
          | some share => fun id => if id = j then some share else shares id)) = _
      rw [hown, ih]
      funext id
      by_cases hid : id ∈ ids
      · simp [hid]
      · by_cases hj : id = j
        · simp [hj]
        · simp [hid, hj]

/-- The merged keyset of a group that shares `f` is sound. -/
theorem mergeShares_sound {t : Nat} {ids : List SignerId} {f : Polynomial S} (hnd : ids.Nodup)
    (hdeg : f.degree < t) {first : ThresholdKeyset S P}
    (hfirst : AList.lookup 1 (Keyed.ofPairs (Keyed.table ids.reverse
      (Dkg.keysetOn C t ids f))) = some first) :
    Threshold.Sound C (mergeShares (Keyed.ofPairs (Keyed.table ids.reverse
      (Dkg.keysetOn C t ids f))) first) f := by
  have hpairs := Keyed.pairs_table (List.nodup_reverse.mpr hnd) (Dkg.keysetOn C t ids f)
  rw [List.reverse_reverse] at hpairs
  rw [← Keyed.mem_pairs, hpairs] at hfirst
  obtain ⟨j, _, hj⟩ := List.mem_map.mp hfirst
  cases hj
  refine Threshold.sound_of_shareOn hdeg rfl fun id s hs => ?_
  unfold mergeShares at hs
  rw [hpairs, foldl_shares] at hs
  dsimp only at hs
  split at hs
  · exact (Option.some.inj hs).symm
  · -- the first keyset holds its own share only
    change (if id = 1 then some (Threshold.shareOn f 1) else none) = some s at hs
    split at hs
    · rename_i hid
      rw [hid]
      exact (Option.some.inj hs).symm
    · cases hs

theorem setup_sound {config : MintConfig} {dealer : Threshold.DealerRandom S} {issuerSecret : S}
    (h : setup C config dealer issuerSecret = some mint) : Sound C mint := by
  obtain ⟨keyset, hkey, h⟩ := Option.bind_eq_some_iff.mp h
  cases h
  exact ⟨⟨_, Threshold.dealerKeygen_sound hkey⟩, rfl⟩

theorem setupWithDkg_sound {config : MintConfig} {rnd : Nat → Round1Random S} {issuerSecret : S}
    (h : setupWithDkg C config rnd issuerSecret = some mint) : Sound C mint := by
  have hnd : (signerIds config.totalSigners.toNat).Nodup :=
    signerIds_nodup config.totalSigners.toNat_lt
  unfold setupWithDkg at h
  by_cases hparams : 1 ≤ config.threshold.toNat ∧
      config.threshold.toNat ≤ (signerIds config.totalSigners.toNat).length
  · rw [Dkg.runDkg_ok hparams.1 hparams.2 hnd] at h
    obtain ⟨first, hfirst, h⟩ := Option.bind_eq_some_iff.mp h
    cases hfirst
    obtain ⟨first, hfirst, h⟩ := Option.bind_eq_some_iff.mp h
    cases h
    refine ⟨⟨_, mergeShares_sound hnd Dkg.degree_groupPoly_lt hfirst⟩, rfl⟩
  · rw [Dkg.runDkg_invalid hparams] at h
    cases h

/-- The mint has the bound it was configured with. -/
theorem setupWithDkg_recursionBound {config : MintConfig} {rnd : Nat → Round1Random S}
    {issuerSecret : S} (h : setupWithDkg C config rnd issuerSecret = some mint) :
    mint.recursionBound = config.recursionBound := by
  obtain ⟨keysets, _, h⟩ := Option.bind_eq_some_iff.mp h
  cases keysets with
  | error e => cases h
  | ok keysets =>
      obtain ⟨first, _, h⟩ := Option.bind_eq_some_iff.mp h
      cases h
      rfl

/-- **A mint that was set up is sound.** -/
theorem SetUp.sound (h : SetUp C mint) : Sound C mint := by
  rcases h with ⟨config, dealer, secret, h⟩ | ⟨config, rnd, secret, h⟩
  · exact setup_sound h
  · exact setupWithDkg_sound h

end Mint

end Specter
