import Ivnp.Destination.ImportedSigning
import Ivnp.Destination.PrivateText

/-!
Which destinations survive their text. Every destination that the commands make has a private
state behind it; its text is made of the parts of that state, and decoding puts the parts
together again. It refuses a Red25519 key with an ElGamal identity, and it takes a long-term key
of zeros for an offline one.
-/

namespace Ivnp.Destination

open Ivnp.Lib Ivnp.Foundation Ivnp.NetDb List Option FixedBytes PrivateState

theorem cryptoX25519_ne_elGamal : cryptoX25519 ≠ cryptoElGamal := by decide

def legacyCertificate (signingType : SigningKeyType) : Bytes :=
  [5] ++ natBE 2 4 ++ natBE 2 signingType.code.toNat ++ natBE 2 cryptoElGamal.toNat

theorem parseIdentity_newIdentity {signingType : SigningKeyType}
    (hkind : signingType = .edDSASHA512Ed25519 ∨ signingType = .redDSASHA512Ed25519)
    (cryptoPublic : FixedBytes 256) (signingPublic : FixedBytes 32) (padding : FixedBytes 384) :
    let raw := newIdentity cryptoElGamal signingType cryptoPublic.val signingPublic padding
    parseIdentity raw = .ok (⟨raw, signingType, signingPublic.val, []⟩, 391) ∧ raw.length = 391 ∧
      raw.take 256 = cryptoPublic.val ∧ raw.drop 384 = legacyCertificate signingType := by
  intro raw
  obtain ⟨keys, hkeys⟩ : ∃ keys, cryptoPublic.val ++
      (padding.val.drop cryptoPublic.val.length).take (352 - cryptoPublic.val.length) = keys :=
    ⟨_, rfl⟩
  have hkeysLength : keys.length = 352 := by
    rw [← hkeys, length_append, length_take, length_drop, padding.property, cryptoPublic.property]
    rfl
  have hraw : raw = keys ++ (signingPublic.val ++ legacyCertificate signingType) := by
    simp only [raw, newIdentity, hkeys, legacyCertificate, append_assoc]
  have hlength : raw.length = 391 := by
    rw [hraw]
    simp only [length_append, hkeysLength, signingPublic.property, legacyCertificate,
      length_cons, length_nil, natBE_length]
  have hcertificate : raw.drop 384 = legacyCertificate signingType := by
    rw [hraw, drop_skip hkeysLength _ _ (by decide)]
    exact drop_left' signingPublic.property
  have hsigning : (raw.drop 352).take 32 = signingPublic.val := by
    rw [hraw, drop_skip hkeysLength _ _ (by decide)]
    exact take_left' signingPublic.property
  have hcrypto : raw.take 256 = cryptoPublic.val := by
    simp only [raw, newIdentity, append_assoc]
    exact take_left' cryptoPublic.property
  refine ⟨?_, hlength, hcrypto, hcertificate⟩
  have hparse : parseCertificate (legacyCertificate signingType) =
      .ok (⟨.key, natBE 2 signingType.code.toNat ++ natBE 2 cryptoElGamal.toNat⟩, 7) := by
    rcases hkind with rfl | rfl <;> rfl
  have hall := take_of_length_le hlength.le
  have hsigningType : SigningKeyType.ofCode (uint16At (natBE 2 signingType.code.toNat ++
      natBE 2 cryptoElGamal.toNat) 0) = some signingType := by
    rcases hkind with rfl | rfl <;> rfl
  have hpublicLen : signingType.publicKeyLen = 32 := by rcases hkind with rfl | rfl <;> rfl
  unfold parseIdentity
  rw [hlength, identityBaseLength, hcertificate, hparse]
  change parseKeyCertificate raw _ 391 = _
  unfold parseKeyCertificate
  rw [hsigningType]
  dsimp only
  rw [hpublicLen, hall]
  change Except.ok (Identity.mk raw signingType ((raw.drop 352).take 32) [], 391) = _
  rw [hsigning]

theorem cryptoKeyType_of_certificate {signingType : SigningKeyType} {identity : Identity}
    (h : identity.raw.drop 384 = legacyCertificate signingType) :
    cryptoKeyType identity = cryptoElGamal := by
  have hkey : identity.raw.getD identityBaseLength 0 = 5 := getD_of_drop h
  have hword : uint16At identity.raw (identityBaseLength + certificateHeader + 2) =
      uint16At (legacyCertificate signingType) 5 := by
    rw [← h]
    unfold uint16At
    rw [drop_drop]
    rfl
  rw [cryptoKeyType, hkey, hword]
  rfl

/-- No key of a supported type is longer than its place in the identity. -/
theorem cryptoKeyParts_rest (identity : Identity) : (cryptoKeyParts identity).2 = [] := by
  have hexcess : (cryptoPublicKeyLen (cryptoKeyType identity)).getD 0 - 256 = 0 := by
    cases hlength : cryptoPublicKeyLen (cryptoKeyType identity) with
    | none => rfl
    | some length => exact Nat.sub_eq_zero_of_le (cryptoPublicKeyLen_le hlength)
  unfold cryptoKeyParts
  dsimp only
  rw [hexcess, take_zero]

theorem cryptoKeyParts_elGamal {identity : Identity} (h : cryptoKeyType identity = cryptoElGamal) :
    (cryptoKeyParts identity).1 = identity.raw.take 256 := by
  unfold cryptoKeyParts
  rw [h]
  rfl

variable {length : Nat}

section Sound

variable {crypto : DestinationCrypto}

structure Sound (crypto : DestinationCrypto) (d : LocalDestination) (state : PrivateState) :
    Prop where
  wellFormed : state.WellFormed
  raw : parseIdentity state.identity.raw = .ok (state.identity, state.identity.raw.length)
  text : state.text = encodeI2PBase64 state.identity.raw
  build : state.build crypto d.offline = some d
  seed : d.offline = none → state.identity.signingType = .edDSASHA512Ed25519 →
    state.signing = (crypto.newKeyFromSeed (FixedBytes.copy 32 state.signing)).val
  offline : ∀ offline, d.offline = some offline →
    parseOfflineSigning crypto state.identity offline = some offline

theorem publicKeyLen_of_statePrivateLen {signingType : SigningKeyType}
    (h : statePrivateLen signingType = some length) : signingType.publicKeyLen = 32 := by
  unfold statePrivateLen at h
  split at h
  · rfl
  · rfl
  · cases h

theorem wellFormed_of_parts {state : PrivateState}
    (hraw : parseIdentity state.identity.raw = .ok (state.identity, state.identity.raw.length))
    (htext : state.text = encodeI2PBase64 state.identity.raw)
    (hcrypto : cryptoKeyType state.identity = cryptoX25519 ∨
      cryptoKeyType state.identity = cryptoElGamal)
    (hsigning : statePrivateLen state.identity.signingType = some state.signing.length)
    (helgamal : state.elgamal.length = stateElGamalLen (cryptoKeyType state.identity)) :
    state.WellFormed := by
  obtain ⟨hlength, -⟩ := parseIdentity_short hraw (publicKeyLen_of_statePrivateLen hsigning)
  have htextLength : state.text.length = 524 := by
    rw [htext, encodeI2PBase64, Base64.length_encode, hlength]
  refine ⟨?_, by omega, ?_, hcrypto, hsigning, helgamal⟩
  · apply ne_nil_of_length_pos
    omega
  · rw [parseDestination, htext, decodeI2PBase64_encode]
    dsimp only
    rw [hraw]
    dsimp only
    rw [if_neg (not_not.mpr rfl)]

theorem sound_of_generated {signingType : SigningKeyType} {signingPublic : FixedBytes 32}
    {signingPrivate : Bytes} {random : LegacyRandom} {d : LocalDestination}
    (hlength : statePrivateLen signingType = some signingPrivate.length)
    (hpublic : signingType = .edDSASHA512Ed25519 ∧
        (∃ seed, signingPrivate = (crypto.newKeyFromSeed seed).val ∧
          signingPublic = crypto.ed25519Public seed) ∨
      signingType = .redDSASHA512Ed25519 ∧
        crypto.red25519Public signingPrivate = some signingPublic)
    (h : generateLegacyLocalDestination crypto signingType signingPublic signingPrivate random =
      some d) : ∃ state, Sound crypto d state := by
  have hkind := hpublic.imp And.left And.left
  unfold generateLegacyLocalDestination at h
  split at h
  · cases h
  split at h
  · cases h
  next encryptionPublic hencryption =>
  obtain ⟨hparse, hrawLength, htake, hdrop⟩ := parseIdentity_newIdentity hkind _ _ random.padding
  obtain ⟨raw, hraw⟩ : ∃ raw, newIdentity cryptoElGamal signingType encryptionPublic.val
    signingPublic random.padding = raw := ⟨_, rfl⟩
  rw [hraw] at h hparse hrawLength htake hdrop
  have hcrypto : cryptoKeyType ⟨raw, signingType, signingPublic.val, []⟩ = cryptoElGamal :=
    cryptoKeyType_of_certificate hdrop
  unfold finishDestination at h
  rw [hparse] at h
  dsimp only at h
  split at h
  · cases h
  cases h
  refine ⟨⟨encodeI2PBase64 raw, ⟨raw, signingType, signingPublic.val, []⟩, signingPrivate,
    random.x25519, random.elgamal.val⟩, ?_, ?_, rfl, ?_, ?_, nofun⟩
  · refine wellFormed_of_parts ?_ rfl (.inr hcrypto) hlength ?_
    · rw [hparse, hrawLength]
    · rw [hcrypto]
      exact random.elgamal.property
  · rw [hparse, hrawLength]
  · have hsigning : PrivateState.signingPublic crypto ⟨encodeI2PBase64 raw,
        ⟨raw, signingType, signingPublic.val, []⟩, signingPrivate, random.x25519,
        random.elgamal.val⟩ none = some signingPublic.val := by
      unfold PrivateState.signingPublic
      rcases hpublic with ⟨rfl, seed, rfl, rfl⟩ | ⟨rfl, hderived⟩
      · have hcopy : (crypto.newKeyFromSeed seed).val.drop 32 = (crypto.ed25519Public seed).val :=
          drop_left' seed.property
        dsimp only
        rw [hcopy, if_pos ⟨rfl, rfl⟩]
      · dsimp only
        rw [hderived, map_some, if_pos ⟨rfl, rfl⟩]
    have hencrypts : PrivateState.encrypts crypto ⟨encodeI2PBase64 raw,
        ⟨raw, signingType, signingPublic.val, []⟩, signingPrivate, random.x25519,
        random.elgamal.val⟩ = true := by
      unfold PrivateState.encrypts
      dsimp only
      rw [hcrypto, cryptoKeyParts_rest, cryptoKeyParts_elGamal hcrypto,
        copy_val, hencryption, htake]
      exact decide_eq_true ⟨rfl, rfl⟩
    unfold PrivateState.build
    rw [hsigning, hencrypts]
    rw [hcrypto, copy_val]
    rfl
  · intro _ hed
    rcases hpublic with ⟨-, seed, rfl, -⟩ | ⟨hred, -⟩
    · have hcopy : copy 32 (crypto.newKeyFromSeed seed).val = seed :=
        copy_append _ _
      rw [hcopy]
    · rw [hred] at hed
      cases hed

end Sound

section Rebuild

variable {crypto : DestinationCrypto}

theorem parseOfflineSigning_eq_some {identity : Identity} {offline signing : OfflineSigning}
    (h : parseOfflineSigning crypto identity offline = some signing) : signing = offline := by
  unfold parseOfflineSigning at h
  split at h
  · cases h
  split at h
  · cases h
  split at h
  · cases h
  split at h
  · cases h
  split at h
  · cases h
  · exact (some.inj h).symm

theorem PrivateState.WellFormed.importOffline {state : PrivateState} (h : state.WellFormed)
    (offline : OfflineSigning) :
    importLocalDestinationOffline crypto (state.bytes ++ [localDestinationCryptoCapabilities])
        offline =
      (parseOfflineSigning crypto state.identity offline).bind fun signing =>
        state.build crypto (some signing) := by
  have hslices := slices h.short [localDestinationCryptoCapabilities]
  have hpos := length_pos_of_ne_nil h.nonempty
  unfold importLocalDestinationOffline importLocalDestination
  rw [hslices.word, hslices.length, if_neg (by omega), if_neg (by omega), hslices.text, h.identity,
    h.parse (.inr rfl)]
  dsimp only
  cases parseOfflineSigning crypto state.identity offline <;> rfl

def rebuiltState (identity : Identity) (encryption privateKey : Bytes) (fresh : FixedBytes 32) :
    PrivateState where
  text := encodeI2PBase64 identity.raw
  identity := identity
  signing := privateKey
  x25519 := if cryptoKeyType identity = cryptoElGamal then fresh else FixedBytes.copy 32 encryption
  elgamal := if cryptoKeyType identity = cryptoElGamal then encryption else []

variable {offline : Bool} {privateKey : Bytes}

theorem stateSigningKey_length {identity : Identity} {signing : Bytes}
    (hsigning : signing.length = 32)
    (h : stateSigningKey crypto identity signing offline = some privateKey) :
    statePrivateLen identity.signingType = some privateKey.length := by
  unfold stateSigningKey at h
  split at h
  next hkind =>
    rw [hkind, ← some.inj h]
    cases offline with
    | true => rfl
    | false => exact congrArg some (length_val _).symm
  next hkind =>
    split at h
    · cases h
    rw [hkind, ← some.inj h]
    cases offline with
    | true => rfl
    | false => exact congrArg some hsigning.symm
  · cases h

section Parts

variable {identity : Identity} {encryption signing : Bytes}
  (hraw : parseIdentity identity.raw = .ok (identity, identity.raw.length))
  (hcrypto : cryptoKeyType identity = cryptoX25519 ∨ cryptoKeyType identity = cryptoElGamal)
  (hencryption : encryption.length = encryptionLen identity) (hsigning : signing.length = 32)
include hraw hcrypto hencryption hsigning

theorem wellFormed_rebuiltState (fresh : FixedBytes 32)
    (hkey : stateSigningKey crypto identity signing offline = some privateKey) :
    (rebuiltState identity encryption privateKey fresh).WellFormed := by
  refine wellFormed_of_parts hraw rfl hcrypto (stateSigningKey_length hsigning hkey) ?_
  unfold encryptionLen at hencryption
  unfold rebuiltState stateElGamalLen
  split
  next hlegacy =>
    rw [if_pos hlegacy] at hencryption
    exact hencryption
  · rfl

theorem rebuildDestination_eq (offlineSection : Bytes) (fresh : FixedBytes 32) :
    rebuildDestination crypto identity encryption signing offlineSection fresh =
      (signingPart identity signing offlineSection).bind fun offline =>
        (stateSigningKey crypto identity signing offline.isSome).bind fun privateKey =>
          match offline with
          | some offline => (parseOfflineSigning crypto identity offline).bind fun transient =>
            (rebuiltState identity encryption privateKey fresh).build crypto (some transient)
          | none => (rebuiltState identity encryption privateKey fresh).build crypto none := by
  unfold rebuildDestination
  cases signingPart identity signing offlineSection with
  | none => rfl
  | some offline =>
    dsimp only [bind_some]
    cases hkey : stateSigningKey crypto identity signing offline.isSome with
    | none => rfl
    | some privateKey =>
      have hstate := wellFormed_rebuiltState hraw hcrypto hencryption hsigning fresh hkey
      have hbytes : natBE 2 (encodeI2PBase64 identity.raw).length ++
          (encodeI2PBase64 identity.raw ++ (privateKey ++
            ((if cryptoKeyType identity = cryptoElGamal then fresh.val else encryption) ++
              if cryptoKeyType identity = cryptoElGamal then encryption else []))) ++ [7] =
          (rebuiltState identity encryption privateKey fresh).bytes ++
            [localDestinationCryptoCapabilities] := by
        unfold encryptionLen at hencryption
        unfold bytes rebuiltState
        split
        · rfl
        next hother =>
        rw [if_neg hother] at hencryption
        rw [copy_val_of_le hencryption.ge, take_of_length_le hencryption.le]
        rfl
      dsimp only [bind_some]
      rw [hbytes]
      cases offline with
      | none => rw [importLocalDestination, hstate.parse (.inr rfl)]
      | some offline =>
        dsimp only
        rw [hstate.importOffline]
        rfl

theorem decodePrivateDestination_parts (offlineSection : Bytes) (fresh : FixedBytes 32) :
    decodePrivateDestination crypto
        (encodeI2PBase64 (identity.raw ++ (encryption ++ (signing ++ offlineSection)))) fresh =
      rebuildDestination crypto identity encryption signing offlineSection fresh := by
  have hafterIdentity : (identity.raw ++ (encryption ++ (signing ++ offlineSection))).drop
      identity.raw.length = encryption ++ (signing ++ offlineSection) := drop_left
  have hafterEncryption := congrArg (drop (encryptionLen identity)) hafterIdentity
  rw [drop_drop, drop_left' hencryption] at hafterEncryption
  have hafterSigning := congrArg (drop 32) hafterEncryption
  rw [drop_drop, drop_left' hsigning] at hafterSigning
  unfold decodePrivateDestination
  rw [decodeI2PBase64_encode]
  dsimp only
  rw [parseIdentity_append hraw]
  dsimp only
  rw [if_neg (by rintro ⟨h4, h0⟩; exact hcrypto.elim h4 h0), if_neg,
    hafterSigning, hafterEncryption, hafterIdentity, take_left' hencryption,
    take_left' hsigning]
  simp only [length_append, hencryption, hsigning]
  omega

end Parts

theorem sound_of_decoded {text : Bytes} {fresh : FixedBytes 32} {d : LocalDestination}
    (h : decodePrivateDestination crypto text fresh = some d) : ∃ state, Sound crypto d state := by
  unfold decodePrivateDestination at h
  split at h
  · cases h
  next wire hwire =>
  split at h
  · cases h
  next identity consumed hparse =>
  dsimp only at h
  split at h
  · cases h
  next htype =>
  split at h
  · cases h
  next hlong =>
  have hcrypto : cryptoKeyType identity = cryptoX25519 ∨ cryptoKeyType identity = cryptoElGamal := by
    by_contra hneither
    exact htype (not_or.mp hneither)
  obtain ⟨-, hconsumed, -⟩ := parseIdentity_exact hparse
  have hraw : parseIdentity identity.raw = .ok (identity, identity.raw.length) := by
    rw [hconsumed]
    exact parseIdentity_raw hparse
  have hencryption : ((wire.drop consumed).take (encryptionLen identity)).length =
      encryptionLen identity := by
    rw [length_take, length_drop]
    omega
  have hsigning : ((wire.drop (consumed + encryptionLen identity)).take 32).length = 32 := by
    rw [length_take, length_drop]
    omega
  rw [rebuildDestination_eq hraw hcrypto hencryption hsigning] at h
  obtain ⟨offline, -, h⟩ := bind_eq_some_iff.mp h
  obtain ⟨privateKey, hkey, h⟩ := bind_eq_some_iff.mp h
  have hstate := wellFormed_rebuiltState hraw hcrypto hencryption hsigning fresh hkey
  cases offline with
  | none =>
    have hnone : d.offline = none := by
      obtain ⟨_, -, -, rfl⟩ := build_eq_some _ h
      rfl
    refine ⟨_, hstate, hraw, rfl, by rw [hnone]; exact h, ?_, ?_⟩
    · intro _ hed
      change privateKey = (crypto.newKeyFromSeed (copy 32 privateKey)).val
      change identity.signingType = _ at hed
      unfold stateSigningKey at hkey
      rw [hed] at hkey
      have hsame := (some.inj hkey).symm
      rw [if_neg (by decide)] at hsame
      rw [hsame, DestinationCrypto.newKeyFromSeed_val, copy_append]
      rfl
    · intro other hother
      rw [hnone] at hother
      cases hother
  | some offline =>
    obtain ⟨transient, htransient, h⟩ := bind_eq_some_iff.mp h
    have hsome : d.offline = some transient := by
      obtain ⟨_, -, -, rfl⟩ := build_eq_some _ h
      rfl
    refine ⟨_, hstate, hraw, rfl, by rw [hsome]; exact h, ?_, ?_⟩
    · intro hnone
      rw [hnone] at hsome
      cases hsome
    · intro other hother
      rw [hsome] at hother
      rw [← some.inj hother]
      rw [← parseOfflineSigning_eq_some htransient] at htransient
      exact htransient

theorem Produced.sound {d : LocalDestination} (h : Produced crypto d) :
    ∃ state, Sound crypto d state := by
  have hlegacy {seed : FixedBytes 32} {random : LegacyRandom}
      (hgenerate : generateLegacyDestination crypto seed random = some d) :
      ∃ state, Sound crypto d state := by
    refine sound_of_generated ?_ (.inl ⟨rfl, seed, rfl, rfl⟩) hgenerate
    exact congrArg some (length_val _).symm
  have hencrypted {uniform : FixedBytes 64} {random : LegacyRandom}
      (hgenerate : generateEncryptedDestination crypto uniform random = some d) :
      ∃ state, Sound crypto d state := by
    refine sound_of_generated ?_ (.inr ⟨rfl, ?_⟩) hgenerate
    · exact congrArg some (length_val _).symm
    · rw [DestinationCrypto.red25519Public, Scalar.setCanonicalBytes_bytes, map_some]
  cases h with
  | @generated signatureType random _ h =>
    unfold destGenerate at h
    split at h
    · exact hlegacy h
    · exact hlegacy h
    · exact hencrypted h
    · cases h
  | @created options random _ h =>
    unfold createSession at h
    split at h
    · split at h
      · split at h
        · exact hencrypted h
        · exact hlegacy h
      · cases h
    next text htext =>
      split at h
      · cases h
      split at h
      · cases h
      next decoded hdecoded =>
      split at h
      · cases h
      · exact sound_of_decoded (some.inj h ▸ hdecoded)

end Rebuild

section RoundTrip

variable {crypto : DestinationCrypto}

def PrivateState.encryptionText (state : PrivateState) : Bytes :=
  if cryptoKeyType state.identity = cryptoElGamal then state.elgamal else state.x25519.val

/-- The X25519 key after decoding: drawn anew for an ElGamal identity. -/
def PrivateState.rebuiltX25519 (state : PrivateState) (fresh : FixedBytes 32) : FixedBytes 32 :=
  if cryptoKeyType state.identity = cryptoElGamal then fresh else state.x25519

def signingText (d : LocalDestination) : Bytes × Bytes :=
  match d.offline with
  | some offline => (List.replicate 32 0, offline.bytes)
  | none => (d.signingPrivate.take 32, [])

section Parts

variable {d : LocalDestination} {state : PrivateState} (h : Sound crypto d state)
include h

theorem Sound.signingPrivate : d.signingPrivate = state.signing := by
  obtain ⟨_, -, -, heq⟩ := build_eq_some _ h.build
  rw [heq]

theorem Sound.signing_length : 32 ≤ state.signing.length := by
  have hlength := h.wellFormed.signing
  unfold statePrivateLen at hlength
  split at hlength
  · have hsame := some.inj hlength
    omega
  · have hsame := some.inj hlength
    omega
  · cases hlength

theorem Sound.encryptionText_length :
    state.encryptionText.length = encryptionLen state.identity := by
  have helgamal := h.wellFormed.elgamal
  unfold encryptionText encryptionLen
  unfold stateElGamalLen at helgamal
  split
  next hlegacy =>
    rw [if_pos hlegacy] at helgamal
    exact helgamal
  · exact state.x25519.property

theorem Sound.signingText_length : (signingText d).1.length = 32 := by
  unfold signingText
  cases d.offline with
  | some offline => rfl
  | none =>
    rw [h.signingPrivate]
    exact length_take_of_le h.signing_length

theorem Sound.encodePrivateDestination_eq :
    encodePrivateDestination d = some (encodeI2PBase64 (state.identity.raw ++
      (state.encryptionText ++ ((signingText d).1 ++ (signingText d).2)))) := by
  have hslices := slices h.wellFormed.short [localDestinationCryptoCapabilities]
  have hpos := length_pos_of_ne_nil h.wellFormed.nonempty
  have hlong := h.signing_length
  have hlength := hslices.length
  have hdecode : decodeI2PBase64 state.text = some state.identity.raw := by
    rw [h.text, decodeI2PBase64_encode]
  have hencryption : encryptionPrivate state.identity
      (state.bytes ++ [localDestinationCryptoCapabilities])
      (2 + state.text.length + state.signing.length) = some state.encryptionText := by
    unfold encryptionPrivate encryptionText
    rcases h.wellFormed.cryptoType with hx25519 | hlegacy
    · rw [hx25519, if_pos rfl, if_neg (by decide), hslices.x25519,
        take_left' state.x25519.property]
    · have helgamal := h.wellFormed.elgamal
      rw [hlegacy] at helgamal
      change state.elgamal.length = 256 at helgamal
      rw [hlegacy, if_neg (by decide), if_pos rfl, if_pos rfl, if_neg (by omega), hslices.elgamal,
        take_left' helgamal]
  have hsigning : ((state.bytes ++ [localDestinationCryptoCapabilities]).drop
      (2 + state.text.length)).take 32 = d.signingPrivate.take 32 := by
    rw [hslices.signing, take_append_of_le_length hlong, h.signingPrivate]
  unfold encodePrivateDestination
  rw [h.wellFormed.marshalPrivateTo _ h.build (Nat.le_refl _)]
  dsimp only
  rw [hslices.word, if_neg (by omega), hslices.text, hdecode]
  dsimp only
  rw [h.raw]
  dsimp only
  rw [if_neg (not_not.mpr rfl), h.wellFormed.signing]
  dsimp only
  rw [if_neg (by omega), hencryption, hsigning]
  unfold signingText
  cases d.offline with
  | some offline => rfl
  | none => rw [append_nil]

variable (fresh : FixedBytes 32)

theorem Sound.decodePrivateDestination_eq :
    decodePrivateDestination crypto (encodeI2PBase64 (state.identity.raw ++
        (state.encryptionText ++ ((signingText d).1 ++ (signingText d).2)))) fresh =
      rebuildDestination crypto state.identity state.encryptionText (signingText d).1
        (signingText d).2 fresh :=
  decodePrivateDestination_parts h.raw h.wellFormed.cryptoType h.encryptionText_length
    h.signingText_length _ _

/-- The rebuilt state is the one behind the destination, up to the X25519 key of an ElGamal
identity. -/
theorem Sound.rebuiltState_eq :
    rebuiltState state.identity state.encryptionText state.signing fresh =
      { state with x25519 := state.rebuiltX25519 fresh } := by
  have helgamal := h.wellFormed.elgamal
  unfold stateElGamalLen at helgamal
  unfold rebuiltState encryptionText rebuiltX25519
  rw [← h.text]
  split
  next hlegacy => rfl
  next hother =>
  rw [if_neg hother] at helgamal
  rw [copy_val, eq_nil_of_length_eq_zero helgamal]

theorem Sound.build_rebuiltState :
    (rebuiltState state.identity state.encryptionText state.signing fresh).build crypto d.offline =
      some { d with
        x25519Private := state.rebuiltX25519 fresh
        x25519Public := crypto.x25519Public (state.rebuiltX25519 fresh) } := by
  obtain ⟨publicKey, hpublic, hencrypts, heq⟩ := PrivateState.build_eq_some _ h.build
  have hsame : PrivateState.encrypts crypto { state with x25519 := state.rebuiltX25519 fresh } =
      true := by
    rw [← hencrypts]
    unfold PrivateState.encrypts PrivateState.rebuiltX25519
    rcases h.wellFormed.cryptoType with hx25519 | hlegacy
    · rw [hx25519, if_neg cryptoX25519_ne_elGamal]
    · rw [hlegacy, if_neg cryptoX25519_ne_elGamal.symm,
        if_neg cryptoX25519_ne_elGamal.symm]
  have hsigning : PrivateState.signingPublic crypto
      { state with x25519 := state.rebuiltX25519 fresh } d.offline = some publicKey := hpublic
  rw [h.rebuiltState_eq, PrivateState.build, hsigning, hsame]
  dsimp only
  rw [if_neg (by decide)]
  conv_rhs => rw [heq]

theorem Sound.refused_of_elGamal (hred : state.identity.signingType = .redDSASHA512Ed25519)
    (hlegacy : cryptoKeyType state.identity = cryptoElGamal) (fresh : FixedBytes 32) :
    rebuildDestination crypto state.identity state.encryptionText (signingText d).1
      (signingText d).2 fresh = none := by
  rw [rebuildDestination_eq h.raw h.wellFormed.cryptoType h.encryptionText_length
    h.signingText_length, bind_eq_none_iff]
  intro offline _
  have hkey : stateSigningKey crypto state.identity (signingText d).1 offline.isSome = none := by
    unfold stateSigningKey
    rw [hred, hlegacy, if_pos cryptoX25519_ne_elGamal.symm]
  rw [hkey, bind_none]

/-- A seed of zeros is taken for an offline key. -/
theorem Sound.refused_of_zero (honline : d.offline = none)
    (hzero : zeroBytes (d.signingPrivate.take 32) = true) (fresh : FixedBytes 32) :
    rebuildDestination crypto state.identity state.encryptionText (signingText d).1
      (signingText d).2 fresh = none := by
  have hpart : signingPart state.identity (signingText d).1 (signingText d).2 = none := by
    unfold signingPart signingText
    rw [honline]
    rw [hzero]
    rfl
  rw [rebuildDestination_eq h.raw h.wellFormed.cryptoType h.encryptionText_length
    h.signingText_length, hpart, bind_none]

end Parts

section Offline

theorem ofCode_code (keyType : SigningKeyType) :
    SigningKeyType.ofCode keyType.code = some keyType := by
  cases keyType <;> rfl

theorem offlineTransientPrivateLen_eq_some {keyType : SigningKeyType}
    (h : offlineTransientPrivateLen keyType = some length) : length = 32 := by
  unfold offlineTransientPrivateLen at h
  split at h
  · exact (some.inj h).symm
  · exact (some.inj h).symm
  · cases h

theorem parseOfflinePrivateKey_bytes {identity : Identity} {offline signing : OfflineSigning}
    (h : parseOfflineSigning crypto identity offline = some signing) :
    parseOfflinePrivateKey identity offline.bytes = some offline := by
  unfold parseOfflineSigning at h
  split at h
  · cases h
  next hlengths =>
  split at h
  · cases h
  next hsignature =>
  obtain ⟨hprivate, hpublic⟩ := not_or.mp hlengths
  rw [not_not] at hprivate hpublic hsignature
  have htransient := offlineTransientPrivateLen_eq_some hprivate
  have hafterHeader : offline.bytes.drop 6 =
      offline.publicKey ++ (offline.signature ++ offline.privateKey) := by
    unfold OfflineSigning.bytes
    rw [drop_skip (natBE_length _ _) _ _ (by decide)]
    exact drop_left' (natBE_length _ _)
  have hafterPublic := congrArg (drop offline.keyType.publicKeyLen) hafterHeader
  rw [drop_drop, drop_left' hpublic] at hafterPublic
  have hafterSignature := congrArg (drop identity.signingType.signatureLen) hafterPublic
  rw [drop_drop, drop_left' hsignature] at hafterSignature
  have hlength : offline.bytes.length =
      6 + offline.keyType.publicKeyLen + identity.signingType.signatureLen + 32 := by
    unfold OfflineSigning.bytes
    simp only [length_append, natBE_length, hpublic, hsignature, htransient]
    omega
  have htype : uint16At offline.bytes 4 = offline.keyType.code := by
    unfold OfflineSigning.bytes
    rw [uint16At_skip (natBE_length _ _) _ _ (by decide)]
    exact uint16At_append _ _
  have hexpires : uint32At offline.bytes 0 = offline.expires := uint32At_append _ _
  unfold parseOfflinePrivateKey
  rw [if_neg (by omega), htype, ofCode_code]
  dsimp only
  rw [if_neg (not_not.mpr hlength), hexpires, hafterHeader, take_left' hpublic, hafterPublic,
    take_left' hsignature, hafterSignature]

end Offline

section Accepted

variable {d : LocalDestination} {state : PrivateState} (h : Sound crypto d state)
include h

theorem Sound.signingPart_eq
    (hseed : d.offline = none → ¬zeroBytes (d.signingPrivate.take 32) = true) :
    signingPart state.identity (signingText d).1 (signingText d).2 = some d.offline := by
  unfold signingPart signingText
  cases hoffline : d.offline with
  | none =>
    rw [if_neg (hseed hoffline)]
    rfl
  | some offline =>
    rw [parseOfflinePrivateKey_bytes (h.offline _ hoffline)]
    rfl

variable (hkinds : ¬(state.identity.signingType = .redDSASHA512Ed25519 ∧ cryptoKeyType state.identity = cryptoElGamal))
include hkinds

theorem Sound.stateSigningKey_eq :
    stateSigningKey crypto state.identity (signingText d).1 d.offline.isSome =
      some state.signing := by
  have hlength := h.wellFormed.signing
  have htype : state.identity.signingType = .redDSASHA512Ed25519 →
      cryptoKeyType state.identity = cryptoX25519 := by
    intro hred
    exact h.wellFormed.cryptoType.resolve_right fun hlegacy => hkinds ⟨hred, hlegacy⟩
  unfold stateSigningKey
  cases hoffline : d.offline with
  | none =>
    have htext : (signingText d).1 = state.signing.take 32 := by
      unfold signingText
      rw [hoffline]
      rw [h.signingPrivate]
    rw [htext]
    cases hkind : state.identity.signingType with
    | edDSASHA512Ed25519 =>
      have hcopy : copy 32 (state.signing.take 32) =
          copy 32 state.signing := by
        apply Subtype.ext
        rw [copy_val_of_le h.signing_length, copy_val_of_le]
        · rw [take_take, min_self]
        · rw [length_take_of_le h.signing_length]
      rw [if_neg (by decide), hcopy, ← h.seed hoffline hkind]
    | redDSASHA512Ed25519 =>
      rw [hkind] at hlength
      dsimp only
      rw [htype hkind, if_neg (not_not.mpr rfl), if_neg (by decide),
        take_of_length_le (some.inj hlength).symm.le]
    | _ =>
      rw [hkind] at hlength
      cases hlength
  | some offline =>
    obtain ⟨publicKey, hpublic, -, -⟩ := build_eq_some _ h.build
    have hzero : state.signing = replicate state.signing.length 0 := by
      unfold signingPublic at hpublic
      rw [hoffline] at hpublic
      dsimp only at hpublic
      split at hpublic
      next hall =>
        apply eq_replicate_iff.mpr
        refine ⟨rfl, ?_⟩
        intro byte hmem
        exact of_decide_eq_true (all_eq_true.mp hall.1 byte hmem)
      · cases hpublic
    cases hkind : state.identity.signingType with
    | edDSASHA512Ed25519 =>
      rw [hkind] at hlength
      rw [isSome_some, if_pos rfl, hzero, ← some.inj hlength]
    | redDSASHA512Ed25519 =>
      rw [hkind] at hlength
      dsimp only
      rw [htype hkind, if_neg (not_not.mpr rfl), isSome_some, if_pos rfl, hzero, ← some.inj hlength]
    | _ =>
      rw [hkind] at hlength
      cases hlength

/-- The destination is rebuilt, with a new X25519 key if the identity has an ElGamal key. -/
theorem Sound.rebuildDestination_eq_some
    (hseed : d.offline = none → ¬zeroBytes (d.signingPrivate.take 32) = true)
    (fresh : FixedBytes 32) :
    rebuildDestination crypto state.identity state.encryptionText (signingText d).1
        (signingText d).2 fresh =
      some { d with
        x25519Private := state.rebuiltX25519 fresh
        x25519Public := crypto.x25519Public (state.rebuiltX25519 fresh) } := by
  rw [rebuildDestination_eq h.raw h.wellFormed.cryptoType h.encryptionText_length
    h.signingText_length, h.signingPart_eq hseed, bind_some, h.stateSigningKey_eq hkinds]
  have hbuild := h.build_rebuiltState fresh
  cases hoffline : d.offline with
  | none =>
    rw [hoffline] at hbuild
    exact hbuild
  | some offline =>
    rw [hoffline] at hbuild
    dsimp only
    rw [h.offline _ hoffline]
    exact hbuild

end Accepted

def LocalDestination.identityEncryptionPrivate (d : LocalDestination) : Bytes :=
  if d.identityCryptoType = cryptoElGamal then d.elgamalPrivate.val else d.x25519Private.val

/-- Two destinations with one identity, that sign with the same key, long-term or transient, and
have the same key for the identity's encryption key. -/
structure SameDestination (crypto : DestinationCrypto) (d other : LocalDestination) : Prop where
  identity : other.identity = d.identity
  hash : other.hash = d.hash
  signingKey : other.signingType = d.signingType ∧ other.signingPublic = d.signingPublic ∧
    other.signingPrivate = d.signingPrivate ∧ other.offline = d.offline
  signs : ∀ nowSec random message,
    other.sign crypto nowSec random message = d.sign crypto nowSec random message
  cryptoType : other.identityCryptoType = d.identityCryptoType
  encryption : other.identityEncryptionPrivate = d.identityEncryptionPrivate

def RoundTrips (crypto : DestinationCrypto) (d : LocalDestination) : Prop :=
  ∃ text, encodePrivateDestination d = some text ∧
    ∀ fresh, ∃ other, decodePrivateDestination crypto text fresh = some other ∧
      SameDestination crypto d other

/-- A destination of the commands survives its text exactly if it is not a Red25519 key with an
ElGamal identity, and its long-term key, unless offline, does not start with 32 zeros. -/
theorem private_destination_roundTrips_iff (crypto : DestinationCrypto) (d : LocalDestination)
    (h : Produced crypto d) :
    RoundTrips crypto d ↔
      ¬(d.signingType = .redDSASHA512Ed25519 ∧ d.identityCryptoType = cryptoElGamal) ∧
        (d.offline = none → zeroBytes (d.signingPrivate.take 32) = false) := by
  obtain ⟨state, hsound⟩ := h.sound
  obtain ⟨publicKey, -, -, heq⟩ := build_eq_some _ hsound.build
  have hsigningType : d.signingType = state.identity.signingType := by rw [heq]
  have hcryptoType : d.identityCryptoType = cryptoKeyType state.identity := by rw [heq]
  have hx25519 : d.x25519Private = state.x25519 := by rw [heq]
  have htrips : RoundTrips crypto d ↔ ∀ fresh, ∃ other,
      rebuildDestination crypto state.identity state.encryptionText (signingText d).1
        (signingText d).2 fresh = some other ∧ SameDestination crypto d other := by
    unfold RoundTrips
    rw [hsound.encodePrivateDestination_eq]
    constructor
    · rintro ⟨text, htext, hall⟩ fresh
      rw [← hsound.decodePrivateDestination_eq, some.inj htext]
      exact hall _
    · intro hall
      refine ⟨_, rfl, ?_⟩
      intro fresh
      rw [hsound.decodePrivateDestination_eq]
      exact hall _
  rw [htrips, hsigningType, hcryptoType]
  constructor
  · intro hall
    obtain ⟨other, hother, -⟩ := hall (zero 32)
    constructor
    · rintro ⟨hred, hlegacy⟩
      rw [hsound.refused_of_elGamal hred hlegacy] at hother
      cases hother
    · intro honline
      cases hzero : zeroBytes (d.signingPrivate.take 32) with
      | false => rfl
      | true =>
        rw [hsound.refused_of_zero honline hzero] at hother
        cases hother
  · rintro ⟨hkinds, hseed⟩ fresh
    refine ⟨_, hsound.rebuildDestination_eq_some hkinds
      (fun honline => by rw [hseed honline]; decide) _, rfl, rfl, ⟨rfl, rfl, rfl, rfl⟩,
      fun _ _ _ => rfl, rfl, ?_⟩
    unfold LocalDestination.identityEncryptionPrivate rebuiltX25519
    dsimp only
    rw [hcryptoType, hx25519]
    split <;> rfl

def onesDrawn : CommandRandom where
  seed := ⟨List.replicate 32 1, List.length_replicate⟩
  uniform := ⟨List.replicate 64 1, List.length_replicate⟩
  legacy := ⟨⟨List.replicate 256 1, List.length_replicate⟩,
    ⟨List.replicate 32 1, List.length_replicate⟩, ⟨List.replicate 384 1, List.length_replicate⟩⟩
  fresh := ⟨List.replicate 32 1, List.length_replicate⟩

theorem private_destination_roundTrips_iff_ed25519 :
    ∃ d, destGenerate openCrypto .ed25519 onesDrawn = some d ∧ RoundTrips openCrypto d := by
  have hsome : ∃ d, destGenerate openCrypto .ed25519 onesDrawn = some d :=
    isSome_iff_exists.mp (by decide +kernel)
  have hkey : ∀ d ∈ destGenerate openCrypto .ed25519 onesDrawn,
      ¬(d.signingType = .redDSASHA512Ed25519 ∧ d.identityCryptoType = cryptoElGamal) ∧
        (d.offline = none → zeroBytes (d.signingPrivate.take 32) = false) := by
    decide +kernel
  obtain ⟨d, hd⟩ := hsome
  exact ⟨d, hd, (private_destination_roundTrips_iff _ d (.generated hd)).mpr (hkey d hd)⟩

/-- The text that `DEST GENERATE SIGNATURE_TYPE=11` returns is refused. -/
theorem generated_red25519_refused :
    ((destGenerate openCrypto .red25519 onesDrawn).bind fun d =>
      (encodePrivateDestination d).map fun text =>
        (decodePrivateDestination openCrypto text (FixedBytes.zero 32)).isSome) = some false := by
  decide +kernel

end RoundTrip

end Ivnp.Destination
