import Ivnp.Destination.LocalDestination

/-!
What the private state of a destination has to hold so that the imported destination signs for
its identity. The state is read back exactly. The public key of a Red25519 scalar is derived
from it, but of an Ed25519 key only the copy after the seed is compared with the identity, and
it is the seed that signs.
-/

namespace Ivnp.Destination

open Ivnp.Lib Ivnp.Foundation Ivnp.NetDb List Option FixedBytes PrivateState

theorem getD_of_drop {bytes tail : Bytes} {offset : Nat} (h : bytes.drop offset = tail) :
    bytes.getD offset 0 = tail.getD 0 0 := by
  rw [← h, getD_eq_getElem?_getD, getD_eq_getElem?_getD, getElem?_drop, Nat.add_zero]

namespace PrivateState

variable (state : PrivateState)

/-- The parts one after the other, as `MarshalPrivateTo` writes them. -/
def bytes : Bytes :=
  natBE 2 state.text.length ++ (state.text ++ (state.signing ++ (state.x25519.val ++ state.elgamal)))

/-- What `importLocalDestination` asks of the parts before it looks at the keys. -/
structure WellFormed : Prop where
  nonempty : state.text ≠ []
  short : state.text.length < 65536
  identity : parseDestination state.text = some state.identity
  cryptoType : cryptoKeyType state.identity = cryptoX25519 ∨
    cryptoKeyType state.identity = cryptoElGamal
  signing : statePrivateLen state.identity.signingType = some state.signing.length
  elgamal : state.elgamal.length = stateElGamalLen (cryptoKeyType state.identity)

variable {state}

variable (state) in
/-- The bytes of a state, with something after them, and where each part starts. -/
structure Slices (src tail : Bytes) : Prop where
  word : (uint16At src 0).toNat = state.text.length
  length : src.length =
    2 + state.text.length + state.signing.length + 32 + state.elgamal.length + tail.length
  text : (src.drop 2).take state.text.length = state.text
  signing : src.drop (2 + state.text.length) =
    state.signing ++ (state.x25519.val ++ (state.elgamal ++ tail))
  x25519 : src.drop (2 + state.text.length + state.signing.length) =
    state.x25519.val ++ (state.elgamal ++ tail)
  elgamal : src.drop (2 + state.text.length + state.signing.length + 32) = state.elgamal ++ tail
  tail : src.drop (2 + state.text.length + state.signing.length + 32 + state.elgamal.length) = tail

theorem slices (hshort : state.text.length < 65536) (tail : Bytes) :
    state.Slices (state.bytes ++ tail) tail := by
  have hx := state.x25519.property
  have hbytes : state.bytes ++ tail = natBE 2 state.text.length ++ (state.text ++
      (state.signing ++ (state.x25519.val ++ (state.elgamal ++ tail)))) := by
    simp only [bytes, append_assoc]
  rw [hbytes]
  have hsigning : (natBE 2 state.text.length ++ (state.text ++ (state.signing ++
      (state.x25519.val ++ (state.elgamal ++ tail))))).drop (2 + state.text.length) =
        state.signing ++ (state.x25519.val ++ (state.elgamal ++ tail)) := by
    rw [drop_skip (natBE_length _ _) _ _ (by omega), Nat.add_sub_cancel_left, drop_left]
  have hx25519 := congrArg (drop state.signing.length) hsigning
  rw [drop_drop, drop_left] at hx25519
  have helgamal := congrArg (drop 32) hx25519
  rw [drop_drop, drop_left' hx] at helgamal
  have htail := congrArg (drop state.elgamal.length) helgamal
  rw [drop_drop, drop_left] at htail
  refine ⟨toNat_uint16At_natBE hshort _, ?_, ?_, hsigning, hx25519, helgamal, htail⟩
  · simp only [length_append, natBE_length, hx]
    omega
  · rw [drop_skip (natBE_length _ _) _ _ (by omega), drop_zero, take_left]

theorem WellFormed.parse (h : state.WellFormed) {tail : Bytes}
    (htail : tail = [] ∨ tail = [localDestinationCryptoCapabilities]) :
    parse (state.bytes ++ tail) = some state := by
  have hslices := slices h.short tail
  have hpos := length_pos_of_ne_nil h.nonempty
  have htailLength : tail.length ≤ 1 := by rcases htail with rfl | rfl <;> decide
  have hcapabilities (hone : tail.length = 1) :
      tail.getD 0 0 = localDestinationCryptoCapabilities := by
    rcases htail with rfl | rfl
    · cases hone
    · rfl
  unfold PrivateState.parse
  dsimp only
  rw [hslices.word, hslices.length, if_neg (by omega), if_neg (by omega), hslices.text, h.identity]
  dsimp only
  rw [if_neg (by rintro ⟨h4, h0⟩; exact h.cryptoType.elim h4 h0), h.signing]
  dsimp only
  rw [← h.elgamal, if_neg (by omega), getD_of_drop hslices.tail,
    if_neg (by rintro ⟨hone, hother⟩; exact hother (hcapabilities (by omega))), hslices.signing,
    take_left, arrayAt, hslices.x25519, copy_append, hslices.elgamal,
    take_left]

theorem parse_eq_some {src : Bytes} (h : parse src = some state) :
    state.WellFormed ∧ (src = state.bytes ∨ src = state.bytes ++ [localDestinationCryptoCapabilities]) := by
  unfold parse at h
  split at h
  · cases h
  next htwo =>
  dsimp only at h
  split at h
  · cases h
  next hn =>
  split at h
  · cases h
  next identity hidentity =>
  split at h
  · cases h
  next hcrypto =>
  split at h
  · cases h
  next privateLen hprivate =>
  split at h
  · cases h
  next hend =>
  split at h
  · cases h
  next hcapabilities =>
  cases h
  obtain ⟨n, hsame⟩ : ∃ n, (uint16At src 0).toNat = n := ⟨_, rfl⟩
  have hshort : n < 65536 := hsame ▸ (uint16At src 0).toNat_lt
  rw [hsame] at hn hidentity hend hcapabilities ⊢
  have hparts : src = natBE 2 n ++ ((src.drop 2).take n ++ ((src.drop (2 + n)).take privateLen ++
      ((src.drop (2 + n + privateLen)).take 32 ++
        ((src.drop (2 + n + privateLen + 32)).take (stateElGamalLen (cryptoKeyType identity)) ++
          src.drop (2 + n + privateLen + 32 + stateElGamalLen (cryptoKeyType identity)))))) := by
    rw [← drop_split, ← drop_split, ← drop_split, ← drop_split, ← hsame,
      ← take_two_eq_natBE (by omega), take_append_drop]
  have htext : ((src.drop 2).take n).length = n := by
    rw [length_take, length_drop]
    omega
  have hx : (arrayAt 32 src (2 + n + privateLen)).val = (src.drop (2 + n + privateLen)).take 32 := by
    rw [arrayAt, copy_val_of_le]
    rw [length_drop]
    omega
  have hbytes : bytes ⟨(src.drop 2).take n, identity, (src.drop (2 + n)).take privateLen,
      arrayAt 32 src (2 + n + privateLen),
      (src.drop (2 + n + privateLen + 32)).take (stateElGamalLen (cryptoKeyType identity))⟩ ++
        src.drop (2 + n + privateLen + 32 + stateElGamalLen (cryptoKeyType identity)) = src := by
    simp only [bytes, htext, hx, append_assoc]
    exact hparts.symm
  have htail : src.drop (2 + n + privateLen + 32 + stateElGamalLen (cryptoKeyType identity)) = [] ∨
      src.drop (2 + n + privateLen + 32 + stateElGamalLen (cryptoKeyType identity)) =
        [localDestinationCryptoCapabilities] := by
    cases hlast : src.drop (2 + n + privateLen + 32 + stateElGamalLen (cryptoKeyType identity)) with
    | nil => exact .inl rfl
    | cons byte rest =>
      have hlength := congrArg length hlast
      rw [length_drop, length_cons] at hlength
      have hrest : rest = [] := eq_nil_of_length_eq_zero (by omega)
      have hbyte : byte = localDestinationCryptoCapabilities := by
        by_contra hother
        refine hcapabilities ⟨by omega, ?_⟩
        rw [getD_of_drop hlast]
        exact hother
      rw [hrest, hbyte]
      exact .inr rfl
  refine ⟨⟨?_, ?_, hidentity, ?_, ?_, ?_⟩, ?_⟩
  · apply ne_nil_of_length_pos
    rw [htext]
    omega
  · rw [htext]
    exact hshort
  · by_contra hneither
    exact hcrypto (not_or.mp hneither)
  · rw [length_take_of_le, hprivate]
    rw [length_drop]
    omega
  · rw [length_take_of_le]
    rw [length_drop]
    omega
  · rcases htail with hnone | hone
    · left
      rw [hnone, append_nil] at hbytes
      exact hbytes.symm
    · right
      rw [hone] at hbytes
      exact hbytes.symm

section Build

variable (crypto : DestinationCrypto) {offline : Option OfflineSigning} {d : LocalDestination}

theorem build_eq_some (h : state.build crypto offline = some d) :
    ∃ publicKey, state.signingPublic crypto offline = some publicKey ∧
      state.encrypts crypto = true ∧
        d =
          { destination := state.text
            hash := crypto.sha256 state.identity.raw
            signingType := state.identity.signingType
            signingPublic := publicKey
            signingPrivate := state.signing
            x25519Public := crypto.x25519Public state.x25519
            x25519Private := state.x25519
            identityCryptoType := cryptoKeyType state.identity
            elgamalPrivate := FixedBytes.copy 256 state.elgamal
            cryptoCapabilities := localDestinationCryptoCapabilities
            offline
            released := false } := by
  unfold build at h
  split at h
  · cases h
  next publicKey hpublic =>
  split at h
  · cases h
  next hencrypts =>
  cases h
  exact ⟨publicKey, hpublic, by simpa using hencrypts, rfl⟩

variable (hstate : state.WellFormed) (h : state.build crypto offline = some d)
include hstate h

theorem WellFormed.elgamalBytes : d.elgamalBytes = state.elgamal := by
  obtain ⟨publicKey, -, -, rfl⟩ := build_eq_some _ h
  have hlength := hstate.elgamal
  unfold stateElGamalLen at hlength
  unfold LocalDestination.elgamalBytes
  split at hlength
  next helgamal => rw [if_pos helgamal, copy_val_of_le hlength.ge, take_of_length_le hlength.le]
  next hother =>
  rw [if_neg hother]
  exact (eq_nil_of_length_eq_zero hlength).symm

theorem WellFormed.marshalPrivateTo {room : Nat} (hroom : d.privateEncodedLen ≤ room) :
    d.marshalPrivateTo room = some (state.bytes ++ [localDestinationCryptoCapabilities]) := by
  have helgamal := hstate.elgamalBytes _ h
  obtain ⟨publicKey, -, -, rfl⟩ := build_eq_some _ h
  have hshort := hstate.short
  unfold LocalDestination.marshalPrivateTo
  rw [helgamal]
  dsimp only at hroom ⊢
  have hfits (needed : Nat) (hneeded : needed ≤ room) : ¬(room < needed ∨
      state.text.length > 65535 ∨
        localDestinationCryptoCapabilities ≠ localDestinationCryptoCapabilities) := by
    rintro (hsmall | hlong | hcapabilities)
    · omega
    · omega
    · exact hcapabilities rfl
  rw [if_neg (by decide), if_neg (hfits _ hroom)]
  simp only [bytes, append_assoc]

end Build

end PrivateState

section Signing

variable (crypto : DestinationCrypto)

/-- The defining law of the two signature schemes: a signature made with a seed or a scalar
verifies under the public key derived from it, and under no other. -/
structure SignatureLaws : Prop where
  ed25519_verifies : ∀ seed message, crypto.verify .edDSASHA512Ed25519
    (crypto.ed25519Public seed).val message
      (crypto.ed25519Sign (crypto.newKeyFromSeed seed) message).val = .ok true
  ed25519_only : ∀ key publicKey message, crypto.verify .edDSASHA512Ed25519 publicKey message
    (crypto.ed25519Sign key message).val = .ok true →
      publicKey = (crypto.ed25519Public (FixedBytes.copy 32 key.val)).val
  red25519_verifies : ∀ scalar random message, crypto.verify .redDSASHA512Ed25519
    (crypto.scalarBaseMult scalar).val message (crypto.red25519Sign scalar random message).val =
      .ok true
  red25519_only : ∀ scalar random publicKey message, crypto.verify .redDSASHA512Ed25519 publicKey
    message (crypto.red25519Sign scalar random message).val = .ok true →
      publicKey = (crypto.scalarBaseMult scalar).val

def SignsForIdentity (d : LocalDestination) : Prop :=
  ∃ identity, d.identity = some identity ∧
    ∀ nowSec random message, ∃ signature, d.sign crypto nowSec random message = .ok signature ∧
      crypto.verifyIdentity identity message signature = .ok true

/-- What the destination is written as is read as the same destination. -/
def Reimports (d : LocalDestination) : Prop :=
  ∀ room, d.privateEncodedLen ≤ room → ∃ bytes, d.marshalPrivateTo room = some bytes ∧
    importLocalDestination crypto bytes none = some d

def SeedMatches (src : Bytes) : Prop :=
  ∀ state, PrivateState.parse src = some state →
    state.identity.signingType = .edDSASHA512Ed25519 →
      state.signing = (crypto.newKeyFromSeed (FixedBytes.copy 32 state.signing)).val

variable {crypto}

theorem importLocalDestination_eq_some {src : Bytes} {offline : Option OfflineSigning}
    {d : LocalDestination} (h : importLocalDestination crypto src offline = some d) :
    ∃ state, PrivateState.parse src = some state ∧ state.WellFormed ∧
      state.build crypto offline = some d := by
  unfold importLocalDestination at h
  split at h
  · cases h
  next state hparse => exact ⟨state, hparse, (parse_eq_some hparse).1, h⟩

theorem reimports {src : Bytes} {d : LocalDestination}
    (h : importLocalDestination crypto src none = some d) : Reimports crypto d := by
  obtain ⟨state, -, hstate, hbuild⟩ := importLocalDestination_eq_some h
  intro room hroom
  refine ⟨_, hstate.marshalPrivateTo _ hbuild hroom, ?_⟩
  rw [importLocalDestination, hstate.parse (.inr rfl)]
  exact hbuild

/-- With a signing key in one part, and a signature of the right length, the primitive decides. -/
theorem verifyIdentity_eq {identity : Identity} (hrest : identity.signingRest = [])
    (hfirst : identity.signingFirst.length = identity.signingType.publicKeyLen)
    {message signature : Bytes} (hsignature : signature.length = identity.signingType.signatureLen) :
    crypto.verifyIdentity identity message signature =
      crypto.verify identity.signingType identity.signingFirst message signature := by
  unfold DestinationCrypto.verifyIdentity NetDbCrypto.verifySignature
  rw [hrest, length_nil, Nat.add_zero, append_nil, if_neg (not_not.mpr hfirst),
    if_neg (not_not.mpr hsignature)]

section Build

variable {state : PrivateState} {d : LocalDestination} (hlaws : SignatureLaws crypto)
  (hstate : state.WellFormed) (hbuild : state.build crypto none = some d)
include hlaws hstate hbuild

theorem signsForIdentity_red25519
    (hkind : state.identity.signingType = .redDSASHA512Ed25519) : SignsForIdentity crypto d := by
  obtain ⟨publicKey, hpublic, -, rfl⟩ := state.build_eq_some _ hbuild
  refine ⟨state.identity, hstate.identity, ?_⟩
  intro nowSec random message
  unfold signingPublic at hpublic
  rw [hkind] at hpublic
  dsimp only at hpublic
  split at hpublic
  · next hkey =>
    obtain ⟨hrest, hderived⟩ := hkey
    cases hscalar : Scalar.setCanonicalBytes state.signing with
    | none =>
      rw [DestinationCrypto.red25519Public, hscalar] at hderived
      cases hderived
    | some scalar =>
      rw [DestinationCrypto.red25519Public, hscalar] at hderived
      have hfirst := some.inj hderived
      have hlength : state.signing.length = 32 := by
        have hprivate := hstate.signing
        rw [hkind] at hprivate
        exact (some.inj hprivate).symm
      have hcopy : (copy 32 state.signing).val = state.signing := by
        rw [copy_val_of_le hlength.ge, take_of_length_le hlength.le]
      refine ⟨(crypto.red25519Sign scalar random message).val, ?_, ?_⟩
      · simp only [LocalDestination.sign, hkind, hcopy, LocalDestination.red25519Sign, hscalar,
          Bool.false_eq_true, if_false]
      · rw [verifyIdentity_eq hrest (by rw [← hfirst, hkind]; exact length_val _)
          (by rw [hkind]; exact length_val _), hkind, ← hfirst]
        exact hlaws.red25519_verifies _ _ _
  · cases hpublic

/-- An Ed25519 key signs for the identity exactly if it is the key of its seed. -/
theorem signsForIdentity_ed25519_iff (hkind : state.identity.signingType = .edDSASHA512Ed25519) :
    SignsForIdentity crypto d ↔
      state.signing = (crypto.newKeyFromSeed (FixedBytes.copy 32 state.signing)).val := by
  obtain ⟨publicKey, hpublic, -, rfl⟩ := state.build_eq_some _ hbuild
  have hlength : state.signing.length = 64 := by
    have hprivate := hstate.signing
    rw [hkind] at hprivate
    exact (some.inj hprivate).symm
  have hcopy : (copy 64 state.signing).val = state.signing := by
    rw [copy_val_of_le hlength.ge, take_of_length_le hlength.le]
  have hseed : (copy 32 state.signing).val = state.signing.take 32 := copy_val_of_le (by omega)
  unfold signingPublic at hpublic
  rw [hkind] at hpublic
  dsimp only at hpublic
  split at hpublic
  · next hkey =>
    obtain ⟨hrest, hstored⟩ := hkey
    have hfirst := some.inj hstored
    have hfirstLength : state.identity.signingFirst.length =
        state.identity.signingType.publicKeyLen := by
      rw [← hfirst, hkind, length_drop, hlength]
      rfl
    have hverify (message : Bytes) : crypto.verifyIdentity state.identity message
            (crypto.ed25519Sign (copy 64 state.signing) message).val =
          crypto.verify .edDSASHA512Ed25519 state.identity.signingFirst message
            (crypto.ed25519Sign (copy 64 state.signing) message).val := by
      rw [verifyIdentity_eq hrest hfirstLength (by rw [hkind]; exact length_val _), hkind]
    constructor
    · rintro ⟨identity, hidentity, hsigns⟩
      have hsame := some.inj (hstate.identity.symm.trans hidentity)
      subst hsame
      obtain ⟨signature, hsign, hvalid⟩ := hsigns 0 (zero 80) []
      simp only [LocalDestination.sign, hkind, Bool.false_eq_true, if_false] at hsign
      rw [← Except.ok.inj hsign, hverify] at hvalid
      have honly := hlaws.ed25519_only _ _ _ hvalid
      rw [hcopy] at honly
      rw [DestinationCrypto.newKeyFromSeed_val, ← honly, hseed, ← hfirst, take_append_drop]
    · intro hmatch
      refine ⟨state.identity, hstate.identity, ?_⟩
      intro nowSec random message
      refine ⟨(crypto.ed25519Sign (copy 64 state.signing) message).val, ?_, ?_⟩
      · simp only [LocalDestination.sign, hkind, Bool.false_eq_true, if_false]
      · have hkey := Subtype.ext (hcopy.trans hmatch)
        have hderived : state.identity.signingFirst =
            (crypto.ed25519Public (copy 32 state.signing)).val := by
          rw [← hfirst]
          conv_lhs => rw [hmatch]
          exact drop_left' (length_val _)
        rw [hverify, hkey, hderived]
        exact hlaws.ed25519_verifies _ _
  · cases hpublic

end Build

/-- An imported destination signs for its identity, and is read back as it is written, exactly
if an Ed25519 key in the state is the one of its seed. -/
theorem imported_signs_for_identity_iff (crypto : DestinationCrypto) (hlaws : SignatureLaws crypto)
    (src : Bytes) (d : LocalDestination) (h : importLocalDestination crypto src none = some d) :
    (SignsForIdentity crypto d ∧ Reimports crypto d) ↔ SeedMatches crypto src := by
  obtain ⟨state, hparse, hstate, hbuild⟩ := importLocalDestination_eq_some h
  have hmatches : SeedMatches crypto src ↔
      (state.identity.signingType = .edDSASHA512Ed25519 →
        state.signing = (crypto.newKeyFromSeed (copy 32 state.signing)).val) := by
    constructor
    · intro hall
      exact hall _ hparse
    · intro hone other hother
      rw [← some.inj (hparse.symm.trans hother)]
      exact hone
  rw [hmatches]
  constructor
  · rintro ⟨hsigns, -⟩ hkind
    exact (signsForIdentity_ed25519_iff hlaws hstate hbuild hkind).mp hsigns
  · intro hseed
    refine ⟨?_, reimports h⟩
    cases hkind : state.identity.signingType with
    | edDSASHA512Ed25519 =>
      exact (signsForIdentity_ed25519_iff hlaws hstate hbuild hkind).mpr (hseed hkind)
    | redDSASHA512Ed25519 => exact signsForIdentity_red25519 hlaws hstate hbuild hkind
    | _ =>
      have hprivate := hstate.signing
      rw [hkind] at hprivate
      cases hprivate

/-- A signature that shows the scalar it was made with. -/
def shown (scalar : Scalar) : FixedBytes 64 := ⟨scalar.bytes.val ++ List.replicate 32 0, by simp⟩

/-- Public keys that are the private ones, and signatures that show the key they were made with. -/
def openCrypto : DestinationCrypto where
  sha256 := FixedBytes.copy 32
  verify := fun _ publicKey _ signature => .ok (signature.take 32 = publicKey)
  ed25519Public := fun seed => seed
  ed25519Sign := fun key _ => key
  scalarBaseMult := Scalar.bytes
  red25519Sign := fun scalar _ _ => shown scalar
  x25519Public := fun privateKey => privateKey
  elGamalPublic := some

theorem signatureLaws_openCrypto : SignatureLaws openCrypto where
  ed25519_verifies := by
    intro seed message
    have hseed : (openCrypto.newKeyFromSeed seed).val.take 32 = seed.val := take_left' seed.property
    change Except.ok (decide ((openCrypto.newKeyFromSeed seed).val.take 32 = seed.val)) = _
    rw [hseed, decide_eq_true rfl]
  ed25519_only := by
    intro key publicKey message hvalid
    have hseed : key.val.take 32 = publicKey := of_decide_eq_true (Except.ok.inj hvalid)
    change publicKey = (copy 32 key.val).val
    rw [copy_val_of_le (by rw [key.property]; decide), hseed]
  red25519_verifies := by
    intro scalar random message
    change Except.ok (decide ((shown scalar).val.take 32 = scalar.bytes.val)) = _
    rw [shown, take_left' scalar.bytes.property, decide_eq_true rfl]
  red25519_only := by
    intro scalar random publicKey message hvalid
    have hscalar := of_decide_eq_true (Except.ok.inj hvalid)
    rw [← hscalar]
    rfl

def stateWithSeed (seed : FixedBytes 32) : Bytes :=
  let signingPublic : FixedBytes 32 := ⟨List.replicate 32 1, rfl⟩
  let text := encodeI2PBase64 (newIdentity cryptoX25519 .edDSASHA512Ed25519 (List.replicate 32 0)
    signingPublic (FixedBytes.zero 384))
  natBE 2 text.length ++ text ++ seed.val ++ signingPublic.val ++ List.replicate 32 0 ++ [7]

theorem imported_signs_for_identity_iff_ones :
    ∃ d, importLocalDestination openCrypto (stateWithSeed ⟨List.replicate 32 1, rfl⟩) none =
        some d ∧
      SignsForIdentity openCrypto d ∧ Reimports openCrypto d := by
  have hsome : (importLocalDestination openCrypto (stateWithSeed ⟨replicate 32 1, rfl⟩)
      none).isSome = true := by
    decide +kernel
  have hmatches : ∀ state ∈ parse (stateWithSeed ⟨replicate 32 1, rfl⟩),
      state.identity.signingType = .edDSASHA512Ed25519 →
        state.signing = (openCrypto.newKeyFromSeed (copy 32 state.signing)).val := by
    decide +kernel
  obtain ⟨d, himport⟩ := isSome_iff_exists.mp hsome
  exact ⟨d, himport, (imported_signs_for_identity_iff _ signatureLaws_openCrypto _ d
    himport).mpr hmatches⟩

/-- With a seed of zeros the state is imported, and the signature is refused by the identity. -/
theorem imported_signature_refused :
    SignatureLaws openCrypto ∧
      ((importLocalDestination openCrypto (stateWithSeed (FixedBytes.zero 32)) none).bind fun d =>
        d.identity.bind fun identity =>
          (d.sign openCrypto 0 (FixedBytes.zero 80) []).toOption.bind fun signature =>
            (openCrypto.verifyIdentity identity [] signature).toOption) = some false := by
  refine ⟨signatureLaws_openCrypto, ?_⟩
  decide +kernel

end Signing

end Ivnp.Destination
