import Ivnp.Foundation.BlindedKeys
import Ivnp.Lib.Base64
import Ivnp.NetDb.LeaseSets

/-!
Local destinations (`address_generator.go`, `offline_signature.go`): the keys of a destination
that this router serves, how they are generated, how they are written to the private state and
read back from it, and how they sign.
-/

namespace Ivnp.Destination

open Ivnp.Lib Ivnp.Foundation Ivnp.NetDb

/-- `i2pBase64Alphabet`. -/
def i2pBase64 : Base64 where
  symbols := "ABCDEFGHIJKLMNOPQRSTUVWXYZabcdefghijklmnopqrstuvwxyz0123456789-~".toList.map (·.toUInt8)
  length := by decide +kernel
  nodup := by decide +kernel
  plain := by decide +kernel

def encodeI2PBase64 (raw : Bytes) : Bytes := i2pBase64.encode raw

/-- `DecodeI2PBase64`: with padding, or else without. -/
def decodeI2PBase64 (encoded : Bytes) : Option Bytes :=
  match i2pBase64.decode true encoded with
  | some raw => some raw
  | none => i2pBase64.decode false encoded

@[simp] theorem decodeI2PBase64_encode (raw : Bytes) :
    decodeI2PBase64 (encodeI2PBase64 raw) = some raw := by
  rw [decodeI2PBase64, encodeI2PBase64, i2pBase64.decode_encode]

def parseDestination (encoded : Bytes) : Option Identity :=
  match decodeI2PBase64 encoded with
  | none => none
  | some raw =>
    match parseIdentity raw with
    | .error _ => none
    | .ok (identity, consumed) => if consumed ≠ raw.length then none else some identity

def cryptoElGamal : UInt16 := 0
def cryptoX25519 : UInt16 := 4

def cryptoKeyType (identity : Identity) : UInt16 :=
  if CertificateType.ofCode (identity.raw.getD identityBaseLength 0) = some .key then
    uint16At identity.raw (identityBaseLength + certificateHeader + 2)
  else cryptoElGamal

/-- `CryptoKeyParts`: the key in the first 256 bytes, and what the certificate holds of it. -/
def cryptoKeyParts (identity : Identity) : Bytes × Bytes :=
  let cryptoLen := (cryptoPublicKeyLen (cryptoKeyType identity)).getD 0
  let signingExcess := identity.signingType.publicKeyLen - 128
  (identity.raw.take (min cryptoLen 256),
    (identity.raw.drop (identityBaseLength + certificateHeader + 4 + signingExcess)).take
      (cryptoLen - 256))

/-- The primitives that are not modelled: what derives public keys from private ones, and what
signs. An Ed25519 key is the seed with a copy of the public key after it. -/
structure DestinationCrypto extends NetDbCrypto where
  ed25519Public : FixedBytes 32 → FixedBytes 32
  ed25519Sign : FixedBytes 64 → Bytes → FixedBytes 64
  scalarBaseMult : Scalar → FixedBytes 32
  red25519Sign : Scalar → (random : FixedBytes 80) → Bytes → FixedBytes 64
  x25519Public : FixedBytes 32 → FixedBytes 32
  elGamalPublic : FixedBytes 256 → Option (FixedBytes 256)

namespace DestinationCrypto

variable (crypto : DestinationCrypto)

def newKeyFromSeed (seed : FixedBytes 32) : FixedBytes 64 :=
  ⟨seed.val ++ (crypto.ed25519Public seed).val, by simp⟩

@[simp] theorem newKeyFromSeed_val (seed : FixedBytes 32) :
    (crypto.newKeyFromSeed seed).val = seed.val ++ (crypto.ed25519Public seed).val :=
  rfl

def red25519Public (privateKey : Bytes) : Option (FixedBytes 32) :=
  (Scalar.setCanonicalBytes privateKey).map crypto.scalarBaseMult

def verifyIdentity (identity : Identity) (message signature : Bytes) : Except WireError Bool :=
  crypto.verifySignature identity.signingType identity.signingFirst identity.signingRest message
    signature

end DestinationCrypto

structure OfflineSigning where
  expires : UInt32
  keyType : SigningKeyType
  publicKey : Bytes
  signature : Bytes
  privateKey : Bytes
  deriving DecidableEq

def OfflineSigning.signedContent (offline : OfflineSigning) : Bytes :=
  natBE 4 offline.expires.toNat ++ natBE 2 offline.keyType.code.toNat ++ offline.publicKey

def offlineTransientPrivateLen : SigningKeyType → Option Nat
  | .edDSASHA512Ed25519 | .redDSASHA512Ed25519 => some 32
  | _ => none

def offlineTransientPublic (crypto : DestinationCrypto) (keyType : SigningKeyType)
    (privateKey : Bytes) : Option (FixedBytes 32) :=
  match keyType with
  | .edDSASHA512Ed25519 => some (crypto.ed25519Public (FixedBytes.copy 32 privateKey))
  | .redDSASHA512Ed25519 => crypto.red25519Public privateKey
  | _ => none

/-- `parseOfflineSigning`, on the signature and the transient key together. -/
def parseOfflineSigning (crypto : DestinationCrypto) (identity : Identity)
    (offline : OfflineSigning) : Option OfflineSigning :=
  if offlineTransientPrivateLen offline.keyType ≠ some offline.privateKey.length ∨
      offline.publicKey.length ≠ offline.keyType.publicKeyLen then none
  else if offline.signature.length ≠ identity.signingType.signatureLen then none
  else if offline.signedContent.length > 6 + 32 then none
  else if (crypto.verifyIdentity identity offline.signedContent offline.signature).toOption ≠
      some true then none
  else if (offlineTransientPublic crypto offline.keyType offline.privateKey).map (·.val) ≠
      some offline.publicKey then none
  else some offline

def localDestinationCryptoCapabilities : UInt8 := 7

structure LocalDestination where
  destination : Bytes
  hash : Hash
  signingType : SigningKeyType
  signingPublic : Bytes
  signingPrivate : Bytes
  x25519Public : FixedBytes 32
  x25519Private : FixedBytes 32
  identityCryptoType : UInt16
  elgamalPrivate : FixedBytes 256
  cryptoCapabilities : UInt8
  offline : Option OfflineSigning
  released : Bool
  deriving DecidableEq

section Generation

variable (crypto : DestinationCrypto)

def newIdentity (cryptoType : UInt16) (signingType : SigningKeyType) (cryptoPublic : Bytes)
    (signingPublic : FixedBytes 32) (padding : FixedBytes 384) : Bytes :=
  cryptoPublic ++ (padding.val.drop cryptoPublic.length).take (352 - cryptoPublic.length) ++
    signingPublic.val ++ [5] ++ natBE 2 4 ++ natBE 2 signingType.code.toNat ++
    natBE 2 cryptoType.toNat

/-- The end of the two generators: the new identity is parsed, hashed and encoded. -/
def finishDestination (d : LocalDestination) (raw : Bytes) : Option LocalDestination :=
  match parseIdentity raw with
  | .error _ => none
  | .ok (identity, consumed) =>
    if consumed ≠ raw.length ∨ cryptoKeyType identity ≠ d.identityCryptoType ∨
        identity.signingType ≠ d.signingType then none
    else some { d with hash := crypto.sha256 identity.raw, destination := encodeI2PBase64 raw }

/-- What `generateLegacyLocalDestination` draws: the ElGamal key, the X25519 key, padding. -/
structure LegacyRandom where
  elgamal : FixedBytes 256
  x25519 : FixedBytes 32
  padding : FixedBytes 384

def generateLegacyLocalDestination (signingType : SigningKeyType) (signingPublic : FixedBytes 32)
    (signingPrivate : Bytes) (random : LegacyRandom) : Option LocalDestination :=
  if signingType ≠ .edDSASHA512Ed25519 ∧ signingType ≠ .redDSASHA512Ed25519 then none
  else
    match crypto.elGamalPublic random.elgamal with
    | none => none
    | some encryptionPublic =>
      finishDestination crypto
        { destination := [], hash := FixedBytes.zero 32, signingType
          signingPublic := signingPublic.val, signingPrivate
          x25519Public := crypto.x25519Public random.x25519, x25519Private := random.x25519
          identityCryptoType := cryptoElGamal, elgamalPrivate := random.elgamal
          cryptoCapabilities := localDestinationCryptoCapabilities, offline := none
          released := false }
        (newIdentity cryptoElGamal signingType encryptionPublic.val signingPublic random.padding)

def generateLegacyDestination (seed : FixedBytes 32) (random : LegacyRandom) :
    Option LocalDestination :=
  generateLegacyLocalDestination crypto .edDSASHA512Ed25519 (crypto.ed25519Public seed)
    (crypto.newKeyFromSeed seed).val random

/-- `GenerateEncryptedLocalDestination`: ElGamal and Red25519, whose scalar is reduced from 64
random bytes. -/
def generateEncryptedDestination (uniform : FixedBytes 64) (random : LegacyRandom) :
    Option LocalDestination :=
  let scalar := Scalar.setUniformBytes uniform
  generateLegacyLocalDestination crypto .redDSASHA512Ed25519 (crypto.scalarBaseMult scalar)
    scalar.bytes.val random

end Generation

section State

/-- The parts of the private state, as `importLocalDestination` cuts it. -/
structure PrivateState where
  text : Bytes
  identity : Identity
  signing : Bytes
  x25519 : FixedBytes 32
  elgamal : Bytes

def statePrivateLen : SigningKeyType → Option Nat
  | .edDSASHA512Ed25519 => some 64
  | .redDSASHA512Ed25519 => some 32
  | _ => none

/-- The length of the ElGamal key in the private state. -/
def stateElGamalLen (cryptoType : UInt16) : Nat := if cryptoType = cryptoElGamal then 256 else 0

namespace PrivateState

/-- The checks of the lengths and of the types, and the slices. -/
def parse (src : Bytes) : Option PrivateState :=
  if src.length < 2 then none
  else
    let n := (uint16At src 0).toNat
    if n = 0 ∨ src.length < 2 + n + 32 then none
    else
      let text := (src.drop 2).take n
      match parseDestination text with
      | none => none
      | some identity =>
        let cryptoType := cryptoKeyType identity
        if cryptoType ≠ cryptoX25519 ∧ cryptoType ≠ cryptoElGamal then none
        else
          match statePrivateLen identity.signingType with
          | none => none
          | some privateLen =>
            let elgamalLen := stateElGamalLen cryptoType
            let privateEnd := 2 + n + privateLen + 32 + elgamalLen
            if src.length ≠ privateEnd ∧ src.length ≠ privateEnd + 1 then none
            else if src.length = privateEnd + 1 ∧
                src.getD privateEnd 0 ≠ localDestinationCryptoCapabilities then none
            else
              some
                { text, identity
                  signing := (src.drop (2 + n)).take privateLen
                  x25519 := arrayAt 32 src (2 + n + privateLen)
                  elgamal := (src.drop (2 + n + privateLen + 32)).take elgamalLen }

variable (crypto : DestinationCrypto) (state : PrivateState)

def signingPublic (offline : Option OfflineSigning) : Option Bytes :=
  match offline with
  | some _ =>
    -- The long-term key stays offline; zeros are in its place.
    if state.signing.all (· = 0) ∧ state.identity.signingRest = [] then
      some state.identity.signingFirst
    else none
  | none =>
    let publicKey :=
      match state.identity.signingType with
      | .edDSASHA512Ed25519 => some (state.signing.drop 32)
      | .redDSASHA512Ed25519 => (crypto.red25519Public state.signing).map (·.val)
      | _ => none
    if state.identity.signingRest = [] ∧ publicKey = some state.identity.signingFirst then
      publicKey
    else none

def encrypts : Bool :=
  let parts := cryptoKeyParts state.identity
  if cryptoKeyType state.identity = cryptoX25519 then
    parts.2 = [] ∧ parts.1 = (crypto.x25519Public state.x25519).val
  else
    parts.2 = [] ∧
      (crypto.elGamalPublic (FixedBytes.copy 256 state.elgamal)).map (·.val) = some parts.1

/-- The checks of the keys, and the destination. -/
def build (offline : Option OfflineSigning) : Option LocalDestination :=
  match state.signingPublic crypto offline with
  | none => none
  | some publicKey =>
    if !state.encrypts crypto then none
    else
      some
        { destination := state.text
          hash := crypto.sha256 state.identity.raw
          signingType := state.identity.signingType
          signingPublic := publicKey
          signingPrivate := state.signing
          x25519Public := crypto.x25519Public state.x25519
          x25519Private := state.x25519
          identityCryptoType := cryptoKeyType state.identity
          elgamalPrivate := FixedBytes.copy 256 state.elgamal
          cryptoCapabilities := localDestinationCryptoCapabilities
          offline
          released := false }

end PrivateState

variable (crypto : DestinationCrypto)

def importLocalDestination (src : Bytes) (offline : Option OfflineSigning) :
    Option LocalDestination :=
  match PrivateState.parse src with
  | none => none
  | some state => state.build crypto offline

def importLocalDestinationOffline (src : Bytes) (offline : OfflineSigning) :
    Option LocalDestination :=
  if src.length < 2 then none
  else
    let n := (uint16At src 0).toNat
    if n = 0 ∨ src.length < 2 + n then none
    else
      match parseDestination ((src.drop 2).take n) with
      | none => none
      | some identity =>
        match parseOfflineSigning crypto identity offline with
        | none => none
        | some signing => importLocalDestination crypto src (some signing)

end State

namespace LocalDestination

variable (crypto : DestinationCrypto) (d : LocalDestination)

def elgamalBytes : Bytes :=
  if d.identityCryptoType = cryptoElGamal then d.elgamalPrivate.val else []

def privateEncodedLen : Nat :=
  2 + d.destination.length + d.signingPrivate.length + 32 + 1 + d.elgamalBytes.length

def marshalPrivateTo (room : Nat) : Option Bytes :=
  if d.released then none
  else if room < d.privateEncodedLen ∨ d.destination.length > 65535 ∨
      d.cryptoCapabilities ≠ localDestinationCryptoCapabilities then none
  else
    some (natBE 2 d.destination.length ++ d.destination ++ d.signingPrivate ++
      d.x25519Private.val ++ d.elgamalBytes ++ [d.cryptoCapabilities])

/-- Why there is no signature. -/
inductive SignError where
  | released
  | offlineExpired
  | signingKey
  deriving DecidableEq

def red25519Sign (privateKey : Bytes) (random : FixedBytes 80) (message : Bytes) :
    Except SignError Bytes :=
  match Scalar.setCanonicalBytes privateKey with
  | none => .error .signingKey
  | some scalar => .ok (crypto.red25519Sign scalar random message).val

def sign (nowSec : Int) (random : FixedBytes 80) (message : Bytes) : Except SignError Bytes :=
  if d.released then .error .released
  else
    match d.offline with
    | some offline =>
      if nowSec < 0 ∨ nowSec > offline.expires.toNat then .error .offlineExpired
      else
        match offline.keyType with
        | .edDSASHA512Ed25519 =>
          .ok (crypto.ed25519Sign
            (crypto.newKeyFromSeed (FixedBytes.copy 32 offline.privateKey)) message).val
        | .redDSASHA512Ed25519 => red25519Sign crypto offline.privateKey random message
        | _ => .error .signingKey
    | none =>
      match d.signingType with
      | .edDSASHA512Ed25519 =>
        .ok (crypto.ed25519Sign (FixedBytes.copy 64 d.signingPrivate) message).val
      | .redDSASHA512Ed25519 =>
        red25519Sign crypto (FixedBytes.copy 32 d.signingPrivate).val random message
      | _ => .error .signingKey

def identity : Option Identity := parseDestination d.destination

end LocalDestination

end Ivnp.Destination
