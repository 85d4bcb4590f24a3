import Ivnp.Foundation.Identity
import Ivnp.Lib.LittleEndian
import Mathlib.GroupTheory.OrderOfElement

/-!
The signing keys of encrypted lease sets (`encrypted_signing.go`): the long-term key of a
destination is blinded with a scalar that depends on the day and on a secret, once as a scalar
by the publisher and once as a point by everyone who knows the public key.
-/

namespace Ivnp.Foundation

open Ivnp.Lib

/-- The order of the base point of edwards25519. -/
def scalarOrder : Nat := 2 ^ 252 + 27742317777372353535851937790883648493

instance : NeZero scalarOrder := ⟨by decide⟩

abbrev Scalar := Fin scalarOrder

namespace Scalar

/-- `SetUniformBytes`: 64 bytes are reduced. -/
def setUniformBytes (bytes : FixedBytes 64) : Scalar := Fin.ofNat scalarOrder (leNat bytes.val)

/-- `SetCanonicalBytes`: 32 bytes that are reduced already. -/
def setCanonicalBytes (bytes : Bytes) : Option Scalar :=
  if h : bytes.length = 32 ∧ leNat bytes < scalarOrder then some ⟨leNat bytes, h.2⟩ else none

def bytes (scalar : Scalar) : FixedBytes 32 := ⟨natLE 32 scalar.val, length_natLE 32 _⟩

end Scalar

/-- The curve as a group with a base point, and the encoding of its points. -/
structure EdwardsCurve (Point : Type) [AddCommGroup Point] where
  base : Point
  order : addOrderOf base = scalarOrder
  bytes : Point → FixedBytes 32
  setBytes : Bytes → Option Point
  setBytes_bytes : ∀ point, setBytes (bytes point).val = some point

/-- The hashes, and the day of a time in seconds as `20060102`. -/
structure BlindingHashes where
  sha256 : Bytes → FixedBytes 32
  sha512 : Bytes → FixedBytes 64
  hkdf : (input salt info : Bytes) → (length : Nat) → FixedBytes length
  dateString : Int → Bytes

def encryptedKeyData (signingType : SigningKeyType) (publicKey : Bytes) : Option Bytes :=
  if (signingType ≠ .edDSASHA512Ed25519 ∧ signingType ≠ .redDSASHA512Ed25519) ∨
      publicKey.length ≠ 32 then none
  else
    some (publicKey ++ natBE 2 signingType.code.toNat ++
      natBE 2 SigningKeyType.redDSASHA512Ed25519.code.toNat)

def encryptedLeaseSetAlpha (hashes : BlindingHashes) (signingType : SigningKeyType)
    (publicKey : Bytes) (date : Int) (secret : Bytes) : Option (FixedBytes 32) := do
  let keydata ← encryptedKeyData signingType publicKey
  let salt := (hashes.sha256 ("I2PGenerateAlpha".toList.map (·.toUInt8) ++ keydata)).val
  let uniform := hashes.hkdf (hashes.dateString date ++ secret) salt
    ("i2pblinding1".toList.map (·.toUInt8)) 64
  return (Scalar.setUniformBytes uniform).bytes

section Curve

variable {Point : Type} [AddCommGroup Point] (curve : EdwardsCurve Point)
  (hashes : BlindingHashes)

def EdwardsCurve.scalarBaseMult (scalar : Scalar) : Point := scalar.val • curve.base

def blindEncryptedLeaseSetPublic (signingType : SigningKeyType) (publicKey : Bytes) (date : Int)
    (secret : Bytes) : Option (FixedBytes 32) := do
  let alphaBytes ← encryptedLeaseSetAlpha hashes signingType publicKey date secret
  let alpha ← Scalar.setCanonicalBytes alphaBytes.val
  let point ← curve.setBytes publicKey
  return curve.bytes (point + curve.scalarBaseMult alpha)

/-- The digest of a seed with the bits of its first 32 bytes set as for a scalar. -/
def clampDigest (digest : FixedBytes 64) : FixedBytes 64 :=
  ⟨((digest.val.modify 0 (· &&& 248)).modify 31 (· &&& 63)).modify 31 (· ||| 64), by simp⟩

def privateScalar (signingType : SigningKeyType) (privateKey : Bytes) : Option Scalar :=
  match signingType with
  | .edDSASHA512Ed25519 =>
    if privateKey.length ≠ 64 ∧ privateKey.length ≠ 32 then none
    else some (Scalar.setUniformBytes (clampDigest (hashes.sha512 (privateKey.take 32))))
  | .redDSASHA512Ed25519 =>
    if privateKey.length ≠ 32 then none else Scalar.setCanonicalBytes privateKey
  | _ => none

def blindEncryptedLeaseSetPrivate (signingType : SigningKeyType) (privateKey publicKey : Bytes)
    (date : Int) (secret : Bytes) : Option (FixedBytes 32) := do
  let alphaBytes ← encryptedLeaseSetAlpha hashes signingType publicKey date secret
  let alpha ← Scalar.setCanonicalBytes alphaBytes.val
  let a ← privateScalar hashes signingType privateKey
  return (a + alpha).bytes

/-- The signing keys of a `LocalDestination`, as long as they are not released. -/
structure LocalSigningKeys where
  signingType : SigningKeyType
  signingPrivate : Bytes
  signingPublic : Bytes
  released : Bool

def LocalSigningKeys.encryptedLeaseSetBlinding (keys : LocalSigningKeys) (date : Int)
    (secret : Bytes) : Option (FixedBytes 32 × FixedBytes 32) :=
  if keys.released then none
  else do
    let privateKey ← blindEncryptedLeaseSetPrivate hashes keys.signingType keys.signingPrivate
      keys.signingPublic date secret
    let scalar ← Scalar.setCanonicalBytes privateKey.val
    return (privateKey, curve.bytes (curve.scalarBaseMult scalar))

end Curve

/-- `EncryptedLeaseSetSubcredential`: binds the signing key to a blinded key. -/
def encryptedLeaseSetSubcredential (hashes : BlindingHashes) (signingType : SigningKeyType)
    (publicKey blinded : Bytes) : Option (FixedBytes 32) := do
  let keydata ← encryptedKeyData signingType publicKey
  if blinded.length ≠ 32 then none
  else
    let credential := hashes.sha256 ("credential".toList.map (·.toUInt8) ++ keydata)
    return hashes.sha256 ("subcredential".toList.map (·.toUInt8) ++ credential.val ++ blinded)

end Ivnp.Foundation
