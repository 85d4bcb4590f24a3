import Ivnp.Foundation.EncryptedSigning
import Mathlib.Data.ZMod.Basic

/-!
The two ways to blind a key. A Red25519 key is a scalar, and the blinded scalar belongs to the
blinded point. The scalar of an Ed25519 key is the first half of a digest, but the code reduces
all of the digest, so the two agree only where the second half is a multiple of the order.
-/

namespace Ivnp.Foundation

open Ivnp.Lib Option FixedBytes

theorem Scalar.setCanonicalBytes_bytes (scalar : Scalar) :
    Scalar.setCanonicalBytes scalar.bytes.val = some scalar := by
  have hvalue : leNat (natLE 32 scalar.val) = scalar.val :=
    leNat_natLE (scalar.isLt.trans (by decide))
  have hcanonical : scalar.bytes.val.length = 32 ∧ leNat scalar.bytes.val < scalarOrder :=
    ⟨scalar.bytes.property, by rw [Scalar.bytes, hvalue]; exact scalar.isLt⟩
  rw [Scalar.setCanonicalBytes, dif_pos hcanonical]
  exact congrArg some (Fin.ext hvalue)

/-- The secret scalar of an Ed25519 key, as RFC 8032 has it: the first half of the digest of
the seed, with the lowest three bits and the highest bit cleared and the next one set. -/
def ed25519SecretScalar (hashes : BlindingHashes) (seed : FixedBytes 32) : Nat :=
  leNat ((((hashes.sha512 seed.val).val.take 32).modify 0 (· &&& 248)).modify 31
    fun byte => byte &&& 127 ||| 64)

/-- The second half of the digest of a seed. -/
def ed25519Prefix (hashes : BlindingHashes) (seed : FixedBytes 32) : Nat :=
  leNat ((hashes.sha512 seed.val).val.drop 32)

theorem leNat_clampDigest (hashes : BlindingHashes) (seed : FixedBytes 32) :
    leNat (clampDigest (hashes.sha512 seed.val)).val =
      ed25519SecretScalar hashes seed + 256 ^ 32 * ed25519Prefix hashes seed := by
  have hnumbers : ∀ number < 256, number &&& 63 ||| 64 = number &&& 127 ||| 64 := by decide +kernel
  have hbits : ∀ byte : UInt8, byte &&& 63 ||| 64 = byte &&& 127 ||| 64 := by
    intro byte
    apply UInt8.toNat_inj.mp
    exact hnumbers byte.toNat byte.toNat_lt
  have hlow : (clampDigest (hashes.sha512 seed.val)).val.take 32 =
      (((hashes.sha512 seed.val).val.take 32).modify 0 (· &&& 248)).modify 31
        fun byte => byte &&& 127 ||| 64 := by
    simp only [clampDigest, List.modify_modify_eq, List.take_modify]
    congr 1
    exact funext hbits
  have hhigh : (clampDigest (hashes.sha512 seed.val)).val.drop 32 =
      (hashes.sha512 seed.val).val.drop 32 := by
    rw [clampDigest, List.drop_modify_of_lt _ _ _ _ (by decide),
      List.drop_modify_of_lt _ _ _ _ (by decide), List.drop_modify_of_lt _ _ _ _ (by decide)]
  have hlength : ((clampDigest (hashes.sha512 seed.val)).val.take 32).length = 32 := by
    rw [List.length_take, length_val]
    rfl
  rw [← List.take_append_drop 32 (clampDigest (hashes.sha512 seed.val)).val, leNat_append,
    hlength, hlow, hhigh]
  rfl

section Curve

variable {Point : Type} [AddCommGroup Point] (curve : EdwardsCurve Point)
  (hashes : BlindingHashes)

/-- A long-term signing key: the seed of an Ed25519 key, stored alone or with its public key, or a
Red25519 scalar. -/
inductive LongTermKey where
  | ed25519 (seed : FixedBytes 32) (expanded : Bool)
  | red25519 (scalar : Scalar)

variable (key : LongTermKey)

namespace LongTermKey

def signingType : LongTermKey → SigningKeyType
  | ed25519 _ _ => .edDSASHA512Ed25519
  | red25519 _ => .redDSASHA512Ed25519

def publicKey : LongTermKey → FixedBytes 32
  | ed25519 seed _ => curve.bytes (ed25519SecretScalar hashes seed • curve.base)
  | red25519 scalar => curve.bytes (curve.scalarBaseMult scalar)

def privateKey : LongTermKey → Bytes
  | ed25519 seed false => seed.val
  | ed25519 seed true => seed.val ++ (publicKey curve hashes (ed25519 seed true)).val
  | red25519 scalar => scalar.bytes.val

/-- The number whose multiple of the base point is the public key. -/
def secretScalar : LongTermKey → Nat
  | ed25519 seed _ => ed25519SecretScalar hashes seed
  | red25519 scalar => scalar.val

/-- What the code adds to it when it recovers it from the private key. -/
def surplus : LongTermKey → Nat
  | ed25519 seed _ => 256 ^ 32 * ed25519Prefix hashes seed
  | red25519 _ => 0

/-- The keys of a destination that has not been released. -/
def localKeys (key : LongTermKey) : LocalSigningKeys :=
  ⟨key.signingType, key.privateKey curve hashes, (key.publicKey curve hashes).val, false⟩

theorem privateScalar_eq :
    privateScalar hashes key.signingType (key.privateKey curve hashes) =
      some (Fin.ofNat scalarOrder (key.secretScalar hashes + key.surplus hashes)) := by
  cases key with
  | ed25519 seed expanded =>
    have hlength : (privateKey curve hashes (ed25519 seed expanded)).length = 64 ∨
        (privateKey curve hashes (ed25519 seed expanded)).length = 32 := by
      cases expanded with
      | false => exact .inr seed.property
      | true =>
        left
        rw [privateKey, List.length_append, seed.property, length_val]
    have hseed : (privateKey curve hashes (ed25519 seed expanded)).take 32 = seed.val := by
      cases expanded with
      | false => exact List.take_of_length_le seed.property.le
      | true => exact List.take_left' seed.property
    simp only [signingType, privateScalar]
    rw [if_neg (by omega), hseed, Scalar.setUniformBytes, leNat_clampDigest]
    rfl
  | red25519 scalar =>
    simp only [signingType, privateKey, privateScalar, length_val]
    rw [if_neg (by decide), Scalar.setCanonicalBytes_bytes]
    congr 1
    exact (Fin.ofNat_val_eq_self _).symm

theorem alpha_eq (date : Int) (secret : Bytes) :
    ∃ alpha : Scalar, encryptedLeaseSetAlpha hashes key.signingType
      (key.publicKey curve hashes).val date secret = some alpha.bytes := by
  have hdata : ¬((key.signingType ≠ .edDSASHA512Ed25519 ∧
      key.signingType ≠ .redDSASHA512Ed25519) ∨
        (key.publicKey curve hashes).val.length ≠ 32) := by
    cases key with
    | ed25519 seed expanded => simp [signingType]
    | red25519 scalar => simp [signingType]
  unfold encryptedLeaseSetAlpha encryptedKeyData
  rw [if_neg hdata]
  exact ⟨_, rfl⟩

end LongTermKey

theorem EdwardsCurve.nsmul_ofNat (number : Nat) :
    (Fin.ofNat scalarOrder number).val • curve.base = number • curve.base := by
  rw [Fin.val_ofNat, ← curve.order]
  exact mod_addOrderOf_nsmul curve.base _

theorem EdwardsCurve.scalarBaseMult_add (scalar alpha : Scalar) :
    curve.scalarBaseMult (scalar + alpha) =
      curve.scalarBaseMult scalar + curve.scalarBaseMult alpha := by
  rw [EdwardsCurve.scalarBaseMult, EdwardsCurve.scalarBaseMult, EdwardsCurve.scalarBaseMult,
    ← add_nsmul]
  exact curve.nsmul_ofNat (scalar.val + alpha.val)

theorem EdwardsCurve.bytes_injective : Function.Injective curve.bytes := by
  intro point other h
  have hpoint := curve.setBytes_bytes point
  rw [h, curve.setBytes_bytes] at hpoint
  exact (some.inj hpoint).symm

/-- The keys that the publisher and a client derive, and by what they differ. -/
theorem LongTermKey.blinded_eq (date : Int) (secret : Bytes) :
    ∃ scalar alpha : Scalar,
      blindEncryptedLeaseSetPrivate hashes key.signingType (key.privateKey curve hashes)
        (key.publicKey curve hashes).val date secret = some scalar.bytes ∧
      blindEncryptedLeaseSetPublic curve hashes key.signingType (key.publicKey curve hashes).val
        date secret =
        some (curve.bytes (key.secretScalar hashes • curve.base + curve.scalarBaseMult alpha)) ∧
      curve.scalarBaseMult scalar = key.secretScalar hashes • curve.base +
        key.surplus hashes • curve.base + curve.scalarBaseMult alpha := by
  obtain ⟨alpha, halpha⟩ := key.alpha_eq curve hashes date secret
  refine ⟨Fin.ofNat scalarOrder (key.secretScalar hashes + key.surplus hashes) + alpha, alpha,
    ?_, ?_, ?_⟩
  · simp only [blindEncryptedLeaseSetPrivate, halpha, bind_eq_bind, bind_some,
      Scalar.setCanonicalBytes_bytes, key.privateScalar_eq _ hashes, pure_def]
  · have hpoint : curve.setBytes (key.publicKey curve hashes).val =
        some (key.secretScalar hashes • curve.base) := by
      cases key <;> exact curve.setBytes_bytes _
    simp only [blindEncryptedLeaseSetPublic, halpha, bind_eq_bind, bind_some,
      Scalar.setCanonicalBytes_bytes, hpoint, pure_def]
  · rw [curve.scalarBaseMult_add, EdwardsCurve.scalarBaseMult, curve.nsmul_ofNat, add_nsmul]

/-- The surplus vanishes exactly where the second half of the digest is a multiple of the
order: the order is odd. -/
theorem LongTermKey.surplus_nsmul_eq_zero_iff :
    key.surplus hashes • curve.base = 0 ↔
      ∀ seed expanded, key = .ed25519 seed expanded → scalarOrder ∣ ed25519Prefix hashes seed := by
  rw [← addOrderOf_dvd_iff_nsmul_eq_zero, curve.order]
  cases key with
  | ed25519 seed expanded =>
    have hodd : Nat.Coprime scalarOrder (256 ^ 32) := by decide +kernel
    rw [LongTermKey.surplus, hodd.dvd_mul_left]
    constructor
    · rintro hdvd _ _ ⟨⟩
      exact hdvd
    · intro h
      exact h _ _ rfl
  | red25519 scalar => exact iff_of_true (dvd_zero _) nofun

/-- The blinded scalar belongs to the blinded public key, and the publisher uses the key that a
client derives, exactly where the key is a Red25519 key or the second half of the digest of
its seed is a multiple of the order. -/
theorem blinded_keys_agree_iff (date : Int) (secret : Bytes) :
    (∃ scalar blinded,
      blindEncryptedLeaseSetPrivate hashes key.signingType (key.privateKey curve hashes)
        (key.publicKey curve hashes).val date secret = some (Scalar.bytes scalar) ∧
      blindEncryptedLeaseSetPublic curve hashes key.signingType (key.publicKey curve hashes).val
        date secret = some blinded ∧
      curve.bytes (curve.scalarBaseMult scalar) = blinded ∧
      (key.localKeys curve hashes).encryptedLeaseSetBlinding curve hashes date secret =
        some (scalar.bytes, blinded)) ↔
      ∀ seed expanded, key = .ed25519 seed expanded →
        scalarOrder ∣ ed25519Prefix hashes seed := by
  obtain ⟨scalar, alpha, hprivate, hpublic, hsum⟩ := key.blinded_eq curve hashes _ _
  rw [← key.surplus_nsmul_eq_zero_iff curve, hprivate, hpublic]
  constructor
  · rintro ⟨other, blinded, hscalar, hblinded, hbytes, -⟩
    have hsame : other = scalar := by
      have h := Scalar.setCanonicalBytes_bytes scalar
      rw [some.inj hscalar, Scalar.setCanonicalBytes_bytes] at h
      exact some.inj h
    rw [hsame, ← some.inj hblinded] at hbytes
    have hpoint := curve.bytes_injective hbytes
    rw [hsum] at hpoint
    simpa using hpoint
  · intro hzero
    rw [hzero, add_zero] at hsum
    refine ⟨scalar, _, rfl, rfl, congrArg curve.bytes hsum, ?_⟩
    simp only [LocalSigningKeys.encryptedLeaseSetBlinding, LongTermKey.localKeys, hprivate,
      Bool.false_eq_true, if_false, bind_eq_bind, bind_some,
      Scalar.setCanonicalBytes_bytes, pure_def, hsum]

end Curve

def residueCurve : EdwardsCurve (ZMod scalarOrder) where
  base := 1
  order := ZMod.addOrderOf_one scalarOrder
  bytes := fun point => ⟨natLE 32 point.val, length_natLE 32 _⟩
  setBytes := fun bytes => some (leNat bytes : ZMod scalarOrder)
  setBytes_bytes := by
    intro point
    rw [leNat_natLE ((ZMod.val_lt point).trans (by decide)), ZMod.natCast_zmod_val]

def zeroSeedHashes : BlindingHashes where
  sha256 := fun _ => FixedBytes.zero 32
  sha512 := fun _ => ⟨natLE 64 0xd36d0b422185497f2b67da737a8c40007c638d7c5d4b4235c8da42a6ea856a0a96f1874a926079f5907a26b57079b5583e42c3d0fdbb2b7b8638a8dbc1ad4650,
    length_natLE 64 _⟩
  hkdf := fun _ _ _ length => FixedBytes.zero length
  dateString := fun _ => "20260822".toList.map (·.toUInt8)

/-- The Ed25519 key with the zero seed: its blinded scalar does not belong to the blinded
public key that a client derives. -/
theorem zeroSeed_blinded_keys_differ :
    ∃ scalar blinded,
      blindEncryptedLeaseSetPrivate zeroSeedHashes .edDSASHA512Ed25519
        ((LongTermKey.ed25519 (FixedBytes.zero 32) true).privateKey residueCurve zeroSeedHashes)
        ((LongTermKey.ed25519 (FixedBytes.zero 32) true).publicKey residueCurve zeroSeedHashes).val
        1787356800 [] = some (Scalar.bytes scalar) ∧
      blindEncryptedLeaseSetPublic residueCurve zeroSeedHashes .edDSASHA512Ed25519
        ((LongTermKey.ed25519 (FixedBytes.zero 32) true).publicKey residueCurve zeroSeedHashes).val
        1787356800 [] = some blinded ∧
      residueCurve.bytes (residueCurve.scalarBaseMult scalar) ≠ blinded := by
  obtain ⟨scalar, alpha, hprivate, hpublic, hsum⟩ :=
    (LongTermKey.ed25519 (zero 32) true).blinded_eq residueCurve zeroSeedHashes 1787356800 []
  refine ⟨scalar, _, hprivate, hpublic, fun hbytes => (by decide +kernel :
    ¬scalarOrder ∣ ed25519Prefix zeroSeedHashes (zero 32)) ?_⟩
  have hpoint := residueCurve.bytes_injective hbytes
  rw [hsum] at hpoint
  have hzero : (LongTermKey.ed25519 (zero 32) true).surplus zeroSeedHashes •
      residueCurve.base = 0 := by simpa using hpoint
  exact (LongTermKey.surplus_nsmul_eq_zero_iff _ _ _).mp hzero _ _ rfl

end Ivnp.Foundation
