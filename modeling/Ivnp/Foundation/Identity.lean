import Ivnp.Foundation.Wire

/-!
Identities and destinations: 384 bytes of keys and a certificate, which names
the types of the keys and holds what does not fit.
-/

namespace Ivnp.Foundation

open Ivnp.Lib List

abbrev Hash := FixedBytes 32

def identityBaseLength : Nat := 384
def certificateHeader : Nat := 3

inductive CertificateType where
  | null
  | hashCash
  | hidden
  | signed
  | multiple
  | key
  deriving DecidableEq

def CertificateType.ofCode (code : UInt8) : Option CertificateType :=
  match code with
  | 0 => some .null
  | 1 => some .hashCash
  | 2 => some .hidden
  | 3 => some .signed
  | 4 => some .multiple
  | 5 => some .key
  | _ => none

def validCertificate (kind : CertificateType) (payloadLen : Nat) : Bool :=
  match kind with
  | .null | .hidden => payloadLen = 0
  | .hashCash | .multiple => true
  | .signed => payloadLen = 40 ∨ payloadLen = 72
  | .key => payloadLen ≥ 4

structure Certificate where
  kind : CertificateType
  payload : Bytes

def parseCertificate (src : Bytes) : Except WireError (Certificate × Nat) :=
  if src.length < certificateHeader then .error .shortBuffer
  else
    let length := (uint16At src 1).toNat
    if length > src.length - certificateHeader then .error .shortBuffer
    else
      match CertificateType.ofCode (src.getD 0 0) with
      | none => .error .invalidCertificate
      | some kind =>
        if !validCertificate kind length then .error .invalidCertificate
        else .ok (⟨kind, (src.drop certificateHeader).take length⟩, certificateHeader + length)

inductive SigningKeyType where
  | dsaSHA1
  | ecdsaSHA256P256
  | ecdsaSHA384P384
  | ecdsaSHA512P521
  | rsaSHA256_2048
  | rsaSHA384_3072
  | rsaSHA512_4096
  | edDSASHA512Ed25519
  | edDSASHA512Ed25519ph
  | gostR3410_256
  | gostR3410_512
  | redDSASHA512Ed25519
  deriving DecidableEq

namespace SigningKeyType

def code : SigningKeyType → UInt16
  | dsaSHA1 => 0
  | ecdsaSHA256P256 => 1
  | ecdsaSHA384P384 => 2
  | ecdsaSHA512P521 => 3
  | rsaSHA256_2048 => 4
  | rsaSHA384_3072 => 5
  | rsaSHA512_4096 => 6
  | edDSASHA512Ed25519 => 7
  | edDSASHA512Ed25519ph => 8
  | gostR3410_256 => 9
  | gostR3410_512 => 10
  | redDSASHA512Ed25519 => 11

def ofCode (code : UInt16) : Option SigningKeyType :=
  match code with
  | 0 => some dsaSHA1
  | 1 => some ecdsaSHA256P256
  | 2 => some ecdsaSHA384P384
  | 3 => some ecdsaSHA512P521
  | 4 => some rsaSHA256_2048
  | 5 => some rsaSHA384_3072
  | 6 => some rsaSHA512_4096
  | 7 => some edDSASHA512Ed25519
  | 8 => some edDSASHA512Ed25519ph
  | 9 => some gostR3410_256
  | 10 => some gostR3410_512
  | 11 => some redDSASHA512Ed25519
  | _ => none

def publicKeyLen : SigningKeyType → Nat
  | dsaSHA1 => 128
  | ecdsaSHA256P256 => 64
  | ecdsaSHA384P384 => 96
  | ecdsaSHA512P521 => 132
  | rsaSHA256_2048 => 256
  | rsaSHA384_3072 => 384
  | rsaSHA512_4096 => 512
  | edDSASHA512Ed25519 | edDSASHA512Ed25519ph | redDSASHA512Ed25519 => 32
  | gostR3410_256 => 64
  | gostR3410_512 => 128

def signatureLen : SigningKeyType → Nat
  | dsaSHA1 => 40
  | ecdsaSHA256P256 => 64
  | ecdsaSHA384P384 => 96
  | ecdsaSHA512P521 => 132
  | rsaSHA256_2048 => 256
  | rsaSHA384_3072 => 384
  | rsaSHA512_4096 => 512
  | edDSASHA512Ed25519 | edDSASHA512Ed25519ph | redDSASHA512Ed25519 => 64
  | gostR3410_256 => 64
  | gostR3410_512 => 128

end SigningKeyType

def cryptoPublicKeyLen (kind : UInt16) : Option Nat :=
  match kind with
  | 0 => some 256
  | 1 => some 64
  | 2 => some 96
  | 3 => some 132
  | 4 | 6 | 7 => some 32
  | _ => none

/-- A parsed identity: its bytes, and the parts of its signing key. -/
structure Identity where
  raw : Bytes
  signingType : SigningKeyType
  signingFirst : Bytes
  signingRest : Bytes
  deriving DecidableEq

def parseKeyCertificate (src payload : Bytes) (total : Nat) : Except WireError (Identity × Nat) :=
  match SigningKeyType.ofCode (uint16At payload 0) with
  | none => .error .unknownKeyType
  | some signingType =>
    match cryptoPublicKeyLen (uint16At payload 2) with
    | none => .error .unknownKeyType
    | some cryptoLen =>
      let signingExcess := signingType.publicKeyLen - 128
      let cryptoExcess := cryptoLen - 256
      if payload.length ≠ 4 + signingExcess + cryptoExcess then .error .invalidIdentity
      else
        let signingInline := min signingType.publicKeyLen 128
        .ok
          (⟨src.take total, signingType,
              (src.drop (identityBaseLength - signingInline)).take signingInline,
              (payload.drop 4).take signingExcess⟩,
            total)

def parseIdentity (src : Bytes) : Except WireError (Identity × Nat) :=
  if src.length < identityBaseLength + certificateHeader then .error .shortBuffer
  else
    match parseCertificate (src.drop identityBaseLength) with
    | .error error => .error error
    | .ok (certificate, certificateLen) =>
      let total := identityBaseLength + certificateLen
      if certificate.kind ≠ .key then
        .ok (⟨src.take total, .dsaSHA1, (src.drop 256).take 128, []⟩, total)
      else parseKeyCertificate src certificate.payload total

section Exact

variable {src : Bytes} {used : Nat}

theorem parseCertificate_length {certificate : Certificate}
    (h : parseCertificate src = .ok (certificate, used)) :
    used = certificateHeader + certificate.payload.length ∧ used ≤ src.length := by
  unfold parseCertificate at h
  dsimp only at h
  split at h
  · cases h
  next hheader =>
  split at h
  · cases h
  next hlength =>
  split at h
  · cases h
  split at h
  · cases h
  cases h
  rw [length_take, length_drop]
  omega

variable {identity : Identity}

theorem parseIdentity_exact (h : parseIdentity src = .ok (identity, used)) :
    src = identity.raw ++ src.drop used ∧ identity.raw.length = used ∧
      identity.signingFirst.length + identity.signingRest.length =
        identity.signingType.publicKeyLen := by
  unfold parseIdentity at h
  split at h
  · cases h
  next hlength =>
  split at h
  · cases h
  next certificate certificateLen hcertificate =>
  obtain ⟨hused, hwithin⟩ := parseCertificate_length hcertificate
  rw [length_drop] at hwithin
  split at h
  · cases h
    refine ⟨(take_append_drop _ _).symm, length_take_of_le (by omega), ?_⟩
    rw [length_take, length_drop, length_nil]
    unfold identityBaseLength certificateHeader at hlength
    simp only [SigningKeyType.publicKeyLen]
    omega
  · unfold parseKeyCertificate at h
    split at h
    · cases h
    split at h
    · cases h
    dsimp only at h
    split at h
    · cases h
    next hpayload =>
    cases h
    refine ⟨(take_append_drop _ _).symm, length_take_of_le (by omega), ?_⟩
    dsimp only
    rw [length_take, length_drop, length_take, length_drop]
    unfold identityBaseLength certificateHeader at *
    omega

/-- What does not fit into the 128 bytes for the signing key is in the certificate. -/
theorem parseIdentity_signingRest (h : parseIdentity src = .ok (identity, used)) :
    identity.signingRest.length = identity.signingType.publicKeyLen - 128 := by
  unfold parseIdentity at h
  split at h
  · cases h
  split at h
  · cases h
  split at h
  · cases h
    simp only [length_nil, SigningKeyType.publicKeyLen]
  unfold parseKeyCertificate at h
  split at h
  · cases h
  split at h
  · cases h
  dsimp only at h
  split at h
  · cases h
  next hpayload =>
  cases h
  dsimp only
  rw [length_take, length_drop]
  omega

theorem cryptoPublicKeyLen_le {kind : UInt16} {length : Nat}
    (h : cryptoPublicKeyLen kind = some length) : length ≤ 256 := by
  unfold cryptoPublicKeyLen at h
  split at h <;> cases h <;> decide

/-- An identity with a signing key of 32 bytes holds it in one part, and has a certificate of
four bytes. -/
theorem parseIdentity_short (h : parseIdentity src = .ok (identity, used))
    (hkind : identity.signingType.publicKeyLen = 32) : used = 391 ∧ identity.signingRest = [] := by
  have hrest := parseIdentity_signingRest h
  rw [hkind] at hrest
  refine ⟨?_, eq_nil_of_length_eq_zero hrest⟩
  unfold parseIdentity at h
  split at h
  · cases h
  split at h
  · cases h
  next certificate certificateLen hcertificate =>
  obtain ⟨hused, -⟩ := parseCertificate_length hcertificate
  split at h
  · cases h
    cases hkind
  unfold parseKeyCertificate at h
  split at h
  · cases h
  next signingType hsigning =>
  split at h
  · cases h
  next cryptoLen hcrypto =>
  have hshort := cryptoPublicKeyLen_le hcrypto
  dsimp only at h
  split at h
  · cases h
  next hpayload =>
  cases h
  dsimp only at hkind
  unfold certificateHeader at hused
  unfold identityBaseLength
  omega

end Exact

section Append

variable {src : Bytes} {used : Nat}

theorem parseCertificate_used {certificate : Certificate}
    (h : parseCertificate src = .ok (certificate, used)) :
    used = certificateHeader + (uint16At src 1).toNat ∧ used ≤ src.length := by
  unfold parseCertificate at h
  dsimp only at h
  split at h
  · cases h
  next hheader =>
  split at h
  · cases h
  next hlength =>
  split at h
  · cases h
  split at h
  · cases h
  · obtain ⟨-, rfl⟩ := Prod.mk.inj (Except.ok.inj h)
    exact ⟨rfl, by omega⟩

theorem parseCertificate_append_eq (hheader : certificateHeader ≤ src.length)
    (hlength : (uint16At src 1).toNat ≤ src.length - certificateHeader) (rest : Bytes) :
    parseCertificate (src ++ rest) = parseCertificate src := by
  unfold parseCertificate
  dsimp only
  have hword : uint16At (src ++ rest) 1 = uint16At src 1 := uint16At_append_of_le hheader rest
  have hkind : (src ++ rest).getD 0 0 = src.getD 0 0 := by
    unfold certificateHeader at hheader
    rw [getD_eq_getElem?_getD, getElem?_append_left (by omega), getD_eq_getElem?_getD]
  have hpayload : ((src ++ rest).drop certificateHeader).take (uint16At src 1).toNat =
      (src.drop certificateHeader).take (uint16At src 1).toNat := slice_append (by omega) _
  have hlonger : (src ++ rest).length = src.length + rest.length := length_append
  rw [hword, hkind, hpayload, if_neg (by omega), if_neg (by omega), if_neg (by omega),
    if_neg (by omega)]

variable {identity : Identity}

theorem parseIdentity_used (h : parseIdentity src = .ok (identity, used)) :
    used = identityBaseLength + certificateHeader +
        (uint16At (src.drop identityBaseLength) 1).toNat ∧ used ≤ src.length := by
  unfold parseIdentity at h
  split at h
  · cases h
  next hlength =>
  split at h
  · cases h
  next certificate certificateLen hcertificate =>
  obtain ⟨hused, hwithin⟩ := parseCertificate_used hcertificate
  rw [length_drop] at hwithin
  have htotal : identityBaseLength + certificateLen = used := by
    split at h
    · exact (Prod.mk.inj (Except.ok.inj h)).2
    unfold parseKeyCertificate at h
    split at h
    · cases h
    split at h
    · cases h
    dsimp only at h
    split at h
    · cases h
    · exact (Prod.mk.inj (Except.ok.inj h)).2
  omega

theorem parseIdentity_append_eq (hbase : identityBaseLength + certificateHeader ≤ src.length)
    (hlength : (uint16At (src.drop identityBaseLength) 1).toNat ≤
      src.length - (identityBaseLength + certificateHeader)) (rest : Bytes) :
    parseIdentity (src ++ rest) = parseIdentity src := by
  have hlonger : (src ++ rest).length = src.length + rest.length := length_append
  have hdropped : (src.drop identityBaseLength).length = src.length - identityBaseLength :=
    length_drop
  unfold parseIdentity
  rw [if_neg (by omega), if_neg (by omega), drop_append_of_le_length (by omega),
    parseCertificate_append_eq (by omega) (by omega)]
  cases hcertificate : parseCertificate (src.drop identityBaseLength) with
  | error error => rfl
  | ok result =>
    obtain ⟨certificate, certificateLen⟩ := result
    obtain ⟨hused, hwithin⟩ := parseCertificate_used hcertificate
    have hraw : (src ++ rest).take (identityBaseLength + certificateLen) =
        src.take (identityBaseLength + certificateLen) :=
      take_append_of_le_length (by omega)
    have hinside (offset length : Nat) (hoffset : offset + length ≤ identityBaseLength) :
        ((src ++ rest).drop offset).take length = (src.drop offset).take length :=
      slice_append (by omega) _
    have hkey (signingType : SigningKeyType) :=
      hinside (identityBaseLength - min signingType.publicKeyLen 128)
        (min signingType.publicKeyLen 128) (by unfold identityBaseLength; omega)
    dsimp only
    rw [hinside 256 128 (by decide)]
    unfold parseKeyCertificate
    rw [hraw]
    simp only [hkey]

variable (h : parseIdentity src = .ok (identity, used))
include h

theorem parseIdentity_append (rest : Bytes) :
    parseIdentity (src ++ rest) = .ok (identity, used) := by
  obtain ⟨hused, hwithin⟩ := parseIdentity_used h
  rw [parseIdentity_append_eq (by omega) (by omega), h]

theorem parseIdentity_raw :
    parseIdentity identity.raw = .ok (identity, used) := by
  obtain ⟨hsrc, hlength, -⟩ := parseIdentity_exact h
  obtain ⟨hused, -⟩ := parseIdentity_used h
  have hword : uint16At (src.drop identityBaseLength) 1 =
      uint16At (identity.raw.drop identityBaseLength) 1 := by
    unfold certificateHeader at hused
    rw [hsrc, drop_append_of_le_length (by omega)]
    exact uint16At_append_of_le (by rw [length_drop]; omega) _
  rw [hword] at hused
  rw [hsrc, parseIdentity_append_eq (by omega) (by omega)] at h
  exact h

end Append

end Ivnp.Foundation
