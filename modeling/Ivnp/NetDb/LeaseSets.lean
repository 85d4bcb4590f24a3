import Ivnp.Foundation.Identity
import Ivnp.Foundation.Mapping

/-!
The four lease sets of the network database: the legacy one, the second version,
the meta lease set that refers to others, and the encrypted one. Each is parsed
from the exact bytes of a store; the signature is checked over the bytes before
it, with the key of the destination or with one that it has authorised offline.
-/

namespace Ivnp.NetDb

open Ivnp.Lib Ivnp.Foundation
open Ivnp.Foundation.Cursor (yields_bind yields_fail yields_pure)

def maxLeaseSetBytes : Nat := 62690
def minEncryptedLeaseSetDataBytes : Nat := 24
def maxEncryptedLeaseSetDataBytes : Nat := 4096
def maxLeases : Nat := 16
def leaseSetOfflineFlag : UInt16 := 1

/-- The primitives that are not modelled. `verify` takes the key, the message
and the signature, both of the lengths that belong to the type. -/
structure NetDbCrypto where
  sha256 : Bytes → Hash
  verify : SigningKeyType → Bytes → Bytes → Bytes → Except WireError Bool

def NetDbCrypto.verifySignature (crypto : NetDbCrypto) (kind : SigningKeyType)
    (first rest message signature : Bytes) : Except WireError Bool :=
  if first.length + rest.length ≠ kind.publicKeyLen then .error .invalidIdentity
  else if signature.length ≠ kind.signatureLen then .error .malformedSignature
  else crypto.verify kind (first ++ rest) message signature

/-- Keys that are unique and sorted. -/
def strictlySorted : List Bytes → Bool
  | first :: second :: rest => first < second ∧ strictlySorted (second :: rest)
  | _ => true

/-- `ParseMapping` and `ValidateCanonical` on what is left. -/
def readMapping : Cursor Mapping := fun rest =>
  if rest.length < 2 ∨ beNat (rest.take 2) > rest.length - 2 then .error .shortBuffer
  else
    match parseMapping rest with
    | none => .error .invalidMapping
    | some (mapping, used) =>
      let entries := (mappingEntries mapping.raw.length (mapping.raw.drop 2)).getD []
      if !strictlySorted (entries.map Prod.fst) then .error .unsortedMapping
      else .ok (mapping, rest.drop used)

variable {src : Bytes}

structure Lease where
  gateway : Hash
  tunnelID : UInt32
  endDate : UInt64
  deriving DecidableEq

def parseLease (src : Bytes) : Except WireError Lease :=
  if src.length < 44 then .error .shortBuffer
  else if uint32At src 32 = 0 then .error .malformed
  else .ok ⟨arrayAt 32 src 0, uint32At src 32, UInt64.ofNat (beNat ((src.drop 36).take 8))⟩

structure LeaseSet where
  destination : Identity
  encryptionKey : Bytes
  signingKey : Bytes
  leaseCount : UInt8
  leaseBytes : Bytes
  leases : List Lease
  signature : Bytes
  unsigned : Bytes
  raw : Bytes
  deriving DecidableEq

def readLeaseSet (src : Bytes) (destination : Identity) : Cursor LeaseSet := do
  let encryptionKey ← Cursor.readBytes 256
  let signingKey ← Cursor.readBytes destination.signingType.publicKeyLen
  let leaseCount ← Cursor.readU8
  if leaseCount.toNat > maxLeases then
    Cursor.fail .tooManyItems
  else
    let (leases, leaseBytes) ← (Cursor.readRecords leaseCount.toNat 44 parseLease).withBytes
    let unread ← get
    let signature ← Cursor.readBytes destination.signingType.signatureLen
    return ⟨destination, encryptionKey, signingKey, leaseCount, leaseBytes, leases, signature,
      src.take (src.length - unread.length), src⟩

/-- The end of every parser: nothing may be left. -/
def finishParse {α : Type} (result : Except WireError (α × Bytes)) : Except WireError α :=
  match result with
  | .error error => .error error
  | .ok (set, rest) => if rest ≠ [] then .error .malformed else .ok set

def parseLeaseSet (src : Bytes) : Except WireError LeaseSet :=
  if src.length > maxLeaseSetBytes then .error .structureTooLarge
  else
    match parseIdentity src with
    | .error error => .error error
    | .ok (destination, used) => finishParse ((readLeaseSet src destination).run (src.drop used))

theorem finishParse_yields {α : Type} {cursor : Cursor α} {P : α → Prop} {rest : Bytes} {set : α}
    (hyields : cursor.Yields P) (h : finishParse (cursor.run rest) = .ok set) : P set := by
  unfold finishParse at h
  split at h
  · cases h
  next found left hrun =>
  split at h
  · cases h
  · cases h
    exact hyields _ _ _ hrun

theorem parseLeaseSet_raw {set : LeaseSet} (h : parseLeaseSet src = .ok set) : set.raw = src := by
  unfold parseLeaseSet at h
  split at h
  · cases h
  split at h
  · cases h
  next destination used hidentity =>
  refine finishParse_yields (P := fun set => set.raw = src) ?_ h
  refine yields_bind fun _ => yields_bind fun _ => yields_bind fun count => ?_
  split
  · exact yields_fail _
  · exact yields_bind fun _ => yields_bind fun _ => yields_bind fun _ => yields_pure rfl

def LeaseSet.verify (crypto : NetDbCrypto) (set : LeaseSet) : Except WireError Bool :=
  crypto.verifySignature set.destination.signingType set.destination.signingFirst
    set.destination.signingRest set.unsigned set.signature

structure OfflineSignature where
  expires : UInt32
  kind : SigningKeyType
  publicKey : Bytes
  signature : Bytes
  signed : Bytes
  deriving DecidableEq

def readOffline (signingType : SigningKeyType) : Cursor OfflineSignature := do
  let start ← get
  let expires ← Cursor.readU32
  let typeID ← Cursor.readU16
  match SigningKeyType.ofCode typeID with
  | none => Cursor.fail .unknownKeyType
  | some kind =>
    let publicKey ← Cursor.readBytes kind.publicKeyLen
    let signature ← Cursor.readBytes signingType.signatureLen
    return ⟨expires, kind, publicKey, signature, start.take (6 + kind.publicKeyLen)⟩

structure LeaseSet2Header where
  destination : Identity
  published : UInt32
  expires : UInt16
  flags : UInt16
  offline : Option OfflineSignature
  deriving DecidableEq

def readHeaderFields (destination : Identity) : Cursor LeaseSet2Header := do
  let published ← Cursor.readU32
  let expires ← Cursor.readU16
  let flags ← Cursor.readU16
  if flags &&& leaseSetOfflineFlag = 0 then
    return ⟨destination, published, expires, flags, none⟩
  else
    let offline ← readOffline destination.signingType
    return ⟨destination, published, expires, flags, some offline⟩

/-- `parseLeaseSet2Header`: the header and what follows it. -/
def parseLeaseSet2Header (src : Bytes) : Except WireError (LeaseSet2Header × Bytes) :=
  match parseIdentity src with
  | .error error => .error error
  | .ok (destination, used) => (readHeaderFields destination).run (src.drop used)

/-- The type of the signature at the end. -/
def LeaseSet2Header.signingType (header : LeaseSet2Header) : SigningKeyType :=
  match header.offline with
  | none => header.destination.signingType
  | some offline => offline.kind

/-- `Verify` of a set with this header: the offline authorisation, which must
outlive the set and the end dates of its leases, and the signature over the type
of the store and the set. -/
def LeaseSet2Header.verify (crypto : NetDbCrypto) (header : LeaseSet2Header) (storeType : UInt8)
    (endDates : List UInt32) (unsigned signature : Bytes) : Except WireError Bool :=
  let destination := header.destination
  match header.offline with
  | none =>
    crypto.verifySignature destination.signingType destination.signingFirst
      destination.signingRest (storeType :: unsigned) signature
  | some offline =>
    if header.published > offline.expires ∨
        header.published.toNat + header.expires.toNat > offline.expires.toNat then
      .ok false
    else if endDates.any (· > offline.expires) then .ok false
    else
      match crypto.verifySignature destination.signingType destination.signingFirst
        destination.signingRest offline.signed offline.signature with
      | .error error => .error error
      | .ok false => .ok false
      | .ok true =>
        crypto.verifySignature offline.kind offline.publicKey [] (storeType :: unsigned) signature

structure Lease2 where
  gateway : Hash
  tunnelID : UInt32
  endDate : UInt32
  deriving DecidableEq

def parseLease2 (src : Bytes) : Except WireError Lease2 :=
  if src.length < 40 then .error .shortBuffer
  else if uint32At src 32 = 0 then .error .malformed
  else .ok ⟨arrayAt 32 src 0, uint32At src 32, uint32At src 36⟩

structure EncryptionKey where
  kind : UInt16
  data : Bytes
  deriving DecidableEq

def nextKey : Cursor EncryptionKey := fun rest =>
  if rest.length < 4 then .error .shortBuffer
  else
    let kind := uint16At rest 0
    let keyLen := (uint16At rest 2).toNat
    if kind = 5 then .error .noSupportedEncryptionKey
    else if keyLen > rest.length - 4 then .error .shortBuffer
    else if (cryptoPublicKeyLen kind).any (· ≠ keyLen) then .error .invalidKeyLength
    else .ok (⟨kind, (rest.drop 4).take keyLen⟩, rest.drop (4 + keyLen))

/-- The keys of an announced count. -/
def readKeys : Nat → Cursor (List EncryptionKey) := Cursor.readMany nextKey

/-- A parsed set. The keys and leases are those that the iterators over `keyBytes` and
`leaseBytes` yield. -/
structure LeaseSet2 where
  header : LeaseSet2Header
  options : Mapping
  keyCount : UInt8
  keyBytes : Bytes
  keys : List EncryptionKey
  leaseCount : UInt8
  leaseBytes : Bytes
  leases : List Lease2
  signature : Bytes
  unsigned : Bytes
  raw : Bytes
  deriving DecidableEq

def readLeaseSet2 (src : Bytes) (header : LeaseSet2Header) : Cursor LeaseSet2 := do
  let options ← readMapping
  let keyCount ← Cursor.readU8
  if keyCount = 0 then
    Cursor.fail .malformed
  else
    let (keys, keyBytes) ← (readKeys keyCount.toNat).withBytes
    let leaseCount ← Cursor.readU8
    if leaseCount = 0 ∨ leaseCount.toNat > maxLeases then
      Cursor.fail .tooManyItems
    else
      let (leases, leaseBytes) ← (Cursor.readRecords leaseCount.toNat 40 parseLease2).withBytes
      let unread ← get
      let signature ← Cursor.readBytes header.signingType.signatureLen
      return ⟨header, options, keyCount, keyBytes, keys, leaseCount, leaseBytes, leases, signature,
        src.take (src.length - unread.length), src⟩

def parseLeaseSet2 (src : Bytes) : Except WireError LeaseSet2 :=
  if src.length > maxLeaseSetBytes then .error .structureTooLarge
  else
    match parseLeaseSet2Header src with
    | .error error => .error error
    | .ok (header, rest) => finishParse ((readLeaseSet2 src header).run rest)

theorem readLeaseSet2_yields (src : Bytes) (header : LeaseSet2Header) :
    (readLeaseSet2 src header).Yields fun set => set.raw = src ∧ set.header = header := by
  refine yields_bind fun _ => yields_bind fun count => ?_
  split
  · exact yields_fail _
  refine yields_bind fun _ => yields_bind fun count => ?_
  split
  · exact yields_fail _
  · exact yields_bind fun _ => yields_bind fun _ => yields_bind fun _ => yields_pure ⟨rfl, rfl⟩

theorem parseLeaseSet2_eq_ok {set : LeaseSet2} (h : parseLeaseSet2 src = .ok set) :
    set.raw = src ∧ ∃ rest, parseLeaseSet2Header src = .ok (set.header, rest) := by
  unfold parseLeaseSet2 at h
  split at h
  · cases h
  split at h
  · cases h
  next header rest hheader =>
  obtain ⟨hraw, hsame⟩ := finishParse_yields (readLeaseSet2_yields _ header) h
  exact ⟨hraw, rest, by rw [hsame, hheader]⟩

def LeaseSet2.verify (crypto : NetDbCrypto) (set : LeaseSet2) : Except WireError Bool :=
  set.header.verify crypto 3 (set.leases.map Lease2.endDate) set.unsigned set.signature

structure MetaLease where
  gateway : Hash
  kind : UInt8
  cost : UInt8
  endDate : UInt32
  deriving DecidableEq

def parseMetaLease (src : Bytes) : Except WireError MetaLease :=
  if src.length < 40 then .error .shortBuffer
  else if src.getD 32 0 ≠ 0 ∨ src.getD 33 0 ≠ 0 ∨ src.getD 34 0 &&& 0xf0 ≠ 0 then .error .malformed
  else
    let entryType := src.getD 34 0 &&& 0x0f
    if entryType ≠ 0 ∧ entryType ≠ 1 ∧ entryType ≠ 3 ∧ entryType ≠ 5 then .error .malformed
    else .ok ⟨arrayAt 32 src 0, entryType, src.getD 35 0, uint32At src 36⟩

structure MetaLeaseSet where
  header : LeaseSet2Header
  options : Mapping
  leaseCount : UInt8
  leaseBytes : Bytes
  leases : List MetaLease
  revocations : Bytes
  signature : Bytes
  unsigned : Bytes
  raw : Bytes
  deriving DecidableEq

def readMetaLeaseSet (src : Bytes) (header : LeaseSet2Header) : Cursor MetaLeaseSet := do
  let options ← readMapping
  let count ← Cursor.readU8
  if count = 0 then
    Cursor.fail .tooManyItems
  else
    let (leases, leaseBytes) ← (Cursor.readRecords count.toNat 40 parseMetaLease).withBytes
    let revocationCount ← Cursor.readU8
    let revocations ← Cursor.readBytes (revocationCount.toNat * 32)
    let unread ← get
    let signature ← Cursor.readBytes header.signingType.signatureLen
    return ⟨header, options, count, leaseBytes, leases, revocations, signature,
      src.take (src.length - unread.length), src⟩

def parseMetaLeaseSet (src : Bytes) : Except WireError MetaLeaseSet :=
  if src.length > maxLeaseSetBytes then .error .structureTooLarge
  else
    match parseLeaseSet2Header src with
    | .error error => .error error
    | .ok (header, rest) => finishParse ((readMetaLeaseSet src header).run rest)

theorem parseMetaLeaseSet_raw {set : MetaLeaseSet}
    (h : parseMetaLeaseSet src = .ok set) : set.raw = src := by
  unfold parseMetaLeaseSet at h
  split at h
  · cases h
  split at h
  · cases h
  next header rest hheader =>
  refine finishParse_yields (P := fun set => set.raw = src) ?_ h
  refine yields_bind fun _ => yields_bind fun count => ?_
  split
  · exact yields_fail _
  · exact yields_bind fun _ => yields_bind fun _ => yields_bind fun _ =>
      yields_bind fun _ => yields_bind fun _ => yields_pure rfl

def MetaLeaseSet.verify (crypto : NetDbCrypto) (set : MetaLeaseSet) : Except WireError Bool :=
  set.header.verify crypto 7 (set.leases.map MetaLease.endDate) set.unsigned set.signature

section Encrypted

structure EncryptedLeaseSet where
  signingType : SigningKeyType
  blindedPublicKey : Bytes
  published : UInt32
  expires : UInt16
  flags : UInt16
  offline : Option OfflineSignature
  encryptedData : Bytes
  signature : Bytes
  unsigned : Bytes
  raw : Bytes
  deriving DecidableEq

def readOptionalOffline (signingType : SigningKeyType) (flags : UInt16) :
    Cursor (Option OfflineSignature) := do
  if flags &&& leaseSetOfflineFlag = 0 then
    return none
  else
    let offline ← readOffline signingType
    return some offline

def readEncryptedLeaseSet (src : Bytes) (signingType : SigningKeyType) :
    Cursor EncryptedLeaseSet := do
  let publicKey ← Cursor.readBytes signingType.publicKeyLen
  let published ← Cursor.readU32
  let expires ← Cursor.readU16
  let flags ← Cursor.readU16
  let offline ← readOptionalOffline signingType flags
  let length ← Cursor.readU16
  if length.toNat < minEncryptedLeaseSetDataBytes ∨
      length.toNat > maxEncryptedLeaseSetDataBytes then
    Cursor.fail .malformed
  else
    let encrypted ← Cursor.readBytes length.toNat
    let unread ← get
    let signatureType := (offline.map OfflineSignature.kind).getD signingType
    let signature ← Cursor.readBytes signatureType.signatureLen
    return ⟨signingType, publicKey, published, expires, flags, offline, encrypted, signature,
      src.take (src.length - unread.length), src⟩

def parseEncryptedLeaseSet (src : Bytes) : Except WireError EncryptedLeaseSet :=
  if src.length > maxLeaseSetBytes then .error .structureTooLarge
  else
    match Cursor.readU16.run src with
    | .error error => .error error
    | .ok (typeID, rest) =>
      match SigningKeyType.ofCode typeID with
      | none => .error .unknownKeyType
      | some signingType => finishParse ((readEncryptedLeaseSet src signingType).run rest)

theorem parseEncryptedLeaseSet_raw {set : EncryptedLeaseSet}
    (h : parseEncryptedLeaseSet src = .ok set) : set.raw = src := by
  unfold parseEncryptedLeaseSet at h
  split at h
  · cases h
  split at h
  · cases h
  split at h
  · cases h
  next signingType hkind =>
  refine finishParse_yields (P := fun set => set.raw = src) ?_ h
  refine yields_bind fun _ => yields_bind fun _ => yields_bind fun _ =>
    yields_bind fun _ => yields_bind fun _ => yields_bind fun length => ?_
  split
  · exact yields_fail _
  · exact yields_bind fun _ => yields_bind fun _ => yields_bind fun _ => yields_pure rfl

namespace EncryptedLeaseSet

def hash (crypto : NetDbCrypto) (set : EncryptedLeaseSet) : Hash :=
  crypto.sha256 (natBE 2 set.signingType.code.toNat ++ set.blindedPublicKey)

def verify (crypto : NetDbCrypto) (set : EncryptedLeaseSet) : Except WireError Bool :=
  match set.offline with
  | none =>
    crypto.verifySignature set.signingType set.blindedPublicKey [] (5 :: set.unsigned)
      set.signature
  | some offline =>
    if set.published > offline.expires ∨
        set.published.toNat + set.expires.toNat > offline.expires.toNat then
      .ok false
    else
      match crypto.verifySignature set.signingType set.blindedPublicKey [] offline.signed
        offline.signature with
      | .error error => .error error
      | .ok false => .ok false
      | .ok true =>
        crypto.verifySignature offline.kind offline.publicKey [] (5 :: set.unsigned)
          set.signature

end EncryptedLeaseSet

end Encrypted

end Ivnp.NetDb
