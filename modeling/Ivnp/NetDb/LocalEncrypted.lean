import Ivnp.Foundation.EncryptedSigning
import Ivnp.NetDb.LocalLeaseSet2

/-!
The encrypted lease set of a local destination (`local_encrypted_ls2.go`), and how a client
opens it (`encrypted_resolution.go`). The signed lease set of the destination is encrypted
twice: the inner layer with a cookie that every authorised client can recover, the outer one
with what everyone knows who knows the destination and the secret.
-/

namespace Ivnp.NetDb

open Ivnp.Lib Ivnp.Foundation

inductive ElsError where
  | encryptedLeaseSet
  | authorization
  | invalidSignature
  | expired
  | signingKey
  | keyExchange
  | destinationSmall
  | leaseSet (error : LocalError)
  | wire (error : WireError)
  deriving DecidableEq

/-- The primitives that are not modelled: the ChaCha20 key stream from its first block on,
X25519, which fails on a shared secret of zero, and the signatures. -/
structure ElsPrimitives where
  keystream : FixedBytes 32 → FixedBytes 12 → Nat → UInt8
  x25519Public : FixedBytes 32 → FixedBytes 32
  x25519 : (privateKey publicKey : FixedBytes 32) → Option (FixedBytes 32)
  ed25519Sign : Bytes → Bytes → Option (FixedBytes 64)
  red25519Sign : FixedBytes 32 → Bytes → Option (FixedBytes 64)

def orError {α : Type} (error : ElsError) : Option α → Except ElsError α
  | none => .error error
  | some value => .ok value

section Layers

variable (hashes : BlindingHashes) (primitives : ElsPrimitives)

def elsStream (key : FixedBytes 32) (nonce : FixedBytes 12) (src : Bytes) : Bytes :=
  src.mapIdx fun index byte => byte ^^^ primitives.keystream key nonce index

/-- The key and the nonce of a layer. -/
def elsKeys (salt saltInput : Bytes) (info : String) : FixedBytes 32 × FixedBytes 12 :=
  let keys := hashes.hkdf saltInput salt (info.toList.map (·.toUInt8)) 44
  (arrayAt 32 keys.val 0, arrayAt 12 keys.val 32)

def elsEncrypt (input saltInput : Bytes) (info : String) (salt : FixedBytes 32) : Bytes :=
  let (key, nonce) := elsKeys hashes salt.val saltInput info
  salt.val ++ elsStream primitives key nonce input

def elsDecrypt (input saltInput : Bytes) (info : String) : Except ElsError Bytes :=
  if input.length < 32 then .error .encryptedLeaseSet
  else
    let (key, nonce) := elsKeys hashes (input.take 32) saltInput info
    .ok (elsStream primitives key nonce (input.drop 32))

/-- What a client's entry is made with, and the identifier it is found by. -/
structure ElsClientMaterial where
  key : FixedBytes 32
  nonce : FixedBytes 12
  id : FixedBytes 8

def elsClientMaterial (salt input : Bytes) (info : String) : ElsClientMaterial :=
  let material := hashes.hkdf input salt (info.toList.map (·.toUInt8)) 52
  ⟨arrayAt 32 material.val 0, arrayAt 12 material.val 32, arrayAt 8 material.val 44⟩

/-- The material of a client who is authorised by a key exchange. -/
def dhMaterial (shared client subcredential : FixedBytes 32) (ephemeral : Bytes)
    (published : UInt32) : ElsClientMaterial :=
  elsClientMaterial hashes ephemeral
    (shared.val ++ client.val ++ subcredential.val ++ natBE 4 published.toNat) "ELS2_XCA"

/-- The material of a client who is authorised by a shared key. -/
def pskMaterial (client subcredential : FixedBytes 32) (salt : Bytes) (published : UInt32) :
    ElsClientMaterial :=
  elsClientMaterial hashes salt (client.val ++ subcredential.val ++ natBE 4 published.toNat)
    "ELS2PSKA"

def clientEntry (material : ElsClientMaterial) (authCookie : FixedBytes 32) : Bytes :=
  material.id.val ++ elsStream primitives material.key material.nonce authCookie.val

end Layers

structure ElsRandom where
  authCookie : FixedBytes 32
  ephemeral : FixedBytes 32
  innerSalt : FixedBytes 32
  outerSalt : FixedBytes 32

/-- What `NewLocalEncryptedLeaseSet` has checked stands in the last fields. The identity of
the destination is that of the inner set, and it has no offline key. -/
structure LocalEncryptedLeaseSet where
  keys : LocalSigningKeys
  inner : LocalLeaseSet2
  secret : Bytes
  dhClients : List (FixedBytes 32)
  pskClients : List (FixedBytes 32)
  exclusive : dhClients = [] ∨ pskClients = []
  few : dhClients.length + pskClients.length ≤ 0xffff ∧
    1 + 32 + 2 + 40 * (dhClients.length + pskClients.length) + 33 < maxLeaseSetBytes
  signingType : keys.signingType = inner.identity.signingType
  signingPublic : keys.signingPublic = inner.identity.signingFirst ++ inner.identity.signingRest
  online : inner.offline = none

namespace LocalEncryptedLeaseSet

variable {Point : Type} [AddCommGroup Point] (curve : EdwardsCurve Point)
  (hashes : BlindingHashes) (primitives : ElsPrimitives)

def sign (set : LocalEncryptedLeaseSet) (message : Bytes) : Option Bytes :=
  match set.keys.signingType with
  | .edDSASHA512Ed25519 => (primitives.ed25519Sign set.keys.signingPrivate message).map Subtype.val
  | .redDSASHA512Ed25519 =>
    (primitives.red25519Sign (FixedBytes.copy 32 set.keys.signingPrivate) message).map
      Subtype.val
  | _ => none

/-- The first part of the outer layer: who may open the inner one. -/
def authorizationBytes (set : LocalEncryptedLeaseSet) (subcredential : FixedBytes 32)
    (published : UInt32) (random : ElsRandom) : Except ElsError Bytes :=
  if set.dhClients = [] ∧ set.pskClients = [] then .ok [0]
  else if set.dhClients ≠ [] then do
    let ephemeral := primitives.x25519Public random.ephemeral
    let entries ← set.dhClients.mapM fun client => do
      let shared ← orError .keyExchange (primitives.x25519 random.ephemeral client)
      return clientEntry primitives
        (dhMaterial hashes shared client subcredential ephemeral.val published) random.authCookie
    return 1 :: (ephemeral.val ++ natBE 2 set.dhClients.length ++ entries.flatten)
  else
    .ok (3 :: (random.ephemeral.val ++ natBE 2 set.pskClients.length ++
      set.pskClients.flatMap fun client => clientEntry primitives
        (pskMaterial hashes client subcredential random.ephemeral.val published)
        random.authCookie))

/-- `finishOuter`: the header of the outer set, the encrypted data and the signature with the
blinded key. -/
def finishOuter (set : LocalEncryptedLeaseSet) (space : Nat) (blinded privateKey : FixedBytes 32)
    (published : UInt32) (outerCiphertext : Bytes) : Except ElsError Bytes :=
  let latest := (set.inner.leases.map Lease2.endDate).foldl max 0
  if latest ≤ published ∨ latest.toNat - published.toNat > 0xffff then .error .encryptedLeaseSet
  else
    let expires := latest.toNat - published.toNat
    let unsigned := natBE 2 SigningKeyType.redDSASHA512Ed25519.code.toNat ++ (blinded.val ++
      (natBE 4 published.toNat ++ (natBE 2 expires ++ (natBE 2 0 ++
        (natBE 2 outerCiphertext.length ++ outerCiphertext)))))
    if space < unsigned.length + 64 then .error .destinationSmall
    else do
      let signature ← orError .signingKey (primitives.red25519Sign privateKey (5 :: unsigned))
      return unsigned ++ signature.val

def marshalTo (set : LocalEncryptedLeaseSet) (space : Nat) (nowMillis : UInt64)
    (random : ElsRandom) : Except ElsError Bytes :=
  if nowMillis / 1000 > 0xffffffff then .error .encryptedLeaseSet
  else do
    let payload ← (set.inner.marshalTo maxLeaseSetBytes nowMillis (set.sign primitives)).mapError
      .leaseSet
    let published := (nowMillis / 1000).toUInt32
    let (privateKey, blinded) ← orError .signingKey
      (set.keys.encryptedLeaseSetBlinding curve hashes published.toNat set.secret)
    let subcredential ← orError .signingKey (encryptedLeaseSetSubcredential hashes
      set.inner.identity.signingType set.keys.signingPublic blinded.val)
    let authorization ← set.authorizationBytes hashes primitives subcredential published random
    let cookie := if authorization.head? = some 0 then [] else random.authCookie.val
    let innerInput := cookie ++ subcredential.val ++ natBE 4 published.toNat
    let innerCiphertext := elsEncrypt hashes primitives (3 :: payload) innerInput "ELS2_L2K"
      random.innerSalt
    let outerInput := subcredential.val ++ natBE 4 published.toNat
    let outerCiphertext := elsEncrypt hashes primitives (authorization ++ innerCiphertext)
      outerInput "ELS2_L1K" random.outerSalt
    if outerCiphertext.length > 0xffff then .error .encryptedLeaseSet
    else set.finishOuter primitives space blinded privateKey published outerCiphertext

end LocalEncryptedLeaseSet

structure ElsClientAuthorization where
  dhPrivate : FixedBytes 32
  dhPublic : FixedBytes 32
  psk : FixedBytes 32
  useDH : Bool
  usePSK : Bool

section Open

variable (hashes : BlindingHashes) (primitives : ElsPrimitives)

def findCookie (entries : Bytes) (material : ElsClientMaterial) : Nat → Option Bytes
  | 0 => none
  | count + 1 =>
    let entry := entries.take 40
    if entry.take 8 = material.id.val then
      some (elsStream primitives material.key material.nonce (entry.drop 8))
    else findCookie (entries.drop 40) material count

/-- The cookie of a client, and where the inner layer starts. The first 32 bytes after the
flags are the key or the salt that the material is derived with. -/
def openAuthorization (use : Bool) (layer1 : Bytes)
    (derive : FixedBytes 32 → Except ElsError ElsClientMaterial) :
    Except ElsError (Bytes × Nat) :=
  if use = false ∨ layer1.length < 1 + 34 then .error .authorization
  else
    let count := (uint16At layer1 33).toNat
    if count = 0 ∨ layer1.length < 35 + 40 * count then .error .encryptedLeaseSet
    else do
      let material ← derive (arrayAt 32 layer1 1)
      match findCookie primitives (layer1.drop 35) material count with
      | none => .error .authorization
      | some cookie => .ok (cookie, 35 + 40 * count)

def authCookieOf (authorization : ElsClientAuthorization) (subcredential : FixedBytes 32)
    (published : UInt32) (layer1 : Bytes) : Except ElsError (Bytes × Nat) :=
  match layer1.getD 0 0 with
  | 0 => .ok ([], 1)
  | 1 => openAuthorization primitives authorization.useDH layer1 fun ephemeral => do
      let shared ← orError .authorization (primitives.x25519 authorization.dhPrivate ephemeral)
      return dhMaterial hashes shared authorization.dhPublic subcredential ephemeral.val published
  | 3 => openAuthorization primitives authorization.usePSK layer1 fun salt =>
    .ok (pskMaterial hashes authorization.psk subcredential salt.val published)
  | _ => .error .encryptedLeaseSet

/-- The end of `DecryptEncryptedLeaseSet`: the lease set of the inner layer, if it is the one
of the destination and no lease has ended. -/
def readInner (crypto : NetDbCrypto) (set : EncryptedLeaseSet) (identity : Identity)
    (now : UInt64) (inner : Bytes) : Except ElsError LeaseSet2 :=
  if inner.length < 2 ∨ inner.getD 0 0 ≠ 3 then .error .encryptedLeaseSet
  else
    match parseLeaseSet2 (inner.drop 1) with
    | .error error => .error (.wire error)
    | .ok parsed =>
      match parsed.verify crypto with
      | .ok true =>
        if crypto.sha256 parsed.header.destination.raw ≠ crypto.sha256 identity.raw ∨
            parsed.header.published ≠ set.published ∨ parsed.header.expires ≠ set.expires then
          .error .encryptedLeaseSet
        else if parsed.leases.any fun lease => lease.endDate.toUInt64 ≤ now then
          .error .expired
        else .ok parsed
      | _ => .error .encryptedLeaseSet

def decryptEncryptedLeaseSet {Point : Type} [AddCommGroup Point] (curve : EdwardsCurve Point)
    (crypto : NetDbCrypto) (set : EncryptedLeaseSet) (identity : Identity) (secret : Bytes)
    (authorization : ElsClientAuthorization) (nowMillis : UInt64) : Except ElsError LeaseSet2 :=
  if set.signingType ≠ .redDSASHA512Ed25519 ∨ set.flags ≠ 0 ∨ set.expires = 0 then
    .error .encryptedLeaseSet
  else if set.verify crypto ≠ .ok true then .error .invalidSignature
  else
    let now := nowMillis / 1000
    if now < set.published.toUInt64 ∨ now.toNat ≥ set.published.toNat + set.expires.toNat then
      .error .expired
    else if identity.signingRest.length ≠ 0 then .error .encryptedLeaseSet
    else do
      let blinded ← orError .encryptedLeaseSet (blindEncryptedLeaseSetPublic curve hashes
        identity.signingType identity.signingFirst set.published.toNat secret)
      if blinded.val ≠ set.blindedPublicKey then .error .encryptedLeaseSet
      else
        let subcredential ← orError .signingKey (encryptedLeaseSetSubcredential hashes
          identity.signingType identity.signingFirst blinded.val)
        let layer1 ← elsDecrypt hashes primitives set.encryptedData
          (subcredential.val ++ natBE 4 set.published.toNat) "ELS2_L1K"
        if layer1.length < 1 then .error .encryptedLeaseSet
        else
          let (authCookie, off) ← authCookieOf hashes primitives authorization subcredential
            set.published layer1
          if layer1.length ≤ off + 32 then .error .encryptedLeaseSet
          else
            let inner ← elsDecrypt hashes primitives (layer1.drop off)
              (authCookie ++ subcredential.val ++ natBE 4 set.published.toNat) "ELS2_L2K"
            readInner crypto set identity now inner

end Open

end Ivnp.NetDb
