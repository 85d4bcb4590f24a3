import Ivnp.NetDb.LeaseSets

/-!
The router info of the network database: the identity of a router, its addresses and its
options, signed with its key.
-/

namespace Ivnp.NetDb

open Ivnp.Lib Ivnp.Foundation

def maxRouterInfoBytes : Nat := 4 * 1024

structure RouterAddress where
  cost : UInt8
  expiration : UInt64
  transportStyle : Bytes
  options : Mapping
  raw : Bytes
  deriving DecidableEq

def readAddressFields : Cursor (UInt8 × UInt64 × Bytes × Mapping) := do
  let cost ← Cursor.readU8
  let expiration ← Cursor.readU64
  let styleLen ← Cursor.readU8
  if styleLen = 0 then
    Cursor.fail .malformed
  else
    let style ← Cursor.readBytes styleLen.toNat
    let options ← readMapping
    return (cost, expiration, style, options)

/-- `ParseRouterAddress`, which is also a turn of the iterator over the addresses. -/
def readRouterAddress : Cursor RouterAddress := do
  let ((cost, expiration, style, options), raw) ← readAddressFields.withBytes
  return ⟨cost, expiration, style, options, raw⟩

/-- The addresses of an announced count. -/
def readAddresses : Nat → Cursor (List RouterAddress) := Cursor.readMany readRouterAddress

/-- A parsed router info. The addresses are those that the iterator over `addressBytes`
yields. -/
structure RouterInfo where
  identity : Identity
  published : UInt64
  addressCount : UInt8
  addressBytes : Bytes
  addresses : List RouterAddress
  peerCount : UInt8
  peerHashes : Bytes
  options : Mapping
  signature : Bytes
  unsigned : Bytes
  raw : Bytes
  deriving DecidableEq

def readRouterInfo (src : Bytes) (identity : Identity) : Cursor RouterInfo := do
  let published ← Cursor.readU64
  let addressCount ← Cursor.readU8
  let (addresses, addressBytes) ← (readAddresses addressCount.toNat).withBytes
  let peerCount ← Cursor.readU8
  let peerHashes ← Cursor.readBytes (peerCount.toNat * 32)
  let options ← readMapping
  let unread ← get
  let signature ← Cursor.readBytes identity.signingType.signatureLen
  return ⟨identity, published, addressCount, addressBytes, addresses, peerCount, peerHashes,
    options, signature, src.take (src.length - unread.length), src⟩

def parseRouterInfo (src : Bytes) : Except WireError RouterInfo :=
  if src.length > maxRouterInfoBytes then .error .structureTooLarge
  else
    match parseIdentity src with
    | .error error => .error error
    | .ok (identity, used) => finishParse ((readRouterInfo src identity).run (src.drop used))

def RouterInfo.verify (crypto : NetDbCrypto) (info : RouterInfo) : Except WireError Bool :=
  crypto.verifySignature info.identity.signingType info.identity.signingFirst
    info.identity.signingRest info.unsigned info.signature

end Ivnp.NetDb
