import Ivnp.NetDb.Database

/-!
The payload of a `DatabaseStore` message: the key, the type of what is stored, a
reply token with where to send the acknowledgement, and the stored bytes.
-/

namespace Ivnp.NetDb

open Ivnp.Lib Ivnp.Foundation

def i2pdMaxPayload : Nat := 62690

inductive CodecError where
  | invalidDatabaseStore
  | payloadTooLarge
  | shortBuffer
  | malformed
  | unknownStoreType
  deriving DecidableEq

inductive StoreContent where
  | routerInfo
  | leases (kind : StoreType)
  deriving DecidableEq

namespace StoreContent

def code : StoreContent → UInt8
  | routerInfo => 0
  | leases .leaseSet => 1
  | leases .leaseSet2 => 3
  | leases .encryptedLeaseSet => 5
  | leases .metaLeaseSet => 7

def ofCode (code : UInt8) : Option StoreContent :=
  match code with
  | 0 => some routerInfo
  | 1 => some (leases .leaseSet)
  | 3 => some (leases .leaseSet2)
  | 5 => some (leases .encryptedLeaseSet)
  | 7 => some (leases .metaLeaseSet)
  | _ => none

theorem ofCode_code (content : StoreContent) : ofCode (content.code &&& 0x0f) = some content := by
  rcases content with _ | kind
  · rfl
  · cases kind <;> rfl

end StoreContent

structure StoreMessage where
  key : Hash
  content : StoreContent
  replyToken : UInt32
  replyTunnelID : UInt32
  replyGateway : Hash
  data : Bytes

def readStored (content : StoreContent) (payload : Bytes) (off : Nat) : Except CodecError Bytes :=
  match content with
  | .routerInfo =>
    if payload.length - off < 2 then .error .shortBuffer
    else if (uint16At payload off).toNat ≠ payload.length - (off + 2) then .error .malformed
    else if off + 2 = payload.length then .error .malformed
    else .ok (payload.drop (off + 2))
  | .leases _ => if off = payload.length then .error .malformed else .ok (payload.drop off)

def parseDatabaseStore (payload : Bytes) : Except CodecError StoreMessage :=
  if payload.length > i2pdMaxPayload then .error .payloadTooLarge
  else if payload.length < 37 then .error .shortBuffer
  else
    let key := arrayAt 32 payload 0
    if key = FixedBytes.zero 32 then .error .malformed
    else
      match StoreContent.ofCode (payload.getD 32 0 &&& 0x0f) with
      | none => .error .unknownStoreType
      | some content =>
        let token := uint32At payload 33
        if token = 0 then
          match readStored content payload 37 with
          | .error error => .error error
          | .ok data => .ok ⟨key, content, token, 0, FixedBytes.zero 32, data⟩
        else if payload.length - 37 < 36 then .error .shortBuffer
        else
          match readStored content payload 73 with
          | .error error => .error error
          | .ok data => .ok ⟨key, content, token, uint32At payload 37, arrayAt 32 payload 41, data⟩

def storeBytes (message : StoreMessage) : Bytes :=
  let reply :=
    if message.replyToken = 0 then []
    else natBE 4 message.replyTunnelID.toNat ++ message.replyGateway.val
  let size := if message.content = .routerInfo then natBE 2 message.data.length else []
  message.key.val ++ message.content.code :: natBE 4 message.replyToken.toNat ++ reply ++ size ++
    message.data

def marshalDatabaseStore (message : StoreMessage) : Except CodecError Bytes :=
  if message.data.length = 0 ∨
      message.replyToken ≠ 0 ∧ message.replyGateway = FixedBytes.zero 32 then
    .error .invalidDatabaseStore
  else if message.content = .routerInfo ∧ message.data.length > 0xffff then
    .error .invalidDatabaseStore
  else if (storeBytes message).length > i2pdMaxPayload then .error .invalidDatabaseStore
  else
    match parseDatabaseStore (storeBytes message) with
    | .error error => .error error
    | .ok _ => .ok (storeBytes message)

/-- A lease set that asks for no reply. -/
def DatabaseStore.message (store : DatabaseStore) : StoreMessage :=
  ⟨store.key, .leases store.kind, 0, 0, FixedBytes.zero 32, store.data⟩

theorem parseDatabaseStore_marshal {store : DatabaseStore} {payload : Bytes}
    (h : marshalDatabaseStore store.message = .ok payload) :
    parseDatabaseStore payload = .ok store.message := by
  have hparse : ∃ message, parseDatabaseStore payload = .ok message ∧
      payload = storeBytes store.message := by
    unfold marshalDatabaseStore at h
    split at h
    · cases h
    split at h
    · cases h
    split at h
    · cases h
    split at h
    · cases h
    next message hmessage =>
    obtain rfl := Except.ok.inj h
    exact ⟨message, hmessage, rfl⟩
  obtain ⟨message, hmessage, rfl⟩ := hparse
  have hbytes : storeBytes store.message =
      store.key.val ++ ([(StoreContent.leases store.kind).code] ++
        (natBE 4 (0 : UInt32).toNat ++ store.data)) := by
    simp [storeBytes, DatabaseStore.message]
  have hkey := store.key.property
  have hcode : (storeBytes store.message).getD 32 0 = (StoreContent.leases store.kind).code := by
    rw [hbytes, getD_skip hkey _ 32 (Nat.le_refl _)]
    rfl
  have htoken : uint32At (storeBytes store.message) 33 = 0 := by
    rw [hbytes, uint32At_skip hkey _ 33 (by decide), uint32At_skip List.length_singleton _ _ (by decide)]
    exact uint32At_append 0 store.data
  have hdata : (storeBytes store.message).drop 37 = store.data := by
    rw [hbytes, drop_skip hkey _ 37 (by decide)]
    rfl
  have hfirst : arrayAt 32 (storeBytes store.message) 0 = store.key := by
    rw [hbytes]
    exact arrayAt_append store.key _
  rw [hmessage]
  unfold parseDatabaseStore at hmessage
  split at hmessage
  · cases hmessage
  split at hmessage
  · cases hmessage
  dsimp only at hmessage
  split at hmessage
  · cases hmessage
  rw [hcode, StoreContent.ofCode_code] at hmessage
  rw [htoken, hfirst] at hmessage
  unfold readStored at hmessage
  dsimp only at hmessage
  split at hmessage
  · cases hmessage
  next data hread =>
  split at hread
  · cases hread
  rw [hdata] at hread
  rw [← hmessage, ← Except.ok.inj hread]
  rfl

end Ivnp.NetDb
