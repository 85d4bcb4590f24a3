import Ivnp.Lib.IndexedHeap
import Ivnp.Lib.Run
import Ivnp.NetDb.LeaseSets

/-!
The lease sets of the network database. A store is parsed, verified and checked
against the clock; of two sets under one key the one of the later version is
retained. A heap of the expiry times, with the position of every key, says which
entries to drop. Router infos go to a table of their own, which is not modelled.
-/

namespace Ivnp.NetDb

open Ivnp.Lib Ivnp.Foundation

def leaseSetMaxPastMillis : UInt64 := 600000
def leaseSetClockFudgeMillis : UInt64 := 60000
def leaseSetMaxFutureMillis : UInt64 := 900000
def metaLeaseSetMaxFutureMillis : UInt64 := 65535000

inductive StoreType where
  | leaseSet
  | leaseSet2
  | metaLeaseSet
  | encryptedLeaseSet
  deriving DecidableEq

/-- A `DatabaseStore` message with a lease set. -/
structure DatabaseStore where
  key : Hash
  kind : StoreType
  data : Bytes
  deriving DecidableEq

inductive StoreError where
  | wire (error : WireError)
  | storeKeyMismatch
  | invalidSignature
  | leaseSetExpired
  | leaseSetFuture
  deriving DecidableEq

/-- What is stored: one of the four sets. -/
inductive LeaseObject where
  | legacy (set : LeaseSet)
  | v2 (set : LeaseSet2)
  | metaSet (set : MetaLeaseSet)
  | encrypted (set : EncryptedLeaseSet)
  deriving DecidableEq

namespace LeaseObject

def typeID : LeaseObject → StoreType
  | legacy _ => .leaseSet
  | v2 _ => .leaseSet2
  | metaSet _ => .metaLeaseSet
  | encrypted _ => .encryptedLeaseSet

def bytes : LeaseObject → Bytes
  | legacy set => set.raw
  | v2 set => set.raw
  | metaSet set => set.raw
  | encrypted set => set.raw

def offline : LeaseObject → Option OfflineSignature
  | legacy _ => none
  | v2 set => set.header.offline
  | metaSet set => set.header.offline
  | encrypted set => set.offline

end LeaseObject

structure LeaseEntry where
  object : LeaseObject
  version : UInt64
  expires : UInt64
  published : Bool

structure LeaseExpiry where
  key : Hash
  expires : UInt64

/-- `lessLeaseExpiryLocked`: by time and then by key, with the time zero last. -/
def lessLeaseExpiry (left right : LeaseExpiry) : Bool :=
  if left.expires = 0 then false
  else if right.expires = 0 then true
  else if left.expires = right.expires then left.key.val < right.key.val
  else left.expires < right.expires

structure Database where
  leases : Table Hash LeaseEntry
  leaseExpiries : IndexedHeap Hash LeaseExpiry
  maxLeases : Nat

def saturatingAdd (value increment : UInt64) : UInt64 :=
  if 0xffffffffffffffff - value < increment then 0xffffffffffffffff else value + increment

def secondsMillis (seconds : UInt32) : UInt64 := seconds.toUInt64 * 1000

def signedExpiry (published : UInt32) (expires : UInt16) : UInt64 :=
  (published.toUInt64 + expires.toUInt64) * 1000

def leaseRange (ends : List UInt64) : Except StoreError (UInt64 × UInt64) :=
  let earliest := ends.foldl min 0xffffffffffffffff
  let latest := ends.foldl max 0
  if latest = 0 then .error .leaseSetExpired else .ok (earliest, latest)

def legacyLeaseRange (set : LeaseSet) : Except StoreError (UInt64 × UInt64) :=
  leaseRange (set.leases.map Lease.endDate)

/-- The range of leases that end no later than the offline authorisation. -/
def authorisedRange (offline : Option OfflineSignature) (endDates : List UInt32) :
    Except StoreError (UInt64 × UInt64) :=
  if offline.any fun offline => endDates.any (· > offline.expires) then .error (.wire .malformed)
  else leaseRange (endDates.map secondsMillis)

def leaseSet2Range (set : LeaseSet2) : Except StoreError (UInt64 × UInt64) :=
  authorisedRange set.header.offline (set.leases.map Lease2.endDate)

def metaLeaseSetRange (set : MetaLeaseSet) : Except StoreError (UInt64 × UInt64) :=
  authorisedRange set.header.offline (set.leases.map MetaLease.endDate)

def validateLeaseSetRange (earliest latest now maxFuture : UInt64) : Option StoreError :=
  let oldestAllowed := if now > leaseSetMaxPastMillis then now - leaseSetMaxPastMillis else 0
  let currentCutoff := if now > leaseSetClockFudgeMillis then now - leaseSetClockFudgeMillis else 0
  if earliest ≤ oldestAllowed ∨ latest ≤ currentCutoff then some .leaseSetExpired
  else if latest > saturatingAdd now (leaseSetClockFudgeMillis + maxFuture) then
    some .leaseSetFuture
  else none

def limitOffline (offline : Option OfflineSignature) (expires : UInt64) : UInt64 :=
  match offline with
  | none => expires
  | some offline =>
    if expires > secondsMillis offline.expires then secondsMillis offline.expires else expires

/-- Whether the offline authorisation has ended. -/
def offlineExpired (offline : Option OfflineSignature) (now : UInt64) : Bool :=
  offline.any fun offline => secondsMillis offline.expires < now

section Stores

variable (crypto : NetDbCrypto)

/-- The answer of a `Verify`. -/
def checkSignature (valid : Except WireError Bool) : Option StoreError :=
  match valid with
  | .error error => some (.wire error)
  | .ok false => some .invalidSignature
  | .ok true => none

def acceptLeaseSet (store : DatabaseStore) (seenAt : UInt64) (published : Bool) :
    Except StoreError LeaseEntry :=
  match parseLeaseSet store.data with
  | .error error => .error (.wire error)
  | .ok parsed =>
    if crypto.sha256 parsed.destination.raw ≠ store.key then .error .storeKeyMismatch
    else
      match checkSignature (parsed.verify crypto) with
      | some error => .error error
      | none =>
        match legacyLeaseRange parsed with
        | .error error => .error error
        | .ok (earliest, latest) =>
          match validateLeaseSetRange earliest latest seenAt leaseSetMaxFutureMillis with
          | some error => .error error
          | none => .ok ⟨.legacy parsed, earliest, latest, published⟩

def acceptLeaseSet2 (store : DatabaseStore) (seenAt : UInt64) (published : Bool) :
    Except StoreError LeaseEntry :=
  match parseLeaseSet2 store.data with
  | .error error => .error (.wire error)
  | .ok parsed =>
    let header := parsed.header
    if crypto.sha256 header.destination.raw ≠ store.key then .error .storeKeyMismatch
    else if offlineExpired header.offline seenAt then .error .leaseSetExpired
    else
      match checkSignature (parsed.verify crypto) with
      | some error => .error error
      | none =>
        match leaseSet2Range parsed with
        | .error error => .error error
        | .ok (earliest, latest) =>
          match validateLeaseSetRange earliest latest seenAt leaseSetMaxFutureMillis with
          | some error => .error error
          | none =>
            let version := header.published.toUInt64
            let expires := min (signedExpiry header.published header.expires) latest
            .ok ⟨.v2 parsed, version, limitOffline header.offline expires, published⟩

/-- `storeMetaLeaseSet` up to the lock. The range is checked with its end at the
header's expiry, and that expiry is what is stored. -/
def acceptMetaLeaseSet (store : DatabaseStore) (seenAt : UInt64) (published : Bool) :
    Except StoreError LeaseEntry :=
  match parseMetaLeaseSet store.data with
  | .error error => .error (.wire error)
  | .ok parsed =>
    let header := parsed.header
    if crypto.sha256 header.destination.raw ≠ store.key then .error .storeKeyMismatch
    else if offlineExpired header.offline seenAt then .error .leaseSetExpired
    else
      match checkSignature (parsed.verify crypto) with
      | some error => .error error
      | none =>
        match metaLeaseSetRange parsed with
        | .error error => .error error
        | .ok (earliest, latest) =>
          let headerExpires :=
            limitOffline header.offline (signedExpiry header.published header.expires)
          let latest := if headerExpires < latest then headerExpires else latest
          match validateLeaseSetRange earliest latest seenAt metaLeaseSetMaxFutureMillis with
          | some error => .error error
          | none => .ok ⟨.metaSet parsed, header.published.toUInt64, headerExpires, published⟩

/-- `storeEncryptedLeaseSet` up to the lock. The clock is checked before the key
and the signature. -/
def acceptEncryptedLeaseSet (store : DatabaseStore) (seenAt : UInt64) (published : Bool) :
    Except StoreError LeaseEntry :=
  match parseEncryptedLeaseSet store.data with
  | .error error => .error (.wire error)
  | .ok parsed =>
    if offlineExpired parsed.offline seenAt then .error .leaseSetExpired
    else
      let earliest := secondsMillis parsed.published
      let latest := limitOffline parsed.offline (signedExpiry parsed.published parsed.expires)
      match validateLeaseSetRange earliest latest seenAt leaseSetMaxFutureMillis with
      | some error => .error error
      | none =>
        if parsed.hash crypto ≠ store.key then .error .storeKeyMismatch
        else
          match checkSignature (parsed.verify crypto) with
          | some error => .error error
          | none => .ok ⟨.encrypted parsed, parsed.published.toUInt64, latest, published⟩

/-- The entry a store would leave, or why it is refused. -/
def acceptStore (store : DatabaseStore) (seenAt : UInt64) (published : Bool) :
    Except StoreError LeaseEntry :=
  match store.kind with
  | .leaseSet => acceptLeaseSet crypto store seenAt published
  | .leaseSet2 => acceptLeaseSet2 crypto store seenAt published
  | .metaLeaseSet => acceptMetaLeaseSet crypto store seenAt published
  | .encryptedLeaseSet => acceptEncryptedLeaseSet crypto store seenAt published

end Stores

namespace Database

/-- `NewDatabaseForNetwork`. -/
def new : Database :=
  { leases := ∅
    leaseExpiries := ⟨fun _ => ⟨FixedBytes.zero 32, 0⟩, 0, ∅⟩
    maxLeases := 4096 }

def upsertLeaseExpiry (db : Database) (key : Hash) (expires : UInt64) : Database :=
  { db with
    leaseExpiries := db.leaseExpiries.upsert LeaseExpiry.key lessLeaseExpiry ⟨key, expires⟩ }

/-- `popLeaseExpiryLocked`. -/
def popLeaseExpiry (db : Database) : Option (LeaseExpiry × Database) :=
  (db.leaseExpiries.pop LeaseExpiry.key lessLeaseExpiry).map fun popped =>
    (popped.1, { db with leaseExpiries := popped.2 })

/-- Drops the entry that expires first, from both places. -/
def dropOldest (db : Database) : Database :=
  match db.popLeaseExpiry with
  | none => db
  | some (oldest, rest) => { rest with leases := rest.leases.erase oldest.key }

def storeLeaseEntry (db : Database) (key : Hash) (entry : LeaseEntry) : Database :=
  let db := if key ∉ db.leases ∧ db.leases.entries.length ≥ db.maxLeases then db.dropOldest else db
  { db with leases := db.leases.insert key entry }.upsertLeaseExpiry key entry.expires

/-- The end of every store, under the lock: an entry of at least this version is
kept, and marked as published if this one was. -/
def retain (db : Database) (key : Hash) (entry : LeaseEntry) : Database :=
  match db.leases.lookup key with
  | none => db.storeLeaseEntry key entry
  | some old =>
    if old.version ≥ entry.version then
      if entry.published ∧ !old.published then
        { db with leases := db.leases.insert key { old with published := true } }
      else db
    else db.storeLeaseEntry key entry

def handleDatabaseStore (crypto : NetDbCrypto) (db : Database) (store : DatabaseStore)
    (seenAt : UInt64) (published : Bool) : Database × Except StoreError Unit :=
  match acceptStore crypto store seenAt published with
  | .error error => (db, .error error)
  | .ok entry => (db.retain store.key entry, .ok ())

/-- The loop of `ExpireLeases`; every turn takes an item off the heap, so its
size is enough fuel. -/
def expireLoop (now : UInt64) : Nat → Database → Database × Nat
  | 0, db => (db, 0)
  | fuel + 1, db =>
    if db.leaseExpiries.size = 0 then (db, 0)
    else
      let oldest := db.leaseExpiries.items 0
      if oldest.expires = 0 ∨ oldest.expires ≥ now then (db, 0)
      else
        let result := expireLoop now fuel db.dropOldest
        (result.1, result.2 + 1)

/-- `ExpireLeases`, with the number of entries removed. -/
def expireLeases (db : Database) (now : UInt64) : Database × Nat :=
  expireLoop now db.leaseExpiries.size db

end Database

def leaseEntryExpired (entry : LeaseEntry) (now : UInt64) : Bool :=
  if offlineExpired entry.object.offline now then true
  else
    let cutoff := if now > leaseSetClockFudgeMillis then now - leaseSetClockFudgeMillis else 0
    entry.expires ≠ 0 ∧ entry.expires ≤ cutoff

namespace Database

def storedPublishedLeaseSet (db : Database) (key : Hash) (now : UInt64) :
    Option (StoreType × Bytes) :=
  match db.leases.lookup key with
  | none => none
  | some entry =>
    if !entry.published ∨ leaseEntryExpired entry now then none
    else if entry.object.bytes.length = 0 then none
    else some (entry.object.typeID, entry.object.bytes)

/-- What happens to a database: a store arrives, or old entries are dropped. -/
inductive Operation where
  | store (store : DatabaseStore) (seenAt : UInt64) (published : Bool)
  | expire (now : UInt64)

def step (crypto : NetDbCrypto) (db : Database) : Operation → Database
  | .store store seenAt published => (db.handleDatabaseStore crypto store seenAt published).1
  | .expire now => (db.expireLeases now).1

def after (crypto : NetDbCrypto) (operations : List Operation) : Database :=
  run (step crypto) new operations

end Database

end Ivnp.NetDb
