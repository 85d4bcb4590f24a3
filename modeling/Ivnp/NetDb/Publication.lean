import Ivnp.NetDb.LeaseVersions
import Ivnp.NetDb.LocalLeaseSet2
import Ivnp.NetDb.StoreCodec

/-!
The publisher of a local destination's second-version lease set. A list of
inbound leases that differs from the last one is signed and stored in the local
database, and the store is sent to floodfills. A peer and the local database
retain it in the place of the one before if its second of publication is later.
-/

namespace Ivnp.NetDb

open Ivnp.Lib Ivnp.Foundation

inductive PublishError where
  | leaseSet (error : LocalError)
  | codec (error : CodecError)
  | store (error : StoreError)
  | send
  deriving DecidableEq

/-- The publisher of a second-version set: the leases of the payload it has
signed last, and that payload. -/
structure LeaseSetPublisher where
  local2 : LocalLeaseSet2
  leases : List Lease
  storePayload : Bytes

/-- A call of `publish`. The sends to floodfills touch no lease set. -/
structure PublishCall where
  now : UInt64
  inbound : List Lease
  delivery : Except PublishError Nat

/-- `HandleDatabaseStore` on a message; the table of router infos is not modelled,
and a router info changes no lease set. -/
def Database.handleMessage (crypto : NetDbCrypto) (db : Database) (message : StoreMessage)
    (seenAt : UInt64) : Database × Except StoreError Unit :=
  match message.content with
  | .routerInfo => (db, .ok ())
  | .leases kind => db.handleDatabaseStore crypto ⟨message.key, kind, message.data⟩ seenAt true

namespace LeaseSetPublisher

variable (crypto : NetDbCrypto) (sign : Bytes → Option Bytes)

/-- The key under which the set is stored. -/
def hash (publisher : LeaseSetPublisher) : Hash := crypto.sha256 publisher.local2.identity.raw

def expiresAt (publisher : LeaseSetPublisher) (leases : List Lease) : UInt64 :=
  let latest := (leases.map Lease.endDate).foldl max 0
  match publisher.local2.offline with
  | none => latest
  | some offline =>
    if latest > secondsMillis offline.expires then secondsMillis offline.expires else latest

def Live (publisher : LeaseSetPublisher) (call : PublishCall) : Prop :=
  call.inbound ≠ [] ∧ call.now < publisher.expiresAt call.inbound

instance (publisher : LeaseSetPublisher) (call : PublishCall) : Decidable (publisher.Live call) :=
  inferInstanceAs (Decidable (_ ∧ _))

def storeLocally (publisher : LeaseSetPublisher) (db : Database) (call : PublishCall) :
    LeaseSetPublisher × Database × Except PublishError Nat :=
  let store : DatabaseStore := ⟨publisher.hash crypto, .leaseSet2, publisher.storePayload⟩
  match marshalDatabaseStore store.message with
  | .error error => (publisher, db, .error (.codec error))
  | .ok localStore =>
    match parseDatabaseStore localStore with
    | .error error => (publisher, db, .error (.codec error))
    | .ok parsedStore =>
      match db.handleMessage crypto parsedStore call.now with
      | (db, .error error) => (publisher, db, .error (.store error))
      | (db, .ok ()) => (publisher, db, call.delivery)

def publish (publisher : LeaseSetPublisher) (db : Database) (call : PublishCall) :
    LeaseSetPublisher × Database × Except PublishError Nat :=
  match publisher.local2.replaceInboundLeases call.inbound with
  | none => (publisher, db, .error (.leaseSet .localLeaseSet2))
  | some replaced =>
    let publisher := { publisher with local2 := replaced }
    if ¬ publisher.Live call then
      ({ publisher with leases := [], storePayload := [] }, db, .ok 0)
    else if publisher.leases = call.inbound then (publisher, db, call.delivery)
    else
      match replaced.marshalTo maxLeaseSetBytes call.now sign with
      | .error error => (publisher, db, .error (.leaseSet error))
      | .ok store =>
        { publisher with leases := call.inbound, storePayload := store }.storeLocally crypto db
          call

variable {crypto sign} {publisher next : LeaseSetPublisher} {db after : Database}
  {call : PublishCall} {count : Nat}

theorem replaceInboundLeases_eq_some {set replaced : LocalLeaseSet2} {leases : List Lease}
    (h : set.replaceInboundLeases leases = some replaced) :
    replaced.identity = set.identity ∧ replaced.offline = set.offline := by
  unfold LocalLeaseSet2.replaceInboundLeases at h
  split at h
  · cases h
  · obtain ⟨converted, -, rfl⟩ := Option.map_eq_some_iff.mp h
    exact ⟨rfl, rfl⟩

theorem storeLocally_eq_ok (h : publisher.storeLocally crypto db call = (next, after, .ok count)) :
    next = publisher ∧ ∃ entry,
      acceptStore crypto ⟨publisher.hash crypto, .leaseSet2, publisher.storePayload⟩ call.now true =
        .ok entry ∧
      after = db.retain (publisher.hash crypto) entry := by
  unfold storeLocally at h
  dsimp only at h
  split at h
  · cases h
  next localStore hmarshal =>
  rw [parseDatabaseStore_marshal hmarshal] at h
  dsimp only [Database.handleMessage, DatabaseStore.message, Database.handleDatabaseStore] at h
  cases haccept : acceptStore crypto
    ⟨publisher.hash crypto, .leaseSet2, publisher.storePayload⟩ call.now true with
  | error error =>
    rw [haccept] at h
    cases h
  | ok entry =>
    rw [haccept] at h
    obtain ⟨rfl, hrest⟩ := Prod.mk.inj h
    obtain ⟨rfl, -⟩ := Prod.mk.inj hrest
    exact ⟨rfl, entry, rfl, rfl⟩

/-- What a call that returns without an error has done: the leases are noted, and
if they are not those of the payload signed last, a new one has been signed and
accepted by the local database. -/
theorem publish_eq_ok (hlive : publisher.Live call)
    (h : publisher.publish crypto sign db call = (next, after, .ok count)) :
    next.leases = call.inbound ∧
      (publisher.leases ≠ call.inbound → ∃ set : LocalLeaseSet2, ∃ entry,
        set.identity = publisher.local2.identity ∧
        set.marshalTo maxLeaseSetBytes call.now sign = .ok next.storePayload ∧
        acceptStore crypto ⟨publisher.hash crypto, .leaseSet2, next.storePayload⟩ call.now true =
          .ok entry ∧
        after = db.retain (publisher.hash crypto) entry) := by
  unfold publish at h
  split at h
  · cases h
  next replaced hreplaced =>
  obtain ⟨hidentity, hoffline⟩ := replaceInboundLeases_eq_some hreplaced
  have hstill : ({ publisher with local2 := replaced } : LeaseSetPublisher).Live call := by
    unfold Live expiresAt at hlive ⊢
    rwa [hoffline]
  rw [if_neg (not_not_intro hstill)] at h
  split at h
  next hsame =>
    obtain ⟨rfl, -⟩ := Prod.mk.inj h
    exact ⟨hsame, fun hchanged => absurd hsame hchanged⟩
  next hchanged =>
  split at h
  · cases h
  next store hmarshal =>
  obtain ⟨rfl, entry, haccept, hstored⟩ := storeLocally_eq_ok h
  unfold hash at haccept hstored
  rw [hidentity] at haccept hstored
  exact ⟨rfl, fun _ => ⟨replaced, entry, hidentity, hmarshal, haccept, hstored⟩⟩

theorem publish_not_live (hlive : ¬ publisher.Live call)
    (h : publisher.publish crypto sign db call = (next, after, .ok count)) : next.leases = [] := by
  unfold publish at h
  split at h
  · cases h
  next replaced hreplaced =>
  obtain ⟨-, hoffline⟩ := replaceInboundLeases_eq_some hreplaced
  have hstill : ¬ ({ publisher with local2 := replaced } : LeaseSetPublisher).Live call := by
    unfold Live expiresAt at hlive ⊢
    rwa [hoffline]
  rw [if_pos hstill] at h
  obtain ⟨rfl, -⟩ := Prod.mk.inj h
  rfl

def publishedSecond (payload : Bytes) : Nat :=
  match parseLeaseSet2 payload with
  | .error _ => 0
  | .ok set => set.header.published.toNat

def Holds (db : Database) (key : Hash) (payload : Bytes) : Prop :=
  ∃ entry, db.leases.lookup key = some entry ∧ entry.object.typeID = .leaseSet2 ∧
    entry.object.bytes = payload

section Version

variable {entry : LeaseEntry} {payload : Bytes}

theorem readFrom_leaseSet2 (h : entry.ReadFrom .leaseSet2 payload) :
    ∃ set, parseLeaseSet2 payload = .ok set ∧ entry.object = .v2 set := by
  have hobject : (parseLeaseSet2 payload).map LeaseObject.v2 = .ok entry.object := h.object
  cases hparse : parseLeaseSet2 payload with
  | error error =>
    rw [hparse] at hobject
    cases hobject
  | ok set =>
    rw [hparse] at hobject
    exact ⟨set, rfl, (Except.ok.inj hobject).symm⟩

theorem version_eq_publishedSecond (h : entry.ReadFrom .leaseSet2 payload) :
    entry.version.toNat = publishedSecond payload := by
  obtain ⟨set, hparse, hobject⟩ := readFrom_leaseSet2 h
  unfold publishedSecond
  rw [hparse, h.version, hobject]
  exact UInt32.toNat_toUInt64 _

theorem publishedSecond_marshalTo {set : LocalLeaseSet2} {space : Nat} {now : UInt64}
    (hmarshal : set.marshalTo space now sign = .ok payload)
    (hread : entry.ReadFrom .leaseSet2 payload) : publishedSecond payload = now.toNat / 1000 := by
  obtain ⟨parsed, hparse, -⟩ := readFrom_leaseSet2 hread
  obtain ⟨rest, hpayload, hsecond⟩ := LocalLeaseSet2.marshalTo_eq_ok hmarshal
  unfold publishedSecond
  rw [hparse]
  rw [hpayload] at hparse
  dsimp only
  rw [parseLeaseSet2_published set.parses hparse, hsecond]

/-- A set takes the place of what is retained, unless that is of the same second
or a later one and not the set itself. -/
theorem holds_retain_iff (db : Database) (key : Hash) (hread : entry.ReadFrom .leaseSet2 payload) :
    Holds (db.retain key entry) key payload ↔
      ∀ old ∈ db.leases.lookup key, old.version.toNat < publishedSecond payload ∨
        old.object.typeID = .leaseSet2 ∧ old.object.bytes = payload := by
  have hobject := LeaseObject.parse_eq_ok hread.object
  unfold Holds
  rw [Database.lookup_retain, ← version_eq_publishedSecond hread]
  cases db.leases.lookup key with
  | none => exact iff_of_true ⟨entry, rfl, hobject⟩ (fun _ hnone => nomatch hnone)
  | some old =>
    dsimp only
    constructor
    · rintro ⟨kept, hkept, hsame⟩ _ ⟨⟩
      split at hkept
      · cases hkept
        exact Or.inr hsame
      next hnewer => exact Or.inl (UInt64.lt_iff_toNat_lt.mp (UInt64.not_le.mp hnewer))
    · intro hold
      split
      next hkept =>
        refine ⟨_, rfl, (hold _ rfl).resolve_left ?_⟩
        exact Nat.not_lt.mpr (UInt64.le_iff_toNat_le.mp hkept)
      · exact ⟨entry, rfl, hobject⟩

end Version

open Database in
/-- Two calls of `publish` with different leases that both return without an
error: the local database and a peer that holds the first set hold the second one
afterwards if and only if what they retain is of an earlier second, or is that set
already. The second of the first set is that of the call, if that call signed it. -/
theorem republished_supersedes_iff (crypto : NetDbCrypto) (sign : Bytes → Option Bytes)
    (publisher next last : LeaseSetPublisher) (earlier between peerHistory : List Operation)
    (first second : PublishCall) (stored final : Database) (sent resent : Nat)
    (hfirst : publisher.publish crypto sign (Database.after crypto earlier) first =
      (next, stored, .ok sent))
    (hsecond : next.publish crypto sign (run (step crypto) stored between) second =
      (last, final, .ok resent))
    (hdiffer : first.inbound ≠ second.inbound) (hlive : next.Live second)
    (hpeer : Holds (Database.after crypto peerHistory) (next.hash crypto) next.storePayload)
    (seenAt : UInt64) (published : Bool) (new : LeaseEntry)
    (hnew : acceptStore crypto ⟨next.hash crypto, .leaseSet2, last.storePayload⟩ seenAt published =
      .ok new) :
    ((Holds final (next.hash crypto) last.storePayload ∧
        Holds ((Database.after crypto peerHistory).step crypto
          (.store ⟨next.hash crypto, .leaseSet2, last.storePayload⟩ seenAt published))
          (next.hash crypto) last.storePayload) ↔
      (∀ old ∈ (run (step crypto) stored between).leases.lookup (next.hash crypto),
        old.version.toNat < second.now.toNat / 1000 ∨
          old.object.typeID = .leaseSet2 ∧ old.object.bytes = last.storePayload) ∧
      (publishedSecond next.storePayload < second.now.toNat / 1000 ∨
        next.storePayload = last.storePayload)) ∧
    (publisher.Live first → publisher.leases ≠ first.inbound →
      publishedSecond next.storePayload = first.now.toNat / 1000) := by
  -- the second list is not the one whose payload was signed last
  have hchanged : next.leases ≠ second.inbound := by
    by_cases hfirstLive : publisher.Live first
    · rw [(publish_eq_ok hfirstLive hfirst).1]
      exact hdiffer
    · rw [publish_not_live hfirstLive hfirst]
      exact hlive.1.symm
  obtain ⟨set, entry, -, hmarshal, haccept, hfinal⟩ := (publish_eq_ok hlive hsecond).2 hchanged
  have hread := acceptStore_readFrom haccept
  have hpublished := publishedSecond_marshalTo hmarshal hread
  constructor
  · have hlocal := holds_retain_iff (run (step crypto) stored between) (next.hash crypto) hread
    have hremote := holds_retain_iff (Database.after crypto peerHistory) (next.hash crypto)
      (acceptStore_readFrom hnew)
    rw [hpublished] at hlocal hremote
    rw [hfinal, hlocal, step_store hnew, hremote]
    refine and_congr_right fun _ => ?_
    obtain ⟨held, hheld, hkind, hbytes⟩ := hpeer
    have hversion : held.version.toNat = publishedSecond next.storePayload := by
      have hheldRead := (after_sound peerHistory).readFrom _ held hheld
      rw [hkind, hbytes] at hheldRead
      exact version_eq_publishedSecond hheldRead
    rw [hheld, ← hversion, ← hbytes]
    constructor
    · intro hreplaced
      exact (hreplaced held rfl).imp_right And.right
    · rintro hreplaced _ ⟨⟩
      exact hreplaced.imp_right fun hsame => ⟨hkind, hsame⟩
  · intro hfirstLive hsigned
    obtain ⟨set, entry, -, hmarshal, haccept, -⟩ := (publish_eq_ok hfirstLive hfirst).2 hsigned
    exact publishedSecond_marshalTo hmarshal (acceptStore_readFrom haccept)

def sampleIdentity : Identity where
  raw := List.replicate identityBaseLength 1 ++ [5, 0, 4, 0, 7, 0, 4]
  signingType := .edDSASHA512Ed25519
  signingFirst := List.replicate 32 1
  signingRest := []

def samplePublisher : LeaseSetPublisher where
  local2 :=
    { identity := sampleIdentity
      publicKey := FixedBytes.zero 32
      types := [.x25519]
      offline := none
      leases := []
      parses := by decide +kernel
      signing := Or.inl rfl
      distinct := x25519_distinct }
  leases := []
  storePayload := []

def sampleSign (_ : Bytes) : Option Bytes := some (List.replicate 64 0)

def sampleCall (now : UInt64) (tunnelID : UInt32) : PublishCall where
  now := now
  inbound := [⟨FixedBytes.zero 32, tunnelID, 1700000600000⟩]
  delivery := .ok 1

def sampleFirst : LeaseSetPublisher × Database × Except PublishError Nat :=
  samplePublisher.publish trusting sampleSign Database.new (sampleCall 1700000000100 1)

def sampleSecondCall (now : UInt64) : LeaseSetPublisher × Database × Except PublishError Nat :=
  sampleFirst.1.publish trusting sampleSign sampleFirst.2.1 (sampleCall now 2)

/-- Two calls in one second return without an error, and the local database still
holds the set that the first one signed. -/
theorem republished_in_one_second :
    sampleFirst.2.2 = .ok 1 ∧ (sampleSecondCall 1700000000900).2.2 = .ok 1 ∧
      sampleFirst.1.storePayload ≠ (sampleSecondCall 1700000000900).1.storePayload ∧
      ((sampleSecondCall 1700000000900).2.1.leases.lookup sampleHash).map (·.object.bytes) =
        some sampleFirst.1.storePayload := by
  decide +kernel

def samplePeer : List Database.Operation :=
  [.store ⟨sampleHash, .leaseSet2, sampleFirst.1.storePayload⟩ 1700000000100 true]

/-- A second later the set of the second call is held in both places. -/
theorem republished_a_second_later :
    Holds (sampleSecondCall 1700000001100).2.1 sampleHash
        (sampleSecondCall 1700000001100).1.storePayload ∧
      Holds ((Database.after trusting samplePeer).step trusting
          (.store ⟨sampleHash, .leaseSet2, (sampleSecondCall 1700000001100).1.storePayload⟩
            1700000001100 true))
        sampleHash (sampleSecondCall 1700000001100).1.storePayload := by
  have hsent : sampleFirst.2.2 = .ok 1 := by decide +kernel
  have hresent : (sampleSecondCall 1700000001100).2.2 = .ok 1 := by decide +kernel
  have hheld : ((Database.after trusting samplePeer).leases.lookup sampleHash).any (fun held =>
      held.object.typeID = .leaseSet2 ∧ held.object.bytes = sampleFirst.1.storePayload) = true := by
    decide +kernel
  have haccepted : (Database.Operation.accepted trusting
      (.store ⟨sampleHash, .leaseSet2, (sampleSecondCall 1700000001100).1.storePayload⟩
        1700000001100 true)).isSome := by decide +kernel
  have hlive : sampleFirst.1.Live (sampleCall 1700000001100 2) := by decide +kernel
  have holder : ∀ old ∈ (run (Database.step trusting) sampleFirst.2.1 []).leases.lookup
      (sampleFirst.1.hash trusting),
      old.version.toNat < (sampleCall 1700000001100 2).now.toNat / 1000 ∨
        old.object.typeID = .leaseSet2 ∧
          old.object.bytes = (sampleSecondCall 1700000001100).1.storePayload := by
    decide +kernel
  have hsecond : publishedSecond sampleFirst.1.storePayload <
      (sampleCall 1700000001100 2).now.toNat / 1000 := by
    decide +kernel
  have hfirst : sampleFirst = (sampleFirst.1, sampleFirst.2.1, .ok 1) := by rw [← hsent]
  have hagain : sampleSecondCall 1700000001100 =
      ((sampleSecondCall 1700000001100).1, (sampleSecondCall 1700000001100).2.1, .ok 1) := by
    rw [← hresent]
  obtain ⟨held, hlookup, hsame⟩ := (Option.any_eq_true _ _).mp hheld
  obtain ⟨new, hnew⟩ := Option.isSome_iff_exists.mp haccepted
  obtain ⟨_, _, _, ⟨⟩, hnew⟩ := Database.Operation.accepted_eq_some hnew
  exact (republished_supersedes_iff _ _ _ sampleFirst.1
    (sampleSecondCall 1700000001100).1 [] [] _ (sampleCall 1700000000100 1)
    (sampleCall 1700000001100 2) sampleFirst.2.1 (sampleSecondCall 1700000001100).2.1 1 1
    hfirst hagain (by decide +kernel) hlive ⟨held, hlookup, of_decide_eq_true hsame⟩
    1700000001100 _ _ hnew).1.mpr ⟨holder, Or.inl hsecond⟩

end LeaseSetPublisher

end Ivnp.NetDb
