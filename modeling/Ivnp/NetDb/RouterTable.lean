import Ivnp.Lib.Selection
import Ivnp.Lib.Table
import Ivnp.NetDb.KBucketInvariant
import Ivnp.NetDb.RouterInfo

/-!
The routing table of the NetDB (`dht.go`): every verified router info, an index of the
floodfills among them, and the Kademlia buckets, which take a router only where the quota of
its subnets allows it. A call that panics in the code has no result here; on a consistent
table none does.
-/

namespace Ivnp.NetDb

open Ivnp.Lib Ivnp.Foundation AList

def bucketCount : Nat := hashLength * 8
def defaultBucketSubnetQuota : Int := 2

abbrev RoutingSubnet := FixedBytes 8

/-- What `netip.ParseAddr` reads, an IPv4 or an IPv6 address. -/
structure HostAddr where
  octets : FixedBytes 4 ⊕ FixedBytes 16
  loopback : Bool

/-- The external functions the table uses. -/
structure TableEnv where
  sha256 : Bytes → Hash
  parseAddr : Bytes → Option HostAddr

structure RouterEntry where
  info : RouterInfo
  floodfill : Bool
  lastSeen : UInt64
  subnets : List RoutingSubnet

structure RouterRef where
  hash : Hash
  info : RouterInfo
  floodfill : Bool
  lastSeen : UInt64
  deriving DecidableEq

def RouterEntry.ref (entry : RouterEntry) (hash : Hash) : RouterRef :=
  ⟨hash, entry.info, entry.floodfill, entry.lastSeen⟩

section Subnets

variable (env : TableEnv)

/-- The value of the first option `host`; the options of a parsed address are well formed. -/
def RouterAddress.host (address : RouterAddress) : Option Bytes :=
  let entries := (mappingEntries address.options.raw.length (address.options.raw.drop 2)).getD []
  (entries.find? fun entry => entry.1 = "host".toUTF8.data.toList).map Prod.snd

/-- The IPv4 /16 or IPv6 /48 of an address, unless it names no host of the network. -/
def RouterAddress.subnet (address : RouterAddress) : Option RoutingSubnet :=
  match address.host with
  | none => none
  | some host =>
    if host = [] then none
    else
      match env.parseAddr host with
      | none => none
      | some ⟨octets, loopback⟩ =>
        if loopback then none
        else
          match octets with
          | .inl octets =>
            if octets.val.take 3 = [192, 0, 2] then none
            else some (FixedBytes.copy 8 (1 :: octets.val.take 2))
          | .inr octets => some (FixedBytes.copy 8 (2 :: octets.val.take 6))

def routingSubnetsOf (info : RouterInfo) : List RoutingSubnet :=
  info.addresses.foldl (fun out address =>
    if 4 ≤ out.length then out
    else
      match address.subnet env with
      | none => out
      | some subnet => if subnet ∈ out then out else out ++ [subnet]) []

/-- One more router on each of the subnets that it shares; nothing when a quota is
reached. -/
def accumulateSubnetMatches (existing : List RoutingSubnet) (quota : Int) :
    List Nat → List RoutingSubnet → Option (List Nat)
  | count :: counts, subnet :: subnets =>
    if subnet ∈ existing then
      if quota ≤ (count + 1 : Nat) then none
      else (accumulateSubnetMatches existing quota counts subnets).map ((count + 1) :: ·)
    else (accumulateSubnetMatches existing quota counts subnets).map (count :: ·)
  | counts, _ => some counts

end Subnets

/-- The first bit in which the hashes differ. -/
def distanceBucket (localHash remote : Hash) : Nat :=
  let leading := leadingZeros localHash.val remote.val
  if leading = bucketCount then bucketCount - 1 else leading

def distanceLessBytes : Bytes → Bytes → Bytes → Bool
  | target :: targets, left :: lefts, right :: rights =>
    if target ^^^ left ≠ target ^^^ right then target ^^^ left < target ^^^ right
    else distanceLessBytes targets lefts rights
  | _, _, _ => false

def distanceLess (target left right : Hash) : Bool :=
  distanceLessBytes target.val left.val right.val

structure TableState where
  localHash : Hash
  routers : Table Hash RouterEntry
  floodfills : Table Hash Unit
  routing : KBucketSet
  generation : UInt64
  routerLimit : Int
  subnetQuota : Int

def newTable (localHash : Hash) (bucketCapacity : Int) : TableState where
  localHash := localHash
  routers := ∅
  floodfills := ∅
  routing := newKBucketSet (if bucketCapacity ≤ 0 then defaultBucketCapacity else bucketCapacity)
  generation := 0
  routerLimit := 0
  subnetQuota := defaultBucketSubnetQuota

namespace TableState

def setBucketSubnetQuota (t : TableState) (quota : Int) : TableState := { t with subnetQuota := quota }

/-- The hash leaves the data store and both indexes. -/
def forget (t : TableState) (hash : Hash) : Option TableState :=
  (t.routing.remove t.localHash hash).map fun removed =>
    { t with
      routers := t.routers.erase hash
      floodfills := t.floodfills.erase hash
      routing := removed.1 }

def nextGeneration (t : TableState) : TableState := { t with generation := t.generation + 1 }

/-- One turn of the loop that looks for the router not seen for the longest time, the
farthest from the local hash of several. -/
def olderRouter (t : TableState) (oldest : Option (Hash × UInt64)) (hash : Hash) :
    Option (Hash × UInt64) :=
  match t.routers.lookup hash with
  | none => oldest
  | some entry =>
    match oldest with
    | none => some (hash, entry.lastSeen)
    | some (old, seen) =>
      if entry.lastSeen < seen ∨
          entry.lastSeen = seen ∧ distanceLess t.localHash old hash then
        some (hash, entry.lastSeen)
      else oldest

/-- `evictOldestLocked`, with the map of the routers visited in the given order. -/
def evictOldest (t : TableState) (order : List Hash) : Option TableState :=
  match (t.routers.ranged order).foldl t.olderRouter none with
  | none => some t
  | some (oldest, _) => (t.forget oldest).map nextGeneration

/-- The loop of `SetRouterLimit`. Every turn takes one router away, so that as many turns
are enough as there are routers. -/
def evictLoop (limit : Int) : Nat → (Nat → List Hash) → TableState → Option TableState
  | 0, _, t => some t
  | turns + 1, orders, t =>
    if limit > 0 ∧ t.routers.entries.length > limit then
      (t.evictOldest (orders turns)).bind (evictLoop limit turns orders)
    else some t

def setRouterLimit (t : TableState) (limit : Int) (orders : Nat → List Hash) : Option TableState :=
  evictLoop limit t.routers.entries.length orders { t with routerLimit := limit }

def members (t : TableState) : List Hash := t.routing.buckets.flatMap KBucket.members

def countMember (t : TableState) (candidate : Hash) (subnets : List RoutingSubnet)
    (counts : List Nat) (member : Hash) : Option (List Nat) :=
  if member = candidate ∨
      distanceBucket t.localHash member ≠ distanceBucket t.localHash candidate then some counts
  else
    match t.routers.lookup member with
    | none => some counts
    | some entry =>
      if entry.subnets = [] then some counts
      else accumulateSubnetMatches entry.subnets t.subnetQuota counts subnets

def routingAllowsSubnets (t : TableState) (candidate : Hash) (subnets : List RoutingSubnet) : Bool :=
  if t.subnetQuota ≤ 0 ∨ subnets = [] then true
  else (t.members.foldlM (t.countMember candidate subnets) [0, 0, 0, 0]).isSome

/-- The floodfill index for one router. -/
def markFloodfill (t : TableState) (hash : Hash) (floodfill : Bool) : Table Hash Unit :=
  if floodfill then t.floodfills.insert hash () else t.floodfills.erase hash

def refresh (t : TableState) (hash : Hash) (old : RouterEntry) (info : RouterInfo)
    (floodfill : Bool) (subnets : List RoutingSubnet) (seenAt : UInt64) : Option TableState :=
  if old.info.published ≥ info.published then some t
  else
    let lastSeen := if seenAt > old.lastSeen then seenAt else old.lastSeen
    let stored := { t with
      routers := t.routers.insert hash ⟨info, floodfill, lastSeen, subnets⟩
      floodfills := t.markFloodfill hash floodfill }
    if stored.routingAllowsSubnets hash subnets then some stored.nextGeneration
    else
      (stored.routing.remove stored.localHash hash).map fun removed =>
        ({ stored with routing := removed.1 }).nextGeneration

/-- `StoreVerified` of a new router, once there is room for it. -/
def insertRouter (t : TableState) (hash : Hash) (info : RouterInfo) (floodfill : Bool)
    (subnets : List RoutingSubnet) (seenAt : UInt64) : Option TableState :=
  let routing := if t.routingAllowsSubnets hash subnets then
      (t.routing.add t.localHash hash seenAt).map Prod.fst
    else some t.routing
  routing.map fun routing =>
    ({ t with
      routing := routing
      routers := t.routers.insert hash ⟨info, floodfill, seenAt, subnets⟩
      floodfills := if floodfill then t.floodfills.insert hash () else t.floodfills }).nextGeneration

def storeVerified (env : TableEnv) (t : TableState) (info : RouterInfo) (floodfill : Bool)
    (seenAt : UInt64) (order : List Hash) : Option TableState :=
  let hash := env.sha256 info.identity.raw
  if hash = t.localHash then some t
  else
    let subnets := routingSubnetsOf env info
    match t.routers.lookup hash with
    | some old => t.refresh hash old info floodfill subnets seenAt
    | none =>
      let room := if t.routerLimit > 0 ∧ t.routers.entries.length ≥ t.routerLimit then
          t.evictOldest order
        else some t
      room.bind fun t => t.insertRouter hash info floodfill subnets seenAt

def remove (t : TableState) (hash : Hash) : Option (TableState × Bool) :=
  match t.routers.lookup hash with
  | none => some (t, false)
  | some _ => (t.forget hash).map fun t => (t.nextGeneration, true)

/-- One candidate of a batch of `Expire`. -/
def expireRouter (cutoff : UInt64) (t : TableState) (hash : Hash) : Option TableState :=
  match t.routers.lookup hash with
  | none => some t
  | some entry => if entry.lastSeen ≥ cutoff then some t else t.forget hash

/-- A batch of `Expire`, which is what it does under one lock. -/
def expireBatch (t : TableState) (candidates : List Hash) (cutoff : UInt64) : Option TableState :=
  (candidates.foldlM (expireRouter cutoff) t).map fun next =>
    if next.routers.entries.length = t.routers.entries.length then next else next.nextGeneration

end TableState

structure TableState.Consistent (t : TableState) : Prop where
  indexed : ∀ hash, hash ∈ t.floodfills ↔
    ∃ entry, t.routers.lookup hash = some entry ∧ entry.floodfill = true
  routed : t.routing.Valid t.localHash t.routing.capacity
  capacity : 0 ≤ t.routing.capacity

def RouterTable := { t : TableState // t.Consistent }

inductive TableCall where
  | setBucketSubnetQuota (quota : Int)
  | setRouterLimit (limit : Int) (orders : Nat → List Hash)
  | storeVerified (info : RouterInfo) (floodfill : Bool) (seenAt : UInt64) (order : List Hash)
  | remove (hash : Hash)
  | expireBatch (candidates : List Hash) (cutoff : UInt64)

def TableState.call (env : TableEnv) (t : TableState) : TableCall → Option TableState
  | .setBucketSubnetQuota quota => some (t.setBucketSubnetQuota quota)
  | .setRouterLimit limit orders => t.setRouterLimit limit orders
  | .storeVerified info floodfill seenAt order => t.storeVerified env info floodfill seenAt order
  | .remove hash => (t.remove hash).map Prod.fst
  | .expireBatch candidates cutoff => t.expireBatch candidates cutoff

namespace TableState

variable {t : TableState} {hash : Hash}

def Returns (result : Option TableState) : Prop := ∃ t, result = some t ∧ t.Consistent

variable {result : Option TableState} {next : TableState}

theorem Returns.bind {f : TableState → Option TableState}
    (h : Returns result) (hf : ∀ t, t.Consistent → Returns (f t)) : Returns (result.bind f) := by
  obtain ⟨next, rfl, hnext⟩ := h
  exact hf _ hnext

theorem Returns.map {f : TableState → TableState}
    (h : Returns result) (hf : ∀ t, t.Consistent → (f t).Consistent) : Returns (result.map f) := by
  obtain ⟨next, rfl, hnext⟩ := h
  exact ⟨f next, rfl, hf _ hnext⟩

variable (h : t.Consistent)
include h

theorem Consistent.nextGeneration : t.nextGeneration.Consistent := ⟨h.indexed, h.routed, h.capacity⟩

theorem Consistent.withRouting {routing : KBucketSet}
    (hvalid : routing.Valid t.localHash t.routing.capacity) :
    ({ t with routing := routing }).Consistent := by
  have hcapacity := hvalid.capacity_eq
  refine ⟨h.indexed, ?_, ?_⟩
  · rw [hcapacity]
    exact hvalid
  · rw [hcapacity]
    exact h.capacity

theorem indexed_erase (hash other : Hash) :
    other ∈ t.floodfills.erase hash ↔
      ∃ entry, (t.routers.erase hash).lookup other = some entry ∧ entry.floodfill = true := by
  rw [mem_erase, h.indexed]
  by_cases hother : other = hash
  · subst hother
    simp
  · simp [hother]

theorem indexed_insert (hash : Hash) (entry : RouterEntry) (other : Hash) :
    other ∈ t.markFloodfill hash entry.floodfill ↔
      ∃ found, (t.routers.insert hash entry).lookup other = some found ∧
        found.floodfill = true := by
  unfold markFloodfill
  by_cases hother : other = hash
  · subst hother
    split
    next hflood => simp [hflood]
    next hflood => simp [hflood, mem_erase]
  · rw [lookup_insert_ne hother, ← h.indexed]
    split
    · simp [mem_insert, hother]
    · simp [mem_erase, hother]

theorem Consistent.forget (hash : Hash) : Returns (t.forget hash) := by
  obtain ⟨removed, hremoved, hvalid⟩ := h.routed.remove hash
  unfold TableState.forget
  rw [hremoved]
  have hrouting := h.withRouting hvalid
  exact ⟨_, rfl, indexed_erase h hash, hrouting.routed, hrouting.capacity⟩

theorem Consistent.evictOldest (order : List Hash) : Returns (t.evictOldest order) := by
  unfold TableState.evictOldest
  split
  · exact ⟨t, rfl, h⟩
  · exact (h.forget _).map fun _ => Consistent.nextGeneration

theorem Consistent.evictLoop (limit : Int) (turns : Nat)
    (orders : Nat → List Hash) : Returns (evictLoop limit turns orders t) := by
  induction turns generalizing t with
  | zero => exact ⟨t, rfl, h⟩
  | succ turns ih =>
    rw [TableState.evictLoop]
    split
    · exact (h.evictOldest _).bind fun _ => ih
    · exact ⟨t, rfl, h⟩

theorem Consistent.refresh (hash : Hash) (old : RouterEntry) (info : RouterInfo)
    (floodfill : Bool) (subnets : List RoutingSubnet) (seenAt : UInt64) :
    Returns (t.refresh hash old info floodfill subnets seenAt) := by
  unfold TableState.refresh
  split
  · exact ⟨t, rfl, h⟩
  dsimp only
  generalize (if seenAt > old.lastSeen then seenAt else old.lastSeen) = lastSeen
  have hstored : ({ t with
      routers := t.routers.insert hash ⟨info, floodfill, lastSeen, subnets⟩
      floodfills := t.markFloodfill hash floodfill }).Consistent :=
    ⟨indexed_insert h hash ⟨info, floodfill, lastSeen, subnets⟩, h.routed, h.capacity⟩
  split
  · exact ⟨_, rfl, hstored.nextGeneration⟩
  obtain ⟨removed, hremoved, hvalid⟩ := hstored.routed.remove hash
  rw [hremoved]
  exact ⟨_, rfl, (hstored.withRouting hvalid).nextGeneration⟩

theorem Consistent.insertRouter (hnew : t.routers.lookup hash = none)
    (info : RouterInfo) (floodfill : Bool) (subnets : List RoutingSubnet) (seenAt : UInt64) :
    Returns (t.insertRouter hash info floodfill subnets seenAt) := by
  have hrouting : ∃ routing, (if t.routingAllowsSubnets hash subnets then
        (t.routing.add t.localHash hash seenAt).map Prod.fst
      else some t.routing) = some routing ∧ routing.Valid t.localHash t.routing.capacity := by
    split
    · obtain ⟨added, hadded, hvalid⟩ := h.routed.add h.capacity hash _
      exact ⟨added.1, by rw [hadded, Option.map_some], hvalid⟩
    · exact ⟨t.routing, rfl, h.routed⟩
  obtain ⟨routing, hresult, hvalid⟩ := hrouting
  unfold TableState.insertRouter
  rw [hresult]
  have hadded := h.withRouting hvalid
  refine ⟨_, rfl, Consistent.nextGeneration ⟨?_, hadded.routed, hadded.capacity⟩⟩
  -- A new router has no mark in the index, so that clearing it changes nothing.
  have hmark (other : Hash) :
      other ∈ (if floodfill then t.floodfills.insert hash () else t.floodfills) ↔
        other ∈ t.markFloodfill hash floodfill := by
    unfold markFloodfill
    split
    · exact Iff.rfl
    rw [mem_erase, h.indexed]
    constructor
    · rintro ⟨entry, hentry, hflood⟩
      refine ⟨?_, entry, hentry, hflood⟩
      rintro rfl
      rw [hnew] at hentry
      cases hentry
    · exact And.right
  intro other
  exact (hmark _).trans (indexed_insert h hash ⟨info, floodfill, seenAt, subnets⟩ _)

omit h

theorem lookup_of_forget (h : t.forget hash = some next) {other : Hash}
    (hnone : t.routers.lookup other = none) : next.routers.lookup other = none := by
  obtain ⟨removed, -, rfl⟩ := Option.map_eq_some_iff.mp h
  by_cases hother : other = hash
  · subst hother
    exact lookup_erase _ t.routers
  · exact (lookup_erase_ne hother).trans hnone

theorem lookup_of_evictOldest {order : List Hash} (h : t.evictOldest order = some next)
    {other : Hash} (hnone : t.routers.lookup other = none) : next.routers.lookup other = none := by
  unfold TableState.evictOldest at h
  split at h
  · obtain rfl := Option.some.inj h
    exact hnone
  · obtain ⟨forgot, hforgot, rfl⟩ := Option.map_eq_some_iff.mp h
    exact lookup_of_forget hforgot hnone

variable (h : t.Consistent)
include h

theorem Consistent.storeVerified (env : TableEnv) (info : RouterInfo)
    (floodfill : Bool) (seenAt : UInt64) (order : List Hash) :
    Returns (t.storeVerified env info floodfill seenAt order) := by
  unfold TableState.storeVerified
  dsimp only
  split
  · exact ⟨t, rfl, h⟩
  cases hlookup : t.routers.lookup (env.sha256 info.identity.raw) with
  | some old => exact h.refresh _ _ _ _ _ _
  | none =>
    dsimp only
    split
    · obtain ⟨next, hevicted, hnext⟩ := h.evictOldest _
      rw [hevicted]
      exact hnext.insertRouter (lookup_of_evictOldest hevicted hlookup) _ _ _ _
    · exact h.insertRouter hlookup _ _ _ _

theorem Consistent.expireRouter (cutoff : UInt64) (hash : Hash) :
    Returns (expireRouter cutoff t hash) := by
  unfold TableState.expireRouter
  cases t.routers.lookup hash with
  | none => exact ⟨t, rfl, h⟩
  | some entry =>
    dsimp only
    split
    · exact ⟨t, rfl, h⟩
    · exact h.forget hash

theorem Consistent.expireBatch (candidates : List Hash) (cutoff : UInt64) :
    Returns (t.expireBatch candidates cutoff) := by
  have hfold (t : TableState) (h : t.Consistent) :
      Returns (candidates.foldlM (TableState.expireRouter cutoff) t) := by
    induction candidates generalizing t with
    | nil => exact ⟨t, rfl, h⟩
    | cons candidate rest ih => exact (h.expireRouter _ _).bind ih
  refine (hfold t h).map fun next hnext => ?_
  split
  · exact hnext
  · exact hnext.nextGeneration

/-- Every call on a consistent table returns, with a consistent table. -/
theorem Consistent.call (env : TableEnv) (call : TableCall) : Returns (t.call env call) := by
  cases call with
  | setBucketSubnetQuota quota => exact ⟨_, rfl, h.indexed, h.routed, h.capacity⟩
  | setRouterLimit limit orders =>
    have hlimit : ({ t with routerLimit := limit }).Consistent := ⟨h.indexed, h.routed, h.capacity⟩
    exact hlimit.evictLoop _ _ _
  | storeVerified info floodfill seenAt order => exact h.storeVerified _ _ _ _ _
  | remove hash =>
    unfold TableState.call TableState.remove
    dsimp only
    split
    · exact ⟨t, rfl, h⟩
    obtain ⟨next, hforget, hnext⟩ := h.forget hash
    rw [hforget]
    exact ⟨_, rfl, hnext.nextGeneration⟩
  | expireBatch candidates cutoff => exact h.expireBatch _ _

omit h

theorem consistent_newTable (localHash : Hash) (bucketCapacity : Int) :
    (newTable localHash bucketCapacity).Consistent := by
  refine ⟨?_, KBucketSet.valid_new _ _, KBucketSet.new_capacity_pos _⟩
  intro hash
  constructor
  · intro hmem
    exact absurd hmem (notMem_empty hash)
  · rintro ⟨entry, hlookup, -⟩
    cases hlookup

/-- Every sequence of calls on a new table returns, with a consistent table. -/
theorem returns_calls (env : TableEnv) (localHash : Hash) (bucketCapacity : Int)
    (calls : List TableCall) :
    Returns (run (fun t call => t.bind fun t => t.call env call)
      (some (newTable localHash bucketCapacity)) calls) := by
  refine run_preserves (I := Returns) ?_ ⟨_, rfl, consistent_newTable _ _⟩ _
  intro state call h
  exact h.bind fun t ht => ht.call _ _

end TableState

end Ivnp.NetDb
