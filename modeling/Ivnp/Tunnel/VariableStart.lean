import Ivnp.Tunnel.VariableLayers

/-!
The start of a 528-byte outbound build. Everything the manager draws comes from one
random source, read from its start: the message identifiers, the slots, the records
that stay random, and what the records of the path need. The keys of a hop are not
among it; every request is written with the zero keys.
-/

namespace Ivnp.Tunnel

open Ivnp.Lib Option

def legacyBuildMinRecords : Nat := 4
def buildMessageFuzz : UInt32 := 20000

/-- One participant of the path, as the creator knows it. -/
structure VariableBuildHop where
  router : Hash
  kind : VariableBuildKind
  elGamalKey : FixedBytes 256
  staticKey : FixedBytes 32
  receiveTunnelID : UInt32

structure VariableOutboundBuild where
  circuitID : UInt32
  hops : List VariableBuildHop
  replyRouter : Hash
  replyTunnelID : UInt32
  expiresAt : UInt64

/-- `io.ReadFull` of `n` bytes and the rest of the source. -/
def drawBytes (n : Nat) (random : Bytes) : Option (FixedBytes n × Bytes) :=
  (readFull n random).map fun bytes => (bytes, random.drop n)

def randomUint32 (random : Bytes) : Option (UInt32 × Bytes) :=
  (drawBytes 4 random).map fun drawn => (uint32At drawn.1.val 0, drawn.2)

def uniqueMessageID (existing : List UInt32) : Nat → Bytes → Option (UInt32 × Bytes)
  | 0, _ => none
  | attempts + 1, random => do
      let drawn ← randomUint32 random
      if drawn.1 = 0 ∨ drawn.1 ∈ existing then uniqueMessageID existing attempts drawn.2
      else return drawn

/-- The loop of `StartVariableOutbound` that draws the remaining identifiers. -/
def messageIDs (existing : List UInt32) : Nat → Bytes → Option (List UInt32 × Bytes)
  | 0, random => some (existing, random)
  | count + 1, random => do
      let drawn ← uniqueMessageID existing 16 random
      messageIDs (existing ++ [drawn.1]) count drawn.2

def shuffle : Nat → List UInt8 → Bytes → Option (List UInt8 × Bytes)
  | 0, shuffled, random => some (shuffled, random)
  | index + 1, shuffled, random => do
      let drawn ← randomUint32 random
      let swap := drawn.1.toNat % (index + 2)
      let swapped := (shuffled.set (index + 1) (shuffled.getD swap 0)).set swap
        (shuffled.getD (index + 1) 0)
      shuffle index swapped drawn.2

def randomPositions (hops slots : Nat) (random : Bytes) : Option (List UInt8 × Bytes) :=
  if hops < 1 ∨ hops > slots ∨ slots > legacyBuildMaxRecords then none
  else (shuffle (slots - 1) ((List.range slots).map UInt8.ofNat) random).map fun drawn =>
    (drawn.1.take hops, drawn.2)

/-- The payload before the records of the path are written into it. -/
def randomRecords : Nat → Bytes → Option (List VariableRecord × Bytes)
  | 0, random => some ([], random)
  | count + 1, random => do
      let drawn ← drawBytes variableBuildRecordSize random
      let others ← randomRecords count drawn.2
      return (drawn.1 :: others.1, others.2)

section Start

variable (crypto : BuildCrypto) (localHash : Hash)

def validVariableHops : List VariableBuildHop → Bool
  | [] => true
  | hop :: rest =>
    hop.router ≠ FixedBytes.zero 32 ∧ hop.receiveTunnelID ≠ 0 ∧
      (hop.kind = .elGamal → hop.elGamalKey ≠ FixedBytes.zero 256) ∧
      (hop.kind = .longECIES → hop.staticKey ≠ FixedBytes.zero 32) ∧
      (∀ other ∈ rest, hop.router ≠ other.router ∧
        hop.receiveTunnelID ≠ other.receiveTunnelID) ∧
      validVariableHops rest

def variableRequest (hop : VariableBuildHop) (nextRouter : Hash) (nextTunnelID : UInt32)
    (endpoint : Bool) (now : UInt64) (nextMessageID : UInt32) : VariableBuildRequest where
  receiveTunnelID := hop.receiveTunnelID
  nextTunnelID := nextTunnelID
  nextRouter := nextRouter
  layerKey := FixedBytes.zero 32
  ivKey := FixedBytes.zero 32
  replyKey := FixedBytes.zero 32
  replyIV := FixedBytes.zero 16
  gateway := false
  endpoint := endpoint
  requestHours := (now / 3600000).toUInt32
  requestMinutes := (now / 60000).toUInt32
  lifetimeSeconds := legacyBuildLifetimeSeconds
  nextMessageID := nextMessageID

/-- `fillVariableRequest` for a hop that is known by its public keys, with what it
leaves of the random source. -/
def VariableBuildHop.fillRequest (hop : VariableBuildHop) (request : VariableBuildRequest)
    (random entropy : Bytes) : Option (VariableRecord × VariableBuildKeys × Bytes) :=
  match hop.kind with
  | .elGamal => do
      let plaintext ← marshalElGamalBuildRequest request localHash random
      let record ← encryptElGamalBuildRequest crypto hop.router hop.elGamalKey entropy plaintext
      return (record, VariableBuildKeys.ofRequest request, random.drop 29)
  | .longECIES => do
      let plaintext ← marshalLongECIESBuildRequest request
      let filled ← encryptLongECIESBuildRequest crypto hop.router hop.staticKey plaintext random
      return (filled.1, filled.2, random.drop 32)

def VariableOutboundBuild.next (build : VariableOutboundBuild) :
    List VariableBuildHop → Hash × UInt32
  | [] => (build.replyRouter, build.replyTunnelID)
  | hop :: _ => (hop.router, hop.receiveTunnelID)

/-- The loop of `StartVariableOutbound` over the remaining hops. -/
def fillHops (build : VariableOutboundBuild) (now : UInt64) (entropy : Nat → Bytes) :
    List VariableBuildHop → List UInt32 → List UInt8 → List VariableRecord → Bytes →
      Option (List VariableBuildKeys × List VariableRecord × Bytes)
  | [], _, _, records, random => some ([], records, random)
  | hop :: rest, id :: ids, position :: positions, records, random => do
      let next := build.next rest
      let request := variableRequest hop next.1 next.2 rest.isEmpty now id
      let filled ← hop.fillRequest crypto localHash request random (entropy rest.length)
      let others ← fillHops build now entropy rest ids positions
        (records.set position.toNat filled.1) filled.2.2
      return (filled.2.1 :: others.1, others.2)
  | _ :: _, _, _, _, _ => none

def saturatingDeadline (now delay : UInt64) : UInt64 :=
  if 0xffffffffffffffff - now < delay then 0xffffffffffffffff else now + delay

def randomizedBuildMessageDeadline (now : UInt64) (random : Bytes) : Option UInt64 :=
  (randomUint32 random).map fun drawn =>
    saturatingDeadline now (buildMessageLifetime + (drawn.1 % buildMessageFuzz).toUInt64)

structure StartedVariable where
  keys : List VariableBuildKeys
  positions : List UInt8
  replyID : UInt32
  messageID : UInt32
  expiration : UInt64
  records : List VariableRecord

def VariableOutboundBuild.rejected (build : VariableOutboundBuild) (now : UInt64) : Bool :=
  build.circuitID = 0 ∨ build.hops = [] ∨ build.hops.length > legacyBuildMaxRecords ∨
    build.replyRouter = FixedBytes.zero 32 ∨ build.replyTunnelID = 0 ∨ build.expiresAt ≤ now ∨
    !validVariableHops build.hops

def VariableOutboundBuild.recordCount (build : VariableOutboundBuild) : Nat :=
  if build.hops.length > legacyBuildMinRecords then legacyBuildMaxRecords
  else legacyBuildMinRecords

/-- `StartVariableOutbound` up to the sending of the message. `seeded` is the reader of
a deterministic deadline, and `inUse` says which reply identifiers are taken. -/
def startVariableOutbound (build : VariableOutboundBuild) (now : UInt64) (random : Bytes)
    (entropy : Nat → Bytes) (seeded : Option Bytes) (inUse : UInt32 → Bool) :
    Option StartedVariable :=
  if build.rejected now then none
  else do
    let ids ← messageIDs [] (build.hops.length + 1) random
    let positions ← randomPositions build.hops.length build.recordCount ids.2
    let records ← randomRecords build.recordCount positions.2
    let filled ← fillHops crypto localHash build now entropy build.hops ids.1.tail positions.1
      records.1 records.2
    let prepared ← preprocessVariableBuildRecords crypto filled.2.1 filled.1 positions.1
    let expiration ← randomizedBuildMessageDeadline now (seeded.getD filled.2.2)
    let replyID := ids.1.getLastD 0
    if inUse replyID then none
    else return ⟨filled.1, positions.1, replyID, ids.1.headD 0, expiration, prepared⟩

end Start

section Keys

variable {crypto : BuildCrypto} {localHash : Hash}

def CarriesKeys (request : VariableBuildRequest) (keys : VariableBuildKeys) : Prop :=
  keys.layerKey = request.layerKey ∧ keys.ivKey = request.ivKey ∧ keys.replyKey = request.replyKey

variable {request : VariableBuildRequest} {entropy : Nat → Bytes} {random : Bytes} {now : UInt64}

theorem longECIESKeys_carriesKeys {plaintext : FixedBytes longBuildRequestPlainSize}
    (state : ShortBuildState) (h : marshalLongECIESBuildRequest request = some plaintext) :
    CarriesKeys request (longECIESKeys state plaintext) := by
  have hparsed := longECIESKeys_of_parse (parseLongECIES_marshalLongECIES h) state
  rw [← hparsed]
  exact ⟨rfl, rfl, rfl⟩

theorem fillRequest_carriesKeys {hop : VariableBuildHop}
    {entropy : Bytes} {filled : VariableRecord × VariableBuildKeys × Bytes}
    (h : hop.fillRequest crypto localHash request random entropy = some filled) :
    CarriesKeys request filled.2.1 := by
  unfold VariableBuildHop.fillRequest at h
  split at h
  · obtain ⟨_, -, h⟩ := bind_eq_some_iff.mp h
    obtain ⟨_, -, h⟩ := bind_eq_some_iff.mp h
    obtain rfl := some.inj h
    exact ⟨rfl, rfl, rfl⟩
  · obtain ⟨plaintext, hmarshal, h⟩ := bind_eq_some_iff.mp h
    obtain ⟨encrypted, hencrypt, h⟩ := bind_eq_some_iff.mp h
    obtain rfl := some.inj h
    obtain ⟨_, -, hencrypt⟩ := bind_eq_some_iff.mp hencrypt
    obtain ⟨_, -, hencrypt⟩ := bind_eq_some_iff.mp hencrypt
    obtain rfl := some.inj hencrypt
    exact longECIESKeys_carriesKeys _ hmarshal

/-- The keys of a hop are the constant that every request is written with. -/
def ZeroKeys (keys : VariableBuildKeys) : Prop :=
  keys.layerKey = FixedBytes.zero 32 ∧ keys.ivKey = FixedBytes.zero 32 ∧
    keys.replyKey = FixedBytes.zero 32

variable {build : VariableOutboundBuild}

theorem fillHops_zeroKeys
    {hops : List VariableBuildHop} {ids : List UInt32} {positions : List UInt8}
    {records : List VariableRecord}
    {filled : List VariableBuildKeys × List VariableRecord × Bytes}
    (h : fillHops crypto localHash build now entropy hops ids positions records random =
      some filled) :
    filled.1.length = hops.length ∧ ∀ keys ∈ filled.1, ZeroKeys keys := by
  induction hops generalizing ids positions records random filled with
  | nil =>
    obtain rfl := some.inj h
    exact ⟨rfl, List.forall_mem_nil _⟩
  | cons hop rest ih =>
    cases ids with
    | nil => cases h
    | cons id ids =>
      cases positions with
      | nil => cases h
      | cons position positions =>
        obtain ⟨first, hfirst, h⟩ := bind_eq_some_iff.mp h
        obtain ⟨others, hothers, h⟩ := bind_eq_some_iff.mp h
        obtain rfl := some.inj h
        obtain ⟨hlength, hzero⟩ := ih hothers
        refine ⟨congrArg Nat.succ hlength, List.forall_mem_cons.mpr ⟨?_, hzero⟩⟩
        exact fillRequest_carriesKeys hfirst

/-- The keys of the path are nonzero, and no two hops share one. -/
def FreshKeys (keys : List VariableBuildKeys) : Prop :=
  (∀ hop ∈ keys, hop.layerKey ≠ FixedBytes.zero 32 ∧ hop.ivKey ≠ FixedBytes.zero 32 ∧
      hop.replyKey ≠ FixedBytes.zero 32) ∧
    keys.Pairwise fun left right => left.layerKey ≠ right.layerKey ∧ left.ivKey ≠ right.ivKey ∧
      left.replyKey ≠ right.replyKey

theorem startVariableOutbound_zeroKeys {seeded : Option Bytes} {inUse : UInt32 → Bool}
    {started : StartedVariable}
    (h : startVariableOutbound crypto localHash build now random entropy seeded inUse =
      some started) :
    started.keys.length = build.hops.length ∧ ∀ keys ∈ started.keys, ZeroKeys keys := by
  unfold startVariableOutbound at h
  split at h
  · cases h
  obtain ⟨ids, -, h⟩ := bind_eq_some_iff.mp h
  obtain ⟨positions, -, h⟩ := bind_eq_some_iff.mp h
  obtain ⟨records, -, h⟩ := bind_eq_some_iff.mp h
  obtain ⟨filled, hfilled, h⟩ := bind_eq_some_iff.mp h
  obtain ⟨prepared, -, h⟩ := bind_eq_some_iff.mp h
  obtain ⟨expiration, -, h⟩ := bind_eq_some_iff.mp h
  dsimp only at h
  split at h
  · cases h
  · obtain rfl := some.inj h
    exact fillHops_zeroKeys hfilled

/-- A started build has fresh keys exactly when it has no hops. -/
theorem started_freshKeys_iff {now : UInt64}
    {random : Bytes} {entropy : Nat → Bytes} {seeded : Option Bytes} {inUse : UInt32 → Bool}
    {started : StartedVariable}
    (h : startVariableOutbound crypto localHash build now random entropy seeded inUse =
      some started) :
    FreshKeys started.keys ↔ build.hops = [] := by
  obtain ⟨hlength, hzero⟩ := startVariableOutbound_zeroKeys h
  constructor
  · intro hfresh
    cases hkeys : started.keys with
    | nil =>
      rw [hkeys] at hlength
      exact List.length_eq_zero_iff.mp hlength.symm
    | cons first rest =>
      have hfirst := hkeys ▸ List.mem_cons_self
      exact absurd (hzero _ hfirst).1 (hfresh.1 first hfirst).1
  · intro hnone
    rw [hnone] at hlength
    rw [List.length_eq_zero_iff.mp hlength]
    exact ⟨List.forall_mem_nil _, List.Pairwise.nil⟩

end Keys

def sampleBlocks : List (FixedBytes 32) :=
  (List.range 100).map fun index => FixedBytes.copy 32 (List.replicate 32 (UInt8.ofNat (index + 1)))

def sampleStream : Bytes := sampleBlocks.flatMap Subtype.val

/-- Two hops, one of each kind. -/
def sampleVariableBuild : VariableOutboundBuild where
  circuitID := 1
  hops :=
    [⟨FixedBytes.copy 32 (List.replicate 32 1), .elGamal, FixedBytes.copy 256 (List.replicate 256 1), FixedBytes.zero 32, 5⟩,
      ⟨FixedBytes.copy 32 (List.replicate 32 2), .longECIES, FixedBytes.zero 256, FixedBytes.copy 32 (List.replicate 32 1), 6⟩]
  replyRouter := FixedBytes.copy 32 (List.replicate 32 3)
  replyTunnelID := 7
  expiresAt := 1800000600000

def sampleStart : Option StartedVariable :=
  startVariableOutbound plainCrypto (FixedBytes.zero 32) sampleVariableBuild 1800000000000
    sampleStream (fun _ => []) none fun _ => false

theorem sampleStart_isSome : sampleStart.isSome = true := by decide +kernel

theorem started_freshKeys_iff_two_hops :
    ∃ started, sampleStart = some started ∧
      (FreshKeys started.keys ↔ sampleVariableBuild.hops = []) := by
  obtain ⟨started, hstarted⟩ := isSome_iff_exists.mp sampleStart_isSome
  exact ⟨started, hstarted, started_freshKeys_iff hstarted⟩

/-- The blocks of the stream are nonzero and different, and both hops have the zero
keys. -/
theorem started_keys_not_fresh :
    (∀ block ∈ sampleBlocks, block ≠ FixedBytes.zero 32) ∧ sampleBlocks.Nodup ∧
      ∃ started, sampleStart = some started ∧ started.keys.length = 2 ∧
        (∀ keys ∈ started.keys, ZeroKeys keys) ∧ ¬ FreshKeys started.keys := by
  obtain ⟨started, hstarted⟩ := isSome_iff_exists.mp sampleStart_isSome
  obtain ⟨hlength, hzero⟩ := startVariableOutbound_zeroKeys hstarted
  refine ⟨by decide +kernel, by decide +kernel, started, hstarted, hlength, hzero, ?_⟩
  rintro ⟨hnonzero, -⟩
  have hpos := Nat.two_pos.trans_eq hlength.symm
  obtain ⟨first, hfirst⟩ := List.exists_mem_of_length_pos hpos
  exact (hnonzero _ hfirst).1 (hzero _ hfirst).1

end Ivnp.Tunnel
