import Ivnp.Tunnel.ShortRequest
import Ivnp.Tunnel.VariableBuild

/-!
The 218-byte tunnel build: the creator encrypts one request per hop and conceals
it with the layers of the hops before it, every hop replaces its own record by a
sealed reply and adds its layer to all others, and the creator opens the replies.
For an inbound tunnel the creator puts a record of its own among the others and
recognises it when it comes back. A layer is the keystream of a reply key at the
number of the record. The primitives are parameters; which of their laws a result
needs is said by `ShortBuildCrypto.Sound`.
-/

namespace Ivnp.Tunnel

open Ivnp.Lib Ivnp.Foundation

def shortBuildReplyPlainSize : Nat := 202
def shortBuildCipherOffset : Nat := 48

abbrev ShortRecord := FixedBytes shortBuildRecordSize

/-- The primitives of the long build and those that take a nonce, or a label. -/
structure ShortBuildCrypto extends BuildCrypto where
  tunnelKDF : FixedBytes 32 → Bytes → FixedBytes 32 × FixedBytes 32
  sealWith : FixedBytes 32 → FixedBytes 12 → FixedBytes shortBuildReplyPlainSize →
    FixedBytes 32 → ShortRecord
  openWith : FixedBytes 32 → FixedBytes 12 → ShortRecord → FixedBytes 32 →
    Option (FixedBytes shortBuildReplyPlainSize)
  keyStream : FixedBytes 32 → FixedBytes 12 → ShortRecord

/-- The AEAD opens what it has sealed, and both ends of a key agreement agree. -/
structure ShortBuildCrypto.Sound (crypto : ShortBuildCrypto) : Prop where
  x25519_comm : ∀ left right,
    crypto.x25519 left (crypto.x25519Public right) = crypto.x25519 right (crypto.x25519Public left)
  chacha : ∀ n key plaintext ad,
    crypto.chachaOpen n key (crypto.chachaSeal n key plaintext ad) ad = some plaintext
  chachaWith : ∀ key nonce plaintext ad,
    crypto.openWith key nonce (crypto.sealWith key nonce plaintext ad) ad = some plaintext

structure ShortBuildKeys where
  replyKey : FixedBytes 32
  layerKey : FixedBytes 32
  ivKey : FixedBytes 32
  garlicKey : FixedBytes 32
  garlicTag : FixedBytes 8
  hash : FixedBytes 32
  hasGarlicKeys : Bool
  deriving DecidableEq

def shortBuildNonce (index : Nat) : FixedBytes 12 :=
  ⟨List.replicate 4 0 ++ (natBE 8 index).reverse, by simp⟩

section Records

variable (crypto : ShortBuildCrypto)

def kdfLabel (label : String) : Bytes := label.toList.map (·.toUInt8)

def deriveShortBuildKeys (chain hash : FixedBytes 32) (endpoint : Bool) : ShortBuildKeys :=
  let reply := crypto.tunnelKDF chain (kdfLabel "SMTunnelReplyKey")
  let layer := crypto.tunnelKDF reply.1 (kdfLabel "SMTunnelLayerKey")
  if endpoint then
    let iv := crypto.tunnelKDF layer.1 (kdfLabel "TunnelLayerIVKey")
    let garlic := crypto.tunnelKDF iv.1 (kdfLabel "RGarlicKeyAndTag")
    ⟨reply.2, layer.2, iv.2, garlic.2, arrayAt 8 garlic.1.val 0, hash, true⟩
  else
    ⟨reply.2, layer.2, layer.1, FixedBytes.zero 32, FixedBytes.zero 8, hash, false⟩

def shortPeerRecord (router : Hash) (publicKey : FixedBytes 32) (body : Bytes)
    (h : body.length = 170) : ShortRecord :=
  ⟨router.val.take shortBuildPeerSize ++ (publicKey.val ++ body), by
    simp [h, shortBuildPeerSize, shortBuildRecordSize]⟩

/-- The keys of a record from the shared secret, the transcript and whether its
plaintext has the endpoint flag. -/
def requestKeys (state : ShortBuildState) (chainingKey : FixedBytes 32) (ciphertext : Bytes)
    (plaintext : FixedBytes shortBuildRequestPlainSize) : ShortBuildKeys :=
  let mixed := { state with chainingKey }.mixHash crypto.toBuildCrypto ciphertext
  deriveShortBuildKeys crypto mixed.chainingKey mixed.hash
    (plaintext.val.getD shortBuildFlagOffset 0 &&& shortBuildEndpointFlag ≠ 0)

/-- `encryptShortBuildRequest`; `ephemeral` is the key it generates. -/
def encryptShortBuildRequest (hop : Hash) (hopStatic : FixedBytes 32)
    (plaintext : FixedBytes shortBuildRequestPlainSize) (ephemeral : FixedBytes 32) :
    Option (ShortRecord × ShortBuildKeys) :=
  let ephemeralPublic := crypto.x25519Public ephemeral
  let state := newShortBuildState crypto.toBuildCrypto hopStatic ephemeralPublic
  (crypto.x25519 ephemeral hopStatic).map fun shared =>
    let derived := crypto.shortBuildKDF2 state.chainingKey shared
    let ciphertext := crypto.chachaSeal shortBuildRequestPlainSize derived.2 plaintext state.hash
    (shortPeerRecord hop ephemeralPublic ciphertext.val ciphertext.property,
      requestKeys crypto state derived.1 ciphertext.val plaintext)

def decryptShortBuildRequest (record : ShortRecord) (localHash : Hash)
    (staticPrivate : FixedBytes 32) :
    Option (FixedBytes shortBuildRequestPlainSize × ShortBuildKeys) :=
  if record.val.take shortBuildPeerSize ≠ localHash.val.take shortBuildPeerSize then none
  else
    let ephemeral := arrayAt 32 record.val shortBuildPeerSize
    let state :=
      newShortBuildState crypto.toBuildCrypto (crypto.x25519Public staticPrivate) ephemeral
    (crypto.x25519 staticPrivate ephemeral).bind fun shared =>
      let derived := crypto.shortBuildKDF2 state.chainingKey shared
      let ciphertext := arrayAt (shortBuildRequestPlainSize + 16) record.val shortBuildCipherOffset
      (crypto.chachaOpen shortBuildRequestPlainSize derived.2 ciphertext state.hash).map
        fun plaintext => (plaintext, requestKeys crypto state derived.1 ciphertext.val plaintext)

def sealShortBuildReply (plaintext : FixedBytes shortBuildReplyPlainSize) (keys : ShortBuildKeys)
    (index : Nat) : Option ShortRecord :=
  if index ≥ maxVariableBuildRecords then none
  else some (crypto.sealWith keys.replyKey (shortBuildNonce index) plaintext keys.hash)

def openShortBuildReply (record : ShortRecord) (keys : ShortBuildKeys) (index : Nat) :
    Option (FixedBytes shortBuildReplyPlainSize) :=
  if index ≥ maxVariableBuildRecords then none
  else crypto.openWith keys.replyKey (shortBuildNonce index) record keys.hash

def transformShortBuildRecord (record : ShortRecord) (replyKey : FixedBytes 32) (index : Nat) :
    Option ShortRecord :=
  if index ≥ maxVariableBuildRecords then none
  else some (record.xor (crypto.keyStream replyKey (shortBuildNonce index)))

/-- The inner loops over several keys. -/
def transformAll (replyKeys : List (FixedBytes 32)) (index : Nat) (record : ShortRecord) :
    Option ShortRecord :=
  replyKeys.foldlM (fun record replyKey => transformShortBuildRecord crypto record replyKey index)
    record

/-- The outer loop of `PreprocessShortBuildRecords` over the remaining hops, with
the reply keys of the hops before them. -/
def preprocessShortFrom : List (FixedBytes 32) → List (ShortBuildKeys × UInt8) →
    List ShortRecord → Option (List ShortRecord)
  | _, [], records => some records
  | earlier, (keys, position) :: later, records =>
    match records[position.toNat]? with
    | none => none
    | some record =>
      match transformAll crypto earlier position.toNat record with
      | none => none
      | some concealed =>
        preprocessShortFrom (earlier ++ [keys.replyKey]) later
          (records.set position.toNat concealed)

def preprocessShortBuildRecords (records : List ShortRecord) (keys : List ShortBuildKeys)
    (positions : List UInt8) : Option (List ShortRecord) :=
  if keys = [] ∨ keys.length ≠ positions.length then none
  else if records.length < keys.length ∨ records.length > maxVariableBuildRecords then none
  else if ¬ ((∀ position ∈ positions, position.toNat < records.length) ∧ positions.Nodup) then none
  else preprocessShortFrom crypto [] (keys.zip positions) records

/-- The loop of `OpenShortBuildReplies` over the remaining hops. -/
def openShortFrom (replies : List ShortRecord) :
    List (ShortBuildKeys × UInt8) → Option (List (FixedBytes shortBuildReplyPlainSize))
  | [] => some []
  | (keys, position) :: later =>
    match replies[position.toNat]? with
    | none => none
    | some record =>
      match transformAll crypto (later.map (·.1.replyKey)) position.toNat record with
      | none => none
      | some sealed =>
        match openShortBuildReply crypto sealed keys position.toNat with
        | none => none
        | some plaintext =>
          if !validReply plaintext then none
          else (openShortFrom replies later).map (plaintext :: ·)
where
  /-- The mapping and the code of a reply. -/
  validReply (plaintext : FixedBytes shortBuildReplyPlainSize) : Bool :=
    match parseMapping plaintext.val with
    | none => false
    | some (mapping, used) =>
      let code := plaintext.val.getD (shortBuildReplyPlainSize - 1) 0
      used ≤ shortBuildReplyPlainSize - 1 ∧ mapping.encodedLen ≤ shortBuildReplyPlainSize - 1 ∧
        (code = 0 ∨ code = 30)

/-- `OpenShortBuildReplies`, with the plaintexts it writes. -/
def openShortBuildReplies (replies : List ShortRecord) (keys : List ShortBuildKeys)
    (positions : List UInt8) : Option (List (FixedBytes shortBuildReplyPlainSize)) :=
  if keys = [] ∨ keys.length ≠ positions.length then none
  else openShortFrom crypto replies (keys.zip positions)

end Records

section Transit

/-- What the other components of a transit hop answer to a request. -/
structure TransitAnswer where
  available : UInt32
  admitted : Bool
  random : Bytes

def needsBandwidth (request : ShortBuildRequest) : Bool :=
  request.bandwidth.minimum ≠ 0 ∨ request.bandwidth.requested ≠ 0

def TransitAnswer.accept (answer : TransitAnswer) (request : ShortBuildRequest) : Bool :=
  (!needsBandwidth request ∨
    answer.available ≠ 0 ∧ answer.available ≥ request.bandwidth.minimum) ∧ answer.admitted

def optionKeyBandwidth : Bytes := ['b'.toUInt8]

/-- The plaintext that `sealBuildReply` writes: the bandwidth if it was asked for
and is given, random padding and the code. -/
def replyPlaintext (answer : TransitAnswer) (request : ShortBuildRequest) :
    Option (FixedBytes shortBuildReplyPlainSize) :=
  let accept := answer.accept request
  let options :=
    if accept ∧ needsBandwidth request then
      marshalMapping [(optionKeyBandwidth, formatUint answer.available)]
    else some [0, 0]
  options.bind fun options =>
    (readFull (shortBuildReplyPlainSize - 1 - options.length) answer.random).map fun padding =>
      FixedBytes.copy shortBuildReplyPlainSize (options ++ (padding.val ++ [replyCode accept]))

/-- What a hop has read from its record. -/
structure TransitRequest where
  plaintext : FixedBytes shortBuildRequestPlainSize
  request : ShortBuildRequest
  keys : ShortBuildKeys
  slot : Nat

variable (crypto : ShortBuildCrypto)

/-- The layers that a hop adds to all records but its own, from `index` on. -/
def transformOthers (replyKey : FixedBytes 32) (slot : Nat) :
    Nat → List ShortRecord → Option (List ShortRecord)
  | _, [] => some []
  | index, record :: rest =>
    if index = slot then (transformOthers replyKey slot (index + 1) rest).map (record :: ·)
    else
      match transformShortBuildRecord crypto record replyKey index with
      | none => none
      | some other => (transformOthers replyKey slot (index + 1) rest).map (other :: ·)

def transitRecords (localHash : Hash) (staticPrivate : FixedBytes 32) (answer : TransitAnswer)
    (records : List ShortRecord) : Option (TransitRequest × List ShortRecord) :=
  if records.length < 1 ∨ records.length > maxVariableBuildRecords then none
  else
    match findSlot localHash 0 none (records.map Subtype.val) with
    | none => none
    | some (slot, _) =>
      match records[slot]? with
      | none => none
      | some record =>
        match decryptShortBuildRequest crypto record localHash staticPrivate with
        | none => none
        | some (plaintext, keys) =>
          match parseShortBuildRequest parseRequestOptions plaintext.val with
          | none => none
          | some request =>
            match (replyPlaintext answer request).bind fun reply =>
              sealShortBuildReply crypto reply keys slot with
            | none => none
            | some sealed =>
              (transformOthers crypto keys.replyKey slot 0 (records.set slot sealed)).map
                fun others => (⟨plaintext, request, keys, slot⟩, others)

end Transit

section Creator

/-- One hop of a path, with its request and record, and what it will answer. -/
structure ShortBuildHop where
  router : Hash
  staticPrivate : FixedBytes 32
  receiveTunnelID : UInt32
  options : ShortBuildOptions
  position : UInt8
  padding : Bytes
  ephemeral : FixedBytes 32
  answer : TransitAnswer

/-- Which way the tunnel goes, and where it ends: at the reply tunnel of an
outbound build, or at the creator of an inbound one. -/
inductive BuildDirection where
  | outbound (replyRouter : Hash) (replyTunnelID : UInt32)
  | inbound (localHash : Hash) (circuitID : UInt32)

namespace BuildDirection

def target : BuildDirection → Hash × UInt32
  | outbound router tunnelID => (router, tunnelID)
  | inbound localHash circuitID => (localHash, circuitID)

def isInbound : BuildDirection → Bool
  | outbound _ _ => false
  | inbound _ _ => true

end BuildDirection

/-- What `StartOutbound` and `StartInbound` take. -/
structure ShortBuildPlan where
  direction : BuildDirection
  hops : List ShortBuildHop
  requestMinutes : UInt32
  messageIDs : List UInt32
  random : List ShortRecord

namespace ShortBuildPlan

/-- The requests of the remaining hops; `first` says whether the first hop of the
path is among them. -/
def requestsFrom (plan : ShortBuildPlan) (first : Bool) :
    List ShortBuildHop → List UInt32 → List (ShortBuildHop × ShortBuildRequest)
  | hop :: rest, messageID :: messageIDs =>
    let next :=
      match rest with
      | [] => plan.direction.target
      | next :: _ => (next.router, next.receiveTunnelID)
    (hop,
      { receiveTunnelID := hop.receiveTunnelID
        nextTunnelID := next.2
        nextRouter := next.1
        gateway := plan.direction.isInbound && first
        endpoint := !plan.direction.isInbound && rest.isEmpty
        requestMinutes := plan.requestMinutes
        lifetimeSeconds := shortBuildLifetime
        nextMessageID := messageID
        bandwidth := hop.options }) :: requestsFrom plan false rest messageIDs
  | _, _ => []

def requests (plan : ShortBuildPlan) : List (ShortBuildHop × ShortBuildRequest) :=
  plan.requestsFrom true plan.hops plan.messageIDs.tail

variable (crypto : ShortBuildCrypto)

def validHops (plan : ShortBuildPlan) : Bool :=
  (∀ hop ∈ plan.hops, hop.receiveTunnelID ≠ 0 ∧ hop.router ≠ FixedBytes.zero 32 ∧
      crypto.x25519Public hop.staticPrivate ≠ FixedBytes.zero 32) ∧
    (∀ pair ∈ plan.requests, validShortBuildOptions pair.2.bandwidth pair.2.gateway) ∧
    plan.hops.Pairwise fun earlier later =>
      earlier.router ≠ later.router ∧ earlier.receiveTunnelID ≠ later.receiveTunnelID

/-- One turn of the loop that fills the records. -/
def fillShortRequest (hop : ShortBuildHop) (request : ShortBuildRequest) :
    Option (FixedBytes shortBuildRequestPlainSize × ShortRecord × ShortBuildKeys) :=
  match marshalShortBuildOptions request.bandwidth with
  | none => none
  | some options =>
    match marshalShortBuildRequest request options hop.padding with
    | none => none
    | some plaintext =>
      (encryptShortBuildRequest crypto hop.router (crypto.x25519Public hop.staticPrivate)
        plaintext hop.ephemeral).map fun encrypted => (plaintext, encrypted)

/-- The loop that fills the records of the path, with what it has written for
every hop. -/
def fillShortRecords : List (ShortBuildHop × ShortBuildRequest) → List ShortRecord →
    Option (List TransitRequest × List ShortRecord)
  | [], records => some ([], records)
  | (hop, request) :: rest, records =>
    match fillShortRequest crypto hop request with
    | none => none
    | some (plaintext, record, keys) =>
      (fillShortRecords rest (records.set hop.position.toNat record)).map fun others =>
        (⟨plaintext, request, keys, hop.position.toNat⟩ :: others.1, others.2)

def positions (plan : ShortBuildPlan) : List UInt8 := plan.hops.map (·.position)

structure Created where
  written : List TransitRequest
  records : List ShortRecord

namespace Created

def keys (created : Created) : List ShortBuildKeys := created.written.map (·.keys)

end Created

def startOutbound (plan : ShortBuildPlan) : Option Created :=
  if plan.direction.isInbound ∨ plan.hops.length < 1 ∨ plan.hops.length > maxVariableBuildRecords ∨
      plan.direction.target.1 = FixedBytes.zero 32 ∨ plan.direction.target.2 = 0 then
    none
  else if !plan.validHops crypto ∨ plan.messageIDs.length ≠ plan.hops.length + 1 ∨
      plan.random.length ≠ max 4 plan.hops.length then
    none
  else
    match fillShortRecords crypto plan.requests plan.random with
    | none => none
    | some (written, filled) =>
      (preprocessShortBuildRecords crypto filled (written.map (·.keys)) plan.positions).map
        fun records => ⟨written, records⟩

/-- The record of its own that the creator of an inbound tunnel adds. -/
structure FakeRecord where
  position : UInt8
  privateKey : FixedBytes 32

def fakeRecord (plan : ShortBuildPlan) (fake : FakeRecord) (random : ShortRecord) : ShortRecord :=
  shortPeerRecord plan.direction.target.1 (crypto.x25519Public fake.privateKey)
    (random.val.drop shortBuildCipherOffset) (by
      rw [List.length_drop, random.property]
      rfl)

/-- What `StartInbound` keeps to recognise its own record, and the rest. -/
structure CreatedInbound extends Created where
  fakeHash : Hash

/-- The records of `StartInbound`: the fake record gets the layers of all hops but
the last. -/
def startInbound (plan : ShortBuildPlan) (fake : FakeRecord) : Option CreatedInbound :=
  if !plan.direction.isInbound ∨ plan.hops.length < 1 ∨
      plan.hops.length ≥ maxVariableBuildRecords ∨ plan.direction.target.1 = FixedBytes.zero 32 ∨
      plan.direction.target.2 = 0 then
    none
  else if !plan.validHops crypto ∨ plan.messageIDs.length ≠ plan.hops.length + 1 ∨
      plan.random.length ≠ max 4 (plan.hops.length + 1) then
    none
  else
    match plan.random[fake.position.toNat]? with
    | none => none
    | some random =>
      let original := plan.fakeRecord crypto fake random
      match fillShortRecords crypto plan.requests
        (plan.random.set fake.position.toNat original) with
      | none => none
      | some (written, filled) =>
        match preprocessShortBuildRecords crypto filled (written.map (·.keys))
          plan.positions with
        | none => none
        | some records =>
          match records[fake.position.toNat]? with
          | none => none
          | some concealed =>
            (transformAll crypto (written.dropLast.map (·.keys.replyKey))
              fake.position.toNat concealed).map fun concealed =>
                ⟨⟨written, records.set fake.position.toNat concealed⟩,
                  crypto.sha256 original.val⟩

def verifyFake (created : CreatedInbound) (fake : FakeRecord) (replies : List ShortRecord) :
    Bool :=
  match replies[fake.position.toNat]?, created.written.getLast? with
  | some record, some last =>
    match transformShortBuildRecord crypto record last.keys.replyKey fake.position.toNat with
    | none => false
    | some verified => crypto.sha256 verified.val = created.fakeHash
  | _, _ => false

def relayShort : List ShortBuildHop → List ShortRecord →
    Option (List TransitRequest × List ShortRecord)
  | [], records => some ([], records)
  | hop :: rest, records =>
    match transitRecords crypto hop.router hop.staticPrivate hop.answer records with
    | none => none
    | some (own, passed) => (relayShort rest passed).map fun others => (own :: others.1, others.2)

end ShortBuildPlan

end Creator

end Ivnp.Tunnel
