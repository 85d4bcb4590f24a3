import Mathlib
import Ivnp.Lib.Cbc
import Ivnp.Tunnel.VariableRequest

/-!
The 528-byte tunnel build: the creator encrypts one request per hop and strips
the layers the earlier hops will add, every hop replaces its own record by a
reply and adds its layer to all others, and the creator opens the replies. The
records of a message are a list. Random sources are byte strings, read from
their start. The primitives are parameters; which of their laws a result needs
is said by `BuildCrypto.Sound`.
-/

namespace Ivnp.Tunnel

open Ivnp.Lib

def variableBuildRecordSize : Nat := 528
def legacyBuildPeerSize : Nat := 16
def legacyBuildMaxRecords : Nat := 8
def aesBlockSize : Nat := 16

abbrev VariableRecord := FixedBytes variableBuildRecordSize

/-- The primitives. The ChaCha20-Poly1305 key is used with the zero nonce, and
`elGamalEncrypt` also takes the entropy it draws. -/
structure BuildCrypto where
  aesEncrypt : FixedBytes 32 → FixedBytes aesBlockSize → FixedBytes aesBlockSize
  aesDecrypt : FixedBytes 32 → FixedBytes aesBlockSize → FixedBytes aesBlockSize
  sha256 : Bytes → Hash
  elGamalPublic : FixedBytes 256 → FixedBytes 256
  elGamalEncrypt : Bytes → FixedBytes 256 → FixedBytes legacyBuildRequestPlainSize →
    Option (FixedBytes 256 × FixedBytes 256)
  elGamalDecrypt : FixedBytes 256 → FixedBytes 256 × FixedBytes 256 →
    Option (FixedBytes legacyBuildRequestPlainSize)
  x25519Public : FixedBytes 32 → FixedBytes 32
  x25519 : FixedBytes 32 → FixedBytes 32 → Option (FixedBytes 32)
  shortBuildKDF2 : FixedBytes 32 → FixedBytes 32 → FixedBytes 32 × FixedBytes 32
  chachaSeal : (n : Nat) → FixedBytes 32 → FixedBytes n → FixedBytes 32 → FixedBytes (n + 16)
  chachaOpen : (n : Nat) → FixedBytes 32 → FixedBytes (n + 16) → FixedBytes 32 →
    Option (FixedBytes n)

/-- Decryption undoes encryption, and both ends of a key agreement agree. -/
structure BuildCrypto.Sound (crypto : BuildCrypto) : Prop where
  aes_decrypt_encrypt : ∀ key, Function.LeftInverse (crypto.aesDecrypt key) (crypto.aesEncrypt key)
  aes_encrypt_decrypt : ∀ key, Function.LeftInverse (crypto.aesEncrypt key) (crypto.aesDecrypt key)
  elGamal : ∀ {entropy secret plaintext ciphertext},
    crypto.elGamalEncrypt entropy (crypto.elGamalPublic secret) plaintext = some ciphertext →
      crypto.elGamalDecrypt secret ciphertext = some plaintext
  x25519_comm : ∀ left right,
    crypto.x25519 left (crypto.x25519Public right) = crypto.x25519 right (crypto.x25519Public left)
  chacha : ∀ n key plaintext ad,
    crypto.chachaOpen n key (crypto.chachaSeal n key plaintext ad) ad = some plaintext

/-- What the creator keeps for a hop until the reply arrives. -/
structure VariableBuildKeys where
  kind : VariableBuildKind
  layerKey : FixedBytes 32
  ivKey : FixedBytes 32
  replyKey : FixedBytes 32
  replyIV : FixedBytes 16
  responseKey : FixedBytes 32
  responseAD : FixedBytes 32
  deriving DecidableEq

/-- The keys of an ElGamal record, which has no response key of its own. -/
def VariableBuildKeys.ofRequest (request : VariableBuildRequest) : VariableBuildKeys :=
  ⟨.elGamal, request.layerKey, request.ivKey, request.replyKey, request.replyIV,
    FixedBytes.zero 32, FixedBytes.zero 32⟩

/-- The Noise N state of a long ECIES record. -/
structure ShortBuildState where
  chainingKey : FixedBytes 32
  hash : FixedBytes 32

def shortBuildProtocol : Bytes := "Noise_N_25519_ChaChaPoly_SHA256".toList.map (·.toUInt8)

section Records

variable (crypto : BuildCrypto)

def ShortBuildState.mixHash (state : ShortBuildState) (data : Bytes) : ShortBuildState :=
  { state with hash := crypto.sha256 (state.hash.val ++ data) }

def newShortBuildState (static ephemeral : FixedBytes 32) : ShortBuildState :=
  let hash := FixedBytes.copy 32 shortBuildProtocol
  (((ShortBuildState.mk hash hash).mixHash crypto []).mixHash crypto static.val).mixHash crypto
    ephemeral.val

def cbcVariableEncrypt (record : VariableRecord) (key : FixedBytes 32) (iv : FixedBytes 16) :
    VariableRecord :=
  ⟨Cbc.encryptBlocks (crypto.aesEncrypt key) 33 iv record.val, Cbc.length_encryptBlocks _ _ _ _⟩

def cbcVariableDecrypt (record : VariableRecord) (key : FixedBytes 32) (iv : FixedBytes 16) :
    VariableRecord :=
  ⟨Cbc.decryptBlocks (crypto.aesDecrypt key) 33 iv record.val, Cbc.length_decryptBlocks _ _ _ _⟩

def peerRecord (hop : Hash) (body : Bytes) (h : body.length = 512) : VariableRecord :=
  ⟨hop.val.take legacyBuildPeerSize ++ body, by
    simp [h, legacyBuildPeerSize, variableBuildRecordSize]⟩

/-- `EncryptElGamalBuildRequest`: the two leading zero bytes of the ciphertext
halves are not on the wire. -/
def encryptElGamalBuildRequest (hop : Hash) (publicKey : FixedBytes 256) (entropy : Bytes)
    (plaintext : FixedBytes legacyBuildRequestPlainSize) : Option VariableRecord :=
  (crypto.elGamalEncrypt entropy publicKey plaintext).map fun encrypted =>
    peerRecord hop (encrypted.1.val ++ encrypted.2.val) (by simp)

def decryptElGamalBuildRequest (record : VariableRecord) (localHash : Hash)
    (secret : FixedBytes 256) : Option (FixedBytes legacyBuildRequestPlainSize) :=
  if record.val.take legacyBuildPeerSize ≠ localHash.val.take legacyBuildPeerSize then none
  else crypto.elGamalDecrypt secret (arrayAt 256 record.val 16, arrayAt 256 record.val 272)

def longECIESKeys (state : ShortBuildState) (plaintext : FixedBytes longBuildRequestPlainSize) :
    VariableBuildKeys :=
  ⟨.longECIES, arrayAt 32 plaintext.val 40, arrayAt 32 plaintext.val 72,
    arrayAt 32 plaintext.val 104, arrayAt 16 plaintext.val 136, state.chainingKey, state.hash⟩

def encryptLongECIESBuildRequest (hop : Hash) (static : FixedBytes 32)
    (plaintext : FixedBytes longBuildRequestPlainSize) (random : Bytes) :
    Option (VariableRecord × VariableBuildKeys) := do
  let ephemeral ← readFull 32 random
  let ephemeralPublic := crypto.x25519Public ephemeral
  let state := newShortBuildState crypto static ephemeralPublic
  let shared ← crypto.x25519 ephemeral static
  let derived := crypto.shortBuildKDF2 state.chainingKey shared
  let ciphertext := crypto.chachaSeal longBuildRequestPlainSize derived.2 plaintext state.hash
  let mixed := { state with chainingKey := derived.1 }.mixHash crypto ciphertext.val
  return (peerRecord hop (ephemeralPublic.val ++ ciphertext.val)
    (by simp [longBuildRequestPlainSize]), longECIESKeys mixed plaintext)

def decryptLongECIESBuildRequest (record : VariableRecord) (localHash : Hash)
    (staticPrivate : FixedBytes 32) :
    Option (FixedBytes longBuildRequestPlainSize × VariableBuildKeys) :=
  if record.val.take legacyBuildPeerSize ≠ localHash.val.take legacyBuildPeerSize then none
  else
    let ephemeral := arrayAt 32 record.val 16
    let static := crypto.x25519Public staticPrivate
    if ephemeral = static ∨ ephemeral = FixedBytes.zero 32 then none
    else do
      let state := newShortBuildState crypto static ephemeral
      let shared ← crypto.x25519 staticPrivate ephemeral
      let derived := crypto.shortBuildKDF2 state.chainingKey shared
      let ciphertext := arrayAt (longBuildRequestPlainSize + 16) record.val 48
      let plaintext ← crypto.chachaOpen longBuildRequestPlainSize derived.2 ciphertext state.hash
      let mixed := { state with chainingKey := derived.1 }.mixHash crypto ciphertext.val
      return (plaintext, longECIESKeys mixed plaintext)

def replyCode (accept : Bool) : UInt8 := if accept then 0 else 30

/-- `sealVariableBuildReply`; the whole record is overwritten. -/
def sealVariableBuildReply (keys : VariableBuildKeys) (random : Bytes) (code : UInt8) :
    Option VariableRecord :=
  if code ≠ 0 ∧ code ≠ 30 then none
  else
    match keys.kind with
    | .elGamal =>
      (readFull 495 random).map fun padding =>
        let body := padding.val ++ [code]
        let digest := crypto.sha256 body
        cbcVariableEncrypt crypto ⟨digest.val ++ body, by simp [body, variableBuildRecordSize]⟩
          keys.replyKey keys.replyIV
    | .longECIES =>
      (readFull 509 random).map fun padding =>
        let plaintext : FixedBytes 512 := ⟨[0, 0] ++ (padding.val ++ [code]), by simp⟩
        let sealed := crypto.chachaSeal 512 keys.responseKey plaintext keys.responseAD
        ⟨sealed.val, sealed.property⟩

/-- The CBC decryptions of the source's inner loops, in the order of the list. -/
def removeLayers (layers : List VariableBuildKeys) (record : VariableRecord) : VariableRecord :=
  layers.foldl (fun record keys => cbcVariableDecrypt crypto record keys.replyKey keys.replyIV)
    record

def validVariableRecordSet (records : List VariableRecord) (keys : List VariableBuildKeys)
    (positions : List UInt8) : Bool :=
  keys ≠ [] ∧ keys.length = positions.length ∧ keys.length ≤ records.length ∧
    records.length ≤ legacyBuildMaxRecords ∧
      (∀ position ∈ positions, position.toNat < records.length) ∧ positions.Nodup

/-- The outer loop of `PreprocessVariableBuildRecords` over the remaining hops,
with the keys of the hops before them. -/
def preprocessFrom : List VariableBuildKeys → List (VariableBuildKeys × UInt8) →
    List VariableRecord → List VariableRecord
  | _, [], records => records
  | earlier, (keys, position) :: later, records =>
    preprocessFrom (earlier ++ [keys]) later
      (records.modify position.toNat (removeLayers crypto earlier))

def preprocessVariableBuildRecords (records : List VariableRecord)
    (keys : List VariableBuildKeys) (positions : List UInt8) : Option (List VariableRecord) :=
  if !validVariableRecordSet records keys positions then none
  else some (preprocessFrom crypto [] (keys.zip positions) records)

structure HopIdentity where
  router : Hash
  kind : VariableBuildKind
  elGamalPrivate : FixedBytes 256
  staticPrivate : FixedBytes 32

/-- The decryption and parsing in `ProcessVariableBuildRecords`. -/
def HopIdentity.openRequest (hop : HopIdentity) (record : VariableRecord) :
    Option (VariableBuildRequest × VariableBuildKeys) :=
  match hop.kind with
  | .elGamal => do
      let plaintext ← decryptElGamalBuildRequest crypto record hop.router hop.elGamalPrivate
      let request ← parseElGamalBuildRequest plaintext.val
      return (request, VariableBuildKeys.ofRequest request)
  | .longECIES => do
      let opened ← decryptLongECIESBuildRequest crypto record hop.router hop.staticPrivate
      let request ← parseLongECIESBuildRequest opened.1.val
      return (request,
        { opened.2 with
          layerKey := request.layerKey, ivKey := request.ivKey
          replyKey := request.replyKey, replyIV := request.replyIV })

/-- The records a hop passes on: its reply in its own slot, and its layer on
every other record. -/
def addLayer (keys : VariableBuildKeys) (found : Nat) (reply : VariableRecord)
    (records : List VariableRecord) : List VariableRecord :=
  records.mapIdx fun index other =>
    if index = found then reply
    else cbcVariableEncrypt crypto other keys.replyKey keys.replyIV

structure ProcessedBuild where
  request : VariableBuildRequest
  keys : VariableBuildKeys
  slot : Nat
  deriving DecidableEq

def processVariableBuildRecords (hop : HopIdentity) (accept : Bool) (random : Bytes)
    (records : List VariableRecord) : Option (ProcessedBuild × List VariableRecord) :=
  if records.length < 1 ∨ records.length > legacyBuildMaxRecords then none
  else
    match findSlot hop.router 0 none (records.map Subtype.val) with
    | none => none
    | some (found, _) => do
        let record ← records[found]?
        let opened ← hop.openRequest crypto record
        let reply ← sealVariableBuildReply crypto opened.2 random (replyCode accept)
        return (⟨opened.1, opened.2, found⟩, addLayer crypto opened.2 found reply records)

def openVariableBuildReply (keys : VariableBuildKeys) (record : VariableRecord) : Option UInt8 :=
  let code : Option UInt8 :=
    match keys.kind with
    | .elGamal =>
      let record := cbcVariableDecrypt crypto record keys.replyKey keys.replyIV
      if crypto.sha256 (record.val.drop 32) ≠ arrayAt 32 record.val 0 then none
      else some (record.val.getD (variableBuildRecordSize - 1) 0)
    | .longECIES =>
      let sealed : FixedBytes (512 + 16) := ⟨record.val, record.property⟩
      (crypto.chachaOpen 512 keys.responseKey sealed keys.responseAD).bind fun plaintext =>
        if plaintext.val.getD 0 0 ≠ 0 ∨ plaintext.val.getD 1 0 ≠ 0 then none
        else some (plaintext.val.getD 511 0)
  code.bind fun code => if code ≠ 0 ∧ code ≠ 30 then none else some code

/-- The loop of `OpenVariableBuildReplies` over the remaining hops. -/
def openReplies (replies : List VariableRecord) :
    List (VariableBuildKeys × UInt8) → Option (List UInt8)
  | [] => some []
  | (keys, position) :: later => do
      let record ← replies[position.toNat]?
      let code ← openVariableBuildReply crypto keys
        (removeLayers crypto (later.map Prod.fst) record)
      let codes ← openReplies replies later
      return code :: codes

/-- `OpenVariableBuildReplies`, with the codes it reads. -/
def openVariableBuildReplies (replies : List VariableRecord) (keys : List VariableBuildKeys)
    (positions : List UInt8) : Option (List UInt8) :=
  if !validVariableRecordSet replies keys positions then none
  else openReplies crypto replies (keys.zip positions)

end Records

/-- One hop of a path, with its request and record, and what it will answer. -/
structure PathHop extends HopIdentity where
  request : VariableBuildRequest
  position : UInt8
  random : Bytes
  entropy : Bytes
  accept : Bool
  replyRandom : Bytes

section Path

variable (crypto : BuildCrypto) (localHash : Hash)

def fillVariableRequest (hop : PathHop) : Option (VariableRecord × VariableBuildKeys) :=
  match hop.kind with
  | .elGamal => do
      let plaintext ← marshalElGamalBuildRequest hop.request localHash hop.random
      let record ← encryptElGamalBuildRequest crypto hop.router
        (crypto.elGamalPublic hop.elGamalPrivate) hop.entropy plaintext
      return (record, VariableBuildKeys.ofRequest hop.request)
  | .longECIES => do
      let plaintext ← marshalLongECIESBuildRequest hop.request
      encryptLongECIESBuildRequest crypto hop.router (crypto.x25519Public hop.staticPrivate)
        plaintext hop.random

def fillRecords : List PathHop → List VariableRecord →
    Option (List VariableBuildKeys × List VariableRecord)
  | [], records => some ([], records)
  | hop :: rest, records => do
      let filled ← fillVariableRequest crypto localHash hop
      let others ← fillRecords rest (records.set hop.position.toNat filled.1)
      return (filled.2 :: others.1, others.2)

def createBuild (path : List PathHop) (random : List VariableRecord) :
    Option (List VariableBuildKeys × List VariableRecord) := do
  let filled ← fillRecords crypto localHash path random
  let records ← preprocessVariableBuildRecords crypto filled.2 filled.1 (path.map (·.position))
  return (filled.1, records)

def relayBuild : List PathHop → List VariableRecord →
    Option (List ProcessedBuild × List VariableRecord)
  | [], records => some ([], records)
  | hop :: rest, records => do
      let processed ← processVariableBuildRecords crypto hop.toHopIdentity hop.accept
        hop.replyRandom records
      let others ← relayBuild rest processed.2
      return (processed.1 :: others.1, others.2)

end Path

end Ivnp.Tunnel
