import Ivnp.Lib.Table
import Ivnp.Tunnel.Gateway

/-!
The endpoint of a tunnel: it checks a tunnel message, reads its delivery blocks
and puts fragmented blocks together. The partial messages and the delivery
instructions of their first fragments are two tables of their own; each drops
its oldest entry when it is full.
-/

namespace Ivnp.Tunnel

open Ivnp.Lib

structure Fragment where
  messageID : UInt32
  number : UInt8
  last : Bool
  data : Bytes

/-- A message under assembly; `parts` is the array of its parts by number. -/
structure Partial where
  parts : Nat → Bytes
  seen : BitVec 64
  terminal : BitVec 64
  last : UInt8
  hasLast : Bool
  size : Nat
  created : UInt64

namespace Partial

def new (created : UInt64) : Partial :=
  { parts := fun _ => [], seen := 0, terminal := 0, last := 0, hasLast := false, size := 0, created }

def bit (fragment : Fragment) : BitVec 64 := 1 <<< fragment.number.toNat

def store (entry : Partial) (fragment : Fragment) : Partial :=
  { entry with
    parts := Function.update entry.parts fragment.number.toNat fragment.data
    seen := entry.seen ||| bit fragment
    terminal := if fragment.last then entry.terminal ||| bit fragment else entry.terminal
    size := entry.size + fragment.data.length }

def requiredMask (entry : Partial) : BitVec 64 := BitVec.allOnes 64 >>> (63 - entry.last.toNat)

def complete (entry : Partial) : Bool :=
  entry.hasLast ∧ entry.seen &&& entry.requiredMask = entry.requiredMask

def message (entry : Partial) : Bytes := (List.range (entry.last.toNat + 1)).flatMap entry.parts

end Partial

/-- The key both eviction loops find: that of the least time of creation. -/
def oldestID {V : Type} (created : V → UInt64) (table : Table UInt32 V) : UInt32 :=
  (table.entries.foldl
    (fun oldest entry => if created entry.2 < oldest.2 then (entry.1, created entry.2) else oldest)
    ((0 : UInt32), (0xffffffffffffffff : UInt64))).1

structure Reassembler where
  maxEntries : Nat
  maxMessage : Nat
  entries : Table UInt32 Partial

namespace Reassembler

def new (maxEntries maxMessage : Nat) : Reassembler :=
  { maxEntries := if maxEntries = 0 then 128 else maxEntries
    maxMessage := if maxMessage = 0 then 62690 else maxMessage
    entries := ∅ }

def remove (reasm : Reassembler) (messageID : UInt32) : Reassembler :=
  { reasm with entries := reasm.entries.erase messageID }

def evictOldest (reasm : Reassembler) : Reassembler :=
  reasm.remove (oldestID Partial.created reasm.entries)

def insertNew (reasm : Reassembler) (messageID : UInt32) (nowMillis : UInt64) : Reassembler :=
  let reasm := if reasm.entries.entries.length = reasm.maxEntries then reasm.evictOldest else reasm
  { reasm with entries := reasm.entries.insert messageID (Partial.new nowMillis) }

/-- The last part of `Add`, with the entry as it has become. -/
def finish (reasm : Reassembler) (messageID : UInt32) (entry : Partial) :
    Reassembler × Except TunnelError (Option Bytes) :=
  if entry.complete then (reasm.remove messageID, .ok (some entry.message))
  else ({ reasm with entries := reasm.entries.insert messageID entry }, .ok none)

def addTo (reasm : Reassembler) (entry : Partial) (fragment : Fragment) :
    Reassembler × Except TunnelError (Option Bytes) :=
  let messageID := fragment.messageID
  let number := fragment.number.toNat
  if entry.hasLast ∧ fragment.number > entry.last then
    (reasm.remove messageID, .error .fragment)
  else if entry.seen &&& Partial.bit fragment ≠ 0 then
    if decide (entry.terminal &&& Partial.bit fragment ≠ 0) ≠ fragment.last ∨
        entry.parts number ≠ fragment.data then
      (reasm.remove messageID, .error .fragment)
    else (reasm, .ok none)
  else if entry.size + fragment.data.length > reasm.maxMessage then
    (reasm.remove messageID, .error .tooLarge)
  else
    let stored := entry.store fragment
    if fragment.last then
      if entry.hasLast ∧ entry.last ≠ fragment.number then
        (reasm.remove messageID, .error .fragment)
      else if stored.seen >>> (number + 1) ≠ 0 then (reasm.remove messageID, .error .fragment)
      else reasm.finish messageID { stored with last := fragment.number, hasLast := true }
    else reasm.finish messageID stored

def add (reasm : Reassembler) (fragment : Fragment) (nowMillis : UInt64) :
    Reassembler × Except TunnelError (Option Bytes) :=
  if fragment.data.length = 0 ∨ fragment.number > 63 then (reasm, .error .fragment)
  else
    match reasm.entries.lookup fragment.messageID with
    | some entry => reasm.addTo entry fragment
    | none => (reasm.insertNew fragment.messageID nowMillis).addTo (Partial.new nowMillis) fragment

end Reassembler

structure DeliveryMeta where
  block : Block
  created : UInt64

structure Endpoint where
  reasm : Reassembler
  maxMeta : Nat
  metas : Table UInt32 DeliveryMeta

structure Parsed where
  endpoint : Endpoint
  delivered : List Block
  error : Option TunnelError

namespace Endpoint

def new (maxEntries maxMessage : Nat) : Endpoint :=
  let maxEntries := if maxEntries = 0 then 128 else maxEntries
  { reasm := Reassembler.new maxEntries maxMessage, maxMeta := maxEntries, metas := ∅ }

def remember (endpoint : Endpoint) (block : Block) (nowMillis : UInt64) :
    Except TunnelError Endpoint :=
  match endpoint.metas.lookup block.messageID with
  | some prior =>
    if prior.block.delivery ≠ block.delivery ∨ prior.block.gateway ≠ block.gateway ∨
        prior.block.tunnelID ≠ block.tunnelID then
      .error .fragment
    else .ok endpoint
  | none =>
    let metas :=
      if endpoint.metas.entries.length = endpoint.maxMeta then
        endpoint.metas.erase (oldestID DeliveryMeta.created endpoint.metas)
      else endpoint.metas
    .ok
      { endpoint with
        metas := metas.insert block.messageID ⟨{ block with data := [] }, nowMillis⟩ }

/-- Puts out a reassembled block, if there is room for it. -/
def deliver (endpoint : Endpoint) (out : Nat) (delivered : List Block) (messageID : UInt32)
    (block : Block) (message : Bytes) : Parsed :=
  if delivered.length = out then ⟨endpoint, delivered, some .gatewayOutput⟩
  else
    ⟨{ endpoint with metas := endpoint.metas.erase messageID },
      delivered ++ [{ block with data := message, last := true }], none⟩

def appendFollowOn (endpoint : Endpoint) (out : Nat) (nowMillis : UInt64) (delivered : List Block)
    (block : Block) : Parsed :=
  if block.fragment = 0 then ⟨endpoint, delivered, some .gatewayBlock⟩
  else
    let added := endpoint.reasm.add ⟨block.messageID, block.fragment, block.last, block.data⟩ nowMillis
    let next := { endpoint with reasm := added.1 }
    match added.2 with
    | .error error => ⟨next, delivered, some error⟩
    | .ok none => ⟨next, delivered, none⟩
    | .ok (some message) =>
      match next.metas.lookup block.messageID with
      | none => ⟨next, delivered, some .fragment⟩
      | some prior => next.deliver out delivered block.messageID prior.block message

/-- The part of `appendFragmentedBlockLocked` on a first fragment. -/
def appendFirst (endpoint : Endpoint) (out : Nat) (nowMillis : UInt64) (delivered : List Block)
    (block : Block) : Parsed :=
  match endpoint.remember block nowMillis with
  | .error error => ⟨endpoint, delivered, some error⟩
  | .ok remembered =>
    let added := remembered.reasm.add ⟨block.messageID, 0, false, block.data⟩ nowMillis
    let next := { remembered with reasm := added.1 }
    match added.2 with
    | .error error => ⟨next, delivered, some error⟩
    | .ok none => ⟨next, delivered, none⟩
    | .ok (some message) =>
      let found := (next.metas.lookup block.messageID).getD ⟨{}, 0⟩
      next.deliver out delivered block.messageID found.block message

def appendFragmentedBlock (endpoint : Endpoint) (out : Nat) (nowMillis : UInt64)
    (delivered : List Block) (block : Block) : Parsed :=
  if !block.followOn ∧ block.last then
    if delivered.length = out then ⟨endpoint, delivered, some .gatewayOutput⟩
    else ⟨endpoint, delivered ++ [block], none⟩
  else if block.followOn then endpoint.appendFollowOn out nowMillis delivered block
  else endpoint.appendFirst out nowMillis delivered block

/-- The loops of `Parse` and `parseFragmented`, which differ in the lock only. Every turn reads a
byte at least, so the length of the blocks is enough fuel. -/
def parseBlocks (out : Nat) (nowMillis : UInt64) : Nat → Endpoint → Bytes → List Block → Parsed
  | 0, endpoint, _, delivered => ⟨endpoint, delivered, none⟩
  | fuel + 1, endpoint, rest, delivered =>
    match nextBlock rest with
    | .error error => ⟨endpoint, delivered, some error⟩
    | .ok none => ⟨endpoint, delivered, none⟩
    | .ok (some (block, rest)) =>
      let appended := endpoint.appendFragmentedBlock out nowMillis delivered block
      if appended.error.isSome then appended
      else parseBlocks out nowMillis fuel appended.endpoint rest appended.delivered

end Endpoint

def openPayload (sha256 : Bytes → FixedBytes 32) (payload : Bytes) : Except TunnelError Bytes :=
  if payload.length ≠ tunnelDataMessageLen then .error .malformed
  else if uint32At payload 0 = 0 then .error .invalidTunnelID
  else
    let data := payload.drop 4
    let iv := data.take tunnelIVLen
    let checksum := (data.drop tunnelIVLen).take tunnelChecksumLen
    match (data.drop (tunnelIVLen + tunnelChecksumLen)).dropWhile (· ≠ 0) with
    | [] => .error .gatewayPayload
    | _ :: blocks =>
      if checksum = (tunnelChecksum sha256 blocks iv).val.take tunnelChecksumLen then .ok blocks
      else .error .gatewayPayload

def Endpoint.parse (sha256 : Bytes → FixedBytes 32) (endpoint : Endpoint) (payload : Bytes)
    (out : Nat) (nowMillis : UInt64) : Parsed :=
  match openPayload sha256 payload with
  | .error error => ⟨endpoint, [], some error⟩
  | .ok blocks => parseBlocks out nowMillis (blocks.length + 1) endpoint blocks []

end Ivnp.Tunnel
