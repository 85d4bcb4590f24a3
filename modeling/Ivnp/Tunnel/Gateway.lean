import Ivnp.Tunnel.Block

/-!
The gateway of a tunnel: delivery blocks are packed into tunnel messages of a
fixed size, and a block that is too long is split over several of them. The
padding reader is the list of the bytes it will return.
-/

namespace Ivnp.Tunnel

open Ivnp.Lib

def i2pdMaxPayload : Nat := 62708 - 2 - 16
def tunnelPayloadLen : Nat := 1024
def tunnelDataMessageLen : Nat := 4 + tunnelPayloadLen
def tunnelIVLen : Nat := 16
def tunnelChecksumLen : Nat := 4
def maxBlockBytes : Nat := tunnelPayloadLen - tunnelIVLen - tunnelChecksumLen - 1

/-- A destination buffer by the room it has left; nothing if it is nil or
released. -/
abbrev Buffer := Option Nat

/-- `tunnelChecksum`: both parts are copied into an array of that size. -/
def tunnelChecksum (sha256 : Bytes → FixedBytes 32) (blocks iv : Bytes) : FixedBytes 32 :=
  sha256 ((blocks ++ iv).take (tunnelPayloadLen + tunnelIVLen))

/-- `io.ReadFull` from the padding, with what is left of it. -/
def readPadding (n : Nat) (padding : Bytes) : Except TunnelError (Bytes × Bytes) :=
  if padding.length < n then .error .padding else .ok (padding.take n, padding.drop n)

def nonZero (bytes : Bytes) : Bytes := bytes.map fun byte => if byte = 0 then 1 else byte

def blocksLen : Nat → List Block → Except TunnelError Nat
  | n, [] => .ok n
  | n, block :: rest =>
    match blockLen block with
    | .error _ => .error .gatewayBlock
    | .ok m => if m > maxBlockBytes - n then .error .gatewayBlock else blocksLen (n + m) rest

def marshalBlocks : Nat → List Block → Bytes
  | _, [] => []
  | space, block :: rest =>
    match marshalBlock space block with
    | .error _ => marshalBlocks space rest
    | .ok bytes => bytes ++ marshalBlocks (space - bytes.length) rest

def encode (sha256 : Bytes → FixedBytes 32) (padding : Bytes) (tunnelID : UInt32)
    (blocks : List Block) (dst : Buffer) : Except TunnelError (Bytes × Bytes) :=
  if tunnelID = 0 then .error .invalidTunnelID
  else
    match dst with
    | none => .error .gatewayOutput
    | some available =>
      if available < tunnelDataMessageLen then .error .gatewayOutput
      else do
        let n ← blocksLen 0 blocks
        let (random, padding) ← readPadding (tunnelPayloadLen - n - 1) padding
        let iv := random.take tunnelIVLen
        let encoded := marshalBlocks n blocks
        let checksum := (tunnelChecksum sha256 encoded iv).val.take tunnelChecksumLen
        .ok
          (natBE 4 tunnelID.toNat ++ (iv ++ (checksum ++
              (nonZero (random.drop (tunnelIVLen + tunnelChecksumLen)) ++ 0 :: encoded))),
            padding)

/-- The message ID of the fragments: a block without one gets four nonzero
bytes of the padding. -/
def fragmentMessageID (padding : Bytes) (block : Block) : Except TunnelError (UInt32 × Bytes) :=
  if block.messageID = 0 then
    (readPadding 4 padding).map fun (random, padding) => (uint32At (nonZero random) 0, padding)
  else .ok (block.messageID, padding)

/-- The loop of `Fragment` over the follow-on blocks, from number `fragment` on.
An error comes with the number of messages that were written. -/
def encodeFollowOns (sha256 : Bytes → FixedBytes 32) (tunnelID messageID : UInt32) :
    List Buffer → Nat → Bytes → Bytes → Except (Nat × TunnelError) (List Bytes × Bytes)
  | [], fragment, data, padding =>
    if data = [] then .ok ([], padding) else .error (fragment, .gatewayOutput)
  | buffer :: dst, fragment, data, padding =>
    if data = [] then .ok ([], padding)
    else
      let follow : Block :=
        { followOn := true
          messageID := messageID
          fragment := UInt8.ofNat fragment
          last := data.length ≤ maxBlockBytes - 7
          data := data.take (maxBlockBytes - 7) }
      match encode sha256 padding tunnelID [follow] buffer with
      | .error error => .error (fragment, error)
      | .ok (payload, padding) =>
        (encodeFollowOns sha256 tunnelID messageID dst (fragment + 1)
          (data.drop (maxBlockBytes - 7)) padding).map fun later => (payload :: later.1, later.2)

/-- `Fragment`: the messages of a block and the rest of the padding, or an error
with the count that is returned beside it. -/
def fragment (sha256 : Bytes → FixedBytes 32) (padding : Bytes) (tunnelID : UInt32) (block : Block)
    (dst : List Buffer) : Except (Nat × TunnelError) (List Bytes × Bytes) :=
  if tunnelID = 0 then .error (0, .invalidTunnelID)
  else if block.followOn ∨ block.data.length = 0 ∨ block.data.length > i2pdMaxPayload then
    .error (0, .gatewayBlock)
  else
    match firstBlockLen block true with
    | .error error => .error (0, error)
    | .ok firstHeader =>
      if block.data.length ≤ maxBlockBytes - firstHeader then
        match dst with
        | [] => .error (0, .gatewayOutput)
        | buffer :: _ =>
          match encode sha256 padding tunnelID [{ block with last := true }] buffer with
          | .error error => .error (1, error)
          | .ok (payload, padding) => .ok ([payload], padding)
      else
        let firstData := maxBlockBytes - firstHeader
        let needed :=
          1 + (block.data.length - firstData + maxBlockBytes - 7 - 1) / (maxBlockBytes - 7)
        if needed > 64 ∨ dst.length < needed then .error (0, .gatewayOutput)
        else
          match dst, fragmentMessageID padding block with
          | [], _ => .error (0, .gatewayOutput)
          | _, .error error => .error (0, error)
          | buffer :: dst, .ok (messageID, padding) =>
            let first := { block with messageID, last := false, data := block.data.take firstData }
            match encode sha256 padding tunnelID [first] buffer with
            | .error error => .error (0, error)
            | .ok (payload, padding) =>
              (encodeFollowOns sha256 tunnelID messageID dst 1 (block.data.drop firstData)
                padding).map fun later => (payload :: later.1, later.2)

end Ivnp.Tunnel
