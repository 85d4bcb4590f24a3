import Ivnp.Ssu2.AckRanges
import Ivnp.Ssu2.Packet
import Ivnp.Ssu2.RelayBlocks

/-!
The blocks of a data packet (`block.go`): the iterator checks each block on its own before it
hands it out, so what a packet yields is well formed up to the ranges of its acknowledgements.
-/

namespace Ivnp.Ssu2

open Ivnp.Lib

def blockDateTime : UInt8 := 0
def blockOptions : UInt8 := 1
def blockRouterInfo : UInt8 := 2
def blockTermination : UInt8 := 6
def blockRelayRequest : UInt8 := 7
def blockRelayResponse : UInt8 := 8
def blockRelayIntro : UInt8 := 9
def blockPeerTest : UInt8 := 10
def blockACK : UInt8 := 12
def blockAddress : UInt8 := 13
def blockRelayTagRequest : UInt8 := 15
def blockRelayTag : UInt8 := 16
def blockNewToken : UInt8 := 17
def blockPathChallenge : UInt8 := 18
def blockPathResponse : UInt8 := 19

structure Block where
  kind : UInt8
  data : Bytes
  deriving DecidableEq

/-- Two nonzero numbers of a tag or token block: the last four bytes are the second. -/
def parseExpiring (length : Nat) (data : Bytes) : Option (Nat × UInt32) :=
  if data.length ≠ length then none
  else
    let value := beNat (data.take (length - 4))
    let expiration := uint32At data (length - 4)
    if value = 0 ∨ expiration = 0 then none else some (value, expiration)

def parseRelayTagBlock (data : Bytes) : Option (Nat × UInt32) := parseExpiring 8 data
def parseNewTokenBlock (data : Bytes) : Option (Nat × UInt32) := parseExpiring 12 data

def parsePathBlock (data : Bytes) : Option (FixedBytes 8) :=
  if h : data.length = 8 then some ⟨data, h⟩ else none

structure RelayResponse where
  code : UInt8
  nonce : UInt32
  timestamp : UInt32
  endpoint : Option AddrPort
  signature : Bytes
  token : Option UInt64

def parseRelayResponseBlock (data : Bytes) : Option RelayResponse :=
  if data.length < 13 ∨ data.getD 0 0 ≠ 0 ∨ data.getD 10 0 ≠ version then none
  else
    let code := data.getD 1 0
    let endpointSize := (data.getD 11 0).toNat
    if code = 0 then
      if endpointSize ≠ 6 ∧ endpointSize ≠ 18 ∨ data.length < 12 + endpointSize + 1 + 8 then none
      else
        (parseRelayEndpoint ((data.drop 12).take endpointSize)).map fun endpoint =>
          let stop := data.length - 8
          ⟨code, uint32At data 2, uint32At data 6, some endpoint,
            (data.take stop).drop (12 + endpointSize),
            some (UInt64.ofNat (beNat (data.drop stop)))⟩
    else if endpointSize ≠ 0 then none
    else some ⟨code, uint32At data 2, uint32At data 6, none, data.drop 12, none⟩

structure PeerTestBlock where
  message : UInt8
  code : UInt8
  hash : Option (FixedBytes 32)
  nonce : UInt32
  timestamp : UInt32
  address : AddrPort
  signature : Bytes

def validPeerTestCode (message code : UInt8) : Bool := code = 0 ∨ message = 3 ∨ message = 4

def parsePeerTestTail (message code : UInt8) (hash : Option (FixedBytes 32)) (data : Bytes) :
    Option PeerTestBlock :=
  if data.length < 12 ∨ data.getD 0 0 ≠ version then none
  else
    let addressSize := (data.getD 9 0).toNat
    if addressSize ≠ 6 ∧ addressSize ≠ 18 ∨ data.length < 10 + addressSize then none
    else
      match parseRelayEndpoint ((data.drop 10).take addressSize) with
      | none => none
      | some address =>
        let signature := data.drop (10 + addressSize)
        if message ≤ 4 ∧ signature = [] then none
        else some ⟨message, code, hash, uint32At data 1, uint32At data 5, address, signature⟩

def parsePeerTestBlock (data : Bytes) : Option PeerTestBlock :=
  let message := data.getD 0 0
  let code := data.getD 1 0
  if data.length < 15 ∨ message < 1 ∨ message > 7 ∨ data.getD 2 0 ≠ 0 ∨
      ¬validPeerTestCode message code then none
  else if message = 2 ∨ message = 4 then
    if data.length < 3 + 32 + 12 then none
    else parsePeerTestTail message code (some (arrayAt 32 data 3)) (data.drop 35)
  else parsePeerTestTail message code none (data.drop 3)

def validateBlock (block : Block) : Bool :=
  let data := block.data
  if block.kind = blockDateTime then data.length = 4
  else if block.kind = blockOptions then 12 ≤ data.length
  else if block.kind = blockRouterInfo then
    2 ≤ data.length ∧ data.getD 0 0 &&& 0xfc = 0 ∧ data.getD 1 0 = 1
  else if block.kind = blockI2NP then 9 ≤ data.length
  else if block.kind = blockFirstFragment then 9 < data.length
  else if block.kind = blockFollowOnFragment then 5 < data.length ∧ data.getD 0 0 >>> 1 ≠ 0
  else if block.kind = blockTermination then 9 ≤ data.length
  else if block.kind = blockAddress then data.length = 6 ∨ data.length = 18
  else if block.kind = blockRelayRequest then (parseRelayRequestBlock data).isSome
  else if block.kind = blockRelayResponse then (parseRelayResponseBlock data).isSome
  else if block.kind = blockRelayIntro then (parseRelayIntroBlock data).isSome
  else if block.kind = blockPeerTest then (parsePeerTestBlock data).isSome
  else if block.kind = blockRelayTagRequest then data = []
  else if block.kind = blockRelayTag then (parseRelayTagBlock data).isSome
  else if block.kind = blockNewToken then (parseNewTokenBlock data).isSome
  else if block.kind = blockPathChallenge ∨ block.kind = blockPathResponse then
    (parsePathBlock data).isSome
  else true

structure BlockIterator where
  rest : Bytes
  terminated : Bool
  padded : Bool

inductive Next where
  | stop
  | malformed
  | block (block : Block) (iterator : BlockIterator)

def BlockIterator.next (iterator : BlockIterator) : Next :=
  let rest := iterator.rest
  if rest.length = 0 then .stop
  else if iterator.padded ∨ (iterator.terminated ∧ rest.getD 0 0 ≠ blockPadding) then .malformed
  else if rest.length < 3 then .malformed
  else
    let length := (uint16At rest 1).toNat
    if length > rest.length - 3 then .malformed
    else
      let block : Block := ⟨rest.getD 0 0, (rest.drop 3).take length⟩
      let after := rest.drop (3 + length)
      let padded := block.kind = blockPadding
      if ¬validateBlock block ∨ (padded ∧ after.length ≠ 0) then .malformed
      else .block block
        ⟨after, iterator.terminated ∨ block.kind = blockTermination, padded⟩

/-- The blocks up to the end or the first error, and whether it is the end. Every block takes
three bytes at least, so as many turns as bytes are enough. -/
def collectBlocks : Nat → BlockIterator → List Block × Bool
  | 0, _ => ([], true)
  | turns + 1, iterator =>
    match iterator.next with
    | .stop => ([], true)
    | .malformed => ([], false)
    | .block block next =>
      let (blocks, complete) := collectBlocks turns next
      (block :: blocks, complete)

theorem BlockIterator.next_eq_block {iterator next : BlockIterator} {block : Block}
    (h : iterator.next = .block block next) :
    validateBlock block = true ∧
      iterator.rest.length = 3 + block.data.length + next.rest.length := by
  unfold BlockIterator.next at h
  dsimp only at h
  split at h
  · cases h
  split at h
  · cases h
  split at h
  · cases h
  split at h
  · cases h
  next hshort hlong =>
  split at h
  · cases h
  next hvalid =>
  cases h
  rw [not_or, not_not] at hvalid
  refine ⟨hvalid.1, ?_⟩
  simp only [List.length_take, List.length_drop]
  omega

def payloadBlocks (payload : Bytes) : List Block × Bool :=
  collectBlocks (payload.length + 1) ⟨payload, false, false⟩

end Ivnp.Ssu2
