import Ivnp.Lib.Bytes

/-!
The short tunnel build request as a transit hop reads it: the records of a
`ShortTunnelBuild` payload, the one addressed to this router, and the
plaintext fields it decrypts to. Decryption and the options mapping are
parameters of the hop.
-/

namespace Ivnp.Tunnel

open Ivnp.Lib

abbrev Hash := FixedBytes 32

def shortBuildRecordSize : Nat := 218
def shortBuildRequestPlainSize : Nat := 154
def shortBuildPeerSize : Nat := 16
def shortBuildFlagOffset : Nat := 40
def shortBuildGatewayFlag : UInt8 := 0x80
def shortBuildEndpointFlag : UInt8 := 0x40
def shortBuildOptionsOffset : Nat := 56
def shortBuildLifetime : UInt32 := 600
def maxVariableBuildRecords : Nat := 8
def buildMessageLifetime : UInt64 := 60000

structure ShortBuildOptions where
  minimum : UInt32
  requested : UInt32
  limit : UInt32
  deriving DecidableEq

structure ShortBuildRequest where
  receiveTunnelID : UInt32
  nextTunnelID : UInt32
  nextRouter : Hash
  gateway : Bool
  endpoint : Bool
  requestMinutes : UInt32
  lifetimeSeconds : UInt32
  nextMessageID : UInt32
  bandwidth : ShortBuildOptions

def validShortBuildOptions (options : ShortBuildOptions) (gateway : Bool) : Bool :=
  if options.limit ≠ 0 ∧ !gateway then false
  else if options.minimum ≠ 0 ∧ options.requested ≠ 0 ∧ options.minimum > options.requested then
    false
  else if options.requested ≠ 0 ∧ options.limit ≠ 0 ∧ options.requested > options.limit then false
  else options.minimum = 0 ∨ options.limit = 0 ∨ options.minimum ≤ options.limit

/-- `ParseShortBuildRequest`. `parseOptions` stands for the parsing of the
options mapping and its bandwidth entries. -/
def parseShortBuildRequest (parseOptions : Bytes → Bool → Option ShortBuildOptions)
    (plaintext : Bytes) : Option ShortBuildRequest :=
  if h : plaintext.length = shortBuildRequestPlainSize then
    let flags := plaintext.getD shortBuildFlagOffset 0
    let both := shortBuildGatewayFlag ||| shortBuildEndpointFlag
    let gateway : Bool := flags &&& shortBuildGatewayFlag ≠ 0
    if flags &&& ~~~both ≠ 0 ∨ flags &&& both = both ∨ plaintext.getD 41 0 ≠ 0 ∨
        plaintext.getD 42 0 ≠ 0 ∨ plaintext.getD 43 0 ≠ 0 then
      none
    else if uint32At plaintext 0 = 0 ∨ uint32At plaintext 4 = 0 ∨ uint32At plaintext 52 = 0 ∨
        uint32At plaintext 48 ≠ shortBuildLifetime then
      none
    else
      (parseOptions (plaintext.drop shortBuildOptionsOffset) gateway).map fun bandwidth =>
        { receiveTunnelID := uint32At plaintext 0
          nextTunnelID := uint32At plaintext 4
          nextRouter := FixedBytes.slice plaintext 8 32 (by rw [h]; decide)
          gateway
          endpoint := flags &&& shortBuildEndpointFlag ≠ 0
          requestMinutes := uint32At plaintext 44
          lifetimeSeconds := uint32At plaintext 48
          nextMessageID := uint32At plaintext 52
          bandwidth }
  else none

def parseShortBuildRecords : Bytes → Option (List Bytes)
  | [] => none
  | count :: records =>
    if count.toNat < 1 ∨ count.toNat > maxVariableBuildRecords then none
    else if records.length ≠ count.toNat * shortBuildRecordSize then none
    else some ((List.range count.toNat).map fun index =>
      (records.drop (index * shortBuildRecordSize)).take shortBuildRecordSize)

/-- The loop of `handleTransit` that looks for the one record addressed to
`localHash`, from record `index` on. -/
def findSlot (localHash : Hash) : Nat → Option (Nat × Bytes) → List Bytes → Option (Nat × Bytes)
  | _, found, [] => found
  | index, found, record :: rest =>
    if record.take shortBuildPeerSize = localHash.val.take shortBuildPeerSize then
      if found.isSome then none
      else findSlot localHash (index + 1) (some (index, record)) rest
    else findSlot localHash (index + 1) found rest

end Ivnp.Tunnel
