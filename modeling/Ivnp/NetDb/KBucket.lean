import Ivnp.Foundation.Identity
import Ivnp.Lib.Run
import Ivnp.Lib.Tiling

/-!
The Kademlia buckets of the NetDB (`kbucket.go`). A bucket covers a range of the range numbers
0, …, 2047, which order the hashes by the highest bits of their XOR distance to the local hash.
A bucket that grows beyond its capacity is split.
-/

namespace Ivnp.NetDb

open Ivnp.Lib Ivnp.Foundation

def kademliaB : Nat := 4
def kademliaBFactor : Nat := 1 <<< (kademliaB - 1)
def hashLength : Nat := 32
def kademliaRangeCount : Nat := hashLength * 8 * kademliaBFactor
def defaultBucketCapacity : Int := 24

structure KBucket where
  beginRange : UInt16
  endRange : UInt16
  members : List Hash
  lastChanged : UInt64
  deriving DecidableEq

/-- The buckets, closest to the local hash first. -/
structure KBucketSet where
  capacity : Int
  buckets : List KBucket
  deriving DecidableEq

def newKBucketSet (capacity : Int) : KBucketSet where
  capacity := if capacity ≤ 4 then defaultBucketCapacity else capacity
  buckets := [⟨0, UInt16.ofNat (kademliaRangeCount - 1), [], 0⟩]

def leadingZeros8 (byte : UInt8) : Nat := if byte = 0 then 8 else 7 - byte.toNat.log2

/-- The zero bits before the first difference of two hashes. -/
def leadingZeros : Bytes → Bytes → Nat
  | own :: owns, peer :: peers =>
    let delta := own ^^^ peer
    if delta = 0 then 8 + leadingZeros owns peers else leadingZeros8 delta
  | _, _ => 0

/-- The bit of the difference of two hashes that is so many places after the highest one
of the hash. -/
def differenceBit (localHash peer : Hash) (bitFromMSB : Nat) : UInt8 :=
  (localHash.val.getD (bitFromMSB / 8) 0 ^^^ peer.val.getD (bitFromMSB / 8) 0) >>>
    UInt8.ofNat (7 - bitFromMSB % 8) &&& 1

def kademliaRange (localHash peer : Hash) : Int :=
  let leading := leadingZeros localHash.val peer.val
  if leading = hashLength * 8 then -1
  else
    let highBit := hashLength * 8 - 1 - leading
    let rangeNumber := highBit <<< (kademliaB - 1)
    if highBit + 1 < kademliaB then rangeNumber
    else
      ((List.range' 1 (kademliaB - 1)).foldl (fun rangeNumber offset =>
        rangeNumber ||| (differenceBit localHash peer (leading + offset)).toNat <<<
          (kademliaB - 1 - offset)) rangeNumber : Nat)

namespace KBucketSet

/-- The binary search, with a bound on its turns. Nothing is found where the code panics. -/
def bucketIndexLoop (buckets : List KBucket) (rangeNumber : Int) : Nat → Nat → Nat → Option Nat
  | 0, _, _ => none
  | turns + 1, low, high =>
    if low < high then
      let middle := low + (high - low) / 2
      match buckets[middle]? with
      | none => none
      | some bucket =>
        if rangeNumber < bucket.beginRange.toNat then
          bucketIndexLoop buckets rangeNumber turns low middle
        else if rangeNumber > bucket.endRange.toNat then
          bucketIndexLoop buckets rangeNumber turns (middle + 1) high
        else some middle
    else none

def bucketIndex (set : KBucketSet) (rangeNumber : Int) : Option Nat :=
  bucketIndexLoop set.buckets rangeNumber (set.buckets.length + 1) 0 set.buckets.length

def redistribute (set : KBucketSet) (bucket : KBucket) (member : Hash) : KBucket :=
  if bucket.beginRange = bucket.endRange ∧ set.capacity ≤ bucket.members.length then bucket
  else { bucket with members := bucket.members ++ [member] }

/-- Where the second of the two new buckets starts. A bucket never begins after its end. -/
def secondStart (original : KBucket) : Nat :=
  let start := original.beginRange.toNat
  let stop := original.endRange.toNat
  if start &&& (kademliaBFactor - 1) = 0 ∧ (stop + 1) &&& (kademliaBFactor - 1) = 0 ∧
      start + kademliaBFactor < stop then
    stop + 1 - kademliaBFactor
  else start + (1 + stop - start) / 2

/-- The two buckets that take the place of one. -/
def divide (set : KBucketSet) (localHash : Hash) (original : KBucket) : KBucket × KBucket :=
  let second := secondStart original
  original.members.foldl (fun halves member =>
      if kademliaRange localHash member < second then
        (set.redistribute halves.1 member, halves.2)
      else (halves.1, set.redistribute halves.2 member))
    (⟨original.beginRange, UInt16.ofNat (second - 1), [], original.lastChanged⟩,
      ⟨UInt16.ofNat second, original.endRange, [], original.lastChanged⟩)

/-- The loop of `split`, with a bound on its turns: nothing where it is still running then,
or where the index is not one of a bucket. -/
def splitLoop (localHash : Hash) (index : Nat) : Nat → KBucketSet → Option KBucketSet
  | 0, _ => none
  | turns + 1, set =>
    match set.buckets[index]? with
    | none => none
    | some original =>
      if original.beginRange = original.endRange ∨ original.members.length ≤ set.capacity then
        some set
      else
        let halves := set.divide localHash original
        splitLoop localHash index turns { set with
          buckets := set.buckets.take index ++
            halves.1 :: halves.2 :: set.buckets.drop (index + 1) }

def split (set : KBucketSet) (index : Nat) (localHash : Hash) : Option KBucketSet :=
  splitLoop localHash index kademliaRangeCount set

/-- `add`: nothing where the code panics or does not return. -/
def add (set : KBucketSet) (localHash peer : Hash) (now : UInt64) : Option (KBucketSet × Bool) :=
  let rangeNumber := kademliaRange localHash peer
  if rangeNumber < 0 then some (set, false)
  else
    match set.bucketIndex rangeNumber with
    | none => none
    | some index =>
      match set.buckets[index]? with
      | none => none
      | some bucket =>
        if peer ∈ bucket.members then
          let touched := { bucket with lastChanged := now }
          some ({ set with buckets := set.buckets.set index touched }, false)
        else if bucket.beginRange = bucket.endRange ∧ set.capacity ≤ bucket.members.length then
          some (set, false)
        else
          let grown := { bucket with members := bucket.members ++ [peer], lastChanged := now }
          let added := { set with buckets := set.buckets.set index grown }
          if grown.beginRange ≠ grown.endRange ∧ set.capacity < grown.members.length then
            (added.split index localHash).map (·, true)
          else some (added, true)

/-- `remove`: nothing where the code panics. -/
def remove (set : KBucketSet) (localHash peer : Hash) : Option (KBucketSet × Bool) :=
  let rangeNumber := kademliaRange localHash peer
  if rangeNumber < 0 then some (set, false)
  else
    match set.bucketIndex rangeNumber with
    | none => none
    | some index =>
      match set.buckets[index]? with
      | none => none
      | some bucket =>
        if peer ∈ bucket.members then
          let shrunk := { bucket with members := bucket.members.erase peer }
          some ({ set with buckets := set.buckets.set index shrunk }, true)
        else some (set, false)

end KBucketSet

inductive KBucketCall where
  | add (peer : Hash) (now : UInt64)
  | remove (peer : Hash)

def KBucketSet.call (localHash : Hash) (set : KBucketSet) :
    KBucketCall → Option (KBucketSet × Bool)
  | .add peer now => set.add localHash peer now
  | .remove peer => set.remove localHash peer

/-- The buckets after a list of calls, as long as every call returns. -/
def KBucketSet.after (capacity : Int) (localHash : Hash) (calls : List KBucketCall) :
    Option KBucketSet :=
  run (fun set call => set.bind fun set => (set.call localHash call).map Prod.fst)
    (some (newKBucketSet capacity)) calls

end Ivnp.NetDb
