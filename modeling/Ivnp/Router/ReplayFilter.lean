import Ivnp.Lib.Bitset
import Ivnp.Lib.Run

/-!
The replay filter of the router service: a Bloom filter in five rotating
buckets of one minute each, split into shards by the message's hash. A message
is only presented while its expiration lies in the accepted window, and a
bucket is cleared only after every message recorded in it has left the window.
-/

namespace Ivnp.Router

open Ivnp.Lib

def i2npMessageClockSkewMillis : UInt64 := 60000
def i2npMessageMaxFutureMillis : UInt64 := 3 * i2npMessageClockSkewMillis
def replayBucketDurationMillis : UInt64 := i2npMessageClockSkewMillis
abbrev replayBucketCount : Nat := 5
def replayFilterBits : Nat := 2 ^ 18
def replayFilterWords : Nat := replayFilterBits / 64
def replayFilterHashes : Nat := 4

/-- `ErrExpired` and `ErrFutureExpiration`. -/
inductive ExpirationError where
  | expired
  | futureExpiration
  deriving DecidableEq, Repr

def expiredI2NP (expiration nowMillis : UInt64) : Bool :=
  expiration < nowMillis ∧ nowMillis - expiration > i2npMessageClockSkewMillis

def futureI2NP (expiration nowMillis : UInt64) : Bool :=
  expiration > nowMillis ∧ expiration - nowMillis > i2npMessageMaxFutureMillis

def validateI2NPExpiration (expiration nowMillis : UInt64) : Except ExpirationError Unit :=
  if expiredI2NP expiration nowMillis then .error .expired
  else if futureI2NP expiration nowMillis then .error .futureExpiration
  else .ok ()

inductive ReplayScope where
  | i2np
  | garlicSet
  | garlicClove
  deriving DecidableEq, Repr

def ReplayScope.code : ReplayScope → UInt64
  | .i2np => 0
  | .garlicSet => 1
  | .garlicClove => 2

def replayMix (value : UInt64) : UInt64 :=
  let value := value ^^^ (value >>> 30)
  let value := value * 0xbf58476d1ce4e5b9
  let value := value ^^^ (value >>> 27)
  let value := value * 0x94d049bb133111eb
  value ^^^ (value >>> 31)

def replayHashes (scope : ReplayScope) (id : UInt32) (expiration : UInt64) : UInt64 × UInt64 :=
  let first := replayMix (expiration ^^^ (id.toUInt64 * 0x9e3779b97f4a7c15) ^^^
    (scope.code * 0x94d049bb133111eb))
  (first, replayMix (first ^^^ 0xd1b54a32d192ed03) ||| 1)

/-- The bits both bucket loops visit in a bucket of `words` words. -/
def replayBits (words : Nat) (first step : UInt64) : List UInt64 :=
  (List.range replayFilterHashes).map fun index =>
    (first + UInt64.ofNat index * step) % UInt64.ofNat (words * 64)

def replayBucketContains (bucket : List UInt64) (first step : UInt64) : Bool :=
  (replayBits bucket.length first step).all fun bit => hasBit bucket bit

def replayBucketAdd (bucket : List UInt64) (first step : UInt64) : List UInt64 :=
  (replayBits bucket.length first step).foldl setBit bucket

structure ReplayShard where
  buckets : Fin replayBucketCount → List UInt64
  epoch : UInt64
  current : UInt8
  started : Bool

def bucketIndex (epoch : UInt64) : Fin replayBucketCount :=
  Fin.ofNat replayBucketCount (epoch % UInt64.ofNat replayBucketCount).toNat

def clearBucket (buckets : Fin replayBucketCount → List UInt64)
    (index : Fin replayBucketCount) : Fin replayBucketCount → List UInt64 :=
  Function.update buckets index (List.replicate (buckets index).length 0)

def clearEpochs (buckets : Fin replayBucketCount → List UInt64) (epoch : UInt64)
    (elapsed : Nat) : Fin replayBucketCount → List UInt64 :=
  (List.range elapsed).foldl
    (fun buckets step => clearBucket buckets (bucketIndex (epoch + UInt64.ofNat (step + 1))))
    buckets

namespace ReplayShard

def advance (shard : ReplayShard) (nowMillis : UInt64) : ReplayShard :=
  let epoch := nowMillis / replayBucketDurationMillis
  let current := (epoch % UInt64.ofNat replayBucketCount).toUInt8
  if shard.started = false then
    { shard with epoch, current, started := true }
  else if epoch ≤ shard.epoch then shard
  else
    let elapsed := epoch - shard.epoch
    { shard with
      buckets :=
        if elapsed ≥ UInt64.ofNat replayBucketCount then
          fun index => List.replicate (shard.buckets index).length 0
        else clearEpochs shard.buckets shard.epoch elapsed.toNat
      epoch, current }

/-- The part of `seen` that runs under the shard's lock. -/
def seen (shard : ReplayShard) (first step nowMillis : UInt64) : ReplayShard × Bool :=
  let shard := shard.advance nowMillis
  if ∃ index, replayBucketContains (shard.buckets index) first step = true then (shard, true)
  else
    let current := Fin.ofNat replayBucketCount shard.current.toNat
    ({ shard with
       buckets := Function.update shard.buckets current
         (replayBucketAdd (shard.buckets current) first step) }, false)

end ReplayShard

/-- `parallelism.Workers` on a machine whose `GOMAXPROCS` is `procs`. -/
def workers (procs work : Int) : Int :=
  if work ≤ 0 then 0 else min (if procs < 1 then 1 else procs) work

structure ReplayFilter where
  shardCount : Nat
  positive : 0 < shardCount
  shards : Fin shardCount → ReplayShard

theorem workers_pos (procs : Int) : 0 < (workers procs replayFilterWords).toNat := by
  rw [workers]
  have : (0 : Int) < replayFilterWords := by decide
  split <;> omega

namespace ReplayFilter

def initialized (procs : Int) : ReplayFilter :=
  let shardCount := (workers procs replayFilterWords).toNat
  let wordsPerShard := (replayFilterWords + shardCount - 1) / shardCount
  { shardCount
    positive := workers_pos procs
    shards := fun _ => ⟨fun _ => List.replicate wordsPerShard 0, 0, 0, false⟩ }

def shardIndex (filter : ReplayFilter) (first : UInt64) : Fin filter.shardCount :=
  ⟨(first % UInt64.ofNat filter.shardCount).toNat % filter.shardCount,
    Nat.mod_lt _ filter.positive⟩

end ReplayFilter

/-- One call of `seen`. -/
structure Presented where
  scope : ReplayScope
  id : UInt32
  expiration : UInt64
  nowMillis : UInt64

namespace ReplayFilter

def seen (filter : ReplayFilter) (message : Presented) : ReplayFilter × Bool :=
  let hashes := replayHashes message.scope message.id message.expiration
  let index := filter.shardIndex hashes.1
  let result := (filter.shards index).seen hashes.1 hashes.2 message.nowMillis
  ({ filter with shards := Function.update filter.shards index result.1 }, result.2)

/-- The filter after a sequence of calls, oldest first. -/
def after (procs : Int) (messages : List Presented) : ReplayFilter :=
  run (fun filter message => (filter.seen message).1) (initialized procs) messages

end ReplayFilter

end Ivnp.Router
