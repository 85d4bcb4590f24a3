import Ivnp.NetDb.DyingLeases

/-!
The publisher with a confirmed publication (`publish` in `publication.go`). It notes the leases
and the signed payload before the local database takes the store. When that fails, a later call
with the same leases finds nothing changed, and the generation before is distributed further.
-/

namespace Ivnp.NetDb

open Ivnp.Lib Ivnp.Foundation LeaseSetPublisher

/-- What the kinds of local lease sets differ in: the key at a time, the leases to publish with
the time at which the last of them ends, and the signed payload. -/
structure LeaseSource where
  hash : UInt64 → Except PublishError Hash
  current : UInt64 → List Lease → Except PublishError (List Lease × UInt64)
  marshalLeaseSet : UInt64 → List Lease → Except PublishError Bytes

structure ConfirmedPublisher where
  hash : Hash
  leases : List Lease
  storePayload : Bytes
  data : Bytes
  deriving DecidableEq

/-- A call, with what the local database and the confirmed publication answer. -/
structure ConfirmedCall where
  now : UInt64
  inbound : List Lease
  stored : Except PublishError Unit
  maintained : Except PublishError Nat

def LeaseSetPublisher.source (publisher : LeaseSetPublisher) (crypto : NetDbCrypto)
    (sign : Bytes → Option Bytes) : LeaseSource where
  hash _ := .ok (publisher.hash crypto)
  current _ inbound :=
    match publisher.local2.replaceInboundLeases inbound with
    | none => .error (.leaseSet .localLeaseSet2)
    | some _ => .ok (inbound, publisher.expiresAt inbound)
  marshalLeaseSet now leases :=
    match publisher.local2.replaceInboundLeases leases with
    | none => .error (.leaseSet .localLeaseSet2)
    | some replaced => (replaced.marshalTo maxLeaseSetBytes now sign).mapError .leaseSet

namespace ConfirmedPublisher

def publish (source : LeaseSource) (p : ConfirmedPublisher) (call : ConfirmedCall) :
    ConfirmedPublisher × Except PublishError Nat :=
  match source.hash call.now with
  | .error error => (p, .error error)
  | .ok hash =>
    -- a new key has a confirmed publication of its own, without data
    let p := if hash = p.hash then p else ⟨hash, [], [], []⟩
    match source.current call.now call.inbound with
    | .error error => (p, .error error)
    | .ok (leases, expiresAt) =>
      if leases.length = 0 ∨ expiresAt ≤ call.now then
        ({ p with leases := [], storePayload := [], data := [] }, .ok 0)
      else if p.leases = leases then (p, call.maintained)
      else
        match source.marshalLeaseSet call.now leases with
        | .error error => (p, .error error)
        | .ok store =>
          let p := { p with leases := leases, storePayload := store }
          match call.stored with
          | .error error => (p, .error error)
          | .ok () => ({ p with data := store }, call.maintained)

def step (source : LeaseSource) (p : ConfirmedPublisher) (call : ConfirmedCall) :
    ConfirmedPublisher :=
  (p.publish source call).1

/-- The payload signed last is the generation that is distributed. -/
def Synced (p : ConfirmedPublisher) : Prop := p.data = p.storePayload

theorem Synced.step {source : LeaseSource} {p : ConfirmedPublisher} (h : p.Synced)
    {call : ConfirmedCall} (hstored : call.stored = .ok ()) : (p.step source call).Synced := by
  unfold ConfirmedPublisher.step publish
  rw [hstored]
  cases source.hash call.now with
  | error error => exact h
  | ok hash =>
    have hkept : (if hash = p.hash then p else ⟨hash, [], [], []⟩).Synced := by
      split
      · exact h
      · rfl
    dsimp only
    generalize (if hash = p.hash then p else ⟨hash, [], [], []⟩) = kept at *
    repeat' split
    all_goals first | exact hkept | rfl

/-- As long as the local database takes every store, the payload signed last is distributed
after every call of every run. -/
theorem distributes_latest (source : LeaseSource) (p : ConfirmedPublisher) (h : p.Synced)
    (calls : List ConfirmedCall) (hstored : ∀ call ∈ calls, call.stored = .ok ()) :
    (run (step source) p calls).Synced := by
  induction calls generalizing p with
  | nil => exact h
  | cons call rest ih =>
    obtain ⟨hcall, hrest⟩ := List.forall_mem_cons.mp hstored
    exact ih _ (h.step hcall) hrest

def sampleConfirmed : ConfirmedPublisher := ⟨sampleHash, [], [], []⟩

def sampleStore (tunnelID : UInt32) (stored : Except PublishError Unit) : ConfirmedCall :=
  ⟨1700000000100, (sampleCall 0 tunnelID).inbound, stored, .ok 1⟩

def sampleSource : LeaseSource := samplePublisher.source trusting sampleSign

theorem distributes_latest_two :
    (run (step sampleSource) sampleConfirmed [sampleStore 1 (.ok ()), sampleStore 2 (.ok ())]).Synced :=
  distributes_latest sampleSource sampleConfirmed rfl _ (by simp [sampleStore])

/-- The store of the second set fails. A third call with the same leases returns without an
error, and what is distributed is the first set. -/
theorem failed_store_not_distributed :
    let failed := run (step sampleSource) sampleConfirmed
      [sampleStore 1 (.ok ()), sampleStore 2 (.error (.store .leaseSetFuture))]
    (failed.publish sampleSource (sampleStore 2 (.ok ()))).2 = .ok 1 ∧
      ¬(failed.step sampleSource (sampleStore 2 (.ok ()))).data =
        (failed.step sampleSource (sampleStore 2 (.ok ()))).storePayload := by
  decide +kernel

end ConfirmedPublisher

end Ivnp.NetDb
