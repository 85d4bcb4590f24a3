import Ivnp.Ssu2.I2npFragments

/-!
Sending a message on one SSU2 session (`session_sender.go`, `sendSessionDataContext`) and what
of it has left when an error lets `EstablishedSender` take another session. The fragments go
out one after the other, so a later one may find the session stalled or gone, and a packet may
leave while its sender is already told that the manager has stopped.
-/

namespace Ivnp.Ssu2

open Ivnp.Lib Ivnp.Foundation

inductive SendError where
  | context
  | sessionUnavailable
  | session
  | sendStalled
  | payloadTooLarge
  | transport
  deriving DecidableEq

/-- The errors after which the message is sent again on another session. -/
def SendError.reroutes : SendError → Bool
  | sessionUnavailable | session | sendStalled => true
  | context | payloadTooLarge | transport => false

/-- How the wait for capacity goes; each time it is woken it looks again. -/
inductive CapacityWait where
  | closed
  | reserved
  | canceled
  | stopped
  | stalled
  | woken (again : CapacityWait)

def CapacityWait.err : CapacityWait → Option SendError
  | closed | stopped => some .session
  | reserved => none
  | canceled => some .context
  | stalled => some .sendStalled
  | woken again => again.err

/-- How `writeToClass` ends: before the packet is handed over, with a write to the socket, or
with a packet in the egress queue, which the egress loop may write after the sender has left. -/
inductive EgressWrite where
  | canceled
  | refused
  | direct (short failed : Bool)
  | completed (written failed : Bool)
  | canceledQueued (written : Bool)
  | stoppedQueued (written : Bool)

def EgressWrite.err : EgressWrite → Option SendError
  | canceled | canceledQueued _ => some .context
  | refused | stoppedQueued _ => some .session
  | direct short failed => if failed then some .transport else if short then some .session else none
  | completed written failed =>
    if written then none else if failed then some .transport else some .session

def EgressWrite.wrote : EgressWrite → Bool
  | canceled | refused => false
  | direct _ failed => !failed
  | completed written _ | canceledQueued written | stoppedQueued written => written

/-- What the send of one fragment meets, in the order it is looked at. -/
structure FragmentSend where
  wait : CapacityWait
  lockCanceled : Bool
  canceled : Bool
  closed : Bool
  nextPacket : UInt32
  sealed : Bool
  write : EgressWrite

/-- The error of a fragment, and whether its packet was written or is retained. A packet whose
write fails is released again. -/
def sendSessionDataContext (meets : FragmentSend) : Option SendError × Bool :=
  match meets.wait.err with
  | some err => (some err, false)
  | none =>
    if meets.lockCanceled ∨ meets.canceled then (some .context, false)
    else if meets.closed ∨ meets.nextPacket = 0 then (some .session, false)
    else if ¬meets.sealed then (some .transport, false)
    else
      match meets.write.err with
      | some err => (some err, meets.write.wrote)
      | none => (none, true)

def sendFragments : (Nat → FragmentSend) → List (Bytes × Bool) → Option SendError × List Bytes
  | _, [] => (none, [])
  | meets, (payload, _) :: rest =>
    match sendSessionDataContext (meets 0) with
    | (some err, left) => (some err, if left then [payload] else [])
    | (none, _) =>
      let sent := sendFragments (fun number => meets (number + 1)) rest
      (sent.1, payload :: sent.2)

structure MessageSend where
  canceled : Bool
  live : Bool
  maxPacket : Nat
  meets : Nat → FragmentSend

def MessageSend.send (setting : MessageSend) (message : I2NPMessage) :
    Option SendError × List Bytes :=
  if setting.canceled then (some .context, [])
  else if message.payload.length > i2npMaxPayload then (some .payloadTooLarge, [])
  else if ¬setting.live then (some .sessionUnavailable, [])
  else
    match forEachSSU2I2NPFragment maxIPv4PacketLen message setting.maxPacket with
    | .error .session => (some .session, [])
    | .error _ => (some .payloadTooLarge, [])
    | .ok frames => sendFragments setting.meets frames

def MessageSend.Sends (setting : MessageSend) (message : I2NPMessage)
    (frames : List (Bytes × Bool)) : Prop :=
  setting.canceled = false ∧ message.payload.length ≤ i2npMaxPayload ∧ setting.live = true ∧
    forEachSSU2I2NPFragment maxIPv4PacketLen message setting.maxPacket = .ok frames

def FailsAt (meets : Nat → FragmentSend) (index : Nat) (err : SendError) : Prop :=
  (∀ earlier < index, (sendSessionDataContext (meets earlier)).1 = none) ∧
    (sendSessionDataContext (meets index)).1 = some err

section Reroute

variable {meets : Nat → FragmentSend} {frames : List (Bytes × Bool)} {err : SendError}

theorem exists_failsAt (h : (sendFragments meets frames).1 = some err) :
    ∃ index < frames.length, FailsAt meets index err := by
  induction frames generalizing meets with
  | nil => cases h
  | cons frame rest ih =>
    rw [sendFragments] at h
    split at h
    next found left hfound => exact ⟨0, Nat.succ_pos _, by simp, (congrArg Prod.fst hfound).trans h⟩
    next left hfound =>
      obtain ⟨index, hindex, hearlier, hfails⟩ := ih h
      refine ⟨index + 1, Nat.succ_lt_succ hindex, ?_, hfails⟩
      rintro (_ | earlier) hbefore
      · exact congrArg Prod.fst hfound
      · exact hearlier earlier (Nat.lt_of_succ_lt_succ hbefore)

/-- What left before the first failure is nothing exactly if the first fragment failed and its
packet did not leave. -/
theorem sendFragments_of_failsAt {index : Nat} (hindex : index < frames.length)
    (h : FailsAt meets index err) :
    (sendFragments meets frames).1 = some err ∧
      ((sendFragments meets frames).2 = [] ↔
        index = 0 ∧ (sendSessionDataContext (meets 0)).2 = false) := by
  obtain ⟨hearlier, hfails⟩ := h
  induction index generalizing meets frames with
  | zero =>
    obtain ⟨⟨payload, last⟩, rest, rfl⟩ := List.exists_cons_of_length_pos hindex
    rcases hmeets : sendSessionDataContext (meets 0) with ⟨found, left⟩
    rw [hmeets] at hfails
    cases hfails
    cases left <;> simp [sendFragments, hmeets]
  | succ index ih =>
    obtain ⟨⟨payload, last⟩, rest, rfl⟩ := List.exists_cons_of_length_pos (Nat.zero_lt_of_lt hindex)
    have hrest := ih (Nat.lt_of_succ_lt_succ hindex)
      (fun earlier hbefore => hearlier (earlier + 1) (Nat.succ_lt_succ hbefore)) hfails
    rcases hmeets : sendSessionDataContext (meets 0) with ⟨found, left⟩
    have hfirst := hearlier 0 (Nat.succ_pos _)
    rw [hmeets] at hfirst
    cases hfirst
    simp [sendFragments, hmeets, hrest.1]

def sentFragment : FragmentSend := ⟨.reserved, false, false, false, 1, true, .completed true false⟩

end Reroute

end Ivnp.Ssu2
