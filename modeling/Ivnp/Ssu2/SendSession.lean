import Ivnp.Lib.Run
import Ivnp.Lib.Table
import Ivnp.Ssu2.AckRanges
import Ivnp.Ssu2.Packet

/-!
The sending side of one SSU2 session. Every step is one critical section under
`sendMu`: the two halves of `sendSessionDataContext`, `sendSessionDataTo`, one
turn of the retransmission loop, acknowledgements and the teardown. A run is
therefore an arbitrary interleaving of the calls. Which packet is due and
whether the congestion window has room is left to the step; the window itself
takes no part in the numbering.
-/

namespace Ivnp.Ssu2

open Ivnp.Lib

def ssu2MaxRetransmits : UInt8 := 5

/-- The data cipher of the sending direction: `session.send`. -/
inductive DataCipher where
  | absent
  | ready
  | released
  deriving DecidableEq, Repr

/-- How far `SealDataTo` got: an error before the AEAD ran, an error of the
header protection after it, or a packet. -/
inductive SealResult where
  | refused
  | unprotected
  | packet
  deriving DecidableEq, Repr

/-- The length checks of `ProtectHeader` with both keys in place. -/
def protectHeader (length extra : Nat) : Bool :=
  ¬ (length < minPacketLen ∨ length > maxIPv4PacketLen) ∧ (extra = 0 ∨ extra = 16 ∨ extra = 48) ∧
    ¬ length < shortHeaderLen + extra

def sealDataTo (cipher : DataCipher) (capacity : Nat) (header : ShortHeader)
    (plaintext : Bytes) : SealResult :=
  let total := shortHeaderLen + plaintext.length + packetTagLen
  if cipher ≠ .ready then .refused
  else if header.type ≠ .data ∨ header.fragment &&& 0xfe ≠ 0 ∨ header.flags ≠ 0 ∨
      plaintext.length < 8 then
    .refused
  else if total > maxIPv4PacketLen then .refused
  else if capacity < total then .refused
  else if protectHeader total 0 then .packet
  else .unprotected

/-- The AEAD nonce of a packet number: four zero bytes and the number in
little-endian order. -/
def packetNonce (packetNumber : UInt32) : Bytes :=
  List.replicate 4 0 ++ (natBE 8 packetNumber.toNat).reverse

def ssu2DataHeader (destinationID : UInt64) (packetNumber : UInt32) (requestImmediateACK : Bool) :
    ShortHeader :=
  ⟨destinationID, packetNumber, .data, if requestImmediateACK then 1 else 0, 0⟩

structure SentPacket where
  payload : Bytes
  latestPacket : UInt32
  attempts : UInt8
  inUse : Bool

structure SendSession where
  sendID : UInt64
  closing : Bool
  live : Bool
  send : DataCipher
  nextPacket : UInt32
  slots : Nat → SentPacket
  sent : Table UInt32 Nat

/-- What the AEAD of the sending direction was run on. -/
structure SealedPacket where
  packetNumber : UInt32
  nonce : Bytes
  payload : Bytes

structure SendRun where
  session : SendSession
  sealed : List SealedPacket

namespace SendSession

/-- A new session; both ends number their data packets from 1. -/
def start (sendID : UInt64) : SendSession :=
  { sendID, closing := false, live := true, send := .ready, nextPacket := 1
    slots := fun _ => ⟨[], 0, 0, false⟩, sent := ∅ }

def releaseSlot (session : SendSession) (slot : Nat) : SendSession :=
  { session with
    slots := Function.update session.slots slot ⟨[], 0, 0, false⟩
    sent := session.sent.keep fun _ other => other ≠ slot }

def releaseSendReservation (session : SendSession) : Option Nat → SendSession
  | none => session
  | some slot => if (session.slots slot).inUse then session.releaseSlot slot else session

def acknowledge (session : SendSession) (ranges : List ACKRange) : SendSession :=
  (session.sent.entries.filter fun entry =>
      (session.slots entry.2).inUse ∧
        ranges.any fun range => entry.1 ≥ range.start ∧ entry.1 ≤ range.stop).foldl
    (fun session entry => session.releaseSlot entry.2) session

end SendSession

def padPayload (payload : Bytes) : Bytes :=
  if payload.length < 8 then
    let paddingLength := 8 - payload.length - 3
    payload ++ [blockPadding] ++ natBE 2 paddingLength ++ List.replicate paddingLength 0
  else payload

/-- The critical sections of the session. -/
inductive SendStep where
  | reserve (payload : Bytes) (capacity : Bool) (slot : Nat)
  | sendContext (payload : Bytes) (retained : Option Nat) (cancelled immediateACK : Bool)
  | release (retained : Option Nat)
  | sendTo (payload : Bytes)
  | retransmit (number : UInt32) (immediateACK : Bool)
  | acknowledge (ranges : List ACKRange)
  | remove
  | close
  | releaseSensitive

namespace SendRun

def start (sendID : UInt64) : SendRun := ⟨SendSession.start sendID, []⟩

/-- One seal with the number in the header; the counter moves on only when a
packet results. -/
def sealNext (run : SendRun) (header : ShortHeader) (payload : Bytes) : SendRun × Bool :=
  let sealed : SealedPacket := ⟨header.packetNumber, packetNonce header.packetNumber, payload⟩
  match sealDataTo run.session.send maxIPv4PacketLen header payload with
  | .refused => (run, false)
  | .unprotected => ({ run with sealed := sealed :: run.sealed }, false)
  | .packet =>
    (⟨{ run.session with nextPacket := run.session.nextPacket + 1 }, sealed :: run.sealed⟩, true)

/-- The second critical section of `sendSessionDataContext`. -/
def sendSessionDataContext (run : SendRun) (payload : Bytes) (retained : Option Nat)
    (cancelled immediateACK : Bool) : SendRun :=
  let session := run.session
  let abandoned : SendRun := { run with session := session.releaseSendReservation retained }
  if cancelled then abandoned
  else if session.closing ∨ !session.live ∨ session.send = .absent then abandoned
  else if session.nextPacket = 0 then abandoned
  else
    let header := ssu2DataHeader session.sendID session.nextPacket immediateACK
    let result := run.sealNext header (padPayload payload)
    let next := result.1
    if !result.2 then { next with session := next.session.releaseSendReservation retained }
    else
      match retained with
      | none => next
      | some slot =>
        { next with
          session :=
            { next.session with
              slots := Function.update next.session.slots slot
                { next.session.slots slot with latestPacket := session.nextPacket }
              sent := next.session.sent.insert session.nextPacket slot } }

def sendSessionDataTo (run : SendRun) (payload : Bytes) : SendRun :=
  let session := run.session
  if session.closing ∨ !session.live ∨ session.nextPacket = 0 ∨ session.send = .absent then run
  else (run.sealNext ⟨session.sendID, session.nextPacket, .data, 0, 0⟩ payload).1

/-- One turn of the loop of `retransmitAndNextDue` with the packet under
`number` as its target. -/
def retransmit (run : SendRun) (number : UInt32) (immediateACK : Bool) : SendRun :=
  let session := run.session
  match session.sent.lookup number with
  | none => run
  | some slot =>
    let target := session.slots slot
    if target.latestPacket = 0 ∨ number ≠ target.latestPacket then run
    else if target.attempts ≥ ssu2MaxRetransmits then run
    else if session.closing ∨ session.send = .absent then run
    else if session.nextPacket = 0 then run
    else
      let header := ssu2DataHeader session.sendID session.nextPacket immediateACK
      let result := run.sealNext header target.payload
      let next := result.1
      if !result.2 then next
      else
        { next with
          session :=
            { next.session with
              slots := Function.update next.session.slots slot
                { target with
                  attempts := target.attempts + 1
                  latestPacket := session.nextPacket }
              sent := next.session.sent.insert session.nextPacket slot } }

def step (run : SendRun) : SendStep → SendRun
  | .reserve payload capacity slot =>
    let session := run.session
    if session.closing ∨ !session.live ∨ session.send = .absent then run
    else if capacity ∧ (padPayload payload).length ≤ maxIPv4PacketLen ∧
        !(session.slots slot).inUse then
      { run with
        session :=
          { session with
            slots := Function.update session.slots slot ⟨padPayload payload, 0, 0, true⟩ } }
    else run
  | .sendContext payload retained cancelled immediateACK =>
    run.sendSessionDataContext payload retained cancelled immediateACK
  | .release retained => { run with session := run.session.releaseSendReservation retained }
  | .sendTo payload => run.sendSessionDataTo payload
  | .retransmit number immediateACK => run.retransmit number immediateACK
  | .acknowledge ranges => { run with session := run.session.acknowledge ranges }
  | .remove => { run with session := { run.session with live := false } }
  | .close => { run with session := { run.session with closing := true } }
  | .releaseSensitive =>
    { run with
      session :=
        { run.session with send := .absent, slots := fun _ => ⟨[], 0, 0, false⟩, sent := ∅ } }

/-- The session after an interleaving of its critical sections, oldest first. -/
def after (sendID : UInt64) (steps : List SendStep) : SendRun := run step (start sendID) steps

end SendRun

end Ivnp.Ssu2
