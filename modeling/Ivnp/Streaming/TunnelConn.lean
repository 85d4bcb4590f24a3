import Ivnp.Lib.Serial
import Ivnp.Lib.Table
import Ivnp.Streaming.Packet

/-!
One end of an established streaming connection: the sender's pending packets
and their acknowledgement, the receiver's expected counter and reorder buffer,
and the acknowledgements it returns. Every operation is what the source does in
one critical section of the connection. Times are left to the caller: which
packets are due for a retry is an argument. Half-closing and the signed control
packets are outside of the model.
-/

namespace Ivnp.Streaming

open Ivnp.Lib

def maxWindow : Nat := 128
def localMaxPayloadSize : Nat := maxPacketSize - headerLen
def defaultPeerMaxPayloadSize : Nat := 1730
def minPeerMaxPayloadSize : Nat := 512

def flagSynchronize : UInt16 := 0x0001
def flagClose : UInt16 := 0x0002
def flagReset : UInt16 := 0x0004
def flagNoACK : UInt16 := 0x0400

def sequenceAfter (left right : UInt32) : Bool := Serial.after left right

def sequenceBeforeOrEqual (left right : UInt32) : Bool := Serial.beforeOrEqual left right

/-- `containsNACK`: whether one of the whole four-byte groups is `sequence`. -/
def containsNACK : Bytes → UInt32 → Bool
  | b₀ :: b₁ :: b₂ :: b₃ :: rest, sequence =>
    if UInt32.ofNat (beNat [b₀, b₁, b₂, b₃]) = sequence then true else containsNACK rest sequence
  | _, _ => false

structure PendingPacket where
  wire : Bytes
  retries : Nat
  nacks : UInt8
  retransmitted : Bool

structure ReceivedPacket where
  payload : Bytes

/-- A payload size as `updatePeerMaxPayloadSizeLocked` keeps it. -/
abbrev PeerPayloadSize :=
  { size : Nat // minPeerMaxPayloadSize ≤ size ∧ size ≤ localMaxPayloadSize }

structure TunnelConn where
  localID : UInt32
  remoteID : UInt32
  nextSequence : UInt32
  expect : UInt32
  pending : Table UInt32 PendingPacket
  reordered : Table UInt32 ReceivedPacket
  reads : List Bytes
  readCurrent : Bytes
  readCapacity : Nat
  maxRetries : Nat
  peerMaxPayloadSize : PeerPayloadSize
  done : Bool

namespace TunnelConn

/-- A new connection between two stream IDs. -/
def start (localID remoteID : UInt32) (readCapacity maxRetries : Nat) : TunnelConn :=
  { localID, remoteID, readCapacity, maxRetries
    nextSequence := 1
    expect := 1
    pending := ∅
    reordered := ∅
    reads := []
    readCurrent := []
    peerMaxPayloadSize := ⟨defaultPeerMaxPayloadSize, by decide⟩
    done := false }

/-- `abort`: the connection is done and forgets what it had retained. -/
def abort (conn : TunnelConn) : TunnelConn :=
  { conn with done := true, pending := ∅, reordered := ∅ }

def updatePeerMaxPayloadSize (conn : TunnelConn) (advertised : Nat) : TunnelConn :=
  { conn with
    peerMaxPayloadSize :=
      if h : advertised < minPeerMaxPayloadSize then ⟨minPeerMaxPayloadSize, by decide⟩
      else if h' : advertised > localMaxPayloadSize then ⟨localMaxPayloadSize, by decide⟩
      else ⟨advertised, by omega⟩ }

def acknowledgeOne (maxRetries : Nat) (through : UInt32) (nacks : Bytes) (sequence : UInt32)
    (pending : PendingPacket) : Option PendingPacket :=
  if !sequenceBeforeOrEqual sequence through then some pending
  else if !containsNACK nacks sequence then none
  else if pending.nacks ≥ 3 then some pending
  else if pending.nacks + 1 = 3 ∧ pending.retries < maxRetries then
    some
      { pending with
        nacks := pending.nacks + 1, retries := pending.retries + 1, retransmitted := true }
  else some { pending with nacks := pending.nacks + 1 }

/-- Whether `acknowledgeLocked` resends the packet: at its third NACK. -/
def fastRetransmits (maxRetries : Nat) (through : UInt32) (nacks : Bytes) (sequence : UInt32)
    (pending : PendingPacket) : Bool :=
  sequenceBeforeOrEqual sequence through ∧ containsNACK nacks sequence ∧ pending.nacks < 3 ∧
    pending.nacks + 1 = 3 ∧ pending.retries < maxRetries

/-- `acknowledgeLocked`, with the wires it resends. -/
def acknowledge (conn : TunnelConn) (through : UInt32) (nacks : Bytes) :
    TunnelConn × List Bytes :=
  if nacks.length % 4 ≠ 0 ∨ nacks.length > 4 * maxWindow then (conn, [])
  else
    ({ conn with pending := conn.pending.revise (acknowledgeOne conn.maxRetries through nacks) },
      (conn.pending.entries.filter fun entry =>
        fastRetransmits conn.maxRetries through nacks entry.1 entry.2).map (·.2.wire))

/-- What `Write` leaves behind: the chunk it took and the wire it sends. -/
structure Written where
  conn : TunnelConn
  chunk : Bytes
  wire : Option Bytes

def dataPacket (conn : TunnelConn) (chunk : Bytes) : Packet :=
  { sendStreamID := conn.remoteID
    receiveStreamID := conn.localID
    sequence := conn.nextSequence
    ackThrough := conn.expect - 1
    nackCount := 0
    resendDelay := 0
    flags := 0
    options := []
    nacks := []
    payload := chunk }

/-- One turn of the loop of `Write` on a nonempty rest. The sequence number is
taken before the packet is encoded. -/
def write (conn : TunnelConn) (src : Bytes) : Option Written :=
  if src = [] ∨ conn.remoteID = 0 ∨ conn.done then none
  else
    let chunk := src.take conn.peerMaxPayloadSize.val
    let taken := { conn with nextSequence := conn.nextSequence + 1 }
    match (conn.dataPacket chunk).marshal with
    | none => some ⟨taken, chunk, none⟩
    | some wire =>
      some
        ⟨{ taken with
            pending := taken.pending.insert conn.nextSequence ⟨wire, 0, 0, false⟩ },
          chunk, some wire⟩

def retry (conn : TunnelConn) (due : List UInt32) : TunnelConn × List Bytes :=
  if conn.done then (conn, [])
  else
    let spent (entry : Sigma fun _ : UInt32 => PendingPacket) : Bool :=
      entry.1 ∈ due ∧ entry.2.retries ≥ conn.maxRetries
    let resend := (conn.pending.entries.filter fun entry => entry.1 ∈ due ∧ !spent entry).map
      (·.2.wire)
    if conn.pending.entries.any spent then (conn.abort, resend)
    else
      ({ conn with
          pending := conn.pending.revise fun sequence pending =>
            if sequence ∈ due then
              some { pending with retries := pending.retries + 1, retransmitted := true }
            else some pending },
        resend)

/-- `enqueuePayloadLocked`; `none` when the read queue is full. -/
def enqueuePayload (conn : TunnelConn) (payload : Bytes) : Option TunnelConn :=
  if payload = [] then some conn
  else if conn.reads.length < conn.readCapacity then
    some { conn with reads := conn.reads ++ [payload] }
  else none

/-- The loop of `enqueueExpectedLocked` over the packets that have become
expected. Every turn takes one entry out of the buffer, so its size is enough
fuel. -/
def drain : Nat → TunnelConn → TunnelConn × Bool
  | 0, conn => (conn, true)
  | fuel + 1, conn =>
    match conn.reordered.lookup conn.expect with
    | none => (conn, true)
    | some received =>
      match conn.enqueuePayload received.payload with
      | none => (conn, false)
      | some next =>
        drain fuel
          { next with
            reordered := next.reordered.erase conn.expect, expect := conn.expect + 1 }

def enqueueExpected (conn : TunnelConn) (received : ReceivedPacket) : TunnelConn × Bool :=
  match conn.enqueuePayload received.payload with
  | none => (conn, false)
  | some next => drain next.reordered.entries.length { next with expect := next.expect + 1 }

/-- `handleSequenceLocked`: the connection, whether to acknowledge and whether
to reset. -/
def handleSequence (conn : TunnelConn) (packet : Packet) : TunnelConn × Bool × Bool :=
  if packet.sequence = conn.expect then
    let result := conn.enqueueExpected ⟨packet.payload⟩
    (result.1, result.2, !result.2)
  else if !sequenceAfter packet.sequence conn.expect then (conn, true, false)
  else if conn.reordered.entries.length ≥ maxWindow then (conn, false, true)
  else if packet.sequence ∈ conn.reordered then (conn, true, false)
  else
    ({ conn with reordered := conn.reordered.insert packet.sequence ⟨packet.payload⟩ },
      true, false)

def highestHeld (conn : TunnelConn) : UInt32 :=
  conn.reordered.entries.foldl
    (fun highest entry => if sequenceAfter entry.1 highest then entry.1 else highest)
    (conn.expect - 1)

/-- The second loop of `acknowledgmentsLocked`, from `sequence` on. The NACKs
collected so far are `nacks`; those up to `through` are the first `nackBytes`
bytes of them. -/
def collectNACKs (reordered : Table UInt32 ReceivedPacket) (highest : UInt32) :
    Nat → UInt32 → Bytes → UInt32 → Nat → UInt32 × Bytes
  | 0, _, nacks, through, nackBytes => (through, nacks.take nackBytes)
  | fuel + 1, sequence, nacks, through, nackBytes =>
    if !sequenceBeforeOrEqual sequence highest then (through, nacks.take nackBytes)
    else if sequence ∈ reordered then
      collectNACKs reordered highest fuel (sequence + 1) nacks sequence nacks.length
    else if nacks.length = 4 * maxWindow then (through, nacks.take nackBytes)
    else
      collectNACKs reordered highest fuel (sequence + 1) (nacks ++ natBE 4 sequence.toNat) through
        nackBytes

/-- `acknowledgmentsLocked`. The loop runs at most from the expected sequence
to the highest one held. -/
def acknowledgments (conn : TunnelConn) : UInt32 × Bytes :=
  let highest := conn.highestHeld
  if highest = conn.expect - 1 then (highest, [])
  else
    collectNACKs conn.reordered highest ((highest - conn.expect).toNat + 1) conn.expect []
      (conn.expect - 1) 0

/-- The packet `sendACK` sends. -/
def ackPacket (conn : TunnelConn) : Packet :=
  { sendStreamID := conn.remoteID
    receiveStreamID := conn.localID
    sequence := 0
    ackThrough := conn.acknowledgments.1
    nackCount := 0
    resendDelay := 0
    flags := 0
    options := []
    nacks := conn.acknowledgments.2
    payload := [] }

def sendACK (conn : TunnelConn) : Option Bytes :=
  if conn.remoteID = 0 ∨ conn.done then none else conn.ackPacket.marshal

/-- `Read` into a buffer of `size` bytes; nothing is returned where the source
would wait. -/
def read (conn : TunnelConn) (size : Nat) : TunnelConn × Bytes :=
  if size = 0 then (conn, [])
  else
    match conn.readCurrent, conn.reads with
    | [], [] => (conn, [])
    | [], payload :: reads =>
      ({ conn with reads, readCurrent := payload.drop size }, payload.take size)
    | byte :: current, _ =>
      ({ conn with readCurrent := (byte :: current).drop size }, (byte :: current).take size)

/-- `HandleDelivery` and `handle` on a packet of the established connection,
with the wires it sends. -/
def handle (conn : TunnelConn) (wire : Bytes) : TunnelConn × List Bytes :=
  match parse wire with
  | none => (conn, [])
  | some packet =>
    if conn.done then (conn, [])
    else if packet.sendStreamID ≠ conn.localID ∨ packet.receiveStreamID ≠ conn.remoteID ∨
        packet.flags &&& (flagSynchronize ||| flagClose ||| flagReset) ≠ 0 then
      (conn, [])
    else
      let acknowledged :=
        if packet.flags &&& flagNoACK = 0 then conn.acknowledge packet.ackThrough packet.nacks
        else (conn, [])
      let handled :=
        if packet.sequence ≠ 0 then acknowledged.1.handleSequence packet
        else (acknowledged.1, false, false)
      if handled.2.2 then (handled.1.abort, [])
      else
        (handled.1, acknowledged.2 ++ (if handled.2.1 then handled.1.sendACK.toList else []))

end TunnelConn

end Ivnp.Streaming
