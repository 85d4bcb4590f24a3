import Ivnp.Ssu2.SendSession

/-!
The congestion window of an SSU2 session. A send reserves its bytes and a slot, waits for
`packetMu`, seals and records its packet, and writes it while it still holds the mutex;
acknowledgements, the retransmission loop and other reservations come in between. Numbering
and sealing are those of the session underneath; here is what the window, the slots and the
calls in progress add to it. Which packet is due and which of the timers has run out is left
to the step. The teardown of the session is not a step.
-/

namespace Ivnp.Ssu2

open Ivnp.Lib

def ssu2MaxTrackedPackets : Nat := 256
def ssu2InitialTrackedPackets : Nat := 16
def ssu2SentSlotIdleShrinkTicks : Nat := 30
def ssu2MaximumSendWindow : Int := 1024 * 1024
def ssu2InitialSlowStart : Int := ssu2MaximumSendWindow / 2
def ssu2MinimumNetworkMTU : Int := 1280
def ssu2MaximumNetworkMTU : Int := 1500
def ssu2MTUStep : Int := 64

structure SendWindow where
  sendWindowBytes : Int
  sendWindowRemaining : Int
  slowStartThreshold : Int
  mtu : Int
  largeMTU : Int
  packetsTransmitted : UInt64
  packetsRetransmitted : UInt64

namespace SendWindow

def initReliability (largeMTU : Int) : SendWindow :=
  { sendWindowBytes := 3 * ssu2MinimumNetworkMTU
    sendWindowRemaining := 3 * ssu2MinimumNetworkMTU
    slowStartThreshold := ssu2InitialSlowStart
    mtu := ssu2MinimumNetworkMTU
    largeMTU := min (max largeMTU ssu2MinimumNetworkMTU) ssu2MaximumNetworkMTU
    packetsTransmitted := 0
    packetsRetransmitted := 0 }

def shouldRequestImmediateACK (window : SendWindow) : Bool :=
  window.sendWindowRemaining < window.sendWindowBytes / 3

/-- The check of `sendSessionDataContext` for room in the window. -/
def capacityAvailable (window : SendWindow) (congestionControlled : Bool) (packetSize : Int) : Bool :=
  !congestionControlled ∨ window.sendWindowRemaining ≥ packetSize

def reserve (window : SendWindow) (windowBytes : Int) : SendWindow :=
  { window with sendWindowRemaining := window.sendWindowRemaining - windowBytes }

def credit (window : SendWindow) (windowBytes : Int) : SendWindow :=
  if windowBytes ≠ 0 then
    { window with
      sendWindowRemaining := min window.sendWindowBytes (window.sendWindowRemaining + windowBytes) }
  else window

def adjustMTU (window : SendWindow) (packetSize : Int) (success : Bool) : SendWindow :=
  if success then
    if window.packetsTransmitted ≠ 0 ∧ window.packetsRetransmitted * 10 < window.packetsTransmitted ∧
        window.mtu < window.largeMTU ∧ packetSize > window.mtu - 2 * ssu2MTUStep then
      { window with mtu := min (window.mtu + ssu2MTUStep) window.largeMTU }
    else window
  else if window.mtu > ssu2MinimumNetworkMTU ∧ packetSize > window.mtu - 4 * ssu2MTUStep then
    { window with mtu := max (window.mtu - ssu2MTUStep) ssu2MinimumNetworkMTU }
  else window

/-- `messageACKedLocked`; `random` is what `randomUint64` gave, if it did. -/
def messageACKed (window : SendWindow) (attempts : UInt8) (bytesACKed packetSize : Int)
    (random : Option UInt64) : SendWindow :=
  let grow := window.sendWindowBytes ≤ window.slowStartThreshold ∨
    random.any fun value => (value.toNat : Int) % (2 * window.sendWindowBytes) < bytesACKed
  let grown : SendWindow :=
    if grow then
      { window with
        sendWindowBytes := min ssu2MaximumSendWindow (window.sendWindowBytes + bytesACKed)
        sendWindowRemaining := window.sendWindowRemaining + bytesACKed }
    else window
  let counted := if attempts = 0 then grown.adjustMTU packetSize true else window
  { counted with
    sendWindowRemaining := min counted.sendWindowBytes (counted.sendWindowRemaining + bytesACKed) }

/-- `noteCongestionLocked`; `elapsed` is whether the last congestion is an RTO ago. -/
def noteCongestion (window : SendWindow) (fast elapsed : Bool) (packetSize : Int) : SendWindow :=
  let threshold := max (window.sendWindowBytes / 2) (2 * window.mtu)
  let congested : SendWindow :=
    if fast then
      let bytes := min ssu2MaximumSendWindow (threshold + 3 * window.mtu)
      { window with
        slowStartThreshold := threshold, sendWindowBytes := bytes, sendWindowRemaining := bytes }
    else if elapsed then
      { window with
        slowStartThreshold := threshold
        sendWindowBytes := ssu2MaximumNetworkMTU
        sendWindowRemaining := min window.sendWindowRemaining ssu2MaximumNetworkMTU }
    else window
  { congested with packetsRetransmitted := window.packetsRetransmitted + 1 }.adjustMTU packetSize false

end SendWindow

structure SlotWindow where
  windowBytes : Int
  packetSize : Int
  nackThrough : UInt32
  nacks : UInt8
  fast : Bool

def SlotWindow.clear : SlotWindow := ⟨0, 0, 0, 0, false⟩

/-- The options of a send. Only reliable sends are congestion controlled: those of
`sendData`, `sendDataContext` and the session sender. -/
structure SendOptions where
  reliable : Bool
  congestionControlled : Bool
  requestImmediateACK : Bool
  interruptible : Bool
  controlled_reliable : congestionControlled = true → reliable = true

def SendOptions.data : SendOptions := ⟨true, true, false, false, fun _ => rfl⟩

/-- A call of `sendSessionDataContext` after its reservation; `number` is the packet number
once the packet is recorded. -/
structure SendCall where
  payload : Bytes
  options : SendOptions
  retained : Option Nat
  windowBytes : Int
  packetSize : Int
  number : Option UInt32

/-- Who holds `packetMu`. -/
inductive PacketMutex where
  | free
  | sender (call : Nat)
  | retransmitter
  deriving DecidableEq, Repr

/-- A slot that `releaseSendReservationLocked` has freed: for which call, and which call had
reserved it. -/
structure SlotRelease where
  call : Nat
  slot : Nat
  owner : Nat
  deriving DecidableEq, Repr

/-- What has happened so far; the source keeps nothing of it. -/
structure SendHistory where
  owner : Nat → Nat
  releases : List SlotRelease
  credited : List Nat

structure WindowSession where
  base : SendRun
  slotWindows : Nat → SlotWindow
  sentSlots : List Nat
  sentChunks : List Nat
  sentIdleTicks : Nat
  nextSlot : Nat
  window : SendWindow
  calls : Table Nat SendCall
  nextCall : Nat
  packetMu : PacketMutex
  history : SendHistory

/-- The critical sections of the session. -/
inductive WindowStep where
  | send (payload : Bytes) (options : SendOptions) (ipv6 : Bool)
  | interrupt (call : Nat)
  | transmit (call : Nat) (cancelled : Bool)
  | written (call : Nat) (ok : Bool)
  | sendTo (payload : Bytes)
  | acknowledge (ranges : List ACKRange) (order : List UInt32) (random : UInt32 → Option UInt64)
  | retransmitBegin
  | retransmitTurn (number : UInt32) (due elapsed ok : Bool)
  | retransmitEnd
  | maintainSentCapacity
  | remove
  | close

def ssu2NetworkPacketSize (ipv6 : Bool) (udpPayload : Nat) : Int :=
  if ipv6 then udpPayload + 40 + 8 else udpPayload + 20 + 8

def acknowledgedBy (ranges : List ACKRange) (packet : UInt32) : Bool :=
  ranges.any fun range => packet ≥ range.start ∧ packet ≤ range.stop

namespace WindowSession

/-- A new session after `initReliability`. -/
def start (sendID : UInt64) (largeMTU : Int) : WindowSession :=
  { base := .start sendID
    slotWindows := fun _ => .clear
    sentSlots := List.range ssu2InitialTrackedPackets
    sentChunks := [ssu2InitialTrackedPackets]
    sentIdleTicks := 0
    nextSlot := ssu2InitialTrackedPackets
    window := .initReliability largeMTU
    calls := ∅
    nextCall := 0
    packetMu := .free
    history := ⟨fun _ => 0, [], []⟩ }

def inUse (state : WindowSession) (slot : Nat) : Bool := (state.base.session.slots slot).inUse

def sent (state : WindowSession) : Table UInt32 Nat := state.base.session.sent

def growSentSlots (state : WindowSession) (count : Nat) : WindowSession :=
  let add := min count ssu2MaxTrackedPackets - state.sentSlots.length
  if add = 0 then state
  else
    { state with
      sentChunks := state.sentChunks ++ [add]
      sentSlots := state.sentSlots ++ List.range' state.nextSlot add
      nextSlot := state.nextSlot + add }

def freeSlot (state : WindowSession) : Option Nat :=
  state.sentSlots.find? fun slot => !state.inUse slot

/-- `retainPayload`: the slot, and the session with the slots it has then. A session that
has grown has free slots, so the loop of the source is left in its second turn. -/
def retainPayload (state : WindowSession) (payload : Bytes) : Option (Nat × WindowSession) :=
  if payload.length > maxIPv4PacketLen then none
  else
    match state.freeSlot with
    | some slot => some (slot, state)
    | none =>
      if state.sentSlots.length ≥ ssu2MaxTrackedPackets then none
      else
        let grown := state.growSentSlots
          (max ssu2InitialTrackedPackets (state.sentSlots.length * 2))
        grown.freeSlot.map fun slot => (slot, grown)

def shrinkSentSlots (state : WindowSession) : WindowSession :=
  if state.sentSlots.length ≤ ssu2InitialTrackedPackets ∨ state.sentChunks = [] then
    { state with sentIdleTicks := 0 }
  else if (state.sentSlots.countP state.inUse) * 2 ≥ state.sentSlots.length then
    { state with sentIdleTicks := 0 }
  else if state.sentIdleTicks + 1 < ssu2SentSlotIdleShrinkTicks then
    { state with sentIdleTicks := state.sentIdleTicks + 1 }
  else
    let tailStart := state.sentSlots.length - state.sentChunks.getLastD 0
    if (state.sentSlots.drop tailStart).any state.inUse then { state with sentIdleTicks := 0 }
    else
      { state with
        sentIdleTicks := 0
        sentChunks := state.sentChunks.dropLast
        sentSlots := state.sentSlots.take tailStart }

/-- The first critical section of `sendSessionDataContext`; a call that has to wait for
capacity comes back to it. -/
def send (state : WindowSession) (payload : Bytes) (options : SendOptions) (ipv6 : Bool) :
    WindowSession :=
  let session := state.base.session
  if session.closing ∨ !session.live ∨ session.send = .absent then state
  else
    let packetSize := ssu2NetworkPacketSize ipv6
      ((padPayload payload).length + shortHeaderLen + packetTagLen)
    let windowBytes := if options.congestionControlled then packetSize else 0
    if !state.window.capacityAvailable options.congestionControlled packetSize then state
    else if options.reliable then
      match state.retainPayload (padPayload payload) with
      | none => state
      | some (slot, retaining) =>
        { retaining with
          base := retaining.base.step (.reserve payload true slot)
          slotWindows := Function.update retaining.slotWindows slot .clear
          window := retaining.window.reserve windowBytes
          calls := retaining.calls.insert retaining.nextCall
            ⟨payload, options, some slot, windowBytes, packetSize, none⟩
          nextCall := retaining.nextCall + 1
          history := { retaining.history with
            owner := Function.update retaining.history.owner slot retaining.nextCall } }
    else
      { state with
        window := state.window.reserve windowBytes
        calls := state.calls.insert state.nextCall
          ⟨payload, options, none, windowBytes, packetSize, none⟩
        nextCall := state.nextCall + 1 }

def releaseSendReservation (state : WindowSession) (call : Nat) (entry : SendCall)
    (base : SendRun) : WindowSession :=
  let credited :=
    if entry.windowBytes ≠ 0 then call :: state.history.credited else state.history.credited
  match entry.retained with
  | some slot =>
    if !state.inUse slot then { state with base, calls := state.calls.erase call }
    else
      { state with
        base
        slotWindows := Function.update state.slotWindows slot .clear
        window := state.window.credit entry.windowBytes
        calls := state.calls.erase call
        history := { state.history with
          releases := ⟨call, slot, state.history.owner slot⟩ :: state.history.releases
          credited } }
  | none =>
    { state with
      base
      window := state.window.credit entry.windowBytes
      calls := state.calls.erase call
      history := { state.history with credited } }

/-- The call ends before its packet is sealed: the wait for `packetMu` was interrupted. -/
def interrupt (state : WindowSession) (call : Nat) : WindowSession :=
  match state.calls.lookup call with
  | none => state
  | some entry =>
    if entry.number.isSome ∨ !entry.options.interruptible then state
    else
      state.releaseSendReservation call entry (state.base.step (.release entry.retained))

/-- Whether the second critical section of `sendSessionDataContext` gets as far as a packet. -/
def transmits (state : WindowSession) (entry : SendCall) (cancelled immediateACK : Bool) : Bool :=
  let session := state.base.session
  ¬cancelled ∧ ¬(session.closing ∨ !session.live ∨ session.send = .absent) ∧
    session.nextPacket ≠ 0 ∧
    (state.base.sealNext (ssu2DataHeader session.sendID session.nextPacket immediateACK)
      (padPayload entry.payload)).2

/-- The second critical section of `sendSessionDataContext`, with `packetMu`. -/
def transmit (state : WindowSession) (call : Nat) (cancelled : Bool) : WindowSession :=
  match state.calls.lookup call with
  | none => state
  | some entry =>
    if entry.number.isSome ∨ state.packetMu ≠ .free then state
    else
      let immediateACK :=
        if entry.options.congestionControlled then state.window.shouldRequestImmediateACK
        else entry.options.requestImmediateACK
      let base := state.base.sendSessionDataContext entry.payload entry.retained cancelled
        immediateACK
      if !state.transmits entry cancelled immediateACK then
        state.releaseSendReservation call entry base
      else
        { state with
          base
          slotWindows :=
            match entry.retained with
            | none => state.slotWindows
            | some slot => Function.update state.slotWindows slot
                { state.slotWindows slot with
                  windowBytes := entry.windowBytes, packetSize := entry.packetSize }
          calls := state.calls.insert call
            { entry with number := some state.base.session.nextPacket }
          packetMu := .sender call }

/-- The end of `sendSessionDataContext`: what the write returned. -/
def written (state : WindowSession) (call : Nat) (ok : Bool) : WindowSession :=
  match state.calls.lookup call with
  | none => state
  | some entry =>
    if state.packetMu ≠ .sender call then state
    else if !ok then
      { state.releaseSendReservation call entry (state.base.step (.release entry.retained)) with
        packetMu := .free }
    else
      { state with
        window :=
          if entry.options.congestionControlled then
            { state.window with packetsTransmitted := state.window.packetsTransmitted + 1 }
          else state.window
        calls := state.calls.erase call
        packetMu := .free }

/-- The first loop of `acknowledge` over the tracked packets, so far. -/
structure AckSweep where
  window : SendWindow
  acknowledged : List Nat
  credited : List Nat

def sweepPacket (state : WindowSession) (ranges : List ACKRange) (random : UInt32 → Option UInt64)
    (sweep : AckSweep) (number : UInt32) : AckSweep :=
  match state.sent.lookup number with
  | none => sweep
  | some slot =>
    if !state.inUse slot ∨ slot ∈ sweep.acknowledged ∨ !acknowledgedBy ranges number then sweep
    else
      let account := state.slotWindows slot
      if account.windowBytes ≠ 0 then
        { window := sweep.window.messageACKed (state.base.session.slots slot).attempts
            account.windowBytes account.packetSize (random number)
          acknowledged := slot :: sweep.acknowledged
          credited := state.history.owner slot :: sweep.credited }
      else { sweep with acknowledged := slot :: sweep.acknowledged }

/-- The last loop: a packet below the highest acknowledged one has been missed. -/
def countNack (session : SendSession) (highest : UInt32) (slot : Nat) (account : SlotWindow) :
    SlotWindow :=
  let packet := session.slots slot
  if packet.inUse ∧ session.sent.lookup packet.latestPacket = some slot ∧
      packet.latestPacket < highest ∧ account.nackThrough < highest then
    { account with
      nackThrough := highest
      nacks := account.nacks + 1
      fast := account.fast ∨ account.nacks + 1 = 3 }
  else account

def acknowledge (state : WindowSession) (ranges : List ACKRange) (order : List UInt32)
    (random : UInt32 → Option UInt64) : WindowSession :=
  if order.Perm state.sent.keys then
    let highest := ranges.foldl (fun highest range => max highest range.stop) 0
    let sweep := order.foldl (state.sweepPacket ranges random)
      ⟨state.window, [], state.history.credited⟩
    let base := state.base.step (.acknowledge ranges)
    { state with
      base
      slotWindows := fun slot =>
        if slot ∈ sweep.acknowledged then .clear
        else countNack base.session highest slot (state.slotWindows slot)
      window := sweep.window
      history := { state.history with credited := sweep.credited } }
  else state

/-- One turn of the loop of `retransmitAndNextDue` with the packet under `number` as its
target, `ok` being what the write returned. -/
def retransmitTurn (state : WindowSession) (number : UInt32) (due elapsed ok : Bool) :
    WindowSession :=
  let session := state.base.session
  match session.sent.lookup number with
  | none => state
  | some slot =>
    let target := session.slots slot
    let account := state.slotWindows slot
    if state.packetMu ≠ .retransmitter ∨ target.latestPacket = 0 ∨ number ≠ target.latestPacket ∨
        !(account.fast ∨ due) then
      state
    else if target.attempts ≥ ssu2MaxRetransmits ∨ session.closing ∨ session.send = .absent ∨
        session.nextPacket = 0 then
      { state with packetMu := .free }
    else
      let window := state.window.noteCongestion account.fast elapsed account.packetSize
      let immediateACK := window.shouldRequestImmediateACK
      let sealed := (state.base.sealNext
        (ssu2DataHeader session.sendID session.nextPacket immediateACK) target.payload).2
      { state with
        base := state.base.retransmit number immediateACK
        slotWindows :=
          if sealed then
            Function.update state.slotWindows slot { account with nacks := 0, fast := false }
          else state.slotWindows
        window
        packetMu := if sealed ∧ ok then .retransmitter else .free }

def step (state : WindowSession) : WindowStep → WindowSession
  | .send payload options ipv6 => state.send payload options ipv6
  | .interrupt call => state.interrupt call
  | .transmit call cancelled => state.transmit call cancelled
  | .written call ok => state.written call ok
  | .sendTo payload =>
    if state.packetMu ≠ .free then state
    else { state with base := state.base.step (.sendTo payload) }
  | .acknowledge ranges order random => state.acknowledge ranges order random
  | .retransmitBegin =>
    if state.packetMu ≠ .free then state else { state with packetMu := .retransmitter }
  | .retransmitTurn number due elapsed ok => state.retransmitTurn number due elapsed ok
  | .retransmitEnd =>
    if state.packetMu ≠ .retransmitter then state else { state with packetMu := .free }
  | .maintainSentCapacity => state.shrinkSentSlots
  | .remove => { state with base := state.base.step .remove }
  | .close => { state with base := state.base.step .close }

/-- The session after an interleaving of its critical sections, oldest first. -/
def after (sendID : UInt64) (largeMTU : Int) (steps : List WindowStep) : WindowSession :=
  run step (start sendID largeMTU) steps

end WindowSession

end Ivnp.Ssu2
