import Ivnp.Ssu2.AckReplay
import Ivnp.Ssu2.Blocks
import Ivnp.Ssu2.I2npFragments

/-!
The data packets of an SSU2 session (`handleDataFrom` in `ssu2_manager.go`). The packet number
is recorded for the acknowledgements first. A packet from the address of the session is then
taken apart block by block, and its messages go to the dispatch stage in one batch at the end;
a packet from any other address is only looked at for the validation of the new path.
-/

namespace Ivnp.Router

open Ivnp.Lib Ivnp.Foundation Ivnp.Ssu2

/-- A packet that has been opened in place, in a receive buffer of `maxIPv4PacketLen` bytes. -/
structure OpenedPacket where
  destinationID : UInt64
  type : PacketType
  packetNumber : UInt32
  payload : Bytes
  fits : shortHeaderLen + payload.length + packetTagLen ≤ maxIPv4PacketLen

structure PathCandidate where
  remote : AddrPort
  challenge : FixedBytes 8
  expires : Nat

/-- The receiving side of a session. The keys are gone once it is released. -/
structure ReceiveSession where
  receive : Option (Bytes → Option OpenedPacket)
  receiveID : UInt64
  received : ACKTracker
  remote : Option AddrPort
  candidate : Option PathCandidate
  fragments : Fragments

/-- The messages of a packet on their way to the dispatch stage. The count of the source is a
byte for 256 places: with the 256th message it would be zero again. -/
abbrev DispatchBatch := List I2NPMessage

/-- What the dispatch stage and the rest of the manager do for a packet. -/
structure ReceiveSetting where
  now : Nat
  nowMillis : UInt64
  timeout : Nat
  batchFree : Bool
  batchTaken : Bool
  challenge : Option (FixedBytes 8)
  probeSent : Bool

/-- What happens to a packet. A block goes to the reassembler or to the handler of its type. -/
inductive ReceiveEvent where
  | ackQueued
  | dispatched (batch : DispatchBatch)
  | reassembled (block : Block)
  | handled (block : Block)
  | probed (remote : AddrPort) (challenge : FixedBytes 8)
  | answered (remote : AddrPort) (data : FixedBytes 8)
  | removed

def appendDispatchI2NP (setting : ReceiveSetting) (batch : Option DispatchBatch)
    (message : I2NPMessage) : Option DispatchBatch :=
  match batch with
  | none => if setting.batchFree then some [message] else none
  | some items => if items.length = 255 then some [] else some (items ++ [message])

/-- The variables of the loop over the blocks. -/
structure ReceiveLoop where
  fragments : Fragments
  batch : Option DispatchBatch
  terminated : Bool
  ackEliciting : Bool
  events : List ReceiveEvent

namespace ReceiveLoop

def note (loop : ReceiveLoop) (event : ReceiveEvent) : ReceiveLoop :=
  { loop with events := loop.events ++ [event] }

def dispatch (setting : ReceiveSetting) (loop : ReceiveLoop) (message : I2NPMessage) :
    Except ReceiveLoop ReceiveLoop :=
  match appendDispatchI2NP setting loop.batch message with
  | none => .error loop
  | some batch => .ok { loop with batch := some batch }

def hasHandler (kind : UInt8) : Bool :=
  kind ∈ [blockPeerTest, blockRelayTagRequest, blockRelayTag, blockNewToken, blockRelayRequest,
    blockRelayIntro, blockRelayResponse, blockPathChallenge]

/-- One block of the packet. An error leaves the function with what has happened so far. -/
def handleBlock (setting : ReceiveSetting) (loop : ReceiveLoop) (block : Block) :
    Except ReceiveLoop ReceiveLoop :=
  let eliciting := { loop with ackEliciting := true }
  if block.kind = blockACK then
    if (parseACKRanges block.data maxACKRanges).isSome then .ok (loop.note (.handled block))
    else .error loop
  else if block.kind = blockI2NP then
    match decodeSSU2I2NP block.data with
    | none => .error eliciting
    | some message => eliciting.dispatch setting message
  else if block.kind = blockFirstFragment ∨ block.kind = blockFollowOnFragment then
    let (outcome, fragments) := addFragment loop.fragments block.kind block.data setting.nowMillis
    let added := ({ eliciting with fragments }).note (.reassembled block)
    match outcome with
    | .error _ => .error added
    | .ok none => .ok added
    | .ok (some message) => added.dispatch setting message
  else if block.kind = blockAddress ∨ block.kind = blockDateTime ∨ block.kind = blockPadding then
    .ok loop
  else if block.kind = blockTermination then .ok { eliciting with terminated := true }
  else if hasHandler block.kind then .ok (eliciting.note (.handled block))
  else .ok eliciting

/-- The loop, and whether it came to its end. -/
def handleBlocks (setting : ReceiveSetting) : ReceiveLoop → List Block → ReceiveLoop × Bool
  | loop, [] => (loop, true)
  | loop, block :: rest =>
    match loop.handleBlock setting block with
    | .error stopped => (stopped, false)
    | .ok next => handleBlocks setting next rest

def finish (setting : ReceiveSetting) (loop : ReceiveLoop) : List ReceiveEvent :=
  loop.events ++ (if loop.ackEliciting then [.ackQueued] else []) ++
    (if loop.terminated then [.removed] else []) ++
    match loop.batch with
    | none => []
    | some batch => if setting.batchTaken ∧ batch ≠ [] then [.dispatched batch] else []

end ReceiveLoop

def handlePayload (setting : ReceiveSetting) (session : ReceiveSession) (payload : Bytes) :
    ReceiveSession × List ReceiveEvent :=
  let (blocks, complete) := payloadBlocks payload
  let (loop, finished) := ReceiveLoop.handleBlocks setting ⟨session.fragments, none, false, false, []⟩
    blocks
  if finished ∧ complete then
    ({ session with
        fragments := loop.fragments
        receive := if loop.terminated then none else session.receive },
      loop.finish setting)
  else ({ session with fragments := loop.fragments }, loop.events)

/-- One block of a packet from another address. -/
def candidateBlock (setting : ReceiveSetting) (remote : AddrPort)
    (state : ReceiveSession × List ReceiveEvent) (block : Block) :
    ReceiveSession × List ReceiveEvent :=
  let (session, events) := state
  match parsePathBlock block.data with
  | none => state
  | some data =>
    if block.kind = blockPathChallenge then (session, events ++ [.answered remote data])
    else if block.kind = blockPathResponse ∧ session.candidate.any (fun live =>
        setting.now < live.expires ∧ live.remote = remote ∧ live.challenge = data) then
      ({ session with remote := some remote, candidate := none }, events)
    else state

/-- The end of `handleCandidatePath`, with the candidate that is being validated. -/
def probePath (setting : ReceiveSetting) (session : ReceiveSession) (payload : Bytes)
    (remote : AddrPort) (candidate : PathCandidate) : ReceiveSession × List ReceiveEvent :=
  let probing := { session with candidate := some candidate }
  if setting.probeSent then
    (payloadBlocks payload).1.foldl (candidateBlock setting remote)
      (probing, [.probed remote candidate.challenge])
  else (probing, [])

def handleCandidatePath (setting : ReceiveSetting) (session : ReceiveSession) (payload : Bytes)
    (remote : AddrPort) : ReceiveSession × List ReceiveEvent :=
  match session.candidate.filter fun candidate => setting.now < candidate.expires with
  | some candidate =>
    if candidate.remote = remote then probePath setting session payload remote candidate
    else (session, [])
  | none =>
    match setting.challenge with
    | none => ({ session with candidate := none }, [])
    | some challenge =>
      probePath setting session payload remote
        ⟨remote, challenge, setting.now + setting.timeout⟩

/-- The packet comes from the address of the session, or its address is unknown. -/
def fromSessionAddress (session : ReceiveSession) (remote : Option AddrPort) : Bool :=
  match remote with
  | none => true
  | some remote => session.remote.map AddrPort.unmap = some remote.unmap

/-- What follows once the packet is open and new. -/
def handleOpened (setting : ReceiveSetting) (session : ReceiveSession) (payload : Bytes)
    (remote : Option AddrPort) : ReceiveSession × List ReceiveEvent :=
  match remote with
  | none => handlePayload setting session payload
  | some address =>
    if fromSessionAddress session (some address) then handlePayload setting session payload
    else handleCandidatePath setting session payload address.unmap

def handleDataFrom (setting : ReceiveSetting) (session : ReceiveSession) (packet : Bytes)
    (remote : Option AddrPort) : ReceiveSession × List ReceiveEvent :=
  match session.receive.bind (· packet) with
  | none => (session, [])
  | some opened =>
    if opened.type ≠ .data ∨ opened.destinationID ≠ session.receiveID then (session, [])
    else
      let (received, isNew) := session.received.observeNew opened.packetNumber
      let observed := { session with received }
      if isNew then handleOpened setting observed opened.payload remote
      else (observed, [.ackQueued])

end Ivnp.Router
