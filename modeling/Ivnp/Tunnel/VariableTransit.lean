import Ivnp.Tunnel.CircuitLifetime
import Ivnp.Tunnel.LayerDirection
import Ivnp.Tunnel.TransitBuild

/-!
A `BuildManager` as a transit hop of variable tunnel builds (`handleVariableTransit`). The
message is reserved under the hash of its whole payload before the own record is looked for.
The circuit is registered with the runtime before the reply is sent and removed again when
the message could not be sent; what happens in between is up to the other calls.
-/

namespace Ivnp.Tunnel

open Ivnp.Lib

/-- The fields of a `BuildManager` that variable builds use besides those of short ones. -/
structure VariableConfig where
  manager : TransitConfig
  crypto : BuildCrypto
  legacyEnabled : Bool
  legacyPrivate : FixedBytes 256
  staticPrivate : FixedBytes 32

/-- `I2NPParseBuildRecords` on a `VariableTunnelBuild` payload. -/
def parseVariableBuildRecords : Bytes → Option (List VariableRecord)
  | [] => none
  | count :: records =>
    if count.toNat < 1 ∨ count.toNat > maxVariableBuildRecords then none
    else if records.length ≠ count.toNat * variableBuildRecordSize then none
    else some ((List.range count.toNat).map fun index =>
      arrayAt variableBuildRecordSize records (index * variableBuildRecordSize))

namespace VariableConfig

variable (config : VariableConfig)

def hop : Option HopIdentity :=
  if config.legacyEnabled then
    some ⟨config.manager.localHash, .elGamal, config.legacyPrivate, config.staticPrivate⟩
  else if config.manager.staticPrivateKey then
    some ⟨config.manager.localHash, .longECIES, config.legacyPrivate, config.staticPrivate⟩
  else none

def validVariableTransitRequest (request : VariableBuildRequest) (kind : VariableBuildKind)
    (now : UInt64) : Bool :=
  if !validVariableRequest request ∨ request.nextRouter = config.manager.localHash then false
  else
    match kind with
    | .elGamal =>
      let time := request.requestHours.toUInt64 * 3600000
      time ≤ now + 3600000 ∧ now ≤ time + 7200000
    | .longECIES =>
      let time := request.requestMinutes.toUInt64 * 60000
      request.lifetimeSeconds = legacyBuildLifetimeSeconds ∧ time ≤ now + 60000 ∧
        now ≤ time + 60000

end VariableConfig

/-- A message that is being sent on with an acceptance: the own record it came with, when it
was taken up, and the installation of its circuit. -/
structure AcceptedRecord where
  record : VariableRecord
  started : UInt64
  id : UInt32
  generation : Nat

def AcceptedRecord.token (entry : AcceptedRecord) : CircuitToken :=
  ⟨entry.id, some entry.generation⟩

/-- What the other components answer while a message is prepared. -/
structure VariableAnswers where
  admits : Bool
  random : Bytes
  acceptRandom : Bytes
  endpoint : EndpointRef

/-- How the first part of `handleVariableTransit` ends: with an error, or with records to
send on, whose own reply is a rejection or an acceptance. -/
inductive TransitOutcome where
  | failed (error : BuildError)
  | rejecting (records : List VariableRecord)
  | accepting (records : List VariableRecord) (entry : AcceptedRecord)

structure VariableTransitState where
  manager : TransitState
  circuits : CircuitRun

namespace VariableConfig

variable (config : VariableConfig)

def registerVariable (circuits : CircuitRun) (request : VariableBuildRequest)
    (record : VariableRecord) (endpoint : EndpointRef) (now : UInt64) :
    Option (CircuitRun × AcceptedRecord) :=
  match installVariableTransitCircuit request now endpoint with
  | none => none
  | some circuit =>
    match circuits.runtime.registerInbound now circuit with
    | .error _ => none
    | .ok _ =>
      some (circuits.step (.registerInbound now circuit),
        ⟨record, now, circuit.id, circuits.runtime.heap.length⟩)

def replyLost (request : VariableBuildRequest) : Bool :=
  request.endpoint ∧ (request.nextRouter = FixedBytes.zero 32 ∨
    request.nextRouter = config.manager.localHash ∨ request.nextTunnelID = 0)

/-- From the admission of the request to the sending. The reply in the records is a
rejection; that of an accepted request is sealed in its place. What cannot be sent on leaves
no circuit behind. -/
def answerVariable (circuits : CircuitRun) (kind : VariableBuildKind) (processed : ProcessedBuild)
    (record : VariableRecord) (records : List VariableRecord) (answers : VariableAnswers)
    (now : UInt64) : CircuitRun × TransitOutcome :=
  let request := processed.request
  let registered :=
    if config.validVariableTransitRequest request kind now ∧ answers.admits then
      registerVariable circuits request record answers.endpoint now
    else none
  match registered with
  | none =>
    if config.replyLost request then (circuits, .failed .rejected)
    else (circuits, .rejecting records)
  | some (installed, entry) =>
    let removed := installed.step (.removeCircuit entry.token)
    match sealVariableBuildReply config.crypto processed.keys answers.acceptRandom 0 with
    | none => (removed, .failed .external)
    | some reply =>
      if config.replyLost request then (removed, .failed .rejected)
      else (installed, .accepting (records.set processed.slot reply) entry)

def handleVariableTransit (state : VariableTransitState) (id : UInt32) (payload : Bytes)
    (answers : VariableAnswers) (now : UInt64) : VariableTransitState × TransitOutcome :=
  if config.manager.localHash = FixedBytes.zero 32 then (state, .failed .config)
  else
    match parseVariableBuildRecords payload with
    | none => (state, .failed .malformed)
    | some records =>
      let reservation := state.manager.reserveTransit config.manager id
        (config.manager.sha256 payload) now
      let state := { state with manager := reservation.1 }
      if !reservation.2 then (state, .failed .transit)
      else
        match config.hop with
        | none => (state, .failed .config)
        | some hop =>
          match processVariableBuildRecords config.crypto hop false answers.random records with
          | none => (state, .failed .record)
          | some (processed, relayed) =>
            let record := records.getD processed.slot (FixedBytes.zero _)
            let answered := config.answerVariable state.circuits hop.kind processed record
              relayed answers now
            ({ state with circuits := answered.1 }, answered.2)

end VariableConfig

/-- A manager with the messages it is sending on. `installed` has the generations it has ever
registered, and `accepted` the records it has accepted and answered. -/
structure VariableTransitRun where
  state : VariableTransitState
  clock : UInt64
  sending : List AcceptedRecord
  installed : List Nat
  accepted : List AcceptedRecord

/-- What can happen. The reservations are shared with the short builds, and the runtime with
everything else that uses circuits. -/
inductive VariableTransitEvent where
  | build (id : UInt32) (payload : Bytes) (answers : VariableAnswers)
  /-- The send of a message with an acceptance returns. -/
  | sent (generation : Nat) (delivered : Bool)
  | reservations (manager : TransitState)
  | circuits (action : CircuitAction)

structure VariableTransitStep where
  now : UInt64
  event : VariableTransitEvent

/-- The clock of an expiry is not ahead. -/
def CircuitAction.timely (now : UInt64) : CircuitAction → Bool
  | .expire nowMillis _ => nowMillis ≤ now
  | _ => true

/-- Others have no token of the manager's circuits, and their clock is the same. -/
def CircuitAction.Foreign (installed : List Nat) (now : UInt64) (action : CircuitAction) : Prop :=
  (∀ token ∈ action.token, ∀ generation ∈ token.generation, generation ∉ installed) ∧
    action.timely now = true

instance (installed : List Nat) (now : UInt64) (action : CircuitAction) :
    Decidable (action.Foreign installed now) :=
  inferInstanceAs (Decidable (_ ∧ _))

namespace VariableTransitRun

def start : VariableTransitRun where
  state := ⟨TransitState.empty, CircuitRun.initial⟩
  clock := 0
  sending := []
  installed := []
  accepted := []

/-- The end of `handleVariableTransit`: the message was answered, or its circuit goes. -/
def finish (run : VariableTransitRun) (entry : AcceptedRecord) (delivered : Bool) :
    VariableTransitRun :=
  let run := { run with sending := run.sending.filter (·.generation ≠ entry.generation) }
  if delivered then { run with accepted := entry :: run.accepted }
  else
    { run with state := { run.state with
        circuits := run.state.circuits.step (.removeCircuit entry.token) } }

/-- A message has been prepared. -/
def begin (run : VariableTransitRun) (outcome : VariableTransitState × TransitOutcome) :
    VariableTransitRun :=
  match outcome with
  | (state, .accepting _ entry) =>
    { run with state, sending := entry :: run.sending
               installed := entry.generation :: run.installed }
  | (state, _) => { run with state }

def step (config : VariableConfig) (run : VariableTransitRun) (input : VariableTransitStep) :
    VariableTransitRun :=
  let run := { run with clock := input.now }
  match input.event with
  | .build id payload answers =>
    run.begin (config.handleVariableTransit run.state id payload answers input.now)
  | .sent generation delivered =>
    match run.sending.find? (·.generation = generation) with
    | none => run
    | some entry => run.finish entry delivered
  | .reservations manager => { run with state := { run.state with manager } }
  | .circuits action =>
    if action.Foreign run.installed input.now then
      { run with state := { run.state with circuits := run.state.circuits.step action } }
    else run

end VariableTransitRun

end Ivnp.Tunnel
