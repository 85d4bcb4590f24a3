import Ivnp.Lib.Run
import Ivnp.Lib.Table
import Ivnp.Tunnel.ShortBuild

/-!
A `BuildManager` as a transit hop of short tunnel builds: the replay state
behind `reserveTransit`, the circuits of its runtime, and `handleTransit` from
the received payload to the reply it seals. What other components answer
(admission, bandwidth, ciphers, the random source, the sender) is given with
each message.
-/

namespace Ivnp.Tunnel

open Ivnp.Lib

def shortBuildPastSkew : UInt64 := 8 * 60000
def shortBuildFutureSkew : UInt64 := 5 * 60000
def shortBuildReplayLifetime : UInt64 := 10 * 60000

structure BuildSource where
  router : Hash
  direct : Bool

/-- The errors of `handleTransit`; `external` is an error of another component
that it returns unchanged. -/
inductive BuildError where
  | config
  | malformed
  | transit
  | rejected
  | record
  | external
  deriving DecidableEq, Repr

/-- The fields of a `BuildManager` that never change while it handles builds.
`decrypt` is the AEAD of `decryptShortBuildRequestWithPrivate`. -/
structure TransitConfig where
  localHash : Hash
  staticPrivateKey : Bool
  maxPending : Nat
  replySender : Bool
  localDelivery : Bool
  sha256 : Bytes → Hash
  decrypt : Bytes → Option Bytes
  parseOptions : Bytes → Bool → Option ShortBuildOptions

/-- The decrypted request of one record. `hasGarlicKeys` is the key material
that `deriveShortBuildKeys` adds for an endpoint. -/
structure OpenedRequest where
  request : ShortBuildRequest
  hasGarlicKeys : Bool

namespace TransitConfig

variable (config : TransitConfig)

def openRequest (record : Bytes) : Option OpenedRequest := do
  let plaintext ← config.decrypt record
  let request ← parseShortBuildRequest config.parseOptions plaintext
  return ⟨request, plaintext.getD shortBuildFlagOffset 0 &&& shortBuildEndpointFlag ≠ 0⟩

def validTransitRequest (opened : OpenedRequest) (now : UInt64) (source : BuildSource) : Bool :=
  let request := opened.request
  let requestTime := request.requestMinutes.toUInt64 * 60000
  let roundedNow := now - now % 60000
  if !source.direct ∨ source.router = FixedBytes.zero 32 ∨ source.router = config.localHash ∨
      (!request.gateway ∧ !request.endpoint ∧ request.nextRouter = source.router) then
    false
  else if request.lifetimeSeconds ≠ shortBuildLifetime ∨ request.receiveTunnelID = 0 ∨
      request.nextTunnelID = 0 ∨ request.nextMessageID = 0 ∨
      request.nextRouter = FixedBytes.zero 32 ∨
      (!request.endpoint ∧ request.nextRouter = config.localHash) ∨
      request.receiveTunnelID = request.nextTunnelID then
    false
  else if requestTime > roundedNow + shortBuildFutureSkew ∨
      requestTime + shortBuildPastSkew < roundedNow then
    false
  else if !validShortBuildOptions request.bandwidth request.gateway then false
  else !request.endpoint ∨ (config.replySender ∧ config.localDelivery ∧ opened.hasGarlicKeys)

def ownRecord (payload : Bytes) : Except BuildError (Nat × Bytes) :=
  match parseShortBuildRecords payload with
  | none => .error .malformed
  | some records =>
    match findSlot config.localHash 0 none records with
    | none => .error .transit
    | some found => .ok found

end TransitConfig

/-- The deadlines of the message IDs and record hashes in use, and the expiry
of every circuit of the runtime. -/
structure TransitState where
  transit : Table UInt32 UInt64
  transitRecords : Table Hash UInt64
  circuits : Table UInt32 UInt64

def deadlinePassed (deadline now : UInt64) : Bool := deadline ≤ now

namespace TransitState

def empty : TransitState := ⟨∅, ∅, ∅⟩

/-- The part of `BuildManager.Expire` that `reserveTransit` also runs. -/
def expire (state : TransitState) (now : UInt64) : TransitState :=
  { state with
    transit := state.transit.prune deadlinePassed now
    transitRecords := state.transitRecords.prune deadlinePassed now }

def reserveTransit (config : TransitConfig) (state : TransitState) (id : UInt32)
    (recordHash : Hash) (now : UInt64) : TransitState × Bool :=
  if id = 0 then (state, false)
  else
    let state := state.expire now
    if (state.transit.lookup id).isSome then (state, false)
    else if (state.transitRecords.lookup recordHash).isSome ∨
        state.transitRecords.entries.length ≥ config.maxPending then
      (state, false)
    else
      ({ state with
         transit := state.transit.insert id (now + buildMessageLifetime)
         transitRecords :=
           state.transitRecords.insert recordHash (now + shortBuildReplayLifetime) }, true)

def releaseTransit (state : TransitState) (id : UInt32) (recordHash : Hash) : TransitState :=
  { state with
    transit := state.transit.erase id
    transitRecords := state.transitRecords.erase recordHash }

def expireCircuits (state : TransitState) (now : UInt64) : TransitState :=
  { state with circuits := state.circuits.keep fun _ expiresAt => !(expiresAt ≠ 0 ∧ expiresAt ≤ now) }

end TransitState

/-- What the other components answer while one message is handled. -/
structure TransitAnswers where
  available : UInt32
  admits : Bool
  cipher : Bool
  random : Bool
  delivered : Bool

structure SealedReply where
  slot : Nat
  record : Bytes
  code : UInt8
  deriving DecidableEq

structure TransitResult where
  state : TransitState
  error : Option BuildError
  sealed : Option SealedReply

namespace TransitConfig

/-- `installTransitCircuit` with the registration it ends in. -/
def installTransitCircuit (state : TransitState) (request : ShortBuildRequest)
    (answers : TransitAnswers) (now : UInt64) : Option TransitState :=
  let expiresAt := now + request.lifetimeSeconds.toUInt64 * 1000
  if expiresAt < now ∨ !answers.cipher then none
  else if request.receiveTunnelID = 0 ∨ (!request.endpoint ∧ request.nextTunnelID = 0) then none
  else if expiresAt ≠ 0 ∧ expiresAt ≤ now then none
  else if (state.circuits.lookup request.receiveTunnelID).isSome then none
  else some { state with circuits := state.circuits.insert request.receiveTunnelID expiresAt }

def admitTransit (state : TransitState) (request : ShortBuildRequest)
    (answers : TransitAnswers) (now : UInt64) : Option TransitState :=
  let options := request.bandwidth
  let needsBandwidth : Bool := options.minimum ≠ 0 ∨ options.requested ≠ 0
  let available := if needsBandwidth then answers.available else 0
  if (!needsBandwidth ∨ (available ≠ 0 ∧ available ≥ options.minimum)) ∧ answers.admits then
    installTransitCircuit state request answers now
  else none

variable (config : TransitConfig)

/-- The end of `handleTransit`, from the admission on. A circuit that was
installed is removed again when the message is not answered without error. -/
def answer (state : TransitState) (opened : OpenedRequest) (slot : Nat) (record : Bytes)
    (answers : TransitAnswers) (now : UInt64) : TransitResult :=
  let request := opened.request
  let installed := admitTransit state request answers now
  if !answers.random then ⟨state, some .external, none⟩
  else
    let sealed := some ⟨slot, record, if installed.isSome then 0 else 30⟩
    if request.endpoint ∧ !(config.replySender ∧ request.nextRouter ≠ FixedBytes.zero 32 ∧
        request.nextTunnelID ≠ 0 ∧
        (request.nextRouter = config.localHash ∨ opened.hasGarlicKeys)) then
      ⟨state, some .rejected, sealed⟩
    else if !answers.delivered then ⟨state, some .external, sealed⟩
    else
      match installed with
      | none => ⟨state, some .rejected, sealed⟩
      | some next => ⟨next, none, sealed⟩

def handleTransit (state : TransitState) (source : BuildSource) (id : UInt32) (payload : Bytes)
    (answers : TransitAnswers) (now : UInt64) : TransitResult :=
  if config.localHash = FixedBytes.zero 32 ∨ !config.staticPrivateKey then
    ⟨state, some .config, none⟩
  else
    match config.ownRecord payload with
    | .error error => ⟨state, some error, none⟩
    | .ok (slot, record) =>
      match config.openRequest record with
      | none => ⟨state, some .record, none⟩
      | some opened =>
        if !config.validTransitRequest opened now source then ⟨state, some .rejected, none⟩
        else
          let recordHash := config.sha256 record
          let reservation := state.reserveTransit config id recordHash now
          if !reservation.2 then ⟨reservation.1, some .transit, none⟩
          else if (reservation.1.circuits.lookup opened.request.receiveTunnelID).isSome then
            ⟨reservation.1.releaseTransit id recordHash, some .rejected, none⟩
          else config.answer reservation.1 opened slot record answers now

end TransitConfig

/-- What can happen to the manager and its runtime. Other owners of the
runtime change its circuits at will. -/
inductive TransitEvent where
  | build (source : BuildSource) (id : UInt32) (payload : Bytes) (answers : TransitAnswers)
  | expire
  | expireCircuits
  | otherCircuits (circuits : Table UInt32 UInt64)

structure TransitStep where
  now : UInt64
  event : TransitEvent

/-- A manager, the time of its last step and the replies it has sealed, latest
first. -/
structure TransitRun where
  state : TransitState
  clock : UInt64
  sealed : List SealedReply

namespace TransitRun

def start : TransitRun := ⟨TransitState.empty, 0, []⟩

def step (config : TransitConfig) (run : TransitRun) (input : TransitStep) : TransitRun :=
  match input.event with
  | .build source id payload answers =>
    let result := config.handleTransit run.state source id payload answers input.now
    ⟨result.state, input.now, result.sealed.toList ++ run.sealed⟩
  | .expire => ⟨run.state.expire input.now, input.now, run.sealed⟩
  | .expireCircuits => ⟨run.state.expireCircuits input.now, input.now, run.sealed⟩
  | .otherCircuits circuits => ⟨{ run.state with circuits }, input.now, run.sealed⟩

end TransitRun

end Ivnp.Tunnel
