import Ivnp.Lib.Run
import Ivnp.Lib.Table
import Ivnp.Ssu2.RelayBlocks

/-!
Introductions in the SSU2 manager (`ssu2_introduction.go`), as an introducer forwards requests
and as the introduced router answers them. A receive worker owns its buffer until the packet is
handled; the next datagram overwrites it. Requests that wait for a store worker and intros that
wait for their timer refer to their signature in the buffer they came in.
-/

namespace Ivnp.Router

open Ivnp.Lib Ivnp.Ssu2

/-- The receive buffers. -/
abbrev Storage := Nat → Bytes

/-- A slice of a receive buffer. -/
structure View where
  buffer : Nat
  start : Nat
  stop : Nat
  deriving DecidableEq

def View.read (storage : Storage) (view : View) : Bytes :=
  ((storage view.buffer).take view.stop).drop view.start

structure BlockPlace where
  buffer : Nat
  offset : Nat
  length : Nat
  deriving DecidableEq

namespace BlockPlace

def data (place : BlockPlace) (storage : Storage) : Bytes :=
  ((storage place.buffer).drop place.offset).take place.length

def view (place : BlockPlace) (storage : Storage) (start : Nat) : View :=
  ⟨place.buffer, place.offset + start, place.offset + (place.data storage).length⟩

end BlockPlace

structure SessionRef where
  id : Nat
  peer : FixedBytes 32
  deriving DecidableEq

structure RelayForward where
  alice : SessionRef
  charlie : SessionRef
  expires : Nat

structure RelayStoreJob where
  request : RelayRequest View
  alice : SessionRef
  charlie : SessionRef

structure DeferredRelayIntro where
  bob : SessionRef
  intro : RelayIntro View
  attempt : UInt8
  expires : Nat

inductive RelayReject where
  | tagNotFound
  | limit
  | signature
  | unsupported
  | aliceUnknown
  | generalFailure
  deriving DecidableEq

def RelayReject.code : RelayReject → UInt8
  | tagNotFound => 5
  | limit => 3
  | signature => 67
  | unsupported => 65
  | aliceUnknown => 70
  | generalFailure => 64

/-- What the manager does, as far as it can be seen or is checked. -/
inductive RelayEvent where
  | requestVerified (alice charlie : SessionRef) (request : RelayRequest Bytes)
  | introSent (charlie : SessionRef) (block : Bytes)
  | introReceived (bob : SessionRef) (intro : RelayIntro Bytes)
  | introVerified (bob : SessionRef) (intro : RelayIntro Bytes)
  | responded (session : SessionRef) (nonce : UInt32) (code : UInt8)
  deriving DecidableEq

/-- What a step finds outside of the introductions, and which of its sends succeed. -/
structure RelaySetting (Info : Type) where
  localHash : Option (FixedBytes 32)
  introducer : UInt32 → Option (FixedBytes 32)
  session : FixedBytes 32 → Option SessionRef
  sessionActive : SessionRef → Bool
  routerInfo : FixedBytes 32 → Option Info
  verify : Info → Bytes → Bytes → Bool
  timestampValid : UInt32 → Bool
  running : Bool
  queueRoom : Bool
  maxPending : Nat
  expires : Nat
  storeSent : Bool
  introTaken : Bool
  endpointKnown : Bool
  keysKnown : Bool
  tokenIssued : Bool
  responseSent : Bool

/-- The state of the introductions, with what has happened, latest first. -/
structure RelayNode where
  storage : Storage
  owned : List Nat
  forwards : Table UInt32 RelayForward
  jobs : List RelayStoreJob
  working : List RelayStoreJob
  deferred : Table UInt32 DeferredRelayIntro
  timers : List UInt32
  log : List RelayEvent

namespace RelayNode

def start (storage : Storage) : RelayNode := ⟨storage, [], ∅, [], [], ∅, [], []⟩

def note (node : RelayNode) (event : RelayEvent) : RelayNode :=
  { node with log := event :: node.log }

def reject (node : RelayNode) (session : SessionRef) (nonce : UInt32) (reason : RelayReject) :
    RelayNode :=
  node.note (.responded session nonce reason.code)

def readRequest (node : RelayNode) (request : RelayRequest View) : RelayRequest Bytes :=
  request.mapSignature (·.read node.storage)

def readIntro (node : RelayNode) (intro : RelayIntro View) : RelayIntro Bytes :=
  intro.mapSignature (·.read node.storage)

variable {Info : Type} (setting : RelaySetting Info)

def forwardActive (node : RelayNode) (job : RelayStoreJob) : Bool :=
  (node.forwards.lookup job.request.nonce).any fun forward =>
    forward.alice = job.alice ∧ forward.charlie = job.charlie

def failRelayForward (node : RelayNode) (job : RelayStoreJob) : RelayNode :=
  if node.forwardActive job then
    ({ node with forwards := node.forwards.erase job.request.nonce }).reject job.alice
      job.request.nonce .generalFailure
  else node

def introduced (tag : UInt32) : Option (FixedBytes 32 × SessionRef) := do
  let charliePeer ← setting.introducer tag
  let charlie ← setting.session charliePeer
  if setting.sessionActive charlie then some (charliePeer, charlie) else none

def verifyRelayRequest (node : RelayNode) (bobHash charlieHash aliceHash : FixedBytes 32)
    (request : RelayRequest View) : Bool :=
  match setting.routerInfo aliceHash, relayRequestSignatureInput bobHash charlieHash request with
  | some info, some input => setting.verify info input (request.signature.read node.storage)
  | _, _ => false

/-- The end of `handleRelayRequest`, with a request that has been verified. -/
def queueRelayRequest (node : RelayNode) (alice charlie : SessionRef)
    (request : RelayRequest View) : RelayNode :=
  if (node.forwards.lookup request.nonce).isSome then node
  else if node.forwards.entries.length ≥ setting.maxPending then
    node.reject alice request.nonce .limit
  else if ¬setting.running then node.reject alice request.nonce .generalFailure
  else
    let job : RelayStoreJob := ⟨request, alice, charlie⟩
    let forwarding := { node with
      forwards := node.forwards.insert request.nonce ⟨alice, charlie, setting.expires⟩ }
    if setting.queueRoom then { forwarding with jobs := forwarding.jobs ++ [job] }
    else forwarding.failRelayForward job

def handleRelayRequest (node : RelayNode) (alice : SessionRef) (request : RelayRequest View) :
    RelayNode :=
  match setting.localHash with
  | none => node
  | some localHash =>
    match introduced setting request.relayTag with
    | none => node.reject alice request.nonce .tagNotFound
    | some (charliePeer, charlie) =>
      if ¬setting.timestampValid request.timestamp ∨
          ¬node.verifyRelayRequest setting localHash charliePeer alice.peer request then
        node.reject alice request.nonce .signature
      else
        (node.note (.requestVerified alice charlie
          (node.readRequest request))).queueRelayRequest setting alice charlie request

def sendRelayIntro (node : RelayNode) (job : RelayStoreJob) : RelayNode :=
  if ¬setting.storeSent then node.failRelayForward job
  else
    match marshalRelayIntro ⟨job.alice.peer, node.readRequest job.request⟩ with
    | none => node.failRelayForward job
    | some block =>
      if setting.introTaken then node.note (.introSent job.charlie block)
      else node.failRelayForward job

/-- `processRelayIntro` after the signature. -/
def answerRelayIntro (node : RelayNode) (bob : SessionRef) (nonce : UInt32) : RelayNode :=
  if ¬setting.endpointKnown then node.reject bob nonce .unsupported
  else if ¬setting.keysKnown then node.reject bob nonce .aliceUnknown
  else if ¬setting.tokenIssued then node.reject bob nonce .generalFailure
  else if setting.responseSent then node.note (.responded bob nonce 0)
  else node

def processRelayIntro (node : RelayNode) (localHash : FixedBytes 32) (bob : SessionRef)
    (intro : RelayIntro View) : RelayNode :=
  if node.verifyRelayRequest setting bob.peer localHash intro.aliceHash intro.request then
    (node.note (.introVerified bob (node.readIntro intro))).answerRelayIntro setting bob
      intro.request.nonce
  else node.reject bob intro.request.nonce .signature

def deferRelayIntro (node : RelayNode) (bob : SessionRef) (intro : RelayIntro View)
    (attempt : UInt8) : Option RelayNode :=
  if ¬setting.running ∨ node.deferred.entries.length ≥ setting.maxPending then none
  else if (node.deferred.lookup intro.request.nonce).isSome then some node
  else
    some { node with
      deferred := node.deferred.insert intro.request.nonce ⟨bob, intro, attempt, setting.expires⟩
      timers := intro.request.nonce :: node.timers }

def handleRelayIntroAttempt (node : RelayNode) (bob : SessionRef) (intro : RelayIntro View)
    (attempt : UInt8) : RelayNode :=
  match setting.localHash with
  | none => node
  | some localHash =>
    if (setting.routerInfo intro.aliceHash).isSome then
      if setting.timestampValid intro.request.timestamp then
        node.processRelayIntro setting localHash bob intro
      else node.reject bob intro.request.nonce .aliceUnknown
    else if attempt < 3 then
      (node.deferRelayIntro setting bob intro attempt).getD
        (node.reject bob intro.request.nonce .aliceUnknown)
    else node.reject bob intro.request.nonce .aliceUnknown

def fireTimer (node : RelayNode) (nonce : UInt32) : RelayNode :=
  match node.deferred.lookup nonce with
  | none => node
  | some deferred =>
    ({ node with deferred := node.deferred.erase nonce }).handleRelayIntroAttempt setting
      deferred.bob deferred.intro (deferred.attempt + 1)

def expireIntroductions (node : RelayNode) (now : Nat) : RelayNode :=
  { node with
    forwards := node.forwards.keep fun _ forward => now < forward.expires
    deferred := node.deferred.keep fun _ deferred => now < deferred.expires }

end RelayNode

/-- A step of some goroutine: the read loop, a receive worker, a store worker, a timer or the
cleanup. -/
inductive RelayInput (Info : Type) where
  | receive (buffer : Nat) (packet : Bytes)
  | request (place : BlockPlace) (alice : SessionRef) (setting : RelaySetting Info)
  | intro (place : BlockPlace) (bob : SessionRef) (setting : RelaySetting Info)
  | done (buffer : Nat)
  | take (index : Nat)
  | send (index : Nat) (setting : RelaySetting Info)
  | fire (nonce : UInt32) (setting : RelaySetting Info)
  | expire (now : Nat)

namespace RelayNode

variable {Info : Type}

def requestBlock (node : RelayNode) (place : BlockPlace) (alice : SessionRef)
    (setting : RelaySetting Info) : RelayNode :=
  if place.buffer ∈ node.owned then
    match parseRelayRequestBlock (place.data node.storage) with
    | none => node
    | some request =>
      node.handleRelayRequest setting alice (request.mapSignature (place.view node.storage))
  else node

def introBlock (node : RelayNode) (place : BlockPlace) (bob : SessionRef)
    (setting : RelaySetting Info) : RelayNode :=
  if place.buffer ∈ node.owned then
    match parseRelayIntroBlock (place.data node.storage) with
    | none => node
    | some intro =>
      (node.note (.introReceived bob (intro.mapSignature
        ((place.data node.storage).drop ·)))).handleRelayIntroAttempt setting bob
          (intro.mapSignature (place.view node.storage)) 0
  else node

/-- The read loop puts a datagram into a buffer that no worker owns. -/
def receiveInto (node : RelayNode) (buffer : Nat) (packet : Bytes) : RelayNode :=
  if buffer ∈ node.owned then node
  else { node with
    storage := Function.update node.storage buffer packet
    owned := buffer :: node.owned }

/-- A store worker takes a job, and drops it if its forward is gone. -/
def takeJob (node : RelayNode) (index : Nat) : RelayNode :=
  match node.jobs[index]? with
  | none => node
  | some job =>
    if node.forwardActive job then
      { node with jobs := node.jobs.eraseIdx index, working := job :: node.working }
    else { node with jobs := node.jobs.eraseIdx index }

def sendJob (node : RelayNode) (index : Nat) (setting : RelaySetting Info) : RelayNode :=
  match node.working[index]? with
  | none => node
  | some job => ({ node with working := node.working.eraseIdx index }).sendRelayIntro setting job

def fire (node : RelayNode) (nonce : UInt32) (setting : RelaySetting Info) : RelayNode :=
  if nonce ∈ node.timers then
    ({ node with timers := node.timers.erase nonce }).fireTimer setting nonce
  else node

def step (node : RelayNode) : RelayInput Info → RelayNode
  | .receive buffer packet => node.receiveInto buffer packet
  | .request place alice setting => node.requestBlock place alice setting
  | .intro place bob setting => node.introBlock place bob setting
  | .done buffer => { node with owned := node.owned.erase buffer }
  | .take index => node.takeJob index
  | .send index setting => node.sendJob index setting
  | .fire nonce setting => node.fire nonce setting
  | .expire now => node.expireIntroductions now

def after (storage : Storage) (inputs : List (RelayInput Info)) : RelayNode :=
  run step (start storage) inputs

end RelayNode

end Ivnp.Router
