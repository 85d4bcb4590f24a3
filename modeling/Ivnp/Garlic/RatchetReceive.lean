import Ivnp.Lib.Bytes
import Ivnp.Lib.Run
import Ivnp.Lib.Table

/-!
The receiving side of one ECIES ratchet manager, as far as New Sessions go:
the dispatch of a packet by its first bytes, the replay table, the timestamp
check and the lazy expiry of `checkLocked`. The established sessions and their
tags are a layer of their own, of which this part sees which tags are in use
and the expiry times it reports. The handshake cryptography is a parameter,
run with the caller's fixed scratch buffers.
-/

namespace Ivnp.Garlic

open Ivnp.Lib

abbrev Tag := FixedBytes 8
abbrev Ephemeral := FixedBytes 32

def ratchetDateTime : UInt8 := 0
def ratchetTagLen : Nat := 8
def chaChaTagSize : Nat := 16
def defaultReplayLife : UInt64 := 5 * 60 * 1000

/-- `ErrRatchet` and its siblings; `handshake` is an error of the handshake. -/
inductive RatchetError where
  | ratchet
  | closed
  | replay
  | expired
  | handshake
  deriving DecidableEq, Repr

structure RatchetConfig where
  cryptoTypes : List UInt16
  replayLifetime : UInt64

/-- The defaults and checks of `newRatchetManager` for the two fields. -/
def RatchetConfig.normalize (config : RatchetConfig) : Except RatchetError RatchetConfig :=
  let cryptoTypes := if config.cryptoTypes = [] then [7, 6, 4] else config.cryptoTypes
  if cryptoTypes.length > 3 ∨ ¬ cryptoTypes.all (fun t => t = 4 ∨ t = 6 ∨ t = 7) ∨
      ¬ cryptoTypes.Nodup then
    .error .ratchet
  else
    .ok { cryptoTypes
          replayLifetime :=
            if config.replayLifetime = 0 then defaultReplayLife else config.replayLifetime }

structure NewSession where
  payload : Bytes
  bound : Bool

/-- What an operation on the sessions leaves behind: the expiry times it passed
to `noteExpiryLocked` and whether it terminated a session. -/
structure LayerResult (S : Type) where
  sessions : S
  notes : List UInt64
  terminated : Bool

/-- The sessions, tags and unfinished handshakes of a manager. `sweep` is their
part of `checkLocked`, with the earliest expiry that is left. -/
structure SessionLayer (S Op : Type) where
  hasInbound : S → Tag → Bool
  hasPending : S → Tag → Bool
  sweep : S → UInt64 → S × UInt64
  receiveExisting : S → Bytes → UInt64 → LayerResult S
  receiveReply : S → Bytes → UInt64 → LayerResult S
  perform : S → Op → UInt64 → LayerResult S

structure RatchetManager (S : Type) where
  closed : Bool
  sessions : S
  replays : Table Ephemeral UInt64
  nextExpiry : UInt64
  hasTerminated : Bool

/-- The parameters of a manager: its configuration, its session layer and
`ParseNewSession` for each crypto type. -/
structure RatchetSetup (S Op : Type) where
  config : RatchetConfig
  layer : SessionLayer S Op
  parseNewSession : UInt16 → Bytes → Option NewSession

def expiryPassed (expiry now : UInt64) : Bool := expiry < now

def newPayloadTimestamp (payload : Bytes) : UInt64 := UInt64.ofNat (beNat ((payload.drop 3).take 4))

def validateNewPayload (payload : Bytes) (now : UInt64) : Except RatchetError Bytes :=
  if payload.length < 7 ∨ payload.getD 0 0 ≠ ratchetDateTime ∨
      beNat ((payload.drop 1).take 2) ≠ 4 then
    .error .ratchet
  else
    let timestamp := newPayloadTimestamp payload
    let seconds := now / 1000
    if timestamp + 300 < seconds ∨ timestamp > seconds + 120 then .error .expired
    else .ok (payload.drop 7)

namespace RatchetManager

variable {S Op : Type}

def noteExpiry (manager : RatchetManager S) (expires : UInt64) : RatchetManager S :=
  if expires < manager.nextExpiry then { manager with nextExpiry := expires } else manager

/-- Takes over what an operation on the sessions leaves behind. -/
def absorb (manager : RatchetManager S) (result : LayerResult S) : RatchetManager S :=
  result.notes.foldl noteExpiry
    { manager with
      sessions := result.sessions
      hasTerminated := manager.hasTerminated || result.terminated }

variable (setup : RatchetSetup S Op)

/-- `checkLocked`: the sweep runs only when something may have expired. -/
def check (manager : RatchetManager S) (now : UInt64) : Except RatchetError (RatchetManager S) :=
  if manager.closed then .error .closed
  else if !manager.hasTerminated ∧ now ≤ manager.nextExpiry then .ok manager
  else
    let replays := manager.replays.prune expiryPassed now
    let swept := setup.layer.sweep manager.sessions now
    .ok { manager with
          replays
          sessions := swept.1
          nextExpiry := replays.entries.foldl (fun least entry => min least entry.2) swept.2
          hasTerminated := false }

def authenticate (packet : Bytes) : Option NewSession :=
  setup.config.cryptoTypes.findSome? fun cryptoType => setup.parseNewSession cryptoType packet

/-- `receiveNewLocked`. `replyCreated` says whether the reply and the session
of a bound New Session can be derived. -/
def receiveNew (manager : RatchetManager S) (packet : Bytes) (replyCreated : Bool)
    (now : UInt64) : RatchetManager S × Except RatchetError Bytes :=
  if packet.length < 32 then (manager, .error .ratchet)
  else
    let ephemeral := FixedBytes.copy 32 packet
    if (manager.replays.lookup ephemeral).any (fun expiry => expiry ≥ now) then
      (manager, .error .replay)
    else
      match authenticate setup packet with
      | none => (manager, .error .handshake)
      | some session =>
        match validateNewPayload session.payload now with
        | .error error => (manager, .error error)
        | .ok application =>
          if session.bound ∧ !replyCreated then (manager, .error .handshake)
          else
            let replayExpiry := now + setup.config.replayLifetime
            (noteExpiry
              { manager with replays := manager.replays.insert ephemeral replayExpiry }
              replayExpiry, .ok application)

/-- What `Receive` returns: a packet of the session layer, or the application
payload of a New Session. -/
inductive Received where
  | session
  | newSession (application : Bytes)

def receive (manager : RatchetManager S) (packet : Bytes) (replyCreated : Bool) (now : UInt64) :
    RatchetManager S × Except RatchetError Received :=
  match manager.check setup now with
  | .error error => (manager, .error error)
  | .ok manager =>
    if packet.length < ratchetTagLen + chaChaTagSize then (manager, .error .ratchet)
    else
      let tag := FixedBytes.copy ratchetTagLen packet
      if setup.layer.hasInbound manager.sessions tag then
        (manager.absorb (setup.layer.receiveExisting manager.sessions packet now), .ok .session)
      else if setup.layer.hasPending manager.sessions tag then
        (manager.absorb (setup.layer.receiveReply manager.sessions packet now), .ok .session)
      else
        let result := manager.receiveNew setup packet replyCreated now
        (result.1, result.2.map Received.newSession)

end RatchetManager

end Ivnp.Garlic
