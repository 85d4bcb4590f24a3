import Ivnp.Lib.Run
import Ivnp.Lib.Table
import Ivnp.Tunnel.DataPath

/-!
The circuits of a tunnel runtime. An installation is an object of its own, known by
its number, its generation; the two tables say which installation a tunnel ID has. The
registry holds one reference to each installation in a table, and every packet on its
way through an installation holds one. The last to let go clears the keys.

What the source does under the lock of a shard is one step here. A replacement lets go
of the old installation after the lock, which is a step of its own.
-/

namespace Ivnp.Tunnel

open Ivnp.Lib

def circuitShards : UInt32 := 64

def shardOf (id : UInt32) : UInt32 := id &&& (circuitShards - 1)

inductive Direction where
  | inbound
  | outbound
  deriving DecidableEq

def Direction.other : Direction → Direction
  | inbound => outbound
  | outbound => inbound

namespace Circuit

def direction : Circuit → Direction
  | outbound _ => .outbound
  | inbound _ => .inbound

def id : Circuit → UInt32
  | outbound circuit => circuit.id
  | inbound circuit => circuit.id

def owner : Circuit → Hash
  | outbound circuit => circuit.owner
  | inbound circuit => circuit.owner

def expiresAt : Circuit → UInt64
  | outbound circuit => circuit.expiresAt
  | inbound circuit => circuit.expiresAt

def endpoint : Circuit → Option EndpointRef
  | outbound _ => none
  | inbound circuit => circuit.endpoint

end Circuit

/-- An installed circuit, with the count of its references. -/
structure Installation where
  circuit : Circuit
  transforms : List LayerCipher
  endpoint : Option EndpointRef
  refs : Int

/-- A token without a generation is the zero token. -/
structure CircuitToken where
  id : UInt32
  generation : Option Nat
  deriving DecidableEq

inductive CircuitError where
  | circuitID
  | circuitDirection
  | circuitExpired
  | circuitNotFound
  | circuitOwner
  | circuitExists
  deriving DecidableEq

/-- The runtime, its installations in the order of their numbers, and the endpoints that
were ever installed. -/
structure Runtime where
  tables : Direction → Table UInt32 Nat
  heap : List Installation
  endpoints : List EndpointRef

def expired (expiresAt now : UInt64) : Bool := expiresAt ≠ 0 ∧ expiresAt ≤ now

namespace Runtime

def new : Runtime where
  tables _ := ∅
  heap := []
  endpoints := []

def setTable (runtime : Runtime) (direction : Direction) (table : Table UInt32 Nat) : Runtime :=
  { runtime with tables := Function.update runtime.tables direction table }

/-- The part of both install functions that decides about the ID. -/
def admits (runtime : Runtime) (circuit : Circuit) (previous : CircuitToken) :
    Except CircuitError Unit :=
  let old := (runtime.tables circuit.direction).lookup circuit.id
  match previous.generation with
  | some generation =>
    if old ≠ some generation then .error .circuitNotFound
    else if (runtime.heap[generation]?.map (·.circuit.owner)) ≠ some circuit.owner then
      .error .circuitOwner
    else .ok ()
  | none =>
    if old.isSome ∨ ((runtime.tables circuit.direction.other).lookup circuit.id).isSome then
      .error .circuitExists
    else .ok ()

/-- The rest of them: the endpoint is marked, and the installation takes its place in the
table with the reference of the registry. -/
def place (runtime : Runtime) (circuit : Circuit) : Except CircuitError Runtime :=
  if circuit.endpoint.any (· ∈ runtime.endpoints) then .error .circuitExists
  else
    let installed := ⟨circuit, circuit.transforms, circuit.endpoint, 1⟩
    .ok {
      tables := Function.update runtime.tables circuit.direction
        ((runtime.tables circuit.direction).insert circuit.id runtime.heap.length)
      heap := runtime.heap ++ [installed]
      endpoints := circuit.endpoint.toList ++ runtime.endpoints }

/-- The critical section of both install functions. -/
def install (runtime : Runtime) (now : UInt64) (circuit : Circuit) (previous : CircuitToken) :
    Except CircuitError Runtime :=
  if expired circuit.expiresAt now then .error .circuitExpired
  else (runtime.admits circuit previous).bind fun _ => runtime.place circuit

def installOutbound (runtime : Runtime) (now : UInt64) (circuit : OutboundCircuit)
    (previous : CircuitToken) : Except CircuitError Runtime :=
  if circuit.id = 0 ∨ circuit.nextTunnelID = 0 then .error .circuitID
  else runtime.install now (.outbound circuit) previous

def installInbound (runtime : Runtime) (now : UInt64) (circuit : InboundCircuit)
    (previous : CircuitToken) : Except CircuitError Runtime :=
  if circuit.id = 0 then .error .circuitID
  else if circuit.forward.isNone = circuit.endpoint.isNone then .error .circuitDirection
  else if circuit.forward.any (·.tunnelID = 0) then .error .circuitID
  else runtime.install now (.inbound circuit) previous

def registerOutbound (runtime : Runtime) (now : UInt64) (circuit : OutboundCircuit) :
    Except CircuitError Runtime :=
  runtime.installOutbound now circuit ⟨0, none⟩

def registerInbound (runtime : Runtime) (now : UInt64) (circuit : InboundCircuit) :
    Except CircuitError Runtime :=
  runtime.installInbound now circuit ⟨0, none⟩

def replaceOutbound (runtime : Runtime) (now : UInt64) (token : CircuitToken)
    (circuit : OutboundCircuit) : Except CircuitError Runtime :=
  if token.id ≠ circuit.id ∨ token.generation = none then .error .circuitNotFound
  else runtime.installOutbound now circuit token

def replaceInbound (runtime : Runtime) (now : UInt64) (token : CircuitToken)
    (circuit : InboundCircuit) : Except CircuitError Runtime :=
  if token.id ≠ circuit.id ∨ token.generation = none then .error .circuitNotFound
  else runtime.installInbound now circuit token

end Runtime

/-- A runtime with its threads: the `sendBlock` and `HandleContext` calls on their way with the
generation they have pinned, and the replacements that have yet to release one. `cleared` and
`ended` are the history. -/
structure CircuitRun where
  runtime : Runtime
  users : List Nat
  retiring : List Nat
  cleared : List Nat
  ended : List EndpointRef

inductive CircuitAction where
  | registerOutbound (now : UInt64) (circuit : OutboundCircuit)
  | registerInbound (now : UInt64) (circuit : InboundCircuit)
  | replaceOutbound (now : UInt64) (token : CircuitToken) (circuit : OutboundCircuit)
  | replaceInbound (now : UInt64) (token : CircuitToken) (circuit : InboundCircuit)
  /-- The release at the end of a replacement of `generation`. -/
  | releaseReplaced (generation : Nat)
  | removeCircuit (token : CircuitToken)
  /-- `RemoveOwner` and `Expire`, under the lock of one shard. -/
  | removeOwner (owner : Hash) (shard : UInt32)
  | expire (nowMillis : UInt64) (shard : UInt32)
  /-- The start of a `sendBlock` call, for a prepared block with the generation to use. -/
  | sendBlock (now : UInt64) (id : UInt32) (generation : Option Nat)
  | handleContext (now : UInt64) (id : UInt32)
  /-- The deferred release at the end of a call that has pinned `generation`. -/
  | finish (generation : Nat)

namespace CircuitRun

def initial : CircuitRun where
  runtime := .new
  users := []
  retiring := []
  cleared := []
  ended := []

def setHeap (run : CircuitRun) (heap : List Installation) : CircuitRun :=
  { run with runtime := { run.runtime with heap } }

def release (run : CircuitRun) (generation : Nat) : CircuitRun :=
  match run.runtime.heap[generation]? with
  | none => run
  | some installed =>
    let refs := installed.refs - 1
    if refs ≠ 0 then run.setHeap (run.runtime.heap.set generation { installed with refs })
    else
      let clear : Installation := { installed with refs, transforms := [], endpoint := none }
      { run.setHeap (run.runtime.heap.set generation clear) with
        cleared := run.cleared ++ [generation]
        ended := run.ended ++ installed.endpoint.toList }

/-- The start of a call through an installation, under the read lock. -/
def pin (run : CircuitRun) (generation : Nat) (installed : Installation) : CircuitRun :=
  { run.setHeap (run.runtime.heap.set generation { installed with refs := installed.refs + 1 }) with
    users := generation :: run.users }

/-- The installation a call finds, if it can use it. -/
def admitted (run : CircuitRun) (now : UInt64) (direction : Direction) (id : UInt32)
    (generation : Option Nat) : Option (Nat × Installation) :=
  ((run.runtime.tables direction).lookup id).bind fun found =>
    if generation.any (· ≠ found) then none
    else (run.runtime.heap[found]?).bind fun installed =>
      if expired installed.circuit.expiresAt now then none else some (found, installed)

/-- An entry is deleted and its installation released. -/
def retire (run : CircuitRun) (direction : Direction) (id : UInt32) : CircuitRun :=
  match (run.runtime.tables direction).lookup id with
  | none => run
  | some generation =>
    { run with
      runtime := run.runtime.setTable direction ((run.runtime.tables direction).erase id) }.release
      generation

def found (run : CircuitRun) (p : Nat → Installation → Bool) (direction : Direction)
    (id : UInt32) : Bool :=
  ((run.runtime.tables direction).lookup id).any fun generation =>
    (run.runtime.heap[generation]?).any (p generation)

def retireIf (p : Nat → Installation → Bool) (direction : Direction) (run : CircuitRun)
    (id : UInt32) : CircuitRun :=
  if run.found p direction id then run.retire direction id else run

def retireAll (run : CircuitRun) (p : Nat → Installation → Bool) (direction : Direction)
    (shard : UInt32) : CircuitRun :=
  (((run.runtime.tables direction).keys.filter fun id => shardOf id = shard).foldl
    (retireIf p direction) run)

/-- An install function returns. The installation it has displaced is not yet released. -/
def installs (run : CircuitRun) (direction : Direction) (id : UInt32)
    (outcome : Except CircuitError Runtime) : CircuitRun :=
  match outcome with
  | .error _ => run
  | .ok runtime =>
    let old := (run.runtime.tables direction).lookup id
    { run with runtime, retiring := old.toList ++ run.retiring }

def step (run : CircuitRun) : CircuitAction → CircuitRun
  | .registerOutbound now circuit =>
    run.installs .outbound circuit.id (run.runtime.registerOutbound now circuit)
  | .registerInbound now circuit =>
    run.installs .inbound circuit.id (run.runtime.registerInbound now circuit)
  | .replaceOutbound now token circuit =>
    run.installs .outbound circuit.id (run.runtime.replaceOutbound now token circuit)
  | .replaceInbound now token circuit =>
    run.installs .inbound circuit.id (run.runtime.replaceInbound now token circuit)
  | .releaseReplaced generation =>
    if generation ∈ run.retiring then
      { run with retiring := run.retiring.erase generation }.release generation
    else run
  | .removeCircuit token =>
    match token.generation with
    | none => run
    | some generation =>
      if token.id = 0 then run
      else
        let this : Nat → Installation → Bool := fun found _ => found = generation
        retireIf this .outbound (retireIf this .inbound run token.id) token.id
  | .removeOwner owner shard =>
    if owner = FixedBytes.zero 32 then run
    else
      let owned : Nat → Installation → Bool := fun _ installed => installed.circuit.owner = owner
      (run.retireAll owned .inbound shard).retireAll owned .outbound shard
  | .expire nowMillis shard =>
    let due : Nat → Installation → Bool :=
      fun _ installed => expired installed.circuit.expiresAt nowMillis
    (run.retireAll due .inbound shard).retireAll due .outbound shard
  | .sendBlock now id generation =>
    match run.admitted now .outbound id generation with
    | none => run
    | some (found, installed) => run.pin found installed
  | .handleContext now id =>
    match run.admitted now .inbound id none with
    | none => run
    | some (found, installed) => run.pin found installed
  | .finish generation =>
    if generation ∈ run.users then
      { run with users := run.users.erase generation }.release generation
    else run

abbrev after (run : CircuitRun) (actions : List CircuitAction) : CircuitRun :=
  Lib.run step run actions

end CircuitRun

end Ivnp.Tunnel
