import Ivnp.Foundation.I2np
import Ivnp.Lib.Run
import Ivnp.Lib.Table

/-!
The control ingress: a bounded queue with one worker. What the source does under
the mutex is one step here, but for the channel send that `Enqueue` makes while it
holds the mutex: in between, nothing that needs the mutex can move, and the worker
can. The worker, every `Barrier` call and the cancellation of the context take
steps of their own. The counters of messages, `uint64` in the source, are natural
numbers.
-/

namespace Ivnp.Router

open Ivnp.Lib Ivnp.Foundation

structure I2NPSource where
  peer : FixedBytes 32
  direct : Bool
  deriving DecidableEq

structure ControlMessage where
  source : I2NPSource
  message : I2NPMessage
  nowMillis : UInt64
  fromFloodfill : Bool
  privateStore : Bool
  deriving DecidableEq

def ControlMessage.size (message : ControlMessage) : Int := message.message.payload.length

structure ControlQueueLimits where
  items : Int
  bytes : Int
  sourceItems : Int
  sourceBytes : Int

def defaultControlQueueLimits : ControlQueueLimits where
  items := 256
  bytes := 4 * 2 ^ 20
  sourceItems := 32
  sourceBytes := 512 * 2 ^ 10

@[ext] structure ControlUsage where
  items : Int
  bytes : Int
  deriving DecidableEq

namespace ControlUsage

def zero : ControlUsage := ⟨0, 0⟩

def add (usage : ControlUsage) (message : ControlMessage) : ControlUsage :=
  ⟨usage.items + 1, usage.bytes + message.size⟩

def remove (usage : ControlUsage) (message : ControlMessage) : ControlUsage :=
  ⟨usage.items - 1, usage.bytes - message.size⟩

end ControlUsage

def controlAdmissionSource (source : I2NPSource) : I2NPSource :=
  if !source.direct then ⟨FixedBytes.zero 32, false⟩ else source

def ControlMessage.budget (message : ControlMessage) : I2NPSource :=
  controlAdmissionSource message.source

/-- The handler: which messages it accepts, and which of its errors are the cancellation. -/
structure ControlHandler (Error : Type) where
  accepts : I2NPMessage → Bool
  canceled : Error → Bool

/-- `messages` is the channel, `cancelled` says that the context of the worker has
ended, `idle` that the idle channel is closed. The channels that `Barrier` opens
are numbered; `progress` is the open one. -/
structure ControlQueue (Error : Type) where
  limits : ControlQueueLimits
  messages : List ControlMessage
  usage : ControlUsage
  sources : Table I2NPSource ControlUsage
  started : Bool
  stopped : Bool
  cancelled : Bool
  idle : Bool
  err : Option Error
  submitted : Nat
  completed : Nat
  opened : Nat
  progress : Option Nat

inductive EnqueueError where
  | stopped
  | unhandled
  | overloaded
  deriving DecidableEq

inductive StartError where
  | context
  | stopped
  | started
  deriving DecidableEq

inductive BarrierError where
  | context
  | stopped
  deriving DecidableEq

namespace ControlQueue

variable {Error : Type}

def new (limits : ControlQueueLimits) : Option (ControlQueue Error) :=
  let positiveLimits :=
    limits.items > 0 ∧ limits.bytes > 0 ∧ limits.sourceItems > 0 ∧ limits.sourceBytes > 0
  let withinGlobalLimits := limits.sourceItems ≤ limits.items ∧ limits.sourceBytes ≤ limits.bytes
  if ¬positiveLimits ∨ ¬withinGlobalLimits then none
  else some {
    limits, messages := [], usage := .zero, sources := ∅, started := false, stopped := false
    cancelled := false, idle := true, err := none, submitted := 0, completed := 0, opened := 0
    progress := none }

/-- `Start` up to the launch of the worker. -/
def start (queue : ControlQueue Error) (ctxErr : Bool) : Except StartError (ControlQueue Error) :=
  if ctxErr then .error .context
  else if queue.stopped then .error .stopped
  else if queue.started then .error .started
  else .ok { queue with started := true }

def sourceUsage (queue : ControlQueue Error) (source : I2NPSource) : ControlUsage :=
  (queue.sources.lookup source).getD .zero

/-- `Enqueue` up to the channel send. -/
def accept (handler : ControlHandler Error) (queue : ControlQueue Error) (message : ControlMessage) :
    Except EnqueueError (ControlQueue Error) :=
  if !queue.started ∨ queue.stopped ∨ queue.cancelled then .error .stopped
  else if !handler.accepts message.message then .error .unhandled
  else
    let source := controlAdmissionSource message.source
    let usage := queue.sourceUsage source
    let size := message.size
    if queue.usage.items ≥ queue.limits.items ∨ size > queue.limits.bytes - queue.usage.bytes ∨
        usage.items ≥ queue.limits.sourceItems ∨ size > queue.limits.sourceBytes - usage.bytes then
      .error .overloaded
    else .ok { queue with
      idle := if queue.usage.items = 0 then false else queue.idle
      usage := queue.usage.add message
      sources := queue.sources.insert source (usage.add message)
      submitted := queue.submitted + 1 }

def complete (handler : ControlHandler Error) (queue : ControlQueue Error)
    (message : ControlMessage) (err : Option Error) : ControlQueue Error :=
  let source := controlAdmissionSource message.source
  let usage := (queue.sourceUsage source).remove message
  let remaining := queue.usage.remove message
  { queue with
    err := match err with
      | some error => if !handler.canceled error ∧ queue.err.isNone then some error else queue.err
      | none => queue.err
    completed := queue.completed + 1
    progress := none
    sources := if usage.items = 0 then queue.sources.erase source
      else queue.sources.insert source usage
    usage := remaining
    idle := if remaining.items = 0 then true else queue.idle }

/-- `Close` up to the wait for the worker. -/
def close (queue : ControlQueue Error) : ControlQueue Error :=
  if queue.stopped then queue
  else { queue with stopped := true, cancelled := queue.cancelled || queue.started }

end ControlQueue

/-- How far a `Barrier` call has come: before its lock, in its select with the number
of the channel it waits for, after it, or at its end. -/
inductive BarrierPhase where
  | called
  | waiting (watermark channel : Nat)
  | woken (watermark : Nat)
  | returned (err : Option BarrierError)
  deriving DecidableEq

def ControlQueue.barrierTurn {Error : Type} (queue : ControlQueue Error) (ctxErr : Bool)
    (watermark : Nat) : ControlQueue Error × BarrierPhase :=
  if ctxErr then (queue, .returned (some .context))
  else if !queue.started ∨ queue.stopped ∨ queue.cancelled then (queue, .returned (some .stopped))
  else if queue.completed ≥ watermark then (queue, .returned none)
  else
    match queue.progress with
    | some channel => (queue, .waiting watermark channel)
    | none => ({ queue with opened := queue.opened + 1, progress := some queue.opened },
        .waiting watermark queue.opened)

/-- A `Barrier` call, with the number of messages admitted when it was made. -/
structure BarrierCall where
  before : Nat
  phase : BarrierPhase

inductive Outcome (Error : Type) where
  | handled (err : Option Error)
  | discarded

def Outcome.err {Error : Type} : Outcome Error → Option Error
  | handled err => err
  | discarded => none

/-- Where the worker is: not launched, at its select, with a message it has received,
in the handler, before `complete`; then in the branch that ends it. -/
inductive Worker (Error : Type) where
  | absent
  | selecting
  | received (message : ControlMessage)
  | handling (message : ControlMessage)
  | completing (message : ControlMessage) (outcome : Outcome Error)
  | stopping
  | draining
  | discarding (message : ControlMessage)
  | exited

def Worker.executing {Error : Type} : Worker Error → List ControlMessage
  | received message | handling message | completing message _ | discarding message => [message]
  | _ => []

/-- The queue with its threads. `sending` is the message of the `Enqueue` call that
holds the mutex. `admitted` and `finished` are the history: the messages in the order
of their admission, and those that were completed in the order of their completion. -/
structure ControlRun (Error : Type) where
  queue : ControlQueue Error
  worker : Worker Error
  sending : Option ControlMessage
  barriers : Table Nat BarrierCall
  admitted : List ControlMessage
  finished : List (ControlMessage × Outcome Error)

/-- What ends the select of a `Barrier` call. -/
inductive BarrierEvent where
  | context
  | stopped (ctxErr : Bool)
  | progress

inductive ControlAction (Error : Type) where
  | start (ctxErr : Bool)
  | cancel
  | enqueue (message : ControlMessage)
  | send
  /-- A step of the worker. `done` chooses between two ready cases of its select, and
  `result` is what the handler returns if this step is the end of the handler. -/
  | work (done : Bool) (result : Option Error)
  | barrier (call : Nat) (ctxErr : Bool)
  | turn (call : Nat) (ctxErr : Bool)
  | wake (call : Nat) (event : BarrierEvent)
  | close

namespace ControlRun

variable {Error : Type} (handler : ControlHandler Error)

def initial (queue : ControlQueue Error) : ControlRun Error :=
  { queue, worker := .absent, sending := none, barriers := ∅, admitted := [], finished := [] }

def completeAs (run : ControlRun Error) (message : ControlMessage) (outcome : Outcome Error)
    (next : Worker Error) : ControlRun Error :=
  { run with
    queue := run.queue.complete handler message outcome.err
    worker := next
    finished := run.finished ++ [(message, outcome)] }

/-- A step of `run`. The steps that take the mutex wait while an `Enqueue` call holds it. -/
def work (run : ControlRun Error) (done : Bool) (result : Option Error) : ControlRun Error :=
  match run.worker with
  | .absent | .exited => run
  | .selecting =>
    match run.queue.cancelled, run.queue.messages with
    | false, [] => run
    | true, [] => { run with worker := .stopping }
    | cancelled, message :: rest =>
      if cancelled && done then { run with worker := .stopping }
      else { run with worker := .received message, queue := { run.queue with messages := rest } }
  | .received message =>
    if run.queue.cancelled then { run with worker := .completing message .discarded }
    else { run with worker := .handling message }
  | .handling message => { run with worker := .completing message (.handled result) }
  | .completing message outcome =>
    if run.sending.isSome then run else run.completeAs handler message outcome .selecting
  | .stopping =>
    if run.sending.isSome then run
    else { run with worker := .draining, queue := { run.queue with stopped := true } }
  | .draining =>
    match run.queue.messages with
    | message :: rest =>
      { run with worker := .discarding message, queue := { run.queue with messages := rest } }
    | [] => { run with worker := .exited }
  | .discarding message =>
    if run.sending.isSome then run else run.completeAs handler message .discarded .draining

/-- The loop of `Barrier` from where it takes the mutex; the first time, it sets the watermark. -/
def turn (run : ControlRun Error) (call : Nat) (ctxErr : Bool) : ControlRun Error :=
  let turnWith (barrier : BarrierCall) (watermark : Nat) : ControlRun Error :=
    let (queue, phase) := run.queue.barrierTurn ctxErr watermark
    { run with queue, barriers := run.barriers.insert call { barrier with phase } }
  match run.sending, run.barriers.lookup call with
  | none, some barrier =>
    match barrier.phase with
    | .called => turnWith barrier run.queue.submitted
    | .woken watermark => turnWith barrier watermark
    | _ => run
  | _, _ => run

/-- The end of the select of `Barrier`. The channel it waits for is closed once it is
no longer the open one. -/
def wake (run : ControlRun Error) (call : Nat) (event : BarrierEvent) : ControlRun Error :=
  match run.barriers.lookup call with
  | some ⟨before, .waiting watermark channel⟩ =>
    let moveTo (phase : BarrierPhase) : ControlRun Error :=
      { run with barriers := run.barriers.insert call ⟨before, phase⟩ }
    match event with
    | .context => moveTo (.returned (some .context))
    | .stopped ctxErr =>
      if run.queue.cancelled then
        moveTo (.returned (some (if ctxErr then .context else .stopped)))
      else run
    | .progress => if run.queue.progress ≠ some channel then moveTo (.woken watermark) else run
  | _ => run

def step (run : ControlRun Error) : ControlAction Error → ControlRun Error
  | .start ctxErr =>
    if run.sending.isSome then run
    else
      match run.queue.start ctxErr with
      | .error _ => run
      | .ok queue => { run with queue, worker := .selecting }
  | .cancel =>
    if run.queue.started then { run with queue := { run.queue with cancelled := true } } else run
  | .enqueue message =>
    if run.sending.isSome then run
    else
      match run.queue.accept handler message with
      | .error _ => run
      | .ok queue =>
        { run with queue, sending := some message, admitted := run.admitted ++ [message] }
  | .send =>
    match run.sending with
    | none => run
    | some message =>
      -- the send blocks while the channel is full
      if run.queue.messages.length < run.queue.limits.items then
        { run with
          queue := { run.queue with messages := run.queue.messages ++ [message] }
          sending := none }
      else run
  | .work done result => run.work handler done result
  | .barrier call ctxErr =>
    if (run.barriers.lookup call).isSome then run
    else
      let phase := if ctxErr then .returned (some .context) else .called
      { run with barriers := run.barriers.insert call ⟨run.admitted.length, phase⟩ }
  | .turn call ctxErr => run.turn call ctxErr
  | .wake call event => run.wake call event
  | .close => if run.sending.isSome then run else { run with queue := run.queue.close }

abbrev after (run : ControlRun Error) (actions : List (ControlAction Error)) : ControlRun Error :=
  Lib.run (step handler) run actions

end ControlRun

end Ivnp.Router
