import Ivnp.Lib.Run
import Ivnp.Streaming.TunnelConn

/-!
Two ends of one stream and a network between them. The network keeps every wire
that was ever sent and may hand any of them over at any time, again and again
or never, which covers loss, duplication, delay and reordering. Each end keeps
a history beside its connection.
-/

namespace Ivnp.Streaming

open Ivnp.Lib

/-- A connection with the chunks its `Write` has taken, the payloads it has put
on its read queue and the bytes its `Read` has returned, all oldest first. -/
structure Endpoint where
  conn : TunnelConn
  accepted : List Bytes
  delivered : List Bytes
  consumed : Bytes

inductive Action where
  | write (src : Bytes)
  | retry (due : List UInt32)
  | deliver (index : Nat)
  | ack
  | read (size : Nat)
  | advertise (size : Nat)

namespace Endpoint

def start (localID remoteID : UInt32) (readCapacity maxRetries : Nat) : Endpoint :=
  ⟨TunnelConn.start localID remoteID readCapacity maxRetries, [], [], []⟩

/-- One action of an end, with the wires it sends. `inbox` holds the wires ever
sent to it. -/
def act (endpoint : Endpoint) (inbox : List Bytes) : Action → Endpoint × List Bytes
  | .write src =>
    match endpoint.conn.write src with
    | none => (endpoint, [])
    | some ⟨conn, _, none⟩ => ({ endpoint with conn }, [])
    | some ⟨conn, chunk, some wire⟩ =>
      ({ endpoint with conn, accepted := endpoint.accepted ++ [chunk] }, [wire])
  | .retry due =>
    let result := endpoint.conn.retry due
    ({ endpoint with conn := result.1 }, result.2)
  | .deliver index =>
    match inbox[index]? with
    | none => (endpoint, [])
    | some wire =>
      let result := endpoint.conn.handle wire
      ({ endpoint with
          conn := result.1
          delivered := endpoint.delivered ++ result.1.reads.drop endpoint.conn.reads.length },
        result.2)
  | .ack => (endpoint, endpoint.conn.sendACK.toList)
  | .read size =>
    let result := endpoint.conn.read size
    ({ endpoint with conn := result.1, consumed := endpoint.consumed ++ result.2 }, [])
  | .advertise size => ({ endpoint with conn := endpoint.conn.updatePeerMaxPayloadSize size }, [])

end Endpoint

inductive Side where
  | left
  | right

structure StreamPair where
  left : Endpoint
  right : Endpoint
  toLeft : List Bytes
  toRight : List Bytes

namespace StreamPair

/-- Two established ends that have not sent any data yet. -/
def start (leftID rightID : UInt32) (readCapacity maxRetries : Nat) : StreamPair :=
  ⟨Endpoint.start leftID rightID readCapacity maxRetries,
    Endpoint.start rightID leftID readCapacity maxRetries, [], []⟩

def step (pair : StreamPair) : Side × Action → StreamPair
  | (.left, action) =>
    let result := pair.left.act pair.toLeft action
    { pair with left := result.1, toRight := pair.toRight ++ result.2 }
  | (.right, action) =>
    let result := pair.right.act pair.toRight action
    { pair with right := result.1, toLeft := pair.toLeft ++ result.2 }

def after (leftID rightID : UInt32) (readCapacity maxRetries : Nat)
    (actions : List (Side × Action)) : StreamPair :=
  run step (start leftID rightID readCapacity maxRetries) actions

end StreamPair

end Ivnp.Streaming
