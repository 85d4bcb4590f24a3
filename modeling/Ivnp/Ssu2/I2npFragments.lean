import Ivnp.Foundation.I2np
import Ivnp.Lib.Run
import Ivnp.Lib.Table
import Ivnp.Ssu2.Packet

/-!
I2NP messages in SSU2 packets. A message that fits a packet is one block; a larger
one is a first fragment, with the transport header, and numbered follow-on fragments,
which the session assembles again in whatever order they come.
-/

namespace Ivnp.Ssu2

open Ivnp.Lib Ivnp.Foundation

def ssu2MaxFragmentedMessages : Nat := 64

inductive FragmentError where
  | session
  | peer
  | payloadTooLarge
  | shortBuffer
  deriving DecidableEq, Repr

def marshalSSU2I2NPTo (space : Nat) (message : I2NPMessage) : Except FragmentError Bytes :=
  if message.payload.length > i2npMaxPayload then .error .payloadTooLarge
  else
    match encodeTransportExpiration message.header.expiration with
    | none => .error .payloadTooLarge
    | some expiration =>
      let data := transportHeader message.header.type message.header.id expiration ++
        message.payload
      if space < 3 + data.length then .error .shortBuffer
      else .ok (blockFrame blockI2NP data)

def followOnFrame (maxNext : Nat) (id : UInt32) (number : UInt8) (rest : Bytes) : Bytes :=
  let flag := if rest.length ≤ maxNext then number <<< 1 ||| 1 else number <<< 1
  blockFrame blockFollowOnFragment (flag :: (natBE 4 id.toNat ++ rest.take maxNext))

/-- The loop over the follow-on fragments, `rest` being what is left of the payload. The
number is a byte that ends the loop when it wraps, so 256 turns are enough. -/
def followOnFrames (maxNext : Nat) (id : UInt32) :
    Nat → UInt8 → Bytes → Except FragmentError (List (Bytes × Bool))
  | 0, _, _ => .ok []
  | turns + 1, number, rest =>
    if rest = [] then .ok []
    else if number = 0 then .error .payloadTooLarge
    else
      (followOnFrames maxNext id turns (number + 1) (rest.drop maxNext)).map fun frames =>
        (followOnFrame maxNext id number rest, decide (rest.length ≤ maxNext)) :: frames

/-- `forEachSSU2I2NPFragment`: the frames handed to `send` with their last marks, if it
takes them all. `scratch` is the size of the buffer. (The source panics for packets of 40
to 43 bytes, which have no room for a header.) -/
def forEachSSU2I2NPFragment (scratch : Nat) (message : I2NPMessage) (maxPacket : Nat) :
    Except FragmentError (List (Bytes × Bool)) :=
  if maxPacket > maxIPv4PacketLen ∨ maxPacket < minPacketLen ∨ scratch < maxPacket then
    .error .session
  else
    let maxFirst := maxPacket - shortHeaderLen - packetTagLen - 3 - i2npTransportHeaderLen
    let maxNext := maxPacket - shortHeaderLen - packetTagLen - 3 - 5
    if message.payload.length ≤ maxFirst then
      (marshalSSU2I2NPTo scratch message).map fun payload => [(payload, true)]
    else if message.payload.length > i2npMaxPayload then .error .payloadTooLarge
    else
      match encodeTransportExpiration message.header.expiration with
      | none => .error .payloadTooLarge
      | some expiration =>
        let first := blockFrame blockFirstFragment
          (transportHeader message.header.type message.header.id expiration ++
            message.payload.take maxFirst)
        (followOnFrames maxNext message.header.id 256 1 (message.payload.drop maxFirst)).map
          fun frames => (first, false) :: frames

structure FragmentAssembly where
  header : I2NPHeader
  first : Option Bytes
  following : Table UInt8 Bytes
  last : UInt8
  size : Nat
  updated : UInt64

abbrev Fragments := Table UInt32 FragmentAssembly

def FragmentAssembly.new (header : I2NPHeader) : FragmentAssembly :=
  { header, first := none, following := ∅, last := 0, size := 0, updated := 0 }

/-- The start of `addFragment`: the assembly of the fragment with the fragment in it, or an
error, with which the assembly may be given up. -/
abbrev Placed := Except (FragmentError × Fragments) (UInt32 × FragmentAssembly)

def placeFirst (fragments : Fragments) (data : Bytes) : Placed :=
  match parseTransportHeader data with
  | none => .error (.peer, fragments)
  | some header =>
    if data.length = i2npTransportHeaderLen then .error (.peer, fragments)
    else
      let body := data.drop i2npTransportHeaderLen
      let add (assembly : FragmentAssembly) : FragmentAssembly :=
        match assembly.first with
        | some _ => assembly
        | none => { assembly with
            first := some body, header, size := assembly.size + body.length }
      match fragments.lookup header.id with
      | none =>
        if fragments.entries.length ≥ ssu2MaxFragmentedMessages then
          .error (.session, fragments)
        else .ok (header.id, add (.new header))
      | some assembly =>
        if assembly.first.isSome ∧ (assembly.header ≠ header ∨ assembly.first ≠ some body) then
          .error (.peer, fragments.erase header.id)
        else .ok (header.id, add assembly)

def addFollowOn (fragments : Fragments) (id : UInt32) (flag : UInt8) (body : Bytes)
    (assembly : FragmentAssembly) : Placed :=
  let number := flag >>> 1
  let added : FragmentAssembly :=
    match assembly.following.lookup number with
    | some _ => assembly
    | none => { assembly with
        following := assembly.following.insert number body
        size := assembly.size + body.length }
  if (assembly.following.lookup number).any (· ≠ body) then .error (.peer, fragments.erase id)
  else if flag &&& 1 ≠ 0 then
    if assembly.last ≠ 0 ∧ assembly.last ≠ number then .error (.peer, fragments.erase id)
    else .ok (id, { added with last := number })
  else .ok (id, added)

def placeFollowOn (fragments : Fragments) (data : Bytes) : Placed :=
  if data.length ≤ 5 then .error (.peer, fragments)
  else
    let flag := data.getD 0 0
    if flag >>> 1 = 0 then .error (.peer, fragments)
    else
      let id := uint32At data 1
      let body := data.drop 5
      match fragments.lookup id with
      | none =>
        if fragments.entries.length ≥ ssu2MaxFragmentedMessages then .error (.session, fragments)
        else addFollowOn fragments id flag body (.new ⟨0, 0, 0⟩)
      | some assembly => addFollowOn fragments id flag body assembly

def FragmentAssembly.parts (assembly : FragmentAssembly) : Option (List Bytes) :=
  (List.range' 1 assembly.last.toNat).mapM fun number =>
    assembly.following.lookup (UInt8.ofNat number)

/-- The end of `addFragment`: the message if it is complete. -/
def finishFragment (fragments : Fragments) (id : UInt32) (assembly : FragmentAssembly) :
    Except FragmentError (Option I2NPMessage) × Fragments :=
  let kept := fragments.insert id assembly
  if assembly.size > i2npMaxPayload then (.error .peer, fragments.erase id)
  else
    match assembly.first, assembly.parts with
    | some first, some parts =>
      if assembly.last = 0 then (.ok none, kept)
      else
        let payload := first ++ parts.flatten
        if payload.length ≠ assembly.size then (.error .peer, fragments.erase id)
        else (.ok (some ⟨assembly.header, payload⟩), fragments.erase id)
    | _, _ => (.ok none, kept)

def addFragment (fragments : Fragments) (kind : UInt8) (data : Bytes) (now : UInt64) :
    Except FragmentError (Option I2NPMessage) × Fragments :=
  let placed :=
    if kind = blockFirstFragment then placeFirst fragments data
    else if kind = blockFollowOnFragment then placeFollowOn fragments data
    else .error (.peer, fragments)
  match placed with
  | .error (error, fragments) => (.error error, fragments)
  | .ok (id, assembly) => finishFragment fragments id { assembly with updated := now }

def decodeSSU2I2NP (data : Bytes) : Option I2NPMessage :=
  (parseTransportHeader data).map fun header => ⟨header, data.drop i2npTransportHeaderLen⟩

def fragmentID (kind : UInt8) (data : Bytes) : Option UInt32 :=
  if kind = blockFirstFragment ∨ kind = blockFollowOnFragment then some (uint32At data 1) else none

end Ivnp.Ssu2
