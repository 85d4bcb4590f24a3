import Ivnp.Lib.Bytes

/-!
The blocks of SSU2 introductions (`introduction.go`). The signature of a parsed request is
not copied: it is a view of the packet. A request is therefore parametrised by what stands for
its signature, the bytes themselves or the place where they are.
-/

namespace Ivnp.Ssu2

open Ivnp.Lib

/-- `netip.Addr` without zones. -/
inductive IpAddr where
  | v4 (octets : FixedBytes 4)
  | v6 (octets : FixedBytes 16)
  deriving DecidableEq

namespace IpAddr

def octets : IpAddr → Bytes
  | v4 octets => octets.val
  | v6 octets => octets.val

def isUnspecified (address : IpAddr) : Bool := address.octets.all (· = 0)

def is4In6 : IpAddr → Bool
  | v4 _ => false
  | v6 octets => octets.val.take 12 = [0, 0, 0, 0, 0, 0, 0, 0, 0, 0, 0xff, 0xff]

def unmap : IpAddr → IpAddr
  | v4 octets => v4 octets
  | v6 octets => if (v6 octets).is4In6 then v4 (arrayAt 4 octets.val 12) else v6 octets

def fromSlice (slice : Bytes) : Option IpAddr :=
  if h : slice.length = 4 then some (v4 ⟨slice, h⟩)
  else if h : slice.length = 16 then some (v6 ⟨slice, h⟩)
  else none

end IpAddr

/-- A valid `netip.AddrPort`. -/
structure AddrPort where
  addr : IpAddr
  port : UInt16
  deriving DecidableEq

def AddrPort.unmap (endpoint : AddrPort) : AddrPort := { endpoint with addr := endpoint.addr.unmap }

def version : UInt8 := 2

def validRelayEndpoint (endpoint : AddrPort) : Bool :=
  endpoint.port ≠ 0 ∧ ¬endpoint.addr.isUnspecified ∧ ¬endpoint.addr.is4In6

def appendRelayEndpoint (endpoint : AddrPort) : Option Bytes :=
  if validRelayEndpoint endpoint then
    some (natBE 2 endpoint.port.toNat ++ endpoint.addr.octets)
  else none

def parseRelayEndpoint (data : Bytes) : Option AddrPort :=
  if data.length ≠ 6 ∧ data.length ≠ 18 then none
  else
    let port := uint16At data 0
    match IpAddr.fromSlice (data.drop 2) with
    | none => none
    | some address =>
      if port = 0 ∨ address.isUnspecified ∨ address.is4In6 then none else some ⟨address, port⟩

/-- A signed request to an introducer. -/
structure RelayRequest (σ : Type) where
  nonce : UInt32
  relayTag : UInt32
  timestamp : UInt32
  endpoint : AddrPort
  signature : σ
  deriving DecidableEq

structure RelayIntro (σ : Type) where
  aliceHash : FixedBytes 32
  request : RelayRequest σ
  deriving DecidableEq

section Codec

variable {σ τ : Type}

def RelayRequest.mapSignature (f : σ → τ) (request : RelayRequest σ) : RelayRequest τ :=
  ⟨request.nonce, request.relayTag, request.timestamp, request.endpoint, f request.signature⟩

def RelayIntro.mapSignature (f : σ → τ) (intro : RelayIntro σ) : RelayIntro τ :=
  ⟨intro.aliceHash, intro.request.mapSignature f⟩

def appendRelayRequestUnsigned (request : RelayRequest σ) : Option Bytes :=
  (appendRelayEndpoint request.endpoint).map fun endpoint =>
    natBE 4 request.nonce.toNat ++ natBE 4 request.relayTag.toNat ++
      natBE 4 request.timestamp.toNat ++ [version, UInt8.ofNat endpoint.length] ++ endpoint

/-- `parseRelayRequest`: the signature is the rest of the data, from the offset in its place
on. -/
def parseRelayRequest (data : Bytes) : Option (RelayRequest Nat) :=
  if data.length < 14 + 6 + 1 ∨ data.getD 12 0 ≠ version then none
  else
    let endpointSize := (data.getD 13 0).toNat
    if endpointSize ≠ 6 ∧ endpointSize ≠ 18 ∨ data.length < 14 + endpointSize + 1 then none
    else
      (parseRelayEndpoint ((data.drop 14).take endpointSize)).map fun endpoint =>
        ⟨uint32At data 0, uint32At data 4, uint32At data 8, endpoint, 14 + endpointSize⟩

def parseRelayRequestBlock (data : Bytes) : Option (RelayRequest Nat) :=
  if data.length < 1 ∨ data.getD 0 0 ≠ 0 then none
  else (parseRelayRequest (data.drop 1)).map (·.mapSignature (1 + ·))

def parseRelayIntroBlock (data : Bytes) : Option (RelayIntro Nat) :=
  if data.length < 33 ∨ data.getD 0 0 ≠ 0 then none
  else
    (parseRelayRequest (data.drop 33)).map fun request =>
      ⟨arrayAt 32 data 1, request.mapSignature (33 + ·)⟩

def relayRequestSignatureInput (bobHash charlieHash : FixedBytes 32) (request : RelayRequest σ) :
    Option Bytes :=
  (appendRelayRequestUnsigned request).map fun unsigned =>
    "RelayRequestData".toList.map (·.toUInt8) ++ bobHash.val ++ charlieHash.val ++ unsigned

/-- The body of the block that `MarshalRelayIntroBlock` writes. -/
def marshalRelayIntro (intro : RelayIntro Bytes) : Option Bytes :=
  if intro.request.signature = [] then none
  else
    (appendRelayRequestUnsigned intro.request).map fun unsigned =>
      0 :: (intro.aliceHash.val ++ unsigned ++ intro.request.signature)

end Codec

end Ivnp.Ssu2
