import Ivnp.Lib.Bytes

/-!
The streaming packet and its wire form. What `MarshalTo` writes, `Parse` reads
back; the NACK count on the wire is that of the NACK bytes, whatever the field
said.
-/

namespace Ivnp.Streaming

open Ivnp.Lib List

def headerLen : Nat := 22
def maxPacketSize : Nat := 3072

structure Packet where
  sendStreamID : UInt32
  receiveStreamID : UInt32
  sequence : UInt32
  ackThrough : UInt32
  nackCount : UInt8
  resendDelay : UInt8
  flags : UInt16
  options : Bytes
  nacks : Bytes
  payload : Bytes
  deriving DecidableEq

def Packet.encodedLen (packet : Packet) : Option Nat :=
  let nacksLen := packet.nacks.length
  if nacksLen % 4 ≠ 0 ∨ nacksLen / 4 > 255 ∨ packet.options.length > 0xffff then none
  else
    let encodedLen := headerLen + nacksLen + packet.options.length + packet.payload.length
    if encodedLen > maxPacketSize then none else some encodedLen

/-- The part of the wire form before the NACKs. -/
def Packet.front (packet : Packet) : Bytes :=
  natBE 4 packet.sendStreamID.toNat ++ (natBE 4 packet.receiveStreamID.toNat ++
    (natBE 4 packet.sequence.toNat ++ (natBE 4 packet.ackThrough.toNat ++
      [UInt8.ofNat (packet.nacks.length / 4)])))

/-- The part of the wire form between the NACKs and the options. -/
def Packet.middle (packet : Packet) : Bytes :=
  [packet.resendDelay] ++ (natBE 2 packet.flags.toNat ++ natBE 2 packet.options.length)

def Packet.marshal (packet : Packet) : Option Bytes :=
  packet.encodedLen.map fun _ =>
    packet.front ++ (packet.nacks ++ (packet.middle ++ (packet.options ++ packet.payload)))

def parse (src : Bytes) : Option Packet :=
  if src.length > maxPacketSize then none
  else if src.length < headerLen then none
  else
    let nacksLen := (src.getD 16 0).toNat * 4
    if nacksLen > src.length - 17 - 5 then none
    else
      let off := 17 + nacksLen
      let optionsLen := (uint16At src (off + 3)).toNat
      if optionsLen > src.length - (off + 5) then none
      else
        some
          { sendStreamID := uint32At src 0
            receiveStreamID := uint32At src 4
            sequence := uint32At src 8
            ackThrough := uint32At src 12
            nackCount := src.getD 16 0
            resendDelay := src.getD off 0
            flags := uint16At src (off + 1)
            nacks := (src.drop 17).take nacksLen
            options := (src.drop (off + 5)).take optionsLen
            payload := src.drop (off + 5 + optionsLen) }

namespace Packet

variable (packet : Packet)

@[simp] theorem length_front : packet.front.length = 17 := by simp [front]

@[simp] theorem length_middle : packet.middle.length = 5 := by simp [middle]

theorem front_fields (rest : Bytes) :
    uint32At (packet.front ++ rest) 0 = packet.sendStreamID ∧
      uint32At (packet.front ++ rest) 4 = packet.receiveStreamID ∧
        uint32At (packet.front ++ rest) 8 = packet.sequence ∧
          uint32At (packet.front ++ rest) 12 = packet.ackThrough ∧
            (packet.front ++ rest).getD 16 0 = UInt8.ofNat (packet.nacks.length / 4) := by
  simp only [front, append_assoc, uint32At_skip (natBE_length _ _), Nat.reduceSub,
    Nat.reduceLeDiff, uint32At_append, getD_skip (natBE_length _ _), singleton_append,
    getD_cons_zero, and_self]

theorem middle_fields (rest : Bytes) (h : packet.options.length ≤ 0xffff) :
    (packet.middle ++ rest).getD 0 0 = packet.resendDelay ∧
      uint16At (packet.middle ++ rest) 1 = packet.flags ∧
        (uint16At (packet.middle ++ rest) 3).toNat = packet.options.length := by
  have hlen := UInt16.toNat_ofNat_of_lt' (show packet.options.length < 65536 by omega)
  have hread := uint16At_append (UInt16.ofNat packet.options.length) rest
  rw [hlen] at hread
  refine ⟨rfl, ?_, ?_⟩
  · simp only [middle, append_assoc, uint16At_skip length_singleton, le_refl, Nat.sub_self,
      uint16At_append]
  · simp only [middle, append_assoc, uint16At_skip length_singleton,
      uint16At_skip (natBE_length _ _), Nat.reduceSub, Nat.reduceLeDiff, hread, hlen]

variable {packet : Packet}

theorem encodedLen_eq_some {total : Nat} (h : packet.encodedLen = some total) :
    packet.nacks.length % 4 = 0 ∧ packet.nacks.length / 4 ≤ 255 ∧ packet.options.length ≤ 0xffff ∧
      headerLen + packet.nacks.length + packet.options.length + packet.payload.length ≤
        maxPacketSize := by
  rw [encodedLen] at h
  split at h
  · simp at h
  dsimp only at h
  split at h
  · simp at h
  omega

theorem exists_marshal (hnacks : packet.nacks = []) (hoptions : packet.options = [])
    (hpayload : packet.payload.length ≤ maxPacketSize - headerLen) :
    ∃ wire, packet.marshal = some wire := by
  have hheader : headerLen ≤ maxPacketSize := by decide
  have hlength : packet.encodedLen = some (headerLen + packet.payload.length) := by
    rw [encodedLen, hnacks, hoptions, if_neg (by simp)]
    exact if_neg (by simp only [length_nil]; omega)
  exact ⟨_, by rw [marshal, hlength, Option.map_some]⟩

/-- Whatever `MarshalTo` writes, `Parse` reads back. -/
theorem parse_marshal {wire : Bytes} (h : packet.marshal = some wire) :
    parse wire = some { packet with nackCount := UInt8.ofNat (packet.nacks.length / 4) } := by
  obtain ⟨total, htotal, rfl⟩ := Option.map_eq_some_iff.mp h
  obtain ⟨hfour, hcount, hoptions, hsize⟩ := encodedLen_eq_some htotal
  have hheader : headerLen = 22 := rfl
  have hlength : (packet.front ++ (packet.nacks ++ (packet.middle ++
      (packet.options ++ packet.payload)))).length =
        22 + packet.nacks.length + packet.options.length + packet.payload.length := by
    simp only [length_append, length_front, length_middle]
    omega
  have hnacks : (UInt8.ofNat (packet.nacks.length / 4)).toNat * 4 = packet.nacks.length := by
    rw [UInt8.toNat_ofNat_of_lt' (show packet.nacks.length / 4 < 256 by omega)]
    omega
  obtain ⟨hsend, hreceive, hsequence, hack, hnackCount⟩ :=
    front_fields _ (packet.nacks ++ (packet.middle ++ (packet.options ++ packet.payload)))
  obtain ⟨hdelay, hflags, hoptionsLen⟩ :=
    middle_fields _ (packet.options ++ packet.payload) hoptions
  rw [parse, if_neg (by omega), if_neg (by omega)]
  dsimp only
  rw [hnackCount, hnacks, if_neg (by omega)]
  -- past the front and the NACKs the offsets are those of the rest
  have hmiddle (offset : Nat) : uint16At (packet.front ++ (packet.nacks ++ (packet.middle ++
      (packet.options ++ packet.payload)))) (17 + packet.nacks.length + offset) =
        uint16At (packet.middle ++ (packet.options ++ packet.payload)) offset := by
    rw [uint16At_skip (length_front _) _ _ (by omega), uint16At_skip rfl _ _ (by omega)]
    congr 1
    omega
  have hdelayAt : (packet.front ++ (packet.nacks ++ (packet.middle ++
      (packet.options ++ packet.payload)))).getD (17 + packet.nacks.length) 0 =
        packet.resendDelay := by
    rw [getD_skip (length_front _) _ _ (by omega), getD_skip rfl _ _ (by omega), ← hdelay]
    congr 1
    omega
  have hend (offset : Nat) : (packet.front ++ (packet.nacks ++ (packet.middle ++
      (packet.options ++ packet.payload)))).drop (17 + packet.nacks.length + 5 + offset) =
        (packet.options ++ packet.payload).drop offset := by
    rw [drop_skip (length_front _) _ _ (by omega), drop_skip rfl _ _ (by omega),
      drop_skip (length_middle _) _ _ (by omega)]
    congr 1
    omega
  have hoptionsAt := hend 0
  rw [drop_zero] at hoptionsAt
  rw [hmiddle, hoptionsLen, if_neg (by omega), hmiddle, hflags, hsend, hreceive, hsequence, hack,
    hdelayAt, drop_skip (length_front _) _ _ le_rfl, drop_zero, take_left,
    hoptionsAt, take_left, hend, drop_left]

end Packet

end Ivnp.Streaming
