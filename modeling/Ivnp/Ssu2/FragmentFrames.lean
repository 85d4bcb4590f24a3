import Ivnp.Lib.Chunks
import Ivnp.Ssu2.I2npFragments

/-!
The frames of a message that does not fit a packet: one for each piece of its payload,
in order, and each read back as the block it was written from.
-/

namespace Ivnp.Ssu2

open Ivnp.Lib Ivnp.Foundation List UInt8

/-- The payload bytes of a first and of a follow-on fragment. -/
def firstRoom (maxPacket : Nat) : Nat := maxPacket - 44
def nextRoom (maxPacket : Nat) : Nat := maxPacket - 40

/-- The number of follow-on fragments. -/
def followOnCount (maxPacket : Nat) (payload : Bytes) : Nat :=
  ((payload.drop (firstRoom maxPacket)).length + nextRoom maxPacket - 1) / nextRoom maxPacket

def pieces (maxPacket : Nat) (payload : Bytes) : List Bytes :=
  payload.take (firstRoom maxPacket) :: chunks (nextRoom maxPacket)
    (followOnCount maxPacket payload) (payload.drop (firstRoom maxPacket))

def followOnData (id : UInt32) (number : Nat) (last : Bool) (body : Bytes) : Bytes :=
  (if last then UInt8.ofNat number <<< 1 ||| 1 else UInt8.ofNat number <<< 1) ::
    (natBE 4 id.toNat ++ body)

def pieceBlock (header : I2NPHeader) (seconds : UInt32) (pieces : List Bytes) (number : Nat) :
    UInt8 × Bytes :=
  if number = 0 then
    (blockFirstFragment, transportHeader header.type header.id seconds ++ pieces.getD 0 [])
  else
    (blockFollowOnFragment,
      followOnData header.id number (number + 1 = pieces.length) (pieces.getD number []))

def pieceFrame (header : I2NPHeader) (seconds : UInt32) (pieces : List Bytes) (number : Nat) :
    Bytes :=
  blockFrame (pieceBlock header seconds pieces number).1 (pieceBlock header seconds pieces number).2

section Loop

variable {size count : Nat}

theorem followOnFrames_eq (id : UInt32) {turns : Nat} (hturns : count < turns) {number : Nat}
    (hpos : 0 < number) (hnumber : number + count ≤ 256) {rest : Bytes}
    (hfills : Fills size count rest) :
    followOnFrames size id turns (UInt8.ofNat number) rest =
      .ok ((List.range count).map fun index =>
        (blockFrame blockFollowOnFragment (followOnData id (number + index) (index + 1 = count)
          ((chunks size count rest).getD index [])), decide (index + 1 = count))) := by
  induction count generalizing turns number rest with
  | zero =>
    cases turns with
    | zero => omega
    | succ turns => rw [followOnFrames, if_pos hfills.eq_nil]; rfl
  | succ count ih =>
    cases turns with
    | zero => omega
    | succ turns =>
      have hbyte : ofNat number ≠ 0 := by
        intro hzero
        have hvalue := congrArg toNat hzero
        rw [toNat_ofNat_of_lt' (show number < 256 by omega)] at hvalue
        change number = 0 at hvalue
        omega
      have hsucc : ofNat number + 1 = ofNat (number + 1) := by
        rw [ofNat_add]
        rfl
      have hlast : (rest.length ≤ size) = (1 = count + 1) := by
        rw [eq_iff_iff, hfills.length_le_iff]
        omega
      rw [followOnFrames, if_neg hfills.ne_nil, if_neg hbyte, hsucc,
        ih (by omega) (by omega) (by omega) hfills.drop]
      rw [range_succ_eq_map, map_cons, map_map]
      apply congrArg Except.ok
      apply congrArg₂ cons
      · simp only [followOnFrame, followOnData, chunks, getD_cons_zero, Nat.add_zero,
          Nat.zero_add, hlast, decide_eq_true_eq]
      · apply map_congr_left
        intro index _
        simp only [Function.comp_apply, Nat.succ_eq_add_one, Nat.add_right_cancel_iff, chunks,
          getD_cons_succ]
        rw [Nat.add_assoc, Nat.add_comm 1]

end Loop

section Frames

variable {message : I2NPMessage} {maxPacket scratch : Nat}

structure PacketSize (maxPacket : Nat) : Prop where
  low : 1232 ≤ maxPacket
  high : maxPacket ≤ 1472

theorem PacketSize.not_outside (hsize : PacketSize maxPacket) (hscratch : maxPacket ≤ scratch) :
    ¬(maxPacket > maxIPv4PacketLen ∨ maxPacket < minPacketLen ∨ scratch < maxPacket) := by
  have hlow := hsize.low
  have hhigh := hsize.high
  simp only [maxIPv4PacketLen, minPacketLen]
  omega

theorem firstRoom_eq (maxPacket : Nat) :
    maxPacket - shortHeaderLen - packetTagLen - 3 - i2npTransportHeaderLen = firstRoom maxPacket := by
  simp only [shortHeaderLen, packetTagLen, i2npTransportHeaderLen, firstRoom]
  omega

theorem fills_followOn (hsize : PacketSize maxPacket) (payload : Bytes) :
    Fills (nextRoom maxPacket) (followOnCount maxPacket payload)
      (payload.drop (firstRoom maxPacket)) := by
  have hlow := hsize.low
  exact fills_ceil (by rw [nextRoom]; omega) _

theorem flatten_pieces (hsize : PacketSize maxPacket) (payload : Bytes) :
    (pieces maxPacket payload).flatten = payload := by
  rw [pieces, flatten_cons, flatten_chunks (fills_followOn hsize _), take_append_drop]

theorem length_pieces (maxPacket : Nat) (payload : Bytes) :
    (pieces maxPacket payload).length = followOnCount maxPacket payload + 1 := by
  rw [pieces, length_cons, length_chunks]

variable (hsize : PacketSize maxPacket)
include hsize

theorem followOnCount_le {payload : Bytes}
    (hpayload : payload.length ≤ i2npMaxPayload) : followOnCount maxPacket payload ≤ 53 := by
  have hneeded := (fills_followOn hsize payload).needed
  have hlow := hsize.low
  have hmax : i2npMaxPayload = 62690 := rfl
  rw [length_drop] at hneeded
  by_contra hcount
  have hmul : nextRoom maxPacket * 54 ≤ nextRoom maxPacket * followOnCount maxPacket payload :=
    Nat.mul_le_mul_left _ (by omega)
  rw [nextRoom] at hneeded hmul
  omega

theorem followOnCount_pos {payload : Bytes}
    (hlarge : firstRoom maxPacket < payload.length) : 0 < followOnCount maxPacket payload := by
  have henough := (fills_followOn hsize payload).enough
  rw [length_drop] at henough
  by_contra hzero
  rw [Nat.eq_zero_of_not_pos hzero] at henough
  omega

theorem length_piece {payload : Bytes} (hlarge : firstRoom maxPacket < payload.length)
    {number : Nat} (hnumber : number < (pieces maxPacket payload).length) :
    0 < ((pieces maxPacket payload).getD number []).length ∧
      ((pieces maxPacket payload).getD number []).length ≤
        if number = 0 then firstRoom maxPacket else nextRoom maxPacket := by
  have hlow := hsize.low
  cases number with
  | zero =>
    rw [pieces, getD_cons_zero, length_take, if_pos rfl, firstRoom] at *
    omega
  | succ index =>
    rw [length_pieces] at hnumber
    rw [pieces, getD_cons_succ, getD_eq_getElem?_getD, getElem?_eq_getElem (by rw [length_chunks]; omega)]
    exact length_of_mem_chunks (fills_followOn hsize _) _ (getElem_mem _)

/-- What is sent for a message that does not fit one packet. -/
theorem forEachSSU2I2NPFragment_eq (hscratch : maxPacket ≤ scratch)
    (hpayload : message.payload.length ≤ i2npMaxPayload)
    (hlarge : firstRoom maxPacket < message.payload.length) {seconds : UInt32}
    (hseconds : encodeTransportExpiration message.header.expiration = some seconds) :
    forEachSSU2I2NPFragment scratch message maxPacket =
      .ok ((List.range (pieces maxPacket message.payload).length).map fun number =>
        (pieceFrame message.header seconds (pieces maxPacket message.payload) number,
          decide (number + 1 = (pieces maxPacket message.payload).length))) := by
  have hlow := hsize.low
  have hhigh := hsize.high
  have hcount := followOnCount_le hsize hpayload
  have hpos := followOnCount_pos hsize hlarge
  have hloop := followOnFrames_eq message.header.id (show followOnCount maxPacket message.payload < 256
    by omega) Nat.one_pos (by omega) (fills_followOn hsize message.payload)
  have hnext : maxPacket - shortHeaderLen - packetTagLen - 3 - 5 = nextRoom maxPacket := by
    simp only [shortHeaderLen, packetTagLen, nextRoom]
    omega
  rw [forEachSSU2I2NPFragment, if_neg (hsize.not_outside hscratch)]
  rw [firstRoom_eq, hnext, if_neg (by omega), if_neg (by omega), hseconds]
  dsimp only
  change Except.map _ (followOnFrames _ _ 256 (ofNat 1) _) = _
  rw [hloop, length_pieces]
  rw [range_succ_eq_map, map_cons, map_map]
  apply congrArg Except.ok
  apply congrArg₂ cons
  · rw [decide_eq_false (by omega)]
    rfl
  · apply map_congr_left
    intro index _
    simp only [Function.comp_apply, Nat.succ_eq_add_one]
    rw [pieceFrame, pieceBlock, if_neg (Nat.succ_ne_zero _), length_pieces, Nat.add_comm 1]
    simp only [Nat.add_right_cancel_iff, pieces, getD_cons_succ]

end Frames

theorem flag_bits : ∀ number : Fin 128, ∀ last : Bool,
    (if last then UInt8.ofNat number <<< 1 ||| 1 else UInt8.ofNat number <<< 1) >>> 1 =
        UInt8.ofNat number ∧
      ((if last then UInt8.ofNat number <<< 1 ||| 1 else UInt8.ofNat number <<< 1) &&& 1 ≠ 0 ↔
        last = true) := by
  decide +kernel

end Ivnp.Ssu2
