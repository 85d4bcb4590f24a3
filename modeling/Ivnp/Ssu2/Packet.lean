import Ivnp.Lib.Bytes

/-!
The parts of an SSU2 data packet: the short header, and the blocks of the payload, each a
type, a length and its bytes.
-/

namespace Ivnp.Ssu2

open Ivnp.Lib

def shortHeaderLen : Nat := 16
def packetTagLen : Nat := 16
def minPacketLen : Nat := 40
def maxIPv4PacketLen : Nat := 1472
def blockI2NP : UInt8 := 3
def blockFirstFragment : UInt8 := 4
def blockFollowOnFragment : UInt8 := 5
def blockPadding : UInt8 := 254

inductive PacketType where
  | sessionConfirmed
  | data
  deriving DecidableEq, Repr

structure ShortHeader where
  destinationID : UInt64
  packetNumber : UInt32
  type : PacketType
  fragment : UInt8
  flags : UInt16

/-- A block as it stands in a packet. -/
def blockFrame (kind : UInt8) (data : Bytes) : Bytes := kind :: (natBE 2 data.length ++ data)

/-- The first block of a packet: `Next`, with the checks of the blocks of I2NP messages. -/
def nextBlock (rest : Bytes) : Option (UInt8 × Bytes) :=
  if rest.length < 3 then none
  else
    let kind := rest.getD 0 0
    let length := (uint16At rest 1).toNat
    if length > rest.length - 3 then none
    else
      let data := (rest.drop 3).take length
      if kind = blockI2NP ∧ data.length < 9 then none
      else if kind = blockFirstFragment ∧ data.length ≤ 9 then none
      else if kind = blockFollowOnFragment ∧ (data.length ≤ 5 ∨ data.getD 0 0 >>> 1 = 0) then none
      else some (kind, data)

theorem nextBlock_blockFrame {kind : UInt8} {data : Bytes} (hlength : data.length < 65536)
    (hwhole : kind = blockI2NP → 9 ≤ data.length) (hfirst : kind = blockFirstFragment → 9 < data.length)
    (hfollow : kind = blockFollowOnFragment → 5 < data.length ∧ data.getD 0 0 >>> 1 ≠ 0) :
    nextBlock (blockFrame kind data) = some (kind, data) := by
  have hframe : (blockFrame kind data).length = 3 + data.length := by
    simp only [blockFrame, List.length_cons, List.length_append, natBE_length]
    omega
  have hfield : (uint16At (blockFrame kind data) 1).toNat = data.length := by
    have hword := UInt16.toNat_ofNat_of_lt' hlength
    change (uint16At (natBE 2 data.length ++ data) 0).toNat = data.length
    rw [← hword, uint16At_append]
  have hdrop : (blockFrame kind data).drop 3 = data := by exact List.drop_left' (natBE_length 2 _)
  have hkind : (blockFrame kind data).getD 0 0 = kind := rfl
  rw [nextBlock, if_neg (by omega)]
  rw [hfield, if_neg (by omega), hdrop, List.take_of_length_le le_rfl, hkind,
    if_neg (fun h => Nat.not_lt.mpr (hwhole h.1) h.2), if_neg (fun h => Nat.not_le.mpr (hfirst h.1) h.2),
    if_neg (fun h => h.2.elim (Nat.not_le.mpr (hfollow h.1).1) (hfollow h.1).2)]

end Ivnp.Ssu2
