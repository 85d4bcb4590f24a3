import Ivnp.Lib.Bytes

/-!
I2NP messages, and the nine-byte header they have on a transport. A header has
its expiration in milliseconds; the transport carries the nearest second.
-/

namespace Ivnp.Foundation

open Ivnp.Lib

def i2npTransportHeaderLen : Nat := 9

/-- `I2PDMaxPayload`: the message buffer without its prefix and the standard header. -/
def i2npMaxPayload : Nat := 62708 - 2 - 16

structure I2NPHeader where
  type : UInt8
  id : UInt32
  expiration : UInt64
  deriving DecidableEq, Repr

structure I2NPMessage where
  header : I2NPHeader
  payload : Bytes
  deriving DecidableEq, Repr

def maxTransportExpiration : UInt64 := 4294967295 * 1000 + 499

def encodeTransportExpiration (milliseconds : UInt64) : Option UInt32 :=
  if milliseconds > maxTransportExpiration then none
  else some ((milliseconds + 500) / 1000).toUInt32

def decodeTransportExpiration (seconds : UInt32) : UInt64 := seconds.toUInt64 * 1000 + 500

def transportHeader (type : UInt8) (id seconds : UInt32) : Bytes :=
  type :: (natBE 4 id.toNat ++ natBE 4 seconds.toNat)

def parseTransportHeader (src : Bytes) : Option I2NPHeader :=
  if src.length < i2npTransportHeaderLen then none
  else some ⟨src.getD 0 0, uint32At src 1, decodeTransportExpiration (uint32At src 5)⟩

@[simp] theorem length_transportHeader (type : UInt8) (id seconds : UInt32) :
    (transportHeader type id seconds).length = i2npTransportHeaderLen := by
  simp [transportHeader, i2npTransportHeaderLen]

theorem parseTransportHeader_append (type : UInt8) (id seconds : UInt32) (rest : Bytes) :
    parseTransportHeader (transportHeader type id seconds ++ rest) =
      some ⟨type, id, decodeTransportExpiration seconds⟩ := by
  have hid : uint32At (transportHeader type id seconds ++ rest) 1 = id := by
    exact uint32At_append id _
  have hseconds : uint32At (transportHeader type id seconds ++ rest) 5 = seconds := by
    exact uint32At_append _ _
  rw [parseTransportHeader, hid, hseconds]
  rfl

/-- The expiration that arrives is the original one to within a second. -/
theorem decodeTransportExpiration_encode {milliseconds : UInt64} {seconds : UInt32}
    (h : encodeTransportExpiration milliseconds = some seconds) :
    milliseconds < decodeTransportExpiration seconds ∧
      decodeTransportExpiration seconds ≤ milliseconds + 1000 := by
  rw [encodeTransportExpiration, Option.ite_none_left_eq_some] at h
  obtain ⟨hrange, h⟩ := h
  have hseconds := Option.some.inj h
  have hmax : maxTransportExpiration.toNat = 4294967295499 := by decide
  rw [gt_iff_lt, UInt64.lt_iff_toNat_lt] at hrange
  have hround : seconds.toNat = (milliseconds.toNat + 500) / 1000 := by
    rw [← hseconds, UInt64.toNat_toUInt32, UInt64.toNat_div, UInt64.toNat_add]
    simp only [UInt64.reduceToNat]
    omega
  have hdecode : (decodeTransportExpiration seconds).toNat = seconds.toNat * 1000 + 500 := by
    rw [decodeTransportExpiration, UInt64.toNat_add, UInt64.toNat_mul, UInt32.toNat_toUInt64]
    simp only [UInt64.reduceToNat]
    omega
  have hlater : (milliseconds + 1000).toNat = milliseconds.toNat + 1000 := by
    rw [UInt64.toNat_add]
    simp only [UInt64.reduceToNat]
    omega
  rw [UInt64.lt_iff_toNat_lt, UInt64.le_iff_toNat_le]
  omega

end Ivnp.Foundation
