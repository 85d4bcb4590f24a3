import Ivnp.Lib.LeadingBits
import Ivnp.NetDb.KBucket

/-!
The range number of a hash as a function of its XOR distance to the local hash: eight times
the place of the highest bit, and the three bits that follow it. It grows with the distance.
-/

namespace Ivnp.NetDb

open Ivnp.Lib Ivnp.Foundation

def xorDistance (localHash peer : Hash) : Nat := beNat (localHash.xor peer).val

/-- The place of the highest bit with the three bits after it. -/
def distanceRange (distance : Nat) : Nat :=
  8 * distance.log2 +
    if distance.log2 < 3 then 0 else distance / 2 ^ (distance.log2 - 3) % 8

theorem distanceRange_div (distance : Nat) : distanceRange distance / 8 = distance.log2 := by
  unfold distanceRange
  split
  · omega
  · omega

theorem distanceRange_lt {distance width : Nat} (hzero : distance ≠ 0)
    (h : distance < 2 ^ width) : distanceRange distance < 8 * width := by
  have hlog := (Nat.log2_lt hzero).mpr h
  have := distanceRange_div distance
  omega

theorem leading_bits_bounds {distance : Nat} (hzero : distance ≠ 0) (hlog : 3 ≤ distance.log2) :
    8 ≤ distance / 2 ^ (distance.log2 - 3) ∧ distance / 2 ^ (distance.log2 - 3) < 16 := by
  have hpos := Nat.two_pow_pos (distance.log2 - 3)
  constructor
  · rw [Nat.le_div_iff_mul_le hpos]
    calc
      8 * 2 ^ (distance.log2 - 3) = 2 ^ distance.log2 := by
        rw [show 8 = 2 ^ 3 by rfl, ← pow_add]
        congr 1
        omega
      _ ≤ distance := Nat.log2_self_le hzero
  · rw [Nat.div_lt_iff_lt_mul hpos]
    calc distance < 2 ^ (distance.log2 + 1) := Nat.lt_log2_self
      _ = 16 * 2 ^ (distance.log2 - 3) := by
        rw [show 16 = 2 ^ 4 by rfl, ← pow_add]
        congr 1
        omega

theorem distanceRange_mono {distance other : Nat} (hzero : distance ≠ 0)
    (h : distance ≤ other) : distanceRange distance ≤ distanceRange other := by
  have hother : other ≠ 0 := by omega
  have hlog := (Nat.le_log2 hother).mpr ((Nat.log2_self_le hzero).trans h)
  rcases hlog.lt_or_eq with hless | hsame
  · have hdistance := distanceRange_div distance
    have hgreater := distanceRange_div other
    omega
  · unfold distanceRange
    rw [← hsame]
    split
    · exact le_rfl
    next hlarge =>
    obtain ⟨hlow, hhigh⟩ := leading_bits_bounds hzero (by omega)
    obtain ⟨hotherLow, hotherHigh⟩ := leading_bits_bounds hother (by omega)
    rw [← hsame] at hotherLow hotherHigh
    have hdiv := Nat.div_le_div_right (c := 2 ^ (distance.log2 - 3)) h
    omega

theorem leadingZeros_eq {own peer : Bytes} (hlength : own.length = peer.length) :
    (beNat (List.zipWith (· ^^^ ·) own peer) = 0 → leadingZeros own peer = 8 * own.length) ∧
      (beNat (List.zipWith (· ^^^ ·) own peer) ≠ 0 →
        leadingZeros own peer + (beNat (List.zipWith (· ^^^ ·) own peer)).log2 + 1 =
          8 * own.length) := by
  induction own generalizing peer with
  | nil => exact ⟨fun _ => rfl, fun h => absurd rfl h⟩
  | cons first own ih =>
    cases peer with
    | nil => cases hlength
    | cons second peer =>
      have hrest := Nat.succ.inj hlength
      have hzip : (List.zipWith (· ^^^ ·) own peer).length = own.length := by
        rw [List.length_zipWith, ← hrest, min_self]
      rw [leadingZeros, List.zipWith_cons_cons, List.length_cons]
      by_cases hsame : first ^^^ second = 0
      · rw [if_pos hsame, hsame, beNat_cons_eq, UInt8.toNat_zero, mul_zero, zero_add]
        obtain ⟨hzero, hne⟩ := ih hrest
        exact ⟨fun h => by omega, fun h => by omega⟩
      have hbyte : (first ^^^ second).toNat ≠ 0 := fun hzero => hsame (UInt8.toNat_inj.mp hzero)
      have hbits := (Nat.log2_lt hbyte).mpr (first ^^^ second).toNat_lt
      rw [if_neg hsame, log2_beNat_cons hsame, leadingZeros8, if_neg hsame]
      refine ⟨fun hzero => ?_, fun _ => by omega⟩
      rw [beNat_cons_eq] at hzero
      have := Nat.mul_pos (Nat.two_pow_pos (8 * (List.zipWith (· ^^^ ·) own peer).length))
        (Nat.pos_of_ne_zero hbyte)
      omega

variable (localHash peer : Hash)

theorem differenceBit_eq {place : Nat} (hplace : place < 256) :
    (differenceBit localHash peer place).toNat =
      xorDistance localHash peer / 2 ^ (255 - place) % 2 := by
  have hindex : place / 8 < 32 := by omega
  have hlength := (localHash.xor peer).property
  have hbyte : localHash.val.getD (place / 8) 0 ^^^ peer.val.getD (place / 8) 0 =
      (localHash.xor peer).val.getD (place / 8) 0 := by
    have hown : place / 8 < localHash.val.length := by rw [localHash.property]; exact hindex
    have hpeer : place / 8 < peer.val.length := by rw [peer.property]; exact hindex
    simp only [FixedBytes.xor, List.getD_eq_getElem?_getD, List.getElem?_zipWith,
      List.getElem?_eq_getElem hown, List.getElem?_eq_getElem hpeer, Option.getD_some]
  have hbit := @testBit_beNat (localHash.xor peer).val (place / 8) (7 - place % 8)
    (by omega) (by omega)
  have hplaces : 8 * ((localHash.xor peer).val.length - 1 - place / 8) + (7 - place % 8) =
      255 - place := by omega
  rw [hplaces] at hbit
  have hvalue := congrArg Bool.toNat hbit
  rw [Nat.toNat_testBit, Nat.toNat_testBit] at hvalue
  rw [xorDistance, hvalue, differenceBit, UInt8.toNat_and, UInt8.toNat_shiftRight,
    Nat.shiftRight_eq_div_pow, UInt8.toNat_one, Nat.and_one_is_mod, UInt8.toNat_ofNat']
  congr 3
  omega

theorem xorDistance_lt : xorDistance localHash peer < 2 ^ 256 := by
  have h := beNat_lt_two_pow (localHash.xor peer).val
  rw [FixedBytes.length_val] at h
  exact h

theorem three_bits (number places : Nat) :
    number / 2 ^ places % 8 =
      4 * (number / 2 ^ (places + 2) % 2) + 2 * (number / 2 ^ (places + 1) % 2) +
        number / 2 ^ places % 2 := by
  rw [pow_add, pow_add, ← Nat.div_div_eq_div_mul, ← Nat.div_div_eq_div_mul]
  omega

theorem or_three_bits (number : Nat) {high middle low : Nat} (hhigh : high < 2)
    (hmiddle : middle < 2) (hlow : low < 2) :
    ((number <<< 3 ||| high <<< 2) ||| middle <<< 1) ||| low <<< 0 =
      8 * number + (4 * high + 2 * middle + low) := by
  have hbits : high <<< 2 ||| (middle <<< 1 ||| low <<< 0) = 4 * high + 2 * middle + low := by
    interval_cases high <;> interval_cases middle <;> interval_cases low <;> rfl
  rw [Nat.or_assoc, Nat.or_assoc, hbits, ← Nat.shiftLeft_add_eq_or_of_lt (by omega),
    Nat.shiftLeft_eq, mul_comm]

theorem kademliaRange_eq :
    kademliaRange localHash peer =
      if xorDistance localHash peer = 0 then -1
      else (distanceRange (xorDistance localHash peer) : Int) := by
  obtain ⟨hzero, hne⟩ := leadingZeros_eq (localHash.property.trans peer.property.symm)
  change (xorDistance localHash peer ≠ 0 →
    _ + (xorDistance localHash peer).log2 + 1 = _) at hne
  rw [localHash.property] at hzero hne
  unfold kademliaRange
  by_cases hdistance : xorDistance localHash peer = 0
  · rw [if_pos hdistance]
    exact if_pos (hzero hdistance)
  have hleading := hne hdistance
  have hhigh : hashLength * 8 - 1 - leadingZeros localHash.val peer.val =
      (xorDistance localHash peer).log2 := by
    simp only [hashLength]
    omega
  rw [if_neg hdistance, if_neg (by omega), hhigh, distanceRange]
  by_cases hsmall : (xorDistance localHash peer).log2 < 3
  · rw [if_pos (by simp only [kademliaB]; omega), if_pos hsmall, add_zero, kademliaB,
      Nat.shiftLeft_eq, mul_comm]
  rw [if_neg (by simp only [kademliaB]; omega), if_neg hsmall]
  congr 1
  -- the loop takes the bits in places one, two and three below the highest
  change ((_ <<< 3 ||| _ <<< 2) ||| _ <<< 1) ||| _ <<< 0 = _
  rw [differenceBit_eq _ _ (by omega), differenceBit_eq _ _ (by omega),
    differenceBit_eq _ _ (by omega),
    or_three_bits _ (Nat.mod_lt _ two_pos) (Nat.mod_lt _ two_pos) (Nat.mod_lt _ two_pos),
    three_bits]
  congr 2
  · congr 1
    · congr 4
      omega
    · congr 4
      omega
  · congr 3
    omega

theorem kademliaRange_self (localHash : Hash) : kademliaRange localHash localHash = -1 := by
  have hleading : ∀ own : Bytes, leadingZeros own own = 8 * own.length := by
    intro own
    induction own with
    | nil => rfl
    | cons byte rest ih =>
      rw [leadingZeros, if_pos UInt8.xor_self, List.length_cons]
      omega
  exact if_pos (by rw [hleading, localHash.property]; rfl)

theorem kademliaRange_cases :
    kademliaRange localHash peer = -1 ∨
      ∃ rangeNumber : Nat, kademliaRange localHash peer = rangeNumber ∧
        rangeNumber < kademliaRangeCount := by
  rw [kademliaRange_eq]
  split
  · exact .inl rfl
  next hne => exact .inr ⟨_, rfl, distanceRange_lt hne (xorDistance_lt _ _)⟩

theorem kademliaRange_mono {localHash peer other : Hash}
    (h : xorDistance localHash peer ≤ xorDistance localHash other) :
    kademliaRange localHash peer ≤ kademliaRange localHash other := by
  rw [kademliaRange_eq, kademliaRange_eq]
  by_cases hpeer : xorDistance localHash peer = 0
  · rw [if_pos hpeer]
    split
    · exact le_rfl
    · omega
  · rw [if_neg hpeer, if_neg (by omega)]
    exact Int.ofNat_le.mpr (distanceRange_mono hpeer h)

end Ivnp.NetDb
