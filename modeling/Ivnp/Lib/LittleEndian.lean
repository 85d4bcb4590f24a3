import Ivnp.Lib.Bytes

/-!
Little-endian numerals over byte lists, and words that are put together from
bytes with shifts and disjunctions.
-/

namespace Ivnp.Lib

open List

/-- The value of a little-endian numeral. -/
def leNat : Bytes → Nat
  | [] => 0
  | byte :: rest => byte.toNat + 256 * leNat rest

/-- The `width` low bytes of `value`, least significant byte first. -/
def natLE : Nat → Nat → Bytes
  | 0, _ => []
  | width + 1, value => UInt8.ofNat value :: natLE width (value / 256)

@[simp] theorem length_natLE (width value : Nat) : (natLE width value).length = width := by
  induction width generalizing value with
  | zero => rfl
  | succ width ih => simp [natLE, ih]

theorem leNat_drop {bytes : Bytes} {offset : Nat} (h : offset < bytes.length) :
    leNat (bytes.drop offset) = (bytes.getD offset 0).toNat + 256 * leNat (bytes.drop (offset + 1)) := by
  rw [drop_eq_getElem_cons h, leNat, getD_eq_getElem?_getD, getElem?_eq_getElem, Option.getD_some]

theorem leNat_lt_of_drop (bytes : Bytes) (offset : Nat) :
    leNat bytes < 256 ^ offset * (leNat (bytes.drop offset) + 1) := by
  induction offset generalizing bytes with
  | zero =>
    rw [pow_zero, one_mul]
    exact Nat.lt_succ_self _
  | succ offset ih =>
    cases bytes with
    | nil => exact Nat.mul_pos (Nat.pow_pos (by decide)) (Nat.succ_pos _)
    | cons byte rest =>
      have hbyte := byte.toNat_lt
      have hrest := ih rest
      rw [leNat, drop_succ_cons, pow_succ', mul_assoc]
      omega

theorem leNat_append (low high : Bytes) :
    leNat (low ++ high) = leNat low + 256 ^ low.length * leNat high := by
  induction low with
  | nil => simp [leNat]
  | cons byte rest ih =>
    rw [cons_append, leNat, leNat, ih, length_cons]
    ring

theorem leNat_natLE {width value : Nat} (h : value < 256 ^ width) : leNat (natLE width value) = value := by
  induction width generalizing value with
  | zero =>
    rw [natLE, leNat]
    omega
  | succ width ih =>
    rw [pow_succ'] at h
    rw [natLE, leNat, ih (Nat.div_lt_of_lt_mul h), UInt8.toNat_ofNat']
    omega

theorem natLE_leNat (bytes : Bytes) : natLE bytes.length (leNat bytes) = bytes := by
  induction bytes with
  | nil => rfl
  | cons byte rest ih =>
    have hbyte := byte.toNat_lt
    have hlow : UInt8.ofNat (byte.toNat + 256 * leNat rest) = byte := by
      apply UInt8.toNat_inj.mp
      rw [UInt8.toNat_ofNat']
      omega
    have hhigh : (byte.toNat + 256 * leNat rest) / 256 = leNat rest := by omega
    rw [length_cons, leNat, natLE, hlow, hhigh, ih]

theorem modify_length_append (low : Bytes) (top : UInt8) (f : UInt8 → UInt8) :
    (low ++ [top]).modify low.length f = low ++ [f top] := by
  induction low with
  | nil => rfl
  | cons byte rest ih => rw [cons_append, length_cons, modify_succ_cons, ih, cons_append]

theorem natLE_add (first second value : Nat) :
    natLE (first + second) value = natLE first value ++ natLE second (value / 256 ^ first) := by
  induction first generalizing value with
  | zero => simp [natLE]
  | succ first ih =>
    rw [Nat.succ_add, natLE, natLE, ih, Nat.div_div_eq_div_mul, ← pow_succ', cons_append]

/-- Bytes above the width do not matter. -/
theorem natLE_add_mul (width value high : Nat) :
    natLE width (value + 256 ^ width * high) = natLE width value := by
  induction width generalizing value with
  | zero => rfl
  | succ width ih =>
    have hdiv : (value + 256 ^ (width + 1) * high) / 256 = value / 256 + 256 ^ width * high := by
      rw [pow_succ', mul_assoc, Nat.add_mul_div_left _ _ (by decide)]
    have hbyte : UInt8.ofNat (value + 256 ^ (width + 1) * high) = UInt8.ofNat value := by
      apply UInt8.toNat_inj.mp
      rw [pow_succ', mul_assoc]
      exact Nat.add_mul_mod_self_left _ _ _
    rw [natLE, natLE, hdiv, hbyte, ih]

theorem testBit_leNat (bytes : Bytes) (bit : Nat) :
    (leNat bytes).testBit bit = (bytes.getD (bit / 8) 0).toNat.testBit (bit % 8) := by
  induction bytes generalizing bit with
  | nil => simp [leNat]
  | cons byte rest ih =>
    have hbyte := byte.toNat_lt
    have hsplit : leNat (byte :: rest) = 2 ^ 8 * leNat rest + byte.toNat := by
      rw [leNat]
      omega
    rw [hsplit, Nat.testBit_two_pow_mul_add _ hbyte]
    split
    next hlow => rw [Nat.div_eq_of_lt hlow, Nat.mod_eq_of_lt hlow, getD_cons_zero]
    next hhigh =>
    obtain ⟨more, rfl⟩ := Nat.exists_eq_add_of_le (Nat.not_lt.mp hhigh)
    rw [Nat.add_sub_cancel_left, ih, Nat.add_div_left _ (by decide), Nat.add_mod_left,
      getD_cons_succ]

theorem toNat_or_shift (word : UInt64) (byte : UInt8) (shift : Nat)
    (hword : word.toNat < 2 ^ shift) (hshift : shift ≤ 56) :
    (word ||| byte.toUInt64 <<< UInt64.ofNat shift).toNat = word.toNat + 2 ^ shift * byte.toNat := by
  have hbyte := byte.toNat_lt
  have hamount : (UInt64.ofNat shift).toNat % 64 = shift := by
    rw [UInt64.toNat_ofNat_of_lt' (show shift < 2 ^ 64 by omega), Nat.mod_eq_of_lt (by omega)]
  have hfits : 2 ^ shift * byte.toNat < 2 ^ 64 := by
    calc 2 ^ shift * byte.toNat < 2 ^ shift * 2 ^ 8 :=
        Nat.mul_lt_mul_of_pos_left hbyte (Nat.two_pow_pos _)
      _ = 2 ^ (shift + 8) := (pow_add 2 _ 8).symm
      _ ≤ 2 ^ 64 := Nat.pow_le_pow_right (by decide) (by omega)
  rw [UInt64.toNat_or, UInt64.toNat_shiftLeft, hamount, UInt8.toNat_toUInt64, Nat.shiftLeft_eq,
    Nat.mul_comm, Nat.mod_eq_of_lt hfits, Nat.or_comm, ← Nat.two_pow_add_eq_or_of_lt hword,
    Nat.add_comm]

end Ivnp.Lib
