import Ivnp.Lib.Bytes

/-!
Unsigned numbers in decimal, written and read as ASCII digits.
-/

namespace Ivnp.Lib

/-- The digits of a number below `10 ^ fuel`, the highest first. -/
def decimalDigits : Nat → Nat → Bytes
  | 0, _ => []
  | fuel + 1, value =>
    if value < 10 then [UInt8.ofNat (48 + value)]
    else decimalDigits fuel (value / 10) ++ [UInt8.ofNat (48 + value % 10)]

/-- One more digit of a number of this many bits. -/
def readDigit (bits value : Nat) (byte : UInt8) : Option Nat :=
  if byte < 48 ∨ byte > 57 then none
  else
    let next := value * 10 + (byte.toNat - 48)
    if next ≥ 2 ^ bits then none else some next

/-- The number that the digits stand for, if it has at most this many bits. -/
def parseUint (bits : Nat) (digits : Bytes) : Option Nat :=
  if digits = [] then none else digits.foldlM (readDigit bits) 0

theorem readDigit_ofNat {bits value digit : Nat} (hdigit : digit < 10)
    (hfits : value * 10 + digit < 2 ^ bits) :
    readDigit bits value (UInt8.ofNat (48 + digit)) = some (value * 10 + digit) := by
  have hbyte := UInt8.toNat_ofNat_of_lt' (show 48 + digit < 256 by omega)
  unfold readDigit
  rw [if_neg, hbyte]
  · rw [Nat.add_sub_cancel_left, if_neg (by omega)]
  · rw [UInt8.lt_iff_toNat_lt, gt_iff_lt, UInt8.lt_iff_toNat_lt, hbyte]
    show ¬ (48 + digit < 48 ∨ 57 < 48 + digit)
    omega

theorem decimalDigits_ne_nil (fuel value : Nat) : decimalDigits (fuel + 1) value ≠ [] := by
  unfold decimalDigits
  split
  · exact List.cons_ne_nil _ _
  · exact List.append_ne_nil_of_right_ne_nil _ (List.cons_ne_nil _ _)

theorem length_decimalDigits_le (fuel value : Nat) : (decimalDigits fuel value).length ≤ fuel := by
  induction fuel generalizing value with
  | zero => exact Nat.le_refl _
  | succ fuel ih =>
    unfold decimalDigits
    split
    · exact Nat.succ_le_succ (Nat.zero_le _)
    · rw [List.length_append]
      exact Nat.succ_le_succ (ih _)

theorem foldlM_decimalDigits {bits : Nat} (fuel : Nat) {value : Nat} (hfuel : value < 10 ^ fuel)
    (hfits : value < 2 ^ bits) (hfuelPos : fuel ≠ 0) :
    (decimalDigits fuel value).foldlM (readDigit bits) 0 = some value := by
  induction fuel generalizing value with
  | zero => exact absurd rfl hfuelPos
  | succ fuel ih =>
    unfold decimalDigits
    split
    next hsmall =>
      rw [List.foldlM_cons, readDigit_ofNat hsmall (by omega), Nat.zero_add]
      rfl
    next hlarge =>
    have hrest : value / 10 < 10 ^ fuel := by exact Nat.div_lt_of_lt_mul (by rwa [Nat.mul_comm])
    have hpos : fuel ≠ 0 := by
      rintro rfl
      omega
    rw [List.foldlM_append, ih hrest (by omega) hpos, Option.bind_eq_bind, Option.bind_some,
      List.foldlM_cons, readDigit_ofNat (Nat.mod_lt _ (by decide)) (by omega),
      Nat.div_add_mod']
    rfl

theorem parseUint_decimalDigits {bits fuel value : Nat} (hfuel : value < 10 ^ (fuel + 1))
    (hfits : value < 2 ^ bits) : parseUint bits (decimalDigits (fuel + 1) value) = some value := by
  unfold parseUint
  rw [if_neg (decimalDigits_ne_nil _ _)]
  exact foldlM_decimalDigits _ hfuel hfits (Nat.succ_ne_zero _)

end Ivnp.Lib
