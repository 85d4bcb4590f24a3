import Ivnp.Lib.Bytes

/-!
The bits of big-endian numerals: bit `j` of the byte at index `i` is the bit
`8 * (length - 1 - i) + j` of the number, and the highest bit of the number is that of the
first byte that is not zero.
-/

namespace Ivnp.Lib

theorem beNat_cons_eq (byte : UInt8) (rest : Bytes) :
    beNat (byte :: rest) = 2 ^ (8 * rest.length) * byte.toNat + beNat rest := by
  rw [beNat_cons, pow_mul, mul_comm]
  norm_num

theorem beNat_lt_two_pow (bytes : Bytes) : beNat bytes < 2 ^ (8 * bytes.length) := by
  rw [pow_mul]
  exact beNat_lt _

theorem testBit_beNat (bytes : Bytes) {index bit : Nat} (hindex : index < bytes.length)
    (hbit : bit < 8) :
    (beNat bytes).testBit (8 * (bytes.length - 1 - index) + bit) =
      (bytes.getD index 0).toNat.testBit bit := by
  induction bytes generalizing index with
  | nil => exact absurd hindex (Nat.not_lt_zero _)
  | cons byte rest ih =>
    rw [beNat_cons_eq, Nat.testBit_two_pow_mul_add _ (beNat_lt_two_pow _)]
    cases index with
    | zero =>
      rw [List.length_cons, if_neg (by omega)]
      congr 1
      omega
    | succ index =>
      have hrest := Nat.lt_of_succ_lt_succ hindex
      rw [List.length_cons, if_pos (by omega), List.getD_cons_succ, ← ih hrest]
      congr 1
      omega

theorem log2_beNat_cons {byte : UInt8} (hbyte : byte ≠ 0) (rest : Bytes) :
    (beNat (byte :: rest)).log2 = 8 * rest.length + byte.toNat.log2 := by
  have hpos : byte.toNat ≠ 0 := fun hzero => hbyte (UInt8.toNat_inj.mp hzero)
  have hlow := Nat.log2_self_le hpos
  have hhigh := Nat.lt_log2_self (n := byte.toNat)
  have hrest := beNat_lt_two_pow rest
  have hne : beNat (byte :: rest) ≠ 0 := by
    rw [beNat_cons_eq]
    have := Nat.mul_pos (Nat.two_pow_pos (8 * rest.length)) (Nat.pos_of_ne_zero hpos)
    omega
  rw [Nat.log2_eq_iff hne, beNat_cons_eq]
  constructor
  · calc
      2 ^ (8 * rest.length + byte.toNat.log2)
          = 2 ^ (8 * rest.length) * 2 ^ byte.toNat.log2 := pow_add _ _ _
      _ ≤ 2 ^ (8 * rest.length) * byte.toNat := Nat.mul_le_mul_left _ hlow
      _ ≤ _ := Nat.le_add_right _ _
  · calc
      2 ^ (8 * rest.length) * byte.toNat + beNat rest
          < 2 ^ (8 * rest.length) * byte.toNat + 2 ^ (8 * rest.length) := by omega
      _ = 2 ^ (8 * rest.length) * (byte.toNat + 1) := by ring
      _ ≤ 2 ^ (8 * rest.length) * 2 ^ (byte.toNat.log2 + 1) := Nat.mul_le_mul_left _ hhigh
      _ = 2 ^ (8 * rest.length + byte.toNat.log2 + 1) := by rw [← pow_add, add_assoc]

end Ivnp.Lib
