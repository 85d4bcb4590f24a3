import Ivnp.Cryptography.FieldArithmetic
import Ivnp.Lib.Lucas

/-!
`2 ^ 255 - 19` is prime, so the integers modulo it are a field.
-/

namespace Ivnp.Cryptography

open Ivnp.Lib

private theorem prime_72106336199 : Nat.Prime 72106336199 := by
  have h : Nat.Prime 2773320623 := by
    refine prime_of_lucas 40 5 [2, 2437, 569003] ?_ (by decide +kernel)
    norm_num
  refine prime_of_lucas 40 7 [2, 13, 2773320623] ?_ (by decide +kernel)
  simp only [List.forall_mem_cons, h]
  norm_num

private theorem prime_1919519569386763 : Nat.Prime 1919519569386763 := by
  refine prime_of_lucas 64 2 [2, 3, 7, 19, 47, 47, 127, 8574133] ?_ (by decide +kernel)
  norm_num

private theorem prime_31757755568855353 : Nat.Prime 31757755568855353 := by
  refine prime_of_lucas 64 10 [2, 2, 2, 3, 31, 107, 223, 4153, 430751] ?_ (by decide +kernel)
  norm_num

private theorem prime_75445702479781427272750846543864801 :
    Nat.Prime 75445702479781427272750846543864801 := by
  refine prime_of_lucas 128 7 [2, 2, 2, 2, 2, 3, 3, 5, 5, 75707, 72106336199, 1919519569386763] ?_
    (by decide +kernel)
  simp only [List.forall_mem_cons, prime_72106336199, prime_1919519569386763]
  norm_num

private theorem prime_factor : Nat.Prime
    74058212732561358302231226437062788676166966415465897661863160754340907 := by
  refine prime_of_lucas 256 2 [2, 3, 353, 57467, 132049, 1923133, 31757755568855353,
    75445702479781427272750846543864801] ?_ (by decide +kernel)
  simp only [List.forall_mem_cons, prime_31757755568855353,
    prime_75445702479781427272750846543864801]
  norm_num

theorem prime_p25519 : Nat.Prime p25519 := by
  refine prime_of_lucas 256 2 [2, 2, 3, 65147,
    74058212732561358302231226437062788676166966415465897661863160754340907] ?_ (by decide +kernel)
  simp only [List.forall_mem_cons, prime_factor]
  norm_num

instance : Fact p25519.Prime := ⟨prime_p25519⟩

/-- The integers modulo `p`. -/
abbrev GF25519 := ZMod p25519

theorem pow_sub_two (value : GF25519) : value ^ (p25519 - 2) = value⁻¹ := by
  by_cases hzero : value = 0
  · rw [hzero, inv_zero]
    exact zero_pow (by decide)
  apply eq_inv_of_mul_eq_one_left
  rw [← pow_succ]
  exact ZMod.pow_card_sub_one_eq_one hzero

end Ivnp.Cryptography
