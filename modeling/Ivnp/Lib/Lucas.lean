import Mathlib.NumberTheory.LucasPrimality
import Mathlib.Tactic

/-!
Primality of large numbers by the test of Lucas, with powers that the kernel can
evaluate.
-/

namespace Ivnp.Lib

/-- `base ^ exponent` modulo `modulus`, by squaring, for an exponent of at most
`bits` bits. -/
def powMod (modulus : Nat) : Nat → Nat → Nat → Nat
  | 0, _, _ => 1 % modulus
  | bits + 1, base, exponent =>
    let half := powMod modulus bits (base * base % modulus) (exponent / 2)
    if exponent % 2 = 0 then half else half * base % modulus

theorem powMod_eq (modulus : Nat) {bits base exponent : Nat} (h : exponent < 2 ^ bits) :
    powMod modulus bits base exponent = base ^ exponent % modulus := by
  induction bits generalizing base exponent with
  | zero =>
    obtain rfl := by simpa using h
    rfl
  | succ bits ih =>
    have hhalf : exponent / 2 < 2 ^ bits := by omega
    have hsquare : (base * base % modulus) ^ (exponent / 2) % modulus =
        base ^ (2 * (exponent / 2)) % modulus := by
      rw [← Nat.pow_mod, pow_mul, sq]
    unfold powMod
    dsimp only
    rw [ih hhalf, hsquare]
    split
    next heven =>
      congr 2
      omega
    next hodd =>
    rw [Nat.mod_mul_mod, ← pow_succ]
    congr 2
    omega

/-- The test of Lucas with the prime factors of `p - 1`. -/
theorem prime_of_lucas {p : Nat} (bits base : Nat) (factors : List Nat)
    (hprime : ∀ q ∈ factors, q.Prime)
    (hchecks : 2 ≤ p ∧ p ≤ 2 ^ bits ∧ factors.prod = p - 1 ∧ powMod p bits base (p - 1) = 1 ∧
      ∀ q ∈ factors, powMod p bits base ((p - 1) / q) ≠ 1) : p.Prime := by
  obtain ⟨hlow, hhigh, hproduct, hone, hother⟩ := hchecks
  have hpow : ∀ exponent ≤ p - 1, ((base : ZMod p) ^ exponent = 1 ↔
      powMod p bits base exponent = 1) := by
    intro exponent hexponent
    rw [powMod_eq p (show exponent < 2 ^ bits by omega), ← Nat.cast_pow, ← Nat.cast_one,
      ZMod.natCast_eq_natCast_iff', Nat.one_mod_eq_one.mpr (by omega)]
  refine lucas_primality p (base : ZMod p) ((hpow _ le_rfl).mpr hone) fun q hq hdvd hzero => ?_
  rw [← hproduct] at hdvd
  obtain ⟨factor, hfactor, hdivides⟩ := (Prime.dvd_prod_iff hq.prime).mp hdvd
  obtain rfl := (Nat.prime_dvd_prime_iff_eq hq (hprime _ hfactor)).mp hdivides
  exact hother q hfactor ((hpow _ (Nat.div_le_self _ _)).mp hzero)

end Ivnp.Lib
