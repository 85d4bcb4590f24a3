import Mathlib.NumberTheory.LegendreSymbol.Basic
import Mathlib.NumberTheory.LegendreSymbol.QuadraticReciprocity
import Mathlib.Tactic

/-!
Square roots of ratios modulo a prime that is 5 modulo 8: the candidate
`u v³ (u v⁷) ^ ((p - 5) / 8)` is a root of `u / v` up to a fourth root of unity, which
says whether there is one. And the Elligator 2 map of a Montgomery curve, whose two
preimages of a coordinate both lead back to it.
-/

namespace Ivnp.Lib

section Squares

variable {K : Type*} [Field K]

theorem isSquare_mul_sq_iff {a b : K} (hb : b ≠ 0) : IsSquare (a * b ^ 2) ↔ IsSquare a := by
  constructor
  · rintro ⟨c, hc⟩
    refine ⟨c / b, ?_⟩
    field_simp
    rw [hc, sq]
  · rintro ⟨c, rfl⟩
    exact ⟨c * b, by ring⟩

end Squares

section Ratio

variable {p : Nat} [Fact p.Prime]

/-- The candidate for a root of `u / v`, with the exponent `k` for `(p - 5) / 8`. -/
def rootCandidate (k : Nat) (u v : ZMod p) : ZMod p := u * v ^ 3 * (u * v ^ 7) ^ k

theorem rootCandidate_iff {k : Nat} (hk : p = 8 * k + 5) (u : ZMod p) {v : ZMod p} (hv : v ≠ 0) :
    (v * rootCandidate k u v ^ 2 = u ∨ v * rootCandidate k u v ^ 2 = -u) ↔ IsSquare (u / v) := by
  have hcandidate : v * rootCandidate k u v ^ 2 = u * (u * v ^ 7) ^ (2 * k + 1) := by
    unfold rootCandidate
    ring
  rw [hcandidate]
  by_cases hu : u = 0
  · rw [hu]
    refine iff_of_true (.inl (zero_mul _)) ?_
    rw [zero_div]
    exact IsSquare.zero
  · have hw := mul_ne_zero hu (pow_ne_zero 7 hv)
    have hratio : u * v ^ 7 = u / v * (v ^ 4) ^ 2 := by field_simp
    have hhalf : (2 * k + 1) * 2 = p / 2 := by omega
    have hunit : IsSquare (u / v) ↔ ((u * v ^ 7) ^ (2 * k + 1)) ^ 2 = 1 := by
      rw [← isSquare_mul_sq_iff (pow_ne_zero 4 hv), ← hratio, ← pow_mul, hhalf]
      exact ZMod.euler_criterion p hw
    rw [hunit, sq_eq_one_iff, mul_eq_left₀ hu]
    rw [← mul_neg_one, mul_right_inj' hu]

end Ratio

section Elligator

variable {K : Type*} [Field K]

/-- The right side of the curve equation `y² = x³ + A x² + x`. -/
def montgomery (A x : K) : K := x ^ 3 + A * x ^ 2 + x

/-- The first of the two coordinates that a representative may stand for. -/
def elligatorFirst (A r : K) : K := -A * (1 + (r ^ 2 + r ^ 2))⁻¹

theorem elligatorFirst_eq (A r : K) : elligatorFirst A r = -A * (1 + 2 * r ^ 2)⁻¹ := by
  rw [elligatorFirst, two_mul]

variable {A x r : K} (hA : A ≠ 0) (hr : r ^ 2 * (2 * (-x - A)) = x)
include hA hr

/-- The root of `x / (2 (-x - A))` leads to `-x - A`, which is not on the curve. -/
theorem elligatorFirst_root : elligatorFirst A r = -x - A := by
  have hsum : (1 + 2 * r ^ 2) * (-x - A) = -A := by linear_combination hr
  have hne : 1 + 2 * r ^ 2 ≠ 0 := fun hzero => hA (by rw [hzero] at hsum; simpa using hsum)
  rw [elligatorFirst_eq]
  rw [← hsum, mul_comm, ← mul_assoc, inv_mul_cancel₀ hne, one_mul]

theorem not_isSquare_elligatorFirst_root (hxA : -x - A ≠ 0) (htwo : ¬ IsSquare (2 : K))
    (hcurve : IsSquare (montgomery A x)) (hne : montgomery A x ≠ 0) :
    ¬ IsSquare (montgomery A (elligatorFirst A r)) := by
  rw [elligatorFirst_root hA hr]
  rintro ⟨root, hroot⟩
  obtain ⟨y, hy⟩ := hcurve
  have hproduct : 2 * r ^ 2 * montgomery A (-x - A) = montgomery A x := by
    apply mul_left_cancel₀ hxA
    unfold montgomery
    linear_combination (x ^ 2 + A * x + 1) * (-x - A) * hr
  rw [hroot, hy] at hproduct
  have hnonzero : r * root ≠ 0 := by
    intro hzero
    apply hne
    rw [hy, ← hproduct]
    linear_combination 2 * (r * root) * hzero
  refine htwo ⟨y / (r * root), ?_⟩
  rw [div_mul_div_comm, eq_div_iff (mul_ne_zero hnonzero hnonzero)]
  linear_combination hproduct

theorem elligatorFirst_inverse {other : K} (hother : 2 * r * other = 1) :
    elligatorFirst A other = x := by
  have hsum : (1 + 2 * other ^ 2) * x = -A := by
    linear_combination (-(1 + 2 * other ^ 2) + 1) * hr + (-x - A) * (2 * r * other + 1) * hother
  have hne : 1 + 2 * other ^ 2 ≠ 0 := fun hzero => hA (by rw [hzero] at hsum; simpa using hsum)
  rw [elligatorFirst_eq]
  rw [← hsum, mul_comm, ← mul_assoc, inv_mul_cancel₀ hne, one_mul]

end Elligator

end Ivnp.Lib
