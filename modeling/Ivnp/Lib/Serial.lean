import Mathlib.Tactic

/-!
Serial numbers: 32-bit counters that wrap, compared by the sign of their
difference. A counter stands for the unbounded positions that are congruent to
it; on positions less than half the range apart the comparison is the order of
the positions.
-/

namespace Ivnp.Lib.Serial

open UInt32

/-- `int32(left - right) > 0`. -/
def after (left right : UInt32) : Bool := (left - right).toInt32 > 0

/-- `int32(left - right) <= 0`. -/
def beforeOrEqual (left right : UInt32) : Bool := (left - right).toInt32 ≤ 0

theorem toInt_toInt32 (word : UInt32) :
    word.toInt32.toInt =
      if word.toNat < 2 ^ 31 then (word.toNat : Int) else (word.toNat : Int) - 2 ^ 32 := by
  have h : word.toInt32.toInt = word.toBitVec.toInt := rfl
  rw [h, BitVec.toInt_eq_toNat_cond, toNat_toBitVec]
  split <;> split <;> omega

theorem after_iff (left right : UInt32) :
    after left right = true ↔ 0 < (left - right).toNat ∧ (left - right).toNat < 2 ^ 31 := by
  have hlt := (left - right).toNat_lt
  rw [after, decide_eq_true_eq, gt_iff_lt, Int32.lt_iff_toInt_lt, toInt_toInt32, Int32.toInt_zero]
  split <;> omega

theorem beforeOrEqual_eq_not_after (left right : UInt32) :
    beforeOrEqual left right = !after left right := by
  rw [beforeOrEqual, after, ← decide_not, decide_eq_decide, Int32.le_iff_toInt_le, gt_iff_lt,
    Int32.lt_iff_toInt_lt, Int.not_lt]

variable {low high : Nat}

theorem toNat_sub_ofNat_ofNat (h : low ≤ high) :
    (UInt32.ofNat high - UInt32.ofNat low).toNat = (high - low) % 2 ^ 32 := by
  rw [← ofNat_sub h, toNat_ofNat']

theorem after_of_lt (h : low < high) (hnear : high < low + 2 ^ 31) :
    after (UInt32.ofNat high) (UInt32.ofNat low) = true := by
  rw [after_iff, toNat_sub_ofNat_ofNat h.le]
  omega

/-- A position less than half the range ahead that compares as not after is
not ahead. -/
theorem le_of_beforeOrEqual (hnear : high < low + 2 ^ 31)
    (h : beforeOrEqual (UInt32.ofNat high) (UInt32.ofNat low) = true) : high ≤ low := by
  by_contra hlt
  rw [beforeOrEqual_eq_not_after, after_of_lt (not_le.mp hlt) hnear] at h
  exact absurd h (by decide)

theorem ofNat_inj (hle : low ≤ high) (hnear : high < low + 2 ^ 32)
    (h : UInt32.ofNat high = UInt32.ofNat low) : high = low := by
  have hzero := toNat_sub_ofNat_ofNat hle
  rw [h, UInt32.sub_self, UInt32.toNat_zero] at hzero
  omega

end Ivnp.Lib.Serial
