import Mathlib.Tactic

/-!
Natural-number readings of 32-bit unsigned arithmetic, for the places where a
difference is known not to wrap.
-/

namespace Ivnp.Lib

theorem toNat_sub_ofNat (word : UInt32) (n : Nat) (h : n ≤ word.toNat) :
    (word - UInt32.ofNat n).toNat = word.toNat - n := by
  have hn := UInt32.toNat_ofNat_of_lt' (Nat.lt_of_le_of_lt h word.toNat_lt)
  rw [UInt32.toNat_sub_of_le _ _ (by rw [UInt32.le_iff_toNat_le, hn]; exact h), hn]

/-- The intermediate difference may wrap below zero; the increment undoes it. -/
theorem toNat_sub_ofNat_add_one (word : UInt32) (n : Nat) (hpos : 0 < n) (h : n ≤ word.toNat + 1) :
    (word - UInt32.ofNat n + 1).toNat = word.toNat + 1 - n := by
  have hword := word.toNat_lt
  rw [UInt32.toNat_add, UInt32.toNat_sub, UInt32.toNat_ofNat']
  simp only [UInt32.toNat_one, Nat.reducePow] at *
  omega

/-- The guarded test `b != max && a == b+1` says that `a` follows `b`. -/
theorem ne_max_and_eq_succ_iff (a b : UInt32) :
    (b ≠ 0xFFFFFFFF ∧ a = b + 1) ↔ a.toNat = b.toNat + 1 := by
  have ha := a.toNat_lt
  have hb := b.toNat_lt
  rw [Ne, ← UInt32.toNat_inj, ← UInt32.toNat_inj, UInt32.toNat_add]
  simp only [UInt32.toNat_one, UInt32.reduceToNat, Nat.reducePow] at *
  omega

theorem lt_add_one_of_ne_zero {word : UInt32} (h : word + 1 ≠ 0) : word < word + 1 := by
  have hword := word.toNat_lt
  rw [Ne, ← UInt32.toNat_inj, UInt32.toNat_add] at h
  rw [UInt32.lt_iff_toNat_lt, UInt32.toNat_add]
  simp only [UInt32.toNat_one, UInt32.toNat_zero, Nat.reducePow] at *
  omega

end Ivnp.Lib
