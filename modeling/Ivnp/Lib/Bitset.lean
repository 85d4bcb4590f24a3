import Mathlib.Data.List.Basic
import Mathlib.Tactic

/-!
Sets of bit numbers kept in 64-bit words. Setting bits never clears another
one, which is all a Bloom filter needs to have no false negatives.
-/

namespace Ivnp.Lib

open Option

def hasBit (words : List UInt64) (bit : UInt64) : Bool :=
  words.getD (bit / 64).toNat 0 &&& ((1 : UInt64) <<< (bit &&& 63)) ≠ 0

def setBit (words : List UInt64) (bit : UInt64) : List UInt64 :=
  words.modify (bit / 64).toNat fun word => word ||| ((1 : UInt64) <<< (bit &&& 63))

variable (words : List UInt64)

@[simp] theorem setBit_length (bit : UInt64) : (setBit words bit).length = words.length := by
  simp [setBit]

private theorem mask_ne_zero (bit : UInt64) : (1 : UInt64) <<< (bit &&& 63) ≠ 0 := by
  intro h
  have hzero := congrArg UInt64.toNat h
  rw [UInt64.toNat_shiftLeft, UInt64.toNat_one, Nat.one_shiftLeft, Nat.mod_eq_of_lt (Nat.pow_lt_pow_right (by omega) (by omega))] at hzero
  exact absurd hzero (Nat.two_pow_pos _).ne'

private theorem or_and_distrib (word other mask : UInt64) :
    (word ||| other) &&& mask = (word &&& mask) ||| (other &&& mask) :=
  UInt64.toBitVec_inj.mp BitVec.and_or_distrib_right

theorem hasBit_setBit_self (bit : UInt64)
    (h : (bit / 64).toNat < words.length) : hasBit (setBit words bit) bit = true := by
  simp only [hasBit, setBit, List.getD_eq_getElem?_getD, List.getElem?_modify,
    List.getElem?_eq_getElem h, map_eq_map, map_some, getD_some, if_true,
    decide_eq_true_eq]
  rw [or_and_distrib, UInt64.and_self, ne_eq, UInt64.or_eq_zero_iff, not_and_or]
  exact Or.inr (mask_ne_zero _)

theorem hasBit_setBit (bit other : UInt64)
    (h : hasBit words other = true) : hasBit (setBit words bit) other = true := by
  simp only [hasBit, setBit, List.getD_eq_getElem?_getD, List.getElem?_modify,
    decide_eq_true_eq, map_eq_map] at h ⊢
  cases hword : words[(other / 64).toNat]? with
  | none =>
    rw [hword, getD_none, UInt64.zero_and] at h
    exact absurd rfl h
  | some word =>
    rw [hword] at h
    rw [map_some, getD_some]
    split
    · rw [or_and_distrib, ne_eq, UInt64.or_eq_zero_iff, not_and_or]
      exact Or.inl h
    · exact h

variable (bits : List UInt64)

theorem hasBit_setBits (words : List UInt64) (other : UInt64)
    (h : hasBit words other = true) : hasBit (bits.foldl setBit words) other = true := by
  induction bits generalizing words with
  | nil => exact h
  | cons bit rest ih => exact ih _ (hasBit_setBit _ _ _ h)

theorem hasBit_setBits_mem (words : List UInt64)
    (hrange : ∀ bit ∈ bits, (bit / 64).toNat < words.length) :
    ∀ bit ∈ bits, hasBit (bits.foldl setBit words) bit = true := by
  induction bits generalizing words with
  | nil => simp
  | cons first rest ih =>
    intro bit hmem
    rcases List.mem_cons.mp hmem with rfl | hmem
    · exact hasBit_setBits rest _ _ (hasBit_setBit_self _ _ (hrange _ (by simp)))
    · refine ih _ ?_ _ hmem
      intro other hother
      rw [setBit_length]
      exact hrange _ (List.mem_cons_of_mem _ hother)

@[simp] theorem setBits_length (words : List UInt64) :
    (bits.foldl setBit words).length = words.length := by
  induction bits generalizing words with
  | nil => rfl
  | cons bit rest ih => rw [List.foldl_cons, ih, setBit_length]

end Ivnp.Lib
