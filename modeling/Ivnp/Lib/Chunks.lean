import Mathlib.Algebra.BigOperators.Group.Finset.Basic
import Mathlib.Data.List.Basic

/-!
A list cut into pieces of one size, of which the last may be shorter.
-/

namespace Ivnp.Lib

open List

variable {α : Type*} {size count : Nat} {data : List α}

def chunks (size : Nat) : Nat → List α → List (List α)
  | 0, _ => []
  | count + 1, data => data.take size :: chunks size count (data.drop size)

@[simp] theorem length_chunks (size count : Nat) (data : List α) :
    (chunks size count data).length = count := by
  induction count generalizing data with
  | zero => rfl
  | succ count ih => rw [chunks, length_cons, ih]

/-- The list has exactly `count` pieces, none of them empty. -/
structure Fills (size count : Nat) (data : List α) : Prop where
  enough : data.length ≤ size * count
  needed : size * count < data.length + size

theorem fills_ceil (hsize : 0 < size) (data : List α) :
    Fills size ((data.length + size - 1) / size) data := by
  have hdivision := Nat.div_add_mod (data.length + size - 1) size
  have hmod := Nat.mod_lt (data.length + size - 1) hsize
  constructor <;> omega

theorem Fills.ne_nil (h : Fills size (count + 1) data) : data ≠ [] := by
  rintro rfl
  have hneeded := h.needed
  rw [Nat.mul_succ, length_nil] at hneeded
  omega

theorem Fills.eq_nil (h : Fills size 0 data) : data = [] := by
  have henough := h.enough
  exact eq_nil_of_length_eq_zero (by omega)

theorem Fills.drop (h : Fills size (count + 1) data) : Fills size count (data.drop size) := by
  have hlow := h.enough
  have hhigh := h.needed
  rw [Nat.mul_succ] at hlow hhigh
  constructor
  · rw [length_drop]
    omega
  · rw [length_drop]
    omega

theorem Fills.pos (h : Fills size count data) : 0 < size := by
  have henough := h.enough
  have hneeded := h.needed
  omega

theorem Fills.length_le_iff (h : Fills size (count + 1) data) : data.length ≤ size ↔ count = 0 := by
  have hlow := h.enough
  have hhigh := h.needed
  rw [Nat.mul_succ] at hlow hhigh
  constructor
  · intro hle
    by_contra hcount
    have hmul := Nat.mul_le_mul_left size (Nat.one_le_iff_ne_zero.mpr hcount)
    omega
  · rintro rfl
    omega

theorem flatten_chunks (h : Fills size count data) : (chunks size count data).flatten = data := by
  induction count generalizing data with
  | zero =>
    rw [h.eq_nil]
    rfl
  | succ count ih => rw [chunks, flatten_cons, ih h.drop, take_append_drop]

theorem length_of_mem_chunks (h : Fills size count data) :
    ∀ piece ∈ chunks size count data, 0 < piece.length ∧ piece.length ≤ size := by
  induction count generalizing data with
  | zero => exact forall_mem_nil _
  | succ count ih =>
    apply forall_mem_cons.mpr ⟨?_, ih h.drop⟩
    have hdata := length_pos_of_ne_nil h.ne_nil
    have hsize := h.pos
    rw [length_take]
    omega

theorem sum_length_getD (pieces : List (List α)) :
    ∑ number ∈ Finset.range pieces.length, (pieces.getD number []).length =
      pieces.flatten.length := by
  induction pieces with
  | nil => rfl
  | cons first rest ih =>
    rw [length_cons, Finset.sum_range_succ', flatten_cons, length_append, ← ih]
    exact Nat.add_comm _ _

end Ivnp.Lib
