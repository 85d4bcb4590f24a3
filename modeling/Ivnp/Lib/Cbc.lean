import Ivnp.Lib.Bytes

/-!
Cipher block chaining over byte strings, for any block size and any pair of
block functions. The two directions are mutually inverse on whole blocks when
the block functions are.
-/

namespace Ivnp.Lib.Cbc

open FixedBytes

section Chaining

variable {size : Nat} (encrypt decrypt : FixedBytes size → FixedBytes size)

def encryptBlocks : Nat → FixedBytes size → Bytes → Bytes
  | 0, _, _ => []
  | count + 1, previous, src =>
    let block := encrypt ((FixedBytes.copy size src).xor previous)
    block.val ++ encryptBlocks count block (src.drop size)

def decryptBlocks : Nat → FixedBytes size → Bytes → Bytes
  | 0, _, _ => []
  | count + 1, previous, src =>
    let block := FixedBytes.copy size src
    ((decrypt block).xor previous).val ++ decryptBlocks count block (src.drop size)

@[simp] theorem length_encryptBlocks (count : Nat) (previous : FixedBytes size) (src : Bytes) :
    (encryptBlocks encrypt count previous src).length = count * size := by
  induction count generalizing previous src with
  | zero => simp [encryptBlocks]
  | succ count ih =>
    rw [encryptBlocks, List.length_append, ih, length_val]
    ring

@[simp] theorem length_decryptBlocks (count : Nat) (previous : FixedBytes size) (src : Bytes) :
    (decryptBlocks decrypt count previous src).length = count * size := by
  induction count generalizing previous src with
  | zero => simp [decryptBlocks]
  | succ count ih =>
    rw [decryptBlocks, List.length_append, ih, length_val]
    ring

variable {encrypt decrypt}

theorem decryptBlocks_encryptBlocks (h : Function.LeftInverse decrypt encrypt) (count : Nat)
    (previous : FixedBytes size) (src : Bytes) (hsrc : src.length = count * size) :
    decryptBlocks decrypt count previous (encryptBlocks encrypt count previous src) = src := by
  induction count generalizing previous src with
  | zero =>
    rw [zero_mul] at hsrc
    rw [List.eq_nil_of_length_eq_zero hsrc]
    rfl
  | succ count ih =>
    rw [Nat.succ_mul] at hsrc
    rw [encryptBlocks, decryptBlocks]
    rw [copy_append, List.drop_left' (length_val _), h,
      xor_xor_cancel, ih _ _ (by rw [List.length_drop]; omega),
      copy_val_of_le (by omega), List.take_append_drop]

theorem encryptBlocks_decryptBlocks (h : Function.LeftInverse encrypt decrypt) (count : Nat)
    (previous : FixedBytes size) (src : Bytes) (hsrc : src.length = count * size) :
    encryptBlocks encrypt count previous (decryptBlocks decrypt count previous src) = src := by
  induction count generalizing previous src with
  | zero =>
    rw [zero_mul] at hsrc
    rw [List.eq_nil_of_length_eq_zero hsrc]
    rfl
  | succ count ih =>
    rw [Nat.succ_mul] at hsrc
    rw [decryptBlocks, encryptBlocks]
    rw [copy_append, List.drop_left' (length_val _), xor_xor_cancel,
      h, ih _ _ (by rw [List.length_drop]; omega), copy_val_of_le (by omega),
      List.take_append_drop]

end Chaining

end Ivnp.Lib.Cbc
