import Mathlib.Data.List.Basic
import Mathlib.Tactic

/-!
Big-endian numerals over byte lists. A Go `binary.BigEndian.PutUintN` writes
`natBE (N / 8)` of the value and `binary.BigEndian.UintN` reads `beNat` of the
first `N / 8` bytes; the two are mutually inverse on numerals of that length.
-/

namespace Ivnp.Lib

open List

abbrev Bytes := List UInt8

/-- `bytes.Compare`: the order of the first difference. -/
def compareBytes : Bytes → Bytes → Ordering
  | [], [] => .eq
  | [], _ :: _ => .lt
  | _ :: _, [] => .gt
  | left :: lefts, right :: rights =>
    if left < right then .lt else if right < left then .gt else compareBytes lefts rights

theorem compareBytes_swap (left right : Bytes) :
    compareBytes right left = (compareBytes left right).swap := by
  induction left generalizing right with
  | nil => cases right <;> rfl
  | cons left lefts ih =>
    cases right with
    | nil => rfl
    | cons right rights =>
      simp only [compareBytes]
      by_cases hless : left < right
      · simp only [if_pos hless, if_neg (UInt8.lt_asymm hless)]
        rfl
      by_cases hgreater : right < left
      · simp only [if_neg hless, if_pos hgreater]
        rfl
      · simp only [if_neg hless, if_neg hgreater]
        exact ih _

theorem eq_of_compareBytes_eq {left right : Bytes} (h : compareBytes left right = .eq) :
    left = right := by
  induction left generalizing right with
  | nil =>
    cases right with
    | nil => rfl
    | cons => cases h
  | cons left lefts ih =>
    cases right with
    | nil => cases h
    | cons right rights =>
      simp only [compareBytes] at h
      split at h
      · cases h
      next hless =>
      split at h
      · cases h
      next hgreater =>
      have hsame := UInt8.le_antisymm (UInt8.not_lt.mp hgreater) (UInt8.not_lt.mp hless)
      rw [hsame, ih h]

/-- A Go array of `n` bytes. -/
abbrev FixedBytes (n : Nat) := { bytes : Bytes // bytes.length = n }

variable {n : Nat}

namespace FixedBytes

@[simp] theorem length_val (bytes : FixedBytes n) : bytes.val.length = n := bytes.property

def zero (n : Nat) : FixedBytes n := ⟨List.replicate n 0, List.length_replicate⟩

def slice (bytes : Bytes) (offset n : Nat) (h : offset + n ≤ bytes.length) : FixedBytes n :=
  ⟨(bytes.drop offset).take n, by rw [List.length_take, List.length_drop]; omega⟩

/-- Go's `copy` of `bytes` into a zeroed array. -/
def copy (n : Nat) (bytes : Bytes) : FixedBytes n := ⟨(bytes ++ List.replicate n 0).take n, by simp⟩

theorem copy_val_of_le {bytes : Bytes} (h : n ≤ bytes.length) : (copy n bytes).val = bytes.take n :=
  take_append_of_le_length h

theorem copy_append (block : FixedBytes n) (rest : Bytes) : copy n (block.val ++ rest) = block := by
  apply Subtype.ext
  rw [copy_val_of_le (by simp)]
  exact take_left' block.property

@[simp] theorem copy_val (block : FixedBytes n) : copy n block.val = block := by
  have h := copy_append block []
  rw [append_nil] at h
  exact h

def xor {n : Nat} (left right : FixedBytes n) : FixedBytes n :=
  ⟨List.zipWith (· ^^^ ·) left.val right.val, by simp⟩

theorem xor_xor_cancel (left right : FixedBytes n) : (left.xor right).xor right = left := by
  apply Subtype.ext
  apply ext_getElem
  · simp [xor]
  · intro index _ _
    simp only [xor, getElem_zipWith, UInt8.xor_assoc, UInt8.xor_self, UInt8.xor_zero]

theorem xor_comm (left right : FixedBytes n) : left.xor right = right.xor left :=
  Subtype.ext (zipWith_comm_of_comm UInt8.xor_comm)

theorem xor_right_comm (left middle right : FixedBytes n) :
    (left.xor middle).xor right = (left.xor right).xor middle := by
  apply Subtype.ext
  apply ext_getElem
  · simp [xor]
  · intro index _ _
    simp only [xor, getElem_zipWith, UInt8.xor_assoc]
    congr 1
    exact UInt8.xor_comm _ _

end FixedBytes

theorem slice_append {bytes : Bytes} {offset width : Nat} (h : offset + width ≤ bytes.length)
    (rest : Bytes) :
    ((bytes ++ rest).drop offset).take width = (bytes.drop offset).take width := by
  rw [drop_append_of_le_length (by omega), take_append_of_le_length]
  rw [length_drop]
  omega

theorem drop_skip {field : Bytes} {length : Nat} (hfield : field.length = length) (rest : Bytes)
    (offset : Nat) (h : length ≤ offset) :
    (field ++ rest).drop offset = rest.drop (offset - length) := by
  rw [drop_append, drop_eq_nil_of_le (by omega), nil_append, hfield]

theorem getD_skip {field : Bytes} {length : Nat} (hfield : field.length = length) (rest : Bytes)
    (offset : Nat) (h : length ≤ offset) :
    (field ++ rest).getD offset 0 = rest.getD (offset - length) 0 := by
  rw [getD_eq_getElem?_getD, getElem?_append_right (by omega), hfield, getD_eq_getElem?_getD]

/-- The value of a big-endian numeral. -/
def beNat (bytes : Bytes) : Nat := bytes.foldl (fun value byte => value * 256 + byte.toNat) 0

/-- The `width` low bytes of `value`, most significant byte first. -/
def natBE : Nat → Nat → Bytes
  | 0, _ => []
  | width + 1, value => UInt8.ofNat (value / 256 ^ width) :: natBE width value

variable (width value : Nat)

@[simp] theorem natBE_length :
    (natBE width value).length = width := by
  induction width with
  | zero => rfl
  | succ width ih => simp [natBE, ih]

variable (bytes : Bytes)

private theorem foldl_beNat (start : Nat) :
    bytes.foldl (fun value byte => value * 256 + byte.toNat) start =
      start * 256 ^ bytes.length + beNat bytes := by
  induction bytes generalizing start with
  | nil => simp [beNat]
  | cons byte rest ih =>
    simp only [foldl_cons, beNat, length_cons]
    rw [ih, ih (0 * 256 + byte.toNat)]
    ring

theorem beNat_cons (byte : UInt8) (rest : Bytes) :
    beNat (byte :: rest) = byte.toNat * 256 ^ rest.length + beNat rest := by
  rw [beNat, foldl_cons, foldl_beNat]
  ring

theorem beNat_lt : beNat bytes < 256 ^ bytes.length := by
  induction bytes with
  | nil => simp [beNat]
  | cons byte rest ih =>
    rw [beNat_cons]
    have hbyte := byte.toNat_lt
    calc byte.toNat * 256 ^ rest.length + beNat rest
          < byte.toNat * 256 ^ rest.length + 256 ^ rest.length := by omega
      _ = (byte.toNat + 1) * 256 ^ rest.length := by ring
      _ ≤ 256 * 256 ^ rest.length := Nat.mul_le_mul_right _ hbyte
      _ = 256 ^ rest.length * 256 := by ring

/-- Reading back a written numeral keeps the value modulo its width. -/
theorem beNat_natBE :
    beNat (natBE width value) = value % 256 ^ width := by
  induction width with
  | zero => simp [natBE, beNat, Nat.mod_one]
  | succ width ih =>
    rw [natBE, beNat_cons, ih, natBE_length, UInt8.toNat_ofNat']
    have hsplit : value % 256 ^ (width + 1) =
        value % 256 ^ width + 256 ^ width * (value / 256 ^ width % 256) := by
      rw [pow_succ, Nat.mod_mul]
    rw [hsplit]
    ring

theorem beNat_natBE_of_lt (h : value < 256 ^ width) : beNat (natBE width value) = value := by
  rw [beNat_natBE, Nat.mod_eq_of_lt h]

theorem natBE_mod : natBE width (value % 256 ^ width) = natBE width value := by
  induction width generalizing value with
  | zero => rfl
  | succ width ih =>
    have hhigh : value % 256 ^ (width + 1) / 256 ^ width = value / 256 ^ width % 256 := by
      rw [pow_succ, Nat.mod_mul_right_div_self]
    have hlow := Nat.mod_mod_of_dvd value (pow_dvd_pow 256 (Nat.le_succ width))
    have hbyte : UInt8.ofNat (value / 256 ^ width % 256) = UInt8.ofNat (value / 256 ^ width) := by
      apply UInt8.toNat_inj.mp
      exact Nat.mod_mod _ _
    rw [natBE, natBE, hhigh, hbyte, ← ih, hlow, ih]

theorem natBE_beNat : natBE bytes.length (beNat bytes) = bytes := by
  induction bytes with
  | nil => rfl
  | cons byte rest ih =>
    have hrest := beNat_lt rest
    have hpos : 0 < 256 ^ rest.length := Nat.pow_pos (by decide)
    have hdiv : beNat (byte :: rest) / 256 ^ rest.length = byte.toNat := by
      rw [beNat_cons, Nat.mul_comm, Nat.mul_add_div hpos, Nat.div_eq_of_lt hrest, Nat.add_zero]
    have hmod : beNat (byte :: rest) % 256 ^ rest.length = beNat rest := by
      rw [beNat_cons, Nat.mul_comm, Nat.mul_add_mod, Nat.mod_eq_of_lt hrest]
    rw [length_cons, natBE, hdiv, UInt8.ofNat_toNat, ← natBE_mod, hmod, ih]

/-- `binary.BigEndian.Uint32` of the four bytes from `offset` on. -/
def uint32At (bytes : Bytes) (offset : Nat) : UInt32 :=
  UInt32.ofNat (beNat ((bytes.drop offset).take 4))

/-- `binary.BigEndian.Uint16` of the two bytes from `offset` on. -/
def uint16At (bytes : Bytes) (offset : Nat) : UInt16 :=
  UInt16.ofNat (beNat ((bytes.drop offset).take 2))

/-- `copy` of the bytes from `offset` on into an array. -/
def arrayAt (n : Nat) (bytes : Bytes) (offset : Nat) : FixedBytes n :=
  FixedBytes.copy n (bytes.drop offset)

@[simp] theorem uint32At_append (word : UInt32) (rest : Bytes) :
    uint32At (natBE 4 word.toNat ++ rest) 0 = word := by
  rw [uint32At, drop_zero, take_left' (natBE_length _ _),
    beNat_natBE_of_lt _ _ word.toNat_lt, UInt32.ofNat_toNat]

@[simp] theorem uint16At_append (word : UInt16) (rest : Bytes) :
    uint16At (natBE 2 word.toNat ++ rest) 0 = word := by
  rw [uint16At, drop_zero, take_left' (natBE_length _ _),
    beNat_natBE_of_lt _ _ word.toNat_lt, UInt16.ofNat_toNat]

theorem uint16At_append_of_le {bytes : Bytes} {offset : Nat} (h : offset + 2 ≤ bytes.length)
    (rest : Bytes) : uint16At (bytes ++ rest) offset = uint16At bytes offset := by
  rw [uint16At, uint16At, slice_append h]

@[simp] theorem arrayAt_append (array : FixedBytes n) (rest : Bytes) :
    arrayAt n (array.val ++ rest) 0 = array :=
  FixedBytes.copy_append _ _

theorem toNat_uint16At_natBE {value : Nat} (h : value < 65536) (rest : Bytes) :
    (uint16At (natBE 2 value ++ rest) 0).toNat = value := by
  rw [uint16At, drop_zero, take_left' (natBE_length _ _), beNat_natBE_of_lt _ _ h]
  exact UInt16.toNat_ofNat_of_lt' h

theorem take_two_eq_natBE {bytes : Bytes} (h : 2 ≤ bytes.length) :
    bytes.take 2 = natBE 2 (uint16At bytes 0).toNat := by
  have hlength := length_take_of_le h
  have hlt := beNat_lt (bytes.take 2)
  rw [hlength] at hlt
  have hsame := natBE_beNat (bytes.take 2)
  rw [hlength] at hsame
  rw [uint16At, drop_zero, UInt16.toNat_ofNat_of_lt' hlt, hsame]

theorem drop_split (offset length : Nat) :
    bytes.drop offset = (bytes.drop offset).take length ++ bytes.drop (offset + length) := by
  rw [← drop_drop, take_append_drop]

section Skip

variable {field : Bytes} {length : Nat} (hfield : field.length = length) (rest : Bytes)
  (offset : Nat) (h : length ≤ offset)
include hfield h

theorem uint32At_skip : uint32At (field ++ rest) offset = uint32At rest (offset - length) := by
  rw [uint32At, drop_skip hfield _ _ h]
  rfl

theorem uint16At_skip : uint16At (field ++ rest) offset = uint16At rest (offset - length) := by
  rw [uint16At, drop_skip hfield _ _ h]
  rfl

theorem arrayAt_skip :
    arrayAt n (field ++ rest) offset = arrayAt n rest (offset - length) := by
  rw [arrayAt, drop_skip hfield _ _ h]
  rfl

end Skip

end Ivnp.Lib
