import Ivnp.Cryptography.Field25519
import Ivnp.Lib.LittleEndian

/-!
What the word operations do to the numbers they stand for. Masks are ones exactly
when their comparison holds; every operation but subtraction ends in a fold and so
has a result below `p`, and a product is reduced correctly exactly when no column
of the reduction carries two.
-/

namespace Ivnp.Cryptography

open Ivnp.Lib UInt64

def p25519 : Nat := 2 ^ 255 - 19

theorem toNat_fieldP : fieldP.toNat = p25519 := by decide

variable (z : Field25519)

theorem toNat_or_byte {word amount : UInt64} (byte : UInt8) {value : Nat} (shift : Nat)
    (hamount : amount = UInt64.ofNat shift) (hword : word.toNat = value) (hvalue : value < 2 ^ shift)
    (hshift : shift ≤ 56) :
    (word ||| byte.toUInt64 <<< amount).toNat = value + 2 ^ shift * byte.toNat := by
  subst hamount hword
  exact toNat_or_shift _ _ _ hvalue hshift

theorem toNat_eight (b0 b1 b2 b3 b4 b5 b6 b7 : UInt8) :
    (b0.toUInt64 ||| b1.toUInt64 <<< 8 ||| b2.toUInt64 <<< 16 ||| b3.toUInt64 <<< 24 |||
        b4.toUInt64 <<< 32 ||| b5.toUInt64 <<< 40 ||| b6.toUInt64 <<< 48 |||
        b7.toUInt64 <<< 56).toNat =
      b0.toNat + 2 ^ 8 * b1.toNat + 2 ^ 16 * b2.toNat + 2 ^ 24 * b3.toNat + 2 ^ 32 * b4.toNat +
        2 ^ 40 * b5.toNat + 2 ^ 48 * b6.toNat + 2 ^ 56 * b7.toNat := by
  have hb0 := b0.toNat_lt
  have hb1 := b1.toNat_lt
  have hb2 := b2.toNat_lt
  have hb3 := b3.toNat_lt
  have hb4 := b4.toNat_lt
  have hb5 := b5.toNat_lt
  have hb6 := b6.toNat_lt
  have h1 := toNat_or_byte b1 8 rfl (UInt8.toNat_toUInt64 b0) (by omega) (by decide)
  have h2 := toNat_or_byte b2 16 rfl h1 (by omega) (by decide)
  have h3 := toNat_or_byte b3 24 rfl h2 (by omega) (by decide)
  have h4 := toNat_or_byte b4 32 rfl h3 (by omega) (by decide)
  have h5 := toNat_or_byte b5 40 rfl h4 (by omega) (by decide)
  have h6 := toNat_or_byte b6 48 rfl h5 (by omega) (by decide)
  exact toNat_or_byte b7 56 rfl h6 (by omega) (by decide)

theorem leNat_drop_eight {bytes : Bytes} {offset : Nat} (h : offset + 8 ≤ bytes.length) :
    leNat (bytes.drop offset) =
      (loadWord bytes offset).toNat + 2 ^ 64 * leNat (bytes.drop (offset + 8)) := by
  rw [leNat_drop (show offset < bytes.length by omega),
    leNat_drop (show offset + 1 < bytes.length by omega),
    leNat_drop (show offset + 2 < bytes.length by omega),
    leNat_drop (show offset + 3 < bytes.length by omega),
    leNat_drop (show offset + 4 < bytes.length by omega),
    leNat_drop (show offset + 5 < bytes.length by omega),
    leNat_drop (show offset + 6 < bytes.length by omega),
    leNat_drop (show offset + 7 < bytes.length by omega)]
  unfold loadWord
  dsimp only
  rw [toNat_eight]
  rw [show offset + 0 = offset from rfl, show offset + 7 + 1 = offset + 8 from rfl]
  omega

theorem toNat_fieldLoad (bytes : FixedBytes 32) : (fieldLoad bytes).toNat = leNat bytes.val := by
  have hlength := bytes.property
  have h0 := @leNat_drop_eight bytes.val 0 (by omega)
  have h8 := @leNat_drop_eight bytes.val 8 (by omega)
  have h16 := @leNat_drop_eight bytes.val 16 (by omega)
  have h24 := @leNat_drop_eight bytes.val 24 (by omega)
  have hend := List.drop_eq_nil_of_le hlength.le
  rw [List.drop_zero] at h0
  rw [hend, leNat] at h24
  simp only [Nat.zero_add, Nat.reduceAdd] at h0 h8 h16
  unfold fieldLoad Limbs4.toNat
  dsimp only
  omega

theorem storeWord_eq (word : UInt64) : storeWord word = natLE 8 word.toNat := by
  have hbyte : ∀ shift : Nat, shift < 64 → (word >>> UInt64.ofNat shift).toUInt8 =
      UInt8.ofNat (word.toNat / 2 ^ shift) := by
    intro shift hshift
    apply UInt8.toNat_inj.mp
    rw [UInt64.toNat_toUInt8, UInt64.toNat_shiftRight, UInt8.toNat_ofNat',
      UInt64.toNat_ofNat_of_lt' (show shift < 2 ^ 64 by omega), Nat.mod_eq_of_lt hshift,
      Nat.shiftRight_eq_div_pow]
  simp only [natLE, Nat.div_div_eq_div_mul]
  exact congrArg₂ _ rfl (congrArg₂ _ (hbyte 8 (by decide)) (congrArg₂ _ (hbyte 16 (by decide))
    (congrArg₂ _ (hbyte 24 (by decide)) (congrArg₂ _ (hbyte 32 (by decide))
      (congrArg₂ _ (hbyte 40 (by decide)) (congrArg₂ _ (hbyte 48 (by decide))
        (congrArg₂ _ (hbyte 56 (by decide)) rfl)))))))

theorem store_eq : (store z).val = natLE 32 z.toNat := by
  have h0 := z.w0.toNat_lt
  have h1 := z.w1.toNat_lt
  have h2 := z.w2.toNat_lt
  have hword0 : natLE 8 z.toNat = storeWord z.w0 := by
    rw [storeWord_eq, ← natLE_add_mul 8 z.w0.toNat
      (z.w1.toNat + 2 ^ 64 * (z.w2.toNat + 2 ^ 64 * z.w3.toNat))]
    congr 1
    unfold Limbs4.toNat
    omega
  have hword1 : natLE 8 (z.toNat / 256 ^ 8) = storeWord z.w1 := by
    rw [storeWord_eq, ← natLE_add_mul 8 z.w1.toNat (z.w2.toNat + 2 ^ 64 * z.w3.toNat)]
    congr 1
    unfold Limbs4.toNat
    omega
  have hword2 : natLE 8 (z.toNat / 256 ^ 16) = storeWord z.w2 := by
    rw [storeWord_eq, ← natLE_add_mul 8 z.w2.toNat z.w3.toNat]
    congr 1
    unfold Limbs4.toNat
    omega
  have hword3 : natLE 8 (z.toNat / 256 ^ 24) = storeWord z.w3 := by
    rw [storeWord_eq]
    congr 1
    unfold Limbs4.toNat
    omega
  have hsplit : natLE 32 z.toNat = natLE 8 z.toNat ++ (natLE 8 (z.toNat / 256 ^ 8) ++
      (natLE 8 (z.toNat / 256 ^ 16) ++ natLE 8 (z.toNat / 256 ^ 24))) := by
    have h24 := natLE_add 8 24 z.toNat
    have h16 := natLE_add 8 16 (z.toNat / 256 ^ 8)
    have h8 := natLE_add 8 8 (z.toNat / 256 ^ 16)
    rw [Nat.div_div_eq_div_mul] at h16 h8
    exact h24.trans (congrArg _ (h16.trans (congrArg _ h8)))
  rw [hsplit, hword0, hword1, hword2, hword3]
  rfl

variable (z x : Field25519)

theorem zero_sub_bit (h : Prop) [Decidable h] :
    (0 : UInt64) - (if h then 1 else 0) = if h then -1 else 0 := by
  split
  · rfl
  · rfl

theorem not_mask (h : Prop) [Decidable h] :
    ~~~(if h then -1 else 0 : UInt64) = if h then 0 else -1 := by
  split
  · rfl
  · rfl

theorem fieldZeroMask_eq (x : UInt64) : fieldZeroMask x = if x = 0 then -1 else 0 := by
  unfold fieldZeroMask fieldNonzeroMask
  split
  next h =>
    rw [h]
    rfl
  next h =>
  -- a nonzero word or its negative has the top bit
  have htop : (x ||| (0 : UInt64) - x) >>> (63 : UInt64) = 1 := by
    have hx : x.toNat ≠ 0 := fun hzero => h (UInt64.toNat_inj.mp hzero)
    have hneg : ((0 : UInt64) - x).toNat = (2 ^ 64 - x.toNat + 0) % 2 ^ 64 := UInt64.toNat_sub _ _
    have hor := (x ||| (0 : UInt64) - x).toNat_lt
    have hleft : x.toNat ≤ (x ||| (0 : UInt64) - x).toNat := by exact Nat.left_le_or
    have hright : ((0 : UInt64) - x).toNat ≤ (x ||| (0 : UInt64) - x).toNat := by
      exact Nat.right_le_or
    apply UInt64.toNat_inj.mp
    rw [UInt64.toNat_shiftRight, Nat.shiftRight_eq_div_pow]
    show _ / 2 ^ 63 = 1
    omega
  rw [htop]
  rfl

theorem equalMask_eq :
    equalMask z x = if z.toNat = x.toNat then -1 else 0 := by
  unfold equalMask
  rw [fieldZeroMask_eq]
  refine if_congr ?_ rfl rfl
  rw [Limbs4.toNat_inj]
  obtain ⟨z0, z1, z2, z3⟩ := z
  obtain ⟨x0, x1, x2, x3⟩ := x
  simp only [or_eq_zero_iff, xor_eq_zero_iff, Limbs4.mk.injEq, and_assoc]

theorem zeroMask_eq : zeroMask z = if z.toNat = 0 then -1 else 0 := by
  unfold zeroMask
  rw [fieldZeroMask_eq]
  refine if_congr ?_ rfl rfl
  have hzero : z.toNat = 0 ↔ z = fieldZero := Limbs4.toNat_inj (x := fieldZero)
  rw [hzero]
  obtain ⟨z0, z1, z2, z3⟩ := z
  simp only [or_eq_zero_iff, fieldZero, Limbs4.mk.injEq, and_assoc]

theorem lessMask_eq : lessMask z x = if z.toNat < x.toNat then -1 else 0 := by
  unfold lessMask
  rw [Limbs4.subLimbs_borrow, zero_sub_bit]

theorem lessOrEqualMask_eq :
    lessOrEqualMask z x = if z.toNat ≤ x.toNat then -1 else 0 := by
  unfold lessOrEqualMask
  rw [lessMask_eq, equalMask_eq]
  rcases Nat.lt_trichotomy z.toNat x.toNat with hlt | heq | hgt
  · rw [if_pos hlt, if_neg (Nat.ne_of_lt hlt), if_pos hlt.le]
    rfl
  · rw [if_neg (Nat.not_lt.mpr heq.ge), if_pos heq, if_pos heq.le]
    rfl
  · rw [if_neg (Nat.lt_asymm hgt), if_neg (Nat.ne_of_gt hgt), if_neg (Nat.not_le.mpr hgt)]
    rfl

theorem fieldSelect_mask (a b : Field25519) (h : Prop) [Decidable h] :
    fieldSelect a b (if h then -1 else 0) = if h then a else b := by
  have hnot : ~~~(-1 : UInt64) = 0 := rfl
  have hzero : ~~~(0 : UInt64) = -1 := rfl
  unfold fieldSelect
  split
  · rw [hnot]
    simp only [UInt64.and_neg_one, UInt64.and_zero, UInt64.or_zero]
  · rw [hzero]
    simp only [UInt64.and_neg_one, UInt64.and_zero, UInt64.zero_or]

variable {carry : UInt64}

theorem toNat_canonical :
    (canonical z).toNat = if z.toNat < p25519 then z.toNat else z.toNat - p25519 := by
  have hspec := (z.subLimbs_spec fieldP).1
  unfold canonical
  dsimp only
  rw [Limbs4.subLimbs_borrow, toNat_fieldP] at *
  rw [zero_sub_bit, not_mask]
  split
  next h =>
    have hselect := fieldSelect_mask (z.subLimbs fieldP).1 z False
    rw [if_neg not_false, if_neg not_false] at hselect
    rw [hselect]
  next h =>
    have hselect := fieldSelect_mask (z.subLimbs fieldP).1 z True
    rw [if_pos trivial, if_pos trivial] at hselect
    rw [hselect]
    rw [if_neg h, UInt64.toNat_zero] at hspec
    omega

theorem toNat_fieldFold (h : carry.toNat ≤ 2 ^ 40) :
    (fieldFold z carry).toNat = (z.toNat + 2 ^ 256 * carry.toNat) % p25519 := by
  have h0 := z.w0.toNat_lt
  have h1 := z.w1.toNat_lt
  have h2 := z.w2.toNat_lt
  have h3 := z.w3.toNat_lt
  have hshift : (carry <<< 1).toNat = 2 * carry.toNat := by
    rw [UInt64.toNat_shiftLeft, Nat.shiftLeft_eq]
    show carry.toNat * 2 ^ 1 % 2 ^ 64 = _
    omega
  have htop : (z.w3 >>> 63).toNat = z.w3.toNat / 2 ^ 63 := by
    rw [UInt64.toNat_shiftRight, Nat.shiftRight_eq_div_pow]
    rfl
  have hhigh : ((z.w3 >>> 63) + (carry <<< 1)).toNat = z.w3.toNat / 2 ^ 63 + 2 * carry.toNat := by
    rw [toNat_add_of_lt (by omega), hshift, htop]
  have hnineteen : ((19 : UInt64) * ((z.w3 >>> 63) + (carry <<< 1))).toNat =
      19 * (z.w3.toNat / 2 ^ 63 + 2 * carry.toNat) := by
    rw [UInt64.toNat_mul]
    show 19 * _ % 2 ^ 64 = _
    omega
  have hmask : (z.w3 &&& fieldTopMask).toNat = z.w3.toNat % 2 ^ 63 := by
    exact Nat.and_two_pow_sub_one_eq_mod _ 63
  -- the number is `high * p` more than what the fold adds up
  have hsplit : z.toNat + 2 ^ 256 * carry.toNat =
      p25519 * (z.w3.toNat / 2 ^ 63 + 2 * carry.toNat) + (z.w0.toNat + 2 ^ 64 * z.w1.toNat +
        2 ^ 128 * z.w2.toNat + 2 ^ 192 * (z.w3.toNat % 2 ^ 63) +
        19 * (z.w3.toNat / 2 ^ 63 + 2 * carry.toNat)) := by
    unfold Limbs4.toNat p25519
    omega
  have hsum := Limbs4.addLimbs_spec ⟨z.w0, z.w1, z.w2, z.w3 &&& fieldTopMask⟩
    ⟨(19 : UInt64) * ((z.w3 >>> 63) + (carry <<< 1)), 0, 0, 0⟩
  have hrest : (Limbs4.mk z.w0 z.w1 z.w2 (z.w3 &&& fieldTopMask)).toNat +
      (Limbs4.mk ((19 : UInt64) * ((z.w3 >>> 63) + (carry <<< 1))) 0 0 0).toNat =
        z.w0.toNat + 2 ^ 64 * z.w1.toNat + 2 ^ 128 * z.w2.toNat + 2 ^ 192 * (z.w3.toNat % 2 ^ 63) +
          19 * (z.w3.toNat / 2 ^ 63 + 2 * carry.toNat) := by
    unfold Limbs4.toNat
    dsimp only
    rw [UInt64.toNat_zero]
    omega
  rw [hrest] at hsum
  rw [hsplit, Nat.mul_add_mod]
  unfold fieldFold
  rw [toNat_canonical]
  generalize (Limbs4.addLimbs ⟨z.w0, z.w1, z.w2, z.w3 &&& fieldTopMask⟩
    ⟨(19 : UInt64) * ((z.w3 >>> 63) + (carry <<< 1)), 0, 0, 0⟩) = s at *
  rw [← hsum]
  have hlt : s.1.toNat + 2 ^ 256 * s.2.toNat < 2 * p25519 := by
    unfold p25519
    omega
  have hcarry : s.2.toNat = 0 := by omega
  rw [hcarry, Nat.mul_zero, Nat.add_zero] at hlt ⊢
  split
  next hless => exact (Nat.mod_eq_of_lt hless).symm
  next hmore => rw [Nat.mod_eq_sub_mod (Nat.not_lt.mp hmore), Nat.mod_eq_of_lt (by omega)]

theorem toNat_fieldAdd :
    (fieldAdd z x).toNat = (z.toNat + x.toNat) % p25519 := by
  have hcarry := z.addLimbs_carry_le x
  unfold fieldAdd
  rw [toNat_fieldFold _ (by omega), Limbs4.addLimbs_spec]

/-- What a subtraction gives: the result is only what it should be if the right
operand is not too large. -/
theorem toNat_fieldSub {z x : Field25519} (h : x.toNat ≤ z.toNat + p25519) :
    (fieldSub z x).toNat =
      if z.toNat < x.toNat then z.toNat + p25519 - x.toNat else z.toNat - x.toNat := by
  have hspec := (z.subLimbs_spec x).1
  have hlt := (z.subLimbs x).1.toNat_lt
  unfold fieldSub
  dsimp only
  rw [Limbs4.subLimbs_borrow] at hspec ⊢
  rw [zero_sub_bit]
  split
  next hless =>
    have hmask : (⟨fieldP.w0 &&& -1, fieldP.w1 &&& -1, fieldP.w2 &&& -1, fieldP.w3 &&& -1⟩ :
        Limbs4) = fieldP := rfl
    rw [hmask]
    have hsum := (z.subLimbs x).1.addLimbs_spec fieldP
    have hsumLt := ((z.subLimbs x).1.addLimbs fieldP).1.toNat_lt
    rw [toNat_fieldP] at hsum
    unfold p25519 at *
    omega
  next hmore =>
    have hmask : (⟨fieldP.w0 &&& 0, fieldP.w1 &&& 0, fieldP.w2 &&& 0, fieldP.w3 &&& 0⟩ :
        Limbs4) = fieldZero := rfl
    rw [hmask]
    have hzero : fieldZero.toNat = 0 := rfl
    have hsum := (z.subLimbs x).1.addLimbs_spec fieldZero
    omega

theorem toNat_fieldNeg {z : Field25519} (h : z.toNat < p25519) :
    (fieldNeg z).toNat = if z.toNat = 0 then 0 else p25519 - z.toNat := by
  unfold fieldNeg
  rw [zeroMask_eq, fieldSelect_mask]
  split
  · rfl
  rw [toNat_fieldSub, toNat_fieldP, if_neg (Nat.not_lt.mpr h.le)]
  omega

theorem toNat_mulA24 : (mulA24 z).toNat = 121665 * z.toNat % p25519 := by
  have hrow := mulRow_toNat 121665 z
  have hz := z.toNat_lt
  have hconst : (121665 : UInt64).toNat = 121665 := rfl
  rw [hconst] at hrow
  unfold mulA24
  generalize mulRow 121665 z = row at *
  have hcarry : row.w4.toNat ≤ 2 ^ 40 := by
    unfold Limbs5.toNat at hrow
    omega
  rw [toNat_fieldFold _ hcarry, ← hrow]
  rfl

section Reduction

def digit (number index : Nat) : Nat := number / 2 ^ (64 * index) % 2 ^ 64

/-- What the reduction of a product adds up in its second column: the digit, the
low word of the digit four places up times 38, the high word from the column
before and its carry. -/
def secondColumn (number : Nat) : Nat :=
  digit number 1 + 38 * digit number 5 % 2 ^ 64 + 38 * digit number 4 / 2 ^ 64 +
    (digit number 0 + 38 * digit number 4 % 2 ^ 64) / 2 ^ 64

def thirdColumn (number : Nat) : Nat :=
  digit number 2 + 38 * digit number 6 % 2 ^ 64 + 38 * digit number 5 / 2 ^ 64 +
    secondColumn number / 2 ^ 64

/-- No column of the reduction hands two to the next. -/
def CarriesOne (number : Nat) : Prop := secondColumn number < 2 ^ 65 ∧ thirdColumn number < 2 ^ 65

instance (number : Nat) : Decidable (CarriesOne number) := inferInstanceAs (Decidable (_ ∧ _))

theorem digit_add_four (number index : Nat) :
    digit number (4 + index) = digit (number / 2 ^ 256) index := by
  unfold digit
  rw [Nat.div_div_eq_div_mul, ← pow_add, Nat.mul_add]

variable (t : Limbs8)

theorem digits_toNat :
    digit t.toNat 0 = t.w0.toNat ∧ digit t.toNat 1 = t.w1.toNat ∧ digit t.toNat 2 = t.w2.toNat ∧
      digit t.toNat 4 = t.w4.toNat ∧ digit t.toNat 5 = t.w5.toNat ∧
      digit t.toNat 6 = t.w6.toNat := by
  have h0 := t.w0.toNat_lt
  have h1 := t.w1.toNat_lt
  have h2 := t.w2.toNat_lt
  have h3 := t.w3.toNat_lt
  have h4 := t.w4.toNat_lt
  have h5 := t.w5.toNat_lt
  have h6 := t.w6.toNat_lt
  have hhigh : t.toNat / 2 ^ 256 =
      t.w4.toNat + 2 ^ 64 * t.w5.toNat + 2 ^ 128 * t.w6.toNat + 2 ^ 192 * t.w7.toNat := by
    unfold Limbs8.toNat
    omega
  have hdigit4 := digit_add_four t.toNat 0
  have hdigit5 := digit_add_four t.toNat 1
  have hdigit6 := digit_add_four t.toNat 2
  refine ⟨?_, ?_, ?_, hdigit4.trans ?_, hdigit5.trans ?_, hdigit6.trans ?_⟩
  · unfold digit Limbs8.toNat
    omega
  · unfold digit Limbs8.toNat
    omega
  · unfold digit Limbs8.toNat
    omega
  · unfold digit
    omega
  · unfold digit
    omega
  · unfold digit
    omega

theorem mul64_38 (x : UInt64) :
    (mul64 x 38).1.toNat = 38 * x.toNat / 2 ^ 64 ∧ (mul64 x 38).2.toNat = 38 * x.toNat % 2 ^ 64 := by
  have hspec := mul64_spec x 38
  have hlow := (mul64 x 38).2.toNat_lt
  have hconst : (38 : UInt64).toNat = 38 := rfl
  rw [hconst] at hspec
  constructor
  · omega
  · omega

variable (other : OtherCarry)

theorem add64Carry_of_le {x y : UInt64} (h : carry.toNat ≤ 1) :
    add64Carry other x y carry = some (add64 x y carry) :=
  if_pos (le_iff_toNat_le.mpr h)

theorem add64Carry_of_gt {x y : UInt64} (h : 1 < carry.toNat) :
    add64Carry other x y carry = other x y carry := by
  refine if_neg fun hle => ?_
  have hcarry : carry.toNat ≤ 1 := le_iff_toNat_le.mp hle
  omega

theorem toNat_carries (word low high : UInt64) (hcarry : carry.toNat ≤ 1) :
    ((add64 word (add64 low high 0).1 carry).2 + (add64 low high 0).2).toNat =
        (word.toNat + low.toNat + high.toNat + carry.toNat) / 2 ^ 64 ∧
      (add64 word (add64 low high 0).1 carry).1.toNat =
        (word.toNat + low.toNat + high.toNat + carry.toNat) % 2 ^ 64 := by
  have hnone : (0 : UInt64).toNat ≤ 1 := Nat.zero_le 1
  have h1 := add64_spec low high 0
  have hc1 := add64_carry_le low high hnone
  generalize add64 low high 0 = first at *
  have h2 := add64_spec word first.1 carry
  have hc2 := add64_carry_le word first.1 hcarry
  generalize add64 word first.1 carry = second at *
  have hlt := second.1.toNat_lt
  rw [UInt64.toNat_zero] at h1
  rw [toNat_add_of_lt (by omega)]
  constructor
  · omega
  · omega

theorem toNat_secondColumn :
    let s0 := add64 t.w0 (mul64 t.w4 38).2 0
    let l1 := add64 (mul64 t.w5 38).2 (mul64 t.w4 38).1 0
    let s1 := add64 t.w1 l1.1 s0.2
    s0.1.toNat = (t.w0.toNat + 38 * t.w4.toNat % 2 ^ 64) % 2 ^ 64 ∧
      s1.1.toNat = secondColumn t.toNat % 2 ^ 64 ∧
      (s1.2 + l1.2).toNat = secondColumn t.toNat / 2 ^ 64 := by
  obtain ⟨hd0, hd1, -, hd4, hd5, -⟩ := digits_toNat t
  obtain ⟨hhi0, hlo0⟩ := mul64_38 t.w4
  obtain ⟨hhi1, hlo1⟩ := mul64_38 t.w5
  have hnone : (0 : UInt64).toNat ≤ 1 := Nat.zero_le 1
  have h0 := add64_spec t.w0 (mul64 t.w4 38).2 0
  have hc0 := add64_carry_le t.w0 (mul64 t.w4 38).2 hnone
  have hs0 := (add64 t.w0 (mul64 t.w4 38).2 0).1.toNat_lt
  rw [UInt64.toNat_zero] at h0
  obtain ⟨hcarry, hword⟩ := toNat_carries t.w1 (mul64 t.w5 38).2 (mul64 t.w4 38).1 hc0
  have hcolumn : t.w1.toNat + (mul64 t.w5 38).2.toNat + (mul64 t.w4 38).1.toNat +
      (add64 t.w0 (mul64 t.w4 38).2 0).2.toNat = secondColumn t.toNat := by
    unfold secondColumn
    rw [hd4, hd5]
    omega
  rw [hcolumn] at hcarry hword
  omega

theorem toNat_thirdColumn
    (hcarry : carry.toNat = secondColumn t.toNat / 2 ^ 64) (hle : carry.toNat ≤ 1) :
    let l2 := add64 (mul64 t.w6 38).2 (mul64 t.w5 38).1 0
    let s2 := add64 t.w2 l2.1 carry
    s2.1.toNat = thirdColumn t.toNat % 2 ^ 64 ∧
      (s2.2 + l2.2).toNat = thirdColumn t.toNat / 2 ^ 64 := by
  obtain ⟨-, -, hd2, -, hd5, hd6⟩ := digits_toNat t
  obtain ⟨hhi1, hlo1⟩ := mul64_38 t.w5
  obtain ⟨hhi2, hlo2⟩ := mul64_38 t.w6
  obtain ⟨hout, hword⟩ := toNat_carries t.w2 (mul64 t.w6 38).2 (mul64 t.w5 38).1 hle
  have hcolumn : t.w2.toNat + (mul64 t.w6 38).2.toNat + (mul64 t.w5 38).1.toNat + carry.toNat =
      thirdColumn t.toNat := by
    unfold thirdColumn
    rw [hd5, hd6]
    omega
  rw [hcolumn] at hout hword
  exact ⟨hword, hout⟩

theorem toNat_fourthColumn (hle : carry.toNat ≤ 1) :
    let l3 := add64 (mul64 t.w7 38).2 (mul64 t.w6 38).1 0
    let s3 := add64 t.w3 l3.1 carry
    let column := t.w3.toNat + 38 * t.w7.toNat % 2 ^ 64 + 38 * t.w6.toNat / 2 ^ 64 + carry.toNat
    s3.1.toNat = column % 2 ^ 64 ∧
      ((mul64 t.w7 38).1 + l3.2 + s3.2).toNat = 38 * t.w7.toNat / 2 ^ 64 + column / 2 ^ 64 := by
  obtain ⟨hhi2, hlo2⟩ := mul64_38 t.w6
  obtain ⟨hhi3, hlo3⟩ := mul64_38 t.w7
  have h7 := t.w7.toNat_lt
  have hnone : (0 : UInt64).toNat ≤ 1 := Nat.zero_le 1
  dsimp only
  obtain ⟨hout, hword⟩ := toNat_carries t.w3 (mul64 t.w7 38).2 (mul64 t.w6 38).1 hle
  have hl3 := add64_carry_le (mul64 t.w7 38).2 (mul64 t.w6 38).1 hnone
  generalize add64 (mul64 t.w7 38).2 (mul64 t.w6 38).1 0 = l3 at *
  have hs3 := add64_carry_le t.w3 l3.1 hle
  generalize add64 t.w3 l3.1 carry = s3 at *
  rw [toNat_add_of_lt (by omega)] at hout
  have hlow : ((mul64 t.w7 38).1 + l3.2).toNat = (mul64 t.w7 38).1.toNat + l3.2.toNat :=
    toNat_add_of_lt (by omega)
  have hsum : ((mul64 t.w7 38).1 + l3.2 + s3.2).toNat =
      (mul64 t.w7 38).1.toNat + l3.2.toNat + s3.2.toNat := by
    rw [toNat_add_of_lt (by omega), hlow]
  rw [hlo3, hhi2] at hword hout
  exact ⟨hword, by omega⟩

/-- Modulo `p` the upper half of a number counts 38 times. -/
theorem add_high_mod (low high : Nat) :
    (low + 2 ^ 256 * high) % p25519 = (low + 38 * high) % p25519 := by
  have hsplit : low + 2 ^ 256 * high = low + 38 * high + p25519 * (2 * high) := by
    unfold p25519
    omega
  rw [hsplit, Nat.add_mul_mod_self_left]

theorem columns_sum {w0 w1 w2 w3 w4 w5 w6 w7 first second third fourth : Nat}
    (hfirst : first = w0 + 38 * w4 % 2 ^ 64)
    (hsecond : second = w1 + 38 * w5 % 2 ^ 64 + 38 * w4 / 2 ^ 64 + first / 2 ^ 64)
    (hthird : third = w2 + 38 * w6 % 2 ^ 64 + 38 * w5 / 2 ^ 64 + second / 2 ^ 64)
    (hfourth : fourth = w3 + 38 * w7 % 2 ^ 64 + 38 * w6 / 2 ^ 64 + third / 2 ^ 64) :
    first % 2 ^ 64 + 2 ^ 64 * (second % 2 ^ 64) + 2 ^ 128 * (third % 2 ^ 64) +
        2 ^ 192 * (fourth % 2 ^ 64) + 2 ^ 256 * (38 * w7 / 2 ^ 64 + fourth / 2 ^ 64) =
      w0 + 2 ^ 64 * w1 + 2 ^ 128 * w2 + 2 ^ 192 * w3 +
        38 * (w4 + 2 ^ 64 * w5 + 2 ^ 128 * w6 + 2 ^ 192 * w7) := by
  omega

/-- A product is reduced correctly if no column carries two. -/
theorem fieldReduce512_eq_some {t : Limbs8} (h : CarriesOne t.toNat) :
    ∃ r, fieldReduce512 other t = some r ∧ r.toNat = t.toNat % p25519 := by
  obtain ⟨hd0, hd1, hd2, hd4, hd5, hd6⟩ := digits_toNat t
  obtain ⟨hword0, hword1, hcarry1⟩ := toNat_secondColumn t
  have hsecond : secondColumn t.toNat / 2 ^ 64 ≤ 1 := by
    have := h.1
    omega
  have hthird : thirdColumn t.toNat / 2 ^ 64 ≤ 1 := by
    have := h.2
    omega
  unfold fieldReduce512
  dsimp only at hword0 hword1 hcarry1 ⊢
  rw [add64Carry_of_le _ (hcarry1.le.trans hsecond), Option.bind_some]
  obtain ⟨hword2, hcarry2⟩ := toNat_thirdColumn t hcarry1 (hcarry1.le.trans hsecond)
  rw [add64Carry_of_le _ (hcarry2.le.trans hthird)]
  obtain ⟨hword3, hcarry3⟩ := toNat_fourthColumn t (hcarry2.le.trans hthird)
  have h6 := t.w6.toNat_lt
  have h7 := t.w7.toNat_lt
  have h3 := t.w3.toNat_lt
  refine ⟨_, rfl, ?_⟩
  have hmod : t.toNat % p25519 = (t.w0.toNat + 2 ^ 64 * t.w1.toNat + 2 ^ 128 * t.w2.toNat +
      2 ^ 192 * t.w3.toNat + 38 * (t.w4.toNat + 2 ^ 64 * t.w5.toNat + 2 ^ 128 * t.w6.toNat +
        2 ^ 192 * t.w7.toNat)) % p25519 := add_high_mod _ _
  rw [toNat_fieldFold _ (by omega), hcarry3, hmod]
  congr 1
  unfold Limbs4.toNat
  rw [hword0, hword1, hword2, hword3, hcarry2]
  refine columns_sum rfl ?_ ?_ rfl
  · unfold secondColumn
    rw [hd0, hd1, hd4, hd5]
  · unfold thirdColumn
    rw [hd2, hd5, hd6]

/-- If a column carries two, the result is not defined. -/
theorem fieldReduce512_undefined {t : Limbs8} (h : ¬ CarriesOne t.toNat) :
    fieldReduce512 undefinedCarry t = none := by
  obtain ⟨-, -, hcarry1⟩ := toNat_secondColumn t
  unfold fieldReduce512
  dsimp only at hcarry1 ⊢
  generalize add64 t.w0 (mul64 t.w4 38).2 0 = s0 at *
  generalize add64 (mul64 t.w5 38).2 (mul64 t.w4 38).1 0 = l1 at *
  generalize add64 t.w1 l1.1 s0.2 = s1 at *
  rcases Nat.lt_or_ge (secondColumn t.toNat) (2 ^ 65) with hsecond | hsecond
  · have hle : (s1.2 + l1.2).toNat ≤ 1 := by omega
    obtain ⟨-, hcarry2⟩ := toNat_thirdColumn t hcarry1 hle
    have hthird := Nat.not_lt.mp fun hlt => h ⟨hsecond, hlt⟩
    rw [add64Carry_of_le _ hle, Option.bind_some, add64Carry_of_gt _ (by omega)]
    rfl
  · rw [add64Carry_of_gt _ (by omega)]
    rfl

end Reduction

end Ivnp.Cryptography
