import Mathlib.Tactic

/-!
Numbers in 64-bit words with explicit carries: the word operations, numbers of
four words, their sums and differences, and the schoolbook product and square of
eight words. Every operation says what it does to the numbers that the words
stand for.
-/

namespace Ivnp.Lib

section Words

/-- Sum with carry: the low word and the carry out. -/
def add64 (x y carry : UInt64) : UInt64 × UInt64 :=
  (x + y + carry, UInt64.ofNat ((x.toNat + y.toNat + carry.toNat) / 2 ^ 64))

/-- Difference with borrow: the low word and the borrow out. -/
def sub64 (x y borrow : UInt64) : UInt64 × UInt64 :=
  (x - y - borrow, if x.toNat < y.toNat + borrow.toNat then 1 else 0)

/-- Product: the high and the low word. -/
def mul64 (x y : UInt64) : UInt64 × UInt64 := (UInt64.ofNat (x.toNat * y.toNat / 2 ^ 64), x * y)

theorem add64_spec (x y carry : UInt64) :
    (add64 x y carry).1.toNat + 2 ^ 64 * (add64 x y carry).2.toNat =
      x.toNat + y.toNat + carry.toNat := by
  have hx := x.toNat_lt
  have hy := y.toNat_lt
  have hcarry := carry.toNat_lt
  have hlow : (x + y + carry).toNat = (x.toNat + y.toNat + carry.toNat) % 2 ^ 64 := by
    rw [UInt64.toNat_add, UInt64.toNat_add, Nat.mod_add_mod]
  have hout : (UInt64.ofNat ((x.toNat + y.toNat + carry.toNat) / 2 ^ 64)).toNat =
      (x.toNat + y.toNat + carry.toNat) / 2 ^ 64 :=
    UInt64.toNat_ofNat_of_lt' (show _ < 2 ^ 64 by omega)
  rw [add64, hlow, hout]
  exact Nat.mod_add_div _ _

variable (x y : UInt64)

theorem add64_carry_le {carry : UInt64} (h : carry.toNat ≤ 1) : (add64 x y carry).2.toNat ≤ 1 := by
  have hspec := add64_spec x y carry
  have hx := x.toNat_lt
  have hy := y.toNat_lt
  omega

theorem sub64_spec {borrow : UInt64} (h : borrow.toNat ≤ 1) :
    (sub64 x y borrow).1.toNat + (y.toNat + borrow.toNat) =
        x.toNat + 2 ^ 64 * (sub64 x y borrow).2.toNat ∧
      (sub64 x y borrow).2.toNat ≤ 1 := by
  have hx := x.toNat_lt
  have hy := y.toNat_lt
  have hlow : (x - y - borrow).toNat =
      (2 ^ 64 - borrow.toNat + (2 ^ 64 - y.toNat + x.toNat) % 2 ^ 64) % 2 ^ 64 := by
    rw [UInt64.toNat_sub, UInt64.toNat_sub]
  rw [sub64]
  dsimp only
  split
  · rw [UInt64.toNat_one]
    omega
  · rw [UInt64.toNat_zero]
    omega

theorem mul64_spec :
    2 ^ 64 * (mul64 x y).1.toNat + (mul64 x y).2.toNat = x.toNat * y.toNat := by
  have hproduct := Nat.mul_lt_mul_of_lt_of_lt x.toNat_lt y.toNat_lt
  have hhigh := UInt64.toNat_ofNat_of_lt' (Nat.div_lt_of_lt_mul hproduct)
  rw [mul64, hhigh]
  exact Nat.div_add_mod _ _

theorem mul64_high_le : (mul64 x y).1.toNat ≤ 2 ^ 64 - 2 := by
  have hspec := mul64_spec x y
  have hproduct :=
    Nat.mul_le_mul (Nat.le_sub_one_of_lt x.toNat_lt) (Nat.le_sub_one_of_lt y.toNat_lt)
  omega

theorem toNat_add_of_lt {x y : UInt64} (h : x.toNat + y.toNat < 2 ^ 64) :
    (x + y).toNat = x.toNat + y.toNat := by
  rw [UInt64.toNat_add, Nat.mod_eq_of_lt h]

theorem toNat_shift_in (high low : UInt64) :
    ((high <<< 1) ||| (low >>> 63)).toNat = 2 * high.toNat % 2 ^ 64 + low.toNat / 2 ^ 63 := by
  have hlow := low.toNat_lt
  have hbit : low.toNat / 2 ^ 63 < 2 ^ 1 := by omega
  have heven : 2 * high.toNat % 2 ^ 64 = 2 ^ 1 * (high.toNat % 2 ^ 63) := by omega
  rw [UInt64.toNat_or, UInt64.toNat_shiftLeft, UInt64.toNat_shiftRight, Nat.shiftLeft_eq,
    Nat.shiftRight_eq_div_pow]
  show high.toNat * 2 ^ 1 % 2 ^ 64 ||| low.toNat / 2 ^ 63 = _
  rw [Nat.mul_comm, heven, Nat.two_pow_add_eq_or_of_lt hbit]

end Words

/-- A number of four words, the lowest first. -/
structure Limbs4 where
  w0 : UInt64
  w1 : UInt64
  w2 : UInt64
  w3 : UInt64
  deriving DecidableEq

structure Limbs5 where
  w0 : UInt64
  w1 : UInt64
  w2 : UInt64
  w3 : UInt64
  w4 : UInt64

structure Limbs8 where
  w0 : UInt64
  w1 : UInt64
  w2 : UInt64
  w3 : UInt64
  w4 : UInt64
  w5 : UInt64
  w6 : UInt64
  w7 : UInt64

def Limbs4.toNat (z : Limbs4) : Nat :=
  z.w0.toNat + 2 ^ 64 * z.w1.toNat + 2 ^ 128 * z.w2.toNat + 2 ^ 192 * z.w3.toNat

def Limbs5.toNat (z : Limbs5) : Nat :=
  z.w0.toNat + 2 ^ 64 * z.w1.toNat + 2 ^ 128 * z.w2.toNat + 2 ^ 192 * z.w3.toNat +
    2 ^ 256 * z.w4.toNat

def Limbs8.toNat (z : Limbs8) : Nat :=
  z.w0.toNat + 2 ^ 64 * z.w1.toNat + 2 ^ 128 * z.w2.toNat + 2 ^ 192 * z.w3.toNat +
    2 ^ 256 * (z.w4.toNat + 2 ^ 64 * z.w5.toNat + 2 ^ 128 * z.w6.toNat + 2 ^ 192 * z.w7.toNat)

variable (z x : Limbs4)

namespace Limbs4

theorem toNat_lt (z : Limbs4) : z.toNat < 2 ^ 256 := by
  have h0 := z.w0.toNat_lt
  have h1 := z.w1.toNat_lt
  have h2 := z.w2.toNat_lt
  have h3 := z.w3.toNat_lt
  unfold toNat
  omega

theorem toNat_inj {z x : Limbs4} : z.toNat = x.toNat ↔ z = x := by
  refine ⟨fun h => ?_, fun h => h ▸ rfl⟩
  have hz0 := z.w0.toNat_lt
  have hz1 := z.w1.toNat_lt
  have hz2 := z.w2.toNat_lt
  have hx0 := x.w0.toNat_lt
  have hx1 := x.w1.toNat_lt
  have hx2 := x.w2.toNat_lt
  unfold toNat at h
  obtain ⟨z0, z1, z2, z3⟩ := z
  dsimp only at *
  rw [Limbs4.mk.injEq]
  simp only [← UInt64.toNat_inj]
  omega

/-- The sum of four words, and the carry out. -/
def addLimbs (z x : Limbs4) : Limbs4 × UInt64 :=
  let s0 := add64 z.w0 x.w0 0
  let s1 := add64 z.w1 x.w1 s0.2
  let s2 := add64 z.w2 x.w2 s1.2
  let s3 := add64 z.w3 x.w3 s2.2
  (⟨s0.1, s1.1, s2.1, s3.1⟩, s3.2)

/-- The difference of four words, and the borrow out. -/
def subLimbs (z x : Limbs4) : Limbs4 × UInt64 :=
  let d0 := sub64 z.w0 x.w0 0
  let d1 := sub64 z.w1 x.w1 d0.2
  let d2 := sub64 z.w2 x.w2 d1.2
  let d3 := sub64 z.w3 x.w3 d2.2
  (⟨d0.1, d1.1, d2.1, d3.1⟩, d3.2)

theorem addLimbs_spec :
    (z.addLimbs x).1.toNat + 2 ^ 256 * (z.addLimbs x).2.toNat = z.toNat + x.toNat := by
  unfold addLimbs toNat
  dsimp only
  have h0 := add64_spec z.w0 x.w0 0
  generalize add64 z.w0 x.w0 0 = s0 at *
  have h1 := add64_spec z.w1 x.w1 s0.2
  generalize add64 z.w1 x.w1 s0.2 = s1 at *
  have h2 := add64_spec z.w2 x.w2 s1.2
  generalize add64 z.w2 x.w2 s1.2 = s2 at *
  have h3 := add64_spec z.w3 x.w3 s2.2
  rw [UInt64.toNat_zero] at h0
  omega

theorem addLimbs_carry_le : (z.addLimbs x).2.toNat ≤ 1 := by
  have hspec := addLimbs_spec z x
  have hz := z.toNat_lt
  have hx := x.toNat_lt
  omega

theorem subLimbs_spec :
    (z.subLimbs x).1.toNat + x.toNat = z.toNat + 2 ^ 256 * (z.subLimbs x).2.toNat ∧
      (z.subLimbs x).2.toNat ≤ 1 := by
  unfold subLimbs toNat
  dsimp only
  have hnone : (0 : UInt64).toNat ≤ 1 := Nat.zero_le 1
  obtain ⟨h0, hb0⟩ := sub64_spec z.w0 x.w0 hnone
  generalize sub64 z.w0 x.w0 0 = d0 at *
  obtain ⟨h1, hb1⟩ := sub64_spec z.w1 x.w1 hb0
  generalize sub64 z.w1 x.w1 d0.2 = d1 at *
  obtain ⟨h2, hb2⟩ := sub64_spec z.w2 x.w2 hb1
  generalize sub64 z.w2 x.w2 d1.2 = d2 at *
  obtain ⟨h3, hb3⟩ := sub64_spec z.w3 x.w3 hb2
  generalize sub64 z.w3 x.w3 d2.2 = d3 at *
  rw [UInt64.toNat_zero] at h0
  omega

/-- The borrow says which of the two numbers is smaller. -/
theorem subLimbs_borrow :
    (z.subLimbs x).2 = if z.toNat < x.toNat then 1 else 0 := by
  obtain ⟨hspec, hle⟩ := subLimbs_spec z x
  have hlt := (z.subLimbs x).1.toNat_lt
  apply UInt64.toNat_inj.mp
  split
  · rw [UInt64.toNat_one]
    omega
  · rw [UInt64.toNat_zero]
    omega

end Limbs4

/-- One word times four words. -/
def mulRow (w : UInt64) (x : Limbs4) : Limbs5 :=
  let m0 := mul64 w x.w0
  let m1 := mul64 w x.w1
  let s1 := add64 m1.2 m0.1 0
  let m2 := mul64 w x.w2
  let s2 := add64 m2.2 m1.1 s1.2
  let m3 := mul64 w x.w3
  let s3 := add64 m3.2 m2.1 s2.2
  ⟨m0.2, s1.1, s2.1, s3.1, m3.1 + s3.2⟩

/-- A row added to the four words before it. -/
def addRow (t : Limbs4) (row : Limbs5) : Limbs5 :=
  let s0 := add64 t.w0 row.w0 0
  let s1 := add64 t.w1 row.w1 s0.2
  let s2 := add64 t.w2 row.w2 s1.2
  let s3 := add64 t.w3 row.w3 s2.2
  ⟨s0.1, s1.1, s2.1, s3.1, row.w4 + s3.2⟩

/-- The four high words. -/
def Limbs5.high (z : Limbs5) : Limbs4 := ⟨z.w1, z.w2, z.w3, z.w4⟩

def product (z x : Limbs4) : Limbs8 :=
  let r0 := mulRow z.w0 x
  let r1 := addRow r0.high (mulRow z.w1 x)
  let r2 := addRow r1.high (mulRow z.w2 x)
  let r3 := addRow r2.high (mulRow z.w3 x)
  ⟨r0.w0, r1.w0, r2.w0, r3.w0, r3.w1, r3.w2, r3.w3, r3.w4⟩

theorem mulRow_toNat (w : UInt64) (x : Limbs4) : (mulRow w x).toNat = w.toNat * x.toNat := by
  have hexpand : w.toNat * x.toNat = w.toNat * x.w0.toNat + 2 ^ 64 * (w.toNat * x.w1.toNat) +
      2 ^ 128 * (w.toNat * x.w2.toNat) + 2 ^ 192 * (w.toNat * x.w3.toNat) := by
    unfold Limbs4.toNat
    ring
  rw [hexpand, ← mul64_spec, ← mul64_spec, ← mul64_spec, ← mul64_spec]
  unfold mulRow Limbs5.toNat
  dsimp only
  have hnone : (0 : UInt64).toNat ≤ 1 := Nat.zero_le 1
  have h1 := add64_spec (mul64 w x.w1).2 (mul64 w x.w0).1 0
  have hc1 := add64_carry_le (mul64 w x.w1).2 (mul64 w x.w0).1 hnone
  generalize add64 (mul64 w x.w1).2 (mul64 w x.w0).1 0 = s1 at *
  have h2 := add64_spec (mul64 w x.w2).2 (mul64 w x.w1).1 s1.2
  have hc2 := add64_carry_le (mul64 w x.w2).2 (mul64 w x.w1).1 hc1
  generalize add64 (mul64 w x.w2).2 (mul64 w x.w1).1 s1.2 = s2 at *
  have h3 := add64_spec (mul64 w x.w3).2 (mul64 w x.w2).1 s2.2
  have hc3 := add64_carry_le (mul64 w x.w3).2 (mul64 w x.w2).1 hc2
  have hroom := mul64_high_le w x.w3
  rw [toNat_add_of_lt (by omega)]
  rw [UInt64.toNat_zero] at h1
  omega

theorem addRow_toNat {t : Limbs4} {row : Limbs5} (h : t.toNat + row.toNat < 2 ^ 64 * 2 ^ 256) :
    (addRow t row).toNat = t.toNat + row.toNat := by
  unfold addRow
  unfold Limbs5.toNat Limbs4.toNat at *
  dsimp only at *
  have h0 := add64_spec t.w0 row.w0 0
  generalize add64 t.w0 row.w0 0 = s0 at *
  have h1 := add64_spec t.w1 row.w1 s0.2
  generalize add64 t.w1 row.w1 s0.2 = s1 at *
  have h2 := add64_spec t.w2 row.w2 s1.2
  generalize add64 t.w2 row.w2 s1.2 = s2 at *
  have h3 := add64_spec t.w3 row.w3 s2.2
  rw [UInt64.toNat_zero] at h0
  rw [toNat_add_of_lt (by omega)]
  omega

theorem Limbs5.toNat_eq (z : Limbs5) : z.toNat = z.w0.toNat + 2 ^ 64 * z.high.toNat := by
  unfold Limbs5.toNat Limbs4.toNat Limbs5.high
  ring

theorem addRow_mulRow (t : Limbs4) (w : UInt64) (x : Limbs4) :
    (addRow t (mulRow w x)).toNat = t.toNat + w.toNat * x.toNat := by
  have hproduct :=
    Nat.mul_le_mul (Nat.le_sub_one_of_lt w.toNat_lt) (Nat.le_sub_one_of_lt x.toNat_lt)
  have ht := t.toNat_lt
  rw [addRow_toNat, mulRow_toNat]
  rw [mulRow_toNat]
  omega

theorem product_toNat : (product z x).toNat = z.toNat * x.toNat := by
  have hexpand : z.toNat * x.toNat = z.w0.toNat * x.toNat + 2 ^ 64 * (z.w1.toNat * x.toNat) +
      2 ^ 128 * (z.w2.toNat * x.toNat) + 2 ^ 192 * (z.w3.toNat * x.toNat) := by
    unfold Limbs4.toNat
    ring
  rw [hexpand, ← mulRow_toNat]
  unfold product
  dsimp only
  generalize mulRow z.w0 x = r0
  have h1 := addRow_mulRow r0.high z.w1 x
  generalize addRow r0.high (mulRow z.w1 x) = r1 at *
  have h2 := addRow_mulRow r1.high z.w2 x
  generalize addRow r1.high (mulRow z.w2 x) = r2 at *
  have h3 := addRow_mulRow r2.high z.w3 x
  rw [Limbs5.toNat_eq] at h1 h2
  rw [Limbs5.toNat_eq]
  unfold Limbs8.toNat
  unfold Limbs5.toNat at h3
  dsimp only
  omega

/-- The products of two different words of `z`, in the words 1 to 6. -/
def crossTerms (z : Limbs4) : Limbs8 :=
  let m01 := mul64 z.w0 z.w1
  let m02 := mul64 z.w0 z.w2
  let s2 := add64 m02.2 m01.1 0
  let m03 := mul64 z.w0 z.w3
  let s3 := add64 m03.2 m02.1 s2.2
  let t4 := m03.1 + s3.2
  let m12 := mul64 z.w1 z.w2
  let m13 := mul64 z.w1 z.w3
  let p4 := add64 m13.2 m12.1 0
  let p5 := m13.1 + p4.2
  let s3' := add64 s3.1 m12.2 0
  let s4 := add64 t4 p4.1 s3'.2
  let t5 := p5 + s4.2
  let m23 := mul64 z.w2 z.w3
  let s5 := add64 t5 m23.2 0
  ⟨0, m01.2, s2.1, s3'.1, s4.1, s5.1, m23.1 + s5.2, 0⟩

/-- The square: twice the products of different words, and the squares of the
words. -/
def squareProduct (z : Limbs4) : Limbs8 :=
  let t := crossTerms z
  let t7 := t.w6 >>> 63
  let t6 := (t.w6 <<< 1) ||| (t.w5 >>> 63)
  let t5 := (t.w5 <<< 1) ||| (t.w4 >>> 63)
  let t4 := (t.w4 <<< 1) ||| (t.w3 >>> 63)
  let t3 := (t.w3 <<< 1) ||| (t.w2 >>> 63)
  let t2 := (t.w2 <<< 1) ||| (t.w1 >>> 63)
  let t1 := t.w1 <<< 1
  let d0 := mul64 z.w0 z.w0
  let d1 := mul64 z.w1 z.w1
  let d2 := mul64 z.w2 z.w2
  let d3 := mul64 z.w3 z.w3
  let s1 := add64 t1 d0.1 0
  let s2 := add64 t2 d1.2 s1.2
  let s3 := add64 t3 d1.1 s2.2
  let s4 := add64 t4 d2.2 s3.2
  let s5 := add64 t5 d2.1 s4.2
  let s6 := add64 t6 d3.2 s5.2
  let s7 := add64 t7 d3.1 s6.2
  ⟨d0.2, s1.1, s2.1, s3.1, s4.1, s5.1, s6.1, s7.1⟩

theorem crossTerms_toNat (z : Limbs4) :
    (crossTerms z).toNat = 2 ^ 64 * (z.w0.toNat * z.w1.toNat) +
      2 ^ 128 * (z.w0.toNat * z.w2.toNat) + 2 ^ 192 * (z.w0.toNat * z.w3.toNat) +
      2 ^ 192 * (z.w1.toNat * z.w2.toNat) +
      2 ^ 256 * (z.w1.toNat * z.w3.toNat + 2 ^ 64 * (z.w2.toNat * z.w3.toNat)) := by
  have hnone : (0 : UInt64).toNat ≤ 1 := Nat.zero_le 1
  -- the row of `z.w1` fits under the two words of the row before it
  have hrow : z.w1.toNat * z.w2.toNat + 2 ^ 64 * (z.w1.toNat * z.w3.toNat) ≤
      (2 ^ 64 - 1) * (2 ^ 128 - 1) := by
    have hz2 := z.w2.toNat_lt
    have hz3 := z.w3.toNat_lt
    calc _ = z.w1.toNat * (z.w2.toNat + 2 ^ 64 * z.w3.toNat) := by ring
      _ ≤ _ := Nat.mul_le_mul (Nat.le_sub_one_of_lt z.w1.toNat_lt) (by omega)
  simp only [← mul64_spec] at hrow ⊢
  have hhigh03 := mul64_high_le z.w0 z.w3
  have hhigh23 := mul64_high_le z.w2 z.w3
  unfold crossTerms Limbs8.toNat
  dsimp only
  generalize mul64 z.w0 z.w1 = m01 at *
  generalize mul64 z.w0 z.w2 = m02 at *
  generalize mul64 z.w0 z.w3 = m03 at *
  generalize mul64 z.w1 z.w2 = m12 at *
  generalize mul64 z.w1 z.w3 = m13 at *
  generalize mul64 z.w2 z.w3 = m23 at *
  have h2 := add64_spec m02.2 m01.1 0
  have hc2 := add64_carry_le m02.2 m01.1 hnone
  generalize add64 m02.2 m01.1 0 = s2 at *
  have h3 := add64_spec m03.2 m02.1 s2.2
  have hc3 := add64_carry_le m03.2 m02.1 hc2
  generalize add64 m03.2 m02.1 s2.2 = s3 at *
  have ht4 : (m03.1 + s3.2).toNat = m03.1.toNat + s3.2.toNat := toNat_add_of_lt (by omega)
  generalize m03.1 + s3.2 = t4 at *
  have h4 := add64_spec m13.2 m12.1 0
  generalize add64 m13.2 m12.1 0 = p4 at *
  have hp5 : (m13.1 + p4.2).toNat = m13.1.toNat + p4.2.toNat := toNat_add_of_lt (by omega)
  generalize m13.1 + p4.2 = p5 at *
  have h3' := add64_spec s3.1 m12.2 0
  generalize add64 s3.1 m12.2 0 = s3' at *
  have h4' := add64_spec t4 p4.1 s3'.2
  generalize add64 t4 p4.1 s3'.2 = s4 at *
  rw [UInt64.toNat_zero] at h2 h4 h3'
  have ht5 : (p5 + s4.2).toNat = p5.toNat + s4.2.toNat := by
    have hs3 := s3.1.toNat_lt
    exact toNat_add_of_lt (by omega)
  generalize p5 + s4.2 = t5 at *
  have h5 := add64_spec t5 m23.2 0
  have hc5 := add64_carry_le t5 m23.2 hnone
  generalize add64 t5 m23.2 0 = s5 at *
  have ht6 : (m23.1 + s5.2).toNat = m23.1.toNat + s5.2.toNat := toNat_add_of_lt (by omega)
  rw [UInt64.toNat_zero]
  rw [UInt64.toNat_zero] at h5
  omega

theorem squareProduct_toNat (z : Limbs4) : (squareProduct z).toNat = z.toNat * z.toNat := by
  have hexpand : z.toNat * z.toNat = z.w0.toNat * z.w0.toNat + 2 ^ 128 * (z.w1.toNat * z.w1.toNat) +
      2 ^ 256 * (z.w2.toNat * z.w2.toNat + 2 ^ 128 * (z.w3.toNat * z.w3.toNat)) +
      2 * (crossTerms z).toNat := by
    rw [crossTerms_toNat]
    unfold Limbs4.toNat
    ring
  have hlt := Nat.mul_lt_mul_of_lt_of_lt z.toNat_lt z.toNat_lt
  rw [hexpand] at hlt ⊢
  have hends : (crossTerms z).w0 = 0 ∧ (crossTerms z).w7 = 0 := ⟨rfl, rfl⟩
  simp only [← mul64_spec] at hlt ⊢
  unfold squareProduct Limbs8.toNat at *
  dsimp only
  generalize crossTerms z = t at *
  generalize mul64 z.w0 z.w0 = d0 at *
  generalize mul64 z.w1 z.w1 = d1 at *
  generalize mul64 z.w2 z.w2 = d2 at *
  generalize mul64 z.w3 z.w3 = d3 at *
  have ht7 : (t.w6 >>> 63).toNat = t.w6.toNat / 2 ^ 63 := by
    rw [UInt64.toNat_shiftRight, Nat.shiftRight_eq_div_pow]
    rfl
  have ht6 := toNat_shift_in t.w6 t.w5
  have ht5 := toNat_shift_in t.w5 t.w4
  have ht4 := toNat_shift_in t.w4 t.w3
  have ht3 := toNat_shift_in t.w3 t.w2
  have ht2 := toNat_shift_in t.w2 t.w1
  have ht1 : (t.w1 <<< 1).toNat = 2 * t.w1.toNat % 2 ^ 64 := by rfl
  rw [hends.1, hends.2, UInt64.toNat_zero] at hlt ⊢
  generalize t.w6 >>> 63 = t7 at *
  generalize (t.w6 <<< 1) ||| (t.w5 >>> 63) = t6 at *
  generalize (t.w5 <<< 1) ||| (t.w4 >>> 63) = t5 at *
  generalize (t.w4 <<< 1) ||| (t.w3 >>> 63) = t4 at *
  generalize (t.w3 <<< 1) ||| (t.w2 >>> 63) = t3 at *
  generalize (t.w2 <<< 1) ||| (t.w1 >>> 63) = t2 at *
  generalize t.w1 <<< 1 = t1 at *
  have h1 := add64_spec t1 d0.1 0
  generalize add64 t1 d0.1 0 = s1 at *
  have h2 := add64_spec t2 d1.2 s1.2
  generalize add64 t2 d1.2 s1.2 = s2 at *
  have h3 := add64_spec t3 d1.1 s2.2
  generalize add64 t3 d1.1 s2.2 = s3 at *
  have h4 := add64_spec t4 d2.2 s3.2
  generalize add64 t4 d2.2 s3.2 = s4 at *
  have h5 := add64_spec t5 d2.1 s4.2
  generalize add64 t5 d2.1 s4.2 = s5 at *
  have h6 := add64_spec t6 d3.2 s5.2
  generalize add64 t6 d3.2 s5.2 = s6 at *
  have h7 := add64_spec t7 d3.1 s6.2
  rw [UInt64.toNat_zero] at h1
  omega

end Ivnp.Lib
