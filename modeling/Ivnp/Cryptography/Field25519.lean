import Ivnp.Lib.Bytes
import Ivnp.Lib.Limbs

/-!
The field of Curve25519 in four 64-bit words: loading and storing, comparisons as
masks, and the field operations up to the reduction of a product. Words are
compared and selected without branches, so a comparison is a word of ones or of
zeros.
-/

namespace Ivnp.Cryptography

open Ivnp.Lib

abbrev Field25519 := Limbs4

def fieldTopMask : UInt64 := 0x7fffffffffffffff

def fieldP : Field25519 :=
  ⟨0xffffffffffffffed, 0xffffffffffffffff, 0xffffffffffffffff, fieldTopMask⟩

def fieldA : Field25519 := ⟨486662, 0, 0, 0⟩

def fieldNegA : Field25519 :=
  ⟨0xfffffffffff892e7, 0xffffffffffffffff, 0xffffffffffffffff, fieldTopMask⟩

def fieldHalf : Field25519 :=
  ⟨0xfffffffffffffff6, 0xffffffffffffffff, 0xffffffffffffffff, 0x3fffffffffffffff⟩

def fieldOne : Field25519 := ⟨1, 0, 0, 0⟩

def fieldTwo : Field25519 := ⟨2, 0, 0, 0⟩

def fieldZero : Field25519 := ⟨0, 0, 0, 0⟩

def fieldSqrtM1 : Field25519 :=
  ⟨0xc4ee1b274a0ea0b0, 0x2f431806ad2fe478, 0x2b4d00993dfbd7a7, 0x2b8324804fc1df0b⟩

/-- The word at `offset`, lowest byte first. -/
def loadWord (bytes : Bytes) (offset : Nat) : UInt64 :=
  let byte (index : Nat) : UInt64 := (bytes.getD (offset + index) 0).toUInt64
  byte 0 ||| byte 1 <<< 8 ||| byte 2 <<< 16 ||| byte 3 <<< 24 ||| byte 4 <<< 32 |||
    byte 5 <<< 40 ||| byte 6 <<< 48 ||| byte 7 <<< 56

def fieldLoad (bytes : FixedBytes 32) : Field25519 :=
  ⟨loadWord bytes.val 0, loadWord bytes.val 8, loadWord bytes.val 16, loadWord bytes.val 24⟩

def storeWord (word : UInt64) : Bytes :=
  [word.toUInt8, (word >>> 8).toUInt8, (word >>> 16).toUInt8, (word >>> 24).toUInt8,
    (word >>> 32).toUInt8, (word >>> 40).toUInt8, (word >>> 48).toUInt8, (word >>> 56).toUInt8]

def store (z : Field25519) : FixedBytes 32 :=
  ⟨storeWord z.w0 ++ (storeWord z.w1 ++ (storeWord z.w2 ++ storeWord z.w3)), rfl⟩

def fieldNonzeroMask (x : UInt64) : UInt64 := 0 - ((x ||| (0 : UInt64) - x) >>> (63 : UInt64))

def fieldZeroMask (x : UInt64) : UInt64 := ~~~fieldNonzeroMask x

def equalMask (z x : Field25519) : UInt64 :=
  fieldZeroMask ((z.w0 ^^^ x.w0) ||| (z.w1 ^^^ x.w1) ||| (z.w2 ^^^ x.w2) ||| (z.w3 ^^^ x.w3))

def zeroMask (z : Field25519) : UInt64 := fieldZeroMask (z.w0 ||| z.w1 ||| z.w2 ||| z.w3)

def lessMask (z x : Field25519) : UInt64 := 0 - (z.subLimbs x).2

def lessOrEqualMask (z x : Field25519) : UInt64 := lessMask z x ||| equalMask z x

def fieldSelect (a b : Field25519) (mask : UInt64) : Field25519 :=
  ⟨(a.w0 &&& mask) ||| (b.w0 &&& ~~~mask), (a.w1 &&& mask) ||| (b.w1 &&& ~~~mask),
    (a.w2 &&& mask) ||| (b.w2 &&& ~~~mask), (a.w3 &&& mask) ||| (b.w3 &&& ~~~mask)⟩

section Operations

def canonical (z : Field25519) : Field25519 :=
  let d := z.subLimbs fieldP
  fieldSelect d.1 z (~~~(0 - d.2))

/-- `fieldFold`: the bits above 255 come back as 19 times their value. -/
def fieldFold (z : Field25519) (carry : UInt64) : Field25519 :=
  let high := (z.w3 >>> 63) + (carry <<< 1)
  canonical (Limbs4.addLimbs ⟨z.w0, z.w1, z.w2, z.w3 &&& fieldTopMask⟩ ⟨19 * high, 0, 0, 0⟩).1

def fieldAdd (z x : Field25519) : Field25519 :=
  let s := z.addLimbs x
  fieldFold s.1 s.2

def fieldSub (z x : Field25519) : Field25519 :=
  let d := z.subLimbs x
  let mask := 0 - d.2
  (d.1.addLimbs
    ⟨fieldP.w0 &&& mask, fieldP.w1 &&& mask, fieldP.w2 &&& mask, fieldP.w3 &&& mask⟩).1

def fieldNeg (z : Field25519) : Field25519 := fieldSelect fieldZero (fieldSub fieldP z) (zeroMask z)

def mulA24 (z : Field25519) : Field25519 :=
  let row := mulRow 121665 z
  fieldFold ⟨row.w0, row.w1, row.w2, row.w3⟩ row.w4

/-- What `bits.Add64` does with a carry that is neither 0 nor 1. Its documentation
leaves this open: no result stands for that. -/
abbrev OtherCarry := UInt64 → UInt64 → UInt64 → Option (UInt64 × UInt64)

/-- The carry that the documentation leaves open. -/
def undefinedCarry : OtherCarry := fun _ _ _ => none

/-- The compiled instruction on amd64 and arm64: any carry but 0 is taken as 1. -/
def flagCarry : OtherCarry := fun x y _ => some (add64 x y 1)

variable (other : OtherCarry)

/-- `bits.Add64` with a carry that is itself a sum. Everywhere else the code hands
on the carry of an earlier call, which is 0 or 1. -/
def add64Carry (x y carry : UInt64) : Option (UInt64 × UInt64) :=
  if carry ≤ 1 then some (add64 x y carry) else other x y carry

def fieldReduce512 (t : Limbs8) : Option Field25519 :=
  let m0 := mul64 t.w4 38
  let s0 := add64 t.w0 m0.2 0
  let m1 := mul64 t.w5 38
  let l1 := add64 m1.2 m0.1 0
  let s1 := add64 t.w1 l1.1 s0.2
  let m2 := mul64 t.w6 38
  let l2 := add64 m2.2 m1.1 0
  (add64Carry other t.w2 l2.1 (s1.2 + l1.2)).bind fun s2 =>
    let m3 := mul64 t.w7 38
    let l3 := add64 m3.2 m2.1 0
    (add64Carry other t.w3 l3.1 (s2.2 + l2.2)).map fun s3 =>
      fieldFold ⟨s0.1, s1.1, s2.1, s3.1⟩ (m3.1 + l3.2 + s3.2)

def fieldMul (z x : Field25519) : Option Field25519 := fieldReduce512 other (product z x)

def fieldSquare (z : Field25519) : Option Field25519 := fieldReduce512 other (squareProduct z)

end Operations

end Ivnp.Cryptography
