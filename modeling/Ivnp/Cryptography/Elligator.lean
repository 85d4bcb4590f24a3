import Ivnp.Cryptography.FieldProgram

/-!
The Elligator2 representatives of X25519 public keys: `EncodeElligator2`,
`DecodeElligator2` and the square root of a ratio that both need.
-/

namespace Ivnp.Cryptography

open Ivnp.Lib

section Roots

variable {m : Type → Type} [Monad m] {F : Type} (ops : FieldOps m F)

/-- The one of `r` and `-r` that is not above the half of `p`. -/
def halfRange (r : F) : Traced m F F := do
  let minus ← negM ops r
  return ops.select minus r (ops.lessOrEqualMask r (ops.literal fieldHalf) ^^^ 0xffffffffffffffff)

/-- `fieldSqrtRatio`: the root, and the mask that says whether there is one. -/
def fieldSqrtRatio (u v : F) : Traced m F (F × UInt64) := do
  let v2 ← squareM ops v
  let uv2 ← mulM ops u v2
  let uv3 ← mulM ops uv2 v
  let uv5 ← mulM ops uv3 v2
  let uv7 ← mulM ops uv5 v2
  let power ← pow22523 ops uv7
  let r ← mulM ops uv3 power
  let squared ← squareM ops r
  let check ← mulM ops v squared
  let isU := ops.equalMask check u
  let minusU ← negM ops u
  let isNegU := ops.equalMask check minusU
  let turned ← mulM ops r (ops.literal fieldSqrtM1)
  let root ← halfRange ops (ops.select turned r isNegU)
  return (root, isU ||| isNegU)

def fieldIsSquareNonzero (z : F) : Traced m F UInt64 := do
  let ratio ← fieldSqrtRatio ops z (ops.literal fieldOne)
  return ratio.2 &&& ~~~ops.zeroMask z

end Roots

section Encode

variable {m : Type → Type} [Monad m] {F : Type} (ops : FieldOps m F)

/-- The root of `x / (2 (-x - A))`, and whether there is one. -/
def eligibleRoot (x : F) : Traced m F (F × UInt64) := do
  let sum ← addM ops x (ops.literal fieldA)
  let xA ← negM ops sum
  let v ← mulM ops (ops.literal fieldTwo) xA
  fieldSqrtRatio ops x v

def chooseRepresentative (r0 : F) (entropy : UInt8) : Traced m F F := do
  let doubled ← mulM ops (ops.literal fieldTwo) r0
  let r1 ← invert ops doubled
  halfRange ops (ops.select r1 r0 (0 - (entropy &&& 1).toUInt64))

inductive ElligatorError where
  | elligator
  | entropy
  deriving DecidableEq

/-- The stored representative with the two free bits. -/
def encodedBytes (r : Field25519) (entropy : UInt8) : Bytes :=
  (store r).val.modify 31 (· ||| (entropy &&& 0xc0))

/-- What `EncodeElligator2` does once it has the root `r0` and its mask. -/
def encodeRoot (other : OtherCarry) (dst : Bytes) (entropy : Option UInt8) (r0 : Field25519)
    (square : UInt64) : Option (Except ElligatorError (Bool × Bytes)) :=
  if square ≠ 0xffffffffffffffff then some (.ok (false, dst))
  else
    match entropy with
    | none => some (.error .entropy)
    | some entropy => Option.bind (chooseRepresentative (limbOps other) r0 entropy) fun run =>
      some (.ok (true, encodedBytes run.1 entropy ++ dst.drop 32))

/-- `EncodeElligator2` with the byte that the random source gives, if it does: the
flag it returns and `dst` afterwards. -/
def encodeElligator2 (other : OtherCarry) (dst publicKey : Bytes) (entropy : Option UInt8) :
    Option (Except ElligatorError (Bool × Bytes)) :=
  if dst.length < 32 then some (.error .elligator)
  else if h : publicKey.length = 32 then
    let x := fieldLoad ⟨publicKey, h⟩
    let valid := lessMask x fieldP &&& ~~~zeroMask x &&& ~~~equalMask x fieldNegA
    if valid ≠ 0xffffffffffffffff then some (.error .elligator)
    else Option.bind (eligibleRoot (limbOps other) x) fun run =>
      encodeRoot other dst entropy run.1.1 run.1.2
  else some (.error .elligator)

end Encode

section Decode

variable {m : Type → Type} [Monad m] {F : Type} (ops : FieldOps m F)

/-- The coordinate that a representative stands for. -/
def decodeRun (r : F) : Traced m F F := do
  let squared ← squareM ops r
  let doubled ← mulM ops (ops.literal fieldTwo) squared
  let d ← addM ops (ops.literal fieldOne) doubled
  let inverse ← invert ops d
  let v ← mulM ops (ops.literal fieldNegA) inverse
  let vSquared ← squareM ops v
  let cubed ← mulM ops vSquared v
  let scaled ← mulM ops (ops.literal fieldA) vSquared
  let firstSum ← addM ops cubed scaled
  let t ← addM ops firstSum v
  let minus ← negM ops v
  let second ← subM ops minus (ops.literal fieldA)
  let square ← fieldIsSquareNonzero ops t
  return ops.select v second square

/-- The representative without its two free bits. -/
def maskRepresentative (encoded : Bytes) (h : encoded.length = 32) : FixedBytes 32 :=
  ⟨encoded.modify 31 (· &&& 0x3f), by rw [List.length_modify, h]⟩

/-- `DecodeElligator2`: `dst` afterwards. -/
def decodeElligator2 (other : OtherCarry) (dst encoded : Bytes) :
    Option (Except ElligatorError Bytes) :=
  if dst.length < 32 then some (.error .elligator)
  else if h : encoded.length = 32 then
    let r := fieldLoad (maskRepresentative encoded h)
    let valid := lessOrEqualMask r fieldHalf
    match decodeRun (limbOps other) r with
    | none => none
    | some (x, _) =>
      if valid ≠ 0xffffffffffffffff then some (.error .elligator)
      else some (.ok ((store x).val ++ dst.drop 32))
  else some (.error .elligator)

end Decode

end Ivnp.Cryptography
