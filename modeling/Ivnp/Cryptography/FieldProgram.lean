import Ivnp.Cryptography.FieldArithmetic

/-!
What the package computes with field elements, above the words: the addition
chains, the X25519 ladder and the Elligator2 maps. The text of these programs is
written once over the operations it calls. Over the words it is the code; over
the integers it says which numbers the code would have to multiply.
-/

namespace Ivnp.Cryptography

open Ivnp.Lib

/-- A call of a field operation with its operands and its result. -/
inductive Call (F : Type) where
  | add (z x r : F)
  | sub (z x r : F)
  | neg (z r : F)
  | mul (z x r : F)
  | square (z r : F)
  | mulA24 (z r : F)
  | invert (z r : F)

/-- A computation with the calls that it made. -/
def Traced (m : Type → Type) (F α : Type) : Type := m (α × List (Call F))

/-- The calls of the second part come after those of the first. -/
def Traced.bind {m : Type → Type} [Monad m] {F α β : Type} (first : m (α × List (Call F)))
    (next : α → m (β × List (Call F))) : m (β × List (Call F)) := do
  let run ← first
  let more ← next run.1
  return (more.1, run.2 ++ more.2)

instance {m : Type → Type} [Monad m] {F : Type} : Monad (Traced m F) where
  pure value := (pure (value, []) : m _)
  bind := Traced.bind

/-- The operations of a field implementation. Only products may have no result. -/
structure FieldOps (m : Type → Type) (F : Type) where
  literal : Field25519 → F
  add : F → F → F
  sub : F → F → F
  neg : F → F
  mulA24 : F → F
  mul : F → F → m F
  square : F → m F
  select : F → F → UInt64 → F
  equalMask : F → F → UInt64
  lessOrEqualMask : F → F → UInt64
  zeroMask : F → UInt64

/-- The operations on words. -/
def limbOps (other : OtherCarry) : FieldOps Option Field25519 where
  literal z := z
  add := fieldAdd
  sub := fieldSub
  neg := fieldNeg
  mulA24 := mulA24
  mul := fieldMul other
  square := fieldSquare other
  select := fieldSelect
  equalMask := equalMask
  lessOrEqualMask := lessOrEqualMask
  zeroMask := zeroMask

/-- The operations modulo `p` on the integers. A difference is reduced only if it
would be negative. -/
def integerOps : FieldOps Id Nat where
  literal := Limbs4.toNat
  add a b := (a + b) % p25519
  sub a b := if a < b then a + p25519 - b else a - b
  neg a := if a = 0 then 0 else p25519 - a
  mulA24 a := 121665 * a % p25519
  mul a b := a * b % p25519
  square a := a * a % p25519
  select a b mask := if mask = 0 then b else a
  equalMask a b := if a = b then -1 else 0
  lessOrEqualMask a b := if a ≤ b then -1 else 0
  zeroMask a := if a = 0 then -1 else 0

section Calls

variable {m : Type → Type} [Monad m] {F : Type} (ops : FieldOps m F)

/-- A result with the call it belongs to. -/
def traced (result : m F) (call : F → Call F) : Traced m F F :=
  (do let r ← result
      return (r, [call r]) : m _)

def addM (z x : F) : Traced m F F := traced (pure (ops.add z x)) (.add z x)

def subM (z x : F) : Traced m F F := traced (pure (ops.sub z x)) (.sub z x)

def negM (z : F) : Traced m F F := traced (pure (ops.neg z)) (.neg z)

def mulA24M (z : F) : Traced m F F := traced (pure (ops.mulA24 z)) (.mulA24 z)

def mulM (z x : F) : Traced m F F := traced (ops.mul z x) (.mul z x)

def squareM (z : F) : Traced m F F := traced (ops.square z) (.square z)

end Calls

section Chains

variable {m : Type → Type} [Monad m] {F : Type} (ops : FieldOps m F)

def squareN : Nat → F → Traced m F F
  | 0, z => pure z
  | n + 1, z => do
      let squared ← squareM ops z
      squareN n squared

/-- `pow250`, with the power 11 that it hands out. -/
def pow250 (z : F) : Traced m F (F × F) := do
  let z2 ← squareM ops z
  let z8 ← squareN ops 2 z2
  let z9 ← mulM ops z8 z
  let z11 ← mulM ops z9 z2
  let z22 ← squareM ops z11
  let z5 ← mulM ops z22 z9
  let z10 ← mulM ops (← squareN ops 5 z5) z5
  let z20 ← mulM ops (← squareN ops 10 z10) z10
  let z40 ← mulM ops (← squareN ops 20 z20) z20
  let z50 ← mulM ops (← squareN ops 10 z40) z10
  let z100 ← mulM ops (← squareN ops 50 z50) z50
  let z200 ← mulM ops (← squareN ops 100 z100) z100
  let z250 ← mulM ops (← squareN ops 50 z200) z50
  return (z250, z11)

def invert (z : F) : Traced m F F := do
  let powers ← pow250 ops z
  let shifted ← squareN ops 5 powers.1
  let r ← mulM ops shifted powers.2
  traced (pure r) (.invert z)

def pow22523 (z : F) : Traced m F F := do
  let powers ← pow250 ops z
  mulM ops (← squareN ops 2 powers.1) z

end Chains

section X25519

structure Ladder (F : Type) where
  x2 : F
  z2 : F
  x3 : F
  z3 : F
  swap : UInt64

def clampScalar (scalar : FixedBytes 32) : Bytes :=
  ((scalar.val.modify 0 (· &&& 248)).modify 31 (· &&& 127)).modify 31 (· ||| 64)

/-- The point without its top bit. -/
def maskPoint (point : FixedBytes 32) : FixedBytes 32 :=
  ⟨point.val.modify 31 (· &&& 0x7f), by rw [List.length_modify, point.property]⟩

def scalarBit (e : Bytes) (t : Nat) : UInt64 :=
  ((e.getD (t >>> 3) 0 >>> UInt8.ofNat (t &&& 7)) &&& 1).toUInt64

variable {m : Type → Type} [Monad m] {F : Type} (ops : FieldOps m F)

/-- The exchange before a step and after the last one. -/
def Ladder.exchange (state : Ladder F) (mask : UInt64) : Ladder F :=
  { state with
    x2 := ops.select state.x3 state.x2 mask
    x3 := ops.select state.x2 state.x3 mask
    z2 := ops.select state.z3 state.z2 mask
    z3 := ops.select state.z2 state.z3 mask }

/-- One turn of the loop. -/
def ladderStep (x1 : F) (state : Ladder F) (kt : UInt64) : Traced m F (Ladder F) := do
  let swapped := state.exchange ops (0 - (state.swap ^^^ kt))
  let a ← addM ops swapped.x2 swapped.z2
  let aa ← squareM ops a
  let b ← subM ops swapped.x2 swapped.z2
  let bb ← squareM ops b
  let eField ← subM ops aa bb
  let c ← addM ops swapped.x3 swapped.z3
  let d ← subM ops swapped.x3 swapped.z3
  let da ← mulM ops d a
  let cb ← mulM ops c b
  let sum ← addM ops da cb
  let x3 ← squareM ops sum
  let difference ← subM ops da cb
  let squared ← squareM ops difference
  let z3 ← mulM ops x1 squared
  let x2 ← mulM ops aa bb
  let scaled ← mulA24M ops eField
  let total ← addM ops aa scaled
  let z2 ← mulM ops eField total
  return ⟨x2, z2, x3, z3, kt⟩

/-- The loop over the bits of the scalar. -/
def ladderLoop (x1 : F) : List UInt64 → Ladder F → Traced m F (Ladder F)
  | [], state => pure state
  | kt :: rest, state => do
      let next ← ladderStep ops x1 state kt
      ladderLoop x1 rest next

def scalarBits (e : Bytes) : List UInt64 := (List.range 255).reverse.map (scalarBit e)

def ladderResult (state : Ladder F) : Traced m F F := do
  let mask := 0 - state.swap
  let x2 := ops.select state.x3 state.x2 mask
  let z2 := ops.select state.z3 state.z2 mask
  let inverse ← invert ops z2
  mulM ops x2 inverse

/-- `x25519ScalarMult` up to the store of its result. -/
def x25519Run (scalar point : FixedBytes 32) : Traced m F F := do
  let x1 := ops.literal (fieldLoad (maskPoint point))
  let one := ops.literal fieldOne
  let state ← ladderLoop ops x1 (scalarBits (clampScalar scalar))
    ⟨one, ops.literal fieldZero, x1, one, 0⟩
  ladderResult ops state

def x25519ScalarMult (other : OtherCarry) (scalar point : FixedBytes 32) :
    Option (FixedBytes 32 × List (Call Field25519)) :=
  (x25519Run (limbOps other) scalar point : Option _).map fun run => (store run.1, run.2)

end X25519

end Ivnp.Cryptography
