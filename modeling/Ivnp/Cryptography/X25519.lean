import Ivnp.Cryptography.FieldSimulation

/-!
X25519 against RFC 7748. The specification is the ladder of the RFC over the
integers modulo `2 ^ 255 - 19`, from the clamped scalar and the masked coordinate.
-/

namespace Ivnp.Cryptography

open Ivnp.Lib

namespace Rfc7748

structure State (K : Type) where
  x2 : K
  z2 : K
  x3 : K
  z3 : K
  swap : Bool

section Ladder

variable {K : Type} [CommRing K]

def State.cswap (state : State K) (swap : Bool) : State K :=
  if swap then { state with x2 := state.x3, x3 := state.x2, z2 := state.z3, z3 := state.z2 }
  else state

/-- One bit of the scalar. -/
def step (x1 : K) (state : State K) (kt : Bool) : State K :=
  let s := state.cswap (state.swap ^^ kt)
  let a := s.x2 + s.z2
  let aa := a ^ 2
  let b := s.x2 - s.z2
  let bb := b ^ 2
  let e := aa - bb
  let c := s.x3 + s.z3
  let d := s.x3 - s.z3
  let da := d * a
  let cb := c * b
  { x2 := aa * bb, z2 := e * (aa + 121665 * e), x3 := (da + cb) ^ 2, z3 := x1 * (da - cb) ^ 2,
    swap := kt }

def ladder (k : Nat) (u : K) : State K :=
  ((List.range 255).reverse.map k.testBit).foldl (step u) ⟨1, 0, u, 1, false⟩

end Ladder

def decodeScalar (scalar : FixedBytes 32) : Nat := leNat (clampScalar scalar)

/-- The element of a coordinate without its top bit. -/
def decodeUCoordinate (point : FixedBytes 32) : GF25519 := (leNat (maskPoint point).val : Nat)

def encodeUCoordinate (value : GF25519) : FixedBytes 32 := ⟨natLE 32 value.val, length_natLE _ _⟩

def State.result (state : State GF25519) : GF25519 :=
  let final := state.cswap state.swap
  final.x2 * final.z2 ^ (p25519 - 2)

def x25519 (scalar point : FixedBytes 32) : FixedBytes 32 :=
  encodeUCoordinate (ladder (decodeScalar scalar) (decodeUCoordinate point)).result

end Rfc7748

section Simulation

def bitWord (bit : Bool) : UInt64 := if bit then 1 else 0

theorem scalarBit_eq (e : Bytes) (t : Nat) : scalarBit e t = bitWord ((leNat e).testBit t) := by
  have hshift := Nat.shiftRight_eq_div_pow t 3
  have hmask := Nat.and_two_pow_sub_one_eq_mod t 3
  have hamount : (UInt8.ofNat (t % 8)).toNat % 8 = t % 8 := by
    rw [UInt8.toNat_ofNat_of_lt' (show t % 8 < 2 ^ 8 by omega), Nat.mod_mod]
  rw [testBit_leNat]
  unfold scalarBit bitWord
  rw [hshift, hmask]
  generalize e.getD (t / 8) 0 = byte
  apply UInt64.toNat_inj.mp
  rw [UInt8.toNat_toUInt64, UInt8.toNat_and, UInt8.toNat_shiftRight, hamount, Nat.testBit]
  show (byte.toNat >>> (t % 8)) &&& 1 = _
  rw [Nat.and_one_is_mod, Nat.one_and_eq_mod_two]
  rcases Nat.mod_two_eq_zero_or_one (byte.toNat >>> (t % 8)) with h | h
  · rw [h]
    rfl
  · rw [h]
    rfl

theorem swapMask_eq (swap kt : Bool) :
    (0 : UInt64) - (bitWord swap ^^^ bitWord kt) = if swap ^^ kt then -1 else 0 := by
  cases swap <;> cases kt <;> rfl

theorem lastMask_eq (swap : Bool) : (0 : UInt64) - bitWord swap = if swap then -1 else 0 := by
  cases swap <;> rfl

/-- The state of the ladder over the words, over the integers and in the field. -/
structure LadderDenotes (spec : Rfc7748.State GF25519) (state : Ladder Field25519)
    (ideal : Ladder Nat) : Prop where
  x2 : Denotes (2 ^ 255) spec.x2 state.x2 ideal.x2
  z2 : Denotes p25519 spec.z2 state.z2 ideal.z2
  x3 : Denotes (2 ^ 255) spec.x3 state.x3 ideal.x3
  z3 : Denotes p25519 spec.z3 state.z3 ideal.z3
  swap : state.swap = bitWord spec.swap
  idealSwap : ideal.swap = bitWord spec.swap

variable {other : OtherCarry}

variable {spec : Rfc7748.State GF25519} {state : Ladder Field25519} {ideal : Ladder Nat}

theorem LadderDenotes.exchange (other : OtherCarry) (h : LadderDenotes spec state ideal)
    (choice : Bool) :
    LadderDenotes (spec.cswap choice) (state.exchange (limbOps other) (if choice then -1 else 0))
      (ideal.exchange integerOps (if choice then -1 else 0)) where
  x2 := by
    refine (h.x3.select other h.x2 _).congr ?_
    cases choice <;> rfl
  z2 := by
    refine (h.z3.select other h.z2 _).congr ?_
    cases choice <;> rfl
  x3 := by
    refine (h.x2.select other h.x3 _).congr ?_
    cases choice <;> rfl
  z3 := by
    refine (h.z2.select other h.z3 _).congr ?_
    cases choice <;> rfl
  swap := by
    refine h.swap.trans ?_
    cases choice <;> rfl
  idealSwap := by
    refine h.idealSwap.trans ?_
    cases choice <;> rfl

theorem p25519_le : p25519 ≤ 2 ^ 255 := Nat.sub_le _ _

variable {x1 : Field25519} {u : GF25519} {n1 : Nat}

/-- One turn of the loop is one step of the ladder. -/
theorem simulates_ladderStep
    (h : LadderDenotes spec state ideal) (hx1 : Denotes (2 ^ 255) u x1 n1) (kt : Bool) :
    Simulates other (LadderDenotes (Rfc7748.step u spec kt))
      (ladderStep (limbOps other) x1 state (bitWord kt))
      (ladderStep integerOps n1 ideal (bitWord kt)) := by
  have hmask : (0 : UInt64) - (state.swap ^^^ bitWord kt) = if spec.swap ^^ kt then -1 else 0 := by
    rw [h.swap, swapMask_eq]
  have hidealMask : (0 : UInt64) - (ideal.swap ^^^ bitWord kt) =
      if spec.swap ^^ kt then -1 else 0 := by
    rw [h.idealSwap, swapMask_eq]
  unfold ladderStep
  rw [hmask, hidealMask]
  have hs : LadderDenotes (spec.cswap (spec.swap ^^ kt)) _ _ := h.exchange other _
  refine (simulates_addM hs.x2 hs.z2).bind fun a _ ha => ?_
  refine (simulates_squareM ha).bind fun aa _ haa => ?_
  refine (simulates_subM hs.x2 hs.z2 p25519_le).bind fun b _ hb => ?_
  refine (simulates_squareM hb).bind fun bb _ hbb => ?_
  refine (simulates_subM haa hbb le_rfl).bind fun e _ he => ?_
  refine (simulates_addM hs.x3 hs.z3).bind fun c _ hc => ?_
  refine (simulates_subM hs.x3 hs.z3 p25519_le).bind fun d _ hd => ?_
  refine (simulates_mulM hd ha).bind fun da _ hda => ?_
  refine (simulates_mulM hc hb).bind fun cb _ hcb => ?_
  refine (simulates_addM hda hcb).bind fun sum _ hsum => ?_
  refine (simulates_squareM hsum).bind fun x3 _ hx3 => ?_
  refine (simulates_subM hda hcb le_rfl).bind fun difference _ hdifference => ?_
  refine (simulates_squareM hdifference).bind fun squared _ hsquared => ?_
  refine (simulates_mulM hx1 hsquared).bind fun z3 _ hz3 => ?_
  refine (simulates_mulM haa hbb).bind fun x2 _ hx2 => ?_
  refine (simulates_mulA24M he).bind fun scaled _ hscaled => ?_
  refine (simulates_addM haa hscaled).bind fun total _ htotal => ?_
  refine (simulates_mulM he htotal).bind fun z2 _ hz2 => ?_
  refine .pure ⟨?_, ?_, ?_, ?_, rfl, rfl⟩
  · exact (hx2.weaken p25519_le).congr (by simp only [Rfc7748.step, sq])
  · exact hz2.congr (by simp only [Rfc7748.step, sq])
  · exact (hx3.weaken p25519_le).congr (by simp only [Rfc7748.step, sq])
  · exact hz3.congr (by simp only [Rfc7748.step, sq])

theorem simulates_ladderLoop
    (h : LadderDenotes spec state ideal) (hx1 : Denotes (2 ^ 255) u x1 n1) (bits : List Bool) :
    Simulates other (LadderDenotes (bits.foldl (Rfc7748.step u) spec))
      (ladderLoop (limbOps other) x1 (bits.map bitWord) state)
      (ladderLoop integerOps n1 (bits.map bitWord) ideal) := by
  induction bits generalizing spec state ideal with
  | nil => exact .pure h
  | cons kt rest ih =>
    refine (simulates_ladderStep h hx1 kt).bind fun next idealNext hnext => ?_
    exact ih hnext

theorem scalarBits_eq (e : Bytes) :
    scalarBits e = ((List.range 255).reverse.map (leNat e).testBit).map bitWord := by
  rw [List.map_map]
  exact List.map_congr_left fun t _ => scalarBit_eq e t

theorem leNat_maskPoint_lt (point : FixedBytes 32) : leNat (maskPoint point).val < 2 ^ 255 := by
  have hlength : 31 < point.val.length := by
    rw [point.property]
    decide
  have hlast : leNat ((maskPoint point).val.drop 31) ≤ 127 := by
    have hend := List.drop_eq_nil_of_le (maskPoint point).property.le
    rw [leNat_drop (by rw [(maskPoint point).property]; decide), hend]
    unfold maskPoint
    rw [List.getD_eq_getElem?_getD, List.getElem?_modify, List.getElem?_eq_getElem hlength]
    exact Nat.and_le_right
  have hbound := leNat_lt_of_drop (maskPoint point).val 31
  omega

theorem simulates_ladderResult (h : LadderDenotes spec state ideal) :
    Simulates other (Denotes p25519 spec.result) (ladderResult (limbOps other) state)
      (ladderResult integerOps ideal) := by
  have hlast := h.exchange other spec.swap
  unfold ladderResult
  rw [h.swap, h.idealSwap, lastMask_eq]
  refine (simulates_invert hlast.z2).bind fun inverse value hinverse => ?_
  refine (simulates_mulM hlast.x2 hinverse).mono fun r n hr => hr.congr ?_
  rw [← pow_sub_two]
  rfl

theorem simulates_x25519Run (other : OtherCarry) (scalar point : FixedBytes 32) :
    Simulates other (Denotes p25519 (Rfc7748.ladder (Rfc7748.decodeScalar scalar)
        (Rfc7748.decodeUCoordinate point)).result)
      (x25519Run (limbOps other) scalar point) (x25519Run integerOps scalar point) := by
  have hx1 : Denotes (2 ^ 255) (Rfc7748.decodeUCoordinate point) (fieldLoad (maskPoint point))
      (fieldLoad (maskPoint point)).toNat := by
    refine ⟨rfl, ?_, ?_⟩
    · rw [toNat_fieldLoad]
      exact leNat_maskPoint_lt _
    · rw [toNat_fieldLoad]
      rfl
  have hone : Denotes p25519 1 fieldOne 1 := ⟨rfl, by decide, Nat.cast_one⟩
  have hzero : Denotes p25519 0 fieldZero 0 := ⟨rfl, by decide, Nat.cast_zero⟩
  have hstart : LadderDenotes ⟨1, 0, Rfc7748.decodeUCoordinate point, 1, false⟩
      ⟨fieldOne, fieldZero, fieldLoad (maskPoint point), fieldOne, 0⟩
      ⟨1, 0, (fieldLoad (maskPoint point)).toNat, 1, 0⟩ :=
    ⟨hone.weaken p25519_le, hzero, hx1, hone, rfl, rfl⟩
  unfold x25519Run
  rw [scalarBits_eq]
  refine (simulates_ladderLoop hstart hx1 _).bind fun state ideal hstate => ?_
  exact simulates_ladderResult hstate

theorem encodeUCoordinate_of_denotes {value : GF25519} {z : Field25519} {number : Nat}
    (h : Denotes p25519 value z number) : store z = Rfc7748.encodeUCoordinate value := by
  apply Subtype.ext
  rw [store_eq, h.toNat]
  show natLE 32 number = natLE 32 value.val
  rw [← h.cast, ZMod.val_natCast_of_lt h.lt]

end Simulation

/-- `x25519ScalarMult` writes the result of the RFC, and every operation on the
way is that of the field, whatever `bits.Add64` does with other carries, exactly
when no product of the ladder on the integers carries two in its reduction. -/
theorem x25519_correct_iff (scalar point : FixedBytes 32) :
    (∀ other, ∃ calls, x25519ScalarMult other scalar point =
        some (Rfc7748.x25519 scalar point, calls) ∧ ∀ call ∈ calls, call.Correct) ↔
      ∀ call ∈ (x25519Run integerOps scalar point).2, call.CarriesOne := by
  constructor
  · intro hcorrect call hmem
    by_contra hcarries
    obtain ⟨calls, hrun, -⟩ := hcorrect _
    have hnone := (simulates_x25519Run _ _ _).undefined rfl ⟨call, hmem, hcarries⟩
    unfold x25519ScalarMult at hrun
    rw [hnone] at hrun
    cases hrun
  · intro hcarries other
    obtain ⟨result, calls, hrun, hresult, hcalls⟩ := (simulates_x25519Run _ _ _).defined hcarries
    refine ⟨calls, ?_, hcalls⟩
    unfold x25519ScalarMult
    rw [hrun]
    show some (store result, calls) = _
    rw [encodeUCoordinate_of_denotes hresult]
    rfl

def carryScalar : FixedBytes 32 := ⟨List.replicate 32 0xff, rfl⟩

/-- One more than this coordinate has a square with the digits
`2 ^ 64 - 1` and `0x79435e50d79435e5` in its second and sixth place, and 38 times the
latter ends in `2 ^ 64 - 2`. -/
def carryPoint : FixedBytes 32 := ⟨natLE 32 0xb030f7f67c5748a7a0000000000000007ffffffffffffffe, rfl⟩

/-- The first square of the ladder hands a carry of two to `bits.Add64`. As
compiled for amd64 and arm64 its result is not the square. -/
theorem x25519_carry_two :
    x25519ScalarMult undefinedCarry carryScalar carryPoint = none ∧
      ∃ square, fieldSquare flagCarry (fieldAdd (fieldLoad (maskPoint carryPoint)) fieldOne) =
          some square ∧
        square.toNat ≠ (leNat carryPoint.val + 1) ^ 2 % p25519 := by
  have hsquare : (fieldSquare flagCarry
      (fieldAdd (fieldLoad (maskPoint carryPoint)) fieldOne)).any (fun square =>
        square.toNat ≠ (leNat carryPoint.val + 1) ^ 2 % p25519) = true := by
    decide +kernel
  obtain ⟨square, hresult, hwrong⟩ := (Option.any_eq_true _ _).mp hsquare
  have hnone : (x25519ScalarMult undefinedCarry carryScalar carryPoint).isNone = true := by
    decide +kernel
  exact ⟨Option.isNone_iff_eq_none.mp hnone, square, hresult, of_decide_eq_true hwrong⟩

end Ivnp.Cryptography
