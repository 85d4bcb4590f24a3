import Ivnp.Cryptography.Elligator
import Ivnp.Cryptography.FieldSimulation
import Ivnp.Lib.SquareRoots

/-!
Elligator2 from both ends. A coordinate has a representative exactly when
`x / (2 (-x - A))` is a square, and decoding either of its two representatives gives
the coordinate back.
-/

namespace Ivnp.Cryptography

open Ivnp.Lib Option UInt8

def curveA : GF25519 := 486662

theorem not_isSquare_two : ¬ IsSquare (2 : GF25519) := by
  rw [ZMod.exists_sq_eq_two_iff (by decide)]
  decide

theorem curveA_ne_zero : curveA ≠ 0 := by
  unfold curveA
  decide

theorem not_isSquare_neg_curveA : ¬ IsSquare (-curveA) := by
  have hnumber : -curveA = ((p25519 - 486662 : Nat) : GF25519) := by decide
  have hnonzero := neg_ne_zero.mpr curveA_ne_zero
  have hpower : powMod p25519 256 (p25519 - 486662) (p25519 / 2) ≠ 1 := by decide +kernel
  rw [ZMod.euler_criterion _ hnonzero, hnumber, ← Nat.cast_pow, ← Nat.cast_one,
    ZMod.natCast_eq_natCast_iff', ← powMod_eq _ (show p25519 / 2 < 2 ^ 256 by decide)]
  exact hpower

theorem denotes_literal {bound : Nat} {value : GF25519} {z : Field25519} (hlt : z.toNat < bound)
    (hcast : (z.toNat : GF25519) = value) : Denotes bound value z z.toNat :=
  ⟨rfl, hlt, hcast⟩

theorem denotes_fieldOne : Denotes p25519 1 fieldOne fieldOne.toNat :=
  denotes_literal (by decide) Nat.cast_one

theorem denotes_fieldTwo : Denotes p25519 2 fieldTwo fieldTwo.toNat :=
  denotes_literal (by decide) rfl

theorem denotes_fieldA : Denotes p25519 curveA fieldA fieldA.toNat :=
  denotes_literal (by decide) rfl

theorem denotes_fieldNegA : Denotes p25519 (-curveA) fieldNegA fieldNegA.toNat :=
  denotes_literal (by decide) (by decide)

theorem toNat_fieldHalf : fieldHalf.toNat = p25519 / 2 := by decide

/-- The root of minus one that the code turns a candidate by. -/
def sqrtMinusOne : GF25519 := fieldSqrtM1.toNat

theorem sqrtMinusOne_sq : sqrtMinusOne ^ 2 = -1 := by
  have hminus : (-1 : GF25519) = ((p25519 - 1 : Nat) : GF25519) := by decide
  unfold sqrtMinusOne
  rw [hminus, ← Nat.cast_pow, ZMod.natCast_eq_natCast_iff']
  decide +kernel

theorem Denotes.eq_iff {u v : GF25519} {z x : Field25519} {n k : Nat} (hz : Denotes p25519 u z n)
    (hx : Denotes p25519 v x k) : n = k ↔ u = v := by
  rw [← hz.cast, ← hx.cast, ZMod.natCast_eq_natCast_iff', Nat.mod_eq_of_lt hz.lt,
    Nat.mod_eq_of_lt hx.lt]

section Roots

variable {other : OtherCarry} {u v : GF25519} {z x : Field25519} {n k : Nat}

theorem equalMask_denotes (other : OtherCarry) (hz : Denotes p25519 u z n)
    (hx : Denotes p25519 v x k) :
    (limbOps other).equalMask z x = (if decide (u = v) then -1 else 0) ∧
      integerOps.equalMask n k = if decide (u = v) then -1 else 0 := by
  constructor
  · refine (equalMask_eq z x).trans (if_congr ?_ rfl rfl)
    rw [hz.toNat, hx.toNat, hz.eq_iff hx, decide_eq_true_eq]
  · refine if_congr ?_ rfl rfl
    rw [hz.eq_iff hx, decide_eq_true_eq]

theorem mask_xor_ones (h : Prop) [Decidable h] :
    (if h then -1 else 0 : UInt64) ^^^ 0xffffffffffffffff = if !decide h then -1 else 0 := by
  by_cases hp : h
  · rw [if_pos hp, decide_eq_true hp]
    rfl
  · rw [if_neg hp, decide_eq_false hp]
    rfl

theorem Denotes.neg_number {minus : Field25519} {number : Nat} (hz : Denotes p25519 u z n)
    (hminus : Denotes p25519 (-u) minus number) (hpos : n ≠ 0) : number = p25519 - n := by
  have hlt := hz.lt
  have hcast : (number : GF25519) = ((p25519 - n : Nat) : GF25519) := by
    rw [hminus.cast, Nat.cast_sub hlt.le, ZMod.natCast_self, zero_sub, hz.cast]
  rw [ZMod.natCast_eq_natCast_iff', Nat.mod_eq_of_lt hminus.lt, Nat.mod_eq_of_lt (by omega)] at hcast
  exact hcast

/-- A root in the lower half, whose square is that of `u`. -/
def LowerRoot (u : GF25519) (r : Field25519) (number : Nat) : Prop :=
  number ≤ p25519 / 2 ∧ ∃ root, Denotes p25519 root r number ∧ root ^ 2 = u ^ 2

theorem simulates_halfRange (hz : Denotes p25519 u z n) :
    Simulates other (LowerRoot u) (halfRange (limbOps other) z) (halfRange integerOps n) := by
  unfold halfRange
  refine (simulates_negM hz).bind fun minus number hminus => ?_
  have hmask : (limbOps other).lessOrEqualMask z ((limbOps other).literal fieldHalf) ^^^
      0xffffffffffffffff = if !decide (n ≤ p25519 / 2) then -1 else 0 := by
    show lessOrEqualMask z fieldHalf ^^^ 0xffffffffffffffff = _
    rw [lessOrEqualMask_eq, hz.toNat, toNat_fieldHalf, mask_xor_ones]
  have hideal : integerOps.lessOrEqualMask n (integerOps.literal fieldHalf) ^^^
      0xffffffffffffffff = if !decide (n ≤ p25519 / 2) then -1 else 0 := by
    show (if n ≤ fieldHalf.toNat then -1 else 0 : UInt64) ^^^ 0xffffffffffffffff = _
    rw [toNat_fieldHalf, mask_xor_ones]
  rw [hmask, hideal]
  have hselect := hminus.select other hz (!decide (n ≤ p25519 / 2))
  refine .pure ⟨?_, _, hselect, ?_⟩
  · by_cases hlow : n ≤ p25519 / 2
    · rw [decide_eq_true hlow]
      exact hlow
    · rw [decide_eq_false hlow]
      show number ≤ p25519 / 2
      rw [hz.neg_number hminus (by omega)]
      unfold p25519 at *
      omega
  · split
    · exact neg_sq u
    · rfl

/-- What the root of a ratio says: whether there is one, and which. -/
def RatioRoot (u v : GF25519) (result : Field25519 × UInt64) (ideal : Nat × UInt64) : Prop :=
  ∃ square : Bool, (square = true ↔ IsSquare (u / v)) ∧
    result.2 = (if square then -1 else 0) ∧ ideal.2 = (if square then -1 else 0) ∧
    ideal.1 ≤ p25519 / 2 ∧
    ∃ root, Denotes p25519 root result.1 ideal.1 ∧ (square = true → root ^ 2 * v = u)

theorem or_masks (left right : Bool) :
    (if left then -1 else 0 : UInt64) ||| (if right then -1 else 0) =
      if left || right then -1 else 0 := by
  cases left <;> cases right <;> rfl

theorem simulates_fieldSqrtRatio (hu : Denotes p25519 u z n) (hv : Denotes p25519 v x k)
    (hne : v ≠ 0) :
    Simulates other (RatioRoot u v) (fieldSqrtRatio (limbOps other) z x)
      (fieldSqrtRatio integerOps n k) := by
  have hsquare := rootCandidate_iff (show p25519 = 8 * (2 ^ 252 - 3) + 5 by decide) u hne
  unfold fieldSqrtRatio
  refine (simulates_squareM hv).bind fun v2 _ hv2 => ?_
  refine (simulates_mulM hu hv2).bind fun uv2 _ huv2 => ?_
  refine (simulates_mulM huv2 hv).bind fun uv3 _ huv3 => ?_
  refine (simulates_mulM huv3 hv2).bind fun uv5 _ huv5 => ?_
  refine (simulates_mulM huv5 hv2).bind fun uv7 _ huv7 => ?_
  refine (simulates_pow22523 huv7).bind fun power _ hpower => ?_
  refine (simulates_mulM huv3 hpower).bind fun r _ hr => ?_
  replace hr := hr.congr (show _ = rootCandidate (2 ^ 252 - 3) u v by unfold rootCandidate; ring)
  generalize rootCandidate (2 ^ 252 - 3) u v = candidate at *
  refine (simulates_squareM hr).bind fun squared _ hsquared => ?_
  refine (simulates_mulM hv hsquared).bind fun check _ hcheck => ?_
  replace hcheck := hcheck.congr (congrArg (v * ·) (sq candidate).symm)
  refine (simulates_negM hu).bind fun minusU _ hminusU => ?_
  have hroot : Denotes p25519 sqrtMinusOne fieldSqrtM1 _ := denotes_literal (by decide) rfl
  refine (simulates_mulM hr hroot).bind fun turned _ hturned => ?_
  obtain ⟨hmaskU, hidealU⟩ := equalMask_denotes _ hcheck hu
  obtain ⟨hmaskNegU, hidealNegU⟩ := equalMask_denotes _ hcheck hminusU
  rw [hmaskU, hidealU, hmaskNegU, hidealNegU]
  have hselect := hturned.select other hr (decide (v * candidate ^ 2 = -u))
  refine (simulates_halfRange hselect).bind fun root number hroot => ?_
  obtain ⟨hhalf, value, hvalue, hvalueSq⟩ := hroot
  refine .pure ⟨_, ?_, or_masks _ _, or_masks _ _, hhalf, value, hvalue, ?_⟩
  · rw [Bool.or_eq_true, decide_eq_true_eq, decide_eq_true_eq]
    exact hsquare
  · intro hfound
    rw [Bool.or_eq_true, decide_eq_true_eq, decide_eq_true_eq] at hfound
    rw [hvalueSq]
    split
    next hminus =>
      -- the candidate is turned by a root of minus one
      rw [decide_eq_true_eq] at hminus
      rw [mul_pow, sqrtMinusOne_sq]
      linear_combination -hminus
    next hplus =>
      rw [decide_eq_true_eq] at hplus
      linear_combination hfound.resolve_right hplus

theorem simulates_fieldIsSquareNonzero (hu : Denotes p25519 u z n) :
    Simulates other (fun mask ideal => ∃ square : Bool, (square = true ↔ IsSquare u ∧ u ≠ 0) ∧
        mask = (if square then -1 else 0) ∧ ideal = if square then -1 else 0)
      (fieldIsSquareNonzero (limbOps other) z) (fieldIsSquareNonzero integerOps n) := by
  unfold fieldIsSquareNonzero
  refine (simulates_fieldSqrtRatio hu denotes_fieldOne one_ne_zero).bind fun ratio ideal hratio => ?_
  obtain ⟨square, hsquare, hmask, hideal, -⟩ := hratio
  rw [div_one] at hsquare
  have hzero : n = 0 ↔ u = 0 := by
    have hdenotes : Denotes p25519 0 fieldZero 0 := ⟨rfl, by decide, Nat.cast_zero⟩
    exact hu.eq_iff hdenotes
  have hmasks : ∀ nonzero : Bool, (if square then -1 else 0 : UInt64) &&&
      ~~~(if nonzero then 0 else -1 : UInt64) = if square && nonzero then -1 else 0 := by
    intro nonzero
    cases square <;> cases nonzero <;> rfl
  have hzeroMask : (if n = 0 then -1 else 0 : UInt64) = if decide (u ≠ 0) then 0 else -1 := by
    by_cases h : u = 0
    · rw [if_pos (hzero.mpr h), decide_eq_false (not_not.mpr h)]
      rfl
    · rw [if_neg (fun hn => h (hzero.mp hn)), decide_eq_true h]
      rfl
  refine .pure ⟨square && decide (u ≠ 0), ?_, ?_, ?_⟩
  · rw [Bool.and_eq_true, hsquare, decide_eq_true_eq]
  · show ratio.2 &&& ~~~zeroMask z = _
    rw [zeroMask_eq, hu.toNat, hmask, hzeroMask, hmasks]
  · show ideal.2 &&& ~~~(if n = 0 then -1 else 0 : UInt64) = _
    rw [hideal, hzeroMask, hmasks]

end Roots

section Runs

variable {other : OtherCarry} {x root : GF25519} {z : Field25519} {n : Nat}

theorem simulates_eligibleRoot (hx : Denotes p25519 x z n) (hne : -x - curveA ≠ 0) :
    Simulates other (RatioRoot x (2 * (-x - curveA))) (eligibleRoot (limbOps other) z)
      (eligibleRoot integerOps n) := by
  have htwo : (2 : GF25519) ≠ 0 := fun hzero => not_isSquare_two (hzero ▸ IsSquare.zero)
  unfold eligibleRoot
  refine (simulates_addM hx denotes_fieldA).bind fun sum _ hsum => ?_
  refine (simulates_negM hsum).bind fun xA _ hxA => ?_
  refine (simulates_mulM denotes_fieldTwo hxA).bind fun v _ hv => ?_
  exact simulates_fieldSqrtRatio hx (hv.congr (by ring)) (mul_ne_zero htwo hne)

theorem entropy_mask (entropy : UInt8) :
    0 - (entropy &&& 1).toUInt64 = if decide (entropy.toNat % 2 = 1) then -1 else 0 := by
  have hbit : (entropy &&& 1).toUInt64 = UInt64.ofNat (entropy.toNat % 2) := by
    apply UInt64.toNat_inj.mp
    rw [UInt8.toNat_toUInt64, UInt8.toNat_and, UInt64.toNat_ofNat_of_lt' (show _ < 2 ^ 64 by omega)]
    exact Nat.and_one_is_mod _
  rw [hbit]
  rcases Nat.mod_two_eq_zero_or_one entropy.toNat with heven | hodd
  · rw [heven]
    rfl
  · rw [hodd]
    rfl

theorem simulates_chooseRepresentative (hroot : Denotes p25519 root z n) (entropy : UInt8) :
    Simulates other (fun r number => ∃ chosen, (chosen = root ∨ chosen = (2 * root)⁻¹) ∧
        LowerRoot chosen r number)
      (chooseRepresentative (limbOps other) z entropy)
      (chooseRepresentative integerOps n entropy) := by
  unfold chooseRepresentative
  rw [entropy_mask]
  refine (simulates_mulM denotes_fieldTwo hroot).bind fun doubled _ hdoubled => ?_
  refine (simulates_invert hdoubled).bind fun r1 _ hr1 => ?_
  have hselect := hr1.select other hroot (decide (entropy.toNat % 2 = 1))
  refine (simulates_halfRange hselect).mono fun r number hr => ⟨_, ?_, hr⟩
  split
  · exact .inr rfl
  · exact .inl rfl

/-- What decoding does in the field: the first coordinate if it is on the curve,
and the second if not. -/
def Decodes (root x : GF25519) : Prop :=
  ∃ square : Bool, (square = true ↔ IsSquare (montgomery curveA (elligatorFirst curveA root)) ∧
      montgomery curveA (elligatorFirst curveA root) ≠ 0) ∧
    x = if square then elligatorFirst curveA root else -elligatorFirst curveA root - curveA

theorem simulates_decodeRun (hroot : Denotes p25519 root z n) :
    Simulates other (fun result number => ∃ x, Decodes root x ∧ Denotes p25519 x result number)
      (decodeRun (limbOps other) z) (decodeRun integerOps n) := by
  unfold decodeRun
  refine (simulates_squareM hroot).bind fun squared _ hsquared => ?_
  refine (simulates_mulM denotes_fieldTwo hsquared).bind fun doubled _ hdoubled => ?_
  refine (simulates_addM denotes_fieldOne hdoubled).bind fun d _ hd => ?_
  refine (simulates_invert hd).bind fun inverse _ hinverse => ?_
  refine (simulates_mulM denotes_fieldNegA hinverse).bind fun v _ hv => ?_
  replace hv := hv.congr (show _ = elligatorFirst curveA root by rw [elligatorFirst_eq, sq])
  refine (simulates_squareM hv).bind fun vSquared _ hvSquared => ?_
  refine (simulates_mulM hvSquared hv).bind fun cubed _ hcubed => ?_
  refine (simulates_mulM denotes_fieldA hvSquared).bind fun scaled _ hscaled => ?_
  refine (simulates_addM hcubed hscaled).bind fun firstSum _ hfirstSum => ?_
  refine (simulates_addM hfirstSum hv).bind fun t _ ht => ?_
  replace ht := ht.congr (show _ = montgomery curveA (elligatorFirst curveA root) by
    unfold montgomery; ring)
  refine (simulates_negM hv).bind fun minus _ hminus => ?_
  refine (simulates_subM hminus denotes_fieldA le_rfl).bind fun second _ hsecond => ?_
  refine (simulates_fieldIsSquareNonzero ht).bind fun mask ideal hmask => ?_
  obtain ⟨square, hsquare, rfl, rfl⟩ := hmask
  exact .pure ⟨_, ⟨square, hsquare, rfl⟩, hv.select _ hsecond _⟩

end Runs

section Decoding

variable {x root chosen : GF25519} (hroot : root ^ 2 * (2 * (-x - curveA)) = x)
  (hcurve : IsSquare (montgomery curveA x)) (hne : montgomery curveA x ≠ 0)
include hcurve

theorem neg_sub_curveA_ne_zero : -x - curveA ≠ 0 := by
  intro hzero
  have hx : x = -curveA := by linear_combination -hzero
  rw [hx] at hcurve
  refine not_isSquare_neg_curveA ?_
  convert hcurve using 1
  unfold montgomery
  ring

include hroot hne

/-- Both roots, and their negatives, decode to the coordinate. -/
theorem decodes_chosen {r y : GF25519} (hchosen : chosen = root ∨ chosen = (2 * root)⁻¹)
    (hr : r ^ 2 = chosen ^ 2) (hy : Decodes r y) : y = x := by
  obtain ⟨square, hsquare, rfl⟩ := hy
  have hfirst : elligatorFirst curveA r = elligatorFirst curveA chosen := by
    rw [elligatorFirst_eq, elligatorFirst_eq]
    rw [hr]
  rw [hfirst] at hsquare ⊢
  rcases hchosen with rfl | rfl
  · have hnot := not_isSquare_elligatorFirst_root curveA_ne_zero hroot
      (neg_sub_curveA_ne_zero hcurve) not_isSquare_two hcurve hne
    rw [if_neg fun h => hnot (hsquare.mp h).1, elligatorFirst_root curveA_ne_zero hroot]
    ring
  · have hdouble : 2 * root ≠ 0 := by
      intro hzero
      have hx : x = 0 := by linear_combination -hroot + root * (-x - curveA) * hzero
      apply hne
      unfold montgomery
      rw [hx]
      ring
    have hpoint := elligatorFirst_inverse curveA_ne_zero hroot (mul_inv_cancel₀ hdouble)
    rw [hpoint] at hsquare ⊢
    exact if_pos (hsquare.mpr ⟨hcurve, hne⟩)

end Decoding

section Bytes

variable {r : Field25519}

theorem free_bits {top : UInt8} (entropy : UInt8) (htop : top.toNat < 64) :
    (top ||| (entropy &&& 0xc0)) &&& 0x3f = top := by
  have hmask : (0xc0 : UInt8).toNat &&& (0x3f : UInt8).toNat = 0 := rfl
  have hlow : top.toNat &&& (0x3f : UInt8).toNat = top.toNat :=
    (Nat.and_two_pow_sub_one_eq_mod _ 6).trans (Nat.mod_eq_of_lt htop)
  apply UInt8.toNat_inj.mp
  rw [UInt8.toNat_and, UInt8.toNat_or, UInt8.toNat_and, Nat.and_or_distrib_right, Nat.and_assoc,
    hmask, Nat.and_zero, Nat.or_zero, hlow]

theorem length_encodedBytes (r : Field25519) (entropy : UInt8) :
    (encodedBytes r entropy).length = 32 := by
  unfold encodedBytes
  rw [List.length_modify, (store r).property]

theorem maskRepresentative_encodedBytes (entropy : UInt8) (hr : r.toNat ≤ p25519 / 2) :
    maskRepresentative (encodedBytes r entropy) (length_encodedBytes r entropy) = store r := by
  have hbytes : (store r).val = natLE 31 r.toNat ++ [ofNat (r.toNat / 256 ^ 31)] := by
    rw [store_eq, natLE_add 31 1]
    rfl
  have htop : (ofNat (r.toNat / 256 ^ 31)).toNat < 64 := by
    rw [toNat_ofNat']
    unfold p25519 at hr
    omega
  have hmodify : ∀ f top, (natLE 31 r.toNat ++ [top]).modify 31 f = natLE 31 r.toNat ++ [f top] := by
    intro f top
    have hlast := modify_length_append (natLE 31 r.toNat) top f
    rwa [length_natLE] at hlast
  apply Subtype.ext
  show (encodedBytes r entropy).modify 31 (· &&& 0x3f) = (store r).val
  unfold encodedBytes
  rw [hbytes, hmodify, hmodify, free_bits _ htop]

theorem fieldLoad_store (r : Field25519) : fieldLoad (store r) = r := by
  apply Limbs4.toNat_inj.mp
  rw [toNat_fieldLoad, store_eq, leNat_natLE]
  exact r.toNat_lt

theorem decodeElligator2_encodedBytes (other : OtherCarry) {out : Bytes} (entropy : UInt8)
    (hout : 32 ≤ out.length) (hr : r.toNat ≤ p25519 / 2) :
    decodeElligator2 other out (encodedBytes r entropy) =
      Option.bind (decodeRun (limbOps other) r) fun result =>
        some (.ok ((store result.1).val ++ out.drop 32)) := by
  have hvalid : lessOrEqualMask r fieldHalf = 0xffffffffffffffff := by
    rw [lessOrEqualMask_eq, toNat_fieldHalf, if_pos hr]
    rfl
  unfold decodeElligator2
  rw [if_neg (Nat.not_lt.mpr hout), dif_pos (length_encodedBytes r _)]
  dsimp only
  rw [maskRepresentative_encodedBytes _ hr, fieldLoad_store, hvalid]
  cases decodeRun (limbOps other) r with
  | none => rfl
  | some result => rfl

end Bytes

section Root

variable (other : OtherCarry) (dst : Bytes) (r0 : Field25519)

theorem encodeRoot_ones (entropy : UInt8) :
    encodeRoot other dst (some entropy) r0 (-1) =
      Option.bind (chooseRepresentative (limbOps other) r0 entropy) fun run =>
        some (.ok (true, encodedBytes run.1 entropy ++ dst.drop 32)) :=
  if_neg (by decide)

end Root

section RoundTrip

def coordinate (publicKey : FixedBytes 32) : GF25519 := leNat publicKey.val

/-- The calls on the integers after the root of a coordinate, if there is one: the
choice of the representative and its decoding. -/
def representativeCalls (root : Nat × UInt64) (entropy : UInt8) : List (Call Nat) :=
  if root.2 ≠ 0xffffffffffffffff then []
  else (chooseRepresentative integerOps root.1 entropy).2 ++
    (decodeRun integerOps (chooseRepresentative integerOps root.1 entropy).1).2

/-- The calls on the integers of an encoding and of the decoding of what it gives. -/
def roundTripCalls (x : Nat) (entropy : UInt8) : List (Call Nat) :=
  (eligibleRoot integerOps x).2 ++ representativeCalls (eligibleRoot integerOps x).1 entropy

def RoundTrips (other : OtherCarry) (publicKey : FixedBytes 32) (entropy : UInt8) : Prop :=
  ∀ dst : Bytes, 32 ≤ dst.length →
    (¬ IsSquare (coordinate publicKey / (2 * (-coordinate publicKey - curveA))) →
      encodeElligator2 other dst publicKey.val (some entropy) = some (.ok (false, dst))) ∧
    (IsSquare (coordinate publicKey / (2 * (-coordinate publicKey - curveA))) →
      ∃ encoded : Bytes, encoded.length = 32 ∧
        encodeElligator2 other dst publicKey.val (some entropy) =
          some (.ok (true, encoded ++ dst.drop 32)) ∧
        ∀ out : Bytes, 32 ≤ out.length →
          decodeElligator2 other out encoded = some (.ok (publicKey.val ++ out.drop 32)))

theorem representativeCalls_eq {root : Nat × UInt64} (entropy : UInt8) (h : root.2 = -1) :
    representativeCalls root entropy = (chooseRepresentative integerOps root.1 entropy).2 ++
      (decodeRun integerOps (chooseRepresentative integerOps root.1 entropy).1).2 := by
  refine if_neg ?_
  rw [h]
  decide

variable {publicKey : FixedBytes 32} (hcanonical : leNat publicKey.val < p25519)
include hcanonical

theorem denotes_fieldLoad : Denotes p25519 (coordinate publicKey) (fieldLoad publicKey)
    (leNat publicKey.val) :=
  ⟨toNat_fieldLoad _, hcanonical, rfl⟩

theorem store_coordinate {z : Field25519} {number : Nat}
    (hz : Denotes p25519 (coordinate publicKey) z number) : (store z).val = publicKey.val := by
  have hnumber := (hz.eq_iff (denotes_fieldLoad hcanonical)).mpr rfl
  have hbytes := natLE_leNat publicKey.val
  rw [publicKey.property] at hbytes
  rw [store_eq, hz.toNat, hnumber, hbytes]

variable (hcurve : IsSquare (montgomery curveA (coordinate publicKey)))
  (hne : montgomery curveA (coordinate publicKey) ≠ 0)
include hcurve hne

theorem encodeElligator2_eq (other : OtherCarry) {dst : Bytes} (entropy : UInt8)
    (hdst : 32 ≤ dst.length) :
    encodeElligator2 other dst publicKey.val (some entropy) =
      Option.bind (eligibleRoot (limbOps other) (fieldLoad publicKey)) fun run =>
        encodeRoot other dst (some entropy) run.1.1 run.1.2 := by
  have hx := denotes_fieldLoad hcanonical
  have hless : lessMask (fieldLoad publicKey) fieldP = 0xffffffffffffffff := by
    rw [lessMask_eq, hx.toNat, toNat_fieldP]
    exact if_pos hcanonical
  have hzero : zeroMask (fieldLoad publicKey) = 0 := by
    have hnonzero : leNat publicKey.val ≠ 0 := by
      intro hzero
      apply hne
      unfold coordinate montgomery
      rw [hzero, Nat.cast_zero]
      ring
    rw [zeroMask_eq, hx.toNat]
    exact if_neg hnonzero
  have hneg : equalMask (fieldLoad publicKey) fieldNegA = 0 := by
    have hother : leNat publicKey.val ≠ fieldNegA.toNat := by
      intro hequal
      apply neg_sub_curveA_ne_zero hcurve
      rw [(hx.eq_iff denotes_fieldNegA).mp hequal]
      ring
    rw [equalMask_eq, hx.toNat]
    exact if_neg hother
  unfold encodeElligator2
  rw [if_neg (Nat.not_lt.mpr hdst), dif_pos]
  dsimp only
  rw [hless, hzero, hneg]
  exact if_neg (by decide)

theorem roundTrips_of_carriesOne (other : OtherCarry) (entropy : UInt8)
    (hcarries : ∀ call ∈ roundTripCalls (leNat publicKey.val) entropy, call.CarriesOne) :
    RoundTrips other publicKey entropy := by
  intro dst hdst
  have hx := denotes_fieldLoad hcanonical
  have hroots : Simulates other _ _ _ := simulates_eligibleRoot hx (neg_sub_curveA_ne_zero hcurve)
  rw [encodeElligator2_eq hcanonical hcurve hne _ _ hdst]
  obtain ⟨hfirst, hrest⟩ := List.forall_mem_append.mp hcarries
  generalize eligibleRoot integerOps (leNat publicKey.val) = ideal at hroots hfirst hrest
  obtain ⟨⟨r0, mask⟩, calls, hrun, hratio, -⟩ := hroots.defined hfirst
  obtain ⟨square, hsquare, rfl, hideal, -, root, hroot, hvalue⟩ := hratio
  dsimp only at hroot
  rw [← hsquare]
  cases square with
  | false =>
    refine ⟨fun _ => ?_, fun hfalse => ?_⟩
    · rw [hrun, bind_some]
      exact if_pos (show (0 : UInt64) ≠ -1 by decide)
    · cases hfalse
  | true =>
    refine ⟨fun hnot => absurd rfl hnot, fun _ => ?_⟩
    rw [representativeCalls_eq _ hideal] at hrest
    obtain ⟨hchoose, hdecode⟩ := List.forall_mem_append.mp hrest
    have hchoice : Simulates other _ _ _ := simulates_chooseRepresentative hroot entropy
    generalize chooseRepresentative integerOps ideal.1.1 entropy = choice at hchoice hchoose hdecode
    obtain ⟨r, _, hchosenRun, ⟨chosen, hchosen, hlow, lower, hlower, hsq⟩, -⟩ :=
      hchoice.defined hchoose
    have hdecoding : Simulates other _ _ _ := simulates_decodeRun hlower
    obtain ⟨result, _, hdecodeRun, ⟨y, hy, hdenotes⟩, -⟩ := hdecoding.defined hdecode
    have hpoint := decodes_chosen (hvalue rfl) hcurve hne hchosen hsq hy
    refine ⟨encodedBytes r entropy, length_encodedBytes r _, ?_, fun out hout => ?_⟩
    · rw [hrun, bind_some]
      refine (encodeRoot_ones _ _ r0 _).trans ?_
      rw [hchosenRun, bind_some]
    · rw [decodeElligator2_encodedBytes _ _ hout (hlower.toNat.trans_le hlow),
        hdecodeRun, bind_some, store_coordinate hcanonical (hdenotes.congr hpoint)]

/-- Where a carry is not defined, a step of the round trip has no result. -/
theorem carriesOne_of_roundTrips (entropy : UInt8)
    (htrips : RoundTrips undefinedCarry publicKey entropy) :
    ∀ call ∈ roundTripCalls (leNat publicKey.val) entropy, call.CarriesOne := by
  have hx := denotes_fieldLoad hcanonical
  have hroots : Simulates undefinedCarry _ _ _ :=
    simulates_eligibleRoot hx (neg_sub_curveA_ne_zero hcurve)
  have hlength : 32 ≤ (List.replicate 32 (0 : UInt8)).length := by decide
  obtain ⟨hineligible, heligible⟩ := htrips _ hlength
  rw [encodeElligator2_eq hcanonical hcurve hne _ _ hlength] at hineligible heligible
  refine List.forall_mem_append.mpr ?_
  generalize eligibleRoot integerOps (leNat publicKey.val) = ideal at hroots ⊢
  have hfirst : ∀ call ∈ ideal.2, call.CarriesOne := by
    by_contra hnot
    obtain ⟨call, hcall⟩ := not_forall.mp hnot
    have hnone := hroots.undefined rfl ⟨call, Classical.not_imp.mp hcall⟩
    rw [hnone, bind_none] at hineligible heligible
    obtain ⟨_, _, hresult, _⟩ := heligible (by_contra fun h => nomatch hineligible h)
    cases hresult
  obtain ⟨⟨r0, mask⟩, calls, hrun, hratio, -⟩ := hroots.defined hfirst
  obtain ⟨square, hsquare, rfl, hideal, -, root, hroot, -⟩ := hratio
  dsimp only at hroot
  refine ⟨hfirst, ?_⟩
  cases square with
  | false =>
    rw [representativeCalls, if_pos (by rw [hideal]; decide)]
    exact List.forall_mem_nil _
  | true =>
    rw [representativeCalls_eq _ hideal]
    obtain ⟨encoded, hencoded, hresult, hdecoded⟩ := heligible (hsquare.mp rfl)
    have hchoice : Simulates undefinedCarry _ _ _ := simulates_chooseRepresentative hroot entropy
    generalize chooseRepresentative integerOps ideal.1.1 entropy = choice at hchoice ⊢
    rw [hrun, bind_some] at hresult
    replace hresult := (encodeRoot_ones _ _ r0 _).symm.trans hresult
    have hchoose : ∀ call ∈ choice.2, call.CarriesOne := by
      by_contra hnot
      obtain ⟨call, hcall⟩ := not_forall.mp hnot
      rw [hchoice.undefined rfl ⟨call, Classical.not_imp.mp hcall⟩] at hresult
      cases hresult
    obtain ⟨r, _, hchosenRun, ⟨chosen, -, hlow, lower, hlower, -⟩, -⟩ := hchoice.defined hchoose
    rw [hchosenRun, bind_some, some_inj, Except.ok.injEq, Prod.mk.injEq] at hresult
    obtain ⟨rfl, -⟩ := List.append_inj hresult.2 ((length_encodedBytes r _).trans hencoded.symm)
    have hdecode : ∀ call ∈ (decodeRun integerOps choice.1).2, call.CarriesOne := by
      by_contra hnot
      obtain ⟨call, hcall⟩ := not_forall.mp hnot
      have hnone := (simulates_decodeRun hlower).undefined rfl ⟨call, Classical.not_imp.mp hcall⟩
      have hnothing := hdecoded _ hlength
      rw [decodeElligator2_encodedBytes _ _ hlength (hlower.toNat.trans_le hlow), hnone] at hnothing
      cases hnothing
    exact List.forall_mem_append.mpr ⟨hchoose, hdecode⟩

/-- Encoding and decoding are inverse, and the coordinate without a representative
is told, whatever `bits.Add64` does with other carries, exactly when no product on
the integers carries two in its reduction. -/
theorem elligator_round_trip_iff (entropy : UInt8) :
    (∀ other, RoundTrips other publicKey entropy) ↔
      ∀ call ∈ roundTripCalls (leNat publicKey.val) entropy, call.CarriesOne :=
  ⟨fun htrips => carriesOne_of_roundTrips hcanonical hcurve hne _ (htrips _),
    fun hcarries other => roundTrips_of_carriesOne hcanonical hcurve hne other _ hcarries⟩

end RoundTrip

def basePoint : FixedBytes 32 := ⟨natLE 32 9, rfl⟩

theorem elligator_round_trip_basePoint : RoundTrips flagCarry basePoint 0x41 :=
  (elligator_round_trip_iff (by decide +kernel)
    ⟨0x20ae19a1b8a086b4e01edd2c7748d14c923d4d7e6d7c61b229e9c5a27eced3d9, by decide +kernel⟩
    (by decide +kernel) 0x41).mpr (by decide +kernel) flagCarry

/-- A coordinate `x` for which the square of `2 (-x - A)` has the digit `2 ^ 64 - 1` or
`2 ^ 64 - 2` in its second place, and 38 times its sixth digit is close to a multiple of
`2 ^ 64`. -/
def carryKey : FixedBytes 32 :=
  ⟨natLE 32 0x3fffffffffffffffd678a82d8861186f922bdae15b8429cc75f625dc8ca7ddd3, rfl⟩

/-- The coordinate is on the curve and has representatives, but the code as compiled
for amd64 and arm64 says that it has none. -/
theorem elligator_carry_two :
    leNat carryKey.val < p25519 ∧
      IsSquare (montgomery curveA (coordinate carryKey)) ∧
      montgomery curveA (coordinate carryKey) ≠ 0 ∧
      IsSquare (coordinate carryKey / (2 * (-coordinate carryKey - curveA))) ∧
      encodeElligator2 flagCarry (List.replicate 32 0) carryKey.val (some 0) =
        some (.ok (false, List.replicate 32 0)) := by
  have hpoint : montgomery curveA (coordinate carryKey) =
      0x1c595704df45b6025bc82c7f43a7a14b060a792f79f9508785ec4ae37a4915f4 ^ 2 := by
    decide +kernel
  have hdivisor : 2 * (-coordinate carryKey - curveA) ≠ 0 := by decide +kernel
  have hratio : coordinate carryKey =
      0x316123ea0045e5754215193c15e5bfeb60ff506d47fb0221035c89475911cfdc ^ 2 *
        (2 * (-coordinate carryKey - curveA)) := by
    decide +kernel
  have hsquare := (div_eq_iff hdivisor).mpr hratio
  refine ⟨by decide +kernel, ⟨_, hpoint.trans (sq _)⟩, by decide +kernel,
    ⟨_, hsquare.trans (sq _)⟩, ?_⟩
  decide +kernel

end Ivnp.Cryptography
