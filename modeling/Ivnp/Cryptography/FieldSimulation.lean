import Ivnp.Cryptography.FieldProgram
import Ivnp.Cryptography.Prime25519

/-!
A program over the words follows the same program over the integers, and both
compute what the program means in the field. The words have a result as long as
no product of the integer program carries two in its reduction, and then every
operation that was called is the operation of the field.
-/

namespace Ivnp.Cryptography

open Ivnp.Lib

namespace Call

/-- The call gave what the operation of the field gives; what ends in a fold is
below `p`. -/
def Correct : Call Field25519 → Prop
  | add z x r => (r.toNat : GF25519) = z.toNat + x.toNat ∧ r.toNat < p25519
  | sub z x r => (r.toNat : GF25519) = z.toNat - x.toNat
  | neg z r => (r.toNat : GF25519) = -z.toNat
  | mul z x r => (r.toNat : GF25519) = z.toNat * x.toNat ∧ r.toNat < p25519
  | square z r => (r.toNat : GF25519) = z.toNat * z.toNat ∧ r.toNat < p25519
  | mulA24 z r => (r.toNat : GF25519) = (121665 * z.toNat : Nat) ∧ r.toNat < p25519
  | invert z r => (r.toNat : GF25519) = (z.toNat : GF25519)⁻¹ ∧ r.toNat < p25519

/-- If the call multiplies, the product does not carry two in its reduction. -/
def CarriesOne : Call Nat → Prop
  | mul z x _ => Cryptography.CarriesOne (z * x)
  | square z _ => Cryptography.CarriesOne (z * z)
  | _ => True

instance (call : Call Nat) : Decidable call.CarriesOne :=
  match call with
  | mul z x _ => inferInstanceAs (Decidable (Cryptography.CarriesOne (z * x)))
  | square z _ => inferInstanceAs (Decidable (Cryptography.CarriesOne (z * z)))
  | add _ _ _ => isTrue trivial
  | sub _ _ _ => isTrue trivial
  | neg _ _ => isTrue trivial
  | mulA24 _ _ => isTrue trivial
  | invert _ _ => isTrue trivial

end Call

/-- The run over the words `run` follows the run over the integers `ideal`. -/
structure Simulates (other : OtherCarry) {α β : Type} (R : α → β → Prop)
    (run : Option (α × List (Call Field25519))) (ideal : β × List (Call Nat)) : Prop where
  defined : (∀ call ∈ ideal.2, call.CarriesOne) →
    ∃ result calls, run = some (result, calls) ∧ R result ideal.1 ∧ ∀ call ∈ calls, call.Correct
  undefined : other = undefinedCarry → (∃ call ∈ ideal.2, ¬ call.CarriesOne) → run = none

namespace Simulates

variable {other : OtherCarry} {α β γ δ : Type} {R : α → β → Prop} {S : γ → δ → Prop}

theorem pure {result : α} {ideal : β} (h : R result ideal) :
    Simulates other R (Pure.pure result : Traced Option Field25519 α)
      (Pure.pure ideal : Traced Id Nat β) where
  defined _ := ⟨result, [], rfl, h, List.forall_mem_nil _⟩
  undefined _ := fun ⟨_, hmem, _⟩ => absurd hmem List.not_mem_nil

theorem bind {run : Traced Option Field25519 α} {ideal : Traced Id Nat β}
    {next : α → Traced Option Field25519 γ} {idealNext : β → Traced Id Nat δ}
    (hrun : Simulates other R run ideal)
    (hnext : ∀ result value, R result value → Simulates other S (next result) (idealNext value)) :
    Simulates other S (run >>= next : Traced Option Field25519 γ)
      (ideal >>= idealNext : Traced Id Nat δ) where
  defined hcarries := by
    obtain ⟨hfirst, hsecond⟩ := List.forall_mem_append.mp hcarries
    obtain ⟨result, calls, rfl, hR, hcalls⟩ := hrun.defined hfirst
    obtain ⟨final, more, hmore, hS, hmoreCalls⟩ := (hnext _ _ hR).defined hsecond
    refine ⟨final, calls ++ more, ?_, hS, List.forall_mem_append.mpr ⟨hcalls, hmoreCalls⟩⟩
    show Option.bind (next result) _ = _
    rw [hmore]
    rfl
  undefined hother hviolated := by
    obtain ⟨call, hmem, hcall⟩ := hviolated
    by_cases hfirst : ∀ call ∈ ideal.2, call.CarriesOne
    · obtain ⟨result, calls, rfl, hR, -⟩ := hrun.defined hfirst
      have hlater := (List.mem_append.mp hmem).resolve_left fun hearly => hcall (hfirst _ hearly)
      have hnone := (hnext _ _ hR).undefined hother ⟨call, hlater, hcall⟩
      show Option.bind (next result) _ = _
      rw [hnone]
      rfl
    · obtain ⟨early, hearly⟩ := not_forall.mp hfirst
      rw [hrun.undefined hother ⟨early, Classical.not_imp.mp hearly⟩]
      rfl

theorem mono {T : α → β → Prop} {run : Option (α × List (Call Field25519))}
    {ideal : β × List (Call Nat)} (h : Simulates other R run ideal)
    (himp : ∀ result value, R result value → T result value) : Simulates other T run ideal where
  defined hcarries := by
    obtain ⟨result, calls, hrun, hR, hcalls⟩ := h.defined hcarries
    exact ⟨result, calls, hrun, himp _ _ hR, hcalls⟩
  undefined := h.undefined

end Simulates

/-- The words and the integer are the same number below the bound, and it stands
for this element of the field. -/
structure Denotes (bound : Nat) (value : GF25519) (z : Field25519) (number : Nat) : Prop where
  toNat : z.toNat = number
  lt : number < bound
  cast : (number : GF25519) = value

variable {number : Nat}

namespace Denotes

variable {bound other : Nat} {u v : GF25519} {z x : Field25519} {n k : Nat}

theorem weaken (h : Denotes bound u z n) (hle : bound ≤ other) : Denotes other u z n :=
  ⟨h.toNat, h.lt.trans_le hle, h.cast⟩

theorem congr (h : Denotes bound u z n) (heq : u = v) : Denotes bound v z n := heq ▸ h

theorem of_mod (h : z.toNat = number % p25519) (hcast : (number : GF25519) = u) :
    Denotes p25519 u z (number % p25519) where
  toNat := h
  lt := Nat.mod_lt _ (by decide)
  cast := (ZMod.natCast_mod _ _).trans hcast

theorem select (carry : OtherCarry) (hz : Denotes bound u z n) (hx : Denotes bound v x k) (choice : Bool) :
    Denotes bound (if choice then u else v) ((limbOps carry).select z x (if choice then -1 else 0))
      (integerOps.select n k (if choice then -1 else 0)) := by
  have hselect : (limbOps carry).select z x (if choice then -1 else 0) =
      if choice then z else x := fieldSelect_mask z x _
  rw [hselect]
  cases choice
  · exact hx
  · exact hz

end Denotes

section Operations

variable {other : OtherCarry} {left right : Nat} {u v : GF25519} {z x : Field25519} {n k : Nat}

variable {call : Field25519 → Call Field25519} {ideal : Nat → Call Nat}

theorem simulates_total {R : Field25519 → Nat → Prop} {r : Field25519} (hR : R r number)
    (hcarries : (ideal number).CarriesOne) (hcorrect : (call r).Correct) :
    Simulates other R (traced (Pure.pure r : Option _) call) (traced (Pure.pure number : Id _) ideal)
    where
  defined _ := ⟨r, [call r], rfl, hR, List.forall_mem_singleton.mpr hcorrect⟩
  undefined _ := fun ⟨_, hmem, hnot⟩ => absurd (List.mem_singleton.mp hmem ▸ hcarries) hnot

/-- A product that is reduced, for a call that carries as the product does and records it. -/
theorem simulates_product (hz : Denotes left u z n) (hx : Denotes right v x k) {t : Limbs8}
    (ht : t.toNat = z.toNat * x.toNat)
    (hcarries : (ideal (n * k % p25519)).CarriesOne ↔ CarriesOne (n * k))
    (hcorrect : ∀ r, (r.toNat : GF25519) = z.toNat * x.toNat → r.toNat < p25519 →
      (call r).Correct) :
    Simulates other (Denotes p25519 (u * v)) (traced (fieldReduce512 other t) call)
      (traced (Pure.pure (n * k % p25519) : Id _) ideal) := by
  rw [hz.toNat, hx.toNat] at ht
  constructor
  · intro hall
    obtain ⟨r, hr, hproduct⟩ := fieldReduce512_eq_some other
      (ht ▸ hcarries.mp (List.forall_mem_singleton.mp hall))
    have hdenotes : Denotes p25519 (u * v) r (n * k % p25519) :=
      .of_mod (ht ▸ hproduct) (by rw [Nat.cast_mul, hz.cast, hx.cast])
    rw [hr]
    refine ⟨r, [call r], rfl, hdenotes, List.forall_mem_singleton.mpr (hcorrect r ?_ ?_)⟩
    · rw [hdenotes.toNat, hdenotes.cast, hz.toNat, hx.toNat, hz.cast, hx.cast]
    · exact hdenotes.toNat ▸ hdenotes.lt
  · rintro rfl hviolated
    obtain ⟨made, hmem, hnot⟩ := hviolated
    have hcarry : ¬CarriesOne t.toNat := by
      rw [ht, ← hcarries]
      exact List.mem_singleton.mp hmem ▸ hnot
    rw [fieldReduce512_undefined hcarry]
    rfl

theorem simulates_addM (hz : Denotes left u z n) (hx : Denotes right v x k) :
    Simulates other (Denotes p25519 (u + v)) (addM (limbOps other) z x) (addM integerOps n k) := by
  have hsum := toNat_fieldAdd z x
  rw [hz.toNat, hx.toNat] at hsum
  have hdenotes : Denotes p25519 (u + v) (fieldAdd z x) ((n + k) % p25519) :=
    .of_mod hsum (by rw [Nat.cast_add, hz.cast, hx.cast])
  have hcorrect : ((fieldAdd z x).toNat : GF25519) = z.toNat + x.toNat := by
    rw [hdenotes.toNat, hdenotes.cast, hz.toNat, hx.toNat, hz.cast, hx.cast]
  exact simulates_total hdenotes trivial ⟨hcorrect, hdenotes.toNat ▸ hdenotes.lt⟩

theorem simulates_subM (hz : Denotes left u z n) (hx : Denotes p25519 v x k)
    (hbound : p25519 ≤ left) :
    Simulates other (Denotes left (u - v)) (subM (limbOps other) z x) (subM integerOps n k) := by
  have hlt := hx.lt
  have hdiff : (fieldSub z x).toNat = if n < k then n + p25519 - k else n - k := by
    rw [toNat_fieldSub, hz.toNat, hx.toNat]
    rw [hx.toNat]
    omega
  have hdenotes : Denotes left (u - v) (fieldSub z x) (if n < k then n + p25519 - k else n - k) := by
    refine ⟨hdiff, ?_, ?_⟩
    · have := hz.lt
      split
      · omega
      · omega
    · split
      next hless =>
        rw [Nat.cast_sub (by omega), Nat.cast_add, ZMod.natCast_self, add_zero, hz.cast, hx.cast]
      next hmore => rw [Nat.cast_sub (Nat.not_lt.mp hmore), hz.cast, hx.cast]
  refine simulates_total hdenotes trivial ?_
  show ((fieldSub z x).toNat : GF25519) = z.toNat - x.toNat
  rw [hdenotes.toNat, hdenotes.cast, hz.toNat, hx.toNat, hz.cast, hx.cast]

theorem simulates_negM (hz : Denotes p25519 u z n) :
    Simulates other (Denotes p25519 (-u)) (negM (limbOps other) z) (negM integerOps n) := by
  have hlt := hz.lt
  have hneg := toNat_fieldNeg (hz.toNat ▸ hlt)
  rw [hz.toNat] at hneg
  have hdenotes : Denotes p25519 (-u) (fieldNeg z) (if n = 0 then 0 else p25519 - n) := by
    refine ⟨hneg, ?_, ?_⟩
    · split
      · decide
      · omega
    · rw [← hz.cast]
      split
      next hzero => rw [hzero, Nat.cast_zero, neg_zero]
      next => rw [Nat.cast_sub hlt.le, ZMod.natCast_self, zero_sub]
  refine simulates_total hdenotes trivial ?_
  show ((fieldNeg z).toNat : GF25519) = -z.toNat
  rw [hdenotes.toNat, hdenotes.cast, hz.toNat, hz.cast]

variable (hz : Denotes left u z n)
include hz

theorem simulates_mulA24M :
    Simulates other (Denotes p25519 (121665 * u)) (mulA24M (limbOps other) z)
      (mulA24M integerOps n) := by
  have hproduct := toNat_mulA24 z
  rw [hz.toNat] at hproduct
  have hdenotes : Denotes p25519 (121665 * u) (mulA24 z) (121665 * n % p25519) :=
    .of_mod hproduct (by rw [Nat.cast_mul, hz.cast]; rfl)
  have hcorrect : ((mulA24 z).toNat : GF25519) = (121665 * z.toNat : Nat) := by
    rw [hdenotes.toNat, hdenotes.cast, Nat.cast_mul, hz.toNat, hz.cast]
    rfl
  exact simulates_total hdenotes trivial ⟨hcorrect, hdenotes.toNat ▸ hdenotes.lt⟩

theorem simulates_mulM (hx : Denotes right v x k) :
    Simulates other (Denotes p25519 (u * v)) (mulM (limbOps other) z x) (mulM integerOps n k) :=
  simulates_product hz hx (product_toNat z x) Iff.rfl fun _ hproduct hlt => ⟨hproduct, hlt⟩

theorem simulates_squareM :
    Simulates other (Denotes p25519 (u * u)) (squareM (limbOps other) z) (squareM integerOps n) :=
  simulates_product hz hz (squareProduct_toNat z) Iff.rfl fun _ hproduct hlt => ⟨hproduct, hlt⟩

end Operations

section Chains

variable {other : OtherCarry} {bound : Nat} {u : GF25519} {z x : Field25519} {a b n k : Nat}

theorem simulates_squarePow (count c : Nat) (hz : Denotes p25519 (u ^ a) z n)
    (hc : a * 2 ^ count = c) :
    Simulates other (Denotes p25519 (u ^ c)) (squareN (limbOps other) count z)
      (squareN integerOps count n) := by
  subst hc
  induction count generalizing a z n with
  | zero => exact .pure (hz.congr (by rw [pow_zero, mul_one]))
  | succ count ih =>
    refine (simulates_squareM hz).bind fun squared value hsquared => ?_
    have hdouble : u ^ a * u ^ a = u ^ (a * 2) := by rw [pow_mul, sq]
    have hrest := ih (hsquared.congr hdouble)
    rwa [mul_assoc, ← pow_succ'] at hrest

theorem simulates_mulPow (c : Nat) (hz : Denotes p25519 (u ^ a) z n)
    (hx : Denotes bound (u ^ b) x k) (hc : a + b = c) :
    Simulates other (Denotes p25519 (u ^ c)) (mulM (limbOps other) z x) (mulM integerOps n k) :=
  (simulates_mulM hz hx).mono fun _ _ h => h.congr (by rw [← pow_add, hc])

variable (hz : Denotes bound u z n)
include hz

/-- The addition chain of `pow250`. -/
theorem simulates_pow250 :
    Simulates other (fun powers values => Denotes p25519 (u ^ (2 ^ 250 - 1)) powers.1 values.1 ∧
        Denotes p25519 (u ^ 11) powers.2 values.2)
      (pow250 (limbOps other) z) (pow250 integerOps n) := by
  have hone := hz.congr (pow_one u).symm
  refine (simulates_squareM hz).bind fun z2 n2 h2 => ?_
  replace h2 := h2.congr (sq u).symm
  refine (simulates_squarePow 2 8 h2 rfl).bind fun z8 n8 h8 => ?_
  refine (simulates_mulPow 9 h8 hone rfl).bind fun z9 n9 h9 => ?_
  refine (simulates_mulPow 11 h9 h2 rfl).bind fun z11 n11 h11 => ?_
  refine (simulates_squareM h11).bind fun z22 n22 h22 => ?_
  replace h22 := h22.congr (pow_add u 11 11).symm
  refine (simulates_mulPow (2 ^ 5 - 1) h22 h9 rfl).bind fun z5 n5 h5 => ?_
  refine (simulates_squarePow 5 (2 ^ 10 - 2 ^ 5) h5 rfl).bind fun s5 m5 hs5 => ?_
  refine (simulates_mulPow (2 ^ 10 - 1) hs5 h5 rfl).bind fun z10 n10 h10 => ?_
  refine (simulates_squarePow 10 (2 ^ 20 - 2 ^ 10) h10 rfl).bind fun s10 m10 hs10 => ?_
  refine (simulates_mulPow (2 ^ 20 - 1) hs10 h10 rfl).bind fun z20 n20 h20 => ?_
  refine (simulates_squarePow 20 (2 ^ 40 - 2 ^ 20) h20 rfl).bind fun s20 m20 hs20 => ?_
  refine (simulates_mulPow (2 ^ 40 - 1) hs20 h20 rfl).bind fun z40 n40 h40 => ?_
  refine (simulates_squarePow 10 (2 ^ 50 - 2 ^ 10) h40 rfl).bind fun s40 m40 hs40 => ?_
  refine (simulates_mulPow (2 ^ 50 - 1) hs40 h10 rfl).bind fun z50 n50 h50 => ?_
  refine (simulates_squarePow 50 (2 ^ 100 - 2 ^ 50) h50 rfl).bind fun s50 m50 hs50 => ?_
  refine (simulates_mulPow (2 ^ 100 - 1) hs50 h50 rfl).bind fun z100 n100 h100 => ?_
  refine (simulates_squarePow 100 (2 ^ 200 - 2 ^ 100) h100 rfl).bind fun s100 m100 hs100 => ?_
  refine (simulates_mulPow (2 ^ 200 - 1) hs100 h100 rfl).bind fun z200 n200 h200 => ?_
  refine (simulates_squarePow 50 (2 ^ 250 - 2 ^ 50) h200 rfl).bind fun s200 m200 hs200 => ?_
  refine (simulates_mulPow (2 ^ 250 - 1) hs200 h50 rfl).bind fun z250 n250 h250 => ?_
  exact .pure ⟨h250, h11⟩

theorem simulates_invert :
    Simulates other (Denotes p25519 u⁻¹) (invert (limbOps other) z) (invert integerOps n) := by
  refine (simulates_pow250 hz).bind fun powers values hpowers => ?_
  refine (simulates_squarePow 5 (2 ^ 255 - 2 ^ 5) hpowers.1 rfl).bind fun s m hs => ?_
  refine (simulates_mulPow (p25519 - 2) hs hpowers.2 rfl).bind fun r value hpower => ?_
  have hr := hpower.congr (pow_sub_two u)
  have hcorrect : (r.toNat : GF25519) = (z.toNat : GF25519)⁻¹ := by
    rw [hr.toNat, hr.cast, hz.toNat, hz.cast]
  exact simulates_total hr trivial ⟨hcorrect, hr.toNat ▸ hr.lt⟩

theorem simulates_pow22523 :
    Simulates other (Denotes p25519 (u ^ (2 ^ 252 - 3))) (pow22523 (limbOps other) z)
      (pow22523 integerOps n) := by
  refine (simulates_pow250 hz).bind fun powers values hpowers => ?_
  refine (simulates_squarePow 2 (2 ^ 252 - 2 ^ 2) hpowers.1 rfl).bind fun s m hs => ?_
  exact simulates_mulPow (2 ^ 252 - 3) hs (hz.congr (pow_one u).symm) rfl

end Chains

end Ivnp.Cryptography
