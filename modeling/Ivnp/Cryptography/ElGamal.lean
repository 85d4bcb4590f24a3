import Ivnp.Lib.Bytes
import Ivnp.Lib.Lucas
import Mathlib.FieldTheory.Finite.Basic
import Mathlib.NumberTheory.Bertrand

/-!
Legacy ElGamal (`elgamal.go`). A block of 255 bytes is multiplied with a power of the public key,
and the power of the first half of the ciphertext to `p - 1 - x` takes it off again.
-/

namespace Ivnp.Cryptography

open Ivnp.Lib List

inductive ElGamalError where
  | block
  | random

/-- A modulus of 256 bytes, above every block. -/
structure ElGamalParameters where
  p : Nat
  low : 256 ^ 255 ≤ p
  high : p < 256 ^ 256

/-- The modulus of group 14 in RFC 3526. -/
def elGamalParameters : ElGamalParameters where
  p := 0xFFFFFFFFFFFFFFFFC90FDAA22168C234C4C6628B80DC1CD129024E088A67CC74020BBEA63B139B22514A08798E3404DDEF9519B3CD3A431B302B0A6DF25F14374FE1356D6D51C245E485B576625E7EC6F44C42E9A637ED6B0BFF5CB6F406B7EDEE386BFB5A899FA5AE9F24117C4B1FE649286651ECE45B3DC2007CB8A163BF0598DA48361C55D39A69163FA8FD24CF5F83655D23DCA3AD961C62F356208552BB9ED529077096966D670C354E4ABC9804F1746C08CA18217C32905E462E36CE3BE39E772C180E86039B2783A2EC07A28FB5C55DF06F4C52C9DE2BCBF6955817183995497CEA956AE515D2261898FA051015728E5A8AACAA68FFFFFFFFFFFFFFFF
  low := by decide +kernel
  high := by decide +kernel

section Functions

variable (group : ElGamalParameters) (sha256 : Bytes → FixedBytes 32)

/-- `Exp` modulo `p`, for exponents of at most 2048 bits. -/
def ElGamalParameters.exp (base exponent : Nat) : Nat := powMod group.p (8 * 256) base exponent

def elGamalPublicFromPrivate (privateKey : FixedBytes 256) : Except ElGamalError (FixedBytes 256) :=
  let x := beNat privateKey.val
  if x = 0 ∨ x > group.p - 2 then .error .block
  else .ok (FixedBytes.copy 256 (natBE 256 (group.exp 2 x)))

def elGamalBlock (plaintext : Bytes) : Bytes := 0xff :: ((sha256 plaintext).val ++ plaintext)

/-- `encryptElGamal` into `room` bytes; `drawn` is the answer of `rand.Int`, which is below
`p - 2`, or its error. -/
def encryptElGamal (drawn : Option Nat) (room : Nat) (publicKey : FixedBytes 256)
    (plaintext : Bytes) : Except ElGamalError Bytes :=
  if room < 514 ∨ plaintext.length ≠ 222 then .error .block
  else
    let y := beNat publicKey.val
    if y = 0 ∨ y ≥ group.p then .error .block
    else
      match drawn with
      | none => .error .random
      | some drawn =>
        let k := drawn + 1
        let a := group.exp 2 k
        let shared := group.exp y k
        let b := shared * beNat (elGamalBlock sha256 plaintext) % group.p
        .ok (0 :: (natBE 256 a ++ 0 :: natBE 256 b))

/-- `b * a ^ (p - 1 - x)`. -/
def ElGamalParameters.unmask (x a b : Nat) : Nat := b * group.exp a (group.p - 1 - x) % group.p

def decryptElGamal (room : Nat) (privateKey : FixedBytes 256) (ciphertext : Bytes) :
    Except ElGamalError Bytes :=
  if room < 222 ∨ ciphertext.length ≠ 514 ∨ ciphertext.getD 0 0 ≠ 0 ∨ ciphertext.getD 257 0 ≠ 0 then
    .error .block
  else
    let x := beNat privateKey.val
    if x = 0 ∨ x > group.p - 2 then .error .block
    else
      let a := beNat ((ciphertext.drop 1).take 256)
      let b := beNat (ciphertext.drop 258)
      if a = 0 ∨ a ≥ group.p ∨ b = 0 ∨ b ≥ group.p then .error .block
      else
        let m := group.unmask x a b
        if m ≥ 2 ^ (8 * 255) then .error .block
        else
          let encoded := natBE 255 m
          if encoded.getD 0 0 ≠ 0xff then .error .block
          else if (encoded.drop 1).take 32 ≠ (sha256 (encoded.drop 33)).val then .error .block
          else .ok (encoded.drop 33)

end Functions

section Proofs

variable {group : ElGamalParameters} (sha256 : Bytes → FixedBytes 32)

theorem ElGamalParameters.four_le : 4 ≤ group.p :=
  (show 4 ≤ 256 ^ 255 by decide +kernel).trans group.low

theorem lt_two_pow {exponent : Nat} (h : exponent < group.p) : exponent < 2 ^ (8 * 256) := by
  rw [pow_mul]
  exact h.trans group.high

theorem exp_lt (base : Nat) {exponent : Nat} (h : exponent < group.p) :
    group.exp base exponent < group.p := by
  rw [ElGamalParameters.exp, powMod_eq _ (lt_two_pow h)]
  exact Nat.mod_lt _ (Nat.zero_lt_of_lt h)

theorem cast_exp (base : Nat) {exponent : Nat} (h : exponent < group.p) :
    (group.exp base exponent : ZMod group.p) = (base : ZMod group.p) ^ exponent := by
  rw [ElGamalParameters.exp, powMod_eq _ (lt_two_pow h), ZMod.natCast_mod, Nat.cast_pow]

theorem cast_ne_zero {value : Nat} (hpositive : value ≠ 0) (hlt : value < group.p) :
    (value : ZMod group.p) ≠ 0 := by
  rw [Ne, ZMod.natCast_eq_zero_iff]
  exact fun hdvd => hpositive (Nat.eq_zero_of_dvd_of_lt hdvd hlt)

section Group

variable (hprime : group.p.Prime)
include hprime

theorem exp_ne_zero {base exponent : Nat} (h : exponent < group.p) (hbase : base ≠ 0)
    (hlt : base < group.p) : group.exp base exponent ≠ 0 := by
  have := Fact.mk hprime
  intro hzero
  have hcast := cast_exp base h
  rw [hzero, Nat.cast_zero] at hcast
  exact pow_ne_zero _ (cast_ne_zero hbase hlt) hcast.symm

theorem mask_ne_zero {shared m : Nat} (hshared : shared ≠ 0) (hlt : shared < group.p)
    (hm : m ≠ 0) (hmlt : m < group.p) : shared * m % group.p ≠ 0 := by
  intro hzero
  rcases hprime.dvd_mul.mp (Nat.dvd_of_mod_eq_zero hzero) with hdvd | hdvd
  · exact hshared (Nat.eq_zero_of_dvd_of_lt hdvd hlt)
  · exact hm (Nat.eq_zero_of_dvd_of_lt hdvd hmlt)

/-- The powers cancel, by Fermat's little theorem. -/
theorem unmask_mask {x k m : Nat} (hx : x < group.p) (hk : k < group.p) (hm : m < group.p) :
    group.unmask x (group.exp 2 k) (group.exp (group.exp 2 x) k * m % group.p) = m := by
  have := Fact.mk hprime
  have hfour := group.four_le
  have hpower : ((2 : Nat) : ZMod group.p) ^ k ≠ 0 :=
    pow_ne_zero k (cast_ne_zero two_ne_zero (by omega))
  have hcast : ((group.unmask x (group.exp 2 k)
      (group.exp (group.exp 2 x) k * m % group.p) : Nat) : ZMod group.p) = m := by
    rw [ElGamalParameters.unmask, ZMod.natCast_mod, Nat.cast_mul, ZMod.natCast_mod, Nat.cast_mul,
      cast_exp _ hk, cast_exp _ hx, cast_exp _ (by omega), cast_exp _ hk]
    calc ((2 : Nat) ^ x) ^ k * (m : ZMod group.p) *
          (((2 : Nat) : ZMod group.p) ^ k) ^ (group.p - 1 - x)
        = m * (((2 : Nat) : ZMod group.p) ^ k) ^ (x + (group.p - 1 - x)) := by ring
      _ = m := by rw [Nat.add_sub_cancel' (by omega), ZMod.pow_card_sub_one_eq_one hpower,
        mul_one]
  rwa [ZMod.natCast_eq_natCast_iff', Nat.mod_eq_of_lt hm, ElGamalParameters.unmask, Nat.mod_mod]
    at hcast

end Group

variable {room : Nat} {privateKey : FixedBytes 256} {plaintext : Bytes}

theorem length_elGamalBlock (h : plaintext.length = 222) :
    (elGamalBlock sha256 plaintext).length = 255 := by
  simp [elGamalBlock, h]

theorem beNat_elGamalBlock (h : plaintext.length = 222) :
    beNat (elGamalBlock sha256 plaintext) ≠ 0 ∧
      beNat (elGamalBlock sha256 plaintext) < 256 ^ 255 := by
  constructor
  · rw [elGamalBlock, beNat_cons]
    have hpower := Nat.pow_pos (n := ((sha256 plaintext).val ++ plaintext).length)
      (show 0 < 256 by decide)
    exact (Nat.add_pos_left (Nat.mul_pos (by decide) hpower) _).ne'
  · have hlt := beNat_lt (elGamalBlock sha256 plaintext)
    rwa [length_elGamalBlock sha256 h] at hlt

/-- What is accepted opened as the block of the answer. -/
theorem block_of_decryptElGamal {ciphertext : Bytes}
    (h : decryptElGamal group sha256 room privateKey ciphertext = .ok plaintext) :
    natBE 255 (group.unmask (beNat privateKey.val) (beNat ((ciphertext.drop 1).take 256))
      (beNat (ciphertext.drop 258))) = elGamalBlock sha256 plaintext := by
  simp only [decryptElGamal] at h
  split_ifs at h with _ _ _ _ hmarker hhash
  obtain rfl := Except.ok.inj h
  generalize hencoded : natBE 255 _ = encoded at *
  have hlength : encoded.length = 255 := by rw [← hencoded, natBE_length]
  cases encoded with
  | nil => cases hlength
  | cons marker rest =>
    simp only [getD_cons_zero, ne_eq, not_not, drop_succ_cons, drop_zero] at hmarker hhash ⊢
    rw [elGamalBlock, ← hmarker, ← hhash, take_append_drop]

theorem decryptElGamal_of_unmask {a b : Nat} (hroom : 222 ≤ room)
    (hlow : 1 ≤ beNat privateKey.val) (hhigh : beNat privateKey.val ≤ group.p - 2) (ha0 : a ≠ 0)
    (ha : a < group.p) (hb0 : b ≠ 0) (hb : b < group.p) (hplaintext : plaintext.length = 222)
    (hopen : group.unmask (beNat privateKey.val) a b = beNat (elGamalBlock sha256 plaintext)) :
    decryptElGamal group sha256 room privateKey (0 :: (natBE 256 a ++ 0 :: natBE 256 b)) =
      .ok plaintext := by
  have hencoded := natBE_beNat (elGamalBlock sha256 plaintext)
  rw [length_elGamalBlock sha256 hplaintext] at hencoded
  have hfirst : take 256 (drop 1 (0 :: (natBE 256 a ++ 0 :: natBE 256 b))) = natBE 256 a :=
    take_left' (natBE_length _ _)
  have hsecond : drop 258 (0 :: (natBE 256 a ++ 0 :: natBE 256 b)) = natBE 256 b := by
    rw [drop_succ_cons, drop_skip (natBE_length _ _) _ _ (by decide)]
    rfl
  have hmiddle : getD (0 :: (natBE 256 a ++ 0 :: natBE 256 b)) 257 0 = 0 := by
    rw [getD_cons_succ, getD_skip (natBE_length _ _) _ _ (by decide)]
    rfl
  have hhash : take 32 (drop 1 (elGamalBlock sha256 plaintext)) = (sha256 plaintext).val :=
    take_left' (sha256 plaintext).property
  have hrest : drop 33 (elGamalBlock sha256 plaintext) = plaintext :=
    drop_left' (sha256 plaintext).property
  have hshort := (beNat_elGamalBlock sha256 hplaintext).2
  simp only [decryptElGamal, hfirst, hsecond, hmiddle, beNat_natBE_of_lt _ _ (ha.trans group.high),
    beNat_natBE_of_lt _ _ (hb.trans group.high), hopen, hencoded, hhash, hrest, pow_mul]
  rw [if_neg (by simp; omega), if_neg (by omega), if_neg (by omega), if_neg (show ¬_ ≥ (2 ^ 8) ^ 255 from
    hshort.not_ge), if_neg (by simp [elGamalBlock]), if_neg (by simp)]

theorem elGamal_roundTrip (hprime : group.p.Prime) (hlow : 1 ≤ beNat privateKey.val)
    (hhigh : beNat privateKey.val ≤ group.p - 2) {drawn space : Nat} (hdrawn : drawn < group.p - 2)
    (hplaintext : plaintext.length = 222) (hroom : 514 ≤ room) (hspace : 222 ≤ space) :
    (∃ publicKey ciphertext, elGamalPublicFromPrivate group privateKey = .ok publicKey ∧
      encryptElGamal group sha256 (some drawn) room publicKey plaintext = .ok ciphertext ∧
      ciphertext.length = 514 ∧
      decryptElGamal group sha256 space privateKey ciphertext = .ok plaintext) ∧
    ∀ room privateKey ciphertext plaintext,
      decryptElGamal group sha256 room privateKey ciphertext = .ok plaintext →
      natBE 255 (group.unmask (beNat privateKey.val) (beNat ((ciphertext.drop 1).take 256))
        (beNat (ciphertext.drop 258))) = 0xff :: ((sha256 plaintext).val ++ plaintext) := by
  have hfour := group.four_le
  have hx : beNat privateKey.val < group.p := by omega
  have hk : drawn + 1 < group.p := by omega
  obtain ⟨hm, hshort⟩ := beNat_elGamalBlock sha256 hplaintext
  have hmlt := hshort.trans_le group.low
  -- the public key and both halves of the ciphertext pass the range checks
  have hy := exp_lt 2 hx
  have hy0 := exp_ne_zero hprime hx two_ne_zero (by omega)
  have ha0 := exp_ne_zero hprime hk two_ne_zero (by omega)
  have hb0 := mask_ne_zero hprime (exp_ne_zero hprime hk hy0 hy) (exp_lt _ hk) hm hmlt
  have hkey : beNat (FixedBytes.copy 256 (natBE 256 (group.exp 2 (beNat privateKey.val)))).val =
      group.exp 2 (beNat privateKey.val) := by
    rw [FixedBytes.copy_val_of_le (by simp), take_of_length_le (by simp),
      beNat_natBE_of_lt _ _ (hy.trans group.high)]
  refine ⟨⟨_, _, if_neg (by omega), (if_neg (by omega)).trans (if_neg ?_), by simp, ?_⟩,
    fun _ _ _ _ => block_of_decryptElGamal _⟩
  · rw [hkey]
    omega
  rw [hkey]
  exact decryptElGamal_of_unmask sha256 hspace hlow hhigh ha0 (exp_lt 2 hk) hb0
    (Nat.mod_lt _ (by omega)) hplaintext (unmask_mask hprime hx hk hmlt)

end Proofs

/-- Bertrand's postulate has a modulus. -/
theorem elGamal_roundTrip_bertrand : ∃ group : ElGamalParameters, group.p.Prime ∧
    ∃ publicKey ciphertext,
      elGamalPublicFromPrivate group (.copy 256 (natBE 256 1)) = .ok publicKey ∧
      encryptElGamal group (fun _ => .zero 32) (some 0) 514 publicKey (replicate 222 7) =
        .ok ciphertext ∧
      decryptElGamal group (fun _ => .zero 32) 222 (.copy 256 (natBE 256 1)) ciphertext =
        .ok (replicate 222 7) := by
  obtain ⟨p, hprime, hlow, hhigh⟩ := Nat.exists_prime_lt_and_le_two_mul (256 ^ 255)
    (Nat.pow_pos (by decide)).ne'
  have hbound : 2 * 256 ^ 255 < 256 ^ 256 := by decide +kernel
  have hkey : beNat (FixedBytes.copy 256 (natBE 256 1)).val = 1 := by decide +kernel
  let group : ElGamalParameters := ⟨p, hlow.le, hhigh.trans_lt hbound⟩
  have hfour : 4 ≤ p := group.four_le
  obtain ⟨⟨publicKey, ciphertext, hpublic, hencrypt, _, hdecrypt⟩, _⟩ :=
    elGamal_roundTrip (fun _ => .zero 32) (show group.p.Prime from hprime) hkey.ge
      (hkey.trans_le (show 1 ≤ p - 2 by omega)) (show 0 < p - 2 by omega)
      (length_replicate (n := 222) (a := 7)) le_rfl le_rfl
  exact ⟨group, hprime, publicKey, ciphertext, hpublic, hencrypt, hdecrypt⟩

end Ivnp.Cryptography
