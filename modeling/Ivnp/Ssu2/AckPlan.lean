import Ivnp.Lib.Words
import Ivnp.Ssu2.AckRanges

/-!
The gap and run pairs of an acknowledgement body as one recursion over the
ranges, in natural numbers, and what the decoder makes of them. The nested
loops of the encoder are shown to write these pairs in `AckCodec`.
-/

namespace Ivnp.Ssu2

open Ivnp.Lib UInt32

/-- The gap and run pairs that describe the ranges `todo` below `below` when
at most `budget` pairs may be used: what the two loops of the encoder compute
together. -/
def ackPairs : Nat → Nat → List ACKRange → List (Nat × Nat)
  | 0, _, _ => []
  | _ + 1, _, [] => []
  | budget + 1, below, range :: rest =>
    let gap := below - range.stop.toNat - 1
    if gap > 255 then
      (255, 0) :: ackPairs budget (below - 255) (range :: rest)
    else if range.length > 255 then
      (gap, 255) :: ackPairs budget (range.stop.toNat - 254)
        (⟨range.start, range.stop - 255⟩ :: rest)
    else
      (gap, range.length) :: ackPairs budget range.start.toNat rest

/-- The ranges that `ackPairs` acknowledges, one for each pair with a run. -/
def ackRuns : Nat → Nat → List ACKRange → List ACKRange
  | 0, _, _ => []
  | _ + 1, _, [] => []
  | budget + 1, below, range :: rest =>
    if below - range.stop.toNat - 1 > 255 then
      ackRuns budget (below - 255) (range :: rest)
    else if range.length > 255 then
      ⟨range.stop - 254, range.stop⟩ :: ackRuns budget (range.stop.toNat - 254)
        (⟨range.start, range.stop - 255⟩ :: rest)
    else
      range :: ackRuns budget range.start.toNat rest

def pairBytes (pairs : List (Nat × Nat)) : Bytes :=
  pairs.flatMap fun pair => [UInt8.ofNat pair.1, UInt8.ofNat pair.2]

theorem toUInt32_ofNat_toNat (n : Nat) (h : n ≤ 255) : (UInt8.ofNat n).toUInt32.toNat = n := by
  rw [UInt8.toNat_toUInt32, UInt8.toNat_ofNat', Nat.mod_eq_of_lt (by omega)]

private theorem parseLoop_fill (capacity : Nat) (rest : Bytes) (below : UInt32)
    (acc : List ACKRange) (hroom : 255 ≤ below.toNat) :
    parseLoop capacity (255 :: 0 :: rest) below acc =
      parseLoop capacity rest (below - 255) acc := by
  have hle : ¬ (255 : UInt32) > below := by
    rw [gt_iff_lt, lt_iff_toNat_lt]
    simpa using hroom
  rw [parseLoop]
  simp [hle]

private theorem parseLoop_run (capacity gap count : Nat) (rest : Bytes) (below : UInt32)
    (acc : List ACKRange) (range : ACKRange) (hgap : gap ≤ 255) (hpos : 0 < count)
    (hcount : count ≤ 255) (hstop : range.stop.toNat + gap + 1 = below.toNat)
    (hstart : range.start.toNat + count = range.stop.toNat + 1) :
    parseLoop capacity (UInt8.ofNat gap :: UInt8.ofNat count :: rest) below acc =
      if acc.length = capacity then none
      else parseLoop capacity rest range.start (acc ++ [range]) := by
  have hg := toUInt32_ofNat_toNat _ hgap
  have hc := toUInt32_ofNat_toNat _ hcount
  rw [parseLoop]
  generalize (UInt8.ofNat gap).toUInt32 = nack at hg ⊢
  generalize (UInt8.ofNat count).toUInt32 = ack at hc ⊢
  have hack : ack ≠ 0 := by
    intro h
    simp [h] at hc
    omega
  have hnack : nack < below := by
    rw [UInt32.lt_iff_toNat_lt]
    omega
  have hend : below - nack - 1 = range.stop := by
    apply UInt32.toNat_inj.mp
    rw [UInt32.toNat_sub_of_le] <;>
      simp [UInt32.le_iff_toNat_le, UInt32.toNat_sub_of_le _ _ (UInt32.le_of_lt hnack)] <;> omega
  have hone : (ack - 1).toNat = count - 1 := by
    rw [UInt32.toNat_sub_of_le] <;> simp [UInt32.le_iff_toNat_le] <;> omega
  have hfits : ¬ ack - 1 > range.stop := by
    rw [gt_iff_lt, UInt32.lt_iff_toNat_lt]
    omega
  have hbegin : range.stop - (ack - 1) = range.start := by
    apply UInt32.toNat_inj.mp
    rw [UInt32.toNat_sub_of_le _ _ (UInt32.not_lt.mp hfits)]
    omega
  simp [hack, UInt32.not_lt.mpr (UInt32.le_of_lt hnack), UInt32.ne_of_lt hnack, hend, hfits, hbegin]

theorem ackRuns_length_le (budget below : Nat) (todo : List ACKRange) :
    (ackRuns budget below todo).length ≤ budget := by
  fun_induction ackRuns budget below todo <;> simp <;> omega

/-- Storage for `capacity` ranges holds a list or overflows. -/
def stored (capacity : Nat) (ranges : List ACKRange) : Option (List ACKRange) :=
  if ranges.length ≤ capacity then some ranges else none

private theorem run_step (capacity gap count : Nat) (rest : Bytes) (below : UInt32)
    (acc runs : List ACKRange) (range : ACKRange) (hgap : gap ≤ 255) (hpos : 0 < count)
    (hcount : count ≤ 255) (hstop : range.stop.toNat + gap + 1 = below.toNat)
    (hstart : range.start.toNat + count = range.stop.toNat + 1) (hacc : acc.length ≤ capacity)
    (htail : acc.length < capacity →
      parseLoop capacity rest range.start (acc ++ [range]) =
        stored capacity (acc ++ [range] ++ runs)) :
    parseLoop capacity (UInt8.ofNat gap :: UInt8.ofNat count :: rest) below acc =
      stored capacity (acc ++ range :: runs) := by
  rw [parseLoop_run _ _ _ _ _ _ _ hgap hpos hcount hstop hstart]
  by_cases hfull : acc.length = capacity
  · rw [if_pos hfull]
    simp [stored]
    omega
  · rw [if_neg hfull, htail (by omega)]
    simp

section Cut

variable {range : ACKRange} (hlong : range.length > 255)
include hlong

theorem ACKRange.toNat_cut :
    (range.stop - 254).toNat = range.stop.toNat - 254 ∧
      (range.stop - 255).toNat = range.stop.toNat - 255 := by
  unfold ACKRange.length at hlong
  exact ⟨toNat_sub_ofNat _ 254 (by omega), toNat_sub_ofNat _ 255 (by omega)⟩

/-- What a run of 255 numbers leaves of a longer range. -/
theorem Descends.cut {rest : List ACKRange} (hrest : Descends range.start.toNat rest) :
    Descends (range.stop.toNat - 254) (⟨range.start, range.stop - 255⟩ :: rest) := by
  obtain ⟨-, hrem⟩ := ACKRange.toNat_cut hlong
  unfold ACKRange.length at hlong
  refine ⟨?_, by rw [hrem]; omega, hrest⟩
  rw [le_iff_toNat_le, hrem]
  dsimp only
  omega

end Cut

/-- The decoder reads the pairs of any plan back as the runs of the plan, as
far as its storage reaches. The proof follows the three kinds of pair. -/
theorem parseLoop_ackPairs (capacity budget : Nat) (below : UInt32) (todo acc : List ACKRange)
    (hdesc : Descends below.toNat todo) (hacc : acc.length ≤ capacity) :
    parseLoop capacity (pairBytes (ackPairs budget below.toNat todo)) below acc =
      stored capacity (acc ++ ackRuns budget below.toNat todo) := by
  induction budget generalizing below todo acc with
  | zero => simp [ackPairs, ackRuns, pairBytes, parseLoop, stored, hacc]
  | succ budget ih =>
    cases todo with
    | nil => simp [ackPairs, ackRuns, pairBytes, parseLoop, stored, hacc]
    | cons range rest =>
      obtain ⟨hle, hbelow, hrest⟩ := hdesc
      have hle' := le_iff_toNat_le.mp hle
      simp only [ackPairs, ackRuns]
      by_cases hgap : below.toNat - range.stop.toNat - 1 > 255
      · have hsub : (below - 255).toNat = below.toNat - 255 :=
          toNat_sub_ofNat _ 255 (by omega)
        have htail := ih (below - 255) (range :: rest) _ ⟨hle, by omega, hrest⟩ hacc
        rw [hsub] at htail
        rw [if_pos hgap, if_pos hgap, ← htail]
        exact parseLoop_fill _ _ _ _ (by omega)
      · rw [if_neg hgap, if_neg hgap]
        by_cases hlong : range.length > 255
        · rw [if_pos hlong, if_pos hlong]
          obtain ⟨hcut, -⟩ := ACKRange.toNat_cut hlong
          have hlen : range.stop.toNat - range.start.toNat + 1 > 255 := hlong
          rw [← hcut]
          refine run_step _ _ 255 _ _ _ _ ⟨range.stop - 254, range.stop⟩
            (by omega) (by omega) (by omega) (by dsimp only; omega)
            (by dsimp only; omega) hacc ?_
          intro hroom
          apply ih (range.stop - 254) (⟨range.start, range.stop - 255⟩ :: rest)
          · rw [hcut]
            exact hrest.cut hlong
          · simpa using hroom
        · rw [if_neg hlong, if_neg hlong]
          have hlength : range.length = range.stop.toNat - range.start.toNat + 1 := rfl
          refine run_step _ _ range.length _ _ _ _ _ (by omega)
            (by omega) (by omega) (by omega) (by omega) hacc ?_
          intro hroom
          apply ih range.start _ _ hrest
          simpa using hroom

/-- The wire runs a range needs after the first one: 255 numbers each. -/
def ACKRange.pieces (range : ACKRange) : Nat := (range.length + 254) / 255

/-- The wire runs of the ranges up to the first one that lies more than 255
missing numbers below its predecessor. -/
def closeRuns (below : Nat) : List ACKRange → Nat
  | [] => 0
  | range :: rest =>
    if below - range.stop.toNat - 1 > 255 then 0
    else range.pieces + closeRuns range.start.toNat rest

/-- A plan uses its whole budget on runs exactly when so many runs follow
without a gap that takes a pair of its own. -/
theorem ackRuns_length_eq_iff (budget below : Nat) (todo : List ACKRange)
    (hdesc : Descends below todo) :
    (ackRuns budget below todo).length = budget ↔ budget ≤ closeRuns below todo := by
  induction budget generalizing below todo with
  | zero => simp [ackRuns]
  | succ budget ih =>
    cases todo with
    | nil => simp [ackRuns, closeRuns]
    | cons range rest =>
      obtain ⟨hle, hbelow, hrest⟩ := hdesc
      simp only [ackRuns, closeRuns]
      by_cases hgap : below - range.stop.toNat - 1 > 255
      · have hlt := ackRuns_length_le budget (below - 255) (range :: rest)
        simp only [if_pos hgap]
        omega
      simp only [if_neg hgap]
      by_cases hlong : range.length > 255
      · obtain ⟨-, hrem⟩ := ACKRange.toNat_cut hlong
        have hlen : range.stop.toNat - range.start.toNat + 1 > 255 := hlong
        have htail := ih _ _ (hrest.cut hlong)
        have hclose : closeRuns (range.stop.toNat - 254) (⟨range.start, range.stop - 255⟩ :: rest) =
              range.pieces - 1 + closeRuns range.start.toNat rest := by
          simp only [closeRuns, ACKRange.pieces, ACKRange.length, hrem]
          rw [if_neg (by omega)]
          omega
        have hpieces : 0 < range.pieces := by
          simp only [ACKRange.pieces]
          omega
        simp only [if_pos hlong, List.length_cons]
        omega
      · have htail := ih range.start.toNat _ hrest
        have hpieces : range.pieces = 1 := by
          simp only [ACKRange.pieces, ACKRange.length] at hlong ⊢
          omega
        simp only [if_neg hlong, List.length_cons]
        omega

end Ivnp.Ssu2
