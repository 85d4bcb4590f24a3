import Ivnp.Lib.Words
import Ivnp.Ssu2.AckRanges

/-!
The bounded set of received packet numbers that an SSU2 session keeps, which
is both the source of its acknowledgements and its replay filter. A tracker
holds at most `maxACKRanges` descending ranges with a hole between any two of
them. When it is full and a number opens a new range above the lowest one, the
lowest range is dropped and nothing records that it was ever received.
-/

namespace Ivnp.Ssu2

open Ivnp.Lib UInt32

/-- `merge(index)` on the ranges from `index` on: the first range swallows the
next one when no number is missing between them. -/
def mergeBelow : List ACKRange → List ACKRange
  | range :: next :: rest =>
    if next.stop ≠ 0xFFFFFFFF ∧ range.start ≤ next.stop + 1 then
      { range with start := if next.start < range.start then next.start else range.start } ::
        rest
    else range :: next :: rest
  | ranges => ranges

/-- The loop of `ObserveNew` on the ranges from `i` on; `count` is the number
of all ranges. The flag is the returned value. -/
def observeFrom (count : Nat) (packet : UInt32) : List ACKRange → List ACKRange × Bool
  | [] => if count < maxACKRanges then ([⟨packet, packet⟩], true) else ([], false)
  | range :: rest =>
    if packet ≥ range.start ∧ packet ≤ range.stop then (range :: rest, false)
    else if range.stop ≠ 0xFFFFFFFF ∧ packet = range.stop + 1 then
      (mergeBelow ({ range with stop := packet } :: rest), true)
    else if packet ≠ 0xFFFFFFFF ∧ packet + 1 = range.start then
      (mergeBelow ({ range with start := packet } :: rest), true)
    else if packet > range.stop then
      (⟨packet, packet⟩ ::
        (if count = maxACKRanges then (range :: rest).dropLast else range :: rest), true)
    else
      let (tail, isNew) := observeFrom count packet rest
      (range :: tail, isNew)

def Holds (ranges : List ACKRange) (packet : UInt32) : Prop :=
  ∃ range ∈ ranges, range.start ≤ packet ∧ packet ≤ range.stop

instance (ranges : List ACKRange) (packet : UInt32) : Decidable (Holds ranges packet) :=
  inferInstanceAs (Decidable (∃ range ∈ ranges, _ ∧ _))

/-- The ranges descend below `bound` with at least one number missing above
each of them. -/
def SpacedBelow (bound : Nat) : List ACKRange → Prop
  | [] => True
  | range :: rest =>
    range.start ≤ range.stop ∧ range.stop.toNat + 1 < bound ∧
      SpacedBelow range.start.toNat rest

@[simp] theorem not_holds_nil (packet : UInt32) : ¬ Holds [] packet := by simp [Holds]

@[simp] theorem holds_cons (range : ACKRange) (rest : List ACKRange) (packet : UInt32) :
    Holds (range :: rest) packet ↔
      (range.start.toNat ≤ packet.toNat ∧ packet.toNat ≤ range.stop.toNat) ∨
        Holds rest packet := by
  simp [Holds, le_iff_toNat_le]

variable {bound : Nat} {ranges : List ACKRange}

theorem SpacedBelow.mono {bound' : Nat} (h : SpacedBelow bound ranges) (hle : bound ≤ bound') :
    SpacedBelow bound' ranges := by
  cases ranges with
  | nil => trivial
  | cons range rest => exact ⟨h.1, by have := h.2.1; omega, h.2.2⟩

variable (h : SpacedBelow bound ranges)
include h

theorem SpacedBelow.stop_lt :
    ∀ range ∈ ranges, range.stop.toNat + 1 < bound := by
  induction ranges generalizing bound with
  | nil => simp
  | cons range rest ih =>
    intro other hmem
    have hle := le_iff_toNat_le.mp h.1
    rcases List.mem_cons.mp hmem with rfl | hmem
    · exact h.2.1
    · have := ih h.2.2 _ hmem
      have := h.2.1
      omega

theorem SpacedBelow.start_le :
    ∀ range ∈ ranges, range.start ≤ range.stop := by
  induction ranges generalizing bound with
  | nil => simp
  | cons range rest ih =>
    intro other hmem
    rcases List.mem_cons.mp hmem with rfl | hmem
    · exact h.1
    · exact ih h.2.2 _ hmem

theorem SpacedBelow.dropLast :
    SpacedBelow bound ranges.dropLast := by
  induction ranges generalizing bound with
  | nil => trivial
  | cons range rest ih =>
    cases rest with
    | nil => trivial
    | cons next rest => exact ⟨h.1, h.2.1, ih h.2.2⟩

omit h

/-- Merging keeps the numbers that are held and restores the spacing when the
first range has just grown downwards by one number. -/
theorem mergeBelow_spec (bound : Nat) (range : ACKRange) (rest : List ACKRange)
    (hle : range.start ≤ range.stop) (hbound : range.stop.toNat + 1 < bound)
    (hrest : SpacedBelow (range.start.toNat + 1) rest) :
    SpacedBelow bound (mergeBelow (range :: rest)) ∧
      (mergeBelow (range :: rest)).length ≤ rest.length + 1 ∧
      ∀ packet, Holds (mergeBelow (range :: rest)) packet ↔ Holds (range :: rest) packet := by
  cases rest with
  | nil => exact ⟨⟨hle, hbound, trivial⟩, by simp [mergeBelow], by simp [mergeBelow]⟩
  | cons next rest =>
    obtain ⟨hnext, hgap, htail⟩ := hrest
    have hle' := le_iff_toNat_le.mp hle
    have hnext' := le_iff_toNat_le.mp hnext
    have hstop := range.stop.toNat_lt
    have hsucc : (next.stop + 1).toNat = next.stop.toNat + 1 := by
      rw [UInt32.toNat_add, UInt32.toNat_one, Nat.mod_eq_of_lt (by omega)]
    rw [mergeBelow]
    by_cases hjoin : next.stop ≠ 0xFFFFFFFF ∧ range.start ≤ next.stop + 1
    · have hadj : range.start.toNat = next.stop.toNat + 1 := by
        have := le_iff_toNat_le.mp hjoin.2
        omega
      have hlow : next.start < range.start := by
        rw [lt_iff_toNat_lt]
        omega
      rw [if_pos hjoin, if_pos hlow]
      refine ⟨⟨?_, hbound, htail⟩, by simp, ?_⟩
      · rw [le_iff_toNat_le]
        dsimp only
        omega
      · intro packet
        simp only [holds_cons]
        constructor
        · rintro (h | h)
          · by_cases hin : range.start.toNat ≤ packet.toNat
            · exact Or.inl ⟨hin, h.2⟩
            · exact Or.inr (Or.inl ⟨h.1, by omega⟩)
          · exact Or.inr (Or.inr h)
        · rintro (h | h | h)
          · exact Or.inl ⟨by omega, h.2⟩
          · exact Or.inl ⟨h.1, by omega⟩
          · exact Or.inr h
    · rw [if_neg hjoin]
      refine ⟨⟨hle, hbound, hnext, ?_, htail⟩, by simp, fun _ => Iff.rfl⟩
      by_contra hclose
      apply hjoin
      refine ⟨?_, ?_⟩
      · intro hmax
        rw [hmax] at hgap
        simp at hgap
        omega
      · rw [UInt32.le_iff_toNat_le]
        omega

/-- A packet number extends no range: a hole separates it from each of them. -/
def Apart (ranges : List ACKRange) (packet : UInt32) : Prop :=
  ∀ range ∈ ranges,
    packet.toNat + 1 < range.start.toNat ∨ range.stop.toNat + 1 < packet.toNat

instance (ranges : List ACKRange) (packet : UInt32) : Decidable (Apart ranges packet) :=
  inferInstanceAs (Decidable (∀ range ∈ ranges, _ ∨ _))

/-- What one observation can do to the ranges it looks at. -/
inductive Outcome (count : Nat) (packet : UInt32) (ranges : List ACKRange) :
    List ACKRange → Bool → Prop
  | held (h : Holds ranges packet) : Outcome count packet ranges ranges false
  | refused (hfull : ¬ count < maxACKRanges)
      (hlow : ∀ range ∈ ranges, packet.toNat + 1 < range.start.toNat) :
      Outcome count packet ranges ranges false
  | grown (next : List ACKRange) (hnew : ¬ Holds ranges packet)
      (hroom : count ≠ maxACKRanges ∨ ¬ Apart ranges packet)
      (hlength : next.length ≤ ranges.length ∨
        count ≠ maxACKRanges ∧ next.length = ranges.length + 1)
      (hholds : ∀ other, Holds next other ↔ Holds ranges other ∨ other = packet) :
      Outcome count packet ranges next true
  | replaced (next : List ACKRange) (hnew : ¬ Holds ranges packet)
      (hfull : count = maxACKRanges) (hapart : Apart ranges packet)
      (habove : ∃ range ∈ ranges, range.stop.toNat < packet.toNat)
      (hlength : next.length = ranges.length)
      (hholds : ∀ other, Holds next other ↔ Holds ranges.dropLast other ∨ other = packet) :
      Outcome count packet ranges next true

theorem holds_open (packet other : UInt32) (ranges : List ACKRange) :
    Holds (⟨packet, packet⟩ :: ranges) other ↔ Holds ranges other ∨ other = packet := by
  rw [holds_cons, ← UInt32.toNat_inj, Or.comm]
  dsimp only
  exact or_congr Iff.rfl (by omega)

variable {packet : UInt32}

theorem not_holds_of_stop_lt (h : ∀ range ∈ ranges, range.stop.toNat < packet.toNat) :
    ¬ Holds ranges packet := by
  rintro ⟨range, hmem, -, hle⟩
  have := h _ hmem
  rw [le_iff_toNat_le] at hle
  omega

variable {count : Nat} {range : ACKRange} {rest : List ACKRange}

private theorem touch_outcome {wider : ACKRange} (hrest : SpacedBelow range.start.toNat rest)
    (hle : wider.start ≤ wider.stop) (hbound : wider.stop.toNat + 1 < bound)
    (hstart : range.start.toNat ≤ wider.start.toNat + 1)
    (htouch : packet.toNat + 1 = range.start.toNat ∨ packet.toNat = range.stop.toNat + 1)
    (hrange : range.start.toNat ≤ range.stop.toNat)
    (hwider : ∀ other : UInt32,
      (wider.start.toNat ≤ other.toNat ∧ other.toNat ≤ wider.stop.toNat) ↔
        (range.start.toNat ≤ other.toNat ∧ other.toNat ≤ range.stop.toNat) ∨ other = packet) :
    SpacedBelow bound (mergeBelow (wider :: rest)) ∧
      Outcome count packet (range :: rest) (mergeBelow (wider :: rest)) true := by
  obtain ⟨hspaced, hlength, hholds⟩ := mergeBelow_spec _ _ _ hle hbound (hrest.mono hstart)
  refine ⟨hspaced, Outcome.grown _ ?_ (Or.inr ?_) (Or.inl hlength) ?_⟩
  · rw [holds_cons, not_or]
    refine ⟨by omega, not_holds_of_stop_lt ?_⟩
    intro other hmem
    have := hrest.stop_lt _ hmem
    omega
  · intro hapart
    have := hapart range (by simp)
    omega
  · intro other
    rw [hholds, holds_cons, holds_cons, hwider, or_right_comm]

private theorem open_outcome (hspaced : SpacedBelow packet.toNat (range :: rest))
    (hpacket : packet.toNat + 1 < bound) :
    let kept := if count = maxACKRanges then (range :: rest).dropLast else range :: rest
    SpacedBelow bound (⟨packet, packet⟩ :: kept) ∧
      Outcome count packet (range :: rest) (⟨packet, packet⟩ :: kept) true := by
  intro kept
  have hbelow := hspaced.stop_lt
  have hnew : ¬ Holds (range :: rest) packet :=
    not_holds_of_stop_lt fun other hmem => by have := hbelow _ hmem; omega
  by_cases hfull : count = maxACKRanges
  · have hkept : kept = (range :: rest).dropLast := if_pos hfull
    rw [hkept]
    refine ⟨⟨UInt32.le_refl _, hpacket, hspaced.dropLast⟩,
      Outcome.replaced _ hnew hfull (fun other hmem => Or.inr (hbelow _ hmem))
        ⟨range, by simp, ?_⟩ (by simp) fun other => holds_open _ _ _⟩
    have := hbelow range (by simp)
    omega
  · have hkept : kept = range :: rest := if_neg hfull
    rw [hkept]
    exact ⟨⟨UInt32.le_refl _, hpacket, hspaced⟩,
      Outcome.grown _ hnew (Or.inl hfull) (Or.inr ⟨hfull, rfl⟩) fun other => holds_open _ _ _⟩

private theorem Outcome.below {next : List ACKRange} {isNew : Bool}
    (h : Outcome count packet rest next isNew) (hlow : packet.toNat + 1 < range.start.toNat) :
    Outcome count packet (range :: rest) (range :: next) isNew := by
  have hskip (ranges : List ACKRange) :
      Holds (range :: ranges) packet ↔ Holds ranges packet := by
    rw [holds_cons]
    exact or_iff_right (by omega)
  cases h with
  | held h => exact Outcome.held ((hskip _).mpr h)
  | refused hfull hall => exact Outcome.refused hfull (by simpa [hlow] using hall)
  | grown next hnew hroom hlength hholds =>
    refine Outcome.grown _ (fun h => hnew ((hskip _).mp h)) ?_ (by simpa using hlength) ?_
    · exact hroom.imp_right fun hnot hapart =>
        hnot fun other hmem => hapart _ (List.mem_cons_of_mem _ hmem)
    · intro other
      rw [holds_cons, hholds, holds_cons, or_assoc]
  | replaced next hnew hfull hapart habove hlength hholds =>
    have hne : rest ≠ [] := by
      rintro rfl
      simp at habove
    refine Outcome.replaced _ (fun h => hnew ((hskip _).mp h)) hfull ?_ ?_
      (by simpa using hlength) ?_
    · intro other hmem
      rcases List.mem_cons.mp hmem with rfl | hmem
      · exact Or.inl hlow
      · exact hapart _ hmem
    · obtain ⟨other, hmem, hlt⟩ := habove
      exact ⟨other, List.mem_cons_of_mem _ hmem, hlt⟩
    · intro other
      rw [List.dropLast_cons_of_ne_nil hne, holds_cons, hholds, holds_cons, or_assoc]

/-- One observation keeps the spacing and does one of four things. The
induction follows the loop over the ranges; `bound` is the start of the range
above, which the packet number has already passed. -/
theorem observeFrom_outcome (count bound : Nat) (packet : UInt32) (ranges : List ACKRange)
    (hspaced : SpacedBelow bound ranges) (hpacket : packet.toNat + 1 < bound) :
    SpacedBelow bound (observeFrom count packet ranges).1 ∧
      Outcome count packet ranges (observeFrom count packet ranges).1
        (observeFrom count packet ranges).2 := by
  induction ranges generalizing bound with
  | nil =>
    rw [observeFrom]
    by_cases hroom : count < maxACKRanges
    · rw [if_pos hroom]
      exact ⟨⟨UInt32.le_refl _, hpacket, trivial⟩,
        Outcome.grown _ (by simp) (Or.inl (by omega)) (Or.inr ⟨by omega, rfl⟩)
          fun other => holds_open _ _ []⟩
    · rw [if_neg hroom]
      exact ⟨trivial, Outcome.refused hroom (by simp)⟩
  | cons range rest ih =>
    obtain ⟨hle, hgap, hrest⟩ := hspaced
    have hle' := le_iff_toNat_le.mp hle
    rw [observeFrom]
    by_cases hin : packet ≥ range.start ∧ packet ≤ range.stop
    · rw [if_pos hin]
      exact ⟨⟨hle, hgap, hrest⟩, Outcome.held ⟨range, by simp, hin⟩⟩
    rw [if_neg hin]
    rw [ge_iff_le, le_iff_toNat_le, le_iff_toNat_le] at hin
    by_cases hup : range.stop ≠ 0xFFFFFFFF ∧ packet = range.stop + 1
    · rw [if_pos hup]
      rw [ne_max_and_eq_succ_iff] at hup
      refine touch_outcome hrest ?_ hpacket (by simp) (Or.inr hup) hle' ?_
      · rw [le_iff_toNat_le]
        dsimp only
        omega
      · intro other
        rw [← UInt32.toNat_inj]
        dsimp only
        omega
    rw [if_neg hup]
    by_cases hdown : packet ≠ 0xFFFFFFFF ∧ packet + 1 = range.start
    · rw [if_pos hdown]
      rw [eq_comm (a := packet + 1), ne_max_and_eq_succ_iff] at hdown
      refine touch_outcome hrest ?_ hgap (by dsimp only; omega) (Or.inl hdown.symm) hle' ?_
      · rw [le_iff_toNat_le]
        dsimp only
        omega
      · intro other
        rw [← UInt32.toNat_inj]
        dsimp only
        omega
    rw [if_neg hdown]
    rw [ne_max_and_eq_succ_iff] at hup
    rw [eq_comm (a := packet + 1), ne_max_and_eq_succ_iff] at hdown
    by_cases habove : packet > range.stop
    · rw [if_pos habove]
      rw [gt_iff_lt, lt_iff_toNat_lt] at habove
      exact open_outcome ⟨hle, by omega, hrest⟩ hpacket
    rw [if_neg habove]
    rw [gt_iff_lt, lt_iff_toNat_lt] at habove
    have hlow : packet.toNat + 1 < range.start.toNat := by omega
    obtain ⟨hspaced, houtcome⟩ := ih range.start.toNat hrest hlow
    exact ⟨⟨hle, hgap, hspaced⟩, houtcome.below hlow⟩

end Ivnp.Ssu2
