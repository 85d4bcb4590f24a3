import Ivnp.Lib.Run
import Ivnp.Ssu2.AckTracker

/-!
Whole runs of one tracker. Next to the tracker a run records the numbers that
`ObserveNew` reported as new and the ranges the tracker gave up; neither
influences what the tracker does. A number that was reported as new is held or
was given up, so only numbers of a range that was given up can be reported
twice.
-/

namespace Ivnp.Ssu2

open Ivnp.Lib UInt32

/-- The packet number is held, or the ranges are full and every one of them
starts more than one above it. -/
def Refuses (ranges : List ACKRange) (packet : UInt32) : Prop :=
  Holds ranges packet ∨
    (ranges.length = maxACKRanges ∧ ∀ range ∈ ranges, packet.toNat + 1 < range.start.toNat)

instance (ranges : List ACKRange) (packet : UInt32) : Decidable (Refuses ranges packet) :=
  inferInstanceAs (Decidable (_ ∨ _))

def givenUp (ranges : List ACKRange) (packet : UInt32) : List ACKRange :=
  if ranges.length = maxACKRanges ∧ Apart ranges packet ∧
      ∃ range ∈ ranges, range.stop.toNat < packet.toNat then
    ranges.getLast?.toList
  else []

theorem holds_append (upper lower : List ACKRange) (packet : UInt32) :
    Holds (upper ++ lower) packet ↔ Holds upper packet ∨ Holds lower packet := by
  simp only [Holds, List.mem_append, or_and_right, exists_or]

namespace Outcome

variable {packet : UInt32} {ranges next : List ACKRange} {isNew : Bool}

variable (h : Outcome ranges.length packet ranges next isNew)
include h

theorem length_le (hbounded : ranges.length ≤ maxACKRanges) : next.length ≤ maxACKRanges := by
  cases h with
  | held _ => exact hbounded
  | refused _ _ => exact hbounded
  | grown _ _ _ hlength _ => omega
  | replaced _ _ _ _ _ hlength _ => omega

/-- A refused number changes nothing. Any other number is reported as new, and
what is held afterwards together with what was given up is what was held
before and the number. -/
theorem refuses_or_new
    (hspaced : SpacedBelow (2 ^ 32 + 1) ranges) (hbounded : ranges.length ≤ maxACKRanges) :
    (Refuses ranges packet ∧ isNew = false ∧ next = ranges ∧ givenUp ranges packet = []) ∨
      (¬ Refuses ranges packet ∧ isNew = true ∧
        ∀ other, (Holds next other ∨ Holds (givenUp ranges packet) other) ↔
          Holds ranges other ∨ other = packet) := by
  cases h with
  | held h =>
    refine Or.inl ⟨Or.inl h, rfl, rfl, if_neg ?_⟩
    rintro ⟨-, hapart, -⟩
    obtain ⟨range, hmem, hlow, hhigh⟩ := h
    rw [le_iff_toNat_le] at hlow hhigh
    have := hapart _ hmem
    omega
  | refused hfull hlow =>
    refine Or.inl ⟨Or.inr ⟨by omega, hlow⟩, rfl, rfl, if_neg ?_⟩
    rintro ⟨-, -, range, hmem, habove⟩
    have := hlow _ hmem
    have := le_iff_toNat_le.mp (hspaced.start_le _ hmem)
    omega
  | grown next hnew hroom _ hholds =>
    have hkept : givenUp ranges packet = [] :=
      if_neg fun hgive => hroom.elim (fun h => h hgive.1) fun h => h hgive.2.1
    refine Or.inr ⟨?_, rfl, ?_⟩
    · rintro (h | ⟨hfull, hlow⟩)
      · exact hnew h
      · exact hroom.elim (fun h => h hfull) fun h => h fun range hmem => Or.inl (hlow _ hmem)
    · intro other
      rw [hkept, hholds]
      simp
  | replaced next hnew hfull hapart habove _ hholds =>
    have hne : ranges ≠ [] := by
      rintro rfl
      simp at habove
    have hgiven : givenUp ranges packet = [ranges.getLast hne] := by
      rw [givenUp, if_pos ⟨hfull, hapart, habove⟩, List.getLast?_eq_some_getLast,
        Option.toList_some]
    refine Or.inr ⟨?_, rfl, ?_⟩
    · rintro (h | ⟨-, hlow⟩)
      · exact hnew h
      · obtain ⟨range, hmem, habove⟩ := habove
        have := hlow _ hmem
        have := le_iff_toNat_le.mp (hspaced.start_le _ hmem)
        omega
    · intro other
      rw [hgiven, hholds, or_right_comm, ← holds_append, List.dropLast_append_getLast]

end Outcome

/-- A tracker: at most `maxACKRanges` ranges, descending, with holes between
them. -/
structure ACKTracker where
  ranges : List ACKRange
  spaced : SpacedBelow (2 ^ 32 + 1) ranges
  bounded : ranges.length ≤ maxACKRanges

namespace ACKTracker

def empty : ACKTracker := ⟨[], trivial, by decide⟩

theorem observe_outcome (tracker : ACKTracker) (packet : UInt32) :
    SpacedBelow (2 ^ 32 + 1) (observeFrom tracker.ranges.length packet tracker.ranges).1 ∧
      Outcome tracker.ranges.length packet tracker.ranges
        (observeFrom tracker.ranges.length packet tracker.ranges).1
        (observeFrom tracker.ranges.length packet tracker.ranges).2 :=
  observeFrom_outcome _ _ _ _ tracker.spaced (by have := packet.toNat_lt; omega)

def observeNew (tracker : ACKTracker) (packet : UInt32) : ACKTracker × Bool :=
  (⟨(observeFrom tracker.ranges.length packet tracker.ranges).1,
    (tracker.observe_outcome packet).1,
    (tracker.observe_outcome packet).2.length_le tracker.bounded⟩,
   (observeFrom tracker.ranges.length packet tracker.ranges).2)

end ACKTracker

/-- A tracker, the numbers it reported as new and the ranges it gave up, both
latest first. -/
structure TrackerRun where
  tracker : ACKTracker
  accepted : List UInt32
  dropped : List ACKRange

namespace TrackerRun

def start : TrackerRun := ⟨ACKTracker.empty, [], []⟩

def observe (state : TrackerRun) (packet : UInt32) : TrackerRun :=
  let (tracker, isNew) := state.tracker.observeNew packet
  { tracker
    accepted := if isNew then packet :: state.accepted else state.accepted
    dropped := givenUp state.tracker.ranges packet ++ state.dropped }

def after (packets : List UInt32) : TrackerRun := run observe start packets

/-- A number that lies in a range the tracker gave up is refused. -/
def RefusesDropped (state : TrackerRun) (packet : UInt32) : Prop :=
  Holds state.dropped packet → Refuses state.tracker.ranges packet

/-- The packet number is held or was given up. -/
def Known (state : TrackerRun) (packet : UInt32) : Prop :=
  Holds state.tracker.ranges packet ∨ Holds state.dropped packet

/-- The numbers reported as new are those that are held or were given up. -/
def Accounted (state : TrackerRun) : Prop := ∀ packet, packet ∈ state.accepted ↔ state.Known packet

theorem observe_cases (state : TrackerRun) (packet : UInt32) :
    (Refuses state.tracker.ranges packet ∧
        (state.observe packet).accepted = state.accepted ∧
        ∀ other, (state.observe packet).Known other ↔ state.Known other) ∨
      (¬ Refuses state.tracker.ranges packet ∧
        (state.observe packet).accepted = packet :: state.accepted ∧
        ∀ other, (state.observe packet).Known other ↔ other = packet ∨ state.Known other) := by
  have hknown (other : UInt32) : (state.observe packet).Known other ↔
      (Holds (observeFrom state.tracker.ranges.length packet state.tracker.ranges).1 other ∨
        Holds (givenUp state.tracker.ranges packet) other) ∨ Holds state.dropped other := by
    rw [or_assoc, ← holds_append]
    rfl
  obtain ⟨hrefuses, hold, hnext, hkept⟩ | ⟨hnew, htrue, hholds⟩ :=
    (state.tracker.observe_outcome _).2.refuses_or_new state.tracker.spaced state.tracker.bounded
  · refine Or.inl ⟨hrefuses, by simp [observe, ACKTracker.observeNew, hold], fun other => ?_⟩
    rw [hknown, hnext, hkept, or_iff_left (not_holds_nil _)]
    rfl
  · refine Or.inr ⟨hnew, by simp [observe, ACKTracker.observeNew, htrue], fun other => ?_⟩
    rw [hknown, hholds, Or.comm (b := other = packet), or_assoc]
    rfl

theorem accounted_after (packets : List UInt32) : (after packets).Accounted := by
  refine run_invariant ?_ ?_ (along_of_forall (Q := fun _ => True) (by simp) _)
  · intro state packet _ h other
    obtain ⟨-, haccepted, hknown⟩ | ⟨-, haccepted, hknown⟩ := state.observe_cases _
    · rw [haccepted, hknown, h]
    · rw [haccepted, hknown, List.mem_cons, h]
  · intro packet
    simp [start, Known, ACKTracker.empty]

/-- No packet number is reported as new twice exactly when every number of a
range that was given up is refused at each later arrival. A full tracker that
merges two ranges has room again, and a number that extends a range or lies
above the lowest one is always taken, so the ranges alone do not ensure it. -/
theorem accepted_nodup_iff (packets : List UInt32) :
    (after packets).accepted.Nodup ↔ Along observe RefusesDropped start packets := by
  induction packets using List.reverseRecOn with
  | nil => simp [after, start]
  | append_singleton packets packet ih =>
    have hstep : after (packets ++ [packet]) = (after packets).observe packet := by simp [after]
    rw [along_append, ← ih, hstep]
    simp only [along_cons, along_nil, and_true]
    change _ ↔ (after packets).accepted.Nodup ∧ (after packets).RefusesDropped packet
    obtain ⟨hrefuses, haccepted, -⟩ | ⟨hnew, haccepted, -⟩ := (after packets).observe_cases packet
    · rw [haccepted]
      exact (and_iff_left fun _ => hrefuses).symm
    · have hnotheld : ¬ Holds (after packets).tracker.ranges packet := fun h => hnew (Or.inl h)
      rw [haccepted, List.nodup_cons, accounted_after, Known, or_iff_right hnotheld,
        RefusesDropped, imp_iff_not hnew, and_comm]

/-- 0, 2, …, 126 fill the tracker and 128 drops 0. 127 then joins 126 and 128,
which makes room, and 0 is reported as new again. -/
theorem accepted_twice :
    (after ((List.range 64).map (fun i => UInt32.ofNat (2 * i)) ++ [128, 127, 0])).accepted.count
      0 = 2 := by
  decide +kernel

theorem ranges_after_in_order (last : Nat) (hlast : last < 2 ^ 32) :
    (after ((List.range (last + 1)).map UInt32.ofNat)).tracker.ranges =
      [⟨0, UInt32.ofNat last⟩] := by
  induction last with
  | zero => rfl
  | succ last ih =>
    have hprev := toNat_ofNat_of_lt' (Nat.lt_of_succ_lt hlast)
    have hnext := toNat_ofNat_of_lt' hlast
    have hup : ofNat last ≠ 0xFFFFFFFF ∧
        ofNat (last + 1) = ofNat last + 1 := by
      rw [ne_max_and_eq_succ_iff, hprev, hnext]
    have hout : ¬ (ofNat (last + 1) ≥ 0 ∧
        ofNat (last + 1) ≤ ofNat last) := by
      rw [le_iff_toNat_le]
      omega
    rw [List.range_succ, List.map_append, after, run_append]
    change (observeFrom _ _ (after _).tracker.ranges).1 = _
    rw [ih (by omega), observeFrom, if_neg hout, if_pos hup]
    rfl

end TrackerRun

end Ivnp.Ssu2
