import Ivnp.Ssu2.AckPlan
import Ivnp.Ssu2.AckReplay

/-!
`MarshalACKRanges` writes the pairs of the plan, and `ParseACKRanges` reads
them back as far as its storage reaches. The last theorem is the agreement of
the two capacities: it fails by one range, for the range lists it names.
-/

namespace Ivnp.Ssu2

open Ivnp.Lib List UInt32

/-- The filler loop writes the leading `(255, 0)` pairs of the plan and stops
with a gap that fits one byte, unless the budget is spent first. -/
private theorem fillGap_spec (fuel : Nat) (s : ACKEncoder) (range : ACKRange)
    (rest : List ACKRange) (hpairs : s.pairs ≤ maxACKRanges)
    (hfuel : maxACKRanges ≤ s.pairs + fuel) (hstop : range.stop.toNat < s.below.toNat) :
    let (filled, gap) := fillGap fuel s (s.below.toNat - range.stop.toNat - 1)
    filled.dst ++ pairBytes
        (ackPairs (maxACKRanges - filled.pairs) filled.below.toNat (range :: rest)) =
      s.dst ++ pairBytes (ackPairs (maxACKRanges - s.pairs) s.below.toNat (range :: rest)) ∧
    gap = filled.below.toNat - range.stop.toNat - 1 ∧
    range.stop.toNat < filled.below.toNat ∧ filled.pairs ≤ maxACKRanges ∧
    s.pairs ≤ filled.pairs ∧ filled.index = s.index ∧
    (filled.pairs < maxACKRanges → gap ≤ 255) := by
  induction fuel generalizing s with
  | zero => exact ⟨rfl, rfl, hstop, hpairs, Nat.le_refl _, rfl, by omega⟩
  | succ fuel ih =>
    rw [fillGap]
    by_cases hmore : s.below.toNat - range.stop.toNat - 1 > 255 ∧ s.pairs < maxACKRanges
    · rw [if_pos hmore]
      have hsub : (s.below - 255).toNat = s.below.toNat - 255 :=
        toNat_sub_ofNat s.below 255 (by omega)
      have hnext := ih
        { s with dst := s.dst ++ [255, 0], below := s.below - 255, pairs := s.pairs + 1 }
        hmore.2 (by dsimp only; omega) (by dsimp only; omega)
      dsimp only at hnext
      rw [hsub, show s.below.toNat - 255 - range.stop.toNat - 1 =
        s.below.toNat - range.stop.toNat - 1 - 255 by omega] at hnext
      obtain ⟨hbytes, hgap, hbelow, hle, hge, hindex, hdone⟩ := hnext
      refine ⟨?_, hgap, hbelow, hle, by omega, hindex, hdone⟩
      rw [hbytes, show maxACKRanges - s.pairs = maxACKRanges - (s.pairs + 1) + 1 by omega,
        ackPairs, if_pos hmore.1]
      simp [pairBytes]
    · rw [if_neg hmore]
      exact ⟨rfl, rfl, hstop, hpairs, Nat.le_refl _, rfl, by omega⟩

/-- What the encoder still has to describe at the head of its loop: the rest
of a range that was split, or the ranges from `index` on. -/
def ACKEncoder.Todo (ranges : List ACKRange) (s : ACKEncoder) (todo : List ACKRange) : Prop :=
  (s.currentEnd ≥ s.below ∧ todo = ranges.drop s.index) ∨
    (s.currentStart ≤ s.currentEnd ∧ s.currentEnd < s.below ∧
      ∃ range rest, ranges.drop s.index = range :: rest ∧
        todo = ⟨s.currentStart, s.currentEnd⟩ :: rest)

private theorem todo_cons {ranges : List ACKRange} {s : ACKEncoder} {range : ACKRange}
    {rest : List ACKRange} (htodo : s.Todo ranges (range :: rest)) :
    ∃ next, ranges[s.index]? = some next ∧ ranges.drop s.index = next :: rest ∧
      (if s.currentEnd < s.currentStart ∨ s.currentEnd ≥ s.below then next.start
        else s.currentStart) = range.start ∧
      (if s.currentEnd < s.currentStart ∨ s.currentEnd ≥ s.below then next.stop
        else s.currentEnd) = range.stop := by
  rcases htodo with ⟨hstale, hdrop⟩ | ⟨hle, hlt, next, tail, hdrop, hcons⟩
  · refine ⟨range, ?_, hdrop.symm, by simp [hstale], by simp [hstale]⟩
    rw [← head?_drop, ← hdrop, head?_cons]
  · obtain ⟨rfl, rfl⟩ := cons.inj hcons
    have hfresh : ¬ (s.currentEnd < s.currentStart ∨ s.currentEnd ≥ s.below) := by
      rintro (h | h)
      · exact UInt32.not_lt.mpr hle h
      · exact UInt32.not_lt.mpr h hlt
    refine ⟨next, ?_, hdrop, by simp [hfresh], by simp [hfresh]⟩
    rw [← head?_drop, hdrop, head?_cons]

variable (ranges : List ACKRange)

private theorem emit_split (s : ACKEncoder) (gap : Nat)
    (range next : ACKRange) (rest : List ACKRange) (hdrop : ranges.drop s.index = next :: rest)
    (hlong : range.length > 255) :
    (s.emit gap range.start range.stop).dst = s.dst ++ [UInt8.ofNat gap, 255] ∧
    (s.emit gap range.start range.stop).below.toNat = range.stop.toNat - 254 ∧
    (s.emit gap range.start range.stop).Todo ranges
      (⟨range.start, range.stop - 255⟩ :: rest) := by
  have hlen : range.stop.toNat - range.start.toNat + 1 > 255 := hlong
  have hcut : (range.stop - ofNat 255 + 1).toNat = range.stop.toNat - 254 := by
    rw [toNat_sub_ofNat_add_one] <;> omega
  have hrem := (ACKRange.toNat_cut hlong).2
  have hprev : range.stop - ofNat 255 + 1 - 1 = range.stop - 255 := by simp
  have hsplit : range.stop - ofNat 255 + 1 > range.start := by
    rw [gt_iff_lt, lt_iff_toNat_lt]
    omega
  have hcount : min (range.stop.toNat - range.start.toNat + 1) 255 = 255 :=
    Nat.min_eq_right (by omega)
  have hemit : s.emit gap range.start range.stop =
      { dst := s.dst ++ [UInt8.ofNat gap, 255], below := range.stop - ofNat 255 + 1,
        index := s.index, currentStart := range.start, currentEnd := range.stop - 255,
        pairs := s.pairs + 1 } := by
    simp only [ACKEncoder.emit, hcount, if_pos hsplit, hprev]
    rfl
  rw [hemit]
  refine ⟨rfl, hcut, Or.inr ⟨?_, ?_, next, rest, hdrop, rfl⟩⟩
  · rw [le_iff_toNat_le]
    dsimp only
    omega
  · rw [lt_iff_toNat_lt, hrem, hcut]
    omega

private theorem emit_whole (s : ACKEncoder) (gap : Nat)
    (range next : ACKRange) (rest : List ACKRange) (hdrop : ranges.drop s.index = next :: rest)
    (hle : range.start ≤ range.stop) (hshort : ¬ range.length > 255) :
    (s.emit gap range.start range.stop).dst =
      s.dst ++ [UInt8.ofNat gap, UInt8.ofNat range.length] ∧
    (s.emit gap range.start range.stop).below = range.start ∧
    (s.emit gap range.start range.stop).Todo ranges rest := by
  have hlen : ¬ range.stop.toNat - range.start.toNat + 1 > 255 := hshort
  have hle' := UInt32.le_iff_toNat_le.mp hle
  have hcut : range.stop - UInt32.ofNat (range.stop.toNat - range.start.toNat + 1) + 1 =
      range.start := by
    apply UInt32.toNat_inj.mp
    rw [toNat_sub_ofNat_add_one] <;> omega
  have hcount : min (range.stop.toNat - range.start.toNat + 1) 255 =
      range.stop.toNat - range.start.toNat + 1 := Nat.min_eq_left (by omega)
  have hemit : s.emit gap range.start range.stop =
      { dst := s.dst ++ [UInt8.ofNat gap, UInt8.ofNat range.length], below := range.start,
        index := s.index + 1, currentStart := range.start, currentEnd := range.stop,
        pairs := s.pairs + 1 } := by
    simp only [ACKEncoder.emit, hcount, hcut, gt_iff_lt, UInt32.lt_irrefl, if_false]
    rfl
  rw [hemit]
  refine ⟨rfl, rfl, Or.inl ⟨hle, ?_⟩⟩
  rw [← tail_drop, hdrop, tail_cons]

/-- The loop of the encoder writes the pairs of the plan for what is still to
be described, and never fails. -/
theorem marshalLoop_eq (fuel : Nat) (s : ACKEncoder) (todo : List ACKRange)
    (htodo : s.Todo ranges todo) (hdesc : Descends s.below.toNat todo)
    (hpairs : s.pairs ≤ maxACKRanges) (hfuel : maxACKRanges ≤ s.pairs + fuel) :
    marshalLoop ranges fuel s = some (s.dst ++
      pairBytes (ackPairs (maxACKRanges - s.pairs) s.below.toNat todo)) := by
  induction fuel generalizing s todo with
  | zero =>
    rw [show maxACKRanges - s.pairs = 0 by omega]
    simp [marshalLoop, ackPairs, pairBytes]
  | succ fuel ih =>
    rw [marshalLoop]
    by_cases hspent : s.pairs < maxACKRanges
    swap
    · rw [if_neg hspent, show maxACKRanges - s.pairs = 0 by omega]
      simp [ackPairs, pairBytes]
    rw [if_pos hspent]
    cases todo with
    | nil =>
      have hdrop : ranges.drop s.index = [] := by
        rcases htodo with ⟨-, h⟩ | ⟨-, -, _, _, -, h⟩
        · exact h.symm
        · cases h
      have hnone : ranges[s.index]? = none := by rw [← head?_drop, hdrop, head?_nil]
      obtain ⟨budget, hbudget⟩ : ∃ budget, maxACKRanges - s.pairs = budget + 1 :=
        ⟨maxACKRanges - s.pairs - 1, by omega⟩
      simp [hnone, hbudget, ackPairs, pairBytes]
    | cons range rest =>
      obtain ⟨next, hnext, hdrop, hstart, hend⟩ := todo_cons htodo
      obtain ⟨hle, hbelow, hrest⟩ := hdesc
      have hroom : ¬ range.stop ≥ s.below := by
        rw [ge_iff_le, le_iff_toNat_le]
        omega
      have hfill := fillGap_spec maxACKRanges s _ rest hpairs (by omega) hbelow
      simp only [hnext, hstart, hend, if_neg hroom]
      cases hrun : fillGap maxACKRanges s (s.below.toNat - range.stop.toNat - 1) with
      | mk filled gap =>
        simp only [hrun] at hfill ⊢
        obtain ⟨hbytes, hgap, hroom', hle64, hge, hindex, hfits⟩ := hfill
        rw [← hbytes]
        by_cases hfull : filled.pairs = maxACKRanges
        · rw [hfull]
          simp [ackPairs, pairBytes]
        have hsmall : ¬ filled.below.toNat - range.stop.toNat - 1 > 255 := by omega
        have hemitted : (filled.emit gap range.start range.stop).pairs =
          filled.pairs + 1 := rfl
        rw [if_neg hfull, show maxACKRanges - filled.pairs =
          maxACKRanges - (filled.pairs + 1) + 1 by omega, ackPairs]
        simp only [if_neg hsmall]
        rw [← hindex] at hdrop
        by_cases hlong : range.length > 255
        · obtain ⟨hdst, hcut, htodo'⟩ :=
            emit_split _ _ gap range _ _ hdrop hlong
          have hdesc' := hrest.cut hlong
          rw [← hcut] at hdesc'
          rw [ih _ _ htodo' hdesc' (by omega) (by omega), hdst, hcut, hemitted, hgap]
          simp [pairBytes, hlong]
        · obtain ⟨hdst, hcut, htodo'⟩ :=
            emit_whole _ _ _ _ _ _ hdrop hle hlong
          rw [ih _ _ htodo' (by rw [hcut]; exact hrest) (by omega) (by omega), hdst, hcut,
            hemitted, hgap]
          simp [pairBytes, hlong]

theorem pairBytes_length (pairs : List (Nat × Nat)) :
    (pairBytes pairs).length = 2 * pairs.length := by
  induction pairs with
  | nil => rfl
  | cons pair rest ih =>
    simp only [pairBytes, flatMap_cons, length_append, length_cons] at *
    simp only [ih, length_nil]
    omega

/-- The first run on the wire: at most 256 numbers off the top of a range. -/
def ACKRange.firstRun (range : ACKRange) : ACKRange :=
  ⟨range.stop - UInt32.ofNat (min range.length 256) + 1, range.stop⟩

/-- The ranges that remain once the first run is written. -/
def afterFirstRun (first : ACKRange) (rest : List ACKRange) : List ACKRange :=
  if first.length > 256 then ⟨first.start, first.stop - 256⟩ :: rest else rest

variable (first : ACKRange)

theorem firstRun_start (hle : first.start ≤ first.stop) :
    first.firstRun.start.toNat = first.stop.toNat + 1 - min first.length 256 := by
  have hle' := le_iff_toNat_le.mp hle
  rw [ACKRange.firstRun, toNat_sub_ofNat_add_one] <;> simp only [ACKRange.length] <;> omega

theorem afterFirstRun_descends (rest : List ACKRange)
    (hle : first.start ≤ first.stop) (hrest : Descends first.start.toNat rest) :
    Descends first.firstRun.start.toNat (afterFirstRun first rest) := by
  have hle' := le_iff_toNat_le.mp hle
  rw [firstRun_start _ hle, afterFirstRun]
  by_cases hlong : first.length > 256
  · have hlen : first.stop.toNat - first.start.toNat + 1 > 256 := hlong
    have hrem : (first.stop - 256).toNat = first.stop.toNat - 256 :=
      toNat_sub_ofNat first.stop 256 (by omega)
    rw [if_pos hlong]
    refine ⟨?_, by rw [hrem]; omega, hrest⟩
    rw [le_iff_toNat_le]
    dsimp only
    omega
  · have hlength : first.length = first.stop.toNat - first.start.toNat + 1 := rfl
    rw [if_neg hlong, Nat.min_eq_left (by omega), hlength]
    rwa [show first.stop.toNat + 1 - (first.stop.toNat - first.start.toNat + 1) =
      first.start.toNat by omega]

theorem marshalACKRanges_eq (dst : Bytes) (first : ACKRange) (rest : List ACKRange)
    (hvalid : validACKRanges (first :: rest) = true) :
    marshalACKRanges dst (first :: rest) = some (dst ++ (natBE 4 first.stop.toNat ++
      UInt8.ofNat (min first.length 256 - 1) ::
        pairBytes (ackPairs maxACKRanges first.firstRun.start.toNat
          (afterFirstRun first rest)))) := by
  obtain ⟨hle, hrest⟩ := (validACKRanges_cons_iff _ _).mp hvalid
  have hle' := UInt32.le_iff_toNat_le.mp hle
  have hbelow := firstRun_start _ hle
  have hdesc := afterFirstRun_descends _ _ hle hrest
  have hlength : first.length = first.stop.toNat - first.start.toNat + 1 := rfl
  have hrun : first.stop - UInt32.ofNat (min first.length 256) + 1 = first.firstRun.start := rfl
  rw [marshalACKRanges, if_pos hvalid]
  simp only [← hlength, hrun]
  rw [marshalLoop_eq _ _ _ (afterFirstRun first rest) _ hdesc (Nat.zero_le _) (by simp)]
  · simp
  · rw [afterFirstRun]
    by_cases hlong : first.length > 256
    · have hrem : (first.stop - 256).toNat = first.stop.toNat - 256 :=
        toNat_sub_ofNat first.stop 256 (by omega)
      have hsplit : first.firstRun.start > first.start := by
        rw [gt_iff_lt, UInt32.lt_iff_toNat_lt]
        omega
      have hprev : first.firstRun.start - 1 = first.stop - 256 := by
        simp [ACKRange.firstRun, Nat.min_eq_right (Nat.le_of_lt hlong)]
      simp only [if_pos hlong, if_pos hsplit, hprev]
      refine Or.inr ⟨?_, ?_, first, rest, rfl, rfl⟩
      · rw [UInt32.le_iff_toNat_le]
        dsimp only
        omega
      · rw [UInt32.lt_iff_toNat_lt, hrem, hbelow]
        omega
    · have hwhole : first.firstRun.start = first.start := by
        apply UInt32.toNat_inj.mp
        omega
      simp only [if_neg hlong, hwhole, gt_iff_lt, UInt32.lt_irrefl, if_false]
      exact Or.inl ⟨hle, rfl⟩

/-- Decoding an encoded body gives the first run and the runs of the plan, as
far as the caller's storage reaches. -/
theorem parseACKRanges_marshal (capacity : Nat) (first : ACKRange) (rest : List ACKRange)
    (hvalid : validACKRanges (first :: rest) = true) (hcapacity : 0 < capacity) :
    ∃ body, marshalACKRanges [] (first :: rest) = some body ∧
      parseACKRanges body capacity = stored capacity (first.firstRun ::
        ackRuns maxACKRanges first.firstRun.start.toNat (afterFirstRun first rest)) := by
  obtain ⟨hle, hrest⟩ := (validACKRanges_cons_iff _ _).mp hvalid
  have hdesc := afterFirstRun_descends _ _ hle hrest
  refine ⟨_, marshalACKRanges_eq [] _ _ hvalid, ?_⟩
  have hloop := parseLoop_ackPairs _ maxACKRanges first.firstRun.start
    (afterFirstRun first rest) [first.firstRun] hdesc hcapacity
  have hlength : first.length = first.stop.toNat - first.start.toNat + 1 := rfl
  have hthrough : UInt32.ofNat (beNat (natBE 4 first.stop.toNat)) = first.stop := by
    rw [beNat_natBE_of_lt 4 _ (by simpa using first.stop.toNat_lt), UInt32.ofNat_toNat]
  have hcount := toUInt32_ofNat_toNat (min first.length 256 - 1) (by omega)
  have hfits : ¬ (UInt8.ofNat (min first.length 256 - 1)).toUInt32 > first.stop := by
    rw [gt_iff_lt, UInt32.lt_iff_toNat_lt]
    omega
  have hstart : first.stop - (UInt8.ofNat (min first.length 256 - 1)).toUInt32 =
      first.firstRun.start := by
    apply UInt32.toNat_inj.mp
    rw [UInt32.toNat_sub_of_le _ _ (UInt32.not_lt.mp hfits), firstRun_start _ hle]
    omega
  have htake (head tail : Bytes) (byte : UInt8) (hhead : head.length = 4) :
      (head ++ byte :: tail).take 4 = head ∧ (head ++ byte :: tail).getD 4 0 = byte ∧
        (head ++ byte :: tail).drop 5 = tail := by
    refine ⟨?_, ?_, ?_⟩
    · rw [← hhead, take_left]
    · simp [getD_eq_getElem?_getD, ← hhead]
    · rw [show 5 = head.length + 1 by omega]
      simp
  obtain ⟨h4, hbyte, h5⟩ := htake (natBE 4 first.stop.toNat)
    (pairBytes (ackPairs maxACKRanges first.firstRun.start.toNat (afterFirstRun first rest)))
    (UInt8.ofNat (min first.length 256 - 1)) (natBE_length 4 _)
  rw [nil_append, parseACKRanges, if_neg]
  · simp only [h4, hbyte, h5, hthrough, if_neg hfits, hstart, if_neg (Nat.ne_of_gt hcapacity)]
    exact hloop
  · simp [pairBytes_length]
    omega

/-- The number of wire runs that describe a list of ranges without crossing a
gap of more than 255 missing numbers. -/
def wireRuns : List ACKRange → Nat
  | [] => 0
  | first :: rest => 1 + (first.length - 256 + 254) / 255 + closeRuns first.start.toNat rest

private theorem closeRuns_afterFirstRun (rest : List ACKRange) (hle : first.start ≤ first.stop) :
    1 + closeRuns first.firstRun.start.toNat (afterFirstRun first rest) =
      wireRuns (first :: rest) := by
  have hle' := le_iff_toNat_le.mp hle
  have hlength : first.length = first.stop.toNat - first.start.toNat + 1 := rfl
  rw [afterFirstRun, wireRuns, firstRun_start _ hle]
  by_cases hlong : first.length > 256
  · have hrem : (first.stop - 256).toNat = first.stop.toNat - 256 :=
      toNat_sub_ofNat first.stop 256 (by omega)
    rw [if_pos hlong, closeRuns, hrem, if_neg (by omega)]
    simp only [ACKRange.pieces, ACKRange.length, hrem]
    omega
  · rw [if_neg hlong, Nat.min_eq_left (by omega), hlength,
      show first.stop.toNat + 1 - (first.stop.toNat - first.start.toNat + 1) =
        first.start.toNat by omega]
    omega

/-- An acknowledgement the encoder writes is accepted by a decoder with
storage for `maxACKRanges` ranges exactly when the ranges need at most that
many wire runs before the first gap that takes a pair of its own. The encoder
spends up to `maxACKRanges` pairs besides the first run, so one run more than
the decoder can store reaches the wire. -/
theorem marshal_accepted_iff (hne : ranges ≠ []) (hvalid : validACKRanges ranges = true) :
    (∃ body decoded, marshalACKRanges [] ranges = some body ∧
      parseACKRanges body maxACKRanges = some decoded) ↔ wireRuns ranges ≤ maxACKRanges := by
  obtain ⟨first, rest, rfl⟩ := exists_cons_of_ne_nil hne
  obtain ⟨hle, hrest⟩ := (validACKRanges_cons_iff _ _).mp hvalid
  have hdesc := afterFirstRun_descends first rest hle hrest
  have hbound := ackRuns_length_le maxACKRanges first.firstRun.start.toNat
    (afterFirstRun first rest)
  have hfull := ackRuns_length_eq_iff maxACKRanges first.firstRun.start.toNat
    (afterFirstRun first rest) hdesc
  rw [← closeRuns_afterFirstRun _ _ hle]
  obtain ⟨body, hbody, hparse⟩ := parseACKRanges_marshal maxACKRanges _ _ hvalid (by decide)
  have hstored : (∃ body decoded, marshalACKRanges [] (first :: rest) = some body ∧
      parseACKRanges body maxACKRanges = some decoded) ↔
      (ackRuns maxACKRanges first.firstRun.start.toNat
        (afterFirstRun first rest)).length + 1 ≤ maxACKRanges := by
    constructor
    · rintro ⟨body', decoded, hbody', hdecoded⟩
      obtain rfl := Option.some.inj (hbody'.symm.trans hbody)
      rw [hparse, stored] at hdecoded
      by_contra hover
      rw [if_neg (by simpa using hover)] at hdecoded
      cases hdecoded
    · intro hroom
      exact ⟨body, _, hbody, hparse.trans (if_pos (by simpa using hroom))⟩
  rw [hstored]
  omega

/-- The ranges 8–10, 5–6 and 0–2 need three runs, so their body is accepted. -/
theorem marshal_accepted_three_ranges :
    ∃ body decoded, marshalACKRanges [] [⟨8, 10⟩, ⟨5, 6⟩, ⟨0, 2⟩] = some body ∧
      parseACKRanges body maxACKRanges = some decoded :=
  (marshal_accepted_iff [⟨8, 10⟩, ⟨5, 6⟩, ⟨0, 2⟩] (by decide) (by decide)).mpr (by decide)

/-- A session that has received the packets 0 to 16321 in order acknowledges
them as one range. Its body needs 65 runs and is rejected. -/
theorem marshal_rejected_in_order :
    ∃ packets, validACKRanges (TrackerRun.after packets).tracker.ranges = true ∧
      ∃ body, marshalACKRanges [] (TrackerRun.after packets).tracker.ranges = some body ∧
        parseACKRanges body maxACKRanges = none := by
  refine ⟨(range 16322).map ofNat, ?_⟩
  rw [TrackerRun.ranges_after_in_order 16321 (by decide)]
  have hbody : (marshalACKRanges [] [⟨0, ofNat 16321⟩]).map
      (fun body => parseACKRanges body maxACKRanges) = some none := by
    decide +kernel
  exact ⟨by decide, Option.map_eq_some_iff.mp hbody⟩

end Ivnp.Ssu2
