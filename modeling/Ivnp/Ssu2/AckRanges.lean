import Ivnp.Lib.Bytes

/-!
The SSU2 acknowledgement body: the descending packet ranges a receiver holds
are written as a first run of at most 256 numbers and then as pairs of one
gap byte and one run byte. `MarshalACKRanges` bounds the number of *pairs*,
`ParseACKRanges` the number of *ranges*; the first run has no pair of its own,
so the two bounds differ by one. `AckCodec` says for which range lists that
difference shows.
-/

namespace Ivnp.Ssu2

open Ivnp.Lib

def maxACKRanges : Nat := 64

/-- An inclusive range of packet numbers; `stop` is the field `End`. -/
structure ACKRange where
  start : UInt32
  stop : UInt32
deriving DecidableEq, Repr

def validACKRangesFrom (previous : Option ACKRange) : List ACKRange → Bool
  | [] => true
  | current :: rest =>
    if current.start > current.stop then false
    else if previous.any (fun above => current.stop ≥ above.start) then false
    else validACKRangesFrom (some current) rest

def validACKRanges (ranges : List ACKRange) : Bool := validACKRangesFrom none ranges

/-- The local variables of `MarshalACKRanges` at the head of its loop. -/
structure ACKEncoder where
  dst : Bytes
  below : UInt32
  index : Nat
  currentStart : UInt32
  currentEnd : UInt32
  pairs : Nat

/-- The inner loop: a gap of more than 255 numbers is crossed with `(255, 0)`
pairs. Every pass uses one of the `maxACKRanges` pairs, which bounds it. -/
def fillGap : Nat → ACKEncoder → Nat → ACKEncoder × Nat
  | 0, s, gap => (s, gap)
  | fuel + 1, s, gap =>
    if gap > 255 ∧ s.pairs < maxACKRanges then
      fillGap fuel
        { s with dst := s.dst ++ [255, 0], below := s.below - 255, pairs := s.pairs + 1 }
        (gap - 255)
    else (s, gap)

/-- The tail of a loop pass: append one gap and run pair for at most 255
numbers of the current range, and keep the rest of it or move on. -/
def ACKEncoder.emit (s : ACKEncoder) (gap : Nat) (currentStart currentEnd : UInt32) :
    ACKEncoder :=
  let count := min (currentEnd.toNat - currentStart.toNat + 1) 255
  let below := currentEnd - UInt32.ofNat count + 1
  { dst := s.dst ++ [UInt8.ofNat gap, UInt8.ofNat count]
    below := below
    index := if below > currentStart then s.index else s.index + 1
    currentStart := currentStart
    currentEnd := if below > currentStart then below - 1 else currentEnd
    pairs := s.pairs + 1 }

/-- The outer loop of `MarshalACKRanges`; `none` is `ErrACK`. A pass that
does not leave the loop appends a pair, so `maxACKRanges` passes exhaust it. -/
def marshalLoop (ranges : List ACKRange) : Nat → ACKEncoder → Option Bytes
  | 0, s => some s.dst
  | fuel + 1, s =>
    if s.pairs < maxACKRanges then
      match ranges[s.index]? with
      | none => some s.dst
      | some next =>
        let stale := s.currentEnd < s.currentStart ∨ s.currentEnd ≥ s.below
        let currentStart := if stale then next.start else s.currentStart
        let currentEnd := if stale then next.stop else s.currentEnd
        if currentEnd ≥ s.below then none
        else
          let (filled, gap) := fillGap maxACKRanges s (s.below.toNat - currentEnd.toNat - 1)
          if filled.pairs = maxACKRanges then some filled.dst
          else marshalLoop ranges fuel (filled.emit gap currentStart currentEnd)
    else some s.dst

/-- `MarshalACKRanges`: appends the body to `dst`, or fails with `ErrACK`. -/
def marshalACKRanges (dst : Bytes) : List ACKRange → Option Bytes
  | [] => none
  | first :: rest =>
    if validACKRanges (first :: rest) then
      let firstCount := min (first.stop.toNat - first.start.toNat + 1) 256
      let below := first.stop - UInt32.ofNat firstCount + 1
      marshalLoop (first :: rest) maxACKRanges
        { dst := dst ++ natBE 4 first.stop.toNat ++ [UInt8.ofNat (firstCount - 1)]
          below := below
          index := if below > first.start then 0 else 1
          currentStart := first.start
          currentEnd := if below > first.start then below - 1 else first.stop
          pairs := 0 }
    else none

def parseLoop (capacity : Nat) : Bytes → UInt32 → List ACKRange → Option (List ACKRange)
  | nackByte :: ackByte :: rest, below, dst =>
    let nack := nackByte.toUInt32
    let ack := ackByte.toUInt32
    if nack = 0 ∧ ack = 0 then none
    else if nack > below then none
    else if ack = 0 then parseLoop capacity rest (below - nack) dst
    else if nack = below then none
    else
      let stop := below - nack - 1
      if ack - 1 > stop ∨ dst.length = capacity then none
      else
        let start := stop - (ack - 1)
        parseLoop capacity rest start (dst ++ [⟨start, stop⟩])
  | _, _, dst => some dst

def parseACKRanges (data : Bytes) (capacity : Nat) : Option (List ACKRange) :=
  if data.length < 5 ∨ (data.length - 5) % 2 ≠ 0 then none
  else
    let through := UInt32.ofNat (beNat (data.take 4))
    let firstCount := (data.getD 4 0).toUInt32
    if firstCount > through then none
    else if capacity = 0 then none
    else parseLoop capacity (data.drop 5) (through - firstCount)
      [⟨through - firstCount, through⟩]

/-- How many packet numbers a range holds. -/
def ACKRange.length (range : ACKRange) : Nat := range.stop.toNat - range.start.toNat + 1

/-- The ranges descend, do not overlap, and lie below `below`. -/
def Descends (below : Nat) : List ACKRange → Prop
  | [] => True
  | range :: rest =>
    range.start ≤ range.stop ∧ range.stop.toNat < below ∧ Descends range.start.toNat rest

theorem validACKRangesFrom_iff (above : ACKRange) (ranges : List ACKRange) :
    validACKRangesFrom (some above) ranges = true ↔ Descends above.start.toNat ranges := by
  induction ranges generalizing above with
  | nil => simp [validACKRangesFrom, Descends]
  | cons range rest ih =>
    simp only [validACKRangesFrom, Descends, Option.any_some, ← ih _]
    by_cases hstart : range.start > range.stop
    · simp [hstart, UInt32.not_le.mpr hstart]
    by_cases hstop : range.stop ≥ above.start
    · have hnot : ¬ range.stop.toNat < above.start.toNat := by
        exact UInt32.not_lt.mpr hstop
      simp [hstart, hstop, hnot]
    · have hbelow : range.stop.toNat < above.start.toNat := by
        exact UInt32.not_le.mp hstop
      simp [hstart, hstop, hbelow, UInt32.not_lt.mp hstart]

theorem validACKRanges_cons_iff (first : ACKRange) (rest : List ACKRange) :
    validACKRanges (first :: rest) = true ↔
      first.start ≤ first.stop ∧ Descends first.start.toNat rest := by
  simp only [validACKRanges, validACKRangesFrom, Option.any_none, ← validACKRangesFrom_iff]
  by_cases hstart : first.start > first.stop
  · simp [hstart, UInt32.not_le.mpr hstart]
  · simp [hstart, UInt32.not_lt.mp hstart]

end Ivnp.Ssu2
