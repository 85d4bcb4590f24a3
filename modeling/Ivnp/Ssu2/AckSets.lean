import Ivnp.Ssu2.AckCodec

/-!
Acknowledgements as sets of packet numbers: what an encoded body denotes, and what a tracker
holds of the numbers it has observed.
-/

namespace Ivnp.Ssu2

open Ivnp.Lib List UInt32

theorem Descends.mono {below bound : Nat} {ranges : List ACKRange} (h : Descends below ranges)
    (hle : below ≤ bound) : Descends bound ranges := by
  cases ranges with
  | nil => trivial
  | cons range rest => exact ⟨h.1, h.2.1.trans_le hle, h.2.2⟩

theorem Descends.holds_lt {below : Nat} {ranges : List ACKRange} {packet : UInt32}
    (h : Descends below ranges) (hholds : Holds ranges packet) : packet.toNat < below := by
  induction ranges generalizing below with
  | nil => exact absurd hholds (not_holds_nil _)
  | cons range rest ih =>
    obtain ⟨hle, hstop, hrest⟩ := h
    rw [le_iff_toNat_le] at hle
    rcases (holds_cons ..).mp hholds with hrange | hholds
    · omega
    · have := ih hrest hholds
      omega

theorem Descends.exists_lowest {below : Nat} {range : ACKRange} {rest : List ACKRange}
    (h : Descends below (range :: rest)) :
    ∃ lowest, Holds (range :: rest) lowest ∧ ∀ packet, Holds (range :: rest) packet → lowest ≤ packet := by
  obtain ⟨hle, -, hrest⟩ := h
  cases rest with
  | nil =>
    refine ⟨range.start, (holds_cons ..).mpr (.inl ⟨Nat.le_refl _, hle⟩), fun packet hpacket => ?_⟩
    rcases (holds_cons ..).mp hpacket with hrange | hnone
    · exact le_iff_toNat_le.mpr hrange.1
    · exact absurd hnone (not_holds_nil _)
  | cons next rest =>
    obtain ⟨lowest, hlowest, hall⟩ := hrest.exists_lowest
    refine ⟨lowest, (holds_cons ..).mpr (.inr hlowest), fun packet hpacket => ?_⟩
    rcases (holds_cons ..).mp hpacket with hrange | hpacket
    · have := hrest.holds_lt hlowest
      rw [le_iff_toNat_le]
      omega
    · exact hall _ hpacket

structure Truncates (runs ranges : List ACKRange) : Prop where
  holds : ∀ packet, Holds runs packet → Holds ranges packet
  upward : ∀ low packet, Holds runs low → low.toNat ≤ packet.toNat → Holds ranges packet →
    Holds runs packet

theorem Truncates.cons {runs todo ranges : List ACKRange} (h : Truncates runs todo) {run : ACKRange}
    (hdesc : Descends run.start.toNat todo)
    (hranges : ∀ packet, Holds ranges packet ↔ Holds (run :: todo) packet) :
    Truncates (run :: runs) ranges := by
  refine ⟨fun packet hpacket => ?_, fun low packet hlow hle hpacket => ?_⟩
  · rw [hranges, holds_cons]
    exact ((holds_cons ..).mp hpacket).imp_right (h.holds _)
  · rw [hranges, holds_cons] at hpacket
    rw [holds_cons] at hlow ⊢
    refine hpacket.imp_right fun hpacket => ?_
    have hlt := hdesc.holds_lt hpacket
    exact h.upward _ _ (hlow.resolve_left fun hlow => by omega) hle hpacket

theorem holds_split {range : ACKRange} {rest : List ACKRange} {start stop : UInt32}
    (hstart : stop.toNat + 1 = start.toNat) (hle : range.start.toNat ≤ start.toNat)
    (hstop : start.toNat ≤ range.stop.toNat) (packet : UInt32) :
    Holds (range :: rest) packet ↔
      Holds (⟨start, range.stop⟩ :: ⟨range.start, stop⟩ :: rest) packet := by
  simp only [holds_cons, ← or_assoc]
  exact or_congr_left (by omega)

theorem ackRuns_truncates (budget below : Nat) (todo : List ACKRange)
    (hdesc : Descends below todo) :
    Descends below (ackRuns budget below todo) ∧ Truncates (ackRuns budget below todo) todo ∧
      ((ackPairs budget below todo).length < budget → ∀ packet, Holds todo packet →
        Holds (ackRuns budget below todo) packet) := by
  have hnone (todo : List ACKRange) : Truncates [] todo :=
    ⟨fun packet h => absurd h (not_holds_nil _), fun low _ h => absurd h (not_holds_nil _)⟩
  fun_induction ackRuns budget below todo with
  | case1 => exact ⟨trivial, hnone _, fun h => absurd h (Nat.not_lt_zero _)⟩
  | case2 => exact ⟨trivial, hnone _, fun _ _ => id⟩
  | case3 budget below range rest hgap ih =>
    obtain ⟨hle, hbelow, hrest⟩ := hdesc
    obtain ⟨hruns, htruncates, hwhole⟩ := ih ⟨hle, by omega, hrest⟩
    refine ⟨hruns.mono (by omega), htruncates, fun hpairs => hwhole ?_⟩
    rw [ackPairs, if_pos hgap] at hpairs
    exact Nat.lt_of_succ_lt_succ hpairs
  | case4 budget below range rest hgap hlong ih =>
    obtain ⟨hle, hbelow, hrest⟩ := hdesc
    have hlen : range.stop.toNat - range.start.toNat + 1 > 255 := hlong
    obtain ⟨hcut, hrem⟩ := ACKRange.toNat_cut hlong
    have htodo := hrest.cut hlong
    rw [← hcut] at htodo
    have hsplit (packet : UInt32) : Holds (range :: rest) packet ↔
        Holds (⟨range.stop - 254, range.stop⟩ :: ⟨range.start, range.stop - 255⟩ :: rest) packet :=
      holds_split (by omega) (by omega) (by omega) _
    rw [← hcut] at ih ⊢
    obtain ⟨hruns, htruncates, hwhole⟩ := ih htodo
    refine ⟨⟨?_, hbelow, hruns⟩, htruncates.cons htodo hsplit, fun hpairs packet hpacket => ?_⟩
    · rw [le_iff_toNat_le, hcut]
      exact Nat.sub_le _ _
    · rw [ackPairs, if_neg hgap, if_pos hlong, ← hcut] at hpairs
      rw [hsplit, holds_cons] at hpacket
      exact (holds_cons ..).mpr (hpacket.imp_right (hwhole (Nat.lt_of_succ_lt_succ hpairs) _))
  | case5 budget below range rest hgap hlong ih =>
    obtain ⟨hle, hbelow, hrest⟩ := hdesc
    obtain ⟨hruns, htruncates, hwhole⟩ := ih hrest
    refine ⟨⟨hle, hbelow, hruns⟩, htruncates.cons hrest fun _ => Iff.rfl,
      fun hpairs packet hpacket => ?_⟩
    rw [ackPairs, if_neg hgap, if_neg hlong] at hpairs
    exact (holds_cons ..).mpr (((holds_cons ..).mp hpacket).imp_right
      (hwhole (Nat.lt_of_succ_lt_succ hpairs) _))

theorem holds_firstRun (first : ACKRange) (rest : List ACKRange) (hle : first.start ≤ first.stop)
    (packet : UInt32) :
    Holds (first :: rest) packet ↔ Holds (first.firstRun :: afterFirstRun first rest) packet := by
  have hstart := firstRun_start _ hle
  have hlength : first.length = first.stop.toNat - first.start.toNat + 1 := rfl
  rw [le_iff_toNat_le] at hle
  rw [afterFirstRun]
  by_cases hlong : first.length > 256
  · have hrem : (first.stop - 256).toNat = first.stop.toNat - 256 :=
      toNat_sub_ofNat first.stop 256 (by omega)
    rw [if_pos hlong]
    refine @holds_split first rest first.firstRun.start (first.stop - 256) ?_ ?_ ?_ packet <;> omega
  · rw [if_neg hlong, holds_cons, holds_cons]
    exact or_congr_left (and_congr_left fun _ => by omega)

/-- A body that is decoded with room for every run denotes the packet numbers of the ranges from
some number on, and all of them if there were pairs to spare. -/
theorem marshal_exact (ranges : List ACKRange) (capacity : Nat) (hne : ranges ≠ [])
    (hvalid : validACKRanges ranges = true) (hcapacity : 1 + maxACKRanges ≤ capacity) :
    ∃ body decoded lowest, (∀ dst, marshalACKRanges dst ranges = some (dst ++ body)) ∧
      parseACKRanges body capacity = some decoded ∧ Descends (2 ^ 32) decoded ∧
      Holds decoded lowest ∧
      (∀ packet, Holds decoded packet ↔ Holds ranges packet ∧ lowest ≤ packet) ∧
      (body.length < 5 + 2 * maxACKRanges → ∀ packet, Holds decoded packet ↔ Holds ranges packet) := by
  obtain ⟨first, rest, rfl⟩ := exists_cons_of_ne_nil hne
  obtain ⟨hle, hrest⟩ := (validACKRanges_cons_iff _ _).mp hvalid
  have hdesc := afterFirstRun_descends _ _ hle hrest
  have hfirst := holds_firstRun _ rest hle
  obtain ⟨hruns, htruncates, hwhole⟩ := ackRuns_truncates _ _ _ hdesc
  have hlength := ackRuns_length_le maxACKRanges first.firstRun.start.toNat (afterFirstRun first rest)
  obtain ⟨body, hbody, hparse⟩ := parseACKRanges_marshal capacity _ _ hvalid (by omega)
  have hall := htruncates.cons hdesc hfirst
  have hdecoded : Descends (2 ^ 32) (first.firstRun ::
      ackRuns maxACKRanges first.firstRun.start.toNat (afterFirstRun first rest)) := by
    refine ⟨?_, first.stop.toNat_lt, hruns⟩
    have hpos : 1 ≤ min first.length 256 := Nat.le_min.mpr ⟨Nat.le_add_left 1 _, by decide⟩
    rw [le_iff_toNat_le, firstRun_start _ hle]
    exact Nat.sub_le_of_le_add (Nat.add_le_add_left hpos _)
  obtain ⟨lowest, hlowest, hleast⟩ := hdecoded.exists_lowest
  refine ⟨body, _, lowest, fun dst => ?_, hparse.trans (if_pos ?_), hdecoded, hlowest, ?_, ?_⟩
  · rw [marshalACKRanges_eq [] _ _ hvalid] at hbody
    rw [marshalACKRanges_eq _ _ _ hvalid, ← Option.some.inj hbody]
    rfl
  · rw [length_cons]
    omega
  · intro packet
    refine ⟨fun h => ⟨hall.holds _ h, hleast _ h⟩, fun h => ?_⟩
    exact hall.upward _ _ hlowest (le_iff_toNat_le.mp h.2) h.1
  · intro hshort packet
    rw [marshalACKRanges_eq [] _ _ hvalid] at hbody
    rw [← Option.some.inj hbody, nil_append, length_append, natBE_length, length_cons,
      pairBytes_length] at hshort
    refine ⟨hall.holds _, fun h => ?_⟩
    rw [hfirst, holds_cons] at h
    exact (holds_cons ..).mpr (h.imp_right (hwhole (by omega) _))

/-- The ranges 8–10 and 5–6. -/
theorem marshal_exact_two :
    ∃ body decoded lowest, (∀ dst, marshalACKRanges dst [⟨8, 10⟩, ⟨5, 6⟩] = some (dst ++ body)) ∧
      parseACKRanges body 65 = some decoded ∧ Descends (2 ^ 32) decoded ∧ Holds decoded lowest ∧
      (∀ packet, Holds decoded packet ↔ Holds [⟨8, 10⟩, ⟨5, 6⟩] packet ∧ lowest ≤ packet) ∧
      (body.length < 5 + 2 * maxACKRanges →
        ∀ packet, Holds decoded packet ↔ Holds [⟨8, 10⟩, ⟨5, 6⟩] packet) :=
  marshal_exact [⟨8, 10⟩, ⟨5, 6⟩] 65 (by decide) (by decide) (by decide)

/-- What a peer decodes from an ACK body was received as new. -/
theorem TrackerRun.acked_accepted (packets : List UInt32) {body decoded packet}
    (hbody : marshalACKRanges [] (after packets).tracker.ranges = some body)
    (hacked : parseACKRanges body maxACKRanges = some decoded) (hpacket : Holds decoded packet) :
    packet ∈ (after packets).accepted := by
  refine (accounted_after _ _).mpr (.inl ?_)
  generalize (after packets).tracker.ranges = ranges at hbody ⊢
  cases ranges with
  | nil => cases hbody
  | cons first rest =>
    obtain ⟨hvalid, -⟩ := Option.ite_none_right_eq_some.mp hbody
    obtain ⟨hle, hrest⟩ := (validACKRanges_cons_iff _ _).mp hvalid
    obtain ⟨_, hsame, hparse⟩ := parseACKRanges_marshal maxACKRanges _ _ hvalid (by decide)
    obtain ⟨⟩ := hbody.symm.trans hsame
    obtain ⟨-, ⟨⟩⟩ := Option.ite_none_right_eq_some.mp (hparse.symm.trans hacked)
    have hdesc := afterFirstRun_descends _ _ hle hrest
    have hruns := (ackRuns_truncates maxACKRanges _ _ hdesc).2.1
    exact (hruns.cons hdesc (holds_firstRun _ _ hle)).holds _ hpacket

theorem TrackerRun.acked_accepted_two : 3 ∈ (after [4, 3]).accepted :=
  acked_accepted _ rfl rfl (by decide : Holds [⟨3, 4⟩] 3)

/-- An observed number is held if it is not below every number that is held, of which the start of
the lowest range is the least. -/
def Complete (observed : List UInt32) (ranges : List ACKRange) : Prop :=
  ∀ packet ∈ observed, ∀ low, Holds ranges low → low ≤ packet → Holds ranges packet

/-- If the number opens a new lowest range, no observed one above it is missing. -/
def Opens (observed : List UInt32) (ranges : List ACKRange) (packet : UInt32) : Prop :=
  ranges.length < maxACKRanges → (∀ range ∈ ranges, packet.toNat + 1 < range.start.toNat) →
    ∀ other ∈ observed, packet < other → Holds ranges other

theorem SpacedBelow.last_lt {bound : Nat} {upper : List ACKRange} {last : ACKRange}
    (h : SpacedBelow bound (upper ++ [last])) :
    ∀ range ∈ upper, last.stop.toNat + 1 < range.start.toNat := by
  induction upper generalizing bound with
  | nil => nofun
  | cons range rest ih =>
    refine forall_mem_cons.mpr ⟨?_, ih h.2.2⟩
    exact h.2.2.stop_lt last (mem_append_right _ mem_cons_self)

section Observation

variable {packet : UInt32} {observed : List UInt32} {ranges next : List ACKRange}

theorem SpacedBelow.holds (h : SpacedBelow (2 ^ 32 + 1) ranges) {range : ACKRange}
    (hrange : range ∈ ranges) : Holds ranges range.start ∧ Holds ranges range.stop :=
  have hle := h.start_le _ hrange
  ⟨⟨range, hrange, UInt32.le_refl _, hle⟩, range, hrange, hle, UInt32.le_refl _⟩

variable (h : Complete observed ranges) (hspaced : SpacedBelow (2 ^ 32 + 1) ranges)
include h hspaced

theorem Complete.grown_iff (hroom : ranges.length < maxACKRanges ∨ ¬ Apart ranges packet)
    (hholds : ∀ other, Holds next other ↔ Holds ranges other ∨ other = packet) :
    Complete (packet :: observed) next ↔ Opens observed ranges packet := by
  constructor
  · intro hnext _ hlow other hother hlt
    have hmissing : other ≠ packet := fun heq => UInt32.lt_irrefl _ (heq ▸ hlt)
    exact ((hholds _).mp (hnext _ (mem_cons_of_mem _ hother) _
      ((hholds _).mpr (.inr rfl)) (UInt32.le_of_lt hlt))).resolve_right hmissing
  · intro hopens other hother low hlow hle
    rw [hholds]
    by_cases heq : other = packet
    · exact .inr heq
    have hold := (mem_cons.mp hother).resolve_left heq
    refine .inl (((hholds _).mp hlow).elim (fun hlow => h _ hold _ hlow hle) ?_)
    rintro rfl
    have hlt := UInt32.lt_of_le_of_ne hle fun h => heq h.symm
    by_cases hlowest : ∀ range ∈ ranges, low.toNat + 1 < range.start.toNat
    · have hfew := hroom.resolve_right fun happart => happart fun range hrange =>
        .inl (hlowest _ hrange)
      exact hopens hfew hlowest _ hold hlt
    -- a range starts no later than the next number
    push Not at hlowest
    obtain ⟨range, hrange, hstart⟩ := hlowest
    rw [lt_iff_toNat_lt] at hlt
    exact h _ hold range.start (hspaced.holds hrange).1 (le_iff_toNat_le.mpr (by omega))

theorem Complete.replaced (habove : ∃ range ∈ ranges, range.stop.toNat < packet.toNat)
    (hholds : ∀ other, Holds next other ↔ Holds ranges.dropLast other ∨ other = packet) :
    Complete (packet :: observed) next := by
  obtain ⟨range, hrange, habove⟩ := habove
  have hsplit := dropLast_append_getLast (ne_nil_of_mem hrange)
  have hlast := (hsplit.symm ▸ hspaced).last_lt
  intro other hother low hlow hle
  rw [hholds]
  by_cases heq : other = packet
  · exact .inr heq
  have hold := (mem_cons.mp hother).resolve_left heq
  rw [le_iff_toNat_le] at hle
  generalize ranges.getLast (ne_nil_of_mem hrange) = last at hsplit hlast
  obtain ⟨held, hheld, hbelow, hpast⟩ : ∃ held, Holds ranges held ∧ held ≤ other ∧
      last.stop.toNat < other.toNat := by
    rcases (hholds low).mp hlow with ⟨upper, hupper, hstart, hstop⟩ | rfl
    · have := hlast _ hupper
      rw [le_iff_toNat_le] at hstart
      exact ⟨low, ⟨upper, mem_of_mem_dropLast hupper, le_iff_toNat_le.mpr hstart, hstop⟩,
        le_iff_toNat_le.mpr hle, by omega⟩
    · refine ⟨range.stop, (hspaced.holds hrange).2, le_iff_toNat_le.mpr (by omega), ?_⟩
      rw [← hsplit, mem_append, mem_singleton] at hrange
      rcases hrange with hrange | rfl
      · have := hlast _ hrange
        have := le_iff_toNat_le.mp (hspaced.start_le _ (mem_of_mem_dropLast hrange))
        omega
      · omega
  have hother := h _ hold held hheld hbelow
  rw [← hsplit, holds_append] at hother
  refine .inl (hother.resolve_right ?_)
  exact not_holds_of_stop_lt fun range hrange => mem_singleton.mp hrange ▸ hpast

omit h hspaced

variable {isNew : Bool}

/-- What is kept up is lost by a number that opens a new lowest range below one that is missing. -/
theorem Outcome.complete_iff
    (houtcome : Outcome ranges.length packet ranges next isNew) (h : Complete observed ranges)
    (hspaced : SpacedBelow (2 ^ 32 + 1) ranges) (hbounded : ranges.length ≤ maxACKRanges) :
    Complete (packet :: observed) next ↔ Opens observed ranges packet := by
  have hsame (hpacket : ∀ low, Holds ranges low → low ≤ packet → Holds ranges packet) :
      Complete (packet :: observed) ranges := forall_mem_cons.mpr ⟨hpacket, h⟩
  cases houtcome with
  | held hheld =>
    refine iff_of_true (hsame fun _ _ _ => hheld) fun _ hlow => ?_
    obtain ⟨range, hrange, hstart, -⟩ := hheld
    have := hlow _ hrange
    rw [le_iff_toNat_le] at hstart
    omega
  | refused hfull hlow =>
    refine iff_of_true (hsame fun low ⟨range, hrange, hstart, _⟩ hle => ?_) fun hroom =>
      absurd hroom hfull
    have := hlow _ hrange
    rw [le_iff_toNat_le] at hstart hle
    omega
  | grown next hnew hroom hlength hholds =>
    exact h.grown_iff hspaced (hroom.imp_left (Nat.lt_of_le_of_ne hbounded)) hholds
  | replaced next hnew hfull hapart habove hlength hholds =>
    exact iff_of_true (h.replaced hspaced habove hholds) fun hroom => absurd hfull hroom.ne

theorem Outcome.holds_of_new {count : Nat}
    (houtcome : Outcome count packet ranges next isNew) (hnew : isNew = true) : Holds next packet := by
  cases houtcome with
  | held | refused => cases hnew
  | grown _ _ _ _ hholds | replaced _ _ _ _ _ _ hholds => exact (hholds _).mpr (.inr rfl)

end Observation

structure ObservedRun where
  tracker : ACKTracker
  observed : List UInt32

namespace ObservedRun

def start : ObservedRun := ⟨ACKTracker.empty, []⟩

def observe (state : ObservedRun) (packet : UInt32) : ObservedRun :=
  ⟨(state.tracker.observeNew packet).1, packet :: state.observed⟩

def after (packets : List UInt32) : ObservedRun := run observe start packets

/-- The ranges are few, ordered and apart, hold observed numbers only, and all that are not too low. -/
structure Represents (state : ObservedRun) : Prop where
  bounded : state.tracker.ranges.length ≤ maxACKRanges
  spaced : SpacedBelow (2 ^ 32 + 1) state.tracker.ranges
  sound : ∀ packet, Holds state.tracker.ranges packet → packet ∈ state.observed
  complete : Complete state.observed state.tracker.ranges

theorem observe_sound {state : ObservedRun}
    (h : ∀ packet, Holds state.tracker.ranges packet → packet ∈ state.observed) (packet : UInt32) :
    ∀ other, Holds (state.observe packet).tracker.ranges other →
      other ∈ (state.observe packet).observed := by
  intro other hother
  obtain ⟨-, -, hnext, -⟩ | ⟨-, -, hholds⟩ :=
    (state.tracker.observe_outcome _).2.refuses_or_new state.tracker.spaced state.tracker.bounded
  · have hsame := hnext
    exact mem_cons_of_mem _ (h _ (hsame ▸ hother))
  · exact mem_cons.mpr (((hholds _).mp (.inl hother)).symm.imp_right (h _))

/-- A call that returns true covers its number. The ranges represent what was observed all along
exactly if no number opens a lowest range below an observed one that is not held any more. -/
theorem tracker_represents_iff (packets : List UInt32) :
    (∀ done packet, ((after done).tracker.observeNew packet).2 = true →
      Holds ((after done).observe packet).tracker.ranges packet) ∧
    ((∀ done, done <+: packets → (after done).Represents) ↔
      Along observe (fun state => Opens state.observed state.tracker.ranges) start packets) := by
  constructor
  · intro done packet hnew
    exact ((after done).tracker.observe_outcome packet).2.holds_of_new hnew
  · rw [← @forall_run_iff_along _ _ observe (fun _ => True) start _
      (fun state => Complete state.observed state.tracker.ranges) (fun _ _ => id)
      (fun state packet _ hcomplete => (state.tracker.observe_outcome _).2.complete_iff hcomplete
        state.tracker.spaced state.tracker.bounded) trivial nofun packets]
    refine forall₂_congr fun done _ => ⟨Represents.complete, fun hcomplete => ?_⟩
    refine ⟨(after done).tracker.bounded, (after done).tracker.spaced, ?_, hcomplete⟩
    exact @run_preserves _ _ observe
      (fun state => ∀ packet, Holds state.tracker.ranges packet → packet ∈ state.observed) start
      (fun _ packet h => observe_sound h _) (fun packet h => absurd h (not_holds_nil _)) done

/-- 0, 4, …, 252 fill the tracker, 256 and 260 drop 0 and 4, and 254, 255 and 253 join two ranges.
Then there is room for 2, which is below 4. -/
theorem represents_lost :
    ¬(after ((List.range 66).map (fun i => UInt32.ofNat (4 * i)) ++ [253, 255, 254, 2])).Represents := by
  intro h
  have hlow : Holds (after ((range 66).map (fun i => ofNat (4 * i)) ++
      [253, 255, 254, 2])).tracker.ranges 2 := by decide +kernel
  have hmissing : ¬ Holds (after ((range 66).map (fun i => ofNat (4 * i)) ++
      [253, 255, 254, 2])).tracker.ranges 4 := by decide +kernel
  exact hmissing (h.complete 4 (by decide +kernel) 2 hlow (by decide))

end ObservedRun

end Ivnp.Ssu2
