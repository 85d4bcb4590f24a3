import Mathlib
import Ivnp.Streaming.TunnelConn

/-!
What an acknowledgement says. A sequence number on the wire stands for an
unbounded position in the stream; the receiver holds every position before the
one it expects and those in its reorder buffer. The acknowledgement lists
exactly the holes up to a position that is held, so a sender that is not half
the number range ahead of it drops only packets that are held.
-/

namespace Ivnp.Streaming

open Ivnp.Lib List UInt32

def encodeNACKs (sequences : List UInt32) : Bytes :=
  sequences.flatMap fun sequence => natBE 4 sequence.toNat

@[simp] theorem length_encodeNACKs (sequences : List UInt32) :
    (encodeNACKs sequences).length = 4 * sequences.length := by
  induction sequences with
  | nil => rfl
  | cons sequence rest ih =>
    rw [encodeNACKs, flatMap_cons, length_append, natBE_length, length_cons]
    rw [encodeNACKs] at ih
    omega

theorem encodeNACKs_append (left right : List UInt32) :
    encodeNACKs (left ++ right) = encodeNACKs left ++ encodeNACKs right :=
  flatMap_append

theorem containsNACK_encodeNACKs (sequences : List UInt32) (sequence : UInt32) :
    containsNACK (encodeNACKs sequences) sequence = true ↔ sequence ∈ sequences := by
  induction sequences with
  | nil => simp [encodeNACKs, containsNACK]
  | cons head rest ih =>
    have hhead : ofNat (beNat (natBE 4 head.toNat)) = head := by
      rw [beNat_natBE_of_lt _ _ head.toNat_lt, UInt32.ofNat_toNat]
    have hstep : containsNACK (encodeNACKs (head :: rest)) sequence =
        if ofNat (beNat (natBE 4 head.toNat)) = sequence then true
        else containsNACK (encodeNACKs rest) sequence := rfl
    rw [hstep, hhead, mem_cons]
    split
    next heq => simp [heq]
    next hne => rw [ih, or_iff_right (fun heq => hne heq.symm)]

def missing (reordered : Table UInt32 ReceivedPacket) (expect : UInt32) (count : Nat) :
    List UInt32 :=
  ((List.range count).map fun offset => expect + UInt32.ofNat offset).filter
    fun sequence => sequence ∉ reordered

variable {through : UInt32}

section Missing

variable (reordered : Table UInt32 ReceivedPacket) (expect : UInt32)

theorem missing_add (count more : Nat) :
    ∃ rest, missing reordered expect (count + more) = missing reordered expect count ++ rest := by
  refine ⟨((range more).map fun offset => expect + ofNat (count + offset)).filter
    fun sequence => sequence ∉ reordered, ?_⟩
  rw [missing, range_add, map_append, filter_append, map_map]
  rfl

variable {count : Nat}

theorem take_encodeNACKs_missing {low high : Nat} (h : low ≤ high) :
    (encodeNACKs (missing reordered expect high)).take
        (encodeNACKs (missing reordered expect low)).length =
      encodeNACKs (missing reordered expect low) := by
  obtain ⟨more, rfl⟩ := Nat.exists_eq_add_of_le h
  obtain ⟨rest, hrest⟩ := missing_add _ _ _ _
  rw [hrest, encodeNACKs_append, take_left]

/-- An acknowledgement of the first `count` sequences: it ends at one that is
held, and lists the holes before it. -/
structure Covers (ack : UInt32 × Bytes) (count : Nat) : Prop where
  through : ack.1 = expect + UInt32.ofNat count - 1
  nacks : ack.2 = encodeNACKs (missing reordered expect count)
  fits : (missing reordered expect count).length ≤ maxWindow
  held : count = 0 ∨ expect + UInt32.ofNat (count - 1) ∈ reordered

variable {reordered expect}

variable {walked : Nat}

theorem Covers.take (hcount : count ≤ walked)
    (h : Covers reordered expect (through, encodeNACKs (missing reordered expect count)) count) :
    Covers reordered expect (through, (encodeNACKs (missing reordered expect walked)).take
        (encodeNACKs (missing reordered expect count)).length) count := by
  rw [take_encodeNACKs_missing _ _ hcount]
  exact h

/-- The walk over the next sequences keeps the acknowledgement of the last one
held; the induction is on the turns left. -/
theorem collectNACKs_covers (highest : UInt32) (fuel : Nat)
    (hcount : count ≤ walked) (hwalked : (missing reordered expect walked).length ≤ maxWindow)
    (hcovers : Covers reordered expect
      (through, encodeNACKs (missing reordered expect count)) count) :
    ∃ result ≤ walked + fuel, Covers reordered expect
      (TunnelConn.collectNACKs reordered highest fuel (expect + UInt32.ofNat walked)
        (encodeNACKs (missing reordered expect walked)) through
        (encodeNACKs (missing reordered expect count)).length) result := by
  induction fuel generalizing walked count through with
  | zero => exact ⟨count, by omega, Covers.take hcount hcovers⟩
  | succ fuel ih =>
    have hnext : expect + ofNat walked + 1 = expect + ofNat (walked + 1) := by
      rw [ofNat_add, add_assoc]
      rfl
    rw [TunnelConn.collectNACKs]
    split
    · exact ⟨count, by omega, Covers.take hcount hcovers⟩
    split
    next hheld =>
      -- the sequence is held, so the holes before it are acknowledged with it
      have hsame : missing reordered expect (walked + 1) = missing reordered expect walked := by
        simp [missing, range_succ, hheld]
      have hmore : Covers reordered expect (expect + ofNat walked,
          encodeNACKs (missing reordered expect (walked + 1))) (walked + 1) := by
        refine ⟨?_, rfl, by rw [hsame]; exact hwalked, Or.inr hheld⟩
        rw [← hnext]
        exact (UInt32.add_sub_cancel _ _).symm
      obtain ⟨result, hresult, hfound⟩ := ih le_rfl (by rw [hsame]; exact hwalked) hmore
      rw [hsame] at hfound
      rw [hnext]
      exact ⟨result, by omega, hfound⟩
    next hhole =>
    split
    · exact ⟨count, by omega, Covers.take hcount hcovers⟩
    next hroom =>
    have hlonger : missing reordered expect (walked + 1) =
        missing reordered expect walked ++ [expect + ofNat walked] := by
      simp [missing, range_succ, hhole]
    rw [length_encodeNACKs] at hroom
    have hwalk : count ≤ walked + 1 := by omega
    obtain ⟨result, hresult, hfound⟩ := ih hwalk
      (by rw [hlonger, length_append, length_singleton]; omega) hcovers
    rw [hlonger, encodeNACKs_append, ← hnext] at hfound
    exact ⟨result, by omega, hfound⟩

theorem acknowledgments_covers (conn : TunnelConn) :
    ∃ count ≤ 2 ^ 32, Covers conn.reordered conn.expect conn.acknowledgments count := by
  have hstart (nacks : Bytes) (h : nacks = []) :
      Covers conn.reordered conn.expect (conn.expect - 1, nacks) 0 := by
    subst h
    exact ⟨by simp, rfl, Nat.zero_le _, Or.inl rfl⟩
  rw [TunnelConn.acknowledgments]
  split
  next heq =>
    rw [heq]
    exact ⟨0, by omega, hstart [] rfl⟩
  obtain ⟨count, hcount, hcovers⟩ := collectNACKs_covers conn.highestHeld
    ((conn.highestHeld - conn.expect).toNat + 1) (le_refl 0) (Nat.zero_le _) (hstart _ rfl)
  have hfuel := (conn.highestHeld - conn.expect).toNat_lt
  refine ⟨count, by omega, ?_⟩
  have hzero : conn.expect + ofNat 0 = conn.expect := add_zero _
  rw [hzero] at hcovers
  exact hcovers

end Missing

namespace TunnelConn

/-- The receiver holds position `position`: it lies before `base`, the position
it expects next, or its sequence number is in the reorder buffer. -/
def Received (conn : TunnelConn) (base position : Nat) : Prop :=
  position < base ∨ position < base + 2 ^ 32 ∧ UInt32.ofNat position ∈ conn.reordered

variable {nacks : Bytes} {sequence : UInt32}

theorem acknowledgeOne_eq_none {maxRetries : Nat} {packet : PendingPacket}
    (hnone : acknowledgeOne maxRetries through nacks sequence packet = none) :
    sequenceBeforeOrEqual sequence through = true ∧ containsNACK nacks sequence = false := by
  rw [acknowledgeOne] at hnone
  split at hnone
  · simp at hnone
  next hbefore =>
  split at hnone
  next hfree =>
    rw [Bool.not_eq_true', Bool.not_eq_false] at hbefore
    exact ⟨hbefore, Bool.not_eq_true' _ |>.mp hfree⟩
  · split at hnone
    · simp at hnone
    · split at hnone <;> simp at hnone

variable {conn : TunnelConn}

theorem acknowledge_removes (hpending : sequence ∈ conn.pending)
    (hremoved : sequence ∉ (conn.acknowledge through nacks).1.pending) :
    sequenceBeforeOrEqual sequence through = true ∧ containsNACK nacks sequence = false := by
  rw [acknowledge] at hremoved
  split at hremoved
  · exact absurd hpending hremoved
  obtain ⟨packet, hpacket⟩ := Option.isSome_iff_exists.mp (AList.lookup_isSome.mpr hpending)
  have hnone : acknowledgeOne conn.maxRetries through nacks sequence packet = none := by
    by_contra hsome
    obtain ⟨next, hnext⟩ := Option.ne_none_iff_exists'.mp hsome
    apply hremoved
    have hkept := (Table.lookup_revise_eq_some (acknowledgeOne conn.maxRetries through nacks)
      conn.pending _ _).mpr ⟨packet, hpacket, hnext⟩
    exact AList.lookup_isSome.mp (Option.isSome_iff_exists.mpr ⟨next, hkept⟩)
  exact acknowledgeOne_eq_none hnone

section Grow

/-- What a receiver keeps when it moves on: the positions it holds. -/
structure Grows (conn next : TunnelConn) (base nextBase : Nat) : Prop where
  expect : next.expect = UInt32.ofNat nextBase
  forward : base ≤ nextBase
  received : ∀ position, conn.Received base position → next.Received nextBase position

theorem Grows.trans {first second third : TunnelConn} {base₁ base₂ base₃ : Nat}
    (h₁ : Grows first second base₁ base₂) (h₂ : Grows second third base₂ base₃) :
    Grows first third base₁ base₃ :=
  ⟨h₂.expect, h₁.forward.trans h₂.forward, fun position h => h₂.received _ (h₁.received position h)⟩

variable {conn : TunnelConn} {base : Nat}

variable {next : TunnelConn}

theorem grows_deliver (hbase : conn.expect = UInt32.ofNat base)
    (hexpect : next.expect = conn.expect + 1)
    (hreordered : ∀ sequence ≠ conn.expect, sequence ∈ conn.reordered → sequence ∈ next.reordered) :
    Grows conn next base (base + 1) := by
  refine ⟨?_, by omega, ?_⟩
  · rw [hexpect, hbase, ofNat_add]
    rfl
  · rintro position (hlow | ⟨hhigh, hheld⟩)
    · exact Or.inl (by omega)
    · rcases Nat.lt_or_ge position (base + 1) with hlow | hlow
      · exact Or.inl hlow
      · refine Or.inr ⟨by omega, hreordered _ ?_ hheld⟩
        rw [hbase]
        intro heq
        have := Serial.ofNat_inj (by omega) hhigh heq
        omega

theorem enqueuePayload_frame {payload : Bytes} (h : conn.enqueuePayload payload = some next) :
    next.expect = conn.expect ∧ next.reordered = conn.reordered := by
  rw [enqueuePayload] at h
  split at h
  · obtain rfl := Option.some.inj h
    exact ⟨rfl, rfl⟩
  split at h
  · obtain rfl := Option.some.inj h
    exact ⟨rfl, rfl⟩
  · simp at h

theorem drain_grows {fuel : Nat} (hbase : conn.expect = UInt32.ofNat base) :
    ∃ nextBase, Grows conn (drain fuel conn).1 base nextBase := by
  have hsame : Grows conn conn base base := ⟨hbase, le_rfl, fun _ h => h⟩
  induction fuel generalizing conn base with
  | zero => exact ⟨base, hsame⟩
  | succ fuel ih =>
    rw [drain]
    split
    · exact ⟨base, hsame⟩
    split
    · exact ⟨base, hsame⟩
    next next hnext =>
    obtain ⟨hexpect, hreordered⟩ := enqueuePayload_frame hnext
    have hstep : Grows conn { next with
        reordered := next.reordered.erase conn.expect, expect := conn.expect + 1 }
        base (base + 1) := by
      refine grows_deliver hbase rfl ?_
      intro sequence hne hmem
      rw [hreordered]
      exact AList.mem_erase.mpr ⟨hne, hmem⟩
    obtain ⟨nextBase, hrest⟩ := ih hstep.expect ⟨hstep.expect, le_rfl, fun _ h => h⟩
    exact ⟨nextBase, hstep.trans hrest⟩

theorem handleSequence_grows (hbase : conn.expect = UInt32.ofNat base) (packet : Packet) :
    ∃ nextBase, Grows conn (conn.handleSequence packet).1 base nextBase := by
  have hsame : Grows conn conn base base := ⟨hbase, le_rfl, fun _ h => h⟩
  rw [handleSequence]
  split
  · rw [enqueueExpected]
    split
    · exact ⟨base, hsame⟩
    next next hnext =>
    obtain ⟨hexpect, hreordered⟩ := enqueuePayload_frame hnext
    have hstep : Grows conn { next with expect := next.expect + 1 } base (base + 1) := by
      refine grows_deliver hbase (by rw [← hexpect]) ?_
      intro sequence _ hmem
      rw [← hreordered] at hmem
      exact hmem
    obtain ⟨nextBase, hrest⟩ := drain_grows hstep.expect
    exact ⟨nextBase, hstep.trans hrest⟩
  split
  · exact ⟨base, hsame⟩
  split
  · exact ⟨base, hsame⟩
  split
  · exact ⟨base, hsame⟩
  refine ⟨base, hbase, le_rfl, ?_⟩
  rintro position (hlow | ⟨hhigh, hheld⟩)
  · exact Or.inl hlow
  · exact Or.inr ⟨hhigh, (AList.mem_insert _).mpr (Or.inr hheld)⟩

end Grow

def afterPackets (conn : TunnelConn) (packets : List Packet) : TunnelConn :=
  packets.foldl (fun conn packet => (conn.handleSequence packet).1) conn

theorem afterPackets_grows {base : Nat} (hbase : conn.expect = UInt32.ofNat base)
    (packets : List Packet) :
    ∃ nextBase, Grows conn (conn.afterPackets packets) base nextBase := by
  induction packets generalizing conn base with
  | nil => exact ⟨base, hbase, le_rfl, fun _ h => h⟩
  | cons packet rest ih =>
    obtain ⟨middle, hfirst⟩ := handleSequence_grows hbase _
    obtain ⟨nextBase, hrest⟩ := ih hfirst.expect
    exact ⟨nextBase, hfirst.trans hrest⟩

/-- The acknowledgement in terms of positions. -/
theorem acknowledgments_positions {base : Nat} (hbase : conn.expect = UInt32.ofNat base)
    (hpos : 1 ≤ base) :
    ∃ through nacks, conn.acknowledgments = (UInt32.ofNat through, encodeNACKs nacks) ∧
      nacks.length ≤ maxWindow ∧
        (∀ position ≤ through, UInt32.ofNat position ∉ nacks → conn.Received base position) ∧
          ∀ sequence ∈ nacks, ∃ position, sequence = UInt32.ofNat position ∧ base ≤ position ∧
            position < through ∧ ¬ conn.Received base position := by
  obtain ⟨count, hcount, hcovers⟩ := acknowledgments_covers _
  have hposition (offset : Nat) :
      conn.expect + ofNat offset = ofNat (base + offset) := by
    rw [hbase, ofNat_add]
  refine ⟨base + count - 1, missing conn.reordered conn.expect count, ?_, hcovers.fits, ?_, ?_⟩
  · refine Prod.ext ?_ hcovers.nacks
    rw [hcovers.through, hposition, ofNat_sub (by omega)]
    rfl
  · intro position hle hlisted
    rcases Nat.lt_or_ge position base with hlow | hlow
    · exact Or.inl hlow
    refine Or.inr ⟨by omega, ?_⟩
    by_contra hhole
    apply hlisted
    rw [missing, mem_filter, decide_eq_true_eq]
    refine ⟨mem_map.mpr ⟨position - base, mem_range.mpr (by omega), ?_⟩, hhole⟩
    rw [hposition, Nat.add_sub_cancel' hlow]
  · intro sequence hlisted
    rw [missing, mem_filter, decide_eq_true_eq] at hlisted
    obtain ⟨hmem, hhole⟩ := hlisted
    obtain ⟨offset, hoffset, rfl⟩ := mem_map.mp hmem
    rw [mem_range] at hoffset
    rw [hposition] at hhole ⊢
    refine ⟨base + offset, rfl, by omega, ?_, ?_⟩
    · -- the last position acknowledged is held, so the hole lies before it
      rcases hcovers.held with hzero | hheld
      · omega
      · rw [hposition] at hheld
        have hne : offset ≠ count - 1 := fun heq => hhole (heq ▸ hheld)
        omega
    · rintro (hlow | ⟨-, hheld⟩)
      · omega
      · exact hhole hheld

/-- Every acknowledgement lists at most `maxWindow` holes, all of them before
the position it acknowledges; every other position up to there is held. A
sender that gets it, at once or after the receiver has handled more packets,
removes only packets that are held, as long as its packets lie less than half
the number range ahead. -/
theorem acknowledgments_sound (receiver : TunnelConn) (base : Nat)
    (hbase : receiver.expect = UInt32.ofNat base) (hpos : 1 ≤ base) :
    ∃ through nacks, receiver.acknowledgments = (UInt32.ofNat through, encodeNACKs nacks) ∧
      nacks.length ≤ maxWindow ∧
      (∀ position, 1 ≤ position → position ≤ through → UInt32.ofNat position ∉ nacks →
        receiver.Received base position) ∧
      (∀ sequence ∈ nacks, ∃ position, sequence = UInt32.ofNat position ∧ base ≤ position ∧
        position < through ∧ ¬ receiver.Received base position) ∧
      ∀ packets, ∃ later, base ≤ later ∧
        (receiver.afterPackets packets).expect = UInt32.ofNat later ∧
        ∀ (sender : TunnelConn) (position : Nat), position < through + 2 ^ 31 →
          UInt32.ofNat position ∈ sender.pending →
          UInt32.ofNat position ∉ (sender.acknowledge receiver.acknowledgments.1
            receiver.acknowledgments.2).1.pending →
          (receiver.afterPackets packets).Received later position := by
  obtain ⟨through, nacks, hack, hfits, hheld, hholes⟩ := acknowledgments_positions hbase hpos
  refine ⟨through, nacks, hack, hfits, fun position _ => hheld _, hholes, ?_⟩
  intro packets
  obtain ⟨later, hgrows⟩ := afterPackets_grows hbase _
  refine ⟨later, hgrows.forward, hgrows.expect, ?_⟩
  intro sender position hnear hpending hremoved
  obtain ⟨hbefore, hfree⟩ := acknowledge_removes hpending hremoved
  rw [hack] at hbefore hfree
  apply hgrows.received
  apply hheld _ (Serial.le_of_beforeOrEqual hnear hbefore)
  rw [← containsNACK_encodeNACKs, hfree]
  decide

/-- A receiver that expects 1 and holds 3. -/
def gapReceiver : TunnelConn :=
  { start 1 2 64 8 with reordered := (∅ : Table UInt32 ReceivedPacket).insert 3 ⟨[7]⟩ }

theorem acknowledgments_sound_gap :
    gapReceiver.expect = UInt32.ofNat 1 ∧ ∃ through nacks,
      gapReceiver.acknowledgments = (UInt32.ofNat through, encodeNACKs nacks) ∧
        ∀ position, 1 ≤ position → position ≤ through → UInt32.ofNat position ∉ nacks →
          gapReceiver.Received 1 position := by
  obtain ⟨through, nacks, hack, -, hheld, -⟩ := acknowledgments_sound gapReceiver 1 rfl le_rfl
  exact ⟨rfl, through, nacks, hack, hheld⟩

example : gapReceiver.acknowledgments = (3, encodeNACKs [1, 2]) := by decide

def aheadSender : TunnelConn :=
  { start 2 1 64 8 with
    nextSequence := 2 ^ 31 + 1
    pending := (∅ : Table UInt32 PendingPacket).insert (2 ^ 31) ⟨[], 0, 0, false⟩ }

/-- The first acknowledgement of a receiver, which holds nothing, makes the
sender drop packet 2 ^ 31; a receiver that by then expects 2 ^ 31 does not hold
it. -/
theorem stale_acknowledgment_removes_unreceived :
    (start 1 2 64 8).acknowledgments = (0, []) ∧
      UInt32.ofNat (2 ^ 31) ∈ aheadSender.pending ∧
        UInt32.ofNat (2 ^ 31) ∉ (aheadSender.acknowledge 0 []).1.pending ∧
          ¬ (start 1 2 64 8).Received 1 (2 ^ 31) ∧
            ¬ { start 1 2 64 8 with expect := 2 ^ 31 }.Received (2 ^ 31) (2 ^ 31) := by
  refine ⟨by decide, by decide, by decide, ?_, ?_⟩
  · rintro (hlow | ⟨-, hheld⟩)
    · omega
    · exact absurd hheld (by decide)
  · rintro (hlow | ⟨-, hheld⟩)
    · omega
    · exact absurd hheld (by decide)

end TunnelConn

end Ivnp.Streaming
