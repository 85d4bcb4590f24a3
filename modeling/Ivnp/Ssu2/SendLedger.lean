import Ivnp.Ssu2.SendNonce
import Ivnp.Ssu2.SendWindow

/-!
What a step can do to the slots, the calls and the window of a session. Everything that is
proved about reservations is derived from this one relation.
-/

namespace Ivnp.Ssu2

open Ivnp.Lib List Function

/-- The reservations of a session, and the calls in progress. -/
@[ext] structure SendLedger where
  inUse : Nat → Bool
  sent : Table UInt32 Nat
  bytes : Nat → Int
  sentSlots : List Nat
  nextSlot : Nat
  calls : Table Nat SendCall
  nextCall : Nat
  packetMu : PacketMutex
  window : SendWindow
  history : SendHistory

namespace WindowSession

def ledger (state : WindowSession) : SendLedger where
  inUse := state.inUse
  sent := state.sent
  bytes := fun slot => (state.slotWindows slot).windowBytes
  sentSlots := state.sentSlots
  nextSlot := state.nextSlot
  calls := state.calls
  nextCall := state.nextCall
  packetMu := state.packetMu
  window := state.window
  history := state.history

/-- The first loop of `acknowledge`, run to its end. -/
def sweep (state : WindowSession) (ranges : List ACKRange) (order : List UInt32)
    (random : UInt32 → Option UInt64) : AckSweep :=
  order.foldl (state.sweepPacket ranges random) ⟨state.window, [], state.history.credited⟩

end WindowSession

/-- The mutex after a step that gives it to no sender and takes it from none but `call`. -/
structure PacketMutex.Keeps (before after : PacketMutex) (call : Option Nat) : Prop where
  kept : ∀ other, call ≠ some other → before = .sender other → after = .sender other
  given : ∀ other, after = .sender other → before = .sender other

theorem PacketMutex.Keeps.refl (mutex : PacketMutex) (call : Option Nat) : mutex.Keeps mutex call :=
  ⟨fun _ _ h => h, fun _ h => h⟩

theorem PacketMutex.Keeps.of_ne {before after : PacketMutex} (hbefore : ∀ call, before ≠ .sender call)
    (hafter : ∀ call, after ≠ .sender call) (call : Option Nat) : before.Keeps after call :=
  ⟨fun other _ h => absurd h (hbefore other), fun other h => absurd h (hafter other)⟩

open WindowSession in
inductive Moves (state : WindowSession) : WindowStep → SendLedger → Prop
  | idle (step : WindowStep) (packetMu : PacketMutex) (keeps : state.packetMu.Keeps packetMu none) :
      Moves state step { state.ledger with packetMu }
  | shrunk (count : Nat) (free : ∀ slot ∈ state.sentSlots.drop count, state.inUse slot = false) :
      Moves state .maintainSentCapacity
        { state.ledger with sentSlots := state.sentSlots.take count }
  | retained (payload : Bytes) (options : SendOptions) (ipv6 : Bool) (slot : Nat)
      (grown : WindowSession) (packetSize : Int)
      (retain : state.retainPayload (padPayload payload) = some (slot, grown))
      (room : state.window.capacityAvailable options.congestionControlled packetSize = true)
      (positive : 0 < packetSize) :
      Moves state (.send payload options ipv6)
        { state.ledger with
          inUse := Function.update state.inUse slot true
          bytes := Function.update state.ledger.bytes slot 0
          sentSlots := grown.sentSlots
          nextSlot := grown.nextSlot
          calls := state.calls.insert state.nextCall
            ⟨payload, options, some slot, if options.congestionControlled then packetSize else 0,
              packetSize, none⟩
          nextCall := state.nextCall + 1
          window := state.window.reserve (if options.congestionControlled then packetSize else 0)
          history := { state.history with
            owner := Function.update state.history.owner slot state.nextCall } }
  | unretained (payload : Bytes) (options : SendOptions) (ipv6 : Bool) (packetSize : Int)
      (unreliable : options.reliable = false) :
      Moves state (.send payload options ipv6)
        { state.ledger with
          calls := state.calls.insert state.nextCall ⟨payload, options, none, 0, packetSize, none⟩
          nextCall := state.nextCall + 1 }
  | released (step : WindowStep) (call : Nat) (entry : SendCall) (slot : Nat) (packetMu : PacketMutex)
      (lookup : state.calls.lookup call = some entry) (slot_eq : entry.retained = some slot)
      (used : state.inUse slot = true)
      (phase : entry.number = none ∨ step = .written call false)
      (keeps : state.packetMu.Keeps packetMu (some call)) :
      Moves state step
        { state.ledger with
          inUse := Function.update state.inUse slot false
          sent := state.sent.keep fun _ other => other ≠ slot
          bytes := Function.update state.ledger.bytes slot 0
          window := state.window.credit entry.windowBytes
          calls := state.calls.erase call
          packetMu
          history := { state.history with
            releases := ⟨call, slot, state.history.owner slot⟩ :: state.history.releases
            credited := if entry.windowBytes ≠ 0 then call :: state.history.credited
              else state.history.credited } }
  | dropped (step : WindowStep) (call : Nat) (entry : SendCall) (slot : Nat) (packetMu : PacketMutex)
      (lookup : state.calls.lookup call = some entry) (slot_eq : entry.retained = some slot)
      (used : state.inUse slot = false)
      (phase : entry.number = none ∨ step = .written call false)
      (keeps : state.packetMu.Keeps packetMu (some call)) :
      Moves state step { state.ledger with calls := state.calls.erase call, packetMu }
  | ended (step : WindowStep) (call : Nat) (entry : SendCall) (packetMu : PacketMutex)
      (lookup : state.calls.lookup call = some entry) (slot_eq : entry.retained = none)
      (keeps : state.packetMu.Keeps packetMu (some call)) :
      Moves state step
        { state.ledger with
          window := state.window.credit entry.windowBytes
          calls := state.calls.erase call
          packetMu
          history := { state.history with
            credited := if entry.windowBytes ≠ 0 then call :: state.history.credited
              else state.history.credited } }
  | recorded (call : Nat) (cancelled : Bool) (entry : SendCall) (number : UInt32)
      (lookup : state.calls.lookup call = some entry) (phase : entry.number = none)
      (mutex : state.packetMu = .free) :
      Moves state (.transmit call cancelled)
        { state.ledger with
          sent := match entry.retained with
            | none => state.sent
            | some slot => state.sent.insert number slot
          bytes := match entry.retained with
            | none => state.ledger.bytes
            | some slot => Function.update state.ledger.bytes slot entry.windowBytes
          calls := state.calls.insert call { entry with number := some number }
          packetMu := .sender call }
  | finished (call : Nat) (entry : SendCall) (packetsTransmitted : UInt64)
      (lookup : state.calls.lookup call = some entry) (mutex : state.packetMu = .sender call) :
      Moves state (.written call true)
        { state.ledger with
          window := { state.window with packetsTransmitted }
          calls := state.calls.erase call
          packetMu := .free }
  | acknowledged (ranges : List ACKRange) (order : List UInt32) (random : UInt32 → Option UInt64)
      (sent : Table UInt32 Nat)
      (lookup : ∀ number slot, sent.lookup number = some slot ↔
        state.sent.lookup number = some slot ∧
          slot ∉ (state.sweep ranges order random).acknowledged) :
      Moves state (.acknowledge ranges order random)
        { state.ledger with
          inUse := fun slot => state.inUse slot &&
            decide (slot ∉ (state.sweep ranges order random).acknowledged)
          sent
          bytes := fun slot => if slot ∈ (state.sweep ranges order random).acknowledged then 0
            else state.ledger.bytes slot
          window := (state.sweep ranges order random).window
          history := { state.history with
            credited := (state.sweep ranges order random).credited } }
  | retransmitted (step : WindowStep) (number next : UInt32) (slot : Nat) (sealed fast elapsed : Bool)
      (packetSize : Int) (packetMu : PacketMutex) (lookup : state.sent.lookup number = some slot)
      (mutex : state.packetMu = .retransmitter) (keeps : ∀ call, packetMu ≠ .sender call) :
      Moves state step
        { state.ledger with
          sent := if sealed then state.sent.insert next slot else state.sent
          window := state.window.noteCongestion fast elapsed packetSize
          packetMu }

theorem Moves.of_eq {state : WindowSession} {step : WindowStep} {ledger other : SendLedger}
    (h : Moves state step ledger) (heq : other = ledger) : Moves state step other :=
  heq ▸ h

theorem inUse_update (slots : Nat → SentPacket) (slot : Nat) (packet : SentPacket) :
    (fun other => (Function.update slots slot packet other).inUse) =
      Function.update (fun other => (slots other).inUse) slot packet.inUse :=
  comp_update SentPacket.inUse _ _ _

theorem windowBytes_update (accounts : Nat → SlotWindow) (slot : Nat) (account : SlotWindow) :
    (fun other => (Function.update accounts slot account other).windowBytes) =
      Function.update (fun other => (accounts other).windowBytes) slot account.windowBytes :=
  comp_update SlotWindow.windowBytes _ _ _

theorem releaseSlot_foldl (entries : List (Sigma fun _ : UInt32 => Nat)) (session : SendSession) :
    (∀ slot, ((entries.foldl (fun session entry => session.releaseSlot entry.2) session).slots
        slot).inUse = ((session.slots slot).inUse && decide (slot ∉ entries.map Sigma.snd))) ∧
      ∀ number slot, (entries.foldl (fun session entry => session.releaseSlot entry.2)
          session).sent.lookup number = some slot ↔
        session.sent.lookup number = some slot ∧ slot ∉ entries.map Sigma.snd := by
  induction entries generalizing session with
  | nil => simp
  | cons entry rest ih =>
    obtain ⟨hslots, hsent⟩ := ih (session.releaseSlot entry.2)
    rw [foldl_cons, map_cons]
    constructor
    · intro slot
      rw [hslots, SendSession.releaseSlot]
      by_cases hslot : slot = entry.2
      · subst hslot
        simp
      have hmem : decide (slot ∉ entry.2 :: rest.map Sigma.snd) =
          decide (slot ∉ rest.map Sigma.snd) := by
        rw [decide_eq_decide, mem_cons, not_or, and_iff_right hslot]
      simp only [hmem, update_of_ne hslot]
    · intro number slot
      rw [hsent, SendSession.releaseSlot, Table.lookup_keep_eq_some, mem_cons,
        not_or, decide_eq_true_eq, and_assoc]

theorem mem_acknowledged_entries (session : SendSession) (ranges : List ACKRange) (slot : Nat) :
    slot ∈ (session.sent.entries.filter fun entry => (session.slots entry.2).inUse ∧
        ranges.any fun range => entry.1 ≥ range.start ∧ entry.1 ≤ range.stop).map Sigma.snd ↔
      ∃ number, session.sent.lookup number = some slot ∧ (session.slots slot).inUse = true ∧
        acknowledgedBy ranges number = true := by
  rw [mem_map]
  constructor
  · rintro ⟨⟨number, other⟩, hmem, rfl⟩
    obtain ⟨hentry, hacked⟩ := mem_filter.mp hmem
    rw [decide_eq_true_eq] at hacked
    exact ⟨number, AList.mem_lookup_iff.mpr hentry, hacked⟩
  · rintro ⟨number, hlookup, hacked⟩
    refine ⟨⟨number, slot⟩, mem_filter.mpr ⟨AList.mem_lookup_iff.mp hlookup, ?_⟩, rfl⟩
    exact decide_eq_true hacked

namespace WindowSession

variable {state : WindowSession} {entry : SendCall} {call slot : Nat}

section Sweep

variable {ranges : List ACKRange} {random : UInt32 → Option UInt64}

theorem mem_sweepPacket (sweep : AckSweep) (number : UInt32) (slot : Nat) :
    slot ∈ (state.sweepPacket ranges random sweep number).acknowledged ↔
      slot ∈ sweep.acknowledged ∨ state.sent.lookup number = some slot ∧ state.inUse slot = true ∧
        acknowledgedBy ranges number = true := by
  unfold sweepPacket
  cases hlookup : state.sent.lookup number with
  | none => simp
  | some other =>
    dsimp only
    split
    next hskip =>
      constructor
      · exact Or.inl
      · rintro (hmem | ⟨hslot, hused, hacked⟩)
        · exact hmem
        · cases hslot
          simpa [hused, hacked] using hskip
    next htaken =>
      simp only [not_or, Bool.not_eq_true, Bool.not_eq_false'] at htaken
      have hboth : slot ∈ other :: sweep.acknowledged ↔ slot ∈ sweep.acknowledged ∨
          some other = some slot ∧ state.inUse slot = true ∧
            acknowledgedBy ranges number = true := by
        rw [mem_cons, Option.some_inj]
        constructor
        · rintro (rfl | hmem)
          · exact Or.inr ⟨rfl, htaken.1, htaken.2.2⟩
          · exact Or.inl hmem
        · rintro (hmem | ⟨rfl, _⟩)
          · exact Or.inr hmem
          · exact Or.inl rfl
      split <;> exact hboth

theorem mem_sweep_foldl (order : List UInt32) (sweep : AckSweep) (slot : Nat) :
    slot ∈ (order.foldl (state.sweepPacket ranges random) sweep).acknowledged ↔
      slot ∈ sweep.acknowledged ∨ ∃ number ∈ order, state.sent.lookup number = some slot ∧
        state.inUse slot = true ∧ acknowledgedBy ranges number = true := by
  induction order generalizing sweep with
  | nil => simp
  | cons number rest ih =>
    rw [foldl_cons, ih, mem_sweepPacket, or_assoc]
    simp only [mem_cons, exists_eq_or_imp]

/-- The loop marks the slots of the acknowledged numbers, whatever its order. -/
theorem mem_sweep {order : List UInt32} (horder : order.Perm state.sent.keys) (slot : Nat) :
    slot ∈ (state.sweep ranges order random).acknowledged ↔
      ∃ number, state.sent.lookup number = some slot ∧ state.inUse slot = true ∧
        acknowledgedBy ranges number = true := by
  rw [sweep, mem_sweep_foldl]
  constructor
  · rintro (hmem | ⟨number, -, h⟩)
    · cases hmem
    · exact ⟨number, h⟩
  · rintro ⟨number, hlookup, h⟩
    refine Or.inr ⟨number, horder.mem_iff.mpr ?_, hlookup, h⟩
    apply AList.lookup_isSome.mp
    rw [hlookup]
    rfl

theorem acknowledge_moves (ranges : List ACKRange) (order : List UInt32)
    (random : UInt32 → Option UInt64) :
    Moves state (.acknowledge ranges order random) (state.acknowledge ranges order random).ledger := by
  unfold acknowledge
  split
  next horder =>
    obtain ⟨hslots, hsent⟩ := releaseSlot_foldl
      (state.base.session.sent.entries.filter fun entry => (state.base.session.slots entry.2).inUse ∧
        ranges.any fun range => entry.1 ≥ range.start ∧ entry.1 ≤ range.stop) state.base.session
    have hmem (slot : Nat) := (mem_acknowledged_entries state.base.session _ _).trans
      (@mem_sweep state ranges random order horder slot).symm
    have hmoves := @Moves.acknowledged state ranges order random
      (state.base.session.acknowledge ranges).sent fun number slot => by
        rw [← hmem]
        exact hsent _ _
    refine hmoves.of_eq (SendLedger.ext ?_ rfl ?_ rfl rfl rfl rfl rfl rfl rfl)
    · funext slot
      refine (hslots _).trans ?_
      simp only [hmem _]
      rfl
    · funext slot
      change SlotWindow.windowBytes (if slot ∈ (state.sweep ranges order random).acknowledged
        then .clear else _) = if slot ∈ (state.sweep ranges order random).acknowledged then 0 else _
      split
      · rfl
      · unfold countNack
        dsimp only
        split <;> rfl
  · exact .idle _ _ (.refl _ _)

end Sweep

section Transmit

theorem sendSessionDataContext_recorded {cancelled immediateACK : Bool}
    (h : state.transmits entry cancelled immediateACK = true) :
    (fun slot => ((state.base.sendSessionDataContext entry.payload entry.retained cancelled
        immediateACK).session.slots slot).inUse) = state.inUse ∧
      (state.base.sendSessionDataContext entry.payload entry.retained cancelled
          immediateACK).session.sent =
        match entry.retained with
        | none => state.sent
        | some slot => state.sent.insert state.base.session.nextPacket slot := by
  rw [transmits, decide_eq_true_eq] at h
  obtain ⟨hcancelled, hopen, hnumber, hsealed⟩ := h
  rw [SendRun.sendSessionDataContext, if_neg hcancelled, if_neg hopen, if_neg hnumber]
  rcases state.base.sealNext_cases
    (ssu2DataHeader state.base.session.sendID state.base.session.nextPacket immediateACK)
    (padPayload entry.payload) with hseal | hseal
  · rw [hseal] at hsealed
    cases hsealed
  · dsimp only
    rw [hseal]
    dsimp only
    rw [if_neg (by decide)]
    cases entry.retained with
    | none => exact ⟨rfl, rfl⟩
    | some slot =>
      refine ⟨?_, rfl⟩
      rw [inUse_update]
      exact update_eq_self _ state.inUse

theorem sendSessionDataContext_abandoned {cancelled immediateACK : Bool}
    (h : state.transmits entry cancelled immediateACK = false) :
    (state.base.sendSessionDataContext entry.payload entry.retained cancelled
        immediateACK).session = state.base.session.releaseSendReservation entry.retained := by
  rw [transmits, decide_eq_false_iff_not] at h
  rw [SendRun.sendSessionDataContext]
  split
  · rfl
  next hcancelled =>
  split
  · rfl
  next hopen =>
  split
  · rfl
  next hnumber =>
  rcases state.base.sealNext_cases
    (ssu2DataHeader state.base.session.sendID state.base.session.nextPacket immediateACK)
    (padPayload entry.payload) with hseal | hseal
  · dsimp only
    rw [hseal]
    rfl
  · exact absurd ⟨hcancelled, hopen, hnumber, congrArg Prod.snd hseal⟩ h

variable (call : Nat)

@[simp] theorem packetMu_releaseSendReservation (entry : SendCall) (base : SendRun) :
    (state.releaseSendReservation call entry base).packetMu = state.packetMu := by
  unfold releaseSendReservation
  dsimp only
  split
  · split <;> rfl
  · rfl

theorem releaseSendReservation_moves {step : WindowStep} {base : SendRun} {packetMu : PacketMutex}
    (hlookup : state.calls.lookup call = some entry)
    (hbase : base.session = state.base.session.releaseSendReservation entry.retained)
    (hphase : entry.number = none ∨ step = .written call false)
    (hkeeps : state.packetMu.Keeps packetMu (some call)) :
    Moves state step
      { (state.releaseSendReservation call entry base).ledger with packetMu } := by
  unfold releaseSendReservation
  cases hretained : entry.retained with
  | none =>
    rw [hretained] at hbase
    refine (Moves.ended step call entry packetMu hlookup hretained hkeeps).of_eq
      (SendLedger.ext ?_ ?_ rfl rfl rfl rfl rfl rfl rfl rfl)
    · exact congrArg (fun session slot => (SendSession.slots session slot).inUse) hbase
    · exact congrArg SendSession.sent hbase
  | some slot =>
    rw [hretained] at hbase
    change base.session = if state.inUse slot = true then _ else _ at hbase
    dsimp only
    cases hused : state.inUse slot with
    | false =>
      rw [if_neg (Bool.eq_false_iff.mp hused)] at hbase
      refine (Moves.dropped step call entry slot packetMu hlookup hretained hused hphase
        hkeeps).of_eq (SendLedger.ext ?_ ?_ rfl rfl rfl rfl rfl rfl rfl rfl)
      · exact congrArg (fun session slot => (SendSession.slots session slot).inUse) hbase
      · exact congrArg SendSession.sent hbase
    | true =>
      rw [if_pos hused] at hbase
      refine (Moves.released step call entry slot packetMu hlookup hretained hused hphase
        hkeeps).of_eq (SendLedger.ext ?_ ?_ ?_ rfl rfl rfl rfl rfl rfl rfl)
      · refine (congrArg (fun session slot => (SendSession.slots session slot).inUse) hbase).trans ?_
        exact inUse_update _ _ _
      · exact congrArg SendSession.sent hbase
      · exact windowBytes_update _ _ _

theorem interrupt_moves : Moves state (.interrupt call) (state.interrupt call).ledger := by
  unfold interrupt
  split
  · exact .idle _ _ (.refl _ _)
  next entry hlookup =>
  split
  · exact .idle _ _ (.refl _ _)
  next hphase =>
  obtain ⟨hnumber, -⟩ := not_or.mp hphase
  refine (@releaseSendReservation_moves state entry call _
    (state.base.step (.release entry.retained)) state.packetMu hlookup rfl
    (Or.inl (Option.not_isSome_iff_eq_none.mp hnumber)) (.refl _ _)).of_eq ?_
  rw [← packetMu_releaseSendReservation _ _ (state.base.step (.release entry.retained))]
  rfl

theorem transmit_moves (cancelled : Bool) :
    Moves state (.transmit call cancelled) (state.transmit call cancelled).ledger := by
  unfold transmit
  split
  · exact .idle _ _ (.refl _ _)
  next entry hlookup =>
  split
  · exact .idle _ _ (.refl _ _)
  next hphase =>
  obtain ⟨hnumber, hmutex⟩ := not_or.mp hphase
  rw [Option.not_isSome_iff_eq_none] at hnumber
  rw [not_not] at hmutex
  dsimp only
  generalize (if entry.options.congestionControlled = true then
    state.window.shouldRequestImmediateACK else entry.options.requestImmediateACK) = immediateACK
  split
  next hfails =>
    rw [Bool.not_eq_true'] at hfails
    refine (@releaseSendReservation_moves state entry call _ _ state.packetMu hlookup
      (sendSessionDataContext_abandoned hfails) (Or.inl hnumber) (.refl _ _)).of_eq ?_
    rw [← packetMu_releaseSendReservation]
    rfl
  next hworks =>
    rw [Bool.not_eq_true', Bool.not_eq_false] at hworks
    obtain ⟨hused, hsent⟩ := sendSessionDataContext_recorded hworks
    refine (Moves.recorded call cancelled entry state.base.session.nextPacket hlookup hnumber
      hmutex).of_eq (SendLedger.ext hused hsent ?_ rfl rfl rfl rfl rfl rfl rfl)
    cases entry.retained with
    | none => rfl
    | some slot => exact windowBytes_update _ _ _

theorem written_moves (ok : Bool) :
    Moves state (.written call ok) (state.written call ok).ledger := by
  unfold written
  split
  · exact .idle _ _ (.refl _ _)
  next entry hlookup =>
  split
  · exact .idle _ _ (.refl _ _)
  next hmutex =>
  rw [not_not] at hmutex
  have hkeeps : state.packetMu.Keeps .free (some call) := by
    refine ⟨fun other hother hheld => ?_, nofun⟩
    rw [hmutex, PacketMutex.sender.injEq] at hheld
    exact absurd (congrArg some hheld) hother
  cases ok with
  | false =>
    exact @releaseSendReservation_moves state entry call _
      (state.base.step (.release entry.retained)) .free hlookup rfl (Or.inr rfl) hkeeps
  | true =>
    cases hcontrolled : entry.options.congestionControlled with
    | false => exact .finished call entry state.window.packetsTransmitted hlookup hmutex
    | true => exact .finished call entry (state.window.packetsTransmitted + 1) hlookup hmutex

end Transmit

theorem retransmit_session {number : UInt32} {immediateACK : Bool}
    (hlookup : state.sent.lookup number = some slot)
    (hlatest : (state.base.session.slots slot).latestPacket ≠ 0)
    (hnumber : number = (state.base.session.slots slot).latestPacket)
    (hattempts : ¬(state.base.session.slots slot).attempts ≥ ssu2MaxRetransmits)
    (hopen : ¬(state.base.session.closing ∨ state.base.session.send = .absent))
    (hnext : state.base.session.nextPacket ≠ 0) :
    (fun other => ((state.base.retransmit number immediateACK).session.slots other).inUse) =
        state.inUse ∧
      (state.base.retransmit number immediateACK).session.sent =
        if (state.base.sealNext (ssu2DataHeader state.base.session.sendID
            state.base.session.nextPacket immediateACK) (state.base.session.slots slot).payload).2
        then state.sent.insert state.base.session.nextPacket slot else state.sent := by
  change state.base.session.sent.lookup number = some slot at hlookup
  rw [SendRun.retransmit, hlookup]
  dsimp only
  rw [if_neg (not_or.mpr ⟨hlatest, not_not.mpr hnumber⟩), if_neg hattempts, if_neg hopen,
    if_neg hnext]
  rcases state.base.sealNext_cases
    (ssu2DataHeader state.base.session.sendID state.base.session.nextPacket immediateACK)
    (state.base.session.slots slot).payload with hseal | hseal
  · rw [hseal]
    exact ⟨rfl, rfl⟩
  · rw [hseal]
    dsimp only
    rw [if_neg (by decide)]
    refine ⟨?_, rfl⟩
    rw [inUse_update]
    exact update_eq_self _ state.inUse

theorem retransmitTurn_moves (number : UInt32) (due elapsed ok : Bool) :
    Moves state (.retransmitTurn number due elapsed ok)
      (state.retransmitTurn number due elapsed ok).ledger := by
  unfold retransmitTurn
  dsimp only
  split
  · exact .idle _ _ (.refl _ _)
  next slot hlookup =>
  split
  · exact .idle _ _ (.refl _ _)
  next htarget =>
  simp only [not_or, not_not] at htarget
  obtain ⟨hmutex, hlatest, hnumber, -⟩ := htarget
  split
  · exact .idle _ _ (.of_ne (by simp [hmutex]) (by simp) none)
  next hopen =>
  simp only [not_or] at hopen
  obtain ⟨hattempts, hclosing, habsent, hnext⟩ := hopen
  obtain ⟨hused, hsent⟩ := @retransmit_session state slot number
    (state.window.noteCongestion (state.slotWindows slot).fast elapsed
      (state.slotWindows slot).packetSize).shouldRequestImmediateACK hlookup hlatest hnumber
    hattempts (not_or.mpr ⟨hclosing, habsent⟩) hnext
  refine (Moves.retransmitted _ number state.base.session.nextPacket slot _
    (state.slotWindows slot).fast elapsed (state.slotWindows slot).packetSize _ hlookup
    hmutex ?_).of_eq (SendLedger.ext hused hsent ?_ rfl rfl rfl rfl rfl rfl rfl)
  · dsimp only [ledger]
    split <;> simp
  funext other
  dsimp only [ledger]
  split
  · by_cases hother : other = slot
    · subst hother
      rw [update_self]
    · rw [update_of_ne hother]
  · rfl

theorem growSentSlots_eq (state : WindowSession) (count : Nat) :
    ∃ added chunks, state.growSentSlots count =
      { state with
        sentSlots := state.sentSlots ++ List.range' state.nextSlot added
        sentChunks := chunks
        nextSlot := state.nextSlot + added } := by
  unfold growSentSlots
  dsimp only
  split
  · refine ⟨0, state.sentChunks, ?_⟩
    rw [range'_zero, append_nil]
    rfl
  · exact ⟨_, _, rfl⟩

theorem freeSlot_spec (h : state.freeSlot = some slot) :
    slot ∈ state.sentSlots ∧ state.inUse slot = false := by
  have hfree := find?_some h
  rw [Bool.not_eq_true'] at hfree
  exact ⟨mem_of_find?_eq_some h, hfree⟩

/-- `retainPayload` gives a free slot, of the session or of the ones it adds. -/
theorem retainPayload_spec {payload : Bytes} {grown : WindowSession}
    (h : state.retainPayload payload = some (slot, grown)) :
    payload.length ≤ maxIPv4PacketLen ∧ state.inUse slot = false ∧ slot ∈ grown.sentSlots ∧
      ∃ added chunks, grown =
        { state with
          sentSlots := state.sentSlots ++ List.range' state.nextSlot added
          sentChunks := chunks
          nextSlot := state.nextSlot + added } := by
  unfold retainPayload at h
  split at h
  · cases h
  next hlength =>
  refine ⟨Nat.le_of_not_lt hlength, ?_⟩
  split at h
  next found hfree =>
    cases h
    refine ⟨(freeSlot_spec hfree).2, (freeSlot_spec hfree).1, 0, state.sentChunks, ?_⟩
    rw [range'_zero, append_nil]
    rfl
  next hfull =>
    split at h
    · cases h
    obtain ⟨added, chunks, hgrown⟩ := state.growSentSlots_eq
      (max ssu2InitialTrackedPackets (state.sentSlots.length * 2))
    rw [hgrown] at h
    obtain ⟨found, hfree, heq⟩ := Option.map_eq_some_iff.mp h
    cases heq
    exact ⟨(freeSlot_spec hfree).2, (freeSlot_spec hfree).1, added, chunks, rfl⟩

theorem send_moves (payload : Bytes) (options : SendOptions) (ipv6 : Bool) :
    Moves state (.send payload options ipv6) (state.send payload options ipv6).ledger := by
  unfold send
  dsimp only
  split
  · exact .idle _ _ (.refl _ _)
  next hopen =>
  split
  · exact .idle _ _ (.refl _ _)
  next hroom =>
  rw [Bool.not_eq_true', Bool.not_eq_false] at hroom
  cases hreliable : options.reliable with
  | false =>
    have hcontrolled : options.congestionControlled = false := by
      cases hcontrolled : options.congestionControlled with
      | false => rfl
      | true => exact absurd (options.controlled_reliable hcontrolled) (by simp [hreliable])
    rw [hcontrolled]
    refine (Moves.unretained payload options ipv6 _ hreliable).of_eq
      (SendLedger.ext rfl rfl rfl rfl rfl rfl rfl rfl ?_ rfl)
    simp [ledger, SendWindow.reserve]
  | true =>
    rw [if_pos rfl]
    split
    · exact .idle _ _ (.refl _ _)
    next slot grown hretain =>
    have hpositive : 0 < ssu2NetworkPacketSize ipv6
        ((padPayload payload).length + shortHeaderLen + packetTagLen) := by
      rw [ssu2NetworkPacketSize]
      split <;> omega
    obtain ⟨hlength, hfree, -, added, chunks, hgrown⟩ := retainPayload_spec hretain
    refine (Moves.retained payload options ipv6 slot grown _ hretain hroom hpositive).of_eq ?_
    subst hgrown
    have hreserve : state.base.step (.reserve payload true slot) =
        { state.base with
          session :=
            { state.base.session with
              slots := update state.base.session.slots slot
                ⟨padPayload payload, 0, 0, true⟩ } } := by
      rw [SendRun.step, if_neg hopen, if_pos]
      exact ⟨rfl, hlength, by rw [Bool.not_eq_true']; exact hfree⟩
    refine SendLedger.ext ?_ ?_ ?_ rfl rfl rfl rfl rfl rfl rfl
    · exact (congrArg (fun base other => (SendSession.slots base.session other).inUse)
        hreserve).trans (inUse_update _ _ _)
    · exact congrArg (fun base => base.session.sent) hreserve
    · exact windowBytes_update _ _ _

theorem shrinkSentSlots_moves :
    Moves state .maintainSentCapacity state.shrinkSentSlots.ledger := by
  unfold shrinkSentSlots
  split
  · exact .idle _ _ (.refl _ _)
  split
  · exact .idle _ _ (.refl _ _)
  split
  · exact .idle _ _ (.refl _ _)
  · dsimp only
    split
    · exact .idle _ _ (.refl _ _)
    next hfree =>
    refine .shrunk _ fun slot hmem => ?_
    rw [any_eq_true, not_exists] at hfree
    exact Bool.eq_false_iff.mpr fun hused => hfree _ ⟨hmem, hused⟩

theorem sendSessionDataTo_session (base : SendRun) (payload : Bytes) :
    (base.sendSessionDataTo payload).session.slots = base.session.slots ∧
      (base.sendSessionDataTo payload).session.sent = base.session.sent := by
  rw [SendRun.sendSessionDataTo]
  split
  · exact ⟨rfl, rfl⟩
  rcases base.sealNext_cases ⟨base.session.sendID, base.session.nextPacket, .data, 0, 0⟩ payload
    with hseal | hseal
  · rw [hseal]
    exact ⟨rfl, rfl⟩
  · rw [hseal]
    exact ⟨rfl, rfl⟩

/-- Every step is one of the moves. -/
theorem step_moves (state : WindowSession) (step : WindowStep) :
    Moves state step (state.step step).ledger := by
  cases step with
  | send payload options ipv6 => exact send_moves _ _ _
  | interrupt call => exact interrupt_moves _
  | transmit call cancelled => exact transmit_moves _ _
  | written call ok => exact written_moves _ ok
  | sendTo payload =>
    dsimp only [WindowSession.step]
    split
    · exact .idle _ _ (.refl _ _)
    obtain ⟨hslots, hsent⟩ := sendSessionDataTo_session state.base _
    refine (Moves.idle (.sendTo payload) state.packetMu (.refl _ _)).of_eq
      (SendLedger.ext ?_ hsent rfl rfl rfl rfl rfl rfl rfl rfl)
    exact congrArg (fun slots other => (slots other : SentPacket).inUse) hslots
  | acknowledge ranges order random => exact acknowledge_moves _ _ _
  | retransmitBegin =>
    dsimp only [WindowSession.step]
    split
    · exact .idle _ _ (.refl _ _)
    next hmutex =>
    rw [not_not] at hmutex
    exact .idle _ _ (.of_ne (by simp [hmutex]) (by simp) none)
  | retransmitTurn number due elapsed ok => exact retransmitTurn_moves _ _ _ ok
  | retransmitEnd =>
    dsimp only [WindowSession.step]
    split
    · exact .idle _ _ (.refl _ _)
    next hmutex =>
    rw [not_not] at hmutex
    exact .idle _ _ (.of_ne (by simp [hmutex]) (by simp) none)
  | maintainSentCapacity => exact shrinkSentSlots_moves
  | remove => exact .idle _ _ (.refl _ _)
  | close => exact .idle _ _ (.refl _ _)

end WindowSession

end Ivnp.Ssu2
