import Ivnp.Ssu2.SendLedger

/-!
Whose slot a failed send releases. The slot of a send is free again as soon as its packet is
acknowledged, and the next reservation takes it, while the send still points to it until its
write has returned. As long as no reservation takes a slot that a send in progress points to,
a failed send releases its own slot or none, and the bytes of a payload are credited once.
-/

namespace Ivnp.Ssu2

open Ivnp.Lib Function WindowSession Table
open WindowSession (AckSweep)

/-- The slot that a reservation takes is not the one of a send in progress. -/
def WindowSession.TakesFree (state : WindowSession) : WindowStep → Prop
  | .send payload _ _ => ∀ taken ∈ state.retainPayload (padPayload payload),
      ∀ entry ∈ state.calls.entries, entry.2.retained ≠ some taken.1
  | _ => True

instance (state : WindowSession) : ∀ step, Decidable (state.TakesFree step)
  | .send _ _ _ => inferInstanceAs (Decidable (∀ taken ∈ _, ∀ entry ∈ state.calls.entries, _))
  | .interrupt _ | .transmit _ _ | .written _ _ | .sendTo _ | .acknowledge _ _ _ | .retransmitBegin
  | .retransmitTurn _ _ _ _ | .retransmitEnd | .maintainSentCapacity | .remove | .close =>
    .isTrue trivial

/-- The calls own the slots they point to, and the slots in use have owners of their own
whose bytes are still out. -/
structure Owned (ledger : SendLedger) : Prop where
  calls_known : ∀ call entry, ledger.calls.lookup call = some entry → call < ledger.nextCall
  slots_known : ∀ slot, ledger.inUse slot = true → ledger.history.owner slot < ledger.nextCall
  credited_known : ∀ call ∈ ledger.history.credited, call < ledger.nextCall
  owns : ∀ call entry slot, ledger.calls.lookup call = some entry → entry.retained = some slot →
    ledger.history.owner slot = call
  uncontrolled : ∀ call entry, ledger.calls.lookup call = some entry → entry.retained = none →
    entry.windowBytes = 0
  apart : ∀ slot other, ledger.inUse slot = true → ledger.inUse other = true →
    ledger.history.owner slot = ledger.history.owner other → slot = other
  uncredited : ∀ slot, ledger.inUse slot = true →
    ledger.history.owner slot ∉ ledger.history.credited
  once : ledger.history.credited.Nodup
  own : ∀ release ∈ ledger.history.releases, release.owner = release.call

theorem owned_start (sendID : UInt64) (largeMTU : Int) :
    Owned (WindowSession.start sendID largeMTU).ledger where
  calls_known := fun _ _ hlookup => absurd hlookup (Option.some_ne_none _).symm
  slots_known := fun _ hused => absurd hused Bool.false_ne_true
  credited_known := List.forall_mem_nil _
  owns := fun _ _ _ hlookup => absurd hlookup (Option.some_ne_none _).symm
  uncontrolled := fun _ _ hlookup => absurd hlookup (Option.some_ne_none _).symm
  apart := fun _ _ hused => absurd hused Bool.false_ne_true
  uncredited := fun _ hused => absurd hused Bool.false_ne_true
  once := List.nodup_nil
  own := List.forall_mem_nil _

variable {sweep : AckSweep}

section Sweep

variable {state : WindowSession} {ranges : List ACKRange} {random : UInt32 → Option UInt64}

structure SweepOwned (state : WindowSession) (sweep : AckSweep) : Prop where
  used : ∀ slot ∈ sweep.acknowledged, state.inUse slot = true
  credits : ∀ call ∈ sweep.credited, call ∈ state.history.credited ∨
    ∃ slot ∈ sweep.acknowledged, state.history.owner slot = call
  once : sweep.credited.Nodup

/-- The owner of a slot that is not marked yet is not credited yet. -/
theorem SweepOwned.notMem (h : SweepOwned state sweep)
    (howned : Owned state.ledger) {slot : Nat} (hused : state.inUse slot = true)
    (hnew : slot ∉ sweep.acknowledged) : state.history.owner slot ∉ sweep.credited := by
  intro hmem
  rcases h.credits _ hmem with hold | ⟨other, hother, heq⟩
  · exact howned.uncredited _ hused hold
  · exact hnew (howned.apart _ _ (h.used _ hother) hused heq ▸ hother)

theorem sweepPacket_owned (howned : Owned state.ledger) (h : SweepOwned state sweep)
    (number : UInt32) : SweepOwned state (state.sweepPacket ranges random sweep number) := by
  unfold sweepPacket
  split
  · exact h
  next slot hlookup =>
  split
  · exact h
  next htaken =>
  simp only [not_or, Bool.not_eq_true', Bool.not_eq_false] at htaken
  obtain ⟨hused, hnew, -⟩ := htaken
  have hmarked : ∀ other ∈ slot :: sweep.acknowledged, state.inUse other = true :=
    List.forall_mem_cons.mpr ⟨hused, h.used⟩
  have hcredits : ∀ call ∈ sweep.credited, call ∈ state.history.credited ∨
      ∃ other ∈ slot :: sweep.acknowledged, state.history.owner other = call := by
    intro call hmem
    rcases h.credits call hmem with hold | ⟨other, hother, heq⟩
    · exact Or.inl hold
    · exact Or.inr ⟨other, List.mem_cons_of_mem _ hother, heq⟩
  dsimp only
  split
  · refine ⟨hmarked, List.forall_mem_cons.mpr ⟨?_, hcredits⟩, ?_⟩
    · exact Or.inr ⟨slot, List.mem_cons_self, rfl⟩
    · exact List.nodup_cons.mpr ⟨h.notMem howned hused hnew, h.once⟩
  · exact ⟨hmarked, hcredits, h.once⟩

theorem sweep_owned (howned : Owned state.ledger) (ranges : List ACKRange) (order : List UInt32)
    (random : UInt32 → Option UInt64) : SweepOwned state (state.sweep ranges order random) := by
  have hstart : SweepOwned state ⟨state.window, [], state.history.credited⟩ :=
    ⟨nofun, fun _ => Or.inl, howned.once⟩
  exact run_preserves (I := SweepOwned state)
    (fun sweep number h => sweepPacket_owned howned h _) hstart _

end Sweep

section Step

variable {ledger other : SendLedger}

variable (h : Owned ledger)
include h

theorem Owned.congr (hinUse : other.inUse = ledger.inUse)
    (hcalls : other.calls = ledger.calls) (hnextCall : other.nextCall = ledger.nextCall)
    (hhistory : other.history = ledger.history) : Owned other := by
  obtain ⟨inUse, _, _, _, _, calls, nextCall, _, _, history⟩ := other
  subst hinUse hcalls hnextCall hhistory
  exact { h with }

theorem Owned.erase (call : Nat) : Owned { ledger with calls := ledger.calls.erase call } :=
  { h with
    calls_known := fun _ _ hlookup => h.calls_known _ _ (lookup_of_erase hlookup).2
    owns := fun _ _ _ hlookup => h.owns _ _ _ (lookup_of_erase hlookup).2
    uncontrolled := fun _ _ hlookup => h.uncontrolled _ _ (lookup_of_erase hlookup).2 }

theorem Owned.retain {slot : Nat} (hfree : ledger.inUse slot = false)
    (hunused : ∀ call entry, ledger.calls.lookup call = some entry → entry.retained ≠ some slot)
    {entry : SendCall} (hslot : entry.retained = some slot) :
    Owned { ledger with
      inUse := Function.update ledger.inUse slot true
      calls := ledger.calls.insert ledger.nextCall entry
      nextCall := ledger.nextCall + 1
      history := { ledger.history with
        owner := Function.update ledger.history.owner slot ledger.nextCall } } := by
  -- a slot in use is the new one, or an old one with its owner
  have hcases (other : Nat) (hused : update ledger.inUse slot true other = true) :
      other = slot ∧ update ledger.history.owner slot ledger.nextCall other =
          ledger.nextCall ∨
        other ≠ slot ∧ ledger.inUse other = true ∧
          update ledger.history.owner slot ledger.nextCall other =
            ledger.history.owner other := by
    by_cases hother : other = slot
    · subst hother
      exact Or.inl ⟨rfl, update_self _ _ _⟩
    · rw [update_of_ne hother] at hused
      exact Or.inr ⟨hother, hused, update_of_ne hother _ _⟩
  refine ⟨?_, ?_, ?_, ?_, ?_, ?_, ?_, h.once, h.own⟩
  · exact forall_lookup_insert (Nat.lt_succ_self _) fun call found hold =>
      Nat.lt_succ_of_lt (h.calls_known _ _ hold)
  · intro other hused
    change update ledger.history.owner slot ledger.nextCall other < ledger.nextCall + 1
    rcases hcases other hused with ⟨-, howner⟩ | ⟨-, hold, howner⟩
    · rw [howner]
      exact Nat.lt_succ_self _
    · rw [howner]
      exact Nat.lt_succ_of_lt (h.slots_known _ hold)
  · exact fun call hmem => Nat.lt_succ_of_lt (h.credited_known _ hmem)
  · intro call found other hlookup hretained
    rcases lookup_insert_cases hlookup with ⟨rfl, rfl⟩ | ⟨-, hold⟩
    · cases hslot.symm.trans hretained
      exact update_self _ _ _
    · have hother : other ≠ slot := fun heq => hunused _ _ hold (heq ▸ hretained)
      exact (update_of_ne hother _ _).trans (h.owns _ _ _ hold hretained)
  · exact forall_lookup_insert (fun hnone => nomatch hslot.symm.trans hnone) h.uncontrolled
  · intro left right hleft hright howner
    dsimp only at howner
    rcases hcases left hleft with ⟨hl, hlowner⟩ | ⟨-, hlused, hlowner⟩ <;>
      rcases hcases right hright with ⟨hr, hrowner⟩ | ⟨-, hrused, hrowner⟩ <;>
      rw [hlowner, hrowner] at howner
    · exact hl.trans hr.symm
    · exact absurd howner (h.slots_known _ hrused).ne'
    · exact absurd howner (h.slots_known _ hlused).ne
    · exact h.apart _ _ hlused hrused howner
  · intro other hused hmem
    change update ledger.history.owner slot ledger.nextCall other ∈ ledger.history.credited at hmem
    rcases hcases other hused with ⟨-, howner⟩ | ⟨-, hold, howner⟩
    · rw [howner] at hmem
      exact Nat.lt_irrefl _ (h.credited_known _ hmem)
    · rw [howner] at hmem
      exact h.uncredited _ hold hmem

theorem Owned.unretained {entry : SendCall} (hslot : entry.retained = none)
    (hzero : entry.windowBytes = 0) :
    Owned { ledger with
      calls := ledger.calls.insert ledger.nextCall entry
      nextCall := ledger.nextCall + 1 } :=
  { h with
    calls_known := forall_lookup_insert (Nat.lt_succ_self _) fun call found hold =>
      Nat.lt_succ_of_lt (h.calls_known call found hold)
    slots_known := fun slot hused => Nat.lt_succ_of_lt (h.slots_known slot hused)
    credited_known := fun call hmem => Nat.lt_succ_of_lt (h.credited_known call hmem)
    owns := fun call found slot => forall_lookup_insert
      (fun hretained => nomatch hslot.symm.trans hretained) (fun call found => h.owns call found slot)
      call found
    uncontrolled := forall_lookup_insert (fun _ => hzero) h.uncontrolled }

variable {entry : SendCall}

theorem Owned.release {call slot : Nat} (hlookup : ledger.calls.lookup call = some entry)
    (hslot : entry.retained = some slot) (hused : ledger.inUse slot = true) :
    Owned { ledger with
      inUse := Function.update ledger.inUse slot false
      calls := ledger.calls.erase call
      history := { ledger.history with
        releases := ⟨call, slot, ledger.history.owner slot⟩ :: ledger.history.releases
        credited := if entry.windowBytes ≠ 0 then call :: ledger.history.credited
          else ledger.history.credited } } := by
  have howner := h.owns _ _ _ hlookup hslot
  have hcall := howner ▸ h.uncredited _ hused
  have hcases (other : Nat) (hstill : update ledger.inUse slot false other = true) :
      other ≠ slot ∧ ledger.inUse other = true := by
    by_cases hother : other = slot
    · subst hother
      rw [update_self] at hstill
      cases hstill
    · rw [update_of_ne hother] at hstill
      exact ⟨hother, hstill⟩
  have hcredited (other : Nat) (hmem : other ∈ if entry.windowBytes ≠ 0 then
      call :: ledger.history.credited else ledger.history.credited) :
      other = call ∨ other ∈ ledger.history.credited := by
    split at hmem
    · exact List.mem_cons.mp hmem
    · exact Or.inr hmem
  refine ⟨(h.erase _).calls_known, fun other hstill => h.slots_known _ (hcases _ hstill).2,
    ?_, (h.erase _).owns, (h.erase _).uncontrolled, ?_, ?_, ?_, ?_⟩
  · intro other hmem
    rcases hcredited other hmem with rfl | hold
    · exact h.calls_known _ _ hlookup
    · exact h.credited_known _ hold
  · exact fun left right hleft hright => h.apart _ _ (hcases _ hleft).2 (hcases _ hright).2
  · intro other hstill hmem
    obtain ⟨hother, hold⟩ := hcases _ hstill
    rcases hcredited _ hmem with heq | hcredit
    · exact hother (h.apart _ _ hold hused (heq.trans howner.symm))
    · exact h.uncredited _ hold hcredit
  · split
    · exact List.nodup_cons.mpr ⟨hcall, h.once⟩
    · exact h.once
  · exact List.forall_mem_cons.mpr ⟨howner, h.own⟩

theorem Owned.record {call : Nat}
    (hlookup : ledger.calls.lookup call = some entry) (number : UInt32) :
    Owned { ledger with
      calls := ledger.calls.insert call { entry with number := some number } } :=
  { h with
    calls_known := forall_lookup_insert (h.calls_known _ _ hlookup) h.calls_known
    owns := fun other found slot => forall_lookup_insert (h.owns _ _ _ hlookup)
      (fun other found => h.owns other found slot) other found
    uncontrolled := forall_lookup_insert (h.uncontrolled _ entry hlookup) h.uncontrolled }

omit h

variable {state : WindowSession} {step : WindowStep}

/-- The slots of an acknowledgement are freed and their owners credited. -/
theorem Owned.acknowledge (h : Owned state.ledger) (hsweep : SweepOwned state sweep) :
    Owned { state.ledger with
      inUse := fun slot => state.inUse slot && decide (slot ∉ sweep.acknowledged)
      history := { state.history with credited := sweep.credited } } := by
  have hcases (slot : Nat) (hused : (state.inUse slot && decide (slot ∉ sweep.acknowledged)) = true) :
      state.inUse slot = true ∧ slot ∉ sweep.acknowledged := by
    rwa [Bool.and_eq_true, decide_eq_true_eq] at hused
  refine ⟨h.calls_known, fun slot hused => h.slots_known _ (hcases _ hused).1, ?_, h.owns,
    h.uncontrolled, ?_, ?_, hsweep.once, h.own⟩
  · intro call hmem
    rcases hsweep.credits call hmem with hold | ⟨slot, hslot, rfl⟩
    · exact h.credited_known _ hold
    · exact h.slots_known _ (hsweep.used _ hslot)
  · exact fun left right hleft hright => h.apart _ _ (hcases _ hleft).1 (hcases _ hright).1
  · intro slot hused
    exact hsweep.notMem h (hcases _ hused).1 (hcases _ hused).2

theorem Owned.moves (h : Owned state.ledger) (hfree : state.TakesFree step)
    (hmoves : Moves state step ledger) : Owned ledger := by
  cases hmoves with
  | idle step packetMu keeps => exact h.congr rfl rfl rfl rfl
  | shrunk count free => exact h.congr rfl rfl rfl rfl
  | retained payload options ipv6 slot grown packetSize retain room positive =>
    have hunused : ∀ call entry, state.calls.lookup call = some entry →
        entry.retained ≠ some slot := by
      intro call entry hlookup
      exact hfree (slot, grown) retain ⟨call, entry⟩ (AList.mem_lookup_iff.mp hlookup)
    exact (h.retain (retainPayload_spec retain).2.1 hunused rfl).congr rfl rfl rfl rfl
  | unretained payload options ipv6 packetSize unreliable =>
    exact (h.unretained rfl rfl).congr rfl rfl rfl rfl
  | released step call entry slot packetMu lookup slot_eq used phase keeps =>
    exact (h.release lookup slot_eq used).congr rfl rfl rfl rfl
  | dropped step call entry slot packetMu lookup slot_eq used phase keeps =>
    exact (h.erase _).congr rfl rfl rfl rfl
  | ended step call entry packetMu lookup slot_eq keeps =>
    have hzero := h.uncontrolled _ _ lookup slot_eq
    refine (h.erase _).congr rfl rfl rfl ?_
    rw [if_neg (not_not.mpr hzero)]
    rfl
  | recorded call cancelled entry number lookup phase mutex =>
    exact (h.record lookup _).congr rfl rfl rfl rfl
  | finished call entry packetsTransmitted lookup mutex => exact (h.erase _).congr rfl rfl rfl rfl
  | acknowledged ranges order random sent lookup =>
    exact (h.acknowledge (sweep_owned h _ _ _)).congr rfl rfl rfl rfl
  | retransmitted step number next slot sealed fast elapsed packetSize packetMu lookup mutex keeps =>
    exact h.congr rfl rfl rfl rfl

end Step

section Main

variable {sendID : UInt64} {largeMTU : Int} {steps : List WindowStep}

theorem owned_after (h : Along WindowSession.step WindowSession.TakesFree
    (.start sendID largeMTU) steps) : Owned (WindowSession.after sendID largeMTU steps).ledger := by
  apply run_invariant (I := fun state => Owned (ledger state)) _
    (owned_start _ _) h
  intro state step hfree howned
  exact howned.moves hfree (state.step_moves _)

/-- A failed send releases its own reservation or none, and the bytes of every payload are
credited at most once, in every run whose reservations take no slot of a send in progress. -/
theorem release_only_own (h : Along WindowSession.step WindowSession.TakesFree
    (.start sendID largeMTU) steps) :
    (∀ release ∈ (WindowSession.after sendID largeMTU steps).history.releases,
        release.owner = release.call) ∧
      (WindowSession.after sendID largeMTU steps).history.credited.Nodup :=
  ⟨(owned_after h).own, (owned_after h).once⟩

end Main

/-- `sendData` of eight bytes. -/
def fixedSend : WindowStep := .send (List.replicate 8 1) .data false

/-- The first packet is acknowledged before its write returns an error. -/
def acknowledgedFirst : List WindowStep :=
  [fixedSend, .transmit 0 false, .acknowledge [⟨1, 1⟩] [1] fun _ => none, .written 0 false]

theorem release_only_own_acknowledged :
    (WindowSession.after 7 1500 acknowledgedFirst).history.credited = [0] ∧
    (∀ release ∈ (WindowSession.after 7 1500 acknowledgedFirst).history.releases,
        release.owner = release.call) ∧
      (WindowSession.after 7 1500 acknowledgedFirst).history.credited.Nodup :=
  ⟨by decide +kernel, release_only_own (by decide +kernel)⟩

/-- The first packet is acknowledged and its slot reserved by a second send before the write
of the first returns an error: the slot of the second is released and the bytes of the first
are credited twice. -/
theorem releases_other_and_credits_twice :
    (WindowSession.after 7 1500 [fixedSend, .transmit 0 false,
        .acknowledge [⟨1, 1⟩] [1] fun _ => none, fixedSend, .written 0 false]).history.releases =
      [⟨0, 0, 1⟩] ∧
    (WindowSession.after 7 1500 [fixedSend, .transmit 0 false,
        .acknowledge [⟨1, 1⟩] [1] fun _ => none, fixedSend, .written 0 false]).history.credited =
      [0, 0] := by
  decide +kernel

end Ivnp.Ssu2
