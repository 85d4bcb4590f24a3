import Ivnp.Lib.Words
import Ivnp.Ssu2.SendSession

/-!
No packet number, and so no nonce, is sealed twice on a session. A critical
section either leaves the numbering alone or seals one payload under the
current number and moves on (`Numbered`); over a run every sealed number lies
below the counter until the counter has wrapped to 0, where it stays.
-/

namespace Ivnp.Ssu2

open Ivnp.Lib

namespace SendSession

variable (session : SendSession)

@[simp] theorem nextPacket_releaseSlot (slot : Nat) :
    (session.releaseSlot slot).nextPacket = session.nextPacket := rfl

@[simp] theorem nextPacket_releaseSendReservation (retained : Option Nat) :
    (session.releaseSendReservation retained).nextPacket = session.nextPacket := by
  cases retained with
  | none => rfl
  | some slot =>
    rw [releaseSendReservation]
    split <;> rfl

theorem nextPacket_foldl_releaseSlot (entries : List (Sigma fun _ : UInt32 => Nat))
    (session : SendSession) :
    (entries.foldl (fun session entry => session.releaseSlot entry.2) session).nextPacket =
      session.nextPacket := by
  induction entries generalizing session with
  | nil => rfl
  | cons entry entries ih => rw [List.foldl_cons, ih, nextPacket_releaseSlot]

@[simp] theorem nextPacket_acknowledge (ranges : List ACKRange) :
    (session.acknowledge ranges).nextPacket = session.nextPacket :=
  nextPacket_foldl_releaseSlot _ _

end SendSession

theorem packetNonce_injective : Function.Injective packetNonce := by
  intro left right h
  have hbytes := List.reverse_injective (List.append_cancel_left h)
  have hnat := congrArg beNat hbytes
  rw [beNat_natBE_of_lt, beNat_natBE_of_lt] at hnat
  · exact UInt32.toNat_inj.mp hnat
  all_goals exact lt_of_lt_of_le (UInt32.toNat_lt _) (by decide)

namespace SendRun

/-- What a critical section can do to the numbering: nothing, or seal one
payload under the current number, which is not 0, and move on. -/
inductive Numbered (run : SendRun) : SendRun → Prop
  | kept (next : SendRun) (hnext : next.session.nextPacket = run.session.nextPacket)
      (hsealed : next.sealed = run.sealed) : Numbered run next
  | advanced (next : SendRun) (payload : Bytes) (hopen : run.session.nextPacket ≠ 0)
      (hnext : next.session.nextPacket = run.session.nextPacket + 1)
      (hsealed : next.sealed =
        ⟨run.session.nextPacket, packetNonce run.session.nextPacket, payload⟩ :: run.sealed) :
      Numbered run next

/-- A packet long enough for `SealDataTo` is long enough for the header
protection, so the AEAD never runs without a packet. -/
theorem sealDataTo_ne_unprotected (cipher : DataCipher) (capacity : Nat) (header : ShortHeader)
    (plaintext : Bytes) : sealDataTo cipher capacity header plaintext ≠ .unprotected := by
  rw [sealDataTo]
  split
  · simp
  split
  · simp
  next hshort =>
  split
  · simp
  next hlong =>
  split
  · simp
  have hprotect : protectHeader (shortHeaderLen + plaintext.length + packetTagLen) 0 = true := by
    have hheader : shortHeaderLen = 16 := rfl
    have htag : packetTagLen = 16 := rfl
    have hmin : minPacketLen = 40 := rfl
    rw [protectHeader, decide_eq_true_eq]
    refine ⟨?_, Or.inl rfl, ?_⟩ <;> omega
  rw [if_pos hprotect]
  simp

theorem sealNext_cases (run : SendRun) (header : ShortHeader) (payload : Bytes) :
    run.sealNext header payload = (run, false) ∨
      run.sealNext header payload =
        (⟨{ run.session with nextPacket := run.session.nextPacket + 1 },
          ⟨header.packetNumber, packetNonce header.packetNumber, payload⟩ :: run.sealed⟩, true) := by
  rw [sealNext]
  cases h : sealDataTo run.session.send maxIPv4PacketLen header payload with
  | refused => exact Or.inl rfl
  | unprotected => exact absurd h (sealDataTo_ne_unprotected _ _ _ _)
  | packet => exact Or.inr rfl

theorem sealNext_numbered (run : SendRun) (header : ShortHeader) (payload : Bytes)
    (hheader : header.packetNumber = run.session.nextPacket) (hopen : run.session.nextPacket ≠ 0) :
    Numbered run (run.sealNext header payload).1 := by
  rcases run.sealNext_cases header payload with h | h
  · rw [h]
    exact .kept _ rfl rfl
  · rw [h, hheader]
    exact .advanced _ payload hopen rfl rfl

theorem Numbered.congr {run next other : SendRun} (h : Numbered run next)
    (hnext : other.session.nextPacket = next.session.nextPacket)
    (hsealed : other.sealed = next.sealed) : Numbered run other := by
  cases h with
  | kept h₁ h₂ => exact .kept _ (hnext.trans h₁) (hsealed.trans h₂)
  | advanced payload hopen h₁ h₂ =>
    exact .advanced _ payload hopen (hnext.trans h₁) (hsealed.trans h₂)

theorem sendSessionDataContext_numbered (run : SendRun) (payload : Bytes) (retained : Option Nat)
    (cancelled immediateACK : Bool) :
    Numbered run (run.sendSessionDataContext payload retained cancelled immediateACK) := by
  have abandoned :
      Numbered run { run with session := run.session.releaseSendReservation retained } :=
    .kept _ (by simp) rfl
  rw [sendSessionDataContext]
  split
  · exact abandoned
  split
  · exact abandoned
  split
  · exact abandoned
  next hopen =>
  have hseal := sealNext_numbered _
    (ssu2DataHeader run.session.sendID run.session.nextPacket immediateACK)
    (padPayload payload) rfl hopen
  dsimp only
  split
  · exact hseal.congr (by simp) rfl
  split
  · exact hseal
  · exact hseal.congr rfl rfl

theorem sendSessionDataTo_numbered (run : SendRun) (payload : Bytes) :
    Numbered run (run.sendSessionDataTo payload) := by
  rw [sendSessionDataTo]
  split
  · exact .kept _ rfl rfl
  next h =>
  exact sealNext_numbered _ _ _ rfl (by tauto)

theorem retransmit_numbered (run : SendRun) (number : UInt32) (immediateACK : Bool) :
    Numbered run (run.retransmit number immediateACK) := by
  have unchanged : Numbered run run := .kept _ rfl rfl
  rw [retransmit]
  split
  · exact unchanged
  next slot _ =>
  dsimp only
  split
  · exact unchanged
  split
  · exact unchanged
  split
  · exact unchanged
  split
  · exact unchanged
  next hopen =>
  have hseal := sealNext_numbered run
    (ssu2DataHeader run.session.sendID run.session.nextPacket immediateACK)
    (run.session.slots slot).payload rfl hopen
  split
  · exact hseal
  · exact hseal.congr rfl rfl

theorem step_numbered (run : SendRun) (step : SendStep) : Numbered run (run.step step) := by
  cases step with
  | reserve payload capacity slot =>
    rw [SendRun.step]
    split
    · exact .kept _ rfl rfl
    split
    · exact .kept _ rfl rfl
    · exact .kept _ rfl rfl
  | sendContext payload retained cancelled immediateACK =>
    exact sendSessionDataContext_numbered _ _ _ _ _
  | release retained => exact .kept _ (by simp [SendRun.step]) rfl
  | sendTo payload => exact sendSessionDataTo_numbered _ _
  | retransmit number immediateACK => exact retransmit_numbered _ _ _
  | acknowledge ranges => exact .kept _ (by simp [SendRun.step]) rfl
  | remove => exact .kept _ rfl rfl
  | close => exact .kept _ rfl rfl
  | releaseSensitive => exact .kept _ rfl rfl

/-- The numbers sealed so far, each with its own nonce, lie below the counter
or the counter has wrapped. -/
structure Fresh (run : SendRun) : Prop where
  nodup : (run.sealed.map (·.packetNumber)).Nodup
  nonce : ∀ packet ∈ run.sealed, packet.nonce = packetNonce packet.packetNumber
  below : run.session.nextPacket ≠ 0 →
    ∀ packet ∈ run.sealed, packet.packetNumber < run.session.nextPacket

theorem Fresh.numbered {run next : SendRun} (hfresh : Fresh run) (h : Numbered run next) :
    Fresh next := by
  cases h with
  | kept hnext hsealed =>
    refine ⟨?_, ?_, ?_⟩
    · rw [hsealed]
      exact hfresh.nodup
    · rw [hsealed]
      exact hfresh.nonce
    · rw [hsealed, hnext]
      exact hfresh.below
  | advanced payload hopen hnext hsealed =>
    have below := hfresh.below hopen
    refine ⟨?_, ?_, ?_⟩
    · rw [hsealed, List.map_cons, List.nodup_cons]
      refine ⟨?_, hfresh.nodup⟩
      intro hmem
      obtain ⟨packet, hpacket, heq⟩ := List.mem_map.mp hmem
      exact absurd heq (UInt32.ne_of_lt (below packet hpacket))
    · rw [hsealed]
      intro packet hpacket
      rcases List.mem_cons.mp hpacket with rfl | hpacket
      · rfl
      · exact hfresh.nonce _ hpacket
    · rw [hsealed, hnext]
      intro hnext packet hpacket
      have hsucc := lt_add_one_of_ne_zero hnext
      rcases List.mem_cons.mp hpacket with rfl | hpacket
      · exact hsucc
      · exact UInt32.lt_trans (below packet hpacket) hsucc

theorem fresh_after (sendID : UInt64) (steps : List SendStep) : Fresh (after sendID steps) := by
  refine run_preserves ?_ ?_ _
  · intro run step hfresh
    exact hfresh.numbered (step_numbered _ _)
  · exact ⟨List.nodup_nil, by simp [start], by simp [start]⟩

/-- A wrapped counter stays at 0 and seals nothing more. -/
theorem exhausted_run {first : SendRun} (hexhausted : first.session.nextPacket = 0)
    (steps : List SendStep) :
    (run step first steps).session.nextPacket = 0 ∧ (run step first steps).sealed = first.sealed := by
  refine run_preserves
    (I := fun run : SendRun => run.session.nextPacket = 0 ∧ run.sealed = first.sealed)
    ?_ ⟨hexhausted, rfl⟩ _
  rintro run step ⟨hzero, hsealed⟩
  cases step_numbered run step with
  | kept hnext hkept => exact ⟨hnext.trans hzero, hkept.trans hsealed⟩
  | advanced payload hopen => exact absurd hzero hopen

/-- Over every interleaving no two seals of a session use the same packet
number or the same nonce, and once the counter has wrapped to 0 no further
interleaving seals anything. -/
theorem sealed_nodup (sendID : UInt64) (steps : List SendStep) :
    ((after sendID steps).sealed.map (·.packetNumber)).Nodup ∧
      ((after sendID steps).sealed.map (·.nonce)).Nodup ∧
        ((after sendID steps).session.nextPacket = 0 →
          ∀ more, (after sendID (steps ++ more)).sealed = (after sendID steps).sealed) := by
  have hfresh := fresh_after sendID steps
  refine ⟨hfresh.nodup, ?_, ?_⟩
  · have hnonce : (after sendID steps).sealed.map (·.nonce) =
        ((after sendID steps).sealed.map (·.packetNumber)).map packetNonce := by
      rw [List.map_map]
      exact List.map_congr_left hfresh.nonce
    rw [hnonce]
    exact hfresh.nodup.map packetNonce_injective
  · intro hexhausted more
    rw [after, run_append]
    exact (exhausted_run hexhausted _).2

end SendRun

end Ivnp.Ssu2
