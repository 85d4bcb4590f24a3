import Ivnp.Garlic.RatchetReceive
import Ivnp.Lib.Replay

/-!
Replays of New Session packets over whole runs of one ratchet manager. An
entry of the replay table lasts five minutes from the receipt of the packet,
while the packet is accepted until five minutes after its own timestamp, which
counts whole seconds and may lie two minutes ahead. An entry therefore covers
its packet only if the second of the timestamp was over at the receipt.
-/

namespace Ivnp.Garlic

open Ivnp.Lib UInt64

/-- What can happen to a manager. Every operation but `RetirePeer` runs
`checkLocked` first. -/
inductive RatchetEvent (Op : Type) where
  | receive (packet : Bytes) (replyCreated : Bool)
  | session (op : Op)
  | retire (op : Op)
  | release

structure RatchetStep (Op : Type) where
  now : UInt64
  event : RatchetEvent Op

/-- A manager, the time of its last step and the New Session packets it has
handed out, latest first. -/
structure RatchetRun (S : Type) where
  manager : RatchetManager S
  clock : UInt64
  accepted : List Bytes

section Run

variable {S Op : Type} (setup : RatchetSetup S Op)

def handedOut (packet : Bytes) : Except RatchetError RatchetManager.Received → List Bytes
  | .ok (.newSession _) => [packet]
  | _ => []

namespace RatchetRun

def step (run : RatchetRun S) (input : RatchetStep Op) : RatchetRun S :=
  match input.event with
  | .receive packet replyCreated =>
    let result := run.manager.receive setup packet replyCreated input.now
    ⟨result.1, input.now, handedOut packet result.2 ++ run.accepted⟩
  | .session op =>
    match run.manager.check setup input.now with
    | .error _ => ⟨run.manager, input.now, run.accepted⟩
    | .ok manager =>
      ⟨manager.absorb (setup.layer.perform manager.sessions op input.now), input.now,
        run.accepted⟩
  | .retire op =>
    ⟨run.manager.absorb (setup.layer.perform run.manager.sessions op input.now), input.now,
      run.accepted⟩
  | .release => ⟨{ run.manager with closed := true }, input.now, run.accepted⟩

/-- A new manager with its sessions in the given state. -/
def start (sessions : S) : RatchetRun S := ⟨⟨false, sessions, ∅, 0xFFFFFFFFFFFFFFFF, false⟩, 0, []⟩

end RatchetRun

def StampAccepted (packet : Bytes) (now : UInt64) : Prop :=
  ∃ session application, RatchetManager.authenticate setup packet = some session ∧
    validateNewPayload session.payload now = .ok application

def StampOver (packet : Bytes) (now : UInt64) : Prop :=
  ∀ session, RatchetManager.authenticate setup packet = some session →
    1000 * (newPayloadTimestamp session.payload).toNat + 999 ≤ now.toNat

/-- A packet whose timestamp is accepted arrives after the second it is
stamped with. -/
def RatchetStep.Timely (input : RatchetStep Op) : Prop :=
  match input.event with
  | .receive packet _ => StampAccepted setup packet input.now → StampOver setup packet input.now
  | _ => True

end Run

theorem newPayloadTimestamp_lt (payload : Bytes) :
    (newPayloadTimestamp payload).toNat < 2 ^ 32 := by
  have hlt : beNat ((payload.drop 3).take 4) < 256 ^ 4 :=
    Nat.lt_of_lt_of_le (beNat_lt _) (Nat.pow_le_pow_right (by decide) (List.length_take_le _ _))
  rw [newPayloadTimestamp, toNat_ofNat']
  omega

/-- An accepted payload is at most five minutes and a second older than its
timestamp. -/
theorem validateNewPayload_now_le {payload application : Bytes} {now : UInt64}
    (h : validateNewPayload payload now = .ok application) :
    now.toNat ≤ 1000 * (newPayloadTimestamp payload).toNat + 300999 := by
  rw [validateNewPayload] at h
  split at h
  · cases h
  dsimp only at h
  split at h
  · cases h
  next hwindow =>
  have hstamp := newPayloadTimestamp_lt payload
  have hpast : (newPayloadTimestamp payload + 300).toNat =
      (newPayloadTimestamp payload).toNat + 300 := by
    rw [UInt64.toNat_add, show (300 : UInt64).toNat = 300 from rfl]
    exact Nat.mod_eq_of_lt (by omega)
  rw [not_or, UInt64.not_lt, UInt64.le_iff_toNat_le, UInt64.toNat_div,
    show (1000 : UInt64).toNat = 1000 from rfl] at hwindow
  omega

variable {packet : Bytes}

/-- An entry made after the second of the timestamp outlives the packet. -/
theorem replay_entry_outlives {S Op : Type} {setup : RatchetSetup S Op}
    (hlife : setup.config.replayLifetime = defaultReplayLife) {now : UInt64}
    (haccepted : StampAccepted setup packet now) (hover : StampOver setup packet now)
    (later : UInt64) (hlater : StampAccepted setup packet later) :
    expiryPassed (now + setup.config.replayLifetime) later = false := by
  obtain ⟨session, application, hauth, hvalid⟩ := haccepted
  obtain ⟨session', application', hauth', hvalid'⟩ := hlater
  obtain rfl := Option.some.inj (hauth'.symm.trans hauth)
  have hnow := validateNewPayload_now_le hvalid
  have hlast := validateNewPayload_now_le hvalid'
  have hstamp := newPayloadTimestamp_lt session'.payload
  have hsecond := hover _ hauth
  have hexpiry : (now + setup.config.replayLifetime).toNat = now.toNat + 300000 := by
    rw [hlife, UInt64.toNat_add, show defaultReplayLife.toNat = 300000 from rfl]
    exact Nat.mod_eq_of_lt (by omega)
  rw [expiryPassed, decide_eq_false_iff_not, lt_iff_toNat_lt]
  omega

section Replays

variable {S Op : Type} {setup : RatchetSetup S Op} {manager : RatchetManager S} {now : UInt64}

@[simp] theorem noteExpiry_replays (manager : RatchetManager S) (expires : UInt64) :
    (manager.noteExpiry expires).replays = manager.replays := by
  rw [RatchetManager.noteExpiry]
  split <;> rfl

@[simp] theorem absorb_replays (manager : RatchetManager S) (result : LayerResult S) :
    (manager.absorb result).replays = manager.replays := by
  rw [RatchetManager.absorb]
  generalize hstart : ({ manager with sessions := _, hasTerminated := _ } : RatchetManager S) = m
  have hm : m.replays = manager.replays := by rw [← hstart]
  rw [← hm]
  clear hstart hm
  induction result.notes generalizing m with
  | nil => rfl
  | cons expires rest ih => rw [List.foldl_cons, ih, noteExpiry_replays]

variable {next : RatchetManager S} {packets : List Bytes}

theorem check_replays (h : manager.check setup now = .ok next) :
    next.replays = manager.replays ∨ next.replays = manager.replays.prune expiryPassed now := by
  rw [RatchetManager.check] at h
  split at h
  · cases h
  split at h
  · cases h
    exact Or.inl rfl
  · cases h
    exact Or.inr rfl

/-- A New Session is refused without a trace, or handed out with an entry under
a key that had none alive. -/
theorem receiveNew_cases (packet : Bytes) (replyCreated : Bool) :
    (∃ error, manager.receiveNew setup packet replyCreated now = (manager, .error error)) ∨
      (∃ application, (manager.receiveNew setup packet replyCreated now).2 = .ok application ∧
        StampAccepted setup packet now ∧
        Free expiryPassed manager.replays now (FixedBytes.copy 32 packet) ∧
        (manager.receiveNew setup packet replyCreated now).1.replays =
          manager.replays.insert (FixedBytes.copy 32 packet)
            (now + setup.config.replayLifetime)) := by
  rw [RatchetManager.receiveNew]
  split
  · exact Or.inl ⟨_, rfl⟩
  dsimp only
  split
  · exact Or.inl ⟨_, rfl⟩
  next hduplicate =>
  split
  · exact Or.inl ⟨_, rfl⟩
  next session hauth =>
  split
  · exact Or.inl ⟨_, rfl⟩
  next application hvalid =>
  split
  · exact Or.inl ⟨_, rfl⟩
  refine Or.inr ⟨application, rfl, ⟨session, application, hauth, hvalid⟩, ?_, by simp⟩
  intro expiry hlookup
  rw [hlookup, Option.any_some, decide_eq_true_eq, UInt64.not_le] at hduplicate
  exact decide_eq_true hduplicate

abbrev ReplayCovered (setup : RatchetSetup S Op) (replays : Table Ephemeral UInt64) (now : UInt64)
    (packets : List Bytes) : Prop :=
  Covered (FixedBytes.copy 32) (StampAccepted setup) expiryPassed replays now packets

theorem check_covered (h : manager.check setup now = .ok next)
    (hcovered : ReplayCovered setup manager.replays now packets) :
    ReplayCovered setup next.replays now packets := by
  rcases check_replays h with heq | heq
  · rw [heq]
    exact hcovered
  · rw [heq]
    exact hcovered.prune

/-- One call of `Receive` keeps the packets handed out covered and hands out
none a second time. -/
theorem receive_covered (hlife : setup.config.replayLifetime = defaultReplayLife) (replyCreated : Bool)
    (htimely : StampAccepted setup packet now → StampOver setup packet now) (hcovered : ReplayCovered setup manager.replays now packets) :
    ReplayCovered setup (manager.receive setup packet replyCreated now).1.replays now
        (handedOut packet (manager.receive setup packet replyCreated now).2 ++ packets) ∧
      (handedOut packet (manager.receive setup packet replyCreated now).2 = [] ∨
        packet ∉ packets) := by
  rw [RatchetManager.receive]
  split
  · exact ⟨hcovered, Or.inl rfl⟩
  next next hcheck =>
  have hnext := check_covered hcheck hcovered
  split
  · exact ⟨hnext, Or.inl rfl⟩
  dsimp only
  split
  · rw [absorb_replays]
    exact ⟨hnext, Or.inl rfl⟩
  split
  · rw [absorb_replays]
    exact ⟨hnext, Or.inl rfl⟩
  obtain ⟨error, hrefused⟩ | ⟨application, hresult, haccepted, hfree, hreplays⟩ :=
    receiveNew_cases _ _
  · rw [hrefused]
    exact ⟨hnext, Or.inl rfl⟩
  · rw [hresult, hreplays]
    exact ⟨hnext.cons hfree (replay_entry_outlives hlife haccepted (htimely haccepted)),
      Or.inr (hnext.notMem haccepted hfree)⟩

end Replays

namespace RatchetRun

variable {S Op : Type} {setup : RatchetSetup S Op}

/-- No packet was handed out twice, and every packet handed out is covered. -/
structure Invariant (setup : RatchetSetup S Op) (run : RatchetRun S) : Prop where
  nodup : run.accepted.Nodup
  covered : ReplayCovered setup run.manager.replays run.clock run.accepted

theorem step_invariant (hlife : setup.config.replayLifetime = defaultReplayLife)
    {run : RatchetRun S} {input : RatchetStep Op} (h : run.Invariant setup)
    (hclock : run.clock ≤ input.now) (htimely : input.Timely setup) :
    (run.step setup input).Invariant setup := by
  obtain ⟨now, event⟩ := input
  have hcovered : ReplayCovered setup run.manager.replays now run.accepted := by
    refine h.covered.mono fun expiry hpassed => ?_
    rw [expiryPassed, decide_eq_true_eq] at hpassed ⊢
    exact UInt64.lt_of_lt_of_le hpassed hclock
  cases event with
  | receive packet replyCreated =>
    obtain ⟨hnext, hnew⟩ := receive_covered hlife _ htimely hcovered
    refine ⟨?_, hnext⟩
    rcases hnew with hnone | hfresh
    · simpa [step, hnone] using h.nodup
    · rw [step]
      dsimp only
      cases hreceived : (run.manager.receive setup packet replyCreated now).2 with
      | error error => exact h.nodup
      | ok received =>
        cases received with
        | session => exact h.nodup
        | newSession application => exact List.nodup_cons.mpr ⟨hfresh, h.nodup⟩
  | session op =>
    rw [step]
    dsimp only
    split
    · exact ⟨h.nodup, hcovered⟩
    next manager hcheck =>
      refine ⟨h.nodup, ?_⟩
      rw [absorb_replays]
      exact check_covered hcheck hcovered
  | retire op =>
    refine ⟨h.nodup, ?_⟩
    simp only [step, absorb_replays]
    exact hcovered
  | release => exact ⟨h.nodup, hcovered⟩

theorem normalize_replayLifetime {cryptoTypes : List UInt16} {config : RatchetConfig}
    (h : RatchetConfig.normalize ⟨cryptoTypes, 0⟩ = .ok config) :
    config.replayLifetime = defaultReplayLife := by
  rw [RatchetConfig.normalize] at h
  generalize (if cryptoTypes = [] then [7, 6, 4] else cryptoTypes) = types at h
  split at h
  · cases h
  · cases h
    rfl

/-- With the default replay lifetime no New Session packet is handed out
twice, over every run with a nondecreasing clock, while every packet with an
acceptable timestamp arrives after the second it is stamped with. -/
theorem accepted_once (setup : RatchetSetup S Op) (cryptoTypes : List UInt16)
    (hdefault : RatchetConfig.normalize ⟨cryptoTypes, 0⟩ = .ok setup.config) (sessions : S)
    (steps : List (RatchetStep Op)) (hclock : steps.Pairwise fun a b => a.now ≤ b.now)
    (htimely : ∀ input ∈ steps, input.Timely setup) :
    (run (step setup) (start sessions) steps).accepted.Nodup := by
  have halong : Along (step setup)
      (fun run input => run.clock ≤ input.now ∧ input.Timely setup) (start sessions) steps := by
    refine Along.and (along_clock ?_ hclock ?_) (along_of_forall htimely _)
    · rintro run ⟨now, event⟩
      cases event with
      | session op =>
        rw [step]
        dsimp only
        split <;> rfl
      | _ => rfl
    · intro input _
      exact le_iff_toNat_le.mpr (Nat.zero_le _)
  refine (run_invariant (I := Invariant setup) ?_ ?_ halong).nodup
  · intro run input hinput h
    exact step_invariant (normalize_replayLifetime hdefault) h hinput.1 hinput.2
  · exact ⟨List.nodup_nil, Covered.nil⟩

def plainSetup : RatchetSetup Unit Unit where
  config := ⟨[7, 6, 4], defaultReplayLife⟩
  layer :=
    { hasInbound := fun _ _ => false
      hasPending := fun _ _ => false
      sweep := fun _ _ => ((), 0xFFFFFFFFFFFFFFFF)
      receiveExisting := fun _ _ _ => ⟨(), [], false⟩
      receiveReply := fun _ _ _ => ⟨(), [], false⟩
      perform := fun _ _ _ => ⟨(), [], false⟩ }
  parseNewSession cryptoType packet := if cryptoType = 4 then some ⟨packet.drop 32, false⟩ else none

/-- An unbound New Session stamped with second 1800000000. -/
def plainPacket : Bytes := List.replicate 32 1 ++ [0, 0, 4] ++ natBE 4 1800000000 ++ [11, 0, 0]

/-- A packet stamped with the second before its arrival, received again until
the end of its window. -/
theorem accepted_once_plain :
    (run (step plainSetup) (start ())
      [⟨1800000000999, .receive plainPacket true⟩, ⟨1800000200000, .session ()⟩,
        ⟨1800000300999, .receive plainPacket true⟩]).accepted.Nodup := by
  have hpacket (now : UInt64) (hnow : 1800000000999 ≤ now.toNat) :
      StampOver plainSetup plainPacket now := by
    intro session hauth
    have hstamp : (RatchetManager.authenticate plainSetup plainPacket).map
        (fun session => (newPayloadTimestamp session.payload).toNat) = some 1800000000 := by
      decide +kernel
    rw [hauth] at hstamp
    have heq : (newPayloadTimestamp session.payload).toNat = 1800000000 := Option.some.inj hstamp
    omega
  refine accepted_once _ [] rfl () _ (by decide) ?_
  intro input hmem
  simp only [List.mem_cons, List.not_mem_nil, or_false] at hmem
  rcases hmem with rfl | rfl | rfl
  · exact fun _ => hpacket _ (by decide)
  · trivial
  · exact fun _ => hpacket _ (by decide)

/-- A packet received half a second into the second it is stamped with: its
entry has died five minutes and a millisecond later, and it is accepted again. -/
theorem accepted_twice_plain :
    [⟨1800000000500, .receive plainPacket true⟩,
        (⟨1800000300501, .receive plainPacket true⟩ : RatchetStep Unit)].Pairwise
          (fun a b => a.now ≤ b.now) ∧
      (run (step plainSetup) (start ()) [⟨1800000000500, .receive plainPacket true⟩,
          ⟨1800000300501, .receive plainPacket true⟩]).accepted = [plainPacket, plainPacket] := by
  decide +kernel

end RatchetRun

end Ivnp.Garlic
