import Ivnp.Lib.Replay
import Ivnp.Tunnel.TransitBuild

/-!
Replays of short tunnel build records. A record hash is remembered for ten
minutes from the moment it is reserved, while the record itself stays valid
until eight minutes after its request minute, rounded up to a whole minute. A
request whose minute lies more than one minute ahead of the clock outlives its
entry and can be answered again.
-/

namespace Ivnp.Tunnel

open Ivnp.Lib Option

/-- What one message can do to the remembered record hashes, and the reply it
seals. -/
inductive RecordStep (config : TransitConfig) (state : TransitState) (source : BuildSource)
    (payload : Bytes) (now : UInt64) : Table Hash UInt64 → Option SealedReply → Prop
  | same : RecordStep config state source payload now state.transitRecords none
  | pruned : RecordStep config state source payload now (state.expire now).transitRecords none
  | released (hash : Hash) (hnone : (state.expire now).transitRecords.lookup hash = none) :
      RecordStep config state source payload now
        (((state.expire now).transitRecords.insert hash
          (now + shortBuildReplayLifetime)).erase hash) none
  | reserved (hash : Hash) (hnone : (state.expire now).transitRecords.lookup hash = none) :
      RecordStep config state source payload now
        ((state.expire now).transitRecords.insert hash (now + shortBuildReplayLifetime)) none
  | sealed (reply : SealedReply) (opened : OpenedRequest)
      (hown : config.ownRecord payload = .ok (reply.slot, reply.record))
      (hopen : config.openRequest reply.record = some opened)
      (hvalid : config.validTransitRequest opened now source = true)
      (hnone : (state.expire now).transitRecords.lookup (config.sha256 reply.record) = none) :
      RecordStep config state source payload now
        ((state.expire now).transitRecords.insert (config.sha256 reply.record)
          (now + shortBuildReplayLifetime)) (some reply)

theorem reserveTransit_cases (config : TransitConfig) (state : TransitState) (id : UInt32)
    (hash : Hash) (now : UInt64) :
    ((state.reserveTransit config id hash now).2 = false ∧
        ((state.reserveTransit config id hash now).1 = state ∨
          (state.reserveTransit config id hash now).1 = state.expire now)) ∨
      ((state.reserveTransit config id hash now).2 = true ∧
        (state.expire now).transitRecords.lookup hash = none ∧
        (state.reserveTransit config id hash now).1.transitRecords =
          (state.expire now).transitRecords.insert hash (now + shortBuildReplayLifetime)) := by
  rw [TransitState.reserveTransit]
  dsimp only
  split
  · exact Or.inl ⟨rfl, Or.inl rfl⟩
  split
  · exact Or.inl ⟨rfl, Or.inr rfl⟩
  split
  · exact Or.inl ⟨rfl, Or.inr rfl⟩
  next hfree =>
    refine Or.inr ⟨rfl, ?_, rfl⟩
    rw [not_or] at hfree
    exact not_isSome_iff_eq_none.mp hfree.1

variable {now : UInt64}

theorem admitTransit_records {state next : TransitState} {request : ShortBuildRequest}
    {answers : TransitAnswers}
    (h : TransitConfig.admitTransit state request answers now = some next) :
    next.transitRecords = state.transitRecords := by
  simp only [TransitConfig.admitTransit, TransitConfig.installTransitCircuit,
    ite_none_right_eq_some, ite_none_left_eq_some, some.injEq] at h
  rw [← h.2.2.2.2.2]

theorem answer_cases (config : TransitConfig) (state : TransitState) (opened : OpenedRequest)
    (slot : Nat) (record : Bytes) (answers : TransitAnswers) (now : UInt64) :
    (config.answer state opened slot record answers now).state.transitRecords =
        state.transitRecords ∧
      ((config.answer state opened slot record answers now).sealed = none ∨
        ∃ code, (config.answer state opened slot record answers now).sealed =
          some ⟨slot, record, code⟩) := by
  rw [TransitConfig.answer]
  dsimp only
  split
  · exact ⟨rfl, Or.inl rfl⟩
  split
  · exact ⟨rfl, Or.inr ⟨_, rfl⟩⟩
  split
  · exact ⟨rfl, Or.inr ⟨_, rfl⟩⟩
  cases hinstalled : TransitConfig.admitTransit state opened.request answers now with
  | none => exact ⟨rfl, Or.inr ⟨_, rfl⟩⟩
  | some next => exact ⟨admitTransit_records hinstalled, Or.inr ⟨_, rfl⟩⟩

theorem handleTransit_step (config : TransitConfig) (state : TransitState) (source : BuildSource)
    (id : UInt32) (payload : Bytes) (answers : TransitAnswers) (now : UInt64) :
    RecordStep config state source payload now
      (config.handleTransit state source id payload answers now).state.transitRecords
      (config.handleTransit state source id payload answers now).sealed := by
  rw [TransitConfig.handleTransit]
  split
  · exact .same
  split
  · exact .same
  next slot record hown =>
  split
  · exact .same
  next opened hopen =>
  split
  · exact .same
  next hvalid =>
  dsimp only
  obtain ⟨hreserved, hstate⟩ | ⟨hreserved, hnone, hrecords⟩ :=
    reserveTransit_cases config state id (config.sha256 record) now
  · rw [hreserved]
    rcases hstate with hstate | hstate
    · rw [hstate]
      exact .same
    · rw [hstate]
      exact .pruned
  · rw [hreserved, if_neg (by decide)]
    split
    · rw [TransitState.releaseTransit, hrecords]
      exact .released _ hnone
    obtain ⟨hkept, hsealed | ⟨code, hsealed⟩⟩ := answer_cases config
      (state.reserveTransit config id (config.sha256 record) now).1 opened slot record answers now
    · rw [hkept, hsealed, hrecords]
      exact .reserved _ hnone
    · rw [hkept, hsealed, hrecords]
      exact .sealed ⟨slot, record, code⟩ opened hown hopen (by simpa using hvalid) hnone

def ShortBuildRequest.requestMillis (request : ShortBuildRequest) : Nat :=
  request.requestMinutes.toNat * 60000

variable {config : TransitConfig} {source : BuildSource}

/-- A valid request is at most nine minutes older than its request minute. -/
theorem validTransitRequest_now_lt {opened : OpenedRequest}
    (h : config.validTransitRequest opened now source = true) :
    now.toNat < opened.request.requestMillis + 540000 := by
  rw [TransitConfig.validTransitRequest] at h
  split at h
  · cases h
  split at h
  · cases h
  split at h
  · cases h
  next hwindow =>
  rw [not_or, UInt64.not_lt, UInt64.not_lt, UInt64.le_iff_toNat_le, UInt64.le_iff_toNat_le]
    at hwindow
  have hminutes := opened.request.requestMinutes.toNat_lt
  have hrequest : (opened.request.requestMinutes.toUInt64 * 60000).toNat =
      opened.request.requestMillis := by
    rw [UInt64.toNat_mul]
    exact Nat.mod_eq_of_lt (by simp; omega)
  have hpast : (opened.request.requestMinutes.toUInt64 * 60000 + shortBuildPastSkew).toNat =
      opened.request.requestMillis + 480000 := by
    rw [UInt64.toNat_add, hrequest, show shortBuildPastSkew.toNat = 480000 from rfl,
      ShortBuildRequest.requestMillis]
    exact Nat.mod_eq_of_lt (by omega)
  have hrounded : (now - now % 60000).toNat = now.toNat - now.toNat % 60000 := by
    rw [UInt64.toNat_sub_of_le]
    · rfl
    · exact Nat.mod_le _ _
  omega

def StillValid (config : TransitConfig) (record : Bytes) (now : UInt64) : Prop :=
  ∃ opened source, config.openRequest record = some opened ∧
    config.validTransitRequest opened now source = true

/-- A message with a valid request arrives at most one minute before its
request minute. -/
def TransitStep.Timely (config : TransitConfig) (input : TransitStep) : Prop :=
  match input.event with
  | .build source _ payload _ =>
    ∀ slot record opened, config.ownRecord payload = .ok (slot, record) →
      config.openRequest record = some opened →
      config.validTransitRequest opened input.now source = true →
      opened.request.requestMillis ≤ input.now.toNat + 60000
  | _ => True

/-- An entry made at most one minute before the request minute outlives the
record. -/
theorem entry_outlives {record : Bytes} {opened : OpenedRequest}
    (hopen : config.openRequest record = some opened)
    (hvalid : config.validTransitRequest opened now source = true)
    (htimely : opened.request.requestMillis ≤ now.toNat + 60000) (later : UInt64)
    (hlater : StillValid config record later) :
    deadlinePassed (now + shortBuildReplayLifetime) later = false := by
  obtain ⟨opened', source', hopen', hvalid'⟩ := hlater
  obtain rfl := some.inj (hopen'.symm.trans hopen)
  have hnow := validTransitRequest_now_lt hvalid
  have hlast := validTransitRequest_now_lt hvalid'
  have hminutes := opened'.request.requestMinutes.toNat_lt
  have hmillis : opened'.request.requestMillis = opened'.request.requestMinutes.toNat * 60000 := rfl
  have hdeadline : (now + shortBuildReplayLifetime).toNat = now.toNat + 600000 := by
    rw [UInt64.toNat_add, show shortBuildReplayLifetime.toNat = 600000 from rfl]
    exact Nat.mod_eq_of_lt (by omega)
  rw [deadlinePassed, decide_eq_false_iff_not, UInt64.le_iff_toNat_le]
  omega

/-- One message keeps every sealed record covered and seals none a second
time. -/
theorem RecordStep.covered {state : TransitState} {payload : Bytes} {records : Table Hash UInt64}
    {reply : Option SealedReply} (h : RecordStep config state source payload now records reply)
    (htimely : ∀ slot record opened, config.ownRecord payload = .ok (slot, record) →
        config.openRequest record = some opened →
        config.validTransitRequest opened now source = true →
        opened.request.requestMillis ≤ now.toNat + 60000) {items : List Bytes}
    (hcovered : Covered config.sha256 (StillValid config) deadlinePassed state.transitRecords now
      items) :
    Covered config.sha256 (StillValid config) deadlinePassed records now
        ((reply.map SealedReply.record).toList ++ items) ∧
      ∀ new ∈ reply, new.record ∉ items := by
  have hpruned := hcovered.prune
  cases h with
  | same => exact ⟨hcovered, by simp⟩
  | pruned => exact ⟨hpruned, by simp⟩
  | released hash hnone =>
    refine ⟨hpruned.of_lookup (free_of_lookup_none hnone) fun other hother => ?_, by simp⟩
    exact (AList.lookup_erase_ne hother).trans (AList.lookup_insert_ne hother)
  | reserved hash hnone => exact ⟨hpruned.insert (free_of_lookup_none hnone) _, by simp⟩
  | sealed reply opened hown hopen hvalid hnone =>
    have hfree : Free deadlinePassed (state.expire now).transitRecords now
        (config.sha256 reply.record) := free_of_lookup_none hnone
    have houtlives := entry_outlives hopen hvalid (htimely _ _ _ hown hopen hvalid)
    refine ⟨hpruned.cons hfree houtlives, ?_⟩
    rintro new ⟨⟩
    exact hpruned.notMem ⟨opened, source, hopen, hvalid⟩ hfree

namespace TransitRun

/-- No record was sealed twice, and every sealed record is covered. -/
structure Invariant (config : TransitConfig) (run : TransitRun) : Prop where
  nodup : (run.sealed.map SealedReply.record).Nodup
  covered : Covered config.sha256 (StillValid config) deadlinePassed run.state.transitRecords
    run.clock (run.sealed.map SealedReply.record)

theorem step_invariant {config : TransitConfig} {run : TransitRun} {input : TransitStep}
    (h : run.Invariant config) (hclock : run.clock ≤ input.now) (htimely : input.Timely config) :
    (run.step config input).Invariant config := by
  obtain ⟨now, event⟩ := input
  have hcovered : Covered config.sha256 (StillValid config) deadlinePassed
      run.state.transitRecords now (run.sealed.map SealedReply.record) := by
    refine h.covered.mono fun deadline hpassed => ?_
    rw [deadlinePassed, decide_eq_true_eq] at hpassed ⊢
    exact UInt64.le_trans hpassed hclock
  cases event with
  | build source id payload answers =>
    have hstep := handleTransit_step config run.state source id payload answers now
    obtain ⟨hnext, hnew⟩ := hstep.covered htimely hcovered
    cases hreply : (config.handleTransit run.state source id payload answers now).sealed with
    | none =>
      rw [hreply] at hnext
      constructor <;> simp only [step, hreply]
      · exact h.nodup
      · exact hnext
    | some reply =>
      rw [hreply] at hnext hnew
      constructor <;> simp only [step, hreply]
      · exact List.nodup_cons.mpr ⟨hnew reply rfl, h.nodup⟩
      · exact hnext
  | expire => exact ⟨h.nodup, hcovered.prune⟩
  | expireCircuits => exact ⟨h.nodup, hcovered⟩
  | otherCircuits circuits => exact ⟨h.nodup, hcovered⟩

/-- While every request's minute lies at most one minute ahead of the clock
when it arrives, no record is answered twice, over every run with a
nondecreasing clock. -/
theorem sealed_once (config : TransitConfig) (steps : List TransitStep)
    (hclock : steps.Pairwise fun a b => a.now ≤ b.now)
    (htimely : ∀ input ∈ steps, input.Timely config) :
    ((run (step config) start steps).sealed.map SealedReply.record).Nodup := by
  have halong : Along (step config)
      (fun run input => run.clock ≤ input.now ∧ input.Timely config) start steps := by
    refine Along.and (along_clock ?_ hclock ?_) (along_of_forall htimely start)
    · rintro run ⟨now, event⟩
      cases event <;> rfl
    · intro input _
      exact UInt64.le_iff_toNat_le.mpr (Nat.zero_le _)
  refine (run_invariant (I := Invariant config) ?_ ?_ halong).nodup
  · intro run input hinput h
    exact step_invariant h hinput.1 hinput.2
  · exact ⟨List.nodup_nil, Covered.nil⟩

/-- A hop whose record cipher is the identity and whose digest is the start of
the ciphertext. -/
def plainHop : TransitConfig where
  localHash := ⟨List.replicate 32 7, rfl⟩
  staticPrivateKey := true
  maxPending := 32
  replySender := true
  localDelivery := true
  sha256 record := FixedBytes.copy 32 (record.drop 48)
  decrypt record := some ((record.drop 48).take shortBuildRequestPlainSize)
  parseOptions _ _ := some ⟨0, 0, 0⟩

/-- A record for the plain hop that forwards from tunnel 1 to tunnel 2. -/
def plainRecord (minutes : Nat) : Bytes :=
  List.replicate 16 7 ++ List.replicate 32 0 ++ natBE 4 1 ++ natBE 4 2 ++ List.replicate 32 9 ++
    List.replicate 4 0 ++ natBE 4 minutes ++ natBE 4 600 ++ natBE 4 3 ++ List.replicate 114 0

/-- A build message with that record alone, from a direct peer. -/
def plainBuild (now : UInt64) (id : UInt32) (minutes : Nat) : TransitStep :=
  ⟨now, .build ⟨⟨List.replicate 32 5, rfl⟩, true⟩ id (1 :: plainRecord minutes)
    ⟨0, true, true, true, true⟩⟩

private theorem plainBuild_timely (now : UInt64) (id : UInt32) (hnow : 1800000000000 ≤ now.toNat) :
    (plainBuild now id 30000001).Timely plainHop := by
  have hown : (plainHop.ownRecord (1 :: plainRecord 30000001)).toOption =
      some (0, plainRecord 30000001) := by
    decide +kernel
  have hmillis : (plainHop.openRequest (plainRecord 30000001)).map
      (fun opened => opened.request.requestMillis) = some 1800000060000 := by
    decide +kernel
  intro slot record opened hrecord hopen _
  rw [hrecord] at hown
  obtain ⟨-, rfl⟩ := Prod.mk.inj (some.inj hown)
  rw [hopen] at hmillis
  have heq := some.inj hmillis
  dsimp only [plainBuild] at heq ⊢
  omega

/-- A request one minute ahead of the clock, sent again eight minutes later
under another message ID. -/
theorem sealed_once_plain :
    ((run (step plainHop) start
      [plainBuild 1800000000000 1 30000001, plainBuild 1800000480000 2 30000001]).sealed.map
        SealedReply.record).Nodup := by
  refine sealed_once plainHop _ (by decide) ?_
  intro input hmem
  rcases List.mem_cons.mp hmem with rfl | hmem
  · exact plainBuild_timely _ _ (by decide)
  · obtain rfl := List.mem_singleton.mp hmem
    exact plainBuild_timely _ _ (by decide)

/-- A request five minutes ahead of the clock: its circuit and its entry are
gone ten minutes later, when the record is valid for four more minutes. -/
theorem sealed_twice :
    [plainBuild 1800000000000 1 30000005, ⟨1800000600000, .expireCircuits⟩,
        plainBuild 1800000600000 2 30000005].Pairwise (fun a b => a.now ≤ b.now) ∧
      (run (step plainHop) start
        [plainBuild 1800000000000 1 30000005, ⟨1800000600000, .expireCircuits⟩,
          plainBuild 1800000600000 2 30000005]).sealed =
        [⟨0, plainRecord 30000005, 0⟩, ⟨0, plainRecord 30000005, 0⟩] := by
  decide +kernel

end TransitRun

end Ivnp.Tunnel
