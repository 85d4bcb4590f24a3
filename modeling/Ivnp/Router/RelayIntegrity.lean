import Ivnp.Router.RelayForwarding

/-!
What becomes of a request between its verification and its intro. Nonce, tag, timestamp and
endpoint are copied when a block is parsed. The signature is not, so it is that of the request
only as long as its buffer is not used again: a datagram that comes into the buffer while a job
or a deferred intro waits replaces the signature that is sent or checked.
-/

namespace Ivnp.Router

open Ivnp.Lib Ivnp.Ssu2 List

/-- An intro that is sent has the bytes of a request that was verified before, and an intro that
is verified has been received. -/
def RelayEvent.Backed (earlier : List RelayEvent) : RelayEvent → Prop
  | .introSent charlie block => ∃ alice request,
      .requestVerified alice charlie request ∈ earlier ∧
        marshalRelayIntro ⟨alice.peer, request⟩ = some block
  | .introVerified bob intro => .introReceived bob intro ∈ earlier
  | _ => True

theorem BlockPlace.read_view (place : BlockPlace) (storage : Storage) (start : Nat) :
    (place.view storage start).read storage = (place.data storage).drop start := by
  unfold BlockPlace.view View.read BlockPlace.data
  rw [drop_take, drop_take, ← drop_drop, take_eq_take_iff]
  simp only [length_take, length_drop]
  omega

namespace RelayNode

variable {Info : Type} {node : RelayNode}

/-- What waits still reads as it did when it was noted, and the log is backed. -/
structure Faithful (node : RelayNode) : Prop where
  jobs : ∀ job ∈ node.jobs,
    .requestVerified job.alice job.charlie (node.readRequest job.request) ∈ node.log
  working : ∀ job ∈ node.working,
    .requestVerified job.alice job.charlie (node.readRequest job.request) ∈ node.log
  deferred : ∀ nonce deferred, node.deferred.lookup nonce = some deferred →
    .introReceived deferred.bob (node.readIntro deferred.intro) ∈ node.log
  backed : ∀ event earlier, event :: earlier <:+ node.log → event.Backed earlier

theorem faithful_start (storage : Storage) : (start storage).Faithful where
  jobs := forall_mem_nil _
  working := forall_mem_nil _
  deferred := fun _ _ h => absurd h (Option.some_ne_none _).symm
  backed := fun _ _ h => absurd (eq_nil_of_suffix_nil h) (cons_ne_nil _ _)

namespace Faithful

variable (h : node.Faithful)
include h

theorem note {event : RelayEvent} (hbacked : event.Backed node.log) :
    (node.note event).Faithful where
  jobs := fun job hmem => List.mem_cons_of_mem _ (h.jobs _ hmem)
  working := fun job hmem => List.mem_cons_of_mem _ (h.working _ hmem)
  deferred := fun nonce deferred hlookup => List.mem_cons_of_mem _ (h.deferred _ _ hlookup)
  backed := by
    intro other earlier hsuffix
    obtain heq | hlater := suffix_cons_iff.mp hsuffix
    · cases heq
      exact hbacked
    · exact h.backed _ _ hlater

theorem reject (session : SessionRef) (nonce : UInt32)
    (reason : RelayReject) : (node.reject session nonce reason).Faithful :=
  h.note trivial

theorem failRelayForward (job : RelayStoreJob) : (node.failRelayForward job).Faithful := by
  unfold RelayNode.failRelayForward
  have hrest : ({ node with forwards := node.forwards.erase job.request.nonce } :
      RelayNode).Faithful := ⟨h.jobs, h.working, h.deferred, h.backed⟩
  split
  · exact hrest.reject _ _ _
  · exact h

theorem queueRelayRequest (setting : RelaySetting Info)
    {alice charlie : SessionRef} {request : RelayRequest View}
    (hverified : .requestVerified alice charlie (node.readRequest request) ∈ node.log) :
    (node.queueRelayRequest setting alice charlie request).Faithful := by
  unfold RelayNode.queueRelayRequest
  split
  · exact h
  split
  · exact h.reject _ _ _
  split
  · exact h.reject _ _ _
  have hforward : ({ node with
      forwards := node.forwards.insert request.nonce ⟨alice, charlie, setting.expires⟩ } :
      RelayNode).Faithful :=
    ⟨h.jobs, h.working, h.deferred, h.backed⟩
  split
  · exact ⟨forall_mem_append.mpr ⟨h.jobs, forall_mem_singleton.mpr hverified⟩, h.working,
      h.deferred, h.backed⟩
  · exact hforward.failRelayForward _

theorem handleRelayRequest (setting : RelaySetting Info) (alice : SessionRef)
    (request : RelayRequest View) : (node.handleRelayRequest setting alice request).Faithful := by
  unfold RelayNode.handleRelayRequest
  split
  · exact h
  split
  · exact h.reject _ _ _
  split
  · exact h.reject _ _ _
  next charliePeer charlie _ _ =>
  have hnoted : (node.note (.requestVerified alice charlie (node.readRequest request))).Faithful :=
    h.note trivial
  exact hnoted.queueRelayRequest _ mem_cons_self

theorem sendRelayIntro (setting : RelaySetting Info) {job : RelayStoreJob}
    (hverified : .requestVerified job.alice job.charlie (node.readRequest job.request) ∈ node.log) :
    (node.sendRelayIntro setting job).Faithful := by
  unfold RelayNode.sendRelayIntro
  split
  · exact h.failRelayForward _
  split
  · exact h.failRelayForward _
  next block hblock =>
  split
  · exact h.note ⟨job.alice, node.readRequest job.request, hverified, hblock⟩
  · exact h.failRelayForward _

theorem answerRelayIntro (setting : RelaySetting Info) (bob : SessionRef)
    (nonce : UInt32) : (node.answerRelayIntro setting bob nonce).Faithful := by
  unfold RelayNode.answerRelayIntro
  split
  · exact h.reject _ _ _
  split
  · exact h.reject _ _ _
  split
  · exact h.reject _ _ _
  split
  · exact h.note trivial
  · exact h

theorem handleRelayIntroAttempt (setting : RelaySetting Info)
    {bob : SessionRef} {intro : RelayIntro View} (attempt : UInt8)
    (hreceived : .introReceived bob (node.readIntro intro) ∈ node.log) :
    (node.handleRelayIntroAttempt setting bob intro attempt).Faithful := by
  unfold RelayNode.handleRelayIntroAttempt
  split
  · exact h
  split
  · split
    · unfold RelayNode.processRelayIntro
      split
      · have hnoted : (node.note (.introVerified bob (node.readIntro intro))).Faithful :=
          h.note hreceived
        exact hnoted.answerRelayIntro _ _ _
      · exact h.reject _ _ _
    · exact h.reject _ _ _
  split
  · unfold RelayNode.deferRelayIntro
    split
    · exact h.reject _ _ _
    split
    · exact h
    refine ⟨h.jobs, h.working, ?_, h.backed⟩
    intro nonce deferred hlookup
    obtain ⟨rfl, rfl⟩ | ⟨-, hold⟩ := Table.lookup_insert_cases hlookup
    · exact hreceived
    · exact h.deferred _ _ hold
  · exact h.reject _ _ _

end Faithful

/-- Nothing that waits refers to the buffer. -/
def Unreferenced (node : RelayNode) (buffer : Nat) : Prop :=
  (∀ job ∈ node.jobs, job.request.signature.buffer ≠ buffer) ∧
    (∀ job ∈ node.working, job.request.signature.buffer ≠ buffer) ∧
    ∀ entry ∈ node.deferred.entries, entry.2.intro.request.signature.buffer ≠ buffer

instance (node : RelayNode) (buffer : Nat) : Decidable (node.Unreferenced buffer) :=
  inferInstanceAs (Decidable (_ ∧ _ ∧ _))

/-- A datagram comes only into a buffer that nothing waiting refers to. -/
def Respects (node : RelayNode) : RelayInput Info → Prop
  | .receive buffer _ => node.Unreferenced buffer
  | _ => True

instance (node : RelayNode) : ∀ input : RelayInput Info, Decidable (node.Respects input)
  | .receive buffer _ => inferInstanceAs (Decidable (node.Unreferenced buffer))
  | .request .. | .intro .. | .done .. | .take .. | .send .. | .fire .. | .expire .. =>
    .isTrue trivial

namespace Faithful

variable (h : node.Faithful)
include h

theorem receiveInto {buffer : Nat} (hfree : node.Unreferenced buffer)
    (packet : Bytes) : (node.receiveInto buffer packet).Faithful := by
  obtain ⟨hjobs, hworking, hdeferred⟩ := hfree
  have hread : ∀ view : View, view.buffer ≠ buffer →
      view.read (Function.update node.storage buffer packet) = view.read node.storage := by
    intro view hne
    rw [View.read, View.read, Function.update_of_ne hne]
  have hrequest : ∀ request : RelayRequest View, request.signature.buffer ≠ buffer →
      request.mapSignature (·.read (Function.update node.storage buffer packet)) =
        node.readRequest request := by
    intro request hne
    rw [readRequest, RelayRequest.mapSignature, RelayRequest.mapSignature, hread _ hne]
  unfold RelayNode.receiveInto
  split
  · exact h
  refine ⟨?_, ?_, ?_, h.backed⟩
  · intro job hmem
    rw [readRequest, hrequest _ (hjobs _ hmem)]
    exact h.jobs _ hmem
  · intro job hmem
    rw [readRequest, hrequest _ (hworking _ hmem)]
    exact h.working _ hmem
  · intro nonce deferred hlookup
    have hne := hdeferred ⟨nonce, deferred⟩ (AList.mem_lookup_iff.mp hlookup)
    rw [readIntro, RelayIntro.mapSignature, hrequest _ hne]
    exact h.deferred _ _ hlookup

theorem fireTimer (setting : RelaySetting Info) (nonce : UInt32) :
    (node.fireTimer setting nonce).Faithful := by
  unfold RelayNode.fireTimer
  split
  · exact h
  next deferred hdeferred =>
  have hrest : ({ node with deferred := node.deferred.erase nonce } : RelayNode).Faithful :=
    ⟨h.jobs, h.working, fun other found hlookup =>
      h.deferred _ _ (Table.lookup_of_erase hlookup).2, h.backed⟩
  exact hrest.handleRelayIntroAttempt _ _ (h.deferred _ _ hdeferred)

theorem introBlock (place : BlockPlace) (bob : SessionRef)
    (setting : RelaySetting Info) : (node.introBlock place bob setting).Faithful := by
  unfold RelayNode.introBlock
  split
  · split
    · exact h
    next intro hparse =>
    have hnoted : (node.note (.introReceived bob (intro.mapSignature
        ((place.data node.storage).drop ·)))).Faithful := h.note trivial
    apply hnoted.handleRelayIntroAttempt
    have hread : (node.note (.introReceived bob (intro.mapSignature
        ((place.data node.storage).drop ·)))).readIntro
        (intro.mapSignature (place.view node.storage)) =
        intro.mapSignature ((place.data node.storage).drop ·) := by
      simp only [RelayNode.readIntro, RelayNode.note, RelayIntro.mapSignature,
        RelayRequest.mapSignature, BlockPlace.read_view]
    rw [hread]
    exact mem_cons_self
  · exact h

theorem requestBlock (place : BlockPlace) (alice : SessionRef)
    (setting : RelaySetting Info) : (node.requestBlock place alice setting).Faithful := by
  unfold RelayNode.requestBlock
  split
  · split
    · exact h
    · exact h.handleRelayRequest _ _ _
  · exact h

theorem takeJob (index : Nat) : (node.takeJob index).Faithful := by
  unfold RelayNode.takeJob
  split
  · exact h
  next job hjob =>
  have hrest : ∀ other ∈ node.jobs.eraseIdx index,
      .requestVerified other.alice other.charlie (node.readRequest other.request) ∈ node.log :=
    fun other hmem => h.jobs _ (mem_of_mem_eraseIdx hmem)
  split
  · exact ⟨hrest, forall_mem_cons.mpr
      ⟨h.jobs _ (mem_of_getElem? hjob), h.working⟩, h.deferred, h.backed⟩
  · exact ⟨hrest, h.working, h.deferred, h.backed⟩

theorem sendJob (index : Nat) (setting : RelaySetting Info) :
    (node.sendJob index setting).Faithful := by
  unfold RelayNode.sendJob
  split
  · exact h
  next job hjob =>
  have hrest : ({ node with working := node.working.eraseIdx index } : RelayNode).Faithful :=
    ⟨h.jobs, fun other hmem => h.working _ (mem_of_mem_eraseIdx hmem), h.deferred,
      h.backed⟩
  exact hrest.sendRelayIntro _ (h.working _ (mem_of_getElem? hjob))

theorem fire (nonce : UInt32) (setting : RelaySetting Info) :
    (node.fire nonce setting).Faithful := by
  unfold RelayNode.fire
  have hrest : ({ node with timers := node.timers.erase nonce } : RelayNode).Faithful :=
    ⟨h.jobs, h.working, h.deferred, h.backed⟩
  split
  · exact hrest.fireTimer _ _
  · exact h

theorem step {input : RelayInput Info} (hrespects : node.Respects input) :
    (node.step input).Faithful := by
  cases input with
  | receive buffer packet => exact h.receiveInto hrespects _
  | request place alice setting => exact h.requestBlock _ _ _
  | intro place bob setting => exact h.introBlock _ _ _
  | done buffer => exact ⟨h.jobs, h.working, h.deferred, h.backed⟩
  | take index => exact h.takeJob _
  | send index setting => exact h.sendJob _ _
  | fire nonce setting => exact h.fire _ _
  | expire now =>
    refine ⟨h.jobs, h.working, ?_, h.backed⟩
    intro nonce deferred hlookup
    exact h.deferred _ _ ((Table.lookup_keep_eq_some _ _ _ _).mp hlookup).1

end Faithful

/-- As long as no datagram comes into a buffer that a waiting job or intro refers to, every
intro that is sent carries a request that was verified, byte for byte, and every intro that is
verified is one that was received. -/
theorem relay_forwards_verified_request (storage : Storage) (inputs : List (RelayInput Info))
    (hrespects : Along step Respects (start storage) inputs) :
    ∀ event earlier, event :: earlier <:+ (after storage inputs).log → event.Backed earlier := by
  have hfaithful := run_invariant (I := fun node : RelayNode => node.Faithful)
      (fun _ _ hinput hnode => hnode.step hinput) (faithful_start _) hrespects
  exact hfaithful.backed

def requestPacket (signature : UInt8) : Bytes :=
  [0, 0, 0, 0, 1, 0, 0, 0, 7, 0, 0, 0, 9, 2, 6, 0x1f, 0x90, 192, 0, 2, 1, signature]

def fixedAlice : SessionRef := ⟨1, FixedBytes.zero 32⟩
def fixedCharlie : SessionRef := ⟨2, FixedBytes.zero 32⟩

def fixedSetting : RelaySetting Unit where
  localHash := some (FixedBytes.zero 32)
  introducer := fun _ => some (FixedBytes.zero 32)
  session := fun _ => some fixedCharlie
  sessionActive := fun _ => true
  routerInfo := fun _ => some ()
  verify := fun _ _ signature => signature = [5]
  timestampValid := fun _ => true
  running := true
  queueRoom := true
  maxPending := 8
  expires := 10
  storeSent := true
  introTaken := true
  endpointKnown := true
  keysKnown := true
  tokenIssued := true
  responseSent := true

/-- A request comes into the buffer 0 and is verified; another datagram comes into `buffer`
before the intro is sent. -/
def overtaken (buffer : Nat) : List (RelayInput Unit) :=
  [.receive 0 (requestPacket 5), .request ⟨0, 0, 22⟩ fixedAlice fixedSetting, .done 0,
    .receive buffer (requestPacket 6), .take 0, .send 0 fixedSetting]

def fixedRequest (signature : UInt8) : RelayRequest Bytes :=
  ⟨1, 7, 9, ⟨.v4 ⟨[192, 0, 2, 1], rfl⟩, 8080⟩, [signature]⟩

/-- The other datagram comes into another buffer: the intro is the verified request. -/
theorem relay_forwards_verified_request_other_buffer :
    ∃ block rest, (after (fun _ => []) (overtaken 1)).log = .introSent fixedCharlie block :: rest ∧
      (RelayEvent.introSent fixedCharlie block).Backed rest := by
  refine ⟨_, _, rfl, ?_⟩
  exact relay_forwards_verified_request (fun _ => []) (overtaken 1) (by decide) _ _
    (suffix_refl _)

/-- It comes into the same buffer: the intro has its signature, which nobody verified. -/
theorem overtaken_intro_unverified :
    ∃ block, marshalRelayIntro ⟨fixedAlice.peer, fixedRequest 6⟩ = some block ∧
      (after (fun _ => []) (overtaken 0)).log = [.introSent fixedCharlie block,
        .requestVerified fixedAlice fixedCharlie (fixedRequest 5)] ∧
      ¬(RelayEvent.introSent fixedCharlie block).Backed
        [.requestVerified fixedAlice fixedCharlie (fixedRequest 5)] := by
  refine ⟨_, rfl, by decide, ?_⟩
  rintro ⟨alice, request, hmem, hmarshal⟩
  obtain ⟨rfl, -, rfl⟩ := RelayEvent.requestVerified.inj (mem_singleton.mp hmem)
  revert hmarshal
  decide

end RelayNode

end Ivnp.Router
