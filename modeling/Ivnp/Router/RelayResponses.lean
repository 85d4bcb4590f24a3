import Ivnp.Lib.Run
import Ivnp.Lib.Table
import Ivnp.Ssu2.Blocks

/-!
Answers to relay requests (`ssu2_introduction.go`). A hole punch is taken by the nonce in its
connection IDs, an answer in a session by its sender. A rejection is believed before any
signature is checked, and an answer that fails a check ends the request as a rejection does.
-/

namespace Ivnp.Router

open Ivnp.Lib Ivnp.Ssu2 List

/-- A relay request that waits for its answer. -/
structure PendingRelay where
  target : FixedBytes 32
  introducer : FixedBytes 32
  deriving DecidableEq

inductive IntroductionError where
  | introduction
  | admission

/-- What an answer finds outside of the requests. It is `verified` if the target's RouterInfo is
known and its identity verifies the signature for the introducer. -/
structure AnswerSetting where
  verified : PendingRelay → RelayResponse → Bool
  relayTimestampValid : UInt32 → Bool
  admitPeer : FixedBytes 32 → Option AddrPort → Bool
  liveSession : FixedBytes 32 → Bool
  newOutbound : FixedBytes 32 → Option AddrPort → Bool

/-- The requests by nonce, how requests ended, and the outbound sessions started for them. -/
structure Introductions where
  relayRequests : Table UInt32 PendingRelay
  finished : List (UInt32 × Option IntroductionError)
  outbound : List (UInt32 × FixedBytes 32)

def relayConnectionIDs (nonce : UInt32) : UInt64 × UInt64 :=
  let destinationID := nonce.toUInt64 <<< 32 ||| nonce.toUInt64
  (destinationID, ~~~destinationID)

def holePunchResponse (payload : Bytes) : Option RelayResponse := do
  let block ← (payloadBlocks payload).1.find? (·.kind = blockRelayResponse)
  parseRelayResponseBlock block.data

/-- What may answer a request: a hole punch with its connection IDs, which anyone can send, or
a response in the session of a peer. -/
inductive RelayAnswer where
  | holePunch (setting : AnswerSetting) (destinationID sourceID : UInt64) (payload : Bytes)
  | inSession (setting : AnswerSetting) (peer : FixedBytes 32) (response : RelayResponse)

namespace Introductions

section Handlers

variable (state : Introductions) (setting : AnswerSetting)

def finishRelayRequest (nonce : UInt32) (relay : PendingRelay) (err : Option IntroductionError) :
    Introductions :=
  if state.relayRequests.lookup nonce ≠ some relay then state
  else
    { state with
      relayRequests := state.relayRequests.erase nonce
      finished := (nonce, err) :: state.finished }

def startIntroducedOutbound (response : RelayResponse) (relay : PendingRelay) : Introductions :=
  if state.relayRequests.lookup response.nonce ≠ some relay then state
  else if setting.liveSession relay.target then state.finishRelayRequest response.nonce relay none
  else if ¬setting.newOutbound relay.target response.endpoint then
    state.finishRelayRequest response.nonce relay (some .introduction)
  else
    { state.finishRelayRequest response.nonce relay none with
      outbound := (response.nonce, relay.target) :: state.outbound }

def acceptRelayResponse (response : RelayResponse) (relay : PendingRelay) : Introductions :=
  if response.code ≠ 0 ∨ ¬setting.relayTimestampValid response.timestamp ∨
      ¬setting.verified relay response then
    state.finishRelayRequest response.nonce relay (some .introduction)
  else if ¬setting.admitPeer relay.target response.endpoint then
    state.finishRelayRequest response.nonce relay (some .admission)
  else state.startIntroducedOutbound setting response relay

def handleHolePunch (destinationID sourceID : UInt64) (payload : Bytes) : Introductions :=
  match holePunchResponse payload with
  | none => state
  | some response =>
    if (destinationID, sourceID) ≠ relayConnectionIDs response.nonce then state
    else
      match state.relayRequests.lookup response.nonce with
      | none => state
      | some relay => state.acceptRelayResponse setting response relay

def handleRelayResponse (peer : FixedBytes 32) (response : RelayResponse) : Introductions :=
  match state.relayRequests.lookup response.nonce with
  | none => state
  | some relay =>
    if peer ≠ relay.introducer then state
    else state.acceptRelayResponse setting response relay

def step : RelayAnswer → Introductions
  | .holePunch setting destinationID sourceID payload =>
    state.handleHolePunch setting destinationID sourceID payload
  | .inSession setting peer response => state.handleRelayResponse setting peer response

end Handlers

end Introductions

namespace RelayAnswer

/-- The answer comes neither from the introducer nor with the target's signature. -/
def Forged (nonce : UInt32) (relay : PendingRelay) : RelayAnswer → Prop
  | .holePunch setting _ _ payload => ∀ response, holePunchResponse payload = some response →
      response.nonce = nonce → setting.verified relay response = false
  | .inSession _ peer _ => peer ≠ relay.introducer

def Names (nonce : UInt32) : RelayAnswer → Prop
  | .holePunch _ destinationID sourceID payload => ∃ response,
      holePunchResponse payload = some response ∧ response.nonce = nonce ∧
        (destinationID, sourceID) = relayConnectionIDs nonce
  | .inSession .. => False

end RelayAnswer

namespace Introductions

variable {state : Introductions} {response : RelayResponse} {nonce : UInt32} {relay : PendingRelay}

/-- However an answer is taken, its own request ends, and a session started is for it. -/
theorem acceptRelayResponse_spec (setting : AnswerSetting)
    (hlookup : state.relayRequests.lookup response.nonce = some relay) :
    (state.acceptRelayResponse setting response relay).relayRequests =
        state.relayRequests.erase response.nonce ∧
      ∀ other, response.nonce ≠ other →
        (state.acceptRelayResponse setting response relay).outbound.filter (·.1 = other) =
          state.outbound.filter (·.1 = other) := by
  simp only [acceptRelayResponse, startIntroducedOutbound, finishRelayRequest, hlookup, ne_eq,
    not_true_eq_false, if_false]
  split_ifs
  all_goals refine ⟨rfl, fun other hother => ?_⟩
  all_goals simp [hother]

/-- An answer is ignored or taken for a request it reaches; a forged one only by naming it. -/
theorem step_eq (state : Introductions) (event : RelayAnswer) :
    state.step event = state ∨ ∃ (setting : AnswerSetting) (response : RelayResponse)
        (relay : PendingRelay), state.relayRequests.lookup response.nonce = some relay ∧
        state.step event = state.acceptRelayResponse setting response relay ∧
        (event.Forged response.nonce relay → event.Names response.nonce) := by
  cases event with
  | holePunch setting destinationID sourceID payload =>
    dsimp only [step, handleHolePunch]
    split
    · exact .inl rfl
    next response hresponse =>
    split
    · exact .inl rfl
    next hids =>
    split
    · exact .inl rfl
    next relay hlookup =>
    exact .inr ⟨setting, response, relay, hlookup, rfl,
      fun _ => ⟨response, hresponse, rfl, not_not.mp hids⟩⟩
  | inSession setting peer response =>
    dsimp only [step, handleRelayResponse]
    split
    · exact .inl rfl
    next relay hlookup =>
    split
    · exact .inl rfl
    next hpeer =>
    exact .inr ⟨setting, response, relay, hlookup, rfl, fun hforged => absurd hforged hpeer⟩

theorem step_other {event : RelayAnswer} (hnone : ∀ relay,
      state.relayRequests.lookup nonce = some relay →
        event.Forged nonce relay ∧ ¬event.Names nonce) :
    (state.step event).relayRequests.lookup nonce = state.relayRequests.lookup nonce ∧
      (state.step event).outbound.filter (·.1 = nonce) = state.outbound.filter (·.1 = nonce) := by
  rcases step_eq state event with hstep | ⟨setting, response, found, hlookup, hstep, hnames⟩
  · rw [hstep]
    exact ⟨rfl, rfl⟩
  · have hother : response.nonce ≠ nonce := by
      rintro rfl
      exact (hnone found hlookup).2 (hnames (hnone found hlookup).1)
    obtain ⟨hrequests, houtbound⟩ := acceptRelayResponse_spec setting hlookup
    rw [hstep, hrequests, AList.lookup_erase_ne hother.symm]
    exact ⟨rfl, houtbound nonce hother⟩

theorem lookup_step_of_names {event : RelayAnswer}
    (hpending : state.relayRequests.lookup nonce = some relay) (hnames : event.Names nonce) :
    (state.step event).relayRequests.lookup nonce = none := by
  cases event with
  | holePunch setting destinationID sourceID payload =>
    obtain ⟨response, hresponse, rfl, hids⟩ := hnames
    simp only [step, handleHolePunch, hresponse, hids, hpending, ne_eq, not_true_eq_false, if_false]
    rw [(acceptRelayResponse_spec setting hpending).1, AList.lookup_erase]
  | inSession => exact hnames.elim

def unsignedSetting : AnswerSetting :=
  ⟨fun _ _ => false, fun _ => true, fun _ _ => true, fun _ => false, fun _ _ => true⟩

def firstRelay : PendingRelay := ⟨FixedBytes.zero 32, FixedBytes.copy 32 [1]⟩

def oneRelay : Introductions := ⟨(∅ : Table UInt32 PendingRelay).insert 1 firstRelay, [], []⟩

end Introductions

end Ivnp.Router
