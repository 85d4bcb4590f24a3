import Ivnp.Tunnel.Delivery

/-!
From the gateway to the endpoint. The payloads of one block reach a new endpoint
in any order and any number of times, among arbitrary other payloads that share
no message with them and leave room in the tables. The run of the endpoint
follows the run of a collector over the numbers of the payloads, so the block
comes out as often as the set of its payloads is complete.
-/

namespace Ivnp.Tunnel

open Ivnp.Lib List FixedBytes

/-- What reaches the endpoint: one of the payloads at hand, or another one. -/
inductive Arrival where
  | own (number : Nat)
  | other (payload : Bytes)

/-- One call of `Parse`. -/
structure Feed where
  arrival : Arrival
  out : Nat
  nowMillis : UInt64

def Feed.payload (payloads : List Bytes) (feed : Feed) : Bytes :=
  match feed.arrival with
  | .own number => payloads.getD number []
  | .other payload => payload

def Feed.number (feed : Feed) : Option Nat :=
  match feed.arrival with
  | .own number => some number
  | .other _ => none

/-- A call with what it returned. -/
structure Outcome where
  feed : Feed
  delivered : List Block
  error : Option TunnelError

/-- What came out for the payloads at hand. -/
def deliveredOwn (log : List Outcome) : List Block :=
  (log.filter fun outcome => outcome.feed.number.isSome).flatMap Outcome.delivered

structure EndpointRun where
  endpoint : Endpoint
  log : List Outcome

namespace EndpointRun

def start : EndpointRun := ⟨Endpoint.new 0 0, []⟩

variable (sha256 : Bytes → FixedBytes 32) (payloads : List Bytes)

def step (state : EndpointRun) (feed : Feed) : EndpointRun :=
  let result := state.endpoint.parse sha256 (feed.payload payloads) feed.out feed.nowMillis
  ⟨result.endpoint, state.log ++ [⟨feed, result.delivered, result.error⟩]⟩

def after (feeds : List Feed) : EndpointRun := run (step sha256 payloads) start feeds

end EndpointRun

section Fair

variable (sha256 : Bytes → FixedBytes 32) (payloads : List Bytes)

/-- One of the payloads at hand with room for a block, or a payload that shares
no message with them. -/
def Arrival.Fair (out : Nat) : Arrival → Prop
  | .own number => number < payloads.length ∧ 0 < out
  | .other payload =>
    ∀ messageID ∈ fragmentIDs sha256 payload, ∀ own ∈ payloads,
      messageID ∉ fragmentIDs sha256 own

instance (out : Nat) : ∀ arrival : Arrival, Decidable (arrival.Fair sha256 payloads out)
  | .own _ => inferInstanceAs (Decidable (_ ∧ _))
  -- by running through the lists, not through the message IDs
  | .other payload =>
    have (messageID : UInt32) :
        Decidable (∀ own ∈ payloads, messageID ∉ fragmentIDs sha256 own) :=
      List.decidableBAll (fun own => messageID ∉ fragmentIDs sha256 own) payloads
    List.decidableBAll (fun messageID => ∀ own ∈ payloads, messageID ∉ fragmentIDs sha256 own)
      (fragmentIDs sha256 payload)

/-- The call stays within the capacity of the endpoint. -/
def EndpointRun.Fair (state : EndpointRun) (feed : Feed) : Prop :=
  state.endpoint.Fits (fragmentIDs sha256 (feed.payload payloads)) ∧
    feed.arrival.Fair sha256 payloads feed.out

instance (state : EndpointRun) (feed : Feed) : Decidable (state.Fair sha256 payloads feed) :=
  inferInstanceAs (Decidable (_ ∧ _))

/-- What another payload has put out is its own: a whole block of it, or one
reassembled under a message ID of it. -/
def Outcome.Foreign (outcome : Outcome) : Prop :=
  ∀ payload, outcome.feed.arrival = .other payload → ∀ block ∈ outcome.delivered,
    block ∈ payloadBlocks sha256 payload ∧ block.fragmented = false ∨
      block.messageID ∈ fragmentIDs sha256 payload

end Fair

section Mirror

variable {sha256 : Bytes → FixedBytes 32} {payloads : List Bytes} {block : Block}
  {messageID : UInt32}

def collected (count : Nat) (feeds : List Feed) : Collector Nat :=
  run (Collector.step (Finset.range count)) Collector.start (feeds.filterMap Feed.number)

theorem collected_step (count : Nat) (state : EndpointRun) (feed : Feed) :
    collected count ((EndpointRun.step sha256 payloads state feed).log.map Outcome.feed) =
      match feed.number with
      | none => collected count (state.log.map Outcome.feed)
      | some number =>
        (collected count (state.log.map Outcome.feed)).step (Finset.range count) number := by
  rw [EndpointRun.step]
  cases hnumber : feed.number <;> simp [hnumber, collected]

/-- The run has come as far as the collector. -/
structure Mirrors (sha256 : Bytes → FixedBytes 32) (block : Block) (messageID : UInt32)
    (state : EndpointRun) : Prop where
  tracks : Tracks block messageID state.endpoint
    (collected block.parts.length (state.log.map Outcome.feed)).held
  keyed : state.endpoint.Keyed
  delivered : deliveredOwn state.log =
    List.replicate (collected block.parts.length (state.log.map Outcome.feed)).completed
      (block.delivered messageID)
  accepted : ∀ outcome ∈ state.log, outcome.feed.number.isSome → outcome.error = none
  foreign : ∀ outcome ∈ state.log, outcome.Foreign sha256

theorem mirrors_start (hvalid : block.Valid) : Mirrors sha256 block messageID EndpointRun.start :=
  ⟨⟨empty_ssubset_parts _, fun _ => Or.inl ⟨rfl, rfl⟩,
      fun _ h => absurd h (Finset.notMem_empty 0), fun _ _ => rfl, hvalid.short⟩,
    fun _ _ h => by simp [EndpointRun.start, Endpoint.new] at h, rfl, forall_mem_nil _,
    forall_mem_nil _⟩

theorem deliveredOwn_concat (log : List Outcome) (outcome : Outcome) :
    deliveredOwn (log ++ [outcome]) =
      deliveredOwn log ++ if outcome.feed.number.isSome then outcome.delivered else [] := by
  cases hown : outcome.feed.number.isSome <;> simp [deliveredOwn, hown]

theorem log_after (feeds : List Feed) :
    (EndpointRun.after sha256 payloads feeds).log.map Outcome.feed = feeds := by
  have hlog (state : EndpointRun) :
      (run (EndpointRun.step sha256 payloads) state feeds).log.map Outcome.feed =
        state.log.map Outcome.feed ++ feeds := by
    induction feeds generalizing state with
    | nil => simp
    | cons feed rest ih => rw [run_cons, ih, EndpointRun.step]; simp
  exact hlog EndpointRun.start

section Run

variable (hvalid : block.Valid) (hlength : payloads.length = block.parts.length)
  (hpayloads : ∀ number < block.parts.length,
    Carries sha256 (payloads.getD number []) (block.piece messageID number))
include hvalid hlength hpayloads

section Step

variable {state : EndpointRun} (h : Mirrors sha256 block messageID state) {out : Nat}
  {nowMillis : UInt64}
include h

theorem step_own {number : Nat} (hfair : state.Fair sha256 payloads ⟨.own number, out, nowMillis⟩) :
    Mirrors sha256 block messageID
      (EndpointRun.step sha256 payloads state ⟨.own number, out, nowMillis⟩) := by
  obtain ⟨hfits, hnumber, hout⟩ := hfair
  rw [hlength] at hnumber
  have hdelivers := parse_delivers hvalid h.tracks hout nowMillis hnumber
    (hpayloads _ hnumber) hfits
  have hkeyed := (Endpoint.parse_parses _ out nowMillis hfits h.keyed).keyed
  refine ⟨?_, hkeyed, ?_, ?_, ?_⟩
  · rw [collected_step]
    dsimp only [Feed.number]
    rw [Collector.held_step]
    exact hdelivers.tracks
  · rw [collected_step, EndpointRun.step, deliveredOwn_concat, h.delivered]
    dsimp only [Feed.number]
    rw [Collector.completed_step]
    refine (congrArg (replicate _ _ ++ ·) hdelivers.delivered).trans ?_
    split
    · exact replicate_succ'.symm
    · exact append_nil _
  · exact forall_mem_append.mpr
      ⟨h.accepted, forall_mem_singleton.mpr fun _ => hdelivers.error⟩
  · refine forall_mem_append.mpr ⟨h.foreign, forall_mem_singleton.mpr ?_⟩
    intro payload hother
    cases hother

theorem step_other {payload : Bytes}
    (hfair : state.Fair sha256 payloads ⟨.other payload, out, nowMillis⟩) :
    Mirrors sha256 block messageID
      (EndpointRun.step sha256 payloads state ⟨.other payload, out, nowMillis⟩) := by
  obtain ⟨hfits, hforeign⟩ := hfair
  have hparses := Endpoint.parse_parses _ out nowMillis hfits h.keyed
  have hids : 1 < block.parts.length → messageID ∉ fragmentIDs sha256 payload := by
    intro hmany hmem
    have hfirst := hpayloads 0 (parts_pos block)
    refine hforeign _ hmem (payloads.getD 0 []) ?_ ?_
    · rw [getD_eq_getElem?_getD, getElem?_eq_getElem (by omega)]
      exact getElem_mem _
    · rw [fragmentIDs_carries hvalid hmany hfirst]
      exact mem_singleton_self _
  refine ⟨?_, hparses.keyed, ?_, ?_, ?_⟩
  · rw [collected_step]
    exact h.tracks.keeps hparses.keeps hids
  · rw [collected_step, EndpointRun.step, deliveredOwn_concat, h.delivered]
    exact append_nil _
  · refine forall_mem_append.mpr ⟨h.accepted, forall_mem_singleton.mpr fun hown => ?_⟩
    simp [Feed.number] at hown
  · refine forall_mem_append.mpr ⟨h.foreign, forall_mem_singleton.mpr ?_⟩
    intro other hother
    cases hother
    obtain ⟨new, hdelivered, hall⟩ := hparses.delivered
    intro block hblock
    exact hall _ (nil_append new ▸ hdelivered ▸ hblock)

end Step

variable {feeds : List Feed} (hfair : Along (EndpointRun.step sha256 payloads)
  (EndpointRun.Fair sha256 payloads) EndpointRun.start feeds)
include hfair

/-- The endpoint follows the collector through every fair run. -/
theorem after_mirrors :
    Mirrors sha256 block messageID (EndpointRun.after sha256 payloads feeds) := by
  refine run_invariant ?_ (mirrors_start hvalid) hfair
  rintro state ⟨arrival, out, nowMillis⟩ hfeed hmirrors
  cases arrival with
  | own number => exact step_own hvalid hlength hpayloads hmirrors hfeed
  | other payload => exact step_other hvalid hlength hpayloads hmirrors hfeed

/-- A fair run that completes the payloads once puts the block out once. -/
theorem deliveredOwn_once (honce : Collector.CompleteOnce (Finset.range block.parts.length)
      (feeds.filterMap Feed.number)) :
    deliveredOwn (EndpointRun.after sha256 payloads feeds).log = [block.delivered messageID] := by
  have hmirrors := after_mirrors hvalid hlength hpayloads hfair
  have hinside : ∀ feed ∈ feeds, ∀ number, feed.number = some number →
      number < block.parts.length := by
    refine forall_of_along (fun state feed hfeed => ?_) hfair
    obtain ⟨arrival, out, nowMillis⟩ := feed
    cases arrival with
    | own number =>
      rintro _ ⟨⟩
      exact hlength ▸ hfeed.2.1
    | other payload =>
      intro number hnumber
      simp [Feed.number] at hnumber
  have hnumbers : ∀ number ∈ feeds.filterMap Feed.number,
      number ∈ Finset.range block.parts.length := by
    intro number hmem
    obtain ⟨feed, hfeed, hnumber⟩ := mem_filterMap.mp hmem
    exact Finset.mem_range.mpr (hinside _ hfeed _ hnumber)
  rw [hmirrors.delivered, log_after, collected, Collector.completed_of_completeOnce hnumbers honce]
  rfl

end Run

end Mirror

section Main

variable (sha256 : Bytes → FixedBytes 32)

/-- From gateway to endpoint: a block of any delivery type is written into at
most 64 messages, and when their payloads are complete once among whatever else
the endpoint gets, exactly this block comes out. -/
theorem fragment_parse_roundTrip {block : Block} (hvalid : block.Valid) {tunnelID : UInt32}
    (htunnelID : tunnelID ≠ 0) {dst : List Buffer} (hdst : block.parts.length ≤ dst.length)
    (hready : ∀ buffer ∈ dst.take block.parts.length, buffer.ready = true) {padding : Bytes}
    (hpadding : 4 + tunnelPayloadLen * block.parts.length ≤ padding.length) :
    block.parts.length ≤ 64 ∧
      ∃ payloads rest, fragment sha256 padding tunnelID block dst = .ok (payloads, rest) ∧
        payloads.length = block.parts.length ∧
        ∀ feeds, Along (EndpointRun.step sha256 payloads) (EndpointRun.Fair sha256 payloads)
            EndpointRun.start feeds →
          Collector.CompleteOnce (Finset.range payloads.length) (feeds.filterMap Feed.number) →
            (∃ delivered, deliveredOwn (EndpointRun.after sha256 payloads feeds).log = [delivered] ∧
              delivered.delivery = block.delivery ∧ delivered.gateway = block.gateway ∧
              delivered.tunnelID = block.tunnelID ∧ delivered.data = block.data) ∧
            ∀ outcome ∈ (EndpointRun.after sha256 payloads feeds).log,
              (outcome.feed.number.isSome → outcome.error = none) ∧ outcome.Foreign sha256 := by
  obtain ⟨messageID, payloads, rest, hfragment, hlength, hpayloads⟩ :=
    fragment_carries hvalid _ htunnelID hdst hready hpadding
  refine ⟨length_parts_le hvalid, payloads, rest, hfragment, hlength, ?_⟩
  intro feeds hfair honce
  rw [hlength] at honce
  have hmirrors := after_mirrors hvalid hlength hpayloads hfair
  refine ⟨⟨block.delivered messageID, deliveredOwn_once hvalid hlength hpayloads hfair honce,
    delivered_same _ hvalid⟩, ?_⟩
  exact fun outcome hmem => ⟨hmirrors.accepted _ hmem, hmirrors.foreign _ hmem⟩

end Main

def longBlock (messageID : UInt32) : Block := { messageID, data := List.replicate 1000 7 }

def fixedPadding : Bytes := List.replicate 2052 5

def fixedPayloads (block : Block) : List Bytes :=
  ((fragment (FixedBytes.copy 32) fixedPadding 1 block [some 1028, some 1028]).toOption.map
    Prod.fst).getD []

/-- The second part comes twice before the first one and once after it, and a
part of another message comes between. -/
def longFeeds : List Feed :=
  [⟨.own 1, 1, 10⟩, ⟨.own 1, 1, 20⟩, ⟨.other ((fixedPayloads (longBlock 9)).getD 0 []), 1, 30⟩,
    ⟨.own 0, 1, 40⟩, ⟨.own 1, 1, 50⟩]

theorem fragment_parse_roundTrip_two_parts :
    ∃ delivered,
      deliveredOwn (EndpointRun.after (FixedBytes.copy 32) (fixedPayloads (longBlock 3))
        longFeeds).log = [delivered] ∧
      delivered.delivery = (longBlock 3).delivery ∧ delivered.gateway = (longBlock 3).gateway ∧
      delivered.tunnelID = (longBlock 3).tunnelID ∧ delivered.data = (longBlock 3).data := by
  have hvalid : (longBlock 3).Valid :=
    ⟨rfl, by decide +kernel, by decide +kernel, fun _ => rfl, by decide⟩
  have hdst : (longBlock 3).parts.length ≤ [some 1028, some 1028].length := by decide +kernel
  obtain ⟨-, payloads, rest, hfragment, -, hrun⟩ :=
    fragment_parse_roundTrip (copy 32) hvalid (show (1 : UInt32) ≠ 0 by decide) hdst
      (by decide +kernel)
      (show 4 + tunnelPayloadLen * (longBlock 3).parts.length ≤ fixedPadding.length by
        decide +kernel)
  obtain rfl : fixedPayloads (longBlock 3) = payloads := by
    rw [fixedPayloads, hfragment]
    rfl
  refine (hrun _ (by decide +kernel) ?_).1
  refine ⟨[1, 1], 0, [1], by decide +kernel, by decide +kernel, by decide, ?_, 0, by decide +kernel,
    by decide⟩
  decide +kernel

/-- A completed block is forgotten: its payload fed again puts it out again. -/
theorem fed_again_delivered_again :
    ∃ payloads rest,
      (fragment (FixedBytes.copy 32) fixedPadding 1 { data := [7] }
        [some 1028, some 1028]).toOption = some (payloads, rest) ∧
      Along (EndpointRun.step (copy 32) payloads)
        (EndpointRun.Fair (copy 32) payloads) EndpointRun.start
        [⟨.own 0, 1, 10⟩, ⟨.own 0, 1, 20⟩] ∧
      (deliveredOwn (EndpointRun.after (copy 32) payloads
        [⟨.own 0, 1, 10⟩, ⟨.own 0, 1, 20⟩]).log).map Block.data = [[7], [7]] :=
  ⟨fixedPayloads { data := [7] }, fixedPadding.drop 1019, by decide +kernel, by decide +kernel,
    by decide +kernel⟩

end Ivnp.Tunnel
