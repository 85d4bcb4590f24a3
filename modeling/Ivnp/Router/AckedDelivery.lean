import Ivnp.Router.DataReceive

/-!
What an acknowledgement promises. Every packet that is recorded will be acknowledged, and its
sender will not send it again. Its messages and fragments are processed only if it came from
the address of the session and the reassembler refused none of its fragments on the way.
-/

namespace Ivnp.Router

open Ivnp.Lib Ivnp.Foundation Ivnp.Ssu2 List

def isFragmentBlock (block : Block) : Bool :=
  block.kind = blockFirstFragment ∨ block.kind = blockFollowOnFragment

def i2npMessages (blocks : List Block) : List I2NPMessage :=
  blocks.filterMap fun block => if block.kind = blockI2NP then decodeSSU2I2NP block.data else none

def fragmentBlocks (blocks : List Block) : List Block := blocks.filter isFragmentBlock

/-- The iterator comes to the end, and what its blocks leave open is well formed too. -/
structure WellFormed (payload : Bytes) : Prop where
  complete : (payloadBlocks payload).2 = true
  ranges : ∀ block ∈ (payloadBlocks payload).1, block.kind = blockACK →
    (parseACKRanges block.data maxACKRanges).isSome
  messages : ∀ block ∈ (payloadBlocks payload).1, block.kind = blockI2NP →
    (decodeSSU2I2NP block.data).isSome

def ReceiveEvent.messages : ReceiveEvent → List I2NPMessage
  | .dispatched batch => batch
  | _ => []

def ReceiveEvent.fragment : ReceiveEvent → List Block
  | .reassembled block => [block]
  | _ => []

def dispatchedMessages (events : List ReceiveEvent) : List I2NPMessage :=
  events.flatMap ReceiveEvent.messages

def reassembledBlocks (events : List ReceiveEvent) : List Block :=
  events.flatMap ReceiveEvent.fragment

def Delivered (payload : Bytes) (events : List ReceiveEvent) : Prop :=
  (i2npMessages (payloadBlocks payload).1).Sublist (dispatchedMessages events) ∧
    reassembledBlocks events = fragmentBlocks (payloadBlocks payload).1

variable {fragments : Fragments} {blocks : List Block}

section Reassembly

variable {now : UInt64}

/-- The reassembler refuses none of the fragments, one after the other. -/
def accepted (now : UInt64) : Fragments → List Block → Bool
  | _, [] => true
  | fragments, block :: rest =>
    match addFragment fragments block.kind block.data now with
    | (.error _, _) => false
    | (.ok _, next) => accepted now next rest

def tried (now : UInt64) : Fragments → List Block → List Block
  | _, [] => []
  | fragments, block :: rest =>
    match addFragment fragments block.kind block.data now with
    | (.error _, _) => [block]
    | (.ok _, next) => block :: tried now next rest

theorem tried_of_accepted
    (h : accepted now fragments blocks = true) : tried now fragments blocks = blocks := by
  induction blocks generalizing fragments with
  | nil => rfl
  | cons block rest ih =>
    cases hadded : addFragment fragments block.kind block.data now with
    | mk outcome next =>
      cases outcome with
      | error error =>
        simp only [accepted, hadded] at h
        cases h
      | ok outcome =>
        simp only [accepted, hadded] at h
        simp only [tried, hadded]
        exact congrArg (block :: ·) (ih h)

theorem tried_eq_self_iff :
    tried now fragments blocks = blocks ↔ accepted now fragments blocks.dropLast = true := by
  induction blocks generalizing fragments with
  | nil => exact iff_of_true rfl rfl
  | cons block rest ih =>
    cases rest with
    | nil =>
      refine iff_of_true ?_ rfl
      cases hadded : addFragment fragments block.kind block.data now with
      | mk outcome next => cases outcome <;> simp only [tried, hadded]
    | cons second rest =>
      rw [dropLast_cons_cons]
      cases hadded : addFragment fragments block.kind block.data now with
      | mk outcome next =>
        cases outcome with
        | error error =>
          simp only [tried, accepted, hadded]
          exact iff_of_false (fun h => cons_ne_nil _ _ (cons.inj h).2.symm) nofun
        | ok outcome =>
          simp only [tried, accepted, hadded]
          rw [cons_inj_right]
          exact ih

end Reassembly

section Loop

variable {setting : ReceiveSetting} {loop : ReceiveLoop} {block : Block} {message : I2NPMessage}

namespace ReceiveLoop

def items (loop : ReceiveLoop) : List I2NPMessage := loop.batch.getD []

theorem dispatch_eq (hfree : setting.batchFree = true) (hroom : loop.items.length < 255) :
    loop.dispatch setting message = .ok { loop with batch := some (loop.items ++ [message]) } := by
  unfold dispatch appendDispatchI2NP items at *
  cases hbatch : loop.batch with
  | none => simp only [hfree, if_true, Option.getD_none, nil_append]
  | some batch =>
    rw [hbatch, Option.getD_some] at hroom
    simp only [Option.getD_some]
    rw [if_neg hroom.ne]

/-- What a block that is neither a message nor a fragment leaves alone. -/
structure Keeps (loop next : ReceiveLoop) : Prop where
  fragments : next.fragments = loop.fragments
  items : next.items = loop.items
  messages : dispatchedMessages next.events = dispatchedMessages loop.events
  blocks : reassembledBlocks next.events = reassembledBlocks loop.events

theorem keeps_note {event : ReceiveEvent} (hmessages : event.messages = [])
    (hfragment : event.fragment = []) (next : ReceiveLoop)
    (hnext : next.events = loop.events ++ [event]) (hfragments : next.fragments = loop.fragments)
    (hbatch : next.batch = loop.batch) : Keeps loop next := by
  refine ⟨hfragments, by rw [items, items, hbatch], ?_, ?_⟩
  · rw [dispatchedMessages, hnext, flatMap_append, flatMap_singleton, hmessages,
      append_nil]
    rfl
  · rw [reassembledBlocks, hnext, flatMap_append, flatMap_singleton, hfragment,
      append_nil]
    rfl

theorem handleBlock_other (hmessage : block.kind ≠ blockI2NP) (hfragment : isFragmentBlock block = false)
    (hranges : block.kind = blockACK → (parseACKRanges block.data maxACKRanges).isSome) :
    ∃ next, loop.handleBlock setting block = .ok next ∧ Keeps loop next := by
  unfold isFragmentBlock at hfragment
  rw [decide_eq_false_iff_not] at hfragment
  unfold handleBlock
  split
  next hack =>
    rw [if_pos (hranges hack)]
    exact ⟨_, rfl, keeps_note rfl rfl _ rfl rfl rfl⟩
  split
  · exact ⟨_, rfl, rfl, rfl, rfl, rfl⟩
  split
  · exact ⟨_, rfl, rfl, rfl, rfl, rfl⟩
  split
  · exact ⟨_, rfl, keeps_note rfl rfl _ rfl rfl rfl⟩
  · exact ⟨_, rfl, rfl, rfl, rfl, rfl⟩

theorem handleBlock_message (hkind : block.kind = blockI2NP)
    (hdecode : decodeSSU2I2NP block.data = some message) (hfree : setting.batchFree = true)
    (hroom : loop.items.length < 255) :
    loop.handleBlock setting block =
      .ok { loop with ackEliciting := true, batch := some (loop.items ++ [message]) } := by
  unfold handleBlock
  rw [hkind, hdecode]
  exact dispatch_eq hfree hroom

theorem handleBlock_fragment (hfragment : isFragmentBlock block = true)
    (hfree : setting.batchFree = true) (hroom : loop.items.length < 255) :
    (∃ error next stopped,
      addFragment loop.fragments block.kind block.data setting.nowMillis = (.error error, next) ∧
      loop.handleBlock setting block = .error stopped ∧
      stopped.events = loop.events ++ [.reassembled block]) ∨
    ∃ outcome fragments next,
      addFragment loop.fragments block.kind block.data setting.nowMillis =
        (.ok outcome, fragments) ∧
      loop.handleBlock setting block = .ok next ∧ next.fragments = fragments ∧
      next.items = loop.items ++ outcome.toList ∧
      next.events = loop.events ++ [.reassembled block] := by
  unfold isFragmentBlock at hfragment
  rw [decide_eq_true_eq] at hfragment
  have hack : block.kind ≠ blockACK := by obtain h | h := hfragment <;> rw [h] <;> decide
  have hmessage : block.kind ≠ blockI2NP := by obtain h | h := hfragment <;> rw [h] <;> decide
  unfold handleBlock
  rw [if_neg hack, if_neg hmessage, if_pos hfragment]
  cases hadded : addFragment loop.fragments block.kind block.data setting.nowMillis with
  | mk outcome fragments =>
    cases outcome with
    | error error => exact .inl ⟨error, fragments, _, rfl, rfl, rfl⟩
    | ok outcome =>
      right
      cases outcome with
      | none => exact ⟨none, fragments, _, rfl, rfl, rfl, (append_nil _).symm, rfl⟩
      | some message =>
        exact ⟨some message, fragments, _, rfl, dispatch_eq hfree hroom, rfl, rfl, rfl⟩

end ReceiveLoop

end Loop

section Delivery

variable {setting : ReceiveSetting} {loop : ReceiveLoop}

/-- A block that may add a message to the batch. -/
def isDeliverable (block : Block) : Bool := block.kind = blockI2NP ∨ isFragmentBlock block

def BlockWellFormed (block : Block) : Prop :=
  (block.kind = blockACK → (parseACKRanges block.data maxACKRanges).isSome) ∧
    (block.kind = blockI2NP → (decodeSSU2I2NP block.data).isSome)

/-- The result of the loop: it comes to its end if no fragment is refused, the fragments up to
the first that is refused are handed to the reassembler, nothing is dispatched yet, and at the
end the batch has all messages. -/
structure Handles (now : UInt64) (loop : ReceiveLoop) (blocks : List Block)
    (result : ReceiveLoop × Bool) : Prop where
  finished : result.2 = accepted now loop.fragments (fragmentBlocks blocks)
  handed : reassembledBlocks result.1.events =
    reassembledBlocks loop.events ++ tried now loop.fragments (fragmentBlocks blocks)
  messages : dispatchedMessages result.1.events = dispatchedMessages loop.events
  items : result.2 = true → (loop.items ++ i2npMessages blocks).Sublist result.1.items

theorem handles_nil (now : UInt64) (loop : ReceiveLoop) : Handles now loop [] (loop, true) where
  finished := rfl
  handed := (append_nil _).symm
  messages := rfl
  items := fun _ => by rw [i2npMessages, filterMap_nil, append_nil]

section Cons

variable {now : UInt64} {block : Block} {rest : List Block} {next : ReceiveLoop}
  {result : ReceiveLoop × Bool}

theorem fragmentBlocks_skip (hfragment : isFragmentBlock block = false) :
    fragmentBlocks (block :: rest) = fragmentBlocks rest := by
  simp only [fragmentBlocks, filter_cons, hfragment, Bool.false_eq_true, if_false]

theorem Handles.other (h : Handles now next rest result) (hkeeps : loop.Keeps next)
    (hmessage : block.kind ≠ blockI2NP) (hfragment : isFragmentBlock block = false) :
    Handles now loop (block :: rest) result := by
  have hmessages : i2npMessages (block :: rest) = i2npMessages rest := by
    simp only [i2npMessages, filterMap_cons, if_neg hmessage]
  refine ⟨?_, ?_, h.messages.trans hkeeps.messages, ?_⟩
  · rw [h.finished, fragmentBlocks_skip hfragment, hkeeps.fragments]
  · rw [h.handed, fragmentBlocks_skip hfragment, hkeeps.fragments, hkeeps.blocks]
  · rw [hmessages, ← hkeeps.items]
    exact h.items

theorem Handles.message {message : I2NPMessage} (h : Handles now next rest result)
    (hkind : block.kind = blockI2NP) (hdecode : decodeSSU2I2NP block.data = some message)
    (hfragments : next.fragments = loop.fragments) (hevents : next.events = loop.events)
    (hitems : next.items = loop.items ++ [message]) : Handles now loop (block :: rest) result := by
  have hblocks : fragmentBlocks (block :: rest) = fragmentBlocks rest := by
    apply fragmentBlocks_skip
    rw [isFragmentBlock, hkind]
    decide
  have hmessages : i2npMessages (block :: rest) = message :: i2npMessages rest := by
    simp only [i2npMessages, filterMap_cons, if_pos hkind, hdecode]
  refine ⟨?_, ?_, ?_, ?_⟩
  · rw [h.finished, hblocks, hfragments]
  · rw [h.handed, hblocks, hfragments, hevents]
  · rw [h.messages, hevents]
  · intro hfinished
    have hsub := h.items hfinished
    rw [hitems, append_assoc] at hsub
    rw [hmessages]
    exact hsub

variable {events : List ReceiveEvent}

theorem reassembledBlocks_concat :
    reassembledBlocks (events ++ [.reassembled block]) = reassembledBlocks events ++ [block] := by
  rw [reassembledBlocks, flatMap_append]
  rfl

theorem dispatchedMessages_concat :
    dispatchedMessages (events ++ [.reassembled block]) = dispatchedMessages events := by
  rw [dispatchedMessages, flatMap_append]
  exact append_nil _

theorem fragmentBlocks_cons (hfragment : isFragmentBlock block = true) :
    fragmentBlocks (block :: rest) = block :: fragmentBlocks rest := by
  simp only [fragmentBlocks, filter_cons, hfragment, if_true]

theorem i2npMessages_cons (hfragment : isFragmentBlock block = true) :
    i2npMessages (block :: rest) = i2npMessages rest := by
  have hmessage : block.kind ≠ blockI2NP := by
    unfold isFragmentBlock at hfragment
    rw [decide_eq_true_eq] at hfragment
    obtain h | h := hfragment <;> rw [h] <;> decide
  simp only [i2npMessages, filterMap_cons, if_neg hmessage]

theorem Handles.fragment (h : Handles now next rest result) {outcome : Option I2NPMessage}
    (hfragment : isFragmentBlock block = true)
    (hadded : addFragment loop.fragments block.kind block.data now = (.ok outcome, next.fragments))
    (hitems : next.items = loop.items ++ outcome.toList)
    (hevents : next.events = loop.events ++ [.reassembled block]) :
    Handles now loop (block :: rest) result := by
  refine ⟨?_, ?_, ?_, ?_⟩
  · rw [h.finished, fragmentBlocks_cons hfragment]
    simp only [accepted, hadded]
  · rw [h.handed, fragmentBlocks_cons hfragment, hevents, reassembledBlocks_concat]
    simp only [tried, hadded, append_assoc, singleton_append]
  · rw [h.messages, hevents, dispatchedMessages_concat]
  · intro hfinished
    have hsub := h.items hfinished
    rw [hitems, append_assoc] at hsub
    rw [i2npMessages_cons hfragment]
    exact ((sublist_append_right _ _).append_left loop.items).trans hsub

theorem handles_refused {stopped : ReceiveLoop} {error : FragmentError}
    (hfragment : isFragmentBlock block = true)
    (hadded : addFragment loop.fragments block.kind block.data now = (.error error, fragments))
    (hevents : stopped.events = loop.events ++ [.reassembled block]) :
    Handles now loop (block :: rest) (stopped, false) := by
  refine ⟨?_, ?_, ?_, nofun⟩
  · rw [fragmentBlocks_cons hfragment]
    simp only [accepted, hadded]
  · rw [hevents, fragmentBlocks_cons hfragment, reassembledBlocks_concat]
    simp only [tried, hadded]
  · rw [hevents, dispatchedMessages_concat]

end Cons

/-- Induction over the blocks: the batch never gets full, as no more messages are appended than
there are blocks for them. -/
theorem handleBlocks_handles (hfree : setting.batchFree = true)
    (hwell : ∀ block ∈ blocks, BlockWellFormed block)
    (hroom : loop.items.length + (blocks.filter isDeliverable).length ≤ 255) :
    Handles setting.nowMillis loop blocks (loop.handleBlocks setting blocks) := by
  induction blocks generalizing loop with
  | nil => exact handles_nil _ _
  | cons block rest ih =>
    obtain ⟨⟨hranges, hmessage⟩, hrest⟩ := forall_mem_cons.mp hwell
    unfold ReceiveLoop.handleBlocks
    by_cases hkind : block.kind = blockI2NP
    · have hdeliverable : isDeliverable block = true := by
        simp only [isDeliverable, hkind, true_or, decide_true]
      rw [filter_cons_of_pos hdeliverable, length_cons] at hroom
      obtain ⟨message, hdecode⟩ := Option.isSome_iff_exists.mp (hmessage hkind)
      rw [ReceiveLoop.handleBlock_message hkind hdecode hfree (by omega)]
      refine Handles.message (ih hrest ?_) hkind hdecode rfl rfl rfl
      change (loop.items ++ [message]).length + _ ≤ 255
      rw [length_append, length_singleton]
      omega
    · cases hfragment : isFragmentBlock block with
      | false =>
        have hdeliverable : ¬isDeliverable block = true := by
          simp only [isDeliverable, hkind, hfragment, Bool.false_eq_true, or_self, decide_false,
            not_false_eq_true]
        rw [filter_cons_of_neg hdeliverable] at hroom
        obtain ⟨next, hnext, hkeeps⟩ := ReceiveLoop.handleBlock_other hkind hfragment hranges
        rw [hnext]
        exact (ih hrest (by rw [hkeeps.items]; exact hroom)).other hkeeps hkind hfragment
      | true =>
        have hdeliverable : isDeliverable block = true := by
          simp only [isDeliverable, hfragment, or_true, decide_true]
        rw [filter_cons_of_pos hdeliverable, length_cons] at hroom
        have hspace : loop.items.length < 255 := by omega
        obtain ⟨error, fragments, stopped, hadded, hstopped, hevents⟩ |
            ⟨outcome, fragments, next, hadded, hnext, rfl, hitems, hevents⟩ :=
          ReceiveLoop.handleBlock_fragment hfragment hfree hspace
        · rw [hstopped]
          exact handles_refused hfragment hadded hevents
        · rw [hnext]
          refine Handles.fragment (ih hrest ?_) hfragment hadded hitems hevents
          have hcount : outcome.toList.length ≤ 1 := by
            cases outcome with
            | none => exact Nat.zero_le _
            | some message => exact le_rfl
          rw [hitems, length_append]
          omega

theorem length_of_isDeliverable {block : Block} (hvalid : validateBlock block = true)
    (h : isDeliverable block = true) : 6 ≤ block.data.length := by
  unfold isDeliverable isFragmentBlock at h
  rw [decide_eq_true_eq, decide_eq_true_eq] at h
  unfold validateBlock at hvalid
  obtain h | h | h := h
  · rw [h] at hvalid
    have hlength := of_decide_eq_true hvalid
    omega
  · rw [h] at hvalid
    have hlength := of_decide_eq_true hvalid
    omega
  · rw [h] at hvalid
    have hlength := of_decide_eq_true hvalid
    omega

theorem deliverable_bytes (turns : Nat) (iterator : BlockIterator) :
    9 * ((collectBlocks turns iterator).1.filter isDeliverable).length ≤ iterator.rest.length := by
  induction turns generalizing iterator with
  | zero => exact Nat.zero_le _
  | succ turns ih =>
    unfold collectBlocks
    cases hnext : iterator.next with
    | stop => exact Nat.zero_le _
    | malformed => exact Nat.zero_le _
    | block block next =>
      obtain ⟨hvalid, hlength⟩ := BlockIterator.next_eq_block hnext
      have hrest := ih next
      rw [filter_cons]
      split
      next hdeliverable =>
        have hbytes := length_of_isDeliverable hvalid hdeliverable
        rw [length_cons]
        omega
      · omega

theorem finish_eq (htaken : setting.batchTaken = true) :
    dispatchedMessages (loop.finish setting) = dispatchedMessages loop.events ++ loop.items ∧
      reassembledBlocks (loop.finish setting) = reassembledBlocks loop.events := by
  unfold ReceiveLoop.finish ReceiveLoop.items dispatchedMessages reassembledBlocks
  cases loop.batch with
  | none =>
    cases loop.ackEliciting <;> cases loop.terminated <;>
      simp [ReceiveEvent.messages, ReceiveEvent.fragment]
  | some batch =>
    cases batch <;> cases loop.ackEliciting <;> cases loop.terminated <;>
      simp [ReceiveEvent.messages, ReceiveEvent.fragment, htaken]

def startLoop (session : ReceiveSession) : ReceiveLoop := ⟨session.fragments, none, false, false, []⟩

variable {session : ReceiveSession} {payload : Bytes}

theorem handlePayload_events (hcomplete : (payloadBlocks payload).2 = true) :
    (handlePayload setting session payload).2 =
      if ((startLoop session).handleBlocks setting (payloadBlocks payload).1).2 then
        ((startLoop session).handleBlocks setting (payloadBlocks payload).1).1.finish setting
      else ((startLoop session).handleBlocks setting (payloadBlocks payload).1).1.events := by
  unfold handlePayload startLoop
  dsimp only
  rw [hcomplete]
  split
  next hfinished => rw [if_pos hfinished.1]
  next hstopped => rw [if_neg (fun hfinished => hstopped ⟨hfinished, rfl⟩)]

theorem startLoop_handles (hfree : setting.batchFree = true) (hwell : WellFormed payload)
    (hfits : payload.length ≤ maxIPv4PacketLen) :
    Handles setting.nowMillis (startLoop session) (payloadBlocks payload).1
      ((startLoop session).handleBlocks setting (payloadBlocks payload).1) := by
  have hcount : 9 * ((payloadBlocks payload).1.filter isDeliverable).length ≤ payload.length :=
    deliverable_bytes (payload.length + 1) ⟨payload, false, false⟩
  apply handleBlocks_handles hfree
  · intro block hmem
    exact ⟨hwell.ranges _ hmem, hwell.messages _ hmem⟩
  · change 0 + _ ≤ 255
    unfold maxIPv4PacketLen at hfits
    omega

/-- No fragment is refused before the last thing that there is to deliver. -/
def NoneRefused (setting : ReceiveSetting) (session : ReceiveSession) (payload : Bytes) : Prop :=
  accepted setting.nowMillis session.fragments
    (if i2npMessages (payloadBlocks payload).1 = [] then
      (fragmentBlocks (payloadBlocks payload).1).dropLast
    else fragmentBlocks (payloadBlocks payload).1) = true

/-- A packet from the address of the session is delivered exactly when no fragment is refused. -/
theorem handlePayload_delivered_iff (hfree : setting.batchFree = true)
    (htaken : setting.batchTaken = true) (hwell : WellFormed payload)
    (hfits : payload.length ≤ maxIPv4PacketLen) :
    Delivered payload (handlePayload setting session payload).2 ↔
      NoneRefused setting session payload := by
  have hhandles := @startLoop_handles setting session payload hfree hwell hfits
  have hhanded : reassembledBlocks ((startLoop session).handleBlocks setting
      (payloadBlocks payload).1).1.events = tried setting.nowMillis session.fragments
        (fragmentBlocks (payloadBlocks payload).1) := hhandles.handed
  have hmessages : dispatchedMessages ((startLoop session).handleBlocks setting
      (payloadBlocks payload).1).1.events = [] := hhandles.messages
  unfold Delivered NoneRefused
  rw [handlePayload_events hwell.complete]
  cases haccepted : accepted setting.nowMillis session.fragments
      (fragmentBlocks (payloadBlocks payload).1) with
  | true =>
    have hfinished := hhandles.finished.trans haccepted
    obtain ⟨hdispatched, hblocks⟩ := @finish_eq setting
      ((startLoop session).handleBlocks setting (payloadBlocks payload).1).1 htaken
    have htried := tried_of_accepted haccepted
    rw [if_pos hfinished, hdispatched, hblocks, hmessages, hhanded]
    refine iff_of_true ⟨hhandles.items hfinished, htried⟩ ?_
    split
    · exact tried_eq_self_iff.mp htried
    · exact haccepted
  | false =>
    have hstopped := hhandles.finished.trans haccepted
    rw [if_neg (by rw [hstopped]; exact Bool.false_ne_true), hmessages, hhanded,
      sublist_nil, tried_eq_self_iff]
    split
    next hnone => exact and_iff_right hnone
    next hsome =>
    rw [haccepted]
    exact iff_of_false (fun h => hsome h.1) Bool.false_ne_true

/-- The events deliver nothing. -/
def Silent (events : List ReceiveEvent) : Prop :=
  dispatchedMessages events = [] ∧ reassembledBlocks events = []

variable (remote : AddrPort)

theorem candidateBlock_silent {state : ReceiveSession × List ReceiveEvent}
    (h : Silent state.2) (block : Block) : Silent (candidateBlock setting remote state block).2 := by
  unfold candidateBlock
  dsimp only
  split
  · exact h
  split
  · rw [Silent, dispatchedMessages, reassembledBlocks, flatMap_append, flatMap_append]
    exact ⟨append_eq_nil_iff.mpr ⟨h.1, rfl⟩, append_eq_nil_iff.mpr ⟨h.2, rfl⟩⟩
  split <;> exact h

theorem probePath_silent (candidate : PathCandidate) :
    Silent (probePath setting session payload remote candidate).2 := by
  unfold probePath
  split
  · exact run_preserves (I := fun state : ReceiveSession × List ReceiveEvent => Silent state.2)
      (fun _ block h => candidateBlock_silent _ h _) ⟨rfl, rfl⟩ _
  · exact ⟨rfl, rfl⟩

theorem handleCandidatePath_silent :
    Silent (handleCandidatePath setting session payload remote).2 := by
  unfold handleCandidatePath
  split
  · split
    · exact probePath_silent _ _
    · exact ⟨rfl, rfl⟩
  · split
    · exact ⟨rfl, rfl⟩
    · exact probePath_silent _ _

end Delivery

section Acknowledged

variable {setting : ReceiveSetting} {session : ReceiveSession} {packet : Bytes}
  {opened : OpenedPacket} {remote : Option AddrPort}

structure Records (session : ReceiveSession) (packet : Bytes) (opened : OpenedPacket) : Prop where
  opens : session.receive.bind (· packet) = some opened
  data : opened.type = .data
  mine : opened.destinationID = session.receiveID
  isNew : (session.received.observeNew opened.packetNumber).2 = true

theorem handleDataFrom_eq (h : Records session packet opened) :
    handleDataFrom setting session packet remote =
      handleOpened setting
        { session with received := (session.received.observeNew opened.packetNumber).1 }
        opened.payload remote := by
  unfold handleDataFrom
  rw [h.opens]
  dsimp only
  rw [if_neg (not_or.mpr ⟨not_not.mpr h.data, not_not.mpr h.mine⟩), if_pos h.isNew]

theorem handleOpened_delivered_iff {payload : Bytes} (hwell : WellFormed payload)
    (hfits : payload.length ≤ maxIPv4PacketLen) (hfree : setting.batchFree = true)
    (htaken : setting.batchTaken = true) :
    Delivered payload (handleOpened setting session payload remote).2 ↔
      i2npMessages (payloadBlocks payload).1 = [] ∧ fragmentBlocks (payloadBlocks payload).1 = [] ∨
        fromSessionAddress session remote = true ∧ NoneRefused setting session payload := by
  have hdirect := @handlePayload_delivered_iff setting session payload hfree htaken hwell hfits
  have hnothing : i2npMessages (payloadBlocks payload).1 = [] ∧
      fragmentBlocks (payloadBlocks payload).1 = [] → NoneRefused setting session payload := by
    rintro ⟨hmessages, hfragments⟩
    rw [NoneRefused, if_pos hmessages, hfragments]
    rfl
  cases remote with
  | none =>
    dsimp only [handleOpened]
    rw [hdirect]
    exact ⟨fun h => .inr ⟨rfl, h⟩, fun h => h.elim hnothing And.right⟩
  | some address =>
    dsimp only [handleOpened]
    by_cases haddress : fromSessionAddress session (some address) = true
    · rw [if_pos haddress, hdirect]
      exact ⟨fun h => .inr ⟨haddress, h⟩, fun h => h.elim hnothing And.right⟩
    obtain ⟨hmessages, hblocks⟩ := @handleCandidatePath_silent setting session payload address.unmap
    rw [if_neg haddress, Delivered, hmessages, hblocks, sublist_nil, @eq_comm _ ([] : List Block)]
    exact ⟨Or.inl, fun h => h.resolve_right fun hno => haddress hno.1⟩

end Acknowledged

/-- An I2NP message without a payload. -/
def fixedPayload : Bytes := [3, 0, 9, 1, 0, 0, 0, 5, 0, 0, 0, 9]

def fixedOpened : OpenedPacket := ⟨7, .data, 1, fixedPayload, by decide⟩

def fixedAddress (last : UInt8) : AddrPort := ⟨.v4 ⟨[192, 0, 2, last], rfl⟩, 8080⟩

def fixedSession : ReceiveSession where
  receive := some fun _ => some fixedOpened
  receiveID := 7
  received := .empty
  remote := some (fixedAddress 1)
  candidate := none
  fragments := ∅

def readySetting : ReceiveSetting where
  now := 100
  nowMillis := 100000
  timeout := 30
  batchFree := true
  batchTaken := true
  challenge := some (FixedBytes.zero 8)
  probeSent := true

theorem fixed_records : Records fixedSession [] fixedOpened where
  opens := rfl
  data := rfl
  mine := rfl
  isNew := by decide

theorem fixed_wellFormed : WellFormed fixedOpened.payload where
  complete := by decide
  ranges := by decide
  messages := by decide

end Ivnp.Router
