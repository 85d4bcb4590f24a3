import Ivnp.Ssu2.FragmentAssembly

/-!
From `forEachSSU2I2NPFragment` to `addFragment`. The blocks of one message reach a session
in any order and any number of times, among fragments of other messages, while the session
has room for its assembly. The session follows a collector over the numbers of the blocks,
so the message comes out each time the set of its blocks is complete.
-/

namespace Ivnp.Ssu2

open Ivnp.Lib Ivnp.Foundation List

/-- What reaches the session: a block of the message at hand, or another one. -/
inductive FragmentArrival where
  | own (number : Nat)
  | other (kind : UInt8) (data : Bytes)

/-- One call of `addFragment`. -/
structure FragmentInput where
  arrival : FragmentArrival
  now : UInt64

namespace FragmentInput

def block (frames : List Bytes) (input : FragmentInput) : UInt8 × Bytes :=
  match input.arrival with
  | .own number => (nextBlock (frames.getD number [])).getD (0, [])
  | .other kind data => (kind, data)

def number (input : FragmentInput) : Option Nat :=
  match input.arrival with
  | .own number => some number
  | .other _ _ => none

end FragmentInput

/-- A call with what it returned. -/
structure FragmentOutcome where
  input : FragmentInput
  result : Except FragmentError (Option I2NPMessage)

structure FragmentRun where
  fragments : Fragments
  log : List FragmentOutcome

namespace FragmentRun

/-- A session without assemblies. -/
def start : FragmentRun := ⟨∅, []⟩

def step (frames : List Bytes) (state : FragmentRun) (input : FragmentInput) : FragmentRun :=
  let block := input.block frames
  let result := addFragment state.fragments block.1 block.2 input.now
  ⟨result.2, state.log ++ [⟨input, result.1⟩]⟩

def after (frames : List Bytes) (inputs : List FragmentInput) : FragmentRun :=
  run (step frames) start inputs

/-- A block of the message with room for its assembly, or a block that is no fragment of it. -/
def Fair (frames : List Bytes) (id : UInt32) (state : FragmentRun) (input : FragmentInput) : Prop :=
  match input.arrival with
  | .own number => number < frames.length ∧
      Table.Fits ssu2MaxFragmentedMessages state.fragments [id]
  | .other kind data => fragmentID kind data ≠ some id

instance (frames : List Bytes) (id : UInt32) (state : FragmentRun) :
    ∀ input, Decidable (state.Fair frames id input)
  | ⟨.own _, _⟩ => inferInstanceAs (Decidable (_ ∧ _))
  | ⟨.other _ _, _⟩ => inferInstanceAs (Decidable (_ ≠ _))

end FragmentRun

def yieldedWith (id : UInt32) (log : List FragmentOutcome) : List I2NPMessage :=
  (log.filterMap fun outcome => outcome.result.toOption.join).filter fun message =>
    message.header.id = id

def gathered (count : Nat) (log : List FragmentOutcome) : Collector Nat :=
  run (Collector.step (Finset.range count)) Collector.start
    (log.filterMap fun outcome => outcome.input.number)

def receivedMessage (message : I2NPMessage) (seconds : UInt32) : I2NPMessage :=
  ⟨⟨message.header.type, message.header.id, decodeTransportExpiration seconds⟩, message.payload⟩

variable {number : Nat}

section Mirror

/-- The session has come as far as the collector. -/
structure FragmentMirrors (header : I2NPHeader) (parts : List Bytes) (state : FragmentRun) :
    Prop where
  tracks : Tracks header parts state.fragments (gathered parts.length state.log).held
  inside : (gathered parts.length state.log).held ⊆ Finset.range parts.length
  headed : HeadedAll state.fragments
  yielded : yieldedWith header.id state.log =
    List.replicate (gathered parts.length state.log).completed ⟨header, parts.flatten⟩
  accepted : ∀ outcome ∈ state.log, outcome.input.number.isSome → outcome.result.isOk

theorem gathered_concat (count : Nat) (log : List FragmentOutcome) (outcome : FragmentOutcome) :
    gathered count (log ++ [outcome]) =
      match outcome.input.number with
      | none => gathered count log
      | some number => (gathered count log).step (Finset.range count) number := by
  cases hnumber : outcome.input.number <;> simp [hnumber, gathered]

theorem yieldedWith_concat (id : UInt32) (log : List FragmentOutcome) (outcome : FragmentOutcome) :
    yieldedWith id (log ++ [outcome]) =
      yieldedWith id log ++ (outcome.result.toOption.join.toList.filter fun message =>
        message.header.id = id) := by
  cases houtcome : outcome.result.toOption.join <;> simp [houtcome, yieldedWith]

variable {kind : UInt8} {data : Bytes} {now : UInt64}

theorem addFragment_other {fragments : Fragments} {id : UInt32}
    (hother : fragmentID kind data ≠ some id) (hheaded : HeadedAll fragments) (now : UInt64) :
    (addFragment fragments kind data now).2.lookup id = fragments.lookup id ∧
      ∀ message, (addFragment fragments kind data now).1.toOption.join = some message →
        message.header.id ≠ id := by
  by_cases hkind : kind = blockFirstFragment ∨ kind = blockFollowOnFragment
  · rw [fragmentID, if_pos hkind] at hother
    have hne : id ≠ uint32At data 1 := fun heq => hother (congrArg some heq.symm)
    have hadds := addFragment_adds fragments kind data now
    refine ⟨hadds.lookup_ne hne, ?_⟩
    intro message hmessage heq
    generalize addFragment fragments kind data now = result at hadds hmessage
    cases hadds with
    | refused error => cases hmessage
    | dropped error => cases hmessage
    | kept assembly headed => cases hmessage
    | yielded message headed =>
      cases hmessage
      exact hne (heq.symm.trans (headed hheaded))
  · obtain ⟨hfirst, hfollow⟩ := not_or.mp hkind
    rw [addFragment, if_neg hfirst, if_neg hfollow]
    exact ⟨rfl, by rintro _ ⟨⟩⟩

variable {header : I2NPHeader} {seconds : UInt32} {parts : List Bytes} {frames : List Bytes}
  {state : FragmentRun}

theorem fragment_step_own (hcut : Cut parts) (hlength : frames.length = parts.length)
    (hframes : ∀ number < parts.length,
      nextBlock (frames.getD number []) = some (pieceBlock header seconds parts number))
    (h : FragmentMirrors ⟨header.type, header.id, decodeTransportExpiration seconds⟩ parts state) (hfair : state.Fair frames header.id ⟨.own number, now⟩) :
    FragmentMirrors ⟨header.type, header.id, decodeTransportExpiration seconds⟩ parts
      (state.step frames ⟨.own number, now⟩) := by
  obtain ⟨hnumber, hfits⟩ := hfair
  rw [hlength] at hnumber
  have hroom : state.fragments.lookup header.id = none →
      state.fragments.entries.length < ssu2MaxFragmentedMessages :=
    fun hnone => hfits.length_lt (mem_singleton_self _) (AList.lookup_eq_none.mp hnone)
  obtain ⟨hresult, htracks⟩ := addFragment_own hcut hnumber h.tracks h.inside hroom _
  have hblock : FragmentInput.block frames ⟨.own number, now⟩ =
      pieceBlock header seconds parts number :=
    congrArg (Option.getD · (0, [])) (hframes _ hnumber)
  have hheaded := (addFragment_adds state.fragments (pieceBlock header seconds parts number).1
    (pieceBlock header seconds parts number).2 now).headedAll h.headed
  have hstep : state.step frames ⟨.own number, now⟩ =
      ⟨(addFragment state.fragments (pieceBlock header seconds parts number).1
          (pieceBlock header seconds parts number).2 now).2,
        state.log ++ [⟨⟨.own number, now⟩, .ok (if insert number
            (gathered parts.length state.log).held = Finset.range parts.length then
          some ⟨⟨header.type, header.id, decodeTransportExpiration seconds⟩, parts.flatten⟩
        else none)⟩]⟩ := by
    rw [FragmentRun.step, hblock]
    dsimp only
    rw [hresult]
  rw [hstep]
  refine ⟨?_, ?_, hheaded, ?_, ?_⟩
  · rw [gathered_concat]
    dsimp only [FragmentInput.number]
    rw [Collector.held_step]
    exact htracks
  · rw [gathered_concat]
    dsimp only [FragmentInput.number]
    rw [Collector.held_step]
    split
    · exact Finset.empty_subset _
    · exact Finset.insert_subset (Finset.mem_range.mpr hnumber) h.inside
  · rw [gathered_concat, yieldedWith_concat, h.yielded]
    dsimp only [FragmentInput.number]
    rw [Collector.completed_step]
    split
    · rw [replicate_succ']
      simp [Except.toOption]
    · simp [Except.toOption]
  · exact forall_mem_append.mpr ⟨h.accepted, forall_mem_singleton.mpr fun _ => rfl⟩

theorem fragment_step_other (h : FragmentMirrors header parts state) (hfair : state.Fair frames header.id ⟨.other kind data, now⟩) :
    FragmentMirrors header parts (state.step frames ⟨.other kind data, now⟩) := by
  obtain ⟨hlookup, hmessages⟩ := addFragment_other hfair h.headed _
  have hheaded := (addFragment_adds state.fragments kind data now).headedAll h.headed
  refine ⟨?_, ?_, hheaded, ?_, ?_⟩
  · rw [FragmentRun.step, gathered_concat]
    have htracks := h.tracks
    unfold Tracks at htracks ⊢
    dsimp only [FragmentInput.block, FragmentInput.number]
    rw [hlookup]
    exact htracks
  · rw [FragmentRun.step, gathered_concat]
    exact h.inside
  · rw [FragmentRun.step, gathered_concat, yieldedWith_concat, h.yielded]
    dsimp only [FragmentInput.block, FragmentInput.number]
    have hnone : ((addFragment state.fragments kind data now).1.toOption.join.toList.filter
        fun message => message.header.id = header.id) = [] := by
      rw [filter_eq_nil_iff]
      intro message hmem
      rw [decide_eq_true_eq]
      exact hmessages _ (Option.mem_toList.mp hmem)
    rw [hnone, append_nil]
  · refine forall_mem_append.mpr ⟨h.accepted, forall_mem_singleton.mpr fun hown => ?_⟩
    cases hown

/-- The session follows the collector through every fair run. -/
theorem after_fragmentMirrors (hcut : Cut parts) (hlength : frames.length = parts.length)
    (hframes : ∀ number < parts.length,
      nextBlock (frames.getD number []) = some (pieceBlock header seconds parts number))
    {inputs : List FragmentInput}
    (hfair : Along (FragmentRun.step frames) (FragmentRun.Fair frames header.id) .start inputs) :
    FragmentMirrors ⟨header.type, header.id, decodeTransportExpiration seconds⟩ parts
      (.after frames inputs) := by
  refine run_invariant ?_ ⟨rfl, Finset.empty_subset _, nofun, rfl, forall_mem_nil _⟩ hfair
  rintro state ⟨arrival, now⟩ hinput hmirrors
  cases arrival with
  | own number => exact fragment_step_own hcut hlength hframes hmirrors hinput
  | other kind data => exact fragment_step_other hmirrors hinput

theorem log_after_fragments (frames : List Bytes) (inputs : List FragmentInput) :
    (FragmentRun.after frames inputs).log.map FragmentOutcome.input = inputs := by
  have hlog (state : FragmentRun) :
      (run (FragmentRun.step frames) state inputs).log.map FragmentOutcome.input =
        state.log.map FragmentOutcome.input ++ inputs := by
    induction inputs generalizing state with
    | nil => simp
    | cons input rest ih => rw [run_cons, ih, FragmentRun.step]; simp
  exact hlog .start

theorem gathered_after (count : Nat) (frames : List Bytes) (inputs : List FragmentInput) :
    gathered count (FragmentRun.after frames inputs).log =
      run (Collector.step (Finset.range count)) Collector.start
        (inputs.filterMap FragmentInput.number) := by
  nth_rewrite 2 [← log_after_fragments _ inputs]
  rw [filterMap_map]
  rfl

end Mirror

section Sent

variable {message : I2NPMessage} {maxPacket scratch : Nat} {seconds : UInt32}

theorem cut_pieces (hsize : PacketSize maxPacket)
    (hpayload : message.payload.length ≤ i2npMaxPayload)
    (hlarge : firstRoom maxPacket < message.payload.length) :
    Cut (pieces maxPacket message.payload) := by
  have hcount := followOnCount_le hsize hpayload
  have hpos := followOnCount_pos hsize hlarge
  refine ⟨?_, ?_, fun number hnumber => (length_piece hsize hlarge hnumber).1, ?_⟩
  · rw [length_pieces]
    omega
  · rw [length_pieces]
    omega
  · rw [flatten_pieces hsize]
    exact hpayload

theorem length_pieceBlock (seconds : UInt32) (hsize : PacketSize maxPacket)
    (hlarge : firstRoom maxPacket < message.payload.length)
    (hnumber : number < (pieces maxPacket message.payload).length) :
    (if number = 0 then 9 else 5) <
        (pieceBlock message.header seconds (pieces maxPacket message.payload) number).2.length ∧
      (pieceBlock message.header seconds (pieces maxPacket message.payload) number).2.length + 35 ≤
        maxPacket := by
  obtain ⟨hfull, hroom⟩ := length_piece hsize hlarge hnumber
  rw [pieceBlock]
  by_cases hzero : number = 0
  · subst hzero
    rw [if_pos rfl, firstRoom] at hroom
    rw [if_pos rfl, if_pos rfl]
    simp only [length_append, length_transportHeader, i2npTransportHeaderLen]
    omega
  · rw [if_neg hzero, nextRoom] at hroom
    rw [if_neg hzero, if_neg hzero]
    simp only [followOnData, length_cons, length_append, natBE_length]
    omega

theorem nextBlock_pieceFrame (hsize : PacketSize maxPacket)
    (hpayload : message.payload.length ≤ i2npMaxPayload)
    (hlarge : firstRoom maxPacket < message.payload.length)
    (hnumber : number < (pieces maxPacket message.payload).length) :
    nextBlock (pieceFrame message.header seconds (pieces maxPacket message.payload) number) =
      some (pieceBlock message.header seconds (pieces maxPacket message.payload) number) := by
  have hhigh := hsize.high
  have hfew := (cut_pieces hsize hpayload hlarge).few
  obtain ⟨hleast, hmost⟩ := length_pieceBlock seconds hsize hlarge hnumber
  have hkinds : blockFirstFragment ≠ blockI2NP ∧ blockFollowOnFragment ≠ blockI2NP ∧
      blockFollowOnFragment ≠ blockFirstFragment := by decide
  apply nextBlock_blockFrame (by omega)
  · intro hkind
    rw [pieceBlock] at hkind
    split at hkind
    · exact absurd hkind hkinds.1
    · exact absurd hkind hkinds.2.1
  · intro hkind
    by_cases hzero : number = 0
    · rwa [if_pos hzero] at hleast
    · rw [pieceBlock, if_neg hzero] at hkind
      exact absurd hkind hkinds.2.2
  · intro hkind
    by_cases hzero : number = 0
    · rw [pieceBlock, if_pos hzero] at hkind
      exact absurd hkind.symm hkinds.2.2
    rw [if_neg hzero] at hleast
    refine ⟨hleast, ?_⟩
    rw [pieceBlock, if_neg hzero]
    change followOnFlag number _ >>> 1 ≠ 0
    rw [followOnFlag_shift (by omega)]
    exact ofNat_ne_zero (Nat.pos_of_ne_zero hzero) (by omega)

/-- A message that fits one packet is sent as one block, read as the message. -/
theorem forEachSSU2I2NPFragment_one (hsize : PacketSize maxPacket) (hscratch : maxPacket ≤ scratch)
    (hsmall : message.payload.length ≤ firstRoom maxPacket)
    (hseconds : encodeTransportExpiration message.header.expiration = some seconds) :
    forEachSSU2I2NPFragment scratch message maxPacket =
      .ok [(blockFrame blockI2NP (transportHeader message.header.type message.header.id seconds ++
        message.payload), true)] := by
  have hlow := hsize.low
  have hhigh := hsize.high
  have hmax : i2npMaxPayload = 62690 := rfl
  have hroom : firstRoom maxPacket = maxPacket - 44 := rfl
  have hspace : ¬scratch < 3 + (transportHeader message.header.type message.header.id seconds ++
      message.payload).length := by
    simp only [length_append, length_transportHeader, i2npTransportHeaderLen]
    omega
  rw [forEachSSU2I2NPFragment, if_neg (hsize.not_outside hscratch)]
  rw [firstRoom_eq, if_pos hsmall, marshalSSU2I2NPTo, if_neg (by omega), hseconds]
  dsimp only
  rw [if_neg hspace]
  rfl

/-- What arrives of the frames of a message: one block that is decoded as the message, or
fragments that the session assembles to the message, as often as they are complete. -/
structure Arrives (message received : I2NPMessage) (frames : List Bytes) : Prop where
  whole : frames.length = 1 → ∃ data, nextBlock (frames.getD 0 []) = some (blockI2NP, data) ∧
    decodeSSU2I2NP data = some received
  numbered : ∀ number < frames.length, 0 < number → ∃ data,
    nextBlock (frames.getD number []) = some (blockFollowOnFragment, data) ∧
      (data.getD 0 0 >>> 1).toNat = number
  assembled : 1 < frames.length → ∀ inputs,
    Along (FragmentRun.step frames) (FragmentRun.Fair frames message.header.id) .start inputs →
      yieldedWith message.header.id (FragmentRun.after frames inputs).log =
          List.replicate (run (Collector.step (Finset.range frames.length)) Collector.start
            (inputs.filterMap FragmentInput.number)).completed received ∧
        (Collector.CompleteOnce (Finset.range frames.length)
            (inputs.filterMap FragmentInput.number) →
          yieldedWith message.header.id (FragmentRun.after frames inputs).log = [received]) ∧
        ∀ outcome ∈ (FragmentRun.after frames inputs).log,
          outcome.input.number.isSome → outcome.result.isOk

theorem arrives_one (hsize : PacketSize maxPacket)
    (hsmall : message.payload.length ≤ firstRoom maxPacket) (seconds : UInt32) :
    Arrives message (receivedMessage message seconds) [blockFrame blockI2NP
      (transportHeader message.header.type message.header.id seconds ++ message.payload)] := by
  have hhigh := hsize.high
  rw [firstRoom] at hsmall
  have hlength : (transportHeader message.header.type message.header.id seconds ++
      message.payload).length = 9 + message.payload.length := by
    rw [length_append, length_transportHeader, i2npTransportHeaderLen]
  refine ⟨fun _ => ⟨_, ?_, by rw [decodeSSU2I2NP, parseTransportHeader_append]; rfl⟩, ?_, ?_⟩
  · apply nextBlock_blockFrame
    · omega
    · omega
    · exact fun hkind => absurd hkind (by decide)
    · exact fun hkind => absurd hkind (by decide)
  · intro number hnumber hpos
    rw [length_singleton] at hnumber
    omega
  · exact fun hmany => absurd hmany (Nat.lt_irrefl 1)

theorem arrives_pieces (hsize : PacketSize maxPacket)
    (hpayload : message.payload.length ≤ i2npMaxPayload)
    (hlarge : firstRoom maxPacket < message.payload.length) {frames : List Bytes}
    (hlength : frames.length = (pieces maxPacket message.payload).length)
    (hframes : ∀ number < (pieces maxPacket message.payload).length, frames.getD number [] =
      pieceFrame message.header seconds (pieces maxPacket message.payload) number) :
    Arrives message (receivedMessage message seconds) frames := by
  have hcut := cut_pieces hsize hpayload hlarge
  have hmany := hcut.many
  have hfew := hcut.few
  have hblocks : ∀ number < (pieces maxPacket message.payload).length,
      nextBlock (frames.getD number []) =
        some (pieceBlock message.header seconds (pieces maxPacket message.payload) number) := by
    intro number hnumber
    rw [hframes _ hnumber]
    exact nextBlock_pieceFrame hsize hpayload hlarge hnumber
  refine ⟨fun hone => absurd hone (by omega), ?_, ?_⟩
  · intro number hnumber hpos
    rw [hblocks _ (by omega), pieceBlock, if_neg (Nat.ne_of_gt hpos)]
    refine ⟨_, rfl, ?_⟩
    change (followOnFlag number _ >>> 1).toNat = number
    rw [followOnFlag_shift (by omega)]
    exact UInt8.toNat_ofNat_of_lt' (by change number < 256; omega)
  · intro _ inputs hfair
    have hmirrors := after_fragmentMirrors hcut hlength hblocks hfair
    have hyielded := hmirrors.yielded
    rw [gathered_after, flatten_pieces hsize, ← hlength] at hyielded
    refine ⟨hyielded, ?_, hmirrors.accepted⟩
    intro honce
    have hinside : ∀ input ∈ inputs, ∀ number, input.number = some number →
        number < frames.length := by
      refine forall_of_along (fun state input hinput => ?_) hfair
      obtain ⟨arrival, now⟩ := input
      cases arrival with
      | own number =>
        rintro _ ⟨⟩
        exact hinput.1
      | other kind data => rintro _ ⟨⟩
    have hnumbers : ∀ number ∈ inputs.filterMap FragmentInput.number,
        number ∈ Finset.range frames.length := by
      intro number hmem
      obtain ⟨input, hinput, hnumber⟩ := mem_filterMap.mp hmem
      exact Finset.mem_range.mpr (hinside _ hinput _ hnumber)
    rw [Collector.completed_of_completeOnce hnumbers honce] at hyielded
    exact hyielded

end Sent

section Main

variable {message : I2NPMessage} {maxPacket scratch : Nat} {seconds : UInt32}

/-- From the sender to the receiver: a message whose expiration the transport can carry is
written into packets of the given size, at most 128, and arrives with its expiration to the
second. -/
theorem ssu2_fragment_roundTrip (hpayload : message.payload.length ≤ i2npMaxPayload)
    (hlow : 1232 ≤ maxPacket) (hhigh : maxPacket ≤ 1472) (hscratch : maxPacket ≤ scratch)
    (hseconds : encodeTransportExpiration message.header.expiration = some seconds) :
    ∃ frames, forEachSSU2I2NPFragment scratch message maxPacket = .ok frames ∧
      frames.length ≤ 128 ∧
      (frames.length = 1 ↔ message.payload.length + 44 ≤ maxPacket) ∧
      (∀ frame ∈ frames, shortHeaderLen + frame.1.length + packetTagLen ≤ maxPacket) ∧
      Arrives message (receivedMessage message seconds) (frames.map Prod.fst) ∧
      message.header.expiration < (receivedMessage message seconds).header.expiration ∧
      (receivedMessage message seconds).header.expiration ≤ message.header.expiration + 1000 := by
  have hsize : PacketSize maxPacket := ⟨hlow, hhigh⟩
  have hroom : firstRoom maxPacket = maxPacket - 44 := rfl
  have htime := decodeTransportExpiration_encode hseconds
  by_cases hsmall : message.payload.length ≤ firstRoom maxPacket
  · refine ⟨_, forEachSSU2I2NPFragment_one hsize hscratch hsmall hseconds, ?_, ?_, ?_,
      arrives_one hsize hsmall _, htime⟩
    · rw [length_singleton]
      omega
    · rw [length_singleton]
      omega
    · intro frame hmem
      rw [mem_singleton.mp hmem]
      simp only [blockFrame, length_cons, length_append, natBE_length,
        length_transportHeader, i2npTransportHeaderLen, shortHeaderLen, packetTagLen]
      omega
  · have hlarge := Nat.lt_of_not_le hsmall
    have hcut := cut_pieces hsize hpayload hlarge
    have hmany := hcut.many
    have hfew := hcut.few
    refine ⟨_, forEachSSU2I2NPFragment_eq hsize hscratch hpayload hlarge hseconds, ?_, ?_, ?_, ?_,
      htime⟩
    · rw [length_map, length_range]
      exact hfew
    · rw [length_map, length_range]
      omega
    · intro frame hmem
      obtain ⟨number, hnumber, rfl⟩ := mem_map.mp hmem
      have hblock := (length_pieceBlock seconds hsize hlarge (mem_range.mp hnumber)).2
      simp only [pieceFrame, blockFrame, length_cons, length_append, natBE_length,
        shortHeaderLen, packetTagLen]
      omega
    · apply arrives_pieces hsize hpayload hlarge
      · rw [length_map, length_map, length_range]
      · intro number hnumber
        rw [map_map, getD_eq_getElem?_getD, getElem?_map, getElem?_range hnumber]
        rfl

end Main

def fixedMessage (id : UInt32) (size : Nat) (expiration : UInt64) : I2NPMessage :=
  ⟨⟨20, id, expiration⟩, List.replicate size 7⟩

def fixedFrames (message : I2NPMessage) : List Bytes :=
  ((forEachSSU2I2NPFragment 1232 message 1232).toOption.getD []).map Prod.fst

/-- The second block comes twice before the first one and once after it, and a block of
another message comes between. -/
def fixedInputs : List FragmentInput :=
  [⟨.own 1, 10⟩, ⟨.own 1, 20⟩,
    ⟨.other blockFollowOnFragment (followOnData 9 1 false [1, 2, 3]), 30⟩, ⟨.own 0, 40⟩, ⟨.own 1, 50⟩]

theorem ssu2_fragment_roundTrip_two_blocks :
    yieldedWith 3 (FragmentRun.after (fixedFrames (fixedMessage 3 1500 1000)) fixedInputs).log =
      [receivedMessage (fixedMessage 3 1500 1000) 1] := by
  obtain ⟨frames, hframes, -, -, -, harrives, -⟩ :=
    @ssu2_fragment_roundTrip (fixedMessage 3 1500 1000) 1232 1232 1 (by decide +kernel) le_rfl
      (by decide) le_rfl (by decide)
  obtain hfixed : fixedFrames (fixedMessage 3 1500 1000) = frames.map Prod.fst := by
    rw [fixedFrames, hframes]
    rfl
  rw [← hfixed] at harrives
  refine (harrives.assembled (by decide +kernel) _ (by decide +kernel)).2.1 ?_
  refine ⟨[1, 1], 0, [1], by decide +kernel, by decide +kernel, by decide, ?_, 0,
    by decide +kernel, by decide⟩
  decide +kernel

/-- A completed message is forgotten, so its blocks fed again yield it again; the one block
of a message that fits a packet is no fragment; and an expiration after the last second of
the transport header is refused. -/
theorem yielded_again_and_refused :
    (Along (FragmentRun.step (fixedFrames (fixedMessage 3 1500 1000)))
        (FragmentRun.Fair (fixedFrames (fixedMessage 3 1500 1000)) 3) .start
        [⟨.own 0, 10⟩, ⟨.own 1, 20⟩, ⟨.own 0, 30⟩, ⟨.own 1, 40⟩] ∧
      yieldedWith 3 (FragmentRun.after (fixedFrames (fixedMessage 3 1500 1000))
          [⟨.own 0, 10⟩, ⟨.own 1, 20⟩, ⟨.own 0, 30⟩, ⟨.own 1, 40⟩]).log =
        [receivedMessage (fixedMessage 3 1500 1000) 1,
          receivedMessage (fixedMessage 3 1500 1000) 1]) ∧
    (Along (FragmentRun.step (fixedFrames (fixedMessage 3 10 1000)))
        (FragmentRun.Fair (fixedFrames (fixedMessage 3 10 1000)) 3) .start [⟨.own 0, 10⟩] ∧
      (FragmentRun.after (fixedFrames (fixedMessage 3 10 1000)) [⟨.own 0, 10⟩]).log.map
        (fun outcome => outcome.result.isOk) = [false]) ∧
    (forEachSSU2I2NPFragment 1232 (fixedMessage 3 10 4294967295500) 1232).isOk = false := by
  refine ⟨⟨?_, ?_⟩, ⟨?_, ?_⟩, ?_⟩ <;> decide +kernel

end Ivnp.Ssu2
