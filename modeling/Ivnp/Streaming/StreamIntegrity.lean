import Ivnp.Streaming.StreamPair
import Ivnp.Streaming.StreamReceive

/-!
End-to-end integrity of a stream. Every wire an end has ever sent is genuine:
its payload is the chunk of its number, and its acknowledgement covers only
what the end holds. Each direction is linked by this, by the receiver's prefix
of the taken chunks, and by the fact that every taken chunk is retained by the
sender or held by the receiver. One action of an end keeps both links, so every
interleaving does.
-/

namespace Ivnp.Streaming

open Ivnp.Lib List Option TunnelConn Endpoint

variable {src : Bytes}

/-- `Write` takes a number only with its packet: the chunk always fits, so the
packet is encoded and pending. -/
theorem TunnelConn.write_eq_some {conn : TunnelConn} {written : Written}
    (h : conn.write src = some written) :
    ∃ wire, (conn.dataPacket written.chunk).marshal = some wire ∧ written.chunk ≠ [] ∧
      written.wire = some wire ∧
      written.conn =
        { conn with
          nextSequence := conn.nextSequence + 1
          pending := conn.pending.insert conn.nextSequence ⟨wire, 0, 0, false⟩ } := by
  rw [write] at h
  split at h
  · simp at h
  next hrejected =>
  obtain ⟨hsrc, -, -⟩ := by simpa only [not_or] using hrejected
  have hsize := conn.peerMaxPayloadSize.property
  have hmin : 0 < minPeerMaxPayloadSize := by decide
  have hfits : (conn.dataPacket (src.take conn.peerMaxPayloadSize.val)).payload.length ≤
      maxPacketSize - headerLen :=
    (length_take_le _ _).trans hsize.2
  obtain ⟨wire, hwire⟩ := Packet.exists_marshal rfl rfl hfits
  dsimp only at h
  rw [hwire] at h
  obtain rfl := some.inj h
  refine ⟨wire, hwire, ?_, rfl, rfl⟩
  rw [ne_eq, take_eq_nil_iff, not_or]
  exact ⟨by omega, hsrc⟩

namespace Endpoint

/-- The positions this end holds of its peer's stream. -/
def Holds (endpoint : Endpoint) (position : Nat) : Prop :=
  endpoint.conn.Received (endpoint.delivered.length + 1) position

/-- A wire that says nothing false: its payload is the chunk of its number, and
it acknowledges only what the end holds. -/
def Genuine (endpoint : Endpoint) (wire : Bytes) : Prop :=
  ∀ packet, parse wire = some packet →
    (packet.sequence ≠ 0 → ChunkAt endpoint.accepted packet.sequence packet.payload) ∧
      (endpoint.conn.done = false → ∀ position < 2 ^ 31,
        sequenceBeforeOrEqual (UInt32.ofNat position) packet.ackThrough = true →
          containsNACK packet.nacks (UInt32.ofNat position) = false → endpoint.Holds position)

/-- What an end never takes back while it is not done. -/
structure Extends (endpoint next : Endpoint) : Prop where
  accepted : endpoint.accepted <+: next.accepted
  alive : next.conn.done = false → endpoint.conn.done = false
  holds : next.conn.done = false → ∀ position, endpoint.Holds position → next.Holds position

variable {sent : List Bytes} {wire : Bytes} {next : Endpoint}

theorem Genuine.mono {endpoint : Endpoint} (h : endpoint.Genuine wire)
    (hextends : Extends endpoint next) : next.Genuine wire := by
  intro packet hparse
  obtain ⟨hchunk, hack⟩ := h _ hparse
  refine ⟨fun hsequence => ?_, fun hdone position hnear hbefore hfree => ?_⟩
  · obtain ⟨more, hmore⟩ := hextends.accepted
    rw [← hmore]
    exact (hchunk hsequence).append more
  · exact hextends.holds hdone _
      (hack (hextends.alive hdone) _ hnear hbefore hfree)

def Retained (endpoint : Endpoint) (index : Nat) : Prop :=
  ∃ pending packet, endpoint.conn.pending.lookup (UInt32.ofNat (index + 1)) = some pending ∧
    parse pending.wire = some packet ∧ packet.sequence = UInt32.ofNat (index + 1) ∧
      endpoint.accepted[index]? = some packet.payload

/-- The sending side of an end with the wires it has sent. -/
structure Sends (endpoint : Endpoint) (wires : List Bytes) : Prop where
  next : endpoint.conn.nextSequence = UInt32.ofNat (endpoint.accepted.length + 1)
  chunks : ∀ chunk ∈ endpoint.accepted, chunk ≠ []
  pending : ∀ sequence packet, endpoint.conn.pending.lookup sequence = some packet →
    endpoint.Genuine packet.wire
  wires : ∀ wire ∈ wires, endpoint.Genuine wire

structure Linked (sender receiver : Endpoint) (wires : List Bytes) : Prop where
  sends : Sends sender wires
  receives : receiver.conn.Receives receiver.delivered sender.accepted
  stream : receiver.consumed ++ (receiver.conn.readCurrent ++ receiver.conn.reads.flatten) =
    receiver.delivered.flatten
  retains : sender.conn.done = false → receiver.conn.done = false →
    ∀ index < sender.accepted.length, sender.Retained index ∨ receiver.Holds (index + 1)

/-- What one action of an end has to keep up, given its peer. -/
structure Acts (endpoint next : Endpoint) (sent : List Bytes) (peer : Endpoint) : Prop where
  growth : Extends endpoint next
  sends : Sends next sent
  receives : next.conn.Receives next.delivered peer.accepted
  stream : next.consumed ++ (next.conn.readCurrent ++ next.conn.reads.flatten) =
    next.delivered.flatten
  retains : next.conn.done = false → peer.conn.done = false →
    ∀ index < next.accepted.length, next.Retained index ∨ peer.Holds (index + 1)

theorem Acts.linked {endpoint peer : Endpoint} {out inbox : List Bytes}
    (h : Acts endpoint next sent peer) (hout : Linked endpoint peer out)
    (hin : Linked peer endpoint inbox) :
    Linked next peer (out ++ sent) ∧ Linked peer next inbox := by
  obtain ⟨more, hmore⟩ := h.growth.accepted
  refine ⟨⟨⟨h.sends.next, h.sends.chunks, h.sends.pending, ?_⟩, ?_, hout.stream, h.retains⟩,
    ⟨hin.sends, h.receives, h.stream, ?_⟩⟩
  · intro wire hwire
    rcases mem_append.mp hwire with hold | hnew
    · exact (hout.sends.wires _ hold).mono h.growth
    · exact h.sends.wires _ hnew
  · refine ⟨hout.receives.expect, hout.receives.isPrefix.trans h.growth.accepted, ?_⟩
    intro sequence received hlookup
    rw [← hmore]
    exact (hout.receives.buffered _ _ hlookup).append more
  · intro hpeer hnext index hindex
    rcases hin.retains hpeer (h.growth.alive hnext) index hindex with hretained | hheld
    · exact Or.inl hretained
    · exact Or.inr (h.growth.holds hnext _ hheld)

theorem Extends.trans {first second third : Endpoint} (h₁ : Extends first second)
    (h₂ : Extends second third) : Extends first third :=
  ⟨h₁.accepted.trans h₂.accepted, fun h => h₁.alive (h₂.alive h),
    fun h position hheld => h₂.holds h _ (h₁.holds (h₂.alive h) position hheld)⟩

theorem Acts.trans {first second third peer : Endpoint} {more : List Bytes}
    (h₁ : Acts first second sent peer) (h₂ : Acts second third more peer) :
    Acts first third (sent ++ more) peer := by
  refine ⟨h₁.growth.trans h₂.growth, ⟨h₂.sends.next, h₂.sends.chunks, h₂.sends.pending, ?_⟩,
    h₂.receives, h₂.stream, h₂.retains⟩
  intro wire hwire
  rcases mem_append.mp hwire with hfirst | hsecond
  · exact (h₁.sends.wires _ hfirst).mono h₂.growth
  · exact h₂.sends.wires _ hsecond

theorem Acts.silent {endpoint peer : Endpoint}
    (h : Acts endpoint next sent peer) : Acts endpoint next [] peer :=
  ⟨h.growth, ⟨h.sends.next, h.sends.chunks, h.sends.pending, by simp⟩, h.receives, h.stream,
    h.retains⟩

section Actions

variable {endpoint peer : Endpoint} {out inbox : List Bytes}
  (hout : Linked endpoint peer out) (hin : Linked peer endpoint inbox)

theorem Extends.refl (endpoint : Endpoint) : Extends endpoint endpoint :=
  ⟨prefix_rfl, fun h => h, fun _ _ h => h⟩

include hout hin

theorem acts_refl (hsent : ∀ wire ∈ sent, endpoint.Genuine wire) :
    Acts endpoint endpoint sent peer :=
  ⟨Extends.refl endpoint, ⟨hout.sends.next, hout.sends.chunks, hout.sends.pending, hsent⟩,
    hin.receives, hin.stream, hout.retains⟩

theorem acts_advertise (size : Nat) :
    Acts endpoint { endpoint with conn := endpoint.conn.updatePeerMaxPayloadSize size } [] peer :=
  ⟨⟨prefix_rfl, fun h => h, fun _ _ h => h⟩,
    ⟨hout.sends.next, hout.sends.chunks, hout.sends.pending, by simp⟩,
    ⟨hin.receives.expect, hin.receives.isPrefix, hin.receives.buffered⟩, hin.stream, hout.retains⟩

theorem acts_queue {reads : List Bytes} {readCurrent consumed : Bytes}
    (hstream : consumed ++ (readCurrent ++ reads.flatten) = endpoint.delivered.flatten) :
    Acts endpoint
      { endpoint with conn := { endpoint.conn with reads, readCurrent }, consumed } [] peer :=
  ⟨⟨prefix_rfl, fun h => h, fun _ _ h => h⟩,
    ⟨hout.sends.next, hout.sends.chunks, hout.sends.pending, by simp⟩,
    ⟨hin.receives.expect, hin.receives.isPrefix, hin.receives.buffered⟩, hstream, hout.retains⟩

theorem acts_read (size : Nat) :
    Acts endpoint { endpoint with
        conn := (endpoint.conn.read size).1
        consumed := endpoint.consumed ++ (endpoint.conn.read size).2 } [] peer := by
  have hstream := hin.stream
  rw [TunnelConn.read]
  split
  · simpa using acts_refl hout hin (by simp)
  split
  · simpa using acts_refl hout hin (by simp)
  next payload reads hcurrent hreads =>
    refine acts_queue hout hin ?_
    rw [hcurrent, hreads, nil_append, flatten_cons] at hstream
    rw [← hstream, append_assoc, ← append_assoc (payload.take size), take_append_drop]
  next byte current hcurrent =>
    refine acts_queue hout hin ?_
    rw [hcurrent] at hstream
    rw [← hstream, append_assoc, ← append_assoc ((byte :: current).take size), take_append_drop]

omit hout in
theorem genuine_sendACK (h : endpoint.conn.sendACK = some wire) : endpoint.Genuine wire := by
  rw [sendACK] at h
  split at h
  · simp at h
  intro packet hparse
  rw [Packet.parse_marshal h] at hparse
  obtain rfl := some.inj hparse
  refine ⟨fun hsequence => absurd rfl hsequence, ?_⟩
  intro _ position hnear hbefore hfree
  obtain ⟨through, nacks, hack, -, hheld, -⟩ :=
    acknowledgments_positions hin.receives.expect (by omega)
  rw [ackPacket, hack] at hbefore hfree
  apply hheld position (Serial.le_of_beforeOrEqual (by omega) hbefore)
  rw [← containsNACK_encodeNACKs, hfree]
  decide

omit hout in
theorem genuine_dataPacket {chunk : Bytes}
    (h : (endpoint.conn.dataPacket chunk).marshal = some wire)
    (hsequence : ChunkAt next.accepted endpoint.conn.nextSequence chunk)
    (hgrowth : Extends endpoint next) : next.Genuine wire := by
  intro packet hparse
  rw [Packet.parse_marshal h] at hparse
  obtain rfl := some.inj hparse
  refine ⟨fun _ => hsequence, ?_⟩
  intro hdone position hnear hbefore _
  have hthrough : endpoint.conn.expect - 1 = UInt32.ofNat endpoint.delivered.length := by
    rw [hin.receives.expect, UInt32.ofNat_add]
    exact UInt32.add_sub_cancel _ _
  simp only [dataPacket, hthrough] at hbefore
  have hle := Serial.le_of_beforeOrEqual (by omega) hbefore
  exact hgrowth.holds hdone position (Or.inl (by omega))

theorem acts_write {written : TunnelConn.Written}
    (hwrite : endpoint.conn.write src = some written) (hbound : endpoint.accepted.length < 2 ^ 31) :
    ∃ wire, written.wire = some wire ∧
      Acts endpoint { endpoint with
          conn := written.conn, accepted := endpoint.accepted ++ [written.chunk] } [wire] peer := by
  obtain ⟨wire, hwire, hchunk, hsome, hconn⟩ := write_eq_some hwrite
  refine ⟨wire, hsome, ?_⟩
  rw [hconn]
  have hgrowth : Extends endpoint { endpoint with
        conn :=
          { endpoint.conn with
            nextSequence := endpoint.conn.nextSequence + 1
            pending := endpoint.conn.pending.insert endpoint.conn.nextSequence ⟨wire, 0, 0, false⟩ }
        accepted := endpoint.accepted ++ [written.chunk] } :=
    ⟨prefix_append _ _, fun h => h, fun _ _ h => h⟩
  have hlast : (endpoint.accepted ++ [written.chunk])[endpoint.accepted.length]? =
      some written.chunk := getElem?_concat_length
  have hgenuine := genuine_dataPacket hin hwire ⟨_, hout.sends.next, hlast⟩ hgrowth
  refine ⟨hgrowth, ⟨?_, ?_, ?_, ?_⟩,
    ⟨hin.receives.expect, hin.receives.isPrefix, hin.receives.buffered⟩, hin.stream, ?_⟩
  · rw [hout.sends.next, length_append, ← UInt32.ofNat_one, ← UInt32.ofNat_add]
    rfl
  · exact forall_mem_append.mpr ⟨hout.sends.chunks, forall_mem_singleton.mpr hchunk⟩
  · exact Table.forall_lookup_insert hgenuine
      fun _ _ hlookup => (hout.sends.pending _ _ hlookup).mono hgrowth
  · intro sent hsent
    rwa [mem_singleton.mp hsent]
  · intro hdone hpeer index hindex
    rw [length_append] at hindex
    rcases Nat.lt_succ_iff_lt_or_eq.mp hindex with hlt | rfl
    · refine (hout.retains hdone hpeer _ hlt).imp_left ?_
      rintro ⟨pending, packet, hlookup, hparse, hsequence, hat⟩
      refine ⟨pending, packet, ?_, hparse, hsequence, ?_⟩
      · have hne : UInt32.ofNat (index + 1) ≠ endpoint.conn.nextSequence := by
          intro heq
          have := Serial.ofNat_inj (by omega) (by omega) (hout.sends.next.symm.trans heq.symm)
          omega
        exact (AList.lookup_insert_ne hne).trans hlookup
      · exact (getElem?_append_left hlt).trans hat
    · refine Or.inl ⟨⟨wire, 0, 0, false⟩, _, ?_, Packet.parse_marshal hwire, hout.sends.next, hlast⟩
      rw [← hout.sends.next]
      exact AList.lookup_insert _

theorem acts_revise {f : UInt32 → PendingPacket → Option PendingPacket}
    (hwire : ∀ sequence old new, f sequence old = some new → new.wire = old.wire)
    (hdropped : peer.conn.done = false → ∀ index old,
      f (UInt32.ofNat (index + 1)) old = none → index < endpoint.accepted.length →
        peer.Holds (index + 1))
    (hsent : ∀ wire ∈ sent, endpoint.Genuine wire) :
    Acts endpoint
      { endpoint with conn := { endpoint.conn with pending := endpoint.conn.pending.revise f } } sent
      peer := by
  have hgrowth : Extends endpoint { endpoint with
        conn := { endpoint.conn with pending := endpoint.conn.pending.revise f } } :=
    ⟨prefix_rfl, fun h => h, fun _ _ h => h⟩
  refine ⟨hgrowth, ⟨hout.sends.next, hout.sends.chunks, ?_, fun wire hmem =>
      (hsent _ hmem).mono hgrowth⟩,
    ⟨hin.receives.expect, hin.receives.isPrefix, hin.receives.buffered⟩, hin.stream, ?_⟩
  · intro sequence new hlookup
    obtain ⟨old, hold, hnew⟩ := (Table.lookup_revise_eq_some f _ _ _).mp hlookup
    rw [hwire _ _ _ hnew]
    exact (hout.sends.pending _ _ hold).mono hgrowth
  · intro hdone hpeer index hindex
    rcases hout.retains hdone hpeer index hindex with hretained | hheld
    · obtain ⟨old, packet, hlookup, hparse, hsequence, hat⟩ := hretained
      cases hnew : f (UInt32.ofNat (index + 1)) old with
      | none => exact Or.inr (hdropped hpeer _ _ hnew hindex)
      | some new =>
        refine Or.inl ⟨new, packet, ?_, ?_, hsequence, hat⟩
        · exact (Table.lookup_revise_eq_some f _ _ _).mpr ⟨old, hlookup, hnew⟩
        · rw [hwire _ _ _ hnew, hparse]
    · exact Or.inr hheld

/-- An end that gives up stays consistent with what it had delivered. -/
theorem acts_abort (hsent : ∀ wire ∈ sent, endpoint.Genuine wire) :
    Acts endpoint { endpoint with conn := endpoint.conn.abort } sent peer := by
  have hgrowth : Extends endpoint { endpoint with conn := endpoint.conn.abort } :=
    ⟨prefix_rfl, fun h => by simp [abort] at h,
      fun h => by simp [abort] at h⟩
  exact ⟨hgrowth, ⟨hout.sends.next, hout.sends.chunks, by simp [abort],
      fun wire hmem => (hsent _ hmem).mono hgrowth⟩,
    ⟨hin.receives.expect, hin.receives.isPrefix, by simp [abort]⟩, hin.stream,
    fun h => by simp [abort] at h⟩

omit hin in
theorem genuine_resent (p : (Sigma fun _ : UInt32 => PendingPacket) → Bool) :
    ∀ wire ∈ (endpoint.conn.pending.entries.filter p).map (·.2.wire), endpoint.Genuine wire := by
  intro wire hmem
  obtain ⟨entry, hentry, rfl⟩ := mem_map.mp hmem
  exact hout.sends.pending entry.1 entry.2 (AList.mem_lookup_iff.mpr (mem_filter.mp hentry).1)

theorem acts_retry (due : List UInt32) :
    Acts endpoint { endpoint with conn := (endpoint.conn.retry due).1 } (endpoint.conn.retry due).2
      peer := by
  rw [retry]
  split
  · exact acts_refl hout hin (by simp)
  dsimp only
  split
  · exact acts_abort hout hin (genuine_resent hout _)
  refine acts_revise hout hin ?_ ?_ (genuine_resent hout _)
  · intro sequence old new hnew
    split at hnew <;> obtain rfl := some.inj hnew <;> rfl
  · intro _ index old hnone
    split at hnone <;> simp at hnone

omit hout hin in
theorem acknowledgeOne_wire {maxRetries : Nat} {through sequence : UInt32} {nacks : Bytes}
    {old new : PendingPacket}
    (h : TunnelConn.acknowledgeOne maxRetries through nacks sequence old = some new) :
    new.wire = old.wire := by
  rw [acknowledgeOne] at h
  split_ifs at h <;> obtain rfl := some.inj h <;> rfl

variable {packet : Packet}

theorem acts_acknowledge (hbound : endpoint.accepted.length < 2 ^ 31)
    (hack : peer.conn.done = false → ∀ position < 2 ^ 31,
      sequenceBeforeOrEqual (UInt32.ofNat position) packet.ackThrough = true →
        containsNACK packet.nacks (UInt32.ofNat position) = false → peer.Holds position) :
    Acts endpoint
      { endpoint with conn := (endpoint.conn.acknowledge packet.ackThrough packet.nacks).1 }
      (endpoint.conn.acknowledge packet.ackThrough packet.nacks).2 peer := by
  rw [acknowledge]
  split
  · exact acts_refl hout hin (by simp)
  refine acts_revise hout hin (fun _ _ _ => acknowledgeOne_wire) ?_ (genuine_resent hout _)
  intro hpeer index old hnone hindex
  obtain ⟨hbefore, hfree⟩ := acknowledgeOne_eq_none hnone
  exact hack hpeer (index + 1) (by omega) hbefore hfree

theorem acts_sequence (hbound : peer.accepted.length < 2 ^ 31)
    (hpacket : ChunkAt peer.accepted packet.sequence packet.payload) :
    Acts endpoint { endpoint with
        conn := (endpoint.conn.handleSequence packet).1
        delivered := endpoint.delivered ++
          (endpoint.conn.handleSequence packet).1.reads.drop endpoint.conn.reads.length } [] peer := by
  obtain ⟨new, hadvances⟩ := handleSequence_advances hin.receives hbound hin.sends.chunks hpacket
  obtain ⟨hreads, hreceives, hgrows, hsame⟩ := hadvances
  rw [hreads, drop_left]
  have hgrowth : Extends endpoint { endpoint with
        conn := (endpoint.conn.handleSequence packet).1
        delivered := endpoint.delivered ++ new } :=
    ⟨prefix_rfl, fun h => hsame.done.symm.trans h, fun _ => hgrows.received⟩
  refine ⟨hgrowth, ⟨?_, hout.sends.chunks, ?_, by simp⟩, hreceives, ?_, ?_⟩
  · exact hsame.nextSequence.trans hout.sends.next
  · intro sequence pending hlookup
    rw [hsame.pending] at hlookup
    exact (hout.sends.pending _ _ hlookup).mono hgrowth
  · rw [hsame.readCurrent, hreads, flatten_append, flatten_append, ← hin.stream]
    simp only [append_assoc]
  · intro hdone hpeer index hindex
    refine (hout.retains (hgrowth.alive hdone) hpeer _ hindex).imp_left ?_
    rintro ⟨pending, found, hlookup, hrest⟩
    exact ⟨pending, found, (congrArg _ hsame.pending).trans hlookup, hrest⟩

theorem acts_handle (hwire : peer.Genuine wire)
    (hbound : endpoint.accepted.length < 2 ^ 31) (hpeerBound : peer.accepted.length < 2 ^ 31) :
    Acts endpoint { endpoint with
        conn := (endpoint.conn.handle wire).1
        delivered := endpoint.delivered ++
          (endpoint.conn.handle wire).1.reads.drop endpoint.conn.reads.length }
      (endpoint.conn.handle wire).2 peer := by
  rw [handle]
  split
  · simpa using acts_refl hout hin (by simp)
  next packet hparse =>
  obtain ⟨hchunk, hack⟩ := hwire _ hparse
  split
  · simpa using acts_refl hout hin (by simp)
  split
  · simpa using acts_refl hout hin (by simp)
  dsimp only
  generalize hacknowledged : (if packet.flags &&& flagNoACK = 0 then
    endpoint.conn.acknowledge packet.ackThrough packet.nacks else (endpoint.conn, [])) = acknowledged
  have hfirst : Acts endpoint { endpoint with conn := acknowledged.1 } acknowledged.2 peer ∧
      acknowledged.1.reads = endpoint.conn.reads := by
    rw [← hacknowledged]
    split
    · refine ⟨acts_acknowledge hout hin hbound hack, ?_⟩
      rw [acknowledge]
      split <;> rfl
    · exact ⟨acts_refl hout hin (by simp), rfl⟩
  obtain ⟨hfirst, hreads⟩ := hfirst
  obtain ⟨hout₁, hin₁⟩ := hfirst.linked hout hin
  generalize hhandled : (if packet.sequence ≠ 0 then acknowledged.1.handleSequence packet
    else (acknowledged.1, false, false)) = handled
  have hsecond : Acts { endpoint with conn := acknowledged.1 } { endpoint with
        conn := handled.1
        delivered :=
          endpoint.delivered ++ handled.1.reads.drop acknowledged.1.reads.length } [] peer := by
    rw [← hhandled]
    split
    next hsequence => exact acts_sequence hout₁ hin₁ hpeerBound (hchunk hsequence)
    · simpa using acts_refl hout₁ hin₁ (by simp)
  rw [hreads] at hsecond
  obtain ⟨hout₂, hin₂⟩ := hsecond.linked hout₁ hin₁
  split
  · exact (hfirst.trans (hsecond.trans (acts_abort hout₂ hin₂ (forall_mem_nil _)))).silent
  have hsent : ∀ wire ∈ (if handled.2.1 then handled.1.sendACK.toList else []),
      Genuine { endpoint with
          conn := handled.1
          delivered := endpoint.delivered ++ handled.1.reads.drop endpoint.conn.reads.length }
        wire := by
    split
    · exact fun wire hmem => genuine_sendACK hin₂ (mem_toList.mp hmem)
    · exact forall_mem_nil _
  exact hfirst.trans (hsecond.trans (acts_refl hout₂ hin₂ hsent))

/-- One action of an end keeps up its side of both directions. -/
theorem acts_act (action : Action) (hbound : endpoint.accepted.length < 2 ^ 31)
    (hpeerBound : peer.accepted.length < 2 ^ 31) :
    Acts endpoint (endpoint.act inbox action).1 (endpoint.act inbox action).2 peer := by
  cases action with
  | write src =>
    rw [act]
    cases hwrite : endpoint.conn.write src with
    | none => exact acts_refl hout hin (forall_mem_nil _)
    | some written =>
      obtain ⟨conn, chunk, sent⟩ := written
      obtain ⟨wire, rfl, hacts⟩ := acts_write hout hin hwrite hbound
      exact hacts
  | retry due => exact acts_retry hout hin _
  | deliver index =>
    rw [act]
    cases hwire : inbox[index]? with
    | none => exact acts_refl hout hin (forall_mem_nil _)
    | some wire =>
      exact acts_handle hout hin (hin.sends.wires _ (mem_of_getElem? hwire)) hbound hpeerBound
  | ack => exact acts_refl hout hin fun wire hwire => genuine_sendACK hin (mem_toList.mp hwire)
  | read size => exact acts_read hout hin _
  | advertise size => exact acts_advertise hout hin _

end Actions

theorem act_accepted (endpoint : Endpoint) (inbox : List Bytes) (action : Action) :
    endpoint.accepted.length ≤ (endpoint.act inbox action).1.accepted.length := by
  cases action with
  | write src =>
    rw [act]
    split
    · exact le_rfl
    · exact le_rfl
    · rw [length_append]
      exact Nat.le_add_right _ _
  | deliver index =>
    rw [act]
    split <;> exact le_rfl
  | retry due => exact le_rfl
  | ack => exact le_rfl
  | read size => exact le_rfl
  | advertise size => exact le_rfl

/-- What one direction of a stream guarantees. -/
structure Intact (sender receiver : Endpoint) : Prop where
  delivered : receiver.delivered <+: sender.accepted
  consumed : receiver.consumed <+: sender.accepted.flatten
  numbered : sender.conn.nextSequence = UInt32.ofNat (sender.accepted.length + 1)
  kept : sender.conn.done = false → receiver.conn.done = false →
    ∀ index < sender.accepted.length,
      sender.Retained index ∨ index < receiver.delivered.length ∨
        ∃ received, receiver.conn.reordered.lookup (UInt32.ofNat (index + 1)) = some received ∧
          sender.accepted[index]? = some received.payload

theorem Linked.intact {sender receiver : Endpoint} {wires : List Bytes}
    (h : Linked sender receiver wires) (hbound : sender.accepted.length < 2 ^ 31) :
    Intact sender receiver := by
  refine ⟨h.receives.isPrefix, ?_, h.sends.next, ?_⟩
  · obtain ⟨rest, hrest⟩ := h.receives.isPrefix
    rw [← hrest, flatten_append, ← h.stream, append_assoc]
    exact prefix_append _ _
  · intro hsender hreceiver index hindex
    refine (h.retains hsender hreceiver _ hindex).imp_right ?_
    rintro (hlow | ⟨-, hheld⟩)
    · exact Or.inl (by omega)
    · obtain ⟨received, hlookup⟩ := isSome_iff_exists.mp (AList.lookup_isSome.mpr hheld)
      obtain ⟨place, hplace, hat⟩ := h.receives.buffered _ _ hlookup
      have hlt := (List.getElem?_eq_some_iff.mp hat).1
      have heq : index = place := by
        rcases Nat.le_total index place with hle | hle
        · have := Serial.ofNat_inj (by omega) (by omega) hplace.symm
          omega
        · have := Serial.ofNat_inj (by omega) (by omega) hplace
          omega
      exact Or.inr ⟨received, hlookup, heq ▸ hat⟩

theorem linked_start (leftID rightID : UInt32) (readCapacity maxRetries : Nat) :
    Linked (start leftID rightID readCapacity maxRetries)
      (start rightID leftID readCapacity maxRetries) [] :=
  ⟨⟨rfl, forall_mem_nil _, by simp [start, TunnelConn.start], forall_mem_nil _⟩,
    ⟨rfl, prefix_rfl, by simp [start, TunnelConn.start]⟩, rfl,
    fun _ _ index h => absurd h (Nat.not_lt_zero _)⟩

end Endpoint

namespace StreamPair

/-- Both directions are linked, as long as the numbers have not run out. -/
def Consistent (pair : StreamPair) : Prop :=
  pair.left.accepted.length < 2 ^ 31 → pair.right.accepted.length < 2 ^ 31 →
    Endpoint.Linked pair.left pair.right pair.toRight ∧
      Endpoint.Linked pair.right pair.left pair.toLeft

theorem step_consistent {pair : StreamPair} (h : pair.Consistent) (action : Side × Action) :
    (pair.step action).Consistent := by
  obtain ⟨side, action⟩ := action
  intro hleft hright
  cases side with
  | left =>
    have hbound := (pair.left.act_accepted pair.toLeft _).trans_lt hleft
    obtain ⟨hout, hin⟩ := h hbound hright
    exact (acts_act hout hin _ hbound hright).linked hout hin
  | right =>
    have hbound := (pair.right.act_accepted pair.toRight _).trans_lt hright
    obtain ⟨hin, hout⟩ := h hleft hbound
    exact ((acts_act hout hin _ hbound hleft).linked hout hin).symm

section Streams

variable (leftID rightID : UInt32) (readCapacity maxRetries : Nat) (actions : List (Side × Action))

theorem after_consistent : (after leftID rightID readCapacity maxRetries actions).Consistent :=
  have hstart : (start leftID rightID readCapacity maxRetries).Consistent :=
    fun _ _ => ⟨linked_start .., linked_start ..⟩
  run_preserves (I := Consistent) (fun _ action h => step_consistent h action) hstart _

/-- In both directions, after every interleaving of the actions of both ends
and the network: what is delivered is a prefix of what was taken, and every
number that was used has its packet pending until the receiver has its chunk. -/
theorem after_intact
    (hleft : (after leftID rightID readCapacity maxRetries actions).left.accepted.length < 2 ^ 31)
    (hright : (after leftID rightID readCapacity maxRetries actions).right.accepted.length < 2 ^ 31) :
    Endpoint.Intact (after leftID rightID readCapacity maxRetries actions).left
        (after leftID rightID readCapacity maxRetries actions).right ∧
      Endpoint.Intact (after leftID rightID readCapacity maxRetries actions).right
        (after leftID rightID readCapacity maxRetries actions).left := by
  obtain ⟨hout, hin⟩ := after_consistent _ _ _ _ _ hleft hright
  exact ⟨hout.intact hleft, hin.intact hright⟩

end Streams

/-- The second chunk overtakes the first, which is sent twice. -/
def overtaking : List (Side × Action) :=
  [(.left, .write [1]), (.left, .write [2]), (.right, .deliver 1), (.left, .retry [1]),
    (.right, .deliver 2), (.right, .deliver 0), (.left, .deliver 1), (.right, .read 1)]

theorem after_intact_overtaking :
    ((after 1 2 8 3 overtaking).right.delivered = [[1], [2]] ∧
      (after 1 2 8 3 overtaking).right.consumed = [1] ∧
      (after 1 2 8 3 overtaking).left.conn.pending.keys = []) ∧
      Endpoint.Intact (after 1 2 8 3 overtaking).left (after 1 2 8 3 overtaking).right ∧
        Endpoint.Intact (after 1 2 8 3 overtaking).right (after 1 2 8 3 overtaking).left :=
  ⟨by decide +kernel, after_intact 1 2 8 3 _ (by decide +kernel) (by decide +kernel)⟩

end StreamPair

end Ivnp.Streaming
