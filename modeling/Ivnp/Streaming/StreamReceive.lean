import Ivnp.Streaming.AckSound

/-!
The receiving side against the list of chunks its peer has taken so far: what
is on the read queue is a prefix of the list, and what waits in the reorder
buffer is at its place in it. Sequence number `k + 1` carries chunk `k`; with
fewer than 2 ^ 31 chunks the comparison of numbers is that of places.
-/

namespace Ivnp.Streaming

open Ivnp.Lib List

def ChunkAt (accepted : List Bytes) (sequence : UInt32) (payload : Bytes) : Prop :=
  ∃ index, sequence = UInt32.ofNat (index + 1) ∧ accepted[index]? = some payload

theorem ChunkAt.append {accepted : List Bytes} {sequence : UInt32} {payload : Bytes}
    (h : ChunkAt accepted sequence payload) (more : List Bytes) :
    ChunkAt (accepted ++ more) sequence payload := by
  obtain ⟨index, hsequence, hchunk⟩ := h
  refine ⟨index, hsequence, ?_⟩
  rw [List.getElem?_append_left (List.getElem?_eq_some_iff.mp hchunk).1, hchunk]

namespace TunnelConn

/-- The receiver has put the chunks `delivered` on its queue, the next one is
expected, and every buffered payload is a chunk at its place. -/
structure Receives (conn : TunnelConn) (delivered accepted : List Bytes) : Prop where
  expect : conn.expect = UInt32.ofNat (delivered.length + 1)
  isPrefix : delivered <+: accepted
  buffered : ∀ sequence received, conn.reordered.lookup sequence = some received →
    ChunkAt accepted sequence received.payload

/-- Everything but the receiving side is as it was. -/
structure SameSender (conn next : TunnelConn) : Prop where
  localID : next.localID = conn.localID
  remoteID : next.remoteID = conn.remoteID
  nextSequence : next.nextSequence = conn.nextSequence
  pending : next.pending = conn.pending
  readCurrent : next.readCurrent = conn.readCurrent
  done : next.done = conn.done

theorem SameSender.refl (conn : TunnelConn) : SameSender conn conn := ⟨rfl, rfl, rfl, rfl, rfl, rfl⟩

theorem SameSender.trans {first second third : TunnelConn} (h₁ : SameSender first second)
    (h₂ : SameSender second third) : SameSender first third :=
  ⟨h₂.localID.trans h₁.localID, h₂.remoteID.trans h₁.remoteID,
    h₂.nextSequence.trans h₁.nextSequence, h₂.pending.trans h₁.pending,
    h₂.readCurrent.trans h₁.readCurrent, h₂.done.trans h₁.done⟩

/-- What handling a data packet does to the receiving side: it puts some more
chunks on the queue. -/
structure Advances (conn next : TunnelConn) (delivered accepted : List Bytes) (new : List Bytes) :
    Prop where
  reads : next.reads = conn.reads ++ new
  receives : next.Receives (delivered ++ new) accepted
  grows : Grows conn next (delivered.length + 1) ((delivered ++ new).length + 1)
  same : SameSender conn next

variable {conn : TunnelConn} {delivered accepted : List Bytes}

theorem Advances.refl (h : conn.Receives delivered accepted) :
    Advances conn conn delivered accepted [] := by
  refine ⟨(append_nil _).symm, ?_, ?_, SameSender.refl conn⟩
  · rw [append_nil]
    exact h
  · rw [append_nil]
    exact ⟨h.expect, le_rfl, fun _ hheld => hheld⟩

theorem Advances.trans {first second third : TunnelConn} {new more : List Bytes}
    (h₁ : Advances first second delivered accepted new)
    (h₂ : Advances second third (delivered ++ new) accepted more) :
    Advances first third delivered accepted (new ++ more) := by
  refine ⟨?_, ?_, ?_, h₁.same.trans h₂.same⟩
  · rw [h₂.reads, h₁.reads, append_assoc]
  · rw [← append_assoc]
    exact h₂.receives
  · rw [← append_assoc]
    exact h₁.grows.trans h₂.grows

theorem Receives.chunk_of_expect (h : conn.Receives delivered accepted)
    (hbound : accepted.length < 2 ^ 31) {payload : Bytes}
    (hchunk : ChunkAt accepted conn.expect payload) :
    delivered ++ [payload] <+: accepted ∧ payload ∈ accepted := by
  obtain ⟨index, hsequence, hat⟩ := hchunk
  have hindex := (List.getElem?_eq_some_iff.mp hat).1
  have hlength := h.isPrefix.length_le
  rw [h.expect] at hsequence
  have heq : index = delivered.length := by
    rcases Nat.le_total index delivered.length with hle | hle
    · have := Serial.ofNat_inj (by omega) (by omega) hsequence
      omega
    · have := Serial.ofNat_inj (by omega) (by omega) hsequence.symm
      omega
  subst heq
  refine ⟨?_, mem_of_getElem? hat⟩
  obtain ⟨rest, rfl⟩ := h.isPrefix
  rw [getElem?_append_right le_rfl, Nat.sub_self] at hat
  obtain ⟨tail, rfl⟩ : ∃ tail, rest = payload :: tail := by
    cases rest with
    | nil => simp at hat
    | cons head tail => exact ⟨tail, by rw [Option.some.inj hat]⟩
  exact ⟨tail, by simp⟩

/-- Taking the expected chunk. `reordered` is the buffer afterwards, without
the chunk if it was there. -/
theorem deliver_advances {next : TunnelConn} {payload : Bytes}
    (reordered : Table UInt32 ReceivedPacket) (h : conn.Receives delivered accepted)
    (hbound : accepted.length < 2 ^ 31) (hchunks : ∀ chunk ∈ accepted, chunk ≠ [])
    (hchunk : ChunkAt accepted conn.expect payload)
    (hnext : conn.enqueuePayload payload = some next)
    (hkept : ∀ sequence ≠ conn.expect, sequence ∈ conn.reordered → sequence ∈ reordered)
    (hfrom : ∀ sequence received, reordered.lookup sequence = some received →
      conn.reordered.lookup sequence = some received) :
    Advances conn { next with reordered, expect := conn.expect + 1 } delivered accepted
      [payload] := by
  obtain ⟨hlonger, hmem⟩ := h.chunk_of_expect hbound hchunk
  have hgrows : Grows conn { next with reordered, expect := conn.expect + 1 }
      (delivered.length + 1) ((delivered ++ [payload]).length + 1) := by
    rw [length_append]
    exact grows_deliver h.expect rfl hkept
  rw [enqueuePayload, if_neg (hchunks _ hmem)] at hnext
  split at hnext
  · obtain rfl := Option.some.inj hnext
    exact ⟨rfl, ⟨hgrows.expect, hlonger, fun sequence received hlookup =>
      h.buffered _ _ (hfrom _ _ hlookup)⟩, hgrows,
      ⟨rfl, rfl, rfl, rfl, rfl, rfl⟩⟩
  · simp at hnext

theorem drain_advances {fuel : Nat} (h : conn.Receives delivered accepted)
    (hbound : accepted.length < 2 ^ 31) (hchunks : ∀ chunk ∈ accepted, chunk ≠ []) :
    ∃ new, Advances conn (drain fuel conn).1 delivered accepted new := by
  induction fuel generalizing conn delivered with
  | zero => exact ⟨[], Advances.refl h⟩
  | succ fuel ih =>
    rw [drain]
    split
    · exact ⟨[], Advances.refl h⟩
    next received hlookup =>
    split
    · exact ⟨[], Advances.refl h⟩
    next next hnext =>
    obtain ⟨-, hreordered⟩ := enqueuePayload_frame hnext
    have hstep := deliver_advances (next.reordered.erase conn.expect) h hbound hchunks
      (h.buffered _ _ hlookup) hnext ?_ ?_
    · obtain ⟨new, hrest⟩ := ih hstep.receives
      exact ⟨_, hstep.trans hrest⟩
    · intro sequence hne hmem
      rw [hreordered]
      exact AList.mem_erase.mpr ⟨hne, hmem⟩
    · intro sequence found hfound
      rw [hreordered] at hfound
      exact (Table.lookup_of_erase hfound).2

/-- Handling a genuine data packet only adds the next chunks to the queue. -/
theorem handleSequence_advances {packet : Packet} (h : conn.Receives delivered accepted)
    (hbound : accepted.length < 2 ^ 31) (hchunks : ∀ chunk ∈ accepted, chunk ≠ [])
    (hpacket : ChunkAt accepted packet.sequence packet.payload) :
    ∃ new, Advances conn (conn.handleSequence packet).1 delivered accepted new := by
  rw [handleSequence]
  split
  next hexpected =>
    rw [hexpected] at hpacket
    rw [enqueueExpected]
    split
    · exact ⟨[], Advances.refl h⟩
    next next hnext =>
    obtain ⟨hexpect, hreordered⟩ := enqueuePayload_frame hnext
    have hstep := deliver_advances next.reordered h hbound hchunks hpacket hnext
      (fun _ _ hmem => by rw [hreordered]; exact hmem)
      (fun _ _ hfound => by rw [← hreordered]; exact hfound)
    rw [← hexpect] at hstep
    obtain ⟨new, hrest⟩ := drain_advances hstep.receives hbound hchunks
    exact ⟨_, hstep.trans hrest⟩
  split
  · exact ⟨[], Advances.refl h⟩
  split
  · exact ⟨[], Advances.refl h⟩
  split
  · exact ⟨[], Advances.refl h⟩
  refine ⟨[], (append_nil _).symm, ?_, ?_, ⟨rfl, rfl, rfl, rfl, rfl, rfl⟩⟩
  · rw [append_nil]
    refine ⟨h.expect, h.isPrefix, ?_⟩
    exact Table.forall_lookup_insert hpacket h.buffered
  · rw [append_nil]
    refine ⟨h.expect, le_rfl, ?_⟩
    rintro position (hlow | ⟨hhigh, hheld⟩)
    · exact Or.inl hlow
    · exact Or.inr ⟨hhigh, (AList.mem_insert _).mpr (Or.inr hheld)⟩

end TunnelConn

end Ivnp.Streaming
