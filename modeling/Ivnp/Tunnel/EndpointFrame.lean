import Ivnp.Tunnel.Reassembly

/-!
What parsing leaves alone. A block of one message changes nothing of another
message while both tables have room, so a payload without fragments of a
message keeps what the endpoint has of it, and whatever such a payload puts out
is whole or reassembled under another message ID.
-/

namespace Ivnp.Tunnel

open Ivnp.Lib List AList

/-- The block is one part of a message. -/
def Block.fragmented (block : Block) : Bool := block.followOn || !block.last

variable {messageID : UInt32}

namespace Endpoint

/-- Everything but one message is as it was. -/
structure Frame (messageID : UInt32) (endpoint next : Endpoint) : Prop where
  reasm : Reassembler.Frame messageID endpoint.reasm next.reasm
  metas : ∀ other ≠ messageID, next.metas.lookup other = endpoint.metas.lookup other
  maxMeta : next.maxMeta = endpoint.maxMeta

theorem Frame.refl (messageID : UInt32) (endpoint : Endpoint) : Frame messageID endpoint endpoint :=
  ⟨Reassembler.Frame.refl _ _, fun _ _ => rfl, rfl⟩

theorem Frame.trans {first second third : Endpoint} (h₁ : Frame messageID first second)
    (h₂ : Frame messageID second third) : Frame messageID first third :=
  ⟨h₁.reasm.trans h₂.reasm, fun other hne => (h₂.metas _ hne).trans (h₁.metas other hne),
    h₂.maxMeta.trans h₁.maxMeta⟩

def Fits (endpoint : Endpoint) (ids : List UInt32) : Prop :=
  Table.Fits endpoint.reasm.maxEntries endpoint.reasm.entries ids ∧
    Table.Fits endpoint.maxMeta endpoint.metas ids

instance (endpoint : Endpoint) (ids : List UInt32) : Decidable (endpoint.Fits ids) :=
  inferInstanceAs (Decidable (_ ∧ _))

def Keyed (endpoint : Endpoint) : Prop :=
  ∀ messageID found, endpoint.metas.lookup messageID = some found →
    found.block.messageID = messageID

section Frame

variable {endpoint : Endpoint} {ids : List UInt32} {block : Block} {out : Nat}
  {nowMillis : UInt64} {delivered : List Block}

variable {next : Endpoint}

theorem Fits.frame (h : endpoint.Fits ids)
    (hid : messageID ∈ ids) (hframe : Frame messageID endpoint next) : next.Fits ids := by
  have hkeys {V : Type} {table after : Table UInt32 V}
      (hlookup : ∀ other ≠ messageID, after.lookup other = table.lookup other) :
      ∀ key ∈ after, key ∈ table ∨ key ∈ ids := by
    intro key hmem
    rcases eq_or_ne key messageID with rfl | hne
    · exact Or.inr hid
    · rw [← lookup_isSome, hlookup _ hne, lookup_isSome] at hmem
      exact Or.inl hmem
  rw [Fits, hframe.reasm.maxEntries, hframe.maxMeta]
  exact ⟨h.1.of_mem (hkeys hframe.reasm.lookup), h.2.of_mem (hkeys hframe.metas)⟩

/-- What a block does beside its own message: nothing; and what it puts out
belongs to its message. -/
structure Appends (endpoint : Endpoint) (block : Block) (delivered : List Block)
    (result : Parsed) : Prop where
  frame : Frame block.messageID endpoint result.endpoint
  keyed : endpoint.Keyed → result.endpoint.Keyed
  delivered : endpoint.Keyed → ∃ new, result.delivered = delivered ++ new ∧
    ∀ other ∈ new, other.messageID = block.messageID

theorem Appends.silent (error : Option TunnelError)
    (hframe : Frame block.messageID endpoint next) (hkeyed : endpoint.Keyed → next.Keyed) :
    Appends endpoint block delivered ⟨next, delivered, error⟩ :=
  ⟨hframe, hkeyed, fun _ => ⟨[], (append_nil _).symm, forall_mem_nil _⟩⟩

theorem deliver_appends {source : Block} {message : Bytes}
    (hframe : Frame block.messageID endpoint next) (hkeyed : endpoint.Keyed → next.Keyed)
    (hsource : endpoint.Keyed → source.messageID = block.messageID) :
    Appends endpoint block delivered
      (next.deliver out delivered block.messageID source message) := by
  rw [deliver]
  split
  · exact Appends.silent _ hframe hkeyed
  refine ⟨hframe.trans ⟨Reassembler.Frame.refl _ _, fun _ hne => lookup_erase_ne hne, rfl⟩,
    ?_, fun h => ⟨_, rfl, by simpa using hsource h⟩⟩
  intro h messageID found hfound
  rcases eq_or_ne messageID block.messageID with rfl | hne
  · simp [lookup_erase] at hfound
  · exact hkeyed h _ _ ((lookup_erase_ne hne).symm.trans hfound)

theorem frame_add (fragment : Fragment) (nowMillis : UInt64) (hfits : endpoint.Fits ids)
    (hid : fragment.messageID ∈ ids) :
    Frame fragment.messageID endpoint
      { endpoint with reasm := (endpoint.reasm.add fragment nowMillis).1 } := by
  refine ⟨Reassembler.add_frame _ _ _ ?_, fun _ _ => rfl, rfl⟩
  rcases Decidable.em (fragment.messageID ∈ endpoint.reasm.entries) with hmem | hnew
  · exact Or.inl hmem
  · exact Or.inr (hfits.1.length_ne hid hnew)

variable (hfits : endpoint.Fits ids) (hid : block.messageID ∈ ids)
include hfits hid

theorem remember_appends (h : endpoint.remember block nowMillis = .ok next) :
    Frame block.messageID endpoint next ∧ (endpoint.Keyed → next.Keyed) ∧
      ∃ found, next.metas.lookup block.messageID = some found := by
  rw [remember] at h
  split at h
  next prior hprior =>
    split at h
    · simp at h
    · obtain rfl := Except.ok.inj h
      exact ⟨Frame.refl _ _, fun hkeyed => hkeyed, prior, hprior⟩
  next hlookup =>
    have hfull := hfits.2.length_ne hid (lookup_eq_none.mp hlookup)
    rw [if_neg hfull] at h
    obtain rfl := Except.ok.inj h
    refine ⟨⟨Reassembler.Frame.refl _ _, fun _ hne => lookup_insert_ne hne, rfl⟩, ?_, _,
      lookup_insert _⟩
    intro hkeyed messageID found hfound
    rcases eq_or_ne messageID block.messageID with rfl | hne
    · obtain rfl := Option.some.inj ((lookup_insert _).symm.trans hfound)
      rfl
    · exact hkeyed _ _ ((lookup_insert_ne hne).symm.trans hfound)

theorem appendFollowOn_appends :
    Appends endpoint block delivered (endpoint.appendFollowOn out nowMillis delivered block) := by
  rw [appendFollowOn]
  split
  · exact Appends.silent _ (Frame.refl _ _) fun h => h
  have hframe := frame_add ⟨block.messageID, block.fragment, block.last, block.data⟩ nowMillis
    hfits hid
  dsimp only
  split
  · exact Appends.silent _ hframe fun h => h
  · exact Appends.silent _ hframe fun h => h
  split
  · exact Appends.silent _ hframe fun h => h
  next found hfound => exact deliver_appends hframe (fun h => h) fun hkeyed => hkeyed _ _ hfound

theorem appendFirst_appends :
    Appends endpoint block delivered (endpoint.appendFirst out nowMillis delivered block) := by
  rw [appendFirst]
  split
  · exact Appends.silent _ (Frame.refl _ _) fun h => h
  next remembered hremembered =>
  obtain ⟨hframe, hkeyed, found, hfound⟩ := remember_appends hfits hid hremembered
  have hadded := hframe.trans
    (frame_add ⟨block.messageID, 0, false, block.data⟩ nowMillis (hfits.frame hid hframe) hid)
  dsimp only
  split
  · exact Appends.silent _ hadded hkeyed
  · exact Appends.silent _ hadded hkeyed
  rw [hfound]
  exact deliver_appends hadded hkeyed fun h => hkeyed h _ _ hfound

omit hfits hid

theorem appendFragmentedBlock_appends (out : Nat) (nowMillis : UInt64) (delivered : List Block)
    (hfits : endpoint.Fits ids) (hid : block.messageID ∈ ids) (hfragmented : block.fragmented = true) :
    Appends endpoint block delivered
      (endpoint.appendFragmentedBlock out nowMillis delivered block) := by
  have hpart : ¬ (((!block.followOn) = true) ∧ block.last = true) := by
    rw [Block.fragmented] at hfragmented
    cases hfollow : block.followOn <;> cases hlast : block.last <;> simp_all
  rw [appendFragmentedBlock, if_neg hpart]
  split
  · exact appendFollowOn_appends hfits hid
  · exact appendFirst_appends hfits hid

end Frame

end Endpoint

section Payload

/-- The blocks the iterator reads before it ends or fails. -/
def readBlocks : Nat → Bytes → List Block
  | 0, _ => []
  | fuel + 1, rest =>
    match nextBlock rest with
    | .ok (some (block, rest)) => block :: readBlocks fuel rest
    | _ => []

def payloadBlocks (sha256 : Bytes → FixedBytes 32) (payload : Bytes) : List Block :=
  match openPayload sha256 payload with
  | .error _ => []
  | .ok blocks => readBlocks (blocks.length + 1) blocks

def fragmentIDs (sha256 : Bytes → FixedBytes 32) (payload : Bytes) : List UInt32 :=
  ((payloadBlocks sha256 payload).filter Block.fragmented).map Block.messageID

namespace Endpoint

structure Keeps (ids : List UInt32) (endpoint next : Endpoint) : Prop where
  entries : ∀ other ∉ ids, next.reasm.entries.lookup other = endpoint.reasm.entries.lookup other
  metas : ∀ other ∉ ids, next.metas.lookup other = endpoint.metas.lookup other
  maxMessage : next.reasm.maxMessage = endpoint.reasm.maxMessage

theorem Keeps.refl (ids : List UInt32) (endpoint : Endpoint) : Keeps ids endpoint endpoint :=
  ⟨fun _ _ => rfl, fun _ _ => rfl, rfl⟩

variable {ids : List UInt32}

theorem Keeps.trans {first second third : Endpoint}
    (h₁ : Keeps ids first second) (h₂ : Keeps ids second third) : Keeps ids first third :=
  ⟨fun other hne => (h₂.entries _ hne).trans (h₁.entries other hne),
    fun other hne => (h₂.metas _ hne).trans (h₁.metas other hne),
    h₂.maxMessage.trans h₁.maxMessage⟩

theorem Frame.keeps {endpoint next : Endpoint}
    (h : Frame messageID endpoint next) (hid : messageID ∈ ids) : Keeps ids endpoint next := by
  have hne {other : UInt32} (hother : other ∉ ids) : other ≠ messageID :=
    fun heq => hother (heq ▸ hid)
  exact ⟨fun other hother => h.reasm.lookup _ (hne hother),
    fun other hother => h.metas _ (hne hother), h.reasm.maxMessage⟩

/-- What parsing some blocks does: it changes nothing outside of their messages,
and what it puts out is one of them, whole, or reassembled under their IDs. -/
structure Parses (ids : List UInt32) (blocks : List Block) (endpoint : Endpoint)
    (delivered : List Block) (result : Parsed) : Prop where
  keeps : Keeps ids endpoint result.endpoint
  keyed : result.endpoint.Keyed
  delivered : ∃ new, result.delivered = delivered ++ new ∧
    ∀ block ∈ new, block ∈ blocks ∧ block.fragmented = false ∨ block.messageID ∈ ids

variable {blocks : List Block}

theorem parses_nil {endpoint : Endpoint}
    {delivered : List Block} (hkeyed : endpoint.Keyed) (error : Option TunnelError) :
    Parses ids blocks endpoint delivered ⟨endpoint, delivered, error⟩ :=
  ⟨Keeps.refl _ _, hkeyed, [], (append_nil _).symm, forall_mem_nil _⟩

theorem Parses.mono {more : List Block} {endpoint : Endpoint}
    {delivered : List Block} {result : Parsed} (h : Parses ids blocks endpoint delivered result)
    (hsubset : blocks ⊆ more) : Parses ids more endpoint delivered result := by
  obtain ⟨new, hnew, hall⟩ := h.delivered
  exact ⟨h.keeps, h.keyed, new, hnew, fun block hmem =>
    (hall _ hmem).imp_left fun ⟨hblock, hwhole⟩ => ⟨hsubset hblock, hwhole⟩⟩

theorem Parses.trans {endpoint : Endpoint}
    {delivered : List Block} {first second : Parsed} (h₁ : Parses ids blocks endpoint delivered first)
    (h₂ : Parses ids blocks first.endpoint first.delivered second) :
    Parses ids blocks endpoint delivered second := by
  obtain ⟨new, hnew, hall⟩ := h₁.delivered
  obtain ⟨more, hmore, hallMore⟩ := h₂.delivered
  refine ⟨h₁.keeps.trans h₂.keeps, h₂.keyed, new ++ more, ?_, ?_⟩
  · rw [hmore, hnew, append_assoc]
  · intro block hmem
    rcases mem_append.mp hmem with hfirst | hsecond
    · exact hall _ hfirst
    · exact hallMore _ hsecond

theorem appendFragmentedBlock_parses {block : Block} {endpoint : Endpoint}
    (out : Nat) (nowMillis : UInt64) (delivered : List Block) (hfits : endpoint.Fits ids)
    (hkeyed : endpoint.Keyed) (hid : block.fragmented = true → block.messageID ∈ ids) :
    Parses ids [block] endpoint delivered
        (endpoint.appendFragmentedBlock out nowMillis delivered block) ∧
      (endpoint.appendFragmentedBlock out nowMillis delivered block).endpoint.Fits ids := by
  cases hfragmented : block.fragmented with
  | true =>
    have happends := appendFragmentedBlock_appends out nowMillis delivered hfits
      (hid hfragmented) hfragmented
    obtain ⟨new, hnew, hall⟩ := happends.delivered hkeyed
    refine ⟨⟨happends.frame.keeps (hid hfragmented), happends.keyed hkeyed, new, hnew, ?_⟩,
      hfits.frame (hid hfragmented) happends.frame⟩
    intro other hmem
    rw [hall _ hmem]
    exact Or.inr (hid hfragmented)
  | false =>
    have hwhole : (!block.followOn) = true ∧ block.last = true := by
      rw [Block.fragmented] at hfragmented
      cases hfollow : block.followOn <;> cases hlast : block.last <;> simp_all
    rw [appendFragmentedBlock, if_pos hwhole]
    split
    · exact ⟨parses_nil hkeyed _, hfits⟩
    · exact ⟨⟨Keeps.refl _ _, hkeyed, [block], rfl, by simp [hfragmented]⟩, hfits⟩

theorem parseBlocks_parses (out : Nat) (nowMillis : UInt64) {fuel : Nat} {endpoint : Endpoint}
    {rest : Bytes} {delivered : List Block} (hfits : endpoint.Fits ids) (hkeyed : endpoint.Keyed)
    (hids : ∀ block ∈ readBlocks fuel rest, block.fragmented = true → block.messageID ∈ ids) :
    Parses ids (readBlocks fuel rest) endpoint delivered
      (parseBlocks out nowMillis fuel endpoint rest delivered) := by
  induction fuel generalizing endpoint rest delivered with
  | zero => exact parses_nil hkeyed _
  | succ fuel ih =>
    rw [readBlocks] at hids ⊢
    rw [parseBlocks]
    cases hnext : nextBlock rest with
    | error error => exact parses_nil hkeyed _
    | ok found =>
      rw [hnext] at hids
      rcases found with _ | ⟨block, later⟩
      · exact parses_nil hkeyed _
      dsimp only at hids ⊢
      obtain ⟨hfirst, hroom⟩ := appendFragmentedBlock_parses _ _ delivered hfits
        hkeyed (hids _ mem_cons_self)
      have hhead := hfirst.mono (cons_subset_cons _ (nil_subset (readBlocks fuel later)))
      split
      · exact hhead
      · refine hhead.trans ((ih hroom hfirst.keyed ?_).mono (subset_cons_self _ _))
        exact fun other hmem => hids _ (mem_cons_of_mem _ hmem)

/-- A payload touches only the messages it has fragments of. -/
theorem parse_parses (sha256 : Bytes → FixedBytes 32) {endpoint : Endpoint} {payload : Bytes}
    (out : Nat) (nowMillis : UInt64) (hfits : endpoint.Fits (fragmentIDs sha256 payload))
    (hkeyed : endpoint.Keyed) :
    Parses (fragmentIDs sha256 payload) (payloadBlocks sha256 payload) endpoint []
      (endpoint.parse sha256 payload out nowMillis) := by
  have hids : ∀ block ∈ payloadBlocks sha256 payload, block.fragmented = true →
      block.messageID ∈ fragmentIDs sha256 payload := fun block hmem hfragmented =>
    mem_map.mpr ⟨block, mem_filter.mpr ⟨hmem, hfragmented⟩, rfl⟩
  rw [parse]
  rw [payloadBlocks] at hids ⊢
  cases hopen : openPayload sha256 payload with
  | error error => exact parses_nil hkeyed _
  | ok blocks =>
    rw [hopen] at hids
    exact parseBlocks_parses _ _ hfits hkeyed hids

end Endpoint

end Payload

end Ivnp.Tunnel
