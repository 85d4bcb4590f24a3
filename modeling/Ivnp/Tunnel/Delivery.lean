import Ivnp.Tunnel.EndpointFrame
import Ivnp.Tunnel.Fragmentation

/-!
The endpoint as a collector of one message. The payloads of a block in whatever
order do to the endpoint what their numbers do to a collector, and each time
the set is complete the block comes out once.
-/

namespace Ivnp.Tunnel

open Ivnp.Lib Finset Endpoint

section Carried

variable {sha256 : Bytes → FixedBytes 32} {payload : Bytes} {piece : Block}

theorem parse_carries (h : Carries sha256 payload piece) (endpoint : Endpoint) (out : Nat)
    (nowMillis : UInt64) :
    endpoint.parse sha256 payload out nowMillis =
      endpoint.appendFragmentedBlock out nowMillis [] piece.carried := by
  obtain ⟨space, bytes, hopen, hmarshal⟩ := h
  have hnext := nextBlock_marshalBlock hmarshal []
  rw [List.append_nil] at hnext
  obtain ⟨byte, rest, rfl⟩ : ∃ byte rest, bytes = byte :: rest := by
    cases bytes with
    | nil => simp [nextBlock] at hnext
    | cons byte rest => exact ⟨byte, rest, rfl⟩
  rw [parse, hopen]
  dsimp only
  rw [parseBlocks, hnext]
  dsimp only
  split
  · rfl
  next hnone =>
  rw [List.length_cons, parseBlocks, nextBlock]
  rw [Option.not_isSome_iff_eq_none] at hnone
  rw [← hnone]

theorem payloadBlocks_carries (h : Carries sha256 payload piece) :
    payloadBlocks sha256 payload = [piece.carried] := by
  obtain ⟨space, bytes, hopen, hmarshal⟩ := h
  have hnext := nextBlock_marshalBlock hmarshal []
  rw [List.append_nil] at hnext
  rw [payloadBlocks, hopen]
  dsimp only
  rw [readBlocks, hnext]
  cases bytes with
  | nil => rfl
  | cons byte rest => rfl

end Carried

section Piece

variable (block : Block) (messageID : UInt32)

def Block.delivered : Block :=
  { (block.piece messageID 0).carried with data := block.data, last := true }

variable {block} in
theorem delivered_same (hvalid : block.Valid) :
    (block.delivered messageID).delivery = block.delivery ∧
      (block.delivered messageID).gateway = block.gateway ∧
      (block.delivered messageID).tunnelID = block.tunnelID ∧
      (block.delivered messageID).data = block.data := by
  rw [Block.delivered, Block.piece, if_pos rfl, Block.carried, if_neg (by simp [hvalid.first])]
  have hgateway := hvalid.gateway
  have htunnelID := hvalid.tunnelID
  cases hdelivery : block.delivery with
  | deliveryLocal => simp_all
  | deliveryTunnel => simp
  | deliveryRouter => simp_all

variable {block} in
theorem carried_first (hvalid : block.Valid) :
    (block.piece messageID 0).carried.followOn = false ∧
      (block.piece messageID 0).carried.last = decide (block.parts.length = 1) ∧
      (block.piece messageID 0).carried.data = block.parts.getD 0 [] ∧
      (1 < block.parts.length → (block.piece messageID 0).carried.messageID = messageID) := by
  rw [Block.piece, if_pos rfl, Block.carried, if_neg (by simp [hvalid.first])]
  refine ⟨rfl, rfl, rfl, fun hmany => if_neg ?_⟩
  rw [decide_eq_true_eq]
  omega

theorem carried_piece {number : Nat} (hnumber : 0 < number) :
    (block.piece messageID number).carried =
      followOnBlock messageID number (decide (number + 1 = block.parts.length))
        (block.parts.getD number []) := by
  rw [Block.piece, if_neg (by omega)]
  rfl

end Piece

theorem fragmentIDs_carries {sha256 : Bytes → FixedBytes 32} {payload : Bytes} {block : Block}
    {messageID : UInt32} {number : Nat} (hvalid : block.Valid) (hmany : 1 < block.parts.length)
    (hcarries : Carries sha256 payload (block.piece messageID number)) :
    fragmentIDs sha256 payload = [messageID] := by
  have hpart : (block.piece messageID number).carried.fragmented = true ∧
      (block.piece messageID number).carried.messageID = messageID := by
    rcases Nat.eq_zero_or_pos number with rfl | hpos
    · obtain ⟨-, hlast, -, hid⟩ := carried_first _ hvalid
      rw [Block.fragmented, hlast, decide_eq_false (by omega)]
      exact ⟨Bool.or_true _, hid hmany⟩
    · rw [carried_piece _ _ hpos]
      exact ⟨rfl, rfl⟩
  rw [fragmentIDs, payloadBlocks_carries hcarries, List.filter_cons_of_pos hpart.1]
  simp [hpart.2]

/-- What the endpoint has of a block: the parts `held`, and with the first of
them its delivery instructions. A block that travels whole leaves no trace. -/
structure Tracks (block : Block) (messageID : UInt32) (endpoint : Endpoint) (held : Finset Nat) :
    Prop where
  proper : held ⊂ Finset.range block.parts.length
  entries : 1 < block.parts.length →
    Collects block.parts (endpoint.reasm.entries.lookup messageID) held
  remembered : 1 < block.parts.length → 0 ∈ held →
    ∃ created, endpoint.metas.lookup messageID =
      some ⟨{ (block.piece messageID 0).carried with data := [] }, created⟩
  unknown : 1 < block.parts.length → 0 ∉ held → endpoint.metas.lookup messageID = none
  size : block.data.length ≤ endpoint.reasm.maxMessage

theorem Tracks.keeps {block : Block} {messageID : UInt32} {endpoint next : Endpoint}
    {held : Finset Nat} {ids : List UInt32} (h : Tracks block messageID endpoint held)
    (hkeeps : Endpoint.Keeps ids endpoint next) (hids : 1 < block.parts.length → messageID ∉ ids) :
    Tracks block messageID next held :=
  ⟨h.proper, fun hmany => (hkeeps.entries _ (hids hmany)).symm ▸ h.entries hmany,
    fun hmany => (hkeeps.metas _ (hids hmany)).symm ▸ h.remembered hmany,
    fun hmany => (hkeeps.metas _ (hids hmany)).symm ▸ h.unknown hmany,
    hkeeps.maxMessage.symm ▸ h.size⟩

structure Delivers (block : Block) (messageID : UInt32) (held : Finset Nat) (number : Nat)
    (result : Parsed) : Prop where
  error : result.error = none
  delivered : result.delivered =
    if insert number held = Finset.range block.parts.length then [block.delivered messageID] else []
  tracks : Tracks block messageID result.endpoint
    (if insert number held = Finset.range block.parts.length then ∅ else insert number held)

theorem empty_ssubset_parts (block : Block) : ∅ ⊂ Finset.range block.parts.length := by
  rw [empty_ssubset, nonempty_range_iff]
  exact (parts_pos _).ne'

section Added

variable {block : Block} (hvalid : block.Valid) {messageID : UInt32} {base : Endpoint}
  {held : Finset Nat} {number : Nat}

/-- An endpoint ready for part `number`: what it has of the block is `held`, and
it has the delivery instructions if the first part is among all these. -/
structure Awaits (block : Block) (messageID : UInt32) (base : Endpoint) (held : Finset Nat)
    (number : Nat) : Prop where
  proper : held ⊂ Finset.range block.parts.length
  inside : number < block.parts.length
  entries : Collects block.parts (base.reasm.entries.lookup messageID) held
  remembered : 0 ∈ insert number held →
    ∃ created, base.metas.lookup messageID =
      some ⟨{ (block.piece messageID 0).carried with data := [] }, created⟩
  unknown : 0 ∉ insert number held → base.metas.lookup messageID = none
  size : block.data.length ≤ base.reasm.maxMessage
  fits : base.Fits [messageID]

def withPart (block : Block) (messageID : UInt32) (base : Endpoint) (number : Nat)
    (nowMillis : UInt64) : Endpoint :=
  { base with
    reasm := (base.reasm.add (partFragment messageID block.parts number) nowMillis).1 }

variable (hawaits : Awaits block messageID base held number) (nowMillis : UInt64)
include hvalid hawaits

theorem Awaits.add :
    (base.reasm.add (partFragment messageID block.parts number) nowMillis).2 =
        .ok (if insert number held = Finset.range block.parts.length then some block.data
          else none) ∧
      Collects block.parts
        ((withPart block messageID base number nowMillis).reasm.entries.lookup messageID)
        (if insert number held = Finset.range block.parts.length then ∅ else insert number held) := by
  have hsize : block.parts.flatten.length ≤ base.reasm.maxMessage := by
    rw [flatten_parts]
    exact hawaits.size
  have hadd := add_collects nowMillis (length_parts_le hvalid) hawaits.inside hawaits.entries
    (parts_ne_nil hvalid) hawaits.proper hsize
  rwa [flatten_parts] at hadd

omit hvalid in
theorem Awaits.size_withPart :
    block.data.length ≤ (withPart block messageID base number nowMillis).reasm.maxMessage := by
  have hframe := frame_add (partFragment messageID block.parts number) nowMillis
    hawaits.fits List.mem_cons_self
  exact hawaits.size.trans hframe.reasm.maxMessage.ge

theorem Awaits.incomplete (hmissing : insert number held ≠ Finset.range block.parts.length) :
    Delivers block messageID held number
      ⟨withPart block messageID base number nowMillis, [], none⟩ := by
  have hcollects := (hawaits.add hvalid nowMillis).2
  rw [if_neg hmissing] at hcollects
  refine ⟨rfl, (if_neg hmissing).symm, ?_⟩
  rw [if_neg hmissing]
  exact ⟨(insert_subset (mem_range.mpr hawaits.inside)
    hawaits.proper.1).ssubset_of_ne hmissing, fun _ => hcollects, fun _ => hawaits.remembered,
    fun _ => hawaits.unknown, hawaits.size_withPart _⟩

theorem Awaits.complete (hfull : insert number held = Finset.range block.parts.length) {out : Nat}
    (hout : 0 < out) :
    Delivers block messageID held number
      ((withPart block messageID base number nowMillis).deliver out [] messageID
        { (block.piece messageID 0).carried with data := [] } block.data) := by
  have hcollects := (hawaits.add hvalid nowMillis).2
  rw [if_pos hfull] at hcollects
  have hroom : ¬ ([] : List Block).length = out := by
    rw [List.length_nil]
    omega
  rw [deliver, if_neg hroom]
  refine ⟨rfl, (if_pos hfull).symm, ?_⟩
  rw [if_pos hfull]
  exact ⟨empty_ssubset_parts _, fun _ => hcollects, fun _ h => absurd h (notMem_empty 0),
    fun _ _ => AList.lookup_erase _ _, hawaits.size_withPart _⟩

end Added

section Own

variable {block : Block} (hvalid : block.Valid) {messageID : UInt32} {endpoint : Endpoint}
  {held : Finset Nat} (htracks : Tracks block messageID endpoint held) {out : Nat} (hout : 0 < out)
  (nowMillis : UInt64)
include hvalid htracks hout

theorem append_whole (hone : block.parts.length = 1) :
    Delivers block messageID held 0
      (endpoint.appendFragmentedBlock out nowMillis [] (block.piece messageID 0).carried) := by
  have hheld : held = ∅ := by
    have hproper := htracks.proper
    rw [hone] at hproper
    exact ssubset_singleton_iff.mp hproper
  have hfull : insert 0 held = range block.parts.length := by
    rw [hheld, hone]
    rfl
  obtain ⟨hfirst, hlast, hdata, -⟩ := carried_first _ hvalid
  have hwhole : block.parts.getD 0 [] = block.data := by
    obtain ⟨part, hpart⟩ := List.length_eq_one_iff.mp hone
    rw [← flatten_parts, hpart]
    simp
  have hdelivered : block.delivered messageID = (block.piece messageID 0).carried := by
    rw [Block.delivered, ← hwhole, ← hdata, show true = (block.piece messageID 0).carried.last by
      rw [hlast, hone]; rfl]
  rw [appendFragmentedBlock, if_pos (by rw [hfirst, hlast, hone]; decide),
    if_neg (by rw [List.length_nil]; omega)]
  refine ⟨rfl, ?_, ?_⟩
  · rw [if_pos hfull, hdelivered]
    rfl
  · rw [if_pos hfull, ← hheld]
    exact htracks

section Parts

variable {number : Nat} (hmany : 1 < block.parts.length) (hnumber : number < block.parts.length)
  (hfits : endpoint.Fits [messageID])
include hmany hnumber hfits

theorem append_followOn (hpos : 0 < number) :
    Delivers block messageID held number
      (endpoint.appendFragmentedBlock out nowMillis [] (block.piece messageID number).carried) := by
  have hzero : 0 ∈ insert number held ↔ 0 ∈ held := by rw [mem_insert, or_iff_right (by omega)]
  have hawaits : Awaits block messageID endpoint held number :=
    ⟨htracks.proper, hnumber, htracks.entries hmany, fun h => htracks.remembered hmany (hzero.mp h),
      fun h => htracks.unknown hmany (mt hzero.mpr h), htracks.size, hfits⟩
  have hfragment : ¬ UInt8.ofNat number = 0 := by
    have hshort := length_parts_le hvalid
    rw [← UInt8.toNat_inj, UInt8.toNat_ofNat_of_lt' (show number < 256 by omega)]
    exact hpos.ne'
  have hresult := (hawaits.add hvalid nowMillis).1
  rw [carried_piece _ _ hpos]
  generalize hpiece : followOnBlock messageID number (decide (number + 1 = block.parts.length))
    (block.parts.getD number []) = piece
  have hfragmentOf : (⟨piece.messageID, piece.fragment, piece.last, piece.data⟩ : Fragment) =
      partFragment messageID block.parts number := by
    rw [← hpiece]
    rfl
  have hfollow : piece.followOn = true := by rw [← hpiece]; rfl
  have hid : piece.messageID = messageID := by rw [← hpiece]; rfl
  have hnonzero : ¬ piece.fragment = 0 := by rw [← hpiece]; exact hfragment
  rw [appendFragmentedBlock, if_neg (by simp [hfollow]), if_pos hfollow,
    appendFollowOn, if_neg hnonzero]
  dsimp only
  rw [hfragmentOf, hresult, hid]
  by_cases hfull : insert number held = range block.parts.length
  · have hthere : 0 ∈ insert number held := hfull ▸ mem_range.mpr (by omega)
    obtain ⟨created, hlookup⟩ := hawaits.remembered hthere
    rw [if_pos hfull]
    rw [hlookup]
    exact hawaits.complete hvalid _ hfull hout
  · rw [if_neg hfull]
    exact hawaits.incomplete hvalid _ hfull

omit hnumber hout in
theorem exists_remember :
    ∃ base, endpoint.remember (block.piece messageID 0).carried nowMillis = .ok base ∧
      Awaits block messageID base held 0 := by
  have hid := (carried_first messageID hvalid).2.2.2 hmany
  have hzero : 0 ∈ insert 0 held := mem_insert_self _ _
  rw [remember, hid]
  by_cases hmem : 0 ∈ held
  · obtain ⟨created, hlookup⟩ := htracks.remembered hmany hmem
    refine ⟨endpoint, by rw [hlookup]; simp, htracks.proper, parts_pos block,
      htracks.entries hmany, fun _ => ⟨created, hlookup⟩, fun h => absurd hzero h, htracks.size,
      hfits⟩
  · have hlookup := htracks.unknown hmany hmem
    have hroom := hfits.2.length_ne List.mem_cons_self (AList.lookup_eq_none.mp hlookup)
    rw [hlookup]
    dsimp only
    rw [if_neg hroom]
    refine ⟨_, rfl, htracks.proper, parts_pos block, htracks.entries hmany,
      fun _ => ⟨nowMillis, by dsimp only; rw [hid, AList.lookup_insert]⟩, fun h => absurd hzero h,
      htracks.size, hfits.frame List.mem_cons_self ⟨Reassembler.Frame.refl _ _,
        fun _ hne => AList.lookup_insert_ne hne, rfl⟩⟩

omit hnumber in
theorem append_first :
    Delivers block messageID held 0
      (endpoint.appendFragmentedBlock out nowMillis [] (block.piece messageID 0).carried) := by
  obtain ⟨base, hremember, hawaits⟩ := exists_remember hvalid htracks nowMillis hmany hfits
  obtain ⟨hfirst, hlast, hdata, hid⟩ := carried_first messageID hvalid
  have hfragmentOf : (⟨messageID, 0, false, block.parts.getD 0 []⟩ : Fragment) =
      partFragment messageID block.parts 0 := by
    rw [partFragment, decide_eq_false (by omega)]
    rfl
  have hpart : ¬ (((!(block.piece messageID 0).carried.followOn) = true) ∧
      (block.piece messageID 0).carried.last = true) := by
    rw [hlast, decide_eq_true_eq]
    omega
  rw [appendFragmentedBlock, if_neg hpart, if_neg (by simp [hfirst]), appendFirst, hremember]
  dsimp only
  rw [hdata, hid hmany, hfragmentOf, (hawaits.add hvalid nowMillis).1]
  by_cases hfull : insert 0 held = range block.parts.length
  · obtain ⟨created, hlookup⟩ := hawaits.remembered (mem_insert_self _ _)
    rw [if_pos hfull]
    dsimp only
    rw [hlookup]
    exact hawaits.complete hvalid nowMillis hfull hout
  · rw [if_neg hfull]
    exact hawaits.incomplete hvalid nowMillis hfull

end Parts

theorem parse_delivers {sha256 : Bytes → FixedBytes 32} {payload : Bytes} {number : Nat}
    (hnumber : number < block.parts.length)
    (hcarries : Carries sha256 payload (block.piece messageID number))
    (hfits : endpoint.Fits (fragmentIDs sha256 payload)) :
    Delivers block messageID held number (endpoint.parse sha256 payload out nowMillis) := by
  rw [parse_carries hcarries]
  rcases Nat.lt_or_ge 1 block.parts.length with hmany | hone
  · rw [fragmentIDs_carries hvalid hmany hcarries] at hfits
    cases number with
    | zero => exact append_first hvalid htracks hout _ hmany hfits
    | succ number =>
      exact append_followOn hvalid htracks hout _ hmany hnumber hfits (Nat.succ_pos _)
  · have hlength := Nat.le_antisymm hone (parts_pos _)
    obtain rfl : number = 0 := by omega
    exact append_whole hvalid htracks hout _ hlength

end Own

end Ivnp.Tunnel
