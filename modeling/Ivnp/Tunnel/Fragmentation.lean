import Ivnp.Lib.Chunks
import Ivnp.Tunnel.Endpoint

/-!
What the gateway writes, seen from the endpoint. A tunnel message with one block
opens to that block, and `Fragment` writes one message for every part of its
block: the first part with the delivery instructions, the others by number.
-/

namespace Ivnp.Tunnel

open Ivnp.Lib List

def Carries (sha256 : Bytes → FixedBytes 32) (payload : Bytes) (piece : Block) : Prop :=
  ∃ space bytes, openPayload sha256 payload = .ok bytes ∧ marshalBlock space piece = .ok bytes

def Buffer.ready : Buffer → Bool
  | none => false
  | some room => tunnelDataMessageLen ≤ room

section Encode

variable {sha256 : Bytes → FixedBytes 32} {tunnelID : UInt32}

theorem length_dataField (block : Block) : (dataField block).length = 2 + block.data.length := by
  simp [dataField]

theorem firstBlockLen_eq_ok {block : Block} {fragmented : Bool} {n : Nat}
    (h : firstBlockLen block fragmented = .ok n) :
    n = 1 + (deliveryField block).length + (if fragmented then 4 else 0) + 2 := by
  rw [firstBlockLen] at h
  split at h
  · simp at h
  dsimp only at h
  rw [deliveryField]
  split at h
  · obtain rfl := Except.ok.inj h
    simp
    omega
  · split at h
    · simp at h
    obtain rfl := Except.ok.inj h
    simp
    omega
  · obtain rfl := Except.ok.inj h
    simp
    omega

theorem exists_marshalBlock {block : Block} {n : Nat} (h : blockLen block = .ok n) :
    ∃ bytes, marshalBlock n block = .ok bytes ∧ bytes.length = n := by
  rw [marshalBlock, h]
  dsimp only
  rw [if_neg (Nat.lt_irrefl n)]
  rw [blockLen] at h
  split at h
  · simp at h
  split at h
  next hfollow =>
    split at h
    · simp at h
    obtain rfl := Except.ok.inj h
    refine ⟨_, if_pos hfollow, ?_⟩
    simp only [length_cons, length_append, natBE_length, length_dataField]
    omega
  next hfirst =>
    refine ⟨_, if_neg hfirst, ?_⟩
    have hid : (messageIDField block).length = if !block.last then 4 else 0 := by
      rw [messageIDField]
      cases block.last <;> simp
    cases hheader : firstBlockLen block !block.last with
    | error error =>
      rw [hheader] at h
      simp [Except.map] at h
    | ok header =>
      rw [hheader] at h
      obtain rfl := Except.ok.inj h
      rw [firstBlockLen_eq_ok hheader]
      simp only [length_cons, length_append, length_dataField, hid]
      omega

/-- Past the padding, which has no zero, the endpoint finds the blocks. -/
theorem openPayload_layout {iv padding encoded : Bytes} (htunnelID : tunnelID ≠ 0)
    (hiv : iv.length = tunnelIVLen) (hpadding : ∀ byte ∈ padding, byte ≠ 0)
    (hlength : tunnelIVLen + tunnelChecksumLen + padding.length + 1 + encoded.length =
      tunnelPayloadLen) :
    openPayload sha256 (natBE 4 tunnelID.toNat ++ (iv ++
      ((tunnelChecksum sha256 encoded iv).val.take tunnelChecksumLen ++
        (padding ++ 0 :: encoded)))) = .ok encoded := by
  have hchecksum : ((tunnelChecksum sha256 encoded iv).val.take tunnelChecksumLen).length =
      tunnelChecksumLen := by
    simp [tunnelChecksumLen]
  have hid : (natBE 4 tunnelID.toNat).length = 4 := natBE_length _ _
  have hscan : (padding ++ 0 :: encoded).dropWhile (· ≠ 0) = 0 :: encoded := by
    rw [dropWhile_append_of_pos (by simpa using hpadding)]
    simp
  rw [openPayload, if_neg, uint32At_append, if_neg htunnelID]
  · dsimp only
    rw [drop_left' hid, take_left' hiv, drop_left' hiv, take_left' hchecksum,
      drop_skip hiv _ _ (by omega), Nat.add_sub_cancel_left, drop_left' hchecksum, hscan]
    exact if_pos rfl
  · simp only [length_append, length_cons, hid, hiv, hchecksum, tunnelDataMessageLen]
    omega

theorem nonZero_ne_zero (bytes : Bytes) : ∀ byte ∈ nonZero bytes, byte ≠ 0 := by
  intro byte hmem
  obtain ⟨source, -, rfl⟩ := mem_map.mp hmem
  split
  · decide
  · assumption

/-- `Encode` on one block that fits: a message that carries it. -/
theorem encode_carries (sha256 : Bytes → FixedBytes 32) {padding : Bytes} {piece : Block} {n : Nat} {buffer : Buffer}
    (htunnelID : tunnelID ≠ 0) (hbuffer : buffer.ready = true) (hlen : blockLen piece = .ok n)
    (hfits : n ≤ maxBlockBytes) (hpadding : tunnelPayloadLen ≤ padding.length) :
    ∃ payload rest, encode sha256 padding tunnelID [piece] buffer = .ok (payload, rest) ∧
      padding.length ≤ rest.length + tunnelPayloadLen ∧ Carries sha256 payload piece := by
  have hmax : maxBlockBytes = tunnelPayloadLen - tunnelIVLen - tunnelChecksumLen - 1 := rfl
  have hiv : tunnelIVLen + tunnelChecksumLen + 1 ≤ tunnelPayloadLen := by decide
  obtain ⟨room, rfl⟩ : ∃ room, buffer = some room := by
    cases buffer with
    | none => simp [Buffer.ready] at hbuffer
    | some room => exact ⟨room, rfl⟩
  have hroom := of_decide_eq_true hbuffer
  obtain ⟨bytes, hbytes, hlength⟩ := exists_marshalBlock hlen
  have htotal : blocksLen 0 [piece] = .ok n := by
    rw [blocksLen, hlen]
    dsimp only
    rw [if_neg (by omega), blocksLen, Nat.zero_add]
  have hencoded : marshalBlocks n [piece] = bytes := by
    rw [marshalBlocks, hbytes]
    dsimp only
    rw [marshalBlocks, append_nil]
  obtain ⟨random, hrandom⟩ : ∃ random, random = padding.take (tunnelPayloadLen - n - 1) := ⟨_, rfl⟩
  have hread : readPadding (tunnelPayloadLen - n - 1) padding =
      .ok (random, padding.drop (tunnelPayloadLen - n - 1)) := by
    rw [readPadding, if_neg (by omega), hrandom]
  have hrandomLength : random.length = tunnelPayloadLen - n - 1 := by
    rw [hrandom, length_take]
    omega
  have hencode : encode sha256 padding tunnelID [piece] (some room) =
      .ok (natBE 4 tunnelID.toNat ++ (random.take tunnelIVLen ++
            ((tunnelChecksum sha256 bytes (random.take tunnelIVLen)).val.take tunnelChecksumLen ++
              (nonZero (random.drop (tunnelIVLen + tunnelChecksumLen)) ++ 0 :: bytes))),
          padding.drop (tunnelPayloadLen - n - 1)) := by
    rw [encode, if_neg htunnelID]
    rw [if_neg (by omega), htotal]
    dsimp only [bind, Except.bind]
    rw [hread, hencoded]
  refine ⟨_, _, hencode, ?_, n, bytes, openPayload_layout htunnelID ?_ (nonZero_ne_zero _) ?_, hbytes⟩
  · rw [length_drop]
    omega
  · rw [length_take]
    omega
  · rw [nonZero, length_map, length_drop]
    omega

end Encode

section Chunks

def chunks : Nat → Bytes → List Bytes
  | 0, _ => []
  | count + 1, data => data.take (maxBlockBytes - 7) :: chunks count (data.drop (maxBlockBytes - 7))

theorem chunks_eq (count : Nat) (data : Bytes) :
    chunks count data = Lib.chunks (maxBlockBytes - 7) count data := by
  induction count generalizing data with
  | zero => rfl
  | succ count ih => rw [chunks, Lib.chunks, ih]

@[simp] theorem length_chunks (count : Nat) (data : Bytes) : (chunks count data).length = count := by
  rw [chunks_eq, Lib.length_chunks]

structure Fills (count : Nat) (data : Bytes) : Prop where
  enough : data.length ≤ (maxBlockBytes - 7) * count
  needed : (maxBlockBytes - 7) * count < data.length + (maxBlockBytes - 7)

variable {count : Nat} {data : Bytes}

theorem fills_iff : Fills count data ↔ Lib.Fills (maxBlockBytes - 7) count data :=
  ⟨fun h => ⟨h.enough, h.needed⟩, fun h => ⟨h.enough, h.needed⟩⟩

theorem chunks_ne_nil (h : Fills count data) : ∀ chunk ∈ chunks count data, chunk ≠ [] := by
  intro chunk hmem
  rw [chunks_eq] at hmem
  exact ne_nil_of_length_pos (length_of_mem_chunks (fills_iff.mp h) chunk hmem).1

end Chunks

section Fragment

variable {sha256 : Bytes → FixedBytes 32} {tunnelID : UInt32}

def followOnBlock (messageID : UInt32) (number : Nat) (last : Bool) (data : Bytes) : Block :=
  { followOn := true, messageID, fragment := UInt8.ofNat number, last, data }

theorem blockLen_followOnBlock (messageID : UInt32) {number : Nat} (last : Bool) {data : Bytes}
    (hpos : 0 < number) (hnumber : number < 64) (hdata : data ≠ [])
    (hlen : data.length ≤ maxBlockBytes - 7) :
    ∃ n, blockLen (followOnBlock messageID number last data) = .ok n ∧ n ≤ maxBlockBytes := by
  have hmax : maxBlockBytes = 1003 := rfl
  have hbyte := UInt8.toNat_ofNat_of_lt' (show number < 256 by omega)
  have hvalid : ¬ (UInt8.ofNat number = 0 ∨ UInt8.ofNat number > 63) := by
    rw [← UInt8.toNat_inj, gt_iff_lt, UInt8.lt_iff_toNat_lt]
    simp only [UInt8.toNat_zero, UInt8.reduceToNat]
    omega
  have hlength : ¬ (data.length = 0 ∨ data.length > 2 ^ 16 - 1) := by
    rw [length_eq_zero_iff, not_or]
    exact ⟨hdata, by omega⟩
  refine ⟨1 + 4 + 2 + data.length, ?_, by omega⟩
  rw [blockLen, followOnBlock, if_neg hlength, if_pos rfl, if_neg hvalid]

theorem encodeFollowOns_carries (sha256 : Bytes → FixedBytes 32) (htunnelID : tunnelID ≠ 0)
    (messageID : UInt32) {count : Nat} {data : Bytes} (hfills : Fills count data)
    {dst : List Buffer} (hdst : count ≤ dst.length)
    (hready : ∀ buffer ∈ dst.take count, buffer.ready = true) {number : Nat} (hpos : 0 < number)
    (hnumber : number + count ≤ 64) {padding : Bytes}
    (hpadding : tunnelPayloadLen * count ≤ padding.length) :
    ∃ payloads rest,
      encodeFollowOns sha256 tunnelID messageID dst number data padding = .ok (payloads, rest) ∧
      payloads.length = count ∧
      ∀ index < count, Carries sha256 (payloads.getD index [])
        (followOnBlock messageID (number + index) (decide (index + 1 = count))
          ((chunks count data).getD index [])) := by
  rw [fills_iff] at hfills
  induction count generalizing data dst number padding with
  | zero =>
    refine ⟨[], padding, ?_, rfl, fun index h => absurd h (Nat.not_lt_zero _)⟩
    cases dst <;> rw [encodeFollowOns, if_pos hfills.eq_nil]
  | succ count ih =>
    obtain ⟨buffer, dst, rfl⟩ : ∃ buffer rest, dst = buffer :: rest := by
      cases dst with
      | nil => simp at hdst
      | cons buffer rest => exact ⟨buffer, rest, rfl⟩
    have hfull : tunnelPayloadLen ≤ padding.length := by
      rw [Nat.mul_succ] at hpadding
      omega
    obtain ⟨n, hn, hfits⟩ := blockLen_followOnBlock _
      (decide (data.length ≤ maxBlockBytes - 7)) hpos (by omega)
      (chunks_ne_nil (fills_iff.mpr hfills) _ mem_cons_self) (length_take_le _ _)
    obtain ⟨payload, later, hencode, hlater, hcarries⟩ :=
      encode_carries _ htunnelID (hready buffer (by simp)) hn hfits hfull
    have hpaddingLater : tunnelPayloadLen * count ≤ later.length := by
      rw [Nat.mul_succ] at hpadding
      omega
    obtain ⟨payloads, rest, hrest, hlength, hall⟩ :=
      ih hfills.drop (Nat.le_of_succ_le_succ hdst)
        (fun other hmem => hready _ (mem_cons_of_mem _ hmem)) (Nat.succ_pos number)
        (by omega) hpaddingLater
    refine ⟨payload :: payloads, rest, ?_, by rw [length_cons, hlength], ?_⟩
    · rw [followOnBlock] at hencode
      rw [encodeFollowOns, if_neg hfills.ne_nil]
      dsimp only
      rw [hencode]
      dsimp only
      rw [hrest]
      rfl
    · intro index hindex
      cases index with
      | zero =>
        have hlast : decide (data.length ≤ maxBlockBytes - 7) = decide (0 + 1 = count + 1) :=
          decide_eq_decide.mpr (hfills.length_le_iff.trans (by omega))
        rw [hlast] at hcarries
        exact hcarries
      | succ index =>
        have hnext := hall _ (Nat.lt_of_succ_lt_succ hindex)
        have hlast : decide (index + 1 = count) = decide (index + 1 + 1 = count + 1) :=
          decide_eq_decide.mpr (by omega)
        rw [Nat.succ_add_eq_add_succ, hlast] at hnext
        exact hnext

structure Block.Valid (block : Block) : Prop where
  first : block.followOn = false
  nonempty : 0 < block.data.length
  short : block.data.length ≤ i2pdMaxPayload
  gateway : block.delivery = .deliveryLocal → block.gateway = FixedBytes.zero 32
  tunnelID : block.tunnelID ≠ 0 ↔ block.delivery = .deliveryTunnel

/-- The room for data in a first fragment. -/
def Block.firstData (block : Block) : Nat :=
  maxBlockBytes - (1 + (deliveryField block).length + 4 + 2)

def Block.followOns (block : Block) : Nat :=
  (block.data.length - block.firstData + maxBlockBytes - 7 - 1) / (maxBlockBytes - 7)

def Block.parts (block : Block) : List Bytes :=
  if block.data.length ≤ block.firstData then [block.data]
  else
    block.data.take block.firstData ::
      chunks block.followOns (block.data.drop block.firstData)

def Block.piece (block : Block) (messageID : UInt32) (number : Nat) : Block :=
  if number = 0 then
    { block with messageID, last := decide (block.parts.length = 1), data := block.parts.getD 0 [] }
  else
    followOnBlock messageID number (decide (number + 1 = block.parts.length))
      (block.parts.getD number [])

section Parts

variable {block : Block} (hvalid : block.Valid)

theorem length_deliveryField_le (block : Block) : (deliveryField block).length ≤ 36 := by
  rw [deliveryField]
  split <;> simp

theorem le_firstData (block : Block) : 960 ≤ block.firstData := by
  have hle := length_deliveryField_le block
  have hmax : maxBlockBytes = 1003 := rfl
  rw [Block.firstData]
  omega

theorem fills_followOns (block : Block) :
    Fills block.followOns (block.data.drop block.firstData) := by
  rw [fills_iff]
  have hfills := fills_ceil (show 0 < maxBlockBytes - 7 by decide) (block.data.drop block.firstData)
  rwa [length_drop, ← Nat.add_sub_assoc (by decide)] at hfills

theorem flatten_parts (block : Block) : block.parts.flatten = block.data := by
  rw [Block.parts]
  split
  · simp
  · rw [flatten_cons, chunks_eq, flatten_chunks (fills_iff.mp (fills_followOns _)), take_append_drop]

theorem parts_pos (block : Block) : 0 < block.parts.length := by
  rw [Block.parts]
  split <;> simp

include hvalid

theorem length_parts_le : block.parts.length ≤ 64 := by
  have hshort : block.data.length ≤ 62690 := hvalid.short
  have hmax : maxBlockBytes - 7 = 996 := rfl
  rw [Block.parts]
  split
  · simp
  · rw [length_cons, length_chunks, Block.followOns, hmax]
    omega

theorem parts_ne_nil : ∀ part ∈ block.parts, part ≠ [] := by
  have hnonempty := ne_nil_of_length_pos hvalid.nonempty
  rw [Block.parts]
  split
  · simpa using hnonempty
  intro part hmem
  rcases mem_cons.mp hmem with rfl | hmem
  · rw [ne_eq, take_eq_nil_iff, not_or]
    have hfirst := le_firstData block
    exact ⟨by omega, hnonempty⟩
  · exact chunks_ne_nil (fills_followOns _) _ hmem

theorem firstBlockLen_of_valid (fragmented : Bool) :
    firstBlockLen block fragmented =
      .ok (1 + (deliveryField block).length + (if fragmented then 4 else 0) + 2) := by
  have hok : ∃ n, firstBlockLen block fragmented = .ok n := by
    rw [firstBlockLen, if_neg (by simp [hvalid.first])]
    cases hdelivery : block.delivery with
    | deliveryLocal => exact ⟨_, rfl⟩
    | deliveryTunnel => exact ⟨_, if_neg (hvalid.tunnelID.mpr hdelivery)⟩
    | deliveryRouter => exact ⟨_, rfl⟩
  obtain ⟨n, hn⟩ := hok
  rw [hn, firstBlockLen_eq_ok hn]

theorem blockLen_first (messageID : UInt32) {data : Bytes} (hdata : data ≠ [])
    (hlen : data.length ≤ block.firstData) (last : Bool) :
    ∃ n, blockLen { block with messageID, last, data } = .ok n ∧ n ≤ maxBlockBytes := by
  have hmax : maxBlockBytes = 1003 := rfl
  have hid : (if !last then 4 else 0) ≤ 4 := by split <;> omega
  rw [Block.firstData] at hlen
  have hlength : ¬ (data.length = 0 ∨ data.length > 2 ^ 16 - 1) := by
    rw [length_eq_zero_iff, not_or]
    exact ⟨hdata, by omega⟩
  have hheader : firstBlockLen { block with messageID, last, data } (!last) =
      firstBlockLen block !last := rfl
  rw [blockLen, if_neg hlength, if_neg (by simp [hvalid.first]), hheader,
    firstBlockLen_of_valid hvalid]
  refine ⟨_, rfl, ?_⟩
  dsimp only
  omega

theorem accepted_of_valid :
    ¬ (block.followOn = true ∨ block.data.length = 0 ∨ block.data.length > i2pdMaxPayload) := by
  have hshort := hvalid.short
  have hnonempty := hvalid.nonempty
  simp only [hvalid.first, Bool.false_eq_true, false_or]
  omega

omit hvalid in
variable (block) in
theorem exists_fragmentMessageID {padding : Bytes} (h : 4 ≤ padding.length) :
    ∃ messageID rest, fragmentMessageID padding block = .ok (messageID, rest) ∧
      padding.length ≤ rest.length + 4 := by
  rw [fragmentMessageID]
  split
  · have hread : readPadding 4 padding = .ok (padding.take 4, padding.drop 4) :=
      if_neg (by omega)
    rw [hread]
    refine ⟨_, _, rfl, ?_⟩
    rw [length_drop]
    omega
  · exact ⟨_, _, rfl, by omega⟩

section Messages

variable (sha256 : Bytes → FixedBytes 32) (htunnelID : tunnelID ≠ 0) {dst : List Buffer}
  (hdst : block.parts.length ≤ dst.length)
  (hready : ∀ buffer ∈ dst.take block.parts.length, buffer.ready = true) {padding : Bytes}
  (hpadding : 4 + tunnelPayloadLen * block.parts.length ≤ padding.length)
include htunnelID hdst hready hpadding

theorem fragment_whole (hfits : block.data.length ≤ block.firstData) :
    ∃ payload rest, fragment sha256 padding tunnelID block dst = .ok ([payload], rest) ∧
      Carries sha256 payload { block with last := true } := by
  have hparts : block.parts = [block.data] := if_pos hfits
  rw [hparts, length_singleton] at hdst hready hpadding
  obtain ⟨buffer, dst, rfl⟩ := exists_cons_of_length_pos hdst
  obtain ⟨n, hn, hle⟩ := blockLen_first hvalid block.messageID
    (ne_nil_of_length_pos hvalid.nonempty) hfits _
  have hfull : tunnelPayloadLen ≤ padding.length := by omega
  obtain ⟨payload, rest, hencode, -, hcarries⟩ :=
    encode_carries _ htunnelID (hready buffer (by simp)) hn hle hfull
  have hheader : firstBlockLen block true = .ok (1 + (deliveryField block).length + 4 + 2) :=
    firstBlockLen_of_valid hvalid _
  refine ⟨payload, rest, ?_, hcarries⟩
  rw [Block.firstData] at hfits
  rw [fragment, if_neg htunnelID, if_neg (accepted_of_valid hvalid), hheader]
  dsimp only
  rw [if_pos hfits, hencode]

theorem fragment_split (hlong : ¬ block.data.length ≤ block.firstData) :
    ∃ messageID payloads rest,
      fragment sha256 padding tunnelID block dst = .ok (payloads, rest) ∧
      payloads.length = block.parts.length ∧
      ∀ number < block.parts.length,
        Carries sha256 (payloads.getD number []) (block.piece messageID number) := by
  have hparts : block.parts = block.data.take block.firstData ::
      chunks block.followOns (block.data.drop block.firstData) := if_neg hlong
  have hlength : block.parts.length = block.followOns + 1 := by
    rw [hparts, length_cons, length_chunks]
  have hshort := length_parts_le hvalid
  rw [hlength] at hdst hready hpadding hshort
  rw [Nat.mul_succ] at hpadding
  obtain ⟨buffer, dst, rfl⟩ := exists_cons_of_length_pos (Nat.zero_lt_of_lt hdst)
  obtain ⟨messageID, paddingFirst, hmessageID, hpaddingFirst⟩ :=
    exists_fragmentMessageID _ (show 4 ≤ padding.length by omega)
  have hfirst := parts_ne_nil hvalid _ (hparts ▸ mem_cons_self)
  obtain ⟨n, hn, hle⟩ := blockLen_first hvalid _ hfirst (length_take_le _ _) _
  obtain ⟨payload, paddingLater, hencode, hpaddingLater, hcarries⟩ :=
    encode_carries _ htunnelID (hready buffer (by simp)) hn hle
      (show tunnelPayloadLen ≤ paddingFirst.length by omega)
  obtain ⟨payloads, rest, hrest, hcount, hall⟩ :=
    encodeFollowOns_carries _ htunnelID _ (fills_followOns _)
      (Nat.le_of_succ_le_succ hdst) (fun other hmem => hready _ (mem_cons_of_mem _ hmem))
      Nat.one_pos (by omega) (show tunnelPayloadLen * block.followOns ≤ paddingLater.length by omega)
  refine ⟨messageID, payload :: payloads, rest, ?_, ?_, ?_⟩
  · have hheader : firstBlockLen block true = .ok (1 + (deliveryField block).length + 4 + 2) :=
      firstBlockLen_of_valid hvalid _
    have hneeded : ¬ (1 + block.followOns > 64 ∨ (buffer :: dst).length < 1 + block.followOns) := by
      omega
    rw [fragment, if_neg htunnelID, if_neg (accepted_of_valid hvalid), hheader]
    dsimp only
    rw [← Block.firstData, ← Block.followOns, if_neg hlong, if_neg hneeded, hmessageID]
    dsimp only
    rw [hencode]
    dsimp only
    rw [hrest]
    rfl
  · rw [hlength, length_cons, hcount]
  · intro number hnumber
    rw [Block.piece, hlength]
    cases number with
    | zero =>
      have hmany : decide (block.followOns + 1 = 1) = false := by
        refine decide_eq_false fun hone => hlong ?_
        have hfills := fills_followOns block
        rw [Nat.add_right_cancel hone] at hfills
        exact drop_eq_nil_iff.mp (fills_iff.mp hfills).eq_nil
      rw [hmany, hparts]
      exact hcarries
    | succ index =>
      have hnext := hall index (by omega)
      have hlast : decide (index + 1 = block.followOns) =
          decide (index + 1 + 1 = block.followOns + 1) := decide_eq_decide.mpr (by omega)
      rw [Nat.add_comm 1, hlast] at hnext
      rw [hparts]
      exact hnext

theorem fragment_carries :
    ∃ messageID payloads rest,
      fragment sha256 padding tunnelID block dst = .ok (payloads, rest) ∧
      payloads.length = block.parts.length ∧
      ∀ number < block.parts.length,
        Carries sha256 (payloads.getD number []) (block.piece messageID number) := by
  by_cases hfits : block.data.length ≤ block.firstData
  · have hparts : block.parts = [block.data] := if_pos hfits
    obtain ⟨payload, rest, hfragment, hcarries⟩ :=
      fragment_whole hvalid _ htunnelID hdst hready hpadding hfits
    refine ⟨block.messageID, [payload], rest, hfragment, by rw [hparts]; rfl, ?_⟩
    intro number hnumber
    rw [hparts, length_singleton, Nat.lt_one_iff] at hnumber
    subst hnumber
    rw [Block.piece, hparts]
    exact hcarries
  · exact fragment_split hvalid _ htunnelID hdst hready hpadding hfits

end Messages

end Parts

end Fragment

end Ivnp.Tunnel
