import Ivnp.Lib.Fallible
import Ivnp.Tunnel.Fragmentation

/-!
The iterator over delivery blocks and the encoder undo each other: blocks that are written one after
the other are read back, and every block that is read is written as the bytes it was read from.
-/

namespace Ivnp.Tunnel

open Ivnp.Lib List

/-- A block that the iterator has yielded, and the bytes of the payload it took. -/
structure YieldedBlock where
  block : Block
  start : Nat
  stop : Nat

/-- The blocks that `Next` yields until it ends or fails, with the error. Every block takes a byte at
least, so there are no more turns than bytes. -/
def iterateBlocks : Nat → Nat → Bytes → List YieldedBlock × Option TunnelError
  | 0, _, _ => ([], none)
  | turns + 1, offset, rest =>
    match nextBlock rest with
    | .error error => ([], some error)
    | .ok none => ([], none)
    | .ok (some (block, after)) =>
      let stop := offset + (rest.length - after.length)
      let (later, error) := iterateBlocks turns stop after
      (⟨block, offset, stop⟩ :: later, error)

def blocksOf (payload : Bytes) : List YieldedBlock × Option TunnelError :=
  iterateBlocks (payload.length + 1) 0 payload

/-- The block is written as these bytes, and has nothing that is not written. -/
def Block.Encodes (block : Block) (bytes : Bytes) : Prop :=
  (∃ space, marshalBlock space block = .ok bytes) ∧ block.carried = block

/-- The block is written as the bytes of the payload that it took, at least three, and its data is
the last part of them. -/
structure YieldedBlock.Reencodes (payload : Bytes) (yielded : YieldedBlock) : Prop where
  taken : yielded.start + 3 ≤ yielded.stop ∧ yielded.stop ≤ payload.length
  written : ∀ space, yielded.stop - yielded.start ≤ space → marshalBlock space yielded.block =
    .ok ((payload.take yielded.stop).drop yielded.start)
  slice : yielded.start + yielded.block.data.length ≤ yielded.stop ∧
    (payload.take yielded.stop).drop (yielded.stop - yielded.block.data.length) = yielded.block.data

section Consumed

variable {flag : UInt8} {rest after : Bytes} {head block : Block}

theorem take_four_eq_natBE {bytes : Bytes} (h : 4 ≤ bytes.length) :
    bytes = natBE 4 (uint32At bytes 0).toNat ++ bytes.drop 4 := by
  have hlength := length_take_of_le h
  have hlt := beNat_lt (bytes.take 4)
  have hsame := natBE_beNat (bytes.take 4)
  rw [hlength] at hlt hsame
  rw [uint32At, drop_zero, UInt32.toNat_ofNat_of_lt' hlt, hsame, take_append_drop]

theorem readData_eq_block (h : readData head rest = .ok (some (block, after))) :
    block = { head with data := block.data } ∧ rest = dataField block ++ after ∧
      0 < block.data.length ∧ block.data.length < 2 ^ 16 := by
  unfold readData at h
  split at h
  · cases h
  next hlength =>
  dsimp only at h
  split at h
  · cases h
  next hpos =>
  split at h
  · cases h
  next hroom =>
  cases h
  have hdata : ((rest.drop 2).take (uint16At rest 0).toNat).length = (uint16At rest 0).toNat :=
    length_take_of_le (by omega)
  have hlt := (uint16At rest 0).toNat_lt
  rw [dataField]
  dsimp only
  refine ⟨rfl, ?_, by omega, by omega⟩
  rw [hdata, append_assoc, take_append_drop, ← take_two_eq_natBE (by omega), take_append_drop]

theorem readDelivery_eq_ok (h : readDelivery flag rest = .ok (head, after)) :
    rest = deliveryField head ++ after ∧ head.delivery.code = flag >>> 5 &&& 3 ∧
      (head.delivery = .deliveryTunnel → head.tunnelID ≠ 0) ∧ head.followOn = false ∧
      head.last = true := by
  unfold readDelivery at h
  have hcode (n : UInt8) (hn : (flag >>> 5 &&& 3).toNat = n.toNat) : n = flag >>> 5 &&& 3 :=
    (UInt8.toNat_inj.mp hn).symm
  split at h
  next hflag =>
    cases h
    exact ⟨rfl, hcode 0 hflag, by rintro ⟨⟩, rfl, rfl⟩
  next hflag =>
    split at h
    · cases h
    next hlength =>
    split at h
    · cases h
    next htunnel =>
    cases h
    have hgateway : (arrayAt 32 rest 4).val = (rest.drop 4).take 32 :=
      FixedBytes.copy_val_of_le (by rw [length_drop]; omega)
    refine ⟨?_, hcode 1 hflag, fun _ => htunnel, rfl, rfl⟩
    rw [deliveryField]
    rw [hgateway, append_assoc, ← drop_split _ 4 32, ← take_four_eq_natBE (by omega)]
  next hflag =>
    split at h
    · cases h
    next hlength =>
    cases h
    have hgateway : (arrayAt 32 rest 0).val = rest.take 32 :=
      FixedBytes.copy_val_of_le (Nat.not_lt.mp hlength)
    refine ⟨?_, hcode 2 hflag, by rintro ⟨⟩, rfl, rfl⟩
    rw [deliveryField]
    rw [hgateway, take_append_drop]
  · cases h

theorem readMessageID_eq_ok {found : Block} (h : readMessageID flag head rest = .ok (found, after))
    (hlast : head.last = true) :
    rest = messageIDField found ++ after ∧ (flag &&& 0x08 ≠ 0 ↔ found.last = false) ∧
      found = { head with messageID := found.messageID, last := found.last } := by
  unfold readMessageID at h
  split at h
  next hflag =>
    split at h
    · cases h
    next hlength =>
    cases h
    refine ⟨?_, iff_of_true hflag rfl, rfl⟩
    exact take_four_eq_natBE (by omega)
  next hflag =>
    cases h
    refine ⟨?_, iff_of_false hflag (by rw [hlast]; nofun), rfl⟩
    rw [messageIDField, hlast]
    rfl

theorem followOnFlag_of_bits (h : flag &&& 0x80 ≠ 0) :
    (0x80 : UInt8) ||| (flag >>> 1 &&& 0x3f) <<< 1 ||| (if decide (flag &&& 1 ≠ 0) then 1 else 0) =
      flag ∧ ¬flag >>> 1 &&& 0x3f > 63 := by
  have hall : ∀ n < 256, UInt8.ofNat n &&& 0x80 ≠ 0 →
      (0x80 : UInt8) ||| (UInt8.ofNat n >>> 1 &&& 0x3f) <<< 1 |||
        (if decide (UInt8.ofNat n &&& 1 ≠ 0) then 1 else 0) = UInt8.ofNat n ∧
        ¬UInt8.ofNat n >>> 1 &&& 0x3f > 63 := by decide +kernel
  have hflag := hall flag.toNat flag.toNat_lt
  rw [UInt8.ofNat_toNat] at hflag
  exact hflag h

theorem firstFlag_of_bits (hhigh : flag &&& 0x80 = 0) (hreserved : flag &&& 0x17 = 0)
    (hcode : block.delivery.code = flag >>> 5 &&& 3)
    (hlast : flag &&& 0x08 ≠ 0 ↔ block.last = false) : firstFlag block = flag := by
  have hall : ∀ n < 256, UInt8.ofNat n &&& 0x80 = 0 → UInt8.ofNat n &&& 0x17 = 0 →
      (UInt8.ofNat n >>> 5 &&& 3) <<< 5 ||| (if UInt8.ofNat n &&& 0x08 ≠ 0 then 0x08 else 0) =
        UInt8.ofNat n := by decide +kernel
  have hflag := hall flag.toNat flag.toNat_lt
  rw [UInt8.ofNat_toNat] at hflag
  rw [firstFlag, hcode]
  refine Eq.trans ?_ (hflag hhigh hreserved)
  cases hblock : block.last with
  | true => rw [if_pos rfl, if_neg (by rw [hlast, hblock]; decide)]
  | false => rw [if_neg (by decide), if_pos (hlast.mpr hblock)]

/-- A block that is read is written as the bytes it was read from, which end in its data. -/
theorem nextBlock_eq_block (h : nextBlock rest = .ok (some (block, after))) :
    ∃ header, rest = header ++ block.data ++ after ∧ 3 ≤ header.length ∧
      ∀ space, header.length + block.data.length ≤ space →
        marshalBlock space block = .ok (header ++ block.data) := by
  cases rest with
  | nil => cases h
  | cons flag rest =>
    rw [nextBlock] at h
    split at h
    next hhigh =>
      split at h
      · cases h
      next hlength =>
      split at h
      · cases h
      next hnumber =>
      obtain ⟨hblock, hdata, hpos, hshort⟩ := readData_eq_block h
      obtain ⟨hflag, hbound⟩ := followOnFlag_of_bits hhigh
      have hfollow : block.followOn = true := congrArg Block.followOn hblock
      have hfragment : block.fragment = flag >>> 1 &&& 0x3f := congrArg Block.fragment hblock
      have hmessage : block.messageID = uint32At rest 0 := congrArg Block.messageID hblock
      have hwritten : followOnFlag block = flag := by
        rw [followOnFlag, hfragment, congrArg Block.last hblock]
        exact hflag
      have hlen : blockLen block = .ok (1 + 4 + 2 + block.data.length) := by
        rw [blockLen, if_neg (by omega), if_pos hfollow, hfragment, if_neg (not_or.mpr ⟨hnumber, hbound⟩)]
      refine ⟨flag :: (natBE 4 block.messageID.toNat ++ natBE 2 block.data.length), ?_, ?_, ?_⟩
      · rw [@take_four_eq_natBE rest (by omega), hdata, ← hmessage, dataField]
        simp only [cons_append, append_assoc]
      · simp only [length_cons, length_append, natBE_length]
        omega
      · intro space hspace
        simp only [length_cons, length_append, natBE_length] at hspace
        rw [marshalBlock, hlen]
        dsimp only
        rw [if_neg (by omega), if_pos hfollow, hwritten, dataField]
        simp only [cons_append, append_assoc]
    next hhigh =>
      split at h
      · cases h
      next hreserved =>
      obtain ⟨⟨head, body⟩, hdelivery, hrest⟩ := bind_eq_ok.mp h
      obtain ⟨⟨found, data⟩, hidentified, hread⟩ := bind_eq_ok.mp hrest
      obtain ⟨rfl, hcode, htunnel, hfirst, hlast⟩ := readDelivery_eq_ok hdelivery
      obtain ⟨rfl, hwhole, hfound⟩ := readMessageID_eq_ok hidentified hlast
      obtain ⟨hblock, hdata, hpos, hshort⟩ := readData_eq_block hread
      dsimp only at hdata hblock
      subst hdata
      rw [hfound] at hblock
      have hfollow := (congrArg Block.followOn hblock).trans hfirst
      have htype : block.delivery = head.delivery := by rw [hblock]
      have hflag : firstFlag block = flag := by
        have hend : block.last = found.last := by rw [hblock]
        exact firstFlag_of_bits (not_not.mp hhigh) (not_not.mp hreserved) (htype ▸ hcode)
          (hend ▸ hwhole)
      have hfield : deliveryField head = deliveryField block := by
        rw [hblock]
        rfl
      have hmessage : messageIDField found = messageIDField block := by
        rw [hblock]
        rfl
      have hheader : firstBlockLen block (!block.last) =
          .ok (1 + 2 + (deliveryField block).length + (messageIDField block).length) := by
        have htunnel : block.delivery = .deliveryTunnel → block.tunnelID ≠ 0 := by
          rw [hblock]
          exact htunnel
        rw [firstBlockLen, hfollow, deliveryField, messageIDField]
        cases hdelivery : block.delivery <;> cases block.last <;> simp [hdelivery, htunnel]
      have hlen : blockLen block = .ok (1 + 2 + (deliveryField block).length +
          (messageIDField block).length + block.data.length) := by
        rw [blockLen, if_neg (by omega), hfollow, hheader]
        rfl
      refine ⟨flag :: (deliveryField block ++ (messageIDField block ++ natBE 2 block.data.length)),
        ?_, ?_, ?_⟩
      · rw [hfield, hmessage, dataField]
        simp only [cons_append, append_assoc]
      · simp only [length_cons, length_append, natBE_length]
        omega
      · intro space hspace
        simp only [length_cons, length_append, natBE_length] at hspace
        rw [marshalBlock, hlen]
        dsimp only
        rw [if_neg (by omega), hfollow, if_neg (by decide), hflag, dataField]
        simp only [cons_append, append_assoc]

end Consumed

theorem iterateBlocks_encodings {encoded : List (Block × Bytes)}
    (h : ∀ entry ∈ encoded, entry.1.Encodes entry.2) {turns : Nat} (offset : Nat)
    (hturns : (encoded.flatMap (·.2)).length < turns) :
    (iterateBlocks turns offset (encoded.flatMap (·.2))).1.map (·.block) = encoded.map (·.1) ∧
      (iterateBlocks turns offset (encoded.flatMap (·.2))).2 = none := by
  induction encoded generalizing turns offset with
  | nil =>
    cases turns with
    | zero => cases hturns
    | succ turns => exact ⟨rfl, rfl⟩
  | cons entry rest ih =>
    obtain ⟨⟨⟨space, hbytes⟩, hcarried⟩, hrest⟩ := forall_mem_cons.mp h
    have hnext := nextBlock_marshalBlock hbytes (rest.flatMap (·.2))
    obtain ⟨header, htaken, hlength, -⟩ := nextBlock_eq_block hnext
    have hlengths := congrArg length htaken
    simp only [length_append] at hlengths
    rw [flatMap_cons, length_append] at hturns
    obtain ⟨less, rfl⟩ : ∃ less, turns = less + 1 := ⟨turns - 1, by omega⟩
    rw [flatMap_cons, iterateBlocks, hnext, hcarried]
    obtain ⟨hblocks, herror⟩ := ih hrest (offset + ((entry.2 ++ rest.flatMap (·.2)).length -
      (rest.flatMap (·.2)).length)) (show _ < less by omega)
    exact ⟨by rw [map_cons, hblocks, map_cons], herror⟩

theorem iterateBlocks_reencodes {payload rest : Bytes} {offset : Nat} (turns : Nat)
    (hrest : payload.drop offset = rest) (hoffset : offset ≤ payload.length) :
    (∀ yielded ∈ (iterateBlocks turns offset rest).1,
      offset ≤ yielded.start ∧ yielded.Reencodes payload) ∧
      (iterateBlocks turns offset rest).1.Pairwise fun first second => first.stop ≤ second.start := by
  induction turns generalizing offset rest with
  | zero => exact ⟨nofun, .nil⟩
  | succ turns ih =>
    rw [iterateBlocks]
    split
    · exact ⟨nofun, .nil⟩
    · exact ⟨nofun, .nil⟩
    next block after hnext =>
      obtain ⟨header, htaken, hheader, hwritten⟩ := nextBlock_eq_block hnext
      have hlength : payload.length = offset + header.length + block.data.length + after.length := by
        have := congrArg length (hrest.trans htaken)
        simp only [length_drop, length_append] at this
        omega
      have hstop : offset + (rest.length - after.length) = offset + header.length + block.data.length := by
        rw [htaken]
        simp only [length_append]
        omega
      dsimp only
      rw [hstop]
      have hafter : payload.drop (offset + header.length + block.data.length) = after := by
        rw [Nat.add_assoc, ← drop_drop, hrest, htaken, drop_left' length_append]
      have hbytes : (payload.take (offset + header.length + block.data.length)).drop offset =
          header ++ block.data := by
        rw [Nat.add_assoc, drop_take, Nat.add_sub_cancel_left, hrest, htaken,
          take_left' length_append]
      obtain ⟨hlater, hpairwise⟩ := ih hafter (by omega)
      refine ⟨forall_mem_cons.mpr ⟨⟨Nat.le_refl _, ⟨by dsimp only; omega, by dsimp only; omega⟩,
        fun space hspace => ?_, by dsimp only; omega, ?_⟩, fun yielded hyielded => ?_⟩,
        pairwise_cons.mpr ⟨fun yielded hyielded => (hlater _ hyielded).1, hpairwise⟩⟩
      · dsimp only at hspace ⊢
        rw [hbytes, hwritten _ (by omega)]
      · rw [Nat.add_sub_cancel, ← drop_drop, hbytes, drop_left' rfl]
      · exact ⟨(by omega : offset ≤ offset + header.length + block.data.length).trans
          (hlater _ hyielded).1, (hlater _ hyielded).2⟩

/-- Blocks that are written one after the other are read back, and then the iterator ends. Whatever
it yields is written as the bytes it was read from, and the blocks follow one another. -/
theorem block_codec :
    (∀ encoded : List (Block × Bytes), (∀ entry ∈ encoded, entry.1.Encodes entry.2) →
      (blocksOf (encoded.flatMap (·.2))).1.map (·.block) = encoded.map (·.1) ∧
        (blocksOf (encoded.flatMap (·.2))).2 = none) ∧
    ∀ payload, (∀ yielded ∈ (blocksOf payload).1, yielded.Reencodes payload) ∧
      (blocksOf payload).1.Pairwise fun first second => first.stop ≤ second.start := by
  refine ⟨fun encoded h => iterateBlocks_encodings h 0 (Nat.lt_succ_self _), fun payload => ?_⟩
  obtain ⟨hyielded, hpairwise⟩ :=
    @iterateBlocks_reencodes payload payload 0 (payload.length + 1) rfl (Nat.zero_le _)
  exact ⟨fun yielded h => (hyielded yielded h).2, hpairwise⟩

/-- A follow-on fragment after a whole block. -/
theorem block_codec_two :
    (blocksOf [0, 0, 1, 9, 0x83, 0, 0, 0, 5, 0, 2, 7, 8]).1.map (·.block) =
      [{ last := true, data := [9] },
        { followOn := true, messageID := 5, fragment := 1, last := true, data := [7, 8] }] := by
  refine (block_codec.1 [({ last := true, data := [9] }, [0, 0, 1, 9]),
    ({ followOn := true, messageID := 5, fragment := 1, last := true, data := [7, 8] },
      [0x83, 0, 0, 0, 5, 0, 2, 7, 8])] ?_).1
  exact forall_mem_cons.mpr ⟨⟨⟨4, by decide⟩, by decide⟩,
    forall_mem_cons.mpr ⟨⟨⟨9, by decide⟩, by decide⟩, nofun⟩⟩

end Ivnp.Tunnel
