import Ivnp.Lib.Bytes

/-!
Delivery blocks of a tunnel message: their lengths, their wire form and the
iterator that reads them back.
-/

namespace Ivnp.Tunnel

open Ivnp.Lib List

inductive TunnelError where
  | malformed
  | invalidTunnelID
  | shortBuffer
  | block
  | gatewayPayload
  | gatewayBlock
  | gatewayOutput
  | fragment
  | tooLarge
  | padding
  deriving DecidableEq, Repr

inductive DeliveryType where
  | deliveryLocal
  | deliveryTunnel
  | deliveryRouter
  deriving DecidableEq, Repr

/-- The value of the type in bits 5 and 6 of the flag. -/
def DeliveryType.code : DeliveryType → UInt8
  | .deliveryLocal => 0
  | .deliveryTunnel => 1
  | .deliveryRouter => 2

structure Block where
  delivery : DeliveryType := .deliveryLocal
  gateway : FixedBytes 32 := FixedBytes.zero 32
  tunnelID : UInt32 := 0
  messageID : UInt32 := 0
  fragment : UInt8 := 0
  followOn : Bool := false
  last : Bool := false
  data : Bytes := []
  deriving DecidableEq

def firstBlockLen (block : Block) (fragmented : Bool) : Except TunnelError Nat :=
  if block.followOn then .error .gatewayBlock
  else
    let messageIDLen := if fragmented then 4 else 0
    match block.delivery with
    | .deliveryLocal => .ok (1 + 2 + messageIDLen)
    | .deliveryTunnel =>
      if block.tunnelID = 0 then .error .gatewayBlock else .ok (1 + 2 + 36 + messageIDLen)
    | .deliveryRouter => .ok (1 + 2 + 32 + messageIDLen)

def blockLen (block : Block) : Except TunnelError Nat :=
  if block.data.length = 0 ∨ block.data.length > 2 ^ 16 - 1 then .error .gatewayBlock
  else if block.followOn then
    if block.fragment = 0 ∨ block.fragment > 63 then .error .gatewayBlock
    else .ok (1 + 4 + 2 + block.data.length)
  else (firstBlockLen block !block.last).map (· + block.data.length)

def dataField (block : Block) : Bytes := natBE 2 block.data.length ++ block.data

def followOnFlag (block : Block) : UInt8 :=
  (0x80 : UInt8) ||| block.fragment <<< 1 ||| (if block.last then 1 else 0)

def firstFlag (block : Block) : UInt8 :=
  block.delivery.code <<< 5 ||| (if block.last then 0 else 0x08)

def deliveryField (block : Block) : Bytes :=
  match block.delivery with
  | .deliveryLocal => []
  | .deliveryTunnel => natBE 4 block.tunnelID.toNat ++ block.gateway.val
  | .deliveryRouter => block.gateway.val

def messageIDField (block : Block) : Bytes :=
  if block.last then [] else natBE 4 block.messageID.toNat

def marshalBlock (space : Nat) (block : Block) : Except TunnelError Bytes :=
  match blockLen block with
  | .error _ => .error .gatewayBlock
  | .ok n =>
    if space < n then .error .gatewayBlock
    else if block.followOn then
      .ok (followOnFlag block :: (natBE 4 block.messageID.toNat ++ dataField block))
    else
      .ok (firstFlag block :: (deliveryField block ++ (messageIDField block ++ dataField block)))

def readData (block : Block) (rest : Bytes) : Except TunnelError (Option (Block × Bytes)) :=
  if rest.length < 2 then .error .shortBuffer
  else
    let n := (uint16At rest 0).toNat
    if n = 0 then .error .block
    else if n > (rest.drop 2).length then .error .block
    else .ok (some ({ block with data := (rest.drop 2).take n }, (rest.drop 2).drop n))

def readDelivery (flag : UInt8) (rest : Bytes) : Except TunnelError (Block × Bytes) :=
  match (flag >>> 5 &&& 3).toNat with
  | 0 => .ok ({ last := true }, rest)
  | 1 =>
    if rest.length < 36 then .error .shortBuffer
    else if uint32At rest 0 = 0 then .error .block
    else
      .ok
        ({ delivery := .deliveryTunnel, tunnelID := uint32At rest 0
           gateway := arrayAt 32 rest 4, last := true }, rest.drop 36)
  | 2 =>
    if rest.length < 32 then .error .shortBuffer
    else
      .ok ({ delivery := .deliveryRouter, gateway := arrayAt 32 rest 0, last := true },
        rest.drop 32)
  | _ => .error .block

def readMessageID (flag : UInt8) (block : Block) (rest : Bytes) :
    Except TunnelError (Block × Bytes) :=
  if flag &&& 0x08 ≠ 0 then
    if rest.length < 4 then .error .shortBuffer
    else .ok ({ block with messageID := uint32At rest 0, last := false }, rest.drop 4)
  else .ok (block, rest)

/-- `BlockIterator.Next` on the rest of a payload: the next block and the new
rest, or nothing at the end. -/
def nextBlock (rest : Bytes) : Except TunnelError (Option (Block × Bytes)) :=
  match rest with
  | [] => .ok none
  | flag :: rest =>
    if flag &&& 0x80 ≠ 0 then
      if rest.length < 6 then .error .shortBuffer
      else if flag >>> 1 &&& 0x3f = 0 then .error .block
      else
        readData
          { followOn := true, messageID := uint32At rest 0, fragment := flag >>> 1 &&& 0x3f
            last := flag &&& 1 ≠ 0 } (rest.drop 4)
    else if flag &&& 0x17 ≠ 0 then .error .block
    else do
      let delivered ← readDelivery flag rest
      let identified ← readMessageID flag delivered.1 delivered.2
      readData identified.1 identified.2

section RoundTrip

def Block.carried (block : Block) : Block :=
  if block.followOn then
    { followOn := true, messageID := block.messageID, fragment := block.fragment
      last := block.last, data := block.data }
  else
    { delivery := block.delivery
      gateway :=
        match block.delivery with
        | .deliveryLocal => FixedBytes.zero 32
        | _ => block.gateway
      tunnelID :=
        match block.delivery with
        | .deliveryTunnel => block.tunnelID
        | _ => 0
      messageID := if block.last then 0 else block.messageID
      last := block.last
      data := block.data }

theorem readData_dataField (head block : Block) (rest : Bytes) (hpos : 0 < block.data.length)
    (hlen : block.data.length < 2 ^ 16) :
    readData head (dataField block ++ rest) = .ok (some ({ head with data := block.data }, rest)) := by
  have hword := UInt16.toNat_ofNat_of_lt' hlen
  have hread := uint16At_append (UInt16.ofNat block.data.length) (block.data ++ rest)
  rw [hword] at hread
  have hlength : (natBE 2 block.data.length).length = 2 := natBE_length _ _
  rw [readData, dataField, append_assoc, if_neg (by simp; omega)]
  rw [hread, hword, drop_left' hlength, if_neg (by omega), if_neg (by simp),
    take_left' rfl, drop_left' rfl]

variable {block : Block}

theorem followOnFlag_bits (hfragment : ¬ (block.fragment = 0 ∨ block.fragment > 63)) :
    followOnFlag block &&& 0x80 ≠ 0 ∧ followOnFlag block >>> 1 &&& 0x3f = block.fragment ∧
      (decide (followOnFlag block &&& 1 ≠ 0)) = block.last := by
  have hall : ∀ n < 64, ∀ last : Bool,
      let flag : UInt8 := (0x80 : UInt8) ||| UInt8.ofNat n <<< 1 ||| (if last then 1 else 0)
      flag &&& 0x80 ≠ 0 ∧ flag >>> 1 &&& 0x3f = UInt8.ofNat n ∧
        decide (flag &&& 1 ≠ 0) = last := by decide
  obtain ⟨-, hle⟩ := not_or.mp hfragment
  have hlt : block.fragment.toNat < 64 := by exact Nat.lt_succ_of_le (Nat.le_of_not_lt hle)
  have hbits := hall block.fragment.toNat hlt block.last
  rwa [UInt8.ofNat_toNat] at hbits

theorem firstFlag_bits (block : Block) :
    firstFlag block &&& 0x80 = 0 ∧ firstFlag block &&& 0x17 = 0 ∧
      firstFlag block >>> 5 &&& 3 = block.delivery.code ∧
      (firstFlag block &&& 0x08 ≠ 0 ↔ block.last = false) := by
  rw [firstFlag]
  cases block.delivery <;> cases block.last <;> decide

theorem blockLen_eq_ok {n : Nat} (h : blockLen block = .ok n) :
    0 < block.data.length ∧ block.data.length < 2 ^ 16 ∧
      (block.followOn → ¬ (block.fragment = 0 ∨ block.fragment > 63)) ∧
      (block.delivery = .deliveryTunnel → block.followOn = false → block.tunnelID ≠ 0) := by
  rw [blockLen] at h
  split at h
  · simp at h
  next hdata =>
  refine ⟨by omega, by omega, ?_, ?_⟩
  · intro hfollow
    rw [if_pos hfollow] at h
    split at h
    · simp at h
    · assumption
  · intro hdelivery hfirst
    rw [if_neg (by simp [hfirst]), firstBlockLen, if_neg (by simp [hfirst])] at h
    rw [hdelivery] at h
    dsimp only at h
    split at h
    · simp [Except.map] at h
    · assumption

theorem readDelivery_deliveryField (rest : Bytes)
    (htunnel : block.delivery = .deliveryTunnel → block.tunnelID ≠ 0) (hfirst : block.followOn = false) :
    readDelivery (firstFlag block) (deliveryField block ++ rest) =
      .ok ({ block.carried with messageID := 0, last := true, data := [] }, rest) := by
  have hcode := (firstFlag_bits block).2.2.1
  rw [readDelivery, hcode]
  cases hdelivery : block.delivery with
  | deliveryLocal => simp [deliveryField, Block.carried, hdelivery, hfirst, DeliveryType.code]
  | deliveryTunnel =>
    have hgateway : arrayAt 32 (natBE 4 block.tunnelID.toNat ++ (block.gateway.val ++ rest)) 4 =
        block.gateway := by
      exact arrayAt_append _ _
    have hrest : (natBE 4 block.tunnelID.toNat ++ (block.gateway.val ++ rest)).drop 36 = rest := by
      rw [drop_skip (natBE_length _ _) _ _ (by omega)]
      exact drop_left' (by simp)
    have hroom : 36 ≤ 4 + (32 + rest.length) := by omega
    simp [deliveryField, Block.carried, hdelivery, hfirst, DeliveryType.code, htunnel hdelivery,
      hgateway, hrest, hroom]
  | deliveryRouter =>
    have hrest : (block.gateway.val ++ rest).drop 32 = rest := drop_left' (by simp)
    simp [deliveryField, Block.carried, hdelivery, hfirst, DeliveryType.code, hrest]

theorem readMessageID_messageIDField (block : Block) {head : Block} (rest : Bytes)
    (hlast : head.last = true) (hmessageID : head.messageID = 0) :
    readMessageID (firstFlag block) head (messageIDField block ++ rest) =
      .ok ({ head with
            last := block.last
            messageID := if block.last then 0 else block.messageID }, rest) := by
  have hidentified := (firstFlag_bits block).2.2.2
  rw [readMessageID, messageIDField]
  cases hwhole : block.last with
  | true =>
    rw [if_neg (by simp [hidentified, hwhole]), if_pos rfl, if_pos rfl, ← hlast, ← hmessageID]
    rfl
  | false =>
    have hrest : (natBE 4 block.messageID.toNat ++ rest).drop 4 = rest :=
      drop_left' (natBE_length _ _)
    rw [if_pos (hidentified.mpr hwhole)]
    simp [hrest]

theorem nextBlock_marshalBlock {space : Nat} {bytes : Bytes}
    (h : marshalBlock space block = .ok bytes) (rest : Bytes) :
    nextBlock (bytes ++ rest) = .ok (some (block.carried, rest)) := by
  rw [marshalBlock] at h
  split at h
  · simp at h
  next n hlen =>
  obtain ⟨hpos, hshort, hfragment, htunnel⟩ := blockLen_eq_ok hlen
  split at h
  · simp at h
  split at h
  next hfollow =>
    obtain rfl := Except.ok.inj h
    obtain ⟨hhigh, hnumber, hlast⟩ := followOnFlag_bits (hfragment hfollow)
    have hzero : followOnFlag block >>> 1 &&& 0x3f ≠ 0 := by
      rw [hnumber]
      exact fun h => hfragment hfollow (Or.inl h)
    have hrest : (natBE 4 block.messageID.toNat ++ (dataField block ++ rest)).drop 4 =
        dataField block ++ rest := drop_left' (natBE_length _ _)
    have hroom : ¬ (natBE 4 block.messageID.toNat ++ (dataField block ++ rest)).length < 6 := by
      simp [dataField]
      omega
    rw [cons_append, append_assoc, nextBlock, if_pos hhigh, if_neg hroom, if_neg hzero, hrest, uint32At_append, hnumber, hlast,
      readData_dataField _ _ _ hpos hshort, Block.carried, if_pos hfollow]
  next hfirst =>
    obtain rfl := Except.ok.inj h
    rw [Bool.not_eq_true] at hfirst
    obtain ⟨hhigh, hreserved, -, -⟩ := firstFlag_bits block
    rw [cons_append, append_assoc, append_assoc, nextBlock,
      if_neg (by simp [hhigh]), if_neg (by simp [hreserved]),
      readDelivery_deliveryField _ (fun h => htunnel h hfirst) hfirst]
    dsimp only [bind, Except.bind]
    rw [readMessageID_messageIDField _ _ rfl rfl]
    dsimp only
    rw [readData_dataField _ _ _ hpos hshort]
    simp [Block.carried, hfirst]

end RoundTrip

end Ivnp.Tunnel
