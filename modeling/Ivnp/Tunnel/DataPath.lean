import Ivnp.Tunnel.ShortRecords
import Ivnp.Tunnel.VariableLayers

/-!
The layers of a tunnel message. A hop of a built tunnel encrypts what it passes
on with its two keys, and the creator strips the layers: before the first hop of
an outbound tunnel, after the last of an inbound one. `Transform` writes to a
buffer that may be the one it reads.
-/

namespace Ivnp.Tunnel

open Ivnp.Lib List FixedBytes

def layerPayloadSize : Nat := 1024

def layerBlocks : Nat := 63

abbrev TunnelPayload := FixedBytes layerPayloadSize

/-- The two buffers of a call: one buffer when it works in place. -/
inductive Buffers where
  | shared (bytes : Bytes)
  | apart (dst src : Bytes)

namespace Buffers

def dst : Buffers → Bytes
  | shared bytes => bytes
  | apart dst _ => dst

def src : Buffers → Bytes
  | shared bytes => bytes
  | apart _ src => src

def overwrite (buffer : Bytes) (offset : Nat) (bytes : Bytes) : Bytes :=
  buffer.take offset ++ bytes ++ buffer.drop (offset + bytes.length)

/-- The write of `bytes` to `dst[offset:]`, which `src` shows when it is the same buffer. -/
def write (buffers : Buffers) (offset : Nat) (bytes : Bytes) : Buffers :=
  match buffers with
  | shared buffer => shared (overwrite buffer offset bytes)
  | apart dst src => apart (overwrite dst offset bytes) src

@[simp] theorem dst_write (buffers : Buffers) (offset : Nat) (bytes : Bytes) :
    (buffers.write offset bytes).dst = overwrite buffers.dst offset bytes := by
  cases buffers <;> rfl

end Buffers

/-- A layer with its AES schedules, which are gone once the cipher has been cleared. -/
structure LayerCipher where
  layerBlock : Option (FixedBytes 32)
  ivBlock : Option (FixedBytes 32)
  encrypt : Bool
  deriving DecidableEq

def newLayer (layer ivKey : Bytes) (encrypt : Bool) : Option LayerCipher :=
  if layer.length ≠ 32 ∨ ivKey.length ≠ 32 then none
  else some ⟨some (FixedBytes.copy 32 layer), some (FixedBytes.copy 32 ivKey), encrypt⟩

def newLayerEncryptor (layer ivKey : Bytes) : Option LayerCipher := newLayer layer ivKey true
def newLayerDecryptor (layer ivKey : Bytes) : Option LayerCipher := newLayer layer ivKey false

def ShortBuildKeys.layer (keys : ShortBuildKeys) (encrypt : Bool) : LayerCipher :=
  ⟨some keys.layerKey, some keys.ivKey, encrypt⟩

theorem newLayer_keys (keys : ShortBuildKeys) (encrypt : Bool) :
    newLayer keys.layerKey.val keys.ivKey.val encrypt = some (keys.layer encrypt) := by
  have hcopy (key : FixedBytes 32) : copy 32 key.val = key := by
    apply Subtype.ext
    rw [copy_val_of_le (by simp), take_of_length_le (by simp)]
  rw [newLayer, if_neg (by simp), hcopy, hcopy]
  rfl

section Transform

variable (crypto : BuildCrypto)

/-- One block of the IV cipher, in the direction of the layer. -/
def cryptBlock (encrypt : Bool) (key : FixedBytes 32) (block : FixedBytes aesBlockSize) :
    FixedBytes aesBlockSize :=
  if encrypt then crypto.aesEncrypt key block else crypto.aesDecrypt key block

def cryptBlocks (encrypt : Bool) (key : FixedBytes 32) (iv : FixedBytes aesBlockSize)
    (src : Bytes) : Bytes :=
  if encrypt then Cbc.encryptBlocks (crypto.aesEncrypt key) layerBlocks iv src
  else Cbc.decryptBlocks (crypto.aesDecrypt key) layerBlocks iv src

namespace LayerCipher

/-- `Transform`: what the two buffers hold when it returns without an error. -/
def transform (cipher : LayerCipher) (buffers : Buffers) : Option Buffers :=
  if buffers.dst.length < layerPayloadSize ∨ buffers.src.length < layerPayloadSize then none
  else
    match cipher.layerBlock, cipher.ivBlock with
    | some layerKey, some ivKey =>
      let iv := cryptBlock crypto cipher.encrypt ivKey (FixedBytes.copy aesBlockSize buffers.src)
      let body := (buffers.src.drop aesBlockSize).take (layerPayloadSize - aesBlockSize)
      let buffers := buffers.write aesBlockSize
        (cryptBlocks crypto cipher.encrypt layerKey iv body)
      some (buffers.write 0 (cryptBlock crypto cipher.encrypt ivKey iv).val)
    | _, _ => none

end LayerCipher

def layerOf (encrypt : Bool) (layerKey ivKey : FixedBytes 32) (payload : Bytes) : Bytes :=
  let iv := cryptBlock crypto encrypt ivKey (FixedBytes.copy aesBlockSize payload)
  (cryptBlock crypto encrypt ivKey iv).val ++
    cryptBlocks crypto encrypt layerKey iv (payload.drop aesBlockSize)

variable {crypto}

@[simp] theorem length_cryptBlocks (encrypt : Bool) (key : FixedBytes 32)
    (iv : FixedBytes aesBlockSize) (src : Bytes) :
    (cryptBlocks crypto encrypt key iv src).length = layerPayloadSize - aesBlockSize := by
  cases encrypt with
  | false => exact Cbc.length_decryptBlocks _ _ _ _
  | true => exact Cbc.length_encryptBlocks _ _ _ _

@[simp] theorem length_layerOf (encrypt : Bool) (layerKey ivKey : FixedBytes 32) (payload : Bytes) :
    (layerOf crypto encrypt layerKey ivKey payload).length = layerPayloadSize := by
  rw [layerOf, length_append, length_cryptBlocks, length_val]
  rfl

/-- In place or not, `Transform` replaces the first 1024 bytes of its destination
by the layer of the first 1024 bytes of its source. -/
theorem LayerCipher.transform_eq {buffers : Buffers} (layerKey ivKey : FixedBytes 32)
    (encrypt : Bool) (hdst : layerPayloadSize ≤ buffers.dst.length)
    (hsrc : layerPayloadSize ≤ buffers.src.length) :
    ∃ after, LayerCipher.transform crypto ⟨some layerKey, some ivKey, encrypt⟩ buffers =
        some after ∧
      after.dst = layerOf crypto encrypt layerKey ivKey (buffers.src.take layerPayloadSize) ++
        buffers.dst.drop layerPayloadSize := by
  have hsizes : ¬(buffers.dst.length < layerPayloadSize ∨ buffers.src.length < layerPayloadSize) := by
    omega
  have hblock : aesBlockSize ≤ layerPayloadSize := by decide
  have hiv : copy aesBlockSize (buffers.src.take layerPayloadSize) =
      copy aesBlockSize buffers.src := by
    apply Subtype.ext
    rw [copy_val_of_le (by rw [length_take]; omega),
      copy_val_of_le (by omega), take_take, Nat.min_eq_left hblock]
  have hbody : (buffers.src.take layerPayloadSize).drop aesBlockSize =
      (buffers.src.drop aesBlockSize).take (layerPayloadSize - aesBlockSize) :=
    drop_take
  rw [LayerCipher.transform, if_neg hsizes]
  refine ⟨_, rfl, ?_⟩
  -- the second write replaces the block that the first has left alone
  simp only [Buffers.dst_write, Buffers.overwrite, take_zero, nil_append,
    length_val, length_cryptBlocks, Nat.zero_add, append_assoc]
  rw [drop_left' (length_take_of_le (hblock.trans hdst)), layerOf, hiv, hbody, append_assoc]
  rfl

structure AesInverse (crypto : BuildCrypto) : Prop where
  decrypt_encrypt : ∀ key, Function.LeftInverse (crypto.aesDecrypt key) (crypto.aesEncrypt key)
  encrypt_decrypt : ∀ key, Function.LeftInverse (crypto.aesEncrypt key) (crypto.aesDecrypt key)

variable (haes : AesInverse crypto)
include haes

theorem cryptBlock_cancel (encrypt : Bool) (key : FixedBytes 32) (block : FixedBytes aesBlockSize) :
    cryptBlock crypto (!encrypt) key (cryptBlock crypto encrypt key block) = block := by
  cases encrypt with
  | false => exact haes.encrypt_decrypt _ _
  | true => exact haes.decrypt_encrypt _ _

theorem cryptBlocks_cancel (encrypt : Bool) (key : FixedBytes 32) (iv : FixedBytes aesBlockSize)
    {src : Bytes} (hsrc : src.length = layerPayloadSize - aesBlockSize) :
    cryptBlocks crypto (!encrypt) key iv (cryptBlocks crypto encrypt key iv src) = src := by
  cases encrypt with
  | false => exact Cbc.encryptBlocks_decryptBlocks (haes.encrypt_decrypt _) _ _ _ hsrc
  | true => exact Cbc.decryptBlocks_encryptBlocks (haes.decrypt_encrypt _) _ _ _ hsrc

/-- The other direction of a layer recovers the inner IV from the outer one, and
with it the body. -/
theorem layerOf_cancel (encrypt : Bool) (layerKey ivKey : FixedBytes 32)
    {payload : Bytes} (hpayload : payload.length = layerPayloadSize) :
    layerOf crypto (!encrypt) layerKey ivKey (layerOf crypto encrypt layerKey ivKey payload) =
      payload := by
  have hblock : aesBlockSize ≤ payload.length := by rw [hpayload]; decide
  rw [layerOf, layerOf]
  rw [copy_append, drop_left' (length_val _), cryptBlock_cancel haes,
    cryptBlock_cancel haes, cryptBlocks_cancel haes _ _ _ (by rw [length_drop, hpayload]),
    copy_val_of_le hblock, take_append_drop]

end Transform

structure Forward where
  peer : Hash
  tunnelID : UInt32

structure OutboundCircuit where
  id : UInt32
  owner : Hash
  firstHop : Hash
  nextTunnelID : UInt32
  transforms : List LayerCipher
  expiresAt : UInt64

/-- An `Endpoint` object, by its number. -/
abbrev EndpointRef := Nat

structure InboundCircuit where
  id : UInt32
  owner : Hash
  transforms : List LayerCipher
  forward : Option Forward
  endpoint : Option EndpointRef
  expiresAt : UInt64

inductive Circuit where
  | outbound (circuit : OutboundCircuit)
  | inbound (circuit : InboundCircuit)

def Circuit.transforms : Circuit → List LayerCipher
  | outbound circuit => circuit.transforms
  | inbound circuit => circuit.transforms

/-- What is kept of a build until its reply arrives, as far as the circuit needs it. -/
structure PendingBuild where
  circuitID : UInt32
  owner : Hash
  firstRouter : Hash
  firstTunnelID : UInt32
  expiresAt : UInt64
  keys : List ShortBuildKeys

/-- The loop of both reply handlers: the hops from the last to the first. -/
def creatorTransforms (keys : List ShortBuildKeys) : Option (List LayerCipher) :=
  (List.range keys.length).mapM fun hop =>
    keys[keys.length - 1 - hop]?.bind fun key => newLayerDecryptor key.layerKey.val key.ivKey.val

def handleReply (pending : PendingBuild) : Option OutboundCircuit :=
  (creatorTransforms pending.keys).map fun transforms =>
    { id := pending.circuitID, owner := pending.owner, firstHop := pending.firstRouter
      nextTunnelID := pending.firstTunnelID, transforms, expiresAt := pending.expiresAt }

/-- The circuit that `handleInboundReply` registers when every hop has accepted, with the
new object `endpoint`. -/
def handleInboundReply (pending : PendingBuild) (endpoint : EndpointRef) : Option InboundCircuit :=
  (creatorTransforms pending.keys).map fun transforms =>
    { id := pending.circuitID, owner := pending.owner, transforms, forward := none
      endpoint := some endpoint, expiresAt := pending.expiresAt }

/-- The circuit that `installTransitCircuit` registers; `endpoint` is the new object it has
made for a hop that ends the tunnel. -/
def installTransitCircuit (request : ShortBuildRequest) (keys : ShortBuildKeys) (now : UInt64)
    (endpoint : EndpointRef) : Option Circuit :=
  let expiresAt := now + request.lifetimeSeconds.toUInt64 * 1000
  if expiresAt < now then none
  else
    (newLayerEncryptor keys.layerKey.val keys.ivKey.val).map fun encryptor =>
      if request.gateway then
        .outbound {
          id := request.receiveTunnelID, owner := FixedBytes.zero 32, firstHop := request.nextRouter
          nextTunnelID := request.nextTunnelID, transforms := [encryptor], expiresAt }
      else
        .inbound {
          id := request.receiveTunnelID, owner := FixedBytes.zero 32, transforms := [encryptor]
          forward := if request.endpoint then none else
            some ⟨request.nextRouter, request.nextTunnelID⟩
          endpoint := if request.endpoint then some endpoint else none
          expiresAt }

/-- A hop at the end of a build: what it has read of its record, and its clock. -/
structure TransitHop where
  request : ShortBuildRequest
  keys : ShortBuildKeys
  now : UInt64
  endpoint : EndpointRef

def TransitHop.install (hop : TransitHop) : Option Circuit :=
  installTransitCircuit hop.request hop.keys hop.now hop.endpoint

theorem mapM_last_to_first {K : Type} {make : K → Option LayerCipher} {cipher : K → LayerCipher}
    (keys : List K) (hmake : ∀ key, make key = some (cipher key)) :
    ((List.range keys.length).mapM fun hop => keys[keys.length - 1 - hop]?.bind make) =
      some (keys.reverse.map cipher) := by
  have hreverse : keys.reverse.map some =
      (range keys.length).map fun hop => keys[keys.length - 1 - hop]? := by
    apply ext_getElem
    · simp
    · intro hop hleft hright
      simp only [getElem_map, getElem_reverse, getElem_range]
      exact (getElem?_eq_getElem _).symm
  have hfold : ((range keys.length).mapM fun hop => keys[keys.length - 1 - hop]?.bind make) =
      (keys.reverse.map some).mapM fun key => key.bind make := by
    rw [hreverse, mapM_map]
    rfl
  rw [hfold, mapM_map]
  induction keys.reverse with
  | nil => rfl
  | cons key rest ih =>
    rw [mapM_cons, ih]
    change (make key).bind _ = _
    rw [hmake]
    rfl

theorem creatorTransforms_eq (keys : List ShortBuildKeys) :
    creatorTransforms keys = some (keys.reverse.map (·.layer false)) :=
  mapM_last_to_first _ fun key => newLayer_keys key false

theorem TransitHop.install_transforms {hop : TransitHop} {circuit : Circuit}
    (h : hop.install = some circuit) : circuit.transforms = [hop.keys.layer true] := by
  have htransforms (circuit : Circuit) (gateway : Bool) (sent : OutboundCircuit)
      (received : InboundCircuit) (hsent : sent.transforms = [hop.keys.layer true])
      (hreceived : received.transforms = [hop.keys.layer true])
      (h : (if gateway then Circuit.outbound sent else .inbound received) = circuit) :
      circuit.transforms = [hop.keys.layer true] := by
    subst h
    cases gateway
    · exact hreceived
    · exact hsent
  unfold TransitHop.install installTransitCircuit newLayerEncryptor at h
  rw [newLayer_keys] at h
  obtain ⟨-, h⟩ := (Option.ite_none_left_eq_some).mp h
  exact htransforms _ _ _ _ rfl rfl (Option.some.inj h)

theorem mapM_install_transforms {hops : List TransitHop} {circuits : List Circuit}
    (h : hops.mapM TransitHop.install = some circuits) :
    circuits.flatMap Circuit.transforms = hops.map (·.keys.layer true) := by
  induction hops generalizing circuits with
  | nil =>
    cases h
    rfl
  | cons hop rest ih =>
    rw [mapM_cons] at h
    obtain ⟨circuit, hcircuit, h⟩ := Option.bind_eq_some_iff.mp h
    obtain ⟨circuits, hcircuits, h⟩ := Option.bind_eq_some_iff.mp h
    cases h
    rw [flatMap_cons, TransitHop.install_transforms hcircuit, ih hcircuits]
    rfl

section Travel

variable (crypto : BuildCrypto)

/-- Where a call of `Transform` puts its result. -/
inductive Placement where
  | inPlace
  | into (dst : Bytes)

def Placement.buffers : Placement → Bytes → Buffers
  | inPlace, bytes => .shared bytes
  | into dst, bytes => .apart dst bytes

/-- The destination is large enough; the source always is. -/
def Placement.Fits : Placement → Prop
  | inPlace => True
  | into dst => layerPayloadSize ≤ dst.length

/-- The calls of `Transform` on the way of a message, each on what the one before has left. -/
def travel : List (LayerCipher × Placement) → Bytes → Option Bytes
  | [], bytes => some bytes
  | (cipher, placement) :: rest, bytes =>
    (cipher.transform crypto (placement.buffers bytes)).bind fun buffers => travel rest buffers.dst

variable {crypto}

theorem transform_placed {placement : Placement} {bytes : Bytes} (keys : ShortBuildKeys)
    (encrypt : Bool) (hfits : placement.Fits) (hbytes : layerPayloadSize ≤ bytes.length) :
    ∃ after, (keys.layer encrypt).transform crypto (placement.buffers bytes) = some after ∧
      layerPayloadSize ≤ after.dst.length ∧
      after.dst.take layerPayloadSize = layerOf crypto encrypt keys.layerKey keys.ivKey
        (bytes.take layerPayloadSize) := by
  have hdst : layerPayloadSize ≤ (placement.buffers bytes).dst.length := by
    cases placement with
    | inPlace => exact hbytes
    | into dst => exact hfits
  have hsrc : (placement.buffers bytes).src = bytes := by cases placement <;> rfl
  obtain ⟨after, hafter, hlayer⟩ := LayerCipher.transform_eq keys.layerKey keys.ivKey
    _ hdst (hbytes.trans_eq (congrArg length hsrc.symm))
  rw [hsrc] at hlayer
  refine ⟨after, hafter, ?_, ?_⟩
  · rw [hlayer, length_append, length_layerOf]
    omega
  · rw [hlayer, take_left' (length_layerOf _ _ _ _)]

def layersOf (crypto : BuildCrypto) (way : List (ShortBuildKeys × Bool)) (payload : Bytes) : Bytes :=
  way.foldl (fun payload layer => layerOf crypto layer.2 layer.1.layerKey layer.1.ivKey payload)
    payload

theorem layersOf_append (left right : List (ShortBuildKeys × Bool)) (payload : Bytes) :
    layersOf crypto (left ++ right) payload = layersOf crypto right (layersOf crypto left payload) :=
  foldl_append

/-- A message meets every layer of its way, whatever buffers the calls use. -/
theorem travel_eq (way : List (ShortBuildKeys × Bool)) {passes : List (LayerCipher × Placement)}
    {bytes : Bytes} (hway : passes.map Prod.fst = way.map fun layer => layer.1.layer layer.2)
    (hfits : ∀ pass ∈ passes, pass.2.Fits) (hbytes : layerPayloadSize ≤ bytes.length) :
    ∃ after, travel crypto passes bytes = some after ∧
      after.take layerPayloadSize = layersOf crypto way (bytes.take layerPayloadSize) := by
  induction way generalizing passes bytes with
  | nil =>
    rw [map_nil, map_eq_nil_iff] at hway
    subst hway
    exact ⟨bytes, rfl, rfl⟩
  | cons layer rest ih =>
    cases passes with
    | nil => cases hway
    | cons pass passes =>
      obtain ⟨cipher, placement⟩ := pass
      obtain ⟨hcipher, hrest⟩ := cons_eq_cons.mp hway
      change cipher = layer.1.layer layer.2 at hcipher
      obtain ⟨buffers, htransform, hlength, htake⟩ :=
        transform_placed layer.1 layer.2 (hfits _ mem_cons_self) hbytes
      obtain ⟨after, htravel, hafter⟩ :=
        ih hrest (fun pass hpass => hfits _ (mem_cons_of_mem _ hpass)) hlength
      refine ⟨after, ?_, ?_⟩
      · rw [travel, hcipher, htransform]
        exact htravel
      · rw [hafter, htake]
        rfl

/-- Layers and then their inverses, in the opposite order. -/
theorem layersOf_cancel (haes : AesInverse crypto) (encrypt : Bool) (keys : List ShortBuildKeys)
    {payload : Bytes} (h : payload.length = layerPayloadSize) :
    layersOf crypto (keys.map (·, encrypt) ++ keys.reverse.map (·, !encrypt)) payload =
      payload := by
  induction keys generalizing payload with
  | nil => rfl
  | cons key rest ih =>
    rw [reverse_cons, map_append, ← append_assoc, layersOf_append]
    change layerOf crypto (!encrypt) key.layerKey key.ivKey (layersOf crypto
      (rest.map (·, encrypt) ++ rest.reverse.map (·, !encrypt))
      (layerOf crypto encrypt key.layerKey key.ivKey payload)) = payload
    rw [ih (length_layerOf _ _ _ _)]
    exact layerOf_cancel haes encrypt _ _ h

/-- The circuits of a built tunnel lose nothing. Whether its calls work in place
or not, the last hop of an outbound tunnel has the payload that its creator has
sent, and the creator of an inbound tunnel has the one its gateway has sent. -/
theorem tunnel_data_lossless (haes : AesInverse crypto) (hops : List TransitHop)
    (circuits : List Circuit) (hinstall : hops.mapM TransitHop.install = some circuits)
    (pending : PendingBuild) (hkeys : pending.keys = hops.map (·.keys)) (endpoint : EndpointRef)
    (payload : TunnelPayload)
    (passes : List (LayerCipher × Placement)) (hfits : ∀ pass ∈ passes, pass.2.Fits) :
    (∃ creator, handleReply pending = some creator ∧
      (passes.map Prod.fst = creator.transforms ++ circuits.flatMap Circuit.transforms →
        ∃ after, travel crypto passes payload.val = some after ∧
          after.take layerPayloadSize = payload.val)) ∧
    ∃ creator, handleInboundReply pending endpoint = some creator ∧
      (passes.map Prod.fst = circuits.flatMap Circuit.transforms ++ creator.transforms →
        ∃ after, travel crypto passes payload.val = some after ∧
          after.take layerPayloadSize = payload.val) := by
  have hlength := payload.property.ge
  have hpayload := take_of_length_le payload.property.le
  have hcircuits : circuits.flatMap Circuit.transforms =
      (pending.keys.map (·, true)).map fun layer => layer.1.layer layer.2 := by
    rw [mapM_install_transforms hinstall, hkeys, map_map, map_map]
    rfl
  have hcreator : creatorTransforms pending.keys =
      some ((pending.keys.reverse.map (·, false)).map fun layer => layer.1.layer layer.2) := by
    rw [creatorTransforms_eq, map_map]
    rfl
  rw [handleReply, handleInboundReply, hcreator, hcircuits]
  constructor
  · refine ⟨_, rfl, fun hway => ?_⟩
    rw [← map_append] at hway
    obtain ⟨after, htravel, hafter⟩ := travel_eq _ hway hfits hlength
    have hcancel := layersOf_cancel haes false pending.keys.reverse payload.property
    rw [reverse_reverse, Bool.not_false] at hcancel
    rw [hpayload, hcancel] at hafter
    exact ⟨after, htravel, hafter⟩
  · refine ⟨_, rfl, fun hway => ?_⟩
    rw [← map_append] at hway
    obtain ⟨after, htravel, hafter⟩ := travel_eq _ hway hfits hlength
    rw [hpayload, ← Bool.not_true, layersOf_cancel haes _ _ payload.property] at hafter
    exact ⟨after, htravel, hafter⟩

def xorCrypto : BuildCrypto :=
  { plainCrypto with
    aesEncrypt := fun key block => block.xor (FixedBytes.copy aesBlockSize key.val)
    aesDecrypt := fun key block => block.xor (FixedBytes.copy aesBlockSize key.val) }

def transitHop (number : UInt8) : TransitHop where
  request :=
    { receiveTunnelID := number.toUInt32, nextTunnelID := number.toUInt32 + 1
      nextRouter := FixedBytes.zero 32, gateway := false, endpoint := number = 2
      requestMinutes := 0, lifetimeSeconds := shortBuildLifetime, nextMessageID := 0
      bandwidth := ⟨0, 0, 0⟩ }
  keys :=
    { replyKey := FixedBytes.zero 32, layerKey := ⟨List.replicate 32 number, by simp⟩
      ivKey := ⟨List.replicate 32 (number + 2), by simp⟩, garlicKey := FixedBytes.zero 32
      garlicTag := FixedBytes.zero 8, hash := FixedBytes.zero 32, hasGarlicKeys := false }
  now := 0
  endpoint := 0

/-- The layers of that tunnel: the creator's from the second hop to the first, then the hops'. -/
def twoHopWay : List LayerCipher :=
  [(transitHop 2).keys.layer false, (transitHop 1).keys.layer false,
    (transitHop 1).keys.layer true, (transitHop 2).keys.layer true]

theorem tunnel_data_lossless_two_hops :
    ∃ after, travel xorCrypto (twoHopWay.map (·, .inPlace)) (FixedBytes.zero layerPayloadSize).val =
        some after ∧
      after.take layerPayloadSize = (FixedBytes.zero layerPayloadSize).val := by
  have haes : AesInverse xorCrypto := ⟨fun _ _ => xor_xor_cancel _ _, fun _ _ => xor_xor_cancel _ _⟩
  obtain ⟨⟨creator, hcreator, hsent⟩, -⟩ := tunnel_data_lossless haes
    [transitHop 1, transitHop 2] _ rfl
    ⟨7, zero 32, zero 32, 1, 0, [(transitHop 1).keys, (transitHop 2).keys]⟩ rfl 0
    (zero layerPayloadSize) (twoHopWay.map (·, .inPlace)) (by simp [twoHopWay, Placement.Fits])
  cases hcreator
  exact hsent rfl

end Travel

end Ivnp.Tunnel
