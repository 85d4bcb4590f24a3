import Ivnp.Tunnel.DataPath

/-!
The circuits of a variable build (`legacy_build_manager.go`) next to those of a short one.
A hop of a variable build strips a layer where a hop of a short build adds one, and the
creator adds layers where the creator of a short build strips them. Each kind of tunnel is
lossless by itself; the two agree on a payload only where a layer undoes itself.
-/

namespace Ivnp.Tunnel

open Ivnp.Lib List FixedBytes

/-- The circuit that `installVariableTransitCircuit` registers; `endpoint` is the new object
it has made for a hop that ends the tunnel. -/
def installVariableTransitCircuit (request : VariableBuildRequest) (now : UInt64)
    (endpoint : EndpointRef) : Option InboundCircuit :=
  (newLayerDecryptor request.layerKey.val request.ivKey.val).map fun decryptor =>
    { id := request.receiveTunnelID, owner := FixedBytes.zero 32, transforms := [decryptor]
      forward := if request.endpoint then none else
        some ⟨request.nextRouter, request.nextTunnelID⟩
      endpoint := if request.endpoint then some endpoint else none
      expiresAt := now + 660000 }

/-- What is kept of a variable build until its reply arrives. -/
structure PendingVariableBuild where
  circuitID : UInt32
  owner : Hash
  firstRouter : Hash
  firstTunnelID : UInt32
  expiresAt : UInt64
  deadline : UInt64
  recordCount : Nat
  keys : List VariableBuildKeys
  positions : List UInt8

/-- The loop of `HandleVariableReply`: the hops from the last to the first. -/
def variableCreatorTransforms (keys : List VariableBuildKeys) : Option (List LayerCipher) :=
  (List.range keys.length).mapM fun hop =>
    keys[keys.length - 1 - hop]?.bind fun key => newLayerEncryptor key.layerKey.val key.ivKey.val

def handleVariableReply (crypto : BuildCrypto) (pending : PendingVariableBuild)
    (records : List VariableRecord) (now : UInt64) : Option OutboundCircuit :=
  if pending.deadline ≤ now ∨ records.length ≠ pending.recordCount then none
  else
    match openVariableBuildReplies crypto records pending.keys pending.positions with
    | none => none
    | some codes =>
      if codes.any (· ≠ 0) then none
      else
        (variableCreatorTransforms pending.keys).map fun transforms =>
          { id := pending.circuitID, owner := pending.owner, firstHop := pending.firstRouter
            nextTunnelID := pending.firstTunnelID, transforms, expiresAt := pending.expiresAt }

/-- What the transforms of a circuit make of a payload, one after another in its buffer. -/
def permute (crypto : BuildCrypto) (transforms : List LayerCipher) (payload : TunnelPayload) :
    Option Bytes :=
  travel crypto (transforms.map (·, .inPlace)) payload.val

abbrev LayerKeys := FixedBytes 32 × FixedBytes 32

def ShortBuildKeys.layerKeys (keys : ShortBuildKeys) : LayerKeys := (keys.layerKey, keys.ivKey)
def VariableBuildKeys.layerKeys (keys : VariableBuildKeys) : LayerKeys := (keys.layerKey, keys.ivKey)
def VariableBuildRequest.layerKeys (request : VariableBuildRequest) : LayerKeys :=
  (request.layerKey, request.ivKey)

section Directions

variable {crypto : BuildCrypto}

def layers (crypto : BuildCrypto) (encrypt : Bool) (keys : List LayerKeys) (payload : Bytes) : Bytes :=
  keys.foldl (fun payload keys => layerOf crypto encrypt keys.1 keys.2 payload) payload

variable {payload : Bytes}

theorem length_layers (encrypt : Bool) (keys : List LayerKeys)
    (h : payload.length = layerPayloadSize) :
    (layers crypto encrypt keys payload).length = layerPayloadSize := by
  induction keys generalizing payload with
  | nil => exact h
  | cons key rest ih => exact ih (length_layerOf _ _ _ _)

theorem layers_cancel (haes : AesInverse crypto) (encrypt : Bool) (keys : List LayerKeys) (h : payload.length = layerPayloadSize) :
    layers crypto (!encrypt) keys.reverse (layers crypto encrypt keys payload) = payload := by
  induction keys generalizing payload with
  | nil => rfl
  | cons key rest ih =>
    have hlength : (layerOf crypto encrypt key.1 key.2 payload).length = layerPayloadSize :=
      length_layerOf _ _ _ _
    have hfirst := ih hlength
    rw [reverse_cons, layers, foldl_append]
    change layerOf crypto (!encrypt) key.1 key.2 (layers crypto (!encrypt) rest.reverse
      (layers crypto encrypt rest (layerOf crypto encrypt key.1 key.2 payload))) = payload
    rw [hfirst]
    exact layerOf_cancel haes _ key.1 key.2 h

theorem permute_eq (encrypt : Bool) (keys : List LayerKeys) (payload : TunnelPayload) :
    permute crypto (keys.map fun keys => ⟨some keys.1, some keys.2, encrypt⟩) payload =
      some (layers crypto encrypt keys payload.val) := by
  obtain ⟨payload, hpayload⟩ := payload
  induction keys generalizing payload with
  | nil => rfl
  | cons key rest ih =>
    have hlarge : layerPayloadSize ≤ (Buffers.shared payload).dst.length := hpayload.ge
    obtain ⟨after, hafter, hdst⟩ := LayerCipher.transform_eq key.1 key.2 encrypt hlarge hlarge
    have hlayer : after.dst = layerOf crypto encrypt key.1 key.2 payload := by
      rw [hdst]
      change layerOf crypto encrypt key.1 key.2 (payload.take layerPayloadSize) ++
        payload.drop layerPayloadSize = _
      rw [take_of_length_le hpayload.le, drop_of_length_le hpayload.le, append_nil]
    change (LayerCipher.transform crypto _ (.shared payload)).bind _ = _
    rw [hafter, Option.bind_some, hlayer]
    exact ih _ (length_layerOf _ _ _ _)

/-- Adding a layer of each of the keys comes to the same as stripping them exactly where
adding them again, from the last to the first, leads back to the payload. -/
theorem layers_agree_iff (haes : AesInverse crypto) (keys : List LayerKeys)
    (h : payload.length = layerPayloadSize) :
    layers crypto true keys payload = layers crypto false keys payload ↔
      layers crypto true keys.reverse (layers crypto true keys payload) = payload := by
  constructor
  · intro heq
    rw [heq]
    exact layers_cancel haes false _ h
  · intro hback
    have hlength : (layers crypto true keys payload).length = layerPayloadSize :=
      length_layers _ _ h
    have hstrip := layers_cancel haes true keys.reverse hlength
    rw [hback, reverse_reverse] at hstrip
    exact hstrip.symm

end Directions

section Installed

theorem newLayer_layerKeys (keys : LayerKeys) (encrypt : Bool) :
    newLayer keys.1.val keys.2.val encrypt = some ⟨some keys.1, some keys.2, encrypt⟩ :=
  newLayer_keys ⟨keys.1, keys.1, keys.2, keys.1, zero 8, keys.1, false⟩ _

theorem variableCreatorTransforms_eq (keys : List VariableBuildKeys) :
    variableCreatorTransforms keys = some ((keys.map (·.layerKeys)).reverse.map fun keys =>
      ⟨some keys.1, some keys.2, true⟩) := by
  have hlast := mapM_last_to_first keys (fun key => newLayer_layerKeys key.layerKeys true)
  rw [← map_reverse, map_map]
  exact hlast

variable {now : UInt64} {circuit : OutboundCircuit} {endpoint : EndpointRef}

theorem installVariableTransitCircuit_transforms {request : VariableBuildRequest} {circuit : InboundCircuit}
    (h : installVariableTransitCircuit request now endpoint = some circuit) :
    circuit.transforms = [request.layerKeys].map fun keys => ⟨some keys.1, some keys.2, false⟩ := by
  obtain ⟨decryptor, hdecryptor, rfl⟩ := Option.map_eq_some_iff.mp h
  have hlayer := newLayer_layerKeys request.layerKeys false
  obtain rfl := Option.some.inj (hdecryptor.symm.trans hlayer)
  rfl

theorem installTransitCircuit_transforms {request : ShortBuildRequest} {keys : ShortBuildKeys} {circuit : Circuit}
    (h : installTransitCircuit request keys now endpoint = some circuit) :
    circuit.transforms = [keys.layerKeys].map fun keys => ⟨some keys.1, some keys.2, true⟩ := by
  have hinstall : (TransitHop.mk request keys now endpoint).install = some circuit := h
  exact TransitHop.install_transforms hinstall

theorem handleVariableReply_transforms {crypto : BuildCrypto} {pending : PendingVariableBuild}
    {records : List VariableRecord}
    (h : handleVariableReply crypto pending records now = some circuit) :
    circuit.transforms = (pending.keys.map (·.layerKeys)).reverse.map fun keys =>
      ⟨some keys.1, some keys.2, true⟩ := by
  unfold handleVariableReply at h
  rw [variableCreatorTransforms_eq] at h
  split at h
  · cases h
  split at h
  · cases h
  · split at h
    · cases h
    · obtain rfl := Option.some.inj h
      rfl

theorem handleReply_transforms {pending : PendingBuild} (h : handleReply pending = some circuit) :
    circuit.transforms = (pending.keys.map (·.layerKeys)).reverse.map fun keys =>
      ⟨some keys.1, some keys.2, false⟩ := by
  unfold handleReply at h
  rw [creatorTransforms_eq] at h
  obtain rfl := Option.some.inj h
  rw [← map_reverse, map_map]
  rfl

/-- The two kinds of build agree on a payload exactly where the layer of the hop, or the
layers of the creator's path there and back, return it: a hop that is no gateway, and the
creator of an outbound tunnel, with the same keys in both builds. -/
theorem variable_layers_agree_iff (crypto : BuildCrypto) (haes : AesInverse crypto)
    (payload : TunnelPayload) :
    (∀ (request : VariableBuildRequest) (short : ShortBuildRequest) (keys : ShortBuildKeys)
        (now : UInt64) (endpoint : EndpointRef) (variableHop : InboundCircuit) (shortHop : Circuit),
      request.gateway = false → short.gateway = false → request.layerKeys = keys.layerKeys →
      installVariableTransitCircuit request now endpoint = some variableHop →
      installTransitCircuit short keys now endpoint = some shortHop →
      (permute crypto variableHop.transforms payload = permute crypto shortHop.transforms payload ↔
        layerOf crypto true keys.layerKey keys.ivKey
          (layerOf crypto true keys.layerKey keys.ivKey payload.val) = payload.val)) ∧
    ∀ (pending : PendingVariableBuild) (short : PendingBuild) (records : List VariableRecord)
        (now : UInt64) (variableCreator shortCreator : OutboundCircuit),
      pending.keys.map (·.layerKeys) = short.keys.map (·.layerKeys) →
      handleVariableReply crypto pending records now = some variableCreator →
      handleReply short = some shortCreator →
      (permute crypto variableCreator.transforms payload =
          permute crypto shortCreator.transforms payload ↔
        layers crypto true (short.keys.map (·.layerKeys))
          (layers crypto true (short.keys.map (·.layerKeys)).reverse payload.val) =
            payload.val) := by
  constructor
  · intro request short keys now endpoint variableHop shortHop _ _ hkeys hvariable hshort
    rw [installVariableTransitCircuit_transforms hvariable,
      installTransitCircuit_transforms hshort, permute_eq, permute_eq, hkeys, Option.some_inj,
      eq_comm]
    exact layers_agree_iff haes [keys.layerKeys] payload.property
  · intro pending short records now variableCreator shortCreator hkeys hvariable hshort
    rw [handleVariableReply_transforms hvariable, handleReply_transforms hshort, permute_eq,
      permute_eq, hkeys, Option.some_inj]
    have hagree := layers_agree_iff haes (short.keys.map (·.layerKeys)).reverse payload.property
    rw [reverse_reverse] at hagree
    exact hagree

def variableTransitRequest (number : UInt8) : VariableBuildRequest where
  receiveTunnelID := 1
  nextTunnelID := 2
  nextRouter := FixedBytes.zero 32
  layerKey := (transitHop number).keys.layerKey
  ivKey := (transitHop number).keys.ivKey
  replyKey := FixedBytes.zero 32
  replyIV := FixedBytes.zero 16
  gateway := false
  endpoint := false
  requestHours := 0
  requestMinutes := 0
  lifetimeSeconds := 600
  nextMessageID := 1

/-- AES replaced by adding the first half of the key, byte by byte. -/
def sumCrypto : BuildCrypto :=
  { plainCrypto with
    aesEncrypt := fun key block => ⟨List.zipWith (· + ·) block.val (key.val.take 16), by simp [aesBlockSize]⟩
    aesDecrypt := fun key block => ⟨List.zipWith (· - ·) block.val (key.val.take 16), by simp [aesBlockSize]⟩ }

theorem sumCrypto_inverse : AesInverse sumCrypto := by
  have hcancel (f g : UInt8 → UInt8 → UInt8) (hfg : ∀ x k, g (f x k) k = x)
      (block : FixedBytes aesBlockSize) (key : FixedBytes 32) :
      zipWith g (zipWith f block.val (key.val.take 16)) (key.val.take 16) = block.val := by
    apply ext_getElem
    · simp [aesBlockSize]
    · intro index _ _
      rw [getElem_zipWith, getElem_zipWith, hfg]
  constructor
  · intro key block
    apply Subtype.ext
    exact hcancel (· + ·) (· - ·) (fun x k => by simp) _ _
  · intro key block
    apply Subtype.ext
    exact hcancel (· - ·) (· + ·) (fun x k => by simp) _ _

/-- With keys of zeros the layer of that cipher leaves a payload of zeros alone, and the two
kinds of hop agree on it. -/
theorem variable_layers_agree_iff_zero :
    ∃ variableHop shortHop,
      installVariableTransitCircuit
          { variableTransitRequest 0 with ivKey := FixedBytes.zero 32 } 0 0 = some variableHop ∧
        installTransitCircuit (transitHop 0).request
          { (transitHop 0).keys with ivKey := FixedBytes.zero 32 } 0 0 = some shortHop ∧
        permute sumCrypto variableHop.transforms (FixedBytes.zero layerPayloadSize) =
          permute sumCrypto shortHop.transforms (FixedBytes.zero layerPayloadSize) := by
  refine ⟨_, _, rfl, rfl, ?_⟩
  refine ((variable_layers_agree_iff sumCrypto sumCrypto_inverse (zero layerPayloadSize)).1
    { variableTransitRequest 0 with ivKey := zero 32 } (transitHop 0).request
    { (transitHop 0).keys with ivKey := zero 32 } 0 0 _ _ rfl rfl rfl rfl rfl).mpr ?_
  decide +kernel

/-- With the keys of the first hop the two kinds of hop, and the two kinds of creator, make
different bytes of a payload of zeros. -/
theorem variable_layers_reversed :
    AesInverse sumCrypto ∧
    (∃ variableHop shortHop,
      installVariableTransitCircuit (variableTransitRequest 1) 0 0 = some variableHop ∧
        installTransitCircuit (transitHop 1).request (transitHop 1).keys 0 0 = some shortHop ∧
        (permute sumCrypto variableHop.transforms (FixedBytes.zero layerPayloadSize)).map
          (·.head?) = some (some 250) ∧
        (permute sumCrypto shortHop.transforms (FixedBytes.zero layerPayloadSize)).map
          (·.head?) = some (some 6)) ∧
    ∃ variableTransforms shortTransforms,
      variableCreatorTransforms [VariableBuildKeys.ofRequest (variableTransitRequest 1)] =
          some variableTransforms ∧
        creatorTransforms [(transitHop 1).keys] = some shortTransforms ∧
        (permute sumCrypto variableTransforms (FixedBytes.zero layerPayloadSize)).map
          (·.head?) = some (some 6) ∧
        (permute sumCrypto shortTransforms (FixedBytes.zero layerPayloadSize)).map
          (·.head?) = some (some 250) := by
  refine ⟨sumCrypto_inverse, ⟨_, _, rfl, rfl, ?_, ?_⟩, _, _, rfl, rfl, ?_, ?_⟩
  · decide +kernel
  · decide +kernel
  · decide +kernel
  · decide +kernel

end Installed

end Ivnp.Tunnel
