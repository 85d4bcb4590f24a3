import Ivnp.Foundation.Mapping
import Ivnp.Tunnel.ShortBuild

/-!
The request of the 528-byte tunnel build records in its two plaintext forms,
the 222-byte ElGamal one and the 464-byte long ECIES one. Each form parses
back to the fields it carries.
-/

namespace Ivnp.Tunnel

open Ivnp.Lib Ivnp.Foundation FixedBytes

def legacyBuildRequestPlainSize : Nat := 222
def longBuildRequestPlainSize : Nat := 464
def legacyBuildGatewayFlag : UInt8 := 0x80
def legacyBuildEndpointFlag : UInt8 := 0x40
def legacyBuildLifetimeSeconds : UInt32 := 600

/-- The asymmetric format of one record, selected per hop. -/
inductive VariableBuildKind where
  | elGamal
  | longECIES
  deriving DecidableEq, Repr

/-- The parsed view of both forms. -/
structure VariableBuildRequest where
  receiveTunnelID : UInt32
  nextTunnelID : UInt32
  nextRouter : Hash
  layerKey : FixedBytes 32
  ivKey : FixedBytes 32
  replyKey : FixedBytes 32
  replyIV : FixedBytes 16
  gateway : Bool
  endpoint : Bool
  requestHours : UInt32
  requestMinutes : UInt32
  lifetimeSeconds : UInt32
  nextMessageID : UInt32
  deriving DecidableEq

def readFull (n : Nat) (random : Bytes) : Option (FixedBytes n) :=
  if h : random.length < n then none
  else some ⟨random.take n, by rw [List.length_take]; omega⟩

def variableBuildFlags (request : VariableBuildRequest) : UInt8 :=
  (if request.gateway then legacyBuildGatewayFlag else 0) |||
    (if request.endpoint then legacyBuildEndpointFlag else 0)

def setVariableFlags (flags : UInt8) : Option (Bool × Bool) :=
  let both := legacyBuildGatewayFlag ||| legacyBuildEndpointFlag
  if flags &&& ~~~both ≠ 0 ∨ flags &&& both = both then none
  else some (flags &&& legacyBuildGatewayFlag ≠ 0, flags &&& legacyBuildEndpointFlag ≠ 0)

def validVariableRequest (request : VariableBuildRequest) : Bool :=
  request.receiveTunnelID ≠ 0 ∧ request.nextTunnelID ≠ 0 ∧ request.nextMessageID ≠ 0 ∧
    request.nextRouter ≠ FixedBytes.zero 32 ∧ request.receiveTunnelID ≠ request.nextTunnelID

/-- `MarshalElGamalBuildRequest`; the last 29 bytes are random. -/
def marshalElGamalBuildRequest (request : VariableBuildRequest) (localHash : Hash)
    (random : Bytes) : Option (FixedBytes legacyBuildRequestPlainSize) :=
  if !validVariableRequest request ∨ request.gateway ∧ request.endpoint then none
  else
    (readFull 29 random).map fun padding =>
      ⟨natBE 4 request.receiveTunnelID.toNat ++ (localHash.val ++
        (natBE 4 request.nextTunnelID.toNat ++ (request.nextRouter.val ++
          (request.layerKey.val ++ (request.ivKey.val ++ (request.replyKey.val ++
            (request.replyIV.val ++ ([variableBuildFlags request] ++
              (natBE 4 request.requestHours.toNat ++ (natBE 4 request.nextMessageID.toNat ++
                padding.val)))))))))), by
        simp only [List.length_append, natBE_length, FixedBytes.length_val, List.length_singleton]
        rfl⟩

/-- `MarshalLongECIESBuildRequest`: an empty options mapping and zero padding
follow the fixed fields. -/
def marshalLongECIESBuildRequest (request : VariableBuildRequest) :
    Option (FixedBytes longBuildRequestPlainSize) :=
  if !validVariableRequest request ∨ request.gateway ∧ request.endpoint ∨
      request.lifetimeSeconds ≠ legacyBuildLifetimeSeconds then
    none
  else
    some
      ⟨natBE 4 request.receiveTunnelID.toNat ++ (natBE 4 request.nextTunnelID.toNat ++
        (request.nextRouter.val ++ (request.layerKey.val ++ (request.ivKey.val ++
          (request.replyKey.val ++ (request.replyIV.val ++ ([variableBuildFlags request] ++
            ([0, 0, 0] ++ (natBE 4 request.requestMinutes.toNat ++
              (natBE 4 request.lifetimeSeconds.toNat ++ (natBE 4 request.nextMessageID.toNat ++
                List.replicate 296 0))))))))))), by
        simp only [List.length_append, natBE_length, FixedBytes.length_val, List.length_singleton,
          List.length_replicate]
        rfl⟩

def parseElGamalBuildRequest (plaintext : Bytes) : Option VariableBuildRequest :=
  if plaintext.length ≠ legacyBuildRequestPlainSize then none
  else
    match setVariableFlags (plaintext.getD 184 0) with
    | none => none
    | some (gateway, endpoint) =>
      let request : VariableBuildRequest :=
        { receiveTunnelID := uint32At plaintext 0
          nextTunnelID := uint32At plaintext 36
          nextRouter := arrayAt 32 plaintext 40
          layerKey := arrayAt 32 plaintext 72
          ivKey := arrayAt 32 plaintext 104
          replyKey := arrayAt 32 plaintext 136
          replyIV := arrayAt 16 plaintext 168
          gateway, endpoint
          requestHours := uint32At plaintext 185
          requestMinutes := 0
          lifetimeSeconds := 0
          nextMessageID := uint32At plaintext 189 }
      if validVariableRequest request then some request else none

def parseLongECIESBuildRequest (plaintext : Bytes) : Option VariableBuildRequest :=
  if plaintext.length ≠ longBuildRequestPlainSize then none
  else
    match setVariableFlags (plaintext.getD 152 0) with
    | none => none
    | some (gateway, endpoint) =>
      let request : VariableBuildRequest :=
        { receiveTunnelID := uint32At plaintext 0
          nextTunnelID := uint32At plaintext 4
          nextRouter := arrayAt 32 plaintext 8
          layerKey := arrayAt 32 plaintext 40
          ivKey := arrayAt 32 plaintext 72
          replyKey := arrayAt 32 plaintext 104
          replyIV := arrayAt 16 plaintext 136
          gateway, endpoint
          requestHours := 0
          requestMinutes := uint32At plaintext 156
          lifetimeSeconds := uint32At plaintext 160
          nextMessageID := uint32At plaintext 164 }
      if plaintext.getD 153 0 ≠ 0 ∨ plaintext.getD 154 0 ≠ 0 ∨ plaintext.getD 155 0 ≠ 0 ∨
          !validVariableRequest request ∨
          request.lifetimeSeconds ≠ legacyBuildLifetimeSeconds then
        none
      else
        match parseMapping (plaintext.drop 168) with
        | none => none
        | some (mapping, used) =>
          if used > 296 ∨ mapping.encodedLen > 296 then none else some request

def VariableBuildRequest.carried (request : VariableBuildRequest) :
    VariableBuildKind → VariableBuildRequest
  | .elGamal => { request with requestMinutes := 0, lifetimeSeconds := 0 }
  | .longECIES => { request with requestHours := 0 }

variable {request : VariableBuildRequest}

theorem setVariableFlags_variableBuildFlags
    (h : ¬ (request.gateway = true ∧ request.endpoint = true)) :
    setVariableFlags (variableBuildFlags request) = some (request.gateway, request.endpoint) := by
  rw [variableBuildFlags]
  cases hgateway : request.gateway <;> cases hendpoint : request.endpoint
  · rfl
  · rfl
  · rfl
  · exact absurd ⟨hgateway, hendpoint⟩ h

@[simp] theorem validVariableRequest_carried (request : VariableBuildRequest)
    (kind : VariableBuildKind) :
    validVariableRequest (request.carried kind) = validVariableRequest request := by
  cases kind <;> rfl

theorem parseElGamal_marshalElGamal {localHash : Hash}
    {random : Bytes} {plaintext : FixedBytes legacyBuildRequestPlainSize}
    (h : marshalElGamalBuildRequest request localHash random = some plaintext) :
    parseElGamalBuildRequest plaintext.val = some (request.carried .elGamal) := by
  rw [marshalElGamalBuildRequest] at h
  split at h
  · simp at h
  next hvalid =>
  rw [not_or] at hvalid
  have hsound : validVariableRequest (request.carried .elGamal) = true := by simpa using hvalid.1
  obtain ⟨padding, -, rfl⟩ := Option.map_eq_some_iff.mp h
  rw [parseElGamalBuildRequest, if_neg (not_not.mpr (length_val _))]
  -- every field is read past the fields before it, whose lengths are fixed
  simp only [getD_skip (natBE_length _ _), getD_skip (length_val _),
    uint32At_skip (natBE_length _ _), uint32At_skip (length_val _),
    uint32At_skip List.length_singleton, arrayAt_skip (natBE_length _ _),
    arrayAt_skip (length_val _), Nat.reduceSub, Nat.reduceLeDiff, uint32At_append,
    arrayAt_append]
  simp only [List.singleton_append, List.getD_cons_zero, setVariableFlags_variableBuildFlags hvalid.2]
  exact if_pos hsound

theorem parseLongECIES_marshalLongECIES {plaintext : FixedBytes longBuildRequestPlainSize}
    (h : marshalLongECIESBuildRequest request = some plaintext) :
    parseLongECIESBuildRequest plaintext.val = some (request.carried .longECIES) := by
  rw [marshalLongECIESBuildRequest] at h
  split at h
  · simp at h
  next hvalid =>
  rw [not_or, not_or, not_not] at hvalid
  obtain ⟨hvalid, hflags, hlifetime⟩ := hvalid
  have hsound : validVariableRequest (request.carried .longECIES) = true := by simpa using hvalid
  obtain rfl := Option.some.inj h
  have hreserved : ([0, 0, 0] : Bytes).length = 3 := rfl
  rw [parseLongECIESBuildRequest, if_neg (not_not.mpr (length_val _))]
  simp only [drop_skip (natBE_length _ _), drop_skip (length_val _),
    drop_skip List.length_singleton, drop_skip hreserved, getD_skip (natBE_length _ _),
    getD_skip (length_val _), getD_skip List.length_singleton,
    uint32At_skip (natBE_length _ _), uint32At_skip (length_val _),
    uint32At_skip List.length_singleton, uint32At_skip hreserved, arrayAt_skip (natBE_length _ _),
    arrayAt_skip (length_val _), Nat.reduceSub, Nat.reduceLeDiff, uint32At_append,
    arrayAt_append, List.drop_zero, parseMapping_zeros]
  simp only [List.cons_append, List.getD_cons_zero, setVariableFlags_variableBuildFlags hflags]
  refine (if_neg ?_).trans (if_neg (by decide))
  rintro (hzero | hzero | hzero | hinvalid | hother)
  · exact hzero rfl
  · exact hzero rfl
  · exact hzero rfl
  · rw [Bool.not_eq_true'] at hinvalid
    exact absurd (hsound.symm.trans hinvalid) (by decide)
  · exact hother hlifetime

end Ivnp.Tunnel
