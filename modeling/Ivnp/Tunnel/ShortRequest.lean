import Ivnp.Lib.Decimal
import Ivnp.Tunnel.VariableRequest

/-!
The plaintext of a short build request as the creator writes it: the fixed
fields, the options mapping with the bandwidths in decimal, and random padding.
-/

namespace Ivnp.Tunnel

open Ivnp.Lib Ivnp.Foundation List FixedBytes

def shortBuildMaxOptionsSize : Nat := 98

def optionKeyLimit : Bytes := ['l'.toUInt8]
def optionKeyMinimum : Bytes := ['m'.toUInt8]
def optionKeyRequested : Bytes := ['r'.toUInt8]

def formatUint (value : UInt32) : Bytes := decimalDigits 10 value.toNat

variable {wire : Option Bytes}

section Options

def optionEntry (key : Bytes) (value : UInt32) : List (Bytes × Bytes) :=
  if value = 0 then [] else [(key, formatUint value)]

def optionEntries (options : ShortBuildOptions) : List (Bytes × Bytes) :=
  optionEntry optionKeyLimit options.limit ++ (optionEntry optionKeyMinimum options.minimum ++
    optionEntry optionKeyRequested options.requested)

/-- `marshalShortBuildOptions`; without options there is no mapping (`nil`). -/
def marshalShortBuildOptions (options : ShortBuildOptions) : Option (Option Bytes) :=
  if options = ⟨0, 0, 0⟩ then some none else (marshalMapping (optionEntries options)).map some

def parseBandwidth (value : Bytes) : Option UInt32 :=
  match parseUint 32 value with
  | none => none
  | some parsed => if parsed = 0 then none else some (UInt32.ofNat parsed)

/-- One turn of the loop of `parseShortBuildOptions`; other keys are ignored. -/
def readOption (options : ShortBuildOptions) (entry : Bytes × Bytes) : Option ShortBuildOptions :=
  if entry.1 = optionKeyLimit then
    (parseBandwidth entry.2).map fun value => { options with limit := value }
  else if entry.1 = optionKeyMinimum then
    (parseBandwidth entry.2).map fun value => { options with minimum := value }
  else if entry.1 = optionKeyRequested then
    (parseBandwidth entry.2).map fun value => { options with requested := value }
  else some options

def parseShortBuildOptions (mapping : Mapping) (gateway : Bool) : Option ShortBuildOptions :=
  match mappingEntries mapping.raw.length (mapping.raw.drop 2) with
  | none => none
  | some entries =>
    match entries.foldlM readOption ⟨0, 0, 0⟩ with
    | none => none
    | some options => if validShortBuildOptions options gateway then some options else none

def parseRequestOptions (src : Bytes) (gateway : Bool) : Option ShortBuildOptions :=
  match parseMapping src with
  | none => none
  | some (mapping, used) =>
    if used > shortBuildMaxOptionsSize then none else parseShortBuildOptions mapping gateway

theorem parseBandwidth_formatUint {value : UInt32} (h : value ≠ 0) :
    parseBandwidth (formatUint value) = some value := by
  have hlt := value.toNat_lt
  have hparse : parseUint 32 (formatUint value) = some value.toNat :=
    parseUint_decimalDigits (by omega) hlt
  have hpositive : value.toNat ≠ 0 := fun hzero => h (UInt32.toNat_inj.mp hzero)
  unfold parseBandwidth
  rw [hparse]
  dsimp only
  rw [if_neg hpositive, UInt32.ofNat_toNat]

variable {options : ShortBuildOptions}

/-- An option that is written is read, one that is not stays zero. -/
theorem foldlM_optionEntry (set : ShortBuildOptions → UInt32 → ShortBuildOptions) {key : Bytes}
    (hread : ∀ options value, readOption options (key, value) =
      (parseBandwidth value).map (set options)) (hzero : set options 0 = options) (value : UInt32)
    (rest : List (Bytes × Bytes)) :
    (optionEntry key value ++ rest).foldlM readOption options =
      rest.foldlM readOption (set options value) := by
  unfold optionEntry
  split
  next h => rw [h, hzero, nil_append]
  next h =>
  rw [singleton_append, foldlM_cons, hread, parseBandwidth_formatUint h]
  rfl

theorem foldlM_optionEntries (options : ShortBuildOptions) :
    (optionEntries options).foldlM readOption ⟨0, 0, 0⟩ = some options := by
  unfold optionEntries
  rw [foldlM_optionEntry (fun options value => { options with limit := value }) (fun _ _ => rfl) rfl,
    foldlM_optionEntry (fun options value => { options with minimum := value }) (fun _ _ => rfl) rfl,
    ← append_nil (optionEntry optionKeyRequested options.requested),
    foldlM_optionEntry (fun options value => { options with requested := value }) (fun _ _ => rfl)
      rfl]
  rfl

theorem marshalShortBuildOptions_eq_some (h : marshalShortBuildOptions options = some wire) :
    marshalMapping (optionEntries options) = some (wire.getD [0, 0]) := by
  unfold marshalShortBuildOptions at h
  split at h
  next hzero =>
    cases h
    rw [hzero]
    rfl
  · obtain ⟨raw, hraw, rfl⟩ := Option.map_eq_some_iff.mp h
    exact hraw

end Options

section Request

def shortBuildFlags (request : ShortBuildRequest) : UInt8 :=
  if request.endpoint then shortBuildEndpointFlag
  else if request.gateway then shortBuildGatewayFlag else 0

def shortBuildFields (request : ShortBuildRequest) (rest : Bytes) : Bytes :=
  natBE 4 request.receiveTunnelID.toNat ++ (natBE 4 request.nextTunnelID.toNat ++
    (request.nextRouter.val ++ ([shortBuildFlags request] ++ ([0, 0, 0] ++
      (natBE 4 request.requestMinutes.toNat ++ (natBE 4 request.lifetimeSeconds.toNat ++
        (natBE 4 request.nextMessageID.toNat ++ rest)))))))

def marshalShortBuildRequest (request : ShortBuildRequest) (options : Option Bytes)
    (random : Bytes) : Option (FixedBytes shortBuildRequestPlainSize) :=
  if request.receiveTunnelID = 0 ∨ request.nextTunnelID = 0 ∨ request.nextMessageID = 0 ∨
      request.gateway ∧ request.endpoint ∨ request.lifetimeSeconds ≠ shortBuildLifetime then
    none
  else
    let options := options.getD [0, 0]
    match parseMapping options with
    | none => none
    | some (mapping, used) =>
      if used ≠ options.length ∨ mapping.encodedLen > shortBuildMaxOptionsSize then none
      else
        (readFull (shortBuildRequestPlainSize - (shortBuildOptionsOffset + options.length))
            random).map fun padding =>
          FixedBytes.copy shortBuildRequestPlainSize
            (shortBuildFields request (options ++ padding.val))

theorem length_shortBuildFields (request : ShortBuildRequest) (rest : Bytes) :
    (shortBuildFields request rest).length = shortBuildOptionsOffset + rest.length := by
  simp only [shortBuildFields, length_append, natBE_length, length_val,
    length_cons, length_nil, shortBuildOptionsOffset]
  omega

variable {request : ShortBuildRequest}

theorem shortBuildFlags_spec (h : ¬ (request.gateway = true ∧ request.endpoint = true)) :
    let flags := shortBuildFlags request
    let both := shortBuildGatewayFlag ||| shortBuildEndpointFlag
    flags &&& ~~~both = 0 ∧ flags &&& both ≠ both ∧
      decide (flags &&& shortBuildGatewayFlag ≠ 0) = request.gateway ∧
      decide (flags &&& shortBuildEndpointFlag ≠ 0) = request.endpoint := by
  unfold shortBuildFlags
  cases hgateway : request.gateway <;> cases hendpoint : request.endpoint
  · decide
  · decide
  · decide
  · exact absurd ⟨hgateway, hendpoint⟩ h

theorem parseShortBuildRequest_fields {rest : Bytes}
    (parseOptions : Bytes → Bool → Option ShortBuildOptions)
    (hrest : shortBuildOptionsOffset + rest.length = shortBuildRequestPlainSize)
    (hreceive : request.receiveTunnelID ≠ 0) (hnext : request.nextTunnelID ≠ 0)
    (hmessage : request.nextMessageID ≠ 0) (hlifetime : request.lifetimeSeconds = shortBuildLifetime)
    (hflags : ¬ (request.gateway = true ∧ request.endpoint = true)) :
    parseShortBuildRequest parseOptions (shortBuildFields request rest) =
      (parseOptions rest request.gateway).map fun bandwidth => { request with bandwidth } := by
  obtain ⟨hclear, hnotBoth, hgateway, hendpoint⟩ := shortBuildFlags_spec hflags
  have hlength : (shortBuildFields request rest).length = shortBuildRequestPlainSize := by
    rw [length_shortBuildFields, hrest]
  have hreserved : ([0, 0, 0] : Bytes).length = 3 := rfl
  have hrouter : (shortBuildFields request rest).drop 8 =
      request.nextRouter.val ++ ([shortBuildFlags request] ++ ([0, 0, 0] ++
        (natBE 4 request.requestMinutes.toNat ++ (natBE 4 request.lifetimeSeconds.toNat ++
          (natBE 4 request.nextMessageID.toNat ++ rest))))) := by
    unfold shortBuildFields
    simp only [drop_skip (natBE_length _ _), Nat.reduceSub, Nat.reduceLeDiff, drop_zero]
  unfold parseShortBuildRequest
  rw [dif_pos hlength]
  simp only [slice, hrouter, take_left' request.nextRouter.property]
  simp only [shortBuildFields, shortBuildFlagOffset, shortBuildOptionsOffset,
    drop_skip (natBE_length _ _), drop_skip (length_val _),
    drop_skip length_singleton, drop_skip hreserved, getD_skip (natBE_length _ _),
    getD_skip (length_val _), getD_skip length_singleton,
    uint32At_skip (natBE_length _ _), uint32At_skip (length_val _),
    uint32At_skip length_singleton, uint32At_skip hreserved, Nat.reduceSub, Nat.reduceLeDiff,
    uint32At_append, drop_zero]
  simp only [cons_append, getD_cons_zero, hgateway, hendpoint]
  rw [if_neg, if_neg]
  · simp only [hreceive, hnext, hmessage, hlifetime, ne_eq, not_true_eq_false, or_self,
      not_false_eq_true]
  · rintro (hdirty | hboth | hzero | hzero | hzero)
    · exact hdirty hclear
    · exact hnotBoth hboth
    · exact hzero rfl
    · exact hzero rfl
    · exact hzero rfl

theorem parseShortBuildRequest_marshal
    {random : Bytes} {plaintext : FixedBytes shortBuildRequestPlainSize}
    (hoptions : marshalShortBuildOptions request.bandwidth = some wire)
    (hvalid : validShortBuildOptions request.bandwidth request.gateway = true)
    (h : marshalShortBuildRequest request wire random = some plaintext) :
    parseShortBuildRequest parseRequestOptions plaintext.val = some request := by
  have hmapping := parseMapping_marshalMapping (marshalShortBuildOptions_eq_some hoptions)
  have hparse := (hmapping []).1
  rw [append_nil] at hparse
  unfold marshalShortBuildRequest at h
  dsimp only at h
  rw [hparse] at h
  split at h
  · cases h
  next hfields =>
  dsimp only at h
  split at h
  · cases h
  next hsize =>
  obtain ⟨padding, -, rfl⟩ := Option.map_eq_some_iff.mp h
  simp only [not_or, not_not] at hfields hsize
  obtain ⟨hreceive, hnext, hmessage, hflags, hlifetime⟩ := hfields
  have hlength : (wire.getD [0, 0]).length ≤ shortBuildMaxOptionsSize := Nat.not_lt.mp hsize.2
  have hrest : shortBuildOptionsOffset + (wire.getD [0, 0] ++ padding.val).length =
      shortBuildRequestPlainSize := by
    rw [length_append, length_val]
    unfold shortBuildMaxOptionsSize at hlength
    unfold shortBuildRequestPlainSize shortBuildOptionsOffset
    omega
  have hplain := copy_val_of_le (Nat.le_of_eq
    ((length_shortBuildFields request _).trans hrest).symm)
  rw [take_of_length_le (Nat.le_of_eq ((length_shortBuildFields _ _).trans hrest))]
    at hplain
  rw [hplain, parseShortBuildRequest_fields _ hrest hreceive hnext hmessage hlifetime hflags]
  -- the options of the rest are those that were written
  obtain ⟨hread, hentries⟩ := hmapping padding.val
  unfold parseRequestOptions
  rw [hread]
  dsimp only
  rw [if_neg (Nat.not_lt.mpr hlength)]
  unfold parseShortBuildOptions
  rw [hentries]
  dsimp only
  rw [foldlM_optionEntries]
  dsimp only
  rw [if_pos hvalid]
  rfl

end Request

end Ivnp.Tunnel
