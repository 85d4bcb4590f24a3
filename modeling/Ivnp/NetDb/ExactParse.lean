import Ivnp.NetDb.RouterInfo

/-!
The signed structures of the network database are parsed exactly. The fields that a parser
returns, written one after the other, are the signed bytes, these and the signature are the
whole input, and the iterators over a part of it yield as many items as are announced.
-/

namespace Ivnp.NetDb

open Ivnp.Lib Ivnp.Foundation List Cursor

variable {α : Type}

section Parts

variable {src rest : Bytes}

variable {mapping : Mapping}

theorem parseMapping_eq_some {used : Nat} :
    parseMapping src = some (mapping, used) ↔
      ∃ rest, src = mapping.raw ++ rest ∧ used = mapping.raw.length ∧
        mapping.raw.length = 2 + beNat (mapping.raw.take 2) ∧
        ∃ entries, mappingEntries mapping.raw.length (mapping.raw.drop 2) = some entries := by
  unfold parseMapping
  constructor
  · intro h
    split at h
    · cases h
    next hshort =>
    dsimp only at h
    split at h
    · cases h
    next hsize =>
    obtain ⟨entries, hentries, hsame⟩ := Option.map_eq_some_iff.mp h
    cases hsame
    have hlength : (src.take (2 + beNat (src.take 2))).length = 2 + beNat (src.take 2) :=
      length_take_of_le (by omega)
    refine ⟨src.drop (2 + beNat (src.take 2)), (take_append_drop _ _).symm, rfl, ?_,
      entries, hentries⟩
    rw [hlength, take_take, min_eq_left (Nat.le_add_right _ _)]
  · rintro ⟨rest, rfl, rfl, hlength, entries, hentries⟩
    have htake : (mapping.raw ++ rest).take 2 = mapping.raw.take 2 :=
      take_append_of_le_length (by omega)
    rw [if_neg (by rw [length_append]; omega)]
    dsimp only
    rw [htake, if_neg (by rw [length_append]; omega), ← hlength, take_left, hentries]
    rfl

theorem takes_readMapping {entries : List (Bytes × Bytes)}
    (hlength : mapping.raw.length = 2 + beNat (mapping.raw.take 2))
    (hentries : mappingEntries mapping.raw.length (mapping.raw.drop 2) = some entries)
    (hsorted : strictlySorted (entries.map Prod.fst) = true) :
    readMapping.Takes mapping.raw mapping := by
  intro rest
  have hparse := parseMapping_eq_some.mpr ⟨rest, rfl, rfl, hlength, entries, hentries⟩
  have htake : (mapping.raw ++ rest).take 2 = mapping.raw.take 2 :=
    take_append_of_le_length (by omega)
  change readMapping (mapping.raw ++ rest) = _
  unfold readMapping
  rw [htake, if_neg (by rw [length_append]; omega), hparse]
  dsimp only
  rw [hentries, Option.getD_some, hsorted, if_neg (by decide), drop_left]

theorem readMapping_takes (h : readMapping.run src = .ok (mapping, rest)) :
    src = mapping.raw ++ rest ∧ readMapping.Takes mapping.raw mapping := by
  change readMapping src = _ at h
  unfold readMapping at h
  split at h
  · cases h
  split at h
  · cases h
  next found used hparse =>
  dsimp only at h
  split at h
  · cases h
  next hsorted =>
  cases h
  obtain ⟨left, rfl, rfl, hlength, entries, hentries⟩ := parseMapping_eq_some.mp hparse
  rw [hentries, Bool.not_eq_true, Bool.not_eq_false'] at hsorted
  exact ⟨by rw [drop_left], takes_readMapping hlength hentries hsorted⟩

theorem readMapping_selfDelimiting : readMapping.SelfDelimiting := by
  intro src mapping rest h
  obtain ⟨hsrc, htakes⟩ := readMapping_takes h
  exact ⟨mapping.raw, hsrc, htakes⟩

theorem nextKey_selfDelimiting : nextKey.SelfDelimiting := by
  intro src key rest h
  change nextKey src = _ at h
  unfold nextKey at h
  split at h
  · cases h
  next hshort =>
  dsimp only at h
  split at h
  · cases h
  next hkind =>
  split at h
  · cases h
  next hlength =>
  split at h
  · cases h
  next hknown =>
  cases h
  refine ⟨src.take (4 + (uint16At src 2).toNat), (take_append_drop _ _).symm, fun other => ?_⟩
  obtain ⟨taken, left, rfl, htaken⟩ : ∃ taken left, src = taken ++ left ∧
      taken.length = 4 + (uint16At src 2).toNat :=
    ⟨_, _, (take_append_drop (4 + (uint16At src 2).toNat) _).symm, length_take_of_le (by omega)⟩
  have hword (more : Bytes) (offset : Nat) (hoffset : offset + 2 ≤ 4) :
      uint16At (taken ++ more) offset = uint16At taken offset :=
    uint16At_append_of_le (by omega) _
  have hdata : ∀ more : Bytes, ((taken ++ more).drop 4).take (uint16At taken 2).toNat =
      (taken.drop 4).take (uint16At taken 2).toNat := by
    intro more
    rw [hword _ 2 (by omega)] at htaken
    exact slice_append (by omega) _
  rw [hword _ 0 (by omega)] at hkind hknown
  rw [hword _ 2 (by omega)] at htaken hlength hknown
  rw [hword _ 2 (by omega), ← htaken, take_left]
  change nextKey (taken ++ other) = _
  unfold nextKey
  rw [hword _ 0 (by omega), hword _ 2 (by omega), hword _ 0 (by omega),
    if_neg (by rw [length_append]; omega), if_neg hkind,
    if_neg (by rw [length_append]; omega), if_neg hknown, hdata, hdata, ← htaken,
    drop_left]

theorem readRouterAddress_selfDelimiting : readRouterAddress.SelfDelimiting := by
  have hfields : readAddressFields.SelfDelimiting := by
    refine selfDelimiting_readU8.bind fun _ => selfDelimiting_readU64.bind fun _ =>
      selfDelimiting_readU8.bind fun _ => ?_
    split
    · exact selfDelimiting_fail _
    · exact (selfDelimiting_readBytes _).bind fun _ =>
        readMapping_selfDelimiting.bind fun _ => selfDelimiting_pure _
  exact hfields.withBytes.bind fun _ => selfDelimiting_pure _

variable {bytes : Bytes} {size : Nat}

theorem slice_take {offset width : Nat} (h : offset + width ≤ size) :
    ((bytes.take size).drop offset).take width = (bytes.drop offset).take width := by
  rw [drop_take, take_take, min_eq_left (by omega)]

theorem uint32At_take {offset : Nat} (h : offset + 4 ≤ size) :
    uint32At (bytes.take size) offset = uint32At bytes offset := by
  rw [uint32At, uint32At, slice_take h]

theorem arrayAt_take {width : Nat} (h : width ≤ size) (hsize : size ≤ bytes.length) :
    arrayAt width (bytes.take size) 0 = arrayAt width bytes 0 := by
  apply Subtype.ext
  rw [arrayAt, arrayAt, drop_zero, drop_zero,
    FixedBytes.copy_val_of_le (by rw [length_take]; omega),
    FixedBytes.copy_val_of_le (by omega), take_take, min_eq_left h]

theorem getD_take {index : Nat} (h : index < size) :
    (bytes.take size).getD index 0 = bytes.getD index 0 := by
  rw [getD_eq_getElem?_getD, getD_eq_getElem?_getD, getElem?_take_of_lt h]

theorem parseLease_take (rest : Bytes) (h : 44 ≤ rest.length) :
    parseLease (rest.take 44) = parseLease rest := by
  unfold parseLease
  have hshort : ¬(rest.take 44).length < 44 := by
    rw [length_take]
    omega
  rw [if_neg hshort, if_neg (not_lt.mpr h), uint32At_take (by omega),
    arrayAt_take (by omega) h, slice_take (by omega)]

theorem parseLease2_take (rest : Bytes) (h : 40 ≤ rest.length) :
    parseLease2 (rest.take 40) = parseLease2 rest := by
  unfold parseLease2
  have hshort : ¬(rest.take 40).length < 40 := by
    rw [length_take]
    omega
  rw [if_neg hshort, if_neg (not_lt.mpr h), uint32At_take (by omega),
    uint32At_take (by omega), arrayAt_take (by omega) h]

theorem parseMetaLease_take (rest : Bytes) (h : 40 ≤ rest.length) :
    parseMetaLease (rest.take 40) = parseMetaLease rest := by
  unfold parseMetaLease
  have hshort : ¬(rest.take 40).length < 40 := by
    rw [length_take]
    omega
  simp only [if_neg hshort, if_neg (not_lt.mpr h), getD_take (show 32 < 40 by decide),
    getD_take (show 33 < 40 by decide), getD_take (show 34 < 40 by decide),
    getD_take (show 35 < 40 by decide), uint32At_take (show 36 + 4 ≤ 40 by decide),
    arrayAt_take (show 32 ≤ 40 by decide) h]

variable {parse : Bytes → Except WireError α} {values : List α} {block : Bytes} {count : Nat}

theorem drain_length {limit : Nat} (hsize : 0 < size) (hblock : block.length = count * size)
    (h : Cursor.drain size parse limit block = .ok values) : values.length = count := by
  induction limit generalizing block count values with
  | zero =>
    cases block with
    | nil =>
      cases h
      exact ((Nat.mul_eq_zero.mp hblock.symm).resolve_right hsize.ne').symm
    | cons byte left => cases h
  | succ limit ih =>
    cases block with
    | nil =>
      cases h
      exact ((Nat.mul_eq_zero.mp hblock.symm).resolve_right hsize.ne').symm
    | cons byte left =>
      rw [drain] at h
      cases hvalue : parse (byte :: left) with
      | error error =>
        rw [hvalue] at h
        cases h
      | ok value =>
        cases hrest : drain size parse limit ((byte :: left).drop size) with
        | error error =>
          rw [hvalue, hrest] at h
          cases h
        | ok others =>
          rw [hvalue, hrest] at h
          cases h
          obtain ⟨less, rfl⟩ : ∃ less, count = less + 1 := by
            cases count with
            | zero => rw [Nat.zero_mul] at hblock; cases hblock
            | succ less => exact ⟨less, rfl⟩
          rw [length_cons, ih _ hrest]
          rw [length_drop, hblock, Nat.succ_mul, Nat.add_sub_cancel]

/-- Records with the bytes they take: the iterator over these yields as many. -/
theorem readRecords_withBytes (hsize : 0 < size)
    (hlocal : ∀ rest : Bytes, size ≤ rest.length → parse (rest.take size) = parse rest)
    (h : (Cursor.readRecords count size parse).withBytes.run src = .ok ((values, block), rest)) :
    src = block ++ rest ∧ block.length = count * size ∧
      Cursor.drain size parse count block = .ok values ∧ values.length = count := by
  obtain ⟨hvalues, hblock⟩ := withBytes_eq_ok.mp h
  obtain ⟨taken, rfl, hlength, hdrain⟩ := (readRecords_eq_ok hsize hlocal).mp hvalues
  rw [length_append, Nat.add_sub_cancel, take_left] at hblock
  subst hblock
  exact ⟨rfl, hlength, hdrain, drain_length hsize hlength hdrain⟩

theorem code_ofCode {code : UInt16} {kind : SigningKeyType}
    (h : SigningKeyType.ofCode code = some kind) : kind.code = code := by
  unfold SigningKeyType.ofCode at h
  split at h <;> cases h <;> rfl

theorem finishParse_eq_ok {result : Except WireError (α × Bytes)} {set : α} :
    finishParse result = .ok set ↔ result = .ok (set, []) := by
  unfold finishParse
  cases result with
  | error error => exact iff_of_false (by rintro ⟨⟩) (by rintro ⟨⟩)
  | ok found =>
    obtain ⟨value, left⟩ := found
    dsimp only
    split
    next hleft =>
      refine iff_of_false (by rintro ⟨⟩) ?_
      rintro ⟨⟩
      exact hleft rfl
    next hdone =>
      rw [not_ne_iff.mp hdone, Except.ok.injEq, Except.ok.injEq, Prod.mk.injEq]
      exact (and_iff_left rfl).symm

end Parts

section Header

variable {src rest : Bytes}

def offlineBytes : Option OfflineSignature → Bytes
  | none => []
  | some offline => offline.signed ++ offline.signature

/-- The offline section is there if the flags say so, it signs its expiry, type and transient
key, and its parts have the lengths of their types. -/
structure OfflineExact (signingType : SigningKeyType) (flags : UInt16)
    (offline : Option OfflineSignature) : Prop where
  announced : offline.isSome = true ↔ flags &&& leaseSetOfflineFlag ≠ 0
  signed : ∀ part ∈ offline,
    part.signed = natBE 4 part.expires.toNat ++ (natBE 2 part.kind.code.toNat ++ part.publicKey)
  publicKey : ∀ part ∈ offline, part.publicKey.length = part.kind.publicKeyLen
  signature : ∀ part ∈ offline, part.signature.length = signingType.signatureLen

variable {signingType : SigningKeyType}

theorem readOffline_exact {offline : OfflineSignature}
    (h : (readOffline signingType).run src = .ok (offline, rest)) :
    src = offline.signed ++ offline.signature ++ rest ∧
      offline.signed = natBE 4 offline.expires.toNat ++
        (natBE 2 offline.kind.code.toNat ++ offline.publicKey) ∧
      offline.publicKey.length = offline.kind.publicKeyLen ∧
      offline.signature.length = signingType.signatureLen := by
  obtain ⟨expires, _, rfl, h₁⟩ := of_readU32 (of_get h)
  obtain ⟨typeID, _, rfl, h₂⟩ := of_readU16 h₁
  cases hkind : SigningKeyType.ofCode typeID with
  | none =>
    rw [hkind] at h₂
    cases h₂
  | some kind =>
    rw [hkind] at h₂
    obtain ⟨publicKey, _, rfl, hpublicLen, h₃⟩ := of_readBytes h₂
    obtain ⟨signature, _, rfl, hsignatureLen, h₄⟩ := of_readBytes h₃
    obtain ⟨rfl, rfl⟩ := pure_eq_ok.mp h₄
    obtain rfl := code_ofCode hkind
    have hsigned : (natBE 4 expires.toNat ++ (natBE 2 kind.code.toNat ++
        (publicKey ++ (signature ++ rest)))).take (6 + kind.publicKeyLen) =
        natBE 4 expires.toNat ++ (natBE 2 kind.code.toNat ++ publicKey) := by
      rw [← append_assoc (natBE 2 _), ← append_assoc (natBE 4 _)]
      apply take_left'
      simp only [length_append, natBE_length, hpublicLen]
      omega
    refine ⟨?_, hsigned, hpublicLen, hsignatureLen⟩
    rw [hsigned]
    simp only [append_assoc]

theorem readOptionalOffline_exact {flags : UInt16} {offline : Option OfflineSignature}
    (h : (readOptionalOffline signingType flags).run src = .ok (offline, rest)) :
    src = offlineBytes offline ++ rest ∧ OfflineExact signingType flags offline := by
  unfold readOptionalOffline at h
  split at h
  next hnone =>
    obtain ⟨rfl, rfl⟩ := pure_eq_ok.mp h
    exact ⟨rfl, ⟨iff_of_false Bool.false_ne_true (not_ne_iff.mpr hnone), nofun, nofun, nofun⟩⟩
  next hsome =>
  obtain ⟨part, _, hpart, h₁⟩ := Cursor.bind_eq_ok.mp h
  obtain ⟨rfl, rfl⟩ := pure_eq_ok.mp h₁
  obtain ⟨hsrc, hsigned, hpublic, hsignature⟩ := readOffline_exact hpart
  refine ⟨hsrc, ⟨iff_of_true rfl hsome, ?_, ?_, ?_⟩⟩
  · rintro _ ⟨⟩
    exact hsigned
  · rintro _ ⟨⟩
    exact hpublic
  · rintro _ ⟨⟩
    exact hsignature

def LeaseSet2Header.bytes (header : LeaseSet2Header) : Bytes :=
  header.destination.raw ++ (natBE 4 header.published.toNat ++ (natBE 2 header.expires.toNat ++
    (natBE 2 header.flags.toNat ++ offlineBytes header.offline)))

theorem readHeaderFields_eq (destination : Identity) :
    readHeaderFields destination = (do
      let published ← Cursor.readU32
      let expires ← Cursor.readU16
      let flags ← Cursor.readU16
      let offline ← readOptionalOffline destination.signingType flags
      return ⟨destination, published, expires, flags, offline⟩) := by
  unfold readHeaderFields readOptionalOffline
  congr 1
  funext published
  congr 1
  funext expires
  congr 1
  funext flags
  split
  · rfl
  · rw [bind_assoc]
    rfl

theorem parseLeaseSet2Header_exact {header : LeaseSet2Header}
    (h : parseLeaseSet2Header src = .ok (header, rest)) :
    src = header.bytes ++ rest ∧
      OfflineExact header.destination.signingType header.flags header.offline := by
  unfold parseLeaseSet2Header at h
  split at h
  · cases h
  next destination used hidentity =>
  obtain ⟨hsrc, -, -⟩ := parseIdentity_exact hidentity
  rw [readHeaderFields_eq] at h
  obtain ⟨published, _, hrest, h₁⟩ := of_readU32 h
  obtain ⟨expires, _, rfl, h₂⟩ := of_readU16 h₁
  obtain ⟨flags, _, rfl, h₃⟩ := of_readU16 h₂
  obtain ⟨offline, _, hoffline, h₄⟩ := Cursor.bind_eq_ok.mp h₃
  obtain ⟨rfl, rfl⟩ := pure_eq_ok.mp h₄
  obtain ⟨rfl, hexact⟩ := readOptionalOffline_exact hoffline
  refine ⟨?_, hexact⟩
  rw [hsrc, hrest]
  simp only [LeaseSet2Header.bytes, append_assoc]

end Header

section Formats

variable {src : Bytes}

/-- All formats end with a signature of what was read before it. -/
theorem of_signature {make : Bytes → Bytes → α} {n : Nat} {result : α}
    (h : (do
      let unread ← get
      let signature ← Cursor.readBytes n
      return make unread signature : Cursor α).run src = .ok (result, [])) :
    src.length = n ∧ result = make src src := by
  obtain ⟨signature, _, hsrc, hlength, h₁⟩ := of_readBytes (of_get h)
  obtain ⟨rfl, rfl⟩ := pure_eq_ok.mp h₁
  rw [append_nil] at hsrc
  subst hsrc
  exact ⟨hlength, rfl⟩

theorem take_unsigned {fields signature : Bytes} (h : src = fields ++ signature) :
    src.take (src.length - signature.length) = fields ∧
      src.take (src.length - signature.length) ++ signature = src := by
  rw [h, length_append, Nat.add_sub_cancel, take_left]
  exact ⟨rfl, rfl⟩

structure RouterInfo.Exact (src : Bytes) (info : RouterInfo) : Prop where
  whole : info.unsigned ++ info.signature = src
  tiled : info.unsigned = info.identity.raw ++ (natBE 8 info.published.toNat ++
    (info.addressCount :: (info.addressBytes ++ (info.peerCount ::
      (info.peerHashes ++ info.options.raw)))))
  peers : info.peerHashes.length = info.peerCount.toNat * 32
  signatureLen : info.signature.length = info.identity.signingType.signatureLen
  iterator : (readAddresses info.addressCount.toNat).run info.addressBytes =
    .ok (info.addresses, [])
  announced : info.addresses.length = info.addressCount.toNat

theorem parseRouterInfo_exact {info : RouterInfo} (h : parseRouterInfo src = .ok info) :
    info.Exact src := by
  unfold parseRouterInfo at h
  split at h
  · cases h
  split at h
  · cases h
  next identity used hidentity =>
  obtain ⟨hsrc, -, -⟩ := parseIdentity_exact hidentity
  replace h := finishParse_eq_ok.mp h
  obtain ⟨published, _, hpublished, h₁⟩ := Cursor.bind_eq_ok.mp h
  obtain ⟨addressCount, _, rfl, h₂⟩ := of_readU8 h₁
  obtain ⟨⟨addresses, addressBytes⟩, _, haddresses, h₃⟩ := Cursor.bind_eq_ok.mp h₂
  obtain ⟨peerCount, _, rfl, h₄⟩ := of_readU8 h₃
  obtain ⟨peerHashes, _, rfl, hpeersLen, h₅⟩ := of_readBytes h₄
  obtain ⟨options, signature, hoptions, h₆⟩ := Cursor.bind_eq_ok.mp h₅
  obtain ⟨hsignatureLen, rfl⟩ := of_signature h₆
  obtain ⟨rfl, -⟩ := readMapping_takes hoptions
  obtain ⟨rfl, htakes⟩ :=
    (readRouterAddress_selfDelimiting.readMany addressCount.toNat).withBytes_eq_ok haddresses
  rw [readU64_eq_ok.mp hpublished] at hsrc
  have hiterator := htakes []
  rw [append_nil] at hiterator
  refine ⟨(take_unsigned ?fields).2, (take_unsigned ?fields).1, hpeersLen, hsignatureLen, hiterator,
    readMany_length hiterator⟩
  rw [hsrc]
  simp only [append_assoc, cons_append]

structure LeaseSet.Exact (src : Bytes) (set : LeaseSet) : Prop where
  whole : set.unsigned ++ set.signature = src
  tiled : set.unsigned = set.destination.raw ++ (set.encryptionKey ++ (set.signingKey ++
    (set.leaseCount :: set.leaseBytes)))
  keys : set.encryptionKey.length = 256 ∧
    set.signingKey.length = set.destination.signingType.publicKeyLen
  signatureLen : set.signature.length = set.destination.signingType.signatureLen
  iterator : Cursor.drain 44 parseLease set.leaseCount.toNat set.leaseBytes = .ok set.leases
  announced : set.leases.length = set.leaseCount.toNat

theorem parseLeaseSet_exact {set : LeaseSet} (h : parseLeaseSet src = .ok set) : set.Exact src := by
  unfold parseLeaseSet at h
  split at h
  · cases h
  split at h
  · cases h
  next destination used hidentity =>
  obtain ⟨hsrc, -, -⟩ := parseIdentity_exact hidentity
  replace h := finishParse_eq_ok.mp h
  obtain ⟨encryptionKey, _, hrest, hencryptionLen, h₁⟩ := of_readBytes h
  obtain ⟨signingKey, _, rfl, hsigningLen, h₂⟩ := of_readBytes h₁
  obtain ⟨leaseCount, _, rfl, h₃⟩ := of_readU8 h₂
  split at h₃
  · cases h₃
  obtain ⟨⟨leases, leaseBytes⟩, signature, hleases, h₄⟩ := Cursor.bind_eq_ok.mp h₃
  obtain ⟨hsignatureLen, rfl⟩ := of_signature h₄
  obtain ⟨rfl, -, hiterator, hannounced⟩ :=
    readRecords_withBytes (by decide) parseLease_take hleases
  refine ⟨(take_unsigned ?fields).2, (take_unsigned ?fields).1, ⟨hencryptionLen, hsigningLen⟩,
    hsignatureLen, hiterator, hannounced⟩
  rw [hsrc, hrest]
  simp only [append_assoc, cons_append]

structure LeaseSet2.Exact (src : Bytes) (set : LeaseSet2) : Prop where
  whole : set.unsigned ++ set.signature = src
  tiled : set.unsigned = set.header.bytes ++ (set.options.raw ++ (set.keyCount ::
    (set.keyBytes ++ (set.leaseCount :: set.leaseBytes))))
  offline : OfflineExact set.header.destination.signingType set.header.flags set.header.offline
  signatureLen : set.signature.length = set.header.signingType.signatureLen
  keyIterator : (readKeys set.keyCount.toNat).run set.keyBytes = .ok (set.keys, [])
  keysAnnounced : set.keys.length = set.keyCount.toNat
  leaseIterator : Cursor.drain 40 parseLease2 set.leaseCount.toNat set.leaseBytes = .ok set.leases
  leasesAnnounced : set.leases.length = set.leaseCount.toNat

theorem parseLeaseSet2_exact {set : LeaseSet2} (h : parseLeaseSet2 src = .ok set) :
    set.Exact src := by
  unfold parseLeaseSet2 at h
  split at h
  · cases h
  split at h
  · cases h
  next header rest hheader =>
  obtain ⟨hsrc, hoffline⟩ := parseLeaseSet2Header_exact hheader
  replace h := finishParse_eq_ok.mp h
  obtain ⟨options, _, hoptions, h₁⟩ := Cursor.bind_eq_ok.mp h
  obtain ⟨keyCount, _, rfl, h₂⟩ := of_readU8 h₁
  split at h₂
  · cases h₂
  obtain ⟨⟨keys, keyBytes⟩, _, hkeys, h₃⟩ := Cursor.bind_eq_ok.mp h₂
  obtain ⟨leaseCount, _, rfl, h₄⟩ := of_readU8 h₃
  split at h₄
  · cases h₄
  obtain ⟨⟨leases, leaseBytes⟩, signature, hleases, h₅⟩ := Cursor.bind_eq_ok.mp h₄
  obtain ⟨hsignatureLen, rfl⟩ := of_signature h₅
  obtain ⟨rfl, -, hleaseIterator, hleasesAnnounced⟩ :=
    readRecords_withBytes (by decide) parseLease2_take hleases
  obtain ⟨rfl, htakes⟩ := (nextKey_selfDelimiting.readMany keyCount.toNat).withBytes_eq_ok hkeys
  obtain ⟨rfl, -⟩ := readMapping_takes hoptions
  have hkeyIterator := htakes []
  rw [append_nil] at hkeyIterator
  refine ⟨(take_unsigned ?fields).2, (take_unsigned ?fields).1, hoffline, hsignatureLen, hkeyIterator,
    readMany_length hkeyIterator, hleaseIterator, hleasesAnnounced⟩
  rw [hsrc]
  simp only [append_assoc, cons_append]

structure MetaLeaseSet.Exact (src : Bytes) (set : MetaLeaseSet) : Prop where
  whole : set.unsigned ++ set.signature = src
  tiled : ∃ revocationCount : UInt8, set.revocations.length = revocationCount.toNat * 32 ∧
    set.unsigned = set.header.bytes ++ (set.options.raw ++ (set.leaseCount ::
      (set.leaseBytes ++ (revocationCount :: set.revocations))))
  offline : OfflineExact set.header.destination.signingType set.header.flags set.header.offline
  signatureLen : set.signature.length = set.header.signingType.signatureLen
  iterator : Cursor.drain 40 parseMetaLease set.leaseCount.toNat set.leaseBytes = .ok set.leases
  announced : set.leases.length = set.leaseCount.toNat

theorem parseMetaLeaseSet_exact {set : MetaLeaseSet} (h : parseMetaLeaseSet src = .ok set) :
    set.Exact src := by
  unfold parseMetaLeaseSet at h
  split at h
  · cases h
  split at h
  · cases h
  next header rest hheader =>
  obtain ⟨hsrc, hoffline⟩ := parseLeaseSet2Header_exact hheader
  replace h := finishParse_eq_ok.mp h
  obtain ⟨options, _, hoptions, h₁⟩ := Cursor.bind_eq_ok.mp h
  obtain ⟨count, _, rfl, h₂⟩ := of_readU8 h₁
  split at h₂
  · cases h₂
  obtain ⟨⟨leases, leaseBytes⟩, _, hleases, h₃⟩ := Cursor.bind_eq_ok.mp h₂
  obtain ⟨revocationCount, _, rfl, h₄⟩ := of_readU8 h₃
  obtain ⟨revocations, signature, rfl, hrevocationsLen, h₅⟩ := of_readBytes h₄
  obtain ⟨hsignatureLen, rfl⟩ := of_signature h₅
  obtain ⟨rfl, -, hiterator, hannounced⟩ :=
    readRecords_withBytes (by decide) parseMetaLease_take hleases
  obtain ⟨rfl, -⟩ := readMapping_takes hoptions
  refine ⟨(take_unsigned ?fields).2, ⟨revocationCount, hrevocationsLen, (take_unsigned ?fields).1⟩,
    hoffline, hsignatureLen, hiterator, hannounced⟩
  rw [hsrc]
  simp only [append_assoc, cons_append]

def EncryptedLeaseSet.verifyingType (set : EncryptedLeaseSet) : SigningKeyType :=
  (set.offline.map OfflineSignature.kind).getD set.signingType

structure EncryptedLeaseSet.Exact (src : Bytes) (set : EncryptedLeaseSet) : Prop where
  whole : set.unsigned ++ set.signature = src
  tiled : ∃ length : UInt16, set.encryptedData.length = length.toNat ∧
    set.unsigned = natBE 2 set.signingType.code.toNat ++ (set.blindedPublicKey ++
      (natBE 4 set.published.toNat ++ (natBE 2 set.expires.toNat ++ (natBE 2 set.flags.toNat ++
        (offlineBytes set.offline ++ (natBE 2 length.toNat ++ set.encryptedData))))))
  keyLen : set.blindedPublicKey.length = set.signingType.publicKeyLen
  offline : OfflineExact set.signingType set.flags set.offline
  signatureLen : set.signature.length = set.verifyingType.signatureLen

theorem parseEncryptedLeaseSet_exact {set : EncryptedLeaseSet}
    (h : parseEncryptedLeaseSet src = .ok set) : set.Exact src := by
  unfold parseEncryptedLeaseSet at h
  split at h
  · cases h
  split at h
  · cases h
  next typeID rest htype =>
  split at h
  · cases h
  next signingType hkind =>
  replace h := finishParse_eq_ok.mp h
  obtain ⟨publicKey, _, rfl, hpublicLen, h₁⟩ := of_readBytes h
  obtain ⟨published, _, rfl, h₂⟩ := of_readU32 h₁
  obtain ⟨expires, _, rfl, h₃⟩ := of_readU16 h₂
  obtain ⟨flags, _, rfl, h₄⟩ := of_readU16 h₃
  obtain ⟨offline, _, hoffline, h₅⟩ := Cursor.bind_eq_ok.mp h₄
  obtain ⟨length, _, rfl, h₆⟩ := of_readU16 h₅
  split at h₆
  · cases h₆
  obtain ⟨encrypted, signature, rfl, hencryptedLen, h₇⟩ := of_readBytes h₆
  obtain ⟨hsignatureLen, rfl⟩ := of_signature h₇
  obtain ⟨rfl, hexact⟩ := readOptionalOffline_exact hoffline
  obtain rfl := code_ofCode hkind
  refine ⟨(take_unsigned ?fields).2, ⟨length, hencryptedLen, (take_unsigned ?fields).1⟩, hpublicLen,
    hexact, hsignatureLen⟩
  rw [readU16_eq_ok.mp htype]
  simp only [append_assoc]

end Formats

end Ivnp.NetDb
