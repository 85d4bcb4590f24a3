import Ivnp.Tunnel.VariableBuild

/-!
The two ends of one 528-byte record: a hop reads back the request the creator
wrote, the creator reads back the code the hop sealed, and one CBC layer is
undone by its inverse.
-/

namespace Ivnp.Tunnel

open Ivnp.Lib Option FixedBytes

variable {random : Bytes}

theorem readFull_of_le {n : Nat} (h : n ≤ random.length) :
    ∃ bytes, readFull n random = some bytes :=
  ⟨_, dif_neg (Nat.not_lt.mpr h)⟩

variable {localHash : Hash}

theorem findSlot_of_none {records : List Bytes} (index : Nat) (found : Option (Nat × Bytes))
    (hnone : ∀ bytes ∈ records,
      bytes.take shortBuildPeerSize ≠ localHash.val.take shortBuildPeerSize) :
    findSlot localHash index found records = found := by
  induction records generalizing index with
  | nil => rfl
  | cons head rest ih =>
    rw [findSlot, if_neg (hnone head (by simp))]
    exact ih (index + 1) fun bytes hbytes => hnone _ (by simp [hbytes])

variable {slot : Nat}

theorem findSlot_of_unique {records : List Bytes} {index : Nat} {record : Bytes}
    (hrecord : records[slot]? = some record)
    (hmatch : record.take shortBuildPeerSize = localHash.val.take shortBuildPeerSize)
    (hunique : ∀ other bytes, records[other]? = some bytes →
      bytes.take shortBuildPeerSize = localHash.val.take shortBuildPeerSize → other = slot) :
    findSlot localHash index none records = some (index + slot, record) := by
  induction records generalizing index slot with
  | nil => simp at hrecord
  | cons head rest ih =>
    rw [findSlot]
    split
    next hhead =>
      obtain rfl := hunique 0 head rfl hhead
      obtain rfl := some.inj hrecord
      refine findSlot_of_none (index + 1) (some (index, head)) ?_
      intro bytes hbytes hother
      obtain ⟨other, hindex⟩ := List.mem_iff_getElem?.mp hbytes
      exact absurd (hunique (other + 1) _ hindex hother) (Nat.succ_ne_zero _)
    next hhead =>
      cases slot with
      | zero =>
        obtain rfl := some.inj hrecord
        exact absurd hmatch hhead
      | succ slot =>
        rw [ih hrecord ?_, Nat.add_assoc, Nat.add_comm 1]
        intro other bytes hother hbytes
        exact Nat.succ_inj.mp (hunique (other + 1) _ hother hbytes)

theorem sealVariableBuildReply_isSome (crypto : BuildCrypto) (keys : VariableBuildKeys)
    (accept : Bool) (hrandom : 509 ≤ random.length) :
    ∃ reply, sealVariableBuildReply crypto keys random (replyCode accept) = some reply := by
  have hcode : ¬ (replyCode accept ≠ 0 ∧ replyCode accept ≠ 30) := by cases accept <;> decide
  rw [sealVariableBuildReply, if_neg hcode]
  split
  · obtain ⟨padding, hpadding⟩ := readFull_of_le (n := 495) (Nat.le_trans (by decide) hrandom)
    exact ⟨_, by rw [hpadding, map_some]⟩
  · obtain ⟨padding, hpadding⟩ := readFull_of_le hrandom
    exact ⟨_, by rw [hpadding, map_some]⟩

theorem peerRecord_peer (hop : Hash) (body : Bytes) (h : body.length = 512) :
    (peerRecord hop body h).val.take legacyBuildPeerSize = hop.val.take legacyBuildPeerSize :=
  List.take_left' (by simp [legacyBuildPeerSize])

theorem arrayAt_peerRecord (n : Nat) (hop : Hash) (body : Bytes) (h : body.length = 512)
    (offset : Nat) (hoffset : 16 ≤ offset) :
    arrayAt n (peerRecord hop body h).val offset = arrayAt n body (offset - 16) :=
  arrayAt_skip (by simp [legacyBuildPeerSize]) _ _ hoffset

theorem arrayAt_self {n : Nat} (array : FixedBytes n) : arrayAt n array.val 0 = array :=
  Subtype.ext (by simp [arrayAt])

variable {plaintext : FixedBytes longBuildRequestPlainSize} {request : VariableBuildRequest}
  {reply : VariableRecord} {hop : PathHop} {accept : Bool} {found : Nat}

theorem longECIESKeys_of_parse (h : parseLongECIESBuildRequest plaintext.val = some request)
    (state : ShortBuildState) :
    { longECIESKeys state plaintext with
      layerKey := request.layerKey, ivKey := request.ivKey
      replyKey := request.replyKey, replyIV := request.replyIV } =
        longECIESKeys state plaintext := by
  rw [parseLongECIESBuildRequest] at h
  split at h
  · simp at h
  split at h
  · simp at h
  dsimp only at h
  split at h
  · simp at h
  split at h
  · simp at h
  split at h
  · simp at h
  obtain rfl := some.inj h
  rfl

variable {record : VariableRecord}

theorem fillVariableRequest_peer {crypto : BuildCrypto} {keys : VariableBuildKeys}
    (h : fillVariableRequest crypto localHash hop = some (record, keys)) :
    record.val.take legacyBuildPeerSize = hop.router.val.take legacyBuildPeerSize := by
  rw [fillVariableRequest] at h
  split at h
  · obtain ⟨_, -, h⟩ := bind_eq_some_iff.mp h
    obtain ⟨_, hencrypt, h⟩ := bind_eq_some_iff.mp h
    obtain ⟨_, -, rfl⟩ := map_eq_some_iff.mp hencrypt
    obtain ⟨rfl, -⟩ := Prod.mk.inj (some.inj h)
    exact peerRecord_peer _ _ _
  · obtain ⟨_, -, hencrypt⟩ := bind_eq_some_iff.mp h
    obtain ⟨_, -, h⟩ := bind_eq_some_iff.mp hencrypt
    obtain ⟨_, -, h⟩ := bind_eq_some_iff.mp h
    obtain ⟨rfl, -⟩ := Prod.mk.inj (some.inj h)
    exact peerRecord_peer _ _ _

@[simp] theorem length_addLayer (crypto : BuildCrypto) (keys : VariableBuildKeys) (found : Nat)
    (reply : VariableRecord) (records : List VariableRecord) :
    (addLayer crypto keys found reply records).length = records.length :=
  List.length_mapIdx

variable {records : List VariableRecord}

theorem getElem?_addLayer_self (crypto : BuildCrypto) (keys : VariableBuildKeys)
    (reply : VariableRecord) (h : found < records.length) :
    (addLayer crypto keys found reply records)[found]? = some reply := by
  rw [addLayer, List.getElem?_mapIdx, List.getElem?_eq_getElem h, map_some, if_pos rfl]

theorem getElem?_addLayer_ne (crypto : BuildCrypto) (keys : VariableBuildKeys)
    (reply : VariableRecord) (h : records[slot]? = some record) (hne : slot ≠ found) :
    (addLayer crypto keys found reply records)[slot]? =
      some (cbcVariableEncrypt crypto record keys.replyKey keys.replyIV) := by
  rw [addLayer, List.getElem?_mapIdx, h, map_some, if_neg hne]

theorem processVariableBuildRecords_eq {crypto : BuildCrypto} {hop : HopIdentity} {keys : VariableBuildKeys} (hmax : records.length ≤ legacyBuildMaxRecords)
    (hrecord : records[slot]? = some record)
    (hpeer : record.val.take legacyBuildPeerSize = hop.router.val.take legacyBuildPeerSize)
    (hunique : ∀ other bytes, records[other]? = some bytes →
      bytes.val.take legacyBuildPeerSize = hop.router.val.take legacyBuildPeerSize → other = slot)
    (hopen : hop.openRequest crypto record = some (request, keys))
    (hseal : sealVariableBuildReply crypto keys random (replyCode accept) = some reply) :
    processVariableBuildRecords crypto hop accept random records =
      some (⟨request, keys, slot⟩, addLayer crypto keys slot reply records) := by
  have hslot := (List.getElem?_eq_some_iff.mp hrecord).1
  have hfound : findSlot hop.router 0 none (records.map Subtype.val) = some (0 + slot, record.val) := by
    refine findSlot_of_unique ?_ hpeer ?_
    · rw [List.getElem?_map, hrecord, map_some]
    · intro other bytes hother hbytes
      rw [List.getElem?_map] at hother
      obtain ⟨found, hfound, rfl⟩ := map_eq_some_iff.mp hother
      exact hunique _ _ hfound hbytes
  rw [Nat.zero_add] at hfound
  rw [processVariableBuildRecords, if_neg (by omega), hfound]
  dsimp only
  rw [hrecord, bind_eq_bind, bind_some, hopen, bind_eq_bind, bind_some, hseal]
  rfl

section Cancel

variable {crypto : BuildCrypto} (hsound : crypto.Sound)
include hsound

theorem cbcVariableDecrypt_encrypt (record : VariableRecord) (key : FixedBytes 32)
    (iv : FixedBytes 16) :
    cbcVariableDecrypt crypto (cbcVariableEncrypt crypto record key iv) key iv = record :=
  Subtype.ext (Cbc.decryptBlocks_encryptBlocks (hsound.aes_decrypt_encrypt _) 33 iv record.val
    record.property)

theorem cbcVariableEncrypt_decrypt (record : VariableRecord) (key : FixedBytes 32)
    (iv : FixedBytes 16) :
    cbcVariableEncrypt crypto (cbcVariableDecrypt crypto record key iv) key iv = record :=
  Subtype.ext (Cbc.encryptBlocks_decryptBlocks (hsound.aes_encrypt_decrypt _) 33 iv record.val
    record.property)

variable {keys : VariableBuildKeys}

theorem openVariableBuildReply_seal {random : Bytes}
    (h : sealVariableBuildReply crypto keys random (replyCode accept) = some reply) :
    openVariableBuildReply crypto keys reply = some (replyCode accept) := by
  have hcode : ¬ (replyCode accept ≠ 0 ∧ replyCode accept ≠ 30) := by cases accept <;> decide
  rw [sealVariableBuildReply, if_neg hcode] at h
  split at h
  next hkind =>
    obtain ⟨padding, -, rfl⟩ := map_eq_some_iff.mp h
    rw [openVariableBuildReply, hkind]
    dsimp only
    rw [cbcVariableDecrypt_encrypt hsound]
    dsimp only
    rw [arrayAt_append, drop_skip (length_val _) _ 32 le_rfl, List.drop_zero, if_neg (not_not.mpr rfl),
      getD_skip (length_val _) _ (variableBuildRecordSize - 1) (by decide),
      getD_skip (length_val padding) _ _ (by decide)]
    exact if_neg hcode
  next hkind =>
    obtain ⟨padding, -, rfl⟩ := map_eq_some_iff.mp h
    rw [openVariableBuildReply, hkind]
    dsimp only
    rw [hsound.chacha, bind_some]
    rw [@getD_skip _ 2 rfl _ 511 (by decide), getD_skip (length_val _) _ _ (by decide)]
    exact if_neg hcode

variable {record : VariableRecord}

theorem decryptElGamal_encryptElGamal {hop : Hash} {secret : FixedBytes 256} {entropy : Bytes}
    {plaintext : FixedBytes legacyBuildRequestPlainSize}
    (h : encryptElGamalBuildRequest crypto hop (crypto.elGamalPublic secret) entropy plaintext =
      some record) :
    decryptElGamalBuildRequest crypto record hop secret = some plaintext := by
  obtain ⟨encrypted, hencrypt, rfl⟩ := map_eq_some_iff.mp h
  rw [decryptElGamalBuildRequest, if_neg (not_not.mpr (peerRecord_peer _ _ _)),
    arrayAt_peerRecord _ _ _ _ 16 (by decide), arrayAt_peerRecord _ _ _ _ 272 (by decide),
    arrayAt_append, arrayAt_skip (length_val _) _ _ (by decide), arrayAt_self]
  exact hsound.elGamal hencrypt

theorem decryptLongECIES_encryptLongECIES {hop : Hash} {static : FixedBytes 32} {random : Bytes}
    (hfresh : ∀ ephemeral, readFull 32 random = some ephemeral →
      crypto.x25519Public ephemeral ≠ crypto.x25519Public static ∧
        crypto.x25519Public ephemeral ≠ FixedBytes.zero 32)
    (h : encryptLongECIESBuildRequest crypto hop (crypto.x25519Public static) plaintext random =
      some (record, keys)) :
    decryptLongECIESBuildRequest crypto record hop static = some (plaintext, keys) := by
  obtain ⟨ephemeral, hephemeral, h⟩ := bind_eq_some_iff.mp h
  obtain ⟨shared, hshared, h⟩ := bind_eq_some_iff.mp h
  obtain ⟨rfl, rfl⟩ := Prod.mk.inj (some.inj h)
  rw [decryptLongECIESBuildRequest, if_neg (not_not.mpr (peerRecord_peer _ _ _)),
    arrayAt_peerRecord _ _ _ _ 16 (by decide), arrayAt_peerRecord _ _ _ _ 48 (by decide)]
  dsimp only
  rw [arrayAt_append, arrayAt_skip (length_val _) _ _ (by decide), arrayAt_self,
    if_neg (not_or.mpr (hfresh _ hephemeral)), ← hsound.x25519_comm, hshared, bind_eq_bind,
    bind_some, hsound.chacha]
  rfl

/-- A hop decrypts an untouched record to the request the creator wrote, and to
the keys the creator kept. -/
theorem openRequest_fillVariableRequest {localHash : Hash}
    (hfresh : hop.kind = .longECIES → ∀ ephemeral, readFull 32 hop.random = some ephemeral →
      crypto.x25519Public ephemeral ≠ crypto.x25519Public hop.staticPrivate ∧
        crypto.x25519Public ephemeral ≠ FixedBytes.zero 32)
    (h : fillVariableRequest crypto localHash hop = some (record, keys)) :
    hop.openRequest crypto record = some (hop.request.carried hop.kind, keys) := by
  rw [fillVariableRequest] at h
  rw [HopIdentity.openRequest]
  cases hkind : hop.kind with
  | elGamal =>
    rw [hkind] at h
    obtain ⟨plaintext, hmarshal, h⟩ := bind_eq_some_iff.mp h
    obtain ⟨sealed, hencrypt, h⟩ := bind_eq_some_iff.mp h
    obtain ⟨rfl, rfl⟩ := Prod.mk.inj (some.inj h)
    rw [decryptElGamal_encryptElGamal hsound hencrypt, bind_eq_bind, bind_some,
      parseElGamal_marshalElGamal hmarshal]
    rfl
  | longECIES =>
    rw [hkind] at h
    obtain ⟨plaintext, hmarshal, hencrypt⟩ := bind_eq_some_iff.mp h
    have hparse := parseLongECIES_marshalLongECIES hmarshal
    obtain ⟨state, rfl⟩ : ∃ state, keys = longECIESKeys state plaintext := by
      obtain ⟨_, -, h⟩ := bind_eq_some_iff.mp hencrypt
      obtain ⟨_, -, h⟩ := bind_eq_some_iff.mp h
      exact ⟨_, (Prod.mk.inj (some.inj h)).2.symm⟩
    dsimp only
    rw [decryptLongECIES_encryptLongECIES hsound (hfresh hkind) hencrypt, bind_eq_bind,
      bind_some, hparse]
    exact congrArg (fun keys => some (_, keys)) (longECIESKeys_of_parse hparse _)

end Cancel

end Ivnp.Tunnel
