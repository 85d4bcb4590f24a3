import Ivnp.Tunnel.ShortRecords
import Ivnp.Tunnel.VariableInverse

/-!
The parts of a short build undo each other: layers cancel in any order, a hop
decrypts the request that was encrypted to it, and a sealed reply opens.
-/

namespace Ivnp.Tunnel

open Ivnp.Lib Ivnp.Foundation FixedBytes

section Layers

variable (crypto : ShortBuildCrypto)

def shortLayer (index : Nat) (record : ShortRecord) (replyKey : FixedBytes 32) : ShortRecord :=
  record.xor (crypto.keyStream replyKey (shortBuildNonce index))

def shortLayers (replyKeys : List (FixedBytes 32)) (index : Nat) (record : ShortRecord) :
    ShortRecord :=
  replyKeys.foldl (shortLayer crypto index) record

variable {crypto} {index : Nat}

theorem transformShortBuildRecord_eq (hindex : index < maxVariableBuildRecords)
    (record : ShortRecord) (replyKey : FixedBytes 32) :
    transformShortBuildRecord crypto record replyKey index =
      some (shortLayer crypto index record replyKey) :=
  if_neg (Nat.not_le.mpr hindex)

theorem transformAll_eq (hindex : index < maxVariableBuildRecords)
    (replyKeys : List (FixedBytes 32)) (record : ShortRecord) :
    transformAll crypto replyKeys index record =
      some (shortLayers crypto replyKeys index record) := by
  induction replyKeys generalizing record with
  | nil => rfl
  | cons replyKey rest ih =>
    unfold transformAll
    rw [List.foldlM_cons, transformShortBuildRecord_eq hindex]
    exact ih _

theorem shortLayers_shortLayer (replyKeys : List (FixedBytes 32)) (record : ShortRecord)
    (replyKey : FixedBytes 32) :
    shortLayers crypto replyKeys index (shortLayer crypto index record replyKey) =
      shortLayer crypto index (shortLayers crypto replyKeys index record) replyKey := by
  induction replyKeys generalizing record with
  | nil => rfl
  | cons other rest ih =>
    have hswap : shortLayer crypto index (shortLayer crypto index record replyKey) other =
        shortLayer crypto index (shortLayer crypto index record other) replyKey :=
      xor_right_comm _ _ _
    show shortLayers crypto rest index _ = _
    rw [hswap, ih]
    rfl

theorem shortLayer_cancel (record : ShortRecord) (replyKey : FixedBytes 32) :
    shortLayer crypto index (shortLayer crypto index record replyKey) replyKey = record :=
  xor_xor_cancel _ _

theorem shortLayers_cancel (replyKeys : List (FixedBytes 32)) (record : ShortRecord) :
    shortLayers crypto replyKeys index (shortLayers crypto replyKeys index record) = record := by
  induction replyKeys generalizing record with
  | nil => rfl
  | cons replyKey rest ih =>
    show shortLayers crypto rest index (shortLayer crypto index
      (shortLayers crypto rest index (shortLayer crypto index record replyKey)) replyKey) = _
    rw [shortLayers_shortLayer _ record, shortLayer_cancel, ih]

end Layers

section Request

theorem arrayAt_shortPeerRecord (n : Nat) (router : Hash) (publicKey : FixedBytes 32) (body : Bytes)
    (h : body.length = 170) (offset : Nat) (hoffset : shortBuildPeerSize ≤ offset) :
    arrayAt n (shortPeerRecord router publicKey body h).val offset =
      arrayAt n (publicKey.val ++ body) (offset - shortBuildPeerSize) :=
  arrayAt_skip (by simp [shortBuildPeerSize]) _ offset hoffset

variable {crypto : ShortBuildCrypto}

variable {plaintext : FixedBytes shortBuildRequestPlainSize} {keys : ShortBuildKeys}
  {record : ShortRecord} {hop : Hash}

theorem encryptShortBuildRequest_eq_some {hopStatic ephemeral : FixedBytes 32}
    (h : encryptShortBuildRequest crypto hop hopStatic plaintext ephemeral = some (record, keys)) :
    record.val.take shortBuildPeerSize = hop.val.take shortBuildPeerSize ∧
      arrayAt 32 record.val shortBuildPeerSize = crypto.x25519Public ephemeral ∧
      ∃ shared, crypto.x25519 ephemeral hopStatic = some shared ∧
        let state := newShortBuildState crypto.toBuildCrypto hopStatic
          (crypto.x25519Public ephemeral)
        let derived := crypto.shortBuildKDF2 state.chainingKey shared
        let ciphertext :=
          crypto.chachaSeal shortBuildRequestPlainSize derived.2 plaintext state.hash
        arrayAt (shortBuildRequestPlainSize + 16) record.val shortBuildCipherOffset = ciphertext ∧
          keys = requestKeys crypto state derived.1 ciphertext.val plaintext := by
  obtain ⟨shared, hshared, hrecord⟩ := Option.map_eq_some_iff.mp h
  obtain ⟨rfl, rfl⟩ := Prod.mk.inj hrecord
  refine ⟨List.take_left' (by simp [shortBuildPeerSize]), ?_, shared, hshared, ?_, rfl⟩
  · exact (arrayAt_shortPeerRecord 32 _ _ _ _ _ le_rfl).trans (arrayAt_append _ _)
  · refine (arrayAt_shortPeerRecord _ _ _ _ _ _ (by decide)).trans ?_
    refine (arrayAt_skip (length_val _) _ _ (by decide)).trans ?_
    exact arrayAt_self _

/-- The hop reads the plaintext that was encrypted to it, and derives the keys
that the creator keeps. -/
theorem decryptShortBuildRequest_encrypt (hsound : crypto.Sound)
    {staticPrivate ephemeral : FixedBytes 32}
    (h : encryptShortBuildRequest crypto hop (crypto.x25519Public staticPrivate) plaintext
      ephemeral = some (record, keys)) :
    decryptShortBuildRequest crypto record hop staticPrivate = some (plaintext, keys) := by
  obtain ⟨hpeer, hephemeral, shared, hshared, hcipher, hkeys⟩ := encryptShortBuildRequest_eq_some h
  unfold decryptShortBuildRequest
  rw [if_neg (not_not.mpr hpeer), hephemeral, hcipher]
  dsimp only
  rw [← hsound.x25519_comm, hshared, Option.bind_some, hsound.chacha, hkeys]
  rfl

end Request

section Reply

def replyOptions (answer : TransitAnswer) (request : ShortBuildRequest) : List (Bytes × Bytes) :=
  if answer.accept request ∧ needsBandwidth request then
    [(optionKeyBandwidth, formatUint answer.available)]
  else []

variable (answer : TransitAnswer)

variable (request : ShortBuildRequest)

theorem marshalMapping_replyOptions :
    ∃ options, marshalMapping (replyOptions answer request) = some options ∧
      2 ≤ options.length ∧ options.length ≤ 17 := by
  unfold replyOptions
  split
  · have hdigits : (formatUint answer.available).length ≤ 10 := length_decimalDigits_le 10 _
    have hlen : mappingEncodedLen [(optionKeyBandwidth, formatUint answer.available)] =
        some (2 + (1 + (formatUint answer.available).length + 4)) := by
      unfold mappingEncodedLen encodedLenFrom
      have hkey : optionKeyBandwidth.length = 1 := rfl
      rw [if_neg (by omega), if_neg (by simp), if_neg (by omega)]
      rfl
    unfold marshalMapping
    rw [hlen]
    refine ⟨_, rfl, ?_⟩
    rw [List.flatMap_singleton, List.length_append, length_entryBytes]
    show 2 ≤ 2 + (1 + (formatUint answer.available).length + 4) ∧
      2 + (1 + (formatUint answer.available).length + 4) ≤ 17
    omega
  · exact ⟨[0, 0], rfl, by decide⟩

theorem replyPlaintext_eq :
    replyPlaintext answer request =
      (marshalMapping (replyOptions answer request)).bind fun options =>
        (readFull (shortBuildReplyPlainSize - 1 - options.length) answer.random).map
          fun padding => FixedBytes.copy shortBuildReplyPlainSize
            (options ++ (padding.val ++ [replyCode (answer.accept request)])) := by
  unfold replyPlaintext replyOptions
  dsimp only
  split
  · rfl
  · rfl

theorem validReply_of_options {entries : List (Bytes × Bytes)} {options padding : Bytes}
    {reply : FixedBytes shortBuildReplyPlainSize} (accept : Bool)
    (hoptions : marshalMapping entries = some options)
    (hsize : options.length + padding.length = shortBuildReplyPlainSize - 1)
    (hreply : reply.val = options ++ (padding ++ [replyCode accept])) :
    openShortFrom.validReply reply = true := by
  have hcode : reply.val.getD (shortBuildReplyPlainSize - 1) 0 = replyCode accept := by
    rw [hreply, getD_skip rfl _ _ (by omega), getD_skip rfl _ _ (by omega), ← hsize,
      Nat.add_sub_cancel_left, Nat.sub_self]
    rfl
  unfold openShortFrom.validReply
  rw [hcode, hreply, (parseMapping_marshalMapping hoptions _).1]
  have hfits : options.length ≤ shortBuildReplyPlainSize - 1 := by omega
  refine decide_eq_true ⟨hfits, hfits, ?_⟩
  cases accept
  · exact .inr rfl
  · exact .inl rfl

theorem replyPlaintext_isSome (hrandom : shortBuildReplyPlainSize - 3 ≤ answer.random.length) :
    ∃ reply, replyPlaintext answer request = some reply ∧
      openShortFrom.validReply reply = true := by
  obtain ⟨options, hoptions, hleast, hmost⟩ := marshalMapping_replyOptions _ _
  obtain ⟨padding, hpadding⟩ := @readFull_of_le answer.random
    (shortBuildReplyPlainSize - 1 - options.length) (by omega)
  have hsize : options.length + padding.val.length = shortBuildReplyPlainSize - 1 := by
    rw [padding.property]
    unfold shortBuildReplyPlainSize
    omega
  have hlength : (options ++ (padding.val ++ [replyCode (answer.accept request)])).length =
      shortBuildReplyPlainSize := by
    rw [List.length_append, List.length_append, ← Nat.add_assoc, hsize]
    rfl
  refine ⟨copy _ (options ++ (padding.val ++ [replyCode (answer.accept request)])),
    ?_, validReply_of_options (answer.accept request) hoptions hsize ?_⟩
  · rw [replyPlaintext_eq, hoptions, Option.bind_some, hpadding, Option.map_some]
  · rw [copy_val_of_le hlength.ge, List.take_of_length_le hlength.le]

end Reply

end Ivnp.Tunnel
