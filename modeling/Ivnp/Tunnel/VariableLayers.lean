import Ivnp.Tunnel.VariableInverse

/-!
When the layers of a 528-byte build cancel. The hops add their layers in path
order, so a creator has to strip them in the opposite order; both creator
loops strip them in path order, which is the same only for a single layer.
Paths of one and two hops therefore build, and for every longer length some
path does not.
-/

namespace Ivnp.Tunnel

open Ivnp.Lib List Option

section Layers

/-- What every hop of the path has to read: the request written for it, the
keys the creator kept and the slot chosen for it. -/
def writtenRequests (path : List PathHop) (keys : List VariableBuildKeys) : List ProcessedBuild :=
  (path.zip keys).map fun pair =>
    ⟨pair.1.request.carried pair.1.kind, pair.2, pair.1.position.toNat⟩

variable (crypto : BuildCrypto) (localHash : Hash)

/-- A path the creator may choose: distinct hash prefixes, reply keys and reply
IVs, fresh ephemeral keys, enough randomness for the replies, and no hop that
meets its prefix in another slot. -/
structure Admissible (path : List PathHop) (random : List VariableRecord) : Prop where
  peers : (path.map fun hop => hop.router.val.take legacyBuildPeerSize).Nodup
  replyKeys : (path.map (·.request.replyKey)).Nodup
  replyIVs : (path.map (·.request.replyIV)).Nodup
  ephemerals : ∀ hop ∈ path, hop.kind = .longECIES →
    ∀ ephemeral, readFull 32 hop.random = some ephemeral →
      crypto.x25519Public ephemeral ≠ crypto.x25519Public hop.staticPrivate ∧
        crypto.x25519Public ephemeral ≠ FixedBytes.zero 32
  replies : ∀ hop ∈ path, 509 ≤ hop.replyRandom.length
  alone : ∀ index hop keys records processed received, path[index]? = some hop →
    createBuild crypto localHash path random = some (keys, records) →
    relayBuild crypto (path.take index) records = some (processed, received) →
    ∀ slot record, received[slot]? = some record →
      record.val.take legacyBuildPeerSize = hop.router.val.take legacyBuildPeerSize →
        slot = hop.position.toNat

/-- What a build promises: if the creator has filled and preprocessed the
records, every hop decrypts the request written for it, and the replies open to
the code of every hop. -/
def RoundTrip (path : List PathHop) (random : List VariableRecord) : Prop :=
  ∀ keys records, createBuild crypto localHash path random = some (keys, records) →
    ∃ processed replies, relayBuild crypto path records = some (processed, replies) ∧
      processed = writtenRequests path keys ∧
      openVariableBuildReplies crypto replies keys (path.map (·.position)) =
        some (path.map fun hop => replyCode hop.accept)

variable {crypto localHash}

variable {hop : PathHop}

variable {records : List VariableRecord} {record : VariableRecord}

/-- A hop that finds its record as the creator wrote it answers with a reply
that opens to its code. -/
theorem relayBuild_cons (hsound : crypto.Sound) {keys : VariableBuildKeys}
    (hfresh : hop.kind = .longECIES → ∀ ephemeral, readFull 32 hop.random = some ephemeral →
      crypto.x25519Public ephemeral ≠ crypto.x25519Public hop.staticPrivate ∧
        crypto.x25519Public ephemeral ≠ FixedBytes.zero 32) (hrandom : 509 ≤ hop.replyRandom.length)
    (hfill : fillVariableRequest crypto localHash hop = some (record, keys))
    (hmax : records.length ≤ legacyBuildMaxRecords)
    (hrecord : records[hop.position.toNat]? = some record)
    (hunique : ∀ slot record, records[slot]? = some record →
      record.val.take legacyBuildPeerSize = hop.router.val.take legacyBuildPeerSize →
        slot = hop.position.toNat) :
    ∃ reply, openVariableBuildReply crypto keys reply = some (replyCode hop.accept) ∧
      ∀ rest, relayBuild crypto (hop :: rest) records =
        (relayBuild crypto rest (addLayer crypto keys hop.position.toNat reply records)).map
          fun others =>
            (⟨hop.request.carried hop.kind, keys, hop.position.toNat⟩ :: others.1, others.2) := by
  obtain ⟨reply, hseal⟩ := sealVariableBuildReply_isSome _ _ hop.accept hrandom
  refine ⟨reply, openVariableBuildReply_seal hsound hseal, fun rest => ?_⟩
  have hprocess := processVariableBuildRecords_eq hmax hrecord (fillVariableRequest_peer hfill)
    hunique (openRequest_fillVariableRequest hsound hfresh hfill) hseal
  rw [relayBuild, hprocess, bind_eq_bind, bind_some]
  cases relayBuild crypto rest (addLayer crypto keys hop.position.toNat reply records) <;> rfl

variable {random : List VariableRecord} {keys : List VariableBuildKeys}

theorem createBuild_eq_some {path : List PathHop}
    (h : createBuild crypto localHash path random = some (keys, records)) :
    ∃ filled, fillRecords crypto localHash path random = some (keys, filled) ∧
      validVariableRecordSet filled keys (path.map (·.position)) = true ∧
      records = preprocessFrom crypto [] (keys.zip (path.map (·.position))) filled := by
  obtain ⟨⟨found, filled⟩, hfill, h⟩ := bind_eq_some_iff.mp h
  obtain ⟨after, hpreprocess, h⟩ := bind_eq_some_iff.mp h
  obtain ⟨rfl, rfl⟩ := Prod.mk.inj (some.inj h)
  rw [preprocessVariableBuildRecords] at hpreprocess
  split at hpreprocess
  · simp at hpreprocess
  next hvalid =>
  rw [Bool.not_eq_true', Bool.not_eq_false] at hvalid
  exact ⟨filled, hfill, hvalid, (some.inj hpreprocess).symm⟩

theorem fillRecords_cons {rest : List PathHop} {filled : List VariableRecord}
    (h : fillRecords crypto localHash (hop :: rest) random = some (keys, filled)) :
    ∃ record own others, fillVariableRequest crypto localHash hop = some (record, own) ∧
      fillRecords crypto localHash rest (random.set hop.position.toNat record) =
        some (others, filled) ∧ keys = own :: others := by
  obtain ⟨⟨record, own⟩, hfill, h⟩ := bind_eq_some_iff.mp h
  obtain ⟨⟨others, after⟩, hrest, h⟩ := bind_eq_some_iff.mp h
  obtain ⟨rfl, rfl⟩ := Prod.mk.inj (some.inj h)
  exact ⟨record, own, others, hfill, hrest, rfl⟩

theorem openVariableBuildReplies_eq {replies filled : List VariableRecord} {positions : List UInt8}
    (hvalid : validVariableRecordSet filled keys positions = true)
    (hlength : replies.length = filled.length) :
    openVariableBuildReplies crypto replies keys positions =
      openReplies crypto replies (keys.zip positions) := by
  rw [openVariableBuildReplies, validVariableRecordSet, hlength, ← validVariableRecordSet, hvalid]
  rfl

theorem openReplies_cons {replies : List VariableRecord} {keys : VariableBuildKeys}
    {position : UInt8} {later : List (VariableBuildKeys × UInt8)}
    {code : UInt8} {codes : List UInt8} (hrecord : replies[position.toNat]? = some record)
    (hopen : openVariableBuildReply crypto keys
      (removeLayers crypto (later.map Prod.fst) record) = some code)
    (hlater : openReplies crypto replies later = some codes) :
    openReplies crypto replies ((keys, position) :: later) = some (code :: codes) := by
  rw [openReplies, hrecord, bind_eq_bind, bind_some, hopen, hlater]
  rfl

theorem roundTrip_one (hsound : crypto.Sound) (hpath : Admissible crypto localHash [hop] random) :
    RoundTrip crypto localHash [hop] random := by
  intro keys records hcreate
  obtain ⟨filled, hfill, hvalid, hrecords⟩ := createBuild_eq_some hcreate
  obtain ⟨record, own, others, hown, hrest, rfl⟩ := fillRecords_cons hfill
  obtain ⟨rfl, rfl⟩ := Prod.mk.inj (some.inj hrest)
  have hbounds := hvalid
  simp only [validVariableRecordSet, decide_eq_true_eq] at hbounds
  obtain ⟨-, -, -, hmax, hpositions, -⟩ := hbounds
  have hposition : hop.position.toNat < random.length := by simpa using hpositions hop.position
  have hlength : records.length = (random.set hop.position.toNat record).length := by
    rw [hrecords]
    exact length_modify _ _ _
  have hrecord : records[hop.position.toNat]? = some record := by
    rw [hrecords]
    simp [preprocessFrom, hposition, removeLayers]
  obtain ⟨reply, hreply, hrelay⟩ := relayBuild_cons hsound (hpath.ephemerals hop (by simp))
    (hpath.replies hop (by simp)) hown (hlength ▸ hmax) hrecord
    (hpath.alone 0 hop _ _ _ _ rfl hcreate rfl)
  refine ⟨_, _, hrelay [], rfl, ?_⟩
  rw [openVariableBuildReplies_eq hvalid (by rw [length_addLayer, hlength])]
  refine openReplies_cons (getElem?_addLayer_self _ _ _ ?_) hreply rfl
  rw [hlength, length_set]
  exact hposition

theorem roundTrip_two (hsound : crypto.Sound) {first second : PathHop}
    (hpath : Admissible crypto localHash [first, second] random) :
    RoundTrip crypto localHash [first, second] random := by
  intro keys records hcreate
  obtain ⟨filled, hfill, hvalid, hrecords⟩ := createBuild_eq_some hcreate
  obtain ⟨record₁, own₁, others, hown₁, hrest, rfl⟩ := fillRecords_cons hfill
  obtain ⟨record₂, own₂, others, hown₂, hnone, rfl⟩ := fillRecords_cons hrest
  obtain ⟨rfl, rfl⟩ := Prod.mk.inj (some.inj hnone)
  have hbounds := hvalid
  simp only [validVariableRecordSet, decide_eq_true_eq] at hbounds
  obtain ⟨-, -, -, hmax, hpositions, hnodup⟩ := hbounds
  have hposition₁ : first.position.toNat < random.length := by simpa using hpositions first.position
  have hposition₂ : second.position.toNat < random.length := by
    simpa using hpositions second.position
  have hne : first.position.toNat ≠ second.position.toNat := by
    intro heq
    simp [UInt8.toNat_inj.mp heq] at hnodup
  have hlength : records.length = random.length := by simp [hrecords, preprocessFrom]
  rw [length_set, length_set, ← hlength] at hmax
  have hrecord₁ : records[first.position.toNat]? = some record₁ := by
    simp [hrecords, preprocessFrom, hposition₁, hne.symm, removeLayers]
  have hrecord₂ : records[second.position.toNat]? =
      some (cbcVariableDecrypt crypto record₂ own₁.replyKey own₁.replyIV) := by
    simp [hrecords, preprocessFrom, hposition₂, hne, removeLayers]
  -- the first hop meets its record unlayered, and its layer uncovers the second record
  obtain ⟨reply₁, hreply₁, hrelay₁⟩ := relayBuild_cons hsound (hpath.ephemerals _ (by simp))
    (hpath.replies _ (by simp)) hown₁ hmax hrecord₁
    (hpath.alone 0 _ _ _ _ _ rfl hcreate rfl)
  have hseen : (addLayer crypto own₁ first.position.toNat reply₁ records)[second.position.toNat]? =
      some record₂ := by
    rw [getElem?_addLayer_ne _ _ _ hrecord₂ hne.symm, cbcVariableEncrypt_decrypt hsound]
  obtain ⟨reply₂, hreply₂, hrelay₂⟩ := relayBuild_cons hsound (hpath.ephemerals _ (by simp))
    (hpath.replies _ (by simp)) hown₂ (by rw [length_addLayer]; exact hmax) hseen
    (hpath.alone 1 _ _ _ _ _ rfl hcreate (hrelay₁ []))
  refine ⟨_, _, (hrelay₁ [second]).trans (by rw [hrelay₂ []]; rfl), rfl, ?_⟩
  rw [openVariableBuildReplies_eq hvalid (by simp [hlength])]
  refine openReplies_cons
    (getElem?_addLayer_ne _ _ _ (getElem?_addLayer_self crypto _ _ ?_) hne) ?_ ?_
  · rw [hlength]
    exact hposition₁
  · exact (congrArg _ (cbcVariableDecrypt_encrypt hsound _ _ _)).trans hreply₁
  · refine openReplies_cons (getElem?_addLayer_self _ _ _ ?_) hreply₂ rfl
    rw [length_addLayer, hlength]
    exact hposition₂

end Layers

section Misread

/-- Primitives without secrets. The block cipher is the identity, so that a CBC
layer is a running exclusive or from the IV. -/
def plainCrypto : BuildCrypto where
  aesEncrypt _ block := block
  aesDecrypt _ block := block
  sha256 _ := FixedBytes.zero 32
  elGamalPublic secret := secret
  elGamalEncrypt _ _ plaintext :=
    some (⟨plaintext.val ++ List.replicate 34 0, by simp [legacyBuildRequestPlainSize]⟩,
      FixedBytes.zero 256)
  elGamalDecrypt _ ciphertext := some (FixedBytes.copy _ ciphertext.1.val)
  x25519Public secret := secret
  x25519 _ _ := some (FixedBytes.zero 32)
  shortBuildKDF2 key _ := (key, key)
  chachaSeal _ _ plaintext _ := ⟨plaintext.val ++ List.replicate 16 0, by simp⟩
  chachaOpen n _ ciphertext _ := some (FixedBytes.copy n ciphertext.val)

theorem plainCrypto_sound : plainCrypto.Sound where
  aes_decrypt_encrypt _ _ := rfl
  aes_encrypt_decrypt _ _ := rfl
  elGamal h := by
    obtain rfl := some.inj h
    exact congrArg some (FixedBytes.copy_append _ _)
  x25519_comm _ _ := rfl
  chacha _ _ _ _ := congrArg some (FixedBytes.copy_append _ _)

def variableHop (index : Nat) : PathHop where
  router := ⟨List.replicate 32 (UInt8.ofNat (index + 1)), by simp⟩
  kind := .elGamal
  elGamalPrivate := FixedBytes.zero 256
  staticPrivate := FixedBytes.zero 32
  request :=
    { receiveTunnelID := UInt32.ofNat (index + 1)
      nextTunnelID := UInt32.ofNat (index + 2)
      nextRouter := ⟨List.replicate 32 (UInt8.ofNat (index + 2)), by simp⟩
      layerKey := FixedBytes.zero 32
      ivKey := FixedBytes.zero 32
      replyKey := ⟨List.replicate 32 (UInt8.ofNat index), by simp⟩
      replyIV := ⟨List.replicate 16 (UInt8.ofNat (16 * index)), by simp⟩
      gateway := false
      endpoint := false
      requestHours := 1
      requestMinutes := 1
      lifetimeSeconds := legacyBuildLifetimeSeconds
      nextMessageID := 1 }
  position := UInt8.ofNat index
  random := List.replicate 29 0
  entropy := []
  accept := true
  replyRandom := List.replicate 509 0

def variablePath (n : Nat) : List PathHop := (List.range n).map variableHop

def variableRecords : List VariableRecord := List.replicate 8 (FixedBytes.zero _)

/-- The check of `Admissible.alone` by evaluation. -/
def aloneInSlots (n : Nat) : Bool :=
  (createBuild plainCrypto (FixedBytes.zero 32) (variablePath n) variableRecords).all fun created =>
    (List.range n).all fun index =>
      (relayBuild plainCrypto ((variablePath n).take index) created.2).all fun relayed =>
        relayed.2.zipIdx.all fun pair =>
          decide (pair.1.val.take legacyBuildPeerSize =
            (variableHop index).router.val.take legacyBuildPeerSize → pair.2 = index)

def misread (n : Nat) : Bool :=
  (createBuild plainCrypto (FixedBytes.zero 32) (variablePath n) variableRecords).any fun created =>
    !(relayBuild plainCrypto (variablePath n) created.2).any fun relayed =>
      relayed.1 = writtenRequests (variablePath n) created.1

theorem aloneInSlots_of_le : ∀ n ≤ 8, aloneInSlots n := by decide +kernel

theorem misread_of_le : ∀ n ≤ 8, 3 ≤ n → misread n := by decide +kernel

theorem variablePath_nodup : ∀ n ≤ 8,
    ((variablePath n).map fun hop => hop.router.val.take legacyBuildPeerSize).Nodup ∧
      ((variablePath n).map (·.request.replyKey)).Nodup ∧
        ((variablePath n).map (·.request.replyIV)).Nodup := by
  decide +kernel

variable {n : Nat}

theorem variablePath_admissible (hn : n ≤ 8) :
    Admissible plainCrypto (FixedBytes.zero 32) (variablePath n) variableRecords where
  peers := (variablePath_nodup n hn).1
  replyKeys := (variablePath_nodup n hn).2.1
  replyIVs := (variablePath_nodup n hn).2.2
  ephemerals hop hmem hkind := by
    obtain ⟨index, -, rfl⟩ := mem_map.mp hmem
    cases hkind
  replies hop hmem := by
    obtain ⟨index, -, rfl⟩ := List.mem_map.mp hmem
    exact List.length_replicate.ge
  alone index hop keys records processed received hhop hcreate hrelay slot record hrecord hpeer := by
    have halone := aloneInSlots_of_le n hn
    rw [aloneInSlots, hcreate, all_some, List.all_eq_true] at halone
    obtain ⟨found, hfound, rfl⟩ := by simpa [variablePath, List.getElem?_map] using hhop
    obtain ⟨hindex, rfl⟩ := List.getElem?_eq_some_iff.mp hfound
    rw [getElem_range] at hpeer ⊢
    rw [length_range] at hindex
    have hslots := halone _ (mem_range.mpr hindex)
    rw [hrelay, all_some, List.all_eq_true] at hslots
    have hslot := hslots (record, slot) (List.mem_zipIdx_iff_getElem?.mpr hrecord)
    obtain rfl := of_decide_eq_true hslot hpeer
    exact (Nat.mod_eq_of_lt (by omega)).symm

theorem variablePath_not_roundTrip (hmin : 3 ≤ n) (hmax : n ≤ 8) :
    ¬ RoundTrip plainCrypto (FixedBytes.zero 32) (variablePath n) variableRecords := by
  intro hround
  have hmisread := misread_of_le n hmax hmin
  rw [misread, Option.any_eq_true] at hmisread
  obtain ⟨⟨keys, records⟩, hcreate, hmisread⟩ := hmisread
  obtain ⟨processed, replies, hrelay, hwritten, -⟩ := hround _ _ hcreate
  rw [hrelay, any_some, Bool.not_eq_true', decide_eq_false_iff_not] at hmisread
  exact hmisread hwritten

/-- For a path length the build works for all primitives, hops, slots and keys
exactly when there are at most two hops. -/
theorem roundTrip_iff (n : Nat) (hpos : 1 ≤ n) (hmax : n ≤ legacyBuildMaxRecords) :
    (∀ (crypto : BuildCrypto) (localHash : Hash) (path : List PathHop)
        (random : List VariableRecord), path.length = n → crypto.Sound →
        Admissible crypto localHash path random → RoundTrip crypto localHash path random) ↔
      n ≤ 2 := by
  constructor
  · intro hall
    by_contra hlong
    exact variablePath_not_roundTrip (by omega) hmax (hall _ _ _ _
      (by rw [variablePath, length_map, length_range]) plainCrypto_sound
      (variablePath_admissible hmax))
  · rintro hshort crypto localHash path random rfl hsound hpath
    rcases path with _ | ⟨first, _ | ⟨second, _ | ⟨third, rest⟩⟩⟩
    · simp at hpos
    · exact roundTrip_one hsound hpath
    · exact roundTrip_two hsound hpath
    · simp at hshort

theorem roundTrip_iff_two_hops :
    (createBuild plainCrypto (FixedBytes.zero 32) (variablePath 2) variableRecords).isSome ∧
      RoundTrip plainCrypto (FixedBytes.zero 32) (variablePath 2) variableRecords :=
  ⟨by decide +kernel, (roundTrip_iff 2 (by decide) (by decide)).mpr le_rfl _ _ _ _ rfl
    plainCrypto_sound (variablePath_admissible (by decide))⟩

/-- Three ElGamal hops in the slots 0, 1 and 2, with the reply IVs 00…, 10… and
20…: the third hop reads another request than the one written for it. -/
theorem not_roundTrip_three_hops :
    plainCrypto.Sound ∧
      Admissible plainCrypto (FixedBytes.zero 32) (variablePath 3) variableRecords ∧
        ¬ RoundTrip plainCrypto (FixedBytes.zero 32) (variablePath 3) variableRecords :=
  ⟨plainCrypto_sound, variablePath_admissible (by decide),
    variablePath_not_roundTrip le_rfl (by decide)⟩

end Misread

end Ivnp.Tunnel
