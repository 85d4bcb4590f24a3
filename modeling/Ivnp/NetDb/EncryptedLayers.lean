import Ivnp.Foundation.BlindedKeys
import Ivnp.Lib.Fallible
import Ivnp.NetDb.ExactParse
import Ivnp.NetDb.LocalEncrypted

/-!
The layers of an encrypted lease set, written and read back: the key stream cancels itself,
a listed client finds the cookie of the inner layer, and both sets parse to what was written.
-/

namespace Ivnp.NetDb

open Ivnp.Lib Ivnp.Foundation List Option LocalLeaseSet2 FixedBytes Cursor

variable {materialOf : Client → ElsClientMaterial} {clients : List Client} {client : Client}
  {Client : Type} {authCookie : FixedBytes 32}

section Layers

variable {hashes : BlindingHashes} {primitives : ElsPrimitives}

theorem elsStream_length (key : FixedBytes 32) (nonce : FixedBytes 12) (src : Bytes) :
    (elsStream primitives key nonce src).length = src.length := by
  rw [elsStream, length_mapIdx]

theorem elsStream_elsStream (key : FixedBytes 32) (nonce : FixedBytes 12) (src : Bytes) :
    elsStream primitives key nonce (elsStream primitives key nonce src) = src := by
  apply ext_getElem
  · rw [elsStream_length, elsStream_length]
  · intro index _ _
    simp only [elsStream, getElem_mapIdx, UInt8.xor_assoc, UInt8.xor_self, UInt8.xor_zero]

theorem elsEncrypt_length (input saltInput : Bytes) (info : String) (salt : FixedBytes 32) :
    (elsEncrypt hashes primitives input saltInput info salt).length = 32 + input.length := by
  simp only [elsEncrypt, length_append, length_val, elsStream_length]

theorem elsDecrypt_elsEncrypt (input saltInput : Bytes) (info : String) (salt : FixedBytes 32) :
    elsDecrypt hashes primitives (elsEncrypt hashes primitives input saltInput info salt) saltInput
      info = .ok input := by
  unfold elsDecrypt
  rw [if_neg (by rw [elsEncrypt_length]; omega)]
  simp only [elsEncrypt, take_left' salt.property, drop_left' salt.property, elsStream_elsStream]

theorem clientEntry_length (material : ElsClientMaterial) (authCookie : FixedBytes 32) :
    (clientEntry primitives material authCookie).length = 40 := by
  rw [clientEntry, length_append, elsStream_length, length_val, length_val]

/-- A client finds its cookie where no other entry has its identifier. -/
theorem findCookie_flatMap
    (hmem : client ∈ clients)
    (hids : ∀ other ∈ clients, (materialOf other).id = (materialOf client).id →
      materialOf other = materialOf client) (rest : Bytes) :
    findCookie primitives
      (clients.flatMap (fun other => clientEntry primitives (materialOf other) authCookie) ++ rest)
      (materialOf client) clients.length = some authCookie.val := by
  induction clients with
  | nil => cases hmem
  | cons first others ih =>
    have hentry : (clientEntry primitives (materialOf first) authCookie).length = 40 :=
      clientEntry_length _ _
    simp only [flatMap_cons, append_assoc, length_cons, findCookie,
      take_left' hentry, drop_left' hentry]
    have hid : (clientEntry primitives (materialOf first) authCookie).take 8 =
        (materialOf first).id.val := take_left' (materialOf first).id.property
    have hdrop : (clientEntry primitives (materialOf first) authCookie).drop 8 =
        elsStream primitives (materialOf first).key (materialOf first).nonce authCookie.val :=
      drop_left' (materialOf first).id.property
    rw [hid]
    split
    next hsame =>
      have hmaterial := hids _ mem_cons_self (Subtype.ext hsame)
      rw [hdrop, hmaterial, elsStream_elsStream]
    next hother =>
    have hne : first ≠ client := by
      rintro rfl
      exact hother rfl
    exact ih ((mem_cons.mp hmem).resolve_left hne.symm)
      fun other hlisted => hids _ (mem_cons_of_mem _ hlisted)

end Layers

section Evaluate

variable {α β : Type} {src rest : Bytes}

variable {leases : List Lease2} {cursor : Cursor α} {value : α} {unsigned : Bytes}

theorem run_bind_of_ok {next : α → Cursor β}
    (h : cursor.run src = .ok (value, rest)) : (cursor >>= next).run src = (next value).run rest := by
  rw [StateT.run_bind, h]
  rfl

theorem run_bind_readBytes {n : Nat} {field : Bytes} {next : Bytes → Cursor β}
    (h : field.length = n) (rest : Bytes) :
    (Cursor.readBytes n >>= next).run (field ++ rest) = (next field).run rest :=
  run_bind_of_ok (readBytes_eq_ok.mpr ⟨rfl, h⟩)

theorem parseEncryptedLeaseSet_written {blinded : FixedBytes 32} {published : UInt32}
    {expires : UInt16} {data : Bytes} {signature : FixedBytes 64}
    (hunsigned : unsigned = natBE 2 SigningKeyType.redDSASHA512Ed25519.code.toNat ++
      (blinded.val ++ (natBE 4 published.toNat ++ (natBE 2 expires.toNat ++ (natBE 2 0 ++
        (natBE 2 data.length ++ data))))))
    (hlength : data.length ≤ 0xffff) (hmin : minEncryptedLeaseSetDataBytes ≤ data.length) :
    parseEncryptedLeaseSet (unsigned ++ signature.val) =
      if (unsigned ++ signature.val).length > maxLeaseSetBytes then .error .structureTooLarge
      else if data.length > maxEncryptedLeaseSetDataBytes then .error .malformed
      else .ok ⟨.redDSASHA512Ed25519, blinded.val, published, expires, 0, none, data,
        signature.val, unsigned, unsigned ++ signature.val⟩ := by
  have hword := UInt16.toNat_ofNat_of_lt' (show data.length < 65536 by omega)
  have htype : readU16.run (unsigned ++ signature.val) =
      .ok (SigningKeyType.redDSASHA512Ed25519.code, blinded.val ++ (natBE 4 published.toNat ++
        (natBE 2 expires.toNat ++ (natBE 2 (0 : UInt16).toNat ++
          (natBE 2 (UInt16.ofNat data.length).toNat ++ (data ++ signature.val)))))) := by
    rw [hunsigned, hword]
    simp only [append_assoc]
    rfl
  unfold parseEncryptedLeaseSet
  congr 1
  rw [htype]
  change finishParse ((readEncryptedLeaseSet (unsigned ++ signature.val)
    .redDSASHA512Ed25519).run _) = _
  unfold readEncryptedLeaseSet readOptionalOffline
  have hkey : blinded.val.length = SigningKeyType.redDSASHA512Ed25519.publicKeyLen :=
    blinded.property
  have hsignature : signature.val.length = SigningKeyType.redDSASHA512Ed25519.signatureLen :=
    signature.property
  rw [run_bind_readBytes hkey,
    run_bind_of_ok (readU32_eq_ok.mpr rfl), run_bind_of_ok (readU16_eq_ok.mpr rfl),
    run_bind_of_ok (readU16_eq_ok.mpr rfl), if_pos (by decide),
    run_bind_of_ok (pure_eq_ok.mpr ⟨rfl, rfl⟩),
    run_bind_of_ok (readU16_eq_ok.mpr rfl), hword]
  by_cases hlong : data.length > maxEncryptedLeaseSetDataBytes
  · rw [if_pos (Or.inr hlong), if_pos hlong]
    rfl
  have hfits := not_or.mpr ⟨not_lt.mpr hmin, hlong⟩
  rw [if_neg hfits, if_neg hlong, run_bind_readBytes rfl, run_bind_of_ok (get_eq_ok.mpr ⟨rfl, rfl⟩)]
  dsimp only [map_none, getD_none]
  rw [run_bind_of_ok (readBytes_eq_ok.mpr ⟨(append_nil _).symm, hsignature⟩),
    finishParse_eq_ok.mpr (pure_eq_ok.mpr ⟨rfl, rfl⟩), length_append,
    Nat.add_sub_cancel, take_left]

theorem withBytes_of_ok {bytes : Bytes} (h : cursor.run (bytes ++ rest) = .ok (value, rest)) :
    cursor.withBytes.run (bytes ++ rest) = .ok ((value, bytes), rest) := by
  rw [withBytes_eq_ok, length_append, Nat.add_sub_cancel, take_left]
  exact ⟨h, rfl⟩

def localKeyBytes (publicKey : FixedBytes 32) (kind : LocalCryptoType) : Bytes :=
  natBE 2 kind.code.toNat ++ natBE 2 32 ++ publicKey.val

theorem nextKey_written (publicKey : FixedBytes 32) (kind : LocalCryptoType) (rest : Bytes) :
    nextKey.run (localKeyBytes publicKey kind ++ rest) = .ok (⟨kind.code, publicKey.val⟩, rest) := by
  have hsrc : localKeyBytes publicKey kind ++ rest =
      natBE 2 kind.code.toNat ++ (natBE 2 (32 : UInt16).toNat ++ (publicKey.val ++ rest)) := by
    rfl
  have hkind : uint16At (localKeyBytes publicKey kind ++ rest) 0 = kind.code := by
    rw [hsrc, uint16At_append]
  have hlength : uint16At (localKeyBytes publicKey kind ++ rest) 2 = 32 := by
    rw [hsrc, uint16At_skip (natBE_length _ _) _ _ le_rfl, uint16At_append]
  have hkey : (localKeyBytes publicKey kind ++ rest).drop 4 = publicKey.val ++ rest := by
    rw [hsrc, ← append_assoc]
    exact drop_left' (by rw [length_append, natBE_length, natBE_length])
  have htotal : (localKeyBytes publicKey kind ++ rest).length = 36 + rest.length := by
    simp only [localKeyBytes, length_append, natBE_length, length_val]
  change nextKey _ = _
  unfold nextKey
  dsimp only
  rw [hkind, hlength, htotal, hkey, if_neg (by omega)]
  have hafter : (localKeyBytes publicKey kind ++ rest).drop (4 + (32 : UInt16).toNat) = rest := by
    rw [← drop_drop]
    exact drop_left' publicKey.property
  have hvalue : (publicKey.val ++ rest).take (32 : UInt16).toNat = publicKey.val :=
    take_left' publicKey.property
  rw [hafter, hvalue, if_neg (by cases kind <;> decide), if_neg]
  · rw [if_neg (by cases kind <;> decide)]
  · change ¬32 > 36 + rest.length - 4
    omega

theorem readKeys_written (publicKey : FixedBytes 32) (kinds : List LocalCryptoType) (rest : Bytes) :
    (readKeys kinds.length).run (kinds.flatMap (localKeyBytes publicKey) ++ rest) =
      .ok (kinds.map fun kind => ⟨kind.code, publicKey.val⟩, rest) := by
  induction kinds with
  | nil => rfl
  | cons kind kinds ih =>
    rw [flatMap_cons, append_assoc]
    exact bind_eq_ok.mpr ⟨_, _, nextKey_written _ _ _,
      bind_eq_ok.mpr ⟨_, _, ih, pure_eq_ok.mpr ⟨rfl, rfl⟩⟩⟩

theorem leaseBytes_length (lease : Lease2) : (LocalLeaseSet2.leaseBytes lease).length = 40 := by
  simp only [leaseBytes, length_append, natBE_length, length_val]

theorem parseLease2_written {lease : Lease2} (h : lease.tunnelID ≠ 0) (rest : Bytes) :
    parseLease2 (LocalLeaseSet2.leaseBytes lease ++ rest) = .ok lease := by
  have hsrc : leaseBytes lease ++ rest = lease.gateway.val ++
      (natBE 4 lease.tunnelID.toNat ++ (natBE 4 lease.endDate.toNat ++ rest)) := by
    simp only [leaseBytes, append_assoc]
  unfold parseLease2
  have hlength : ¬(leaseBytes lease ++ rest).length < 40 := by
    rw [length_append, leaseBytes_length]
    omega
  rw [if_neg hlength, hsrc, uint32At_skip lease.gateway.property _ _ le_rfl,
    uint32At_skip lease.gateway.property _ _ (by omega), arrayAt_append, uint32At_append, if_neg h, uint32At_skip (natBE_length _ _) _ _ (by omega), uint32At_append]

theorem flatMap_leaseBytes_length (leases : List Lease2) :
    (leases.flatMap LocalLeaseSet2.leaseBytes).length = leases.length * 40 := by
  rw [length_flatMap, map_congr_left fun lease _ => leaseBytes_length _,
    map_const', sum_replicate, smul_eq_mul]

theorem drain_written (h : ∀ lease ∈ leases, lease.tunnelID ≠ 0) :
    Cursor.drain 40 parseLease2 leases.length (leases.flatMap LocalLeaseSet2.leaseBytes) =
      .ok leases := by
  induction leases with
  | nil => rfl
  | cons lease leases ih =>
    obtain ⟨hlease, hrest⟩ := forall_mem_cons.mp h
    rw [flatMap_cons, length_cons]
    have hne : leaseBytes lease ++ leases.flatMap leaseBytes ≠ [] :=
      fun hnil => by
        have := congrArg length hnil
        rw [length_append, leaseBytes_length, length_nil] at this
        omega
    have hdrop : (leaseBytes lease ++ leases.flatMap leaseBytes).drop 40 =
        leases.flatMap leaseBytes := drop_left' (leaseBytes_length _)
    have hparse := parseLease2_written hlease (leases.flatMap leaseBytes)
    cases hblock : leaseBytes lease ++ leases.flatMap leaseBytes with
    | nil => exact absurd hblock hne
    | cons byte left =>
      rw [hblock] at hdrop hparse
      rw [drain, hparse, hdrop, ih hrest]
      rfl

theorem readLeases_written (h : ∀ lease ∈ leases, lease.tunnelID ≠ 0) (rest : Bytes) :
    (Cursor.readRecords leases.length 40 parseLease2).run
      (leases.flatMap LocalLeaseSet2.leaseBytes ++ rest) = .ok (leases, rest) :=
  (readRecords_eq_ok (by decide) parseLease2_take).mpr
    ⟨_, rfl, flatMap_leaseBytes_length _, drain_written h⟩

theorem parseLeaseSet2_written {set : LocalLeaseSet2} {published : UInt32} {expires : UInt64}
    {signature : Bytes}
    (hunsigned : unsigned = set.identity.raw ++ (natBE 4 published.toNat ++
      set.bodyBytes expires ⟨0, [], set.identity.signingType⟩ set.leases))
    (hexpires : expires.toNat < 65536) (htypes : set.types.length ≤ 255)
    (hcount : set.leases.length ≤ maxLeases) (hsome : set.leases.length ≠ 0)
    (hleases : ∀ lease ∈ set.leases, lease.tunnelID ≠ 0)
    (hsignature : signature.length = set.identity.signingType.signatureLen)
    (htotal : (unsigned ++ signature).length ≤ maxLeaseSetBytes) :
    ∃ parsed, parseLeaseSet2 (unsigned ++ signature) = .ok parsed ∧
      parsed.header = ⟨set.identity, published, UInt16.ofNat expires.toNat, 0, none⟩ ∧
      parsed.leases = set.leases ∧ parsed.unsigned = unsigned ∧ parsed.signature = signature := by
  have hword := UInt16.toNat_ofNat_of_lt' hexpires
  have hkeyCount := UInt8.toNat_ofNat_of_lt' (show set.types.length < 256 by omega)
  have hleaseCount :=
    UInt8.toNat_ofNat_of_lt' (show set.leases.length < 256 by unfold maxLeases at hcount; omega)
  have hkeysPos : set.types.length ≠ 0 := fun hzero =>
    set.distinct.1 (eq_nil_of_length_eq_zero hzero)
  have hsrc : unsigned ++ signature = set.identity.raw ++ (natBE 4 published.toNat ++
      (natBE 2 (UInt16.ofNat expires.toNat).toNat ++ (natBE 2 (0 : UInt16).toNat ++
        ([0, 0] ++ (UInt8.ofNat set.types.length ::
          (set.types.flatMap (localKeyBytes set.publicKey) ++ (UInt8.ofNat set.leases.length ::
            (set.leases.flatMap leaseBytes ++ signature)))))))) := by
    rw [hunsigned, hword, bodyBytes]
    simp only [append_assoc, cons_append, nil_append]
    rfl
  have hheader : parseLeaseSet2Header (unsigned ++ signature) =
      .ok (⟨set.identity, published, UInt16.ofNat expires.toNat, 0, none⟩,
        [0, 0] ++ (UInt8.ofNat set.types.length ::
          (set.types.flatMap (localKeyBytes set.publicKey) ++ (UInt8.ofNat set.leases.length ::
            (set.leases.flatMap leaseBytes ++ signature))))) := by
    unfold parseLeaseSet2Header
    rw [hsrc, parseIdentity_append set.parses]
    dsimp only
    rw [drop_left' rfl]
    unfold readHeaderFields
    rw [run_bind_of_ok (readU32_eq_ok.mpr rfl), run_bind_of_ok (readU16_eq_ok.mpr rfl),
      run_bind_of_ok (readU16_eq_ok.mpr rfl)]
    rfl
  have hkeys := withBytes_of_ok (readKeys_written set.publicKey set.types
    (UInt8.ofNat set.leases.length :: (set.leases.flatMap leaseBytes ++ signature)))
  have hrecords := withBytes_of_ok (readLeases_written hleases signature)
  have hsigned : signature.length = (LeaseSet2Header.signingType
      ⟨set.identity, published, UInt16.ofNat expires.toNat, 0, none⟩).signatureLen := hsignature
  unfold parseLeaseSet2
  rw [if_neg (not_lt.mpr htotal), hheader]
  dsimp only
  unfold readLeaseSet2
  rw [run_bind_of_ok (@takes_readMapping ⟨[0, 0]⟩ [] rfl rfl rfl _), run_bind_of_ok (readU8_eq_ok.mpr rfl), if_neg
    (by rw [← UInt8.toNat_inj, hkeyCount]; exact hkeysPos), hkeyCount, run_bind_of_ok hkeys]
  rw [run_bind_of_ok (readU8_eq_ok.mpr rfl), if_neg (by
      rw [← UInt8.toNat_inj, hleaseCount]
      exact not_or.mpr ⟨hsome, not_lt.mpr hcount⟩), hleaseCount, run_bind_of_ok hrecords]
  rw [run_bind_of_ok (get_eq_ok.mpr ⟨rfl, rfl⟩),
    run_bind_of_ok (readBytes_eq_ok.mpr ⟨(append_nil _).symm, hsigned⟩)]
  refine ⟨_, rfl, rfl, rfl, ?_, rfl⟩
  rw [length_append, Nat.add_sub_cancel, take_left]

theorem marshalTo_online {set : LocalLeaseSet2} (honline : set.offline = none) {space : Nat}
    {nowMillis : UInt64} {sign : Bytes → Option Bytes} {payload : Bytes}
    (h : set.marshalTo space nowMillis sign = .ok payload) :
    ∃ expires signature unsigned,
      payload = unsigned ++ signature ∧
      unsigned = set.identity.raw ++ (natBE 4 (nowMillis / 1000).toUInt32.toNat ++
        set.bodyBytes expires ⟨0, [], set.identity.signingType⟩ set.leases) ∧
      sign (3 :: unsigned) = some signature ∧
      signature.length = set.identity.signingType.signatureLen ∧
      payload.length ≤ space ∧
      expires = ((set.leases.map Lease2.endDate).foldl max 0).toUInt64 - nowMillis / 1000 ∧
      expires ≠ 0 ∧ expires.toNat < 65536 ∧ nowMillis / 1000 ≤ 0xffffffff ∧
      set.types.length ≤ 255 ∧ set.leases.length ≤ maxLeases ∧ set.leases.length ≠ 0 ∧
      ∀ lease ∈ set.leases, lease.tunnelID ≠ 0 ∧ (nowMillis / 1000).toUInt32 < lease.endDate := by
  have hclip : set.leases.map (clipLease none) = set.leases := by exact map_id _
  obtain ⟨hcount, hseconds, fields, signature, hfields, hleases, hlifetime, htypes, hspace, hsign,
    hlength, rfl⟩ := marshalTo_eq_ok_iff.mp h
  rw [offlineFields, honline] at hfields
  obtain rfl := some.inj hfields
  unfold unsignedBytes lifetime at *
  rw [honline, hclip] at *
  refine ⟨_, signature, _, rfl, rfl, hsign, hlength, ?_, rfl, hlifetime.1, ?_, hseconds, htypes,
    hcount.2, hcount.1, hleases⟩
  · rw [length_append, hlength]
    exact hspace
  · exact Nat.lt_succ_of_le (UInt64.le_iff_toNat_le.mp hlifetime.2)

end Evaluate

section Authorization

variable {hashes : BlindingHashes} {primitives : ElsPrimitives}

theorem authorization_layout {count : Nat} (hcount : count ≤ 0xffff) (flags : UInt8)
    (header : FixedBytes 32) (entries inner : Bytes) :
    flags :: (header.val ++ natBE 2 count ++ entries) ++ inner =
      [flags] ++ (header.val ++ (natBE 2 (UInt16.ofNat count).toNat ++ (entries ++ inner))) := by
  rw [UInt16.toNat_ofNat_of_lt' (show count < 65536 by omega)]
  simp only [append_assoc, cons_append, nil_append]

theorem openAuthorization_written {header : FixedBytes 32} {flags : UInt8}
    {derive : FixedBytes 32 → Except ElsError ElsClientMaterial} {bytes entries inner : Bytes}
    (hbytes : bytes = flags :: (header.val ++ natBE 2 clients.length ++ entries))
    (hentries : entries = clients.flatMap fun other =>
      clientEntry primitives (materialOf other) authCookie)
    (hderive : derive header = .ok (materialOf client)) (hmem : client ∈ clients)
    (hids : ∀ other ∈ clients, (materialOf other).id = (materialOf client).id →
      materialOf other = materialOf client) (hcount : clients.length ≤ 0xffff) :
    openAuthorization primitives true (bytes ++ inner) derive =
      .ok (authCookie.val, bytes.length) ∧ bytes.length = 35 + 40 * clients.length := by
  obtain ⟨src, hsrc⟩ : ∃ src, src = bytes ++ inner := ⟨_, rfl⟩
  have hlayout : src = [flags] ++ (header.val ++ (natBE 2 (UInt16.ofNat clients.length).toNat ++
      (entries ++ inner))) := by
    rw [hsrc, hbytes]
    exact authorization_layout hcount _ header _ _
  have hword := UInt16.toNat_ofNat_of_lt' (show clients.length < 65536 by omega)
  have hsize : entries.length = 40 * clients.length := by
    rw [hentries, length_flatMap, map_congr_left fun other _ => clientEntry_length _ _,
      map_const', sum_replicate, smul_eq_mul, Nat.mul_comm]
  have hlength : bytes.length = 35 + 40 * clients.length := by
    rw [hbytes]
    simp only [length_cons, length_append, hsize, natBE_length, length_val]
    omega
  have hcountAt : uint16At src 33 = UInt16.ofNat clients.length := by
    rw [hlayout, uint16At_skip (show [flags].length = 1 from rfl) _ _ (by omega),
      uint16At_skip header.property _ _ (by omega)]
    exact uint16At_append _ _
  have hheaderAt : arrayAt 32 src 1 = header := by
    rw [hlayout]
    exact arrayAt_append _ _
  have hdrop : src.drop 35 = entries ++ inner := by
    rw [hlayout, drop_skip (show [flags].length = 1 from rfl) _ _ (by omega),
      drop_skip header.property _ _ (by omega)]
    rfl
  have hlong : 35 + 40 * clients.length ≤ src.length := by
    rw [hsrc, length_append, hlength]
    exact Nat.le_add_right _ _
  have hpos : clients.length ≠ 0 := fun hzero => by
    rw [eq_nil_of_length_eq_zero hzero] at hmem
    cases hmem
  refine ⟨?_, hlength⟩
  rw [← hsrc, hlength]
  unfold openAuthorization
  rw [if_neg (by rw [Bool.true_eq_false, false_or]; omega)]
  rw [hcountAt, hword, if_neg (by omega), hheaderAt, hderive, hdrop, hentries]
  refine bind_eq_ok.mpr ⟨_, rfl, ?_⟩
  rw [findCookie_flatMap hmem hids]

namespace LocalEncryptedLeaseSet

variable {set : LocalEncryptedLeaseSet} {random : ElsRandom} {subcredential : FixedBytes 32}
  {published : UInt32} {authorization : ElsClientAuthorization} {bytes : Bytes}

def material (set : LocalEncryptedLeaseSet) (hashes : BlindingHashes) (primitives : ElsPrimitives)
    (random : ElsRandom) (subcredential : FixedBytes 32) (published : UInt32)
    (client : FixedBytes 32) : Option ElsClientMaterial :=
  if set.dhClients ≠ [] then
    (primitives.x25519 random.ephemeral client).map fun shared =>
      dhMaterial hashes shared client subcredential
        (primitives.x25519Public random.ephemeral).val published
  else some (pskMaterial hashes client subcredential random.ephemeral.val published)

/-- No two listed clients have the same identifier. -/
def DistinctIds (set : LocalEncryptedLeaseSet) (hashes : BlindingHashes)
    (primitives : ElsPrimitives) (random : ElsRandom) (subcredential : FixedBytes 32)
    (published : UInt32) : Prop :=
  ∀ client ∈ set.dhClients ++ set.pskClients, ∀ other ∈ set.dhClients ++ set.pskClients,
    client ≠ other →
      ∀ own ∈ set.material hashes primitives random subcredential published client,
        ∀ others ∈ set.material hashes primitives random subcredential published other,
          own.id ≠ others.id

/-- The credential is one of a listed client, if there are any. -/
structure Authorizes (set : LocalEncryptedLeaseSet) (primitives : ElsPrimitives)
    (authorization : ElsClientAuthorization) : Prop where
  dh : set.dhClients ≠ [] → authorization.useDH = true ∧
    authorization.dhPublic = primitives.x25519Public authorization.dhPrivate ∧
    authorization.dhPublic ∈ set.dhClients
  psk : set.pskClients ≠ [] → authorization.usePSK = true ∧ authorization.psk ∈ set.pskClients

/-- How long the part of the outer layer is that says who may open the inner one. -/
def authorizationLength (set : LocalEncryptedLeaseSet) : Nat :=
  if set.dhClients = [] ∧ set.pskClients = [] then 1
  else 35 + 40 * (set.dhClients.length + set.pskClients.length)

theorem mapM_orError {entryOf : FixedBytes 32 → FixedBytes 32 → Bytes} {error : ElsError}
    {exchange : FixedBytes 32 → Option (FixedBytes 32)} {clients : List (FixedBytes 32)}
    {entries : List Bytes}
    (h : (clients.mapM fun client => do
      let shared ← orError error (exchange client)
      return entryOf shared client) = .ok entries) :
    (∀ client ∈ clients, (exchange client).isSome) ∧
      entries.flatten = clients.flatMap fun client =>
        entryOf ((exchange client).getD (FixedBytes.zero 32)) client := by
  induction clients generalizing entries with
  | nil =>
    cases h
    exact ⟨forall_mem_nil _, rfl⟩
  | cons client clients ih =>
    rw [mapM_cons] at h
    cases hexchange : exchange client with
    | none =>
      rw [hexchange] at h
      cases h
    | some shared =>
      rw [hexchange] at h
      cases hrest : clients.mapM fun client => do
          let shared ← orError error (exchange client)
          return entryOf shared client with
      | error failure =>
        rw [hrest] at h
        cases h
      | ok others =>
        rw [hrest] at h
        cases h
        obtain ⟨hall, hflatten⟩ := ih hrest
        refine ⟨forall_mem_cons.mpr ⟨by rw [hexchange]; rfl, hall⟩, ?_⟩
        rw [flatten_cons, flatMap_cons, hflatten, hexchange]
        rfl

/-- The material of a client tells it apart from the other clients. -/
theorem DistinctIds.material_eq
    (hids : set.DistinctIds hashes primitives random subcredential published)
    {client other : FixedBytes 32} {own others : ElsClientMaterial}
    (hclient : client ∈ set.dhClients ++ set.pskClients)
    (hother : other ∈ set.dhClients ++ set.pskClients)
    (hown : set.material hashes primitives random subcredential published client = some own)
    (hothers : set.material hashes primitives random subcredential published other = some others)
    (hid : others.id = own.id) : others = own := by
  by_cases hsame : client = other
  · subst hsame
    exact some_inj.mp (hothers.symm.trans hown)
  · exact absurd hid.symm (hids _ hclient _ hother hsame _ hown _ hothers)

theorem openAuthorization_dh
    (hexchange : ∀ own other, primitives.x25519 own (primitives.x25519Public other) =
      primitives.x25519 other (primitives.x25519Public own))
    (hids : set.DistinctIds hashes primitives random subcredential published)
    (hdh : set.dhClients ≠ [])
    (hpublic : authorization.dhPublic = primitives.x25519Public authorization.dhPrivate)
    (hmem : authorization.dhPublic ∈ set.dhClients) {entries : List Bytes}
    (hmap : (set.dhClients.mapM fun client => do
        let shared ← orError ElsError.keyExchange (primitives.x25519 random.ephemeral client)
        return clientEntry primitives (dhMaterial hashes shared client subcredential
          (primitives.x25519Public random.ephemeral).val published) random.authCookie) =
        .ok entries)
    (hbytes : bytes = 1 :: ((primitives.x25519Public random.ephemeral).val ++
      natBE 2 set.dhClients.length ++ entries.flatten)) (inner : Bytes) :
    openAuthorization primitives true (bytes ++ inner) (fun ephemeral => do
        let shared ← orError .authorization (primitives.x25519 authorization.dhPrivate ephemeral)
        return dhMaterial hashes shared authorization.dhPublic subcredential ephemeral.val
          published) = .ok (random.authCookie.val, bytes.length) ∧
      bytes.length = 35 + 40 * set.dhClients.length := by
  obtain ⟨hshared, hflatten⟩ := @mapM_orError (fun shared client =>
    clientEntry primitives (dhMaterial hashes shared client subcredential
      (primitives.x25519Public random.ephemeral).val published) random.authCookie) _ _ _ _ hmap
  have hmaterial : ∀ client ∈ set.dhClients,
      set.material hashes primitives random subcredential published client =
        some (dhMaterial hashes ((primitives.x25519 random.ephemeral client).getD
          (zero 32)) client subcredential
          (primitives.x25519Public random.ephemeral).val published) := by
    intro client hclient
    obtain ⟨shared, hsome⟩ := isSome_iff_exists.mp (hshared _ hclient)
    rw [material, if_pos hdh, hsome]
    rfl
  apply openAuthorization_written hbytes hflatten _ hmem _ (Nat.le_of_add_right_le set.few.1)
  · obtain ⟨shared, hsome⟩ := isSome_iff_exists.mp (hshared _ hmem)
    rw [hexchange, ← hpublic, hsome]
    rfl
  · intro other hother
    exact hids.material_eq (mem_append_left _ hmem) (mem_append_left _ hother)
      (hmaterial _ hmem) (hmaterial _ hother)

theorem openAuthorization_psk
    (hids : set.DistinctIds hashes primitives random subcredential published)
    (hdh : set.dhClients = []) (hmem : authorization.psk ∈ set.pskClients)
    (hbytes : bytes = 3 :: (random.ephemeral.val ++ natBE 2 set.pskClients.length ++
      set.pskClients.flatMap fun client => clientEntry primitives
        (pskMaterial hashes client subcredential random.ephemeral.val published)
        random.authCookie)) (inner : Bytes) :
    openAuthorization primitives true (bytes ++ inner) (fun salt =>
        .ok (pskMaterial hashes authorization.psk subcredential salt.val published)) =
        .ok (random.authCookie.val, bytes.length) ∧
      bytes.length = 35 + 40 * set.pskClients.length := by
  have hmaterial : ∀ client,
      set.material hashes primitives random subcredential published client =
        some (pskMaterial hashes client subcredential random.ephemeral.val published) := by
    intro client
    rw [material, if_neg (not_not.mpr hdh)]
  apply openAuthorization_written hbytes rfl rfl hmem _ (Nat.le_of_add_left_le set.few.1)
  intro other hother
  exact hids.material_eq (mem_append_right _ hmem) (mem_append_right _ hother)
    (hmaterial _) (hmaterial _)

theorem authCookieOf_written
    (hexchange : ∀ own other, primitives.x25519 own (primitives.x25519Public other) =
      primitives.x25519 other (primitives.x25519Public own))
    (hauthorizes : set.Authorizes primitives authorization)
    (hids : set.DistinctIds hashes primitives random subcredential published)
    (h : set.authorizationBytes hashes primitives subcredential published random = .ok bytes)
    (inner : Bytes) :
    authCookieOf hashes primitives authorization subcredential published (bytes ++ inner) =
      .ok (if bytes.head? = some 0 then [] else random.authCookie.val, bytes.length) ∧
      bytes.length = set.authorizationLength := by
  unfold authorizationBytes at h
  unfold authorizationLength
  split at h
  next hnone =>
    cases h
    rw [if_pos hnone]
    exact ⟨rfl, rfl⟩
  next hsome =>
  rw [if_neg hsome]
  split at h
  next hdh =>
    have hpsk := set.exclusive.resolve_left hdh
    obtain ⟨huse, hpublic, hmem⟩ := hauthorizes.dh hdh
    obtain ⟨entries, hmap, hbytes⟩ := bind_eq_ok.mp h
    cases hbytes
    rw [hpsk]
    have hopen := openAuthorization_dh hexchange hids hdh hpublic hmem hmap rfl inner
    rw [← huse] at hopen
    exact hopen
  next hdh =>
    have hdhNil := not_ne_iff.mp hdh
    obtain ⟨huse, hmem⟩ := hauthorizes.psk fun hnil => hsome ⟨hdhNil, hnil⟩
    cases h
    rw [hdhNil, length_nil, Nat.zero_add]
    have hopen := openAuthorization_psk hids hdhNil hmem rfl inner
    rw [← huse] at hopen
    exact hopen

end LocalEncryptedLeaseSet

end Authorization

end Ivnp.NetDb
