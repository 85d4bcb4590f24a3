import Ivnp.NetDb.EncryptedLayers

/-!
Opening an encrypted lease set. A client that is authorised gets back the signed lease set of
the destination, unless the encrypted data is longer than a reader accepts or one of the
leases has ended: the set is announced until the last lease ends, but a reader refuses it as
soon as the first one has.
-/

namespace Ivnp.NetDb

open Ivnp.Lib Ivnp.Foundation List FixedBytes UInt32

theorem orError_eq_ok {α : Type} {error : ElsError} {first : Option α} {value : α} :
    orError error first = .ok value ↔ first = some value := by
  cases first with
  | none => exact ⟨nofun, nofun⟩
  | some other =>
    constructor
    · rintro ⟨⟩
      rfl
    · rintro ⟨⟩
      rfl

namespace LocalEncryptedLeaseSet

variable {Point : Type} [AddCommGroup Point] {curve : EdwardsCurve Point}
  {hashes : BlindingHashes} {primitives : ElsPrimitives} {set : LocalEncryptedLeaseSet}
  {space : Nat} {nowMillis : UInt64} {random : ElsRandom} {bytes : Bytes}

def latest (set : LocalEncryptedLeaseSet) : UInt32 :=
  (set.inner.leases.map Lease2.endDate).foldl max 0

def subcredential (set : LocalEncryptedLeaseSet) (curve : EdwardsCurve Point)
    (hashes : BlindingHashes) (published : UInt32) : Option (FixedBytes 32) := do
  let (_, blinded) ← set.keys.encryptedLeaseSetBlinding curve hashes published.toNat set.secret
  encryptedLeaseSetSubcredential hashes set.inner.identity.signingType set.keys.signingPublic
    blinded.val

def outerData (hashes : BlindingHashes) (primitives : ElsPrimitives) (random : ElsRandom)
    (subcredential : FixedBytes 32) (published : UInt32) (authorization payload : Bytes) : Bytes :=
  elsEncrypt hashes primitives
    (authorization ++ elsEncrypt hashes primitives (3 :: payload)
      ((if authorization.head? = some 0 then [] else random.authCookie.val) ++
        subcredential.val ++ natBE 4 published.toNat) "ELS2_L2K" random.innerSalt)
    (subcredential.val ++ natBE 4 published.toNat) "ELS2_L1K" random.outerSalt

theorem outerData_length (subcredential : FixedBytes 32) (published : UInt32)
    (authorization payload : Bytes) :
    (outerData hashes primitives random subcredential published authorization payload).length =
      authorization.length + payload.length + 65 := by
  rw [outerData, elsEncrypt_length, length_append, elsEncrypt_length, length_cons]
  omega

/-- The outer set up to its signature. -/
def outerUnsigned (blinded : FixedBytes 32) (published : UInt32) (expires : Nat) (data : Bytes) :
    Bytes :=
  natBE 2 SigningKeyType.redDSASHA512Ed25519.code.toNat ++ (blinded.val ++
    (natBE 4 published.toNat ++ (natBE 2 expires ++ (natBE 2 0 ++
      (natBE 2 data.length ++ data)))))

theorem outerUnsigned_length (blinded : FixedBytes 32) (published : UInt32) (expires : Nat)
    (data : Bytes) : (outerUnsigned blinded published expires data).length = 44 + data.length := by
  simp only [outerUnsigned, length_append, natBE_length, length_val]
  omega

section Outer

variable {blinded privateKey : FixedBytes 32} {published : UInt32} {data : Bytes}

theorem finishOuter_eq :
    set.finishOuter primitives space blinded privateKey published data =
      if set.latest ≤ published ∨ set.latest.toNat - published.toNat > 0xffff then
        .error .encryptedLeaseSet
      else if space < (outerUnsigned blinded published (set.latest.toNat - published.toNat)
          data).length + 64 then .error .destinationSmall
      else do
        let signature ← orError .signingKey (primitives.red25519Sign privateKey
          (5 :: outerUnsigned blinded published (set.latest.toNat - published.toNat) data))
        return outerUnsigned blinded published (set.latest.toNat - published.toNat) data ++
          signature.val :=
  rfl

theorem finishOuter_eq_ok
    (h : set.finishOuter primitives space blinded privateKey published data = .ok bytes) :
    published < set.latest ∧ set.latest.toNat - published.toNat ≤ 0xffff ∧
      ∃ signature, bytes = outerUnsigned blinded published
          (set.latest.toNat - published.toNat) data ++ signature.val ∧
        primitives.red25519Sign privateKey (5 :: outerUnsigned blinded published
          (set.latest.toNat - published.toNat) data) = some signature := by
  rw [finishOuter_eq] at h
  split at h
  · cases h
  next hexpires =>
  rw [not_or] at hexpires
  split at h
  · cases h
  obtain ⟨signature, hsignature, hbytes⟩ := bind_eq_ok.mp h
  cases hbytes
  exact ⟨UInt32.not_le.mp hexpires.1, not_lt.mp hexpires.2, signature, rfl,
    orError_eq_ok.mp hsignature⟩

theorem finishOuter_isOk (hlatest : published < set.latest)
    (hword : set.latest.toNat - published.toNat ≤ 0xffff) (hspace : 108 + data.length ≤ space)
    (hsign : ∀ message, (primitives.red25519Sign privateKey message).isSome) :
    ∃ bytes, set.finishOuter primitives space blinded privateKey published data = .ok bytes := by
  obtain ⟨signature, hsignature⟩ := Option.isSome_iff_exists.mp (hsign
    (5 :: outerUnsigned blinded published (set.latest.toNat - published.toNat) data))
  rw [finishOuter_eq, if_neg (not_or.mpr ⟨UInt32.not_le.mpr hlatest, not_lt.mpr hword⟩),
    if_neg (by rw [outerUnsigned_length]; omega), bind_of_ok (orError_eq_ok.mpr hsignature)]
  exact ⟨_, rfl⟩

end Outer

theorem marshalTo_eq_ok :
    set.marshalTo curve hashes primitives space nowMillis random = .ok bytes ↔
    nowMillis / 1000 ≤ 0xffffffff ∧ ∃ payload privateKey blinded subcredential authorization,
      set.inner.marshalTo maxLeaseSetBytes nowMillis (set.sign primitives) = .ok payload ∧
      set.keys.encryptedLeaseSetBlinding curve hashes (nowMillis / 1000).toUInt32.toNat
        set.secret = some (privateKey, blinded) ∧
      encryptedLeaseSetSubcredential hashes set.inner.identity.signingType
        set.keys.signingPublic blinded.val = some subcredential ∧
      set.authorizationBytes hashes primitives subcredential (nowMillis / 1000).toUInt32
        random = .ok authorization ∧
      (outerData hashes primitives random subcredential (nowMillis / 1000).toUInt32
        authorization payload).length ≤ 0xffff ∧
      set.finishOuter primitives space blinded privateKey (nowMillis / 1000).toUInt32
        (outerData hashes primitives random subcredential (nowMillis / 1000).toUInt32
          authorization payload) = .ok bytes := by
  unfold marshalTo
  constructor
  · intro h
    split at h
    · cases h
    obtain ⟨payload, hpayload, h⟩ := bind_eq_ok.mp h
    obtain ⟨⟨privateKey, blinded⟩, hblinding, h⟩ := bind_eq_ok.mp h
    obtain ⟨subcredential, hsubcredential, h⟩ := bind_eq_ok.mp h
    obtain ⟨authorization, hauthorization, h⟩ := bind_eq_ok.mp h
    change (if (outerData hashes primitives random subcredential (nowMillis / 1000).toUInt32
      authorization payload).length > 0xffff then _ else _) = _ at h
    split at h
    · cases h
    next hlength =>
    exact ⟨UInt64.not_lt.mp ‹_›, payload, privateKey, blinded, subcredential, authorization,
      mapError_eq_ok.mp hpayload, orError_eq_ok.mp hblinding, orError_eq_ok.mp hsubcredential,
      hauthorization, not_lt.mp hlength, h⟩
  · rintro ⟨hseconds, payload, privateKey, blinded, subcredential, authorization, hpayload,
      hblinding, hsubcredential, hauthorization, hlength, h⟩
    rw [if_neg (UInt64.not_lt.mpr hseconds), bind_of_ok (mapError_eq_ok.mpr hpayload),
      bind_of_ok (orError_eq_ok.mpr hblinding)]
    dsimp only
    rw [bind_of_ok (orError_eq_ok.mpr hsubcredential), bind_of_ok hauthorization]
    exact (if_neg (not_lt.mpr hlength)).trans h

variable {credential : FixedBytes 32}

section Red25519

variable {scalar : Scalar} {crypto : NetDbCrypto} {published : UInt32}

/-- What is assumed about the key exchange and the signatures. -/
structure Sound (curve : EdwardsCurve Point) (primitives : ElsPrimitives) (crypto : NetDbCrypto) :
    Prop where
  exchange : ∀ own other, primitives.x25519 own (primitives.x25519Public other) =
    primitives.x25519 other (primitives.x25519Public own)
  verifies : ∀ (scalar : Scalar) (message : Bytes) (signature : FixedBytes 64),
    primitives.red25519Sign scalar.bytes message = some signature →
      crypto.verify .redDSASHA512Ed25519 (curve.bytes (curve.scalarBaseMult scalar)).val message
        signature.val = .ok true

variable {signature : FixedBytes 64}

theorem Sound.verifySignature (hsound : Sound curve primitives crypto) {message : Bytes}
    (h : primitives.red25519Sign scalar.bytes message = some signature) :
    crypto.verifySignature .redDSASHA512Ed25519 (curve.bytes (curve.scalarBaseMult scalar)).val []
      message signature.val = .ok true := by
  have hkey : (curve.bytes (curve.scalarBaseMult scalar)).val.length + ([] : Bytes).length =
      SigningKeyType.redDSASHA512Ed25519.publicKeyLen := length_val _
  have hlength : signature.val.length = SigningKeyType.redDSASHA512Ed25519.signatureLen :=
    length_val _
  unfold NetDbCrypto.verifySignature
  rw [if_neg (not_not.mpr hkey), if_neg (not_not.mpr hlength), append_nil]
  exact hsound.verifies _ _ _ h

def HoldsKey (set : LocalEncryptedLeaseSet) (curve : EdwardsCurve Point) (hashes : BlindingHashes)
    (scalar : Scalar) : Prop :=
  set.keys = (LongTermKey.red25519 scalar).localKeys curve hashes

variable (hkeys : set.HoldsKey curve hashes scalar)
include hkeys

theorem HoldsKey.identity :
    set.inner.identity.signingType = .redDSASHA512Ed25519 ∧
      set.inner.identity.signingFirst = (curve.bytes (curve.scalarBaseMult scalar)).val ∧
      set.inner.identity.signingRest = [] := by
  have hpublic := set.signingPublic
  have htype := set.signingType
  rw [hkeys] at hpublic htype
  have hrest : set.inner.identity.signingRest = [] := by
    apply eq_nil_of_length_eq_zero
    rw [parseIdentity_signingRest set.inner.parses, ← htype]
    simp only [LongTermKey.localKeys, LongTermKey.signingType, SigningKeyType.publicKeyLen]
  rw [hrest, append_nil] at hpublic
  exact ⟨htype.symm, hpublic.symm, hrest⟩

/-- The key that the publisher signs with is the one a client derives. -/
theorem HoldsKey.blinding {date : Int}
    {privateKey blinded : FixedBytes 32}
    (h : set.keys.encryptedLeaseSetBlinding curve hashes date set.secret =
      some (privateKey, blinded)) :
    ∃ blindedScalar : Scalar, privateKey = blindedScalar.bytes ∧
      blinded = curve.bytes (curve.scalarBaseMult blindedScalar) ∧
      blindEncryptedLeaseSetPublic curve hashes set.inner.identity.signingType
        set.inner.identity.signingFirst date set.secret = some blinded := by
  obtain ⟨blindedScalar, alpha, hprivate, hpublic, hsum⟩ :=
    (LongTermKey.red25519 scalar).blinded_eq curve hashes date set.secret
  obtain ⟨htype, hfirst, -⟩ := hkeys.identity
  have hsurplus : (LongTermKey.red25519 scalar).surplus hashes • curve.base = 0 := zero_nsmul _
  rw [hsurplus, add_zero] at hsum
  rw [hkeys] at h
  simp only [LocalSigningKeys.encryptedLeaseSetBlinding, LongTermKey.localKeys, hprivate,
    Bool.false_eq_true, if_false, Option.bind_eq_bind, Option.bind_some,
    Scalar.setCanonicalBytes_bytes, Option.pure_def, Option.some.injEq, Prod.mk.injEq] at h
  refine ⟨blindedScalar, h.1.symm, h.2.symm, ?_⟩
  rw [htype, hfirst, ← h.2, hsum]
  exact hpublic

theorem HoldsKey.sign_eq (message : Bytes) :
    set.sign primitives message = (primitives.red25519Sign scalar.bytes message).map
      Subtype.val := by
  have hcopy := Subtype.ext (copy_val_of_le scalar.bytes.property.ge |>.trans
      (take_of_length_le scalar.bytes.property.le))
  unfold sign
  rw [hkeys]
  simp only [LongTermKey.localKeys, LongTermKey.signingType, LongTermKey.privateKey, hcopy]

omit hkeys

variable {outer : EncryptedLeaseSet} {authorization : ElsClientAuthorization} {clock : UInt64}
  {payload : Bytes}

variable {authorizationBytes : Bytes} {expires : Nat} {now : UInt64}

theorem decryptEncryptedLeaseSet_eq_readInner (hsound : Sound curve primitives crypto)
    (hkeys : set.HoldsKey curve hashes scalar) {blinded : FixedBytes 32} (hauthorizes : set.Authorizes primitives authorization)
    (hids : set.DistinctIds hashes primitives random credential outer.published)
    (htype : outer.signingType = .redDSASHA512Ed25519) (hflags : outer.flags = 0)
    (hexpires : outer.expires ≠ 0) (hverify : outer.verify crypto = .ok true)
    (hkey : outer.blindedPublicKey = blinded.val)
    (hdata : outer.encryptedData = outerData hashes primitives random credential outer.published
      authorizationBytes payload) (hfrom : outer.published.toNat ≤ (clock / 1000).toNat)
    (huntil : (clock / 1000).toNat < outer.published.toNat + outer.expires.toNat)
    (hpublic : blindEncryptedLeaseSetPublic curve hashes set.inner.identity.signingType
      set.inner.identity.signingFirst outer.published.toNat set.secret = some blinded)
    (hcredential : encryptedLeaseSetSubcredential hashes set.inner.identity.signingType
      set.keys.signingPublic blinded.val = some credential)
    (hwritten : set.authorizationBytes hashes primitives credential outer.published random =
      .ok authorizationBytes) :
    decryptEncryptedLeaseSet hashes primitives curve crypto outer set.inner.identity set.secret
      authorization clock =
      readInner crypto outer set.inner.identity (clock / 1000) (3 :: payload) := by
  obtain ⟨-, -, hrest⟩ := hkeys.identity
  have hfirst : set.keys.signingPublic = set.inner.identity.signingFirst := by
    rw [set.signingPublic, hrest, append_nil]
  rw [hfirst] at hcredential
  obtain ⟨hcookie, -⟩ := authCookieOf_written hsound.exchange hauthorizes hids hwritten
    (elsEncrypt hashes primitives (3 :: payload)
      ((if authorizationBytes.head? = some 0 then [] else random.authCookie.val) ++
        credential.val ++ natBE 4 outer.published.toNat) "ELS2_L2K" random.innerSalt)
  unfold decryptEncryptedLeaseSet
  rw [if_neg (not_or.mpr ⟨not_not.mpr htype, not_or.mpr ⟨not_not.mpr hflags, hexpires⟩⟩),
    if_neg (not_not.mpr hverify)]
  dsimp only
  rw [if_neg (by
      rw [not_or, UInt64.not_lt]
      exact ⟨hfrom, not_le.mpr huntil⟩), if_neg (by rw [hrest]; exact not_not.mpr rfl),
    bind_of_ok (orError_eq_ok.mpr hpublic), if_neg (not_not.mpr hkey.symm),
    bind_of_ok (orError_eq_ok.mpr hcredential), hdata, outerData,
    bind_of_ok (elsDecrypt_elsEncrypt _ _ _ _), if_neg, bind_of_ok hcookie]
  · rw [if_neg, drop_left' rfl, bind_of_ok (elsDecrypt_elsEncrypt _ _ _ _)]
    rw [length_append, elsEncrypt_length, length_cons]
    omega
  · rw [length_append, elsEncrypt_length]
    omega

def payloadLength (set : LocalEncryptedLeaseSet) : Nat :=
  set.inner.identity.raw.length + 12 + 36 * set.inner.types.length +
    40 * set.inner.leases.length + 64

def dataLength (set : LocalEncryptedLeaseSet) : Nat :=
  set.authorizationLength + set.payloadLength + 65

theorem localKeyBytes_length (publicKey : FixedBytes 32) (kinds : List LocalCryptoType) :
    (kinds.flatMap (localKeyBytes publicKey)).length = 36 * kinds.length := by
  have hkey : ∀ kind ∈ kinds, (localKeyBytes publicKey kind).length = 36 := by
    intro kind _
    simp only [localKeyBytes, length_append, natBE_length, length_val]
  rw [length_flatMap, map_congr_left hkey, map_const', sum_replicate, smul_eq_mul, Nat.mul_comm]

theorem toUInt32_seconds (hseconds : nowMillis / 1000 ≤ 0xffffffff) :
    (nowMillis / 1000).toUInt32.toNat = (nowMillis / 1000).toNat := by
  exact Nat.mod_eq_of_lt (Nat.lt_succ_of_le (UInt64.le_iff_toNat_le.mp hseconds))

theorem seconds_sub {latest : UInt32} {expires : UInt64}
    (hexpires : expires = latest.toUInt64 - nowMillis / 1000)
    (hseconds : nowMillis / 1000 ≤ 0xffffffff) (hword : expires.toNat < 65536) :
    expires.toNat = latest.toNat - (nowMillis / 1000).toUInt32.toNat := by
  have hsub : expires.toNat = (2 ^ 64 - (nowMillis / 1000).toNat + latest.toNat) % 2 ^ 64 := by
    rw [hexpires, UInt64.toNat_sub, toNat_toUInt64]
  have hbound := UInt64.le_iff_toNat_le.mp hseconds
  have hlatest := latest.toNat_lt
  rw [toUInt32_seconds hseconds]
  change (nowMillis / 1000).toNat ≤ 0xffffffff at hbound
  omega

/-- The signed inner set is the one that a reader accepts: it has the header of the outer set
and the leases of the destination, and its signature verifies. -/
theorem inner_written (hsound : Sound curve primitives crypto)
    (hkeys : set.HoldsKey curve hashes scalar)
    (h : set.inner.marshalTo maxLeaseSetBytes nowMillis (set.sign primitives) = .ok payload) :
    ∃ parsed, parseLeaseSet2 payload = .ok parsed ∧ payload.length = set.payloadLength ∧
      parsed.verify crypto = .ok true ∧ parsed.header.destination = set.inner.identity ∧
      parsed.header.published = (nowMillis / 1000).toUInt32 ∧
      parsed.header.expires = UInt16.ofNat
        (set.latest.toNat - (nowMillis / 1000).toUInt32.toNat) ∧
      parsed.leases = set.inner.leases := by
  obtain ⟨expires, signature, unsigned, hpayload, hunsigned, hsign, hsize, hspace, hexpires,
    hpos, hword, hseconds, htypes, hcount, hsome, hleases⟩ := marshalTo_online set.online h
  obtain ⟨htype, hfirst, hrest⟩ := hkeys.identity
  subst hpayload
  obtain ⟨parsed, hparsed, hheader, hleasesEq, hunsignedEq, hsignatureEq⟩ :=
    parseLeaseSet2_written hunsigned hword htypes hcount hsome (fun lease hmem =>
      (hleases _ hmem).1) hsize hspace
  refine ⟨parsed, hparsed, ?_, ?_, ?_, ?_, ?_, hleasesEq⟩
  · have hkeyBytes : (set.inner.types.flatMap fun kind => natBE 2 kind.code.toNat ++ natBE 2 32 ++
        set.inner.publicKey.val).length = 36 * set.inner.types.length :=
      localKeyBytes_length set.inner.publicKey set.inner.types
    rw [hunsigned, length_append, hsize, htype]
    simp only [LocalLeaseSet2.bodyBytes, length_append, natBE_length, hkeyBytes,
      flatMap_leaseBytes_length, payloadLength, SigningKeyType.signatureLen, length_cons,
      length_nil]
    omega
  · rw [hkeys.sign_eq] at hsign
    obtain ⟨signed, hsigned, rfl⟩ := Option.map_eq_some_iff.mp hsign
    unfold LeaseSet2.verify LeaseSet2Header.verify
    rw [hheader, hunsignedEq, hsignatureEq]
    dsimp only
    rw [htype, hfirst, hrest]
    exact hsound.verifySignature hsigned
  · rw [hheader]
  · rw [hheader]
  · have hlatest : expires = set.latest.toUInt64 - nowMillis / 1000 := hexpires
    rw [hheader, seconds_sub hlatest hseconds hword]

def Opens (set : LocalEncryptedLeaseSet) (curve : EdwardsCurve Point) (hashes : BlindingHashes)
    (primitives : ElsPrimitives) (crypto : NetDbCrypto) (bytes : Bytes) (nowMillis : UInt64)
    (authorization : ElsClientAuthorization) (clock : UInt64) : Prop :=
  ∃ outer payload parsed,
    parseEncryptedLeaseSet bytes = .ok outer ∧
    set.inner.marshalTo maxLeaseSetBytes nowMillis (set.sign primitives) = .ok payload ∧
    parseLeaseSet2 payload = .ok parsed ∧
    decryptEncryptedLeaseSet hashes primitives curve crypto outer set.inner.identity set.secret
      authorization clock = .ok parsed

variable {parsed : LeaseSet2} {identity : Identity}

/-- The inner set is refused as soon as a lease has ended. -/
theorem readInner_live {inner : Bytes}
    (h : readInner crypto outer identity now inner = .ok parsed) :
    ∀ lease ∈ parsed.leases, now.toNat < lease.endDate.toNat := by
  unfold readInner at h
  split at h
  · cases h
  split at h
  · cases h
  split at h
  · split at h
    · cases h
    split at h
    · cases h
    next hended =>
    cases h
    intro lease hmem
    rw [Bool.not_eq_true, any_eq_false] at hended
    have hlease := hended _ hmem
    rw [decide_eq_true_eq, UInt64.not_le] at hlease
    exact hlease
  · cases h

theorem decryptEncryptedLeaseSet_live {secret : Bytes}
    (h : decryptEncryptedLeaseSet hashes primitives curve crypto outer identity secret
      authorization clock = .ok parsed) :
    ∀ lease ∈ parsed.leases, clock.toNat / 1000 < lease.endDate.toNat := by
  unfold decryptEncryptedLeaseSet at h
  split at h
  · cases h
  split at h
  · cases h
  dsimp only at h
  split at h
  · cases h
  split at h
  · cases h
  obtain ⟨blinded, -, h⟩ := bind_eq_ok.mp h
  split at h
  · cases h
  obtain ⟨credential, -, h⟩ := bind_eq_ok.mp h
  obtain ⟨layer1, -, h⟩ := bind_eq_ok.mp h
  split at h
  · cases h
  obtain ⟨⟨cookie, off⟩, -, h⟩ := bind_eq_ok.mp h
  split at h
  · cases h
  obtain ⟨inner, -, h⟩ := bind_eq_ok.mp h
  exact readInner_live h

theorem readInner_eq_ok_iff (hparsed : parseLeaseSet2 payload = .ok parsed)
    (hpayload : payload ≠ []) (hverify : parsed.verify crypto = .ok true)
    (hidentity : parsed.header.destination = identity)
    (hpublished : parsed.header.published = outer.published)
    (hexpires : parsed.header.expires = outer.expires) :
    readInner crypto outer identity now (3 :: payload) = .ok parsed ↔
      ∀ lease ∈ parsed.leases, now.toNat < lease.endDate.toNat := by
  refine ⟨readInner_live, fun h => ?_⟩
  have hlength : ¬((3 :: payload).length < 2 ∨ (3 :: payload).getD 0 0 ≠ 3) := by
    rw [not_or, length_cons]
    exact ⟨by have := length_pos_of_ne_nil hpayload; omega, not_not.mpr rfl⟩
  have hsame : ¬(crypto.sha256 identity.raw ≠ crypto.sha256 identity.raw ∨
      outer.published ≠ outer.published ∨ outer.expires ≠ outer.expires) :=
    not_or.mpr ⟨not_not.mpr rfl, not_or.mpr ⟨not_not.mpr rfl, not_not.mpr rfl⟩⟩
  unfold readInner
  rw [if_neg hlength, drop_one, tail_cons, hparsed]
  dsimp only
  rw [hverify]
  rw [hidentity, hpublished, hexpires, if_neg hsame, if_neg]
  rw [Bool.not_eq_true, any_eq_false]
  intro lease hmem
  rw [decide_eq_true_eq, UInt64.not_le]
  exact h _ hmem

def outerSet (blinded : FixedBytes 32) (published : UInt32) (expires : Nat) (data : Bytes)
    (signature : FixedBytes 64) : EncryptedLeaseSet :=
  let unsigned := outerUnsigned blinded published expires data
  ⟨.redDSASHA512Ed25519, blinded.val, published, UInt16.ofNat expires, 0, none, data,
    signature.val, unsigned, unsigned ++ signature.val⟩

theorem parse_outerUnsigned {blinded : FixedBytes 32} {data : Bytes} (hword : expires ≤ 0xffff)
    (hlength : data.length ≤ 0xffff) (hmin : minEncryptedLeaseSetDataBytes ≤ data.length) :
    parseEncryptedLeaseSet (outerUnsigned blinded published expires data ++ signature.val) =
        .ok outer ↔
      data.length ≤ maxEncryptedLeaseSetDataBytes ∧
        outer = outerSet blinded published expires data signature := by
  have hunsigned : outerUnsigned blinded published expires data =
      natBE 2 SigningKeyType.redDSASHA512Ed25519.code.toNat ++ (blinded.val ++
        (natBE 4 published.toNat ++ (natBE 2 (UInt16.ofNat expires).toNat ++ (natBE 2 0 ++
          (natBE 2 data.length ++ data))))) := by
    rw [UInt16.toNat_ofNat_of_lt' (show expires < 65536 by omega)]
    rfl
  rw [parseEncryptedLeaseSet_written hunsigned hlength hmin]
  constructor
  · intro h
    split at h
    · cases h
    split at h
    · cases h
    next hshort =>
    cases h
    exact ⟨not_lt.mp hshort, rfl⟩
  · rintro ⟨hshort, rfl⟩
    rw [if_neg, if_neg (not_lt.mpr hshort)]
    · rfl
    · rw [length_append, outerUnsigned_length]
      unfold maxEncryptedLeaseSetDataBytes at hshort
      unfold maxLeaseSetBytes
      omega

theorem decrypt_outerSet (hsound : Sound curve primitives crypto)
    (hkeys : set.HoldsKey curve hashes scalar) {blindedScalar : Scalar}
    {blinded : FixedBytes 32} {data : Bytes}
    (hauthorizes : set.Authorizes primitives authorization)
    (hids : set.DistinctIds hashes primitives random credential published)
    (hword : expires ≤ 0xffff) (hpos : expires ≠ 0)
    (hblinded : blinded = curve.bytes (curve.scalarBaseMult blindedScalar))
    (hsigned : primitives.red25519Sign blindedScalar.bytes
      (5 :: outerUnsigned blinded published expires data) = some signature)
    (hdata : data = outerData hashes primitives random credential published authorizationBytes
      payload) (hfrom : published.toNat ≤ clock.toNat / 1000)
    (huntil : clock.toNat / 1000 < published.toNat + expires)
    (hpublic : blindEncryptedLeaseSetPublic curve hashes set.inner.identity.signingType
      set.inner.identity.signingFirst published.toNat set.secret = some blinded)
    (hcredential : encryptedLeaseSetSubcredential hashes set.inner.identity.signingType
      set.keys.signingPublic blinded.val = some credential)
    (hwritten : set.authorizationBytes hashes primitives credential published random =
      .ok authorizationBytes) :
    decryptEncryptedLeaseSet hashes primitives curve crypto
      (outerSet blinded published expires data signature) set.inner.identity set.secret
      authorization clock =
      readInner crypto (outerSet blinded published expires data signature) set.inner.identity
        (clock / 1000) (3 :: payload) := by
  have hcount := UInt16.toNat_ofNat_of_lt' (Nat.lt_succ_of_le hword)
  -- The signature is the one of the blinded key that a client derives.
  have hverified : (outerSet blinded published expires data signature).verify crypto =
      .ok true := by
    rw [hblinded] at hsigned ⊢
    exact hsound.verifySignature hsigned
  have hnonzero : (outerSet blinded published expires data signature).expires ≠ 0 := by
    change UInt16.ofNat expires ≠ 0
    rw [ne_eq, ← UInt16.toNat_inj, hcount]
    exact hpos
  have hbefore : clock.toNat / 1000 <
      (outerSet blinded published expires data signature).published.toNat +
        (outerSet blinded published expires data signature).expires.toNat := by
    change clock.toNat / 1000 < published.toNat + (UInt16.ofNat expires).toNat
    rw [hcount]
    exact huntil
  exact decryptEncryptedLeaseSet_eq_readInner hsound hkeys hauthorizes hids rfl rfl hnonzero
    hverified rfl hdata hfrom hbefore hpublic hcredential hwritten

/-- A listed client opens the published set in a second from its publication up to its expiry
exactly when the data is not too long and no lease has ended by then. -/
theorem encrypted_leaseSet_opens_iff (hsound : Sound curve primitives crypto)
    (hkeys : set.HoldsKey curve hashes scalar)
    (h : set.marshalTo curve hashes primitives space nowMillis random = .ok bytes)
    {authorization : ElsClientAuthorization}
    (hauthorizes : set.Authorizes primitives authorization)
    (hids : ∀ credential ∈ set.subcredential curve hashes (nowMillis / 1000).toUInt32,
      set.DistinctIds hashes primitives random credential (nowMillis / 1000).toUInt32)
    {clock : UInt64} (hfrom : nowMillis.toNat / 1000 ≤ clock.toNat / 1000)
    (huntil : clock.toNat / 1000 <
      nowMillis.toNat / 1000 + (set.latest.toNat - nowMillis.toNat / 1000)) :
    set.Opens curve hashes primitives crypto bytes nowMillis authorization clock ↔
      set.dataLength ≤ maxEncryptedLeaseSetDataBytes ∧
        ∀ lease ∈ set.inner.leases, clock.toNat / 1000 < lease.endDate.toNat := by
  obtain ⟨hseconds, payload, privateKey, blinded, credential, authorizationBytes, hpayload,
    hblinding, hcredential, hwritten, hlength, hfinish⟩ := marshalTo_eq_ok.mp h
  obtain ⟨parsed, hparsed, hpayloadLength, hverify, hdestination, hpublished, hexpires,
    hleases⟩ := inner_written hsound hkeys hpayload
  obtain ⟨data, hdata⟩ : ∃ data, data = outerData hashes primitives random credential
    (nowMillis / 1000).toUInt32 authorizationBytes payload := ⟨_, rfl⟩
  rw [← hdata] at hlength hfinish
  obtain ⟨hlatest, hword, signature, rfl, hsigned⟩ := finishOuter_eq_ok hfinish
  obtain ⟨blindedScalar, rfl, hblinded, hpublic⟩ := hkeys.blinding hblinding
  have hidsAt := hids _ (by
    rw [subcredential, hblinding]
    exact hcredential)
  obtain ⟨-, hauthorizationLength⟩ :=
    authCookieOf_written hsound.exchange hauthorizes hidsAt hwritten []
  have hdataLength : data.length = set.dataLength := by
    rw [hdata, outerData_length, hauthorizationLength, hpayloadLength, dataLength]
  have hmin : minEncryptedLeaseSetDataBytes ≤ data.length := by
    rw [hdataLength, dataLength]
    unfold minEncryptedLeaseSetDataBytes
    omega
  have hpayloadPos : payload ≠ [] := fun hnil => by
    rw [hnil, length_nil, payloadLength] at hpayloadLength
    omega
  have hnow := toUInt32_seconds hseconds
  have hdecrypt := decrypt_outerSet hsound hkeys hauthorizes hidsAt hword
    (Nat.sub_ne_zero_of_lt (lt_iff_toNat_lt.mp hlatest)) hblinded hsigned hdata
    (hnow.trans_le hfrom) (by rw [hnow]; exact huntil) hpublic hcredential hwritten
  have hread : readInner crypto (outerSet blinded (nowMillis / 1000).toUInt32
      (set.latest.toNat - (nowMillis / 1000).toUInt32.toNat) data signature) set.inner.identity
      (clock / 1000) (3 :: payload) = .ok parsed ↔
      ∀ lease ∈ set.inner.leases, clock.toNat / 1000 < lease.endDate.toNat := by
    rw [← hleases]
    exact readInner_eq_ok_iff hparsed hpayloadPos hverify hdestination hpublished hexpires
  rw [← hdataLength, ← hread, ← hdecrypt]
  constructor
  · rintro ⟨outer, other, otherParsed, houter, hother, hotherParsed, hopened⟩
    rw [hpayload] at hother
    cases hother
    rw [hparsed] at hotherParsed
    cases hotherParsed
    obtain ⟨hshort, rfl⟩ := (parse_outerUnsigned hword hlength hmin).mp houter
    exact ⟨hshort, hopened⟩
  · rintro ⟨hshort, hopened⟩
    exact ⟨_, payload, parsed, (parse_outerUnsigned hword hlength hmin).mpr ⟨hshort, rfl⟩,
      hpayload, hparsed, hopened⟩

end Red25519

def zeroHashes : BlindingHashes where
  sha256 := fun _ => FixedBytes.zero 32
  sha512 := fun _ => FixedBytes.zero 64
  hkdf := fun _ _ _ length => FixedBytes.zero length
  dateString := fun _ => []

/-- A key stream, shared secrets and signatures of zeros. -/
def zeroPrimitives : ElsPrimitives where
  keystream := fun _ _ _ => 0
  x25519Public := id
  x25519 := fun _ _ => some (FixedBytes.zero 32)
  ed25519Sign := fun _ _ => some (FixedBytes.zero 64)
  red25519Sign := fun _ _ => some (FixedBytes.zero 64)

def trustingCrypto : NetDbCrypto where
  sha256 := fun _ => FixedBytes.zero 32
  verify := fun _ _ _ _ => .ok true

theorem sound_zero : Sound residueCurve zeroPrimitives trustingCrypto :=
  ⟨fun _ _ => rfl, fun _ _ _ _ => rfl⟩

def zeroRandom : ElsRandom :=
  ⟨FixedBytes.zero 32, FixedBytes.zero 32, FixedBytes.zero 32, FixedBytes.zero 32⟩

def zeroIdentity : Identity :=
  ⟨List.replicate 384 0 ++ [5, 0, 4, 0, 11, 0, 4], .redDSASHA512Ed25519, List.replicate 32 0, []⟩

def zeroKeys : LocalSigningKeys :=
  ⟨.redDSASHA512Ed25519, List.replicate 32 0, List.replicate 32 0, false⟩

/-- A destination with one client and two leases: one ends ten seconds after a publication in
the first second, the other ten minutes after it. -/
def twoLeases : LocalEncryptedLeaseSet where
  keys := zeroKeys
  inner :=
    { identity := zeroIdentity
      publicKey := FixedBytes.zero 32
      types := [.x25519]
      offline := none
      leases := [⟨FixedBytes.zero 32, 1, 11⟩, ⟨FixedBytes.zero 32, 2, 601⟩]
      parses := by decide +kernel
      signing := .inr rfl
      distinct := x25519_distinct }
  secret := []
  dhClients := []
  pskClients := [FixedBytes.zero 32]
  exclusive := .inl rfl
  few := by decide
  signingType := rfl
  signingPublic := rfl
  online := rfl

def zeroAuthorization : ElsClientAuthorization :=
  ⟨FixedBytes.zero 32, FixedBytes.zero 32, FixedBytes.zero 32, false, true⟩

theorem twoLeases_holdsKey : twoLeases.HoldsKey residueCurve zeroHashes 0 := by rfl

theorem twoLeases_authorizes : twoLeases.Authorizes zeroPrimitives zeroAuthorization :=
  ⟨fun h => absurd rfl h, fun _ => ⟨rfl, mem_cons_self⟩⟩

theorem twoLeases_distinctIds {random : ElsRandom} {published : UInt32} :
    twoLeases.DistinctIds zeroHashes zeroPrimitives random credential published := by
  intro client hclient other hother hne
  exact absurd ((mem_singleton.mp hclient).trans (mem_singleton.mp hother).symm) hne

theorem twoLeases_marshals : ∃ bytes,
    twoLeases.marshalTo residueCurve zeroHashes zeroPrimitives 1024 1000 zeroRandom =
      .ok bytes := by
  have hinner : (twoLeases.inner.marshalTo maxLeaseSetBytes 1000
      (twoLeases.sign zeroPrimitives)).isOk = true := by decide +kernel
  have hsome : (twoLeases.subcredential residueCurve zeroHashes 1).isSome = true := by
    decide +kernel
  obtain ⟨payload, hpayload⟩ := exists_eq_ok_of_isOk hinner
  obtain ⟨credential, hcredential⟩ := Option.isSome_iff_exists.mp hsome
  unfold subcredential at hcredential
  obtain ⟨⟨privateKey, blinded⟩, hblinding, hcredential⟩ := Option.bind_eq_some_iff.mp hcredential
  obtain ⟨authorizationBytes, hwritten⟩ : ∃ written, twoLeases.authorizationBytes zeroHashes
      zeroPrimitives credential 1 zeroRandom = .ok written := ⟨_, rfl⟩
  obtain ⟨-, hauthorizationLength⟩ := authCookieOf_written sound_zero.exchange twoLeases_authorizes
    twoLeases_distinctIds hwritten []
  obtain ⟨-, -, hpayloadLength, -⟩ := inner_written sound_zero twoLeases_holdsKey hpayload
  have hdataLength : (outerData zeroHashes zeroPrimitives zeroRandom credential 1
      authorizationBytes payload).length = 723 := by
    rw [outerData_length, hauthorizationLength, hpayloadLength]
    decide +kernel
  obtain ⟨bytes, hfinish⟩ := finishOuter_isOk
    (show (1 : UInt32) < twoLeases.latest by decide +kernel)
    (show twoLeases.latest.toNat - (1 : UInt32).toNat ≤ 0xffff by decide +kernel)
    (show 108 + (outerData zeroHashes zeroPrimitives zeroRandom credential 1
      authorizationBytes payload).length ≤ 1024 by rw [hdataLength]; decide)
    (fun _ => (rfl : (zeroPrimitives.red25519Sign privateKey _).isSome = true))
  exact ⟨bytes, marshalTo_eq_ok.mpr ⟨by decide, payload, privateKey, blinded, credential,
    authorizationBytes, hpayload, hblinding, hcredential, hwritten,
    hdataLength.trans_le (by decide), hfinish⟩⟩

/-- The client opens the set in the tenth second. -/
theorem twoLeases_opens : ∃ bytes,
    twoLeases.marshalTo residueCurve zeroHashes zeroPrimitives 1024 1000 zeroRandom =
      .ok bytes ∧
    twoLeases.Opens residueCurve zeroHashes zeroPrimitives trustingCrypto bytes 1000
      zeroAuthorization 10000 := by
  obtain ⟨bytes, hbytes⟩ := twoLeases_marshals
  refine ⟨bytes, hbytes, (encrypted_leaseSet_opens_iff sound_zero twoLeases_holdsKey hbytes
    twoLeases_authorizes (fun _ _ => twoLeases_distinctIds) ?_ ?_).mpr ?_⟩
  · decide
  · decide +kernel
  · decide +kernel

/-- It does not open it in the eleventh, although the set is announced for ten minutes: the
first of the two leases has ended. -/
theorem twoLeases_refused : ∃ bytes,
    twoLeases.marshalTo residueCurve zeroHashes zeroPrimitives 1024 1000 zeroRandom =
      .ok bytes ∧ twoLeases.HoldsKey residueCurve zeroHashes 0 ∧
    twoLeases.Authorizes zeroPrimitives zeroAuthorization ∧
    11000 / 1000 < 1000 / 1000 + (twoLeases.latest.toNat - 1000 / 1000) ∧
    ¬twoLeases.Opens residueCurve zeroHashes zeroPrimitives trustingCrypto bytes 1000
      zeroAuthorization 11000 := by
  obtain ⟨bytes, hbytes⟩ := twoLeases_marshals
  refine ⟨bytes, hbytes, twoLeases_holdsKey, twoLeases_authorizes, by decide +kernel, ?_⟩
  rintro ⟨outer, payload, parsed, -, hpayload, hparsed, hopened⟩
  obtain ⟨other, hother, -, -, -, -, -, hleases⟩ :=
    inner_written sound_zero twoLeases_holdsKey hpayload
  rw [hparsed] at hother
  cases hother
  have hlive := decryptEncryptedLeaseSet_live hopened
  rw [hleases] at hlive
  exact absurd (hlive _ mem_cons_self) (by decide +kernel)

end LocalEncryptedLeaseSet

end Ivnp.NetDb
