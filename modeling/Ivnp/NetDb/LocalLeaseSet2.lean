import Ivnp.NetDb.LeaseSets

/-!
The lease set of a local destination: its identity and keys, the inbound leases
of the moment, and the signed payload that is published for them. The clock is in
milliseconds and is reduced to seconds when the payload is written.
-/

namespace Ivnp.NetDb

open Ivnp.Lib Ivnp.Foundation Cursor

inductive LocalError where
  | localLeaseSet2
  | destinationSmall
  deriving DecidableEq

/-- The encryption types of a local destination, all with one X25519 key. -/
inductive LocalCryptoType where
  | mlkem1024X25519
  | mlkem768X25519
  | x25519
  deriving DecidableEq

def LocalCryptoType.code : LocalCryptoType → UInt16
  | mlkem1024X25519 => 7
  | mlkem768X25519 => 6
  | x25519 => 4

structure OfflineAuthorisation where
  expires : UInt32
  kind : SigningKeyType
  publicKey : Bytes
  signature : Bytes

/-- What `NewLocalLeaseSet2WithTypes` has checked stands in the last fields. -/
structure LocalLeaseSet2 where
  identity : Identity
  publicKey : FixedBytes 32
  types : List LocalCryptoType
  offline : Option OfflineAuthorisation
  leases : List Lease2
  parses : parseIdentity identity.raw = .ok (identity, identity.raw.length)
  signing : identity.signingType = .edDSASHA512Ed25519 ∨ identity.signingType = .redDSASHA512Ed25519
  distinct : types ≠ [] ∧ types.Nodup

theorem x25519_distinct : [LocalCryptoType.x25519] ≠ [] ∧ [LocalCryptoType.x25519].Nodup := by
  decide

namespace LocalLeaseSet2

def convertLease (lease : Lease) : Option Lease2 :=
  if lease.tunnelID = 0 ∨ lease.endDate / 1000 > 0xffffffff then none
  else some ⟨lease.gateway, lease.tunnelID, (lease.endDate / 1000).toUInt32⟩

def replaceInboundLeases (set : LocalLeaseSet2) (leases : List Lease) : Option LocalLeaseSet2 :=
  if leases.length > maxLeases then none
  else (leases.mapM convertLease).map fun converted => { set with leases := converted }

/-- What the authorisation adds to the header: the flags, the fields after them
and the type of the key that signs. -/
structure OfflineFields where
  flags : UInt16
  bytes : Bytes
  signingType : SigningKeyType

/-- The fields, unless the authorisation has ended or its parts do not fit. -/
def offlineFields (set : LocalLeaseSet2) (published : UInt64) : Option OfflineFields :=
  match set.offline with
  | none => some ⟨0, [], set.identity.signingType⟩
  | some offline =>
    if published > offline.expires.toUInt64 then none
    else if offline.publicKey.length ≠ offline.kind.publicKeyLen then none
    else if offline.signature.length ≠ set.identity.signingType.signatureLen then none
    else
      some
        ⟨leaseSetOfflineFlag,
          natBE 4 offline.expires.toNat ++ natBE 2 offline.kind.code.toNat ++ offline.publicKey ++
            offline.signature,
          offline.kind⟩

def clipLease (offline : Option OfflineAuthorisation) (lease : Lease2) : Lease2 :=
  match offline with
  | none => lease
  | some offline =>
    if lease.endDate > offline.expires then { lease with endDate := offline.expires } else lease

def leaseBytes (lease : Lease2) : Bytes :=
  lease.gateway.val ++ natBE 4 lease.tunnelID.toNat ++ natBE 4 lease.endDate.toNat

/-- What follows the time of publication, up to the signature. -/
def bodyBytes (set : LocalLeaseSet2) (expires : UInt64) (fields : OfflineFields)
    (leases : List Lease2) : Bytes :=
  natBE 2 expires.toNat ++ natBE 2 fields.flags.toNat ++ fields.bytes ++ [0, 0] ++
    [UInt8.ofNat set.types.length] ++
    set.types.flatMap (fun kind => natBE 2 kind.code.toNat ++ natBE 2 32 ++ set.publicKey.val) ++
    [UInt8.ofNat leases.length] ++ leases.flatMap leaseBytes

def marshalTo (set : LocalLeaseSet2) (space : Nat) (nowMillis : UInt64)
    (sign : Bytes → Option Bytes) : Except LocalError Bytes :=
  if set.leases.length = 0 ∨ set.leases.length > maxLeases then .error .localLeaseSet2
  else
    let published := nowMillis / 1000
    if published > 0xffffffff then .error .localLeaseSet2
    else
      match set.offlineFields published with
      | none => .error .localLeaseSet2
      | some fields =>
        let leases := set.leases.map (clipLease set.offline)
        if leases.any fun lease => lease.tunnelID = 0 ∨ lease.endDate ≤ published.toUInt32 then
          .error .localLeaseSet2
        else
          let latest := (leases.map Lease2.endDate).foldl max 0
          let expires := latest.toUInt64 - published
          if expires = 0 ∨ expires > 0xffff then .error .localLeaseSet2
          else if set.types.length = 0 ∨ set.types.length > 255 then .error .localLeaseSet2
          else
            let unsigned :=
              set.identity.raw ++ (natBE 4 published.toUInt32.toNat ++
                set.bodyBytes expires fields leases)
            if space < unsigned.length + fields.signingType.signatureLen then
              .error .destinationSmall
            else
              match sign (3 :: unsigned) with
              | none => .error .localLeaseSet2
              | some signature =>
                if signature.length ≠ fields.signingType.signatureLen then
                  .error .localLeaseSet2
                else .ok (unsigned ++ signature)

theorem guard_eq_ok {ε α : Type} {c : Prop} [Decidable c] {error : ε} {next : Except ε α} {result : α} :
    (if c then .error error else next) = .ok result ↔ ¬c ∧ next = .ok result := by
  by_cases hc : c <;> simp [hc]

def lifetime (set : LocalLeaseSet2) (nowMillis : UInt64) : UInt64 :=
  ((set.leases.map (clipLease set.offline)).map Lease2.endDate |>.foldl max 0).toUInt64 -
    nowMillis / 1000

def unsignedBytes (set : LocalLeaseSet2) (nowMillis : UInt64) (fields : OfflineFields) : Bytes :=
  set.identity.raw ++ (natBE 4 (nowMillis / 1000).toUInt32.toNat ++
    set.bodyBytes (set.lifetime nowMillis) fields (set.leases.map (clipLease set.offline)))

variable {set : LocalLeaseSet2} {space : Nat} {nowMillis : UInt64} {sign : Bytes → Option Bytes}
  {payload : Bytes}

/-- Everything that is checked before a set is published. -/
theorem marshalTo_eq_ok_iff :
    set.marshalTo space nowMillis sign = .ok payload ↔
      (set.leases.length ≠ 0 ∧ set.leases.length ≤ maxLeases) ∧ nowMillis / 1000 ≤ 0xffffffff ∧
      ∃ fields signature, set.offlineFields (nowMillis / 1000) = some fields ∧
      (∀ lease ∈ set.leases.map (clipLease set.offline),
        lease.tunnelID ≠ 0 ∧ (nowMillis / 1000).toUInt32 < lease.endDate) ∧
      (set.lifetime nowMillis ≠ 0 ∧ set.lifetime nowMillis ≤ 0xffff) ∧ set.types.length ≤ 255 ∧
      (set.unsignedBytes nowMillis fields).length + fields.signingType.signatureLen ≤ space ∧
      sign (3 :: set.unsignedBytes nowMillis fields) = some signature ∧
      signature.length = fields.signingType.signatureLen ∧
      set.unsignedBytes nowMillis fields ++ signature = payload := by
  have htypes : set.types.length ≠ 0 := fun hzero =>
    set.distinct.1 (List.eq_nil_of_length_eq_zero hzero)
  unfold marshalTo
  rw [guard_eq_ok, not_or, not_lt]
  refine and_congr_right fun _ => ?_
  rw [guard_eq_ok, UInt64.not_lt]
  refine and_congr_right fun _ => ?_
  cases set.offlineFields (nowMillis / 1000) with
  | none => simp
  | some fields =>
    simp only [guard_eq_ok, Option.some.injEq, exists_eq_left', exists_and_left]
    change (_ ∧ _ ∧ _ ∧ _ ∧ (match sign (3 :: set.unsignedBytes nowMillis fields) with
      | none => _ | some signature => _) = _) ↔ _
    cases sign (3 :: set.unsignedBytes nowMillis fields) with
    | none => simp
    | some signature =>
      simp only [guard_eq_ok, Bool.not_eq_true, List.any_eq_false, decide_eq_true_eq, not_or,
        UInt32.not_le, UInt64.not_lt, not_lt, ne_eq, not_not, Except.ok.injEq, Option.some.injEq,
        exists_eq_left', htypes, not_false_eq_true, true_and]
      exact Iff.rfl

/-- A signed payload starts with the identity and the second of its publication. -/
theorem marshalTo_eq_ok (h : set.marshalTo space nowMillis sign = .ok payload) :
    ∃ rest, payload =
        set.identity.raw ++ (natBE 4 (nowMillis / 1000).toUInt32.toNat ++ rest) ∧
      (nowMillis / 1000).toUInt32.toNat = nowMillis.toNat / 1000 := by
  obtain ⟨-, hseconds, fields, signature, -, -, -, -, -, -, -, hpayload⟩ := marshalTo_eq_ok_iff.mp h
  rw [unsignedBytes, List.append_assoc, List.append_assoc] at hpayload
  refine ⟨_, hpayload.symm, ?_⟩
  apply Nat.mod_eq_of_lt
  exact Nat.lt_succ_of_le (UInt64.le_iff_toNat_le.mp hseconds)

end LocalLeaseSet2

theorem parseLeaseSet2_published {identity : Identity} {published : UInt32} {rest : Bytes}
    {set : LeaseSet2} (hidentity : parseIdentity identity.raw = .ok (identity, identity.raw.length))
    (h : parseLeaseSet2 (identity.raw ++ (natBE 4 published.toNat ++ rest)) = .ok set) :
    set.header.published = published := by
  obtain ⟨-, unread, hheader⟩ := parseLeaseSet2_eq_ok h
  unfold parseLeaseSet2Header at hheader
  rw [parseIdentity_append hidentity] at hheader
  dsimp only at hheader
  rw [List.drop_left' rfl] at hheader
  refine of_bind (P := fun header : LeaseSet2Header => header.published = published)
      (readU32_eq_ok.mpr rfl) ?_ hheader
  refine yields_bind fun _ => yields_bind fun flags => ?_
  split
  · exact yields_pure rfl
  · exact yields_bind fun _ => yields_pure rfl

end Ivnp.NetDb
