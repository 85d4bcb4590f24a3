import Ivnp.NetDb.Publication

/-!
Publishing while a lease ends. The ends are compared in whole seconds when the payload is
written, and a single lease that ends within the current second fails the whole set.
-/

namespace Ivnp.NetDb

open Ivnp.Lib Ivnp.Foundation LeaseSetPublisher List UInt32

theorem foldl_max_le_iff {ends : List UInt32} {start : UInt32} {bound : Nat} :
    (ends.foldl max start).toNat ≤ bound ↔ start.toNat ≤ bound ∧ ∀ time ∈ ends, time.toNat ≤ bound := by
  induction ends generalizing start with
  | nil => simp
  | cons time rest ih =>
    have hmax : (max start time).toNat ≤ bound ↔ start.toNat ≤ bound ∧ time.toNat ≤ bound := by
      change (if start ≤ time then time else start).toNat ≤ bound ↔ _
      simp only [le_iff_toNat_le]
      split <;> omega
    rw [foldl_cons, ih, hmax, forall_mem_cons, and_assoc]

namespace LocalLeaseSet2

/-- The payload has the leases that end after the current second, cut to the authorisation. -/
def Publishes (set : LocalLeaseSet2) (nowMillis : UInt64) (payload : Bytes) : Prop :=
  ∃ expires fields signature, payload = set.identity.raw ++
    (natBE 4 (nowMillis / 1000).toUInt32.toNat ++ set.bodyBytes expires fields
      ((set.leases.filter fun lease => nowMillis / 1000 < lease.endDate.toUInt64).map
        (clipLease set.offline))) ++ signature

/-- The authorisation can be used, and with it every lease ends after the current second and no
more than 65535 seconds later. -/
def AllLive (set : LocalLeaseSet2) (nowMillis : UInt64) : Prop :=
  (set.offlineFields (nowMillis / 1000)).isSome = true ∧ ∀ lease ∈ set.leases,
    nowMillis.toNat / 1000 < (clipLease set.offline lease).endDate.toNat ∧
      (clipLease set.offline lease).endDate.toNat ≤ nowMillis.toNat / 1000 + 0xffff

instance (set : LocalLeaseSet2) (nowMillis : UInt64) : Decidable (set.AllLive nowMillis) :=
  inferInstanceAs (Decidable (_ ∧ _))

variable {set replaced : LocalLeaseSet2} {leases : List Lease} {nowMillis : UInt64}

theorem clipLease_le (offline : Option OfflineAuthorisation) (lease : Lease2) :
    (clipLease offline lease).endDate.toNat ≤ lease.endDate.toNat ∧
      (clipLease offline lease).tunnelID = lease.tunnelID := by
  unfold clipLease
  cases offline with
  | none => exact ⟨Nat.le_refl _, rfl⟩
  | some offline =>
    dsimp only
    split
    next hlater => exact ⟨Nat.le_of_lt (lt_iff_toNat_lt.mp hlater), rfl⟩
    · exact ⟨Nat.le_refl _, rfl⟩

theorem mapM_convertLease {converted : List Lease2} (h : leases.mapM convertLease = some converted) :
    converted.length = leases.length ∧ ∀ lease ∈ converted, lease.tunnelID ≠ 0 := by
  induction leases generalizing converted with
  | nil => cases h; simp
  | cons lease rest ih =>
    rw [mapM_cons] at h
    obtain ⟨first, hfirst, h⟩ := Option.bind_eq_some_iff.mp h
    obtain ⟨others, hothers, h⟩ := Option.bind_eq_some_iff.mp h
    cases h
    obtain ⟨hlength, hall⟩ := ih hothers
    refine ⟨by rw [length_cons, hlength, length_cons], forall_mem_cons.mpr ⟨?_, hall⟩⟩
    unfold convertLease at hfirst
    split at hfirst
    · cases hfirst
    next hvalid =>
    cases hfirst
    exact (not_or.mp hvalid).1

theorem leases_of_replaceInboundLeases (h : set.replaceInboundLeases leases = some replaced) :
    replaced.leases.length ≤ maxLeases ∧ ∀ lease ∈ replaced.leases, lease.tunnelID ≠ 0 := by
  unfold replaceInboundLeases at h
  split at h
  · cases h
  next hcount =>
  obtain ⟨converted, hconverted, rfl⟩ := Option.map_eq_some_iff.mp h
  obtain ⟨hlength, hall⟩ := mapM_convertLease hconverted
  exact ⟨by rw [hlength]; exact not_lt.mp hcount, hall⟩

/-- The lifetime fits its field if the last lease ends in time. -/
theorem lifetime_iff (hlive : ∃ lease ∈ set.leases,
      nowMillis.toNat / 1000 < (clipLease set.offline lease).endDate.toNat) :
    set.lifetime nowMillis ≠ 0 ∧ set.lifetime nowMillis ≤ 0xffff ↔
      ∀ lease ∈ set.leases,
        (clipLease set.offline lease).endDate.toNat ≤ nowMillis.toNat / 1000 + 0xffff := by
  have hbound (bound : Nat) := @foldl_max_le_iff
    ((set.leases.map (clipLease set.offline)).map Lease2.endDate) 0 bound
  unfold lifetime
  generalize ((set.leases.map (clipLease set.offline)).map Lease2.endDate).foldl max 0 = latest at *
  simp only [forall_mem_map, UInt32.toNat_zero, Nat.zero_le, true_and] at hbound
  have hlater : nowMillis.toNat / 1000 < latest.toNat := by
    by_contra hearlier
    obtain ⟨lease, hmem, hless⟩ := hlive
    have := (hbound _).mp (Nat.not_lt.mp hearlier) lease hmem
    omega
  have hsecond : (nowMillis / 1000).toNat = nowMillis.toNat / 1000 := UInt64.toNat_div _ _
  have hlifetime : (latest.toUInt64 - nowMillis / 1000).toNat = latest.toNat - nowMillis.toNat / 1000 := by
    rw [UInt64.toNat_sub_of_le _ _ (UInt64.le_iff_toNat_le.mpr (by
      rw [UInt32.toNat_toUInt64]; omega)), hsecond, UInt32.toNat_toUInt64]
  rw [← hbound, UInt64.le_iff_toNat_le, ne_eq, ← UInt64.toNat_inj]
  change ¬_ = 0 ∧ _ ≤ 0xffff ↔ _
  omega

/-- With a lease that ends after the current second, a buffer for the payload and a key that
signs, the leases that end after the second are published if and only if all of them do. -/
theorem live_leases_published_iff (set replaced : LocalLeaseSet2) (leases : List Lease)
    (space : Nat) (nowMillis : UInt64) (sign : Bytes → Option Bytes)
    (hreplaced : set.replaceInboundLeases leases = some replaced)
    (hlive : ∃ lease ∈ replaced.leases, nowMillis.toNat / 1000 < lease.endDate.toNat)
    (hspace : ∀ fields ∈ replaced.offlineFields (nowMillis / 1000),
      (replaced.unsignedBytes nowMillis fields).length + fields.signingType.signatureLen ≤ space)
    (hsign : ∀ fields ∈ replaced.offlineFields (nowMillis / 1000), ∀ bytes, ∃ signature,
      sign bytes = some signature ∧ signature.length = fields.signingType.signatureLen) :
    (∃ payload, replaced.marshalTo space nowMillis sign = .ok payload ∧
        replaced.Publishes nowMillis payload) ↔
      replaced.AllLive nowMillis := by
  obtain ⟨live, hmem, hless⟩ := hlive
  have hdiv : (nowMillis / 1000).toNat = nowMillis.toNat / 1000 := UInt64.toNat_div _ _
  have hseconds : (nowMillis / 1000).toUInt32.toNat = nowMillis.toNat / 1000 := by
    have := live.endDate.toNat_lt
    rw [UInt64.toNat_toUInt32, hdiv, Nat.mod_eq_of_lt (by omega)]
  constructor
  · rintro ⟨payload, hpayload, -⟩
    obtain ⟨-, -, fields, -, hfields, hleases, hlifetime, -⟩ := marshalTo_eq_ok_iff.mp hpayload
    have hends : ∀ lease ∈ replaced.leases,
        nowMillis.toNat / 1000 < (clipLease replaced.offline lease).endDate.toNat := by
      intro lease hlease
      have := lt_iff_toNat_lt.mp (hleases _ (mem_map_of_mem hlease)).2
      rwa [hseconds] at this
    refine ⟨by rw [hfields]; rfl, fun lease hlease => ⟨hends _ hlease, ?_⟩⟩
    exact (lifetime_iff ⟨live, hmem, hends _ hmem⟩).mp hlifetime lease hlease
  · rintro ⟨hauthorised, hends⟩
    obtain ⟨fields, hfields⟩ := Option.isSome_iff_exists.mp hauthorised
    obtain ⟨signature, hsigned, hlength⟩ :=
      hsign _ hfields (3 :: replaced.unsignedBytes nowMillis fields)
    obtain ⟨hfew, htunnels⟩ := leases_of_replaceInboundLeases hreplaced
    have hknown : replaced.types ⊆ [.mlkem1024X25519, .mlkem768X25519, .x25519] := by
      rintro (_ | _ | _) - <;> simp
    have htypes := (subperm_of_subset replaced.distinct.2 hknown).length_le
    refine ⟨_, marshalTo_eq_ok_iff.mpr ⟨⟨Nat.ne_of_gt (length_pos_of_mem hmem), hfew⟩, ?_,
      fields, signature, hfields, ?_, ?_, Nat.le_trans htypes (by decide), hspace _ hfields,
      hsigned, hlength, rfl⟩, replaced.lifetime nowMillis, fields, signature, ?_⟩
    · have := live.endDate.toNat_lt
      rw [UInt64.le_iff_toNat_le, hdiv]
      change _ ≤ 0xffffffff
      omega
    · rintro _ hcut
      obtain ⟨lease, hlease, rfl⟩ := mem_map.mp hcut
      refine ⟨by rw [(clipLease_le _ _).2]; exact htunnels _ hlease, ?_⟩
      rw [lt_iff_toNat_lt, hseconds]
      exact (hends _ hlease).1
    · exact (lifetime_iff ⟨live, hmem, (hends _ hmem).1⟩).mpr fun lease hlease => (hends _ hlease).2
    · have hall : replaced.leases.filter
          (fun lease => nowMillis / 1000 < lease.endDate.toUInt64) = replaced.leases := by
        refine filter_eq_self.mpr fun lease hlease => ?_
        rw [decide_eq_true_eq, UInt64.lt_iff_toNat_lt, hdiv, toNat_toUInt64]
        exact Nat.lt_of_lt_of_le (hends _ hlease).1 (clipLease_le _ _).1
      rw [hall]
      rfl

/-- One lease that lasts is published. -/
theorem live_leases_published_iff_one :
    ∃ replaced, samplePublisher.local2.replaceInboundLeases (sampleCall 0 1).inbound = some replaced ∧
      ∃ payload, replaced.marshalTo maxLeaseSetBytes 1700000000100 sampleSign = .ok payload ∧
        replaced.Publishes 1700000000100 payload := by
  refine ⟨_, rfl, (live_leases_published_iff samplePublisher.local2 _ (sampleCall 0 1).inbound
    _ 1700000000100 _ rfl (by decide) ?_ ?_).mpr (by decide)⟩
  · rintro _ ⟨⟩
    decide +kernel
  · rintro _ ⟨⟩ bytes
    exact ⟨_, rfl, rfl⟩

/-- Beside a lease that lasts ten minutes, one that ends later in the current second: nothing is
published. -/
theorem dying_lease_blocks :
    (samplePublisher.local2.replaceInboundLeases (⟨FixedBytes.zero 32, 2, 1700000000900⟩ ::
        (sampleCall 0 1).inbound)).map
      (fun replaced => replaced.marshalTo maxLeaseSetBytes 1700000000100 sampleSign) =
      some (.error .localLeaseSet2) := by
  decide +kernel

end LocalLeaseSet2

end Ivnp.NetDb
