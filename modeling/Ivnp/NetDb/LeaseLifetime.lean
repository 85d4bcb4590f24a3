import Ivnp.NetDb.LeaseVersions

/-!
How long a stored lease set is returned. The time zero stands for no expiry, and
a second version whose header says that it was published at zero and lasts for
nothing is stored with that time.
-/

namespace Ivnp.NetDb

open Ivnp.Lib Ivnp.Foundation

theorem limitOffline_le (offline : Option OfflineSignature) (expires : UInt64) :
    limitOffline offline expires ≤ expires := by
  unfold limitOffline
  cases offline with
  | none => exact UInt64.le_refl _
  | some offline =>
    dsimp only
    split
    next hlt => exact UInt64.le_of_lt hlt
    · exact UInt64.le_refl _

variable {object : LeaseObject} {now : UInt64}

namespace LeaseObject

/-- The time is past the signed expiry and past the ends of all leases, by more
than the clocks may differ. -/
def Outlived (object : LeaseObject) (now : UInt64) : Prop :=
  (∀ header ∈ object.header,
    (signedExpiry header.1 header.2).toNat + leaseSetClockFudgeMillis.toNat < now.toNat) ∧
  ∀ time ∈ object.leaseEnds, time.toNat + leaseSetClockFudgeMillis.toNat < now.toNat

instance (object : LeaseObject) (now : UInt64) : Decidable (object.Outlived now) :=
  have := Option.decidableForallMem (p := fun header : UInt32 × UInt16 =>
    (signedExpiry header.1 header.2).toNat + leaseSetClockFudgeMillis.toNat < now.toNat)
    object.header
  have := List.decidableBAll (fun time : UInt64 =>
    time.toNat + leaseSetClockFudgeMillis.toNat < now.toNat) object.leaseEnds
  inferInstanceAs (Decidable (_ ∧ _))

theorem expiry_lt_of_outlived (hnonzero : object.expiry ≠ 0) (h : object.Outlived now) :
    object.expiry.toNat + leaseSetClockFudgeMillis.toNat < now.toNat := by
  obtain ⟨hheader, hends⟩ := h
  -- with a header the expiry is at most the signed one
  have hsigned {published : UInt32} {expires : UInt16} (offline : Option OfflineSignature)
      {time : UInt64} (hle : time ≤ signedExpiry published expires)
      (hsome : object.header = some (published, expires))
      (hexpiry : object.expiry = limitOffline offline time) :
      object.expiry.toNat + leaseSetClockFudgeMillis.toNat < now.toNat := by
    have hbound := UInt64.le_iff_toNat_le.mp (UInt64.le_trans (limitOffline_le offline _) hle)
    have hpast := hheader _ hsome
    rw [hexpiry]
    dsimp only at hpast
    omega
  cases object with
  | legacy set =>
    rcases foldl_max_mem (set.leases.map Lease.endDate) 0 with hzero | hmem
    · exact absurd hzero hnonzero
    · exact hends _ hmem
  | v2 set => exact hsigned set.header.offline Std.min_le_left rfl rfl
  | metaSet set => exact hsigned set.header.offline (UInt64.le_refl _) rfl rfl
  | encrypted set => exact hsigned set.offline (UInt64.le_refl _) rfl rfl

theorem ZeroLifetime.expiry (h : object.ZeroLifetime) : object.expiry = 0 := by
  obtain ⟨hkind, hheader⟩ := h
  cases object with
  | v2 set =>
    obtain ⟨hpublished, hexpires⟩ := Prod.mk.inj (Option.some.inj hheader)
    have hle : (v2 set).expiry ≤ signedExpiry set.header.published set.header.expires :=
      UInt64.le_trans (limitOffline_le _ _) Std.min_le_left
    rw [hpublished, hexpires] at hle
    exact UInt64.le_zero_iff.mp hle
  | legacy | metaSet | encrypted => cases hkind

end LeaseObject

theorem leaseEntryExpired_of_lt {entry : LeaseEntry} (hnonzero : entry.expires ≠ 0)
    (hlt : entry.expires.toNat + leaseSetClockFudgeMillis.toNat < now.toNat) :
    leaseEntryExpired entry now = true := by
  unfold leaseEntryExpired
  split
  · rfl
  rw [decide_eq_true_eq]
  exact ⟨hnonzero, (le_cutoff_iff hnonzero).mpr (Nat.le_of_lt hlt)⟩

namespace Database

variable {crypto : NetDbCrypto} {db : Database} {key : Hash} {entry : LeaseEntry}

/-- A database from which an outlived object is gone: it is not returned, and not
there after old entries are dropped. -/
def Forgets (db : Database) (key : Hash) (object : LeaseObject) (now : UInt64) : Prop :=
  db.storedPublishedLeaseSet key now ≠ some (object.typeID, object.bytes) ∧
    ∀ kept, (db.expireLeases now).1.leases.lookup key = some kept → kept.object ≠ object

theorem Sound.forgets (hdb : db.Sound)
    (hparse : LeaseObject.parse object.typeID object.bytes = .ok object)
    (hnonzero : object.expiry ≠ 0) (houtlived : object.Outlived now) :
    db.Forgets key object now := by
  have hpast := LeaseObject.expiry_lt_of_outlived hnonzero houtlived
  constructor
  · intro hreturned
    unfold storedPublishedLeaseSet at hreturned
    split at hreturned
    · cases hreturned
    next kept hlookup =>
    split at hreturned
    · cases hreturned
    next hcurrent =>
    split at hreturned
    · cases hreturned
    -- the same type and bytes are the same object
    have hread := hdb.readFrom _ _ hlookup
    obtain ⟨hkind, hbytes⟩ := Prod.mk.inj (Option.some.inj hreturned)
    have hsame : kept.object = object := by
      have hobject := hread.object
      rw [hkind, hbytes, hparse] at hobject
      exact (Except.ok.inj hobject).symm
    have hexpires := hread.expires
    rw [hsame] at hexpires
    apply hcurrent
    right
    apply leaseEntryExpired_of_lt
    · rwa [hexpires]
    · rwa [hexpires]
  · rintro kept hlookup rfl
    obtain ⟨hbefore, hkept⟩ := ((expireLeases_spec _ hdb.consistent).2 key kept).mp hlookup
    rw [(hdb.readFrom _ _ hbefore).expires] at hkept
    rcases hkept with hzero | hlate
    · exact hnonzero hzero
    · have hle := UInt64.le_iff_toNat_le.mp hlate
      omega

/-- Without a time an object stays where it is retained. -/
theorem not_forgets (hdb : db.Consistent) (hlookup : db.leases.lookup key = some entry)
    (hzero : entry.expires = 0) (now : UInt64) : ¬ db.Forgets key entry.object now := by
  rintro ⟨-, hgone⟩
  exact hgone _ (((expireLeases_spec _ hdb).2 key entry).mpr ⟨hlookup, Or.inl hzero⟩) rfl

/-- An accepted lease set, whatever happened before and after, is forgotten at
every time that it is outlived, if and only if it is not a second version with
the times zero. -/
theorem outlived_forgotten_iff (crypto : NetDbCrypto) (store : DatabaseStore) (seenAt : UInt64)
    (published : Bool) (entry : LeaseEntry)
    (haccept : acceptStore crypto store seenAt published = .ok entry) :
    (∀ earlier later now, entry.object.Outlived now →
      (after crypto (earlier ++ .store store seenAt published :: later)).Forgets store.key
        entry.object now) ↔
      ¬ entry.object.ZeroLifetime := by
  have hread := acceptStore_readFrom haccept
  constructor
  · intro hforgets hzero
    -- the first store is retained, and there is a time past all ends of leases
    have houtlived : entry.object.Outlived 0xffffffffffffffff := by
      constructor
      · rintro ⟨started, lasts⟩ -
        have hstarted := started.toNat_lt
        have hlasts := lasts.toNat_lt
        dsimp only
        rw [signedExpiry_toNat]
        show _ + 60000 < 18446744073709551615
        omega
      · intro time hmem
        obtain ⟨set, hset⟩ : ∃ set, entry.object = .v2 set := by
          cases hobject : entry.object with
          | v2 set => exact ⟨set, rfl⟩
          | legacy | metaSet | encrypted =>
            have hkind := hzero.1
            rw [hobject] at hkind
            cases hkind
        rw [hset] at hmem
        obtain ⟨lease, -, rfl⟩ := List.mem_map.mp hmem
        have hend := lease.endDate.toNat_lt
        rw [secondsMillis_toNat]
        show _ + 60000 < 18446744073709551615
        omega
    have hlookup : (after crypto [.store store seenAt published]).leases.lookup store.key =
        some entry := by
      show (new.step crypto (.store store seenAt published)).leases.lookup store.key = _
      rw [step_store haccept]
      exact (lookup_retain store.key _).trans rfl
    exact not_forgets (after_consistent _ _) hlookup (hread.expires.trans hzero.expiry) _
      (hforgets [] [] _ houtlived)
  · intro hlasting earlier later now houtlived
    obtain ⟨hkind, hbytes⟩ := LeaseObject.parse_eq_ok hread.object
    refine (after_sound _).forgets ?_ (fun hzero => hlasting (hread.lasting hzero)) houtlived
    rw [hkind, hbytes]
    exact hread.object

/-- A second version with a lifetime is gone a minute after it. -/
theorem outlived_forgotten_second_version :
    ∃ entry, acceptStore trusting (sampleSecond 1700000050 600 1700000600) sampleClock true =
        .ok entry ∧
      entry.object.Outlived 1700000710001 ∧
      (after trusting [.store (sampleSecond 1700000050 600 1700000600) sampleClock true]).Forgets
        sampleHash entry.object 1700000710001 := by
  have haccepted : ((Operation.store (sampleSecond 1700000050 600 1700000600) sampleClock
      true).accepted trusting).any (fun entry =>
        entry.object.Outlived 1700000710001 ∧ ¬ entry.object.ZeroLifetime) = true := by
    decide +kernel
  obtain ⟨entry, hentry, hholds⟩ := (Option.any_eq_true _ _).mp haccepted
  obtain ⟨_, _, _, ⟨⟩, haccept⟩ := Operation.accepted_eq_some hentry
  obtain ⟨houtlived, hlasting⟩ := of_decide_eq_true hholds
  refine ⟨entry, haccept, houtlived, ?_⟩
  exact (outlived_forgotten_iff _ _ _ _ _ haccept).mpr hlasting [] [] _ houtlived

/-- A second version with the times zero and leases like the others' is accepted,
and it is still returned and retained ten years later. -/
theorem zero_lifetime_not_forgotten :
    ((after trusting [.store (sampleSecond 0 0 1700000600) sampleClock true]).storedPublishedLeaseSet
        sampleHash 2015360100000).map Prod.fst = some .leaseSet2 ∧
      ((after trusting [.store (sampleSecond 0 0 1700000600) sampleClock true]).expireLeases
        2015360100000).1.leases.lookup sampleHash ≠ none ∧
      ((Operation.store (sampleSecond 0 0 1700000600) sampleClock true).accepted trusting).any
        (fun entry => entry.object.Outlived 2015360100000) = true := by
  decide +kernel

end Database

end Ivnp.NetDb
