import Ivnp.NetDb.LeaseLifetime

/-!
Whether a lease set can be served at the moment it is accepted. Of a second version the ends of
the leases are checked against the clock, but what is stored is the expiry of its header: a set
whose header has run out is acknowledged and retained, and it is never returned.
-/

namespace Ivnp.NetDb

open Ivnp.Lib Ivnp.Foundation

/-- A second version with a lifetime that ended a minute ago or earlier. -/
def LeaseObject.RunOut (object : LeaseObject) (now : UInt64) : Prop :=
  object.typeID = .leaseSet2 ∧ ¬object.ZeroLifetime ∧ ∀ header ∈ object.header,
    (signedExpiry header.1 header.2).toNat + leaseSetClockFudgeMillis.toNat ≤ now.toNat

/-- An authorisation that has not ended does not make a time pass earlier. -/
theorem limitOffline_past_iff {offline : Option OfflineSignature} {now : UInt64}
    (h : offlineExpired offline now = false) (time : UInt64) :
    (limitOffline offline time).toNat + leaseSetClockFudgeMillis.toNat ≤ now.toNat ↔
      time.toNat + leaseSetClockFudgeMillis.toNat ≤ now.toNat := by
  have hfudge : leaseSetClockFudgeMillis.toNat = 60000 := rfl
  cases offline with
  | none => exact Iff.rfl
  | some offline =>
    have hlasts := UInt64.le_iff_toNat_le.mp (UInt64.not_lt.mp (of_decide_eq_false h))
    unfold limitOffline
    dsimp only
    split
    next hless =>
      have := UInt64.lt_iff_toNat_lt.mp hless
      omega
    · exact Iff.rfl

variable {entry : LeaseEntry} {kind : StoreType} {data : Bytes} {now : UInt64} {published : Bool}

/-- What is accepted has expired at the same moment exactly if its header has run out. -/
theorem leaseEntryExpired_iff (hread : entry.ReadFrom kind data)
    (hcurrent : entry.CurrentAt now published) :
    leaseEntryExpired entry now = true ↔ entry.object.RunOut now := by
  obtain ⟨-, hauthorised, hchecked⟩ := hcurrent
  unfold leaseEntryExpired
  rw [if_neg (Bool.eq_false_iff.mp hauthorised), decide_eq_true_eq, hread.expires]
  by_cases hzero : entry.object.expiry = 0
  · exact iff_of_false (fun h => h.1 hzero) (fun h => h.2.1 (hread.lasting hzero))
  rw [le_cutoff_iff hzero, and_iff_right hzero]
  have hlasting : ¬entry.object.ZeroLifetime := fun h => hzero h.expiry
  cases hobject : entry.object with
  | v2 set =>
    rw [hobject] at hauthorised hchecked hlasting
    refine (limitOffline_past_iff hauthorised _).trans ?_
    have hleft : (min (signedExpiry set.header.published set.header.expires)
          (LeaseObject.v2 set).checkedEnd).toNat + leaseSetClockFudgeMillis.toNat ≤ now.toNat ↔
        (signedExpiry set.header.published set.header.expires).toNat +
          leaseSetClockFudgeMillis.toNat ≤ now.toNat := by
      change (if _ ≤ _ then _ else _ : UInt64).toNat + _ ≤ _ ↔ _
      split
      · exact Iff.rfl
      next hmore =>
        have := UInt64.lt_iff_toNat_lt.mp (UInt64.not_le.mp hmore)
        omega
    refine hleft.trans ?_
    constructor
    · intro h
      refine ⟨rfl, hlasting, ?_⟩
      rintro _ ⟨⟩
      exact h
    · rintro ⟨-, -, hpast⟩
      exact hpast (set.header.published, set.header.expires) rfl
  | legacy set | metaSet set | encrypted set =>
    rw [hobject] at hchecked
    exact iff_of_false (Nat.not_le.mpr hchecked) (fun h => nomatch h.1)

namespace Database

/-- A store that is accepted at `now` and is newer than what is retained under its key is
returned at `now`, unless it is a second version whose header has run out. -/
theorem accepted_served_iff (crypto : NetDbCrypto) (db : Database) (store : DatabaseStore)
    (now : UInt64) (entry : LeaseEntry) (haccept : acceptStore crypto store now true = .ok entry)
    (hnewer : ∀ old ∈ db.leases.lookup store.key, old.version < entry.version) :
    (db.handleDatabaseStore crypto store now true).1.storedPublishedLeaseSet store.key now =
        some (store.kind, store.data) ↔
      ¬entry.object.RunOut now := by
  obtain ⟨hread, hcurrent⟩ := acceptStore_spec haccept
  obtain ⟨hkind, hbytes⟩ := LeaseObject.parse_eq_ok hread.object
  have hlookup : (db.retain store.key entry).leases.lookup store.key = some entry := by
    rw [lookup_retain]
    cases hold : db.leases.lookup store.key with
    | none => rfl
    | some old =>
      dsimp only
      rw [if_neg (UInt64.not_le.mpr (hnewer _ hold))]
  have hdata : ¬entry.object.bytes.length = 0 := by
    rw [hbytes, List.length_eq_zero_iff]
    intro hnil
    have hobject := hread.object
    rw [hnil] at hobject
    revert hobject
    cases store.kind <;> nofun
  unfold handleDatabaseStore storedPublishedLeaseSet
  rw [haccept]
  dsimp only
  rw [hlookup]
  dsimp only
  rw [hcurrent.published, ← leaseEntryExpired_iff hread hcurrent, if_neg hdata, hkind, hbytes]
  cases leaseEntryExpired entry now <;> simp

/-- A second version that is published now is returned. -/
theorem accepted_served_iff_second :
    (new.handleDatabaseStore trusting (sampleSecond 1700000050 600 1700000600) sampleClock
        true).1.storedPublishedLeaseSet sampleHash sampleClock =
      some (.leaseSet2, (sampleSecond 1700000050 600 1700000600).data) := by
  have haccepted : ((Operation.store (sampleSecond 1700000050 600 1700000600) sampleClock
      true).accepted trusting).any (fun entry => entry.object.header = some (1700000050, 600)) =
        true := by
    decide +kernel
  obtain ⟨entry, hentry, hheader⟩ := (Option.any_eq_true _ _).mp haccepted
  obtain ⟨_, _, _, ⟨⟩, haccept⟩ := Operation.accepted_eq_some hentry
  have hserved := accepted_served_iff _ new _ _ _ haccept (by rintro _ ⟨⟩)
  refine hserved.mpr ?_
  rintro ⟨-, -, hpast⟩
  exact absurd (hpast _ (of_decide_eq_true hheader)) (by decide)

/-- A second version whose header ran out a quarter of an hour ago, with a lease of the next
minutes: it is accepted and retained, and not returned. -/
theorem accepted_not_served :
    (new.handleDatabaseStore trusting (sampleSecond 1699999000 200 1700000600) sampleClock true).2 =
        .ok () ∧
      (new.handleDatabaseStore trusting (sampleSecond 1699999000 200 1700000600) sampleClock
        true).1.leases.lookup sampleHash ≠ none ∧
      (new.handleDatabaseStore trusting (sampleSecond 1699999000 200 1700000600) sampleClock
        true).1.storedPublishedLeaseSet sampleHash sampleClock = none := by
  decide +kernel

end Database

end Ivnp.NetDb
