import Ivnp.NetDb.LeaseExpiries

/-!
Every retained entry is of an object that was read from its own bytes, with the
version and the expiry that the object determines.
-/

namespace Ivnp.NetDb

open Ivnp.Lib Ivnp.Foundation

namespace LeaseObject

def parse (kind : StoreType) (data : Bytes) : Except WireError LeaseObject :=
  match kind with
  | .leaseSet => (parseLeaseSet data).map legacy
  | .leaseSet2 => (parseLeaseSet2 data).map v2
  | .metaLeaseSet => (parseMetaLeaseSet data).map metaSet
  | .encryptedLeaseSet => (parseEncryptedLeaseSet data).map encrypted

def leaseEnds : LeaseObject → List UInt64
  | legacy set => set.leases.map Lease.endDate
  | v2 set => set.leases.map fun lease => secondsMillis lease.endDate
  | metaSet set => set.leases.map fun lease => secondsMillis lease.endDate
  | encrypted _ => []

/-- The times of publication and the lifetime of those that have them. -/
def header : LeaseObject → Option (UInt32 × UInt16)
  | legacy _ => none
  | v2 set => some (set.header.published, set.header.expires)
  | metaSet set => some (set.header.published, set.header.expires)
  | encrypted set => some (set.published, set.expires)

def earliestEnd (object : LeaseObject) : UInt64 := object.leaseEnds.foldl min 0xffffffffffffffff

def version (object : LeaseObject) : UInt64 :=
  match object.header with
  | none => object.earliestEnd
  | some (published, _) => published.toUInt64

def expiry : LeaseObject → UInt64
  | legacy set => (set.leases.map Lease.endDate).foldl max 0
  | v2 set =>
    limitOffline set.header.offline
      (min (signedExpiry set.header.published set.header.expires)
        ((set.leases.map fun lease => secondsMillis lease.endDate).foldl max 0))
  | metaSet set =>
    limitOffline set.header.offline (signedExpiry set.header.published set.header.expires)
  | encrypted set => limitOffline set.offline (signedExpiry set.published set.expires)

/-- A second version that was published at zero and lasts for nothing. -/
def ZeroLifetime (object : LeaseObject) : Prop :=
  object.typeID = .leaseSet2 ∧ object.header = some (0, 0)

instance (object : LeaseObject) : Decidable object.ZeroLifetime :=
  inferInstanceAs (Decidable (_ ∧ _))

end LeaseObject

section Accepted

variable {earliest latest : UInt64}

theorem leaseRange_eq_ok {ends : List UInt64} (h : leaseRange ends = .ok (earliest, latest)) :
    earliest = ends.foldl min 0xffffffffffffffff ∧ latest = ends.foldl max 0 ∧ latest ≠ 0 := by
  unfold leaseRange at h
  dsimp only at h
  split at h
  · cases h
  next hlatest =>
  obtain ⟨rfl, rfl⟩ := Prod.mk.inj (Except.ok.inj h)
  exact ⟨rfl, rfl, hlatest⟩

theorem authorisedRange_eq_ok {offline : Option OfflineSignature} {endDates : List UInt32} (h : authorisedRange offline endDates = .ok (earliest, latest)) :
    (∀ authorisation ∈ offline, ∀ endDate ∈ endDates, endDate ≤ authorisation.expires) ∧
      latest = (endDates.map secondsMillis).foldl max 0 ∧ latest ≠ 0 := by
  unfold authorisedRange at h
  split at h
  · cases h
  next hauthorised =>
  obtain ⟨-, hlatest⟩ := leaseRange_eq_ok h
  refine ⟨?_, hlatest⟩
  rintro authorisation ⟨⟩ endDate hmem
  rw [Option.any_some, Bool.not_eq_true, List.any_eq_false] at hauthorised
  have hle := hauthorised _ hmem
  rw [decide_eq_true_eq] at hle
  exact UInt32.not_lt.mp hle

/-- A time other than zero is before the cutoff of the clock if it is more than the fudge ago. -/
theorem le_cutoff_iff {time now : UInt64} (hnonzero : time ≠ 0) :
    time ≤ (if now > leaseSetClockFudgeMillis then now - leaseSetClockFudgeMillis else 0) ↔
      time.toNat + leaseSetClockFudgeMillis.toNat ≤ now.toNat := by
  have hpos := UInt64.lt_iff_toNat_lt.mp (UInt64.pos_iff_ne_zero.mpr hnonzero)
  rw [UInt64.le_iff_toNat_le]
  split
  next hfudge =>
    rw [UInt64.toNat_sub_of_le _ _ (UInt64.le_of_lt hfudge)]
    omega
  next hfudge =>
    have hle := UInt64.le_iff_toNat_le.mp (UInt64.not_lt.mp hfudge)
    omega

/-- The end of an accepted range is at most the fudge ago. -/
theorem validateLeaseSetRange_eq_none {now maxFuture : UInt64}
    (h : validateLeaseSetRange earliest latest now maxFuture = none) :
    latest ≠ 0 ∧ now.toNat < latest.toNat + leaseSetClockFudgeMillis.toNat := by
  have hcurrent : ¬latest ≤
      (if now > leaseSetClockFudgeMillis then now - leaseSetClockFudgeMillis else 0) := by
    intro hle
    unfold validateLeaseSetRange at h
    rw [if_pos (Or.inr hle)] at h
    cases h
  have hnonzero : latest ≠ 0 := by
    rintro rfl
    exact hcurrent UInt64.zero_le
  rw [le_cutoff_iff hnonzero] at hcurrent
  exact ⟨hnonzero, Nat.not_le.mp hcurrent⟩

theorem secondsMillis_toNat (seconds : UInt32) :
    (secondsMillis seconds).toNat = seconds.toNat * 1000 := by
  have hlt := seconds.toNat_lt
  show seconds.toNat * 1000 % 2 ^ 64 = _
  omega

theorem signedExpiry_toNat (published : UInt32) (expires : UInt16) :
    (signedExpiry published expires).toNat = (published.toNat + expires.toNat) * 1000 := by
  have hpublished := published.toNat_lt
  have hexpires := expires.toNat_lt
  unfold signedExpiry
  rw [UInt64.toNat_mul]
  show (published.toNat + expires.toNat) % 2 ^ 64 * 1000 % 2 ^ 64 = _
  omega

theorem signedExpiry_eq_zero {published : UInt32} {expires : UInt16}
    (h : signedExpiry published expires = 0) : published = 0 ∧ expires = 0 := by
  have hzero : (published.toNat + expires.toNat) * 1000 = 0 := by
    rw [← signedExpiry_toNat, h]
    rfl
  exact ⟨UInt32.toNat_inj.mp (show published.toNat = 0 by omega),
    UInt16.toNat_inj.mp (show expires.toNat = 0 by omega)⟩

theorem foldl_max_mem (ends : List UInt64) (start : UInt64) :
    ends.foldl max start = start ∨ ends.foldl max start ∈ ends := by
  induction ends generalizing start with
  | nil => exact Or.inl rfl
  | cons time rest ih =>
    have hchoice : max start time = start ∨ max start time = time := by
      change (if start ≤ time then time else start) = start ∨ (if start ≤ time then _ else _) = _
      split
      · exact Or.inr rfl
      · exact Or.inl rfl
    rw [List.foldl_cons]
    rcases ih (max start time) with hstart | hmem
    · rw [hstart]
      rcases hchoice with h | h
      · exact Or.inl h
      · rw [h]
        exact Or.inr List.mem_cons_self
    · exact Or.inr (List.mem_cons_of_mem _ hmem)

/-- Of the second versions in range only one with the times zero has the expiry
zero: an authorisation that ends at zero allows no lease. -/
theorem LeaseObject.zeroLifetime_of_range {set : LeaseSet2}
    (hrange : leaseSet2Range set = .ok (earliest, latest)) (h : (v2 set).expiry = 0) :
    (v2 set).ZeroLifetime := by
  obtain ⟨hauthorised, hlatest, hnonzero⟩ := authorisedRange_eq_ok hrange
  rw [List.map_map] at hlatest
  change limitOffline set.header.offline (min (signedExpiry set.header.published set.header.expires)
      ((set.leases.map (secondsMillis ∘ Lease2.endDate)).foldl max 0)) = 0 at h
  rw [← hlatest] at h
  have hmin : min (signedExpiry set.header.published set.header.expires) latest = 0 := by
    unfold limitOffline at h
    cases hoffline : set.header.offline with
    | none =>
      rw [hoffline] at h
      exact h
    | some authorisation =>
      rw [hoffline] at h
      dsimp only at h
      split at h
      · -- no lease ends after the authorisation, so they all end at zero
        rcases foldl_max_mem (set.leases.map (secondsMillis ∘ Lease2.endDate)) 0 with hzero | hmem
        · exact absurd (hlatest.trans hzero) hnonzero
        · rw [← hlatest] at hmem
          obtain ⟨lease, hlease, rfl⟩ := List.mem_map.mp hmem
          have hle := UInt32.le_iff_toNat_le.mp
            (hauthorised _ hoffline lease.endDate (List.mem_map_of_mem hlease))
          have hauthorisation := secondsMillis_toNat authorisation.expires
          rw [h] at hauthorisation
          refine absurd (UInt64.toNat_inj.mp ?_) hnonzero
          show (secondsMillis lease.endDate).toNat = 0
          rw [secondsMillis_toNat]
          change 0 = _ at hauthorisation
          omega
      · exact h
  change (if _ ≤ _ then _ else _) = _ at hmin
  split at hmin
  · obtain ⟨hpublished, hexpires⟩ := signedExpiry_eq_zero hmin
    refine ⟨rfl, ?_⟩
    show some (set.header.published, set.header.expires) = _
    rw [hpublished, hexpires]
  · exact absurd hmin hnonzero

variable {crypto : NetDbCrypto} {store : DatabaseStore} {seenAt : UInt64} {published : Bool}
  {entry : LeaseEntry}

structure LeaseEntry.ReadFrom (entry : LeaseEntry) (kind : StoreType) (data : Bytes) : Prop where
  object : LeaseObject.parse kind data = .ok entry.object
  version : entry.version = entry.object.version
  expires : entry.expires = entry.object.expiry
  lasting : entry.object.expiry = 0 → entry.object.ZeroLifetime

/-- The time that was checked against the clock: of a second version the end of the leases,
whatever the header says. -/
def LeaseObject.checkedEnd : LeaseObject → UInt64
  | v2 set => (set.leases.map fun lease => secondsMillis lease.endDate).foldl max 0
  | object => object.expiry

/-- What an accepted store leaves was authorised and not over at the time. -/
structure LeaseEntry.CurrentAt (entry : LeaseEntry) (seenAt : UInt64) (published : Bool) : Prop where
  published : entry.published = published
  authorised : offlineExpired entry.object.offline seenAt = false
  checked : seenAt.toNat < entry.object.checkedEnd.toNat + leaseSetClockFudgeMillis.toNat

variable (h : acceptStore crypto store seenAt published = .ok entry)
include h

theorem acceptStore_spec :
    entry.ReadFrom store.kind store.data ∧ entry.CurrentAt seenAt published := by
  unfold acceptStore at h
  split at h
  next hkind =>
    unfold acceptLeaseSet at h
    split at h; · cases h
    next parsed hparse =>
    split at h; · cases h
    split at h; · cases h
    split at h; · cases h
    next earliest latest hrange =>
    split at h; · cases h
    next hvalid =>
    obtain ⟨rfl, rfl, hnonzero⟩ := leaseRange_eq_ok hrange
    cases h
    exact ⟨⟨by rw [hkind, LeaseObject.parse, hparse]; rfl, rfl, rfl,
      fun hzero => absurd hzero hnonzero⟩, rfl, rfl, (validateLeaseSetRange_eq_none hvalid).2⟩
  next hkind =>
    unfold acceptLeaseSet2 at h
    split at h; · cases h
    next parsed hparse =>
    dsimp only at h
    split at h; · cases h
    split at h; · cases h
    next hauthorised =>
    split at h; · cases h
    split at h; · cases h
    next earliest latest hrange =>
    split at h; · cases h
    next hvalid =>
    have hlasting := LeaseObject.zeroLifetime_of_range hrange
    obtain ⟨-, hlatest, -⟩ := authorisedRange_eq_ok hrange
    rw [List.map_map] at hlatest
    subst hlatest
    cases h
    exact ⟨⟨by rw [hkind, LeaseObject.parse, hparse]; rfl, rfl, rfl, hlasting⟩, rfl,
      Bool.eq_false_of_not_eq_true hauthorised, (validateLeaseSetRange_eq_none hvalid).2⟩
  next hkind =>
    unfold acceptMetaLeaseSet at h
    split at h; · cases h
    next parsed hparse =>
    dsimp only at h
    split at h; · cases h
    split at h; · cases h
    next hauthorised =>
    split at h; · cases h
    split at h; · cases h
    next earliest latest hrange =>
    split at h; · cases h
    next hvalid =>
    cases h
    obtain ⟨hnonzero, hchecked⟩ := validateLeaseSetRange_eq_none hvalid
    -- the end of the checked range is the expiry or before it
    have hle : (if limitOffline parsed.header.offline (signedExpiry parsed.header.published
        parsed.header.expires) < latest then limitOffline parsed.header.offline
          (signedExpiry parsed.header.published parsed.header.expires) else latest) ≤
        (LeaseObject.metaSet parsed).expiry := by
      split
      · exact UInt64.le_refl _
      next hless => exact UInt64.not_lt.mp hless
    rw [UInt64.le_iff_toNat_le] at hle
    refine ⟨⟨by rw [hkind, LeaseObject.parse, hparse]; rfl, rfl, rfl, fun hzero => ?_⟩, rfl,
      Bool.eq_false_of_not_eq_true hauthorised, ?_⟩
    · rw [hzero] at hle
      exact absurd (UInt64.toNat_inj.mp (Nat.le_zero.mp hle)) hnonzero
    · exact Nat.lt_of_lt_of_le hchecked (Nat.add_le_add_right hle _)
  next hkind =>
    unfold acceptEncryptedLeaseSet at h
    split at h; · cases h
    next parsed hparse =>
    dsimp only at h
    split at h; · cases h
    next hauthorised =>
    split at h; · cases h
    next hvalid =>
    split at h; · cases h
    split at h; · cases h
    cases h
    obtain ⟨hnonzero, hchecked⟩ := validateLeaseSetRange_eq_none hvalid
    exact ⟨⟨by rw [hkind, LeaseObject.parse, hparse]; rfl, rfl, rfl, fun hzero => absurd hzero hnonzero⟩,
      rfl, Bool.eq_false_of_not_eq_true hauthorised, hchecked⟩

theorem acceptStore_readFrom :
    entry.ReadFrom store.kind store.data := (acceptStore_spec h).1

omit h

theorem LeaseObject.parse_eq_ok {kind : StoreType} {data : Bytes} {object : LeaseObject}
    (h : LeaseObject.parse kind data = .ok object) :
    object.typeID = kind ∧ object.bytes = data := by
  unfold LeaseObject.parse at h
  split at h
  · cases hparse : parseLeaseSet data with
    | error error => rw [hparse] at h; cases h
    | ok set =>
      rw [hparse] at h
      cases h
      exact ⟨rfl, parseLeaseSet_raw hparse⟩
  · cases hparse : parseLeaseSet2 data with
    | error error => rw [hparse] at h; cases h
    | ok set =>
      rw [hparse] at h
      cases h
      exact ⟨rfl, (parseLeaseSet2_eq_ok hparse).1⟩
  · cases hparse : parseMetaLeaseSet data with
    | error error => rw [hparse] at h; cases h
    | ok set =>
      rw [hparse] at h
      cases h
      exact ⟨rfl, parseMetaLeaseSet_raw hparse⟩
  · cases hparse : parseEncryptedLeaseSet data with
    | error error => rw [hparse] at h; cases h
    | ok set =>
      rw [hparse] at h
      cases h
      exact ⟨rfl, parseEncryptedLeaseSet_raw hparse⟩

end Accepted

namespace Database

structure Sound (db : Database) : Prop where
  consistent : db.Consistent
  readFrom : ∀ key entry, db.leases.lookup key = some entry →
    entry.ReadFrom entry.object.typeID entry.object.bytes

theorem sound_new : new.Sound := by
  refine ⟨consistent_new, fun key entry hlookup => ?_⟩
  simp [new] at hlookup

variable {crypto : NetDbCrypto} {db : Database}

/-- What is retained under the key after `retain`: the old entry, perhaps marked
as published, or the new one if there was none or one of a smaller version. -/
theorem lookup_retain (key : Hash) (entry : LeaseEntry) :
    (db.retain key entry).leases.lookup key =
      some (match db.leases.lookup key with
        | none => entry
        | some old =>
          if old.version ≥ entry.version then
            { old with published := old.published || entry.published }
          else entry) := by
  unfold retain
  cases hlookup : db.leases.lookup key with
  | none => exact lookup_storeLeaseEntry _ _
  | some old =>
    dsimp only
    split
    · split
      next hmark => rw [AList.lookup_insert, hmark.1, Bool.or_true]
      next hmark =>
        have hsame : (old.published || entry.published) = old.published := by
          cases hnew : entry.published with
          | false => exact Bool.or_false _
          | true =>
            have hold : old.published = true := by simpa [hnew] using hmark
            rw [hold, Bool.or_true]
        rw [hlookup, hsame]
    · exact lookup_storeLeaseEntry _ _

theorem lookup_retain_of_ne (hdb : db.Consistent) {key other : Hash} {entry found : LeaseEntry}
    (hne : other ≠ key) (hlookup : (db.retain key entry).leases.lookup other = some found) :
    db.leases.lookup other = some found := by
  unfold retain at hlookup
  split at hlookup
  · exact lookup_storeLeaseEntry_of_ne hdb _ hne hlookup
  split at hlookup
  · split at hlookup
    · rwa [AList.lookup_insert_ne hne] at hlookup
    · exact hlookup
  · exact lookup_storeLeaseEntry_of_ne hdb _ hne hlookup

theorem Sound.retain (hdb : db.Sound) {key : Hash} {entry : LeaseEntry}
    (hentry : entry.ReadFrom entry.object.typeID entry.object.bytes) :
    (db.retain key entry).Sound := by
  refine ⟨hdb.consistent.retain _ _, fun other found hlookup => ?_⟩
  by_cases hkey : other = key
  · rw [hkey, lookup_retain] at hlookup
    cases hold : db.leases.lookup key with
    | none =>
      rw [hold] at hlookup
      exact Option.some.inj hlookup ▸ hentry
    | some old =>
      rw [hold] at hlookup
      dsimp only at hlookup
      obtain ⟨hobject, hversion, hexpires, hlasting⟩ := hdb.readFrom _ _ hold
      split at hlookup
      · cases hlookup
        exact ⟨hobject, hversion, hexpires, hlasting⟩
      · exact Option.some.inj hlookup ▸ hentry
  · exact hdb.readFrom _ _ (lookup_retain_of_ne hdb.consistent hkey hlookup)

theorem step_store {store : DatabaseStore} {seenAt : UInt64} {published : Bool} {entry : LeaseEntry}
    (haccept : acceptStore crypto store seenAt published = .ok entry) :
    db.step crypto (.store store seenAt published) = db.retain store.key entry := by
  unfold step handleDatabaseStore
  dsimp only
  rw [haccept]

theorem Sound.step (hdb : db.Sound) (operation : Operation) : (db.step crypto operation).Sound := by
  cases operation with
  | store store seenAt published =>
    unfold Database.step handleDatabaseStore
    dsimp only
    split
    · exact hdb
    next entry haccept =>
    have hread := acceptStore_readFrom haccept
    obtain ⟨hkind, hbytes⟩ := LeaseObject.parse_eq_ok hread.object
    rw [← hkind, ← hbytes] at hread
    exact hdb.retain hread
  | expire now =>
    obtain ⟨hconsistent, hlookup⟩ := expireLeases_spec _ hdb.consistent
    exact ⟨hconsistent, fun key entry hentry => hdb.readFrom _ _ ((hlookup _ _).mp hentry).1⟩

theorem after_sound (operations : List Operation) : (after crypto operations).Sound :=
  run_preserves (I := Sound) (fun _ operation hdb => hdb.step operation) sound_new _

end Database

end Ivnp.NetDb
