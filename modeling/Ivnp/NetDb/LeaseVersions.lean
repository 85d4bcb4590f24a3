import Ivnp.NetDb.Retention

/-!
Which of two lease sets under one key is retained. A legacy set has the time of
its first lease to end as its version, in milliseconds; the others have the time
of publication, in seconds, and the two are compared as numbers.
-/

namespace Ivnp.NetDb

open Ivnp.Lib Ivnp.Foundation UInt64

namespace LeaseObject

def versionTime (object : LeaseObject) : Nat :=
  match object.header with
  | none => object.earliestEnd.toNat
  | some (published, _) => published.toNat * 1000

/-- The first end of a legacy set is before the publication of the other one as
numbers too, or not before it as times. -/
def Comparable (old new : LeaseObject) : Prop :=
  match old.header, new.header with
  | none, some (published, _) =>
    old.earliestEnd.toNat < published.toNat ∨ published.toNat * 1000 ≤ old.earliestEnd.toNat
  | some (published, _), none =>
    new.earliestEnd.toNat ≤ published.toNat ∨ published.toNat * 1000 ≤ new.earliestEnd.toNat
  | none, none => True
  | some _, some _ => True

instance (old new : LeaseObject) : Decidable (old.Comparable new) :=
  match hold : old.header, hnew : new.header with
  | none, some (published, _) =>
    decidable_of_iff
      (old.earliestEnd.toNat < published.toNat ∨ published.toNat * 1000 ≤ old.earliestEnd.toNat)
      (by rw [Comparable, hold, hnew])
  | some (published, _), none =>
    decidable_of_iff
      (new.earliestEnd.toNat ≤ published.toNat ∨ published.toNat * 1000 ≤ new.earliestEnd.toNat)
      (by rw [Comparable, hold, hnew])
  | none, none => .isTrue (by rw [Comparable, hold, hnew]; trivial)
  | some _, some _ => .isTrue (by rw [Comparable, hold, hnew]; trivial)

/-- Two objects are comparable when the order of their versions is that of the
times they stand for. -/
theorem comparable_iff (old new : LeaseObject) :
    old.Comparable new ↔
      (new.version ≤ old.version → new.versionTime ≤ old.versionTime) ∧
        (old.version < new.version → old.versionTime ≤ new.versionTime) := by
  simp only [le_iff_toNat_le, lt_iff_toNat_lt]
  unfold Comparable version versionTime
  cases old.header with
  | none =>
    cases new.header with
    | none => simp only [true_iff]; omega
    | some header =>
      simp only [UInt32.toNat_toUInt64]
      omega
  | some published =>
    cases new.header with
    | none =>
      simp only [UInt32.toNat_toUInt64]
      omega
    | some header =>
      simp only [UInt32.toNat_toUInt64, true_iff]
      omega

end LeaseObject

namespace Database

def Operation.accepted (crypto : NetDbCrypto) : Operation → Option LeaseEntry
  | .store message seenAt published => (acceptStore crypto message seenAt published).toOption
  | .expire _ => none

def Operation.Under (key : Hash) : Operation → Prop
  | .store message _ _ => message.key = key
  | .expire _ => False

instance (key : Hash) : DecidablePred (Operation.Under key)
  | .store message _ _ => inferInstanceAs (Decidable (message.key = key))
  | .expire _ => inferInstanceAs (Decidable False)

/-- What is retained under the key, if it is older or newer than what arrives,
can be told so by the versions. -/
def Compares (crypto : NetDbCrypto) (key : Hash) (db : Database) (operation : Operation) : Prop :=
  ∀ old ∈ db.leases.lookup key, ∀ new ∈ operation.accepted crypto, old.object.Comparable new.object

instance (crypto : NetDbCrypto) (key : Hash) (db : Database) (operation : Operation) :
    Decidable (db.Compares crypto key operation) :=
  Option.decidableForallMem _

def NewerRetained (db : Database) (key : Hash) (old new : LeaseObject) : Prop :=
  ∃ kept, db.leases.lookup key = some kept ∧
    (old.versionTime < new.versionTime → kept.object = new) ∧
    (new.versionTime < old.versionTime → kept.object = old)

def RetainsSince (key : Hash) (time : Nat) (db : Database) : Prop :=
  ∃ kept, db.leases.lookup key = some kept ∧ time ≤ kept.object.versionTime

variable {crypto : NetDbCrypto} {db : Database} {key : Hash}

variable {operation : Operation} {new : LeaseEntry}

theorem Operation.accepted_eq_some (h : operation.accepted crypto = some new) :
    ∃ message seenAt published, operation = .store message seenAt published ∧
      acceptStore crypto message seenAt published = .ok new := by
  cases operation with
  | store message seenAt published =>
    refine ⟨message, seenAt, published, rfl, ?_⟩
    change (acceptStore crypto message seenAt published).toOption = some new at h
    cases haccept : acceptStore crypto message seenAt published with
    | error error =>
      rw [haccept] at h
      cases h
    | ok entry =>
      rw [haccept] at h
      cases h
      rfl
  | expire now => cases h

theorem step_of_accepted (hunder : operation.Under key)
    (haccepted : operation.accepted crypto = some new) :
    db.step crypto operation = db.retain key new := by
  obtain ⟨message, seenAt, published, rfl, haccept⟩ := Operation.accepted_eq_some haccepted
  obtain rfl := hunder
  exact step_store haccept

theorem step_of_refused (hunder : operation.Under key) (hrefused : operation.accepted crypto = none) :
    db.step crypto operation = db := by
  cases operation with
  | store message seenAt published =>
    change (acceptStore crypto message seenAt published).toOption = none at hrefused
    unfold step handleDatabaseStore
    dsimp only
    cases haccept : acceptStore crypto message seenAt published with
    | error error => rfl
    | ok entry =>
      rw [haccept] at hrefused
      cases hrefused
  | expire now => exact hunder.elim

theorem accepted_version (haccepted : operation.accepted crypto = some new) :
    new.version = new.object.version := by
  obtain ⟨message, seenAt, published, -, haccept⟩ := Operation.accepted_eq_some haccepted
  exact (acceptStore_readFrom haccept).version

variable (hdb : db.Sound) (hunder : operation.Under key)
include hdb hunder

/-- What one more accepted store leaves: the old object if its version is at
least the new one's, and otherwise the new one. -/
theorem lookup_step {old : LeaseEntry}
    (hold : db.leases.lookup key = some old) (haccepted : operation.accepted crypto = some new) :
    ∃ kept, (db.step crypto operation).leases.lookup key = some kept ∧
      kept.object = if new.object.version ≤ old.object.version then old.object else new.object := by
  rw [step_of_accepted hunder haccepted, lookup_retain, hold]
  refine ⟨_, rfl, ?_⟩
  dsimp only
  rw [(hdb.readFrom _ _ hold).version, accepted_version haccepted]
  split <;> rfl

theorem newerRetained_step_iff {old : LeaseEntry}
    (hold : db.leases.lookup key = some old) (haccepted : operation.accepted crypto = some new) :
    (db.step crypto operation).NewerRetained key old.object new.object ↔
      old.object.Comparable new.object := by
  obtain ⟨kept, hkept, hobject⟩ := lookup_step hdb hunder hold haccepted
  -- different times are of different objects
  have hdiffer {left right : LeaseObject} (hlt : left.versionTime < right.versionTime) :
      left ≠ right := by
    rintro rfl
    exact Nat.lt_irrefl _ hlt
  rw [LeaseObject.comparable_iff]
  constructor
  · rintro ⟨_, hsame, hnewer, holder⟩
    rw [hkept] at hsame
    cases hsame
    constructor
    · intro hle
      rw [if_pos hle] at hobject
      by_contra hlt
      exact hdiffer (Nat.not_le.mp hlt) (hobject.symm.trans (hnewer (Nat.not_le.mp hlt)))
    · intro hlt
      rw [if_neg (UInt64.not_le.mpr hlt)] at hobject
      by_contra htime
      exact hdiffer (Nat.not_le.mp htime) (hobject.symm.trans (holder (Nat.not_le.mp htime)))
  · rintro ⟨hkeeps, hreplaces⟩
    refine ⟨kept, hkept, fun hnewer => ?_, fun holder => ?_⟩
    · rw [hobject, if_neg]
      intro hle
      exact Nat.not_lt.mpr (hkeeps hle) hnewer
    · rw [hobject, if_pos]
      by_contra hle
      exact Nat.not_lt.mpr (hreplaces (UInt64.not_le.mp hle)) holder

theorem retainsSince_step (hcompares : db.Compares crypto key operation)
    (haccepted : operation.accepted crypto = some new) :
    (db.step crypto operation).RetainsSince key new.object.versionTime := by
  cases hold : db.leases.lookup key with
  | none =>
    rw [step_of_accepted hunder haccepted]
    refine ⟨new, ?_, Nat.le_refl _⟩
    rw [lookup_retain, hold]
  | some old =>
    obtain ⟨kept, hkept, hobject⟩ := lookup_step hdb hunder hold haccepted
    obtain ⟨hkeeps, -⟩ := (LeaseObject.comparable_iff _ _).mp (hcompares _ hold _ haccepted)
    refine ⟨kept, hkept, ?_⟩
    rw [hobject]
    split
    next hle => exact hkeeps hle
    · exact Nat.le_refl _

omit hdb hunder

theorem RetainsSince.step {time : Nat} (hdb : db.Sound) (hunder : operation.Under key)
    (hcompares : db.Compares crypto key operation) (hretains : db.RetainsSince key time) :
    (db.step crypto operation).RetainsSince key time := by
  obtain ⟨old, hold, htime⟩ := hretains
  cases haccepted : operation.accepted crypto with
  | none =>
    rw [step_of_refused hunder haccepted]
    exact ⟨old, hold, htime⟩
  | some new =>
    obtain ⟨kept, hkept, hobject⟩ := lookup_step hdb hunder hold haccepted
    obtain ⟨-, hreplaces⟩ := (LeaseObject.comparable_iff _ _).mp (hcompares _ hold _ haccepted)
    refine ⟨kept, hkept, ?_⟩
    rw [hobject]
    split
    · exact htime
    next hlt => exact Nat.le_trans htime (hreplaces (UInt64.not_le.mp hlt))

/-- Stores under one key that can all be compared with what they meet: nothing
older than one that was accepted is retained at the end. -/
theorem retainsSince_run {stores : List Operation} (hdb : db.Sound)
    (hunder : ∀ operation ∈ stores, operation.Under key)
    (halong : Along (Database.step crypto) (fun db operation => db.Compares crypto key operation) db
      stores) :
    (∀ time, db.RetainsSince key time →
        (run (Database.step crypto) db stores).RetainsSince key time) ∧
      ∀ operation ∈ stores, ∀ new ∈ operation.accepted crypto,
        (run (Database.step crypto) db stores).RetainsSince key new.object.versionTime := by
  induction stores generalizing db with
  | nil => exact ⟨fun _ h => h, List.forall_mem_nil _⟩
  | cons first rest ih =>
    obtain ⟨hfirst, hrest⟩ := List.forall_mem_cons.mp hunder
    obtain ⟨hkeeps, hstored⟩ := ih (hdb.step _) hrest halong.2
    refine ⟨fun time h => hkeeps _ (h.step hdb hfirst halong.1), ?_⟩
    refine List.forall_mem_cons.mpr ⟨fun new hnew => ?_, hstored⟩
    exact hkeeps _ (retainsSince_step hdb hfirst halong.1 hnew)

/-- In every state of the database, of the retained lease set and one that is
accepted under its key the newer is retained if and only if their versions tell
which that is; over stores that all meet this, nothing older than an accepted set
is retained. -/
theorem newer_retained_iff_comparable (crypto : NetDbCrypto) (earlier : List Operation)
    (key : Hash) :
    (∀ operation old new, operation.Under key →
      (after crypto earlier).leases.lookup key = some old →
      operation.accepted crypto = some new →
      (((after crypto earlier).step crypto operation).NewerRetained key old.object new.object ↔
        old.object.Comparable new.object)) ∧
    ∀ stores : List Operation, (∀ operation ∈ stores, operation.Under key) →
      Along (Database.step crypto) (fun db operation => db.Compares crypto key operation)
        (after crypto earlier) stores →
      ∀ operation ∈ stores, ∀ new, operation.accepted crypto = some new →
        (run (Database.step crypto) (after crypto earlier) stores).RetainsSince key
          new.object.versionTime := by
  constructor
  · intro operation old new hunder hold haccepted
    exact newerRetained_step_iff (after_sound _) hunder hold haccepted
  · intro stores hunder halong
    exact (retainsSince_run (after_sound _) hunder halong).2

end Database

def sampleHash : Hash := ⟨List.replicate 32 9, rfl⟩

/-- One hash for all destinations, and every signature valid. -/
def trusting : NetDbCrypto where
  sha256 _ := sampleHash
  verify _ _ _ _ := .ok true

/-- A destination with a null certificate. -/
def sampleDestination : Bytes := List.replicate identityBaseLength 1 ++ [0, 0, 0]

def sampleLegacy (ends : List Nat) : DatabaseStore where
  key := sampleHash
  kind := .leaseSet
  data :=
    sampleDestination ++ List.replicate 256 2 ++ List.replicate 128 3 ++ natBE 1 ends.length ++
      ends.flatMap (fun time => List.replicate 36 4 ++ natBE 8 time) ++ List.replicate 40 5

def sampleSecond (published lifetime endDate : Nat) : DatabaseStore where
  key := sampleHash
  kind := .leaseSet2
  data :=
    sampleDestination ++ natBE 4 published ++ natBE 2 lifetime ++ [0, 0] ++ [0, 0] ++
      [1, 0, 4, 0, 32] ++ List.replicate 32 2 ++ [1] ++ List.replicate 36 4 ++ natBE 4 endDate ++
      List.replicate 40 5

/-- The time at which the samples are seen, in milliseconds. -/
def sampleClock : UInt64 := 1700000100000

/-- A legacy set whose first lease has just ended. -/
def legacyArrival : Database.Operation :=
  .store (sampleLegacy [1700000000000, 1700000600000]) sampleClock false

/-- A second version published after that. -/
def secondArrival : Database.Operation :=
  .store (sampleSecond 1700000050 600 1700000600) sampleClock false

/-- One published later still. -/
def thirdArrival : Database.Operation :=
  .store (sampleSecond 1700000070 600 1700000600) sampleClock false

namespace Database

/-- A set published after the legacy one is not retained in its place, and the
legacy one is retained in the place of the other. -/
theorem legacy_retained_over_later :
    (legacyArrival.accepted trusting).map (·.object.versionTime) = some 1700000000000 ∧
      (secondArrival.accepted trusting).map (·.object.versionTime) = some 1700000050000 ∧
      ((after trusting [legacyArrival, secondArrival]).leases.lookup sampleHash).map
        (·.object.typeID) = some .leaseSet ∧
      ((after trusting [secondArrival, legacyArrival]).leases.lookup sampleHash).map
        (·.object.typeID) = some .leaseSet := by
  decide +kernel

/-- Two sets of one kind are compared as they should be: the later one replaces
the other. -/
theorem newer_retained_two_second_versions :
    (∃ old new, (after trusting [secondArrival]).leases.lookup sampleHash = some old ∧
      thirdArrival.accepted trusting = some new ∧
      (((after trusting [secondArrival]).step trusting thirdArrival).NewerRetained
        sampleHash old.object new.object ↔ old.object.Comparable new.object)) ∧
    Along (Database.step trusting) (fun db operation => db.Compares trusting sampleHash operation)
      (after trusting []) [secondArrival, thirdArrival] ∧
    ∀ new, thirdArrival.accepted trusting = some new →
      (run (Database.step trusting) (after trusting []) [secondArrival, thirdArrival]).RetainsSince
        sampleHash new.object.versionTime := by
  have hold : ((after trusting [secondArrival]).leases.lookup sampleHash).isSome := by
    decide +kernel
  have hnew : (thirdArrival.accepted trusting).isSome := by decide +kernel
  have hunder : ∀ operation ∈ [secondArrival, thirdArrival],
      operation.Under sampleHash := by decide +kernel
  have halong : Along (Database.step trusting)
      (fun db operation => db.Compares trusting sampleHash operation)
      (after trusting []) [secondArrival, thirdArrival] := by decide +kernel
  obtain ⟨old, hold⟩ := Option.isSome_iff_exists.mp hold
  obtain ⟨new, hnew⟩ := Option.isSome_iff_exists.mp hnew
  refine ⟨⟨old, new, hold, hnew, ?_⟩, halong, ?_⟩
  · exact (newer_retained_iff_comparable _ [secondArrival] _).1
      thirdArrival old new (hunder _ (by simp)) hold hnew
  · exact (newer_retained_iff_comparable _ [] _).2 _ hunder halong
      thirdArrival (by simp)

end Database

end Ivnp.NetDb
