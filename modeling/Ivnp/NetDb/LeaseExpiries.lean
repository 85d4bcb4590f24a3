import Ivnp.NetDb.Database

/-!
The heap of expiry times always has the times of the retained entries, so what
`ExpireLeases` leaves are the entries that do not expire before the given time,
and those whose time is zero.
-/

namespace Ivnp.NetDb

open Ivnp.Lib Ivnp.Foundation AList

theorem lessLeaseExpiry_weakOrder : IndexedHeap.WeakOrder lessLeaseExpiry where
  asymm := by
    intro left right hless
    unfold lessLeaseExpiry at hless ⊢
    split at hless
    · cases hless
    next hleft =>
    split at hless
    next hright => rw [if_pos hright]
    next hright =>
    rw [if_neg hright, if_neg hleft]
    split at hless
    next hsame =>
      rw [if_pos hsame.symm]
      exact decide_eq_false (List.lt_asymm (of_decide_eq_true hless))
    next hdiffer =>
    have hlt := of_decide_eq_true hless
    rw [if_neg (Ne.symm hdiffer)]
    exact decide_eq_false (UInt64.lt_asymm hlt)
  trans := by
    intro first second third h₁ h₂
    unfold lessLeaseExpiry at h₁ h₂ ⊢
    by_cases hthird : third.expires = 0
    · rw [if_pos hthird]
    rw [if_neg hthird] at h₂ ⊢
    by_cases hsecond : second.expires = 0
    · rw [if_pos hsecond] at h₂
      cases h₂
    rw [if_neg hsecond] at h₁ h₂
    by_cases hfirst : first.expires = 0
    · rw [if_pos hfirst] at h₁
      cases h₁
    rw [if_neg hfirst] at h₁ ⊢
    -- all three times are real ones: compare them, and the keys where they agree
    have hle {a b : LeaseExpiry} (h : (if b.expires = a.expires then decide (b.key.val < a.key.val)
          else decide (b.expires < a.expires)) = false) :
        a.expires < b.expires ∨ a.expires = b.expires ∧ a.key.val ≤ b.key.val := by
      split at h
      next hsame => exact Or.inr ⟨hsame.symm, List.not_lt.mp (of_decide_eq_false h)⟩
      next hdiffer =>
      exact Or.inl (UInt64.lt_of_le_of_ne (UInt64.not_lt.mp (of_decide_eq_false h))
        (Ne.symm hdiffer))
    rcases hle h₁ with hlt₁ | ⟨heq₁, hkey₁⟩
    · rcases hle h₂ with hlt₂ | ⟨heq₂, -⟩
      · have hlt := UInt64.lt_trans hlt₁ hlt₂
        rw [if_neg (UInt64.ne_of_lt hlt).symm]
        exact decide_eq_false (UInt64.lt_asymm hlt)
      · rw [heq₂] at hlt₁
        rw [if_neg (UInt64.ne_of_lt hlt₁).symm]
        exact decide_eq_false (UInt64.lt_asymm hlt₁)
    · rcases hle h₂ with hlt₂ | ⟨heq₂, hkey₂⟩
      · rw [← heq₁] at hlt₂
        rw [if_neg (UInt64.ne_of_lt hlt₂).symm]
        exact decide_eq_false (UInt64.lt_asymm hlt₂)
      · rw [if_pos (heq₁.trans heq₂).symm]
        exact decide_eq_false (List.not_lt.mpr (List.le_trans hkey₁ hkey₂))

/-- An item with a time comes after the first one, which then has a time too, and
no later one. -/
theorem lessLeaseExpiry_eq_false {item first : LeaseExpiry} (h : lessLeaseExpiry item first = false)
    (hreal : item.expires ≠ 0) : first.expires ≠ 0 ∧ first.expires ≤ item.expires := by
  unfold lessLeaseExpiry at h
  rw [if_neg hreal] at h
  split at h
  · cases h
  next hfirst =>
  refine ⟨hfirst, ?_⟩
  split at h
  next hsame => exact UInt64.le_of_eq hsame.symm
  · exact UInt64.not_lt.mp (of_decide_eq_false h)

namespace Database

/-- The heap is one, of the keys and times of the retained entries. -/
structure Consistent (db : Database) : Prop where
  heap : db.leaseExpiries.WellFormed LeaseExpiry.key lessLeaseExpiry
  same : ∀ key expires, (∃ entry, db.leases.lookup key = some entry ∧ entry.expires = expires) ↔
    (⟨key, expires⟩ : LeaseExpiry) ∈ db.leaseExpiries

theorem consistent_new : new.Consistent := by
  refine ⟨IndexedHeap.wellFormed_empty _, fun key expires => ?_⟩
  refine iff_of_false (fun ⟨entry, hlookup, _⟩ => ?_) fun ⟨position, hposition, _⟩ => ?_
  · simp [new] at hlookup
  · exact absurd hposition (Nat.not_lt_zero _)

variable {db : Database}

theorem Consistent.mem (hdb : db.Consistent) {key : Hash} {entry : LeaseEntry}
    (hlookup : db.leases.lookup key = some entry) :
    (⟨key, entry.expires⟩ : LeaseExpiry) ∈ db.leaseExpiries :=
  (hdb.same key entry.expires).mp ⟨entry, hlookup, rfl⟩

theorem Consistent.dropOldest (hdb : db.Consistent) (hpos : db.leaseExpiries.size ≠ 0) :
    db.dropOldest.Consistent ∧ db.dropOldest.leaseExpiries.size = db.leaseExpiries.size - 1 ∧
      db.dropOldest.leases = db.leases.erase (db.leaseExpiries.items 0).key := by
  obtain ⟨rest, hpop, hrest, hsize, hmem⟩ :=
    IndexedHeap.pop_spec hdb.heap hpos lessLeaseExpiry_weakOrder
  have hdrop : db.dropOldest =
      { db with
        leases := db.leases.erase (db.leaseExpiries.items 0).key, leaseExpiries := rest } := by
    rw [Database.dropOldest, popLeaseExpiry, hpop]
    rfl
  rw [hdrop]
  refine ⟨⟨hrest, fun key expires => ?_⟩, hsize, rfl⟩
  rw [hmem, ← hdb.same]
  by_cases hkey : key = (db.leaseExpiries.items 0).key
  · rw [← hkey, lookup_erase]
    refine iff_of_false (fun ⟨entry, hnone, _⟩ => ?_) fun h => h.2 rfl
    cases hnone
  · rw [lookup_erase_ne hkey]
    exact (and_iff_left hkey).symm

theorem dropOldest_of_empty (hempty : db.leaseExpiries.size = 0) : db.dropOldest = db := by
  rw [dropOldest, popLeaseExpiry, IndexedHeap.pop, if_pos hempty]
  rfl

theorem Consistent.insert (hdb : db.Consistent) (key : Hash) (entry : LeaseEntry) :
    ({ db with leases := db.leases.insert key entry }.upsertLeaseExpiry key
      entry.expires).Consistent := by
  obtain ⟨hheap, hmem⟩ := IndexedHeap.upsert_spec lessLeaseExpiry_weakOrder hdb.heap
    (⟨key, entry.expires⟩ : LeaseExpiry)
  refine ⟨hheap, fun other expires => ?_⟩
  show (∃ found, (db.leases.insert key entry).lookup other = some found ∧ _) ↔
    _ ∈ db.leaseExpiries.upsert LeaseExpiry.key lessLeaseExpiry ⟨key, entry.expires⟩
  rw [hmem, ← hdb.same]
  by_cases hkey : other = key
  · rw [hkey]
    simp [eq_comm]
  · simp [hkey]

/-- `storeLeaseEntry` may drop an entry of another key first. -/
theorem Consistent.storeLeaseEntry (hdb : db.Consistent) (key : Hash) (entry : LeaseEntry) :
    (db.storeLeaseEntry key entry).Consistent := by
  unfold Database.storeLeaseEntry
  split
  · by_cases hempty : db.leaseExpiries.size = 0
    · rw [dropOldest_of_empty hempty]
      exact hdb.insert _ _
    · exact (hdb.dropOldest hempty).1.insert key entry
  · exact hdb.insert _ _

theorem lookup_storeLeaseEntry (key : Hash) (entry : LeaseEntry) :
    (db.storeLeaseEntry key entry).leases.lookup key = some entry :=
  lookup_insert _

theorem lookup_storeLeaseEntry_of_ne (hdb : db.Consistent) {key other : Hash} (entry : LeaseEntry)
    (hne : other ≠ key) {found : LeaseEntry}
    (hlookup : (db.storeLeaseEntry key entry).leases.lookup other = some found) :
    db.leases.lookup other = some found := by
  replace hlookup := (lookup_insert_ne hne).symm.trans hlookup
  split at hlookup
  · by_cases hempty : db.leaseExpiries.size = 0
    · rwa [dropOldest_of_empty hempty] at hlookup
    · rw [(hdb.dropOldest hempty).2.2] at hlookup
      exact (Table.lookup_of_erase hlookup).2
  · exact hlookup

theorem Consistent.publish (hdb : db.Consistent) {key : Hash} {old : LeaseEntry}
    (hlookup : db.leases.lookup key = some old) :
    ({ db with
        leases := db.leases.insert key { old with published := true } } : Database).Consistent := by
  refine ⟨hdb.heap, fun other expires => ?_⟩
  rw [← hdb.same]
  by_cases hkey : other = key
  · rw [hkey, hlookup]
    simp
  · rw [lookup_insert_ne hkey]

theorem Consistent.retain (hdb : db.Consistent) (key : Hash) (entry : LeaseEntry) :
    (db.retain key entry).Consistent := by
  unfold Database.retain
  split
  · exact hdb.storeLeaseEntry _ _
  next old hlookup =>
  split
  · split
    · exact hdb.publish hlookup
    · exact hdb
  · exact hdb.storeLeaseEntry _ _

theorem expireLoop_spec (now : UInt64) (fuel : Nat) (hdb : db.Consistent)
    (hfuel : db.leaseExpiries.size ≤ fuel) :
    (expireLoop now fuel db).1.Consistent ∧ ∀ key entry,
      (expireLoop now fuel db).1.leases.lookup key = some entry ↔
        db.leases.lookup key = some entry ∧ (entry.expires = 0 ∨ entry.expires ≥ now) := by
  -- nothing is left to drop when the heap is empty
  have hnone {db : Database} (hdb : db.Consistent) (hempty : db.leaseExpiries.size = 0) (key : Hash)
      (entry : LeaseEntry) : db.leases.lookup key = some entry ↔
        db.leases.lookup key = some entry ∧ (entry.expires = 0 ∨ entry.expires ≥ now) := by
    have habsent : db.leases.lookup key ≠ some entry := by
      intro hlookup
      obtain ⟨position, hposition, -⟩ := hdb.mem hlookup
      omega
    exact iff_of_false habsent fun h => habsent h.1
  induction fuel generalizing db with
  | zero => exact ⟨hdb, hnone hdb (Nat.le_zero.mp hfuel)⟩
  | succ fuel ih =>
    unfold expireLoop
    split
    next hempty => exact ⟨hdb, hnone hdb hempty⟩
    next hpos =>
    dsimp only
    have hfirst {key : Hash} {entry : LeaseEntry}
        (hlookup : db.leases.lookup key = some entry) (hreal : entry.expires ≠ 0) :=
      lessLeaseExpiry_eq_false
        (hdb.heap.ordered.first lessLeaseExpiry_weakOrder (hdb.mem hlookup)) hreal
    split
    next hstop =>
      refine ⟨hdb, fun key entry => ⟨fun hlookup => ⟨hlookup, ?_⟩, And.left⟩⟩
      by_cases hreal : entry.expires = 0
      · exact Or.inl hreal
      · obtain ⟨hnonzero, hle⟩ := hfirst hlookup hreal
        exact Or.inr (UInt64.le_trans (hstop.resolve_left hnonzero) hle)
    next hdue =>
      obtain ⟨hnonzero, hearly⟩ := not_or.mp hdue
      obtain ⟨hrest, hsize, hleases⟩ := hdb.dropOldest hpos
      obtain ⟨hconsistent, hlookup⟩ := ih hrest (by omega)
      refine ⟨hconsistent, fun key entry => ?_⟩
      rw [hlookup, hleases]
      by_cases hkey : key = (db.leaseExpiries.items 0).key
      · rw [hkey, lookup_erase]
        refine iff_of_false (fun h => nomatch h.1) fun ⟨hfound, hkept⟩ => ?_
        -- the entry of the first item is due
        have hsame : entry.expires = (db.leaseExpiries.items 0).expires := by
          obtain ⟨other, hother, htime⟩ := (hdb.same (db.leaseExpiries.items 0).key
            (db.leaseExpiries.items 0).expires).mpr ⟨0, Nat.pos_of_ne_zero hpos, rfl⟩
          rw [hfound] at hother
          rw [← htime, Option.some.inj hother]
        rw [hsame] at hkept
        exact hkept.elim hnonzero hearly
      · rw [lookup_erase_ne hkey]

theorem expireLeases_spec (now : UInt64) (hdb : db.Consistent) :
    (db.expireLeases now).1.Consistent ∧ ∀ key entry,
      (db.expireLeases now).1.leases.lookup key = some entry ↔
        db.leases.lookup key = some entry ∧ (entry.expires = 0 ∨ entry.expires ≥ now) :=
  expireLoop_spec _ _ hdb le_rfl

theorem Consistent.step (crypto : NetDbCrypto) (hdb : db.Consistent) (operation : Operation) :
    (db.step crypto operation).Consistent := by
  cases operation with
  | store store seenAt published =>
    unfold Database.step handleDatabaseStore
    dsimp only
    split
    · exact hdb
    · exact hdb.retain _ _
  | expire now => exact (expireLeases_spec _ hdb).1

theorem after_consistent (crypto : NetDbCrypto) (operations : List Operation) :
    (after crypto operations).Consistent :=
  run_preserves (I := Consistent) (fun _ operation hdb => hdb.step _ operation)
    consistent_new _

theorem Consistent.size_eq (hdb : db.Consistent) :
    db.leaseExpiries.size = db.leases.entries.length := by
  have hperm : ((List.range db.leaseExpiries.size).map fun position =>
      (db.leaseExpiries.items position).key).Perm db.leases.keys := by
    rw [List.perm_ext_iff_of_nodup _ db.leases.keys_nodup]
    · intro key
      rw [List.mem_map, ← mem_keys, ← lookup_isSome, Option.isSome_iff_exists]
      constructor
      · rintro ⟨position, hposition, rfl⟩
        obtain ⟨entry, hentry, -⟩ := (hdb.same _ _).mpr ⟨position, List.mem_range.mp hposition, rfl⟩
        exact ⟨entry, hentry⟩
      · rintro ⟨entry, hentry⟩
        obtain ⟨position, hposition, hitem⟩ := hdb.mem hentry
        exact ⟨position, List.mem_range.mpr hposition, congrArg LeaseExpiry.key hitem⟩
    · apply List.nodup_range.map_on
      intro left hleft right hright hsame
      exact hdb.heap.indexed.inj (List.mem_range.mp hleft) (List.mem_range.mp hright) hsame
  simpa [keys, List.keys] using hperm.length_eq

/-- The limit is that of `NewDatabaseForNetwork`, and the entries are within it. -/
def Bounded (db : Database) : Prop := db.maxLeases = 4096 ∧ db.leases.entries.length ≤ 4096

section Bounded

variable (h : db.Bounded)
include h

theorem Bounded.insert {key : Hash} (entry : LeaseEntry)
    (hroom : key ∈ db.leases ∨ db.leases.entries.length < 4096) :
    (db.leases.insert key entry).entries.length ≤ 4096 := by
  change (db.leases.erase key).entries.length + 1 ≤ 4096
  obtain ⟨-, hlength⟩ := h
  rcases hroom with hkey | hless
  · obtain ⟨old, hold⟩ := Option.isSome_iff_exists.mp (lookup_isSome.mpr hkey)
    have herase := Table.length_erase_of_lookup_some hold
    omega
  · have herase := Table.length_erase_le db.leases key
    omega

theorem Bounded.dropOldest : db.dropOldest.Bounded := by
  unfold Database.dropOldest popLeaseExpiry
  cases db.leaseExpiries.pop LeaseExpiry.key lessLeaseExpiry with
  | none => exact h
  | some popped => exact ⟨h.1, (Table.length_erase_le _ _).trans h.2⟩

theorem Bounded.storeLeaseEntry (hdb : db.Consistent) (key : Hash) (entry : LeaseEntry) :
    (db.storeLeaseEntry key entry).Bounded := by
  unfold Database.storeLeaseEntry upsertLeaseExpiry
  split
  next hfull =>
    have hlimit := h.1
    have hsize := hdb.size_eq
    obtain ⟨hnext, hless, -⟩ := hdb.dropOldest (by omega)
    have hlater := hnext.size_eq
    exact ⟨h.dropOldest.1, h.dropOldest.insert entry (.inr (by have := h.2; omega))⟩
  next hroom =>
    refine ⟨h.1, h.insert entry ?_⟩
    rw [h.1] at hroom
    by_cases hkey : key ∈ db.leases
    · exact .inl hkey
    · exact .inr (not_le.mp fun hge => hroom ⟨hkey, hge⟩)

theorem Bounded.retain (hdb : db.Consistent) (key : Hash) (entry : LeaseEntry) :
    (db.retain key entry).Bounded := by
  unfold Database.retain
  split
  · exact h.storeLeaseEntry hdb _ _
  next old hlookup =>
  split
  · split
    · exact ⟨h.1, h.insert _ (.inl (lookup_isSome.mp (hlookup ▸ rfl)))⟩
    · exact h
  · exact h.storeLeaseEntry hdb _ _

theorem Bounded.expireLoop (now : UInt64) (fuel : Nat) : (expireLoop now fuel db).1.Bounded := by
  induction fuel generalizing db with
  | zero => exact h
  | succ fuel ih =>
    unfold Database.expireLoop
    split
    · exact h
    dsimp only
    split
    · exact h
    · exact ih h.dropOldest

end Bounded

theorem after_bounded (crypto : NetDbCrypto) (operations : List Operation) :
    (after crypto operations).Consistent ∧ (after crypto operations).Bounded := by
  refine run_preserves (I := fun db : Database => db.Consistent ∧ db.Bounded) ?_
    ⟨consistent_new, rfl, Nat.zero_le _⟩ operations
  rintro db operation ⟨hdb, h⟩
  refine ⟨hdb.step crypto operation, ?_⟩
  cases operation with
  | store store seenAt published =>
    unfold Database.step handleDatabaseStore
    dsimp only
    split
    · exact h
    · exact h.retain hdb _ _
  | expire now => exact h.expireLoop _ _

/-- A store of a new key at the limit drops an entry that comes first, any other drops none. -/
def EvictsFirst (db : Database) (key : Hash) (entry : LeaseEntry) : Prop :=
  if key ∉ db.leases ∧ db.leases.entries.length ≥ db.maxLeases then
    ∃ oldest ∈ db.leaseExpiries, (∀ item ∈ db.leaseExpiries, lessLeaseExpiry item oldest = false) ∧
      (db.storeLeaseEntry key entry).leases = (db.leases.erase oldest.key).insert key entry
  else (db.storeLeaseEntry key entry).leases = db.leases.insert key entry

theorem leaseExpiries_after (crypto : NetDbCrypto) (operations : List Operation) :
    let db := after crypto operations
    db.Consistent ∧ db.leaseExpiries.size ≤ db.maxLeases ∧
      ∀ key entry, db.EvictsFirst key entry := by
  intro db
  obtain ⟨hdb, hlimit, hlength⟩ : db.Consistent ∧ db.Bounded := after_bounded crypto operations
  have hsize := hdb.size_eq
  refine ⟨hdb, by omega, fun key entry => ?_⟩
  unfold EvictsFirst storeLeaseEntry upsertLeaseExpiry
  split
  · have hpos : db.leaseExpiries.size ≠ 0 := by omega
    refine ⟨_, ⟨0, Nat.pos_of_ne_zero hpos, rfl⟩, fun item hitem =>
      hdb.heap.ordered.first lessLeaseExpiry_weakOrder hitem, ?_⟩
    rw [← (hdb.dropOldest hpos).2.2]
  · rfl

end Database

end Ivnp.NetDb
