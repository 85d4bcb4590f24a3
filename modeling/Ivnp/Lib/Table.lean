import Mathlib.Algebra.BigOperators.Group.List.Basic
import Mathlib.Data.List.AList
import Mathlib.Data.List.Dedup

/-!
Finite maps, and maps whose entries die at a time of their own.
-/

namespace Ivnp.Lib

open List Option

abbrev Table (K V : Type*) := AList fun _ : K => V

namespace Table

variable {K V : Type*}

def keep (p : K → V → Bool) (table : Table K V) : Table K V :=
  ⟨table.entries.filter fun entry => p entry.1 entry.2,
    table.nodupKeys.sublist List.filter_sublist⟩

@[simp] theorem lookup_keep_eq_some [DecidableEq K] (p : K → V → Bool) (table : Table K V) (key : K) (value : V) :
    (table.keep p).lookup key = some value ↔ table.lookup key = some value ∧ p key value := by
  rw [← mem_def, AList.mem_lookup_iff, ← mem_def, AList.mem_lookup_iff]
  exact mem_filter

/-- The table with every value replaced by what `f` makes of its entry, or
dropped. -/
def revise (f : K → V → Option V) (table : Table K V) : Table K V :=
  ⟨table.entries.filterMap fun entry => (f entry.1 entry.2).map fun value => ⟨entry.1, value⟩, by
    rw [List.nodupKeys_iff_pairwise]
    refine List.Pairwise.filterMap _ ?_ (List.nodupKeys_iff_pairwise.mp table.nodupKeys)
    intro left right hne _ hleft _ hright
    obtain ⟨_, -, rfl⟩ := Option.map_eq_some_iff.mp hleft
    obtain ⟨_, -, rfl⟩ := Option.map_eq_some_iff.mp hright
    exact hne⟩

theorem lookup_revise_eq_some [DecidableEq K] (f : K → V → Option V) (table : Table K V) (key : K)
    (value : V) :
    (table.revise f).lookup key = some value ↔
      ∃ old, table.lookup key = some old ∧ f key old = some value := by
  simp only [← mem_def, AList.mem_lookup_iff]
  simp only [revise, mem_filterMap, map_eq_some_iff, mem_def]
  constructor
  · rintro ⟨⟨_, old⟩, hmem, _, hvalue, heq⟩
    obtain ⟨rfl, rfl⟩ := Sigma.mk.inj_iff.mp heq
    exact ⟨old, hmem, hvalue⟩
  · rintro ⟨old, hmem, hvalue⟩
    exact ⟨⟨key, old⟩, hmem, value, hvalue, rfl⟩

section Lookup

variable [DecidableEq K] {table : Table K V} {key other : K} {value found : V}

theorem lookup_insert_cases (h : (table.insert key value).lookup other = some found) :
    other = key ∧ found = value ∨ other ≠ key ∧ table.lookup other = some found := by
  by_cases hkey : other = key
  · subst hkey
    rw [AList.lookup_insert] at h
    exact .inl ⟨rfl, (some.inj h).symm⟩
  · rw [AList.lookup_insert_ne hkey] at h
    exact .inr ⟨hkey, h⟩

theorem forall_lookup_insert {P : K → V → Prop} (hnew : P key value)
    (hold : ∀ other found, table.lookup other = some found → P other found) :
    ∀ other found, (table.insert key value).lookup other = some found → P other found := by
  intro other found h
  rcases lookup_insert_cases h with ⟨rfl, rfl⟩ | ⟨-, h⟩
  · exact hnew
  · exact hold _ _ h

theorem lookup_of_erase (h : (table.erase key).lookup other = some found) :
    other ≠ key ∧ table.lookup other = some found := by
  by_cases hkey : other = key
  · subst hkey
    rw [AList.lookup_erase] at h
    cases h
  · rw [AList.lookup_erase_ne hkey] at h
    exact ⟨hkey, h⟩

end Lookup

section Size

variable [DecidableEq K] {table : Table K V} {key : K}

theorem length_insert_of_lookup_none (value : V) (h : table.lookup key = none) :
    (table.insert key value).entries.length = table.entries.length + 1 := by
  rw [AList.entries_insert_of_notMem (AList.lookup_eq_none.mp h), length_cons]

theorem length_erase_of_lookup_some {value : V} (h : table.lookup key = some value) :
    (table.erase key).entries.length + 1 = table.entries.length := by
  have hkey : key ∈ table.keys := by
    apply AList.lookup_isSome.mp
    rw [h]
    rfl
  have hkeys := length_erase_of_mem hkey
  have hpos := length_pos_of_mem hkey
  rw [← AList.keys_erase] at hkeys
  simp only [AList.keys, keys, length_map] at hkeys hpos
  omega

theorem length_erase_le (table : Table K V) (key : K) :
    (table.erase key).entries.length ≤ table.entries.length := by
  have hkeys := List.length_erase_le (a := key) (l := table.keys)
  rw [← AList.keys_erase] at hkeys
  simpa only [AList.keys, keys, length_map] using hkeys

theorem exists_notMem_of_length_lt {keys : List K} (h : keys.length < table.entries.length) :
    ∃ key value, table.lookup key = some value ∧ key ∉ keys := by
  have hlength : table.keys.length = table.entries.length := length_map _
  by_contra hall
  have hsubset : table.keys ⊆ keys := by
    intro key hmem
    obtain ⟨value, hlookup⟩ := isSome_iff_exists.mp (AList.lookup_isSome.mpr hmem)
    by_contra hnot
    exact hall ⟨key, value, hlookup, hnot⟩
  have hle := (subperm_of_subset table.keys_nodup hsubset).length_le
  omega

end Size

section Sum

variable {M : Type*} [AddCommMonoid M] (f : V → M)

def sum (table : Table K V) : M := (table.entries.map fun entry => f entry.2).sum

variable [DecidableEq K]

theorem sum_erase (table : Table K V) (key : K) :
    sum f table = ((table.lookup key).map f).getD 0 + sum f (table.erase key) := by
  have hentries (entries : List (Sigma fun _ : K => V)) :
      (entries.map fun entry => f entry.2).sum = ((entries.dlookup key).map f).getD 0 +
        ((entries.kerase key).map fun entry => f entry.2).sum := by
    induction entries with
    | nil => exact (add_zero _).symm
    | cons entry rest ih =>
      obtain ⟨other, value⟩ := entry
      by_cases hkey : key = other
      · subst hkey
        have herase : (⟨key, value⟩ :: rest).kerase key = rest := kerase_cons_eq rfl
        rw [dlookup_cons_eq, herase]
        rfl
      · have hother := hkey
        rw [dlookup_cons_ne _ _ hother, kerase_cons_ne hother, map_cons, sum_cons, ih]
        exact add_left_comm _ _ _
  exact hentries table.entries

theorem sum_insert (table : Table K V) (key : K) (value : V) :
    sum f (table.insert key value) = f value + sum f (table.erase key) := rfl

end Sum

/-- Drops every entry that is dead at `now`. -/
def prune {Time : Type*} (dead : V → Time → Bool) (now : Time) (table : Table K V) : Table K V :=
  table.keep fun _ value => !dead value now

section Ranged

variable [DecidableEq K]

/-- The keys in the order in which a range over the map visits them, which may be any. -/
def ranged (order : List K) (table : Table K V) : List K :=
  if order.Perm table.keys then order else table.keys

theorem ranged_perm (order : List K) (table : Table K V) :
    (table.ranged order).Perm table.keys := by
  unfold ranged
  split
  · assumption
  · exact List.Perm.refl _

@[simp] theorem mem_ranged {order : List K} {table : Table K V} {key : K} :
    key ∈ table.ranged order ↔ key ∈ table :=
  (ranged_perm _ _).mem_iff

end Ranged

section Fits

variable [DecidableEq K]

/-- With entries for all of `keys` the table has at most `limit` of them. -/
def Fits (limit : Nat) (table : Table K V) (keys : List K) : Prop :=
  (table.keys ++ keys).dedup.length ≤ limit

instance (limit : Nat) (table : Table K V) (keys : List K) : Decidable (Fits limit table keys) :=
  inferInstanceAs (Decidable (_ ≤ _))

variable {limit : Nat} {table next : Table K V} {keys : List K}

variable (h : Fits limit table keys)
include h

theorem Fits.of_mem (hnext : ∀ key ∈ next, key ∈ table ∨ key ∈ keys) : Fits limit next keys := by
  have hsubset : (next.keys ++ keys).dedup ⊆ (table.keys ++ keys).dedup := by
    intro key hmem
    rw [mem_dedup, mem_append] at hmem ⊢
    rcases hmem with hkey | hkey
    · exact hnext _ hkey
    · exact Or.inr hkey
  exact Nat.le_trans (subperm_of_subset (nodup_dedup _) hsubset).length_le h

theorem Fits.length_lt {key : K} (hkey : key ∈ keys)
    (hnew : key ∉ table) : table.entries.length < limit := by
  have hnodup := nodup_cons.mpr ⟨hnew, table.keys_nodup⟩
  have hsubset : key :: table.keys ⊆ (table.keys ++ keys).dedup := by
    intro other hmem
    rw [mem_dedup, mem_append]
    rcases mem_cons.mp hmem with rfl | hother
    · exact Or.inr hkey
    · exact Or.inl hother
  have hle := Nat.le_trans (subperm_of_subset hnodup hsubset).length_le h
  have hlength : table.keys.length = table.entries.length := length_map _
  rw [length_cons, hlength] at hle
  exact hle

theorem Fits.length_ne {key : K} (hkey : key ∈ keys)
    (hnew : key ∉ table) : table.entries.length ≠ limit :=
  Nat.ne_of_lt (h.length_lt hkey hnew)

end Fits

end Table

end Ivnp.Lib
