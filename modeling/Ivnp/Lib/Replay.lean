import Ivnp.Lib.Table

/-!
Replay protection by a table of deadlines. An item that was let through is
covered while its entry is in the table or the item is no longer valid when
the entry dies; a covered item whose key is free is therefore not valid. The
rules say what the operations on such a table keep.
-/

namespace Ivnp.Lib

section Replay

variable {Item K V Time : Type*} [DecidableEq K]
variable (key : Item → K) (valid : Item → Time → Prop) (dead : V → Time → Bool)

/-- Each of the items has an entry that is in the table until it dies, and no
item is valid once its entry is dead. -/
def Covered (table : Table K V) (now : Time) (items : List Item) : Prop :=
  ∀ item ∈ items, ∃ value, (dead value now = true ∨ table.lookup (key item) = some value) ∧
    ∀ time, valid item time → dead value time = false

/-- The key has no entry that is still alive. -/
def Free (table : Table K V) (now : Time) (k : K) : Prop :=
  ∀ value, table.lookup k = some value → dead value now = true

variable {key valid dead} {table : Table K V} {now later : Time} {items : List Item}

theorem free_of_lookup_none {k : K} (h : table.lookup k = none) : Free dead table now k := by
  intro value hvalue
  rw [h] at hvalue
  cases hvalue

namespace Covered

theorem nil : Covered key valid dead table now [] := by simp [Covered]

variable (h : Covered key valid dead table now items)
include h

theorem notMem {item : Item}
    (hvalid : valid item now) (hfree : Free dead table now (key item)) : item ∉ items := by
  intro hmem
  obtain ⟨value, hentry, houtlives⟩ := h _ hmem
  have hdead := hentry.elim id (hfree _)
  rw [houtlives _ hvalid] at hdead
  cases hdead

theorem mono (hdead : ∀ value, dead value now = true → dead value later = true) :
    Covered key valid dead table later items := by
  intro item hmem
  obtain ⟨value, hentry, houtlives⟩ := h _ hmem
  exact ⟨value, hentry.imp_left (hdead _), houtlives⟩

theorem prune :
    Covered key valid dead (table.prune dead now) now items := by
  intro item hmem
  obtain ⟨value, hentry, houtlives⟩ := h _ hmem
  refine ⟨value, ?_, houtlives⟩
  by_cases hdead : dead value now = true
  · exact Or.inl hdead
  · refine Or.inr ((Table.lookup_keep_eq_some _ _ _ _).mpr ⟨?_, by simpa using hdead⟩)
    exact hentry.resolve_left hdead

/-- Entries of other keys stay, and an entry that is overwritten or dropped was dead. -/
theorem of_lookup {k : K} (hfree : Free dead table now k) {changed : Table K V}
    (hsame : ∀ other, other ≠ k → changed.lookup other = table.lookup other) :
    Covered key valid dead changed now items := by
  intro item hmem
  obtain ⟨old, hentry, houtlives⟩ := h _ hmem
  refine ⟨old, ?_, houtlives⟩
  by_cases hkey : key item = k
  · exact Or.inl (hentry.elim id fun hsome => hfree _ (hkey ▸ hsome))
  · rw [hsame _ hkey]
    exact hentry

theorem insert {k : K} (hfree : Free dead table now k) (value : V) :
    Covered key valid dead (AList.insert k value table) now items :=
  h.of_lookup hfree fun _ => AList.lookup_insert_ne

theorem cons {item : Item} (hfree : Free dead table now (key item)) {value : V}
    (houtlives : ∀ time, valid item time → dead value time = false) :
    Covered key valid dead (AList.insert (key item) value table) now (item :: items) := by
  intro other hmem
  rcases List.mem_cons.mp hmem with rfl | hmem
  · exact ⟨value, Or.inr (AList.lookup_insert _), houtlives⟩
  · exact h.insert hfree _ _ hmem

end Covered

end Replay

end Ivnp.Lib
