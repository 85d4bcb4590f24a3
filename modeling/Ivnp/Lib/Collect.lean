import Ivnp.Lib.Run
import Mathlib.Data.Finset.Card

/-!
Collecting a set of items that arrive in any order and any number of times. The
moment the last missing item arrives the set is complete, and collecting starts
anew from nothing.
-/

namespace Ivnp.Lib

open Finset

section Gather

variable {α β : Type*} {f : α → Option β} {items : List α}

theorem mapM_eq_map {g : α → β} (h : ∀ item ∈ items, f item = some (g item)) :
    items.mapM f = some (items.map g) := by
  induction items with
  | nil => rfl
  | cons item rest ih =>
    rw [List.forall_mem_cons] at h
    rw [List.mapM_cons, h.1, ih h.2]
    rfl

theorem mapM_eq_none {missing : α} (hmem : missing ∈ items) (hmissing : f missing = none) :
    items.mapM f = none := by
  induction items with
  | nil => cases hmem
  | cons item rest ih =>
    rw [List.mapM_cons]
    rcases List.mem_cons.mp hmem with rfl | hmem
    · rw [hmissing]
      rfl
    · rw [ih hmem]
      cases f item <;> rfl

end Gather

variable {α : Type*} [DecidableEq α]

/-- The items held, and how often the set has been completed. -/
structure Collector (α : Type*) where
  held : Finset α
  completed : Nat

namespace Collector

def start : Collector α := ⟨∅, 0⟩

def step (wanted : Finset α) (collector : Collector α) (item : α) : Collector α :=
  if insert item collector.held = wanted then ⟨∅, collector.completed + 1⟩
  else ⟨insert item collector.held, collector.completed⟩

theorem held_step (wanted : Finset α) (collector : Collector α) (item : α) :
    (collector.step wanted item).held =
      if insert item collector.held = wanted then ∅ else insert item collector.held := by
  rw [step]
  split <;> rfl

theorem completed_step (wanted : Finset α) (collector : Collector α) (item : α) :
    (collector.step wanted item).completed =
      if insert item collector.held = wanted then collector.completed + 1
      else collector.completed := by
  rw [step]
  split <;> rfl

/-- While one wanted item stays away nothing is completed. -/
theorem run_of_missing {wanted : Finset α} {missing : α} (hwanted : missing ∈ wanted)
    {items : List α} (hitems : missing ∉ items) {collector : Collector α}
    (hheld : missing ∉ collector.held) :
    run (step wanted) collector items = ⟨collector.held ∪ items.toFinset, collector.completed⟩ := by
  induction items generalizing collector with
  | nil => simp
  | cons item items ih =>
    obtain ⟨hne, hrest⟩ := not_or.mp (mt List.mem_cons.mpr hitems)
    have hinsert : missing ∉ insert item collector.held := by
      rw [mem_insert, not_or]
      exact ⟨hne, hheld⟩
    have hstep : step wanted collector item = ⟨insert item collector.held, collector.completed⟩ :=
      if_neg fun (h : insert item collector.held = wanted) => hinsert (h ▸ hwanted)
    rw [run_cons, hstep, ih hrest hinsert, List.toFinset_cons, insert_union, union_insert]

/-- The items complete the set once: `earlier` lacks only the item that comes
next, and `later` lacks some item again. -/
def CompleteOnce (wanted : Finset α) (items : List α) : Prop :=
  ∃ earlier item later, items = earlier ++ item :: later ∧ item ∈ wanted ∧ item ∉ earlier ∧
    (∀ other ∈ wanted, other ≠ item → other ∈ earlier) ∧ ∃ missing ∈ wanted, missing ∉ later

theorem completed_of_completeOnce {wanted : Finset α} {items : List α}
    (hitems : ∀ item ∈ items, item ∈ wanted) (honce : CompleteOnce wanted items) :
    (run (step wanted) start items).completed = 1 := by
  obtain ⟨earlier, item, later, rfl, hitem, hnew, hothers, missing, hmissing, hlater⟩ := honce
  have hfull : insert item earlier.toFinset = wanted := by
    ext other
    rw [mem_insert, List.mem_toFinset]
    constructor
    · rintro (rfl | hmem)
      · exact hitem
      · exact hitems _ (List.mem_append_left _ hmem)
    · intro hmem
      rcases eq_or_ne other item with rfl | hne
      · exact Or.inl rfl
      · exact Or.inr (hothers _ hmem hne)
  have hearlier : run (step wanted) start earlier = ⟨earlier.toFinset, 0⟩ := by
    rw [run_of_missing hitem hnew (notMem_empty _)]
    simp [start]
  have hstep : step wanted ⟨earlier.toFinset, 0⟩ item = ⟨∅, 1⟩ := if_pos hfull
  rw [run_append, run_cons, hearlier, hstep, run_of_missing hmissing hlater (notMem_empty _)]

end Collector

end Ivnp.Lib
