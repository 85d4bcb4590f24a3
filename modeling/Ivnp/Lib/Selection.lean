import Mathlib

/-!
The selection of the smallest of a list of candidates by insertion into a sorted prefix of
bounded length.
-/

namespace Ivnp.Lib

open List

variable {α : Type*}

/-- From `index` down, past the elements that are to stand after the new one. -/
def insertionIndex (after : α → Bool) (chosen : List α) : Nat → Nat
  | 0 => 0
  | index + 1 => if (chosen[index]?).any after then insertionIndex after chosen index else index + 1

/-- The candidate takes its place among the chosen ones, of which the last gives way when
there are `limit` already. -/
def insertBounded (less : α → α → Bool) (limit : Nat) (chosen : List α) (candidate : α) : List α :=
  let index := insertionIndex (less candidate) chosen chosen.length
  if index = limit then chosen
  else (chosen.take index ++ candidate :: chosen.drop index).take limit

def select (less : α → α → Bool) (limit : Nat) (candidates : List α) : List α :=
  candidates.foldl (insertBounded less limit) []

theorem insertionIndex_append {after : α → Bool} {low high : List α}
    (hlow : ∀ x ∈ low, after x = false) (hhigh : ∀ x ∈ high, after x = true) {index : Nat}
    (hindex : index ≤ (low ++ high).length) :
    insertionIndex after (low ++ high) index = min index low.length := by
  induction index with
  | zero => exact (Nat.zero_min _).symm
  | succ index ih =>
    have hget := getElem?_eq_getElem hindex
    rw [insertionIndex, hget, Option.any_some]
    rcases Nat.lt_or_ge index low.length with hin | hin
    · have hfalse : after (low ++ high)[index] = false := by
        rw [getElem_append_left hin]
        exact hlow _ (getElem_mem hin)
      rw [hfalse]
      exact (Nat.min_eq_left hin).symm
    · have htrue : after (low ++ high)[index] = true := by
        rw [getElem_append_right hin]
        exact hhigh _ (getElem_mem _)
      rw [htrue, if_pos rfl]
      omega

variable {κ : Type*} [LinearOrder κ] {key : α → κ} {less : α → α → Bool} {limit : Nat}

/-- What is selected: as many as there are, up to the limit, in strictly increasing order,
and smaller than all that are left out. -/
structure Smallest (key : α → κ) (limit : Nat) (candidates chosen : List α) : Prop where
  length : chosen.length = min limit candidates.length
  subset : chosen ⊆ candidates
  increasing : chosen.Pairwise fun a b => key a < key b
  least : ∀ other ∈ candidates, other ∉ chosen → ∀ x ∈ chosen, key x < key other

variable {sorted candidates : List α} {candidate : α}

theorem Smallest.of_perm {others chosen : List α}
    (h : Smallest key limit candidates chosen) (hperm : candidates.Perm others) :
    Smallest key limit others chosen where
  length := hperm.length_eq ▸ h.length
  subset := fun _ hmem => hperm.mem_iff.mp (h.subset hmem)
  increasing := h.increasing
  least := fun other hmem => h.least other (hperm.mem_iff.mpr hmem)

theorem Smallest.take (h : sorted.Pairwise fun a b => key a < key b)
    (limit : Nat) : Smallest key limit sorted (sorted.take limit) where
  length := List.length_take
  subset := List.take_subset _ _
  increasing := h.sublist (List.take_sublist _ _)
  least := by
    intro other hmem hnot x hx
    rw [← take_append_drop _ sorted] at h hmem
    rcases mem_append.mp hmem with hin | hin
    · exact absurd hin hnot
    · exact (pairwise_append.mp h).2.2 x hx other hin

theorem exists_split (hsorted : sorted.Pairwise fun a b => key a < key b)
    (hnew : ∀ x ∈ sorted, key x ≠ key candidate) :
    ∃ low high, sorted = low ++ high ∧ (∀ x ∈ low, key x < key candidate) ∧
      ∀ x ∈ high, key candidate < key x := by
  induction sorted with
  | nil => exact ⟨[], [], rfl, forall_mem_nil _, forall_mem_nil _⟩
  | cons head rest ih =>
    obtain ⟨hhead, hrest⟩ := pairwise_cons.mp hsorted
    obtain ⟨hne, hnew⟩ := forall_mem_cons.mp hnew
    rcases lt_or_gt_of_ne hne with hbelow | habove
    · obtain ⟨low, high, rfl, hlow, hhigh⟩ := ih hrest hnew
      exact ⟨head :: low, high, rfl, forall_mem_cons.mpr ⟨hbelow, hlow⟩, hhigh⟩
    · refine ⟨[], head :: rest, rfl, forall_mem_nil _, forall_mem_cons.mpr ⟨habove, ?_⟩⟩
      exact fun x hmem => lt_trans habove (hhead x hmem)

variable (hless : ∀ a b, less a b = true ↔ key a < key b)
include hless

/-- Inserting into the start of a sorted list gives the start of the larger sorted list. -/
theorem insertBounded_take {low high : List α}
    (hlow : ∀ x ∈ low, key x < key candidate) (hhigh : ∀ x ∈ high, key candidate < key x) :
    insertBounded less limit ((low ++ high).take limit) candidate =
      (low ++ candidate :: high).take limit := by
  have hbefore : ∀ x ∈ low.take limit, less candidate x = false := by
    intro x hmem
    rw [Bool.eq_false_iff, Ne, hless]
    exact lt_asymm (hlow x (mem_of_mem_take hmem))
  have hafter : ∀ x ∈ high.take (limit - low.length), less candidate x = true := by
    intro x hmem
    exact (hless _ x).mpr (hhigh x (mem_of_mem_take hmem))
  unfold insertBounded
  rw [take_append, insertionIndex_append hbefore hafter (Nat.le_refl _)]
  have hindex : min (low.take limit ++ high.take (limit - low.length)).length
      (low.take limit).length = (low.take limit).length := by
    rw [length_append]
    omega
  dsimp only
  rw [hindex, take_left, drop_left]
  split
  next hfull =>
    rw [length_take] at hfull
    rw [take_append_of_le_length (by omega), Nat.sub_eq_zero_of_le (by omega), take_zero,
      append_nil]
  next hroom =>
    rw [length_take] at hroom
    rw [take_of_length_le (by omega : low.length ≤ limit), take_append, take_append,
      take_cons (by omega), take_cons (by omega), take_take]
    congr 3
    omega

/-- Candidates of different keys: the selection is the start of the sorted candidates,
whatever order they came in. -/
theorem select_smallest (hdistinct : (candidates.map key).Nodup) :
    Smallest key limit candidates (select less limit candidates) := by
  -- Before each candidate the chosen ones are the start of a sorted copy of those seen.
  have hfold (seen later sorted : List α) (hperm : sorted.Perm seen)
      (hsorted : sorted.Pairwise fun a b => key a < key b)
      (hdistinct : ((seen ++ later).map key).Nodup) :
      Smallest key limit (seen ++ later)
        (later.foldl (insertBounded less limit) (sorted.take limit)) := by
    induction later generalizing seen sorted with
    | nil =>
      rw [append_nil]
      exact (Smallest.take hsorted limit).of_perm hperm
    | cons candidate later ih =>
      have hnew : ∀ x ∈ sorted, key x ≠ key candidate := by
        rw [map_append, nodup_append] at hdistinct
        intro x hmem
        exact hdistinct.2.2 _ (mem_map_of_mem (hperm.mem_iff.mp hmem)) _
          (mem_map_of_mem (mem_cons_self))
      obtain ⟨low, high, rfl, hlow, hhigh⟩ := exists_split hsorted hnew
      obtain ⟨hlowSorted, hhighSorted, hacross⟩ := pairwise_append.mp hsorted
      rw [foldl_cons, insertBounded_take hless hlow hhigh, ← singleton_append, ← append_assoc]
      refine ih (seen ++ [candidate]) (low ++ candidate :: high) ?_ ?_ ?_
      · exact perm_middle.trans ((hperm.cons _).trans (perm_append_singleton _ _).symm)
      · refine pairwise_append.mpr
          ⟨hlowSorted, pairwise_cons.mpr ⟨hhigh, hhighSorted⟩, ?_⟩
        intro x hx y hy
        rcases mem_cons.mp hy with rfl | hy
        · exact hlow x hx
        · exact hacross x hx y hy
      · rw [append_assoc]
        exact hdistinct
  have hall := hfold [] _ [] (List.Perm.refl _) List.Pairwise.nil hdistinct
  rw [take_nil] at hall
  exact hall

end Ivnp.Lib
