import Mathlib.Data.List.Pairwise
import Mathlib.Tactic

/-!
Lists of intervals that follow one another without a gap, each given by its first and its
last number. Such a list has exactly one interval for every number it covers, and an interval
may be replaced by a list that tiles it.
-/

namespace Ivnp.Lib

section Tiles

variable {α : Type*} (first last : α → Nat)

/-- The intervals cover `start`, …, `stop - 1` in ascending order. -/
def Tiles : Nat → List α → Nat → Prop
  | start, [], stop => start = stop
  | start, tile :: rest, stop =>
    first tile = start ∧ first tile ≤ last tile ∧ Tiles (last tile + 1) rest stop

variable {first last} {start middle stop : Nat} {tiles before after parts : List α} {tile : α}

theorem tiles_append :
    Tiles first last start (before ++ after) stop ↔
      ∃ middle, Tiles first last start before middle ∧ Tiles first last middle after stop := by
  induction before generalizing start with
  | nil =>
    constructor
    · intro h
      exact ⟨start, rfl, h⟩
    · rintro ⟨middle, rfl, h⟩
      exact h
  | cons tile rest ih =>
    simp only [List.cons_append, Tiles, ih]
    constructor
    · rintro ⟨hfirst, hordered, middle, hbefore, hafter⟩
      exact ⟨middle, ⟨hfirst, hordered, hbefore⟩, hafter⟩
    · rintro ⟨middle, ⟨hfirst, hordered, hbefore⟩, hafter⟩
      exact ⟨hfirst, hordered, middle, hbefore, hafter⟩

variable (h : Tiles first last start tiles stop)
include h

theorem Tiles.start_le : start ≤ stop := by
  induction tiles generalizing start with
  | nil => exact h.le
  | cons tile rest ih =>
    obtain ⟨rfl, hordered, hrest⟩ := h
    have := ih hrest
    omega

theorem Tiles.bounds {tile : α} (hmem : tile ∈ tiles) :
    start ≤ first tile ∧ first tile ≤ last tile ∧ last tile < stop := by
  induction tiles generalizing start with
  | nil => cases hmem
  | cons head rest ih =>
    obtain ⟨rfl, hordered, hrest⟩ := h
    rcases List.mem_cons.mp hmem with rfl | hlater
    · exact ⟨le_rfl, hordered, hrest.start_le⟩
    · obtain ⟨hstart, hends⟩ := ih hrest hlater
      exact ⟨by omega, hends⟩

theorem Tiles.pairwise :
    tiles.Pairwise fun earlier later => last earlier < first later := by
  induction tiles generalizing start with
  | nil => exact List.Pairwise.nil
  | cons head rest ih =>
    obtain ⟨-, -, hrest⟩ := h
    refine List.pairwise_cons.mpr ⟨fun later hlater => ?_, ih hrest⟩
    exact (hrest.bounds hlater).1

theorem Tiles.last_lt_first {index later : Nat} {tile other : α} (htile : tiles[index]? = some tile)
    (hother : tiles[later]? = some other) (hless : index < later) : last tile < first other := by
  obtain ⟨hindex, rfl⟩ := List.getElem?_eq_some_iff.mp htile
  obtain ⟨hlater, rfl⟩ := List.getElem?_eq_some_iff.mp hother
  exact List.pairwise_iff_getElem.mp h.pairwise index later hindex hlater hless

theorem Tiles.exists_mem {number : Nat} (hstart : start ≤ number) (hstop : number < stop) :
    ∃ (index : Nat) (tile : α), tiles[index]? = some tile ∧
      first tile ≤ number ∧ number ≤ last tile := by
  induction tiles generalizing start with
  | nil =>
    obtain rfl := h
    omega
  | cons head rest ih =>
    obtain ⟨rfl, -, hrest⟩ := h
    rcases Nat.lt_or_ge (last head) number with hbeyond | hwithin
    · obtain ⟨index, tile, hindex, htile⟩ := ih hrest hbeyond
      exact ⟨index + 1, tile, hindex, htile⟩
    · exact ⟨0, head, rfl, hstart, hwithin⟩

omit h

theorem Tiles.replace (h : Tiles first last start (before ++ tile :: after) stop)
    (hparts : Tiles first last (first tile) parts (last tile + 1)) :
    Tiles first last start (before ++ (parts ++ after)) stop := by
  obtain ⟨middle, hbefore, hfirst, -, hafter⟩ := tiles_append.mp h
  subst hfirst
  exact tiles_append.mpr ⟨_, hbefore, tiles_append.mpr ⟨_, hparts, hafter⟩⟩

end Tiles

end Ivnp.Lib
