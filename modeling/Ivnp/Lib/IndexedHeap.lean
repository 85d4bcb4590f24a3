import Ivnp.Lib.Table
import Mathlib.Logic.Equiv.Basic
import Mathlib.Tactic

/-!
A binary heap in an array, with a table of the positions of its items by key.
The item at a position is moved up or down to its place by exchanges with its
neighbours, each of which corrects the table.
-/

namespace Ivnp.Lib

open AList

open Function

open Option

/-- The items at the positions below `size`, and where the item of a key is. -/
structure IndexedHeap (K E : Type*) where
  items : Nat → E
  size : Nat
  index : Table K Nat

namespace IndexedHeap

variable {K E : Type*} [DecidableEq K]

section Operations

variable (key : E → K) (less : E → E → Bool)

def parent (position : Nat) : Nat := (position - 1) / 2

/-- Exchanges two items. -/
def swap (heap : IndexedHeap K E) (left right : Nat) : IndexedHeap K E :=
  { heap with
    items := fun position => heap.items (Equiv.swap left right position)
    index := (heap.index.insert (key (heap.items right)) left).insert (key (heap.items left)) right }

/-- Moves an item up while it comes before its parent; also where it has come
to. -/
def siftUp : Nat → IndexedHeap K E → Nat → IndexedHeap K E × Nat
  | 0, heap, position => (heap, position)
  | fuel + 1, heap, position =>
    if position = 0 then (heap, position)
    else if less (heap.items position) (heap.items (parent position)) then
      siftUp fuel (heap.swap key position (parent position)) (parent position)
    else (heap, position)

def firstChild (heap : IndexedHeap K E) (position : Nat) : Nat :=
  let left := 2 * position + 1
  if left + 1 < heap.size ∧ less (heap.items (left + 1)) (heap.items left) then left + 1 else left

/-- Moves an item down while a child comes before it. -/
def siftDown : Nat → IndexedHeap K E → Nat → IndexedHeap K E
  | 0, heap, _ => heap
  | fuel + 1, heap, position =>
    if 2 * position + 1 ≥ heap.size then heap
    else
      let child := heap.firstChild less position
      if less (heap.items child) (heap.items position) then
        siftDown fuel (heap.swap key position child) child
      else heap

/-- Moves a changed item to its place. -/
def fix (heap : IndexedHeap K E) (position : Nat) : IndexedHeap K E :=
  let up := siftUp key less position heap position
  siftDown key less up.1.size up.1 up.2

/-- Adds an item at the end. -/
def push (heap : IndexedHeap K E) (item : E) : IndexedHeap K E :=
  { items := Function.update heap.items heap.size item
    size := heap.size + 1
    index := heap.index.insert (key item) heap.size }

def upsert (heap : IndexedHeap K E) (item : E) : IndexedHeap K E :=
  match heap.index.lookup (key item) with
  | some position =>
    fix key less { heap with items := Function.update heap.items position item } position
  | none => (siftUp key less heap.size (heap.push key item) heap.size).1

/-- The heap without its last item, which takes the place of the first one. -/
def dropFirst (heap : IndexedHeap K E) : IndexedHeap K E :=
  let last := heap.size - 1
  let index := heap.index.erase (key (heap.items 0))
  if last ≠ 0 then
    { items := Function.update heap.items 0 (heap.items last)
      size := last
      index := index.insert (key (heap.items last)) 0 }
  else { heap with size := last, index }

/-- The heap without its last item, which takes the place of a removed one. -/
def dropAt (heap : IndexedHeap K E) (position : Nat) : IndexedHeap K E :=
  let last := heap.size - 1
  let index := heap.index.erase (key (heap.items position))
  if last ≠ position then
    { items := Function.update heap.items position (heap.items last)
      size := last
      index := index.insert (key (heap.items last)) position }
  else { heap with size := last, index }

/-- Takes out the item at a position. -/
def remove (heap : IndexedHeap K E) (position : Nat) : IndexedHeap K E :=
  let rest := heap.dropAt key position
  if position < rest.size then fix key less rest position else rest

/-- Takes the first item out. -/
def pop (heap : IndexedHeap K E) : Option (E × IndexedHeap K E) :=
  if heap.size = 0 then none
  else
    let rest := heap.dropFirst key
    some (heap.items 0, if rest.size ≠ 0 then fix key less rest 0 else rest)

end Operations

section Positions

variable {key : E → K} {heap : IndexedHeap K E}

instance : Membership E (IndexedHeap K E) :=
  ⟨fun heap item => ∃ position < heap.size, heap.items position = item⟩

omit [DecidableEq K] in
/-- The table gives the positions of the items. -/
def Indexed (key : E → K) (heap : IndexedHeap K E) : Prop :=
  ∀ k position, heap.index.lookup k = some position ↔
    position < heap.size ∧ key (heap.items position) = k

variable {right left : Nat}

theorem Indexed.inj (hindexed : heap.Indexed key) (hleft : left < heap.size)
    (hright : right < heap.size) (heq : key (heap.items left) = key (heap.items right)) :
    left = right :=
  some.inj (((hindexed _ _).mpr ⟨hleft, heq⟩).symm.trans ((hindexed _ _).mpr ⟨hright, rfl⟩))

@[simp] theorem size_swap (left right : Nat) : (heap.swap key left right).size = heap.size := rfl

omit [DecidableEq K] in
theorem swap_lt {position : Nat} (hleft : left < heap.size) (hright : right < heap.size) :
    Equiv.swap left right position < heap.size ↔ position < heap.size := by
  rcases eq_or_ne position left with rfl | hl
  · rw [Equiv.swap_apply_left]
    exact iff_of_true hright hleft
  rcases eq_or_ne position right with rfl | hr
  · rw [Equiv.swap_apply_right]
    exact iff_of_true hleft hright
  · rw [Equiv.swap_apply_of_ne_of_ne hl hr]

theorem Indexed.swap (hindexed : heap.Indexed key) (hleft : left < heap.size)
    (hright : right < heap.size) : (heap.swap key left right).Indexed key := by
  intro k position
  -- the item now at a position was at the exchanged one
  have hold : (position < heap.size ∧ key (heap.items (Equiv.swap left right position)) = k) ↔
      heap.index.lookup k = some (Equiv.swap left right position) := by
    rw [hindexed, swap_lt hleft hright]
  have hat {place : Nat} (hplace : place < heap.size) :
      heap.index.lookup (key (heap.items place)) = some place := (hindexed _ _).mpr ⟨hplace, rfl⟩
  show (insert _ _ (insert _ _ heap.index)).lookup k = some position ↔
    (position < heap.size ∧ key (heap.items (Equiv.swap left right position)) = k)
  rw [hold]
  rcases eq_or_ne k (key (heap.items left)) with rfl | hnotLeft
  · rw [lookup_insert, hat hleft, some.injEq, some.injEq,
      eq_comm (a := left), Equiv.swap_apply_eq_iff, Equiv.swap_apply_left, eq_comm]
  rw [lookup_insert_ne hnotLeft]
  rcases eq_or_ne k (key (heap.items right)) with rfl | hnotRight
  · rw [lookup_insert, hat hright, some.injEq, some.injEq,
      eq_comm (a := right), Equiv.swap_apply_eq_iff, Equiv.swap_apply_right, eq_comm]
  · rw [lookup_insert_ne hnotRight]
    have hother {place : Nat} (hplace : heap.index.lookup k = some place) :
        place ≠ left ∧ place ≠ right := by
      obtain ⟨-, rfl⟩ := (hindexed _ _).mp hplace
      exact ⟨fun h => hnotLeft (by rw [h]), fun h => hnotRight (by rw [h])⟩
    constructor
    · intro hlookup
      obtain ⟨hl, hr⟩ := hother hlookup
      rw [Equiv.swap_apply_of_ne_of_ne hl hr]
      exact hlookup
    · intro hlookup
      obtain ⟨hl, hr⟩ := hother hlookup
      have hsame := Equiv.swap_apply_of_ne_of_ne hl hr
      rw [Equiv.swap_apply_self] at hsame
      rw [hlookup, ← hsame]

theorem mem_swap (hleft : left < heap.size) (hright : right < heap.size)
    (item : E) : item ∈ heap.swap key left right ↔ item ∈ heap := by
  constructor
  · rintro ⟨position, hposition, hitem⟩
    exact ⟨Equiv.swap left right position, (swap_lt hleft hright).mpr hposition, hitem⟩
  · rintro ⟨position, hposition, hitem⟩
    refine ⟨Equiv.swap left right position, (swap_lt hleft hright).mpr hposition, ?_⟩
    show heap.items (Equiv.swap left right (Equiv.swap left right position)) = item
    rw [Equiv.swap_apply_self]
    exact hitem

/-- A heap with the same items, in other places. -/
structure Rearranges (key : E → K) (heap next : IndexedHeap K E) : Prop where
  size : next.size = heap.size
  mem : ∀ item, item ∈ next ↔ item ∈ heap
  indexed : heap.Indexed key → next.Indexed key

theorem Rearranges.refl (key : E → K) (heap : IndexedHeap K E) : Rearranges key heap heap :=
  ⟨rfl, fun _ => Iff.rfl, id⟩

theorem Rearranges.trans {first second third : IndexedHeap K E} (h₁ : Rearranges key first second)
    (h₂ : Rearranges key second third) : Rearranges key first third :=
  ⟨h₂.size.trans h₁.size, fun item => (h₂.mem _).trans (h₁.mem item),
    fun h => h₂.indexed (h₁.indexed h)⟩

theorem rearranges_swap (hleft : left < heap.size) (hright : right < heap.size) :
    Rearranges key heap (heap.swap key left right) :=
  ⟨rfl, mem_swap hleft hright, fun h => h.swap hleft hright⟩

theorem parent_lt {position : Nat} (h : position ≠ 0) : parent position < position := by
  unfold parent
  omega

variable (key) (less : E → E → Bool)

theorem siftUp_rearranges (fuel : Nat) {position : Nat} (hposition : position < heap.size) :
    Rearranges key heap (siftUp key less fuel heap position).1 ∧
      (siftUp key less fuel heap position).2 < heap.size := by
  induction fuel generalizing heap position with
  | zero => exact ⟨.refl key heap, hposition⟩
  | succ fuel ih =>
    unfold siftUp
    split
    · exact ⟨.refl key heap, hposition⟩
    next hpos =>
    split
    · have hparent := parent_lt hpos
      have hrest : parent position < (heap.swap key position (parent position)).size := by
        rw [size_swap]
        omega
      obtain ⟨hrest, hlt⟩ := ih hrest
      exact ⟨(rearranges_swap hposition (by omega)).trans hrest, hlt⟩
    · exact ⟨.refl key heap, hposition⟩

omit [DecidableEq K] in
theorem firstChild_bounds {position : Nat} (h : 2 * position + 1 < heap.size) :
    heap.firstChild less position < heap.size ∧ parent (heap.firstChild less position) = position ∧
      position < heap.firstChild less position := by
  unfold firstChild parent
  dsimp only
  split <;> omega

theorem siftDown_rearranges (fuel : Nat) {position : Nat} (hposition : position < heap.size) :
    Rearranges key heap (siftDown key less fuel heap position) := by
  induction fuel generalizing heap position with
  | zero => exact .refl key heap
  | succ fuel ih =>
    unfold siftDown
    split
    · exact .refl key heap
    next hchild =>
    obtain ⟨hlt, -, -⟩ := firstChild_bounds _ (Nat.lt_of_not_ge hchild)
    dsimp only
    split
    · have hrest := hlt
      exact (rearranges_swap hposition hlt).trans (ih hrest)
    · exact .refl key heap

theorem fix_rearranges {position : Nat} (hposition : position < heap.size) :
    Rearranges key heap (heap.fix key less position) := by
  obtain ⟨hup, hlt⟩ := siftUp_rearranges _ _ _ hposition
  exact hup.trans (siftDown_rearranges _ _ _ (hup.size ▸ hlt))

end Positions

section Order

/-- Not coming before is transitive, and of two items at most one comes before
the other. -/
structure WeakOrder (less : E → E → Bool) : Prop where
  asymm : ∀ {a b}, less a b = true → less b a = false
  trans : ∀ {a b c}, less b a = false → less c b = false → less c a = false

variable {key : E → K} {less : E → E → Bool} {heap : IndexedHeap K E}

theorem WeakOrder.irrefl (horder : WeakOrder less) (a : E) : less a a = false := by
  by_contra h
  have htrue := Bool.eq_true_of_not_eq_false h
  exact h (horder.asymm htrue)

/-- No item comes before its parent. -/
def Ordered (less : E → E → Bool) (heap : IndexedHeap K E) : Prop :=
  ∀ position < heap.size, position ≠ 0 →
    less (heap.items position) (heap.items (parent position)) = false

/-- The same but at one position, whose children do not come before its
parent. -/
structure OrderedExcept (less : E → E → Bool) (heap : IndexedHeap K E) (hole : Nat) : Prop where
  others : ∀ position < heap.size, position ≠ 0 → position ≠ hole → parent position ≠ hole →
    less (heap.items position) (heap.items (parent position)) = false
  across : hole ≠ 0 → ∀ position < heap.size, position ≠ 0 → parent position = hole →
    less (heap.items position) (heap.items (parent hole)) = false

omit [DecidableEq K] in
theorem Ordered.first (horder : WeakOrder less) (hheap : heap.Ordered less) {item : E}
    (hitem : item ∈ heap) : less item (heap.items 0) = false := by
  obtain ⟨position, hposition, rfl⟩ := hitem
  induction position using Nat.strongRecOn with
  | _ position ih =>
    by_cases hzero : position = 0
    · rw [hzero]
      exact horder.irrefl _
    · have hlt := parent_lt hzero
      exact horder.trans (ih _ hlt (by omega)) (hheap position hposition hzero)

omit [DecidableEq K] in
/-- An ordered heap that is changed at one position only. -/
theorem Ordered.orderedExcept (horder : WeakOrder less) (hheap : heap.Ordered less)
    {next : IndexedHeap K E} {hole : Nat} (hsize : next.size ≤ heap.size)
    (hat : ∀ {other}, other ≠ hole → next.items other = heap.items other) :
    next.OrderedExcept less hole := by
  refine ⟨?_, ?_⟩
  · intro other hother hzero hne hup
    rw [hat hne, hat hup]
    exact hheap other (hother.trans_le hsize) hzero
  · intro hpos other hother hzero hup
    have hparent := parent_lt hpos
    have hchild := parent_lt hzero
    rw [hat (by omega), hat (by omega)]
    have hlower := hheap other (by omega) hzero
    rw [hup] at hlower
    exact horder.trans (hheap hole (by omega) hpos) hlower

/-- The children of a position do not come before it. -/
def Below (less : E → E → Bool) (heap : IndexedHeap K E) (hole : Nat) : Prop :=
  ∀ position < heap.size, position ≠ 0 → parent position = hole →
    less (heap.items position) (heap.items hole) = false

omit [DecidableEq K] in
theorem OrderedExcept.placed {hole : Nat} (hheap : heap.OrderedExcept less hole)
    (habove : hole ≠ 0 → less (heap.items hole) (heap.items (parent hole)) = false)
    (hbelow : heap.Below less hole) : heap.Ordered less := by
  intro other hother hzero
  by_cases hself : other = hole
  · rw [hself]
    exact habove (hself ▸ hzero)
  by_cases hup : parent other = hole
  · rw [hup]
    exact hbelow other hother hzero hup
  · exact hheap.others other hother hzero hself hup

section Up

variable (key) {position : Nat} (horder : WeakOrder less) (hpos : position ≠ 0)
  (hposition : position < heap.size) (hheap : heap.OrderedExcept less position)
include horder hpos hposition hheap

theorem OrderedExcept.moveUp :
    (heap.swap key position (parent position)).OrderedExcept less (parent position) := by
  have hparent := parent_lt hpos
  have hat (other : Nat) (hl : other ≠ position) (hr : other ≠ parent position) :
      (heap.swap key position (parent position)).items other = heap.items other :=
    congrArg heap.items (Equiv.swap_apply_of_ne_of_ne hl hr)
  have hhere : (heap.swap key position (parent position)).items position =
      heap.items (parent position) := congrArg heap.items (Equiv.swap_apply_left _ _)
  constructor
  · intro other hother hzero hne hup
    have hself : other ≠ position := fun h => hup (by rw [h])
    rw [hat _ hself hne]
    by_cases hchild : parent other = position
    · rw [hchild, hhere]
      exact hheap.across hpos _ hother hzero hchild
    · rw [hat _ hchild hup]
      exact hheap.others _ hother hzero hself hchild
  · intro hzero other hother hnonzero hup
    have hgrand := parent_lt hzero
    have habove := hheap.others (parent position) (by omega) hzero (by omega) (by omega)
    rw [hat (parent (parent position)) (by omega) (by omega)]
    by_cases hself : other = position
    · rw [hself, hhere]
      exact habove
    rw [hat _ hself (fun h => by have := parent_lt hnonzero; omega)]
    have hsibling := hheap.others _ hother hnonzero hself (by omega)
    rw [hup] at hsibling
    exact horder.trans habove hsibling

omit hposition in
theorem OrderedExcept.below_moveUp
    (hless : less (heap.items position) (heap.items (parent position)) = true) :
    (heap.swap key position (parent position)).Below less (parent position) := by
  intro other hother hzero hup
  have hparent := parent_lt hpos
  have hthere : (heap.swap key position (parent position)).items (parent position) =
      heap.items position := congrArg heap.items (Equiv.swap_apply_right _ _)
  have hdown := horder.asymm hless
  rw [hthere]
  by_cases hself : other = position
  · have hhere : (heap.swap key position (parent position)).items position =
        heap.items (parent position) := congrArg heap.items (Equiv.swap_apply_left _ _)
    rw [hself, hhere]
    exact hdown
  · have hat : (heap.swap key position (parent position)).items other = heap.items other :=
      congrArg heap.items (Equiv.swap_apply_of_ne_of_ne hself
        (fun h => by have := parent_lt hzero; omega))
    have hsibling := hheap.others other hother hzero hself (by omega)
    rw [hup] at hsibling
    rw [hat]
    exact horder.trans hdown hsibling

end Up

variable (key) in
/-- Moving up stops where the item does not come before its parent; if it did
not come after its children, it still does not. -/
theorem siftUp_ordered (horder : WeakOrder less) (fuel : Nat) {position : Nat}
    (hfuel : position ≤ fuel) (hposition : position < heap.size)
    (hheap : heap.OrderedExcept less position) :
    let up := siftUp key less fuel heap position
    up.1.OrderedExcept less up.2 ∧
      (up.2 ≠ 0 → less (up.1.items up.2) (up.1.items (parent up.2)) = false) ∧
      (heap.Below less position → up.1.Below less up.2) := by
  induction fuel generalizing heap position with
  | zero => exact ⟨hheap, fun h => absurd (Nat.le_zero.mp hfuel) h, id⟩
  | succ fuel ih =>
    unfold siftUp
    split
    next hzero => exact ⟨hheap, fun h => absurd hzero h, id⟩
    next hpos =>
    split
    next hless =>
      have hparent := parent_lt hpos
      obtain ⟨hexcept, habove, hbelow⟩ := ih (by omega)
        (show parent position < (heap.swap key position (parent position)).size by
          rw [size_swap]; omega)
        (hheap.moveUp key horder hpos hposition)
      exact ⟨hexcept, habove, fun _ => hbelow (hheap.below_moveUp key horder hpos hless)⟩
    next hstop => exact ⟨hheap, fun _ => Bool.not_eq_true _ ▸ hstop, id⟩

omit [DecidableEq K] in
theorem firstChild_first (horder : WeakOrder less) {position child : Nat}
    (hchild : child < heap.size) (hzero : child ≠ 0) (hparent : parent child = position) :
    less (heap.items child) (heap.items (heap.firstChild less position)) = false := by
  have hcases : child = 2 * position + 1 ∨ child = 2 * position + 1 + 1 := by
    unfold parent at hparent
    omega
  unfold firstChild
  dsimp only
  split
  next hright =>
    rcases hcases with rfl | rfl
    · exact horder.asymm hright.2
    · exact horder.irrefl _
  next hleft =>
    rcases hcases with rfl | rfl
    · exact horder.irrefl _
    · rw [not_and, Bool.not_eq_true] at hleft
      exact hleft hchild

section Down

variable (key) {position : Nat} (horder : WeakOrder less)
  (hchild : 2 * position + 1 < heap.size)
include horder hchild

theorem OrderedExcept.moveDown (hheap : heap.OrderedExcept less position)
    (hless : less (heap.items (heap.firstChild less position)) (heap.items position) = true) :
    let next := heap.swap key position (heap.firstChild less position)
    next.OrderedExcept less (heap.firstChild less position) ∧
      less (next.items (heap.firstChild less position))
        (next.items (parent (heap.firstChild less position))) = false := by
  intro next
  obtain ⟨hlt, hparent, hafter⟩ := firstChild_bounds _ hchild
  have hfirst {other : Nat} (hother : other < heap.size) (hzero : other ≠ 0)
      (hsibling : parent other = position) :
      less (heap.items other) (heap.items (heap.firstChild less position)) = false :=
    firstChild_first horder hother hzero hsibling
  have hat (other : Nat) (hl : other ≠ position) (hr : other ≠ heap.firstChild less position) :
      next.items other = heap.items other :=
    congrArg heap.items (Equiv.swap_apply_of_ne_of_ne hl hr)
  have hhere : next.items position = heap.items (heap.firstChild less position) :=
    congrArg heap.items (Equiv.swap_apply_left _ _)
  have hthere : next.items (heap.firstChild less position) = heap.items position :=
    congrArg heap.items (Equiv.swap_apply_right _ _)
  generalize heap.firstChild less position = child at *
  refine ⟨⟨?_, ?_⟩, ?_⟩
  · intro other hother hzero hne hup
    by_cases hself : other = position
    · rw [hself, hhere, hat (parent position) (by have := parent_lt (hself ▸ hzero); omega)
        (by have := parent_lt (hself ▸ hzero); omega)]
      exact hheap.across (hself ▸ hzero) _ hlt (by omega) hparent
    rw [hat _ hself hne]
    by_cases hsibling : parent other = position
    · rw [hsibling, hhere]
      exact hfirst hother hzero hsibling
    · rw [hat _ hsibling hup]
      exact hheap.others _ hother hzero hself hsibling
  · intro _ other hother hzero hup
    have hbelow := parent_lt hzero
    rw [hparent, hhere, hat _ (by omega) (by omega)]
    have hold := hheap.others _ hother hzero (by omega) (by omega)
    rwa [hup] at hold
  · rw [hthere, hparent, hhere]
    exact horder.asymm hless

end Down

theorem siftDown_ordered (horder : WeakOrder less) (fuel : Nat) {position : Nat}
    (hfuel : heap.size ≤ fuel + position) (hheap : heap.OrderedExcept less position)
    (habove : position ≠ 0 → less (heap.items position) (heap.items (parent position)) = false) :
    (siftDown key less fuel heap position).Ordered less := by
  induction fuel generalizing heap position with
  | zero =>
    refine hheap.placed habove fun child hchild hzero hparent => ?_
    have := parent_lt hzero
    omega
  | succ fuel ih =>
    unfold siftDown
    split
    next hnone =>
      refine hheap.placed habove fun child hchild hzero hparent => ?_
      unfold parent at hparent
      omega
    next hsome =>
      dsimp only
      have hchild := Nat.lt_of_not_ge hsome
      obtain ⟨hlt, -, hafter⟩ := firstChild_bounds less hchild
      split
      next hless =>
        obtain ⟨hnext, hplace⟩ := hheap.moveDown _ horder hchild hless
        refine ih ?_ hnext fun _ => hplace
        rw [size_swap]
        omega
      next hstop =>
        refine hheap.placed habove fun child hother hzero hparent => ?_
        exact horder.trans (Bool.not_eq_true _ ▸ hstop)
          (firstChild_first horder hother hzero hparent)

variable (key) in
theorem fix_ordered (horder : WeakOrder less) {position : Nat} (hposition : position < heap.size)
    (hheap : heap.OrderedExcept less position) : (heap.fix key less position).Ordered less := by
  obtain ⟨hexcept, habove, -⟩ := siftUp_ordered key horder position le_rfl hposition hheap
  exact siftDown_ordered horder _ (Nat.le_add_right _ _) hexcept habove

end Order

section Specification

/-- The items are in order and the table is right. -/
structure WellFormed (key : E → K) (less : E → E → Bool) (heap : IndexedHeap K E) : Prop where
  ordered : heap.Ordered less
  indexed : heap.Indexed key

variable {key : E → K} {less : E → E → Bool} {heap : IndexedHeap K E}

theorem wellFormed_empty (items : Nat → E) : WellFormed key less ⟨items, 0, ∅⟩ :=
  ⟨fun _ h => absurd h (Nat.not_lt_zero _), fun _ _ => by simp⟩

section Upsert

variable (horder : WeakOrder less) (hheap : heap.WellFormed key less) {item : E}
include horder hheap

theorem replace_spec {position : Nat} (hlookup : heap.index.lookup (key item) = some position) :
    let next : IndexedHeap K E := { heap with items := Function.update heap.items position item }
    next.OrderedExcept less position ∧ next.Indexed key ∧
      ∀ other, other ∈ next ↔ other = item ∨ other ∈ heap ∧ key other ≠ key item := by
  intro next
  obtain ⟨hposition, hkey⟩ := (hheap.indexed _ _).mp hlookup
  have hself : next.items position = item := update_self ..
  have hat {other : Nat} (hne : other ≠ position) : next.items other = heap.items other :=
    update_of_ne hne ..
  refine ⟨hheap.ordered.orderedExcept horder le_rfl hat, ?_, ?_⟩
  · intro k other
    rw [hheap.indexed]
    by_cases hne : other = position
    · rw [hne, hself, hkey]
    · rw [hat hne]
  · intro other
    constructor
    · rintro ⟨place, hplace, rfl⟩
      by_cases hne : place = position
      · rw [hne]
        exact Or.inl hself
      rw [hat hne]
      refine Or.inr ⟨⟨place, hplace, rfl⟩, fun hsame => hne ?_⟩
      exact hheap.indexed.inj hplace hposition (hsame.trans hkey.symm)
    · rintro (rfl | ⟨⟨place, hplace, rfl⟩, hkey'⟩)
      · exact ⟨position, hposition, hself⟩
      · exact ⟨place, hplace, hat fun h => hkey' (by rw [h, hkey])⟩

omit horder in
theorem push_spec (hlookup : heap.index.lookup (key item) = none) :
    let next := heap.push key item
    next.OrderedExcept less heap.size ∧ next.Below less heap.size ∧ next.Indexed key ∧
      ∀ other, other ∈ next ↔ other = item ∨ other ∈ heap ∧ key other ≠ key item := by
  intro next
  have hself : next.items heap.size = item := update_self ..
  have hat {other : Nat} (hne : other ≠ heap.size) : next.items other = heap.items other :=
    update_of_ne hne ..
  have hnew {place : Nat} (hplace : place < heap.size) : key (heap.items place) ≠ key item := by
    intro hsame
    have hfound := (hheap.indexed (key item) place).mpr ⟨hplace, hsame⟩
    rw [hlookup] at hfound
    cases hfound
  have hnone {other : Nat} (hother : other < next.size) (hzero : other ≠ 0) :
      parent other ≠ heap.size := by
    have := parent_lt hzero
    have hsize : next.size = heap.size + 1 := rfl
    omega
  refine ⟨⟨?_, ?_⟩, ?_, ?_, ?_⟩
  · intro other hother hzero hne hup
    have hsize : next.size = heap.size + 1 := rfl
    rw [hat hne, hat hup]
    exact hheap.ordered other (by omega) hzero
  · intro _ other hother hzero hup
    exact absurd hup (hnone hother hzero)
  · intro other hother hzero hup
    exact absurd hup (hnone hother hzero)
  · intro k other
    show (heap.index.insert (key item) heap.size).lookup k = some other ↔
      (other < heap.size + 1 ∧ key (next.items other) = k)
    by_cases hlast : other = heap.size
    · rw [hlast, hself]
      by_cases hk : k = key item
      · rw [hk, lookup_insert]
        simp
      · rw [lookup_insert_ne hk, hheap.indexed]
        simp [Ne.symm hk]
    · rw [hat hlast]
      by_cases hk : k = key item
      · rw [hk, lookup_insert, some.injEq]
        refine iff_of_false (Ne.symm hlast) fun ⟨hother, hsame⟩ => ?_
        exact hnew (by omega) hsame
      · rw [lookup_insert_ne hk, hheap.indexed]
        refine and_congr_left fun _ => ?_
        omega
  · intro other
    constructor
    · rintro ⟨place, hplace, rfl⟩
      by_cases hlast : place = heap.size
      · rw [hlast]
        exact Or.inl hself
      have hlt : place < heap.size := by
        have hsize : next.size = heap.size + 1 := rfl
        omega
      rw [hat hlast]
      exact Or.inr ⟨⟨place, hlt, rfl⟩, hnew hlt⟩
    · rintro (rfl | ⟨⟨place, hplace, rfl⟩, -⟩)
      · exact ⟨heap.size, Nat.lt_succ_self _, hself⟩
      · exact ⟨place, Nat.lt_succ_of_lt hplace, hat hplace.ne⟩

variable (item) in
theorem upsert_spec :
    (heap.upsert key less item).WellFormed key less ∧
      ∀ other, other ∈ heap.upsert key less item ↔
        other = item ∨ other ∈ heap ∧ key other ≠ key item := by
  unfold upsert
  split
  next position hlookup =>
    obtain ⟨hexcept, hindexed, hmem⟩ := replace_spec horder hheap hlookup
    have hposition := ((hheap.indexed _ _).mp hlookup).1
    have hfix : Rearranges key
        ({ heap with items := update heap.items position item } : IndexedHeap K E) _ :=
      fix_rearranges key less hposition
    exact ⟨⟨fix_ordered key horder hposition hexcept, hfix.indexed hindexed⟩,
      fun other => (hfix.mem other).trans (hmem other)⟩
  next hlookup =>
    obtain ⟨hexcept, hbelow, hindexed, hmem⟩ := push_spec hheap hlookup
    have hlast : heap.size < (heap.push key item).size := Nat.lt_succ_self _
    obtain ⟨hup, hat⟩ := siftUp_rearranges key less heap.size hlast
    obtain ⟨hplace, habove, hchildren⟩ := siftUp_ordered key horder heap.size le_rfl hlast hexcept
    exact ⟨⟨hplace.placed habove (hchildren hbelow), hup.indexed hindexed⟩,
      fun other => (hup.mem other).trans (hmem other)⟩

end Upsert

section Drop

variable {hole other : Nat} (k : K)

variable (key heap hole) in
theorem size_dropAt : (heap.dropAt key hole).size = heap.size - 1 := by
  unfold dropAt
  dsimp only
  split <;> rfl

theorem dropAt_of_ne (hne : other ≠ hole) :
    (heap.dropAt key hole).items other = heap.items other := by
  unfold dropAt
  dsimp only
  split
  · exact update_of_ne hne ..
  · rfl

theorem dropAt_self (hlast : heap.size - 1 ≠ hole) :
    (heap.dropAt key hole).items hole = heap.items (heap.size - 1) := by
  unfold dropAt
  dsimp only
  rw [if_pos hlast]
  exact update_self ..

theorem lookup_dropAt :
    (heap.dropAt key hole).index.lookup k =
      if heap.size - 1 ≠ hole ∧ k = key (heap.items (heap.size - 1)) then some hole
      else if k = key (heap.items hole) then none else heap.index.lookup k := by
  have herase : (heap.index.erase (key (heap.items hole))).lookup k =
      if k = key (heap.items hole) then none else heap.index.lookup k := by
    split
    next hold => rw [hold, lookup_erase]
    next hold => exact lookup_erase_ne hold
  unfold dropAt
  dsimp only
  split
  next hlast =>
    rw [if_congr (and_iff_right hlast) rfl rfl, ← herase]
    split
    next hk => rw [hk, lookup_insert]
    next hk => exact lookup_insert_ne hk
  next hlast => rw [if_neg fun h => hlast h.1, ← herase]

end Drop

section Remove

variable (horder : WeakOrder less) (hheap : heap.WellFormed key less) {hole : Nat}
  (hhole : hole < heap.size)
include hheap hhole

theorem dropAt_indexed : (heap.dropAt key hole).Indexed key := by
  intro k other
  rw [lookup_dropAt, size_dropAt]
  split
  next hmoved =>
    obtain ⟨hlast, rfl⟩ := hmoved
    rw [some.injEq]
    rcases eq_or_ne other hole with rfl | hne
    · rw [dropAt_self hlast]
      exact iff_of_true rfl ⟨by omega, rfl⟩
    rw [dropAt_of_ne hne]
    refine iff_of_false hne.symm fun ⟨hother, hkey⟩ => ?_
    have := hheap.indexed.inj (by omega) (by omega) hkey
    omega
  next hmoved =>
  -- the place of the removed item is now that of the last one
  have hfilled (hinside : hole < heap.size - 1) : key ((heap.dropAt key hole).items hole) ≠ k := by
    rw [dropAt_self hinside.ne']
    exact fun hkey => hmoved ⟨hinside.ne', hkey.symm⟩
  split
  next hold =>
    refine iff_of_false nofun fun ⟨hother, hkey⟩ => ?_
    rcases eq_or_ne other hole with rfl | hne
    · exact hfilled hother hkey
    rw [dropAt_of_ne hne, hold] at hkey
    exact hne (hheap.indexed.inj (by omega) hhole hkey)
  next hold =>
    rw [hheap.indexed]
    rcases eq_or_ne other hole with rfl | hne
    · exact iff_of_false (fun h => hold h.2.symm) fun h => hfilled h.1 h.2
    rw [dropAt_of_ne hne]
    refine and_congr_left fun hkey => ⟨fun hother => ?_, fun hother => by omega⟩
    by_contra hge
    have hend : other = heap.size - 1 := by omega
    exact hmoved ⟨by omega, by rw [← hkey, hend]⟩

theorem mem_dropAt (item : E) :
    item ∈ heap.dropAt key hole ↔ item ∈ heap ∧ key item ≠ key (heap.items hole) := by
  constructor
  · rintro ⟨place, hplace, rfl⟩
    rw [size_dropAt] at hplace
    by_cases hsame : place = hole
    · rw [hsame, dropAt_self (by omega)]
      refine ⟨⟨heap.size - 1, by omega, rfl⟩, fun hkey => ?_⟩
      have := hheap.indexed.inj (by omega) hhole hkey
      omega
    · rw [dropAt_of_ne hsame]
      refine ⟨⟨place, by omega, rfl⟩, fun hkey => hsame ?_⟩
      exact hheap.indexed.inj (by omega) hhole hkey
  · rintro ⟨⟨place, hplace, rfl⟩, hkey⟩
    have hne : place ≠ hole := fun h => hkey (by rw [h])
    by_cases hend : place = heap.size - 1
    · exact ⟨hole, by rw [size_dropAt]; omega, hend ▸ dropAt_self (by omega)⟩
    · exact ⟨place, by rw [size_dropAt]; omega, dropAt_of_ne hne⟩

include horder

theorem remove_spec :
    (heap.remove key less hole).WellFormed key less ∧
      (heap.remove key less hole).size = heap.size - 1 ∧
      ∀ other, other ∈ heap.remove key less hole ↔
        other ∈ heap ∧ key other ≠ key (heap.items hole) := by
  have hexcept : (heap.dropAt key hole).OrderedExcept less hole :=
    hheap.ordered.orderedExcept horder (by rw [size_dropAt]; omega) dropAt_of_ne
  have hindexed := dropAt_indexed hheap hhole
  have hsize := size_dropAt key heap hole
  have hmem := mem_dropAt hheap hhole
  unfold remove
  dsimp only
  split
  next hinside =>
    have hfix := fix_rearranges key less hinside
    exact ⟨⟨fix_ordered key horder hinside hexcept, hfix.indexed hindexed⟩,
      hfix.size.trans hsize, fun other => (hfix.mem other).trans (hmem other)⟩
  next houtside =>
    refine ⟨⟨fun position hposition hzero => ?_, hindexed⟩, hsize, hmem⟩
    have := parent_lt hzero
    exact hexcept.others position hposition hzero (by omega) (by omega)

end Remove

theorem pop_spec (hheap : heap.WellFormed key less) (hpos : heap.size ≠ 0)
    (horder : WeakOrder less) :
    ∃ rest, heap.pop key less = some (heap.items 0, rest) ∧ rest.WellFormed key less ∧
      rest.size = heap.size - 1 ∧
      ∀ other, other ∈ rest ↔ other ∈ heap ∧ key other ≠ key (heap.items 0) := by
  have hpop : heap.pop key less = some (heap.items 0, heap.remove key less 0) := by
    unfold pop remove
    rw [if_neg hpos]
    simp only [Nat.pos_iff_ne_zero]
    rfl
  exact ⟨_, hpop, remove_spec horder hheap (Nat.pos_of_ne_zero hpos)⟩

end Specification

end IndexedHeap

end Ivnp.Lib
