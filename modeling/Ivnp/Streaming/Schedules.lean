import Ivnp.Lib.IndexedHeap
import Ivnp.Lib.Run

/-!
The schedules of the streaming network (`tunnel.go`): packets by the time they are due and the
order in which they came, and connections by the time of their next retry. The counter behind the
order has 64 bits, so the order is that of the pushes until it wraps. The cleanup of the retries is
a walk over a heap that changes under it, and can miss a closed connection.
-/

namespace Ivnp.Streaming

open Ivnp.Lib IndexedHeap

variable {Request Connection : Type*} [DecidableEq Connection]

/-- `serial` is the number of the push, of which the source keeps the low 64 bits. -/
structure ScheduledSend (Request : Type*) where
  request : Request
  due : Nat
  serial : Nat

def ScheduledSend.order (item : ScheduledSend Request) : UInt64 := UInt64.ofNat item.serial

/-- The heap of the source has no table of positions; none of the calls reads it. -/
structure SendSchedule (Request : Type*) where
  heap : IndexedHeap Nat (ScheduledSend Request)
  serial : Nat

inductive SendOperation (Request : Type*) where
  | push (request : Request) (due : Nat)
  | updateTop (due : Nat)
  | pop

namespace SendSchedule

def less (left right : ScheduledSend Request) : Bool :=
  if left.due = right.due then left.order < right.order else left.due < right.due

def push (schedule : SendSchedule Request) (request : Request) (due : Nat) :
    SendSchedule Request :=
  let serial := schedule.serial + 1
  let size := schedule.heap.size
  ⟨(siftUp ScheduledSend.serial less size
    (schedule.heap.push ScheduledSend.serial ⟨request, due, serial⟩) size).1, serial⟩

def pop (schedule : SendSchedule Request) :
    Option (ScheduledSend Request × SendSchedule Request) :=
  (schedule.heap.pop ScheduledSend.serial less).map fun (item, heap) => (item, { schedule with heap })

def updateTop (schedule : SendSchedule Request) (due : Nat) : SendSchedule Request :=
  let heap := schedule.heap
  let items := Function.update heap.items 0 { heap.items 0 with due }
  { schedule with heap := siftDown ScheduledSend.serial less heap.size { heap with items } 0 }

/-- There is nothing to update or pop in an empty schedule. -/
def step (schedule : SendSchedule Request) : SendOperation Request → SendSchedule Request
  | .push request due => schedule.push request due
  | .updateTop due => if schedule.heap.size = 0 then schedule else schedule.updateTop due
  | .pop => (schedule.pop.map Prod.snd).getD schedule

/-- The items past the size are never read. -/
def after (rest : Nat → ScheduledSend Request) (operations : List (SendOperation Request)) :
    SendSchedule Request :=
  run step ⟨⟨rest, 0, ∅⟩, 0⟩ operations

theorem less_weakOrder : WeakOrder (@less Request) where
  asymm := by
    simp only [less, UInt64.lt_iff_toNat_lt]
    grind
  trans := by
    simp only [less, UInt64.lt_iff_toNat_lt]
    grind

/-- Order and table are right, and the items have the numbers of former pushes. -/
structure Sound (schedule : SendSchedule Request) : Prop where
  heap : schedule.heap.WellFormed ScheduledSend.serial less
  old : ∀ item ∈ schedule.heap, item.serial ≤ schedule.serial

section Step

variable {schedule : SendSchedule Request} (h : schedule.Sound)
include h

theorem Sound.of_upsert {next : SendSchedule Request} (item : ScheduledSend Request)
    (hheap : next.heap = schedule.heap.upsert ScheduledSend.serial less item)
    (hserial : schedule.serial ≤ next.serial) (hitem : item.serial ≤ next.serial) : next.Sound := by
  obtain ⟨hwell, hmem⟩ := upsert_spec less_weakOrder h.heap item
  refine ⟨hheap ▸ hwell, fun other hother => ?_⟩
  rw [hheap, hmem] at hother
  rcases hother with rfl | ⟨hother, -⟩
  · exact hitem
  · exact (h.old other hother).trans hserial

theorem Sound.push (request : Request) (due : Nat) : (schedule.push request due).Sound := by
  have hnew : schedule.heap.index.lookup (schedule.serial + 1) = none := by
    rw [Option.eq_none_iff_forall_ne_some]
    intro position hlookup
    obtain ⟨hlt, hserial⟩ := (h.heap.indexed _ _).mp hlookup
    have hold := h.old _ ⟨position, hlt, rfl⟩
    omega
  refine h.of_upsert ⟨request, due, schedule.serial + 1⟩ ?_ (Nat.le_succ _) le_rfl
  rw [upsert, hnew]
  rfl

theorem Sound.updateTop (hpos : schedule.heap.size ≠ 0) (due : Nat) :
    (schedule.updateTop due).Sound := by
  have hfirst := Nat.pos_of_ne_zero hpos
  refine h.of_upsert { schedule.heap.items 0 with due } ?_ le_rfl
    (h.old (schedule.heap.items 0) ⟨0, hfirst, rfl⟩)
  rw [upsert, (h.heap.indexed _ _).mpr ⟨hfirst, rfl⟩]
  rfl

theorem Sound.pop {popped : ScheduledSend Request × SendSchedule Request}
    (hpopped : schedule.pop = some popped) : popped.1 = schedule.heap.items 0 ∧ popped.2.Sound := by
  by_cases hpos : schedule.heap.size = 0
  · rw [SendSchedule.pop, IndexedHeap.pop, if_pos hpos] at hpopped
    cases hpopped
  · obtain ⟨rest, hpop, hheap, -, hmem⟩ := pop_spec h.heap hpos less_weakOrder
    rw [SendSchedule.pop, hpop] at hpopped
    cases hpopped
    exact ⟨rfl, hheap, fun item hitem => h.old item ((hmem item).mp hitem).1⟩

theorem Sound.step (operation : SendOperation Request) : (schedule.step operation).Sound := by
  cases operation with
  | push request due => exact h.push request due
  | updateTop due =>
    unfold SendSchedule.step
    dsimp only
    split
    · exact h
    next hpos => exact h.updateTop hpos due
  | pop =>
    unfold SendSchedule.step
    dsimp only
    cases hpop : schedule.pop with
    | none => exact h
    | some popped => exact (h.pop hpop).2

/-- Below the wrap no item with the time of the first one was pushed before it. -/
theorem Sound.first {item : ScheduledSend Request} (hitem : item ∈ schedule.heap)
    (hserial : schedule.serial < 2 ^ 64) (hdue : item.due = (schedule.heap.items 0).due) :
    (schedule.heap.items 0).serial ≤ item.serial := by
  have hless := h.heap.ordered.first less_weakOrder hitem
  obtain ⟨position, hposition, rfl⟩ := hitem
  have hold := h.old _ ⟨position, hposition, rfl⟩
  have hfirst := h.old _ ⟨0, by omega, rfl⟩
  simp only [less, hdue, if_true, decide_eq_false_iff_not, UInt64.lt_iff_toNat_lt,
    ScheduledSend.order, UInt64.toNat_ofNat'] at hless
  omega

end Step

theorem after_sound (rest : Nat → ScheduledSend Request)
    (operations : List (SendOperation Request)) : (after rest operations).Sound :=
  run_preserves (I := Sound) (fun _ operation h => h.step operation)
    ⟨wellFormed_empty rest, fun _ ⟨_, hlt, _⟩ => absurd hlt (Nat.not_lt_zero _)⟩ operations

/-- So many packets that leave one by one. -/
def singles (count : Nat) : List (SendOperation Nat) :=
  (List.replicate count [.push 0 0, .pop]).flatten

theorem run_singles (count serial : Nat) (rest : Nat → ScheduledSend Nat) :
    ∃ items, run step ⟨⟨rest, 0, ∅⟩, serial⟩ (singles count) = ⟨⟨items, 0, ∅⟩, serial + count⟩ := by
  induction count generalizing serial rest with
  | zero => exact ⟨rest, rfl⟩
  | succ count ih =>
    obtain ⟨items, hitems⟩ := ih (serial + 1) (Function.update rest 0 ⟨0, 0, serial + 1⟩)
    have hone : run step ⟨⟨rest, 0, ∅⟩, serial⟩ [.push 0 0, .pop] =
        ⟨⟨Function.update rest 0 ⟨0, 0, serial + 1⟩, 0, ∅⟩, serial + 1⟩ := by
      simp [step, push, pop, siftUp, IndexedHeap.push, IndexedHeap.pop, dropFirst]
      exact AList.ext (List.kerase_cons_eq rfl)
    refine ⟨items, ?_⟩
    rw [singles, List.replicate_succ, List.flatten_cons, run_append, hone]
    exact hitems.trans (by rw [Nat.add_right_comm, Nat.add_assoc])

/-- The packet after the one with the last number overtakes it. -/
theorem wrapped_overtakes :
    (after (fun _ => ⟨0, 0, 0⟩) (singles (2 ^ 64 - 2) ++ [.push 1 0, .push 2 0])).pop.map
      (·.1.request) = some 2 := by
  obtain ⟨items, hitems⟩ := run_singles (2 ^ 64 - 2) 0 fun _ => ⟨0, 0, 0⟩
  rw [after, run_append, hitems]
  simp [step, push, pop, siftUp, IndexedHeap.push, IndexedHeap.pop, parent, less,
    ScheduledSend.order, swap]

end SendSchedule

/-- The zero time is 0. -/
structure ScheduledRetry (Connection : Type*) where
  connection : Connection
  due : Nat

abbrev RetrySchedule (Connection : Type*) := IndexedHeap Connection (ScheduledRetry Connection)

inductive RetryOperation (Connection : Type*) where
  | upsert (connection : Connection) (due : Nat)
  | remove (index : Nat)
  | pop

namespace RetrySchedule

def less (left right : ScheduledRetry Connection) : Bool := left.due < right.due

def remove (schedule : RetrySchedule Connection) (index : Nat) : RetrySchedule Connection :=
  IndexedHeap.remove ScheduledRetry.connection less schedule index

def upsert (schedule : RetrySchedule Connection) (connection : Connection) (due : Nat) :
    RetrySchedule Connection :=
  if due = 0 then
    match schedule.index.lookup connection with
    | some index => schedule.remove index
    | none => schedule
  else IndexedHeap.upsert ScheduledRetry.connection less schedule ⟨connection, due⟩

def pop (schedule : RetrySchedule Connection) :
    Option (ScheduledRetry Connection × RetrySchedule Connection) :=
  if schedule.size = 0 then none else some (schedule.items 0, schedule.remove 0)

/-- There is nothing to remove past the end. -/
def step (schedule : RetrySchedule Connection) :
    RetryOperation Connection → RetrySchedule Connection
  | .upsert connection due => schedule.upsert connection due
  | .remove index => if index < schedule.size then schedule.remove index else schedule
  | .pop => (schedule.pop.map Prod.snd).getD schedule

def after (rest : Nat → ScheduledRetry Connection) (operations : List (RetryOperation Connection)) :
    RetrySchedule Connection :=
  run step ⟨rest, 0, ∅⟩ operations

abbrev Sound (schedule : RetrySchedule Connection) : Prop :=
  schedule.WellFormed ScheduledRetry.connection less

omit [DecidableEq Connection] in
theorem less_weakOrder : WeakOrder (@less Connection) := by constructor <;> grind [less]

section Step

variable {schedule : RetrySchedule Connection} (h : schedule.Sound)
include h

theorem remove_sound {index : Nat} (hindex : index < schedule.size) :
    (schedule.remove index).Sound :=
  (remove_spec less_weakOrder h hindex).1

theorem step_sound (operation : RetryOperation Connection) : (schedule.step operation).Sound := by
  cases operation with
  | upsert connection due =>
    unfold step upsert
    dsimp only
    split
    · split
      next index hlookup => exact remove_sound h ((h.indexed _ _).mp hlookup).1
      · exact h
    · exact (upsert_spec less_weakOrder h ⟨connection, due⟩).1
  | remove index =>
    unfold step
    dsimp only
    split
    next hindex => exact remove_sound h hindex
    · exact h
  | pop =>
    unfold step pop
    dsimp only
    split
    · exact h
    next hsize => exact remove_sound h (Nat.pos_of_ne_zero hsize)

end Step

theorem after_sound (rest : Nat → ScheduledRetry Connection)
    (operations : List (RetryOperation Connection)) : (after rest operations).Sound :=
  run_preserves (I := Sound) (fun _ operation h => step_sound h operation)
    (wellFormed_empty rest) operations

/-- One turn of the cleanup of `maintain`. -/
def turn (isDone : Connection → Bool) (schedule : RetrySchedule Connection) (index : Nat) :
    RetrySchedule Connection :=
  if isDone (schedule.items index).connection then schedule.remove index else schedule

/-- The turns of the cleanup at the positions below `index`, from the last to the first. -/
def walk (isDone : Connection → Bool) (schedule : RetrySchedule Connection) :
    Nat → RetrySchedule Connection
  | 0 => schedule
  | index + 1 => walk isDone (turn isDone schedule index) index

def cleanup (isDone : Connection → Bool) (schedule : RetrySchedule Connection) :
    RetrySchedule Connection :=
  walk isDone schedule schedule.size

/-- The walk comes to the entry of the connection. A removal can move an entry to a position that
the walk has passed: the last entry, which takes the free place, rises over it. -/
def Meets (isDone : Connection → Bool) (connection : Connection)
    (schedule : RetrySchedule Connection) : Nat → Prop
  | 0 => False
  | index + 1 => (schedule.items index).connection = connection ∨
    Meets isDone connection (turn isDone schedule index) index

section Cleanup

variable {isDone : Connection → Bool} {schedule : RetrySchedule Connection} (h : schedule.Sound)
  {index : Nat}
include h

theorem turn_spec (hindex : index < schedule.size) :
    (turn isDone schedule index).Sound ∧ index ≤ (turn isDone schedule index).size ∧
      ∀ item, item ∈ turn isDone schedule index ↔ item ∈ schedule ∧
        ¬(isDone item.connection = true ∧ (schedule.items index).connection = item.connection) := by
  unfold turn
  split
  next hdone =>
    obtain ⟨hsound, hsize, hmem⟩ := remove_spec less_weakOrder h hindex
    refine ⟨hsound, by rw [remove, hsize]; omega, fun item => (hmem item).trans ?_⟩
    refine and_congr_right fun _ => not_congr ⟨fun hsame => ?_, fun hmet => hmet.2.symm⟩
    exact ⟨hsame ▸ hdone, hsame.symm⟩
  next hlive =>
    refine ⟨h, hindex.le, fun item => (and_iff_left ?_).symm⟩
    rintro ⟨hdone, hsame⟩
    exact hlive (hsame ▸ hdone)

theorem walk_spec (hindex : index ≤ schedule.size) :
    (walk isDone schedule index).Sound ∧
      ∀ item, item ∈ walk isDone schedule index ↔ item ∈ schedule ∧
        ¬(isDone item.connection = true ∧ Meets isDone item.connection schedule index) := by
  induction index generalizing schedule with
  | zero => exact ⟨h, fun item => (and_iff_left fun hmet => hmet.2).symm⟩
  | succ index ih =>
    obtain ⟨hsound, hsize, hturn⟩ := turn_spec h hindex
    obtain ⟨hwalk, hrest⟩ := ih hsound hsize
    refine ⟨hwalk, fun item => (hrest item).trans ?_⟩
    rw [hturn, and_assoc, ← not_or, ← and_or_left]
    rfl

end Cleanup

end RetrySchedule

theorem schedules_after (sendRest : Nat → ScheduledSend Request)
    (sends : List (SendOperation Request)) (retryRest : Nat → ScheduledRetry Connection)
    (retries : List (RetryOperation Connection)) :
    let send := SendSchedule.after sendRest sends
    let retry := RetrySchedule.after retryRest retries
    send.heap.Ordered SendSchedule.less ∧
      (∀ popped ∈ send.pop, ∀ item ∈ send.heap, SendSchedule.less item popped.1 = false ∧
        (send.serial < 2 ^ 64 → item.due = popped.1.due → popped.1.serial ≤ item.serial)) ∧
      retry.Ordered RetrySchedule.less ∧ retry.Indexed ScheduledRetry.connection ∧
      ∀ popped ∈ retry.pop, ∀ item ∈ retry, RetrySchedule.less item popped.1 = false := by
  intro send retry
  have hsend : send.Sound := SendSchedule.after_sound sendRest sends
  have hretry : retry.Sound := RetrySchedule.after_sound retryRest retries
  refine ⟨hsend.heap.ordered, ?_, hretry.ordered, hretry.indexed, ?_⟩
  · intro popped hpopped item hitem
    rw [(hsend.pop hpopped).1]
    exact ⟨hsend.heap.ordered.first SendSchedule.less_weakOrder hitem, hsend.first hitem⟩
  · intro popped hpopped item hitem
    rw [RetrySchedule.pop] at hpopped
    split at hpopped
    · cases hpopped
    · cases hpopped
      exact hretry.ordered.first RetrySchedule.less_weakOrder hitem

theorem schedules_after_pair :
    let send := SendSchedule.after (fun _ => ⟨0, 0, 0⟩) [.push 1 5, .push 2 5]
    send.pop.map (·.1.request) = some 1 ∧
      ∀ popped ∈ send.pop, ∀ item ∈ send.heap, item.due = popped.1.due →
        popped.1.serial ≤ item.serial := by
  refine ⟨by decide +kernel, fun popped hpopped item hitem => ?_⟩
  have hafter := schedules_after (fun _ => ⟨0, 0, 0⟩) [.push 1 5, .push 2 5]
    (fun _ => (⟨0, 0⟩ : ScheduledRetry Nat)) []
  exact (hafter.2.1 popped hpopped item hitem).2 (by decide +kernel)

end Ivnp.Streaming
