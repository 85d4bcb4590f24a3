import Ivnp.Tunnel.CircuitRegistry

/-!
The references of an installation are counted right in every interleaving, and its keys
and its endpoint are cleared once, when the last reference is gone.
-/

namespace Ivnp.Tunnel

open Ivnp.Lib List Option Function AList CircuitRun

/-- The number of references that are held to a generation of `circuit`: one by the
registry if a table has it, and one by each call and each replacement on its way. -/
def holders (tables : Direction → Table UInt32 Nat) (users retiring : List Nat) (generation : Nat)
    (circuit : Circuit) : Nat :=
  (if (tables circuit.direction).lookup circuit.id = some generation then 1 else 0) +
    users.count generation + retiring.count generation

/-- The counts are right, but for one reference of `owed` that has been given up. The
tables name installations of theirs, and never the same ID. -/
structure Counted (owed : Option Nat) (runtime : Runtime) (users retiring : List Nat) : Prop where
  refs : ∀ generation installed, runtime.heap[generation]? = some installed →
    installed.refs = ((holders runtime.tables users retiring generation installed.circuit +
      if owed = some generation then 1 else 0 : Nat) : Int)
  table : ∀ direction id generation, (runtime.tables direction).lookup id = some generation →
    ∃ installed, runtime.heap[generation]? = some installed ∧
      installed.circuit.direction = direction ∧ installed.circuit.id = id
  exclusive : ∀ direction id generation, (runtime.tables direction).lookup id = some generation →
    (runtime.tables direction.other).lookup id = none
  users_lt : ∀ generation ∈ users, generation < runtime.heap.length
  retiring_lt : ∀ generation ∈ retiring, generation < runtime.heap.length

def endpointOf (heap : List Installation) (generation : Nat) : Option EndpointRef :=
  heap[generation]?.bind (·.circuit.endpoint)

/-- The generations in `cleared` are those without a reference and without their keys, and
`ended` are their endpoints, which no two generations share. -/
structure Cleared (heap : List Installation) (endpoints : List EndpointRef) (cleared : List Nat)
    (ended : List EndpointRef) : Prop where
  refs : ∀ generation installed, heap[generation]? = some installed →
    (generation ∈ cleared ↔ installed.refs = 0)
  content : ∀ generation installed, heap[generation]? = some installed →
    (installed.transforms, installed.endpoint) =
      if generation ∈ cleared then ([], none)
      else (installed.circuit.transforms, installed.circuit.endpoint)
  lt : ∀ generation ∈ cleared, generation < heap.length
  nodup : cleared.Nodup
  marked : ∀ generation endpoint, endpointOf heap generation = some endpoint → endpoint ∈ endpoints
  distinct : ∀ left right endpoint, endpointOf heap left = some endpoint →
    endpointOf heap right = some endpoint → left = right
  ended : ended = cleared.filterMap (endpointOf heap)

section Heap

variable {heap : List Installation} {generation : Nat} {installed changed : Installation}

variable {other : Nat} {found : Installation}

theorem getElem?_set_cases (h : heap[generation]? = some installed) (hfound : (heap.set generation changed)[other]? = some found) :
    (other = generation ∧ found = changed) ∨ (other ≠ generation ∧ heap[other]? = some found) := by
  by_cases hother : other = generation
  · subst hother
    rw [List.getElem?_set_self (List.getElem?_eq_some_iff.mp h).1] at hfound
    exact Or.inl ⟨rfl, (some.inj hfound).symm⟩
  · rw [getElem?_set_ne (Ne.symm hother)] at hfound
    exact Or.inr ⟨hother, hfound⟩

theorem endpointOf_set (h : heap[generation]? = some installed)
    (hcircuit : changed.circuit = installed.circuit) :
    endpointOf (heap.set generation changed) = endpointOf heap := by
  funext other
  unfold endpointOf
  by_cases hother : other = generation
  · subst hother
    rw [List.getElem?_set_self (List.getElem?_eq_some_iff.mp h).1, h]
    exact congrArg Circuit.endpoint hcircuit
  · rw [getElem?_set_ne (Ne.symm hother)]

theorem exists_set {direction : Direction} {id : UInt32}
    (h : heap[generation]? = some installed) (hcircuit : changed.circuit = installed.circuit)
    (hother : ∃ found, heap[other]? = some found ∧ found.circuit.direction = direction ∧
      found.circuit.id = id) :
    ∃ found, (heap.set generation changed)[other]? = some found ∧
      found.circuit.direction = direction ∧ found.circuit.id = id := by
  obtain ⟨found, hfound, hdirection, hid⟩ := hother
  by_cases hsame : other = generation
  · subst hsame
    rw [h] at hfound
    cases hfound
    refine ⟨changed, List.getElem?_set_self (List.getElem?_eq_some_iff.mp h).1, ?_, ?_⟩
    · rw [hcircuit]
      exact hdirection
    · rw [hcircuit]
      exact hid
  · exact ⟨found, by rw [getElem?_set_ne (Ne.symm hsame)]; exact hfound, hdirection, hid⟩

theorem getElem?_concat_cases (hfound : (heap ++ [installed])[other]? = some found) :
    (other = heap.length ∧ found = installed) ∨ heap[other]? = some found := by
  rcases Nat.lt_or_ge other heap.length with hlt | hge
  · rw [getElem?_append_left hlt] at hfound
    exact Or.inr hfound
  · rw [getElem?_append_right hge] at hfound
    cases hindex : other - heap.length with
    | zero =>
      rw [hindex] at hfound
      exact Or.inl ⟨by omega, (some.inj hfound).symm⟩
    | succ index =>
      rw [hindex] at hfound
      cases hfound

theorem endpointOf_concat (heap : List Installation) (installed : Installation) (other : Nat) :
    endpointOf (heap ++ [installed]) other =
      if other = heap.length then installed.circuit.endpoint else endpointOf heap other := by
  unfold endpointOf
  split
  next hlength =>
    rw [hlength, getElem?_concat_length]
    rfl
  next hlength =>
  rcases Nat.lt_or_ge other heap.length with hlt | hge
  · rw [getElem?_append_left hlt]
  · rw [getElem?_eq_none (by rw [length_append]; simp only [length_singleton]; omega),
      getElem?_eq_none hge]

end Heap

variable {circuit : Circuit} {other : Direction} {previous : CircuitToken} {key : UInt32}
  {kept : Nat}

section Counts

variable {owed owed' : Option Nat} {runtime : Runtime} {users users' retiring : List Nat}
  {generation : Nat} {installed changed : Installation}

theorem holders_congr {tables tables' : Direction → Table UInt32 Nat} {users users' : List Nat}
    {retiring retiring' : List Nat} {generation : Nat}
    (htable : (tables' circuit.direction).lookup circuit.id = some generation ↔
      (tables circuit.direction).lookup circuit.id = some generation)
    (husers : users'.count generation = users.count generation)
    (hretiring : retiring'.count generation = retiring.count generation) :
    holders tables' users' retiring' generation circuit =
      holders tables users retiring generation circuit := by
  rw [holders, holders, if_congr htable rfl rfl, husers, hretiring]

/-- A change of one count, together with the calls or with what is owed. -/
theorem Counted.set (h : Counted owed runtime users retiring)
    (hfound : runtime.heap[generation]? = some installed)
    (hcircuit : changed.circuit = installed.circuit)
    (hlt : ∀ other ∈ users', other < runtime.heap.length)
    (hself : changed.refs = ((holders runtime.tables users' retiring generation installed.circuit +
      if owed' = some generation then 1 else 0 : Nat) : Int))
    (hothers : ∀ other, other ≠ generation → users'.count other = users.count other ∧
      (owed' = some other ↔ owed = some other)) :
    Counted owed' { runtime with heap := runtime.heap.set generation changed } users' retiring where
  refs := by
    intro other found hother
    rcases getElem?_set_cases hfound hother with ⟨rfl, rfl⟩ | ⟨hne, hother⟩
    · rw [hcircuit]
      exact hself
    · obtain ⟨husers, howed⟩ := hothers _ hne
      rw [h.refs _ _ hother, if_congr howed rfl rfl]
      have hholders : holders runtime.tables users' retiring other found.circuit =
          holders runtime.tables users retiring other found.circuit :=
        holders_congr Iff.rfl husers rfl
      rw [hholders]
  table := fun direction id other hlookup => exists_set hfound hcircuit (h.table _ id _ hlookup)
  exclusive := h.exclusive
  users_lt := fun other hother => (hlt _ hother).trans_eq length_set.symm
  retiring_lt := fun other hother => (h.retiring_lt _ hother).trans_eq length_set.symm

end Counts

section Contents

variable {heap : List Installation} {endpoints ended : List EndpointRef} {cleared : List Nat}
  {generation : Nat} {installed : Installation}

variable (h : Cleared heap endpoints cleared ended) (hfound : heap[generation]? = some installed)
include h hfound

theorem Cleared.not_mem (hrefs : installed.refs ≠ 0) : generation ∉ cleared := by
  rw [h.refs _ _ hfound]
  exact hrefs

theorem Cleared.set_refs (hlive : installed.refs ≠ 0) {refs : Int} (hrefs : refs ≠ 0) :
    Cleared (heap.set generation { installed with refs }) endpoints cleared ended := by
  have hmem := h.not_mem hfound hlive
  have hset : endpointOf (heap.set generation { installed with refs }) = endpointOf heap :=
    endpointOf_set hfound rfl
  exact {
    refs := by
      intro other found hother
      rcases getElem?_set_cases hfound hother with ⟨rfl, rfl⟩ | ⟨-, hother⟩
      · exact iff_of_false hmem hrefs
      · exact h.refs _ _ hother
    content := by
      intro other found hother
      rcases getElem?_set_cases hfound hother with ⟨rfl, rfl⟩ | ⟨-, hother⟩
      · exact h.content _ installed hfound
      · exact h.content _ _ hother
    lt := fun other hother => (h.lt _ hother).trans_eq length_set.symm
    nodup := h.nodup
    marked := hset ▸ h.marked
    distinct := hset ▸ h.distinct
    ended := hset ▸ h.ended }

theorem Cleared.clear (hlive : installed.refs ≠ 0) :
    Cleared (heap.set generation { installed with refs := 0, transforms := [], endpoint := none })
      endpoints (cleared ++ [generation]) (ended ++ installed.endpoint.toList) := by
  have hmem := h.not_mem hfound hlive
  have hset : endpointOf (heap.set generation
      { installed with refs := 0, transforms := [], endpoint := none }) = endpointOf heap :=
    endpointOf_set hfound rfl
  have happend (other : Nat) : other ∈ cleared ++ [generation] ↔
      other ∈ cleared ∨ other = generation := by simp
  exact {
    refs := by
      intro other found hother
      rw [happend]
      rcases getElem?_set_cases hfound hother with ⟨rfl, rfl⟩ | ⟨hne, hother⟩
      · exact iff_of_true (Or.inr rfl) rfl
      · rw [or_iff_left hne]
        exact h.refs _ _ hother
    content := by
      intro other found hother
      rcases getElem?_set_cases hfound hother with ⟨rfl, rfl⟩ | ⟨hne, hother⟩
      · exact (if_pos ((happend _).mpr (Or.inr rfl))).symm
      · rw [h.content _ _ hother]
        exact if_congr ((happend _).trans (or_iff_left hne)).symm rfl rfl
    lt := by
      intro other hother
      rw [length_set]
      rcases (happend other).mp hother with hother | rfl
      · exact h.lt _ hother
      · exact (List.getElem?_eq_some_iff.mp hfound).1
    nodup := by
      apply h.nodup.append (nodup_singleton _)
      intro other hother hsame
      exact hmem (mem_singleton.mp hsame ▸ hother)
    marked := hset ▸ h.marked
    distinct := hset ▸ h.distinct
    ended := by
      have hcontent := h.content _ _ hfound
      rw [if_neg hmem] at hcontent
      have hendpoint : endpointOf heap generation = installed.endpoint := by
        rw [endpointOf, hfound]
        exact (congrArg Prod.snd hcontent).symm
      rw [hset, filterMap_append, ← h.ended, filterMap_cons, hendpoint]
      cases installed.endpoint <;> rfl }

omit h hfound

theorem Cleared.concat (h : Cleared heap endpoints cleared ended) (circuit : Circuit)
    (hendpoint : ∀ endpoint, circuit.endpoint = some endpoint → endpoint ∉ endpoints) :
    Cleared (heap ++ [⟨circuit, circuit.transforms, circuit.endpoint, 1⟩])
      (circuit.endpoint.toList ++ endpoints) cleared ended := by
  have hnew : heap.length ∉ cleared := fun hmem => Nat.lt_irrefl _ (h.lt _ hmem)
  have hold {other : Nat} (hother : other ≠ heap.length) {endpoint : EndpointRef}
      (hof : endpointOf (heap ++ [⟨circuit, circuit.transforms, circuit.endpoint, 1⟩]) other =
        some endpoint) : endpointOf heap other = some endpoint := by
    rw [endpointOf_concat, if_neg hother] at hof
    exact hof
  have hself {endpoint : EndpointRef}
      (hof : endpointOf (heap ++ [⟨circuit, circuit.transforms, circuit.endpoint, 1⟩]) heap.length =
        some endpoint) : circuit.endpoint = some endpoint := by
    rw [endpointOf_concat, if_pos rfl] at hof
    exact hof
  exact {
    refs := by
      intro other found hother
      rcases getElem?_concat_cases hother with ⟨rfl, rfl⟩ | hother
      · exact iff_of_false hnew one_ne_zero
      · exact h.refs _ _ hother
    content := by
      intro other found hother
      rcases getElem?_concat_cases hother with ⟨rfl, rfl⟩ | hother
      · exact (if_neg hnew).symm
      · exact h.content _ _ hother
    lt := by
      intro other hother
      rw [length_append]
      exact Nat.lt_add_right _ (h.lt _ hother)
    nodup := h.nodup
    marked := by
      intro other endpoint hof
      rw [mem_append]
      by_cases hother : other = heap.length
      · subst hother
        rw [hself hof]
        exact Or.inl (mem_singleton.mpr rfl)
      · exact Or.inr (h.marked _ _ (hold hother hof))
    distinct := by
      intro left right endpoint hleft hright
      by_cases hl : left = heap.length
      · by_cases hr : right = heap.length
        · rw [hl, hr]
        · subst hl
          exact absurd (h.marked _ _ (hold hr hright)) (hendpoint _ (hself hleft))
      · by_cases hr : right = heap.length
        · subst hr
          exact absurd (h.marked _ _ (hold hl hleft)) (hendpoint _ (hself hright))
        · exact h.distinct _ _ _ (hold hl hleft) (hold hr hright)
    ended := by
      rw [h.ended]
      apply filterMap_congr
      intro other hother
      rw [endpointOf_concat, if_neg (Nat.ne_of_lt (h.lt _ hother))] }

end Contents

section Threads

variable {runtime : Runtime} {users retiring : List Nat} {generation : Nat}

theorem count_erase_add {entries : List Nat} (h : generation ∈ entries) (other : Nat) :
    (entries.erase generation).count other + (if some generation = some other then 1 else 0) =
      entries.count other := by
  by_cases hsame : other = generation
  · subst hsame
    have hpos := count_pos_iff.mpr h
    rw [if_pos rfl, count_erase_self]
    omega
  · rw [if_neg (fun heq => hsame (some.inj heq).symm), count_erase_of_ne hsame, add_zero]

variable (h : Counted none runtime users retiring)
include h

/-- A reference that is given up, and owed from then on. -/
theorem Counted.owe_refs
    {tables : Direction → Table UInt32 Nat} {users' retiring' : List Nat}
    (hholders : ∀ other found, runtime.heap[other]? = some found →
      holders tables users' retiring' other found.circuit +
          (if some generation = some other then 1 else 0) =
        holders runtime.tables users retiring other found.circuit)
    (other : Nat) (found : Installation) (hother : runtime.heap[other]? = some found) :
    found.refs = ((holders tables users' retiring' other found.circuit +
      if some generation = some other then 1 else 0 : Nat) : Int) := by
  have hrefs := h.refs _ _ hother
  rwa [← hholders _ _ hother] at hrefs

theorem Counted.owe_user (hmem : generation ∈ users) :
    Counted (some generation) runtime (users.erase generation) retiring :=
  { h with
    refs := h.owe_refs fun other found _ => by
      have hcount := count_erase_add hmem other
      rw [holders, holders]
      omega
    users_lt := fun other hother => h.users_lt _ (mem_of_mem_erase hother) }

theorem Counted.owe_retiring (hmem : generation ∈ retiring) :
    Counted (some generation) runtime users (retiring.erase generation) :=
  { h with
    refs := h.owe_refs fun other found _ => by
      have hcount := count_erase_add hmem other
      rw [holders, holders]
      omega
    retiring_lt := fun other hother => h.retiring_lt _ (mem_of_mem_erase hother) }

omit h

theorem Direction.other_other (direction : Direction) : direction.other.other = direction := by
  cases direction <;> rfl

section Tables

variable {tables : Direction → Table UInt32 Nat} {direction : Direction} {id : UInt32}

theorem lookup_update_of_ne {table : Table UInt32 Nat}
    (hsame : ∀ key, key ≠ id → table.lookup key = (tables direction).lookup key)
    (hne : ¬(other = direction ∧ key = id)) :
    (Function.update tables direction table other).lookup key = (tables other).lookup key := by
  by_cases hdirection : other = direction
  · subst hdirection
    rw [update_self]
    exact hsame _ fun hkey => hne ⟨rfl, hkey⟩
  · rw [update_of_ne hdirection]

theorem lookup_update_erase {found : Nat}
    (h : (Function.update tables direction ((tables direction).erase id) other).lookup key =
      some found) :
    ¬(other = direction ∧ key = id) ∧ (tables other).lookup key = some found := by
  by_cases hkey : other = direction ∧ key = id
  · obtain ⟨rfl, rfl⟩ := hkey
    rw [update_self, lookup_erase] at h
    cases h
  · refine ⟨hkey, ?_⟩
    rw [lookup_update_of_ne (fun key hne => lookup_erase_ne hne) hkey] at h
    exact h

end Tables

theorem Counted.owe_table (h : Counted none runtime users retiring) {direction : Direction}
    {id : UInt32} (hlookup : (runtime.tables direction).lookup id = some generation) :
    Counted (some generation)
      (runtime.setTable direction ((runtime.tables direction).erase id)) users retiring where
  refs := by
    refine h.owe_refs fun other found hother => ?_
    change holders (update runtime.tables direction _) _ _ _ _ + _ = _
    by_cases hsame : other = generation
    · subst hsame
      obtain ⟨installed, hinstalled, rfl, rfl⟩ := h.table _ id _ hlookup
      cases hinstalled.symm.trans hother
      rw [if_pos rfl, holders, holders, if_pos hlookup, update_self, lookup_erase, if_neg nofun]
      omega
    · rw [if_neg (fun heq => hsame (some.inj heq).symm)]
      apply holders_congr _ rfl rfl
      constructor
      · exact fun hfound => (lookup_update_erase hfound).2
      · intro hfound
        have hkey : ¬(found.circuit.direction = direction ∧ found.circuit.id = id) := by
          rintro ⟨rfl, rfl⟩
          exact hsame (some.inj (hfound.symm.trans hlookup))
        rw [lookup_update_of_ne (fun key hne => lookup_erase_ne hne) hkey]
        exact hfound
  table := fun other key found hfound => h.table _ _ _ (lookup_update_erase hfound).2
  exclusive := by
    intro other key found hfound
    have hnone := h.exclusive _ _ _ (lookup_update_erase hfound).2
    by_contra hsome
    obtain ⟨generation, hgeneration⟩ := ne_none_iff_exists'.mp hsome
    rw [(lookup_update_erase hgeneration).2] at hnone
    cases hnone
  users_lt := h.users_lt
  retiring_lt := h.retiring_lt

def Runtime.placed (runtime : Runtime) (circuit : Circuit) : Runtime where
  tables := Function.update runtime.tables circuit.direction
    ((runtime.tables circuit.direction).insert circuit.id runtime.heap.length)
  heap := runtime.heap ++ [⟨circuit, circuit.transforms, circuit.endpoint, 1⟩]
  endpoints := circuit.endpoint.toList ++ runtime.endpoints

theorem Runtime.lookup_placed (runtime : Runtime) (circuit : Circuit) :
    ((runtime.placed circuit).tables circuit.direction).lookup circuit.id =
      some runtime.heap.length := by
  simp only [placed, update_self, lookup_insert]

theorem Counted.place (h : Counted none runtime users retiring) (circuit : Circuit)
    (hother : (runtime.tables circuit.direction.other).lookup circuit.id = none) :
    Counted none (runtime.placed circuit) users
      (((runtime.tables circuit.direction).lookup circuit.id).toList ++ retiring) := by
  have hnew (entries : List Nat) (hlt : ∀ other ∈ entries, other < runtime.heap.length) :
      entries.count runtime.heap.length = 0 :=
    count_eq_zero.mpr fun hmem => Nat.lt_irrefl _ (hlt _ hmem)
  have hlt {direction : Direction} {id : UInt32} {found : Nat}
      (hfound : (runtime.tables direction).lookup id = some found) : found < runtime.heap.length := by
    obtain ⟨installed, hinstalled, -⟩ := h.table _ id _ hfound
    exact (List.getElem?_eq_some_iff.mp hinstalled).1
  have hold : ∀ other ∈ ((runtime.tables circuit.direction).lookup circuit.id).toList,
      other < runtime.heap.length := fun other hmem => hlt (mem_toList.mp hmem)
  have hself := runtime.lookup_placed circuit
  have hsame {other : Direction} {key : UInt32}
      (hne : ¬(other = circuit.direction ∧ key = circuit.id)) :
      ((runtime.placed circuit).tables other).lookup key = (runtime.tables other).lookup key :=
    lookup_update_of_ne (fun key hne => lookup_insert_ne hne) hne
  refine ⟨?_, ?_, ?_, ?_, ?_⟩
  · intro other found hfound
    rw [if_neg nofun]
    rcases getElem?_concat_cases hfound with ⟨rfl, rfl⟩ | hfound
    · rw [holders, if_pos hself, hnew _ h.users_lt, count_append, hnew _ hold,
        hnew _ h.retiring_lt]
      rfl
    · have hrefs := h.refs _ _ hfound
      have hne := Nat.ne_of_lt (List.getElem?_eq_some_iff.mp hfound).1
      rw [if_neg nofun] at hrefs
      rw [hrefs]
      rw [holders, holders, count_append]
      by_cases hkey : found.circuit.direction = circuit.direction ∧ found.circuit.id = circuit.id
      · -- the displaced installation, or one that had no entry
        obtain ⟨hdirection, hid⟩ := hkey
        rw [hdirection, hid, hself, if_neg (fun heq => hne (some.inj heq).symm)]
        cases (runtime.tables circuit.direction).lookup circuit.id with
        | none =>
          rw [if_neg nofun, toList_none, count_nil]
          omega
        | some old =>
          by_cases hdisplaced : old = other
          · subst hdisplaced
            rw [if_pos rfl, toList_some, count_singleton_self]
            omega
          · rw [if_neg (fun heq => hdisplaced (some.inj heq)), toList_some,
              count_singleton, if_neg (by simpa using hdisplaced)]
            omega
      · rw [hsame hkey]
        have hzero : ((runtime.tables circuit.direction).lookup circuit.id).toList.count other = 0 := by
          apply count_eq_zero.mpr
          intro hmem
          obtain ⟨installed, hinstalled, hdirection, hid⟩ := h.table _ _ _ (mem_toList.mp hmem)
          rw [hinstalled] at hfound
          cases hfound
          exact hkey ⟨hdirection, hid⟩
        omega
  · intro direction id found hfound
    by_cases hkey : direction = circuit.direction ∧ id = circuit.id
    · obtain ⟨rfl, rfl⟩ := hkey
      have heq := some.inj (hself.symm.trans hfound)
      subst heq
      exact ⟨_, getElem?_concat_length, rfl, rfl⟩
    · rw [hsame hkey] at hfound
      obtain ⟨installed, hinstalled, hcircuit⟩ := h.table _ id _ hfound
      exact ⟨installed, (getElem?_append_left (hlt hfound)).trans hinstalled, hcircuit⟩
  · intro direction id found hfound
    by_cases hkey : direction = circuit.direction ∧ id = circuit.id
    · obtain ⟨rfl, rfl⟩ := hkey
      rw [hsame (by cases circuit.direction <;> simp [Direction.other])]
      exact hother
    rw [hsame hkey] at hfound
    have hnone := h.exclusive _ id _ hfound
    rw [hsame]
    · exact hnone
    · rintro ⟨hdirection, rfl⟩
      rw [← hdirection, Direction.other_other] at hother
      rw [hother] at hfound
      cases hfound
  · intro other hmem
    rw [Runtime.placed, length_append]
    exact Nat.lt_add_right _ (h.users_lt _ hmem)
  · intro other hmem
    rw [Runtime.placed, length_append]
    rcases mem_append.mp hmem with hmem | hmem
    · exact Nat.lt_add_right _ (hold _ hmem)
    · exact Nat.lt_add_right _ (h.retiring_lt _ hmem)

end Threads

namespace CircuitRun

/-- The invariant of a run, with a reference of `owed` to be released. -/
structure Sound (owed : Option Nat) (run : CircuitRun) : Prop where
  counted : Counted owed run.runtime run.users run.retiring
  cleared : Cleared run.runtime.heap run.runtime.endpoints run.cleared run.ended

theorem sound_initial : Sound none initial where
  counted := ⟨nofun, nofun, nofun, nofun, nofun⟩
  cleared := ⟨nofun, nofun, nofun, nodup_nil, nofun, nofun, rfl⟩

variable {run : CircuitRun} {generation : Nat} {installed : Installation}

theorem Sound.release (h : Sound (some generation) run)
    (hfound : run.runtime.heap[generation]? = some installed) :
    Sound none (run.release generation) := by
  have hrefs := h.counted.refs _ _ hfound
  rw [if_pos rfl] at hrefs
  have hlive : installed.refs ≠ 0 := by omega
  have hothers (other : Nat) (hne : other ≠ generation) :
      run.users.count other = run.users.count other ∧
        ((none : Option Nat) = some other ↔ some generation = some other) :=
    ⟨rfl, iff_of_false nofun fun heq => hne (some.inj heq).symm⟩
  have hself : installed.refs - 1 = ((holders run.runtime.tables run.users run.retiring generation
      installed.circuit + if (none : Option Nat) = some generation then 1 else 0 : Nat) : Int) := by
    rw [if_neg nofun]
    omega
  unfold CircuitRun.release
  rw [hfound]
  dsimp only
  split
  next hmore =>
    exact {
      counted := h.counted.set hfound rfl h.counted.users_lt hself hothers
      cleared := h.cleared.set_refs hfound hlive hmore }
  next hlast =>
    have hzero := not_not.mp hlast
    refine ⟨h.counted.set hfound rfl h.counted.users_lt hself hothers, ?_⟩
    rw [hzero]
    exact h.cleared.clear hfound hlive

variable (h : Sound none run)
include h

theorem Sound.pin (hfound : run.runtime.heap[generation]? = some installed)
    (hlive : installed.refs ≠ 0) : Sound none (run.pin generation installed) := by
  have hrefs := h.counted.refs _ _ hfound
  rw [if_neg nofun] at hrefs
  refine ⟨h.counted.set hfound rfl ?_ ?_ ?_, h.cleared.set_refs hfound hlive (by omega)⟩
  · exact forall_mem_cons.mpr
      ⟨(List.getElem?_eq_some_iff.mp hfound).1, h.counted.users_lt⟩
  · rw [if_neg nofun]
    have hcount : (run.pin generation installed).users.count generation =
        run.users.count generation + 1 := count_cons_self
    change installed.refs + 1 = _
    rw [hrefs, holders, holders]
    omega
  · intro other hne
    exact ⟨count_cons_of_ne (Ne.symm hne), Iff.rfl⟩

theorem Sound.retire (direction : Direction) (id : UInt32) :
    Sound none (run.retire direction id) := by
  unfold CircuitRun.retire
  split
  · exact h
  next found hlookup =>
  obtain ⟨installed, hinstalled, -⟩ := h.counted.table _ id _ hlookup
  exact Sound.release ⟨h.counted.owe_table hlookup, h.cleared⟩ hinstalled

theorem Sound.retireIf (p : Nat → Installation → Bool) (direction : Direction)
    (id : UInt32) : Sound none (retireIf p direction run id) := by
  unfold CircuitRun.retireIf
  split
  · exact h.retire _ id
  · exact h

theorem Sound.retireAll (p : Nat → Installation → Bool)
    (direction : Direction) (shard : UInt32) : Sound none (run.retireAll p direction shard) :=
  run_preserves (fun _ id hrun => hrun.retireIf p _ id) h _

end CircuitRun

/-- The tables of a runtime that an install function returns, and where its circuit found
a place: its ID has no installation but the one of the token, and its endpoint is new. -/
theorem Runtime.install_eq_ok {runtime next : Runtime} {now : UInt64} (h : runtime.install now circuit previous = .ok next) :
    (match previous.generation with
      | some generation => (runtime.tables circuit.direction).lookup circuit.id = some generation
      | none => (runtime.tables circuit.direction).lookup circuit.id = none ∧
          (runtime.tables circuit.direction.other).lookup circuit.id = none) ∧
      (∀ endpoint, circuit.endpoint = some endpoint → endpoint ∉ runtime.endpoints) ∧
      next = runtime.placed circuit := by
  unfold Runtime.install at h
  split at h
  · cases h
  cases hadmits : runtime.admits circuit previous with
  | error error =>
    rw [hadmits] at h
    cases h
  | ok =>
    rw [hadmits] at h
    refine ⟨?_, ?_⟩
    · unfold Runtime.admits at hadmits
      cases hgeneration : previous.generation with
      | some generation =>
        simp only [hgeneration] at hadmits ⊢
        split at hadmits
        · cases hadmits
        next hold => exact not_not.mp hold
      | none =>
        simp only [hgeneration] at hadmits ⊢
        split at hadmits
        · cases hadmits
        next hfree =>
        rw [not_or, not_isSome_iff_eq_none, not_isSome_iff_eq_none] at hfree
        exact hfree
    · unfold Runtime.place at h
      split at h
      · cases h
      next hnew =>
      refine ⟨?_, (Except.ok.inj h).symm⟩
      intro endpoint hendpoint hmem
      rw [hendpoint] at hnew
      exact hnew (by simpa using hmem)

/-- A successful install, through whichever of the four functions. -/
inductive Installs (runtime : Runtime) (circuit : Circuit) (previous : CircuitToken) :
    Except CircuitError Runtime → Prop
  | fails (error : CircuitError) : Installs runtime circuit previous (.error error)
  | succeeds (now : UInt64) (next : Runtime)
      (h : runtime.install now circuit previous = .ok next) :
      Installs runtime circuit previous (.ok next)

section Installs

variable (runtime : Runtime) (now : UInt64)

theorem Runtime.installs_install (circuit : Circuit) (previous : CircuitToken) :
    Installs runtime circuit previous (runtime.install now circuit previous) := by
  cases h : runtime.install now circuit previous with
  | error error => exact .fails error
  | ok next => exact .succeeds now next h

theorem Runtime.installs_installOutbound (circuit : OutboundCircuit) (previous : CircuitToken) :
    Installs runtime (.outbound circuit) previous (runtime.installOutbound now circuit previous) := by
  unfold Runtime.installOutbound
  split
  · exact .fails _
  · exact runtime.installs_install _ _ _

theorem Runtime.installs_installInbound (circuit : InboundCircuit) (previous : CircuitToken) :
    Installs runtime (.inbound circuit) previous (runtime.installInbound now circuit previous) := by
  unfold Runtime.installInbound
  split
  · exact .fails _
  split
  · exact .fails _
  split
  · exact .fails _
  · exact runtime.installs_install _ _ _

theorem Runtime.installs_replaceOutbound (token : CircuitToken) (circuit : OutboundCircuit) :
    Installs runtime (.outbound circuit) token (runtime.replaceOutbound now token circuit) := by
  unfold Runtime.replaceOutbound
  split
  · exact .fails _
  · exact runtime.installs_installOutbound _ _ _

theorem Runtime.installs_replaceInbound (token : CircuitToken) (circuit : InboundCircuit) :
    Installs runtime (.inbound circuit) token (runtime.replaceInbound now token circuit) := by
  unfold Runtime.replaceInbound
  split
  · exact .fails _
  · exact runtime.installs_installInbound _ _ _

end Installs

namespace CircuitRun

variable {run : CircuitRun}

variable {outcome : Except CircuitError Runtime} {wanted : Option Nat}

theorem admitted_eq_some {now : UInt64} {direction : Direction} {id : UInt32}
    {generation : Nat} {installed : Installation}
    (hadmitted : run.admitted now direction id wanted = some (generation, installed)) :
    (run.runtime.tables direction).lookup id = some generation ∧
      run.runtime.heap[generation]? = some installed := by
  obtain ⟨found, hlookup, hfound⟩ := bind_eq_some_iff.mp hadmitted
  rw [ite_none_left_eq_some] at hfound
  obtain ⟨candidate, hcandidate, hlive⟩ := bind_eq_some_iff.mp hfound.2
  rw [ite_none_left_eq_some] at hlive
  cases hlive.2
  exact ⟨hlookup, hcandidate⟩

theorem Sound.pin_admitted (h : Sound none run) {now : UInt64} {direction : Direction}
    {id : UInt32} {generation : Nat} {installed : Installation}
    (hadmitted : run.admitted now direction id wanted = some (generation, installed)) :
    Sound none (run.pin generation installed) := by
  obtain ⟨hlookup, hcandidate⟩ := admitted_eq_some hadmitted
  obtain ⟨registered, hregistered, rfl, rfl⟩ := h.counted.table _ id _ hlookup
  cases hregistered.symm.trans hcandidate
  apply h.pin hcandidate
  have hrefs := h.counted.refs _ _ hcandidate
  rw [holders, if_pos hlookup] at hrefs
  omega

theorem Sound.installs (h : Sound none run) (houtcome : Installs run.runtime circuit previous outcome) :
    Sound none (run.installs circuit.direction circuit.id outcome) := by
  cases houtcome with
  | fails error => exact h
  | succeeds now next hinstall =>
    obtain ⟨hplace, hendpoint, rfl⟩ := Runtime.install_eq_ok hinstall
    have hother : (run.runtime.tables circuit.direction.other).lookup circuit.id = none := by
      cases hgeneration : previous.generation with
      | some generation =>
        rw [hgeneration] at hplace
        exact h.counted.exclusive _ _ _ hplace
      | none =>
        rw [hgeneration] at hplace
        exact hplace.2
    exact ⟨h.counted.place _ hother, h.cleared.concat _ hendpoint⟩

theorem Sound.step (h : Sound none run) (action : CircuitAction) : Sound none (run.step action) := by
  cases action with
  | registerOutbound now circuit => exact h.installs (run.runtime.installs_installOutbound _ _ _)
  | registerInbound now circuit => exact h.installs (run.runtime.installs_installInbound _ _ _)
  | replaceOutbound now token circuit =>
    exact h.installs (run.runtime.installs_replaceOutbound _ _ _)
  | replaceInbound now token circuit => exact h.installs (run.runtime.installs_replaceInbound _ _ _)
  | releaseReplaced generation =>
    dsimp only [CircuitRun.step]
    split
    next hmem =>
      have hlt := h.counted.retiring_lt _ hmem
      exact Sound.release ⟨h.counted.owe_retiring hmem, h.cleared⟩ (getElem?_eq_getElem hlt)
    · exact h
  | removeCircuit token =>
    dsimp only [CircuitRun.step]
    split
    · exact h
    split
    · exact h
    · exact (h.retireIf _ .inbound token.id).retireIf _ .outbound token.id
  | removeOwner owner shard =>
    dsimp only [CircuitRun.step]
    split
    · exact h
    · exact (h.retireAll _ .inbound _).retireAll _ .outbound shard
  | expire nowMillis shard => exact (h.retireAll _ .inbound _).retireAll _ .outbound shard
  | sendBlock _ _ _ | handleContext _ _ =>
    dsimp only [CircuitRun.step]
    split
    · exact h
    next found installed hadmitted => exact h.pin_admitted hadmitted
  | finish generation =>
    dsimp only [CircuitRun.step]
    split
    next hmem =>
      have hlt := h.counted.users_lt _ hmem
      exact Sound.release ⟨h.counted.owe_user hmem, h.cleared⟩ (getElem?_eq_getElem hlt)
    · exact h

theorem lookup_release (run : CircuitRun) (generation : Nat) (direction : Direction)
    (id : UInt32) : ((run.release generation).runtime.tables direction).lookup id =
      (run.runtime.tables direction).lookup id := by
  unfold release
  split
  · rfl
  · dsimp only
    split <;> rfl

theorem lookup_retireIf {generation : Nat} {direction : Direction} {id : UInt32}
    (hkept : kept ≠ generation) (hlookup : (run.runtime.tables other).lookup key = some kept) :
    ((retireIf (fun found _ => found = generation) direction run id).runtime.tables
      other).lookup key = some kept := by
  unfold retireIf
  split
  next hfound =>
    unfold retire
    split
    · exact hlookup
    next generation hentry =>
    rw [lookup_release]
    refine (lookup_update_of_ne (fun key hne => lookup_erase_ne hne) ?_).trans hlookup
    rintro ⟨rfl, rfl⟩
    rw [found, hlookup, Option.any_some, Option.any_eq_true] at hfound
    obtain ⟨installed, -, hsame⟩ := hfound
    exact hkept (of_decide_eq_true hsame)
  · exact hlookup

theorem lookup_installs {token : CircuitToken} (houtcome : Installs run.runtime circuit token outcome)
    (htoken : token.generation ≠ none) (hkept : some kept ≠ token.generation)
    {direction : Direction} {id : UInt32}
    (hlookup : (run.runtime.tables direction).lookup id = some kept) :
    ((run.installs circuit.direction circuit.id outcome).runtime.tables direction).lookup id =
      some kept := by
  cases houtcome with
  | fails error => exact hlookup
  | succeeds now next hinstall =>
    obtain ⟨hplace, -, rfl⟩ := Runtime.install_eq_ok hinstall
    refine (lookup_update_of_ne (fun key hne => lookup_insert_ne hne) ?_).trans hlookup
    rintro ⟨rfl, rfl⟩
    cases hgeneration : token.generation with
    | none => exact htoken hgeneration
    | some generation =>
      rw [hgeneration] at hplace hkept
      exact hkept (hlookup.symm.trans hplace)

end CircuitRun

def CircuitAction.token : CircuitAction → Option CircuitToken
  | replaceOutbound _ token _ | replaceInbound _ token _ | removeCircuit token => some token
  | _ => none

theorem CircuitRun.lookup_step_of_token {run : CircuitRun} {action : CircuitAction}
    {token : CircuitToken} (htoken : action.token = some token) {direction : Direction} {id : UInt32} (hlookup : (run.runtime.tables direction).lookup id = some kept)
    (hkept : some kept ≠ token.generation) :
    ((run.step action).runtime.tables direction).lookup id = some kept := by
  cases action with
  | replaceOutbound now other circuit =>
    cases htoken
    by_cases hgeneration : token.generation = none
    · rw [step, Runtime.replaceOutbound, if_pos (Or.inr hgeneration)]
      exact hlookup
    · exact lookup_installs (run.runtime.installs_replaceOutbound _ _ _)
        hgeneration hkept hlookup
  | replaceInbound now other circuit =>
    cases htoken
    by_cases hgeneration : token.generation = none
    · rw [step, Runtime.replaceInbound, if_pos (Or.inr hgeneration)]
      exact hlookup
    · exact lookup_installs (run.runtime.installs_replaceInbound _ _ _)
        hgeneration hkept hlookup
  | removeCircuit other =>
    cases htoken
    dsimp only [step]
    split
    · exact hlookup
    next generation hgeneration =>
    have hne : kept ≠ generation := fun heq => hkept (heq ▸ hgeneration.symm)
    split
    · exact hlookup
    · exact lookup_retireIf hne (lookup_retireIf hne hlookup)
  | _ => cases htoken

/-- What is promised of the circuits of a runtime, at any moment of a run. -/
structure CircuitRun.Lifetimes (run : CircuitRun) : Prop where
  /-- A count is one if the installation is registered, and one for each call on its way
  and for each replacement that has displaced it and not yet released it. -/
  refs : ∀ (generation : Nat) (installed : Installation),
    run.runtime.heap[generation]? = some installed →
    installed.refs = (((if (run.runtime.tables installed.circuit.direction).lookup
      installed.circuit.id = some generation then 1 else 0) + run.users.count generation +
        run.retiring.count generation : Nat) : Int)
  /-- Keys and endpoint are there until the count is zero, and gone then. -/
  content : ∀ (generation : Nat) (installed : Installation),
    run.runtime.heap[generation]? = some installed →
    (installed.transforms, installed.endpoint) =
      if installed.refs = 0 then ([], none)
      else (installed.circuit.transforms, installed.circuit.endpoint)
  /-- The installations with count zero are those that were cleared, once each. -/
  cleared : ∀ (generation : Nat) (installed : Installation),
    run.runtime.heap[generation]? = some installed →
    (generation ∈ run.cleared ↔ installed.refs = 0)
  cleared_nodup : run.cleared.Nodup
  /-- Their endpoints were ended, once each. -/
  ended : run.ended = run.cleared.filterMap (endpointOf run.runtime.heap)
  ended_nodup : run.ended.Nodup
  exclusive : ∀ id, (run.runtime.tables .inbound).lookup id = none ∨
    (run.runtime.tables .outbound).lookup id = none
  /-- A token moves no entry of a generation that is not its own. -/
  tokens : ∀ action token, action.token = some token → ∀ direction id kept,
    (run.runtime.tables direction).lookup id = some kept → some kept ≠ token.generation →
    ((run.step action).runtime.tables direction).lookup id = some kept

theorem CircuitRun.Sound.lifetimes {run : CircuitRun} (h : run.Sound none) : run.Lifetimes where
  refs := by
    intro generation installed hfound
    have hrefs := h.counted.refs _ _ hfound
    exact hrefs
  content := by
    intro generation installed hfound
    rw [h.cleared.content _ _ hfound]
    exact if_congr (h.cleared.refs _ _ hfound) rfl rfl
  cleared := h.cleared.refs
  cleared_nodup := h.cleared.nodup
  ended := h.cleared.ended
  ended_nodup := by
    rw [h.cleared.ended]
    exact h.cleared.nodup.filterMap fun left right endpoint => h.cleared.distinct _ _ _
  exclusive := by
    intro id
    cases hlookup : (run.runtime.tables .inbound).lookup id with
    | none => exact Or.inl rfl
    | some generation => exact Or.inr (h.counted.exclusive .inbound id _ hlookup)
  tokens := fun _ _ htoken _ _ _ hlookup hkept => lookup_step_of_token htoken hlookup hkept

/-- Over every interleaving the counts are right, an installation is cleared once, when
its count reaches zero, no ID is in both tables, and a token is of no use for any
installation but its own. -/
theorem circuit_lifetimes (actions : List CircuitAction) :
    (CircuitRun.initial.after actions).Lifetimes := by
  apply CircuitRun.Sound.lifetimes
  exact run_preserves (fun _ action h => h.step _) sound_initial _

def replacedOnce : List CircuitAction :=
  let circuit : OutboundCircuit :=
    { id := 1, owner := FixedBytes.zero 32, firstHop := FixedBytes.zero 32, nextTunnelID := 2
      transforms := [], expiresAt := 0 }
  [.registerOutbound 0 circuit, .replaceOutbound 0 ⟨1, some 0⟩ circuit]

/-- The replaced installation has a reference until the replacement goes on, though it is
not registered and no call is on its way. -/
theorem replaced_still_referenced :
    (CircuitRun.initial.after replacedOnce).runtime.heap[0]?.map (·.refs) = some 1 ∧
      ((CircuitRun.initial.after replacedOnce).runtime.tables .outbound).lookup 1 = some 1 ∧
      (CircuitRun.initial.after replacedOnce).users = [] := by
  decide +kernel

end Ivnp.Tunnel
