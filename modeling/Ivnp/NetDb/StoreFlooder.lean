import Ivnp.NetDb.StoreCodec

/-!
The duplicate filter and the throttle of the store flooder (`markNew` of
`store_flooder.go`). Of the stores under one key three are to be flooded in a window
of 90 seconds. The throttle counts them in a byte, so that the 256th store of a window
finds the counter at zero again.
-/

namespace Ivnp.NetDb

open Ivnp.Lib Ivnp.Foundation List AList FixedBytes Table UInt8

def storeFlooderRecentCapacity : Nat := 4096
def storeFlooderRecentLifetime : UInt64 := 600000
def storeFlooderThrottleWindow : UInt64 := 90000
def storeFlooderMaxFloodsPerKey : UInt8 := 3

structure StoreFloodCount where
  untilMillis : UInt64
  count : UInt8
  deriving DecidableEq

structure StoreFlooder where
  recent : Table Hash UInt64
  keyFloods : Table Hash StoreFloodCount

def newStoreFlooder : StoreFlooder := ⟨∅, ∅⟩

section Sweep

variable {V : Type} (deadline : V → UInt64) (now : UInt64)

/-- One turn of the loops over `recent` and `keyFloods`: an entry that has expired is
deleted, and of the others the one that expires first is noted. -/
def sweepEntry (acc : Table Hash V × Hash × UInt64) (key : Hash) : Table Hash V × Hash × UInt64 :=
  match acc.1.lookup key with
  | none => acc
  | some value =>
    if deadline value ≤ now then (acc.1.erase key, acc.2)
    else if deadline value < acc.2.2 then (acc.1, key, deadline value)
    else acc

/-- The loop, with the map visited in the given order: what is left of it, the entry
that expires first and when. -/
def sweep (order : List Hash) (table : Table Hash V) : Table Hash V × Hash × UInt64 :=
  (table.ranged order).foldl (sweepEntry deadline now)
    (table, FixedBytes.zero 32, 0xffffffffffffffff)

end Sweep

/-- A store that the worker takes from its queue, with the time and with the orders in
which the two maps would be visited. -/
structure Presented where
  store : StoreMessage
  now : UInt64
  recentOrder : List Hash
  floodOrder : List Hash

section MarkNew

variable (sha256 : Bytes → Hash)

def fingerprint (store : StoreMessage) : Hash :=
  sha256 (store.key.val ++ [store.content.code] ++ store.data)

/-- A store with the same fingerprint was taken less than ten minutes ago. -/
def StoreFlooder.duplicate (f : StoreFlooder) (input : Presented) : Bool :=
  ((f.recent.lookup (fingerprint sha256 input.store)).getD 0 > input.now)

def roomForRecent (recent : Table Hash UInt64) (input : Presented) : Table Hash UInt64 :=
  if recent.entries.length ≥ storeFlooderRecentCapacity then
    let swept := sweep id input.now input.recentOrder recent
    if swept.1.entries.length ≥ storeFlooderRecentCapacity then swept.1.erase swept.2.1 else swept.1
  else recent

def nextCount (keyFloods : Table Hash StoreFloodCount) (input : Presented) : StoreFloodCount :=
  let count := (keyFloods.lookup input.store.key).getD ⟨0, 0⟩
  let count := if count.untilMillis ≤ input.now then
      ⟨saturatingAdd input.now storeFlooderThrottleWindow, 0⟩ else count
  { count with count := count.count + 1 }

def trimKeyFloods (keyFloods : Table Hash StoreFloodCount) (input : Presented) :
    Table Hash StoreFloodCount :=
  if keyFloods.entries.length > storeFlooderRecentCapacity then
    let swept := sweep StoreFloodCount.untilMillis input.now input.floodOrder keyFloods
    if swept.1.entries.length > storeFlooderRecentCapacity then swept.1.erase swept.2.1 else swept.1
  else keyFloods

def StoreFlooder.markNew (f : StoreFlooder) (input : Presented) : StoreFlooder × Bool :=
  if f.duplicate sha256 input then (f, false)
  else
    let recent := (roomForRecent f.recent input).insert (fingerprint sha256 input.store)
      (saturatingAdd input.now storeFlooderRecentLifetime)
    let count := nextCount f.keyFloods input
    (⟨recent, trimKeyFloods (f.keyFloods.insert input.store.key count) input⟩,
      count.count ≤ storeFlooderMaxFloodsPerKey)

def StoreFlooder.step (f : StoreFlooder) (input : Presented) : StoreFlooder :=
  (f.markNew sha256 input).1

def StoreFlooder.floods (key : Hash) (f : StoreFlooder) (inputs : List Presented) : Nat :=
  tally (step sha256) (fun f input => input.store.key = key ∧ (f.markNew sha256 input).2) f inputs

/-- How many stores under the key pass the duplicate filter in a run. -/
def StoreFlooder.counted (key : Hash) (f : StoreFlooder) (inputs : List Presented) : Nat :=
  tally (step sha256) (fun f input => input.store.key = key ∧ ¬f.duplicate sha256 input) f inputs

end MarkNew

section Sweep

variable {V : Type} (deadline : V → UInt64) (now : UInt64) {table : Table Hash V}

/-- What the loop has done after some of the keys: entries that have not expired are
there, nothing is new, the visited ones that have expired are gone, and the noted entry is
one of the entries, none of the visited ones expiring before it. -/
structure Swept (table : Table Hash V) (visited : List Hash)
    (acc : Table Hash V × Hash × UInt64) : Prop where
  kept : ∀ key value, table.lookup key = some value → now < deadline value →
    acc.1.lookup key = some value
  old : ∀ key value, acc.1.lookup key = some value → table.lookup key = some value
  live : ∀ key ∈ visited, ∀ value, acc.1.lookup key = some value → now < deadline value
  oldest : ∀ key ∈ visited, ∀ value, table.lookup key = some value → now < deadline value →
    acc.2.2 ≤ deadline value
  noted : acc.2.2 = 0xffffffffffffffff ∨
    ∃ value, table.lookup acc.2.1 = some value ∧ deadline value = acc.2.2

variable {deadline now}

variable {acc : Table Hash V × Hash × UInt64} {visited : List Hash}

theorem forall_visited_append {P : Hash → Prop} {key : Hash}
    (h : ∀ other ∈ visited, P other) (hkey : P key) : ∀ other ∈ visited ++ [key], P other := by
  intro other hmem
  rcases mem_append.mp hmem with hother | hother
  · exact h _ hother
  · obtain rfl := mem_singleton.mp hother
    exact hkey

theorem Swept.sweepEntry (h : Swept deadline now table visited acc) (key : Hash) :
    Swept deadline now table (visited ++ [key]) (NetDb.sweepEntry deadline now acc key) := by
  unfold NetDb.sweepEntry
  cases hfound : acc.1.lookup key with
  | none =>
    refine ⟨h.kept, h.old, forall_visited_append h.live ?_, forall_visited_append h.oldest ?_,
      h.noted⟩
    · intro value hlookup
      rw [hfound] at hlookup
      cases hlookup
    · intro value hlookup hlive
      have hkept := h.kept _ _ hlookup hlive
      rw [hfound] at hkept
      cases hkept
  | some found =>
    have htable := h.old _ _ hfound
    dsimp only
    split
    next hdead =>
      have hne : ∀ other value, table.lookup other = some value → now < deadline value →
          other ≠ key := by
        rintro other value hlookup hlive rfl
        rw [htable] at hlookup
        obtain rfl := Option.some.inj hlookup
        exact absurd hdead (UInt64.not_le.mpr hlive)
      refine ⟨?_, ?_, forall_visited_append ?_ ?_, forall_visited_append h.oldest ?_, h.noted⟩
      · intro other value hlookup hlive
        rw [lookup_erase_ne (hne _ _ hlookup hlive)]
        exact h.kept _ _ hlookup hlive
      · intro other value hlookup
        exact h.old _ _ (lookup_of_erase hlookup).2
      · intro other hmem value hlookup
        exact h.live _ hmem _ (lookup_of_erase hlookup).2
      · intro value hlookup
        exact absurd rfl (lookup_of_erase hlookup).1
      · intro value hlookup hlive
        exact absurd rfl (hne _ _ hlookup hlive)
    next hdead =>
      have hlive : ∀ value, acc.1.lookup key = some value → now < deadline value := by
        intro value hlookup
        rw [hfound] at hlookup
        obtain rfl := Option.some.inj hlookup
        exact UInt64.not_le.mp hdead
      have hkey {bound : UInt64} (hbound : bound ≤ deadline found) :
          ∀ value, table.lookup key = some value → now < deadline value →
            bound ≤ deadline value := by
        intro value hlookup _
        rw [htable] at hlookup
        obtain rfl := Option.some.inj hlookup
        exact hbound
      split
      next hless =>
        refine ⟨h.kept, h.old, forall_visited_append h.live hlive,
          forall_visited_append ?_ (hkey UInt64.le_rfl), Or.inr ⟨found, htable, rfl⟩⟩
        intro other hmem value hlookup hother
        exact UInt64.le_trans (UInt64.le_of_lt hless) (h.oldest _ hmem _ hlookup hother)
      next hless =>
        exact ⟨h.kept, h.old, forall_visited_append h.live hlive,
          forall_visited_append h.oldest (hkey (UInt64.not_lt.mp hless)), h.noted⟩

variable (deadline now) in
theorem swept_sweep (order : List Hash) (table : Table Hash V) :
    Swept deadline now table (table.ranged order) (sweep deadline now order table) := by
  have hfold (keys visited : List Hash) (acc : Table Hash V × Hash × UInt64)
      (h : Swept deadline now table visited acc) :
      Swept deadline now table (visited ++ keys) (keys.foldl (sweepEntry deadline now) acc) := by
    induction keys generalizing visited acc with
    | nil => simpa using h
    | cons key rest ih =>
      have hnext := ih (visited ++ [key]) _ (h.sweepEntry key)
      rwa [append_assoc, singleton_append] at hnext
  refine hfold (table.ranged order) [] _ ⟨?_, ?_, ?_, ?_, Or.inl rfl⟩
  · exact fun _ _ h _ => h
  · exact fun _ _ h => h
  · exact fun _ h => absurd h not_mem_nil
  · exact fun _ h => absurd h not_mem_nil

theorem Swept.noted_ne {order : List Hash}
    (h : Swept deadline now table (table.ranged order) acc) {key other : Hash} {value found : V}
    (hkey : table.lookup key = some value) (hother : table.lookup other = some found)
    (hlive : now < deadline found) (hless : deadline found < deadline value) : acc.2.1 ≠ key := by
  have hmem : other ∈ table.ranged order := by
    rw [mem_ranged, ← lookup_isSome, hother]
    rfl
  have hnoted := h.oldest _ hmem _ hother hlive
  rintro rfl
  rcases h.noted with hmax | ⟨same, hsame, hdeadline⟩
  · have := UInt64.toNat_lt (deadline value)
    rw [hmax, UInt64.le_iff_toNat_le] at hnoted
    rw [UInt64.lt_iff_toNat_lt] at hless
    have hall : (0xffffffffffffffff : UInt64).toNat = 2 ^ 64 - 1 := rfl
    omega
  · rw [hkey] at hsame
    obtain rfl := Option.some.inj hsame
    rw [hdeadline] at hless
    exact absurd hnoted (UInt64.not_le.mpr hless)

end Sweep

section Throttle

def windowEnd (start : UInt64) : UInt64 := saturatingAdd start storeFlooderThrottleWindow

theorem toNat_windowEnd (start : UInt64) :
    (windowEnd start).toNat = min (start.toNat + 90000) (2 ^ 64 - 1) := by
  have hstart := start.toNat_lt
  have hall : (0xffffffffffffffff : UInt64).toNat = 2 ^ 64 - 1 := rfl
  have hwindow : storeFlooderThrottleWindow.toNat = 90000 := rfl
  have hsub : (0xffffffffffffffff - start).toNat = 2 ^ 64 - 1 - start.toNat := by
    rw [UInt64.toNat_sub_of_le _ _ (by rw [UInt64.le_iff_toNat_le]; omega), hall]
  unfold windowEnd saturatingAdd
  split
  next hless =>
    rw [UInt64.lt_iff_toNat_lt] at hless
    omega
  next hless =>
  rw [UInt64.lt_iff_toNat_lt] at hless
  rw [UInt64.toNat_add]
  omega

theorem windowEnd_mono {start now : UInt64} (h : start ≤ now) : windowEnd start ≤ windowEnd now := by
  rw [UInt64.le_iff_toNat_le] at h ⊢
  rw [toNat_windowEnd, toNat_windowEnd]
  omega

/-- The counters in a window that opened at `start`, after `counted` stores of the key that
passed the duplicate filter. The keys of counters that run to the end of the window or
longer are known. -/
structure Throttled (keys : List Hash) (key : Hash) (start : UInt64) (counted : Nat)
    (keyFloods : Table Hash StoreFloodCount) : Prop where
  known : ∀ other count, keyFloods.lookup other = some count →
    windowEnd start ≤ count.untilMillis → other ∈ keys
  unopened : counted = 0 → ∀ count, keyFloods.lookup key = some count →
    count.untilMillis ≤ start
  opened : counted ≠ 0 → ∃ count, keyFloods.lookup key = some count ∧
    windowEnd start ≤ count.untilMillis ∧ count.count = UInt8.ofNat counted

variable {keys : List Hash} {key : Hash} {start : UInt64} {counted : Nat}
  {keyFloods : Table Hash StoreFloodCount} {input : Presented}

variable (h : Throttled keys key start counted keyFloods)
include h

theorem Throttled.shrink
    {next : Table Hash StoreFloodCount}
    (hold : ∀ other count, next.lookup other = some count → keyFloods.lookup other = some count)
    (hkey : ∀ count, keyFloods.lookup key = some count → windowEnd start ≤ count.untilMillis →
      next.lookup key = some count) :
    Throttled keys key start counted next := by
  refine ⟨?_, ?_, ?_⟩
  · intro other count hlookup
    exact h.known _ _ (hold _ _ hlookup)
  · intro hzero count hlookup
    exact h.unopened hzero _ (hold _ _ hlookup)
  · intro hne
    obtain ⟨count, hlookup, hlate, hcount⟩ := h.opened hne
    exact ⟨count, hkey _ hlookup hlate, hlate, hcount⟩

/-- Cutting the counters back never drops that of the key: when they are too many, one of
them is of no known key and expires before the window ends. -/
theorem Throttled.trimKeyFloods
    (hkeys : keys.length ≤ storeFlooderRecentCapacity) (hnow : input.now < windowEnd start) :
    Throttled keys key start counted (NetDb.trimKeyFloods keyFloods input) := by
  unfold NetDb.trimKeyFloods
  split
  · have hswept := swept_sweep StoreFloodCount.untilMillis input.now input.floodOrder keyFloods
    have hshrunk : Throttled keys key start counted
        (sweep StoreFloodCount.untilMillis input.now input.floodOrder keyFloods).1 := by
      refine h.shrink hswept.old ?_
      intro count hlookup hlate
      exact hswept.kept _ _ hlookup (UInt64.lt_of_lt_of_le hnow hlate)
    dsimp only
    split
    next hmany =>
      refine hshrunk.shrink (fun _ _ hlookup => (lookup_of_erase hlookup).2) ?_
      intro count hlookup hlate
      obtain ⟨other, found, hother, hunknown⟩ :=
        exists_notMem_of_length_lt (Nat.lt_of_le_of_lt hkeys hmany)
      have hearly : found.untilMillis < windowEnd start := by
        by_contra hlater
        exact hunknown (hshrunk.known _ _ hother (UInt64.not_lt.mp hlater))
      have hmem : other ∈ keyFloods.ranged input.floodOrder := by
        rw [mem_ranged, ← lookup_isSome, hswept.old _ _ hother]
        rfl
      have hne := hswept.noted_ne (hswept.old _ _ hlookup) (hswept.old _ _ hother)
        (hswept.live _ hmem _ hother) (UInt64.lt_of_lt_of_le hearly hlate)
      rw [lookup_erase_ne hne.symm]
      exact hlookup
    · exact hshrunk
  · exact h

theorem Throttled.insert_other {other : Hash}
    (hother : other ≠ key) (hknown : other ∈ keys) (count : StoreFloodCount) :
    Throttled keys key start counted (keyFloods.insert other count) := by
  have hkey : (keyFloods.insert other count).lookup key = keyFloods.lookup key :=
    lookup_insert_ne hother.symm
  refine ⟨?_, ?_, ?_⟩
  · intro third found hlookup hlate
    rcases lookup_insert_cases hlookup with ⟨rfl, -⟩ | ⟨-, hold⟩
    · exact hknown
    · exact h.known _ _ hold hlate
  · rw [hkey]
    exact h.unopened
  · rw [hkey]
    exact h.opened

/-- The next store of the key takes the next number, modulo 256. -/
theorem Throttled.nextCount (hkey : input.store.key = key) (hstart : start ≤ input.now)
    (hnow : input.now < windowEnd start) :
    windowEnd start ≤ (NetDb.nextCount keyFloods input).untilMillis ∧
      (NetDb.nextCount keyFloods input).count = UInt8.ofNat (counted + 1) := by
  unfold NetDb.nextCount
  rw [hkey]
  by_cases hzero : counted = 0
  · have hexpired : ((keyFloods.lookup key).getD ⟨0, 0⟩).untilMillis ≤ input.now := by
      cases hlookup : keyFloods.lookup key with
      | none => exact UInt64.le_iff_toNat_le.mpr (Nat.zero_le _)
      | some count => exact UInt64.le_trans (h.unopened hzero _ hlookup) hstart
    dsimp only
    rw [if_pos hexpired, hzero]
    dsimp only
    exact ⟨windowEnd_mono hstart, by decide⟩
  · obtain ⟨count, hlookup, hlate, hcount⟩ := h.opened hzero
    rw [hlookup]
    dsimp only [Option.getD_some]
    rw [if_neg (UInt64.not_le.mpr (UInt64.lt_of_lt_of_le hnow hlate))]
    refine ⟨hlate, ?_⟩
    rw [hcount, ofNat_add]
    rfl

theorem Throttled.insert_key (hkey : input.store.key = key) (hknown : key ∈ keys)
    (hstart : start ≤ input.now) (hnow : input.now < windowEnd start) :
    Throttled keys key start (counted + 1)
      (keyFloods.insert input.store.key (NetDb.nextCount keyFloods input)) := by
  obtain ⟨hlate, hcount⟩ := h.nextCount hkey hstart hnow
  rw [hkey]
  refine ⟨?_, fun hzero => absurd hzero (Nat.succ_ne_zero _), fun _ => ?_⟩
  · intro other found hlookup hfound
    rcases lookup_insert_cases hlookup with ⟨rfl, -⟩ | ⟨-, hold⟩
    · exact hknown
    · exact h.known _ _ hold hfound
  · exact ⟨_, lookup_insert _, hlate, hcount⟩

end Throttle

section Floods

/-- How many of the first `counted` stores of a window are flooded: those whose number
modulo 256 is at most three. -/
def floodQuota : Nat → Nat
  | 0 => 0
  | counted + 1 => floodQuota counted + (decide ((counted + 1) % 256 ≤ 3)).toNat

theorem floodQuota_mono {few many : Nat} (h : few ≤ many) : floodQuota few ≤ floodQuota many := by
  induction h with
  | refl => exact Nat.le_refl _
  | step _ ih => exact Nat.le_trans ih (Nat.le_add_right _ _)

theorem floodQuota_le_three_iff (counted : Nat) : floodQuota counted ≤ 3 ↔ counted ≤ 255 := by
  have hwithin : floodQuota 255 = 3 := by decide +kernel
  have hwrapped : floodQuota 256 = 4 := by decide +kernel
  constructor
  · by_contra hmore
    have hmany : 256 ≤ counted := by omega
    have := floodQuota_mono hmany
    omega
  · intro h
    have := floodQuota_mono h
    omega

theorem count_le_iff (counted : Nat) :
    UInt8.ofNat counted ≤ storeFlooderMaxFloodsPerKey ↔ counted % 256 ≤ 3 := by
  exact Iff.rfl

namespace StoreFlooder

variable (sha256 : Bytes → Hash) {keys : List Hash} {key : Hash} {start : UInt64}

section Fresh

variable {f : StoreFlooder} {input : Presented} (h : f.duplicate sha256 input = false)
include h

theorem step_keyFloods_of_fresh :
    (f.step sha256 input).keyFloods = NetDb.trimKeyFloods
      (f.keyFloods.insert input.store.key (NetDb.nextCount f.keyFloods input)) input := by
  rw [step, markNew, h]
  rfl

theorem step_recent_of_fresh :
    (f.step sha256 input).recent = (roomForRecent f.recent input).insert
      (fingerprint sha256 input.store) (saturatingAdd input.now storeFlooderRecentLifetime) := by
  rw [step, markNew, h]
  rfl

theorem markNew_of_fresh :
    (f.markNew sha256 input).2 =
      decide ((NetDb.nextCount f.keyFloods input).count ≤ storeFlooderMaxFloodsPerKey) := by
  rw [markNew, h]
  rfl

end Fresh

variable {inputs : List Presented}

theorem floods_add_quota (hkeys : keys.length ≤ storeFlooderRecentCapacity) (hknown : ∀ input ∈ inputs, input.store.key ∈ keys)
    (hwindow : ∀ input ∈ inputs, start ≤ input.now ∧ input.now < windowEnd start)
    {f : StoreFlooder} {before : Nat} (h : Throttled keys key start before f.keyFloods) :
    f.floods sha256 key inputs + floodQuota before =
      floodQuota (before + f.counted sha256 key inputs) := by
  induction inputs generalizing f before with
  | nil => exact Nat.zero_add _
  | cons input rest ih =>
    obtain ⟨hmem, hrest⟩ := forall_mem_cons.mp hknown
    obtain ⟨⟨hstart, hnow⟩, hlater⟩ := forall_mem_cons.mp hwindow
    have hfloods : f.floods sha256 key (input :: rest) =
        (decide (input.store.key = key ∧ (f.markNew sha256 input).2)).toNat +
          (f.step sha256 input).floods sha256 key rest := rfl
    have hcounted : f.counted sha256 key (input :: rest) =
        (decide (input.store.key = key ∧ ¬f.duplicate sha256 input)).toNat +
          (f.step sha256 input).counted sha256 key rest := rfl
    rw [hfloods, hcounted]
    cases hduplicate : f.duplicate sha256 input with
    | true =>
      rw [step, markNew, hduplicate]
      simpa using ih hrest hlater h
    | false =>
      rw [markNew_of_fresh _ hduplicate]
      by_cases hkey : input.store.key = key
      · have hnext : Throttled keys key start (before + 1) (f.step sha256 input).keyFloods := by
          rw [step_keyFloods_of_fresh _ hduplicate]
          exact (h.insert_key hkey (hkey ▸ hmem) hstart hnow).trimKeyFloods hkeys hnow
        have hrun := ih hrest hlater hnext
        rw [floodQuota] at hrun
        simp only [hkey, true_and, (h.nextCount hkey hstart hnow).2, count_le_iff,
          Bool.false_eq_true, not_false_eq_true, decide_true, Bool.toNat_true, Bool.decide_eq_true]
        rw [← Nat.add_assoc]
        omega
      · have hnext : Throttled keys key start before (f.step sha256 input).keyFloods := by
          rw [step_keyFloods_of_fresh _ hduplicate]
          exact (h.insert_other hkey hmem _).trimKeyFloods hkeys hnow
        simp only [hkey, false_and, decide_false, Bool.toNat_false, Nat.zero_add]
        exact ih hrest hlater hnext

/-- In a throttle window at most three stores of a key are flooded exactly as long as at
most 255 of its stores pass the duplicate filter. The window opens at `start`, where the
key has no running counter; the keys of the stores, and those of the counters that run as
long as the window, are no more than the table holds. -/
theorem floods_le_three_iff (key : Hash) (start : UInt64) (f : StoreFlooder)
    (inputs : List Presented) (keys : List Hash)
    (hcapacity : keys.length ≤ storeFlooderRecentCapacity)
    (hstores : ∀ input ∈ inputs, input.store.key ∈ keys)
    (hcounters : ∀ other count, f.keyFloods.lookup other = some count →
      windowEnd start ≤ count.untilMillis → other ∈ keys)
    (hopens : ∀ count, f.keyFloods.lookup key = some count → count.untilMillis ≤ start)
    (hwindow : ∀ input ∈ inputs, start ≤ input.now ∧ input.now < windowEnd start) :
    f.floods sha256 key inputs ≤ 3 ↔ f.counted sha256 key inputs ≤ 255 := by
  have hthrottled : Throttled keys key start 0 f.keyFloods :=
    ⟨hcounters, fun _ => hopens, fun hne => absurd rfl hne⟩
  have hfloods := floods_add_quota sha256 hcapacity hstores hwindow hthrottled
  rw [floodQuota, Nat.add_zero, Nat.zero_add] at hfloods
  rw [hfloods]
  exact floodQuota_le_three_iff _

/-- Stores of which no two have one fingerprint all pass the duplicate filter of a flooder
that has seen none of them. -/
theorem counted_eq_length
    (hdistinct : (inputs.map fun input => fingerprint sha256 input.store).Nodup)
    (hkey : ∀ input ∈ inputs, input.store.key = key) {f : StoreFlooder}
    (hnew : ∀ input ∈ inputs, fingerprint sha256 input.store ∉ f.recent)
    (hroom : f.recent.entries.length + inputs.length ≤ storeFlooderRecentCapacity) :
    f.counted sha256 key inputs = inputs.length := by
  induction inputs generalizing f with
  | nil => rfl
  | cons input rest ih =>
    obtain ⟨hother, hdistinct⟩ := nodup_cons.mp hdistinct
    obtain ⟨hsame, hkey⟩ := forall_mem_cons.mp hkey
    obtain ⟨hfirst, hnew⟩ := forall_mem_cons.mp hnew
    rw [length_cons] at hroom
    have hduplicate : f.duplicate sha256 input = false := by
      unfold duplicate
      rw [lookup_eq_none.mpr hfirst]
      exact decide_eq_false (UInt64.not_lt.mpr (UInt64.le_iff_toNat_le.mpr (Nat.zero_le _)))
    have hrecent : (f.step sha256 input).recent = f.recent.insert (fingerprint sha256 input.store)
        (saturatingAdd input.now storeFlooderRecentLifetime) := by
      rw [step_recent_of_fresh _ hduplicate, roomForRecent, if_neg (by omega)]
    have hcounted : f.counted sha256 key (input :: rest) =
        (decide (input.store.key = key ∧ ¬f.duplicate sha256 input)).toNat +
          (f.step sha256 input).counted sha256 key rest := rfl
    rw [hcounted, hduplicate, ih hdistinct hkey ?_ ?_, Nat.add_comm]
    · simp [hsame]
    · intro later hmem
      rw [hrecent, mem_insert]
      rintro (heq | hold)
      · exact hother (mem_map.mpr ⟨later, hmem, heq⟩)
      · exact hnew _ hmem hold
    · rw [hrecent, length_insert_of_lookup_none _ (lookup_eq_none.mpr hfirst)]
      omega

def byteStore (index : Nat) : Presented where
  store := ⟨FixedBytes.zero 32, .leases .leaseSet2, 1, 0, FixedBytes.zero 32, [UInt8.ofNat index]⟩
  now := 0
  recentOrder := []
  floodOrder := []

def lastByteDigest (bytes : Bytes) : Hash := FixedBytes.copy 32 (bytes.drop 33)

/-- Three stores of a key that has been quiet. -/
theorem floods_le_three_iff_three :
    newStoreFlooder.floods lastByteDigest (FixedBytes.zero 32)
        [byteStore 1, byteStore 2, byteStore 3] ≤ 3 ↔
      newStoreFlooder.counted lastByteDigest (FixedBytes.zero 32)
        [byteStore 1, byteStore 2, byteStore 3] ≤ 255 := by
  refine floods_le_three_iff _ (zero 32) 0 _ _ [zero 32] (by decide) (by decide) ?_ ?_ (by decide)
  · intro other count hlookup
    cases hlookup
  · intro count hlookup
    cases hlookup

/-- 256 different stores under one key within one window: the first three are flooded and
the last one is. -/
theorem floods_byteStores :
    newStoreFlooder.floods lastByteDigest (FixedBytes.zero 32) ((List.range 256).map byteStore) =
      4 := by
  have hinputs : ∀ input ∈ (range 256).map byteStore,
      input.store.key = zero 32 ∧ input.now = 0 := by
    intro input hmem
    obtain ⟨index, -, rfl⟩ := mem_map.mp hmem
    exact ⟨rfl, rfl⟩
  have hcounted : newStoreFlooder.counted lastByteDigest (zero 32)
      ((range 256).map byteStore) = 256 := by
    rw [counted_eq_length _ ?_ (fun input hmem => (hinputs _ hmem).1) ?_ ?_,
      length_map, length_range]
    · rw [map_map]
      refine nodup_range.map_on ?_
      intro left hleft right hright heq
      have hbytes : ofNat left = ofNat right := by
        have hvals := congrArg (fun digest => digest.val.head?) heq
        exact Option.some.inj hvals
      have hnats := congrArg toNat hbytes
      rw [toNat_ofNat', toNat_ofNat'] at hnats
      rw [mem_range] at hleft hright
      omega
    · exact fun _ _ => notMem_empty _
    · rw [length_map, length_range]
      decide
  have hthrottled : Throttled [zero 32] (zero 32) 0 0
      newStoreFlooder.keyFloods := by
    refine ⟨?_, fun _ => ?_, fun hne => absurd rfl hne⟩
    · intro other count hlookup
      cases hlookup
    · intro count hlookup
      cases hlookup
  have hfloods := floods_add_quota lastByteDigest (by decide)
    (fun input hmem => mem_singleton.mpr (hinputs _ hmem).1)
    (fun input hmem => by rw [(hinputs _ hmem).2]; decide) hthrottled
  have hquota : floodQuota 256 = 4 := by decide +kernel
  rw [hcounted, floodQuota, Nat.add_zero, Nat.zero_add, hquota] at hfloods
  exact hfloods

end StoreFlooder

end Floods

end Ivnp.NetDb
