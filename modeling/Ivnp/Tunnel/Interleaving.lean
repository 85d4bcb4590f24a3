import Ivnp.Tunnel.Reassembly

/-!
Runs of a reassembler on fragments of any number of messages. What `Add` returns
for one message depends on the fragments of that message alone, as long as the
table has room, and a fragment that contradicts what is held of its message
costs this message and no other.
-/

namespace Ivnp.Tunnel

open Ivnp.Lib List Option UInt8

/-- One call of `Add`. -/
structure Addition where
  fragment : Fragment
  nowMillis : UInt64

namespace Reassembler

def step (reasm : Reassembler) (addition : Addition) : Reassembler :=
  (reasm.add addition.fragment addition.nowMillis).1

/-- What the call returns. -/
def result (reasm : Reassembler) (addition : Addition) : Except TunnelError (Option Bytes) :=
  (reasm.add addition.fragment addition.nowMillis).2

def HasRoom (reasm : Reassembler) (addition : Addition) : Prop :=
  Table.Fits reasm.maxEntries reasm.entries [addition.fragment.messageID]

instance (reasm : Reassembler) (addition : Addition) : Decidable (reasm.HasRoom addition) :=
  inferInstanceAs (Decidable (Table.Fits _ _ _))

theorem HasRoom.mem_or_length_ne {reasm : Reassembler} {addition : Addition}
    (hroom : reasm.HasRoom addition) :
    addition.fragment.messageID ∈ reasm.entries ∨
      reasm.entries.entries.length ≠ reasm.maxEntries := by
  rcases Decidable.em (addition.fragment.messageID ∈ reasm.entries) with hmem | hnew
  · exact Or.inl hmem
  · exact Or.inr (Table.Fits.length_ne hroom (mem_singleton_self _) hnew)

def returned (messageID : UInt32) : Reassembler → List Addition → List Bytes
  | _, [] => []
  | reasm, addition :: rest =>
    let message : List Bytes :=
      if addition.fragment.messageID = messageID then
        match reasm.result addition with
        | .ok (some message) => [message]
        | _ => []
      else []
    message ++ returned messageID (reasm.step addition) rest

end Reassembler

section Consistent

/-- The fragment held under a number: its data, and whether it came as the last
one. -/
def Partial.held (entry : Partial) (number : Nat) : Option (Bytes × Bool) :=
  if entry.seen.getLsbD number then some (entry.parts number, entry.terminal.getLsbD number)
  else none

/-- Both checks that `Add` makes before it looks at the message. -/
def Fragment.Proper (fragment : Fragment) : Prop := fragment.data ≠ [] ∧ fragment.number ≤ 63

instance (fragment : Fragment) : Decidable fragment.Proper := inferInstanceAs (Decidable (_ ∧ _))

/-- The fragment cannot belong to the same message as what is held. -/
inductive Partial.Conflicts (entry : Partial) (fragment : Fragment) : Prop where
  /-- another fragment is held under its number -/
  | differs {data : Bytes} {last : Bool} (hheld : entry.held fragment.number.toNat = some (data, last))
      (hne : (data, last) ≠ (fragment.data, fragment.last))
  /-- it lies beyond the known last fragment -/
  | beyond {number : Nat} {data : Bytes} (hheld : entry.held number = some (data, true))
      (hafter : number < fragment.number.toNat)
  /-- it is a second last fragment -/
  | secondLast {number : Nat} {data : Bytes} (hheld : entry.held number = some (data, true))
      (hlast : fragment.last = true) (hne : number ≠ fragment.number.toNat)
  /-- it comes as the last one, and one beyond it is held -/
  | notLast {number : Nat} {found : Bytes × Bool} (hheld : entry.held number = some found)
      (hlast : fragment.last = true) (hafter : fragment.number.toNat < number)

/-- What every entry of a reassembler satisfies: only the known last fragment is
marked as such, and nothing beyond it is held. -/
structure Partial.Consistent (entry : Partial) : Prop where
  terminal : ∀ number, entry.terminal.getLsbD number = true →
    entry.hasLast = true ∧ entry.last.toNat = number
  bounded : entry.hasLast = true → ∀ number, entry.seen.getLsbD number = true →
    number ≤ entry.last.toNat

structure Partial.Repeats (entry : Partial) (fragment : Fragment) : Prop where
  within : ¬ (entry.hasLast = true ∧ fragment.number > entry.last)
  held : entry.held fragment.number.toNat = some (fragment.data, fragment.last)

structure Partial.Admits (entry : Partial) (fragment : Fragment) : Prop where
  within : ¬ (entry.hasLast = true ∧ fragment.number > entry.last)
  free : entry.seen.getLsbD fragment.number.toNat = false
  only : fragment.last = true → entry.hasLast = true → entry.last = fragment.number
  final : fragment.last = true → ∀ number, entry.seen.getLsbD number = true →
    number ≤ fragment.number.toNat

variable {entry : Partial} {fragment : Fragment}

theorem Fragment.Proper.number_lt (hproper : fragment.Proper) : fragment.number.toNat < 64 := by
  have hle := le_iff_toNat_le.mp hproper.2
  simp only [reduceToNat] at hle
  omega

theorem ushiftRight_eq_zero_iff (bits : BitVec 64) (number : Nat) :
    bits >>> (number + 1) = 0 ↔ ∀ other, bits.getLsbD other = true → other ≤ number := by
  constructor
  · intro hzero other hbit
    by_contra hafter
    have hshifted : (bits >>> (number + 1)).getLsbD (other - (number + 1)) = false := by
      rw [hzero]
      exact BitVec.getLsbD_zero
    rw [BitVec.getLsbD_ushiftRight, show number + 1 + (other - (number + 1)) = other by omega,
      hbit] at hshifted
    cases hshifted
  · intro hnone
    apply BitVec.eq_of_getLsbD_eq
    intro other _
    rw [BitVec.getLsbD_ushiftRight]
    cases hbit : bits.getLsbD (number + 1 + other) with
    | false => simp
    | true =>
      have := hnone _ hbit
      omega

/-- What `Add` does with an entry: it drops it, keeps it, or stores the
fragment. -/
theorem addTo_cases (reasm : Reassembler) (hproper : fragment.Proper) :
    (∃ error, reasm.addTo entry fragment = (reasm.remove fragment.messageID, .error error)) ∨
      (entry.Repeats fragment ∧ reasm.addTo entry fragment = (reasm, .ok none)) ∨
      (entry.Admits fragment ∧
        reasm.addTo entry fragment = reasm.finish fragment.messageID (entry.accept fragment)) := by
  have hnumber := hproper.number_lt
  unfold Reassembler.addTo
  dsimp only
  split
  · exact Or.inl ⟨_, rfl⟩
  next hwithin =>
  split
  next hseen =>
    rw [and_bit_ne_zero _ hnumber] at hseen
    split
    · exact Or.inl ⟨_, rfl⟩
    next hsame =>
    obtain ⟨hterminal, hdata⟩ := not_or.mp hsame
    refine Or.inr (Or.inl ⟨⟨hwithin, ?_⟩, rfl⟩)
    rw [Partial.held, if_pos hseen, not_not.mp hdata]
    have hflag := not_not.mp hterminal
    simp only [and_bit_ne_zero _ hnumber, Bool.decide_eq_true] at hflag
    rw [hflag]
  next hfree =>
    rw [and_bit_ne_zero _ hnumber, Bool.not_eq_true] at hfree
    split
    · exact Or.inl ⟨_, rfl⟩
    split
    next hlast =>
      split
      · exact Or.inl ⟨_, rfl⟩
      next honly =>
      split
      · exact Or.inl ⟨_, rfl⟩
      next hshift =>
      have hbits := (ushiftRight_eq_zero_iff _ _).mp (not_not.mp hshift)
      refine Or.inr (Or.inr ⟨⟨hwithin, hfree, fun _ hhas => ?_, fun _ number hbit => ?_⟩, ?_⟩)
      · by_contra hne
        exact honly ⟨hhas, hne⟩
      · apply hbits
        rw [Partial.store, getLsbD_or_bit _ hnumber, hbit, Bool.true_or]
      · rw [Partial.accept, if_pos hlast]
    next hlast =>
      refine Or.inr (Or.inr ⟨⟨hwithin, hfree, fun h => absurd h hlast, fun h => absurd h hlast⟩, ?_⟩)
      rw [Partial.accept, if_neg hlast]

theorem Partial.held_eq_some {number : Nat} {data : Bytes} {last : Bool}
    (h : entry.held number = some (data, last)) :
    entry.seen.getLsbD number = true ∧ entry.parts number = data ∧
      entry.terminal.getLsbD number = last := by
  unfold held at h
  split at h
  next hseen =>
    obtain ⟨rfl, rfl⟩ := Prod.mk.inj (some.inj h)
    exact ⟨hseen, rfl, rfl⟩
  · cases h

theorem Partial.Consistent.new (created : UInt64) : (Partial.new created).Consistent := by
  constructor <;> simp [Partial.new]

variable (hentry : entry.Consistent)
include hentry

theorem Partial.Consistent.accept (hproper : fragment.Proper)
    (hadmits : entry.Admits fragment) : (entry.accept fragment).Consistent := by
  have hnumber := hproper.number_lt
  unfold Partial.accept
  split
  next hlast =>
    constructor
    · intro number hbit
      simp only [Partial.store, hlast, if_true] at hbit
      rw [getLsbD_or_bit _ hnumber, Bool.or_eq_true, decide_eq_true_eq] at hbit
      refine ⟨rfl, ?_⟩
      rcases hbit with hold | hself
      · obtain ⟨hhas, rfl⟩ := hentry.terminal _ hold
        rw [hadmits.only hlast hhas]
      · exact hself.symm
    · intro _ number hbit
      simp only [Partial.store] at hbit
      rw [getLsbD_or_bit _ hnumber, Bool.or_eq_true, decide_eq_true_eq] at hbit
      rcases hbit with hold | hself
      · exact hadmits.final hlast _ hold
      · exact hself.le
  next hlast =>
    constructor
    · intro number hbit
      simp only [Partial.store, hlast] at hbit
      exact hentry.terminal _ hbit
    · intro hhas number hbit
      simp only [Partial.store] at hbit
      rw [getLsbD_or_bit _ hnumber, Bool.or_eq_true, decide_eq_true_eq] at hbit
      rcases hbit with hold | rfl
      · exact hentry.bounded hhas _ hold
      · have hle := not_and.mp hadmits.within hhas
        exact UInt8.le_iff_toNat_le.mp (UInt8.not_lt.mp hle)

theorem Partial.Conflicts.not_repeats
    (hconflicts : entry.Conflicts fragment) : ¬ entry.Repeats fragment := by
  intro hrepeats
  obtain ⟨hseen, hdata, hflag⟩ := held_eq_some hrepeats.held
  cases hconflicts with
  | differs hheld hne => exact hne (some.inj (hheld.symm.trans hrepeats.held))
  | beyond hheld hafter =>
    obtain ⟨hhas, rfl⟩ := hentry.terminal _ (held_eq_some hheld).2.2
    exact hrepeats.within ⟨hhas, lt_iff_toNat_lt.mpr hafter⟩
  | secondLast hheld hlast hne =>
    obtain ⟨-, hfirst⟩ := hentry.terminal _ (held_eq_some hheld).2.2
    obtain ⟨-, hsecond⟩ := hentry.terminal _ (hflag.trans hlast)
    exact hne (hfirst.symm.trans hsecond)
  | notLast hheld hlast hafter =>
    obtain ⟨hhas, hsecond⟩ := hentry.terminal _ (hflag.trans hlast)
    have := hentry.bounded hhas _ (held_eq_some hheld).1
    omega

theorem Partial.Conflicts.not_admits
    (hconflicts : entry.Conflicts fragment) : ¬ entry.Admits fragment := by
  intro hadmits
  cases hconflicts with
  | differs hheld _ =>
    have hseen := (held_eq_some hheld).1
    rw [hadmits.free] at hseen
    cases hseen
  | beyond hheld hafter =>
    obtain ⟨hhas, rfl⟩ := hentry.terminal _ (held_eq_some hheld).2.2
    exact hadmits.within ⟨hhas, lt_iff_toNat_lt.mpr hafter⟩
  | secondLast hheld hlast hne =>
    obtain ⟨hhas, rfl⟩ := hentry.terminal _ (held_eq_some hheld).2.2
    exact hne (congrArg toNat (hadmits.only hlast hhas))
  | notLast hheld hlast hafter =>
    have := hadmits.final hlast _ (held_eq_some hheld).1
    omega

end Consistent

namespace Reassembler

section Sound

def Sound (reasm : Reassembler) : Prop :=
  ∀ messageID entry, reasm.entries.lookup messageID = some entry → entry.Consistent

theorem sound_new (maxEntries maxMessage : Nat) : (new maxEntries maxMessage).Sound := by
  intro messageID entry hlookup
  simp [new] at hlookup

variable {reasm : Reassembler}

variable (hsound : reasm.Sound)
include hsound

theorem Sound.remove (messageID : UInt32) : (reasm.remove messageID).Sound :=
  fun _ _ hlookup => hsound _ _ (Table.lookup_of_erase hlookup).2

theorem Sound.insert (messageID : UInt32) {entry : Partial} (hentry : entry.Consistent) :
    Sound { reasm with entries := reasm.entries.insert messageID entry } :=
  Table.forall_lookup_insert hentry hsound

theorem Sound.insertNew (messageID : UInt32) (nowMillis : UInt64) :
    (reasm.insertNew messageID nowMillis).Sound := by
  unfold Reassembler.insertNew
  split
  · exact (hsound.remove _).insert messageID (.new nowMillis)
  · exact hsound.insert _ (.new nowMillis)

theorem Sound.addTo {entry : Partial} (hentry : entry.Consistent)
    {fragment : Fragment} (hproper : fragment.Proper) : (reasm.addTo entry fragment).1.Sound := by
  rcases addTo_cases reasm hproper with ⟨error, haddTo⟩ | ⟨-, haddTo⟩ | ⟨hadmits, haddTo⟩
  · rw [haddTo]
    exact hsound.remove _
  · rw [haddTo]
    exact hsound
  · rw [haddTo, finish]
    split
    · exact hsound.remove _
    · exact hsound.insert _ (hentry.accept hproper hadmits)

omit hsound

theorem add_of_not_proper {fragment : Fragment} (hproper : ¬ fragment.Proper) (nowMillis : UInt64) :
    reasm.add fragment nowMillis = (reasm, .error .fragment) := by
  refine if_pos ?_
  rw [length_eq_zero_iff]
  by_contra hnone
  obtain ⟨hdata, hnumber⟩ := not_or.mp hnone
  exact hproper ⟨hdata, UInt8.not_lt.mp hnumber⟩

theorem add_of_proper {fragment : Fragment} (hproper : fragment.Proper) (nowMillis : UInt64) :
    reasm.add fragment nowMillis =
      match reasm.entries.lookup fragment.messageID with
      | some entry => reasm.addTo entry fragment
      | none =>
        (reasm.insertNew fragment.messageID nowMillis).addTo (Partial.new nowMillis) fragment := by
  refine if_neg ?_
  rw [length_eq_zero_iff, not_or]
  exact ⟨hproper.1, UInt8.not_lt.mpr hproper.2⟩

theorem Sound.step (hsound : reasm.Sound) (addition : Addition) : (reasm.step addition).Sound := by
  unfold Reassembler.step
  by_cases hproper : addition.fragment.Proper
  · rw [add_of_proper hproper]
    split
    next entry hlookup => exact hsound.addTo (hsound _ _ hlookup) hproper
    · exact (hsound.insertNew _ _).addTo (.new _) hproper
  · rw [add_of_not_proper hproper]
    exact hsound

/-- A conflicting fragment discards the assembly of its message and no other. -/
theorem step_of_conflicts (hsound : reasm.Sound) {addition : Addition} {entry : Partial}
    (hproper : addition.fragment.Proper)
    (hlookup : reasm.entries.lookup addition.fragment.messageID = some entry)
    (hconflicts : entry.Conflicts addition.fragment) :
    reasm.step addition = reasm.remove addition.fragment.messageID ∧
      ∃ error, reasm.result addition = .error error := by
  have hentry := hsound _ _ hlookup
  unfold Reassembler.step result
  rw [add_of_proper hproper, hlookup]
  rcases addTo_cases reasm hproper with ⟨error, haddTo⟩ | ⟨hrepeats, -⟩ | ⟨hadmits, -⟩
  · dsimp only
    rw [haddTo]
    exact ⟨rfl, error, rfl⟩
  · exact absurd hrepeats (hconflicts.not_repeats hentry)
  · exact absurd hadmits (hconflicts.not_admits hentry)

end Sound

section Own

variable {messageID : UInt32} {datas : List Bytes}

/-- The fragments of a message that can be reassembled. -/
structure Whole (maxMessage : Nat) (datas : List Bytes) : Prop where
  pos : 0 < datas.length
  short : datas.length ≤ 64
  parts : ∀ part ∈ datas, part ≠ []
  size : datas.flatten.length ≤ maxMessage

instance (maxMessage : Nat) (datas : List Bytes) : Decidable (Whole maxMessage datas) :=
  decidable_of_iff (0 < datas.length ∧ datas.length ≤ 64 ∧ (∀ part ∈ datas, part ≠ []) ∧
      datas.flatten.length ≤ maxMessage)
    ⟨fun ⟨h₁, h₂, h₃, h₄⟩ => ⟨h₁, h₂, h₃, h₄⟩, fun ⟨h₁, h₂, h₃, h₄⟩ => ⟨h₁, h₂, h₃, h₄⟩⟩

/-- Every fragment under `messageID` is one of the message `datas`; nothing is
said of other messages. -/
def Genuine (messageID : UInt32) (datas : List Bytes) (addition : Addition) : Prop :=
  addition.fragment.messageID = messageID →
    ∃ number < datas.length, addition.fragment = partFragment messageID datas number

def numbers (messageID : UInt32) (additions : List Addition) : List Nat :=
  additions.filterMap fun addition =>
    if addition.fragment.messageID = messageID then some addition.fragment.number.toNat else none

/-- The fragments of a message of `count` fragments, collected since the message
was last complete. -/
def gathered (messageID : UInt32) (count : Nat) (additions : List Addition) : Collector Nat :=
  run (Collector.step (Finset.range count)) Collector.start (numbers messageID additions)

structure Follows (messageID : UInt32) (datas : List Bytes) (maxMessage : Nat)
    (gathered : Collector Nat) (reasm : Reassembler) : Prop where
  collects : Collects datas (reasm.entries.lookup messageID) gathered.held
  missing : gathered.held ⊂ Finset.range datas.length
  maxMessage : reasm.maxMessage = maxMessage

variable {reasm : Reassembler} {maxMessage : Nat} {collector : Collector Nat}
  {addition : Addition} {additions : List Addition}

/-- What a call for the message returns: the message if its last missing
fragment has arrived. -/
theorem Follows.result (hfollows : Follows messageID datas maxMessage collector reasm)
    (hwhole : Whole maxMessage datas) {number : Nat} (hnumber : number < datas.length)
    (hfragment : addition.fragment = partFragment messageID datas number) :
    reasm.result addition =
      .ok (if insert number collector.held = Finset.range datas.length then some datas.flatten
        else none) := by
  unfold Reassembler.result
  rw [hfragment]
  exact (add_collects addition.nowMillis hwhole.short hnumber hfollows.collects hwhole.parts
    hfollows.missing (hfollows.maxMessage ▸ hwhole.size)).1

theorem maxMessage_add (fragment : Fragment) (nowMillis : UInt64) :
    (reasm.add fragment nowMillis).1.maxMessage = reasm.maxMessage := by
  by_cases hproper : fragment.Proper
  · rw [add_of_proper hproper]
    split
    · exact (addTo_frame _ _ _).maxMessage
    · rw [(addTo_frame _ _ _).maxMessage, insertNew]
      split <;> rfl
  · rw [add_of_not_proper hproper]

/-- The collector follows every call, and ignores those for other messages. -/
theorem Follows.step (hfollows : Follows messageID datas maxMessage collector reasm)
    (hwhole : Whole maxMessage datas) (hgenuine : Genuine messageID datas addition)
    (hroom : reasm.HasRoom addition) :
    Follows messageID datas maxMessage (if addition.fragment.messageID = messageID then
        collector.step (Finset.range datas.length) addition.fragment.number.toNat
      else collector)
      (reasm.step addition) := by
  have hmax : (reasm.step addition).maxMessage = maxMessage :=
    (maxMessage_add _ _).trans hfollows.maxMessage
  split
  next hown =>
    obtain ⟨number, hnumber, hfragment⟩ := hgenuine hown
    have hbyte : addition.fragment.number.toNat = number := by
      rw [hfragment]
      exact number_partFragment hwhole.short hnumber
    have hcollects := (add_collects addition.nowMillis hwhole.short hnumber hfollows.collects
      hwhole.parts hfollows.missing (hfollows.maxMessage ▸ hwhole.size)).2
    refine ⟨?_, ?_, hmax⟩
    · rw [Collector.held_step, hbyte]
      unfold Reassembler.step
      rw [hfragment]
      exact hcollects
    · rw [Collector.held_step, hbyte]
      split
      · exact Finset.empty_ssubset.mpr (Finset.nonempty_range_iff.mpr hwhole.pos.ne')
      next hpartial =>
      refine Finset.ssubset_iff_subset_ne.mpr ⟨?_, hpartial⟩
      exact Finset.insert_subset (Finset.mem_range.mpr hnumber) hfollows.missing.1
  next hother =>
    have hframe := add_frame _ addition.fragment addition.nowMillis hroom.mem_or_length_ne
    refine ⟨?_, hfollows.missing, hmax⟩
    unfold Reassembler.step
    rw [hframe.lookup _ (Ne.symm hother)]
    exact hfollows.collects

theorem follows_new (maxEntries maxMessage : Nat)
    (hwhole : Whole (new maxEntries maxMessage).maxMessage datas) :
    Follows messageID datas (new maxEntries maxMessage).maxMessage Collector.start
      (new maxEntries maxMessage) := by
  refine ⟨Or.inl ⟨rfl, rfl⟩, ?_, rfl⟩
  exact Finset.empty_ssubset.mpr (Finset.nonempty_range_iff.mpr hwhole.pos.ne')

variable (hfollows : Follows messageID datas maxMessage collector reasm)
  (hwhole : Whole maxMessage datas)
  (hgenuine : ∀ addition ∈ additions, Genuine messageID datas addition)
  (hroom : Along step HasRoom reasm additions)
include hfollows hwhole hgenuine hroom

theorem follows_run : Follows messageID datas maxMessage
      (run (Collector.step (Finset.range datas.length)) collector (numbers messageID additions))
      (run step reasm additions) := by
  induction additions generalizing reasm collector with
  | nil => exact hfollows
  | cons addition rest ih =>
    obtain ⟨hfirst, hrest⟩ := forall_mem_cons.mp hgenuine
    have hnext := ih (hfollows.step hwhole hfirst hroom.1) hrest hroom.2
    by_cases hown : addition.fragment.messageID = messageID <;> simpa [numbers, hown] using hnext

theorem returned_of_follows :
    collector.completed + (returned messageID reasm additions).length =
        (run (Collector.step (Finset.range datas.length)) collector
          (numbers messageID additions)).completed ∧
      ∀ message ∈ returned messageID reasm additions, message = datas.flatten := by
  induction additions generalizing reasm collector with
  | nil => exact ⟨rfl, forall_mem_nil _⟩
  | cons addition rest ih =>
    obtain ⟨hfirst, hrest⟩ := forall_mem_cons.mp hgenuine
    obtain ⟨hcount, hsame⟩ := ih (hfollows.step hwhole hfirst hroom.1) hrest hroom.2
    by_cases hown : addition.fragment.messageID = messageID
    · obtain ⟨number, hnumber, hfragment⟩ := hfirst hown
      have hbyte : addition.fragment.number.toNat = number := by
        rw [hfragment]
        exact number_partFragment hwhole.short hnumber
      have hresult := hfollows.result hwhole hnumber hfragment
      have hnumbers : numbers messageID (addition :: rest) = number :: numbers messageID rest := by
        simp [numbers, hown, hbyte]
      rw [if_pos hown, hbyte, Collector.completed_step] at hcount
      rw [hnumbers, run_cons, ← hcount]
      by_cases hfull : insert number collector.held = Finset.range datas.length
      · have hreturned : returned messageID reasm (addition :: rest) =
            datas.flatten :: returned messageID (reasm.step addition) rest := by
          simp [returned, hown, hresult, hfull]
        rw [hreturned, if_pos hfull, length_cons]
        exact ⟨by omega, forall_mem_cons.mpr ⟨rfl, hsame⟩⟩
      · have hreturned : returned messageID reasm (addition :: rest) =
            returned messageID (reasm.step addition) rest := by
          simp [returned, hown, hresult, hfull]
        rw [hreturned, if_neg hfull]
        exact ⟨rfl, hsame⟩
    · rw [if_neg hown] at hcount
      have hreturned : returned messageID reasm (addition :: rest) =
          returned messageID (reasm.step addition) rest := by
        simp [returned, hown]
      have hnumbers : numbers messageID (addition :: rest) = numbers messageID rest := by
        simp [numbers, hown]
      rw [hreturned, hnumbers]
      exact ⟨hcount, hsame⟩

end Own

/-- For every run of a new reassembler. A message whose fragments arrive among
those of any others, at most `maxEntries` live at once, is returned exactly when
the last of its fragments missing since it was last returned arrives; if they
are complete once, it is returned once. After any fragments at all, one that
conflicts with what is held of its message drops this message and no other. -/
theorem add_reassembles (maxEntries maxMessage : Nat) (additions : List Addition) :
    (∀ (messageID : UInt32) (datas : List Bytes),
      Whole (new maxEntries maxMessage).maxMessage datas →
      (∀ addition ∈ additions, Genuine messageID datas addition) →
      Along step HasRoom (new maxEntries maxMessage) additions →
        (∀ earlier addition later number, additions = earlier ++ addition :: later →
          number < datas.length → addition.fragment = partFragment messageID datas number →
            (run step (new maxEntries maxMessage) earlier).result addition =
              .ok (if insert number (gathered messageID datas.length earlier).held =
                  Finset.range datas.length then some datas.flatten else none)) ∧
        (Collector.CompleteOnce (Finset.range datas.length) (numbers messageID additions) →
          returned messageID (new maxEntries maxMessage) additions = [datas.flatten])) ∧
      ∀ (addition : Addition) (entry : Partial), addition.fragment.Proper →
        (run step (new maxEntries maxMessage) additions).entries.lookup
          addition.fragment.messageID = some entry →
        entry.Conflicts addition.fragment →
          (∃ error, (run step (new maxEntries maxMessage) additions).result addition =
            .error error) ∧
          (run step (new maxEntries maxMessage) (additions ++ [addition])).entries.lookup
            addition.fragment.messageID = none ∧
          ∀ other ≠ addition.fragment.messageID,
            (run step (new maxEntries maxMessage) (additions ++ [addition])).entries.lookup other =
              (run step (new maxEntries maxMessage) additions).entries.lookup other := by
  refine ⟨fun messageID datas hwhole hgenuine hroom => ⟨?_, ?_⟩, ?_⟩
  · rintro earlier addition later number rfl hnumber hfragment
    have hnew : Follows messageID datas _ _ _ := follows_new _ _ hwhole
    have hearlier := follows_run hnew hwhole (fun other hmem => hgenuine _ (mem_append_left _ hmem))
      ((along_append ..).mp hroom).1
    exact hearlier.result hwhole hnumber hfragment
  · intro honce
    obtain ⟨hcount, hsame⟩ := returned_of_follows (follows_new _ _ hwhole) hwhole hgenuine hroom
    have hinside : ∀ number ∈ numbers messageID additions,
        number ∈ Finset.range datas.length := by
      intro number hmem
      obtain ⟨addition, haddition, hnumber⟩ := mem_filterMap.mp hmem
      split at hnumber
      next hown =>
        obtain ⟨found, hfound, hfragment⟩ := hgenuine _ haddition hown
        obtain rfl := some.inj hnumber
        rw [hfragment, number_partFragment hwhole.short hfound]
        exact Finset.mem_range.mpr hfound
      · cases hnumber
    rw [Collector.completed_of_completeOnce hinside honce] at hcount
    obtain ⟨message, hreturned⟩ := length_eq_one_iff.mp
      (show (returned messageID (new maxEntries maxMessage) additions).length = 1 by
        rw [← hcount]
        exact (Nat.zero_add _).symm)
    rw [hreturned] at hsame ⊢
    rw [hsame _ (mem_singleton_self _)]
  · intro addition entry hproper hlookup hconflicts
    have hsound := run_preserves (I := Sound) (fun _ addition hsound => hsound.step addition)
      (sound_new maxEntries maxMessage) additions
    obtain ⟨hstep, hresult⟩ := step_of_conflicts hsound hproper hlookup hconflicts
    rw [run_append, run_cons, run_nil, hstep]
    exact ⟨hresult, AList.lookup_erase _ _, fun other hne => AList.lookup_erase_ne hne⟩

def twoMessages (messageID : UInt32) : List Bytes :=
  if messageID = 3 then [[1, 2], [3], [4]] else [[7], [8]]

/-- Their fragments, out of order and with duplicates; the message 9 is complete
before the message 3, and starts again. -/
def mixedArrivals : List (UInt32 × Nat) := [(3, 2), (9, 1), (3, 2), (3, 0), (9, 0), (3, 1), (9, 1)]

def mixedAdditions : List Addition :=
  mixedArrivals.map fun arrival => ⟨partFragment arrival.1 (twoMessages arrival.1) arrival.2, 0⟩

theorem add_reassembles_two_messages :
    returned 3 (new 2 0) mixedAdditions = [[1, 2, 3, 4]] ∧
      (run step (new 2 0) (mixedAdditions ++ [⟨⟨9, 1, true, [6]⟩, 0⟩])).entries.lookup 9 = none := by
  obtain ⟨hmessages, hconflicts⟩ := add_reassembles 2 0 _
  have hgenuine : ∀ addition ∈ mixedAdditions, Genuine 3 (twoMessages 3) addition := by
    intro addition hmem hown
    have hnumbers : ∀ arrival ∈ mixedArrivals, arrival.2 < (twoMessages arrival.1).length := by
      decide
    obtain ⟨⟨messageID, number⟩, harrival, rfl⟩ := mem_map.mp hmem
    obtain rfl := hown
    exact ⟨number, hnumbers _ harrival, rfl⟩
  obtain ⟨entry, hentry⟩ : ∃ entry,
      (run step (new 2 0) mixedAdditions).entries.lookup 9 = some entry :=
    isSome_iff_exists.mp (by decide +kernel)
  refine ⟨(hmessages 3 _ (by decide) hgenuine (by decide +kernel)).2 ?_, ?_⟩
  · exact ⟨[2, 2, 0], 1, [], by decide +kernel, by decide, by decide, by decide, 0, by decide,
      by decide⟩
  · have hheld : (((run step (new 2 0) mixedAdditions).entries.lookup 9).bind fun entry =>
        entry.held 1) = some ([8], true) := by
      decide +kernel
    rw [hentry] at hheld
    exact (hconflicts ⟨⟨9, 1, true, [6]⟩, 0⟩ _ (by decide) hentry (.differs hheld (by decide))).2.1

/-- A returned message is forgotten, so its only fragment returns it again; and a
fragment with a number above 63 is refused without a trace. -/
theorem returned_twice_and_refused_apart :
    returned 3 (new 0 0) [⟨⟨3, 0, true, [1]⟩, 0⟩, ⟨⟨3, 0, true, [1]⟩, 0⟩] = [[1], [1]] ∧
      ((run step (new 0 0) [⟨⟨3, 1, true, [1]⟩, 0⟩]).entries.lookup 3).any
        (fun entry => entry.held 1 = some ([1], true)) ∧
      (run step (new 0 0) [⟨⟨3, 1, true, [1]⟩, 0⟩, ⟨⟨3, 64, false, [1]⟩, 0⟩]).entries.lookup 3 ≠
        none := by
  refine ⟨by decide +kernel, by decide +kernel, ?_⟩
  rw [← isSome_iff_ne_none]
  decide +kernel

end Reassembler

end Ivnp.Tunnel
