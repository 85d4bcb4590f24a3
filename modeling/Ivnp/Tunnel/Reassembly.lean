import Ivnp.Lib.Chunks
import Ivnp.Lib.Collect
import Ivnp.Tunnel.Endpoint

/-!
The reassembler as a collector. A partial message of which the parts `held`
have arrived stores exactly these parts, and `Add` does with a part what a
collector does with its number: it is ignored if it is held, kept if others are
missing, and otherwise the message is complete and its entry gone.
-/

namespace Ivnp.Tunnel

open Ivnp.Lib List

def partFragment (messageID : UInt32) (datas : List Bytes) (number : Nat) : Fragment :=
  ⟨messageID, UInt8.ofNat number, decide (number + 1 = datas.length), datas.getD number []⟩

def Partial.accept (entry : Partial) (fragment : Fragment) : Partial :=
  if fragment.last then
    { entry.store fragment with last := fragment.number, hasLast := true }
  else entry.store fragment

structure Assembles (datas : List Bytes) (entry : Partial) (held : Finset Nat) : Prop where
  seen : ∀ number < 64, entry.seen.getLsbD number = decide (number ∈ held)
  terminal : ∀ number < 64,
    entry.terminal.getLsbD number = decide (number ∈ held ∧ number + 1 = datas.length)
  parts : ∀ number ∈ held, entry.parts number = datas.getD number []
  hasLast : entry.hasLast = decide (datas.length - 1 ∈ held)
  last : datas.length - 1 ∈ held → entry.last.toNat + 1 = datas.length
  size : entry.size = ∑ number ∈ held, (datas.getD number []).length

theorem assembles_new (datas : List Bytes) (created : UInt64) :
    Assembles datas (Partial.new created) ∅ := by
  constructor <;> simp [Partial.new]

theorem bit_eq_twoPow (fragment : Fragment) :
    Partial.bit fragment = BitVec.twoPow 64 fragment.number.toNat :=
  (BitVec.twoPow_eq ..).symm

theorem and_bit_ne_zero (bits : BitVec 64) {fragment : Fragment} (h : fragment.number.toNat < 64) :
    bits &&& Partial.bit fragment ≠ 0 ↔ bits.getLsbD fragment.number.toNat = true := by
  have hne : BitVec.twoPow 64 fragment.number.toNat ≠ 0#64 := by
    intro hzero
    have hbit := congrArg (BitVec.getLsbD · fragment.number.toNat) hzero
    simp [h] at hbit
  rw [bit_eq_twoPow, BitVec.and_twoPow]
  cases bits.getLsbD fragment.number.toNat <;> simp [hne]

theorem getLsbD_or_bit (bits : BitVec 64) {fragment : Fragment} (h : fragment.number.toNat < 64)
    (number : Nat) :
    (bits ||| Partial.bit fragment).getLsbD number =
      (bits.getLsbD number || decide (number = fragment.number.toNat)) := by
  rw [bit_eq_twoPow]
  simp [h, eq_comm]

theorem and_requiredMask_iff (entry : Partial) (h : entry.last.toNat < 64) :
    entry.seen &&& entry.requiredMask = entry.requiredMask ↔
      ∀ number ≤ entry.last.toNat, entry.seen.getLsbD number = true := by
  have hmask (number : Nat) :
      entry.requiredMask.getLsbD number = decide (number ≤ entry.last.toNat) := by
    rw [Partial.requiredMask, BitVec.getLsbD_ushiftRight, BitVec.getLsbD_allOnes]
    congr 1
    rw [eq_iff_iff]
    omega
  constructor
  · intro heq number hle
    have hbit := congrArg (BitVec.getLsbD · number) heq
    simpa [hmask, hle] using hbit
  · intro hall
    apply BitVec.eq_of_getLsbD_eq
    intro number _
    rw [BitVec.getLsbD_and, hmask]
    rcases Nat.lt_or_ge entry.last.toNat number with hlt | hle
    · simp [hlt]
    · simp [hle, hall _ hle]

section Parts

variable {datas : List Bytes} {entry : Partial} {held : Finset Nat} {messageID : UInt32}

theorem map_getD_range (datas : List Bytes) :
    (List.range datas.length).map (fun number => datas.getD number []) = datas := by
  apply ext_getElem
  · simp
  · intro index h₁ h₂
    simp [h₂]

variable (hshort : datas.length ≤ 64) (hentry : Assembles datas entry held)
include hshort hentry

theorem complete_iff (hheld : held ⊆ Finset.range datas.length) (hpos : 0 < datas.length) :
    entry.complete = true ↔ held = Finset.range datas.length := by
  rw [Partial.complete, decide_eq_true_eq, hentry.hasLast, decide_eq_true_eq]
  constructor
  · rintro ⟨hlast, hmask⟩
    have hend := hentry.last hlast
    refine hheld.antisymm fun number hnumber => ?_
    rw [Finset.mem_range] at hnumber
    have hseen := (and_requiredMask_iff _ (by omega)).mp hmask number (by omega)
    rwa [hentry.seen _ (by omega), decide_eq_true_eq] at hseen
  · rintro rfl
    have hlast : datas.length - 1 ∈ Finset.range datas.length := Finset.mem_range.mpr (by omega)
    have hend := hentry.last hlast
    refine ⟨hlast, (and_requiredMask_iff _ (by omega)).mpr fun number hle => ?_⟩
    rw [hentry.seen _ (by omega), decide_eq_true_eq]
    exact Finset.mem_range.mpr (by omega)

omit hshort in
theorem message_eq (hheld : held = Finset.range datas.length) (hpos : 0 < datas.length) :
    entry.message = datas.flatten := by
  subst hheld
  have hend := hentry.last (Finset.mem_range.mpr (by omega))
  have hparts : (range datas.length).map entry.parts = datas :=
    (map_congr_left fun number hmem =>
      hentry.parts number (Finset.mem_range.mpr (mem_range.mp hmem))).trans
      (map_getD_range datas)
  rw [Partial.message, hend, flatMap_def, hparts]

section Store

variable {number : Nat} (hnumber : number < datas.length)
include hnumber

omit hentry in
theorem number_partFragment :
    (partFragment messageID datas number).number.toNat = number :=
  UInt8.toNat_ofNat_of_lt' (show number < 256 by omega)

variable (messageID) in
theorem accept_assembles (hnew : number ∉ held) :
    Assembles datas (entry.accept (partFragment messageID datas number)) (insert number held) := by
  have hbyte := @number_partFragment datas messageID hshort number hnumber
  have hseen (other : Nat) (h : other < 64) :
      (entry.seen ||| Partial.bit (partFragment messageID datas number)).getLsbD other =
        decide (other ∈ insert number held) := by
    rw [getLsbD_or_bit _ (by omega), hentry.seen other h, hbyte]
    simp [Bool.or_comm]
  have hparts (other : Nat) (h : other ∈ insert number held) :
      Function.update entry.parts (partFragment messageID datas number).number.toNat
        (partFragment messageID datas number).data other = datas.getD other [] := by
    rw [hbyte]
    rcases eq_or_ne other number with rfl | hne
    · rw [Function.update_self]
      rfl
    · rw [Function.update_of_ne hne]
      exact hentry.parts other (Finset.mem_of_mem_insert_of_ne h hne)
  have hsum : entry.size + (partFragment messageID datas number).data.length =
      ∑ other ∈ insert number held, (datas.getD other []).length := by
    rw [Finset.sum_insert hnew, hentry.size, Nat.add_comm]
    rfl
  rw [Partial.accept]
  split
  next hlast =>
    have hend : number + 1 = datas.length := of_decide_eq_true hlast
    have hmem : datas.length - 1 ∈ insert number held := by
      rw [← hend]
      exact Finset.mem_insert_self _ _
    refine ⟨hseen, ?_, hparts, ?_, fun _ => ?_, hsum⟩
    · intro other h
      simp only [Partial.store, hlast, if_true]
      rw [getLsbD_or_bit _ (by omega), hentry.terminal other h, hbyte, ← Bool.decide_or,
        decide_eq_decide, Finset.mem_insert]
      constructor
      · rintro (⟨hold, hat⟩ | rfl)
        · exact ⟨Or.inr hold, hat⟩
        · exact ⟨Or.inl rfl, hend⟩
      · rintro ⟨rfl | hold, hat⟩
        · exact Or.inr rfl
        · exact Or.inl ⟨hold, hat⟩
    · exact (decide_eq_true hmem).symm
    · exact (congrArg (· + 1) hbyte).trans hend
  next hlast =>
    have hend : number + 1 ≠ datas.length := of_decide_eq_false (Bool.not_eq_true _ ▸ hlast)
    have hmem : datas.length - 1 ∈ insert number held ↔ datas.length - 1 ∈ held := by
      rw [Finset.mem_insert, or_iff_right (by omega)]
    refine ⟨hseen, ?_, hparts, ?_, fun h => hentry.last (hmem.mp h), hsum⟩
    · intro other h
      have hsame : (entry.store (partFragment messageID datas number)).terminal = entry.terminal :=
        if_neg hlast
      rw [hsame, hentry.terminal other h, decide_eq_decide, Finset.mem_insert]
      constructor
      · exact fun ⟨hold, hat⟩ => ⟨Or.inr hold, hat⟩
      · rintro ⟨rfl | hold, hat⟩
        · exact absurd hat hend
        · exact ⟨hold, hat⟩
    · exact hentry.hasLast.trans (decide_eq_decide.mpr hmem.symm)

theorem number_le_last :
    ¬ (entry.hasLast = true ∧ (partFragment messageID datas number).number > entry.last) := by
  rintro ⟨hlast, hafter⟩
  rw [hentry.hasLast, decide_eq_true_eq] at hlast
  have hend := hentry.last hlast
  rw [gt_iff_lt, UInt8.lt_iff_toNat_lt, number_partFragment hshort hnumber] at hafter
  omega

theorem addTo_of_mem (reasm : Reassembler) (hmem : number ∈ held) :
    reasm.addTo entry (partFragment messageID datas number) = (reasm, .ok none) := by
  have hbyte := @number_partFragment datas messageID hshort number hnumber
  have hseen : entry.seen &&& Partial.bit (partFragment messageID datas number) ≠ 0 := by
    rw [and_bit_ne_zero _ (by omega), hbyte, hentry.seen number (by omega)]
    exact decide_eq_true hmem
  have hterminal :
      decide (entry.terminal &&& Partial.bit (partFragment messageID datas number) ≠ 0) =
        (partFragment messageID datas number).last := by
    refine decide_eq_decide.mpr ?_
    rw [and_bit_ne_zero _ (by omega), hbyte, hentry.terminal _ (by omega), decide_eq_true_eq]
    exact and_iff_right hmem
  have hdata : entry.parts (partFragment messageID datas number).number.toNat =
      (partFragment messageID datas number).data := by
    rw [hbyte]
    exact hentry.parts _ hmem
  rw [Reassembler.addTo]
  rw [if_neg (number_le_last hshort hentry hnumber), if_pos hseen,
    if_neg (not_or.mpr ⟨not_not.mpr hterminal, not_not.mpr hdata⟩)]

theorem store_seen_shift (hheld : held ⊆ Finset.range datas.length)
    (hend : number + 1 = datas.length) :
    (entry.store (partFragment messageID datas number)).seen >>>
      ((partFragment messageID datas number).number.toNat + 1) = 0 := by
  have hbyte := @number_partFragment datas messageID hshort number hnumber
  apply BitVec.eq_of_getLsbD_eq
  intro other hother
  rw [BitVec.getLsbD_ushiftRight, hbyte, Partial.store, getLsbD_or_bit _ (by omega)]
  rcases Nat.lt_or_ge (number + 1 + other) 64 with hlt | hge
  · have hbeyond : number + 1 + other ∉ held := fun hmem => by
      have := Finset.mem_range.mp (hheld hmem)
      omega
    rw [hentry.seen _ hlt, decide_eq_false hbeyond, decide_eq_false (by omega)]
    simp
  · rw [BitVec.getLsbD_of_ge _ _ hge, decide_eq_false (by omega)]
    simp

theorem addTo_of_notMem {reasm : Reassembler} (hnew : number ∉ held)
    (hheld : held ⊆ Finset.range datas.length) (hsize : datas.flatten.length ≤ reasm.maxMessage) :
    reasm.addTo entry (partFragment messageID datas number) =
      reasm.finish messageID (entry.accept (partFragment messageID datas number)) := by
  have hbyte := @number_partFragment datas messageID hshort number hnumber
  have hseen : ¬ entry.seen &&& Partial.bit (partFragment messageID datas number) ≠ 0 := by
    rw [and_bit_ne_zero _ (by omega), hbyte, hentry.seen _ (by omega), decide_eq_true_eq]
    exact hnew
  have hroom : ¬ entry.size + (partFragment messageID datas number).data.length >
      reasm.maxMessage := by
    have hsum : entry.size + (datas.getD number []).length ≤ datas.flatten.length := by
      rw [hentry.size, ← sum_length_getD, Nat.add_comm,
        ← Finset.sum_insert (f := fun other => (datas.getD other []).length) hnew]
      refine Finset.sum_le_sum_of_subset (Finset.insert_subset ?_ hheld)
      exact Finset.mem_range.mpr hnumber
    exact not_lt_of_ge (hsum.trans hsize)
  rw [Reassembler.addTo]
  rw [if_neg (number_le_last hshort hentry hnumber), if_neg hseen, if_neg hroom, Partial.accept]
  split
  next hlast =>
    have hend := of_decide_eq_true hlast
    have hfirst : ¬ (entry.hasLast = true ∧
        entry.last ≠ (partFragment messageID datas number).number) := by
      rintro ⟨hhas, -⟩
      rw [hentry.hasLast, decide_eq_true_eq, ← hend] at hhas
      exact hnew hhas
    rw [if_neg hfirst, if_neg (not_not.mpr (store_seen_shift hshort hentry hnumber hheld hend))]
    rfl
  · rfl

variable (messageID) in
/-- `Add` on the entry of the message does what the collector does. -/
theorem addTo_assembles {reasm : Reassembler} (hheld : held ⊂ Finset.range datas.length)
    (hsize : datas.flatten.length ≤ reasm.maxMessage) :
    (number ∈ held ∧
        reasm.addTo entry (partFragment messageID datas number) = (reasm, .ok none)) ∨
      (insert number held = Finset.range datas.length ∧
        reasm.addTo entry (partFragment messageID datas number) =
          (reasm.remove messageID, .ok (some datas.flatten))) ∨
      (number ∉ held ∧ insert number held ≠ Finset.range datas.length ∧
        ∃ next, Assembles datas next (insert number held) ∧
          reasm.addTo entry (partFragment messageID datas number) =
            ({ reasm with entries := reasm.entries.insert messageID next }, .ok none)) := by
  by_cases hmem : number ∈ held
  · exact Or.inl ⟨hmem, addTo_of_mem hshort hentry hnumber reasm hmem⟩
  have hnext := accept_assembles messageID hshort hentry hnumber hmem
  have hinsert : insert number held ⊆ Finset.range datas.length :=
    Finset.insert_subset (Finset.mem_range.mpr hnumber) hheld.1
  have hcomplete := complete_iff hshort hnext hinsert (by omega)
  rw [addTo_of_notMem hshort hentry hnumber hmem hheld.1 hsize, Reassembler.finish]
  by_cases hfull : insert number held = Finset.range datas.length
  · rw [if_pos (hcomplete.mpr hfull), message_eq hnext hfull (by omega)]
    exact Or.inr (Or.inl ⟨hfull, rfl⟩)
  · rw [if_neg (mt hcomplete.mp hfull)]
    exact Or.inr (Or.inr ⟨hmem, hfull, _, hnext, rfl⟩)

end Store

end Parts

section Tables

namespace Reassembler

/-- Everything but the entry of one message is as it was. -/
structure Frame (messageID : UInt32) (reasm next : Reassembler) : Prop where
  lookup : ∀ other ≠ messageID, next.entries.lookup other = reasm.entries.lookup other
  maxEntries : next.maxEntries = reasm.maxEntries
  maxMessage : next.maxMessage = reasm.maxMessage

variable (messageID : UInt32)

theorem Frame.refl (reasm : Reassembler) : Frame messageID reasm reasm := ⟨fun _ _ => rfl, rfl, rfl⟩

theorem Frame.trans {messageID : UInt32} {first second third : Reassembler}
    (h₁ : Frame messageID first second) (h₂ : Frame messageID second third) :
    Frame messageID first third :=
  ⟨fun other hne => (h₂.lookup _ hne).trans (h₁.lookup other hne),
    h₂.maxEntries.trans h₁.maxEntries, h₂.maxMessage.trans h₁.maxMessage⟩

theorem frame_remove (reasm : Reassembler) : Frame messageID reasm (reasm.remove messageID) :=
  ⟨fun _ hne => AList.lookup_erase_ne hne, rfl, rfl⟩

theorem frame_insert (reasm : Reassembler) (entry : Partial) :
    Frame messageID reasm { reasm with entries := reasm.entries.insert messageID entry } :=
  ⟨fun _ hne => AList.lookup_insert_ne hne, rfl, rfl⟩

theorem addTo_frame (reasm : Reassembler) (entry : Partial) (fragment : Fragment) :
    Frame fragment.messageID reasm (reasm.addTo entry fragment).1 := by
  have hfinish (next : Partial) :
      Frame fragment.messageID reasm (reasm.finish fragment.messageID next).1 := by
    rw [finish]
    split
    · exact frame_remove _ _
    · exact frame_insert _ _ _
  rw [addTo]
  dsimp only
  split_ifs <;> first | exact frame_remove _ _ | exact Frame.refl _ _ | exact hfinish _

/-- `Add` of a fragment for which there is room touches no other message. -/
theorem add_frame (reasm : Reassembler) (fragment : Fragment) (nowMillis : UInt64)
    (hroom : fragment.messageID ∈ reasm.entries ∨
      reasm.entries.entries.length ≠ reasm.maxEntries) :
    Frame fragment.messageID reasm (reasm.add fragment nowMillis).1 := by
  rw [add]
  split
  · exact Frame.refl _ _
  split
  · exact addTo_frame _ _ _
  next hlookup =>
  have hfull := hroom.resolve_left (AList.lookup_eq_none.mp hlookup)
  have hinsert : Frame fragment.messageID reasm
      (reasm.insertNew fragment.messageID nowMillis) := by
    rw [insertNew, if_neg hfull]
    exact frame_insert _ _ _
  exact hinsert.trans (addTo_frame _ _ _)

end Reassembler

/-- What the table says about a message of which the parts `held` are there. -/
def Collects (datas : List Bytes) (found : Option Partial) (held : Finset Nat) : Prop :=
  found = none ∧ held = ∅ ∨ ∃ entry, found = some entry ∧ Assembles datas entry held

section Add

variable {datas : List Bytes} {held : Finset Nat} {messageID : UInt32} {number : Nat}
  {reasm : Reassembler} (nowMillis : UInt64) (hshort : datas.length ≤ 64)
  (hnumber : number < datas.length)
  (hcollects : Collects datas (reasm.entries.lookup messageID) held)
include hshort hnumber hcollects

theorem add_eq_addTo (hparts : ∀ part ∈ datas, part ≠ []) :
    ∃ (base : Reassembler) (entry : Partial),
      reasm.add (partFragment messageID datas number) nowMillis =
        base.addTo entry (partFragment messageID datas number) ∧
      base.entries.lookup messageID = some entry ∧ Assembles datas entry held ∧
      base.maxMessage = reasm.maxMessage := by
  have hbyte := @number_partFragment datas messageID hshort number hnumber
  have hvalid : ¬ ((partFragment messageID datas number).data.length = 0 ∨
      (partFragment messageID datas number).number > 63) := by
    rw [not_or, length_eq_zero_iff, gt_iff_lt, UInt8.lt_iff_toNat_lt]
    refine ⟨?_, Nat.not_lt.mpr (by simp only [UInt8.reduceToNat]; omega)⟩
    rw [partFragment, getD_eq_getElem?_getD, getElem?_eq_getElem hnumber]
    exact hparts _ (getElem_mem _)
  rw [Reassembler.add, if_neg hvalid]
  rcases hcollects with ⟨hnone, rfl⟩ | ⟨entry, hsome, hentry⟩
  · refine ⟨reasm.insertNew messageID nowMillis, Partial.new nowMillis, ?_,
      AList.lookup_insert _, assembles_new _ _, ?_⟩
    · rw [show (partFragment messageID datas number).messageID = messageID from rfl, hnone]
    · rw [Reassembler.insertNew]
      split <;> rfl
  · refine ⟨reasm, entry, ?_, hsome, hentry, rfl⟩
    rw [show (partFragment messageID datas number).messageID = messageID from rfl, hsome]

/-- `Add` of one part does what a collector does with its number. -/
theorem add_collects (hparts : ∀ part ∈ datas, part ≠ [])
    (hheld : held ⊂ Finset.range datas.length) (hsize : datas.flatten.length ≤ reasm.maxMessage) :
    (reasm.add (partFragment messageID datas number) nowMillis).2 =
        .ok (if insert number held = Finset.range datas.length then some datas.flatten else none) ∧
      Collects datas
        ((reasm.add (partFragment messageID datas number) nowMillis).1.entries.lookup messageID)
        (if insert number held = Finset.range datas.length then ∅ else insert number held) := by
  obtain ⟨base, entry, hadd, hlookup, hentry, hmax⟩ :=
    add_eq_addTo _ hshort hnumber hcollects hparts
  rw [hadd]
  rcases addTo_assembles messageID hshort hentry hnumber hheld (hmax ▸ hsize) with
    ⟨hmem, haddTo⟩ | ⟨hfull, haddTo⟩ | ⟨-, hmissing, next, hnext, haddTo⟩
  · rw [haddTo, Finset.insert_eq_self.mpr hmem, if_neg hheld.ne, if_neg hheld.ne]
    exact ⟨rfl, Or.inr ⟨entry, hlookup, hentry⟩⟩
  · rw [haddTo, if_pos hfull, if_pos hfull]
    exact ⟨rfl, Or.inl ⟨AList.lookup_erase _ _, rfl⟩⟩
  · rw [haddTo, if_neg hmissing, if_neg hmissing]
    exact ⟨rfl, Or.inr ⟨next, AList.lookup_insert _, hnext⟩⟩

end Add

end Tables

end Ivnp.Tunnel
