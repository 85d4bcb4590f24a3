import Ivnp.Lib.Collect
import Ivnp.Ssu2.FragmentFrames

/-!
The assembly of a message as a collector of its pieces: a piece that is held is ignored,
a new one is kept, and with the last missing one the message is complete and its assembly
gone. Fragments of other messages do not touch it.
-/

namespace Ivnp.Ssu2

open Ivnp.Lib Ivnp.Foundation List AList Finset UInt8

structure Assembles (header : I2NPHeader) (parts : List Bytes) (assembly : FragmentAssembly)
    (held : Finset Nat) : Prop where
  first : assembly.first = if 0 ∈ held then some (parts.getD 0 []) else none
  header : 0 ∈ held → assembly.header = header
  following : ∀ number : UInt8, assembly.following.lookup number =
    if 0 < number.toNat ∧ number.toNat ∈ held then some (parts.getD number.toNat []) else none
  last : assembly.last.toNat = if parts.length - 1 ∈ held then parts.length - 1 else 0
  size : assembly.size = ∑ number ∈ held, (parts.getD number []).length

theorem assembles_new (header initial : I2NPHeader) (parts : List Bytes) :
    Assembles header parts (.new initial) ∅ := by
  refine ⟨rfl, nofun, fun number => ?_, rfl, rfl⟩
  rw [if_neg fun h => Finset.notMem_empty _ h.2]
  rfl

section Own

variable {header : I2NPHeader} {seconds : UInt32} {parts : List Bytes} {fragments : Fragments}
  {held : Finset Nat} {assembly : FragmentAssembly} {number : Nat}

/-- What the session holds of the message. -/
def Tracks (header : I2NPHeader) (parts : List Bytes) (fragments : Fragments)
    (held : Finset Nat) : Prop :=
  match fragments.lookup header.id with
  | none => held = ∅
  | some assembly => Assembles header parts assembly held

/-- A message that is sent in these pieces. -/
structure Cut (parts : List Bytes) : Prop where
  many : 2 ≤ parts.length
  few : parts.length ≤ 128
  full : ∀ number < parts.length, 0 < (parts.getD number []).length
  total : parts.flatten.length ≤ i2npMaxPayload

/-- The number of a piece fits its byte. -/
theorem Cut.toNat_ofNat (hcut : Cut parts) (hnumber : number < parts.length) :
    (UInt8.ofNat number).toNat = number :=
  toNat_ofNat_of_lt' (show number < 256 by have := hcut.few; omega)

theorem mem_insert_iff_of_ne {other : Nat} (hne : other ≠ number) :
    other ∈ insert number held ↔ other ∈ held := by
  rw [Finset.mem_insert, or_iff_right hne]

theorem Assembles.addFirst (h : Assembles header parts assembly held) (hnew : 0 ∉ held)
    (hcut : Cut parts) :
    Assembles header parts { assembly with
      first := some (parts.getD 0 []), header, size := assembly.size + (parts.getD 0 []).length }
      (insert 0 held) where
  first := (if_pos (Finset.mem_insert_self 0 held)).symm
  header := fun _ => rfl
  following := by
    intro number
    rw [h.following]
    exact if_congr (and_congr_right fun hpos => (mem_insert_iff_of_ne hpos.ne').symm) rfl rfl
  last := by
    have hmany := hcut.many
    rw [h.last]
    exact if_congr (mem_insert_iff_of_ne (by omega)).symm rfl rfl
  size := by
    rw [sum_insert hnew, ← h.size]
    exact Nat.add_comm _ _

theorem Assembles.addFollowing (h : Assembles header parts assembly held) (hnew : number ∉ held)
    (hpos : 0 < number) (hnumber : number < parts.length) (hcut : Cut parts) :
    Assembles header parts { assembly with
      following := assembly.following.insert (UInt8.ofNat number) (parts.getD number [])
      size := assembly.size + (parts.getD number []).length
      last := if number + 1 = parts.length then UInt8.ofNat number else assembly.last }
      (insert number held) := by
  have hbyte := hcut.toNat_ofNat hnumber
  refine ⟨?_, ?_, ?_, ?_, ?_⟩
  · rw [h.first]
    exact if_congr (mem_insert_iff_of_ne (by omega)).symm rfl rfl
  · exact fun hmem => h.header ((mem_insert_iff_of_ne (by omega)).mp hmem)
  · intro other
    by_cases hother : other = UInt8.ofNat number
    · subst hother
      rw [lookup_insert, hbyte, if_pos ⟨hpos, mem_insert_self _ _⟩]
    rw [lookup_insert_ne hother, h.following other]
    have hne : other.toNat ≠ number := by
      intro heq
      apply hother
      rw [← heq, UInt8.ofNat_toNat]
    exact if_congr (and_congr_right fun _ => (mem_insert_iff_of_ne hne).symm) rfl rfl
  · by_cases hlast : number + 1 = parts.length
    · have hend : parts.length - 1 = number := by omega
      rw [hend, if_pos (mem_insert_self _ _)]
      rw [if_pos hlast, hbyte]
    · rw [if_neg hlast, h.last]
      exact if_congr (mem_insert_iff_of_ne (by omega)).symm rfl rfl
  · rw [sum_insert hnew, ← h.size]
    exact Nat.add_comm _ _

theorem placeFirst_own (hcut : Cut parts)
    (htracks : Tracks ⟨header.type, header.id, decodeTransportExpiration seconds⟩ parts fragments held)
    (hroom : fragments.lookup header.id = none →
      fragments.entries.length < ssu2MaxFragmentedMessages) :
    ∃ assembly, placeFirst fragments
        (transportHeader header.type header.id seconds ++ parts.getD 0 []) =
          .ok (header.id, assembly) ∧
      Assembles ⟨header.type, header.id, decodeTransportExpiration seconds⟩ parts assembly
        (insert 0 held) := by
  have hfull := hcut.full 0 (by have hmany := hcut.many; omega)
  have hlength : ¬(transportHeader header.type header.id seconds ++ parts.getD 0 []).length =
      i2npTransportHeaderLen := by
    rw [length_append, length_transportHeader]
    omega
  have hbody : (transportHeader header.type header.id seconds ++ parts.getD 0 []).drop
      i2npTransportHeaderLen = parts.getD 0 [] :=
    drop_left' (length_transportHeader _ _ _)
  rw [placeFirst, parseTransportHeader_append]
  dsimp only
  rw [if_neg hlength, hbody]
  unfold Tracks at htracks
  cases hlookup : fragments.lookup header.id with
  | none =>
    rw [hlookup] at htracks
    rw [if_neg (Nat.not_le.mpr (hroom hlookup))]
    subst htracks
    exact ⟨_, rfl, (assembles_new _ _ parts).addFirst (Finset.notMem_empty 0) hcut⟩
  | some assembly =>
    dsimp only at htracks ⊢
    rw [hlookup] at htracks
    by_cases hheld : 0 ∈ held
    · have hfirst := htracks.first
      rw [if_pos hheld] at hfirst
      have hsame : ¬(assembly.first.isSome ∧
          (assembly.header ≠ ⟨header.type, header.id, decodeTransportExpiration seconds⟩ ∨
            assembly.first ≠ some (parts.getD 0 []))) :=
        fun h => h.2.elim (fun hne => hne (htracks.header hheld)) (fun hne => hne hfirst)
      rw [if_neg hsame, hfirst, Finset.insert_eq_of_mem hheld]
      exact ⟨assembly, rfl, htracks⟩
    · have hfirst := htracks.first
      rw [if_neg hheld] at hfirst
      rw [hfirst]
      exact ⟨_, rfl, htracks.addFirst hheld hcut⟩

def followOnFlag (number : Nat) (last : Bool) : UInt8 :=
  if last then UInt8.ofNat number <<< 1 ||| 1 else UInt8.ofNat number <<< 1

theorem followOnFlag_shift {number : Nat} (hnumber : number < 128) (last : Bool) :
    followOnFlag number last >>> 1 = UInt8.ofNat number :=
  (flag_bits ⟨number, hnumber⟩ _).1

theorem ofNat_ne_zero {number : Nat} (hpos : 0 < number) (hnumber : number < 256) :
    UInt8.ofNat number ≠ 0 := by
  intro heq
  have hvalue := congrArg toNat heq
  rw [toNat_ofNat_of_lt' hnumber] at hvalue
  change number = 0 at hvalue
  omega

theorem addFollowOn_own (h : Assembles header parts assembly held) (hcut : Cut parts)
    (hpos : 0 < number) (hnumber : number < parts.length) :
    ∃ added, addFollowOn fragments header.id (followOnFlag number (number + 1 = parts.length))
        (parts.getD number []) assembly = .ok (header.id, added) ∧
      Assembles header parts added (insert number held) := by
  have hfew := hcut.few
  have hbyte := hcut.toNat_ofNat hnumber
  obtain ⟨hshift, hflag⟩ := flag_bits ⟨number, by omega⟩ (number + 1 = parts.length)
  replace hflag := hflag.trans decide_eq_true_iff
  have hlookup := h.following (UInt8.ofNat number)
  have hlast (hend : number + 1 = parts.length) :
      assembly.last.toNat = if number ∈ held then number else 0 := by
    rw [h.last, show parts.length - 1 = number by omega]
  rw [addFollowOn, followOnFlag]
  by_cases hheld : number ∈ held
  · rw [hbyte, if_pos ⟨hpos, hheld⟩] at hlookup
    rw [hshift, hlookup, if_neg (by simp), insert_eq_of_mem hheld]
    refine ⟨assembly, ?_, h⟩
    by_cases hend : number + 1 = parts.length
    · have hsame : assembly.last = UInt8.ofNat number := by
        apply UInt8.toNat_inj.mp
        rw [hlast hend, if_pos hheld, hbyte]
      rw [if_pos (hflag.mpr hend), if_neg (fun hother => hother.2 hsame), ← hsame]
    · rw [if_neg (mt hflag.mp hend)]
  · rw [hbyte, if_neg (fun hmem => hheld hmem.2)] at hlookup
    have hadd := h.addFollowing hheld hpos hnumber hcut
    rw [hshift, hlookup, if_neg (by simp)]
    by_cases hend : number + 1 = parts.length
    · have hzero : assembly.last = 0 := by
        apply UInt8.toNat_inj.mp
        rw [hlast hend, if_neg hheld, UInt8.toNat_zero]
      rw [if_pos hend] at hadd
      rw [if_pos (hflag.mpr hend), if_neg (fun hother => hother.1 hzero)]
      exact ⟨_, rfl, hadd⟩
    · rw [if_neg hend] at hadd
      rw [if_neg (mt hflag.mp hend)]
      exact ⟨_, rfl, hadd⟩

theorem placeFollowOn_own (hcut : Cut parts) (hpos : 0 < number) (hnumber : number < parts.length)
    (htracks : Tracks header parts fragments held)
    (hroom : fragments.lookup header.id = none →
      fragments.entries.length < ssu2MaxFragmentedMessages) :
    ∃ assembly, placeFollowOn fragments
        (followOnData header.id number (number + 1 = parts.length) (parts.getD number [])) =
          .ok (header.id, assembly) ∧
      Assembles header parts assembly (insert number held) := by
  have hfew := hcut.few
  have hfull := hcut.full _ hnumber
  have hlength : ¬(followOnData header.id number (number + 1 = parts.length)
      (parts.getD number [])).length ≤ 5 := by
    simp only [followOnData, length_cons, length_append, natBE_length]
    omega
  have hid : uint32At (followOnData header.id number (number + 1 = parts.length)
      (parts.getD number [])) 1 = header.id := uint32At_append header.id _
  have hflag : (followOnData header.id number (number + 1 = parts.length)
      (parts.getD number [])).getD 0 0 = followOnFlag number (number + 1 = parts.length) := rfl
  rw [placeFollowOn, if_neg hlength]
  dsimp only
  rw [hflag, followOnFlag_shift (by omega), if_neg (ofNat_ne_zero hpos (by omega)), hid]
  unfold Tracks at htracks
  cases hlookup : fragments.lookup header.id with
  | none =>
    rw [hlookup] at htracks
    rw [if_neg (Nat.not_le.mpr (hroom hlookup))]
    subst htracks
    exact addFollowOn_own (assembles_new header _ _) hcut hpos hnumber
  | some assembly =>
    rw [hlookup] at htracks
    exact addFollowOn_own htracks hcut hpos hnumber

variable (h : Assembles header parts assembly held) (hcut : Cut parts)
include h hcut

theorem parts_whole
    (hwhole : held = Finset.range parts.length) : assembly.parts = some parts.tail := by
  have hmany := hcut.many
  have hlast := h.last
  subst hwhole
  rw [if_pos (Finset.mem_range.mpr (by omega))] at hlast
  have hlookup : ∀ number ∈ range' 1 (parts.length - 1),
      assembly.following.lookup (ofNat number) = some (parts.getD number []) := by
    intro number hnumber
    rw [mem_range'_1] at hnumber
    rw [h.following, hcut.toNat_ofNat (by omega), if_pos ⟨by omega, Finset.mem_range.mpr (by omega)⟩]
  rw [FragmentAssembly.parts, hlast, mapM_eq_map hlookup]
  apply congrArg some
  apply ext_getElem
  · rw [length_map, length_range', length_tail]
  · intro index hleft hright
    rw [length_tail] at hright
    rw [getElem_map, getElem_range', getElem_tail, Nat.one_mul, Nat.add_comm,
      getD_eq_getElem?_getD, getElem?_eq_getElem (by omega), Option.getD_some]

/-- While a piece is missing there is no first fragment, no last one or a gap. -/
theorem parts_missing
    (hinside : held ⊆ Finset.range parts.length) (hmissing : held ≠ Finset.range parts.length) :
    assembly.first = none ∨ assembly.last = 0 ∨ assembly.parts = none := by
  have hlast := h.last
  by_cases hend : parts.length - 1 ∈ held
  · obtain ⟨number, hnumber, hnew⟩ := exists_of_ssubset
      (Finset.ssubset_iff_subset_ne.mpr ⟨hinside, hmissing⟩)
    rw [Finset.mem_range] at hnumber
    rw [if_pos hend] at hlast
    rcases Nat.eq_zero_or_pos number with rfl | hpos
    · left
      rw [h.first, if_neg hnew]
    · right
      right
      have hmem : number ∈ range' 1 assembly.last.toNat := by
        rw [mem_range'_1]
        omega
      apply mapM_eq_none hmem
      rw [h.following, hcut.toNat_ofNat hnumber, if_neg (fun hheld => hnew hheld.2)]
  · rw [if_neg hend] at hlast
    exact Or.inr (Or.inl (UInt8.toNat_inj.mp hlast))

theorem size_le (hinside : held ⊆ Finset.range parts.length) : assembly.size ≤ i2npMaxPayload := by
  rw [h.size]
  refine (sum_le_sum_of_subset hinside).trans ?_
  rw [sum_length_getD]
  exact hcut.total

theorem finishFragment_whole (hwhole : held = Finset.range parts.length) :
    finishFragment fragments header.id assembly =
      (.ok (some ⟨header, parts.flatten⟩), fragments.erase header.id) := by
  have hmany := hcut.many
  have hsize := h.size
  have hfirst := h.first
  have hlast := h.last
  have hzero : 0 ∈ held := hwhole ▸ Finset.mem_range.mpr (by omega)
  have hend : parts.length - 1 ∈ held := hwhole ▸ Finset.mem_range.mpr (by omega)
  have hset : assembly.last ≠ 0 := by
    intro heq
    rw [heq, if_pos hend] at hlast
    change 0 = parts.length - 1 at hlast
    omega
  have hflatten : parts.getD 0 [] ++ parts.tail.flatten = parts.flatten := by
    cases parts with
    | nil => rfl
    | cons first rest => rfl
  rw [if_pos hzero] at hfirst
  rw [hwhole, sum_length_getD] at hsize
  rw [finishFragment, if_neg (Nat.not_lt.mpr (size_le h hcut hwhole.subset)), hfirst,
    parts_whole h hcut hwhole]
  dsimp only
  rw [if_neg hset, hflatten, if_neg (not_not.mpr hsize.symm), h.header hzero]

theorem finishFragment_missing
    (hinside : held ⊆ Finset.range parts.length) (hmissing : held ≠ Finset.range parts.length) :
    finishFragment fragments header.id assembly =
      (.ok none, fragments.insert header.id assembly) := by
  rw [finishFragment, if_neg (Nat.not_lt.mpr (size_le h hcut hinside))]
  rcases parts_missing h hcut hinside hmissing with hnone | hzero | hgap
  · rw [hnone]
  · cases assembly.first with
    | none => rfl
    | some first =>
      cases assembly.parts with
      | none => rfl
      | some parts => exact if_pos hzero
  · rw [hgap]
    cases assembly.first <;> rfl

end Own

section Add

variable {header : I2NPHeader} {seconds : UInt32} {parts : List Bytes} {fragments : Fragments}
  {held : Finset Nat} {number : Nat}

variable (hcut : Cut parts)
  (hnumber : number < parts.length)
  (htracks : Tracks ⟨header.type, header.id, decodeTransportExpiration seconds⟩ parts fragments held)
include hcut hnumber htracks

theorem pieceBlock_placed
    (hroom : fragments.lookup header.id = none →
      fragments.entries.length < ssu2MaxFragmentedMessages) (now : UInt64) :
    ∃ assembly, Assembles ⟨header.type, header.id, decodeTransportExpiration seconds⟩ parts assembly
        (insert number held) ∧
      addFragment fragments (pieceBlock header seconds parts number).1
        (pieceBlock header seconds parts number).2 now =
          finishFragment fragments header.id assembly := by
  rcases Nat.eq_zero_or_pos number with rfl | hpos
  · obtain ⟨assembly, hplaced, hassembles⟩ := placeFirst_own hcut htracks hroom
    refine ⟨{ assembly with updated := now }, ⟨hassembles.first, hassembles.header,
      hassembles.following, hassembles.last, hassembles.size⟩, ?_⟩
    rw [pieceBlock, if_pos rfl, addFragment, if_pos rfl, hplaced]
  · have hkind : ¬blockFollowOnFragment = blockFirstFragment := by decide
    obtain ⟨assembly, hplaced, hassembles⟩ := placeFollowOn_own hcut hpos hnumber htracks hroom
    refine ⟨{ assembly with updated := now }, ⟨hassembles.first, hassembles.header,
      hassembles.following, hassembles.last, hassembles.size⟩, ?_⟩
    rw [pieceBlock, if_neg (Nat.ne_of_gt hpos), addFragment, if_neg hkind, if_pos rfl, hplaced]

/-- A piece of the message: it is taken as the collector takes it. -/
theorem addFragment_own
    (hinside : held ⊆ Finset.range parts.length)
    (hroom : fragments.lookup header.id = none →
      fragments.entries.length < ssu2MaxFragmentedMessages) (now : UInt64) :
    (addFragment fragments (pieceBlock header seconds parts number).1
        (pieceBlock header seconds parts number).2 now).1 =
        .ok (if insert number held = Finset.range parts.length then
          some ⟨⟨header.type, header.id, decodeTransportExpiration seconds⟩, parts.flatten⟩
        else none) ∧
      Tracks ⟨header.type, header.id, decodeTransportExpiration seconds⟩ parts
        (addFragment fragments (pieceBlock header seconds parts number).1
          (pieceBlock header seconds parts number).2 now).2
        (if insert number held = Finset.range parts.length then ∅ else insert number held) := by
  obtain ⟨assembly, hassembles, hadd⟩ := pieceBlock_placed hcut hnumber htracks hroom _
  have hsubset := insert_subset (mem_range.mpr hnumber) hinside
  rw [hadd]
  by_cases hwhole : insert number held = Finset.range parts.length
  · have hfinish := @finishFragment_whole _ _ fragments _ _ hassembles hcut hwhole
    rw [hfinish, if_pos hwhole, if_pos hwhole]
    refine ⟨rfl, ?_⟩
    simp only [Tracks, lookup_erase]
  · have hfinish := @finishFragment_missing _ _ fragments _ _ hassembles hcut hsubset hwhole
    rw [hfinish, if_neg hwhole, if_neg hwhole]
    refine ⟨rfl, ?_⟩
    simp only [Tracks, lookup_insert]
    exact hassembles

end Add

section Other

variable {fragments : Fragments} {id : UInt32} {assembly : FragmentAssembly} {kind : UInt8}
  {data : Bytes}

def FragmentAssembly.Headed (id : UInt32) (assembly : FragmentAssembly) : Prop :=
  assembly.first.isSome → assembly.header.id = id

def HeadedAll (fragments : Fragments) : Prop :=
  ∀ id assembly, fragments.lookup id = some assembly → assembly.Headed id

inductive PlacedAt (fragments : Fragments) (id : UInt32) : Placed → Prop
  | refused (error : FragmentError) : PlacedAt fragments id (.error (error, fragments))
  | dropped (error : FragmentError) : PlacedAt fragments id (.error (error, fragments.erase id))
  | placed (assembly : FragmentAssembly) (headed : HeadedAll fragments → assembly.Headed id) :
      PlacedAt fragments id (.ok (id, assembly))

theorem placeFirst_placedAt (fragments : Fragments) (data : Bytes) :
    PlacedAt fragments (uint32At data 1) (placeFirst fragments data) := by
  unfold placeFirst parseTransportHeader
  by_cases hshort : data.length < i2npTransportHeaderLen
  · rw [if_pos hshort]
    exact .refused _
  rw [if_neg hshort]
  dsimp only
  split
  · exact .refused _
  cases hlookup : fragments.lookup (uint32At data 1) with
  | none =>
    dsimp only
    split
    · exact .refused _
    · exact .placed _ fun _ _ => rfl
  | some assembly =>
    dsimp only
    split
    · exact .dropped _
    apply PlacedAt.placed
    intro hheaded
    cases hfirst : assembly.first with
    | none => exact fun _ => rfl
    | some first => exact hheaded _ _ hlookup

theorem addFollowOn_placedAt (flag : UInt8) (body : Bytes)
    (hheaded : HeadedAll fragments → assembly.Headed id) :
    PlacedAt fragments id (addFollowOn fragments id flag body assembly) := by
  unfold addFollowOn
  dsimp only
  split
  · exact .dropped _
  cases assembly.following.lookup (flag >>> 1) <;> dsimp only
  all_goals
    split
    · split
      · exact .dropped _
      · exact .placed _ hheaded
    · exact .placed _ hheaded

theorem placeFollowOn_placedAt (fragments : Fragments) (data : Bytes) :
    PlacedAt fragments (uint32At data 1) (placeFollowOn fragments data) := by
  unfold placeFollowOn
  split
  · exact .refused _
  dsimp only
  split
  · exact .refused _
  cases hlookup : fragments.lookup (uint32At data 1) with
  | none =>
    dsimp only
    split
    · exact .refused _
    · exact addFollowOn_placedAt _ _ fun _ hfirst => absurd hfirst Bool.false_ne_true
  | some assembly => exact addFollowOn_placedAt _ _ fun hheaded => hheaded _ _ hlookup

inductive Adds (fragments : Fragments) (id : UInt32) :
    Except FragmentError (Option I2NPMessage) × Fragments → Prop
  | refused (error : FragmentError) : Adds fragments id (.error error, fragments)
  | dropped (error : FragmentError) : Adds fragments id (.error error, fragments.erase id)
  | kept (assembly : FragmentAssembly) (headed : HeadedAll fragments → assembly.Headed id) :
      Adds fragments id (.ok none, fragments.insert id assembly)
  | yielded (message : I2NPMessage) (headed : HeadedAll fragments → message.header.id = id) :
      Adds fragments id (.ok (some message), fragments.erase id)

theorem finishFragment_adds (headed : HeadedAll fragments → assembly.Headed id) :
    Adds fragments id (finishFragment fragments id assembly) := by
  unfold finishFragment
  dsimp only
  split
  · exact .dropped _
  split
  next first parts hfirst hparts =>
    split
    · exact .kept assembly headed
    split
    · exact .dropped _
    · exact .yielded _ fun hall => headed hall (by rw [hfirst]; rfl)
  · exact .kept assembly headed

theorem addFragment_adds (fragments : Fragments) (kind : UInt8) (data : Bytes) (now : UInt64) :
    Adds fragments (uint32At data 1) (addFragment fragments kind data now) := by
  have hplaced : PlacedAt fragments (uint32At data 1)
      (if kind = blockFirstFragment then placeFirst fragments data
        else if kind = blockFollowOnFragment then placeFollowOn fragments data
        else .error (.peer, fragments)) := by
    split
    · exact placeFirst_placedAt _ _
    split
    · exact placeFollowOn_placedAt _ _
    · exact .refused _
  unfold addFragment
  revert hplaced
  generalize (if kind = blockFirstFragment then placeFirst fragments data
    else if kind = blockFollowOnFragment then placeFollowOn fragments data
    else (.error (.peer, fragments) : Placed)) = placed
  intro hplaced
  cases hplaced with
  | refused error => exact .refused error
  | dropped error => exact .dropped error
  | placed assembly headed => exact finishFragment_adds headed

variable {result : Except FragmentError (Option I2NPMessage) × Fragments}

theorem Adds.lookup_ne (h : Adds fragments id result) {other : UInt32} (hother : other ≠ id) :
    result.2.lookup other = fragments.lookup other := by
  cases h with
  | refused error => rfl
  | dropped error => exact lookup_erase_ne hother
  | kept assembly headed => exact lookup_insert_ne hother
  | yielded message headed => exact lookup_erase_ne hother

theorem Adds.headedAll (h : Adds fragments id result) (hall : HeadedAll fragments) :
    HeadedAll result.2 := by
  have herase : HeadedAll (fragments.erase id) := fun other assembly hlookup =>
    hall _ _ (Table.lookup_of_erase hlookup).2
  cases h with
  | refused error => exact hall
  | dropped error => exact herase
  | kept assembly headed => exact Table.forall_lookup_insert (headed hall) hall
  | yielded message headed => exact herase

end Other

end Ivnp.Ssu2
