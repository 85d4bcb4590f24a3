import Ivnp.Lib.Bytes

/-!
The string map of the common structures: a two-byte size and entries of the
form `keyLen key = valueLen value ;`.
-/

namespace Ivnp.Foundation

open Ivnp.Lib List

/-- One turn of `MappingIterator.Next` on a nonempty rest: the entry and what
follows it, or `none` for a malformed entry. -/
def nextEntry (first : UInt8) (rest : Bytes) : Option ((Bytes × Bytes) × Bytes) :=
  let keyLen := first.toNat
  if keyLen > rest.length then none
  else
    let key := rest.take keyLen
    match rest.drop keyLen with
    | separator :: valueLen :: rest =>
      if separator ≠ '='.toUInt8 then none
      else if valueLen.toNat + 1 > rest.length ∨ rest.getD valueLen.toNat 0 ≠ ';'.toUInt8 then none
      else some ((key, rest.take valueLen.toNat), rest.drop (valueLen.toNat + 1))
    | _ => none

/-- The entries the iterator yields until it is done; every entry takes at
least one byte, so the length is enough fuel. -/
def mappingEntries : Nat → Bytes → Option (List (Bytes × Bytes))
  | _, [] => some []
  | 0, _ :: _ => none
  | fuel + 1, first :: rest => do
      let (entry, rest) ← nextEntry first rest
      let entries ← mappingEntries fuel rest
      return entry :: entries

structure Mapping where
  raw : Bytes
  deriving DecidableEq

def Mapping.encodedLen (mapping : Mapping) : Nat := mapping.raw.length

def parseMapping (src : Bytes) : Option (Mapping × Nat) :=
  if src.length < 2 then none
  else
    let size := beNat (src.take 2)
    if size > src.length - 2 then none
    else
      let raw := src.take (2 + size)
      (mappingEntries raw.length (raw.drop 2)).map fun _ => (⟨raw⟩, raw.length)

theorem parseMapping_zeros (count : Nat) (h : 2 ≤ count) :
    parseMapping (List.replicate count 0) = some (⟨[0, 0]⟩, 2) := by
  obtain ⟨rest, rfl⟩ := Nat.exists_eq_add_of_le h
  have hzeros : replicate (2 + rest) (0 : UInt8) = 0 :: 0 :: replicate rest 0 := by
    rw [Nat.add_comm, replicate_succ, replicate_succ]
  simp [hzeros, parseMapping, beNat, mappingEntries]

section Marshal

/-- The wire form of an entry. -/
def entryBytes (entry : Bytes × Bytes) : Bytes :=
  UInt8.ofNat entry.1.length ::
    (entry.1 ++ '='.toUInt8 :: UInt8.ofNat entry.2.length :: (entry.2 ++ [';'.toUInt8]))

/-- The loop of `MappingEncodedLen` from the length `n` on, after the key
`previous`. -/
def encodedLenFrom (previous : Option Bytes) (n : Nat) : List (Bytes × Bytes) → Option Nat
  | [] => some n
  | (key, value) :: rest =>
    if key.length > 255 ∨ value.length > 255 then none
    else if previous.any fun earlier => ¬ earlier < key then none
    else if key.length + value.length + 4 > 0xffff - (n - 2) then none
    else encodedLenFrom (some key) (n + (key.length + value.length + 4)) rest

def mappingEncodedLen (entries : List (Bytes × Bytes)) : Option Nat := encodedLenFrom none 2 entries

/-- `MarshalMappingTo` into a buffer that is large enough. -/
def marshalMapping (entries : List (Bytes × Bytes)) : Option Bytes :=
  (mappingEncodedLen entries).map fun n => natBE 2 (n - 2) ++ entries.flatMap entryBytes

theorem length_entryBytes (entry : Bytes × Bytes) :
    (entryBytes entry).length = entry.1.length + entry.2.length + 4 := by
  simp [entryBytes]
  omega

variable {entries : List (Bytes × Bytes)}

theorem encodedLenFrom_eq_some {previous : Option Bytes} {n total : Nat} (h : encodedLenFrom previous n entries = some total)
    (hsize : 2 ≤ n ∧ n ≤ 2 + 0xffff) :
    (∀ entry ∈ entries, entry.1.length ≤ 255 ∧ entry.2.length ≤ 255) ∧
      total = n + (entries.flatMap entryBytes).length ∧ total ≤ 2 + 0xffff := by
  induction entries generalizing previous n with
  | nil =>
    cases h
    exact ⟨forall_mem_nil _, rfl, hsize.2⟩
  | cons entry rest ih =>
    obtain ⟨key, value⟩ := entry
    unfold encodedLenFrom at h
    split at h
    · cases h
    next hlengths =>
    split at h
    · cases h
    split at h
    · cases h
    next hroom =>
    obtain ⟨hrest, htotal, hbound⟩ := ih h (by omega)
    refine ⟨forall_mem_cons.mpr ⟨?_, hrest⟩, ?_, hbound⟩
    · dsimp only
      omega
    · rw [htotal, flatMap_cons, length_append, length_entryBytes]
      exact Nat.add_assoc _ _ _

theorem nextEntry_entryBytes {key value : Bytes} (hkey : key.length ≤ 255)
    (hvalue : value.length ≤ 255) (rest : Bytes) :
    nextEntry (UInt8.ofNat key.length) (key ++ '='.toUInt8 :: UInt8.ofNat value.length ::
      (value ++ [';'.toUInt8]) ++ rest) = some ((key, value), rest) := by
  have hkeyLen := UInt8.toNat_ofNat_of_lt' (show key.length < 256 by omega)
  have hvalueLen := UInt8.toNat_ofNat_of_lt' (show value.length < 256 by omega)
  unfold nextEntry
  rw [hkeyLen, if_neg (by simp), append_assoc, drop_left' rfl, take_left' rfl]
  dsimp only [cons_append]
  rw [if_neg (fun h => h rfl), hvalueLen, append_assoc, take_left' rfl, if_neg]
  · rw [← drop_drop, drop_left' rfl]
    rfl
  · simp

theorem mappingEntries_marshalled
    (h : ∀ entry ∈ entries, entry.1.length ≤ 255 ∧ entry.2.length ≤ 255) (fuel : Nat)
    (hfuel : (entries.flatMap entryBytes).length ≤ fuel) :
    mappingEntries fuel (entries.flatMap entryBytes) = some entries := by
  induction entries generalizing fuel with
  | nil => cases fuel <;> rfl
  | cons entry rest ih =>
    obtain ⟨key, value⟩ := entry
    obtain ⟨⟨hkey, hvalue⟩, hrest⟩ := forall_mem_cons.mp h
    rw [flatMap_cons, length_append, length_entryBytes] at hfuel
    obtain ⟨less, rfl⟩ : ∃ less, fuel = less + 1 := ⟨fuel - 1, by omega⟩
    show (nextEntry (UInt8.ofNat key.length) (key ++ '='.toUInt8 :: UInt8.ofNat value.length ::
      (value ++ [';'.toUInt8]) ++ rest.flatMap entryBytes)).bind _ = _
    rw [nextEntry_entryBytes hkey hvalue]
    show (mappingEntries less (rest.flatMap entryBytes)).bind _ = _
    rw [ih hrest _ (by omega)]
    rfl

/-- What was written is parsed as a mapping with these entries, whatever follows
it. -/
theorem parseMapping_marshalMapping {raw : Bytes}
    (h : marshalMapping entries = some raw) (rest : Bytes) :
    parseMapping (raw ++ rest) = some (⟨raw⟩, raw.length) ∧
      mappingEntries raw.length (raw.drop 2) = some entries := by
  obtain ⟨total, hlen, rfl⟩ := Option.map_eq_some_iff.mp h
  obtain ⟨hentries, rfl, hbound⟩ := encodedLenFrom_eq_some hlen (by omega)
  rw [Nat.add_sub_cancel_left]
  have hsize : beNat (natBE 2 (entries.flatMap entryBytes).length) =
      (entries.flatMap entryBytes).length :=
    beNat_natBE_of_lt _ _ (by omega)
  have hdrop : (natBE 2 (entries.flatMap entryBytes).length ++
      entries.flatMap entryBytes).drop 2 = entries.flatMap entryBytes :=
    drop_left' (natBE_length _ _)
  have hread : mappingEntries (natBE 2 (entries.flatMap entryBytes).length ++
      entries.flatMap entryBytes).length (entries.flatMap entryBytes) = some entries :=
    mappingEntries_marshalled hentries _ (by rw [length_append]; omega)
  refine ⟨?_, by rw [hdrop, hread]⟩
  have hlength : (natBE 2 (entries.flatMap entryBytes).length ++ entries.flatMap entryBytes ++
      rest).length = 2 + (entries.flatMap entryBytes).length + rest.length := by
    rw [length_append, length_append, natBE_length]
  unfold parseMapping
  dsimp only
  rw [hlength, if_neg (by omega), append_assoc, take_left' (natBE_length _ _), hsize,
    if_neg (by omega), ← append_assoc,
    take_left' (by rw [length_append, natBE_length]), hdrop, hread]
  rfl

end Marshal

end Ivnp.Foundation
