import Ivnp.Lib.Bytes

/-!
The cursor of the wire formats: reads take bytes off the front of what is left,
and the first read that does not find enough of them ends the parse.
-/

namespace Ivnp.Foundation

open Ivnp.Lib List

/-- Why a structure is refused. -/
inductive WireError where
  | shortBuffer
  | malformed
  | tooManyItems
  | structureTooLarge
  | unknownKeyType
  | invalidCertificate
  | invalidIdentity
  | invalidMapping
  | unsortedMapping
  | invalidKeyLength
  | noSupportedEncryptionKey
  | malformedSignature
  | unsupportedSignature
  deriving DecidableEq, Repr

abbrev Cursor := StateT Bytes (Except WireError)

namespace Cursor

def fail {α : Type} (error : WireError) : Cursor α := fun _ => .error error

def readBytes (n : Nat) : Cursor Bytes := fun rest =>
  if n > rest.length then .error .shortBuffer else .ok (rest.take n, rest.drop n)

def readU8 : Cursor UInt8
  | [] => .error .shortBuffer
  | byte :: rest => .ok (byte, rest)

def readU16 : Cursor UInt16 := do
  let bytes ← readBytes 2
  return UInt16.ofNat (beNat bytes)

def readU32 : Cursor UInt32 := do
  let bytes ← readBytes 4
  return UInt32.ofNat (beNat bytes)

def readU64 : Cursor UInt64 := do
  let bytes ← readBytes 8
  return UInt64.ofNat (beNat bytes)

/-- What the cursor reads, and the bytes it takes for it. -/
def withBytes {α : Type} (cursor : Cursor α) : Cursor (α × Bytes) := fun src =>
  match cursor.run src with
  | .error error => .error error
  | .ok (value, rest) => .ok ((value, src.take (src.length - rest.length)), rest)

def readRecords {α : Type} (count size : Nat) (parse : Bytes → Except WireError α) :
    Cursor (List α) := do
  let block ← readBytes (count * size)
  (List.range count).mapM fun number => liftM (parse ((block.drop (number * size)).take size))

/-- An announced count of items that delimit themselves, also the turns of an iterator over
them. -/
def readMany {α : Type} (item : Cursor α) : Nat → Cursor (List α)
  | 0 => return []
  | left + 1 => do
      let value ← item
      let values ← readMany item left
      return value :: values

/-- The items of an iterator over records of `size` bytes, until no bytes are left; `limit` is
a bound on their number. -/
def drain {α : Type} (size : Nat) (parse : Bytes → Except WireError α) :
    Nat → Bytes → Except WireError (List α)
  | _, [] => .ok []
  | 0, _ :: _ => .error .tooManyItems
  | limit + 1, byte :: left => do
      let value ← parse (byte :: left)
      let values ← drain size parse limit ((byte :: left).drop size)
      return value :: values

section Run

variable {α β : Type} {src rest : Bytes}

theorem bind_eq_ok {cursor : Cursor α} {next : α → Cursor β} {result : β} :
    (cursor >>= next).run src = .ok (result, rest) ↔
      ∃ value middle, cursor.run src = .ok (value, middle) ∧
        (next value).run middle = .ok (result, rest) := by
  rw [StateT.run_bind]
  constructor
  · intro h
    cases hfirst : cursor.run src with
    | error error =>
      rw [hfirst] at h
      cases h
    | ok found =>
      rw [hfirst] at h
      exact ⟨found.1, found.2, rfl, h⟩
  · rintro ⟨value, middle, hfirst, h⟩
    rw [hfirst]
    exact h

theorem pure_eq_ok {value result : α} :
    (pure value : Cursor α).run src = .ok (result, rest) ↔ result = value ∧ rest = src := by
  constructor
  · rintro ⟨⟩
    exact ⟨rfl, rfl⟩
  · rintro ⟨rfl, rfl⟩
    rfl

theorem get_eq_ok {found : Bytes} :
    (get : Cursor Bytes).run src = .ok (found, rest) ↔ found = src ∧ rest = src := by
  constructor
  · rintro ⟨⟩
    exact ⟨rfl, rfl⟩
  · rintro ⟨rfl, rfl⟩
    rfl

theorem readBytes_eq_ok {n : Nat} {field : Bytes} :
    (readBytes n).run src = .ok (field, rest) ↔ src = field ++ rest ∧ field.length = n := by
  change (if n > src.length then _ else _) = _ ↔ _
  constructor
  · intro h
    split at h
    · cases h
    next hlength =>
    cases h
    exact ⟨(take_append_drop n _).symm, length_take_of_le (not_lt.mp hlength)⟩
  · rintro ⟨rfl, rfl⟩
    rw [if_neg (by simp), take_left, drop_left]

theorem readU8_eq_ok {byte : UInt8} : readU8.run src = .ok (byte, rest) ↔ src = byte :: rest := by
  cases src with
  | nil => exact iff_of_false (by rintro ⟨⟩) (by rintro ⟨⟩)
  | cons first left =>
    change Except.ok (first, left) = _ ↔ _
    rw [Except.ok.injEq, Prod.mk.injEq, cons.injEq]

theorem readWord_eq_ok {width : Nat} {word : Type} {ofNat : Nat → word} {toNat : word → Nat}
    (hofNat : ∀ value, ofNat (toNat value) = value) (hlt : ∀ value, toNat value < 256 ^ width)
    (htoNat : ∀ number < 256 ^ width, toNat (ofNat number) = number) {value : word} :
    (do
        let bytes ← readBytes width
        return ofNat (beNat bytes) : Cursor word).run src = .ok (value, rest) ↔
      src = natBE width (toNat value) ++ rest := by
  rw [bind_eq_ok]
  constructor
  · rintro ⟨bytes, middle, hbytes, hvalue⟩
    obtain ⟨rfl, rfl⟩ := readBytes_eq_ok.mp hbytes
    obtain ⟨rfl, rfl⟩ := pure_eq_ok.mp hvalue
    rw [htoNat _ (beNat_lt _), natBE_beNat]
  · rintro rfl
    refine ⟨natBE width (toNat value), rest, readBytes_eq_ok.mpr ⟨rfl, natBE_length _ _⟩, ?_⟩
    rw [beNat_natBE_of_lt _ _ (hlt _), hofNat]
    exact pure_eq_ok.mpr ⟨rfl, rfl⟩

theorem readU16_eq_ok {word : UInt16} :
    readU16.run src = .ok (word, rest) ↔ src = natBE 2 word.toNat ++ rest :=
  readWord_eq_ok (fun _ => UInt16.ofNat_toNat) UInt16.toNat_lt
    fun _ h => UInt16.toNat_ofNat_of_lt' h

theorem readU32_eq_ok {word : UInt32} :
    readU32.run src = .ok (word, rest) ↔ src = natBE 4 word.toNat ++ rest :=
  readWord_eq_ok (fun _ => UInt32.ofNat_toNat) UInt32.toNat_lt
    fun _ h => UInt32.toNat_ofNat_of_lt' h

theorem readU64_eq_ok {word : UInt64} :
    readU64.run src = .ok (word, rest) ↔ src = natBE 8 word.toNat ++ rest :=
  readWord_eq_ok (fun _ => UInt64.ofNat_toNat) UInt64.toNat_lt
    fun _ h => UInt64.toNat_ofNat_of_lt' h

section Fields

variable {next : Bytes → Cursor β} {result : β}

theorem of_get (h : (get >>= next).run src = .ok (result, rest)) :
    (next src).run src = .ok (result, rest) := by
  obtain ⟨found, middle, hget, h⟩ := bind_eq_ok.mp h
  obtain ⟨rfl, rfl⟩ := get_eq_ok.mp hget
  exact h

theorem of_readBytes {n : Nat} (h : (readBytes n >>= next).run src = .ok (result, rest)) :
    ∃ field left, src = field ++ left ∧ field.length = n ∧
      (next field).run left = .ok (result, rest) := by
  obtain ⟨field, left, hfield, h⟩ := bind_eq_ok.mp h
  obtain ⟨hsrc, hlength⟩ := readBytes_eq_ok.mp hfield
  exact ⟨field, left, hsrc, hlength, h⟩

theorem of_readU8 {next : UInt8 → Cursor β} (h : (readU8 >>= next).run src = .ok (result, rest)) :
    ∃ byte left, src = byte :: left ∧ (next byte).run left = .ok (result, rest) := by
  obtain ⟨byte, left, hbyte, h⟩ := bind_eq_ok.mp h
  exact ⟨byte, left, readU8_eq_ok.mp hbyte, h⟩

theorem of_readU16 {next : UInt16 → Cursor β} (h : (readU16 >>= next).run src = .ok (result, rest)) :
    ∃ word left, src = natBE 2 word.toNat ++ left ∧ (next word).run left = .ok (result, rest) := by
  obtain ⟨word, left, hword, h⟩ := bind_eq_ok.mp h
  exact ⟨word, left, readU16_eq_ok.mp hword, h⟩

theorem of_readU32 {next : UInt32 → Cursor β} (h : (readU32 >>= next).run src = .ok (result, rest)) :
    ∃ word left, src = natBE 4 word.toNat ++ left ∧ (next word).run left = .ok (result, rest) := by
  obtain ⟨word, left, hword, h⟩ := bind_eq_ok.mp h
  exact ⟨word, left, readU32_eq_ok.mp hword, h⟩

end Fields

theorem withBytes_eq_ok {cursor : Cursor α} {value : α} {bytes : Bytes} :
    cursor.withBytes.run src = .ok ((value, bytes), rest) ↔
      cursor.run src = .ok (value, rest) ∧ bytes = src.take (src.length - rest.length) := by
  change (match cursor.run src with
    | .error error => Except.error error
    | .ok (value, rest) => .ok ((value, src.take (src.length - rest.length)), rest)) = _ ↔ _
  cases cursor.run src with
  | error error => exact iff_of_false (by rintro ⟨⟩) (by rintro ⟨⟨⟩, -⟩)
  | ok found =>
    constructor
    · rintro ⟨⟩
      exact ⟨rfl, rfl⟩
    · rintro ⟨⟨⟩, rfl⟩
      rfl

theorem mapM_liftM_run {γ : Type} (parse : γ → Except WireError α) (items : List γ) (src : Bytes) :
    (items.mapM fun item => (liftM (parse item) : Cursor α)).run src =
      (items.mapM parse).map (·, src) := by
  induction items with
  | nil => rfl
  | cons item items ih =>
    rw [mapM_cons, mapM_cons]
    cases hparse : parse item with
    | error error => rfl
    | ok value =>
      change ((items.mapM fun item => (liftM (parse item) : Cursor α)).run src >>=
        fun found => .ok (value :: found.1, found.2)) = _
      rw [ih]
      cases items.mapM parse with
      | error error => rfl
      | ok values => rfl

variable {parse : Bytes → Except WireError α}

theorem drain_of_length {size : Nat} (hsize : 0 < size)
    (hlocal : ∀ rest : Bytes, size ≤ rest.length → parse (rest.take size) = parse rest)
    {count fuel : Nat} {block : Bytes} (hblock : block.length = count * size)
    (hfuel : count ≤ fuel) :
    drain size parse fuel block =
      (List.range count).mapM fun number => parse ((block.drop (number * size)).take size) := by
  induction count generalizing fuel block with
  | zero =>
    rw [eq_nil_of_length_eq_zero (hblock.trans (Nat.zero_mul _))]
    cases fuel with
    | zero => rfl
    | succ fuel => rfl
  | succ count ih =>
    obtain ⟨fuel, rfl⟩ : ∃ less, fuel = less + 1 := ⟨fuel - 1, by omega⟩
    rw [Nat.succ_mul] at hblock
    have hrest : (block.drop size).length = count * size := by
      rw [length_drop]
      omega
    cases block with
    | nil =>
      rw [length_nil] at hblock
      omega
    | cons byte left =>
      rw [drain, range_succ_eq_map, mapM_cons, Nat.zero_mul, drop_zero,
        hlocal _ (by omega), ih hrest (by omega), mapM_map]
      simp only [Function.comp_def, Nat.succ_mul, drop_drop, Nat.add_comm _]

theorem readRecords_eq_ok {count size : Nat} (hsize : 0 < size)
    (hlocal : ∀ rest : Bytes, size ≤ rest.length → parse (rest.take size) = parse rest)
    {values : List α} :
    (readRecords count size parse).run src = .ok (values, rest) ↔
      ∃ block, src = block ++ rest ∧ block.length = count * size ∧
        drain size parse count block = .ok values := by
  unfold readRecords
  rw [bind_eq_ok]
  constructor
  · rintro ⟨block, middle, hblock, hvalues⟩
    obtain ⟨hsrc, hlength⟩ := readBytes_eq_ok.mp hblock
    rw [mapM_liftM_run, ← drain_of_length hsize hlocal hlength le_rfl] at hvalues
    cases hdrain : drain size parse count block with
    | error error =>
      rw [hdrain] at hvalues
      cases hvalues
    | ok found =>
      rw [hdrain] at hvalues
      cases hvalues
      exact ⟨block, hsrc, hlength, hdrain⟩
  · rintro ⟨block, hsrc, hlength, hvalues⟩
    refine ⟨block, rest, readBytes_eq_ok.mpr ⟨hsrc, hlength⟩, ?_⟩
    rw [mapM_liftM_run, ← drain_of_length hsize hlocal hlength le_rfl, hvalues]
    rfl

end Run

section SelfDelimiting

variable {α β : Type}

/-- The cursor reads the value from exactly these bytes, whatever follows them. -/
def Takes (cursor : Cursor α) (bytes : Bytes) (value : α) : Prop :=
  ∀ rest, cursor.run (bytes ++ rest) = .ok (value, rest)

/-- What the cursor reads, it takes from the front. -/
def SelfDelimiting (cursor : Cursor α) : Prop :=
  ∀ src value rest, cursor.run src = .ok (value, rest) →
    ∃ bytes, src = bytes ++ rest ∧ cursor.Takes bytes value

theorem selfDelimiting_pure (value : α) : SelfDelimiting (pure value : Cursor α) := by
  rintro src _ _ ⟨⟩
  exact ⟨[], rfl, fun _ => rfl⟩

theorem selfDelimiting_fail (error : WireError) : SelfDelimiting (fail error : Cursor α) := by
  rintro src _ _ ⟨⟩

theorem SelfDelimiting.bind {cursor : Cursor α} {next : α → Cursor β} (hcursor : cursor.SelfDelimiting)
    (hnext : ∀ value, (next value).SelfDelimiting) : (cursor >>= next).SelfDelimiting := by
  intro src result rest h
  obtain ⟨value, middle, hfirst, hsecond⟩ := bind_eq_ok.mp h
  obtain ⟨bytes, rfl, htakes⟩ := hcursor _ _ _ hfirst
  obtain ⟨others, rfl, hothers⟩ := hnext _ _ _ _ hsecond
  refine ⟨bytes ++ others, (append_assoc _ _ _).symm, fun rest => ?_⟩
  rw [append_assoc]
  exact bind_eq_ok.mpr ⟨value, _, htakes _, hothers _⟩

theorem selfDelimiting_readBytes (n : Nat) : (readBytes n).SelfDelimiting := by
  intro src field rest h
  obtain ⟨rfl, hlength⟩ := readBytes_eq_ok.mp h
  exact ⟨field, rfl, fun _ => readBytes_eq_ok.mpr ⟨rfl, hlength⟩⟩

theorem selfDelimiting_readU8 : readU8.SelfDelimiting := by
  intro src byte rest h
  obtain rfl := readU8_eq_ok.mp h
  exact ⟨[byte], rfl, fun _ => readU8_eq_ok.mpr rfl⟩

theorem selfDelimiting_readU64 : readU64.SelfDelimiting := by
  intro src word rest h
  exact ⟨_, readU64_eq_ok.mp h, fun _ => readU64_eq_ok.mpr rfl⟩

variable {item : Cursor α}

theorem SelfDelimiting.readMany (h : item.SelfDelimiting) (count : Nat) :
    (readMany item count).SelfDelimiting := by
  induction count with
  | zero => exact selfDelimiting_pure _
  | succ count ih => exact h.bind fun _ => ih.bind fun _ => selfDelimiting_pure _

theorem readMany_length {count : Nat} {values : List α} {src rest : Bytes}
    (h : (readMany item count).run src = .ok (values, rest)) : values.length = count := by
  induction count generalizing src rest values with
  | zero =>
    obtain ⟨rfl, -⟩ := pure_eq_ok.mp h
    rfl
  | succ count ih =>
    obtain ⟨value, middle, -, h⟩ := bind_eq_ok.mp h
    obtain ⟨others, left, hothers, h⟩ := bind_eq_ok.mp h
    obtain ⟨rfl, -⟩ := pure_eq_ok.mp h
    rw [length_cons, ih hothers]

theorem SelfDelimiting.withBytes_eq_ok {cursor : Cursor α} (h : cursor.SelfDelimiting)
    {src rest bytes : Bytes} {value : α}
    (hrun : cursor.withBytes.run src = .ok ((value, bytes), rest)) :
    src = bytes ++ rest ∧ cursor.Takes bytes value := by
  obtain ⟨hvalue, hbytes⟩ := Cursor.withBytes_eq_ok.mp hrun
  obtain ⟨taken, rfl, htakes⟩ := h _ _ _ hvalue
  have hsame : bytes = taken := by rw [hbytes, length_append, Nat.add_sub_cancel, take_left]
  rw [hsame]
  exact ⟨rfl, htakes⟩

theorem SelfDelimiting.withBytes {cursor : Cursor α} (h : cursor.SelfDelimiting) :
    cursor.withBytes.SelfDelimiting := by
  rintro src ⟨value, bytes⟩ rest hrun
  obtain ⟨hsrc, htakes⟩ := h.withBytes_eq_ok hrun
  refine ⟨bytes, hsrc, fun other => Cursor.withBytes_eq_ok.mpr ⟨htakes _, ?_⟩⟩
  rw [length_append, Nat.add_sub_cancel, take_left]

end SelfDelimiting

/-- Whatever the cursor reads satisfies `P`. -/
def Yields {α : Type} (cursor : Cursor α) (P : α → Prop) : Prop :=
  ∀ rest value left, cursor.run rest = .ok (value, left) → P value

theorem yields_pure {α : Type} {P : α → Prop} {value : α} (h : P value) :
    Yields (pure value) P := by
  rintro rest _ _ ⟨⟩
  exact h

theorem yields_fail {α : Type} {P : α → Prop} (error : WireError) : Yields (fail error) P := by
  rintro rest _ _ ⟨⟩

theorem yields_bind {α β : Type} {P : β → Prop} {cursor : Cursor α} {next : α → Cursor β}
    (hnext : ∀ value, Yields (next value) P) : Yields (cursor >>= next) P := by
  intro rest value left hrun
  rw [StateT.run_bind] at hrun
  cases hfirst : cursor.run rest with
  | error error =>
    rw [hfirst] at hrun
    cases hrun
  | ok result =>
    rw [hfirst] at hrun
    exact hnext result.1 result.2 _ _ hrun

theorem of_bind {α β : Type} {P : β → Prop} {cursor : Cursor α} {next : α → Cursor β}
    {src rest left : Bytes} {value : α} {result : β} (hfirst : cursor.run src = .ok (value, rest))
    (hnext : Yields (next value) P) (h : (cursor >>= next).run src = .ok (result, left)) :
    P result := by
  rw [StateT.run_bind, hfirst] at h
  exact hnext _ _ _ h

end Cursor

end Ivnp.Foundation
