import Ivnp.Lib.Bytes

/-!
Base64 over an alphabet of 64 bytes: three bytes are four symbols, and a last group of one or
two bytes is filled up with padding. Line breaks are skipped when text is decoded, and the bits
that a last group does not use are not looked at.
-/

namespace Ivnp.Lib

open List

/-- The symbols of the values 0 to 63; none of them is padding or a line break. -/
structure Base64 where
  symbols : Bytes
  length : symbols.length = 64
  nodup : symbols.Nodup
  plain : ∀ symbol ∈ symbols, symbol ≠ 61 ∧ symbol ≠ 10 ∧ symbol ≠ 13

namespace Base64

variable (code : Base64)

def padding : UInt8 := 61

def symbol (value : Nat) : UInt8 :=
  code.symbols.get ⟨value % 64, by rw [code.length]; exact Nat.mod_lt _ (by decide)⟩

def value? (symbol : UInt8) : Option Nat :=
  if symbol ∈ code.symbols then some (code.symbols.idxOf symbol) else none

/-- A group of `count` symbols with the low bits of `value`, the highest first. -/
def group : Nat → Nat → Bytes
  | 0, _ => []
  | count + 1, value => code.symbol (value / 64 ^ count) :: group count value

def encode : Bytes → Bytes
  | a :: b :: c :: rest => code.group 4 (a.toNat * 65536 + b.toNat * 256 + c.toNat) ++ encode rest
  | [a, b] => code.group 3 ((a.toNat * 256 + b.toNat) * 4) ++ [padding]
  | [a] => code.group 2 (a.toNat * 16) ++ [padding, padding]
  | [] => []

/-- The bytes of four symbols, of three and of two. -/
def quantum4 (a b c d : Nat) : Bytes := natBE 3 (((a * 64 + b) * 64 + c) * 64 + d)

def quantum3 (a b c : Nat) : Bytes := natBE 2 (((a * 64 + b) * 64 + c) / 4)

def quantum2 (a b : Nat) : Bytes := natBE 1 ((a * 64 + b) / 16)

/-- The groups of text without line breaks. With padding the last group has four symbols,
without it has two or three. -/
def decodeGroups (padded : Bool) : Bytes → Option Bytes
  | [] => some []
  | s :: t :: u :: v :: rest =>
    match code.value? s, code.value? t, code.value? u, code.value? v with
    | some a, some b, some c, some d => (quantum4 a b c d ++ ·) <$> decodeGroups padded rest
    | some a, some b, some c, none =>
      if padded ∧ v = padding ∧ rest = [] then some (quantum3 a b c) else none
    | some a, some b, none, _ =>
      if padded ∧ u = padding ∧ v = padding ∧ rest = [] then some (quantum2 a b) else none
    | _, _, _, _ => none
  | [s, t, u] =>
    match code.value? s, code.value? t, code.value? u with
    | some a, some b, some c => if padded then none else some (quantum3 a b c)
    | _, _, _ => none
  | [s, t] =>
    match code.value? s, code.value? t with
    | some a, some b => if padded then none else some (quantum2 a b)
    | _, _ => none
  | [_] => none

def decode (padded : Bool) (text : Bytes) : Option Bytes :=
  code.decodeGroups padded (text.filter fun symbol => symbol ≠ 10 ∧ symbol ≠ 13)

theorem symbol_mem (value : Nat) : code.symbol value ∈ code.symbols := get_mem _ _

theorem value?_symbol (value : Nat) : code.value? (code.symbol value) = some (value % 64) := by
  rw [value?, if_pos (code.symbol_mem _), symbol, get_eq_getElem, code.nodup.idxOf_getElem]

theorem value?_padding : code.value? padding = none := if_neg fun hmem => (code.plain _ hmem).1 rfl

theorem plain_of_mem_encode {raw : Bytes} {symbol : UInt8} (hmem : symbol ∈ code.encode raw) :
    symbol ≠ 10 ∧ symbol ≠ 13 := by
  have hsymbol (value : Nat) (h : symbol = code.symbol value) : symbol ≠ 10 ∧ symbol ≠ 13 := by
    rw [h]
    exact (code.plain _ (code.symbol_mem _)).2
  have hpadding (h : symbol = padding) : symbol ≠ 10 ∧ symbol ≠ 13 := by
    rw [h]
    decide
  fun_induction encode code raw with
  | case1 a b c rest ih =>
    rcases mem_append.mp hmem with hgroup | hrest
    · simp only [group, mem_cons, not_mem_nil, or_false] at hgroup
      rcases hgroup with h | h | h | h <;> exact hsymbol _ h
    · exact ih hrest
  | case2 a b =>
    simp only [group, cons_append, nil_append, mem_cons, not_mem_nil, or_false] at hmem
    rcases hmem with h | h | h | h
    · exact hsymbol _ h
    · exact hsymbol _ h
    · exact hsymbol _ h
    · exact hpadding h
  | case3 a =>
    simp only [group, cons_append, nil_append, mem_cons, not_mem_nil, or_false] at hmem
    rcases hmem with h | h | h | h
    · exact hsymbol _ h
    · exact hsymbol _ h
    · exact hpadding h
    · exact hpadding h
  | case4 => cases hmem

@[simp] theorem length_group (count value : Nat) : (code.group count value).length = count := by
  induction count with
  | zero => rfl
  | succ count ih => rw [group, length_cons, ih]

theorem length_encode (raw : Bytes) : (code.encode raw).length = 4 * ((raw.length + 2) / 3) := by
  fun_induction encode code raw with
  | case1 a b c rest ih =>
    simp only [length_append, length_group, ih, length_cons]
    omega
  | case2 a b => simp only [length_append, length_group, length_cons, length_nil]
  | case3 a => simp only [length_append, length_group, length_cons, length_nil]
  | case4 => rfl

theorem decodeGroups_encode (raw : Bytes) : code.decodeGroups true (code.encode raw) = some raw := by
  have hbyte (byte : UInt8) (value : Nat) (h : value % 256 = byte.toNat) :
      UInt8.ofNat value = byte := by
    apply UInt8.toNat_inj.mp
    exact h
  fun_induction encode code raw with
  | case1 a b c rest ih =>
    have ha := a.toNat_lt
    have hb := b.toNat_lt
    have hc := c.toNat_lt
    simp only [group, cons_append, nil_append, decodeGroups, value?_symbol, ih,
      quantum4, natBE, Option.map_eq_map, Option.map_some]
    rw [hbyte, hbyte, hbyte] <;> omega
  | case2 a b =>
    have ha := a.toNat_lt
    have hb := b.toNat_lt
    simp only [group, cons_append, nil_append, decodeGroups, value?_symbol,
      value?_padding, quantum3, natBE, and_self, if_true]
    rw [hbyte, hbyte] <;> omega
  | case3 a =>
    have ha := a.toNat_lt
    simp only [group, cons_append, nil_append, decodeGroups, value?_symbol,
      value?_padding, quantum2, natBE, and_self, if_true]
    rw [hbyte]
    omega
  | case4 => rfl

theorem decode_encode (raw : Bytes) : code.decode true (code.encode raw) = some raw := by
  rw [decode, filter_eq_self.mpr, decodeGroups_encode]
  intro symbol hmem
  exact decide_eq_true (code.plain_of_mem_encode hmem)

end Base64

end Ivnp.Lib
