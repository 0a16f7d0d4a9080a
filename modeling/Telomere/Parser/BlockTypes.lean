import Telomere.Common.Types
import Telomere.Parser.Leb128

/-!
# Reading block types

A block type is a number of 33 bits: a type index, or one of the negative numbers that stand for the
value types and for no result.
-/

namespace Telomere.Parser

open Lib Lib.Leb128

inductive BlockTypeError where
  | leb128 (e : Leb128Error)
  | invalidBlockType (v : BitVec 64)
deriving DecidableEq, Repr

/-- The block type that `parse_block_type` makes of the number it has read. -/
def blockTypeOf (len : Nat) (v : BitVec 64) : Except BlockTypeError BlockType :=
  if v.toInt < 0 then
    if len ≠ 1 then .error (.invalidBlockType v)
    else match v.toInt with
      | -1 => .ok (.valType .i32)
      | -2 => .ok (.valType .i64)
      | -3 => .ok (.valType .f32)
      | -4 => .ok (.valType .f64)
      | -5 => .ok (.valType .v128)
      | -16 => .ok (.valType .funcRef)
      | -17 => .ok (.valType .externRef)
      | -64 => .ok .void
      | _ => .error (.invalidBlockType v)
  else .ok (.typeIdx (v.setWidth 32).toNat)

def parseBlockType (reader : List InputByte) :
    Except BlockTypeError (Nat × BlockType × List InputByte) := do
  let (len, v, reader) ← (parseI64Bits 33 reader).mapError .leb128
  let t ← blockTypeOf len v
  return (len, t, reader)

def shortType (byte : InputByte) : Option BlockType :=
  if byte = 0x40 then some .void
  else if byte = 0x7F then some (.valType .i32)
  else if byte = 0x7E then some (.valType .i64)
  else if byte = 0x7D then some (.valType .f32)
  else if byte = 0x7C then some (.valType .f64)
  else if byte = 0x7B then some (.valType .v128)
  else if byte = 0x70 then some (.valType .funcRef)
  else if byte = 0x6F then some (.valType .externRef)
  else none

/-- What the format takes for a block type: its length, the type and what is left of the bytes. -/
inductive IsBlockType : List InputByte → Nat → BlockType → List InputByte → Prop
  | short {blocktype : BlockType} {byte : InputByte} {rest : List InputByte}
      (h : shortType byte = some blocktype) : IsBlockType (byte :: rest) 1 blocktype rest
  | index {init : List InputByte} {last : InputByte} {rest : List InputByte} {idx : Nat}
      (h : SignedEncoding 33 init last) (hidx : signedGroups init last = idx) :
      IsBlockType (init ++ last :: rest) (init.length + 1) (.typeIdx idx) rest

/-- The block type at the start of the bytes is read as the format has it, and a negative number
that is no short form is refused. -/
def BlockTypeExact (reader : List InputByte) : Prop :=
  (∀ n blocktype rest, parseBlockType reader = .ok (n, blocktype, rest) ↔
    IsBlockType reader n blocktype rest) ∧
  ∀ init last rest, SignedEncoding 33 init last → signedGroups init last < 0 →
    reader = init ++ last :: rest → (init = [] → shortType last = none) →
      ∃ e, parseBlockType reader = .error e

/-- The bytes start with a negative number in five bytes. -/
def StartsNegative (reader : List InputByte) : Prop :=
  ∃ init last rest, SignedEncoding 33 init last ∧ init.length = 4 ∧ signedGroups init last < 0 ∧
    reader = init ++ last :: rest

variable {init : List InputByte} {last : InputByte} {reader rest : List InputByte} {n : Nat}
  {v : BitVec 64} {blocktype : BlockType}

private theorem shortType_bits (byte : InputByte) (blocktype : BlockType)
    (h : shortType byte = some blocktype) : byte.getLsbD 7 = false ∧ byte.getLsbD 6 = true := by
  have hbits : ∀ byte : InputByte, (shortType byte).isSome = true →
      byte.getLsbD 7 = false ∧ byte.getLsbD 6 = true := by
    decide +kernel
  exact hbits byte (by rw [h]; rfl)

private theorem shortType_encoding {byte : InputByte} {blocktype : BlockType}
    (h : shortType byte = some blocktype) : SignedEncoding 33 [] byte where
  continued := by simp
  ends := (shortType_bits byte blocktype h).1
  short := by decide
  unused i hi hle := by
    simp only [List.length_nil] at hle
    omega

private theorem blockTypeOf_short : ∀ byte : InputByte, byte.getLsbD 7 = false →
    byte.getLsbD 6 = true → ∀ v, v.toInt = signedLast byte →
      blockTypeOf 1 v = match shortType byte with
        | some blocktype => .ok blocktype
        | none => .error (.invalidBlockType v) := by
  have hbytes : ∀ byte : InputByte, byte.getLsbD 7 = false → byte.getLsbD 6 = true →
      blockTypeOf 1 (BitVec.ofInt 64 (signedLast byte)) = match shortType byte with
        | some blocktype => .ok blocktype
        | none => .error (.invalidBlockType (BitVec.ofInt 64 (signedLast byte))) := by
    decide +kernel
  intro byte hends hsign v hv
  have hword : v = BitVec.ofInt 64 (signedLast byte) := by rw [← hv, BitVec.ofInt_toInt]
  rw [hword]
  exact hbytes byte hends hsign

theorem parseBlockType_encoding (h : SignedEncoding 33 init last) :
    parseBlockType (init ++ last :: rest) =
      (blockTypeOf (init.length + 1) (signedWord 64 33 init last)).map
        fun blocktype => (init.length + 1, blocktype, rest) := by
  have hparse : parseI64Bits 33 (init ++ last :: rest) =
      .ok (init.length + 1, signedWord 64 33 init last, rest) :=
    (parseLeb128_signed (by decide)).mpr ⟨init, last, h, rfl, rfl, rfl⟩
  unfold parseBlockType
  rw [hparse]
  simp only [Except.mapError, ok_bind]
  cases blockTypeOf (init.length + 1) (signedWord 64 33 init last) <;> rfl

theorem parseBlockType_eq_ok :
    parseBlockType reader = .ok (n, blocktype, rest) ↔
      ∃ init last, SignedEncoding 33 init last ∧ reader = init ++ last :: rest ∧
        n = init.length + 1 ∧ blockTypeOf (init.length + 1) (signedWord 64 33 init last) =
          .ok blocktype := by
  constructor
  · intro h
    cases hread : parseI64Bits 33 reader with
    | error e =>
        unfold parseBlockType at h
        rw [hread] at h
        simp [Except.mapError, error_bind] at h
    | ok read =>
        obtain ⟨len, v, left⟩ := read
        obtain ⟨init, last, henc, rfl, rfl, rfl⟩ := (parseLeb128_signed (by decide)).mp hread
        rw [parseBlockType_encoding henc] at h
        cases ht : blockTypeOf (init.length + 1) (signedWord 64 33 init last) with
        | error e => simp [ht, Except.map] at h
        | ok t =>
            simp only [ht, Except.map, Except.ok.injEq, Prod.mk.injEq] at h
            obtain ⟨rfl, rfl, rfl⟩ := h
            exact ⟨init, last, henc, rfl, rfl, ht⟩
  · rintro ⟨init, last, henc, rfl, rfl, ht⟩
    rw [parseBlockType_encoding henc, ht]
    rfl

theorem toInt_signedWord_typeIdx (h : SignedEncoding 33 init last) :
    (signedWord 64 33 init last).toInt =
      if init.length = 4 then (groups (init ++ [last]) : Int) else signedGroups init last := by
  have hshort := h.short
  have hbounds := h.bounds
  have hgroups := groups_lt (init ++ [last])
  unfold signedWord
  by_cases hfive : init.length = 4
  · rw [List.length_append, List.length_singleton, hfive] at hgroups
    rw [if_neg (by omega), if_pos hfive, ← BitVec.ofInt_natCast]
    exact BitVec.toInt_ofInt_eq_self (by decide) (by omega) (by omega)
  · rw [if_pos (by omega), if_neg hfive]
    exact BitVec.toInt_ofInt_eq_self (by decide) (by omega) (by omega)

theorem blockTypeOf_index {len idx : Nat} (hv : v.toInt = idx) (hidx : idx < 2 ^ 32) :
    blockTypeOf len v = .ok (.typeIdx idx) := by
  have hword : v.toNat = idx := by
    have hnat := BitVec.toInt_eq_toNat_cond v
    have hlt := v.isLt
    split at hnat <;> omega
  have hcut : (v.setWidth 32).toNat = idx := by
    rw [BitVec.toNat_setWidth, hword, Nat.mod_eq_of_lt hidx]
  unfold blockTypeOf
  rw [if_neg (by omega), hcut]

theorem blockTypeOf_long {len : Nat} (hv : v.toInt < 0) (hlen : len ≠ 1) :
    blockTypeOf len v = .error (.invalidBlockType v) := by
  unfold blockTypeOf
  rw [if_pos hv, if_pos hlen]

theorem blockTypeOf_signedWord (h : SignedEncoding 33 init last)
    (hkept : init.length = 4 → 0 ≤ signedGroups init last) :
    blockTypeOf (init.length + 1) (signedWord 64 33 init last) = .ok blocktype ↔
      (init = [] ∧ shortType last = some blocktype) ∨
      ∃ idx : Nat, signedGroups init last = idx ∧ blocktype = .typeIdx idx := by
  have hbounds := h.bounds
  have hword : (signedWord 64 33 init last).toInt = signedGroups init last := by
    rw [toInt_signedWord_typeIdx h]
    by_cases hfive : init.length = 4
    · have hsign : ¬last.getLsbD 6 = true := by
        rw [← signedGroups_neg_iff init]
        have hpos := hkept hfive
        omega
      rw [if_pos hfive, signedGroups, if_neg hsign, Int.sub_zero]
    · rw [if_neg hfive]
  by_cases hneg : signedGroups init last < 0
  · have hsign : last.getLsbD 6 = true := (signedGroups_neg_iff init last).mp hneg
    have hidx : ¬∃ idx : Nat, signedGroups init last = idx ∧ blocktype = .typeIdx idx := by
      rintro ⟨idx, hidx, -⟩
      omega
    simp only [hidx, or_false]
    cases init with
    | nil =>
        rw [List.length_nil, blockTypeOf_short last h.ends hsign _ (by
          rw [hword, signedGroups_eq]
          simp)]
        cases hshort : shortType last <;> simp
    | cons first init =>
        rw [blockTypeOf_long (by omega) (by simp)]
        simp
  · obtain ⟨idx, hidx⟩ := Int.eq_ofNat_of_zero_le (Int.not_lt.mp hneg)
    have hnone : ¬(init = [] ∧ shortType last = some blocktype) := by
      rintro ⟨rfl, hshort⟩
      have hsign := (shortType_bits last blocktype hshort).2
      exact hneg ((signedGroups_neg_iff [] last).mpr hsign)
    rw [blockTypeOf_index (hword.trans hidx) (by omega), Except.ok.injEq]
    constructor
    · intro h
      exact .inr ⟨idx, hidx, h.symm⟩
    · rintro (h | ⟨idx', hidx', rfl⟩)
      · exact absurd h hnone
      · rw [hidx, Int.natCast_inj] at hidx'
        rw [hidx']

/-- Block types are read as the format has them but for the negative numbers of five bytes, of which
the code makes type indices. -/
theorem parseBlockType_exact_iff (reader : List InputByte) :
    BlockTypeExact reader ↔ ¬StartsNegative reader := by
  constructor
  · rintro ⟨-, hrefused⟩ ⟨init, last, rest, henc, hfive, hneg, hreader⟩
    obtain ⟨e, he⟩ := hrefused init last rest henc hneg hreader fun hnil => by simp [hnil] at hfive
    have hgroups := groups_lt (init ++ [last])
    have hword := toInt_signedWord_typeIdx henc
    rw [if_pos hfive] at hword
    have hok : ∃ blocktype, blockTypeOf (init.length + 1) (signedWord 64 33 init last) =
        .ok blocktype := by
      unfold blockTypeOf
      rw [if_neg (by omega)]
      exact ⟨_, rfl⟩
    obtain ⟨blocktype, hok⟩ := hok
    have hparse := parseBlockType_eq_ok.mpr ⟨init, last, henc, hreader, rfl, hok⟩
    rw [he] at hparse
    contradiction
  · intro hnone
    have hkept : ∀ init last rest, SignedEncoding 33 init last → reader = init ++ last :: rest →
        init.length = 4 → 0 ≤ signedGroups init last := fun init last rest henc hreader hfive => by
      by_contra hneg
      exact hnone ⟨init, last, rest, henc, hfive, Int.not_le.mp hneg, hreader⟩
    constructor
    · intro n blocktype rest
      rw [parseBlockType_eq_ok]
      constructor
      · rintro ⟨init, last, henc, hreader, rfl, hok⟩
        obtain ⟨rfl, hshort⟩ | ⟨idx, hidx, rfl⟩ :=
          (blockTypeOf_signedWord henc (hkept init last rest henc hreader)).mp hok
        · rw [hreader]
          exact .short hshort
        · rw [hreader]
          exact .index henc hidx
      · intro h
        cases h with
        | @short blocktype byte rest hshort =>
            have henc := shortType_encoding hshort
            exact ⟨[], byte, henc, rfl, rfl,
              (blockTypeOf_signedWord henc (by simp)).mpr (.inl ⟨rfl, hshort⟩)⟩
        | @index init last rest idx henc hidx =>
            exact ⟨init, last, henc, rfl, rfl,
              (blockTypeOf_signedWord henc (by omega)).mpr (.inr ⟨idx, hidx, rfl⟩)⟩
    · rintro init last rest henc hneg rfl hshort
      rw [parseBlockType_encoding henc]
      cases hok : blockTypeOf (init.length + 1) (signedWord 64 33 init last) with
      | error e => exact ⟨e, rfl⟩
      | ok blocktype =>
          obtain ⟨hnil, htype⟩ | ⟨idx, hidx, -⟩ :=
            (blockTypeOf_signedWord henc (hkept init last rest henc rfl)).mp hok
          · rw [hshort hnil] at htype
            contradiction
          · omega

/-- The number -2^32 in five bytes is read as the type index 0. -/
theorem not_blockTypeExact_fiveBytes : ¬BlockTypeExact [0x80, 0x80, 0x80, 0x80, 0x70] := by
  rintro ⟨-, hrefused⟩
  have hparse : parseBlockType [0x80, 0x80, 0x80, 0x80, 0x70] = .ok (5, .typeIdx 0, []) := by
    decide +kernel
  have henc : SignedEncoding 33 [0x80, 0x80, 0x80, 0x80] 0x70 :=
    ⟨⟨by decide, by decide, by decide⟩, by decide⟩
  have hneg : signedGroups [0x80, 0x80, 0x80, 0x80] 0x70 < 0 := by decide +kernel
  obtain ⟨e, he⟩ := hrefused _ _ [] henc hneg rfl (by simp)
  rw [hparse] at he
  contradiction

end Telomere.Parser
