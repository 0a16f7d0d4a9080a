import Telomere.Lib.Leb128
import Telomere.Lib.Except

/-!
# Reading LEB128 numbers

A reader is the list of the bytes that are left. The three functions of the source come from one
macro, with the width of the result and its signedness as parameters.
-/

namespace Telomere.Parser

open Lib Lib.Leb128

abbrev InputByte := BitVec 8

inductive Leb128Error where
  | eof
  | invalidLeb128Encoding
deriving DecidableEq, Repr

/-- The loop of `parse_leb128impl`: the number of bytes, the bits, the last byte, the reader. -/
def readGroups {width : Nat} (bitSize : Nat) :
    Nat → BitVec width → List InputByte →
      Except Leb128Error (Nat × BitVec width × InputByte × List InputByte)
  | _, _, [] => .error .eof
  | readBytes, result, byte :: reader =>
    let result := result ||| (byte &&& 0x7F).setWidth width <<< (readBytes * 7)
    let readBytes := readBytes + 1
    if byte &&& 0x80 = 0 then .ok (readBytes, result, byte, reader)
    else if bitSize ≤ readBytes * 7 then .error .invalidLeb128Encoding
    else readGroups bitSize readBytes result reader

def checkedShr (byte : InputByte) (shift : Nat) : Option InputByte :=
  if shift < 8 then some (byte >>> shift) else none

/-- The bits of the last byte that no bit of the number is made of. -/
def remainingBits (isSigned : Bool) (bitSize readBytes : Nat) (byte : InputByte) : InputByte :=
  let shift :=
    if isSigned then bitSize - 1 - (readBytes - 1) * 7 else bitSize - (readBytes - 1) * 7
  if isSigned ∧ byte &&& 0x40 ≠ 0 then (checkedShr (~~~byte &&& 0x3F) shift).getD 0
  else (checkedShr byte shift).getD 0

/-- The sign of a number that ends below `bitSize` bits. -/
def extendSign {width : Nat} (isSigned : Bool) (bitSize readBytes : Nat) (byte : InputByte)
    (result : BitVec width) : BitVec width :=
  if isSigned ∧ readBytes * 7 < bitSize ∧ byte &&& 0x40 ≠ 0 then
    result ||| BitVec.allOnes width <<< (readBytes * 7)
  else result

/-- `parse_leb128impl` -/
def parseLeb128 (width : Nat) (isSigned : Bool) (bitSize : Nat) (reader : List InputByte) :
    Except Leb128Error (Nat × BitVec width × List InputByte) := do
  let (readBytes, result, byte, reader) ← readGroups bitSize 0 0 reader
  let result := extendSign isSigned bitSize readBytes byte result
  if remainingBits isSigned bitSize readBytes byte ≠ 0 then .error .invalidLeb128Encoding
  else .ok (readBytes, result, reader)

/-- `Leb128Parser::parse_i64` -/
def parseI64Bits (bitSize : Nat) := parseLeb128 64 true bitSize

def parseU32 := parseLeb128 32 false 32

def parseI32 := parseLeb128 32 true 32

def parseI64 := parseI64Bits 64

variable {width bitSize readBytes n : Nat} {result word : BitVec width} {last : InputByte}
  {reader rest : List InputByte}

private theorem continues_iff : ∀ byte : InputByte, byte &&& 0x80 = 0 ↔ byte.getLsbD 7 = false := by
  decide +kernel

private theorem low_bits (byte : InputByte) :
    (byte &&& 0x7F).setWidth width = (byte.setWidth 7).setWidth width := by
  have hmask : ∀ b : InputByte, b &&& 0x7F = (b.setWidth 7).setWidth 8 := by decide +kernel
  rw [hmask]
  apply BitVec.eq_of_getLsbD_eq
  intro i hi
  by_cases hlow : i < 7
  · have hbyte : i < 8 := by omega
    simp [hlow, hbyte]
  · simp [hlow]

theorem readGroups_eq_ok (hstart : readBytes * 7 < bitSize) :
    readGroups bitSize readBytes result reader = .ok (n, word, last, rest) ↔
      ∃ init : List InputByte, reader = init ++ last :: rest ∧
        (∀ byte ∈ init, byte.getLsbD 7 = true) ∧ last.getLsbD 7 = false ∧
        (readBytes + init.length) * 7 < bitSize ∧ n = readBytes + init.length + 1 ∧
        word = result ||| BitVec.ofNat width (groups (init ++ [last])) <<< (readBytes * 7) := by
  induction reader generalizing readBytes result with
  | nil => simp [readGroups]
  | cons byte reader ih =>
      rw [readGroups]
      simp only [continues_iff]
      by_cases hlast : byte.getLsbD 7 = false
      · rw [if_pos hlast]
        constructor
        · intro h
          simp only [Except.ok.injEq, Prod.mk.injEq] at h
          obtain ⟨rfl, rfl, rfl, rfl⟩ := h
          refine ⟨[], rfl, by simp, hlast, by simpa using hstart, rfl, ?_⟩
          rw [low_bits, ofNat_groups]
          simp [leValue]
        · rintro ⟨init, hreader, hinit, hends, hshort, rfl, rfl⟩
          cases init with
          | nil =>
              simp only [List.nil_append, List.cons.injEq] at hreader
              obtain ⟨rfl, rfl⟩ := hreader
              rw [low_bits, ofNat_groups]
              simp [leValue]
          | cons first init =>
              simp only [List.cons_append, List.cons.injEq] at hreader
              have hfirst := hinit first (by simp)
              rw [← hreader.1, hlast] at hfirst
              contradiction
      · rw [if_neg hlast]
        have hword : ∀ init : List InputByte,
            result ||| (byte &&& 0x7F).setWidth width <<< (readBytes * 7) |||
                BitVec.ofNat width (groups (init ++ [last])) <<< ((readBytes + 1) * 7) =
              result ||| BitVec.ofNat width (groups (byte :: init ++ [last])) <<<
                (readBytes * 7) := fun init => by
          rw [low_bits, ofNat_groups, ofNat_groups, List.cons_append, List.map_cons, leValue,
            BitVec.shiftLeft_or_distrib, BitVec.or_assoc, Nat.add_mul, Nat.one_mul, Nat.add_comm,
            ← BitVec.shiftLeft_add]
        by_cases hmore : bitSize ≤ (readBytes + 1) * 7
        · rw [if_pos hmore]
          refine ⟨fun h => by simp at h, ?_⟩
          rintro ⟨init, hreader, hinit, hends, hshort, -⟩
          cases init with
          | nil =>
              simp only [List.nil_append, List.cons.injEq] at hreader
              rw [hreader.1] at hlast
              contradiction
          | cons first init =>
              simp only [List.length_cons] at hshort
              omega
        · rw [if_neg hmore, ih (by omega)]
          constructor
          · rintro ⟨init, rfl, hinit, hends, hshort, rfl, rfl⟩
            refine ⟨byte :: init, rfl, ?_, hends, ?_, ?_, hword init⟩
            · simpa [hlast] using hinit
            · simp only [List.length_cons]
              omega
            · simp only [List.length_cons]
              omega
          · rintro ⟨init, hreader, hinit, hends, hshort, rfl, rfl⟩
            cases init with
            | nil =>
                simp only [List.nil_append, List.cons.injEq] at hreader
                rw [hreader.1] at hlast
                contradiction
            | cons first init =>
                simp only [List.cons_append, List.cons.injEq] at hreader
                obtain ⟨rfl, rfl⟩ := hreader
                refine ⟨init, rfl, fun b hb => hinit b (by simp [hb]), hends, ?_, ?_, ?_⟩
                · simp only [List.length_cons] at hshort
                  omega
                · simp only [List.length_cons]
                  omega
                · exact (hword init).symm

private theorem signedRest_eq_zero : ∀ shift < 8, ∀ byte : InputByte, byte.getLsbD 7 = false →
    ((if byte &&& 0x40 ≠ 0 then (~~~byte &&& 0x3F) >>> shift else byte >>> shift) = 0 ↔
      ∀ i < 7, shift ≤ i → byte.getLsbD i = byte.getLsbD 6) := by
  decide +kernel

private theorem unsignedRest_eq_zero : ∀ shift < 8, ∀ byte : InputByte, byte.getLsbD 7 = false →
    (byte >>> shift = 0 ↔ ∀ i < 7, shift ≤ i → byte.getLsbD i = false) := by
  decide +kernel

variable {used : Nat}

theorem remainingBits_signed (hends : last.getLsbD 7 = false) (hused : 7 * used < bitSize) :
    remainingBits true bitSize (used + 1) last = 0 ↔
      ∀ i < 7, bitSize ≤ 7 * used + i + 1 → last.getLsbD i = last.getLsbD 6 := by
  have hplace (i : Nat) : bitSize ≤ 7 * used + i + 1 ↔ bitSize - 1 - used * 7 ≤ i := by omega
  simp only [remainingBits, Nat.add_sub_cancel, true_and, if_true, checkedShr, hplace]
  by_cases hshift : bitSize - 1 - used * 7 < 8
  · simp only [if_pos hshift, Option.getD_some]
    exact signedRest_eq_zero _ hshift last hends
  · simp only [if_neg hshift, Option.getD_none, ite_self, true_iff]
    intro i hi hle
    omega

theorem remainingBits_unsigned (hends : last.getLsbD 7 = false) (hused : 7 * used < bitSize) :
    remainingBits false bitSize (used + 1) last = 0 ↔
      ∀ i < 7, bitSize ≤ 7 * used + i → last.getLsbD i = false := by
  have hplace (i : Nat) : bitSize ≤ 7 * used + i ↔ bitSize - used * 7 ≤ i := by omega
  simp only [remainingBits, Nat.add_sub_cancel, Bool.false_eq_true, false_and, if_false,
    checkedShr, hplace]
  by_cases hshift : bitSize - used * 7 < 8
  · simp only [if_pos hshift, Option.getD_some]
    exact unsignedRest_eq_zero _ hshift last hends
  · simp only [if_neg hshift, Option.getD_none, true_iff]
    intro i hi hle
    omega

private theorem sign_iff : ∀ byte : InputByte, byte &&& 0x40 ≠ 0 ↔ byte.getLsbD 6 = true := by
  decide +kernel

/-- The bits of a signed number: its sign is put above it when the groups end below the width. -/
def signedWord (width bitSize : Nat) (init : List InputByte) (last : InputByte) : BitVec width :=
  if 7 * (init.length + 1) < bitSize then BitVec.ofInt width (signedGroups init last)
  else BitVec.ofNat width (groups (init ++ [last]))

/-- Setting the bits from `k` on takes `2 ^ k` away. -/
private theorem or_high {value k : Nat} (hvalue : value < 2 ^ k) :
    BitVec.ofNat width value ||| BitVec.allOnes width <<< k =
      BitVec.ofInt width (value - 2 ^ k) := by
  have hapart : BitVec.ofNat width value &&& BitVec.allOnes width <<< k = BitVec.ofNat width 0 := by
    apply BitVec.eq_of_getLsbD_eq
    intro i hi
    rw [BitVec.getLsbD_and, BitVec.getLsbD_ofNat, BitVec.getLsbD_shiftLeft]
    by_cases hlow : i < k
    · simp [hlow]
    · have hzero : value.testBit i = false :=
        Nat.testBit_lt_two_pow (Nat.lt_of_lt_of_le hvalue
          (Nat.pow_le_pow_right (by decide) (Nat.le_of_not_lt hlow)))
      simp [hzero]
  have hones : BitVec.allOnes width <<< k = -BitVec.ofNat width (2 ^ k) := by
    have hunit : BitVec.ofNat width 1 <<< k = BitVec.ofNat width (2 ^ k) := by
      apply BitVec.eq_of_toNat_eq
      rw [BitVec.toNat_shiftLeft, BitVec.toNat_ofNat, BitVec.toNat_ofNat, Nat.shiftLeft_eq,
        Nat.mod_mul_mod, Nat.one_mul]
    rw [← BitVec.neg_one_eq_allOnes, BitVec.shiftLeft_neg, hunit]
  have hpow : (2 : Int) ^ k = ((2 ^ k : Nat) : Int) := by push_cast; rfl
  rw [← BitVec.add_eq_or_of_and_eq_zero _ _ hapart, hones, Int.sub_eq_add_neg, BitVec.ofInt_add,
    BitVec.ofInt_neg, hpow, BitVec.ofInt_natCast, BitVec.ofInt_natCast]

theorem parseLeb128_eq_ok {isSigned : Bool} (hbits : 0 < bitSize) :
    parseLeb128 width isSigned bitSize reader = .ok (n, word, rest) ↔
      ∃ (init : List InputByte) (last : InputByte), Framed bitSize init last ∧
        remainingBits isSigned bitSize (init.length + 1) last = 0 ∧
        reader = init ++ last :: rest ∧ n = init.length + 1 ∧
        word = extendSign isSigned bitSize (init.length + 1) last
          (BitVec.ofNat width (groups (init ++ [last]))) := by
  have hstart : 0 * 7 < bitSize := by omega
  have hzero (value : BitVec width) : (0 : BitVec width) ||| value <<< (0 * 7) = value := by
    simp
  constructor
  · intro h
    obtain ⟨⟨readBytes, result, last, left⟩, hread, hend⟩ := bind_eq_ok.mp h
    obtain ⟨init, hreader, hinit, hends, hshort, hbytes, hresult⟩ :=
      (readGroups_eq_ok hstart).mp hread
    obtain ⟨hremaining, hend⟩ := ite_error_eq_ok.mp hend
    rw [Nat.zero_add] at hbytes hshort
    rw [hzero] at hresult
    subst hbytes hresult
    simp only [Except.ok.injEq, Prod.mk.injEq] at hend
    obtain ⟨rfl, rfl, rfl⟩ := hend
    exact ⟨init, last, ⟨hinit, hends, by omega⟩, not_not.mp hremaining, hreader, rfl, rfl⟩
  · rintro ⟨init, last, hframed, hremaining, hreader, rfl, rfl⟩
    have hlength := hframed.length_mul_lt
    have hread : readGroups bitSize 0 (0 : BitVec width) reader = .ok (init.length + 1,
        BitVec.ofNat width (groups (init ++ [last])), last, rest) :=
      (readGroups_eq_ok hstart).mpr ⟨init, hreader, hframed.continued, hframed.ends, by omega,
        by rw [Nat.zero_add], (hzero _).symm⟩
    unfold parseLeb128
    rw [hread, ok_bind]
    simp [hremaining]

theorem extendSign_signed (init : List InputByte) (last : InputByte) :
    extendSign true bitSize (init.length + 1) last (BitVec.ofNat width (groups (init ++ [last]))) =
      signedWord width bitSize init last := by
  have hgroups := groups_lt (init ++ [last])
  rw [List.length_append, List.length_singleton] at hgroups
  simp only [extendSign, signedWord, signedGroups, true_and, sign_iff, Nat.mul_comm _ 7]
  by_cases hshort : 7 * (init.length + 1) < bitSize
  · by_cases hsign : last.getLsbD 6 = true
    · rw [if_pos ⟨hshort, hsign⟩, if_pos hshort, if_pos hsign, or_high hgroups]
    · rw [if_neg fun h => hsign h.2, if_pos hshort, if_neg hsign, Int.sub_zero,
        BitVec.ofInt_natCast]
  · rw [if_neg fun h => hshort h.1, if_neg hshort]

/-- Signed reading takes the encodings of signed numbers, and no other bytes. -/
theorem parseLeb128_signed (hbits : 0 < bitSize) :
    parseLeb128 width true bitSize reader = .ok (n, word, rest) ↔
      ∃ (init : List InputByte) (last : InputByte), SignedEncoding bitSize init last ∧
        reader = init ++ last :: rest ∧ n = init.length + 1 ∧
        word = signedWord width bitSize init last := by
  rw [parseLeb128_eq_ok hbits]
  simp only [extendSign_signed]
  constructor
  · rintro ⟨init, last, hframed, hremaining, h⟩
    have hunused := (remainingBits_signed hframed.ends hframed.length_mul_lt).mp hremaining
    exact ⟨init, last, ⟨hframed, hunused⟩, h⟩
  · rintro ⟨init, last, henc, h⟩
    have hremaining := (remainingBits_signed henc.ends henc.length_mul_lt).mpr henc.unused
    exact ⟨init, last, henc.toFramed, hremaining, h⟩

theorem parseLeb128_unsigned (hbits : 0 < bitSize) :
    parseLeb128 width false bitSize reader = .ok (n, word, rest) ↔
      ∃ (init : List InputByte) (last : InputByte), UnsignedEncoding bitSize init last ∧
        reader = init ++ last :: rest ∧ n = init.length + 1 ∧
        word = BitVec.ofNat width (groups (init ++ [last])) := by
  rw [parseLeb128_eq_ok hbits]
  constructor
  · rintro ⟨init, last, hframed, hremaining, h⟩
    have hunused := (remainingBits_unsigned hframed.ends hframed.length_mul_lt).mp hremaining
    exact ⟨init, last, ⟨hframed, hunused⟩, by simpa [extendSign] using h⟩
  · rintro ⟨init, last, henc, h⟩
    have hremaining := (remainingBits_unsigned henc.ends henc.length_mul_lt).mpr henc.unused
    exact ⟨init, last, henc.toFramed, hremaining, by simpa [extendSign] using h⟩

/-- At the width of the word its bits are those of the number, wherever the groups end. -/
theorem signedWord_self (init : List InputByte) (last : InputByte) :
    signedWord width width init last = BitVec.ofInt width (signedGroups init last) := by
  unfold signedWord
  by_cases hshort : 7 * (init.length + 1) < width
  · rw [if_pos hshort]
  · have hpow : BitVec.ofNat width (2 ^ (7 * (init.length + 1))) = 0 := by
      apply BitVec.eq_of_toNat_eq
      rw [BitVec.toNat_ofNat]
      exact Nat.mod_eq_zero_of_dvd (Nat.pow_dvd_pow 2 (Nat.le_of_not_lt hshort))
    rw [if_neg hshort, signedGroups]
    by_cases hsign : last.getLsbD 6 = true
    · have hcast : (2 : Int) ^ (7 * (init.length + 1)) =
          ((2 ^ (7 * (init.length + 1)) : Nat) : Int) := by
        push_cast
        rfl
      rw [if_pos hsign, Int.sub_eq_add_neg, BitVec.ofInt_add, BitVec.ofInt_neg, hcast,
        BitVec.ofInt_natCast, BitVec.ofInt_natCast, hpow]
      simp
    · rw [if_neg hsign, Int.sub_zero, BitVec.ofInt_natCast]

theorem toInt_signedWord {init : List InputByte} (h : SignedEncoding width init last) :
    (signedWord width width init last).toInt = signedGroups init last := by
  have hlength := h.length_mul_lt
  rw [signedWord_self]
  exact BitVec.toInt_ofInt_eq_self (by omega) h.bounds.1 h.bounds.2

theorem parseLeb128_unsigned_exact (hbits : 0 < width) (v : BitVec width) :
    parseLeb128 width false width reader = .ok (n, v, rest) ↔
      ∃ (init : List InputByte) (last : InputByte), UnsignedEncoding width init last ∧
        reader = init ++ last :: rest ∧ n = init.length + 1 ∧ v.toNat = groups (init ++ [last]) := by
  rw [parseLeb128_unsigned hbits]
  refine exists_congr fun init => exists_congr fun last => and_congr_right fun henc =>
    and_congr_right fun _ => and_congr_right fun _ => ?_
  rw [← BitVec.toNat_inj, BitVec.toNat_ofNat, Nat.mod_eq_of_lt henc.groups_lt]

theorem parseLeb128_signed_exact (hbits : 0 < width) (v : BitVec width) :
    parseLeb128 width true width reader = .ok (n, v, rest) ↔
      ∃ (init : List InputByte) (last : InputByte), SignedEncoding width init last ∧
        reader = init ++ last :: rest ∧ n = init.length + 1 ∧ v.toInt = signedGroups init last := by
  rw [parseLeb128_signed hbits]
  refine exists_congr fun init => exists_congr fun last => and_congr_right fun henc =>
    and_congr_right fun _ => and_congr_right fun _ => ?_
  rw [← BitVec.toInt_inj, toInt_signedWord henc]

/-- Numbers of 32 and of 64 bits are read from their encodings, to their values, and from nothing
else. -/
theorem parseNumbers_exact (reader rest : List InputByte) (n : Nat) :
    (∀ v, parseU32 reader = .ok (n, v, rest) ↔
      ∃ init last, UnsignedEncoding 32 init last ∧ reader = init ++ last :: rest ∧
        n = init.length + 1 ∧ v.toNat = groups (init ++ [last])) ∧
    (∀ v, parseI32 reader = .ok (n, v, rest) ↔
      ∃ init last, SignedEncoding 32 init last ∧ reader = init ++ last :: rest ∧
        n = init.length + 1 ∧ v.toInt = signedGroups init last) ∧
    (∀ v, parseI64 reader = .ok (n, v, rest) ↔
      ∃ init last, SignedEncoding 64 init last ∧ reader = init ++ last :: rest ∧
        n = init.length + 1 ∧ v.toInt = signedGroups init last) :=
  ⟨parseLeb128_unsigned_exact (by decide), parseLeb128_signed_exact (by decide),
    parseLeb128_signed_exact (by decide)⟩

end Telomere.Parser
