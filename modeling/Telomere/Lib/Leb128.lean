import Telomere.Lib.LittleEndian
import Mathlib.Tactic.Linarith
import Mathlib.Tactic.Positivity
import Mathlib.Tactic.Ring

/-!
# LEB128 numbers

A number in groups of seven bits, the lowest group first. A byte with its highest bit set is followed
by another one.
-/

namespace Telomere.Lib.Leb128

def groups : List (BitVec 8) → Nat
  | [] => 0
  | byte :: bytes => byte.toNat % 128 + 128 * groups bytes

/-- The same with the highest bit of the last group as the sign. -/
def signedGroups (init : List (BitVec 8)) (last : BitVec 8) : Int :=
  groups (init ++ [last]) - if last.getLsbD 6 then 2 ^ (7 * (init.length + 1)) else 0

/-- Bytes that end where the number ends, no more of them than `bitSize` bits need. -/
structure Framed (bitSize : Nat) (init : List (BitVec 8)) (last : BitVec 8) : Prop where
  continued : ∀ byte ∈ init, byte.getLsbD 7 = true
  ends : last.getLsbD 7 = false
  short : init.length + 1 ≤ (bitSize + 6) / 7

/-- An encoding of an unsigned number of `bitSize` bits: the bits from there on are zero. -/
structure UnsignedEncoding (bitSize : Nat) (init : List (BitVec 8)) (last : BitVec 8) : Prop
    extends Framed bitSize init last where
  unused : ∀ i < 7, bitSize ≤ 7 * init.length + i → last.getLsbD i = false

/-- An encoding of a signed number of `bitSize` bits: the bits from its sign on are all equal. -/
structure SignedEncoding (bitSize : Nat) (init : List (BitVec 8)) (last : BitVec 8) : Prop
    extends Framed bitSize init last where
  unused : ∀ i < 7, bitSize ≤ 7 * init.length + i + 1 → last.getLsbD i = last.getLsbD 6

variable {bitSize : Nat} {init : List (BitVec 8)} {last : BitVec 8}

@[simp] theorem groups_nil : groups [] = 0 := rfl

@[simp] theorem groups_cons (byte : BitVec 8) (bytes : List (BitVec 8)) :
    groups (byte :: bytes) = byte.toNat % 128 + 128 * groups bytes := rfl

theorem groups_append (left right : List (BitVec 8)) :
    groups (left ++ right) = groups left + 2 ^ (7 * left.length) * groups right := by
  induction left with
  | nil => simp
  | cons byte left ih =>
      have hpow : 2 ^ (7 * (left.length + 1)) = 128 * 2 ^ (7 * left.length) := by
        rw [Nat.mul_succ, Nat.pow_add]
        omega
      simp only [List.cons_append, groups_cons, ih, List.length_cons, hpow]
      ring

theorem groups_lt (bytes : List (BitVec 8)) : groups bytes < 2 ^ (7 * bytes.length) := by
  induction bytes with
  | nil => simp
  | cons byte bytes ih =>
      have hpow : 2 ^ (7 * (bytes.length + 1)) = 128 * 2 ^ (7 * bytes.length) := by
        rw [Nat.mul_succ, Nat.pow_add]
        omega
      have hgroup : byte.toNat % 128 < 128 := Nat.mod_lt _ (by decide)
      simp only [groups_cons, List.length_cons, hpow]
      omega

theorem groups_snoc (init : List (BitVec 8)) (last : BitVec 8) :
    groups (init ++ [last]) = groups init + 2 ^ (7 * init.length) * (last.toNat % 128) := by
  simp [groups_append]

theorem Framed.length_mul_lt (h : Framed bitSize init last) : 7 * init.length < bitSize := by
  have hshort := h.short
  omega

private theorem last_lt : ∀ m < 7, ∀ byte : BitVec 8, (∀ i < 7, m ≤ i → byte.getLsbD i = false) →
    byte.toNat % 128 < 2 ^ m := by
  decide +kernel

theorem UnsignedEncoding.groups_lt (h : UnsignedEncoding bitSize init last) :
    groups (init ++ [last]) < 2 ^ bitSize := by
  have hlength := h.length_mul_lt
  have hinit := Leb128.groups_lt init
  have hlast : last.toNat % 128 < 2 ^ (bitSize - 7 * init.length) := by
    by_cases hm : bitSize - 7 * init.length < 7
    · exact last_lt _ hm last fun i hi hle => h.unused i hi (by omega)
    · have hpow : 2 ^ 7 ≤ 2 ^ (bitSize - 7 * init.length) :=
        Nat.pow_le_pow_right (by decide) (by omega)
      have hgroup : last.toNat % 128 < 128 := Nat.mod_lt _ (by decide)
      omega
  calc groups (init ++ [last])
      = groups init + 2 ^ (7 * init.length) * (last.toNat % 128) := groups_snoc init last
    _ < 2 ^ (7 * init.length) + 2 ^ (7 * init.length) * (last.toNat % 128) := by omega
    _ = 2 ^ (7 * init.length) * (last.toNat % 128 + 1) := by ring
    _ ≤ 2 ^ (7 * init.length) * 2 ^ (bitSize - 7 * init.length) := Nat.mul_le_mul_left _ hlast
    _ = 2 ^ bitSize := by rw [← Nat.pow_add]; congr 1; omega

theorem signedGroups_neg_iff (init : List (BitVec 8)) (last : BitVec 8) :
    signedGroups init last < 0 ↔ last.getLsbD 6 = true := by
  have hlt : (groups (init ++ [last]) : Int) < 2 ^ (7 * (init.length + 1)) := by
    have h := groups_lt (init ++ [last])
    rw [List.length_append, List.length_singleton] at h
    exact_mod_cast h
  unfold signedGroups
  by_cases hsign : last.getLsbD 6 = true
  · rw [if_pos hsign]
    exact iff_of_true (by omega) hsign
  · rw [if_neg hsign]
    exact iff_of_false (by omega) hsign

def signedLast (last : BitVec 8) : Int := (last.toNat % 128 : Nat) - if last.getLsbD 6 then 128 else 0

theorem signedGroups_eq (init : List (BitVec 8)) (last : BitVec 8) :
    signedGroups init last = groups init + 2 ^ (7 * init.length) * signedLast last := by
  have hpow : (2 : Int) ^ (7 * (init.length + 1)) = 2 ^ (7 * init.length) * 128 := by
    rw [Nat.mul_succ, pow_add]
    norm_num
  unfold signedGroups signedLast
  rw [groups_snoc, hpow]
  push_cast
  split <;> ring

private theorem signedLast_bounds : ∀ m < 7, ∀ byte : BitVec 8,
    (∀ i < 7, m ≤ i → byte.getLsbD i = byte.getLsbD 6) →
      -2 ^ m ≤ signedLast byte ∧ signedLast byte + 1 ≤ 2 ^ m := by
  decide +kernel

theorem SignedEncoding.bounds (h : SignedEncoding bitSize init last) :
    -2 ^ (bitSize - 1) ≤ signedGroups init last ∧ signedGroups init last < 2 ^ (bitSize - 1) := by
  have hlength := h.length_mul_lt
  have hinit : (groups init : Int) < 2 ^ (7 * init.length) := by exact_mod_cast groups_lt init
  have hlast : -2 ^ (bitSize - 1 - 7 * init.length) ≤ signedLast last ∧
      signedLast last + 1 ≤ 2 ^ (bitSize - 1 - 7 * init.length) := by
    by_cases hm : bitSize - 1 - 7 * init.length < 7
    · exact signedLast_bounds _ hm last fun i hi hle => h.unused i hi (by omega)
    · have hpow : (2 : Int) ^ 6 ≤ 2 ^ (bitSize - 1 - 7 * init.length) :=
        pow_le_pow_right₀ (by decide) (by omega)
      have hall := signedLast_bounds 6 (by decide) last fun i hi hle => by
        obtain rfl : i = 6 := by omega
        rfl
      omega
  have hsplit : (2 : Int) ^ (bitSize - 1) =
      2 ^ (7 * init.length) * 2 ^ (bitSize - 1 - 7 * init.length) := by
    rw [← pow_add]
    congr 1
    omega
  have hunit : (0 : Int) ≤ 2 ^ (7 * init.length) := by positivity
  have hlow := mul_le_mul_of_nonneg_left hlast.1 hunit
  have hhigh := mul_le_mul_of_nonneg_left hlast.2 hunit
  rw [signedGroups_eq, hsplit]
  constructor <;> linarith

theorem ofNat_groups (width : Nat) (bytes : List (BitVec 8)) :
    BitVec.ofNat width (groups bytes) = leValue width (bytes.map (BitVec.setWidth 7)) := by
  induction bytes with
  | nil => rfl
  | cons byte bytes ih =>
      have hgroup : byte.toNat % 128 < 2 ^ 7 := Nat.mod_lt _ (by decide)
      have hsum : groups (byte :: bytes) = 2 ^ 7 * groups bytes + byte.toNat % 128 := by
        rw [groups_cons]
        omega
      rw [List.map_cons, leValue, ← ih, hsum]
      apply BitVec.eq_of_getLsbD_eq
      intro i hi
      rw [BitVec.getLsbD_or, BitVec.getLsbD_setWidth, BitVec.getLsbD_shiftLeft,
        BitVec.getLsbD_ofNat, Nat.testBit_two_pow_mul_add _ hgroup]
      by_cases hlow : i < 7
      · have hbit : (byte.toNat % 128).testBit i = byte.toNat.testBit i := by
          rw [show 128 = 2 ^ 7 from rfl, Nat.testBit_mod_two_pow]
          simp [hlow]
        simp [hlow, hi, hbit, BitVec.getLsbD]
      · have hhigh : (BitVec.setWidth 7 byte).getLsbD i = false :=
          BitVec.getLsbD_of_ge _ i (by omega)
        have hless : i - 7 < width := by omega
        simp [hlow, hi, hless, BitVec.getElem_eq_testBit_toNat, BitVec.toNat_ofNat]

end Telomere.Lib.Leb128
