import Telomere.Jit.Masm
import Telomere.Lib.Except
import Telomere.Lib.Slices

/-!
# Branch instructions

The words and bytes of branches on the three machines, as the assemblers put them together, and what a
machine reads from them. A displacement counts from the start of the instruction, on x86-64 from its
end.
-/

namespace Telomere.Jit

open Lib

theorem setWidth_ofInt {width : Nat} (hwidth : width ≤ 32) (x : Int) :
    (BitVec.ofInt 32 x).setWidth width = BitVec.ofInt width x := by
  have hdvd : ((2 ^ width : Nat) : Int) ∣ ((2 ^ 32 : Nat) : Int) :=
    Int.natCast_dvd_natCast.mpr (Nat.pow_dvd_pow 2 hwidth)
  have hpos : (0 : Int) < (2 ^ width : Nat) := Int.natCast_pos.mpr (Nat.two_pow_pos width)
  have hnonneg := Int.emod_nonneg x (Int.ne_of_gt (show (0 : Int) < (2 ^ 32 : Nat) by decide))
  have hnonneg' := Int.emod_nonneg x (Int.ne_of_gt hpos)
  apply BitVec.eq_of_toNat_eq
  rw [BitVec.toNat_setWidth, BitVec.toNat_ofInt, BitVec.toNat_ofInt]
  apply Int.natCast_inj.mp
  rw [Int.natCast_emod, Int.toNat_of_nonneg hnonneg, Int.toNat_of_nonneg hnonneg',
    Int.emod_emod_of_dvd x hdvd]

theorem toInt_field {width : Nat} {x : Int} (hwidth : width ≤ 32) (hpos : 0 < width)
    (hlow : -2 ^ (width - 1) ≤ x) (hhigh : x < 2 ^ (width - 1)) :
    ((BitVec.ofInt 32 x).setWidth width).toInt = x := by
  rw [setWidth_ofInt hwidth, BitVec.toInt_ofInt_eq_self hpos hlow hhigh]

theorem lowest_of_even {x : Int} (h : x % 2 = 0) : (BitVec.ofInt 32 x)[0] = false := by
  rw [← BitVec.getLsbD_eq_getElem, BitVec.getLsbD, Nat.testBit_zero, BitVec.toNat_ofInt]
  simp only [decide_eq_false_iff_not]
  omega

/-- `BranchKind` of the two machines whose virtual registers are slots. -/
inductive BranchKind where
  | b
  | bCond (cond : Cond)
  | cbnzX (reg : VReg)
  | cbnzW (reg : VReg)
deriving DecidableEq, Repr

namespace Riscv64

def branchWord (funct3 : BitVec 32) (rs1 rs2 : BitVec 8) (offset : BitVec 32) : BitVec 32 :=
  let imm := offset &&& 0x1fff
  ((imm >>> 12) <<< 31) ||| (((imm >>> 5) &&& 0x3f) <<< 25) ||| (rs2.setWidth 32 <<< 20) |||
    (rs1.setWidth 32 <<< 15) ||| (funct3 <<< 12) ||| (((imm >>> 1) &&& 0xf) <<< 8) |||
    (((imm >>> 11) &&& 1) <<< 7) ||| 0x63

def encodeB (funct3 : BitVec 32) (rs1 rs2 : BitVec 8) (offset : Int) : Option (BitVec 32) :=
  if offset % 2 ≠ 0 ∨ ¬(-4096 ≤ offset ∧ offset ≤ 4094) then none
  else some (branchWord funct3 rs1 rs2 (BitVec.ofInt 32 offset))

def jalWord (rd : BitVec 8) (offset : BitVec 32) : BitVec 32 :=
  let imm := offset &&& 0x1fffff
  ((imm >>> 20) <<< 31) ||| (((imm >>> 1) &&& 0x3ff) <<< 21) ||| (((imm >>> 11) &&& 1) <<< 20) |||
    (((imm >>> 12) &&& 0xff) <<< 12) ||| (rd.setWidth 32 <<< 7) ||| 0x6f

def encodeJal (rd : BitVec 8) (offset : Int) : Option (BitVec 32) :=
  if offset % 2 ≠ 0 ∨ ¬(-2 ^ 20 ≤ offset ∧ offset ≤ 2 ^ 20 - 2) then none
  else some (jalWord rd (BitVec.ofInt 32 offset))

inductive Decoded where
  | jal (rd : BitVec 5) (offset : Int)
  | branch (funct3 : BitVec 3) (rs1 rs2 : BitVec 5) (offset : Int)
deriving DecidableEq, Repr

def jalOffset (w : BitVec 32) : BitVec 21 :=
  (((w >>> 31) <<< 20) ||| (((w >>> 12) &&& 0xff) <<< 12) ||| (((w >>> 20) &&& 1) <<< 11) |||
    (((w >>> 21) &&& 0x3ff) <<< 1)).setWidth 21

def branchOffset (w : BitVec 32) : BitVec 13 :=
  (((w >>> 31) <<< 12) ||| (((w >>> 7) &&& 1) <<< 11) ||| (((w >>> 25) &&& 0x3f) <<< 5) |||
    (((w >>> 8) &&& 0xf) <<< 1)).setWidth 13

def decode (w : BitVec 32) : Option Decoded :=
  if w.setWidth 7 = 0x6f#7 then some (.jal ((w >>> 7).setWidth 5) (jalOffset w).toInt)
  else if w.setWidth 7 = 0x63#7 then
    some (.branch ((w >>> 12).setWidth 3) ((w >>> 15).setWidth 5) ((w >>> 20).setWidth 5)
      (branchOffset w).toInt)
  else none

section fields

variable (rd rs1 rs2 : BitVec 5) (funct3 : BitVec 3) (x : BitVec 32)

theorem jalWord_opcode : (jalWord (rd.setWidth 8) x).setWidth 7 = 0x6f#7 := by
  apply BitVec.eq_of_getLsbD_eq
  intro i hi
  interval_cases i <;> simp [jalWord]

theorem jalWord_rd : (jalWord (rd.setWidth 8) x >>> 7).setWidth 5 = rd := by
  apply BitVec.eq_of_getLsbD_eq
  intro i hi
  interval_cases i <;> simp [jalWord]

variable {x} in
theorem jalWord_offset (hx : x[0] = false) :
    jalOffset (jalWord (rd.setWidth 8) x) = x.setWidth 21 := by
  apply BitVec.eq_of_getLsbD_eq
  intro i hi
  interval_cases i <;> simp [jalOffset, jalWord, hx]

theorem branchWord_opcode :
    (branchWord (funct3.setWidth 32) (rs1.setWidth 8) (rs2.setWidth 8) x).setWidth 7 = 0x63#7 := by
  apply BitVec.eq_of_getLsbD_eq
  intro i hi
  interval_cases i <;> simp [branchWord]

theorem branchWord_funct3 : (branchWord (funct3.setWidth 32) (rs1.setWidth 8) (rs2.setWidth 8) x >>>
    12).setWidth 3 = funct3 := by
  apply BitVec.eq_of_getLsbD_eq
  intro i hi
  interval_cases i <;> simp [branchWord]

theorem branchWord_rs1 : (branchWord (funct3.setWidth 32) (rs1.setWidth 8) (rs2.setWidth 8) x >>>
    15).setWidth 5 = rs1 := by
  apply BitVec.eq_of_getLsbD_eq
  intro i hi
  interval_cases i <;> simp [branchWord]

theorem branchWord_rs2 : (branchWord (funct3.setWidth 32) (rs1.setWidth 8) (rs2.setWidth 8) x >>>
    20).setWidth 5 = rs2 := by
  apply BitVec.eq_of_getLsbD_eq
  intro i hi
  interval_cases i <;> simp [branchWord]

variable {x} in
theorem branchWord_offset (hx : x[0] = false) :
    branchOffset (branchWord (funct3.setWidth 32) (rs1.setWidth 8) (rs2.setWidth 8) x) =
      x.setWidth 13 := by
  apply BitVec.eq_of_getLsbD_eq
  intro i hi
  interval_cases i <;> simp [branchOffset, branchWord, hx]

end fields

theorem decode_jalWord (rd : BitVec 5) {x : BitVec 32} (hx : x[0] = false) :
    decode (jalWord (rd.setWidth 8) x) = some (.jal rd (x.setWidth 21).toInt) := by
  rw [decode, if_pos (jalWord_opcode rd x), jalWord_rd, jalWord_offset rd hx]

theorem decode_branchWord (funct3 : BitVec 3) (rs1 rs2 : BitVec 5) {x : BitVec 32}
    (hx : x[0] = false) :
    decode (branchWord (funct3.setWidth 32) (rs1.setWidth 8) (rs2.setWidth 8) x) =
      some (.branch funct3 rs1 rs2 (x.setWidth 13).toInt) := by
  have hother : ¬(0x63#7 = 0x6f#7) := by decide
  rw [decode, branchWord_opcode, if_neg hother, if_pos rfl, branchWord_funct3, branchWord_rs1,
    branchWord_rs2, branchWord_offset rs1 rs2 funct3 hx]

theorem encodeJal_isSome_iff {rd : BitVec 8} {offset : Int} :
    (encodeJal rd offset).isSome ↔ offset % 2 = 0 ∧ -2 ^ 20 ≤ offset ∧ offset ≤ 2 ^ 20 - 2 := by
  rw [encodeJal]
  split
  · simp only [Option.isSome_none, Bool.false_eq_true, false_iff]
    omega
  · simp only [Option.isSome_some, true_iff]
    omega

theorem encodeB_isSome_iff {funct3 : BitVec 32} {rs1 rs2 : BitVec 8} {offset : Int} :
    (encodeB funct3 rs1 rs2 offset).isSome ↔
      offset % 2 = 0 ∧ -4096 ≤ offset ∧ offset ≤ 4094 := by
  rw [encodeB]
  split
  · simp only [Option.isSome_none, Bool.false_eq_true, false_iff]
    omega
  · simp only [Option.isSome_some, true_iff]
    omega

theorem decode_encodeJal {rd : BitVec 5} {offset : Int} {w : BitVec 32}
    (h : encodeJal (rd.setWidth 8) offset = some w) : decode w = some (.jal rd offset) := by
  obtain ⟨heven, hlow, hhigh⟩ := encodeJal_isSome_iff.mp (Option.isSome_of_eq_some h)
  have hvalue : ((BitVec.ofInt 32 offset).setWidth 21).toInt = offset :=
    toInt_field (by decide) (by decide) hlow (by omega)
  rw [encodeJal, if_neg (by omega)] at h
  rw [← Option.some.inj h, decode_jalWord rd (lowest_of_even heven), hvalue]

theorem decode_encodeB {funct3 : BitVec 3} {rs1 rs2 : BitVec 5} {offset : Int} {w : BitVec 32}
    (h : encodeB (funct3.setWidth 32) (rs1.setWidth 8) (rs2.setWidth 8) offset = some w) :
    decode w = some (.branch funct3 rs1 rs2 offset) := by
  obtain ⟨heven, hlow, hhigh⟩ := encodeB_isSome_iff.mp (Option.isSome_of_eq_some h)
  have hvalue : ((BitVec.ofInt 32 offset).setWidth 13).toInt = offset :=
    toInt_field (by decide) (by decide) hlow (by omega)
  rw [encodeB, if_neg (by omega)] at h
  rw [← Option.some.inj h, decode_branchWord _ _ _ (lowest_of_even heven), hvalue]

end Riscv64

namespace Aarch64

inductive BranchKind where
  | b
  | bCond (cond : Cond)
  | cbnzX (rt : BitVec 8)
  | cbnzW (rt : BitVec 8)
  | cbzW (rt : BitVec 8)
deriving DecidableEq, Repr

def condBits : Cond → BitVec 32
  | .eq => 0
  | .ne => 1
  | .hs => 2
  | .lo => 3
  | .hi => 8
  | .ls => 9
  | .ge => 10
  | .lt => 11
  | .gt => 12
  | .le => 13

/-- `Reg5::new(..)?.bits()` -/
def reg5Bits (rt : BitVec 8) : Except AsmError (BitVec 32) :=
  if rt < 32 then .ok (rt.setWidth 32) else .error .invalidRegister

def placeholder : BranchKind → Except AsmError (BitVec 32)
  | .b => .ok 0x14000000
  | .bCond cond => .ok (0x54000000 ||| condBits cond)
  | .cbnzX rt => do return 0xb5000000 ||| (← reg5Bits rt)
  | .cbnzW rt => do return 0x35000000 ||| (← reg5Bits rt)
  | .cbzW rt => do return 0x34000000 ||| (← reg5Bits rt)

def imm19 (words : Int) : BitVec 32 := (BitVec.ofInt 32 words &&& 0x7ffff) <<< 5

/-- The instruction that `patch_branch` writes for a distance in words. -/
def branchWord (words : Int) : BranchKind → Except AsmError (BitVec 32)
  | .b =>
      if ¬(-2 ^ 25 ≤ words ∧ words < 2 ^ 25) then .error .branchOutOfRange
      else .ok (0x14000000 ||| (BitVec.ofInt 32 words &&& 0x03ffffff))
  | .bCond cond =>
      if ¬(-2 ^ 18 ≤ words ∧ words < 2 ^ 18) then .error .branchOutOfRange
      else .ok (0x54000000 ||| imm19 words ||| condBits cond)
  | .cbnzX rt =>
      if ¬(-2 ^ 18 ≤ words ∧ words < 2 ^ 18) then .error .branchOutOfRange
      else do return 0xb5000000 ||| imm19 words ||| (← reg5Bits rt)
  | .cbnzW rt =>
      if ¬(-2 ^ 18 ≤ words ∧ words < 2 ^ 18) then .error .branchOutOfRange
      else do return 0x35000000 ||| imm19 words ||| (← reg5Bits rt)
  | .cbzW rt =>
      if ¬(-2 ^ 18 ≤ words ∧ words < 2 ^ 18) then .error .branchOutOfRange
      else do return 0x34000000 ||| imm19 words ||| (← reg5Bits rt)

/-- The condition field of `B.cond`, with the bit above it, which is clear. -/
def condOf (bits : BitVec 5) : Option Cond :=
  match bits.toNat with
  | 0 => some .eq
  | 1 => some .ne
  | 2 => some .hs
  | 3 => some .lo
  | 8 => some .hi
  | 9 => some .ls
  | 10 => some .ge
  | 11 => some .lt
  | 12 => some .gt
  | 13 => some .le
  | _ => none

def decode (w : BitVec 32) : Option (BranchKind × Int) :=
  let near : Int := 4 * ((w >>> 5).setWidth 19).toInt
  let rt := (w.setWidth 5).setWidth 8
  if w >>> 26 = 0x05 then some (.b, 4 * (w.setWidth 26).toInt)
  else if w >>> 24 = 0x54 then (condOf (w.setWidth 5)).map fun cond => (.bCond cond, near)
  else if w >>> 24 = 0xb5 then some (.cbnzX rt, near)
  else if w >>> 24 = 0x35 then some (.cbnzW rt, near)
  else if w >>> 24 = 0x34 then some (.cbzW rt, near)
  else none

section near

variable (op : BitVec 8) (x : BitVec 32) (low : BitVec 5)

theorem near_opcode : (op.setWidth 32 <<< 24 ||| (x &&& 0x7ffff) <<< 5 ||| low.setWidth 32) >>> 24 =
    op.setWidth 32 := by
  apply BitVec.eq_of_getLsbD_eq
  intro i hi
  interval_cases i <;> simp

theorem near_words :
    ((op.setWidth 32 <<< 24 ||| (x &&& 0x7ffff) <<< 5 ||| low.setWidth 32) >>> 5).setWidth 19 =
      x.setWidth 19 := by
  apply BitVec.eq_of_getLsbD_eq
  intro i hi
  interval_cases i <;> simp

theorem near_low :
    (op.setWidth 32 <<< 24 ||| (x &&& 0x7ffff) <<< 5 ||| low.setWidth 32).setWidth 5 = low := by
  apply BitVec.eq_of_getLsbD_eq
  intro i hi
  interval_cases i <;> simp

end near

/-- The parts of a word with an eight-bit opcode, a displacement of 19 bits and a field of five. -/
theorem near_fields (op : BitVec 8) (x : BitVec 32) (low : BitVec 5) {w : BitVec 32}
    (hw : w = op.setWidth 32 <<< 24 ||| (x &&& 0x7ffff) <<< 5 ||| low.setWidth 32) :
    w >>> 24 = op.setWidth 32 ∧ w >>> 26 = (op >>> 2).setWidth 32 ∧
      (w >>> 5).setWidth 19 = x.setWidth 19 ∧ w.setWidth 5 = low := by
  subst hw
  have hopcode := near_opcode op x low
  refine ⟨hopcode, ?_, near_words op x low, near_low op x low⟩
  rw [show 26 = 24 + 2 from rfl, BitVec.shiftRight_add, hopcode]
  apply BitVec.eq_of_toNat_eq
  simp

theorem far_fields (x : BitVec 32) :
    (0x14000000 ||| (x &&& 0x03ffffff)) >>> 26 = 0x05 ∧
      (0x14000000 ||| (x &&& 0x03ffffff)).setWidth 26 = x.setWidth 26 := by
  constructor
  · apply BitVec.eq_of_getLsbD_eq
    intro i hi
    interval_cases i <;> simp
  · apply BitVec.eq_of_getLsbD_eq
    intro i hi
    interval_cases i <;> simp

theorem condOf_condBits (cond : Cond) : condOf ((condBits cond).setWidth 5) = some cond := by
  cases cond <;> rfl

theorem reg5Bits_eq_ok {rt : BitVec 8} {bits : BitVec 32} (h : reg5Bits rt = .ok bits) :
    bits = (rt.setWidth 5).setWidth 32 ∧ (rt.setWidth 5).setWidth 8 = rt := by
  rw [reg5Bits] at h
  split at h
  next hlt =>
    have hsmall : rt.toNat < 32 := hlt
    obtain rfl := Except.ok.inj h
    constructor
    · apply BitVec.eq_of_toNat_eq
      simp only [BitVec.toNat_setWidth]
      omega
    · apply BitVec.eq_of_toNat_eq
      simp only [BitVec.toNat_setWidth]
      omega
  · cases h

def Reaches (words : Int) : BranchKind → Prop
  | .b => -2 ^ 25 ≤ words ∧ words < 2 ^ 25
  | _ => -2 ^ 18 ≤ words ∧ words < 2 ^ 18

instance (words : Int) (kind : BranchKind) : Decidable (Reaches words kind) := by
  cases kind <;> exact inferInstanceAs (Decidable (_ ∧ _))

theorem branchWord_ok_iff {words : Int} {kind : BranchKind} {word : BitVec 32}
    (hkind : placeholder kind = .ok word) :
    (∃ w, branchWord words kind = .ok w) ↔ Reaches words kind := by
  have hnear {op : BitVec 32} {rt : BitVec 8} (h : (do return op ||| (← reg5Bits rt)) = Except.ok word) :
      ∃ bits, reg5Bits rt = .ok bits := by
    obtain ⟨bits, hbits, _⟩ := Lib.bind_eq_ok.mp h
    exact ⟨bits, hbits⟩
  cases kind with
  | b | bCond _ =>
      simp only [branchWord, Reaches]
      split
      · simp_all
      · simp_all
  | cbnzX rt | cbnzW rt | cbzW rt =>
      obtain ⟨bits, hbits⟩ := hnear hkind
      simp only [branchWord, Reaches, hbits]
      split
      · simp_all
      · simp_all

theorem near_decode {words : Int} {op : BitVec 8} {low : BitVec 5} {w : BitVec 32}
    (hrange : -2 ^ 18 ≤ words ∧ words < 2 ^ 18)
    (hw : w = op.setWidth 32 <<< 24 ||| imm19 words ||| low.setWidth 32)
    (hop : (op >>> 2).setWidth 32 ≠ (0x05 : BitVec 32)) :
    decode w =
      (if op.setWidth 32 = (0x54 : BitVec 32) then (condOf low).map fun cond => (.bCond cond, 4 * words)
      else if op.setWidth 32 = (0xb5 : BitVec 32) then some (.cbnzX (low.setWidth 8), 4 * words)
      else if op.setWidth 32 = (0x35 : BitVec 32) then some (.cbnzW (low.setWidth 8), 4 * words)
      else if op.setWidth 32 = (0x34 : BitVec 32) then some (.cbzW (low.setWidth 8), 4 * words)
      else none) := by
  obtain ⟨hhigh, hnot, hwords, hlow⟩ := near_fields op (BitVec.ofInt 32 words) low hw
  have hvalue : ((BitVec.ofInt 32 words).setWidth 19).toInt = words :=
    toInt_field (by decide) (by decide) hrange.1 hrange.2
  rw [decode, hnot, if_neg hop, hhigh, hwords, hlow, hvalue]
  rfl

theorem branchWord_near {words : Int} (op : BitVec 8) {rt : BitVec 8} {w opWord : BitVec 32}
    (hword : opWord = op.setWidth 32 <<< 24)
    (h : (if ¬(-2 ^ 18 ≤ words ∧ words < 2 ^ 18) then Except.error AsmError.branchOutOfRange
      else do return opWord ||| imm19 words ||| (← reg5Bits rt)) = .ok w) :
    (-2 ^ 18 ≤ words ∧ words < 2 ^ 18) ∧
      w = op.setWidth 32 <<< 24 ||| imm19 words ||| (rt.setWidth 5).setWidth 32 ∧
      (rt.setWidth 5).setWidth 8 = rt := by
  by_cases hrange : -2 ^ 18 ≤ words ∧ words < 2 ^ 18
  · rw [if_neg (not_not_intro hrange)] at h
    obtain ⟨bits, hbits, hw⟩ := Lib.bind_eq_ok.mp h
    obtain ⟨rfl, hrt⟩ := reg5Bits_eq_ok hbits
    exact ⟨hrange, hword ▸ (Except.ok.inj hw).symm, hrt⟩
  · rw [if_pos hrange] at h
    cases h

theorem decode_branchWord {words : Int} {kind : BranchKind} {w : BitVec 32}
    (h : branchWord words kind = .ok w) : decode w = some (kind, 4 * words) := by
  cases kind with
  | b =>
      by_cases hrange : -2 ^ 25 ≤ words ∧ words < 2 ^ 25
      · rw [branchWord, if_neg (not_not_intro hrange)] at h
        obtain ⟨hop, hwords⟩ := far_fields (BitVec.ofInt 32 words)
        have hvalue : ((BitVec.ofInt 32 words).setWidth 26).toInt = words :=
          toInt_field (by decide) (by decide) hrange.1 hrange.2
        rw [← Except.ok.inj h, decode, if_pos hop, hwords, hvalue]
      · rw [branchWord, if_pos hrange] at h
        cases h
  | bCond cond =>
      by_cases hrange : -2 ^ 18 ≤ words ∧ words < 2 ^ 18
      · rw [branchWord, if_neg (not_not_intro hrange)] at h
        have hbits : condBits cond = ((condBits cond).setWidth 5).setWidth 32 := by
          cases cond <;> rfl
        have hw : w = (0x54#8).setWidth 32 <<< 24 ||| imm19 words |||
            ((condBits cond).setWidth 5).setWidth 32 := by
          rw [← hbits]
          exact (Except.ok.inj h).symm
        rw [near_decode hrange hw (by decide), if_pos (by decide), condOf_condBits, Option.map_some]
      · rw [branchWord, if_pos hrange] at h
        cases h
  | cbnzX rt =>
      obtain ⟨hrange, hw, hrt⟩ := branchWord_near 0xb5#8 (by decide) h
      rw [near_decode hrange hw (by decide), if_neg (by decide), if_pos (by decide), hrt]
  | cbnzW rt =>
      obtain ⟨hrange, hw, hrt⟩ := branchWord_near 0x35#8 (by decide) h
      rw [near_decode hrange hw (by decide), if_neg (by decide), if_neg (by decide),
        if_pos (by decide), hrt]
  | cbzW rt =>
      obtain ⟨hrange, hw, hrt⟩ := branchWord_near 0x34#8 (by decide) h
      rw [near_decode hrange hw (by decide), if_neg (by decide), if_neg (by decide),
        if_neg (by decide), if_pos (by decide), hrt]

theorem placeholder_of_decode {w : BitVec 32} {kind : BranchKind} {offset : Int}
    (h : decode w = some (kind, offset)) : ∃ word, placeholder kind = .ok word := by
  have hreg : reg5Bits ((w.setWidth 5).setWidth 8) = .ok (((w.setWidth 5).setWidth 8).setWidth 32) := by
    have hlt : ((w.setWidth 5).setWidth 8).toNat < 32 := by
      simp only [BitVec.toNat_setWidth]
      omega
    exact if_pos hlt
  rw [decode] at h
  split_ifs at h
  · obtain rfl := congrArg Prod.fst (Option.some.inj h)
    exact ⟨_, rfl⟩
  · obtain ⟨cond, _, hcond⟩ := Option.map_eq_some_iff.mp h
    obtain rfl := congrArg Prod.fst hcond
    exact ⟨_, rfl⟩
  · obtain rfl := congrArg Prod.fst (Option.some.inj h)
    exact ⟨_, by rw [placeholder, hreg]; rfl⟩
  · obtain rfl := congrArg Prod.fst (Option.some.inj h)
    exact ⟨_, by rw [placeholder, hreg]; rfl⟩
  · obtain rfl := congrArg Prod.fst (Option.some.inj h)
    exact ⟨_, by rw [placeholder, hreg]; rfl⟩

theorem decode_placeholder {kind : BranchKind} {word : BitVec 32}
    (h : placeholder kind = .ok word) : decode word = some (kind, 0) := by
  have hreaches : Reaches 0 kind := by cases kind <;> simp [Reaches]
  obtain ⟨w, hw⟩ := (branchWord_ok_iff h).mpr hreaches
  have hsame : w = word := by
    cases kind with
    | b => exact Except.ok.inj (hw.symm.trans h)
    | bCond cond =>
        cases cond <;> exact Except.ok.inj (hw.symm.trans h)
    | cbnzX rt | cbnzW rt | cbzW rt =>
        obtain ⟨bits, hbits, hword⟩ := Lib.bind_eq_ok.mp h
        simp only [branchWord, hbits] at hw
        obtain rfl := Except.ok.inj hword
        exact (Except.ok.inj hw).symm
  rw [← hsame]
  exact decode_branchWord hw

end Aarch64

namespace X64

def condBits : Cond → BitVec 8
  | .eq => 0x4
  | .ne => 0x5
  | .hs => 0x3
  | .lo => 0x2
  | .hi => 0x7
  | .ls => 0x6
  | .ge => 0xd
  | .lt => 0xc
  | .gt => 0xf
  | .le => 0xe

def branchOpcode : BranchKind → List (BitVec 8)
  | .b => [0xe9]
  | .bCond cond => [0x0f, 0x80 ||| condBits cond]
  | .cbnzX _ | .cbnzW _ => [0x0f, 0x85]

inductive Form where
  | jmp
  | jcc (cond : Cond)
deriving DecidableEq, Repr

/-- Registers are loaded and tested before the branch, which is taken when they are not zero. -/
def formOf : BranchKind → Form
  | .b => .jmp
  | .bCond cond => .jcc cond
  | .cbnzX _ | .cbnzW _ => .jcc .ne

def condOf (opcode : BitVec 8) : Option Cond :=
  match opcode.toNat with
  | 0x84 => some .eq
  | 0x85 => some .ne
  | 0x83 => some .hs
  | 0x82 => some .lo
  | 0x87 => some .hi
  | 0x86 => some .ls
  | 0x8d => some .ge
  | 0x8c => some .lt
  | 0x8f => some .gt
  | 0x8e => some .le
  | _ => none

theorem condOf_condBits (cond : Cond) : condOf (0x80 ||| condBits cond) = some cond := by
  cases cond <;> rfl

/-- The branch with a displacement of 32 bits at a place, and where it goes. -/
def decodeAt (start : Nat) (bytes : List (BitVec 8)) : Option (Form × Int) :=
  if bytes[start]? = some 0xe9 then
    (wordAt bytes (start + 1)).map fun disp => (.jmp, start + 5 + disp.toInt)
  else if bytes[start]? = some 0x0f then
    (bytes[start + 1]?.bind condOf).bind fun cond =>
      (wordAt bytes (start + 2)).map fun disp => (.jcc cond, start + 6 + disp.toInt)
  else none

end X64

end Telomere.Jit
