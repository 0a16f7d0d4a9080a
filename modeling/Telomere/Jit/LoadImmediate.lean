import Telomere.Jit.BranchEncoding
import Telomere.Jit.Riscv64

/-!
# Constants on RISC-V

`li` as a build that checks arithmetic runs it, down to the words it emits, and what the machine does
with these words.
-/

namespace Telomere.Jit.Riscv64

open Lib (Word)

def opImmWord (opcode funct3 : BitVec 32) (rd rs1 : BitVec 8) (imm : BitVec 32) : BitVec 32 :=
  ((imm &&& 0xfff) <<< 20) ||| (rs1.setWidth 32 <<< 15) ||| (funct3 <<< 12) |||
    (rd.setWidth 32 <<< 7) ||| opcode

def encodeI (opcode funct3 : BitVec 32) (rd rs1 : BitVec 8) (imm : Int) : Option (BitVec 32) :=
  if Fits imm then some (opImmWord opcode funct3 rd rs1 (BitVec.ofInt 32 imm)) else none

/-- What `li` can panic with. -/
inductive LiPanic where
  | subtractOverflow
  | smallLiFits
  | lowLiFits
  | slliEncodes
deriving DecidableEq, Repr

def orPanic (panic : LiPanic) : Option (BitVec 32) → Except LiPanic (BitVec 32)
  | some word => .ok word
  | none => .error panic

/-- `li`, with the overflow of its subtraction as a panic. -/
def emitLi (rd : BitVec 8) (value : Word) : Except LiPanic (List (BitVec 32)) :=
  if Fits value.toInt then do
    let insn ← orPanic .smallLiFits (encodeI 0x13 0 rd 0 value.toInt)
    return [insn]
  else if BitVec.ssubOverflow value (lowPart value) then .error .subtractOverflow
  else do
    let insns ← emitLi rd (highPart value)
    let shift ← orPanic .slliEncodes (encodeI 0x13 1 rd rd 12)
    if lowPart value ≠ 0 then
      let insn ← orPanic .lowLiFits (encodeI 0x13 0 rd rd (lowPart value).toInt)
      return insns ++ [shift, insn]
    else return insns ++ [shift]
termination_by value.toInt.natAbs
decreasing_by exact highPart_lt ‹_›

/-- `encode_i` for the instructions of `li`. -/
def Insn.encoded : Insn → Option (BitVec 32)
  | .addi rd rs1 imm => encodeI 0x13 0 (BitVec.ofNat 8 rd) (BitVec.ofNat 8 rs1) imm
  | .aluImm opcode funct3 rd rs1 imm =>
      encodeI (BitVec.ofNat 32 opcode) (BitVec.ofNat 32 funct3) (BitVec.ofNat 8 rd)
        (BitVec.ofNat 8 rs1) imm
  | _ => none

theorem encodeI_of_orPanic {panic : LiPanic} {word : Option (BitVec 32)} {found : BitVec 32}
    (h : orPanic panic word = .ok found) : word = some found := by
  cases word with
  | none => cases h
  | some word => rw [Except.ok.inj h]

/-- Where the words are made, they encode the instructions that `li` stands for. -/
theorem li_encoded {rd : Reg} {value : Word} {words : List (BitVec 32)}
    (h : emitLi (BitVec.ofNat 8 rd) value = .ok words) :
    (li rd value).mapM Insn.encoded = some words := by
  rw [emitLi] at h
  rw [li]
  split at h
  · next hfits =>
      obtain ⟨insn, hinsn, h⟩ := Lib.bind_eq_ok.mp h
      obtain rfl := Except.ok.inj h
      rw [if_pos hfits]
      have hword : Insn.encoded (.addi rd zero value.toInt) = some insn := encodeI_of_orPanic hinsn
      simp [hword]
  · next hbig =>
      split at h
      · cases h
      · obtain ⟨insns, hinsns, h⟩ := Lib.bind_eq_ok.mp h
        obtain ⟨shift, hshift, h⟩ := Lib.bind_eq_ok.mp h
        have hrest := li_encoded hinsns
        have hslli : Insn.encoded (slli rd rd 12) = some shift := encodeI_of_orPanic hshift
        rw [if_neg hbig]
        split at h
        · next hlow =>
            obtain ⟨insn, hinsn, h⟩ := Lib.bind_eq_ok.mp h
            obtain rfl := Except.ok.inj h
            have hword : Insn.encoded (.addi rd rd (lowPart value).toInt) = some insn :=
              encodeI_of_orPanic hinsn
            rw [if_pos hlow]
            simp [hrest, hslli, hword]
        · next hlow =>
            obtain rfl := Except.ok.inj h
            rw [if_neg hlow]
            simp [hrest, hslli]
termination_by value.toInt.natAbs
decreasing_by exact highPart_lt ‹_›

abbrev Registers := BitVec 5 → Word

def Registers.get (regs : Registers) (reg : BitVec 5) : Word := if reg = 0 then 0 else regs reg

def Registers.set (regs : Registers) (reg : BitVec 5) (value : Word) : Registers :=
  fun r => if r = reg then value else regs r

/-- `ADDI` and `SLLI`; any other word is an instruction that `li` has no use for. -/
def execWord (word : BitVec 32) (regs : Registers) : Option Registers :=
  let rd := (word >>> 7).setWidth 5
  let rs1 := (word >>> 15).setWidth 5
  let imm := (word >>> 20).setWidth 12
  if word.setWidth 7 ≠ 0x13 then none
  else if (word >>> 12).setWidth 3 = (0 : BitVec 3) then
    some (regs.set rd (regs.get rs1 + imm.signExtend 64))
  else if (word >>> 12).setWidth 3 = (1 : BitVec 3) ∧ imm >>> 6 = 0 then
    some (regs.set rd (regs.get rs1 <<< imm.toNat))
  else none

def execWords : List (BitVec 32) → Registers → Option Registers
  | [], regs => some regs
  | word :: words, regs => do
    let regs ← execWord word regs
    execWords words regs

/-- A constant is made without a panic, and the words emitted put it into the register and change no
other one. -/
def LiExact (rd : BitVec 5) (value : Word) : Prop :=
  ∃ words, emitLi (rd.setWidth 8) value = .ok words ∧
    ∀ regs : Registers, execWords words regs = some (regs.set rd value)

section fields

variable (funct3 : BitVec 3) (rd rs1 : BitVec 5) (imm : BitVec 32)

private abbrev fieldsWord : BitVec 32 :=
  opImmWord 0x13 (funct3.setWidth 32) (rd.setWidth 8) (rs1.setWidth 8) imm

private theorem fieldsWord_opcode : (fieldsWord funct3 rd rs1 imm).setWidth 7 = 0x13#7 := by
  apply BitVec.eq_of_getLsbD_eq
  intro i hi
  interval_cases i <;> simp [opImmWord]

private theorem fieldsWord_rd : (fieldsWord funct3 rd rs1 imm >>> 7).setWidth 5 = rd := by
  apply BitVec.eq_of_getLsbD_eq
  intro i hi
  interval_cases i <;> simp [opImmWord]

private theorem fieldsWord_funct3 : (fieldsWord funct3 rd rs1 imm >>> 12).setWidth 3 = funct3 := by
  apply BitVec.eq_of_getLsbD_eq
  intro i hi
  interval_cases i <;> simp [opImmWord]

private theorem fieldsWord_rs1 : (fieldsWord funct3 rd rs1 imm >>> 15).setWidth 5 = rs1 := by
  apply BitVec.eq_of_getLsbD_eq
  intro i hi
  interval_cases i <;> simp [opImmWord]

private theorem fieldsWord_imm : (fieldsWord funct3 rd rs1 imm >>> 20).setWidth 12 = imm.setWidth 12 := by
  apply BitVec.eq_of_getLsbD_eq
  intro i hi
  interval_cases i <;> simp [opImmWord]

theorem execWord_fieldsWord (regs : Registers) :
    execWord (fieldsWord funct3 rd rs1 imm) regs =
      if funct3 = 0 then
        some (regs.set rd (regs.get rs1 + (imm.setWidth 12).signExtend 64))
      else if funct3 = 1 ∧ imm.setWidth 12 >>> 6 = 0 then
        some (regs.set rd (regs.get rs1 <<< (imm.setWidth 12).toNat))
      else none := by
  have hopcode : ¬(BitVec.setWidth 7 (fieldsWord funct3 rd rs1 imm) ≠ 0x13) := by
    rw [fieldsWord_opcode]
    decide
  simp only [execWord, if_neg hopcode, fieldsWord_rd, fieldsWord_rs1, fieldsWord_imm,
    fieldsWord_funct3]

end fields

variable {rd rs1 : BitVec 5} {imm : Int} {value : Word}

/-- The word of `addi` is executed as the addition. -/
theorem exec_addi (rd rs1 : BitVec 5) (himm : Fits imm) :
    ∃ word, encodeI 0x13 0 (rd.setWidth 8) (rs1.setWidth 8) imm = some word ∧
      ∀ regs : Registers, execWord word regs =
        some (regs.set rd (regs.get rs1 + BitVec.ofInt 64 imm)) := by
  have hvalue : (BitVec.setWidth 12 (BitVec.ofInt 32 imm)).signExtend 64 = BitVec.ofInt 64 imm := by
    unfold Fits at himm
    rw [BitVec.signExtend, toInt_field (by decide) (by decide) (by omega) (by omega)]
  refine ⟨fieldsWord 0 rd rs1 (BitVec.ofInt 32 imm), if_pos himm, fun regs => ?_⟩
  rw [execWord_fieldsWord, if_pos rfl, hvalue]

theorem exec_slli (rd rs1 : BitVec 5) :
    ∃ word, encodeI 0x13 1 (rd.setWidth 8) (rs1.setWidth 8) 12 = some word ∧
      ∀ regs : Registers, execWord word regs = some (regs.set rd (regs.get rs1 <<< 12)) := by
  have hfits : Fits 12 := by decide
  refine ⟨fieldsWord 1 rd rs1 (BitVec.ofInt 32 12), if_pos hfits, fun regs => ?_⟩
  rw [execWord_fieldsWord, if_neg (by decide), if_pos (by decide)]
  rfl

theorem toInt_lowPart (value : Word) :
    ∃ k : Int, value.toInt = 4096 * k + (lowPart value).toInt := by
  refine ⟨(value.toInt - (lowPart value).toInt) / 4096, ?_⟩
  have hvalue := BitVec.toInt_eq_toNat_cond value
  have hlt := value.isLt
  unfold lowPart
  rw [BitVec.toInt_sshiftRight, Int.shiftRight_eq_div_pow, BitVec.toInt_shiftLeft,
    Nat.shiftLeft_eq, Int.bmod_def]
  split at hvalue <;> split <;> omega

private theorem shiftLeft_sshiftRight (x : Word) :
    (x <<< 12).sshiftRight 12 <<< 12 = x <<< 12 := by
  apply BitVec.eq_of_getLsbD_eq
  intro i hi
  rw [BitVec.getLsbD_shiftLeft, BitVec.getLsbD_sshiftRight]
  by_cases hlow : i < 12
  · simp [hlow]
  · have hplace : 12 + (i - 12) = i := by omega
    have hin : 12 + (i - 12) < 64 := by omega
    have hout : ¬64 ≤ i - 12 := by omega
    simp [hlow, hi, hplace, hout]

/-- The next level's constant, shifted, and the low part make the word. -/
theorem shiftLeft_highPart (value : Word) : highPart value <<< 12 + lowPart value = value := by
  obtain ⟨k, hk⟩ := toInt_lowPart value
  have hvalue : value = BitVec.ofInt 64 (4096 * k) + lowPart value := by
    rw [← BitVec.ofInt_toInt (x := lowPart value), ← BitVec.ofInt_add, ← hk, BitVec.ofInt_toInt]
  have hunits : BitVec.ofInt 64 (4096 * k) = BitVec.ofInt 64 k <<< 12 := by
    rw [BitVec.ofInt_mul, BitVec.mul_comm, ← BitVec.mul_twoPow_eq_shiftLeft]
    rfl
  rw [highPart, BitVec.sub_eq_iff_eq_add.mpr hvalue, hunits, shiftLeft_sshiftRight, ← hunits]
  exact hvalue.symm

theorem highPart_range (value : Word) :
    -2 ^ 51 ≤ (highPart value).toInt ∧ (highPart value).toInt < 2 ^ 51 := by
  have hlow := BitVec.le_toInt (value - lowPart value)
  have hhigh := BitVec.toInt_lt (x := value - lowPart value)
  unfold highPart
  rw [BitVec.toInt_sshiftRight, Int.shiftRight_eq_div_pow]
  omega

theorem ssubOverflow_lowPart_iff (value : Word) :
    BitVec.ssubOverflow value (lowPart value) = true ↔ 2 ^ 63 - 2048 ≤ value.toInt := by
  obtain ⟨k, hk⟩ := toInt_lowPart value
  have hlow := BitVec.le_toInt value
  have hhigh := BitVec.toInt_lt (x := value)
  have hrange := lowPart_range value
  simp only [BitVec.ssubOverflow, Bool.or_eq_true, decide_eq_true_eq]
  omega

theorem execWords_append (left right : List (BitVec 32)) (regs : Registers) :
    execWords (left ++ right) regs = (execWords left regs).bind (execWords right) := by
  induction left generalizing regs with
  | nil => rfl
  | cons word left ih =>
      simp only [List.cons_append, execWords, Option.bind_eq_bind, ih, Option.bind_assoc]

@[simp] theorem Registers.get_zero (regs : Registers) : regs.get 0 = 0 := rfl

theorem Registers.get_set (regs : Registers) (hrd : rd ≠ 0) : (regs.set rd value).get rd = value := by
  unfold Registers.get Registers.set
  rw [if_neg hrd, if_pos rfl]

theorem Registers.set_set (regs : Registers) (old : Word) :
    (regs.set rd old).set rd value = regs.set rd value := by
  funext r
  by_cases h : r = rd <;> simp [Registers.set, h]

theorem LiExact.small (hfits : Fits value.toInt) : LiExact rd value := by
  obtain ⟨word, hword, hexec⟩ := exec_addi rd 0 hfits
  have hzero : (0 : BitVec 5).setWidth 8 = (0 : BitVec 8) := rfl
  refine ⟨[word], ?_, fun regs => ?_⟩
  · rw [emitLi, if_pos hfits, ← hzero, hword]
    rfl
  · have hsum : (0 : Word) + value = value := BitVec.zero_add value
    simp only [execWords, hexec, Option.bind_eq_bind, Option.bind_some, Registers.get_zero,
      BitVec.ofInt_toInt, hsum]

/-- One level: the rest is made first, then moved up, then the low part is added. -/
theorem LiExact.step (hrd : rd ≠ 0) (hbig : ¬Fits value.toInt)
    (hover : ¬BitVec.ssubOverflow value (lowPart value) = true) (h : LiExact rd (highPart value)) :
    LiExact rd value := by
  obtain ⟨insns, hinsns, hrun⟩ := h
  obtain ⟨shift, hshift, hexec⟩ := exec_slli rd rd
  have hsum := shiftLeft_highPart value
  by_cases hlow : lowPart value = 0
  · refine ⟨insns ++ [shift], ?_, fun regs => ?_⟩
    · rw [emitLi, if_neg hbig, if_neg hover, hinsns, hshift]
      simp only [orPanic, hlow, Lib.ok_bind]
      rfl
    · have hvalue : highPart value <<< 12 = value := by
        rw [hlow] at hsum
        exact (BitVec.add_zero _).symm.trans hsum
      simp only [execWords_append, hrun, execWords, hexec, Option.bind_eq_bind, Option.bind_some,
        Registers.get_set _ hrd, Registers.set_set, hvalue]
  · obtain ⟨insn, hinsn, hadd⟩ := exec_addi rd rd (lowPart_range value)
    refine ⟨insns ++ [shift, insn], ?_, fun regs => ?_⟩
    · rw [emitLi, if_neg hbig, if_neg hover, hinsns, hshift]
      simp only [orPanic, Lib.ok_bind, if_pos hlow, hinsn]
      rfl
    · simp only [execWords_append, hrun, execWords, hexec, hadd, Option.bind_eq_bind,
        Option.bind_some, Registers.get_set _ hrd, Registers.set_set, BitVec.ofInt_toInt, hsum]

theorem LiExact.of_lt (hrd : rd ≠ 0) {value : Word} (hvalue : value.toInt < 2 ^ 63 - 2048) :
    LiExact rd value := by
  by_cases hfits : Fits value.toInt
  · exact .small hfits
  · have hhigh := highPart_range value
    have hover : ¬BitVec.ssubOverflow value (lowPart value) = true := by
      rw [ssubOverflow_lowPart_iff]
      omega
    exact .step hrd hfits hover (LiExact.of_lt hrd (by omega))
termination_by value.toInt.natAbs
decreasing_by exact highPart_lt hfits

/-- Constants are made as they should but for the largest ones, where the subtraction of the first
level overflows. -/
theorem li_exact_iff (rd : BitVec 5) (hrd : rd ≠ 0) (value : Word) :
    LiExact rd value ↔ value.toInt < 2 ^ 63 - 2048 := by
  constructor
  · rintro ⟨words, hwords, -⟩
    by_contra hlarge
    have hbig : ¬Fits value.toInt := by
      unfold Fits
      omega
    have hover : BitVec.ssubOverflow value (lowPart value) = true := by
      rw [ssubOverflow_lowPart_iff]
      omega
    rw [emitLi, if_neg hbig, if_pos hover] at hwords
    contradiction
  · exact LiExact.of_lt hrd

/-- The constant next to the smallest one. -/
theorem li_exact_low : (6 : BitVec 5) ≠ 0 ∧ LiExact 6 (BitVec.ofInt 64 (-2 ^ 63 + 1)) :=
  ⟨by decide, (li_exact_iff 6 (by decide) _).mpr (by decide)⟩

/-- The mask for the absolute value of a float cannot be made. -/
theorem not_liExact_mask : ¬LiExact 6 0x7fffffffffffffff := by
  rintro ⟨words, hwords, -⟩
  have hover : emitLi (BitVec.setWidth 8 (6 : BitVec 5)) 0x7fffffffffffffff =
      .error .subtractOverflow := by
    rw [emitLi, if_neg (by decide), if_pos (by decide)]
  rw [hover] at hwords
  contradiction

end Telomere.Jit.Riscv64
