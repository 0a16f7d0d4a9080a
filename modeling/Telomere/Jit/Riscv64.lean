import Telomere.Jit.Masm
import Telomere.Lib.Blocks
import Telomere.Lib.Bytes

/-!
# The baseline assembler for RISC-V

Virtual registers are slots below `S0`. Instructions are given by their encoders, with the fields
of the source; the machine has no flags, so that comparisons are remembered until they are used.
-/

namespace Telomere.Jit.Riscv64

open Lib (Word Bytes Item Block)
open Lib.Bytes (place load store)

abbrev Reg := Fin 32

def zero : Reg := 0
def ra : Reg := 1
def sp : Reg := 2
def t0 : Reg := 5
def t1 : Reg := 6
def t2 : Reg := 7
def s0 : Reg := 8
def a0 : Reg := 10
def a1 : Reg := 11
def t3 : Reg := 28
def t4 : Reg := 29

def frameSize : Int := 288

/-- Where the prologue saves `ra`, told from the stack pointer. -/
def raDisp : Int := frameSize - 8

/-- Where the prologue saves `s0`, told from the stack pointer. -/
def s0Disp : Int := frameSize - 16

/-- `encode_i`, `encode_s`, `encode_r` and `encode_fp`, by what the opcode is for. -/
inductive Insn where
  | addi (rd rs1 : Reg) (imm : Int)
  | aluImm (opcode funct3 : Nat) (rd rs1 : Reg) (imm : Int)
  | alu (opcode funct3 funct7 : Nat) (rd rs1 rs2 : Reg)
  | load (funct3 : Nat) (rd base : Reg) (imm : Int)
  | store (funct3 : Nat) (base src : Reg) (imm : Int)
  | loadFloat (funct3 : Nat) (fd : Fin 32) (base : Reg) (imm : Int)
  | storeFloat (funct3 : Nat) (base : Reg) (fs : Fin 32) (imm : Int)
  | fp (funct7 rm : Nat) (rd rs1 rs2 : Fin 32)
  | jalr (rd rs1 : Reg)
deriving DecidableEq, Repr

/-- `encode_b` with `zero` on the right. -/
inductive Test where
  | beq (rs1 : Reg)
  | bne (rs1 : Reg)
deriving DecidableEq, Repr

abbrev Code := Block Insn Test

def insns (is : List Insn) : Code := is.map .insn

def Fits (imm : Int) : Prop := -2048 ≤ imm ∧ imm ≤ 2047

instance (imm : Int) : Decidable (Fits imm) := inferInstanceAs (Decidable (_ ∧ _))

def slli (rd rs1 : Reg) (shift : Nat) : Insn := .aluImm 0x13 1 rd rs1 shift

def srli (rd rs1 : Reg) (shift : Nat) : Insn := .aluImm 0x13 5 rd rs1 shift

def srai (rd rs1 : Reg) (shift : Nat) : Insn := .aluImm 0x13 5 rd rs1 (0x20 * 2 ^ 5 + shift)

def lowPart (value : Word) : Word := (value <<< 52).sshiftRight 52

/-- The rest of a word; the subtraction wraps. -/
def highPart (value : Word) : Word := (value - lowPart value).sshiftRight 12

theorem lowPart_range (value : Word) :
    -2048 ≤ (lowPart value).toInt ∧ (lowPart value).toInt ≤ 2047 := by
  have hlow := BitVec.le_toInt (value <<< 52)
  have hhigh := BitVec.toInt_lt (x := value <<< 52)
  unfold lowPart
  rw [BitVec.toInt_sshiftRight, Int.shiftRight_eq_div_pow]
  omega

theorem highPart_lt {value : Word} (hbig : ¬Fits value.toInt) :
    (highPart value).toInt.natAbs < value.toInt.natAbs := by
  have hlow := BitVec.le_toInt value
  have hhigh := BitVec.toInt_lt (x := value)
  have hrange := lowPart_range value
  unfold highPart Fits at *
  rw [BitVec.toInt_sshiftRight, Int.shiftRight_eq_div_pow, BitVec.toInt_sub, Int.bmod_def]
  split <;> omega

def li (rd : Reg) (value : Word) : List Insn :=
  if Fits value.toInt then [.addi rd zero value.toInt]
  else
    li rd (highPart value) ++ [slli rd rd 12] ++
      if lowPart value ≠ 0 then [Insn.addi rd rd (lowPart value).toInt] else []
termination_by value.toInt.natAbs
decreasing_by exact highPart_lt ‹_›

def loadMem (dst base : Reg) (offset : Int) (funct3 : Nat) : List Insn :=
  if Fits offset then [.load funct3 dst base offset]
  else li t4 (BitVec.ofInt 64 offset) ++ [Insn.alu 0x33 0 0 t4 base t4, .load funct3 dst t4 0]

def storeMem (base : Reg) (offset : Int) (src : Reg) (funct3 : Nat) : List Insn :=
  if Fits offset then [.store funct3 base src offset]
  else li t4 (BitVec.ofInt 64 offset) ++ [Insn.alu 0x33 0 0 t4 base t4, .store funct3 t4 src 0]

def loadMem64 (dst base : Reg) (offset : Int) : List Insn := loadMem dst base offset 3

def loadMem32 (dst base : Reg) (offset : Int) : List Insn := loadMem dst base offset 6

def storeMem64 (base : Reg) (offset : Int) (src : Reg) : List Insn := storeMem base offset src 3

def storeMem32 (base : Reg) (offset : Int) (src : Reg) : List Insn := storeMem base offset src 2

def loadSlot64 (dst : Reg) (slot : VReg) : List Insn := loadMem64 dst s0 (slotDisp slot)

def loadSlot32 (dst : Reg) (slot : VReg) : List Insn := loadMem32 dst s0 (slotDisp slot)

def storeSlot64 (slot : VReg) (src : Reg) : List Insn := storeMem64 s0 (slotDisp slot) src

/-- Slots are always written whole. -/
def storeSlot32 (slot : VReg) (src : Reg) : List Insn :=
  let tmp := if src = t4 then t3 else t4
  [slli tmp src 32, srli tmp tmp 32] ++ storeMem64 s0 (slotDisp slot) tmp

def loadWidth (dst : Reg) (slot : VReg) : Width → List Insn
  | .w32 => loadSlot32 dst slot
  | .x64 => loadSlot64 dst slot

def storeWidth (slot : VReg) (src : Reg) : Width → List Insn
  | .w32 => storeSlot32 slot src
  | .x64 => storeSlot64 slot src

def aluOpcode : Width → Nat
  | .w32 => 0x3b
  | .x64 => 0x33

def binop (width : Width) (rd rn rm : VReg) (funct3 funct7 : Nat) : List Insn :=
  loadWidth t0 rn width ++ loadWidth t1 rm width ++
    [Insn.alu (aluOpcode width) funct3 funct7 t0 t0 t1] ++ storeWidth rd t0 width

def rotateRight (width : Width) (rd rn rm : VReg) : List Insn :=
  loadWidth t0 rn width ++ loadWidth t1 rm width ++
    [Insn.alu (aluOpcode width) 5 0 t2 t0 t1, .alu (aluOpcode width) 0 0x20 t1 zero t1,
      .alu (aluOpcode width) 1 0 t0 t0 t1, .alu 0x33 6 0 t0 t0 t2] ++ storeWidth rd t0 width

def binary : BinOp → Width → VReg → VReg → VReg → List Insn
  | .add, width, rd, rn, rm => binop width rd rn rm 0 0
  | .sub, width, rd, rn, rm => binop width rd rn rm 0 0x20
  | .mul, width, rd, rn, rm => binop width rd rn rm 0 0x01
  | .udiv, width, rd, rn, rm => binop width rd rn rm 5 0x01
  | .sdiv, width, rd, rn, rm => binop width rd rn rm 4 0x01
  | .and, width, rd, rn, rm => binop width rd rn rm 7 0
  | .orr, width, rd, rn, rm => binop width rd rn rm 6 0
  | .eor, width, rd, rn, rm => binop width rd rn rm 4 0
  | .lslv, width, rd, rn, rm => binop width rd rn rm 1 0
  | .lsrv, width, rd, rn, rm => binop width rd rn rm 5 0
  | .asrv, width, rd, rn, rm => binop width rd rn rm 5 0x20
  | .rorv, width, rd, rn, rm => rotateRight width rd rn rm

def opImm (width : Width) (rd rn : VReg) (imm : Word) (opcode funct3 funct7 : Nat) : List Insn :=
  loadWidth t0 rn width ++ li t1 imm ++ [Insn.alu opcode funct3 funct7 t0 t0 t1] ++
    storeWidth rd t0 width

def msub (width : Width) (rd rn rm ra : VReg) : List Insn :=
  loadWidth t0 rn width ++ loadWidth t1 rm width ++ [Insn.alu (aluOpcode width) 0 0x01 t0 t0 t1] ++
    loadWidth t1 ra width ++ [Insn.alu (aluOpcode width) 0 0x20 t0 t1 t0] ++ storeWidth rd t0 width

def neg (width : Width) (rd rm : VReg) : List Insn :=
  loadWidth t0 rm width ++ [Insn.alu (aluOpcode width) 0 0x20 t0 zero t0] ++ storeWidth rd t0 width

def bits : Width → Nat
  | .w32 => 32
  | .x64 => 64

/-- The loop of a count; `test` shows in `t3` whether the bit has been found, `step` moves on. -/
def countZeros (width : Width) (rd rn : VReg) (setUp : List Insn) (test step : Insn) : Code :=
  let before := (loadWidth t0 rn width).length + 1
  let loopStart := before + 2 + setUp.length
  let done := loopStart + 5
  insns (loadWidth t0 rn width ++ [Insn.addi t1 zero (bits width)]) ++
    [Item.jump (some (.beq t0)) done] ++
    insns (.addi t1 zero 0 :: setUp ++ [test]) ++
    [Item.jump (some (.bne t3)) done] ++
    insns [.addi t1 t1 1, step] ++
    [Item.jump none loopStart] ++
    insns (storeSlot32 rd t1)

def clz (width : Width) (rd rn : VReg) : Code :=
  countZeros width rd rn (li t2 (BitVec.ofNat 64 (2 ^ (bits width - 1)))) (.alu 0x33 7 0 t3 t0 t2)
    (slli t0 t0 1)

def ctz (width : Width) (rd rn : VReg) : Code :=
  countZeros width rd rn [] (.aluImm 0x13 7 t3 t0 1) (srli t0 t0 1)

def sext (rd rn : VReg) (shift : Nat) : List Insn :=
  loadSlot32 t0 rn ++ [slli t0 t0 shift, srai t0 t0 shift] ++ storeSlot32 rd t0

def loadFslot (fd : Fin 32) (slot : VReg) (width : FloatWidth) : List Insn :=
  [.loadFloat (if width = .f64 then 3 else 2) fd s0 (slotDisp slot)]

def storeFslot (fs : Fin 32) (slot : VReg) (width : FloatWidth) : List Insn :=
  [.storeFloat (if width = .f64 then 3 else 2) s0 fs (slotDisp slot)]

def intCmpBool (dst : Reg) : Cond → List Insn
  | .eq => [.alu 0x33 4 0 dst t0 t1, .aluImm 0x13 3 dst dst 1]
  | .ne => [.alu 0x33 4 0 dst t0 t1, .alu 0x33 3 0 dst zero dst]
  | .lo => [.alu 0x33 3 0 dst t0 t1]
  | .hs => [.alu 0x33 3 0 dst t0 t1, .aluImm 0x13 4 dst dst 1]
  | .hi => [.alu 0x33 3 0 dst t1 t0]
  | .ls => [.alu 0x33 3 0 dst t1 t0, .aluImm 0x13 4 dst dst 1]
  | .lt => [.alu 0x33 2 0 dst t0 t1]
  | .ge => [.alu 0x33 2 0 dst t0 t1, .aluImm 0x13 4 dst dst 1]
  | .gt => [.alu 0x33 2 0 dst t1 t0]
  | .le => [.alu 0x33 2 0 dst t1 t0, .aluImm 0x13 4 dst dst 1]

def floatCmpBool (dst : Reg) (width : FloatWidth) (cond : Cond) : Except AsmError (List Insn) :=
  let fmt := match width with
    | .f32 => 0x50
    | .f64 => 0x51
  match cond with
  | .eq => .ok [.fp fmt 2 dst 0 1]
  | .ne => .ok [.fp fmt 2 dst 0 1, .aluImm 0x13 4 dst dst 1]
  | .lo | .lt => .ok [.fp fmt 1 dst 0 1]
  | .gt => .ok [.fp fmt 1 dst 1 0]
  | .ls | .le => .ok [.fp fmt 0 dst 0 1]
  | .ge => .ok [.fp fmt 0 dst 1 0]
  | _ => .error .invalidImmediate

def extendOperands (cond : Cond) : Width → List Insn
  | .w32 =>
      if cond.usesSignedOperands then
        [slli t0 t0 32, srai t0 t0 32, slli t1 t1 32, srai t1 t1 32]
      else [slli t0 t0 32, srli t0 t0 32, slli t1 t1 32, srli t1 t1 32]
  | .x64 => []

def loadRhs (width : Width) : Rhs → List Insn
  | .reg reg => loadWidth t1 reg width
  | .imm32 imm => li t1 (imm.signExtend 64)

def cmpBool (dst : Reg) (cmp : LastCmp) (cond : Cond) : Except AsmError (List Insn) :=
  match cmp with
  | .int width lhs rhs =>
      .ok (loadWidth t0 lhs width ++ loadRhs width rhs ++ extendOperands cond width ++
        intCmpBool dst cond)
  | .float width lhs rhs => do
      return loadFslot 0 lhs width ++ loadFslot 1 rhs width ++ (← floatCmpBool dst width cond)

def expect {α : Type} : Except AsmError α → Except AsmError α
  | .ok a => .ok a
  | .error _ => .error .panic

/-- `last_cmp.take().expect(..)` and the comparison, whose failure is not expected either. -/
def takenCmpBool (dst : Reg) (lastCmp : Option LastCmp) (cond : Cond) :
    Except AsmError (List Insn) :=
  match lastCmp with
  | none => .error .panic
  | some cmp => expect (cmpBool dst cmp cond)

/-- The jump is patched to go to the target; the branch before it skips the jump. -/
def branchCond (lastCmp : Option LastCmp) (cond : Cond) (target : Nat) : Except AsmError Code :=
  match lastCmp with
  | none => .error .invalidImmediate
  | some cmp => do
      let flag ← cmpBool t4 cmp cond.inverted
      return insns flag ++ [.jump (some (.bne t4)) (flag.length + 2), .leave none target]

def cbnz (width : Width) (reg : VReg) (target : Nat) : Code :=
  let flag := loadWidth t0 reg width
  insns flag ++ [Item.jump (some (.beq t0)) (flag.length + 2), .leave none target]

def cselW (rd rn rm : VReg) (lastCmp : Option LastCmp) (cond : Cond) : Except AsmError Code := do
  let flag ← takenCmpBool t0 lastCmp cond
  let operands := flag ++ loadSlot32 t1 rn ++ loadSlot32 t2 rm
  return insns operands ++ [Item.jump (some (.bne t0)) (operands.length + 2)] ++
    insns (.addi t1 t2 0 :: storeSlot32 rd t1)

def floatBinop (width : FloatWidth) (vd vn vm : VReg) (funct7 : Nat) : List Insn :=
  loadFslot 0 vn width ++ loadFslot 1 vm width ++ [Insn.fp funct7 0 0 0 1] ++ storeFslot 0 vd width

def floatFormat : FloatWidth → Nat
  | .f32 => 0
  | .f64 => 1

def floatBinary : FloatOp → FloatWidth → VReg → VReg → VReg → List Insn
  | .fadd, width, vd, vn, vm => floatBinop width vd vn vm (floatFormat width)
  | .fsub, width, vd, vn, vm => floatBinop width vd vn vm (0x04 + floatFormat width)
  | .fmul, width, vd, vn, vm => floatBinop width vd vn vm (0x08 + floatFormat width)
  | .fdiv, width, vd, vn, vm => floatBinop width vd vn vm (0x0c + floatFormat width)

def floatUnop (width : FloatWidth) (vd vn : VReg) (funct7 : Nat) : List Insn :=
  loadFslot 0 vn width ++ [Insn.fp funct7 0 0 0 0] ++ storeFslot 0 vd width

def fabs : FloatWidth → VReg → VReg → List Insn
  | .f32, vd, vn => opImm .w32 vd vn 0x7fffffff 0x33 7 0
  | .f64, vd, vn => opImm .x64 vd vn 0x7fffffffffffffff 0x33 7 0

def fneg : FloatWidth → VReg → VReg → List Insn
  | .f32, vd, vn => opImm .w32 vd vn ((0x80000000 : BitVec 32).signExtend 64) 0x33 4 0
  | .f64, vd, vn => opImm .x64 vd vn 0x8000000000000000 0x33 4 0

def cvtIntToFloat (dst : FloatWidth) (source : Width) (vd rn : VReg) (signed : Bool) : List Insn :=
  let operand := match source, signed with
    | .x64, _ => loadSlot64 t0 rn
    | .w32, true => loadSlot32 t0 rn ++ [slli t0 t0 32, srai t0 t0 32]
    | .w32, false => loadSlot32 t0 rn
  let rs2 : Fin 32 := match source, signed with
    | .w32, true => 0
    | .w32, false => 1
    | .x64, true => 2
    | .x64, false => 3
  operand ++ [Insn.fp (0x68 + floatFormat dst) 0 0 t0 rs2] ++ storeFslot 0 vd dst

def fcvtW (source : FloatWidth) (rd vn : VReg) (signed : Bool) : List Insn :=
  loadFslot 0 vn source ++
    [Insn.fp (0x60 + floatFormat source) 1 t0 0 (if signed then 0 else 1)] ++ storeSlot32 rd t0

def shiftW (rd rn : VReg) (funct3 : Nat) (imm : Int) : List Insn :=
  loadSlot32 t0 rn ++ [Insn.aluImm 0x1b funct3 t0 t0 imm] ++ storeSlot32 rd t0

def lslWImm (rd rn : VReg) (shift : Nat) : List Insn := shiftW rd rn 1 (shift % 32 : Nat)

def lsrWImm (rd rn : VReg) (shift : Nat) : List Insn := shiftW rd rn 5 (shift % 32 : Nat)

def asrWImm (rd rn : VReg) (shift : Nat) : List Insn :=
  shiftW rd rn 5 (0x20 * 2 ^ 5 + shift % 32 : Nat)

def shiftX (rd rn : VReg) (shift : Insn) : List Insn :=
  loadSlot64 t0 rn ++ [shift] ++ storeSlot64 rd t0

def asrXImm (rd rn : VReg) (shift : Nat) : List Insn := shiftX rd rn (srai t0 t0 (shift % 64))

def lslXImm (rd rn : VReg) (shift : Nat) : Except AsmError (List Insn) :=
  if shift > 63 then .error .invalidImmediate else .ok (shiftX rd rn (slli t0 t0 shift))

def lsrXImm (rd rn : VReg) (shift : Nat) : Except AsmError (List Insn) :=
  if shift > 63 then .error .invalidImmediate else .ok (shiftX rd rn (srli t0 t0 shift))

def ubfm : Width → VReg → VReg → Nat → Nat → Except AsmError (List Insn)
  | .w32, rd, rn, immr, imms =>
      if immr = 0 then
        let mask := if imms ≥ 31 then BitVec.allOnes 32 else BitVec.ofNat 32 (2 ^ (imms + 1) - 1)
        .ok (opImm .w32 rd rn (mask.signExtend 64) 0x33 7 0)
      else .ok (lsrWImm rd rn immr)
  | .x64, rd, rn, immr, imms =>
      if immr = 0 then
        let mask := if imms < 63 then
            li t1 (BitVec.ofNat 64 (2 ^ (imms + 1) - 1)) ++ [.alu 0x33 7 0 t0 t0 t1]
          else []
        .ok (loadSlot64 t0 rn ++ mask ++ storeSlot64 rd t0)
      else expect (lsrXImm rd rn immr)

def sbfm : Width → VReg → VReg → Nat → Nat → Except AsmError (List Insn)
  | .w32, rd, rn, immr, imms =>
      if immr = 0 ∧ imms < 31 then .ok (lslWImm rd rn (31 - imms) ++ asrWImm rd rd (31 - imms))
      else .ok (asrWImm rd rn immr)
  | .x64, rd, rn, immr, imms =>
      if immr = 0 ∧ imms < 63 then do
        return (← expect (lslXImm rd rn (63 - imms))) ++ asrXImm rd rd (63 - imms)
      else .ok (asrXImm rd rn immr)

/-- Displacements are 32-bit and signed. -/
def displacement (offset : Nat) : Except AsmError Int :=
  if offset < 2 ^ 31 then .ok offset else .error .invalidImmediate

def ldrImm (width : Width) (rt rn : VReg) (offset : Nat) : Except AsmError (List Insn) := do
  let disp ← displacement offset
  let load := match width with
    | .w32 => loadMem32 t0 t0 disp
    | .x64 => loadMem64 t0 t0 disp
  return loadSlot64 t0 rn ++ load ++ storeWidth rt t0 width

def strImm (width : Width) (rt rn : VReg) (offset : Nat) : Except AsmError (List Insn) := do
  let disp ← displacement offset
  let store := match width with
    | .w32 => storeMem32 t0 disp t1
    | .x64 => storeMem64 t0 disp t1
  return loadSlot64 t0 rn ++ loadWidth t1 rt width ++ store

def loadFunct3 : LoadKind → Nat
  | .ldrsb => 0
  | .ldrb => 4
  | .ldrsh => 1
  | .ldrh => 5
  | .ldr => 6

def storeFunct3 : StoreKind → Nat
  | .strb => 0
  | .strh => 1
  | .str => 2

def argumentRegs : List Reg := [10, 11, 12, 13, 14, 15, 16, 17]

/-- The first eight virtual registers and the registers that carry them. -/
def arguments (f : VReg → Reg → List Insn) : List Insn :=
  (List.finRange 8).flatMap fun slot => f (slot.castLE eight_le_vregs) (argumentRegs.get slot)

def passArguments (rn : VReg) : List Insn :=
  loadSlot64 t0 rn ++ arguments fun slot reg => loadSlot64 reg slot

def call : Insn := .jalr ra t0

def takeResults : List Insn := storeSlot64 0 a0 ++ storeSlot64 1 a1

def blrX (rn : VReg) : List Insn := passArguments rn ++ call :: takeResults

/-- The code of an operation that leaves what is pending to the instructions. -/
def code (pending : Pending) : MasmOp → Except AsmError Code
  | .branch target => .ok [.leave none target]
  | .branchCond cond target => branchCond pending.lastCmp cond target
  | .cbnz width reg target => .ok (cbnz width reg target)
  | .blrX rn => .ok (insns (blrX rn))
  | .movXFromSp _ => .ok []
  | .mov width rd rn => .ok (insns (loadWidth t0 rn width ++ storeWidth rd t0 width))
  | .movImmU32 rd value => .ok (insns (li t0 (value.signExtend 64) ++ storeSlot32 rd t0))
  | .movImmU64 rd value => .ok (insns (li t0 value ++ storeSlot64 rd t0))
  | .addImmU32 rd rn imm => .ok (insns (opImm .w32 rd rn (imm.signExtend 64) 0x3b 0 0))
  | .addImmU64 rd rn imm => .ok (insns (opImm .x64 rd rn imm 0x33 0 0))
  | .subImmU32 rd rn imm => .ok (insns (opImm .w32 rd rn (imm.signExtend 64) 0x3b 0 0x20))
  | .binary op width rd rn rm => .ok (insns (binary op width rd rn rm))
  | .msub width rd rn rm ra => .ok (insns (msub width rd rn rm ra))
  | .neg width rd rm => .ok (insns (neg width rd rm))
  | .rbit _ _ _ => .ok []
  | .clz width rd rn =>
      .ok (if pending.rbit = some (width, rd, rn) then ctz width rd rn else clz width rd rn)
  | .sxthW rd rn => .ok (insns (sext rd rn 48))
  | .sxtbW rd rn => .ok (insns (sext rd rn 56))
  | .cmp _ _ _ | .cmpWImm _ _ => .ok []
  | .csetW rd cond => do
      return insns ((← takenCmpBool t0 pending.lastCmp cond) ++ storeSlot32 rd t0)
  | .cselW rd rn rm cond => cselW rd rn rm pending.lastCmp cond
  | .fmov .f32 rd rn => .ok (insns (loadSlot32 t0 rn ++ storeSlot32 rd t0))
  | .fmov .f64 rd rn => .ok (insns (loadSlot64 t0 rn ++ storeSlot64 rd t0))
  | .fcmp _ _ _ => .ok []
  | .floatBinary op width vd vn vm => .ok (insns (floatBinary op width vd vn vm))
  | .fabs width vd vn => .ok (insns (fabs width vd vn))
  | .fneg width vd vn => .ok (insns (fneg width vd vn))
  | .fsqrt width vd vn => .ok (insns (floatUnop width vd vn (0x2c + floatFormat width)))
  | .frint _ _ _ _ => .error .unsupportedFeature
  | .cvtf dst source vd rn signed => .ok (insns (cvtIntToFloat dst source vd rn signed))
  | .fcvtSFromD vd vn =>
      .ok (insns (loadFslot 0 vn .f64 ++ [.fp 0x20 0 0 0 1] ++ storeFslot 0 vd .f32))
  | .fcvtDFromS vd vn =>
      .ok (insns (loadFslot 0 vn .f32 ++ [.fp 0x21 0 0 0 0] ++ storeFslot 0 vd .f64))
  | .fcvtW source rd vn signed => .ok (insns (fcvtW source rd vn signed))
  | .lslWImm rd rn shift => .ok (insns (lslWImm rd rn shift))
  | .lsrWImm rd rn shift => .ok (insns (lsrWImm rd rn shift))
  | .asrWImm rd rn shift => .ok (insns (asrWImm rd rn shift))
  | .ubfm width rd rn immr imms => do return insns (← ubfm width rd rn immr imms)
  | .sbfm width rd rn immr imms => do return insns (← sbfm width rd rn immr imms)
  | .lslXImm rd rn shift => do return insns (← lslXImm rd rn shift)
  | .lsrXImm rd rn shift => do return insns (← lsrXImm rd rn shift)
  | .ldrImm width rt rn offset => do return insns (← ldrImm width rt rn offset)
  | .load kind rt rn =>
      .ok (insns (loadSlot64 t0 rn ++ loadMem t1 t0 0 (loadFunct3 kind) ++ storeSlot32 rt t1))
  | .store kind rt rn =>
      .ok (insns (loadSlot64 t0 rn ++ loadSlot32 t1 rt ++ storeMem t0 0 t1 (storeFunct3 kind)))
  | .strImm width rt rn offset => do return insns (← strImm width rt rn offset)

/-- What is pending after an operation that emitted this code. Every instruction forgets a pending
`rbit`. -/
def pendingAfter (pending : Pending) (emitted : Code) : MasmOp → Pending
  | .rbit width rd rn => { pending with rbit := some (width, rd, rn) }
  | .clz _ _ _ => { pending with rbit := none }
  | .cmp width rn rm => { pending with lastCmp := some (.int width rn (.reg rm)) }
  | .cmpWImm rn imm => { pending with lastCmp := some (.int .w32 rn (.imm32 imm)) }
  | .fcmp width vn vm => { pending with lastCmp := some (.float width vn vm) }
  | .csetW _ _ | .cselW _ _ _ _ => ⟨none, none⟩
  | _ => { pending with rbit := if emitted.isEmpty then pending.rbit else none }

def emitAll : Pending → List MasmOp → Except AsmError (List Code)
  | _, [] => .ok []
  | pending, op :: ops => do
      let block ← code pending op
      return block :: (← emitAll (pendingAfter pending block op) ops)

/-- `stp_pre(29, 30)`. -/
def stpPre : List Insn :=
  [Insn.addi sp sp (-frameSize)] ++ storeMem64 sp raDisp ra ++ storeMem64 sp s0Disp s0 ++
    [Insn.addi s0 sp frameSize] ++ arguments storeSlot64

/-- `ldp_post(29, 30)`. -/
def ldpPost : List Insn :=
  loadSlot64 a0 0 ++ loadSlot64 a1 1 ++ loadMem64 s0 sp s0Disp ++ loadMem64 ra sp raDisp ++
    [Insn.addi sp sp frameSize]

/-- `O` stands for the floating-point registers. -/
structure State (O : Type) where
  regs : Reg → Word
  mem : Bytes
  other : O

/-- What the frame does not depend on. -/
structure Cpu (O : Type) where
  result : Insn → State O → Word
  other : Insn → State O → O
  float : Insn → State O → Word
  faults : Insn → State O → Prop

section machine

variable {O : Type}

def State.reg (s : State O) (reg : Reg) : Word := if reg = zero then 0 else s.regs reg

def State.set (s : State O) (reg : Reg) (value : Word) : State O :=
  { s with regs := fun r => if r = reg then value else s.regs r }

def State.slot (s : State O) (reg : VReg) : Word := load s.mem (place (s.reg s0) (slotDisp reg)) 8

def Apart (s : State O) (a : Word) (n : Nat) : Prop :=
  ∀ i : Int, -frameSize ≤ i → i < 0 → n ≤ (place (s.reg s0) i - a).toNat

/-- A helper returns: the stack pointer and the registers that callees save are what they were, and
so is the frame. -/
structure Returns (s t : State O) : Prop where
  saved : ∀ reg ∈ [sp, 3, 4, s0, 9, 18, 19, 20, 21, 22, 23, 24, 25, 26, 27],
    t.reg reg = s.reg reg
  frame : ∀ i : Int, -frameSize ≤ i → i < 0 →
    t.mem (place (s.reg s0) i) = s.mem (place (s.reg s0) i)

/-- Comparisons and conversions to integers write a register of the machine. -/
def toInteger (funct7 : Nat) : Bool := [0x50, 0x51, 0x60, 0x61].contains funct7

variable (cpu : Cpu O)

def Exec (i : Insn) (s t : State O) : Prop :=
  ¬cpu.faults i s ∧
    match i with
    | .addi rd rs1 imm => t = s.set rd (place (s.reg rs1) imm)
    | .aluImm _ _ rd _ _ | .alu _ _ _ rd _ _ => t = s.set rd (cpu.result i s)
    | .load funct3 rd base imm =>
        t = s.set rd (match funct3 with
          | 3 => load s.mem (place (s.reg base) imm) 8
          | 6 => load s.mem (place (s.reg base) imm) 4
          | _ => cpu.result i s)
    | .store funct3 base src imm =>
        t = { s with mem := store s.mem (place (s.reg base) imm) (2 ^ funct3) (s.reg src) }
    | .loadFloat _ _ _ _ => t = { s with other := cpu.other i s }
    | .storeFloat funct3 base _ imm =>
        t = { s with mem := store s.mem (place (s.reg base) imm) (2 ^ funct3) (cpu.float i s) }
    | .fp funct7 _ rd _ _ =>
        t = if toInteger funct7 then s.set rd (cpu.result i s)
          else { s with other := cpu.other i s }
    | .jalr _ _ => Returns s t

/-- A store through a pointer goes to the memory of the program or of the runtime. -/
def StoresApart (i : Insn) (s : State O) : Prop :=
  match i with
  | .store funct3 base _ imm =>
      base ≠ s0 → base ≠ sp → Apart s (place (s.reg base) imm) (2 ^ funct3)
  | _ => True

/-- Runs in which stores through pointers stay out of the frame. -/
def machine : Lib.Machine Insn Test (State O) where
  exec i s t := StoresApart i s ∧ Exec cpu i s t
  holds test s :=
    match test with
    | .beq rs1 => s.reg rs1 = 0
    | .bne rs1 => s.reg rs1 ≠ 0

end machine

end Telomere.Jit.Riscv64
