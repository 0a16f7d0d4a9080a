import Telomere.Jit.Masm
import Telomere.Lib.Blocks
import Telomere.Lib.Bytes

/-!
# The baseline assembler for x86-64

Virtual registers are slots below the frame pointer. Instructions are given as they are emitted,
with the opcodes of the source for what the frame does not depend on; what such an instruction
computes is left open, as are the flags and the vector registers it may change.
-/

namespace Telomere.Jit.X64

open Lib (Word Bytes Item Block)
open Lib.Bytes (place load store)

abbrev Reg := Fin 16

def rax : Reg := 0
def rcx : Reg := 1
def rdx : Reg := 2
def rsp : Reg := 4
def rbp : Reg := 5
def rsi : Reg := 6
def rdi : Reg := 7
def r8 : Reg := 8
def r9 : Reg := 9
def r10 : Reg := 10
def r11 : Reg := 11

def frameSize : Int := 272

def extraArg6 : Int := -frameSize

def extraArg7 : Int := -frameSize + slotSize

/-- Sources and destinations in memory are given by a base and a displacement, in slots by the
displacement from the frame pointer. -/
inductive Insn where
  | movLoad (wide : Bool) (dst base : Reg) (disp : Int)
  | movStore (bytes : Nat) (base : Reg) (disp : Int) (src : Reg)
  | movImm (wide : Bool) (reg : Reg) (value : Word)
  | movReg (dst src : Reg)
  | alu (opcode : Nat) (wide : Bool) (dst src : Reg)
  | aluImm (subop : Nat) (wide : Bool) (reg : Reg) (imm : BitVec 32)
  | modrmReg (opcode subop : Nat) (wide : Bool) (rm : Reg)
  | shiftImm (subop : Nat) (wide : Bool) (reg : Reg) (shift : Nat)
  | imulSlot (wide : Bool) (dst : Reg) (disp : Int)
  | cmpSlot (wide : Bool) (lhs : Reg) (disp : Int)
  | movsxSlot (opcode2 : Nat) (disp : Int)
  | movsxdSlot (disp : Int)
  | movExtend (opcode2 : Nat) (dst base : Reg)
  | zeroRdx (wide : Bool)
  | signRdx (wide : Bool)
  | test (wide : Bool) (lhs rhs : Reg)
  | cmov (cond : Cond) (dst src : Reg)
  | setcc (opcode2 : Nat) (dst : Reg)
  | aluBytes (opcode : Nat) (dst src : Reg)
  | movzxAl
  | bitScan (opcode2 : Nat) (wide : Bool)
  | loadXmm (f64 : Bool) (disp : Int)
  | storeXmm (f64 : Bool) (disp : Int)
  | sse (f64 : Bool) (opcode : Nat) (disp : Int)
  | ucomis (f64 : Bool) (disp : Int)
  | round (f64 : Bool) (disp : Int) (mode : Nat)
  | cvtsi2s (f64 : Bool)
  | addXmm (f64 : Bool)
  | cvtXmm (f64 : Bool)
  | cvtts2si (f64 wide : Bool) (disp : Int)
  | call (reg : Reg)
  | push (reg : Reg)
  | pop (reg : Reg)
  | subRsp (imm : Int)
deriving DecidableEq, Repr

namespace Insn

/-- Instructions whose bytes go through `emit`, which forgets a pending `rbit`. -/
def forgetsRbit : Insn → Bool
  | .imulSlot .. | .movsxSlot .. | .movsxdSlot .. | .movExtend .. | .zeroRdx _ | .signRdx _
  | .cmov .. | .setcc .. | .aluBytes .. | .movzxAl | .bitScan .. | .ucomis .. | .round ..
  | .cvtsi2s _ | .addXmm _ | .cvtXmm _ | .call _ => true
  | _ => false

/-- The registers that get what the instruction computes. -/
def writes : Insn → List Reg
  | .movImm _ reg _ => [reg]
  | .movReg dst _ => [dst]
  | .alu _ _ dst _ => [dst]
  | .aluImm subop _ reg _ => if subop = 7 then [] else [reg]
  | .modrmReg opcode subop _ rm =>
      if opcode = 0xf7 ∧ (subop = 6 ∨ subop = 7) then [rax, rdx] else [rm]
  | .shiftImm _ _ reg _ => [reg]
  | .imulSlot _ dst _ => [dst]
  | .movsxSlot _ _ | .movsxdSlot _ => [rax]
  | .movExtend _ dst _ => [dst]
  | .zeroRdx _ | .signRdx _ => [rdx]
  | .cmov _ dst _ => [dst]
  | .setcc _ dst => [dst]
  | .aluBytes _ dst _ => [dst]
  | .movzxAl => [rax]
  | .bitScan _ _ => [rax]
  | .cvtts2si _ _ _ => [rax]
  | _ => []

end Insn

abbrev Code := Block Insn Cond

def insns (is : List Insn) : Code := is.map .insn

def loadSlot64 (dst : Reg) (slot : VReg) : Insn := .movLoad true dst rbp (slotDisp slot)

def loadSlot32 (dst : Reg) (slot : VReg) : Insn := .movLoad false dst rbp (slotDisp slot)

def storeSlot64 (slot : VReg) (src : Reg) : Insn := .movStore 8 rbp (slotDisp slot) src

/-- Slots are always written whole. -/
def storeSlot32 (slot : VReg) (src : Reg) : Insn := storeSlot64 slot src

def storeFrameDisp64 (disp : Int) (src : Reg) : Insn := .movStore 8 rbp disp src

def loadSlot : Width → Reg → VReg → Insn
  | .w32 => loadSlot32
  | .x64 => loadSlot64

def storeSlot : Width → VReg → Reg → Insn
  | .w32 => storeSlot32
  | .x64 => storeSlot64

def Width.wide (width : Width) : Bool := width = .x64

def FloatWidth.f64 (width : FloatWidth) : Bool := width = .f64

def binop (width : Width) (rd rn rm : VReg) (opcode : Nat) : List Insn :=
  [loadSlot width rax rn, loadSlot width rcx rm, .alu opcode (Width.wide width) rax rcx,
    storeSlot width rd rax]

def mul (width : Width) (rd rn rm : VReg) : List Insn :=
  [loadSlot width rax rn, .imulSlot (Width.wide width) rax (slotDisp rm), storeSlot width rd rax]

def udiv (width : Width) (rd rn rm : VReg) : List Insn :=
  [loadSlot width rax rn, .zeroRdx (Width.wide width), loadSlot width rcx rm,
    .modrmReg 0xf7 6 (Width.wide width) rcx, storeSlot width rd rax]

def sdiv (width : Width) (rd rn rm : VReg) : List Insn :=
  [loadSlot width rax rn, .signRdx (Width.wide width), loadSlot width rcx rm,
    .modrmReg 0xf7 7 (Width.wide width) rcx, storeSlot width rd rax]

def shiftVar (width : Width) (rd rn rm : VReg) (subop : Nat) : List Insn :=
  [loadSlot width rax rn, loadSlot32 rcx rm, .modrmReg 0xd3 subop (Width.wide width) rax,
    storeSlot width rd rax]

def binary : BinOp → Width → VReg → VReg → VReg → List Insn
  | .add, width, rd, rn, rm => binop width rd rn rm 0x03
  | .sub, width, rd, rn, rm => binop width rd rn rm 0x2b
  | .mul, width, rd, rn, rm => mul width rd rn rm
  | .udiv, width, rd, rn, rm => udiv width rd rn rm
  | .sdiv, width, rd, rn, rm => sdiv width rd rn rm
  | .and, width, rd, rn, rm => binop width rd rn rm 0x23
  | .orr, width, rd, rn, rm => binop width rd rn rm 0x0b
  | .eor, width, rd, rn, rm => binop width rd rn rm 0x33
  | .lslv, width, rd, rn, rm => shiftVar width rd rn rm 4
  | .lsrv, width, rd, rn, rm => shiftVar width rd rn rm 5
  | .asrv, width, rd, rn, rm => shiftVar width rd rn rm 7
  | .rorv, width, rd, rn, rm => shiftVar width rd rn rm 1

def shiftImm (width : Width) (rd rn : VReg) (subop shift : Nat) : List Insn :=
  [loadSlot width rax rn, .shiftImm subop (Width.wide width) rax shift, storeSlot width rd rax]

def lslWImm (rd rn : VReg) (shift : Nat) : List Insn := shiftImm .w32 rd rn 4 (shift % 32)

def lsrWImm (rd rn : VReg) (shift : Nat) : List Insn := shiftImm .w32 rd rn 5 (shift % 32)

def asrWImm (rd rn : VReg) (shift : Nat) : List Insn := shiftImm .w32 rd rn 7 (shift % 32)

def asrXImm (rd rn : VReg) (shift : Nat) : List Insn := shiftImm .x64 rd rn 7 (shift % 64)

def lslXImm (rd rn : VReg) (shift : Nat) : Except AsmError (List Insn) :=
  if shift > 63 then .error .invalidImmediate else .ok (shiftImm .x64 rd rn 4 shift)

def lsrXImm (rd rn : VReg) (shift : Nat) : Except AsmError (List Insn) :=
  if shift > 63 then .error .invalidImmediate else .ok (shiftImm .x64 rd rn 5 shift)

def expect {α : Type} : Except AsmError α → Except AsmError α
  | .ok a => .ok a
  | .error _ => .error .panic

def ubfm : Width → VReg → VReg → Nat → Nat → Except AsmError (List Insn)
  | .w32, rd, rn, immr, imms =>
      if immr = 0 then
        let mask := if imms ≥ 31 then BitVec.allOnes 32 else BitVec.ofNat 32 (2 ^ (imms + 1) - 1)
        .ok [loadSlot32 rax rn, .aluImm 4 false rax mask, storeSlot32 rd rax]
      else .ok (lsrWImm rd rn immr)
  | .x64, rd, rn, immr, imms =>
      if immr = 0 then
        let mask := if imms + 1 < 64 then
            [.movImm true rcx (BitVec.ofNat 64 (2 ^ (imms + 1) - 1)), .alu 0x23 true rax rcx]
          else []
        .ok ([loadSlot64 rax rn] ++ mask ++ [storeSlot64 rd rax])
      else expect (lsrXImm rd rn immr)

def sbfm : Width → VReg → VReg → Nat → Nat → Except AsmError (List Insn)
  | .w32, rd, rn, immr, imms =>
      if immr = 0 ∧ imms < 31 then .ok (lslWImm rd rn (31 - imms) ++ asrWImm rd rd (31 - imms))
      else .ok (asrWImm rd rn immr)
  | .x64, rd, rn, immr, imms =>
      if immr = 0 ∧ imms < 63 then do
        return (← expect (lslXImm rd rn (63 - imms))) ++ asrXImm rd rd (63 - imms)
      else .ok (asrXImm rd rn immr)

/-- `scan` finds the bit, `flip` makes its place a count; zero is looked after before. -/
def countZeros (width : Width) (rd rn : VReg) (scan : Nat) (flip : List Insn) : Code :=
  let zeroTarget := 5 + flip.length
  insns [loadSlot width rax rn, .test (Width.wide width) rax rax] ++
    [Item.jump (some .eq) zeroTarget] ++
    insns (.bitScan scan (Width.wide width) :: flip) ++
    [Item.jump none (zeroTarget + 1)] ++
    insns [.movImm false rax (if width = .x64 then 64 else 32), storeSlot width rd rax]

def clz (width : Width) (rd rn : VReg) : Code :=
  countZeros width rd rn 0xbd [.aluImm 6 false rax (if width = .x64 then 63 else 31)]

def ctz (width : Width) (rd rn : VReg) : Code := countZeros width rd rn 0xbc []

def floatBinop (width : FloatWidth) (vd vn vm : VReg) (opcode : Nat) : List Insn :=
  let f64 := FloatWidth.f64 width
  [.loadXmm f64 (slotDisp vn), .sse f64 opcode (slotDisp vm), .storeXmm f64 (slotDisp vd)]

def floatBinary : FloatOp → FloatWidth → VReg → VReg → VReg → List Insn
  | .fadd, width, vd, vn, vm => floatBinop width vd vn vm 0x58
  | .fsub, width, vd, vn, vm => floatBinop width vd vn vm 0x5c
  | .fmul, width, vd, vn, vm => floatBinop width vd vn vm 0x59
  | .fdiv, width, vd, vn, vm => floatBinop width vd vn vm 0x5e

def floatUnop (width : FloatWidth) (vd vn : VReg) (opcode : Nat) : List Insn :=
  let f64 := FloatWidth.f64 width
  [.sse f64 opcode (slotDisp vn), .storeXmm f64 (slotDisp vd)]

def fabs : FloatWidth → VReg → VReg → List Insn
  | .f32, vd, vn => [loadSlot32 rax vn, .aluImm 4 false rax 0x7fffffff, storeSlot32 vd rax]
  | .f64, vd, vn =>
      [loadSlot64 rax vn, .movImm true rcx 0x7fffffffffffffff, .alu 0x23 true rax rcx,
        storeSlot64 vd rax]

def fneg : FloatWidth → VReg → VReg → List Insn
  | .f32, vd, vn => [loadSlot32 rax vn, .aluImm 6 false rax 0x80000000, storeSlot32 vd rax]
  | .f64, vd, vn =>
      [loadSlot64 rax vn, .movImm true rcx 0x8000000000000000, .alu 0x33 true rax rcx,
        storeSlot64 vd rax]

def roundMode : Rounding → Nat
  | .frintn => 0
  | .frintp => 2
  | .frintm => 1
  | .frintz => 3

/-- `sse41` tells whether the processor can round. -/
def round (sse41 : Bool) (mode : Rounding) (width : FloatWidth) (vd vn : VReg) :
    Except AsmError (List Insn) :=
  let f64 := FloatWidth.f64 width
  if sse41 then .ok [.round f64 (slotDisp vn) (roundMode mode), .storeXmm f64 (slotDisp vd)]
  else .error .unsupportedFeature

def cvtU64RegToFloat (f64 : Bool) (before : Nat) : Code :=
  insns [.test true rax rax] ++ [Item.jump (some .ge) (before + 9)] ++
    insns [.movReg rcx rax, .shiftImm 5 true rcx 1, .aluImm 4 true rax 1, .alu 0x0b true rax rcx,
      .cvtsi2s f64, .addXmm f64] ++
    [Item.jump none (before + 10)] ++ insns [.cvtsi2s f64]

def cvtIntToFloat (dst : FloatWidth) (source : Width) (vd rn : VReg) (signed : Bool) : Code :=
  let f64 := FloatWidth.f64 dst
  let convert := match source, signed with
    | .x64, true => insns [loadSlot64 rax rn, .cvtsi2s f64]
    | .x64, false => insns [loadSlot64 rax rn] ++ cvtU64RegToFloat f64 1
    | .w32, true => insns [.movsxdSlot (slotDisp rn), .cvtsi2s f64]
    | .w32, false => insns [loadSlot32 rax rn, .cvtsi2s f64]
  convert ++ insns [.storeXmm f64 (slotDisp vd)]

def floatCset (rd : VReg) (cond : Cond) (width : FloatWidth) (lhs rhs : VReg) :
    Except AsmError (List Insn) := do
  let f64 := FloatWidth.f64 width
  let flag : List Insn ← match cond with
    | .eq => .ok [.setcc 0x94 rax, .setcc 0x9b rcx, .aluBytes 0x20 rax rcx]
    | .ne => .ok [.setcc 0x95 rax, .setcc 0x9a rcx, .aluBytes 0x08 rax rcx]
    | .lo => .ok [.setcc 0x92 rax, .setcc 0x9b rcx, .aluBytes 0x20 rax rcx]
    | .gt => .ok [.setcc 0x97 rax]
    | .ls => .ok [.setcc 0x96 rax, .setcc 0x9b rcx, .aluBytes 0x20 rax rcx]
    | .ge => .ok [.setcc 0x93 rax]
    | _ => .error .invalidImmediate
  return [Insn.loadXmm f64 (slotDisp lhs), .ucomis f64 (slotDisp rhs)] ++ flag ++
    [.movzxAl, storeSlot32 rd rax]

def condCode : Cond → Nat
  | .eq => 0x4
  | .ne => 0x5
  | .hs => 0x3
  | .lo => 0x2
  | .hi => 0x7
  | .ls => 0x6
  | .ge => 0xd
  | .lt => 0xc
  | .gt => 0xf
  | .le => 0xe

def csetW (rd : VReg) (cond : Cond) : Option LastCmp → Except AsmError (List Insn)
  | some (.float width lhs rhs) => expect (floatCset rd cond width lhs rhs)
  | _ => .ok [.setcc (0x90 + condCode cond) rax, .movzxAl, storeSlot32 rd rax]

/-- Displacements are 32-bit and signed. -/
def displacement (offset : Nat) : Except AsmError Int :=
  if offset < 2 ^ 31 then .ok offset else .error .invalidImmediate

def ldrImm (width : Width) (rt rn : VReg) (offset : Nat) : Except AsmError (List Insn) := do
  let disp ← displacement offset
  return [loadSlot64 rax rn, .movLoad (Width.wide width) rax rax disp, storeSlot width rt rax]

def strImm (width : Width) (rt rn : VReg) (offset : Nat) : Except AsmError (List Insn) := do
  let disp ← displacement offset
  return [loadSlot64 rax rn, loadSlot width rcx rt,
    .movStore (if width = .x64 then 8 else 4) rax disp rcx]

def loadMemExtend (rt rn : VReg) : LoadKind → List Insn
  | .ldrb => [loadSlot64 rcx rn, .movExtend 0xb6 rax rcx, storeSlot32 rt rax]
  | .ldrsb => [loadSlot64 rcx rn, .movExtend 0xbe rax rcx, storeSlot32 rt rax]
  | .ldrh => [loadSlot64 rcx rn, .movExtend 0xb7 rax rcx, storeSlot32 rt rax]
  | .ldrsh => [loadSlot64 rcx rn, .movExtend 0xbf rax rcx, storeSlot32 rt rax]
  | .ldr => [loadSlot64 rcx rn, .movLoad false rax rcx 0, storeSlot32 rt rax]

def storeBytes : StoreKind → Nat
  | .strb => 1
  | .strh => 2
  | .str => 4

def storeMemWidth (rt rn : VReg) (kind : StoreKind) : List Insn :=
  [loadSlot64 rcx rn, loadSlot32 rax rt, .movStore (storeBytes kind) rcx 0 rax]

def addImmU64 (rd rn : VReg) (imm : Word) : List Insn :=
  let add : List Insn := if imm.toNat < 2 ^ 31 then [.aluImm 0 true rax (imm.setWidth 32)]
    else [.movImm true rcx imm, .alu 0x03 true rax rcx]
  [loadSlot64 rax rn] ++ add ++ [storeSlot64 rd rax]

def passArguments (rn : VReg) : List Insn :=
  [loadSlot64 r11 rn, loadSlot64 rdi 0, loadSlot64 rsi 1, loadSlot64 rdx 2, loadSlot64 rcx 3,
    loadSlot64 r8 4, loadSlot64 r9 5, loadSlot64 rax 6, storeFrameDisp64 extraArg6 rax,
    loadSlot64 rax 7, storeFrameDisp64 extraArg7 rax]

def takeResults : List Insn := [storeSlot64 0 rax, storeSlot64 1 rdx]

def blrX (rn : VReg) : List Insn := passArguments rn ++ .call r11 :: takeResults

def cbnz (width : Width) (reg : VReg) (target : Nat) : Code :=
  insns [loadSlot width rax reg, .test (Width.wide width) rax rax] ++ [Item.leave (some .ne) target]

section emit

variable (sse41 : Bool)

/-- The code of an operation that leaves what is pending to the instructions. -/
def code (pending : Pending) : MasmOp → Except AsmError Code
  | .branch target => .ok [.leave none target]
  | .branchCond cond target => .ok [.leave (some cond) target]
  | .cbnz width reg target => .ok (cbnz width reg target)
  | .blrX rn => .ok (insns (blrX rn))
  | .movXFromSp _ => .ok []
  | .mov width rd rn => .ok (insns [loadSlot width rax rn, storeSlot width rd rax])
  | .movImmU32 rd value => .ok (insns [.movImm false rax (value.setWidth 64), storeSlot32 rd rax])
  | .movImmU64 rd value => .ok (insns [.movImm true rax value, storeSlot64 rd rax])
  | .addImmU32 rd rn imm =>
      .ok (insns [loadSlot32 rax rn, .aluImm 0 false rax imm, storeSlot32 rd rax])
  | .addImmU64 rd rn imm => .ok (insns (addImmU64 rd rn imm))
  | .subImmU32 rd rn imm =>
      .ok (insns [loadSlot32 rax rn, .aluImm 5 false rax imm, storeSlot32 rd rax])
  | .binary op width rd rn rm => .ok (insns (binary op width rd rn rm))
  | .msub width rd rn rm ra =>
      .ok (insns [loadSlot width rax rn, .imulSlot (Width.wide width) rax (slotDisp rm),
        loadSlot width rcx ra, .alu 0x2b (Width.wide width) rcx rax, storeSlot width rd rcx])
  | .neg width rd rm =>
      .ok (insns [loadSlot width rax rm, .modrmReg 0xf7 3 (Width.wide width) rax,
        storeSlot width rd rax])
  | .rbit _ _ _ => .ok []
  | .clz width rd rn =>
      .ok (if pending.rbit = some (width, rd, rn) then ctz width rd rn else clz width rd rn)
  | .sxthW rd rn => .ok (insns [.movsxSlot 0xbf (slotDisp rn), storeSlot32 rd rax])
  | .sxtbW rd rn => .ok (insns [.movsxSlot 0xbe (slotDisp rn), storeSlot32 rd rax])
  | .cmp width rn rm =>
      .ok (insns [loadSlot width rax rn, .cmpSlot (Width.wide width) rax (slotDisp rm)])
  | .cmpWImm rn imm => .ok (insns [loadSlot32 rax rn, .aluImm 7 false rax imm])
  | .csetW rd cond => do return insns (← csetW rd cond pending.lastCmp)
  | .cselW rd rn rm cond =>
      .ok (insns [loadSlot32 rax rm, loadSlot32 rcx rn, .cmov cond rax rcx, storeSlot32 rd rax])
  | .fmov .f32 rd rn => .ok (insns [loadSlot32 rax rn, storeSlot32 rd rax])
  | .fmov .f64 rd rn => .ok (insns [loadSlot64 rax rn, storeSlot64 rd rax])
  | .fcmp _ _ _ => .ok []
  | .floatBinary op width vd vn vm => .ok (insns (floatBinary op width vd vn vm))
  | .fabs width vd vn => .ok (insns (fabs width vd vn))
  | .fneg width vd vn => .ok (insns (fneg width vd vn))
  | .fsqrt width vd vn => .ok (insns (floatUnop width vd vn 0x51))
  | .frint mode width vd vn => do return insns (← round sse41 mode width vd vn)
  | .cvtf dst source vd rn signed => .ok (cvtIntToFloat dst source vd rn signed)
  | .fcvtSFromD vd vn =>
      .ok (insns [.loadXmm true (slotDisp vn), .cvtXmm true, .storeXmm false (slotDisp vd)])
  | .fcvtDFromS vd vn =>
      .ok (insns [.loadXmm false (slotDisp vn), .cvtXmm false, .storeXmm true (slotDisp vd)])
  | .fcvtW source rd vn signed =>
      .ok (insns [.cvtts2si (FloatWidth.f64 source) (!signed) (slotDisp vn), storeSlot32 rd rax])
  | .lslWImm rd rn shift => .ok (insns (lslWImm rd rn shift))
  | .lsrWImm rd rn shift => .ok (insns (lsrWImm rd rn shift))
  | .asrWImm rd rn shift => .ok (insns (asrWImm rd rn shift))
  | .ubfm width rd rn immr imms => do return insns (← ubfm width rd rn immr imms)
  | .sbfm width rd rn immr imms => do return insns (← sbfm width rd rn immr imms)
  | .lslXImm rd rn shift => do return insns (← lslXImm rd rn shift)
  | .lsrXImm rd rn shift => do return insns (← lsrXImm rd rn shift)
  | .ldrImm width rt rn offset => do return insns (← ldrImm width rt rn offset)
  | .load kind rt rn => .ok (insns (loadMemExtend rt rn kind))
  | .store kind rt rn => .ok (insns (storeMemWidth rt rn kind))
  | .strImm width rt rn offset => do return insns (← strImm width rt rn offset)

/-- Jumps go through `emit` too. -/
def forgets : Item Insn Cond → Bool
  | .insn i => i.forgetsRbit
  | .jump _ _ | .leave _ _ => true

/-- What is pending after an operation that emitted this code. -/
def pendingAfter (pending : Pending) (emitted : Code) : MasmOp → Pending
  | .rbit width rd rn => { pending with rbit := some (width, rd, rn) }
  | .clz _ _ _ => { pending with rbit := none }
  | .fcmp width vn vm => { pending with lastCmp := some (.float width vn vm) }
  | op =>
      let rbit := if emitted.any forgets then none else pending.rbit
      match op with
      | .cmp _ _ _ | .cmpWImm _ _ | .csetW _ _ => ⟨rbit, none⟩
      | _ => ⟨rbit, pending.lastCmp⟩

def emitAll : Pending → List MasmOp → Except AsmError (List Code)
  | _, [] => .ok []
  | pending, op :: ops => do
      let block ← code sse41 pending op
      return block :: (← emitAll (pendingAfter pending block op) ops)

end emit

def argumentRegs : List Reg := [rdi, rsi, rdx, rcx, r8, r9, r10, r11]

/-- `stp_pre(29, 30)`. -/
def stpPre : List Insn :=
  [Insn.push rbp, .movReg rbp rsp, .subRsp frameSize] ++
    (List.finRange 8).map fun slot =>
      storeSlot64 (slot.castLE eight_le_vregs) (argumentRegs.get slot)

/-- `ldp_post(29, 30)`. -/
def ldpPost : List Insn := [loadSlot64 rax 0, loadSlot64 rdx 1, .movReg rsp rbp, .pop rbp]

structure State (O : Type) where
  regs : Reg → Word
  mem : Bytes
  other : O

/-- What the frame does not depend on: `O` stands for flags and vector registers. -/
structure Cpu (O : Type) where
  result : Insn → State O → Reg → Word
  other : Insn → State O → O
  vector : Insn → State O → Word
  flag : Cond → O → Bool
  faults : Insn → State O → Prop

section machine

variable {O : Type}

def State.set (s : State O) (reg : Reg) (value : Word) : State O :=
  { s with regs := fun r => if r = reg then value else s.regs r }

def State.slot (s : State O) (reg : VReg) : Word := load s.mem (place (s.regs rbp) (slotDisp reg)) 8

/-- The range has no place of the frame: not in the slots, the outgoing arguments, the saved frame
pointer or the return address. -/
def Apart (s : State O) (a : Word) (n : Nat) : Prop :=
  ∀ i : Int, -frameSize ≤ i → i < 16 → n ≤ (place (s.regs rbp) i - a).toNat

/-- A helper returns: the stack pointer and the registers that callees save are what they were, and
so is the frame, but for the arguments that were passed in it. -/
structure Returns (s t : State O) : Prop where
  saved : ∀ reg ∈ [rsp, rbp, 3, 12, 13, 14, 15], t.regs reg = s.regs reg
  frame : ∀ i : Int, -(vregs * slotSize) ≤ i → i < 16 →
    t.mem (place (s.regs rbp) i) = s.mem (place (s.regs rbp) i)

variable (cpu : Cpu O)

def Exec (i : Insn) (s t : State O) : Prop :=
  ¬cpu.faults i s ∧
    match i with
    | .movLoad wide dst base disp =>
        t = s.set dst (load s.mem (place (s.regs base) disp) (if wide then 8 else 4))
    | .movStore n base disp src =>
        t = { s with mem := store s.mem (place (s.regs base) disp) n (s.regs src) }
    | .storeXmm f64 disp =>
        t = { s with
          mem := store s.mem (place (s.regs rbp) disp) (if f64 then 8 else 4) (cpu.vector i s) }
    | .movReg dst src => t = s.set dst (s.regs src)
    | .push reg =>
        t = { s.set rsp (place (s.regs rsp) (-8)) with
          mem := store s.mem (place (s.regs rsp) (-8)) 8 (s.regs reg) }
    | .pop reg => t = (s.set reg (load s.mem (s.regs rsp) 8)).set rsp (place (s.regs rsp) 8)
    | .subRsp imm => t = s.set rsp (place (s.regs rsp) (-imm))
    | .call _ => Returns s t
    | _ => t = ⟨fun r => if r ∈ i.writes then cpu.result i s r else s.regs r, s.mem, cpu.other i s⟩

/-- A store through a pointer goes to the memory of the program or of the runtime. -/
def StoresApart (i : Insn) (s : State O) : Prop :=
  match i with
  | .movStore n base disp _ => base ≠ rbp → Apart s (place (s.regs base) disp) n
  | _ => True

/-- Runs in which stores through pointers stay out of the frame. -/
def machine : Lib.Machine Insn Cond (State O) where
  exec i s t := StoresApart i s ∧ Exec cpu i s t
  holds cond s := cpu.flag cond s.other

end machine

end Telomere.Jit.X64
