import Mathlib.Algebra.Ring.Nat
import Mathlib.Data.BitVec

/-!
# The baseline assembler

Both machines offer the same operations on virtual registers. The methods of a pair that differ in
the ending `_w` and `_x`, or `_s` and `_d`, are one operation with a width; so are the methods that
emit what another one does.
-/

namespace Telomere.Jit

/-- A virtual register; the assemblers refuse others. -/
abbrev VReg := Fin 32

instance neZero_registers : NeZero 32 := ⟨by decide⟩

theorem eight_le_vregs : 8 ≤ 32 := by decide

inductive Width where
  | w32 | x64
deriving DecidableEq, Repr

inductive FloatWidth where
  | f32 | f64
deriving DecidableEq, Repr

inductive Cond where
  | eq | ne | hs | lo | hi | ls | ge | lt | gt | le
deriving DecidableEq, Repr

namespace Cond

def inverted : Cond → Cond
  | .eq => .ne
  | .ne => .eq
  | .lo => .hs
  | .hs => .lo
  | .hi => .ls
  | .ls => .hi
  | .lt => .ge
  | .ge => .lt
  | .gt => .le
  | .le => .gt

def usesSignedOperands : Cond → Bool
  | .ge | .gt | .le | .lt => true
  | _ => false

end Cond

inductive AsmError where
  | invalidRegister
  | invalidImmediate
  | branchOutOfRange
  | unsupportedFeature
  | panic
deriving DecidableEq, Repr

inductive Rhs where
  | reg (reg : VReg)
  | imm32 (imm : BitVec 32)
deriving DecidableEq, Repr

/-- `LastCmp`: the machine with flags keeps the comparisons of floats only. -/
inductive LastCmp where
  | int (width : Width) (lhs : VReg) (rhs : Rhs)
  | float (width : FloatWidth) (lhs rhs : VReg)
deriving DecidableEq, Repr

inductive BinOp where
  | add | sub | mul | udiv | sdiv | and | orr | eor | lslv | lsrv | asrv | rorv
deriving DecidableEq, Repr

inductive FloatOp where
  | fadd | fsub | fmul | fdiv
deriving DecidableEq, Repr

inductive Rounding where
  | frintn | frintp | frintm | frintz
deriving DecidableEq, Repr

/-- What is loaded: `ldrb_w`, `ldrsb_w`, `ldrh_w`, `ldrsh_w`, `ldr_w`. -/
inductive LoadKind where
  | ldrb | ldrsb | ldrh | ldrsh | ldr
deriving DecidableEq, Repr

/-- `strb_w`, `strh_w`, `str_w`. -/
inductive StoreKind where
  | strb | strh | str
deriving DecidableEq, Repr

/-- The operations between the prologue and the epilogue. A branch is patched to go to the place
of another operation, or to the epilogue. -/
inductive MasmOp where
  | branch (target : Nat)
  | branchCond (cond : Cond) (target : Nat)
  | cbnz (width : Width) (reg : VReg) (target : Nat)
  | blrX (rn : VReg)
  | movXFromSp (rd : VReg)
  | mov (width : Width) (rd rn : VReg)
  | movImmU32 (rd : VReg) (value : BitVec 32)
  | movImmU64 (rd : VReg) (value : BitVec 64)
  | addImmU32 (rd rn : VReg) (imm : BitVec 32)
  | addImmU64 (rd rn : VReg) (imm : BitVec 64)
  | subImmU32 (rd rn : VReg) (imm : BitVec 32)
  | binary (op : BinOp) (width : Width) (rd rn rm : VReg)
  | msub (width : Width) (rd rn rm ra : VReg)
  | neg (width : Width) (rd rm : VReg)
  | rbit (width : Width) (rd rn : VReg)
  | clz (width : Width) (rd rn : VReg)
  | sxthW (rd rn : VReg)
  | sxtbW (rd rn : VReg)
  | cmp (width : Width) (rn rm : VReg)
  | cmpWImm (rn : VReg) (imm : BitVec 32)
  | csetW (rd : VReg) (cond : Cond)
  | cselW (rd rn rm : VReg) (cond : Cond)
  | fmov (width : FloatWidth) (rd rn : VReg)
  | fcmp (width : FloatWidth) (vn vm : VReg)
  | floatBinary (op : FloatOp) (width : FloatWidth) (vd vn vm : VReg)
  | fabs (width : FloatWidth) (vd vn : VReg)
  | fneg (width : FloatWidth) (vd vn : VReg)
  | fsqrt (width : FloatWidth) (vd vn : VReg)
  | frint (mode : Rounding) (width : FloatWidth) (vd vn : VReg)
  | cvtf (dst : FloatWidth) (source : Width) (vd rn : VReg) (signed : Bool)
  | fcvtSFromD (vd vn : VReg)
  | fcvtDFromS (vd vn : VReg)
  | fcvtW (source : FloatWidth) (rd vn : VReg) (signed : Bool)
  | lslWImm (rd rn : VReg) (shift : Nat)
  | lsrWImm (rd rn : VReg) (shift : Nat)
  | asrWImm (rd rn : VReg) (shift : Nat)
  | ubfm (width : Width) (rd rn : VReg) (immr imms : Nat)
  | sbfm (width : Width) (rd rn : VReg) (immr imms : Nat)
  | lslXImm (rd rn : VReg) (shift : Nat)
  | lsrXImm (rd rn : VReg) (shift : Nat)
  | ldrImm (width : Width) (rt rn : VReg) (offset : Nat)
  | load (kind : LoadKind) (rt rn : VReg)
  | store (kind : StoreKind) (rt rn : VReg)
  | strImm (width : Width) (rt rn : VReg) (offset : Nat)
deriving DecidableEq, Repr

def vregs : Nat := 32

def slotSize : Int := 8

/-- The slot of a virtual register, told from the frame pointer. -/
def slotDisp (reg : VReg) : Int := -((reg.val + 1) * slotSize)

structure Pending where
  rbit : Option (Width × VReg × VReg)
  lastCmp : Option LastCmp

def Pending.initial : Pending := ⟨none, none⟩

end Telomere.Jit
