import Mathlib.Algebra.Ring.Nat
import Mathlib.Data.List.Basic

/-!
# Lowered code

The code between instruction selection and the interpreter: ops with symbolic operands, and
their layout as one slot for the handler and one for each operand.
-/

namespace Telomere.Optimizer

/-- Interpreter handlers that the modelled passes inspect or install. `other` stands for the
rest. -/
inductive Op where
  | opLocalGet4
  | opLocalGet4LocalGet4
  | opLocalGet4LocalGet4LocalGet4
  | opLocalGet4Run
  | opLocalGet4RunSkip
  | opI32Add
  | opI32ConstBinop
  | opLocalSet4
  | opLocalTee4
  | opI32Const
  | opI64Const
  | opF32Const
  | opF64Const
  | opI32Store
  | opLocalGet4x3I32AddConstBinopI32AddSet4
  | opLocalGet4x3I32AddConstBinopI32AddTee4
  | opLocalGet4x3I32AddConstBinopI32AddTee4I32ConstStore
  | opI32Load
  | opI32Load8S
  | opI32Load8U
  | opI32Load16S
  | opI32Load16U
  | opI32StoreLocalBaseLocalGet4
  | opI32Store8LocalBaseLocalGet4
  | opI32Store16LocalBaseLocalGet4
  | opI32LoadStoreLocalBaseLocalGet4
  | opI32Load16ULocalBaseLocalGet4I32Load16U
  | opI32Load16SLocalBaseLocalGet4I32Load16S
  | opI32Load16ULocalBaseLocalGet4I32Load16ULocalGet4
  | opI32Load16SLocalBaseLocalGet4I32Load16SLocalGet4
  | opLocalGet4I32Load16ULocalBaseLocalGet4I32Load16U
  | opLocalGet4I32Load16SLocalBaseLocalGet4I32Load16S
  | opBr
  | opBrTable
  | opLocalGet4BrTable
  | opLocalGet4I32ConstAdd
  | opLocalGet4I32ConstAddBrTable
  | opLocalGet4I32ConstAddSet4
  | opLocalGet4I32ConstAddTee4
  | opLocalGet4I32ConstAddBrIf
  | opLocalGet4I32ConstAddTee4BrIf
  | opLocalGet4I32ConstCompareBrIf
  | opLocalBinop32
  | opLocalBinop32Set4
  | opLocalBinop32Tee4
  | opLocalBinop32BrIf
  | opLocalBinop64
  | opLocalBinop64Set8
  | opLocalBinop64Tee8
  | opLocalCmp32
  | opLocalCmp32BrIf
  | opLocalCmp64
  | opLocalCmp64BrIf
  | opIf
  | opBrIf
  | opLoop
  | opEnd
  | opDrop
  | opI32IncLocalBase
  | opI32Load8ULocalBaseSet4LocalGet4Set4LocalGet4BrIf
  | opI32Load8ULocalBaseSet4LocalGet4Set4LocalGet4BrIfTakenLocalGet4
  | opI32Load8ULocalBaseSet4LocalGet4Set4LocalGet4BrIfFallthroughLocalGet4
  | opI32IncLocalBaseI32Load8ULocalBaseSet4LocalGet4Set4LocalGet4BrIf
  | opI32GuardedLoad8ULocalBaseSet4LocalGet4Set4LocalGet4BrIf
  | opI32GuardedLoad8ULocalBaseSet4LocalGet4Set4LocalGet4BrIfTakenLocalGet4BrTable
  | opI32GuardedLoad8ULocalBaseSet4LocalGet4Set4LocalGet4BrIfFalseLocalGet4BrTable
  | opI32GuardedLoad8ULocalBaseSet4LocalGet4Set4LocalGet4BrIfTakenConstCompareBrTable
  | opI32LoadLocalBaseTee4
  | opI32Load8UTee4BrIf
  | opI32LoadLocalBaseTee4I32Load8UTee4BrIf
  | opI32Load8ULocalBaseTee4I32EqzBrIf
  | opLocalGet4I32ConstAddSet4I32Load8ULocalBaseTee4I32EqzBrIf
  | opI32LoadLocalBaseTee4BrIf
  | opI32LoadLocalBaseSet4I32Load16ULocalBaseLocalEqBrIf
  | opI32LoadLocalBaseSet4I32Load16ULocalBaseLocalEqSearchLoop
  | opI32LoadLocalBaseSet4I32Load16ULocalBaseLocalEqSearchLoopFallthrough
  | opI32LoadLocalBaseSet4I32Load8ULocalBaseLocalMaskedCompareBrIf
  | opI32LoadLocalBaseSet4I32Load8ULocalBaseLocalMaskedSearchLoop
  | opI32LoadLocalBaseSet4I32Load8ULocalBaseLocalMaskedSearchLoopFallthrough
  | opI32LoadStoreLocalBaseReverseLoop
  | opI32LoadStoreLocalBaseRelinkLoop
  | opI32ShrU
  | opI32And
  | opI32Xor
  | opI32Eq
  | opSelect
  | opSelect4
  | opI32SelectBitStep4
  | opLocalGet8
  | opI64Load
  | opF32Load
  | opF64Load
  | opI64Store
  | opF32Store
  | opF64Store
  | opI32LoadConstBase
  | opI64LoadConstBase
  | opF32LoadConstBase
  | opF64LoadConstBase
  | opI32StoreConstBaseLocal4
  | opI64StoreConstBaseLocal8
  | opF32StoreConstBaseLocal4
  | opF64StoreConstBaseLocal8
  | opI32LoadConstBaseLocalGet4I32AddSet4
  | other (id : Nat)
deriving DecidableEq, Repr

/-- An operand before materialization; `raw` holds the eight bytes of the `Operand` union. -/
inductive LoweredOperand where
  | raw (encoded : BitVec 64)
  | constPoolRef (index : Nat)
  | jumpTarget (label : Nat)
  | callRecipeRef (funcidx : Nat)
deriving DecidableEq, Repr

structure LoweredOp where
  label : Option Nat
  op : Op
  operands : List LoweredOperand
deriving DecidableEq, Repr

/-- The arms of the union that share its low four bytes: `u32`, `i32`, `local_addr`,
`jump_addr` and `drop_size`. -/
def u32 (encoded : BitVec 64) : BitVec 32 :=
  encoded.setWidth 32

/-- `Operand { u32: value }.encoded` -/
def rawU32Operand (value : Nat) : LoweredOperand :=
  .raw (BitVec.ofNat 64 value)

theorem u32_ofNat {value : Nat} (h : value < 2 ^ 32) :
    (u32 (BitVec.ofNat 64 value)).toNat = value := by
  simp only [u32, BitVec.toNat_setWidth, BitVec.toNat_ofNat]
  omega

/-- `op_jump_target`: a branch keeps its target in the last operand. -/
def opJumpTarget (op : LoweredOp) : Option Nat :=
  match op.operands.getLast? with
  | some (.jumpTarget target) => some target
  | _ => none

def slotLen (op : LoweredOp) : Nat :=
  1 + op.operands.length

def slotCount (code : List LoweredOp) : Nat :=
  (code.map slotLen).sum

def startOf (code : List LoweredOp) (index : Nat) : Nat :=
  slotCount (code.take index)

@[simp] theorem slotCount_nil : slotCount [] = 0 := rfl

@[simp] theorem slotCount_cons (op : LoweredOp) (code : List LoweredOp) :
    slotCount (op :: code) = slotLen op + slotCount code := by
  simp [slotCount]

@[simp] theorem slotCount_append (first second : List LoweredOp) :
    slotCount (first ++ second) = slotCount first + slotCount second := by
  simp [slotCount]

theorem startOf_add (code : List LoweredOp) (index len : Nat) :
    startOf code (index + len) = startOf code index + slotCount ((code.drop index).take len) := by
  rw [startOf, List.take_add, slotCount_append, startOf]

/-- Slots past the branch target at which the taken form of the load8-update branch goes on. -/
def takenAdvance : Nat := 2

/-- `label_to_addr` of `materialize_inner`: the last op with the label decides. -/
def labelToAddr (code : List LoweredOp) (label : Nat) : Nat :=
  let step := fun (acc : Nat × Nat) (op : LoweredOp) =>
    (if op.label = some label then acc.2 else acc.1, acc.2 + slotLen op)
  (code.foldl step (0, 0)).1

end Telomere.Optimizer
