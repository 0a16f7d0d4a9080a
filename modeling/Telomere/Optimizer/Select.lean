import Telomere.Optimizer.Canon
import Telomere.Optimizer.UnfusedRun

/-!
# Instruction selection: pointer loops

Two of the families that `select` tries at a cursor: windows of eleven instructions that end in a
branch to the block they are in, replaced by one op that runs the whole loop.
-/

namespace Telomere.Optimizer

/-- An op of the kernel; only the first op of a block gets a label. -/
structure KernelOp where
  op : Op
  operands : List LoweredOperand
deriving DecidableEq, Repr

/-- A family's match at a cursor: the instructions it takes and the ops it emits. -/
structure MatchResult where
  consumed : Nat
  ops : List KernelOp
deriving DecidableEq, Repr

/-- `GenericSpec`: the instruction as it is. -/
def CanonInst.generic (inst : CanonInst) : KernelOp :=
  ⟨inst.op, inst.operands⟩

def branchTarget (branch : CanonInst) : Option Nat :=
  match branch.operands.head? with
  | some (.jumpTarget target) => some target
  | _ => none

/-- The local of an access of four bytes by this handler. -/
def rawLocal (handler : Op) (inst : CanonInst) : Option LoweredOperand :=
  if inst.op = handler then inst.operands.head? else none

def rawLocalGet : CanonInst → Option LoweredOperand := rawLocal .opLocalGet4

def rawLocalSet : CanonInst → Option LoweredOperand := rawLocal .opLocalSet4

def rawLocalTee : CanonInst → Option LoweredOperand := rawLocal .opLocalTee4

def sameRawOperand : LoweredOperand → LoweredOperand → Bool
  | .raw lhs, .raw rhs => lhs == rhs
  | _, _ => false

def emitI32LoadStoreLocalBaseReverseLoop (block : CanonBlock) (cursor : Nat) :
    Option MatchResult :=
  match (block.insts.drop cursor).take 11 with
  | [prevGet, savedSet, cursorGet, prevTee, load, cursorSet, addrGet, valueGet, store, condGet,
      branch] =>
      if load.op ≠ .opI32Load ∨ store.op ≠ .opI32Store ∨ branch.op ≠ .opBrIf ∨
          branchTarget branch ≠ some block.id then none
      else do
        let prev ← rawLocalGet prevGet
        let saved ← rawLocalSet savedSet
        let cursorLocal ← rawLocalGet cursorGet
        let teePrev ← rawLocalTee prevTee
        let setCursor ← rawLocalSet cursorSet
        let storeAddr ← rawLocalGet addrGet
        let storeValue ← rawLocalGet valueGet
        let cond ← rawLocalGet condGet
        if !sameRawOperand prev teePrev || !sameRawOperand prev storeAddr ||
            !sameRawOperand saved storeValue || !sameRawOperand cursorLocal setCursor ||
            !sameRawOperand cursorLocal cond then none
        else
          some ⟨11, [⟨.opI32LoadStoreLocalBaseReverseLoop,
            [prev, saved, cursorLocal, ← load.operands.head?, ← store.operands.head?]⟩]⟩
  | _ => none

def emitI32LoadStoreLocalBaseRelinkLoop (block : CanonBlock) (cursor : Nat) :
    Option MatchResult :=
  match (block.insts.drop cursor).take 11 with
  | [cursorGet, currentTee, load, cursorSet, storeAddrGet, prevGet, store, currentGet, prevSet,
      condGet, branch] =>
      if load.op ≠ .opI32Load ∨ store.op ≠ .opI32Store ∨ branch.op ≠ .opBrIf ∨
          branchTarget branch ≠ some block.id then none
      else do
        let cursorLocal ← rawLocalGet cursorGet
        let current ← rawLocalTee currentTee
        let setCursor ← rawLocalSet cursorSet
        let storeAddr ← rawLocalGet storeAddrGet
        let prev ← rawLocalGet prevGet
        let getCurrent ← rawLocalGet currentGet
        let setPrev ← rawLocalSet prevSet
        let cond ← rawLocalGet condGet
        if !sameRawOperand cursorLocal setCursor || !sameRawOperand cursorLocal cond ||
            !sameRawOperand current storeAddr || !sameRawOperand current getCurrent ||
            !sameRawOperand prev setPrev then none
        else
          some ⟨11, [⟨.opI32LoadStoreLocalBaseRelinkLoop,
            [cursorLocal, current, prev, ← load.operands.head?, ← store.operands.head?]⟩]⟩
  | _ => none

structure KernelBlock where
  blockId : Nat
  ops : List KernelOp
deriving DecidableEq, Repr

/-- `lower` of one block: the label stands on the first op. -/
def KernelBlock.lower (block : KernelBlock) : LoweredKernelBlock where
  blockId := block.blockId
  label := block.blockId
  ops := match block.ops with
    | [] => []
    | first :: rest =>
        ⟨some block.blockId, first.op, first.operands⟩ :: rest.map fun op => ⟨none, op.op, op.operands⟩

structure KernelFunction where
  blocks : List KernelBlock
deriving DecidableEq, Repr

def KernelFunction.lower (kernel : KernelFunction) : LoweredKernelFunction :=
  ⟨kernel.blocks.map KernelBlock.lower⟩

end Telomere.Optimizer
