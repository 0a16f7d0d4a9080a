import Telomere.Vm.State

/-!
# Handlers

What the interpreter's handlers do to locals, memory and stack, and how they choose the next op.
`word i` is the operand `tail_code.add(i)`. Continuations stay symbolic: a number of slots after
the first operand, or the jump target in an operand, so that the same definitions serve for every
layout of the code.
-/

namespace Telomere.Vm

open Optimizer

/-- Where a handler passes control. -/
inductive Next where
  /-- `call_next(tail_code, slots)` -/
  | fall (slots : Nat)
  /-- `call_next(code + jump_addr of operand i, extra)` -/
  | jump (operand extra : Nat)
deriving DecidableEq, Repr

/-- The continuation, and whether `skip_end_ops` is applied to it. -/
structure Control where
  next : Next
  skipEnds : Bool
deriving DecidableEq, Repr

abbrev Words := Nat → BitVec 64

/-- `i32_compare`, `i32_const_compare` -/
def i32Compare (kind : Nat) (lhs rhs : BitVec 32) : Bool :=
  match kind with
  | 0 => lhs == rhs
  | 1 => lhs != rhs
  | 2 => lhs.slt rhs
  | 3 => lhs.ult rhs
  | 4 => rhs.slt lhs
  | 5 => rhs.ult lhs
  | 6 => lhs.sle rhs
  | 7 => lhs.ule rhs
  | 8 => rhs.sle lhs
  | 9 => rhs.ule lhs
  | _ => false

/-- The integer kinds of `op_local_cmp32`, as `eval_integer_i32_local_cmp32_at` evaluates them;
the floating point kinds are not modelled. -/
def evalLocalCmp32 (word : Words) (at_ : Nat) (s : VmState) : Except Trap (BitVec 32) :=
  let kind := (u32 (word at_)).toNat
  let lhs := s.locals (u32 (word (at_ + 1)))
  let rhs := if kind % 2 = 0 then s.locals (u32 (word (at_ + 2))) else u32 (word (at_ + 2))
  if kind / 2 < 10 then .ok (if i32Compare (kind / 2) lhs rhs then 1 else 0)
  else .error .invalidOperand

/-- The load, the two local updates and the condition of the load8-update branch whose operands
start at `at_`. -/
def load8Update (word : Words) (at_ : Nat) (s : VmState) : Except Trap (BitVec 32 × VmState) := do
  let offset := s.locals (u32 (word at_)) + u32 (word (at_ + 1))
  let start ← computeMemoryOffset (word (at_ + 2)) offset
  let value ← s.memory.readU8At start
  let s := s.setLocal (u32 (word (at_ + 3))) (value.setWidth 32)
  let s := s.setLocal (u32 (word (at_ + 5))) (s.locals (u32 (word (at_ + 4))))
  return (s.locals (u32 (word (at_ + 6))), s)

def guardedLoad8UUpdateBranchCond (word : Words) (s : VmState) :
    Except Trap (BitVec 32 × VmState) := do
  let s := s.setLocal (u32 (word 2)) (s.locals (u32 (word 0)) + u32 (word 1))
  let guard ← evalLocalCmp32 word 3 s
  if guard = 0 then return (0, s)
  else load8Update word 7 s

def loadStartLocalBase (word : Words) (at_ : Nat) (s : VmState) : Except Trap Nat :=
  computeMemoryOffset (word (at_ + 2)) (s.locals (u32 (word at_)) + u32 (word (at_ + 1)))

/-- `br_table_target_ptr_at`: the operand that holds the selected target. -/
def brTableTarget (word : Words) (sizeAt : Nat) (index : BitVec 32) : Next :=
  let size := (u32 (word sizeAt)).toNat
  .jump (sizeAt + 1 + if index.toNat < size then index.toNat else size) 0

/-- `memory_br_if_ptr`: a taken branch and a fall-through both skip `op_end`. -/
def memoryBrIf (target advance : Nat) (taken : Bool) : Control :=
  ⟨if taken then .jump target 0 else .fall advance, true⟩

/-- `Stack::block_return` on words: the topmost `size` go down to `top`. Validated code never has
fewer. -/
def blockReturn (s : VmState) (top size : Nat) : Except Trap VmState :=
  if s.stack.length < top + size then .error .invalidOperand
  else .ok { s with stack := s.stack.take size ++ s.stack.drop (s.stack.length - top) }

/-- `matched` of the masked search: its compare kinds are `eq` and `ne`. -/
def maskedCompare (kind : Nat) (value rhs : BitVec 32) : Bool :=
  match kind with
  | 0 => value == rhs
  | 1 => value != rhs
  | _ => false

/-- Two dependent loads, the first one into a local, and a compare of the second with a local. -/
def loadSetLoadCompare (read : Memory → Nat → Except Trap (BitVec 32))
    (compare : BitVec 32 → BitVec 32 → Bool) (word : Words) (s : VmState) :
    Except Trap (Bool × VmState) := do
  let addr ← s.memory.readU32At (← loadStartLocalBase word 0 s)
  let s := s.setLocal (u32 (word 3)) addr
  let value ← read s.memory (← computeMemoryOffset (word 5) (addr + u32 (word 4)))
  return (compare value (s.locals (u32 (word 6))), s)

def readU16Word (m : Memory) (offset : Nat) : Except Trap (BitVec 32) :=
  (m.readU16At offset).map (·.setWidth 32)

def readU8Word (m : Memory) (offset : Nat) : Except Trap (BitVec 32) :=
  (m.readU8At offset).map (·.setWidth 32)

def exec (op : Op) (word : Words) (s : VmState) : Except Trap (Control × VmState) :=
  match op with
  | .opLocalGet4 => .ok (⟨.fall 1, false⟩, s.push (s.locals (u32 (word 0))))
  | .opLocalGet4I32ConstAdd =>
      .ok (⟨.fall 2, false⟩, s.push (s.locals (u32 (word 0)) + u32 (word 1)))
  | .opLocalGet4I32ConstAddSet4 =>
      .ok (⟨.fall 3, false⟩, s.setLocal (u32 (word 2)) (s.locals (u32 (word 0)) + u32 (word 1)))
  | .opLocalCmp32 => do
      let result ← evalLocalCmp32 word 0 s
      return (⟨.fall 3, false⟩, s.push result)
  | .opIf => do
      let (value, s) ← s.pop
      return (⟨if value ≠ 0 then .fall 1 else .jump 0 0, false⟩, s)
  | .opLocalSet4 => do
      let (value, s) ← s.pop
      return (⟨.fall 1, false⟩, s.setLocal (u32 (word 0)) value)
  | .opLocalTee4 => do
      let (value, _) ← s.pop
      return (⟨.fall 1, false⟩, s.setLocal (u32 (word 0)) value)
  | .opI32Load => do
      let (offset, s) ← s.pop
      let value ← s.memory.readU32At (← computeMemoryOffset (word 0) offset)
      return (⟨.fall 1, false⟩, s.push value)
  | .opI32Store => do
      let (value, s) ← s.pop
      let (offset, s) ← s.pop
      let memory ← s.memory.writeU32At (← computeMemoryOffset (word 0) offset) value
      return (⟨.fall 1, false⟩, { s with memory := memory })
  | .opLoop => do
      let s ← blockReturn s (loopStackTop (word 0)) (loopParamSize (word 0))
      return (⟨.fall 1, false⟩, s)
  | .opBrIf => do
      let (cond, s) ← s.pop
      return (⟨if cond ≠ 0 then .jump 0 0 else .fall 1, false⟩, s)
  | .opBr => .ok (⟨.jump 0 0, false⟩, s)
  | .opBrTable => do
      let (index, s) ← s.pop
      return (⟨brTableTarget word 0 index, false⟩, s)
  | .opLocalGet4BrTable =>
      .ok (⟨brTableTarget word 1 (s.locals (u32 (word 0))), true⟩, s)
  | .opLocalGet4I32ConstAddBrTable =>
      .ok (⟨brTableTarget word 2 (s.locals (u32 (word 0)) + u32 (word 1)), true⟩, s)
  | .opLocalGet4I32ConstCompareBrIf =>
      let cond := i32Compare (u32 (word 1)).toNat (s.locals (u32 (word 0))) (u32 (word 2))
      .ok (⟨if cond then .jump 3 0 else .fall 4, false⟩, s)
  | .opEnd => .ok (⟨.fall 0, false⟩, s)
  | .opDrop => .ok (⟨.fall 1, false⟩, { s with stack := s.stack.drop ((u32 (word 0)).toNat / 4) })
  | .opI32Load8ULocalBaseSet4LocalGet4Set4LocalGet4BrIf => do
      let (cond, s) ← load8Update word 0 s
      return (memoryBrIf 7 8 (cond ≠ 0), s)
  | .opI32Load8ULocalBaseSet4LocalGet4Set4LocalGet4BrIfTakenLocalGet4 => do
      let (cond, s) ← load8Update word 0 s
      if cond ≠ 0 then
        return (⟨.jump 7 takenAdvance, false⟩, s.push (s.locals (u32 (word 8))))
      else return (⟨.fall 9, false⟩, s)
  | .opI32Load8ULocalBaseSet4LocalGet4Set4LocalGet4BrIfFallthroughLocalGet4 => do
      let (cond, s) ← load8Update word 0 s
      if cond ≠ 0 then return (⟨.jump 7 0, false⟩, s)
      else return (⟨.fall (u32 (word 9)).toNat, false⟩, s.push (s.locals (u32 (word 8))))
  | .opI32GuardedLoad8ULocalBaseSet4LocalGet4Set4LocalGet4BrIf => do
      let (cond, s) ← guardedLoad8UUpdateBranchCond word s
      return (⟨if cond ≠ 0 then .jump 14 0 else .jump 6 0, true⟩, s)
  | .opI32GuardedLoad8ULocalBaseSet4LocalGet4Set4LocalGet4BrIfTakenLocalGet4BrTable => do
      let (cond, s) ← guardedLoad8UUpdateBranchCond word s
      if cond ≠ 0 then return (⟨brTableTarget word 16 (s.locals (u32 (word 15))), true⟩, s)
      else return (⟨.jump 6 0, true⟩, s)
  | .opI32GuardedLoad8ULocalBaseSet4LocalGet4Set4LocalGet4BrIfFalseLocalGet4BrTable => do
      let (cond, s) ← guardedLoad8UUpdateBranchCond word s
      if cond ≠ 0 then return (⟨.jump 14 0, true⟩, s)
      else return (⟨brTableTarget word 16 (s.locals (u32 (word 15))), true⟩, s)
  | .opI32GuardedLoad8ULocalBaseSet4LocalGet4Set4LocalGet4BrIfTakenConstCompareBrTable => do
      let (cond, s) ← guardedLoad8UUpdateBranchCond word s
      if cond ≠ 0 then
        if i32Compare (u32 (word 16)).toNat (s.locals (u32 (word 15))) (u32 (word 17)) then
          return (⟨.jump 18 0, true⟩, s)
        else return (⟨brTableTarget word 21 (s.locals (u32 (word 20))), true⟩, s)
      else return (⟨.jump 6 0, true⟩, s)
  | .opI32LoadLocalBaseTee4 => do
      let value ← s.memory.readU32At (← loadStartLocalBase word 0 s)
      return (⟨.fall 4, false⟩, (s.push value).setLocal (u32 (word 3)) value)
  | .opI32Load8UTee4BrIf => do
      let (offset, s) ← s.pop
      let byte ← s.memory.readU8At (← computeMemoryOffset (word 0) offset)
      let value := byte.setWidth 32
      return (memoryBrIf 2 3 (value ≠ 0), s.setLocal (u32 (word 1)) value)
  | .opI32LoadLocalBaseTee4I32Load8UTee4BrIf => do
      let ptr ← s.memory.readU32At (← loadStartLocalBase word 0 s)
      let s := s.setLocal (u32 (word 3)) ptr
      let byte ← s.memory.readU8At (← computeMemoryOffset (word 4) ptr)
      let value := byte.setWidth 32
      return (⟨if value ≠ 0 then .jump 6 0 else .fall 11, false⟩, s.setLocal (u32 (word 5)) value)
  | .opI32Load8ULocalBaseTee4I32EqzBrIf => do
      let byte ← s.memory.readU8At (← loadStartLocalBase word 0 s)
      let value := byte.setWidth 32
      return (memoryBrIf 4 5 (value = 0), s.setLocal (u32 (word 3)) value)
  | .opLocalGet4I32ConstAddSet4I32Load8ULocalBaseTee4I32EqzBrIf => do
      let s := s.setLocal (u32 (word 2)) (s.locals (u32 (word 0)) + u32 (word 1))
      let byte ← s.memory.readU8At (← loadStartLocalBase word 3 s)
      let value := byte.setWidth 32
      return (⟨if value = 0 then .jump 7 0 else .fall 14, false⟩,
        s.setLocal (u32 (word 6)) value)
  | .opI32LoadLocalBaseTee4BrIf => do
      let value ← s.memory.readU32At (← loadStartLocalBase word 0 s)
      return (memoryBrIf 4 5 (value ≠ 0), s.setLocal (u32 (word 3)) value)
  | .opI32LoadLocalBaseSet4I32Load16ULocalBaseLocalEqBrIf => do
      let (cond, s) ← loadSetLoadCompare readU16Word (fun value rhs => value == rhs) word s
      return (memoryBrIf 7 8 cond, s)
  | .opI32LoadLocalBaseSet4I32Load8ULocalBaseLocalMaskedCompareBrIf => do
      let (cond, s) ← loadSetLoadCompare readU8Word
        (fun value rhs => maskedCompare (u32 (word 7)).toNat value (rhs &&& 0xff)) word s
      return (memoryBrIf 8 9 cond, s)
  | _ => .error .invalidOperand

end Telomere.Vm
