import Telomere.Optimizer.Lowered

/-!
# Interpreter state

The part of the execution context that the modelled handlers read and write: four-byte locals by
their frame address, the default memory and the operand stack as words, top first. There is room on
the stack for every word pushed.
-/

namespace Telomere.Vm

open Optimizer

/-- Outcomes of `VMResult` other than success. -/
inductive Trap where
  | memoryIndexOutOfRange
  | invalidOperand
deriving DecidableEq, Repr

/-- A linear memory of `size` bytes. -/
structure Memory where
  size : Nat
  bytes : Nat → BitVec 8

namespace Memory

def readU8At (m : Memory) (offset : Nat) : Except Trap (BitVec 8) :=
  if m.size ≤ offset then .error .memoryIndexOutOfRange else .ok (m.bytes offset)

def readU16At (m : Memory) (offset : Nat) : Except Trap (BitVec 16) :=
  if m.size < offset + 2 then .error .memoryIndexOutOfRange
  else .ok (m.bytes (offset + 1) ++ m.bytes offset)

def readU32At (m : Memory) (offset : Nat) : Except Trap (BitVec 32) :=
  if m.size < offset + 4 then .error .memoryIndexOutOfRange
  else .ok (m.bytes (offset + 3) ++ m.bytes (offset + 2) ++ m.bytes (offset + 1) ++
    m.bytes offset)

def writeU32At (m : Memory) (offset : Nat) (value : BitVec 32) : Except Trap Memory :=
  if m.size < offset + 4 then .error .memoryIndexOutOfRange
  else .ok { m with bytes := fun i =>
    if offset ≤ i ∧ i < offset + 4 then value.extractLsb' (8 * (i - offset)) 8 else m.bytes i }

end Memory

structure VmState where
  locals : BitVec 32 → BitVec 32
  memory : Memory
  stack : List (BitVec 32)

namespace VmState

def setLocal (s : VmState) (addr value : BitVec 32) : VmState :=
  { s with locals := fun a => if a = addr then value else s.locals a }

/-- `push_u32_fast` with room for the word; without it the source ends with `StackOverflow`. -/
def push (s : VmState) (value : BitVec 32) : VmState :=
  { s with stack := value :: s.stack }

/-- Validated code never pops an empty stack. -/
def pop (s : VmState) : Except Trap (BitVec 32 × VmState) :=
  match s.stack with
  | [] => .error .invalidOperand
  | value :: stack => .ok (value, { s with stack := stack })

@[simp] theorem setLocal_memory (s : VmState) (addr value : BitVec 32) :
    (s.setLocal addr value).memory = s.memory := rfl

@[simp] theorem push_memory (s : VmState) (value : BitVec 32) :
    (s.push value).memory = s.memory := rfl

@[simp] theorem push_locals (s : VmState) (value : BitVec 32) :
    (s.push value).locals = s.locals := rfl

@[simp] theorem pop_push (s : VmState) (value : BitVec 32) :
    (s.push value).pop = .ok (value, s) := rfl

@[simp] theorem pop_setLocal_push (s : VmState) (value addr value' : BitVec 32) :
    ((s.push value).setLocal addr value').pop = .ok (value, s.setLocal addr value') := rfl

end VmState

/-- The `offset` field of the union's `memarg` arm. -/
def memargOffset (encoded : BitVec 64) : BitVec 32 :=
  (encoded >>> 32).setWidth 32

/-- The fields of the union's `loop_param` arm, in words. -/
def loopStackTop (encoded : BitVec 64) : Nat :=
  (u32 encoded).toNat / 4

def loopParamSize (encoded : BitVec 64) : Nat :=
  (u32 (encoded >>> 32)).toNat / 4

/-- `compute_memory_offset`: the sum must not leave the 32-bit address space. -/
def computeMemoryOffset (memarg : BitVec 64) (offset : BitVec 32) : Except Trap Nat :=
  let sum := (memargOffset memarg).toNat + offset.toNat
  if sum < 2 ^ 32 then .ok sum else .error .memoryIndexOutOfRange

end Telomere.Vm
