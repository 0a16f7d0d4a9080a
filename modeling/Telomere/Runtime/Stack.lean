import Telomere.Lib.Cells
import Telomere.Lib.Trace
import Telomere.Runtime.Store

/-!
# The interpreter stack

Arguments, locals, call records and operands share one array of bytes. A frame is its local area, then
the packed record of the call; its operands lie above. Sums of addresses are exact: the source checks
the ones that could leave the range of a `usize`, and they are refused here as being above the
capacity.
-/

namespace Telomere.Runtime

inductive CachedMemoryKind where
  | noMemory
  | localMemory
  | sharedMemory
deriving DecidableEq, Repr

def CachedMemoryKind.toByte : CachedMemoryKind → Nat
  | .noMemory => 0
  | .localMemory => 1
  | .sharedMemory => 2

/-- Other bytes are never stored. -/
def CachedMemoryKind.ofByte : Nat → CachedMemoryKind
  | 0 => .noMemory
  | 1 => .localMemory
  | _ => .sharedMemory

structure CallFrameCache where
  codeAddr : BitVec 32
  codeBase : BitVec 64
  instanceId : BitVec 32
  memory0Kind : CachedMemoryKind
  memory0Raw : BitVec 32
deriving DecidableEq, Repr

structure LocalReference where
  localTop : Nat
  localSize : Nat
deriving DecidableEq, Repr

def LocalReference.frameEnd (reference : LocalReference) : Nat :=
  reference.localTop + reference.localSize

structure CallStackInfo where
  returnPc : BitVec 64
  prev : LocalReference
  frame : CallFrameCache
deriving DecidableEq, Repr

/-- The packed size. -/
def callStackInfoSize : Nat := 41

def CallStackInfo.toBytes (info : CallStackInfo) : List Byte :=
  leBytes 8 info.returnPc.toNat ++ leBytes 8 info.prev.localTop ++ leBytes 4 info.prev.localSize ++
    leBytes 4 info.frame.codeAddr.toNat ++ leBytes 8 info.frame.codeBase.toNat ++
    leBytes 4 info.frame.instanceId.toNat ++ leBytes 1 info.frame.memory0Kind.toByte ++
    leBytes 4 info.frame.memory0Raw.toNat

/-- `panic` stands also for a write through a pointer that leaves the array. -/
inductive StackFailure where
  | stackOverflow
  | panic
deriving DecidableEq, Repr

structure Stack where
  capacity : Nat
  memory : Nat → Byte
  top : Nat

namespace Stack

def new (size : Nat) : Stack := ⟨size, fun _ => 0, 0⟩

def peek (s : Stack) (addr n : Nat) : List Byte := Lib.peek s.memory addr n

def write (s : Stack) (addr : Nat) (bytes : List Byte) : Except StackFailure Stack :=
  if s.capacity < addr + bytes.length then .error .panic
  else .ok { s with memory := Lib.poke s.memory addr bytes }

def pushSlice (s : Stack) (bytes : List Byte) : Except StackFailure Stack :=
  if s.capacity < s.top + bytes.length then .error .stackOverflow
  else do
    let t ← s.write s.top bytes
    return { t with top := t.top + bytes.length }

def drop (s : Stack) (n : Nat) : Except StackFailure Stack :=
  if s.top < n then .error .panic else .ok { s with top := s.top - n }

def readLe (s : Stack) (addr n : Nat) : Nat := fromLeBytes (s.peek addr n)

/-- The record in front of `frameEnd`. -/
def callStackInfo (s : Stack) (reference : LocalReference) : Except StackFailure CallStackInfo :=
  if reference.frameEnd < callStackInfoSize ∨ s.capacity < reference.frameEnd then .error .panic
  else
    let infoTop := reference.frameEnd - callStackInfoSize
    .ok {
      returnPc := BitVec.ofNat 64 (s.readLe infoTop 8)
      prev := ⟨s.readLe (infoTop + 8) 8, s.readLe (infoTop + 16) 4⟩
      frame := {
        codeAddr := BitVec.ofNat 32 (s.readLe (infoTop + 20) 4)
        codeBase := BitVec.ofNat 64 (s.readLe (infoTop + 24) 8)
        instanceId := BitVec.ofNat 32 (s.readLe (infoTop + 32) 4)
        memory0Kind := .ofByte (s.readLe (infoTop + 36) 1)
        memory0Raw := BitVec.ofNat 32 (s.readLe (infoTop + 37) 4) } }

def zeroNewLocals (s : Stack) (start size : Nat) : Except StackFailure Stack :=
  if size = 0 then .ok s
  else if s.capacity < start + size then .error .stackOverflow
  else s.write start (List.replicate size 0)

def writeCallStackInfoAt (s : Stack) (infoTop : Nat) (info : CallStackInfo) :
    Except StackFailure Stack := s.write infoTop info.toBytes

def frameEndFromLocalTop (s : Stack) (localTop paramSize localSize : Nat) :
    Except StackFailure Nat :=
  let newTop := localTop + paramSize + localSize + callStackInfoSize
  if s.capacity < newTop then .error .stackOverflow else .ok newTop

/-- Sizes 4, 8 and 16 are read and written as one number, which moves the same bytes. -/
def copyTopBytesTo (s : Stack) (dst size : Nat) : Except StackFailure Stack :=
  if s.top < size then .error .stackOverflow
  else if size = 0 ∨ s.top - size = dst then .ok s
  else if s.capacity < s.top then .error .panic
  else s.write dst (s.peek (s.top - size) size)

/-- A reference has a 32-bit size. -/
def reference (localTop newTop : Nat) : LocalReference := ⟨localTop, (newTop - localTop) % 2 ^ 32⟩

def functionCallCached (s : Stack) (paramSize localSize : Nat) (frame : CallFrameCache)
    (prevLocalReference : LocalReference) (returnPc : BitVec 64) :
    Except StackFailure (LocalReference × Stack) :=
  if s.top < paramSize then .error .stackOverflow
  else do
    let localTop := s.top - paramSize
    let newTop ← s.frameEndFromLocalTop localTop paramSize localSize
    let t ← s.zeroNewLocals (localTop + paramSize) localSize
    let t ← t.writeCallStackInfoAt (localTop + paramSize + localSize)
      ⟨returnPc, prevLocalReference, frame⟩
    return (Stack.reference localTop newTop, { t with top := newTop })

def functionReturnCallCached (s : Stack) (reference : LocalReference) (paramSize localSize : Nat)
    (frame : CallFrameCache) : Except StackFailure (LocalReference × Stack) := do
  let info ← s.callStackInfo reference
  let t ← s.copyTopBytesTo reference.localTop paramSize
  let newTop ← t.frameEndFromLocalTop reference.localTop paramSize localSize
  let t ← t.zeroNewLocals (reference.localTop + paramSize) localSize
  let t ← t.writeCallStackInfoAt (reference.localTop + paramSize + localSize)
    { info with frame := frame }
  return (Stack.reference reference.localTop newTop, { t with top := newTop })

/-- A copy that fails is unreachable in the source, which panics then. -/
def copyOrPanic (s : Stack) (dst size : Nat) : Except StackFailure Stack :=
  match s.copyTopBytesTo dst size with
  | .ok t => .ok { t with top := dst + size }
  | .error _ => .error .panic

def blockReturn (s : Stack) (reference : LocalReference) (stackTop returnSize : Nat) :
    Except StackFailure Stack :=
  s.copyOrPanic (reference.frameEnd + stackTop) returnSize

def instrSize : Nat := 8

/-- `StablePc::resolve`: a tagged pc is an index into the code of its frame. `code` tells the length
of the code of a function; there is no result where the source panics. -/
def resolve (s : Stack) (code : BitVec 32 → Option Nat) (reference : LocalReference)
    (pc : BitVec 64) : Option (BitVec 64) :=
  if pc &&& 1 = 1 then
    if reference.localSize < callStackInfoSize then none
    else
      match s.callStackInfo reference with
      | .error _ => none
      | .ok info =>
          if info.frame.codeBase = 0 then none
          else (code info.frame.codeAddr).map fun _ =>
            info.frame.codeBase + (pc >>> 1) * BitVec.ofNat 64 instrSize
  else some pc

/-- The returned pc is given as it was saved and as it resolves. -/
def functionReturn (s : Stack) (code : BitVec 32 → Option Nat) (reference : LocalReference)
    (returnSize : Nat) :
    Except StackFailure (LocalReference × BitVec 64 × Option (BitVec 64) × Stack) := do
  let info ← s.callStackInfo reference
  let t ← s.copyOrPanic reference.localTop returnSize
  return (info.prev, info.returnPc, t.resolve code info.prev info.returnPc, t)

def localSet (s : Stack) (reference : LocalReference) (localAddr size : Nat) :
    Except StackFailure Stack :=
  if s.top < size ∨ s.capacity < s.top then .error .panic
  else do
    let t ← s.write (reference.localTop + localAddr) (s.peek (s.top - size) size)
    return { t with top := s.top - size }

end Stack

/-- The stack of a task with the frame it is in, and how many calls are open. -/
structure FrameState where
  stack : Stack
  reference : LocalReference
  depth : Nat

inductive FrameOp where
  | push (bytes : List Byte)
  | pop (size : Nat)
  | localSet (localAddr size : Nat)
  | call (paramSize localSize : Nat) (frame : CallFrameCache) (returnPc : BitVec 64)
  | tailCall (paramSize localSize : Nat) (frame : CallFrameCache)
  | blockReturn (stackTop returnSize : Nat)
  | ret (code : BitVec 32 → Option Nat) (returnSize : Nat)

inductive FrameOutput where
  | done
  | returned (returnPc : BitVec 64) (continuation : Option (BitVec 64))
  | panicked
deriving DecidableEq, Repr

def FrameState.new (size : Nat) : FrameState := ⟨Stack.new size, ⟨0, 0⟩, 0⟩

/-- Operands are above the frame, locals are in front of the call record, and what returns or is
replaced was called. -/
def FrameState.Allows (s : FrameState) : FrameOp → Prop
  | .push _ => True
  | .pop size => s.reference.frameEnd + size ≤ s.stack.top
  | .localSet localAddr size =>
      s.depth ≠ 0 ∧ s.reference.frameEnd + size ≤ s.stack.top ∧
        localAddr + size + callStackInfoSize ≤ s.reference.localSize
  | .call paramSize _ _ _ => s.reference.frameEnd + paramSize ≤ s.stack.top
  | .tailCall paramSize _ _ => s.depth ≠ 0 ∧ s.reference.frameEnd + paramSize ≤ s.stack.top
  | .blockReturn stackTop returnSize =>
      s.reference.frameEnd + stackTop + returnSize ≤ s.stack.top
  | .ret _ returnSize => s.depth ≠ 0 ∧ s.reference.frameEnd + returnSize ≤ s.stack.top

instance (s : FrameState) : (op : FrameOp) → Decidable (s.Allows op)
  | .push _ => .isTrue trivial
  | .pop _ | .call _ _ _ _ | .blockReturn _ _ => inferInstanceAs (Decidable (_ ≤ _))
  | .localSet _ _ | .tailCall _ _ _ | .ret _ _ => inferInstanceAs (Decidable (_ ∧ _))

/-- The op and where it ends, with a panic as it comes. -/
def FrameState.run (s : FrameState) : FrameOp → Except StackFailure (FrameOutput × FrameState)
  | .push bytes => do
      return (.done, { s with stack := ← s.stack.pushSlice bytes })
  | .pop size => do
      return (.done, { s with stack := ← s.stack.drop size })
  | .localSet localAddr size => do
      return (.done, { s with stack := ← s.stack.localSet s.reference localAddr size })
  | .call paramSize localSize frame returnPc => do
      let (reference, stack) ←
        s.stack.functionCallCached paramSize localSize frame s.reference returnPc
      return (.done, ⟨stack, reference, s.depth + 1⟩)
  | .tailCall paramSize localSize frame => do
      let (reference, stack) ←
        s.stack.functionReturnCallCached s.reference paramSize localSize frame
      return (.done, ⟨stack, reference, s.depth⟩)
  | .blockReturn stackTop returnSize => do
      return (.done, { s with stack := ← s.stack.blockReturn s.reference stackTop returnSize })
  | .ret code returnSize => do
      let (reference, returnPc, continuation, stack) ←
        s.stack.functionReturn code s.reference returnSize
      return (.returned returnPc continuation, ⟨stack, reference, s.depth - 1⟩)

/-- An op that is allowed and does not run out of stack. -/
def frameStep (s : FrameState) (op : FrameOp) : Option (FrameOutput × FrameState) :=
  if s.Allows op then
    match s.run op with
    | .ok next => some next
    | .error .stackOverflow => none
    | .error .panic => some (.panicked, s)
  else none

abbrev FrameMoment := Lib.Moment FrameState FrameOp FrameOutput

end Telomere.Runtime
