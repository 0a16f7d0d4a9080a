import Telomere.Vm.MemoryHandlers

/-!
# Atomic instructions

The handlers of one opcode differ in the memory that they are given and in the slots that they take.
Every access checks its alignment and its bounds in the memory; a notification on an unshared memory
makes no access. What a notification finds of its waiters, which timers mark as well, comes from the
environment.
-/

namespace Telomere.MemoryOps

open Linear Lib

/-- `I32` and `I64` of `ValType` -/
inductive NumType where
  | i32 | i64
deriving DecidableEq, Repr

def NumType.words : NumType → Nat
  | .i32 => 1
  | .i64 => 2

def NumType.bits (ty : NumType) : Nat := 32 * ty.words

structure AtomicAccess where
  ty : NumType
  width : AccessWidth
  width_le : width.bits ≤ ty.bits

namespace AtomicAccess

def i32 : AtomicAccess := ⟨.i32, .w32, by decide⟩
def i64 : AtomicAccess := ⟨.i64, .w64, by decide⟩
def i32As8 : AtomicAccess := ⟨.i32, .w8, by decide⟩
def i32As16 : AtomicAccess := ⟨.i32, .w16, by decide⟩
def i64As8 : AtomicAccess := ⟨.i64, .w8, by decide⟩
def i64As16 : AtomicAccess := ⟨.i64, .w16, by decide⟩
def i64As32 : AtomicAccess := ⟨.i64, .w32, by decide⟩

end AtomicAccess

inductive AtomicInstr where
  | load (access : AtomicAccess)
  | store (access : AtomicAccess)
  | rmw (op : AtomicRmwOp) (access : AtomicAccess)
  | cmpxchg (access : AtomicAccess)
  | notify
  | wait32
  | wait64

structure AtomicOp where
  instr : AtomicInstr
  kind : HandlerKind

/-- The arms behind the prefix `0xFE`, other than the fence: the alignment that is asked for and the
instruction. -/
def atomicArm : Nat → Option (Nat × AtomicInstr)
  | 0x00 => some (2, .notify)
  | 0x01 => some (2, .wait32)
  | 0x02 => some (3, .wait64)
  | 0x10 => some (2, .load .i32)
  | 0x11 => some (3, .load .i64)
  | 0x12 => some (0, .load .i32As8)
  | 0x13 => some (1, .load .i32As16)
  | 0x14 => some (0, .load .i64As8)
  | 0x15 => some (1, .load .i64As16)
  | 0x16 => some (2, .load .i64As32)
  | 0x17 => some (2, .store .i32)
  | 0x18 => some (3, .store .i64)
  | 0x19 => some (0, .store .i32As8)
  | 0x1A => some (1, .store .i32As16)
  | 0x1B => some (0, .store .i64As8)
  | 0x1C => some (1, .store .i64As16)
  | 0x1D => some (2, .store .i64As32)
  | 0x1E => some (2, .rmw .add .i32)
  | 0x1F => some (3, .rmw .add .i64)
  | 0x20 => some (0, .rmw .add .i32As8)
  | 0x21 => some (1, .rmw .add .i32As16)
  | 0x22 => some (0, .rmw .add .i64As8)
  | 0x23 => some (1, .rmw .add .i64As16)
  | 0x24 => some (2, .rmw .add .i64As32)
  | 0x25 => some (2, .rmw .sub .i32)
  | 0x26 => some (3, .rmw .sub .i64)
  | 0x27 => some (0, .rmw .sub .i32As8)
  | 0x28 => some (1, .rmw .sub .i32As16)
  | 0x29 => some (0, .rmw .sub .i64As8)
  | 0x2A => some (1, .rmw .sub .i64As16)
  | 0x2B => some (2, .rmw .sub .i64As32)
  | 0x2C => some (2, .rmw .and .i32)
  | 0x2D => some (3, .rmw .and .i64)
  | 0x2E => some (0, .rmw .and .i32As8)
  | 0x2F => some (1, .rmw .and .i32As16)
  | 0x30 => some (0, .rmw .and .i64As8)
  | 0x31 => some (1, .rmw .and .i64As16)
  | 0x32 => some (2, .rmw .and .i64As32)
  | 0x33 => some (2, .rmw .or .i32)
  | 0x34 => some (3, .rmw .or .i64)
  | 0x35 => some (0, .rmw .or .i32As8)
  | 0x36 => some (1, .rmw .or .i32As16)
  | 0x37 => some (0, .rmw .or .i64As8)
  | 0x38 => some (1, .rmw .or .i64As16)
  | 0x39 => some (2, .rmw .or .i64As32)
  | 0x3A => some (2, .rmw .xor .i32)
  | 0x3B => some (3, .rmw .xor .i64)
  | 0x3C => some (0, .rmw .xor .i32As8)
  | 0x3D => some (1, .rmw .xor .i32As16)
  | 0x3E => some (0, .rmw .xor .i64As8)
  | 0x3F => some (1, .rmw .xor .i64As16)
  | 0x40 => some (2, .rmw .xor .i64As32)
  | 0x41 => some (2, .rmw .xchg .i32)
  | 0x42 => some (3, .rmw .xchg .i64)
  | 0x43 => some (0, .rmw .xchg .i32As8)
  | 0x44 => some (1, .rmw .xchg .i32As16)
  | 0x45 => some (0, .rmw .xchg .i64As8)
  | 0x46 => some (1, .rmw .xchg .i64As16)
  | 0x47 => some (2, .rmw .xchg .i64As32)
  | 0x48 => some (2, .cmpxchg .i32)
  | 0x49 => some (3, .cmpxchg .i64)
  | 0x4A => some (0, .cmpxchg .i32As8)
  | 0x4B => some (1, .cmpxchg .i32As16)
  | 0x4C => some (0, .cmpxchg .i64As8)
  | 0x4D => some (1, .cmpxchg .i64As16)
  | 0x4E => some (2, .cmpxchg .i64As32)
  | _ => none

/-- One arm: `atomic_load`, `atomic_store`, `atomic_rmw`, `atomic_cmpxchg` and those written out. -/
def parseAtomicArm {R : Type} [BinaryReader R] (mems : List MemType) (align : Nat)
    (instr : AtomicInstr) (reader : R) : Parsed (Nat × Emitted AtomicOp × R) := do
  let (len, memidx, memarg, reader) ← parseMemargExact align reader
  let emitted ← pushMemargInstruction mems memidx memarg fun kind => ⟨instr, kind⟩
  return (len, emitted, reader)

/-- The match on the number behind the prefix; none where it has no such arm. -/
def parseAtomicInst {R : Type} [BinaryReader R] (mems : List MemType) (opcode : Nat) (reader : R) :
    Option (Parsed (Nat × Emitted AtomicOp × R)) :=
  (atomicArm opcode).map fun (align, instr) => parseAtomicArm mems align instr reader

/-- `marks` are the answers to the compare-exchange of a notification, `waiting` those to `is_waiting`
afterwards. Charging fuel succeeds or interrupts. -/
structure Environment where
  marks : Nat → Bool
  waiting : Nat → Bool
  charge : Nat → VMResult Unit
  charge_interrupts : ∀ n failure, charge n = .error failure →
    failure = .fuelExhausted ∨ failure = .cancelled

/-- The loop of `notify_waiters`: the waiters that were marked, and the rest of the queue. -/
def takeWaiters (marks : Nat → Bool) : Nat → List Nat → List Nat × List Nat
  | 0, queue => ([], queue)
  | _ + 1, [] => ([], [])
  | remaining + 1, id :: queue =>
      if marks id then
        let (wake, rest) := takeWaiters marks remaining queue
        (id :: wake, rest)
      else takeWaiters marks (remaining + 1) queue

namespace SharedMemoryState

def setQueue (object : SharedMemoryState) (offset : Nat) (queue : List Nat) : SharedMemoryState :=
  { object with waitQueues := fun other =>
      if other = offset then queue else object.waitQueues other }

def notifyWaiters (object : SharedMemoryState) (env : Environment) (offset : Nat) (count : U32) :
    VMResult U32 × SharedMemoryState :=
  match object.memory.atomicLoad .w32 offset with
  | .error e => (.error e, object)
  | .ok _ =>
      let (wake, queue) := takeWaiters env.marks count.toNat (object.waitQueues offset)
      (.ok (BitVec.ofNat 32 wake.length), object.setQueue offset (queue.filter env.waiting))

/-- `register_wait32` and `register_wait64`; the result is the new waiter, or none if the value is not
the expected one. -/
def registerWait (object : SharedMemoryState) (width : AccessWidth) (offset : Nat)
    (expected : BitVec width.bits) : VMResult (Option Nat) × SharedMemoryState :=
  let current : VMResult (BitVec width.bits) := do
    ensureAtomicAlignment offset width.bytes
    object.memory.atomicLoad width offset
  match current with
  | .error e => (.error e, object)
  | .ok current =>
      if current ≠ expected then (.ok none, object)
      else
        (.ok (some object.nextWaiterId),
          { object.setQueue offset (object.waitQueues offset ++ [object.nextWaiterId]) with
            nextWaiterId := object.nextWaiterId + 1 })

end SharedMemoryState

def onShared {α : Type} (handle : MemoryHandle)
    (f : SharedMemoryState → VMResult α × SharedMemoryState) : Run α := fun ctx =>
  let (result, object) := f (ctx.store.sharedMemories handle.id)
  (result.mapError .failed, { ctx with store := ctx.store.setShared handle.id object })

/-- `MemoryWaitPending`, as far as the instruction fills it in. -/
structure MemoryWait where
  shared : MemoryHandle
  address : Nat
  waiterId : Nat
  timeoutNs : BitVec 64
deriving DecidableEq, Repr

/-- How a handler goes on: at a slot behind its op, or there once a wait ends. -/
inductive Outcome where
  | next (slots : Nat)
  | pending (wait : MemoryWait) (resume : Nat)
deriving DecidableEq, Repr

/-- The slots that `call_next` steps over. -/
def HandlerKind.slots (kind : HandlerKind) : Nat := if kind.indexed then 2 else 1

def popNum (ty : NumType) : Run (BitVec ty.bits) := popWords ty.bits ty.words

def pushNum (ty : NumType) : BitVec ty.bits → Run Unit := pushWords ty.words

section

variable {mems : List MemType} (frame : CurrentFrame mems) (kind : HandlerKind)
  (code : List (Instr AtomicOp))

/-- `atomic_start`, and `atomic_start_indexed` without its memory index. -/
def atomicStart : Run Nat := effectiveAddress code

/-- The address is taken from the stack and the memory is accessed there. -/
def atomicAccess {α : Type} (f : Nat → Memory → VMResult α × Memory) : Run α := do
  let start ← atomicStart code
  let handle ← selectMemory frame kind code 1
  onMemory handle (f start)

def opAtomicLoad (access : AtomicAccess) : Run Outcome := do
  let value ← atomicAccess frame kind code fun start m => (m.atomicLoad access.width start, m)
  pushNum access.ty (value.setWidth access.ty.bits)
  return .next kind.slots

def opAtomicStore (access : AtomicAccess) : Run Outcome := do
  let value ← popNum access.ty
  atomicAccess frame kind code fun start m =>
    m.atomicStore access.width start (value.setWidth access.width.bits)
  return .next kind.slots

def opAtomicRmw (op : AtomicRmwOp) (access : AtomicAccess) : Run Outcome := do
  let value ← popNum access.ty
  let old ← atomicAccess frame kind code fun start m =>
    m.atomicRmw access.width start op (value.setWidth access.width.bits)
  pushNum access.ty (old.setWidth access.ty.bits)
  return .next kind.slots

def opAtomicCmpxchg (access : AtomicAccess) : Run Outcome := do
  let value ← popNum access.ty
  let expected ← popNum access.ty
  let old ← atomicAccess frame kind code fun start m =>
    m.atomicCmpxchg access.width start (expected.setWidth access.width.bits)
      (value.setWidth access.width.bits)
  pushNum access.ty (old.setWidth access.ty.bits)
  return .next kind.slots

/-- On an unshared memory the address is computed, and nothing is looked at. -/
def opMemoryAtomicNotify (env : Environment) : Run Outcome := do
  let count ← popU32
  let start ← atomicStart code
  if kind.shared then do
    let handle ← selectMemory frame kind code 1
    let woken ← onShared handle fun object => object.notifyWaiters env start count
    liftResult (env.charge (1 + woken.toNat))
    pushU32 woken
    return .next kind.slots
  else do
    pushU32 0
    return .next kind.slots

/-- `memory.atomic.wait32` and `memory.atomic.wait64`, by their width and its words. -/
def opMemoryAtomicWait (width : AccessWidth) (n : Nat) : Run Outcome := do
  let timeoutNs ← popU64
  let expected ← popWords width.bits n
  let start ← atomicStart code
  if kind.shared then do
    let handle ← selectMemory frame kind code 1
    match ← onShared handle fun object => object.registerWait width start expected with
    | none => do
        pushU32 1
        return .next kind.slots
    | some waiterId => return .pending ⟨handle, start, waiterId, timeoutNs⟩ kind.slots
  else Attempt.fail (.failed .invalidOperand)

end

def atomicHandler {mems : List MemType} (env : Environment) (frame : CurrentFrame mems)
    (op : AtomicOp) (code : List (Instr AtomicOp)) : Run Outcome :=
  match op.instr with
  | .load access => opAtomicLoad frame op.kind code access
  | .store access => opAtomicStore frame op.kind code access
  | .rmw rmwOp access => opAtomicRmw frame op.kind code rmwOp access
  | .cmpxchg access => opAtomicCmpxchg frame op.kind code access
  | .notify => opMemoryAtomicNotify frame op.kind code env
  | .wait32 => opMemoryAtomicWait frame op.kind code .w32 1
  | .wait64 => opMemoryAtomicWait frame op.kind code .w64 2

/-- Operands as numbers of 64 bits; an operand of a smaller type is their lowest bits. `value` is also
the replacement, the count and the timeout. -/
structure AtomicOperands where
  address : U32
  expected : BitVec 64
  value : BitVec 64

namespace AtomicInstr

variable (instr : AtomicInstr) (o : AtomicOperands)

def operandWords : List U32 :=
  match instr with
  | .load _ => words 1 o.address
  | .store access | .rmw _ access => words access.ty.words o.value ++ words 1 o.address
  | .cmpxchg access =>
      words access.ty.words o.value ++ (words access.ty.words o.expected ++ words 1 o.address)
  | .notify => words 1 o.value ++ words 1 o.address
  | .wait32 => words 2 o.value ++ (words 1 o.expected ++ words 1 o.address)
  | .wait64 => words 2 o.value ++ (words 2 o.expected ++ words 1 o.address)

def width : AccessWidth :=
  match instr with
  | .load access | .store access | .rmw _ access | .cmpxchg access => access.width
  | .notify | .wait32 => .w32
  | .wait64 => .w64

def isWait : Prop := instr = .wait32 ∨ instr = .wait64

/-- The address is not a multiple of the width, the access leaves the memory, or nothing could end
the wait. -/
def Refuses (shared : Bool) (m : Memory) (address : Nat) : Prop :=
  ¬m.Accessible instr.width address ∨ instr.isWait ∧ shared = false

def written (m : Memory) (address : Nat) : Memory :=
  match instr with
  | .store access => m.withBytes address access.width.bytes (o.value.setWidth access.width.bits)
  | .rmw op access =>
      m.withBytes address access.width.bytes
        (op.apply (m.valueAt access.width address) (o.value.setWidth access.width.bits))
  | .cmpxchg access =>
      if m.valueAt access.width address = o.expected.setWidth access.width.bits then
        m.withBytes address access.width.bytes (o.value.setWidth access.width.bits)
      else m
  | _ => m

/-- The waiters that a notification wakes: the first ones of the queue that it could mark. -/
def woken (env : Environment) (s : Store) (handle : MemoryHandle) (address : Nat) : List Nat :=
  if handle.shared then
    ((s.queues handle.id address).filter env.marks).take (o.value.setWidth 32).toNat
  else []

/-- What is left on the stack; none for a wait that begins. -/
def answer (env : Environment) (s : Store) (handle : MemoryHandle) (address : Nat) :
    Option (List U32) :=
  let m := s.memoryAt handle
  match instr with
  | .load access | .rmw _ access | .cmpxchg access =>
      some (words access.ty.words ((m.valueAt access.width address).setWidth access.ty.bits))
  | .store _ => some []
  | .notify => some (words 1 (BitVec.ofNat 32 (woken o env s handle address).length))
  | .wait32 =>
      if m.valueAt .w32 address = o.expected.setWidth AccessWidth.w32.bits then none
      else some (words 1 (1 : U32))
  | .wait64 =>
      if m.valueAt .w64 address = o.expected.setWidth AccessWidth.w64.bits then none
      else some (words 1 (1 : U32))

/-- The charge for a notification, which can interrupt it once the waiters are woken. -/
def charged (env : Environment) (s : Store) (handle : MemoryHandle) (address : Nat) : VMResult Unit :=
  match instr with
  | .notify =>
      if handle.shared then env.charge (1 + (woken o env s handle address).length) else .ok ()
  | _ => .ok ()

end AtomicInstr

/-- What an instruction does on a memory, in the words of its definition. -/
structure AtomicExact (env : Environment) (instr : AtomicInstr) (o : AtomicOperands)
    (handle : MemoryHandle) (address slots : Nat) (rest : List U32) (s : Store)
    (run : Except Fault Outcome × ExecuteContext) : Prop where
  traps : Traps run.1 ↔ instr.Refuses handle.shared (s.memoryAt handle) address
  trap_keeps : Traps run.1 → run.2.store = s
  changes : ¬instr.Refuses handle.shared (s.memoryAt handle) address →
    run.2.store.memoryAt handle = instr.written o (s.memoryAt handle) address
  keeps : ∀ other, other ≠ handle → run.2.store.memoryAt other = s.memoryAt other
  queues : instr ≠ .notify → ¬instr.isWait → run.2.store.queues = s.queues
  answers : ¬instr.Refuses handle.shared (s.memoryAt handle) address →
    instr.charged o env s handle address = .ok () → ∀ pushed,
    instr.answer o env s handle address = some pushed →
    run.1 = .ok (.next slots) ∧ run.2.stack = pushed ++ rest
  waits : ¬instr.Refuses handle.shared (s.memoryAt handle) address →
    instr.answer o env s handle address = none → ∃ wait,
    run.1 = .ok (.pending wait slots) ∧ wait.shared = handle ∧ wait.address = address ∧
      wait.timeoutNs = o.value ∧ run.2.stack = rest
  interrupted : ¬instr.Refuses handle.shared (s.memoryAt handle) address → ∀ failure,
    instr.charged o env s handle address = .error failure → run.1 = .error (.failed failure)

/-- A notification that finds no waiters since none can be there, at a place that it may not access. -/
def AtomicInstr.Unchecked (instr : AtomicInstr) (shared : Bool) (m : Memory) (address : Nat) : Prop :=
  instr = .notify ∧ shared = false ∧ address < 2 ^ 32 ∧ ¬m.Accessible .w32 address

theorem takeWaiters_fst (marks : Nat → Bool) (remaining : Nat) (queue : List Nat) :
    (takeWaiters marks remaining queue).1 = (queue.filter marks).take remaining := by
  induction queue generalizing remaining with
  | nil =>
      cases remaining with
      | zero => rfl
      | succ remaining => rfl
  | cons id queue ih =>
      cases remaining with
      | zero => simp [takeWaiters]
      | succ remaining =>
          by_cases hmark : marks id
          · simp [takeWaiters, hmark, ih]
          · simp [takeWaiters, hmark, ih]

section

variable {mems : List MemType} {frame : CurrentFrame mems} {handle : MemoryHandle}
  {kind : HandlerKind} {memarg : MemArg} {code : List (Instr AtomicOp)} {o : AtomicOperands}
  {rest : List U32} {s : Store} {env : Environment}

theorem atomicAccess_ok {α : Type} {f : Nat → Memory → VMResult α × Memory} {a : α} {m : Memory}
    (h : Placed frame handle kind memarg code 1) (hsum : effective memarg o.address < 2 ^ 32)
    (hf : f (effective memarg o.address) (s.memoryAt handle) = (.ok a, m)) :
    atomicAccess frame kind code f ⟨words 1 o.address ++ rest, s⟩ =
      (.ok a, ⟨rest, s.setMemory handle m⟩) := by
  rw [atomicAccess, atomicStart,
    Attempt.bind_ok (effectiveAddress_ok h.memarg_at hsum rest s),
    Attempt.bind_ok (h.selectMemory _)]
  exact onMemory_ok hf

theorem atomicAccess_refused {α : Type} {f : Nat → Memory → VMResult α × Memory}
    (h : Placed frame handle kind memarg code 1)
    (hf : ∃ e, (e = .unalignedAtomic ∨ e = .memoryIndexOutOfRange) ∧
      f (effective memarg o.address) (s.memoryAt handle) = (.error e, s.memoryAt handle)) :
    Refused (atomicAccess frame kind code f ⟨words 1 o.address ++ rest, s⟩) s := by
  obtain ⟨e, he, hf⟩ := hf
  by_cases hsum : effective memarg o.address < 2 ^ 32
  · refine ⟨e, rest, isTrap_of_access he, ?_⟩
    rw [atomicAccess, atomicStart,
      Attempt.bind_ok (effectiveAddress_ok h.memarg_at hsum rest s),
      Attempt.bind_ok (h.selectMemory _)]
    exact onMemory_error hf
  · refine ⟨.memoryIndexOutOfRange, rest, isTrap_of_access (.inr rfl), ?_⟩
    rw [atomicAccess, atomicStart]
    exact Attempt.bind_error (effectiveAddress_error h.memarg_at hsum rest s)

theorem popNum_words {w : Nat} (ty : NumType) (value : BitVec w) (stack : List U32) :
    popNum ty ⟨words ty.words value ++ stack, s⟩ = (.ok (value.setWidth ty.bits), ⟨stack, s⟩) :=
  popWords_words (Nat.le_refl _) value stack s

theorem narrow_operand (access : AtomicAccess) (value : BitVec 64) :
    (value.setWidth access.ty.bits).setWidth access.width.bits = value.setWidth access.width.bits :=
  BitVec.setWidth_setWidth_of_le value access.width_le

theorem opAtomicLoad_ok {access : AtomicAccess} (h : Placed frame handle kind memarg code 1)
    (hin : (s.memoryAt handle).Accessible access.width (effective memarg o.address)) :
    opAtomicLoad frame kind code access ⟨words 1 o.address ++ rest, s⟩ =
      (.ok (.next kind.slots), ⟨words access.ty.words
        (((s.memoryAt handle).valueAt access.width (effective memarg o.address)).setWidth access.ty.bits) ++
          rest, s⟩) := by
  have haccess := @atomicAccess_ok mems frame handle kind memarg code o rest s _
    (fun start m => (m.atomicLoad access.width start, m)) _ _ h (Memory.Accessible.lt hin)
    (Prod.ext (Memory.atomicLoad_ok hin) rfl)
  rw [opAtomicLoad, Attempt.bind_ok haccess, Store.setMemory_memoryAt]
  rfl

theorem opAtomicLoad_refused {access : AtomicAccess} (h : Placed frame handle kind memarg code 1)
    (hout : ¬(s.memoryAt handle).Accessible access.width (effective memarg o.address)) :
    Refused (opAtomicLoad frame kind code access ⟨words 1 o.address ++ rest, s⟩) s := by
  obtain ⟨e, he, hload⟩ := Memory.atomicLoad_error hout
  exact (atomicAccess_refused h ⟨e, he, Prod.ext hload rfl⟩).bind

theorem opAtomicStore_ok {access : AtomicAccess} (h : Placed frame handle kind memarg code 1)
    (hin : (s.memoryAt handle).Accessible access.width (effective memarg o.address)) :
    opAtomicStore frame kind code access
        ⟨words access.ty.words o.value ++ (words 1 o.address ++ rest), s⟩ =
      (.ok (.next kind.slots), ⟨rest, s.setMemory handle ((s.memoryAt handle).withBytes
        (effective memarg o.address) access.width.bytes (o.value.setWidth access.width.bits))⟩) := by
  rw [opAtomicStore, Attempt.bind_ok (popNum_words access.ty o.value _), narrow_operand,
    Attempt.bind_ok (atomicAccess_ok h (Memory.Accessible.lt hin) (Memory.atomicStore_ok hin _))]
  rfl

theorem opAtomicStore_refused {access : AtomicAccess} (h : Placed frame handle kind memarg code 1)
    (hout : ¬(s.memoryAt handle).Accessible access.width (effective memarg o.address)) :
    Refused (opAtomicStore frame kind code access
      ⟨words access.ty.words o.value ++ (words 1 o.address ++ rest), s⟩) s := by
  rw [opAtomicStore, Attempt.bind_ok (popNum_words access.ty o.value _)]
  exact (atomicAccess_refused h (Memory.atomicStore_error hout _)).bind

theorem opAtomicRmw_ok {op : AtomicRmwOp} {access : AtomicAccess}
    (h : Placed frame handle kind memarg code 1)
    (hin : (s.memoryAt handle).Accessible access.width (effective memarg o.address)) :
    opAtomicRmw frame kind code op access
        ⟨words access.ty.words o.value ++ (words 1 o.address ++ rest), s⟩ =
      (.ok (.next kind.slots), ⟨words access.ty.words
        (((s.memoryAt handle).valueAt access.width (effective memarg o.address)).setWidth access.ty.bits) ++
          rest, s.setMemory handle ((s.memoryAt handle).withBytes (effective memarg o.address)
            access.width.bytes (op.apply ((s.memoryAt handle).valueAt access.width
              (effective memarg o.address)) (o.value.setWidth access.width.bits)))⟩) := by
  rw [opAtomicRmw, Attempt.bind_ok (popNum_words access.ty o.value _), narrow_operand,
    Attempt.bind_ok (atomicAccess_ok h (Memory.Accessible.lt hin) (Memory.atomicRmw_ok hin op _))]
  rfl

theorem opAtomicRmw_refused {op : AtomicRmwOp} {access : AtomicAccess}
    (h : Placed frame handle kind memarg code 1)
    (hout : ¬(s.memoryAt handle).Accessible access.width (effective memarg o.address)) :
    Refused (opAtomicRmw frame kind code op access
      ⟨words access.ty.words o.value ++ (words 1 o.address ++ rest), s⟩) s := by
  rw [opAtomicRmw, Attempt.bind_ok (popNum_words access.ty o.value _)]
  exact (atomicAccess_refused h (Memory.atomicRmw_error hout op _)).bind

theorem opAtomicCmpxchg_ok {access : AtomicAccess} (h : Placed frame handle kind memarg code 1)
    (hin : (s.memoryAt handle).Accessible access.width (effective memarg o.address)) :
    opAtomicCmpxchg frame kind code access ⟨words access.ty.words o.value ++
        (words access.ty.words o.expected ++ (words 1 o.address ++ rest)), s⟩ =
      (.ok (.next kind.slots), ⟨words access.ty.words
        (((s.memoryAt handle).valueAt access.width (effective memarg o.address)).setWidth access.ty.bits) ++
          rest, s.setMemory handle
            ((AtomicInstr.cmpxchg access).written o (s.memoryAt handle) (effective memarg o.address))⟩) := by
  rw [opAtomicCmpxchg, Attempt.bind_ok (popNum_words access.ty o.value _),
    Attempt.bind_ok (popNum_words access.ty o.expected _), narrow_operand, narrow_operand,
    Attempt.bind_ok (atomicAccess_ok h (Memory.Accessible.lt hin) (Memory.atomicCmpxchg_ok hin _ _))]
  rfl

theorem opAtomicCmpxchg_refused {access : AtomicAccess}
    (h : Placed frame handle kind memarg code 1)
    (hout : ¬(s.memoryAt handle).Accessible access.width (effective memarg o.address)) :
    Refused (opAtomicCmpxchg frame kind code access ⟨words access.ty.words o.value ++
      (words access.ty.words o.expected ++ (words 1 o.address ++ rest)), s⟩) s := by
  rw [opAtomicCmpxchg, Attempt.bind_ok (popNum_words access.ty o.value _),
    Attempt.bind_ok (popNum_words access.ty o.expected _)]
  exact (atomicAccess_refused h (Memory.atomicCmpxchg_error hout _ _)).bind

theorem onShared_ok {α : Type} {f : SharedMemoryState → VMResult α × SharedMemoryState} {a : α}
    {object : SharedMemoryState} {ctx : ExecuteContext}
    (h : f (ctx.store.sharedMemories handle.id) = (.ok a, object)) :
    onShared handle f ctx =
      (.ok a, { ctx with store := ctx.store.setShared handle.id object }) := by
  simp only [onShared, h]
  rfl

theorem onShared_error {α : Type} {f : SharedMemoryState → VMResult α × SharedMemoryState}
    {failure : Failure} {ctx : ExecuteContext} (h : f (ctx.store.sharedMemories handle.id) =
      (.error failure, ctx.store.sharedMemories handle.id)) :
    onShared handle f ctx = (.error (.failed failure), ctx) := by
  simp only [onShared, h, Store.setShared_self]
  rfl

theorem notifyWaiters_ok {object : SharedMemoryState} {offset : Nat} {count : U32}
    (hin : object.memory.Accessible .w32 offset) :
    ∃ after : SharedMemoryState, after.memory = object.memory ∧
      object.notifyWaiters env offset count = (.ok (BitVec.ofNat 32
        (((object.waitQueues offset).filter env.marks).take count.toNat).length), after) := by
  refine ⟨object.setQueue offset ((takeWaiters env.marks count.toNat
    (object.waitQueues offset)).2.filter env.waiting), rfl, ?_⟩
  rw [SharedMemoryState.notifyWaiters, Memory.atomicLoad_ok hin, ← takeWaiters_fst]

theorem notifyWaiters_error {object : SharedMemoryState} {offset : Nat} {count : U32}
    (hout : ¬object.memory.Accessible .w32 offset) :
    ∃ e, (e = .unalignedAtomic ∨ e = .memoryIndexOutOfRange) ∧
      object.notifyWaiters env offset count = (.error e, object) := by
  obtain ⟨e, he, hload⟩ := Memory.atomicLoad_error hout
  exact ⟨e, he, by rw [SharedMemoryState.notifyWaiters, hload]⟩

theorem registerWait_ok {object : SharedMemoryState} {width : AccessWidth} {offset : Nat}
    {expected : BitVec width.bits} (hin : object.memory.Accessible width offset) :
    ∃ after : SharedMemoryState, after.memory = object.memory ∧
      object.registerWait width offset expected =
        (.ok (if object.memory.valueAt width offset = expected then some object.nextWaiterId
          else none), after) := by
  by_cases hvalue : object.memory.valueAt width offset = expected
  · refine ⟨{ object.setQueue offset (object.waitQueues offset ++ [object.nextWaiterId]) with
      nextWaiterId := object.nextWaiterId + 1 }, rfl, ?_⟩
    simp [SharedMemoryState.registerWait, ensureAtomicAlignment, hin.1, ok_bind,
      Memory.atomicLoad_ok hin, hvalue]
  · refine ⟨object, rfl, ?_⟩
    simp [SharedMemoryState.registerWait, ensureAtomicAlignment, hin.1, ok_bind,
      Memory.atomicLoad_ok hin, hvalue]

theorem registerWait_error {object : SharedMemoryState} {width : AccessWidth} {offset : Nat}
    {expected : BitVec width.bits} (hout : ¬object.memory.Accessible width offset) :
    ∃ e, (e = .unalignedAtomic ∨ e = .memoryIndexOutOfRange) ∧
      object.registerWait width offset expected = (.error e, object) := by
  obtain ⟨e, he, hload⟩ := Memory.atomicLoad_error hout
  by_cases halign : offset % width.bytes = 0
  · exact ⟨e, he, by simp [SharedMemoryState.registerWait, ensureAtomicAlignment, halign, ok_bind,
      hload]⟩
  · exact ⟨.unalignedAtomic, .inl rfl, by
      simp [SharedMemoryState.registerWait, ensureAtomicAlignment, halign, error_bind]⟩

theorem length_woken_lt (o : AtomicOperands) (env : Environment) (s : Store) (handle : MemoryHandle)
    (address : Nat) : (AtomicInstr.woken o env s handle address).length < 2 ^ 32 := by
  rw [AtomicInstr.woken]
  split
  · have hlt := (o.value.setWidth 32).isLt
    rw [List.length_take]
    omega
  · exact Nat.two_pow_pos 32

theorem opMemoryAtomicNotify_shared (h : Placed frame handle kind memarg code 1)
    (hshared : handle.shared = true)
    (hin : (s.memoryAt handle).Accessible .w32 (effective memarg o.address)) :
    ∃ s' : Store, (∀ other, s'.memoryAt other = s.memoryAt other) ∧
      opMemoryAtomicNotify frame kind code env
          ⟨words 1 o.value ++ (words 1 o.address ++ rest), s⟩ =
        (liftResult (env.charge
            (1 + (AtomicInstr.woken o env s handle (effective memarg o.address)).length)) >>= fun _ =>
          pushU32 (BitVec.ofNat 32 (AtomicInstr.woken o env s handle (effective memarg o.address)).length) >>=
            fun _ => (pure (.next kind.slots) : Run Outcome)) ⟨rest, s'⟩ := by
  rw [Store.memoryAt_shared hshared] at hin
  obtain ⟨after, hmemory, hnotify⟩ := @notifyWaiters_ok env (s.sharedMemories handle.id)
    (effective memarg o.address) (o.value.setWidth 32) hin
  have hwoken : AtomicInstr.woken o env s handle (effective memarg o.address) =
      (((s.sharedMemories handle.id).waitQueues (effective memarg o.address)).filter env.marks).take
        (o.value.setWidth 32).toNat := by
    rw [AtomicInstr.woken, if_pos hshared]
    rfl
  have hlt := length_woken_lt o env s handle (effective memarg o.address)
  rw [← hwoken] at hnotify
  refine ⟨s.setShared handle.id after, Store.memoryAt_setShared hmemory, ?_⟩
  rw [opMemoryAtomicNotify, Attempt.bind_ok (popU32_words o.value _ s), atomicStart,
    Attempt.bind_ok (effectiveAddress_ok h.memarg_at (Memory.Accessible.lt hin) rest s),
    h.shared_eq, if_pos hshared, Attempt.bind_ok (h.selectMemory _),
    Attempt.bind_ok (onShared_ok hnotify), BitVec.toNat_ofNat, Nat.mod_eq_of_lt hlt]

theorem opMemoryAtomicNotify_refused (h : Placed frame handle kind memarg code 1)
    (hout : ¬(s.memoryAt handle).Accessible .w32 (effective memarg o.address))
    (hchecked : handle.shared = true ∨ ¬effective memarg o.address < 2 ^ 32) :
    Refused (opMemoryAtomicNotify frame kind code env
      ⟨words 1 o.value ++ (words 1 o.address ++ rest), s⟩) s := by
  rw [opMemoryAtomicNotify, Attempt.bind_ok (popU32_words o.value _ s), atomicStart]
  by_cases hsum : effective memarg o.address < 2 ^ 32
  · have hshared : handle.shared = true := hchecked.resolve_right (not_not_intro hsum)
    rw [Store.memoryAt_shared hshared] at hout
    obtain ⟨e, he, hnotify⟩ := @notifyWaiters_error env (s.sharedMemories handle.id)
      (effective memarg o.address) (o.value.setWidth 32) hout
    rw [Attempt.bind_ok (effectiveAddress_ok h.memarg_at hsum rest s), h.shared_eq, if_pos hshared,
      Attempt.bind_ok (h.selectMemory _)]
    exact ⟨e, rest, isTrap_of_access he, Attempt.bind_error (onShared_error hnotify)⟩
  · exact ⟨.memoryIndexOutOfRange, rest, isTrap_of_access (.inr rfl),
      Attempt.bind_error (effectiveAddress_error h.memarg_at hsum rest s)⟩

theorem opMemoryAtomicNotify_unshared (h : Placed frame handle kind memarg code 1)
    (hshared : handle.shared = false) (hsum : effective memarg o.address < 2 ^ 32) :
    opMemoryAtomicNotify frame kind code env ⟨words 1 o.value ++ (words 1 o.address ++ rest), s⟩ =
      (.ok (.next kind.slots), ⟨words 1 (0 : U32) ++ rest, s⟩) := by
  have hkind : ¬kind.shared = true := by rw [h.shared_eq, hshared]; decide
  rw [opMemoryAtomicNotify, Attempt.bind_ok (popU32_words o.value _ s), atomicStart,
    Attempt.bind_ok (effectiveAddress_ok h.memarg_at hsum rest s), if_neg hkind]
  rfl

theorem opMemoryAtomicWait_ok {width : AccessWidth} {n : Nat} (hn : width.bits ≤ 32 * n)
    (h : Placed frame handle kind memarg code 1) (hshared : handle.shared = true)
    (hin : (s.memoryAt handle).Accessible width (effective memarg o.address)) :
    ∃ s' : Store, ∃ waiterId, (∀ other, s'.memoryAt other = s.memoryAt other) ∧
      opMemoryAtomicWait frame kind code width n
          ⟨words 2 o.value ++ (words n o.expected ++ (words 1 o.address ++ rest)), s⟩ =
        if (s.memoryAt handle).valueAt width (effective memarg o.address) =
            o.expected.setWidth width.bits then
          (.ok (.pending ⟨handle, effective memarg o.address, waiterId, o.value⟩ kind.slots), ⟨rest, s'⟩)
        else (.ok (.next kind.slots), ⟨words 1 (1 : U32) ++ rest, s'⟩) := by
  rw [Store.memoryAt_shared hshared] at hin ⊢
  obtain ⟨after, hmemory, hregister⟩ := @registerWait_ok (s.sharedMemories handle.id) width
    (effective memarg o.address) (o.expected.setWidth width.bits) hin
  refine ⟨s.setShared handle.id after, (s.sharedMemories handle.id).nextWaiterId,
    Store.memoryAt_setShared hmemory, ?_⟩
  rw [opMemoryAtomicWait, Attempt.bind_ok (popU64_words o.value _ s),
    Attempt.bind_ok (popWords_words hn o.expected _ s), atomicStart,
    Attempt.bind_ok (effectiveAddress_ok h.memarg_at (Memory.Accessible.lt hin) rest s),
    h.shared_eq, if_pos hshared, Attempt.bind_ok (h.selectMemory _),
    Attempt.bind_ok (onShared_ok hregister), BitVec.setWidth_eq]
  split
  · rfl
  · rfl

theorem opMemoryAtomicWait_refused {width : AccessWidth} {n : Nat} (hn : width.bits ≤ 32 * n)
    (h : Placed frame handle kind memarg code 1)
    (hout : ¬(s.memoryAt handle).Accessible width (effective memarg o.address) ∨ handle.shared = false) :
    Refused (opMemoryAtomicWait frame kind code width n
      ⟨words 2 o.value ++ (words n o.expected ++ (words 1 o.address ++ rest)), s⟩) s := by
  rw [opMemoryAtomicWait, Attempt.bind_ok (popU64_words o.value _ s),
    Attempt.bind_ok (popWords_words hn o.expected _ s), atomicStart]
  by_cases hsum : effective memarg o.address < 2 ^ 32
  · rw [Attempt.bind_ok (effectiveAddress_ok h.memarg_at hsum rest s), h.shared_eq]
    cases hshared : handle.shared with
    | false => exact ⟨.invalidOperand, rest, ⟨nofun, nofun⟩, rfl⟩
    | true =>
        rw [Store.memoryAt_shared hshared, hshared] at hout
        obtain ⟨e, he, hregister⟩ := @registerWait_error (s.sharedMemories handle.id) width
          (effective memarg o.address) (o.expected.setWidth width.bits) (hout.resolve_right (by decide))
        rw [if_pos rfl, Attempt.bind_ok (h.selectMemory _)]
        exact ⟨e, rest, isTrap_of_access he, Attempt.bind_error (onShared_error hregister)⟩
  · exact ⟨.memoryIndexOutOfRange, rest, isTrap_of_access (.inr rfl),
      Attempt.bind_error (effectiveAddress_error h.memarg_at hsum rest s)⟩

section

variable {instr : AtomicInstr} {address slots : Nat} {run : Except Fault Outcome × ExecuteContext}

theorem AtomicExact.of_refused
    (hrefuses : instr.Refuses handle.shared (s.memoryAt handle) address) (hrun : Refused run s) :
    AtomicExact env instr o handle address slots rest s run := by
  obtain ⟨failure, stack, htrap, rfl⟩ := hrun
  exact {
    traps := ⟨fun _ => hrefuses, fun _ => ⟨failure, htrap, rfl⟩⟩
    trap_keeps := fun _ => rfl
    changes := fun h => absurd hrefuses h
    keeps := fun _ _ => rfl
    queues := fun _ _ => rfl
    answers := fun h => absurd hrefuses h
    waits := fun h => absurd hrefuses h
    interrupted := fun h => absurd hrefuses h }

theorem AtomicExact.of_answer {pushed : List U32} {s' : Store}
    (hgrants : ¬instr.Refuses handle.shared (s.memoryAt handle) address)
    (hanswer : instr.answer o env s handle address = some pushed)
    (hcharge : instr.charged o env s handle address = .ok ())
    (hwritten : s'.memoryAt handle = instr.written o (s.memoryAt handle) address)
    (hkeeps : ∀ other, other ≠ handle → s'.memoryAt other = s.memoryAt other)
    (hqueues : instr ≠ .notify → ¬instr.isWait → s'.queues = s.queues)
    (hrun : run = (.ok (.next slots), ⟨pushed ++ rest, s'⟩)) :
    AtomicExact env instr o handle address slots rest s run := by
  subst hrun
  have hnotrap : ¬Traps (.ok (.next slots) : Except Fault Outcome) := fun ⟨_, _, h⟩ => nomatch h
  exact {
    traps := ⟨fun h => absurd h hnotrap, fun h => absurd h hgrants⟩
    trap_keeps := fun h => absurd h hnotrap
    changes := fun _ => hwritten
    keeps := hkeeps
    queues := hqueues
    answers := fun _ _ pushed' h => by
      rw [hanswer, Option.some.injEq] at h
      exact ⟨rfl, by rw [h]⟩
    waits := fun _ h => by
      rw [hanswer] at h
      cases h
    interrupted := fun _ failure h => by
      rw [hcharge] at h
      cases h }

theorem AtomicExact.of_access {pushed : List U32}
    (hgrants : ¬instr.Refuses handle.shared (s.memoryAt handle) address)
    (hanswer : instr.answer o env s handle address = some pushed)
    (hcharge : instr.charged o env s handle address = .ok ())
    (hrun : run = (.ok (.next slots), ⟨pushed ++ rest,
      s.setMemory handle (instr.written o (s.memoryAt handle) address)⟩)) :
    AtomicExact env instr o handle address slots rest s run :=
  .of_answer hgrants hanswer hcharge (Store.memoryAt_setMemory ..)
    (fun _ hne => Store.memoryAt_setMemory_of_ne s _ hne)
    (fun _ _ => Store.setMemory_queues ..) hrun

theorem AtomicInstr.accessible_of_grants
    (hgrants : ¬instr.Refuses handle.shared (s.memoryAt handle) address) :
    (s.memoryAt handle).Accessible instr.width address :=
  Decidable.not_not.mp fun h => hgrants (.inl h)

theorem AtomicInstr.not_accessible_of_refuses (hwait : ¬instr.isWait)
    (hrefuses : instr.Refuses handle.shared (s.memoryAt handle) address) :
    ¬(s.memoryAt handle).Accessible instr.width address :=
  hrefuses.resolve_right fun h => hwait h.1

end

theorem notify_exact (h : Placed frame handle kind memarg code 1)
    (hchecked : ¬AtomicInstr.notify.Unchecked handle.shared (s.memoryAt handle)
      (effective memarg o.address)) :
    AtomicExact env .notify o handle (effective memarg o.address) kind.slots rest s
      (opMemoryAtomicNotify frame kind code env
        ⟨words 1 o.value ++ (words 1 o.address ++ rest), s⟩) := by
  have hwait : ¬AtomicInstr.notify.isWait := by simp [AtomicInstr.isWait]
  by_cases hrefuses : AtomicInstr.notify.Refuses handle.shared (s.memoryAt handle)
      (effective memarg o.address)
  · have hout := AtomicInstr.not_accessible_of_refuses hwait hrefuses
    refine .of_refused hrefuses (opMemoryAtomicNotify_refused h hout ?_)
    by_cases hshared : handle.shared = true
    · exact .inl hshared
    · exact .inr fun hsum => hchecked ⟨rfl, Bool.eq_false_iff.mpr hshared, hsum, hout⟩
  · have hin := AtomicInstr.accessible_of_grants hrefuses
    cases hshared : handle.shared with
    | false =>
        have hnone : AtomicInstr.woken o env s handle (effective memarg o.address) = [] := by
          rw [AtomicInstr.woken, hshared]
          rfl
        have hrun := @opMemoryAtomicNotify_unshared mems frame handle kind memarg code o rest s env
          h hshared (Memory.Accessible.lt hin)
        refine .of_answer hrefuses ?_ ?_ rfl (fun _ _ => rfl) (fun h => absurd rfl h) hrun
        · simp only [AtomicInstr.answer, hnone, List.length_nil]
          rfl
        · simp [AtomicInstr.charged, hshared]
    | true =>
        obtain ⟨s', hmemory, hrun⟩ := @opMemoryAtomicNotify_shared mems frame handle kind memarg
          code o rest s env h hshared hin
        have hcharged : AtomicInstr.notify.charged o env s handle (effective memarg o.address) = env.charge
            (1 + (AtomicInstr.woken o env s handle (effective memarg o.address)).length) := by
          simp [AtomicInstr.charged, hshared]
        cases hcharge : env.charge
            (1 + (AtomicInstr.woken o env s handle (effective memarg o.address)).length) with
        | ok =>
            rw [hcharge, Attempt.bind_ok (liftResult_ok _)] at hrun
            exact .of_answer hrefuses rfl (hcharged.trans hcharge) (hmemory handle)
              (fun other _ => hmemory other) (fun h => absurd rfl h) hrun
        | error failure =>
            rw [hcharge, Attempt.bind_error (liftResult_error failure)] at hrun
            have hinterrupt := env.charge_interrupts _ _ hcharge
            have hnotrap : ¬Traps (.error (.failed failure) : Except Fault Outcome) := by
              rintro ⟨other, htrap, heq⟩
              obtain rfl : failure = other := by injection heq with heq; injection heq
              exact hinterrupt.elim htrap.1 htrap.2
            rw [hrun]
            exact {
              traps := ⟨fun h => absurd h hnotrap, fun h => absurd h hrefuses⟩
              trap_keeps := fun h => absurd h hnotrap
              changes := fun _ => hmemory handle
              keeps := fun other _ => hmemory other
              queues := fun h => absurd rfl h
              answers := fun _ h => by
                rw [hcharged, hcharge] at h
                cases h
              waits := fun _ h => nomatch h
              interrupted := fun _ failure' h => by
                rw [hcharged, hcharge] at h
                injection h with h
                rw [h] }

/-- `memory.atomic.wait32` and `memory.atomic.wait64`. -/
theorem wait_exact {instr : AtomicInstr} (hwait : instr.isWait)
    (h : Placed frame handle kind memarg code 1) :
    AtomicExact env instr o handle (effective memarg o.address) kind.slots rest s
      (atomicHandler env frame ⟨instr, kind⟩ code ⟨instr.operandWords o ++ rest, s⟩) := by
  obtain ⟨n, hn, hwords, hhandler, hanswer, hcharged, hwritten⟩ : ∃ n,
      instr.width.bits ≤ 32 * n ∧
      instr.operandWords o ++ rest =
        words 2 o.value ++ (words n o.expected ++ (words 1 o.address ++ rest)) ∧
      atomicHandler env frame ⟨instr, kind⟩ code =
        opMemoryAtomicWait frame kind code instr.width n ∧
      instr.answer o env s handle (effective memarg o.address) =
        (if (s.memoryAt handle).valueAt instr.width (effective memarg o.address) =
          o.expected.setWidth instr.width.bits then none else some (words 1 (1 : U32))) ∧
      instr.charged o env s handle (effective memarg o.address) = .ok () ∧
      instr.written o (s.memoryAt handle) (effective memarg o.address) = s.memoryAt handle := by
    rcases hwait with rfl | rfl
    · exact ⟨1, by decide, by simp [AtomicInstr.operandWords], rfl, rfl, rfl, rfl⟩
    · exact ⟨2, by decide, by simp [AtomicInstr.operandWords], rfl, rfl, rfl, rfl⟩
  rw [hwords, hhandler]
  by_cases hrefuses : instr.Refuses handle.shared (s.memoryAt handle) (effective memarg o.address)
  · exact .of_refused hrefuses (opMemoryAtomicWait_refused hn h (hrefuses.imp_right And.right))
  · have hin := AtomicInstr.accessible_of_grants hrefuses
    have hshared : handle.shared = true :=
      Bool.not_eq_false _ ▸ fun hfalse => hrefuses (.inr ⟨hwait, hfalse⟩)
    obtain ⟨s', waiterId, hmemory, hrun⟩ := @opMemoryAtomicWait_ok mems frame handle kind memarg
      code o rest s instr.width n hn h hshared hin
    by_cases hvalue : (s.memoryAt handle).valueAt instr.width (effective memarg o.address) =
        o.expected.setWidth instr.width.bits
    · rw [if_pos hvalue] at hrun hanswer
      have hnotrap : ¬Traps (.ok (.pending ⟨handle, effective memarg o.address, waiterId, o.value⟩
          kind.slots) : Except Fault Outcome) := fun ⟨_, _, h⟩ => nomatch h
      rw [hrun]
      exact {
        traps := ⟨fun h => absurd h hnotrap, fun h => absurd h hrefuses⟩
        trap_keeps := fun h => absurd h hnotrap
        changes := fun _ => by rw [hwritten]; exact hmemory handle
        keeps := fun other _ => hmemory other
        queues := fun _ h => absurd hwait h
        answers := fun _ _ pushed h => by
          rw [hanswer] at h
          cases h
        waits := fun _ _ => ⟨_, rfl, rfl, rfl, rfl, rfl⟩
        interrupted := fun _ failure h => by
          rw [hcharged] at h
          cases h }
    · rw [if_neg hvalue] at hrun hanswer
      exact .of_answer hrefuses hanswer hcharged (by rw [hwritten]; exact hmemory handle)
        (fun other _ => hmemory other) (fun _ h => absurd hwait h) hrun

theorem atomicHandler_exact {instr : AtomicInstr} (h : Placed frame handle kind memarg code 1)
    (hchecked : ¬instr.Unchecked handle.shared (s.memoryAt handle) (effective memarg o.address)) :
    AtomicExact env instr o handle (effective memarg o.address) kind.slots rest s
      (atomicHandler env frame ⟨instr, kind⟩ code ⟨instr.operandWords o ++ rest, s⟩) := by
  have hgrants {instr : AtomicInstr} := @AtomicInstr.accessible_of_grants handle s instr
    (effective memarg o.address)
  have hrefuse {instr : AtomicInstr} := @AtomicInstr.not_accessible_of_refuses handle s instr
    (effective memarg o.address)
  simp only [atomicHandler]
  by_cases hrefuses : instr.Refuses handle.shared (s.memoryAt handle) (effective memarg o.address)
  · cases instr with
    | load access =>
        have hout := hrefuse (by simp [AtomicInstr.isWait]) hrefuses
        exact .of_refused hrefuses (opAtomicLoad_refused h hout)
    | store access =>
        have hout := hrefuse (by simp [AtomicInstr.isWait]) hrefuses
        rw [AtomicInstr.operandWords, List.append_assoc]
        exact .of_refused hrefuses (opAtomicStore_refused h hout)
    | rmw op access =>
        have hout := hrefuse (by simp [AtomicInstr.isWait]) hrefuses
        rw [AtomicInstr.operandWords, List.append_assoc]
        exact .of_refused hrefuses (opAtomicRmw_refused h hout)
    | cmpxchg access =>
        have hout := hrefuse (by simp [AtomicInstr.isWait]) hrefuses
        rw [AtomicInstr.operandWords, List.append_assoc, List.append_assoc]
        exact .of_refused hrefuses (opAtomicCmpxchg_refused h hout)
    | notify =>
        rw [AtomicInstr.operandWords, List.append_assoc]
        exact notify_exact h hchecked
    | wait32 => exact wait_exact (.inl rfl) h
    | wait64 => exact wait_exact (.inr rfl) h
  · have hin := hgrants hrefuses
    cases instr with
    | load access =>
        have hsame : s.setMemory handle ((AtomicInstr.load access).written o (s.memoryAt handle)
            (effective memarg o.address)) = s := Store.setMemory_memoryAt s handle
        refine .of_access hrefuses rfl rfl ?_
        rw [hsame]
        exact opAtomicLoad_ok h hin
    | store access =>
        rw [AtomicInstr.operandWords, List.append_assoc]
        exact .of_access hrefuses rfl rfl (opAtomicStore_ok h hin)
    | rmw op access =>
        rw [AtomicInstr.operandWords, List.append_assoc]
        exact .of_access hrefuses rfl rfl (opAtomicRmw_ok h hin)
    | cmpxchg access =>
        rw [AtomicInstr.operandWords, List.append_assoc, List.append_assoc]
        exact .of_access hrefuses rfl rfl (opAtomicCmpxchg_ok h hin)
    | notify =>
        rw [AtomicInstr.operandWords, List.append_assoc]
        exact notify_exact h hchecked
    | wait32 => exact wait_exact (.inl rfl) h
    | wait64 => exact wait_exact (.inr rfl) h

theorem not_atomicExact_of_unchecked {instr : AtomicInstr}
    (h : Placed frame handle kind memarg code 1)
    (hunchecked : instr.Unchecked handle.shared (s.memoryAt handle) (effective memarg o.address)) :
    ¬AtomicExact env instr o handle (effective memarg o.address) kind.slots rest s
      (atomicHandler env frame ⟨instr, kind⟩ code ⟨instr.operandWords o ++ rest, s⟩) := by
  obtain ⟨rfl, hshared, hsum, hout⟩ := hunchecked
  intro hexact
  have hrun := @opMemoryAtomicNotify_unshared mems frame handle kind memarg code o rest s env h
    hshared hsum
  have htraps := hexact.traps.mpr (.inl hout)
  rw [AtomicInstr.operandWords, List.append_assoc] at htraps
  simp only [atomicHandler, hrun] at htraps
  obtain ⟨_, _, hfail⟩ := htraps
  cases hfail

end

/-! ## Accepted instructions -/

def AtomicInstr.operandCount : AtomicInstr → Nat
  | .load _ => 1
  | .store access | .rmw _ access => access.ty.words + 1
  | .cmpxchg access => access.ty.words + (access.ty.words + 1)
  | .notify => 2
  | .wait32 => 4
  | .wait64 => 5

theorem exists_operandWords (instr : AtomicInstr) {stack : List U32}
    (hlen : instr.operandCount ≤ stack.length) :
    ∃ o rest, stack = instr.operandWords o ++ rest := by
  have hwords (ty : NumType) : 32 * ty.words ≤ 64 := by cases ty <;> decide
  have haddress {n : Nat} {stack : List U32} (hle : n + 1 ≤ stack.length) (hn : 32 * n ≤ 64) :
      ∃ (value : BitVec 64) (address : U32) (rest : List U32),
        stack = words n value ++ (words 1 address ++ rest) := by
    obtain ⟨value, rest, rfl⟩ := exists_words hn (Nat.le_of_succ_le hle)
    rw [List.length_append, length_words] at hle
    obtain ⟨address, rest, rfl⟩ := @exists_words 1 32 (by decide) rest (by omega)
    exact ⟨value, address, rest, rfl⟩
  have hboth {n k : Nat} {stack : List U32} (hle : n + (k + 1) ≤ stack.length) (hn : 32 * n ≤ 64)
      (hk : 32 * k ≤ 64) : ∃ (value expected : BitVec 64) (address : U32) (rest : List U32),
        stack = words n value ++ (words k expected ++ (words 1 address ++ rest)) := by
    obtain ⟨value, rest, rfl⟩ := exists_words hn (Nat.le_of_add_right_le hle)
    rw [List.length_append, length_words] at hle
    obtain ⟨expected, address, rest, rfl⟩ := haddress (Nat.le_of_add_le_add_left hle) hk
    exact ⟨value, expected, address, rest, rfl⟩
  cases instr with
  | load access =>
      obtain ⟨address, rest, rfl⟩ := @exists_words 1 32 (by decide) stack hlen
      exact ⟨⟨address, 0, 0⟩, rest, rfl⟩
  | store access | rmw op access =>
      obtain ⟨value, address, rest, rfl⟩ := haddress hlen (hwords access.ty)
      exact ⟨⟨address, 0, value⟩, rest, (List.append_assoc ..).symm⟩
  | cmpxchg access =>
      obtain ⟨value, expected, address, rest, rfl⟩ := hboth hlen (hwords _) (hwords _)
      exact ⟨⟨address, expected, value⟩, rest, by simp [AtomicInstr.operandWords]⟩
  | notify =>
      obtain ⟨value, address, rest, rfl⟩ := @haddress 1 stack hlen (by decide)
      exact ⟨⟨address, 0, value⟩, rest, (List.append_assoc ..).symm⟩
  | wait32 =>
      obtain ⟨value, expected, address, rest, rfl⟩ := @hboth 2 1 stack hlen (by decide) (by decide)
      exact ⟨⟨address, expected, value⟩, rest, by simp [AtomicInstr.operandWords]⟩
  | wait64 =>
      obtain ⟨value, expected, address, rest, rfl⟩ := @hboth 2 2 stack hlen (by decide) (by decide)
      exact ⟨⟨address, expected, value⟩, rest, by simp [AtomicInstr.operandWords]⟩

/-- The parser puts the operands where the handler that it chose reads them. -/
theorem parseAtomicInst_placed {R : Type} [BinaryReader R] {mems : List MemType} {opcode len : Nat}
    {reader reader' : R} {e : Emitted AtomicOp}
    (hparse : parseAtomicInst mems opcode reader = some (.ok (len, e, reader')))
    (frame : CurrentFrame mems) :
    ∃ handle, frame.memorySlotAt e.memidx = some handle ∧ e.op.kind.slots = e.operands.length ∧
      ∀ following, Placed frame handle e.op.kind e.memarg (e.slots ++ following) 1 := by
  obtain ⟨⟨align, instr⟩, -, harm⟩ := Option.map_eq_some_iff.mp hparse
  obtain ⟨⟨len, memidx, memarg, reader⟩, -, hparse⟩ := bind_eq_ok.mp harm
  obtain ⟨emitted, hpush, hparse⟩ := bind_eq_ok.mp hparse
  obtain ⟨handle, kind, hop, hmemidx, hmemarg, hhandle, hlen, hplaced⟩ :=
    pushMemargInstruction_placed frame hpush
  obtain ⟨-, rfl, -⟩ := Prod.mk.inj (pure_eq_ok.mp hparse) |>.imp_right Prod.mk.inj
  rw [hmemidx, hmemarg, hop]
  exact ⟨handle, hhandle, hlen.symm, hplaced⟩

/-- Every accepted instruction does what it should, on any memory that it was given, unless it is a
notification that is not checked. -/
theorem atomic_exact_iff {R : Type} [BinaryReader R] {mems : List MemType} {opcode len : Nat}
    {reader reader' : R} {e : Emitted AtomicOp}
    (hparse : parseAtomicInst mems opcode reader = some (.ok (len, e, reader')))
    (frame : CurrentFrame mems) :
    ∃ handle, frame.memorySlotAt e.memidx = some handle ∧
      ∀ (env : Environment) (o : AtomicOperands) (following : List (Instr AtomicOp))
        (rest : List U32) (s : Store),
        AtomicExact env e.op.instr o handle (effective e.memarg o.address) e.operands.length rest s
            (atomicHandler env frame e.op (e.slots ++ following)
              ⟨e.op.instr.operandWords o ++ rest, s⟩) ↔
          ¬e.op.instr.Unchecked handle.shared (s.memoryAt handle) (effective e.memarg o.address) := by
  obtain ⟨handle, hhandle, hslots, hplaced⟩ := parseAtomicInst_placed hparse frame
  refine ⟨handle, hhandle, fun env o following rest s => ?_⟩
  rw [← hslots]
  constructor
  · intro hexact hunchecked
    exact not_atomicExact_of_unchecked (hplaced following) hunchecked hexact
  · exact atomicHandler_exact (hplaced following)

def zeroPage : Memory := ⟨1, fun _ => 0, one_le_pageSizeMax⟩

def zeroStore : Store := ⟨fun _ => zeroPage, fun _ => ⟨zeroPage, fun _ => [], 0⟩⟩

def mixedFrame : CurrentFrame [⟨false⟩, ⟨true⟩] :=
  ⟨[some ⟨false, 0⟩, some ⟨true, 0⟩], some ⟨false, 0⟩, rfl, by simp⟩

def unmetered : Environment :=
  ⟨fun _ => true, fun _ => true, fun _ => .ok (), fun _ _ h => nomatch h⟩

/-- `i32.atomic.rmw.add` on the shared memory. -/
theorem atomic_exact_iff_add :
    ∃ handle, mixedFrame.memorySlotAt 1 = some handle ∧
      ∀ (env : Environment) (o : AtomicOperands) (following : List (Instr AtomicOp))
        (rest : List U32) (s : Store),
        AtomicExact env (.rmw .add .i32) o handle (effective ⟨2, 0⟩ o.address) 2 rest s
            (atomicHandler env mixedFrame ⟨.rmw .add .i32, ⟨true, true⟩⟩
              ([Instr.operand (.memarg ⟨2, 0⟩), .operand (.u32 1)] ++ following)
              ⟨(AtomicInstr.rmw .add .i32).operandWords o ++ rest, s⟩) ↔
          ¬(AtomicInstr.rmw .add .i32).Unchecked handle.shared (s.memoryAt handle)
            (effective ⟨2, 0⟩ o.address) :=
  @atomic_exact_iff (List U32) _ [⟨false⟩, ⟨true⟩] 0x1E 3 [0x42, 1, 0] []
    ⟨1, ⟨2, 0⟩, ⟨.rmw .add .i32, ⟨true, true⟩⟩, [.memarg ⟨2, 0⟩, .u32 1]⟩ rfl mixedFrame

/-- `memory.atomic.notify` at address one of the local memory goes on with no waiters woken. -/
theorem notify_misaligned_goes_on :
    parseAtomicInst [⟨false⟩, ⟨true⟩] 0x00 [(2 : U32), 0] =
        some (.ok (2, ⟨0, ⟨2, 0⟩, ⟨.notify, ⟨false, false⟩⟩, [.memarg ⟨2, 0⟩]⟩, [])) ∧
      ¬AtomicExact unmetered .notify ⟨1, 0, 1⟩ ⟨false, 0⟩ 1 1 [] zeroStore
        (atomicHandler unmetered mixedFrame ⟨.notify, ⟨false, false⟩⟩ [.operand (.memarg ⟨2, 0⟩)]
          ⟨[1, 1], zeroStore⟩) := by
  refine ⟨rfl, fun hexact => ?_⟩
  have htraps := hexact.traps.mpr (.inl (by decide))
  obtain ⟨failure, -, hfail⟩ := htraps
  have hrun : (atomicHandler unmetered mixedFrame ⟨.notify, ⟨false, false⟩⟩
      [.operand (.memarg ⟨2, 0⟩)] ⟨[1, 1], zeroStore⟩).1 = .ok (.next 1) := rfl
  rw [hrun] at hfail
  cases hfail

end Telomere.MemoryOps
