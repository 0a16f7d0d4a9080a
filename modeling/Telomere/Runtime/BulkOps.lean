import Telomere.Common.BulkMemory
import Telomere.Lib.Gate
import Telomere.Lib.Slices
import Telomere.Runtime.Metering
import Telomere.Runtime.Store

/-!
# Bulk instructions

A bulk instruction on one memory or on tables is charged for as a whole before it touches anything. A
copy between two memories comes to a checkpoint before each chunk, and `table.init` before each entry.
The operands are those the handlers pop.
-/

namespace Telomere.Runtime

abbrev U32 := BitVec 32

/-- The results of `VMResult` other than success. -/
inductive Stop where
  | interrupted (reason : InterruptReason)
  | trap (failure : Failure)
  | unalignedAtomic
deriving DecidableEq, Repr

def Stop.ofMemory : Linear.Failure → Stop
  | .memoryIndexOutOfRange => .trap .memoryIndexOutOfRange
  | .unalignedAtomic => .unalignedAtomic
  | .invalidOperand => .trap .invalidOperand
  | .fuelExhausted => .interrupted .fuelExhausted
  | .cancelled => .interrupted .cancelled

def Stop.OutOfBounds (stop : Stop) : Prop :=
  stop = .trap .memoryIndexOutOfRange ∨ stop = .trap .tableIndexOutOfRange

/-- A handler goes on behind its operands, or it returns to the scheduler. -/
inductive Dispatch where
  | callNext (operands : Nat)
  | returned
deriving DecidableEq, Repr

/-- The ledger, unless the store has no metering: then the budget is that of no ledger and lasts.
Before each call of the meter, other threads may interrupt the store or set its fuel. -/
structure Meter where
  ledger : Option Metered
  outside : Nat → Metered → Metered
  calls : Nat

def Meter.off : Meter := ⟨none, fun _ s => s, 0⟩

abbrev Machine := Meter × Store

/-- A call of the meter; a subtraction below zero panics. -/
def meterCall (call : Metered → Option (Except InterruptReason Unit × Metered)) :
    Lib.Attempt Meter Stop Unit := fun g =>
  match g.ledger with
  | none => (.ok (), g)
  | some s =>
      match call (g.outside g.calls s) with
      | none => (.error (.trap .panic), g)
      | some (outcome, t) =>
          (outcome.mapError .interrupted, { g with ledger := some t, calls := g.calls + 1 })

def vmCheckpoint : Lib.Attempt Meter Stop Unit := meterCall Metered.checkpoint

def vmCheckpointN (amount : Nat) : Lib.Attempt Meter Stop Unit := meterCall (·.chargeN amount)

def onMeter {α : Type} (x : Lib.Attempt Meter Stop α) : Lib.Attempt Machine Stop α :=
  fun s => ((x s.1).1, ((x s.1).2, s.2))

def onStore {α : Type} (x : Lib.Attempt Store Stop α) : Lib.Attempt Machine Stop α :=
  fun s => ((x s.2).1, (s.1, (x s.2).2))

def reading {α : Type} (f : Store → Except Stop α) : Lib.Attempt Store Stop α := fun s => (f s, s)

/-- No memory of a store has more pages than 32-bit addresses reach. -/
def MemoryObject.linear (m : MemoryObject) : Option Linear.Memory :=
  if h : m.pages ≤ Linear.pageSizeMax then some ⟨m.pages, m.bytes, h⟩ else none

/-- The memory at an address, if it is one of the kind; every memory has an address of its own. -/
def Store.memoryAt (s : Store) (shared : Bool) (addr : Nat) : Option Linear.Memory :=
  (s.memories[addr]?).bind fun m => if m.shared = shared then m.linear else none

def Store.setMemory (s : Store) (addr : Nat) (m : Linear.Memory) : Store :=
  { s with memories := s.memories.modify addr fun object =>
      { object with pages := m.currentPages, bytes := m.bytes } }

def withMemory {α : Type} (shared : Bool) (addr : Nat)
    (f : Linear.Memory → Linear.VMResult α × Linear.Memory) : Lib.Attempt Store Stop α := fun s =>
  match s.memoryAt shared addr with
  | none => (.error (.trap .panic), s)
  | some m => ((f m).1.mapError Stop.ofMemory, s.setMemory addr (f m).2)

def askMemory {α : Type} (shared : Bool) (addr : Nat) (f : Linear.Memory → Linear.VMResult α) :
    Lib.Attempt Store Stop α :=
  withMemory shared addr fun m => (f m, m)

/-- `check_local_memory_range` and `check_shared_memory_range` -/
def checkMemoryRange (m : Linear.Memory) (offset len : U32) : Linear.VMResult Unit := do
  let (start, stop) ← Linear.checkedMemoryRange offset len.toNat
  if m.InSlice start stop then .ok () else .error .memoryIndexOutOfRange

/-- `local_read_bytes_into` and `shared_read_bytes_into` for a slice of `len` bytes -/
def readBytesInto (m : Linear.Memory) (offset : U32) (len : Nat) :
    Linear.VMResult (List Linear.Byte) := do
  let (start, stop) ← Linear.checkedMemoryRange offset len
  if m.InSlice start stop then .ok (m.slice start len) else .error .memoryIndexOutOfRange

/-- One round of the loop that copies between two memories. -/
def copyChunk (dstShared srcShared : Bool) (dst src srcCursor dstCursor size : Nat) :
    Lib.Attempt Store Stop Unit := do
  let chunk ← askMemory srcShared src fun m => do
    readBytesInto m (← Linear.copyCursorU32 srcCursor) size
  withMemory dstShared dst (·.writeBytes dstCursor chunk)

def copyChunks (dstShared srcShared : Bool) (dst src srcCursor dstCursor remaining : Nat) :
    Lib.Attempt Machine Stop Unit :=
  if _h : remaining = 0 then pure ()
  else do
    onMeter vmCheckpoint
    let size := Linear.copyChunkSize remaining
    onStore (copyChunk dstShared srcShared dst src srcCursor dstCursor size)
    copyChunks dstShared srcShared dst src (srcCursor + size) (dstCursor + size) (remaining - size)
termination_by remaining
decreasing_by simp only [Linear.copyChunkSize]; omega

/-- The copy functions of the store; the two for memories of one kind compare them first. -/
def copyMemoryWith (dstShared srcShared : Bool) (dst src : Nat) (dstOffset srcOffset len : U32) :
    Lib.Attempt Machine Stop Unit :=
  if dstShared = srcShared ∧ dst = src then
    onStore (withMemory dstShared dst (·.copy dstOffset srcOffset len))
  else do
    onStore (askMemory srcShared src (checkMemoryRange · srcOffset len))
    onStore (askMemory dstShared dst (checkMemoryRange · dstOffset len))
    copyChunks dstShared srcShared dst src srcOffset.toNat dstOffset.toNat len.toNat

def copyMemoryLocalToLocal := copyMemoryWith false false

def copyMemoryLocalToShared := copyMemoryWith true false

def copyMemorySharedToLocal := copyMemoryWith false true

def copyMemorySharedToShared := copyMemoryWith true true

def memoryBulkCharge (len : U32) : Nat := 1 + len.toNat >>> 12

/-- Which memory a handler works on: the default one, or the one of an operand. -/
structure MemoryForm where
  shared : Bool
  memidx : Option Nat
deriving DecidableEq, Repr

namespace MemoryForm

def operands (form : MemoryForm) : Nat := if form.memidx.isSome then 1 else 0

def address (inst : InstanceData) (form : MemoryForm) : Option Nat :=
  inst.mems[form.memidx.getD 0]?

def memory (inst : InstanceData) (s : Store) (form : MemoryForm) : Option Linear.Memory :=
  (form.address inst).bind (s.memoryAt form.shared)

end MemoryForm

def onForm (inst : InstanceData) (form : MemoryForm)
    (f : Linear.Memory → Linear.VMResult Unit × Linear.Memory) : Lib.Attempt Store Stop Unit :=
  match form.address inst with
  | none => Lib.Attempt.fail (.trap .panic)
  | some addr => withMemory form.shared addr f

abbrev Handler := Lib.Attempt Machine Stop Dispatch

def charged (amount : Nat) (body : Lib.Attempt Store Stop Unit) (operands : Nat) : Handler := do
  onMeter (vmCheckpointN amount)
  onStore body
  return .callNext operands

/-- A handler that returns while effects of its task are pending. -/
def unlessPending (pending : Nat) (handler : Handler) : Handler :=
  if pending ≠ 0 then return .returned else handler

def memInitImpl (inst : InstanceData) (form : MemoryForm) (idx : Nat) (dst src len : U32) :
    Lib.Attempt Store Stop Unit := do
  let copied ← reading fun s =>
    (s.memInitBytes inst.instanceId idx src.toNat len.toNat).mapError .trap
  onForm inst form (·.writeBytes dst.toNat copied)

def memInitWith (inst : InstanceData) (form : MemoryForm) (idx : Nat) (dst src len : U32) : Handler :=
  charged (memoryBulkCharge len) (memInitImpl inst form idx dst src len) (1 + form.operands)

def opMemInit (inst : InstanceData) := memInitWith inst ⟨false, none⟩

def opMemInitShared (inst : InstanceData) := memInitWith inst ⟨true, none⟩

def opMemInitIndexedLocal (inst : InstanceData) (memidx : Nat) :=
  memInitWith inst ⟨false, some memidx⟩

def opMemInitIndexedShared (inst : InstanceData) (memidx : Nat) :=
  memInitWith inst ⟨true, some memidx⟩

def memFillWith (inst : InstanceData) (form : MemoryForm) (ptr data len : U32) : Handler :=
  charged (memoryBulkCharge len) (onForm inst form (·.fill ptr len data)) form.operands

def opMemFill (inst : InstanceData) := memFillWith inst ⟨false, none⟩

def opMemFillShared (inst : InstanceData) := memFillWith inst ⟨true, none⟩

def opMemFillIndexedLocal (inst : InstanceData) (memidx : Nat) :=
  memFillWith inst ⟨false, some memidx⟩

def opMemFillIndexedShared (inst : InstanceData) (memidx : Nat) :=
  memFillWith inst ⟨true, some memidx⟩

def memCopyWith (inst : InstanceData) (shared : Bool) (pending : Nat) (dst src len : U32) : Handler :=
  unlessPending pending <|
    charged (memoryBulkCharge len) (onForm inst ⟨shared, none⟩ (·.copy dst src len)) 0

def opMemCopy (inst : InstanceData) := memCopyWith inst false

def opMemCopyShared (inst : InstanceData) := memCopyWith inst true

/-- Only the handlers for memories of one kind can find that both are the same. -/
def memCopyIndexedWith (inst : InstanceData) (dstShared srcShared : Bool) (dstMemidx srcMemidx : Nat)
    (pending : Nat) (dst src len : U32) : Handler :=
  unlessPending pending <|
    match inst.mems[dstMemidx]?, inst.mems[srcMemidx]? with
    | some dstMemory, some srcMemory => do
        if dstShared = srcShared ∧ dstMemory = srcMemory then
          onMeter (vmCheckpointN (memoryBulkCharge len))
        copyMemoryWith dstShared srcShared dstMemory srcMemory dst src len
        return .callNext 2
    | _, _ => Lib.Attempt.fail (.trap .panic)

def opMemCopyIndexedLocalLocal (inst : InstanceData) := memCopyIndexedWith inst false false

def opMemCopyIndexedLocalShared (inst : InstanceData) := memCopyIndexedWith inst false true

def opMemCopyIndexedSharedLocal (inst : InstanceData) := memCopyIndexedWith inst true false

def opMemCopyIndexedSharedShared (inst : InstanceData) := memCopyIndexedWith inst true true

def tableBulkCharge (len : U32) : Nat := 1 + len.toNat >>> 10

def tableOf (inst : InstanceData) (s : Store) (tableIdx : Nat) : Option (Nat × TableInstance) :=
  (inst.tables[tableIdx]?).bind fun addr => (s.tables[addr]?).map fun t => (addr, t)

def Store.setEntries (s : Store) (addr : Nat) (entries : List Nat) : Store :=
  { s with tables := s.tables.modify addr fun t => { t with entries := entries } }

def getTable (inst : InstanceData) (tableIdx : Nat) : Lib.Attempt Store Stop (Nat × TableInstance) :=
  reading fun s =>
    match tableOf inst s tableIdx with
    | none => .error (.trap .panic)
    | some table => .ok table

/-- A slice of a table; the sum is of `usize` and cannot wrap. -/
def tableSlice (t : TableInstance) (start len : Nat) : Except Stop (List Nat) :=
  if start + len ≤ t.entries.length then .ok ((t.entries.drop start).take len)
  else .error (.trap .tableIndexOutOfRange)

def overwriteEntries (addr : Nat) (t : TableInstance) (start : Nat) (values : List Nat) :
    Lib.Attempt Store Stop Unit :=
  Lib.Attempt.modify (·.setEntries addr (Lib.overwrite t.entries start values))

def opTableCopy (inst : InstanceData) (dstTableIdx srcTableIdx : Nat) (dst src len : U32) : Handler :=
  charged (tableBulkCharge len) (do
    let srcTable ← getTable inst srcTableIdx
    let values ← reading fun _ => tableSlice srcTable.2 src.toNat len.toNat
    let dstTable ← getTable inst dstTableIdx
    let _ ← reading fun _ => tableSlice dstTable.2 dst.toNat len.toNat
    overwriteEntries dstTable.1 dstTable.2 dst.toNat values) 2

def opTableFill (inst : InstanceData) (tableIdx : Nat) (i val n : U32) : Handler :=
  charged (tableBulkCharge n) (do
    let table ← getTable inst tableIdx
    let slice ← reading fun _ => tableSlice table.2 i.toNat n.toNat
    overwriteEntries table.1 table.2 i.toNat (slice.map fun _ => val.toNat)) 1

/-- One round of the loops of `table_init_impl`. -/
def initEntry (inst : InstanceData) (init : ElemInit) (addr : Nat) (t : TableInstance)
    (dst src i : Nat) : Lib.Attempt Store Stop Unit := fun s =>
  match elemRef s.globals inst.globals inst.funcs t.type.reftype init (src + i) with
  | .error failure => (.error (.trap failure), s)
  | .ok value =>
      (.ok (), { s with tables := s.tables.modify addr fun t =>
        { t with entries := t.entries.set (dst + i) value } })

def tableInitImpl (inst : InstanceData) (elemIdx tableIdx dst src len : Nat) :
    Lib.Attempt Machine Stop Unit := do
  let (addr, t) ← onStore (getTable inst tableIdx)
  if t.entries.length < dst + len then Lib.Attempt.fail (.trap .tableIndexOutOfRange)
  else do
    let elem ← onStore (reading fun s => .ok (s.elems (inst.instanceId, elemIdx)))
    match elem with
    | none =>
        if len = 0 ∧ src = 0 then pure () else Lib.Attempt.fail (.trap .tableIndexOutOfRange)
    | some elem =>
        if elem.init.length < src + len then Lib.Attempt.fail (.trap .tableIndexOutOfRange)
        else Lib.gatedRounds vmCheckpoint (initEntry inst elem.init addr t dst src) 0 len

def opTableInit (inst : InstanceData) (elemIdx tableIdx : Nat) (dst src len : U32) : Handler := do
  tableInitImpl inst elemIdx tableIdx dst.toNat src.toNat len.toNat
  return .callNext 2

end Telomere.Runtime
