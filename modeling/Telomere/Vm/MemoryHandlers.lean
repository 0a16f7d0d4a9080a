import Telomere.Common.MemoryAccess
import Telomere.Lib.Attempt

/-!
# Operands of memory instructions

The parser chooses one of four handlers of an opcode, by the kind of the memory and by whether its
index is zero, and pushes the operands that the handler reads back at fixed slots. Words of the operand
stack are listed top first. The stack is unbounded, and what the code leaves undefined is an outcome.
-/

namespace Telomere.MemoryOps

open Linear Lib

/-- The errors of `WasmParserError` that a memory instruction gives; those of the reader are its own. -/
inductive ParserError where
  | reader
  | invalidAlignment (align : U32)
  | invalidMemIdx (memidx : U32)
  | invalidInstruction (bytes : List Byte)
deriving DecidableEq, Repr

abbrev Parsed (α : Type) := Except ParserError α

/-- A reader of numbers; each read also gives its length in bytes. -/
class BinaryReader (R : Type) where
  parseU32 : R → Parsed (Nat × U32 × R)
  parseByte : R → Parsed (Nat × Byte × R)

/-- Numbers that are given. -/
instance : BinaryReader (List U32) where
  parseU32
    | [] => .error .reader
    | n :: rest => .ok (1, n, rest)
  parseByte
    | [] => .error .reader
    | n :: rest => .ok (1, n.setWidth 8, rest)

/-- `MemType`, as far as the choice of a handler reads it. -/
structure MemType where
  shared : Bool
deriving DecidableEq, Repr

/-- `SHARED` and `INDEXED` of a handler. -/
structure HandlerKind where
  shared : Bool
  indexed : Bool
deriving DecidableEq, Repr

inductive Operand where
  | memarg (memarg : MemArg)
  | u32 (n : U32)
deriving DecidableEq, Repr

inductive Instr (Op : Type) where
  | op (op : Op)
  | operand (operand : Operand)
deriving DecidableEq, Repr

/-- What is pushed for a memory instruction, with the memory index and the memarg that were read. -/
structure Emitted (Op : Type) where
  memidx : U32
  memarg : MemArg
  op : Op
  operands : List Operand
deriving DecidableEq, Repr

def Emitted.slots {Op : Type} (e : Emitted Op) : List (Instr Op) := e.operands.map .operand

section

variable {R Op : Type} [BinaryReader R]

/-- `parse_memarg` and `parse_memarg_exact`, by the check of the alignment. -/
def parseMemargWith (refuses : U32 → Bool) (reader : R) : Parsed (Nat × U32 × MemArg × R) := do
  let (len, flags, reader) ← BinaryReader.parseU32 reader
  let (len2, memidx, align, reader) ←
    if 0x40 ≤ flags.toNat then do
      let (len2, memidx, reader) ← BinaryReader.parseU32 reader
      pure (len2, memidx, flags - 0x40, reader)
    else pure (0, 0, flags, reader)
  if refuses align then throw (.invalidAlignment align)
  let (len3, offset, reader) ← BinaryReader.parseU32 reader
  return (len + len2 + len3, memidx, ⟨align, offset⟩, reader)

def parseMemarg (naturalAlign : Nat) : R → Parsed (Nat × U32 × MemArg × R) :=
  parseMemargWith fun align => naturalAlign < align.toNat

def parseMemargExact (naturalAlignLog2 : Nat) : R → Parsed (Nat × U32 × MemArg × R) :=
  parseMemargWith fun align => align.toNat ≠ naturalAlignLog2

def memoryShared (mems : List MemType) (memidx : U32) : Parsed Bool :=
  match mems[memidx.toNat]? with
  | some memory => .ok memory.shared
  | none => .error (.invalidMemIdx memidx)

/-- `op` gives the four handlers. -/
def selectMemoryOp (mems : List MemType) (memidx : U32) (op : HandlerKind → Op) : Parsed Op := do
  let shared ← memoryShared mems memidx
  return op ⟨shared, memidx ≠ 0⟩

def pushMemargInstruction (mems : List MemType) (memidx : U32) (memarg : MemArg)
    (op : HandlerKind → Op) : Parsed (Emitted Op) := do
  let op ← selectMemoryOp mems memidx op
  return ⟨memidx, memarg, op,
    if memidx = 0 then [.memarg memarg] else [.memarg memarg, .u32 memidx]⟩

def pushMemargLaneInstruction (mems : List MemType) (memidx : U32) (memarg : MemArg) (lane : U32)
    (op : HandlerKind → Op) : Parsed (Emitted Op) := do
  let op ← selectMemoryOp mems memidx op
  return ⟨memidx, memarg, op,
    if memidx = 0 then [.memarg memarg, .u32 lane]
    else [.memarg memarg, .u32 lane, .u32 memidx]⟩

end

/-- `MemoryHandle`, `Local` and `Shared` -/
structure MemoryHandle where
  shared : Bool
  id : Nat
deriving DecidableEq, Repr

abbrev InstanceMemorySlot := Option MemoryHandle

structure SharedMemoryState where
  memory : Memory
  waitQueues : Nat → List Nat
  nextWaiterId : Nat

structure Store where
  localMemories : Nat → Memory
  sharedMemories : Nat → SharedMemoryState

structure ExecuteContext where
  stack : List U32
  store : Store

/-- A frame of an instance of a module with these memory types; it keeps the first memory at hand. -/
structure CurrentFrame (mems : List MemType) where
  memorySlots : List InstanceMemorySlot
  memory0 : InstanceMemorySlot
  memory0_eq : memory0 = memorySlots.head?.join
  kinds : List.Forall₂ (fun slot ty => slot.map MemoryHandle.shared = some ty.shared) memorySlots mems

/-- A failure of `VMResult`, or behaviour that the code leaves undefined. -/
inductive Fault where
  | failed (failure : Failure)
  | undefined
deriving DecidableEq, Repr

abbrev Run := Attempt ExecuteContext Fault

namespace Store

def memoryAt (s : Store) (handle : MemoryHandle) : Memory :=
  if handle.shared then (s.sharedMemories handle.id).memory else s.localMemories handle.id

def setShared (s : Store) (id : Nat) (object : SharedMemoryState) : Store :=
  { s with sharedMemories := fun other => if other = id then object else s.sharedMemories other }

def setMemory (s : Store) (handle : MemoryHandle) (m : Memory) : Store :=
  if handle.shared then
    s.setShared handle.id { s.sharedMemories handle.id with memory := m }
  else { s with localMemories := fun other => if other = handle.id then m else s.localMemories other }

def queues (s : Store) (id : Nat) : Nat → List Nat := (s.sharedMemories id).waitQueues

@[simp] theorem memoryAt_setMemory (s : Store) (handle : MemoryHandle) (m : Memory) :
    (s.setMemory handle m).memoryAt handle = m := by
  cases hshared : handle.shared <;> simp [memoryAt, setMemory, setShared, hshared]

theorem memoryAt_setMemory_of_ne {handle other : MemoryHandle} (s : Store) (m : Memory)
    (hne : other ≠ handle) : (s.setMemory handle m).memoryAt other = s.memoryAt other := by
  obtain ⟨shared, id⟩ := handle
  obtain ⟨otherShared, otherId⟩ := other
  by_cases hid : otherId = id
  · have hkind : otherShared ≠ shared := fun h => hne (by rw [h, hid])
    cases shared <;> cases otherShared <;> simp_all [memoryAt, setMemory, setShared]
  · cases shared <;> cases otherShared <;> simp [memoryAt, setMemory, setShared, hid]

@[simp] theorem setMemory_memoryAt (s : Store) (handle : MemoryHandle) :
    s.setMemory handle (s.memoryAt handle) = s := by
  obtain ⟨shared, id⟩ := handle
  cases shared
  · have hsame : (fun other => if other = id then s.localMemories id else s.localMemories other) =
        s.localMemories := by
      funext other
      by_cases h : other = id <;> simp [h]
    simp [setMemory, memoryAt, hsame]
  · have hsame : (fun other => if other = id then s.sharedMemories id else s.sharedMemories other) =
        s.sharedMemories := by
      funext other
      by_cases h : other = id <;> simp [h]
    simp [setMemory, memoryAt, setShared, hsame]

@[simp] theorem setMemory_queues (s : Store) (handle : MemoryHandle) (m : Memory) :
    (s.setMemory handle m).queues = s.queues := by
  funext id
  cases hshared : handle.shared
  · simp [queues, setMemory, hshared]
  · by_cases h : id = handle.id <;> simp [queues, setMemory, setShared, hshared, h]

theorem memoryAt_shared {s : Store} {handle : MemoryHandle} (h : handle.shared = true) :
    s.memoryAt handle = (s.sharedMemories handle.id).memory := by
  simp [memoryAt, h]

@[simp] theorem setShared_self (s : Store) (id : Nat) : s.setShared id (s.sharedMemories id) = s := by
  have hsame : (fun other => if other = id then s.sharedMemories id else s.sharedMemories other) =
      s.sharedMemories := by
    funext other
    by_cases h : other = id <;> simp [h]
  simp [setShared, hsame]

theorem memoryAt_setShared {s : Store} {id : Nat} {object : SharedMemoryState}
    (hmemory : object.memory = (s.sharedMemories id).memory) (other : MemoryHandle) :
    (s.setShared id object).memoryAt other = s.memoryAt other := by
  by_cases h : other.id = id
  · simp [memoryAt, setShared, h, hmemory]
  · simp [memoryAt, setShared, h]

end Store
def Traps {α : Type} (result : Except Fault α) : Prop :=
  ∃ failure : Failure, failure.IsTrap ∧ result = .error (.failed failure)

def Refused {α : Type} (run : Except Fault α × ExecuteContext) (s : Store) : Prop :=
  ∃ failure stack, failure.IsTrap ∧ run = (.error (.failed failure), ⟨stack, s⟩)

theorem Refused.bind {α β : Type} {x : Run α} {f : α → Run β} {ctx : ExecuteContext} {s : Store}
    (h : Refused (x ctx) s) : Refused ((x >>= f) ctx) s := by
  obtain ⟨failure, stack, htrap, hrun⟩ := h
  exact ⟨failure, stack, htrap, Attempt.bind_error hrun⟩

theorem isTrap_of_access {failure : Failure}
    (h : failure = .unalignedAtomic ∨ failure = .memoryIndexOutOfRange) : failure.IsTrap := by
  rcases h with rfl | rfl
  · exact ⟨nofun, nofun⟩
  · exact ⟨nofun, nofun⟩

/-- A number as words of the operand stack, the highest on top. -/
def words {width : Nat} (n : Nat) (value : BitVec width) : List U32 := (leDigits 32 n value).reverse

def popWords (width n : Nat) : Run (BitVec width) := fun ctx =>
  if n ≤ ctx.stack.length then
    (.ok (leValue width (ctx.stack.take n).reverse), { ctx with stack := ctx.stack.drop n })
  else (.error .undefined, ctx)

def popU32 : Run (BitVec 32) := popWords 32 1

def popU64 : Run (BitVec 64) := popWords 64 2

def popU128 : Run (BitVec 128) := popWords 128 4

/-- `push_*_fast` with room for the words; without it the source ends with `StackOverflow`. -/
def pushWords {width : Nat} (n : Nat) (value : BitVec width) : Run Unit :=
  Attempt.modify fun ctx => { ctx with stack := words n value ++ ctx.stack }

def pushU32 : BitVec 32 → Run Unit := pushWords 1

def pushU64 : BitVec 64 → Run Unit := pushWords 2

def pushU128 : BitVec 128 → Run Unit := pushWords 4

def liftResult {α : Type} : VMResult α → Run α
  | .ok a => pure a
  | .error failure => Attempt.fail (.failed failure)

def memargAt {Op : Type} (code : List (Instr Op)) (slot : Nat) : Run MemArg :=
  match code[slot]? with
  | some (.operand (.memarg memarg)) => pure memarg
  | _ => Attempt.fail .undefined

def u32At {Op : Type} (code : List (Instr Op)) (slot : Nat) : Run U32 :=
  match code[slot]? with
  | some (.operand (.u32 n)) => pure n
  | _ => Attempt.fail .undefined

def effective (memarg : MemArg) (address : U32) : Nat := memarg.offset.toNat + address.toNat

/-- The address is taken from the stack and added to the offset of the memarg. -/
def effectiveAddress {Op : Type} (code : List (Instr Op)) : Run Nat := do
  let memarg ← memargAt code 0
  let offset ← popU32
  liftResult (computeMemoryOffset memarg offset)

/-- The id is taken from the slot as if it were of this kind. -/
def memoryIdUnchecked (slot : InstanceMemorySlot) (shared : Bool) : Run MemoryHandle :=
  match slot with
  | some handle => if handle.shared = shared then pure handle else Attempt.fail .undefined
  | none => Attempt.fail .undefined

def CurrentFrame.memorySlotAt {mems : List MemType} (frame : CurrentFrame mems) (memidx : U32) :
    InstanceMemorySlot :=
  frame.memorySlots[memidx.toNat]?.join

/-- The memory of a handler of this kind; `slot` is where an indexed one reads the memory index. -/
def selectMemory {Op : Type} {mems : List MemType} (frame : CurrentFrame mems) (kind : HandlerKind)
    (code : List (Instr Op)) (slot : Nat) : Run MemoryHandle :=
  if kind.indexed then do
    let memidx ← u32At code slot
    memoryIdUnchecked (frame.memorySlotAt memidx) kind.shared
  else memoryIdUnchecked frame.memory0 kind.shared

def onMemory {α : Type} (handle : MemoryHandle) (f : Memory → VMResult α × Memory) : Run α :=
  fun ctx =>
    let (result, m) := f (ctx.store.memoryAt handle)
    (result.mapError .failed, { ctx with store := ctx.store.setMemory handle m })

def readMemory {α : Type} (handle : MemoryHandle) (f : Memory → VMResult α) : Run α :=
  onMemory handle fun m => (f m, m)

section

variable {α : Type} {ctx : ExecuteContext} {handle : MemoryHandle} {width n : Nat}

@[simp] theorem length_words (value : BitVec width) : (words n value).length = n := by
  simp [words]

theorem popWords_words {w : Nat} (hwidth : width ≤ 32 * n) (value : BitVec w) (rest : List U32)
    (store : Store) : popWords width n ⟨words n value ++ rest, store⟩ =
      (.ok (value.setWidth width), ⟨rest, store⟩) := by
  have hlen : (words n value).length = n := length_words value
  have htake : (words n value ++ rest).take n = words n value := List.take_left' hlen
  have hdrop : (words n value ++ rest).drop n = rest := List.drop_left' hlen
  have hread : leValue width (words n value).reverse = value.setWidth width := by
    rw [words, List.reverse_reverse, leValue_leDigits (by decide) value hwidth]
  have hle : n ≤ (words n value ++ rest).length := by
    rw [List.length_append, hlen]
    exact Nat.le_add_right _ _
  simp only [popWords, if_pos hle, htake, hdrop, hread]

theorem words_inj (hwidth : width ≤ 32 * n) {value value' : BitVec width}
    (h : words n value = words n value') : value = value' := by
  have hread (v : BitVec width) : leValue width (words n v).reverse = v := by
    rw [words, List.reverse_reverse, leValue_leDigits (by decide) v hwidth, BitVec.setWidth_eq]
  rw [← hread value, h, hread]

theorem exists_words {w : Nat} (hwidth : 32 * n ≤ w) {stack : List U32} (hlen : n ≤ stack.length) :
    ∃ (value : BitVec w) (rest : List U32), stack = words n value ++ rest := by
  have htake : (stack.take n).reverse.length = n := by
    rw [List.length_reverse, List.length_take, Nat.min_eq_left hlen]
  refine ⟨leValue w (stack.take n).reverse, stack.drop n, ?_⟩
  rw [words, leDigits_leValue (by decide) htake hwidth, List.reverse_reverse, List.take_append_drop]

theorem popU32_words {w : Nat} (value : BitVec w) (rest : List U32) (store : Store) :
    popU32 ⟨words 1 value ++ rest, store⟩ = (.ok (value.setWidth 32), ⟨rest, store⟩) :=
  popWords_words (by decide) value rest store

theorem popU64_words {w : Nat} (value : BitVec w) (rest : List U32) (store : Store) :
    popU64 ⟨words 2 value ++ rest, store⟩ = (.ok (value.setWidth 64), ⟨rest, store⟩) :=
  popWords_words (by decide) value rest store

theorem liftResult_ok (a : α) : liftResult (.ok a) ctx = (.ok a, ctx) := rfl

theorem liftResult_error (failure : Failure) :
    (liftResult (.error failure) : Run α) ctx = (.error (.failed failure), ctx) := rfl

theorem onMemory_ok {f : Memory → VMResult α × Memory} {a : α} {m : Memory}
    (h : f (ctx.store.memoryAt handle) = (.ok a, m)) :
    onMemory handle f ctx = (.ok a, { ctx with store := ctx.store.setMemory handle m }) := by
  simp only [onMemory, h]
  rfl

theorem onMemory_error {f : Memory → VMResult α × Memory} {failure : Failure}
    (h : f (ctx.store.memoryAt handle) = (.error failure, ctx.store.memoryAt handle)) :
    onMemory handle f ctx = (.error (.failed failure), ctx) := by
  simp only [onMemory, h, Store.setMemory_memoryAt]
  rfl

theorem readMemory_ok {f : Memory → VMResult α} {a : α} (h : f (ctx.store.memoryAt handle) = .ok a) :
    readMemory handle f ctx = (.ok a, ctx) := by
  rw [readMemory, onMemory_ok (by rw [h]), Store.setMemory_memoryAt]

theorem effectiveAddress_ok {Op : Type} {code : List (Instr Op)} {memarg : MemArg}
    (hcode : code[0]? = some (Instr.operand (.memarg memarg))) {address : U32}
    (hsum : effective memarg address < 2 ^ 32) (rest : List U32) (store : Store) :
    effectiveAddress code ⟨words 1 address ++ rest, store⟩ =
      (.ok (effective memarg address), ⟨rest, store⟩) := by
  have hread : memargAt code 0 ⟨words 1 address ++ rest, store⟩ =
      (.ok memarg, ⟨words 1 address ++ rest, store⟩) := by
    rw [memargAt, hcode]
    rfl
  rw [effectiveAddress, Attempt.bind_ok hread,
    Attempt.bind_ok (popU32_words address rest store)]
  rw [effective] at hsum
  simp only [computeMemoryOffset, BitVec.setWidth_eq, checkedAdd, if_pos hsum]
  exact liftResult_ok _

theorem effectiveAddress_error {Op : Type} {code : List (Instr Op)} {memarg : MemArg}
    (hcode : code[0]? = some (Instr.operand (.memarg memarg))) {address : U32}
    (hsum : ¬effective memarg address < 2 ^ 32) (rest : List U32) (store : Store) :
    effectiveAddress code ⟨words 1 address ++ rest, store⟩ =
      (.error (.failed .memoryIndexOutOfRange), ⟨rest, store⟩) := by
  have hread : memargAt code 0 ⟨words 1 address ++ rest, store⟩ =
      (.ok memarg, ⟨words 1 address ++ rest, store⟩) := by
    rw [memargAt, hcode]
    rfl
  rw [effectiveAddress, Attempt.bind_ok hread,
    Attempt.bind_ok (popU32_words address rest store)]
  rw [effective] at hsum
  simp only [computeMemoryOffset, BitVec.setWidth_eq, checkedAdd, if_neg hsum]
  exact liftResult_error _

theorem readMemory_error {f : Memory → VMResult α} {failure : Failure}
    (h : f (ctx.store.memoryAt handle) = .error failure) :
    readMemory handle f ctx = (.error (.failed failure), ctx) :=
  onMemory_error (by rw [h])

end

section

variable {Op : Type} {mems : List MemType} {memidx : U32} {memarg : MemArg} {op : HandlerKind → Op}
  {e : Emitted Op}

theorem selectMemoryOp_eq_ok {chosen : Op} :
    selectMemoryOp mems memidx op = .ok chosen ↔
      ∃ ty, mems[memidx.toNat]? = some ty ∧ chosen = op ⟨ty.shared, memidx ≠ 0⟩ := by
  rw [selectMemoryOp, memoryShared]
  cases mems[memidx.toNat]? with
  | none => simp
  | some ty =>
      simp only [ok_bind, pure_eq_ok, Option.some.injEq, exists_eq_left']
      exact eq_comm

theorem pushMemargInstruction_eq_ok :
    pushMemargInstruction mems memidx memarg op = .ok e ↔
      ∃ ty, mems[memidx.toNat]? = some ty ∧ e = ⟨memidx, memarg, op ⟨ty.shared, memidx ≠ 0⟩,
        if memidx = 0 then [.memarg memarg] else [.memarg memarg, .u32 memidx]⟩ := by
  rw [pushMemargInstruction, bind_eq_ok]
  constructor
  · rintro ⟨chosen, hselect, hemit⟩
    obtain ⟨ty, hty, rfl⟩ := selectMemoryOp_eq_ok.mp hselect
    exact ⟨ty, hty, (pure_eq_ok.mp hemit).symm⟩
  · rintro ⟨ty, hty, rfl⟩
    exact ⟨_, selectMemoryOp_eq_ok.mpr ⟨ty, hty, rfl⟩, rfl⟩

theorem pushMemargLaneInstruction_eq_ok {lane : U32} :
    pushMemargLaneInstruction mems memidx memarg lane op = .ok e ↔
      ∃ ty, mems[memidx.toNat]? = some ty ∧ e = ⟨memidx, memarg, op ⟨ty.shared, memidx ≠ 0⟩,
        if memidx = 0 then [.memarg memarg, .u32 lane]
        else [.memarg memarg, .u32 lane, .u32 memidx]⟩ := by
  rw [pushMemargLaneInstruction, bind_eq_ok]
  constructor
  · rintro ⟨chosen, hselect, hemit⟩
    obtain ⟨ty, hty, rfl⟩ := selectMemoryOp_eq_ok.mp hselect
    exact ⟨ty, hty, (pure_eq_ok.mp hemit).symm⟩
  · rintro ⟨ty, hty, rfl⟩
    exact ⟨_, selectMemoryOp_eq_ok.mpr ⟨ty, hty, rfl⟩, rfl⟩

theorem CurrentFrame.memorySlotAt_eq (frame : CurrentFrame mems) {ty : MemType}
    (hty : mems[memidx.toNat]? = some ty) :
    ∃ handle, frame.memorySlotAt memidx = some handle ∧ handle.shared = ty.shared := by
  obtain ⟨hlt, rfl⟩ := List.getElem?_eq_some_iff.mp hty
  have hlt' : memidx.toNat < frame.memorySlots.length := by rwa [frame.kinds.length_eq]
  have hkind := List.forall₂_iff_get.mp frame.kinds |>.2 memidx.toNat hlt' hlt
  simp only [List.get_eq_getElem] at hkind
  cases hslot : frame.memorySlots[memidx.toNat] with
  | none =>
      rw [hslot] at hkind
      cases hkind
  | some handle =>
      rw [hslot] at hkind
      refine ⟨handle, ?_, Option.some.inj hkind⟩
      rw [memorySlotAt, List.getElem?_eq_getElem hlt', hslot]
      rfl

theorem CurrentFrame.memory0_eq_memorySlotAt (frame : CurrentFrame mems) :
    frame.memory0 = frame.memorySlotAt 0 := by
  rw [frame.memory0_eq, memorySlotAt, List.head?_eq_getElem?]
  rfl

theorem memoryIdUnchecked_ok {handle : MemoryHandle} {ctx : ExecuteContext} :
    memoryIdUnchecked (some handle) handle.shared ctx = (.ok handle, ctx) := by
  rw [memoryIdUnchecked, if_pos rfl]
  rfl

/-- The operands stand where a handler of this kind reads them, the memory index at `slot`. -/
structure Placed (frame : CurrentFrame mems) (handle : MemoryHandle) (kind : HandlerKind)
    (memarg : MemArg) (code : List (Instr Op)) (slot : Nat) : Prop where
  memory : ∃ memidx, frame.memorySlotAt memidx = some handle ∧ kind = ⟨handle.shared, memidx ≠ 0⟩ ∧
    (memidx ≠ 0 → code[slot]? = some (Instr.operand (.u32 memidx)))
  memarg_at : code[0]? = some (Instr.operand (.memarg memarg))

namespace Placed

variable {frame : CurrentFrame mems} {handle : MemoryHandle} {kind : HandlerKind}
  {code : List (Instr Op)} {slot : Nat}

theorem shared_eq (h : Placed frame handle kind memarg code slot) : kind.shared = handle.shared := by
  obtain ⟨_, _, rfl, _⟩ := h.memory
  rfl

theorem selectMemory (h : Placed frame handle kind memarg code slot) (ctx : ExecuteContext) :
    selectMemory frame kind code slot ctx = (.ok handle, ctx) := by
  obtain ⟨memidx, hhandle, rfl, hslot⟩ := h.memory
  by_cases hzero : memidx = 0
  · subst hzero
    simp only [MemoryOps.selectMemory, frame.memory0_eq_memorySlotAt, hhandle]
    exact memoryIdUnchecked_ok
  · have hread : u32At code slot ctx = (.ok memidx, ctx) := by
      rw [u32At, hslot hzero]
      rfl
    simp only [MemoryOps.selectMemory, hzero, ne_eq, not_false_eq_true, decide_true, if_true]
    rw [Attempt.bind_ok hread, hhandle]
    exact memoryIdUnchecked_ok

end Placed

/-- A memory instruction is given a memory of the instance, and its operands are where it reads
them. -/
theorem pushMemargInstruction_placed (frame : CurrentFrame mems)
    (hpush : pushMemargInstruction mems memidx memarg op = .ok e) :
    ∃ handle kind, e.op = op kind ∧ e.memidx = memidx ∧ e.memarg = memarg ∧
      frame.memorySlotAt memidx = some handle ∧
      e.operands.length = (if kind.indexed then 2 else 1) ∧
      ∀ following, Placed frame handle kind memarg (e.slots ++ following) 1 := by
  obtain ⟨ty, hty, rfl⟩ := pushMemargInstruction_eq_ok.mp hpush
  obtain ⟨handle, hhandle, hkind⟩ := frame.memorySlotAt_eq hty
  refine ⟨handle, ⟨ty.shared, memidx ≠ 0⟩, rfl, rfl, rfl, hhandle, ?_, fun following => ?_⟩
  · by_cases hzero : memidx = 0
    · subst hzero
      rfl
    · simp only [hzero, if_false, ne_eq, not_false_eq_true, decide_true, if_true]
      rfl
  · by_cases hzero : memidx = 0
    · subst hzero
      exact ⟨⟨0, hhandle, by rw [hkind], fun hne => absurd rfl hne⟩, rfl⟩
    · simp only [Emitted.slots, hzero, if_false]
      exact ⟨⟨memidx, hhandle, by rw [hkind], fun _ => rfl⟩, rfl⟩

theorem pushMemargLaneInstruction_placed {lane : U32} (frame : CurrentFrame mems)
    (hpush : pushMemargLaneInstruction mems memidx memarg lane op = .ok e) :
    ∃ handle kind, e.op = op kind ∧ e.memidx = memidx ∧ e.memarg = memarg ∧
      frame.memorySlotAt memidx = some handle ∧ kind.indexed = decide (memidx ≠ 0) ∧
      e.operands.length = (if kind.indexed then 3 else 2) ∧
      ∀ following, Placed frame handle kind memarg (e.slots ++ following) 2 ∧
        (e.slots ++ following)[1]? = some (Instr.operand (.u32 lane)) := by
  obtain ⟨ty, hty, rfl⟩ := pushMemargLaneInstruction_eq_ok.mp hpush
  obtain ⟨handle, hhandle, hkind⟩ := frame.memorySlotAt_eq hty
  refine ⟨handle, ⟨ty.shared, memidx ≠ 0⟩, rfl, rfl, rfl, hhandle, rfl, ?_, fun following => ?_⟩
  · by_cases hzero : memidx = 0
    · subst hzero
      rfl
    · simp only [hzero, if_false, ne_eq, not_false_eq_true, decide_true, if_true]
      rfl
  · by_cases hzero : memidx = 0
    · subst hzero
      exact ⟨⟨⟨0, hhandle, by rw [hkind], fun hne => absurd rfl hne⟩, rfl⟩, rfl⟩
    · simp only [Emitted.slots, hzero, if_false]
      exact ⟨⟨⟨memidx, hhandle, by rw [hkind], fun _ => rfl⟩, rfl⟩, rfl⟩

end

end Telomere.MemoryOps
