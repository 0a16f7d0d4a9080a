import Telomere.Lib.Lanes
import Telomere.Vm.MemoryHandlers

/-!
# Vector memory instructions

Loads, stores and the accesses to one lane. The handlers with a lane read it behind the memarg, and the
memory index behind the lane; the helper that reads bytes looks for the memory index behind the memarg.
-/

namespace Telomere.MemoryOps

open Linear Lib

/-- `v128.load8x8` to `v128.load32x2` are `loadExtend` of the width they extend. -/
inductive SimdInstr where
  | load
  | loadExtend (width : AccessWidth) (signed : Bool)
  | loadSplat (width : AccessWidth)
  | loadZero (width : AccessWidth)
  | store
  | loadLane (width : AccessWidth)
  | storeLane (width : AccessWidth)
deriving DecidableEq, Repr

structure SimdOp where
  instr : SimdInstr
  kind : HandlerKind
deriving DecidableEq, Repr

/-- The parsers with a memarg alone, by their `CODE`: the alignment up to which they accept. -/
def simdArm : Nat → Option (Nat × SimdInstr)
  | 0 => some (4, .load)
  | 1 => some (8, .loadExtend .w8 true)
  | 2 => some (8, .loadExtend .w8 false)
  | 3 => some (8, .loadExtend .w16 true)
  | 4 => some (8, .loadExtend .w16 false)
  | 5 => some (8, .loadExtend .w32 true)
  | 6 => some (8, .loadExtend .w32 false)
  | 7 => some (8, .loadSplat .w8)
  | 8 => some (8, .loadSplat .w16)
  | 9 => some (8, .loadSplat .w32)
  | 10 => some (8, .loadSplat .w64)
  | 11 => some (4, .store)
  | 92 => some (2, .loadZero .w32)
  | 93 => some (3, .loadZero .w64)
  | _ => none

/-- The parsers with a lane: the alignment, the number of lanes and the instruction. -/
def simdLaneArm : Nat → Option (Nat × Nat × SimdInstr)
  | 84 => some (0, 16, .loadLane .w8)
  | 85 => some (1, 8, .loadLane .w16)
  | 86 => some (2, 4, .loadLane .w32)
  | 87 => some (3, 2, .loadLane .w64)
  | 88 => some (0, 16, .storeLane .w8)
  | 89 => some (1, 8, .storeLane .w16)
  | 90 => some (2, 4, .storeLane .w32)
  | 91 => some (3, 2, .storeLane .w64)
  | _ => none

def validateLane (code : Nat) (lane : Byte) (laneCount : Nat) : Parsed Unit :=
  if laneCount ≤ lane.toNat then
    .error (.invalidInstruction [0xFD, BitVec.ofNat 8 code, lane, 0])
  else .ok ()

section

variable {R : Type} [BinaryReader R] (mems : List MemType)

def parseSimdArm (align : Nat) (instr : SimdInstr) (reader : R) :
    Parsed (Nat × Emitted SimdOp × R) := do
  let (len, memidx, memarg, reader) ← parseMemarg align reader
  let emitted ← pushMemargInstruction mems memidx memarg fun kind => ⟨instr, kind⟩
  return (len, emitted, reader)

/-- `load_lane_parser` and `store_lane_parser`; the lane that was read is given as well. -/
def parseSimdLaneArm (code align laneCount : Nat) (instr : SimdInstr) (reader : R) :
    Parsed (Nat × Emitted SimdOp × Byte × R) := do
  let (len, memidx, memarg, reader) ← parseMemarg align reader
  let (len2, lane, reader) ← BinaryReader.parseByte reader
  validateLane code lane laneCount
  let emitted ← pushMemargLaneInstruction mems memidx memarg (lane.setWidth 32)
    fun kind => ⟨instr, kind⟩
  return (len + len2, emitted, lane, reader)

/-- The parser of a vector memory instruction; the lane is zero where there is none. -/
def parseSimdMemory (code : Nat) (reader : R) : Option (Parsed (Nat × Emitted SimdOp × Byte × R)) :=
  match simdArm code with
  | some (align, instr) => some do
      let (len, emitted, reader) ← parseSimdArm mems align instr reader
      return (len, emitted, 0, reader)
  | none => (simdLaneArm code).map fun (align, laneCount, instr) =>
      parseSimdLaneArm mems code align laneCount instr reader

end

def narrowLanes (width : AccessWidth) (data : List Byte) : List (BitVec width.bits) :=
  (List.range (8 / width.bytes)).map fun i =>
    leValue width.bits ((data.drop (width.bytes * i)).take width.bytes)

def SimdInstr.loaded : SimdInstr → List Byte → BitVec 128
  | .loadExtend width true, data =>
      leValue 128 ((narrowLanes width data).map (BitVec.signExtend (2 * width.bits)))
  | .loadExtend width false, data =>
      leValue 128 ((narrowLanes width data).map (BitVec.setWidth (2 * width.bits)))
  | .loadSplat width, data =>
      leValue 128 (List.replicate (16 / width.bytes) (leValue width.bits data))
  | _, data => leValue 128 data

def SimdInstr.bytes : SimdInstr → Nat
  | .load | .store => 16
  | .loadExtend .. => 8
  | .loadSplat width | .loadZero width | .loadLane width | .storeLane width => width.bytes

/-- `push_to_stack`: the bytes that it pushes. -/
def pushToStack (m : Memory) (n offset : Nat) : VMResult (List Byte) :=
  match checkedAdd 64 offset n with
  | none => .error .memoryIndexOutOfRange
  | some last => if m.dataSize < last then .error .memoryIndexOutOfRange else .ok (m.slice offset n)

section

variable {mems : List MemType} (frame : CurrentFrame mems) (kind : HandlerKind)
  (code : List (Instr SimdOp))

def opV128Load : Run Nat := do
  let start ← effectiveAddress code
  let handle ← selectMemory frame kind code 1
  let bytes ← readMemory handle fun m => pushToStack m 16 start
  pushU128 (leValue 128 bytes)
  return if kind.indexed then 2 else 1

def readMemoryBytes (n : Nat) : Run (List Byte) := do
  let start ← effectiveAddress code
  let handle ← selectMemory frame kind code 1
  readMemory handle fun m => m.readU8Array n start

/-- The extending loads, the splats and the loads with zeroes. -/
def loadInternal (instr : SimdInstr) : Run Nat := do
  let data ← readMemoryBytes frame kind code instr.bytes
  pushU128 (instr.loaded data)
  return if kind.indexed then 2 else 1

/-- `store_internal_local` and its siblings, for `v128.store`. -/
def v128Store : Run Nat := do
  let value ← popU128
  let start ← effectiveAddress code
  let handle ← selectMemory frame kind code 1
  onMemory handle fun m => m.writeBytes start (leDigits 8 16 value)
  return if kind.indexed then 2 else 1

/-- `replace_lane_bytes`; the lane is one of the vector. -/
def replaceLaneBytes (bytes : List Byte) (lane : Nat) (value : List Byte) : List Byte :=
  overwrite bytes (lane * value.length) value

def loadLaneInternal (width : AccessWidth) : Run Nat := do
  let lane ← u32At code 1
  let vector ← popU128
  let data ← readMemoryBytes frame kind code width.bytes
  pushU128 (leValue 128 (replaceLaneBytes (leDigits 8 16 vector) lane.toNat data))
  return if kind.indexed then 3 else 2

def storeLaneInternal (width : AccessWidth) : Run Nat := do
  let lane ← u32At code 1
  let vector ← popU128
  let start ← effectiveAddress code
  let handle ← selectMemory frame kind code 2
  onMemory handle fun m => m.writeBytes start
    (((leDigits 8 16 vector).drop (lane.toNat * width.bytes)).take width.bytes)
  return if kind.indexed then 3 else 2

end

/-- The handler that an op names; the result is how many slots it goes on behind. -/
def simdHandler {mems : List MemType} (frame : CurrentFrame mems) (op : SimdOp)
    (code : List (Instr SimdOp)) : Run Nat :=
  match op.instr with
  | .load => opV128Load frame op.kind code
  | .store => v128Store frame op.kind code
  | .loadLane width => loadLaneInternal frame op.kind code width
  | .storeLane width => storeLaneInternal frame op.kind code width
  | instr => loadInternal frame op.kind code instr

structure SimdOperands where
  address : U32
  vector : BitVec 128

namespace SimdInstr

variable (instr : SimdInstr) (lane : Nat) (o : SimdOperands)

def operandWords : List U32 :=
  match instr with
  | .store | .loadLane _ | .storeLane _ => words 4 o.vector ++ words 1 o.address
  | _ => words 1 o.address

def answer (m : Memory) (address : Nat) : List U32 :=
  match instr with
  | .store | .storeLane _ => []
  | .loadLane width => words 4 (withDigit o.vector lane (m.valueAt width address))
  | instr => words 4 (instr.loaded (m.slice address instr.bytes))

def written (m : Memory) (address : Nat) : Memory :=
  match instr with
  | .store => m.withBytes address 16 o.vector
  | .storeLane width => m.withBytes address width.bytes (leDigit width.bits o.vector lane)
  | _ => m

end SimdInstr

/-- What an instruction does on the memory it was given: a trap that changes nothing, or what its
definition makes of that memory alone, whichever handler it is. -/
structure SimdExact (instr : SimdInstr) (lane : Nat) (o : SimdOperands) (handle : MemoryHandle)
    (address slots : Nat) (rest : List U32) (s : Store) (run : Except Fault Nat × ExecuteContext) :
    Prop where
  refuses : ¬address + instr.bytes ≤ (s.memoryAt handle).dataSize → Refused run s
  grants : address + instr.bytes ≤ (s.memoryAt handle).dataSize →
    run = (.ok slots, ⟨instr.answer lane o (s.memoryAt handle) address ++ rest,
      s.setMemory handle (instr.written lane o (s.memoryAt handle) address)⟩)

/-- Where an indexed load of a lane looks for its memory, at the number of the lane, it finds one of
the same kind that answers as its own does. -/
def LaneAgrees {mems : List MemType} (frame : CurrentFrame mems) (lane : U32) (handle : MemoryHandle)
    (s : Store) (n address : Nat) : Prop :=
  ∃ other, frame.memorySlotAt lane = some other ∧ other.shared = handle.shared ∧
    (s.memoryAt other).readU8Array n address = (s.memoryAt handle).readU8Array n address

theorem pushToStack_eq (m : Memory) (n offset : Nat) :
    pushToStack m n offset =
      if offset + n ≤ m.dataSize then .ok (m.slice offset n) else .error .memoryIndexOutOfRange := by
  have hsize := m.dataSize_le
  by_cases hin : offset + n ≤ m.dataSize
  · have hsum : offset + n < 2 ^ 64 := by omega
    simp only [pushToStack, checkedAdd, if_pos hsum, if_pos hin, if_neg (Nat.not_lt.mpr hin)]
  · rw [if_neg hin]
    by_cases hsum : offset + n < 2 ^ 64
    · simp only [pushToStack, checkedAdd, if_pos hsum, if_pos (Nat.not_le.mp hin)]
    · simp only [pushToStack, checkedAdd, if_neg hsum]

section

variable {mems : List MemType} {frame : CurrentFrame mems} {handle : MemoryHandle}
  {kind : HandlerKind} {memarg : MemArg} {code : List (Instr SimdOp)} {o : SimdOperands}
  {address : U32} {rest : List U32} {s : Store} {lane : U32} {width : AccessWidth} {n : Nat}

theorem popU128_words (vector : BitVec 128) (stack : List U32) :
    popU128 ⟨words 4 vector ++ stack, s⟩ = (.ok vector, ⟨stack, s⟩) := by
  have hpop := @popWords_words 128 4 128 (by decide) vector stack s
  rwa [BitVec.setWidth_eq] at hpop

theorem readMemoryBytes_eq (hmemarg : code[0]? = some (Instr.operand (.memarg memarg)))
    (hsum : effective memarg address < 2 ^ 32)
    (hselect : selectMemory frame kind code 1 ⟨rest, s⟩ = (.ok handle, ⟨rest, s⟩)) :
    readMemoryBytes frame kind code n ⟨words 1 address ++ rest, s⟩ =
      (((s.memoryAt handle).readU8Array n (effective memarg address)).mapError .failed,
        ⟨rest, s⟩) := by
  rw [readMemoryBytes, Attempt.bind_ok (effectiveAddress_ok hmemarg hsum rest s),
    Attempt.bind_ok hselect]
  cases hread : (s.memoryAt handle).readU8Array n (effective memarg address) with
  | error e => exact readMemory_error hread
  | ok bytes => exact readMemory_ok hread

theorem readMemoryBytes_overflow (hmemarg : code[0]? = some (Instr.operand (.memarg memarg)))
    (hsum : ¬effective memarg address < 2 ^ 32) :
    readMemoryBytes frame kind code n ⟨words 1 address ++ rest, s⟩ =
      (.error (.failed .memoryIndexOutOfRange), ⟨rest, s⟩) := by
  rw [readMemoryBytes, Attempt.bind_error (effectiveAddress_error hmemarg hsum rest s)]

theorem readMemoryBytes_ok (h : Placed frame handle kind memarg code 1)
    (hin : effective memarg address + n ≤ (s.memoryAt handle).dataSize) (hn : 0 < n) :
    readMemoryBytes frame kind code n ⟨words 1 address ++ rest, s⟩ =
      (.ok ((s.memoryAt handle).slice (effective memarg address) n), ⟨rest, s⟩) := by
  have hsize := (s.memoryAt handle).dataSize_le
  rw [readMemoryBytes_eq h.memarg_at (by omega) (h.selectMemory _), Memory.readU8Array_eq,
    if_pos hin]
  rfl

theorem readMemoryBytes_refused (h : Placed frame handle kind memarg code 1)
    (hout : ¬effective memarg address + n ≤ (s.memoryAt handle).dataSize) :
    Refused (readMemoryBytes frame kind code n ⟨words 1 address ++ rest, s⟩) s := by
  refine ⟨.memoryIndexOutOfRange, rest, isTrap_of_access (.inr rfl), ?_⟩
  by_cases hsum : effective memarg address < 2 ^ 32
  · rw [readMemoryBytes_eq h.memarg_at hsum (h.selectMemory _), Memory.readU8Array_eq, if_neg hout]
    rfl
  · exact readMemoryBytes_overflow h.memarg_at hsum

theorem onMemory_write (value : BitVec n) {start count : Nat}
    (hin : start + count ≤ (s.memoryAt handle).dataSize) :
    onMemory handle (fun m => m.writeBytes start (leDigits 8 count value)) ⟨rest, s⟩ =
      (.ok (), ⟨rest, s.setMemory handle ((s.memoryAt handle).withBytes start count value)⟩) := by
  have hwrite := @Memory.writeBytes_ok (s.memoryAt handle) start (leDigits 8 count value)
    (by rwa [length_leDigits])
  rw [Memory.copyFromSlice_leDigits] at hwrite
  exact onMemory_ok hwrite

theorem onMemory_write_error (value : BitVec n) {start count : Nat}
    (hout : ¬start + count ≤ (s.memoryAt handle).dataSize) :
    onMemory handle (fun m => m.writeBytes start (leDigits 8 count value)) ⟨rest, s⟩ =
      (.error (.failed .memoryIndexOutOfRange), ⟨rest, s⟩) :=
  onMemory_error (Memory.writeBytes_error (by rwa [length_leDigits]))

def slotsBehind (kind : HandlerKind) : Nat := if kind.indexed then 2 else 1

theorem opV128Load_exact (lane : Nat) (h : Placed frame handle kind memarg code 1) :
    SimdExact .load lane o handle (effective memarg o.address) (slotsBehind kind) rest s
      (opV128Load frame kind code ⟨words 1 o.address ++ rest, s⟩) := by
  have hsize := (s.memoryAt handle).dataSize_le
  constructor
  · intro hout
    refine ⟨.memoryIndexOutOfRange, rest, isTrap_of_access (.inr rfl), ?_⟩
    by_cases hsum : effective memarg o.address < 2 ^ 32
    · rw [opV128Load, Attempt.bind_ok (effectiveAddress_ok h.memarg_at hsum rest s),
        Attempt.bind_ok (h.selectMemory _)]
      exact Attempt.bind_error (readMemory_error ((pushToStack_eq _ _ _).trans (if_neg hout)))
    · rw [opV128Load]
      exact Attempt.bind_error (effectiveAddress_error h.memarg_at hsum rest s)
  · intro hin
    change effective memarg o.address + 16 ≤ (s.memoryAt handle).dataSize at hin
    have hsum : effective memarg o.address < 2 ^ 32 := by omega
    rw [opV128Load, Attempt.bind_ok (effectiveAddress_ok h.memarg_at hsum rest s),
      Attempt.bind_ok (h.selectMemory _),
      Attempt.bind_ok (readMemory_ok ((pushToStack_eq _ _ _).trans (if_pos hin)))]
    simp only [SimdInstr.written, Store.setMemory_memoryAt]
    rfl

theorem loadInternal_exact {instr : SimdInstr} (lane : Nat)
    (hanswer : ∀ m address, instr.answer lane o m address =
      words 4 (instr.loaded (m.slice address instr.bytes)))
    (hwritten : ∀ m address, instr.written lane o m address = m) (hbytes : 0 < instr.bytes)
    (h : Placed frame handle kind memarg code 1) :
    SimdExact instr lane o handle (effective memarg o.address) (slotsBehind kind) rest s
      (loadInternal frame kind code instr ⟨words 1 o.address ++ rest, s⟩) := by
  constructor
  · intro hout
    exact (readMemoryBytes_refused h hout).bind
  · intro hin
    rw [loadInternal, Attempt.bind_ok (readMemoryBytes_ok h hin hbytes), hanswer, hwritten,
      Store.setMemory_memoryAt]
    rfl

theorem v128Store_exact (lane : Nat) (h : Placed frame handle kind memarg code 1) :
    SimdExact .store lane o handle (effective memarg o.address) (slotsBehind kind) rest s
      (v128Store frame kind code ⟨words 4 o.vector ++ (words 1 o.address ++ rest), s⟩) := by
  have hsize := (s.memoryAt handle).dataSize_le
  constructor
  · intro hout
    refine ⟨.memoryIndexOutOfRange, rest, isTrap_of_access (.inr rfl), ?_⟩
    by_cases hsum : effective memarg o.address < 2 ^ 32
    · rw [v128Store, Attempt.bind_ok (popU128_words o.vector _),
        Attempt.bind_ok (effectiveAddress_ok h.memarg_at hsum rest s),
        Attempt.bind_ok (h.selectMemory _)]
      exact Attempt.bind_error (onMemory_write_error o.vector hout)
    · rw [v128Store, Attempt.bind_ok (popU128_words o.vector _)]
      exact Attempt.bind_error (effectiveAddress_error h.memarg_at hsum rest s)
  · intro hin
    change effective memarg o.address + 16 ≤ (s.memoryAt handle).dataSize at hin
    have hsum : effective memarg o.address < 2 ^ 32 := by omega
    rw [v128Store, Attempt.bind_ok (popU128_words o.vector _),
      Attempt.bind_ok (effectiveAddress_ok h.memarg_at hsum rest s),
      Attempt.bind_ok (h.selectMemory _), Attempt.bind_ok (onMemory_write o.vector hin)]
    rfl

def slotsBehindLane (kind : HandlerKind) : Nat := if kind.indexed then 3 else 2

theorem u32At_lane (hlane : code[1]? = some (Instr.operand (.u32 lane))) (ctx : ExecuteContext) :
    u32At code 1 ctx = (.ok lane, ctx) := by
  rw [u32At, hlane]
  rfl

theorem storedLane_eq (vector : BitVec 128) (hlane : lane.toNat < 16 / width.bytes) :
    ((leDigits 8 16 vector).drop (lane.toNat * width.bytes)).take width.bytes =
      leDigits 8 width.bytes (leDigit width.bits vector lane.toNat) := by
  refine leDigits_run vector ?_
  rw [← Nat.succ_mul]
  exact (Nat.le_div_iff_mul_le width.bytes_pos).mp hlane

theorem storeLaneInternal_exact (h : Placed frame handle kind memarg code 2)
    (hlane : code[1]? = some (Instr.operand (.u32 lane))) (hlt : lane.toNat < 16 / width.bytes) :
    SimdExact (.storeLane width) lane.toNat o handle (effective memarg o.address)
      (slotsBehindLane kind) rest s (storeLaneInternal frame kind code width
        ⟨words 4 o.vector ++ (words 1 o.address ++ rest), s⟩) := by
  have hsize := (s.memoryAt handle).dataSize_le
  have hpos := width.bytes_pos
  constructor
  · intro hout
    refine ⟨.memoryIndexOutOfRange, rest, isTrap_of_access (.inr rfl), ?_⟩
    by_cases hsum : effective memarg o.address < 2 ^ 32
    · rw [storeLaneInternal, Attempt.bind_ok (u32At_lane hlane _),
        Attempt.bind_ok (popU128_words o.vector _),
        Attempt.bind_ok (effectiveAddress_ok h.memarg_at hsum rest s),
        Attempt.bind_ok (h.selectMemory _), storedLane_eq o.vector hlt]
      exact Attempt.bind_error (onMemory_write_error _ hout)
    · rw [storeLaneInternal, Attempt.bind_ok (u32At_lane hlane _),
        Attempt.bind_ok (popU128_words o.vector _)]
      exact Attempt.bind_error (effectiveAddress_error h.memarg_at hsum rest s)
  · intro hin
    change effective memarg o.address + width.bytes ≤ (s.memoryAt handle).dataSize at hin
    have hsum : effective memarg o.address < 2 ^ 32 := by omega
    rw [storeLaneInternal, Attempt.bind_ok (u32At_lane hlane _),
      Attempt.bind_ok (popU128_words o.vector _),
      Attempt.bind_ok (effectiveAddress_ok h.memarg_at hsum rest s),
      Attempt.bind_ok (h.selectMemory _), storedLane_eq o.vector hlt,
      Attempt.bind_ok (onMemory_write _ hin)]
    rfl

theorem replacedLane_eq (vector : BitVec 128) (hlt : lane.toNat < 16 / width.bytes)
    {data : List Byte} (hlen : data.length = width.bytes) :
    leValue 128 (replaceLaneBytes (leDigits 8 16 vector) lane.toNat data) =
      withDigit vector lane.toNat (leValue width.bits data) := by
  have hlanes : width.bytes * (16 / width.bytes) = 16 := by cases width <;> rfl
  have hreplace := leValue_overwrite (by decide) width.bytes_pos hlt
    (by rw [Nat.mul_assoc, hlanes]) vector hlen
  rwa [hlanes, ← hlen, ← replaceLaneBytes, hlen] at hreplace

theorem loadLaneInternal_eq (hlane : code[1]? = some (Instr.operand (.u32 lane))) :
    loadLaneInternal frame kind code width ⟨words 4 o.vector ++ (words 1 o.address ++ rest), s⟩ =
      (readMemoryBytes frame kind code width.bytes >>= fun data =>
        pushU128 (leValue 128 (replaceLaneBytes (leDigits 8 16 o.vector) lane.toNat data)) >>=
          fun _ => (pure (slotsBehindLane kind) : Run Nat)) ⟨words 1 o.address ++ rest, s⟩ := by
  rw [loadLaneInternal, Attempt.bind_ok (u32At_lane hlane _),
    Attempt.bind_ok (popU128_words o.vector _)]
  rfl

/-- The load of a lane is exact where it selects a memory that answers as the named one. -/
theorem loadLaneInternal_exact (hmemarg : code[0]? = some (Instr.operand (.memarg memarg)))
    (hlane : code[1]? = some (Instr.operand (.u32 lane))) (hlt : lane.toNat < 16 / width.bytes)
    (hselect : effective memarg o.address < 2 ^ 32 → ∃ other,
      selectMemory frame kind code 1 ⟨rest, s⟩ = (.ok other, ⟨rest, s⟩) ∧
        (s.memoryAt other).readU8Array width.bytes (effective memarg o.address) =
          (s.memoryAt handle).readU8Array width.bytes (effective memarg o.address)) :
    SimdExact (.loadLane width) lane.toNat o handle (effective memarg o.address)
      (slotsBehindLane kind) rest s (loadLaneInternal frame kind code width
        ⟨words 4 o.vector ++ (words 1 o.address ++ rest), s⟩) := by
  have hsize := (s.memoryAt handle).dataSize_le
  have hpos := width.bytes_pos
  have hread (hsum : effective memarg o.address < 2 ^ 32) :
      readMemoryBytes frame kind code width.bytes ⟨words 1 o.address ++ rest, s⟩ =
        (((s.memoryAt handle).readU8Array width.bytes (effective memarg o.address)).mapError
          .failed, ⟨rest, s⟩) := by
    obtain ⟨other, hselect, hagree⟩ := hselect hsum
    rw [readMemoryBytes_eq hmemarg hsum hselect, hagree]
  rw [loadLaneInternal_eq hlane]
  constructor
  · intro hout
    change ¬effective memarg o.address + width.bytes ≤ (s.memoryAt handle).dataSize at hout
    refine ⟨.memoryIndexOutOfRange, rest, isTrap_of_access (.inr rfl), ?_⟩
    by_cases hsum : effective memarg o.address < 2 ^ 32
    · refine Attempt.bind_error ?_
      rw [hread hsum, Memory.readU8Array_eq, if_neg hout]
      rfl
    · exact Attempt.bind_error (readMemoryBytes_overflow hmemarg hsum)
  · intro hin
    change effective memarg o.address + width.bytes ≤ (s.memoryAt handle).dataSize at hin
    have hread := hread (by omega)
    rw [Memory.readU8Array_eq, if_pos hin] at hread
    rw [Attempt.bind_ok hread,
      replacedLane_eq o.vector hlt ((s.memoryAt handle).slice_length _ _)]
    simp only [SimdInstr.written, Store.setMemory_memoryAt]
    rfl

theorem selectMemory_lane (hindexed : kind.indexed = true)
    (hlane : code[1]? = some (Instr.operand (.u32 lane))) (ctx : ExecuteContext) :
    selectMemory frame kind code 1 ctx =
      memoryIdUnchecked (frame.memorySlotAt lane) kind.shared ctx := by
  rw [selectMemory, if_pos hindexed, Attempt.bind_ok (u32At_lane hlane ctx)]

theorem SimdExact.ne_undefined {instr : SimdInstr} {lane address slots : Nat}
    {run : Except Fault Nat × ExecuteContext}
    (h : SimdExact instr lane o handle address slots rest s run) : run.1 ≠ .error .undefined := by
  intro hrun
  by_cases hin : address + instr.bytes ≤ (s.memoryAt handle).dataSize
  · rw [h.grants hin] at hrun
    cases hrun
  · obtain ⟨failure, stack, -, hfail⟩ := h.refuses hin
    rw [hfail] at hrun
    cases hrun

theorem slice_eq_of_words {m m' : Memory} {vector : BitVec 128} {start : Nat}
    (hlt : lane.toNat < 16 / width.bytes)
    (h : words 4 (withDigit vector lane.toNat (m.valueAt width start)) =
      words 4 (withDigit vector lane.toNat (m'.valueAt width start))) :
    m.slice start width.bytes = m'.slice start width.bytes := by
  have hlanes : 128 / width.bits = 16 / width.bytes := by cases width <;> rfl
  have hpos : 0 < width.bits := Nat.mul_pos (by decide) width.bytes_pos
  have hvalue := withDigit_inj hpos (hlanes ▸ hlt) vector (words_inj (by decide) h)
  have hread (m : Memory) : leDigits 8 width.bytes (m.valueAt width start) =
      m.slice start width.bytes :=
    leDigits_leValue (by decide) (m.slice_length _ _) (Nat.le_refl _)
  rw [← hread m, hvalue, hread]

/-- An indexed load of a lane is exact only if the memory it reads answers as the named one. -/
theorem laneAgrees_of_exact (h : Placed frame handle kind memarg code 2)
    (hindexed : kind.indexed = true) (hlane : code[1]? = some (Instr.operand (.u32 lane)))
    (hlt : lane.toNat < 16 / width.bytes) (hsum : effective memarg o.address < 2 ^ 32)
    (hexact : SimdExact (.loadLane width) lane.toNat o handle (effective memarg o.address)
      (slotsBehindLane kind) rest s (loadLaneInternal frame kind code width
        ⟨words 4 o.vector ++ (words 1 o.address ++ rest), s⟩)) :
    LaneAgrees frame lane handle s width.bytes (effective memarg o.address) := by
  rw [loadLaneInternal_eq hlane] at hexact
  have hundefined (hselect : selectMemory frame kind code 1 ⟨rest, s⟩ =
      (.error .undefined, ⟨rest, s⟩)) : False := by
    refine hexact.ne_undefined ?_
    rw [Attempt.bind_error]
    rw [readMemoryBytes, Attempt.bind_ok (effectiveAddress_ok h.memarg_at hsum rest s)]
    exact Attempt.bind_error hselect
  cases hslot : frame.memorySlotAt lane with
  | none =>
      refine (hundefined ?_).elim
      rw [selectMemory_lane hindexed hlane, hslot]
      rfl
  | some other =>
      by_cases hkind : other.shared = kind.shared
      · refine ⟨other, hslot, hkind.trans h.shared_eq, ?_⟩
        have hselect : selectMemory frame kind code 1 ⟨rest, s⟩ = (.ok other, ⟨rest, s⟩) := by
          rw [selectMemory_lane hindexed hlane, hslot, ← hkind]
          exact memoryIdUnchecked_ok
        have hread := @readMemoryBytes_eq mems frame other kind memarg code o.address rest s
          width.bytes h.memarg_at hsum hselect
        rw [Memory.readU8Array_eq] at hread
        rw [Memory.readU8Array_eq, Memory.readU8Array_eq]
        by_cases hin : effective memarg o.address + width.bytes ≤ (s.memoryAt handle).dataSize
        · have hrun := hexact.grants hin
          by_cases hother : effective memarg o.address + width.bytes ≤ (s.memoryAt other).dataSize
          · rw [if_pos hother] at hread
            rw [Attempt.bind_ok hread,
              replacedLane_eq o.vector hlt ((s.memoryAt other).slice_length _ _)] at hrun
            have hstack := congrArg (·.2.stack) hrun
            rw [if_pos hin, if_pos hother, slice_eq_of_words hlt (List.append_cancel_right hstack)]
          · rw [if_neg hother] at hread
            rw [Attempt.bind_error hread] at hrun
            cases hrun
        · have hrefused := hexact.refuses hin
          by_cases hother : effective memarg o.address + width.bytes ≤ (s.memoryAt other).dataSize
          · rw [if_pos hother] at hread
            obtain ⟨failure, stack, -, hrun⟩ := hrefused
            rw [Attempt.bind_ok hread] at hrun
            cases hrun
          · rw [if_neg hin, if_neg hother]
      · refine (hundefined ?_).elim
        rw [selectMemory_lane hindexed hlane, hslot, memoryIdUnchecked, if_neg hkind]
        rfl

end

/-! ## Accepted instructions -/

/-- The table of the lanes: as many as a vector has, and one access to each. -/
theorem simdLaneArm_eq_some {code align laneCount : Nat} {instr : SimdInstr}
    (h : simdLaneArm code = some (align, laneCount, instr)) :
    ∃ width : AccessWidth, laneCount = 16 / width.bytes ∧
      (instr = .loadLane width ∨ instr = .storeLane width) := by
  unfold simdLaneArm at h
  split at h
  all_goals simp only [Option.some.injEq, Prod.mk.injEq, reduceCtorEq] at h
  · exact ⟨.w8, h.2.1.symm, .inl h.2.2.symm⟩
  · exact ⟨.w16, h.2.1.symm, .inl h.2.2.symm⟩
  · exact ⟨.w32, h.2.1.symm, .inl h.2.2.symm⟩
  · exact ⟨.w64, h.2.1.symm, .inl h.2.2.symm⟩
  · exact ⟨.w8, h.2.1.symm, .inr h.2.2.symm⟩
  · exact ⟨.w16, h.2.1.symm, .inr h.2.2.symm⟩
  · exact ⟨.w32, h.2.1.symm, .inr h.2.2.symm⟩
  · exact ⟨.w64, h.2.1.symm, .inr h.2.2.symm⟩

theorem simdArm_ne_lane {code align : Nat} {instr : SimdInstr}
    (h : simdArm code = some (align, instr)) (width : AccessWidth) :
    instr ≠ .loadLane width ∧ instr ≠ .storeLane width := by
  unfold simdArm at h
  split at h
  all_goals simp only [Option.some.injEq, Prod.mk.injEq, reduceCtorEq] at h
  all_goals
    obtain ⟨-, rfl⟩ := h
    exact ⟨nofun, nofun⟩

theorem validateLane_eq_ok {code : Nat} {lane : Byte} {laneCount : Nat}
    (h : validateLane code lane laneCount = .ok ()) : lane.toNat < laneCount := by
  by_cases hle : laneCount ≤ lane.toNat
  · rw [validateLane, if_pos hle] at h
    cases h
  · exact Nat.not_le.mp hle

theorem parseSimdArm_exact {R : Type} [BinaryReader R] {mems : List MemType} {align len : Nat}
    {instr : SimdInstr} {reader reader' : R} {e : Emitted SimdOp} (lane : Nat)
    (hlane : ∀ width, instr ≠ .loadLane width ∧ instr ≠ .storeLane width)
    (hparse : parseSimdArm mems align instr reader = .ok (len, e, reader'))
    (frame : CurrentFrame mems) :
    e.op.instr = instr ∧ ∃ handle, frame.memorySlotAt e.memidx = some handle ∧
      ∀ (o : SimdOperands) (following : List (Instr SimdOp)) (rest : List U32) (s : Store),
        SimdExact instr lane o handle (effective e.memarg o.address) e.operands.length rest s
          (simdHandler frame e.op (e.slots ++ following) ⟨instr.operandWords o ++ rest, s⟩) := by
  obtain ⟨⟨len, memidx, memarg, reader⟩, -, hparse⟩ := bind_eq_ok.mp hparse
  obtain ⟨emitted, hpush, hparse⟩ := bind_eq_ok.mp hparse
  obtain ⟨-, rfl, -⟩ := Prod.mk.inj (pure_eq_ok.mp hparse) |>.imp_right Prod.mk.inj
  obtain ⟨handle, kind, hop, hmemidx, hmemarg, hhandle, hlen, hplaced⟩ :=
    pushMemargInstruction_placed frame hpush
  rw [hop, hmemidx, hmemarg, hlen]
  refine ⟨rfl, handle, hhandle, fun o following rest s => ?_⟩
  have h := hplaced following
  cases instr with
  | load => exact opV128Load_exact lane h
  | loadExtend width signed =>
      exact loadInternal_exact lane (fun _ _ => rfl) (fun _ _ => rfl) (by decide : 0 < 8) h
  | loadSplat width | loadZero width =>
      exact loadInternal_exact lane (fun _ _ => rfl) (fun _ _ => rfl) width.bytes_pos h
  | store =>
      rw [SimdInstr.operandWords, List.append_assoc]
      exact v128Store_exact lane h
  | loadLane width => exact absurd rfl (hlane width).1
  | storeLane width => exact absurd rfl (hlane width).2

/-- A store of a lane is exact, and a load of one where the memory that it finds agrees. -/
theorem parseSimdLaneArm_exact_iff {R : Type} [BinaryReader R] {mems : List MemType}
    {code align laneCount len : Nat} {instr : SimdInstr} {reader reader' : R} {e : Emitted SimdOp}
    {lane : Byte} {width : AccessWidth} (hcount : laneCount = 16 / width.bytes)
    (hinstr : instr = .loadLane width ∨ instr = .storeLane width)
    (hparse : parseSimdLaneArm mems code align laneCount instr reader =
      .ok (len, e, lane, reader')) (frame : CurrentFrame mems) :
    e.op.instr = instr ∧ ∃ handle, frame.memorySlotAt e.memidx = some handle ∧
      ∀ (o : SimdOperands) (following : List (Instr SimdOp)) (rest : List U32) (s : Store),
        SimdExact instr lane.toNat o handle (effective e.memarg o.address) e.operands.length rest s
            (simdHandler frame e.op (e.slots ++ following) ⟨instr.operandWords o ++ rest, s⟩) ↔
          (instr = .loadLane width → e.memidx ≠ 0 → effective e.memarg o.address < 2 ^ 32 →
            LaneAgrees frame (lane.setWidth 32) handle s width.bytes
              (effective e.memarg o.address)) := by
  obtain ⟨⟨len, memidx, memarg, reader⟩, -, hparse⟩ := bind_eq_ok.mp hparse
  obtain ⟨⟨len2, byte, reader⟩, -, hparse⟩ := bind_eq_ok.mp hparse
  obtain ⟨_, hvalid, hparse⟩ := bind_eq_ok.mp hparse
  obtain ⟨emitted, hpush, hparse⟩ := bind_eq_ok.mp hparse
  obtain ⟨-, rfl, rfl, -⟩ := pure_eq_ok.mp hparse
  obtain ⟨handle, kind, hop, hmemidx, hmemarg, hhandle, hindexed, hlen, hplaced⟩ :=
    pushMemargLaneInstruction_placed frame hpush
  rw [hop, hmemidx, hmemarg, hlen]
  refine ⟨rfl, handle, hhandle, fun o following rest s => ?_⟩
  obtain ⟨h, hlane⟩ := hplaced following
  have hnat : (lane.setWidth 32).toNat = lane.toNat := by
    have hbyte := lane.isLt
    rw [BitVec.toNat_setWidth, Nat.mod_eq_of_lt (by omega)]
  have hlt : (lane.setWidth 32).toNat < 16 / width.bytes := by
    rw [hnat, ← hcount]
    exact validateLane_eq_ok hvalid
  rw [← hnat]
  rcases hinstr with rfl | rfl
  · rw [SimdInstr.operandWords, List.append_assoc]
    cases hkind : kind.indexed with
    | false =>
        -- the memory index is zero, and the memory the one at hand
        have hzero : memidx = 0 := by
          rw [hkind] at hindexed
          simpa using hindexed.symm
        have hselect := h.selectMemory ⟨rest, s⟩
        rw [selectMemory, hkind] at hselect
        have hexact := @loadLaneInternal_exact mems frame handle kind memarg _ o rest s _ width
          h.memarg_at hlane hlt fun _ => ⟨handle, by rw [selectMemory, hkind]; exact hselect, rfl⟩
        rw [slotsBehindLane, hkind] at hexact
        exact iff_of_true hexact fun _ hne => absurd hzero hne
    | true =>
        have hne : memidx ≠ 0 := by
          rw [hkind] at hindexed
          simpa using hindexed.symm
        constructor
        · intro hexact _ _ hsum
          refine @laneAgrees_of_exact mems frame handle kind memarg _ o rest s _ width h hkind hlane
            hlt hsum ?_
          rw [slotsBehindLane, hkind]
          exact hexact
        · intro hagrees
          have hexact := @loadLaneInternal_exact mems frame handle kind memarg _ o rest s _ width
            h.memarg_at hlane hlt fun hsum => by
              obtain ⟨other, hslot, hshared, hread⟩ := hagrees rfl hne hsum
              refine ⟨other, ?_, hread⟩
              rw [selectMemory_lane hkind hlane, hslot, h.shared_eq, ← hshared]
              exact memoryIdUnchecked_ok
          rw [slotsBehindLane, hkind] at hexact
          exact hexact
  · rw [SimdInstr.operandWords, List.append_assoc]
    refine iff_of_true (storeLaneInternal_exact h hlane hlt) fun hload => ?_
    cases hload

/-- Every accepted instruction does what it should on the memory that it was given, unless it is a
load of a lane that looks for its memory at the number of the lane. -/
theorem simd_exact_iff {R : Type} [BinaryReader R] {mems : List MemType} {code len : Nat}
    {reader reader' : R} {e : Emitted SimdOp} {lane : Byte}
    (hparse : parseSimdMemory mems code reader = some (.ok (len, e, lane, reader')))
    (frame : CurrentFrame mems) :
    ∃ handle, frame.memorySlotAt e.memidx = some handle ∧
      ∀ (o : SimdOperands) (following : List (Instr SimdOp)) (rest : List U32) (s : Store),
        SimdExact e.op.instr lane.toNat o handle (effective e.memarg o.address) e.operands.length
            rest s (simdHandler frame e.op (e.slots ++ following)
              ⟨e.op.instr.operandWords o ++ rest, s⟩) ↔
          ∀ width, e.op.instr = .loadLane width → e.memidx ≠ 0 →
            effective e.memarg o.address < 2 ^ 32 → LaneAgrees frame (lane.setWidth 32) handle s
              width.bytes (effective e.memarg o.address) := by
  rw [parseSimdMemory] at hparse
  split at hparse
  next align instr harm =>
    obtain ⟨⟨len, emitted, reader⟩, harm', hparse⟩ := bind_eq_ok.mp (Option.some.inj hparse)
    obtain ⟨-, rfl, rfl, -⟩ := pure_eq_ok.mp hparse
    have hlane := simdArm_ne_lane harm
    obtain ⟨hop, handle, hhandle, hexact⟩ := parseSimdArm_exact (0 : Byte).toNat hlane harm' frame
    rw [hop]
    refine ⟨handle, hhandle, fun o following rest s => ?_⟩
    exact iff_of_true (hexact o following rest s) fun width h => absurd h (hlane width).1
  next =>
    obtain ⟨⟨align, laneCount, instr⟩, harm, hparse⟩ := Option.map_eq_some_iff.mp hparse
    obtain ⟨width, hcount, hinstr⟩ := simdLaneArm_eq_some harm
    obtain ⟨hop, handle, hhandle, hexact⟩ :=
      parseSimdLaneArm_exact_iff hcount hinstr hparse frame
    rw [hop]
    refine ⟨handle, hhandle, fun o following rest s => (hexact o following rest s).trans ?_⟩
    constructor
    · intro h other hother
      rcases hinstr with rfl | rfl
      · obtain rfl := SimdInstr.loadLane.inj hother
        exact h rfl
      · cases hother
    · exact fun h => h width

theorem twoLocals_memory0 : (some ⟨false, 0⟩ : InstanceMemorySlot) =
    [some ⟨false, 0⟩, some ⟨false, 1⟩].head?.join := rfl

theorem twoLocals_kinds : List.Forall₂
    (fun (slot : InstanceMemorySlot) (ty : MemType) => slot.map MemoryHandle.shared = some ty.shared)
    [some ⟨false, 0⟩, some ⟨false, 1⟩] [⟨false⟩, ⟨false⟩] := by simp

def twoLocals : CurrentFrame [⟨false⟩, ⟨false⟩] :=
  ⟨[some ⟨false, 0⟩, some ⟨false, 1⟩], some ⟨false, 0⟩, twoLocals_memory0, twoLocals_kinds⟩

def numberedStore : Store :=
  ⟨fun id => ⟨1, fun _ => BitVec.ofNat 8 id, one_le_pageSizeMax⟩,
    fun id => ⟨⟨1, fun _ => BitVec.ofNat 8 id, one_le_pageSizeMax⟩, fun _ => [], 0⟩⟩

/-- `v128.store32_lane` of the last lane to the second memory. -/
theorem simd_exact_iff_store32Lane :
    ∃ handle, twoLocals.memorySlotAt 1 = some handle ∧
      ∀ (o : SimdOperands) (following : List (Instr SimdOp)) (rest : List U32) (s : Store),
        SimdExact (.storeLane .w32) (3 : Byte).toNat o handle (effective ⟨2, 0⟩ o.address) 3 rest s
            (simdHandler twoLocals ⟨.storeLane .w32, ⟨false, true⟩⟩
              ([Instr.operand (.memarg ⟨2, 0⟩), .operand (.u32 3), .operand (.u32 1)] ++ following)
              ⟨(SimdInstr.storeLane .w32).operandWords o ++ rest, s⟩) ↔
          ∀ width, SimdInstr.storeLane .w32 = .loadLane width → (1 : U32) ≠ 0 →
            effective ⟨2, 0⟩ o.address < 2 ^ 32 → LaneAgrees twoLocals ((3 : Byte).setWidth 32)
              handle s width.bytes (effective ⟨2, 0⟩ o.address) :=
  @simd_exact_iff (List U32) _ [⟨false⟩, ⟨false⟩] 90 4 [0x42, 1, 0, 3] []
    ⟨1, ⟨2, 0⟩, ⟨.storeLane .w32, ⟨false, true⟩⟩, [.memarg ⟨2, 0⟩, .u32 3, .u32 1]⟩ 3 rfl twoLocals

/-- `v128.load8_lane` of the first lane from the second memory reads the first memory. -/
theorem load8Lane_reads_first_memory :
    parseSimdMemory [⟨false⟩, ⟨false⟩] 84 [(0x40 : U32), 1, 0, 0] =
        some (.ok (4, ⟨1, ⟨0, 0⟩, ⟨.loadLane .w8, ⟨false, true⟩⟩,
          [.memarg ⟨0, 0⟩, .u32 0, .u32 1]⟩, 0, [])) ∧
      ¬SimdExact (.loadLane .w8) 0 ⟨0, 0⟩ ⟨false, 1⟩ 0 3 [] numberedStore
        (simdHandler twoLocals ⟨.loadLane .w8, ⟨false, true⟩⟩
          [.operand (.memarg ⟨0, 0⟩), .operand (.u32 0), .operand (.u32 1)]
          ⟨[0, 0, 0, 0, 0], numberedStore⟩) := by
  refine ⟨rfl, fun hexact => ?_⟩
  have hplaced : Placed twoLocals ⟨false, 1⟩ ⟨false, true⟩ ⟨0, 0⟩
      ([.operand (.memarg ⟨0, 0⟩), .operand (.u32 0), .operand (.u32 1)] : List (Instr SimdOp)) 2 :=
    ⟨⟨1, rfl, rfl, fun _ => rfl⟩, rfl⟩
  obtain ⟨other, hslot, -, hread⟩ := @laneAgrees_of_exact _ twoLocals ⟨false, 1⟩ ⟨false, true⟩ ⟨0, 0⟩
    _ ⟨0, 0⟩ [] numberedStore 0 .w8 hplaced rfl rfl (by decide) (by decide) hexact
  obtain rfl : ⟨false, 0⟩ = other := Option.some.inj hslot
  rw [Memory.readU8Array_eq, Memory.readU8Array_eq, if_pos (by decide), if_pos (by decide)] at hread
  exact absurd (Except.ok.inj hread) (by decide)

end Telomere.MemoryOps
