import Telomere.Optimizer.BitStep

/-!
# Constant addresses

An `i32.const` under a load or a store is added to the access's static offset: by three families
of instruction selection, by the blocks that versioning specializes for an edge that passes a
constant, and in the key under which redundant loads are cached.
-/

namespace Telomere.Optimizer

open Vm

inductive ScalarType where
  | i32 | i64 | f32 | f64
deriving DecidableEq, Repr

def ScalarType.width : ScalarType → Nat
  | .i32 | .f32 => 4
  | .i64 | .f64 => 8

structure MemoryDesc where
  generic : Op
  scalar : ScalarType
  constBase : Op
deriving DecidableEq, Repr

/-- The rows of `MEMORY_LOAD_DESCS` with a const-base handler; the other rows have none. -/
def memoryLoadDescs : List MemoryDesc :=
  [⟨.opI32Load, .i32, .opI32LoadConstBase⟩, ⟨.opI64Load, .i64, .opI64LoadConstBase⟩,
    ⟨.opF32Load, .f32, .opF32LoadConstBase⟩, ⟨.opF64Load, .f64, .opF64LoadConstBase⟩]

/-- The rows of `MEMORY_STORE_DESCS` with a const-base handler; the other rows have none. -/
def memoryStoreDescs : List MemoryDesc :=
  [⟨.opI32Store, .i32, .opI32StoreConstBaseLocal4⟩,
    ⟨.opI64Store, .i64, .opI64StoreConstBaseLocal8⟩,
    ⟨.opF32Store, .f32, .opF32StoreConstBaseLocal4⟩,
    ⟨.opF64Store, .f64, .opF64StoreConstBaseLocal8⟩]

def scalarTypeFromValType : ValType → Option ScalarType
  | .i32 => some .i32
  | .i64 => some .i64
  | .f32 => some .f32
  | .f64 => some .f64
  | .v128 | .funcRef | .externRef => none

/-- `scalar_const_base_load_family`, `scalar_const_base_store_family` -/
def descFor (descs : List MemoryDesc) (op : Op) : Option MemoryDesc :=
  descs.find? fun desc => desc.generic = op

/-- `scalar_const_base_load_family_for_type`, `scalar_const_base_store_family_for_type` -/
def descForType (descs : List MemoryDesc) (op : Op) (scalar : ScalarType) : Option MemoryDesc :=
  descs.find? fun desc => desc.scalar = scalar && desc.generic = op

def rawMemarg : Option LoweredOperand → Option (BitVec 64)
  | some (.raw encoded) => some encoded
  | _ => none

/-- `memarg.offset.wrapping_add(base)`; the alignment stays. -/
def foldOffset (memarg : BitVec 64) (base : BitVec 32) : BitVec 64 :=
  (memargOffset memarg + base) ++ u32 memarg

/-- `fold_const_base_memarg` of the analysis and of instruction selection. -/
def foldConstBaseMemarg (base memarg : Option LoweredOperand) : Option (BitVec 64) := do
  let base ← rawI32 base
  return foldOffset (← rawMemarg memarg) base

/-- `fold_const_base_memarg` of versioning. -/
def foldBaseMemarg (base : BitVec 32) (memarg : Option LoweredOperand) : Option LoweredOperand := do
  return .raw (foldOffset (← rawMemarg memarg) base)

/-- `match_edge_const_base`: the constant that a branch to the block passes. -/
def matchEdgeConstBase (insts : List CanonInst) (target : Nat) : Option (BitVec 32) :=
  match insts.reverse with
  | branch :: konst :: _ =>
      if konst.op ≠ .opI32Const ∨ branch.op ≠ .opBr ∨ branchTarget branch ≠ some target then none
      else rawI32 konst.operands.head?
  | _ => none

/-- `rewrite_const_base_edge`: the branch goes to the specialized block without the constant. -/
def rewriteConstBaseEdge (ops : List KernelOp) (newLabel : Nat) : Option (List KernelOp) :=
  match ops.reverse with
  | branch :: konst :: front =>
      if konst.op ≠ .opI32Const ∨ branch.op ≠ .opBr then none
      else some (front.reverse ++ [⟨.opBr, [.jumpTarget newLabel]⟩])
  | _ => none

/-- The key of `match_cacheable_const_base_load`. -/
def matchCacheableConstBaseLoad (insts : List CanonInst) (cursor : Nat) : Option (BitVec 64) := do
  let base ← insts[cursor]?
  let load ← insts[cursor + 1]?
  if base.op ≠ .opI32Const ∨ load.op ≠ .opI32Load then none
  else foldConstBaseMemarg base.operands.head? load.operands.head?

def emitScalarLoadConstBase (insts : List CanonInst) (cursor : Nat) : Option MatchResult := do
  let konst ← insts[cursor]?
  let load ← insts[cursor + 1]?
  if konst.op ≠ .opI32Const then none
  else
    let scalar ← load.stackAfter.getLast?.bind scalarTypeFromValType
    let desc ← descForType memoryLoadDescs load.op scalar
    let folded ← foldConstBaseMemarg konst.operands.head? load.operands.head?
    return ⟨2, [⟨desc.constBase, [.raw folded]⟩]⟩

/-- `raw_local_get`, `raw_local_get_kernel` -/
def rawLocalGetWidth (op : Op) (operands : List LoweredOperand) (width : Nat) :
    Option LoweredOperand :=
  if width = 4 ∧ op = .opLocalGet4 ∨ width = 8 ∧ op = .opLocalGet8 then operands.head? else none

def emitScalarStoreConstBase (insts : List CanonInst) (cursor : Nat) : Option MatchResult := do
  let konst ← insts[cursor]?
  let localGet ← insts[cursor + 1]?
  let store ← insts[cursor + 2]?
  if konst.op ≠ .opI32Const then none
  else
    let scalar ← store.stackBefore.getLast?.bind scalarTypeFromValType
    let desc ← descForType memoryStoreDescs store.op scalar
    let localOperand ← rawLocalGetWidth localGet.op localGet.operands scalar.width
    let folded ← foldConstBaseMemarg konst.operands.head? store.operands.head?
    return ⟨3, [⟨desc.constBase, [.raw folded, localOperand]⟩]⟩

/-- `I32LoadConstBaseLocalGet4AddSet4Spec` -/
def emitI32LoadConstBaseLocalGet4AddSet4 (insts : List CanonInst) (cursor : Nat) :
    Option MatchResult := do
  let konst ← insts[cursor]?
  let load ← insts[cursor + 1]?
  let rhs ← insts[cursor + 2]?
  let add ← insts[cursor + 3]?
  let set ← insts[cursor + 4]?
  if konst.op ≠ .opI32Const ∨ load.op ≠ .opI32Load ∨ rhs.op ≠ .opLocalGet4 ∨
      add.op ≠ .opI32Add ∨ set.op ≠ .opLocalSet4 then none
  else
    let folded ← foldConstBaseMemarg konst.operands.head? load.operands.head?
    return ⟨5, [⟨.opI32LoadConstBaseLocalGet4I32AddSet4,
      [.raw folded, ← rhs.operands.head?, ← set.operands.head?]⟩]⟩

/-- The first four ops of a block that load, add a local and set a local, and the others. -/
def loadAddSet : List KernelOp → Option (KernelOp × KernelOp × List KernelOp)
  | _ :: rhs :: add :: set :: rest =>
      if rhs.op = .opLocalGet4 ∧ add.op = .opI32Add ∧ set.op = .opLocalSet4 then
        some (rhs, set, rest)
      else none
  | _ => none

/-- `specialize_const_base_block_ops`; its last case is never reached, since `op_i32_store` has a
const-base handler. -/
def specializeConstBaseBlockOps (ops : List KernelOp) (base : BitVec 32) :
    Option (List KernelOp) :=
  match ops with
  | [] => none
  | first :: rest =>
      if first.op = .opI32Load then do
        let folded ← foldBaseMemarg base first.operands.head?
        match loadAddSet ops with
        | some (rhs, set, rest) =>
            return ⟨.opI32LoadConstBaseLocalGet4I32AddSet4,
              [folded, ← rhs.operands.head?, ← set.operands.head?]⟩ :: rest
        | none => return ⟨.opI32LoadConstBase, [folded]⟩ :: rest
      else
        match descFor memoryLoadDescs first.op, rest with
        | some desc, rest => do
            return ⟨desc.constBase, [← foldBaseMemarg base first.operands.head?]⟩ :: rest
        | none, [] => none
        | none, store :: rest => do
            let desc ← descFor memoryStoreDescs store.op
            let src ← rawLocalGetWidth first.op first.operands desc.scalar.width
            let folded ← foldBaseMemarg base store.operands.head?
            return ⟨desc.constBase, [folded, src]⟩ :: rest

/-- `StoreBytes`; eight bytes as their lower and their upper word. -/
inductive StoreBytes where
  | write4 (value : BitVec 32)
  | write8 (low high : BitVec 32)

/-- `default_local_push_to_stack`. The upper word of eight bytes is in range only if all are. -/
def pushToStack (scalar : ScalarType) (start : Nat) (s : VmState) : Except Trap VmState := do
  let low ← s.memory.readU32At start
  if scalar.width = 4 then return s.push low
  else return (s.push low).push (← s.memory.readU32At (start + 4))

def writeBytes (m : Memory) (start : Nat) : StoreBytes → Except Trap Memory
  | .write4 value => m.writeU32At start value
  | .write8 low high => do (← m.writeU32At start low).writeU32At (start + 4) high

def popStoreBytes (scalar : ScalarType) (s : VmState) : Except Trap (StoreBytes × VmState) := do
  let (value, s) ← s.pop
  if scalar.width = 4 then return (.write4 value, s)
  else
    let (low, s) ← s.pop
    return (.write8 low value, s)

def localStoreBytes (scalar : ScalarType) (addr : BitVec 32) (s : VmState) : StoreBytes :=
  if scalar.width = 4 then .write4 (s.locals addr)
  else .write8 (s.locals addr) (s.locals (addr + 4))

def writeAt (start : Nat) (bytes : StoreBytes) (s : VmState) : Except Trap VmState := do
  return { s with memory := ← writeBytes s.memory start bytes }

/-- `op_i32_load` and the other scalar loads. -/
def load (scalar : ScalarType) (memarg : BitVec 64) (s : VmState) : Except Trap VmState := do
  let (offset, s) ← s.pop
  pushToStack scalar (← computeMemoryOffset memarg offset) s

/-- `op_i32_load_const_base` and its siblings. -/
def loadConstBase (scalar : ScalarType) (memarg : BitVec 64) (s : VmState) :
    Except Trap VmState := do
  pushToStack scalar (← computeMemoryOffset memarg 0) s

/-- `op_i32_store` and the other scalar stores. -/
def store (scalar : ScalarType) (memarg : BitVec 64) (s : VmState) : Except Trap VmState := do
  let (bytes, s) ← popStoreBytes scalar s
  let (offset, s) ← s.pop
  writeAt (← computeMemoryOffset memarg offset) bytes s

/-- `op_i32_store_const_base_local4` and its siblings. -/
def storeConstBaseLocal (scalar : ScalarType) (memarg : BitVec 64) (src : BitVec 32)
    (s : VmState) : Except Trap VmState := do
  writeAt (← computeMemoryOffset memarg 0) (localStoreBytes scalar src s) s

/-- `op_i32_load_const_base_local_get4_i32_add_set4` -/
def loadConstBaseAddSet (memarg : BitVec 64) (rhs dst : BitVec 32) (s : VmState) :
    Except Trap VmState := do
  let loaded ← s.memory.readU32At (← computeMemoryOffset memarg 0)
  return s.setLocal dst (loaded + s.locals rhs)

def operandWords (pool : ConstPool) (operands : List LoweredOperand) : Words :=
  fun index => (operands[index]?.map (operandWord pool)).getD 0

/-- One op of straight-line code; what the other ops do is up to `others`. -/
def execKernel (others : KernelOp → VmState → Except Trap VmState) (pool : ConstPool)
    (s : VmState) (op : KernelOp) : Except Trap VmState :=
  let word := operandWords pool op.operands
  match op.op with
  | .opI32Const => .ok (s.push (u32 (word 0)))
  | .opLocalGet4 => .ok (s.push (s.locals (u32 (word 0))))
  | .opLocalGet8 =>
      .ok ((s.push (s.locals (u32 (word 0)))).push (s.locals (u32 (word 0) + 4)))
  | .opI32Add => binop (· + ·) s
  | .opLocalSet4 => do
      let (value, s) ← s.pop
      return s.setLocal (u32 (word 0)) value
  | .opI32Load => load .i32 (word 0) s
  | .opI64Load => load .i64 (word 0) s
  | .opF32Load => load .f32 (word 0) s
  | .opF64Load => load .f64 (word 0) s
  | .opI32Store => store .i32 (word 0) s
  | .opI64Store => store .i64 (word 0) s
  | .opF32Store => store .f32 (word 0) s
  | .opF64Store => store .f64 (word 0) s
  | .opI32LoadConstBase => loadConstBase .i32 (word 0) s
  | .opI64LoadConstBase => loadConstBase .i64 (word 0) s
  | .opF32LoadConstBase => loadConstBase .f32 (word 0) s
  | .opF64LoadConstBase => loadConstBase .f64 (word 0) s
  | .opI32StoreConstBaseLocal4 => storeConstBaseLocal .i32 (word 0) (u32 (word 1)) s
  | .opI64StoreConstBaseLocal8 => storeConstBaseLocal .i64 (word 0) (u32 (word 1)) s
  | .opF32StoreConstBaseLocal4 => storeConstBaseLocal .f32 (word 0) (u32 (word 1)) s
  | .opF64StoreConstBaseLocal8 => storeConstBaseLocal .f64 (word 0) (u32 (word 1)) s
  | .opI32LoadConstBaseLocalGet4I32AddSet4 =>
      loadConstBaseAddSet (word 0) (u32 (word 1)) (u32 (word 2)) s
  | _ => others op s

def runKernel (others : KernelOp → VmState → Except Trap VmState) (pool : ConstPool)
    (ops : List KernelOp) (s : VmState) : Except Trap VmState :=
  ops.foldlM (execKernel others pool) s

/-- An `i32.const` and the operand of the access under it. -/
structure ConstAccess where
  base : BitVec 32
  memarg : BitVec 64

namespace ConstAccess

def sum (a : ConstAccess) : Nat :=
  (memargOffset a.memarg).toNat + a.base.toNat

def folded (a : ConstAccess) : BitVec 64 :=
  foldOffset a.memarg a.base

/-- The two instructions carry the constant and the operand of the access. -/
def IsAt (a : ConstAccess) (konst access : Option CanonInst) : Prop :=
  konst.bind (fun inst => rawI32 inst.operands.head?) = some a.base ∧
    access.bind (fun inst => rawMemarg inst.operands.head?) = some a.memarg

/-- A family of instruction selection combines the access at a cursor. -/
def Selected (a : ConstAccess) (insts : List CanonInst) (cursor : Nat) (result : MatchResult) :
    Prop :=
  a.IsAt insts[cursor]? insts[cursor + 1]? ∧
      (emitScalarLoadConstBase insts cursor = some result ∨
        emitI32LoadConstBaseLocalGet4AddSet4 insts cursor = some result) ∨
    a.IsAt insts[cursor]? insts[cursor + 2]? ∧
      emitScalarStoreConstBase insts cursor = some result

/-- The operand of the access that a block entered with an address on the stack starts with. -/
def entryMemarg : List KernelOp → Option (BitVec 64)
  | [] => none
  | first :: rest =>
      if (descFor memoryLoadDescs first.op).isSome then rawMemarg first.operands.head?
      else rest.head?.bind fun store => rawMemarg store.operands.head?

/-- The combined access does what an access at the sum does, in each of its forms. -/
structure KeepsAddress (a : ConstAccess) : Prop where
  /-- The handlers compute the same address from the folded operand, or trap alike. -/
  address : computeMemoryOffset a.folded 0 = computeMemoryOffset a.memarg a.base
  selected : ∀ insts cursor result, a.Selected insts cursor result → ∀ others pool s,
    runKernel others pool result.ops s = runKernel others pool
      (((insts.drop cursor).take result.consumed).map CanonInst.generic) s
  versioned : ∀ ops specialized, entryMemarg ops = some a.memarg →
    specializeConstBaseBlockOps ops a.base = some specialized → ∀ others pool s,
    runKernel others pool specialized s = runKernel others pool ops (s.push a.base)
  /-- Beyond the address space the combined access traps whatever the memory. -/
  traps : 2 ^ 32 ≤ a.sum → ∀ scalar s, loadConstBase scalar a.folded s =
    .error .memoryIndexOutOfRange

/-- Accesses that share a cache key or a folded offset have one effective address. -/
structure Agrees (a b : ConstAccess) : Prop where
  offset : memargOffset a.folded = memargOffset b.folded → a.sum = b.sum
  key : ∀ insts cursor insts' cursor' key, a.IsAt insts[cursor]? insts[cursor + 1]? →
    b.IsAt insts'[cursor']? insts'[cursor' + 1]? →
    matchCacheableConstBaseLoad insts cursor = some key →
    matchCacheableConstBaseLoad insts' cursor' = some key → a.sum = b.sum

end ConstAccess

theorem memargOffset_foldOffset (memarg : BitVec 64) (base : BitVec 32) :
    memargOffset (foldOffset memarg base) = memargOffset memarg + base := by
  unfold foldOffset
  generalize memargOffset memarg + base = high
  generalize u32 memarg = low
  have hbit (i : Nat) : (high ++ low).getLsbD (32 + i) = high.getLsbD i := by
    rw [BitVec.getLsbD_append]
    simp
  unfold memargOffset
  ext i hi
  simpa [BitVec.getLsbD_eq_getElem hi] using hbit i

theorem ConstAccess.folded_offset (a : ConstAccess) :
    (memargOffset a.folded).toNat = a.sum % 2 ^ 32 := by
  rw [folded, memargOffset_foldOffset, BitVec.toNat_add]
  rfl

/-- The folded operand stands for the same address exactly when the sum does not wrap. -/
theorem ConstAccess.address_iff (a : ConstAccess) :
    computeMemoryOffset a.folded 0 = computeMemoryOffset a.memarg a.base ↔ a.sum < 2 ^ 32 := by
  have hfolded : computeMemoryOffset a.folded 0 = .ok (a.sum % 2 ^ 32) := by
    have hlt : a.sum % 2 ^ 32 < 2 ^ 32 := Nat.mod_lt _ (by decide)
    rw [computeMemoryOffset, a.folded_offset]
    exact if_pos hlt
  have hunfolded : computeMemoryOffset a.memarg a.base =
      if a.sum < 2 ^ 32 then .ok a.sum else .error .memoryIndexOutOfRange := rfl
  rw [hfolded, hunfolded]
  by_cases hsum : a.sum < 2 ^ 32
  · rw [if_pos hsum, Nat.mod_eq_of_lt hsum]
    exact iff_of_true rfl hsum
  · rw [if_neg hsum]
    exact iff_of_false (fun h => nomatch h) hsum

section Families

variable {others : KernelOp → VmState → Except Trap VmState} {pool : ConstPool} {a : ConstAccess}

theorem memoryLoadDescs_exec {desc : MemoryDesc} (h : desc ∈ memoryLoadDescs)
    (operands : List LoweredOperand) (s : VmState) :
    execKernel others pool s ⟨desc.generic, operands⟩ =
        load desc.scalar (operandWords pool operands 0) s ∧
      execKernel others pool s ⟨desc.constBase, operands⟩ =
        loadConstBase desc.scalar (operandWords pool operands 0) s := by
  simp only [memoryLoadDescs, List.mem_cons, List.not_mem_nil, or_false] at h
  rcases h with rfl | rfl | rfl | rfl <;> exact ⟨rfl, rfl⟩

theorem memoryStoreDescs_exec {desc : MemoryDesc} (h : desc ∈ memoryStoreDescs)
    (operands : List LoweredOperand) (s : VmState) :
    execKernel others pool s ⟨desc.generic, operands⟩ =
        store desc.scalar (operandWords pool operands 0) s ∧
      execKernel others pool s ⟨desc.constBase, operands⟩ =
        storeConstBaseLocal desc.scalar (operandWords pool operands 0)
          (u32 (operandWords pool operands 1)) s := by
  simp only [memoryStoreDescs, List.mem_cons, List.not_mem_nil, or_false] at h
  rcases h with rfl | rfl | rfl | rfl <;> exact ⟨rfl, rfl⟩

theorem operandWords_head {operands : List LoweredOperand} {memarg : BitVec 64}
    (h : rawMemarg operands.head? = some memarg) : operandWords pool operands 0 = memarg := by
  unfold rawMemarg at h
  split at h
  · next encoded hhead =>
      obtain rfl := Option.some.inj h
      rw [List.head?_eq_getElem?] at hhead
      simp [operandWords, hhead, operandWord]
  · cases h

/-- A load with the constant on the stack is the load from the folded operand. -/
theorem load_push (haddress : computeMemoryOffset a.folded 0 = computeMemoryOffset a.memarg a.base)
    (scalar : ScalarType) (s : VmState) :
    load scalar a.memarg (s.push a.base) = loadConstBase scalar a.folded s := by
  rw [loadConstBase, haddress]
  rfl

/-- The local that a store's value comes from, read on to the stack and popped again. -/
theorem popStoreBytes_localGet (others : KernelOp → VmState → Except Trap VmState)
    (pool : ConstPool) {op : Op} {operands : List LoweredOperand} {width : Nat}
    {src : LoweredOperand} {scalar : ScalarType} (hwidth : scalar.width = width)
    (h : rawLocalGetWidth op operands width = some src) (s : VmState) :
    (execKernel others pool s ⟨op, operands⟩).bind (popStoreBytes scalar) =
      .ok (localStoreBytes scalar (operandU32 pool src) s, s) := by
  unfold rawLocalGetWidth at h
  split at h
  · next hop =>
      have hword : u32 (operandWords pool operands 0) = operandU32 pool src := by
        rw [List.head?_eq_getElem?] at h
        simp [operandWords, h, operandU32]
      rcases hop with ⟨hfour, rfl⟩ | ⟨height, rfl⟩
      · have hscalar : scalar.width = 4 := hwidth.trans hfour
        simp [execKernel, hword, popStoreBytes, localStoreBytes, hscalar, Except.bind, bind, pure,
          Except.pure]
      · have hscalar : scalar.width ≠ 4 := by omega
        simp [execKernel, hword, popStoreBytes, localStoreBytes, hscalar, Except.bind, bind, pure,
          Except.pure]
  · cases h

/-- A store of a local under the constant is the store of the local at the folded operand. -/
theorem store_localGet {op : Op} {operands : List LoweredOperand} {src : LoweredOperand}
    {scalar : ScalarType}
    (haddress : computeMemoryOffset a.folded 0 = computeMemoryOffset a.memarg a.base)
    (h : rawLocalGetWidth op operands scalar.width = some src) (s : VmState) :
    (execKernel others pool (s.push a.base) ⟨op, operands⟩).bind (store scalar a.memarg) =
      storeConstBaseLocal scalar a.folded (operandU32 pool src) s := by
  have hpop := popStoreBytes_localGet others pool rfl h (s.push a.base)
  have hstore : ∀ t, store scalar a.memarg t = (popStoreBytes scalar t).bind fun popped =>
      popped.2.pop.bind fun offset => (computeMemoryOffset a.memarg offset.1).bind fun start =>
        writeAt start popped.1 offset.2 := fun _ => rfl
  have hassoc : (execKernel others pool (s.push a.base) ⟨op, operands⟩).bind
      (store scalar a.memarg) = ((execKernel others pool (s.push a.base) ⟨op, operands⟩).bind
        (popStoreBytes scalar)).bind fun popped => popped.2.pop.bind fun offset =>
          (computeMemoryOffset a.memarg offset.1).bind fun start =>
            writeAt start popped.1 offset.2 := by
    cases execKernel others pool (s.push a.base) ⟨op, operands⟩ with
    | error trap => rfl
    | ok t => exact hstore t
  rw [hassoc, hpop, storeConstBaseLocal, haddress]
  rfl

theorem folded_of_isAt {konst access : CanonInst} {folded : BitVec 64}
    (hat : a.IsAt (some konst) (some access))
    (h : foldConstBaseMemarg konst.operands.head? access.operands.head? = some folded) :
    folded = a.folded := by
  obtain ⟨base, hbase, h⟩ := Option.bind_eq_some_iff.mp h
  obtain ⟨memarg, hmemarg, h⟩ := Option.bind_eq_some_iff.mp h
  obtain rfl : base = a.base := Option.some.inj (hbase.symm.trans hat.1)
  obtain rfl : memarg = a.memarg := Option.some.inj (hmemarg.symm.trans hat.2)
  exact (Option.some.inj h).symm

theorem execKernel_const {konst : CanonInst} {access : Option CanonInst}
    (hat : a.IsAt (some konst) access) (hop : konst.op = .opI32Const) (s : VmState) :
    execKernel others pool s konst.generic = .ok (s.push a.base) := by
  obtain ⟨operand, hhead, hbase⟩ := operandU32_of_rawI32 pool hat.1
  rw [List.head?_eq_getElem?] at hhead
  simp only [execKernel, CanonInst.generic, hop, operandWords, hhead, Option.map_some,
    Option.getD_some]
  rw [← hbase]
  rfl

theorem runKernel_cons (op : KernelOp) (ops : List KernelOp) (s : VmState) :
    runKernel others pool (op :: ops) s =
      (execKernel others pool s op).bind (runKernel others pool ops) :=
  List.foldlM_cons

theorem runKernel_one (op : KernelOp) (s : VmState) :
    runKernel others pool [op] s = execKernel others pool s op := by
  rw [runKernel_cons]
  cases execKernel others pool s op <;> rfl

theorem mem_of_descForType {descs : List MemoryDesc} {op : Op} {scalar : ScalarType}
    {desc : MemoryDesc} (h : descForType descs op scalar = some desc) :
    desc ∈ descs ∧ desc.scalar = scalar ∧ desc.generic = op := by
  have hfound := List.find?_some h
  simp only [Bool.and_eq_true, decide_eq_true_eq] at hfound
  exact ⟨List.mem_of_find?_eq_some h, hfound⟩

theorem mem_of_descFor {descs : List MemoryDesc} {op : Op} {desc : MemoryDesc}
    (h : descFor descs op = some desc) : desc ∈ descs ∧ desc.generic = op :=
  ⟨List.mem_of_find?_eq_some h, by simpa using List.find?_some h⟩

variable {insts : List CanonInst} {cursor : Nat} {result : MatchResult}

theorem emitScalarLoadConstBase_run
    (haddress : computeMemoryOffset a.folded 0 = computeMemoryOffset a.memarg a.base)
    (hat : a.IsAt insts[cursor]? insts[cursor + 1]?)
    (h : emitScalarLoadConstBase insts cursor = some result) (s : VmState) :
    runKernel others pool result.ops s = runKernel others pool
      (((insts.drop cursor).take result.consumed).map CanonInst.generic) s := by
  obtain ⟨konst, hkonst, h⟩ := Option.bind_eq_some_iff.mp h
  obtain ⟨access, haccess, h⟩ := Option.bind_eq_some_iff.mp h
  obtain ⟨hop, h⟩ := Option.ite_none_left_eq_some.mp h
  obtain ⟨scalar, -, h⟩ := Option.bind_eq_some_iff.mp h
  obtain ⟨desc, hdesc, h⟩ := Option.bind_eq_some_iff.mp h
  obtain ⟨folded, hfolded, h⟩ := Option.bind_eq_some_iff.mp h
  obtain rfl := Option.some.inj h
  rw [hkonst, haccess] at hat
  obtain rfl := folded_of_isAt hat hfolded
  obtain ⟨hmem, -, hgeneric⟩ := mem_of_descForType hdesc
  have hwindow : ((insts.drop cursor).take 2).map CanonInst.generic =
      [konst.generic, ⟨desc.generic, access.operands⟩] := by
    rw [drop_take_succ hkonst, drop_take_succ haccess, hgeneric]
    rfl
  rw [hwindow, runKernel_one, runKernel_cons, execKernel_const hat (not_not.mp hop), Except.bind,
    runKernel_one, (memoryLoadDescs_exec hmem _ _).1, (memoryLoadDescs_exec hmem _ _).2,
    @operandWords_head _ _ a.memarg hat.2, load_push haddress]
  rfl

theorem runKernel_append (first second : List KernelOp) (s : VmState) :
    runKernel others pool (first ++ second) s =
      (runKernel others pool first s).bind (runKernel others pool second) :=
  List.foldlM_append

theorem operandWords_get {operands : List LoweredOperand} {operand : LoweredOperand} {i : Nat}
    (h : operands[i]? = some operand) :
    u32 (operandWords pool operands i) = operandU32 pool operand := by
  simp [operandWords, h, operandU32]

/-- A load, the addition of a local and the write of a local, with the constant on the stack. -/
theorem loadAddSet_exec
    (haddress : computeMemoryOffset a.folded 0 = computeMemoryOffset a.memarg a.base)
    {access rhs add set : List LoweredOperand} {rhsLocal dst : LoweredOperand}
    (haccess : rawMemarg access.head? = some a.memarg) (hrhs : rhs.head? = some rhsLocal)
    (hdst : set.head? = some dst) (s : VmState) :
    runKernel others pool [⟨.opI32Load, access⟩, ⟨.opLocalGet4, rhs⟩, ⟨.opI32Add, add⟩,
        ⟨.opLocalSet4, set⟩] (s.push a.base) =
      execKernel others pool s
        ⟨.opI32LoadConstBaseLocalGet4I32AddSet4, [.raw a.folded, rhsLocal, dst]⟩ := by
  rw [List.head?_eq_getElem?] at hrhs hdst
  have hload : execKernel others pool (s.push a.base) ⟨.opI32Load, access⟩ =
      loadConstBase .i32 a.folded s := by
    rw [← load_push haddress, ← @operandWords_head pool _ _ haccess]
    rfl
  have hget (s : VmState) : execKernel others pool s ⟨.opLocalGet4, rhs⟩ =
      .ok (s.push (s.locals (operandU32 pool rhsLocal))) := by
    rw [← @operandWords_get pool _ _ _ hrhs]
    rfl
  have hset (s : VmState) : execKernel others pool s ⟨.opLocalSet4, set⟩ =
      s.pop.bind fun popped => .ok (popped.2.setLocal (operandU32 pool dst) popped.1) := by
    rw [← @operandWords_get pool _ _ _ hdst]
    rfl
  have hadd (s : VmState) : execKernel others pool s ⟨.opI32Add, add⟩ = binop (· + ·) s := rfl
  have hfused : execKernel others pool s
      ⟨.opI32LoadConstBaseLocalGet4I32AddSet4, [.raw a.folded, rhsLocal, dst]⟩ =
        loadConstBaseAddSet a.folded (operandU32 pool rhsLocal) (operandU32 pool dst) s := rfl
  rw [hfused, runKernel_cons, hload, loadConstBase, loadConstBaseAddSet]
  cases computeMemoryOffset a.folded 0 with
  | error trap => rfl
  | ok start =>
      simp only [bind, Except.bind, pushToStack]
      cases s.memory.readU32At start with
      | error trap => rfl
      | ok loaded =>
          simp only [ScalarType.width, if_true, pure, Except.pure]
          rw [runKernel_cons, hget, Except.bind, runKernel_cons, hadd, VmState.push_locals,
            binop_push, Except.bind, runKernel_one, hset]
          rfl

theorem emitI32LoadConstBaseLocalGet4AddSet4_run
    (haddress : computeMemoryOffset a.folded 0 = computeMemoryOffset a.memarg a.base)
    (hat : a.IsAt insts[cursor]? insts[cursor + 1]?)
    (h : emitI32LoadConstBaseLocalGet4AddSet4 insts cursor = some result) (s : VmState) :
    runKernel others pool result.ops s = runKernel others pool
      (((insts.drop cursor).take result.consumed).map CanonInst.generic) s := by
  obtain ⟨konst, hkonst, h⟩ := Option.bind_eq_some_iff.mp h
  obtain ⟨access, haccess, h⟩ := Option.bind_eq_some_iff.mp h
  obtain ⟨rhs, hrhs, h⟩ := Option.bind_eq_some_iff.mp h
  obtain ⟨add, hadd, h⟩ := Option.bind_eq_some_iff.mp h
  obtain ⟨set, hset, h⟩ := Option.bind_eq_some_iff.mp h
  obtain ⟨hops, h⟩ := Option.ite_none_left_eq_some.mp h
  simp only [not_or, not_not] at hops
  obtain ⟨hkonstOp, haccessOp, hrhsOp, haddOp, hsetOp⟩ := hops
  obtain ⟨folded, hfolded, h⟩ := Option.bind_eq_some_iff.mp h
  obtain ⟨rhsLocal, hrhsLocal, h⟩ := Option.bind_eq_some_iff.mp h
  obtain ⟨dst, hdst, h⟩ := Option.bind_eq_some_iff.mp h
  obtain rfl := Option.some.inj h
  rw [hkonst, haccess] at hat
  obtain rfl := folded_of_isAt hat hfolded
  have hwindow : ((insts.drop cursor).take 5).map CanonInst.generic =
      [konst.generic, ⟨.opI32Load, access.operands⟩, ⟨.opLocalGet4, rhs.operands⟩,
        ⟨.opI32Add, add.operands⟩, ⟨.opLocalSet4, set.operands⟩] := by
    rw [drop_take_succ hkonst, drop_take_succ haccess, drop_take_succ hrhs, drop_take_succ hadd,
      drop_take_succ hset, ← haccessOp, ← hrhsOp, ← haddOp, ← hsetOp]
    rfl
  rw [hwindow, runKernel_one, runKernel_cons, execKernel_const hat hkonstOp, Except.bind,
    loadAddSet_exec haddress hat.2 hrhsLocal hdst]

theorem storeLocal_exec
    (haddress : computeMemoryOffset a.folded 0 = computeMemoryOffset a.memarg a.base)
    {desc : MemoryDesc} (hmem : desc ∈ memoryStoreDescs) {op : Op}
    {operands access : List LoweredOperand} {src : LoweredOperand}
    (haccess : rawMemarg access.head? = some a.memarg)
    (hsrc : rawLocalGetWidth op operands desc.scalar.width = some src) (s : VmState) :
    runKernel others pool [⟨op, operands⟩, ⟨desc.generic, access⟩] (s.push a.base) =
      execKernel others pool s ⟨desc.constBase, [.raw a.folded, src]⟩ := by
  have hstore : runKernel others pool [⟨desc.generic, access⟩] =
      store desc.scalar a.memarg := by
    funext s
    rw [runKernel_one, (memoryStoreDescs_exec hmem _ _).1, operandWords_head haccess]
  rw [runKernel_cons, hstore, store_localGet haddress hsrc, (memoryStoreDescs_exec hmem _ _).2]
  rfl

theorem emitScalarStoreConstBase_run
    (haddress : computeMemoryOffset a.folded 0 = computeMemoryOffset a.memarg a.base)
    (hat : a.IsAt insts[cursor]? insts[cursor + 2]?)
    (h : emitScalarStoreConstBase insts cursor = some result) (s : VmState) :
    runKernel others pool result.ops s = runKernel others pool
      (((insts.drop cursor).take result.consumed).map CanonInst.generic) s := by
  obtain ⟨konst, hkonst, h⟩ := Option.bind_eq_some_iff.mp h
  obtain ⟨localGet, hlocalGet, h⟩ := Option.bind_eq_some_iff.mp h
  obtain ⟨access, haccess, h⟩ := Option.bind_eq_some_iff.mp h
  obtain ⟨hop, h⟩ := Option.ite_none_left_eq_some.mp h
  obtain ⟨scalar, -, h⟩ := Option.bind_eq_some_iff.mp h
  obtain ⟨desc, hdesc, h⟩ := Option.bind_eq_some_iff.mp h
  obtain ⟨src, hsrc, h⟩ := Option.bind_eq_some_iff.mp h
  obtain ⟨folded, hfolded, h⟩ := Option.bind_eq_some_iff.mp h
  obtain rfl := Option.some.inj h
  rw [hkonst, haccess] at hat
  obtain rfl := folded_of_isAt hat hfolded
  obtain ⟨hmem, rfl, hgeneric⟩ := mem_of_descForType hdesc
  have hwindow : ((insts.drop cursor).take 3).map CanonInst.generic =
      [konst.generic, ⟨localGet.op, localGet.operands⟩, ⟨desc.generic, access.operands⟩] := by
    rw [drop_take_succ hkonst, drop_take_succ hlocalGet, drop_take_succ haccess, hgeneric]
    rfl
  rw [hwindow, runKernel_one, runKernel_cons, execKernel_const hat (not_not.mp hop), Except.bind,
    storeLocal_exec haddress hmem hat.2 hsrc]

theorem foldBaseMemarg_eq {operands : List LoweredOperand} {folded : LoweredOperand}
    (hmemarg : rawMemarg operands.head? = some a.memarg)
    (h : foldBaseMemarg a.base operands.head? = some folded) : folded = .raw a.folded := by
  obtain ⟨memarg, hfound, h⟩ := Option.bind_eq_some_iff.mp h
  obtain rfl : memarg = a.memarg := Option.some.inj (hfound.symm.trans hmemarg)
  exact (Option.some.inj h).symm

theorem loadAddSet_eq_some {ops rest : List KernelOp} {rhs set : KernelOp}
    (h : loadAddSet ops = some (rhs, set, rest)) : ∃ first add, ops =
      [first, ⟨.opLocalGet4, rhs.operands⟩, ⟨.opI32Add, add⟩, ⟨.opLocalSet4, set.operands⟩] ++
        rest := by
  unfold loadAddSet at h
  split at h
  · next first rhs' add set' rest' =>
      obtain ⟨⟨hrhs, hadd, hset⟩, h⟩ := Option.ite_none_right_eq_some.mp h
      simp only [Option.some.injEq, Prod.mk.injEq] at h
      obtain ⟨rfl, rfl, rfl⟩ := h
      exact ⟨first, add.operands, by simp [← hrhs, ← hadd, ← hset]⟩
  · cases h

/-- A block entered with the constant on the stack, and its specialization without it. -/
theorem specializeConstBaseBlockOps_run
    (haddress : computeMemoryOffset a.folded 0 = computeMemoryOffset a.memarg a.base)
    {ops specialized : List KernelOp} (hentry : ConstAccess.entryMemarg ops = some a.memarg)
    (h : specializeConstBaseBlockOps ops a.base = some specialized) (s : VmState) :
    runKernel others pool specialized s = runKernel others pool ops (s.push a.base) := by
  rcases ops with _ | ⟨first, rest⟩
  · cases h
  simp only [specializeConstBaseBlockOps] at h
  simp only [ConstAccess.entryMemarg] at hentry
  split at h
  · next hload =>
      have hisLoad : (descFor memoryLoadDescs first.op).isSome = true := by
        rw [hload]
        rfl
      rw [if_pos hisLoad] at hentry
      obtain ⟨folded, hfolded, h⟩ := Option.bind_eq_some_iff.mp h
      obtain rfl := foldBaseMemarg_eq hentry hfolded
      split at h
      · next rhs set tail hfused =>
          obtain ⟨rhsLocal, hrhs, h⟩ := Option.bind_eq_some_iff.mp h
          obtain ⟨dst, hdst, h⟩ := Option.bind_eq_some_iff.mp h
          obtain rfl := Option.some.inj h
          obtain ⟨_, add, hops⟩ := loadAddSet_eq_some hfused
          obtain ⟨rfl, rfl⟩ := List.cons.inj hops
          have hfirst : first = ⟨.opI32Load, first.operands⟩ := by
            rw [← hload]
          rw [hops, runKernel_append, hfirst, loadAddSet_exec haddress hentry hrhs hdst,
            runKernel_cons]
      · obtain rfl := Option.some.inj h
        have hexec : execKernel others pool (s.push a.base) first =
            execKernel others pool s ⟨.opI32LoadConstBase, [.raw a.folded]⟩ := by
          have hfirst : first = ⟨.opI32Load, first.operands⟩ := by
            rw [← hload]
          rw [hfirst]
          change load .i32 (operandWords pool first.operands 0) (s.push a.base) = _
          rw [operandWords_head hentry, load_push haddress]
          rfl
        rw [runKernel_cons, runKernel_cons, hexec]
  · split at h
    · next desc hdesc =>
        rw [hdesc] at hentry
        obtain ⟨folded, hfolded, h⟩ := Option.bind_eq_some_iff.mp h
        obtain rfl := Option.some.inj h
        obtain rfl := foldBaseMemarg_eq hentry hfolded
        obtain ⟨hmem, hgeneric⟩ := mem_of_descFor hdesc
        have hexec : execKernel others pool (s.push a.base) first =
            execKernel others pool s ⟨desc.constBase, [.raw a.folded]⟩ := by
          have hfirst : first = ⟨desc.generic, first.operands⟩ := by
            rw [hgeneric]
          rw [hfirst, (memoryLoadDescs_exec hmem _ _).1, (memoryLoadDescs_exec hmem _ _).2,
            operandWords_head hentry, load_push haddress]
          rfl
        rw [runKernel_cons, runKernel_cons, hexec]
    · cases h
    · next access tail hnone =>
        rw [hnone] at hentry
        obtain ⟨desc, hdesc, h⟩ := Option.bind_eq_some_iff.mp h
        obtain ⟨src, hsrc, h⟩ := Option.bind_eq_some_iff.mp h
        obtain ⟨folded, hfolded, h⟩ := Option.bind_eq_some_iff.mp h
        obtain rfl := Option.some.inj h
        have hmemarg : rawMemarg access.operands.head? = some a.memarg := hentry
        obtain rfl := foldBaseMemarg_eq hmemarg hfolded
        obtain ⟨hmem, hgeneric⟩ := mem_of_descFor hdesc
        have hops : first :: access :: tail =
            [⟨first.op, first.operands⟩, ⟨desc.generic, access.operands⟩] ++ tail := by
          rw [hgeneric]
          rfl
        rw [hops, runKernel_append, storeLocal_exec haddress hmem hmemarg hsrc, runKernel_cons]

/-- An edge that passes a constant, with the constant and the branch selected as they are: the
rewritten block and the specialized one do what the two blocks did. -/
theorem rewriteConstBaseEdge_run
    (haddress : computeMemoryOffset a.folded 0 = computeMemoryOffset a.memarg a.base)
    {insts : List CanonInst} {front ops specialized : List KernelOp} {target newLabel : Nat}
    (hedge : matchEdgeConstBase insts target = some a.base)
    (hentry : ConstAccess.entryMemarg ops = some a.memarg)
    (h : specializeConstBaseBlockOps ops a.base = some specialized) :
    ∃ konst branch, (insts.drop (insts.length - 2)).map CanonInst.generic = [konst, branch] ∧
      rewriteConstBaseEdge (front ++ [konst, branch]) newLabel =
        some (front ++ [⟨.opBr, [.jumpTarget newLabel]⟩]) ∧
      ∀ s, (runKernel others pool front s).bind (runKernel others pool specialized) =
        (runKernel others pool (front ++ [konst]) s).bind (runKernel others pool ops) := by
  unfold matchEdgeConstBase at hedge
  split at hedge
  · next branch konst rest hreverse =>
      obtain ⟨hops, hraw⟩ := Option.ite_none_left_eq_some.mp hedge
      simp only [not_or, not_not] at hops
      obtain ⟨hkonst, hbranch, -⟩ := hops
      have hinsts : insts = rest.reverse ++ [konst, branch] := by
        rw [← List.reverse_reverse insts, hreverse]
        simp
      refine ⟨konst.generic, branch.generic, ?_, ?_, fun s => ?_⟩
      · rw [hinsts]
        simp
      · simp [rewriteConstBaseEdge, CanonInst.generic, hkonst, hbranch]
      · have hat : (⟨a.base, 0⟩ : ConstAccess).IsAt (some konst)
            (some ⟨.opI32Load, [.raw 0], [], []⟩) := ⟨hraw, rfl⟩
        rw [runKernel_append]
        cases runKernel others pool front s with
        | error trap => rfl
        | ok s =>
            simp only [Except.bind]
            rw [runKernel_one, execKernel_const hat hkonst]
            exact specializeConstBaseBlockOps_run haddress hentry h s
  · cases hedge

end Families

/-! ## Exactness -/

theorem ConstAccess.keepsAddress {a : ConstAccess} (hsum : a.sum < 2 ^ 32) : a.KeepsAddress where
  address := a.address_iff.mpr hsum
  selected insts cursor result hselected others pool s := by
    have haddress := a.address_iff.mpr hsum
    rcases hselected with ⟨hat, hload | hfused⟩ | ⟨hat, hstore⟩
    · exact emitScalarLoadConstBase_run haddress hat hload s
    · exact emitI32LoadConstBaseLocalGet4AddSet4_run haddress hat hfused s
    · exact emitScalarStoreConstBase_run haddress hat hstore s
  versioned ops specialized hentry h others pool s :=
    specializeConstBaseBlockOps_run (a.address_iff.mpr hsum) hentry h s
  traps hover := absurd hsum (by omega)

theorem key_of_isAt {a : ConstAccess} {insts : List CanonInst} {cursor : Nat} {key : BitVec 64}
    (hat : a.IsAt insts[cursor]? insts[cursor + 1]?)
    (h : matchCacheableConstBaseLoad insts cursor = some key) : key = a.folded := by
  obtain ⟨konst, hkonst, h⟩ := Option.bind_eq_some_iff.mp h
  obtain ⟨access, haccess, h⟩ := Option.bind_eq_some_iff.mp h
  obtain ⟨-, h⟩ := Option.ite_none_left_eq_some.mp h
  rw [hkonst, haccess] at hat
  exact folded_of_isAt hat h

theorem ConstAccess.agrees {a b : ConstAccess} (ha : a.sum < 2 ^ 32) (hb : b.sum < 2 ^ 32) :
    a.Agrees b := by
  have hoffset : memargOffset a.folded = memargOffset b.folded → a.sum = b.sum := by
    intro h
    have hmod := congrArg BitVec.toNat h
    rwa [a.folded_offset, b.folded_offset, Nat.mod_eq_of_lt ha, Nat.mod_eq_of_lt hb] at hmod
  refine ⟨hoffset, fun insts cursor insts' cursor' key hat hat' hkey hkey' => hoffset ?_⟩
  rw [← key_of_isAt hat hkey, ← key_of_isAt hat' hkey']

/-- Combined accesses keep their addresses apart and their traps if and only if no sum leaves the
address space. -/
theorem constBase_exact_iff (a b : ConstAccess) :
    a.KeepsAddress ∧ b.KeepsAddress ∧ a.Agrees b ↔ a.sum < 2 ^ 32 ∧ b.sum < 2 ^ 32 := by
  constructor
  · intro ⟨ha, hb, _⟩
    exact ⟨a.address_iff.mp ha.address, b.address_iff.mp hb.address⟩
  · intro ⟨ha, hb⟩
    exact ⟨ConstAccess.keepsAddress ha, ConstAccess.keepsAddress hb, ConstAccess.agrees ha hb⟩

/-- `i32.const -4; i32.load offset=8` -/
def negativeBaseLoad : List CanonInst :=
  [⟨.opI32Const, [.raw 0xfffffffc], [], [.i32]⟩, ⟨.opI32Load, [.raw 0x800000002], [.i32], [.i32]⟩]

/-- The load at `2 ^ 32 + 4` traps; the combined load reads address 4, and so does the one of
address 4 that it shares its cache key with. -/
theorem negativeBaseLoad_folded :
    ∃ result others s,
      emitScalarLoadConstBase negativeBaseLoad 0 = some result ∧
      (runKernel others [] result.ops s).map VmState.stack = .ok [7] ∧
      (runKernel others [] (negativeBaseLoad.map CanonInst.generic) s).map VmState.stack =
        .error .memoryIndexOutOfRange ∧
      matchCacheableConstBaseLoad negativeBaseLoad 0 = some 0x400000002 ∧
      matchCacheableConstBaseLoad
        [⟨.opI32Const, [.raw 4], [], [.i32]⟩, ⟨.opI32Load, [.raw 2], [.i32], [.i32]⟩] 0 =
        some 0x400000002 := by
  let memory : Memory := ⟨65536, fun i => if i = 4 then 7 else 0⟩
  refine ⟨_, fun _ _ => .error .invalidOperand, ⟨fun _ => 0, memory, []⟩, rfl, ?_⟩
  decide +kernel

end Telomere.Optimizer
