import Telomere.Lib.Abort
import Telomere.Lib.Except
import Telomere.Parser.Module

/-!
# The store

Objects live in one list per kind and are named by their position there. A reference held in a
table or a global is the raw 32-bit object reference of the source, a function address with its
kind tag; every other address is kept as the bare position.
-/

namespace Telomere.Runtime

/-- The `VMResult` failures instantiation can return; `panic` stands for a Rust panic. -/
inductive Failure where
  | unlinkable
  | memoryAllocationFailed
  | memoryIndexOutOfRange
  | tableIndexOutOfRange
  | invalidOperand
  | panic
deriving DecidableEq, Repr

structure ModuleInstance where
  functionTypes : List FuncType
  functions : List Nat
  exports : List Export
  tables : List TableType
  globals : List GlobalType
  mems : List MemType
deriving DecidableEq, Repr

inductive Kind where
  | func | table | mem | global
deriving DecidableEq, Repr

/-- The addresses an instance has for each of its index spaces. -/
structure Spaces where
  funcs : List Nat
  tables : List Nat
  mems : List Nat
  globals : List Nat
deriving DecidableEq, Repr

def Spaces.get (sp : Spaces) : Kind → List Nat
  | .func => sp.funcs
  | .table => sp.tables
  | .mem => sp.mems
  | .global => sp.globals

def Spaces.push (sp : Spaces) (addr : Nat) : Kind → Spaces
  | .func => { sp with funcs := sp.funcs ++ [addr] }
  | .table => { sp with tables := sp.tables ++ [addr] }
  | .mem => { sp with mems := sp.mems ++ [addr] }
  | .global => { sp with globals := sp.globals ++ [addr] }

def Spaces.empty : Spaces := ⟨[], [], [], []⟩

theorem Spaces.get_push (sp : Spaces) (addr : Nat) (pushed kind : Kind) :
    (sp.push addr pushed).get kind = sp.get kind ++ if pushed = kind then [addr] else [] := by
  cases pushed <;> cases kind <;> simp [push, get]

structure InstanceData extends Spaces where
  instanceId : Nat
  moduleAddr : Nat
deriving DecidableEq, Repr

structure FunctionInstance where
  inst : Nat
  body : Nat
  funcidx : Nat
deriving DecidableEq, Repr

structure TableInstance where
  type : TableType
  entries : List Nat
deriving DecidableEq, Repr

abbrev Byte := BitVec 8

/-- The limits a memory was declared with are kept beside it; the source keeps only `maxPages`,
and nothing here reads them. -/
structure MemoryObject where
  declared : Limits
  shared : Bool
  pages : Nat
  maxPages : Nat
  bytes : Nat → Byte

def pageSize : Nat := 65536

def MemoryObject.dataSize (m : MemoryObject) : Nat := m.pages * pageSize

/-- Segments are keyed by the id of their instance and their index in it. -/
structure Store where
  maxMemoryPages : Nat
  nextInstanceId : Nat
  modules : List ModuleInstance
  instances : List InstanceData
  funcs : List FunctionInstance
  tables : List TableInstance
  globals : List (List Byte)
  memories : List MemoryObject
  data : Nat × Nat → Option Data
  elems : Nat × Nat → Option Elem

def Store.empty (maxMemoryPages : Nat) : Store :=
  ⟨maxMemoryPages, 0, [], [], [], [], [], [], fun _ => none, fun _ => none⟩

/-- Slice indexing, which panics out of range. -/
def index {α : Type} (xs : List α) (idx : Nat) : Except Failure α :=
  match xs[idx]? with
  | some x => .ok x
  | none => .error .panic

theorem index_eq_ok {α : Type} {xs : List α} {idx : Nat} {x : α} :
    index xs idx = .ok x ↔ xs[idx]? = some x := by
  unfold index
  split <;> simp_all

theorem index_error {α : Type} {xs : List α} {idx : Nat} {e : Failure}
    (h : index xs idx = .error e) : e = .panic := by
  unfold index at h
  split at h
  · cases h
  · exact (Except.error.inj h).symm

/-- `slice::get` turned into a failure. -/
def getOr {α : Type} (failure : Failure) (xs : List α) (idx : Nat) : Except Failure α :=
  match xs[idx]? with
  | some x => .ok x
  | none => .error failure

theorem getOr_eq_ok {α : Type} {failure : Failure} {xs : List α} {idx : Nat} {x : α} :
    getOr failure xs idx = .ok x ↔ xs[idx]? = some x := by
  unfold getOr
  split <;> simp_all

theorem getOr_error {α : Type} {failure e : Failure} {xs : List α} {idx : Nat}
    (h : getOr failure xs idx = .error e) : e = failure := by
  unfold getOr at h
  split at h
  · cases h
  · exact (Except.error.inj h).symm

def leBytes : Nat → Nat → List Byte
  | 0, _ => []
  | n + 1, value => BitVec.ofNat 8 value :: leBytes n (value / 256)

@[simp] theorem length_leBytes (n value : Nat) : (leBytes n value).length = n := by
  induction n generalizing value with
  | zero => rfl
  | succ n ih => simp [leBytes, ih]

def fromLeBytes : List Byte → Nat
  | [] => 0
  | b :: bs => b.toNat + 256 * fromLeBytes bs

/-- `ObjectRef::get` of a function -/
def funcRef (addr : Nat) : Nat := 3 * 2 ^ 29 + (addr + 1)

def nullRef : Nat := 0

/-- Four bytes of a global read as a `u32`; any other width does not fit. -/
def globalWord (values : List (List Byte)) (globals : List Nat) (idx : Nat) :
    Except Failure Nat := do
  let addr ← getOr .unlinkable globals idx
  let buf ← index values addr
  if buf.length = 4 then .ok (fromLeBytes buf) else .error .unlinkable

def executeOffsetConstExpr (values : List (List Byte)) (globals : List Nat)
    (exprs : List ConstExpr) : Except Failure Nat :=
  match exprs with
  | [.i32 v] => .ok v.toNat
  | [.globalGet idx] => globalWord values globals idx
  | _ => .error .unlinkable

def executeElemInitConstExpr (values : List (List Byte)) (globals funcs : List Nat)
    (exprs : List ConstExpr) (expected : RefType) : Except Failure Nat :=
  match exprs with
  | [.funcRef idx] =>
      if expected ≠ .funcRef then .error .unlinkable
      else do
        let addr ← getOr .invalidOperand funcs idx
        return funcRef addr
  | [.refNull ty] => if expected ≠ ty then .error .unlinkable else .ok nullRef
  | [.globalGet idx] => globalWord values globals idx
  | _ => .error .unlinkable

/-- The bytes `init_global` puts into the new global. -/
def initBytes (values : List (List Byte)) (globals funcs : List Nat) :
    ConstExpr → Except Failure (List Byte)
  | .i32 v => .ok (leBytes 4 v.toNat)
  | .i64 v => .ok (leBytes 8 v.toNat)
  | .f32 v => .ok (leBytes 4 v.toNat)
  | .f64 v => .ok (leBytes 8 v.toNat)
  | .v128 v => .ok (leBytes 16 v.toNat)
  | .refNull _ => .ok (leBytes 4 nullRef)
  | .funcRef idx => do
      let addr ← getOr .invalidOperand funcs idx
      return leBytes 4 (funcRef addr)
  | .globalGet idx => do
      let addr ← index globals idx
      index values addr

def TableInstance.new (tt : TableType) : TableInstance :=
  ⟨tt, List.replicate tt.limits.min nullRef⟩

def MemoryObject.write (m : MemoryObject) (offset : Nat) (bytes : List Byte) : MemoryObject :=
  { m with bytes := fun pos =>
      if offset ≤ pos then bytes.getD (pos - offset) (m.bytes pos) else m.bytes pos }

/-- `Memory::write_bytes`, also the copy of an active segment -/
def MemoryObject.writeBytes (m : MemoryObject) (offset : Nat) (bytes : List Byte) :
    Except Failure MemoryObject :=
  if offset + bytes.length ≤ m.dataSize then .ok (m.write offset bytes)
  else .error .memoryIndexOutOfRange

/-- `Memory::new`; `mappable` is what the operating system answers. -/
def MemoryObject.new (mappable : Bool) (ty : MemType) (maxPageSize : Nat) :
    Except Failure MemoryObject :=
  if ty.limits.min ≤ maxPageSize ∧ mappable then
    .ok ⟨ty.limits, ty.shared, ty.limits.min, maxPageSize, fun _ => 0⟩
  else .error .memoryAllocationFailed

/-- `mem_init_bytes`; both operands are 32-bit. -/
def Store.memInitBytes (s : Store) (instanceId idx src len : Nat) :
    Except Failure (List Byte) :=
  match s.data (instanceId, idx) with
  | none => if len = 0 ∧ src = 0 then .ok [] else .error .memoryIndexOutOfRange
  | some d =>
      if src + len < 2 ^ 32 ∧ src + len ≤ d.init.length then .ok ((d.init.drop src).take len)
      else .error .memoryIndexOutOfRange

/-- The references one entry of a segment stands for: `expected` is the type of the table. -/
def elemRef (values : List (List Byte)) (globals funcs : List Nat) (expected : RefType)
    (init : ElemInit) (i : Nat) : Except Failure Nat :=
  match init with
  | .funcIdx idxs => do
      let idx ← index idxs i
      let addr ← index funcs idx
      return funcRef addr
  | .constExpr exprs => do
      let expr ← index exprs i
      executeElemInitConstExpr values globals funcs expr expected

/-- Writes `count` entries one by one; those before a failing one stay written. -/
def writeEntries (ref : Nat → Except Failure Nat) (t : TableInstance) (src dst : Nat) :
    Nat → TableInstance × Except Failure Unit
  | 0 => (t, .ok ())
  | count + 1 => Lib.andThen (writeEntries ref t src dst count) fun t _ =>
      match ref (src + count) with
      | .ok value => ({ t with entries := t.entries.set (dst + count) value }, .ok ())
      | .error failure => (t, .error failure)

/-- Replaces the table at an address by what `f` makes of it. -/
def updateTable (tables : List TableInstance) (addr : Nat)
    (f : TableInstance → TableInstance × Except Failure Unit) :
    List TableInstance × Except Failure Unit :=
  match tables[addr]? with
  | none => (tables, .error .panic)
  | some t => (tables.set addr (f t).1, (f t).2)

def Store.withTables (s : Store) (r : List TableInstance × Except Failure Unit) :
    Store × Except Failure Unit :=
  ({ s with tables := r.1 }, r.2)

/-- `table_init_impl`: the destination is checked before the segment. -/
def Store.tableInit (s : Store) (inst : InstanceData) (elemIdx tableIdx dst src len : Nat) :
    Store × Except Failure Unit :=
  match inst.tables[tableIdx]? with
  | none => (s, .error .panic)
  | some addr => s.withTables <| updateTable s.tables addr fun t =>
      if t.entries.length < dst + len then (t, .error .tableIndexOutOfRange)
      else match s.elems (inst.instanceId, elemIdx) with
        | none => (t, if len = 0 ∧ src = 0 then .ok () else .error .tableIndexOutOfRange)
        | some elem =>
            if elem.init.length < src + len then (t, .error .tableIndexOutOfRange)
            else writeEntries (elemRef s.globals inst.globals inst.funcs t.type.reftype elem.init)
              t src dst len

def Store.dataDrop (s : Store) (instanceId idx : Nat) : Store :=
  { s with data := Function.update s.data (instanceId, idx) none }

def Store.elemDrop (s : Store) (instanceId idx : Nat) : Store :=
  { s with elems := Function.update s.elems (instanceId, idx) none }

end Telomere.Runtime
