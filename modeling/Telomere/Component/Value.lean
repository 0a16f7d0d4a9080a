import Telomere.Component.Flatten
import Telomere.Lib.State

/-!
# Values and the guest

Component values, core values, and what a canonical function reaches of the guest: its memory and
its `realloc`. The guest is free to do anything in `realloc`; its own state is `σ`. Pointers are
32-bit and arithmetic on them wraps.
-/

namespace Telomere.Component

abbrev Byte := BitVec 8

/-- Floats are their bits. -/
inductive WasmValue where
  | i32 (v : BitVec 32)
  | i64 (v : BitVec 64)
  | f32 (bits : BitVec 32)
  | f64 (bits : BitVec 64)
  | funcRef (v : BitVec 32)
  | externRef (v : BitVec 32)
  | v128 (v : BitVec 128)
deriving DecidableEq, Repr

def WasmValue.ty : WasmValue → CoreValType
  | .i32 _ => .i32
  | .i64 _ => .i64
  | .f32 _ => .f32
  | .f64 _ => .f64
  | .funcRef _ => .funcRef
  | .externRef _ => .externRef
  | .v128 _ => .v128

/-- Integers are two's complement; `i32` and `i64` are the core integers. -/
inductive ComponentValue where
  | bool (v : Bool)
  | u8 (v : BitVec 8)
  | s8 (v : BitVec 8)
  | u16 (v : BitVec 16)
  | s16 (v : BitVec 16)
  | u32 (v : BitVec 32)
  | s32 (v : BitVec 32)
  | u64 (v : BitVec 64)
  | s64 (v : BitVec 64)
  | i32 (v : BitVec 32)
  | i64 (v : BitVec 64)
  | f32 (bits : BitVec 32)
  | f64 (bits : BitVec 64)
  | char (v : Char)
  | string (v : String)
  | list (values : List ComponentValue)
  | record (entries : List (String × ComponentValue))
  | tuple (values : List ComponentValue)
  | variant (case : String) (value : Option ComponentValue)
  | enum (case : String)
  | flags (selected : List String)
  | option (value : Option ComponentValue)
  | result (ok err : Option ComponentValue)
  | own (handle : BitVec 32)
  | borrow (handle : BitVec 32)

namespace ComponentValue

def asBool : ComponentValue → Option Bool
  | .bool v => some v
  | _ => none

def asU32 : ComponentValue → Option (BitVec 32)
  | .u8 v => some (v.setWidth 32)
  | .u16 v => some (v.setWidth 32)
  | .u32 v | .own v | .borrow v => some v
  | _ => none

def asI32 : ComponentValue → Option (BitVec 32)
  | .s8 v => some (v.signExtend 32)
  | .s16 v => some (v.signExtend 32)
  | .i32 v | .s32 v => some v
  | _ => none

def asStr : ComponentValue → Option String
  | .string v => some v
  | _ => none

end ComponentValue

section expectations

variable (value : ComponentValue)

def expectBool : Except ComponentError Bool :=
  match value.asBool with
  | some v => .ok v
  | none => .error (.invalidArgument "expected bool")

def expectU32 : Except ComponentError (BitVec 32) :=
  match value.asU32 with
  | some v => .ok v
  | none => .error (.invalidArgument "expected u32")

def expectI32 : Except ComponentError (BitVec 32) :=
  match value.asI32 with
  | some v => .ok v
  | none => .error (.invalidArgument "expected i32")

def expectI64 : Except ComponentError (BitVec 64) :=
  match value with
  | .i64 v | .s64 v => .ok v
  | _ => .error (.invalidArgument "expected i64")

def expectU64 : Except ComponentError (BitVec 64) :=
  match value with
  | .u64 v => .ok v
  | _ => .error (.invalidArgument "expected u64")

def expectF32 : Except ComponentError (BitVec 32) :=
  match value with
  | .f32 bits => .ok bits
  | _ => .error (.invalidArgument "expected f32")

def expectF64 : Except ComponentError (BitVec 64) :=
  match value with
  | .f64 bits => .ok bits
  | _ => .error (.invalidArgument "expected f64")

def expectChar : Except ComponentError Char :=
  match value with
  | .char v => .ok v
  | _ => .error (.invalidArgument "expected char")

def expectString : Except ComponentError String :=
  match value.asStr with
  | some v => .ok v
  | none => .error (.invalidArgument "expected string value")

def expectHandle : Except ComponentError (BitVec 32) :=
  match value with
  | .own v | .borrow v | .u32 v => .ok v
  | _ => .error (.invalidArgument "expected resource handle")

end expectations

/-- `to_le_bytes`, of as many bytes as are asked for. -/
def toLeBytes {w : Nat} (count : Nat) (v : BitVec w) : List Byte :=
  (List.range count).map fun i => v.extractLsb' (8 * i) 8

def WasmValue.toLeBytes : WasmValue → List Byte
  | .i32 v | .f32 v | .funcRef v | .externRef v => Component.toLeBytes 4 v
  | .i64 v | .f64 v => Component.toLeBytes 8 v
  | .v128 v => Component.toLeBytes 16 v

structure LinearMemory where
  size : Nat
  bytes : Nat → Byte

/-- Writes and reads end below the last address. -/
def LinearMemory.InBounds (m : LinearMemory) (ptr len : Nat) : Prop :=
  ptr + len < 2 ^ 32 ∧ ptr + len ≤ m.size

instance (m : LinearMemory) (ptr len : Nat) : Decidable (m.InBounds ptr len) :=
  inferInstanceAs (Decidable (_ ∧ _))

def LinearMemory.write (m : LinearMemory) (ptr : Nat) (bytes : List Byte) : LinearMemory :=
  { m with bytes := fun addr =>
      if ptr ≤ addr then bytes.getD (addr - ptr) (m.bytes addr) else m.bytes addr }

def LinearMemory.read (m : LinearMemory) (ptr len : Nat) : List Byte :=
  (List.range len).map fun i => m.bytes (ptr + i)

structure Guest (σ : Type) where
  memory : LinearMemory
  state : σ

/-- The guest, and beside it where the host has written: addresses and lengths, the last first. -/
structure World (σ : Type) where
  guest : Guest σ
  writes : List (Nat × Nat)

abbrev Canon (σ : Type) := Lib.Run (World σ) ComponentError

inductive CanonicalStringEncoding where
  | utf8
  | utf16
  | compactUtf16
deriving DecidableEq, Repr

/-- `realloc` is any core function. That the memory is exported by its instance is checked when the
options are resolved. -/
structure RuntimeCanonicalOptions (σ : Type) where
  stringEncoding : Option CanonicalStringEncoding
  memory : Bool
  realloc : Option (List WasmValue → Lib.Run (Guest σ) ComponentError (List WasmValue))

section guest

variable {σ : Type}

def u32Add (a b : Nat) : Nat := (a + b) % 2 ^ 32

def requireMemory (o : RuntimeCanonicalOptions σ) : Except ComponentError Unit :=
  if o.memory then .ok () else .error (.runtime "canonical option `memory` is required")

def requireRealloc (o : RuntimeCanonicalOptions σ) :
    Except ComponentError (List WasmValue → Lib.Run (Guest σ) ComponentError (List WasmValue)) :=
  match o.realloc with
  | some realloc => .ok realloc
  | none => .error (.runtime "canonical option `realloc` is required")

def writeMemory (ptr : Nat) (bytes : List Byte) : Canon σ Unit := fun w =>
  if w.guest.memory.InBounds ptr bytes.length then
    .ok ((), { guest := { w.guest with memory := w.guest.memory.write ptr bytes },
               writes := (ptr, bytes.length) :: w.writes })
  else .error (.trap "memory access out of bounds")

def readMemory (m : LinearMemory) (ptr len : Nat) : Except ComponentError (List Byte) :=
  if m.InBounds ptr len then .ok (m.read ptr len)
  else .error (.trap "memory access out of bounds")

/-- Lengths and addresses are cut to 32 bits on the way. -/
def callRealloc (realloc : List WasmValue → Lib.Run (Guest σ) ComponentError (List WasmValue))
    (oldPtr oldLen align newLen : Nat) : Canon σ Nat := fun w => do
  let args := [oldPtr, oldLen, align, newLen].map fun n => WasmValue.i32 (BitVec.ofNat 32 n)
  match ← realloc args w.guest with
  | ([.i32 ptr], guest) => return (ptr.toNat, { w with guest })
  | _ => .error (.runtime "realloc returned an unexpected result")

def validateReallocPointerAlignment (ptr align : Nat) (allocation : String) :
    Except ComponentError Unit :=
  if ptr % align ≠ 0 then
    .error (.trap (s!"canonical realloc returned pointer 0x{String.ofList (Nat.toDigits 16 ptr)} " ++
      s!"for {allocation}, which is not aligned to {align} bytes"))
  else .ok ()

/-- `realloc`, with its answer checked. -/
def allocate (realloc : List WasmValue → Lib.Run (Guest σ) ComponentError (List WasmValue))
    (oldPtr oldLen align newLen : Nat) (allocation : String) : Canon σ Nat := do
  let ptr ← callRealloc realloc oldPtr oldLen align newLen
  validateReallocPointerAlignment ptr align allocation
  return ptr

end guest

end Telomere.Component
