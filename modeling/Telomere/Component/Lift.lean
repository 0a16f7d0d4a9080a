import Telomere.Component.Lower

/-!
# Lifting

Core values, or the bytes at an address, become a component value. Lifting reads the guest's memory
and calls nothing of the guest, so the memory is an argument. The elements of a list are always read
from memory. `depth` bounds how far the references of types are followed.
-/

namespace Telomere.Component

variable {M σ : Type}

abbrev CoreValueCursor := Lib.Run (List WasmValue) ComponentError

namespace CoreValueCursor

def next : CoreValueCursor WasmValue := fun values =>
  match values with
  | value :: rest => .ok (value, rest)
  | [] => .error (.trap "canonical ABI value underflow")

def nextI32 : CoreValueCursor (BitVec 32) := do
  match ← next with
  | .i32 v => return v
  | _ => throw (.trap "expected i32")

def nextI64 : CoreValueCursor (BitVec 64) := do
  match ← next with
  | .i64 v => return v
  | _ => throw (.trap "expected i64")

def nextF32 : CoreValueCursor (BitVec 32) := do
  match ← next with
  | .f32 bits => return bits
  | _ => throw (.trap "expected f32")

def nextF64 : CoreValueCursor (BitVec 64) := do
  match ← next with
  | .f64 bits => return bits
  | _ => throw (.trap "expected f64")

def nextForType : CoreValType → CoreValueCursor WasmValue
  | .i32 => do return .i32 (← nextI32)
  | .i64 => do return .i64 (← nextI64)
  | .f32 => do return .f32 (← nextF32)
  | .f64 => do return .f64 (← nextF64)
  | _ => throw (.unsupported "core cursor does not support this type")

def nextWords : Nat → CoreValueCursor (List (BitVec 32))
  | 0 => return []
  | count + 1 => do
      let word ← nextI32
      return word :: (← nextWords count)

end CoreValueCursor

def fromLeBytes (w : Nat) (bytes : List Byte) : BitVec w :=
  bytes.foldr (fun byte acc => acc <<< 8 ||| byte.setWidth w) 0

section bytes

variable (m : LinearMemory)

/-- A number of `count` bytes. -/
def readNumber (w count ptr : Nat) : Except ComponentError (BitVec w) := do
  return fromLeBytes w (← readMemory m ptr count)

def readU8FromMemory (ptr : Nat) : Except ComponentError (BitVec 8) := readNumber m 8 1 ptr

def readU16FromMemory (ptr : Nat) : Except ComponentError (BitVec 16) := readNumber m 16 2 ptr

def readI32FromMemory (ptr : Nat) : Except ComponentError (BitVec 32) := readNumber m 32 4 ptr

def readI64FromMemory (ptr : Nat) : Except ComponentError (BitVec 64) := readNumber m 64 8 ptr

end bytes

def charFromU32 (n : Nat) : Except ComponentError Char :=
  if n.isValidChar then .ok (Char.ofNat n) else .error (.trap "invalid char scalar")

/-- `String::from_utf16`: a surrogate stands in a pair, the high one first. -/
def charsFromUtf16 : List (BitVec 16) → Option (List Char)
  | [] => some []
  | unit :: units =>
      if unit.toNat < 0xD800 ∨ 0xE000 ≤ unit.toNat then do
        return Char.ofNat unit.toNat :: (← charsFromUtf16 units)
      else
        match units with
        | low :: rest =>
            if unit.toNat < 0xDC00 ∧ 0xDC00 ≤ low.toNat ∧ low.toNat < 0xE000 then do
              let rest ← charsFromUtf16 rest
              let scalar := 0x10000 + (unit.toNat - 0xD800) * 0x400 + (low.toNat - 0xDC00)
              return Char.ofNat scalar :: rest
            else none
        | [] => none

/-- Pairs of bytes; a last single one is left out. -/
def unitsFromLe : List Byte → List (BitVec 16)
  | low :: high :: bytes => fromLeBytes 16 [low, high] :: unitsFromLe bytes
  | _ => []

def decodeUtf16Le (bytes : List Byte) : Except ComponentError String :=
  match charsFromUtf16 (unitsFromLe bytes) with
  | some chars => .ok (String.ofList chars)
  | none => .error (.trap "invalid utf-16: lone surrogate found")

def decodeUtf8 (bytes : List Byte) : Except ComponentError String :=
  match String.fromUTF8? ⟨(bytes.map UInt8.ofBitVec).toArray⟩ with
  | some s => .ok s
  | none => .error (.trap "invalid utf-8 sequence")

def readStringFromMemory (m : LinearMemory) (ptr : Nat) (len : BitVec 32)
    (encoding : Option CanonicalStringEncoding) : Except ComponentError String :=
  match encoding.getD .utf8 with
  | .utf8 => do decodeUtf8 (← readMemory m ptr len.toNat)
  | .utf16 => do decodeUtf16Le (← readMemory m ptr (len.toNat * 2))
  | .compactUtf16 =>
      if ptr % 2 ≠ 0 then
        .error (.trap s!"latin1+utf16 string pointer {ptr} is not aligned to 2 bytes")
      else if len &&& compactUtf16Tag ≠ 0 then do
        decodeUtf16Le (← readMemory m ptr ((len ^^^ compactUtf16Tag).toNat * 2))
      else do
        let bytes ← readMemory m ptr len.toNat
        return String.ofList (bytes.map fun byte => Char.ofNat byte.toNat)

section primitives

variable (o : RuntimeCanonicalOptions σ) (m : LinearMemory)

def liftString : CoreValueCursor ComponentValue := do
  requireMemory o
  let ptr ← CoreValueCursor.nextI32
  let len ← CoreValueCursor.nextI32
  return .string (← readStringFromMemory m ptr.toNat len o.stringEncoding)

def liftPrimitive : PrimValType → CoreValueCursor ComponentValue
  | .bool => do return .bool ((← CoreValueCursor.nextI32) != 0)
  | .s8 => do return .s8 ((← CoreValueCursor.nextI32).setWidth 8)
  | .u8 => do return .u8 ((← CoreValueCursor.nextI32).setWidth 8)
  | .s16 => do return .s16 ((← CoreValueCursor.nextI32).setWidth 16)
  | .u16 => do return .u16 ((← CoreValueCursor.nextI32).setWidth 16)
  | .s32 => do return .s32 (← CoreValueCursor.nextI32)
  | .u32 => do return .u32 (← CoreValueCursor.nextI32)
  | .s64 => do return .s64 (← CoreValueCursor.nextI64)
  | .u64 => do return .u64 (← CoreValueCursor.nextI64)
  | .f32 => do return .f32 (← CoreValueCursor.nextF32)
  | .f64 => do return .f64 (← CoreValueCursor.nextF64)
  | .char => do return .char (← charFromU32 (← CoreValueCursor.nextI32).toNat)
  | .string => liftString o m
  | .errorContext =>
      throw (.unsupported "canonical ABI for `error-context` is not supported")

def readPrimitiveFromMemory (ptr : Nat) : PrimValType → Except ComponentError ComponentValue
  | .bool => do return .bool ((← readU8FromMemory m ptr) != 0)
  | .s8 => do return .s8 (← readU8FromMemory m ptr)
  | .u8 => do return .u8 (← readU8FromMemory m ptr)
  | .s16 => do return .s16 (← readU16FromMemory m ptr)
  | .u16 => do return .u16 (← readU16FromMemory m ptr)
  | .s32 => do return .s32 (← readI32FromMemory m ptr)
  | .u32 => do return .u32 (← readI32FromMemory m ptr)
  | .s64 => do return .s64 (← readI64FromMemory m ptr)
  | .u64 => do return .u64 (← readI64FromMemory m ptr)
  | .f32 => do return .f32 (← readNumber m 32 4 ptr)
  | .f64 => do return .f64 (← readNumber m 64 8 ptr)
  | .char => do return .char (← charFromU32 (← readI32FromMemory m ptr).toNat)
  | .string => do
      let stringPtr ← readI32FromMemory m ptr
      let len ← readI32FromMemory m (u32Add ptr 4)
      return .string (← readStringFromMemory m stringPtr.toNat len o.stringEncoding)
  | .errorContext =>
      .error (.unsupported "canonical ABI for `error-context` is not supported")

end primitives

def recordValue (fields : List LabelValType) (values : List ComponentValue) : ComponentValue :=
  if isTupleFields fields then .tuple values else .record ((fields.map (·.label)).zip values)

def caseAt (cases : List Case) (index : Nat) : Except ComponentError Case :=
  match cases[index]? with
  | some case => .ok case
  | none => .error (.trap "variant discriminant is out of bounds")

/-- The payload of a result that carries none is the empty tuple. -/
def caseValue (cases : List Case) (case : Case) (payload : Option ComponentValue) :
    ComponentValue :=
  if isOptionCases cases then .option payload
  else if isResultCases cases then
    let payload := if case.ty.isNone then some (.tuple []) else payload
    if case.label == "ok" then .result payload none else .result none payload
  else if isEnumCases cases then .enum case.label
  else .variant case.label payload

def selectedFlags (labels : List Label) (words : List (BitVec 32)) : List String :=
  (labels.zipIdx.filter fun entry =>
    (words.getD (entry.2 / 32) 0).getLsbD (entry.2 % 32)).map (·.1)

def liftFlagsValue (labels : List Label) : CoreValueCursor ComponentValue := do
  let words ← CoreValueCursor.nextWords ((labels.length + 31) / 32)
  return .flags (selectedFlags labels words)

def readWords (m : LinearMemory) (ptr : Nat) : Nat → Nat → Except ComponentError (List (BitVec 32))
  | _, 0 => return []
  | index, count + 1 => do
      let word ← readI32FromMemory m (u32Add ptr (index % 2 ^ 32 * 4 % 2 ^ 32))
      return word :: (← readWords m ptr (index + 1) count)

def readFlagsValueFromMemory (m : LinearMemory) (labels : List Label) (ptr : Nat) :
    Except ComponentError ComponentValue := do
  let words ← match (flagsMemoryAbi labels.length).size with
    | 0 => pure []
    | 1 => do pure [(← readU8FromMemory m ptr).setWidth 32]
    | 2 => do pure [(← readU16FromMemory m ptr).setWidth 32]
    | _ => readWords m ptr 0 ((labels.length + 31) / 32)
  return .flags (selectedFlags labels words)

/-- A discriminant of four bytes is read as a signed number and widened. -/
def readVariantDiscriminantFromMemory (m : LinearMemory) (ptr caseCount : Nat) :
    Except ComponentError Nat := do
  match ← variantDiscriminantSize caseCount with
  | 1 => return (← readU8FromMemory m ptr).toNat
  | 2 => return (← readU16FromMemory m ptr).toNat
  | _ => return ((← readI32FromMemory m ptr).signExtend 64).toNat

/-- The values a case takes of the payload, each as the type the case expects. The payload is
indexed without a check. -/
def expectedPayload :
    List CoreValType → List WasmValue → List CoreValType → Except ComponentError (List WasmValue)
  | [], _, _ => .ok []
  | expected :: rest, value :: values, ty :: types => do
      let value ← coerceFlatValue value ty expected
      return value :: (← expectedPayload rest values types)
  | _ :: _, _, _ => .error (.runtime "index out of bounds")

def checkFixedLength (len : Option Nat) (given : BitVec 32) : Except ComponentError Unit :=
  match len with
  | some expected =>
      if given.toNat ≠ expected then
        .error (.trap s!"fixed-length list expected {expected} elements, got {given.toNat}")
      else .ok ()
  | none => .ok ()

/-- Lifting one level down, with the flat types of the runtime. -/
structure Lifting where
  flatTypes : ValType → Except ComponentError (List CoreValType)
  flat : ValType → CoreValueCursor ComponentValue
  memory : ValType → Nat → Except ComponentError ComponentValue

section level

variable (p : Program M) (o : RuntimeCanonicalOptions σ) (m : LinearMemory) (below : Lifting)

def liftFields : List LabelValType → CoreValueCursor (List ComponentValue)
  | [] => return []
  | field :: fields => do
      let value ← below.flat field.ty
      return value :: (← liftFields fields)

def liftRecordValue (fields : List LabelValType) : CoreValueCursor ComponentValue := do
  return recordValue fields (← liftFields below fields)

def readFields (ptr : Nat) : Nat → List LabelValType → Except ComponentError (List ComponentValue)
  | _, [] => return []
  | cursor, field :: fields => do
      let abi ← p.memoryAbiForValtype field.ty
      let cursor := alignTo cursor (max abi.align 1)
      let value ← below.memory field.ty (u32Add ptr cursor)
      return value :: (← readFields ptr (saturatingAdd cursor abi.size) fields)

def readRecordValueFromMemory (fields : List LabelValType) (ptr : Nat) :
    Except ComponentError ComponentValue := do
  return recordValue fields (← readFields p below ptr 0 fields)

def liftCasePayload (payloadTypes : List CoreValType) (raw : List WasmValue) :
    Option ValType → Except ComponentError (Option ComponentValue)
  | some ty => do
      let expected ← below.flatTypes ty
      let values ← expectedPayload expected raw payloadTypes
      let (value, _) ← below.flat ty values
      return some value
  | none => return none

def liftVariantValue (cases : List Case) : CoreValueCursor ComponentValue := do
  let index ← CoreValueCursor.nextI32
  let case ← caseAt cases (index.signExtend 64).toNat
  let payloadTypes ← variantPayloadFlatTypes below.flatTypes cases
  let raw ← payloadTypes.mapM CoreValueCursor.nextForType
  let payload ← liftCasePayload below payloadTypes raw case.ty
  return caseValue cases case payload

def readCasePayload (ptr : Nat) : Option ValType → Except ComponentError (Option ComponentValue)
  | some ty => do return some (← below.memory ty ptr)
  | none => return none

def readVariantValueFromMemory (cases : List Case) (ptr : Nat) :
    Except ComponentError ComponentValue := do
  let discriminant ← readVariantDiscriminantFromMemory m ptr cases.length
  let case ← caseAt cases discriminant
  let (payloadOffset, _) ← p.variantPayloadOffsetAndSize cases
  let payload ← readCasePayload below (u32Add ptr payloadOffset) case.ty
  return caseValue cases case payload

def elementStride (elem : ValType) : Except ComponentError Nat := do
  let abi ← p.memoryAbiForValtype elem
  return alignTo abi.size (max abi.align 1)

/-- `checked_mul` and `checked_add`. -/
def elementAddress (base stride index : Nat) : Except ComponentError Nat :=
  if stride * index < 2 ^ 32 ∧ base + stride * index < 2 ^ 32 then .ok (base + stride * index)
  else .error (.trap (s!"list element {index} at base {base} with stride {stride} is outside " ++
    "the address space"))

def readElements (elem : ValType) (base stride : Nat) :
    Nat → Nat → Except ComponentError (List ComponentValue)
  | _, 0 => return []
  | index, count + 1 => do
      let value ← below.memory elem (← elementAddress base stride index)
      return value :: (← readElements elem base stride (index + 1) count)

def readListElements (elem : ValType) (base : Nat) (len : BitVec 32) :
    Except ComponentError (List ComponentValue) := do
  let stride ← elementStride p elem
  if stride = 0 ∧ len ≠ 0 then
    .error (.trap ("list element type occupies no memory, so a guest-supplied length of " ++
      s!"{len.toNat} cannot be bounded"))
  else readElements below elem base stride 0 len.toNat

def liftListValue (elem : ValType) (len : Option Nat) : CoreValueCursor ComponentValue := do
  requireMemory o
  let ptr ← CoreValueCursor.nextI32
  let given ← CoreValueCursor.nextI32
  checkFixedLength len given
  return .list (← readListElements p below elem ptr.toNat given)

/-- `checked_add`. -/
def lengthAddress (ptr : Nat) : Except ComponentError Nat :=
  if ptr + 4 < 2 ^ 32 then .ok (ptr + 4)
  else .error (.trap s!"list length at {ptr} is outside the address space")

def readListValueFromMemory (elem : ValType) (len : Option Nat) (ptr : Nat) :
    Except ComponentError ComponentValue := do
  let listPtr ← readI32FromMemory m ptr
  let given ← readI32FromMemory m (← lengthAddress ptr)
  checkFixedLength len given
  return .list (← readListElements p below elem listPtr.toNat given)

def liftDefinedValue (id : TypeId) : CoreValueCursor ComponentValue :=
  match p.arena.get id with
  | some (.defVal (.primitive prim)) => liftPrimitive o m prim
  | some (.defVal (.record fields)) => liftRecordValue below fields
  | some (.defVal (.variant cases)) => liftVariantValue below cases
  | some (.defVal (.flags labels)) => liftFlagsValue labels
  | some (.defVal (.list elem len)) => liftListValue p o below elem len
  | some (.defVal (.own resource)) => do
      validateResourceType p.arena.types p.arena.types.length resource
      return .own (← CoreValueCursor.nextI32)
  | some (.defVal (.borrow resource)) => do
      validateResourceType p.arena.types p.arena.types.length resource
      return .borrow (← CoreValueCursor.nextI32)
  | some (.resource _) => do return .own (← CoreValueCursor.nextI32)
  | some _ => throw (.unsupported "canonical ABI for this type is not implemented yet")
  | none => throw (.runtime "type id not found")

def readDefinedValueFromMemory (id : TypeId) (ptr : Nat) : Except ComponentError ComponentValue :=
  match p.arena.get id with
  | some (.defVal (.primitive prim)) => readPrimitiveFromMemory o m ptr prim
  | some (.defVal (.record fields)) => readRecordValueFromMemory p below fields ptr
  | some (.defVal (.variant cases)) => readVariantValueFromMemory p m below cases ptr
  | some (.defVal (.flags labels)) => readFlagsValueFromMemory m labels ptr
  | some (.defVal (.list elem len)) => readListValueFromMemory p m below elem len ptr
  | some (.defVal (.own resource)) => do
      validateResourceType p.arena.types p.arena.types.length resource
      return .own (← readI32FromMemory m ptr)
  | some (.defVal (.borrow resource)) => do
      validateResourceType p.arena.types p.arena.types.length resource
      return .borrow (← readI32FromMemory m ptr)
  | some (.resource _) | some (.generic _) => do return .own (← readI32FromMemory m ptr)
  | some _ => .error (.unsupported "canonical ABI for this type is not implemented yet")
  | none => .error (.runtime "type id not found")

end level

/-- Below depth 0 there are primitives only. -/
def lifting (p : Program M) (o : RuntimeCanonicalOptions σ) (m : LinearMemory) : Nat → Lifting
  | 0 =>
      { flatTypes := flatTypesForValtype p.arena.types 0
        flat := fun ty =>
          match ty with
          | .primitive prim => liftPrimitive o m prim
          | .type _ => throw (.runtime "type id not found")
        memory := fun ty ptr =>
          match ty with
          | .primitive prim => readPrimitiveFromMemory o m ptr prim
          | .type _ => .error (.runtime "type id not found") }
  | depth + 1 =>
      { flatTypes := flatTypesForValtype p.arena.types (depth + 1)
        flat := fun ty =>
          match ty with
          | .primitive prim => liftPrimitive o m prim
          | .type id => liftDefinedValue p o m (lifting p o m depth) id
        memory := fun ty ptr =>
          match ty with
          | .primitive prim => readPrimitiveFromMemory o m ptr prim
          | .type id => readDefinedValueFromMemory p o m (lifting p o m depth) id ptr }

structure ValueAreaLayout where
  offsets : List Nat
  size : Nat
  align : Nat
deriving DecidableEq, Repr

namespace Program

variable (p : Program M) (o : RuntimeCanonicalOptions σ)

def liftValue (m : LinearMemory) (ty : ValType) : CoreValueCursor ComponentValue :=
  (lifting p o m p.arena.types.length).flat ty

def readValueFromMemory (m : LinearMemory) (ty : ValType) (ptr : Nat) :
    Except ComponentError ComponentValue :=
  (lifting p o m p.arena.types.length).memory ty ptr

/-- The offsets so far, how much they take and the greatest alignment. -/
def areaValue (acc : List Nat × Nat × Nat) (ty : ValType) :
    Except ComponentError (List Nat × Nat × Nat) := do
  let (offsets, cursor, maxAlign) := acc
  let abi ← p.memoryAbiForValtype ty
  let cursor := alignTo cursor (max abi.align 1)
  return (offsets ++ [cursor], saturatingAdd cursor abi.size, max maxAlign (max abi.align 1))

def valueAreaLayout (values : List ValType) : Except ComponentError ValueAreaLayout := do
  let (offsets, cursor, maxAlign) ← values.foldlM p.areaValue ([], 0, 1)
  return ⟨offsets, alignTo cursor maxAlign, maxAlign⟩

/-- An area that takes no memory is at address 0. -/
def allocateArea (realloc : List WasmValue → Lib.Run (Guest σ) ComponentError (List WasmValue))
    (layout : ValueAreaLayout) : Canon σ Nat :=
  if layout.size = 0 then return 0
  else allocate realloc 0 0 layout.align layout.size "indirect canonical parameter area"

def writeArgs (ptr : Nat) : List ComponentValue → List ValType → List Nat → Canon σ Unit
  | value :: args, ty :: params, offset :: offsets => do
      p.writeValueToMemory o value ty (u32Add ptr offset)
      writeArgs ptr args params offsets
  | _, _, _ => return ()

def lowerArgs : List ComponentValue → List ValType → Canon σ (List WasmValue)
  | value :: args, ty :: params => do
      let lowered ← p.lowerValueToFlat o value ty
      return lowered ++ (← lowerArgs args params)
  | _, _ => return []

def lowerComponentArgs (func : FuncType) (args : List ComponentValue) :
    Canon σ (List WasmValue) := do
  if func.params.length ≠ args.length then
    throw (.invalidArgument
      s!"expected {func.params.length} component arguments, got {args.length}")
  else if maxFlatParams < (← p.functionParamsFlatLen func) then
    requireMemory o
    let realloc ← requireRealloc o
    let layout ← p.valueAreaLayout func.params
    let ptr ← allocateArea realloc layout
    p.writeArgs o ptr args func.params layout.offsets
    return [.i32 (BitVec.ofNat 32 ptr)]
  else p.lowerArgs o args func.params

def areaPointer : List WasmValue → Except ComponentError Nat
  | .i32 ptr :: _ => .ok ptr.toNat
  | _ :: _ => .error (.runtime "indirect canonical parameter area must be an i32 pointer")
  | [] => .error (.runtime "indirect canonical parameter area is missing")

def readArgs (m : LinearMemory) (ptr : Nat) :
    List ValType → List Nat → Except ComponentError (List ComponentValue)
  | ty :: params, offset :: offsets => do
      let value ← p.readValueFromMemory o m ty (u32Add ptr offset)
      return value :: (← readArgs m ptr params offsets)
  | _, _ => return []

def liftArgs (m : LinearMemory) : List ValType → CoreValueCursor (List ComponentValue)
  | [] => return []
  | ty :: params => do
      let value ← p.liftValue o m ty
      return value :: (← liftArgs m params)

def liftComponentArgs (m : LinearMemory) (func : FuncType) (args : List WasmValue) :
    Except ComponentError (List ComponentValue) := do
  if maxFlatParams < (← p.functionParamsFlatLen func) then
    requireMemory o
    let ptr ← areaPointer args
    let layout ← p.valueAreaLayout func.params
    p.readArgs o m ptr func.params layout.offsets
  else
    let (values, _) ← p.liftArgs o m func.params args
    return values

/-- A result that is too long for core values is where the core function says. -/
def liftResult (m : LinearMemory) (ty : ValType) : CoreValueCursor ComponentValue := do
  if maxFlatResults < (← p.valueFlatLen ty) then
    let pointer ← CoreValueCursor.nextI32
    requireMemory o
    p.readValueFromMemory o m ty pointer.toNat
  else p.liftValue o m ty

def liftComponentResults (m : LinearMemory) (func : FuncType) (results : List WasmValue) :
    Except ComponentError (List ComponentValue) :=
  match func.result with
  | none => return []
  | some ty => do
      let (value, _) ← p.liftResult o m ty results
      return [value]

def loweredIndirectResultArea (func : FuncType) (args : List WasmValue) :
    Except ComponentError (Option Nat) :=
  match func.result with
  | none => return none
  | some ty => do
      if (← p.valueFlatLen ty) ≤ maxFlatResults then return none
      else
        match args.getLast? with
        | some (.i32 ptr) => return some ptr.toNat
        | some _ => .error (.runtime "indirect result area must be an i32 pointer")
        | none => .error (.runtime "indirect result area is missing")

end Program

end Telomere.Component
