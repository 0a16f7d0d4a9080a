import Telomere.Component.Value

/-!
# Lowering

A component value becomes core values, or bytes at an address. The two paths call each other: the
elements of a list always go to memory, and a list or a string in memory is the core values of one
on its own. `depth` bounds how far the references of types are followed.
-/

namespace Telomere.Component

variable {M σ : Type}

structure MemoryAbiInfo where
  size : Nat
  align : Nat
deriving DecidableEq, Repr

def flagsMemoryAbi (count : Nat) : MemoryAbiInfo :=
  if count = 0 then ⟨0, 1⟩
  else if count ≤ 8 then ⟨1, 1⟩
  else if count ≤ 16 then ⟨2, 2⟩
  else ⟨4 * ((count + 31) / 32 % 2 ^ 32) % 2 ^ 32, 4⟩

def memoryAbiForPrimitive : PrimValType → MemoryAbiInfo
  | .bool | .s8 | .u8 => ⟨1, 1⟩
  | .s16 | .u16 => ⟨2, 2⟩
  | .s32 | .u32 | .char | .f32 => ⟨4, 4⟩
  | .s64 | .u64 | .f64 => ⟨8, 8⟩
  | .string => ⟨8, 4⟩
  | .errorContext => ⟨4, 4⟩

namespace Program

variable (p : Program M)

def memoryAbiForValtype : ValType → Except ComponentError MemoryAbiInfo
  | .primitive prim => .ok (memoryAbiForPrimitive prim)
  | .type id =>
      match p.typeInfos[id]? with
      | some info => .ok ⟨info.indirectSize, max info.indirectAlign 1⟩
      | none => .error (.runtime "type id not found")

def casePayloadAbi (acc : Nat × Nat) (case : Case) : Except ComponentError (Nat × Nat) := do
  match case.ty with
  | some ty => do
      let abi ← p.memoryAbiForValtype ty
      return (max acc.1 abi.size, max acc.2 (max abi.align 1))
  | none => return acc

def variantPayloadOffsetAndSize (cases : List Case) : Except ComponentError (Nat × Nat) := do
  let discriminantSize ← variantDiscriminantSize cases.length
  let (payloadSize, payloadAlign) ← cases.foldlM p.casePayloadAbi (0, discriminantSize)
  return (alignTo discriminantSize (max payloadAlign 1), payloadSize)

end Program

/-- Follows handles and bounds down to a resource. -/
def validateResourceType (types : List (Ty M)) : Nat → TypeId → Except ComponentError Unit
  | 0, _ => .error (.runtime "resource type is missing")
  | depth + 1, id =>
      match types[id]? with
      | some (.resource _) => .ok ()
      | some (.defVal (.own inner)) | some (.defVal (.borrow inner)) =>
          validateResourceType types depth inner
      | some (.generic ⟨_, .eq inner⟩) => validateResourceType types depth inner
      | some (.generic ⟨_, .sub⟩) => .ok ()
      | _ => .error (.runtime "resource type is missing")

def encodeUtf16Char (c : Char) : List (BitVec 16) :=
  if c.toNat < 0x10000 then [BitVec.ofNat 16 c.toNat]
  else
    let rest := c.toNat - 0x10000
    [BitVec.ofNat 16 (0xD800 + rest / 0x400), BitVec.ofNat 16 (0xDC00 + rest % 0x400)]

def encodeStringUtf16 (s : String) : List Byte :=
  (s.toList.flatMap encodeUtf16Char).flatMap (toLeBytes 2)

def asBytes (s : String) : List Byte := s.toUTF8.toList.map UInt8.toBitVec

def compactUtf16Tag : BitVec 32 := 0x80000000

section strings

variable (realloc : List WasmValue → Lib.Run (Guest σ) ComponentError (List WasmValue))

/-- Writes one byte per character, up to the first that does not fit in one. -/
def writeLatin1 (ptr : Nat) : Nat → List Char → Canon σ (Option Nat)
  | dstLen, [] => return some dstLen
  | dstLen, character :: rest =>
      if 0x100 ≤ character.toNat then return none
      else do
        writeMemory (u32Add ptr dstLen) [BitVec.ofNat 8 character.toNat]
        writeLatin1 ptr (dstLen + 1) rest

/-- Gives back what was allocated beyond `newLen`. -/
def shrink (ptr oldLen newLen : Nat) : Canon σ Nat :=
  if newLen < oldLen then allocate realloc ptr oldLen 2 newLen "latin1+utf16 string"
  else return ptr

def lowerLatin1 (ptr srcCodeUnits dstLen : Nat) : Canon σ (List WasmValue) := do
  let ptr ← shrink realloc ptr srcCodeUnits dstLen
  return [.i32 (BitVec.ofNat 32 ptr), .i32 (BitVec.ofNat 32 dstLen)]

/-- What was written so far is given up. -/
def lowerTaggedUtf16 (s : String) (ptr srcCodeUnits : Nat) : Canon σ (List WasmValue) := do
  let worstCaseLen := 2 * srcCodeUnits
  let ptr ← allocate realloc ptr srcCodeUnits 2 worstCaseLen "latin1+utf16 string"
  let encoded := encodeStringUtf16 s
  writeMemory ptr encoded
  let ptr ← shrink realloc ptr worstCaseLen encoded.length
  return [.i32 (BitVec.ofNat 32 ptr),
    .i32 (BitVec.ofNat 32 (encoded.length / 2) ||| compactUtf16Tag)]

def lowerCompactUtf16String (s : String) : Canon σ (List WasmValue) := do
  let srcCodeUnits := s.utf8ByteSize
  let ptr ← allocate realloc 0 0 2 srcCodeUnits "latin1+utf16 string"
  match ← writeLatin1 ptr 0 s.toList with
  | some dstLen => lowerLatin1 realloc ptr srcCodeUnits dstLen
  | none => lowerTaggedUtf16 realloc s ptr srcCodeUnits

/-- `length` counts code units: one or two bytes each. -/
def lowerEncoded (bytes : List Byte) (align length : Nat) (allocation : String) :
    Canon σ (List WasmValue) := do
  let ptr ← allocate realloc 0 0 align bytes.length allocation
  writeMemory ptr bytes
  return [.i32 (BitVec.ofNat 32 ptr), .i32 (BitVec.ofNat 32 length)]

def lowerStringAs (s : String) : CanonicalStringEncoding → Canon σ (List WasmValue)
  | .utf8 => lowerEncoded realloc (asBytes s) 1 (asBytes s).length "UTF-8 string"
  | .utf16 =>
      lowerEncoded realloc (encodeStringUtf16 s) 2 ((encodeStringUtf16 s).length / 2)
        "UTF-16 string"
  | .compactUtf16 => lowerCompactUtf16String realloc s

end strings

def lowerString (o : RuntimeCanonicalOptions σ) (value : ComponentValue) :
    Canon σ (List WasmValue) := do
  requireMemory o
  let realloc ← requireRealloc o
  let s ← expectString value
  lowerStringAs realloc s (o.stringEncoding.getD .utf8)

def lowerPrimitive (o : RuntimeCanonicalOptions σ) (value : ComponentValue) :
    PrimValType → Canon σ (List WasmValue)
  | .bool => do return [.i32 (if ← expectBool value then 1 else 0)]
  | .s8 => do return [.i32 (((← expectI32 value).setWidth 8).signExtend 32)]
  | .u8 => do return [.i32 (((← expectU32 value).setWidth 8).setWidth 32)]
  | .s16 => do return [.i32 (((← expectI32 value).setWidth 16).signExtend 32)]
  | .u16 => do return [.i32 (((← expectU32 value).setWidth 16).setWidth 32)]
  | .s32 => do return [.i32 (← expectI32 value)]
  | .u32 => do return [.i32 (← expectU32 value)]
  | .s64 => do return [.i64 (← expectI64 value)]
  | .u64 => do return [.i64 (← expectU64 value)]
  | .f32 => do return [.f32 (← expectF32 value)]
  | .f64 => do return [.f64 (← expectF64 value)]
  | .char => do return [.i32 (BitVec.ofNat 32 (← expectChar value).toNat)]
  | .string => lowerString o value
  | .errorContext =>
      throw (.unsupported "canonical ABI for `error-context` is not supported")

def writeFlatValues : Nat → List WasmValue → Canon σ Unit
  | _, [] => return ()
  | cursor, value :: values => do
      writeMemory cursor value.toLeBytes
      writeFlatValues (u32Add cursor value.toLeBytes.length) values

def primitiveBytes (value : ComponentValue) : PrimValType → Except ComponentError (List Byte)
  | .bool => do return [if ← expectBool value then 1 else 0]
  | .s8 => do return toLeBytes 1 (← expectI32 value)
  | .u8 => do return toLeBytes 1 (← expectU32 value)
  | .s16 => do return toLeBytes 2 (← expectI32 value)
  | .u16 => do return toLeBytes 2 (← expectU32 value)
  | .s32 => do return toLeBytes 4 (← expectI32 value)
  | .u32 => do return toLeBytes 4 (← expectU32 value)
  | .s64 => do return toLeBytes 8 (← expectI64 value)
  | .u64 => do return toLeBytes 8 (← expectU64 value)
  | .f32 => do return toLeBytes 4 (← expectF32 value)
  | .f64 => do return toLeBytes 8 (← expectF64 value)
  | .char => do return toLeBytes 4 (BitVec.ofNat 32 (← expectChar value).toNat)
  | .string | .errorContext =>
      .error (.unsupported "canonical ABI for `error-context` is not supported")

def writePrimitiveToMemory (o : RuntimeCanonicalOptions σ) (value : ComponentValue)
    (prim : PrimValType) (ptr : Nat) : Canon σ Unit :=
  match prim with
  | .errorContext => throw (.unsupported "canonical ABI for `error-context` is not supported")
  | .string => do
      requireMemory o
      let flat ← lowerString o value
      writeFlatValues ptr flat
  | prim => do
      requireMemory o
      let bytes ← primitiveBytes value prim
      writeMemory ptr bytes

def isTupleFields (fields : List LabelValType) : Bool :=
  !fields.isEmpty && fields.zipIdx.all fun entry => entry.1.label == toString entry.2

def isOptionCases : List Case → Bool
  | [⟨none_, .none⟩, ⟨some_, .some _⟩] => none_ == "none" && some_ == "some"
  | _ => false

def isResultCases : List Case → Bool
  | [⟨ok, _⟩, ⟨err, _⟩] => ok == "ok" && err == "err"
  | _ => false

def isEnumCases (cases : List Case) : Bool :=
  !cases.isEmpty && cases.all (·.ty.isNone)

def fieldValue (entries : List (String × ComponentValue)) (field : LabelValType) :
    Except ComponentError ComponentValue :=
  match entries.lookup field.label with
  | some value => .ok value
  | none => .error (.invalidArgument ("record field '" ++ field.label ++ "' is missing"))

/-- The values for the fields of a record: those of a tuple as they stand, those of a record by
name. -/
def recordValues (fields : List LabelValType) (value : ComponentValue) :
    Except ComponentError (List ComponentValue) :=
  if isTupleFields fields then
    match value with
    | .tuple values => .ok values
    | .record entries => fields.mapM (fieldValue entries)
    | _ => .error (.invalidArgument "expected tuple value")
  else
    match value with
    | .record entries => fields.mapM (fieldValue entries)
    | _ => .error (.invalidArgument "expected record value")

def variantParts (cases : List Case) (value : ComponentValue) :
    Except ComponentError (String × Option ComponentValue) :=
  let other := .error (.invalidArgument "expected variant-compatible value")
  match value with
  | .variant case payload => .ok (case, payload)
  | .enum case => .ok (case, none)
  | .option payload =>
      if isOptionCases cases then
        match payload with
        | some payload => .ok ("some", some payload)
        | none => .ok ("none", none)
      else other
  | .result ok err =>
      if isResultCases cases then
        match ok, err with
        | some payload, none => .ok ("ok", some payload)
        | none, some payload => .ok ("err", some payload)
        | _, _ => .error (.invalidArgument "result value must set exactly one branch")
      else other
  | _ => other

def findCase (cases : List Case) (name : String) : Except ComponentError (Nat × Case) :=
  match cases.zipIdx.find? fun entry => entry.1.label == name with
  | some (case, index) => .ok (index, case)
  | none => .error (.invalidArgument ("unknown variant case '" ++ name ++ "'"))

def isEmptyTuple : ComponentValue → Bool
  | .tuple [] => true
  | _ => false

/-- What is to be lowered for a case. The empty tuple stands for the missing payload of a result. -/
def casePayload (cases : List Case) (case : Case) (payload : Option ComponentValue) :
    Except ComponentError (Option (ValType × ComponentValue)) :=
  match case.ty, payload with
  | some ty, some payload => .ok (some (ty, payload))
  | some _, none =>
      .error (.invalidArgument ("variant case '" ++ case.label ++ "' expects a payload"))
  | none, none => .ok none
  | none, some payload =>
      if isResultCases cases && isEmptyTuple payload then .ok none
      else .error (.invalidArgument ("variant case '" ++ case.label ++
        "' does not accept a payload"))

def zeroWasmValue : CoreValType → WasmValue
  | .i32 => .i32 0
  | .i64 => .i64 0
  | .f32 => .f32 0
  | .f64 => .f64 0
  | .funcRef => .funcRef 0
  | .externRef => .externRef 0
  | .v128 => .v128 0

def coerceFlatValue (value : WasmValue) (source target : CoreValType) :
    Except ComponentError WasmValue :=
  if source = target then .ok value
  else match value, source, target with
    | .i32 v, .i32, .i64 => .ok (.i64 (v.setWidth 64))
    | .f32 bits, .f32, .i32 => .ok (.i32 bits)
    | .i32 v, .i32, .f32 => .ok (.f32 v)
    | .f32 bits, .f32, .i64 => .ok (.i64 (bits.setWidth 64))
    | .i64 v, .i64, .i32 => .ok (.i32 (v.setWidth 32))
    | .i64 v, .i64, .f32 => .ok (.f32 (v.setWidth 32))
    | .f64 bits, .f64, .i64 => .ok (.i64 bits)
    | .i64 v, .i64, .f64 => .ok (.f64 v)
    | _, _, _ => .error (.trap "cannot coerce canonical value")

/-- The flat values of a case, each as the joined type of its place; zeros behind them. The types of
the case are indexed without a check. -/
def coercePayload :
    List CoreValType → List WasmValue → List CoreValType → Except ComponentError (List WasmValue)
  | [], _, _ => .ok []
  | ty :: tys, [], flatTypes => do return zeroWasmValue ty :: (← coercePayload tys [] flatTypes)
  | ty :: tys, value :: flat, flatTy :: flatTypes => do
      let value ← coerceFlatValue value flatTy ty
      return value :: (← coercePayload tys flat flatTypes)
  | _ :: _, _ :: _, [] => .error (.runtime "index out of bounds")

def setFlag (labels : List Label) (words : List (BitVec 32)) (flag : String) :
    Except ComponentError (List (BitVec 32)) :=
  match labels.findIdx? (· == flag) with
  | some index => .ok (words.modify (index / 32) (· ||| (1 <<< (index % 32))))
  | none => .error (.invalidArgument ("unknown flag '" ++ flag ++ "'"))

def flagWords (labels : List Label) (value : ComponentValue) :
    Except ComponentError (List (BitVec 32)) :=
  match value with
  | .flags selected => selected.foldlM (setFlag labels) (List.replicate (flagsFlatLen labels) 0)
  | _ => .error (.invalidArgument "expected flags value")

def lowerFlagsValue (labels : List Label) (value : ComponentValue) :
    Except ComponentError (List WasmValue) := do
  return (← flagWords labels value).map .i32

def writeWords (ptr : Nat) : Nat → List (BitVec 32) → Canon σ Unit
  | _, [] => return ()
  | index, word :: words => do
      writeMemory (u32Add ptr (index * 4 % 2 ^ 32)) (toLeBytes 4 word)
      writeWords ptr (index + 1) words

def writeFlagsValueToMemory (labels : List Label) (value : ComponentValue) (ptr : Nat) :
    Canon σ Unit := do
  let words ← flagWords labels value
  match (flagsMemoryAbi labels.length).size with
  | 0 => return ()
  | 1 => writeMemory ptr (toLeBytes 1 (words.headD 0))
  | 2 => writeMemory ptr (toLeBytes 2 (words.headD 0))
  | _ => writeWords ptr 0 words

/-- Lowering one level down, with the flat types of the runtime. -/
structure Lowering (σ : Type) where
  flatTypes : ValType → Except ComponentError (List CoreValType)
  flat : ComponentValue → ValType → Canon σ (List WasmValue)
  memory : ComponentValue → ValType → Nat → Canon σ Unit

section level

variable (p : Program M) (o : RuntimeCanonicalOptions σ) (below : Lowering σ)

/-- The shorter of the two lists decides. -/
def lowerFields : List ComponentValue → List LabelValType → Canon σ (List WasmValue)
  | value :: values, field :: fields => do
      let lowered ← below.flat value field.ty
      return lowered ++ (← lowerFields values fields)
  | _, _ => return []

def writeFields (ptr : Nat) :
    Nat → List ComponentValue → List LabelValType → Canon σ Unit
  | cursor, value :: values, field :: fields => do
      let abi ← p.memoryAbiForValtype field.ty
      let cursor := alignTo cursor (max abi.align 1)
      below.memory value field.ty (u32Add ptr cursor)
      writeFields ptr (saturatingAdd cursor abi.size) values fields
  | _, _, _ => return ()

def lowerRecordValue (fields : List LabelValType) (value : ComponentValue) :
    Canon σ (List WasmValue) := do
  lowerFields below (← recordValues fields value) fields

def writeRecordValueToMemory (fields : List LabelValType) (value : ComponentValue) (ptr : Nat) :
    Canon σ Unit := do
  writeFields p below ptr 0 (← recordValues fields value) fields

def lowerCasePayload : Option (ValType × ComponentValue) →
    Canon σ (List WasmValue × List CoreValType)
  | some (ty, payload) => do return (← below.flat payload ty, ← below.flatTypes ty)
  | none => return ([], [])

def lowerVariantValue (cases : List Case) (value : ComponentValue) : Canon σ (List WasmValue) := do
  let (name, payload) ← variantParts cases value
  let (index, case) ← findCase cases name
  let payloadTypes ← variantPayloadFlatTypes below.flatTypes cases
  let (caseFlat, caseFlatTypes) ← lowerCasePayload below (← casePayload cases case payload)
  return .i32 (BitVec.ofNat 32 index) :: (← coercePayload payloadTypes caseFlat caseFlatTypes)

def writeVariantDiscriminantToMemory (ptr caseCount discriminant : Nat) : Canon σ Unit := do
  writeMemory ptr (toLeBytes (← variantDiscriminantSize caseCount) (BitVec.ofNat 32 discriminant))

def clearPayload (ptr size : Nat) : Canon σ Unit :=
  if size ≠ 0 then writeMemory ptr (List.replicate size 0) else return ()

def writeCasePayload (ptr : Nat) : Option (ValType × ComponentValue) → Canon σ Unit
  | some (ty, payload) => below.memory payload ty ptr
  | none => return ()

def writeVariantValueToMemory (cases : List Case) (value : ComponentValue) (ptr : Nat) :
    Canon σ Unit := do
  let (name, payload) ← variantParts cases value
  let (index, case) ← findCase cases name
  writeVariantDiscriminantToMemory ptr cases.length index
  let (payloadOffset, payloadSize) ← p.variantPayloadOffsetAndSize cases
  clearPayload (u32Add ptr payloadOffset) payloadSize
  writeCasePayload below (u32Add ptr payloadOffset) (← casePayload cases case payload)

def writeElements (elem : ValType) (ptr stride : Nat) : Nat → List ComponentValue → Canon σ Unit
  | _, [] => return ()
  | index, value :: values => do
      below.memory value elem (u32Add ptr (stride * (index % 2 ^ 32) % 2 ^ 32))
      writeElements elem ptr stride (index + 1) values

def saturatingMul (a b : Nat) : Nat := min (a * b) (2 ^ 32 - 1)

def listValues (len : Option Nat) (value : ComponentValue) :
    Except ComponentError (List ComponentValue) :=
  match value with
  | .list values =>
      match len with
      | some expected =>
          if values.length ≠ expected then
            .error (.invalidArgument s!"expected list length {expected}, got {values.length}")
          else .ok values
      | none => .ok values
  | _ => .error (.invalidArgument "expected list value")

/-- Nothing is allocated for a list that takes no memory. -/
def allocateList (realloc : List WasmValue → Lib.Run (Guest σ) ComponentError (List WasmValue))
    (align totalLen : Nat) : Canon σ Nat :=
  if totalLen = 0 then return 0 else allocate realloc 0 0 align totalLen "canonical list"

def lowerListValue (elem : ValType) (len : Option Nat) (value : ComponentValue) :
    Canon σ (List WasmValue) := do
  let values ← listValues len value
  let realloc ← requireRealloc o
  let abi ← p.memoryAbiForValtype elem
  let elemAlign := max abi.align 1
  let stride := alignTo abi.size elemAlign
  let totalLen := saturatingMul stride (values.length % 2 ^ 32)
  let ptr ← allocateList realloc elemAlign totalLen
  writeElements below elem ptr stride 0 values
  return [.i32 (BitVec.ofNat 32 ptr), .i32 (BitVec.ofNat 32 values.length)]

def lowerDefinedValue (value : ComponentValue) (id : TypeId) : Canon σ (List WasmValue) :=
  match p.arena.get id with
  | some (.defVal (.primitive prim)) => lowerPrimitive o value prim
  | some (.defVal (.record fields)) => lowerRecordValue below fields value
  | some (.defVal (.variant cases)) => lowerVariantValue below cases value
  | some (.defVal (.flags labels)) => lowerFlagsValue labels value
  | some (.defVal (.list elem len)) => lowerListValue p o below elem len value
  | some (.defVal (.own resource)) | some (.defVal (.borrow resource)) => do
      validateResourceType p.arena.types p.arena.types.length resource
      return [.i32 (← expectHandle value)]
  | some (.resource _) => do return [.i32 (← expectHandle value)]
  | some _ => throw (.unsupported "canonical ABI for this type is not implemented yet")
  | none => throw (.runtime "type id not found")

def writeDefinedValueToMemory (value : ComponentValue) (id : TypeId) (ptr : Nat) :
    Canon σ Unit := do
  requireMemory o
  match p.arena.get id with
  | some (.defVal (.primitive prim)) => writePrimitiveToMemory o value prim ptr
  | some (.defVal (.record fields)) => writeRecordValueToMemory p below fields value ptr
  | some (.defVal (.variant cases)) => writeVariantValueToMemory p below cases value ptr
  | some (.defVal (.flags labels)) => writeFlagsValueToMemory labels value ptr
  | some (.defVal (.list elem len)) => do
      writeFlatValues ptr (← lowerListValue p o below elem len value)
  | some (.defVal (.own resource)) | some (.defVal (.borrow resource)) => do
      validateResourceType p.arena.types p.arena.types.length resource
      writeMemory ptr (toLeBytes 4 (← expectHandle value))
  | some (.resource _) | some (.generic _) => do
      writeMemory ptr (toLeBytes 4 (← expectHandle value))
  | some _ => throw (.unsupported "canonical ABI for this type is not implemented yet")
  | none => throw (.runtime "type id not found")

end level

def lowering (p : Program M) (o : RuntimeCanonicalOptions σ) : Nat → Lowering σ
  | 0 =>
      { flatTypes := flatTypesForValtype p.arena.types 0
        flat := fun value ty =>
          match ty with
          | .primitive prim => lowerPrimitive o value prim
          | .type _ => throw (.runtime "type id not found")
        memory := fun value ty ptr =>
          match ty with
          | .primitive prim => writePrimitiveToMemory o value prim ptr
          | .type _ => throw (.runtime "type id not found") }
  | depth + 1 =>
      { flatTypes := flatTypesForValtype p.arena.types (depth + 1)
        flat := fun value ty =>
          match ty with
          | .primitive prim => lowerPrimitive o value prim
          | .type id => lowerDefinedValue p o (lowering p o depth) value id
        memory := fun value ty ptr =>
          match ty with
          | .primitive prim => writePrimitiveToMemory o value prim ptr
          | .type id => writeDefinedValueToMemory p o (lowering p o depth) value id ptr }

namespace Program

variable (p : Program M) (o : RuntimeCanonicalOptions σ)

def lowerValueToFlat (value : ComponentValue) (ty : ValType) : Canon σ (List WasmValue) :=
  (lowering p o p.arena.types.length).flat value ty

def writeValueToMemory (value : ComponentValue) (ty : ValType) (ptr : Nat) : Canon σ Unit :=
  (lowering p o p.arena.types.length).memory value ty ptr

/-- Results that are too long for core values go to the area the caller gives. -/
def lowerComponentResults (func : FuncType) (results : List ComponentValue)
    (resultArea : Option Nat) : Canon σ (List WasmValue) :=
  match func.result with
  | none =>
      if results.isEmpty then return []
      else throw (.invalidArgument "function does not return a value")
  | some ty =>
      match results with
      | [] => throw (.invalidArgument "function result is missing")
      | value :: _ => do
          if maxFlatResults < (← p.valueFlatLen ty) then
            requireMemory o
            match resultArea with
            | none => throw (.runtime "indirect result area is missing")
            | some ptr => do
                p.writeValueToMemory o value ty ptr
                return []
          else p.lowerValueToFlat o value ty

end Program

/-- What `component_host_trampoline` copies to the return slot. -/
def returnSlot (results : List WasmValue) : List Byte := results.flatMap WasmValue.toLeBytes

end Telomere.Component
