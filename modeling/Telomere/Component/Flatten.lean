import Telomere.Component.Types

/-!
# Flattening

Three places say which core values a component value becomes: the decoder, when it checks the
signature of a core function; the runtime, when it lowers and lifts; and the engine, which stores
how many there are. All follow the references of a type; `depth` bounds how far.
-/

namespace Telomere.Component

variable {M : Type}

inductive ParseError where
  | typeNotFound (id : TypeId)
  | typeMismatch (message : String)
  | exportNotFound (name : String)
deriving DecidableEq, Repr

/-- A text stops where the source goes on to print what it got with `{:?}`: values, core types and
the errors of the standard library. -/
inductive ComponentError where
  | runtime (message : String)
  | unsupported (message : String)
  | invalidArgument (message : String)
  | trap (message : String)
deriving DecidableEq, Repr

def maxFlatParams : Nat := 16

def maxFlatResults : Nat := 1

def joinCoreTypes (lhs rhs : CoreValType) : CoreValType :=
  if lhs = rhs then lhs
  else match lhs, rhs with
    | .i32, .f32 | .f32, .i32 => .i32
    | _, _ => .i64

def flattenPrimitive (prim : PrimValType) (out : List CoreValType) : List CoreValType :=
  match prim with
  | .bool | .s8 | .u8 | .s16 | .u16 | .s32 | .u32 | .char => out ++ [.i32]
  | .s64 | .u64 => out ++ [.i64]
  | .f32 => out ++ [.f32]
  | .f64 => out ++ [.f64]
  | .string => out ++ [.i32, .i32]
  | .errorContext => out ++ [.i32]

/-- Puts the flat types of one more case over those of the cases before. -/
def overlay (join : CoreValType → CoreValType → CoreValType) :
    List CoreValType → List CoreValType → List CoreValType
  | payload, [] => payload
  | [], flat => flat
  | current :: payload, ty :: flat => join current ty :: overlay join payload flat

section decoder

variable (flattenValType : ValType → List CoreValType → Except ParseError (List CoreValType))

def flattenCase (payload : List CoreValType) (case : Case) :
    Except ParseError (List CoreValType) :=
  match case.ty with
  | some ty => do
      let flat ← flattenValType ty []
      return overlay joinCoreTypes payload flat
  | none => return payload

def flattenDefval (ty : DefValType) (out : List CoreValType) :
    Except ParseError (List CoreValType) :=
  match ty with
  | .primitive prim => .ok (flattenPrimitive prim out)
  | .record fields => fields.foldlM (fun out field => flattenValType field.ty out) out
  | .variant cases => do
      let payload ← cases.foldlM (flattenCase flattenValType) []
      return out ++ [.i32] ++ payload
  | .flags labels => .ok (out ++ List.replicate ((labels.length + 31) / 32) .i32)
  | .list _ _ => .ok (out ++ [.i32, .i32])
  | .own _ | .borrow _ => .ok (out ++ [.i32])

def flattenType (ty : Ty M) (out : List CoreValType) : Except ParseError (List CoreValType) :=
  match ty with
  | .defVal ty => flattenDefval flattenValType ty out
  | .resource _ | .generic _ => .ok (out ++ [.i32])
  | _ => .error (.typeMismatch "not a function type")

end decoder

def flattenValType (types : List (Ty M)) :
    Nat → ValType → List CoreValType → Except ParseError (List CoreValType)
  | _, .primitive prim, out => .ok (flattenPrimitive prim out)
  | 0, .type id, _ => .error (.typeNotFound id)
  | depth + 1, .type id, out =>
      match types[id]? with
      | some ty => flattenType (flattenValType types depth) ty out
      | none => .error (.typeNotFound id)

def flattenParamTypes (a : TypeArena M) (func : FuncType) :
    Except ParseError (List CoreValType) :=
  func.params.foldlM (fun out ty => flattenValType a.types a.types.length ty out) []

def flattenResultTypes (a : TypeArena M) (func : FuncType) :
    Except ParseError (List CoreValType) :=
  match func.result with
  | some ty => flattenValType a.types a.types.length ty []
  | none => .ok []

inductive CanonMode where
  | lift
  | lower
deriving DecidableEq, Repr

def abiFlattenParams (flat : List CoreValType) : List CoreValType :=
  if maxFlatParams < flat.length then [.i32] else flat

/-- The results, and the parameters with the return pointer behind them. -/
def abiFlattenResults (flat : List CoreValType) (mode : CanonMode) (params : List CoreValType) :
    List CoreValType × List CoreValType :=
  if maxFlatResults < flat.length then
    match mode with
    | .lift => ([.i32], params)
    | .lower => ([], params ++ [.i32])
  else (flat, params)

/-- The core signature that `canon lift` demands and `canon lower` gives. -/
def flattenFuncType (a : TypeArena M) (func : FuncType) (mode : CanonMode) :
    Except ParseError CoreFuncType := do
  let params := abiFlattenParams (← flattenParamTypes a func)
  let (results, params) := abiFlattenResults (← flattenResultTypes a func) mode params
  return ⟨params, results⟩

def joinComponentFlatTypes (lhs rhs : CoreValType) : CoreValType :=
  if lhs = rhs then lhs
  else match lhs, rhs with
    | .i32, .f32 | .f32, .i32 => .i32
    | _, _ => .i64

def flatTypesForPrimitive : PrimValType → List CoreValType
  | .bool | .s8 | .u8 | .s16 | .u16 | .s32 | .u32 | .char => [.i32]
  | .s64 | .u64 => [.i64]
  | .f32 => [.f32]
  | .f64 => [.f64]
  | .string => [.i32, .i32]
  | .errorContext => [.i32]

section runtime

variable (flatTypesForValtype : ValType → Except ComponentError (List CoreValType))

def casePayloadFlatTypes (payload : List CoreValType) (case : Case) :
    Except ComponentError (List CoreValType) :=
  match case.ty with
  | some ty => do
      let flat ← flatTypesForValtype ty
      return overlay joinComponentFlatTypes payload flat
  | none => return payload

def variantPayloadFlatTypes (cases : List Case) : Except ComponentError (List CoreValType) :=
  cases.foldlM (casePayloadFlatTypes flatTypesForValtype) []

def flagsFlatLen (labels : List Label) : Nat :=
  if labels = [] then 0 else if labels.length ≤ 16 then 1 else (labels.length + 31) / 32

/-- The payload of a variant is joined by the same loop as in `variant_payload_flat_types`. -/
def flatTypesForDefval : DefValType → Except ComponentError (List CoreValType)
  | .primitive prim => .ok (flatTypesForPrimitive prim)
  | .record fields => fields.foldlM (fun types field => do
      return types ++ (← flatTypesForValtype field.ty)) []
  | .variant cases => do
      let payload ← variantPayloadFlatTypes flatTypesForValtype cases
      return .i32 :: payload
  | .flags labels => .ok (List.replicate (flagsFlatLen labels) .i32)
  | .list _ _ => .ok [.i32, .i32]
  | .own _ | .borrow _ => .ok [.i32]

def flatTypesForType : Ty M → Except ComponentError (List CoreValType)
  | .defVal ty => flatTypesForDefval flatTypesForValtype ty
  | .resource _ | .generic _ => .ok [.i32]
  | _ => .error (.unsupported "flat types for this component type are not implemented yet")

end runtime

def flatTypesForValtype (types : List (Ty M)) :
    Nat → ValType → Except ComponentError (List CoreValType)
  | _, .primitive prim => .ok (flatTypesForPrimitive prim)
  | 0, .type _ => .error (.runtime "type id not found")
  | depth + 1, .type id =>
      match types[id]? with
      | some ty => flatTypesForType (flatTypesForValtype types depth) ty
      | none => .error (.runtime "type id not found")

/-- Canonical ABI metadata of a type: sizes and alignments are 32-bit. Lengths are those of lists
and stay within the machine's words. -/
structure TypeInfo where
  id : TypeId
  flatLen : Nat
  indirectSize : Nat
  indirectAlign : Nat
  fixedLength : Option Nat
deriving DecidableEq, Repr

def alignTo (value align : Nat) : Nat :=
  if align ≤ 1 then value
  else if value % align = 0 then value
  else (value + (align - value % align)) % 2 ^ 32

def saturatingAdd (a b : Nat) : Nat := min (a + b) (2 ^ 32 - 1)

def variantDiscriminantSize (caseCount : Nat) : Except ComponentError Nat :=
  if caseCount ≤ 2 ^ 8 then .ok 1
  else if caseCount ≤ 2 ^ 16 then .ok 2
  else if caseCount ≤ 2 ^ 32 then .ok 4
  else .error (.unsupported "variants with more than 2^32 cases are not supported")

def flagsInfo (count : Nat) : Nat × Nat × Nat :=
  if count = 0 then (0, 0, 1)
  else if count ≤ 8 then (1, 1, 1)
  else if count ≤ 16 then (1, 2, 2)
  else ((count + 31) / 32, 4 * ((count + 31) / 32 % 2 ^ 32) % 2 ^ 32, 4)

def primitiveInfo : PrimValType → TypeInfo
  | .bool | .s8 | .u8 => ⟨0, 1, 1, 1, none⟩
  | .s16 | .u16 => ⟨0, 1, 2, 2, none⟩
  | .s32 | .u32 | .char | .f32 => ⟨0, 1, 4, 4, none⟩
  | .s64 | .u64 | .f64 => ⟨0, 1, 8, 8, none⟩
  | .string => ⟨0, 2, 8, 4, none⟩
  | .errorContext => ⟨0, 1, 4, 4, none⟩

/-- What `build_type_infos` has found and which types it is inside of. -/
structure InfoState where
  memo : List (Option TypeInfo)
  visiting : List Bool

section engine

variable (typeInfo : TypeId → InfoState → Except ComponentError (TypeInfo × InfoState))

def valtypeInfo (ty : ValType) (s : InfoState) : Except ComponentError (TypeInfo × InfoState) :=
  match ty with
  | .primitive prim => .ok (primitiveInfo prim, s)
  | .type id => typeInfo id s

/-- Flat length, size and alignment of the fields so far. -/
def recordField (acc : (Nat × Nat × Nat) × InfoState) (field : LabelValType) :
    Except ComponentError ((Nat × Nat × Nat) × InfoState) := do
  let ((flatLen, size, align), s) := acc
  let (info, s) ← valtypeInfo typeInfo field.ty s
  let size := saturatingAdd (alignTo size info.indirectAlign) info.indirectSize
  return ((flatLen + info.flatLen, size, max align info.indirectAlign), s)

/-- Flat length, size and alignment of the payloads so far. -/
def variantCase (acc : (Nat × Nat × Nat) × InfoState) (case : Case) :
    Except ComponentError ((Nat × Nat × Nat) × InfoState) := do
  let ((flatLen, size, align), s) := acc
  match case.ty with
  | some ty => do
      let (info, s) ← valtypeInfo typeInfo ty s
      return ((max flatLen info.flatLen, max size info.indirectSize, max align info.indirectAlign),
        s)
  | none => return acc

def defvalInfo (id : TypeId) (ty : DefValType) (s : InfoState) :
    Except ComponentError (TypeInfo × InfoState) :=
  match ty with
  | .primitive prim => .ok (primitiveInfo prim, s)
  | .record fields => do
      let ((flatLen, size, align), s) ← fields.foldlM (recordField typeInfo) ((0, 0, 1), s)
      return (⟨id, flatLen, alignTo size (max align 1), max align 1, none⟩, s)
  | .variant cases => do
      let discriminantSize ← variantDiscriminantSize cases.length
      let ((payloadFlat, payloadSize, payloadAlign), s) ←
        cases.foldlM (variantCase typeInfo) ((0, 0, discriminantSize), s)
      let align := max payloadAlign 1
      let payloadOffset := alignTo discriminantSize align
      return (⟨id, 1 + payloadFlat, alignTo (saturatingAdd payloadOffset payloadSize) align, align,
        none⟩, s)
  | .flags labels =>
      let (flatLen, size, align) := flagsInfo labels.length
      .ok (⟨id, flatLen, size, align, some (labels.length % 2 ^ 32)⟩, s)
  | .list elem len => do
      let (_, s) ← valtypeInfo typeInfo elem s
      return (⟨id, 2, 8, 4, len.map (· % 2 ^ 32)⟩, s)
  | .own _ | .borrow _ => .ok (⟨id, 1, 4, 4, none⟩, s)

def tyInfo (id : TypeId) (ty : Ty M) (s : InfoState) : Except ComponentError (TypeInfo × InfoState) :=
  match ty with
  | .defVal ty => defvalInfo typeInfo id ty s
  | .resource _ | .generic _ => .ok (⟨id, 1, 4, 4, none⟩, s)
  | .func _ | .component _ | .instance _ => .ok (⟨id, 0, 0, 1, none⟩, s)

end engine

def typeInfo (types : List (Ty M)) :
    Nat → TypeId → InfoState → Except ComponentError (TypeInfo × InfoState)
  | 0, _, _ => .error (.runtime "type id not found")
  | depth + 1, id, s =>
      match s.memo[id]? with
      | some (some info) => .ok (info, s)
      | _ =>
          match s.visiting[id]?, types[id]? with
          | some true, _ =>
              .error (.unsupported "recursive canonical ABI metadata is not implemented")
          | some false, some ty => do
              let (info, s) ← tyInfo (typeInfo types depth) id ty
                { s with visiting := s.visiting.set id true }
              return (info, ⟨s.memo.set id (some info), s.visiting.set id false⟩)
          | _, _ => .error (.runtime "type id not found")

/-- No type is entered twice, so the number of types bounds the depth. -/
def nextTypeInfo (types : List (Ty M)) (acc : List TypeInfo × InfoState) (id : TypeId) :
    Except ComponentError (List TypeInfo × InfoState) := do
  let (infos, s) := acc
  let (info, s) ← typeInfo types (types.length + 1) id s
  return (infos ++ [info], s)

def buildTypeInfos (types : List (Ty M)) : Except ComponentError (List TypeInfo) := do
  let memo := List.replicate types.length none
  let visiting := List.replicate types.length false
  let (infos, _) ← (List.range types.length).foldlM (nextTypeInfo types) ([], ⟨memo, visiting⟩)
  return infos

/-- The types of a program with the metadata the engine found for them. -/
structure Program (M : Type) where
  arena : TypeArena M
  typeInfos : List TypeInfo
  built : buildTypeInfos arena.types = .ok typeInfos

namespace Program

variable (p : Program M)

def flatTypes (ty : ValType) : Except ComponentError (List CoreValType) :=
  flatTypesForValtype p.arena.types p.arena.types.length ty

def valueFlatLen : ValType → Except ComponentError Nat
  | .primitive prim => .ok (flatTypesForPrimitive prim).length
  | .type id =>
      match p.typeInfos[id]? with
      | some info => .ok info.flatLen
      | none => .error (.runtime "type id not found")

def functionParamsFlatLen (func : FuncType) : Except ComponentError Nat :=
  func.params.foldlM (fun len ty => do return len + (← p.valueFlatLen ty)) 0

/-- What `lower_component_args` passes and `lift_component_args` reads. -/
def coreParams (func : FuncType) : Except ComponentError (List CoreValType) := do
  if maxFlatParams < (← p.functionParamsFlatLen func) then return [.i32]
  else func.params.foldlM (fun out ty => do return out ++ (← p.flatTypes ty)) []

def spillsResult (func : FuncType) : Except ComponentError Bool :=
  match func.result with
  | some ty => do return maxFlatResults < (← p.valueFlatLen ty)
  | none => .ok false

def coreResults (func : FuncType) : Except ComponentError (List CoreValType) :=
  match func.result with
  | some ty => p.flatTypes ty
  | none => .ok []

/-- The core signature of a call as the runtime makes it: a lifted function gives the address of a
result that is too long, a lowered one takes it as its last argument. -/
def coreSignature (func : FuncType) (mode : CanonMode) : Except ComponentError CoreFuncType := do
  let params ← p.coreParams func
  match ← p.spillsResult func, mode with
  | true, .lift => return ⟨params, [.i32]⟩
  | true, .lower => return ⟨params ++ [ValType.i32], []⟩
  | false, _ => return ⟨params, ← p.coreResults func⟩

end Program

end Telomere.Component
