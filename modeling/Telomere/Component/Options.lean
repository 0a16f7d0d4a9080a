import Telomere.Component.FlatAgreement
import Telomere.Component.Lift
import Telomere.Lib.Demand

/-!
# Canonical options

The decoder demands `memory` and `realloc` of a canonical function from its type. The runtime asks
for them when it comes to a string or a list, or to values that are too many for core values. The
decoder lets a list of fixed length pass whose elements need no memory; the runtime stores it like
every other list.
-/

namespace Telomere.Component

variable {M σ : Type}

/-- Memory and function are indices of the component. -/
structure CanonicalOptions where
  memory : Option Nat
  realloc : Option Nat
deriving DecidableEq, Repr

section decoder

variable (typeNeedsMemory : ValType → Bool)

def defvalNeedsMemory : DefValType → Bool
  | .primitive prim => prim == .string
  | .record fields => fields.any fun field => typeNeedsMemory field.ty
  | .variant cases => (cases.filterMap (·.ty)).any typeNeedsMemory
  | .flags _ => false
  | .list elem len => len.isNone || typeNeedsMemory elem
  | .own _ | .borrow _ => false

def definedTypeNeedsMemory : Ty M → Bool
  | .defVal ty => defvalNeedsMemory typeNeedsMemory ty
  | _ => false

end decoder

def typeNeedsMemory (types : List (Ty M)) : Nat → ValType → Bool
  | _, .primitive prim => prim == .string
  | 0, .type _ => false
  | depth + 1, .type id =>
      match types[id]? with
      | some ty => definedTypeNeedsMemory (typeNeedsMemory types depth) ty
      | none => false

def validateRequiredOptions (a : TypeArena M) (func : FuncType) (options : CanonicalOptions)
    (mode : CanonMode) : Except ParseError Unit := do
  let directParams ← flattenParamTypes a func
  let directResults ← flattenResultTypes a func
  let paramsNeedMemory := func.params.any (typeNeedsMemory a.types a.types.length)
  let resultsNeedMemory := func.result.any (typeNeedsMemory a.types a.types.length)
  let paramsIndirect := decide (maxFlatParams < directParams.length)
  let resultsIndirect := decide (maxFlatResults < directResults.length)
  let needsMemory := paramsNeedMemory || paramsIndirect || resultsNeedMemory || resultsIndirect
  let needsRealloc := match mode with
    | .lift => paramsNeedMemory || paramsIndirect
    | .lower => resultsNeedMemory
  if needsMemory && options.memory.isNone then
    .error (.typeMismatch "canonical option `memory` is required")
  else if needsRealloc && options.realloc.isNone then
    .error (.typeMismatch "canonical option `realloc` is required")
  else if options.realloc.isSome && options.memory.isNone then
    .error (.typeMismatch "canonical option `memory` is required")
  else .ok ()

def ComponentError.MissingOption : ComponentError → Prop
  | .runtime message =>
      message = "canonical option `memory` is required" ∨
        message = "canonical option `realloc` is required"
  | _ => False

instance : DecidablePred ComponentError.MissingOption
  | .runtime _ => inferInstanceAs (Decidable (_ ∨ _))
  | .unsupported _ | .invalidArgument _ | .trap _ => inferInstanceAs (Decidable False)

open ComponentError (MissingOption)
open Lib (Demand)

/-- The options of the runtime are those of the decoder. Core code fails with a trap, or because it
would have to wait. -/
structure Resolved (options : CanonicalOptions) (o : RuntimeCanonicalOptions σ) : Prop where
  memory : o.memory = options.memory.isSome
  realloc : o.realloc.isSome = options.realloc.isSome
  quiet : ∀ realloc, o.realloc = some realloc → ∀ args, Lib.RunSpares MissingOption (realloc args)

/-- Lifting and lowering the arguments and results of a call asks for no option that is missing:
`canon lift` lowers arguments and lifts results, `canon lower` lifts arguments and lowers results.
-/
def OptionsSuffice (p : Program M) (o : RuntimeCanonicalOptions σ) (func : FuncType) :
    CanonMode → Prop
  | .lift =>
      (∀ args, Lib.RunSpares MissingOption (p.lowerComponentArgs o func args)) ∧
        ∀ m results, Lib.Spares MissingOption (p.liftComponentResults o m func results)
  | .lower =>
      (∀ m args, Lib.Spares MissingOption (p.liftComponentArgs o m func args)) ∧
        ∀ results area, Lib.RunSpares MissingOption (p.lowerComponentResults o func results area)

/-- A way to convert values: what it demands for strings and lists of any length, and for lists of
fixed length, whether it takes a generic type for a handle, and whether it takes a tuple with too
few values. -/
structure Path where
  stored : Demand
  fixed : Demand
  generics : Bool
  shortTuples : Bool

section demand

variable (path : Path) (types : List (Ty M))

def primDemand : PrimValType → Demand
  | .string => path.stored
  | .errorContext => .blocked
  | _ => .free

def handleDemand (resource : TypeId) : Demand :=
  match validateResourceType types types.length resource with
  | .ok _ => .free
  | .error _ => .blocked

section defval

variable (below : ValType → Demand)

def caseDemand (case : Case) : Demand :=
  (case.ty.map below).getD .free

def defvalDemand : DefValType → Demand
  | .primitive prim => primDemand path prim
  | .record fields =>
      let inner := Demand.seqAll (fun field => below field.ty) fields
      ⟨inner.passes || (path.shortTuples && isTupleFields fields), inner.asks⟩
  | .variant cases => Demand.altAll (caseDemand below) cases
  | .flags _ => .free
  | .list _ len => if len.isSome then path.fixed else path.stored
  | .own resource | .borrow resource => handleDemand types resource

def typeDemand : Ty M → Demand
  | .defVal ty => defvalDemand path types below ty
  | .resource _ => .free
  | .generic _ => if path.generics then .free else .blocked
  | _ => .blocked

end defval

def demand : Nat → ValType → Demand
  | _, .primitive prim => primDemand path prim
  | 0, .type _ => .blocked
  | depth + 1, .type id =>
      match types[id]? with
      | some ty => typeDemand path types (demand depth) ty
      | none => .blocked

end demand

namespace Program

variable (p : Program M)

/-- To core values, without `realloc` for lists of fixed length. -/
def lowerPath : Path := ⟨.free, .wanting, false, true⟩

/-- To memory, without `realloc` for lists of fixed length. -/
def writePath : Path := ⟨.free, .wanting, true, true⟩

/-- From core values, without `memory` for lists of fixed length. -/
def liftPath : Path := ⟨.free, .wanting, false, false⟩

def demandOf (path : Path) (ty : ValType) : Demand :=
  demand path p.arena.types p.arena.types.length ty

def paramsDemand (path : Path) (func : FuncType) : Demand :=
  Demand.seqAll (p.demandOf path) func.params

/-- No conversion comes to a list of fixed length without the option that it takes for one. -/
def CoversLists (options : CanonicalOptions) (func : FuncType) : CanonMode → Prop
  | .lift => options.realloc.isSome ∨ (p.paramsDemand lowerPath func).asks = false
  | .lower =>
      (options.memory.isSome ∨ (p.paramsDemand liftPath func).asks = false) ∧
        (options.realloc.isSome ∨
          ∀ ty, func.result = some ty → (p.demandOf writePath ty).asks = false)

end Program

end Telomere.Component
