import Telomere.Component.Program
import Telomere.Lib.State

/-!
# Scopes of the decoder

The decoder keeps two scopes for each component it is inside of: one says which definition stands
under an index, the other which type it has. Every definition, import, alias and export adds to both
by code of its own. The items are given as read; what the validator finds about types without
looking at a scope is a parameter.
-/

namespace Telomere.Component

/-- `Scope`: which definitions the indices of a component stand for. -/
structure Scope where
  path : ComponentPath
  values : Space → List Nat
  coreValues : CoreSpace → List Nat
  exports : List (String × SortRef)

/-- What an import is declared to be, or an export is ascribed. -/
inductive ExternDesc (C : Type) where
  | module (ty : C)
  | item (space : Space) (ty : TypeId)
  | eq (ty : TypeId)
  | sub
deriving DecidableEq, Repr

inductive ExportInfo (C : Type) where
  | coreModule (ty : C)
  | item (space : Space) (ty : TypeId)
  | typeEq (ty : TypeId)
  | typeSub (ty : TypeId)
deriving DecidableEq, Repr

/-- `ScopeGuard`: which types they have. -/
structure ScopeGuard (C : Type) where
  typeIndexes : List TypeId
  types : Space → List TypeId
  coreTypes : CoreSpace → List C
  imports : List (String × ComponentImportType C)
  exports : List (String × ExportInfo C)
  exportNames : List String
  importNames : List String

def Scope.empty (path : ComponentPath) : Scope := ⟨path, fun _ => [], fun _ => [], []⟩

def ScopeGuard.empty {C : Type} : ScopeGuard C := ⟨[], fun _ => [], fun _ => [], [], [], [], []⟩

/-- The state of the parser and the validator; the innermost scopes first. The scope of the
validator below that of the root, which nothing is added to, is left out. `opened` counts the
components and `generics` the generics there have been; `destructors` are those of the resources by
their id. -/
structure Decoder (C : Type) where
  opened : Nat
  generics : Nat
  types : List (Ty C)
  destructors : List (Nat × Nat)
  store : Space → List (Placed Relation)
  coreStore : CoreSpace → List (Placed CoreRelation)
  scopes : List Scope
  guards : List (ScopeGuard C)

namespace Decoder

variable {C : Type}

def initial : Decoder C := ⟨1, 0, [], [], fun _ => [], fun _ => [], [.empty .root], [.empty]⟩

def path (d : Decoder C) : ComponentPath := (d.scopes.head?.map (·.path)).getD []

end Decoder

abbrev Decoding (C : Type) := Lib.Run (Decoder C) ParseError

inductive SortType (C : Type) where
  | item (space : Space) (ty : TypeId)
  | coreModule (ty : C)
  | type (ty : TypeId)
deriving DecidableEq, Repr

/-- What the validator decides from types and names alone. Types are only added to the arena. -/
structure Validator (C : Type) where
  weakEq : String → String → Bool
  /-- Annotated names, which name a resource of the scope, and names of instances. -/
  validateName : List (Ty C) → ScopeGuard C → String → ExternDesc C → Except ParseError Unit
  validateExportName : List (Ty C) → ScopeGuard C → String → SortType C →
    Option (ExternDesc C) → Except ParseError Unit
  moduleType : C → Except ParseError C
  /-- An export of a core instance, by the type of the instance. -/
  coreExport : C → String → Option (CoreSpace × C)
  assertInstantiationArgs : C → List (String × C) → Except ParseError C
  coreInlineExports : List (String × (CoreSpace × C)) → Except ParseError C
  freshenImportTypeId : List (Ty C) → TypeId → Except ParseError (TypeId × List (Ty C))
  assertSubtypeOf : List (Ty C) → TypeId → TypeId → Except ParseError Unit
  instantiate : List (Ty C) → TypeId → List (String × SortType C) →
    Except ParseError (TypeId × List (Ty C))
  inlineExports : List (Ty C) → List (String × SortType C) →
    Except ParseError (TypeId × List (Ty C))
  makeComponent : List (Ty C) → ScopeGuard C → Except ParseError (TypeId × List (Ty C))
  /-- The types of the options follow that of the core function. -/
  canonLift : List (Ty C) → C → List (Option C) → TypeId → Except ParseError Unit
  canonLower : List (Ty C) → TypeId → List (Option C) → Except ParseError C
  destructor : Option C → Except ParseError Unit
  canonResource : List (Ty C) → ResourceCanonKind → TypeId → Except ParseError C
  /-- The type has no resources of another component. -/
  currentComponentResources : Decoder C → TypeId → Except ParseError Unit
  freshen_grows : ∀ {types ty ty' types'},
    freshenImportTypeId types ty = .ok (ty', types') → types <+: types'
  instantiate_grows : ∀ {types ty args ty' types'},
    instantiate types ty args = .ok (ty', types') → types <+: types'
  inlineExports_grows : ∀ {types exports ty' types'},
    inlineExports types exports = .ok (ty', types') → types <+: types'
  makeComponent_grows : ∀ {types guard ty' types'},
    makeComponent types guard = .ok (ty', types') → types <+: types'

namespace Decoding

variable {C : Type}

def indexNotFound (idx : Nat) : ParseError := .typeNotFound idx

def invalidScope : ParseError := .typeMismatch "invalid scope"

def lookup {α : Type} (entries : List α) (idx : Nat) : Except ParseError α :=
  match entries[idx]? with
  | some entry => .ok entry
  | none => .error (indexNotFound idx)

/-- `outer_scope` of the parser; the current scope is 0 scopes out. -/
def scope (count : Nat) : Decoding C Scope := do
  match (← get).scopes[count]? with
  | some scope => return scope
  | none => throw invalidScope

/-- `outer_scope` of the validator. -/
def guard (count : Nat) : Decoding C (ScopeGuard C) := do
  match (← get).guards[count]? with
  | some guard => return guard
  | none => throw invalidScope

def valueAt (count : Nat) (space : Space) (idx : Nat) : Decoding C Nat := do
  lookup ((← scope count).values space) idx

def typeAt (count : Nat) (space : Space) (idx : Nat) : Decoding C TypeId := do
  lookup ((← guard count).types space) idx

def coreValueAt (count : Nat) (space : CoreSpace) (idx : Nat) : Decoding C Nat := do
  lookup ((← scope count).coreValues space) idx

def coreTypeAt (count : Nat) (space : CoreSpace) (idx : Nat) : Decoding C C := do
  lookup ((← guard count).coreTypes space) idx

def typeIndexAt (count idx : Nat) : Decoding C TypeId := do
  lookup (← guard count).typeIndexes idx

def register (space : Space) (relation : Relation) : Decoding C Nat := fun d =>
  .ok ((d.store space).length,
    { d with store := Function.update d.store space (d.store space ++ [⟨d.path, relation⟩]) })

def registerCore (space : CoreSpace) (relation : CoreRelation) : Decoding C Nat := fun d =>
  .ok ((d.coreStore space).length,
    { d with
      coreStore := Function.update d.coreStore space (d.coreStore space ++ [⟨d.path, relation⟩]) })

def nextPath : Decoding C ComponentPath := fun d =>
  .ok (d.opened :: d.path, { d with opened := d.opened + 1 })

def modifyScope (f : Scope → Scope) : Decoding C Unit :=
  modify fun d => { d with scopes := d.scopes.modifyHead f }

def modifyGuard (f : ScopeGuard C → ScopeGuard C) : Decoding C Unit :=
  modify fun d => { d with guards := d.guards.modifyHead f }

def addValue (space : Space) (idx : Nat) : Decoding C Unit :=
  modifyScope fun scope =>
    { scope with values := Function.update scope.values space (scope.values space ++ [idx]) }

def addType (space : Space) (ty : TypeId) : Decoding C Unit :=
  modifyGuard fun guard =>
    { guard with types := Function.update guard.types space (guard.types space ++ [ty]) }

def addCoreValue (space : CoreSpace) (idx : Nat) : Decoding C Unit :=
  modifyScope fun scope =>
    { scope with
      coreValues := Function.update scope.coreValues space (scope.coreValues space ++ [idx]) }

def addCoreType (space : CoreSpace) (ty : C) : Decoding C Unit :=
  modifyGuard fun guard =>
    { guard with
      coreTypes := Function.update guard.coreTypes space (guard.coreTypes space ++ [ty]) }

def addTypeIndex (ty : TypeId) : Decoding C Unit :=
  modifyGuard fun guard => { guard with typeIndexes := guard.typeIndexes ++ [ty] }

def add (space : Space) (idx : Nat) (ty : TypeId) : Decoding C Unit := do
  addValue space idx
  addType space ty

def addCore (space : CoreSpace) (idx : Nat) (ty : C) : Decoding C Unit := do
  addCoreValue space idx
  addCoreType space ty

def addExport (name : String) (export_ : SortRef) : Decoding C Unit :=
  modifyScope fun scope => { scope with exports := scope.exports ++ [(name, export_)] }

/-- `Generic::new` -/
def newGeneric (bound : GenericBound) : Decoding C Generic := fun d =>
  .ok (⟨d.generics, bound⟩, { d with generics := d.generics + 1 })

/-- What the validator notes of an import for the type of the component. -/
def addImportType (name : String) (import_ : ComponentImportType C) : Decoding C Unit :=
  modifyGuard fun guard => { guard with imports := guard.imports ++ [(name, import_)] }

def addExportInfo (name : String) (info : ExportInfo C) : Decoding C Unit :=
  modifyGuard fun guard => { guard with exports := guard.exports ++ [(name, info)] }

def setTypes (types : List (Ty C)) : Decoding C Unit :=
  modify fun d => { d with types }

end Decoding

inductive SortIdx where
  | item (space : Space) (idx : Nat)
  | coreModule (idx : Nat)
  | type (idx : Nat)
deriving DecidableEq, Repr

inductive AliasSort where
  | item (space : Space)
  | core (space : CoreSpace)
  | type
deriving DecidableEq, Repr

inductive ExternDescIdx where
  | module (coreType : Nat)
  | item (space : Space) (ty : Nat)
  | eq (ty : Nat)
  | sub
deriving DecidableEq, Repr

structure CanonicalOptionsIdx where
  memory : Option Nat
  realloc : Option Nat
  postReturn : Option Nat
deriving DecidableEq, Repr

/-- One item of a section, or the start or the end of an inner component. `type` brings the types
that were declared inside of it. -/
inductive Item (C : Type) where
  | type (inner : List (Ty C)) (ty : Ty C)
  | resource (id : Nat) (destructor : Option Nat)
  | coreModule (ty : C)
  | coreType (ty : C)
  | coreInstantiate (module : Nat) (args : List (String × Nat))
  | coreInlineExports (exports : List (String × (CoreSpace × Nat)))
  | openComponent
  | closeComponent
  | instantiate (component : Nat) (args : List (String × SortIdx))
  | inlineExports (exports : List (String × SortIdx))
  | aliasExport (sort : AliasSort) (inst : Nat) (name : String)
  | aliasCoreExport (space : CoreSpace) (inst : Nat) (name : String)
  | aliasOuter (sort : AliasSort) (count idx : Nat)
  | canonLift (coreFunc : Nat) (options : CanonicalOptionsIdx) (ty : Nat)
  | canonLower (func : Nat) (options : CanonicalOptionsIdx)
  | canonResource (kind : ResourceCanonKind) (ty : Nat)
  | import_ (name : String) (desc : ExternDescIdx)
  | export_ (name : String) (sort : SortIdx) (desc : Option ExternDescIdx)

section items

variable {C : Type} (k : Validator C)

open Decoding

/-- Sorts that are no types are found in both scopes. -/
def parseSortWithIdx : SortIdx → Decoding C (Option SortRef × SortType C)
  | .item space idx => do
      let ty ← typeAt 0 space idx
      let value ← valueAt 0 space idx
      return (some (.item space value), .item space ty)
  | .coreModule idx => do
      let ty ← coreTypeAt 0 .module idx
      let value ← coreValueAt 0 .module idx
      return (some (.coreModule value), .coreModule ty)
  | .type idx => do return (none, .type (← typeIndexAt 0 idx))

def parseArgs : List (String × SortIdx) →
    Decoding C (List (String × SortRef) × List (String × SortType C))
  | [] => return ([], [])
  | (name, sort) :: args => do
      let (value, ty) ← parseSortWithIdx sort
      let (values, types) ← parseArgs args
      return ((value.toList.map fun value => (name, value)) ++ values, (name, ty) :: types)

def Ty.inSpace : Ty C → Space → Bool
  | .component _, .component | .instance _, .instance | .func _, .func => true
  | _, _ => false

def parseExterndesc : ExternDescIdx → Decoding C (ExternDesc C)
  | .module coreType => do return .module (← k.moduleType (← coreTypeAt 0 .type coreType))
  | .item space idx => do
      let ty ← typeIndexAt 0 idx
      if ((← get).types[ty]?).any (·.inSpace space) then return .item space ty
      else throw (.typeMismatch "expected another type")
  | .eq idx => do return .eq (← typeIndexAt 0 idx)
  | .sub => return .sub

def freshen (ty : TypeId) : Decoding C TypeId := do
  let (ty, types) ← k.freshenImportTypeId (← get).types ty
  setTypes types
  return ty

def parseCoreArgs : List (String × Nat) → Decoding C (List (String × Nat) × List (String × C))
  | [] => return ([], [])
  | (name, idx) :: args => do
      let ty ← coreTypeAt 0 .instance idx
      let value ← coreValueAt 0 .instance idx
      let (values, types) ← parseCoreArgs args
      return ((name, value) :: values, (name, ty) :: types)

def parseCoreInlineExports : List (String × (CoreSpace × Nat)) →
    Decoding C (List (String × (CoreSpace × Nat)) × List (String × (CoreSpace × C)))
  | [] => return ([], [])
  | (name, space, idx) :: exports => do
      let ty ← coreTypeAt 0 space idx
      let value ← coreValueAt 0 space idx
      let (values, types) ← parseCoreInlineExports exports
      return ((name, space, value) :: values, (name, space, ty) :: types)

def checkDistinct (names : List String) : Except ParseError Unit :=
  if names.Nodup then .ok () else .error (.typeMismatch "duplicated name")

def parseCoreInstantiate (module : Nat) (args : List (String × Nat)) : Decoding C Unit := do
  let moduleIdx ← coreValueAt 0 .module module
  let moduleTy ← coreTypeAt 0 .module module
  let (imports, importTypes) ← parseCoreArgs args
  checkDistinct (args.map (·.1))
  let ty ← k.assertInstantiationArgs moduleTy importTypes
  let idx ← registerCore .instance (.defined (.instance moduleIdx imports))
  addCore .instance idx ty

def parseCoreInlineExport (exports : List (String × (CoreSpace × Nat))) : Decoding C Unit := do
  let (values, types) ← parseCoreInlineExports exports
  checkDistinct (exports.map (·.1))
  let ty ← k.coreInlineExports types
  let idx ← registerCore .instance (.defined (.inlineExport values))
  addCore .instance idx ty

def parseInstantiate (component : Nat) (args : List (String × SortIdx)) : Decoding C Unit := do
  let (imports, types) ← parseArgs args
  checkDistinct (args.map (·.1))
  let componentIdx ← valueAt 0 .component component
  let componentTy ← typeAt 0 .component component
  let (ty, arena) ← k.instantiate (← get).types componentTy types
  setTypes arena
  let idx ← register .instance (.defined (.instance componentIdx imports))
  add .instance idx ty

/-- A component of its own stands behind the instance; no index names it. -/
def parseInlineexport (exports : List (String × SortIdx)) : Decoding C Unit := do
  let (values, types) ← parseArgs exports
  let (ty, arena) ← k.inlineExports (← get).types types
  setTypes arena
  let path ← nextPath
  let component ← register .component (.defined (.component path values))
  let idx ← register .instance (.defined (.instance component []))
  add .instance idx ty

def instanceExport (types : List (Ty C)) (ty : TypeId) (name : String) :
    Except ParseError (ExportType C) :=
  match types[ty]? with
  | some (.instance instanceTy) =>
      match instanceTy.exports.lookup name with
      | some export_ => .ok export_
      | none => .error (.exportNotFound name)
  | some _ => .error (.typeMismatch "Type ID does not refer to any instance")
  | none => .error (.typeNotFound ty)

def aliasMismatch : ParseError := .typeMismatch "alias type is mismatch"

def parseExportAlias (sort : AliasSort) (inst : Nat) (name : String) : Decoding C Unit := do
  let instanceIdx ← valueAt 0 .instance inst
  let instanceTy ← typeAt 0 .instance inst
  let export_ ← instanceExport (← get).types instanceTy name
  match sort, export_ with
  | .item .component, .component ty => do
      let ty ← freshen k ty
      let idx ← register .component (.fromExport instanceIdx name)
      add .component idx ty
  | .item .func, .func ty => do
      let idx ← register .func (.fromExport instanceIdx name)
      add .func idx ty
  | .type, .type ty => addTypeIndex ty
  | .item .instance, .instance ty => do
      let ty ← freshen k ty
      let idx ← register .instance (.fromExport instanceIdx name)
      add .instance idx ty
  | .core .module, .coreModule ty => do
      let idx ← registerCore .module (.fromExport instanceIdx name)
      addCore .module idx ty
  | _, _ => throw aliasMismatch

def parseCoreExport (space : CoreSpace) (inst : Nat) (name : String) : Decoding C Unit := do
  let instanceIdx ← coreValueAt 0 .instance inst
  let instanceTy ← coreTypeAt 0 .instance inst
  match k.coreExport instanceTy name with
  | some (found, ty) =>
      if found = space then do
        let idx ← registerCore space (.fromCoreExport instanceIdx name)
        addCore space idx ty
      else throw aliasMismatch
  | none => throw (.exportNotFound name)

/-- Types are only in the scopes of the validator. Of the core sorts, modules and types can be
reached. -/
def parseOuterExport (sort : AliasSort) (count idx : Nat) : Decoding C Unit := do
  match sort with
  | .item space => do
      let value ← valueAt count space idx
      let ty ← typeAt count space idx
      add space value ty
  | .core space =>
      if space = .module ∨ space = .type then do
        let value ← coreValueAt count space idx
        let ty ← coreTypeAt count space idx
        addCore space value ty
      else throw (.typeMismatch "unsupported outer alias sort")
  | .type => do
      let ty ← typeIndexAt count idx
      k.currentComponentResources (← get) ty
      addTypeIndex ty

/-- A memory or a function of an option; both scopes are asked. -/
def parseOption (space : CoreSpace) : Option Nat → Decoding C (Option Nat × Option C)
  | none => return (none, none)
  | some idx => do
      let ty ← coreTypeAt 0 space idx
      let value ← coreValueAt 0 space idx
      return (some value, some ty)

def parseCanonicalOptions (options : CanonicalOptionsIdx) :
    Decoding C (CanonicalRefs × List (Option C)) := do
  let (memory, memoryTy) ← parseOption .memory options.memory
  let (realloc, reallocTy) ← parseOption .func options.realloc
  let (postReturn, postReturnTy) ← parseOption .func options.postReturn
  return (⟨memory, realloc, postReturn⟩, [memoryTy, reallocTy, postReturnTy])

def parseLift (coreFunc : Nat) (options : CanonicalOptionsIdx) (ty : Nat) : Decoding C Unit := do
  let coreFuncIdx ← coreValueAt 0 .func coreFunc
  let coreFuncTy ← coreTypeAt 0 .func coreFunc
  let (options, optionTypes) ← parseCanonicalOptions options
  let ty ← typeIndexAt 0 ty
  k.canonLift (← get).types coreFuncTy optionTypes ty
  let idx ← register .func (.defined (.canonLift coreFuncIdx ty options))
  add .func idx ty

def parseLower (func : Nat) (options : CanonicalOptionsIdx) : Decoding C Unit := do
  let funcIdx ← valueAt 0 .func func
  let ty ← typeAt 0 .func func
  let (options, optionTypes) ← parseCanonicalOptions options
  let lowered ← k.canonLower (← get).types ty optionTypes
  let idx ← registerCore .func (.defined (.canonLower funcIdx ty options))
  addCore .func idx lowered

def destructorOf (types : List (Ty C)) (destructors : List (Nat × Nat)) : Nat → TypeId → Option Nat
  | 0, _ => none
  | depth + 1, ty =>
      match types[ty]? with
      | some (.resource id) => destructors.lookup id
      | some (.defVal (.own inner)) | some (.defVal (.borrow inner))
      | some (.generic ⟨_, .eq inner⟩) => destructorOf types destructors depth inner
      | _ => none

def parseResource (kind : ResourceCanonKind) (ty : Nat) : Decoding C Unit := do
  let ty ← typeIndexAt 0 ty
  let coreTy ← k.canonResource (← get).types kind ty
  let d ← get
  let destructor := destructorOf d.types d.destructors d.types.length ty
  let idx ← registerCore .func (.defined (.canonResource kind ty destructor))
  addCore .func idx coreTy

def parseResourceType (id : Nat) (destructor : Option Nat) : Decoding C Unit := do
  let (destructor, destructorTy) ← parseOption .func destructor
  k.destructor destructorTy
  modify fun d =>
    { d with destructors := d.destructors ++ (destructor.map fun func => (id, func)).toList }
  let types := (← get).types
  setTypes (types ++ [.resource id])
  addTypeIndex types.length

def addImported (name : String) : ExternDesc C → Decoding C Unit
  | .module ty => do
      let idx ← registerCore .module (.importModule name)
      addImportType name (.coreModule ty)
      addCore .module idx ty
  | .item .instance ty => do
      let ty ← freshen k ty
      let idx ← register .instance (.imported name)
      addImportType name (.type ty (← newGeneric (.eq ty)))
      add .instance idx ty
  | .item space ty => do
      let idx ← register space (.imported name)
      addImportType name (.type ty (← newGeneric (.eq ty)))
      add space idx ty
  | .eq ty => do
      addImportType name (.type ty (← newGeneric (.eq ty)))
      addTypeIndex ty
  | .sub => do
      let generic ← newGeneric .sub
      let types := (← get).types
      setTypes (types ++ [.generic generic])
      addImportType name (.type types.length generic)
      addTypeIndex types.length

def parseImport (name : String) (desc : ExternDescIdx) : Decoding C Unit := do
  if (← guard 0).importNames.any (k.weakEq · name) then
    throw (.typeMismatch "import name conflicts with previous name")
  else
    modifyGuard fun guard => { guard with importNames := guard.importNames ++ [name] }
    let desc ← parseExterndesc k desc
    k.validateName (← get).types (← guard 0) name desc
    addImported k name desc

/-- The type an export is given: its own, or one that is ascribed and was checked. -/
def ascribe (space : Space) (ty : TypeId) : Option (ExternDesc C) → Decoding C TypeId
  | none => return ty
  | some (.item space' ascribed) =>
      if space' = space then do
        k.assertSubtypeOf (← get).types ty ascribed
        return ascribed
      else throw (.typeMismatch "export kind mismatch")
  | some _ => throw (.typeMismatch "export kind mismatch")

def isResource : Ty C → Bool
  | .resource _ | .generic _ => true
  | _ => false

def checkTypeExport (ty : TypeId) : Option (ExternDesc C) → Decoding C (ExportInfo C)
  | none => return .typeEq ty
  | some (.eq ascribed) => do
      k.assertSubtypeOf (← get).types ty ascribed
      return .typeEq ascribed
  | some .sub => do
      if ((← get).types[ty]?).any isResource then return .typeSub ty
      else throw (.typeMismatch "export kind mismatch")
  | some _ => throw (.typeMismatch "export kind mismatch")

def addExported (name : String) (desc : Option (ExternDesc C)) :
    Option SortRef × SortType C → Decoding C Unit
  | (some (.coreModule idx), .coreModule ty) => do
      addExport name (.coreModule idx)
      addCoreValue .module idx
      addExportInfo name (.coreModule ty)
  | (none, .type ty) => do
      let info ← checkTypeExport k ty desc
      addTypeIndex ty
      addExportInfo name info
  | (some (.item .component idx), .item _ ty) => do
      let ty ← ascribe k .component ty desc
      addExport name (.item .component idx)
      addType .component ty
      addExportInfo name (.item .component ty)
  | (some (.item space idx), .item _ ty) => do
      let ty ← ascribe k space ty desc
      addExport name (.item space idx)
      add space idx ty
      addExportInfo name (.item space ty)
  | _ => throw (.typeMismatch "export kind mismatch")

def parseExport (name : String) (sort : SortIdx) (desc : Option ExternDescIdx) :
    Decoding C Unit := do
  if (← guard 0).exportNames.any (k.weakEq · name) then
    throw (.typeMismatch "export name conflicts with previous name")
  else
    modifyGuard fun guard => { guard with exportNames := guard.exportNames ++ [name] }
    let sort ← parseSortWithIdx sort
    let desc ← desc.mapM (parseExterndesc k)
    k.validateExportName (← get).types (← guard 0) name sort.2 desc
    addExported k name desc sort

def openComponent : Decoding C Unit := do
  let path ← nextPath
  modify fun d => { d with scopes := .empty path :: d.scopes, guards := .empty :: d.guards }

/-- The root component is not closed: there the input ends. -/
def closeComponent : Decoding C Unit := do
  let inner ← scope 0
  let innerGuard ← guard 0
  let _ ← scope 1
  let (ty, arena) ← k.makeComponent (← get).types innerGuard
  modify fun d => { d with scopes := d.scopes.tail, guards := d.guards.tail }
  setTypes arena
  let idx ← register .component (.defined (.component inner.path inner.exports))
  add .component idx ty

def decodeItem : Item C → Decoding C Unit
  | .type inner ty => do
      let types := (← get).types ++ inner
      setTypes (types ++ [ty])
      addTypeIndex types.length
  | .resource id destructor => parseResourceType k id destructor
  | .coreModule ty => do
      let idx ← registerCore .module (.defined .module)
      addCore .module idx ty
  | .coreType ty => do
      let idx ← registerCore .type (.defined .type)
      addCore .type idx ty
  | .coreInstantiate module args => parseCoreInstantiate k module args
  | .coreInlineExports exports => parseCoreInlineExport k exports
  | .openComponent => openComponent
  | .closeComponent => closeComponent k
  | .instantiate component args => parseInstantiate k component args
  | .inlineExports exports => parseInlineexport k exports
  | .aliasExport sort inst name => parseExportAlias k sort inst name
  | .aliasCoreExport space inst name => parseCoreExport k space inst name
  | .aliasOuter sort count idx => parseOuterExport k sort count idx
  | .canonLift coreFunc options ty => parseLift k coreFunc options ty
  | .canonLower func options => parseLower k func options
  | .canonResource kind ty => parseResource k kind ty
  | .import_ name desc => parseImport k name desc
  | .export_ name sort desc => parseExport k name sort desc

end items

end Telomere.Component
