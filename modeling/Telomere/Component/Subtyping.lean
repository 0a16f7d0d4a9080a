import Telomere.Component.Flatten
import Telomere.Lib.Named

/-!
# The subtype check

The check walks two types at once. It compares components and instances in two ways: entry by entry
by name where it holds the types themselves, and along two lists sorted by interned name where it
holds their indices.
-/

namespace Telomere.Component

abbrev Check := Except ParseError Unit

def mismatch (message : String) : Check := .error (.typeMismatch message)

def require (p : Prop) [Decidable p] (message : String) : Check :=
  if p then .ok () else mismatch message

theorem require_eq_ok {p : Prop} [Decidable p] {message : String} :
    require p message = .ok () ↔ p := by
  by_cases h : p <;> simp [require, mismatch, h]

structure Checks (M : Type) where
  typeIds : TypeId → TypeId → Check
  componentIds : TypeId → TypeId → Check
  instanceIds : TypeId → TypeId → Check
  tys : Ty M → Ty M → Check

section checks

variable {M : Type} [DecidableEq M] (types : List (Ty M)) (below : Checks M)

def getType (id : TypeId) : Except ParseError (Ty M) :=
  match types[id]? with
  | some ty => .ok ty
  | none => .error (.typeNotFound id)

def getFuncType (id : TypeId) : Except ParseError FuncType := do
  match ← getType types id with
  | .func ty => return ty
  | _ => .error (.typeMismatch "Type ID does not refer to any func")

def getComponentType (id : TypeId) : Except ParseError (ComponentType M) := do
  match ← getType types id with
  | .component ty => return ty
  | _ => .error (.typeMismatch "Type ID does not refer to any component")

def getInstanceType (id : TypeId) : Except ParseError (InstanceType M) := do
  match ← getType types id with
  | .instance ty => return ty
  | _ => .error (.typeMismatch "Type ID does not refer to any instance")

def ValType.assertSubtypeOf : ValType → ValType → Check
  | .type a, .type b => below.typeIds a b
  | .type a, .primitive prim => do below.tys (← getType types a) (.defVal (.primitive prim))
  | .primitive prim, .type b => do below.tys (.defVal (.primitive prim)) (← getType types b)
  | .primitive a, .primitive b => require (a = b) "prim valtype mismatch"

def LabelValType.assertSubtypeOf (field parent : LabelValType) : Check := do
  require (field.label = parent.label) "label mismatch"
  field.ty.assertSubtypeOf types below parent.ty

def Case.assertSubtypeOf (case parent : Case) : Check := do
  require (case.label = parent.label) "variant label mismatch"
  match case.ty, parent.ty with
  | some ty, some parentTy => ty.assertSubtypeOf types below parentTy
  | none, none => .ok ()
  | _, _ => mismatch "variant payload mismatch"

def DefValType.assertSubtypeOf : DefValType → DefValType → Check
  | .primitive a, .primitive b => require (a = b) "prim val type mismatch"
  | .record fields, .record parentFields => do
      require (fields.length = parentFields.length) "record arity mismatch"
      (fields.zip parentFields).forM fun p => p.1.assertSubtypeOf types below p.2
  | .variant cases, .variant parentCases => do
      require (cases.length = parentCases.length) "variant arity mismatch"
      (cases.zip parentCases).forM fun p => p.1.assertSubtypeOf types below p.2
  | .flags labels, .flags parentLabels => do
      require (labels.length = parentLabels.length) "flags arity mismatch"
      require (labels = parentLabels) "flag label mismatch"
  | .list ty len, .list parentTy parentLen => do
      ty.assertSubtypeOf types below parentTy
      require (len = parentLen) "list length mismatch"
  | .own id, .own parentId => below.typeIds id parentId
  | .borrow id, .borrow parentId => below.typeIds id parentId
  | _, _ => mismatch "defvaltype mismatch"

/-- Names are compared only where both sides have as many. -/
def assertParamNames (names parent : List Label) : Check :=
  if names.length = parent.length then
    (names.zip parent).forM fun p =>
      require (p.1 = p.2) ("expected parameter named `" ++ p.2 ++ "`, found `" ++ p.1 ++ "`")
  else .ok ()

def FuncType.assertSubtypeOf (func parent : FuncType) : Check := do
  require (func.params.length = parent.params.length) "arity mismatch"
  assertParamNames func.paramNames parent.paramNames
  (func.params.zip parent.params).forM fun p => p.1.assertSubtypeOf types below p.2
  match func.result, parent.result with
  | none, none => .ok ()
  | some a, some b => a.assertSubtypeOf types below b
  | _, _ => mismatch "result type mismatch"

def GenericBound.assertSubtypeOf : GenericBound → GenericBound → Check
  | .eq a, .eq b => below.typeIds a b
  | .eq id, .sub => do
      match ← getType types id with
      | .resource _ => .ok ()
      | _ => mismatch "expected any resource"
  | .sub, .eq _ => mismatch "sub resource cannot assign to except sub resource"
  | .sub, .sub => .ok ()

/-- The comparison of two imports of one name, in both versions. -/
def assertImports : ComponentImportType M → ComponentImportType M → Check
  | .type _ child, .type _ parent => child.bound.assertSubtypeOf types below parent.bound
  | .coreModule child, .coreModule parent =>
      require (child = parent) "import kind mismatch"
  | _, _ => mismatch "import kind mismatch"

def ExportType.assertSubtypeOf : ExportType M → ExportType M → Check
  | .coreModule a, .coreModule b => require (a = b) "core module export mismatch"
  | .component a, .component b => below.componentIds a b
  | .instance a, .instance b => below.instanceIds a b
  | .type a, .type b => below.typeIds a b
  | .func a, .func b => do
      (← getFuncType types a).assertSubtypeOf types below (← getFuncType types b)
  | _, _ => mismatch "export kind mismatch"

def ComponentType.assertSubtypeOf (child parent : ComponentType M) : Check := do
  require (child.imports.length ≤ parent.imports.length) "import count mismatch"
  Lib.matchNamed (fun _ => .typeMismatch "import name mismatch") (assertImports types below)
    child.imports parent.imports
  require (parent.exports.length ≤ child.exports.length) "export count mismatch"
  Lib.matchNamed (fun _ => .typeMismatch "import name mismatch")
    (ExportType.assertSubtypeOf types below) parent.exports child.exports

def InstanceType.assertSubtypeOf (child parent : InstanceType M) : Check := do
  require (parent.exports.length ≤ child.exports.length) "instance export count"
  Lib.matchNamed .exportNotFound (fun promised own => own.assertSubtypeOf types below promised)
    parent.exports child.exports

def surface {α : Type} (intern : String → Nat) (entries : List (String × α)) : List (Nat × α) :=
  (entries.map fun entry => (intern entry.1, entry.2)).insertionSort fun x y => x.1 ≤ y.1

variable (intern : String → Nat)

def assertComponentTypeIds (childId parentId : TypeId) : Check := do
  let child ← getComponentType types childId
  let parent ← getComponentType types parentId
  require (child.imports.length ≤ parent.imports.length) "import count mismatch"
  Lib.matchSorted (.typeMismatch "import name mismatch") (assertImports types below)
    (surface intern child.imports) (surface intern parent.imports)
  require (parent.exports.length ≤ child.exports.length) "export count mismatch"
  Lib.matchSorted (.typeMismatch "export name mismatch") (ExportType.assertSubtypeOf types below)
    (surface intern parent.exports) (surface intern child.exports)

def assertInstanceTypeIds (childId parentId : TypeId) : Check := do
  let child ← getInstanceType types childId
  let parent ← getInstanceType types parentId
  require (parent.exports.length ≤ child.exports.length) "instance export count"
  Lib.matchSorted (.typeMismatch "instance export mismatch")
    (fun promised own => own.assertSubtypeOf types below promised)
    (surface intern parent.exports) (surface intern child.exports)

def Ty.assertSubtypeOf : Ty M → Ty M → Check
  | .defVal a, .defVal b => a.assertSubtypeOf types below b
  | .generic ⟨_, .eq a⟩, b => do below.tys (← getType types a) b
  | .generic ⟨_, .sub⟩, .generic ⟨_, bound⟩ => GenericBound.sub.assertSubtypeOf types below bound
  | .generic ⟨_, .sub⟩, _ => mismatch "generic resource cannot assign to concrete type"
  | a, .generic ⟨_, .eq b⟩ => do below.tys a (← getType types b)
  | .resource _, .generic ⟨_, .sub⟩ => .ok ()
  | _, .generic ⟨_, .sub⟩ => mismatch "expected any resource"
  | .func a, .func b => a.assertSubtypeOf types below b
  | .resource a, .resource b => require (a = b) "resource types are not the same"
  | .component a, .component b => a.assertSubtypeOf types below b
  | .instance a, .instance b => a.assertSubtypeOf types below b
  | _, _ => mismatch "resource kind mismatch"

def assertTypeIds (child parent : TypeId) : Check :=
  if child = parent then .ok ()
  else do
    match ← getType types child, ← getType types parent with
    | .component _, .component _ => assertComponentTypeIds types below intern child parent
    | .instance _, .instance _ => assertInstanceTypeIds types below intern child parent
    | lhs, rhs => lhs.assertSubtypeOf types below rhs

end checks

/-- The checks to a depth. Below depth 0 nothing is accepted. -/
def checks {M : Type} [DecidableEq M] (types : List (Ty M)) (intern : String → Nat) : Nat → Checks M
  | 0 =>
      let none := mismatch "depth"
      ⟨fun _ _ => none, fun _ _ => none, fun _ _ => none, fun _ _ => none⟩
  | depth + 1 =>
      let below := checks types intern depth
      ⟨assertTypeIds types below intern, assertComponentTypeIds types below intern,
        assertInstanceTypeIds types below intern, Ty.assertSubtypeOf types below⟩

end Telomere.Component
