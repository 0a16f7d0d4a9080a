import Telomere.Component.Program
import Telomere.Lib.Attempt

/-!
# Environments of component instances

The runtime resolves the definitions of a program when they are first needed, in the environment of
the component instance that asks for them, and keeps them there. Imports are found by their name: in
the environment, among the bindings of the linker, in the environments around it. Environments and
instances are referred to by their places in lists.
-/

namespace Telomere.Component

/-- `ComponentProgram`, as far as it is read when definitions are resolved. -/
structure ComponentProgram (C : Type) where
  types : List (Ty C)
  store : Space → List (Placed Relation)
  coreStore : CoreSpace → List (Placed CoreRelation)
  root : List (String × SortRef)
  callableExports : List String

namespace ComponentProgram

variable {C : Type} (p : ComponentProgram C)

def relation (space : Space) (idx : Nat) : Option Relation :=
  ((p.store space)[idx]?).map (·.relation)

def coreRelation (space : CoreSpace) (idx : Nat) : Option CoreRelation :=
  ((p.coreStore space)[idx]?).map (·.relation)

end ComponentProgram

/-- `ComponentLinker`; `B` stands for its bindings. -/
structure ComponentLinker (B : Type) where
  imports : List (String × B)
  exports : List (String × B)
  importInstances : List (String × List (String × B))

inductive LinkError where
  | link (message : String)
  | unsupported (message : String)
  | exportNotFound (name : String)
  | runtime (message : String)
  | instantiation
  | outOfFuel
deriving DecidableEq, Repr

abbrev EnvId := Nat

/-- An export of the core instance that was created at that place. -/
structure CoreExportRef where
  inst : Nat
  name : String
deriving DecidableEq, Repr

mutual

inductive ResolvedCallable (B : Type) where
  | linked (binding : B)
  | lifted (core : RuntimeCoreFunc B) (ty : TypeId) (memory : Option CoreExportRef)
      (realloc postReturn : Option (RuntimeCoreFunc B))

inductive RuntimeCoreFunc (B : Type) where
  | export_ (source : CoreExportRef)
  | lower (callable : ResolvedCallable B) (ty : TypeId) (memory : Option CoreExportRef)
      (realloc postReturn : Option (RuntimeCoreFunc B))
  | resource (kind : ResourceCanonKind) (ty : TypeId) (destructor : Option (RuntimeCoreFunc B))

end

/-- The environment is that in which the definition was resolved. -/
structure RuntimeComponentDef where
  path : ComponentPath
  exports : List (String × SortRef)
  env : EnvId
deriving DecidableEq, Repr

/-- `RuntimeImport` and `RuntimeExport`, which have the same cases. -/
inductive RuntimeValue (B : Type) where
  | component (definition : RuntimeComponentDef)
  | instance (inst : Nat)
  | func (callable : ResolvedCallable B)
  | coreModule (module : Nat)

structure RuntimeCaches (B : Type) where
  components : List (Nat × RuntimeComponentDef)
  instances : List (Nat × Nat)
  funcs : List (Nat × ResolvedCallable B)
  coreModules : List (Nat × Nat)
  coreInstances : List (Nat × Nat)
  coreFuncs : List (Nat × RuntimeCoreFunc B)
  coreMemories : List (Nat × CoreExportRef)
  coreTables : List (Nat × CoreExportRef)

def RuntimeCaches.empty {B : Type} : RuntimeCaches B := ⟨[], [], [], [], [], [], [], []⟩

/-- `parents` is the parent with its own parents, the nearest first. Which component the environment
belongs to is bookkeeping. -/
structure RuntimeEnv (B : Type) where
  path : ComponentPath
  imports : List (String × RuntimeValue B)
  parents : List EnvId
  caches : RuntimeCaches B

inductive RuntimeComponentSource (B : Type) where
  | component (exports : List (String × SortRef))
  | linkerInstance (exports : List (String × B))

structure RuntimeComponentInstance (B : Type) where
  source : RuntimeComponentSource B
  env : EnvId
  exports : List (String × RuntimeValue B)

/-- All there is at run time. A core instance is noted with its definition and the environment it
was created in. `coreExports` is bookkeeping: the environments in which an export of a core instance
was resolved. -/
structure Runtime (B : Type) where
  envs : List (RuntimeEnv B)
  instances : List (RuntimeComponentInstance B)
  coreInstances : List (Nat × EnvId)
  coreExports : List EnvId

abbrev Resolve (B : Type) := Lib.Attempt (Runtime B) LinkError

structure ImportFrame (B : Type) where
  env : EnvId
  path : ComponentPath
  imports : List (String × RuntimeValue B)

namespace Runtime

variable {B : Type}

def frame (s : Runtime B) (e : EnvId) : Option (ImportFrame B) :=
  (s.envs[e]?).map fun env => ⟨e, env.path, env.imports⟩

/-- The environment with those around it, the nearest first. -/
def chain (s : Runtime B) (e : EnvId) : List (ImportFrame B) :=
  match s.envs[e]? with
  | some env => (e :: env.parents).filterMap s.frame
  | none => []

def modifyCaches (e : EnvId) (f : RuntimeCaches B → RuntimeCaches B) (s : Runtime B) : Runtime B :=
  { s with envs := s.envs.modify e fun env => { env with caches := f env.caches } }

end Runtime

section resolve

variable {B C α : Type}

open Lib.Attempt (fail get modify each)

def environment (e : EnvId) : Resolve B (RuntimeEnv B) := do
  match (← get).envs[e]? with
  | some env => return env
  | none => fail (.link "environment missing")

def addEnv (env : RuntimeEnv B) : Resolve B EnvId := do
  let s ← get
  modify fun s => { s with envs := s.envs ++ [env] }
  return s.envs.length

def addInstance (source : RuntimeComponentSource B) (env : EnvId) : Resolve B Nat := do
  let s ← get
  modify fun s => { s with instances := s.instances ++ [⟨source, env, []⟩] }
  return s.instances.length

/-- The clone has caches of its own, with the same entries. -/
def cloneShallow (e : EnvId) : Resolve B EnvId := do addEnv (← environment e)

def cached (entries : RuntimeCaches B → List (Nat × α))
    (setEntries : RuntimeCaches B → List (Nat × α) → RuntimeCaches B) (e : EnvId) (idx : Nat)
    (resolve : Resolve B α) : Resolve B α := do
  match (entries (← environment e).caches).lookup idx with
  | some found => return found
  | none => do
      let found ← resolve
      modify (Runtime.modifyCaches e fun caches => setEntries caches ((idx, found) :: entries caches))
      return found

inductive LinkerEntry (B : Type) where
  | func (binding : B)
  | inst (exports : List (String × B))

/-- What an import was found to be: an argument of an environment, or an entry of the linker that
was asked for in an environment. -/
inductive Found (B : Type) where
  | argument (env : EnvId) (value : RuntimeValue B)
  | linked (env : EnvId) (entry : LinkerEntry B)

/-- Each environment is asked first, then the linker, then the environments around it. -/
def searchImport (linked : Option (LinkerEntry B)) (name : String) :
    List (ImportFrame B) → Option (Found B)
  | [] => none
  | frame :: outer =>
      match frame.imports.lookup name, linked with
      | some value, _ => some (.argument frame.env value)
      | none, some entry => some (.linked frame.env entry)
      | none, none => searchImport linked name outer

variable (l : ComponentLinker B)

/-- The linker has no components and no core modules. -/
def ComponentLinker.entry (name : String) : SortRef → Option (LinkerEntry B)
  | .item .func _ => (l.imports.lookup name).map .func
  | .item .instance _ => (l.importInstances.lookup name).map .inst
  | .item .component _ | .coreModule _ => none

def lookupImportComponent (e : EnvId) (name : String) : Resolve B RuntimeComponentDef := do
  match searchImport none name ((← get).chain e) with
  | some (.argument _ (.component definition)) => return definition
  | some _ => fail (.link s!"import '{name}' is not a component")
  | none => fail (.unsupported s!"component import '{name}' is not supported by linker")

/-- An argument of another sort is reported as such only where it was given. -/
def lookupImportInstance (e : EnvId) (name : String) : Resolve B Nat := do
  match searchImport ((l.importInstances.lookup name).map .inst) name ((← get).chain e) with
  | some (.argument _ (.instance inst)) => return inst
  | some (.linked env (.inst exports)) => do
      addInstance (.linkerInstance exports) (← cloneShallow env)
  | some (.argument env _) =>
      if env = e then fail (.link s!"import '{name}' is not an instance")
      else fail (.unsupported s!"instance import '{name}' is not supported by linker")
  | _ => fail (.unsupported s!"instance import '{name}' is not supported by linker")

def lookupImportFunc (e : EnvId) (name : String) : Resolve B (ResolvedCallable B) := do
  match searchImport ((l.imports.lookup name).map .func) name ((← get).chain e) with
  | some (.argument _ (.func callable)) => return callable
  | some (.linked _ (.func binding)) => return .linked binding
  | some _ => fail (.link s!"import '{name}' is not a function")
  | none => fail (.link s!"function import '{name}' is unresolved")

def lookupImportCoreModule (e : EnvId) (name : String) : Resolve B Nat := do
  match searchImport none name ((← get).chain e) with
  | some (.argument _ (.coreModule module)) => return module
  | some _ => fail (.link s!"import '{name}' is not a core module")
  | none => fail (.unsupported s!"core module import '{name}' is not supported by linker")

/-- The functions that resolve definitions call each other; here are those of one level. -/
structure Resolver (B : Type) where
  component : EnvId → Nat → Resolve B RuntimeComponentDef
  inst : EnvId → Nat → Resolve B Nat
  func : EnvId → Nat → Resolve B (ResolvedCallable B)
  coreModule : EnvId → Nat → Resolve B Nat
  coreInstance : EnvId → Nat → Resolve B Nat
  coreFunc : EnvId → Nat → Resolve B (RuntimeCoreFunc B)
  coreMemory : EnvId → Nat → Resolve B CoreExportRef
  coreTable : EnvId → Nat → Resolve B CoreExportRef
  export_ : Nat → String → Resolve B (RuntimeValue B)

def Resolver.sort (r : Resolver B) (e : EnvId) : SortRef → Resolve B (RuntimeValue B)
  | .item .component idx => do return .component (← r.component e idx)
  | .item .instance idx => do return .instance (← r.inst e idx)
  | .item .func idx => do return .func (← r.func e idx)
  | .coreModule idx => do return .coreModule (← r.coreModule e idx)

variable (p : ComponentProgram C) (r : Resolver B)

def resolveComponent (e : EnvId) (idx : Nat) : Resolve B RuntimeComponentDef :=
  cached (·.components) (fun caches entries => { caches with components := entries }) e idx do
    match p.relation .component idx with
    | some (.defined (.component path exports)) => do return ⟨path, exports, ← cloneShallow e⟩
    | some (.imported name) => lookupImportComponent e name
    | some (.fromExport inst name) => do
        match ← r.export_ (← r.inst e inst) name with
        | .component definition => return definition
        | _ => fail (.link s!"component export '{name}' is not a component")
    | _ => fail (.link "component relation missing")

/-- The environment around that of the instance is the one its component was resolved in. -/
def resolveInstance (e : EnvId) (idx : Nat) : Resolve B Nat :=
  cached (·.instances) (fun caches entries => { caches with instances := entries }) e idx do
    match p.relation .instance idx with
    | some (.defined (.instance component args)) => do
        let definition ← r.component e component
        let imports ← each (fun arg : String × SortRef => do return (arg.1, ← r.sort e arg.2)) args
        let outer ← environment definition.env
        let env ← addEnv ⟨definition.path, imports, definition.env :: outer.parents, .empty⟩
        addInstance (.component definition.exports) env
    | some (.imported name) => lookupImportInstance l e name
    | some (.fromExport inst name) => do
        match ← r.export_ (← r.inst e inst) name with
        | .instance found => return found
        | _ => fail (.link s!"instance export '{name}' is not an instance")
    | _ => fail (.link "instance relation missing")

def programFuncType (ty : TypeId) : Resolve B Unit :=
  match p.types[ty]? with
  | some (.func _) => pure ()
  | _ => fail (.runtime "function type is missing")

def optional (resolve : Nat → Resolve B α) : Option Nat → Resolve B (Option α)
  | none => return none
  | some idx => do return some (← resolve idx)

def resolveFunc (e : EnvId) (idx : Nat) : Resolve B (ResolvedCallable B) :=
  cached (·.funcs) (fun caches entries => { caches with funcs := entries }) e idx do
    match p.relation .func idx with
    | some (.defined (.canonLift coreFunc ty options)) => do
        let core ← r.coreFunc e coreFunc
        programFuncType p ty
        let memory ← optional (r.coreMemory e) options.memory
        let realloc ← optional (r.coreFunc e) options.realloc
        let postReturn ← optional (r.coreFunc e) options.postReturn
        return .lifted core ty memory realloc postReturn
    | some (.imported name) => lookupImportFunc l e name
    | some (.fromExport inst name) => do
        match ← r.export_ (← r.inst e inst) name with
        | .func callable => return callable
        | _ => fail (.link s!"func export '{name}' is not a function")
    | _ => fail (.link "function relation missing")

def resolveCoreModule (e : EnvId) (idx : Nat) : Resolve B Nat :=
  cached (·.coreModules) (fun caches entries => { caches with coreModules := entries }) e idx do
    match p.coreRelation .module idx with
    | some (.defined .module) => return idx
    | some (.importModule name) => lookupImportCoreModule e name
    | some (.fromExport inst name) => do
        match ← r.export_ (← r.inst e inst) name with
        | .coreModule module => return module
        | _ => fail (.link s!"core module export '{name}' is not a core module")
    | some (.fromCoreExport _ _) =>
        fail (.unsupported "core module aliases from core exports are not supported at runtime")
    | _ => fail (.link "core module relation missing")

/-- Whether a core instance can be created, of a module or of exports, is up to the core runtime. -/
abbrev CoreRuntime (B : Type) := Runtime B → Option Nat → Bool

variable (core : CoreRuntime B)

def createCoreInstance (e : EnvId) (idx : Nat) (module : Option Nat) : Resolve B Nat := do
  let s ← get
  if core s module then do
    modify fun s => { s with coreInstances := s.coreInstances ++ [(idx, e)] }
    return s.coreInstances.length
  else fail .instantiation

def inlineExport (e : EnvId) : CoreSpace × Nat → Resolve B Unit
  | (.func, idx) => do let _ ← r.coreFunc e idx
  | (.memory, idx) => do let _ ← r.coreMemory e idx
  | (.table, idx) => do let _ ← r.coreTable e idx
  | _ =>
      fail (.unsupported "runtime inline core instances only support func/memory/table exports")

def resolveCoreInstance (e : EnvId) (idx : Nat) : Resolve B Nat :=
  cached (·.coreInstances) (fun caches entries => { caches with coreInstances := entries }) e idx do
    match p.coreRelation .instance idx with
    | some (.defined (.instance module imports)) => do
        let module ← r.coreModule e module
        let _ ← each (fun arg : String × Nat => r.coreInstance e arg.2) imports
        createCoreInstance core e idx (some module)
    | some (.defined (.inlineExport exports)) => do
        let _ ← each (fun export_ : String × (CoreSpace × Nat) => inlineExport r e export_.2) exports
        createCoreInstance core e idx none
    | some (.fromExport _ _) => fail (.unsupported
        "core instances re-exported from component instances are not supported at runtime")
    | some (.fromCoreExport _ _) =>
        fail (.unsupported "core instance alias from core export is not supported at runtime")
    | some (.importModule _) => fail (.unsupported "core instance imports are not supported")
    | _ => fail (.link "core instance relation missing")

def resolveCoreExport (e : EnvId) (inst : Nat) (name : String) : Resolve B CoreExportRef := do
  modify fun s => { s with coreExports := e :: s.coreExports }
  return ⟨← r.coreInstance e inst, name⟩

def resolveCoreFunc (e : EnvId) (idx : Nat) : Resolve B (RuntimeCoreFunc B) :=
  cached (·.coreFuncs) (fun caches entries => { caches with coreFuncs := entries }) e idx do
    match p.coreRelation .func idx with
    | some (.defined (.canonLower func ty options)) => do
        let callable ← r.func e func
        programFuncType p ty
        let memory ← optional (r.coreMemory e) options.memory
        let realloc ← optional (r.coreFunc e) options.realloc
        let postReturn ← optional (r.coreFunc e) options.postReturn
        return .lower callable ty memory realloc postReturn
    | some (.defined (.canonResource .new ty destructor)) => do
        return .resource .new ty (← optional (r.coreFunc e) destructor)
    | some (.defined (.canonResource kind ty _)) => return .resource kind ty none
    | some (.fromCoreExport inst name) => do return .export_ (← resolveCoreExport r e inst name)
    | some (.importModule _) => fail (.unsupported "core function imports are not supported")
    | some (.fromExport _ _) => fail (.unsupported
        "core function aliases from component exports are not supported at runtime")
    | _ => fail (.link "core function relation missing")

def resolveCoreMemory (e : EnvId) (idx : Nat) : Resolve B CoreExportRef :=
  cached (·.coreMemories) (fun caches entries => { caches with coreMemories := entries }) e idx do
    match p.coreRelation .memory idx with
    | some (.fromCoreExport inst name) => resolveCoreExport r e inst name
    | _ => fail (.unsupported "runtime only supports core memories from core exports")

def resolveCoreTable (e : EnvId) (idx : Nat) : Resolve B CoreExportRef :=
  cached (·.coreTables) (fun caches entries => { caches with coreTables := entries }) e idx do
    match p.coreRelation .table idx with
    | some (.fromCoreExport inst name) => resolveCoreExport r e inst name
    | _ => fail (.unsupported "runtime only supports core tables from core exports")

/-- For a function that the root imports and exports, the linker can have a binding of its own. -/
def linkedExport (env : RuntimeEnv B) (idx : Nat) (name : String) : Option B :=
  match env.parents, p.relation .func idx with
  | [], some (.imported _) => l.exports.lookup name
  | _, _ => none

def findExport (inst : RuntimeComponentInstance B) (name : String) : Resolve B (RuntimeValue B) :=
  match inst.source with
  | .component exports =>
      match exports.lookup name with
      | some (.item .func idx) => do
          match linkedExport l p (← environment inst.env) idx name with
          | some binding => return .func (.linked binding)
          | none => r.sort inst.env (.item .func idx)
      | some sort => r.sort inst.env sort
      | none => fail (.exportNotFound name)
  | .linkerInstance exports =>
      match exports.lookup name with
      | some binding => return .func (.linked binding)
      | none => fail (.exportNotFound name)

def resolveExport (inst : Nat) (name : String) : Resolve B (RuntimeValue B) := do
  match (← get).instances[inst]? with
  | none => fail (.link "instance missing")
  | some found =>
      match found.exports.lookup name with
      | some value => return value
      | none => do
          let value ← findExport l p r found name
          modify fun s =>
            { s with instances := s.instances.modify inst fun found =>
                { found with exports := (name, value) :: found.exports } }
          return value

def Resolver.exhausted : Resolver B where
  component _ _ := fail .outOfFuel
  inst _ _ := fail .outOfFuel
  func _ _ := fail .outOfFuel
  coreModule _ _ := fail .outOfFuel
  coreInstance _ _ := fail .outOfFuel
  coreFunc _ _ := fail .outOfFuel
  coreMemory _ _ := fail .outOfFuel
  coreTable _ _ := fail .outOfFuel
  export_ _ _ := fail .outOfFuel

def Resolver.next : Resolver B where
  component := resolveComponent p r
  inst := resolveInstance l p r
  func := resolveFunc l p r
  coreModule := resolveCoreModule p r
  coreInstance := resolveCoreInstance p r core
  coreFunc := resolveCoreFunc p r
  coreMemory := resolveCoreMemory p r
  coreTable := resolveCoreTable p r
  export_ := resolveExport l p r

def resolver : Nat → Resolver B
  | 0 => .exhausted
  | depth + 1 => (resolver depth).next l p core

/-- The environment and the instance of the root are the first ones. -/
def Runtime.initial : Runtime B where
  envs := [⟨.root, [], [], .empty⟩]
  instances := [⟨.component p.root, 0, []⟩]
  coreInstances := []
  coreExports := []

/-- Every core instance of the program, in the order of their definitions. -/
def materializeDefinedCoreInstances (depth : Nat) : Resolve B Unit := do
  let _ ← each ((resolver l p core depth).coreInstance 0)
    (List.range (p.coreStore .instance).length)

def instantiateSync (depth : Nat) : Resolve B Unit := do
  materializeDefinedCoreInstances l p core depth
  let _ ← each (fun name => do
    match ← (resolver l p core depth).export_ 0 name with
    | .func _ => pure ()
    | _ => fail (.link s!"callable export '{name}' is unresolved")) p.callableExports

def resolveNamespace (depth : Nat) : Nat → List String → Resolve B Nat
  | current, [] => return current
  | current, segment :: path => do
      match ← (resolver l p core depth).export_ current segment with
      | .instance inst => resolveNamespace depth inst path
      | _ => fail (.exportNotFound segment)

/-- The function that is called; the call itself resolves nothing. -/
def callPath (depth : Nat) (path : List String) (name : String) :
    Resolve B (ResolvedCallable B) := do
  match ← (resolver l p core depth).export_ (← resolveNamespace l p core depth 0 path) name with
  | .func callable => return callable
  | _ => fail (.exportNotFound name)

end resolve

section grows

variable {B α : Type}

/-- Environments keep their arguments and their parents, instances keep what they are instances of;
core instances and notes are only added. -/
structure Runtime.Grows (s t : Runtime B) : Prop where
  envs : ∀ (e : EnvId) (env : RuntimeEnv B), s.envs[e]? = some env →
    ∃ env' : RuntimeEnv B, t.envs[e]? = some env' ∧ env'.path = env.path ∧
      env'.imports = env.imports ∧ env'.parents = env.parents
  instances : ∀ (i : Nat) (inst : RuntimeComponentInstance B), s.instances[i]? = some inst →
    ∃ inst' : RuntimeComponentInstance B, t.instances[i]? = some inst' ∧
      inst'.source = inst.source ∧ inst'.env = inst.env
  coreInstances : s.coreInstances <+: t.coreInstances
  coreExports : s.coreExports <:+ t.coreExports

theorem getElem?_modify_some {xs : List α} {i j : Nat} {a : α} (h : xs[i]? = some a)
    (f : α → α) : (xs.modify j f)[i]? = some (if j = i then f a else a) := by
  rw [List.getElem?_modify, h]
  rfl

theorem getElem?_append_some {xs : List α} {i : Nat} {a : α} (h : xs[i]? = some a)
    (ys : List α) : (xs ++ ys)[i]? = some a := by
  rw [List.getElem?_append_left (List.getElem?_eq_some_iff.mp h).1]
  exact h

namespace Runtime.Grows

theorem refl (s : Runtime B) : s.Grows s :=
  ⟨fun _ env h => ⟨env, h, rfl, rfl, rfl⟩, fun _ inst h => ⟨inst, h, rfl, rfl⟩,
    List.prefix_refl _, List.suffix_refl _⟩

theorem trans (s t u : Runtime B) (hst : s.Grows t) (htu : t.Grows u) : s.Grows u := by
  refine ⟨fun e env h => ?_, fun i inst h => ?_, hst.coreInstances.trans htu.coreInstances,
    hst.coreExports.trans htu.coreExports⟩
  · obtain ⟨env₁, h₁, hpath₁, himports₁, hparents₁⟩ := hst.envs e env h
    obtain ⟨env₂, h₂, hpath₂, himports₂, hparents₂⟩ := htu.envs e env₁ h₁
    exact ⟨env₂, h₂, hpath₂.trans hpath₁, himports₂.trans himports₁, hparents₂.trans hparents₁⟩
  · obtain ⟨inst₁, h₁, hsource₁, henv₁⟩ := hst.instances i inst h
    obtain ⟨inst₂, h₂, hsource₂, henv₂⟩ := htu.instances i inst₁ h₁
    exact ⟨inst₂, h₂, hsource₂.trans hsource₁, henv₂.trans henv₁⟩

variable {s t : Runtime B}

theorem frame (hgrows : s.Grows t) {e : EnvId} {frame : ImportFrame B}
    (h : s.frame e = some frame) : t.frame e = some frame := by
  obtain ⟨env, henv, rfl⟩ := Option.map_eq_some_iff.mp h
  obtain ⟨env', henv', hpath, himports, -⟩ := hgrows.envs e env henv
  unfold Runtime.frame
  rw [henv', Option.map_some, hpath, himports]

theorem modifyCaches (s : Runtime B) (e : EnvId) (f : RuntimeCaches B → RuntimeCaches B) :
    s.Grows (s.modifyCaches e f) := by
  refine ⟨fun e' env h => ?_, fun _ inst h => ⟨inst, h, rfl, rfl⟩, List.prefix_refl _,
    List.suffix_refl _⟩
  refine ⟨_, getElem?_modify_some h _, ?_⟩
  split
  · exact ⟨rfl, rfl, rfl⟩
  · exact ⟨rfl, rfl, rfl⟩

theorem addEnv (s : Runtime B) (env : RuntimeEnv B) :
    s.Grows { s with envs := s.envs ++ [env] } :=
  ⟨fun _ env' h => ⟨env', getElem?_append_some h _, rfl, rfl, rfl⟩,
    fun _ inst h => ⟨inst, h, rfl, rfl⟩, List.prefix_refl _, List.suffix_refl _⟩

theorem addInstance (s : Runtime B) (inst : RuntimeComponentInstance B) :
    s.Grows { s with instances := s.instances ++ [inst] } :=
  ⟨fun _ env h => ⟨env, h, rfl, rfl, rfl⟩,
    fun _ inst' h => ⟨inst', getElem?_append_some h _, rfl, rfl⟩, List.prefix_refl _,
    List.suffix_refl _⟩

theorem cacheExport (s : Runtime B) (i : Nat) (name : String) (value : RuntimeValue B) :
    s.Grows { s with instances := s.instances.modify i fun found =>
      { found with exports := (name, value) :: found.exports } } := by
  refine ⟨fun _ env h => ⟨env, h, rfl, rfl, rfl⟩, fun i' inst h => ?_, List.prefix_refl _,
    List.suffix_refl _⟩
  refine ⟨_, getElem?_modify_some h _, ?_⟩
  split
  · exact ⟨rfl, rfl⟩
  · exact ⟨rfl, rfl⟩

end Runtime.Grows

end grows

end Telomere.Component
