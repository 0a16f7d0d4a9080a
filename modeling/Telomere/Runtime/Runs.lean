import Mathlib.Logic.Relation
import Telomere.Runtime.Phases

/-!
# Runs of a store

A world is a store with the instances that were handed out. It changes when a module is
instantiated, when exports are aliased and when code runs.
-/

namespace Telomere.Runtime

/-- What running code does to a store apart from dropping segments: contents change, tables and
memories grow. Types, instances and modules stay. -/
structure Store.Executes (s t : Store) : Prop where
  nextInstanceId : t.nextInstanceId = s.nextInstanceId
  modules : t.modules = s.modules
  instances : t.instances = s.instances
  funcs : t.funcs.length = s.funcs.length
  tables : t.tables.map (·.type) = s.tables.map (·.type)
  globals : t.globals.map List.length = s.globals.map List.length
  memories : t.memories.map (·.type) = s.memories.map (·.type)
  data : t.data = s.data
  elems : t.elems = s.elems

theorem Store.Executes.grows {s t : Store} (h : s.Executes t) : s.Grows t := by
  refine ⟨?_, ?_, ?_, ?_, ?_, ?_⟩
  · rw [h.modules]
  · rw [h.instances]
  · rw [h.funcs]
  · rw [h.tables]
  · rw [h.globals]
  · rw [h.memories]

/-- Modules come from the parser or wrap host functions. -/
inductive Loaded : Module → Prop
  | parsed {sections : List Parser.Section} {m : Module} (hok : Parser.parseModule sections = .ok m) :
      Loaded m
  | native (functions : List (Nat × Option String × FuncType)) :
      Loaded (convertNativeModule functions)

theorem convertNativeModule_wellShaped (functions : List (Nat × Option String × FuncType)) :
    Parser.WellShaped (convertNativeModule functions) where
  functions := ⟨List.range functions.length, by simp [convertNativeModule, importedFuncs],
    by simp [convertNativeModule]⟩
  tables := ⟨[], rfl⟩
  mems := ⟨[], rfl⟩
  globals := ⟨[], rfl, .nil⟩
  exs := by
    intro ex hex
    obtain ⟨⟨f, idx⟩, hmem, hname⟩ := List.mem_filterMap.mp hex
    obtain ⟨name, -, rfl⟩ := Option.map_eq_some_iff.mp hname
    have hidx : idx < functions.length := by
      have := List.mem_zipIdx hmem
      omega
    simp [Parser.validateExport, convertNativeModule, hidx]
  elems := by simp [convertNativeModule]
  data := by simp [convertNativeModule]

theorem Loaded.wellShaped {m : Module} (h : Loaded m) : Parser.WellShaped m := by
  cases h with
  | parsed hok => exact Parser.parseModule_wellShaped hok
  | native functions => exact convertNativeModule_wellShaped functions

structure World where
  store : Store
  handles : List Nat

def World.after (w : World) (r : Store × Except Failure Nat) : World :=
  match r.2 with
  | .ok inst => ⟨r.1, w.handles ++ [inst]⟩
  | .error _ => ⟨r.1, w.handles⟩

def World.Registers (w : World) (registry : Registry) : Prop :=
  ∀ name inst, registry name = some inst → inst ∈ w.handles

inductive Event where
  | instantiate
  | aliasing
  | dataDrop (instanceId idx : Nat)
  | elemDrop (instanceId idx : Nat)
  | run
deriving DecidableEq, Repr

/-- One change of a world; `allowed` restricts which modules are instantiated where. -/
inductive Step (allowed : Store → Registry → Module → Prop) : Event → World → World → Prop
  | instantiate {w : World} {mappable : Nat → Bool} {registry : Registry} {m : Module}
      (hregistry : w.Registers registry) (hloaded : Loaded m)
      (hallowed : allowed w.store registry m) :
      Step allowed .instantiate w (w.after (instantiate mappable registry w.store m))
  | aliasing {w : World} {registry : Registry} {triplets : List (String × String × String)}
      (hregistry : w.Registers registry) :
      Step allowed .aliasing w (w.after (aliasing registry w.store triplets))
  | dataDrop {w : World} (instanceId idx : Nat) :
      Step allowed (.dataDrop instanceId idx) w ⟨w.store.dataDrop instanceId idx, w.handles⟩
  | elemDrop {w : World} (instanceId idx : Nat) :
      Step allowed (.elemDrop instanceId idx) w ⟨w.store.elemDrop instanceId idx, w.handles⟩
  | run {w : World} {t : Store} (hrun : w.store.Executes t) : Step allowed .run w ⟨t, w.handles⟩

/-- Steps whose events all satisfy `p`. -/
def Moves (allowed : Store → Registry → Module → Prop) (p : Event → Prop) : World → World → Prop :=
  Relation.ReflTransGen fun w w' => ∃ e, p e ∧ Step allowed e w w'

def Reachable (allowed : Store → Registry → Module → Prop) (w : World) : Prop :=
  ∃ ceiling, Moves allowed (fun _ => True) ⟨.empty ceiling, []⟩ w

def anyModule : Store → Registry → Module → Prop := fun _ _ _ => True

theorem Step.mono {allowed allowed' : Store → Registry → Module → Prop} {e : Event} {w w' : World}
    (hle : ∀ s registry m, allowed s registry m → allowed' s registry m)
    (h : Step allowed e w w') : Step allowed' e w w' := by
  cases h with
  | instantiate hregistry hloaded hallowed =>
      exact .instantiate hregistry hloaded (hle _ _ _ hallowed)
  | aliasing hregistry => exact .aliasing hregistry
  | dataDrop id idx => exact .dataDrop id idx
  | elemDrop id idx => exact .elemDrop id idx
  | run hrun => exact .run hrun

theorem Reachable.mono {allowed allowed' : Store → Registry → Module → Prop} {w : World}
    (hle : ∀ s registry m, allowed s registry m → allowed' s registry m)
    (h : Reachable allowed w) : Reachable allowed' w := by
  obtain ⟨ceiling, hrun⟩ := h
  refine ⟨ceiling, Relation.ReflTransGen.mono ?_ _ _ hrun⟩
  rintro w w' ⟨e, hp, hstep⟩
  exact ⟨e, hp, hstep.mono hle⟩

theorem dataDrop_grows (s : Store) (id idx : Nat) : s.Grows (s.dataDrop id idx) :=
  .of_eq rfl rfl rfl rfl rfl rfl

theorem elemDrop_grows (s : Store) (id idx : Nat) : s.Grows (s.elemDrop id idx) :=
  .of_eq rfl rfl rfl rfl rfl rfl

/-- The instance at an address with the record of its module. -/
structure Store.Instance (s : Store) (addr : Nat) (inst : InstanceData) (mod : ModuleInstance) :
    Prop where
  instance_eq : s.instances[addr]? = some inst
  module_eq : s.modules[inst.moduleAddr]? = some mod

theorem Store.Instance.mono {s t : Store} {addr : Nat} {inst : InstanceData} {mod : ModuleInstance}
    (h : s.Instance addr inst mod) (hgrows : s.Grows t) : t.Instance addr inst mod :=
  ⟨getElem?_prefix_mono hgrows.instances h.instance_eq,
    getElem?_prefix_mono hgrows.modules h.module_eq⟩

/-- Every instance handed out satisfies `R` with the record of its module. -/
def World.All (R : Store → InstanceData → ModuleInstance → Prop) (w : World) : Prop :=
  ∀ addr ∈ w.handles, ∃ inst mod, w.store.Instance addr inst mod ∧ R w.store inst mod

theorem World.All.mono {R : Store → InstanceData → ModuleInstance → Prop} {w : World} {t : Store}
    (hmono : ∀ s t inst mod, s.Grows t → R s inst mod → R t inst mod) (h : w.All R)
    (hgrows : w.store.Grows t) : World.All R ⟨t, w.handles⟩ := by
  intro addr hmem
  obtain ⟨inst, mod, hinst, hR⟩ := h addr hmem
  exact ⟨inst, mod, hinst.mono hgrows, hmono _ _ _ _ hgrows hR⟩

theorem World.All.snoc {R : Store → InstanceData → ModuleInstance → Prop} {t : Store}
    {handles : List Nat} {addr : Nat} {inst : InstanceData} {mod : ModuleInstance}
    (h : World.All R ⟨t, handles⟩) (hinst : t.Instance addr inst mod) (hR : R t inst mod) :
    World.All R ⟨t, handles ++ [addr]⟩ := by
  intro other hmem
  rcases List.mem_append.mp hmem with hmem | hmem
  · exact h other hmem
  · obtain rfl := List.mem_singleton.mp hmem
    exact ⟨inst, mod, hinst, hR⟩

/-- What growth keeps and every new instance has holds of all instances of a run. -/
theorem Reachable.all {allowed : Store → Registry → Module → Prop}
    {R : Store → InstanceData → ModuleInstance → Prop}
    (hmono : ∀ s t inst mod, s.Grows t → R s inst mod → R t inst mod)
    (hinstantiate : ∀ (w : World) registry m t addr imported sp, w.All R → w.Registers registry →
      Parser.WellShaped m → allowed w.store registry m → w.store.Grows t →
      Instantiated registry w.store m t addr imported sp →
      R t ⟨sp, w.store.nextInstanceId, w.store.modules.length⟩ (.of m))
    (haliasing : ∀ (w : World) registry triplets mod sp, w.All R → w.Registers registry →
      aliasAll w.store registry ⟨[], [], [], [], [], []⟩ .empty triplets = .ok (mod, sp) →
      R w.store ⟨sp, w.store.nextInstanceId, w.store.modules.length⟩ mod)
    {w : World} (h : Reachable allowed w) : w.All R := by
  obtain ⟨ceiling, hrun⟩ := h
  induction hrun with
  | refl => simp [World.All]
  | @tail w w' _ hstep ih =>
      obtain ⟨e, -, hstep⟩ := hstep
      cases hstep with
      | @instantiate _ mappable registry m hregistry hloaded hallowed =>
          have hgrows := instantiate_grows mappable registry w.store m
          have hall := ih.mono hmono hgrows
          rcases hr : Runtime.instantiate mappable registry w.store m with ⟨t, e | addr⟩ <;>
            rw [hr] at hgrows hall
          · exact hall
          · obtain ⟨imported, sp, hinst⟩ := instantiate_eq_ok hr
            refine hall.snoc ⟨?_, ?_⟩ (hinstantiate w registry m t addr imported sp ih hregistry
              hloaded.wellShaped hallowed hgrows hinst)
            · rw [hinst.instances, hinst.inst_eq]
              simp
            · rw [hinst.modules]
              simp
      | @aliasing _ registry triplets hregistry =>
          unfold Runtime.aliasing
          split
          · exact ih.mono hmono (takeInstanceId_grows w.store)
          · next mod sp halias =>
              have hgrows := openInstance_grows w.store mod sp
              refine (ih.mono hmono hgrows).snoc ⟨?_, ?_⟩ (hmono _ _ _ _ hgrows
                (haliasing w registry triplets mod sp ih hregistry halias))
              · simp [Store.openInstance]
              · simp [Store.openInstance]
      | dataDrop id idx => exact ih.mono hmono (dataDrop_grows w.store id idx)
      | elemDrop id idx => exact ih.mono hmono (elemDrop_grows w.store id idx)
      | run hrun => exact ih.mono hmono hrun.grows

end Telomere.Runtime
