import Mathlib.Data.List.Infix
import Mathlib.Data.List.Forall2
import Telomere.Runtime.Instantiate

/-!
# What instantiation does phase by phase

Every phase only lets the store grow: addresses stay valid and what lies there keeps its type,
also when the phase fails. A phase that succeeds adds what the module declares for it.
-/

namespace Telomere.Runtime

def MemoryObject.type (m : MemoryObject) : MemType := ⟨m.declared, m.shared⟩

def MemoryObject.shape (m : MemoryObject) : MemType × Nat × Nat := (m.type, m.pages, m.maxPages)

def TableInstance.shape (t : TableInstance) : TableType × Nat := (t.type, t.entries.length)

/-- Old addresses keep their type in the new store. -/
structure Store.Grows (s t : Store) : Prop where
  modules : s.modules <+: t.modules
  instances : s.instances <+: t.instances
  funcs : s.funcs.length ≤ t.funcs.length
  tables : s.tables.map (·.type) <+: t.tables.map (·.type)
  globals : s.globals.map List.length <+: t.globals.map List.length
  memories : s.memories.map (·.type) <+: t.memories.map (·.type)

namespace Store.Grows

variable {s t u : Store}

theorem refl (s : Store) : s.Grows s :=
  ⟨List.prefix_rfl, List.prefix_rfl, Nat.le_refl _, List.prefix_rfl, List.prefix_rfl,
    List.prefix_rfl⟩

theorem of_eq (hmodules : t.modules = s.modules) (hinstances : t.instances = s.instances)
    (hfuncs : t.funcs = s.funcs) (htables : t.tables = s.tables) (hglobals : t.globals = s.globals)
    (hmemories : t.memories = s.memories) : s.Grows t := by
  refine ⟨?_, ?_, ?_, ?_, ?_, ?_⟩
  · rw [hmodules]
  · rw [hinstances]
  · rw [hfuncs]
  · rw [htables]
  · rw [hglobals]
  · rw [hmemories]

theorem trans (h : s.Grows t) (h' : t.Grows u) : s.Grows u :=
  ⟨h.modules.trans h'.modules, h.instances.trans h'.instances, h.funcs.trans h'.funcs,
    h.tables.trans h'.tables, h.globals.trans h'.globals, h.memories.trans h'.memories⟩

end Store.Grows

theorem getElem?_prefix_mono {α : Type} {xs ys : List α} {idx : Nat} {x : α} (hpre : xs <+: ys)
    (hget : xs[idx]? = some x) : ys[idx]? = some x := by
  obtain ⟨rest, rfl⟩ := hpre
  rw [List.getElem?_append_left (List.getElem?_eq_some_iff.mp hget).1]
  exact hget

private theorem prefix_append_of {α β : Type} (f : α → β) (xs ys : List α) :
    xs.map f <+: (xs ++ ys).map f := by
  rw [List.map_append]
  exact List.prefix_append _ _

private theorem map_set_of_eq {α β : Type} {f : α → β} {xs : List α} {idx : Nat} {x y : α}
    (hget : xs[idx]? = some x) (hf : f y = f x) : (xs.set idx y).map f = xs.map f := by
  rw [List.map_set, hf]
  have hlen := (List.getElem?_eq_some_iff.mp hget).1
  have hval := (List.getElem?_eq_some_iff.mp hget).2
  apply List.ext_getElem (by simp)
  intro j hj hj'
  rw [List.getElem_set]
  split
  · next heq => subst heq; simp [hval]
  · rfl

theorem resolveImports_eq_ok {s : Store} {registry : Registry} {fts : List FuncType}
    {imports : List Import} {sp sp' : Spaces}
    (hok : resolveImports s registry fts sp imports = .ok sp') :
    ∃ found : List (Kind × Nat),
      List.Forall₂ (fun i r => resolveImport s registry fts i = .ok r) imports found ∧
        ∀ kind, sp'.get kind = sp.get kind ++ (found.filter (·.1 = kind)).map (·.2) := by
  induction imports generalizing sp with
  | nil =>
      obtain rfl := Except.ok.inj hok
      exact ⟨[], .nil, by simp⟩
  | cons i rest ih =>
      obtain ⟨⟨kind, addr⟩, hfirst, hok⟩ := Lib.bind_eq_ok.mp hok
      obtain ⟨found, hfound, hget⟩ := ih hok
      refine ⟨(kind, addr) :: found, .cons hfirst hfound, ?_⟩
      intro other
      rw [hget other, Spaces.get_push]
      by_cases h : kind = other <;> simp [h]

theorem allocMemories_grows (mappable : Nat → Bool) (s : Store) (memories : List Nat)
    (tys : List MemType) : s.Grows (allocMemories mappable s memories tys).1 := by
  induction tys generalizing s memories with
  | nil => exact .refl s
  | cons ty tys ih =>
      unfold allocMemories
      dsimp only
      split
      · next memory hnew =>
          refine Store.Grows.trans ?_ (ih _ _)
          exact ⟨List.prefix_rfl, List.prefix_rfl, Nat.le_refl _, List.prefix_rfl,
            List.prefix_rfl, prefix_append_of _ _ _⟩
      · exact .refl s

/-- A memory as `Memory::new` leaves it for a declared type. -/
structure FreshMemory (ceiling : Nat) (ty : MemType) (m : MemoryObject) : Prop where
  type : m.type = ty
  pages : m.pages = ty.limits.min
  maxPages : m.maxPages = min (ty.limits.max.getD ceiling) ceiling
  bytes : m.bytes = fun _ => 0

theorem allocMemories_eq_ok {mappable : Nat → Bool} {s t : Store} {memories memories' : List Nat}
    {tys : List MemType} (hok : allocMemories mappable s memories tys = (t, .ok memories')) :
    ∃ fresh, t = { s with memories := s.memories ++ fresh } ∧
      memories' = memories ++ List.range' s.memories.length tys.length ∧
      List.Forall₂ (FreshMemory s.maxMemoryPages) tys fresh := by
  induction tys generalizing s memories with
  | nil =>
      cases hok
      exact ⟨[], by simp, by simp, .nil⟩
  | cons ty tys ih =>
      unfold allocMemories at hok
      dsimp only at hok
      split at hok
      · next memory hnew =>
          obtain ⟨fresh, rfl, rfl, hfresh⟩ := ih hok
          refine ⟨memory :: fresh, by simp, by simp [List.range'_succ], .cons ?_ hfresh⟩
          unfold MemoryObject.new at hnew
          split at hnew
          · obtain rfl := Except.ok.inj hnew
            exact ⟨rfl, rfl, rfl, rfl⟩
          · cases hnew
      · cases hok

/-- The functions of an instance whose first one gets the index `first`. -/
def newFuncs (inst first : Nat) (codes : List Nat) : List FunctionInstance :=
  codes.zipIdx.map fun c => ⟨inst, c.1, first + c.2⟩

theorem allocFuncs_eq (inst : Nat) (s : Store) (funcs codes : List Nat) :
    allocFuncs inst s funcs codes =
      ({ s with funcs := s.funcs ++ newFuncs inst funcs.length codes },
        funcs ++ List.range' s.funcs.length codes.length) := by
  induction codes generalizing s funcs with
  | nil => simp [allocFuncs, newFuncs]
  | cons body rest ih =>
      rw [allocFuncs, ih]
      simp [newFuncs, List.range'_succ, List.zipIdx_cons, List.zipIdx_succ, Function.comp_def, Nat.add_assoc,
        Nat.add_comm 1]

theorem allocTables_eq (s : Store) (tables : List Nat) (tts : List TableType) :
    allocTables s tables tts =
      ({ s with tables := s.tables ++ tts.map .new },
        tables ++ List.range' s.tables.length tts.length) := by
  induction tts generalizing s tables with
  | nil => simp [allocTables]
  | cons tt rest ih =>
      rw [allocTables, ih]
      simp [List.range'_succ]

theorem allocGlobals_grows (funcs : List Nat) (s : Store) (globals : List Nat)
    (inits : List ConstExpr) : s.Grows (allocGlobals funcs s globals inits).1 := by
  induction inits generalizing s globals with
  | nil => exact .refl s
  | cons init rest ih =>
      unfold allocGlobals
      split
      · next bytes hinit =>
          refine Store.Grows.trans ?_ (ih _ _)
          exact ⟨List.prefix_rfl, List.prefix_rfl, Nat.le_refl _, List.prefix_rfl,
            prefix_append_of _ _ _, List.prefix_rfl⟩
      · exact .refl s

theorem index_mono {α : Type} {xs ys : List α} {idx : Nat} {x : α} (hpre : xs <+: ys)
    (hok : index xs idx = .ok x) : index ys idx = .ok x :=
  index_eq_ok.mpr (getElem?_prefix_mono hpre (index_eq_ok.mp hok))

theorem initBytes_mono {values values' : List (List Byte)} {globals globals' funcs : List Nat}
    {init : ConstExpr} {bytes : List Byte} (hvalues : values <+: values')
    (hglobals : globals <+: globals') (hok : initBytes values globals funcs init = .ok bytes) :
    initBytes values' globals' funcs init = .ok bytes := by
  cases init with
  | globalGet idx =>
      obtain ⟨addr, haddr, hbytes⟩ := Lib.bind_eq_ok.mp hok
      exact Lib.bind_eq_ok.mpr ⟨addr, index_mono hglobals haddr, index_mono hvalues hbytes⟩
  | _ => exact hok

/-- The values are those the initializers have in the store that results. -/
theorem allocGlobals_eq_ok {funcs : List Nat} {s t : Store} {globals globals' : List Nat}
    {inits : List ConstExpr} (hok : allocGlobals funcs s globals inits = (t, .ok globals')) :
    ∃ values, t = { s with globals := s.globals ++ values } ∧
      globals' = globals ++ List.range' s.globals.length inits.length ∧
      List.Forall₂ (fun init bytes => initBytes t.globals globals' funcs init = .ok bytes)
        inits values := by
  induction inits generalizing s globals with
  | nil =>
      cases hok
      exact ⟨[], by simp, by simp, .nil⟩
  | cons init rest ih =>
      unfold allocGlobals at hok
      split at hok
      · next bytes hinit =>
          obtain ⟨values, rfl, rfl, hvalues⟩ := ih hok
          refine ⟨bytes :: values, by simp, by simp [List.range'_succ], .cons ?_ hvalues⟩
          exact initBytes_mono (by simp) (by simp) hinit
      · cases hok

theorem writeData_shape {values : List (List Byte)} {sp : Spaces}
    {memories memories' : List MemoryObject} {mem : Nat} {offset : List ConstExpr}
    {init : List Byte} (hok : writeData values sp memories mem offset init = .ok memories') :
    memories'.map (·.shape) = memories.map (·.shape) := by
  obtain ⟨pos, -, hok⟩ := Lib.bind_eq_ok.mp hok
  obtain ⟨addr, -, hok⟩ := Lib.bind_eq_ok.mp hok
  obtain ⟨memory, hmemory, hok⟩ := Lib.bind_eq_ok.mp hok
  obtain ⟨written, hwritten, hok⟩ := Lib.bind_eq_ok.mp hok
  obtain rfl := Lib.pure_eq_ok.mp hok
  apply map_set_of_eq (index_eq_ok.mp hmemory)
  unfold MemoryObject.writeBytes at hwritten
  split at hwritten
  · obtain rfl := Except.ok.inj hwritten
    rfl
  · cases hwritten

/-- A data segment changes the contents of memories and which segments are kept. -/
structure DataFrame (s t : Store) : Prop where
  rest : t = { s with memories := t.memories, data := t.data }
  memories : t.memories.map (·.shape) = s.memories.map (·.shape)

theorem DataFrame.refl (s : Store) : DataFrame s s := ⟨rfl, rfl⟩

theorem DataFrame.trans {s t u : Store} (h : DataFrame s t) (h' : DataFrame t u) :
    DataFrame s u := by
  refine ⟨?_, h'.memories.trans h.memories⟩
  rw [h'.rest, h.rest]

theorem initDatum_frame (id : Nat) (sp : Spaces) (s : Store) (entry : Data × Nat) :
    DataFrame s (initDatum id sp s entry).1 := by
  unfold initDatum
  dsimp only
  split
  · exact ⟨rfl, rfl⟩
  · split
    · next memories hwrite => exact ⟨rfl, writeData_shape hwrite⟩
    · exact .refl s

theorem initData_frame (id : Nat) (sp : Spaces) (s : Store) (data : List Data) :
    DataFrame s (initData id sp s data).1 :=
  Lib.runAll_invariant (fun t entry _ h => h.trans (initDatum_frame id sp t entry)) (.refl s)

/-- Filling entries leaves the type of the table and its size as they are. -/
theorem writeEntries_shape (ref : Nat → Except Failure Nat) (t : TableInstance)
    (src dst count : Nat) : (writeEntries ref t src dst count).1.shape = t.shape := by
  induction count with
  | zero => rfl
  | succ count ih =>
      unfold writeEntries
      rcases hr : writeEntries ref t src dst count with ⟨u, e | _⟩
      · rw [hr] at ih
        exact ih
      · rw [hr] at ih
        rw [Lib.andThen_ok]
        split
        · rw [← ih]
          simp [TableInstance.shape]
        · exact ih

theorem updateTable_shape {tables : List TableInstance} {addr : Nat}
    {f : TableInstance → TableInstance × Except Failure Unit}
    (hf : ∀ t, (f t).1.shape = t.shape) :
    (updateTable tables addr f).1.map (·.shape) = tables.map (·.shape) := by
  unfold updateTable
  split
  · rfl
  · next t hget => exact map_set_of_eq hget (hf t)

theorem writeElem_shape (values : List (List Byte)) (sp : Spaces) (tables : List TableInstance)
    (table : Nat) (offset : List ConstExpr) (elem : Elem) :
    (writeElem values sp tables table offset elem).1.map (·.shape) = tables.map (·.shape) := by
  unfold writeElem
  split
  · rfl
  · rfl
  · apply updateTable_shape
    intro t
    unfold fillTable
    split
    · rfl
    · split
      · rfl
      · exact writeEntries_shape ..

/-- An element segment changes the entries of tables and which segments are kept. -/
structure ElemFrame (s t : Store) : Prop where
  rest : t = { s with tables := t.tables, elems := t.elems }
  tables : t.tables.map (·.shape) = s.tables.map (·.shape)

theorem ElemFrame.refl (s : Store) : ElemFrame s s := ⟨rfl, rfl⟩

theorem ElemFrame.trans {s t u : Store} (h : ElemFrame s t) (h' : ElemFrame t u) :
    ElemFrame s u := by
  refine ⟨?_, h'.tables.trans h.tables⟩
  rw [h'.rest, h.rest]

theorem initElem_frame (id : Nat) (sp : Spaces) (s : Store) (entry : Elem × Nat) :
    ElemFrame s (initElem id sp s entry).1 := by
  unfold initElem
  split
  · exact ⟨rfl, rfl⟩
  · exact .refl s
  · exact ⟨rfl, writeElem_shape ..⟩

theorem initElems_frame (id : Nat) (sp : Spaces) (s : Store) (elems : List Elem) :
    ElemFrame s (initElems id sp s elems).1 :=
  Lib.runAll_invariant (fun t entry _ h => h.trans (initElem_frame id sp t entry)) (.refl s)

private theorem map_type_of_shape {α β γ : Type} {f : α → β × γ} {xs ys : List α}
    (h : ys.map f = xs.map f) : ys.map (fun x => (f x).1) = xs.map (fun x => (f x).1) := by
  have h' := congrArg (List.map Prod.fst) h
  simpa [Function.comp_def] using h'

theorem DataFrame.grows {s t : Store} (h : DataFrame s t) : s.Grows t := by
  have hmemories : t.memories.map (·.type) = s.memories.map (·.type) :=
    map_type_of_shape h.memories
  rw [h.rest]
  exact ⟨List.prefix_rfl, List.prefix_rfl, Nat.le_refl _, List.prefix_rfl, List.prefix_rfl,
    by rw [hmemories]⟩

theorem ElemFrame.grows {s t : Store} (h : ElemFrame s t) : s.Grows t := by
  have htables : t.tables.map (·.type) = s.tables.map (·.type) := map_type_of_shape h.tables
  rw [h.rest]
  exact ⟨List.prefix_rfl, List.prefix_rfl, Nat.le_refl _, by rw [htables], List.prefix_rfl,
    List.prefix_rfl⟩

theorem openInstance_grows (s : Store) (mod : ModuleInstance) (sp : Spaces) :
    s.Grows (s.openInstance mod sp) :=
  ⟨List.prefix_append _ _, List.prefix_append _ _, Nat.le_refl _, List.prefix_rfl, List.prefix_rfl,
    List.prefix_rfl⟩

theorem takeInstanceId_grows (s : Store) : s.Grows s.takeInstanceId :=
  .of_eq rfl rfl rfl rfl rfl rfl

theorem prepare_grows (mappable : Nat → Bool) (registry : Registry) (s : Store) (m : Module) :
    s.Grows (prepare mappable registry s m).1 := by
  unfold prepare
  split
  · exact takeInstanceId_grows s
  · next sp hsp =>
      have hgrows := (openInstance_grows s (.of m) .empty).trans
        (allocMemories_grows mappable _ sp.mems (m.mems.drop sp.mems.length))
      rcases hr : allocMemories mappable (s.openInstance (.of m) .empty) sp.mems
        (m.mems.drop sp.mems.length) with ⟨t, e | mems⟩
      all_goals
        rw [hr] at hgrows
        exact hgrows

theorem allocate_grows (inst : Nat) (m : Module) (s : Store) (sp : Spaces) :
    s.Grows (allocate inst m s sp).1 := by
  unfold allocate
  rw [allocFuncs_eq]
  dsimp only
  have hfuncs : s.Grows { s with funcs := s.funcs ++ newFuncs inst sp.funcs.length m.codes } :=
    ⟨List.prefix_rfl, List.prefix_rfl, by simp, List.prefix_rfl, List.prefix_rfl, List.prefix_rfl⟩
  have hglobals := hfuncs.trans (allocGlobals_grows
    (sp.funcs ++ List.range' s.funcs.length m.codes.length) _ sp.globals m.globalInit)
  rcases hr : allocGlobals (sp.funcs ++ List.range' s.funcs.length m.codes.length)
    { s with funcs := s.funcs ++ newFuncs inst sp.funcs.length m.codes } sp.globals m.globalInit
    with ⟨t, e | globals⟩
  · rw [hr] at hglobals
    exact hglobals
  · rw [hr] at hglobals
    rw [Lib.andThen_ok, allocTables_eq]
    refine hglobals.trans ⟨List.prefix_rfl, List.prefix_rfl, Nat.le_refl _, ?_, List.prefix_rfl,
      List.prefix_rfl⟩
    exact prefix_append_of _ _ _

/-- Filling in a place that was opened later leaves the older instances alone. -/
theorem place_grows {s t : Store} {inst : Nat} (data : InstanceData) (h : s.Grows t)
    (hle : s.instances.length ≤ inst) : s.Grows (t.place inst data) := by
  refine ⟨h.modules, ?_, h.funcs, h.tables, h.globals, h.memories⟩
  obtain ⟨rest, hrest⟩ := h.instances
  rw [Store.place, ← hrest, List.set_append_right _ _ hle]
  exact List.prefix_append _ _

theorem instantiate_grows (mappable : Nat → Bool) (registry : Registry) (s : Store) (m : Module) :
    s.Grows (instantiate mappable registry s m).1 := by
  have hprepare := prepare_grows mappable registry s m
  unfold instantiate
  dsimp only
  rcases hr : prepare mappable registry s m with ⟨s₁, e | sp₁⟩ <;> rw [hr] at hprepare
  · exact hprepare
  rw [Lib.andThen_ok]
  have hdata := hprepare.trans (initData_frame s.nextInstanceId sp₁ s₁ m.data).grows
  rcases hr : initData s.nextInstanceId sp₁ s₁ m.data with ⟨s₂, e | u⟩ <;> rw [hr] at hdata
  · exact hdata
  rw [Lib.andThen_ok]
  have hallocate := hdata.trans (allocate_grows s.instances.length m s₂ sp₁)
  rcases hr : allocate s.instances.length m s₂ sp₁ with ⟨s₃, e | sp⟩ <;> rw [hr] at hallocate
  · exact hallocate
  rw [Lib.andThen_ok]
  have helems := place_grows ⟨sp, s.nextInstanceId, s.modules.length⟩
    (hallocate.trans (initElems_frame s.nextInstanceId sp s₃ m.elems).grows) (Nat.le_refl _)
  rcases hr : initElems s.nextInstanceId sp s₃ m.elems with ⟨s₄, e | u⟩ <;> rw [hr] at helems <;>
    exact helems

/-- What a successful instantiation leaves: `imported` are the addresses the imports resolved to,
`sp` those of the whole instance. -/
structure Instantiated (registry : Registry) (s : Store) (m : Module) (t : Store) (inst : Nat)
    (imported sp : Spaces) : Prop where
  resolved : resolveImports s registry m.fts .empty m.imports = .ok imported
  inst_eq : inst = s.instances.length
  modules : t.modules = s.modules ++ [ModuleInstance.of m]
  instances : t.instances = s.instances ++ [⟨sp, s.nextInstanceId, s.modules.length⟩]
  spaceFuncs : sp.funcs = imported.funcs ++ List.range' s.funcs.length m.codes.length
  spaceTables : sp.tables = imported.tables ++ List.range' s.tables.length m.tables.length
  spaceMems : sp.mems = imported.mems ++
    List.range' s.memories.length (m.mems.drop imported.mems.length).length
  spaceGlobals : sp.globals = imported.globals ++
    List.range' s.globals.length m.globalInit.length
  funcs : t.funcs = s.funcs ++ newFuncs inst imported.funcs.length m.codes
  tables : t.tables.map (·.shape) =
    s.tables.map (·.shape) ++ m.tables.map fun tt => (tt, tt.limits.min)
  memories : t.memories.map (·.shape) = s.memories.map (·.shape) ++
    (m.mems.drop imported.mems.length).map fun ty =>
      (ty, ty.limits.min, min (ty.limits.max.getD s.maxMemoryPages) s.maxMemoryPages)
  globals : ∃ values, t.globals = s.globals ++ values ∧
    List.Forall₂ (fun init bytes => initBytes t.globals sp.globals sp.funcs init = .ok bytes)
      m.globalInit values

theorem FreshMemory.shapes {ceiling : Nat} {tys : List MemType} {fresh : List MemoryObject}
    (h : List.Forall₂ (FreshMemory ceiling) tys fresh) :
    fresh.map (·.shape) = tys.map fun ty =>
      (ty, ty.limits.min, min (ty.limits.max.getD ceiling) ceiling) := by
  induction h with
  | nil => rfl
  | cons hfirst _ ih =>
      rw [List.map_cons, List.map_cons, ih, MemoryObject.shape, hfirst.type, hfirst.pages,
        hfirst.maxPages]

theorem prepare_eq_ok {mappable : Nat → Bool} {registry : Registry} {s t : Store} {m : Module}
    {sp : Spaces} (hok : prepare mappable registry s m = (t, .ok sp)) :
    ∃ imported fresh, resolveImports s registry m.fts .empty m.imports = .ok imported ∧
      t = { s.openInstance (.of m) .empty with memories := s.memories ++ fresh } ∧
      sp = { imported with
        mems := imported.mems ++
          List.range' s.memories.length (m.mems.drop imported.mems.length).length } ∧
      List.Forall₂ (FreshMemory s.maxMemoryPages) (m.mems.drop imported.mems.length) fresh := by
  unfold prepare at hok
  split at hok
  · cases hok
  · next imported himported =>
      obtain ⟨t', mems, halloc, hok⟩ := Lib.andThen_eq_ok hok
      obtain ⟨fresh, rfl, rfl, hfresh⟩ := allocMemories_eq_ok halloc
      cases hok
      exact ⟨imported, fresh, himported, rfl, rfl, hfresh⟩

theorem allocate_eq_ok {inst : Nat} {m : Module} {s t : Store} {sp sp' : Spaces}
    (hok : allocate inst m s sp = (t, .ok sp')) :
    ∃ values, t = { s with
        funcs := s.funcs ++ newFuncs inst sp.funcs.length m.codes
        globals := s.globals ++ values
        tables := s.tables ++ m.tables.map .new } ∧
      sp' = { sp with
        funcs := sp.funcs ++ List.range' s.funcs.length m.codes.length
        globals := sp.globals ++ List.range' s.globals.length m.globalInit.length
        tables := sp.tables ++ List.range' s.tables.length m.tables.length } ∧
      List.Forall₂ (fun init bytes => initBytes t.globals sp'.globals sp'.funcs init = .ok bytes)
        m.globalInit values := by
  unfold allocate at hok
  rw [allocFuncs_eq] at hok
  dsimp only at hok
  obtain ⟨t', globals, halloc, hok⟩ := Lib.andThen_eq_ok hok
  obtain ⟨values, rfl, rfl, hvalues⟩ := allocGlobals_eq_ok halloc
  rw [allocTables_eq] at hok
  cases hok
  exact ⟨values, rfl, rfl, hvalues⟩

theorem instantiate_eq_ok {mappable : Nat → Bool} {registry : Registry} {s t : Store} {m : Module}
    {inst : Nat} (hok : instantiate mappable registry s m = (t, .ok inst)) :
    ∃ imported sp, Instantiated registry s m t inst imported sp := by
  unfold instantiate at hok
  dsimp only at hok
  obtain ⟨s₁, sp₁, hprepare, hok⟩ := Lib.andThen_eq_ok hok
  obtain ⟨s₂, _, hdata, hok⟩ := Lib.andThen_eq_ok hok
  obtain ⟨s₃, sp, hallocate, hok⟩ := Lib.andThen_eq_ok hok
  obtain ⟨s₄, _, helems, hok⟩ := Lib.andThen_eq_ok hok
  have hdframe := initData_frame s.nextInstanceId sp₁ s₁ m.data
  have heframe := initElems_frame s.nextInstanceId sp s₃ m.elems
  rw [hdata] at hdframe
  obtain ⟨imported, fresh, himported, hs₁, hsp₁, hfresh⟩ := prepare_eq_ok hprepare
  obtain ⟨values, hs₃, hsp, hvalues⟩ := allocate_eq_ok hallocate
  obtain ⟨rfl, -⟩ := Prod.mk.inj helems
  obtain ⟨rfl, hinst⟩ := Prod.mk.inj hok
  obtain rfl := Except.ok.inj hinst
  refine ⟨imported, sp, ?_⟩
  subst hsp hs₃ hsp₁ hs₁
  have hs₂ : s₂ = { s.openInstance (.of m) .empty with
      memories := s₂.memories, data := s₂.data } := hdframe.rest
  have hfuncs : s₂.funcs = s.funcs := by rw [hs₂]; rfl
  have htables : s₂.tables = s.tables := by rw [hs₂]; rfl
  have hglobals : s₂.globals = s.globals := by rw [hs₂]; rfl
  have hmodules : s₂.modules = s.modules ++ [ModuleInstance.of m] := by rw [hs₂]; rfl
  have hinstances : s₂.instances =
      s.instances ++ [⟨.empty, s.nextInstanceId, s.modules.length⟩] := by rw [hs₂]; rfl
  have hmemories : s₂.memories.map (·.shape) = (s.memories ++ fresh).map (·.shape) :=
    hdframe.memories
  constructor
  · exact himported
  · rfl
  · rw [Store.place, heframe.rest, ← hmodules]
  · rw [Store.place, heframe.rest, hinstances, List.set_append_right _ _ (Nat.le_refl _)]
    simp
  · rw [hfuncs]
  · rw [htables]
  · rfl
  · rw [hglobals]
  · rw [Store.place, heframe.rest, hfuncs]
  · rw [Store.place, heframe.tables, htables, List.map_append, List.map_map]
    simp [TableInstance.shape, TableInstance.new, Function.comp_def]
  · rw [Store.place, heframe.rest, hmemories, List.map_append, FreshMemory.shapes hfresh]
  · refine ⟨values, ?_, ?_⟩
    · rw [Store.place, heframe.rest, hglobals]
    · rw [Store.place, heframe.rest]
      exact hvalues

end Telomere.Runtime
