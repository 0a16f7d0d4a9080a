import Telomere.Runtime.Linking

/-!
# The index spaces of an instance

Whether index `i` of an instance is what index `i` of its module was typed as: what the imports
name first, in their order, then one new object for each definition.
-/

namespace Telomere.Runtime

theorem forall₂_getElem? {α β : Type} {R : α → β → Prop} {xs : List α} {ys : List β}
    (h : List.Forall₂ R xs ys) {i : Nat} {x : α} (hget : xs[i]? = some x) :
    ∃ y, ys[i]? = some y ∧ R x y := by
  induction h generalizing i with
  | nil => cases hget
  | cons hfirst _ ih =>
      cases i with
      | zero =>
          cases hget
          exact ⟨_, rfl, hfirst⟩
      | succ i => exact ih hget

/-- Items appended to a list are found at the addresses from its old length on. -/
theorem forall₂_range' {α β : Type} (f : α → β) (old : List β) (xs : List α) :
    List.Forall₂ (fun x addr => (old ++ xs.map f)[addr]? = some (f x)) xs
      (List.range' old.length xs.length) := by
  induction xs generalizing old with
  | nil => exact .nil
  | cons x xs ih =>
      rw [List.length_cons, List.range'_succ]
      refine .cons (by simp) ?_
      have h := ih (old ++ [f x])
      rw [List.length_append, List.length_singleton] at h
      simpa using h

def GlobalAt (s : Store) (gt : GlobalType) (addr : Nat) : Prop :=
  (s.globals.map List.length)[addr]? = some gt.valtype.stackSize

/-- Every global of an instance is as wide as its module says. -/
def GlobalsSized (s : Store) (inst : InstanceData) (mod : ModuleInstance) : Prop :=
  List.Forall₂ (GlobalAt s) mod.globals inst.globals

theorem GlobalsSized.mono {s t : Store} {inst : InstanceData} {mod : ModuleInstance}
    (hgrows : s.Grows t) (h : GlobalsSized s inst mod) : GlobalsSized t inst mod :=
  h.imp fun _ _ hat => getElem?_prefix_mono hgrows.globals hat

theorem importedGlobals_sized {w : World} {registry : Registry} {fts : List FuncType}
    {imports : List Import} {imported : Spaces} (hall : w.All GlobalsSized)
    (hregistry : w.Registers registry)
    (hok : resolveImports w.store registry fts .empty imports = .ok imported) :
    List.Forall₂ (GlobalAt w.store) (importedGlobals imports) imported.globals := by
  refine (importedGlobals_found hok).imp ?_
  rintro gt addr ⟨inst, mod, idx, hexports, hgt, haddr⟩
  have hsized := (exporter_all hall hregistry hexports).1
  obtain ⟨addr', haddr', hat⟩ := forall₂_getElem? hsized hgt
  obtain rfl := Option.some.inj (haddr.symm.trans haddr')
  exact hat

/-- An initializer that was checked against a type makes a value of its width. -/
theorem initBytes_length {gts : List GlobalType} {functions : List Nat} {init : ConstExpr}
    {vt : ValType} {s : Store} {globals funcs : List Nat} {bytes : List Byte}
    (hvalid : Parser.validateConstExprType gts functions [init] vt = .ok ())
    (hsized : ∀ (idx : Nat) gt, gts[idx]? = some gt →
      ∃ addr, globals[idx]? = some addr ∧ GlobalAt s gt addr)
    (hok : initBytes s.globals globals funcs init = .ok bytes) :
    bytes.length = vt.stackSize := by
  have hassert : ∀ {actual : ValType}, Parser.assertType vt actual = .ok () → vt = actual := by
    intro actual h
    unfold Parser.assertType at h
    split at h
    · assumption
    · cases h
  cases init with
  | i32 _ | i64 _ | f32 _ | f64 _ | v128 _ =>
      obtain rfl := hassert hvalid
      obtain rfl := Except.ok.inj hok
      simp [ValType.stackSize]
  | refNull ty =>
      obtain rfl := hassert hvalid
      obtain rfl := Except.ok.inj hok
      cases ty <;> simp [ValType.stackSize, RefType.valType]
  | funcRef idx =>
      simp only [Parser.validateConstExprType] at hvalid
      split at hvalid
      · obtain rfl := hassert hvalid
        obtain ⟨addr, -, hok⟩ := Lib.bind_eq_ok.mp hok
        obtain rfl := Lib.pure_eq_ok.mp hok
        simp [ValType.stackSize]
      · cases hvalid
  | globalGet idx =>
      simp only [Parser.validateConstExprType] at hvalid
      split at hvalid
      · cases hvalid
      · next gt hgt =>
          split at hvalid
          · cases hvalid
          · obtain rfl := hassert hvalid
            obtain ⟨addr, haddr, hok⟩ := Lib.bind_eq_ok.mp hok
            obtain ⟨addr', haddr', hat⟩ := hsized idx gt hgt
            obtain rfl := Option.some.inj ((index_eq_ok.mp haddr).symm.trans haddr')
            rw [GlobalAt, List.getElem?_map, index_eq_ok.mp hok] at hat
            exact Option.some.inj hat

/-- Values made by checked initializers are as wide as the types they were checked against. -/
private theorem values_lengths {gts defined : List GlobalType} {functions : List Nat} {s : Store}
    {globals funcs : List Nat} {inits : List ConstExpr} {values : List (List Byte)}
    (hsized : ∀ (idx : Nat) gt, gts[idx]? = some gt →
      ∃ addr, globals[idx]? = some addr ∧ GlobalAt s gt addr)
    (hinits : List.Forall₂ (fun gt init =>
      Parser.validateConstExprType gts functions [init] gt.valtype = .ok ()) defined inits)
    (hvalues : List.Forall₂ (fun init bytes =>
      initBytes s.globals globals funcs init = .ok bytes) inits values) :
    values.map List.length = defined.map (·.valtype.stackSize) := by
  induction hinits generalizing values with
  | nil =>
      cases hvalues
      rfl
  | cons hinit _ ih =>
      cases hvalues with
      | cons hok hrest =>
          rw [List.map_cons, List.map_cons, ih hrest, initBytes_length hinit hsized hok]

theorem Instantiated.globals_sized {w : World} {registry : Registry} {m : Module} {t : Store}
    {addr : Nat} {imported sp : Spaces} (h : Instantiated registry w.store m t addr imported sp)
    (hgrows : w.store.Grows t) (hall : w.All GlobalsSized) (hregistry : w.Registers registry)
    (hshaped : Parser.WellShaped m) : List.Forall₂ (GlobalAt t) m.globals sp.globals := by
  obtain ⟨defined, hglobals, hinits⟩ := hshaped.globals
  obtain ⟨values, hvalues, hbytes⟩ := h.globals
  have himported : List.Forall₂ (GlobalAt t) (importedGlobals m.imports) imported.globals :=
    (importedGlobals_sized hall hregistry h.resolved).imp
      fun _ _ hat => getElem?_prefix_mono hgrows.globals hat
  -- the initializers read imported globals only
  have hsized : ∀ (idx : Nat) gt, (importedGlobals m.imports)[idx]? = some gt →
      ∃ addr, sp.globals[idx]? = some addr ∧ GlobalAt t gt addr := by
    intro idx gt hgt
    obtain ⟨addr, haddr, hat⟩ := forall₂_getElem? himported hgt
    refine ⟨addr, ?_, hat⟩
    rw [h.spaceGlobals]
    exact getElem?_prefix_mono (List.prefix_append _ _) haddr
  have hlengths := values_lengths hsized hinits hbytes
  rw [hglobals, h.spaceGlobals, hinits.length_eq.symm]
  refine List.rel_append himported ?_
  have hrange := forall₂_range' (fun gt : GlobalType => gt.valtype.stackSize)
    (w.store.globals.map List.length) defined
  rw [← hlengths, ← List.map_append, ← hvalues, List.length_map] at hrange
  exact hrange

theorem Reachable.globals_sized {allowed : Store → Registry → Module → Prop} {w : World}
    (h : Reachable allowed w) : w.All GlobalsSized := by
  refine h.all (fun s t inst mod hgrows hsized => hsized.mono hgrows) ?_ ?_
  · intro w registry m t addr imported sp hall hregistry hshaped _ hgrows hinst
    exact hinst.globals_sized hgrows hall hregistry hshaped
  · intro w registry triplets mod sp hall hregistry halias
    refine (aliasAll_aliased aliased_empty halias).globals.imp ?_
    rintro gt addr ⟨inst, source, idx, hexports, hgt, haddr⟩
    have hsized := (exporter_all hall hregistry hexports).1
    obtain ⟨addr', haddr', hat⟩ := forall₂_getElem? hsized hgt
    obtain rfl := Option.some.inj (haddr.symm.trans haddr')
    exact hat

def importKind : ImportDesc → Kind
  | .typeIdx _ => .func
  | .tableType _ => .table
  | .memType _ => .mem
  | .globalType _ => .global

/-- The imports of one kind, in the order of the import section. -/
def importsOf (m : Module) (kind : Kind) : List Import :=
  m.imports.filter (importKind ·.desc = kind)

/-- How many entries of a kind a module declares, imports included. -/
def declared (m : Module) : Kind → Nat
  | .func => m.functions.length
  | .table => m.tables.length
  | .mem => m.mems.length
  | .global => m.globals.length

/-- The object that is exported under the name an import asks for. -/
def exportedAddr (s : Store) (registry : Registry) (i : Import) : Option Nat :=
  match exporter s registry i.moduleName i.name with
  | .ok (inst, _, .func idx) => inst.funcs[idx]?
  | .ok (inst, _, .table idx) => inst.tables[idx]?
  | .ok (inst, _, .mem idx) => inst.mems[idx]?
  | .ok (inst, _, .global idx) => inst.globals[idx]?
  | .error _ => none

def Store.count (s : Store) : Kind → Nat
  | .func => s.funcs.length
  | .table => s.tables.length
  | .mem => s.memories.length
  | .global => s.globals.length

/-- The instance at `here` in `t`, made from `m` in the store `s`, has in each index space what
the imports name and then a new object for each definition of the module. -/
structure Aligned (registry : Registry) (s : Store) (m : Module) (t : Store) (here : Nat)
    (inst : InstanceData) : Prop where
  module : t.modules[inst.moduleAddr]? = some (.of m)
  length : ∀ kind, (inst.get kind).length = declared m kind
  imported : ∀ kind (i : Nat) imp, (importsOf m kind)[i]? = some imp →
    ∃ addr, (inst.get kind)[i]? = some addr ∧ exportedAddr s registry imp = some addr
  fresh : ∀ kind, ((inst.get kind).drop (importsOf m kind).length).Nodup ∧
    ∀ addr ∈ (inst.get kind).drop (importsOf m kind).length, s.count kind ≤ addr
  funcs : ∀ (i : Nat) body, m.codes[i]? = some body →
    ∃ addr, inst.funcs[(importsOf m .func).length + i]? = some addr ∧
      t.funcs[addr]? = some ⟨here, body, (importsOf m .func).length + i⟩
  tables : ∀ (i : Nat) tt, m.tables[(importsOf m .table).length + i]? = some tt →
    ∃ addr table, inst.tables[(importsOf m .table).length + i]? = some addr ∧
      t.tables[addr]? = some table ∧ table.type = tt ∧ table.entries.length = tt.limits.min
  mems : ∀ (i : Nat) mt, m.mems[(importsOf m .mem).length + i]? = some mt →
    ∃ addr memory, inst.mems[(importsOf m .mem).length + i]? = some addr ∧
      t.memories[addr]? = some memory ∧ memory.type = mt ∧ memory.pages = mt.limits.min ∧
      memory.maxPages = min (mt.limits.max.getD s.maxMemoryPages) s.maxMemoryPages
  globals : ∀ (i : Nat) gt, m.globals[(importsOf m .global).length + i]? = some gt →
    ∃ addr init bytes, inst.globals[(importsOf m .global).length + i]? = some addr ∧
      m.globalInit[i]? = some init ∧ t.globals[addr]? = some bytes ∧
      initBytes t.globals inst.globals inst.funcs init = .ok bytes ∧
      bytes.length = gt.valtype.stackSize

theorem importsOf_length (m : Module) :
    (importsOf m .func).length = (importedFuncs m.imports).length ∧
    (importsOf m .table).length = (importedTables m.imports).length ∧
    (importsOf m .mem).length = (importedMems m.imports).length ∧
    (importsOf m .global).length = (importedGlobals m.imports).length := by
  unfold importsOf
  induction m.imports with
  | nil => simp [importedFuncs, importedTables, importedMems, importedGlobals]
  | cons i imports ih =>
      simp only [importedFuncs, importedTables, importedMems, importedGlobals] at ih ⊢
      obtain ⟨hfuncs, htables, hmems, hglobals⟩ := ih
      obtain ⟨moduleName, name, desc⟩ := i
      cases desc <;>
        simp [importKind.eq_1, importKind.eq_2, importKind.eq_3, importKind.eq_4, hfuncs, htables,
          hmems, hglobals]

/-- The addresses found for the imports of a kind are those the exporters have. -/
theorem resolveImports_exported {s : Store} {registry : Registry} {m : Module} {imported : Spaces}
    (hok : resolveImports s registry m.fts .empty m.imports = .ok imported) (kind : Kind) :
    List.Forall₂ (fun i addr => exportedAddr s registry i = some addr) (importsOf m kind)
      (imported.get kind) := by
  obtain ⟨found, hfound, hget⟩ := resolveImports_eq_ok hok
  have hspace : imported.get kind = (found.filter (·.1 = kind)).map (·.2) := by
    rw [hget kind]
    cases kind <;> rfl
  have hresolved : ∀ i r, resolveImport s registry m.fts i = .ok r →
      importKind i.desc = r.1 ∧ exportedAddr s registry i = some r.2 := by
    rintro ⟨moduleName, name, desc⟩ ⟨kind, addr⟩ hresolve
    obtain ⟨inst, mod, export_, hexporter, hmatch⟩ := resolveImport_eq_ok hresolve
    unfold exportedAddr
    rw [hexporter]
    cases hmatch <;> exact ⟨rfl, by assumption⟩
  rw [hspace, importsOf, ← List.filterMap_eq_filter]
  refine forall₂_pick hfound ?_ ?_
  · intro i r a hresolve hpick
    obtain ⟨hkind, haddr⟩ := hresolved i r hresolve
    obtain ⟨rfl, hpick⟩ := Option.guard_eq_some_iff.mp hpick
    exact ⟨by simpa [hkind] using hpick, haddr⟩
  · intro i r hresolve hpick hkind
    obtain ⟨hkind', -⟩ := hresolved i r hresolve
    simp [Option.guard, hkind', hkind] at hpick

section aligned

variable {registry : Registry} {s t : Store} {m : Module} {here : Nat} {imported sp : Spaces}

private theorem imported_length (h : Instantiated registry s m t here imported sp) (kind : Kind) :
    (imported.get kind).length = (importsOf m kind).length :=
  (resolveImports_exported h.resolved kind).length_eq.symm

/-- Every index space is the imported addresses followed by consecutive new ones. -/
private theorem space_eq (h : Instantiated registry s m t here imported sp) (kind : Kind) :
    ∃ n, sp.get kind = imported.get kind ++ List.range' (s.count kind) n := by
  cases kind with
  | func => exact ⟨_, h.spaceFuncs⟩
  | table => exact ⟨_, h.spaceTables⟩
  | mem => exact ⟨_, h.spaceMems⟩
  | global => exact ⟨_, h.spaceGlobals⟩

private theorem space_drop (h : Instantiated registry s m t here imported sp) (kind : Kind) :
    ∃ n, (sp.get kind).drop (importsOf m kind).length = List.range' (s.count kind) n := by
  obtain ⟨n, hspace⟩ := space_eq h kind
  exact ⟨n, by rw [hspace, ← imported_length h kind, List.drop_left]⟩

/-- Only the table space can differ in length, by as many entries as tables are imported. -/
private theorem space_length (h : Instantiated registry s m t here imported sp)
    (hshaped : Parser.WellShaped m) (kind : Kind) :
    (sp.get kind).length = declared m kind +
      if kind = .table then (importedTables m.imports).length else 0 := by
  obtain ⟨hfuncs, htables, hmems, hglobals⟩ := importsOf_length m
  have himported := imported_length h kind
  cases kind with
  | func =>
      obtain ⟨defined, hdefined, hcodes⟩ := hshaped.functions
      simp only [Spaces.get, declared, hdefined, h.spaceFuncs, List.length_append,
        List.length_range', reduceCtorEq, if_false] at himported ⊢
      omega
  | table =>
      simp only [Spaces.get, declared, h.spaceTables, List.length_append, List.length_range',
        if_true] at himported ⊢
      omega
  | mem =>
      obtain ⟨defined, hdefined⟩ := hshaped.mems
      simp only [Spaces.get, declared, hdefined, h.spaceMems, List.length_append, List.length_drop,
        List.length_range', reduceCtorEq, if_false] at himported ⊢
      omega
  | global =>
      obtain ⟨defined, hdefined, hinits⟩ := hshaped.globals
      have hlen := hinits.length_eq
      simp only [Spaces.get, declared, hdefined, h.spaceGlobals, List.length_append,
        List.length_range', reduceCtorEq, if_false] at himported ⊢
      omega

private theorem getElem?_fresh {xs ys : List Nat} {n i : Nat} (hlen : xs.length = n) :
    (xs ++ ys)[n + i]? = ys[i]? := by
  rw [List.getElem?_append_right (by omega)]
  congr 1
  omega

private theorem aligned_funcs (h : Instantiated registry s m t here imported sp) {i body : Nat}
    (hbody : m.codes[i]? = some body) :
    ∃ addr, sp.funcs[(importsOf m .func).length + i]? = some addr ∧
      t.funcs[addr]? = some ⟨here, body, (importsOf m .func).length + i⟩ := by
  have hlen : imported.funcs.length = (importsOf m .func).length := imported_length h .func
  have hrange := forall₂_range' id s.funcs (newFuncs here imported.funcs.length m.codes)
  have hget : (newFuncs here imported.funcs.length m.codes)[i]? =
      some ⟨here, body, imported.funcs.length + i⟩ := by
    simp [newFuncs, hbody]
  obtain ⟨addr, haddr, hfunc⟩ := forall₂_getElem? hrange hget
  refine ⟨addr, ?_, ?_⟩
  · rw [h.spaceFuncs, getElem?_fresh hlen]
    simpa [newFuncs] using haddr
  · rw [h.funcs, ← hlen]
    simpa using hfunc

private theorem aligned_tables (h : Instantiated registry s m t here imported sp)
    (hnone : importedTables m.imports = []) {i : Nat} {tt : TableType}
    (htt : m.tables[(importsOf m .table).length + i]? = some tt) :
    ∃ addr table, sp.tables[(importsOf m .table).length + i]? = some addr ∧
      t.tables[addr]? = some table ∧ table.type = tt ∧ table.entries.length = tt.limits.min := by
  have hlen : imported.tables.length = (importsOf m .table).length := imported_length h .table
  have hzero : (importsOf m .table).length = 0 := by
    rw [(importsOf_length m).2.1, hnone, List.length_nil]
  have hrange := forall₂_range' (fun tt : TableType => (tt, tt.limits.min))
    (s.tables.map (·.shape)) m.tables
  rw [hzero, Nat.zero_add] at htt
  obtain ⟨addr, haddr, hshape⟩ := forall₂_getElem? hrange htt
  rw [← h.tables, List.getElem?_map] at hshape
  obtain ⟨table, htable, hshape⟩ := Option.map_eq_some_iff.mp hshape
  refine ⟨addr, table, ?_, htable, congrArg Prod.fst hshape, congrArg Prod.snd hshape⟩
  rw [h.spaceTables, getElem?_fresh hlen]
  simpa using haddr

private theorem aligned_mems (h : Instantiated registry s m t here imported sp) {i : Nat}
    {mt : MemType} (hmt : m.mems[(importsOf m .mem).length + i]? = some mt) :
    ∃ addr memory, sp.mems[(importsOf m .mem).length + i]? = some addr ∧
      t.memories[addr]? = some memory ∧ memory.type = mt ∧ memory.pages = mt.limits.min ∧
      memory.maxPages = min (mt.limits.max.getD s.maxMemoryPages) s.maxMemoryPages := by
  have hlen : imported.mems.length = (importsOf m .mem).length := imported_length h .mem
  have hrange := forall₂_range' (fun ty : MemType =>
      (ty, ty.limits.min, min (ty.limits.max.getD s.maxMemoryPages) s.maxMemoryPages))
    (s.memories.map (·.shape)) (m.mems.drop imported.mems.length)
  have hget : (m.mems.drop imported.mems.length)[i]? = some mt := by
    rw [List.getElem?_drop, hlen]
    exact hmt
  obtain ⟨addr, haddr, hshape⟩ := forall₂_getElem? hrange hget
  rw [← h.memories, List.getElem?_map] at hshape
  obtain ⟨memory, hmemory, hshape⟩ := Option.map_eq_some_iff.mp hshape
  refine ⟨addr, memory, ?_, hmemory, congrArg Prod.fst hshape,
    congrArg (·.2.1) hshape, congrArg (·.2.2) hshape⟩
  rw [h.spaceMems, getElem?_fresh hlen]
  simpa using haddr

private theorem aligned_globals (h : Instantiated registry s m t here imported sp)
    (hshaped : Parser.WellShaped m) (hsized : List.Forall₂ (GlobalAt t) m.globals sp.globals)
    {i : Nat} {gt : GlobalType} (hgt : m.globals[(importsOf m .global).length + i]? = some gt) :
    ∃ addr init bytes, sp.globals[(importsOf m .global).length + i]? = some addr ∧
      m.globalInit[i]? = some init ∧ t.globals[addr]? = some bytes ∧
      initBytes t.globals sp.globals sp.funcs init = .ok bytes ∧
      bytes.length = gt.valtype.stackSize := by
  have hlen : imported.globals.length = (importsOf m .global).length := imported_length h .global
  obtain ⟨defined, hdefined, hinits⟩ := hshaped.globals
  obtain ⟨values, hvalues, hbytes⟩ := h.globals
  obtain ⟨addr, haddr, hat⟩ := forall₂_getElem? hsized hgt
  have hgt' : defined[i]? = some gt := by
    rw [hdefined, List.getElem?_append_right (by rw [(importsOf_length m).2.2.2]; omega),
      (importsOf_length m).2.2.2, Nat.add_sub_cancel_left] at hgt
    exact hgt
  obtain ⟨init, hinit, -⟩ := forall₂_getElem? hinits hgt'
  obtain ⟨bytes, hvalue, hok⟩ := forall₂_getElem? hbytes hinit
  have hrange := forall₂_range' id s.globals values
  obtain ⟨addr', haddr', hget⟩ := forall₂_getElem? hrange hvalue
  have heq : addr' = addr := by
    rw [h.spaceGlobals, getElem?_fresh hlen, hbytes.length_eq, haddr'] at haddr
    exact Option.some.inj haddr
  subst heq
  have hbyte : t.globals[addr']? = some bytes := by
    rw [hvalues]
    simpa using hget
  refine ⟨addr', init, bytes, haddr, hinit, hbyte, hok, ?_⟩
  rw [GlobalAt, List.getElem?_map, hbyte] at hat
  exact Option.some.inj hat

theorem Instantiated.aligned_iff (h : Instantiated registry s m t here imported sp)
    (hshaped : Parser.WellShaped m) (hsized : List.Forall₂ (GlobalAt t) m.globals sp.globals) :
    Aligned registry s m t here ⟨sp, s.nextInstanceId, s.modules.length⟩ ↔
      importedTables m.imports = [] := by
  constructor
  · intro haligned
    have hlen : (sp.get .table).length = declared m .table := haligned.length .table
    rw [space_length h hshaped .table, if_pos rfl] at hlen
    exact List.length_eq_zero_iff.mp (by omega)
  · intro hnone
    refine ⟨?_, ?_, ?_, ?_, ?_, ?_, ?_, ?_⟩
    · rw [h.modules]
      simp
    · intro kind
      have hlen := space_length h hshaped kind
      rw [hnone, List.length_nil, ite_self, Nat.add_zero] at hlen
      exact hlen
    · intro kind i imp himp
      obtain ⟨addr, haddr, hexported⟩ :=
        forall₂_getElem? (resolveImports_exported h.resolved kind) himp
      obtain ⟨n, hspace⟩ := space_eq h kind
      refine ⟨addr, ?_, hexported⟩
      change (sp.get kind)[i]? = some addr
      rw [hspace]
      exact getElem?_prefix_mono (List.prefix_append _ _) haddr
    · intro kind
      obtain ⟨n, hdrop⟩ := space_drop h kind
      change ((sp.get kind).drop _).Nodup ∧ ∀ addr ∈ (sp.get kind).drop _, s.count kind ≤ addr
      rw [hdrop]
      exact ⟨List.nodup_range', fun addr hmem => (List.mem_range'_1.mp hmem).1⟩
    · exact fun i body hbody => aligned_funcs h hbody
    · exact fun i tt htt => aligned_tables h hnone htt
    · exact fun i mt hmt => aligned_mems h hmt
    · exact fun i gt hgt => aligned_globals h hshaped hsized hgt

end aligned

/-- The index spaces of the instance a run makes from a parsed module line up with the module
exactly when the module imports no table. -/
theorem instantiate_aligned_iff {sections : List Parser.Section} {m : Module} {w : World}
    {mappable : Nat → Bool} {registry : Registry} {t : Store} {here : Nat}
    (hparse : Parser.parseModule sections = .ok m) (hreach : Reachable anyModule w)
    (hregistry : w.Registers registry)
    (hok : instantiate mappable registry w.store m = (t, .ok here)) :
    (∃ inst, t.instances[here]? = some inst ∧ Aligned registry w.store m t here inst) ↔
      importedTables m.imports = [] := by
  have hshaped := Parser.parseModule_wellShaped hparse
  have hgrows := instantiate_grows mappable registry w.store m
  rw [hok] at hgrows
  obtain ⟨imported, sp, hinst⟩ := instantiate_eq_ok hok
  have hsized := hinst.globals_sized hgrows hreach.globals_sized hregistry hshaped
  have hhere : t.instances[here]? = some ⟨sp, w.store.nextInstanceId, w.store.modules.length⟩ := by
    rw [hinst.instances, hinst.inst_eq]
    simp
  rw [hhere]
  constructor
  · rintro ⟨inst, heq, haligned⟩
    obtain rfl := Option.some.inj heq
    exact (hinst.aligned_iff hshaped hsized).mp haligned
  · intro hnone
    exact ⟨_, rfl, (hinst.aligned_iff hshaped hsized).mpr hnone⟩

section chosen

private def exportingSections : List Parser.Section :=
  [.table [⟨.funcRef, ⟨2, some 4⟩⟩], .global [(⟨.i32, false⟩, [.i32 7])],
    .export_ [⟨"t", .table 0⟩, ⟨"g", .global 0⟩]]

private def exporting : Module :=
  ⟨[], [], [], [], [⟨.i32, false⟩], [.i32 7], [⟨"t", .table 0⟩, ⟨"g", .global 0⟩],
    [⟨.funcRef, ⟨2, some 4⟩⟩], [], [], []⟩

private theorem exporting_parsed : Parser.parseModule exportingSections = .ok exporting := rfl

private def exportingWorld : World :=
  World.after ⟨.empty 10, []⟩ (instantiate (fun _ => true) (fun _ => none) (.empty 10) exporting)

private def env : Registry := fun name => if name = "env" then some 0 else none

private theorem exportingWorld_reachable : Reachable anyModule exportingWorld := by
  refine ⟨10, .single ⟨.instantiate, trivial, ?_⟩⟩
  exact .instantiate (fun name inst h => by cases h) (.parsed exporting_parsed) trivial

private theorem exportingWorld_registers : exportingWorld.Registers env := by
  intro name inst h
  have hhandles : exportingWorld.handles = [0] := rfl
  unfold env at h
  split at h
  · cases h
    rw [hhandles]
    exact List.mem_singleton_self 0
  · cases h

/-- A module that defines a table and initializes a global from an imported one. -/
private def usingGlobal : Module :=
  ⟨[], [], [⟨"env", "g", .globalType ⟨.i32, false⟩⟩], [], [⟨.i32, false⟩, ⟨.i32, true⟩],
    [.globalGet 0], [], [⟨.externRef, ⟨5, none⟩⟩], [], [], []⟩

theorem instantiate_aligned_usingGlobal :
    ∃ inst, (instantiate (fun _ => true) env exportingWorld.store usingGlobal).1.instances[1]? =
        some inst ∧
      Aligned env exportingWorld.store usingGlobal
        (instantiate (fun _ => true) env exportingWorld.store usingGlobal).1 1 inst := by
  have hparse : Parser.parseModule
      [.import_ [⟨"env", "g", .globalType ⟨.i32, false⟩⟩], .table [⟨.externRef, ⟨5, none⟩⟩],
        .global [(⟨.i32, true⟩, [.globalGet 0])]] = .ok usingGlobal := rfl
  have hok : (instantiate (fun _ => true) env exportingWorld.store usingGlobal).2 = .ok 1 := rfl
  exact (instantiate_aligned_iff hparse exportingWorld_reachable exportingWorld_registers
    (Prod.ext rfl hok)).mpr rfl

/-- A module that imports a table of functions and defines one of external references. -/
private def usingTable : Module :=
  ⟨[], [], [⟨"env", "t", .tableType ⟨.funcRef, ⟨1, none⟩⟩⟩], [], [], [], [],
    [⟨.funcRef, ⟨1, none⟩⟩, ⟨.externRef, ⟨5, none⟩⟩], [], [], []⟩

/-- Index 1 of the instance made from `usingTable` is a table of functions of its own. -/
theorem instantiate_shifts_tables :
    ¬∀ (sections : List Parser.Section) (m : Module) (w : World) (mappable : Nat → Bool)
      (registry : Registry) (t : Store) (here : Nat), Parser.parseModule sections = .ok m →
      Reachable anyModule w → w.Registers registry →
      instantiate mappable registry w.store m = (t, .ok here) →
      ∃ inst, t.instances[here]? = some inst ∧ Aligned registry w.store m t here inst := by
  intro h
  have hparse : Parser.parseModule
      [.import_ [⟨"env", "t", .tableType ⟨.funcRef, ⟨1, none⟩⟩⟩],
        .table [⟨.externRef, ⟨5, none⟩⟩]] = .ok usingTable := rfl
  have hok : (instantiate (fun _ => true) env exportingWorld.store usingTable).2 = .ok 1 := rfl
  have hplaced : (instantiate (fun _ => true) env exportingWorld.store usingTable).1.instances[1]? =
      some ⟨⟨[], [0, 1, 2], [], []⟩, 1, 1⟩ := rfl
  obtain ⟨inst, hinst, haligned⟩ := h _ _ _ _ _ _ _ hparse exportingWorld_reachable
    exportingWorld_registers (Prod.ext rfl hok)
  obtain rfl := Option.some.inj (hplaced.symm.trans hinst)
  have hlength := haligned.length .table
  exact absurd hlength (by decide)

end chosen

end Telomere.Runtime
