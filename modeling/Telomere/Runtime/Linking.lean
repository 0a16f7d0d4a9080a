import Telomere.Runtime.Runs

/-!
# What imports and aliases resolve to

An import that resolves names an export of an instance that was handed out, and the address it gets
is the one that instance has for it. So what links a recorded type to an address passes from the
exporting instance to the importing one.
-/

namespace Telomere.Runtime

/-- An import and an export that match, with the kind and the address that result. -/
inductive Matches (s : Store) (fts : List FuncType) (inst : InstanceData) (mod : ModuleInstance) :
    ImportDesc → ExportDesc → Kind → Nat → Prop
  | func {tidx idx typeidx addr : Nat} {ft : FuncType} (himport : fts[tidx]? = some ft)
      (htypeidx : mod.functions[idx]? = some typeidx)
      (hexport : mod.functionTypes[typeidx]? = some ft) (haddr : inst.funcs[idx]? = some addr) :
      Matches s fts inst mod (.typeIdx tidx) (.func idx) .func addr
  | global {gt : GlobalType} {idx addr : Nat} (hexport : mod.globals[idx]? = some gt)
      (haddr : inst.globals[idx]? = some addr) :
      Matches s fts inst mod (.globalType gt) (.global idx) .global addr
  | table {tt exportTt : TableType} {idx addr : Nat} {table : TableInstance}
      (hexport : mod.tables[idx]? = some exportTt) (hreftype : tt.reftype = exportTt.reftype)
      (haddr : inst.tables[idx]? = some addr) (htable : s.tables[addr]? = some table)
      (hlimits : validateLimit tt.limits (table.entries.length % 2 ^ 32) exportTt.limits = .ok ()) :
      Matches s fts inst mod (.tableType tt) (.table idx) .table addr
  | mem {mt exportMt : MemType} {idx addr : Nat} {memory : MemoryObject}
      (haddr : inst.mems[idx]? = some addr) (hexport : mod.mems[idx]? = some exportMt)
      (hshared : mt.shared = exportMt.shared) (hmemory : s.memories[addr]? = some memory)
      (hlimits : validateLimit mt.limits memory.pages exportMt.limits = .ok ()) :
      Matches s fts inst mod (.memType mt) (.mem idx) .mem addr

theorem matchImport_eq_ok {s : Store} {fts : List FuncType} {inst : InstanceData}
    {mod : ModuleInstance} {desc : ImportDesc} {export_ : ExportDesc} {kind : Kind} {addr : Nat} :
    matchImport s fts inst mod desc export_ = .ok (kind, addr) ↔
      Matches s fts inst mod desc export_ kind addr := by
  constructor
  · intro hok
    cases desc <;> cases export_ <;>
      simp only [matchImport, Lib.bind_eq_ok, index_eq_ok, getOr_eq_ok, Lib.ite_error_eq_ok,
        Lib.pure_eq_ok, not_not, Prod.mk.injEq, reduceCtorEq] at hok
    · obtain ⟨ft, himport, typeidx, htypeidx, ft', hexport, rfl, addr, haddr, rfl, rfl⟩ := hok
      exact .func himport htypeidx hexport haddr
    · obtain ⟨tt', hexport, hreftype, addr, haddr, table, htable, _, hlimits, rfl, rfl⟩ := hok
      exact .table hexport hreftype haddr htable hlimits
    · obtain ⟨addr, haddr, mt', hexport, hshared, memory, hmemory, _, hlimits, rfl, rfl⟩ := hok
      exact .mem haddr hexport hshared hmemory hlimits
    · obtain ⟨gt', hexport, rfl, addr, haddr, rfl, rfl⟩ := hok
      exact .global hexport haddr
  · intro h
    cases h with
    | func himport htypeidx hexport haddr =>
        simp only [matchImport, Lib.bind_eq_ok, index_eq_ok, Lib.ite_error_eq_ok, Lib.pure_eq_ok,
          not_not]
        exact ⟨_, himport, _, htypeidx, _, hexport, rfl, _, haddr, rfl⟩
    | global hexport haddr =>
        simp only [matchImport, Lib.bind_eq_ok, index_eq_ok, Lib.ite_error_eq_ok, Lib.pure_eq_ok,
          not_not]
        exact ⟨_, hexport, rfl, _, haddr, rfl⟩
    | table hexport hreftype haddr htable hlimits =>
        simp only [matchImport, Lib.bind_eq_ok, index_eq_ok, Lib.ite_error_eq_ok, Lib.pure_eq_ok,
          not_not]
        exact ⟨_, hexport, hreftype, _, haddr, _, htable, _, hlimits, rfl⟩
    | mem haddr hexport hshared hmemory hlimits =>
        simp only [matchImport, Lib.bind_eq_ok, index_eq_ok, getOr_eq_ok, Lib.ite_error_eq_ok,
          Lib.pure_eq_ok, not_not]
        exact ⟨_, haddr, _, hexport, hshared, _, hmemory, _, hlimits, rfl⟩

theorem resolveImport_eq_ok {s : Store} {registry : Registry} {fts : List FuncType} {i : Import}
    {kind : Kind} {addr : Nat} (hok : resolveImport s registry fts i = .ok (kind, addr)) :
    ∃ inst mod export_, exporter s registry i.moduleName i.name = .ok (inst, mod, export_) ∧
      Matches s fts inst mod i.desc export_ kind addr := by
  obtain ⟨⟨inst, mod, export_⟩, hexporter, hok⟩ := Lib.bind_eq_ok.mp hok
  exact ⟨inst, mod, export_, hexporter, matchImport_eq_ok.mp hok⟩

theorem forall₂_pick {ε α : Type} {resolve : Import → Except ε (Kind × Nat)} {kind : Kind}
    {pick : Import → Option α} {R : α → Nat → Prop} {imports : List Import}
    {found : List (Kind × Nat)} (h : List.Forall₂ (fun i r => resolve i = .ok r) imports found)
    (hsome : ∀ i r a, resolve i = .ok r → pick i = some a → r.1 = kind ∧ R a r.2)
    (hnone : ∀ i r, resolve i = .ok r → pick i = none → r.1 ≠ kind) :
    List.Forall₂ R (imports.filterMap pick) ((found.filter (·.1 = kind)).map (·.2)) := by
  induction h with
  | nil => exact .nil
  | @cons i r imports found hfirst _ ih =>
      rcases hpick : pick i with _ | a
      · have hkind := hnone i r hfirst hpick
        simpa [hpick, hkind] using ih
      · obtain ⟨hkind, hR⟩ := hsome i r a hfirst hpick
        rw [List.filterMap_cons_some hpick, List.filter_cons_of_pos (by simp [hkind]),
          List.map_cons]
        exact .cons hR ih

section imported

variable {s : Store} {registry : Registry} {fts : List FuncType} {imports : List Import}
  {imported : Spaces}

def Exports (s : Store) (registry : Registry) (inst : InstanceData) (mod : ModuleInstance)
    (desc : ExportDesc) : Prop :=
  ∃ moduleName name, exporter s registry moduleName name = .ok (inst, mod, desc)

theorem importedGlobals_found
    (hok : resolveImports s registry fts .empty imports = .ok imported) :
    List.Forall₂ (fun gt addr => ∃ inst mod idx, Exports s registry inst mod (.global idx) ∧
      mod.globals[idx]? = some gt ∧ inst.globals[idx]? = some addr)
      (importedGlobals imports) imported.globals := by
  obtain ⟨found, hfound, hget⟩ := resolveImports_eq_ok hok
  have hglobals : imported.globals = (found.filter (·.1 = .global)).map (·.2) := hget .global
  rw [hglobals]
  refine forall₂_pick hfound ?_ ?_
  · rintro ⟨moduleName, name, desc⟩ ⟨kind, addr⟩ gt hresolve hpick
    obtain ⟨inst, mod, export_, hexporter, hmatch⟩ := resolveImport_eq_ok hresolve
    cases hmatch with
    | global hexport haddr =>
        cases hpick
        exact ⟨rfl, inst, mod, _, ⟨moduleName, name, hexporter⟩, hexport, haddr⟩
    | _ => cases hpick
  · rintro ⟨moduleName, name, desc⟩ ⟨kind, addr⟩ hresolve hpick
    obtain ⟨inst, mod, export_, hexporter, hmatch⟩ := resolveImport_eq_ok hresolve
    cases hmatch <;> simp_all

theorem importedTables_found
    (hok : resolveImports s registry fts .empty imports = .ok imported) :
    List.Forall₂ (fun tt addr => ∃ inst mod idx exportTt size,
      Exports s registry inst mod (.table idx) ∧ mod.tables[idx]? = some exportTt ∧
      inst.tables[idx]? = some addr ∧ tt.reftype = exportTt.reftype ∧
      validateLimit tt.limits size exportTt.limits = .ok ())
      (importedTables imports) imported.tables := by
  obtain ⟨found, hfound, hget⟩ := resolveImports_eq_ok hok
  have htables : imported.tables = (found.filter (·.1 = .table)).map (·.2) := hget .table
  rw [htables]
  refine forall₂_pick hfound ?_ ?_
  · rintro ⟨moduleName, name, desc⟩ ⟨kind, addr⟩ tt hresolve hpick
    obtain ⟨inst, mod, export_, hexporter, hmatch⟩ := resolveImport_eq_ok hresolve
    cases hmatch with
    | table hexport hreftype haddr htable hlimits =>
        cases hpick
        exact ⟨rfl, inst, mod, _, _, _, ⟨moduleName, name, hexporter⟩, hexport, haddr, hreftype,
          hlimits⟩
    | _ => cases hpick
  · rintro ⟨moduleName, name, desc⟩ ⟨kind, addr⟩ hresolve hpick
    obtain ⟨inst, mod, export_, hexporter, hmatch⟩ := resolveImport_eq_ok hresolve
    cases hmatch <;> simp_all

theorem importedMems_found
    (hok : resolveImports s registry fts .empty imports = .ok imported) :
    List.Forall₂ (fun mt addr => ∃ inst mod idx exportMt size,
      Exports s registry inst mod (.mem idx) ∧ mod.mems[idx]? = some exportMt ∧
      inst.mems[idx]? = some addr ∧ mt.shared = exportMt.shared ∧
      validateLimit mt.limits size exportMt.limits = .ok ())
      (importedMems imports) imported.mems := by
  obtain ⟨found, hfound, hget⟩ := resolveImports_eq_ok hok
  have hmems : imported.mems = (found.filter (·.1 = .mem)).map (·.2) := hget .mem
  rw [hmems]
  refine forall₂_pick hfound ?_ ?_
  · rintro ⟨moduleName, name, desc⟩ ⟨kind, addr⟩ mt hresolve hpick
    obtain ⟨inst, mod, export_, hexporter, hmatch⟩ := resolveImport_eq_ok hresolve
    cases hmatch with
    | mem haddr hexport hshared hmemory hlimits =>
        cases hpick
        exact ⟨rfl, inst, mod, _, _, _, ⟨moduleName, name, hexporter⟩, hexport, haddr, hshared,
          hlimits⟩
    | _ => cases hpick
  · rintro ⟨moduleName, name, desc⟩ ⟨kind, addr⟩ hresolve hpick
    obtain ⟨inst, mod, export_, hexporter, hmatch⟩ := resolveImport_eq_ok hresolve
    cases hmatch <;> simp_all

end imported

section aliased

variable {s : Store} {registry : Registry}

/-- Every entry of the new module's record was recorded by an exporter beside the same address, and
exports name such entries. -/
structure Aliased (s : Store) (registry : Registry) (mod : ModuleInstance) (sp : Spaces) :
    Prop where
  exports : ∀ ex ∈ mod.exports, (∀ idx, ex.desc = .table idx → idx < mod.tables.length) ∧
    ∀ idx, ex.desc = .mem idx → idx < mod.mems.length
  globals : List.Forall₂ (fun gt addr => ∃ inst source idx,
    Exports s registry inst source (.global idx) ∧ source.globals[idx]? = some gt ∧
    inst.globals[idx]? = some addr) mod.globals sp.globals
  tables : List.Forall₂ (fun tt addr => ∃ inst source idx,
    Exports s registry inst source (.table idx) ∧ source.tables[idx]? = some tt ∧
    inst.tables[idx]? = some addr) mod.tables sp.tables
  mems : List.Forall₂ (fun mt addr => ∃ inst source idx,
    Exports s registry inst source (.mem idx) ∧ source.mems[idx]? = some mt ∧
    inst.mems[idx]? = some addr) mod.mems sp.mems

private theorem forall₂_snoc {α β : Type} {R : α → β → Prop} {xs : List α} {ys : List β} {x : α}
    {y : β} (h : List.Forall₂ R xs ys) (hlast : R x y) : List.Forall₂ R (xs ++ [x]) (ys ++ [y]) :=
  List.rel_append h (.cons hlast .nil)

private theorem exports_snoc {exports : List Export} {tables tables' mems mems' : Nat}
    {name : String} {desc : ExportDesc}
    (h : ∀ ex ∈ exports, (∀ idx, ex.desc = .table idx → idx < tables) ∧
      ∀ idx, ex.desc = .mem idx → idx < mems) (htables : tables ≤ tables') (hmems : mems ≤ mems')
    (htable : ∀ idx, desc = .table idx → idx < tables')
    (hmem : ∀ idx, desc = .mem idx → idx < mems') :
    ∀ ex : Export, ex ∈ exports ++ [⟨name, desc⟩] →
      (∀ idx, ex.desc = .table idx → idx < tables') ∧ ∀ idx, ex.desc = .mem idx → idx < mems' := by
  intro ex hex
  rcases List.mem_append.mp hex with hex | hex
  · exact ⟨fun idx hidx => Nat.lt_of_lt_of_le ((h ex hex).1 idx hidx) htables,
      fun idx hidx => Nat.lt_of_lt_of_le ((h ex hex).2 idx hidx) hmems⟩
  · obtain rfl := List.mem_singleton.mp hex
    exact ⟨htable, hmem⟩

theorem aliasOne_aliased {mod mod' : ModuleInstance} {sp sp' : Spaces}
    {entry : String × String × String} (h : Aliased s registry mod sp)
    (hok : aliasOne s registry mod sp entry = .ok (mod', sp')) : Aliased s registry mod' sp' := by
  obtain ⟨⟨inst, source, desc⟩, hexporter, hok⟩ := Lib.bind_eq_ok.mp hok
  have hexports : Exports s registry inst source desc := ⟨_, _, hexporter⟩
  cases desc with
  | func idx =>
      obtain ⟨tidx, -, hok⟩ := Lib.bind_eq_ok.mp hok
      obtain ⟨ft, -, hok⟩ := Lib.bind_eq_ok.mp hok
      obtain ⟨addr, -, hok⟩ := Lib.bind_eq_ok.mp hok
      cases Lib.pure_eq_ok.mp hok
      exact ⟨exports_snoc h.exports (Nat.le_refl _) (Nat.le_refl _) (by simp) (by simp), h.globals,
        h.tables, h.mems⟩
  | global idx =>
      obtain ⟨gt, hgt, hok⟩ := Lib.bind_eq_ok.mp hok
      obtain ⟨addr, haddr, hok⟩ := Lib.bind_eq_ok.mp hok
      cases Lib.pure_eq_ok.mp hok
      exact ⟨exports_snoc h.exports (Nat.le_refl _) (Nat.le_refl _) (by simp) (by simp),
        forall₂_snoc h.globals
          ⟨inst, source, idx, hexports, index_eq_ok.mp hgt, index_eq_ok.mp haddr⟩,
        h.tables, h.mems⟩
  | mem idx =>
      obtain ⟨mt, hmt, hok⟩ := Lib.bind_eq_ok.mp hok
      obtain ⟨addr, haddr, hok⟩ := Lib.bind_eq_ok.mp hok
      cases Lib.pure_eq_ok.mp hok
      exact ⟨exports_snoc h.exports (Nat.le_refl _) (by simp) (by simp) (by simp), h.globals,
        h.tables, forall₂_snoc h.mems
          ⟨inst, source, idx, hexports, index_eq_ok.mp hmt, index_eq_ok.mp haddr⟩⟩
  | table idx =>
      obtain ⟨tt, htt, hok⟩ := Lib.bind_eq_ok.mp hok
      obtain ⟨addr, haddr, hok⟩ := Lib.bind_eq_ok.mp hok
      cases Lib.pure_eq_ok.mp hok
      exact ⟨exports_snoc h.exports (by simp) (Nat.le_refl _) (by simp) (by simp), h.globals,
        forall₂_snoc h.tables
          ⟨inst, source, idx, hexports, index_eq_ok.mp htt, index_eq_ok.mp haddr⟩, h.mems⟩

theorem aliasAll_aliased {mod mod' : ModuleInstance} {sp sp' : Spaces}
    {triplets : List (String × String × String)} (h : Aliased s registry mod sp)
    (hok : aliasAll s registry mod sp triplets = .ok (mod', sp')) :
    Aliased s registry mod' sp' := by
  induction triplets generalizing mod sp with
  | nil =>
      cases Except.ok.inj hok
      exact h
  | cons entry rest ih =>
      obtain ⟨⟨mod₁, sp₁⟩, hfirst, hok⟩ := Lib.bind_eq_ok.mp hok
      exact ih (aliasOne_aliased h hfirst) hok

theorem aliased_empty : Aliased s registry ⟨[], [], [], [], [], []⟩ .empty :=
  ⟨by simp, .nil, .nil, .nil⟩

end aliased

theorem exporter_all {R : Store → InstanceData → ModuleInstance → Prop} {w : World}
    {registry : Registry} {inst : InstanceData} {mod : ModuleInstance} {desc : ExportDesc}
    (hall : w.All R) (hregistry : w.Registers registry)
    (hexports : Exports w.store registry inst mod desc) :
    R w.store inst mod ∧ ∃ name, findExport mod.exports name = some desc := by
  obtain ⟨moduleName, name, hexporter⟩ := hexports
  simp only [exporter, Lib.bind_eq_ok, orElse_eq_ok, index_eq_ok, Lib.pure_eq_ok] at hexporter
  obtain ⟨addr, haddr, inst', hinst, mod', hmod, desc', hdesc, heq⟩ := hexporter
  cases heq
  obtain ⟨inst', mod', hinst', hR⟩ := hall addr (hregistry _ _ haddr)
  have heq : inst' = inst := Option.some.inj (hinst'.instance_eq.symm.trans hinst)
  subst heq
  have heq : mod' = mod := Option.some.inj (hinst'.module_eq.symm.trans hmod)
  subst heq
  exact ⟨hR, name, hdesc⟩

end Telomere.Runtime
