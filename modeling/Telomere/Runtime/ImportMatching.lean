import Telomere.Runtime.IndexSpaces

/-!
# What an import is matched with

An import of a table or a memory is matched with the size the object has and the limits the
exporting module recorded for it, not with the limits the object was created with. The two agree
until a module exports again what it imported under a wider maximum.
-/

namespace Telomere.Runtime

/-- A declared maximum that an object with the other one meets: absent, or not below it. -/
def Covers (declared object : Option Nat) : Prop :=
  ∀ d, declared = some d → ∃ n, object = some n ∧ n ≤ d

theorem Covers.refl (o : Option Nat) : Covers o o := fun d h => ⟨d, h, Nat.le_refl d⟩

theorem Covers.trans {a b c : Option Nat} (h : Covers a b) (h' : Covers b c) : Covers a c := by
  intro d hd
  obtain ⟨n, hn, hle⟩ := h d hd
  obtain ⟨k, hk, hle'⟩ := h' n hn
  exact ⟨k, hk, Nat.le_trans hle' hle⟩

theorem Covers.antisymm {a b : Option Nat} (h : Covers a b) (h' : Covers b a) : a = b := by
  cases a with
  | none =>
      cases b with
      | none => rfl
      | some n =>
          obtain ⟨_, hn, -⟩ := h' n rfl
          cases hn
  | some d =>
      obtain ⟨n, rfl, hle⟩ := h d rfl
      obtain ⟨_, hd, hle'⟩ := h' n rfl
      obtain rfl := Option.some.inj hd
      rw [Nat.le_antisymm hle' hle]

/-- Declared limits admit an object of a size and a maximum. -/
def Admits (declared : Limits) (size : Nat) (max : Option Nat) : Prop :=
  declared.min ≤ size ∧ Covers declared.max max

theorem validateLimit_eq_ok {importLimit exportLimit : Limits} {real : Nat} :
    validateLimit importLimit real exportLimit = .ok () ↔ Admits importLimit real exportLimit.max := by
  unfold validateLimit Admits Covers
  split
  · next h => simp [Nat.not_le.mpr h]
  · next h =>
      have hle : importLimit.min ≤ real := Nat.not_lt.mp h
      split
      · next => simp [*]
      · next exportMax importMax hexport himport =>
          simp [hexport, himport, hle]
      · next himport => simp [himport, hle]

section offers

variable (rel : Option Nat → Option Nat → Prop)

/-- The record of an exported table beside the table itself; `rel` relates the two maxima. -/
def TableOffer (s : Store) (inst : InstanceData) (mod : ModuleInstance) (idx : Nat) : Prop :=
  ∃ tt addr own, mod.tables[idx]? = some tt ∧ inst.tables[idx]? = some addr ∧
    (s.tables.map (·.type))[addr]? = some own ∧ tt.reftype = own.reftype ∧
    rel tt.limits.max own.limits.max

def MemOffer (s : Store) (inst : InstanceData) (mod : ModuleInstance) (idx : Nat) : Prop :=
  ∃ mt addr own, mod.mems[idx]? = some mt ∧ inst.mems[idx]? = some addr ∧
    (s.memories.map (·.type))[addr]? = some own ∧ mt.shared = own.shared ∧
    rel mt.limits.max own.limits.max

def TableOffers (s : Store) (inst : InstanceData) (mod : ModuleInstance) : Prop :=
  ∀ name idx, findExport mod.exports name = some (.table idx) → TableOffer rel s inst mod idx

def MemOffers (s : Store) (inst : InstanceData) (mod : ModuleInstance) : Prop :=
  ∀ name idx, findExport mod.exports name = some (.mem idx) → MemOffer rel s inst mod idx

end offers

section growth

variable {rel : Option Nat → Option Nat → Prop} {s t : Store} {inst : InstanceData}
  {mod : ModuleInstance}

theorem TableOffers.mono (hgrows : s.Grows t) (h : TableOffers rel s inst mod) :
    TableOffers rel t inst mod := by
  intro name idx hfind
  obtain ⟨tt, addr, own, htt, haddr, hown, hrest⟩ := h name idx hfind
  exact ⟨tt, addr, own, htt, haddr, getElem?_prefix_mono hgrows.tables hown, hrest⟩

theorem MemOffers.mono (hgrows : s.Grows t) (h : MemOffers rel s inst mod) :
    MemOffers rel t inst mod := by
  intro name idx hfind
  obtain ⟨mt, addr, own, hmt, haddr, hown, hrest⟩ := h name idx hfind
  exact ⟨mt, addr, own, hmt, haddr, getElem?_prefix_mono hgrows.memories hown, hrest⟩

end growth

theorem findExport_mem {exports : List Export} {name : String} {desc : ExportDesc}
    (h : findExport exports name = some desc) : ∃ ex ∈ exports, ex.desc = desc := by
  obtain ⟨ex, hfind, rfl⟩ := Option.map_eq_some_iff.mp h
  exact ⟨ex, List.mem_of_find?_eq_some hfind, rfl⟩

theorem export_in_range {m : Module} (hshaped : Parser.WellShaped m) {ex : Export}
    (hex : ex ∈ m.exs) : (∀ idx, ex.desc = .table idx → idx < m.tables.length) ∧
      ∀ idx, ex.desc = .mem idx → idx < m.mems.length := by
  have hvalid := hshaped.exs ex hex
  unfold Parser.validateExport at hvalid
  constructor
  · intro idx hdesc
    simpa [hdesc] using hvalid
  · intro idx hdesc
    simpa [hdesc] using hvalid

theorem aliased_offers {rel : Option Nat → Option Nat → Prop} {w : World} {registry : Registry}
    {triplets : List (String × String × String)} {mod : ModuleInstance} {sp : Spaces} {id addr : Nat}
    (hregistry : w.Registers registry)
    (halias : aliasAll w.store registry ⟨[], [], [], [], [], []⟩ .empty triplets = .ok (mod, sp)) :
    (w.All (TableOffers rel) → TableOffers rel w.store ⟨sp, id, addr⟩ mod) ∧
      (w.All (MemOffers rel) → MemOffers rel w.store ⟨sp, id, addr⟩ mod) := by
  have haliased := aliasAll_aliased aliased_empty halias
  constructor
  · intro hall name idx hfind
    obtain ⟨ex, hex, hdesc⟩ := findExport_mem hfind
    have hlt := (haliased.exports ex hex).1 idx hdesc
    obtain ⟨a, ha, inst, source, idx', hexports, htt, haddr⟩ :=
      forall₂_getElem? haliased.tables (List.getElem?_eq_getElem hlt)
    obtain ⟨hoffers, name', hfind'⟩ := exporter_all hall hregistry hexports
    obtain ⟨tt, addr', own, htt', haddr', hown, hrest⟩ := hoffers name' idx' hfind'
    obtain rfl := Option.some.inj (htt.symm.trans htt')
    obtain rfl := Option.some.inj (haddr.symm.trans haddr')
    exact ⟨_, a, own, List.getElem?_eq_getElem hlt, ha, hown, hrest⟩
  · intro hall name idx hfind
    obtain ⟨ex, hex, hdesc⟩ := findExport_mem hfind
    have hlt := (haliased.exports ex hex).2 idx hdesc
    obtain ⟨a, ha, inst, source, idx', hexports, hmt, haddr⟩ :=
      forall₂_getElem? haliased.mems (List.getElem?_eq_getElem hlt)
    obtain ⟨hoffers, name', hfind'⟩ := exporter_all hall hregistry hexports
    obtain ⟨mt, addr', own, hmt', haddr', hown, hrest⟩ := hoffers name' idx' hfind'
    obtain rfl := Option.some.inj (hmt.symm.trans hmt')
    obtain rfl := Option.some.inj (haddr.symm.trans haddr')
    exact ⟨_, a, own, List.getElem?_eq_getElem hlt, ha, hown, hrest⟩

/-- A module that imports tables exports none of its own. -/
def TablesApart (_ : Store) (_ : Registry) (m : Module) : Prop :=
  ∀ ex ∈ m.exs, ∀ idx, ex.desc = .table idx →
    importedTables m.imports = [] ∨ idx < (importedTables m.imports).length

/-- What a module imports and exports again it declares with the maximum of the object. -/
structure OwnMaxima (s : Store) (registry : Registry) (m : Module) : Prop where
  apart : TablesApart s registry m
  tables : ∀ ex ∈ m.exs, ∀ (idx : Nat) tt i addr own, ex.desc = .table idx →
    (importedTables m.imports)[idx]? = some tt → (importsOf m .table)[idx]? = some i →
    exportedAddr s registry i = some addr → (s.tables.map (·.type))[addr]? = some own →
    tt.limits.max = own.limits.max
  mems : ∀ ex ∈ m.exs, ∀ (idx : Nat) mt i addr own, ex.desc = .mem idx →
    (importedMems m.imports)[idx]? = some mt → (importsOf m .mem)[idx]? = some i →
    exportedAddr s registry i = some addr → (s.memories.map (·.type))[addr]? = some own →
    mt.limits.max = own.limits.max

section instantiated

variable {rel : Option Nat → Option Nat → Prop} {w : World} {registry : Registry} {m : Module}
  {t : Store} {here id addr : Nat} {imported sp : Spaces}

/-- The memories of the new instance are as its module says, what it imports up to `rel`. -/
theorem Instantiated.memOffers (hrefl : ∀ o, rel o o)
    (h : Instantiated registry w.store m t here imported sp) (hgrows : w.store.Grows t)
    (hall : w.All (MemOffers rel)) (hregistry : w.Registers registry)
    (hshaped : Parser.WellShaped m)
    (hlink : ∀ ex ∈ m.exs, ∀ (idx : Nat) mt addr own exportMax, ex.desc = .mem idx →
      (importedMems m.imports)[idx]? = some mt → imported.mems[idx]? = some addr →
      (w.store.memories.map (·.type))[addr]? = some own → Covers mt.limits.max exportMax →
      rel exportMax own.limits.max → rel mt.limits.max own.limits.max) :
    MemOffers rel t ⟨sp, id, addr⟩ (.of m) := by
  intro name idx hfind
  obtain ⟨ex, hex, hdesc⟩ := findExport_mem hfind
  have hlt : idx < m.mems.length := (export_in_range hshaped hex).2 idx hdesc
  obtain ⟨defined, hdefined⟩ := hshaped.mems
  have hfound := importedMems_found h.resolved
  by_cases himported : idx < (importedMems m.imports).length
  · have hmt := List.getElem?_eq_getElem himported
    obtain ⟨a, ha, inst, mod, idx', exportMt, size, hexports, hexport, ha', hshared, hlimits⟩ :=
      forall₂_getElem? hfound hmt
    obtain ⟨hoffers, name', hfind'⟩ := exporter_all hall hregistry hexports
    obtain ⟨mt', addr', own, hmt', haddr', hown, hshared', hrel⟩ := hoffers name' idx' hfind'
    obtain rfl := Option.some.inj (hexport.symm.trans hmt')
    obtain rfl := Option.some.inj (ha'.symm.trans haddr')
    refine ⟨_, a, own, ?_, ?_, getElem?_prefix_mono hgrows.memories hown, hshared.trans hshared', ?_⟩
    · change m.mems[idx]? = _
      rw [hdefined]
      exact getElem?_prefix_mono (List.prefix_append _ _) hmt
    · change sp.mems[idx]? = _
      rw [h.spaceMems]
      exact getElem?_prefix_mono (List.prefix_append _ _) ha
    · exact hlink ex hex idx _ a own _ hdesc hmt ha hown (validateLimit_eq_ok.mp hlimits).2 hrel
  · have hlen : imported.mems.length = (importedMems m.imports).length := hfound.length_eq.symm
    have hget : (m.mems.drop imported.mems.length)[idx - imported.mems.length]? =
        some m.mems[idx] := by
      rw [List.getElem?_drop, Nat.add_sub_cancel' (by omega), List.getElem?_eq_getElem hlt]
    have hrange := forall₂_range' (fun ty : MemType =>
        (ty, ty.limits.min, min (ty.limits.max.getD w.store.maxMemoryPages) w.store.maxMemoryPages))
      (w.store.memories.map (·.shape)) (m.mems.drop imported.mems.length)
    obtain ⟨a, ha, hshape⟩ := forall₂_getElem? hrange hget
    rw [← h.memories, List.getElem?_map] at hshape
    obtain ⟨memory, hmemory, hshape⟩ := Option.map_eq_some_iff.mp hshape
    refine ⟨m.mems[idx], a, memory.type, List.getElem?_eq_getElem hlt, ?_, ?_, ?_, ?_⟩
    · change sp.mems[idx]? = _
      rw [h.spaceMems, List.getElem?_append_right (by omega)]
      simpa using ha
    · rw [List.getElem?_map, hmemory]
      rfl
    · rw [show memory.type = m.mems[idx] from congrArg Prod.fst hshape]
    · rw [show memory.type = m.mems[idx] from congrArg Prod.fst hshape]
      exact hrefl _

/-- The same of the tables, when the module does not export one it defines past imported ones. -/
theorem Instantiated.tableOffers (hrefl : ∀ o, rel o o)
    (h : Instantiated registry w.store m t here imported sp) (hgrows : w.store.Grows t)
    (hall : w.All (TableOffers rel)) (hregistry : w.Registers registry)
    (hshaped : Parser.WellShaped m) (hapart : TablesApart w.store registry m)
    (hlink : ∀ ex ∈ m.exs, ∀ (idx : Nat) tt addr own exportMax, ex.desc = .table idx →
      (importedTables m.imports)[idx]? = some tt → imported.tables[idx]? = some addr →
      (w.store.tables.map (·.type))[addr]? = some own → Covers tt.limits.max exportMax →
      rel exportMax own.limits.max → rel tt.limits.max own.limits.max) :
    TableOffers rel t ⟨sp, id, addr⟩ (.of m) := by
  intro name idx hfind
  obtain ⟨ex, hex, hdesc⟩ := findExport_mem hfind
  have hlt : idx < m.tables.length := (export_in_range hshaped hex).1 idx hdesc
  obtain ⟨defined, hdefined⟩ := hshaped.tables
  have hfound := importedTables_found h.resolved
  by_cases himported : idx < (importedTables m.imports).length
  · have htt := List.getElem?_eq_getElem himported
    obtain ⟨a, ha, inst, mod, idx', exportTt, size, hexports, hexport, ha', hreftype, hlimits⟩ :=
      forall₂_getElem? hfound htt
    obtain ⟨hoffers, name', hfind'⟩ := exporter_all hall hregistry hexports
    obtain ⟨tt', addr', own, htt', haddr', hown, hreftype', hrel⟩ := hoffers name' idx' hfind'
    obtain rfl := Option.some.inj (hexport.symm.trans htt')
    obtain rfl := Option.some.inj (ha'.symm.trans haddr')
    refine ⟨_, a, own, ?_, ?_, getElem?_prefix_mono hgrows.tables hown, hreftype.trans hreftype', ?_⟩
    · change m.tables[idx]? = _
      rw [hdefined]
      exact getElem?_prefix_mono (List.prefix_append _ _) htt
    · change sp.tables[idx]? = _
      rw [h.spaceTables]
      exact getElem?_prefix_mono (List.prefix_append _ _) ha
    · exact hlink ex hex idx _ a own _ hdesc htt ha hown (validateLimit_eq_ok.mp hlimits).2 hrel
  · have hnone : importedTables m.imports = [] := (hapart ex hex idx hdesc).resolve_right himported
    have hempty : imported.tables = [] := by
      rw [hnone] at hfound
      exact List.forall₂_nil_left_iff.mp hfound
    have hrange := forall₂_range' (fun tt : TableType => (tt, tt.limits.min))
      (w.store.tables.map (·.shape)) m.tables
    obtain ⟨a, ha, hshape⟩ := forall₂_getElem? hrange (List.getElem?_eq_getElem hlt)
    rw [← h.tables, List.getElem?_map] at hshape
    obtain ⟨table, htable, hshape⟩ := Option.map_eq_some_iff.mp hshape
    refine ⟨m.tables[idx], a, table.type, List.getElem?_eq_getElem hlt, ?_, ?_, ?_, ?_⟩
    · change sp.tables[idx]? = _
      rw [h.spaceTables, hempty]
      simpa using ha
    · rw [List.getElem?_map, htable]
      rfl
    · rw [show table.type = m.tables[idx] from congrArg Prod.fst hshape]
    · rw [show table.type = m.tables[idx] from congrArg Prod.fst hshape]
      exact hrefl _

end instantiated

theorem Reachable.memOffers {allowed : Store → Registry → Module → Prop} {w : World}
    (h : Reachable allowed w) : w.All (MemOffers Covers) := by
  refine h.all (fun s t inst mod hgrows hoffers => hoffers.mono hgrows) ?_ ?_
  · intro w registry m t addr imported sp hall hregistry hshaped _ hgrows hinst
    exact hinst.memOffers Covers.refl hgrows hall hregistry hshaped
      fun _ _ _ _ _ _ _ _ _ _ _ hcovers hrel => hcovers.trans hrel
  · intro w registry triplets mod sp hall hregistry halias
    exact (aliased_offers hregistry halias).2 hall

theorem Reachable.tableOffers {w : World} (h : Reachable TablesApart w) :
    w.All (TableOffers Covers) := by
  refine h.all (fun s t inst mod hgrows hoffers => hoffers.mono hgrows) ?_ ?_
  · intro w registry m t addr imported sp hall hregistry hshaped hapart hgrows hinst
    exact hinst.tableOffers Covers.refl hgrows hall hregistry hshaped hapart
      fun _ _ _ _ _ _ _ _ _ _ _ hcovers hrel => hcovers.trans hrel
  · intro w registry triplets mod sp hall hregistry halias
    exact (aliased_offers hregistry halias).1 hall

private theorem import_of_index {s : Store} {registry : Registry} {m : Module} {imported : Spaces}
    (hok : resolveImports s registry m.fts .empty m.imports = .ok imported) {kind : Kind}
    {idx addr : Nat} (haddr : (imported.get kind)[idx]? = some addr) :
    ∃ i, (importsOf m kind)[idx]? = some i ∧ exportedAddr s registry i = some addr := by
  have hexported := resolveImports_exported hok kind
  have hlt : idx < (importsOf m kind).length := by
    rw [hexported.length_eq]
    exact (List.getElem?_eq_some_iff.mp haddr).1
  obtain ⟨addr', haddr', hi⟩ := forall₂_getElem? hexported (List.getElem?_eq_getElem hlt)
  obtain rfl := Option.some.inj (haddr.symm.trans haddr')
  exact ⟨_, List.getElem?_eq_getElem hlt, hi⟩

theorem Reachable.offers_own {w : World} (h : Reachable OwnMaxima w) :
    w.All (TableOffers Eq) ∧ w.All (MemOffers Eq) := by
  constructor
  · refine h.all (fun s t inst mod hgrows hoffers => hoffers.mono hgrows) ?_ ?_
    · intro w registry m t addr imported sp hall hregistry hshaped hown hgrows hinst
      refine hinst.tableOffers (fun _ => rfl) hgrows hall hregistry hshaped hown.apart ?_
      intro ex hex idx tt a own _ hdesc htt ha htype _ _
      obtain ⟨i, hi, hexported⟩ := @import_of_index _ _ _ _ hinst.resolved .table idx a ha
      exact hown.tables ex hex idx tt i a own hdesc htt hi hexported htype
    · intro w registry triplets mod sp hall hregistry halias
      exact (aliased_offers hregistry halias).1 hall
  · refine h.all (fun s t inst mod hgrows hoffers => hoffers.mono hgrows) ?_ ?_
    · intro w registry m t addr imported sp hall hregistry hshaped hown hgrows hinst
      refine hinst.memOffers (fun _ => rfl) hgrows hall hregistry hshaped ?_
      intro ex hex idx mt a own _ hdesc hmt ha htype _ _
      obtain ⟨i, hi, hexported⟩ := @import_of_index _ _ _ _ hinst.resolved .mem idx a ha
      exact hown.mems ex hex idx mt i a own hdesc hmt hi hexported htype
    · intro w registry triplets mod sp hall hregistry halias
      exact (aliased_offers hregistry halias).2 hall

/-! ## The decision -/

/-- The table exported under a name, with what its exporter recorded for it. -/
def ExportsTable (s : Store) (registry : Registry) (moduleName name : String)
    (table : TableInstance) (recorded : TableType) : Prop :=
  ∃ inst mod idx addr, exporter s registry moduleName name = .ok (inst, mod, .table idx) ∧
    mod.tables[idx]? = some recorded ∧ inst.tables[idx]? = some addr ∧ s.tables[addr]? = some table

def ExportsMem (s : Store) (registry : Registry) (moduleName name : String)
    (memory : MemoryObject) (recorded : MemType) : Prop :=
  ∃ inst mod idx addr, exporter s registry moduleName name = .ok (inst, mod, .mem idx) ∧
    mod.mems[idx]? = some recorded ∧ inst.mems[idx]? = some addr ∧ s.memories[addr]? = some memory

def Accepts (s : Store) (registry : Registry) (fts : List FuncType) (i : Import) : Prop :=
  ∃ found, resolveImport s registry fts i = .ok found

/-- Whatever an import of a table under this name declares, it is accepted exactly when the table
itself has the declared type, the declared size and a maximum that is not above the declared
one. -/
def TableByOwnType (s : Store) (registry : Registry) (moduleName name : String)
    (table : TableInstance) : Prop :=
  ∀ fts tt, tt.limits.min < 2 ^ 32 →
    (Accepts s registry fts ⟨moduleName, name, .tableType tt⟩ ↔
      tt.reftype = table.type.reftype ∧
        Admits tt.limits table.entries.length table.type.limits.max)

def MemByOwnType (s : Store) (registry : Registry) (moduleName name : String)
    (memory : MemoryObject) : Prop :=
  ∀ fts mt, Accepts s registry fts ⟨moduleName, name, .memType mt⟩ ↔
    mt.shared = memory.shared ∧ Admits mt.limits memory.pages memory.declared.max

theorem accepts_iff {s : Store} {registry : Registry} {fts : List FuncType} {i : Import}
    {inst : InstanceData} {mod : ModuleInstance} {desc : ExportDesc}
    (hexporter : exporter s registry i.moduleName i.name = .ok (inst, mod, desc)) :
    Accepts s registry fts i ↔ ∃ kind addr, Matches s fts inst mod i.desc desc kind addr := by
  unfold Accepts resolveImport
  rw [hexporter]
  constructor
  · rintro ⟨⟨kind, addr⟩, hok⟩
    exact ⟨kind, addr, matchImport_eq_ok.mp hok⟩
  · rintro ⟨kind, addr, hmatch⟩
    exact ⟨(kind, addr), matchImport_eq_ok.mpr hmatch⟩

theorem accepts_table_iff {s : Store} {registry : Registry} {moduleName name : String}
    {table : TableInstance} {recorded tt : TableType} {fts : List FuncType}
    (h : ExportsTable s registry moduleName name table recorded) :
    Accepts s registry fts ⟨moduleName, name, .tableType tt⟩ ↔
      tt.reftype = recorded.reftype ∧
        Admits tt.limits (table.entries.length % 2 ^ 32) recorded.limits.max := by
  obtain ⟨inst, mod, idx, addr, hexporter, hrecorded, haddr, htable⟩ := h
  rw [accepts_iff hexporter, ← validateLimit_eq_ok]
  constructor
  · rintro ⟨kind, addr', hmatch⟩
    cases hmatch with
    | table hexport hreftype haddr' htable' hlimits =>
        obtain rfl := Option.some.inj (hrecorded.symm.trans hexport)
        obtain rfl := Option.some.inj (haddr.symm.trans haddr')
        obtain rfl := Option.some.inj (htable.symm.trans htable')
        exact ⟨hreftype, hlimits⟩
  · rintro ⟨hreftype, hlimits⟩
    exact ⟨_, _, .table hrecorded hreftype haddr htable hlimits⟩

theorem accepts_mem_iff {s : Store} {registry : Registry} {moduleName name : String}
    {memory : MemoryObject} {recorded mt : MemType} {fts : List FuncType}
    (h : ExportsMem s registry moduleName name memory recorded) :
    Accepts s registry fts ⟨moduleName, name, .memType mt⟩ ↔
      mt.shared = recorded.shared ∧ Admits mt.limits memory.pages recorded.limits.max := by
  obtain ⟨inst, mod, idx, addr, hexporter, hrecorded, haddr, hmemory⟩ := h
  rw [accepts_iff hexporter, ← validateLimit_eq_ok]
  constructor
  · rintro ⟨kind, addr', hmatch⟩
    cases hmatch with
    | mem haddr' hexport hshared hmemory' hlimits =>
        obtain rfl := Option.some.inj (hrecorded.symm.trans hexport)
        obtain rfl := Option.some.inj (haddr.symm.trans haddr')
        obtain rfl := Option.some.inj (hmemory.symm.trans hmemory')
        exact ⟨hshared, hlimits⟩
  · rintro ⟨hshared, hlimits⟩
    exact ⟨_, _, .mem haddr hrecorded hshared hmemory hlimits⟩

/-- What the exporter recorded for an exported table, related to the table. -/
theorem recorded_table {rel : Option Nat → Option Nat → Prop} {w : World} {registry : Registry}
    {moduleName name : String} {table : TableInstance} {recorded : TableType}
    (hall : w.All (TableOffers rel)) (hregistry : w.Registers registry)
    (h : ExportsTable w.store registry moduleName name table recorded) :
    recorded.reftype = table.type.reftype ∧ rel recorded.limits.max table.type.limits.max := by
  obtain ⟨inst, mod, idx, addr, hexporter, hrecorded, haddr, htable⟩ := h
  obtain ⟨hoffers, name', hfind⟩ := exporter_all hall hregistry ⟨_, _, hexporter⟩
  obtain ⟨tt, addr', own, htt, haddr', hown, hreftype, hrel⟩ := hoffers name' idx hfind
  obtain rfl := Option.some.inj (hrecorded.symm.trans htt)
  obtain rfl := Option.some.inj (haddr.symm.trans haddr')
  rw [List.getElem?_map, htable] at hown
  obtain rfl := Option.some.inj hown
  exact ⟨hreftype, hrel⟩

theorem recorded_mem {rel : Option Nat → Option Nat → Prop} {w : World} {registry : Registry}
    {moduleName name : String} {memory : MemoryObject} {recorded : MemType}
    (hall : w.All (MemOffers rel)) (hregistry : w.Registers registry)
    (h : ExportsMem w.store registry moduleName name memory recorded) :
    recorded.shared = memory.shared ∧ rel recorded.limits.max memory.declared.max := by
  obtain ⟨inst, mod, idx, addr, hexporter, hrecorded, haddr, hmemory⟩ := h
  obtain ⟨hoffers, name', hfind⟩ := exporter_all hall hregistry ⟨_, _, hexporter⟩
  obtain ⟨mt, addr', own, hmt, haddr', hown, hshared, hrel⟩ := hoffers name' idx hfind
  obtain rfl := Option.some.inj (hrecorded.symm.trans hmt)
  obtain rfl := Option.some.inj (haddr.symm.trans haddr')
  rw [List.getElem?_map, hmemory] at hown
  obtain rfl := Option.some.inj hown
  exact ⟨hshared, hrel⟩

/-- A size that survives being cut to 32 bits as far as a 32-bit minimum can tell. -/
def FitsU32 (size : Nat) : Prop := size < 2 ^ 32 ∨ size % 2 ^ 32 = 2 ^ 32 - 1

private theorem fitsU32_iff {size : Nat} :
    FitsU32 size ↔ ∀ min < 2 ^ 32, min ≤ size → min ≤ size % 2 ^ 32 := by
  unfold FitsU32
  constructor
  · intro h min hmin hle
    omega
  · intro h
    by_cases hsize : size < 2 ^ 32
    · exact Or.inl hsize
    · have hmax := h (2 ^ 32 - 1) (by omega) (by omega)
      right
      omega

theorem tableByOwnType_iff {w : World} {registry : Registry} {moduleName name : String}
    {table : TableInstance} {recorded : TableType} (hall : w.All (TableOffers Covers))
    (hregistry : w.Registers registry)
    (h : ExportsTable w.store registry moduleName name table recorded) :
    TableByOwnType w.store registry moduleName name table ↔
      recorded.limits.max = table.type.limits.max ∧ FitsU32 table.entries.length := by
  obtain ⟨hreftype, hcovers⟩ := recorded_table hall hregistry h
  unfold TableByOwnType
  simp only [accepts_table_iff h, hreftype, fitsU32_iff]
  constructor
  · intro hown
    -- a declaration made of the table's own type, with a free minimum
    have hspec : ∀ min < 2 ^ 32, min ≤ table.entries.length →
        Admits ⟨min, table.type.limits.max⟩ (table.entries.length % 2 ^ 32) recorded.limits.max :=
      fun min hmin hle => ((hown [] ⟨table.type.reftype, ⟨min, table.type.limits.max⟩⟩ hmin).mpr
        ⟨rfl, hle, Covers.refl _⟩).2
    exact ⟨hcovers.antisymm (hspec 0 (by omega) (Nat.zero_le _)).2,
      fun min hmin hle => (hspec min hmin hle).1⟩
  · rintro ⟨hmax, hfits⟩ fts tt hmin
    rw [hmax]
    refine and_congr_right fun _ => and_congr_left fun _ => ?_
    exact ⟨fun hle => Nat.le_trans hle (Nat.mod_le _ _), fun hle => hfits _ hmin hle⟩

theorem memByOwnType_iff {w : World} {registry : Registry} {moduleName name : String}
    {memory : MemoryObject} {recorded : MemType} (hall : w.All (MemOffers Covers))
    (hregistry : w.Registers registry)
    (h : ExportsMem w.store registry moduleName name memory recorded) :
    MemByOwnType w.store registry moduleName name memory ↔
      recorded.limits.max = memory.declared.max := by
  obtain ⟨hshared, hcovers⟩ := recorded_mem hall hregistry h
  unfold MemByOwnType
  simp only [accepts_mem_iff h, hshared]
  constructor
  · intro hown
    have hspec := (hown [] ⟨⟨0, memory.declared.max⟩, memory.shared⟩).mpr
      ⟨rfl, Nat.zero_le _, Covers.refl _⟩
    exact hcovers.antisymm hspec.2.2
  · intro hmax fts mt
    rw [hmax]

/-- Imports follow the object's own type in every run whose modules export again what they import
only under the object's own maximum. Where modules also declare other maxima, they do so exactly
for the objects whose exporter recorded the object's own maximum. -/
theorem imports_by_own_type {w : World} {registry : Registry} (hregistry : w.Registers registry) :
    (Reachable OwnMaxima w → ∀ moduleName name,
      (∀ table recorded, ExportsTable w.store registry moduleName name table recorded →
        FitsU32 table.entries.length → TableByOwnType w.store registry moduleName name table) ∧
      ∀ memory recorded, ExportsMem w.store registry moduleName name memory recorded →
        MemByOwnType w.store registry moduleName name memory) ∧
    (Reachable TablesApart w → ∀ moduleName name,
      (∀ table recorded, ExportsTable w.store registry moduleName name table recorded →
        (TableByOwnType w.store registry moduleName name table ↔
          recorded.limits.max = table.type.limits.max ∧ FitsU32 table.entries.length)) ∧
      ∀ memory recorded, ExportsMem w.store registry moduleName name memory recorded →
        (MemByOwnType w.store registry moduleName name memory ↔
          recorded.limits.max = memory.declared.max)) := by
  constructor
  · intro hreach moduleName name
    have hapart : Reachable TablesApart w := hreach.mono fun _ _ _ h => h.apart
    obtain ⟨htables, hmems⟩ := hreach.offers_own
    constructor
    · intro table recorded h hfits
      exact (tableByOwnType_iff hapart.tableOffers hregistry h).mpr
        ⟨(recorded_table htables hregistry h).2, hfits⟩
    · intro memory recorded h
      exact (memByOwnType_iff hapart.memOffers hregistry h).mpr
        (recorded_mem hmems hregistry h).2
  · intro hreach moduleName name
    exact ⟨fun table recorded h => tableByOwnType_iff hreach.tableOffers hregistry h,
      fun memory recorded h => memByOwnType_iff hreach.memOffers hregistry h⟩

section chain

private def ownerSections : List Parser.Section :=
  [.table [⟨.funcRef, ⟨2, some 4⟩⟩], .export_ [⟨"t", .table 0⟩]]

private def owner : Module :=
  ⟨[], [], [], [], [], [], [⟨"t", .table 0⟩], [⟨.funcRef, ⟨2, some 4⟩⟩], [], [], []⟩

/-- The table again, under the maximum `max`. -/
private def forwarder (max : Option Nat) : Module :=
  ⟨[], [], [⟨"a", "t", .tableType ⟨.funcRef, ⟨1, max⟩⟩⟩], [], [], [], [⟨"t", .table 0⟩],
    [⟨.funcRef, ⟨1, max⟩⟩], [], [], []⟩

private theorem forwarder_parsed (max : Option Nat) :
    Parser.parseModule [.import_ [⟨"a", "t", .tableType ⟨.funcRef, ⟨1, max⟩⟩⟩],
      .export_ [⟨"t", .table 0⟩]] = .ok (forwarder max) := rfl

private def ab : Registry := fun name =>
  if name = "a" then some 0 else if name = "b" then some 1 else none

private def onlyA : Registry := fun name => if name = "a" then some 0 else none

private def ownerWorld : World :=
  World.after ⟨.empty 10, []⟩ (instantiate (fun _ => true) (fun _ => none) (.empty 10) owner)

private def chainWorld (max : Option Nat) : World :=
  ownerWorld.after (instantiate (fun _ => true) onlyA ownerWorld.store (forwarder max))

private theorem ownerWorld_registers : ownerWorld.Registers onlyA := by
  intro name inst h
  have hhandles : ownerWorld.handles = [0] := rfl
  unfold onlyA at h
  split at h <;> cases h
  rw [hhandles]
  exact List.mem_singleton_self 0

private theorem chainWorld_registers {max : Option Nat} (hhandles : (chainWorld max).handles = [0, 1]) :
    (chainWorld max).Registers ab := by
  intro name inst h
  unfold ab at h
  rw [hhandles]
  split at h
  · cases h
    simp
  · split at h <;> cases h
    simp

private theorem chainWorld_reachable {allowed : Store → Registry → Module → Prop}
    {max : Option Nat} (howner : allowed (.empty 10) (fun _ => none) owner)
    (hforwarder : allowed ownerWorld.store onlyA (forwarder max)) :
    Reachable allowed (chainWorld max) := by
  have hfirst : Step allowed .instantiate ⟨.empty 10, []⟩ ownerWorld :=
    .instantiate (fun name inst h => by cases h)
      (.parsed (show Parser.parseModule ownerSections = .ok owner from rfl)) howner
  have hsecond : Step allowed .instantiate ownerWorld (chainWorld max) :=
    .instantiate ownerWorld_registers (.parsed (forwarder_parsed max)) hforwarder
  exact ⟨10, .tail (.single ⟨_, trivial, hfirst⟩) ⟨_, trivial, hsecond⟩⟩

private def ownedTable : TableInstance := ⟨⟨.funcRef, ⟨2, some 4⟩⟩, [0, 0]⟩

/-- Forwarded under its own maximum, the table is matched by its own type. -/
theorem imports_by_own_type_forwarded :
    TableByOwnType (chainWorld (some 4)).store ab "b" "t" ownedTable := by
  have hreach : Reachable OwnMaxima (chainWorld (some 4)) := by
    refine chainWorld_reachable ⟨?_, ?_, ?_⟩ ⟨?_, ?_, ?_⟩
    · exact fun ex hex idx hdesc => Or.inl rfl
    · intro ex hex idx tt i addr own hdesc htt
      cases htt
    · intro ex hex idx mt i addr own hdesc hmt
      cases hmt
    · intro ex hex idx hdesc
      obtain rfl := List.mem_singleton.mp hex
      cases hdesc
      exact Or.inr Nat.zero_lt_one
    · intro ex hex idx tt i addr own hdesc htt hi haddr hown
      obtain rfl := List.mem_singleton.mp hex
      cases hdesc
      cases htt
      cases hi
      cases haddr
      cases hown
      rfl
    · intro ex hex idx mt i addr own hdesc hmt
      cases hmt
  have hexports : ExportsTable (chainWorld (some 4)).store ab "b" "t" ownedTable
      ⟨.funcRef, ⟨1, some 4⟩⟩ := ⟨_, _, 0, 0, rfl, rfl, rfl, rfl⟩
  exact ((imports_by_own_type (chainWorld_registers rfl)).1 hreach "b" "t").1 _ _ hexports
    (Or.inl (by decide))

/-- Forwarded without a maximum, the table is refused to an import that declares its own. -/
theorem forwarded_table_refused :
    ¬∀ (w : World) (registry : Registry) (moduleName name : String) (table : TableInstance)
      (recorded : TableType), Reachable anyModule w → w.Registers registry →
      ExportsTable w.store registry moduleName name table recorded →
      TableByOwnType w.store registry moduleName name table := by
  intro h
  have hexports : ExportsTable (chainWorld none).store ab "b" "t" ownedTable
      ⟨.funcRef, ⟨1, none⟩⟩ := ⟨_, _, 0, 0, rfl, rfl, rfl, rfl⟩
  have hown := h _ _ _ _ _ _ (chainWorld_reachable trivial trivial) (chainWorld_registers rfl)
    hexports [] ⟨.funcRef, ⟨1, some 4⟩⟩ (by decide)
  obtain ⟨found, hfound⟩ := hown.mpr ⟨rfl, by decide, Covers.refl _⟩
  have hrefused : resolveImport (chainWorld none).store ab []
      ⟨"b", "t", .tableType ⟨.funcRef, ⟨1, some 4⟩⟩⟩ = .error .unlinkable := rfl
  rw [hrefused] at hfound
  cases hfound

end chain

end Telomere.Runtime
