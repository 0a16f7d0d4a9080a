import Telomere.Runtime.Store

/-!
# Instantiation

`instantiate` and `aliasing` phase by phase. What a phase changed before it failed stays in the
store. The start function is left out: it runs after everything here.
-/

namespace Telomere.Runtime

/-- Instances registered under a name, those of this store. -/
abbrev Registry := String → Option Nat

def orElse {α : Type} (failure : Failure) : Option α → Except Failure α
  | some a => .ok a
  | none => .error failure

theorem orElse_eq_ok {α : Type} {failure : Failure} {o : Option α} {a : α} :
    orElse failure o = .ok a ↔ o = some a := by
  cases o <;> simp [orElse]

def validateLimit (importLimit : Limits) (real : Nat) (exportLimit : Limits) :
    Except Failure Unit :=
  if real < importLimit.min then .error .unlinkable
  else match exportLimit.max, importLimit.max with
    | none, some _ => .error .unlinkable
    | some exportMax, some importMax =>
        if importMax < exportMax then .error .unlinkable else .ok ()
    | _, none => .ok ()

def findExport (exports : List Export) (name : String) : Option ExportDesc :=
  (exports.find? (·.name = name)).map (·.desc)

/-- The instance an import names, the record of its module and the export it asks for. -/
def exporter (s : Store) (registry : Registry) (moduleName name : String) :
    Except Failure (InstanceData × ModuleInstance × ExportDesc) := do
  let addr ← orElse .unlinkable (registry moduleName)
  let inst ← index s.instances addr
  let mod ← index s.modules inst.moduleAddr
  let desc ← orElse .unlinkable (findExport mod.exports name)
  return (inst, mod, desc)

/-- The limits an export is matched with are those its module recorded. -/
def matchImport (s : Store) (fts : List FuncType) (inst : InstanceData) (mod : ModuleInstance) :
    ImportDesc → ExportDesc → Except Failure (Kind × Nat)
  | .typeIdx tidx, .func idx => do
      let importFt ← index fts tidx
      let typeidx ← index mod.functions idx
      let exportFt ← index mod.functionTypes typeidx
      if importFt ≠ exportFt then .error .unlinkable
      else do
        let addr ← index inst.funcs idx
        return (.func, addr)
  | .globalType importGt, .global idx => do
      let exportGt ← index mod.globals idx
      if importGt ≠ exportGt then .error .unlinkable
      else do
        let addr ← index inst.globals idx
        return (.global, addr)
  | .tableType importTt, .table idx => do
      let exportTt ← index mod.tables idx
      if importTt.reftype ≠ exportTt.reftype then .error .unlinkable
      else do
        let addr ← index inst.tables idx
        let table ← index s.tables addr
        validateLimit importTt.limits (table.entries.length % 2 ^ 32) exportTt.limits
        return (.table, addr)
  | .memType mt, .mem idx => do
      let addr ← getOr .unlinkable inst.mems idx
      let exportMt ← index mod.mems idx
      if mt.shared ≠ exportMt.shared then .error .unlinkable
      else do
        let memory ← index s.memories addr
        validateLimit mt.limits memory.pages exportMt.limits
        return (.mem, addr)
  | _, _ => .error .unlinkable

def resolveImport (s : Store) (registry : Registry) (fts : List FuncType) (i : Import) :
    Except Failure (Kind × Nat) := do
  let (inst, mod, desc) ← exporter s registry i.moduleName i.name
  matchImport s fts inst mod i.desc desc

def resolveImports (s : Store) (registry : Registry) (fts : List FuncType) :
    Spaces → List Import → Except Failure Spaces
  | sp, [] => .ok sp
  | sp, i :: rest => do
      let (kind, addr) ← resolveImport s registry fts i
      resolveImports s registry fts (sp.push addr kind) rest

def ModuleInstance.of (m : Module) : ModuleInstance :=
  ⟨m.fts, m.functions, m.exs, m.tables, m.globals, m.mems⟩

/-- `new_instance_id` -/
def Store.takeInstanceId (s : Store) : Store :=
  { s with nextInstanceId := s.nextInstanceId + 1 }

/-- `new_module` and `alloc_instance` under a new id: the index spaces are filled in at the end. -/
def Store.openInstance (s : Store) (mod : ModuleInstance) (sp : Spaces) : Store :=
  { s.takeInstanceId with
    modules := s.modules ++ [mod]
    instances := s.instances ++ [⟨sp, s.nextInstanceId, s.modules.length⟩] }

def allocMemories (mappable : Nat → Bool) :
    Store → List Nat → List MemType → Store × Except Failure (List Nat)
  | s, memories, [] => (s, .ok memories)
  | s, memories, ty :: rest =>
      let effectiveMax := min (ty.limits.max.getD s.maxMemoryPages) s.maxMemoryPages
      match MemoryObject.new (mappable s.memories.length) ty effectiveMax with
      | .ok memory =>
          allocMemories mappable { s with memories := s.memories ++ [memory] }
            (memories ++ [s.memories.length]) rest
      | .error failure => (s, .error failure)

def allocFuncs (inst : Nat) : Store → List Nat → List Nat → Store × List Nat
  | s, funcs, [] => (s, funcs)
  | s, funcs, body :: rest =>
      allocFuncs inst { s with funcs := s.funcs ++ [⟨inst, body, funcs.length⟩] }
        (funcs ++ [s.funcs.length]) rest

def allocGlobals (funcs : List Nat) :
    Store → List Nat → List ConstExpr → Store × Except Failure (List Nat)
  | s, globals, [] => (s, .ok globals)
  | s, globals, init :: rest =>
      match initBytes s.globals globals funcs init with
      | .ok bytes =>
          allocGlobals funcs { s with globals := s.globals ++ [bytes] }
            (globals ++ [s.globals.length]) rest
      | .error failure => (s, .error failure)

def allocTables : Store → List Nat → List TableType → Store × List Nat
  | s, tables, [] => (s, tables)
  | s, tables, tt :: rest =>
      allocTables { s with tables := s.tables ++ [.new tt] } (tables ++ [s.tables.length]) rest

/-- Copies an active data segment into the memory it names. -/
def writeData (values : List (List Byte)) (sp : Spaces) (memories : List MemoryObject)
    (mem : Nat) (offset : List ConstExpr) (init : List Byte) :
    Except Failure (List MemoryObject) := do
  let offset ← executeOffsetConstExpr values sp.globals offset
  let addr ← getOr .memoryIndexOutOfRange sp.mems mem
  let memory ← index memories addr
  let memory ← memory.writeBytes offset init
  return memories.set addr memory

/-- An active data segment stays in the store after it was copied. -/
def initDatum (id : Nat) (sp : Spaces) (s : Store) (entry : Data × Nat) :
    Store × Except Failure Unit :=
  let kept := { s with data := Function.update s.data (id, entry.2) (some entry.1) }
  match entry.1.mode with
  | .passive => (kept, .ok ())
  | .active mem offset =>
      match writeData s.globals sp s.memories mem offset entry.1.init with
      | .ok memories => ({ kept with memories := memories }, .ok ())
      | .error failure => (s, .error failure)

def initData (id : Nat) (sp : Spaces) (s : Store) (data : List Data) : Store × Except Failure Unit :=
  Lib.runAll (initDatum id sp) s data.zipIdx

/-- Only a segment of function indices compares its type with the table's. -/
def kindMismatch (elem : Elem) (tt : TableType) : Bool :=
  match elem.init with
  | .funcIdx _ => tt.reftype ≠ elem.kind
  | .constExpr _ => false

/-- Writes a whole segment into a table, from an offset on. -/
def fillTable (values : List (List Byte)) (sp : Spaces) (offset : Nat) (elem : Elem)
    (t : TableInstance) : TableInstance × Except Failure Unit :=
  if kindMismatch elem t.type then (t, .error .panic)
  else if t.entries.length < offset + elem.init.length then (t, .error .tableIndexOutOfRange)
  else writeEntries (elemRef values sp.globals sp.funcs t.type.reftype elem.init) t 0 offset
    elem.init.length

/-- Writes an active element segment into the table it names. -/
def writeElem (values : List (List Byte)) (sp : Spaces) (tables : List TableInstance)
    (table : Nat) (offset : List ConstExpr) (elem : Elem) :
    List TableInstance × Except Failure Unit :=
  match executeOffsetConstExpr values sp.globals offset, sp.tables[table]? with
  | .error failure, _ => (tables, .error failure)
  | .ok _, none => (tables, .error .panic)
  | .ok offset, some addr => updateTable tables addr (fillTable values sp offset elem)

def initElem (id : Nat) (sp : Spaces) (s : Store) (entry : Elem × Nat) :
    Store × Except Failure Unit :=
  match entry.1.mode with
  | .passive => ({ s with elems := Function.update s.elems (id, entry.2) (some entry.1) }, .ok ())
  | .declarative => (s, .ok ())
  | .active table offset =>
      s.withTables (writeElem s.globals sp s.tables table offset entry.1)

def initElems (id : Nat) (sp : Spaces) (s : Store) (elems : List Elem) :
    Store × Except Failure Unit :=
  Lib.runAll (initElem id sp) s elems.zipIdx

/-- Up to the memories: the imports, the module and its memories. The id is spent also when no
export matches an import. Memories are created for what is left of the declared ones after the
imports. -/
def prepare (mappable : Nat → Bool) (registry : Registry) (s : Store) (m : Module) :
    Store × Except Failure Spaces :=
  match resolveImports s registry m.fts .empty m.imports with
  | .error failure => (s.takeInstanceId, .error failure)
  | .ok sp =>
      Lib.andThen (allocMemories mappable (s.openInstance (.of m) .empty) sp.mems
        (m.mems.drop sp.mems.length)) fun s mems => (s, .ok { sp with mems := mems })

/-- Functions, globals and tables. A table is created for every declared one, the imported ones
included. -/
def allocate (inst : Nat) (m : Module) (s : Store) (sp : Spaces) : Store × Except Failure Spaces :=
  let (s, funcs) := allocFuncs inst s sp.funcs m.codes
  Lib.andThen (allocGlobals funcs s sp.globals m.globalInit) fun s globals =>
    let (s, tables) := allocTables s sp.tables m.tables
    (s, .ok { sp with funcs := funcs, globals := globals, tables := tables })

/-- `place_instance_unchecked` -/
def Store.place (s : Store) (inst : Nat) (data : InstanceData) : Store :=
  { s with instances := s.instances.set inst data }

/-- The instance is placed also when an element segment failed. -/
def instantiate (mappable : Nat → Bool) (registry : Registry) (s : Store) (m : Module) :
    Store × Except Failure Nat :=
  let id := s.nextInstanceId
  let inst := s.instances.length
  let mod := s.modules.length
  Lib.andThen (prepare mappable registry s m) fun s sp =>
  Lib.andThen (initData id sp s m.data) fun s _ =>
  Lib.andThen (allocate inst m s sp) fun s sp =>
  let r := initElems id sp s m.elems
  Lib.andThen (r.1.place inst ⟨sp, id, mod⟩, r.2) fun s _ => (s, .ok inst)

/-- One entry of `aliasing`: the record of the new module and its addresses grow together. -/
def aliasOne (s : Store) (registry : Registry) (mod : ModuleInstance) (sp : Spaces)
    (entry : String × String × String) : Except Failure (ModuleInstance × Spaces) := do
  let (inst, source, desc) ← exporter s registry entry.1 entry.2.1
  let named (desc : ExportDesc) : List Export := mod.exports ++ [⟨entry.2.2, desc⟩]
  match desc with
  | .func idx => do
      let tidx ← index source.functions idx
      let ft ← index source.functionTypes tidx
      let addr ← index inst.funcs idx
      return ({ mod with
        functionTypes := mod.functionTypes ++ [ft]
        functions := mod.functions ++ [mod.functionTypes.length]
        exports := named (.func mod.functions.length) }, sp.push addr .func)
  | .global idx => do
      let gt ← index source.globals idx
      let addr ← index inst.globals idx
      return ({ mod with
        globals := mod.globals ++ [gt]
        exports := named (.global mod.globals.length) }, sp.push addr .global)
  | .mem idx => do
      let mt ← index source.mems idx
      let addr ← index inst.mems idx
      return ({ mod with
        mems := mod.mems ++ [mt]
        exports := named (.mem mod.mems.length) }, sp.push addr .mem)
  | .table idx => do
      let tt ← index source.tables idx
      let addr ← index inst.tables idx
      return ({ mod with
        tables := mod.tables ++ [tt]
        exports := named (.table mod.tables.length) }, sp.push addr .table)

def aliasAll (s : Store) (registry : Registry) :
    ModuleInstance → Spaces → List (String × String × String) →
    Except Failure (ModuleInstance × Spaces)
  | mod, sp, [] => .ok (mod, sp)
  | mod, sp, entry :: rest => do
      let (mod, sp) ← aliasOne s registry mod sp entry
      aliasAll s registry mod sp rest

def aliasing (registry : Registry) (s : Store) (triplets : List (String × String × String)) :
    Store × Except Failure Nat :=
  match aliasAll s registry ⟨[], [], [], [], [], []⟩ .empty triplets with
  | .error failure => (s.takeInstanceId, .error failure)
  | .ok (mod, sp) => (s.openInstance mod sp, .ok s.instances.length)

/-- `convert_native_module_to_module`: one type, one function and, where it is named, one export
per host function. -/
def convertNativeModule : List (Nat × Option String × FuncType) → Module
  | functions =>
      { fts := functions.map (·.2.2)
        functions := List.range functions.length
        imports := []
        mems := []
        globals := []
        globalInit := []
        exs := functions.zipIdx.filterMap fun f => f.1.2.1.map fun name => ⟨name, .func f.2⟩
        tables := []
        elems := []
        codes := functions.map (·.1)
        data := [] }

end Telomere.Runtime
