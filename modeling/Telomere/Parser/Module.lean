import Telomere.Parser.TypeChecker

/-!
# Modules

A parsed module and the loop of `parse_module` that assembles it from its decoded sections. Each
index space is one list: what the module imports first, in the order of the import section, then
what it defines.
-/

namespace Telomere

structure Limits where
  min : Nat
  max : Option Nat
deriving DecidableEq, Repr

structure TableType where
  reftype : RefType
  limits : Limits
deriving DecidableEq, Repr

structure MemType where
  limits : Limits
  shared : Bool
deriving DecidableEq, Repr

structure GlobalType where
  valtype : ValType
  mutable : Bool
deriving DecidableEq, Repr

inductive ImportDesc where
  | typeIdx (idx : Nat)
  | tableType (ty : TableType)
  | memType (ty : MemType)
  | globalType (ty : GlobalType)
deriving DecidableEq, Repr

structure Import where
  moduleName : String
  name : String
  desc : ImportDesc
deriving DecidableEq, Repr

inductive ExportDesc where
  | func (idx : Nat)
  | table (idx : Nat)
  | mem (idx : Nat)
  | global (idx : Nat)
deriving DecidableEq, Repr

structure Export where
  name : String
  desc : ExportDesc
deriving DecidableEq, Repr

/-- Floating point constants are kept as their bits. -/
inductive ConstExpr where
  | i32 (value : BitVec 32)
  | i64 (value : BitVec 64)
  | f32 (bits : BitVec 32)
  | f64 (bits : BitVec 64)
  | v128 (bits : BitVec 128)
  | refNull (ty : RefType)
  | funcRef (idx : Nat)
  | globalGet (idx : Nat)
deriving DecidableEq, Repr

inductive DataMode where
  | passive
  | active (mem : Nat) (offset : List ConstExpr)
deriving DecidableEq, Repr

structure Data where
  init : List (BitVec 8)
  mode : DataMode
deriving DecidableEq, Repr

inductive ElemMode where
  | passive
  | active (table : Nat) (offset : List ConstExpr)
  | declarative
deriving DecidableEq, Repr

inductive ElemInit where
  | funcIdx (idxs : List Nat)
  | constExpr (exprs : List (List ConstExpr))
deriving DecidableEq, Repr

def ElemInit.length : ElemInit → Nat
  | .funcIdx idxs => idxs.length
  | .constExpr exprs => exprs.length

structure Elem where
  kind : RefType
  init : ElemInit
  mode : ElemMode
deriving DecidableEq, Repr

/-- `codes` names the bodies of the defined functions. -/
structure Module where
  fts : List FuncType
  functions : List Nat
  imports : List Import
  mems : List MemType
  globals : List GlobalType
  globalInit : List ConstExpr
  exs : List Export
  tables : List TableType
  elems : List Elem
  codes : List Nat
  data : List Data
deriving DecidableEq, Repr

def RefType.valType : RefType → ValType
  | .funcRef => .funcRef
  | .externRef => .externRef

def importedFuncs (imports : List Import) : List Nat :=
  imports.filterMap fun i => match i.desc with
    | .typeIdx idx => some idx
    | _ => none

def importedTables (imports : List Import) : List TableType :=
  imports.filterMap fun i => match i.desc with
    | .tableType ty => some ty
    | _ => none

def importedMems (imports : List Import) : List MemType :=
  imports.filterMap fun i => match i.desc with
    | .memType ty => some ty
    | _ => none

def importedGlobals (imports : List Import) : List GlobalType :=
  imports.filterMap fun i => match i.desc with
    | .globalType ty => some ty
    | _ => none

namespace Parser

inductive ModuleError where
  | invalidSectionOrder
  | invalidDataSectionCount
  | invalidTypeIdx (idx : Nat)
  | unknownExport
  | duplicatedExport (name : String)
  | functionAndCodeSectionLengthMismatch
  | invalidStackValTypeAny
  | invalidStackValType (expected actual : ValType)
  | unknownGlobal
  | invalidGlobalAccess
  | invalidFuncIdx (idx : Nat)
  | invalidTableIndex (idx : Nat)
  | invalidMemIdx (idx : Nat)
deriving DecidableEq, Repr

/-- The decoded sections that carry something the module keeps. Entries are decoded, not yet
validated; `other` stands for the start section and the custom ones. -/
inductive Section where
  | type (fts : List FuncType)
  | import_ (imports : List Import)
  | function (typeidxs : List Nat)
  | table (tables : List TableType)
  | memory (mems : List MemType)
  | global (globals : List (GlobalType × List ConstExpr))
  | export_ (exs : List Export)
  | start (idx : Nat)
  | element (elems : List Elem)
  | dataCount (count : Nat)
  | code (codes : List Nat)
  | data (data : List Data)
  | custom
deriving DecidableEq, Repr

/-- The position in `SECTION_ORDER`. -/
def Section.position : Section → Option Nat
  | .type _ => some 0
  | .import_ _ => some 1
  | .function _ => some 2
  | .table _ => some 3
  | .memory _ => some 4
  | .global _ => some 5
  | .export_ _ => some 6
  | .start _ => some 7
  | .element _ => some 8
  | .dataCount _ => some 9
  | .code _ => some 10
  | .data _ => some 11
  | .custom => none

def assertType (expected actual : ValType) : Except ModuleError Unit :=
  if expected = actual then .ok () else .error (.invalidStackValType expected actual)

def validateConstExprType (globals : List GlobalType) (funcs : List Nat) (exprs : List ConstExpr)
    (expected : ValType) : Except ModuleError Unit :=
  match exprs with
  | [expr] =>
      match expr with
      | .i32 _ => assertType expected .i32
      | .i64 _ => assertType expected .i64
      | .f32 _ => assertType expected .f32
      | .f64 _ => assertType expected .f64
      | .v128 _ => assertType expected .v128
      | .refNull ty => assertType expected ty.valType
      | .globalGet idx =>
          match globals[idx]? with
          | none => .error .unknownGlobal
          | some gt =>
              if gt.mutable then .error .invalidGlobalAccess else assertType expected gt.valtype
      | .funcRef idx =>
          if idx < funcs.length then assertType expected .funcRef
          else .error (.invalidFuncIdx idx)
  | _ => .error .invalidStackValTypeAny

def validateOffsetConstExpr (globals : List GlobalType) (exprs : List ConstExpr) :
    Except ModuleError Unit :=
  validateConstExprType globals [] exprs .i32

/-- `parse_global_section`: the initializers see the globals declared before the section. -/
def validateGlobals (globals : List GlobalType) (funcs : List Nat) :
    List (GlobalType × List ConstExpr) → Except ModuleError Unit
  | [] => .ok ()
  | (gt, init) :: rest => do
      validateConstExprType globals funcs init gt.valtype
      validateGlobals globals funcs rest

def validateTable (tables : List TableType) (idx : Nat) : Except ModuleError Unit :=
  if idx < tables.length then .ok () else .error (.invalidTableIndex idx)

def validateActiveElem (tables : List TableType) (idx : Nat) (rt : RefType) :
    Except ModuleError Unit :=
  match tables[idx]? with
  | none => .error (.invalidTableIndex idx)
  | some tt => assertType tt.reftype.valType rt.valType

def validateElemInit (globals : List GlobalType) (funcs : List Nat) (rt : RefType) :
    ElemInit → Except ModuleError Unit
  | .funcIdx idxs => idxs.forM fun idx =>
      if idx < funcs.length then .ok () else .error (.invalidFuncIdx idx)
  | .constExpr exprs => exprs.forM fun expr => validateConstExprType globals funcs expr rt.valType

/-- The checks of `parse_elem`. The type of an active segment of expressions is compared with
table 0, whatever table it names. -/
def validateElem (globals : List GlobalType) (funcs : List Nat) (tables : List TableType)
    (elem : Elem) : Except ModuleError Unit :=
  match elem.mode with
  | .active idx offset => do
      validateTable tables idx
      validateOffsetConstExpr globals offset
      validateElemInit globals funcs elem.kind elem.init
      match elem.init with
      | .funcIdx _ => validateActiveElem tables idx elem.kind
      | .constExpr _ => validateActiveElem tables 0 elem.kind
  | _ => validateElemInit globals funcs elem.kind elem.init

def validateData (globals : List GlobalType) (mems : List MemType) (data : Data) :
    Except ModuleError Unit :=
  match data.mode with
  | .passive => .ok ()
  | .active mem offset =>
      if mem < mems.length then validateOffsetConstExpr globals offset
      else .error (.invalidMemIdx mem)

/-- `parse_import_desc` -/
def validateImport (fts : List FuncType) (i : Import) : Except ModuleError Unit :=
  match i.desc with
  | .typeIdx idx => if idx < fts.length then .ok () else .error (.invalidTypeIdx idx)
  | _ => .ok ()

/-- `parse_exportdesc` -/
def validateExport (functions : List Nat) (globals : List GlobalType) (tables : List TableType)
    (mems : List MemType) (ex : Export) : Except ModuleError Unit :=
  let known : Bool := match ex.desc with
    | .func idx => idx < functions.length
    | .table idx => idx < tables.length
    | .mem idx => idx < mems.length
    | .global idx => idx < globals.length
  if known then .ok () else .error .unknownExport

def validateDistinct : List Export → List String → Except ModuleError Unit
  | [], _ => .ok ()
  | ex :: exs, names =>
      if ex.name ∈ names then .error (.duplicatedExport ex.name)
      else validateDistinct exs (ex.name :: names)

/-- The types `parse_code` looks up for the bodies of the functions from `idx` on. -/
def validateCodes (fts : List FuncType) (functions : List Nat) :
    Nat → List Nat → Except ModuleError Unit
  | _, [] => .ok ()
  | idx, _ :: codes =>
      match functions[idx]? with
      | none => .error (.invalidFuncIdx idx)
      | some typeidx =>
          if typeidx < fts.length then validateCodes fts functions (idx + 1) codes
          else .error (.invalidTypeIdx typeidx)

/-- The locals of `parse_module`. -/
structure Assembly where
  position : Option Nat
  fts : List FuncType
  imports : List Import
  functions : List Nat
  importedFunctionLen : Nat
  tables : List TableType
  mems : List MemType
  globals : List GlobalType
  importedGlobalLen : Nat
  globalInit : List ConstExpr
  exs : List Export
  elems : List Elem
  codes : List Nat
  data : List Data
  dataCount : Option Nat
deriving DecidableEq, Repr

def Assembly.empty : Assembly :=
  ⟨none, [], [], [], 0, [], [], [], 0, [], [], [], [], [], none⟩

/-- The arm of `parse_module` that files one import under its kind. -/
def Assembly.pushImport (a : Assembly) (i : Import) : Assembly :=
  match i.desc with
  | .typeIdx idx => { a with functions := a.functions ++ [idx] }
  | .tableType ty => { a with tables := a.tables ++ [ty] }
  | .memType ty => { a with mems := a.mems ++ [ty] }
  | .globalType ty => { a with globals := a.globals ++ [ty] }

/-- Only the first instruction of an initializer is kept; the check lets no other be there. -/
def firstInit (init : List ConstExpr) : ConstExpr :=
  init.headD (.i32 0)

def Assembly.addSection (a : Assembly) : Section → Except ModuleError Assembly
  | .type fts => .ok { a with fts := fts }
  | .import_ imports => do
      imports.forM (validateImport a.fts)
      let a := imports.foldl Assembly.pushImport a
      return { a with
        imports := imports
        importedGlobalLen := a.globals.length
        importedFunctionLen := a.functions.length }
  | .function typeidxs => .ok { a with functions := a.functions ++ typeidxs }
  | .table tables => .ok { a with tables := a.tables ++ tables }
  | .memory mems => .ok { a with mems := a.mems ++ mems }
  | .global globals => do
      validateGlobals a.globals a.functions globals
      return { a with
        globals := a.globals ++ globals.map (·.1)
        globalInit := a.globalInit ++ globals.map (firstInit ·.2) }
  | .export_ exs => do
      exs.forM (validateExport a.functions a.globals a.tables a.mems)
      validateDistinct exs []
      return { a with exs := exs }
  | .element elems => do
      elems.forM (validateElem (a.globals.take a.importedGlobalLen) a.functions a.tables)
      return { a with elems := elems }
  | .dataCount count => .ok { a with dataCount := some count }
  | .code codes => do
      validateCodes a.fts a.functions (importedFuncs a.imports).length codes
      return { a with codes := codes }
  | .data data => do
      data.forM (validateData (a.globals.take a.importedGlobalLen) a.mems)
      return { a with data := data }
  | .start _ | .custom => .ok a

def Assembly.checkOrder (a : Assembly) (s : Section) : Except ModuleError Assembly :=
  match s.position, a.position with
  | some new, some current =>
      if new ≤ current then .error .invalidSectionOrder
      else .ok { a with position := some new }
  | some new, none => .ok { a with position := some new }
  | none, _ => .ok a

def Assembly.addSections (a : Assembly) : List Section → Except ModuleError Assembly
  | [] => .ok a
  | s :: rest => do
      let a ← a.checkOrder s
      let a ← a.addSection s
      a.addSections rest

def Assembly.finish (a : Assembly) : Except ModuleError Module :=
  if a.dataCount.any (· ≠ a.data.length) then .error .invalidDataSectionCount
  else if a.functions.length - a.importedFunctionLen ≠ a.codes.length then
    .error .functionAndCodeSectionLengthMismatch
  else .ok ⟨a.fts, a.functions, a.imports, a.mems, a.globals, a.globalInit, a.exs, a.tables,
    a.elems, a.codes, a.data⟩

def parseModule (sections : List Section) : Except ModuleError Module := do
  (← Assembly.empty.addSections sections).finish

/-- Imports stand first in every index space and what refers to an index space was checked
against it. `early`, `beforeGlobals` and `late` say what the order of the sections has kept out so
far. -/
structure Assembly.Shaped (a : Assembly) : Prop where
  functions : ∃ defined, a.functions = importedFuncs a.imports ++ defined
  tables : ∃ defined, a.tables = importedTables a.imports ++ defined
  mems : ∃ defined, a.mems = importedMems a.imports ++ defined
  globals : ∃ defined, a.globals = importedGlobals a.imports ++ defined ∧
    List.Forall₂ (fun gt init => validateConstExprType (importedGlobals a.imports) a.functions
      [init] gt.valtype = .ok ()) defined a.globalInit
  importedFunctionLen : a.importedFunctionLen = (importedFuncs a.imports).length
  importedGlobalLen : a.importedGlobalLen = (importedGlobals a.imports).length
  exs : ∀ ex ∈ a.exs, validateExport a.functions a.globals a.tables a.mems ex = .ok ()
  elems : ∀ elem ∈ a.elems,
    validateElem (importedGlobals a.imports) a.functions a.tables elem = .ok ()
  data : ∀ d ∈ a.data, validateData (importedGlobals a.imports) a.mems d = .ok ()
  early : (∀ p ∈ a.position, p < 1) → a.imports = [] ∧ a.functions = [] ∧ a.tables = [] ∧
    a.mems = [] ∧ a.globals = [] ∧ a.globalInit = []
  beforeGlobals : (∀ p ∈ a.position, p < 5) → a.globals = importedGlobals a.imports ∧
    a.globalInit = []
  late : (∀ p ∈ a.position, p < 6) → a.exs = [] ∧ a.elems = [] ∧ a.data = []

theorem empty_shaped : Assembly.empty.Shaped where
  functions := ⟨[], rfl⟩
  tables := ⟨[], rfl⟩
  mems := ⟨[], rfl⟩
  globals := ⟨[], rfl, .nil⟩
  importedFunctionLen := rfl
  importedGlobalLen := rfl
  exs := by simp [Assembly.empty]
  elems := by simp [Assembly.empty]
  data := by simp [Assembly.empty]
  early := by simp [Assembly.empty]
  beforeGlobals := by simp [Assembly.empty, importedGlobals]
  late := by simp [Assembly.empty]

private theorem pushImports_eq (imports : List Import) (a : Assembly) :
    imports.foldl Assembly.pushImport a = { a with
      functions := a.functions ++ importedFuncs imports
      tables := a.tables ++ importedTables imports
      mems := a.mems ++ importedMems imports
      globals := a.globals ++ importedGlobals imports } := by
  induction imports generalizing a with
  | nil => simp [importedFuncs, importedTables, importedMems, importedGlobals]
  | cons i imports ih =>
      rw [List.foldl_cons, ih]
      obtain ⟨moduleName, name, desc⟩ := i
      cases desc <;>
        simp [Assembly.pushImport, importedFuncs, importedTables, importedMems, importedGlobals]

/-- A section with a place in the order comes after all that were read. -/
theorem checkOrder_ok {a b : Assembly} {s : Section} (hok : a.checkOrder s = .ok b) :
    (s.position = none ∧ b = a) ∨
      ∃ new, s.position = some new ∧ b = { a with position := some new } ∧
        ∀ p ∈ a.position, p < new := by
  unfold Assembly.checkOrder at hok
  split at hok
  · next new current hnew hcurrent =>
      split at hok
      · cases hok
      · next hlt =>
          refine Or.inr ⟨new, hnew, (Except.ok.inj hok).symm, ?_⟩
          intro p hp
          rw [hcurrent] at hp
          obtain rfl := Option.some.inj hp
          omega
  · next new hnew hnone =>
      refine Or.inr ⟨new, hnew, (Except.ok.inj hok).symm, ?_⟩
      intro p hp
      rw [hnone] at hp
      cases hp
  · next hnone => exact Or.inl ⟨hnone, (Except.ok.inj hok).symm⟩

theorem forM_ok {ι : Type} {check : ι → Except ModuleError Unit} {items : List ι}
    (hok : items.forM check = .ok ()) : ∀ item ∈ items, check item = .ok () := by
  induction items with
  | nil => simp
  | cons first rest ih =>
      obtain ⟨_, hfirst, hrest⟩ := Lib.bind_eq_ok.mp hok
      intro item hitem
      rcases List.mem_cons.mp hitem with rfl | hitem
      · exact hfirst
      · exact ih hrest item hitem

/-- The check of one initializer passes only for a single instruction, the one that is kept. -/
private theorem validateGlobals_inits {globals : List GlobalType} {funcs : List Nat}
    {entries : List (GlobalType × List ConstExpr)}
    (hok : validateGlobals globals funcs entries = .ok ()) :
    List.Forall₂ (fun gt init => validateConstExprType globals funcs [init] gt.valtype = .ok ())
      (entries.map (·.1)) (entries.map (firstInit ·.2)) := by
  induction entries with
  | nil => exact .nil
  | cons entry entries ih =>
      obtain ⟨gt, init⟩ := entry
      obtain ⟨_, hinit, hrest⟩ := Lib.bind_eq_ok.mp hok
      have hinit' := hinit
      unfold validateConstExprType at hinit
      split at hinit
      · exact .cons hinit' (ih hrest)
      · cases hinit

/-- The parts of the assembly that make up the index spaces. -/
structure Assembly.SameSpaces (a c : Assembly) : Prop where
  imports : c.imports = a.imports
  functions : c.functions = a.functions
  importedFunctionLen : c.importedFunctionLen = a.importedFunctionLen
  tables : c.tables = a.tables
  mems : c.mems = a.mems
  globals : c.globals = a.globals
  importedGlobalLen : c.importedGlobalLen = a.importedGlobalLen
  globalInit : c.globalInit = a.globalInit

/-- What the three sections that refer to all index spaces keep. -/
structure Assembly.Checked (a : Assembly) : Prop where
  exs : ∀ ex ∈ a.exs, validateExport a.functions a.globals a.tables a.mems ex = .ok ()
  elems : ∀ elem ∈ a.elems,
    validateElem (importedGlobals a.imports) a.functions a.tables elem = .ok ()
  data : ∀ d ∈ a.data, validateData (importedGlobals a.imports) a.mems d = .ok ()
  late : (∀ p ∈ a.position, p < 6) → a.exs = [] ∧ a.elems = [] ∧ a.data = []

private theorem Assembly.Shaped.same {a c : Assembly} (h : a.Shaped) (hsame : a.SameSpaces c)
    (hposition : ∀ bound, (∀ p ∈ c.position, p < bound) → ∀ p ∈ a.position, p < bound)
    (hchecked : c.Checked) : c.Shaped where
  functions := by rw [hsame.functions, hsame.imports]; exact h.functions
  tables := by rw [hsame.tables, hsame.imports]; exact h.tables
  mems := by rw [hsame.mems, hsame.imports]; exact h.mems
  globals := by
    rw [hsame.globals, hsame.globalInit, hsame.imports, hsame.functions]
    exact h.globals
  importedFunctionLen := by
    rw [hsame.importedFunctionLen, hsame.imports]
    exact h.importedFunctionLen
  importedGlobalLen := by
    rw [hsame.importedGlobalLen, hsame.imports]
    exact h.importedGlobalLen
  exs := hchecked.exs
  elems := hchecked.elems
  data := hchecked.data
  early := by
    intro hlt
    rw [hsame.imports, hsame.functions, hsame.tables, hsame.mems, hsame.globals, hsame.globalInit]
    exact h.early (hposition 1 hlt)
  beforeGlobals := by
    intro hlt
    rw [hsame.globals, hsame.imports, hsame.globalInit]
    exact h.beforeGlobals (hposition 5 hlt)
  late := hchecked.late

private theorem Assembly.Shaped.importedGlobals_eq {a : Assembly} (h : a.Shaped) :
    a.globals.take a.importedGlobalLen = importedGlobals a.imports := by
  obtain ⟨defined, hglobals, -⟩ := h.globals
  rw [h.importedGlobalLen, hglobals, List.take_left]

/-- A place in the order that was taken is too late for what stands before it. -/
private theorem not_before {position : Option Nat} {new bound : Nat} (hposition : position = some new)
    (hle : bound ≤ new) : ¬∀ p ∈ position, p < bound := by
  intro h
  have := h new hposition
  omega

private theorem addSection_shaped {a b c : Assembly} {s : Section} (h : a.Shaped)
    (horder : a.checkOrder s = .ok b) (hok : b.addSection s = .ok c) : c.Shaped := by
  obtain ⟨hnone, rfl⟩ | ⟨new, hnew, rfl, hlt⟩ := checkOrder_ok horder
  · cases s <;> cases hnone
    obtain rfl := Except.ok.inj hok
    exact h
  · have hposition : ∀ bound, (∀ p ∈ (some new : Option Nat), p < bound) →
        ∀ p ∈ a.position, p < bound := by
      intro bound hbound p hp
      exact Nat.lt_trans (hlt p hp) (hbound new rfl)
    have hlate : (∀ p ∈ (some new : Option Nat), p < 6) → a.exs = [] ∧ a.elems = [] ∧ a.data = [] :=
      fun hbound => h.late (hposition 6 hbound)
    cases s with
    | custom => cases hnew
    | type fts | start idx | dataCount count =>
        obtain rfl := Except.ok.inj hok
        exact h.same ⟨rfl, rfl, rfl, rfl, rfl, rfl, rfl, rfl⟩ hposition
          ⟨h.exs, h.elems, h.data, hlate⟩
    | code codes =>
        obtain ⟨_, _, hok⟩ := Lib.bind_eq_ok.mp hok
        obtain rfl := Lib.pure_eq_ok.mp hok
        exact h.same ⟨rfl, rfl, rfl, rfl, rfl, rfl, rfl, rfl⟩ hposition
          ⟨h.exs, h.elems, h.data, hlate⟩
    | export_ exs =>
        obtain rfl := Option.some.inj hnew
        obtain ⟨_, hvalid, hok⟩ := Lib.bind_eq_ok.mp hok
        obtain ⟨_, _, hok⟩ := Lib.bind_eq_ok.mp hok
        obtain rfl := Lib.pure_eq_ok.mp hok
        exact h.same ⟨rfl, rfl, rfl, rfl, rfl, rfl, rfl, rfl⟩ hposition
          ⟨forM_ok hvalid, h.elems, h.data, fun hbound => absurd hbound (not_before rfl (by omega))⟩
    | element elems =>
        obtain rfl := Option.some.inj hnew
        obtain ⟨_, hvalid, hok⟩ := Lib.bind_eq_ok.mp hok
        obtain rfl := Lib.pure_eq_ok.mp hok
        have hvalid := forM_ok hvalid
        rw [h.importedGlobals_eq] at hvalid
        exact h.same ⟨rfl, rfl, rfl, rfl, rfl, rfl, rfl, rfl⟩ hposition
          ⟨h.exs, hvalid, h.data, fun hbound => absurd hbound (not_before rfl (by omega))⟩
    | data data =>
        obtain rfl := Option.some.inj hnew
        obtain ⟨_, hvalid, hok⟩ := Lib.bind_eq_ok.mp hok
        obtain rfl := Lib.pure_eq_ok.mp hok
        have hvalid := forM_ok hvalid
        rw [h.importedGlobals_eq] at hvalid
        exact h.same ⟨rfl, rfl, rfl, rfl, rfl, rfl, rfl, rfl⟩ hposition
          ⟨h.exs, h.elems, hvalid, fun hbound => absurd hbound (not_before rfl (by omega))⟩
    | import_ imports =>
        obtain rfl := Option.some.inj hnew
        obtain ⟨himports, hfunctions, htables, hmems, hglobals, hinit⟩ := h.early hlt
        obtain ⟨hexs, helems, hdata⟩ := hlate (by simp)
        obtain ⟨_, _, hok⟩ := Lib.bind_eq_ok.mp hok
        obtain rfl := Lib.pure_eq_ok.mp hok
        rw [pushImports_eq]
        simp only [hfunctions, htables, hmems, hglobals, hinit, List.nil_append]
        exact ⟨⟨[], by simp⟩, ⟨[], by simp⟩, ⟨[], by simp⟩, ⟨[], by simp⟩, rfl, rfl,
          by simp [hexs], by simp [helems], by simp [hdata],
          fun hearly => absurd hearly (not_before rfl (Nat.le_refl 1)), fun _ => ⟨rfl, rfl⟩,
          fun _ => ⟨hexs, helems, hdata⟩⟩
    | function typeidxs =>
        obtain rfl := Option.some.inj hnew
        obtain rfl := Except.ok.inj hok
        obtain ⟨defined, hfunctions⟩ := h.functions
        obtain ⟨hexs, helems, hdata⟩ := hlate (by simp)
        obtain ⟨hglobals, hinit⟩ := h.beforeGlobals (hposition 5 (by simp))
        refine ⟨⟨defined ++ typeidxs, by simp [hfunctions]⟩, h.tables, h.mems, ⟨[], ?_, ?_⟩,
          h.importedFunctionLen, h.importedGlobalLen, by simp [hexs], by simp [helems],
          by simp [hdata], fun hearly => absurd hearly (not_before rfl (by omega)),
          fun _ => ⟨hglobals, hinit⟩, fun _ => ⟨hexs, helems, hdata⟩⟩
        · simp [hglobals]
        · simp [hinit]
    | table tables =>
        obtain rfl := Option.some.inj hnew
        obtain rfl := Except.ok.inj hok
        obtain ⟨defined, htables⟩ := h.tables
        obtain ⟨hexs, helems, hdata⟩ := hlate (by simp)
        exact ⟨h.functions, ⟨defined ++ tables, by simp [htables]⟩, h.mems, h.globals,
          h.importedFunctionLen, h.importedGlobalLen, by simp [hexs], by simp [helems],
          by simp [hdata], fun hearly => absurd hearly (not_before rfl (by omega)),
          fun _ => h.beforeGlobals (hposition 5 (by simp)), fun _ => ⟨hexs, helems, hdata⟩⟩
    | memory mems =>
        obtain rfl := Option.some.inj hnew
        obtain rfl := Except.ok.inj hok
        obtain ⟨defined, hmems⟩ := h.mems
        obtain ⟨hexs, helems, hdata⟩ := hlate (by simp)
        exact ⟨h.functions, h.tables, ⟨defined ++ mems, by simp [hmems]⟩, h.globals,
          h.importedFunctionLen, h.importedGlobalLen, by simp [hexs], by simp [helems],
          by simp [hdata], fun hearly => absurd hearly (not_before rfl (by omega)),
          fun _ => h.beforeGlobals (hposition 5 (by simp)), fun _ => ⟨hexs, helems, hdata⟩⟩
    | global globals =>
        obtain rfl := Option.some.inj hnew
        obtain ⟨_, hvalid, hok⟩ := Lib.bind_eq_ok.mp hok
        obtain rfl := Lib.pure_eq_ok.mp hok
        obtain ⟨hbefore, hinit⟩ := h.beforeGlobals hlt
        obtain ⟨hexs, helems, hdata⟩ := hlate (by simp)
        have hinits := validateGlobals_inits hvalid
        simp only [hbefore] at hinits
        refine ⟨h.functions, h.tables, h.mems, ⟨globals.map (·.1), ?_, ?_⟩,
          h.importedFunctionLen, h.importedGlobalLen, by simp [hexs], by simp [helems],
          by simp [hdata], fun hearly => absurd hearly (not_before rfl (by omega)),
          fun hearly => absurd hearly (not_before rfl (by omega)),
          fun _ => ⟨hexs, helems, hdata⟩⟩
        · simp [hbefore]
        · simpa [hinit] using hinits

theorem addSections_shaped {a c : Assembly} {sections : List Section} (h : a.Shaped)
    (hok : a.addSections sections = .ok c) : c.Shaped := by
  induction sections generalizing a with
  | nil =>
      obtain rfl := Except.ok.inj hok
      exact h
  | cons s rest ih =>
      obtain ⟨b, horder, hok⟩ := Lib.bind_eq_ok.mp hok
      obtain ⟨d, hadd, hok⟩ := Lib.bind_eq_ok.mp hok
      exact ih (addSection_shaped h horder hadd) hok

/-- Every index space of an accepted module is what it imports of that kind, then what it defines;
bodies and initializers belong to what it defines, and exports and segments passed their checks
against the whole spaces. -/
structure WellShaped (m : Module) : Prop where
  functions : ∃ defined, m.functions = importedFuncs m.imports ++ defined ∧
    m.codes.length = defined.length
  tables : ∃ defined, m.tables = importedTables m.imports ++ defined
  mems : ∃ defined, m.mems = importedMems m.imports ++ defined
  globals : ∃ defined, m.globals = importedGlobals m.imports ++ defined ∧
    List.Forall₂ (fun gt init => validateConstExprType (importedGlobals m.imports) m.functions
      [init] gt.valtype = .ok ()) defined m.globalInit
  exs : ∀ ex ∈ m.exs, validateExport m.functions m.globals m.tables m.mems ex = .ok ()
  elems : ∀ elem ∈ m.elems,
    validateElem (importedGlobals m.imports) m.functions m.tables elem = .ok ()
  data : ∀ d ∈ m.data, validateData (importedGlobals m.imports) m.mems d = .ok ()

theorem parseModule_wellShaped {sections : List Section} {m : Module}
    (hok : parseModule sections = .ok m) : WellShaped m := by
  obtain ⟨a, ha, hok⟩ := Lib.bind_eq_ok.mp hok
  have hshaped := addSections_shaped empty_shaped ha
  unfold Assembly.finish at hok
  split at hok
  · cases hok
  · split at hok
    · cases hok
    · next hlen =>
        obtain rfl := Except.ok.inj hok
        obtain ⟨defined, hfunctions⟩ := hshaped.functions
        refine ⟨⟨defined, hfunctions, ?_⟩, hshaped.tables, hshaped.mems, hshaped.globals,
          hshaped.exs, hshaped.elems, hshaped.data⟩
        have hlen' : a.functions.length - a.importedFunctionLen = a.codes.length := by
          simpa using hlen
        change a.codes.length = defined.length
        rw [← hlen', hshaped.importedFunctionLen, hfunctions, List.length_append]
        omega

end Parser

end Telomere
