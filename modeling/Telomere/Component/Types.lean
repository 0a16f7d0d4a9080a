import Telomere.Common.Types

/-!
# Component types

Types of the component model live in one arena and refer to each other by index. A type is added
when all it refers to has been added, so references go backwards.
-/

namespace Telomere.Component

abbrev CoreValType := Telomere.ValType

abbrev CoreFuncType := Telomere.FuncType

abbrev TypeId := Nat

abbrev Label := String

/-- `errorContext` is behind a feature flag. -/
inductive PrimValType where
  | bool | s8 | u8 | s16 | u16 | s32 | u32 | s64 | u64 | f32 | f64 | char | string | errorContext
deriving DecidableEq, Repr

inductive ValType where
  | type (id : TypeId)
  | primitive (prim : PrimValType)
deriving DecidableEq, Repr

structure LabelValType where
  label : Label
  ty : ValType
deriving DecidableEq, Repr

structure Case where
  label : Label
  ty : Option ValType
deriving DecidableEq, Repr

inductive DefValType where
  | primitive (prim : PrimValType)
  | record (fields : List LabelValType)
  | variant (cases : List Case)
  | flags (labels : List Label)
  | list (elem : ValType) (len : Option Nat)
  | own (id : TypeId)
  | borrow (id : TypeId)
deriving DecidableEq, Repr

structure FuncType where
  params : List ValType
  paramNames : List Label
  result : Option ValType
deriving DecidableEq, Repr

inductive GenericBound where
  | eq (id : TypeId)
  | sub
deriving DecidableEq, Repr

structure Generic where
  id : Nat
  bound : GenericBound
deriving DecidableEq, Repr

inductive ComponentImportType (M : Type) where
  | type (id : TypeId) (generic : Generic)
  | coreModule (ty : M)
deriving DecidableEq, Repr

/-- `ComponentExportType` and `InstanceExportType`, which have the same cases. -/
inductive ExportType (M : Type) where
  | coreModule (ty : M)
  | component (id : TypeId)
  | instance (id : TypeId)
  | type (id : TypeId)
  | func (id : TypeId)
deriving DecidableEq, Repr

/-- Names are those of hash maps: none stands twice. -/
structure ComponentType (M : Type) where
  imports : List (String × ComponentImportType M)
  exports : List (String × ExportType M)
deriving DecidableEq, Repr

structure InstanceType (M : Type) where
  exports : List (String × ExportType M)
deriving DecidableEq, Repr

/-- `Type`; resources are told apart by their id. `M` stands for the types of core modules, which
are only compared with each other. -/
inductive Ty (M : Type) where
  | defVal (ty : DefValType)
  | generic (generic : Generic)
  | func (ty : FuncType)
  | resource (id : Nat)
  | component (ty : ComponentType M)
  | instance (ty : InstanceType M)
deriving DecidableEq, Repr

section references

variable {M : Type}

def ValType.refs : ValType → List Nat
  | .type id => [id]
  | .primitive _ => []

def DefValType.refs : DefValType → List Nat
  | .primitive _ | .flags _ => []
  | .record fields => fields.flatMap (·.ty.refs)
  | .variant cases => cases.flatMap fun case => (case.ty.map ValType.refs).getD []
  | .list elem _ => elem.refs
  | .own id | .borrow id => [id]

theorem DefValType.field_refs {fields : List LabelValType} {field : LabelValType}
    (hmem : field ∈ fields) : field.ty.refs ⊆ (DefValType.record fields).refs :=
  fun _ href => List.mem_flatMap.mpr ⟨field, hmem, href⟩

theorem DefValType.case_refs {cases : List Case} {case : Case} {ty : ValType}
    (hmem : case ∈ cases) (hty : case.ty = some ty) : ty.refs ⊆ (DefValType.variant cases).refs := by
  intro ref href
  refine List.mem_flatMap.mpr ⟨case, hmem, ?_⟩
  rw [hty]
  exact href

def GenericBound.refs : GenericBound → List Nat
  | .eq id => [id]
  | .sub => []

def ComponentImportType.refs : ComponentImportType M → List Nat
  | .type id generic => id :: generic.bound.refs
  | .coreModule _ => []

def ExportType.refs : ExportType M → List Nat
  | .coreModule _ => []
  | .component id | .instance id | .type id | .func id => [id]

def Ty.refs : Ty M → List Nat
  | .defVal ty => ty.refs
  | .generic g => g.bound.refs
  | .func ty => ty.params.flatMap ValType.refs ++ (ty.result.map ValType.refs).getD []
  | .resource _ => []
  | .component ty => ty.imports.flatMap (·.2.refs) ++ ty.exports.flatMap (·.2.refs)
  | .instance ty => ty.exports.flatMap (·.2.refs)

/-- The names a component or an instance has its imports and its exports under. -/
def Ty.NamesNodup : Ty M → Prop
  | .component ty => (ty.imports.map (·.1)).Nodup ∧ (ty.exports.map (·.1)).Nodup
  | .instance ty => (ty.exports.map (·.1)).Nodup
  | _ => True

end references

/-- A generic type is an abstract resource; bounds by equality occur in imports only. -/
structure TypeArena (M : Type) where
  types : List (Ty M)
  refs_lt : ∀ (id : Nat) ty, types[id]? = some ty → ∀ ref ∈ ty.refs, ref < id
  names_nodup : ∀ ty ∈ types, ty.NamesNodup
  generic_sub : ∀ g, .generic g ∈ types → g.bound = .sub

namespace TypeArena

variable {M : Type}

def empty : TypeArena M where
  types := []
  refs_lt := by simp
  names_nodup := by simp
  generic_sub := by simp

def get (a : TypeArena M) (id : TypeId) : Option (Ty M) := a.types[id]?

section add

variable {a : TypeArena M} {ty : Ty M}

theorem refs_lt_concat (hrefs : ∀ ref ∈ ty.refs, ref < a.types.length) (id : TypeId) (ty' : Ty M)
    (h : (a.types ++ [ty])[id]? = some ty') (ref : TypeId) (href : ref ∈ ty'.refs) : ref < id := by
  rcases Nat.lt_trichotomy id a.types.length with hlt | rfl | hlt
  · rw [List.getElem?_append_left hlt] at h
    exact a.refs_lt id ty' h ref href
  · rw [List.getElem?_concat_length] at h
    obtain rfl := Option.some.inj h
    exact hrefs ref href
  · rw [List.getElem?_eq_none (by simp; omega)] at h
    cases h

theorem names_nodup_concat (hnames : ty.NamesNodup) (ty' : Ty M) (h : ty' ∈ a.types ++ [ty]) :
    ty'.NamesNodup := by
  rcases List.mem_append.mp h with h | h
  · exact a.names_nodup ty' h
  · obtain rfl := List.mem_singleton.mp h
    exact hnames

theorem generic_sub_concat (hgeneric : ∀ g, ty = .generic g → g.bound = .sub) (g : Generic)
    (h : .generic g ∈ a.types ++ [ty]) : g.bound = .sub := by
  rcases List.mem_append.mp h with h | h
  · exact a.generic_sub g h
  · exact hgeneric g (List.mem_singleton.mp h).symm

end add

/-- The references of a type to be added are to types that were added before. -/
def add (a : TypeArena M) (ty : Ty M) (hrefs : ∀ ref ∈ ty.refs, ref < a.types.length)
    (hnames : ty.NamesNodup) (hgeneric : ∀ g, ty = .generic g → g.bound = .sub) : TypeArena M where
  types := a.types ++ [ty]
  refs_lt := refs_lt_concat hrefs
  names_nodup := names_nodup_concat hnames
  generic_sub := generic_sub_concat hgeneric

end TypeArena

end Telomere.Component
