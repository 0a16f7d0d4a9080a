import Telomere.Component.Flatten

/-!
# Component programs

What the decoder leaves for the runtime: stores of definitions that refer to each other by their
places. A definition is imported, an export of an instance, or defined on the spot.
-/

namespace Telomere.Component

inductive Space where
  | component
  | instance : Space
  | func
deriving DecidableEq, Repr

inductive CoreSpace where
  | module
  | instance : CoreSpace
  | func
  | memory
  | table
  | global
  | type
deriving DecidableEq, Repr

/-- What is named by an index: a sort, and a place in the store of that sort. -/
inductive SortRef where
  | item (space : Space) (idx : Nat)
  | coreModule (idx : Nat)
deriving DecidableEq, Repr

/-- A component by the numbers of the components around it, its own first. -/
abbrev ComponentPath := List Nat

def ComponentPath.root : ComponentPath := [0]

/-- `CanonicalOptions` with places in the stores; the encoding of strings is left out. -/
structure CanonicalRefs where
  memory : Option Nat
  realloc : Option Nat
  postReturn : Option Nat
deriving DecidableEq, Repr

inductive ResourceCanonKind where
  | new
  | drop
  | rep
deriving DecidableEq, Repr

/-- `Component`, `Instance` and `Func` as they are defined. -/
inductive Definition where
  | component (path : ComponentPath) (exports : List (String × SortRef))
  | instance (component : Nat) (imports : List (String × SortRef))
  | canonLift (coreFunc : Nat) (ty : TypeId) (options : CanonicalRefs)
deriving DecidableEq, Repr

/-- `CoreModule`, `CoreInstance`, `CoreFunc` and `CoreType` as they are defined. With a function of
a resource stands the destructor that its type has. -/
inductive CoreDefinition where
  | module
  | type
  | instance (module : Nat) (imports : List (String × Nat))
  | inlineExport (exports : List (String × (CoreSpace × Nat)))
  | canonLower (func : Nat) (ty : TypeId) (options : CanonicalRefs)
  | canonResource (kind : ResourceCanonKind) (ty : TypeId) (destructor : Option Nat)
deriving DecidableEq, Repr

inductive Relation where
  | imported (name : String)
  | fromExport (inst : Nat) (name : String)
  | defined (definition : Definition)
deriving DecidableEq, Repr

inductive CoreRelation where
  | importModule (name : String)
  | fromExport (inst : Nat) (name : String)
  | fromCoreExport (inst : Nat) (name : String)
  | defined (definition : CoreDefinition)
deriving DecidableEq, Repr

/-- With the component it stands in, which is bookkeeping. -/
structure Placed (α : Type) where
  owner : ComponentPath
  relation : α
deriving DecidableEq, Repr

end Telomere.Component
