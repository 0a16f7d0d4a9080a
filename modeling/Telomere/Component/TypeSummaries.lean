import Telomere.Component.Flatten
import Telomere.Lib.Memo
import Mathlib.Data.Finset.Sort
import Mathlib.Data.Prod.Lex

/-!
# Summaries of types

The validator asks of a type how large it is when written out, whether it holds a handle and which
scopes own the resources in it. The answers are kept with the types, and a type that is asked for
while it is being summarized gives a default instead.
-/

namespace Telomere.Component

variable {M α : Type}

abbrev ScopeId := Nat ×ₗ Nat

structure ResourceOwnerSummary where
  owners : List ScopeId
  containsAbstractResource : Bool
deriving DecidableEq

namespace ResourceOwnerSummary

def default : ResourceOwnerSummary := ⟨[], false⟩

def fromOwner (owner : ScopeId) : ResourceOwnerSummary := ⟨[owner], false⟩

/-- The owners are sorted, so the binary search finds the owner or the place it belongs to. -/
def insertOwner (owners : List ScopeId) (owner : ScopeId) : List ScopeId :=
  if owner ∈ owners then owners else owners.orderedInsert (· ≤ ·) owner

def merge (self other : ResourceOwnerSummary) : ResourceOwnerSummary where
  owners := other.owners.foldl insertOwner self.owners
  containsAbstractResource := self.containsAbstractResource || other.containsAbstractResource

end ResourceOwnerSummary

structure TypeMeta where
  effectiveSize : Option Nat
  containsResourceHandle : Option Bool
  resourceOwnerSummary : Option ResourceOwnerSummary

structure TypeSlot (M : Type) where
  ty : Ty M
  summaries : TypeMeta

def TypeSlot.new (ty : Ty M) : TypeSlot M := ⟨ty, ⟨none, none, none⟩⟩

abbrev Slots (M : Type) := List (TypeSlot M)

structure VisitTracker where
  epoch : Nat
  marks : List Nat

def VisitTracker.new (typeCount : Nat) : VisitTracker := ⟨1, List.replicate typeCount 0⟩

structure Walking (M : Type) where
  slots : Slots M
  visiting : VisitTracker

/-- `indexOutOfBounds` is a panic. -/
inductive WalkError where
  | parse (e : ParseError)
  | indexOutOfBounds
  | outOfDepth

abbrev Walk (M : Type) := Lib.Run (Walking M) WalkError

namespace Walk

def enter (id : TypeId) : Walk M Bool := fun s =>
  match s.visiting.marks[id]? with
  | none => .error .indexOutOfBounds
  | some mark =>
      if mark = s.visiting.epoch then .ok (false, s)
      else
        let marks := s.visiting.marks.set id s.visiting.epoch
        .ok (true, { s with visiting := { s.visiting with marks := marks } })

def leave (id : TypeId) : Walk M Unit := fun s =>
  match s.visiting.marks[id]? with
  | none => .error .indexOutOfBounds
  | some _ =>
      .ok ((), { s with visiting := { s.visiting with marks := s.visiting.marks.set id 0 } })

def getType (id : TypeId) : Walk M (Ty M) := fun s =>
  match s.slots[id]? with
  | some slot => .ok (slot.ty, s)
  | none => .error (.parse (.typeNotFound id))

structure Kept (α : Type) where
  get : TypeMeta → Option α
  set : TypeMeta → α → TypeMeta

def Kept.load (kept : Kept α) (id : TypeId) : Walk M (Option α) := fun s =>
  .ok ((s.slots[id]?).bind fun slot => kept.get slot.summaries, s)

def Kept.store (kept : Kept α) (id : TypeId) (a : α) : Walk M Unit := fun s =>
  let slots := s.slots.modify id fun slot => { slot with summaries := kept.set slot.summaries a }
  .ok ((), { s with slots })

/-- What the three walks do at a type, `body` being what they make of it and `revisited` what they
take a type for that they are inside of. -/
def summarize (kept : Kept α) (revisited : α)
    (body : (TypeId → Walk M α) → TypeId → Ty M → Walk M α) : Nat → TypeId → Walk M α
  | 0, _ => throw .outOfDepth
  | depth + 1, id => do
      match ← kept.load id with
      | some summary => return summary
      | none =>
          if ← enter id then
            let ty ← getType id
            let summary ← body (summarize kept revisited body depth) id ty
            leave id
            kept.store id summary
            return summary
          else return revisited

def effectiveTypeSizeCeiling : Nat := 1000001

def saturatingAdd (lhs rhs : Nat) : Nat := min (min (lhs + rhs) (2 ^ 64 - 1)) effectiveTypeSizeCeiling

def saturatingMul (lhs rhs : Nat) : Nat := min (min (lhs * rhs) (2 ^ 64 - 1)) effectiveTypeSizeCeiling

/-- The loops over parts stop at the ceiling. -/
def addSizes : Nat → List (Walk M Nat) → Walk M Nat
  | total, [] => return total
  | total, size :: sizes => do
      let total := saturatingAdd total (← size)
      if effectiveTypeSizeCeiling ≤ total then return effectiveTypeSizeCeiling
      else addSizes total sizes

section size

variable (rec : TypeId → Walk M Nat)

def computeValtypeSize : ValType → Walk M Nat
  | .primitive _ => return 1
  | .type id => rec id

def computeDefvalSize : DefValType → Walk M Nat
  | .primitive _ => return 1
  | .record fields => addSizes 1 (fields.map fun field => computeValtypeSize rec field.ty)
  | .variant cases =>
      addSizes 1 (cases.map fun case =>
        match case.ty with
        | some ty => computeValtypeSize rec ty
        | none => return 1)
  | .flags labels => return max ((labels.length + 31) / 32) 1
  | .list ty maybeLen => do
      let elem ← computeValtypeSize rec ty
      match maybeLen with
      | some len => return saturatingMul elem len
      | none => return saturatingAdd elem 1
  | .own id | .borrow id => rec id

def computeComponentImportSize : ComponentImportType M → Walk M Nat
  | .coreModule _ => return 1
  | .type id _ => rec id

def computeExportSize : ExportType M → Walk M Nat
  | .coreModule _ => return 1
  | .component id | .instance id | .type id | .func id => rec id

def computeTypeSize : Ty M → Walk M Nat
  | .defVal ty => computeDefvalSize rec ty
  | .generic ⟨_, .eq inner⟩ => rec inner
  | .generic ⟨_, .sub⟩ | .resource _ => return 1
  | .func ty => addSizes 1 ((ty.params ++ ty.result.toList).map (computeValtypeSize rec))
  | .component ty =>
      addSizes 1 (ty.imports.map (fun import_ => computeComponentImportSize rec import_.2) ++
        ty.exports.map fun export_ => computeExportSize rec export_.2)
  | .instance ty => addSizes 1 (ty.exports.map fun export_ => computeExportSize rec export_.2)

end size

def keptSize : Kept Nat where
  get := (·.effectiveSize)
  set summaries size := { summaries with effectiveSize := some size }

def computeEffectiveTypeSize (depth : Nat) (id : TypeId) : Walk M Nat :=
  summarize keptSize 1 (fun rec _ ty => computeTypeSize rec ty) depth id

/-- `try_fold` that stops at what is found. -/
def findHandle (found : Bool) (walk : Walk M Bool) : Walk M Bool :=
  if found then return true else walk

section handles

variable (rec : TypeId → Walk M Bool)

def valtypeContainsResourceHandle : ValType → Walk M Bool
  | .primitive _ => return false
  | .type id => rec id

def defvalContainsResourceHandle : DefValType → Walk M Bool
  | .primitive _ | .flags _ => return false
  | .record fields =>
      (fields.map fun field => valtypeContainsResourceHandle rec field.ty).foldlM findHandle false
  | .variant cases =>
      (cases.map fun case =>
        match case.ty with
        | some ty => valtypeContainsResourceHandle rec ty
        | none => return false).foldlM findHandle false
  | .list ty _ => valtypeContainsResourceHandle rec ty
  | .own _ | .borrow _ => return true

def typeContainsResourceHandle : Ty M → Walk M Bool
  | .defVal ty => defvalContainsResourceHandle rec ty
  | .generic ⟨_, .eq inner⟩ => rec inner
  | .generic ⟨_, .sub⟩ | .resource _ | .func _ | .component _ | .instance _ => return false

end handles

def keptHandle : Kept Bool where
  get := (·.containsResourceHandle)
  set summaries found := { summaries with containsResourceHandle := some found }

def containsResourceHandleWithTracker (depth : Nat) (id : TypeId) : Walk M Bool :=
  summarize keptHandle false (fun rec _ ty => typeContainsResourceHandle rec ty) depth id

def mergeSummary (summary : ResourceOwnerSummary) (walk : Walk M ResourceOwnerSummary) :
    Walk M ResourceOwnerSummary := do
  return summary.merge (← walk)

def mergeAll (walks : List (Walk M ResourceOwnerSummary)) : Walk M ResourceOwnerSummary :=
  walks.foldlM mergeSummary .default

section owners

variable (owner : TypeId → ScopeId) (rec : TypeId → Walk M ResourceOwnerSummary)

def valtypeResourceOwnerSummary : ValType → Walk M ResourceOwnerSummary
  | .primitive _ => return .default
  | .type id => rec id

def defvalResourceOwnerSummary : DefValType → Walk M ResourceOwnerSummary
  | .primitive _ | .flags _ => return .default
  | .record fields => mergeAll (fields.map fun field => valtypeResourceOwnerSummary rec field.ty)
  | .variant cases =>
      mergeAll (cases.filterMap fun case => case.ty.map (valtypeResourceOwnerSummary rec))
  | .list ty _ => valtypeResourceOwnerSummary rec ty
  | .own id | .borrow id => rec id

/-- Core modules are passed over. -/
def importSummaries : ComponentImportType M → Option (Walk M ResourceOwnerSummary)
  | .coreModule _ => none
  | .type id _ => some (rec id)

def exportSummaries : ExportType M → Option (Walk M ResourceOwnerSummary)
  | .coreModule _ => none
  | .component id | .instance id | .type id | .func id => some (rec id)

/-- A resource type tells who owns it; `owner` says it by the type's place. -/
def typeResourceOwnerSummary (id : TypeId) : Ty M → Walk M ResourceOwnerSummary
  | .defVal ty => defvalResourceOwnerSummary rec ty
  | .generic ⟨_, .eq inner⟩ => rec inner
  | .generic ⟨_, .sub⟩ => return .default
  | .resource _ => return .fromOwner (owner id)
  | .func ty => mergeAll ((ty.params ++ ty.result.toList).map (valtypeResourceOwnerSummary rec))
  | .component ty =>
      mergeAll (ty.imports.filterMap (fun import_ => importSummaries rec import_.2) ++
        ty.exports.filterMap fun export_ => exportSummaries rec export_.2)
  | .instance ty => mergeAll (ty.exports.filterMap fun export_ => exportSummaries rec export_.2)

end owners

def keptOwners : Kept ResourceOwnerSummary where
  get := (·.resourceOwnerSummary)
  set summaries owners := { summaries with resourceOwnerSummary := some owners }

def resourceOwnerSummary (owner : TypeId → ScopeId) (depth : Nat) (id : TypeId) :
    Walk M ResourceOwnerSummary :=
  summarize keptOwners .default (typeResourceOwnerSummary owner) depth id

end Walk

abbrev Validating (M : Type) := Lib.Run (Slots M) WalkError

/-- Every query starts with a tracker of its own. A walk never stands inside of more types than
there are, so it never goes deeper than their number. -/
def query (walk : Nat → TypeId → Walk M α) (id : TypeId) : Validating M α := fun slots => do
  let (a, s) ← walk slots.length id ⟨slots, .new slots.length⟩
  return (a, s.slots)

def newType (ty : Ty M) : Validating M TypeId := fun slots =>
  .ok (slots.length, slots ++ [TypeSlot.new ty])

def effectiveTypeSizeLimit : Nat := 1000000

def validateEffectiveTypeSize (id : TypeId) : Validating M Unit := do
  let size ← query Walk.computeEffectiveTypeSize id
  if size > effectiveTypeSizeLimit then
    throw (.parse (.typeMismatch "effective type size exceeds the limit"))

end Telomere.Component
