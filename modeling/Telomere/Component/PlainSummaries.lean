import Telomere.Component.TypeSummaries
import Mathlib.Data.Finset.Union

/-!
# Summaries without a memo

The summaries of a type are those of the plain recursion over its definition. What earlier queries
left behind, and in which order they came, does not change them.
-/

namespace Telomere.Component

variable {M α : Type}

open Lib (Gives unrolled Grounded)
open Walk

section plain

def ValType.expandedSize (size : TypeId → Nat) : ValType → Nat
  | .primitive _ => 1
  | .type id => size id

def DefValType.expandedSize (size : TypeId → Nat) : DefValType → Nat
  | .primitive _ => 1
  | .record fields => 1 + (fields.map (·.ty.expandedSize size)).sum
  | .variant cases => 1 + (cases.map fun case => (case.ty.map (·.expandedSize size)).getD 1).sum
  | .flags labels => max ((labels.length + 31) / 32) 1
  | .list elem (some len) => elem.expandedSize size * len
  | .list elem none => elem.expandedSize size + 1
  | .own id | .borrow id => size id

def ComponentImportType.expandedSize (size : TypeId → Nat) : ComponentImportType M → Nat
  | .coreModule _ => 1
  | .type id _ => size id

def ExportType.expandedSize (size : TypeId → Nat) : ExportType M → Nat
  | .coreModule _ => 1
  | .component id | .instance id | .type id | .func id => size id

/-- The size of a type written out, given those of the types it refers to. -/
def Ty.expandedSize (size : TypeId → Nat) : Ty M → Nat
  | .defVal ty => ty.expandedSize size
  | .generic ⟨_, .eq inner⟩ => size inner
  | .generic ⟨_, .sub⟩ | .resource _ => 1
  | .func ty => 1 + ((ty.params ++ ty.result.toList).map (·.expandedSize size)).sum
  | .component ty =>
      1 + ((ty.imports.map (·.2.expandedSize size)).sum + (ty.exports.map (·.2.expandedSize size)).sum)
  | .instance ty => 1 + (ty.exports.map (·.2.expandedSize size)).sum

/-- Flags, or what stands for flags without adding to their size. -/
def Ty.standsForFlags (flags : TypeId → Bool) : Ty M → Bool
  | .defVal (.flags _) => true
  | .defVal (.own id) | .defVal (.borrow id) | .generic ⟨_, .eq id⟩ => flags id
  | _ => false

def ValType.holdsHandle (handle : TypeId → Bool) : ValType → Bool
  | .primitive _ => false
  | .type id => handle id

def Ty.holdsHandle (handle : TypeId → Bool) : Ty M → Bool
  | .defVal (.record fields) => fields.any (·.ty.holdsHandle handle)
  | .defVal (.variant cases) => cases.any fun case => case.ty.any (·.holdsHandle handle)
  | .defVal (.list elem _) => elem.holdsHandle handle
  | .defVal (.own _) | .defVal (.borrow _) => true
  | .generic ⟨_, .eq inner⟩ => handle inner
  | _ => false

def ComponentImportType.typeRefs : ComponentImportType M → List TypeId
  | .coreModule _ => []
  | .type id _ => [id]

/-- The types a walk over this one goes on to. An import with a bound is gone to once. -/
def Ty.children : Ty M → List TypeId
  | .component ty => ty.imports.flatMap (·.2.typeRefs) ++ ty.exports.flatMap (·.2.refs)
  | ty => ty.refs

def ownersOver (owners : TypeId → Finset ScopeId) (refs : List TypeId) : Finset ScopeId :=
  refs.toFinset.biUnion owners

/-- The resources of a type have the owners of those it refers to; a resource has its own. -/
def Ty.owners (owner : ScopeId) (owners : TypeId → Finset ScopeId) : Ty M → Finset ScopeId
  | .resource _ => {owner}
  | ty => ownersOver owners ty.children

variable (types : List (Ty M))

/-- The plain recursion over the definitions of an arena, down to a depth. -/
def plain (step : (TypeId → α) → TypeId → Ty M → α) (cut : α) : Nat → TypeId → α :=
  unrolled (fun value id => match types[id]? with
    | some ty => step value id ty
    | none => cut) cut

def exactSize (id : TypeId) : Nat :=
  plain types (fun size _ ty => ty.expandedSize size) 0 types.length id

def isFlags (id : TypeId) : Bool :=
  plain types (fun flags _ ty => ty.standsForFlags flags) false types.length id

def holdsHandle (id : TypeId) : Bool :=
  plain types (fun handle _ ty => ty.holdsHandle handle) false types.length id

def ownersOf (owner : TypeId → ScopeId) (id : TypeId) : Finset ScopeId :=
  plain types (fun owners id ty => ty.owners (owner id) owners) ∅ types.length id

end plain

def ownersSummary (owners : Finset ScopeId) : ResourceOwnerSummary := ⟨owners.sort (· ≤ ·), false⟩

/-- Sizes stop at the ceiling, apart from those of flags. -/
def cappedSize (flags : Bool) (size : Nat) : Nat :=
  if flags then size else min effectiveTypeSizeCeiling size

theorem insertOwner_sort (owners : Finset ScopeId) (owner : ScopeId) :
    ResourceOwnerSummary.insertOwner (owners.sort (· ≤ ·)) owner =
      (insert owner owners).sort (· ≤ ·) := by
  unfold ResourceOwnerSummary.insertOwner
  by_cases hmem : owner ∈ owners
  · rw [if_pos ((Finset.mem_sort _).mpr hmem), Finset.insert_eq_of_mem hmem]
  · rw [if_neg (fun h => hmem ((Finset.mem_sort _).mp h))]
    have hperm := List.perm_orderedInsert (· ≤ ·) owner (owners.sort (· ≤ ·))
    have hnodup : ((owners.sort (· ≤ ·)).orderedInsert (· ≤ ·) owner).Nodup := by
      rw [hperm.nodup_iff, List.nodup_cons]
      simp [hmem]
    have hset : ((owners.sort (· ≤ ·)).orderedInsert (· ≤ ·) owner).toFinset =
        insert owner owners := by
      ext x
      simp [List.mem_orderedInsert]
    rw [← hset]
    refine ((List.toFinset_sort _ hnodup).mpr ?_).symm
    exact (Finset.pairwise_sort owners (· ≤ ·)).orderedInsert owner _

theorem foldl_insertOwner (owners : Finset ScopeId) (others : List ScopeId) :
    others.foldl ResourceOwnerSummary.insertOwner (owners.sort (· ≤ ·)) =
      (owners ∪ others.toFinset).sort (· ≤ ·) := by
  induction others generalizing owners with
  | nil => simp
  | cons other others ih =>
      rw [List.foldl_cons, insertOwner_sort, ih, List.toFinset_cons, Finset.insert_union,
        Finset.union_insert]

theorem ownersSummary_merge (a b : Finset ScopeId) :
    (ownersSummary a).merge (ownersSummary b) = ownersSummary (a ∪ b) := by
  simp only [ownersSummary, ResourceOwnerSummary.merge, foldl_insertOwner, Finset.sort_toFinset,
    Bool.or_self]

theorem ownersSummary_empty : ownersSummary ∅ = .default := by
  simp [ownersSummary, ResourceOwnerSummary.default]

theorem ownersSummary_singleton (owner : ScopeId) : ownersSummary {owner} = .fromOwner owner := by
  simp [ownersSummary, ResourceOwnerSummary.fromOwner]

theorem FuncType.part_refs {ty : FuncType} {part : ValType}
    (hmem : part ∈ ty.params ++ ty.result.toList) : part.refs ⊆ (Ty.func ty : Ty M).refs := by
  intro ref href
  rcases List.mem_append.mp hmem with hmem | hmem
  · exact List.mem_append_left _ (List.mem_flatMap.mpr ⟨part, hmem, href⟩)
  · apply List.mem_append_right
    rw [Option.mem_toList] at hmem
    rw [hmem]
    exact href

theorem FuncType.refs_eq (ty : FuncType) :
    (Ty.func ty : Ty M).refs = (ty.params ++ ty.result.toList).flatMap ValType.refs := by
  rw [List.flatMap_append]
  cases hresult : ty.result <;> simp [Ty.refs, hresult]

theorem ComponentType.import_refs {ty : ComponentType M} {import_ : String × ComponentImportType M}
    (hmem : import_ ∈ ty.imports) : import_.2.refs ⊆ (Ty.component ty).refs :=
  fun _ href => List.mem_append_left _ (List.mem_flatMap.mpr ⟨import_, hmem, href⟩)

theorem ComponentType.export_refs {ty : ComponentType M} {export_ : String × ExportType M}
    (hmem : export_ ∈ ty.exports) : export_.2.refs ⊆ (Ty.component ty).refs :=
  fun _ href => List.mem_append_right _ (List.mem_flatMap.mpr ⟨export_, hmem, href⟩)

theorem InstanceType.export_refs {ty : InstanceType M} {export_ : String × ExportType M}
    (hmem : export_ ∈ ty.exports) : export_.2.refs ⊆ (Ty.instance ty).refs :=
  fun _ href => List.mem_flatMap.mpr ⟨export_, hmem, href⟩

section step

variable {I : Walking M → Prop}

theorem min_cappedSize (flags : Bool) (size : Nat) :
    min effectiveTypeSizeCeiling (cappedSize flags size) = min effectiveTypeSizeCeiling size := by
  unfold cappedSize
  split <;> omega

/-- The walk gives a size that is right up to the ceiling. -/
def GivesSize (I : Walking M → Prop) (walk : Walk M Nat) (size : Nat) : Prop :=
  ∃ found, Gives I walk found ∧
    min effectiveTypeSizeCeiling found = min effectiveTypeSizeCeiling size

theorem GivesSize.of_capped {walk : Walk M Nat} {flags : Bool} {size : Nat}
    (h : Gives I walk (cappedSize flags size)) : GivesSize I walk size :=
  ⟨_, h, min_cappedSize flags size⟩

theorem GivesSize.one : GivesSize I (pure 1) 1 := ⟨1, Gives.pure 1, rfl⟩

theorem saturatingAdd_eq {found size : Nat} (total : Nat)
    (h : min effectiveTypeSizeCeiling found = min effectiveTypeSizeCeiling size) :
    Walk.saturatingAdd total found = min effectiveTypeSizeCeiling (total + size) := by
  unfold Walk.saturatingAdd
  unfold effectiveTypeSizeCeiling at *
  omega

theorem saturatingMul_eq {found size : Nat} (len : Nat)
    (h : min effectiveTypeSizeCeiling found = min effectiveTypeSizeCeiling size) :
    Walk.saturatingMul found len = min effectiveTypeSizeCeiling (size * len) := by
  unfold Walk.saturatingMul
  cases len with
  | zero => simp
  | succ len =>
      by_cases heq : found = size
      · rw [heq]
        unfold effectiveTypeSizeCeiling
        omega
      · have hfound : effectiveTypeSizeCeiling ≤ found := by omega
        have hsize : effectiveTypeSizeCeiling ≤ size := by omega
        have hfound' : found ≤ found * (len + 1) := Nat.le_mul_of_pos_right found (Nat.succ_pos len)
        have hsize' : size ≤ size * (len + 1) := Nat.le_mul_of_pos_right size (Nat.succ_pos len)
        unfold effectiveTypeSizeCeiling at *
        omega

theorem addSizes_gives {walks : List (Walk M Nat)} {sizes : List Nat}
    (h : List.Forall₂ (GivesSize I) walks sizes) (total : Nat)
    (hle : total ≤ effectiveTypeSizeCeiling) :
    Gives I (addSizes total walks) (min effectiveTypeSizeCeiling (total + sizes.sum)) := by
  induction h generalizing total with
  | nil =>
      rw [List.sum_nil, Nat.add_zero, Nat.min_eq_right hle]
      exact Gives.pure total
  | @cons walk size walks sizes hwalk _ ih =>
      obtain ⟨found, hfound, halike⟩ := hwalk
      rw [List.sum_cons]
      apply Gives.bind hfound
      dsimp only
      rw [saturatingAdd_eq total halike]
      by_cases hstop : effectiveTypeSizeCeiling ≤ total + size
      · rw [if_pos (by omega), Nat.min_eq_left (by omega)]
        exact Gives.pure _
      · rw [if_neg (by omega), Nat.min_eq_right (by omega), ← Nat.add_assoc]
        exact ih (total + size) (by omega)

theorem forall₂_map {β γ ι : Type} {R : β → γ → Prop} {f : ι → β} {g : ι → γ} {xs : List ι}
    (h : ∀ x ∈ xs, R (f x) (g x)) : List.Forall₂ R (xs.map f) (xs.map g) := by
  rw [List.forall₂_map_left_iff, List.forall₂_map_right_iff, List.forall₂_same]
  exact h

section size

variable {rec : TypeId → Walk M Nat} {size : TypeId → Nat}

theorem computeValtypeSize_gives {ty : ValType}
    (hrec : ∀ ref ∈ ty.refs, GivesSize I (rec ref) (size ref)) :
    GivesSize I (computeValtypeSize rec ty) (ty.expandedSize size) := by
  cases ty with
  | primitive prim => exact GivesSize.one
  | type id => exact hrec id (List.mem_singleton_self id)

theorem computeComponentImportSize_gives {import_ : ComponentImportType M}
    (hrec : ∀ ref ∈ import_.refs, GivesSize I (rec ref) (size ref)) :
    GivesSize I (computeComponentImportSize rec import_) (import_.expandedSize size) := by
  cases import_ with
  | coreModule ty => exact GivesSize.one
  | type id generic => exact hrec id (List.mem_cons_self ..)

theorem computeExportSize_gives {export_ : ExportType M}
    (hrec : ∀ ref ∈ export_.refs, GivesSize I (rec ref) (size ref)) :
    GivesSize I (computeExportSize rec export_) (export_.expandedSize size) := by
  cases export_ with
  | coreModule ty => exact GivesSize.one
  | component id | «instance» id | type id | func id => exact hrec id (List.mem_singleton_self id)

theorem addParts_gives {walks : List (Walk M Nat)} {sizes : List Nat}
    (h : List.Forall₂ (GivesSize I) walks sizes) :
    Gives I (addSizes 1 walks) (cappedSize false (1 + sizes.sum)) :=
  addSizes_gives h 1 (by decide)

theorem computeDefvalSize_gives {flags : TypeId → Bool} {ty : DefValType}
    (hrec : ∀ ref ∈ ty.refs, Gives I (rec ref) (cappedSize (flags ref) (size ref))) :
    Gives I (computeDefvalSize rec ty)
      (cappedSize ((Ty.defVal ty : Ty M).standsForFlags flags) (ty.expandedSize size)) := by
  have hpart : ∀ inner : ValType, inner.refs ⊆ ty.refs →
      GivesSize I (computeValtypeSize rec inner) (inner.expandedSize size) :=
    fun inner hsub => computeValtypeSize_gives fun ref href => .of_capped (hrec ref (hsub href))
  cases ty with
  | primitive prim => exact Gives.pure _
  | record fields =>
      apply addParts_gives
      apply forall₂_map
      intro field hmem
      exact hpart field.ty (DefValType.field_refs hmem)
  | variant cases =>
      apply addParts_gives
      apply forall₂_map
      intro case hmem
      cases hty : case.ty with
      | none => exact GivesSize.one
      | some ty => exact hpart ty (DefValType.case_refs hmem hty)
  | flags labels => exact Gives.pure _
  | list elem len =>
      obtain ⟨found, hfound, halike⟩ := hpart elem (List.Subset.refl _)
      apply Gives.bind hfound
      cases len with
      | none =>
          have hadd : Walk.saturatingAdd found 1 =
              min effectiveTypeSizeCeiling (elem.expandedSize size + 1) := by
            have hone := saturatingAdd_eq 1 halike
            unfold Walk.saturatingAdd at *
            rwa [Nat.add_comm found, Nat.add_comm (elem.expandedSize size)]
          dsimp only
          rw [hadd]
          exact Gives.pure _
      | some len =>
          dsimp only
          rw [saturatingMul_eq len halike]
          exact Gives.pure _
  | own id => exact hrec id (List.mem_singleton_self id)
  | borrow id => exact hrec id (List.mem_singleton_self id)

theorem computeTypeSize_gives {flags : TypeId → Bool} {ty : Ty M}
    (hrec : ∀ ref ∈ ty.refs, Gives I (rec ref) (cappedSize (flags ref) (size ref))) :
    Gives I (computeTypeSize rec ty)
      (cappedSize (ty.standsForFlags flags) (ty.expandedSize size)) := by
  have hsize : ∀ ref ∈ ty.refs, GivesSize I (rec ref) (size ref) :=
    fun ref href => .of_capped (hrec ref href)
  cases ty with
  | defVal ty => exact computeDefvalSize_gives hrec
  | generic g =>
      obtain ⟨n, bound⟩ := g
      cases bound with
      | eq inner => exact hrec inner (List.mem_singleton_self inner)
      | sub => exact Gives.pure _
  | func ty =>
      apply addParts_gives
      apply forall₂_map
      intro part hmem
      apply computeValtypeSize_gives
      intro ref href
      exact hsize ref (FuncType.part_refs hmem href)
  | resource id => exact Gives.pure _
  | component ty =>
      have himports : List.Forall₂ (GivesSize I)
          (ty.imports.map fun import_ => computeComponentImportSize rec import_.2)
          (ty.imports.map fun import_ => import_.2.expandedSize size) := by
        apply forall₂_map
        intro import_ hmem
        apply computeComponentImportSize_gives
        intro ref href
        exact hsize ref (ComponentType.import_refs hmem href)
      have hexports : List.Forall₂ (GivesSize I)
          (ty.exports.map fun export_ => computeExportSize rec export_.2)
          (ty.exports.map fun export_ => export_.2.expandedSize size) := by
        apply forall₂_map
        intro export_ hmem
        apply computeExportSize_gives
        intro ref href
        exact hsize ref (ComponentType.export_refs hmem href)
      have hparts := addParts_gives (List.rel_append himports hexports)
      rw [List.sum_append] at hparts
      exact hparts
  | «instance» ty =>
      apply addParts_gives
      apply forall₂_map
      intro export_ hmem
      apply computeExportSize_gives
      intro ref href
      exact hsize ref (InstanceType.export_refs hmem href)

end size

theorem findHandle_gives (found : Bool) (walk : Walk M Bool) (held : Bool) (h : Gives I walk held) :
    Gives I (findHandle found walk) (found || held) := by
  unfold findHandle
  cases found with
  | true => exact Gives.pure true
  | false => exact h

theorem foldl_or (found : Bool) (bs : List Bool) :
    bs.foldl (fun found b => found || b) found = (found || bs.any id) := by
  induction bs generalizing found with
  | nil => simp
  | cons b bs ih => simp [ih, Bool.or_assoc]

theorem findHandles_gives {walks : List (Walk M Bool)} {held : List Bool}
    (h : List.Forall₂ (Gives I) walks held) :
    Gives I (walks.foldlM findHandle false) (held.any id) := by
  have hfold := Gives.foldlM findHandle_gives h false
  rwa [foldl_or, Bool.false_or] at hfold

section handles

variable {rec : TypeId → Walk M Bool} {handle : TypeId → Bool}

theorem valtypeContainsResourceHandle_gives {ty : ValType}
    (hrec : ∀ ref ∈ ty.refs, Gives I (rec ref) (handle ref)) :
    Gives I (valtypeContainsResourceHandle rec ty) (ty.holdsHandle handle) := by
  cases ty with
  | primitive prim => exact Gives.pure _
  | type id => exact hrec id (List.mem_singleton_self id)

theorem typeContainsResourceHandle_gives {ty : Ty M}
    (hrec : ∀ ref ∈ ty.refs, Gives I (rec ref) (handle ref)) :
    Gives I (typeContainsResourceHandle rec ty) (ty.holdsHandle handle) := by
  have hpart : ∀ inner : ValType, inner.refs ⊆ ty.refs →
      Gives I (valtypeContainsResourceHandle rec inner) (inner.holdsHandle handle) :=
    fun inner hsub => valtypeContainsResourceHandle_gives fun ref href => hrec ref (hsub href)
  cases ty with
  | defVal ty =>
      cases ty with
      | primitive prim => exact Gives.pure _
      | record fields =>
          have hfields := findHandles_gives (forall₂_map fun field (hmem : field ∈ fields) =>
            hpart field.ty (DefValType.field_refs hmem))
          rw [List.any_map] at hfields
          exact hfields
      | variant cases =>
          have hheld : (Ty.defVal (.variant cases) : Ty M).holdsHandle handle =
              (cases.map fun case => case.ty.any (·.holdsHandle handle)).any id := by
            rw [List.any_map]
            rfl
          rw [hheld]
          refine findHandles_gives (forall₂_map fun case hmem => ?_)
          cases hty : case.ty with
          | none => exact Gives.pure false
          | some ty => exact hpart ty (DefValType.case_refs hmem hty)
      | flags labels => exact Gives.pure _
      | list elem len => exact hpart elem (List.Subset.refl _)
      | own id => exact Gives.pure _
      | borrow id => exact Gives.pure _
  | generic g =>
      obtain ⟨n, bound⟩ := g
      cases bound with
      | eq inner => exact hrec inner (List.mem_singleton_self inner)
      | sub => exact Gives.pure _
  | func ty => exact Gives.pure _
  | resource id => exact Gives.pure _
  | component ty => exact Gives.pure _
  | «instance» ty => exact Gives.pure _

end handles

section owners

variable {rec : TypeId → Walk M ResourceOwnerSummary} {owners : TypeId → Finset ScopeId}

/-- Walks that give the owners of these references. -/
inductive GivesOwners (I : Walking M → Prop) (owners : TypeId → Finset ScopeId) :
    List (Walk M ResourceOwnerSummary) → List TypeId → Prop
  | nil : GivesOwners I owners [] []
  | cons {walk walks refs rest} (first : Gives I walk (ownersSummary (ownersOver owners refs)))
      (others : GivesOwners I owners walks rest) : GivesOwners I owners (walk :: walks) (refs ++ rest)

theorem ownersOver_append (refs rest : List TypeId) :
    ownersOver owners (refs ++ rest) = ownersOver owners refs ∪ ownersOver owners rest := by
  simp only [ownersOver, List.toFinset_append, Finset.union_biUnion]

theorem ownersOver_singleton (id : TypeId) : ownersOver owners [id] = owners id := by
  simp [ownersOver]

theorem ownersSummary_over_nil : ownersSummary (ownersOver owners []) = .default := by
  simp [ownersOver, ownersSummary_empty]

namespace GivesOwners

theorem append {walks walks' : List (Walk M ResourceOwnerSummary)} {refs refs' : List TypeId}
    (h : GivesOwners I owners walks refs) (h' : GivesOwners I owners walks' refs') :
    GivesOwners I owners (walks ++ walks') (refs ++ refs') := by
  induction h with
  | nil => exact h'
  | cons hfirst _ ih =>
      rw [List.append_assoc]
      exact cons hfirst ih

theorem map {ι : Type} {walk : ι → Walk M ResourceOwnerSummary} {refs : ι → List TypeId}
    {xs : List ι}
    (h : ∀ x ∈ xs, Gives I (walk x) (ownersSummary (ownersOver owners (refs x)))) :
    GivesOwners I owners (xs.map walk) (xs.flatMap refs) := by
  induction xs with
  | nil => exact nil
  | cons x xs ih =>
      rw [List.map_cons, List.flatMap_cons]
      apply cons (h x (List.mem_cons_self ..))
      exact ih fun x' hmem => h x' (List.mem_cons_of_mem _ hmem)

theorem filterMap {ι : Type} {walk : ι → Option (Walk M ResourceOwnerSummary)}
    {refs : ι → List TypeId} {xs : List ι} (hnone : ∀ x ∈ xs, walk x = none → refs x = [])
    (hsome : ∀ x ∈ xs, ∀ w, walk x = some w →
      Gives I w (ownersSummary (ownersOver owners (refs x)))) :
    GivesOwners I owners (xs.filterMap walk) (xs.flatMap refs) := by
  induction xs with
  | nil => exact nil
  | cons x xs ih =>
      have hx := List.mem_cons_self (a := x) (l := xs)
      have hrest := ih (fun x' hmem => hnone x' (List.mem_cons_of_mem _ hmem))
        fun x' hmem => hsome x' (List.mem_cons_of_mem _ hmem)
      rw [List.flatMap_cons]
      cases hwalk : walk x with
      | none =>
          rw [List.filterMap_cons_none hwalk, hnone x hx hwalk]
          exact hrest
      | some w =>
          rw [List.filterMap_cons_some hwalk]
          exact cons (hsome x hx w hwalk) hrest

theorem foldlM {walks : List (Walk M ResourceOwnerSummary)} {refs : List TypeId}
    (h : GivesOwners I owners walks refs) (before : Finset ScopeId) :
    Gives I (walks.foldlM mergeSummary (ownersSummary before))
      (ownersSummary (before ∪ ownersOver owners refs)) := by
  induction h generalizing before with
  | nil =>
      have hnil : ownersOver owners [] = ∅ := by simp [ownersOver]
      rw [hnil, Finset.union_empty]
      exact Gives.pure _
  | @cons walk walks refs rest hfirst _ ih =>
      rw [List.foldlM_cons, ownersOver_append, ← Finset.union_assoc]
      refine Gives.bind (Gives.bind hfirst ?_) (ih _)
      rw [ownersSummary_merge]
      exact Gives.pure _

theorem mergeAll {walks : List (Walk M ResourceOwnerSummary)} {refs : List TypeId}
    (h : GivesOwners I owners walks refs) :
    Gives I (mergeAll walks) (ownersSummary (ownersOver owners refs)) := by
  have hfold := foldlM h ∅
  rwa [Finset.empty_union, ownersSummary_empty] at hfold

end GivesOwners

theorem rec_gives_over {id : TypeId} (h : Gives I (rec id) (ownersSummary (owners id))) :
    Gives I (rec id) (ownersSummary (ownersOver owners [id])) := by
  rwa [ownersOver_singleton]

theorem default_gives :
    Gives I (pure .default : Walk M ResourceOwnerSummary) (ownersSummary (ownersOver owners [])) := by
  rw [ownersSummary_over_nil]
  exact Gives.pure _

theorem valtypeResourceOwnerSummary_gives {ty : ValType}
    (hrec : ∀ ref ∈ ty.refs, Gives I (rec ref) (ownersSummary (owners ref))) :
    Gives I (valtypeResourceOwnerSummary rec ty) (ownersSummary (ownersOver owners ty.refs)) := by
  cases ty with
  | primitive prim => exact default_gives
  | type id => exact rec_gives_over (hrec id (List.mem_singleton_self id))

theorem exportSummaries_giveOwners {exports : List (String × ExportType M)}
    (hrec : ∀ export_ ∈ exports, ∀ ref ∈ export_.2.refs,
      Gives I (rec ref) (ownersSummary (owners ref))) :
    GivesOwners I owners (exports.filterMap fun export_ => exportSummaries rec export_.2)
      (exports.flatMap (·.2.refs)) := by
  apply GivesOwners.filterMap
  · rintro ⟨name, export_⟩ - hnone
    cases export_ with
    | coreModule ty => rfl
    | component id | «instance» id | type id | func id => cases hnone
  · rintro ⟨name, export_⟩ hmem walk hsome
    cases export_ with
    | coreModule ty => cases hsome
    | component id | «instance» id | type id | func id =>
        obtain rfl := Option.some.inj hsome
        exact rec_gives_over (hrec _ hmem id (List.mem_singleton_self id))

theorem importSummaries_giveOwners {imports : List (String × ComponentImportType M)}
    (hrec : ∀ import_ ∈ imports, ∀ ref ∈ import_.2.refs,
      Gives I (rec ref) (ownersSummary (owners ref))) :
    GivesOwners I owners (imports.filterMap fun import_ => importSummaries rec import_.2)
      (imports.flatMap (·.2.typeRefs)) := by
  apply GivesOwners.filterMap
  · rintro ⟨name, import_⟩ - hnone
    cases import_ with
    | coreModule ty => rfl
    | type id generic => cases hnone
  · rintro ⟨name, import_⟩ hmem walk hsome
    cases import_ with
    | coreModule ty => cases hsome
    | type id generic =>
        obtain rfl := Option.some.inj hsome
        exact rec_gives_over (hrec _ hmem id (List.mem_cons_self ..))

theorem defvalResourceOwnerSummary_gives {ty : DefValType}
    (hrec : ∀ ref ∈ ty.refs, Gives I (rec ref) (ownersSummary (owners ref))) :
    Gives I (defvalResourceOwnerSummary rec ty) (ownersSummary (ownersOver owners ty.refs)) := by
  have hpart : ∀ inner : ValType, inner.refs ⊆ ty.refs →
      Gives I (valtypeResourceOwnerSummary rec inner) (ownersSummary (ownersOver owners inner.refs)) :=
    fun inner hsub => valtypeResourceOwnerSummary_gives fun ref href => hrec ref (hsub href)
  cases ty with
  | primitive prim => exact default_gives
  | record fields =>
      apply GivesOwners.mergeAll
      apply GivesOwners.map
      intro field hmem
      exact hpart field.ty (DefValType.field_refs hmem)
  | variant cases =>
      apply GivesOwners.mergeAll
      apply GivesOwners.filterMap
      · intro case _ hnone
        rw [Option.map_eq_none_iff.mp hnone]
        rfl
      · intro case hmem walk hsome
        obtain ⟨ty, hty, rfl⟩ := Option.map_eq_some_iff.mp hsome
        rw [hty]
        exact hpart ty (DefValType.case_refs hmem hty)
  | flags labels => exact default_gives
  | list elem len => exact hpart elem (List.Subset.refl _)
  | own id => exact rec_gives_over (hrec id (List.mem_singleton_self id))
  | borrow id => exact rec_gives_over (hrec id (List.mem_singleton_self id))

theorem typeResourceOwnerSummary_gives {owner : TypeId → ScopeId} {id : TypeId} {ty : Ty M}
    (hrec : ∀ ref ∈ ty.refs, Gives I (rec ref) (ownersSummary (owners ref))) :
    Gives I (typeResourceOwnerSummary owner rec id ty)
      (ownersSummary (ty.owners (owner id) owners)) := by
  cases ty with
  | defVal ty => exact defvalResourceOwnerSummary_gives hrec
  | generic g =>
      obtain ⟨n, bound⟩ := g
      cases bound with
      | eq inner => exact rec_gives_over (hrec inner (List.mem_singleton_self inner))
      | sub => exact default_gives
  | func ty =>
      change Gives I _ (ownersSummary (ownersOver owners (Ty.func ty : Ty M).refs))
      rw [FuncType.refs_eq]
      apply GivesOwners.mergeAll
      apply GivesOwners.map
      intro part hmem
      apply valtypeResourceOwnerSummary_gives
      intro ref href
      exact hrec ref (FuncType.part_refs hmem href)
  | resource id =>
      change Gives I _ (ownersSummary {_})
      rw [ownersSummary_singleton]
      exact Gives.pure _
  | component ty =>
      apply GivesOwners.mergeAll
      apply GivesOwners.append
      · apply importSummaries_giveOwners
        intro import_ hmem ref href
        exact hrec ref (ComponentType.import_refs hmem href)
      · apply exportSummaries_giveOwners
        intro export_ hmem ref href
        exact hrec ref (ComponentType.export_refs hmem href)
  | «instance» ty =>
      apply GivesOwners.mergeAll
      apply exportSummaries_giveOwners
      intro export_ hmem ref href
      exact hrec ref (InstanceType.export_refs hmem href)

end owners

end step

section solution

theorem expandedSize_congr {size size' : TypeId → Nat} {ty : Ty M}
    (h : ∀ ref ∈ ty.refs, size ref = size' ref) : ty.expandedSize size = ty.expandedSize size' := by
  have hvalue : ∀ inner : ValType, inner.refs ⊆ ty.refs →
      inner.expandedSize size = inner.expandedSize size' := by
    intro inner hsub
    cases inner with
    | primitive prim => rfl
    | type id => exact h id (hsub (List.mem_singleton_self id))
  have hexport : ∀ export_ : ExportType M, export_.refs ⊆ ty.refs →
      export_.expandedSize size = export_.expandedSize size' := by
    intro export_ hsub
    cases export_ with
    | coreModule ty => rfl
    | component id | «instance» id | type id | func id =>
        exact h id (hsub (List.mem_singleton_self id))
  cases ty with
  | defVal ty =>
      cases ty with
      | primitive prim => rfl
      | record fields =>
          have hmap := List.map_congr_left fun field (hmem : field ∈ fields) =>
            hvalue field.ty (DefValType.field_refs hmem)
          simp only [Ty.expandedSize, DefValType.expandedSize, hmap]
      | variant cases =>
          have hmap : (cases.map fun case => (case.ty.map (·.expandedSize size)).getD 1) =
              cases.map fun case => (case.ty.map (·.expandedSize size')).getD 1 := by
            apply List.map_congr_left
            intro case hmem
            cases hty : case.ty with
            | none => rfl
            | some ty => exact hvalue ty (DefValType.case_refs hmem hty)
          simp only [Ty.expandedSize, DefValType.expandedSize, hmap]
      | flags labels => rfl
      | list elem len =>
          have helem := hvalue elem (List.Subset.refl _)
          cases len <;> simp only [Ty.expandedSize, DefValType.expandedSize, helem]
      | own id => exact h id (List.mem_singleton_self id)
      | borrow id => exact h id (List.mem_singleton_self id)
  | generic g =>
      obtain ⟨n, bound⟩ := g
      cases bound with
      | eq inner => exact h inner (List.mem_singleton_self inner)
      | sub => rfl
  | func ty =>
      have hmap := List.map_congr_left (l := ty.params ++ ty.result.toList) fun part hmem =>
        hvalue part (FuncType.part_refs hmem)
      simp only [Ty.expandedSize, hmap]
  | resource id => rfl
  | component ty =>
      have himports : ty.imports.map (·.2.expandedSize size) =
          ty.imports.map (·.2.expandedSize size') := by
        apply List.map_congr_left
        rintro ⟨name, import_⟩ hmem
        cases import_ with
        | coreModule ty => rfl
        | type id generic => exact h id (ComponentType.import_refs hmem (List.mem_cons_self ..))
      have hexports := List.map_congr_left fun export_ (hmem : export_ ∈ ty.exports) =>
        hexport export_.2 (ComponentType.export_refs hmem)
      simp only [Ty.expandedSize, himports, hexports]
  | «instance» ty =>
      have hexports := List.map_congr_left fun export_ (hmem : export_ ∈ ty.exports) =>
        hexport export_.2 (InstanceType.export_refs hmem)
      simp only [Ty.expandedSize, hexports]

theorem standsForFlags_congr {flags flags' : TypeId → Bool} {ty : Ty M}
    (h : ∀ ref ∈ ty.refs, flags ref = flags' ref) :
    ty.standsForFlags flags = ty.standsForFlags flags' := by
  cases ty with
  | defVal ty =>
      cases ty with
      | own id => exact h id (List.mem_singleton_self id)
      | borrow id => exact h id (List.mem_singleton_self id)
      | _ => rfl
  | generic g =>
      obtain ⟨n, bound⟩ := g
      cases bound with
      | eq inner => exact h inner (List.mem_singleton_self inner)
      | sub => rfl
  | _ => rfl

private theorem any_congr_mem {ι : Type} {p q : ι → Bool} {xs : List ι}
    (h : ∀ x ∈ xs, p x = q x) : xs.any p = xs.any q := by
  have hmap := congrArg (List.any · id) (List.map_congr_left h)
  simpa only [List.any_map, Function.comp_def, id] using hmap

theorem holdsHandle_congr {handle handle' : TypeId → Bool} {ty : Ty M}
    (h : ∀ ref ∈ ty.refs, handle ref = handle' ref) :
    ty.holdsHandle handle = ty.holdsHandle handle' := by
  have hvalue : ∀ inner : ValType, inner.refs ⊆ ty.refs →
      inner.holdsHandle handle = inner.holdsHandle handle' := by
    intro inner hsub
    cases inner with
    | primitive prim => rfl
    | type id => exact h id (hsub (List.mem_singleton_self id))
  cases ty with
  | defVal ty =>
      cases ty with
      | record fields =>
          apply any_congr_mem
          intro field hmem
          exact hvalue field.ty (DefValType.field_refs hmem)
      | variant cases =>
          apply any_congr_mem
          intro case hmem
          cases hty : case.ty with
          | none => rfl
          | some ty => exact hvalue ty (DefValType.case_refs hmem hty)
      | list elem len => exact hvalue elem (List.Subset.refl _)
      | _ => rfl
  | generic g =>
      obtain ⟨n, bound⟩ := g
      cases bound with
      | eq inner => exact h inner (List.mem_singleton_self inner)
      | sub => rfl
  | _ => rfl

theorem children_subset_refs (ty : Ty M) : ty.children ⊆ ty.refs := by
  cases ty with
  | component ty =>
      intro ref hmem
      rcases List.mem_append.mp hmem with hmem | hmem
      · obtain ⟨⟨name, import_⟩, hin, href⟩ := List.mem_flatMap.mp hmem
        apply ComponentType.import_refs hin
        cases import_ with
        | coreModule ty => cases href
        | type id generic =>
            rw [List.mem_singleton.mp href]
            exact List.mem_cons_self ..
      · exact List.mem_append_right _ hmem
  | defVal ty => exact List.Subset.refl _
  | generic g => exact List.Subset.refl _
  | func ty => exact List.Subset.refl _
  | resource id => exact List.Subset.refl _
  | «instance» ty => exact List.Subset.refl _

theorem owners_congr {owners owners' : TypeId → Finset ScopeId} {owner : ScopeId} {ty : Ty M}
    (h : ∀ ref ∈ ty.refs, owners ref = owners' ref) :
    ty.owners owner owners = ty.owners owner owners' := by
  have hover : ownersOver owners ty.children = ownersOver owners' ty.children := by
    apply Finset.biUnion_congr rfl
    intro ref hmem
    exact h ref (children_subset_refs ty (List.mem_toFinset.mp hmem))
  cases ty with
  | resource id => rfl
  | defVal ty => exact hover
  | generic g => exact hover
  | func ty => exact hover
  | component ty => exact hover
  | «instance» ty => exact hover

def Ranked (types : List (Ty M)) (rank : TypeId → Nat) : Prop :=
  ∀ (id : Nat) ty, types[id]? = some ty → ∀ ref ∈ ty.refs, ref < types.length ∧ rank ref < rank id

def Acyclic (types : List (Ty M)) : Prop := ∃ rank, Ranked types rank

theorem Acyclic.ranked {types : List (Ty M)} (h : Acyclic types) :
    ∃ rank, Ranked types rank ∧ ∀ id < types.length, rank id < types.length := by
  obtain ⟨rank, hrank⟩ := h
  refine ⟨Lib.height rank types.length, ?_, fun id hid => Lib.height_lt hid⟩
  intro id ty hty ref href
  obtain ⟨hlt, hless⟩ := hrank id ty hty ref href
  exact ⟨hlt, Lib.height_lt_height hlt hless⟩

variable {types : List (Ty M)} {step : (TypeId → α) → TypeId → Ty M → α} {cut : α}

def Local (step : (TypeId → α) → TypeId → Ty M → α) : Prop :=
  ∀ id ty f g, (∀ ref ∈ ty.refs, f ref = g ref) → step f id ty = step g id ty

theorem plain_grounded (cut : α) {rank : TypeId → Nat} (hrank : Ranked types rank) (hlocal : Local step) :
    Grounded (fun value id => match types[id]? with
      | some ty => step value id ty
      | none => cut) (· < types.length) rank := by
  intro id _ f g hbelow
  dsimp only
  cases hty : types[id]? with
  | none => rfl
  | some ty =>
      apply hlocal id ty
      intro ref href
      obtain ⟨hlt, hless⟩ := hrank id ty hty ref href
      exact hbelow ref hlt hless

theorem plain_eq (h : Acyclic types) (hlocal : Local step) {id : TypeId} {ty : Ty M}
    (hty : types[id]? = some ty) :
    plain types step cut types.length id = step (plain types step cut types.length) id ty := by
  obtain ⟨rank, hrank, hbound⟩ := h.ranked
  have hid : id < types.length := (List.getElem?_eq_some_iff.mp hty).1
  have hsolves := (plain_grounded cut hrank hlocal).unrolled_eq cut hid (hbound id hid)
  rw [hty] at hsolves
  exact hsolves

theorem Acyclic.append (h : Acyclic types) {ty : Ty M} (hrefs : ∀ ref ∈ ty.refs, ref < types.length) :
    Acyclic (types ++ [ty]) := by
  obtain ⟨rank, hrank, hbound⟩ := h.ranked
  refine ⟨fun id => if id < types.length then rank id else types.length, ?_⟩
  intro id ty' hty' ref href
  rcases Nat.lt_trichotomy id types.length with hlt | rfl | hlt
  · rw [List.getElem?_append_left hlt] at hty'
    obtain ⟨hin, hless⟩ := hrank id ty' hty' ref href
    simp only [List.length_append, List.length_singleton, hin, hlt, if_true]
    exact ⟨by omega, hless⟩
  · rw [List.getElem?_concat_length] at hty'
    obtain rfl := Option.some.inj hty'
    have hin := hrefs ref href
    simp only [List.length_append, List.length_singleton, hin, if_true, Nat.lt_irrefl, if_false]
    exact ⟨by omega, hbound ref hin⟩
  · rw [List.getElem?_eq_none (by simp; omega)] at hty'
    cases hty'

/-- A type that is added leaves what is found for the others as it was. -/
theorem plain_append (h : Acyclic types) (hlocal : Local step) {ty : Ty M}
    (hrefs : ∀ ref ∈ ty.refs, ref < types.length) {id : TypeId} (hid : id < types.length) :
    plain (types ++ [ty]) step cut (types ++ [ty]).length id =
      plain types step cut types.length id := by
  obtain ⟨rank, hrank, -⟩ := h.ranked
  apply (plain_grounded cut hrank hlocal).unique ?_ ?_ id hid
  · intro n hn
    have hty : types[n]? = some types[n] := List.getElem?_eq_getElem hn
    rw [hty]
    apply plain_eq (h.append hrefs) hlocal
    rw [List.getElem?_append_left hn, hty]
  · intro n hn
    have hty : types[n]? = some types[n] := List.getElem?_eq_getElem hn
    rw [hty]
    exact plain_eq h hlocal hty

end solution

end Telomere.Component
