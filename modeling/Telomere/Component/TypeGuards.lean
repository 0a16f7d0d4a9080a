import Telomere.Component.SummaryQueries

/-!
# The limit on type sizes

Types come into the arena at many places of the decoder. Most check the size of what they add; the
declarations of instance types and the instantiation of components do not. Where the types these
add are within the limit, all are; and a walk over a type that shares nothing visits a number of
types that is bounded by the limit, unless lists of length zero hide the size of their elements.
-/

namespace Telomere.Component

variable {M : Type}

open Lib (Gives)
open Walk

namespace Validating

def newGuardedType (ty : Ty M) : Validating M TypeId := do
  let id ← newType ty
  validateEffectiveTypeSize id
  return id

/-- A type of a type section, as `parse_type` returns it. -/
def parseTypeSection (ty : Ty M) : Validating M TypeId := newGuardedType ty

def parseComponentSection (ty : ComponentType M) : Validating M TypeId :=
  newGuardedType (.component ty)

/-- A type declared in an instance type or in a component type. -/
def parseInstanceDecl (ty : Ty M) : Validating M TypeId := newType ty

/-- An abstract type of an import, of an import of a component type or of an export declaration. -/
def addSub (generic : Nat) : Validating M TypeId := newType (.generic ⟨generic, .sub⟩)

def parseInstantiate (exports : List (String × ExportType M)) : Validating M TypeId :=
  newType (.instance ⟨exports⟩)

def parseInlineexport (exports : List (String × ExportType M)) : Validating M TypeId :=
  newGuardedType (.instance ⟨exports⟩)

/-- The type that `instantiate_type_id` makes of another. -/
def instantiateTypeId (cloned : Ty M) : Validating M TypeId := newGuardedType cloned

def freshenImportTypeId (cloned : Ty M) : Validating M TypeId := newGuardedType cloned

def instantiateSubResourceType (resource : Nat) : Validating M TypeId :=
  newGuardedType (.resource resource)

end Validating

/-- What the decoder does to the arena, in the order in which it reads the component. -/
inductive Addition (M : Type) where
  | typeSection (ty : Ty M)
  | component (ty : ComponentType M)
  | instanceDecl (ty : Ty M)
  | sub (generic : Nat)
  | instantiate (exports : List (String × ExportType M))
  | inlineExport (exports : List (String × ExportType M))
  | instantiateType (cloned : Ty M)
  | freshenImport (cloned : Ty M)
  | subResource (resource : Nat)
  | containsResourceHandle (id : TypeId)
  | resourceOwners (id : TypeId)

namespace Addition

def run (owner : TypeId → ScopeId) : Addition M → Validating M Unit
  | .typeSection ty => discard (Validating.parseTypeSection ty)
  | .component ty => discard (Validating.parseComponentSection ty)
  | .instanceDecl ty => discard (Validating.parseInstanceDecl ty)
  | .sub generic => discard (Validating.addSub generic)
  | .instantiate exports => discard (Validating.parseInstantiate exports)
  | .inlineExport exports => discard (Validating.parseInlineexport exports)
  | .instantiateType cloned => discard (Validating.instantiateTypeId cloned)
  | .freshenImport cloned => discard (Validating.freshenImportTypeId cloned)
  | .subResource resource => discard (Validating.instantiateSubResourceType resource)
  | .containsResourceHandle id => discard (query containsResourceHandleWithTracker id)
  | .resourceOwners id => discard (query (resourceOwnerSummary owner) id)

def ty : Addition M → Option (Ty M)
  | .typeSection ty | .instanceDecl ty | .instantiateType ty | .freshenImport ty => some ty
  | .component ty => some (.component ty)
  | .sub generic => some (.generic ⟨generic, .sub⟩)
  | .instantiate exports | .inlineExport exports => some (.instance ⟨exports⟩)
  | .subResource resource => some (.resource resource)
  | .containsResourceHandle _ | .resourceOwners _ => none

def types (before : List (Ty M)) (step : Addition M) : List (Ty M) := before ++ step.ty.toList

/-- The ids the decoder works with come out of its scopes, so they stand for types of the arena. -/
def Resolved (before : List (Ty M)) : Addition M → Prop
  | .containsResourceHandle id | .resourceOwners id => id < before.length
  | step => ∀ ty, step.ty = some ty → ∀ ref ∈ ty.refs, ref < before.length

def Small (before : List (Ty M)) : Addition M → Prop
  | .instanceDecl ty => ty.expandedSize (exactSize before) ≤ effectiveTypeSizeLimit
  | .instantiate exports =>
      (Ty.instance ⟨exports⟩ : Ty M).expandedSize (exactSize before) ≤ effectiveTypeSizeLimit
  | _ => True

end Addition

def runAdditions (owner : TypeId → ScopeId) : List (Addition M) → Validating M Unit
  | [] => return
  | step :: steps => do
      step.run owner
      runAdditions owner steps

def AllSteps (P : List (Ty M) → Addition M → Prop) : List (Ty M) → List (Addition M) → Prop
  | _, [] => True
  | before, step :: steps => P before step ∧ AllSteps P (step.types before) steps

section sizes

variable {owner : TypeId → ScopeId} {types : List (Ty M)} {slots slots' : Slots M}

/-- An arena the decoder has filled: what is kept is right, and no type is above the limit. -/
structure Limited (owner : TypeId → ScopeId) (types : List (Ty M)) (slots : Slots M) : Prop where
  acyclic : Acyclic types
  summarized : Summarized owner types slots
  sizes : ∀ id < types.length, exactSize types id ≤ effectiveTypeSizeLimit

theorem exactSize_append_old (hacyclic : Acyclic types) {ty : Ty M}
    (hrefs : ∀ ref ∈ ty.refs, ref < types.length) {id : TypeId} (hid : id < types.length) :
    exactSize (types ++ [ty]) id = exactSize types id :=
  plain_append hacyclic local_expandedSize hrefs hid

theorem exactSize_append_new (hacyclic : Acyclic types) {ty : Ty M}
    (hrefs : ∀ ref ∈ ty.refs, ref < types.length) :
    exactSize (types ++ [ty]) types.length = ty.expandedSize (exactSize types) := by
  rw [exactSize_eq (hacyclic.append hrefs) List.getElem?_concat_length]
  apply expandedSize_congr
  intro ref href
  exact exactSize_append_old hacyclic hrefs (hrefs ref href)

theorem Limited.append (h : Limited owner types slots) {ty : Ty M}
    (hrefs : ∀ ref ∈ ty.refs, ref < types.length)
    (hsummarized : Summarized owner (types ++ [ty]) slots')
    (hsize : ty.expandedSize (exactSize types) ≤ effectiveTypeSizeLimit) :
    Limited owner (types ++ [ty]) slots' where
  acyclic := h.acyclic.append hrefs
  summarized := hsummarized
  sizes := by
    intro id hid
    rw [List.length_append, List.length_singleton] at hid
    rcases Nat.lt_succ_iff_lt_or_eq.mp hid with hlt | rfl
    · rw [exactSize_append_old h.acyclic hrefs hlt]
      exact h.sizes id hlt
    · rw [exactSize_append_new h.acyclic hrefs]
      exact hsize

theorem newType_limited (h : Limited owner types slots) {ty : Ty M} {id : TypeId}
    (hrefs : ∀ ref ∈ ty.refs, ref < types.length)
    (hsize : ty.expandedSize (exactSize types) ≤ effectiveTypeSizeLimit)
    (hok : newType ty slots = .ok (id, slots')) : Limited owner (types ++ [ty]) slots' := by
  obtain ⟨slots₁, hadd, hsummarized⟩ := newType_gives h.summarized h.acyclic hrefs
  rw [hadd] at hok
  cases hok
  exact h.append hrefs hsummarized hsize

/-- The check is on the size up to the ceiling, which the limit is below. -/
theorem le_limit_of_capped {flags : Bool} {size : Nat}
    (h : ¬cappedSize flags size > effectiveTypeSizeLimit) : size ≤ effectiveTypeSizeLimit := by
  unfold cappedSize effectiveTypeSizeCeiling at h
  unfold effectiveTypeSizeLimit at *
  split at h <;> omega

theorem newGuardedType_limited (h : Limited owner types slots) {ty : Ty M} {id : TypeId}
    (hrefs : ∀ ref ∈ ty.refs, ref < types.length)
    (hok : Validating.newGuardedType ty slots = .ok (id, slots')) :
    Limited owner (types ++ [ty]) slots' := by
  obtain ⟨slots₁, hadd, hsummarized⟩ := newType_gives h.summarized h.acyclic hrefs
  have hlt : types.length < (types ++ [ty]).length := by simp
  obtain ⟨slots₂, hsize, hkept⟩ :=
    computeEffectiveTypeSize_gives (h.acyclic.append hrefs) hlt slots₁ hsummarized
  obtain ⟨id', slots₃, hadd', hok⟩ := Lib.run_bind_eq_ok.mp hok
  rw [hadd] at hadd'
  cases hadd'
  obtain ⟨_, slots₄, hvalid, hok⟩ := Lib.run_bind_eq_ok.mp hok
  unfold validateEffectiveTypeSize at hvalid
  obtain ⟨size, slots₅, hfound, hcheck⟩ := Lib.run_bind_eq_ok.mp hvalid
  rw [hsize] at hfound
  cases hfound
  obtain ⟨rfl, rfl⟩ := Lib.run_pure_eq_ok.mp hok
  by_cases hlarge : summarySize (types ++ [ty]) types.length > effectiveTypeSizeLimit
  · rw [if_pos hlarge] at hcheck
    cases hcheck
  · rw [if_neg hlarge] at hcheck
    obtain ⟨-, rfl⟩ := Lib.run_pure_eq_ok.mp hcheck
    apply h.append hrefs hkept
    rw [← exactSize_append_new h.acyclic hrefs]
    exact le_limit_of_capped hlarge

theorem discard_eq_ok {α : Type} {x : Validating M α} (hok : discard x slots = .ok ((), slots')) :
    ∃ a, x slots = .ok (a, slots') := by
  unfold discard at hok
  change (x >>= fun _ => pure ()) slots = _ at hok
  obtain ⟨a, slots₁, hx, hrest⟩ := Lib.run_bind_eq_ok.mp hok
  obtain ⟨-, rfl⟩ := Lib.run_pure_eq_ok.mp hrest
  exact ⟨a, hx⟩

theorem query_limited {α : Type} {x : Validating M α} {value : α} (h : Limited owner types slots)
    (hgives : Gives (Summarized owner types) x value)
    (hok : discard x slots = .ok ((), slots')) : Limited owner types slots' := by
  obtain ⟨a, hx⟩ := discard_eq_ok hok
  obtain ⟨slots₁, hfound, hsummarized⟩ := hgives slots h.summarized
  rw [hfound] at hx
  cases hx
  exact ⟨h.acyclic, hsummarized, h.sizes⟩

theorem Addition.run_limited (h : Limited owner types slots) {step : Addition M}
    (hresolved : step.Resolved types) (hsmall : step.Small types)
    (hok : step.run owner slots = .ok ((), slots')) :
    Limited owner (step.types types) slots' := by
  have hguarded : ∀ {ty : Ty M}, (∀ ref ∈ ty.refs, ref < types.length) →
      discard (Validating.newGuardedType ty) slots = .ok ((), slots') →
        Limited owner (types ++ [ty]) slots' := by
    intro ty hrefs hok
    obtain ⟨id, hadd⟩ := discard_eq_ok hok
    exact newGuardedType_limited h hrefs hadd
  cases step with
  | typeSection ty => exact hguarded (hresolved ty rfl) hok
  | component ty => exact hguarded (hresolved _ rfl) hok
  | instanceDecl ty =>
      obtain ⟨id, hadd⟩ := discard_eq_ok hok
      exact newType_limited h (hresolved ty rfl) hsmall hadd
  | sub generic =>
      obtain ⟨id, hadd⟩ := discard_eq_ok hok
      have hone : (Ty.generic ⟨generic, .sub⟩ : Ty M).expandedSize (exactSize types) ≤
          effectiveTypeSizeLimit := by
        change 1 ≤ 1000000
        decide
      exact newType_limited h (hresolved _ rfl) hone hadd
  | instantiate exports =>
      obtain ⟨id, hadd⟩ := discard_eq_ok hok
      exact newType_limited h (hresolved _ rfl) hsmall hadd
  | inlineExport exports => exact hguarded (hresolved _ rfl) hok
  | instantiateType cloned => exact hguarded (hresolved _ rfl) hok
  | freshenImport cloned => exact hguarded (hresolved _ rfl) hok
  | subResource resource => exact hguarded (hresolved _ rfl) hok
  | containsResourceHandle id =>
      change Limited owner (types ++ []) slots'
      rw [List.append_nil]
      exact query_limited h (containsResourceHandle_gives h.acyclic hresolved) hok
  | resourceOwners id =>
      change Limited owner (types ++ []) slots'
      rw [List.append_nil]
      exact query_limited h (resourceOwnerSummary_gives h.acyclic hresolved) hok

theorem runAdditions_limited {steps : List (Addition M)} (h : Limited owner types slots)
    (hresolved : AllSteps (fun before step => step.Resolved before) types steps)
    (hsmall : AllSteps (fun before step => step.Small before) types steps)
    (hok : runAdditions owner steps slots = .ok ((), slots')) :
    ∃ types', Limited owner types' slots' := by
  induction steps generalizing types slots with
  | nil =>
      obtain ⟨-, rfl⟩ := Lib.run_pure_eq_ok.mp hok
      exact ⟨types, h⟩
  | cons step steps ih =>
      obtain ⟨_, slots₁, hfirst, hrest⟩ := Lib.run_bind_eq_ok.mp hok
      have hlimited := Addition.run_limited h hresolved.1 hsmall.1 hfirst
      exact ih hlimited hresolved.2 hsmall.2 hrest

theorem Acyclic.nil : Acyclic ([] : List (Ty M)) := by
  refine ⟨id, ?_⟩
  intro id ty hty
  cases hty

theorem Limited.empty : Limited owner ([] : List (Ty M)) [] where
  acyclic := Acyclic.nil
  summarized := Summarized.new owner []
  sizes := by intro id hid; simp at hid

end sizes

/-- How many types a walk comes to that goes over shared types again. -/
def visits (types : List (Ty M)) (id : TypeId) : Nat :=
  plain types (fun visits _ ty => 1 + (ty.children.map visits).sum) 0 types.length id

def Ty.EmptyList : Ty M → Prop
  | .defVal (.list _ (some 0)) => True
  | _ => False

section walks

variable {types : List (Ty M)}

theorem local_visits :
    Local fun (visits : TypeId → Nat) _ (ty : Ty M) => 1 + (ty.children.map visits).sum := by
  intro id ty f g h
  have hmap : ty.children.map f = ty.children.map g :=
    List.map_congr_left fun ref hmem => h ref (children_subset_refs ty hmem)
  exact congrArg (fun sizes => 1 + sizes.sum) hmap

theorem visits_eq (hacyclic : Acyclic types) {id : Nat} {ty : Ty M} (hty : types[id]? = some ty) :
    visits types id = 1 + (ty.children.map (visits types)).sum :=
  plain_eq hacyclic local_visits hty

/-- The references of the parts of a type weigh no more than the parts. -/
theorem sum_flatMap_le {ι : Type} {size : TypeId → Nat} {refs : ι → List TypeId} {weight : ι → Nat}
    (xs : List ι) (h : ∀ x ∈ xs, ((refs x).map size).sum ≤ weight x) :
    ((xs.flatMap refs).map size).sum ≤ (xs.map weight).sum := by
  induction xs with
  | nil => simp
  | cons x xs ih =>
      have hfirst := h x (List.mem_cons_self ..)
      have hrest := ih fun x' hmem => h x' (List.mem_cons_of_mem _ hmem)
      rw [List.flatMap_cons, List.map_append, List.sum_append, List.map_cons, List.sum_cons]
      omega

theorem valtype_weight (size : TypeId → Nat) (ty : ValType) :
    (ty.refs.map size).sum ≤ ty.expandedSize size := by
  cases ty <;> simp [ValType.refs, ValType.expandedSize]

theorem export_weight (size : TypeId → Nat) (export_ : ExportType M) :
    (export_.refs.map size).sum ≤ export_.expandedSize size := by
  cases export_ <;> simp [ExportType.refs, ExportType.expandedSize]

theorem import_weight (size : TypeId → Nat) (import_ : ComponentImportType M) :
    (import_.typeRefs.map size).sum ≤ import_.expandedSize size := by
  cases import_ <;> simp [ComponentImportType.typeRefs, ComponentImportType.expandedSize]

theorem case_weight (size : TypeId → Nat) (case : Case) :
    (((case.ty.map ValType.refs).getD []).map size).sum ≤
      (case.ty.map (·.expandedSize size)).getD 1 := by
  cases hty : case.ty with
  | none => simp
  | some ty => exact valtype_weight size ty

theorem children_weight (size : TypeId → Nat) {ty : Ty M} (hlist : ¬ty.EmptyList) :
    (ty.children.map size).sum ≤ ty.expandedSize size := by
  cases ty with
  | defVal ty =>
      cases ty with
      | record fields =>
          have hparts := sum_flatMap_le fields fun field _ => valtype_weight size field.ty
          exact hparts.trans (Nat.le_add_left ..)
      | variant cases =>
          have hparts := sum_flatMap_le cases fun case _ => case_weight size case
          exact hparts.trans (Nat.le_add_left ..)
      | list elem len =>
          have helem := valtype_weight size elem
          cases len with
          | none => exact helem.trans (Nat.le_add_right ..)
          | some len =>
              cases len with
              | zero => exact absurd trivial hlist
              | succ len => exact helem.trans (Nat.le_mul_of_pos_right _ (Nat.succ_pos len))
      | own id | borrow id =>
          simp [Ty.children, Ty.refs, DefValType.refs, Ty.expandedSize, DefValType.expandedSize]
      | primitive prim | flags labels => exact Nat.zero_le _
  | generic g =>
      obtain ⟨n, bound⟩ := g
      cases bound <;> simp [Ty.children, Ty.refs, GenericBound.refs, Ty.expandedSize]
  | func ty =>
      have hrefs : (Ty.func ty : Ty M).refs = (ty.params ++ ty.result.toList).flatMap ValType.refs :=
        FuncType.refs_eq ty
      have hparts := sum_flatMap_le (ty.params ++ ty.result.toList)
        fun part _ => valtype_weight size part
      change ((Ty.func ty : Ty M).refs.map size).sum ≤ _
      rw [hrefs]
      exact hparts.trans (Nat.le_add_left ..)
  | resource id => exact Nat.zero_le _
  | component ty =>
      have himports := sum_flatMap_le ty.imports fun import_ _ => import_weight size import_.2
      have hexports := sum_flatMap_le ty.exports fun export_ _ => export_weight size export_.2
      simp only [Ty.children, Ty.expandedSize, List.map_append, List.sum_append]
      omega
  | «instance» ty =>
      have hexports := sum_flatMap_le ty.exports fun export_ _ => export_weight size export_.2
      exact hexports.trans (Nat.le_add_left ..)

theorem expandedSize_pos (size : TypeId → Nat) {ty : Ty M} (hlist : ¬ty.EmptyList)
    (h : ∀ ref ∈ ty.refs, 0 < size ref) : 0 < ty.expandedSize size := by
  have hvalue : ∀ inner : ValType, inner.refs ⊆ ty.refs → 0 < inner.expandedSize size := by
    intro inner hsub
    cases inner with
    | primitive prim => exact Nat.one_pos
    | type id => exact h id (hsub (List.mem_singleton_self id))
  cases ty with
  | defVal ty =>
      cases ty with
      | list elem len =>
          have helem := hvalue elem (List.Subset.refl _)
          cases len with
          | none => exact Nat.succ_pos _
          | some len =>
              cases len with
              | zero => exact absurd trivial hlist
              | succ len => exact Nat.mul_pos helem (Nat.succ_pos len)
      | own id => exact h id (List.mem_singleton_self id)
      | borrow id => exact h id (List.mem_singleton_self id)
      | primitive prim => exact Nat.one_pos
      | record fields | variant cases =>
          simp only [Ty.expandedSize, DefValType.expandedSize]
          omega
      | flags labels =>
          simp only [Ty.expandedSize, DefValType.expandedSize]
          omega
  | generic g =>
      obtain ⟨n, bound⟩ := g
      cases bound with
      | eq inner => exact h inner (List.mem_singleton_self inner)
      | sub => exact Nat.one_pos
  | resource id => exact Nat.one_pos
  | func ty | component ty | «instance» ty =>
      simp only [Ty.expandedSize]
      omega

theorem sum_map_mul_le {xs : List TypeId} {f g : TypeId → Nat} {k : Nat}
    (h : ∀ x ∈ xs, f x ≤ g x * k) : (xs.map f).sum ≤ (xs.map g).sum * k := by
  induction xs with
  | nil => simp
  | cons x xs ih =>
      have hfirst := h x (List.mem_cons_self ..)
      have hrest := ih fun x' hmem => h x' (List.mem_cons_of_mem _ hmem)
      rw [List.map_cons, List.sum_cons, List.map_cons, List.sum_cons, Nat.add_mul]
      omega

/-- A walk comes to a type at most once for every part of its size and every level below it. -/
theorem visits_le_ranked {rank : TypeId → Nat} (hrank : Ranked types rank)
    (hlists : ∀ ty ∈ types, ¬ty.EmptyList) (id : TypeId) (hid : id < types.length) :
    0 < exactSize types id ∧ visits types id ≤ exactSize types id * (rank id + 1) := by
  have hacyclic : Acyclic types := ⟨rank, hrank⟩
  induction hk : rank id using Nat.strong_induction_on generalizing id with
  | _ k ih =>
      have hty : types[id]? = some types[id] := List.getElem?_eq_getElem hid
      have hlist := hlists types[id] (List.getElem_mem hid)
      have hbelow : ∀ ref ∈ types[id].refs, 0 < exactSize types ref ∧
          visits types ref ≤ exactSize types ref * (rank ref + 1) := by
        intro ref href
        obtain ⟨hlt, hless⟩ := hrank id _ hty ref href
        exact ih (rank ref) (hk ▸ hless) ref hlt rfl
      have hpos := expandedSize_pos (exactSize types) hlist fun ref href =>
        (hbelow ref href).1
      rw [← exactSize_eq hacyclic hty] at hpos
      refine ⟨hpos, ?_⟩
      have hchildren : (types[id].children.map (visits types)).sum ≤
          (types[id].children.map (exactSize types)).sum * k := by
        apply sum_map_mul_le
        intro ref hmem
        have href := children_subset_refs _ hmem
        obtain ⟨-, hless⟩ := hrank id _ hty ref href
        exact (hbelow ref href).2.trans (Nat.mul_le_mul_left _ (hk ▸ hless))
      have hweight := children_weight (exactSize types) hlist
      rw [← exactSize_eq hacyclic hty] at hweight
      rw [visits_eq hacyclic hty, Nat.mul_add, Nat.mul_one]
      have hmul := Nat.mul_le_mul_right k hweight
      omega

theorem visits_le (hacyclic : Acyclic types) (hlists : ∀ ty ∈ types, ¬ty.EmptyList) {id : TypeId}
    (hid : id < types.length) : visits types id ≤ exactSize types id * types.length := by
  obtain ⟨rank, hrank, hbound⟩ := hacyclic.ranked
  have hvisits := (visits_le_ranked hrank hlists id hid).2
  exact hvisits.trans (Nat.mul_le_mul_left _ (hbound id hid))

end walks

def doubled : Nat → Ty M
  | 0 => .defVal (.record [⟨"0", .primitive .u8⟩, ⟨"1", .primitive .u8⟩])
  | n + 1 => .defVal (.record [⟨"0", .type n⟩, ⟨"1", .type n⟩])

theorem doubled_acyclic (n : Nat) : Acyclic ((List.range n).map doubled : List (Ty M)) := by
  induction n with
  | zero => exact Acyclic.nil
  | succ n ih =>
      rw [List.range_succ, List.map_append]
      apply ih.append
      intro ref href
      cases n with
      | zero => cases href
      | succ n =>
          simp [doubled, Ty.refs, DefValType.refs, ValType.refs] at href
          simp [href]

theorem doubled_size {types : List (Ty M)} (hacyclic : Acyclic types) (n : Nat)
    (hdoubled : ∀ i ≤ n, types[i]? = some (doubled i)) : exactSize types n + 1 = 2 ^ (n + 2) := by
  induction n with
  | zero =>
      rw [exactSize_eq hacyclic (hdoubled 0 (Nat.le_refl 0))]
      rfl
  | succ n ih =>
      have hbelow := ih fun i hi => hdoubled i (Nat.le_succ_of_le hi)
      have hsize : exactSize types (n + 1) = 1 + (exactSize types n + (exactSize types n + 0)) :=
        exactSize_eq hacyclic (hdoubled (n + 1) (Nat.le_refl _))
      rw [hsize, Nat.pow_succ]
      omega

/-- If what is added without a check is small, no type is above the limit, and no walk over a type
is longer than that allows. -/
theorem effectiveTypeSize_limited (owner : TypeId → ScopeId) (steps : List (Addition M))
    (slots : Slots M) (hok : runAdditions owner steps [] = .ok ((), slots))
    (hresolved : AllSteps (fun before step => step.Resolved before) [] steps)
    (hsmall : AllSteps (fun before step => step.Small before) [] steps) :
    ∀ id < slots.length, exactSize (slots.map (·.ty)) id ≤ effectiveTypeSizeLimit ∧
      ((∀ slot ∈ slots, ¬slot.ty.EmptyList) →
        visits (slots.map (·.ty)) id ≤ effectiveTypeSizeLimit * slots.length) := by
  obtain ⟨types, h⟩ := runAdditions_limited Limited.empty hresolved hsmall hok
  obtain rfl := h.summarized.types_eq
  intro id hid
  have hid' : id < (slots.map (·.ty)).length := by rwa [List.length_map]
  have hsize := h.sizes id hid'
  refine ⟨hsize, ?_⟩
  intro hlists
  have hvisits := visits_le h.acyclic (fun ty hmem => by
    obtain ⟨slot, hslot, rfl⟩ := List.mem_map.mp hmem
    exact hlists slot hslot) hid'
  rw [List.length_map] at hvisits
  exact hvisits.trans (Nat.mul_le_mul_right _ hsize)

/-- An instance type that declares a pair, then one that declares nothing. -/
theorem effectiveTypeSize_limited_pair :
    let slots : Slots Unit := [.new (doubled 0), ⟨.instance ⟨[]⟩, ⟨some 1, none, none⟩⟩]
    ∀ id < slots.length, exactSize (slots.map (·.ty)) id ≤ effectiveTypeSizeLimit ∧
      ((∀ slot ∈ slots, ¬slot.ty.EmptyList) →
        visits (slots.map (·.ty)) id ≤ effectiveTypeSizeLimit * slots.length) := by
  refine effectiveTypeSize_limited (fun _ => toLex (0, 0))
    [.instanceDecl (doubled 0), .typeSection (.instance ⟨[]⟩)] _ rfl ?_ ?_
  · refine ⟨?_, ?_, trivial⟩ <;> intro ty hty ref href <;> cases hty <;> cases href
  · refine ⟨?_, trivial, trivial⟩
    change 3 ≤ 1000000
    decide

/-- An instance type that declares nineteen pairs is accepted. -/
theorem doubled_accepted :
    let declarations := (List.range 19).map fun n => (.instanceDecl (doubled n) : Addition Unit)
    ∃ slots, runAdditions (fun _ => toLex (0, 0)) (declarations ++ [Addition.typeSection (.instance ⟨[]⟩)])
        [] = .ok ((), slots) ∧ effectiveTypeSizeLimit < exactSize (slots.map (·.ty)) 18 := by
  refine ⟨_, rfl, ?_⟩
  have hacyclic : Acyclic (((List.range 19).map doubled : List (Ty Unit)) ++ [Ty.instance ⟨[]⟩]) :=
    (doubled_acyclic 19).append fun ref href => by cases href
  have hsize := doubled_size hacyclic 18 (by decide)
  change 1000000 < exactSize (((List.range 19).map doubled : List (Ty Unit)) ++ [Ty.instance ⟨[]⟩]) 18
  omega

end Telomere.Component
