import Mathlib.Data.List.Nodup
import Mathlib.Data.Set.Lattice
import Telomere.Component.Types

/-!
# Subtypes

A component can stand for another when it needs no more imports, each of them at a supertype of
what is declared, and gives no fewer exports, each at a subtype of what is promised. Abstract
resources are found by name: those a component imports are what is given for them, whatever that is,
and those that are promised are the ones it exports. Two ways of comparing are told at once: subtypes
proper, and what remains to be seen of types that are made of the same.
-/

namespace Telomere.Component

variable {M : Type}

theorem TypeArena.namesNodup {a : TypeArena M} {id : TypeId} {ty : Ty M} (hget : a.types[id]? = some ty) :
    ty.NamesNodup :=
  a.names_nodup ty (List.mem_of_getElem? hget)

/-- What a resource type is at run time: one the arena has, or one it does not know. -/
inductive ActualResource where
  | known (id : Nat)
  | other (id : Nat)
deriving DecidableEq, Repr

/-- The abstract resources in whose scope a type stands, and what they are. -/
structure ResourceScope where
  outer : Set Nat
  actual : Nat → ActualResource

def ResourceScope.Extends (s : ResourceScope) (new : Set Nat) (t : ResourceScope) : Prop :=
  t.outer = s.outer ∪ new ∧ ∀ g ∈ s.outer, t.actual g = s.actual g

def Ty.actual (s : ResourceScope) : Ty M → Option ActualResource
  | .resource id => some (.known id)
  | .generic ⟨g, .sub⟩ => some (s.actual g)
  | _ => none

def Generic.actual (a : TypeArena M) (s : ResourceScope) : Generic → Option ActualResource
  | ⟨g, .sub⟩ => some (s.actual g)
  | ⟨_, .eq id⟩ => (a.get id).bind (·.actual s)

/-- The abstract resources that a type gives a name to: itself, or one among the exports of an
instance. -/
inductive Shows (a : TypeArena M) : TypeId → Nat → Prop
  | generic {id : TypeId} {g : Nat} (hget : a.get id = some (.generic ⟨g, .sub⟩)) : Shows a id g
  | type {id ref : TypeId} {ty : InstanceType M} {name : String} {g : Nat}
      (hget : a.get id = some (.instance ty)) (hmem : (name, .type ref) ∈ ty.exports)
      (h : Shows a ref g) : Shows a id g
  | instance {id ref : TypeId} {ty : InstanceType M} {name : String} {g : Nat}
      (hget : a.get id = some (.instance ty)) (hmem : (name, .instance ref) ∈ ty.exports)
      (h : Shows a ref g) : Shows a id g

def ComponentType.importedResources (a : TypeArena M) (ty : ComponentType M) : Set Nat :=
  {g | ∃ name id generic, (name, .type id generic) ∈ ty.imports ∧
    (generic = ⟨g, .sub⟩ ∨ ∃ ref, generic.bound = .eq ref ∧ Shows a ref g)}

def ComponentType.exportedResources (a : TypeArena M) (ty : ComponentType M) : Set Nat :=
  {g | ∃ name id, ((name, .type id) ∈ ty.exports ∨ (name, .instance id) ∈ ty.exports) ∧
    Shows a id g}

/-- What values and functions are made of, without the types of their parts. -/
inductive Head where
  | primitive (prim : PrimValType)
  | record (labels : List Label)
  | variant (cases : List (Label × Bool))
  | flags (labels : List Label)
  | list (len : Option Nat)
  | own
  | borrow
  | func (params : Nat) (result : Bool)
deriving DecidableEq, Repr

def DefValType.head : DefValType → Head
  | .primitive prim => .primitive prim
  | .record fields => .record (fields.map (·.label))
  | .variant cases => .variant (cases.map fun case => (case.label, case.ty.isSome))
  | .flags labels => .flags labels
  | .list _ len => .list len
  | .own _ => .own
  | .borrow _ => .borrow

def DefValType.parts : DefValType → List (Option ValType)
  | .primitive _ | .flags _ => []
  | .record fields => fields.map fun field => some field.ty
  | .variant cases => cases.map (·.ty)
  | .list ty _ => [some ty]
  | .own id | .borrow id => [some (.type id)]

def Ty.head : Ty M → Option Head
  | .defVal ty => some ty.head
  | .func ty => some (.func ty.params.length ty.result.isSome)
  | _ => none

def Ty.parts : Ty M → List (Option ValType)
  | .defVal ty => ty.parts
  | .func ty => ty.params.map some ++ [ty.result]
  | _ => []

def TypeArena.part (a : TypeArena M) : ValType → Option (Ty M)
  | .type id => a.get id
  | .primitive prim => some (.defVal (.primitive prim))

section relations

variable (a : TypeArena M) (strict : Bool)

mutual

/-- Two types are walked at once. Resources are the same, and the parts of values and functions are
compared, strictly also what they are made of. An instance is compared by its exports. A component
is compared for whatever the resources are that the second one imports and that the first one
exports: those the first one imports and the second one exports are found for them, imports are
compared the other way round, and both are one component further down. Strictly, all names are
there; else only below an odd number of components. -/
inductive Compare : Bool → ResourceScope → ResourceScope → Ty M → Ty M → Prop
  | resource {odd : Bool} {s t : ResourceScope} {x y : Ty M} {r : ActualResource}
      (hx : x.actual s = some r) (hy : y.actual t = some r) : Compare odd s t x y
  | node {odd : Bool} {s t : ResourceScope} {x y : Ty M} {head : Head} (hx : x.head = some head)
      (hy : strict = true → y.head = some head)
      (parts : ∀ (i : Nat) v w x' y', x.parts[i]? = some (some v) → y.parts[i]? = some (some w) →
        a.part v = some x' → a.part w = some y' → Compare odd s t x' y') : Compare odd s t x y
  | component {odd : Bool} {s t : ResourceScope} {child parent : ComponentType M}
      (names : (strict || odd) = true → child.imports.map (·.1) ⊆ parent.imports.map (·.1) ∧
        parent.exports.map (·.1) ⊆ child.exports.map (·.1))
      (imported : ResourceScope → ResourceScope)
      (himported : ∀ t', t.Extends (parent.importedResources a) t' →
        s.Extends (child.importedResources a) (imported t'))
      (imports : ∀ t', t.Extends (parent.importedResources a) t' →
        ∀ name need given, (name, need) ∈ child.imports → (name, given) ∈ parent.imports →
          CompareImport (!odd) t' (imported t') given need)
      (exported : ResourceScope → ResourceScope → ResourceScope)
      (hexported : ∀ t' s', t.Extends (parent.importedResources a) t' →
        (imported t').Extends (child.exportedResources a) s' →
          t'.Extends (parent.exportedResources a) (exported t' s'))
      (exports : ∀ t' s', t.Extends (parent.importedResources a) t' →
        (imported t').Extends (child.exportedResources a) s' →
        ∀ name own promised, (name, own) ∈ child.exports → (name, promised) ∈ parent.exports →
          CompareExport (!odd) s' (exported t' s') own promised) :
      Compare odd s t (.component child) (.component parent)
  | instance {odd : Bool} {s t : ResourceScope} {child parent : InstanceType M}
      (names : (strict || odd) = true → parent.exports.map (·.1) ⊆ child.exports.map (·.1))
      (exports : ∀ name own promised, (name, own) ∈ child.exports →
        (name, promised) ∈ parent.exports → CompareExport odd s t own promised) :
      Compare odd s t (.instance child) (.instance parent)

inductive CompareId : Bool → ResourceScope → ResourceScope → TypeId → TypeId → Prop
  | types {odd : Bool} {s t : ResourceScope} {child parent : TypeId} {x y : Ty M}
      (hchild : a.get child = some x) (hparent : a.get parent = some y)
      (h : Compare odd s t x y) : CompareId odd s t child parent

inductive CompareImport : Bool → ResourceScope → ResourceScope → ComponentImportType M →
    ComponentImportType M → Prop
  | coreModule {odd : Bool} {s t : ResourceScope} (ty : M) :
      CompareImport odd s t (.coreModule ty) (.coreModule ty)
  | eq {odd : Bool} {s t : ResourceScope} {given need x y : TypeId} {g g' : Nat}
      (h : CompareId odd s t x y) :
      CompareImport odd s t (.type given ⟨g, .eq x⟩) (.type need ⟨g', .eq y⟩)
  | resource {odd : Bool} {s t : ResourceScope} {given need : TypeId} {g g' : Generic}
      {r : ActualResource} (hgiven : g.actual a s = some r) (hneed : g'.actual a t = some r) :
      CompareImport odd s t (.type given g) (.type need g')

inductive CompareExport : Bool → ResourceScope → ResourceScope → ExportType M → ExportType M → Prop
  | coreModule {odd : Bool} {s t : ResourceScope} (ty : M) :
      CompareExport odd s t (.coreModule ty) (.coreModule ty)
  | component {odd : Bool} {s t : ResourceScope} {x y : TypeId} (h : CompareId odd s t x y) :
      CompareExport odd s t (.component x) (.component y)
  | instance {odd : Bool} {s t : ResourceScope} {x y : TypeId} (h : CompareId odd s t x y) :
      CompareExport odd s t (.instance x) (.instance y)
  | type {odd : Bool} {s t : ResourceScope} {x y : TypeId} (h : CompareId odd s t x y) :
      CompareExport odd s t (.type x) (.type y)
  | func {odd : Bool} {s t : ResourceScope} {x y : TypeId} (h : CompareId odd s t x y) :
      CompareExport odd s t (.func x) (.func y)

end

end relations

section subtypes

variable (a : TypeArena M) (s t : ResourceScope)

/-- The first type can be used wherever the second is expected. -/
def Sub (x y : Ty M) : Prop := Compare a true false s t x y

def SubId (child parent : TypeId) : Prop := CompareId a true false s t child parent

/-- What keeps an accepted comparison right: resources that stand at one place are the same ones,
and below an odd number of components both sides have the same names. -/
def Right (x y : Ty M) : Prop := Compare a false false s t x y

def RightId (child parent : TypeId) : Prop := CompareId a false false s t child parent

end subtypes

section inversions

variable {a : TypeArena M} {strict odd : Bool} {s t : ResourceScope} {x y : Ty M}

theorem head_of_actual {r : ActualResource} (h : x.actual s = some r) : x.head = none := by
  cases x <;> first | rfl | cases h

theorem actual_of_head {head : Head} (h : x.head = some head) : x.actual s = none := by
  cases hactual : x.actual s with
  | none => rfl
  | some r => cases (head_of_actual hactual).symm.trans h

theorem compare_resource_iff {r r' : ActualResource} (hx : x.actual s = some r)
    (hy : y.actual t = some r') : Compare a strict odd s t x y ↔ r = r' := by
  constructor
  · intro h
    cases h with
    | resource hx' hy' =>
        rw [Option.some.inj (hx.symm.trans hx'), Option.some.inj (hy.symm.trans hy')]
    | node hhead _ _ => cases (head_of_actual hx).symm.trans hhead
    | component => cases hx
    | «instance» => cases hx
  · rintro rfl
    exact Compare.resource hx hy

def ComparePart (a : TypeArena M) (strict odd : Bool) (s t : ResourceScope) (v w : ValType) : Prop :=
  ∀ x y, a.part v = some x → a.part w = some y → Compare a strict odd s t x y

theorem compare_node_iff {head : Head} (hx : x.head = some head) (hy : y.head = some head) :
    Compare a strict odd s t x y ↔ ∀ (i : Nat) v w, x.parts[i]? = some (some v) →
      y.parts[i]? = some (some w) → ComparePart a strict odd s t v w := by
  constructor
  · intro h
    cases h with
    | resource hx' _ => cases (actual_of_head hx).symm.trans hx'
    | node _ _ parts => exact fun i v w hv hw x' y' hx' hy' => parts i v w x' y' hv hw hx' hy'
    | component => cases hx
    | «instance» => cases hx
  · intro h
    exact Compare.node hx (fun _ => hy) fun i v w x' y' hv hw hx' hy' => h i v w hv hw x' y' hx' hy'

theorem compareId_iff {child parent : TypeId} (hchild : a.get child = some x)
    (hparent : a.get parent = some y) :
    CompareId a strict odd s t child parent ↔ Compare a strict odd s t x y := by
  constructor
  · rintro ⟨hchild', hparent', h⟩
    obtain rfl := Option.some.inj (hchild.symm.trans hchild')
    obtain rfl := Option.some.inj (hparent.symm.trans hparent')
    exact h
  · exact CompareId.types hchild hparent

end inversions

section congruences

variable {a : TypeArena M} {odd : Bool} {s t : ResourceScope}

abbrev Agreed {α : Type} (compare : Bool → Bool → ResourceScope → ResourceScope → α → α → Prop)
    (odd : Bool) (s t : ResourceScope) (x y : α) : Prop :=
  compare true odd s t x y ↔ compare false odd s t x y

theorem agreed_ids {child parent : TypeId} {x y : Ty M} (hchild : a.get child = some x)
    (hparent : a.get parent = some y) (h : Agreed (Compare a) odd s t x y) :
    Agreed (CompareId a) odd s t child parent := by
  unfold Agreed
  rw [compareId_iff hchild hparent, compareId_iff hchild hparent]
  exact h

theorem agreed_node {x y : Ty M} {head : Head} (hx : x.head = some head) (hy : y.head = some head)
    (h : ∀ (i : Nat) v w, x.parts[i]? = some (some v) → y.parts[i]? = some (some w) →
      Agreed (ComparePart a) odd s t v w) : Agreed (Compare a) odd s t x y := by
  unfold Agreed
  rw [compare_node_iff hx hy, compare_node_iff hx hy]
  constructor
  · exact fun hparts i v w hv hw => (h i v w hv hw).mp (hparts i v w hv hw)
  · exact fun hparts i v w hv hw => (h i v w hv hw).mpr (hparts i v w hv hw)

theorem agreed_part {v w : ValType} (h : ∀ x y, a.part v = some x → a.part w = some y →
    Agreed (Compare a) odd s t x y) : Agreed (ComparePart a) odd s t v w := by
  constructor
  · exact fun hpart x y hx hy => (h x y hx hy).mp (hpart x y hx hy)
  · exact fun hpart x y hx hy => (h x y hx hy).mpr (hpart x y hx hy)

theorem agreed_primitive (prim : PrimValType) :
    Agreed (Compare a) odd s t (.defVal (.primitive prim)) (.defVal (.primitive prim)) :=
  agreed_node rfl rfl fun i v w hv _ => by cases hv

theorem agreed_resource {x y : Ty M} {r r' : ActualResource} (hx : x.actual s = some r)
    (hy : y.actual t = some r') : Agreed (Compare a) odd s t x y := by
  unfold Agreed
  rw [compare_resource_iff hx hy, compare_resource_iff hx hy]

theorem agreed_import {given need : ComponentImportType M}
    (h : ∀ id id' g g' x y, given = .type id ⟨g, .eq x⟩ → need = .type id' ⟨g', .eq y⟩ →
      Agreed (CompareId a) odd s t x y) : Agreed (CompareImport a) odd s t given need := by
  constructor
  · intro hcompare
    cases hcompare with
    | coreModule ty => exact .coreModule ty
    | eq hid => exact .eq ((h _ _ _ _ _ _ rfl rfl).mp hid)
    | resource hgiven hneed => exact .resource hgiven hneed
  · intro hcompare
    cases hcompare with
    | coreModule ty => exact .coreModule ty
    | eq hid => exact .eq ((h _ _ _ _ _ _ rfl rfl).mpr hid)
    | resource hgiven hneed => exact .resource hgiven hneed

theorem agreed_export {own promised : ExportType M}
    (h : ∀ x ∈ own.refs, ∀ y ∈ promised.refs, Agreed (CompareId a) odd s t x y) :
    Agreed (CompareExport a) odd s t own promised := by
  have href : ∀ id : Nat, id ∈ [id] := fun id => List.mem_singleton_self id
  constructor
  · intro hcompare
    cases hcompare with
    | coreModule ty => exact .coreModule ty
    | component hid => exact .component ((h _ (href _) _ (href _)).mp hid)
    | «instance» hid => exact .instance ((h _ (href _) _ (href _)).mp hid)
    | type hid => exact .type ((h _ (href _) _ (href _)).mp hid)
    | func hid => exact .func ((h _ (href _) _ (href _)).mp hid)
  · intro hcompare
    cases hcompare with
    | coreModule ty => exact .coreModule ty
    | component hid => exact .component ((h _ (href _) _ (href _)).mpr hid)
    | «instance» hid => exact .instance ((h _ (href _) _ (href _)).mpr hid)
    | type hid => exact .type ((h _ (href _) _ (href _)).mpr hid)
    | func hid => exact .func ((h _ (href _) _ (href _)).mpr hid)

theorem agreed_component {child parent : ComponentType M}
    (hnames : odd = false → child.imports.map (·.1) ⊆ parent.imports.map (·.1) ∧
      parent.exports.map (·.1) ⊆ child.exports.map (·.1))
    (himport : ∀ s t name need given, (name, need) ∈ child.imports →
      (name, given) ∈ parent.imports → Agreed (CompareImport a) (!odd) s t given need)
    (hexport : ∀ s t name own promised, (name, own) ∈ child.exports →
      (name, promised) ∈ parent.exports → Agreed (CompareExport a) (!odd) s t own promised) :
    Agreed (Compare a) odd s t (.component child) (.component parent) := by
  constructor
  · intro h
    cases h with
    | resource hx _ => cases hx
    | node hx _ _ => cases hx
    | component names imported himported imports exported hexported exports =>
        refine .component (fun _ => names rfl) imported himported ?_ exported hexported ?_
        · exact fun t' ht name need given hneed hgiven =>
            (himport _ _ name need given hneed hgiven).mp (imports t' ht name need given hneed hgiven)
        · exact fun t' s' ht hs name own promised hown hpromised =>
            (hexport _ _ name own promised hown hpromised).mp
              (exports t' s' ht hs name own promised hown hpromised)
  · intro h
    cases h with
    | resource hx _ => cases hx
    | node hx _ _ => cases hx
    | component names imported himported imports exported hexported exports =>
        refine .component (fun _ => ?_) imported himported ?_ exported hexported ?_
        · cases odd with
          | false => exact hnames rfl
          | true => exact names rfl
        · exact fun t' ht name need given hneed hgiven =>
            (himport _ _ name need given hneed hgiven).mpr
              (imports t' ht name need given hneed hgiven)
        · exact fun t' s' ht hs name own promised hown hpromised =>
            (hexport _ _ name own promised hown hpromised).mpr
              (exports t' s' ht hs name own promised hown hpromised)

theorem agreed_instance {child parent : InstanceType M}
    (hnames : odd = false → parent.exports.map (·.1) ⊆ child.exports.map (·.1))
    (hexport : ∀ name own promised, (name, own) ∈ child.exports →
      (name, promised) ∈ parent.exports → Agreed (CompareExport a) odd s t own promised) :
    Agreed (Compare a) odd s t (.instance child) (.instance parent) := by
  constructor
  · intro h
    cases h with
    | resource hx _ => cases hx
    | node hx _ _ => cases hx
    | «instance» names exports =>
        exact .instance (fun _ => names rfl) fun name own promised hown hpromised =>
          (hexport name own promised hown hpromised).mp (exports name own promised hown hpromised)
  · intro h
    cases h with
    | resource hx _ => cases hx
    | node hx _ _ => cases hx
    | «instance» names exports =>
        refine .instance (fun _ => ?_) fun name own promised hown hpromised =>
          (hexport name own promised hown hpromised).mpr (exports name own promised hown hpromised)
        cases odd with
        | false => exact hnames rfl
        | true => exact names rfl

end congruences

section self

variable {a : TypeArena M}

theorem Ty.part_refs {x : Ty M} {i : Nat} {v : ValType} (hv : x.parts[i]? = some (some v)) :
    v.refs ⊆ x.refs := by
  have hmem := List.mem_of_getElem? hv
  cases x with
  | defVal ty =>
      cases ty with
      | record fields =>
          obtain ⟨field, hfield, heq⟩ := List.mem_map.mp hmem
          rw [← Option.some.inj heq]
          exact DefValType.field_refs hfield
      | variant cases =>
          obtain ⟨case, hcase, heq⟩ := List.mem_map.mp hmem
          exact DefValType.case_refs hcase heq
      | list elem len =>
          rw [Option.some.inj (List.mem_singleton.mp hmem)]
          exact List.Subset.refl _
      | own id =>
          rw [Option.some.inj (List.mem_singleton.mp hmem)]
          exact List.Subset.refl _
      | borrow id =>
          rw [Option.some.inj (List.mem_singleton.mp hmem)]
          exact List.Subset.refl _
      | _ => cases hmem
  | func ty =>
      rcases List.mem_append.mp hmem with hmem | hmem
      · obtain ⟨param, hparam, heq⟩ := List.mem_map.mp hmem
        rw [← Option.some.inj heq]
        exact fun ref href => List.mem_append_left _ (List.mem_flatMap.mpr ⟨param, hparam, href⟩)
      · intro ref href
        refine List.mem_append_right _ ?_
        rw [← List.mem_singleton.mp hmem]
        exact href
  | _ => cases hmem

theorem entry_eq {α : Type} {entries : List (String × α)} (hnodup : (entries.map (·.1)).Nodup)
    {name : String} {x y : α} (hx : (name, x) ∈ entries) (hy : (name, y) ∈ entries) : x = y :=
  (Prod.mk.inj (List.inj_on_of_nodup_map hnodup hx hy rfl)).2

theorem ExportType.ref_eq {ty : ExportType M} {x y : TypeId} (hx : x ∈ ty.refs) (hy : y ∈ ty.refs) :
    x = y := by
  cases ty with
  | coreModule ty => cases hx
  | _ => exact (List.mem_singleton.mp hx).trans (List.mem_singleton.mp hy).symm

theorem agreed_self (id : TypeId) (odd : Bool) (s t : ResourceScope) :
    Agreed (CompareId a) odd s t id id := by
  induction id using Nat.strong_induction_on generalizing odd s t with
  | h id ih =>
      cases hget : a.get id with
      | none =>
          refine iff_of_false ?_ ?_
          · rintro ⟨hchild, -, -⟩
            cases hget.symm.trans hchild
          · rintro ⟨hchild, -, -⟩
            cases hget.symm.trans hchild
      | some x =>
          refine agreed_ids hget hget ?_
          have hnames := TypeArena.namesNodup hget
          have href : ∀ ref ∈ x.refs, ∀ odd s t, Agreed (CompareId a) odd s t ref ref :=
            fun ref href => ih ref (a.refs_lt id x hget ref href)
          have hnode : ∀ head, x.head = some head → Agreed (Compare a) odd s t x x := by
            intro head hhead
            refine agreed_node hhead hhead fun i v w hv hw => ?_
            obtain rfl := Option.some.inj (Option.some.inj (hv.symm.trans hw))
            refine agreed_part fun x' y' hx' hy' => ?_
            obtain rfl := Option.some.inj (hx'.symm.trans hy')
            cases v with
            | primitive prim =>
                obtain rfl := Option.some.inj hx'
                exact agreed_primitive prim
            | type ref =>
                have hself := href ref (Ty.part_refs hv (List.mem_singleton_self _)) odd s t
                unfold Agreed at hself
                rwa [compareId_iff hx' hx', compareId_iff hx' hx'] at hself
          cases x with
          | defVal ty => exact hnode _ rfl
          | func ty => exact hnode _ rfl
          | generic g =>
              obtain ⟨g, bound⟩ := g
              obtain rfl := a.generic_sub _ (List.mem_of_getElem? hget)
              exact agreed_resource rfl rfl
          | resource r => exact agreed_resource rfl rfl
          | component ty =>
              refine agreed_component
                (fun _ => ⟨List.Subset.refl _, List.Subset.refl _⟩) ?_ ?_
              · intro s t name need given hneed hgiven
                obtain rfl := entry_eq hnames.1 hneed hgiven
                refine agreed_import ?_
                rintro _ _ _ _ ref _ rfl heq
                cases heq
                refine href ref (List.mem_append_left _ (List.mem_flatMap.mpr ⟨_, hneed, ?_⟩)) _ s t
                exact List.mem_cons_of_mem _ (List.mem_singleton_self _)
              · intro s t name own promised hown hpromised
                obtain rfl := entry_eq hnames.2 hown hpromised
                refine agreed_export fun ref hmem ref' hmem' => ?_
                obtain rfl := ExportType.ref_eq hmem hmem'
                exact href ref (List.mem_append_right _ (List.mem_flatMap.mpr ⟨_, hown, hmem⟩)) _ s t
          | «instance» ty =>
              refine agreed_instance (fun _ => List.Subset.refl _) ?_
              intro name own promised hown hpromised
              obtain rfl := entry_eq hnames hown hpromised
              refine agreed_export fun ref hmem ref' hmem' => ?_
              obtain rfl := ExportType.ref_eq hmem hmem'
              exact href ref (List.mem_flatMap.mpr ⟨_, hown, hmem⟩) _ s t

end self

end Telomere.Component
