import Telomere.Component.Scopes
import Telomere.Lib.Trace

/-!
# The two scopes stay in step

An entry of the one scope describes the entry of the other at the same index. Every item keeps this
by adding to both, or to none of the index spaces; the exports of components and of core modules add
to one side only.
-/

namespace Telomere.Component

open Decoding

variable {C : Type} {k : Validator C}

abbrev DecoderRun (C : Type) := List (Lib.Moment (Decoder C) (Item C) Unit)

variable {run run' : DecoderRun C}

def ExportType.item : ExportType C → Space → Option TypeId
  | .component ty, .component | .instance ty, .instance | .func ty, .func => some ty
  | _, _ => none

namespace Decoder

def relation (d : Decoder C) (space : Space) (idx : Nat) : Option Relation :=
  ((d.store space)[idx]?).map (·.relation)

def coreRelation (d : Decoder C) (space : CoreSpace) (idx : Nat) : Option CoreRelation :=
  ((d.coreStore space)[idx]?).map (·.relation)

/-- The type that an index of the current component stands for. -/
def typeIndex (d : Decoder C) (idx : Nat) : Option TypeId :=
  d.guards.head?.bind (·.typeIndexes[idx]?)

def coreTypeIndex (d : Decoder C) (idx : Nat) : Option C :=
  d.guards.head?.bind fun guard => (guard.coreTypes .type)[idx]?

end Decoder

inductive Entry (C : Type) where
  | item (space : Space) (idx : Nat) (ty : TypeId)
  | core (space : CoreSpace) (idx : Nat) (ty : C)

/-- An argument or an inline export: what it stands for with its type. -/
inductive Arg (C : Type) where
  | item (space : Space) (idx : Nat) (ty : TypeId)
  | coreModule (idx : Nat) (ty : C)
  | type (ty : TypeId)

namespace Arg

def ref : Arg C → Option SortRef
  | .item space idx _ => some (.item space idx)
  | .coreModule idx _ => some (.coreModule idx)
  | .type _ => none

def sortType : Arg C → SortType C
  | .item space _ ty => .item space ty
  | .coreModule _ ty => .coreModule ty
  | .type ty => .type ty

def entry : Arg C → Option (Entry C)
  | .item space idx ty => some (.item space idx ty)
  | .coreModule idx ty => some (.core .module idx ty)
  | .type _ => none

/-- What a definition keeps of named arguments; types are not kept. -/
def refs (args : List (String × Arg C)) : List (String × SortRef) :=
  args.flatMap fun arg => arg.2.ref.toList.map fun ref => (arg.1, ref)

def sortTypes (args : List (String × Arg C)) : List (String × SortType C) :=
  args.map fun arg => (arg.1, arg.2.sortType)

end Arg

structure TypedOptions (C : Type) where
  memory : Option (Nat × C)
  realloc : Option (Nat × C)
  postReturn : Option (Nat × C)

namespace TypedOptions

variable (options : TypedOptions C)

def refs : CanonicalRefs :=
  ⟨options.memory.map (·.1), options.realloc.map (·.1), options.postReturn.map (·.1)⟩

def types : List (Option C) :=
  [options.memory.map (·.2), options.realloc.map (·.2), options.postReturn.map (·.2)]

def entries : List (Entry C) :=
  (options.memory.toList.map fun found => Entry.core .memory found.1 found.2) ++
    ((options.realloc.toList ++ options.postReturn.toList).map fun found =>
      Entry.core .func found.1 found.2)

end TypedOptions

def Freshened (k : Validator C) (d : Decoder C) (ty fresh : TypeId) : Prop :=
  fresh = ty ∨ ∃ types types', types' <+: d.types ∧
    k.freshenImportTypeId types ty = .ok (fresh, types')

/-- The type of a definition, as it follows from the definition itself and the types of what it
names. What an import, a core module and a core type are is said by the item that brought them,
which is the one at whose turn the place was the next of its store; what a component is, by all that
was noted of it when it was closed. -/
inductive HasType (k : Validator C) (run : DecoderRun C) (d : Decoder C) : Entry C → Prop
  | imported {space : Space} {idx tyIdx : Nat} {name : String} {declared ty : TypeId}
      {now : Lib.Moment (Decoder C) (Item C) Unit}
      (hrelation : d.relation space idx = some (.imported name)) (hnow : now ∈ run)
      (hinput : now.input = .import_ name (.item space tyIdx))
      (hplace : (now.before.store space).length = idx)
      (hdeclared : now.before.typeIndex tyIdx = some declared)
      (hfresh : Freshened k d declared ty) : HasType k run d (.item space idx ty)
  | component {idx : Nat} {scope : Scope} {guard : ScopeGuard C} {ty : TypeId}
      {types : List (Ty C)} {now : Lib.Moment (Decoder C) (Item C) Unit}
      (hrelation : d.relation .component idx =
        some (.defined (.component scope.path scope.exports))) (hnow : now ∈ run)
      (hinput : now.input = .closeComponent)
      (hplace : (now.before.store .component).length = idx)
      (hscope : now.before.scopes.head? = some scope)
      (hguard : now.before.guards.head? = some guard)
      (hmake : k.makeComponent now.before.types guard = .ok (ty, types))
      (htypes : types <+: d.types) : HasType k run d (.item .component idx ty)
  | instance {idx component : Nat} {componentTy ty : TypeId} {args : List (String × Arg C)}
      {types types' : List (Ty C)}
      (hrelation : d.relation .instance idx =
        some (.defined (.instance component (Arg.refs args))))
      (hcomponent : HasType k run d (.item .component component componentTy))
      (hargs : ∀ arg ∈ args, ∀ entry ∈ arg.2.entry, HasType k run d entry)
      (hinstantiate : k.instantiate types componentTy (Arg.sortTypes args) = .ok (ty, types'))
      (htypes : types' <+: d.types) : HasType k run d (.item .instance idx ty)
  | inlineExports {idx component : Nat} {path : ComponentPath} {ty : TypeId}
      {args : List (String × Arg C)} {types types' : List (Ty C)}
      (hrelation : d.relation .instance idx = some (.defined (.instance component [])))
      (hcomponent : d.relation .component component =
        some (.defined (.component path (Arg.refs args))))
      (hargs : ∀ arg ∈ args, ∀ entry ∈ arg.2.entry, HasType k run d entry)
      (hinline : k.inlineExports types (Arg.sortTypes args) = .ok (ty, types'))
      (htypes : types' <+: d.types) : HasType k run d (.item .instance idx ty)
  | canonLift {idx coreFunc : Nat} {coreTy : C} {ty : TypeId} {options : TypedOptions C}
      {types : List (Ty C)}
      (hrelation : d.relation .func idx = some (.defined (.canonLift coreFunc ty options.refs)))
      (hcore : HasType k run d (.core .func coreFunc coreTy))
      (hoptions : ∀ entry ∈ options.entries, HasType k run d entry)
      (hlift : k.canonLift types coreTy options.types ty = .ok ()) (htypes : types <+: d.types) :
      HasType k run d (.item .func idx ty)
  | fromExport {space : Space} {idx inst : Nat} {name : String} {instanceTy ty fresh : TypeId}
      {export_ : ExportType C}
      (hrelation : d.relation space idx = some (.fromExport inst name))
      (hinst : HasType k run d (.item .instance inst instanceTy))
      (hexport : instanceExport d.types instanceTy name = .ok export_)
      (hitem : export_.item space = some ty) (hfresh : Freshened k d ty fresh) :
      HasType k run d (.item space idx fresh)
  | ascribed {space : Space} {idx : Nat} {ty ascribed : TypeId} {types : List (Ty C)}
      (hty : HasType k run d (.item space idx ty))
      (hsub : k.assertSubtypeOf types ty ascribed = .ok ()) (htypes : types <+: d.types) :
      HasType k run d (.item space idx ascribed)
  | importModule {idx tyIdx : Nat} {name : String} {declared ty : C}
      {now : Lib.Moment (Decoder C) (Item C) Unit}
      (hrelation : d.coreRelation .module idx = some (.importModule name)) (hnow : now ∈ run)
      (hinput : now.input = .import_ name (.module tyIdx))
      (hplace : (now.before.coreStore .module).length = idx)
      (hdeclared : now.before.coreTypeIndex tyIdx = some declared)
      (hmodule : k.moduleType declared = .ok ty) : HasType k run d (.core .module idx ty)
  | coreModule {idx : Nat} {ty : C} {now : Lib.Moment (Decoder C) (Item C) Unit}
      (hrelation : d.coreRelation .module idx = some (.defined .module)) (hnow : now ∈ run)
      (hinput : now.input = .coreModule ty)
      (hplace : (now.before.coreStore .module).length = idx) :
      HasType k run d (.core .module idx ty)
  | coreType {idx : Nat} {ty : C} {now : Lib.Moment (Decoder C) (Item C) Unit}
      (hrelation : d.coreRelation .type idx = some (.defined .type)) (hnow : now ∈ run)
      (hinput : now.input = .coreType ty) (hplace : (now.before.coreStore .type).length = idx) :
      HasType k run d (.core .type idx ty)
  | coreInstance {idx module : Nat} {moduleTy ty : C} {args : List (String × (Nat × C))}
      (hrelation : d.coreRelation .instance idx =
        some (.defined (.instance module (args.map fun arg => (arg.1, arg.2.1)))))
      (hmodule : HasType k run d (.core .module module moduleTy))
      (hargs : ∀ arg ∈ args, HasType k run d (.core .instance arg.2.1 arg.2.2))
      (hinstantiate : k.assertInstantiationArgs moduleTy (args.map fun arg => (arg.1, arg.2.2)) =
        .ok ty) : HasType k run d (.core .instance idx ty)
  | coreInlineExports {idx : Nat} {ty : C} {exports : List (String × (CoreSpace × (Nat × C)))}
      (hrelation : d.coreRelation .instance idx = some (.defined (.inlineExport
        (exports.map fun export_ => (export_.1, export_.2.1, export_.2.2.1)))))
      (hexports : ∀ export_ ∈ exports,
        HasType k run d (.core export_.2.1 export_.2.2.1 export_.2.2.2))
      (hinline : k.coreInlineExports
        (exports.map fun export_ => (export_.1, export_.2.1, export_.2.2.2)) = .ok ty) :
      HasType k run d (.core .instance idx ty)
  | canonLower {idx func : Nat} {ty : TypeId} {lowered : C} {options : TypedOptions C}
      {types : List (Ty C)}
      (hrelation : d.coreRelation .func idx = some (.defined (.canonLower func ty options.refs)))
      (hfunc : HasType k run d (.item .func func ty))
      (hoptions : ∀ entry ∈ options.entries, HasType k run d entry)
      (hlower : k.canonLower types ty options.types = .ok lowered) (htypes : types <+: d.types) :
      HasType k run d (.core .func idx lowered)
  | canonResource {idx : Nat} {kind : ResourceCanonKind} {ty : TypeId} {destructor : Option Nat}
      {coreTy : C} {types : List (Ty C)}
      (hrelation : d.coreRelation .func idx = some (.defined (.canonResource kind ty destructor)))
      (hresource : k.canonResource types kind ty = .ok coreTy) (htypes : types <+: d.types) :
      HasType k run d (.core .func idx coreTy)
  | moduleFromExport {idx inst : Nat} {name : String} {instanceTy : TypeId} {ty : C}
      (hrelation : d.coreRelation .module idx = some (.fromExport inst name))
      (hinst : HasType k run d (.item .instance inst instanceTy))
      (hexport : instanceExport d.types instanceTy name = .ok (.coreModule ty)) :
      HasType k run d (.core .module idx ty)
  | fromCoreExport {space : CoreSpace} {idx inst : Nat} {name : String} {instanceTy ty : C}
      (hrelation : d.coreRelation space idx = some (.fromCoreExport inst name))
      (hinst : HasType k run d (.core .instance inst instanceTy))
      (hexport : k.coreExport instanceTy name = some (space, ty)) :
      HasType k run d (.core space idx ty)

/-- Entries under one index: the type describes the definition. -/
abbrev Describes (k : Validator C) (run : DecoderRun C) (d : Decoder C) (space : Space)
    (idx : Nat) (ty : TypeId) : Prop :=
  HasType k run d (.item space idx ty)

abbrev DescribesCore (k : Validator C) (run : DecoderRun C) (d : Decoder C) (space : CoreSpace)
    (idx : Nat) (ty : C) : Prop :=
  HasType k run d (.core space idx ty)

structure ScopeInStep (k : Validator C) (run : DecoderRun C) (d : Decoder C) (scope : Scope)
    (guard : ScopeGuard C) : Prop where
  values : ∀ space,
    List.Forall₂ (Describes k run d space) (scope.values space) (guard.types space)
  coreValues : ∀ space,
    List.Forall₂ (DescribesCore k run d space) (scope.coreValues space) (guard.coreTypes space)

def InStep (k : Validator C) (run : DecoderRun C) (d : Decoder C) : Prop :=
  List.Forall₂ (ScopeInStep k run d) d.scopes d.guards

structure Decoder.Grows (d d' : Decoder C) : Prop where
  types : d.types <+: d'.types
  store : ∀ space, d.store space <+: d'.store space
  coreStore : ∀ space, d.coreStore space <+: d'.coreStore space

theorem Decoder.Grows.refl (d : Decoder C) : d.Grows d :=
  ⟨List.prefix_refl _, fun _ => List.prefix_refl _, fun _ => List.prefix_refl _⟩

theorem Decoder.Grows.trans {d d₁ d₂ : Decoder C} (h : d.Grows d₁) (h₁ : d₁.Grows d₂) :
    d.Grows d₂ :=
  ⟨h.types.trans h₁.types, fun space => (h.store space).trans (h₁.store space),
    fun space => (h.coreStore space).trans (h₁.coreStore space)⟩

private theorem getElem?_of_pre {α : Type} {xs ys : List α} (hpre : xs <+: ys) {i : Nat} {a : α}
    (hget : xs[i]? = some a) : ys[i]? = some a := by
  obtain ⟨rest, rfl⟩ := hpre
  rw [List.getElem?_append_left (List.getElem?_eq_some_iff.mp hget).1]
  exact hget

theorem instanceExport_mono {types types' : List (Ty C)} (hpre : types <+: types') {ty : TypeId}
    {name : String} {export_ : ExportType C} (h : instanceExport types ty name = .ok export_) :
    instanceExport types' ty name = .ok export_ := by
  unfold instanceExport at h ⊢
  split at h
  · rename_i instanceTy hget
    rw [getElem?_of_pre hpre hget]
    exact h
  · cases h
  · cases h

section grows

variable {d d' : Decoder C} (hgrows : d.Grows d')

include hgrows

theorem Freshened.mono {ty fresh : TypeId} (h : Freshened k d ty fresh) : Freshened k d' ty fresh := by
  rcases h with rfl | ⟨types, types', hpre, hfresh⟩
  · exact .inl rfl
  · exact .inr ⟨types, types', hpre.trans hgrows.types, hfresh⟩

theorem Decoder.Grows.relation {space : Space} {idx : Nat} {relation : Relation}
    (h : d.relation space idx = some relation) : d'.relation space idx = some relation := by
  obtain ⟨placed, hget, rfl⟩ := Option.map_eq_some_iff.mp h
  exact Option.map_eq_some_iff.mpr ⟨placed, getElem?_of_pre (hgrows.store space) hget, rfl⟩

theorem Decoder.Grows.coreRelation {space : CoreSpace} {idx : Nat} {relation : CoreRelation}
    (h : d.coreRelation space idx = some relation) :
    d'.coreRelation space idx = some relation := by
  obtain ⟨placed, hget, rfl⟩ := Option.map_eq_some_iff.mp h
  exact Option.map_eq_some_iff.mpr ⟨placed, getElem?_of_pre (hgrows.coreStore space) hget, rfl⟩

theorem HasType.later (hrun : run ⊆ run') {entry : Entry C} (h : HasType k run d entry) :
    HasType k run' d' entry := by
  have htypes {types : List (Ty C)} (hpre : types <+: d.types) : types <+: d'.types :=
    hpre.trans hgrows.types
  induction h with
  | imported hrelation hnow hinput hplace hdeclared hfresh =>
      exact .imported (hgrows.relation hrelation) (hrun hnow) hinput hplace hdeclared
        (hfresh.mono hgrows)
  | component hrelation hnow hinput hplace hscope hguard hmake hpre =>
      exact .component (hgrows.relation hrelation) (hrun hnow) hinput hplace hscope hguard hmake
        (htypes hpre)
  | «instance» hrelation _ _ hinstantiate hpre ih ihargs =>
      exact .instance (hgrows.relation hrelation) ih ihargs hinstantiate (htypes hpre)
  | inlineExports hrelation hcomponent _ hinline hpre ihargs =>
      exact .inlineExports (hgrows.relation hrelation) (hgrows.relation hcomponent) ihargs hinline
        (htypes hpre)
  | canonLift hrelation _ _ hlift hpre ih ihoptions =>
      exact .canonLift (hgrows.relation hrelation) ih ihoptions hlift (htypes hpre)
  | fromExport hrelation _ hexport hitem hfresh ih =>
      exact .fromExport (hgrows.relation hrelation) ih (instanceExport_mono hgrows.types hexport)
        hitem (hfresh.mono hgrows)
  | ascribed _ hsub hpre ih => exact .ascribed ih hsub (htypes hpre)
  | importModule hrelation hnow hinput hplace hdeclared hmodule =>
      exact .importModule (hgrows.coreRelation hrelation) (hrun hnow) hinput hplace hdeclared hmodule
  | coreModule hrelation hnow hinput hplace =>
      exact .coreModule (hgrows.coreRelation hrelation) (hrun hnow) hinput hplace
  | coreType hrelation hnow hinput hplace =>
      exact .coreType (hgrows.coreRelation hrelation) (hrun hnow) hinput hplace
  | coreInstance hrelation _ _ hinstantiate ih ihargs =>
      exact .coreInstance (hgrows.coreRelation hrelation) ih ihargs hinstantiate
  | coreInlineExports hrelation _ hinline ihexports =>
      exact .coreInlineExports (hgrows.coreRelation hrelation) ihexports hinline
  | canonLower hrelation _ _ hlower hpre ih ihoptions =>
      exact .canonLower (hgrows.coreRelation hrelation) ih ihoptions hlower (htypes hpre)
  | canonResource hrelation hresource hpre =>
      exact .canonResource (hgrows.coreRelation hrelation) hresource (htypes hpre)
  | moduleFromExport hrelation _ hexport ih =>
      exact .moduleFromExport (hgrows.coreRelation hrelation) ih
        (instanceExport_mono hgrows.types hexport)
  | fromCoreExport hrelation _ hexport ih =>
      exact .fromCoreExport (hgrows.coreRelation hrelation) ih hexport

theorem HasType.mono {entry : Entry C} (h : HasType k run d entry) : HasType k run d' entry :=
  h.later hgrows (List.Subset.refl run)

theorem ScopeInStep.later (hrun : run ⊆ run') {scope : Scope} {guard : ScopeGuard C}
    (h : ScopeInStep k run d scope guard) : ScopeInStep k run' d' scope guard :=
  ⟨fun space => (h.values space).imp fun _ _ hd => hd.later hgrows hrun,
    fun space => (h.coreValues space).imp fun _ _ hd => hd.later hgrows hrun⟩

theorem ScopeInStep.mono {scope : Scope} {guard : ScopeGuard C}
    (h : ScopeInStep k run d scope guard) : ScopeInStep k run d' scope guard :=
  h.later hgrows (List.Subset.refl run)

theorem InStep.mono (h : InStep k run d) (hscopes : d'.scopes = d.scopes)
    (hguards : d'.guards = d.guards) : InStep k run d' := by
  unfold InStep
  rw [hscopes, hguards]
  exact List.Forall₂.imp (fun _ _ hs => hs.mono hgrows) h

end grows

theorem InStep.later {d : Decoder C} (hrun : run ⊆ run') (h : InStep k run d) : InStep k run' d :=
  List.Forall₂.imp (fun _ _ hs => hs.later (.refl d) hrun) h

section lookup

variable {d d' : Decoder C}

theorem get_bind_eq_ok {β : Type} {f : Decoder C → Decoding C β}
    {r : β × Decoder C} :
    (get >>= f) d = .ok r ↔ f d d = .ok r := Iff.rfl

theorem lookup_eq_ok {α : Type} {entries : List α} {idx : Nat} {a : α} :
    lookup entries idx = .ok a ↔ entries[idx]? = some a := by
  unfold lookup
  split
  · rename_i entry hget
    rw [hget, Except.ok.injEq, Option.some.injEq]
  · rename_i hget
    rw [hget]
    constructor <;> intro h <;> cases h

theorem scope_eq_ok {count : Nat} {found : Scope} (h : scope count d = .ok (found, d')) :
    d.scopes[count]? = some found ∧ d = d' := by
  unfold scope at h
  replace h := get_bind_eq_ok.mp h
  cases hget : d.scopes[count]? with
  | none =>
      rw [hget] at h
      cases h
  | some other =>
      rw [hget] at h
      obtain ⟨rfl, rfl⟩ := Lib.run_pure_eq_ok.mp h
      exact ⟨rfl, rfl⟩

theorem guard_eq_ok {count : Nat} {found : ScopeGuard C} (h : guard count d = .ok (found, d')) :
    d.guards[count]? = some found ∧ d = d' := by
  unfold Decoding.guard at h
  replace h := get_bind_eq_ok.mp h
  cases hget : d.guards[count]? with
  | none =>
      rw [hget] at h
      cases h
  | some other =>
      rw [hget] at h
      obtain ⟨rfl, rfl⟩ := Lib.run_pure_eq_ok.mp h
      exact ⟨rfl, rfl⟩

theorem scopeLookup_eq_ok {α : Type} {entries : Scope → List α} {count idx : Nat} {a : α}
    (h : (do lookup (entries (← scope count)) idx : Decoding C α) d = .ok (a, d')) :
    (∃ found, d.scopes[count]? = some found ∧ (entries found)[idx]? = some a) ∧ d = d' := by
  obtain ⟨found, d₁, hscope, h⟩ := Lib.run_bind_eq_ok.mp h
  obtain ⟨hget, rfl⟩ := scope_eq_ok hscope
  obtain ⟨hlookup, rfl⟩ := Lib.run_lift_eq_ok.mp h
  exact ⟨⟨found, hget, lookup_eq_ok.mp hlookup⟩, rfl⟩

theorem guardLookup_eq_ok {α : Type} {entries : ScopeGuard C → List α} {count idx : Nat} {a : α}
    (h : (do lookup (entries (← guard count)) idx : Decoding C α) d = .ok (a, d')) :
    (∃ found, d.guards[count]? = some found ∧ (entries found)[idx]? = some a) ∧ d = d' := by
  obtain ⟨found, d₁, hguard, h⟩ := Lib.run_bind_eq_ok.mp h
  obtain ⟨hget, rfl⟩ := guard_eq_ok hguard
  obtain ⟨hlookup, rfl⟩ := Lib.run_lift_eq_ok.mp h
  exact ⟨⟨found, hget, lookup_eq_ok.mp hlookup⟩, rfl⟩

private theorem forall₂_getElem? {α β : Type} {R : α → β → Prop} {xs : List α} {ys : List β}
    (h : List.Forall₂ R xs ys) {i : Nat} {x : α} {y : β} (hx : xs[i]? = some x)
    (hy : ys[i]? = some y) : R x y := by
  induction h generalizing i with
  | nil => cases hx
  | cons hfirst _ ih =>
      cases i with
      | zero =>
          obtain rfl := Option.some.inj hx
          obtain rfl := Option.some.inj hy
          exact hfirst
      | succ i => exact ih hx hy

theorem InStep.describes (hin : InStep k run d) {count idx value : Nat} {space : Space} {ty : TypeId}
    {d₁ d₂ : Decoder C} (hvalue : valueAt count space idx d = .ok (value, d₁))
    (hty : typeAt count space idx d = .ok (ty, d₂)) : Describes k run d space value ty := by
  obtain ⟨⟨found, hscope, hget⟩, -⟩ := scopeLookup_eq_ok hvalue
  obtain ⟨⟨found', hguard, hget'⟩, -⟩ := guardLookup_eq_ok hty
  exact forall₂_getElem? ((forall₂_getElem? hin hscope hguard).values space) hget hget'

theorem InStep.describesCore (hin : InStep k run d) {count idx value : Nat} {space : CoreSpace} {ty : C}
    {d₁ d₂ : Decoder C} (hvalue : coreValueAt count space idx d = .ok (value, d₁))
    (hty : coreTypeAt count space idx d = .ok (ty, d₂)) : DescribesCore k run d space value ty := by
  obtain ⟨⟨found, hscope, hget⟩, -⟩ := scopeLookup_eq_ok hvalue
  obtain ⟨⟨found', hguard, hget'⟩, -⟩ := guardLookup_eq_ok hty
  exact forall₂_getElem? ((forall₂_getElem? hin hscope hguard).coreValues space) hget hget'

end lookup

abbrev Reads {α : Type} (x : Decoding C α) : Prop := Lib.Keeps Eq x

section reads

variable {α β : Type}

theorem reads_pure (a : α) : Reads (pure a : Decoding C α) := Lib.Keeps.pure (fun _ => rfl) a

theorem reads_lift (x : Except ParseError α) : Reads (liftM x : Decoding C α) :=
  Lib.Keeps.lift (fun _ => rfl) x

theorem reads_bind {x : Decoding C α} {f : α → Decoding C β} (hx : Reads x) (hf : ∀ a, Reads (f a)) :
    Reads (x >>= f) := by
  refine Lib.Keeps.bind ?_ hx hf
  intro d d₁ d₂ hfirst hrest
  exact hfirst.trans hrest

theorem reads_bind_eq_ok {x : Decoding C α} {f : α → Decoding C β} (hx : Reads x) {d : Decoder C}
    {r : β × Decoder C} (h : (x >>= f) d = .ok r) : ∃ a, x d = .ok (a, d) ∧ f a d = .ok r := by
  obtain ⟨a, d₁, hfirst, hrest⟩ := Lib.run_bind_eq_ok.mp h
  obtain rfl := hx d a d₁ hfirst
  exact ⟨a, hfirst, hrest⟩

theorem reads_get : Reads (get : Decoding C (Decoder C)) := by
  intro d a d' h
  cases h
  rfl

theorem reads_guardLookup {entries : ScopeGuard C → List α} {count idx : Nat} :
    Reads (do lookup (entries (← guard count)) idx : Decoding C α) :=
  fun _ _ _ h => (guardLookup_eq_ok h).2

theorem reads_scopeLookup {entries : Scope → List α} {count idx : Nat} :
    Reads (do lookup (entries (← scope count)) idx : Decoding C α) :=
  fun _ _ _ h => (scopeLookup_eq_ok h).2

theorem reads_parseSortWithIdx (sort : SortIdx) : Reads (parseSortWithIdx sort : Decoding C _) := by
  cases sort with
  | item space idx =>
      exact reads_bind reads_guardLookup fun _ => reads_bind reads_scopeLookup fun _ => reads_pure _
  | coreModule idx =>
      exact reads_bind reads_guardLookup fun _ => reads_bind reads_scopeLookup fun _ => reads_pure _
  | type idx => exact reads_bind reads_guardLookup fun _ => reads_pure _

theorem reads_parseArgs (args : List (String × SortIdx)) : Reads (parseArgs args : Decoding C _) := by
  induction args with
  | nil => exact reads_pure _
  | cons arg args ih =>
      exact reads_bind (reads_parseSortWithIdx arg.2) fun _ => reads_bind ih fun _ => reads_pure _

theorem reads_parseCoreArgs (args : List (String × Nat)) : Reads (parseCoreArgs args : Decoding C _) := by
  induction args with
  | nil => exact reads_pure _
  | cons arg args ih =>
      refine reads_bind reads_guardLookup fun _ => reads_bind reads_scopeLookup fun _ => ?_
      exact reads_bind ih fun _ => reads_pure _

theorem reads_parseCoreInlineExports (exports : List (String × (CoreSpace × Nat))) :
    Reads (parseCoreInlineExports exports : Decoding C _) := by
  induction exports with
  | nil => exact reads_pure _
  | cons export_ exports ih =>
      refine reads_bind reads_guardLookup fun _ => reads_bind reads_scopeLookup fun _ => ?_
      exact reads_bind ih fun _ => reads_pure _

theorem reads_parseExterndesc (desc : ExternDescIdx) : Reads (parseExterndesc k desc) := by
  cases desc with
  | module coreType =>
      exact reads_bind reads_guardLookup fun _ => reads_bind (reads_lift _) fun _ => reads_pure _
  | item space idx =>
      refine reads_bind reads_guardLookup fun _ => reads_bind reads_get fun _ => ?_
      split
      · exact reads_pure _
      · exact Lib.Keeps.throw _
  | eq idx => exact reads_bind reads_guardLookup fun _ => reads_pure _
  | sub => exact reads_pure _

theorem reads_parseOption (space : CoreSpace) (option : Option Nat) :
    Reads (parseOption space option : Decoding C _) := by
  cases option with
  | none => exact reads_pure _
  | some idx =>
      exact reads_bind reads_guardLookup fun _ => reads_bind reads_scopeLookup fun _ => reads_pure _

theorem reads_parseCanonicalOptions (options : CanonicalOptionsIdx) :
    Reads (parseCanonicalOptions options : Decoding C _) := by
  refine reads_bind (reads_parseOption .memory options.memory) fun _ => ?_
  refine reads_bind (reads_parseOption .func options.realloc) fun _ => ?_
  exact reads_bind (reads_parseOption .func options.postReturn) fun _ => reads_pure _

end reads

/-- Definitions and types are added, the scopes are not touched. -/
structure Extends (d d' : Decoder C) : Prop where
  grows : d.Grows d'
  scopes : d'.scopes = d.scopes
  guards : d'.guards = d.guards

theorem extends_register (space : Space) (relation : Relation) :
    Lib.Keeps Extends (register space relation : Decoding C Nat) := by
  intro d idx d' h
  obtain ⟨rfl, rfl⟩ := Prod.mk.inj (Except.ok.inj h)
  refine ⟨⟨List.prefix_refl _, fun other => ?_, fun _ => List.prefix_refl _⟩, rfl, rfl⟩
  by_cases heq : other = space
  · subst heq
    dsimp only
    rw [Function.update_self]
    exact List.prefix_append _ _
  · dsimp only
    rewrite [Function.update_of_ne heq]
    exact List.prefix_refl _

theorem extends_registerCore (space : CoreSpace) (relation : CoreRelation) :
    Lib.Keeps Extends (registerCore space relation : Decoding C Nat) := by
  intro d idx d' h
  obtain ⟨rfl, rfl⟩ := Prod.mk.inj (Except.ok.inj h)
  refine ⟨⟨List.prefix_refl _, fun _ => List.prefix_refl _, fun other => ?_⟩, rfl, rfl⟩
  by_cases heq : other = space
  · subst heq
    dsimp only
    rw [Function.update_self]
    exact List.prefix_append _ _
  · dsimp only
    rewrite [Function.update_of_ne heq]
    exact List.prefix_refl _

theorem register_eq_ok {space : Space} {relation : Relation} {d d' : Decoder C} {idx : Nat}
    (h : register space relation d = .ok (idx, d')) :
    idx = (d.store space).length ∧ d'.relation space idx = some relation := by
  obtain ⟨rfl, rfl⟩ := Prod.mk.inj (Except.ok.inj h)
  refine ⟨rfl, Option.map_eq_some_iff.mpr ⟨⟨d.path, relation⟩, ?_, rfl⟩⟩
  change (Function.update d.store space _ space)[(d.store space).length]? = _
  rw [Function.update_self, List.getElem?_concat_length]

theorem registerCore_eq_ok {space : CoreSpace} {relation : CoreRelation} {d d' : Decoder C}
    {idx : Nat} (h : registerCore space relation d = .ok (idx, d')) :
    idx = (d.coreStore space).length ∧ d'.coreRelation space idx = some relation := by
  obtain ⟨rfl, rfl⟩ := Prod.mk.inj (Except.ok.inj h)
  refine ⟨rfl, Option.map_eq_some_iff.mpr ⟨⟨d.path, relation⟩, ?_, rfl⟩⟩
  change (Function.update d.coreStore space _ space)[(d.coreStore space).length]? = _
  rw [Function.update_self, List.getElem?_concat_length]

theorem extends_nextPath : Lib.Keeps Extends (nextPath : Decoding C ComponentPath) := by
  intro d path d' h
  obtain ⟨-, rfl⟩ := Prod.mk.inj (Except.ok.inj h)
  exact ⟨⟨List.prefix_refl _, fun _ => List.prefix_refl _, fun _ => List.prefix_refl _⟩, rfl, rfl⟩

theorem extends_newGeneric (bound : GenericBound) :
    Lib.Keeps Extends (newGeneric bound : Decoding C Generic) := by
  intro d generic d' h
  obtain ⟨-, rfl⟩ := Prod.mk.inj (Except.ok.inj h)
  exact ⟨⟨List.prefix_refl _, fun _ => List.prefix_refl _, fun _ => List.prefix_refl _⟩, rfl, rfl⟩

/-- Types that were found by looking at the arena and are put in its place. -/
theorem extends_setTypes {d d' : Decoder C} {types : List (Ty C)} (hpre : d.types <+: types)
    (h : setTypes types d = .ok ((), d')) : Extends d d' ∧ d'.types = types := by
  obtain ⟨-, rfl⟩ := Prod.mk.inj (Except.ok.inj h)
  exact ⟨⟨⟨hpre, fun _ => List.prefix_refl _, fun _ => List.prefix_refl _⟩, rfl, rfl⟩, rfl⟩

section add

variable {d d' : Decoder C}

theorem InStep.modifyHead (hin : InStep k run d) {f : Scope → Scope} {g : ScopeGuard C → ScopeGuard C}
    (hhead : ∀ scope guard, ScopeInStep k run d scope guard → ScopeInStep k run d (f scope) (g guard)) :
    InStep k run { d with scopes := d.scopes.modifyHead f, guards := d.guards.modifyHead g } := by
  have hgrows : d.Grows
      { d with scopes := d.scopes.modifyHead f, guards := d.guards.modifyHead g } :=
    ⟨List.prefix_refl _, fun _ => List.prefix_refl _, fun _ => List.prefix_refl _⟩
  unfold InStep at hin ⊢
  dsimp only at hgrows ⊢
  cases hscopes : d.scopes with
  | nil =>
      rw [hscopes, List.forall₂_nil_left_iff] at hin
      rw [hin]
      exact .nil
  | cons scope scopes =>
      rw [hscopes] at hin
      obtain ⟨guard, guards, hfirst, hrest, hguards⟩ := List.forall₂_cons_left_iff.mp hin
      rw [hscopes, hguards] at hgrows
      rw [hguards]
      exact .cons ((hhead scope guard hfirst).mono hgrows)
        (hrest.imp fun _ _ hs => hs.mono hgrows)

theorem add_inStep (hin : InStep k run d) {space : Space} {idx : Nat} {ty : TypeId}
    (hdescribes : Describes k run d space idx ty) (h : add space idx ty d = .ok ((), d')) :
    InStep k run d' := by
  obtain ⟨-, rfl⟩ := Prod.mk.inj (Except.ok.inj h)
  refine hin.modifyHead fun scope guard hs => ⟨fun other => ?_, hs.coreValues⟩
  by_cases heq : other = space
  · subst heq
    dsimp only
    rw [Function.update_self, Function.update_self]
    exact List.rel_append (hs.values other) (.cons hdescribes .nil)
  · dsimp only
    rw [Function.update_of_ne heq, Function.update_of_ne heq]
    exact hs.values other

theorem addCore_inStep (hin : InStep k run d) {space : CoreSpace} {idx : Nat} {ty : C}
    (hdescribes : DescribesCore k run d space idx ty) (h : addCore space idx ty d = .ok ((), d')) :
    InStep k run d' := by
  obtain ⟨-, rfl⟩ := Prod.mk.inj (Except.ok.inj h)
  refine hin.modifyHead fun scope guard hs => ⟨hs.values, fun other => ?_⟩
  by_cases heq : other = space
  · subst heq
    dsimp only
    rw [Function.update_self, Function.update_self]
    exact List.rel_append (hs.coreValues other) (.cons hdescribes .nil)
  · dsimp only
    rw [Function.update_of_ne heq, Function.update_of_ne heq]
    exact hs.coreValues other

/-- Names, types of the validator and exports are no entries of the index spaces. -/
theorem modifyGuard_inStep (hin : InStep k run d) {g : ScopeGuard C → ScopeGuard C}
    (hg : ∀ guard, (g guard).types = guard.types ∧ (g guard).coreTypes = guard.coreTypes)
    (h : modifyGuard g d = .ok ((), d')) : InStep k run d' := by
  obtain ⟨-, rfl⟩ := Prod.mk.inj (Except.ok.inj h)
  have hstep := hin.modifyHead (f := id) (g := g) fun scope guard hs => by
    refine ⟨fun space => ?_, fun space => ?_⟩
    · rw [(hg guard).1]
      exact hs.values space
    · rw [(hg guard).2]
      exact hs.coreValues space
  rwa [List.modifyHead_id] at hstep

theorem addTypeIndex_inStep (hin : InStep k run d) {ty : TypeId}
    (h : addTypeIndex ty d = .ok ((), d')) : InStep k run d' := by
  refine modifyGuard_inStep hin ?_ h
  exact fun _ => ⟨rfl, rfl⟩

theorem addImportType_inStep (hin : InStep k run d) {name : String} {import_ : ComponentImportType C}
    (h : addImportType name import_ d = .ok ((), d')) : InStep k run d' := by
  refine modifyGuard_inStep hin ?_ h
  exact fun _ => ⟨rfl, rfl⟩

theorem addExportInfo_inStep (hin : InStep k run d) {name : String} {info : ExportInfo C}
    (h : addExportInfo name info d = .ok ((), d')) : InStep k run d' := by
  refine modifyGuard_inStep hin ?_ h
  exact fun _ => ⟨rfl, rfl⟩

theorem addExport_inStep (hin : InStep k run d) {name : String} {export_ : SortRef}
    (h : addExport name export_ d = .ok ((), d')) : InStep k run d' ∧ d.Grows d' := by
  obtain ⟨-, rfl⟩ := Prod.mk.inj (Except.ok.inj h)
  have hstep := hin.modifyHead
    (f := fun scope => { scope with exports := scope.exports ++ [(name, export_)] }) (g := id)
    fun scope guard hs => ⟨hs.values, hs.coreValues⟩
  rw [List.modifyHead_id] at hstep
  exact ⟨hstep, List.prefix_refl _, fun _ => List.prefix_refl _, fun _ => List.prefix_refl _⟩

theorem Extends.inStep (hext : Extends d d') (hin : InStep k run d) : InStep k run d' :=
  hin.mono hext.grows hext.scopes hext.guards

theorem register_add_inStep (hin : InStep k run d) {space : Space} {relation : Relation}
    {ty : TypeId}
    (hdescribes : ∀ d₁, d.Grows d₁ →
      d₁.relation space (d.store space).length = some relation →
        Describes k run d₁ space (d.store space).length ty)
    (h : (do let idx ← register space relation; add space idx ty) d = .ok ((), d')) :
    InStep k run d' := by
  obtain ⟨idx, d₁, hregister, h⟩ := Lib.run_bind_eq_ok.mp h
  have hext := extends_register space relation d idx d₁ hregister
  obtain ⟨rfl, hrelation⟩ := register_eq_ok hregister
  exact add_inStep (hext.inStep hin) (hdescribes d₁ hext.grows hrelation) h

theorem registerCore_add_inStep (hin : InStep k run d) {space : CoreSpace}
    {relation : CoreRelation} {ty : C}
    (hdescribes : ∀ d₁, d.Grows d₁ →
      d₁.coreRelation space (d.coreStore space).length = some relation →
        DescribesCore k run d₁ space (d.coreStore space).length ty)
    (h : (do let idx ← registerCore space relation; addCore space idx ty) d = .ok ((), d')) :
    InStep k run d' := by
  obtain ⟨idx, d₁, hregister, h⟩ := Lib.run_bind_eq_ok.mp h
  have hext := extends_registerCore space relation d idx d₁ hregister
  obtain ⟨rfl, hrelation⟩ := registerCore_eq_ok hregister
  exact addCore_inStep (hext.inStep hin) (hdescribes d₁ hext.grows hrelation) h

theorem register_import_inStep (hin : InStep k run d) {space : Space} {relation : Relation}
    {name : String} {ty : TypeId}
    (hdescribes : ∀ d₁, d.Grows d₁ →
      d₁.relation space (d.store space).length = some relation →
        Describes k run d₁ space (d.store space).length ty)
    (h : (do
      let idx ← register space relation
      addImportType name (.type ty (← newGeneric (.eq ty)))
      add space idx ty) d = .ok ((), d')) : InStep k run d' := by
  obtain ⟨idx, d₁, hregister, h⟩ := Lib.run_bind_eq_ok.mp h
  have hext := extends_register space relation d idx d₁ hregister
  obtain ⟨rfl, hrelation⟩ := register_eq_ok hregister
  obtain ⟨generic, d₂, hgeneric, h⟩ := Lib.run_bind_eq_ok.mp h
  have hext₁ := extends_newGeneric _ d₁ generic d₂ hgeneric
  obtain ⟨_, d₃, himport, h⟩ := Lib.run_bind_eq_ok.mp h
  have hin₁ := addImportType_inStep (hext₁.inStep (hext.inStep hin)) himport
  obtain ⟨-, rfl⟩ := Prod.mk.inj (Except.ok.inj himport)
  refine add_inStep hin₁ (HasType.mono ?_ (hdescribes d₁ hext.grows hrelation)) h
  exact ⟨hext₁.grows.types, hext₁.grows.store, hext₁.grows.coreStore⟩

end add

section items

variable {d d' : Decoder C}

theorem parseSortWithIdx_typed (hin : InStep k run d) {sort : SortIdx}
    {found : Option SortRef × SortType C} (h : parseSortWithIdx sort d = .ok (found, d)) :
    ∃ arg : Arg C, found = (arg.ref, arg.sortType) ∧
      ∀ entry ∈ arg.entry, HasType k run d entry := by
  cases sort with
  | item space idx =>
      obtain ⟨ty, hty, h⟩ := reads_bind_eq_ok reads_guardLookup h
      obtain ⟨value, hvalue, h⟩ := reads_bind_eq_ok reads_scopeLookup h
      obtain ⟨rfl, -⟩ := Lib.run_pure_eq_ok.mp h
      refine ⟨.item space value ty, rfl, fun entry hentry => ?_⟩
      obtain rfl := Option.some.inj hentry
      exact hin.describes hvalue hty
  | coreModule idx =>
      obtain ⟨ty, hty, h⟩ := reads_bind_eq_ok reads_guardLookup h
      obtain ⟨value, hvalue, h⟩ := reads_bind_eq_ok reads_scopeLookup h
      obtain ⟨rfl, -⟩ := Lib.run_pure_eq_ok.mp h
      refine ⟨.coreModule value ty, rfl, fun entry hentry => ?_⟩
      obtain rfl := Option.some.inj hentry
      exact hin.describesCore hvalue hty
  | type idx =>
      obtain ⟨ty, -, h⟩ := reads_bind_eq_ok reads_guardLookup h
      obtain ⟨rfl, -⟩ := Lib.run_pure_eq_ok.mp h
      exact ⟨.type ty, rfl, nofun⟩

theorem parseArgs_typed (hin : InStep k run d) {args : List (String × SortIdx)}
    {values : List (String × SortRef)} {types : List (String × SortType C)}
    (h : parseArgs args d = .ok ((values, types), d)) :
    ∃ found : List (String × Arg C), values = Arg.refs found ∧ types = Arg.sortTypes found ∧
      ∀ arg ∈ found, ∀ entry ∈ arg.2.entry, HasType k run d entry := by
  induction args generalizing values types with
  | nil =>
      obtain ⟨heq, -⟩ := Lib.run_pure_eq_ok.mp h
      obtain ⟨rfl, rfl⟩ := Prod.mk.inj heq
      exact ⟨[], rfl, rfl, nofun⟩
  | cons arg args ih =>
      obtain ⟨name, sort⟩ := arg
      obtain ⟨⟨value, ty⟩, hsort, h⟩ := reads_bind_eq_ok (reads_parseSortWithIdx sort) h
      obtain ⟨⟨values', types'⟩, hargs, h⟩ := reads_bind_eq_ok (reads_parseArgs args) h
      obtain ⟨heq, -⟩ := Lib.run_pure_eq_ok.mp h
      obtain ⟨rfl, rfl⟩ := Prod.mk.inj heq
      obtain ⟨arg, hfound, harg⟩ := parseSortWithIdx_typed hin hsort
      obtain ⟨rfl, rfl⟩ := Prod.mk.inj hfound
      obtain ⟨found, rfl, rfl, hrest⟩ := ih hargs
      exact ⟨(name, arg) :: found, rfl, rfl, List.forall_mem_cons.mpr ⟨harg, hrest⟩⟩

theorem parseCoreArgs_typed (hin : InStep k run d) {args : List (String × Nat)}
    {values : List (String × Nat)} {types : List (String × C)}
    (h : parseCoreArgs args d = .ok ((values, types), d)) :
    ∃ found : List (String × (Nat × C)), values = found.map (fun arg => (arg.1, arg.2.1)) ∧
      types = found.map (fun arg => (arg.1, arg.2.2)) ∧
      ∀ arg ∈ found, DescribesCore k run d .instance arg.2.1 arg.2.2 := by
  induction args generalizing values types with
  | nil =>
      obtain ⟨heq, -⟩ := Lib.run_pure_eq_ok.mp h
      obtain ⟨rfl, rfl⟩ := Prod.mk.inj heq
      exact ⟨[], rfl, rfl, nofun⟩
  | cons arg args ih =>
      obtain ⟨name, idx⟩ := arg
      obtain ⟨ty, hty, h⟩ := reads_bind_eq_ok reads_guardLookup h
      obtain ⟨value, hvalue, h⟩ := reads_bind_eq_ok reads_scopeLookup h
      obtain ⟨⟨values', types'⟩, hargs, h⟩ := reads_bind_eq_ok (reads_parseCoreArgs args) h
      obtain ⟨heq, -⟩ := Lib.run_pure_eq_ok.mp h
      obtain ⟨rfl, rfl⟩ := Prod.mk.inj heq
      obtain ⟨found, rfl, rfl, hrest⟩ := ih hargs
      exact ⟨(name, (value, ty)) :: found, rfl, rfl,
        List.forall_mem_cons.mpr ⟨hin.describesCore hvalue hty, hrest⟩⟩

theorem parseCoreInlineExports_typed (hin : InStep k run d)
    {exports : List (String × (CoreSpace × Nat))} {values : List (String × (CoreSpace × Nat))}
    {types : List (String × (CoreSpace × C))}
    (h : parseCoreInlineExports exports d = .ok ((values, types), d)) :
    ∃ found : List (String × (CoreSpace × (Nat × C))),
      values = found.map (fun export_ => (export_.1, export_.2.1, export_.2.2.1)) ∧
      types = found.map (fun export_ => (export_.1, export_.2.1, export_.2.2.2)) ∧
      ∀ export_ ∈ found, DescribesCore k run d export_.2.1 export_.2.2.1 export_.2.2.2 := by
  induction exports generalizing values types with
  | nil =>
      obtain ⟨heq, -⟩ := Lib.run_pure_eq_ok.mp h
      obtain ⟨rfl, rfl⟩ := Prod.mk.inj heq
      exact ⟨[], rfl, rfl, nofun⟩
  | cons export_ exports ih =>
      obtain ⟨name, space, idx⟩ := export_
      obtain ⟨ty, hty, h⟩ := reads_bind_eq_ok reads_guardLookup h
      obtain ⟨value, hvalue, h⟩ := reads_bind_eq_ok reads_scopeLookup h
      obtain ⟨⟨values', types'⟩, hexports, h⟩ :=
        reads_bind_eq_ok (reads_parseCoreInlineExports exports) h
      obtain ⟨heq, -⟩ := Lib.run_pure_eq_ok.mp h
      obtain ⟨rfl, rfl⟩ := Prod.mk.inj heq
      obtain ⟨found, rfl, rfl, hrest⟩ := ih hexports
      exact ⟨(name, (space, (value, ty))) :: found, rfl, rfl,
        List.forall_mem_cons.mpr ⟨hin.describesCore hvalue hty, hrest⟩⟩

theorem parseOption_typed (hin : InStep k run d) {space : CoreSpace} {option value : Option Nat}
    {ty : Option C} (h : parseOption space option d = .ok ((value, ty), d)) :
    ∃ found : Option (Nat × C), value = found.map (·.1) ∧ ty = found.map (·.2) ∧
      ∀ entry ∈ found, DescribesCore k run d space entry.1 entry.2 := by
  cases option with
  | none =>
      obtain ⟨heq, -⟩ := Lib.run_pure_eq_ok.mp h
      obtain ⟨rfl, rfl⟩ := Prod.mk.inj heq
      exact ⟨none, rfl, rfl, nofun⟩
  | some idx =>
      obtain ⟨ty', hty, h⟩ := reads_bind_eq_ok reads_guardLookup h
      obtain ⟨value', hvalue, h⟩ := reads_bind_eq_ok reads_scopeLookup h
      obtain ⟨heq, -⟩ := Lib.run_pure_eq_ok.mp h
      obtain ⟨rfl, rfl⟩ := Prod.mk.inj heq
      refine ⟨some (value', ty'), rfl, rfl, fun entry hentry => ?_⟩
      obtain rfl := Option.some.inj hentry
      exact hin.describesCore hvalue hty

theorem parseCanonicalOptions_typed (hin : InStep k run d) {options : CanonicalOptionsIdx}
    {refs : CanonicalRefs} {types : List (Option C)}
    (h : parseCanonicalOptions options d = .ok ((refs, types), d)) :
    ∃ found : TypedOptions C, refs = found.refs ∧ types = found.types ∧
      ∀ entry ∈ found.entries, HasType k run d entry := by
  obtain ⟨⟨memory, memoryTy⟩, hread, h⟩ := reads_bind_eq_ok (reads_parseOption _ _) h
  obtain ⟨memory, rfl, rfl, hmemory⟩ := parseOption_typed hin hread
  obtain ⟨⟨realloc, reallocTy⟩, hread, h⟩ := reads_bind_eq_ok (reads_parseOption _ _) h
  obtain ⟨realloc, rfl, rfl, hrealloc⟩ := parseOption_typed hin hread
  obtain ⟨⟨postReturn, postReturnTy⟩, hread, h⟩ := reads_bind_eq_ok (reads_parseOption _ _) h
  obtain ⟨postReturn, rfl, rfl, hpostReturn⟩ := parseOption_typed hin hread
  obtain ⟨heq, -⟩ := Lib.run_pure_eq_ok.mp h
  obtain ⟨rfl, rfl⟩ := Prod.mk.inj heq
  refine ⟨⟨memory, realloc, postReturn⟩, rfl, rfl, fun entry hentry => ?_⟩
  rcases List.mem_append.mp hentry with hentry | hentry
  · obtain ⟨found, hfound, rfl⟩ := List.mem_map.mp hentry
    exact hmemory found (Option.mem_toList.mp hfound)
  · obtain ⟨found, hfound, rfl⟩ := List.mem_map.mp hentry
    rcases List.mem_append.mp hfound with hfound | hfound
    · exact hrealloc found (Option.mem_toList.mp hfound)
    · exact hpostReturn found (Option.mem_toList.mp hfound)

theorem freshen_eq_ok {ty fresh : TypeId} (h : freshen k ty d = .ok (fresh, d')) :
    Extends d d' ∧ Freshened k d' ty fresh ∧ d'.store = d.store := by
  obtain ⟨⟨ty', types⟩, d₁, hlift, h⟩ := Lib.run_bind_eq_ok.mp (get_bind_eq_ok.mp h)
  obtain ⟨hfresh, rfl⟩ := Lib.run_lift_eq_ok.mp hlift
  obtain ⟨_, d₂, hset, h⟩ := Lib.run_bind_eq_ok.mp h
  obtain ⟨rfl, rfl⟩ := Lib.run_pure_eq_ok.mp h
  obtain ⟨hext, htypes⟩ := extends_setTypes (k.freshen_grows hfresh) hset
  refine ⟨hext, .inr ⟨d.types, types, ?_, hfresh⟩, ?_⟩
  · rewrite [htypes]
    exact List.prefix_refl _
  · obtain ⟨-, rfl⟩ := Prod.mk.inj (Except.ok.inj hset)
    rfl

theorem parseCoreInstantiate_inStep (hin : InStep k run d) {module : Nat} {args : List (String × Nat)}
    (h : parseCoreInstantiate k module args d = .ok ((), d')) : InStep k run d' := by
  obtain ⟨moduleIdx, hmoduleIdx, h⟩ := reads_bind_eq_ok reads_scopeLookup h
  obtain ⟨moduleTy, hmoduleTy, h⟩ := reads_bind_eq_ok reads_guardLookup h
  obtain ⟨⟨imports, importTypes⟩, hargs, h⟩ := reads_bind_eq_ok (reads_parseCoreArgs args) h
  obtain ⟨found, rfl, rfl, hfound⟩ := parseCoreArgs_typed hin hargs
  obtain ⟨-, -, h⟩ := reads_bind_eq_ok (reads_lift _) h
  obtain ⟨ty, hlift, h⟩ := reads_bind_eq_ok (reads_lift _) h
  have hmodule : DescribesCore k run d .module moduleIdx moduleTy :=
    hin.describesCore hmoduleIdx hmoduleTy
  obtain ⟨hinstantiate, -⟩ := Lib.run_lift_eq_ok.mp hlift
  refine registerCore_add_inStep hin (fun d₁ hgrows hrelation => ?_) h
  exact .coreInstance hrelation (hmodule.mono hgrows)
    (fun arg hmem => (hfound arg hmem).mono hgrows) hinstantiate

theorem parseCoreInlineExport_inStep (hin : InStep k run d)
    {exports : List (String × (CoreSpace × Nat))}
    (h : parseCoreInlineExport k exports d = .ok ((), d')) : InStep k run d' := by
  obtain ⟨⟨values, types⟩, hexports, h⟩ :=
    reads_bind_eq_ok (reads_parseCoreInlineExports exports) h
  obtain ⟨found, rfl, rfl, hfound⟩ := parseCoreInlineExports_typed hin hexports
  obtain ⟨-, -, h⟩ := reads_bind_eq_ok (reads_lift _) h
  obtain ⟨ty, hlift, h⟩ := reads_bind_eq_ok (reads_lift _) h
  obtain ⟨hinline, -⟩ := Lib.run_lift_eq_ok.mp hlift
  refine registerCore_add_inStep hin (fun d₁ hgrows hrelation => ?_) h
  exact .coreInlineExports hrelation
    (fun export_ hmem => (hfound export_ hmem).mono hgrows) hinline

theorem parseInstantiate_inStep (hin : InStep k run d) {component : Nat}
    {args : List (String × SortIdx)} (h : parseInstantiate k component args d = .ok ((), d')) :
    InStep k run d' := by
  obtain ⟨⟨imports, types⟩, hargs, h⟩ := reads_bind_eq_ok (reads_parseArgs args) h
  obtain ⟨found, rfl, rfl, hfound⟩ := parseArgs_typed hin hargs
  obtain ⟨-, -, h⟩ := reads_bind_eq_ok (reads_lift _) h
  obtain ⟨componentIdx, hcomponentIdx, h⟩ := reads_bind_eq_ok reads_scopeLookup h
  obtain ⟨componentTy, hcomponentTy, h⟩ := reads_bind_eq_ok reads_guardLookup h
  obtain ⟨⟨ty, arena⟩, hlift, h⟩ := reads_bind_eq_ok (reads_lift _) (get_bind_eq_ok.mp h)
  obtain ⟨hinstantiate, -⟩ := Lib.run_lift_eq_ok.mp hlift
  obtain ⟨_, d₁, hset, h⟩ := Lib.run_bind_eq_ok.mp h
  obtain ⟨hext, htypes⟩ := extends_setTypes (k.instantiate_grows hinstantiate) hset
  have hcomponent : Describes k run d .component componentIdx componentTy :=
    hin.describes hcomponentIdx hcomponentTy
  refine register_add_inStep (hext.inStep hin) (fun d₂ hgrows hrelation => ?_) h
  have hgrows₂ := hext.grows.trans hgrows
  exact .instance hrelation (hcomponent.mono hgrows₂)
    (fun arg hmem entry hentry => (hfound arg hmem entry hentry).mono hgrows₂)
    hinstantiate (htypes ▸ hgrows.types)

theorem parseInlineexport_inStep (hin : InStep k run d) {exports : List (String × SortIdx)}
    (h : parseInlineexport k exports d = .ok ((), d')) : InStep k run d' := by
  obtain ⟨⟨values, types⟩, hexports, h⟩ := reads_bind_eq_ok (reads_parseArgs exports) h
  obtain ⟨found, rfl, rfl, hfound⟩ := parseArgs_typed hin hexports
  obtain ⟨⟨ty, arena⟩, hlift, h⟩ := reads_bind_eq_ok (reads_lift _) (get_bind_eq_ok.mp h)
  obtain ⟨hinline, -⟩ := Lib.run_lift_eq_ok.mp hlift
  obtain ⟨_, d₁, hset, h⟩ := Lib.run_bind_eq_ok.mp h
  obtain ⟨hext, htypes⟩ := extends_setTypes (k.inlineExports_grows hinline) hset
  obtain ⟨path, d₂, hpath, h⟩ := Lib.run_bind_eq_ok.mp h
  have hext₁ := extends_nextPath d₁ path d₂ hpath
  obtain ⟨component, d₃, hregister, h⟩ := Lib.run_bind_eq_ok.mp h
  have hext₂ := extends_register _ _ d₂ component d₃ hregister
  obtain ⟨-, hcomponent⟩ := register_eq_ok hregister
  have hin₃ := hext₂.inStep (hext₁.inStep (hext.inStep hin))
  refine register_add_inStep hin₃ (fun d₄ hgrows hrelation => ?_) h
  have hgrows₁ := hext₁.grows.trans (hext₂.grows.trans hgrows)
  have hgrows₀ := hext.grows.trans hgrows₁
  exact .inlineExports hrelation (hgrows.relation hcomponent)
    (fun arg hmem entry hentry => (hfound arg hmem entry hentry).mono hgrows₀)
    hinline (htypes ▸ hgrows₁.types)

theorem aliasFresh_inStep (hin : InStep k run d) {space : Space} {inst : Nat} {name : String}
    {instanceTy ty : TypeId} {export_ : ExportType C}
    (hinst : Describes k run d .instance inst instanceTy)
    (hexport : instanceExport d.types instanceTy name = .ok export_)
    (hitem : export_.item space = some ty)
    (h : (do
      let ty ← freshen k ty
      let idx ← register space (.fromExport inst name)
      add space idx ty) d = .ok ((), d')) : InStep k run d' := by
  obtain ⟨fresh, d₁, hfreshen, h⟩ := Lib.run_bind_eq_ok.mp h
  obtain ⟨hext, hfresh, -⟩ := freshen_eq_ok hfreshen
  refine register_add_inStep (hext.inStep hin) (fun d₂ hgrows hrelation => ?_) h
  exact .fromExport hrelation ((hinst.mono hext.grows).mono hgrows)
    (instanceExport_mono (hext.grows.types.trans hgrows.types) hexport) hitem (hfresh.mono hgrows)

theorem parseExportAlias_inStep (hin : InStep k run d) {sort : AliasSort} {inst : Nat} {name : String}
    (h : parseExportAlias k sort inst name d = .ok ((), d')) : InStep k run d' := by
  obtain ⟨instanceIdx, hvalue, h⟩ := reads_bind_eq_ok reads_scopeLookup h
  obtain ⟨instanceTy, hty, h⟩ := reads_bind_eq_ok reads_guardLookup h
  obtain ⟨export_, hlift, h⟩ := reads_bind_eq_ok (reads_lift _) (get_bind_eq_ok.mp h)
  obtain ⟨hexport, -⟩ := Lib.run_lift_eq_ok.mp hlift
  have hinst : Describes k run d .instance instanceIdx instanceTy := hin.describes hvalue hty
  split at h
  · exact aliasFresh_inStep hin hinst hexport rfl h
  · refine register_add_inStep hin (fun d₁ hgrows hrelation => ?_) h
    exact .fromExport hrelation (hinst.mono hgrows) (instanceExport_mono hgrows.types hexport) rfl
      (.inl rfl)
  · exact addTypeIndex_inStep hin h
  · exact aliasFresh_inStep hin hinst hexport rfl h
  · refine registerCore_add_inStep hin (fun d₁ hgrows hrelation => ?_) h
    exact .moduleFromExport hrelation (hinst.mono hgrows) (instanceExport_mono hgrows.types hexport)
  · cases h

theorem parseCoreExport_inStep (hin : InStep k run d) {space : CoreSpace} {inst : Nat} {name : String}
    (h : parseCoreExport k space inst name d = .ok ((), d')) : InStep k run d' := by
  obtain ⟨instanceIdx, hvalue, h⟩ := reads_bind_eq_ok reads_scopeLookup h
  obtain ⟨instanceTy, hty, h⟩ := reads_bind_eq_ok reads_guardLookup h
  have hinst : DescribesCore k run d .instance instanceIdx instanceTy := hin.describesCore hvalue hty
  cases hexport : k.coreExport instanceTy name with
  | none =>
      rw [hexport] at h
      cases h
  | some export_ =>
      obtain ⟨found, ty⟩ := export_
      rw [hexport] at h
      change (if found = space then _ else _ : Decoding C Unit) d = _ at h
      split at h
      · rename_i heq
        subst heq
        refine registerCore_add_inStep hin (fun d₁ hgrows hrelation => ?_) h
        exact .fromCoreExport hrelation (hinst.mono hgrows) hexport
      · cases h

theorem parseOuterExport_inStep (hin : InStep k run d) {sort : AliasSort} {count idx : Nat}
    (h : parseOuterExport k sort count idx d = .ok ((), d')) : InStep k run d' := by
  cases sort with
  | item space =>
      obtain ⟨value, hvalue, h⟩ := reads_bind_eq_ok reads_scopeLookup h
      obtain ⟨ty, hty, h⟩ := reads_bind_eq_ok reads_guardLookup h
      exact add_inStep hin (hin.describes hvalue hty) h
  | core space =>
      change (if space = .module ∨ space = .type then _ else _ : Decoding C Unit) d = _ at h
      split at h
      · obtain ⟨value, hvalue, h⟩ := reads_bind_eq_ok reads_scopeLookup h
        obtain ⟨ty, hty, h⟩ := reads_bind_eq_ok reads_guardLookup h
        exact addCore_inStep hin (hin.describesCore hvalue hty) h
      · cases h
  | type =>
      obtain ⟨ty, -, h⟩ := reads_bind_eq_ok reads_guardLookup h
      obtain ⟨-, -, h⟩ := reads_bind_eq_ok (reads_lift _) (get_bind_eq_ok.mp h)
      exact addTypeIndex_inStep hin h

theorem parseLift_inStep (hin : InStep k run d) {coreFunc ty : Nat} {options : CanonicalOptionsIdx}
    (h : parseLift k coreFunc options ty d = .ok ((), d')) : InStep k run d' := by
  obtain ⟨coreFuncIdx, hidx, h⟩ := reads_bind_eq_ok reads_scopeLookup h
  obtain ⟨coreFuncTy, hty, h⟩ := reads_bind_eq_ok reads_guardLookup h
  have hcore : DescribesCore k run d .func coreFuncIdx coreFuncTy := hin.describesCore hidx hty
  obtain ⟨⟨refs, optionTypes⟩, hoptions, h⟩ :=
    reads_bind_eq_ok (reads_parseCanonicalOptions options) h
  obtain ⟨found, rfl, rfl, hfound⟩ := parseCanonicalOptions_typed hin hoptions
  obtain ⟨ty, -, h⟩ := reads_bind_eq_ok reads_guardLookup h
  obtain ⟨_, hlift, h⟩ := reads_bind_eq_ok (reads_lift _) (get_bind_eq_ok.mp h)
  obtain ⟨hlift, -⟩ := Lib.run_lift_eq_ok.mp hlift
  refine register_add_inStep hin (fun d₁ hgrows hrelation => ?_) h
  exact .canonLift hrelation (hcore.mono hgrows)
    (fun entry hentry => (hfound entry hentry).mono hgrows) hlift hgrows.types

theorem parseLower_inStep (hin : InStep k run d) {func : Nat} {options : CanonicalOptionsIdx}
    (h : parseLower k func options d = .ok ((), d')) : InStep k run d' := by
  obtain ⟨funcIdx, hidx, h⟩ := reads_bind_eq_ok reads_scopeLookup h
  obtain ⟨ty, hty, h⟩ := reads_bind_eq_ok reads_guardLookup h
  have hfunc : Describes k run d .func funcIdx ty := hin.describes hidx hty
  obtain ⟨⟨refs, optionTypes⟩, hoptions, h⟩ :=
    reads_bind_eq_ok (reads_parseCanonicalOptions options) h
  obtain ⟨found, rfl, rfl, hfound⟩ := parseCanonicalOptions_typed hin hoptions
  obtain ⟨lowered, hlift, h⟩ := reads_bind_eq_ok (reads_lift _) (get_bind_eq_ok.mp h)
  obtain ⟨hlower, -⟩ := Lib.run_lift_eq_ok.mp hlift
  refine registerCore_add_inStep hin (fun d₁ hgrows hrelation => ?_) h
  exact .canonLower hrelation (hfunc.mono hgrows)
    (fun entry hentry => (hfound entry hentry).mono hgrows) hlower hgrows.types

theorem parseResource_inStep (hin : InStep k run d) {kind : ResourceCanonKind} {ty : Nat}
    (h : parseResource k kind ty d = .ok ((), d')) : InStep k run d' := by
  obtain ⟨ty, -, h⟩ := reads_bind_eq_ok reads_guardLookup h
  obtain ⟨coreTy, hlift, h⟩ := reads_bind_eq_ok (reads_lift _) (get_bind_eq_ok.mp h)
  obtain ⟨hresource, -⟩ := Lib.run_lift_eq_ok.mp hlift
  refine registerCore_add_inStep hin (fun d₁ hgrows hrelation => ?_) (get_bind_eq_ok.mp h)
  exact .canonResource hrelation hresource hgrows.types

theorem parseResourceType_inStep (hin : InStep k run d) {id : Nat} {destructor : Option Nat}
    (h : parseResourceType k id destructor d = .ok ((), d')) : InStep k run d' := by
  obtain ⟨⟨func, funcTy⟩, -, h⟩ := reads_bind_eq_ok (reads_parseOption .func destructor) h
  obtain ⟨-, -, h⟩ := reads_bind_eq_ok (reads_lift _) h
  obtain ⟨_, d₁, hmodify, h⟩ := Lib.run_bind_eq_ok.mp h
  obtain ⟨-, rfl⟩ := Prod.mk.inj (Except.ok.inj hmodify)
  obtain ⟨_, d₂, hset, h⟩ := Lib.run_bind_eq_ok.mp (get_bind_eq_ok.mp h)
  obtain ⟨-, rfl⟩ := Prod.mk.inj (Except.ok.inj hset)
  refine addTypeIndex_inStep ?_ h
  refine InStep.mono (d := d) ?_ hin rfl rfl
  exact ⟨List.prefix_append _ _, fun _ => List.prefix_refl _, fun _ => List.prefix_refl _⟩

theorem reads_guard (count : Nat) : Reads (guard count : Decoding C _) :=
  fun _ _ _ h => (guard_eq_ok h).2

theorem typeIndexAt_eq_ok {idx : Nat} {ty : TypeId} (h : typeIndexAt 0 idx d = .ok (ty, d')) :
    d.typeIndex idx = some ty := by
  obtain ⟨⟨found, hguard, hget⟩, -⟩ := guardLookup_eq_ok h
  rw [← List.head?_eq_getElem?] at hguard
  rw [Decoder.typeIndex, hguard]
  exact hget

theorem coreTypeAt_eq_ok {idx : Nat} {ty : C} (h : coreTypeAt 0 .type idx d = .ok (ty, d')) :
    d.coreTypeIndex idx = some ty := by
  obtain ⟨⟨found, hguard, hget⟩, -⟩ := guardLookup_eq_ok h
  rw [← List.head?_eq_getElem?] at hguard
  rw [Decoder.coreTypeIndex, hguard]
  exact hget

theorem parseExterndesc_module {desc : ExternDescIdx} {ty : C}
    (h : parseExterndesc k desc d = .ok (.module ty, d')) :
    ∃ tyIdx declared, desc = .module tyIdx ∧ d.coreTypeIndex tyIdx = some declared ∧
      k.moduleType declared = .ok ty := by
  cases desc with
  | module tyIdx =>
      obtain ⟨declared, hdeclared, h⟩ := reads_bind_eq_ok reads_guardLookup h
      obtain ⟨ty', hlift, h⟩ := reads_bind_eq_ok (reads_lift _) h
      obtain ⟨hmodule, -⟩ := Lib.run_lift_eq_ok.mp hlift
      obtain ⟨heq, -⟩ := Lib.run_pure_eq_ok.mp h
      obtain rfl := ExternDesc.module.inj heq
      exact ⟨tyIdx, declared, rfl, coreTypeAt_eq_ok hdeclared, hmodule⟩
  | item space idx =>
      obtain ⟨ty', -, h⟩ := reads_bind_eq_ok reads_guardLookup h
      replace h := get_bind_eq_ok.mp h
      split at h
      · obtain ⟨heq, -⟩ := Lib.run_pure_eq_ok.mp h
        cases heq
      · cases h
  | eq idx =>
      obtain ⟨ty', -, h⟩ := reads_bind_eq_ok reads_guardLookup h
      obtain ⟨heq, -⟩ := Lib.run_pure_eq_ok.mp h
      cases heq
  | sub => cases h

theorem parseExterndesc_item {desc : ExternDescIdx} {space : Space} {ty : TypeId}
    (h : parseExterndesc k desc d = .ok (.item space ty, d')) :
    ∃ tyIdx, desc = .item space tyIdx ∧ d.typeIndex tyIdx = some ty := by
  cases desc with
  | module tyIdx =>
      obtain ⟨declared, -, h⟩ := reads_bind_eq_ok reads_guardLookup h
      obtain ⟨ty', -, h⟩ := reads_bind_eq_ok (reads_lift _) h
      obtain ⟨heq, -⟩ := Lib.run_pure_eq_ok.mp h
      cases heq
  | item space' idx =>
      obtain ⟨ty', hty, h⟩ := reads_bind_eq_ok reads_guardLookup h
      replace h := get_bind_eq_ok.mp h
      split at h
      · obtain ⟨heq, -⟩ := Lib.run_pure_eq_ok.mp h
        obtain ⟨rfl, rfl⟩ := ExternDesc.item.inj heq
        exact ⟨idx, rfl, typeIndexAt_eq_ok hty⟩
      · cases h
  | eq idx =>
      obtain ⟨ty', -, h⟩ := reads_bind_eq_ok reads_guardLookup h
      obtain ⟨heq, -⟩ := Lib.run_pure_eq_ok.mp h
      cases heq
  | sub => cases h

theorem addImported_inStep (hin : InStep k run d) {name : String} {desc : ExternDesc C}
    (hmodule : ∀ {ty}, desc = .module ty → ∀ d₁ : Decoder C,
      d₁.coreRelation .module (d.coreStore .module).length = some (.importModule name) →
        DescribesCore k run d₁ .module (d.coreStore .module).length ty)
    (hitem : ∀ {space declared ty}, desc = .item space declared → ∀ d₁ : Decoder C,
      Freshened k d₁ declared ty →
        d₁.relation space (d.store space).length = some (.imported name) →
          Describes k run d₁ space (d.store space).length ty)
    (h : addImported k name desc d = .ok ((), d')) : InStep k run d' := by
  unfold addImported at h
  split at h
  · obtain ⟨idx, d₁, hregister, h⟩ := Lib.run_bind_eq_ok.mp h
    have hext := extends_registerCore _ _ d idx d₁ hregister
    obtain ⟨rfl, hrelation⟩ := registerCore_eq_ok hregister
    obtain ⟨_, d₂, himport, h⟩ := Lib.run_bind_eq_ok.mp h
    have hin₁ := addImportType_inStep (hext.inStep hin) himport
    obtain ⟨-, rfl⟩ := Prod.mk.inj (Except.ok.inj himport)
    exact addCore_inStep hin₁ (hmodule rfl _ hrelation) h
  · obtain ⟨fresh, d₁, hfreshen, h⟩ := Lib.run_bind_eq_ok.mp h
    obtain ⟨hext, hfresh, hstore⟩ := freshen_eq_ok hfreshen
    refine register_import_inStep (hext.inStep hin) (fun d₂ hgrows hrelation => ?_) h
    rw [hstore] at hrelation ⊢
    exact hitem rfl d₂ (hfresh.mono hgrows) hrelation
  · refine register_import_inStep hin (fun d₁ hgrows hrelation => ?_) h
    exact hitem rfl d₁ (.inl rfl) hrelation
  · obtain ⟨generic, d₁, hgeneric, h⟩ := Lib.run_bind_eq_ok.mp h
    obtain ⟨_, d₂, himport, h⟩ := Lib.run_bind_eq_ok.mp h
    exact addTypeIndex_inStep (addImportType_inStep
      ((extends_newGeneric _ d generic d₁ hgeneric).inStep hin) himport) h
  · obtain ⟨generic, d₁, hgeneric, h⟩ := Lib.run_bind_eq_ok.mp h
    obtain ⟨_, d₂, hset, h⟩ := Lib.run_bind_eq_ok.mp (get_bind_eq_ok.mp h)
    obtain ⟨_, d₃, himport, h⟩ := Lib.run_bind_eq_ok.mp h
    have hin₁ := (extends_newGeneric _ d generic d₁ hgeneric).inStep hin
    exact addTypeIndex_inStep (addImportType_inStep
      ((extends_setTypes (List.prefix_append _ _) hset).1.inStep hin₁) himport) h

theorem parseImport_inStep (hin : InStep k run d) {name : String} {desc : ExternDescIdx}
    (hnow : ⟨d, .import_ name desc, (), d'⟩ ∈ run)
    (h : parseImport k name desc d = .ok ((), d')) : InStep k run d' := by
  obtain ⟨_, -, h⟩ := reads_bind_eq_ok (reads_guard 0) h
  split at h
  · cases h
  · obtain ⟨_, d₁, hnames, h⟩ := Lib.run_bind_eq_ok.mp h
    obtain ⟨found, hdesc, h⟩ := reads_bind_eq_ok (reads_parseExterndesc desc) h
    obtain ⟨_, -, h⟩ := reads_bind_eq_ok (reads_guard 0) (get_bind_eq_ok.mp h)
    obtain ⟨-, -, h⟩ := reads_bind_eq_ok (reads_lift _) h
    have hin₁ : InStep k run d₁ := modifyGuard_inStep hin (g := fun guard =>
      { guard with importNames := guard.importNames ++ [name] }) (fun _ => ⟨rfl, rfl⟩) hnames
    obtain ⟨-, rfl⟩ := Prod.mk.inj (Except.ok.inj hnames)
    -- The name that was noted changes no index.
    have hindex : ∀ idx : Nat, (d.guards.modifyHead fun guard =>
        { guard with importNames := guard.importNames ++ [name] }).head?.bind
          (·.typeIndexes[idx]?) = d.typeIndex idx := by
      intro idx
      rw [Decoder.typeIndex]
      cases d.guards <;> rfl
    have hcoreIndex : ∀ idx : Nat, (d.guards.modifyHead fun guard =>
        { guard with importNames := guard.importNames ++ [name] }).head?.bind
          (fun guard => (guard.coreTypes .type)[idx]?) = d.coreTypeIndex idx := by
      intro idx
      rw [Decoder.coreTypeIndex]
      cases d.guards <;> rfl
    refine addImported_inStep hin₁ (fun {ty} heq d₂ hrelation => ?_)
      (fun {space declared ty} heq d₂ hfresh hrelation => ?_) h
    · subst heq
      obtain ⟨tyIdx, declared, rfl, hdeclared, hmodule⟩ := parseExterndesc_module hdesc
      exact .importModule hrelation hnow rfl rfl ((hcoreIndex tyIdx).symm.trans hdeclared) hmodule
    · subst heq
      obtain ⟨tyIdx, rfl, hdeclared⟩ := parseExterndesc_item hdesc
      exact .imported hrelation hnow rfl rfl ((hindex tyIdx).symm.trans hdeclared) hfresh

theorem openComponent_inStep (hin : InStep k run d) (h : openComponent d = .ok ((), d')) :
    InStep k run d' := by
  obtain ⟨path, d₁, hpath, h⟩ := Lib.run_bind_eq_ok.mp h
  have hext := extends_nextPath d path d₁ hpath
  obtain ⟨-, rfl⟩ := Prod.mk.inj (Except.ok.inj h)
  have hgrows : d₁.Grows
      { d₁ with scopes := .empty path :: d₁.scopes, guards := .empty :: d₁.guards } :=
    ⟨List.prefix_refl _, fun _ => List.prefix_refl _, fun _ => List.prefix_refl _⟩
  exact .cons ⟨fun _ => .nil, fun _ => .nil⟩ (List.Forall₂.imp (fun _ _ hs => hs.mono hgrows)
    (hext.inStep hin))

theorem closeComponent_inStep (hin : InStep k run d)
    (hnow : ⟨d, .closeComponent, (), d'⟩ ∈ run) (h : closeComponent k d = .ok ((), d')) :
    InStep k run d' := by
  have hscope : ∀ count, Reads (scope count : Decoding C _) := fun _ _ _ _ h => (scope_eq_ok h).2
  obtain ⟨inner, hinner, h⟩ := reads_bind_eq_ok (hscope 0) h
  obtain ⟨innerGuard, hguard, h⟩ := reads_bind_eq_ok (reads_guard 0) h
  have hscopeHead : d.scopes.head? = some inner := by
    rw [List.head?_eq_getElem?]
    exact (scope_eq_ok hinner).1
  have hguardHead : d.guards.head? = some innerGuard := by
    rw [List.head?_eq_getElem?]
    exact (guard_eq_ok hguard).1
  obtain ⟨_, -, h⟩ := reads_bind_eq_ok (hscope 1) h
  obtain ⟨⟨ty, arena⟩, hlift, h⟩ := reads_bind_eq_ok (reads_lift _) (get_bind_eq_ok.mp h)
  obtain ⟨hmake, -⟩ := Lib.run_lift_eq_ok.mp hlift
  obtain ⟨_, d₁, htail, h⟩ := Lib.run_bind_eq_ok.mp h
  obtain ⟨-, rfl⟩ := Prod.mk.inj (Except.ok.inj htail)
  obtain ⟨_, d₂, hset, h⟩ := Lib.run_bind_eq_ok.mp h
  have hpre : d.types <+: arena := k.makeComponent_grows hmake
  have hgrows : d.Grows { d with scopes := d.scopes.tail, guards := d.guards.tail } :=
    ⟨List.prefix_refl _, fun _ => List.prefix_refl _, fun _ => List.prefix_refl _⟩
  have hin₁ : InStep k run { d with scopes := d.scopes.tail, guards := d.guards.tail } := by
    have hdrop := List.forall₂_drop 1 (List.Forall₂.imp (fun _ _ hs => hs.mono hgrows) hin)
    rwa [List.drop_one, List.drop_one] at hdrop
  obtain ⟨hext, htypes⟩ :=
    extends_setTypes (d := { d with scopes := d.scopes.tail, guards := _ }) hpre hset
  have hstore : d₂.store .component = d.store .component := by
    obtain ⟨-, rfl⟩ := Prod.mk.inj (Except.ok.inj hset)
    rfl
  refine register_add_inStep (hext.inStep hin₁) (fun d₃ hgrows hrelation => ?_) h
  rw [hstore] at hrelation ⊢
  exact .component hrelation hnow rfl rfl hscopeHead hguardHead hmake (htypes ▸ hgrows.types)

theorem reads_mapM_parseExterndesc (desc : Option ExternDescIdx) :
    Reads (desc.mapM (parseExterndesc k)) := by
  cases desc with
  | none => exact reads_pure none
  | some desc =>
      change Reads (some <$> parseExterndesc k desc)
      rw [map_eq_pure_bind]
      exact reads_bind (reads_parseExterndesc desc) fun _ => reads_pure _

def Decoder.nameExport (d : Decoder C) (name : String) : Decoder C :=
  { d with guards := d.guards.modifyHead fun guard =>
      { guard with exportNames := guard.exportNames ++ [name] } }

/-- The sort is looked up after the name was noted, and the entries are added last. -/
theorem parseExport_eq_ok {name : String} {sort : SortIdx} {desc : Option ExternDescIdx}
    (h : parseExport k name sort desc d = .ok ((), d')) :
    d.guards ≠ [] ∧ ∃ found desc',
      parseSortWithIdx sort (d.nameExport name) = .ok (found, d.nameExport name) ∧
      addExported k name desc' found (d.nameExport name) = .ok ((), d') := by
  obtain ⟨guard, hguard, h⟩ := reads_bind_eq_ok (reads_guard 0) h
  have hguards : d.guards ≠ [] := by
    intro hnil
    have hget := (guard_eq_ok hguard).1
    rw [hnil] at hget
    cases hget
  split at h
  · cases h
  · obtain ⟨_, d₁, hnames, h⟩ := Lib.run_bind_eq_ok.mp h
    obtain ⟨-, rfl⟩ := Prod.mk.inj (Except.ok.inj hnames)
    obtain ⟨found, hfound, h⟩ := reads_bind_eq_ok (reads_parseSortWithIdx sort) h
    obtain ⟨desc', -, h⟩ := reads_bind_eq_ok (reads_mapM_parseExterndesc desc) h
    obtain ⟨_, -, h⟩ := reads_bind_eq_ok (reads_guard 0) (get_bind_eq_ok.mp h)
    obtain ⟨-, -, h⟩ := reads_bind_eq_ok (reads_lift _) h
    exact ⟨hguards, found, desc', hfound, h⟩

theorem parseSortWithIdx_item {space : Space} {idx : Nat} {found : Option SortRef × SortType C}
    (h : parseSortWithIdx (.item space idx) d = .ok (found, d)) :
    ∃ value ty, found = (some (.item space value), .item space ty) ∧
      valueAt 0 space idx d = .ok (value, d) ∧ typeAt 0 space idx d = .ok (ty, d) := by
  obtain ⟨ty, hty, h⟩ := reads_bind_eq_ok reads_guardLookup h
  obtain ⟨value, hvalue, h⟩ := reads_bind_eq_ok reads_scopeLookup h
  obtain ⟨rfl, -⟩ := Lib.run_pure_eq_ok.mp h
  exact ⟨value, ty, rfl, hvalue, hty⟩

theorem parseSortWithIdx_coreModule {idx : Nat} {found : Option SortRef × SortType C}
    (h : parseSortWithIdx (.coreModule idx) d = .ok (found, d)) :
    ∃ value ty, found = (some (.coreModule value), .coreModule ty) := by
  obtain ⟨ty, -, h⟩ := reads_bind_eq_ok reads_guardLookup h
  obtain ⟨value, -, h⟩ := reads_bind_eq_ok reads_scopeLookup h
  obtain ⟨rfl, -⟩ := Lib.run_pure_eq_ok.mp h
  exact ⟨value, ty, rfl⟩

theorem parseSortWithIdx_type {idx : Nat} {found : Option SortRef × SortType C}
    (h : parseSortWithIdx (.type idx) d = .ok (found, d)) : ∃ ty, found = (none, .type ty) := by
  obtain ⟨ty, -, h⟩ := reads_bind_eq_ok reads_guardLookup h
  obtain ⟨rfl, -⟩ := Lib.run_pure_eq_ok.mp h
  exact ⟨ty, rfl⟩

theorem reads_ascribe (space : Space) (ty : TypeId) (desc : Option (ExternDesc C)) :
    Reads (ascribe k space ty desc) := by
  unfold ascribe
  split
  · exact reads_pure _
  · split
    · exact reads_bind reads_get fun _ => reads_bind (reads_lift _) fun _ => reads_pure _
    · exact Lib.Keeps.throw _
  · exact Lib.Keeps.throw _

theorem ascribe_describes {space : Space} {idx : Nat} {ty ty' : TypeId}
    {desc : Option (ExternDesc C)} (h : ascribe k space ty desc d = .ok (ty', d))
    (hty : Describes k run d space idx ty) : Describes k run d space idx ty' := by
  unfold ascribe at h
  split at h
  · obtain ⟨rfl, -⟩ := Lib.run_pure_eq_ok.mp h
    exact hty
  · split at h
    · obtain ⟨_, hlift, h⟩ := reads_bind_eq_ok (reads_lift _) (get_bind_eq_ok.mp h)
      obtain ⟨hsub, -⟩ := Lib.run_lift_eq_ok.mp hlift
      obtain ⟨rfl, -⟩ := Lib.run_pure_eq_ok.mp h
      exact .ascribed hty hsub (List.prefix_refl _)
    · cases h
  · cases h

theorem reads_checkTypeExport (ty : TypeId) (desc : Option (ExternDesc C)) :
    Reads (checkTypeExport k ty desc) := by
  unfold checkTypeExport
  split
  · exact reads_pure _
  · exact reads_bind reads_get fun _ => reads_bind (reads_lift _) fun _ => reads_pure _
  · refine reads_bind reads_get fun _ => ?_
    split
    · exact reads_pure _
    · exact Lib.Keeps.throw _
  · exact Lib.Keeps.throw _

end items

/-- Sorts that exports add to both scopes, or, for types, to the only one that has them. -/
def SortIdx.bothSides : SortIdx → Bool
  | .item .component _ | .coreModule _ => false
  | _ => true

/-- How many entries of the sort the scopes of the current component have. -/
def Decoder.sides (d : Decoder C) : SortIdx → List Nat
  | .item space _ =>
      [d.scopes.head?.elim 0 fun scope => (scope.values space).length,
        d.guards.head?.elim 0 fun guard => (guard.types space).length]
  | .coreModule _ =>
      [d.scopes.head?.elim 0 fun scope => (scope.coreValues .module).length,
        d.guards.head?.elim 0 fun guard => (guard.coreTypes .module).length]
  | .type _ => [d.guards.head?.elim 0 fun guard => guard.typeIndexes.length]

section exports

variable {d d' : Decoder C} {name : String} {desc : Option ExternDescIdx}

theorem InStep.current (hin : InStep k run d) (hguards : d.guards ≠ []) :
    ∃ scope scopes guard guards, d.scopes = scope :: scopes ∧ d.guards = guard :: guards := by
  obtain ⟨guard, guards, hguard⟩ := List.exists_cons_of_ne_nil hguards
  unfold InStep at hin
  rw [hguard] at hin
  obtain ⟨scope, scopes, -, -, hscope⟩ := List.forall₂_cons_right_iff.mp hin
  exact ⟨scope, scopes, guard, guards, hscope, hguard⟩

theorem InStep.sides_coreModule (hin : InStep k run d) (idx : Nat) :
    ∃ n, d.sides (.coreModule idx) = [n, n] := by
  unfold InStep at hin
  unfold Decoder.sides
  generalize d.scopes = scopes at hin ⊢
  generalize d.guards = guards at hin ⊢
  cases hin with
  | nil => exact ⟨0, rfl⟩
  | cons hfirst _ =>
      refine ⟨_, congrArg₂ (fun n m => [n, m]) rfl ?_⟩
      exact (hfirst.coreValues .module).length_eq.symm

theorem nameExport_inStep (hin : InStep k run d) : InStep k run (d.nameExport name) := by
  refine modifyGuard_inStep hin (g := fun guard =>
    { guard with exportNames := guard.exportNames ++ [name] }) ?_ rfl
  exact fun _ => ⟨rfl, rfl⟩

theorem parseExport_type (hin : InStep k run d) {idx : Nat}
    (h : parseExport k name (.type idx) desc d = .ok ((), d')) :
    InStep k run d' ∧ d'.sides (.type idx) = (d.sides (.type idx)).map (· + 1) := by
  obtain ⟨hguards, found, desc', hfound, h⟩ := parseExport_eq_ok h
  obtain ⟨ty, rfl⟩ := parseSortWithIdx_type hfound
  obtain ⟨info, -, h⟩ := reads_bind_eq_ok (reads_checkTypeExport ty desc') h
  obtain ⟨_, d₁, htype, h⟩ := Lib.run_bind_eq_ok.mp h
  refine ⟨addExportInfo_inStep (addTypeIndex_inStep (nameExport_inStep hin) htype) h, ?_⟩
  obtain ⟨-, rfl⟩ := Prod.mk.inj (Except.ok.inj htype)
  obtain ⟨-, rfl⟩ := Prod.mk.inj (Except.ok.inj h)
  obtain ⟨scope, scopes, guard, guards, hscope, hguard⟩ := hin.current hguards
  simp [Decoder.sides, Decoder.nameExport, hguard]

theorem parseExport_item (hin : InStep k run d) {space : Space} (hspace : space ≠ .component)
    {idx : Nat} (h : parseExport k name (.item space idx) desc d = .ok ((), d')) :
    InStep k run d' ∧ d'.sides (.item space idx) = (d.sides (.item space idx)).map (· + 1) := by
  obtain ⟨hguards, found, desc', hfound, h⟩ := parseExport_eq_ok h
  obtain ⟨value, ty, rfl, hvalue, hty⟩ := parseSortWithIdx_item hfound
  have hin₁ : InStep k run (d.nameExport name) := nameExport_inStep hin
  have hdescribes := hin₁.describes hvalue hty
  replace h : (do
      let ty ← ascribe k space ty desc'
      addExport name (.item space value)
      add space value ty
      addExportInfo name (.item space ty)) (d.nameExport name) = .ok ((), d') := by
    cases space with
    | component => exact absurd rfl hspace
    | «instance» => exact h
    | func => exact h
  obtain ⟨ty', hascribe, h⟩ := reads_bind_eq_ok (reads_ascribe space ty desc') h
  obtain ⟨_, d₂, hexport, h⟩ := Lib.run_bind_eq_ok.mp h
  obtain ⟨hin₂, hgrows⟩ := addExport_inStep hin₁ hexport
  obtain ⟨_, d₃, hadd, h⟩ := Lib.run_bind_eq_ok.mp h
  have hin₃ := add_inStep hin₂ ((ascribe_describes hascribe hdescribes).mono hgrows) hadd
  refine ⟨addExportInfo_inStep hin₃ h, ?_⟩
  obtain ⟨-, rfl⟩ := Prod.mk.inj (Except.ok.inj hexport)
  obtain ⟨-, rfl⟩ := Prod.mk.inj (Except.ok.inj hadd)
  obtain ⟨-, rfl⟩ := Prod.mk.inj (Except.ok.inj h)
  obtain ⟨scope, scopes, guard, guards, hscope, hguard⟩ := hin.current hguards
  simp [Decoder.sides, Decoder.nameExport, hscope, hguard]

theorem parseExport_component {idx : Nat}
    (h : parseExport k name (.item .component idx) desc d = .ok ((), d')) :
    d'.sides (.item .component idx) ≠ (d.sides (.item .component idx)).map (· + 1) := by
  obtain ⟨hguards, found, desc', hfound, h⟩ := parseExport_eq_ok h
  obtain ⟨value, ty, rfl, -, -⟩ := parseSortWithIdx_item hfound
  obtain ⟨ty', -, h⟩ := reads_bind_eq_ok (reads_ascribe .component ty desc') h
  obtain ⟨_, d₁, hexport, h⟩ := Lib.run_bind_eq_ok.mp h
  obtain ⟨_, d₂, htype, h⟩ := Lib.run_bind_eq_ok.mp h
  obtain ⟨-, rfl⟩ := Prod.mk.inj (Except.ok.inj hexport)
  obtain ⟨-, rfl⟩ := Prod.mk.inj (Except.ok.inj htype)
  obtain ⟨-, rfl⟩ := Prod.mk.inj (Except.ok.inj h)
  cases hscope : d.scopes with
  | nil => simp [Decoder.sides, Decoder.nameExport, hscope]
  | cons scope scopes => simp [Decoder.sides, Decoder.nameExport, hscope]

theorem parseExport_coreModule {idx : Nat}
    (h : parseExport k name (.coreModule idx) desc d = .ok ((), d')) :
    d'.sides (.coreModule idx) ≠ (d.sides (.coreModule idx)).map (· + 1) := by
  obtain ⟨hguards, found, desc', hfound, h⟩ := parseExport_eq_ok h
  obtain ⟨value, ty, rfl⟩ := parseSortWithIdx_coreModule hfound
  obtain ⟨_, d₁, hexport, h⟩ := Lib.run_bind_eq_ok.mp h
  obtain ⟨_, d₂, hvalue, h⟩ := Lib.run_bind_eq_ok.mp h
  obtain ⟨-, rfl⟩ := Prod.mk.inj (Except.ok.inj hexport)
  obtain ⟨-, rfl⟩ := Prod.mk.inj (Except.ok.inj hvalue)
  obtain ⟨-, rfl⟩ := Prod.mk.inj (Except.ok.inj h)
  obtain ⟨guard, guards, hguard⟩ := List.exists_cons_of_ne_nil hguards
  simp [Decoder.sides, Decoder.nameExport, hguard]

end exports

/-! ## Runs of the decoder -/

def decodeStep (k : Validator C) (d : Decoder C) (item : Item C) : Option (Unit × Decoder C) :=
  (decodeItem k item d).toOption

def ExportAdds (now : Lib.Moment (Decoder C) (Item C) Unit) : Prop :=
  ∀ name sort desc, now.input = .export_ name sort desc →
    now.after.sides sort = (now.before.sides sort).map (· + 1)

/-- What is not the export of a component or of a core module. -/
def Item.bothSides : Item C → Bool
  | .export_ _ sort _ => sort.bothSides
  | _ => true

section runs

variable {d d' : Decoder C}

theorem initial_inStep : InStep k [] .initial :=
  .cons ⟨fun _ => .nil, fun _ => .nil⟩ .nil

theorem parseExport_iff (hin : InStep k run d) {name : String} {sort : SortIdx}
    {desc : Option ExternDescIdx} (h : parseExport k name sort desc d = .ok ((), d')) :
    (InStep k run d' ∧ d'.sides sort = (d.sides sort).map (· + 1)) ↔ sort.bothSides := by
  cases sort with
  | item space idx =>
      cases space with
      | component => exact iff_of_false (fun hp => parseExport_component h hp.2) Bool.false_ne_true
      | «instance» => exact iff_of_true (parseExport_item hin (by decide) h) rfl
      | func => exact iff_of_true (parseExport_item hin (by decide) h) rfl
  | coreModule idx => exact iff_of_false (fun hp => parseExport_coreModule h hp.2) Bool.false_ne_true
  | type idx => exact iff_of_true (parseExport_type hin h) rfl

theorem decodeItem_inStep (hin : InStep k run d) {item : Item C}
    (hnow : ⟨d, item, (), d'⟩ ∈ run)
    (hitem : ∀ name sort desc, item ≠ .export_ name sort desc)
    (h : decodeItem k item d = .ok ((), d')) : InStep k run d' := by
  cases item with
  | type inner ty =>
      obtain ⟨_, d₁, hset, h⟩ := Lib.run_bind_eq_ok.mp (get_bind_eq_ok.mp h)
      have hpre : d.types <+: d.types ++ inner ++ [ty] := by
        rw [List.append_assoc]
        exact List.prefix_append _ _
      have hext := (extends_setTypes hpre hset).1
      exact addTypeIndex_inStep (hext.inStep hin) h
  | resource id destructor => exact parseResourceType_inStep hin h
  | coreModule ty =>
      refine registerCore_add_inStep hin (fun _ _ hrelation => ?_) h
      exact .coreModule hrelation hnow rfl rfl
  | coreType ty =>
      refine registerCore_add_inStep hin (fun _ _ hrelation => ?_) h
      exact .coreType hrelation hnow rfl rfl
  | coreInstantiate module args => exact parseCoreInstantiate_inStep hin h
  | coreInlineExports exports => exact parseCoreInlineExport_inStep hin h
  | openComponent => exact openComponent_inStep hin h
  | closeComponent => exact closeComponent_inStep hin hnow h
  | instantiate component args => exact parseInstantiate_inStep hin h
  | inlineExports exports => exact parseInlineexport_inStep hin h
  | aliasExport sort inst name => exact parseExportAlias_inStep hin h
  | aliasCoreExport space inst name => exact parseCoreExport_inStep hin h
  | aliasOuter sort count idx => exact parseOuterExport_inStep hin h
  | canonLift coreFunc options ty => exact parseLift_inStep hin h
  | canonLower func options => exact parseLower_inStep hin h
  | canonResource kind ty => exact parseResource_inStep hin h
  | import_ name desc => exact parseImport_inStep hin hnow h
  | export_ name sort desc => exact absurd rfl (hitem name sort desc)

/-- One item: the scopes are in step after it and an export added its entries, exactly when it is
not the export of a component or of a core module. -/
theorem decodeItem_iff (hin : InStep k run d) {item : Item C}
    (hnow : ⟨d, item, (), d'⟩ ∈ run)
    (h : decodeItem k item d = .ok ((), d')) :
    (InStep k run d' ∧ ExportAdds ⟨d, item, (), d'⟩) ↔ item.bothSides := by
  by_cases hexport : ∃ name sort desc, item = .export_ name sort desc
  · obtain ⟨name, sort, desc, rfl⟩ := hexport
    change _ ↔ sort.bothSides
    rw [← parseExport_iff hin h]
    refine and_congr_right fun _ => ⟨fun hadds => hadds name sort desc rfl, ?_⟩
    intro hadds name' sort' desc' heq
    cases heq
    exact hadds
  · have hitem : ∀ name sort desc, item ≠ .export_ name sort desc :=
      fun name sort desc heq => hexport ⟨name, sort, desc, heq⟩
    refine iff_of_true ⟨decodeItem_inStep hin hnow hitem h, ?_⟩ ?_
    · exact fun name sort desc heq => absurd heq (hitem name sort desc)
    · cases item with
      | export_ name sort desc => exact absurd rfl (hitem name sort desc)
      | _ => rfl

theorem decodeStep_eq_some {item : Item C} {output : Unit}
    (h : decodeStep k d item = some (output, d')) : decodeItem k item d = .ok ((), d') := by
  unfold decodeStep at h
  cases hdecode : decodeItem k item d with
  | error e =>
      rw [hdecode] at h
      cases h
  | ok r =>
      rw [hdecode] at h
      obtain rfl := Option.some.inj h
      rfl

end runs

private def namesOnly : Validator Nat where
  weakEq name other := name == other
  validateName _ _ _ _ := .ok ()
  validateExportName _ _ _ _ _ := .ok ()
  moduleType ty := .ok ty
  coreExport _ _ := none
  assertInstantiationArgs _ _ := .error (.typeMismatch "")
  coreInlineExports _ := .error (.typeMismatch "")
  freshenImportTypeId _ _ := .error (.typeMismatch "")
  assertSubtypeOf _ _ _ := .error (.typeMismatch "")
  instantiate _ _ _ := .error (.typeMismatch "")
  inlineExports _ _ := .error (.typeMismatch "")
  makeComponent _ _ := .error (.typeMismatch "")
  canonLift _ _ _ _ := .error (.typeMismatch "")
  canonLower _ _ _ := .error (.typeMismatch "")
  destructor _ := .error (.typeMismatch "")
  canonResource _ _ _ := .error (.typeMismatch "")
  currentComponentResources _ _ := .error (.typeMismatch "")
  freshen_grows h := by cases h
  instantiate_grows h := by cases h
  inlineExports_grows h := by cases h
  makeComponent_grows h := by cases h

private def importedFunc : List (Item Nat) :=
  [.type [] (.func ⟨[], [], none⟩), .import_ "f" (.item .func 0), .export_ "g" (.item .func 0) none]

private def exportedModule : List (Item Nat) :=
  [.coreModule 0, .export_ "m" (.coreModule 0) none]

end Telomere.Component
