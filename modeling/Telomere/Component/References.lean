import Telomere.Component.Env
import Telomere.Component.ScopesInStep
import Mathlib.Logic.Relation
import Mathlib.Order.WellFounded

/-!
# References between definitions

A definition refers to others by their places in the stores. The decoder only lets it refer to
definitions that are there already, so following references comes to an end; and it gives the paths
of components inside of others a number that is not that of the root.
-/

namespace Telomere.Component

open Decoding

variable {C : Type}

inductive Ref where
  | item (space : Space) (idx : Nat)
  | core (space : CoreSpace) (idx : Nat)
deriving DecidableEq, Repr

def SortRef.ref : SortRef → Ref
  | .item space idx => .item space idx
  | .coreModule idx => .core .module idx

def CanonicalRefs.refs (options : CanonicalRefs) : List Ref :=
  options.memory.toList.map (.core .memory) ++ options.realloc.toList.map (.core .func) ++
    options.postReturn.toList.map (.core .func)

/-- What is exported by a component is resolved in its instances, not where it is defined. -/
def Definition.refs : Definition → List Ref
  | .component _ _ => []
  | .instance idx imports => .item .component idx :: imports.map (·.2.ref)
  | .canonLift coreFunc _ options => .core .func coreFunc :: options.refs

def CoreDefinition.refs : CoreDefinition → List Ref
  | .module | .type => []
  | .instance idx imports => .core .module idx :: imports.map fun arg => .core .instance arg.2
  | .inlineExport exports => exports.map fun export_ => .core export_.2.1 export_.2.2
  | .canonLower func _ options => .item .func func :: options.refs
  | .canonResource _ _ destructor => destructor.toList.map (.core .func)

def Relation.refs : Relation → List Ref
  | .imported _ => []
  | .fromExport inst _ => [.item .instance inst]
  | .defined definition => definition.refs

def CoreRelation.refs : CoreRelation → List Ref
  | .importModule _ => []
  | .fromExport inst _ => [.item .instance inst]
  | .fromCoreExport inst _ => [.core .instance inst]
  | .defined definition => definition.refs

namespace ComponentProgram

variable (p : ComponentProgram C)

def refs : Ref → List Ref
  | .item space idx => (p.relation space idx).elim [] (·.refs)
  | .core space idx => (p.coreRelation space idx).elim [] (·.refs)

def Stored : Ref → Prop
  | .item space idx => idx < (p.store space).length
  | .core space idx => idx < (p.coreStore space).length

/-- Resolving the one in an environment resolves the other there. -/
def Needs : Ref → Ref → Prop :=
  Relation.ReflTransGen fun ref used => used ∈ p.refs ref

/-- Components that are defined inside of others do not have the path of the root, and references
come to an end. -/
structure Formed : Prop where
  nested : ∀ {idx path exports},
    p.relation .component idx = some (.defined (.component path exports)) → path ≠ .root
  grounded : WellFounded fun used ref => used ∈ p.refs ref

variable {p}

theorem Formed.not_needs (hp : p.Formed) {ref used : Ref} (hused : used ∈ p.refs ref) :
    ¬p.Needs used ref := by
  intro hneeds
  have hcycle : Relation.TransGen (fun ref used => used ∈ p.refs ref) ref ref :=
    .head' hused hneeds
  have hback : Relation.TransGen (fun used ref => used ∈ p.refs ref) ref ref :=
    Relation.transGen_swap.mp hcycle
  exact hp.grounded.transGen.irrefl.irrefl ref hback

end ComponentProgram

/-- `ComponentEngine::compile` after everything was parsed. -/
def Decoder.program (d : Decoder C) : ComponentProgram C :=
  let exports := (d.scopes.head?.map (·.exports)).getD []
  { types := d.types
    store := d.store
    coreStore := d.coreStore
    root := exports
    callableExports := exports.filterMap fun export_ =>
      match export_.2 with
      | .item .func _ => some export_.1
      | _ => none }

/-- Every component that was opened is closed but the root. -/
def compile (k : Validator C) (items : List (Item C)) : Except ParseError (ComponentProgram C) := do
  let (_, d) ← (items.forM (decodeItem k)).run .initial
  if d.scopes.length = 1 then return d.program else throw invalidScope

structure Scope.Ranged (p : ComponentProgram C) (scope : Scope) : Prop where
  values : ∀ space, ∀ idx ∈ scope.values space, p.Stored (.item space idx)
  coreValues : ∀ space, ∀ idx ∈ scope.coreValues space, p.Stored (.core space idx)
  exports : ∀ export_ ∈ scope.exports, p.Stored export_.2.ref

theorem empty_ranged (p : ComponentProgram C) (path : ComponentPath) :
    (Scope.empty path).Ranged p := by
  refine ⟨fun _ _ hmem => ?_, fun _ _ hmem => ?_, fun _ hmem => ?_⟩
  · cases hmem
  · cases hmem
  · cases hmem

/-- Definitions use definitions that are there, and following them comes to an end. -/
structure Grounded (d : Decoder C) : Prop where
  uses : ∀ ref, ∀ used ∈ d.program.refs ref, d.program.Stored used
  ends : ∀ ref, Acc (fun used ref => used ∈ d.program.refs ref) ref
  scopes : ∀ scope ∈ d.scopes, scope.Ranged d.program
  destructors : ∀ entry ∈ d.destructors, d.program.Stored (.core .func entry.2)
  opened : 0 < d.opened
  inner : ∀ path ∈ (d.scopes.map (·.path)).dropLast, path ≠ .root
  nested : ∀ {idx path exports},
    d.program.relation .component idx = some (.defined (.component path exports)) →
      path ≠ .root

section grows

variable {d d' : Decoder C} (hgrows : d.Grows d')

include hgrows

theorem Decoder.Grows.stored {ref : Ref} (h : d.program.Stored ref) : d'.program.Stored ref := by
  cases ref with
  | item space idx => exact Nat.lt_of_lt_of_le h (hgrows.store space).length_le
  | core space idx => exact Nat.lt_of_lt_of_le h (hgrows.coreStore space).length_le

theorem Scope.Ranged.mono {scope : Scope} (h : scope.Ranged d.program) :
    scope.Ranged d'.program :=
  ⟨fun space idx hmem => hgrows.stored (h.values space idx hmem),
    fun space idx hmem => hgrows.stored (h.coreValues space idx hmem),
    fun export_ hmem => hgrows.stored (h.exports export_ hmem)⟩

theorem Decoder.Grows.refs {ref : Ref} (h : d.program.Stored ref) :
    d'.program.refs ref = d.program.refs ref := by
  cases ref with
  | item space idx =>
      have hget : (d.store space)[idx]? = (d'.store space)[idx]? :=
        (List.prefix_iff_getElem?.mp (hgrows.store space) idx h).symm ▸
          List.getElem?_eq_getElem h
      unfold ComponentProgram.refs ComponentProgram.relation
      exact congrArg (fun found => (found.map (·.relation)).elim [] (·.refs)) hget.symm
  | core space idx =>
      have hget : (d.coreStore space)[idx]? = (d'.coreStore space)[idx]? :=
        (List.prefix_iff_getElem?.mp (hgrows.coreStore space) idx h).symm ▸
          List.getElem?_eq_getElem h
      unfold ComponentProgram.refs ComponentProgram.coreRelation
      exact congrArg (fun found => (found.map (·.relation)).elim [] (·.refs)) hget.symm

theorem Grounded.grow (hg : Grounded d)
    (hnew : ∀ ref, ¬d.program.Stored ref → ∀ used ∈ d'.program.refs ref, d.program.Stored used)
    (hscopes : d'.scopes = d.scopes) (hdestructors : d'.destructors = d.destructors)
    (hopened : d.opened ≤ d'.opened)
    (hnested : ∀ {idx path exports}, ¬d.program.Stored (.item .component idx) →
      d'.program.relation .component idx = some (.defined (.component path exports)) →
        path ≠ .root) : Grounded d' := by
  have hold : ∀ ref, d.program.Stored ref →
      Acc (fun used ref => used ∈ d'.program.refs ref) ref := by
    intro ref hstored
    induction hg.ends ref with
    | intro ref _ ih =>
        refine ⟨ref, fun used hused => ?_⟩
        rw [hgrows.refs hstored] at hused
        exact ih used hused (hg.uses ref used hused)
  refine ⟨fun ref used hused => ?_, fun ref => ?_, ?_, ?_, Nat.lt_of_lt_of_le hg.opened hopened,
    ?_, ?_⟩
  · by_cases hstored : d.program.Stored ref
    · rw [hgrows.refs hstored] at hused
      exact hgrows.stored (hg.uses ref used hused)
    · exact hgrows.stored (hnew ref hstored used hused)
  · by_cases hstored : d.program.Stored ref
    · exact hold ref hstored
    · exact ⟨ref, fun used hused => hold used (hnew ref hstored used hused)⟩
  · rw [hscopes]
    exact fun scope hmem => (hg.scopes scope hmem).mono hgrows
  · rw [hdestructors]
    exact fun entry hmem => hgrows.stored (hg.destructors entry hmem)
  · rw [hscopes]
    exact hg.inner
  · intro idx path exports hrelation
    by_cases hstored : d.program.Stored (.item .component idx)
    · have hold : d.program.relation .component idx =
          some (.defined (.component path exports)) := by
        rw [← hrelation]
        unfold ComponentProgram.relation
        exact congrArg (Option.map (·.relation))
          ((List.prefix_iff_getElem?.mp (hgrows.store .component) idx hstored).symm ▸
            List.getElem?_eq_getElem hstored)
      exact hg.nested hold
    · exact hnested hstored hrelation

end grows

section add

variable {d d' : Decoder C}

theorem Grounded.withScopes (hg : Grounded d) {scopes : List Scope} {guards : List (ScopeGuard C)}
    (hscopes : ∀ scope ∈ scopes, scope.Ranged d.program)
    (hinner : ∀ path ∈ (scopes.map (·.path)).dropLast, path ≠ .root) :
    Grounded { d with scopes, guards } := by
  refine ⟨hg.uses, hg.ends, fun scope hmem => ?_, hg.destructors, hg.opened, hinner, hg.nested⟩
  obtain ⟨hvalues, hcoreValues, hexports⟩ := hscopes scope hmem
  exact ⟨hvalues, hcoreValues, hexports⟩

theorem Grounded.withTypes (hg : Grounded d) (types : List (Ty C)) : Grounded { d with types } := by
  refine ⟨hg.uses, hg.ends, fun scope hmem => ?_, hg.destructors, hg.opened, hg.inner, hg.nested⟩
  obtain ⟨hvalues, hcoreValues, hexports⟩ := hg.scopes scope hmem
  exact ⟨hvalues, hcoreValues, hexports⟩

theorem Grounded.modifyHead (hg : Grounded d) {f : Scope → Scope}
    {g : ScopeGuard C → ScopeGuard C} (hpath : ∀ scope, (f scope).path = scope.path)
    (hranged : ∀ scope, scope.Ranged d.program → (f scope).Ranged d.program) :
    Grounded { d with scopes := d.scopes.modifyHead f, guards := d.guards.modifyHead g } := by
  refine hg.withScopes ?_ ?_
  · have hscopes := hg.scopes
    cases hd : d.scopes with
    | nil =>
        intro scope hmem
        cases hmem
    | cons scope scopes =>
        rw [hd] at hscopes
        rw [List.modifyHead_cons, List.forall_mem_cons]
        rw [List.forall_mem_cons] at hscopes
        exact ⟨hranged scope hscopes.1, hscopes.2⟩
  · have hsame : (d.scopes.modifyHead f).map (·.path) = d.scopes.map (·.path) := by
      cases d.scopes with
      | nil => rfl
      | cons scope scopes =>
          rw [List.modifyHead_cons, List.map_cons, List.map_cons, hpath]
    rw [hsame]
    exact hg.inner

theorem modifyGuard_grounded (hg : Grounded d) {g : ScopeGuard C → ScopeGuard C}
    (h : modifyGuard g d = .ok ((), d')) : Grounded d' := by
  obtain ⟨-, rfl⟩ := Prod.mk.inj (Except.ok.inj h)
  exact hg.withScopes hg.scopes hg.inner

theorem addTypeIndex_grounded (hg : Grounded d) {ty : TypeId}
    (h : addTypeIndex ty d = .ok ((), d')) : Grounded d' :=
  modifyGuard_grounded hg h

theorem setTypes_grounded (hg : Grounded d) {types : List (Ty C)}
    (h : setTypes types d = .ok ((), d')) : Grounded d' ∧ d'.program.Stored = d.program.Stored := by
  obtain ⟨-, rfl⟩ := Prod.mk.inj (Except.ok.inj h)
  exact ⟨hg.withTypes types, rfl⟩

private theorem mem_update_append {α β : Type} [DecidableEq α] {entries : α → List β} {key other : α}
    {new b : β} (hmem : b ∈ Function.update entries key (entries key ++ [new]) other) :
    b ∈ entries other ∨ (other = key ∧ b = new) := by
  by_cases heq : other = key
  · subst heq
    rw [Function.update_self, List.mem_append, List.mem_singleton] at hmem
    exact hmem.imp_right fun h => ⟨rfl, h⟩
  · rw [Function.update_of_ne heq] at hmem
    exact .inl hmem

theorem addValue_grounded (hg : Grounded d) {space : Space} {idx : Nat}
    (hstored : d.program.Stored (.item space idx)) (h : addValue space idx d = .ok ((), d')) :
    Grounded d' := by
  obtain ⟨-, rfl⟩ := Prod.mk.inj (Except.ok.inj h)
  have hstep := hg.modifyHead (g := id) (f := fun scope => { scope with
    values := Function.update scope.values space (scope.values space ++ [idx]) })
    (fun _ => rfl) fun scope hs => by
      refine ⟨fun other i hmem => ?_, hs.coreValues, hs.exports⟩
      rcases mem_update_append hmem with hmem | ⟨rfl, rfl⟩
      · exact hs.values other i hmem
      · exact hstored
  rwa [List.modifyHead_id] at hstep

theorem addCoreValue_grounded (hg : Grounded d) {space : CoreSpace} {idx : Nat}
    (hstored : d.program.Stored (.core space idx)) (h : addCoreValue space idx d = .ok ((), d')) :
    Grounded d' := by
  obtain ⟨-, rfl⟩ := Prod.mk.inj (Except.ok.inj h)
  have hstep := hg.modifyHead (g := id) (f := fun scope => { scope with
    coreValues := Function.update scope.coreValues space (scope.coreValues space ++ [idx]) })
    (fun _ => rfl) fun scope hs => by
      refine ⟨hs.values, fun other i hmem => ?_, hs.exports⟩
      rcases mem_update_append hmem with hmem | ⟨rfl, rfl⟩
      · exact hs.coreValues other i hmem
      · exact hstored
  rwa [List.modifyHead_id] at hstep

theorem addExport_grounded (hg : Grounded d) {name : String} {export_ : SortRef}
    (hstored : d.program.Stored export_.ref) (h : addExport name export_ d = .ok ((), d')) :
    Grounded d' ∧ d'.program.Stored = d.program.Stored := by
  obtain ⟨-, rfl⟩ := Prod.mk.inj (Except.ok.inj h)
  have hstep := hg.modifyHead (g := id) (f := fun scope => { scope with
    exports := scope.exports ++ [(name, export_)] })
    (fun _ => rfl) fun scope hs => by
      refine ⟨hs.values, hs.coreValues, fun entry hmem => ?_⟩
      rcases List.mem_append.mp hmem with hmem | hmem
      · exact hs.exports entry hmem
      · rw [List.mem_singleton.mp hmem]
        exact hstored
  rw [List.modifyHead_id] at hstep
  exact ⟨hstep, rfl⟩

theorem add_grounded (hg : Grounded d) {space : Space} {idx : Nat} {ty : TypeId}
    (hstored : d.program.Stored (.item space idx)) (h : add space idx ty d = .ok ((), d')) :
    Grounded d' := by
  obtain ⟨_, d₁, hvalue, h⟩ := Lib.run_bind_eq_ok.mp h
  exact modifyGuard_grounded (addValue_grounded hg hstored hvalue) h

theorem addCore_grounded (hg : Grounded d) {space : CoreSpace} {idx : Nat} {ty : C}
    (hstored : d.program.Stored (.core space idx)) (h : addCore space idx ty d = .ok ((), d')) :
    Grounded d' := by
  obtain ⟨_, d₁, hvalue, h⟩ := Lib.run_bind_eq_ok.mp h
  exact modifyGuard_grounded (addCoreValue_grounded hg hstored hvalue) h

theorem register_grounded (hg : Grounded d) {space : Space} {relation : Relation} {idx : Nat}
    (huses : ∀ used ∈ relation.refs, d.program.Stored used)
    (hnested : ∀ path exports, relation = .defined (.component path exports) →
      path ≠ .root) (h : register space relation d = .ok (idx, d')) :
    Grounded d' ∧ d.Grows d' ∧ d'.program.Stored (.item space idx) := by
  have hext := extends_register space relation d idx d' h
  obtain ⟨_, hget, -⟩ := Option.map_eq_some_iff.mp (register_eq_ok h).2
  obtain ⟨rfl, rfl⟩ := Prod.mk.inj (Except.ok.inj h)
  have hnew : ∀ other i placed, (Function.update d.store space
      (d.store space ++ [⟨d.path, relation⟩]) other)[i]? = some placed →
      ¬i < (d.store other).length → placed.relation = relation := by
    intro other i placed hi hout
    by_cases heq : other = space
    · subst heq
      rw [Function.update_self, List.getElem?_append_right (Nat.le_of_not_lt hout)] at hi
      obtain rfl := List.mem_singleton.mp (List.mem_of_getElem? hi)
      rfl
    · rw [Function.update_of_ne heq] at hi
      exact absurd (List.getElem?_eq_some_iff.mp hi).1 hout
  refine ⟨hg.grow hext.grows ?_ hext.scopes rfl (Nat.le_refl _) ?_, hext.grows,
    (List.getElem?_eq_some_iff.mp hget).1⟩
  · intro ref hout used hused
    cases ref with
    | item other i =>
        unfold ComponentProgram.refs ComponentProgram.relation at hused
        cases hi : (Function.update d.store space (d.store space ++ [⟨d.path, relation⟩]) other)[i]?
          with
        | none =>
            have hnone : used ∈ ([] : List Ref) := by
              unfold Decoder.program at hused
              dsimp only at hused
              rw [hi] at hused
              exact hused
            cases hnone
        | some placed =>
            unfold Decoder.program at hused
            dsimp only at hused
            rw [hi, Option.map_some, hnew other i placed hi hout] at hused
            exact huses used hused
    | core other i => exact hg.uses (.core other i) used hused
  · intro i path exports hout hrelation
    obtain ⟨placed, hi, hplaced⟩ := Option.map_eq_some_iff.mp hrelation
    rw [hnew .component i placed hi hout] at hplaced
    exact hnested path exports hplaced

theorem registerCore_grounded (hg : Grounded d) {space : CoreSpace} {relation : CoreRelation}
    {idx : Nat} (huses : ∀ used ∈ relation.refs, d.program.Stored used)
    (h : registerCore space relation d = .ok (idx, d')) :
    Grounded d' ∧ d'.program.Stored (.core space idx) := by
  have hext := extends_registerCore space relation d idx d' h
  obtain ⟨_, hget, -⟩ := Option.map_eq_some_iff.mp (registerCore_eq_ok h).2
  obtain ⟨rfl, rfl⟩ := Prod.mk.inj (Except.ok.inj h)
  refine ⟨hg.grow hext.grows ?_ hext.scopes rfl (Nat.le_refl _) ?_,
    (List.getElem?_eq_some_iff.mp hget).1⟩
  · intro ref hout used hused
    cases ref with
    | item other i => exact hg.uses (.item other i) used hused
    | core other i =>
        replace hout : ¬i < (d.coreStore other).length := hout
        unfold ComponentProgram.refs ComponentProgram.coreRelation Decoder.program at hused
        dsimp only at hused
        by_cases heq : other = space
        · subst heq
          rw [Function.update_self,
            List.getElem?_append_right (Nat.le_of_not_lt hout)] at hused
          cases hi : [(⟨d.path, relation⟩ : Placed CoreRelation)][i - (d.coreStore other).length]?
            with
          | none =>
              rw [hi] at hused
              cases hused
          | some placed =>
              obtain rfl := List.mem_singleton.mp (List.mem_of_getElem? hi)
              rw [hi] at hused
              exact huses used hused
        · rw [Function.update_of_ne heq] at hused
          exact hg.uses (.core other i) used hused
  · exact fun _ hrelation => hg.nested hrelation

theorem register_add_grounded (hg : Grounded d) {space : Space} {relation : Relation} {ty : TypeId}
    (huses : ∀ used ∈ relation.refs, d.program.Stored used)
    (hnested : ∀ path exports, relation = .defined (.component path exports) → path ≠ .root)
    (h : (do let idx ← register space relation; add space idx ty) d = .ok ((), d')) :
    Grounded d' := by
  obtain ⟨idx, d₁, hregister, h⟩ := Lib.run_bind_eq_ok.mp h
  obtain ⟨hg₁, -, hstored⟩ := register_grounded hg huses hnested hregister
  exact add_grounded hg₁ hstored h

theorem registerCore_add_grounded (hg : Grounded d) {space : CoreSpace} {relation : CoreRelation}
    {ty : C} (huses : ∀ used ∈ relation.refs, d.program.Stored used)
    (h : (do let idx ← registerCore space relation; addCore space idx ty) d = .ok ((), d')) :
    Grounded d' := by
  obtain ⟨idx, d₁, hregister, h⟩ := Lib.run_bind_eq_ok.mp h
  obtain ⟨hg₁, hstored⟩ := registerCore_grounded hg huses hregister
  exact addCore_grounded hg₁ hstored h

end add

section lookup

variable {d d₁ : Decoder C} (hg : Grounded d)

include hg

theorem valueAt_stored {count idx value : Nat} {space : Space}
    (h : valueAt count space idx d = .ok (value, d₁)) : d.program.Stored (.item space value) := by
  obtain ⟨⟨scope, hscope, hget⟩, -⟩ := scopeLookup_eq_ok h
  exact (hg.scopes scope (List.mem_of_getElem? hscope)).values space value
    (List.mem_of_getElem? hget)

theorem coreValueAt_stored {count idx value : Nat} {space : CoreSpace}
    (h : coreValueAt count space idx d = .ok (value, d₁)) :
    d.program.Stored (.core space value) := by
  obtain ⟨⟨scope, hscope, hget⟩, -⟩ := scopeLookup_eq_ok h
  exact (hg.scopes scope (List.mem_of_getElem? hscope)).coreValues space value
    (List.mem_of_getElem? hget)

theorem parseSortWithIdx_stored {sort : SortIdx} {found : Option SortRef × SortType C}
    (h : parseSortWithIdx sort d = .ok (found, d₁)) :
    ∀ ref ∈ found.1, d.program.Stored ref.ref := by
  cases sort with
  | item space idx =>
      obtain ⟨ty, -, h⟩ := reads_bind_eq_ok reads_guardLookup h
      obtain ⟨value, hvalue, h⟩ := reads_bind_eq_ok reads_scopeLookup h
      obtain ⟨rfl, -⟩ := Lib.run_pure_eq_ok.mp h
      rintro ref ⟨⟩
      exact valueAt_stored hg hvalue
  | coreModule idx =>
      obtain ⟨ty, -, h⟩ := reads_bind_eq_ok reads_guardLookup h
      obtain ⟨value, hvalue, h⟩ := reads_bind_eq_ok reads_scopeLookup h
      obtain ⟨rfl, -⟩ := Lib.run_pure_eq_ok.mp h
      rintro ref ⟨⟩
      exact coreValueAt_stored hg hvalue
  | type idx =>
      obtain ⟨ty, -, h⟩ := reads_bind_eq_ok reads_guardLookup h
      obtain ⟨rfl, -⟩ := Lib.run_pure_eq_ok.mp h
      rintro ref ⟨⟩

theorem parseArgs_stored {args : List (String × SortIdx)}
    {found : List (String × SortRef) × List (String × SortType C)}
    (h : parseArgs args d = .ok (found, d₁)) : ∀ arg ∈ found.1, d.program.Stored arg.2.ref := by
  induction args generalizing found with
  | nil =>
      obtain ⟨rfl, -⟩ := Lib.run_pure_eq_ok.mp h
      intro arg hmem
      cases hmem
  | cons arg args ih =>
      obtain ⟨⟨value, ty⟩, hvalue, h⟩ := reads_bind_eq_ok (reads_parseSortWithIdx arg.2) h
      obtain ⟨⟨values, types⟩, hvalues, h⟩ := reads_bind_eq_ok (reads_parseArgs args) h
      obtain ⟨rfl, rfl⟩ := Lib.run_pure_eq_ok.mp h
      intro entry hmem
      rcases List.mem_append.mp hmem with hmem | hmem
      · obtain ⟨ref, href, rfl⟩ := List.mem_map.mp hmem
        exact parseSortWithIdx_stored hg hvalue ref (Option.mem_toList.mp href)
      · exact ih hvalues entry hmem

theorem parseCoreArgs_stored {args : List (String × Nat)}
    {found : List (String × Nat) × List (String × C)}
    (h : parseCoreArgs args d = .ok (found, d₁)) :
    ∀ arg ∈ found.1, d.program.Stored (.core .instance arg.2) := by
  induction args generalizing found with
  | nil =>
      obtain ⟨rfl, -⟩ := Lib.run_pure_eq_ok.mp h
      intro arg hmem
      cases hmem
  | cons arg args ih =>
      obtain ⟨ty, -, h⟩ := reads_bind_eq_ok reads_guardLookup h
      obtain ⟨value, hvalue, h⟩ := reads_bind_eq_ok reads_scopeLookup h
      obtain ⟨⟨values, types⟩, hvalues, h⟩ := reads_bind_eq_ok (reads_parseCoreArgs args) h
      obtain ⟨rfl, rfl⟩ := Lib.run_pure_eq_ok.mp h
      rw [List.forall_mem_cons]
      exact ⟨coreValueAt_stored hg hvalue, ih hvalues⟩

theorem parseCoreInlineExports_stored {exports : List (String × (CoreSpace × Nat))}
    {found : List (String × (CoreSpace × Nat)) × List (String × (CoreSpace × C))}
    (h : parseCoreInlineExports exports d = .ok (found, d₁)) :
    ∀ export_ ∈ found.1, d.program.Stored (.core export_.2.1 export_.2.2) := by
  induction exports generalizing found with
  | nil =>
      obtain ⟨rfl, -⟩ := Lib.run_pure_eq_ok.mp h
      intro export_ hmem
      cases hmem
  | cons export_ exports ih =>
      obtain ⟨ty, -, h⟩ := reads_bind_eq_ok reads_guardLookup h
      obtain ⟨value, hvalue, h⟩ := reads_bind_eq_ok reads_scopeLookup h
      obtain ⟨⟨values, types⟩, hvalues, h⟩ :=
        reads_bind_eq_ok (reads_parseCoreInlineExports exports) h
      obtain ⟨rfl, rfl⟩ := Lib.run_pure_eq_ok.mp h
      rw [List.forall_mem_cons]
      exact ⟨coreValueAt_stored hg hvalue, ih hvalues⟩

theorem parseOption_stored {space : CoreSpace} {option : Option Nat}
    {found : Option Nat × Option C} (h : parseOption space option d = .ok (found, d₁)) :
    ∀ ref ∈ found.1.toList.map (Ref.core space), d.program.Stored ref := by
  cases option with
  | none =>
      obtain ⟨rfl, -⟩ := Lib.run_pure_eq_ok.mp h
      intro ref hmem
      cases hmem
  | some idx =>
      obtain ⟨ty, -, h⟩ := reads_bind_eq_ok reads_guardLookup h
      obtain ⟨value, hvalue, h⟩ := reads_bind_eq_ok reads_scopeLookup h
      obtain ⟨rfl, rfl⟩ := Lib.run_pure_eq_ok.mp h
      intro ref hmem
      obtain rfl := List.mem_singleton.mp hmem
      exact coreValueAt_stored hg hvalue

theorem parseCanonicalOptions_stored {options : CanonicalOptionsIdx}
    {found : CanonicalRefs × List (Option C)}
    (h : parseCanonicalOptions options d = .ok (found, d₁)) :
    ∀ ref ∈ found.1.refs, d.program.Stored ref := by
  obtain ⟨⟨memory, memoryTy⟩, hmemory, h⟩ := reads_bind_eq_ok (reads_parseOption _ _) h
  obtain ⟨⟨realloc, reallocTy⟩, hrealloc, h⟩ := reads_bind_eq_ok (reads_parseOption _ _) h
  obtain ⟨⟨postReturn, postReturnTy⟩, hpostReturn, h⟩ :=
    reads_bind_eq_ok (reads_parseOption _ _) h
  obtain ⟨rfl, rfl⟩ := Lib.run_pure_eq_ok.mp h
  intro ref hmem
  rcases List.mem_append.mp hmem with hmem | hmem
  · rcases List.mem_append.mp hmem with hmem | hmem
    · exact parseOption_stored hg hmemory ref hmem
    · exact parseOption_stored hg hrealloc ref hmem
  · exact parseOption_stored hg hpostReturn ref hmem

theorem destructorOf_stored {types : List (Ty C)} {depth func : Nat} {ty : TypeId}
    (h : destructorOf types d.destructors depth ty = some func) :
    d.program.Stored (.core .func func) := by
  induction depth generalizing ty with
  | zero => cases h
  | succ depth ih =>
      unfold destructorOf at h
      split at h
      · rename_i id _
        obtain ⟨_, _, happend, -⟩ := List.lookup_eq_some_iff.mp h
        refine hg.destructors (id, func) ?_
        rw [happend]
        exact List.mem_append_right _ (List.mem_cons_self ..)
      · exact ih h
      · exact ih h
      · exact ih h
      · cases h

end lookup

section items

variable {k : Validator C} {d d' : Decoder C} (hg : Grounded d)

include hg

theorem freshen_grounded {ty fresh : TypeId} (h : freshen k ty d = .ok (fresh, d')) :
    Grounded d' ∧ d'.program.Stored = d.program.Stored := by
  obtain ⟨⟨ty', types⟩, -, h⟩ := reads_bind_eq_ok (reads_lift _) (get_bind_eq_ok.mp h)
  obtain ⟨_, d₂, hset, h⟩ := Lib.run_bind_eq_ok.mp h
  obtain ⟨-, rfl⟩ := Lib.run_pure_eq_ok.mp h
  exact setTypes_grounded hg hset

theorem parseCoreInstantiate_grounded {module : Nat} {args : List (String × Nat)}
    (h : parseCoreInstantiate k module args d = .ok ((), d')) : Grounded d' := by
  obtain ⟨moduleIdx, hmodule, h⟩ := reads_bind_eq_ok reads_scopeLookup h
  obtain ⟨moduleTy, -, h⟩ := reads_bind_eq_ok reads_guardLookup h
  obtain ⟨⟨imports, importTypes⟩, himports, h⟩ := reads_bind_eq_ok (reads_parseCoreArgs args) h
  obtain ⟨-, -, h⟩ := reads_bind_eq_ok (reads_lift _) h
  obtain ⟨ty, -, h⟩ := reads_bind_eq_ok (reads_lift _) h
  refine registerCore_add_grounded hg (List.forall_mem_cons.mpr ⟨?_, ?_⟩) h
  · exact coreValueAt_stored hg hmodule
  · exact List.forall_mem_map.mpr (parseCoreArgs_stored hg himports)

theorem parseCoreInlineExport_grounded {exports : List (String × (CoreSpace × Nat))}
    (h : parseCoreInlineExport k exports d = .ok ((), d')) : Grounded d' := by
  obtain ⟨⟨values, types⟩, hvalues, h⟩ :=
    reads_bind_eq_ok (reads_parseCoreInlineExports exports) h
  obtain ⟨-, -, h⟩ := reads_bind_eq_ok (reads_lift _) h
  obtain ⟨ty, -, h⟩ := reads_bind_eq_ok (reads_lift _) h
  refine registerCore_add_grounded hg ?_ h
  exact List.forall_mem_map.mpr (parseCoreInlineExports_stored hg hvalues)

theorem parseInstantiate_grounded {component : Nat} {args : List (String × SortIdx)}
    (h : parseInstantiate k component args d = .ok ((), d')) : Grounded d' := by
  obtain ⟨⟨imports, types⟩, himports, h⟩ := reads_bind_eq_ok (reads_parseArgs args) h
  obtain ⟨-, -, h⟩ := reads_bind_eq_ok (reads_lift _) h
  obtain ⟨componentIdx, hcomponent, h⟩ := reads_bind_eq_ok reads_scopeLookup h
  obtain ⟨componentTy, -, h⟩ := reads_bind_eq_ok reads_guardLookup h
  obtain ⟨⟨ty, arena⟩, -, h⟩ := reads_bind_eq_ok (reads_lift _) (get_bind_eq_ok.mp h)
  obtain ⟨_, d₁, hset, h⟩ := Lib.run_bind_eq_ok.mp h
  obtain ⟨hg₁, hstored⟩ := setTypes_grounded hg hset
  refine register_add_grounded hg₁ ?_ (fun _ _ heq => by cases heq) h
  rw [hstored]
  refine List.forall_mem_cons.mpr ⟨valueAt_stored hg hcomponent, ?_⟩
  exact List.forall_mem_map.mpr (parseArgs_stored hg himports)

theorem nextPath_grounded {path : ComponentPath} (h : nextPath d = .ok (path, d')) :
    Grounded d' ∧ d'.program.Stored = d.program.Stored ∧ path ≠ .root ∧ d'.scopes = d.scopes := by
  have hext := extends_nextPath d path d' h
  obtain ⟨rfl, rfl⟩ := Prod.mk.inj (Except.ok.inj h)
  refine ⟨?_, rfl, ?_, rfl⟩
  · refine hg.grow hext.grows ?_ rfl rfl (Nat.le_succ _) ?_
    · exact fun ref _ used hused => hg.uses ref used hused
    · exact fun _ hrelation => hg.nested hrelation
  · intro hroot
    exact Nat.ne_of_gt hg.opened (List.cons.inj hroot).1

theorem parseInlineexport_grounded {exports : List (String × SortIdx)}
    (h : parseInlineexport k exports d = .ok ((), d')) : Grounded d' := by
  obtain ⟨⟨values, types⟩, -, h⟩ := reads_bind_eq_ok (reads_parseArgs exports) h
  obtain ⟨⟨ty, arena⟩, -, h⟩ := reads_bind_eq_ok (reads_lift _) (get_bind_eq_ok.mp h)
  obtain ⟨_, d₁, hset, h⟩ := Lib.run_bind_eq_ok.mp h
  obtain ⟨hg₁, -⟩ := setTypes_grounded hg hset
  obtain ⟨path, d₂, hpath, h⟩ := Lib.run_bind_eq_ok.mp h
  obtain ⟨hg₂, -, hinner, -⟩ := nextPath_grounded hg₁ hpath
  obtain ⟨component, d₃, hregister, h⟩ := Lib.run_bind_eq_ok.mp h
  obtain ⟨hg₃, -, hstored⟩ := register_grounded hg₂ (fun used hused => by cases hused)
    (fun path' _ heq => by cases heq; exact hinner) hregister
  refine register_add_grounded hg₃ ?_ (fun _ _ heq => by cases heq) h
  exact List.forall_mem_cons.mpr ⟨hstored, fun used hused => by cases hused⟩

theorem parseExportAlias_grounded {sort : AliasSort} {inst : Nat} {name : String}
    (h : parseExportAlias k sort inst name d = .ok ((), d')) : Grounded d' := by
  obtain ⟨instanceIdx, hvalue, h⟩ := reads_bind_eq_ok reads_scopeLookup h
  obtain ⟨instanceTy, -, h⟩ := reads_bind_eq_ok reads_guardLookup h
  obtain ⟨export_, -, h⟩ := reads_bind_eq_ok (reads_lift _) (get_bind_eq_ok.mp h)
  have huses : ∀ used ∈ [Ref.item .instance instanceIdx], d.program.Stored used := by
    intro used hused
    obtain rfl := List.mem_singleton.mp hused
    exact valueAt_stored hg hvalue
  have hfresh : ∀ {space : Space} {ty : TypeId}, (do
      let ty ← freshen k ty
      let idx ← register space (.fromExport instanceIdx name)
      add space idx ty) d = .ok ((), d') → Grounded d' := by
    intro space ty h
    obtain ⟨fresh, d₁, hfreshen, h⟩ := Lib.run_bind_eq_ok.mp h
    obtain ⟨hg₁, hstored⟩ := freshen_grounded hg hfreshen
    refine register_add_grounded hg₁ ?_ (fun _ _ heq => by cases heq) h
    rw [hstored]
    exact huses
  split at h
  · exact hfresh h
  · refine register_add_grounded hg ?_ (fun _ _ heq => by cases heq) h
    exact huses
  · exact addTypeIndex_grounded hg h
  · exact hfresh h
  · refine registerCore_add_grounded hg ?_ h
    exact huses
  · cases h

theorem parseCoreExport_grounded {space : CoreSpace} {inst : Nat} {name : String}
    (h : parseCoreExport k space inst name d = .ok ((), d')) : Grounded d' := by
  obtain ⟨instanceIdx, hvalue, h⟩ := reads_bind_eq_ok reads_scopeLookup h
  obtain ⟨instanceTy, -, h⟩ := reads_bind_eq_ok reads_guardLookup h
  cases hexport : k.coreExport instanceTy name with
  | none =>
      rw [hexport] at h
      cases h
  | some export_ =>
      obtain ⟨found, ty⟩ := export_
      rw [hexport] at h
      change (if found = space then _ else _ : Decoding C Unit) d = _ at h
      split at h
      · refine registerCore_add_grounded hg ?_ h
        intro used hused
        obtain rfl := List.mem_singleton.mp hused
        exact coreValueAt_stored hg hvalue
      · cases h

theorem parseOuterExport_grounded {sort : AliasSort} {count idx : Nat}
    (h : parseOuterExport k sort count idx d = .ok ((), d')) : Grounded d' := by
  cases sort with
  | item space =>
      obtain ⟨value, hvalue, h⟩ := reads_bind_eq_ok reads_scopeLookup h
      obtain ⟨ty, -, h⟩ := reads_bind_eq_ok reads_guardLookup h
      exact add_grounded hg (valueAt_stored hg hvalue) h
  | core space =>
      change (if space = .module ∨ space = .type then _ else _ : Decoding C Unit) d = _ at h
      split at h
      · obtain ⟨value, hvalue, h⟩ := reads_bind_eq_ok reads_scopeLookup h
        obtain ⟨ty, -, h⟩ := reads_bind_eq_ok reads_guardLookup h
        exact addCore_grounded hg (coreValueAt_stored hg hvalue) h
      · cases h
  | type =>
      obtain ⟨ty, -, h⟩ := reads_bind_eq_ok reads_guardLookup h
      obtain ⟨-, -, h⟩ := reads_bind_eq_ok (reads_lift _) (get_bind_eq_ok.mp h)
      exact addTypeIndex_grounded hg h

theorem parseLift_grounded {coreFunc ty : Nat} {options : CanonicalOptionsIdx}
    (h : parseLift k coreFunc options ty d = .ok ((), d')) : Grounded d' := by
  obtain ⟨coreFuncIdx, hvalue, h⟩ := reads_bind_eq_ok reads_scopeLookup h
  obtain ⟨coreFuncTy, -, h⟩ := reads_bind_eq_ok reads_guardLookup h
  obtain ⟨⟨refs, optionTypes⟩, hoptions, h⟩ :=
    reads_bind_eq_ok (reads_parseCanonicalOptions options) h
  obtain ⟨ty, -, h⟩ := reads_bind_eq_ok reads_guardLookup h
  obtain ⟨-, -, h⟩ := reads_bind_eq_ok (reads_lift _) (get_bind_eq_ok.mp h)
  refine register_add_grounded hg (List.forall_mem_cons.mpr ⟨?_, ?_⟩)
    (fun _ _ heq => by cases heq) h
  · exact coreValueAt_stored hg hvalue
  · exact parseCanonicalOptions_stored hg hoptions

theorem parseLower_grounded {func : Nat} {options : CanonicalOptionsIdx}
    (h : parseLower k func options d = .ok ((), d')) : Grounded d' := by
  obtain ⟨funcIdx, hvalue, h⟩ := reads_bind_eq_ok reads_scopeLookup h
  obtain ⟨ty, -, h⟩ := reads_bind_eq_ok reads_guardLookup h
  obtain ⟨⟨refs, optionTypes⟩, hoptions, h⟩ :=
    reads_bind_eq_ok (reads_parseCanonicalOptions options) h
  obtain ⟨lowered, -, h⟩ := reads_bind_eq_ok (reads_lift _) (get_bind_eq_ok.mp h)
  refine registerCore_add_grounded hg (List.forall_mem_cons.mpr ⟨?_, ?_⟩) h
  · exact valueAt_stored hg hvalue
  · exact parseCanonicalOptions_stored hg hoptions

theorem parseResource_grounded {kind : ResourceCanonKind} {ty : Nat}
    (h : parseResource k kind ty d = .ok ((), d')) : Grounded d' := by
  obtain ⟨ty, -, h⟩ := reads_bind_eq_ok reads_guardLookup h
  obtain ⟨coreTy, -, h⟩ := reads_bind_eq_ok (reads_lift _) (get_bind_eq_ok.mp h)
  refine registerCore_add_grounded hg ?_ (get_bind_eq_ok.mp h)
  intro used hused
  obtain ⟨func, hfunc, rfl⟩ := List.mem_map.mp hused
  exact destructorOf_stored hg (Option.mem_toList.mp hfunc)

theorem parseResourceType_grounded {id : Nat} {destructor : Option Nat}
    (h : parseResourceType k id destructor d = .ok ((), d')) : Grounded d' := by
  obtain ⟨⟨func, funcTy⟩, hfunc, h⟩ := reads_bind_eq_ok (reads_parseOption .func destructor) h
  obtain ⟨-, -, h⟩ := reads_bind_eq_ok (reads_lift _) h
  obtain ⟨_, d₁, hmodify, h⟩ := Lib.run_bind_eq_ok.mp h
  obtain ⟨-, rfl⟩ := Prod.mk.inj (Except.ok.inj hmodify)
  have hg₁ : Grounded { d with
      destructors := d.destructors ++ (func.map fun func => (id, func)).toList } := by
    refine ⟨hg.uses, hg.ends, fun scope hmem => ?_, fun entry hmem => ?_, hg.opened, hg.inner,
      hg.nested⟩
    · obtain ⟨hvalues, hcoreValues, hexports⟩ := hg.scopes scope hmem
      exact ⟨hvalues, hcoreValues, hexports⟩
    · rcases List.mem_append.mp hmem with hmem | hmem
      · exact hg.destructors entry hmem
      · obtain ⟨value, rfl, rfl⟩ := Option.map_eq_some_iff.mp (Option.mem_toList.mp hmem)
        exact parseOption_stored hg hfunc (.core .func value) (List.mem_singleton_self _)
  obtain ⟨_, d₂, hset, h⟩ := Lib.run_bind_eq_ok.mp (get_bind_eq_ok.mp h)
  exact addTypeIndex_grounded (setTypes_grounded hg₁ hset).1 h

theorem newGeneric_grounded {bound : GenericBound} {generic : Generic}
    (h : newGeneric bound d = .ok (generic, d')) : Grounded d' := by
  have hext := extends_newGeneric bound d generic d' h
  obtain ⟨-, rfl⟩ := Prod.mk.inj (Except.ok.inj h)
  refine hg.grow hext.grows ?_ rfl rfl (Nat.le_refl _) ?_
  · exact fun ref _ used hused => hg.uses ref used hused
  · exact fun _ hrelation => hg.nested hrelation

theorem addImported_grounded {name : String} {desc : ExternDesc C}
    (h : addImported k name desc d = .ok ((), d')) : Grounded d' := by
  have hitem : ∀ {d₁ : Decoder C} {space : Space} {ty : TypeId}, Grounded d₁ → (do
      let idx ← register space (.imported name)
      addImportType name (.type ty (← newGeneric (.eq ty)))
      add space idx ty) d₁ = .ok ((), d') → Grounded d' := by
    intro d₁ space ty hg₁ h
    obtain ⟨idx, d₂, hregister, h⟩ := Lib.run_bind_eq_ok.mp h
    obtain ⟨hg₂, -, hstored⟩ := register_grounded hg₁ (fun _ hused => by cases hused)
      (fun _ _ heq => by cases heq) hregister
    obtain ⟨generic, d₃, hgeneric, h⟩ := Lib.run_bind_eq_ok.mp h
    have hg₃ := newGeneric_grounded hg₂ hgeneric
    have hstored₃ := (extends_newGeneric _ _ _ _ hgeneric).grows.stored hstored
    obtain ⟨_, d₄, himport, h⟩ := Lib.run_bind_eq_ok.mp h
    have hg₄ := modifyGuard_grounded hg₃ himport
    obtain ⟨-, rfl⟩ := Prod.mk.inj (Except.ok.inj himport)
    exact add_grounded hg₄ hstored₃ h
  unfold addImported at h
  split at h
  · obtain ⟨idx, d₁, hregister, h⟩ := Lib.run_bind_eq_ok.mp h
    obtain ⟨hg₁, hstored⟩ := registerCore_grounded hg (fun _ hused => by cases hused) hregister
    obtain ⟨_, d₂, himport, h⟩ := Lib.run_bind_eq_ok.mp h
    have hg₂ := modifyGuard_grounded hg₁ himport
    obtain ⟨-, rfl⟩ := Prod.mk.inj (Except.ok.inj himport)
    exact addCore_grounded hg₂ hstored h
  · obtain ⟨fresh, d₁, hfreshen, h⟩ := Lib.run_bind_eq_ok.mp h
    exact hitem (freshen_grounded hg hfreshen).1 h
  · exact hitem hg h
  · obtain ⟨generic, d₁, hgeneric, h⟩ := Lib.run_bind_eq_ok.mp h
    obtain ⟨_, d₂, himport, h⟩ := Lib.run_bind_eq_ok.mp h
    exact addTypeIndex_grounded (modifyGuard_grounded (newGeneric_grounded hg hgeneric) himport) h
  · obtain ⟨generic, d₁, hgeneric, h⟩ := Lib.run_bind_eq_ok.mp h
    obtain ⟨_, d₂, hset, h⟩ := Lib.run_bind_eq_ok.mp (get_bind_eq_ok.mp h)
    obtain ⟨_, d₃, himport, h⟩ := Lib.run_bind_eq_ok.mp h
    have hg₂ := (setTypes_grounded (newGeneric_grounded hg hgeneric) hset).1
    exact addTypeIndex_grounded (modifyGuard_grounded hg₂ himport) h

theorem parseImport_grounded {name : String} {desc : ExternDescIdx}
    (h : parseImport k name desc d = .ok ((), d')) : Grounded d' := by
  obtain ⟨_, -, h⟩ := reads_bind_eq_ok (reads_guard 0) h
  split at h
  · cases h
  · obtain ⟨_, d₁, hnames, h⟩ := Lib.run_bind_eq_ok.mp h
    obtain ⟨desc, -, h⟩ := reads_bind_eq_ok (reads_parseExterndesc desc) h
    obtain ⟨_, -, h⟩ := reads_bind_eq_ok (reads_guard 0) (get_bind_eq_ok.mp h)
    obtain ⟨-, -, h⟩ := reads_bind_eq_ok (reads_lift _) h
    exact addImported_grounded (modifyGuard_grounded hg hnames) h

theorem addExported_grounded {name : String} {desc : Option (ExternDesc C)}
    {found : Option SortRef × SortType C} (hfound : ∀ ref ∈ found.1, d.program.Stored ref.ref)
    (h : addExported k name desc found d = .ok ((), d')) : Grounded d' := by
  unfold addExported at h
  split at h
  · obtain ⟨_, d₁, hexport, h⟩ := Lib.run_bind_eq_ok.mp h
    obtain ⟨hg₁, hstored⟩ := addExport_grounded hg (hfound _ rfl) hexport
    obtain ⟨_, d₂, hvalue, h⟩ := Lib.run_bind_eq_ok.mp h
    refine modifyGuard_grounded (addCoreValue_grounded hg₁ ?_ hvalue) h
    rw [hstored]
    exact hfound _ rfl
  · obtain ⟨info, -, h⟩ := reads_bind_eq_ok (reads_checkTypeExport _ _) h
    obtain ⟨_, d₁, htype, h⟩ := Lib.run_bind_eq_ok.mp h
    exact modifyGuard_grounded (addTypeIndex_grounded hg htype) h
  · obtain ⟨ty', -, h⟩ := reads_bind_eq_ok (reads_ascribe _ _ _) h
    obtain ⟨_, d₁, hexport, h⟩ := Lib.run_bind_eq_ok.mp h
    obtain ⟨_, d₂, htype, h⟩ := Lib.run_bind_eq_ok.mp h
    have hg₁ := (addExport_grounded hg (hfound _ rfl) hexport).1
    exact modifyGuard_grounded (modifyGuard_grounded hg₁ htype) h
  · obtain ⟨ty', -, h⟩ := reads_bind_eq_ok (reads_ascribe _ _ _) h
    obtain ⟨_, d₁, hexport, h⟩ := Lib.run_bind_eq_ok.mp h
    obtain ⟨hg₁, hstored⟩ := addExport_grounded hg (hfound _ rfl) hexport
    obtain ⟨_, d₂, hadd, h⟩ := Lib.run_bind_eq_ok.mp h
    refine modifyGuard_grounded (add_grounded hg₁ ?_ hadd) h
    rw [hstored]
    exact hfound _ rfl
  · cases h

theorem parseExport_grounded {name : String} {sort : SortIdx} {desc : Option ExternDescIdx}
    (h : parseExport k name sort desc d = .ok ((), d')) : Grounded d' := by
  obtain ⟨-, found, desc', hfound, h⟩ := parseExport_eq_ok h
  have hg₁ : Grounded (d.nameExport name) := hg.withScopes hg.scopes hg.inner
  exact addExported_grounded hg₁ (parseSortWithIdx_stored hg₁ hfound) h

theorem openComponent_grounded (h : openComponent d = .ok ((), d')) : Grounded d' := by
  obtain ⟨path, d₁, hpath, h⟩ := Lib.run_bind_eq_ok.mp h
  obtain ⟨hg₁, -, hroot, -⟩ := nextPath_grounded hg hpath
  obtain ⟨-, rfl⟩ := Prod.mk.inj (Except.ok.inj h)
  refine hg₁.withScopes ?_ ?_
  · exact List.forall_mem_cons.mpr ⟨empty_ranged _ path, hg₁.scopes⟩
  · intro other hmem
    cases hscopes : d₁.scopes with
    | nil =>
        rw [hscopes] at hmem
        cases hmem
    | cons scope scopes =>
        have hinner := hg₁.inner
        rw [hscopes] at hmem hinner
        rw [List.map_cons, List.map_cons, List.dropLast_cons_cons] at hmem
        rcases List.mem_cons.mp hmem with rfl | hmem
        · exact hroot
        · exact hinner other hmem

theorem closeComponent_grounded (h : closeComponent k d = .ok ((), d')) : Grounded d' := by
  obtain ⟨inner, d₁, hinner, h⟩ := Lib.run_bind_eq_ok.mp h
  obtain ⟨hcurrent, rfl⟩ := scope_eq_ok hinner
  obtain ⟨innerGuard, -, h⟩ := reads_bind_eq_ok (reads_guard 0) h
  obtain ⟨around, d₁, haround, h⟩ := Lib.run_bind_eq_ok.mp h
  obtain ⟨hnext, rfl⟩ := scope_eq_ok haround
  obtain ⟨⟨ty, arena⟩, -, h⟩ := reads_bind_eq_ok (reads_lift _) (get_bind_eq_ok.mp h)
  obtain ⟨_, d₁, htail, h⟩ := Lib.run_bind_eq_ok.mp h
  obtain ⟨-, rfl⟩ := Prod.mk.inj (Except.ok.inj htail)
  obtain ⟨_, d₂, hset, h⟩ := Lib.run_bind_eq_ok.mp h
  -- there is a scope around the current one, so that one is not of the root
  obtain ⟨first, rest, hscopes⟩ : ∃ first rest, d.scopes = inner :: first :: rest := by
    cases hd : d.scopes with
    | nil =>
        rw [hd] at hcurrent
        cases hcurrent
    | cons scope scopes =>
        rw [hd] at hcurrent hnext
        obtain rfl := Option.some.inj hcurrent
        cases hrest : scopes with
        | nil =>
            rw [hrest] at hnext
            cases hnext
        | cons first rest => exact ⟨first, rest, rfl⟩
  have hpaths := hg.inner
  rw [hscopes, List.map_cons, List.map_cons, List.dropLast_cons_cons] at hpaths
  rw [List.forall_mem_cons] at hpaths
  have hg₁ : Grounded { d with scopes := d.scopes.tail, guards := d.guards.tail } := by
    refine hg.withScopes (fun scope hmem => hg.scopes scope (List.mem_of_mem_tail hmem)) ?_
    rw [hscopes]
    exact hpaths.2
  obtain ⟨hg₂, -⟩ := setTypes_grounded hg₁ hset
  refine register_add_grounded hg₂ (fun _ hused => by cases hused) ?_ h
  intro path exports heq
  cases heq
  exact hpaths.1

theorem decodeItem_grounded {item : Item C} (h : decodeItem k item d = .ok ((), d')) :
    Grounded d' := by
  cases item with
  | type inner ty =>
      obtain ⟨_, d₁, hset, h⟩ := Lib.run_bind_eq_ok.mp (get_bind_eq_ok.mp h)
      exact addTypeIndex_grounded (setTypes_grounded hg hset).1 h
  | resource id destructor => exact parseResourceType_grounded hg h
  | coreModule ty => exact registerCore_add_grounded hg (fun _ hused => by cases hused) h
  | coreType ty => exact registerCore_add_grounded hg (fun _ hused => by cases hused) h
  | coreInstantiate module args => exact parseCoreInstantiate_grounded hg h
  | coreInlineExports exports => exact parseCoreInlineExport_grounded hg h
  | openComponent => exact openComponent_grounded hg h
  | closeComponent => exact closeComponent_grounded hg h
  | instantiate component args => exact parseInstantiate_grounded hg h
  | inlineExports exports => exact parseInlineexport_grounded hg h
  | aliasExport sort inst name => exact parseExportAlias_grounded hg h
  | aliasCoreExport space inst name => exact parseCoreExport_grounded hg h
  | aliasOuter sort count idx => exact parseOuterExport_grounded hg h
  | canonLift coreFunc options ty => exact parseLift_grounded hg h
  | canonLower func options => exact parseLower_grounded hg h
  | canonResource kind ty => exact parseResource_grounded hg h
  | import_ name desc => exact parseImport_grounded hg h
  | export_ name sort desc => exact parseExport_grounded hg h

theorem decodeItems_grounded {items : List (Item C)}
    (h : items.forM (decodeItem k) d = .ok ((), d')) : Grounded d' := by
  induction items generalizing d with
  | nil =>
      obtain ⟨-, rfl⟩ := Lib.run_pure_eq_ok.mp h
      exact hg
  | cons item items ih =>
      change (decodeItem k item >>= fun _ => items.forM (decodeItem k)) d = _ at h
      obtain ⟨_, d₁, hitem, h⟩ := Lib.run_bind_eq_ok.mp h
      exact ih (decodeItem_grounded hg hitem) h

end items

theorem initial_grounded : Grounded (.initial : Decoder C) := by
  have hnone : ∀ ref, (Decoder.initial : Decoder C).program.refs ref = [] := by
    intro ref
    cases ref with
    | item space idx => rfl
    | core space idx => rfl
  refine ⟨fun ref used hused => ?_, fun ref => ⟨ref, fun used hused => ?_⟩, ?_, ?_,
    Nat.zero_lt_one, ?_, ?_⟩
  · rw [hnone] at hused
    cases hused
  · rw [hnone] at hused
    cases hused
  · intro scope hmem
    obtain rfl := List.mem_singleton.mp hmem
    exact empty_ranged _ _
  · exact fun _ hmem => by cases hmem
  · exact fun _ hmem => by cases hmem
  · intro idx path exports hrelation
    cases hrelation

theorem compile_formed {k : Validator C} {items : List (Item C)} {p : ComponentProgram C}
    (h : compile k items = .ok p) : p.Formed := by
  obtain ⟨⟨_, d⟩, hitems, h⟩ := Lib.bind_eq_ok.mp h
  have hg : Grounded d := decodeItems_grounded initial_grounded hitems
  dsimp only at h
  split at h
  · obtain rfl := Except.ok.inj h
    exact ⟨hg.nested, ⟨hg.ends⟩⟩
  · cases h

end Telomere.Component
