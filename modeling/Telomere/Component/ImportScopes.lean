import Telomere.Component.Env

/-!
# Where imports are found

An import belongs to the component that declares it, and nested components reach it through outer
aliases. The runtime looks for its name in the environment that asks. Caches do not change what is
found: it is decided by the arguments of the environments around and the linker, and what an alias
comes to is what the export of its instance comes to.
-/

namespace Telomere.Component

variable {B C α β : Type}

open Lib (Leads)
open Lib.Attempt (fail get modify each)

namespace ComponentProgram

/-- The component an import was declared in, and its name. -/
def imported (p : ComponentProgram C) : SortRef → Option (ComponentPath × String)
  | .item space idx =>
      match (p.store space)[idx]? with
      | some ⟨owner, .imported name⟩ => some (owner, name)
      | _ => none
  | .coreModule idx =>
      match (p.coreStore .module)[idx]? with
      | some ⟨owner, .importModule name⟩ => some (owner, name)
      | _ => none

variable {p : ComponentProgram C} {idx : Nat} {owner : ComponentPath} {name : String}

theorem imported_of_relation {space : Space} (h : p.relation space idx = some (.imported name)) :
    ∃ owner, p.imported (.item space idx) = some (owner, name) := by
  obtain ⟨⟨owner, relation⟩, hget, rfl⟩ := Option.map_eq_some_iff.mp h
  refine ⟨owner, ?_⟩
  unfold imported
  dsimp only
  rw [hget]

theorem relation_of_imported {space : Space}
    (h : p.imported (.item space idx) = some (owner, name)) :
    p.relation space idx = some (.imported name) := by
  unfold imported at h
  dsimp only at h
  split at h
  · rename_i hget
    obtain ⟨rfl, rfl⟩ := Prod.mk.inj (Option.some.inj h)
    unfold relation
    rw [hget]
    rfl
  · cases h

theorem imported_of_coreRelation (h : p.coreRelation .module idx = some (.importModule name)) :
    ∃ owner, p.imported (.coreModule idx) = some (owner, name) := by
  obtain ⟨⟨owner, relation⟩, hget, rfl⟩ := Option.map_eq_some_iff.mp h
  refine ⟨owner, ?_⟩
  unfold imported
  dsimp only
  rw [hget]

theorem coreRelation_of_imported (h : p.imported (.coreModule idx) = some (owner, name)) :
    p.coreRelation .module idx = some (.importModule name) := by
  unfold imported at h
  dsimp only at h
  split at h
  · rename_i hget
    obtain ⟨rfl, rfl⟩ := Prod.mk.inj (Option.some.inj h)
    unfold coreRelation
    rw [hget]
    rfl
  · cases h

/-- The instance and the name of the export that a definition is an alias of. -/
def exportedFrom (p : ComponentProgram C) : SortRef → Option (Nat × String)
  | .item space idx =>
      match p.relation space idx with
      | some (.fromExport inst name) => some (inst, name)
      | _ => none
  | .coreModule idx =>
      match p.coreRelation .module idx with
      | some (.fromExport inst name) => some (inst, name)
      | _ => none

theorem exportedFrom_item {space : Space} {inst : Nat}
    (h : p.relation space idx = some (.fromExport inst name)) :
    p.exportedFrom (.item space idx) = some (inst, name) := by
  unfold exportedFrom
  dsimp only
  rw [h]

theorem exportedFrom_coreModule {inst : Nat}
    (h : p.coreRelation .module idx = some (.fromExport inst name)) :
    p.exportedFrom (.coreModule idx) = some (inst, name) := by
  unfold exportedFrom
  dsimp only
  rw [h]

theorem relation_of_exportedFrom {space : Space} {inst : Nat}
    (h : p.exportedFrom (.item space idx) = some (inst, name)) :
    p.relation space idx = some (.fromExport inst name) := by
  unfold exportedFrom at h
  dsimp only at h
  split at h
  · rename_i hrelation
    obtain ⟨rfl, rfl⟩ := Prod.mk.inj (Option.some.inj h)
    exact hrelation
  · cases h

theorem coreRelation_of_exportedFrom {inst : Nat}
    (h : p.exportedFrom (.coreModule idx) = some (inst, name)) :
    p.coreRelation .module idx = some (.fromExport inst name) := by
  unfold exportedFrom at h
  dsimp only at h
  split at h
  · rename_i hrelation
    obtain ⟨rfl, rfl⟩ := Prod.mk.inj (Option.some.inj h)
    exact hrelation
  · cases h

theorem exportedFrom_of_imported {ref : SortRef} (h : p.imported ref = some (owner, name)) :
    p.exportedFrom ref = none := by
  cases ref with
  | item space idx =>
      unfold exportedFrom
      dsimp only
      rw [relation_of_imported h]
  | coreModule idx =>
      unfold exportedFrom
      dsimp only
      rw [coreRelation_of_imported h]

end ComponentProgram

section search

variable {linked : Option (LinkerEntry B)} {name : String} {chain : List (ImportFrame B)}

theorem searchImport_eq_argument {env : EnvId} {value : RuntimeValue B} :
    searchImport linked name chain = some (.argument env value) ↔
      ∃ (inner : List (ImportFrame B)) (frame : ImportFrame B) (outer : List (ImportFrame B)),
        chain = inner ++ frame :: outer ∧
        (∀ between ∈ inner, between.imports.lookup name = none) ∧ frame.env = env ∧
        frame.imports.lookup name = some value ∧ (inner = [] ∨ linked = none) := by
  induction chain with
  | nil =>
      refine iff_of_false (fun h => by cases h) ?_
      rintro ⟨inner, frame, outer, heq, -⟩
      cases inner <;> cases heq
  | cons first chain ih =>
      unfold searchImport
      split
      · rename_i found hfirst
        constructor
        · intro h
          cases h
          exact ⟨[], first, chain, rfl, List.forall_mem_nil _, rfl, hfirst, .inl rfl⟩
        · rintro ⟨inner, frame, outer, heq, hinner, rfl, hframe, -⟩
          cases inner with
          | nil =>
              obtain ⟨rfl, rfl⟩ := List.cons.inj heq
              rw [Option.some.inj (hfirst.symm.trans hframe)]
          | cons between inner =>
              obtain ⟨rfl, -⟩ := List.cons.inj heq
              have hnone := hinner first (List.mem_cons_self ..)
              cases hfirst.symm.trans hnone
      · rename_i entry hfirst
        refine iff_of_false (fun h => by cases h) ?_
        rintro ⟨inner, frame, outer, heq, -, -, hframe, hlinked⟩
        rcases hlinked with rfl | hlinked
        · obtain ⟨rfl, -⟩ := List.cons.inj heq
          cases hfirst.symm.trans hframe
        · cases hlinked
      · rename_i hfirst
        rw [ih]
        constructor
        · rintro ⟨inner, frame, outer, rfl, hinner, henv, hframe, -⟩
          refine ⟨first :: inner, frame, outer, rfl, ?_, henv, hframe, .inr rfl⟩
          exact List.forall_mem_cons.mpr ⟨hfirst, hinner⟩
        · rintro ⟨inner, frame, outer, heq, hinner, henv, hframe, -⟩
          cases inner with
          | nil =>
              obtain ⟨rfl, -⟩ := List.cons.inj heq
              cases hfirst.symm.trans hframe
          | cons between inner =>
              obtain ⟨-, rfl⟩ := List.cons.inj heq
              exact ⟨inner, frame, outer, rfl, (List.forall_mem_cons.mp hinner).2, henv, hframe,
                .inr rfl⟩

theorem searchImport_eq_linked {env : EnvId} {entry : LinkerEntry B} :
    searchImport linked name chain = some (.linked env entry) ↔
      linked = some entry ∧ ∃ frame outer, chain = frame :: outer ∧ frame.env = env ∧
        frame.imports.lookup name = none := by
  induction chain with
  | nil =>
      refine iff_of_false (fun h => by cases h) ?_
      rintro ⟨-, frame, outer, heq, -⟩
      cases heq
  | cons first chain ih =>
      unfold searchImport
      split
      · rename_i found hfirst
        refine iff_of_false (fun h => by cases h) ?_
        rintro ⟨-, frame, outer, heq, -, hframe⟩
        obtain ⟨rfl, -⟩ := List.cons.inj heq
        cases hfirst.symm.trans hframe
      · rename_i entry' hfirst
        constructor
        · intro h
          cases h
          exact ⟨rfl, first, chain, rfl, rfl, hfirst⟩
        · rintro ⟨hentry, frame, outer, heq, rfl, -⟩
          obtain ⟨rfl, -⟩ := List.cons.inj heq
          rw [Option.some.inj hentry]
      · refine iff_of_false (fun h => ?_) ?_
        · obtain ⟨hentry, -⟩ := ih.mp h
          cases hentry
        · rintro ⟨hentry, -⟩
          cases hentry

end search

/-- An argument is passed on as it is; for an instance of the linker an instance is made. -/
def Delivers (s : Runtime B) : Found B → RuntimeValue B → Prop
  | .argument _ value, delivered => delivered = value
  | .linked _ (.func binding), delivered => delivered = .func (.linked binding)
  | .linked _ (.inst exports), delivered => ∃ i, ∃ inst : RuntimeComponentInstance B,
      delivered = .instance i ∧ s.instances[i]? = some inst ∧
        inst.source = .linkerInstance exports

theorem Delivers.mono {s t : Runtime B} (hgrows : s.Grows t) {found : Found B}
    {value : RuntimeValue B} (h : Delivers s found value) : Delivers t found value := by
  cases found with
  | argument env arg => exact h
  | linked env entry =>
      cases entry with
      | func binding => exact h
      | inst exports =>
          obtain ⟨i, inst, rfl, hget, hsource⟩ := h
          obtain ⟨inst', hget', hsource', -⟩ := hgrows.instances i inst hget
          exact ⟨i, inst', rfl, hget', hsource'.trans hsource⟩

/-- What a cache has for a definition. -/
def RuntimeCaches.value (caches : RuntimeCaches B) : SortRef → Option (RuntimeValue B)
  | .item .component idx => (caches.components.lookup idx).map .component
  | .item .instance idx => (caches.instances.lookup idx).map .instance
  | .item .func idx => (caches.funcs.lookup idx).map .func
  | .coreModule idx => (caches.coreModules.lookup idx).map .coreModule

def RuntimeValue.hasSort : RuntimeValue B → SortRef → Bool
  | .component _, .item .component _ | .instance _, .item .instance _ | .func _, .item .func _
  | .coreModule _, .coreModule _ => true
  | _, _ => false

/-- Where a value is asked for: a definition in an environment, or an export of an instance. -/
inductive Use where
  | definition (e : EnvId) (ref : SortRef)
  | exported (inst : Nat) (name : String)

def Resolver.use (r : Resolver B) : Use → Resolve B (RuntimeValue B)
  | .definition e ref => r.sort e ref
  | .exported inst name => r.export_ inst name

/-- `linkedExport` for any export. -/
def linkedSort (p : ComponentProgram C) (l : ComponentLinker B) (env : RuntimeEnv B)
    (ref : SortRef) (name : String) : Option B :=
  match ref with
  | .item .func idx => linkedExport l p env idx name
  | _ => none

section found

variable (p : ComponentProgram C) (l : ComponentLinker B)

/-- Where the value of a use is from. That of an import is what the search comes to, that of an
alias is an export of an instance that its instance definition was resolved to. -/
inductive Comes (s : Runtime B) : Use → RuntimeValue B → Prop
  | imported {e : EnvId} {ref : SortRef} {owner : ComponentPath} {name : String} {found : Found B}
      {value : RuntimeValue B} (himported : p.imported ref = some (owner, name))
      (hsearch : searchImport (l.entry name ref) name (s.chain e) = some found)
      (hdelivers : Delivers s found value) (hsort : value.hasSort ref) :
      Comes s (.definition e ref) value
  | defined {e : EnvId} {ref : SortRef} {env : RuntimeEnv B} (value : RuntimeValue B)
      (henv : s.envs[e]? = some env) (himported : p.imported ref = none)
      (hexported : p.exportedFrom ref = none) (hsort : value.hasSort ref) :
      Comes s (.definition e ref) value
  | aliased {e : EnvId} {ref : SortRef} {inst : Nat} {name : String} {i : Nat} {env : RuntimeEnv B}
      {value : RuntimeValue B} (hexported : p.exportedFrom ref = some (inst, name))
      (henv : s.envs[e]? = some env) (hresolved : (inst, i) ∈ env.caches.instances)
      (h : Comes s (.exported i name) value) (hsort : value.hasSort ref) :
      Comes s (.definition e ref) value
  | exported {i : Nat} {name : String} {inst : RuntimeComponentInstance B}
      {exports : List (String × SortRef)} {ref : SortRef} {env : RuntimeEnv B}
      {value : RuntimeValue B} (hinst : s.instances[i]? = some inst)
      (hsource : inst.source = .component exports) (hlookup : exports.lookup name = some ref)
      (henv : s.envs[inst.env]? = some env) (hlinked : linkedSort p l env ref name = none)
      (h : Comes s (.definition inst.env ref) value) : Comes s (.exported i name) value
  | linkedExport {i : Nat} {name : String} {inst : RuntimeComponentInstance B}
      {exports : List (String × SortRef)} {ref : SortRef} {env : RuntimeEnv B} {binding : B}
      (hinst : s.instances[i]? = some inst) (hsource : inst.source = .component exports)
      (hlookup : exports.lookup name = some ref) (henv : s.envs[inst.env]? = some env)
      (hlinked : linkedSort p l env ref name = some binding) :
      Comes s (.exported i name) (.func (.linked binding))
  | linkerInstance {i : Nat} {name : String} {inst : RuntimeComponentInstance B}
      {exports : List (String × B)} {binding : B} (hinst : s.instances[i]? = some inst)
      (hsource : inst.source = .linkerInstance exports)
      (hlookup : exports.lookup name = some binding) :
      Comes s (.exported i name) (.func (.linked binding))

/-- Parents are there, the root has no arguments, and what is in caches is from where it should
be. -/
structure ImportsFound (s : Runtime B) : Prop where
  parents : ∀ (e : EnvId) (env : RuntimeEnv B), s.envs[e]? = some env →
    ∀ parent ∈ env.parents, parent < s.envs.length
  root : ∀ (e : EnvId) (env : RuntimeEnv B), s.envs[e]? = some env → env.parents = [] →
    env.imports = []
  caches : ∀ (e : EnvId) (env : RuntimeEnv B), s.envs[e]? = some env →
    ∀ ref value, env.caches.value ref = some value → Comes p l s (.definition e ref) value
  exports : ∀ (i : Nat) (inst : RuntimeComponentInstance B), s.instances[i]? = some inst →
    ∀ name value, inst.exports.lookup name = some value → Comes p l s (.exported i name) value

/-- Moreover, what instance definitions were resolved to is not forgotten. -/
structure Runtime.Extends (s t : Runtime B) : Prop where
  grows : s.Grows t
  resolved : ∀ (e : EnvId) (env : RuntimeEnv B), s.envs[e]? = some env →
    ∃ env' : RuntimeEnv B, t.envs[e]? = some env' ∧
      env.caches.instances ⊆ env'.caches.instances

namespace Runtime.Extends

theorem refl (s : Runtime B) : s.Extends s :=
  ⟨.refl s, fun _ env h => ⟨env, h, List.Subset.refl _⟩⟩

theorem trans (s t u : Runtime B) (hst : s.Extends t) (htu : t.Extends u) : s.Extends u := by
  refine ⟨hst.grows.trans s t u htu.grows, fun e env h => ?_⟩
  obtain ⟨env₁, h₁, hsub₁⟩ := hst.resolved e env h
  obtain ⟨env₂, h₂, hsub₂⟩ := htu.resolved e env₁ h₁
  exact ⟨env₂, h₂, List.Subset.trans hsub₁ hsub₂⟩

theorem of_envs_eq {s t : Runtime B} (hgrows : s.Grows t) (henvs : t.envs = s.envs) :
    s.Extends t := by
  refine ⟨hgrows, fun e env h => ⟨env, ?_, List.Subset.refl _⟩⟩
  rw [henvs]
  exact h

theorem addEnv (s : Runtime B) (env : RuntimeEnv B) :
    s.Extends { s with envs := s.envs ++ [env] } :=
  ⟨.addEnv s env, fun _ env' h => ⟨env', getElem?_append_some h _, List.Subset.refl _⟩⟩

theorem modifyCaches (s : Runtime B) (e : EnvId) {f : RuntimeCaches B → RuntimeCaches B}
    (hkept : ∀ caches, caches.instances ⊆ (f caches).instances) :
    s.Extends (s.modifyCaches e f) := by
  refine ⟨.modifyCaches s e f, fun e' env h => ⟨_, getElem?_modify_some h _, ?_⟩⟩
  split
  · exact hkept env.caches
  · exact List.Subset.refl _

end Runtime.Extends

variable {p l} {s t : Runtime B}

theorem chain_of_get {e : EnvId} {env : RuntimeEnv B} (h : s.envs[e]? = some env) :
    s.chain e = ⟨e, env.path, env.imports⟩ :: env.parents.filterMap s.frame := by
  unfold Runtime.chain
  rw [h]
  dsimp only
  rw [List.filterMap_cons]
  unfold Runtime.frame
  rw [h]
  rfl

theorem frame_of_mem_chain {e : EnvId} {frame : ImportFrame B} (hmem : frame ∈ s.chain e) :
    s.frame frame.env = some frame := by
  unfold Runtime.chain at hmem
  split at hmem
  · obtain ⟨id, -, hid⟩ := List.mem_filterMap.mp hmem
    obtain ⟨env, -, rfl⟩ := Option.map_eq_some_iff.mp hid
    exact hid
  · cases hmem

theorem env_of_search {linked : Option (LinkerEntry B)} {name : String} {e : EnvId}
    {found : Found B} (h : searchImport linked name (s.chain e) = some found) :
    ∃ env, s.envs[e]? = some env := by
  cases henv : s.envs[e]? with
  | some env => exact ⟨env, rfl⟩
  | none =>
      unfold Runtime.chain at h
      rw [henv] at h
      cases h

theorem ImportsFound.chain_eq (hfound : ImportsFound p l s) (hgrows : s.Grows t) {e : EnvId}
    {env : RuntimeEnv B} (h : s.envs[e]? = some env) : t.chain e = s.chain e := by
  obtain ⟨env', h', hpath, himports, hparents⟩ := hgrows.envs e env h
  rw [chain_of_get h, chain_of_get h', hpath, himports, hparents]
  congr 1
  refine List.filterMap_congr fun parent hmem => ?_
  have hlt := hfound.parents e env h parent hmem
  have hframe : s.frame parent = some ⟨parent, s.envs[parent].path, s.envs[parent].imports⟩ := by
    unfold Runtime.frame
    rw [List.getElem?_eq_getElem hlt]
    rfl
  rw [hframe, hgrows.frame hframe]

theorem linkedSort_eq_of_parents {env env' : RuntimeEnv B} (h : env'.parents = env.parents)
    (ref : SortRef) (name : String) : linkedSort p l env' ref name = linkedSort p l env ref name := by
  unfold linkedSort linkedExport
  rw [h]

theorem Comes.env {e : EnvId} {ref : SortRef} {value : RuntimeValue B}
    (h : Comes p l s (.definition e ref) value) : ∃ env, s.envs[e]? = some env := by
  cases h with
  | imported _ hsearch _ _ => exact env_of_search hsearch
  | defined _ henv _ _ _ => exact ⟨_, henv⟩
  | aliased _ henv _ _ _ => exact ⟨_, henv⟩

theorem Comes.hasSort {e : EnvId} {ref : SortRef} {value : RuntimeValue B}
    (h : Comes p l s (.definition e ref) value) : value.hasSort ref := by
  cases h with
  | imported _ _ _ hsort => exact hsort
  | defined _ _ _ _ hsort => exact hsort
  | aliased _ _ _ _ hsort => exact hsort

theorem Comes.mono (hfound : ImportsFound p l s) (hext : s.Extends t) {use : Use}
    {value : RuntimeValue B} (h : Comes p l s use value) : Comes p l t use value := by
  induction h with
  | imported himported hsearch hdelivers hsort =>
      obtain ⟨env, henv⟩ := env_of_search hsearch
      refine .imported himported ?_ (hdelivers.mono hext.grows) hsort
      rw [hfound.chain_eq hext.grows henv]
      exact hsearch
  | defined value henv himported hexported hsort =>
      obtain ⟨env', henv', -⟩ := hext.resolved _ _ henv
      exact .defined value henv' himported hexported hsort
  | aliased hexported henv hresolved _ hsort ih =>
      obtain ⟨env', henv', hsub⟩ := hext.resolved _ _ henv
      exact .aliased hexported henv' (hsub hresolved) ih hsort
  | exported hinst hsource hlookup henv hlinked _ ih =>
      obtain ⟨inst', hinst', hsource', henv'⟩ := hext.grows.instances _ _ hinst
      obtain ⟨env', hget, -, -, hparents⟩ := hext.grows.envs _ _ henv
      rw [← henv'] at hget ih
      refine .exported hinst' (hsource'.trans hsource) hlookup hget ?_ ih
      rw [linkedSort_eq_of_parents hparents]
      exact hlinked
  | linkedExport hinst hsource hlookup henv hlinked =>
      obtain ⟨inst', hinst', hsource', henv'⟩ := hext.grows.instances _ _ hinst
      obtain ⟨env', hget, -, -, hparents⟩ := hext.grows.envs _ _ henv
      rw [← henv'] at hget
      refine .linkedExport hinst' (hsource'.trans hsource) hlookup hget ?_
      rw [linkedSort_eq_of_parents hparents]
      exact hlinked
  | linkerInstance hinst hsource hlookup =>
      obtain ⟨inst', hinst', hsource', -⟩ := hext.grows.instances _ _ hinst
      exact .linkerInstance hinst' (hsource'.trans hsource) hlookup

/-- The environments are the same ones; exports of instances may have been added. -/
theorem ImportsFound.of_envs_eq (hfound : ImportsFound p l s) (hgrows : s.Grows t)
    (henvs : t.envs = s.envs)
    (hexports : ∀ (i : Nat) (inst : RuntimeComponentInstance B), t.instances[i]? = some inst →
      ∀ name value, inst.exports.lookup name = some value →
        Comes p l s (.exported i name) value ∨ Comes p l t (.exported i name) value) :
    ImportsFound p l t := by
  have hext := Runtime.Extends.of_envs_eq hgrows henvs
  refine ⟨fun e env h => ?_, fun e env h => ?_, fun e env h ref value hvalue => ?_,
    fun i inst h name value hvalue => ?_⟩
  · rw [henvs] at h ⊢
    exact hfound.parents e env h
  · rw [henvs] at h
    exact hfound.root e env h
  · rw [henvs] at h
    exact (hfound.caches e env h ref value hvalue).mono hfound hext
  · rcases hexports i inst h name value hvalue with hold | hnew
    · exact hold.mono hfound hext
    · exact hnew

theorem ImportsFound.of_eq (hfound : ImportsFound p l s) (hgrows : s.Grows t)
    (henvs : t.envs = s.envs) (hinstances : t.instances = s.instances) : ImportsFound p l t := by
  refine hfound.of_envs_eq hgrows henvs fun i inst h name value hvalue => .inl ?_
  rw [hinstances] at h
  exact hfound.exports i inst h name value hvalue

theorem getElem?_append_singleton {xs : List α} {i : Nat} {a b : α} (h : (xs ++ [a])[i]? = some b) :
    xs[i]? = some b ∨ (i = xs.length ∧ b = a) := by
  rcases Nat.lt_trichotomy i xs.length with hlt | heq | hgt
  · rw [List.getElem?_append_left hlt] at h
    exact .inl h
  · rw [heq, List.getElem?_concat_length] at h
    exact .inr ⟨heq, (Option.some.inj h).symm⟩
  · rw [List.getElem?_eq_none (by rw [List.length_append, List.length_singleton]; omega)] at h
    cases h

theorem ImportsFound.addEnv (hfound : ImportsFound p l s) {env : RuntimeEnv B}
    (hparents : ∀ parent ∈ env.parents, parent < s.envs.length)
    (hroot : env.parents = [] → env.imports = [])
    (hcaches : ∀ ref value, env.caches.value ref = some value →
      Comes p l { s with envs := s.envs ++ [env] } (.definition s.envs.length ref) value) :
    ImportsFound p l { s with envs := s.envs ++ [env] } := by
  have hext := Runtime.Extends.addEnv s env
  refine ⟨fun e env' h parent hmem => ?_, fun e env' h => ?_, fun e env' h ref value hvalue => ?_,
    fun i inst h name value hvalue => ?_⟩
  · dsimp only
    rw [List.length_append, List.length_singleton]
    rcases getElem?_append_singleton h with h | ⟨-, rfl⟩
    · exact Nat.lt_succ_of_lt (hfound.parents e env' h parent hmem)
    · exact Nat.lt_succ_of_lt (hparents parent hmem)
  · rcases getElem?_append_singleton h with h | ⟨-, rfl⟩
    · exact hfound.root e env' h
    · exact hroot
  · rcases getElem?_append_singleton h with h | ⟨rfl, rfl⟩
    · exact (hfound.caches e env' h ref value hvalue).mono hfound hext
    · exact hcaches ref value hvalue
  · exact (hfound.exports i inst h name value hvalue).mono hfound hext

theorem ImportsFound.insert (hfound : ImportsFound p l s) {e : EnvId}
    {f : RuntimeCaches B → RuntimeCaches B}
    (hkept : ∀ caches, caches.instances ⊆ (f caches).instances)
    (hf : ∀ env : RuntimeEnv B, s.envs[e]? = some env → ∀ ref value,
      (f env.caches).value ref = some value →
        env.caches.value ref = some value ∨ Comes p l s (.definition e ref) value) :
    ImportsFound p l (s.modifyCaches e f) := by
  have hext := Runtime.Extends.modifyCaches s e hkept
  have hcases : ∀ (e' : EnvId) (env' : RuntimeEnv B), (s.modifyCaches e f).envs[e']? = some env' →
      ∃ env : RuntimeEnv B, s.envs[e']? = some env ∧ env'.parents = env.parents ∧
        env'.imports = env.imports ∧
        (env'.caches = env.caches ∨ (e' = e ∧ env'.caches = f env.caches)) := by
    intro e' env' h
    unfold Runtime.modifyCaches at h
    dsimp only at h
    rw [List.getElem?_modify] at h
    obtain ⟨env, hget, rfl⟩ := Option.map_eq_some_iff.mp h
    refine ⟨env, hget, ?_⟩
    by_cases heq : e = e'
    · rw [if_pos heq]
      exact ⟨rfl, rfl, .inr ⟨heq.symm, rfl⟩⟩
    · rw [if_neg heq]
      exact ⟨rfl, rfl, .inl rfl⟩
  refine ⟨fun e' env' h parent hmem => ?_, fun e' env' h hnil => ?_,
    fun e' env' h ref value hvalue => ?_, fun i inst h name value hvalue => ?_⟩
  · obtain ⟨env, hget, hparents, -⟩ := hcases e' env' h
    unfold Runtime.modifyCaches
    dsimp only
    rw [List.length_modify]
    exact hfound.parents e' env hget parent (hparents ▸ hmem)
  · obtain ⟨env, hget, hparents, himports, -⟩ := hcases e' env' h
    rw [himports]
    exact hfound.root e' env hget (hparents.symm.trans hnil)
  · obtain ⟨env, hget, -, -, hcaches⟩ := hcases e' env' h
    rcases hcaches with hcaches | ⟨rfl, hcaches⟩
    · rw [hcaches] at hvalue
      exact (hfound.caches e' env hget ref value hvalue).mono hfound hext
    · rw [hcaches] at hvalue
      rcases hf env hget ref value hvalue with hold | hnew
      · exact (hfound.caches e' env hget ref value hold).mono hfound hext
      · exact hnew.mono hfound hext
  · exact (hfound.exports i inst h name value hvalue).mono hfound hext

end found

section kept

variable (p : ComponentProgram C) (l : ComponentLinker B)

abbrev LeadsFound (s : Runtime B) (x : Resolve B α) (Q : α → Runtime B → Prop) : Prop :=
  Leads (ImportsFound p l) Runtime.Extends s x Q

def Kept (x : Resolve B α) : Prop :=
  ∀ s, ImportsFound p l s → LeadsFound p l s x fun _ _ => True

variable {p l}

theorem LeadsFound.bind {s : Runtime B} {x : Resolve B α} {f : α → Resolve B β}
    {R : α → Runtime B → Prop} {Q : β → Runtime B → Prop} (hx : LeadsFound p l s x R)
    (hf : ∀ a t, ImportsFound p l t → s.Extends t → R a t → LeadsFound p l t (f a) Q) :
    LeadsFound p l s (x >>= f) Q :=
  Leads.bind Runtime.Extends.trans hx hf

namespace Kept

theorem pure (a : α) : Kept p l (pure a : Resolve B α) :=
  fun s hfound => Leads.pure hfound (.refl s) trivial

theorem fail (e : LinkError) : Kept p l (fail e : Resolve B α) :=
  fun s hfound => Leads.fail hfound (.refl s)

theorem bind {x : Resolve B α} {f : α → Resolve B β} (hx : Kept p l x)
    (hf : ∀ a, Kept p l (f a)) : Kept p l (x >>= f) :=
  fun s hfound => LeadsFound.bind (hx s hfound) fun a t hfoundt _ _ => hf a t hfoundt

theorem each {f : α → Resolve B β} {xs : List α} (hf : ∀ x ∈ xs, Kept p l (f x)) :
    Kept p l (each f xs) := by
  intro s hfound
  have hall := Leads.each (R := fun _ _ _ => True) Runtime.Extends.refl Runtime.Extends.trans
    (fun _ h => h) hfound fun x hmem t hfoundt _ => hf x hmem t hfoundt
  exact hall.mono fun _ _ _ _ => trivial

theorem get_bind {f : Runtime B → Resolve B β} (hf : ∀ s, Kept p l (f s)) :
    Kept p l (get >>= f) :=
  fun s hfound => Leads.get_bind (hf s s hfound)

theorem modify {f : Runtime B → Runtime B} (hgrows : ∀ s : Runtime B, s.Grows (f s))
    (henvs : ∀ s : Runtime B, (f s).envs = s.envs)
    (hinstances : ∀ s : Runtime B, (f s).instances = s.instances) : Kept p l (modify f) :=
  fun s hfound => Leads.modify (hfound.of_eq (hgrows s) (henvs s) (hinstances s))
    (.of_envs_eq (hgrows s) (henvs s)) trivial

end Kept

theorem leadsFound_environment {s : Runtime B} (hfound : ImportsFound p l s) (e : EnvId) :
    LeadsFound p l s (environment e) fun env t => t = s ∧ s.envs[e]? = some env := by
  refine Leads.get_bind ?_
  split
  · rename_i env hget
    exact Leads.pure hfound (.refl s) ⟨rfl, hget⟩
  · exact Leads.fail hfound (.refl s)

theorem leadsFound_addEnv {s : Runtime B} (hfound : ImportsFound p l s) {env : RuntimeEnv B}
    (hparents : ∀ parent ∈ env.parents, parent < s.envs.length)
    (hroot : env.parents = [] → env.imports = [])
    (hcaches : ∀ ref value, env.caches.value ref = some value →
      Comes p l { s with envs := s.envs ++ [env] } (.definition s.envs.length ref) value) :
    LeadsFound p l s (addEnv env) fun _ _ => True := by
  refine Leads.get_bind (LeadsFound.bind (R := fun _ _ => True) ?_ ?_)
  · exact Leads.modify (hfound.addEnv hparents hroot hcaches) (.addEnv s env) trivial
  · exact fun _ t hfoundt _ _ => Kept.pure _ t hfoundt

/-- Only the place of the first environment can change what the search tells. -/
theorem searchImport_clone {linked : Option (LinkerEntry B)} {name : String}
    {frame : ImportFrame B} {outer : List (ImportFrame B)} {found : Found B}
    (h : searchImport linked name (frame :: outer) = some found) (id : EnvId) :
    ∃ found', searchImport linked name (⟨id, frame.path, frame.imports⟩ :: outer) = some found' ∧
      ∀ (s : Runtime B) value, Delivers s found value → Delivers s found' value := by
  unfold searchImport at h ⊢
  dsimp only
  split at h
  · obtain rfl := Option.some.inj h
    exact ⟨_, rfl, fun _ _ hd => hd⟩
  · rename_i entry _
    obtain rfl := Option.some.inj h
    refine ⟨_, rfl, fun s value hd => ?_⟩
    cases entry with
    | func binding => exact hd
    | inst exports => exact hd
  · exact ⟨found, h, fun _ _ hd => hd⟩

/-- What is from somewhere is from there in a clone of the environment. -/
theorem Comes.clone {s : Runtime B} (hfound : ImportsFound p l s) {e : EnvId} {env : RuntimeEnv B}
    (henv : s.envs[e]? = some env) {ref : SortRef} {value : RuntimeValue B}
    (h : Comes p l s (.definition e ref) value) :
    Comes p l { s with envs := s.envs ++ [env] } (.definition s.envs.length ref) value := by
  have hext := Runtime.Extends.addEnv s env
  have hclone : ({ s with envs := s.envs ++ [env] } : Runtime B).envs[s.envs.length]? = some env :=
    List.getElem?_concat_length
  cases h with
  | imported himported hsearch hdelivers hsort =>
      rw [← hfound.chain_eq hext.grows henv,
        chain_of_get (s := { s with envs := s.envs ++ [env] }) (getElem?_append_some henv [env])]
        at hsearch
      obtain ⟨found', hsearch', himp⟩ := searchImport_clone hsearch s.envs.length
      refine .imported himported ?_ ((himp s value hdelivers).mono hext.grows) hsort
      rw [chain_of_get hclone]
      exact hsearch'
  | defined _ _ himported hexported hsort => exact .defined value hclone himported hexported hsort
  | aliased hexported henv' hresolved h hsort =>
      obtain rfl := Option.some.inj (henv.symm.trans henv')
      exact .aliased hexported hclone hresolved (h.mono hfound hext) hsort

theorem kept_cloneShallow (e : EnvId) : Kept p l (cloneShallow e : Resolve B _) := by
  intro s hfound
  refine LeadsFound.bind (leadsFound_environment hfound e) ?_
  rintro env _ - - ⟨rfl, hget⟩
  refine leadsFound_addEnv hfound (hfound.parents e env hget) (hfound.root e env hget) ?_
  exact fun ref value hvalue => (hfound.caches e env hget ref value hvalue).clone hfound hget

theorem leadsFound_addInstance {s : Runtime B} (hfound : ImportsFound p l s)
    (source : RuntimeComponentSource B) (env : EnvId) :
    LeadsFound p l s (addInstance source env) fun i t =>
      ∃ inst : RuntimeComponentInstance B, t.instances[i]? = some inst ∧ inst.source = source := by
  have hgrows := Runtime.Grows.addInstance s ⟨source, env, []⟩
  refine Leads.get_bind (LeadsFound.bind (R := fun _ t =>
    t = { s with instances := s.instances ++ [⟨source, env, []⟩] }) ?_ ?_)
  · refine Leads.modify (hfound.of_envs_eq hgrows rfl ?_) (.of_envs_eq hgrows rfl) rfl
    intro i inst h name value hvalue
    rcases getElem?_append_singleton h with hold | ⟨-, rfl⟩
    · exact .inl (hfound.exports i inst hold name value hvalue)
    · cases hvalue
  · rintro _ t hfoundt - rfl
    exact Leads.pure hfoundt (.refl _) ⟨_, List.getElem?_concat_length, rfl⟩

theorem kept_addInstance (source : RuntimeComponentSource B) (env : EnvId) :
    Kept p l (addInstance source env) :=
  fun _ hfound => (leadsFound_addInstance hfound source env).mono fun _ _ _ _ => trivial

section lookups

variable {s : Runtime B} {e : EnvId} {idx : Nat} {owner : ComponentPath} {name : String}

theorem leadsFound_lookupImportComponent (hfound : ImportsFound p l s)
    (himported : p.imported (.item .component idx) = some (owner, name)) :
    LeadsFound p l s (lookupImportComponent e name) fun definition t =>
      Comes p l t (.definition e (.item .component idx)) (.component definition) := by
  refine Leads.get_bind ?_
  split
  · rename_i hsearch
    exact Leads.pure hfound (.refl s) (.imported himported hsearch rfl rfl)
  · exact Leads.fail hfound (.refl s)
  · exact Leads.fail hfound (.refl s)

theorem leadsFound_lookupImportInstance (hfound : ImportsFound p l s)
    (himported : p.imported (.item .instance idx) = some (owner, name)) :
    LeadsFound p l s (lookupImportInstance l e name) fun inst t =>
      Comes p l t (.definition e (.item .instance idx)) (.instance inst) := by
  refine Leads.get_bind ?_
  split
  · rename_i hsearch
    exact Leads.pure hfound (.refl s) (.imported himported hsearch rfl rfl)
  · rename_i env exports hsearch
    refine LeadsFound.bind (kept_cloneShallow env s hfound) ?_
    intro clone t hfoundt hext _
    refine (leadsFound_addInstance hfoundt (.linkerInstance exports) clone).mono ?_
    rintro i u hext' ⟨inst, hget, hsource⟩
    have hdelivers : Delivers u (.linked env (.inst exports)) (.instance i) :=
      ⟨i, inst, rfl, hget, hsource⟩
    refine .imported himported ?_ hdelivers rfl
    obtain ⟨env', henv⟩ := env_of_search hsearch
    rw [hfound.chain_eq (hext.trans s t u hext').grows henv]
    exact hsearch
  · split
    · exact Leads.fail hfound (.refl s)
    · exact Leads.fail hfound (.refl s)
  · exact Leads.fail hfound (.refl s)

theorem leadsFound_lookupImportFunc (hfound : ImportsFound p l s)
    (himported : p.imported (.item .func idx) = some (owner, name)) :
    LeadsFound p l s (lookupImportFunc l e name) fun callable t =>
      Comes p l t (.definition e (.item .func idx)) (.func callable) := by
  refine Leads.get_bind ?_
  split
  · rename_i hsearch
    exact Leads.pure hfound (.refl s) (.imported himported hsearch rfl rfl)
  · rename_i hsearch
    exact Leads.pure hfound (.refl s) (.imported himported hsearch rfl rfl)
  · exact Leads.fail hfound (.refl s)
  · exact Leads.fail hfound (.refl s)

theorem leadsFound_lookupImportCoreModule (hfound : ImportsFound p l s)
    (himported : p.imported (.coreModule idx) = some (owner, name)) :
    LeadsFound p l s (lookupImportCoreModule e name) fun module t =>
      Comes p l t (.definition e (.coreModule idx)) (.coreModule module) := by
  refine Leads.get_bind ?_
  split
  · rename_i hsearch
    exact Leads.pure hfound (.refl s) (.imported himported hsearch rfl rfl)
  · exact Leads.fail hfound (.refl s)
  · exact Leads.fail hfound (.refl s)

end lookups

theorem mem_of_lookup {idx : Nat} {a : α} {entries : List (Nat × α)}
    (h : entries.lookup idx = some a) : (idx, a) ∈ entries := by
  obtain ⟨before, after, rfl, -⟩ := List.lookup_eq_some_iff.mp h
  exact List.mem_append_right _ (List.mem_cons_self ..)

section caches

variable {entries : RuntimeCaches B → List (Nat × α)}
  {setEntries : RuntimeCaches B → List (Nat × α) → RuntimeCaches B} {e : EnvId} {idx : Nat}
  {resolve : Resolve B α}

/-- `W` says for which definitions an entry stands. -/
theorem leadsFound_cached {W : α → SortRef → RuntimeValue B → Prop}
    (hset : ∀ caches added, entries (setEntries caches added) = added)
    (hkept : ∀ caches found,
      caches.instances ⊆ (setEntries caches ((idx, found) :: entries caches)).instances)
    (hvalue : ∀ caches found ref value,
      (setEntries caches ((idx, found) :: entries caches)).value ref = some value →
        caches.value ref = some value ∨ W found ref value)
    (hentry : ∀ caches found, (entries caches).lookup idx = some found → ∀ ref value,
      W found ref value → caches.value ref = some value)
    (hresolve : ∀ s env, ImportsFound p l s → s.envs[e]? = some env →
      LeadsFound p l s resolve fun found t =>
        ∀ ref value, W found ref value → Comes p l t (.definition e ref) value)
    {s : Runtime B} (hfound : ImportsFound p l s) :
    LeadsFound p l s (cached entries setEntries e idx resolve) fun found t =>
      (∀ ref value, W found ref value → Comes p l t (.definition e ref) value) ∧
        ∃ env, t.envs[e]? = some env ∧ (idx, found) ∈ entries env.caches := by
  refine LeadsFound.bind (leadsFound_environment hfound e) ?_
  rintro env _ - - ⟨rfl, henv⟩
  split
  · rename_i found hlookup
    refine Leads.pure hfound (.refl _) ⟨fun ref value hw => ?_, env, henv, ?_⟩
    · exact hfound.caches e env henv ref value (hentry _ found hlookup ref value hw)
    · exact mem_of_lookup hlookup
  · refine LeadsFound.bind (hresolve _ env hfound henv) ?_
    intro found t hfoundt hextt hnew
    obtain ⟨env', henv', -⟩ := hextt.resolved e env henv
    have hext := Runtime.Extends.modifyCaches t e fun caches => hkept caches found
    refine LeadsFound.bind (R := fun _ u =>
      (∀ ref value, W found ref value → Comes p l u (.definition e ref) value) ∧
        ∃ env, u.envs[e]? = some env ∧ (idx, found) ∈ entries env.caches) ?_
      fun _ u hfoundu _ h => Leads.pure hfoundu (.refl u) h
    refine Leads.modify (hfoundt.insert (fun caches => hkept caches found) ?_) hext ⟨?_, ?_⟩
    · intro env _ ref value hget
      rcases hvalue _ found ref value hget with hold | hw
      · exact .inl hold
      · exact .inr (hnew ref value hw)
    · exact fun ref value hw => (hnew ref value hw).mono hfoundt hext
    · refine ⟨_, getElem?_modify_some henv' _, ?_⟩
      rw [if_pos rfl]
      dsimp only
      rw [hset]
      exact List.mem_cons_self ..

theorem kept_cached_core
    (hset : ∀ caches added, entries (setEntries caches added) = added)
    (hkept : ∀ caches found, (setEntries caches ((idx, found) :: entries caches)).instances =
      caches.instances)
    (hvalue : ∀ caches found, (setEntries caches ((idx, found) :: entries caches)).value =
      caches.value) (hresolve : Kept p l resolve) :
    Kept p l (cached entries setEntries e idx resolve) := by
  intro s hfound
  refine (leadsFound_cached (W := fun _ _ _ => False) hset ?_ ?_ ?_ ?_ hfound).mono
    fun _ _ _ _ => trivial
  · intro caches found
    rw [hkept]
    exact List.Subset.refl _
  · intro caches found ref value h
    rw [hvalue] at h
    exact .inl h
  · exact fun _ _ _ _ _ h => h.elim
  · exact fun s _ hfound _ => (hresolve s hfound).mono fun _ _ _ _ _ _ h => h.elim

end caches

theorem Comes.of_relation {s : Runtime B} {e : EnvId} {env : RuntimeEnv B} {space : Space}
    {idx : Nat} {relation : Relation} (henv : s.envs[e]? = some env)
    (h : p.relation space idx = some relation) (himported : ∀ name, relation ≠ .imported name)
    (hexported : ∀ inst name, relation ≠ .fromExport inst name) {value : RuntimeValue B}
    (hsort : value.hasSort (.item space idx)) : Comes p l s (.definition e (.item space idx)) value := by
  refine .defined value henv (Option.eq_none_iff_forall_ne_some.mpr ?_) ?_ hsort
  · rintro ⟨owner, name⟩ hp
    have heq := ComponentProgram.relation_of_imported hp
    exact himported name (Option.some.inj (h.symm.trans heq))
  · unfold ComponentProgram.exportedFrom
    dsimp only
    rw [h]
    split
    · rename_i inst name heq
      exact absurd (Option.some.inj heq) (hexported inst name)
    · rfl

theorem Comes.of_coreRelation {s : Runtime B} {e : EnvId} {env : RuntimeEnv B} {idx : Nat}
    {relation : CoreRelation} (henv : s.envs[e]? = some env)
    (h : p.coreRelation .module idx = some relation)
    (himported : ∀ name, relation ≠ .importModule name)
    (hexported : ∀ inst name, relation ≠ .fromExport inst name) {value : RuntimeValue B}
    (hsort : value.hasSort (.coreModule idx)) : Comes p l s (.definition e (.coreModule idx)) value := by
  refine .defined value henv (Option.eq_none_iff_forall_ne_some.mpr ?_) ?_ hsort
  · rintro ⟨owner, name⟩ hp
    have heq := ComponentProgram.coreRelation_of_imported hp
    exact himported name (Option.some.inj (h.symm.trans heq))
  · unfold ComponentProgram.exportedFrom
    dsimp only
    rw [h]
    split
    · rename_i inst name heq
      exact absurd (Option.some.inj heq) (hexported inst name)
    · rfl

theorem value_insert {idx j : Nat} {found : α} {entries : List (Nat × α)} {wrap : α → RuntimeValue B}
    {sort : Nat → SortRef} {value : RuntimeValue B}
    (h : (((idx, found) :: entries).lookup j).map wrap = some value) :
    (entries.lookup j).map wrap = some value ∨ (sort j = sort idx ∧ value = wrap found) := by
  rw [List.lookup_cons] at h
  split at h
  · rename_i heq
    rw [beq_iff_eq.mp heq]
    exact .inr ⟨rfl, (Option.some.inj h).symm⟩
  · exact .inl h

variable (p l) in
def Brings (use : Use) (wrap : α → RuntimeValue B) (x : Resolve B α) : Prop :=
  ∀ s, ImportsFound p l s → LeadsFound p l s x fun a t => Comes p l t use (wrap a)

theorem Brings.kept {use : Use} {wrap : α → RuntimeValue B} {x : Resolve B α}
    (h : Brings p l use wrap x) : Kept p l x :=
  fun s hfound => (h s hfound).mono fun _ _ _ _ => trivial

variable (p l) in
structure KeptResolver (r : Resolver B) : Prop where
  component : ∀ e idx,
    Brings p l (.definition e (.item .component idx)) .component (r.component e idx)
  inst : ∀ e idx, Brings p l (.definition e (.item .instance idx)) .instance (r.inst e idx)
  func : ∀ e idx, Brings p l (.definition e (.item .func idx)) .func (r.func e idx)
  coreModule : ∀ e idx, Brings p l (.definition e (.coreModule idx)) .coreModule (r.coreModule e idx)
  coreInstance : ∀ e idx, Kept p l (r.coreInstance e idx)
  coreFunc : ∀ e idx, Kept p l (r.coreFunc e idx)
  coreMemory : ∀ e idx, Kept p l (r.coreMemory e idx)
  coreTable : ∀ e idx, Kept p l (r.coreTable e idx)
  export_ : ∀ i name, Brings p l (.exported i name) id (r.export_ i name)
  resolved : ∀ e idx s, ImportsFound p l s → LeadsFound p l s (r.inst e idx) fun i t =>
    ∃ env, t.envs[e]? = some env ∧ (idx, i) ∈ env.caches.instances

section level

variable {r : Resolver B} (hr : KeptResolver p l r)

include hr

theorem brings_sort (e : EnvId) (ref : SortRef) : Brings p l (.definition e ref) id (r.sort e ref) := by
  intro s hfound
  unfold Resolver.sort
  split
  · refine LeadsFound.bind (hr.component e _ s hfound) ?_
    exact fun _ t hfoundt _ h => Leads.pure hfoundt (.refl t) h
  · refine LeadsFound.bind (hr.inst e _ s hfound) ?_
    exact fun _ t hfoundt _ h => Leads.pure hfoundt (.refl t) h
  · refine LeadsFound.bind (hr.func e _ s hfound) ?_
    exact fun _ t hfoundt _ h => Leads.pure hfoundt (.refl t) h
  · refine LeadsFound.bind (hr.coreModule e _ s hfound) ?_
    exact fun _ t hfoundt _ h => Leads.pure hfoundt (.refl t) h

theorem brings_fromExport {e : EnvId} {ref : SortRef} {inst : Nat} {name : String}
    (hexported : p.exportedFrom ref = some (inst, name)) (wrap : α → RuntimeValue B)
    (hwrap : ∀ a, (wrap a).hasSort ref) {f : RuntimeValue B → Resolve B α}
    (hf : ∀ value, (∃ a, f value = pure a ∧ value = wrap a) ∨ ∃ err, f value = fail err) :
    Brings p l (.definition e ref) wrap (do f (← r.export_ (← r.inst e inst) name)) := by
  intro s hfound
  refine LeadsFound.bind (hr.resolved e inst s hfound) ?_
  rintro i t hfoundt - ⟨env, henv, hresolved⟩
  refine LeadsFound.bind (hr.export_ i name t hfoundt) ?_
  intro value u hfoundu hext hvalue
  obtain ⟨env', henv', hsub⟩ := hext.resolved e env henv
  rcases hf value with ⟨a, ha, rfl⟩ | ⟨err, herr⟩
  · rw [ha]
    exact Leads.pure hfoundu (.refl u)
      (.aliased hexported henv' (hsub hresolved) hvalue (hwrap a))
  · rw [herr]
    exact Leads.fail hfoundu (.refl u)

theorem brings_resolveComponent (e : EnvId) (idx : Nat) :
    Brings p l (.definition e (.item .component idx)) .component (resolveComponent p r e idx) := by
  intro s hfound
  refine (leadsFound_cached
    (W := fun found ref value => ref = .item .component idx ∧ value = .component found)
    (fun _ _ => rfl) (fun _ _ => List.Subset.refl _) ?_ ?_ ?_ hfound).mono
    fun found t _ h => h.1 _ _ ⟨rfl, rfl⟩
  · intro caches found ref value h
    cases ref with
    | item space j =>
        cases space with
        | component => exact value_insert h
        | «instance» => exact .inl h
        | func => exact .inl h
    | coreModule j => exact .inl h
  · rintro caches found hlookup _ _ ⟨rfl, rfl⟩
    exact Option.map_eq_some_iff.mpr ⟨found, hlookup, rfl⟩
  · intro s env hfound henv
    split
    · rename_i hrelation
      refine LeadsFound.bind (kept_cloneShallow e s hfound) fun clone t hfoundt hext _ => ?_
      obtain ⟨env', henv', -⟩ := hext.resolved e env henv
      refine Leads.pure hfoundt (.refl t) ?_
      rintro _ _ ⟨rfl, rfl⟩
      exact .of_relation henv' hrelation (fun _ h => by cases h) (fun _ _ h => by cases h) rfl
    · rename_i hrelation
      obtain ⟨owner, himported⟩ := ComponentProgram.imported_of_relation hrelation
      refine (leadsFound_lookupImportComponent hfound himported).mono ?_
      rintro found t - hcomes _ _ ⟨rfl, rfl⟩
      exact hcomes
    · rename_i hrelation
      refine (brings_fromExport hr (ComponentProgram.exportedFrom_item hrelation)
        .component (fun _ => rfl) ?_ s hfound).mono ?_
      · intro value
        cases value with
        | component definition => exact .inl ⟨definition, rfl, rfl⟩
        | _ => exact .inr ⟨_, rfl⟩
      · rintro found t - hcomes _ _ ⟨rfl, rfl⟩
        exact hcomes
    · exact Leads.fail hfound (.refl s)

theorem kept_newInstance {e : EnvId} {component : Nat} {args : List (String × SortRef)} :
    Kept p l (do
      let definition ← r.component e component
      let imports ← each (fun arg : String × SortRef => do return (arg.1, ← r.sort e arg.2)) args
      let outer ← environment definition.env
      let env ← addEnv ⟨definition.path, imports, definition.env :: outer.parents, .empty⟩
      addInstance (.component definition.exports) env) := by
  refine (hr.component e component).kept.bind fun definition => ?_
  refine (Kept.each fun arg _ => (brings_sort hr e arg.2).kept.bind fun _ => Kept.pure _).bind ?_
  intro imports s hfound
  refine LeadsFound.bind (leadsFound_environment hfound definition.env) ?_
  rintro outer _ - - ⟨rfl, hget⟩
  refine LeadsFound.bind (leadsFound_addEnv hfound ?_ (fun h => by cases h) ?_) ?_
  · intro parent hmem
    rcases List.mem_cons.mp hmem with rfl | hmem
    · exact (List.getElem?_eq_some_iff.mp hget).1
    · exact hfound.parents _ outer hget parent hmem
  · intro ref value h
    unfold RuntimeCaches.value RuntimeCaches.empty at h
    split at h <;> cases h
  · exact fun env t hfoundt _ _ => kept_addInstance _ env t hfoundt

theorem leadsFound_resolveInstance (e : EnvId) (idx : Nat) {s : Runtime B}
    (hfound : ImportsFound p l s) :
    LeadsFound p l s (resolveInstance l p r e idx) fun i t =>
      (∀ ref value, ref = .item .instance idx ∧ value = .instance i →
        Comes p l t (.definition e ref) value) ∧
        ∃ env, t.envs[e]? = some env ∧ (idx, i) ∈ env.caches.instances := by
  refine leadsFound_cached
    (W := fun found ref value => ref = .item .instance idx ∧ value = .instance found)
    (fun _ _ => rfl) (fun _ _ => List.subset_cons_self ..) ?_ ?_ ?_ hfound
  · intro caches found ref value h
    cases ref with
    | item space j =>
        cases space with
        | component => exact .inl h
        | «instance» => exact value_insert h
        | func => exact .inl h
    | coreModule j => exact .inl h
  · rintro caches found hlookup _ _ ⟨rfl, rfl⟩
    exact Option.map_eq_some_iff.mpr ⟨found, hlookup, rfl⟩
  · intro s env hfound henv
    split
    · rename_i hrelation
      refine (kept_newInstance hr s hfound).mono ?_
      rintro found t hext - _ _ ⟨rfl, rfl⟩
      obtain ⟨env', henv', -⟩ := hext.resolved e env henv
      exact .of_relation henv' hrelation (fun _ h => by cases h) (fun _ _ h => by cases h) rfl
    · rename_i hrelation
      obtain ⟨owner, himported⟩ := ComponentProgram.imported_of_relation hrelation
      refine (leadsFound_lookupImportInstance hfound himported).mono ?_
      rintro found t - hcomes _ _ ⟨rfl, rfl⟩
      exact hcomes
    · rename_i hrelation
      refine (brings_fromExport hr (ComponentProgram.exportedFrom_item hrelation)
        .instance (fun _ => rfl) ?_ s hfound).mono ?_
      · intro value
        cases value with
        | «instance» found => exact .inl ⟨found, rfl, rfl⟩
        | _ => exact .inr ⟨_, rfl⟩
      · rintro found t - hcomes _ _ ⟨rfl, rfl⟩
        exact hcomes
    · exact Leads.fail hfound (.refl s)

omit hr in
theorem kept_optional {resolve : Nat → Resolve B α} (hresolve : ∀ idx, Kept p l (resolve idx))
    (option : Option Nat) : Kept p l (optional resolve option) := by
  cases option with
  | none => exact Kept.pure _
  | some idx => exact (hresolve idx).bind fun _ => Kept.pure _

omit hr in
theorem kept_programFuncType (ty : TypeId) : Kept p l (programFuncType p ty : Resolve B _) := by
  unfold programFuncType
  split
  · exact Kept.pure _
  · exact Kept.fail _

theorem kept_canonical {e : EnvId} {ty : TypeId} {options : CanonicalRefs}
    {f : Option CoreExportRef → Option (RuntimeCoreFunc B) → Option (RuntimeCoreFunc B) → α} :
    Kept p l (do
      programFuncType p ty
      let memory ← optional (r.coreMemory e) options.memory
      let realloc ← optional (r.coreFunc e) options.realloc
      let postReturn ← optional (r.coreFunc e) options.postReturn
      return f memory realloc postReturn) := by
  refine (kept_programFuncType ty).bind fun _ => ?_
  refine (kept_optional (hr.coreMemory e) _).bind fun _ => ?_
  refine (kept_optional (hr.coreFunc e) _).bind fun _ => ?_
  exact (kept_optional (hr.coreFunc e) _).bind fun _ => Kept.pure _

theorem brings_resolveFunc (e : EnvId) (idx : Nat) :
    Brings p l (.definition e (.item .func idx)) .func (resolveFunc l p r e idx) := by
  intro s hfound
  refine (leadsFound_cached
    (W := fun found ref value => ref = .item .func idx ∧ value = .func found)
    (fun _ _ => rfl) (fun _ _ => List.Subset.refl _) ?_ ?_ ?_ hfound).mono
    fun found t _ h => h.1 _ _ ⟨rfl, rfl⟩
  · intro caches found ref value h
    cases ref with
    | item space j =>
        cases space with
        | component => exact .inl h
        | «instance» => exact .inl h
        | func => exact value_insert h
    | coreModule j => exact .inl h
  · rintro caches found hlookup _ _ ⟨rfl, rfl⟩
    exact Option.map_eq_some_iff.mpr ⟨found, hlookup, rfl⟩
  · intro s env hfound henv
    split
    · rename_i hrelation
      refine (Kept.bind (hr.coreFunc e _) (fun _ => kept_canonical hr) s hfound).mono ?_
      rintro found t hext - _ _ ⟨rfl, rfl⟩
      obtain ⟨env', henv', -⟩ := hext.resolved e env henv
      exact .of_relation henv' hrelation (fun _ h => by cases h) (fun _ _ h => by cases h) rfl
    · rename_i hrelation
      obtain ⟨owner, himported⟩ := ComponentProgram.imported_of_relation hrelation
      refine (leadsFound_lookupImportFunc hfound himported).mono ?_
      rintro found t - hcomes _ _ ⟨rfl, rfl⟩
      exact hcomes
    · rename_i hrelation
      refine (brings_fromExport hr (ComponentProgram.exportedFrom_item hrelation)
        .func (fun _ => rfl) ?_ s hfound).mono ?_
      · intro value
        cases value with
        | func callable => exact .inl ⟨callable, rfl, rfl⟩
        | _ => exact .inr ⟨_, rfl⟩
      · rintro found t - hcomes _ _ ⟨rfl, rfl⟩
        exact hcomes
    · exact Leads.fail hfound (.refl s)

theorem brings_resolveCoreModule (e : EnvId) (idx : Nat) :
    Brings p l (.definition e (.coreModule idx)) .coreModule (resolveCoreModule p r e idx) := by
  intro s hfound
  refine (leadsFound_cached
    (W := fun found ref value => ref = .coreModule idx ∧ value = .coreModule found)
    (fun _ _ => rfl) (fun _ _ => List.Subset.refl _) ?_ ?_ ?_ hfound).mono
    fun found t _ h => h.1 _ _ ⟨rfl, rfl⟩
  · intro caches found ref value h
    cases ref with
    | item space j =>
        cases space with
        | component => exact .inl h
        | «instance» => exact .inl h
        | func => exact .inl h
    | coreModule j => exact value_insert h
  · rintro caches found hlookup _ _ ⟨rfl, rfl⟩
    exact Option.map_eq_some_iff.mpr ⟨found, hlookup, rfl⟩
  · intro s env hfound henv
    split
    · rename_i hrelation
      refine Leads.pure hfound (.refl s) ?_
      rintro _ _ ⟨rfl, rfl⟩
      exact .of_coreRelation henv hrelation (fun _ h => by cases h) (fun _ _ h => by cases h) rfl
    · rename_i hrelation
      obtain ⟨owner, himported⟩ := ComponentProgram.imported_of_coreRelation hrelation
      refine (leadsFound_lookupImportCoreModule hfound himported).mono ?_
      rintro found t - hcomes _ _ ⟨rfl, rfl⟩
      exact hcomes
    · rename_i hrelation
      refine (brings_fromExport hr (ComponentProgram.exportedFrom_coreModule hrelation)
        .coreModule (fun _ => rfl) ?_ s hfound).mono ?_
      · intro value
        cases value with
        | coreModule module => exact .inl ⟨module, rfl, rfl⟩
        | _ => exact .inr ⟨_, rfl⟩
      · rintro found t - hcomes _ _ ⟨rfl, rfl⟩
        exact hcomes
    · exact Leads.fail hfound (.refl s)
    · exact Leads.fail hfound (.refl s)

omit hr in
theorem kept_createCoreInstance (core : CoreRuntime B) (e : EnvId) (idx : Nat)
    (module : Option Nat) : Kept p l (createCoreInstance core e idx module) := by
  refine Kept.get_bind fun s => ?_
  split
  · refine Kept.bind (Kept.modify ?_ (fun _ => rfl) fun _ => rfl) fun _ => Kept.pure _
    exact fun s => ⟨(Runtime.Grows.refl s).envs, (Runtime.Grows.refl s).instances,
      List.prefix_append _ _, List.suffix_refl _⟩
  · exact Kept.fail _

theorem kept_inlineExport (e : EnvId) (export_ : CoreSpace × Nat) :
    Kept p l (inlineExport r e export_) := by
  unfold inlineExport
  split
  · exact (hr.coreFunc e _).bind fun _ => Kept.pure _
  · exact (hr.coreMemory e _).bind fun _ => Kept.pure _
  · exact (hr.coreTable e _).bind fun _ => Kept.pure _
  · exact Kept.fail _

theorem kept_resolveCoreInstance (core : CoreRuntime B) (e : EnvId) (idx : Nat) :
    Kept p l (resolveCoreInstance p r core e idx) := by
  refine kept_cached_core (fun _ _ => rfl) (fun _ _ => rfl) (fun _ _ => rfl) ?_
  split
  · refine (hr.coreModule e _).kept.bind fun module => ?_
    refine (Kept.each fun arg _ => hr.coreInstance e arg.2).bind fun _ => ?_
    exact kept_createCoreInstance core e idx _
  · refine (Kept.each fun export_ _ => kept_inlineExport hr e export_.2).bind fun _ => ?_
    exact kept_createCoreInstance core e idx _
  · exact Kept.fail _
  · exact Kept.fail _
  · exact Kept.fail _
  · exact Kept.fail _

theorem kept_resolveCoreExport (e : EnvId) (inst : Nat) (name : String) :
    Kept p l (resolveCoreExport r e inst name) := by
  refine Kept.bind (Kept.modify ?_ (fun _ => rfl) fun _ => rfl)
    fun _ => (hr.coreInstance e inst).bind fun _ => Kept.pure _
  exact fun s => ⟨(Runtime.Grows.refl s).envs, (Runtime.Grows.refl s).instances,
    List.prefix_refl _, List.suffix_cons _ _⟩

theorem kept_resolveCoreFunc (e : EnvId) (idx : Nat) : Kept p l (resolveCoreFunc p r e idx) := by
  refine kept_cached_core (fun _ _ => rfl) (fun _ _ => rfl) (fun _ _ => rfl) ?_
  split
  · exact (hr.func e _).kept.bind fun _ => kept_canonical hr
  · exact (kept_optional (hr.coreFunc e) _).bind fun _ => Kept.pure _
  · exact Kept.pure _
  · exact (kept_resolveCoreExport hr e _ _).bind fun _ => Kept.pure _
  · exact Kept.fail _
  · exact Kept.fail _
  · exact Kept.fail _

theorem kept_resolveCoreMemory (e : EnvId) (idx : Nat) :
    Kept p l (resolveCoreMemory p r e idx) := by
  refine kept_cached_core (fun _ _ => rfl) (fun _ _ => rfl) (fun _ _ => rfl) ?_
  split
  · exact kept_resolveCoreExport hr e _ _
  · exact Kept.fail _

theorem kept_resolveCoreTable (e : EnvId) (idx : Nat) : Kept p l (resolveCoreTable p r e idx) := by
  refine kept_cached_core (fun _ _ => rfl) (fun _ _ => rfl) (fun _ _ => rfl) ?_
  split
  · exact kept_resolveCoreExport hr e _ _
  · exact Kept.fail _

theorem leadsFound_findExport {s : Runtime B} (hfound : ImportsFound p l s) {i : Nat}
    {inst : RuntimeComponentInstance B} (hinst : s.instances[i]? = some inst) (name : String) :
    LeadsFound p l s (findExport l p r inst name) fun value t =>
      Comes p l t (.exported i name) value := by
  have hsort : ∀ (exports : List (String × SortRef)) (ref : SortRef),
      inst.source = .component exports → exports.lookup name = some ref →
      (∀ env : RuntimeEnv B, (∀ old, s.envs[inst.env]? = some old → env.parents = old.parents) →
        linkedSort p l env ref name = none) →
      LeadsFound p l s (r.sort inst.env ref) fun value t => Comes p l t (.exported i name) value := by
    intro exports ref hsource hlookup hlinked
    refine (brings_sort hr inst.env ref s hfound).mono fun value t hext h => ?_
    obtain ⟨inst', hinst', hsource', henv'⟩ := hext.grows.instances i inst hinst
    rw [← henv'] at h hlinked
    obtain ⟨env, henv⟩ := h.env
    refine .exported hinst' (hsource'.trans hsource) hlookup henv (hlinked env fun old hold => ?_) h
    obtain ⟨env', hget, -, -, hparents⟩ := hext.grows.envs _ old hold
    rw [Option.some.inj (henv.symm.trans hget)]
    exact hparents
  unfold findExport
  split
  · rename_i exports hsource
    split
    · rename_i idx hlookup
      refine LeadsFound.bind (leadsFound_environment hfound inst.env) ?_
      rintro env _ - - ⟨rfl, henv⟩
      split
      · rename_i binding hlinked
        exact Leads.pure hfound (.refl _) (.linkedExport hinst hsource hlookup henv hlinked)
      · rename_i hlinked
        refine hsort exports _ hsource hlookup fun env' hparents => ?_
        exact (linkedSort_eq_of_parents (hparents env henv) _ name).trans hlinked
    · rename_i ref hfunc hlookup
      refine hsort exports ref hsource hlookup fun env' _ => ?_
      cases ref with
      | item space idx =>
          cases space with
          | func => exact absurd rfl (hfunc idx)
          | _ => rfl
      | coreModule idx => rfl
    · exact Leads.fail hfound (.refl s)
  · rename_i exports hsource
    split
    · rename_i binding hlookup
      exact Leads.pure hfound (.refl s) (.linkerInstance hinst hsource hlookup)
    · exact Leads.fail hfound (.refl s)

theorem brings_resolveExport (i : Nat) (name : String) :
    Brings p l (.exported i name) id (resolveExport l p r i name) := by
  intro s hfound
  refine Leads.get_bind ?_
  split
  · exact Leads.fail hfound (.refl s)
  · rename_i inst hinst
    split
    · rename_i value hlookup
      exact Leads.pure hfound (.refl s) (hfound.exports i inst hinst name value hlookup)
    · refine LeadsFound.bind (leadsFound_findExport hr hfound hinst name) ?_
      intro value t hfoundt _ hvalue
      have hgrows := Runtime.Grows.cacheExport t i name value
      have hext := Runtime.Extends.of_envs_eq hgrows rfl
      refine LeadsFound.bind (R := fun _ u => Comes p l u (.exported i name) value) ?_
        fun _ u hfoundu _ h => Leads.pure hfoundu (.refl u) h
      refine Leads.modify (hfoundt.of_envs_eq hgrows rfl ?_) hext (hvalue.mono hfoundt hext)
      intro j inst' h name' value' hvalue'
      rw [List.getElem?_modify] at h
      obtain ⟨old, hold, rfl⟩ := Option.map_eq_some_iff.mp h
      split at hvalue'
      · rename_i hj
        dsimp only at hvalue'
        rw [List.lookup_cons] at hvalue'
        split at hvalue'
        · rename_i hname
          obtain rfl := beq_iff_eq.mp hname
          obtain rfl := Option.some.inj hvalue'
          rw [← hj]
          exact .inl hvalue
        · exact .inl (hfoundt.exports j old hold name' value' hvalue')
      · exact .inl (hfoundt.exports j old hold name' value' hvalue')

theorem keptResolver_next (core : CoreRuntime B) : KeptResolver p l (r.next l p core) where
  component := brings_resolveComponent hr
  inst e idx _ hfound :=
    (leadsFound_resolveInstance hr e idx hfound).mono fun _ _ _ h => h.1 _ _ ⟨rfl, rfl⟩
  func := brings_resolveFunc hr
  coreModule := brings_resolveCoreModule hr
  coreInstance := kept_resolveCoreInstance hr core
  coreFunc := kept_resolveCoreFunc hr
  coreMemory := kept_resolveCoreMemory hr
  coreTable := kept_resolveCoreTable hr
  export_ := brings_resolveExport hr
  resolved e idx _ hfound := (leadsFound_resolveInstance hr e idx hfound).mono fun _ _ _ h => h.2

end level

variable (p l) in
theorem keptResolver (core : CoreRuntime B) (depth : Nat) :
    KeptResolver p l (resolver l p core depth) := by
  induction depth with
  | zero =>
      have hbrings : ∀ {α : Type} (use : Use) (wrap : α → RuntimeValue B),
          Brings p l use wrap (fail .outOfFuel) :=
        fun _ _ s hfound => Leads.fail hfound (.refl s)
      exact ⟨fun _ _ => hbrings _ _, fun _ _ => hbrings _ _, fun _ _ => hbrings _ _,
        fun _ _ => hbrings _ _, fun _ _ => Kept.fail _, fun _ _ => Kept.fail _,
        fun _ _ => Kept.fail _, fun _ _ => Kept.fail _, fun _ _ => hbrings _ _,
        fun _ _ s hfound => Leads.fail hfound (.refl s)⟩
  | succ depth ih => exact keptResolver_next ih core

theorem kept_instantiateSync (core : CoreRuntime B) (depth : Nat) :
    Kept p l (instantiateSync l p core depth) := by
  have hr := keptResolver p l core depth
  refine Kept.bind ?_ fun _ => Kept.bind (Kept.each fun name _ => ?_) fun _ => Kept.pure _
  · exact (Kept.each fun idx _ => hr.coreInstance 0 idx).bind fun _ => Kept.pure _
  · refine (hr.export_ 0 name).kept.bind fun value => ?_
    split
    · exact Kept.pure _
    · exact Kept.fail _

theorem kept_resolveNamespace (core : CoreRuntime B) (depth : Nat) (current : Nat)
    (path : List String) : Kept p l (resolveNamespace l p core depth current path) := by
  induction path generalizing current with
  | nil => exact Kept.pure _
  | cons segment path ih =>
      refine ((keptResolver p l core depth).export_ current segment).kept.bind fun value => ?_
      split
      · exact ih _
      · exact Kept.fail _

theorem kept_callPath (core : CoreRuntime B) (depth : Nat) (path : List String) (name : String) :
    Kept p l (callPath l p core depth path name) := by
  refine (kept_resolveNamespace core depth 0 path).bind fun i => ?_
  refine ((keptResolver p l core depth).export_ i name).kept.bind fun value => ?_
  split
  · exact Kept.pure _
  · exact Kept.fail _

end kept

inductive Reached (p : ComponentProgram C) (l : ComponentLinker B) (core : CoreRuntime B) :
    Runtime B → Prop
  | instantiate (depth : Nat) : Reached p l core (instantiateSync l p core depth (.initial p)).2
  | call {s : Runtime B} (depth : Nat) (path : List String) (name : String)
      (hs : Reached p l core s) : Reached p l core (callPath l p core depth path name s).2

section runs

variable {p : ComponentProgram C} {l : ComponentLinker B} {core : CoreRuntime B} {s : Runtime B}

theorem importsFound_initial : ImportsFound p l (.initial p) := by
  have hroot : ∀ (e : EnvId) (env : RuntimeEnv B), (Runtime.initial p).envs[e]? = some env →
      env = ⟨.root, [], [], .empty⟩ := by
    intro e env h
    cases e with
    | zero => exact (Option.some.inj h).symm
    | succ e => cases h
  refine ⟨fun e env h parent hmem => ?_, fun e env h _ => ?_, fun e env h ref value hvalue => ?_,
    fun i inst h name value hvalue => ?_⟩
  · rw [hroot e env h] at hmem
    cases hmem
  · rw [hroot e env h]
  · rw [hroot e env h] at hvalue
    unfold RuntimeCaches.value RuntimeCaches.empty at hvalue
    split at hvalue <;> cases hvalue
  · cases i with
    | zero =>
        obtain rfl := Option.some.inj h
        cases hvalue
    | succ i => cases h

theorem Reached.importsFound (hs : Reached p l core s) : ImportsFound p l s := by
  induction hs with
  | instantiate depth => exact (kept_instantiateSync core depth _ importsFound_initial).inv
  | call depth path name _ ih => exact (kept_callPath core depth path name _ ih).inv

end runs

end Telomere.Component
