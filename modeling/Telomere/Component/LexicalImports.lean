import Telomere.Component.ImportScopes

/-!
# Lexical scoping of imports

An import is used through its definition, through the exports of instances and through aliases of
such exports. It is the argument of the right instance exactly when no environment on the way has an
argument of that name and the linker is not asked before; and when the root exports it, the linker
must not have something else for the export.
-/

namespace Telomere.Component

variable {B C α : Type}

open Lib.Attempt (get)

/-- An argument of the instance of the declaring component that is around the use, the nearest one
of the chain. The arguments of the root are the entries of the linker. -/
def Lexical (s : Runtime B) (e : EnvId) (owner : ComponentPath) : Found B → Prop
  | .argument env _ => owner ≠ .root ∧
      ∃ frame, (s.chain e).find? (·.path == owner) = some frame ∧ frame.env = env
  | .linked _ _ => owner = .root

/-- No argument of that name is in the way. For imports of the root, which the linker has, the use
itself must not have one. For other imports, nothing between the use and the instance of their
component has one, this instance has, and the linker is not asked before. -/
def Unshadowed (l : ComponentLinker B) (s : Runtime B) (e : EnvId) (ref : SortRef)
    (owner : ComponentPath) (name : String) : Prop :=
  if owner = .root then
    (l.entry name ref).isSome ∧
      ∃ frame outer, s.chain e = frame :: outer ∧ frame.imports.lookup name = none
  else
    ∃ (inner : List (ImportFrame B)) (frame : ImportFrame B) (outer : List (ImportFrame B))
        (value : RuntimeValue B), s.chain e = inner ++ frame :: outer ∧
      (∀ between ∈ inner, between.path ≠ owner ∧ between.imports.lookup name = none) ∧
      frame.path = owner ∧ frame.imports.lookup name = some value ∧ value.hasSort ref ∧
      (inner = [] ∨ l.entry name ref = none)

section asked

variable {p : ComponentProgram C} {l : ComponentLinker B} {core : CoreRuntime B} {s t : Runtime B}
  {e : EnvId} {env : RuntimeEnv B} {idx : Nat} {name : String}

theorem environment_eq (henv : s.envs[e]? = some env) : environment e s = (.ok env, s) := by
  unfold environment
  have hget : (Lib.Attempt.get : Resolve B _) s = (.ok s, s) := rfl
  refine (Lib.Attempt.bind_ok hget).trans ?_
  rw [henv]
  rfl

section cached

variable {entries : RuntimeCaches B → List (Nat × α)}
  {setEntries : RuntimeCaches B → List (Nat × α) → RuntimeCaches B} {resolve : Resolve B α}

theorem cached_hit (henv : s.envs[e]? = some env) {found : α}
    (h : (entries env.caches).lookup idx = some found) :
    cached entries setEntries e idx resolve s = (.ok found, s) := by
  unfold cached
  rw [Lib.Attempt.bind_ok (environment_eq henv), h]
  rfl

theorem cached_miss (henv : s.envs[e]? = some env) (h : (entries env.caches).lookup idx = none)
    {found : α} (hresolve : resolve s = (.ok found, t)) :
    cached entries setEntries e idx resolve s = (.ok found,
      t.modifyCaches e fun caches => setEntries caches ((idx, found) :: entries caches)) := by
  unfold cached
  rw [Lib.Attempt.bind_ok (environment_eq henv), h]
  dsimp only
  rw [Lib.Attempt.bind_ok hresolve]
  rfl

end cached

/-- Whether what was found is of the sort that is asked for. -/
def Found.hasSort : Found B → SortRef → Bool
  | .argument _ value, ref => value.hasSort ref
  | .linked _ (.func _), .item .func _ | .linked _ (.inst _), .item .instance _ => true
  | .linked _ _, _ => false

theorem get_bind_eq {f : Runtime B → Resolve B α} : (get >>= f) s = f s s := rfl

theorem lookupImportComponent_eq {found : Found B}
    (hsearch : searchImport (l.entry name (.item .component idx)) name (s.chain e) = some found)
    (hsort : found.hasSort (.item .component idx)) :
    ∃ definition, lookupImportComponent e name s = (.ok definition, s) ∧
      Delivers s found (.component definition) := by
  have hnone : searchImport none name (s.chain e) = some found := hsearch
  unfold lookupImportComponent
  rw [get_bind_eq, hnone]
  cases found with
  | argument c value =>
      cases value with
      | component definition => exact ⟨definition, rfl, rfl⟩
      | _ => cases hsort
  | linked c entry => cases entry <;> cases hsort

theorem lookupImportCoreModule_eq {found : Found B}
    (hsearch : searchImport (l.entry name (.coreModule idx)) name (s.chain e) = some found)
    (hsort : found.hasSort (.coreModule idx)) :
    ∃ module, lookupImportCoreModule e name s = (.ok module, s) ∧
      Delivers s found (.coreModule module) := by
  have hnone : searchImport none name (s.chain e) = some found := hsearch
  unfold lookupImportCoreModule
  rw [get_bind_eq, hnone]
  cases found with
  | argument c value =>
      cases value with
      | coreModule module => exact ⟨module, rfl, rfl⟩
      | _ => cases hsort
  | linked c entry => cases entry <;> cases hsort

theorem lookupImportFunc_eq {found : Found B}
    (hsearch : searchImport (l.entry name (.item .func idx)) name (s.chain e) = some found)
    (hsort : found.hasSort (.item .func idx)) :
    ∃ callable, lookupImportFunc l e name s = (.ok callable, s) ∧
      Delivers s found (.func callable) := by
  have hfunc : searchImport ((l.imports.lookup name).map .func) name (s.chain e) = some found :=
    hsearch
  unfold lookupImportFunc
  rw [get_bind_eq, hfunc]
  cases found with
  | argument c value =>
      cases value with
      | func callable => exact ⟨callable, rfl, rfl⟩
      | _ => cases hsort
  | linked c entry =>
      cases entry with
      | func binding => exact ⟨.linked binding, rfl, rfl⟩
      | inst exports => cases hsort

/-- For an entry of the linker an instance is added, with a clone of the environment that asks. -/
theorem lookupImportInstance_eq (henv : s.envs[e]? = some env) {found : Found B}
    (hsearch : searchImport (l.entry name (.item .instance idx)) name (s.chain e) = some found)
    (hsort : found.hasSort (.item .instance idx)) :
    ∃ i t, lookupImportInstance l e name s = (.ok i, t) ∧ Delivers t found (.instance i) := by
  have hinst : searchImport ((l.importInstances.lookup name).map .inst) name (s.chain e) =
      some found := hsearch
  unfold lookupImportInstance
  rw [get_bind_eq, hinst]
  cases found with
  | argument c value =>
      cases value with
      | «instance» i => exact ⟨i, s, rfl, rfl⟩
      | _ => cases hsort
  | linked c entry =>
      cases entry with
      | func binding => cases hsort
      | inst exports =>
          -- the linker is asked in the environment itself, so that is the one to clone
          obtain ⟨-, frame, outer, hchain, rfl, -⟩ := searchImport_eq_linked.mp hsearch
          rw [chain_of_get henv] at hchain
          obtain ⟨rfl, -⟩ := List.cons.inj hchain
          have hclone : cloneShallow e s = (.ok s.envs.length, { s with envs := s.envs ++ [env] }) := by
            unfold cloneShallow
            rw [Lib.Attempt.bind_ok (environment_eq henv)]
            rfl
          dsimp only
          rw [Lib.Attempt.bind_ok hclone]
          exact ⟨s.instances.length, _, rfl, s.instances.length,
            ⟨.linkerInstance exports, s.envs.length, []⟩, rfl, List.getElem?_concat_length, rfl⟩

theorem sort_delivers (hfound : ImportsFound p l s) (henv : s.envs[e]? = some env) {ref : SortRef}
    {owner : ComponentPath} (himported : p.imported ref = some (owner, name)) {found : Found B}
    (hsearch : searchImport (l.entry name ref) name (s.chain e) = some found)
    (hsort : found.hasSort ref) (depth : Nat) :
    ∃ value t, (resolver l p core (depth + 1)).sort e ref s = (.ok value, t) ∧
      Delivers t found value := by
  have hdelivers : ∀ value, env.caches.value ref = some value → Delivers s found value := by
    intro value hvalue
    cases hfound.caches e env henv ref value hvalue with
    | imported himported' hsearch' hd _ =>
        obtain ⟨-, rfl⟩ := Prod.mk.inj (Option.some.inj (himported.symm.trans himported'))
        rw [Option.some.inj (hsearch.symm.trans hsearch')]
        exact hd
    | defined _ _ hnone _ _ => cases himported.symm.trans hnone
    | aliased hexported _ _ _ _ =>
        cases hexported.symm.trans (ComponentProgram.exportedFrom_of_imported himported)
  cases ref with
  | item space idx =>
      have hrelation := ComponentProgram.relation_of_imported himported
      cases space with
      | component =>
          suffices h : ∃ definition t,
              resolveComponent p (resolver l p core depth) e idx s = (.ok definition, t) ∧
                Delivers t found (.component definition) by
            obtain ⟨definition, t, hresolve, hd⟩ := h
            exact ⟨.component definition, t, Lib.Attempt.bind_ok hresolve, hd⟩
          cases hcache : env.caches.components.lookup idx with
          | some definition =>
              refine ⟨definition, s, cached_hit henv hcache, hdelivers _ ?_⟩
              exact Option.map_eq_some_iff.mpr ⟨definition, hcache, rfl⟩
          | none =>
              obtain ⟨definition, hlookup, hd⟩ := lookupImportComponent_eq hsearch hsort
              refine ⟨definition, _, cached_miss henv hcache (t := s) ?_, hd.mono (.modifyCaches ..)⟩
              rw [hrelation]
              exact hlookup
      | «instance» =>
          suffices h : ∃ i t, resolveInstance l p (resolver l p core depth) e idx s = (.ok i, t) ∧
              Delivers t found (.instance i) by
            obtain ⟨i, t, hresolve, hd⟩ := h
            exact ⟨.instance i, t, Lib.Attempt.bind_ok hresolve, hd⟩
          cases hcache : env.caches.instances.lookup idx with
          | some i =>
              refine ⟨i, s, cached_hit henv hcache, hdelivers _ ?_⟩
              exact Option.map_eq_some_iff.mpr ⟨i, hcache, rfl⟩
          | none =>
              obtain ⟨i, t, hlookup, hd⟩ := lookupImportInstance_eq henv hsearch hsort
              refine ⟨i, _, cached_miss henv hcache (t := t) ?_, hd.mono (.modifyCaches ..)⟩
              rw [hrelation]
              exact hlookup
      | func =>
          suffices h : ∃ callable t,
              resolveFunc l p (resolver l p core depth) e idx s = (.ok callable, t) ∧
                Delivers t found (.func callable) by
            obtain ⟨callable, t, hresolve, hd⟩ := h
            exact ⟨.func callable, t, Lib.Attempt.bind_ok hresolve, hd⟩
          cases hcache : env.caches.funcs.lookup idx with
          | some callable =>
              refine ⟨callable, s, cached_hit henv hcache, hdelivers _ ?_⟩
              exact Option.map_eq_some_iff.mpr ⟨callable, hcache, rfl⟩
          | none =>
              obtain ⟨callable, hlookup, hd⟩ := lookupImportFunc_eq hsearch hsort
              refine ⟨callable, _, cached_miss henv hcache (t := s) ?_, hd.mono (.modifyCaches ..)⟩
              rw [hrelation]
              exact hlookup
  | coreModule idx =>
      have hrelation := ComponentProgram.coreRelation_of_imported himported
      suffices h : ∃ module t,
          resolveCoreModule p (resolver l p core depth) e idx s = (.ok module, t) ∧
            Delivers t found (.coreModule module) by
        obtain ⟨module, t, hresolve, hd⟩ := h
        exact ⟨.coreModule module, t, Lib.Attempt.bind_ok hresolve, hd⟩
      cases hcache : env.caches.coreModules.lookup idx with
      | some module =>
          refine ⟨module, s, cached_hit henv hcache, hdelivers _ ?_⟩
          exact Option.map_eq_some_iff.mpr ⟨module, hcache, rfl⟩
      | none =>
          obtain ⟨module, hlookup, hd⟩ := lookupImportCoreModule_eq hsearch hsort
          refine ⟨module, _, cached_miss henv hcache (t := s) ?_, hd.mono (.modifyCaches ..)⟩
          rw [hrelation]
          exact hlookup

theorem sort_hasSort {r : Resolver B} {ref : SortRef} {value : RuntimeValue B}
    (h : r.sort e ref s = (.ok value, t)) : value.hasSort ref := by
  have hbind : ∀ {γ : Type} {x : Resolve B γ} {wrap : γ → RuntimeValue B},
      (do return wrap (← x) : Resolve B _) s = (.ok value, t) → ∃ a, value = wrap a := by
    intro γ x wrap h
    rcases hx : x s with ⟨outcome, u⟩
    cases outcome with
    | error err =>
        rw [Lib.Attempt.bind_error hx] at h
        cases h
    | ok a =>
        rw [Lib.Attempt.bind_ok hx] at h
        exact ⟨a, (Except.ok.inj (Prod.mk.inj h).1).symm⟩
  unfold Resolver.sort at h
  split at h
  · obtain ⟨_, rfl⟩ := hbind h
    rfl
  · obtain ⟨_, rfl⟩ := hbind h
    rfl
  · obtain ⟨_, rfl⟩ := hbind h
    rfl
  · obtain ⟨_, rfl⟩ := hbind h
    rfl

end asked

def SortRef.sameSort : SortRef → SortRef → Bool
  | .item space _, .item space' _ => space = space'
  | .coreModule _, .coreModule _ => true
  | _, _ => false

/-- A use comes down to a definition, in an environment: it is that definition, or it is an export
of an instance, or an alias of one whose instance definition was resolved to that instance, and to
no other. `through` is the name under which the definition itself is exported, if it is used that
way; each step is resolved one level further down. -/
inductive UseOf (p : ComponentProgram C) (s : Runtime B) :
    Use → Option String → Nat → EnvId → SortRef → Prop
  | definition (e : EnvId) (ref : SortRef) : UseOf p s (.definition e ref) none 1 e ref
  | exported {i : Nat} {name : String} {inst : RuntimeComponentInstance B}
      {exports : List (String × SortRef)} {ref ref' : SortRef} {through : Option String}
      {levels : Nat} {e' : EnvId} (hinst : s.instances[i]? = some inst)
      (hsource : inst.source = .component exports) (hlookup : exports.lookup name = some ref)
      (h : UseOf p s (.definition inst.env ref) through levels e' ref') :
      UseOf p s (.exported i name) (through.or (some name)) (levels + 1) e' ref'
  | aliased {e : EnvId} {env : RuntimeEnv B} {ref ref' : SortRef} {inst : Nat} {name : String}
      {i : Nat} {through : Option String} {levels : Nat} {e' : EnvId}
      (hexported : p.exportedFrom ref = some (inst, name)) (hsort : ref.sameSort ref')
      (henv : s.envs[e]? = some env) (hresolved : env.caches.instances.lookup inst = some i)
      (honly : ∀ j, (inst, j) ∈ env.caches.instances → j = i)
      (h : UseOf p s (.exported i name) through levels e' ref') :
      UseOf p s (.definition e ref) through (levels + 1) e' ref'

/-- The entry that the linker has for an export of the root that is one of its function imports. -/
def ComponentLinker.exportBinding (l : ComponentLinker B) (env : RuntimeEnv B) :
    SortRef → Option String → Option B
  | .item .func _, some exportName =>
      match env.parents with
      | [] => l.exports.lookup exportName
      | _ => none
  | _, _ => none

/-- The value of a use when the search for its import comes to `found`. -/
def Yields (l : ComponentLinker B) (s : Runtime B) (env : RuntimeEnv B) (ref : SortRef)
    (through : Option String) (found : Found B) (value : RuntimeValue B) : Prop :=
  match l.exportBinding env ref through with
  | some binding => value = .func (.linked binding)
  | none => Delivers s found value

section uses

variable {p : ComponentProgram C} {l : ComponentLinker B} {core : CoreRuntime B} {s t : Runtime B}
  {use : Use} {through : Option String} {levels : Nat} {e : EnvId} {env : RuntimeEnv B}
  {ref : SortRef} {owner : ComponentPath} {name : String} {found : Found B} {value : RuntimeValue B}

theorem exportBinding_none : l.exportBinding env ref none = none := by
  unfold ComponentLinker.exportBinding
  split
  · rename_i h
    cases h
  · rfl

theorem exportBinding_eq_linkedSort (himported : p.imported ref = some (owner, name))
    (exportName : String) :
    l.exportBinding env ref (some exportName) = linkedSort p l env ref exportName := by
  cases ref with
  | coreModule idx => rfl
  | item space idx =>
      cases space with
      | component => rfl
      | «instance» => rfl
      | func =>
          have hrelation := ComponentProgram.relation_of_imported himported
          unfold ComponentLinker.exportBinding linkedSort linkedExport
          dsimp only
          rw [hrelation]
          cases env.parents with
          | nil => rfl
          | cons parent parents => rfl

theorem imported_of_linkedSort {binding : B} {exportName : String}
    (h : linkedSort p l env ref exportName = some binding) : p.exportedFrom ref = none := by
  unfold linkedSort at h
  split at h
  · rename_i idx
    unfold linkedExport at h
    split at h
    · rename_i hrelation
      obtain ⟨owner, himported⟩ := ComponentProgram.imported_of_relation hrelation
      exact ComponentProgram.exportedFrom_of_imported himported
    · cases h
  · cases h

theorem UseOf.eq_of_none {e₀ : EnvId} {ref₀ : SortRef}
    (huse : UseOf p s (.definition e₀ ref₀) none levels e ref) : e₀ = e ∧ ref₀ = ref := by
  cases huse with
  | definition => exact ⟨rfl, rfl⟩
  | aliased _ _ _ _ _ h =>
      generalize hthrough : (none : Option String) = through at h
      cases h with
      | exported _ _ _ _ =>
          rw [Option.or_eq_none_iff.mp hthrough.symm |>.1] at hthrough
          cases hthrough

theorem UseOf.exists_env {e₀ : EnvId} {ref₀ : SortRef}
    (huse : UseOf p s (.definition e₀ ref₀) through levels e ref) (henv : s.envs[e]? = some env) :
    ∃ env₀, s.envs[e₀]? = some env₀ := by
  cases huse with
  | definition => exact ⟨env, henv⟩
  | aliased _ _ henv₀ _ _ _ => exact ⟨_, henv₀⟩

/-- An export whose value is not the linker's yields what its definition yields. -/
theorem UseOf.exportBinding_eq {e₀ : EnvId} {env₀ : RuntimeEnv B} {ref₀ : SortRef}
    {exportName : String} (huse : UseOf p s (.definition e₀ ref₀) through levels e ref)
    (henv₀ : s.envs[e₀]? = some env₀) (henv : s.envs[e]? = some env)
    (himported : p.imported ref = some (owner, name))
    (hlinked : linkedSort p l env₀ ref₀ exportName = none) :
    l.exportBinding env ref (through.or (some exportName)) = l.exportBinding env ref through := by
  cases through with
  | some _ => rfl
  | none =>
      obtain ⟨rfl, rfl⟩ := huse.eq_of_none
      obtain rfl := Option.some.inj (henv₀.symm.trans henv)
      rw [exportBinding_none, Option.none_or, exportBinding_eq_linkedSort himported]
      exact hlinked

theorem UseOf.exportBinding_eq_some {e₀ : EnvId} {env₀ : RuntimeEnv B} {ref₀ : SortRef}
    {exportName : String} {binding : B}
    (huse : UseOf p s (.definition e₀ ref₀) through levels e ref) (henv₀ : s.envs[e₀]? = some env₀)
    (henv : s.envs[e]? = some env) (himported : p.imported ref = some (owner, name))
    (hlinked : linkedSort p l env₀ ref₀ exportName = some binding) :
    l.exportBinding env ref (through.or (some exportName)) = some binding := by
  cases huse with
  | definition =>
      obtain rfl := Option.some.inj (henv₀.symm.trans henv)
      exact (exportBinding_eq_linkedSort himported exportName).trans hlinked
  | aliased hexported _ _ _ _ _ => cases hexported.symm.trans (imported_of_linkedSort hlinked)

theorem UseOf.yields (huse : UseOf p s use through levels e ref) (henv : s.envs[e]? = some env)
    (himported : p.imported ref = some (owner, name))
    (hsearch : searchImport (l.entry name ref) name (s.chain e) = some found)
    (hcomes : Comes p l s use value) : Yields l s env ref through found value := by
  induction huse generalizing value with
  | definition e ref =>
      unfold Yields
      rw [exportBinding_none]
      cases hcomes with
      | imported himported' hsearch' hdelivers _ =>
          obtain ⟨-, rfl⟩ := Prod.mk.inj (Option.some.inj (himported.symm.trans himported'))
          obtain rfl := Option.some.inj (hsearch.symm.trans hsearch')
          exact hdelivers
      | defined _ _ hnone _ _ => cases himported.symm.trans hnone
      | aliased hexported _ _ _ _ =>
          cases hexported.symm.trans (ComponentProgram.exportedFrom_of_imported himported)
  | exported hinst hsource hlookup huse ih =>
      cases hcomes with
      | exported hinst' hsource' hlookup' henv₀ hlinked hcomes =>
          obtain rfl := Option.some.inj (hinst.symm.trans hinst')
          cases hsource.symm.trans hsource'
          obtain rfl := Option.some.inj (hlookup.symm.trans hlookup')
          have hyields := ih henv himported hsearch hcomes
          unfold Yields at hyields ⊢
          rw [huse.exportBinding_eq henv₀ henv himported hlinked]
          exact hyields
      | linkedExport hinst' hsource' hlookup' henv₀ hlinked =>
          obtain rfl := Option.some.inj (hinst.symm.trans hinst')
          cases hsource.symm.trans hsource'
          obtain rfl := Option.some.inj (hlookup.symm.trans hlookup')
          unfold Yields
          rw [huse.exportBinding_eq_some henv₀ henv himported hlinked]
      | linkerInstance hinst' hsource' _ =>
          obtain rfl := Option.some.inj (hinst.symm.trans hinst')
          cases hsource.symm.trans hsource'
  | aliased hexported _ henv₀ _ honly huse ih =>
      cases hcomes with
      | imported himported' _ _ _ =>
          cases hexported.symm.trans (ComponentProgram.exportedFrom_of_imported himported')
      | defined _ _ _ hnone _ => cases hexported.symm.trans hnone
      | aliased hexported' henv₀' hresolved' hcomes _ =>
          obtain ⟨rfl, rfl⟩ := Prod.mk.inj (Option.some.inj (hexported.symm.trans hexported'))
          obtain rfl := Option.some.inj (henv₀.symm.trans henv₀')
          obtain rfl := honly _ hresolved'
          exact ih henv himported hsearch hcomes

theorem Yields.mono (hgrows : s.Grows t) (h : Yields l s env ref through found value) :
    Yields l t env ref through found value := by
  unfold Yields at h ⊢
  split at h
  · exact h
  · exact h.mono hgrows

theorem Yields.hasSort (hsort : found.hasSort ref) (h : Yields l s env ref through found value) :
    value.hasSort ref := by
  unfold Yields at h
  split at h
  · rename_i binding hbinding
    subst h
    unfold ComponentLinker.exportBinding at hbinding
    split at hbinding
    · rfl
    · cases hbinding
  · cases found with
    | argument c arg =>
        rw [show value = arg from h]
        exact hsort
    | linked c entry =>
        cases entry with
        | func binding =>
            rw [show value = .func (.linked binding) from h]
            cases ref with
            | coreModule idx => cases hsort
            | item space idx =>
                cases space with
                | func => rfl
                | _ => cases hsort
        | inst exports =>
            obtain ⟨i, inst, rfl, -, -⟩ := h
            cases ref with
            | coreModule idx => cases hsort
            | item space idx =>
                cases space with
                | «instance» => rfl
                | _ => cases hsort

theorem RuntimeValue.hasSort_of_sameSort {ref' : SortRef} (hsort : value.hasSort ref')
    (hsame : ref.sameSort ref') : value.hasSort ref := by
  cases ref with
  | coreModule idx =>
      cases ref' with
      | coreModule idx' => cases value <;> first | rfl | cases hsort
      | item space idx' => cases hsame
  | item space idx =>
      cases ref' with
      | coreModule idx' => cases hsame
      | item space' idx' =>
          obtain rfl := of_decide_eq_true hsame
          cases space <;> cases value <;> first | rfl | cases hsort

theorem cached_run {entries : RuntimeCaches B → List (Nat × α)}
    {setEntries : RuntimeCaches B → List (Nat × α) → RuntimeCaches B} {idx : Nat}
    {resolve : Resolve B α} {P : Runtime B → α → Prop} (henv : s.envs[e]? = some env)
    (hmono : ∀ {t : Runtime B} {a : α} (f : RuntimeCaches B → RuntimeCaches B), P t a →
      P (t.modifyCaches e f) a)
    (hhit : ∀ a, (entries env.caches).lookup idx = some a → P s a)
    (hmiss : ∃ a t, resolve s = (.ok a, t) ∧ P t a) :
    ∃ a t, cached entries setEntries e idx resolve s = (.ok a, t) ∧ P t a := by
  cases hcache : (entries env.caches).lookup idx with
  | some a => exact ⟨a, s, cached_hit henv hcache, hhit a hcache⟩
  | none =>
      obtain ⟨a, t, hresolve, ha⟩ := hmiss
      exact ⟨a, _, cached_miss henv hcache hresolve, hmono _ ha⟩

/-- What an alias takes from the instance that its instance definition was resolved to. -/
theorem export_run {r : Resolver B} {inst i : Nat} {exportName : String} {wrap : α → RuntimeValue B}
    {f : RuntimeValue B → Resolve B α} {P : Runtime B → RuntimeValue B → Prop}
    (hinst : r.inst e inst s = (.ok i, s))
    (hf : ∀ value, value.hasSort ref → ∃ a, value = wrap a ∧ f value = pure a)
    (hexport : ∃ value t, r.export_ i exportName s = (.ok value, t) ∧ value.hasSort ref ∧
      P t value) :
    ∃ a t, (do f (← r.export_ (← r.inst e inst) exportName) : Resolve B α) s = (.ok a, t) ∧
      P t (wrap a) := by
  obtain ⟨value, t, hrun, hsort, hp⟩ := hexport
  obtain ⟨a, rfl, ha⟩ := hf value hsort
  refine ⟨a, t, ?_, hp⟩
  rw [Lib.Attempt.bind_ok hinst, Lib.Attempt.bind_ok hrun, ha]
  rfl

theorem sort_alias {r : Resolver B} {inst i : Nat} {exportName : String}
    {P : Runtime B → RuntimeValue B → Prop} (henv : s.envs[e]? = some env)
    (hexported : p.exportedFrom ref = some (inst, exportName))
    (hinst : r.inst e inst s = (.ok i, s))
    (hmono : ∀ {t : Runtime B} {value : RuntimeValue B} (f : RuntimeCaches B → RuntimeCaches B),
      P t value → P (t.modifyCaches e f) value)
    (hhit : ∀ value, env.caches.value ref = some value → P s value)
    (hexport : ∃ value t, r.export_ i exportName s = (.ok value, t) ∧ value.hasSort ref ∧
      P t value) : ∃ value t, (r.next l p core).sort e ref s = (.ok value, t) ∧ P t value := by
  cases ref with
  | item space idx =>
      have hrelation := ComponentProgram.relation_of_exportedFrom hexported
      cases space with
      | component =>
          suffices h : ∃ definition t, resolveComponent p r e idx s = (.ok definition, t) ∧
              P t (.component definition) by
            obtain ⟨definition, t, hresolve, hp⟩ := h
            exact ⟨.component definition, t, Lib.Attempt.bind_ok hresolve, hp⟩
          refine cached_run (P := fun t definition => P t (.component definition)) henv hmono ?_ ?_
          · exact fun a h => hhit _ (Option.map_eq_some_iff.mpr ⟨a, h, rfl⟩)
          · rw [hrelation]
            refine export_run hinst (fun value hsort => ?_) hexport
            cases value with
            | component definition => exact ⟨definition, rfl, rfl⟩
            | _ => cases hsort
      | «instance» =>
          suffices h : ∃ j t, resolveInstance l p r e idx s = (.ok j, t) ∧ P t (.instance j) by
            obtain ⟨j, t, hresolve, hp⟩ := h
            exact ⟨.instance j, t, Lib.Attempt.bind_ok hresolve, hp⟩
          refine cached_run (P := fun t j => P t (.instance j)) henv hmono ?_ ?_
          · exact fun a h => hhit _ (Option.map_eq_some_iff.mpr ⟨a, h, rfl⟩)
          · rw [hrelation]
            refine export_run hinst (fun value hsort => ?_) hexport
            cases value with
            | «instance» j => exact ⟨j, rfl, rfl⟩
            | _ => cases hsort
      | func =>
          suffices h : ∃ callable t, resolveFunc l p r e idx s = (.ok callable, t) ∧
              P t (.func callable) by
            obtain ⟨callable, t, hresolve, hp⟩ := h
            exact ⟨.func callable, t, Lib.Attempt.bind_ok hresolve, hp⟩
          refine cached_run (P := fun t callable => P t (.func callable)) henv hmono ?_ ?_
          · exact fun a h => hhit _ (Option.map_eq_some_iff.mpr ⟨a, h, rfl⟩)
          · rw [hrelation]
            refine export_run hinst (fun value hsort => ?_) hexport
            cases value with
            | func callable => exact ⟨callable, rfl, rfl⟩
            | _ => cases hsort
  | coreModule idx =>
      have hrelation := ComponentProgram.coreRelation_of_exportedFrom hexported
      suffices h : ∃ module t, resolveCoreModule p r e idx s = (.ok module, t) ∧
          P t (.coreModule module) by
        obtain ⟨module, t, hresolve, hp⟩ := h
        exact ⟨.coreModule module, t, Lib.Attempt.bind_ok hresolve, hp⟩
      refine cached_run (P := fun t module => P t (.coreModule module)) henv hmono ?_ ?_
      · exact fun a h => hhit _ (Option.map_eq_some_iff.mpr ⟨a, h, rfl⟩)
      · rw [hrelation]
        refine export_run hinst (fun value hsort => ?_) hexport
        cases value with
        | coreModule module => exact ⟨module, rfl, rfl⟩
        | _ => cases hsort

/-- An export is taken from the cache of the instance, from the linker, or resolved. -/
theorem resolveExport_run {r : Resolver B} {i : Nat} {inst : RuntimeComponentInstance B}
    {exports : List (String × SortRef)} {exportName : String}
    {P : Runtime B → RuntimeValue B → Prop} (hinst : s.instances[i]? = some inst)
    (hsource : inst.source = .component exports) (hlookup : exports.lookup exportName = some ref)
    (henv : s.envs[inst.env]? = some env)
    (hmono : ∀ {t : Runtime B} {value : RuntimeValue B}, P t value →
      P { t with instances := t.instances.modify i fun found =>
        { found with exports := (exportName, value) :: found.exports } } value)
    (hhit : ∀ value, inst.exports.lookup exportName = some value → P s value)
    (hlinked : ∀ binding, linkedSort p l env ref exportName = some binding →
      P s (.func (.linked binding)))
    (hsort : linkedSort p l env ref exportName = none →
      ∃ value t, r.sort inst.env ref s = (.ok value, t) ∧ P t value) :
    ∃ value t, resolveExport l p r i exportName s = (.ok value, t) ∧ P t value := by
  have hget : ∀ {γ : Type} (f : Runtime B → Resolve B γ), (get >>= f) s = f s s := fun _ => rfl
  unfold resolveExport
  rw [hget, hinst]
  dsimp only
  cases hcache : inst.exports.lookup exportName with
  | some value => exact ⟨value, s, rfl, hhit value hcache⟩
  | none =>
      suffices h : ∃ value t, findExport l p r inst exportName s = (.ok value, t) ∧ P t value by
        obtain ⟨value, t, hfind, hp⟩ := h
        exact ⟨value, _, Lib.Attempt.bind_ok hfind, hmono hp⟩
      unfold findExport
      rw [hsource]
      dsimp only
      rw [hlookup]
      cases ref with
      | coreModule idx => exact hsort rfl
      | item space idx =>
          cases space with
          | component => exact hsort rfl
          | «instance» => exact hsort rfl
          | func =>
              dsimp only
              rw [Lib.Attempt.bind_ok (environment_eq henv)]
              cases hbinding : linkedExport l p env idx exportName with
              | some binding => exact ⟨_, s, rfl, hlinked binding hbinding⟩
              | none => exact hsort hbinding

theorem inst_hit {inst i : Nat} (henv : s.envs[e]? = some env)
    (hresolved : env.caches.instances.lookup inst = some i) (depth : Nat) :
    (resolver l p core (depth + 1)).inst e inst s = (.ok i, s) := by
  change resolveInstance l p (resolver l p core depth) e inst s = (.ok i, s)
  exact cached_hit henv hresolved

theorem UseOf.run (huse : UseOf p s use through levels e ref) (hfound : ImportsFound p l s)
    (henv : s.envs[e]? = some env) (himported : p.imported ref = some (owner, name))
    (hsearch : searchImport (l.entry name ref) name (s.chain e) = some found)
    (hsort : found.hasSort ref) (depth : Nat) :
    ∃ value t, (resolver l p core (depth + levels)).use use s = (.ok value, t) ∧
      Yields l t env ref through found value := by
  induction huse with
  | definition e ref =>
      obtain ⟨value, t, hresolve, hd⟩ := sort_delivers hfound henv himported hsearch hsort depth
      refine ⟨value, t, hresolve, ?_⟩
      unfold Yields
      rw [exportBinding_none]
      exact hd
  | exported hinst hsource hlookup huse ih =>
      obtain ⟨env₀, henv₀⟩ := huse.exists_env henv
      have hwhole := UseOf.exported hinst hsource hlookup huse
      refine resolveExport_run hinst hsource hlookup henv₀ ?_ ?_ ?_ ?_
      · exact fun h => h.mono (.cacheExport ..)
      · intro value hvalue
        exact hwhole.yields henv himported hsearch (hfound.exports _ _ hinst _ value hvalue)
      · intro binding hlinked
        exact hwhole.yields henv himported hsearch
          (.linkedExport hinst hsource hlookup henv₀ hlinked)
      · intro hlinked
        obtain ⟨value, t, hrun, hyields⟩ := ih henv himported hsearch hsort
        refine ⟨value, t, hrun, ?_⟩
        unfold Yields at hyields ⊢
        rw [huse.exportBinding_eq henv₀ henv himported hlinked]
        exact hyields
  | aliased hexported hsame henv₀ hresolved honly huse ih =>
      obtain ⟨value, t, hrun, hyields⟩ := ih henv himported hsearch hsort
      have hwhole := UseOf.aliased hexported hsame henv₀ hresolved honly huse
      cases huse with
      | exported =>
          refine sort_alias henv₀ hexported (inst_hit henv₀ hresolved _) ?_ ?_
            ⟨value, t, hrun, ?_, hyields⟩
          · exact fun f h => h.mono (.modifyCaches ..)
          · intro value hvalue
            exact hwhole.yields henv himported hsearch (hfound.caches _ _ henv₀ _ value hvalue)
          · exact RuntimeValue.hasSort_of_sameSort (hyields.hasSort hsort) hsame

theorem UseOf.sameSort {e₀ : EnvId} {ref₀ : SortRef}
    (huse : UseOf p s (.definition e₀ ref₀) through levels e ref) : ref.sameSort ref₀ := by
  cases huse with
  | definition =>
      cases ref with
      | item space idx => exact decide_eq_true rfl
      | coreModule idx => rfl
  | aliased _ hsame _ _ _ _ =>
      cases ref₀ with
      | item space idx =>
          cases ref with
          | item space' idx' => exact decide_eq_true (of_decide_eq_true hsame).symm
          | coreModule idx' => cases hsame
      | coreModule idx =>
          cases ref with
          | item space' idx' => cases hsame
          | coreModule idx' => rfl

theorem UseOf.run_hasSort (huse : UseOf p s use through levels e ref) (hfound : ImportsFound p l s)
    {depth : Nat} (hrun : (resolver l p core depth).use use s = (.ok value, t)) :
    value.hasSort ref := by
  cases use with
  | definition e₀ ref₀ => exact RuntimeValue.hasSort_of_sameSort (sort_hasSort hrun) huse.sameSort
  | exported i exportName =>
      have hleads := (keptResolver p l core depth).export_ i exportName s hfound
      have hgrows := hleads.grows.grows
      have hcomes := hleads.post value (congrArg Prod.fst hrun)
      cases huse with
      | exported hinst hsource hlookup huse =>
          obtain ⟨inst', hinst', hsource', -⟩ := hgrows.instances _ _ hinst
          have hsource' := hsource'.trans hsource
          cases hcomes with
          | exported hinst'' hsource'' hlookup'' _ _ h =>
              obtain rfl := Option.some.inj (hinst'.symm.trans hinst'')
              cases hsource'.symm.trans hsource''
              obtain rfl := Option.some.inj (hlookup.symm.trans hlookup'')
              exact RuntimeValue.hasSort_of_sameSort h.hasSort huse.sameSort
          | linkedExport hinst'' hsource'' hlookup'' _ hlinked =>
              obtain rfl := Option.some.inj (hinst'.symm.trans hinst'')
              cases hsource'.symm.trans hsource''
              obtain rfl := Option.some.inj (hlookup.symm.trans hlookup'')
              refine RuntimeValue.hasSort_of_sameSort ?_ huse.sameSort
              unfold linkedSort at hlinked
              split at hlinked
              · rfl
              · cases hlinked
          | linkerInstance hinst'' hsource'' _ =>
              obtain rfl := Option.some.inj (hinst'.symm.trans hinst'')
              cases hsource'.symm.trans hsource''

theorem delivers_iff_of_exportBinding (hfound : ImportsFound p l s) (henv : s.envs[e]? = some env)
    {binding : B} (hbinding : l.exportBinding env ref through = some binding)
    (hsearch : searchImport (l.entry name ref) name (s.chain e) = some found) :
    Delivers t found (.func (.linked binding)) ↔ l.imports.lookup name = some binding := by
  unfold ComponentLinker.exportBinding at hbinding
  split at hbinding
  · rename_i idx exportName
    split at hbinding
    · rename_i hparents
      cases found with
      | argument c value =>
          obtain ⟨inner, frame, outer, hchain, -, -, hlookup, -⟩ :=
            searchImport_eq_argument.mp hsearch
          rw [chain_of_get henv, hparents, hfound.root e env henv hparents] at hchain
          cases inner with
          | nil =>
              obtain ⟨rfl, -⟩ := List.cons.inj hchain
              cases hlookup
          | cons first inner =>
              cases inner <;> cases (List.cons.inj hchain).2
      | linked c entry =>
          obtain ⟨hentry, -⟩ := searchImport_eq_linked.mp hsearch
          obtain ⟨binding', hlookup, rfl⟩ := Option.map_eq_some_iff.mp hentry
          rw [hlookup]
          constructor
          · intro h
            have heq : (.func (.linked binding) : RuntimeValue B) = .func (.linked binding') := h
            cases heq
            rfl
          · intro h
            obtain rfl := Option.some.inj h
            rfl
    · cases hbinding
  · cases hbinding

end uses

/-! ## The scopes of imports -/

/-- The use is resolved to an argument that lexical scoping gives its import. -/
def ResolvesLexically (p : ComponentProgram C) (l : ComponentLinker B) (core : CoreRuntime B)
    (s : Runtime B) (depth : Nat) (use : Use) (e : EnvId) (ref : SortRef) (owner : ComponentPath)
    (name : String) : Prop :=
  ∃ found value t, searchImport (l.entry name ref) name (s.chain e) = some found ∧
    Lexical s e owner found ∧ (resolver l p core depth).use use s = (.ok value, t) ∧
    Delivers t found value

section lexical

variable {l : ComponentLinker B} {s : Runtime B} {e : EnvId} {ref : SortRef}
  {owner : ComponentPath} {name : String}

theorem unshadowed_of_argument {c : EnvId} {value : RuntimeValue B}
    (hsearch : searchImport (l.entry name ref) name (s.chain e) = some (.argument c value))
    (hlexical : Lexical s e owner (.argument c value)) (hsort : value.hasSort ref) :
    Unshadowed l s e ref owner name := by
  obtain ⟨howner, nearest, hnearest, henv⟩ := hlexical
  obtain ⟨inner, frame, outer, hchain, hinner, hframe, hvalue, hlinked⟩ :=
    searchImport_eq_argument.mp hsearch
  have hmem : frame ∈ s.chain e := by
    rw [hchain]
    exact List.mem_append_right _ (List.mem_cons_self ..)
  -- both are the arguments of one environment
  have heq : nearest = frame := by
    have h₁ := frame_of_mem_chain (List.mem_of_find?_eq_some hnearest)
    have h₂ := frame_of_mem_chain hmem
    rw [henv] at h₁
    rw [hframe] at h₂
    exact Option.some.inj (h₁.symm.trans h₂)
  subst heq
  unfold Unshadowed
  rw [if_neg howner]
  refine ⟨inner, nearest, outer, value, hchain, fun between hbetween => ⟨?_, hinner _ hbetween⟩,
    ?_, hvalue, hsort, hlinked⟩
  · intro hpath
    rw [hchain, List.find?_append] at hnearest
    cases hfind : inner.find? (·.path == owner) with
    | none => exact List.find?_eq_none.mp hfind between hbetween (beq_iff_eq.mpr hpath)
    | some first =>
        rw [hfind, Option.some_or] at hnearest
        obtain rfl := Option.some.inj hnearest
        have hnone := hinner first (List.mem_of_find?_eq_some hfind)
        cases hvalue.symm.trans hnone
  · exact beq_iff_eq.mp (List.find?_some (p := fun f : ImportFrame B => f.path == owner) hnearest)

theorem unshadowed_of_linked {c : EnvId} {entry : LinkerEntry B}
    (hsearch : searchImport (l.entry name ref) name (s.chain e) = some (.linked c entry))
    (hlexical : Lexical s e owner (.linked c entry)) : Unshadowed l s e ref owner name := by
  obtain ⟨hentry, frame, outer, hchain, -, hnone⟩ := searchImport_eq_linked.mp hsearch
  have howner : owner = .root := hlexical
  unfold Unshadowed
  rw [if_pos howner]
  exact ⟨Option.isSome_iff_exists.mpr ⟨entry, hentry⟩, frame, outer, hchain, hnone⟩

theorem entry_hasSort {entry : LinkerEntry B} (h : l.entry name ref = some entry) (c : EnvId) :
    (Found.linked c entry).hasSort ref := by
  unfold ComponentLinker.entry at h
  split at h
  · obtain ⟨_, -, rfl⟩ := Option.map_eq_some_iff.mp h
    rfl
  · obtain ⟨_, -, rfl⟩ := Option.map_eq_some_iff.mp h
    rfl
  · cases h
  · cases h

/-- Where nothing is in the way, the search comes to the right argument. -/
theorem search_of_unshadowed (h : Unshadowed l s e ref owner name) :
    ∃ found, searchImport (l.entry name ref) name (s.chain e) = some found ∧
      Lexical s e owner found ∧ found.hasSort ref := by
  unfold Unshadowed at h
  split at h
  · rename_i howner
    obtain ⟨hentry, frame, outer, hchain, hnone⟩ := h
    obtain ⟨entry, hentry⟩ := Option.isSome_iff_exists.mp hentry
    refine ⟨.linked frame.env entry, ?_, howner, entry_hasSort hentry frame.env⟩
    exact searchImport_eq_linked.mpr ⟨hentry, frame, outer, hchain, rfl, hnone⟩
  · rename_i howner
    obtain ⟨inner, frame, outer, value, hchain, hinner, hpath, hvalue, hsort, hlinked⟩ := h
    refine ⟨.argument frame.env value, ?_, ⟨howner, frame, ?_, rfl⟩, hsort⟩
    · exact searchImport_eq_argument.mpr
        ⟨inner, frame, outer, hchain, fun f hmem => (hinner f hmem).2, rfl, hvalue, hlinked⟩
    · have hfind : inner.find? (·.path == owner) = none :=
        List.find?_eq_none.mpr fun f hmem h => (hinner f hmem).1 (beq_iff_eq.mp h)
      rw [hchain, List.find?_append, hfind, Option.none_or, List.find?_cons, hpath, beq_self_eq_true]

end lexical

/-- A function import of the root that the root exports has no other entry of the linker under the
name of the export. -/
def SameBinding (l : ComponentLinker B) (env : RuntimeEnv B) (ref : SortRef)
    (through : Option String) (name : String) : Prop :=
  ∀ binding, l.exportBinding env ref through = some binding → l.imports.lookup name = some binding

/-- In every state of every run, an import is resolved to the argument of the instance of its own
component that is around the use, in whatever environment and through whatever exports it is used,
exactly when no argument and no entry of the linker is in the way. -/
theorem import_lexical_iff (p : ComponentProgram C) (l : ComponentLinker B) (core : CoreRuntime B)
    (s : Runtime B) (hs : Reached p l core s) (use : Use) (through : Option String)
    (levels depth : Nat) (e : EnvId) (env : RuntimeEnv B) (henv : s.envs[e]? = some env)
    (ref : SortRef) (owner : ComponentPath) (name : String)
    (huse : UseOf p s use through levels e ref) (himported : p.imported ref = some (owner, name)) :
    ResolvesLexically p l core s (depth + levels) use e ref owner name ↔
      Unshadowed l s e ref owner name ∧ SameBinding l env ref through name := by
  have hfound := hs.importsFound
  constructor
  · rintro ⟨found, value, t, hsearch, hlexical, hresolve, hdelivers⟩
    have hvalue := huse.run_hasSort hfound hresolve
    have hunshadowed : Unshadowed l s e ref owner name ∧ found.hasSort ref := by
      cases found with
      | argument c arg =>
          have heq : value = arg := hdelivers
          rw [heq] at hvalue
          exact ⟨unshadowed_of_argument hsearch hlexical hvalue, hvalue⟩
      | linked c entry =>
          have hentry := (searchImport_eq_linked.mp hsearch).1
          exact ⟨unshadowed_of_linked hsearch hlexical, entry_hasSort hentry c⟩
    obtain ⟨hunshadowed, hsort⟩ := hunshadowed
    refine ⟨hunshadowed, fun binding hbinding => ?_⟩
    obtain ⟨value', t', hrun, hyields⟩ : ∃ value' t',
        (resolver l p core (depth + levels)).use use s = (.ok value', t') ∧
          Yields l t' env ref through found value' :=
      huse.run hfound henv himported hsearch hsort depth
    obtain ⟨heq, rfl⟩ := Prod.mk.inj (hresolve.symm.trans hrun)
    obtain rfl := Except.ok.inj heq
    unfold Yields at hyields
    rw [hbinding] at hyields
    rw [hyields] at hdelivers
    exact (delivers_iff_of_exportBinding hfound henv hbinding hsearch).mp hdelivers
  · rintro ⟨hunshadowed, hsame⟩
    obtain ⟨found, hsearch, hlexical, hsort⟩ := search_of_unshadowed hunshadowed
    obtain ⟨value, t, hrun, hyields⟩ := huse.run hfound henv himported hsearch hsort depth
    refine ⟨found, value, t, hsearch, hlexical, hrun, ?_⟩
    unfold Yields at hyields
    split at hyields
    · rename_i binding hbinding
      rw [hyields]
      exact (delivers_iff_of_exportBinding hfound henv hbinding hsearch).mpr (hsame binding hbinding)
    · exact hyields

/-- A component with an import `f` has a component inside that exports this import; the root gives
its own import `h` for it. -/
private def innerUse : ComponentProgram Unit where
  types := []
  store
    | .component =>
        [⟨[1, 0], .defined (.component [2, 1, 0] [("g", .item .func 1)])⟩,
          ⟨[0], .defined (.component [1, 0] [("g", .item .func 2)])⟩]
    | .instance =>
        [⟨[1, 0], .defined (.instance 0 [])⟩,
          ⟨[0], .defined (.instance 1 [("f", .item .func 0)])⟩]
    | .func =>
        [⟨[0], .imported "h"⟩, ⟨[1, 0], .imported "f"⟩, ⟨[1, 0], .fromExport 0 "g"⟩,
          ⟨[0], .fromExport 1 "g"⟩]
  coreStore _ := []
  root := [("g", .item .func 3)]
  callableExports := ["g"]

private def alwaysCreates : CoreRuntime Nat := fun _ _ => true

private def rootImport : ComponentLinker Nat := ⟨[("h", 2)], [], []⟩

private def alsoInnerName : ComponentLinker Nat := ⟨[("f", 1), ("h", 2)], [], []⟩

private def afterInstantiation (l : ComponentLinker Nat) : Runtime Nat :=
  (instantiateSync l innerUse alwaysCreates 9 (.initial innerUse)).2

/-- The export `g` of the root is the one of the inner component, which is the import. -/
private theorem innerUse_export (l : ComponentLinker Nat)
    (hl : l = rootImport ∨ l = alsoInnerName) :
    UseOf innerUse (afterInstantiation l) (.exported 0 "g") (some "g") 6 4 (.item .func 1) := by
  have honly : ∀ idx i j, (idx, j) ∈ [((idx, i) : Nat × Nat)] → j = i := by
    intro idx i j hmem
    cases List.mem_singleton.mp hmem
    rfl
  change UseOf innerUse _ _ (((Option.none.or (some "g")).or (some "g")).or (some "g")) 6 4 _
  rcases hl with rfl | rfl
  all_goals
    refine .exported rfl rfl rfl ?_
    refine .aliased rfl rfl rfl rfl (honly 1 1) ?_
    refine .exported rfl rfl rfl ?_
    refine .aliased rfl rfl rfl rfl (honly 0 2) ?_
    exact .exported rfl rfl rfl (.definition ..)

theorem import_lexical_inner :
    ResolvesLexically innerUse rootImport alwaysCreates (afterInstantiation rootImport) (9 + 6)
      (.exported 0 "g") 4 (.item .func 1) [1, 0] "f" := by
  obtain ⟨env, henv⟩ := Option.isSome_iff_exists.mp
    (by decide : (afterInstantiation rootImport).envs[4]?.isSome)
  have hparents : some env.parents = some [3, 1] :=
    (congrArg (Option.map RuntimeEnv.parents) henv).symm
  refine (import_lexical_iff innerUse rootImport alwaysCreates _ (.instantiate 9) (.exported 0 "g")
    (some "g") 6 9 4 env henv (.item .func 1) [1, 0] "f" (innerUse_export rootImport (.inl rfl))
    rfl).mpr ⟨?_, ?_⟩
  · unfold Unshadowed
    rw [if_neg (by decide)]
    refine ⟨[⟨4, [2, 1, 0], []⟩], ⟨3, [1, 0], [("f", .func (.linked 2))]⟩, [⟨1, [0], []⟩],
      .func (.linked 2), rfl, ?_, rfl, rfl, rfl, .inr rfl⟩
    intro between hmem
    obtain rfl := List.mem_singleton.mp hmem
    exact ⟨by decide, rfl⟩
  · intro binding hbinding
    unfold ComponentLinker.exportBinding at hbinding
    dsimp only at hbinding
    rw [Option.some.inj hparents] at hbinding
    cases hbinding

/-- With an entry `f` of the linker the inner component gets that one. -/
theorem inner_use_finds_linker :
    (instantiateSync alsoInnerName innerUse alwaysCreates 9 (.initial innerUse)).1 = .ok () ∧
      innerUse.imported (.item .func 1) = some ([1, 0], "f") ∧
      UseOf innerUse (afterInstantiation alsoInnerName) (.exported 0 "g") (some "g") 6 4
        (.item .func 1) ∧
      ¬ResolvesLexically innerUse alsoInnerName alwaysCreates (afterInstantiation alsoInnerName)
        (9 + 6) (.exported 0 "g") 4 (.item .func 1) [1, 0] "f" := by
  refine ⟨rfl, rfl, innerUse_export alsoInnerName (.inr rfl), ?_⟩
  rintro ⟨found, value, t, hsearch, hlexical, -⟩
  have hlinked : searchImport (alsoInnerName.entry "f" (.item .func 1)) "f"
      ((afterInstantiation alsoInnerName).chain 4) = some (.linked 4 (.func 1)) := rfl
  obtain rfl := Option.some.inj (hlinked.symm.trans hsearch)
  have hroot : ([1, 0] : ComponentPath) = ComponentPath.root := hlexical
  exact absurd hroot (by decide)

end Telomere.Component
