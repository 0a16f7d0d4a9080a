import Telomere.Component.ImportScopes
import Telomere.Component.References

/-!
# How often core instances are created

When a program is instantiated, all its core instances are created in the environment of the root,
and again in every environment that needs one and does not have it in its own cache. Each is created
once, in the instance it belongs to, when only the root defines core instances and nothing that is
exported by a component inside of it, of those that can be asked, needs one.
-/

namespace Telomere.Component

variable {B C α β : Type}

open Lib (Leads)
open Lib.Attempt (fail get modify each)

namespace ComponentProgram

variable (p : ComponentProgram C)

def Coreless (ref : Ref) : Prop := ∀ idx, ¬p.Needs ref (.core .instance idx)

/-- What instances of the program can come to resolve: all core instances are created with the
root, what the root exports can be asked for, and so can what a component exports that was
resolved itself. -/
inductive Reached : Ref → Prop where
  | core {idx : Nat} : Reached (.core .instance idx)
  | root {export_ : String × SortRef} (hmem : export_ ∈ p.root) : Reached export_.2.ref
  | used {ref used : Ref} (h : Reached ref) (hused : used ∈ p.refs ref) : Reached used
  | exports {idx : Nat} {path : ComponentPath} {exports : List (String × SortRef)}
      {export_ : String × SortRef} (h : Reached (.item .component idx))
      (hrelation : p.relation .component idx = some (.defined (.component path exports)))
      (hmem : export_ ∈ exports) : Reached export_.2.ref

/-- Core instances are defined by the root, and resolving what another component that is reached
exports in an instance of it needs none. The components behind inline exports are other
components. -/
structure CoresInRoot : Prop where
  owners : ∀ placed ∈ p.coreStore .instance, placed.owner = .root
  exports : ∀ {idx path exports}, p.Reached (.item .component idx) →
    p.relation .component idx = some (.defined (.component path exports)) →
      ∀ export_ ∈ exports, p.Coreless export_.2.ref

def Allowed (e : EnvId) (ref : Ref) : Prop := p.Reached ref ∧ (e = 0 ∨ p.Coreless ref)

def Needed (ref : Ref) (created : Nat × EnvId) : Prop := p.Needs ref (.core .instance created.1)

variable {p}

theorem Needs.head {ref used other : Ref} (hused : used ∈ p.refs ref) (h : p.Needs used other) :
    p.Needs ref other :=
  Relation.ReflTransGen.head hused h

theorem Coreless.used {ref used : Ref} (h : p.Coreless ref) (hused : used ∈ p.refs ref) :
    p.Coreless used :=
  fun idx hneeds => h idx (.head hused hneeds)

theorem Allowed.used {e : EnvId} {ref used : Ref} (h : p.Allowed e ref)
    (hused : used ∈ p.refs ref) : p.Allowed e used :=
  ⟨.used h.1 hused, h.2.imp_right fun hcoreless => hcoreless.used hused⟩

theorem Needed.head {ref used : Ref} (hused : used ∈ p.refs ref) {created : Nat × EnvId}
    (h : p.Needed used created) : p.Needed ref created :=
  Needs.head hused h

theorem refs_of_relation {space : Space} {idx : Nat} {relation : Relation}
    (h : p.relation space idx = some relation) : p.refs (.item space idx) = relation.refs := by
  change (p.relation space idx).elim [] (·.refs) = _
  rw [h]
  rfl

theorem refs_of_coreRelation {space : CoreSpace} {idx : Nat} {relation : CoreRelation}
    (h : p.coreRelation space idx = some relation) :
    p.refs (.core space idx) = relation.refs := by
  change (p.coreRelation space idx).elim [] (·.refs) = _
  rw [h]
  rfl

end ComponentProgram

section settled

variable (p : ComponentProgram C)

def RuntimeComponentDef.Inner (definition : RuntimeComponentDef) : Prop :=
  definition.path ≠ .root ∧
    ∀ export_ ∈ definition.exports, p.Reached export_.2.ref ∧ p.Coreless export_.2.ref

/-- Neither the instance of the root nor a component that needs core instances. -/
def RuntimeValue.Inner : RuntimeValue B → Prop
  | .component definition => definition.Inner p
  | .instance inst => inst ≠ 0
  | .func _ | .coreModule _ => True

structure RuntimeCaches.Inner (caches : RuntimeCaches B) : Prop where
  components : ∀ entry ∈ caches.components, entry.2.Inner p
  instances : ∀ entry ∈ caches.instances, entry.2 ≠ 0

structure RuntimeEnv.Inner (env : RuntimeEnv B) : Prop where
  imports : ∀ arg ∈ env.imports, arg.2.Inner p
  caches : env.caches.Inner p

/-- The first instance is that of the root, and only that one has its environment. -/
structure InstanceSettled (s : Runtime B) (i : Nat) (inst : RuntimeComponentInstance B) : Prop where
  exports : ∀ export_ ∈ inst.exports, export_.2.Inner p
  root : i = 0 → inst.env = 0 ∧ inst.source = .component p.root
  nested : i ≠ 0 → inst.env ≠ 0 ∧ ∀ exports, inst.source = .component exports →
    (∀ export_ ∈ exports, p.Reached export_.2.ref ∧ p.Coreless export_.2.ref) ∧
      ∃ env : RuntimeEnv B, s.envs[inst.env]? = some env ∧ env.path ≠ .root

/-- Core instances were created in the environment of the root, each that is in its cache once. -/
structure Settled (s : Runtime B) : Prop where
  root : ∃ env : RuntimeEnv B, s.envs[0]? = some env ∧ env.path = .root
  rootInstance : 0 < s.instances.length
  envs : ∀ env ∈ s.envs, env.Inner p
  instances : ∀ (i : Nat) (inst : RuntimeComponentInstance B), s.instances[i]? = some inst →
    InstanceSettled p s i inst
  created : ∀ created ∈ s.coreInstances, created.2 = 0 ∧ p.Stored (.core .instance created.1)
  once : ∀ env : RuntimeEnv B, s.envs[0]? = some env → ∀ idx,
    s.coreInstances.count (idx, 0) = if (env.caches.coreInstances.lookup idx).isSome then 1 else 0

/-- The runtime grows, and core instances that are created are of that kind. -/
def Runtime.Adds (A : Nat × EnvId → Prop) (s t : Runtime B) : Prop :=
  s.Grows t ∧ ∃ new, t.coreInstances = s.coreInstances ++ new ∧ ∀ created ∈ new, A created

end settled

namespace Runtime.Adds

variable {A : Nat × EnvId → Prop}

theorem of_grows {s t : Runtime B} (hgrows : s.Grows t) (hsame : t.coreInstances = s.coreInstances) :
    Runtime.Adds A s t :=
  ⟨hgrows, [], hsame.trans (List.append_nil _).symm, fun _ h => by cases h⟩

theorem refl (s : Runtime B) : Runtime.Adds A s s := of_grows (.refl s) rfl

theorem trans (s t u : Runtime B) (hst : Runtime.Adds A s t) (htu : Runtime.Adds A t u) :
    Runtime.Adds A s u := by
  obtain ⟨hgrows, new, hnew, hall⟩ := hst
  obtain ⟨hgrows', new', hnew', hall'⟩ := htu
  refine ⟨hgrows.trans s t u hgrows', new ++ new', ?_, ?_⟩
  · rw [hnew', hnew, List.append_assoc]
  · exact List.forall_mem_append.mpr ⟨hall, hall'⟩

theorem mono {A' : Nat × EnvId → Prop} {s t : Runtime B} (h : Runtime.Adds A s t)
    (himp : ∀ created, A created → A' created) : Runtime.Adds A' s t := by
  obtain ⟨hgrows, new, hnew, hall⟩ := h
  exact ⟨hgrows, new, hnew, fun created hmem => himp created (hall created hmem)⟩

theorem mem {s t : Runtime B} (h : Runtime.Adds A s t) {created : Nat × EnvId}
    (hmem : created ∈ s.coreInstances) : created ∈ t.coreInstances :=
  h.1.coreInstances.subset hmem

end Runtime.Adds

section changes

variable {p : ComponentProgram C} {s : Runtime B}

theorem InstanceSettled.mono {t : Runtime B} (hgrows : s.Grows t) {i : Nat}
    {inst : RuntimeComponentInstance B} (h : InstanceSettled p s i inst) :
    InstanceSettled p t i inst := by
  refine ⟨h.exports, h.root, fun hi => ⟨(h.nested hi).1, fun exports hsource => ?_⟩⟩
  obtain ⟨hcoreless, env, henv, hpath⟩ := (h.nested hi).2 exports hsource
  obtain ⟨env', henv', hpath', -⟩ := hgrows.envs _ env henv
  exact ⟨hcoreless, env', henv', hpath' ▸ hpath⟩

theorem Settled.addEnv (hs : Settled p s) {env : RuntimeEnv B} (henv : env.Inner p) :
    Settled p { s with envs := s.envs ++ [env] } := by
  obtain ⟨root, hroot, hpath⟩ := hs.root
  have hgrows := Runtime.Grows.addEnv s env
  refine ⟨⟨root, getElem?_append_some hroot _, hpath⟩, hs.rootInstance, ?_, ?_, hs.created, ?_⟩
  · exact List.forall_mem_append.mpr ⟨hs.envs, List.forall_mem_singleton.mpr henv⟩
  · exact fun i inst h => (hs.instances i inst h).mono hgrows
  · intro env' henv' idx
    obtain rfl := Option.some.inj ((getElem?_append_some hroot [env]).symm.trans henv')
    exact hs.once root hroot idx

theorem Settled.addInstance (hs : Settled p s) {inst : RuntimeComponentInstance B}
    (hinst : InstanceSettled p s s.instances.length inst) :
    Settled p { s with instances := s.instances ++ [inst] } := by
  have hgrows := Runtime.Grows.addInstance s inst
  refine ⟨hs.root, ?_, hs.envs, ?_, hs.created, hs.once⟩
  · dsimp only
    rw [List.length_append]
    exact Nat.lt_of_lt_of_le hs.rootInstance (Nat.le_add_right _ _)
  · intro i inst' h
    dsimp only at h
    rcases Nat.lt_or_ge i s.instances.length with hlt | hge
    · rw [List.getElem?_append_left hlt] at h
      exact (hs.instances i inst' h).mono hgrows
    · rw [List.getElem?_append_right hge] at h
      have hmem := List.mem_singleton.mp (List.mem_of_getElem? h)
      have hi : i = s.instances.length := by
        have := (List.getElem?_eq_some_iff.mp h).1
        rw [List.length_singleton] at this
        omega
      rw [hmem, hi]
      exact hinst.mono hgrows

theorem Settled.cacheExport (hs : Settled p s) (i : Nat) (name : String) {value : RuntimeValue B}
    (hvalue : value.Inner p) :
    Settled p { s with instances := s.instances.modify i fun found =>
      { found with exports := (name, value) :: found.exports } } := by
  have hgrows := Runtime.Grows.cacheExport s i name value
  refine ⟨hs.root, ?_, hs.envs, ?_, hs.created, hs.once⟩
  · dsimp only
    rw [List.length_modify]
    exact hs.rootInstance
  · intro j inst h
    dsimp only at h
    rw [List.getElem?_modify] at h
    obtain ⟨old, hold, rfl⟩ := Option.map_eq_some_iff.mp h
    have hsettled := (hs.instances j old hold).mono hgrows
    by_cases heq : i = j
    · rw [if_pos heq]
      refine ⟨List.forall_mem_cons.mpr ⟨hvalue, hsettled.exports⟩, hsettled.root, hsettled.nested⟩
    · rw [if_neg heq]
      exact hsettled

theorem Settled.modifyCaches (hs : Settled p s) {e : EnvId} {f : RuntimeCaches B → RuntimeCaches B}
    (hinner : ∀ caches, caches.Inner p → (f caches).Inner p)
    (hcore : ∀ caches, (f caches).coreInstances = caches.coreInstances) :
    Settled p (s.modifyCaches e f) := by
  have hgrows := Runtime.Grows.modifyCaches s e f
  obtain ⟨root, hroot, hpath⟩ := hs.root
  have hroot' := getElem?_modify_some (j := e) hroot fun env => { env with caches := f env.caches }
  refine ⟨⟨_, hroot', ?_⟩, hs.rootInstance, ?_, ?_, hs.created, ?_⟩
  · split
    · exact hpath
    · exact hpath
  · intro env hmem
    obtain ⟨j, hj⟩ := List.mem_iff_getElem?.mp hmem
    unfold Runtime.modifyCaches at hj
    dsimp only at hj
    rw [List.getElem?_modify] at hj
    obtain ⟨old, hold, rfl⟩ := Option.map_eq_some_iff.mp hj
    have hinnerOld := hs.envs old (List.mem_of_getElem? hold)
    split
    · exact ⟨hinnerOld.imports, hinner _ hinnerOld.caches⟩
    · exact hinnerOld
  · exact fun i inst h => (hs.instances i inst h).mono hgrows
  · intro env henv idx
    obtain rfl := Option.some.inj (hroot'.symm.trans henv)
    split
    · dsimp only
      rw [hcore]
      exact hs.once root hroot idx
    · exact hs.once root hroot idx

theorem createdIn (s : Runtime B) (idx : Nat) (e : EnvId) :
    s.Grows { s with coreInstances := s.coreInstances ++ [(idx, e)] } :=
  ⟨(Runtime.Grows.refl s).envs, (Runtime.Grows.refl s).instances, List.prefix_append _ _,
    List.suffix_refl _⟩

theorem Settled.create (hs : Settled p s) {idx : Nat} (hstored : p.Stored (.core .instance idx))
    (hnew : (idx, 0) ∉ s.coreInstances) (place : Nat) :
    Settled p (Runtime.modifyCaches 0 (fun caches =>
      { caches with coreInstances := (idx, place) :: caches.coreInstances })
      { s with coreInstances := s.coreInstances ++ [(idx, 0)] }) := by
  have hgrows := (createdIn s idx 0).trans s _ _ (.modifyCaches _ 0 fun caches =>
    { caches with coreInstances := (idx, place) :: caches.coreInstances })
  obtain ⟨root, hroot, hpath⟩ := hs.root
  have hroot' := getElem?_modify_some (j := 0) hroot fun env : RuntimeEnv B =>
    { env with caches :=
        { env.caches with coreInstances := (idx, place) :: env.caches.coreInstances } }
  rw [if_pos rfl] at hroot'
  refine ⟨⟨_, hroot', hpath⟩, hs.rootInstance, ?_, ?_, ?_, ?_⟩
  · intro env hmem
    obtain ⟨j, hj⟩ := List.mem_iff_getElem?.mp hmem
    unfold Runtime.modifyCaches at hj
    dsimp only at hj
    rw [List.getElem?_modify] at hj
    obtain ⟨old, hold, rfl⟩ := Option.map_eq_some_iff.mp hj
    have hinner := hs.envs old (List.mem_of_getElem? hold)
    split
    · exact ⟨hinner.imports, hinner.caches.components, hinner.caches.instances⟩
    · exact hinner
  · exact fun i inst h => (hs.instances i inst h).mono hgrows
  · exact List.forall_mem_append.mpr
      ⟨hs.created, List.forall_mem_singleton.mpr ⟨rfl, hstored⟩⟩
  · intro env henv other
    obtain rfl := Option.some.inj (hroot'.symm.trans henv)
    change (s.coreInstances ++ [(idx, 0)]).count (other, 0) = _
    dsimp only
    have hcount : s.coreInstances.count (idx, 0) = 0 := List.count_eq_zero.mpr hnew
    rw [List.count_append, List.count_singleton, List.lookup_cons]
    by_cases heq : other = idx
    · subst heq
      rw [hcount, beq_self_eq_true, beq_self_eq_true]
      rfl
    · have hne : (other == idx) = false := beq_eq_false_iff_ne.mpr heq
      have hne' : ((idx, 0) == ((other, 0) : Nat × EnvId)) = false :=
        beq_eq_false_iff_ne.mpr fun h => heq (Prod.mk.inj h).1.symm
      rw [hne, hne', hs.once root hroot other]
      rfl

end changes

section settles

variable (p : ComponentProgram C)

/-- Only core instances of that kind are created, and `W` holds of what is found. -/
def Settles (A : Nat × EnvId → Prop) (x : Resolve B α) (W : α → Prop) : Prop :=
  ∀ s, Settled p s → Leads (Settled p) (Runtime.Adds A) s x fun a _ => W a

variable {p} {A : Nat × EnvId → Prop}

namespace Settles

theorem pure {a : α} {W : α → Prop} (ha : W a) : Settles p A (pure a : Resolve B α) W :=
  fun s hs => Leads.pure hs (.refl s) ha

theorem fail {e : LinkError} {W : α → Prop} : Settles p A (fail e : Resolve B α) W :=
  fun s hs => Leads.fail hs (.refl s)

theorem bind {x : Resolve B α} {f : α → Resolve B β} {V : α → Prop} {W : β → Prop}
    (hx : Settles p A x V) (hf : ∀ a, V a → Settles p A (f a) W) : Settles p A (x >>= f) W :=
  fun s hs => Leads.bind Runtime.Adds.trans (hx s hs) fun a t ht _ ha => hf a ha t ht

theorem mono {A' : Nat × EnvId → Prop} {x : Resolve B α} {V W : α → Prop} (hx : Settles p A x V)
    (hkind : ∀ created, A created → A' created) (himp : ∀ a, V a → W a) : Settles p A' x W :=
  fun s hs => ((hx s hs).relate fun _ hadds => hadds.mono hkind).mono fun a _ _ ha => himp a ha

theorem each {f : α → Resolve B β} {xs : List α} {W : β → Prop}
    (hf : ∀ x ∈ xs, Settles p A (f x) W) : Settles p A (each f xs) fun ys => ∀ y ∈ ys, W y := by
  intro s hs
  refine (Leads.each (R := fun _ y _ => W y) Runtime.Adds.refl Runtime.Adds.trans
    (fun _ h => h) hs fun x hmem t ht _ => hf x hmem t ht).mono ?_
  intro ys t _ hall
  clear hf
  induction hall with
  | nil => exact fun _ h => by cases h
  | cons hw _ ih => exact List.forall_mem_cons.mpr ⟨hw, ih⟩

theorem get_bind {f : Runtime B → Resolve B β} {W : β → Prop}
    (hf : ∀ s, Settled p s → Leads (Settled p) (Runtime.Adds A) s (f s) fun b _ => W b) :
    Settles p A (get >>= f) W :=
  fun s hs => Leads.get_bind (hf s hs)

end Settles

theorem settles_environment (e : EnvId) :
    Settles p A (environment e : Resolve B _) fun env => env.Inner p := by
  refine Settles.get_bind fun s hs => ?_
  split
  · rename_i env henv
    exact Settles.pure (hs.envs env (List.mem_of_getElem? henv)) s hs
  · exact Settles.fail s hs

theorem leads_addEnv {s : Runtime B} (hs : Settled p s) {env : RuntimeEnv B} (henv : env.Inner p) :
    Leads (Settled p) (Runtime.Adds A) s (addEnv env) fun e t => e ≠ 0 ∧ t.envs[e]? = some env := by
  obtain ⟨root, hroot, -⟩ := hs.root
  refine Leads.get_bind (Leads.bind Runtime.Adds.trans (R := fun _ t =>
    t = { s with envs := s.envs ++ [env] }) ?_ ?_)
  · exact Leads.modify (hs.addEnv henv) (.of_grows (.addEnv s env) rfl) rfl
  · rintro _ t ht - rfl
    refine Leads.pure ht (.refl _) ⟨?_, List.getElem?_concat_length⟩
    exact Nat.ne_of_gt (Nat.zero_lt_of_lt (List.getElem?_eq_some_iff.mp hroot).1)

theorem settles_cloneShallow (e : EnvId) :
    Settles p A (cloneShallow e : Resolve B _) fun clone => clone ≠ 0 := by
  refine (settles_environment e).bind fun env henv s hs => ?_
  exact (leads_addEnv hs henv).mono fun _ _ _ h => h.1

theorem leads_addInstance {s : Runtime B} (hs : Settled p s) {source : RuntimeComponentSource B}
    {env : EnvId} (henv : env ≠ 0)
    (hsource : ∀ exports, source = .component exports →
      (∀ export_ ∈ exports, p.Reached export_.2.ref ∧ p.Coreless export_.2.ref) ∧
        ∃ found : RuntimeEnv B, s.envs[env]? = some found ∧ found.path ≠ .root) :
    Leads (Settled p) (Runtime.Adds A) s (addInstance source env) fun i _ => i ≠ 0 := by
  have hplace : s.instances.length ≠ 0 := Nat.ne_of_gt hs.rootInstance
  refine Leads.get_bind (Leads.bind Runtime.Adds.trans (R := fun _ _ => True) ?_ ?_)
  · refine Leads.modify (hs.addInstance ⟨?_, ?_, ?_⟩) (.of_grows (.addInstance s _) rfl) trivial
    · exact fun _ h => by cases h
    · exact fun h => absurd h hplace
    · exact fun _ => ⟨henv, hsource⟩
  · exact fun _ t ht _ _ => Leads.pure ht (.refl t) hplace

section lookups

variable {s : Runtime B} {e : EnvId} {name : String}

theorem Settled.argument_inner (hs : Settled p s) {linked : Option (LinkerEntry B)} {env : EnvId}
    {value : RuntimeValue B}
    (h : searchImport linked name (s.chain e) = some (.argument env value)) : value.Inner p := by
  obtain ⟨inner, frame, outer, hchain, -, -, hvalue, -⟩ := searchImport_eq_argument.mp h
  have hmem : frame ∈ s.chain e := by
    rw [hchain]
    exact List.mem_append_right _ (List.mem_cons_self ..)
  have hframe := frame_of_mem_chain hmem
  obtain ⟨found, hfound, heq⟩ := Option.map_eq_some_iff.mp hframe
  obtain ⟨before, after, happend, -⟩ := List.lookup_eq_some_iff.mp hvalue
  have himports : frame.imports = found.imports := congrArg ImportFrame.imports heq.symm
  refine (hs.envs found (List.mem_of_getElem? hfound)).imports (name, value) ?_
  rw [← himports, happend]
  exact List.mem_append_right _ (List.mem_cons_self ..)

theorem settles_lookupImportComponent :
    Settles p A (lookupImportComponent e name : Resolve B _) fun definition =>
      definition.Inner p := by
  refine Settles.get_bind fun s hs => ?_
  split
  · rename_i hsearch
    exact Leads.pure hs (.refl s) (hs.argument_inner hsearch)
  · exact Settles.fail s hs
  · exact Settles.fail s hs

theorem settles_lookupImportInstance (l : ComponentLinker B) :
    Settles p A (lookupImportInstance l e name) fun inst => inst ≠ 0 := by
  refine Settles.get_bind fun s hs => ?_
  split
  · rename_i hsearch
    exact Leads.pure hs (.refl s) (hs.argument_inner hsearch)
  · refine Settles.bind (settles_cloneShallow _) (fun clone hclone t ht => ?_) s hs
    exact leads_addInstance ht hclone fun _ h => by cases h
  · split
    · exact Settles.fail s hs
    · exact Settles.fail s hs
  · exact Settles.fail s hs

theorem settles_lookupImportFunc (l : ComponentLinker B) :
    Settles p A (lookupImportFunc l e name) fun _ => True := by
  refine Settles.get_bind fun s hs => ?_
  split
  · exact Settles.pure trivial s hs
  · exact Settles.pure trivial s hs
  · exact Settles.fail s hs
  · exact Settles.fail s hs

theorem settles_lookupImportCoreModule :
    Settles p A (lookupImportCoreModule e name : Resolve B _) fun _ => True := by
  refine Settles.get_bind fun s hs => ?_
  split
  · exact Settles.pure trivial s hs
  · exact Settles.fail s hs
  · exact Settles.fail s hs

end lookups

theorem settles_cached {entries : RuntimeCaches B → List (Nat × α)}
    {setEntries : RuntimeCaches B → List (Nat × α) → RuntimeCaches B} {e : EnvId} {idx : Nat}
    {resolve : Resolve B α} {W : α → Prop}
    (hhit : ∀ caches : RuntimeCaches B, caches.Inner p → ∀ found,
      (entries caches).lookup idx = some found → W found)
    (hinner : ∀ caches found, caches.Inner p → W found →
      (setEntries caches ((idx, found) :: entries caches)).Inner p)
    (hcore : ∀ caches new, (setEntries caches new).coreInstances = caches.coreInstances)
    (hresolve : Settles p A resolve W) :
    Settles p A (cached entries setEntries e idx resolve) W := by
  refine (settles_environment e).bind fun env henv => ?_
  split
  · rename_i found hfound
    exact Settles.pure (hhit env.caches henv.caches found hfound)
  · refine hresolve.bind fun found hw => Settles.bind (V := fun _ => True) (fun s hs => ?_)
      fun _ _ => Settles.pure hw
    refine Leads.modify (hs.modifyCaches ?_ ?_) (.of_grows (.modifyCaches s e _) rfl) trivial
    · exact fun caches hcaches => hinner caches found hcaches hw
    · exact fun caches => hcore caches _

theorem settles_cached_other {entries : RuntimeCaches B → List (Nat × α)}
    {setEntries : RuntimeCaches B → List (Nat × α) → RuntimeCaches B} {e : EnvId} {idx : Nat}
    {resolve : Resolve B α}
    (hset : ∀ caches new, (setEntries caches new).components = caches.components ∧
      (setEntries caches new).instances = caches.instances ∧
        (setEntries caches new).coreInstances = caches.coreInstances)
    (hresolve : Settles p A resolve fun _ => True) :
    Settles p A (cached entries setEntries e idx resolve) fun _ => True := by
  refine settles_cached (fun _ _ _ _ => trivial) ?_ (fun caches new => (hset caches new).2.2) hresolve
  intro caches found hcaches _
  obtain ⟨hcomponents, hinstances, -⟩ := hset caches ((idx, found) :: entries caches)
  refine ⟨?_, ?_⟩
  · rw [hcomponents]
    exact hcaches.components
  · rw [hinstances]
    exact hcaches.instances

theorem Settles.used {ref used : Ref} {x : Resolve B α} {W : α → Prop}
    (hx : Settles p (p.Needed used) x W) (hused : used ∈ p.refs ref) :
    Settles p (p.Needed ref) x W :=
  hx.mono (fun _ h => h.head hused) fun _ h => h

variable (p) in
/-- Definitions that need core instances are resolved in the environment of the root only. -/
structure SettledResolver (r : Resolver B) : Prop where
  component : ∀ e idx, p.Allowed e (.item .component idx) →
    Settles p (p.Needed (.item .component idx)) (r.component e idx) (·.Inner p)
  inst : ∀ e idx, p.Allowed e (.item .instance idx) →
    Settles p (p.Needed (.item .instance idx)) (r.inst e idx) (· ≠ 0)
  func : ∀ e idx, p.Allowed e (.item .func idx) →
    Settles p (p.Needed (.item .func idx)) (r.func e idx) fun _ => True
  coreModule : ∀ e idx, p.Allowed e (.core .module idx) →
    Settles p (p.Needed (.core .module idx)) (r.coreModule e idx) fun _ => True
  coreInstance : ∀ idx s, Settled p s →
    Leads (Settled p) (Runtime.Adds (p.Needed (.core .instance idx))) s (r.coreInstance 0 idx)
      fun _ t => (idx, 0) ∈ t.coreInstances
  coreFunc : ∀ e idx, p.Allowed e (.core .func idx) →
    Settles p (p.Needed (.core .func idx)) (r.coreFunc e idx) fun _ => True
  coreMemory : ∀ e idx, p.Allowed e (.core .memory idx) →
    Settles p (p.Needed (.core .memory idx)) (r.coreMemory e idx) fun _ => True
  coreTable : ∀ e idx, p.Allowed e (.core .table idx) →
    Settles p (p.Needed (.core .table idx)) (r.coreTable e idx) fun _ => True
  export_ : ∀ i name, Settles p (fun _ => i = 0) (r.export_ i name) (·.Inner p)

theorem ComponentProgram.Allowed.root {e : EnvId} {idx : Nat}
    (h : p.Allowed e (.core .instance idx)) : e = 0 :=
  h.2.resolve_right fun hcoreless => hcoreless idx .refl

section level

variable {r : Resolver B} (hr : SettledResolver p r)

include hr

theorem settles_coreInstance {e : EnvId} {idx : Nat} (hallowed : p.Allowed e (.core .instance idx)) :
    Settles p (p.Needed (.core .instance idx)) (r.coreInstance e idx) fun _ => True := by
  obtain rfl := hallowed.root
  exact fun s hs => (hr.coreInstance idx s hs).mono fun _ _ _ _ => trivial

theorem settles_sort {e : EnvId} {ref : SortRef} (hallowed : p.Allowed e ref.ref) :
    Settles p (p.Needed ref.ref) (r.sort e ref) (·.Inner p) := by
  unfold Resolver.sort
  split
  · exact (hr.component e _ hallowed).bind fun _ h => Settles.pure h
  · exact (hr.inst e _ hallowed).bind fun _ h => Settles.pure h
  · exact (hr.func e _ hallowed).bind fun _ _ => Settles.pure trivial
  · exact (hr.coreModule e _ hallowed).bind fun _ _ => Settles.pure trivial

/-- Exports of other instances than that of the root need no core instances. -/
theorem settles_fromExport {e : EnvId} {ref : Ref} {inst : Nat} {name : String}
    {f : RuntimeValue B → Resolve B α} {W : α → Prop} (hallowed : p.Allowed e ref)
    (hused : .item .instance inst ∈ p.refs ref)
    (hf : ∀ value, value.Inner p → Settles p (p.Needed ref) (f value) W) :
    Settles p (p.Needed ref) (do f (← r.export_ (← r.inst e inst) name)) W := by
  refine ((hr.inst e inst (hallowed.used hused)).used hused).bind fun i hi => ?_
  exact ((hr.export_ i name).mono (fun _ h => absurd h hi) fun _ h => h).bind hf

theorem settles_resolveComponent (hcores : p.CoresInRoot) (hp : p.Formed) (e : EnvId) (idx : Nat)
    (hallowed : p.Allowed e (.item .component idx)) :
    Settles p (p.Needed (.item .component idx)) (resolveComponent p r e idx) (·.Inner p) := by
  refine settles_cached ?_ ?_ (fun _ _ => rfl) ?_
  · exact fun caches hcaches found h => hcaches.components (idx, found) (mem_of_lookup h)
  · exact fun caches found hcaches hw =>
      ⟨List.forall_mem_cons.mpr ⟨hw, hcaches.components⟩, hcaches.instances⟩
  · split
    · rename_i hrelation
      refine (settles_cloneShallow e).bind fun clone _ => Settles.pure ?_
      exact ⟨hp.nested hrelation, fun export_ hmem =>
        ⟨.exports hallowed.1 hrelation hmem, hcores.exports hallowed.1 hrelation export_ hmem⟩⟩
    · exact settles_lookupImportComponent
    · rename_i hrelation
      refine settles_fromExport hr hallowed ?_ fun value hvalue => ?_
      · rw [ComponentProgram.refs_of_relation hrelation]
        exact List.mem_singleton_self _
      · cases value with
        | component definition => exact Settles.pure hvalue
        | _ => exact Settles.fail
    · exact Settles.fail

theorem settles_newInstance {e : EnvId} {ref : Ref} {component : Nat}
    {args : List (String × SortRef)} (hallowed : p.Allowed e ref)
    (hcomponent : .item .component component ∈ p.refs ref)
    (hargs : ∀ arg ∈ args, arg.2.ref ∈ p.refs ref) :
    Settles p (p.Needed ref) (do
      let definition ← r.component e component
      let imports ← each (fun arg : String × SortRef => do return (arg.1, ← r.sort e arg.2)) args
      let outer ← environment definition.env
      let env ← addEnv ⟨definition.path, imports, definition.env :: outer.parents, .empty⟩
      addInstance (.component definition.exports) env) (· ≠ 0) := by
  refine ((hr.component e component (hallowed.used hcomponent)).used hcomponent).bind ?_
  intro definition hdefinition
  refine (Settles.each (W := fun arg : String × RuntimeValue B => arg.2.Inner p) ?_).bind ?_
  · intro arg hmem
    have hused := hargs arg hmem
    exact ((settles_sort hr (hallowed.used hused)).used hused).bind fun _ h => Settles.pure h
  · intro imports himports
    refine (settles_environment definition.env).bind fun outer _ s hs => ?_
    refine Leads.bind Runtime.Adds.trans (leads_addEnv hs ⟨himports, ?_, ?_⟩) ?_
    · exact fun _ h => by cases h
    · exact fun _ h => by cases h
    · rintro env t ht - ⟨henv, hget⟩
      refine leads_addInstance ht henv fun exports hsource => ?_
      cases hsource
      exact ⟨hdefinition.2, _, hget, hdefinition.1⟩

theorem settles_resolveInstance (l : ComponentLinker B) (e : EnvId) (idx : Nat)
    (hallowed : p.Allowed e (.item .instance idx)) :
    Settles p (p.Needed (.item .instance idx)) (resolveInstance l p r e idx) (· ≠ 0) := by
  refine settles_cached ?_ ?_ (fun _ _ => rfl) ?_
  · exact fun caches hcaches found h => hcaches.instances (idx, found) (mem_of_lookup h)
  · exact fun caches found hcaches hw =>
      ⟨hcaches.components, List.forall_mem_cons.mpr ⟨hw, hcaches.instances⟩⟩
  · split
    · rename_i hrelation
      have hrefs := ComponentProgram.refs_of_relation hrelation
      refine settles_newInstance hr hallowed ?_ fun arg hmem => ?_
      · rw [hrefs]
        exact List.mem_cons_self ..
      · rw [hrefs]
        exact List.mem_cons_of_mem _ (List.mem_map_of_mem hmem)
    · exact settles_lookupImportInstance l
    · rename_i hrelation
      refine settles_fromExport hr hallowed ?_ fun value hvalue => ?_
      · rw [ComponentProgram.refs_of_relation hrelation]
        exact List.mem_singleton_self _
      · cases value with
        | «instance» found => exact Settles.pure hvalue
        | _ => exact Settles.fail
    · exact Settles.fail

omit hr in
theorem settles_optional {resolve : Nat → Resolve B α} {option : Option Nat}
    (hresolve : ∀ idx ∈ option, Settles p A (resolve idx) fun _ => True) :
    Settles p A (optional resolve option) fun _ => True := by
  cases option with
  | none => exact Settles.pure trivial
  | some idx => exact (hresolve idx rfl).bind fun _ _ => Settles.pure trivial

omit hr in
theorem settles_programFuncType (ty : TypeId) :
    Settles p A (programFuncType p ty : Resolve B _) fun _ => True := by
  unfold programFuncType
  split
  · exact Settles.pure trivial
  · exact Settles.fail

theorem settles_canonical {e : EnvId} {ref : Ref} {ty : TypeId} {options : CanonicalRefs}
    {f : Option CoreExportRef → Option (RuntimeCoreFunc B) → Option (RuntimeCoreFunc B) → α}
    (hallowed : p.Allowed e ref) (hoptions : ∀ used ∈ options.refs, used ∈ p.refs ref) :
    Settles p (p.Needed ref) (do
      programFuncType p ty
      let memory ← optional (r.coreMemory e) options.memory
      let realloc ← optional (r.coreFunc e) options.realloc
      let postReturn ← optional (r.coreFunc e) options.postReturn
      return f memory realloc postReturn) fun _ => True := by
  have hmemory : ∀ idx ∈ options.memory, Ref.core .memory idx ∈ p.refs ref := fun idx h =>
    hoptions _ (List.mem_append_left _ (List.mem_append_left _
      (List.mem_map_of_mem (Option.mem_toList.mpr h))))
  have hrealloc : ∀ idx ∈ options.realloc, Ref.core .func idx ∈ p.refs ref := fun idx h =>
    hoptions _ (List.mem_append_left _ (List.mem_append_right _
      (List.mem_map_of_mem (Option.mem_toList.mpr h))))
  have hpostReturn : ∀ idx ∈ options.postReturn, Ref.core .func idx ∈ p.refs ref := fun idx h =>
    hoptions _ (List.mem_append_right _ (List.mem_map_of_mem (Option.mem_toList.mpr h)))
  refine (settles_programFuncType ty).bind fun _ _ => ?_
  refine (settles_optional fun idx h => ?_).bind fun _ _ => ?_
  · have hused := hmemory idx h
    exact (hr.coreMemory e idx (hallowed.used hused)).used hused
  refine (settles_optional fun idx h => ?_).bind fun _ _ => ?_
  · have hused := hrealloc idx h
    exact (hr.coreFunc e idx (hallowed.used hused)).used hused
  refine (settles_optional fun idx h => ?_).bind fun _ _ => Settles.pure trivial
  have hused := hpostReturn idx h
  exact (hr.coreFunc e idx (hallowed.used hused)).used hused

theorem settles_resolveFunc (l : ComponentLinker B) (e : EnvId) (idx : Nat)
    (hallowed : p.Allowed e (.item .func idx)) :
    Settles p (p.Needed (.item .func idx)) (resolveFunc l p r e idx) fun _ => True := by
  refine settles_cached_other (fun _ _ => ⟨rfl, rfl, rfl⟩) ?_
  split
  · rename_i coreFunc _ _ hrelation
    have hrefs := ComponentProgram.refs_of_relation hrelation
    have hused : Ref.core .func coreFunc ∈ p.refs (.item .func idx) := by
      rw [hrefs]
      exact List.mem_cons_self ..
    refine ((hr.coreFunc e _ (hallowed.used hused)).used hused).bind fun _ _ => ?_
    refine settles_canonical hr hallowed fun used hmem => ?_
    rw [hrefs]
    exact List.mem_cons_of_mem _ hmem
  · exact settles_lookupImportFunc l
  · rename_i hrelation
    refine settles_fromExport hr hallowed ?_ fun value _ => ?_
    · rw [ComponentProgram.refs_of_relation hrelation]
      exact List.mem_singleton_self _
    · cases value with
      | func callable => exact Settles.pure trivial
      | _ => exact Settles.fail
  · exact Settles.fail

theorem settles_resolveCoreModule (e : EnvId) (idx : Nat)
    (hallowed : p.Allowed e (.core .module idx)) :
    Settles p (p.Needed (.core .module idx)) (resolveCoreModule p r e idx) fun _ => True := by
  refine settles_cached_other (fun _ _ => ⟨rfl, rfl, rfl⟩) ?_
  split
  · exact Settles.pure trivial
  · exact settles_lookupImportCoreModule
  · rename_i hrelation
    refine settles_fromExport hr hallowed ?_ fun value _ => ?_
    · rw [ComponentProgram.refs_of_coreRelation hrelation]
      exact List.mem_singleton_self _
    · cases value with
      | coreModule module => exact Settles.pure trivial
      | _ => exact Settles.fail
  · exact Settles.fail
  · exact Settles.fail

omit hr in
theorem leads_environment {s : Runtime B} (hs : Settled p s) (e : EnvId) :
    Leads (Settled p) (Runtime.Adds A) s (environment e) fun env t =>
      t = s ∧ s.envs[e]? = some env := by
  refine Leads.get_bind ?_
  split
  · rename_i env henv
    exact Leads.pure hs (.refl s) ⟨rfl, henv⟩
  · exact Leads.fail hs (.refl s)

variable (p) in
/-- A core instance that is needed for something the definition uses. -/
def NeededBelow (ref : Ref) (created : Nat × EnvId) : Prop :=
  ∃ used ∈ p.refs ref, p.Needed used created

omit hr in
theorem Settles.below {ref used : Ref} {x : Resolve B α} {W : α → Prop}
    (hx : Settles p (p.Needed used) x W) (hused : used ∈ p.refs ref) :
    Settles p (NeededBelow p ref) x W :=
  hx.mono (fun _ h => ⟨used, hused, h⟩) fun _ h => h

omit hr in
theorem Settles.spares (hp : p.Formed) {idx : Nat} {x : Resolve B α} {W : α → Prop}
    (hx : Settles p (NeededBelow p (.core .instance idx)) x W) {s : Runtime B} (hs : Settled p s)
    (hnew : (idx, 0) ∉ s.coreInstances) :
    Leads (Settled p) (Runtime.Adds (p.Needed (.core .instance idx))) s x fun _ t =>
      (idx, 0) ∉ t.coreInstances := by
  refine ((hx s hs).mono ?_).relate ?_
  · rintro _ t ⟨-, new, hcreated, hall⟩ - hmem
    rw [hcreated, List.mem_append] at hmem
    rcases hmem with hmem | hmem
    · exact hnew hmem
    · obtain ⟨used, hused, hneeds⟩ := hall _ hmem
      exact hp.not_needs hused hneeds
  · intro t hadds
    exact hadds.mono fun created ⟨used, hused, hneeds⟩ => hneeds.head hused

omit hr in
theorem leads_create (core : CoreRuntime B) {idx : Nat} (hstored : p.Stored (.core .instance idx))
    (module : Option Nat) {s : Runtime B} (hs : Settled p s) (hnew : (idx, 0) ∉ s.coreInstances) :
    Leads (Settled p) (Runtime.Adds (p.Needed (.core .instance idx))) s
      (do
        let found ← createCoreInstance core 0 idx module
        modify (Runtime.modifyCaches 0 fun caches =>
          { caches with coreInstances := (idx, found) :: caches.coreInstances })
        return found)
      fun _ t => (idx, 0) ∈ t.coreInstances := by
  by_cases hcore : core s module
  · have hcreate : createCoreInstance core 0 idx module s = (.ok s.coreInstances.length,
        { s with coreInstances := s.coreInstances ++ [(idx, 0)] }) := by
      change (if core s module then _ else _ : Resolve B Nat) s = _
      rw [if_pos hcore]
      rfl
    refine Leads.of_ok (Lib.Attempt.bind_ok hcreate) (hs.create hstored hnew _) ⟨?_, ?_⟩ ?_
    · exact (createdIn s idx 0).trans s _ _ (.modifyCaches _ 0 _)
    · exact ⟨[(idx, 0)], rfl, List.forall_mem_singleton.mpr .refl⟩
    · exact List.mem_append_right _ (List.mem_singleton_self _)
  · have hcreate : createCoreInstance core 0 idx module s = (.error .instantiation, s) := by
      change (if core s module then _ else _ : Resolve B Nat) s = _
      rw [if_neg hcore]
      rfl
    exact Leads.of_error (Lib.Attempt.bind_error hcreate) hs (.refl s)

theorem settles_inlineExport {ref : Ref} (hreached : p.Reached ref) (export_ : CoreSpace × Nat)
    (hused : Ref.core export_.1 export_.2 ∈ p.refs ref) :
    Settles p (NeededBelow p ref) (inlineExport r 0 export_) fun _ => True := by
  have hallowed : p.Allowed 0 (.core export_.1 export_.2) := ⟨.used hreached hused, .inl rfl⟩
  unfold inlineExport
  split
  · exact ((hr.coreFunc 0 _ hallowed).below hused).bind fun _ _ => Settles.pure trivial
  · exact ((hr.coreMemory 0 _ hallowed).below hused).bind fun _ _ => Settles.pure trivial
  · exact ((hr.coreTable 0 _ hallowed).below hused).bind fun _ _ => Settles.pure trivial
  · exact Settles.fail

theorem leads_resolveCoreInstance (hp : p.Formed) (core : CoreRuntime B) (idx : Nat)
    (s : Runtime B) (hs : Settled p s) :
    Leads (Settled p) (Runtime.Adds (p.Needed (.core .instance idx))) s
      (resolveCoreInstance p r core 0 idx) fun _ t => (idx, 0) ∈ t.coreInstances := by
  refine Leads.bind Runtime.Adds.trans (leads_environment hs 0) ?_
  rintro root _ - - ⟨rfl, hroot⟩
  rename_i s
  have honce := hs.once root hroot idx
  split
  · rename_i found hfound
    refine Leads.pure hs (.refl s) (List.one_le_count_iff.mp ?_)
    rw [honce, hfound]
    exact Nat.le_refl 1
  · rename_i hnone
    have hnew : (idx, 0) ∉ s.coreInstances := by
      rw [hnone] at honce
      exact List.count_eq_zero.mp honce
    split
    · rename_i module imports hrelation
      have hrefs := ComponentProgram.refs_of_coreRelation hrelation
      have hstored : p.Stored (.core .instance idx) :=
        (List.getElem?_eq_some_iff.mp (Option.map_eq_some_iff.mp hrelation).choose_spec.1).1
      have hmodule : Ref.core .module module ∈ p.refs (.core .instance idx) := by
        rw [hrefs]
        exact List.mem_cons_self ..
      rw [Lib.Attempt.bind_assoc]
      refine Leads.bind Runtime.Adds.trans
        (((hr.coreModule 0 module ⟨.used .core hmodule, .inl rfl⟩).below hmodule).spares hp hs hnew) ?_
      intro found t ht _ hnewt
      rw [Lib.Attempt.bind_assoc]
      refine Leads.bind Runtime.Adds.trans
        (Settles.spares (W := fun _ => True) hp (fun u hu => ?_) ht hnewt) ?_
      · refine (Settles.each (W := fun _ => True) (fun arg hmem => ?_) u hu).mono
          fun _ _ _ _ => trivial
        refine (settles_coreInstance hr ⟨.core, .inl rfl⟩).below ?_
        rw [hrefs]
        exact List.mem_cons_of_mem _ (List.mem_map.mpr ⟨arg, hmem, rfl⟩)
      · exact fun _ u hu _ hnewu => leads_create core hstored _ hu hnewu
    · rename_i exports hrelation
      have hrefs := ComponentProgram.refs_of_coreRelation hrelation
      have hstored : p.Stored (.core .instance idx) :=
        (List.getElem?_eq_some_iff.mp (Option.map_eq_some_iff.mp hrelation).choose_spec.1).1
      rw [Lib.Attempt.bind_assoc]
      refine Leads.bind Runtime.Adds.trans
        (Settles.spares (W := fun _ => True) hp (fun u hu => ?_) hs hnew) ?_
      · refine (Settles.each (W := fun _ => True) (fun export_ hmem => ?_) u hu).mono
          fun _ _ _ _ => trivial
        refine settles_inlineExport hr .core export_.2 ?_
        rw [hrefs]
        exact List.mem_map.mpr ⟨export_, hmem, rfl⟩
      · exact fun _ u hu _ hnewu => leads_create core hstored _ hu hnewu
    · exact Leads.of_error (Lib.Attempt.bind_error rfl) hs (.refl s)
    · exact Leads.of_error (Lib.Attempt.bind_error rfl) hs (.refl s)
    · exact Leads.of_error (Lib.Attempt.bind_error rfl) hs (.refl s)
    · exact Leads.of_error (Lib.Attempt.bind_error rfl) hs (.refl s)

theorem settles_resolveCoreExport {e : EnvId} {ref : Ref} {inst : Nat} (name : String)
    (hallowed : p.Allowed e ref) (hused : Ref.core .instance inst ∈ p.refs ref) :
    Settles p (p.Needed ref) (resolveCoreExport r e inst name) fun _ => True := by
  refine Settles.bind (V := fun _ => True) (fun s hs => ?_) fun _ _ =>
    ((settles_coreInstance hr (hallowed.used hused)).used hused).bind fun _ _ => Settles.pure trivial
  refine Leads.modify ?_ (.of_grows ?_ rfl) trivial
  · exact ⟨hs.root, hs.rootInstance, hs.envs, fun i inst h =>
      ⟨(hs.instances i inst h).exports, (hs.instances i inst h).root, (hs.instances i inst h).nested⟩,
      hs.created, hs.once⟩
  · exact ⟨(Runtime.Grows.refl s).envs, (Runtime.Grows.refl s).instances, List.prefix_refl _,
      List.suffix_cons _ _⟩

theorem settles_resolveCoreFunc (e : EnvId) (idx : Nat) (hallowed : p.Allowed e (.core .func idx)) :
    Settles p (p.Needed (.core .func idx)) (resolveCoreFunc p r e idx) fun _ => True := by
  refine settles_cached_other (fun _ _ => ⟨rfl, rfl, rfl⟩) ?_
  split
  · rename_i func _ _ hrelation
    have hrefs := ComponentProgram.refs_of_coreRelation hrelation
    have hused : Ref.item .func func ∈ p.refs (.core .func idx) := by
      rw [hrefs]
      exact List.mem_cons_self ..
    refine ((hr.func e func (hallowed.used hused)).used hused).bind fun _ _ => ?_
    refine settles_canonical hr hallowed fun used hmem => ?_
    rw [hrefs]
    exact List.mem_cons_of_mem _ hmem
  · rename_i hrelation
    refine (settles_optional fun destructor h => ?_).bind fun _ _ => Settles.pure trivial
    have hused : Ref.core .func destructor ∈ p.refs (.core .func idx) := by
      rw [ComponentProgram.refs_of_coreRelation hrelation]
      exact List.mem_map_of_mem (Option.mem_toList.mpr h)
    exact (hr.coreFunc e destructor (hallowed.used hused)).used hused
  · exact Settles.pure trivial
  · rename_i hrelation
    refine (settles_resolveCoreExport hr _ hallowed ?_).bind fun _ _ => Settles.pure trivial
    rw [ComponentProgram.refs_of_coreRelation hrelation]
    exact List.mem_singleton_self _
  · exact Settles.fail
  · exact Settles.fail
  · exact Settles.fail

theorem settles_resolveCoreMemory (e : EnvId) (idx : Nat)
    (hallowed : p.Allowed e (.core .memory idx)) :
    Settles p (p.Needed (.core .memory idx)) (resolveCoreMemory p r e idx) fun _ => True := by
  refine settles_cached_other (fun _ _ => ⟨rfl, rfl, rfl⟩) ?_
  split
  · rename_i hrelation
    refine settles_resolveCoreExport hr _ hallowed ?_
    rw [ComponentProgram.refs_of_coreRelation hrelation]
    exact List.mem_singleton_self _
  · exact Settles.fail

theorem settles_resolveCoreTable (e : EnvId) (idx : Nat)
    (hallowed : p.Allowed e (.core .table idx)) :
    Settles p (p.Needed (.core .table idx)) (resolveCoreTable p r e idx) fun _ => True := by
  refine settles_cached_other (fun _ _ => ⟨rfl, rfl, rfl⟩) ?_
  split
  · rename_i hrelation
    refine settles_resolveCoreExport hr _ hallowed ?_
    rw [ComponentProgram.refs_of_coreRelation hrelation]
    exact List.mem_singleton_self _
  · exact Settles.fail

theorem settles_findExport (l : ComponentLinker B) {s : Runtime B} {i : Nat}
    {inst : RuntimeComponentInstance B} (hinst : InstanceSettled p s i inst) (name : String) :
    Settles p (fun _ => i = 0) (findExport l p r inst name) (·.Inner p) := by
  unfold findExport
  split
  · rename_i exports hsource
    have hsort : ∀ sort, exports.lookup name = some sort →
        Settles p (fun _ => i = 0) (r.sort inst.env sort) (·.Inner p) := by
      intro sort hlookup
      obtain ⟨before, after, happend, -⟩ := List.lookup_eq_some_iff.mp hlookup
      have hmem : (name, sort) ∈ exports := by
        rw [happend]
        exact List.mem_append_right _ (List.mem_cons_self ..)
      by_cases hi : i = 0
      · obtain ⟨henv, hroot⟩ := hinst.root hi
        obtain rfl := RuntimeComponentSource.component.inj (hsource.symm.trans hroot)
        exact (settles_sort hr ⟨.root hmem, .inl henv⟩).mono (fun _ _ => hi) fun _ h => h
      · obtain ⟨hreached, hcoreless⟩ := ((hinst.nested hi).2 exports hsource).1 _ hmem
        exact (settles_sort hr ⟨hreached, .inr hcoreless⟩).mono
          (fun created h => absurd h (hcoreless created.1)) fun _ h => h
    split
    · rename_i idx hlookup
      refine (settles_environment inst.env).bind fun env _ => ?_
      split
      · exact Settles.pure trivial
      · exact hsort _ hlookup
    · rename_i sort _ hlookup
      exact hsort _ hlookup
    · exact Settles.fail
  · split
    · exact Settles.pure trivial
    · exact Settles.fail

theorem settles_resolveExport (l : ComponentLinker B) (i : Nat) (name : String) :
    Settles p (fun _ => i = 0) (resolveExport l p r i name) (·.Inner p) := by
  refine Settles.get_bind fun s hs => ?_
  split
  · exact Settles.fail s hs
  · rename_i found hfound
    have hinst := hs.instances i found hfound
    split
    · rename_i value hvalue
      obtain ⟨before, after, happend, -⟩ := List.lookup_eq_some_iff.mp hvalue
      refine Settles.pure (hinst.exports (name, value) ?_) s hs
      rw [happend]
      exact List.mem_append_right _ (List.mem_cons_self ..)
    · refine Settles.bind (settles_findExport hr l hinst name) (fun value hvalue => ?_) s hs
      refine Settles.bind (V := fun _ => True) (fun t ht => ?_) fun _ _ => Settles.pure hvalue
      exact Leads.modify (ht.cacheExport i name hvalue) (.of_grows (.cacheExport t i name value) rfl)
        trivial

theorem settledResolver_next (hcores : p.CoresInRoot) (hp : p.Formed) (l : ComponentLinker B)
    (core : CoreRuntime B) : SettledResolver p (r.next l p core) where
  component := settles_resolveComponent hr hcores hp
  inst := settles_resolveInstance hr l
  func := settles_resolveFunc hr l
  coreModule := settles_resolveCoreModule hr
  coreInstance := leads_resolveCoreInstance hr hp core
  coreFunc := settles_resolveCoreFunc hr
  coreMemory := settles_resolveCoreMemory hr
  coreTable := settles_resolveCoreTable hr
  export_ := settles_resolveExport hr l

end level

end settles

/-! ## Runs -/

inductive Instantiated (p : ComponentProgram C) (l : ComponentLinker B) (core : CoreRuntime B) :
    Runtime B → Prop
  | instantiate (depth : Nat) (h : (instantiateSync l p core depth (.initial p)).1 = .ok ()) :
      Instantiated p l core (instantiateSync l p core depth (.initial p)).2
  | call {s : Runtime B} (depth : Nat) (path : List String) (name : String)
      (hs : Instantiated p l core s) : Instantiated p l core (callPath l p core depth path name s).2

/-- Whatever was created belongs to the component of an instance and was created in its environment;
and each instance of a component has each core instance of it once. -/
structure EachCoreInstanceOnce (p : ComponentProgram C) (s : Runtime B) : Prop where
  own : ∀ created ∈ s.coreInstances, ∃ inst ∈ s.instances, ∃ exports,
    inst.source = .component exports ∧ inst.env = created.2 ∧
      ∃ env : RuntimeEnv B, s.envs[created.2]? = some env ∧
        ((p.coreStore .instance)[created.1]?).map (·.owner) = some env.path
  once : ∀ inst ∈ s.instances, ∀ exports, inst.source = .component exports →
    ∀ env : RuntimeEnv B, s.envs[inst.env]? = some env → ∀ idx,
      ((p.coreStore .instance)[idx]?).map (·.owner) = some env.path →
        s.coreInstances.count (idx, inst.env) = 1

section runs

variable {p : ComponentProgram C} {l : ComponentLinker B} {core : CoreRuntime B} {s : Runtime B}

theorem settled_initial : Settled p (.initial p : Runtime B) := by
  have henv : ∀ env ∈ (Runtime.initial p : Runtime B).envs, env = ⟨.root, [], [], .empty⟩ :=
    fun _ h => List.mem_singleton.mp h
  refine ⟨⟨_, rfl, rfl⟩, Nat.zero_lt_one, ?_, ?_, ?_, ?_⟩
  · intro env hmem
    rw [henv env hmem]
    refine ⟨?_, ?_, ?_⟩
    · exact fun _ h => by cases h
    · exact fun _ h => by cases h
    · exact fun _ h => by cases h
  · intro i inst h
    have hi : i = 0 := Nat.lt_one_iff.mp (List.getElem?_eq_some_iff.mp h).1
    subst hi
    obtain rfl := Option.some.inj h
    refine ⟨?_, fun _ => ⟨rfl, rfl⟩, fun h => absurd rfl h⟩
    exact fun _ h => by cases h
  · exact fun _ h => by cases h
  · intro env h idx
    obtain rfl := Option.some.inj h
    rfl

theorem settledResolver (hcores : p.CoresInRoot) (hp : p.Formed) (l : ComponentLinker B)
    (core : CoreRuntime B) (depth : Nat) : SettledResolver p (resolver l p core depth) := by
  induction depth with
  | zero =>
      exact ⟨fun _ _ _ => Settles.fail, fun _ _ _ => Settles.fail, fun _ _ _ => Settles.fail,
        fun _ _ _ => Settles.fail, fun _ s hs => Leads.fail hs (.refl s),
        fun _ _ _ => Settles.fail, fun _ _ _ => Settles.fail, fun _ _ _ => Settles.fail,
        fun _ _ => Settles.fail⟩
  | succ depth ih => exact settledResolver_next ih hcores hp l core

theorem leads_instantiateSync (l : ComponentLinker B) (core : CoreRuntime B)
    (hcores : p.CoresInRoot) (hp : p.Formed) (depth : Nat) (hs : Settled p s) :
    Leads (Settled p) (Runtime.Adds fun _ => True) s (instantiateSync l p core depth) fun _ t =>
      ∀ idx, p.Stored (.core .instance idx) → (idx, 0) ∈ t.coreInstances := by
  have hr := settledResolver hcores hp l core depth
  have heach : ∀ idx t, Settled p t → Leads (Settled p) (Runtime.Adds fun _ => True) t
      ((resolver l p core depth).coreInstance 0 idx) fun _ u => (idx, 0) ∈ u.coreInstances :=
    fun idx t ht => (hr.coreInstance idx t ht).relate fun _ hadds => hadds.mono fun _ _ => trivial
  refine Leads.bind Runtime.Adds.trans
    (Leads.bind Runtime.Adds.trans (Leads.each (R := fun idx _ t => (idx, 0) ∈ t.coreInstances)
      Runtime.Adds.refl Runtime.Adds.trans (fun hadds hmem => hadds.mem hmem) hs
      fun idx _ t ht _ => heach idx t ht) fun found t ht _ hfound =>
      Leads.pure ht (.refl t) (Q := fun _ t => ∀ idx, p.Stored (.core .instance idx) →
        (idx, 0) ∈ t.coreInstances) ?_) ?_
  · intro idx hstored
    obtain ⟨hlen, hget⟩ := List.forall₂_iff_get.mp hfound
    have hidx : idx < (List.range (p.coreStore .instance).length).length := by
      rw [List.length_range]
      exact hstored
    have hcreated := hget idx hidx (hlen ▸ hidx)
    rw [List.get_eq_getElem, List.getElem_range] at hcreated
    exact hcreated
  · intro _ t ht _ hcreated
    refine Leads.bind Runtime.Adds.trans (R := fun _ u =>
      ∀ idx, p.Stored (.core .instance idx) → (idx, 0) ∈ u.coreInstances) ?_
      fun _ u hu _ h => Leads.pure hu (.refl u) h
    refine (Settles.each (W := fun _ => True) (fun name _ => ?_) t ht).mono
      fun _ u hadds _ idx hstored => hadds.mem (hcreated idx hstored)
    refine ((hr.export_ 0 name).mono (fun _ _ => trivial) fun _ h => h).bind fun value _ => ?_
    split
    · exact Settles.pure trivial
    · exact Settles.fail

theorem settles_resolveNamespace (hcores : p.CoresInRoot) (hp : p.Formed) (depth : Nat)
    (current : Nat) (path : List String) :
    Settles p (fun _ => True) (resolveNamespace l p core depth current path) fun _ => True := by
  induction path generalizing current with
  | nil => exact Settles.pure trivial
  | cons segment path ih =>
      refine (((settledResolver hcores hp l core depth).export_ current segment).mono
        (fun _ _ => trivial) fun _ h => h).bind fun value _ => ?_
      split
      · exact ih _
      · exact Settles.fail

theorem settles_callPath (l : ComponentLinker B) (core : CoreRuntime B) (hcores : p.CoresInRoot)
    (hp : p.Formed) (depth : Nat) (path : List String) (name : String) :
    Settles p (fun _ => True) (callPath l p core depth path name) fun _ => True := by
  refine (settles_resolveNamespace hcores hp depth 0 path).bind fun i _ => ?_
  refine (((settledResolver hcores hp l core depth).export_ i name).mono
    (fun _ _ => trivial) fun _ h => h).bind fun value _ => ?_
  split
  · exact Settles.pure trivial
  · exact Settles.fail

theorem Instantiated.settled (hcores : p.CoresInRoot) (hp : p.Formed)
    (hs : Instantiated p l core s) :
    Settled p s ∧ ∀ idx, p.Stored (.core .instance idx) → (idx, 0) ∈ s.coreInstances := by
  induction hs with
  | instantiate depth h =>
      have hleads := leads_instantiateSync l core hcores hp depth settled_initial
      exact ⟨hleads.inv, hleads.post () h⟩
  | call depth path name _ ih =>
      have hleads := settles_callPath l core hcores hp depth path name _ ih.1
      exact ⟨hleads.inv, fun idx hstored => hleads.grows.mem (ih.2 idx hstored)⟩

end runs

/-- In every run of an accepted program whose core instances are the root's, every core instance of
a component is created once for each instance of it, and nothing else is created. -/
theorem core_instances_once (k : Validator C) (items : List (Item C)) (p : ComponentProgram C)
    (hp : compile k items = .ok p) (hcores : p.CoresInRoot) (l : ComponentLinker B)
    (core : CoreRuntime B) (s : Runtime B) (hs : Instantiated p l core s) :
    EachCoreInstanceOnce p s := by
  obtain ⟨hsettled, hall⟩ := hs.settled hcores (compile_formed hp)
  obtain ⟨root, hroot, hpath⟩ := hsettled.root
  have howner : ∀ idx, p.Stored (.core .instance idx) →
      ((p.coreStore .instance)[idx]?).map (·.owner) = some .root := by
    intro idx hstored
    rw [List.getElem?_eq_getElem hstored, Option.map_some,
      hcores.owners _ (List.getElem_mem hstored)]
  refine ⟨fun created hmem => ?_, fun inst hmem exports hsource env henv idx hidx => ?_⟩
  · obtain ⟨hzero, hstored⟩ := hsettled.created created hmem
    have hfirst := List.getElem?_eq_getElem hsettled.rootInstance
    obtain ⟨henv, hsource⟩ := (hsettled.instances 0 _ hfirst).root rfl
    refine ⟨_, List.getElem_mem hsettled.rootInstance, p.root, hsource, henv.trans hzero.symm,
      root, hzero ▸ hroot, ?_⟩
    rw [howner created.1 hstored, hpath]
  · obtain ⟨placed, hplaced, hpathEq⟩ := Option.map_eq_some_iff.mp hidx
    have hstored : p.Stored (.core .instance idx) := (List.getElem?_eq_some_iff.mp hplaced).1
    have hrootPath : env.path = .root := by
      rw [howner idx hstored] at hidx
      exact (Option.some.inj hidx).symm
    obtain ⟨i, hi⟩ := List.mem_iff_getElem?.mp hmem
    have hinst := hsettled.instances i inst hi
    by_cases hzero : i = 0
    · have henvZero := (hinst.root hzero).1
      rw [henvZero]
      have hcount := hsettled.once root hroot idx
      have hpos := List.one_le_count_iff.mpr (hall idx hstored)
      rw [hcount] at hpos ⊢
      split
      · rfl
      · rename_i hnone
        rw [if_neg hnone] at hpos
        exact absurd hpos (by decide)
    · obtain ⟨-, env', henv', hne⟩ := (hinst.nested hzero).2 exports hsource
      rw [henv] at henv'
      obtain rfl := Option.some.inj henv'
      exact absurd hrootPath hne

private def permissive : Validator Nat where
  weakEq name other := name == other
  validateName _ _ _ _ := .ok ()
  validateExportName _ _ _ _ _ := .ok ()
  moduleType ty := .ok ty
  coreExport _ _ := some (.func, 0)
  assertInstantiationArgs _ _ := .ok 0
  coreInlineExports _ := .ok 0
  freshenImportTypeId types ty := .ok (ty, types)
  assertSubtypeOf _ _ _ := .ok ()
  instantiate types _ _ := .ok (0, types)
  inlineExports types _ := .ok (0, types)
  makeComponent types _ := .ok (0, types)
  canonLift _ _ _ _ := .ok ()
  canonLower _ _ _ := .ok 0
  destructor _ := .ok ()
  canonResource _ _ _ := .ok 0
  currentComponentResources _ _ := .ok ()
  freshen_grows h := by cases h; exact List.prefix_refl _
  instantiate_grows h := by cases h; exact List.prefix_refl _
  inlineExports_grows h := by cases h; exact List.prefix_refl _
  makeComponent_grows h := by cases h; exact List.prefix_refl _

private def compiled (items : List (Item Nat)) : ComponentProgram Nat :=
  match compile permissive items with
  | .ok p => p
  | .error _ => ⟨[], fun _ => [], fun _ => [], [], []⟩

private def noLinker : ComponentLinker Nat := ⟨[], [], []⟩

private def creates : CoreRuntime Nat := fun _ _ => true

/-- The root has a core instance and exports an instance of a component that exports a module. -/
private def moduleInside : List (Item Nat) :=
  [.coreModule 0, .coreInstantiate 0 [], .openComponent, .coreModule 0,
    .export_ "m" (.coreModule 0) none, .closeComponent, .instantiate 0 [],
    .export_ "i" (.item .instance 0) none]

private theorem compile_eq_compiled {items : List (Item Nat)}
    (h : (compile permissive items).isOk) : compile permissive items = .ok (compiled items) := by
  unfold compiled
  cases hcompile : compile permissive items with
  | error e =>
      rw [hcompile] at h
      cases h
  | ok p => rfl

theorem core_instances_once_module_inside :
    ∃ s, Instantiated (compiled moduleInside) noLinker creates s ∧ s.coreInstances = [(0, 0)] ∧
      EachCoreInstanceOnce (compiled moduleInside) s := by
  have hcomponents : (compiled moduleInside).store .component =
      [⟨[0], .defined (.component [1, 0] [("m", .coreModule 1)])⟩] := by decide +kernel
  have hrefs : (compiled moduleInside).refs (.core .module 1) = [] := by decide +kernel
  have hcores : (compiled moduleInside).CoresInRoot := by
    refine ⟨by decide +kernel, fun {idx path exports} _ hrelation export_ hmem => ?_⟩
    have hexport : export_ = ("m", .coreModule 1) := by
      unfold ComponentProgram.relation at hrelation
      rw [hcomponents] at hrelation
      match idx with
      | 0 =>
          cases hrelation
          exact List.mem_singleton.mp hmem
      | _ + 1 => cases hrelation
    intro i hneeds
    rw [hexport] at hneeds
    -- the module refers to nothing
    rcases Relation.ReflTransGen.cases_head hneeds with h | ⟨_, hused, -⟩
    · cases h
    · change _ ∈ (compiled moduleInside).refs (.core .module 1) at hused
      rw [hrefs] at hused
      cases hused
  have hs : Instantiated (compiled moduleInside) noLinker creates _ :=
    .call 9 ["i"] "m" (.instantiate 9 (by decide +kernel))
  refine ⟨_, hs, by decide +kernel, ?_⟩
  exact core_instances_once permissive moduleInside _ (compile_eq_compiled (by decide +kernel)) hcores
    noLinker creates _ hs

/-- A component with a core instance that is never instantiated. -/
private def instanceInside : List (Item Nat) :=
  [.openComponent, .coreModule 0, .coreInstantiate 0 [], .closeComponent]

/-- Its core instance is created in the environment of the root. -/
theorem instance_inside_created :
    compile permissive instanceInside = .ok (compiled instanceInside) ∧
      ∃ s, Instantiated (compiled instanceInside) noLinker creates s ∧
        ¬EachCoreInstanceOnce (compiled instanceInside) s := by
  refine ⟨compile_eq_compiled (by decide +kernel), _, .instantiate 9 (by decide +kernel), ?_⟩
  intro honce
  obtain ⟨inst, -, exports, -, -, env, henv, howner⟩ := honce.own (0, 0) (by decide +kernel)
  have hpath : some env.path = some [0] := by
    rw [← Option.map_some, ← henv]
    decide +kernel
  have hinside : (((compiled instanceInside).coreStore .instance)[0]?).map (·.owner) =
      some [1, 0] := by decide +kernel
  cases hinside.symm.trans (howner.trans hpath)

end Telomere.Component
