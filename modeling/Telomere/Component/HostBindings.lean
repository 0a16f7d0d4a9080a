import Telomere.Lib.Trace

/-!
# Host bindings

Host functions of all stores on a thread are found in one map, by the number of the instance and the
index of the function. Each store numbers its instances itself.
-/

namespace Telomere.Component

variable {B : Type}

/-- An instance of a store. `hostFunctions` is bookkeeping: the bindings that were registered for
it, none for an instance that is not made of host functions. -/
structure NumberedInstance (B : Type) where
  instanceId : BitVec 32
  hostFunctions : List B
deriving DecidableEq, Repr

structure NumberingStore (B : Type) where
  alive : Bool
  nextInstanceId : BitVec 32
  instances : List (NumberedInstance B)
deriving DecidableEq, Repr

def NumberingStore.new : NumberingStore B := ⟨true, 1, []⟩

/-- `new_instance_id` goes round. -/
def NumberingStore.addInstance (s : NumberingStore B) (hostFunctions : List B) : NumberingStore B :=
  { s with
    nextInstanceId := s.nextInstanceId + 1
    instances := s.instances ++ [⟨s.nextInstanceId, hostFunctions⟩] }

/-- A binding with the store and the instance it was registered for. -/
structure HostBinding (B : Type) where
  store : Nat
  inst : Nat
  binding : B
deriving DecidableEq, Repr

abbrev HostBindings (B : Type) := BitVec 32 → Nat → Option (HostBinding B)

/-- Bindings of an earlier instance of the same number stay behind the new ones. -/
def registerHostBindings (bindings : HostBindings B) (instanceId : BitVec 32)
    (added : List (HostBinding B)) : HostBindings B :=
  fun id funcidx =>
    if id = instanceId then (added[funcidx]?).or (bindings id funcidx) else bindings id funcidx

/-- Stores are told apart by their place; a place is not used again. -/
structure BindingThread (B : Type) where
  stores : List (NumberingStore B)
  bindings : HostBindings B

def BindingThread.empty : BindingThread B := ⟨[], fun _ _ => none⟩

/-- `instantiate` stands for every instance that is not made of host functions. -/
inductive BindingStep (B : Type) where
  | newStore
  | instantiate (store : Nat)
  | materialize (store : Nat) (first : B) (rest : List B)
  | call (store inst funcidx : Nat)
  | dropStore (store : Nat)
deriving DecidableEq, Repr

def BindingThread.store? (t : BindingThread B) (store : Nat) : Option (NumberingStore B) :=
  (t.stores[store]?).filter (·.alive)

/-- One step; a call gives the binding that runs. -/
def BindingThread.step (t : BindingThread B) :
    BindingStep B → Option (Option (HostBinding B) × BindingThread B)
  | .newStore => some (none, { t with stores := t.stores ++ [.new] })
  | .instantiate store => do
      let s ← t.store? store
      return (none, { t with stores := t.stores.set store (s.addInstance []) })
  | .materialize store first rest => do
      let s ← t.store? store
      let added := (first :: rest).map fun binding => ⟨store, s.instances.length, binding⟩
      return (none,
        { stores := t.stores.set store (s.addInstance (first :: rest))
          bindings := registerHostBindings t.bindings s.nextInstanceId added })
  | .call store inst funcidx => do
      let s ← t.store? store
      let i ← s.instances[inst]?
      let _ ← i.hostFunctions[funcidx]?
      return (t.bindings i.instanceId funcidx, t)
  | .dropStore store => do
      let s ← t.store? store
      return (none, { t with stores := t.stores.set store { s with alive := false } })

abbrev BindingMoment (B : Type) :=
  Lib.Moment (BindingThread B) (BindingStep B) (Option (HostBinding B))

/-- A living instance registered a binding for a function. -/
def BindingThread.Registered (t : BindingThread B) (store inst : Nat) (i : NumberedInstance B)
    (funcidx : Nat) (binding : B) : Prop :=
  ∃ s, t.store? store = some s ∧ s.instances[inst]? = some i ∧
    i.hostFunctions[funcidx]? = some binding

/-- A call runs the binding registered for its own instance and function, and no binding is
overwritten that a living instance registered. -/
structure Isolated (now : BindingMoment B) : Prop where
  runs_own : ∀ store inst funcidx, now.input = .call store inst funcidx →
    ∃ i binding, now.before.Registered store inst i funcidx binding ∧
      now.output = some ⟨store, inst, binding⟩
  kept : ∀ store inst i funcidx binding, now.before.Registered store inst i funcidx binding →
    now.after.bindings i.instanceId funcidx = now.before.bindings i.instanceId funcidx

/-- A store that makes an instance of host functions gives it a number that no living instance of
host functions has. -/
def FreshNumber (now : BindingMoment B) : Prop :=
  ∀ store first rest s, now.input = .materialize store first rest →
    now.before.store? store = some s →
    ∀ store' inst i funcidx binding, now.before.Registered store' inst i funcidx binding →
      i.instanceId ≠ s.nextInstanceId

/-- What living instances registered is found. -/
def BindingThread.Found (t : BindingThread B) : Prop :=
  ∀ store inst i funcidx binding, t.Registered store inst i funcidx binding →
    t.bindings i.instanceId funcidx = some ⟨store, inst, binding⟩

section steps

variable {t u : BindingThread B} {store : Nat} {s : NumberingStore B}

theorem BindingThread.store?_eq_some {store : Nat} {s : NumberingStore B} :
    t.store? store = some s ↔ t.stores[store]? = some s ∧ s.alive = true := by
  rw [BindingThread.store?, Option.filter_eq_some_iff]

theorem BindingThread.store?_set {s' s'' : NumberingStore B} {store' : Nat}
    {bindings : HostBindings B} (h : t.store? store = some s)
    (h' : (BindingThread.mk (t.stores.set store s') bindings).store? store' = some s'') :
    (store' = store ∧ s'' = s') ∨ (store' ≠ store ∧ t.store? store' = some s'') := by
  obtain ⟨hget, halive⟩ := BindingThread.store?_eq_some.mp h'
  dsimp only at hget
  by_cases heq : store' = store
  · subst heq
    obtain ⟨hlt, -⟩ := List.getElem?_eq_some_iff.mp (BindingThread.store?_eq_some.mp h).1
    rw [List.getElem?_set_self hlt] at hget
    exact Or.inl ⟨rfl, (Option.some.inj hget).symm⟩
  · rw [List.getElem?_set_ne (Ne.symm heq)] at hget
    exact Or.inr ⟨heq, BindingThread.store?_eq_some.mpr ⟨hget, halive⟩⟩

/-- A store that gets one more instance: what is registered was registered before or is new. -/
theorem BindingThread.registered_addInstance {hostFunctions : List B} {bindings : HostBindings B}
    (h : t.store? store = some s) {store' inst funcidx : Nat} {i : NumberedInstance B} {binding : B}
    (h' : (BindingThread.mk (t.stores.set store (s.addInstance hostFunctions)) bindings).Registered
      store' inst i funcidx binding) :
    t.Registered store' inst i funcidx binding ∨
      store' = store ∧ inst = s.instances.length ∧ i = ⟨s.nextInstanceId, hostFunctions⟩ ∧
        hostFunctions[funcidx]? = some binding := by
  obtain ⟨s'', hs'', hinst, hbinding⟩ := h'
  rcases BindingThread.store?_set h hs'' with ⟨rfl, rfl⟩ | ⟨-, hsame⟩
  · rcases Nat.lt_trichotomy inst s.instances.length with hlt | rfl | hlt
    · rw [NumberingStore.addInstance, List.getElem?_append_left hlt] at hinst
      exact Or.inl ⟨s, h, hinst, hbinding⟩
    · rw [NumberingStore.addInstance, List.getElem?_concat_length] at hinst
      obtain rfl := Option.some.inj hinst
      exact Or.inr ⟨rfl, rfl, rfl, hbinding⟩
    · rw [NumberingStore.addInstance, List.getElem?_eq_none (by simp; omega)] at hinst
      cases hinst
  · exact Or.inl ⟨s'', hsame, hinst, hbinding⟩

theorem BindingThread.Registered.lt {inst funcidx : Nat} {i : NumberedInstance B} {binding : B}
    (h : t.Registered store inst i funcidx binding) (hs : t.store? store = some s) :
    inst < s.instances.length := by
  obtain ⟨s', hs', hinst, -⟩ := h
  rw [hs] at hs'
  obtain rfl := Option.some.inj hs'
  exact (List.getElem?_eq_some_iff.mp hinst).1

/-- A step that changes no binding is right; it keeps what is found if nothing more is registered. -/
theorem isolated_of_same {input : BindingStep B} {output : Option (HostBinding B)}
    (hfound : t.Found) (hinput : ∀ store inst funcidx, input ≠ .call store inst funcidx)
    (hmaterialize : ∀ store first rest, input ≠ .materialize store first rest)
    (hbindings : u.bindings = t.bindings)
    (hregistered : ∀ store inst i funcidx binding, u.Registered store inst i funcidx binding →
      t.Registered store inst i funcidx binding) :
    (Isolated ⟨t, input, output, u⟩ ↔ FreshNumber ⟨t, input, output, u⟩) ∧
      (FreshNumber ⟨t, input, output, u⟩ → u.Found) := by
  refine ⟨⟨fun _ store first rest s h => absurd h (hmaterialize store first rest), fun _ => ?_⟩, ?_⟩
  · refine ⟨fun store inst funcidx h => absurd h (hinput store inst funcidx), ?_⟩
    intro store inst i funcidx binding _
    exact congrFun (congrFun hbindings _) _
  · intro _ store inst i funcidx binding h
    rw [hbindings]
    exact hfound store inst i funcidx binding (hregistered store inst i funcidx binding h)

/-- The new instance takes the number of a living one exactly when a binding is overwritten. -/
theorem isolated_materialize {first : B} {rest : List B} {output : Option (HostBinding B)}
    (hfound : t.Found) (hs : t.store? store = some s)
    (hstores : u.stores = t.stores.set store (s.addInstance (first :: rest)))
    (hbindings : u.bindings = registerHostBindings t.bindings s.nextInstanceId
      ((first :: rest).map fun binding => ⟨store, s.instances.length, binding⟩)) :
    (Isolated ⟨t, .materialize store first rest, output, u⟩ ↔
        FreshNumber ⟨t, .materialize store first rest, output, u⟩) ∧
      (FreshNumber ⟨t, .materialize store first rest, output, u⟩ → u.Found) := by
  have hother : ∀ {id : BitVec 32} {funcidx : Nat}, id ≠ s.nextInstanceId →
      u.bindings id funcidx = t.bindings id funcidx := by
    intro id funcidx hne
    rw [hbindings, registerHostBindings, if_neg hne]
  refine ⟨⟨?_, ?_⟩, ?_⟩
  · intro hisolated store' first' rest' s' hinput hs' store'' inst i funcidx binding h heq
    cases hinput
    obtain rfl : s = s' := Option.some.inj (hs.symm.trans hs')
    -- the first function of the living instance is overwritten
    obtain ⟨s'', hs'', hinst, hbinding⟩ := h
    obtain ⟨b, hb⟩ : ∃ b, i.hostFunctions[0]? = some b := by
      obtain ⟨hlt, -⟩ := List.getElem?_eq_some_iff.mp hbinding
      exact ⟨_, List.getElem?_eq_getElem (by omega)⟩
    have hregistered : t.Registered store'' inst i 0 b := ⟨s'', hs'', hinst, hb⟩
    have hkept : u.bindings i.instanceId 0 = t.bindings i.instanceId 0 :=
      hisolated.kept store'' inst i 0 b hregistered
    rw [hfound _ _ _ _ _ hregistered, hbindings, registerHostBindings, if_pos heq] at hkept
    cases hkept
    exact Nat.lt_irrefl _ (hregistered.lt hs)
  · intro hfresh
    refine ⟨fun store' inst funcidx h => (by cases h), ?_⟩
    intro store' inst i funcidx binding h
    exact hother (hfresh store first rest s rfl hs store' inst i funcidx binding h)
  · intro hfresh store' inst i funcidx binding h
    obtain ⟨stores, bindings⟩ := u
    dsimp only at hstores hbindings
    subst hstores
    rcases BindingThread.registered_addInstance hs h with hold | ⟨rfl, rfl, rfl, hbinding⟩
    · rw [hother (hfresh store first rest s rfl hs store' inst i funcidx binding hold)]
      exact hfound store' inst i funcidx binding hold
    · dsimp only
      rw [hbindings, registerHostBindings, if_pos rfl, List.getElem?_map, hbinding]
      rfl

theorem isolated_step {input : BindingStep B} {output : Option (HostBinding B)}
    (hfound : t.Found) (hstep : t.step input = some (output, u)) :
    (Isolated ⟨t, input, output, u⟩ ↔ FreshNumber ⟨t, input, output, u⟩) ∧
      (FreshNumber ⟨t, input, output, u⟩ → u.Found) := by
  cases input with
  | newStore =>
      cases hstep
      refine isolated_of_same hfound (fun _ _ _ h => by cases h) (fun _ _ _ h => by cases h) rfl ?_
      rintro store inst i funcidx binding ⟨s, hs, hinst, hbinding⟩
      obtain ⟨hget, halive⟩ := BindingThread.store?_eq_some.mp hs
      dsimp only at hget
      rcases Nat.lt_trichotomy store t.stores.length with hlt | rfl | hlt
      · rw [List.getElem?_append_left hlt] at hget
        exact ⟨s, BindingThread.store?_eq_some.mpr ⟨hget, halive⟩, hinst, hbinding⟩
      · rw [List.getElem?_concat_length] at hget
        obtain rfl := Option.some.inj hget
        cases hinst
      · rw [List.getElem?_eq_none (by simp; omega)] at hget
        cases hget
  | instantiate store =>
      obtain ⟨s, hs, hrest⟩ := Option.bind_eq_some_iff.mp hstep
      cases hrest
      refine isolated_of_same hfound (fun _ _ _ h => by cases h) (fun _ _ _ h => by cases h) rfl ?_
      intro store' inst i funcidx binding h
      rcases BindingThread.registered_addInstance hs h with hold | ⟨-, -, -, hbinding⟩
      · exact hold
      · cases hbinding
  | materialize store first rest =>
      obtain ⟨s, hs, hrest⟩ := Option.bind_eq_some_iff.mp hstep
      cases hrest
      exact isolated_materialize hfound hs rfl rfl
  | call store inst funcidx =>
      obtain ⟨s, hs, hrest⟩ := Option.bind_eq_some_iff.mp hstep
      obtain ⟨i, hi, hrest⟩ := Option.bind_eq_some_iff.mp hrest
      obtain ⟨binding, hbinding, hrest⟩ := Option.bind_eq_some_iff.mp hrest
      cases hrest
      have hregistered : t.Registered store inst i funcidx binding := ⟨s, hs, hi, hbinding⟩
      have hisolated : Isolated ⟨t, .call store inst funcidx, t.bindings i.instanceId funcidx, t⟩ := by
        refine ⟨?_, fun _ _ _ _ _ _ => rfl⟩
        intro store' inst' funcidx' hinput
        cases hinput
        exact ⟨i, binding, hregistered, hfound _ _ _ _ _ hregistered⟩
      refine ⟨⟨fun _ _ _ _ _ h => ?_, fun _ => hisolated⟩, fun _ => hfound⟩
      cases h
  | dropStore store =>
      obtain ⟨s, hs, hrest⟩ := Option.bind_eq_some_iff.mp hstep
      cases hrest
      refine isolated_of_same hfound (fun _ _ _ h => by cases h) (fun _ _ _ h => by cases h) rfl ?_
      rintro store' inst i funcidx binding ⟨s', hs', hinst, hbinding⟩
      rcases BindingThread.store?_set hs hs' with ⟨rfl, rfl⟩ | ⟨-, hsame⟩
      · exact absurd (BindingThread.store?_eq_some.mp hs').2 Bool.false_ne_true
      · exact ⟨s', hsame, hinst, hbinding⟩

/-- Over a whole run with any number of stores, every call runs its own binding and no binding in use
is overwritten, exactly when the numbers given to instances of host functions are fresh. -/
theorem isolated_iff {inputs : List (BindingStep B)} {run : List (BindingMoment B)}
    (hrun : Lib.moments BindingThread.step BindingThread.empty inputs = some run) :
    Lib.EachMoment (fun _ => Isolated) run ↔ ∀ now ∈ run, FreshNumber now := by
  refine Lib.eachMoment_iff (fun _ => BindingThread.Found) ?_ ?_ hrun
  · intro _ t input output u hfound hstep
    exact isolated_step hfound hstep
  · rintro store inst i funcidx binding ⟨s, hs, -⟩
    cases hs

end steps

/-- Each of two stores makes an instance of one host function; then the first is called. -/
private def twoStores : List (BindingStep Bool) :=
  [.newStore, .newStore, .materialize 0 false [], .materialize 1 true [], .call 0 0 0]

/-- The call through the first store runs the binding of the second. -/
theorem second_store_runs :
    ∃ run, Lib.moments BindingThread.step BindingThread.empty twoStores = some run ∧
      (run.map (·.output)).getLast? = some (some ⟨1, 0, true⟩) ∧
      ¬ Lib.EachMoment (fun _ => Isolated) run := by
  refine ⟨_, rfl, rfl, ?_⟩
  intro hisolated
  obtain ⟨i, binding, -, houtput⟩ := (hisolated [_, _, _, _] _ [] rfl).runs_own 0 0 0 rfl
  cases houtput

/-- One store after the other. -/
private def oneStoreAtATime : List (BindingStep Bool) :=
  [.newStore, .materialize 0 false [], .call 0 0 0, .dropStore 0, .newStore, .materialize 1 true [],
    .call 1 0 0]

theorem isolated_iff_in_turn :
    ∃ run, Lib.moments BindingThread.step BindingThread.empty oneStoreAtATime = some run ∧
      Lib.EachMoment (fun _ => Isolated) run := by
  refine ⟨_, rfl, (@isolated_iff Bool oneStoreAtATime _ rfl).mpr ?_⟩
  intro now hmem
  simp only [List.mem_cons, List.not_mem_nil, or_false] at hmem
  rcases hmem with rfl | rfl | rfl | rfl | rfl | rfl | rfl
  all_goals
    intro store first rest s hinput hs store' inst i funcidx binding hregistered
    cases hinput
  all_goals
    obtain ⟨s', hs', hinst, hbinding⟩ := hregistered
    obtain _ | _ | store' := store'
    · cases hs' <;> cases hinst
    · cases hs' <;> cases hinst
    · cases hs'

end Telomere.Component
