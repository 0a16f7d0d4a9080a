import Mathlib.Data.List.ReduceOption
import Telomere.Component.Variance

/-!
# Interned names

The names of components and instances are numbered as they turn up. The numbers depend on the order
in which that happens; what the walk along the sorted entries accepts does not: it accepts what the
comparison by name accepts.
-/

namespace Telomere.Component

structure NameInterner where
  inline : List (Option (String × Nat))
  overflow : List (String × Nat)
  nextId : Nat
deriving DecidableEq, Repr

namespace NameInterner

def empty : NameInterner where
  inline := List.replicate 8 none
  overflow := []
  nextId := 0

def intern (n : NameInterner) (value : String) : Nat × NameInterner :=
  match n.inline.reduceOption.lookup value with
  | some id => (id, n)
  | none =>
      match n.overflow.lookup value with
      | some id => (id, n)
      | none =>
          let id := n.nextId
          match n.inline.findIdx? (·.isNone) with
          | some slot =>
              (id, { n with inline := n.inline.set slot (some (value, id)), nextId := id + 1 })
          | none => (id, { n with overflow := n.overflow ++ [(value, id)], nextId := id + 1 })

def internAll (n : NameInterner) (names : List String) : NameInterner :=
  names.foldl (fun n name => (n.intern name).2) n

def Has (n : NameInterner) (name : String) (id : Nat) : Prop :=
  some (name, id) ∈ n.inline ∨ (name, id) ∈ n.overflow

structure Numbered (n : NameInterner) : Prop where
  id_unique : ∀ {name id id'}, n.Has name id → n.Has name id' → id = id'
  name_unique : ∀ {name name' id}, n.Has name id → n.Has name' id → name = name'
  id_lt : ∀ {name id}, n.Has name id → id < n.nextId

theorem numbered_empty : empty.Numbered := by
  have hnone : ∀ name id, ¬ empty.Has name id := by
    intro name id h
    simp [Has, empty] at h
  exact ⟨fun h => absurd h (hnone _ _), fun h => absurd h (hnone _ _), fun h => absurd h (hnone _ _)⟩

theorem lookup_some_mem {entries : List (String × Nat)} {name : String} {id : Nat}
    (h : entries.lookup name = some id) : (name, id) ∈ entries := by
  obtain ⟨before, after, rfl, -⟩ := List.lookup_eq_some_iff.mp h
  simp

theorem mem_set_free {slots : List (Option (String × Nat))} {slot : Nat} {entry new : String × Nat}
    (hfree : slots[slot]? = some none) :
    some entry ∈ slots.set slot (some new) ↔ some entry ∈ slots ∨ entry = new := by
  obtain ⟨hlt, hnone⟩ := List.getElem?_eq_some_iff.mp hfree
  constructor
  · intro h
    rcases List.mem_or_eq_of_mem_set h with h | h
    · exact Or.inl h
    · exact Or.inr (Option.some.inj h)
  · rintro (h | rfl)
    · obtain ⟨i, hi, hentry⟩ := List.mem_iff_getElem.mp h
      refine List.mem_iff_getElem.mpr ⟨i, by simpa using hi, ?_⟩
      have hne : slot ≠ i := by
        rintro rfl
        rw [hnone] at hentry
        cases hentry
      rw [List.getElem_set_ne hne]
      exact hentry
    · exact List.mem_set hlt _

theorem intern_cases (n : NameInterner) (value : String) :
    (n.Has value (n.intern value).1 ∧ (n.intern value).2 = n) ∨
      ((∀ id, ¬ n.Has value id) ∧ (n.intern value).1 = n.nextId ∧
        (n.intern value).2.nextId = n.nextId + 1 ∧
        ∀ name id, (n.intern value).2.Has name id ↔
          n.Has name id ∨ (name, id) = (value, n.nextId)) := by
  unfold intern
  split
  · next id h => exact Or.inl ⟨Or.inl (List.reduceOption_mem_iff.mp (lookup_some_mem h)), rfl⟩
  · next hinline =>
    split
    · next id h => exact Or.inl ⟨Or.inr (lookup_some_mem h), rfl⟩
    · next hoverflow =>
      have hnew : ∀ id, ¬ n.Has value id := by
        rintro id (h | h)
        · have := List.lookup_eq_none_iff.mp hinline _ (List.reduceOption_mem_iff.mpr h)
          simp at this
        · have := List.lookup_eq_none_iff.mp hoverflow _ h
          simp at this
      split
      · next slot hslot =>
        obtain ⟨hlt, hfree, -⟩ := List.findIdx?_eq_some_iff_getElem.mp hslot
        refine Or.inr ⟨hnew, rfl, rfl, fun name id => ?_⟩
        have hnone : n.inline[slot]? = some none := by
          rw [List.getElem?_eq_getElem hlt, Option.isNone_iff_eq_none.mp hfree]
        simp only [Has, mem_set_free hnone]
        tauto
      · refine Or.inr ⟨hnew, rfl, rfl, fun name id => ?_⟩
        simp only [Has, List.mem_append, List.mem_singleton]
        tauto

section interned

variable {n : NameInterner}

theorem intern_has (n : NameInterner) (value : String) :
    (n.intern value).2.Has value (n.intern value).1 := by
  rcases n.intern_cases value with ⟨h, heq⟩ | ⟨-, hid, -, hhas⟩
  · rw [heq]
    exact h
  · rw [hid]
    exact (hhas value n.nextId).mpr (Or.inr rfl)

theorem Has.intern {name value : String} {id : Nat} (h : n.Has name id) :
    (n.intern value).2.Has name id := by
  rcases n.intern_cases value with ⟨-, heq⟩ | ⟨-, -, -, hhas⟩
  · rw [heq]
    exact h
  · exact (hhas name id).mpr (Or.inl h)

theorem Numbered.intern (h : n.Numbered) (value : String) : (n.intern value).2.Numbered := by
  rcases n.intern_cases value with ⟨-, heq⟩ | ⟨hnew, -, hnext, hhas⟩
  · rw [heq]
    exact h
  · refine ⟨?_, ?_, ?_⟩
    · intro name id id' hid hid'
      rcases (hhas _ _).mp hid with hold | heq <;> rcases (hhas _ _).mp hid' with hold' | heq'
      · exact h.id_unique hold hold'
      · rw [(Prod.mk.inj heq').1] at hold
        exact absurd hold (hnew id)
      · rw [(Prod.mk.inj heq).1] at hold'
        exact absurd hold' (hnew id')
      · rw [(Prod.mk.inj heq).2, (Prod.mk.inj heq').2]
    · intro name name' id hname hname'
      rcases (hhas _ _).mp hname with hname | heq <;> rcases (hhas _ _).mp hname' with hname' | heq'
      · exact h.name_unique hname hname'
      · have hlt := h.id_lt hname
        rw [(Prod.mk.inj heq').2] at hlt
        exact absurd hlt (lt_irrefl _)
      · have hlt := h.id_lt hname'
        rw [(Prod.mk.inj heq).2] at hlt
        exact absurd hlt (lt_irrefl _)
      · rw [(Prod.mk.inj heq).1, (Prod.mk.inj heq').1]
    · intro name id hid
      rw [hnext]
      rcases (hhas _ _).mp hid with hid | heq
      · exact Nat.lt_succ_of_lt (h.id_lt hid)
      · rw [(Prod.mk.inj heq).2]
        exact Nat.lt_succ_self _

theorem Has.internAll {name : String} {id : Nat} (h : n.Has name id) (names : List String) :
    (n.internAll names).Has name id := by
  induction names generalizing n with
  | nil => exact h
  | cons value names ih => exact ih h.intern

theorem Numbered.internAll (h : n.Numbered) (names : List String) : (n.internAll names).Numbered := by
  induction names generalizing n with
  | nil => exact h
  | cons value names ih => exact ih (h.intern value)

theorem internAll_has {name : String} {names : List String} (hmem : name ∈ names) :
    ∃ id, (n.internAll names).Has name id := by
  induction names generalizing n with
  | nil => cases hmem
  | cons value names ih =>
      rcases List.mem_cons.mp hmem with rfl | hmem
      · exact ⟨_, (intern_has n name).internAll names⟩
      · exact ih hmem

theorem Numbered.intern_fst (h : n.Numbered) {name : String} {id : Nat} (hid : n.Has name id) :
    (n.intern name).1 = id :=
  (h.intern name).id_unique (intern_has n name) hid.intern

end interned

/-- The numbers of the names that have been interned, as part of a numbering of all names. -/
theorem exists_numbering (names : List String) :
    ∃ index : String ↪ Nat, ∀ name ∈ names,
      ((empty.internAll names).intern name).1 = index name := by
  set n := empty.internAll names with hn
  have hnumbered : n.Numbered := numbered_empty.internAll names
  have hhas : ∀ name ∈ names, n.Has name (n.intern name).1 := by
    intro name hmem
    obtain ⟨id, hid⟩ := internAll_has (n := empty) hmem
    rw [hnumbered.intern_fst hid]
    exact hid
  have hlt : ∀ name ∈ names, (n.intern name).1 < n.nextId := fun name hmem =>
    hnumbered.id_lt (hhas name hmem)
  -- the others are numbered behind them
  refine ⟨⟨fun name => if name ∈ names then (n.intern name).1
    else n.nextId + Encodable.encode (name.toList.map Char.toNat), ?_⟩, ?_⟩
  · intro name name' heq
    dsimp only at heq
    by_cases hmem : name ∈ names <;> by_cases hmem' : name' ∈ names
    · rw [if_pos hmem, if_pos hmem'] at heq
      refine hnumbered.name_unique (hhas name hmem) ?_
      rw [heq]
      exact hhas name' hmem'
    · rw [if_pos hmem, if_neg hmem'] at heq
      have := hlt name hmem
      omega
    · rw [if_neg hmem, if_pos hmem'] at heq
      have := hlt name' hmem'
      omega
    · rw [if_neg hmem, if_neg hmem'] at heq
      have hcodes := List.map_injective_iff.mpr (fun _ _ => Char.toNat_inj.mp)
        (Encodable.encode_injective (Nat.add_left_cancel heq))
      exact String.toList_inj.mp hcodes
  · intro name hmem
    exact (if_pos hmem).symm

end NameInterner

section versions

variable {M : Type} [DecidableEq M]

def Ty.names : Ty M → List String
  | .component ty => ty.imports.map (·.1) ++ ty.exports.map (·.1)
  | .instance ty => ty.exports.map (·.1)
  | _ => []

/-- The number of a name once some names have been interned in some order, and then the names of all
types that were not among them. -/
def TypeArena.interned (a : TypeArena M) (order : List String) (name : String) : Nat :=
  ((NameInterner.empty.internAll (order ++ a.types.flatMap Ty.names)).intern name).1

theorem surface_congr {α : Type} {intern intern' : String → Nat} {entries : List (String × α)}
    (h : ∀ name ∈ entries.map (·.1), intern name = intern' name) :
    surface intern entries = surface intern' entries := by
  have hmap : entries.map (fun entry => (intern entry.1, entry.2)) =
      entries.map fun entry => (intern' entry.1, entry.2) := by
    refine List.map_congr_left fun entry hmem => ?_
    rw [h entry.1 (List.mem_map_of_mem hmem)]
  rw [surface, surface, hmap]

section pair

variable {a : TypeArena M} {below : Checks M} {intern intern' : String → Nat}
  {childId parentId : TypeId}

theorem assertComponentTypeIds_congr {child parent : ComponentType M}
    (hchild : a.get childId = some (.component child))
    (hparent : a.get parentId = some (.component parent))
    (h : ∀ name ∈ (Ty.component child).names ++ (Ty.component parent).names,
      intern name = intern' name) :
    assertComponentTypeIds a.types below intern childId parentId =
      assertComponentTypeIds a.types below intern' childId parentId := by
  have hmem : ∀ name, name ∈ child.imports.map (·.1) ∨ name ∈ child.exports.map (·.1) ∨
      name ∈ parent.imports.map (·.1) ∨ name ∈ parent.exports.map (·.1) →
      intern name = intern' name := by
    intro name hname
    refine h name ?_
    simp only [Ty.names, List.mem_append]
    tauto
  unfold assertComponentTypeIds
  rw [getComponentType_eq_ok.mpr hchild, getComponentType_eq_ok.mpr hparent]
  simp only [Lib.ok_bind]
  rw [surface_congr (fun name hname => hmem name (Or.inl hname)),
    surface_congr (fun name hname => hmem name (Or.inr (Or.inr (Or.inl hname)))),
    surface_congr (fun name hname => hmem name (Or.inr (Or.inr (Or.inr hname)))),
    surface_congr (fun name hname => hmem name (Or.inr (Or.inl hname)))]

theorem assertInstanceTypeIds_congr {child parent : InstanceType M}
    (hchild : a.get childId = some (.instance child))
    (hparent : a.get parentId = some (.instance parent))
    (h : ∀ name ∈ (Ty.instance child).names ++ (Ty.instance parent).names,
      intern name = intern' name) :
    assertInstanceTypeIds a.types below intern childId parentId =
      assertInstanceTypeIds a.types below intern' childId parentId := by
  unfold assertInstanceTypeIds
  rw [getInstanceType_eq_ok.mpr hchild, getInstanceType_eq_ok.mpr hparent]
  simp only [Lib.ok_bind]
  rw [surface_congr (fun name hname => h name (List.mem_append_right _ hname)),
    surface_congr (fun name hname => h name (List.mem_append_left _ hname))]

theorem assertComponentTypeIds_iff {index : String ↪ Nat} {child parent : ComponentType M}
    (hchild : a.get childId = some (.component child))
    (hparent : a.get parentId = some (.component parent)) :
    assertComponentTypeIds a.types below index childId parentId = .ok () ↔
      child.assertSubtypeOf a.types below parent = .ok () := by
  rw [assertComponentTypeIds_eq_ok, ComponentType.assertSubtypeOf_eq_ok
    (TypeArena.namesNodup hchild) (TypeArena.namesNodup hparent)]
  constructor
  · rintro ⟨child', parent', hchild', hparent', h⟩
    obtain rfl : child = child' := by simpa using hchild.symm.trans hchild'
    obtain rfl : parent = parent' := by simpa using hparent.symm.trans hparent'
    exact h
  · exact fun h => ⟨child, parent, hchild, hparent, h⟩

theorem assertInstanceTypeIds_iff {index : String ↪ Nat} {child parent : InstanceType M}
    (hchild : a.get childId = some (.instance child))
    (hparent : a.get parentId = some (.instance parent)) :
    assertInstanceTypeIds a.types below index childId parentId = .ok () ↔
      child.assertSubtypeOf a.types below parent = .ok () := by
  rw [assertInstanceTypeIds_eq_ok, InstanceType.assertSubtypeOf_eq_ok
    (TypeArena.namesNodup hchild) (TypeArena.namesNodup hparent)]
  constructor
  · rintro ⟨child', parent', hchild', hparent', h⟩
    obtain rfl : child = child' := by simpa using hchild.symm.trans hchild'
    obtain rfl : parent = parent' := by simpa using hparent.symm.trans hparent'
    exact h
  · exact fun h => ⟨child, parent, hchild, hparent, h⟩

end pair

omit [DecidableEq M] in
theorem TypeArena.exists_interned (a : TypeArena M) (order : List String) :
    ∃ index : String ↪ Nat, ∀ id ty, a.get id = some ty →
      ∀ name ∈ ty.names, a.interned order name = index name := by
  obtain ⟨index, hindex⟩ := NameInterner.exists_numbering (order ++ a.types.flatMap Ty.names)
  refine ⟨index, fun id ty hget name hname => hindex name ?_⟩
  exact List.mem_append_right _ (List.mem_flatMap.mpr ⟨ty, List.mem_of_getElem? hget, hname⟩)

/-- Whatever was interned before and in whatever order: the walk along the sorted entries and the
comparison by name accept the same pairs of components and the same pairs of instances. -/
theorem sorted_iff_named (a : TypeArena M) (order : List String) (depth : Nat)
    (childId parentId : TypeId) :
    (∀ child parent, a.get childId = some (.component child) →
      a.get parentId = some (.component parent) →
      ((checks a.types (a.interned order) (depth + 1)).componentIds childId parentId = .ok () ↔
        child.assertSubtypeOf a.types (checks a.types (a.interned order) depth) parent = .ok ())) ∧
    (∀ child parent, a.get childId = some (.instance child) →
      a.get parentId = some (.instance parent) →
      ((checks a.types (a.interned order) (depth + 1)).instanceIds childId parentId = .ok () ↔
        child.assertSubtypeOf a.types (checks a.types (a.interned order) depth) parent =
          .ok ())) := by
  obtain ⟨index, hindex⟩ := a.exists_interned order
  have hnames : ∀ x y, a.get childId = some x → a.get parentId = some y →
      ∀ name ∈ x.names ++ y.names, a.interned order name = index name := by
    intro x y hx hy name hname
    rcases List.mem_append.mp hname with hname | hname
    · exact hindex childId x hx name hname
    · exact hindex parentId y hy name hname
  constructor
  · intro child parent hchild hparent
    change assertComponentTypeIds a.types _ (a.interned order) childId parentId = .ok () ↔ _
    rw [assertComponentTypeIds_congr hchild hparent (hnames _ _ hchild hparent)]
    exact assertComponentTypeIds_iff hchild hparent
  · intro child parent hchild hparent
    change assertInstanceTypeIds a.types _ (a.interned order) childId parentId = .ok () ↔ _
    rw [assertInstanceTypeIds_congr hchild hparent (hnames _ _ hchild hparent)]
    exact assertInstanceTypeIds_iff hchild hparent

end versions

section samples

/-- A component with two exports, and one that promises the second only. -/
private def twoExports : TypeArena Empty where
  types := [.func ⟨[], [], none⟩, .component ⟨[], [("stop", .func 0), ("run", .func 0)]⟩,
    .component ⟨[], [("run", .func 0)]⟩]
  refs_lt := by
    intro id ty h
    match id, h with
    | 0, h => cases h; decide
    | 1, h => cases h; decide
    | 2, h => cases h; decide
  names_nodup := by
    intro ty h
    simp only [List.mem_cons, List.not_mem_nil, or_false] at h
    rcases h with rfl | rfl | rfl <;> simp [Ty.NamesNodup]
  generic_sub := by
    intro g h
    simp at h

/-- The names are interned against the order in which they are exported. -/
theorem sorted_iff_named_run :
    (checks twoExports.types (twoExports.interned ["run", "stop"]) 1).componentIds 1 2 = .ok () :=
  ((sorted_iff_named twoExports ["run", "stop"] 0 1 2).1 _ _ rfl rfl).mpr rfl

end samples

end Telomere.Component
