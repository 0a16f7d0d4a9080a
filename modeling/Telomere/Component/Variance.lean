import Mathlib.Logic.Embedding.Basic
import Mathlib.Logic.Equiv.List
import Telomere.Component.Subtypes
import Telomere.Component.Subtyping

/-!
# Variance of the subtype check

The check gets the names of a component right and compares the entries the wrong way round, imports
and exports alike. Two wrongs cancel: two components down it compares rightly again. Abstract
resources it takes for each other, whichever they are.
-/

namespace Telomere.Component

variable {M : Type}

section lookups

variable {types : List (Ty M)}

theorem getType_eq_ok {id : TypeId} {ty : Ty M} :
    getType types id = .ok ty ↔ types[id]? = some ty := by
  unfold getType
  split <;> simp_all

theorem getComponentType_eq_ok {id : TypeId} {ty : ComponentType M} :
    getComponentType types id = .ok ty ↔ types[id]? = some (.component ty) := by
  unfold getComponentType
  rw [Lib.bind_eq_ok]
  constructor
  · rintro ⟨ty', hget, hok⟩
    split at hok
    · rw [← Lib.pure_eq_ok.mp hok]
      exact getType_eq_ok.mp hget
    · cases hok
  · intro hget
    exact ⟨_, getType_eq_ok.mpr hget, rfl⟩

theorem getInstanceType_eq_ok {id : TypeId} {ty : InstanceType M} :
    getInstanceType types id = .ok ty ↔ types[id]? = some (.instance ty) := by
  unfold getInstanceType
  rw [Lib.bind_eq_ok]
  constructor
  · rintro ⟨ty', hget, hok⟩
    split at hok
    · rw [← Lib.pure_eq_ok.mp hok]
      exact getType_eq_ok.mp hget
    · cases hok
  · intro hget
    exact ⟨_, getType_eq_ok.mpr hget, rfl⟩

theorem getFuncType_eq_ok {id : TypeId} {ty : FuncType} :
    getFuncType types id = .ok ty ↔ types[id]? = some (.func ty) := by
  unfold getFuncType
  rw [Lib.bind_eq_ok]
  constructor
  · rintro ⟨ty', hget, hok⟩
    split at hok
    · rw [← Lib.pure_eq_ok.mp hok]
      exact getType_eq_ok.mp hget
    · cases hok
  · intro hget
    exact ⟨_, getType_eq_ok.mpr hget, rfl⟩

end lookups

/-- Below an odd number of components the check was made the other way round. -/
def Directed {α : Type} (R : α → α → Prop) : Bool → α → α → Prop
  | false, x, y => R x y
  | true, x, y => R y x

theorem Directed.mono {α : Type} {R Q : α → α → Prop} (himp : ∀ x y, R x y → Q x y) {odd : Bool}
    {x y : α} (h : Directed R odd x y) : Directed Q odd x y := by
  cases odd with
  | false => exact himp x y h
  | true => exact himp y x h

/-- Of what a check accepts both ways of comparing tell the same. -/
def Exact {α : Type} (check : α → α → Check)
    (compare : Bool → Bool → ResourceScope → ResourceScope → α → α → Prop) : Prop :=
  ∀ odd s t x y, Directed (fun x y => check x y = .ok ()) odd x y → Agreed compare odd s t x y

def Ty.Plain (x : Ty M) : Prop :=
  x.NamesNodup ∧ ∀ g, x = .generic g → g.bound = .sub

theorem TypeArena.plain {a : TypeArena M} {id : TypeId} {x : Ty M} (hget : a.get id = some x) :
    x.Plain :=
  ⟨TypeArena.namesNodup hget, fun _ heq => a.generic_sub _ (heq ▸ List.mem_of_getElem? hget)⟩

structure ExactChecks (a : TypeArena M) (below : Checks M) : Prop where
  typeIds : Exact below.typeIds (CompareId a)
  componentIds : Exact below.componentIds (CompareId a)
  instanceIds : Exact below.instanceIds (CompareId a)
  tys : ∀ odd s t x y, x.Plain → y.Plain →
    Directed (fun x y => below.tys x y = .ok ()) odd x y → Agreed (Compare a) odd s t x y

section values

variable {a : TypeArena M} {below : Checks M} {odd : Bool} {s t : ResourceScope}

theorem assertSubtypeOf_primitive {id : TypeId} {prim : PrimValType} :
    (ValType.type id).assertSubtypeOf a.types below (.primitive prim) = .ok () ↔
      ∃ x, a.get id = some x ∧ below.tys x (.defVal (.primitive prim)) = .ok () := by
  change (getType a.types id >>= fun x => below.tys x _) = .ok () ↔ _
  rw [Lib.bind_eq_ok]
  exact exists_congr fun x => and_congr_left fun _ => getType_eq_ok

theorem primitive_assertSubtypeOf {id : TypeId} {prim : PrimValType} :
    (ValType.primitive prim).assertSubtypeOf a.types below (.type id) = .ok () ↔
      ∃ y, a.get id = some y ∧ below.tys (.defVal (.primitive prim)) y = .ok () := by
  change (getType a.types id >>= fun y => below.tys _ y) = .ok () ↔ _
  rw [Lib.bind_eq_ok]
  exact exists_congr fun x => and_congr_left fun _ => getType_eq_ok

theorem plain_primitive (prim : PrimValType) : (Ty.defVal (.primitive prim) : Ty M).Plain :=
  ⟨trivial, fun _ h => by cases h⟩

theorem exact_val (hbelow : ExactChecks a below) :
    Exact (ValType.assertSubtypeOf a.types below) (ComparePart a) := by
  intro odd s t v w hok
  refine agreed_part fun x y hx hy => ?_
  cases v with
  | type id =>
      cases w with
      | type id' =>
          have hids := hbelow.typeIds odd s t id id' (by cases odd <;> exact hok)
          unfold Agreed at hids
          rwa [compareId_iff hx hy, compareId_iff hx hy] at hids
      | primitive prim =>
          obtain rfl := Option.some.inj hy
          refine hbelow.tys odd s t x _ (TypeArena.plain hx) (plain_primitive prim) ?_
          cases odd with
          | false =>
              have hok : (ValType.type id).assertSubtypeOf a.types below (.primitive prim) = .ok () :=
                hok
              obtain ⟨x', hx', hok⟩ := assertSubtypeOf_primitive.mp hok
              rw [Option.some.inj (hx.symm.trans hx')]
              exact hok
          | true =>
              have hok : (ValType.primitive prim).assertSubtypeOf a.types below (.type id) = .ok () :=
                hok
              obtain ⟨x', hx', hok⟩ := primitive_assertSubtypeOf.mp hok
              rw [Option.some.inj (hx.symm.trans hx')]
              exact hok
  | primitive prim =>
      obtain rfl := Option.some.inj hx
      cases w with
      | type id' =>
          refine hbelow.tys odd s t _ y (plain_primitive prim) (TypeArena.plain hy) ?_
          cases odd with
          | false =>
              have hok : (ValType.primitive prim).assertSubtypeOf a.types below (.type id') = .ok () :=
                hok
              obtain ⟨y', hy', hok⟩ := primitive_assertSubtypeOf.mp hok
              rw [Option.some.inj (hy.symm.trans hy')]
              exact hok
          | true =>
              have hok : (ValType.type id').assertSubtypeOf a.types below (.primitive prim) = .ok () :=
                hok
              obtain ⟨y', hy', hok⟩ := assertSubtypeOf_primitive.mp hok
              rw [Option.some.inj (hy.symm.trans hy')]
              exact hok
      | primitive prim' =>
          obtain rfl := Option.some.inj hy
          have heq : prim = prim' := by
            cases odd with
            | false =>
                have hok : require (prim = prim') "prim valtype mismatch" = .ok () := hok
                exact require_eq_ok.mp hok
            | true =>
                have hok : require (prim' = prim) "prim valtype mismatch" = .ok () := hok
                exact (require_eq_ok.mp hok).symm
          rw [heq]
          exact agreed_primitive prim'

/-- Two lists of parts of which those at one place are accepted. -/
def PartsAccepted (a : TypeArena M) (below : Checks M) (xs ys : List (Option ValType)) : Prop :=
  ∀ (i : Nat) v w, xs[i]? = some (some v) → ys[i]? = some (some w) →
    v.assertSubtypeOf a.types below w = .ok ()

theorem partsAccepted_map {α : Type} {xs ys : List α} {f : α → Option ValType}
    {check : α × α → Check} (hok : (xs.zip ys).forM check = .ok ())
    (hcheck : ∀ x y v w, f x = some v → f y = some w → check (x, y) = .ok () →
      v.assertSubtypeOf a.types below w = .ok ()) :
    PartsAccepted a below (xs.map f) (ys.map f) := by
  intro i v w hv hw
  rw [List.getElem?_map] at hv hw
  obtain ⟨x, hx, hfx⟩ := Option.map_eq_some_iff.mp hv
  obtain ⟨y, hy, hfy⟩ := Option.map_eq_some_iff.mp hw
  have hmem : (x, y) ∈ xs.zip ys := by
    refine List.mem_of_getElem? (i := i) ?_
    rw [List.getElem?_zip_eq_some]
    exact ⟨hx, hy⟩
  exact hcheck x y v w hfx hfy (Lib.forM_eq_ok.mp hok (x, y) hmem)

theorem map_eq_map_of_zip {α β : Type} {xs ys : List α} (f : α → β)
    (hlength : xs.length = ys.length) (h : ∀ p ∈ xs.zip ys, f p.1 = f p.2) : xs.map f = ys.map f := by
  refine List.ext_getElem (by simpa using hlength) fun i hi hi' => ?_
  rw [List.length_map] at hi hi'
  rw [List.getElem_map, List.getElem_map]
  refine h (xs[i], ys[i]) (List.mem_of_getElem? (i := i) ?_)
  rw [List.getElem?_zip_eq_some]
  exact ⟨List.getElem?_eq_getElem hi, List.getElem?_eq_getElem hi'⟩

theorem partsAccepted_append {xs ys xs' ys' : List (Option ValType)} (hlength : xs.length = ys.length)
    (h : PartsAccepted a below xs ys) (h' : PartsAccepted a below xs' ys') :
    PartsAccepted a below (xs ++ xs') (ys ++ ys') := by
  intro i v w hv hw
  rw [List.getElem?_append] at hv hw
  by_cases hi : i < xs.length
  · rw [if_pos hi] at hv
    rw [if_pos (hlength ▸ hi)] at hw
    exact h i v w hv hw
  · rw [if_neg hi] at hv
    rw [if_neg (hlength ▸ hi), ← hlength] at hw
    exact h' _ v w hv hw

theorem partsAccepted_singleton {v w : Option ValType}
    (h : ∀ v' w', v = some v' → w = some w' → v'.assertSubtypeOf a.types below w' = .ok ()) :
    PartsAccepted a below [v] [w] := by
  intro i v' w' hv hw
  cases i with
  | zero => exact h v' w' (Option.some.inj hv) (Option.some.inj hw)
  | succ i => cases hv

/-- Two values or functions that are made of the same, with accepted parts. -/
def NodeAccepted (a : TypeArena M) (below : Checks M) (x y : Ty M) : Prop :=
  ∃ head, x.head = some head ∧ y.head = some head ∧ PartsAccepted a below x.parts y.parts

theorem defVal_accepted {x y : DefValType} (hok : x.assertSubtypeOf a.types below y = .ok ()) :
    NodeAccepted a below (.defVal x) (.defVal y) := by
  suffices h : x.head = y.head ∧ PartsAccepted a below x.parts y.parts from
    ⟨y.head, congrArg some h.1, rfl, h.2⟩
  have hnone : PartsAccepted a below [] [] := fun _ _ _ hv _ => by cases hv
  cases x <;> cases y <;> try cases hok
  case primitive.primitive => exact ⟨congrArg Head.primitive (require_eq_ok.mp hok), hnone⟩
  case record.record fields fields' =>
    obtain ⟨_, hlength, hok⟩ := Lib.bind_eq_ok.mp hok
    refine ⟨congrArg Head.record (map_eq_map_of_zip _ (require_eq_ok.mp hlength) fun p hp => ?_),
      partsAccepted_map hok fun field field' v w hv hw hok => ?_⟩
    · obtain ⟨_, hlabel, -⟩ := Lib.bind_eq_ok.mp (Lib.forM_eq_ok.mp hok p hp)
      exact require_eq_ok.mp hlabel
    · obtain ⟨_, -, hok⟩ := Lib.bind_eq_ok.mp hok
      rw [← Option.some.inj hv, ← Option.some.inj hw]
      exact hok
  case variant.variant cases cases' =>
    obtain ⟨_, hlength, hok⟩ := Lib.bind_eq_ok.mp hok
    refine ⟨congrArg Head.variant (map_eq_map_of_zip _ (require_eq_ok.mp hlength) fun p hp => ?_),
      partsAccepted_map hok fun case case' v w hv hw hok => ?_⟩
    · obtain ⟨_, hlabel, hok⟩ := Lib.bind_eq_ok.mp (Lib.forM_eq_ok.mp hok p hp)
      refine Prod.ext (require_eq_ok.mp hlabel) ?_
      revert hok
      cases p.1.ty <;> cases p.2.ty <;> intro hok <;> first | rfl | cases hok
    · obtain ⟨_, -, hok⟩ := Lib.bind_eq_ok.mp hok
      rw [hv, hw] at hok
      exact hok
  case flags.flags =>
    obtain ⟨_, -, hok⟩ := Lib.bind_eq_ok.mp hok
    exact ⟨congrArg Head.flags (require_eq_ok.mp hok), hnone⟩
  case list.list =>
    obtain ⟨_, helem, hlen⟩ := Lib.bind_eq_ok.mp hok
    refine ⟨congrArg Head.list (require_eq_ok.mp hlen), partsAccepted_singleton ?_⟩
    rintro _ _ ⟨⟩ ⟨⟩
    exact helem
  case own.own =>
    refine ⟨rfl, partsAccepted_singleton ?_⟩
    rintro _ _ ⟨⟩ ⟨⟩
    exact hok
  case borrow.borrow =>
    refine ⟨rfl, partsAccepted_singleton ?_⟩
    rintro _ _ ⟨⟩ ⟨⟩
    exact hok

theorem func_accepted {x y : FuncType} (hok : x.assertSubtypeOf a.types below y = .ok ()) :
    NodeAccepted a below (.func x : Ty M) (.func y) := by
  obtain ⟨_, hlength, hok⟩ := Lib.bind_eq_ok.mp hok
  obtain ⟨_, -, hok⟩ := Lib.bind_eq_ok.mp hok
  obtain ⟨_, hparams, hok⟩ := Lib.bind_eq_ok.mp hok
  have hlength := require_eq_ok.mp hlength
  have hresult : x.result.isSome = y.result.isSome := by
    revert hok
    cases x.result <;> cases y.result <;> intro hok <;> first | rfl | cases hok
  refine ⟨.func y.params.length y.result.isSome, ?_, rfl, partsAccepted_append ?_ ?_ ?_⟩
  · change some (Head.func x.params.length x.result.isSome) = _
    rw [hlength, hresult]
  · rw [List.length_map, List.length_map, hlength]
  · refine partsAccepted_map hparams fun v w v' w' hv hw hok => ?_
    rw [← Option.some.inj hv, ← Option.some.inj hw]
    exact hok
  · refine partsAccepted_singleton fun v w hv hw => ?_
    rw [hv, hw] at hok
    exact hok

theorem agreed_of_node (hbelow : ExactChecks a below) {x y : Ty M}
    (h : Directed (NodeAccepted a below) odd x y) : Agreed (Compare a) odd s t x y := by
  have hval := exact_val hbelow
  cases odd with
  | false =>
      obtain ⟨head, hx, hy, hparts⟩ := h
      exact agreed_node hx hy fun i v w hv hw => hval false s t v w (hparts i v w hv hw)
  | true =>
      obtain ⟨head, hy, hx, hparts⟩ := h
      exact agreed_node hx hy fun i v w hv hw => hval true s t v w (hparts i w v hw hv)

end values

/-! ## Components and instances -/

theorem surface_mem {α : Type} {intern : String ↪ Nat} {entries : List (String × α)} {name : String}
    {x : α} : (intern name, x) ∈ surface intern entries ↔ (name, x) ∈ entries := by
  unfold surface
  rw [List.mem_insertionSort, List.mem_map]
  constructor
  · rintro ⟨⟨name', x'⟩, hmem, heq⟩
    obtain ⟨hname, rfl⟩ := Prod.mk.inj heq
    obtain rfl := intern.injective hname
    exact hmem
  · intro hmem
    exact ⟨(name, x), hmem, rfl⟩

theorem surface_sorted {α : Type} (intern : String ↪ Nat) {entries : List (String × α)}
    (hnodup : (entries.map (·.1)).Nodup) : Lib.StrictlySorted (surface intern entries) := by
  have hsorted : (surface intern entries).Pairwise fun x y => x.1 ≤ y.1 :=
    List.pairwise_insertionSort _ _
  have hkeys : ((surface intern entries).map (·.1)).Nodup := by
    have hperm : (surface intern entries).Perm (entries.map fun e => (intern e.1, e.2)) :=
      List.perm_insertionSort _ _
    rw [(hperm.map _).nodup_iff, List.map_map]
    have hmap := hnodup.map intern.injective
    rwa [List.map_map] at hmap
  rw [List.Nodup, List.pairwise_map] at hkeys
  exact (hsorted.and hkeys).imp fun h => Nat.lt_of_le_of_ne h.1 h.2

theorem matched_surface {α : Type} {intern : String ↪ Nat} {check : α → α → Check}
    {entries partners : List (String × α)} :
    Lib.Matched check (surface intern entries) (surface intern partners) ↔
      Lib.Matched check entries partners := by
  constructor
  · intro h name x hmem
    obtain ⟨y, hy, hcheck⟩ := h (intern name) x (surface_mem.mpr hmem)
    exact ⟨y, surface_mem.mp hy, hcheck⟩
  · intro h key x hmem
    have hmem' := hmem
    unfold surface at hmem'
    rw [List.mem_insertionSort, List.mem_map] at hmem'
    obtain ⟨⟨name, x'⟩, -, heq⟩ := hmem'
    obtain ⟨rfl, rfl⟩ := Prod.mk.inj heq
    obtain ⟨y, hy, hcheck⟩ := h name x' (surface_mem.mp hmem)
    exact ⟨y, surface_mem.mpr hy, hcheck⟩

section accepted

variable [DecidableEq M] {types : List (Ty M)} {below : Checks M} {intern : String ↪ Nat}

/-- Both versions of the check find partners by name and compare with them. -/
structure ComponentMatched (types : List (Ty M)) (below : Checks M)
    (child parent : ComponentType M) : Prop where
  imports : Lib.Matched (assertImports types below) child.imports parent.imports
  exports : Lib.Matched (ExportType.assertSubtypeOf types below) parent.exports child.exports

def InstanceMatched (types : List (Ty M)) (below : Checks M) (child parent : InstanceType M) :
    Prop :=
  Lib.Matched (fun promised own => own.assertSubtypeOf types below promised) parent.exports
    child.exports

theorem ComponentType.assertSubtypeOf_eq_ok {child parent : ComponentType M}
    (hchild : (Ty.component child).NamesNodup) (hparent : (Ty.component parent).NamesNodup) :
    child.assertSubtypeOf types below parent = .ok () ↔
      ComponentMatched types below child parent := by
  simp only [ComponentType.assertSubtypeOf, Lib.bind_eq_ok,
    Lib.matchNamed_eq_ok hparent.1, Lib.matchNamed_eq_ok hchild.2]
  constructor
  · rintro ⟨_, -, _, himports, _, -, hexports⟩
    exact ⟨himports, hexports⟩
  · rintro ⟨himports, hexports⟩
    exact ⟨(), require_eq_ok.mpr (himports.length_le hchild.1), (), himports, (),
      require_eq_ok.mpr (hexports.length_le hparent.2), hexports⟩

theorem InstanceType.assertSubtypeOf_eq_ok {child parent : InstanceType M}
    (hchild : (Ty.instance child).NamesNodup) (hparent : (Ty.instance parent).NamesNodup) :
    child.assertSubtypeOf types below parent = .ok () ↔
      InstanceMatched types below child parent := by
  simp only [InstanceType.assertSubtypeOf, Lib.bind_eq_ok,
    Lib.matchNamed_eq_ok hchild]
  constructor
  · rintro ⟨_, -, hexports⟩
    exact hexports
  · intro hexports
    exact ⟨(), require_eq_ok.mpr (hexports.length_le hparent), hexports⟩

end accepted

section indices

variable [DecidableEq M] {a : TypeArena M} {below : Checks M} {intern : String ↪ Nat}

theorem assertComponentTypeIds_eq_ok {childId parentId : TypeId} :
    assertComponentTypeIds a.types below intern childId parentId = .ok () ↔
      ∃ child parent, a.types[childId]? = some (.component child) ∧
        a.types[parentId]? = some (.component parent) ∧
        ComponentMatched a.types below child parent := by
  simp only [assertComponentTypeIds, Lib.bind_eq_ok, getComponentType_eq_ok]
  constructor
  · rintro ⟨child, hchild, parent, hparent, _, -, _, himports, _, -, hexports⟩
    have hnames := TypeArena.namesNodup hchild
    have hnames' := TypeArena.namesNodup hparent
    refine ⟨child, parent, hchild, hparent, ?_, ?_⟩
    · exact matched_surface.mp ((Lib.matchSorted_eq_ok (surface_sorted intern hnames.1)
        (surface_sorted intern hnames'.1)).mp himports)
    · exact matched_surface.mp ((Lib.matchSorted_eq_ok (surface_sorted intern hnames'.2)
        (surface_sorted intern hnames.2)).mp hexports)
  · rintro ⟨child, parent, hchild, hparent, himports, hexports⟩
    have hnames := TypeArena.namesNodup hchild
    have hnames' := TypeArena.namesNodup hparent
    refine ⟨child, hchild, parent, hparent, (),
      require_eq_ok.mpr (himports.length_le hnames.1), (), ?_, (),
      require_eq_ok.mpr (hexports.length_le hnames'.2), ?_⟩
    · exact (Lib.matchSorted_eq_ok (surface_sorted intern hnames.1)
        (surface_sorted intern hnames'.1)).mpr (matched_surface.mpr himports)
    · exact (Lib.matchSorted_eq_ok (surface_sorted intern hnames'.2)
        (surface_sorted intern hnames.2)).mpr (matched_surface.mpr hexports)

theorem assertInstanceTypeIds_eq_ok {childId parentId : TypeId} :
    assertInstanceTypeIds a.types below intern childId parentId = .ok () ↔
      ∃ child parent, a.types[childId]? = some (.instance child) ∧
        a.types[parentId]? = some (.instance parent) ∧
        InstanceMatched a.types below child parent := by
  simp only [assertInstanceTypeIds, Lib.bind_eq_ok, getInstanceType_eq_ok]
  constructor
  · rintro ⟨child, hchild, parent, hparent, _, -, hexports⟩
    refine ⟨child, parent, hchild, hparent, ?_⟩
    exact matched_surface.mp ((Lib.matchSorted_eq_ok
      (surface_sorted intern (TypeArena.namesNodup hparent))
      (surface_sorted intern (TypeArena.namesNodup hchild))).mp hexports)
  · rintro ⟨child, parent, hchild, hparent, hexports⟩
    have hmatched : Lib.Matched (fun promised own => own.assertSubtypeOf a.types below promised)
      parent.exports child.exports := hexports
    refine ⟨child, hchild, parent, hparent, (),
      require_eq_ok.mpr (hmatched.length_le (TypeArena.namesNodup hparent)), ?_⟩
    exact (Lib.matchSorted_eq_ok (surface_sorted intern (TypeArena.namesNodup hparent))
      (surface_sorted intern (TypeArena.namesNodup hchild))).mpr (matched_surface.mpr hexports)

end indices

section exactness

variable [DecidableEq M] {a : TypeArena M} {intern : String ↪ Nat} {below : Checks M} {odd : Bool}
  {s t : ResourceScope}

theorem exact_imports (hbelow : ExactChecks a below) :
    Exact (assertImports a.types below) (CompareImport a) := by
  intro odd s t given need hok
  refine agreed_import ?_
  rintro id id' g g' x y rfl rfl
  refine hbelow.typeIds odd s t x y ?_
  cases odd <;> exact hok

theorem exact_funcs (hbelow : ExactChecks a below) {own promised : TypeId}
    (hok : Directed (fun x y => (ExportType.func x).assertSubtypeOf a.types below (.func y) = .ok ())
      odd own promised) : Agreed (CompareId a) odd s t own promised := by
  have hnode : ∀ x y, (ExportType.func x).assertSubtypeOf a.types below (.func y) = .ok () →
      ∃ f g, a.get x = some (.func f) ∧ a.get y = some (.func g) ∧
        NodeAccepted a below (.func f) (.func g) := by
    intro x y hok
    obtain ⟨f, hf, hok⟩ := Lib.bind_eq_ok.mp hok
    obtain ⟨g, hg, hok⟩ := Lib.bind_eq_ok.mp hok
    exact ⟨f, g, getFuncType_eq_ok.mp hf, getFuncType_eq_ok.mp hg, func_accepted hok⟩
  cases odd with
  | false =>
      obtain ⟨f, g, hf, hg, hnode⟩ := hnode own promised hok
      exact agreed_ids hf hg (agreed_of_node hbelow hnode)
  | true =>
      obtain ⟨g, f, hg, hf, hnode⟩ := hnode promised own hok
      exact agreed_ids hf hg (agreed_of_node hbelow hnode)

theorem exact_exports (hbelow : ExactChecks a below) :
    Exact (ExportType.assertSubtypeOf a.types below) (CompareExport a) := by
  intro odd s t own promised hok
  refine agreed_export fun x hx y hy => ?_
  cases own <;> cases promised <;> try (cases odd <;> cases hok)
  case coreModule.coreModule => cases hx
  case component.component =>
    obtain rfl := List.mem_singleton.mp hx
    obtain rfl := List.mem_singleton.mp hy
    exact hbelow.componentIds odd s t x y (by cases odd <;> exact hok)
  case «instance».«instance» =>
    obtain rfl := List.mem_singleton.mp hx
    obtain rfl := List.mem_singleton.mp hy
    exact hbelow.instanceIds odd s t x y (by cases odd <;> exact hok)
  case type.type =>
    obtain rfl := List.mem_singleton.mp hx
    obtain rfl := List.mem_singleton.mp hy
    exact hbelow.typeIds odd s t x y (by cases odd <;> exact hok)
  case func.func =>
    obtain rfl := List.mem_singleton.mp hx
    obtain rfl := List.mem_singleton.mp hy
    exact exact_funcs hbelow (by cases odd <;> exact hok)

theorem agreed_of_componentMatched (hbelow : ExactChecks a below) {child parent : ComponentType M}
    (hchild : (Ty.component child).NamesNodup) (hparent : (Ty.component parent).NamesNodup)
    (h : Directed (ComponentMatched a.types below) odd child parent) :
    Agreed (Compare a) odd s t (.component child) (.component parent) := by
  have himports := exact_imports hbelow
  have hexports := exact_exports hbelow
  cases odd with
  | false =>
      refine agreed_component (fun _ => ⟨h.imports.keys, h.exports.keys⟩) ?_ ?_
      · exact fun s t name need given hneed hgiven => himports true s t given need
          (h.imports.pair hparent.1 hneed hgiven)
      · exact fun s t name own promised hown hpromised => hexports true s t own promised
          (h.exports.pair hchild.2 hpromised hown)
  | true =>
      refine agreed_component (fun h => by cases h) ?_ ?_
      · exact fun s t name need given hneed hgiven => himports false s t given need
          (h.imports.pair hchild.1 hgiven hneed)
      · exact fun s t name own promised hown hpromised => hexports false s t own promised
          (h.exports.pair hparent.2 hown hpromised)

theorem agreed_of_instanceMatched (hbelow : ExactChecks a below) {child parent : InstanceType M}
    (hchild : (Ty.instance child).NamesNodup) (hparent : (Ty.instance parent).NamesNodup)
    (h : Directed (InstanceMatched a.types below) odd child parent) :
    Agreed (Compare a) odd s t (.instance child) (.instance parent) := by
  have hexports := exact_exports hbelow
  cases odd with
  | false =>
      refine agreed_instance (fun _ => Lib.Matched.keys h) ?_
      exact fun name own promised hown hpromised => hexports false s t own promised
        (Lib.Matched.pair h hchild hpromised hown)
  | true =>
      refine agreed_instance (fun h => by cases h) ?_
      exact fun name own promised hown hpromised => hexports true s t own promised
        (Lib.Matched.pair h hparent hown hpromised)

theorem exact_componentIds (hbelow : ExactChecks a below) :
    Exact (assertComponentTypeIds a.types below intern) (CompareId a) := by
  intro odd s t childId parentId hok
  cases odd with
  | false =>
      obtain ⟨child, parent, hchild, hparent, hmatched⟩ := assertComponentTypeIds_eq_ok.mp hok
      exact agreed_ids hchild hparent (agreed_of_componentMatched hbelow
        (TypeArena.namesNodup hchild) (TypeArena.namesNodup hparent) hmatched)
  | true =>
      obtain ⟨parent, child, hparent, hchild, hmatched⟩ := assertComponentTypeIds_eq_ok.mp hok
      exact agreed_ids hchild hparent (agreed_of_componentMatched hbelow
        (TypeArena.namesNodup hchild) (TypeArena.namesNodup hparent) hmatched)

theorem exact_instanceIds (hbelow : ExactChecks a below) :
    Exact (assertInstanceTypeIds a.types below intern) (CompareId a) := by
  intro odd s t childId parentId hok
  cases odd with
  | false =>
      obtain ⟨child, parent, hchild, hparent, hmatched⟩ := assertInstanceTypeIds_eq_ok.mp hok
      exact agreed_ids hchild hparent (agreed_of_instanceMatched hbelow
        (TypeArena.namesNodup hchild) (TypeArena.namesNodup hparent) hmatched)
  | true =>
      obtain ⟨parent, child, hparent, hchild, hmatched⟩ := assertInstanceTypeIds_eq_ok.mp hok
      exact agreed_ids hchild hparent (agreed_of_instanceMatched hbelow
        (TypeArena.namesNodup hchild) (TypeArena.namesNodup hparent) hmatched)

inductive AcceptedTypes (a : TypeArena M) (below : Checks M) : Ty M → Ty M → Prop
  | node {x y : Ty M} (h : NodeAccepted a below x y) : AcceptedTypes a below x y
  | resource {x y : Ty M} (hx : ∀ s, ∃ r, x.actual s = some r) (hy : ∀ s, ∃ r, y.actual s = some r) :
      AcceptedTypes a below x y
  | component {child parent : ComponentType M} (h : ComponentMatched a.types below child parent) :
      AcceptedTypes a below (.component child) (.component parent)
  | instance {child parent : InstanceType M} (h : InstanceMatched a.types below child parent) :
      AcceptedTypes a below (.instance child) (.instance parent)

theorem acceptedTypes_of_tys {x y : Ty M} (hx : x.Plain) (hy : y.Plain)
    (hok : x.assertSubtypeOf a.types below y = .ok ()) : AcceptedTypes a below x y := by
  have hgeneric : ∀ g s, ∃ r, (Ty.generic ⟨g, .sub⟩ : Ty M).actual s = some r :=
    fun g s => ⟨s.actual g, rfl⟩
  have hresource : ∀ id s, ∃ r, (Ty.resource id : Ty M).actual s = some r :=
    fun id s => ⟨.known id, rfl⟩
  cases x with
  | generic g =>
      obtain ⟨g, bound⟩ := g
      obtain rfl := hx.2 _ rfl
      cases y with
      | generic g' =>
          obtain ⟨g', bound'⟩ := g'
          obtain rfl := hy.2 _ rfl
          exact .resource (hgeneric g) (hgeneric g')
      | _ => cases hok
  | defVal ty =>
      cases y with
      | defVal ty' => exact .node (defVal_accepted hok)
      | generic g' =>
          obtain ⟨g', bound'⟩ := g'
          obtain rfl := hy.2 _ rfl
          cases hok
      | _ => cases hok
  | func ty =>
      cases y with
      | func ty' => exact .node (func_accepted hok)
      | generic g' =>
          obtain ⟨g', bound'⟩ := g'
          obtain rfl := hy.2 _ rfl
          cases hok
      | _ => cases hok
  | resource id =>
      cases y with
      | resource id' => exact .resource (hresource id) (hresource id')
      | generic g' =>
          obtain ⟨g', bound'⟩ := g'
          obtain rfl := hy.2 _ rfl
          exact .resource (hresource id) (hgeneric g')
      | _ => cases hok
  | component ty =>
      cases y with
      | component ty' =>
          exact .component ((ComponentType.assertSubtypeOf_eq_ok hx.1 hy.1).mp hok)
      | generic g' =>
          obtain ⟨g', bound'⟩ := g'
          obtain rfl := hy.2 _ rfl
          cases hok
      | _ => cases hok
  | «instance» ty =>
      cases y with
      | «instance» ty' =>
          exact .instance ((InstanceType.assertSubtypeOf_eq_ok hx.1 hy.1).mp hok)
      | generic g' =>
          obtain ⟨g', bound'⟩ := g'
          obtain rfl := hy.2 _ rfl
          cases hok
      | _ => cases hok

theorem agreed_of_accepted (hbelow : ExactChecks a below) {x y : Ty M} (hx : x.Plain) (hy : y.Plain)
    (h : Directed (AcceptedTypes a below) odd x y) : Agreed (Compare a) odd s t x y := by
  cases odd with
  | false =>
      cases h with
      | node h => exact agreed_of_node hbelow h
      | resource hx hy => exact agreed_resource (hx s).choose_spec (hy t).choose_spec
      | component h => exact agreed_of_componentMatched hbelow hx.1 hy.1 h
      | «instance» h => exact agreed_of_instanceMatched hbelow hx.1 hy.1 h
  | true =>
      cases h with
      | node h => exact agreed_of_node hbelow h
      | resource hy hx => exact agreed_resource (hx s).choose_spec (hy t).choose_spec
      | component h => exact agreed_of_componentMatched hbelow hx.1 hy.1 h
      | «instance» h => exact agreed_of_instanceMatched hbelow hx.1 hy.1 h

theorem assertTypeIds_cases {childId parentId : TypeId}
    (hok : assertTypeIds a.types below intern childId parentId = .ok ()) :
    childId = parentId ∨ assertComponentTypeIds a.types below intern childId parentId = .ok () ∨
    assertInstanceTypeIds a.types below intern childId parentId = .ok () ∨
    ∃ child parent, a.get childId = some child ∧ a.get parentId = some parent ∧
      child.assertSubtypeOf a.types below parent = .ok () := by
  unfold assertTypeIds at hok
  split at hok
  · rename_i heq
    exact .inl heq
  · simp only [Lib.bind_eq_ok, getType_eq_ok] at hok
    obtain ⟨child, hchild, parent, hparent, hok⟩ := hok
    split at hok
    · exact .inr (.inl hok)
    · exact .inr (.inr (.inl hok))
    · exact .inr (.inr (.inr ⟨child, parent, hchild, hparent, hok⟩))

theorem exact_typeIds (hbelow : ExactChecks a below) :
    Exact (assertTypeIds a.types below intern) (CompareId a) := by
  intro odd s t childId parentId hok
  have hcases := hok.mono fun _ _ => assertTypeIds_cases
  have hcomponents : Exact (assertComponentTypeIds a.types below intern) (CompareId a) :=
    exact_componentIds hbelow
  have hinstances : Exact (assertInstanceTypeIds a.types below intern) (CompareId a) :=
    exact_instanceIds hbelow
  cases odd with
  | false =>
      obtain rfl | hok | hok | ⟨child, parent, hchild, hparent, hok⟩ := hcases
      · exact agreed_self _ _ _ _
      · exact hcomponents _ _ _ _ _ hok
      · exact hinstances _ _ _ _ _ hok
      · have hx := TypeArena.plain hchild
        have hy := TypeArena.plain hparent
        exact agreed_ids hchild hparent
          (agreed_of_accepted hbelow hx hy (acceptedTypes_of_tys hx hy hok))
  | true =>
      obtain rfl | hok | hok | ⟨parent, child, hparent, hchild, hok⟩ := hcases
      · exact agreed_self _ _ _ _
      · exact hcomponents _ _ _ _ _ hok
      · exact hinstances _ _ _ _ _ hok
      · have hx := TypeArena.plain hchild
        have hy := TypeArena.plain hparent
        exact agreed_ids hchild hparent
          (agreed_of_accepted hbelow hx hy (acceptedTypes_of_tys hy hx hok))

theorem exactChecks (a : TypeArena M) (intern : String ↪ Nat) (depth : Nat) :
    ExactChecks a (checks a.types intern depth) := by
  induction depth with
  | zero =>
      have hnone : ∀ {α : Type} {odd : Bool} {x y : α},
          ¬Directed (fun _ _ => mismatch "depth" = .ok ()) odd x y := by
        intro α odd x y h
        cases odd <;> cases h
      exact ⟨fun _ _ _ _ _ h => (hnone h).elim, fun _ _ _ _ _ h => (hnone h).elim,
        fun _ _ _ _ _ h => (hnone h).elim, fun _ _ _ _ _ _ _ h => (hnone h).elim⟩
  | succ depth ih =>
      refine ⟨exact_typeIds ih, exact_componentIds ih, exact_instanceIds ih, ?_⟩
      intro odd s t x y hx hy hok
      refine agreed_of_accepted ih hx hy ?_
      cases odd with
      | false => exact acceptedTypes_of_tys hx hy hok
      | true => exact acceptedTypes_of_tys hy hx hok

end exactness

section samples

/-- An instance without exports and one with a function; components that export one or the other;
components that import one or the other; a component with one export more. Then two abstract
resources, a function of either, and components that import the resources and one or the other
function. -/
private def surfaceTypes : List (Ty Empty) :=
  [.func ⟨[], [], none⟩, .instance ⟨[]⟩, .instance ⟨[("run", .func 0)]⟩,
    .component ⟨[], [("api", .instance 1)]⟩, .component ⟨[], [("api", .instance 2)]⟩,
    .component ⟨[("api", .type 2 ⟨0, .eq 2⟩)], []⟩, .component ⟨[("api", .type 1 ⟨0, .eq 1⟩)], []⟩,
    .component ⟨[], [("api", .instance 1), ("run", .func 0)]⟩,
    .generic ⟨1, .sub⟩, .generic ⟨2, .sub⟩, .defVal (.own 8), .defVal (.own 9),
    .func ⟨[.type 10], ["x"], none⟩, .func ⟨[.type 11], ["x"], none⟩,
    .component ⟨[("t", .type 8 ⟨1, .sub⟩), ("u", .type 9 ⟨2, .sub⟩),
      ("f", .type 12 ⟨3, .eq 12⟩)], []⟩,
    .component ⟨[("t", .type 8 ⟨1, .sub⟩), ("u", .type 9 ⟨2, .sub⟩),
      ("f", .type 13 ⟨4, .eq 13⟩)], []⟩]

private def surfaceArena : TypeArena Empty where
  types := surfaceTypes
  refs_lt := by
    intro id ty h
    match id, h with
    | 0, h => cases h; decide
    | 1, h => cases h; decide
    | 2, h => cases h; decide
    | 3, h => cases h; decide
    | 4, h => cases h; decide
    | 5, h => cases h; decide
    | 6, h => cases h; decide
    | 7, h => cases h; decide
    | 8, h => cases h; decide
    | 9, h => cases h; decide
    | 10, h => cases h; decide
    | 11, h => cases h; decide
    | 12, h => cases h; decide
    | 13, h => cases h; decide
    | 14, h => cases h; decide
    | 15, h => cases h; decide
  names_nodup := by
    intro ty h
    simp only [surfaceTypes, List.mem_cons, List.not_mem_nil, or_false] at h
    rcases h with rfl | rfl | rfl | rfl | rfl | rfl | rfl | rfl | rfl | rfl | rfl | rfl | rfl |
      rfl | rfl | rfl <;> simp [Ty.NamesNodup]
  generic_sub := by
    intro g h
    simp only [surfaceTypes, List.mem_cons, List.not_mem_nil, or_false, reduceCtorEq, false_or,
      Ty.generic.injEq] at h
    rcases h with rfl | rfl <;> rfl

private def outermost : ResourceScope := ⟨∅, .other⟩

private theorem extends_self (s : ResourceScope) (new : Set Nat) :
    s.Extends new ⟨s.outer ∪ new, s.actual⟩ :=
  ⟨rfl, fun _ _ => rfl⟩

private theorem plain_not_sub_run {odd : Bool} {s t : ResourceScope} :
    ¬ CompareId surfaceArena true odd s t 1 2 := by
  intro h
  cases (compareId_iff (y := .instance ⟨[("run", .func 0)]⟩) (x := .instance ⟨[]⟩) rfl rfl).mp h with
  | resource hx _ => cases hx
  | node hx _ _ => cases hx
  | «instance» names _ => cases names rfl (List.mem_singleton_self _)

private theorem run_accepted (intern : String ↪ Nat) (depth : Nat) :
    (checks surfaceTypes intern (depth + 1)).instanceIds 2 1 = .ok () := by
  refine (assertInstanceTypeIds_eq_ok (a := surfaceArena)).mpr ⟨_, _, rfl, rfl, ?_⟩
  intro name x hmem
  cases hmem

private def nameIndex : String ↪ Nat where
  toFun name := Encodable.encode (name.toList.map Char.toNat)
  inj' := by
    intro name name' h
    have hcodes := List.map_injective_iff.mpr (fun _ _ => Char.toNat_inj.mp)
      (Encodable.encode_injective h)
    exact String.toList_inj.mp hcodes

private theorem other_resource {odd : Bool} {s t : ResourceScope} (h : s.actual 2 ≠ t.actual 1) :
    ¬ CompareId surfaceArena true odd s t 13 12 := by
  intro hfuncs
  have hfuncs := (compareId_iff (x := .func ⟨[.type 11], ["x"], none⟩)
    (y := .func ⟨[.type 10], ["x"], none⟩) rfl rfl).mp hfuncs
  have howns := (compare_node_iff rfl rfl).mp hfuncs 0 (.type 11) (.type 10) rfl rfl
    (.defVal (.own 9)) (.defVal (.own 8)) rfl rfl
  have hresources := (compare_node_iff rfl rfl).mp howns 0 (.type 9) (.type 8) rfl rfl
    (.generic ⟨2, .sub⟩) (.generic ⟨1, .sub⟩) rfl rfl
  exact h ((compare_resource_iff rfl rfl).mp hresources)

end samples

end Telomere.Component
