import Telomere.Runtime.Segments

/-!
# When the order of the segments shows

Data segments and element segments touch different objects, so their order shows only when one of
them fails after others were written. A function that was put into an imported table before the
failure shows the memories of the instance that failed. Which segments stay usable shows in every
success.
-/

namespace Telomere.Runtime

/-- Offsets can be read, memories are there and functions are in range. -/
structure Ready (m : Module) (s : Store) (sp : Spaces) : Prop where
  globals : GlobalsAt s (importedGlobals m.imports) sp.globals
  mems : ∀ addr ∈ sp.mems, addr < s.memories.length
  funcs : m.functions.length ≤ (sp.funcs ++ List.range' s.funcs.length m.codes.length).length

theorem prepare_ready {w : World} {mappable : Nat → Bool} {registry : Registry} {m : Module}
    {s₁ : Store} {sp₁ : Spaces} {allowed : Store → Registry → Module → Prop}
    (hreach : Reachable allowed w) (hregistry : w.Registers registry)
    (hshaped : Parser.WellShaped m)
    (hprepare : prepare mappable registry w.store m = (s₁, .ok sp₁)) : Ready m s₁ sp₁ := by
  obtain ⟨imported, fresh, hresolved, rfl, rfl, hfresh⟩ := prepare_eq_ok hprepare
  have hsized := importedGlobals_sized hreach.globals_sized hregistry hresolved
  have hmems := importedMems_found hresolved
  refine ⟨?_, ?_, ?_⟩
  · intro idx gt hgt
    exact forall₂_getElem? hsized hgt
  · intro addr haddr
    change addr < (w.store.memories ++ fresh).length
    rw [List.length_append, ← hfresh.length_eq]
    rcases List.mem_append.mp haddr with haddr | haddr
    · obtain ⟨i, hi⟩ := List.mem_iff_getElem?.mp haddr
      have hlt : i < (importedMems m.imports).length := by
        rw [hmems.length_eq]
        exact (List.getElem?_eq_some_iff.mp hi).1
      obtain ⟨a, ha, inst, mod, idx, exportMt, size, hexports, -, haddr', -⟩ :=
        forall₂_getElem? hmems (List.getElem?_eq_getElem hlt)
      obtain rfl := Option.some.inj (hi.symm.trans ha)
      obtain ⟨hoffers, name, hfind⟩ := exporter_all hreach.memOffers hregistry hexports
      obtain ⟨mt, addr', own, -, haddr'', hown, -⟩ := hoffers name idx hfind
      obtain rfl := Option.some.inj (haddr'.symm.trans haddr'')
      have hlt := (List.getElem?_eq_some_iff.mp hown).1
      rw [List.length_map] at hlt
      omega
    · have := List.mem_range'_1.mp haddr
      omega
  · obtain ⟨defined, hdefined, hcodes⟩ := hshaped.functions
    have himported : imported.funcs.length = (importsOf m .func).length :=
      (resolveImports_exported hresolved .func).length_eq.symm
    rw [hdefined, List.length_append, List.length_append, List.length_range', ← hcodes]
    change _ ≤ imported.funcs.length + _
    rw [himported, (importsOf_length m).1]

theorem Ready.offset {m : Module} {s : Store} {sp : Spaces} (h : Ready m s sp)
    (hshaped : Parser.WellShaped m) {d : Data} (hd : d ∈ m.data) {mem : Nat}
    {offset : List ConstExpr} (hmode : d.mode = .active mem offset) :
    ∃ o, executeOffsetConstExpr s.globals sp.globals offset = .ok o := by
  have hvalid := hshaped.data d hd
  unfold Parser.validateData at hvalid
  rw [hmode] at hvalid
  dsimp only at hvalid
  split at hvalid
  · exact offset_total h.globals hvalid
  · cases hvalid

theorem Ready.allocate {m : Module} {s : Store} {sp : Spaces} (h : Ready m s sp)
    (hshaped : Parser.WellShaped m) (inst : Nat) :
    ∃ t sp', allocate inst m s sp = (t, .ok sp') := by
  refine allocate_total fun init hinit => ?_
  obtain ⟨defined, -, hinits⟩ := hshaped.globals
  obtain ⟨i, hi⟩ := List.mem_iff_getElem?.mp hinit
  have hlt : i < defined.length := by
    rw [hinits.length_eq]
    exact (List.getElem?_eq_some_iff.mp hi).1
  obtain ⟨init', hinit', hvalid⟩ := forall₂_getElem? hinits (List.getElem?_eq_getElem hlt)
  obtain rfl := Option.some.inj (hi.symm.trans hinit')
  exact initBytes_total h.globals h.funcs hvalid

section orders

variable {mappable : Nat → Bool} {registry : Registry} {s s₁ s₃ : Store} {m : Module}
  {sp₁ sp : Spaces}

theorem instantiate_eq (hprepare : prepare mappable registry s m = (s₁, .ok sp₁))
    (hallocate : allocate s.instances.length m s₁ sp₁ = (s₃, .ok sp)) :
    instantiate mappable registry s m =
      match initData s.nextInstanceId sp₁ s₁ m.data, initElems s.nextInstanceId sp s₃ m.elems with
      | (s₂, .error e), _ => (s₂, .error e)
      | (s₂, .ok _), (s₄, .error e) =>
          ((s₄.withData s₂.memories s₂.data).place s.instances.length
            ⟨sp, s.nextInstanceId, s.modules.length⟩, .error e)
      | (s₂, .ok _), (s₄, .ok _) =>
          ((s₄.withData s₂.memories s₂.data).place s.instances.length
            ⟨sp, s.nextInstanceId, s.modules.length⟩, .ok s.instances.length) := by
  unfold instantiate
  dsimp only
  rw [hprepare, Lib.andThen_ok]
  have hframe := initData_frame s.nextInstanceId sp₁ s₁ m.data
  rcases hr : initData s.nextInstanceId sp₁ s₁ m.data with ⟨s₂, e | u⟩
  · rfl
  · rw [hr] at hframe
    have hs₂ : s₂ = s₁.withData s₂.memories s₂.data := hframe.rest
    have hallocate' : allocate s.instances.length m s₂ sp₁ =
        (s₃.withData s₂.memories s₂.data, .ok sp) := by
      rw [hs₂, allocate_withData, hallocate]
      rfl
    rw [Lib.andThen_ok, hallocate', Lib.andThen_ok, initElems_withData]
    rcases initElems s.nextInstanceId sp s₃ m.elems with ⟨s₄, e | u⟩ <;> rfl

theorem instantiateInOrder_eq (hshaped : Parser.WellShaped m) (hready : Ready m s₁ sp₁)
    (hprepare : prepare mappable registry s m = (s₁, .ok sp₁))
    (hallocate : allocate s.instances.length m s₁ sp₁ = (s₃, .ok sp)) :
    instantiateInOrder mappable registry s m =
      match initData s.nextInstanceId sp₁ s₁ m.data, initElems s.nextInstanceId sp s₃ m.elems with
      | _, (s₄, .error e) => (s₄, .error e)
      | (s₂, .error e), (s₄, .ok _) => (s₄.withData s₂.memories s₂.data, .error e)
      | (s₂, .ok _), (s₄, .ok _) =>
          ((s₄.withData s₂.memories s₂.data).place s.instances.length
            ⟨sp, s.nextInstanceId, s.modules.length⟩, .ok s.instances.length) := by
  unfold instantiateInOrder
  dsimp only
  rw [hprepare, Lib.andThen_ok, hallocate, Lib.andThen_ok]
  obtain ⟨values, hs₃, hsp, -⟩ := allocate_eq_ok hallocate
  have hframe := initElems_frame s.nextInstanceId sp s₃ m.elems
  rcases hr : initElems s.nextInstanceId sp s₃ m.elems with ⟨s₄, e | u⟩
  · rcases initData s.nextInstanceId sp₁ s₁ m.data with ⟨s₂, e' | u'⟩ <;> rfl
  · rw [hr] at hframe
    have hrest : s₄ = { s₃ with tables := s₄.tables, elems := s₄.elems } := hframe.rest
    have hs₄ : s₄ = s₁.dataOver s₄ := by
      rw [hrest, hs₃]
      rfl
    have hglobals : s₄.globals = s₁.globals ++ values := by
      rw [hrest, hs₃]
    have hdata : initData s.nextInstanceId sp s₄ m.data =
        ((initData s.nextInstanceId sp₁ s₁ m.data).1.dataOver s₄,
          (initData s.nextInstanceId sp₁ s₁ m.data).2) := by
      conv_lhs => rw [hs₄]
      refine initData_over (by rw [hsp]) ?_
      intro d hd mem offset hmode
      obtain ⟨o, ho⟩ := hready.offset hshaped hd hmode
      rw [ho]
      refine executeOffsetConstExpr_mono ?_ ?_ ho
      · rw [hglobals]
        exact List.prefix_append _ _
      · rw [hsp]
        exact List.prefix_append _ _
    rw [Lib.andThen_ok, hdata]
    rcases initData s.nextInstanceId sp₁ s₁ m.data with ⟨s₂, e | u⟩ <;> rfl

end orders

/-- A function made since `s` has been put into a table of `s`, where it can be called whether or not
the instantiation succeeds. -/
def Leaks (s t : Store) : Prop :=
  ∃ (addr i f : Nat) (old new : TableInstance), s.tables[addr]? = some old ∧
    t.tables[addr]? = some new ∧ new.entries[i]? = some (funcRef f) ∧ s.funcs.length ≤ f ∧
    old.entries[i]? ≠ some (funcRef f)

/-- Nothing tells the instantiation from one that runs its segments in the order of the
specification: the outcome is the same and so are the objects that can be reached. These are the
ones that were there before and, in a success or when a function of the new instance has leaked,
those of the new instance. -/
structure FollowsOrder (mappable : Nat → Bool) (registry : Registry) (s : Store) (m : Module) :
    Prop where
  outcome : (instantiate mappable registry s m).2 = (instantiateInOrder mappable registry s m).2
  tables : ∀ addr, addr < s.tables.length ∨ Leaks s (instantiateInOrder mappable registry s m).1 →
    (instantiate mappable registry s m).1.tables[addr]? =
      (instantiateInOrder mappable registry s m).1.tables[addr]?
  memories : ∀ addr, addr < s.memories.length ∨
      Leaks s (instantiateInOrder mappable registry s m).1 →
    (instantiate mappable registry s m).1.memories[addr]? =
      (instantiateInOrder mappable registry s m).1.memories[addr]?
  success : ∀ inst, (instantiate mappable registry s m).2 = .ok inst →
    (instantiate mappable registry s m).1.tables =
      (instantiateInOrder mappable registry s m).1.tables ∧
    (instantiate mappable registry s m).1.memories =
      (instantiateInOrder mappable registry s m).1.memories

/-- The element segments up to the first that does not fit, that one included. -/
def Tried (s₃ : Store) (sp : Spaces) (elems tried : List Elem) : Prop :=
  ∃ done elem rest, elems = done ++ elem :: rest ∧ tried = done ++ [elem] ∧
    (∀ e ∈ done, ElemFits s₃ sp e) ∧ ¬ElemFits s₃ sp elem

/-- These element segments put a new function into a table that was there. -/
def ElemsLeak (s s₃ : Store) (sp : Spaces) (tried : List Elem) : Prop :=
  ∃ (addr i f : Nat) (old : TableInstance), s.tables[addr]? = some old ∧
    (tried.foldl (landElem s₃.globals sp addr) old).entries[i]? = some (funcRef f) ∧
    s.funcs.length ≤ f ∧ old.entries[i]? ≠ some (funcRef f)

/-- Copying the data segments leaves every memory that was there as it was, and the new ones too when
the element segments leak a function that has them. -/
def DataUnseen (s s₁ s₃ : Store) (sp₁ sp : Spaces) (data : List Data) (tried : List Elem) : Prop :=
  ∀ (addr : Nat) memory, s₁.memories[addr]? = some memory →
    addr < s.memories.length ∨ ElemsLeak s s₃ sp tried →
    data.foldl (landData s₁.globals sp₁ addr) memory = memory

/-- Writing the element segments leaves every table that was there as it was. -/
def ElemsUnseen (s s₃ : Store) (sp : Spaces) (elems : List Elem) : Prop :=
  ∀ (addr : Nat) t, s.tables[addr]? = some t →
    elems.foldl (landElem s₃.globals sp addr) t = t

section order

variable {mappable : Nat → Bool} {registry : Registry} {s s₁ s₃ : Store} {m : Module}
  {sp₁ sp : Spaces}

private theorem dataUnseen_iff {id : Nat} {tried : List Elem}
    (hfits : ∀ d ∈ m.data, DataFits s₁ sp₁ d) :
    (∀ addr, addr < s.memories.length ∨ ElemsLeak s s₃ sp tried →
      (initData id sp₁ s₁ m.data).1.memories[addr]? = s₁.memories[addr]?) ↔
      DataUnseen s s₁ s₃ sp₁ sp m.data tried := by
  constructor
  · intro h addr memory hmemory hseen
    have hat := h addr hseen
    rw [initData_lands hfits addr, hmemory] at hat
    exact Option.some.inj hat
  · intro h addr hseen
    rw [initData_lands hfits addr]
    cases hmemory : s₁.memories[addr]? with
    | none => rfl
    | some memory => exact congrArg some (h addr memory hmemory hseen)

private theorem elemsUnseen_iff {id : Nat} (hpre : s.tables <+: s₃.tables)
    (hfits : ∀ elem ∈ m.elems, ElemFits s₃ sp elem) :
    (∀ addr < s.tables.length, s.tables[addr]? =
      (initElems id sp s₃ m.elems).1.tables[addr]?) ↔ ElemsUnseen s s₃ sp m.elems := by
  constructor
  · intro h addr t ht
    have hat := h addr (List.getElem?_eq_some_iff.mp ht).1
    rw [initElems_lands hfits addr, getElem?_prefix_mono hpre ht, ht] at hat
    exact (Option.some.inj hat).symm
  · intro h addr hlt
    have ht := List.getElem?_eq_getElem hlt
    rw [initElems_lands hfits addr, getElem?_prefix_mono hpre ht, ht, Option.map_some, h addr _ ht]

/-- Once all segments of a list but the last fit, its leaks are those of its entries. -/
private theorem leaks_iff {id : Nat} {tried : List Elem} (hpre : s.tables <+: s₃.tables)
    (htried : Tried s₃ sp m.elems tried) :
    Leaks s (initElems id sp s₃ m.elems).1 ↔ ElemsLeak s s₃ sp tried := by
  obtain ⟨done, elem, rest, helems, rfl, hdone, helem⟩ := htried
  rw [helems]
  have hlands := @initElems_stops id sp s₃ done rest elem hdone helem
  constructor
  · rintro ⟨addr, i, f, old, new, hold, hnew, hentry, hf, hwas⟩
    rw [hlands, getElem?_prefix_mono hpre hold] at hnew
    obtain rfl := Option.some.inj hnew
    exact ⟨addr, i, f, old, hold, hentry, hf, hwas⟩
  · rintro ⟨addr, i, f, old, hold, hentry, hf, hwas⟩
    refine ⟨addr, i, f, old, _, hold, ?_, hentry, hf, hwas⟩
    rw [hlands, getElem?_prefix_mono hpre hold]
    rfl

private theorem exists_tried (hnot : ¬∀ elem ∈ m.elems, ElemFits s₃ sp elem) :
    ∃ tried, Tried s₃ sp m.elems tried := by
  generalize m.elems = elems at hnot
  induction elems with
  | nil => exact absurd (fun elem helem => absurd helem List.not_mem_nil) hnot
  | cons first elems ih =>
      by_cases hfirst : ElemFits s₃ sp first
      · have hrest : ¬∀ elem ∈ elems, ElemFits s₃ sp elem :=
          fun h => hnot (List.forall_mem_cons.mpr ⟨hfirst, h⟩)
        obtain ⟨_, done, elem, rest, rfl, -, hdone, helem⟩ := ih hrest
        exact ⟨_, first :: done, elem, rest, rfl, rfl, List.forall_mem_cons.mpr ⟨hfirst, hdone⟩,
          helem⟩
      · exact ⟨_, [], first, elems, rfl, rfl, fun e he => absurd he List.not_mem_nil, hfirst⟩

theorem Tried.not_fits {tried : List Elem} (h : Tried s₃ sp m.elems tried) :
    ¬∀ elem ∈ m.elems, ElemFits s₃ sp elem := by
  obtain ⟨done, elem, rest, helems, -, -, helem⟩ := h
  exact fun hfits => helem (hfits elem (by rw [helems]; simp))

theorem followsOrder_iff (hshaped : Parser.WellShaped m) (hready : Ready m s₁ sp₁)
    (hprepare : prepare mappable registry s m = (s₁, .ok sp₁))
    (hallocate : allocate s.instances.length m s₁ sp₁ = (s₃, .ok sp)) :
    FollowsOrder mappable registry s m ↔
      ((∀ d ∈ m.data, DataFits s₁ sp₁ d) ∧ ∀ elem ∈ m.elems, ElemFits s₃ sp elem) ∨
      ((∀ d ∈ m.data, DataFits s₁ sp₁ d) ∧ ∃ tried, Tried s₃ sp m.elems tried ∧
        DataUnseen s s₁ s₃ sp₁ sp m.data tried) ∨
      ((¬∀ d ∈ m.data, DataFits s₁ sp₁ d) ∧ (∀ elem ∈ m.elems, ElemFits s₃ sp elem) ∧
        ElemsUnseen s s₃ sp m.elems) := by
  have hcode := instantiate_eq hprepare hallocate
  have hspec := instantiateInOrder_eq hshaped hready hprepare hallocate
  obtain ⟨imported, fresh, -, hs₁, -⟩ := prepare_eq_ok hprepare
  obtain ⟨values, hs₃, -⟩ := allocate_eq_ok hallocate
  have hmemories : s.memories <+: s₁.memories := by
    rw [hs₁]
    exact List.prefix_append _ _
  have htables₁ : s₁.tables = s.tables := by
    rw [hs₁]
    rfl
  have htables : s.tables <+: s₃.tables := by
    rw [hs₃, htables₁]
    exact List.prefix_append _ _
  have hmemories₃ : s₃.memories = s₁.memories := by rw [hs₃]
  have hdframe := initData_frame s.nextInstanceId sp₁ s₁ m.data
  have heframe := initElems_frame s.nextInstanceId sp s₃ m.elems
  have hdok := initData_ok_iff s.nextInstanceId sp₁ s₁ m.data
  have heok := initElems_ok_iff s.nextInstanceId sp s₃ m.elems
  have hdata := @dataUnseen_iff s s₁ s₃ m sp₁ sp s.nextInstanceId
  have hleaks := @leaks_iff s s₃ m sp s.nextInstanceId
  have helems := @elemsUnseen_iff s s₃ m sp s.nextInstanceId htables
  have hderror := @initData_error s.nextInstanceId sp₁ s₁ m.data
  have heerror := @initElems_error s.nextInstanceId sp s₃ m.elems
  rcases hD : initData s.nextInstanceId sp₁ s₁ m.data with ⟨s₂, e | _⟩ <;>
    rcases hE : initElems s.nextInstanceId sp s₃ m.elems with ⟨s₄, e' | _⟩ <;>
    rw [hD, hE] at hcode hspec <;> rw [hD] at hdframe hdok hdata hderror <;>
    rw [hE] at heframe heok helems heerror hleaks <;> dsimp only at hcode hspec
  · -- both loops fail, with failures of different kinds
    have hD' : ¬∀ d ∈ m.data, DataFits s₁ sp₁ d := fun h => by cases hdok.mpr h
    have hE' : ¬∀ elem ∈ m.elems, ElemFits s₃ sp elem := fun h => by cases heok.mpr h
    simp only [hD', hE', false_and, and_false, or_false, iff_false]
    intro h
    have houtcome := h.outcome
    rw [hcode, hspec] at houtcome
    obtain rfl := Except.error.inj houtcome
    refine heerror rfl (hderror ?_ hready.mems rfl)
    exact fun d hd mem offset hmode => hready.offset hshaped hd hmode
  · have hD' : ¬∀ d ∈ m.data, DataFits s₁ sp₁ d := fun h => by cases hdok.mpr h
    have hE' := heok.mp rfl
    simp only [hD', false_and, false_or, not_false_eq_true, true_and]
    rw [← helems hE']
    have htables₂ : s₂.tables = s.tables := by
      rw [show s₂ = _ from hdframe.rest]
      exact htables₁
    constructor
    · intro h
      refine ⟨hE', fun addr hlt => ?_⟩
      have hat := h.tables addr (Or.inl hlt)
      rw [hcode, hspec] at hat
      rw [← htables₂]
      exact hat
    · rintro ⟨-, h⟩
      -- nothing leaks into tables that stay as they were
      have hnoleak : ¬Leaks s (s₄.withData s₂.memories s₂.data) := by
        rintro ⟨addr, i, f, old, new, hold, hnew, hentry, -, hwas⟩
        have hsame := h addr (List.getElem?_eq_some_iff.mp hold).1
        change s₄.tables[addr]? = some new at hnew
        rw [hold, hnew] at hsame
        obtain rfl := Option.some.inj hsame
        exact hwas hentry
      refine ⟨by rw [hcode, hspec], ?_, ?_, ?_⟩
      · intro addr hseen
        rw [hspec] at hseen
        rw [hcode, hspec]
        change s₂.tables[addr]? = s₄.tables[addr]?
        rw [htables₂]
        exact h addr (hseen.resolve_right hnoleak)
      · intro addr hlt
        rw [hcode, hspec]
        rfl
      · intro inst hinst
        rw [hcode] at hinst
        cases hinst
  · have hD' := hdok.mp rfl
    have hE' : ¬∀ elem ∈ m.elems, ElemFits s₃ sp elem := fun h => by cases heok.mpr h
    simp only [hE', and_false, false_or, false_and, or_false]
    have hmemories₄ : s₄.memories = s₁.memories := by
      rw [show s₄ = _ from heframe.rest]
      exact hmemories₃
    have hseen : ∀ {tried}, Tried s₃ sp m.elems tried →
        ((∀ addr, addr < s.memories.length ∨ Leaks s s₄ → s₂.memories[addr]? = s₁.memories[addr]?) ↔
          DataUnseen s s₁ s₃ sp₁ sp m.data tried) := by
      intro tried htried
      rw [← hdata hD', hleaks htables htried]
    constructor
    · intro h
      obtain ⟨tried, htried⟩ := exists_tried hE'
      refine ⟨hD', tried, htried, (hseen htried).mp fun addr hreached => ?_⟩
      have hat := h.memories addr (by rw [hspec]; exact hreached)
      rw [hcode, hspec] at hat
      rw [← hmemories₄]
      exact hat
    · rintro ⟨-, tried, htried, h⟩
      refine ⟨by rw [hcode, hspec], ?_, ?_, ?_⟩
      · intro addr hlt
        rw [hcode, hspec]
        rfl
      · intro addr hreached
        rw [hspec] at hreached
        rw [hcode, hspec]
        change s₂.memories[addr]? = s₄.memories[addr]?
        rw [hmemories₄]
        exact (hseen htried).mpr h addr hreached
      · intro inst hinst
        rw [hcode] at hinst
        cases hinst
  · refine ⟨fun _ => Or.inl ⟨hdok.mp rfl, heok.mp rfl⟩, fun _ => ?_⟩
    have heq : instantiate mappable registry s m = instantiateInOrder mappable registry s m :=
      hcode.trans hspec.symm
    exact ⟨by rw [heq], fun _ _ => by rw [heq], fun _ _ => by rw [heq], fun _ _ => by rw [heq]; simp⟩

end order

end Telomere.Runtime
