import Telomere.Runtime.SegmentOrder

/-!
# How long a segment stays usable

A segment is usable as long as the store has an entry for it. Entries are made by the instantiation
that owns them, under an id that no other instance has, and go away when they are dropped.
-/

namespace Telomere.Runtime

/-- Only entries of the instance `id` differ. -/
structure SegmentFrame (id : Nat) (s t : Store) : Prop where
  nextInstanceId : t.nextInstanceId = s.nextInstanceId
  data : ∀ key, key.1 ≠ id → t.data key = s.data key
  elems : ∀ key, key.1 ≠ id → t.elems key = s.elems key

namespace SegmentFrame

variable {id : Nat} {s t u : Store}

theorem refl (id : Nat) (s : Store) : SegmentFrame id s s := ⟨rfl, fun _ _ => rfl, fun _ _ => rfl⟩

theorem trans (h : SegmentFrame id s t) (h' : SegmentFrame id t u) : SegmentFrame id s u :=
  ⟨h'.nextInstanceId.trans h.nextInstanceId,
    fun key hkey => (h'.data key hkey).trans (h.data key hkey),
    fun key hkey => (h'.elems key hkey).trans (h.elems key hkey)⟩

end SegmentFrame

theorem allocMemories_segments (id : Nat) (mappable : Nat → Bool) (s : Store) (memories : List Nat)
    (tys : List MemType) : SegmentFrame id s (allocMemories mappable s memories tys).1 := by
  induction tys generalizing s memories with
  | nil => exact .refl id s
  | cons ty tys ih =>
      unfold allocMemories
      dsimp only
      split
      · next memory _ =>
          have hfirst : SegmentFrame id s { s with memories := s.memories ++ [memory] } :=
            ⟨rfl, fun _ _ => rfl, fun _ _ => rfl⟩
          exact hfirst.trans (ih _ _)
      · exact .refl id s

theorem allocGlobals_segments (id : Nat) (funcs : List Nat) (s : Store) (globals : List Nat)
    (inits : List ConstExpr) : SegmentFrame id s (allocGlobals funcs s globals inits).1 := by
  induction inits generalizing s globals with
  | nil => exact .refl id s
  | cons init rest ih =>
      unfold allocGlobals
      split
      · next bytes _ =>
          have hfirst : SegmentFrame id s { s with globals := s.globals ++ [bytes] } :=
            ⟨rfl, fun _ _ => rfl, fun _ _ => rfl⟩
          exact hfirst.trans (ih _ _)
      · exact .refl id s

theorem allocate_segments (id inst : Nat) (m : Module) (s : Store) (sp : Spaces) :
    SegmentFrame id s (allocate inst m s sp).1 := by
  unfold allocate
  rw [allocFuncs_eq]
  dsimp only
  have hfuncs : SegmentFrame id s
      { s with funcs := s.funcs ++ newFuncs inst sp.funcs.length m.codes } :=
    ⟨rfl, fun _ _ => rfl, fun _ _ => rfl⟩
  have hglobals := hfuncs.trans (allocGlobals_segments id
    (sp.funcs ++ List.range' s.funcs.length m.codes.length) _ sp.globals m.globalInit)
  rcases hr : allocGlobals (sp.funcs ++ List.range' s.funcs.length m.codes.length)
    { s with funcs := s.funcs ++ newFuncs inst sp.funcs.length m.codes } sp.globals m.globalInit
    with ⟨t, e | globals⟩
  · rw [hr] at hglobals
    exact hglobals
  · rw [hr] at hglobals
    rw [Lib.andThen_ok, allocTables_eq]
    exact hglobals.trans ⟨rfl, fun _ _ => rfl, fun _ _ => rfl⟩

private theorem update_of_fst_ne {α : Type} {f : Nat × Nat → Option α} {id idx : Nat}
    {key : Nat × Nat} {a : Option α} (hkey : key.1 ≠ id) :
    Function.update f (id, idx) a key = f key := by
  have hne : key ≠ (id, idx) := by
    rintro rfl
    exact hkey rfl
  exact Function.update_of_ne hne _ _

theorem initDatum_segments (id : Nat) (sp : Spaces) (s : Store) (entry : Data × Nat) :
    SegmentFrame id s (initDatum id sp s entry).1 := by
  unfold initDatum
  dsimp only
  split
  · exact ⟨rfl, fun _ hkey => update_of_fst_ne hkey, fun _ _ => rfl⟩
  · split
    · exact ⟨rfl, fun _ hkey => update_of_fst_ne hkey, fun _ _ => rfl⟩
    · exact .refl id s

theorem initElem_segments (id : Nat) (sp : Spaces) (s : Store) (entry : Elem × Nat) :
    SegmentFrame id s (initElem id sp s entry).1 := by
  unfold initElem
  split
  · exact ⟨rfl, fun _ _ => rfl, fun _ hkey => update_of_fst_ne hkey⟩
  · exact .refl id s
  · exact ⟨rfl, fun _ _ => rfl, fun _ _ => rfl⟩

theorem initData_segments (id : Nat) (sp : Spaces) (s : Store) (data : List Data) :
    SegmentFrame id s (initData id sp s data).1 :=
  Lib.runAll_invariant (fun t entry _ h => h.trans (initDatum_segments id sp t entry)) (.refl id s)

theorem initElems_segments (id : Nat) (sp : Spaces) (s : Store) (elems : List Elem) :
    SegmentFrame id s (initElems id sp s elems).1 :=
  Lib.runAll_invariant (fun t entry _ h => h.trans (initElem_segments id sp t entry)) (.refl id s)

theorem prepare_segments (id : Nat) (mappable : Nat → Bool) (registry : Registry) (s : Store)
    (m : Module) : SegmentFrame id s.takeInstanceId (prepare mappable registry s m).1 := by
  unfold prepare
  split
  · exact .refl id _
  · next sp _ =>
      have hopen : SegmentFrame id s.takeInstanceId (s.openInstance (.of m) .empty) :=
        ⟨rfl, fun _ _ => rfl, fun _ _ => rfl⟩
      have halloc := hopen.trans (allocMemories_segments id mappable _ sp.mems
        (m.mems.drop sp.mems.length))
      rcases hr : allocMemories mappable (s.openInstance (.of m) .empty) sp.mems
        (m.mems.drop sp.mems.length) with ⟨t, e | mems⟩
      all_goals
        rw [hr] at halloc
        exact halloc

theorem instantiate_segments (mappable : Nat → Bool) (registry : Registry) (s : Store)
    (m : Module) :
    SegmentFrame s.nextInstanceId s.takeInstanceId (instantiate mappable registry s m).1 := by
  have hprepare := prepare_segments s.nextInstanceId mappable registry s m
  unfold instantiate
  dsimp only
  rcases hr : prepare mappable registry s m with ⟨s₁, e | sp₁⟩ <;> rw [hr] at hprepare
  · exact hprepare
  rw [Lib.andThen_ok]
  have hdata := hprepare.trans (initData_segments s.nextInstanceId sp₁ s₁ m.data)
  rcases hr : initData s.nextInstanceId sp₁ s₁ m.data with ⟨s₂, e | u⟩ <;> rw [hr] at hdata
  · exact hdata
  rw [Lib.andThen_ok]
  have hallocate := hdata.trans (allocate_segments s.nextInstanceId s.instances.length m s₂ sp₁)
  rcases hr : allocate s.instances.length m s₂ sp₁ with ⟨s₃, e | sp⟩ <;> rw [hr] at hallocate
  · exact hallocate
  rw [Lib.andThen_ok]
  have helems := hallocate.trans (initElems_segments s.nextInstanceId sp s₃ m.elems)
  have hplace : SegmentFrame s.nextInstanceId s.takeInstanceId
      ((initElems s.nextInstanceId sp s₃ m.elems).1.place s.instances.length
        ⟨sp, s.nextInstanceId, s.modules.length⟩) :=
    helems.trans ⟨rfl, fun _ _ => rfl, fun _ _ => rfl⟩
  rcases hr : initElems s.nextInstanceId sp s₃ m.elems with ⟨s₄, e | u⟩ <;> rw [hr] at hplace <;>
    exact hplace

theorem aliasing_segments (registry : Registry) (s : Store)
    (triplets : List (String × String × String)) :
    SegmentFrame s.nextInstanceId s.takeInstanceId (aliasing registry s triplets).1 := by
  unfold aliasing
  split
  · exact .refl _ _
  · exact ⟨rfl, fun _ _ => rfl, fun _ _ => rfl⟩

/-- What one step does to the entries of the instances there are. -/
structure Keeps (key : Nat × Nat) (e : Event) (s t : Store) : Prop where
  nextInstanceId : s.nextInstanceId ≤ t.nextInstanceId
  data : e ≠ .dataDrop key.1 key.2 → t.data key = s.data key
  elems : e ≠ .elemDrop key.1 key.2 → t.elems key = s.elems key
  noData : s.data key = none → t.data key = none
  noElems : s.elems key = none → t.elems key = none

private theorem SegmentFrame.keeps {s t : Store} {key : Nat × Nat} {e : Event}
    (h : SegmentFrame s.nextInstanceId s.takeInstanceId t) (hkey : key.1 < s.nextInstanceId) :
    Keeps key e s t := by
  have hne : key.1 ≠ s.nextInstanceId := Nat.ne_of_lt hkey
  have hdata : t.data key = s.data key := h.data key hne
  have helems : t.elems key = s.elems key := h.elems key hne
  refine ⟨?_, fun _ => hdata, fun _ => helems, fun hnone => hdata.trans hnone,
    fun hnone => helems.trans hnone⟩
  rw [h.nextInstanceId]
  exact Nat.le_succ _

theorem World.after_store (w : World) (r : Store × Except Failure Nat) : (w.after r).store = r.1 := by
  unfold World.after
  split <;> rfl

theorem Step.keeps {allowed : Store → Registry → Module → Prop} {e : Event} {w w' : World}
    {key : Nat × Nat} (h : Step allowed e w w') (hkey : key.1 < w.store.nextInstanceId) :
    Keeps key e w.store w'.store := by
  cases h with
  | @instantiate _ mappable registry m _ _ _ =>
      rw [World.after_store]
      exact (instantiate_segments mappable registry w.store m).keeps hkey
  | @aliasing _ registry triplets _ =>
      rw [World.after_store]
      exact (aliasing_segments registry w.store triplets).keeps hkey
  | dataDrop id idx =>
      by_cases heq : key = (id, idx)
      · subst heq
        exact ⟨Nat.le_refl _, fun hne => absurd rfl hne, fun _ => rfl,
          fun _ => Function.update_self .., fun hnone => hnone⟩
      · have hdata : (w.store.dataDrop id idx).data key = w.store.data key :=
          Function.update_of_ne heq _ _
        exact ⟨Nat.le_refl _, fun _ => hdata, fun _ => rfl, fun hnone => hdata.trans hnone,
          fun hnone => hnone⟩
  | elemDrop id idx =>
      by_cases heq : key = (id, idx)
      · subst heq
        exact ⟨Nat.le_refl _, fun _ => rfl, fun hne => absurd rfl hne, fun hnone => hnone,
          fun _ => Function.update_self ..⟩
      · have helems : (w.store.elemDrop id idx).elems key = w.store.elems key :=
          Function.update_of_ne heq _ _
        exact ⟨Nat.le_refl _, fun _ => rfl, fun _ => helems, fun hnone => hnone,
          fun hnone => helems.trans hnone⟩
  | run hrun =>
      exact ⟨by rw [hrun.nextInstanceId], fun _ => by rw [hrun.data], fun _ => by rw [hrun.elems],
        fun hnone => by rw [hrun.data, hnone], fun hnone => by rw [hrun.elems, hnone]⟩

/-- An entry stays through every run without its drop, and no entry comes back. -/
theorem Moves.keeps {allowed : Store → Registry → Module → Prop} {p : Event → Prop} {w w' : World}
    {key : Nat × Nat} (h : Moves allowed p w w') (hkey : key.1 < w.store.nextInstanceId) :
    w.store.nextInstanceId ≤ w'.store.nextInstanceId ∧
    (¬p (.dataDrop key.1 key.2) → w'.store.data key = w.store.data key) ∧
    (¬p (.elemDrop key.1 key.2) → w'.store.elems key = w.store.elems key) ∧
    (w.store.data key = none → w'.store.data key = none) ∧
    (w.store.elems key = none → w'.store.elems key = none) := by
  induction h with
  | refl => exact ⟨Nat.le_refl _, fun _ => rfl, fun _ => rfl, fun h => h, fun h => h⟩
  | tail _ hstep ih =>
      obtain ⟨hle, hdata, helems, hnoData, hnoElems⟩ := ih
      obtain ⟨e, hp, hstep⟩ := hstep
      have hkeeps := hstep.keeps (Nat.lt_of_lt_of_le hkey hle)
      refine ⟨Nat.le_trans hle hkeeps.nextInstanceId, ?_, ?_, ?_, ?_⟩
      · intro hnot
        have hne : e ≠ .dataDrop key.1 key.2 := fun heq => hnot (heq ▸ hp)
        exact (hkeeps.data hne).trans (hdata hnot)
      · intro hnot
        have hne : e ≠ .elemDrop key.1 key.2 := fun heq => hnot (heq ▸ hp)
        exact (hkeeps.elems hne).trans (helems hnot)
      · exact fun hnone => hkeeps.noData (hnoData hnone)
      · exact fun hnone => hkeeps.noElems (hnoElems hnone)

theorem Reachable.no_entries {allowed : Store → Registry → Module → Prop} {w : World}
    (h : Reachable allowed w) {key : Nat × Nat} (hkey : w.store.nextInstanceId ≤ key.1) :
    w.store.data key = none ∧ w.store.elems key = none := by
  obtain ⟨ceiling, hrun⟩ := h
  induction hrun with
  | refl => exact ⟨rfl, rfl⟩
  | @tail w w' _ hstep ih =>
      obtain ⟨e, -, hstep⟩ := hstep
      have hframe : ∀ t, SegmentFrame w.store.nextInstanceId w.store.takeInstanceId t →
          t.nextInstanceId ≤ key.1 → t.data key = none ∧ t.elems key = none := by
        intro t hframe hle
        have hlt : w.store.nextInstanceId < key.1 := by
          rw [hframe.nextInstanceId] at hle
          exact hle
        have hne := Nat.ne_of_gt hlt
        obtain ⟨hdata, helems⟩ := ih (Nat.le_of_lt hlt)
        exact ⟨(hframe.data key hne).trans hdata, (hframe.elems key hne).trans helems⟩
      cases hstep with
      | @instantiate _ mappable registry m _ _ _ =>
          rw [World.after_store] at hkey ⊢
          exact hframe _ (instantiate_segments mappable registry w.store m) hkey
      | @aliasing _ registry triplets _ =>
          rw [World.after_store] at hkey ⊢
          exact hframe _ (aliasing_segments registry w.store triplets) hkey
      | dataDrop id idx =>
          obtain ⟨hdata, helems⟩ := ih hkey
          refine ⟨?_, helems⟩
          by_cases heq : key = (id, idx)
          · subst heq
            exact Function.update_self ..
          · exact (Function.update_of_ne heq _ _).trans hdata
      | elemDrop id idx =>
          obtain ⟨hdata, helems⟩ := ih hkey
          refine ⟨hdata, ?_⟩
          by_cases heq : key = (id, idx)
          · subst heq
            exact Function.update_self ..
          · exact (Function.update_of_ne heq _ _).trans helems
      | run hrun =>
          change _ ≤ _ at hkey
          rw [hrun.data, hrun.elems]
          rw [hrun.nextInstanceId] at hkey
          exact ih hkey

private theorem foldl_zipIdx {α : Type} (pick : α → Option α) (idx : Nat) (xs : List α) (n : Nat)
    (o : Option α) :
    (xs.zipIdx n).foldl (fun o e => if e.2 = idx then (pick e.1).or o else o) o =
      (if n ≤ idx then (xs[idx - n]?).bind pick else none).or o := by
  induction xs generalizing n o with
  | nil => simp
  | cons x xs ih =>
      rw [List.zipIdx_cons, List.foldl_cons, ih]
      rcases Nat.lt_trichotomy n idx with hlt | rfl | hlt
      · have hsub : idx - n = (idx - (n + 1)) + 1 := by omega
        rw [if_neg (Nat.ne_of_lt hlt), if_pos (by omega), if_pos (Nat.le_of_lt hlt), hsub]
        rfl
      · rw [if_pos rfl, if_neg (by omega), if_pos (Nat.le_refl n), Nat.sub_self]
        rfl
      · rw [if_neg (Nat.ne_of_gt hlt), if_neg (by omega), if_neg (by omega)]

theorem initData_entries {id : Nat} {sp : Spaces} {s : Store} {data : List Data}
    (hfits : ∀ d ∈ data, DataFits s sp d) (idx : Nat) :
    (initData id sp s data).1.data (id, idx) = (data[idx]?).or (s.data (id, idx)) := by
  have hview := @Lib.runAll_view _ _ _ _ (initDatum id sp)
    (fun o e => (if e.2 = idx then (some e.1).or o else o, .ok ())) (fun t => t.data (id, idx))
    (DataFrame s) data.zipIdx (fun t entry _ h => h.trans (initDatum_frame id sp t entry)) ?_ s
    (.refl s)
  · rw [Lib.runAll_pure, foldl_zipIdx some] at hview
    have hentry := (Prod.mk.inj hview).1.symm
    rw [if_pos (Nat.zero_le idx), Nat.sub_zero, Option.bind_fun_some] at hentry
    exact hentry
  · rintro t ⟨d, i⟩ hentry h
    have hfit : DataFits t sp d := (h.fits sp d).mpr
      (hfits d (List.fst_mem_of_mem_zipIdx hentry))
    have hok := (initDatum_ok_iff id sp t d i).mpr hfit
    have hdata : (initDatum id sp t (d, i)).1.data = Function.update t.data (id, i) (some d) := by
      unfold initDatum at hok ⊢
      dsimp only at hok ⊢
      cases hmode : d.mode with
      | passive => rfl
      | active mem offset =>
          rw [hmode] at hok
          dsimp only at hok ⊢
          rcases hwrite : writeData t.globals sp t.memories mem offset d.init with e | memories
          · rw [hwrite] at hok
            cases hok
          · rfl
    rw [hok, hdata, Function.update_apply]
    by_cases heq : i = idx
    · simp [heq]
    · have hne : idx ≠ i := fun h => heq h.symm
      simp [heq, hne]

def keptElem (elem : Elem) : Option Elem := if elem.mode = .passive then some elem else none

theorem initElems_entries {id : Nat} {sp : Spaces} {s : Store} {elems : List Elem}
    (hfits : ∀ elem ∈ elems, ElemFits s sp elem) (idx : Nat) :
    (initElems id sp s elems).1.elems (id, idx) =
      ((elems[idx]?).bind keptElem).or (s.elems (id, idx)) := by
  have hview := @Lib.runAll_view _ _ _ _ (initElem id sp)
    (fun o e => (if e.2 = idx then (keptElem e.1).or o else o, .ok ())) (fun t => t.elems (id, idx))
    (ElemFrame s) elems.zipIdx (fun t entry _ h => h.trans (initElem_frame id sp t entry)) ?_ s
    (.refl s)
  · rw [Lib.runAll_pure, foldl_zipIdx] at hview
    have hentry := (Prod.mk.inj hview).1.symm
    rw [if_pos (Nat.zero_le idx), Nat.sub_zero] at hentry
    exact hentry
  · rintro t ⟨elem, i⟩ hentry h
    have hfit : ElemFits t sp elem := (h.fits sp elem).mpr
      (hfits elem (List.fst_mem_of_mem_zipIdx hentry))
    rw [(initElem_ok_iff id sp t elem i).mpr hfit]
    unfold initElem keptElem
    cases hmode : elem.mode with
    | passive =>
        dsimp only
        rw [Function.update_apply]
        by_cases heq : i = idx
        · simp [heq]
        · have hne : idx ≠ i := fun h => heq h.symm
          simp [heq, hne]
    | declarative =>
        simp
    | active table offset =>
        simp [Store.withTables]

/-- A success leaves an entry for every data segment and for every passive element segment. -/
theorem instantiate_entries {mappable : Nat → Bool} {registry : Registry} {w : World} {m : Module}
    {t : Store} {inst : Nat} {allowed : Store → Registry → Module → Prop}
    (hreach : Reachable allowed w) (hregistry : w.Registers registry)
    (hshaped : Parser.WellShaped m)
    (hok : instantiate mappable registry w.store m = (t, .ok inst)) (idx : Nat) :
    t.data (w.store.nextInstanceId, idx) = m.data[idx]? ∧
      t.elems (w.store.nextInstanceId, idx) = (m.elems[idx]?).bind keptElem := by
  rcases hprepare : prepare mappable registry w.store m with ⟨s₁, e | sp₁⟩
  · unfold instantiate at hok
    rw [hprepare] at hok
    cases hok
  have hready := prepare_ready hreach hregistry hshaped hprepare
  obtain ⟨s₃, sp, hallocate⟩ := hready.allocate hshaped w.store.instances.length
  have hcode := instantiate_eq hprepare hallocate
  obtain ⟨imported, fresh, -, hs₁, -⟩ := prepare_eq_ok hprepare
  obtain ⟨values, hs₃, -⟩ := allocate_eq_ok hallocate
  obtain ⟨hnoData, hnoElems⟩ := @Reachable.no_entries _ w hreach (w.store.nextInstanceId, idx)
    (Nat.le_refl _)
  have hdok := initData_ok_iff w.store.nextInstanceId sp₁ s₁ m.data
  have heok := initElems_ok_iff w.store.nextInstanceId sp s₃ m.elems
  have hdata := @initData_entries w.store.nextInstanceId sp₁ s₁ m.data
  have helems := @initElems_entries w.store.nextInstanceId sp s₃ m.elems
  rw [hcode] at hok
  rcases hD : initData w.store.nextInstanceId sp₁ s₁ m.data with ⟨s₂, e | _⟩ <;>
    rcases hE : initElems w.store.nextInstanceId sp s₃ m.elems with ⟨s₄, e' | _⟩ <;>
    rw [hD, hE] at hok <;> dsimp only at hok <;> cases hok
  rw [hD] at hdok hdata
  rw [hE] at heok helems
  have hdata := hdata (hdok.mp rfl) idx
  have helems := helems (heok.mp rfl) idx
  have hs₁data : s₁.data (w.store.nextInstanceId, idx) = none := by
    rw [hs₁]
    exact hnoData
  have hs₃elems : s₃.elems (w.store.nextInstanceId, idx) = none := by
    rw [hs₃, hs₁]
    exact hnoElems
  rw [hs₁data, Option.or_none] at hdata
  rw [hs₃elems, Option.or_none] at helems
  exact ⟨hdata, helems⟩

/-- `memory.init` from the segment takes nothing but an empty range at 0. -/
def DataDropped (s : Store) (id idx : Nat) : Prop :=
  ∀ src len, src < 2 ^ 32 → len < 2 ^ 32 →
    ((∃ bytes, s.memInitBytes id idx src len = .ok bytes) ↔ src = 0 ∧ len = 0)

/-- `table.init` from the segment, where its destination fits, takes nothing but an empty range
at 0. -/
def ElemDropped (s : Store) (inst : InstanceData) (idx : Nat) : Prop :=
  ∀ (table addr dst src len : Nat) t, inst.tables[table]? = some addr → s.tables[addr]? = some t →
    dst + len ≤ t.entries.length →
    ((s.tableInit inst idx table dst src len).2 = .ok () ↔ src = 0 ∧ len = 0)

theorem dataDropped_of_none {s : Store} {id idx : Nat} (h : s.data (id, idx) = none) :
    DataDropped s id idx := by
  intro src len _ _
  unfold Store.memInitBytes
  rw [h]
  by_cases hzero : len = 0 ∧ src = 0
  · simp [hzero]
  · simp only [hzero, if_false, reduceCtorEq, exists_const, false_iff]
    exact fun h => hzero h.symm

theorem dataDropped_iff {s : Store} {id idx : Nat} {d : Data} (h : s.data (id, idx) = some d) :
    DataDropped s id idx ↔ d.init = [] := by
  unfold DataDropped Store.memInitBytes
  rw [h]
  constructor
  · intro hdropped
    by_contra hne
    have hlen : 1 ≤ d.init.length := List.length_pos_iff.mpr hne
    have hone := (hdropped 0 1 (by omega) (by omega)).mp ⟨_, if_pos ⟨by omega, by omega⟩⟩
    omega
  · intro hempty src len _ _
    dsimp only
    rw [hempty]
    by_cases hzero : src = 0 ∧ len = 0
    · obtain ⟨rfl, rfl⟩ := hzero
      simp
    · have hnot : ¬(src + len < 2 ^ 32 ∧ src + len ≤ ([] : List Byte).length) := by
        rw [List.length_nil]
        omega
      simp only [hnot, if_false, reduceCtorEq, exists_const, hzero]

theorem elemDropped_of_none {s : Store} {inst : InstanceData} {idx : Nat}
    (h : s.elems (inst.instanceId, idx) = none) : ElemDropped s inst idx := by
  intro table addr dst src len t htable ht hle
  simp only [Store.tableInit, htable, Store.withTables, updateTable, ht, h,
    if_neg (Nat.not_lt.mpr hle)]
  by_cases hzero : len = 0 ∧ src = 0
  · simp [hzero]
  · simp only [hzero, if_false, reduceCtorEq, false_iff]
    exact fun h => hzero h.symm

/-- After the instantiation of `m` as `inst`, in every run that follows: an active data segment and
an element segment that is not passive are as dropped, a passive one is kept until it is dropped
and then is as dropped. -/
structure SegmentsSettled (w : World) (inst : InstanceData) (m : Module) : Prop where
  activeData : ∀ (idx : Nat) d, m.data[idx]? = some d → d.mode ≠ .passive →
    ∀ w', Moves anyModule (fun _ => True) w w' → DataDropped w'.store inst.instanceId idx
  passiveData : ∀ (idx : Nat) d, m.data[idx]? = some d → d.mode = .passive →
    ∀ w', Moves anyModule (· ≠ .dataDrop inst.instanceId idx) w w' →
      w'.store.data (inst.instanceId, idx) = some d ∧
      DataDropped (w'.store.dataDrop inst.instanceId idx) inst.instanceId idx
  otherElems : ∀ (idx : Nat) elem, m.elems[idx]? = some elem → elem.mode ≠ .passive →
    ∀ w', Moves anyModule (fun _ => True) w w' → ElemDropped w'.store inst idx
  passiveElems : ∀ (idx : Nat) elem, m.elems[idx]? = some elem → elem.mode = .passive →
    ∀ w', Moves anyModule (· ≠ .elemDrop inst.instanceId idx) w w' →
      w'.store.elems (inst.instanceId, idx) = some elem ∧
      ElemDropped (w'.store.elemDrop inst.instanceId idx) inst idx

theorem segmentsSettled_iff {w : World} {inst : InstanceData} {m : Module}
    (hid : inst.instanceId < w.store.nextInstanceId)
    (hdata : ∀ idx, w.store.data (inst.instanceId, idx) = m.data[idx]?)
    (helems : ∀ idx, w.store.elems (inst.instanceId, idx) = (m.elems[idx]?).bind keptElem) :
    SegmentsSettled w inst m ↔ ∀ d ∈ m.data, d.mode ≠ .passive → d.init = [] := by
  constructor
  · intro h d hd hmode
    obtain ⟨idx, hidx⟩ := List.mem_iff_getElem?.mp hd
    have hdropped := h.activeData idx d hidx hmode w .refl
    exact (dataDropped_iff ((hdata idx).trans hidx)).mp hdropped
  · intro hempty
    refine ⟨?_, ?_, ?_, ?_⟩
    · intro idx d hd hmode w' hmoves
      -- dropped or not, an empty segment has nothing to take
      have hkeeps : w'.store.data (inst.instanceId, idx) = none ∨
          w'.store.data (inst.instanceId, idx) = some d := by
        induction hmoves with
        | refl => exact Or.inr ((hdata idx).trans hd)
        | @tail w₁ w₂ hrun hstep ih =>
            obtain ⟨e, -, hstep⟩ := hstep
            have hlt := (@Moves.keeps _ _ _ _ (inst.instanceId, idx) hrun hid).1
            have hk := @Step.keeps _ _ _ _ (inst.instanceId, idx) hstep (Nat.lt_of_lt_of_le hid hlt)
            rcases ih with hnone | hsome
            · exact Or.inl (hk.noData hnone)
            · by_cases heq : e = .dataDrop inst.instanceId idx
              · subst heq
                cases hstep
                exact Or.inl (Function.update_self ..)
              · exact Or.inr ((hk.data heq).trans hsome)
      rcases hkeeps with hnone | hsome
      · exact dataDropped_of_none hnone
      · exact (dataDropped_iff hsome).mpr (hempty d (List.mem_of_getElem? hd) hmode)
    · intro idx d hd hmode w' hmoves
      obtain ⟨-, hkeep, -⟩ := @Moves.keeps _ _ _ _ (inst.instanceId, idx) hmoves hid
      refine ⟨(hkeep (fun h => h rfl)).trans ((hdata idx).trans hd), ?_⟩
      exact dataDropped_of_none (Function.update_self ..)
    · intro idx elem helem hmode w' hmoves
      obtain ⟨-, -, -, -, hkeep⟩ := @Moves.keeps _ _ _ _ (inst.instanceId, idx) hmoves hid
      refine elemDropped_of_none (hkeep ?_)
      rw [helems idx, helem]
      simp [keptElem, hmode]
    · intro idx elem helem hmode w' hmoves
      obtain ⟨-, -, hkeep, -⟩ := @Moves.keeps _ _ _ _ (inst.instanceId, idx) hmoves hid
      refine ⟨(hkeep (fun h => h rfl)).trans ?_, ?_⟩
      · rw [helems idx, helem]
        simp [keptElem, hmode]
      · exact elemDropped_of_none (Function.update_self ..)

/-! ## The whole -/

/-- The segments of `m` are written in the order of the specification and then live as long as it
says. -/
structure SegmentsInOrder (mappable : Nat → Bool) (registry : Registry) (w : World) (m : Module) :
    Prop where
  order : FollowsOrder mappable registry w.store m
  life : ∀ t inst, instantiate mappable registry w.store m = (t, .ok inst) →
    ∃ data, t.instances[inst]? = some data ∧ SegmentsSettled ⟨t, w.handles ++ [inst]⟩ data m

/-- No active data segment has bytes when all segments fit, and when the segments of one kind do
not fit, those of the other write to nothing that can be reached then. -/
def SegmentsHidden (s s₁ s₃ : Store) (sp₁ sp : Spaces) (m : Module) : Prop :=
  ((∀ d ∈ m.data, DataFits s₁ sp₁ d) ∧ (∀ elem ∈ m.elems, ElemFits s₃ sp elem) ∧
    ∀ d ∈ m.data, d.mode ≠ .passive → d.init = []) ∨
  ((∀ d ∈ m.data, DataFits s₁ sp₁ d) ∧ ∃ tried, Tried s₃ sp m.elems tried ∧
    DataUnseen s s₁ s₃ sp₁ sp m.data tried) ∨
  ((¬∀ d ∈ m.data, DataFits s₁ sp₁ d) ∧ (∀ elem ∈ m.elems, ElemFits s₃ sp elem) ∧
    ElemsUnseen s s₃ sp m.elems)

section whole

variable {mappable : Nat → Bool} {registry : Registry} {w : World} {m : Module}

theorem segmentsInOrder_of_unprepared {s₁ : Store} {e : Failure}
    (hprepare : prepare mappable registry w.store m = (s₁, .error e)) :
    SegmentsInOrder mappable registry w m := by
  have hcode : instantiate mappable registry w.store m = (s₁, .error e) := by
    unfold instantiate
    rw [hprepare]
    rfl
  have hspec : instantiateInOrder mappable registry w.store m = (s₁, .error e) := by
    unfold instantiateInOrder
    rw [hprepare]
    rfl
  refine ⟨⟨?_, ?_, ?_, ?_⟩, ?_⟩
  · rw [hcode, hspec]
  · intro addr _
    rw [hcode, hspec]
  · intro addr _
    rw [hcode, hspec]
  · intro inst hok
    rw [hcode] at hok
    cases hok
  · intro t inst hok
    rw [hcode] at hok
    cases hok

theorem instantiate_fits {s s₁ s₃ : Store} {sp₁ sp : Spaces}
    (hprepare : prepare mappable registry s m = (s₁, .ok sp₁))
    (hallocate : allocate s.instances.length m s₁ sp₁ = (s₃, .ok sp)) :
    (∃ t inst, instantiate mappable registry s m = (t, .ok inst)) ↔
      (∀ d ∈ m.data, DataFits s₁ sp₁ d) ∧ ∀ elem ∈ m.elems, ElemFits s₃ sp elem := by
  have hdok := initData_ok_iff s.nextInstanceId sp₁ s₁ m.data
  have heok := initElems_ok_iff s.nextInstanceId sp s₃ m.elems
  rw [instantiate_eq hprepare hallocate, ← hdok, ← heok]
  rcases initData s.nextInstanceId sp₁ s₁ m.data with ⟨s₂, e | _⟩ <;>
    rcases initElems s.nextInstanceId sp s₃ m.elems with ⟨s₄, e' | _⟩ <;> simp

theorem instantiate_settled_iff (hreach : Reachable anyModule w) (hregistry : w.Registers registry)
    (hshaped : Parser.WellShaped m) {t : Store} {inst : Nat}
    (hok : instantiate mappable registry w.store m = (t, .ok inst)) :
    (∃ data, t.instances[inst]? = some data ∧ SegmentsSettled ⟨t, w.handles ++ [inst]⟩ data m) ↔
      ∀ d ∈ m.data, d.mode ≠ .passive → d.init = [] := by
  obtain ⟨imported, sp, hinst⟩ := instantiate_eq_ok hok
  have hentries := instantiate_entries hreach hregistry hshaped hok
  have hframe := instantiate_segments mappable registry w.store m
  rw [hok] at hframe
  have hhere : t.instances[inst]? = some ⟨sp, w.store.nextInstanceId, w.store.modules.length⟩ := by
    rw [hinst.instances, hinst.inst_eq]
    simp
  have hlt : w.store.nextInstanceId < t.nextInstanceId := by
    rw [hframe.nextInstanceId]
    exact Nat.lt_succ_self _
  have hsettled : SegmentsSettled ⟨t, w.handles ++ [inst]⟩
      ⟨sp, w.store.nextInstanceId, w.store.modules.length⟩ m ↔ _ :=
    segmentsSettled_iff hlt (fun idx => (hentries idx).1) (fun idx => (hentries idx).2)
  rw [← hsettled, hhere]
  simp

end whole

section chosen

/-- A table that is filled when it is made and a data segment for `memory.init`. -/
private def passiveOnly : Module :=
  ⟨[], [], [], [⟨⟨1, none⟩, false⟩], [], [], [], [⟨.funcRef, ⟨2, none⟩⟩],
    [⟨.funcRef, .constExpr [[.refNull .funcRef]], .active 0 [.i32 1]⟩], [],
    [⟨[1, 2], .passive⟩]⟩

private def emptyWorld : World := ⟨.empty 10, []⟩

private theorem emptyWorld_reachable : Reachable anyModule emptyWorld := ⟨10, .refl⟩

private theorem emptyWorld_registers : emptyWorld.Registers fun _ => none :=
  fun name inst h => by cases h

private def activeByte : Module :=
  ⟨[], [], [], [⟨⟨1, none⟩, false⟩], [], [], [], [], [], [], [⟨[1], .active 0 [.i32 0]⟩]⟩

end chosen

end Telomere.Runtime
