import Telomere.Component.FlatValues

/-!
# Values across a call

Values, arguments and results that are lowered into a guest and lifted out of it again. Parameters
that are too many for core values lie one behind the other in one area, as the fields of a tuple do.
-/

namespace Telomere.Component

open Lib (Region Span Covered)

variable {M σ : Type}

namespace Program

variable (p : Program M)

def paramOffsets : Nat → List ValType → List Nat
  | _, [] => []
  | cursor, ty :: params =>
      alignUp cursor (p.abi ty).align ::
        paramOffsets (alignUp cursor (p.abi ty).align + (p.abi ty).size) params

def paramsEnd : Nat → List ValType → Nat
  | cursor, [] => cursor
  | cursor, ty :: params => paramsEnd (alignUp cursor (p.abi ty).align + (p.abi ty).size) params

def paramsAlign (params : List ValType) : Nat :=
  params.foldl (fun align ty => max align (p.abi ty).align) 1

def ParamsFit (params : List ValType) : Prop :=
  alignUp (p.paramsEnd 0 params) (p.paramsAlign params) < 2 ^ 32

variable {p}

theorem le_paramsEnd (params : List ValType) (cursor : Nat) : cursor ≤ p.paramsEnd cursor params := by
  induction params generalizing cursor with
  | nil => exact Nat.le_refl _
  | cons ty params ih =>
      have hstart := le_alignUp cursor (p.abi ty).align
      have hrest := ih (alignUp cursor (p.abi ty).align + (p.abi ty).size)
      unfold paramsEnd
      omega

theorem foldl_align_mem (params : List ValType) {align : Nat} (halign : align ∈ alignments) :
    params.foldl (fun align ty => max align (p.abi ty).align) align ∈ alignments := by
  induction params generalizing align with
  | nil => exact halign
  | cons ty params ih => exact ih (max_mem_alignments halign (p.abi_align ty))

theorem foldlM_areaValue {params : List ValType} (hknown : ∀ ty ∈ params, p.Known ty)
    {cursor : Nat} (hfits : p.paramsEnd cursor params < 2 ^ 32) (offsets : List Nat) (align : Nat) :
    params.foldlM p.areaValue (offsets, cursor, align) =
      .ok (offsets ++ p.paramOffsets cursor params, p.paramsEnd cursor params,
        params.foldl (fun align ty => max align (p.abi ty).align) align) := by
  induction params generalizing offsets cursor align with
  | nil => simp [paramOffsets, paramsEnd, pure, Except.pure]
  | cons ty params ih =>
      have habi := memoryAbiForValtype_eq (hknown ty (List.mem_cons_self ..))
      have hle := le_paramsEnd (p := p) params (alignUp cursor (p.abi ty).align + (p.abi ty).size)
      unfold paramsEnd at hfits
      have hcursor : alignTo cursor (p.abi ty).align = alignUp cursor (p.abi ty).align :=
        alignTo_eq (by omega)
      have hnext : saturatingAdd (alignUp cursor (p.abi ty).align) (p.abi ty).size =
          alignUp cursor (p.abi ty).align + (p.abi ty).size := Nat.min_eq_left (by omega)
      have hstep : p.areaValue (offsets, cursor, align) ty =
          .ok (offsets ++ [alignUp cursor (p.abi ty).align],
            alignUp cursor (p.abi ty).align + (p.abi ty).size, max align (p.abi ty).align) := by
        unfold areaValue
        dsimp only
        rw [habi, Lib.ok_bind, Nat.max_eq_left (p.abi_align_pos ty), hcursor, hnext]
        rfl
      rw [List.foldlM_cons, hstep, Lib.ok_bind,
        ih (fun ty hmem => hknown ty (List.mem_cons_of_mem _ hmem)) hfits, List.append_assoc]
      rfl

theorem valueAreaLayout_eq {params : List ValType} (hknown : ∀ ty ∈ params, p.Known ty)
    (hfits : p.ParamsFit params) :
    p.valueAreaLayout params = .ok ⟨p.paramOffsets 0 params,
      alignUp (p.paramsEnd 0 params) (p.paramsAlign params), p.paramsAlign params⟩ := by
  unfold ParamsFit at hfits
  have hend := le_alignUp (p.paramsEnd 0 params) (p.paramsAlign params)
  have hfold := @foldlM_areaValue M p params hknown 0 (by omega) [] 1
  unfold valueAreaLayout
  rw [hfold, Lib.ok_bind]
  change Except.ok (ValueAreaLayout.mk _ (alignTo _ (p.paramsAlign params)) _) = _
  rw [alignTo_eq hfits]
  rfl

theorem valueFlatLen_known {ty : ValType} (hknown : p.Known ty) :
    ∃ len, p.valueFlatLen ty = .ok len := by
  cases ty with
  | primitive prim => exact ⟨_, rfl⟩
  | type id =>
      refine ⟨(p.info (.type id)).flatLen, ?_⟩
      unfold valueFlatLen
      dsimp only
      rw [p.getElem?_typeInfos (hknown id (List.mem_singleton_self id))]

theorem paramsFlatLen_known {params : List ValType} (hknown : ∀ ty ∈ params, p.Known ty)
    (acc : Nat) :
    ∃ len, params.foldlM (fun len ty => do return len + (← p.valueFlatLen ty)) acc =
      Except.ok len := by
  induction params generalizing acc with
  | nil => exact ⟨acc, rfl⟩
  | cons ty params ih =>
      obtain ⟨len, hlen⟩ := valueFlatLen_known (hknown ty (List.mem_cons_self ..))
      obtain ⟨total, htotal⟩ := ih (fun ty hmem => hknown ty (List.mem_cons_of_mem _ hmem)) (acc + len)
      refine ⟨total, ?_⟩
      rw [List.foldlM_cons, hlen]
      exact htotal

end Program

section values

variable {alloc : Allocator σ} {B : List Region} {w : World σ} {o : RuntimeCanonicalOptions σ}
  {p : Program M}

/-- The values of a type, its references followed as far as they go. -/
def ValueTyped (p : Program M) (o : RuntimeCanonicalOptions σ) (ty : ValType)
    (value : ComponentValue) : Prop :=
  Typed p (o.stringEncoding.getD .utf8) p.arena.types.length ty value

/-- A value that is written to a place of its type is read back from it. -/
theorem writeValueToMemory_readValueFromMemory (ho : Reaches alloc o) {ty : ValType}
    {value : ComponentValue} {ptr : Nat} (htyped : ValueTyped p o ty value)
    (hholds : alloc.Holds w.guest B) (harea : Area B w ptr (p.abi ty).size) :
    Stores alloc B (Span ptr (p.abi ty).size) (p.writeValueToMemory o value ty ptr) w fun _ m =>
      p.readValueFromMemory o m ty ptr = .ok value :=
  (level_stores ho p.arena.types.length).memory htyped hholds harea

theorem lowerValueToFlat_back (ho : Reaches alloc o) {ty : ValType} {value : ComponentValue}
    {types : List CoreValType} (htyped : ValueTyped p o ty value) (htypes : p.flatTypes ty = .ok types)
    (hholds : alloc.Holds w.guest B) :
    Stores alloc B (fun _ => False) (p.lowerValueToFlat o value ty) w
      (FlatBack (fun m => lifting p o m p.arena.types.length) ty value types) := by
  have hok : (lowering p o p.arena.types.length).flatTypes ty = .ok types := by
    rw [lowering_flatTypes]
    exact htypes
  exact (level_lifts ho p.arena.types.length).flat htyped hok hholds

/-- A value that is lowered to core values is lifted from them, whatever follows them. -/
theorem lowerValueToFlat_liftValue (ho : Reaches alloc o) {ty : ValType} {value : ComponentValue}
    {types : List CoreValType} (htyped : ValueTyped p o ty value) (htypes : p.flatTypes ty = .ok types)
    (hholds : alloc.Holds w.guest B) :
    Stores alloc B (fun _ => False) (p.lowerValueToFlat o value ty) w fun flat m =>
      flat.map WasmValue.ty = types ∧
        ∀ rest, p.liftValue o m ty (flat ++ rest) = .ok (value, rest) :=
  Stores.mono (lowerValueToFlat_back ho htyped htypes hholds) (fun _ h => h) fun _ _ hback =>
    ⟨hback.types, hback.takes⟩

theorem writeArgs_stores (ho : Reaches alloc o) {params : List ValType} {args : List ComponentValue}
    (htyped : List.Forall₂ (ValueTyped p o) params args) (ptr total cursor : Nat)
    (hend : p.paramsEnd cursor params ≤ total) (hlt : ptr + total < 2 ^ 32)
    (hholds : alloc.Holds w.guest B)
    (harea : Area B w (ptr + cursor) (ptr + total - (ptr + cursor))) :
    Stores alloc B (Span (ptr + cursor) (ptr + total - (ptr + cursor)))
      (p.writeArgs o ptr args params (p.paramOffsets cursor params)) w fun _ m =>
        p.readArgs o m ptr params (p.paramOffsets cursor params) = .ok args := by
  induction htyped generalizing cursor w B with
  | nil => exact Stores.pure hholds fun _ => rfl
  | @cons ty value params args hvalue _ ih =>
      have hstart := le_alignUp cursor (p.abi ty).align
      unfold Program.paramsEnd at hend
      have hnext := Program.le_paramsEnd (p := p) params
        (alignUp cursor (p.abi ty).align + (p.abi ty).size)
      have hptr : u32Add ptr (alignUp cursor (p.abi ty).align) =
          ptr + alignUp cursor (p.abi ty).align := u32Add_eq (by omega)
      unfold Program.paramOffsets Program.writeArgs
      rw [hptr]
      refine Stores.bind_next (ptr + (alignUp cursor (p.abi ty).align + (p.abi ty).size)) harea
        (by omega) (by omega) (by omega)
        ((level_stores ho p.arena.types.length).memory hvalue hholds
          (harea.sub (by omega) (by omega))) ?_
      intro _ w₁ B₁ hholds₁ harea₁ _
      refine Stores.mono (ih _ hend hholds₁ (harea₁.sub (by omega) (by omega))) (fun _ h => h) ?_
      intro _ m hargs hvalue
      have hfirst : p.readValueFromMemory o m ty (ptr + alignUp cursor (p.abi ty).align) = .ok value :=
        hvalue
      unfold Program.readArgs
      rw [hptr, hfirst, Lib.ok_bind, hargs]
      rfl

theorem lowerArgs_stores (ho : Reaches alloc o) {params : List ValType} {args : List ComponentValue}
    (htyped : List.Forall₂ (ValueTyped p o) params args)
    (htypes : ∀ ty ∈ params, ∃ types, p.flatTypes ty = .ok types) (hholds : alloc.Holds w.guest B) :
    Stores alloc B (fun _ => False) (p.lowerArgs o args params) w fun flat m =>
      CoreValueCursor.Takes (p.liftArgs o m params) flat args := by
  induction htyped generalizing w B with
  | nil => exact Stores.pure hholds fun m => .pure []
  | @cons ty value params args hvalue _ ih =>
      obtain ⟨types, hty⟩ := htypes ty (List.mem_cons_self ..)
      refine Stores.bind_flat (lowerValueToFlat_back ho hvalue hty hholds) ?_
      intro lowered w₁ B₁ hholds₁ _
      refine Stores.bind_pure (ih (fun ty hmem => htypes ty (List.mem_cons_of_mem _ hmem)) hholds₁) ?_
      intro rest m htakes hback
      have hfirst : CoreValueCursor.Takes (p.liftValue o m ty) lowered value := hback.takes
      exact hfirst.bind htakes.map

theorem allocateArea_bind {β : Type} {layout : ValueAreaLayout} {f : Nat → Canon σ β}
    {Q : β → LinearMemory → Prop} (hholds : alloc.Holds w.guest B) (halign : layout.align ∈ alignments)
    (hsize : layout.size < 2 ^ 32)
    (hf : ∀ ptr w₁ B₁, alloc.Holds w₁.guest B₁ → Area B₁ w₁ ptr layout.size →
      Stores alloc B₁ (Span ptr layout.size) (f ptr) w₁ Q) :
    Stores alloc B (fun _ => False) (Program.allocateArea alloc.realloc layout >>= f) w Q := by
  unfold Program.allocateArea
  split
  · next hzero =>
      rw [pure_bind]
      have hbounds := Nat.zero_le w.guest.memory.size
      refine Stores.mono (hf 0 w B hholds ⟨⟨by omega, by omega⟩, ?_⟩) ?_ fun _ _ h => h
      · intro addr h
        unfold Span at h
        omega
      · intro addr h
        unfold Span at h
        omega
  · refine Stores.allocate_bind hholds halign hsize ?_
    intro ptr w₁ hholds₁ _ harea _
    exact Stores.mono (hf ptr w₁ _ hholds₁ harea) (fun _ h => Or.inr h) fun _ _ h => h

/-- The arguments of a call are lifted from what they were lowered to. -/
theorem lowerComponentArgs_liftComponentArgs (ho : Reaches alloc o) {func : FuncType}
    {args : List ComponentValue} (htyped : List.Forall₂ (ValueTyped p o) func.params args)
    (htypes : ∀ ty ∈ func.params, ∃ types, p.flatTypes ty = .ok types)
    (hfits : p.ParamsFit func.params) (hholds : alloc.Holds w.guest B) :
    Stores alloc B (fun _ => False) (p.lowerComponentArgs o func args) w fun flat m =>
      p.liftComponentArgs o m func flat = .ok args := by
  have hknown : ∀ ty ∈ func.params, p.Known ty := by
    intro ty hmem
    obtain ⟨i, hi, rfl⟩ := List.getElem_of_mem hmem
    exact (htyped.get hi (htyped.length_eq ▸ hi)).known
  obtain ⟨len, hlen⟩ : ∃ len, p.functionParamsFlatLen func = .ok len :=
    Program.paramsFlatLen_known hknown 0
  have hlayout := Program.valueAreaLayout_eq hknown hfits
  have hend := le_alignUp (p.paramsEnd 0 func.params) (p.paramsAlign func.params)
  unfold Program.ParamsFit at hfits
  unfold Program.lowerComponentArgs Program.liftComponentArgs
  rw [if_neg (by simp [htyped.length_eq])]
  simp only [hlen, hlayout, Lib.lift_ok_bind, Lib.ok_bind, ho.requireMemory_eq, ho.requireRealloc_eq]
  by_cases hspill : maxFlatParams < len
  · simp only [if_pos hspill]
    refine allocateArea_bind hholds (Program.foldl_align_mem _ one_mem_alignments) hfits ?_
    intro ptr w₁ B₁ hholds₁ harea
    dsimp only at harea ⊢
    have hargs := writeArgs_stores ho htyped ptr _ 0 hend harea.inBounds.1 hholds₁
      (by rwa [Nat.add_zero, Nat.add_sub_cancel_left])
    rw [Nat.add_zero, Nat.add_sub_cancel_left] at hargs
    refine Stores.bind_pure hargs fun _ m hread => ?_
    have hptr : (BitVec.ofNat 32 ptr).toNat = ptr :=
      toNat_ofNat_of_lt (Nat.lt_of_le_of_lt (Nat.le_add_right _ _) harea.inBounds.1)
    simp only [Program.areaPointer, hptr, Lib.ok_bind, hread]
  · simp only [if_neg hspill]
    refine Stores.mono (lowerArgs_stores ho htyped htypes hholds) (fun _ h => h) ?_
    intro flat m htakes
    have hall := htakes []
    rw [List.append_nil] at hall
    rw [hall]
    rfl

/-- The results of a function, where core values are not too few for them. -/
def ResultsTyped (p : Program M) (o : RuntimeCanonicalOptions σ) :
    Option ValType → List ComponentValue → Prop
  | none, results => results = []
  | some ty, results => ∃ value, results = [value] ∧ ValueTyped p o ty value ∧
      ∃ types, p.flatTypes ty = .ok types

/-- What the caller of a core function sees as its results: the address it gave, for results that
were written there. -/
def resultsBehind (area : Option Nat) (flat : List WasmValue) : List WasmValue :=
  match area with
  | some ptr => [.i32 (BitVec.ofNat 32 ptr)]
  | none => flat

theorem resultsBehind_some (ptr : BitVec 32) (flat : List WasmValue) :
    resultsBehind (some ptr.toNat) flat = [.i32 ptr] := by
  simp [resultsBehind]

def resultSize (p : Program M) : Option ValType → Nat
  | none => 0
  | some ty => (p.abi ty).size

/-- The address of results that were written to memory was the last argument. -/
theorem resultArea_cases {ty : ValType} {func : FuncType} {coreArgs : List WasmValue}
    {area : Option Nat} {len : Nat} (hresult : func.result = some ty)
    (hlen : p.valueFlatLen ty = .ok len)
    (hnamed : p.loweredIndirectResultArea func coreArgs = .ok area) :
    (len ≤ maxFlatResults ∧ area = none) ∨
      (maxFlatResults < len ∧ ∃ ptr : BitVec 32, area = some ptr.toNat) := by
  unfold Program.loweredIndirectResultArea at hnamed
  rw [hresult] at hnamed
  simp only [hlen, Lib.ok_bind] at hnamed
  by_cases hspill : len ≤ maxFlatResults
  · rw [if_pos hspill] at hnamed
    exact Or.inl ⟨hspill, (Lib.pure_eq_ok.mp hnamed).symm⟩
  · rw [if_neg hspill] at hnamed
    refine Or.inr ⟨by omega, ?_⟩
    cases hlast : coreArgs.getLast? with
    | none =>
        rw [hlast] at hnamed
        cases hnamed
    | some value =>
        rw [hlast] at hnamed
        cases value with
        | i32 ptr => exact ⟨ptr, (Lib.pure_eq_ok.mp hnamed).symm⟩
        | _ => cases hnamed

/-- The results are lifted from the core values, or from the area the caller named for them. -/
theorem lowerComponentResults_liftComponentResults (ho : Reaches alloc o) {func : FuncType}
    {results : List ComponentValue} {coreArgs : List WasmValue} {area : Option Nat}
    (htyped : ResultsTyped p o func.result results)
    (hnamed : p.loweredIndirectResultArea func coreArgs = .ok area) (hholds : alloc.Holds w.guest B)
    (harea : ∀ ptr, area = some ptr → Area B w ptr (resultSize p func.result)) :
    Stores alloc B (fun addr => ∃ ptr, area = some ptr ∧ Span ptr (resultSize p func.result) addr)
      (p.lowerComponentResults o func results area) w fun flat m =>
        p.liftComponentResults o m func (resultsBehind area flat) = .ok results := by
  unfold Program.lowerComponentResults Program.liftComponentResults
  cases hresult : func.result with
  | none =>
      rw [hresult] at htyped
      obtain rfl : results = [] := htyped
      exact Stores.pure hholds fun _ => rfl
  | some ty =>
      rw [hresult] at htyped harea
      obtain ⟨value, rfl, hvalue, types, htypes⟩ := htyped
      obtain ⟨len, hlen⟩ := Program.valueFlatLen_known hvalue.known
      simp only [hlen, Lib.lift_ok_bind, Program.liftResult]
      rcases resultArea_cases hresult hlen hnamed with ⟨hle, rfl⟩ | ⟨hspill, ptr, rfl⟩
      · simp only [if_neg (Nat.not_lt.mpr hle)]
        refine Stores.mono (lowerValueToFlat_back ho hvalue htypes hholds)
          (fun _ h => False.elim h) ?_
        intro flat m hback
        have hall : p.liftValue o m ty (flat ++ []) = .ok (value, []) := hback.takes []
        rw [List.append_nil] at hall
        simp only [resultsBehind, hall, Lib.ok_bind]
        rfl
      · simp only [if_pos hspill, ho.requireMemory_eq, Lib.lift_ok_bind]
        have hstored := (level_stores ho p.arena.types.length).memory hvalue hholds (harea _ rfl)
        refine Stores.bind_pure (Stores.mono hstored (fun addr h => ⟨_, rfl, h⟩) fun _ _ h => h) ?_
        intro _ m hstored
        have hread : p.readValueFromMemory o m ty ptr.toNat = .ok value := hstored
        rw [resultsBehind_some]
        have hrun : (CoreValueCursor.nextI32 >>= fun pointer =>
            (liftM (p.readValueFromMemory o m ty pointer.toNat) : CoreValueCursor ComponentValue))
              [.i32 ptr] = .ok (value, []) := by
          change (p.readValueFromMemory o m ty ptr.toNat >>= fun value => .ok (value, [])) = _
          rw [hread, Lib.ok_bind]
        rw [hrun]
        rfl

end values

section bump

def bumpRealloc (args : List WasmValue) (g : Guest Nat) :
    Except ComponentError (List WasmValue × Guest Nat) :=
  match args with
  | [.i32 oldPtr, .i32 oldLen, .i32 align, .i32 newLen] =>
      let ptr := alignUp g.state align.toNat
      let bytes := g.memory.read oldPtr.toNat (min oldLen.toNat newLen.toNat)
      if ptr + newLen.toNat < 2 ^ 32 ∧ ptr + newLen.toNat ≤ g.memory.size then
        .ok ([.i32 (BitVec.ofNat 32 ptr)], ⟨g.memory.write ptr bytes, ptr + newLen.toNat⟩)
      else .error (.trap "unreachable")
  | _ => .error (.trap "unreachable")

def BumpHolds (g : Guest Nat) (blocks : List Region) : Prop :=
  g.state < 2 ^ 32 ∧ ∀ b ∈ blocks, b.1 + b.2 ≤ g.state

theorem bumpRealloc_args {old : Region} {align newLen : Nat} {g : Guest Nat}
    (hold : old.1 + old.2 < 2 ^ 32) (halign : align < 2 ^ 32) (hlen : newLen < 2 ^ 32) :
    bumpRealloc (reallocArgs old align newLen) g =
      if alignUp g.state align + newLen < 2 ^ 32 ∧ alignUp g.state align + newLen ≤ g.memory.size then
        .ok ([.i32 (BitVec.ofNat 32 (alignUp g.state align))],
          ⟨g.memory.write (alignUp g.state align) (g.memory.read old.1 (min old.2 newLen)),
            alignUp g.state align + newLen⟩)
      else .error (.trap "unreachable") := by
  have hptr : (BitVec.ofNat 32 old.1).toNat = old.1 := toNat_ofNat_of_lt (by omega)
  have holdLen : (BitVec.ofNat 32 old.2).toNat = old.2 := toNat_ofNat_of_lt (by omega)
  simp only [reallocArgs, List.map_cons, List.map_nil, bumpRealloc, hptr, holdLen,
    toNat_ofNat_of_lt halign, toNat_ofNat_of_lt hlen]

theorem bump_served {g : Guest Nat} {place : Region} {rest : List Region} {align newLen : Nat}
    (hrest : ∀ b ∈ rest, b.1 + b.2 ≤ g.state)
    (halign : align = 1 ∨ align = 2 ∨ align = 4 ∨ align = 8)
    (hroom : alignUp g.state align + newLen < 2 ^ 32 ∧
      alignUp g.state align + newLen ≤ g.memory.size) :
    Served g ⟨g.memory.write (alignUp g.state align) (g.memory.read place.1 (min place.2 newLen)),
      alignUp g.state align + newLen⟩ rest place (alignUp g.state align) align newLen where
  aligned := alignUp_mod g.state (by omega)
  inBounds := hroom
  fresh := by
    rintro addr hspan ⟨b, hmem, hb⟩
    have hend := hrest b hmem
    have hstart := le_alignUp g.state align
    unfold Span at hspan hb
    omega
  kept := by
    rintro addr ⟨b, hmem, hb⟩
    have hend := hrest b hmem
    have hstart := le_alignUp g.state align
    apply LinearMemory.write_outside
    unfold Span at hb ⊢
    omega
  copied := by
    intro i hold hnew
    have hlen : (g.memory.read place.1 (min place.2 newLen)).length = min place.2 newLen := by
      simp [LinearMemory.read]
    have hi : i < (g.memory.read place.1 (min place.2 newLen)).length := by omega
    exact (LinearMemory.write_at hi).trans (by simp [LinearMemory.read])
  grown := Nat.le_refl _

theorem bump_serves (g : Guest Nat) (blocks : List Region) (old : Option Region) (align newLen : Nat)
    (hholds : BumpHolds g blocks) (hold : ∀ b, old = some b → b ∈ blocks) (halign : align ∈ alignments)
    (hlen : newLen < 2 ^ 32) :
    Lib.Yields (fun e => e = .trap "unreachable")
      (bumpRealloc (reallocArgs (old.getD (0, 0)) align newLen)) g fun results g' =>
        ∃ ptr : BitVec 32, results = [.i32 ptr] ∧
          Served g g' (without blocks old) (old.getD (0, 0)) ptr.toNat align newLen ∧
          BumpHolds g' ((ptr.toNat, newLen) :: without blocks old) := by
  obtain ⟨hstate, hblocks⟩ := hholds
  have hplace : (old.getD (0, 0)).1 + (old.getD (0, 0)).2 ≤ g.state := by
    cases old with
    | none => exact Nat.zero_le _
    | some b => exact hblocks b (hold b rfl)
  have hrest : ∀ b ∈ without blocks old, b.1 + b.2 ≤ g.state := by
    intro b hmem
    cases old with
    | none => exact hblocks b hmem
    | some old => exact hblocks b (List.mem_of_mem_erase hmem)
  generalize old.getD (0, 0) = place at hplace ⊢
  generalize without blocks old = rest at hrest ⊢
  have haligned := mem_alignments.mp halign
  have hstart := le_alignUp g.state align
  unfold Lib.Yields
  rw [bumpRealloc_args (by omega) (by omega) hlen]
  split
  · next hok =>
      split at hok
      · next hroom =>
          cases hok
          have hptr : (BitVec.ofNat 32 (alignUp g.state align)).toNat = alignUp g.state align :=
            toNat_ofNat_of_lt (by omega)
          refine ⟨_, rfl, ?_, ?_⟩
          · rw [hptr]
            exact bump_served hrest haligned hroom
          · rw [hptr]
            refine ⟨hroom.1, ?_⟩
            intro b hmem
            rcases List.mem_cons.mp hmem with rfl | hmem
            · exact Nat.le_refl _
            · have := hrest b hmem
              dsimp only
              omega
      · cases hok
  · next herror =>
      split at herror
      · cases herror
      · cases herror
        rfl

theorem bump_write (g : Guest Nat) (blocks : List Region) (ptr : Nat) (bytes : List Byte)
    (hholds : BumpHolds g blocks) (_ : ∀ addr, Span ptr bytes.length addr → Covered blocks addr) :
    BumpHolds { g with memory := g.memory.write ptr bytes } blocks :=
  hholds

/-- The contract of `realloc` can be met. -/
def bumpAllocator : Allocator Nat where
  realloc := bumpRealloc
  Refuses e := e = .trap "unreachable"
  Holds := BumpHolds
  write := bump_write
  serves := bump_serves

end bump

section chosen

/-- A list of strings, and a record with a name beside it. -/
private def taggedTypes : List (Ty Empty) :=
  [.defVal (.list (.primitive .string) none),
    .defVal (.record [⟨"name", .primitive .string⟩, ⟨"tags", .type 0⟩]),
    .func ⟨[.type 1, .type 1, .type 1, .type 1, .type 1], [], some (.type 1)⟩]

private def taggedArena : TypeArena Empty where
  types := taggedTypes
  refs_lt := by
    intro id ty h
    match id, h with
    | 0, h => cases h; decide
    | 1, h => cases h; decide
    | 2, h => cases h; decide
  names_nodup := by
    intro ty h
    simp only [taggedTypes, List.mem_cons, List.not_mem_nil, or_false] at h
    rcases h with rfl | rfl | rfl <;> trivial
  generic_sub := by
    intro g h
    simp [taggedTypes] at h

private def taggedProgram : Program Empty where
  arena := taggedArena
  typeInfos := [⟨0, 2, 8, 4, none⟩, ⟨1, 4, 16, 4, none⟩, ⟨2, 0, 0, 1, none⟩]
  built := rfl

private def bumpOptions : RuntimeCanonicalOptions Nat := ⟨none, true, some bumpAllocator.realloc⟩

private def bumpWorld : World Nat := ⟨⟨⟨65536, fun _ => 0⟩, 24⟩, []⟩

private def taggedValue : ComponentValue :=
  .record [("name", .string "a"), ("tags", .list [.string "b", .string "c"])]

private theorem bump_reaches : Reaches bumpAllocator bumpOptions := ⟨rfl, rfl⟩

private theorem short_typed (s : String) (hfits : s.utf8ByteSize < 2 ^ 32) :
    PrimTyped .utf8 .string (.string s) := .string s hfits

private theorem tags_typed :
    Typed taggedProgram .utf8 2 (.type 0) (.list [.string "b", .string "c"]) := by
  refine ⟨_, rfl, [.string "b", .string "c"], rfl, by simp, by decide, ?_⟩
  intro value hmem
  rcases List.mem_pair.mp hmem with rfl | rfl
  · exact ⟨short_typed "b" (by decide), by decide⟩
  · exact ⟨short_typed "c" (by decide), by decide⟩

private theorem tagged_typed : ValueTyped taggedProgram bumpOptions (.type 1) taggedValue := by
  refine ⟨_, rfl, ?_, by decide, [.string "a", .list [.string "b", .string "c"]], rfl, ?_⟩
  · unfold Program.RecordFits
    decide
  · exact .cons (short_typed "a" (by decide)) (.cons tags_typed .nil)

private theorem bump_holds : bumpAllocator.Holds bumpWorld.guest [(8, 16)] :=
  ⟨by decide, by simp [bumpWorld]⟩

private theorem bump_area : Area [(8, 16)] bumpWorld 8 16 :=
  ⟨by decide, fun addr h => Lib.covered_cons.mpr (Or.inl h)⟩

theorem tagged_stored :
    Stores bumpAllocator [(8, 16)] (Span 8 16)
      (taggedProgram.writeValueToMemory bumpOptions taggedValue (.type 1) 8) bumpWorld fun _ m =>
        taggedProgram.readValueFromMemory bumpOptions m (.type 1) 8 = .ok taggedValue :=
  writeValueToMemory_readValueFromMemory bump_reaches tagged_typed bump_holds bump_area

theorem tagged_lowered :
    Stores bumpAllocator [(8, 16)] (fun _ => False)
      (taggedProgram.lowerValueToFlat bumpOptions taggedValue (.type 1)) bumpWorld fun flat m =>
        flat.map WasmValue.ty = [.i32, .i32, .i32, .i32] ∧ ∀ rest,
          taggedProgram.liftValue bumpOptions m (.type 1) (flat ++ rest) = .ok (taggedValue, rest) :=
  lowerValueToFlat_liftValue bump_reaches tagged_typed rfl bump_holds

/-- Five of the records take more core values than a call passes. -/
theorem tagged_args :
    Stores bumpAllocator [(8, 16)] (fun _ => False)
      (taggedProgram.lowerComponentArgs bumpOptions ⟨List.replicate 5 (.type 1), [], some (.type 1)⟩
        (List.replicate 5 taggedValue)) bumpWorld fun flat m =>
        taggedProgram.liftComponentArgs bumpOptions m
          ⟨List.replicate 5 (.type 1), [], some (.type 1)⟩ flat = .ok (List.replicate 5 taggedValue) := by
  refine lowerComponentArgs_liftComponentArgs bump_reaches ?_ ?_ ?_ bump_holds
  · simp [List.replicate, tagged_typed]
  · intro ty hmem
    exact ⟨[.i32, .i32, .i32, .i32], by rw [List.eq_of_mem_replicate hmem]; rfl⟩
  · unfold Program.ParamsFit
    decide

theorem tagged_results :
    Stores bumpAllocator [(8, 16)] (fun addr => ∃ ptr, some 8 = some ptr ∧ Span ptr 16 addr)
      (taggedProgram.lowerComponentResults bumpOptions ⟨[], [], some (.type 1)⟩ [taggedValue]
        (some 8)) bumpWorld fun flat m =>
        taggedProgram.liftComponentResults bumpOptions m ⟨[], [], some (.type 1)⟩
          (resultsBehind (some 8) flat) = .ok [taggedValue] := by
  have hnamed : taggedProgram.loweredIndirectResultArea ⟨[], [], some (.type 1)⟩ [.i32 8] =
      .ok (some 8) := rfl
  refine lowerComponentResults_liftComponentResults bump_reaches
    ⟨taggedValue, rfl, tagged_typed, _, rfl⟩ hnamed bump_holds ?_
  rintro ptr ⟨⟩
  exact bump_area

end chosen

end Telomere.Component
