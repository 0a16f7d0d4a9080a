import Telomere.Component.OptionDemands

/-!
# Accepted options

What the decoder accepts is enough for the runtime wherever no conversion comes to a list of fixed
length without the option it takes for one. Lists and strings are two core values each, so a value
that is lifted or lowered as a single core value asks for nothing.
-/

namespace Telomere.Component

open ComponentError (MissingOption)
open Lib (Demand Spares RunSpares Heeds RunHeeds)

variable {M σ : Type}

section length

variable {path : Path} {types : List (Ty M)}

private theorem prim_two_le {prim : PrimValType} (hasks : (primDemand path prim).asks = true) :
    2 ≤ (flatTypesForPrimitive prim).length := by
  cases prim <;> first | exact Nat.le_refl 2 | cases hasks

private theorem exists_asks {ι : Type} {d : ι → Demand} {xs : List ι} {whole : Demand}
    (hnone : (∀ x ∈ xs, (d x).asks = false) → whole.asks = false) (hasks : whole.asks = true) :
    ∃ x ∈ xs, (d x).asks = true := by
  by_contra hcon
  have hfalse := hnone fun x hmem => Bool.eq_false_iff.mpr fun h => hcon ⟨x, hmem, h⟩
  rw [hasks] at hfalse
  cases hfalse

section level

variable {below : ValType → Demand} {flatTypes : ValType → Except ComponentError (List CoreValType)}
  (hbelow : ∀ ty flat, (below ty).asks = true → flatTypes ty = .ok flat → 2 ≤ flat.length)

include hbelow

private theorem record_two_le {fields : List LabelValType} {flat : List CoreValType}
    (hasks : (Demand.seqAll (fun field => below field.ty) fields).asks = true)
    (hflat : flatTypesForDefval flatTypes (.record fields) = .ok flat) : 2 ≤ flat.length := by
  obtain ⟨field, hmem, hfield⟩ := exists_asks Demand.seqAll_asks_eq_false hasks
  refine (Lib.foldlM_reaches (μ := List.length) (Q := fun field => (below field.ty).asks = true)
    ?_ ?_ hflat).2 ⟨field, hmem, hfield⟩
  · intro field _ out out' hstep
    obtain ⟨flat, -, heq⟩ := Lib.bind_eq_ok.mp hstep
    rw [← Lib.pure_eq_ok.mp heq, List.length_append]
    exact Nat.le_add_right _ _
  · intro field _ out out' hstep hfield
    obtain ⟨flat, hflat, heq⟩ := Lib.bind_eq_ok.mp hstep
    rw [← Lib.pure_eq_ok.mp heq, List.length_append]
    exact Nat.le_trans (hbelow _ _ hfield hflat) (Nat.le_add_left _ _)

private theorem variant_two_le {cases : List Case} {flat : List CoreValType}
    (hasks : (Demand.altAll (caseDemand below) cases).asks = true)
    (hflat : flatTypesForDefval flatTypes (.variant cases) = .ok flat) : 2 ≤ flat.length := by
  obtain ⟨case, hmem, hcase⟩ := exists_asks Demand.altAll_asks_eq_false hasks
  obtain ⟨payload, hpayload, heq⟩ := Lib.bind_eq_ok.mp hflat
  rw [← Lib.pure_eq_ok.mp heq]
  refine Nat.le_succ_of_le ((Lib.foldlM_reaches (μ := List.length)
    (Q := fun case => (caseDemand below case).asks = true) ?_ ?_ hpayload).2 ⟨case, hmem, hcase⟩)
  · intro case _ out out' hstep
    unfold casePayloadFlatTypes at hstep
    split at hstep
    · obtain ⟨flat, -, heq⟩ := Lib.bind_eq_ok.mp hstep
      rw [← Lib.pure_eq_ok.mp heq, overlay_length]
      exact Nat.le_max_left _ _
    · exact Nat.le_of_eq (congrArg List.length (Lib.pure_eq_ok.mp hstep))
  · intro case _ out out' hstep hcase
    unfold casePayloadFlatTypes at hstep
    unfold caseDemand at hcase
    split at hstep
    · rename_i ty hty
      rw [hty] at hcase
      obtain ⟨flat, hflat, heq⟩ := Lib.bind_eq_ok.mp hstep
      rw [← Lib.pure_eq_ok.mp heq, overlay_length]
      exact Nat.le_trans (hbelow _ _ hcase hflat) (Nat.le_max_right _ _)
    · rename_i hty
      rw [hty] at hcase
      cases hcase

end level

theorem demand_two_le (depth : Nat) {ty : ValType} {flat : List CoreValType}
    (hasks : (demand path types depth ty).asks = true)
    (hflat : flatTypesForValtype types depth ty = .ok flat) : 2 ≤ flat.length := by
  induction depth generalizing ty flat with
  | zero =>
      cases ty with
      | primitive prim =>
          obtain rfl := Except.ok.inj hflat
          exact prim_two_le hasks
      | type ref => cases hasks
  | succ depth ih =>
      cases ty with
      | primitive prim =>
          obtain rfl := Except.ok.inj hflat
          exact prim_two_le hasks
      | type ref =>
          unfold demand at hasks
          unfold flatTypesForValtype at hflat
          split at hasks
          · rename_i ty hget
            rw [hget] at hflat
            have hbelow (ty : ValType) (flat : List CoreValType) :
                (demand path types depth ty).asks = true →
                  flatTypesForValtype types depth ty = .ok flat → 2 ≤ flat.length := ih
            cases ty with
            | defVal ty =>
                cases ty with
                | primitive prim =>
                    obtain rfl := Except.ok.inj hflat
                    exact prim_two_le hasks
                | record fields => exact record_two_le hbelow hasks hflat
                | variant cases => exact variant_two_le hbelow hasks hflat
                | flags _ => cases hasks
                | list _ _ =>
                    obtain rfl := Except.ok.inj hflat
                    exact Nat.le_refl 2
                | own resource | borrow resource =>
                    simp only [typeDemand, defvalDemand, handleDemand] at hasks
                    split at hasks <;> cases hasks
            | resource _ => cases hasks
            | generic _ =>
                simp only [typeDemand] at hasks
                split at hasks <;> cases hasks
            | func _ | component _ | «instance» _ => cases hasks
          · cases hasks

end length

section needless

variable {a : TypeArena M} {types : List (Ty M)} {stored stored' fixed : Demand}
  {generics shortTuples : Bool}

/-- Where the decoder sees no need of memory there are no strings and no lists but those of fixed
length. -/
theorem demand_of_needless (hpre : a.types <+: types) (depth depth' : Nat) (ty : ValType)
    (hlt : ∀ ref ∈ ty.refs, ref < depth) (hin : ∀ ref ∈ ty.refs, ref < a.types.length)
    (hneedless : typeNeedsMemory a.types depth ty = false) :
    demand ⟨stored, fixed, generics, shortTuples⟩ types depth' ty =
      demand ⟨stored', fixed, generics, shortTuples⟩ types depth' ty := by
  have hprim (prim : PrimValType) (h : (prim == .string) = false) :
      primDemand ⟨stored, fixed, generics, shortTuples⟩ prim =
        primDemand ⟨stored', fixed, generics, shortTuples⟩ prim := by
    cases prim <;> first | rfl | cases h
  induction depth generalizing depth' ty with
  | zero =>
      cases ty with
      | primitive prim =>
          cases depth' <;> exact hprim prim hneedless
      | type ref => exact absurd (hlt ref (List.mem_singleton_self ref)) (Nat.not_lt_zero ref)
  | succ depth ih =>
      cases ty with
      | primitive prim => cases depth' <;> exact hprim prim hneedless
      | type ref =>
          cases depth' with
          | zero => rfl
          | succ depth' =>
              have hlen := hin ref (List.mem_singleton_self ref)
              have hdepth := hlt ref (List.mem_singleton_self ref)
              obtain ⟨ty, hty⟩ : ∃ ty, a.types[ref]? = some ty :=
                ⟨_, List.getElem?_eq_getElem hlen⟩
              have hty' : types[ref]? = some ty := by
                obtain ⟨rest, rfl⟩ := hpre
                rw [List.getElem?_append_left hlen, hty]
              have hrefs := a.refs_lt ref ty hty
              have hinner (inner : ValType) (hsub : inner.refs ⊆ ty.refs)
                  (h : typeNeedsMemory a.types depth inner = false) :
                  demand ⟨stored, fixed, generics, shortTuples⟩ types depth' inner =
                    demand ⟨stored', fixed, generics, shortTuples⟩ types depth' inner := by
                refine ih depth' inner (fun r hr => ?_) (fun r hr => ?_) h
                · have := hrefs r (hsub hr)
                  omega
                · have := hrefs r (hsub hr)
                  omega
              unfold demand
              rw [hty']
              unfold typeNeedsMemory at hneedless
              rw [hty] at hneedless
              cases ty with
              | defVal ty =>
                  cases ty with
                  | primitive prim => exact hprim prim hneedless
                  | record fields =>
                      have hany := List.any_eq_false.mp hneedless
                      have heq := Demand.seqAll_congr fun field hmem => hinner field.ty
                        (DefValType.field_refs hmem) (Bool.eq_false_iff.mpr (hany field hmem))
                      simp only [typeDemand, defvalDemand, heq]
                  | variant cases =>
                      have hany := List.any_eq_false.mp hneedless
                      refine Demand.altAll_congr fun case hmem => ?_
                      unfold caseDemand
                      cases hty : case.ty with
                      | none => rfl
                      | some ty =>
                          exact hinner ty (DefValType.case_refs hmem hty) (Bool.eq_false_iff.mpr
                            (hany ty (List.mem_filterMap.mpr ⟨case, hmem, hty⟩)))
                  | flags _ => rfl
                  | list _ len =>
                      cases len with
                      | none => cases hneedless
                      | some len => rfl
                  | own _ | borrow _ => rfl
              | resource _ | generic _ | func _ | component _ | «instance» _ => rfl

end needless

/-- A function and options that the decoder accepts, with the core values it found. -/
structure Accepted (a : TypeArena M) (func : FuncType) (options : CanonicalOptions)
    (mode : CanonMode) (params results : List CoreValType) : Prop where
  flatParams : flattenParamTypes a func = .ok params
  flatResults : flattenResultTypes a func = .ok results
  memory : options.memory.isSome = false →
    (∀ ty ∈ func.params, typeNeedsMemory a.types a.types.length ty = false) ∧
      params.length ≤ maxFlatParams ∧ results.length ≤ maxFlatResults
  lift : options.realloc.isSome = false → mode = .lift →
    (∀ ty ∈ func.params, typeNeedsMemory a.types a.types.length ty = false) ∧
      params.length ≤ maxFlatParams
  lower : options.realloc.isSome = false → mode = .lower → ∀ ty, func.result = some ty →
    typeNeedsMemory a.types a.types.length ty = false
  realloc : options.realloc.isSome = true → options.memory.isSome = true

theorem accepted_of_validate {a : TypeArena M} {func : FuncType} {options : CanonicalOptions}
    {mode : CanonMode} (hok : validateRequiredOptions a func options mode = .ok ()) :
    ∃ params results, Accepted a func options mode params results := by
  obtain ⟨params, hparams, hok⟩ := Lib.bind_eq_ok.mp hok
  obtain ⟨results, hresults, hok⟩ := Lib.bind_eq_ok.mp hok
  obtain ⟨hmemory, hok⟩ := Lib.ite_error_eq_ok.mp hok
  obtain ⟨hrealloc, hok⟩ := Lib.ite_error_eq_ok.mp hok
  obtain ⟨hboth, -⟩ := Lib.ite_error_eq_ok.mp hok
  have hparamsNeed (h : func.params.any (typeNeedsMemory a.types a.types.length) = false) (ty)
      (hmem : ty ∈ func.params) : typeNeedsMemory a.types a.types.length ty = false :=
    Bool.eq_false_iff.mpr (List.any_eq_false.mp h ty hmem)
  refine ⟨params, results, hparams, hresults, ?_, ?_, ?_, ?_⟩
  · intro hnone
    rw [Option.isSome_eq_false_iff] at hnone
    simp only [hnone, Bool.and_true, Bool.not_eq_true, Bool.or_eq_false_iff,
      decide_eq_false_iff_not, Nat.not_lt] at hmemory
    obtain ⟨⟨⟨hneed, hlen⟩, -⟩, hlen'⟩ := hmemory
    exact ⟨hparamsNeed hneed, hlen, hlen'⟩
  · rintro hnone rfl
    rw [Option.isSome_eq_false_iff] at hnone
    simp only [hnone, Bool.and_true, Bool.not_eq_true, Bool.or_eq_false_iff,
      decide_eq_false_iff_not, Nat.not_lt] at hrealloc
    exact ⟨hparamsNeed hrealloc.1, hrealloc.2⟩
  · rintro hnone rfl ty hresult
    rw [Option.isSome_eq_false_iff] at hnone
    simpa only [hnone, hresult, Option.any_some, Bool.and_true, Bool.not_eq_true] using hrealloc
  · intro hsome
    simpa [hsome, Option.isSome_iff_ne_none] using hboth

/-! ## Calls -/

section calls

variable {p : Program M} {o : RuntimeCanonicalOptions σ} {stored : Demand}

theorem lowerArgs_heeds (hstored : LowersStored o stored) (params : List ValType)
    (args : List ComponentValue) (hlen : params.length = args.length) :
    RunHeeds MissingOption (Demand.seqAll (p.demandOf ⟨stored, stored, false, true⟩) params)
      (p.lowerArgs o args params) := by
  induction params generalizing args with
  | nil =>
      cases args with
      | nil => exact .pure _
      | cons v args => cases hlen
  | cons ty params ih =>
      cases args with
      | nil => cases hlen
      | cons v args =>
          refine .bind ((lowering_heeds p hstored _).flat v ty) fun lowered => ?_
          exact .then_free (ih args (Nat.succ.inj hlen)) fun _ => .pure _

theorem writeArgs_spares (hmemory : o.memory = true) (hstored : LowersStored o .free) (ptr : Nat)
    (params : List ValType) (args : List ComponentValue) (offsets : List Nat) :
    RunSpares MissingOption (p.writeArgs o ptr args params offsets) := by
  fun_induction Program.writeArgs p o ptr args params offsets with
  | case1 v args ty params offset offsets ih =>
      refine .bind (((lowering_heeds p hstored _).memory hmemory v ty _).spares ?_)
        fun _ _ _ _ => ih
      exact demand_asks_of_free rfl rfl _ _ ty
  | case2 => exact .pure _

theorem lowerComponentArgs_spares (hstored : LowersStored o stored) {func : FuncType}
    (hspills : ∀ len, p.functionParamsFlatLen func = .ok len → maxFlatParams < len → stored = .free)
    (hasks : (Demand.seqAll (p.demandOf ⟨stored, stored, false, true⟩) func.params).asks = false)
    (args : List ComponentValue) :
    RunSpares MissingOption (p.lowerComponentArgs o func args) := by
  unfold Program.lowerComponentArgs
  split
  · exact .throw not_false
  · rename_i hlen
    intro w
    rcases hflat : p.functionParamsFlatLen func with e | len
    · exact .error (functionParamsFlatLen_spares p func e hflat)
    · refine RunSpares.bind (.lift (.ok len)) (fun len' _ _ h => ?_) w
      obtain rfl : len = len' := Except.ok.inj (Lib.run_lift_eq_ok.mp h).1
      split
      · rename_i hspill
        obtain rfl := hspills len hflat hspill
        cases hstored with
        | full hmemory realloc hrealloc hquiet =>
            refine .bind (.lift (requireMemory_spares hmemory)) fun _ _ _ _ => ?_
            unfold requireRealloc
            rw [hrealloc]
            refine .bind (.lift (.ok realloc)) fun given _ _ hgiven => ?_
            obtain rfl : realloc = given := Except.ok.inj (Lib.run_lift_eq_ok.mp hgiven).1
            refine .bind (.lift (valueAreaLayout_spares p _)) fun layout _ _ _ => ?_
            refine .bind ?_ fun ptr _ _ _ => .bind ?_ fun _ _ _ _ => .pure _
            · unfold Program.allocateArea
              split
              · exact .pure _
              · exact allocate_spares hquiet _ _ _ _ _
            · exact writeArgs_spares hmemory (.full hmemory realloc hrealloc hquiet) _ _ _ _
      · exact (lowerArgs_heeds hstored func.params args (not_not.mp hlen)).spares hasks

theorem liftArgs_heeds (hstored : LiftsStored o stored) (m : LinearMemory) (params : List ValType) :
    RunHeeds MissingOption (Demand.seqAll (p.demandOf ⟨stored, stored, false, false⟩) params)
      (p.liftArgs o m params) := by
  induction params with
  | nil => exact .pure _
  | cons ty params ih =>
      refine .bind ((lifting_heeds p m hstored _).flat ty) fun value => ?_
      exact .then_free ih fun _ => .pure _

theorem readValueFromMemory_spares (hstored : LiftsStored o stored) (m : LinearMemory)
    (ty : ValType) (ptr : Nat) : Spares MissingOption (p.readValueFromMemory o m ty ptr) :=
  (lifting_heeds p m hstored _).memory ty ptr

theorem liftComponentArgs_spares (hstored : LiftsStored o stored) {func : FuncType}
    (hspills : ∀ len, p.functionParamsFlatLen func = .ok len → maxFlatParams < len →
      o.memory = true)
    (hasks : (Demand.seqAll (p.demandOf ⟨stored, stored, false, false⟩) func.params).asks = false)
    (m : LinearMemory) (args : List WasmValue) :
    Spares MissingOption (p.liftComponentArgs o m func args) := by
  refine .bind (functionParamsFlatLen_spares p func) fun len hlen => ?_
  split
  · rename_i hspill
    refine .bind (requireMemory_spares (hspills len hlen hspill)) fun _ _ => ?_
    refine .bind ?_ fun ptr _ => ?_
    · match args with
      | [] => exact .error (by decide)
      | value :: _ => cases value <;> first | exact .ok _ | exact .error (by decide)
    · refine .bind (valueAreaLayout_spares p _) fun layout _ => ?_
      generalize layout.offsets = offsets
      fun_induction Program.readArgs p o m ptr func.params offsets with
      | case1 ty params offset offsets ih =>
          refine .bind (readValueFromMemory_spares hstored m _ _) fun _ _ => ?_
          exact .bind ih fun _ _ => .ok _
      | case2 => exact .ok _
  · exact .bind ((liftArgs_heeds hstored m func.params).spares hasks args) fun _ _ => .ok _

/-- One value: where it spills, and what it demands where it does not. -/
structure ResultHeeds (p : Program M) (path : Path) (ty : ValType) (memory : Prop) : Prop where
  spills : ∀ len, p.valueFlatLen ty = .ok len → maxFlatResults < len → memory
  asks : ∀ len, p.valueFlatLen ty = .ok len → len ≤ maxFlatResults →
    (p.demandOf path ty).asks = false

theorem liftComponentResults_spares (hstored : LiftsStored o stored) {func : FuncType}
    (hresult : ∀ ty, func.result = some ty →
      ResultHeeds p ⟨stored, stored, false, false⟩ ty (o.memory = true))
    (m : LinearMemory) (results : List WasmValue) :
    Spares MissingOption (p.liftComponentResults o m func results) := by
  unfold Program.liftComponentResults
  split
  · exact .ok _
  · rename_i ty hty
    refine .bind ?_ fun _ _ => .ok _
    have hty := hresult ty hty
    refine RunSpares.bind (.lift (valueFlatLen_spares p ty)) (fun len _ _ h => ?_) results
    have hlen := (Lib.run_lift_eq_ok.mp h).1
    split
    · rename_i hspill
      refine .bind CoreValueCursor.nextI32_spares fun pointer _ _ _ => ?_
      refine .bind (.lift (requireMemory_spares (hty.spills len hlen hspill))) fun _ _ _ _ => ?_
      exact .lift (readValueFromMemory_spares hstored m ty _)
    · rename_i hflat
      exact ((lifting_heeds p m hstored _).flat ty).spares (hty.asks len hlen (Nat.not_lt.mp hflat))

theorem lowerComponentResults_spares (hstored : LowersStored o stored) {func : FuncType}
    (hresult : ∀ ty, func.result = some ty →
      ResultHeeds p ⟨stored, stored, false, true⟩ ty (o.memory = true ∧
        (p.demandOf ⟨stored, stored, true, true⟩ ty).asks = false))
    (results : List ComponentValue) (area : Option Nat) :
    RunSpares MissingOption (p.lowerComponentResults o func results area) := by
  unfold Program.lowerComponentResults
  split
  · split
    · exact .pure _
    · exact .throw not_false
  · rename_i ty hty
    have hty := hresult ty hty
    split
    · exact .throw not_false
    · rename_i v _
      refine .bind (.lift (valueFlatLen_spares p ty)) fun len _ _ h => ?_
      have hlen := (Lib.run_lift_eq_ok.mp h).1
      split
      · rename_i hspill
        obtain ⟨hmemory, hasks⟩ := hty.spills len hlen hspill
        refine .bind (.lift (requireMemory_spares hmemory)) fun _ _ _ _ => ?_
        cases area with
        | none => exact .throw (by decide)
        | some ptr =>
            refine .bind ?_ fun _ _ _ _ => .pure _
            exact ((lowering_heeds p hstored _).memory hmemory v ty ptr).spares hasks
      · rename_i hflat
        exact ((lowering_heeds p hstored _).flat v ty).spares
          (hty.asks len hlen (Nat.not_lt.mp hflat))

end calls

section accepted

variable {p : Program M} {a : TypeArena M} {func : FuncType} {options : CanonicalOptions}
  {mode : CanonMode} {params results : List CoreValType} {o : RuntimeCanonicalOptions σ}

theorem Resolved.lowersStored (hres : Resolved options o)
    (hboth : options.realloc.isSome = true → options.memory.isSome = true) :
    LowersStored o (if options.realloc.isSome then .free else .wanting) := by
  split
  · rename_i hsome
    obtain ⟨realloc, hrealloc⟩ := Option.isSome_iff_exists.mp (hres.realloc.trans hsome)
    exact .full (hres.memory.trans (hboth hsome)) realloc hrealloc (hres.quiet realloc hrealloc)
  · rename_i hnone
    refine .bare (Option.isSome_eq_false_iff.mp ?_ |> Option.isNone_iff_eq_none.mp)
    exact hres.realloc.trans (Bool.eq_false_iff.mpr hnone)

theorem Resolved.liftsStored (hres : Resolved options o) :
    LiftsStored o (if options.memory.isSome then .free else .wanting) := by
  split
  · rename_i hsome
    exact .full (hres.memory.trans hsome)
  · rename_i hnone
    exact .bare (hres.memory.trans (Bool.eq_false_iff.mpr hnone))

variable (hpre : a.types <+: p.arena.types)
  (hin : ∀ ty, ty ∈ func.params ∨ func.result = some ty → ∀ ref ∈ ty.refs, ref < a.types.length)

include hpre hin

/-- Strings and lists of any length do not matter where the decoder sees no need of memory. -/
theorem paramsDemand_of_needless {stored stored' fixed : Demand} {generics shortTuples : Bool}
    (hneedless : ∀ ty ∈ func.params, typeNeedsMemory a.types a.types.length ty = false) :
    p.paramsDemand ⟨stored, fixed, generics, shortTuples⟩ func =
      p.paramsDemand ⟨stored', fixed, generics, shortTuples⟩ func :=
  Demand.seqAll_congr fun ty hmem =>
    have hrefs := hin ty (.inl hmem)
    demand_of_needless hpre _ _ ty hrefs hrefs (hneedless ty hmem)

theorem Accepted.memory_of_spill (hacc : Accepted a func options mode params results) {ty : ValType}
    (hresult : func.result = some ty) {len : Nat} (hlen : p.valueFlatLen ty = .ok len)
    (hspill : maxFlatResults < len) : options.memory.isSome = true := by
  obtain ⟨-, hflatLen⟩ := flattenResultTypes_eq hpre hin hresult hacc.flatResults
  obtain rfl : results.length = len := Except.ok.inj (hflatLen.symm.trans hlen)
  by_contra hnone
  have hle := (hacc.memory (Bool.eq_false_iff.mpr hnone)).2.2
  omega

theorem Accepted.asks_of_flat (hacc : Accepted a func options mode params results) (path : Path)
    {ty : ValType} (hresult : func.result = some ty) {len : Nat}
    (hlen : p.valueFlatLen ty = .ok len) (hle : len ≤ maxFlatResults) :
    (p.demandOf path ty).asks = false := by
  obtain ⟨hflat, hflatLen⟩ := flattenResultTypes_eq hpre hin hresult hacc.flatResults
  obtain rfl : results.length = len := Except.ok.inj (hflatLen.symm.trans hlen)
  rw [Bool.eq_false_iff]
  intro hasks
  have htwo := demand_two_le _ hasks hflat
  unfold maxFlatResults at hle
  omega

theorem suffice_lift (hacc : Accepted a func options .lift params results)
    (hres : Resolved options o) (hcovers : p.CoversLists options func .lift) :
    OptionsSuffice p o func .lift := by
  obtain ⟨-, hparamsLen⟩ := flattenParamTypes_eq hpre hin hacc.flatParams
  constructor
  · refine lowerComponentArgs_spares (hres.lowersStored hacc.realloc) ?_ ?_
    · intro len hlen hspill
      obtain rfl : params.length = len := Except.ok.inj (hparamsLen.symm.trans hlen)
      refine if_pos ?_
      by_contra hnone
      have hle := (hacc.lift (Bool.eq_false_iff.mpr hnone) rfl).2
      omega
    · split
      · exact Demand.seqAll_asks_eq_false fun ty _ => demand_asks_of_free rfl rfl _ _ ty
      · rename_i hnone
        have hneedless := (hacc.lift (Bool.eq_false_iff.mpr hnone) rfl).1
        exact (congrArg Demand.asks (paramsDemand_of_needless hpre hin hneedless)).trans
          (hcovers.resolve_left hnone)
  · refine liftComponentResults_spares hres.liftsStored fun ty hresult => ?_
    refine ⟨fun len hlen hspill => ?_, fun len => hacc.asks_of_flat hpre hin _ hresult⟩
    exact hres.memory.trans (hacc.memory_of_spill hpre hin hresult hlen hspill)

theorem suffice_lower (hacc : Accepted a func options .lower params results)
    (hres : Resolved options o) (hcovers : p.CoversLists options func .lower) :
    OptionsSuffice p o func .lower := by
  obtain ⟨-, hparamsLen⟩ := flattenParamTypes_eq hpre hin hacc.flatParams
  constructor
  · refine liftComponentArgs_spares hres.liftsStored ?_ ?_
    · intro len hlen hspill
      obtain rfl : params.length = len := Except.ok.inj (hparamsLen.symm.trans hlen)
      refine hres.memory.trans ?_
      by_contra hnone
      have hle := (hacc.memory (Bool.eq_false_iff.mpr hnone)).2.1
      omega
    · split
      · exact Demand.seqAll_asks_eq_false fun ty _ => demand_asks_of_free rfl rfl _ _ ty
      · rename_i hnone
        have hneedless := (hacc.memory (Bool.eq_false_iff.mpr hnone)).1
        exact (congrArg Demand.asks (paramsDemand_of_needless hpre hin hneedless)).trans
          (hcovers.1.resolve_left hnone)
  · refine lowerComponentResults_spares (hres.lowersStored hacc.realloc) fun ty hresult => ?_
    refine ⟨fun len hlen hspill => ⟨?_, ?_⟩, fun len => hacc.asks_of_flat hpre hin _ hresult⟩
    · exact hres.memory.trans (hacc.memory_of_spill hpre hin hresult hlen hspill)
    split
    · exact demand_asks_of_free rfl rfl _ _ ty
    · rename_i hnone
      have hrefs := hin ty (.inr hresult)
      have hneedless := hacc.lower (Bool.eq_false_iff.mpr hnone) rfl ty hresult
      exact (congrArg Demand.asks (demand_of_needless hpre _ _ ty hrefs hrefs hneedless)).trans
        (hcovers.2.resolve_left hnone ty hresult)

end accepted

/-- Accepted options are enough where no conversion comes to a list of fixed length without the
option that it takes for one. -/
theorem accepted_options_suffice (p : Program M) (a : TypeArena M)
    (hpre : a.types <+: p.arena.types) (id : TypeId) (func : FuncType) (hfunc : a.get id = some (.func func))
    (options : CanonicalOptions) (mode : CanonMode)
    (haccepted : validateRequiredOptions a func options mode = .ok ())
    (o : RuntimeCanonicalOptions σ) (hres : Resolved options o)
    (hcovers : p.CoversLists options func mode) : OptionsSuffice p o func mode := by
  obtain ⟨params, results, hacc⟩ := accepted_of_validate haccepted
  cases mode with
  | lift => exact suffice_lift hpre (func_refs_lt hfunc) hacc hres hcovers
  | lower => exact suffice_lower hpre (func_refs_lt hfunc) hacc hres hcovers

section fixedList

/-- A function that takes and gives a list of four bytes. -/
private def fixedTypes : List (Ty Empty) :=
  [.defVal (.list (.primitive .u8) (some 4)), .func ⟨[.type 0], ["bytes"], some (.type 0)⟩]

private def fixedArena : TypeArena Empty where
  types := fixedTypes
  refs_lt := by
    intro id ty h
    match id, h with
    | 0, h => cases h; decide
    | 1, h => cases h; decide
  names_nodup := by
    intro ty h
    simp only [fixedTypes, List.mem_cons, List.not_mem_nil, or_false] at h
    rcases h with rfl | rfl <;> trivial
  generic_sub := by
    intro g h
    simp [fixedTypes] at h

private def fixedProgram : Program Empty where
  arena := fixedArena
  typeInfos := [⟨0, 2, 8, 4, some 4⟩, ⟨1, 0, 0, 1, none⟩]
  built := rfl

private def fixedFunc : FuncType := ⟨[.type 0], ["bytes"], some (.type 0)⟩

/-- `realloc` gives the same address each time. -/
private def oneAddress : RuntimeCanonicalOptions Unit :=
  ⟨none, true, some fun _ => pure [.i32 8]⟩

theorem accepted_options_suffice_fixed :
    validateRequiredOptions fixedArena fixedFunc ⟨some 0, some 0⟩ .lift = .ok () ∧
      OptionsSuffice fixedProgram oneAddress fixedFunc .lift := by
  have haccepted :
      validateRequiredOptions fixedArena fixedFunc ⟨some 0, some 0⟩ .lift = .ok () := by decide
  refine ⟨haccepted, ?_⟩
  refine accepted_options_suffice fixedProgram fixedArena (List.prefix_refl _) 1 fixedFunc rfl
    ⟨some 0, some 0⟩ .lift haccepted oneAddress ⟨rfl, rfl, ?_⟩ (.inl rfl)
  intro realloc hrealloc args
  obtain rfl := Option.some.inj hrealloc
  exact .pure _

private def memoryOnly : RuntimeCanonicalOptions Unit := ⟨none, true, none⟩

private def zeroWorld : World Unit := ⟨⟨⟨64, fun _ => 0⟩, ()⟩, []⟩

/-- With a memory and no `realloc`, both directions accept the list; no argument of the one and no
result of the other can be lowered. -/
theorem fixed_list_lacks_realloc :
    (validateRequiredOptions fixedArena fixedFunc ⟨some 0, none⟩ .lift = .ok () ∧
      ¬OptionsSuffice fixedProgram memoryOnly fixedFunc .lift) ∧
    validateRequiredOptions fixedArena fixedFunc ⟨some 0, none⟩ .lower = .ok () ∧
      ¬OptionsSuffice fixedProgram memoryOnly fixedFunc .lower := by
  have hmissing : MissingOption (.runtime "canonical option `realloc` is required") := by decide
  have hargs : fixedProgram.lowerComponentArgs memoryOnly fixedFunc
      [.list [.u8 1, .u8 2, .u8 3, .u8 4]] zeroWorld =
        .error (.runtime "canonical option `realloc` is required") := rfl
  have hresults : fixedProgram.lowerComponentResults memoryOnly fixedFunc
      [.list [.u8 1, .u8 2, .u8 3, .u8 4]] (some 0) zeroWorld =
        .error (.runtime "canonical option `realloc` is required") := rfl
  refine ⟨⟨by decide, fun h => ?_⟩, by decide, fun h => ?_⟩
  · exact h.1 _ zeroWorld _ hargs hmissing
  · exact h.2 _ _ zeroWorld _ hresults hmissing

end fixedList

end Telomere.Component
