import Telomere.Component.Options

/-!
# Required options suffice

Each conversion keeps to the demand of its type. A type that is converted without memory has at most
one core value, so the demands that the decoder does not see are those of lists of fixed length.
-/

namespace Telomere.Component

open ComponentError (MissingOption)
open Lib (Demand Spares RunSpares Heeds RunHeeds)

variable {M σ : Type}

section values

variable (v : ComponentValue)

theorem expectBool_spares : Spares MissingOption (expectBool v) := by
  cases v <;> first | exact .ok _ | exact .error not_false

theorem expectU32_spares : Spares MissingOption (expectU32 v) := by
  cases v <;> first | exact .ok _ | exact .error not_false

theorem expectI32_spares : Spares MissingOption (expectI32 v) := by
  cases v <;> first | exact .ok _ | exact .error not_false

theorem expectI64_spares : Spares MissingOption (expectI64 v) := by
  cases v <;> first | exact .ok _ | exact .error not_false

theorem expectU64_spares : Spares MissingOption (expectU64 v) := by
  cases v <;> first | exact .ok _ | exact .error not_false

theorem expectF32_spares : Spares MissingOption (expectF32 v) := by
  cases v <;> first | exact .ok _ | exact .error not_false

theorem expectF64_spares : Spares MissingOption (expectF64 v) := by
  cases v <;> first | exact .ok _ | exact .error not_false

theorem expectChar_spares : Spares MissingOption (expectChar v) := by
  cases v <;> first | exact .ok _ | exact .error not_false

theorem expectString_spares : Spares MissingOption (expectString v) := by
  cases v <;> first | exact .ok _ | exact .error not_false

theorem expectHandle_spares : Spares MissingOption (expectHandle v) := by
  cases v <;> first | exact .ok _ | exact .error not_false

theorem listValues_spares (len : Option Nat) : Spares MissingOption (listValues len v) := by
  unfold listValues
  repeat' split
  all_goals first | exact .ok _ | exact .error not_false

theorem recordValues_spares (fields : List LabelValType) :
    Spares MissingOption (recordValues fields v) := by
  have hfield (entries : List (String × ComponentValue)) :
      ∀ field ∈ fields, Spares MissingOption (fieldValue entries field) := by
    intro field _
    unfold fieldValue
    split
    · exact .ok _
    · exact .error not_false
  unfold recordValues
  repeat' split
  all_goals first | exact .ok _ | exact .error not_false | exact .mapM (hfield _)

theorem variantParts_spares (cases : List Case) : Spares MissingOption (variantParts cases v) := by
  unfold variantParts
  dsimp only
  repeat' split
  all_goals first | exact .ok _ | exact .error not_false

theorem flagWords_spares (labels : List Label) : Spares MissingOption (flagWords labels v) := by
  unfold flagWords
  split
  · refine .foldlM (fun words flag _ => ?_) _
    unfold setFlag
    split
    · exact .ok _
    · exact .error not_false
  · exact .error not_false

end values

theorem findCase_spares (cases : List Case) (name : String) :
    Spares MissingOption (findCase cases name) := by
  unfold findCase
  split
  · exact .ok _
  · exact .error not_false

theorem casePayload_spares (cases : List Case) (case : Case) (payload : Option ComponentValue) :
    Spares MissingOption (casePayload cases case payload) := by
  unfold casePayload
  repeat' split
  all_goals first | exact .ok _ | exact .error not_false

theorem coerceFlatValue_spares (value : WasmValue) (source target : CoreValType) :
    Spares MissingOption (coerceFlatValue value source target) := by
  unfold coerceFlatValue
  repeat' split
  all_goals first | exact .ok _ | exact .error not_false

theorem coercePayload_spares (tys : List CoreValType) (flat : List WasmValue)
    (flatTypes : List CoreValType) : Spares MissingOption (coercePayload tys flat flatTypes) := by
  fun_induction coercePayload tys flat flatTypes with
  | case1 => exact .ok _
  | case2 ty tys flatTypes ih => exact .bind ih fun _ _ => .ok _
  | case3 ty tys value flat flatTy flatTypes ih =>
      refine .bind (coerceFlatValue_spares _ _ _) fun value _ => ?_
      exact .bind ih fun _ _ => .ok _
  | case4 => exact .error (by decide)

theorem expectedPayload_spares (expected : List CoreValType) (values : List WasmValue)
    (types : List CoreValType) : Spares MissingOption (expectedPayload expected values types) := by
  fun_induction expectedPayload expected values types with
  | case1 => exact .ok _
  | case2 expected rest value values ty types ih =>
      refine .bind (coerceFlatValue_spares _ _ _) fun value _ => ?_
      exact .bind ih fun _ _ => .ok _
  | case3 => exact .error (by decide)

theorem variantDiscriminantSize_spares (count : Nat) :
    Spares MissingOption (variantDiscriminantSize count) := by
  unfold variantDiscriminantSize
  repeat' split
  all_goals first | exact .ok _ | exact .error not_false

theorem validateResourceType_spares (types : List (Ty M)) (depth : Nat) (id : TypeId) :
    Spares MissingOption (validateResourceType types depth id) := by
  induction depth generalizing id with
  | zero => exact .error (by decide)
  | succ depth ih =>
      unfold validateResourceType
      split
      · exact .ok _
      · exact ih _
      · exact ih _
      · exact ih _
      · exact .ok _
      · exact .error (by decide)

section program

variable (p : Program M)

theorem memoryAbiForValtype_spares (ty : ValType) :
    Spares MissingOption (p.memoryAbiForValtype ty) := by
  unfold Program.memoryAbiForValtype
  repeat' split
  all_goals first | exact .ok _ | exact .error (by decide)

theorem variantPayloadOffsetAndSize_spares (cases : List Case) :
    Spares MissingOption (p.variantPayloadOffsetAndSize cases) := by
  unfold Program.variantPayloadOffsetAndSize
  refine .bind (variantDiscriminantSize_spares _) fun size _ => .bind ?_ fun _ _ => .ok _
  refine .foldlM (fun acc case _ => ?_) _
  unfold Program.casePayloadAbi
  split
  · exact .bind (memoryAbiForValtype_spares p _) fun _ _ => .ok _
  · exact .ok _

theorem valueFlatLen_spares (ty : ValType) : Spares MissingOption (p.valueFlatLen ty) := by
  unfold Program.valueFlatLen
  repeat' split
  all_goals first | exact .ok _ | exact .error (by decide)

theorem functionParamsFlatLen_spares (func : FuncType) :
    Spares MissingOption (p.functionParamsFlatLen func) :=
  .foldlM (fun _ ty _ => .bind (valueFlatLen_spares p ty) fun _ _ => .ok _) _

theorem valueAreaLayout_spares (values : List ValType) :
    Spares MissingOption (p.valueAreaLayout values) := by
  refine .bind (.foldlM (fun acc ty _ => ?_) _) fun _ _ => .ok _
  exact .bind (memoryAbiForValtype_spares p ty) fun _ _ => .ok _

end program

section flatTypes

variable {flatTypes : ValType → Except ComponentError (List CoreValType)}
  (hflat : ∀ ty, Spares MissingOption (flatTypes ty))

include hflat

theorem variantPayloadFlatTypes_spares (cases : List Case) :
    Spares MissingOption (variantPayloadFlatTypes flatTypes cases) := by
  refine .foldlM (fun payload case _ => ?_) _
  unfold casePayloadFlatTypes
  split
  · exact .bind (hflat _) fun _ _ => .ok _
  · exact .ok _

theorem flatTypesForType_spares (ty : Ty M) :
    Spares MissingOption (flatTypesForType flatTypes ty) := by
  unfold flatTypesForType flatTypesForDefval
  repeat' split
  all_goals first | exact .ok _ | exact .error not_false | skip
  · exact .foldlM (fun _ field _ => .bind (hflat _) fun _ _ => .ok _) _
  · exact .bind (variantPayloadFlatTypes_spares hflat _) fun _ _ => .ok _

end flatTypes

theorem flatTypesForValtype_spares (types : List (Ty M)) (depth : Nat) (ty : ValType) :
    Spares MissingOption (flatTypesForValtype types depth ty) := by
  induction depth generalizing ty with
  | zero =>
      cases ty with
      | primitive prim => exact .ok _
      | type id => exact .error (by decide)
  | succ depth ih =>
      cases ty with
      | primitive prim => exact .ok _
      | type id =>
          unfold flatTypesForValtype
          split
          · exact flatTypesForType_spares ih _
          · exact .error (by decide)

theorem writeMemory_spares (ptr : Nat) (bytes : List Byte) :
    RunSpares MissingOption (writeMemory ptr bytes : Canon σ Unit) := by
  intro w
  unfold writeMemory
  split
  · exact .ok _
  · exact .error not_false

theorem writeFlatValues_spares (cursor : Nat) (values : List WasmValue) :
    RunSpares MissingOption (writeFlatValues cursor values : Canon σ Unit) := by
  induction values generalizing cursor with
  | nil => exact .pure _
  | cons value values ih => exact .bind (writeMemory_spares _ _) fun _ _ _ _ => ih _

theorem writeWords_spares (ptr index : Nat) (words : List (BitVec 32)) :
    RunSpares MissingOption (writeWords ptr index words : Canon σ Unit) := by
  induction words generalizing index with
  | nil => exact .pure _
  | cons word words ih => exact .bind (writeMemory_spares _ _) fun _ _ _ _ => ih _

theorem writeLatin1_spares (ptr dstLen : Nat) (chars : List Char) :
    RunSpares MissingOption (writeLatin1 ptr dstLen chars : Canon σ (Option Nat)) := by
  induction chars generalizing dstLen with
  | nil => exact .pure _
  | cons character rest ih =>
      unfold writeLatin1
      split
      · exact .pure _
      · exact .bind (writeMemory_spares _ _) fun _ _ _ _ => ih _

section realloc

variable {realloc : List WasmValue → Lib.Run (Guest σ) ComponentError (List WasmValue)}
  (hquiet : ∀ args, RunSpares MissingOption (realloc args))

include hquiet

theorem callRealloc_spares (oldPtr oldLen align newLen : Nat) :
    RunSpares MissingOption (callRealloc realloc oldPtr oldLen align newLen) := by
  intro w
  refine .bind (hquiet _ w.guest) fun r _ => ?_
  split
  · exact .ok _
  · exact .error (by decide)

theorem allocate_spares (oldPtr oldLen align newLen : Nat) (allocation : String) :
    RunSpares MissingOption (allocate realloc oldPtr oldLen align newLen allocation) := by
  refine .bind (callRealloc_spares hquiet _ _ _ _) fun ptr _ _ _ => ?_
  refine .bind (.lift ?_) fun _ _ _ _ => .pure _
  unfold validateReallocPointerAlignment
  split
  · exact .error not_false
  · exact .ok _

theorem shrink_spares (ptr oldLen newLen : Nat) :
    RunSpares MissingOption (shrink realloc ptr oldLen newLen) := by
  unfold shrink
  split
  · exact allocate_spares hquiet _ _ _ _ _
  · exact .pure _

theorem lowerStringAs_spares (s : String) (encoding : CanonicalStringEncoding) :
    RunSpares MissingOption (lowerStringAs realloc s encoding) := by
  have hencoded (bytes : List Byte) (align length : Nat) (allocation : String) :
      RunSpares MissingOption (lowerEncoded realloc bytes align length allocation) := by
    refine .bind (allocate_spares hquiet _ _ _ _ _) fun ptr _ _ _ => ?_
    exact .bind (writeMemory_spares _ _) fun _ _ _ _ => .pure _
  cases encoding with
  | utf8 => exact hencoded _ _ _ _
  | utf16 => exact hencoded _ _ _ _
  | compactUtf16 =>
      refine .bind (allocate_spares hquiet _ _ _ _ _) fun ptr _ _ _ => ?_
      refine .bind (writeLatin1_spares _ _ _) fun written _ _ _ => ?_
      cases written with
      | some dstLen => exact .bind (shrink_spares hquiet _ _ _) fun _ _ _ _ => .pure _
      | none =>
          refine .bind (allocate_spares hquiet _ _ _ _ _) fun ptr _ _ _ => ?_
          refine .bind (writeMemory_spares _ _) fun _ _ _ _ => ?_
          exact .bind (shrink_spares hquiet _ _ _) fun _ _ _ _ => .pure _

end realloc

theorem requireMemory_spares {o : RuntimeCanonicalOptions σ} (hmemory : o.memory = true) :
    Spares MissingOption (requireMemory o) := by
  unfold requireMemory
  rw [if_pos hmemory]
  exact .ok _

/-- What the options of a lowering make of strings and lists. -/
inductive LowersStored (o : RuntimeCanonicalOptions σ) : Demand → Prop
  | bare (hrealloc : o.realloc = none) : LowersStored o .wanting
  | full (hmemory : o.memory = true)
      (realloc : List WasmValue → Lib.Run (Guest σ) ComponentError (List WasmValue))
      (hrealloc : o.realloc = some realloc)
      (hquiet : ∀ args, RunSpares MissingOption (realloc args)) : LowersStored o .free

theorem lowerString_heeds {o : RuntimeCanonicalOptions σ} {stored : Demand}
    (hstored : LowersStored o stored) (v : ComponentValue) :
    RunHeeds MissingOption stored (lowerString o v) := by
  cases hstored with
  | bare hrealloc =>
      unfold lowerString requireMemory requireRealloc
      rw [hrealloc]
      intro w
      cases o.memory with
      | false => exact Heeds.wanting
      | true => exact Heeds.wanting
  | full hmemory realloc hrealloc hquiet =>
      unfold lowerString requireRealloc
      rw [hrealloc]
      refine .free_then (.lift (requireMemory_spares hmemory)) fun _ => ?_
      refine .lift_then (.ok realloc) fun given hgiven => ?_
      obtain rfl := Except.ok.inj hgiven
      refine .free_then (.lift (expectString_spares v)) fun s => ?_
      exact .of_spares (lowerStringAs_spares hquiet s _)

section lowering

variable {o : RuntimeCanonicalOptions σ} (path : Path) (hstored : LowersStored o path.stored)

include hstored

theorem lowerPrimitive_heeds (v : ComponentValue) (prim : PrimValType) :
    RunHeeds MissingOption (primDemand path prim) (lowerPrimitive o v prim) := by
  cases prim with
  | string => exact lowerString_heeds hstored v
  | errorContext => exact .blocked not_false
  | bool => exact .of_spares (.bind (.lift (expectBool_spares v)) fun _ _ _ _ => .pure _)
  | s8 | s16 | s32 => exact .of_spares (.bind (.lift (expectI32_spares v)) fun _ _ _ _ => .pure _)
  | u8 | u16 | u32 => exact .of_spares (.bind (.lift (expectU32_spares v)) fun _ _ _ _ => .pure _)
  | s64 => exact .of_spares (.bind (.lift (expectI64_spares v)) fun _ _ _ _ => .pure _)
  | u64 => exact .of_spares (.bind (.lift (expectU64_spares v)) fun _ _ _ _ => .pure _)
  | f32 => exact .of_spares (.bind (.lift (expectF32_spares v)) fun _ _ _ _ => .pure _)
  | f64 => exact .of_spares (.bind (.lift (expectF64_spares v)) fun _ _ _ _ => .pure _)
  | char => exact .of_spares (.bind (.lift (expectChar_spares v)) fun _ _ _ _ => .pure _)

theorem writePrimitiveToMemory_heeds (hmemory : o.memory = true) (v : ComponentValue)
    (prim : PrimValType) (ptr : Nat) :
    RunHeeds MissingOption (primDemand path prim) (writePrimitiveToMemory o v prim ptr) := by
  have hplain (prim : PrimValType) (hbytes : Spares MissingOption (primitiveBytes v prim)) :
      RunSpares MissingOption (do
        requireMemory o
        let bytes ← primitiveBytes v prim
        writeMemory ptr bytes : Canon σ Unit) := by
    refine .bind (.lift (requireMemory_spares hmemory)) fun _ _ _ _ => ?_
    exact .bind (.lift hbytes) fun bytes _ _ _ => writeMemory_spares _ _
  cases prim with
  | string =>
      refine .free_then (.lift (requireMemory_spares hmemory)) fun _ => ?_
      exact .then_free (lowerString_heeds hstored v) fun _ => writeFlatValues_spares _ _
  | errorContext => exact .blocked not_false
  | bool => exact .of_spares (hplain .bool (.bind (expectBool_spares v) fun _ _ => .ok _))
  | s8 => exact .of_spares (hplain .s8 (.bind (expectI32_spares v) fun _ _ => .ok _))
  | s16 => exact .of_spares (hplain .s16 (.bind (expectI32_spares v) fun _ _ => .ok _))
  | s32 => exact .of_spares (hplain .s32 (.bind (expectI32_spares v) fun _ _ => .ok _))
  | u8 => exact .of_spares (hplain .u8 (.bind (expectU32_spares v) fun _ _ => .ok _))
  | u16 => exact .of_spares (hplain .u16 (.bind (expectU32_spares v) fun _ _ => .ok _))
  | u32 => exact .of_spares (hplain .u32 (.bind (expectU32_spares v) fun _ _ => .ok _))
  | s64 => exact .of_spares (hplain .s64 (.bind (expectI64_spares v) fun _ _ => .ok _))
  | u64 => exact .of_spares (hplain .u64 (.bind (expectU64_spares v) fun _ _ => .ok _))
  | f32 => exact .of_spares (hplain .f32 (.bind (expectF32_spares v) fun _ _ => .ok _))
  | f64 => exact .of_spares (hplain .f64 (.bind (expectF64_spares v) fun _ _ => .ok _))
  | char => exact .of_spares (hplain .char (.bind (expectChar_spares v) fun _ _ => .ok _))

end lowering

theorem demand_asks_of_free {path : Path} (hfree : path.stored = .free)
    (hfixed : path.fixed = .free) (types : List (Ty M)) (depth : Nat) (ty : ValType) :
    (demand path types depth ty).asks = false := by
  have hprim (prim : PrimValType) : (primDemand path prim).asks = false := by
    cases prim <;> simp [primDemand, hfree, Demand.free, Demand.blocked]
  induction depth generalizing ty with
  | zero =>
      cases ty with
      | primitive prim => exact hprim prim
      | type id => rfl
  | succ depth ih =>
      cases ty with
      | primitive prim => exact hprim prim
      | type id =>
          unfold demand
          split
          · rename_i ty _
            cases ty with
            | defVal ty =>
                cases ty with
                | primitive prim => exact hprim prim
                | record fields =>
                    exact Demand.seqAll_asks_eq_false fun field _ => ih field.ty
                | variant cases =>
                    refine Demand.altAll_asks_eq_false fun case _ => ?_
                    cases hty : case.ty with
                    | none => simp [caseDemand, hty, Demand.free]
                    | some ty => simpa [caseDemand, hty] using ih ty
                | flags _ => rfl
                | list _ len =>
                    simp only [typeDemand, defvalDemand, hfree, hfixed, ite_self]
                    rfl
                | own resource | borrow resource =>
                    simp only [typeDemand, defvalDemand, handleDemand]
                    split <;> rfl
            | resource _ => rfl
            | generic _ =>
                simp only [typeDemand]
                split <;> rfl
            | func _ | component _ | «instance» _ => rfl
          · rfl

theorem handle_heeds {s α : Type} (types : List (Ty M)) (resource : TypeId)
    {x : Lib.Run s ComponentError α} (hx : RunSpares MissingOption x) :
    RunHeeds MissingOption (handleDemand types resource)
      (do validateResourceType types types.length resource; x) := by
  have hspares := validateResourceType_spares types types.length resource
  unfold handleDemand
  split
  · rename_i hvalid
    rw [hvalid]
    exact .of_spares hx
  · rename_i e hinvalid
    rw [hinvalid] at hspares ⊢
    exact fun _ => Heeds.blocked (hspares e rfl)

/-- Lowering one level down keeps to the demands of the types. -/
structure LevelLowers (o : RuntimeCanonicalOptions σ) (below : Lowering σ)
    (flat memory : ValType → Demand) : Prop where
  flatTypes : ∀ ty, Spares MissingOption (below.flatTypes ty)
  flat : ∀ v ty, RunHeeds MissingOption (flat ty) (below.flat v ty)
  memory : o.memory = true → ∀ v ty ptr, RunHeeds MissingOption (memory ty) (below.memory v ty ptr)

section level

variable {p : Program M} {o : RuntimeCanonicalOptions σ} {below : Lowering σ}
  {flat memory : ValType → Demand} (hbelow : LevelLowers o below flat memory)

/-- The fields of a record, where the last ones may be missing. -/
def fieldsDemand (d : ValType → Demand) (values : List ComponentValue)
    (fields : List LabelValType) : Demand :=
  let inner := Demand.seqAll (fun field => d field.ty) fields
  ⟨inner.passes || decide (values.length < fields.length), inner.asks⟩

private theorem fieldsDemand_cons (d : ValType → Demand) (v : ComponentValue)
    (values : List ComponentValue) (field : LabelValType) (fields : List LabelValType) :
    ((d field.ty).seq (fieldsDemand d values fields)).Le
      (fieldsDemand d (v :: values) (field :: fields)) := by
  constructor
  · simp only [fieldsDemand, Demand.seqAll_cons, Demand.seq, List.length_cons, Bool.and_eq_true,
      Bool.or_eq_true, decide_eq_true_eq]
    rintro ⟨hfirst, hrest | hshort⟩
    · exact .inl ⟨hfirst, hrest⟩
    · exact .inr (Nat.succ_lt_succ hshort)
  · simp only [fieldsDemand, Demand.seqAll_cons, Demand.seq]
    exact id

private theorem fieldsDemand_short (d : ValType → Demand) (fields : List LabelValType)
    (field : LabelValType) : (fieldsDemand d [] (field :: fields)).passes = true := by
  simp [fieldsDemand]

private theorem fieldsDemand_le_record {d : ValType → Demand} {path : Path} (types : List (Ty M))
    (hshort : path.shortTuples = true) {fields : List LabelValType} {v : ComponentValue}
    {values : List ComponentValue} (hvalues : recordValues fields v = .ok values) :
    (fieldsDemand d values fields).Le (defvalDemand path types d (.record fields)) := by
  refine ⟨?_, id⟩
  simp only [fieldsDemand, defvalDemand, hshort, Bool.or_eq_true, decide_eq_true_eq, Bool.true_and]
  rintro (hinner | hlt)
  · exact .inl hinner
  · right
    by_contra htuple
    unfold recordValues at hvalues
    rw [if_neg htuple] at hvalues
    split at hvalues
    · have hlen := (Lib.mapM_eq_ok.mp hvalues).length_eq
      omega
    · cases hvalues

/-- The payload of a case is lowered or written by `convert`. -/
private theorem casePayload_heeds {α : Type} {d : ValType → Demand} {cases : List Case}
    {case : Case} {given : Option ComponentValue} {payload : Option (ValType × ComponentValue)}
    (hpayload : casePayload cases case given = .ok payload)
    {convert : Option (ValType × ComponentValue) → Canon σ α}
    (hsome : ∀ ty v, RunHeeds MissingOption (d ty) (convert (some (ty, v))))
    (hnone : RunSpares MissingOption (convert none)) :
    RunHeeds MissingOption (caseDemand d case) (convert payload) := by
  unfold casePayload at hpayload
  split at hpayload
  · rename_i ty v hty
    obtain rfl := Except.ok.inj hpayload
    rw [caseDemand, hty]
    exact hsome ty v
  · cases hpayload
  · rename_i hty
    obtain rfl := Except.ok.inj hpayload
    rw [caseDemand, hty]
    exact .of_spares hnone
  · rename_i v hty
    split at hpayload
    · obtain rfl := Except.ok.inj hpayload
      rw [caseDemand, hty]
      exact .of_spares hnone
    · cases hpayload

private theorem mem_of_findCase {cases : List Case} {name : String} {index : Nat} {case : Case}
    (hfind : findCase cases name = .ok (index, case)) : case ∈ cases := by
  unfold findCase at hfind
  split at hfind
  · rename_i found i hfound
    obtain ⟨rfl, rfl⟩ := Prod.mk.inj (Except.ok.inj hfind)
    have hmem := List.mem_zipIdx_iff_getElem?.mp (List.mem_of_find?_eq_some hfound)
    exact List.mem_of_getElem? hmem
  · cases hfind

include hbelow

theorem lowerFields_heeds (values : List ComponentValue) (fields : List LabelValType) :
    RunHeeds MissingOption (fieldsDemand flat values fields) (lowerFields below values fields) := by
  induction values generalizing fields with
  | nil =>
      refine fun w => ⟨fun r _ => ?_, fun _ => ?_⟩
      · cases fields with
        | nil => rfl
        | cons field fields => exact fieldsDemand_short flat fields field
      · unfold lowerFields
        exact .ok _
  | cons v values ih =>
      cases fields with
      | nil => exact .pure _
      | cons field fields =>
          refine .mono (fieldsDemand_cons flat v values field fields) ?_
          refine .bind (hbelow.flat v field.ty) fun lowered => ?_
          exact .then_free (ih fields) fun _ => .pure _

theorem writeFields_heeds (hmemory : o.memory = true) (ptr cursor : Nat)
    (values : List ComponentValue) (fields : List LabelValType) :
    RunHeeds MissingOption (fieldsDemand memory values fields)
      (writeFields p below ptr cursor values fields) := by
  induction values generalizing fields cursor with
  | nil =>
      refine fun w => ⟨fun r _ => ?_, fun _ => ?_⟩
      · cases fields with
        | nil => rfl
        | cons field fields => exact fieldsDemand_short memory fields field
      · unfold writeFields
        exact .ok _
  | cons v values ih =>
      cases fields with
      | nil => exact .pure _
      | cons field fields =>
          refine .mono (fieldsDemand_cons memory v values field fields) ?_
          refine .free_then (.lift (memoryAbiForValtype_spares p _)) fun abi => ?_
          exact .bind (hbelow.memory hmemory v field.ty _) fun _ => ih _ fields

theorem lowerVariantValue_heeds (cases : List Case) (v : ComponentValue) :
    RunHeeds MissingOption (Demand.altAll (caseDemand flat) cases)
      (lowerVariantValue below cases v) := by
  refine .lift_then (variantParts_spares v cases) ?_
  rintro ⟨name, given⟩ -
  refine .lift_then (findCase_spares cases name) ?_
  rintro ⟨index, case⟩ hfind
  refine .mono (Demand.le_altAll (mem_of_findCase hfind)) ?_
  refine .lift_then (variantPayloadFlatTypes_spares hbelow.flatTypes cases) fun types _ => ?_
  refine .lift_then (casePayload_spares cases case given) fun payload hpayload => ?_
  refine .then_free (casePayload_heeds hpayload (fun ty v => ?_) (.pure _)) fun r => ?_
  · exact .then_free (hbelow.flat v ty) fun _ =>
      .bind (.lift (hbelow.flatTypes ty)) fun _ _ _ _ => .pure _
  · exact .bind (.lift (coercePayload_spares _ _ _)) fun _ _ _ _ => .pure _

theorem writeVariantValueToMemory_heeds (hmemory : o.memory = true) (cases : List Case)
    (v : ComponentValue) (ptr : Nat) :
    RunHeeds MissingOption (Demand.altAll (caseDemand memory) cases)
      (writeVariantValueToMemory p below cases v ptr) := by
  refine .lift_then (variantParts_spares v cases) ?_
  rintro ⟨name, given⟩ -
  refine .lift_then (findCase_spares cases name) ?_
  rintro ⟨index, case⟩ hfind
  refine .mono (Demand.le_altAll (mem_of_findCase hfind)) ?_
  refine .free_then ?_ fun _ => ?_
  · exact .bind (.lift (variantDiscriminantSize_spares _)) fun _ _ _ _ => writeMemory_spares _ _
  refine .free_then (.lift (variantPayloadOffsetAndSize_spares p cases)) ?_
  rintro ⟨offset, size⟩
  refine .free_then ?_ fun _ => ?_
  · unfold clearPayload
    split
    · exact writeMemory_spares _ _
    · exact .pure _
  refine .lift_then (casePayload_spares cases case given) fun payload hpayload => ?_
  exact casePayload_heeds hpayload (fun ty v => hbelow.memory hmemory v ty _) (.pure _)

theorem writeElements_spares (hmemory : o.memory = true) {elem : ValType}
    (hasks : (memory elem).asks = false) (ptr stride index : Nat) (values : List ComponentValue) :
    RunSpares MissingOption (writeElements below elem ptr stride index values) := by
  induction values generalizing index with
  | nil => exact .pure _
  | cons v values ih =>
      exact .bind ((hbelow.memory hmemory v elem _).spares hasks) fun _ _ _ _ => ih _

theorem lowerListValue_heeds {stored : Demand} (hstored : LowersStored o stored)
    (hfree : stored = .free → ∀ ty, (memory ty).asks = false) (elem : ValType) (len : Option Nat)
    (v : ComponentValue) : RunHeeds MissingOption stored (lowerListValue p o below elem len v) := by
  unfold lowerListValue requireRealloc
  refine .free_then (.lift (listValues_spares v len)) fun values => ?_
  cases hstored with
  | bare hrealloc =>
      rw [hrealloc]
      exact fun _ => Heeds.wanting
  | full hmemory realloc hrealloc hquiet =>
      rw [hrealloc]
      refine .lift_then (.ok realloc) fun given hgiven => ?_
      obtain rfl := Except.ok.inj hgiven
      refine .free_then (.lift (memoryAbiForValtype_spares p elem)) fun abi => .of_spares ?_
      refine .bind ?_ fun ptr _ _ _ => .bind ?_ fun _ _ _ _ => .pure _
      · unfold allocateList
        split
        · exact .pure _
        · exact allocate_spares hquiet _ _ _ _ _
      · exact writeElements_spares hbelow hmemory (hfree rfl elem) ptr _ 0 values

theorem lowerDefinedValue_heeds {path : Path} (hpath : path.generics = false)
    (hfixed : path.fixed = path.stored) (hshort : path.shortTuples = true)
    (hstored : LowersStored o path.stored)
    (hfree : path.stored = .free → ∀ ty, (memory ty).asks = false) {id : TypeId} {ty : Ty M}
    (hget : p.arena.types[id]? = some ty) (v : ComponentValue) :
    RunHeeds MissingOption (typeDemand path p.arena.types flat ty)
      (lowerDefinedValue p o below v id) := by
  have hhandle : RunSpares MissingOption (do return [.i32 (← expectHandle v)] :
      Canon σ (List WasmValue)) :=
    .bind (.lift (expectHandle_spares v)) fun _ _ _ _ => .pure _
  unfold lowerDefinedValue TypeArena.get
  rw [hget]
  match ty with
  | .defVal (.primitive prim) => exact lowerPrimitive_heeds path hstored v prim
  | .defVal (.record fields) =>
      refine .lift_then (recordValues_spares v fields) fun values hvalues => ?_
      exact .mono (fieldsDemand_le_record p.arena.types hshort hvalues)
        (lowerFields_heeds hbelow values fields)
  | .defVal (.variant cases) => exact lowerVariantValue_heeds hbelow cases v
  | .defVal (.flags labels) =>
      refine .of_spares (.lift (.bind (flagWords_spares v labels) fun _ _ => .ok _))
  | .defVal (.list elem len) =>
      simp only [typeDemand, defvalDemand, hfixed, ite_self]
      exact lowerListValue_heeds hbelow hstored hfree elem len v
  | .defVal (.own resource) | .defVal (.borrow resource) =>
      exact handle_heeds p.arena.types resource hhandle
  | .resource _ => exact .of_spares hhandle
  | .generic _ =>
      simp only [typeDemand, hpath]
      exact .blocked not_false
  | .func _ | .component _ | .instance _ => exact .blocked not_false

theorem writeDefinedValueToMemory_heeds {path : Path} (hpath : path.generics = true)
    (hfixed : path.fixed = path.stored) (hshort : path.shortTuples = true)
    (hmemory : o.memory = true)
    (hstored : LowersStored o path.stored)
    (hfree : path.stored = .free → ∀ ty, (memory ty).asks = false) {id : TypeId} {ty : Ty M}
    (hget : p.arena.types[id]? = some ty) (v : ComponentValue) (ptr : Nat) :
    RunHeeds MissingOption (typeDemand path p.arena.types memory ty)
      (writeDefinedValueToMemory p o below v id ptr) := by
  have hhandle : RunSpares MissingOption (do writeMemory ptr (toLeBytes 4 (← expectHandle v)) :
      Canon σ Unit) :=
    .bind (.lift (expectHandle_spares v)) fun _ _ _ _ => writeMemory_spares _ _
  unfold writeDefinedValueToMemory TypeArena.get
  rw [hget]
  refine .free_then (.lift (requireMemory_spares hmemory)) fun _ => ?_
  match ty with
  | .defVal (.primitive prim) => exact writePrimitiveToMemory_heeds path hstored hmemory v prim ptr
  | .defVal (.record fields) =>
      refine .lift_then (recordValues_spares v fields) fun values hvalues => ?_
      exact .mono (fieldsDemand_le_record p.arena.types hshort hvalues)
        (writeFields_heeds hbelow hmemory ptr 0 values fields)
  | .defVal (.variant cases) => exact writeVariantValueToMemory_heeds hbelow hmemory cases v ptr
  | .defVal (.flags labels) =>
      refine .of_spares (.bind (.lift (flagWords_spares v labels)) fun words _ _ _ => ?_)
      split
      · exact .pure _
      · exact writeMemory_spares _ _
      · exact writeMemory_spares _ _
      · exact writeWords_spares _ _ _
  | .defVal (.list elem len) =>
      simp only [typeDemand, defvalDemand, hfixed, ite_self]
      exact .then_free (lowerListValue_heeds hbelow hstored hfree elem len v) fun _ =>
        writeFlatValues_spares _ _
  | .defVal (.own resource) | .defVal (.borrow resource) =>
      exact handle_heeds p.arena.types resource hhandle
  | .resource _ => exact .of_spares hhandle
  | .generic _ =>
      simp only [typeDemand, hpath]
      exact .of_spares hhandle
  | .func _ | .component _ | .instance _ => exact .blocked not_false

end level

/-- Two paths that lower in the same way, one to core values and one to memory. -/
theorem lowering_heeds (p : Program M) {o : RuntimeCanonicalOptions σ} {stored : Demand}
    (hstored : LowersStored o stored) (depth : Nat) :
    LevelLowers o (lowering p o depth) (demand ⟨stored, stored, false, true⟩ p.arena.types depth)
      (demand ⟨stored, stored, true, true⟩ p.arena.types depth) := by
  induction depth with
  | zero =>
      refine ⟨flatTypesForValtype_spares p.arena.types 0, ?_, ?_⟩
      · intro v ty
        cases ty with
        | primitive prim => exact lowerPrimitive_heeds ⟨stored, stored, false, true⟩ hstored v prim
        | type id => exact .blocked (by decide)
      · intro hmemory v ty ptr
        cases ty with
        | primitive prim =>
            exact writePrimitiveToMemory_heeds ⟨stored, stored, true, true⟩ hstored hmemory v prim
              ptr
        | type id => exact .blocked (by decide)
  | succ depth ih =>
      have hfree : stored = .free →
          ∀ ty, (demand ⟨stored, stored, true, true⟩ p.arena.types depth ty).asks = false :=
        fun h => demand_asks_of_free h h p.arena.types depth
      refine ⟨flatTypesForValtype_spares p.arena.types (depth + 1), ?_, ?_⟩
      · intro v ty
        cases ty with
        | primitive prim => exact lowerPrimitive_heeds ⟨stored, stored, false, true⟩ hstored v prim
        | type id =>
            unfold demand
            split
            · rename_i ty hget
              exact lowerDefinedValue_heeds ih rfl rfl rfl hstored hfree hget v
            · rename_i hget
              change RunHeeds _ _ (lowerDefinedValue p o (lowering p o depth) v id)
              unfold lowerDefinedValue TypeArena.get
              rw [hget]
              exact .blocked (by decide)
      · intro hmemory v ty ptr
        cases ty with
        | primitive prim =>
            exact writePrimitiveToMemory_heeds ⟨stored, stored, true, true⟩ hstored hmemory v prim
              ptr
        | type id =>
            unfold demand
            split
            · rename_i ty hget
              exact writeDefinedValueToMemory_heeds ih rfl rfl rfl hmemory hstored hfree hget v ptr
            · rename_i hget
              change RunHeeds _ _ (writeDefinedValueToMemory p o (lowering p o depth) v id ptr)
              unfold writeDefinedValueToMemory TypeArena.get
              rw [hget]
              exact .free_then (.lift (requireMemory_spares hmemory)) fun _ => .blocked (by decide)

section reading

variable (m : LinearMemory)

theorem readNumber_spares (w count ptr : Nat) :
    Spares MissingOption (readNumber m w count ptr) := by
  refine .bind ?_ fun _ _ => .ok _
  unfold readMemory
  split
  · exact .ok _
  · exact .error not_false

theorem charFromU32_spares (n : Nat) : Spares MissingOption (charFromU32 n) := by
  unfold charFromU32
  split
  · exact .ok _
  · exact .error not_false

theorem readStringFromMemory_spares (ptr : Nat) (len : BitVec 32)
    (encoding : Option CanonicalStringEncoding) :
    Spares MissingOption (readStringFromMemory m ptr len encoding) := by
  have hread (len : Nat) : Spares MissingOption (readMemory m ptr len) := by
    unfold readMemory
    split
    · exact .ok _
    · exact .error not_false
  have hutf16 (bytes : List Byte) : Spares MissingOption (decodeUtf16Le bytes) := by
    unfold decodeUtf16Le
    split
    · exact .ok _
    · exact .error not_false
  unfold readStringFromMemory
  split
  · refine .bind (hread _) fun bytes _ => ?_
    unfold decodeUtf8
    split
    · exact .ok _
    · exact .error not_false
  · exact .bind (hread _) fun bytes _ => hutf16 bytes
  · split
    · exact .error not_false
    · split
      · exact .bind (hread _) fun bytes _ => hutf16 bytes
      · exact .bind (hread _) fun _ _ => .ok _

theorem readPrimitiveFromMemory_spares (o : RuntimeCanonicalOptions σ) (ptr : Nat)
    (prim : PrimValType) : Spares MissingOption (readPrimitiveFromMemory o m ptr prim) := by
  cases prim with
  | string =>
      refine .bind (readNumber_spares m _ _ _) fun stringPtr _ => ?_
      refine .bind (readNumber_spares m _ _ _) fun len _ => ?_
      exact .bind (readStringFromMemory_spares m _ _ _) fun _ _ => .ok _
  | errorContext => exact .error not_false
  | char =>
      refine .bind (readNumber_spares m _ _ _) fun n _ => ?_
      exact .bind (charFromU32_spares _) fun _ _ => .ok _
  | bool | s8 | u8 | s16 | u16 | s32 | u32 | s64 | u64 | f32 | f64 =>
      exact .bind (readNumber_spares m _ _ _) fun _ _ => .ok _

theorem readWords_spares (ptr index count : Nat) :
    Spares MissingOption (readWords m ptr index count) := by
  induction count generalizing index with
  | zero => exact .ok _
  | succ count ih =>
      refine .bind (readNumber_spares m _ _ _) fun word _ => ?_
      exact .bind (ih _) fun _ _ => .ok _

theorem readFlagsValueFromMemory_spares (labels : List Label) (ptr : Nat) :
    Spares MissingOption (readFlagsValueFromMemory m labels ptr) := by
  unfold readFlagsValueFromMemory
  split
  · exact .ok _
  · exact .bind (readNumber_spares m _ _ _) fun _ _ => .ok _
  · exact .bind (readNumber_spares m _ _ _) fun _ _ => .ok _
  · exact .bind (readWords_spares m _ _ _) fun _ _ => .ok _

theorem readVariantDiscriminantFromMemory_spares (ptr count : Nat) :
    Spares MissingOption (readVariantDiscriminantFromMemory m ptr count) := by
  refine .bind (variantDiscriminantSize_spares count) fun size _ => ?_
  split
  all_goals exact .bind (readNumber_spares m _ _ _) fun _ _ => .ok _

end reading

theorem caseAt_spares (cases : List Case) (index : Nat) :
    Spares MissingOption (caseAt cases index) := by
  unfold caseAt
  split
  · exact .ok _
  · exact .error not_false

theorem checkFixedLength_spares (len : Option Nat) (given : BitVec 32) :
    Spares MissingOption (checkFixedLength len given) := by
  unfold checkFixedLength
  repeat' split
  all_goals first | exact .ok _ | exact .error not_false

namespace CoreValueCursor

theorem next_spares : RunSpares MissingOption next := by
  intro values
  cases values with
  | nil => exact .error not_false
  | cons value values => exact .ok _

theorem nextI32_spares : RunSpares MissingOption nextI32 := by
  refine .bind next_spares fun value _ _ _ => ?_
  cases value <;> first | exact .pure _ | exact .throw not_false

theorem nextI64_spares : RunSpares MissingOption nextI64 := by
  refine .bind next_spares fun value _ _ _ => ?_
  cases value <;> first | exact .pure _ | exact .throw not_false

theorem nextF32_spares : RunSpares MissingOption nextF32 := by
  refine .bind next_spares fun value _ _ _ => ?_
  cases value <;> first | exact .pure _ | exact .throw not_false

theorem nextF64_spares : RunSpares MissingOption nextF64 := by
  refine .bind next_spares fun value _ _ _ => ?_
  cases value <;> first | exact .pure _ | exact .throw not_false

theorem nextForType_spares (ty : CoreValType) : RunSpares MissingOption (nextForType ty) := by
  cases ty with
  | i32 => exact .bind nextI32_spares fun _ _ _ _ => .pure _
  | i64 => exact .bind nextI64_spares fun _ _ _ _ => .pure _
  | f32 => exact .bind nextF32_spares fun _ _ _ _ => .pure _
  | f64 => exact .bind nextF64_spares fun _ _ _ _ => .pure _
  | funcRef | externRef | v128 => exact .throw not_false

theorem nextWords_spares (count : Nat) : RunSpares MissingOption (nextWords count) := by
  induction count with
  | zero => exact .pure _
  | succ count ih =>
      exact .bind nextI32_spares fun _ _ _ _ => .bind ih fun _ _ _ _ => .pure _

end CoreValueCursor

open CoreValueCursor

/-- What the options of a lifting make of strings and lists. -/
inductive LiftsStored (o : RuntimeCanonicalOptions σ) : Demand → Prop
  | bare (hmemory : o.memory = false) : LiftsStored o .wanting
  | full (hmemory : o.memory = true) : LiftsStored o .free

theorem memory_heeds {α : Type} {o : RuntimeCanonicalOptions σ} {stored : Demand}
    (hstored : LiftsStored o stored) {x : CoreValueCursor α} (hx : RunSpares MissingOption x) :
    RunHeeds MissingOption stored (do requireMemory o; x) := by
  unfold requireMemory
  cases hstored with
  | bare hmemory =>
      rw [hmemory]
      exact fun _ => Heeds.wanting
  | full hmemory =>
      rw [hmemory]
      exact .of_spares (.bind (.lift (.ok _)) fun _ _ _ _ => hx)

theorem liftPrimitive_heeds {o : RuntimeCanonicalOptions σ} (path : Path)
    (hstored : LiftsStored o path.stored) (m : LinearMemory) (prim : PrimValType) :
    RunHeeds MissingOption (primDemand path prim) (liftPrimitive o m prim) := by
  cases prim with
  | string =>
      refine memory_heeds hstored ?_
      refine .bind nextI32_spares fun ptr _ _ _ => .bind nextI32_spares fun len _ _ _ => ?_
      exact .bind (.lift (readStringFromMemory_spares m _ _ _)) fun _ _ _ _ => .pure _
  | errorContext => exact .blocked not_false
  | char =>
      refine .of_spares (.bind nextI32_spares fun n _ _ _ => ?_)
      exact .bind (.lift (charFromU32_spares _)) fun _ _ _ _ => .pure _
  | s64 | u64 => exact .of_spares (.bind nextI64_spares fun _ _ _ _ => .pure _)
  | f32 => exact .of_spares (.bind nextF32_spares fun _ _ _ _ => .pure _)
  | f64 => exact .of_spares (.bind nextF64_spares fun _ _ _ _ => .pure _)
  | bool | s8 | u8 | s16 | u16 | s32 | u32 =>
      exact .of_spares (.bind nextI32_spares fun _ _ _ _ => .pure _)

/-- Lifting one level down keeps to the demands of the types; memory that is there is read. -/
structure LevelLifts (below : Lifting) (flat : ValType → Demand) : Prop where
  flatTypes : ∀ ty, Spares MissingOption (below.flatTypes ty)
  flat : ∀ ty, RunHeeds MissingOption (flat ty) (below.flat ty)
  memory : ∀ ty ptr, Spares MissingOption (below.memory ty ptr)

section level

variable {p : Program M} {o : RuntimeCanonicalOptions σ} {m : LinearMemory} {below : Lifting}
  {flat : ValType → Demand} (hbelow : LevelLifts below flat)

include hbelow

theorem liftFields_heeds (fields : List LabelValType) :
    RunHeeds MissingOption (Demand.seqAll (fun field => flat field.ty) fields)
      (liftFields below fields) := by
  induction fields with
  | nil => exact .pure _
  | cons field fields ih =>
      refine .bind (hbelow.flat field.ty) fun value => ?_
      exact .then_free ih fun _ => .pure _

theorem readFields_spares (ptr cursor : Nat) (fields : List LabelValType) :
    Spares MissingOption (readFields p below ptr cursor fields) := by
  induction fields generalizing cursor with
  | nil => exact .ok _
  | cons field fields ih =>
      refine .bind (memoryAbiForValtype_spares p _) fun abi _ => ?_
      refine .bind (hbelow.memory _ _) fun value _ => ?_
      exact .bind (ih _) fun _ _ => .ok _

theorem liftCasePayload_heeds (payloadTypes : List CoreValType) (raw : List WasmValue)
    (case : Case) :
    Heeds MissingOption (caseDemand flat case)
      (liftCasePayload below payloadTypes raw case.ty) := by
  unfold caseDemand
  cases case.ty with
  | none => exact .of_spares (.ok _)
  | some ty =>
      change Heeds MissingOption (flat ty) _
      refine .free_then (hbelow.flatTypes ty) fun expected _ => ?_
      refine .free_then (expectedPayload_spares _ _ _) fun values _ => ?_
      exact .then_free (hbelow.flat ty values) fun _ => .ok _

theorem liftVariantValue_heeds (cases : List Case) :
    RunHeeds MissingOption (Demand.altAll (caseDemand flat) cases)
      (liftVariantValue below cases) := by
  refine .free_then nextI32_spares fun index => ?_
  refine .lift_then (caseAt_spares cases _) fun case hcase => ?_
  refine .mono (Demand.le_altAll (x := case) ?_) ?_
  · unfold caseAt at hcase
    split at hcase
    · rename_i hget
      obtain rfl := Except.ok.inj hcase
      exact List.mem_of_getElem? hget
    · cases hcase
  · refine .lift_then (variantPayloadFlatTypes_spares hbelow.flatTypes cases) fun types _ => ?_
    refine .free_then (.mapM fun ty _ => nextForType_spares ty) fun raw => ?_
    exact .then_free (.lift (liftCasePayload_heeds hbelow types raw case)) fun _ => .pure _

theorem readVariantValueFromMemory_spares (cases : List Case) (ptr : Nat) :
    Spares MissingOption (readVariantValueFromMemory p m below cases ptr) := by
  refine .bind (readVariantDiscriminantFromMemory_spares m _ _) fun discriminant _ => ?_
  refine .bind (caseAt_spares cases _) fun case _ => ?_
  refine .bind (variantPayloadOffsetAndSize_spares p cases) fun offset _ => ?_
  refine .bind ?_ fun _ _ => .ok _
  cases case.ty with
  | none => exact .ok _
  | some ty => exact .bind (hbelow.memory _ _) fun _ _ => .ok _

theorem readListElements_spares (elem : ValType) (base : Nat) (len : BitVec 32) :
    Spares MissingOption (readListElements p below elem base len) := by
  have helements (stride index count : Nat) :
      Spares MissingOption (readElements below elem base stride index count) := by
    induction count generalizing index with
    | zero => exact .ok _
    | succ count ih =>
        refine .bind ?_ fun address _ => .bind (hbelow.memory _ _) fun value _ => ?_
        · unfold elementAddress
          split
          · exact .ok _
          · exact .error not_false
        · exact .bind (ih _) fun _ _ => .ok _
  refine .bind (.bind (memoryAbiForValtype_spares p elem) fun _ _ => .ok _) fun stride _ => ?_
  split
  · exact .error not_false
  · exact helements _ _ _

theorem liftListValue_heeds {stored : Demand} (hstored : LiftsStored o stored) (elem : ValType)
    (len : Option Nat) : RunHeeds MissingOption stored (liftListValue p o below elem len) := by
  refine memory_heeds hstored ?_
  refine .bind nextI32_spares fun ptr _ _ _ => .bind nextI32_spares fun given _ _ _ => ?_
  refine .bind (.lift (checkFixedLength_spares len given)) fun _ _ _ _ => ?_
  exact .bind (.lift (readListElements_spares hbelow elem _ given)) fun _ _ _ _ => .pure _

theorem readListValueFromMemory_spares (elem : ValType) (len : Option Nat) (ptr : Nat) :
    Spares MissingOption (readListValueFromMemory p m below elem len ptr) := by
  refine .bind (readNumber_spares m _ _ _) fun listPtr _ => .bind ?_ fun address _ => ?_
  · unfold lengthAddress
    split
    · exact .ok _
    · exact .error not_false
  refine .bind (readNumber_spares m _ _ _) fun given _ => ?_
  refine .bind (checkFixedLength_spares len given) fun _ _ => ?_
  exact .bind (readListElements_spares hbelow elem _ given) fun _ _ => .ok _

theorem liftDefinedValue_heeds {path : Path} (hpath : path.generics = false)
    (hfixed : path.fixed = path.stored) (hstored : LiftsStored o path.stored) {ref : TypeId}
    {ty : Ty M}
    (hget : p.arena.types[ref]? = some ty) :
    RunHeeds MissingOption (typeDemand path p.arena.types flat ty)
      (liftDefinedValue p o m below ref) := by
  unfold liftDefinedValue TypeArena.get
  rw [hget]
  match ty with
  | .defVal (.primitive prim) => exact liftPrimitive_heeds path hstored m prim
  | .defVal (.record fields) =>
      have hle : (Demand.seqAll (fun field => flat field.ty) fields).Le
          (defvalDemand path p.arena.types flat (.record fields)) :=
        ⟨fun h => by simp [defvalDemand, h], id⟩
      exact .then_free (.mono hle (liftFields_heeds hbelow fields)) fun _ => .pure _
  | .defVal (.variant cases) => exact liftVariantValue_heeds hbelow cases
  | .defVal (.flags labels) =>
      exact .of_spares (.bind (nextWords_spares _) fun _ _ _ _ => .pure _)
  | .defVal (.list elem len) =>
      simp only [typeDemand, defvalDemand, hfixed, ite_self]
      exact liftListValue_heeds hbelow hstored elem len
  | .defVal (.own resource) | .defVal (.borrow resource) =>
      exact handle_heeds p.arena.types resource (.bind nextI32_spares fun _ _ _ _ => .pure _)
  | .resource _ => exact .of_spares (.bind nextI32_spares fun _ _ _ _ => .pure _)
  | .generic _ =>
      simp only [typeDemand, hpath]
      exact .blocked not_false
  | .func _ | .component _ | .instance _ => exact .blocked not_false

theorem readDefinedValueFromMemory_spares (ref : TypeId) (ptr : Nat) :
    Spares MissingOption (readDefinedValueFromMemory p o m below ref ptr) := by
  unfold readDefinedValueFromMemory
  split
  · exact readPrimitiveFromMemory_spares m o ptr _
  · exact .bind (readFields_spares hbelow _ _ _) fun _ _ => .ok _
  · exact readVariantValueFromMemory_spares hbelow _ _
  · exact readFlagsValueFromMemory_spares m _ _
  · exact readListValueFromMemory_spares hbelow _ _ _
  · refine .bind (validateResourceType_spares _ _ _) fun _ _ => ?_
    exact .bind (readNumber_spares m _ _ _) fun _ _ => .ok _
  · refine .bind (validateResourceType_spares _ _ _) fun _ _ => ?_
    exact .bind (readNumber_spares m _ _ _) fun _ _ => .ok _
  · exact .bind (readNumber_spares m _ _ _) fun _ _ => .ok _
  · exact .bind (readNumber_spares m _ _ _) fun _ _ => .ok _
  · exact .error not_false
  · exact .error (by decide)

end level

theorem lifting_heeds (p : Program M) {o : RuntimeCanonicalOptions σ} (m : LinearMemory)
    {stored : Demand} (hstored : LiftsStored o stored) (depth : Nat) :
    LevelLifts (lifting p o m depth)
      (demand ⟨stored, stored, false, false⟩ p.arena.types depth) := by
  induction depth with
  | zero =>
      refine ⟨flatTypesForValtype_spares p.arena.types 0, ?_, ?_⟩
      · intro ty
        cases ty with
        | primitive prim => exact liftPrimitive_heeds ⟨stored, stored, false, false⟩ hstored m prim
        | type ref => exact .blocked (by decide)
      · intro ty ptr
        cases ty with
        | primitive prim => exact readPrimitiveFromMemory_spares m o ptr prim
        | type ref => exact .error (by decide)
  | succ depth ih =>
      refine ⟨flatTypesForValtype_spares p.arena.types (depth + 1), ?_, ?_⟩
      · intro ty
        cases ty with
        | primitive prim => exact liftPrimitive_heeds ⟨stored, stored, false, false⟩ hstored m prim
        | type ref =>
            unfold demand
            split
            · rename_i ty hget
              exact liftDefinedValue_heeds ih rfl rfl hstored hget
            · rename_i hget
              change RunHeeds _ _ (liftDefinedValue p o m (lifting p o m depth) ref)
              unfold liftDefinedValue TypeArena.get
              rw [hget]
              exact .blocked (by decide)
      · intro ty ptr
        cases ty with
        | primitive prim => exact readPrimitiveFromMemory_spares m o ptr prim
        | type ref => exact readDefinedValueFromMemory_spares ih ref ptr

end Telomere.Component
