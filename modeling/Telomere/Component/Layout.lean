import Telomere.Component.TypeInfos
import Telomere.Component.Allocator

/-!
# The layout of values in memory

Where the fields of a record and the payload of a variant lie. Sizes are 32-bit: as long as they do
not run over, the parts of a value lie one behind the other inside of it.
-/

namespace Telomere.Component

variable {M : Type}

def alignUp (value align : Nat) : Nat :=
  if value % align = 0 then value else value + (align - value % align)

theorem le_alignUp (value align : Nat) : value ≤ alignUp value align := by
  unfold alignUp
  split <;> omega

theorem alignUp_mod (value : Nat) {align : Nat} (hpos : 0 < align) :
    alignUp value align % align = 0 := by
  unfold alignUp
  split
  · assumption
  · have hlt := Nat.mod_lt value hpos
    have hsum : value + (align - value % align) = align * (value / align + 1) := by
      have := Nat.div_add_mod value align
      rw [Nat.mul_add]
      omega
    rw [hsum]
    exact Nat.mul_mod_right _ _

theorem alignTo_eq {value align : Nat} (h : alignUp value align < 2 ^ 32) :
    alignTo value align = alignUp value align := by
  unfold alignTo
  unfold alignUp at h ⊢
  split
  · next hle =>
      rcases Nat.le_one_iff_eq_zero_or_eq_one.mp hle with rfl | rfl
      · split
        · rfl
        · simp at *
      · rw [if_pos (Nat.mod_one value)]
  · split
    · rfl
    · next hmod =>
        rw [if_neg hmod] at h
        exact Nat.mod_eq_of_lt h

theorem mem_alignments {align : Nat} :
    align ∈ alignments ↔ align = 1 ∨ align = 2 ∨ align = 4 ∨ align = 8 := by
  simp [alignments]

theorem one_mem_alignments : 1 ∈ alignments := by decide

theorem four_mem_alignments : 4 ∈ alignments := by decide

theorem max_mem_alignments {a b : Nat} (ha : a ∈ alignments) (hb : b ∈ alignments) :
    max a b ∈ alignments := by
  rcases Nat.le_total a b with h | h
  · rwa [Nat.max_eq_right h]
  · rwa [Nat.max_eq_left h]

namespace Program

variable (p : Program M)

def abi (ty : ValType) : MemoryAbiInfo :=
  ⟨(p.info ty).indirectSize, max (p.info ty).indirectAlign 1⟩

def Known (ty : ValType) : Prop := ∀ ref ∈ ty.refs, ref < p.arena.types.length

variable {p}

theorem memoryAbiForValtype_eq {ty : ValType} (hknown : p.Known ty) :
    p.memoryAbiForValtype ty = .ok (p.abi ty) := by
  cases ty with
  | primitive prim =>
      have hinfo : p.info (.primitive prim) = primitiveInfo prim := by
        unfold info infoOf
        rfl
      unfold memoryAbiForValtype abi
      rw [hinfo]
      cases prim <;> rfl
  | type id =>
      have hget := p.getElem?_typeInfos (hknown id (List.mem_singleton_self id))
      simp only [memoryAbiForValtype, hget]
      rfl

theorem abi_primitive (prim : PrimValType) :
    p.abi (.primitive prim) = memoryAbiForPrimitive prim := by
  have hknown : p.Known (.primitive prim) := by simp [Known, ValType.refs]
  exact (Except.ok.inj (memoryAbiForValtype_eq hknown)).symm

theorem known_of_refs {id : Nat} {ty : DefValType} (hty : p.arena.types[id]? = some (.defVal ty))
    {below : ValType} (hrefs : below.refs ⊆ ty.refs) : p.Known below := by
  intro ref href
  have hlt := p.arena.refs_lt id _ hty ref (hrefs href)
  have hid := (List.getElem?_eq_some_iff.mp hty).1
  omega

end Program

theorem primitiveInfo_align (prim : PrimValType) :
    (primitiveInfo prim).indirectAlign ∈ alignments := by
  cases prim <;> decide

theorem discriminantBytes_mem (caseCount : Nat) : discriminantBytes caseCount ∈ alignments := by
  unfold discriminantBytes
  split
  · decide
  · split <;> decide

theorem foldl_addField_align (infos : List TypeInfo) (acc : Nat × Nat × Nat)
    (hacc : acc.2.2 ∈ alignments) (hinfos : ∀ info ∈ infos, info.indirectAlign ∈ alignments) :
    (infos.foldl addField acc).2.2 ∈ alignments := by
  induction infos generalizing acc with
  | nil => exact hacc
  | cons info infos ih =>
      rw [List.foldl_cons]
      apply ih
      · exact max_mem_alignments hacc (hinfos info (List.mem_cons_self ..))
      · exact fun info hmem => hinfos info (List.mem_cons_of_mem _ hmem)

theorem foldl_addCase_align (infos : List TypeInfo) (acc : Nat × Nat × Nat)
    (hacc : acc.2.2 ∈ alignments) (hinfos : ∀ info ∈ infos, info.indirectAlign ∈ alignments) :
    (infos.foldl addCase acc).2.2 ∈ alignments := by
  induction infos generalizing acc with
  | nil => exact hacc
  | cons info infos ih =>
      rw [List.foldl_cons]
      apply ih
      · exact max_mem_alignments hacc (hinfos info (List.mem_cons_self ..))
      · exact fun info hmem => hinfos info (List.mem_cons_of_mem _ hmem)

theorem flagsInfo_align (count : Nat) : (flagsInfo count).2.2 ∈ alignments := by
  unfold flagsInfo
  split
  · exact one_mem_alignments
  · split
    · exact one_mem_alignments
    · split
      · exact (by decide : 2 ∈ alignments)
      · exact four_mem_alignments

theorem defvalInfoOf_align {info : ValType → TypeInfo}
    (hinfo : ∀ ty, (info ty).indirectAlign ∈ alignments) (id : TypeId) (ty : DefValType) :
    (defvalInfoOf info id ty).indirectAlign ∈ alignments := by
  cases ty with
  | primitive prim => exact primitiveInfo_align prim
  | record fields =>
      apply max_mem_alignments _ (by decide)
      apply foldl_addField_align _ _ (by decide)
      simp only [List.mem_map]
      rintro _ ⟨field, -, rfl⟩
      exact hinfo field.ty
  | variant cases =>
      apply max_mem_alignments _ (by decide)
      apply foldl_addCase_align _ _ (discriminantBytes_mem _)
      simp only [List.mem_filterMap, Option.map_eq_some_iff]
      rintro _ ⟨case, -, ty, -, rfl⟩
      exact hinfo ty
  | flags labels => exact flagsInfo_align labels.length
  | list | own | borrow => exact four_mem_alignments

theorem infoOf_align (types : List (Ty M)) (depth : Nat) (ty : ValType) :
    (infoOf types depth ty).indirectAlign ∈ alignments := by
  induction depth generalizing ty with
  | zero =>
      cases ty with
      | primitive prim => exact primitiveInfo_align prim
      | type id => exact one_mem_alignments
  | succ depth ih =>
      cases ty with
      | primitive prim => exact primitiveInfo_align prim
      | type id =>
          unfold infoOf
          cases types[id]? with
          | none => exact one_mem_alignments
          | some ty =>
              cases ty with
              | defVal ty => exact defvalInfoOf_align ih id ty
              | resource | generic => exact four_mem_alignments
              | func | component | «instance» => exact one_mem_alignments

namespace Program

variable {p : Program M}

theorem abi_align (p : Program M) (ty : ValType) : (p.abi ty).align ∈ alignments :=
  max_mem_alignments (infoOf_align _ _ _) one_mem_alignments

theorem info_align (p : Program M) (ty : ValType) :
    (p.info ty).indirectAlign = (p.abi ty).align := by
  have := mem_alignments.mp (infoOf_align p.arena.types p.arena.types.length ty)
  simp only [abi, info]
  omega

theorem abi_align_pos (p : Program M) (ty : ValType) : 0 < (p.abi ty).align := by
  have := mem_alignments.mp (p.abi_align ty)
  omega

def fieldsEnd (p : Program M) : Nat → List LabelValType → Nat
  | cursor, [] => cursor
  | cursor, field :: fields =>
      fieldsEnd p (alignUp cursor (p.abi field.ty).align + (p.abi field.ty).size) fields

def fieldsAlign (p : Program M) (fields : List LabelValType) : Nat :=
  max (recordAcc p.info fields).2.2 1

def RecordFits (p : Program M) (fields : List LabelValType) : Prop :=
  alignUp (p.fieldsEnd 0 fields) (p.fieldsAlign fields) < 2 ^ 32

theorem le_fieldsEnd (fields : List LabelValType) (cursor : Nat) :
    cursor ≤ p.fieldsEnd cursor fields := by
  induction fields generalizing cursor with
  | nil => exact Nat.le_refl _
  | cons field fields ih =>
      have hstart := le_alignUp cursor (p.abi field.ty).align
      have hrest := ih (alignUp cursor (p.abi field.ty).align + (p.abi field.ty).size)
      unfold fieldsEnd
      omega

theorem foldl_addField_size (fields : List LabelValType) (acc : Nat × Nat × Nat)
    (hfits : p.fieldsEnd acc.2.1 fields < 2 ^ 32) :
    ((fields.map fun field => p.info field.ty).foldl addField acc).2.1 =
      p.fieldsEnd acc.2.1 fields := by
  induction fields generalizing acc with
  | nil => rfl
  | cons field fields ih =>
      unfold fieldsEnd at hfits
      have hle := le_fieldsEnd (p := p) fields
        (alignUp acc.2.1 (p.abi field.ty).align + (p.abi field.ty).size)
      have hsize : (addField acc (p.info field.ty)).2.1 =
          alignUp acc.2.1 (p.abi field.ty).align + (p.abi field.ty).size := by
        unfold addField saturatingAdd
        dsimp only
        rw [p.info_align, alignTo_eq (by omega)]
        exact Nat.min_eq_left (by simp only [abi] at hle hfits ⊢; omega)
      rw [List.map_cons, List.foldl_cons, ih _ (by rwa [hsize]), hsize]
      rfl

theorem abi_record {id : Nat} {fields : List LabelValType}
    (hty : p.arena.types[id]? = some (.defVal (.record fields))) (hfits : p.RecordFits fields) :
    (p.abi (.type id)).size = alignUp (p.fieldsEnd 0 fields) (p.fieldsAlign fields) ∧
      (p.abi (.type id)).align = p.fieldsAlign fields := by
  have hend := le_alignUp (p.fieldsEnd 0 fields) (p.fieldsAlign fields)
  unfold RecordFits at hfits
  have hsize := foldl_addField_size (p := p) fields (0, 0, 1) (by dsimp only; omega)
  unfold abi
  rw [p.info_type hty]
  simp only [defvalInfoOf]
  refine ⟨?_, by simp [fieldsAlign]⟩
  change alignTo (recordAcc p.info fields).2.1 (p.fieldsAlign fields) = _
  rw [recordAcc, hsize]
  exact alignTo_eq hfits

def payloadSize (p : Program M) (cases : List Case) : Nat := (variantAcc p.info cases).2.1

def payloadAlign (p : Program M) (cases : List Case) : Nat := max (variantAcc p.info cases).2.2 1

def payloadOffset (p : Program M) (cases : List Case) : Nat :=
  alignUp (discriminantBytes cases.length) (p.payloadAlign cases)

structure VariantFits (p : Program M) (cases : List Case) : Prop where
  count : cases.length ≤ 2 ^ 32
  size : alignUp (p.payloadOffset cases + p.payloadSize cases) (p.payloadAlign cases) < 2 ^ 32

theorem payloadAlign_mem (cases : List Case) : p.payloadAlign cases ∈ alignments := by
  apply max_mem_alignments _ one_mem_alignments
  apply foldl_addCase_align _ _ (discriminantBytes_mem _)
  simp only [List.mem_filterMap, Option.map_eq_some_iff]
  rintro _ ⟨case, -, ty, -, rfl⟩
  exact infoOf_align _ _ _

theorem foldl_addCase_size (infos : List TypeInfo) (acc : Nat × Nat × Nat) :
    acc.2.1 ≤ (infos.foldl addCase acc).2.1 ∧
      ∀ info ∈ infos, info.indirectSize ≤ (infos.foldl addCase acc).2.1 := by
  induction infos generalizing acc with
  | nil => exact ⟨Nat.le_refl _, by simp⟩
  | cons info infos ih =>
      obtain ⟨hacc, hinfos⟩ := ih (addCase acc info)
      rw [List.foldl_cons]
      refine ⟨Nat.le_trans (Nat.le_max_left _ _) hacc, ?_⟩
      intro info' hmem
      rcases List.mem_cons.mp hmem with rfl | hmem
      · exact Nat.le_trans (Nat.le_max_right _ _) hacc
      · exact hinfos info' hmem

theorem size_le_payloadSize {cases : List Case} {case : Case} {ty : ValType} (hmem : case ∈ cases)
    (hty : case.ty = some ty) : (p.abi ty).size ≤ p.payloadSize cases := by
  apply (foldl_addCase_size _ _).2 (p.info ty)
  exact List.mem_filterMap.mpr ⟨case, hmem, by rw [hty]; rfl⟩

theorem foldlM_casePayloadAbi (cases : List Case) (acc : Nat × Nat × Nat)
    (hknown : ∀ case ∈ cases, ∀ ty, case.ty = some ty → p.Known ty) :
    cases.foldlM p.casePayloadAbi acc.2 =
      .ok ((cases.filterMap fun case => case.ty.map p.info).foldl addCase acc).2 := by
  induction cases generalizing acc with
  | nil => rfl
  | cons case cases ih =>
      have hrest := fun acc => ih acc fun case hmem => hknown case (List.mem_cons_of_mem _ hmem)
      rw [List.foldlM_cons]
      cases hty : case.ty with
      | none =>
          have hstep : p.casePayloadAbi acc.2 case = .ok acc.2 := by
            unfold casePayloadAbi
            rw [hty]
            rfl
          rw [hstep, Lib.ok_bind, List.filterMap_cons_none (by simp [hty])]
          exact hrest acc
      | some ty =>
          have habi := memoryAbiForValtype_eq (hknown case (List.mem_cons_self ..) ty hty)
          have hpos := p.abi_align_pos ty
          have hstep : p.casePayloadAbi acc.2 case = .ok (addCase acc (p.info ty)).2 := by
            unfold casePayloadAbi
            rw [hty]
            dsimp only
            rw [habi, Lib.ok_bind, Nat.max_eq_left (show 1 ≤ (p.abi ty).align from hpos),
              ← p.info_align]
            rfl
          have hcons : ((case :: cases).filterMap fun case => case.ty.map p.info) =
              p.info ty :: cases.filterMap fun case => case.ty.map p.info :=
            List.filterMap_cons_some (by simp [hty])
          rw [hstep, Lib.ok_bind, hcons, List.foldl_cons]
          exact hrest _

theorem variantDiscriminantSize_ok {cases : List Case} (hcount : cases.length ≤ 2 ^ 32) :
    variantDiscriminantSize cases.length = .ok (discriminantBytes cases.length) := by
  unfold variantDiscriminantSize discriminantBytes
  split
  · rfl
  · split
    · rfl
    · rfl

theorem discriminant_fits (cases : List Case) :
    discriminantBytes cases.length ≤ p.payloadOffset cases :=
  le_alignUp _ _

theorem payloadOffset_lt (cases : List Case) : p.payloadOffset cases < 2 ^ 32 := by
  have hbytes := mem_alignments.mp (discriminantBytes_mem cases.length)
  have halign := mem_alignments.mp (payloadAlign_mem (p := p) cases)
  unfold payloadOffset alignUp
  split <;> omega

theorem variantPayloadOffsetAndSize_eq {cases : List Case} (hcount : cases.length ≤ 2 ^ 32)
    (hknown : ∀ case ∈ cases, ∀ ty, case.ty = some ty → p.Known ty) :
    p.variantPayloadOffsetAndSize cases = .ok (p.payloadOffset cases, p.payloadSize cases) := by
  have hfold := foldlM_casePayloadAbi cases (0, 0, discriminantBytes cases.length) hknown
  unfold variantPayloadOffsetAndSize
  rw [variantDiscriminantSize_ok hcount, Lib.ok_bind, hfold, Lib.ok_bind]
  change Except.ok (alignTo (discriminantBytes cases.length) (p.payloadAlign cases), _) = _
  rw [alignTo_eq (payloadOffset_lt cases)]
  rfl

theorem abi_variant {id : Nat} {cases : List Case}
    (hty : p.arena.types[id]? = some (.defVal (.variant cases))) (hfits : p.VariantFits cases) :
    (p.abi (.type id)).size =
        alignUp (p.payloadOffset cases + p.payloadSize cases) (p.payloadAlign cases) ∧
      (p.abi (.type id)).align = p.payloadAlign cases := by
  have hsum := le_alignUp (p.payloadOffset cases + p.payloadSize cases) (p.payloadAlign cases)
  have hsize := hfits.size
  unfold abi
  rw [p.info_type hty]
  simp only [defvalInfoOf]
  refine ⟨?_, by simp [payloadAlign]⟩
  change alignTo (saturatingAdd (alignTo (discriminantBytes cases.length) (p.payloadAlign cases))
    (p.payloadSize cases)) (p.payloadAlign cases) = _
  rw [alignTo_eq (payloadOffset_lt cases)]
  change alignTo (saturatingAdd (p.payloadOffset cases) (p.payloadSize cases)) _ = _
  have hadd : saturatingAdd (p.payloadOffset cases) (p.payloadSize cases) =
      p.payloadOffset cases + p.payloadSize cases := Nat.min_eq_left (by omega)
  rw [hadd]
  exact alignTo_eq hsize

end Program

end Telomere.Component
